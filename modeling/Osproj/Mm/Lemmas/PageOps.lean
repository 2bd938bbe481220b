import Osproj.Base.Run
import Osproj.Mm.Lemmas.Unmap

/-!
This module contains the account of the pages that `map_page` takes for page tables: each is marked as
used, but `unmap_page` gives none of them back.
-/

namespace Osproj

open Paging

instance (w : Nat) : Decidable (IsTable w) := by
  unfold IsTable
  infer_instance

section Count

variable {p p' : Nat → Prop} [DecidablePred p] [DecidablePred p'] {n i : Nat}

theorem count_eq_of_iff (h : ∀ k, k < n → (p' k ↔ p k)) : Nat.count p' n = Nat.count p n :=
  Nat.le_antisymm (Nat.count_mono_left fun k hk => (h k hk).mp)
    (Nat.count_mono_left fun k hk => (h k hk).mpr)

theorem count_eq_succ (hi : i < n) (hp : ¬ p i) (hp' : p' i) (h : ∀ k, k < n → k ≠ i → (p' k ↔ p k))
    : Nat.count p' n = Nat.count p n + 1 := by
  induction n with
  | zero => omega
  | succ n ih =>
    rw [Nat.count_succ, Nat.count_succ]
    by_cases heq : i = n
    . subst heq
      rw [if_pos hp', if_neg hp, count_eq_of_iff (fun k hk => h k (by omega) (by omega))]
    . rw [ih (by omega) (fun k hk => h k (by omega))]
      have hn := h n (by omega) (Ne.symm heq)
      by_cases hpn : p n
      . rw [if_pos hpn, if_pos (hn.mpr hpn)]
      . rw [if_neg hpn, if_neg (fun h => hpn (hn.mp h))]

end Count

structure PageDir (cfg : MemConfig) where
  addr : Nat
  aligned : addr % PAGE_SIZE = 0
  low : addr + PAGE_SIZE ≤ 0x40000000
  apart : addr + PAGE_SIZE ≤ cfg.kernelEnd ∨ cfg.kernelEnd + 4 * cfg.kernelMemPages ≤ addr

namespace PageDir

variable {cfg : MemConfig} (d : PageDir cfg) (m : Memory)

def usedPages (cfg : MemConfig) (m : Memory) : Nat :=
  Nat.count (fun i => m.load (cfg.kernelEnd + i) = MEM_USED) cfg.kernelMemPages

def tableCount : Nat := Nat.count (fun i => IsTable (m.loadWord (d.addr + 4 * i))) 1024

def Clear (a n : Nat) : Prop :=
  (a + n ≤ cfg.kernelEnd ∨ cfg.kernelEnd + cfg.kernelMemPages ≤ a)
    ∧ (a + n ≤ d.addr ∨ d.addr + PAGE_SIZE ≤ a)

/--
The call keeps the account: it maps, and either refuses because of a 4 MB page or finds no table and takes
the page before the first unused one, and neither the page nor the entry behind it overwrites what is
counted.
-/
def Keeps : MapOp → Prop
  | .map _ virt _ _ =>
    bit (m.loadWord (pdeAddr d.addr virt.toNat)) 7 = 1
      ∨ (bit (m.loadWord (pdeAddr d.addr virt.toNat)) 0 = 0
        ∧ ∃ b, b + 1 < cfg.kernelMemPages ∧ m.load (cfg.kernelEnd + (b + 1)) = MEM_UNUSED
          ∧ (∀ c, c ≤ b → m.load (cfg.kernelEnd + c) ≠ MEM_UNUSED)
          ∧ d.Clear (b * PAGE_SIZE) PAGE_SIZE
          ∧ PageTables.ptePtr (b * PAGE_SIZE) virt.toNat < 0x40000000
          ∧ d.Clear (PageTables.ptePtr (b * PAGE_SIZE) virt.toNat) 4)
  | .unmap _ => False

def Conserved (m₀ m : Memory) : Prop := usedPages cfg m = usedPages cfg m₀ + d.tableCount m

section View

variable {m}

theorem load_ofKernelSpace {m' : Memory} {a : Nat} (ha : a < 0x40000000)
    : (m.ofKernelSpace m').load a = m'.load (a + KERNEL_BASE) := by
  simp only [Memory.load, Memory.ofKernelSpace]
  rw [if_pos ha]

theorem load_toKernelSpace (a : Nat) : m.toKernelSpace.load (a + KERNEL_BASE) = m.load a := by
  have hbase : KERNEL_BASE = 0xC0000000 := rfl
  simp only [Memory.load, Memory.toKernelSpace, lin2phy]
  rw [if_pos (by omega), show a + KERNEL_BASE - 0xC0000000 = a by omega]

end View

section Map

variable {m} {b : Nat}

theorem palloc_page (hb : b + 1 < cfg.kernelMemPages)
    (hunused : m.load (cfg.kernelEnd + (b + 1)) = MEM_UNUSED)
    (hleast : ∀ c, c ≤ b → m.load (cfg.kernelEnd + c) ≠ MEM_UNUSED)
    : cfg.palloc m.toKernelSpace ZONE_KERNEL PAGE_SIZE
        =
      (b * PAGE_SIZE + KERNEL_BASE,
        m.toKernelSpace.store (cfg.kernelEnd + (b + 1) + KERNEL_BASE) MEM_USED) := by
  have hpages : MemConfig.pages PAGE_SIZE = 1 := by decide
  have hstatus (i : Nat) : cfg.Unused m.toKernelSpace .kernel i ↔ m.load (cfg.kernelEnd + i) = MEM_UNUSED := by
    have haddr : cfg.memmap .kernel + i = cfg.kernelEnd + i + KERNEL_BASE := by
      simp only [MemConfig.memmap, MemConfig.memmapKernel, KERNEL_BASE]
      omega
    rw [MemConfig.Unused, haddr, load_toKernelSpace]
  have hrun : FirstRun (cfg.Unused m.toKernelSpace .kernel) (cfg.memPages .kernel) 1 (b + 1) := by
    constructor
    . exact hb
    . intro i hlo hhi
      rw [hstatus, show i = b + 1 by omega]
      exact hunused
    . intro c hc
      refine ⟨c, Nat.le_refl c, Nat.lt_succ_self c, ?_⟩
      rw [hstatus]
      exact hleast c (by omega)
  have hhead : cfg.headIndex m.toKernelSpace .kernel (b + 1) = b + 1 := by
    unfold MemConfig.headIndex
    rw [Nat.count_iff_forall]
    intro c hc
    rw [hstatus]
    exact hleast c (by omega)
  have hle := cfg.kernelMemPages_le
  have hpalloc := cfg.palloc_of_firstRun (show 0 < PAGE_SIZE by decide) (show PAGE_SIZE < 0x100000000 by decide)
    (hpages.symm ▸ hrun)
  have haddr : MemConfig.runAddr .kernel (b + 1) = b * PAGE_SIZE + KERNEL_BASE := by
    simp only [MemConfig.runAddr, phy2lin, PAGE_SIZE, KERNEL_BASE]
    rw [if_pos (by omega)]
    omega
  have hentry : cfg.memmap .kernel + (b + 1) = cfg.kernelEnd + (b + 1) + KERNEL_BASE := by
    simp only [MemConfig.memmap, MemConfig.memmapKernel, KERNEL_BASE]
    omega
  rw [show ZONE_KERNEL = Zone.kernel.code from rfl, hpalloc, hpages, hhead, haddr, hentry]
  rfl

/--
The memory after `palloc` has taken the page `b`, and the one in which this page is the table of `virt`.
-/
def taken (cfg : MemConfig) (m : Memory) (b : Nat) : Memory :=
  m.ofKernelSpace (m.toKernelSpace.store (cfg.kernelEnd + (b + 1) + KERNEL_BASE) MEM_USED)

def tabled (m : Memory) (b virt : Nat) : Memory :=
  ((taken cfg m b).fill (b * PAGE_SIZE) 0 PAGE_SIZE).storeWord (pdeAddr d.addr virt) (b * PAGE_SIZE + 7)

theorem load_taken {a : Nat} (ha : a < 0x40000000)
    : (taken cfg m b).load a = if a = cfg.kernelEnd + (b + 1) then MEM_USED else m.load a := by
  rw [taken, load_ofKernelSpace ha, Memory.load_store, load_toKernelSpace]
  by_cases heq : a = cfg.kernelEnd + (b + 1)
  . rw [if_pos (by omega), if_pos heq]
  . rw [if_neg (by omega), if_neg heq]

theorem linear_pde {virt : Nat} (hvirt : virt < 0x100000000)
    : linear ((d.addr + KERNEL_BASE + 4 * (virt >>> 22)) % 0x100000000)
        =
      some (pdeAddr d.addr virt) :=
  PageTables.linear_dir d.low hvirt

theorem mapPage_of_pse {phy virt : Nat} {perm rw : BitVec 8} (hvirt : virt < 0x100000000)
    (hpse : bit (m.loadWord (pdeAddr d.addr virt)) 7 = 1)
    : cfg.mapPage m (d.addr + KERNEL_BASE) phy virt perm rw = some (some (-1), m) := by
  have hpse' : (Pde.ofWord (m.loadWord (pdeAddr d.addr virt))).pse = 1 := (PageTables.pse_iff _).mpr hpse
  simp only [MemConfig.mapPage, mapPage, d.linear_pde hvirt, Option.bind_eq_bind, Option.bind_some, hpse',
    true_or, if_true, Option.pure_def]

theorem mapPage_of_palloc {phy virt : Nat} {perm rw : BitVec 8} (hvirt : virt < 0x100000000)
    (hpse : bit (m.loadWord (pdeAddr d.addr virt)) 7 = 0)
    (hpresent : bit (m.loadWord (pdeAddr d.addr virt)) 0 = 0) (hb : b + 1 < cfg.kernelMemPages)
    (hunused : m.load (cfg.kernelEnd + (b + 1)) = MEM_UNUSED)
    (hleast : ∀ c, c ≤ b → m.load (cfg.kernelEnd + c) ≠ MEM_UNUSED)
    : cfg.mapPage m (d.addr + KERNEL_BASE) phy virt perm rw
        =
      mapPage (taken cfg m b) (b * PAGE_SIZE + KERNEL_BASE) (d.addr + KERNEL_BASE) phy virt perm rw := by
  have hnew : ¬ ((Pde.ofWord (m.loadWord (pdeAddr d.addr virt))).pse = 1
      ∨ ¬ (Pde.ofWord (m.loadWord (pdeAddr d.addr virt))).present = 0) := by
    rw [PageTables.pse_iff, PageTables.pde_present_iff]
    omega
  simp only [MemConfig.mapPage, d.linear_pde hvirt, Option.bind_eq_bind, Option.bind_some]
  rw [if_neg hnew, palloc_page hb hunused hleast, taken]

theorem loadWord_tabled_table {virt i : Nat} (hvirt : virt < 0x100000000) (hpage : d.Clear (b * PAGE_SIZE) PAGE_SIZE)
    (hi : i < 1024)
    : (d.tabled m b virt).loadWord (b * PAGE_SIZE + 4 * i) = 0 := by
  have hsize : PAGE_SIZE = 4096 := rfl
  have hpde : pdeAddr d.addr virt = d.addr + 4 * (virt / 0x400000) := rfl
  have hclear := hpage.2
  rw [tabled, Memory.loadWord_storeWord_of_disjoint _ _ _ _ (by omega)]
  exact Memory.loadWord_fill_zero _ _ _ _ (by omega) (by omega)

section Tabled

variable {virt : Nat} (hvirt : virt < 0x100000000) (hb : b + 1 < cfg.kernelMemPages)

include hb

theorem loadWord_taken_dir {i : Nat} (hi : i < 1024)
    : (taken cfg m b).loadWord (d.addr + 4 * i) = m.loadWord (d.addr + 4 * i) := by
  have hsize : PAGE_SIZE = 4096 := rfl
  have hlow := d.low
  have hapart := d.apart
  apply Memory.loadWord_congr
  intro c hlo hhi
  rw [load_taken (by omega), if_neg (by omega)]

variable (hpage : d.Clear (b * PAGE_SIZE) PAGE_SIZE)

include hvirt hpage

theorem load_tabled_status {i : Nat} (hi : i < cfg.kernelMemPages)
    : (d.tabled m b virt).load (cfg.kernelEnd + i) = if i = b + 1 then MEM_USED else m.load (cfg.kernelEnd + i) := by
  have hsize : PAGE_SIZE = 4096 := rfl
  have hle := cfg.kernelMemPages_le
  have hmapped := cfg.mapped
  have hkernel : cfg.kernelMemPages = cfg.totalMem >>> 4 := rfl
  have hapart := d.apart
  have hpde : pdeAddr d.addr virt = d.addr + 4 * (virt / 0x400000) := rfl
  have hclear := hpage.1
  rw [tabled, Memory.load_storeWord_of_disjoint _ _ _ _ (by omega), Memory.load_fill, if_neg (by omega),
    load_taken (by omega)]
  by_cases heq : i = b + 1
  . rw [if_pos (by omega), if_pos heq]
  . rw [if_neg (by omega), if_neg heq]

theorem loadWord_tabled_dir {i : Nat} (hi : i < 1024)
    : (d.tabled m b virt).loadWord (d.addr + 4 * i)
        =
      if i = virt / 0x400000 then b * PAGE_SIZE + 7 else m.loadWord (d.addr + 4 * i) := by
  have hsize : PAGE_SIZE = 4096 := rfl
  have hpageEq : b * PAGE_SIZE = b * 4096 := rfl
  have hle := cfg.kernelMemPages_le
  have hclear := hpage.2
  by_cases heq : i = virt / 0x400000
  . rw [if_pos heq, heq, ← pdeAddr, tabled, Memory.loadWord_storeWord_self]
    omega
  . have hpde : pdeAddr d.addr virt = d.addr + 4 * (virt / 0x400000) := rfl
    rw [if_neg heq, tabled, Memory.loadWord_storeWord_of_disjoint _ _ _ _ (by omega),
      Memory.loadWord_fill_of_disjoint _ _ _ _ _ (by omega), d.loadWord_taken_dir hb hi]

end Tabled

theorem mapPage_keeps {phy virt : Nat} {perm rw : BitVec 8} (hvirt : virt < 0x100000000)
    (hphy : phy < 0x100000000) (hpse : bit (m.loadWord (pdeAddr d.addr virt)) 7 = 0)
    (hpresent : bit (m.loadWord (pdeAddr d.addr virt)) 0 = 0) (hb : b + 1 < cfg.kernelMemPages)
    (hunused : m.load (cfg.kernelEnd + (b + 1)) = MEM_UNUSED)
    (hleast : ∀ c, c ≤ b → m.load (cfg.kernelEnd + c) ≠ MEM_UNUSED)
    (hpage : d.Clear (b * PAGE_SIZE) PAGE_SIZE)
    (hptr : PageTables.ptePtr (b * PAGE_SIZE) virt < 0x40000000)
    (hword : d.Clear (PageTables.ptePtr (b * PAGE_SIZE) virt) 4)
    : ∃ r m', cfg.mapPage m (d.addr + KERNEL_BASE) phy virt perm rw = some (r, m')
        ∧ (∀ i, i < cfg.kernelMemPages → m'.load (cfg.kernelEnd + i)
            = if i = b + 1 then MEM_USED else m.load (cfg.kernelEnd + i))
        ∧ (∀ i, i < 1024 → m'.loadWord (d.addr + 4 * i)
            = if i = virt / 0x400000 then b * PAGE_SIZE + 7 else m.loadWord (d.addr + 4 * i))
        ∧ (∀ i, i < 1024 → b * PAGE_SIZE + 4 * i + 4 ≤ PageTables.ptePtr (b * PAGE_SIZE) virt
            ∨ PageTables.ptePtr (b * PAGE_SIZE) virt + 4 ≤ b * PAGE_SIZE + 4 * i →
          m'.loadWord (b * PAGE_SIZE + 4 * i) = 0) := by
  have hsize : PAGE_SIZE = 4096 := rfl
  have hpageEq : b * PAGE_SIZE = b * 4096 := rfl
  have hle := cfg.kernelMemPages_le
  have hpde : pdeAddr d.addr virt = d.addr + 4 * (virt / 0x400000) := rfl
  obtain ⟨hwordMap, hwordDir⟩ := hword
  have hdir₁ := @loadWord_taken_dir cfg d m b hb (virt / 0x400000) (by omega)
  rw [← pdeAddr] at hdir₁
  have hcreate : mapPage.createPage (taken cfg m b) (b * PAGE_SIZE + KERNEL_BASE) (pdeAddr d.addr virt)
      = some (b * PAGE_SIZE + KERNEL_BASE, d.tabled m b virt) :=
    PageTables.createPage_low (Nat.mul_mod_left _ _) (by omega)
  have hmap := @PageTables.mapPage_of_created phy virt perm rw _ _ (b * PAGE_SIZE + KERNEL_BASE) (d.addr + KERNEL_BASE)
    _ _ (d.linear_pde hvirt) (hdir₁ ▸ hpse) (hdir₁ ▸ hpresent) hcreate hphy
  have hptrlin : linear ((b * PAGE_SIZE + KERNEL_BASE + 4 * (virt >>> 12 &&& 0xFFF)) % 0x100000000)
      = some (PageTables.ptePtr (b * PAGE_SIZE) virt) := by
    rw [PageTables.pteIndex_eq, Nat.add_right_comm]
    exact PageTables.linear_of_low hptr
  have hstatus {i : Nat} (hi : i < cfg.kernelMemPages) := @load_tabled_status cfg d m b virt hvirt hb hpage i hi
  have hdir {i : Nat} (hi : i < 1024) := @loadWord_tabled_dir cfg d m b virt hvirt hb hpage i hi
  have htable {i : Nat} (hi : i < 1024) := @loadWord_tabled_table cfg d m b virt i hvirt hpage hi
  rw [d.mapPage_of_palloc hvirt hpse hpresent hb hunused hleast, hmap, hptrlin, Option.bind_some]
  split
  . exact ⟨_, _, rfl, fun i hi => hstatus hi, fun i hi => hdir hi, fun i hi _ => htable hi⟩
  . -- the entry behind the table overwrites nothing that is counted
    refine ⟨_, _, rfl, ?_, ?_, ?_⟩
    . intro i hi
      rw [Memory.load_storeWord_of_disjoint _ _ _ _ (by omega), hstatus hi]
    . intro i hi
      rw [Memory.loadWord_storeWord_of_disjoint _ _ _ _ (by omega), hdir hi]
    . intro i hi hne
      rw [Memory.loadWord_storeWord_of_disjoint _ _ _ _ (by omega), htable hi]

theorem conserved_of_changed {m' m₀ : Memory} {i₀ : Nat} (hb : b + 1 < cfg.kernelMemPages)
    (hi₀ : i₀ < 1024) (hunused : m.load (cfg.kernelEnd + (b + 1)) = MEM_UNUSED)
    (hpresent : bit (m.loadWord (d.addr + 4 * i₀)) 0 = 0)
    (hstatus : ∀ i, i < cfg.kernelMemPages → m'.load (cfg.kernelEnd + i)
      = if i = b + 1 then MEM_USED else m.load (cfg.kernelEnd + i))
    (hdir : ∀ i, i < 1024 → m'.loadWord (d.addr + 4 * i)
      = if i = i₀ then b * PAGE_SIZE + 7 else m.loadWord (d.addr + 4 * i))
    (h : d.Conserved m₀ m)
    : d.Conserved m₀ m' := by
  have hpageEq : b * PAGE_SIZE = b * 4096 := rfl
  have hused : usedPages cfg m' = usedPages cfg m + 1 := by
    apply count_eq_succ hb
    . rw [hunused]
      decide
    . rw [hstatus _ hb, if_pos rfl]
    . intro k hk hne
      rw [hstatus k hk, if_neg hne]
  have htables : d.tableCount m' = d.tableCount m + 1 := by
    apply count_eq_succ hi₀
    . intro htable
      have := htable.1
      omega
    . rw [hdir _ hi₀, if_pos rfl]
      unfold IsTable bit
      omega
    . intro k hk hne
      rw [hdir k hk, if_neg hne]
  unfold Conserved at h ⊢
  omega

end Map

theorem step_keeps {op : MapOp} {m₀ : Memory} (hkeeps : d.Keeps m op) (h : d.Conserved m₀ m)
    : ∃ m', op.step cfg d.addr m = some m' ∧ d.Conserved m₀ m' := by
  cases op with
  | unmap virt => exact absurd hkeeps (by simp [Keeps])
  | map phy virt perm rw =>
    have hvirt := virt.isLt
    by_cases hpse : bit (m.loadWord (pdeAddr d.addr virt.toNat)) 7 = 1
    . refine ⟨m, ?_, h⟩
      simp only [MapOp.step, d.mapPage_of_pse hvirt hpse, Option.map_some]
    . have hpse' := bit_ne_one.mp hpse
      obtain ⟨hpresent, b, hb, hunused, hleast, hpage, hptr, hword⟩ := hkeeps.resolve_left hpse
      obtain ⟨r, m', hmap, hstatus, hdir, -⟩ := @mapPage_keeps cfg d m b phy.toNat virt.toNat perm rw hvirt
        phy.isLt hpse' hpresent hb hunused hleast hpage hptr hword
      refine ⟨m', ?_, d.conserved_of_changed hb (by omega) hunused hpresent hstatus hdir h⟩
      simp only [MapOp.step, hmap, Option.map_some]

/--
After each of the calls the pages in use have grown by the number of page tables.
-/
def Conserves (m₀ : Memory) (ops : List MapOp) : Prop :=
  ∀ ps, ps <+: ops → ∃ m, Run.run (MapOp.step cfg d.addr) m₀ ps = some m ∧ d.Conserved m₀ m

theorem tableCount_eq_zero (hempty : ∀ i, i < 1024 → bit (m.loadWord (d.addr + 4 * i)) 0 = 0)
    : d.tableCount m = 0 := by
  rw [tableCount, Nat.count_eq_card_filter_range, Finset.card_eq_zero, Finset.filter_eq_empty_iff]
  intro i hi htable
  have hbit := hempty i (Finset.mem_range.mp hi)
  have := htable.1
  omega

/--
A program that only maps, and for every call finds a free page and no table, keeps the account.
-/
theorem conserves_of_keeps (m₀ : Memory) (ops : List MapOp)
    (hempty : ∀ i, i < 1024 → bit (m₀.loadWord (d.addr + 4 * i)) 0 = 0)
    (h : Run.Guarded (MapOp.step cfg d.addr) d.Keeps m₀ ops)
    : d.Conserves m₀ ops := by
  have hstart : d.Conserved m₀ m₀ := by
    have hnone := d.tableCount_eq_zero m₀ hempty
    unfold Conserved
    omega
  rintro ps ⟨ops', rfl⟩
  exact h.of_append.progress (fun m op hI hok => d.step_keeps m hok hI) hstart

section Unmap

variable {m} {virt table : Nat}

theorem unmapPage_last (hvirt : virt < 0x100000000)
    (htable : IsTable (m.loadWord (pdeAddr d.addr virt)))
    (hframe : frame (m.loadWord (pdeAddr d.addr virt)) = table)
    (hlow : table + PAGE_SIZE ≤ 0x40000000) (hptr : PageTables.ptePtr table virt < 0x40000000)
    (hword : d.Clear (PageTables.ptePtr table virt) 4)
    (hlast : ∀ i, i < 1024 → table + 4 * i + 4 ≤ PageTables.ptePtr table virt
        ∨ PageTables.ptePtr table virt + 4 ≤ table + 4 * i →
      bit (m.loadWord (table + 4 * i)) 0 = 0)
    : ∃ m', cfg.unmapPage m (d.addr + KERNEL_BASE) virt = some m'
        ∧ usedPages cfg m' = usedPages cfg m ∧ d.tableCount m' + 1 = d.tableCount m := by
  have hsize : PAGE_SIZE = 4096 := rfl
  have hle := cfg.kernelMemPages_le
  have hmapped := cfg.mapped
  have hkernel : cfg.kernelMemPages = cfg.totalMem >>> 4 := rfl
  have hdlow := d.low
  have hdaligned := d.aligned
  have hapart := d.apart
  have hpde : pdeAddr d.addr virt = d.addr + 4 * (virt / 0x400000) := rfl
  obtain ⟨hwordMap, hwordDir⟩ := hword
  have hptrEq : PageTables.ptePtr table virt = table + 4 * (virt / 0x1000 % 0x1000) := rfl
  have hframeMod := frame_mod (m.loadWord (pdeAddr d.addr virt))
  rw [hframe] at hframeMod
  have hentry : MemConfig.entryAddr table virt = PageTables.ptePtr table virt := Nat.mod_eq_of_lt (by omega)
  have hreached : MemConfig.Reached table virt := by
    rw [MemConfig.Reached, hentry]
    exact ⟨Or.inl (by omega), Or.inl hptr⟩
  obtain ⟨m', hunmap, -, hdropped⟩ :=
    @MemConfig.exists_unmapPage cfg m d.addr virt table d.low hvirt htable.2 hframe hreached
  rw [hentry] at hdropped
  have hnone : ¬ HasEntry (drop m (PageTables.ptePtr table virt)) table := by
    rintro ⟨i, hi, hbit⟩
    by_cases hne : table + 4 * i = PageTables.ptePtr table virt
    . rw [hne, bit_drop_self] at hbit
      omega
    . have hone := bit_of_bit_drop (show PageTables.ptePtr table virt % 4 = 0 by omega) (by omega) hbit
      have hzero := hlast i hi (by omega)
      omega
  have hload {a : Nat} (hptr : a < PageTables.ptePtr table virt ∨ PageTables.ptePtr table virt + 4 ≤ a)
      (hpde : a < pdeAddr d.addr virt ∨ pdeAddr d.addr virt + 4 ≤ a)
      : m'.load a = m.load a := by
    rw [hdropped hnone, drop, Memory.load_storeWord_of_disjoint _ _ _ _ hpde, drop,
      Memory.load_storeWord_of_disjoint _ _ _ _ hptr]
  refine ⟨m', hunmap, ?_, ?_⟩
  . apply count_eq_of_iff
    intro i hi
    rw [hload (by omega) (by omega)]
  . symm
    apply count_eq_succ (show virt / 0x400000 < 1024 by omega)
    . intro htable'
      have hone := htable'.1
      rw [← hpde, hdropped hnone, bit_drop_self] at hone
      omega
    . exact htable
    . intro i hi hne
      rw [Memory.loadWord_congr m m' _ (fun b hlo hhi => hload (by omega) (by omega))]

theorem isTable_page_add (b : Nat) : IsTable (b * 4096 + 7) := by
  unfold IsTable bit
  omega

theorem frame_page_add (b : Nat) : frame (b * 4096 + 7) = b * 4096 := by
  unfold frame
  omega

theorem not_conserves_map_unmap {m₀ : Memory} {b : Nat} {phy virt : BitVec 32} {perm rw : BitVec 8}
    (hempty : ∀ i, i < 1024 → bit (m₀.loadWord (d.addr + 4 * i)) 0 = 0)
    (hpse : bit (m₀.loadWord (pdeAddr d.addr virt.toNat)) 7 = 0) (hb : b + 1 < cfg.kernelMemPages)
    (hunused : m₀.load (cfg.kernelEnd + (b + 1)) = MEM_UNUSED)
    (hleast : ∀ c, c ≤ b → m₀.load (cfg.kernelEnd + c) ≠ MEM_UNUSED)
    (hpage : d.Clear (b * PAGE_SIZE) PAGE_SIZE)
    (hptr : PageTables.ptePtr (b * PAGE_SIZE) virt.toNat < 0x40000000)
    (hword : d.Clear (PageTables.ptePtr (b * PAGE_SIZE) virt.toNat) 4)
    : ¬ d.Conserves m₀ [.map phy virt perm rw, .unmap virt] := by
  intro h
  have hpageEq : b * PAGE_SIZE = b * 4096 := rfl
  have hsize : PAGE_SIZE = 4096 := rfl
  have hle := cfg.kernelMemPages_le
  have hvirt := virt.isLt
  have hpresent := hempty (virt.toNat / 0x400000) (by omega)
  obtain ⟨r, m₁, hmap, -, hdir, htable⟩ := @mapPage_keeps cfg d m₀ b phy.toNat virt.toNat perm rw hvirt
    phy.isLt hpse hpresent hb hunused hleast hpage hptr hword
  have hpde : m₁.loadWord (pdeAddr d.addr virt.toNat) = b * 4096 + 7 := by
    have hentry := hdir (virt.toNat / 0x400000) (by omega)
    rw [if_pos rfl, hpageEq] at hentry
    exact hentry
  have htable₁ := isTable_page_add b
  have hframe₁ := frame_page_add b
  rw [← hpde] at htable₁ hframe₁
  have hlast (i : Nat) (hi : i < 1024) (hne : b * PAGE_SIZE + 4 * i + 4
      ≤ PageTables.ptePtr (b * PAGE_SIZE) virt.toNat
        ∨ PageTables.ptePtr (b * PAGE_SIZE) virt.toNat + 4 ≤ b * PAGE_SIZE + 4 * i)
      : bit (m₁.loadWord (b * PAGE_SIZE + 4 * i)) 0 = 0 := by
    rw [htable i hi hne, bit, Nat.zero_div]
  obtain ⟨m₂, hunmap, hused, htables⟩ := d.unmapPage_last hvirt htable₁ hframe₁ (by omega) hptr hword hlast
  have hstep : (MapOp.map phy virt perm rw).step cfg d.addr m₀ = some m₁ := by
    simp only [MapOp.step, hmap, Option.map_some]
  have hstep' : (MapOp.unmap virt).step cfg d.addr m₁ = some m₂ := by
    simp only [MapOp.step, hunmap]
  obtain ⟨m, hrun, hconserved⟩ := h [.map phy virt perm rw] (List.prefix_append _ _)
  obtain ⟨m', hrun', hconserved'⟩ := h _ (List.prefix_refl _)
  rw [Run.run_cons, hstep, Option.bind_some, Run.run_nil] at hrun
  rw [Run.run_cons, hstep, Option.bind_some, Run.run_cons, hstep', Option.bind_some, Run.run_nil] at hrun'
  rw [← Option.some.inj hrun, Conserved] at hconserved
  rw [← Option.some.inj hrun', Conserved] at hconserved'
  omega

end Unmap

def exampleConfig : MemConfig where
  kernelEnd := 0x1FC0
  totalMem := 0x100
  total_le := by decide
  image_lt := by decide
  mapped := by decide

def exampleDir : PageDir exampleConfig where
  addr := 0
  aligned := rfl
  low := PageTables.empty.low
  apart := by decide

def exampleMemory : Memory where
  cell := fun a =>
    if 0x1FC0 ≤ a ∧ a < 0x1FC3 then MEM_USED
    else if 0x1FC3 ≤ a ∧ a < 0x2000 then MEM_UNUSED
    else 0
  log := []

theorem loadWord_exampleMemory {i : Nat} (hi : i < 1024) : exampleMemory.loadWord (0 + 4 * i) = 0 := by
  have hload {a : Nat} (ha : a < 0x1000) : exampleMemory.load a = 0 := by
    simp only [Memory.load, exampleMemory]
    rw [if_neg (by omega), if_neg (by omega)]
  unfold Memory.loadWord
  rw [hload (by omega), hload (by omega), hload (by omega), hload (by omega)]
  rfl

theorem empty_exampleMemory (i : Nat) (hi : i < 1024)
    : bit (exampleMemory.loadWord (exampleDir.addr + 4 * i)) 0 = 0 := by
  rw [show exampleDir.addr = 0 from rfl, loadWord_exampleMemory hi]
  rfl

theorem conserves_of_keeps_one : exampleDir.Conserves exampleMemory [.map 0x5000 0 1 1] := by
  apply exampleDir.conserves_of_keeps exampleMemory _ empty_exampleMemory
  refine ⟨Or.inr ⟨empty_exampleMemory 0 (by decide), 2, ?_⟩, fun _ _ => trivial⟩
  exact ⟨by decide, by decide, by decide, ⟨by decide, by decide⟩, by decide, ⟨by decide, by decide⟩⟩

/--
A page is mapped and unmapped: one page more is in use, and there is no page table.
-/
theorem not_conserves : ¬ exampleDir.Conserves exampleMemory [.map 0x5000 0 1 1, .unmap 0] := by
  apply @not_conserves_map_unmap _ exampleDir exampleMemory 2 _ _ _ _ empty_exampleMemory
  . rfl
  . decide
  . decide
  . decide
  . exact ⟨by decide, by decide⟩
  . decide
  . exact ⟨by decide, by decide⟩

end PageDir
end Osproj
