import Osproj.Base.Paging
import Osproj.Mm.Impl.Mmap

/-!
This module contains what `map_page` does to the translation of linear addresses.
-/

namespace Osproj

open Paging

/--
A page directory at the physical address `dir`. Its tables are in the memory that the kernel reaches
and none of them is the directory itself.
-/
structure PageTables where
  mem : Memory
  dir : Nat
  aligned : dir % PAGE_SIZE = 0
  low : dir + PAGE_SIZE ≤ 0x40000000
  table_low : ∀ i, i < 1024 → IsTable (mem.loadWord (dir + 4 * i)) →
    frame (mem.loadWord (dir + 4 * i)) + PAGE_SIZE ≤ 0x40000000
  table_ne : ∀ i, i < 1024 → IsTable (mem.loadWord (dir + 4 * i)) →
    frame (mem.loadWord (dir + 4 * i)) ≠ dir

structure FreshPage (t : PageTables) where
  addr : Nat
  aligned : addr % PAGE_SIZE = 0
  low : addr + PAGE_SIZE ≤ 0x40000000
  ne_dir : addr ≠ t.dir
  ne_table : ∀ i, i < 1024 → IsTable (t.mem.loadWord (t.dir + 4 * i)) →
    frame (t.mem.loadWord (t.dir + 4 * i)) ≠ addr

def InPage (page a : Nat) : Prop := page ≤ a ∧ a < page + PAGE_SIZE

namespace PageTables

variable {t : PageTables} {p : FreshPage t} {phy virt : Nat} {perm rw : BitVec 8}

def pde (t : PageTables) (virt : Nat) : Nat := t.mem.loadWord (pdeAddr t.dir virt)

/--
The physical address that the pointer to the entry of `virt` in a table at `table` stands for: the
index is taken from twelve bits of `virt`, not ten.
-/
def ptePtr (table virt : Nat) : Nat := table + 4 * (virt / 0x1000 % 0x1000)

def withTable (t : PageTables) (p : FreshPage t) (virt : Nat) : Memory :=
  (t.mem.fill p.addr 0 PAGE_SIZE).storeWord (pdeAddr t.dir virt) (p.addr + 7)

def pteWord (phy : Nat) (perm rw : BitVec 8) : Nat :=
  1 + 2 * (rw.toNat % 2) + 4 * (perm.toNat % 2) + frame phy

theorem linear_of_low {a : Nat} (h : a < 0x40000000)
    : linear ((a + KERNEL_BASE) % 0x100000000) = some a := by
  have hbase : KERNEL_BASE = 0xC0000000 := rfl
  unfold linear lin2phy
  rw [if_neg (by omega), if_pos (by omega)]
  exact congrArg some (by omega)

theorem linear_of_wrap {a : Nat} (h : 0x40000000 ≤ a) (h' : a < 0x80000000)
    : linear ((a + KERNEL_BASE) % 0x100000000) = none := by
  have hbase : KERNEL_BASE = 0xC0000000 := rfl
  unfold linear
  rw [if_pos (by omega)]

theorem linear_dir {dir : Nat} (hlow : dir + PAGE_SIZE ≤ 0x40000000) (hvirt : virt < 0x100000000)
    : linear ((dir + KERNEL_BASE + 4 * (virt >>> 22)) % 0x100000000) = some (pdeAddr dir virt) := by
  have hsize : PAGE_SIZE = 4096 := rfl
  rw [Nat.shiftRight_eq_div_pow, Nat.add_right_comm]
  exact linear_of_low (by omega)

theorem linear_pde (hvirt : virt < 0x100000000)
    : linear ((t.dir + KERNEL_BASE + 4 * (virt >>> 22)) % 0x100000000)
        =
      some (pdeAddr t.dir virt) :=
  linear_dir t.low hvirt

theorem pteIndex_eq (virt : Nat) : virt >>> 12 &&& 0xFFF = virt / 0x1000 % 0x1000 := by
  rw [Nat.shiftRight_eq_div_pow]
  exact Nat.and_two_pow_sub_one_eq_mod (virt / 2 ^ 12) 12

theorem linear_table {table : Nat} (h : table < 0x40000000)
    : linear ((table + 4 * (virt >>> 12 &&& 0xFFF)) % 0x100000000) = none := by
  unfold linear
  rw [pteIndex_eq, if_pos (by omega)]

theorem pse_iff (w : Nat) : (Pde.ofWord w).pse = 1 ↔ bit w 7 = 1 := by
  rw [← BitVec.toNat_inj]
  simp [Pde.ofWord, bit]

theorem pde_present_iff (w : Nat) : (Pde.ofWord w).present = 0 ↔ bit w 0 = 0 := by
  rw [← BitVec.toNat_inj]
  simp [Pde.ofWord, bit]

theorem pte_present_iff (w : Nat) : (Pte.ofWord w).present = 1 ↔ bit w 0 = 1 := by
  rw [← BitVec.toNat_inj]
  simp [Pte.ofWord, bit]

theorem addr_shiftLeft {w : Nat} (hw : w < 0x100000000)
    : (Pde.ofWord w).addr.toNat <<< 12 = frame w := by
  simp only [Pde.ofWord, frame, BitVec.toNat_ofNat, Nat.shiftLeft_eq]
  omega

theorem mapPage_of_pse (hvirt : virt < 0x100000000) (hpse : bit (t.pde virt) 7 = 1) (page : Nat)
    : mapPage t.mem page (t.dir + KERNEL_BASE) phy virt perm rw = some (some (-1), t.mem) := by
  have hpse' : (Pde.ofWord (t.mem.loadWord (pdeAddr t.dir virt))).pse = 1 := (pse_iff _).mpr hpse
  simp only [mapPage, linear_pde hvirt, Option.bind_eq_bind, Option.bind_some, hpse', if_true,
    Option.pure_def]

theorem mapPage_of_isTable (hvirt : virt < 0x100000000) (htable : IsTable (t.pde virt)) (page : Nat)
    : mapPage t.mem page (t.dir + KERNEL_BASE) phy virt perm rw = none := by
  have hpse : ¬ (Pde.ofWord (t.mem.loadWord (pdeAddr t.dir virt))).pse = 1 := by
    rw [pse_iff]
    have := htable.2
    unfold pde at this
    omega
  have hpresent : ¬ (Pde.ofWord (t.mem.loadWord (pdeAddr t.dir virt))).present = 0 := by
    rw [pde_present_iff]
    have := htable.1
    unfold pde at this
    omega
  have hlow := t.table_low (virt / 0x400000) (by omega) htable
  simp only [mapPage, linear_pde hvirt, Option.bind_eq_bind, Option.bind_some, if_neg hpse,
    if_neg hpresent, Option.pure_def]
  rw [addr_shiftLeft (Memory.loadWord_lt _ _)]
  have htable : frame (t.mem.loadWord (pdeAddr t.dir virt)) < 0x40000000 := by
    simp only [PAGE_SIZE] at hlow
    exact Nat.lt_of_lt_of_le (Nat.lt_add_of_pos_right (by decide)) hlow
  rw [linear_table htable]
  rfl

theorem toWord_pde {page : Nat} (haligned : page % PAGE_SIZE = 0) (hlow : page + PAGE_SIZE ≤ 0x40000000)
    : Pde.toWord {
        present := 1, rw := 1, us := 1, pwt := 0, pcd := 0, accessed := 0, dirty := 0, pse := 0,
        avl := 0,
        addr := .ofNat 20 (((page + KERNEL_BASE + 0x100000000 - KERNEL_BASE) % 0x100000000) >>> 12)
      } = page + 7 := by
  have hbase : page + KERNEL_BASE + 0x100000000 - KERNEL_BASE = page + 0x100000000 := by omega
  rw [hbase]
  simp only [Pde.toWord, PAGE_SIZE, Nat.shiftRight_eq_div_pow, BitVec.toNat_ofNat] at *
  simp only [BitVec.reduceToNat]
  omega

theorem toWord_pte (hphy : phy < 0x100000000)
    : Pte.toWord {
        present := 1, rw := .ofNat 1 rw.toNat, us := .ofNat 1 perm.toNat, pwt := 0, pcd := 0,
        accessed := 0, dirty := 0, reserved := 0, global := 0, avl := 0,
        addr := .ofNat 20 (phy >>> 12)
      } = pteWord phy perm rw := by
  simp only [Pte.toWord, pteWord, frame, Nat.shiftRight_eq_div_pow, BitVec.toNat_ofNat,
    BitVec.reduceToNat]
  omega

theorem createPage_low {m : Memory} {page a : Nat} (haligned : page % PAGE_SIZE = 0)
    (hlow : page + PAGE_SIZE ≤ 0x40000000)
    : mapPage.createPage m (page + KERNEL_BASE) a
        =
      some (page + KERNEL_BASE, (m.fill page 0 PAGE_SIZE).storeWord a (page + 7)) := by
  have hbase : KERNEL_BASE = 0xC0000000 := rfl
  have hsize : PAGE_SIZE = 4096 := rfl
  have hpage : linear (page + KERNEL_BASE) = some page := by
    have hlinear := @linear_of_low page (by omega)
    rwa [Nat.mod_eq_of_lt (by omega)] at hlinear
  simp only [mapPage.createPage, hpage, Option.bind_eq_bind, Option.bind_some, Option.pure_def,
    toWord_pde haligned hlow]

theorem createPage_eq (p : FreshPage t)
    : mapPage.createPage t.mem (p.addr + KERNEL_BASE) (pdeAddr t.dir virt)
        =
      some (p.addr + KERNEL_BASE, t.withTable p virt) :=
  createPage_low p.aligned p.low

theorem mapPage_of_created {m m' : Memory} {page pdbr a base : Nat}
    (ha : linear ((pdbr + 4 * (virt >>> 22)) % 0x100000000) = some a)
    (hpse : bit (m.loadWord a) 7 = 0) (hpresent : bit (m.loadWord a) 0 = 0)
    (hcreate : mapPage.createPage m page a = some (base, m')) (hphy : phy < 0x100000000)
    : mapPage m page pdbr phy virt perm rw
        =
      (linear ((base + 4 * (virt >>> 12 &&& 0xFFF)) % 0x100000000)).bind (fun a =>
        if bit (m'.loadWord a) 0 = 1 then
          some (some (-1), m')
        else
          some (none, m'.storeWord a (pteWord phy perm rw))) := by
  have hpse' : ¬ (Pde.ofWord (m.loadWord a)).pse = 1 := by
    rw [pse_iff]
    omega
  have hpresent' : (Pde.ofWord (m.loadWord a)).present = 0 := (pde_present_iff _).mpr hpresent
  simp only [mapPage, ha, Option.bind_eq_bind, Option.bind_some, if_neg hpse', Option.pure_def,
    if_pos hpresent', hcreate, pte_present_iff, toWord_pte hphy]

theorem mapPage_of_new (p : FreshPage t) (hvirt : virt < 0x100000000) (hphy : phy < 0x100000000)
    (hpse : bit (t.pde virt) 7 = 0) (hpresent : bit (t.pde virt) 0 = 0)
    : mapPage t.mem (p.addr + KERNEL_BASE) (t.dir + KERNEL_BASE) phy virt perm rw
        =
      let m := t.withTable p virt
      let a := ptePtr p.addr virt
      if a < 0x40000000 then
        if bit (m.loadWord a) 0 = 1 then
          some (some (-1), m)
        else
          some (none, m.storeWord a (pteWord phy perm rw))
      else
        none := by
  have hlow := p.low
  simp only [PAGE_SIZE] at hlow
  have hptr : p.addr + KERNEL_BASE + 4 * (virt >>> 12 &&& 0xFFF)
      = ptePtr p.addr virt + KERNEL_BASE := by
    rw [pteIndex_eq, ptePtr]
    omega
  rw [mapPage_of_created (linear_pde hvirt) hpse hpresent (createPage_eq p) hphy, hptr]
  dsimp only
  by_cases ha : ptePtr p.addr virt < 0x40000000
  . rw [linear_of_low ha, if_pos ha, Option.bind_some]
  . have ha' : ptePtr p.addr virt < 0x80000000 := by
      simp only [ptePtr]
      omega
    rw [linear_of_wrap (by omega) ha', if_neg ha, Option.bind_none]

/--
What `map_page` must do unless it refuses: map the page of `virt` to `phy` and leave everything else as
it is.
-/
def Maps (t : PageTables) (p : FreshPage t) (phy virt : Nat) (perm rw : BitVec 8) : Prop :=
  ∃ r m', mapPage t.mem (p.addr + KERNEL_BASE) (t.dir + KERNEL_BASE) phy virt perm rw = some (r, m')
    ∧ (r ≠ some (-1) →
      walk m' t.dir virt = some ⟨phy + virt % 0x1000, perm.toNat, rw.toNat⟩
        ∧ (∀ v, v < 0x100000000 → v / 0x1000 ≠ virt / 0x1000 →
          walk m' t.dir v = walk t.mem t.dir v)
        ∧ Memory.StoresIn t.mem m' (fun a =>
          InPage t.dir a ∨ InPage (frame (m'.loadWord (pdeAddr t.dir virt))) a))

/--
The condition under which it does: it refuses because of a 4 MB page, or the slot of `virt` has no
table yet and either its number is a multiple of 4 and the permissions are bits, or what the pointer
behind the table hits is a word with the present bit, so that it refuses after all.
-/
def MapOk (t : PageTables) (p : FreshPage t) (virt : Nat) (perm rw : BitVec 8) : Prop :=
  bit (t.pde virt) 7 = 1
    ∨ (bit (t.pde virt) 0 = 0
      ∧ if virt / 0x400000 % 4 = 0 then
          perm.toNat ≤ 1 ∧ rw.toNat ≤ 1
        else
          ptePtr p.addr virt < 0x40000000
            ∧ (ptePtr p.addr virt = pdeAddr t.dir virt
              ∨ bit (t.mem.loadWord (ptePtr p.addr virt)) 0 = 1))

theorem dir_apart (p : FreshPage t) : p.addr + 0x1000 ≤ t.dir ∨ t.dir + 0x1000 ≤ p.addr := by
  have h := t.aligned
  have h' := p.aligned
  have hne := p.ne_dir
  simp only [PAGE_SIZE] at h h'
  omega

theorem loadWord_withTable_pde (p : FreshPage t)
    : (t.withTable p virt).loadWord (pdeAddr t.dir virt) = p.addr + 7 := by
  have hlow := p.low
  rw [withTable, Memory.loadWord_storeWord_self]
  simp only [PAGE_SIZE] at hlow
  omega

theorem loadWord_withTable_table (p : FreshPage t) (hvirt : virt < 0x100000000) {a : Nat}
    (hlo : p.addr ≤ a) (hhi : a + 4 ≤ p.addr + 0x1000)
    : (t.withTable p virt).loadWord a = 0 := by
  have hdir := dir_apart p
  have hpde : pdeAddr t.dir virt = t.dir + 4 * (virt / 0x400000) := rfl
  rw [withTable, Memory.loadWord_storeWord_of_disjoint _ _ _ _ (by omega)]
  exact Memory.loadWord_fill_zero _ _ _ _ hlo hhi

theorem loadWord_withTable_of_ne (p : FreshPage t) {a : Nat}
    (hpage : a + 4 ≤ p.addr ∨ p.addr + 0x1000 ≤ a)
    (hpde : a + 4 ≤ pdeAddr t.dir virt ∨ pdeAddr t.dir virt + 4 ≤ a)
    : (t.withTable p virt).loadWord a = t.mem.loadWord a := by
  rw [withTable, Memory.loadWord_storeWord_of_disjoint _ _ _ _ (by omega)]
  apply Memory.loadWord_fill_of_disjoint
  simp only [PAGE_SIZE]
  omega

theorem isTable_page (p : FreshPage t) : IsTable (p.addr + 7) := by
  have h := p.aligned
  simp only [PAGE_SIZE] at h
  constructor
  . unfold bit
    omega
  . unfold bit
    omega

theorem frame_page (p : FreshPage t) : frame (p.addr + 7) = p.addr := by
  have h := p.aligned
  simp only [PAGE_SIZE] at h
  unfold frame
  omega

theorem bit_page (p : FreshPage t) : bit (p.addr + 7) 1 = 1 ∧ bit (p.addr + 7) 2 = 1 := by
  have h := p.aligned
  simp only [PAGE_SIZE] at h
  unfold bit
  omega

theorem pteWord_lt (hphy : phy < 0x100000000) : pteWord phy perm rw < 0x100000000 := by
  unfold pteWord frame
  omega

theorem pteWord_bits (phy : Nat) (perm rw : BitVec 8)
    : bit (pteWord phy perm rw) 0 = 1
        ∧ bit (pteWord phy perm rw) 1 = rw.toNat % 2
        ∧ bit (pteWord phy perm rw) 2 = perm.toNat % 2
        ∧ frame (pteWord phy perm rw) = frame phy := by
  unfold pteWord bit frame
  omega

/-
The memory after the entry of `virt` was written to its place in the new table.
-/
section Mapped

variable (p : FreshPage t)

theorem ptePtr_eq (hslot : virt / 0x400000 % 4 = 0) : ptePtr p.addr virt = pteAddr p.addr virt := by
  unfold ptePtr pteAddr
  omega

theorem loadWord_mapped_pde (hvirt : virt < 0x100000000) (w : Nat)
    : ((t.withTable p virt).storeWord (pteAddr p.addr virt) w).loadWord (pdeAddr t.dir virt)
        =
      p.addr + 7 := by
  have hdir := dir_apart p
  rw [Memory.loadWord_storeWord_of_disjoint, loadWord_withTable_pde]
  unfold pdeAddr pteAddr
  omega

theorem walk_mapped (hvirt : virt < 0x100000000) (hphy : phy < 0x100000000)
    (haligned : phy % PAGE_SIZE = 0)
    : walk ((t.withTable p virt).storeWord (pteAddr p.addr virt) (pteWord phy perm rw)) t.dir virt
        =
      some ⟨phy + virt % 0x1000, perm.toNat % 2, rw.toNat % 2⟩ := by
  have hpde := @loadWord_mapped_pde t virt p hvirt (pteWord phy perm rw)
  have htable := isTable_page p
  have hphy' : frame phy = phy := by
    simp only [PAGE_SIZE] at haligned
    unfold frame
    omega
  obtain ⟨hbit1, hbit2⟩ := bit_page p
  obtain ⟨h0, h1, h2, hframe⟩ := pteWord_bits phy perm rw
  rw [walk_of_isTable (hpde.symm ▸ htable)]
  simp only [hpde, frame_page, Memory.loadWord_storeWord_self, Nat.mod_eq_of_lt (pteWord_lt hphy),
    h0, h1, h2, hframe, hbit1, hbit2, hphy', Nat.one_and_eq_mod_two, Nat.mod_mod]
  rfl

theorem walk_mapped_of_ne (hvirt : virt < 0x100000000) {v w : Nat}
    (hpresent : bit (t.pde virt) 0 = 0) (hv : v < 0x100000000)
    (hne : v / 0x1000 ≠ virt / 0x1000)
    : walk ((t.withTable p virt).storeWord (pteAddr p.addr virt) w) t.dir v
        =
      walk t.mem t.dir v := by
  have hdir := dir_apart p
  by_cases hslot : v / 0x400000 = virt / 0x400000
  -- another page of the slot: no table before, an empty entry in the new table now
  . have hpdeAddr : pdeAddr t.dir v = pdeAddr t.dir virt := by
      unfold pdeAddr
      rw [hslot]
    have hpde : ((t.withTable p virt).storeWord (pteAddr p.addr virt) w).loadWord (pdeAddr t.dir v)
        = p.addr + 7 := by
      rw [hpdeAddr]
      exact loadWord_mapped_pde p hvirt w
    have hpte : ((t.withTable p virt).storeWord (pteAddr p.addr virt) w).loadWord
        (pteAddr p.addr v) = 0 := by
      rw [Memory.loadWord_storeWord_of_disjoint]
      . apply loadWord_withTable_table p hvirt
        . unfold pteAddr
          omega
        . unfold pteAddr
          omega
      . unfold pteAddr
        omega
    rw [walk_of_isTable (hpde.symm ▸ isTable_page p)]
    simp only [hpde, frame_page, hpte]
    symm
    apply walk_of_not_present
    rw [hpdeAddr]
    exact hpresent
  -- another slot: neither its entry nor its table is touched
  . have hpde {a : Nat} (hpage : a + 4 ≤ p.addr ∨ p.addr + 0x1000 ≤ a)
        (hentry : a + 4 ≤ pdeAddr t.dir virt ∨ pdeAddr t.dir virt + 4 ≤ a)
        : ((t.withTable p virt).storeWord (pteAddr p.addr virt) w).loadWord a
            =
          t.mem.loadWord a := by
      rw [Memory.loadWord_storeWord_of_disjoint, loadWord_withTable_of_ne p hpage hentry]
      unfold pteAddr
      omega
    apply walk_congr
    . apply hpde
      . unfold pdeAddr
        omega
      . unfold pdeAddr
        omega
    . intro htable
      have hfresh := p.ne_table (v / 0x400000) (by omega) htable
      have hdir' := t.table_ne (v / 0x400000) (by omega) htable
      have hframe := frame_mod (t.mem.loadWord (t.dir + 4 * (v / 0x400000)))
      have haligned := p.aligned
      have haligned' := t.aligned
      have hpdeAddr : t.dir ≤ pdeAddr t.dir virt ∧ pdeAddr t.dir virt + 4 ≤ t.dir + 0x1000 := by
        unfold pdeAddr
        omega
      have hpteAddr : frame (t.mem.loadWord (t.dir + 4 * (v / 0x400000)))
            ≤ pteAddr (frame (t.mem.loadWord (t.dir + 4 * (v / 0x400000)))) v
          ∧ pteAddr (frame (t.mem.loadWord (t.dir + 4 * (v / 0x400000)))) v + 4
            ≤ frame (t.mem.loadWord (t.dir + 4 * (v / 0x400000))) + 0x1000 := by
        unfold pteAddr
        omega
      simp only [PAGE_SIZE] at haligned haligned'
      unfold pdeAddr at *
      apply hpde
      . omega
      . omega

theorem ptePtr_apart (hslot : virt / 0x400000 % 4 ≠ 0) (hne : ptePtr p.addr virt ≠ pdeAddr t.dir virt)
    : p.addr + 0x1000 ≤ ptePtr p.addr virt
        ∧ (ptePtr p.addr virt + 4 ≤ pdeAddr t.dir virt ∨ pdeAddr t.dir virt + 4 ≤ ptePtr p.addr virt) := by
  have haligned := p.aligned
  have haligned' := t.aligned
  simp only [PAGE_SIZE] at haligned haligned'
  unfold ptePtr pdeAddr at *
  omega

theorem walk_mapped_behind (hvirt : virt < 0x100000000) (hslot : virt / 0x400000 % 4 ≠ 0)
    (hne : ptePtr p.addr virt ≠ pdeAddr t.dir virt) {w : Nat}
    : walk ((t.withTable p virt).storeWord (ptePtr p.addr virt) w) t.dir virt = none := by
  obtain ⟨hbehind, hapart⟩ := ptePtr_apart p hslot hne
  have hpde : ((t.withTable p virt).storeWord (ptePtr p.addr virt) w).loadWord (pdeAddr t.dir virt) = p.addr + 7 := by
    rw [Memory.loadWord_storeWord_of_disjoint _ _ _ _ hapart, loadWord_withTable_pde]
  have hpte : ((t.withTable p virt).storeWord (ptePtr p.addr virt) w).loadWord (pteAddr p.addr virt) = 0 := by
    rw [Memory.loadWord_storeWord_of_disjoint]
    . apply loadWord_withTable_table p hvirt
      . unfold pteAddr
        omega
      . unfold pteAddr
        omega
    . unfold pteAddr
      omega
  rw [walk_eq_none_iff (hpde.symm ▸ isTable_page p), hpde, frame_page, hpte]
  rfl

theorem mapped_storesIn (hvirt : virt < 0x100000000) (w : Nat)
    : Memory.StoresIn t.mem ((t.withTable p virt).storeWord (pteAddr p.addr virt) w)
        (fun a => InPage t.dir a ∨ InPage p.addr a) := by
  have htable := Memory.StoresIn.fill t.mem p.addr 0 PAGE_SIZE
    (fun a hlo hhi => show InPage t.dir a ∨ InPage p.addr a from Or.inr ⟨hlo, hhi⟩)
  unfold withTable
  refine (htable.trans (.storeWord _ _ _ ?_)).trans (.storeWord _ _ _ ?_)
  . intro a hlo hhi
    unfold pdeAddr at hlo hhi
    simp only [InPage, PAGE_SIZE]
    omega
  . intro a hlo hhi
    unfold pteAddr at hlo hhi
    simp only [InPage, PAGE_SIZE]
    omega

end Mapped

theorem maps_iff_of_slot (p : FreshPage t) (hvirt : virt < 0x100000000) (hphy : phy < 0x100000000)
    (haligned : phy % PAGE_SIZE = 0) (hpse : bit (t.pde virt) 7 = 0)
    (hpresent : bit (t.pde virt) 0 = 0) (hslot : virt / 0x400000 % 4 = 0)
    : Maps t p phy virt perm rw ↔ perm.toNat ≤ 1 ∧ rw.toNat ≤ 1 := by
  have hlow := p.low
  simp only [PAGE_SIZE] at hlow
  have hempty : (t.withTable p virt).loadWord (pteAddr p.addr virt) = 0 := by
    apply loadWord_withTable_table p hvirt
    . unfold pteAddr
      omega
    . unfold pteAddr
      omega
  have hmap := @mapPage_of_new t phy virt perm rw p hvirt hphy hpse hpresent
  simp only [ptePtr_eq p hslot] at hmap
  rw [hempty, if_pos (by unfold pteAddr; omega), if_neg (by decide)] at hmap
  have hwalk := @walk_mapped t phy virt perm rw p hvirt hphy haligned
  constructor
  . rintro ⟨r, m', heq, h⟩
    rw [hmap, Option.some.injEq, Prod.mk.injEq] at heq
    obtain ⟨rfl, rfl⟩ := heq
    obtain ⟨hwalk', -⟩ := h (by decide)
    rw [hwalk, Option.some.injEq, Translation.mk.injEq] at hwalk'
    omega
  . rintro ⟨hperm, hrw⟩
    refine ⟨_, _, hmap, fun _ => ⟨?_, ?_, ?_⟩⟩
    . have hperm' : perm.toNat % 2 = perm.toNat := by omega
      have hrw' : rw.toNat % 2 = rw.toNat := by omega
      rw [hwalk, hperm', hrw']
    . intro v hv hne
      exact walk_mapped_of_ne p hvirt hpresent hv hne
    . rw [loadWord_mapped_pde p hvirt, frame_page]
      exact mapped_storesIn p hvirt _

theorem maps_iff_of_other_slot (p : FreshPage t) (hvirt : virt < 0x100000000)
    (hphy : phy < 0x100000000) (hpse : bit (t.pde virt) 7 = 0) (hpresent : bit (t.pde virt) 0 = 0)
    (hslot : ¬ virt / 0x400000 % 4 = 0)
    : Maps t p phy virt perm rw
        ↔
      ptePtr p.addr virt < 0x40000000
        ∧ (ptePtr p.addr virt = pdeAddr t.dir virt
          ∨ bit (t.mem.loadWord (ptePtr p.addr virt)) 0 = 1) := by
  have hmap := @mapPage_of_new t phy virt perm rw p hvirt hphy hpse hpresent
  have hword : bit ((t.withTable p virt).loadWord (ptePtr p.addr virt)) 0 = 1
      ↔ ptePtr p.addr virt = pdeAddr t.dir virt
        ∨ bit (t.mem.loadWord (ptePtr p.addr virt)) 0 = 1 := by
    by_cases heq : ptePtr p.addr virt = pdeAddr t.dir virt
    . refine iff_of_true ?_ (Or.inl heq)
      rw [heq, loadWord_withTable_pde]
      exact (isTable_page p).1
    . obtain ⟨hbehind, hapart⟩ := ptePtr_apart p hslot heq
      rw [or_iff_right heq, loadWord_withTable_of_ne p (Or.inr hbehind) hapart]
  dsimp only at hmap
  rw [← hword]
  by_cases hlow : ptePtr p.addr virt < 0x40000000
  . rw [and_iff_right hlow]
    rw [if_pos hlow] at hmap
    by_cases hrefused : bit ((t.withTable p virt).loadWord (ptePtr p.addr virt)) 0 = 1
    . rw [if_pos hrefused] at hmap
      exact iff_of_true ⟨_, _, hmap, fun hne => absurd rfl hne⟩ hrefused
    . rw [if_neg hrefused] at hmap
      refine iff_of_false ?_ hrefused
      rintro ⟨r, m', heq, h⟩
      rw [hmap, Option.some.injEq, Prod.mk.injEq] at heq
      obtain ⟨rfl, rfl⟩ := heq
      obtain ⟨hwalk, -⟩ := h (by decide)
      have hne : ptePtr p.addr virt ≠ pdeAddr t.dir virt := by
        intro heq
        exact hrefused (hword.mpr (Or.inl heq))
      rw [walk_mapped_behind p hvirt hslot hne] at hwalk
      cases hwalk
  . rw [if_neg hlow] at hmap
    refine iff_of_false ?_ (fun h => hlow h.1)
    rintro ⟨r, m', heq, -⟩
    rw [hmap] at heq
    simp at heq

theorem maps_iff_mapOk (t : PageTables) (p : FreshPage t) (phy virt : Nat) (perm rw : BitVec 8)
    (hvirt : virt < 0x100000000) (hphy : phy < 0x100000000) (haligned : phy % PAGE_SIZE = 0)
    : Maps t p phy virt perm rw ↔ MapOk t p virt perm rw := by
  unfold MapOk
  by_cases hpse : bit (t.pde virt) 7 = 1
  . refine iff_of_true ?_ (Or.inl hpse)
    exact ⟨_, _, mapPage_of_pse hvirt hpse _, fun hne => absurd rfl hne⟩
  . have hpse' : bit (t.pde virt) 7 = 0 := bit_ne_one.mp hpse
    rw [or_iff_right hpse]
    by_cases hpresent : bit (t.pde virt) 0 = 0
    . rw [and_iff_right hpresent]
      split
      . next hslot => exact maps_iff_of_slot p hvirt hphy haligned hpse' hpresent hslot
      . next hslot => exact maps_iff_of_other_slot p hvirt hphy hpse' hpresent hslot
    . refine iff_of_false ?_ (fun h => hpresent h.1)
      have htable : IsTable (t.pde virt) := ⟨bit_ne_zero.mp hpresent, hpse'⟩
      rintro ⟨r, m', hmap, -⟩
      rw [mapPage_of_isTable hvirt htable] at hmap
      simp at hmap

theorem not_isTable_zero (i : Nat) : ¬ IsTable (Memory.loadWord ⟨fun _ => 0, []⟩ i) := by
  intro h
  exact absurd h.1 (by simp [Memory.loadWord, Memory.load, bit])

def empty : PageTables where
  mem := ⟨fun _ => 0, []⟩
  dir := 0
  aligned := by decide
  low := by decide
  table_low := fun i _ h => absurd h (not_isTable_zero (0 + 4 * i))
  table_ne := fun i _ h => absurd h (not_isTable_zero (0 + 4 * i))

def emptyPage : FreshPage empty where
  addr := 0x200000
  aligned := by decide
  low := by decide
  ne_dir := by decide
  ne_table := fun i _ h => absurd h (not_isTable_zero (0 + 4 * i))

/--
The directory at 0 with a table at 1 MB for the slot 2.
-/
def oneTableMemory : Memory := (⟨fun _ => 0, []⟩ : Memory).storeWord 8 0x100003

theorem loadWord_oneTableMemory {i : Nat} (h : IsTable (oneTableMemory.loadWord (0 + 4 * i)))
    : oneTableMemory.loadWord (0 + 4 * i) = 0x100003 := by
  by_cases hi : i = 2
  . rw [hi]
    rfl
  . rw [oneTableMemory, Memory.loadWord_storeWord_of_disjoint _ _ _ _ (by omega)] at h
    exact absurd h (not_isTable_zero _)

def oneTable : PageTables where
  mem := oneTableMemory
  dir := 0
  aligned := by decide
  low := by decide
  table_low := fun i _ h => by
    rw [loadWord_oneTableMemory h]
    decide
  table_ne := fun i _ h => by
    rw [loadWord_oneTableMemory h]
    decide

def oneTablePage : FreshPage oneTable where
  addr := 0x200000
  aligned := by decide
  low := by decide
  ne_dir := by decide
  ne_table := fun i _ h => by
    have heq : oneTable.mem.loadWord (oneTable.dir + 4 * i) = 0x100003 := loadWord_oneTableMemory h
    rw [heq]
    decide

theorem maps_iff_mapOk_oneTable : Maps oneTable oneTablePage 0x300000 0x1000 1 1 := by
  apply (maps_iff_mapOk oneTable oneTablePage 0x300000 0x1000 1 1 (by decide) (by decide) (by decide)).mpr
  refine Or.inr ⟨rfl, ?_⟩
  rw [if_pos (by decide)]
  decide

/--
The first page of slot 1 is entered 4 KB behind the new table.
-/
theorem not_maps : ¬ Maps empty emptyPage 0x300000 0x400000 1 1 := by
  rw [maps_iff_of_other_slot emptyPage (by decide) (by decide) (by rfl) (by rfl) (by decide)]
  rintro ⟨-, heq | hbit⟩
  . exact absurd heq (by decide)
  . exact absurd hbit (by simp [empty, Memory.loadWord, Memory.load, bit])

end PageTables
end Osproj
