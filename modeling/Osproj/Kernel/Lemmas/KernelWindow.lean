import Osproj.Base.Run
import Osproj.Kernel.Lemmas.BootPaging

/-!
This module contains the windows of the kernel over runs of `map_page`, `map_huge_page` and `unmap_page` on the
directory of the boot code. An entry that never had a table is taken for one whose table is at the physical address 0,
where this directory itself is.
-/

namespace Osproj

open Paging

namespace Boot

variable {cfg : MemConfig} {m m' : Memory} {virt : Nat}

/--
Every address of the two windows is translated as `lin2phy` does.
-/
def KeepsWindows (m : Memory) : Prop :=
  ∀ a, 0x80000000 ≤ a → a < 0x100000000 → walk m 0 a = some ⟨lin2phy a, 0, 1⟩

/--
The calls that leave the windows alone: `unmap_page` gets an address below them, and its slot has the bit of a 4 MB
page, or it has or had a table, or the entry looked for is not that of a window.
-/
def WindowOk (m : Memory) : DirOp → Prop
  | .unmap virt =>
    let pde := m.loadWord (pdeAddr 0 virt.toNat)
    let index := virt.toNat / 0x1000 % 0x1000
    virt.toNat < 0x80000000 ∧ (bit pde 7 = 1 ∨ frame pde ≠ 0 ∨ index < 512 ∨ 1024 ≤ index)
  | _ => True

instance (m : Memory) : (op : DirOp) → Decidable (WindowOk m op)
  | .map .. => isTrue trivial
  | .mapHuge .. => isTrue trivial
  | .unmap virt =>
    inferInstanceAs (Decidable (virt.toNat < 0x80000000
      ∧ (bit (m.loadWord (pdeAddr 0 virt.toNat)) 7 = 1 ∨ frame (m.loadWord (pdeAddr 0 virt.toNat)) ≠ 0
        ∨ virt.toNat / 0x1000 % 0x1000 < 512 ∨ 1024 ≤ virt.toNat / 0x1000 % 0x1000)))

structure KernelDir (m : Memory) : Prop where
  windows : Windows m
  user : ∀ i, i < 512 → bit (m.loadWord (4 * i)) 7 = 1
    ∨ frame (m.loadWord (4 * i)) + PAGE_SIZE ≤ 0x40000000
      ∧ (bit (m.loadWord (4 * i)) 0 = 1 → frame (m.loadWord (4 * i)) ≠ 0)

theorem Windows.bits (h : Windows m) {i : Nat} (hlo : 512 ≤ i) (hhi : i < 1024)
    : bit (m.loadWord (4 * i)) 0 = 1 ∧ bit (m.loadWord (4 * i)) 7 = 1 := by
  rw [h i hlo hhi, bootEntry, if_neg (by omega)]
  unfold bit
  split <;> omega

theorem KernelDir.keepsWindows (h : KernelDir m) : KeepsWindows m := fun _ hlo hhi => h.windows.walk_eq hlo hhi

/--
A slot without the bit of a 4 MB page is one below the windows.
-/
theorem KernelDir.slot_lt (h : KernelDir m) (hvirt : virt < 0x100000000)
    (hslot : ¬ (bit (m.loadWord (pdeAddr 0 virt)) 0 = 1 ∧ bit (m.loadWord (pdeAddr 0 virt)) 7 = 1))
    : virt / 0x400000 < 512 := by
  by_contra hlo
  have hbits := h.windows.bits (Nat.le_of_not_lt hlo) (show virt / 0x400000 < 1024 by omega)
  rw [pdeAddr, Nat.zero_add] at hslot
  exact hslot hbits

theorem KernelDir.frame_of_isTable (h : KernelDir m) {i : Nat} (hi : i < 1024) (htable : IsTable (m.loadWord (4 * i)))
    : frame (m.loadWord (4 * i)) + PAGE_SIZE ≤ 0x40000000 ∧ frame (m.loadWord (4 * i)) ≠ 0 := by
  have hlt : i < 512 := by
    by_contra hlo
    have hbits := h.windows.bits (Nat.le_of_not_lt hlo) hi
    have hpse := htable.2
    omega
  have huser := (h.user i hlt).resolve_left (by rw [htable.2]; decide)
  exact ⟨huser.1, huser.2 htable.1⟩

theorem dir_low : 0 + PAGE_SIZE ≤ 0x40000000 := by
  decide

def KernelDir.tables (h : KernelDir m) : PageTables where
  mem := m
  dir := 0
  aligned := Nat.zero_mod PAGE_SIZE
  low := dir_low
  table_low := by
    intro i hi htable
    rw [Nat.zero_add] at htable ⊢
    exact (h.frame_of_isTable hi htable).1
  table_ne := by
    intro i hi htable
    rw [Nat.zero_add] at htable ⊢
    exact (h.frame_of_isTable hi htable).2

/--
The directory keeps its shape if one entry below the windows changes.
-/
theorem KernelDir.set (h : KernelDir m) {s w : Nat} (hs : s < 512) (hnew : m'.loadWord (4 * s) = w)
    (hold : ∀ i, i < 1024 → i ≠ s → m'.loadWord (4 * i) = m.loadWord (4 * i))
    (hw : bit w 7 = 1 ∨ frame w + PAGE_SIZE ≤ 0x40000000 ∧ (bit w 0 = 1 → frame w ≠ 0))
    : KernelDir m' := by
  constructor
  . intro i hlo hhi
    rw [hold i hhi (by omega)]
    exact h.windows i hlo hhi
  . intro i hi
    by_cases heq : i = s
    . rw [heq, hnew]
      exact hw
    . rw [hold i (by omega) heq]
      exact h.user i hi

theorem KernelDir.drop (h : KernelDir m) {a : Nat} (ha : a % 4 = 0) (hout : a < 4 * 512 ∨ 4 * 1024 ≤ a)
    : KernelDir (Paging.drop m a) := by
  constructor
  . intro i hlo hhi
    rw [loadWord_drop_of_ne ha (by omega) (by omega)]
    exact h.windows i hlo hhi
  . intro i hi
    by_cases heq : 4 * i = a
    . have hframe : frame (m.loadWord a / 2 * 2) = frame (m.loadWord a) := by
        unfold frame
        omega
      have hpse : bit (m.loadWord a / 2 * 2) 7 = bit (m.loadWord a) 7 := by
        unfold bit
        omega
      have habsent : bit (m.loadWord a / 2 * 2) 0 = 0 := by
        unfold bit
        omega
      have huser := h.user i hi
      rw [heq] at huser ⊢
      rw [loadWord_drop_self, hframe, hpse, habsent]
      exact huser.imp_right (fun hlow => ⟨hlow.1, fun hone => by omega⟩)
    . rw [loadWord_drop_of_ne ha (by omega) heq]
      exact h.user i hi

section Step

variable (h : KernelDir m) (hvirt : virt < 0x100000000)

include h hvirt

theorem KernelDir.map {page phy : Nat} {perm rw : BitVec 8} (hphy : phy < 0x100000000)
    (hpage : page = 0 ∨ DirOp.IsFresh 0 m page)
    (hmap : (mapPage m page (0 + KERNEL_BASE) phy virt perm rw).map Prod.snd = some m')
    : KernelDir m' := by
  by_cases hpse : bit (m.loadWord (pdeAddr 0 virt)) 7 = 1
  . rw [show mapPage m page (0 + KERNEL_BASE) phy virt perm rw = some (some (-1), m) from
      @PageTables.mapPage_of_pse h.tables phy virt perm rw hvirt hpse page] at hmap
    exact Option.some.inj hmap ▸ h
  . have hpse' : bit (m.loadWord (pdeAddr 0 virt)) 7 = 0 := bit_ne_one.mp hpse
    by_cases hpresent : bit (m.loadWord (pdeAddr 0 virt)) 0 = 0
    . cases hpage with
      | inl hnull =>
        rw [hnull, DirOp.mapPage_null (by decide) hvirt hpse' hpresent] at hmap
        cases hmap
      | inr hfresh =>
        let p : FreshPage h.tables :=
          ⟨page - KERNEL_BASE, hfresh.aligned, hfresh.low, hfresh.ne_dir, hfresh.ne_table⟩
        have hlow := hfresh.low
        have hne := hfresh.ne_dir
        have haligned := hfresh.aligned
        simp only [PAGE_SIZE] at hlow haligned
        have hmap' := @PageTables.mapPage_of_new h.tables phy virt perm rw p hvirt hphy hpse' hpresent
        rw [show p.addr + KERNEL_BASE = page from Nat.sub_add_cancel hfresh.kernel] at hmap'
        have hslot := h.slot_lt hvirt (fun hbits => by omega)
        have hmem : ∃ w, m' = h.tables.withTable p virt
            ∨ m' = (h.tables.withTable p virt).storeWord (PageTables.ptePtr p.addr virt) w := by
          refine ⟨PageTables.pteWord phy perm rw, ?_⟩
          rw [show mapPage m page (0 + KERNEL_BASE) phy virt perm rw = _ from hmap'] at hmap
          dsimp only at hmap
          split at hmap
          . split at hmap
            . exact Or.inl (Option.some.inj hmap).symm
            . exact Or.inr (Option.some.inj hmap).symm
          . cases hmap
        have hwords (i : Nat) (hi : i < 1024)
            : m'.loadWord (4 * i) = (h.tables.withTable p virt).loadWord (4 * i) := by
          obtain ⟨w, rfl | rfl⟩ := hmem
          . rfl
          . apply Memory.loadWord_storeWord_of_disjoint
            simp only [PageTables.ptePtr, p]
            omega
        apply h.set hslot (w := page - KERNEL_BASE + 7)
        . rw [hwords _ (by omega)]
          have hpde := @PageTables.loadWord_withTable_pde h.tables virt p
          rwa [pdeAddr, show h.tables.dir = 0 from rfl, Nat.zero_add] at hpde
        . intro i hi hne'
          rw [hwords i hi]
          apply PageTables.loadWord_withTable_of_ne p
          . simp only [p]
            omega
          . rw [pdeAddr, show h.tables.dir = 0 from rfl]
            omega
        . right
          rw [show frame (page - KERNEL_BASE + 7) = page - KERNEL_BASE from PageTables.frame_page p]
          exact ⟨hfresh.low, fun _ => hne⟩
    . rw [show mapPage m page (0 + KERNEL_BASE) phy virt perm rw = none from
        @PageTables.mapPage_of_isTable h.tables phy virt perm rw hvirt ⟨bit_ne_zero.mp hpresent, hpse'⟩ page] at hmap
      cases hmap

theorem KernelDir.mapHuge {phy : Nat} {perm rw : BitVec 8}
    (hmap : (mapHugePage m (0 + KERNEL_BASE) phy virt perm rw).map Prod.snd = some m')
    : KernelDir m' := by
  by_cases hpresent : bit (m.loadWord (pdeAddr 0 virt)) 0 = 0
  . obtain ⟨w, hmap', hbits⟩ := @DirOp.mapHugePage_absent 0 virt phy perm rw m (by decide) hvirt hpresent
    rw [hmap', Option.map_some, Option.some.injEq, pdeAddr, Nat.zero_add] at hmap
    have hslot := h.slot_lt hvirt (fun hbits => by omega)
    apply h.set hslot (w := w % 0x100000000)
    . rw [← hmap, Memory.loadWord_storeWord_self]
    . intro i _ hne
      rw [← hmap]
      exact Memory.loadWord_storeWord_of_disjoint _ _ _ _ (by omega)
    . exact Or.inl hbits.2
  . rw [DirOp.mapHugePage_present (by decide) hvirt (bit_ne_zero.mp hpresent)] at hmap
    exact Option.some.inj hmap ▸ h

theorem KernelDir.unmap {op : BitVec 32} (hop : op.toNat = virt) (hok : WindowOk m (.unmap op))
    (hunmap : cfg.unmapPage m (0 + KERNEL_BASE) virt = some m')
    : KernelDir m' := by
  simp only [WindowOk, hop] at hok
  obtain ⟨hlow, hslot⟩ := hok
  have hpde : pdeAddr 0 virt % 4 = 0 ∧ pdeAddr 0 virt < 4 * 512 := by
    unfold pdeAddr
    omega
  by_cases hpse : bit (m.loadWord (pdeAddr 0 virt)) 7 = 1
  . rw [MemConfig.unmapPage_of_pse (by decide) hvirt hpse, Option.some.injEq] at hunmap
    exact hunmap ▸ h.drop hpde.1 (Or.inl hpde.2)
  . have hpse' : bit (m.loadWord (pdeAddr 0 virt)) 7 = 0 := bit_ne_one.mp hpse
    by_cases hreached : MemConfig.Reached (frame (m.loadWord (pdeAddr 0 virt))) virt
    . obtain ⟨m'', hunmap', hkept, hdropped⟩ :=
        @MemConfig.exists_unmapPage cfg m 0 virt _ (by decide) hvirt hpse' rfl hreached
      obtain rfl : m' = m'' := Option.some.inj (hunmap.symm.trans hunmap')
      have huser := (h.user (virt / 0x400000) (by omega)).resolve_left (by
        rw [pdeAddr, Nat.zero_add] at hpse
        exact hpse)
      rw [pdeAddr, Nat.zero_add] at hslot
      have haddr : MemConfig.entryAddr (frame (m.loadWord (pdeAddr 0 virt))) virt % 4 = 0
          ∧ (MemConfig.entryAddr (frame (m.loadWord (pdeAddr 0 virt))) virt < 4 * 512
            ∨ 4 * 1024 ≤ MemConfig.entryAddr (frame (m.loadWord (pdeAddr 0 virt))) virt) := by
        have hframe := frame_mod (m.loadWord (4 * (virt / 0x400000)))
        have hle := huser.1
        simp only [PAGE_SIZE] at hle
        rw [pdeAddr, Nat.zero_add, MemConfig.entryAddr, PageTables.ptePtr]
        rw [pdeAddr, Nat.zero_add] at hpse
        omega
      have hdrop := h.drop haddr.1 haddr.2
      by_cases hentry : HasEntry (Paging.drop m (MemConfig.entryAddr (frame (m.loadWord (pdeAddr 0 virt))) virt))
          (frame (m.loadWord (pdeAddr 0 virt)))
      . rw [hkept hentry]
        exact hdrop
      . rw [hdropped hentry]
        exact hdrop.drop hpde.1 (Or.inl hpde.2)
    . rw [MemConfig.unmapPage_of_not_reached (by decide) hvirt hpse' rfl hreached] at hunmap
      cases hunmap

/--
Any other call of `unmap_page` comes back and takes a part of a window away.
-/
theorem KernelDir.not_keepsWindows {op : BitVec 32} (hop : op.toNat = virt) (hnot : ¬ WindowOk m (.unmap op))
    : ∃ m', cfg.unmapPage m (0 + KERNEL_BASE) virt = some m' ∧ ¬ KeepsWindows m' := by
  simp only [WindowOk, hop] at hnot
  by_cases hlow : virt < 0x80000000
  . rw [and_iff_right hlow, not_or, not_or, not_or] at hnot
    obtain ⟨hpse, hframe, hindex, hindex'⟩ := hnot
    have hpse' : bit (m.loadWord (pdeAddr 0 virt)) 7 = 0 := bit_ne_one.mp hpse
    have hzero : frame (m.loadWord (pdeAddr 0 virt)) = 0 := not_not.mp hframe
    have haddr : MemConfig.entryAddr 0 virt = 4 * (virt / 0x1000 % 0x1000) := by
      rw [MemConfig.entryAddr, PageTables.ptePtr]
      omega
    have hreached : MemConfig.Reached 0 virt := by
      rw [MemConfig.Reached, haddr]
      unfold InWindow
      omega
    obtain ⟨m', hunmap, hkept, hdropped⟩ :=
      @MemConfig.exists_unmapPage cfg m 0 virt 0 (by decide) hvirt hpse' hzero hreached
    refine ⟨m', hunmap, fun hwindows => ?_⟩
    have hwalk := hwindows (virt / 0x1000 % 0x1000 * 0x400000) (by omega) (by omega)
    have hentry : pdeAddr 0 (virt / 0x1000 % 0x1000 * 0x400000) = 4 * (virt / 0x1000 % 0x1000) := by
      unfold pdeAddr
      omega
    have hgone : bit ((Paging.drop m (4 * (virt / 0x1000 % 0x1000))).loadWord (4 * (virt / 0x1000 % 0x1000))) 0 = 0 :=
      bit_drop_self _ _
    have habsent : bit (m'.loadWord (4 * (virt / 0x1000 % 0x1000))) 0 = 0 := by
      rw [haddr] at hkept hdropped
      by_cases hsome : HasEntry (Paging.drop m (4 * (virt / 0x1000 % 0x1000))) 0
      . rw [hkept hsome]
        exact hgone
      . rw [hdropped hsome]
        apply bit_drop_of_bit ?_ (by omega) hgone
        unfold pdeAddr
        omega
    rw [walk_of_not_present (by rw [hentry]; exact habsent)] at hwalk
    cases hwalk
  . have hbits := h.windows.bits (show 512 ≤ virt / 0x400000 by omega) (by omega)
    have hpde : pdeAddr 0 virt = 4 * (virt / 0x400000) := Nat.zero_add _
    refine ⟨_, MemConfig.unmapPage_of_pse (by decide) hvirt (by rw [hpde]; exact hbits.2), fun hwindows => ?_⟩
    have hwalk := hwindows virt (by omega) hvirt
    rw [walk_drop_pde rfl] at hwalk
    cases hwalk

end Step

theorem KernelDir.step (h : KernelDir m) {op : DirOp} (hoffered : DirOp.Offered 0 m op) (hok : WindowOk m op)
    (hstep : op.step cfg 0 m = some m')
    : KernelDir m' := by
  cases op with
  | map page phy virt perm rw => exact h.map virt.isLt phy.isLt hoffered hstep
  | mapHuge phy virt perm rw => exact h.mapHuge virt.isLt hstep
  | unmap virt => exact h.unmap virt.isLt rfl hok hstep

/--
From the directory that the boot code leaves, the windows stay in every state of a run exactly if every call meets the
condition.
-/
theorem keepsWindows_iff (m : Memory) {biosdata : Nat} (hlo : 0xC0001000 ≤ biosdata)
    (hhi : biosdata + BDA_SIZE ≤ 0x100000000)
    : ∃ m', bootPaging m biosdata = some m'
        ∧ ∀ cfg ops, Run.Guarded (DirOp.step cfg 0) (DirOp.Offered 0) m' ops →
          ((∀ ps, ps <+: ops → ∀ s, Run.run (DirOp.step cfg 0) m' ps = some s → KeepsWindows s)
            ↔
          Run.Guarded (DirOp.step cfg 0) WindowOk m' ops) := by
  obtain ⟨m', hboot, hzero, hwindows, -⟩ := bootPaging_spec m hlo hhi
  refine ⟨m', hboot, fun cfg ops hoffered => ?_⟩
  have hdir : KernelDir m' := by
    refine ⟨hwindows, fun i hi => Or.inr ?_⟩
    rw [hzero i hi]
    exact ⟨by decide, fun hone => absurd hone (by decide)⟩
  apply hoffered.iff_states (fun _ h => h.keepsWindows) (fun _ _ _ h hoff hok hstep => h.step hoff hok hstep) ?_ hdir
  intro s op h _ hnot
  cases op with
  | map page phy virt perm rw => exact absurd trivial hnot
  | mapHuge phy virt perm rw => exact absurd trivial hnot
  | unmap virt => exact h.not_keepsWindows virt.isLt rfl hnot

theorem keepsWindows_iff_unmap
    : ∃ m', bootPaging DirOp.zeroMemory 0xC0101000 = some m'
        ∧ ∀ s, DirOp.step PageDir.exampleConfig 0 m' (.unmap 0x1000) = some s → KeepsWindows s := by
  obtain ⟨m', hboot, hiff⟩ := @keepsWindows_iff DirOp.zeroMemory 0xC0101000 (by decide) (by decide)
  refine ⟨m', hboot, fun s hs => ?_⟩
  have hok : Run.Guarded (DirOp.step PageDir.exampleConfig 0) WindowOk m' [.unmap 0x1000] :=
    ⟨⟨by decide, Or.inr (Or.inr (Or.inl (by decide)))⟩, fun _ _ => trivial⟩
  apply (hiff PageDir.exampleConfig [.unmap 0x1000] ⟨trivial, fun _ _ => trivial⟩).mpr hok [.unmap 0x1000]
    (List.prefix_refl _) s
  rw [Run.run_cons, hs]
  rfl

end Boot
end Osproj
