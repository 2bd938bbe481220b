import Osproj.Mm.Impl.PageOps
import Osproj.Mm.Lemmas.Buddy
import Osproj.Mm.Lemmas.Mmap

/-!
This module contains what a call of `unmap_page` comes to: it takes away one present bit, and that of the directory
entry if no entry of the table has one any more.
-/

namespace Osproj

open Paging

/--
The physical addresses that the kernel reaches by adding `KERNEL_BASE`: below 1 GiB, and those of the mmio window,
which the sum wraps to.
-/
def InWindow (a : Nat) : Prop := a < 0x40000000 ∨ 0xC0000000 ≤ a

instance (a : Nat) : Decidable (InWindow a) := by
  unfold InWindow
  infer_instance

theorem linear_window {a : Nat} (h : InWindow (a % 0x100000000))
    : linear ((a + KERNEL_BASE) % 0x100000000) = some (a % 0x100000000) := by
  have hbase : KERNEL_BASE = 0xC0000000 := rfl
  unfold InWindow at h
  unfold linear lin2phy
  rw [if_neg (by omega)]
  split
  . exact congrArg some (by omega)
  . rw [if_pos (by omega)]
    exact congrArg some (by omega)

theorem linear_of_not_window {a : Nat} (h : ¬ InWindow (a % 0x100000000))
    : linear ((a + KERNEL_BASE) % 0x100000000) = none := by
  have hbase : KERNEL_BASE = 0xC0000000 := rfl
  unfold InWindow at h
  unfold linear
  rw [if_pos (by omega)]

namespace Memory

theorem ofKernelSpace_toKernelSpace (m : Memory) : m.ofKernelSpace m.toKernelSpace = m := by
  have hbase : KERNEL_BASE = 0xC0000000 := rfl
  have hlin (a : Nat) : lin2phy (a + KERNEL_BASE) = a := by
    unfold lin2phy
    rw [if_pos (by omega)]
    omega
  have hcell : (m.ofKernelSpace m.toKernelSpace).cell = m.cell := by
    funext a
    simp only [ofKernelSpace, toKernelSpace, hlin, ite_self]
  have hlog : (m.ofKernelSpace m.toKernelSpace).log = m.log := by
    simp only [ofKernelSpace, toKernelSpace, List.map_map, Function.comp_def, hlin, List.map_id']
  cases m
  exact congrArg₂ Memory.mk hcell hlog

end Memory

namespace MemConfig

variable {cfg : MemConfig} {m : Memory} {dir virt table : Nat}

theorem pfree_one (cfg : MemConfig) (m : Memory) (a : Nat) : cfg.pfree m a 1 ZONE_KERNEL = m := by
  -- a size of one byte is no page
  rw [show ZONE_KERNEL = Zone.kernel.code from rfl, cfg.pfree_eq]
  rfl

theorem toWord_pde_absent (m : Memory) (a : Nat)
    : { Pde.ofWord (m.loadWord a) with present := 0 }.toWord = m.loadWord a / 2 * 2 := by
  have hlt := m.loadWord_lt a
  have hzero : (0 : BitVec 1).toNat = 0 := rfl
  simp only [Pde.toWord, Pde.ofWord, BitVec.toNat_ofNat, hzero]
  omega

theorem toWord_pte_absent (m : Memory) (a : Nat)
    : { Pte.ofWord (m.loadWord a) with present := 0 }.toWord = m.loadWord a / 2 * 2 := by
  have hlt := m.loadWord_lt a
  have hzero : (0 : BitVec 1).toNat = 0 := rfl
  simp only [Pte.toWord, Pte.ofWord, BitVec.toNat_ofNat, hzero]
  omega

theorem linear_slot (table i : Nat) (h : InWindow ((table + 4 * i) % 0x100000000))
    : linear (((table + KERNEL_BASE) % 0x100000000 + 4 * i) % 0x100000000) = some ((table + 4 * i) % 0x100000000) := by
  rw [Nat.mod_add_mod, Nat.add_right_comm]
  exact linear_window h

theorem linear_slot_of_not (table i : Nat) (h : ¬ InWindow ((table + 4 * i) % 0x100000000))
    : linear (((table + KERNEL_BASE) % 0x100000000 + 4 * i) % 0x100000000) = none := by
  rw [Nat.mod_add_mod, Nat.add_right_comm]
  exact linear_of_not_window h

theorem exists_anyPresent (haligned : table % 0x1000 = 0) (hlt : table < 0x100000000) (htable : InWindow table)
    {left i : Nat} (hi : i + left ≤ 1024)
    : ∃ found, unmapPage.anyPresent m ((table + KERNEL_BASE) % 0x100000000) i left = some found
        ∧ (found = true ↔ ∃ j, i ≤ j ∧ j < i + left ∧ bit (m.loadWord (table + 4 * j)) 0 = 1) := by
  induction left generalizing i with
  | zero =>
    refine ⟨false, rfl, iff_of_false (by decide) ?_⟩
    rintro ⟨j, hlo, hhi, -⟩
    omega
  | succ left ih =>
    have haddr : (table + 4 * i) % 0x100000000 = table + 4 * i := by omega
    have hlin := linear_slot table i (by
      rw [haddr]
      unfold InWindow at htable ⊢
      omega)
    rw [haddr] at hlin
    simp only [unmapPage.anyPresent, hlin, Option.bind_eq_bind, Option.bind_some, PageTables.pte_present_iff]
    by_cases hbit : bit (m.loadWord (table + 4 * i)) 0 = 1
    . rw [if_pos hbit]
      exact ⟨true, rfl, iff_of_true rfl ⟨i, Nat.le_refl i, by omega, hbit⟩⟩
    . rw [if_neg hbit]
      obtain ⟨found, hscan, hfound⟩ := @ih (i + 1) (by omega)
      refine ⟨found, hscan, hfound.trans ⟨?_, ?_⟩⟩
      . rintro ⟨j, hlo, hhi, hj⟩
        exact ⟨j, by omega, by omega, hj⟩
      . rintro ⟨j, hlo, hhi, hj⟩
        have hne : j ≠ i := by
          rintro rfl
          exact hbit hj
        exact ⟨j, by omega, by omega, hj⟩

theorem anyPresent_of_none {base left i : Nat} (h : linear ((base + 4 * i) % 0x100000000) = none)
    : unmapPage.anyPresent m base i (left + 1) = none := by
  simp only [unmapPage.anyPresent, h, Option.bind_eq_bind, Option.bind_none]

/--
The address of the entry that the code takes for the one of `virt`.
-/
def entryAddr (table virt : Nat) : Nat := PageTables.ptePtr table virt % 0x100000000

def Reached (table virt : Nat) : Prop := InWindow table ∧ InWindow (entryAddr table virt)

instance (table virt : Nat) : Decidable (Reached table virt) := by
  unfold Reached
  infer_instance

theorem unmapPage_of_pse (hlow : dir + PAGE_SIZE ≤ 0x40000000) (hvirt : virt < 0x100000000)
    (hpse : bit (m.loadWord (pdeAddr dir virt)) 7 = 1)
    : cfg.unmapPage m (dir + KERNEL_BASE) virt = some (drop m (pdeAddr dir virt)) := by
  have hpse' := (PageTables.pse_iff _).mpr hpse
  simp only [unmapPage, PageTables.linear_dir hlow hvirt, Option.bind_eq_bind, Option.bind_some, if_pos hpse',
    Option.pure_def, toWord_pde_absent, drop]

section NoPse

variable (hlow : dir + PAGE_SIZE ≤ 0x40000000) (hvirt : virt < 0x100000000)
  (hpse : bit (m.loadWord (pdeAddr dir virt)) 7 = 0) (htable : frame (m.loadWord (pdeAddr dir virt)) = table)

include hlow hvirt hpse htable

theorem unmapPage_scan
    : cfg.unmapPage m (dir + KERNEL_BASE) virt
        =
      (linear (((table + KERNEL_BASE) % 0x100000000 + 4 * (virt / 0x1000 % 0x1000)) % 0x100000000)).bind (fun a =>
        (unmapPage.anyPresent (drop m a) ((table + KERNEL_BASE) % 0x100000000) 0 1024).bind (fun found =>
          if found = true then some (drop m a) else some (drop (drop m a) (pdeAddr dir virt)))) := by
  have hpse' : ¬ (Pde.ofWord (m.loadWord (pdeAddr dir virt))).pse = 1 := by
    rw [PageTables.pse_iff]
    omega
  simp only [unmapPage, PageTables.linear_dir hlow hvirt, Option.bind_eq_bind, Option.bind_some, if_neg hpse',
    Option.pure_def, PageTables.addr_shiftLeft (m.loadWord_lt _), htable, PageTables.pteIndex_eq, pfree_one,
    Memory.ofKernelSpace_toKernelSpace, toWord_pte_absent, toWord_pde_absent, drop]

theorem exists_unmapPage (hreached : Reached table virt)
    : ∃ m', cfg.unmapPage m (dir + KERNEL_BASE) virt = some m'
        ∧ (HasEntry (drop m (entryAddr table virt)) table → m' = drop m (entryAddr table virt))
        ∧ (¬ HasEntry (drop m (entryAddr table virt)) table →
          m' = drop (drop m (entryAddr table virt)) (pdeAddr dir virt)) := by
  have hword := m.loadWord_lt (pdeAddr dir virt)
  have hframe := frame_mod (m.loadWord (pdeAddr dir virt))
  have hlt : frame (m.loadWord (pdeAddr dir virt)) < 0x100000000 := by
    unfold frame
    omega
  rw [htable] at hframe hlt
  obtain ⟨found, hscan, hfound⟩ := @exists_anyPresent (drop m (entryAddr table virt)) table hframe hlt hreached.1 1024 0
    (by omega)
  have hfound' : found = true ↔ HasEntry (drop m (entryAddr table virt)) table := by
    rw [hfound, HasEntry]
    simp only [Nat.zero_le, true_and, Nat.zero_add]
  rw [unmapPage_scan hlow hvirt hpse htable, linear_slot _ _ hreached.2, Option.bind_some, ← PageTables.ptePtr,
    ← entryAddr, hscan, Option.bind_some]
  refine ⟨if found = true then drop m (entryAddr table virt)
    else drop (drop m (entryAddr table virt)) (pdeAddr dir virt), ?_, ?_, ?_⟩
  . split <;> rfl
  . intro h
    rw [if_pos (hfound'.mpr h)]
  . intro h
    rw [if_neg (mt hfound'.mp h)]

theorem exists_unmapPage_of_absent (hdir : dir % 4 = 0) (hreached : Reached table virt)
    (habsent : bit (m.loadWord (pdeAddr dir virt)) 0 = 0)
    : ∃ m', cfg.unmapPage m (dir + KERNEL_BASE) virt = some m'
        ∧ ∀ a, m'.load a = (drop m (entryAddr table virt)).load a := by
  have hframe := frame_mod (m.loadWord (pdeAddr dir virt))
  rw [htable] at hframe
  obtain ⟨m', hunmap, hkept, hdropped⟩ := exists_unmapPage hlow hvirt hpse htable hreached
  refine ⟨m', hunmap, ?_⟩
  by_cases hentry : HasEntry (drop m (entryAddr table virt)) table
  . rw [hkept hentry]
    exact fun _ => rfl
  . -- the present bit of the directory entry is taken away a second time
    rw [hdropped hentry]
    apply load_drop_of_bit
    have hentryAddr : entryAddr table virt % 4 = 0 := by
      unfold entryAddr PageTables.ptePtr
      omega
    have hpdeAddr : pdeAddr dir virt % 4 = 0 := by
      unfold pdeAddr
      omega
    exact bit_drop_of_bit hentryAddr hpdeAddr habsent

theorem unmapPage_of_not_reached (hreached : ¬ Reached table virt)
    : cfg.unmapPage m (dir + KERNEL_BASE) virt = none := by
  have hword := m.loadWord_lt (pdeAddr dir virt)
  have hlt : table < 0x100000000 := by
    rw [← htable, frame]
    omega
  rw [unmapPage_scan hlow hvirt hpse htable]
  by_cases hentry : InWindow (entryAddr table virt)
  . have hfirst := linear_slot_of_not table 0 (by
      rw [Nat.mul_zero, Nat.add_zero, Nat.mod_eq_of_lt hlt]
      exact fun h => hreached ⟨h, hentry⟩)
    rw [linear_slot _ _ hentry, Option.bind_some, anyPresent_of_none hfirst, Option.bind_none]
  . rw [linear_slot_of_not _ _ hentry, Option.bind_none]

end NoPse

end MemConfig
end Osproj
