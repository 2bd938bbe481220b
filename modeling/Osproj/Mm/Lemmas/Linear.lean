import Mathlib.Data.Set.Function
import Mathlib.Order.Interval.Set.Defs
import Osproj.Mm.Impl.Mmap

/-!
This module contains the two views of physical memory, the kernel's and that of the devices: each function is the
other one's inverse there, and `NULL` everywhere else.
-/

namespace Osproj

open Set

def kernelMemory : Set Nat := Ico 0 0x40000000

def deviceMemory : Set Nat := Ico 0xC0000000 0x100000000

def kernelView : Set Nat := Ico 0xC0000000 0x100000000

def deviceView : Set Nat := Ico 0x80000000 0xC0000000

theorem phy2lin_of_kernel {p : Nat} (hp : p ∈ kernelMemory) : phy2lin p = p + 0xC0000000 := by
  have hlt : p < 0x40000000 := hp.2
  rw [phy2lin, if_pos (by omega)]
  apply Nat.mod_eq_of_lt
  omega

theorem phy2lin_of_device {p : Nat} (hp : p ∈ deviceMemory) : phy2lin p = p - 0x40000000 := by
  have hle : 0xC0000000 ≤ p := hp.1
  rw [phy2lin, if_neg (by omega), if_pos hle]

/--
`phy2lin` takes `0x40000000` for an address of kernel memory, but there the sum wraps to `NULL`.
-/
theorem phy2lin_of_hole {p : Nat} (hp : p ∈ Ico 0x40000000 0xC0000000) : phy2lin p = 0 := by
  obtain ⟨hle, hlt⟩ := hp
  rw [phy2lin]
  split
  . next hkernel =>
    obtain rfl : p = 0x40000000 := by omega
    rfl
  . rw [if_neg (by omega)]

theorem lin2phy_of_kernel {l : Nat} (hl : l ∈ kernelView) : lin2phy l = l - 0xC0000000 := by
  rw [lin2phy, if_pos hl.1]

theorem lin2phy_of_device {l : Nat} (hl : l ∈ deviceView) : lin2phy l = l + 0x40000000 := by
  have hview : 0x80000000 ≤ l ∧ l < 0xC0000000 := hl
  rw [lin2phy, if_neg (Nat.not_le_of_lt hview.2), if_pos hview]

theorem lin2phy_of_user {l : Nat} (hl : l ∈ Ico 0 0x80000000) : lin2phy l = 0 := by
  have hlt : l < 0x80000000 := hl.2
  rw [lin2phy, if_neg (by omega), if_neg (by omega)]

theorem mapsTo_phy2lin_kernel : MapsTo phy2lin kernelMemory kernelView := by
  intro p hp
  rw [phy2lin_of_kernel hp]
  have hlt : p < 0x40000000 := hp.2
  constructor <;> omega

theorem mapsTo_phy2lin_device : MapsTo phy2lin deviceMemory deviceView := by
  intro p hp
  rw [phy2lin_of_device hp]
  obtain ⟨hle, hlt⟩ := hp
  constructor <;> omega

/--
Between the memory that the kernel and the devices have and the two views of it, `phy2lin` and `lin2phy` are inverse
to each other.
-/
theorem phy2lin_partialBijection
    : LeftInvOn lin2phy phy2lin (kernelMemory ∪ deviceMemory)
        ∧ MapsTo phy2lin kernelMemory kernelView
        ∧ MapsTo phy2lin deviceMemory deviceView
        ∧ LeftInvOn phy2lin lin2phy (Ico 0x80000000 0x100000000)
        ∧ (∀ p ∈ Ico 0x40000000 0xC0000000, phy2lin p = 0)
        ∧ ∀ l ∈ Ico 0 0x80000000, lin2phy l = 0 := by
  refine ⟨?_, mapsTo_phy2lin_kernel, mapsTo_phy2lin_device, ?_, ?_, ?_⟩
  . intro p hp
    cases hp with
    | inl hp =>
      rw [lin2phy_of_kernel (mapsTo_phy2lin_kernel hp), phy2lin_of_kernel hp]
      apply Nat.add_sub_cancel
    | inr hp =>
      rw [lin2phy_of_device (mapsTo_phy2lin_device hp), phy2lin_of_device hp]
      have hle : 0xC0000000 ≤ p := hp.1
      omega
  . rintro l ⟨hle, hlt⟩
    by_cases hkernel : 0xC0000000 ≤ l
    . rw [lin2phy_of_kernel ⟨hkernel, hlt⟩, phy2lin_of_kernel ⟨by omega, by omega⟩]
      omega
    . rw [lin2phy_of_device ⟨hle, by omega⟩, phy2lin_of_device ⟨by omega, by omega⟩]
      omega
  . intro p hp
    exact phy2lin_of_hole hp
  . intro l hl
    exact lin2phy_of_user hl

end Osproj
