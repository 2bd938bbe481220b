import Osproj.Mm.Lemmas.PageMarks

/-!
This module contains `palloc` for the kernel as long as nothing is released. The entries that are taken are the first
ones, so `palloc` moves one cursor: the page it returns is the one before the first unused entry, and the last page of
the zone is never given out.
-/

namespace Osproj
namespace MemConfig

variable {cfg : MemConfig} {m m' : Memory} {u size : Nat}

/--
The first `u` entries of the kernel map are taken, and all others are unused.
-/
structure TakenTo (cfg : MemConfig) (m : Memory) (u : Nat) : Prop where
  pos : 0 < u
  le : u ≤ cfg.kernelMemPages
  unused_iff : ∀ i, i < cfg.kernelMemPages → (cfg.Unused m .kernel i ↔ u ≤ i)

/--
The address of the page that `palloc` returns if the first unused entry is `u`.
-/
def pageAddr (u : Nat) : Nat := 0xC0000000 + (u - 1) * PAGE_SIZE

theorem pageAddr_add (hu : 0 < u) (n : Nat) : pageAddr (u + n) = pageAddr u + n * PAGE_SIZE := by
  simp only [pageAddr, PAGE_SIZE]
  omega

theorem pageAddr_ne_zero (u : Nat) : pageAddr u ≠ 0 := by
  simp only [pageAddr]
  omega

theorem runAddr_kernel (hu : 0 < u) (hle : u ≤ 0x40000) : runAddr .kernel u = pageAddr u := by
  simp only [runAddr, phy2lin, pageAddr, PAGE_SIZE]
  split
  . omega
  . omega

theorem takenTo_pageInit (cfg : MemConfig) (m : Memory) (hfit : cfg.kernelReservedPages ≤ cfg.kernelMemPages)
    : cfg.TakenTo (cfg.pageInit m) cfg.kernelReservedPages := by
  constructor
  . exact kernelReservedPages_pos
  . exact hfit
  . intro i hi
    simp only [Unused, memmap]
    rw [cfg.load_pageInit (by omega)]
    split
    . next hlt => exact iff_of_false (by decide) (by omega)
    . next hge => exact iff_of_true rfl (by omega)

theorem TakenTo.firstRun (h : cfg.TakenTo m u) {n : Nat} (hn : 0 < n) (hfit : u + n ≤ cfg.kernelMemPages)
    : FirstRun (cfg.Unused m .kernel) (cfg.memPages .kernel) n u := by
  constructor
  . exact hfit
  . intro i hlo hhi
    exact (h.unused_iff i (by omega)).mpr hlo
  . intro c hc
    refine ⟨c, Nat.le_refl c, by omega, ?_⟩
    intro hfree
    have hle := (h.unused_iff c (by omega)).mp hfree
    omega

theorem TakenTo.not_firstRun (h : cfg.TakenTo m u) {n b : Nat} (hn : 0 < n) (hfit : cfg.kernelMemPages < u + n)
    : ¬ FirstRun (cfg.Unused m .kernel) (cfg.memPages .kernel) n b := by
  intro hrun
  have hfits : b + n ≤ cfg.kernelMemPages := hrun.fits
  have hle := (h.unused_iff b (by omega)).mp (hrun.all b (Nat.le_refl b) (by omega))
  omega

theorem TakenTo.headIndex (h : cfg.TakenTo m u) : cfg.headIndex m .kernel u = u := by
  apply headIndex_of_taken
  intro i hi hfree
  have hle := h.le
  have := (h.unused_iff i (by omega)).mp hfree
  omega

theorem TakenTo.fill (h : cfg.TakenTo m u) {n : Nat} (hfit : u + n ≤ cfg.kernelMemPages)
    : cfg.TakenTo (m.fill (cfg.memmapKernel + u) MEM_USED n) (u + n) := by
  constructor
  . have hpos := h.pos
    omega
  . exact hfit
  . intro i hi
    have hunused := h.unused_iff i hi
    simp only [Unused, memmap] at *
    rw [Memory.load_fill]
    split
    . next hin => exact iff_of_false (by decide) (by omega)
    . next hout =>
      rw [hunused]
      omega

/--
What is stored outside of the kernel map does not matter.
-/
theorem TakenTo.congr (h : cfg.TakenTo m u)
    (hload : ∀ a, cfg.memmapKernel ≤ a → a < cfg.memmapUser → m'.load a = m.load a)
    : cfg.TakenTo m' u := by
  have huser := cfg.memmapUser_eq
  constructor
  . exact h.pos
  . exact h.le
  . intro i hi
    rw [← h.unused_iff i hi]
    simp only [Unused, memmap]
    rw [hload _ (by omega) (by omega)]

/--
`palloc` for the kernel gives out the next pages, or finds that there are too few left.
-/
theorem TakenTo.palloc (h : cfg.TakenTo m u) (hlt : size < 0x100000000)
    : if 0 < size ∧ u + pages size ≤ cfg.kernelMemPages then
        cfg.palloc m ZONE_KERNEL size = (pageAddr u, m.fill (cfg.memmapKernel + u) MEM_USED (pages size))
          ∧ cfg.TakenTo (cfg.palloc m ZONE_KERNEL size).2 (u + pages size)
      else
        cfg.palloc m ZONE_KERNEL size = (0, m) := by
  have hle := h.le
  have hpages := cfg.kernelMemPages_le
  by_cases hsize : 0 < size
  . by_cases hfit : u + pages size ≤ cfg.kernelMemPages
    . have hpalloc : cfg.palloc m ZONE_KERNEL size
          = (pageAddr u, m.fill (cfg.memmapKernel + u) MEM_USED (pages size)) := by
        rw [← runAddr_kernel h.pos (by omega)]
        have hrun := cfg.palloc_of_firstRun hsize hlt (h.firstRun (pages_pos hsize) hfit)
        rw [h.headIndex] at hrun
        exact hrun
      rw [if_pos ⟨hsize, hfit⟩, hpalloc]
      exact ⟨rfl, h.fill hfit⟩
    . rw [if_neg (fun hand => hfit hand.2)]
      rcases cfg.palloc_spec m .kernel hsize hlt with ⟨b, hrun, -⟩ | ⟨-, hpalloc⟩
      . exact absurd hrun (h.not_firstRun (pages_pos hsize) (by omega))
      . exact hpalloc
  . rw [if_neg (fun hand => hsize hand.1), show size = 0 by omega]
    exact palloc_zero m .kernel

end MemConfig
end Osproj
