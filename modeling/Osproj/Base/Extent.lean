import Mathlib.Algebra.GroupWithZero.Nat
import Mathlib.Data.List.Perm.Basic

/-!
This module contains extents of a linear space and bump allocation: a cursor that starts at `lo` and hands out the
next places up to a limit. What it has handed out fills the space between `lo` and the cursor and does not overlap.
-/

namespace Osproj

structure Extent where
  start : Nat
  size : Nat

namespace Extent

variable {e e' f f' : Extent}

def Contains (e : Extent) (a : Nat) : Prop := e.start ≤ a ∧ a < e.start + e.size

instance (e : Extent) (a : Nat) : Decidable (e.Contains a) := by
  unfold Contains
  infer_instance

def Within (e f : Extent) : Prop := f.start ≤ e.start ∧ e.start + e.size ≤ f.start + f.size

def Apart (e e' : Extent) : Prop := e.start + e.size ≤ e'.start ∨ e'.start + e'.size ≤ e.start

instance (e e' : Extent) : Decidable (e.Apart e') := by
  unfold Apart
  infer_instance

theorem Apart.symm (h : Apart e e') : Apart e' e := by
  exact Or.symm h

theorem Contains.within {a : Nat} (h : e.Contains a) (he : e.Within f) : f.Contains a := by
  have ⟨hlo, hhi⟩ := h
  have ⟨hlo', hhi'⟩ := he
  unfold Contains
  omega

theorem Apart.within (h : Apart f f') (he : e.Within f) (he' : e'.Within f') : Apart e e' := by
  have ⟨hlo, hhi⟩ := he
  have ⟨hlo', hhi'⟩ := he'
  unfold Apart at *
  omega

end Extent

/--
The extents are those that a cursor between `lo` and `hi` has passed.
-/
structure Packed (lo hi : Nat) (l : List Extent) : Prop where
  apart : l.Pairwise Extent.Apart
  inside : ∀ e ∈ l, lo ≤ e.start ∧ e.start + e.size ≤ hi
  full : lo + (l.map Extent.size).sum = hi

namespace Packed

variable {lo hi : Nat} {l l' : List Extent}

theorem nil (lo : Nat) : Packed lo lo [] := by
  constructor
  . exact .nil
  . simp
  . simp

theorem perm (h : Packed lo hi l) (hperm : l.Perm l') : Packed lo hi l' := by
  constructor
  . exact h.apart.perm hperm (fun hapart => hapart.symm)
  . intro e he
    exact h.inside e (hperm.mem_iff.mpr he)
  . rw [← (hperm.map Extent.size).sum_nat]
    exact h.full

theorem push (h : Packed lo hi l) (n : Nat) : Packed lo (hi + n) (⟨hi, n⟩ :: l) := by
  have hle : lo ≤ hi := by
    have hfull := h.full
    omega
  constructor
  . refine List.pairwise_cons.mpr ⟨?_, h.apart⟩
    intro e he
    exact Or.inr (h.inside e he).2
  . intro e he
    cases List.mem_cons.mp he with
    | inl he =>
      rw [he]
      exact ⟨hle, Nat.le_refl _⟩
    | inr he =>
      have hinside := h.inside e he
      exact ⟨hinside.1, by omega⟩
  . have hfull := h.full
    simp only [List.map_cons, List.sum_cons]
    omega

theorem push_middle (h : Packed lo hi (l ++ l')) (n : Nat) : Packed lo (hi + n) (l ++ ⟨hi, n⟩ :: l') := by
  exact (h.push n).perm List.perm_middle.symm

end Packed
end Osproj
