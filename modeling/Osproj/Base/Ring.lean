import Mathlib.Data.Nat.ModEq

/-!
This module contains rings: the `n` cells of a buffer that hold a queue, from cell `j` on and around the
end. Positions count on forever and stand for cells modulo `n`.
-/

namespace Osproj
namespace Ring

variable {α : Type} {n j : Nat} {cell cell' : Nat → α} {q : List α} {a : α}

def Holds (n : Nat) (cell : Nat → α) (j : Nat) (q : List α) : Prop :=
  ∀ t b, q[t]? = some b → cell ((j + t) % n) = b

theorem Holds.nil (n : Nat) (cell : Nat → α) (j : Nat) : Holds n cell j [] := by
  simp [Holds]

theorem add_mod_ne {t t' : Nat} (h : t < t') (h' : t' < n) : (j + t) % n ≠ (j + t') % n := by
  intro heq
  have hmod : t ≡ t' [MOD n] := Nat.ModEq.add_left_cancel' j heq
  rw [Nat.ModEq, Nat.mod_eq_of_lt (h.trans h'), Nat.mod_eq_of_lt h'] at hmod
  omega

theorem add_mod_eq_iff {t : Nat} (h : t < n) : (j + t) % n = j % n ↔ t = 0 := by
  constructor
  . intro heq
    by_contra ht
    exact @add_mod_ne n j 0 t (by omega) h heq.symm
  . rintro rfl
    rfl

theorem Holds.push (h : Holds n cell j q) (hlength : q.length < n)
    (hself : cell' ((j + q.length) % n) = a)
    (hother : ∀ i, i < n → i ≠ (j + q.length) % n → cell' i = cell i)
    : Holds n cell' j (q ++ [a]) := by
  intro t b ht
  rcases Nat.lt_trichotomy t q.length with hlt | rfl | hgt
  . rw [List.getElem?_append_left hlt] at ht
    rw [hother _ (Nat.mod_lt _ (by omega)) (add_mod_ne hlt hlength), h t b ht]
  . simp only [List.getElem?_concat_length, Option.some.injEq] at ht
    rw [hself, ht]
  . rw [List.getElem?_eq_none (by simp; omega)] at ht
    simp at ht

theorem Holds.head (h : Holds n cell j (a :: q)) : cell (j % n) = a :=
  h 0 a rfl

theorem Holds.tail (h : Holds n cell j (a :: q)) : Holds n cell (j + 1) q := by
  intro t b ht
  have hcell := h (t + 1) b (by simpa using ht)
  rwa [show j + (t + 1) = j + 1 + t by omega] at hcell

theorem mod_succ (hn : 0 < n) (j : Nat) : (j + 1) % n = if n ≤ j % n + 1 then 0 else j % n + 1 := by
  have hlt := Nat.mod_lt j hn
  rw [Nat.add_mod]
  by_cases hone : n = 1
  . subst hone
    simp [Nat.mod_one]
  . rw [Nat.mod_eq_of_lt (show 1 < n by omega)]
    split
    . rw [show j % n + 1 = n by omega, Nat.mod_self]
    . exact Nat.mod_eq_of_lt (by omega)

end Ring
end Osproj
