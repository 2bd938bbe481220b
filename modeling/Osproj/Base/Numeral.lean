import Mathlib.Data.Nat.Digits.Lemmas

/-!
This module contains numerals: the digits of a number as characters of any alphabet, most significant first, and the
number that a string of digits stands for.
-/

namespace Osproj
namespace Numeral

variable {α : Type} {b n k : Nat} {digit : α → Nat} {put : Char → α} {cs : List α}

def value (b : Nat) (digit : α → Nat) (cs : List α) : Nat := cs.foldl (fun v c => b * v + digit c) 0

theorem value_append_singleton (c : α) : value b digit (cs ++ [c]) = b * value b digit cs + digit c := by
  rw [value, List.foldl_append]
  rfl

theorem value_cons_zero {z : α} (hz : digit z = 0) : value b digit (z :: cs) = value b digit cs := by
  rw [value, List.foldl_cons, hz]
  rfl

theorem value_replicate_append {z : α} (hz : digit z = 0) (k : Nat)
    : value b digit (List.replicate k z ++ cs) = value b digit cs := by
  induction k with
  | zero => rfl
  | succ k ih => rw [List.replicate_succ, List.cons_append, value_cons_zero hz, ih]

theorem value_toDigits (hb : 1 < b) (hput : ∀ d < b, digit (put d.digitChar) = d) (n : Nat)
    : value b digit ((Nat.toDigits b n).map put) = n := by
  induction n using Nat.strong_induction_on with
  | h n ih =>
    rw [Nat.toDigits_eq_if hb]
    split
    . next hlt =>
      rw [List.map_singleton, value, List.foldl_cons, hput n hlt]
      simp
    . next hge =>
      have hdiv := ih (n / b) (Nat.div_lt_self (by omega) hb)
      rw [List.map_append, List.map_singleton, value_append_singleton, hdiv, hput _ (Nat.mod_lt n (by omega)),
        Nat.div_add_mod]

theorem toDigits_eq_digits (hb : 1 < b) (hn : n ≠ 0)
    : Nat.toDigits b n = (Nat.digits b n).reverse.map Nat.digitChar := by
  induction n using Nat.strong_induction_on with
  | h n ih =>
    rw [Nat.toDigits_eq_if hb, Nat.digits_def' hb (Nat.pos_of_ne_zero hn), List.reverse_cons, List.map_append]
    split
    . next hlt =>
      rw [Nat.div_eq_of_lt hlt, Nat.mod_eq_of_lt hlt, Nat.digits_zero]
      rfl
    . next hge =>
      have hpos : n / b ≠ 0 := by
        have := Nat.div_pos (show b ≤ n by omega) (by omega)
        omega
      rw [ih (n / b) (Nat.div_lt_self (by omega) hb) hpos]
      rfl

theorem head_toDigits (hb : 1 < b) (hn : n ≠ 0)
    : ∃ d, 0 < d ∧ d < b ∧ (Nat.toDigits b n).head? = some d.digitChar := by
  have hnil : Nat.digits b n ≠ [] := Nat.digits_ne_nil_iff_ne_zero.mpr hn
  refine ⟨(Nat.digits b n).getLast hnil, ?_, ?_, ?_⟩
  . exact Nat.pos_of_ne_zero (Nat.getLast_digit_ne_zero b hn)
  . exact Nat.digits_lt_base hb (List.getLast_mem hnil)
  . rw [toDigits_eq_digits hb hn, List.head?_map, List.head?_reverse, List.getLast?_eq_some_getLast hnil]
    rfl

theorem reverse_digits (hb : 1 < b) (hk : (Nat.digits b n).length = k)
    : (Nat.digits b n).reverse = (List.range k).map fun i => n / b ^ (k - 1 - i) % b := by
  subst hk
  apply List.ext_getElem
  . simp
  . intro i hi hi'
    rw [List.length_reverse] at hi
    rw [List.getElem_reverse, List.getElem_map, List.getElem_range, ← Nat.getD_digits n _ hb,
      List.getD_eq_getElem?_getD, List.getElem?_eq_getElem (by omega), Option.getD_some]

end Numeral
end Osproj
