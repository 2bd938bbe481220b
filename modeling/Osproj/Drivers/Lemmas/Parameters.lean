import Osproj.Base.Numeral
import Osproj.Drivers.Lemmas.Escape

/-!
This module contains what `atoi_comma` makes of the parameters of an escape sequence: numbers of up to nine decimal
digits come back, with or without leading zeros, and a number that is left out is zero.
-/

namespace Osproj
namespace Tty

def digit (c : BitVec 8) : Nat := c.toNat - 48

/--
`cs` is the number `a` in decimal digits. No digit at all stands for zero.
-/
structure Decimal (cs : List (BitVec 8)) (a : Nat) : Prop where
  digits : ∀ c ∈ cs, 48 ≤ c.toNat ∧ c.toNat ≤ 57
  value : Numeral.value 10 digit cs = a

section Decimal

variable {cs rest : List (BitVec 8)} {a : Nat}

theorem decimal_toDigits (a : Nat) : Decimal ((Nat.toDigits 10 a).map fun c => BitVec.ofNat 8 c.toNat) a := by
  have hdigit : ∀ d < 10, digit (BitVec.ofNat 8 d.digitChar.toNat) = d := by decide
  constructor
  . intro c hc
    obtain ⟨d, hd, rfl⟩ := List.mem_map.mp hc
    have hdigit : d.isDigit := Nat.isDigit_of_mem_toDigits (by decide) (Nat.le_refl 10) hd
    have hrange : 48 ≤ d.toNat ∧ d.toNat ≤ 57 := by
      simp only [Char.isDigit, Bool.and_eq_true, decide_eq_true_eq] at hdigit
      exact hdigit
    rw [BitVec.toNat_ofNat]
    omega
  . exact Numeral.value_toDigits (by decide) hdigit a

theorem exists_decimal (ha : a < 10 ^ 9) : ∃ cs, cs ≠ [] ∧ cs.length ≤ 9 ∧ Decimal cs a := by
  refine ⟨_, ?_, ?_, decimal_toDigits a⟩
  . rw [ne_eq, List.map_eq_nil_iff]
    exact Nat.toDigits_ne_nil
  . rw [List.length_map, Nat.length_toDigits_le_iff (by decide) (by decide)]
    exact ha

theorem Decimal.not_mem (h : Decimal cs a) {c : BitVec 8} (hc : c.toNat < 48 ∨ 57 < c.toNat) : c ∉ cs := by
  intro hmem
  have hdigits := h.digits c hmem
  omega

end Decimal

section Scan

variable {cs rest : List (BitVec 8)} {a : Nat}

theorem scan_append {c : BitVec 8} (h : c ∉ cs) {n : Nat} (hn : cs.length < n)
    : atoi.scan (cs ++ c :: rest) c n = some cs.length := by
  induction cs generalizing n with
  | nil =>
    obtain ⟨n, rfl⟩ := Nat.exists_eq_succ_of_ne_zero (Nat.ne_of_gt hn)
    rw [List.nil_append, atoi.scan, if_pos rfl]
    rfl
  | cons b cs ih =>
    rw [List.mem_cons, not_or] at h
    rw [List.length_cons] at hn
    obtain ⟨n, rfl⟩ := Nat.exists_eq_succ_of_ne_zero (show n ≠ 0 by omega)
    rw [List.cons_append, atoi.scan, if_neg (Ne.symm h.1), ih h.2 (by omega)]
    rfl

theorem find_of_not_mem {dec : List (BitVec 8)} (h : 59 ∉ dec) {n : Nat} (hn : n ≤ dec.length)
    : atoiComma.find dec n = some none := by
  induction n generalizing dec with
  | zero => rw [atoiComma.find]
  | succ n ih =>
    cases dec with
    | nil => cases hn
    | cons b dec =>
      rw [List.mem_cons, not_or] at h
      rw [atoiComma.find, if_neg (Ne.symm h.1), ih h.2 (Nat.le_of_succ_le_succ hn)]
      rfl

/--
The digits are added from the last one on, `result` is the value of those behind `cs`.
-/
theorem sum_append (hdigits : ∀ c ∈ cs, 48 ≤ c.toNat ∧ c.toNat ≤ 57) {k result : Nat} (hk : k + cs.length ≤ 9)
    (hresult : result < 10 ^ k)
    : atoi.sum (cs ++ rest) cs.length ((10 ^ k : Nat) : Int) result
        =
      some ((result + 10 ^ k * Numeral.value 10 digit cs : Nat) : Int) := by
  induction cs using List.reverseRecOn generalizing k result rest with
  | nil => simp [atoi.sum, Numeral.value]
  | append_singleton cs c ih =>
    rw [List.length_append, List.length_singleton] at hk ⊢
    have hc := hdigits c (List.mem_append_right cs (List.mem_singleton_self c))
    have hpow : 10 ^ k ≤ 100000000 := Nat.pow_le_pow_right (by decide) (show k ≤ 8 by omega)
    have hsucc : 10 ^ (k + 1) = 10 ^ k * 10 := Nat.pow_succ 10 k
    have hrest (result : Nat) := @ih (c :: rest) (fun d hd => hdigits d (List.mem_append_left [c] hd)) (k + 1) result
      (by omega)
    rw [hsucc] at hrest
    generalize 10 ^ k = p at *
    have hle : p * digit c ≤ p * 9 := by
      apply Nat.mul_le_mul_left
      simp only [digit]
      omega
    have hget : (cs ++ [c] ++ rest)[cs.length]? = some c := by simp
    have hint : c.toInt - 48 = (digit c : Int) := by
      rw [BitVec.toInt_eq_toNat_of_lt (by omega), digit]
      omega
    have hterm : int32 ((p : Int) * (c.toInt - 48)) = ((p * digit c : Nat) : Int) := by
      rw [hint, ← Int.natCast_mul]
      apply int32_eq_self <;> omega
    have hbase : int32 ((p : Int) * 10) = ((p * 10 : Nat) : Int) := by
      push_cast
      apply int32_eq_self <;> omega
    have hsum : int32 ((result : Int) + ((p * digit c : Nat) : Int)) = ((result + p * digit c : Nat) : Int) := by
      rw [← Int.natCast_add]
      apply int32_eq_self <;> omega
    have hlt : result + p * digit c < p * 10 := by
      rw [show p * 10 = p + p * 9 by ring]
      exact Nat.add_lt_add_of_lt_of_le hresult hle
    rw [atoi.sum, hget, Option.bind_eq_bind, Option.bind_some, hterm, hbase, hsum, List.append_assoc]
    rw [List.singleton_append, hrest _ hlt, Numeral.value_append_singleton]
    apply congrArg (fun v : Nat => some (v : Int))
    ring

theorem Decimal.atoi (h : Decimal cs a) (hlength : cs.length ≤ 9) {c : BitVec 8} (hc : c.toNat < 48 ∨ 57 < c.toNat)
    : atoi (cs ++ c :: rest) c = some a := by
  have hsum := @sum_append cs (c :: rest) h.digits 0 0 (by omega) (by decide)
  rw [Tty.atoi, scan_append (h.not_mem hc) (by omega), Option.bind_eq_bind, Option.bind_some, if_neg (by omega)]
  rw [h.value] at hsum
  simpa using hsum

end Scan

/--
Two numbers of at most nine digits are decoded, whichever of them is left out.
-/
theorem atoiComma_decimal {as bs : List (BitVec 8)} {a b : Nat} (ha : Decimal as a) (hb : Decimal bs b)
    (has : as.length ≤ 9) (hbs : bs.length ≤ 9)
    : atoiComma (buffer as) = some ((a : Int), -1)
        ∧ atoiComma (buffer (as ++ 59 :: bs)) = some ((a : Int), (b : Int)) := by
  have hzeros (n : Nat) (hn : n < CMD_BUF_SZ)
      : List.replicate (CMD_BUF_SZ - n) (0 : BitVec 8) = 0 :: List.replicate (CMD_BUF_SZ - n - 1) 0 := by
    obtain ⟨k, hk⟩ := Nat.exists_eq_succ_of_ne_zero (Nat.sub_ne_zero_of_lt hn)
    rw [hk]
    rfl
  have hsemi : 59 ∉ as := ha.not_mem (by decide)
  have hsize : CMD_BUF_SZ = 32 := rfl
  constructor
  . have hnone : 59 ∉ buffer as := by
      rw [buffer, List.mem_append, not_or]
      refine ⟨hsemi, ?_⟩
      intro hmem
      exact absurd (List.eq_of_mem_replicate hmem) (by decide)
    have hlength : CMD_BUF_SZ ≤ (buffer as).length := by
      rw [buffer, List.length_append, List.length_replicate]
      omega
    rw [buffer, hzeros _ (by omega)] at hnone hlength ⊢
    have hterminator : (0 : BitVec 8).toNat < 48 ∨ 57 < (0 : BitVec 8).toNat := by decide
    simp only [atoiComma, find_of_not_mem hnone hlength, Option.bind_eq_bind, Option.bind_some,
      ha.atoi has hterminator]
    rfl
  . have hbuffer : buffer (as ++ 59 :: bs) = as ++ 59 :: (bs ++ 0 :: List.replicate (CMD_BUF_SZ
        - (as ++ 59 :: bs).length - 1) 0) := by
      rw [buffer, hzeros, List.append_assoc, List.cons_append]
      rw [List.length_append, List.length_cons]
      omega
    have hdrop (rest : List (BitVec 8)) : (as ++ 59 :: rest).drop (as.length + 1) = rest := by
      rw [List.drop_append]
      simp
    rw [hbuffer]
    simp only [atoiComma, find_append hsemi (show as.length < CMD_BUF_SZ by omega), Option.bind_eq_bind,
      Option.bind_some, hdrop,
      ha.atoi has (show (59 : BitVec 8).toNat < 48 ∨ 57 < (59 : BitVec 8).toNat by decide),
      hb.atoi hbs (show (0 : BitVec 8).toNat < 48 ∨ 57 < (0 : BitVec 8).toNat by decide)]
    rfl

theorem atoiComma_decimal_position
    : atoiComma (buffer [0x31, 0x32]) = some (12, -1)
        ∧ atoiComma (buffer [0x31, 0x32, 59, 0x37]) = some (12, 7) := by
  exact atoiComma_decimal (decimal_toDigits 12) (decimal_toDigits 7) (by decide) (by decide)

end Tty
end Osproj
