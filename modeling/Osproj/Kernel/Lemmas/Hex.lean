import Osproj.Kernel.Lemmas.Decimal

/-!
This module contains the hexadecimal output of `printk`. `x` and `X` shift the number to the left, once to count its
digits and once to print them, and look at the topmost digit each time.
-/

namespace Osproj
namespace Printk

def nibble (v : BitVec 32) (i : Nat) : Nat := v.toNat / 16 ^ (7 - i) % 16

def hexText (v : BitVec 32) : List (BitVec 8) := (Nat.toDigits 16 v.toNat).map ascii

def upperText (v : BitVec 32) : List (BitVec 8) := (Nat.toDigits 16 v.toNat).map fun c => ascii c.toUpper

def readHex (cs : List (BitVec 8)) : Nat := Numeral.value 16 digitValue cs

variable {v : BitVec 32} {put : BitVec 8 → List (BitVec 8)}

theorem nibble_lt (v : BitVec 32) (i : Nat) : nibble v i < 16 := Nat.mod_lt _ (by decide)

section Shift

theorem shiftLeft_succ (v : BitVec 32) (i : Nat) : v <<< (4 * i) <<< 4 = v <<< (4 * (i + 1)) := by
  rw [← BitVec.shiftLeft_add]
  rfl

theorem and_ushiftRight (val : BitVec 32) : (val &&& 0xF0000000) >>> 28 = val >>> 28 := by
  apply BitVec.eq_of_getLsbD_eq
  intro i hi
  have hmask : (0xF0000000 : BitVec 32).getLsbD (28 + i) = decide (i < 4) := by
    revert i
    decide
  rw [BitVec.getLsbD_ushiftRight, BitVec.getLsbD_and, hmask, BitVec.getLsbD_ushiftRight]
  by_cases hlt : i < 4
  . simp [hlt]
  . rw [BitVec.getLsbD_of_ge val _ (by omega), Bool.false_and]

theorem topDigit_shiftLeft (v : BitVec 32) {i : Nat} (hi : i < 8)
    : topDigit (v <<< (4 * i)) = BitVec.ofNat 8 (nibble v i) := by
  have hlt := v.isLt
  apply BitVec.eq_of_toNat_eq
  rw [topDigit, and_ushiftRight, nibble, BitVec.toNat_setWidth, BitVec.toNat_ushiftRight, BitVec.toNat_shiftLeft,
    BitVec.toNat_ofNat, Nat.shiftLeft_eq, Nat.shiftRight_eq_div_pow]
  interval_cases i <;> omega

theorem topDigit_eq_zero_iff (v : BitVec 32) {i : Nat} (hi : i < 8)
    : topDigit (v <<< (4 * i)) = 0 ↔ nibble v i = 0 := by
  have hlt := nibble_lt v i
  rw [topDigit_shiftLeft v hi, ← BitVec.toNat_inj, BitVec.toNat_ofNat, Nat.mod_eq_of_lt (by omega)]
  rfl

end Shift

section Scan

/--
The state of the first loop of `x` after it has looked at `m` digits.
-/
structure Scanned (v : BitVec 32) (m : Nat) (s : HexScan) : Prop where
  val_eq : s.val = v <<< (4 * m)
  found : (s.first = 0 ∧ s.digcount = 0 ∧ s.startdig = 0 ∧ ∀ i < m, nibble v i = 0)
    ∨ (s.first = 1 ∧ s.startdig < m ∧ s.digcount = m - s.startdig ∧ nibble v s.startdig ≠ 0
      ∧ ∀ i < s.startdig, nibble v i = 0)

theorem Scanned.step {m : Nat} {s : HexScan} (h : Scanned v m s) (hm : m < 8) : Scanned v (m + 1) (hex.scan s m) := by
  obtain ⟨hval, hfound⟩ := h
  have htop : topDigit s.val = 0 ↔ nibble v m = 0 := by
    rw [hval]
    exact topDigit_eq_zero_iff v hm
  unfold hex.scan
  rcases hfound with ⟨hfirst, hcount, hstart, hzero⟩ | ⟨hfirst, hstart, hcount, hdigit, hzero⟩
  . by_cases hnibble : nibble v m = 0
    . rw [if_neg (fun h => h.1 (htop.mpr hnibble))]
      dsimp only
      rw [if_neg (by omega)]
      refine ⟨by rw [hval]; exact shiftLeft_succ v m, Or.inl ⟨hfirst, hcount, hstart, ?_⟩⟩
      intro i hi
      rcases Nat.lt_succ_iff_lt_or_eq.mp hi with hi | rfl
      . exact hzero i hi
      . exact hnibble
    . rw [if_pos ⟨fun h => hnibble (htop.mp h), hfirst⟩]
      dsimp only
      rw [if_pos rfl]
      refine ⟨by dsimp only; rw [hval]; exact shiftLeft_succ v m, Or.inr ⟨rfl, by simp, ?_, hnibble, hzero⟩⟩
      dsimp only
      omega
  . rw [if_neg (fun h => absurd (hfirst.symm.trans h.2) (by decide))]
    dsimp only
    rw [if_pos hfirst]
    refine ⟨by dsimp only; rw [hval]; exact shiftLeft_succ v m, Or.inr ⟨hfirst, ?_, ?_, hdigit, hzero⟩⟩
    . exact Nat.lt_succ_of_lt hstart
    . dsimp only
      omega

theorem Scanned.run (v : BitVec 32) {m : Nat} (hm : m ≤ 8)
    : Scanned v m ((List.range m).foldl hex.scan { first := 0, digcount := 0, startdig := 0, val := v }) := by
  induction m with
  | zero =>
    refine ⟨?_, Or.inl ⟨rfl, rfl, rfl, by simp⟩⟩
    simp
  | succ m ih =>
    rw [List.range_succ, List.foldl_append]
    exact (ih (by omega)).step (by omega)

theorem lt_of_nibbles {s : Nat} (hs : s ≤ 8) (hzero : ∀ i < s, nibble v i = 0) : v.toNat < 16 ^ (8 - s) := by
  induction s with
  | zero => exact v.isLt
  | succ s ih =>
    have hlt := ih (by omega) (fun i hi => hzero i (by omega))
    have hdigit := hzero s (by omega)
    rw [nibble] at hdigit
    rw [show 8 - s = 7 - s + 1 by omega, Nat.pow_succ, Nat.mul_comm] at hlt
    rw [show 8 - (s + 1) = 7 - s by omega]
    have hdiv := Nat.div_lt_of_lt_mul (Nat.mul_comm 16 (16 ^ (7 - s)) ▸ hlt)
    rw [Nat.mod_eq_of_lt hdiv] at hdigit
    exact (Nat.div_eq_zero_iff_lt (by positivity)).mp hdigit

theorem length_digits_of_start {s : Nat} (hs : s < 8) (hdigit : nibble v s ≠ 0) (hzero : ∀ i < s, nibble v i = 0)
    : (Nat.digits 16 v.toNat).length = 8 - s := by
  have hlt := lt_of_nibbles (Nat.le_of_lt hs) hzero
  have hle := (Nat.digits_length_le_iff (by decide) v.toNat).mpr hlt
  have hge : 7 - s < (Nat.digits 16 v.toNat).length := by
    rw [Nat.lt_digits_length_iff (by decide)]
    by_contra hsmall
    rw [nibble, Nat.div_eq_of_lt (by omega)] at hdigit
    exact hdigit rfl
  omega

theorem scan_spec (hv : v ≠ 0)
    : let s := (List.range 8).foldl hex.scan { first := 0, digcount := 0, startdig := 0, val := v }
      s.startdig < 8 ∧ s.digcount = 8 - s.startdig ∧ (Nat.digits 16 v.toNat).length = 8 - s.startdig
        ∧ ∀ i < s.startdig, nibble v i = 0 := by
  obtain ⟨-, ⟨-, -, -, hzero⟩ | ⟨-, hstart, hcount, hdigit, hzero⟩⟩ := Scanned.run v (Nat.le_refl 8)
  . have hlt := lt_of_nibbles (Nat.le_refl 8) hzero
    exact absurd (BitVec.eq_of_toNat_eq (Nat.lt_one_iff.mp hlt)) hv
  . exact ⟨hstart, hcount, length_digits_of_start hstart hdigit hzero, hzero⟩

end Scan

section Print

theorem zeros_eq {z : BitVec 8} (hput : put 0 = [z]) (k : Nat) : hex.zeros put k = List.replicate k z := by
  induction k with
  | zero => rfl
  | succ k ih => rw [hex.zeros, ih, hput, List.replicate_succ, List.singleton_append]

theorem digits_eq (v : BitVec 32) (start : Nat) {k n : Nat} (hk : k + n ≤ 8)
    : hex.digits put start (List.range' k n) (v <<< (4 * k))
        =
      (List.range' k n).flatMap fun i => if i ≥ start then put (BitVec.ofNat 8 (nibble v i)) else [] := by
  induction n generalizing k with
  | zero => rfl
  | succ n ih =>
    have hand : ∀ d < 16, BitVec.ofNat 8 d &&& 0xF = BitVec.ofNat 8 d := by decide
    rw [List.range'_succ, hex.digits, shiftLeft_succ, ih (by omega), topDigit_shiftLeft v (by omega),
      hand _ (nibble_lt v k), List.flatMap_cons]

theorem p_loop_eq (v : BitVec 32) {k n : Nat} (hk : k + n ≤ 8)
    : p.loop n (v <<< (4 * k)) = (List.range' k n).flatMap fun i => puthex (BitVec.ofNat 8 (nibble v i)) := by
  induction n generalizing k with
  | zero => rfl
  | succ n ih =>
    rw [List.range'_succ, p.loop, shiftLeft_succ, ih (by omega), topDigit_shiftLeft v (by omega), List.flatMap_cons]

theorem range_split {s : Nat} (hs : s ≤ 8) : List.range 8 = List.range s ++ (List.range (8 - s)).map (s + ·) := by
  rw [← List.range_add, Nat.add_sub_cancel' hs]

variable {f : Char → BitVec 8}

theorem flatMap_digits (hput : ∀ d < 16, put (BitVec.ofNat 8 d) = [f d.digitChar]) (hv : v ≠ 0) {s : Nat}
    (hlength : (Nat.digits 16 v.toNat).length = 8 - s)
    : ((List.range (8 - s)).map (s + ·)).flatMap (fun i => put (BitVec.ofNat 8 (nibble v i)))
        =
      (Nat.toDigits 16 v.toNat).map f := by
  rw [Numeral.toDigits_eq_digits (by decide) (toNat_ne_zero hv), Numeral.reverse_digits (by decide) hlength,
    List.flatMap_map, List.map_map, List.map_map, List.map_eq_flatMap]
  apply List.flatMap_congr
  intro i hi
  rw [hput _ (nibble_lt v _), nibble, show 7 - (s + i) = 8 - s - 1 - i by omega]
  rfl

theorem hex_eq (hput : ∀ d < 16, put (BitVec.ofNat 8 d) = [f d.digitChar]) (v : BitVec 32) (padding : Nat)
    : hex put v padding = ((Nat.toDigits 16 v.toNat).map f).leftpad padding (f '0') := by
  have hzero : put 0 = [f '0'] := hput 0 (by decide)
  unfold hex
  split
  . next hv =>
    subst hv
    rw [show (0 : BitVec 32).toNat = 0 from rfl, Nat.toDigits_zero]
    split
    . next hpad =>
      subst hpad
      exact hzero
    . next hpad =>
      obtain ⟨k, rfl⟩ := Nat.exists_eq_succ_of_ne_zero hpad
      rw [zeros_eq hzero, List.replicate_succ', List.leftpad]
      rfl
  . next hv =>
    obtain ⟨hstart, hcount, hlength, -⟩ := scan_spec hv
    dsimp only
    generalize (List.range 8).foldl hex.scan { first := 0, digcount := 0, startdig := 0, val := v } = s at *
    have hdigits := @digits_eq put v s.startdig 0 8 (by decide)
    rw [← List.range_eq_range', Nat.mul_zero, BitVec.shiftLeft_zero] at hdigits
    have hskip : (List.range s.startdig).flatMap
        (fun i => if i ≥ s.startdig then put (BitVec.ofNat 8 (nibble v i)) else []) = [] := by
      rw [List.flatMap_eq_nil_iff]
      intro i hi
      exact if_neg (Nat.not_le.mpr (List.mem_range.mp hi))
    have htext : ((List.range (8 - s.startdig)).map (s.startdig + ·)).flatMap
        (fun i => if i ≥ s.startdig then put (BitVec.ofNat 8 (nibble v i)) else [])
          = (Nat.toDigits 16 v.toNat).map f := by
      rw [← flatMap_digits hput hv hlength]
      apply List.flatMap_congr
      intro i hi
      obtain ⟨j, -, rfl⟩ := List.mem_map.mp hi
      exact if_pos (Nat.le_add_right _ j)
    have hwidth : ((Nat.toDigits 16 v.toNat).map f).length = s.digcount := by
      rw [Numeral.toDigits_eq_digits (by decide) (toNat_ne_zero hv), List.length_map, List.length_map,
        List.length_reverse, hlength, hcount]
    rw [hdigits, range_split (Nat.le_of_lt hstart), List.flatMap_append, hskip, htext, List.leftpad, hwidth]
    split
    . rw [zeros_eq hzero, List.nil_append]
    . rw [show padding - s.digcount = 0 by omega]
      rfl

theorem puthex_eq : ∀ d < 16, puthex (BitVec.ofNat 8 d) = [ascii d.digitChar] := by
  decide

theorem putheX_eq : ∀ d < 16, putheX (BitVec.ofNat 8 d) = [ascii d.digitChar.toUpper] := by
  decide

theorem length_toDigits (n : Nat) : (Nat.toDigits 16 n).length = max (Nat.digits 16 n).length 1 := by
  by_cases hn : n = 0
  . subst hn
    decide
  . have hpos : 0 < (Nat.digits 16 n).length := List.length_pos_iff.mpr (Nat.digits_ne_nil_iff_ne_zero.mpr hn)
    rw [Numeral.toDigits_eq_digits (by decide) hn, List.length_map, List.length_reverse, Nat.max_eq_left hpos]

theorem p_eq (v : BitVec 32)
    : p v = (hexText v).leftpad 8 48 := by
  by_cases hv : v = 0
  . subst hv
    decide
  . obtain ⟨hstart, -, hlength, hzero⟩ := scan_spec hv
    generalize (List.range 8).foldl hex.scan { first := 0, digcount := 0, startdig := 0, val := v } = s at *
    have hloop := @p_loop_eq v 0 8 (by decide)
    rw [← List.range_eq_range', Nat.mul_zero, BitVec.shiftLeft_zero] at hloop
    have hzeros : (List.range s.startdig).flatMap (fun i => puthex (BitVec.ofNat 8 (nibble v i)))
        = List.replicate s.startdig 48 := by
      rw [← @List.length_range s.startdig, ← List.map_const', List.length_range, List.map_eq_flatMap]
      apply List.flatMap_congr
      intro i hi
      rw [hzero i (List.mem_range.mp hi)]
      rfl
    have hwidth : (hexText v).length = 8 - s.startdig := by
      rw [hexText, Numeral.toDigits_eq_digits (by decide) (toNat_ne_zero hv), List.length_map, List.length_map,
        List.length_reverse, hlength]
    rw [p, hloop, range_split (Nat.le_of_lt hstart), List.flatMap_append, hzeros,
      flatMap_digits puthex_eq hv hlength, List.leftpad, hwidth, show 8 - (8 - s.startdig) = s.startdig by omega]
    rfl

end Print

theorem readHex_leftpad (k : Nat) (cs : List (BitVec 8)) : readHex (cs.leftpad k 48) = readHex cs := by
  exact Numeral.value_replicate_append (show digitValue 48 = 0 from rfl) _

/--
The hexadecimal conversions of the argument `v`, with the width `k` of an `x`.
-/
structure HexRoundTrips (v : BitVec 32) (k : Fin 10) : Prop where
  x (fmt : List (BitVec 8)) (args : List Arg)
    : printk (0x25 :: 0x78 :: BitVec.ofNat 8 (48 + k) :: fmt) (.int v :: args)
        =
      putchars ((hexText v).leftpad k 48) (printk fmt args)
  x_length : ((hexText v).leftpad k 48).length = max k.val (max (Nat.digits 16 v.toNat).length 1)
  x_read : readHex ((hexText v).leftpad k 48) = v.toNat
  X (fmt : List (BitVec 8)) (args : List Arg)
    : printk (0x25 :: 0x58 :: fmt) (.int v :: args) = putchars (upperText v) (printk fmt args)
  X_read : readHex (upperText v) = v.toNat
  p (fmt : List (BitVec 8)) (args : List Arg)
    : printk (0x25 :: 0x70 :: fmt) (.int v :: args) = putchars ((hexText v).leftpad 8 48) (printk fmt args)
  p_length : ((hexText v).leftpad 8 48).length = 8
  p_read : readHex ((hexText v).leftpad 8 48) = v.toNat

end Printk
end Osproj
