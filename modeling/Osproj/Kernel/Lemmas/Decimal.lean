import Osproj.Base.Numeral
import Osproj.Kernel.Lemmas.Printk

/-!
This module contains the decimal output of `printk`. `d` negates a negative number before it takes its digits, which
does not work for the least of them.
-/

namespace Osproj
namespace Printk

def ascii (c : Char) : BitVec 8 := BitVec.ofNat 8 c.toNat

def digitValue (c : BitVec 8) : Nat :=
  if c.toNat ≤ 57 then c.toNat - 48 else if c.toNat ≤ 70 then c.toNat - 55 else c.toNat - 87

def readNat (cs : List (BitVec 8)) : Nat := Numeral.value 10 digitValue cs

def readInt : List (BitVec 8) → Int
  | [] => 0
  | c :: cs => if c = 45 then -(readNat cs : Int) else readNat (c :: cs)

def decimalText (n : Int) : List (BitVec 8) := (toString n).toList.map ascii

theorem digitValue_digitChar {d : Nat} (hd : d < 10) : digitValue (ascii d.digitChar) = d := by
  revert d
  decide

theorem ascii_digitChar {d : Nat} (hd : d < 10) : ascii d.digitChar = BitVec.ofNat 8 (d + 48) := by
  revert d
  decide

section Text

variable {n : Nat}

theorem decimalText_ofNat (n : Nat) : decimalText n = (Nat.toDigits 10 n).map ascii := by
  rw [decimalText, show (toString (n : Int)) = n.repr from rfl, Nat.toList_repr]

theorem decimalText_neg (hn : n ≠ 0) : decimalText (-n) = 45 :: (Nat.toDigits 10 n).map ascii := by
  obtain ⟨m, rfl⟩ := Nat.exists_eq_succ_of_ne_zero hn
  rw [decimalText, show (toString (-(m.succ : Int))) = "-" ++ (m + 1).repr from rfl, String.toList_append,
    Nat.toList_repr]
  rfl

theorem decimalText_eq_digits (hn : n ≠ 0)
    : (Nat.toDigits 10 n).map ascii = ((Nat.digits 10 n).map fun d => BitVec.ofNat 8 (d + 48)).reverse := by
  rw [Numeral.toDigits_eq_digits (by decide) hn, List.map_map, ← List.map_reverse]
  apply List.map_congr_left
  intro d hd
  exact ascii_digitChar (Nat.digits_lt_base (by decide) (List.mem_reverse.mp hd))

theorem readNat_toDigits (n : Nat) : readNat ((Nat.toDigits 10 n).map ascii) = n := by
  exact Numeral.value_toDigits (by decide) (fun _ hd => digitValue_digitChar hd) n

theorem head_toDigits_ne (hn : n ≠ 0) (c : BitVec 8) (hc : c = 45 ∨ c = 48)
    : ((Nat.toDigits 10 n).map ascii).head? ≠ some c := by
  obtain ⟨d, hpos, hlt, hhead⟩ := Numeral.head_toDigits (show 1 < 10 by decide) hn
  rw [List.head?_map, hhead, Option.map_some, ascii_digitChar hlt, ne_eq, Option.some.injEq]
  intro heq
  have hd := congrArg BitVec.toNat heq
  rw [BitVec.toNat_ofNat, Nat.mod_eq_of_lt (by omega)] at hd
  rcases hc with rfl | rfl
  . change d + 48 = 45 at hd
    omega
  . change d + 48 = 48 at hd
    omega

theorem readInt_decimalText (n : Int) : readInt (decimalText n) = n := by
  obtain ⟨m, rfl | rfl⟩ := n.eq_nat_or_neg
  . by_cases hm : m = 0
    . subst hm
      decide
    . rw [decimalText_ofNat]
      have hhead := head_toDigits_ne hm 45 (Or.inl rfl)
      have hvalue := readNat_toDigits m
      generalize (Nat.toDigits 10 m).map ascii = cs at hhead hvalue ⊢
      cases cs with
      | nil =>
        rw [readInt, ← hvalue]
        rfl
      | cons c cs =>
        rw [readInt, if_neg (fun heq => hhead (by rw [heq]; rfl)), hvalue]
  . by_cases hm : m = 0
    . subst hm
      decide
    . rw [decimalText_neg hm, readInt, if_pos rfl, readNat_toDigits]

end Text

section Loop

variable {mod div : BitVec 32 → BitVec 32} {bound : Nat}

theorem decimal_eq (hmod : ∀ v, v.toNat < bound → mod v = BitVec.ofNat 32 (v.toNat % 10))
    (hdiv : ∀ v, v.toNat < bound → (div v).toNat = v.toNat / 10) {left : Nat} {val : BitVec 32}
    (buf : List (BitVec 8)) (hbound : val.toNat < bound) (hleft : val.toNat < 10 ^ left)
    : decimal mod div left val buf
        =
      some (buf ++ (Nat.digits 10 val.toNat).map fun d => BitVec.ofNat 8 (d + 48)) := by
  induction left generalizing val buf with
  | zero =>
    have hzero : val.toNat = 0 := by omega
    rw [decimal, if_pos (BitVec.eq_of_toNat_eq hzero), hzero]
    simp
  | succ left ih =>
    rw [decimal]
    split
    . next hzero =>
      subst hzero
      simp
    . next hne =>
      have hpos : 0 < val.toNat := Nat.pos_of_ne_zero (fun h => hne (BitVec.eq_of_toNat_eq h))
      have hchar : (mod val).setWidth 8 + 48 = BitVec.ofNat 8 (val.toNat % 10 + 48) := by
        rw [hmod val hbound]
        apply BitVec.eq_of_toNat_eq
        simp only [BitVec.toNat_add, BitVec.toNat_setWidth, BitVec.toNat_ofNat,
          show (48 : BitVec 8).toNat = 48 from rfl]
        omega
      have hdiv' := hdiv val hbound
      rw [ih _ (by omega) (by rw [hdiv']; omega), hdiv', hchar, Nat.digits_def' (by decide) hpos]
      simp

theorem toNat_ne_zero {val : BitVec 32} (hval : val ≠ 0) : val.toNat ≠ 0 := by
  intro hzero
  exact hval (BitVec.eq_of_toNat_eq hzero)

theorem umod_ten (v : BitVec 32) : v % 10 = BitVec.ofNat 32 (v.toNat % 10) := by
  have hlt := v.isLt
  apply BitVec.eq_of_toNat_eq
  rw [BitVec.toNat_umod, BitVec.toNat_ofNat]
  have hmod : v.toNat % 10 < 2 ^ 32 := by omega
  exact (Nat.mod_eq_of_lt hmod).symm

theorem unsigned_eq {val : BitVec 32} (hval : val ≠ 0)
    : decimal (· % 10) (· / 10) 10 val []
        =
      some ((Nat.toDigits 10 val.toNat).map ascii).reverse := by
  have hlt := val.isLt
  rw [@decimal_eq _ _ (2 ^ 32) _ _ 10 val [] hlt (by omega), List.nil_append,
    decimalText_eq_digits (toNat_ne_zero hval), List.reverse_reverse]
  . exact fun v _ => umod_ten v
  . intro v hv
    rw [BitVec.toNat_udiv]
    rfl

theorem signed_eq {val : BitVec 32} (hval : val ≠ 0) (hsign : val.toNat < 2 ^ 31)
    : decimal (·.srem 10) (·.sdiv 10) 10 val []
        =
      some ((Nat.toDigits 10 val.toNat).map ascii).reverse := by
  rw [@decimal_eq _ _ (2 ^ 31) _ _ 10 val [] hsign (by omega), List.nil_append,
    decimalText_eq_digits (toNat_ne_zero hval), List.reverse_reverse]
  . intro v hv
    have hmsb : v.msb = false := by
      rw [BitVec.msb_eq_false_iff_two_mul_lt]
      omega
    rw [BitVec.srem_eq, hmsb, show (10 : BitVec 32).msb = false from rfl]
    exact umod_ten v
  . intro v hv
    have hmsb : v.msb = false := by
      rw [BitVec.msb_eq_false_iff_two_mul_lt]
      omega
    rw [BitVec.sdiv_eq, hmsb, show (10 : BitVec 32).msb = false from rfl]
    exact BitVec.toNat_udiv

theorem u_eq (val : BitVec 32) : u val = some (decimalText val.toNat) := by
  rw [u]
  split
  . next hzero =>
    subst hzero
    decide
  . next hne =>
    rw [unsigned_eq hne, decimalText_ofNat]
    simp

theorem d_eq {val : BitVec 32} (hval : val ≠ BitVec.intMin 32) : d val = some (decimalText val.toInt) := by
  have hint := BitVec.toInt_eq_toNat_cond val
  have hlt := val.isLt
  unfold d
  dsimp only
  split
  . next hzero =>
    subst hzero
    decide
  . next hne =>
    have hpos := toNat_ne_zero hne
    split
    . next hneg =>
      have hnat : (-val).toNat = 2 ^ 32 - val.toNat := by
        rw [BitVec.toNat_neg, Nat.mod_eq_of_lt (by omega)]
      have hmin : val.toNat ≠ 2 ^ 31 := fun heq => hval (BitVec.eq_of_toNat_eq heq)
      have hlow : 2 ^ 31 ≤ val.toNat := by
        split at hint
        . omega
        . omega
      have hval' : val.toInt = -((-val).toNat : Int) := by
        rw [hnat, hint, if_neg (by omega)]
        omega
      rw [signed_eq (fun h => by rw [h] at hnat; simp at hnat; omega) (by omega), hval',
        decimalText_neg (by omega)]
      simp
    . next hneg =>
      have hlow : 2 * val.toNat < 2 ^ 32 := by
        split at hint
        . assumption
        . omega
      rw [signed_eq hne (by omega), hint, if_pos hlow, decimalText_ofNat]
      simp

end Loop

theorem d_intMin : d (BitVec.intMin 32) = some [45, 46, 47, 44, 41, 44, 40, 45, 42, 44, 40] := by
  decide +kernel

/--
The number `n` in the decimal system, without leading zeros.
-/
structure IsNumeral (cs : List (BitVec 8)) (n : Int) : Prop where
  canonical : ∃ ds, cs = (if n < 0 then [45] else []) ++ ds ∧ ds ≠ []
    ∧ (∀ c ∈ ds, 48 ≤ c.toNat ∧ c.toNat ≤ 57) ∧ (ds.head? = some 48 → ds = [48])
  read : readInt cs = n

theorem isDigit_of_mem {n : Nat} {c : BitVec 8} (hc : c ∈ (Nat.toDigits 10 n).map ascii)
    : 48 ≤ c.toNat ∧ c.toNat ≤ 57 := by
  obtain ⟨a, ha, rfl⟩ := List.mem_map.mp hc
  have hdigit := Nat.isDigit_of_mem_toDigits (by decide) (by decide) ha
  have hrange : 48 ≤ a.toNat ∧ a.toNat ≤ 57 := by
    simp only [Char.isDigit, Bool.and_eq_true, decide_eq_true_eq, ge_iff_le, UInt32.le_iff_toNat_le] at hdigit
    exact hdigit
  rw [ascii, BitVec.toNat_ofNat, Nat.mod_eq_of_lt (by omega)]
  exact hrange

theorem isNumeral_decimalText (n : Int) : IsNumeral (decimalText n) n := by
  refine ⟨?_, readInt_decimalText n⟩
  have hdigits {m : Nat} (hm : m ≠ 0)
      : (Nat.toDigits 10 m).map ascii ≠ []
        ∧ (∀ c ∈ (Nat.toDigits 10 m).map ascii, 48 ≤ c.toNat ∧ c.toNat ≤ 57)
        ∧ (((Nat.toDigits 10 m).map ascii).head? = some 48 → (Nat.toDigits 10 m).map ascii = [48]) := by
    refine ⟨?_, fun c hc => isDigit_of_mem hc, fun h => absurd h (head_toDigits_ne hm 48 (Or.inr rfl))⟩
    intro hnil
    exact Nat.toDigits_ne_nil (List.map_eq_nil_iff.mp hnil)
  obtain ⟨m, rfl | rfl⟩ := n.eq_nat_or_neg
  . rw [if_neg (by omega), decimalText_ofNat]
    by_cases hm : m = 0
    . subst hm
      exact ⟨[48], by decide⟩
    . exact ⟨_, rfl, hdigits hm⟩
  . by_cases hm : m = 0
    . subst hm
      exact ⟨[48], by decide⟩
    . rw [if_pos (by omega), decimalText_neg hm]
      exact ⟨_, rfl, hdigits hm⟩

/--
The conversion `c` of the argument `v` prints the numeral of `n`.
-/
def PrintsNumeral (c : BitVec 8) (v : BitVec 32) (n : Int) : Prop :=
  ∃ cs, IsNumeral cs n
    ∧ ∀ fmt args, printk (0x25 :: c :: fmt) (.int v :: args) = putchars cs (printk fmt args)

theorem printsNumeral_of_eq {c : BitVec 8} {v : BitVec 32} {n : Int} {print : BitVec 32 → Option (List (BitVec 8))}
    (hc : conversion c = .number print) (hprint : print v = some (decimalText n))
    : PrintsNumeral c v n := by
  refine ⟨decimalText n, isNumeral_decimalText n, ?_⟩
  intro fmt args
  rw [printk_number hc, hprint]
  rfl

theorem not_printsNumeral_intMin : ¬ PrintsNumeral 0x64 (BitVec.intMin 32) (BitVec.intMin 32).toInt := by
  rintro ⟨cs, ⟨⟨ds, hcs, -, hdigits, -⟩, -⟩, hprint⟩
  have hout := hprint [0] []
  rw [@printk_number _ _ _ _ d rfl, d_intMin] at hout
  simp only [Option.bind_some, putchars, printk_nul, Option.map_some, Option.some.injEq, Prod.mk.injEq,
    List.append_nil, and_true] at hout
  rw [hcs, if_pos (by decide), List.singleton_append, List.cons.injEq] at hout
  have := hdigits 46 (by rw [← hout.2]; decide)
  exact absurd this (by decide)

/--
The decimal conversions of the argument `v`; a store behind one of the buffers would be a `none`.
-/
structure RoundTrips (v : BitVec 32) : Prop where
  d : PrintsNumeral 0x64 v v.toInt
  i : PrintsNumeral 0x69 v v.toInt
  u : PrintsNumeral 0x75 v v.toNat
  d_buf : Printk.d v ≠ none
  u_buf : Printk.u v ≠ none

theorem d_ne_none (v : BitVec 32) : d v ≠ none := by
  by_cases hv : v = BitVec.intMin 32
  . rw [hv, d_intMin]
    simp
  . rw [d_eq hv]
    simp

theorem u_ne_none (v : BitVec 32) : u v ≠ none := by
  rw [u_eq]
  simp

theorem roundTrips_iff (v : BitVec 32) : RoundTrips v ↔ v ≠ BitVec.intMin 32 := by
  constructor
  . rintro ⟨hd, -, -, -, -⟩ rfl
    exact not_printsNumeral_intMin hd
  . intro hv
    constructor
    . exact printsNumeral_of_eq rfl (d_eq hv)
    . exact printsNumeral_of_eq rfl (d_eq hv)
    . exact printsNumeral_of_eq rfl (u_eq v)
    . exact d_ne_none v
    . exact u_ne_none v

/--
The least number is printed as `-./,),(-*,(`.
-/
theorem not_roundTrips : ¬ RoundTrips (BitVec.intMin 32) := by
  intro h
  exact not_printsNumeral_intMin h.d

end Printk
end Osproj
