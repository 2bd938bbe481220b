import Osproj.Kernel.Impl.Printk

/-!
This module contains the steps of `printk`, one for each kind of conversion.
-/

namespace Osproj
namespace Printk

variable {fmt : List (BitVec 8)} {args : List Arg} {c : BitVec 8} {v : BitVec 32}

@[simp]
theorem printk_nil : printk [] args = none := by
  rw [printk.eq_def]

@[simp]
theorem printk_nul : printk (0 :: fmt) args = some ([], args) := by
  rw [printk.eq_def]
  exact if_pos rfl

theorem printk_literal (hnul : c ≠ 0) (hpercent : c ≠ 0x25)
    : printk (c :: fmt) args = putchars [c] (printk fmt args) := by
  rw [printk.eq_def]
  dsimp only
  rw [if_neg hnul, if_neg hpercent]

theorem printk_number {print : BitVec 32 → Option (List (BitVec 8))} (hc : conversion c = .number print)
    : printk (0x25 :: c :: fmt) (.int v :: args)
        =
      (print v).bind fun out => putchars out (printk fmt args) := by
  rw [printk.eq_def]
  simp only [hc]
  exact if_neg (by decide)

theorem printk_string {s : CString} {junk : List Arg} (hc : conversion c = .string)
    : printk (0x25 :: c :: fmt) (.str s junk :: args)
        =
      (printk s.bytes junk).bind fun out => putchars out.1 (printk fmt args) := by
  rw [printk.eq_def]
  simp only [hc]
  exact if_neg (by decide)

theorem printk_hex_width {w : BitVec 8} (hc : conversion c = .hex) (hw : IS_NUM w)
    : printk (0x25 :: c :: w :: fmt) (.int v :: args) = putchars (x v (w - 48).toNat) (printk fmt args) := by
  rw [printk.eq_def]
  simp only [hc, if_pos hw]
  exact if_neg (by decide)

theorem printk_hex {w : BitVec 8} (hc : conversion c = .hex) (hw : ¬ IS_NUM w)
    : printk (0x25 :: c :: w :: fmt) (.int v :: args) = putchars (x v 0) (printk (w :: fmt) args) := by
  rw [printk.eq_def]
  simp only [hc, if_neg hw]
  exact if_neg (by decide)

theorem printk_percent (hc : conversion c = .percent)
    : printk (0x25 :: c :: fmt) args = putchars [0x25] (printk fmt args) := by
  rw [printk.eq_def]
  simp only [hc]
  exact if_neg (by decide)

theorem printk_unknown (hc : conversion c = .unknown)
    : printk (0x25 :: c :: fmt) args = putchars [c] (printk fmt args) := by
  rw [printk.eq_def]
  simp only [hc]
  exact if_neg (by decide)

end Printk
end Osproj
