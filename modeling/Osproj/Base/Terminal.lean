import Mathlib.Algebra.GroupWithZero.Nat
import Mathlib.Data.List.Basic
import Mathlib.Logic.Function.Basic

/-!
This module contains a terminal that keeps every row that was ever written, and the window of its last
rows.
-/

namespace Osproj

structure Terminal (width : Nat) (α : Type) where
  above : List (Fin width → α)
  row : Fin width → α
  x : Fin width

namespace Terminal

variable {width : Nat} {α : Type} (blank : α) (t : Terminal width α) (height : Nat)

def rows : List (Fin width → α) := t.above ++ [t.row]

def clear [NeZero width] : Terminal width α := ⟨[], fun _ => blank, 0⟩

def newRow [NeZero width] : Terminal width α := ⟨t.rows, fun _ => blank, 0⟩

def overwrite (c : α) : Terminal width α := { t with row := Function.update t.row t.x c }

def write [NeZero width] (c : α) : Terminal width α :=
  if h : t.x.val + 1 < width then
    { t.overwrite c with x := ⟨t.x.val + 1, h⟩ }
  else
    (t.overwrite c).newRow blank

def carriageReturn [NeZero width] : Terminal width α := { t with x := 0 }

def top : Nat := t.rows.length - height

def window (i : Nat) : Fin width → α := t.rows[t.top height + i]?.getD fun _ => blank

def y : Nat := t.above.length - t.top height

variable {t height}

theorem length_rows : t.rows.length = t.above.length + 1 := by
  rw [rows, List.length_append, List.length_singleton]

theorem top_le (h : 0 < height) : t.top height ≤ t.above.length := by
  have hlen := @length_rows _ _ t
  unfold top
  omega

theorem y_lt (h : 0 < height) : t.y height < height := by
  have hlen := @length_rows _ _ t
  unfold y top
  omega

theorem getElem?_rows_append (i : Nat)
    : (t.rows ++ [fun _ => blank])[i]?.getD (fun _ => blank) = t.rows[i]?.getD fun _ => blank := by
  by_cases hi : i < t.rows.length
  . rw [List.getElem?_append_left hi]
  . rw [List.getElem?_append_right (by omega), List.getElem?_eq_none (show t.rows.length ≤ i by omega)]
    by_cases hzero : i - t.rows.length = 0
    . rw [hzero]
      rfl
    . rw [List.getElem?_eq_none (by rw [List.length_singleton]; omega)]

theorem above_newRow [NeZero width] : (t.newRow blank).above.length = t.above.length + 1 := by
  exact length_rows

theorem top_newRow_of_lt [NeZero width] (h : t.y height + 1 < height) : (t.newRow blank).top height = t.top height := by
  unfold y top at h
  unfold top
  rw [length_rows, above_newRow]
  rw [length_rows] at h ⊢
  omega

theorem top_newRow_of_eq [NeZero width] (h : t.y height + 1 = height)
    : (t.newRow blank).top height = t.top height + 1 := by
  unfold y top at h
  unfold top
  rw [length_rows, above_newRow]
  rw [length_rows] at h ⊢
  omega

theorem window_newRow_of_lt [NeZero width] (h : t.y height + 1 < height) (i : Nat)
    : (t.newRow blank).window blank height i = t.window blank height i := by
  rw [window, top_newRow_of_lt blank h]
  exact getElem?_rows_append blank _

theorem y_newRow_of_lt [NeZero width] (h : t.y height + 1 < height) : (t.newRow blank).y height = t.y height + 1 := by
  have htop_le := @top_le _ _ t height (by omega)
  rw [y, top_newRow_of_lt blank h, above_newRow, y]
  omega

theorem window_newRow_of_eq [NeZero width] (h : t.y height + 1 = height) (i : Nat)
    : (t.newRow blank).window blank height i = t.window blank height (i + 1) := by
  rw [window, top_newRow_of_eq blank h, Nat.add_assoc, Nat.add_comm 1]
  exact getElem?_rows_append blank _

theorem y_newRow_of_eq [NeZero width] (h : t.y height + 1 = height) : (t.newRow blank).y height = t.y height := by
  rw [y, top_newRow_of_eq blank h, above_newRow, y]
  omega

theorem window_of_le {i : Nat} (h : height ≤ i) : t.window blank height i = fun _ => blank := by
  have hlen := @length_rows _ _ t
  rw [window, List.getElem?_eq_none (by unfold top; omega)]
  rfl

theorem top_overwrite (c : α) : (t.overwrite c).top height = t.top height := by
  rw [top, top, length_rows, length_rows]
  rfl

theorem y_overwrite (c : α) : (t.overwrite c).y height = t.y height := by
  rw [y, y, top_overwrite]
  rfl

theorem window_overwrite (h : 0 < height) (c : α) (i : Nat) (j : Fin width)
    : (t.overwrite c).window blank height i j
        =
      if i = t.y height ∧ j = t.x then c else t.window blank height i j := by
  have hlen := @length_rows _ _ t
  have hlen' := @length_rows _ _ (t.overwrite c)
  have habove : (t.overwrite c).above.length = t.above.length := rfl
  have hy : t.y height = t.above.length - t.top height := rfl
  have htop_le := @top_le _ _ t height h
  rw [window, window, top_overwrite]
  rcases Nat.lt_trichotomy (t.top height + i) t.above.length with hlt | heq | hgt
  . rw [if_neg (by omega), rows, rows, List.getElem?_append_left (by omega),
      List.getElem?_append_left hlt]
    rfl
  . rw [heq, rows, rows, List.getElem?_append_right (by omega), List.getElem?_append_right (by omega), habove]
    simp only [overwrite, Nat.sub_self, List.getElem?_cons_zero, Option.getD_some, Function.update_apply]
    by_cases hj : j = t.x
    . rw [if_pos hj, if_pos ⟨by omega, hj⟩]
    . rw [if_neg hj, if_neg (fun h => hj h.2)]
  . rw [if_neg (by omega), List.getElem?_eq_none (by omega), List.getElem?_eq_none (by omega)]

end Terminal
end Osproj
