import Mathlib.Tactic.Tauto
import Osproj.Base.SearchTree
import Osproj.Lib.Impl.Bst

/-!
This module contains the trees behind the rotations. `balance` turns the tree below a node into a
balanced one, but leaves the slot of the node as it is: what stays linked there is the old root with
the part of its high child that the rotation puts below it.
-/

namespace Osproj
namespace LinkedTree

open BinaryTree SearchTree

variable {α κ : Type} [LinearOrder κ]

def part (side : Side) (t : BinaryTree α) : BinaryTree α :=
  match side with
  | .child1 => t.left
  | .child2 => t.right

def join (side : Side) (a : α) (t u : BinaryTree α) : BinaryTree α :=
  match side with
  | .child1 => node a t u
  | .child2 => node a u t

@[simp]
theorem part_join (side : Side) (a : α) (t u : BinaryTree α) : part side (join side a t u) = t := by
  cases side <;> rfl

@[simp]
theorem part_other_join (side : Side) (a : α) (t u : BinaryTree α)
    : part side.other (join side a t u) = u := by
  cases side <;> rfl

@[simp]
theorem join_other (side : Side) (a : α) (t u : BinaryTree α)
    : join side.other a t u = join side a u t := by
  cases side <;> rfl

@[simp]
theorem other_other (side : Side) : side.other.other = side := by
  cases side <;> rfl

theorem eq_join (side : Side) (a : α) (l r : BinaryTree α)
    : node a l r = join side a (part side (node a l r)) (part side.other (node a l r)) := by
  cases side <;> rfl

theorem height_join (side : Side) (a : α) (t u : BinaryTree α)
    : (join side a t u).height = max t.height u.height + 1 := by
  cases side
  . rfl
  . simp only [join, height, Nat.max_comm]

theorem balanced_join (side : Side) (a : α) (t u : BinaryTree α)
    : SearchTree.Balanced (join side a t u)
        ↔
      t.height ≤ u.height + 1 ∧ u.height ≤ t.height + 1 ∧ SearchTree.Balanced t ∧ SearchTree.Balanced u := by
  cases side
  . rfl
  . simp only [join, SearchTree.Balanced]
    tauto

theorem mem_toList_join (side : Side) (a x : α) (t u : BinaryTree α)
    : x ∈ toList (join side a t u) ↔ x ∈ toList t ∨ x = a ∨ x ∈ toList u := by
  cases side
  . simp only [join, toList, List.mem_append, List.mem_cons]
  . simp only [join, toList, List.mem_append, List.mem_cons]
    tauto

theorem toList_join_perm (side : Side) (a : α) (t u : BinaryTree α)
    : (toList (join side a t u)).Perm (a :: (toList t ++ toList u)) := by
  cases side
  . exact List.perm_middle
  . exact List.perm_middle.trans (.cons a List.perm_append_comm)

def lifted (side : Side) (a : α) (t u : BinaryTree α) : BinaryTree α :=
  match t with
  | nil => join side a nil u
  | t@(node x _ _) =>
    let outer := part side t
    let inner := part side.other t
    if outer.height < inner.height then
      match inner with
      | nil => join side x outer (join side a nil u)
      | inner@(node z _ _) =>
        join side z (join side x outer (part side inner)) (join side a (part side.other inner) u)
    else
      join side x outer (join side a inner u)

def kept (side : Side) (t : BinaryTree α) : BinaryTree α :=
  let inner := part side.other t
  if (part side t).height < inner.height then part side.other inner else inner

def rotated (a : α) (l r : BinaryTree α) : BinaryTree α :=
  if r.height + 1 < l.height then lifted .child1 a l r
  else if l.height + 1 < r.height then lifted .child2 a r l
  else node a l r

def remaining (a : α) (l r : BinaryTree α) : BinaryTree α :=
  if r.height + 1 < l.height then node a (kept .child1 l) r
  else if l.height + 1 < r.height then node a l (kept .child2 r)
  else node a l r

def rotatedAt (side : Side) (a : α) (t u : BinaryTree α) : BinaryTree α :=
  match side with
  | .child1 => rotated a t u
  | .child2 => rotated a u t

def remainingAt (side : Side) (a : α) (t u : BinaryTree α) : BinaryTree α :=
  match side with
  | .child1 => remaining a t u
  | .child2 => remaining a u t

def insertLinked (key : α → κ) (b : α) : BinaryTree α → BinaryTree α
  | nil => node b nil nil
  | node a l r =>
    if key b < key a then remaining a (insertLinked key b l) r
    else if key a < key b then remaining a l (insertLinked key b r)
    else node a l r

theorem exists_join (side : Side) {t : BinaryTree α} (h : t ≠ nil)
    : ∃ a t₁ t₂, t = join side a t₁ t₂ := by
  cases t with
  | nil => exact absurd rfl h
  | node a l r => exact ⟨a, _, _, eq_join side a l r⟩

section Lifted

variable {side : Side} {a x z : α} {outer inner c d u : BinaryTree α}

theorem kept_of_outer (h : ¬ outer.height < inner.height)
    : kept side (join side x outer inner) = inner := by
  simp only [kept, part_join, part_other_join, if_neg h]

theorem kept_of_inner (h : outer.height < (join side z c d).height)
    : kept side (join side x outer (join side z c d)) = d := by
  simp only [kept, part_join, part_other_join, if_pos h]

theorem lifted_of_outer (h : ¬ outer.height < inner.height)
    : lifted side a (join side x outer inner) u = join side x outer (join side a inner u) := by
  cases side with
  | child1 =>
    change (if outer.height < inner.height then _ else _) = _
    rw [if_neg h]
    rfl
  | child2 =>
    change (if outer.height < inner.height then _ else _) = _
    rw [if_neg h]
    rfl

theorem lifted_of_inner (h : outer.height < (join side z c d).height)
    : lifted side a (join side x outer (join side z c d)) u
        =
      join side z (join side x outer c) (join side a d u) := by
  cases side with
  | child1 =>
    change (if outer.height < (join .child1 z c d).height then _ else _) = _
    rw [if_pos h]
    rfl
  | child2 =>
    change (if outer.height < (join .child2 z c d).height then _ else _) = _
    rw [if_pos h]
    rfl

end Lifted

theorem remainingAt_eq (side : Side) (a : α) (t u : BinaryTree α)
    : remainingAt side a t u
        =
      if u.height + 1 < t.height then join side a (kept side t) u
      else if t.height + 1 < u.height then join side a t (kept side.other u)
      else join side a t u := by
  cases side with
  | child1 => rfl
  | child2 =>
    change remaining a u t
      = if u.height + 1 < t.height then node a u (kept .child2 t)
        else if t.height + 1 < u.height then node a (kept .child1 u) t
        else node a u t
    unfold remaining
    by_cases hu : t.height + 1 < u.height
    . rw [if_pos hu, if_neg (by omega), if_pos hu]
    . rw [if_neg hu, if_neg hu]

theorem part_sublist (side : Side) (t : BinaryTree α) : (toList (part side t)).Sublist (toList t) := by
  cases t with
  | nil => cases side <;> exact .slnil
  | node a l r =>
    cases side
    . exact List.sublist_append_left _ _
    . exact (List.sublist_cons_self a _).trans (List.sublist_append_right _ _)

theorem kept_sublist (side : Side) (t : BinaryTree α) : (toList (kept side t)).Sublist (toList t) := by
  unfold kept
  dsimp only
  split
  . exact (part_sublist _ _).trans (part_sublist _ _)
  . exact part_sublist _ _

theorem height_kept_lt (side : Side) {t : BinaryTree α} (h : t ≠ nil)
    : (kept side t).height < t.height := by
  have hpart (side : Side) (t : BinaryTree α) : (part side t).height ≤ t.height := by
    cases t with
    | nil => cases side <;> rfl
    | node a l r => cases side <;> simp only [part, left, right, height] <;> omega
  have hchild : (part side.other t).height < t.height := by
    cases t with
    | nil => exact absurd rfl h
    | node a l r => cases side <;> simp only [Side.other, part, left, right, height] <;> omega
  unfold kept
  dsimp only
  split
  . exact Nat.lt_of_le_of_lt (hpart _ _) hchild
  . exact hchild

theorem remaining_sublist (a : α) (l r : BinaryTree α)
    : (toList (remaining a l r)).Sublist (toList (node a l r)) := by
  unfold remaining
  split
  . exact (kept_sublist _ l).append (.refl _)
  . split
    . exact (List.Sublist.refl _).append ((kept_sublist _ r).cons_cons a)
    . exact .refl _

variable {key : α → κ}

theorem insertLinked_sublist (b : α) (t : BinaryTree α)
    : (toList (insertLinked key b t)).Sublist (toList (SearchTree.insert key b t)) := by
  induction t with
  | nil => exact .refl _
  | node a l r ihl ihr =>
    simp only [insertLinked, SearchTree.insert]
    split
    . exact (remaining_sublist _ _ _).trans (ihl.append (.refl _))
    . split
      . exact (remaining_sublist _ _ _).trans ((List.Sublist.refl _).append (ihr.cons_cons a))
      . exact .refl _

theorem insertLinked_subperm (b : α) (t : BinaryTree α)
    : (toList (insertLinked key b t)).Subperm (b :: toList t) :=
  (insertLinked_sublist b t).subperm.trans (toList_insert_subperm b t)

theorem sorted_insertLinked (b : α) {t : BinaryTree α} (h : Sorted key t)
    : Sorted key (insertLinked key b t) :=
  List.Pairwise.sublist (insertLinked_sublist b t) (sorted_insert b h)

theorem remaining_of_balanced {a : α} {l r : BinaryTree α} (h : l.height ≤ r.height + 1)
    (h' : r.height ≤ l.height + 1)
    : remaining a l r = node a l r := by
  unfold remaining
  rw [if_neg (by omega), if_neg (by omega)]

theorem insertLinked_eq_insert {b : α} {t : BinaryTree α}
    (h : SearchTree.Balanced (SearchTree.insert key b t))
    : insertLinked key b t = SearchTree.insert key b t := by
  induction t with
  | nil => rfl
  | node a l r ihl ihr =>
    simp only [insertLinked, SearchTree.insert] at h ⊢
    split at h
    . next hlt =>
      obtain ⟨hlr, hrl, hl, -⟩ := h
      rw [if_pos hlt, if_pos hlt, ihl hl]
      exact remaining_of_balanced hlr hrl
    . next hlt =>
      rw [if_neg hlt, if_neg hlt]
      split at h
      . next hgt =>
        obtain ⟨hlr, hrl, -, hr⟩ := h
        rw [if_pos hgt, if_pos hgt, ihr hr]
        exact remaining_of_balanced hlr hrl
      . next hgt =>
        rw [if_neg hgt, if_neg hgt]

theorem length_kept_lt (side : Side) {t : BinaryTree α} (h : t ≠ nil)
    : (toList (kept side t)).length < (toList t).length := by
  obtain ⟨x, outer, inner, rfl⟩ := exists_join side h
  have hlength := (toList_join_perm side x outer inner).length_eq
  rw [List.length_cons, List.length_append] at hlength
  have hkept : (toList (kept side (join side x outer inner))).length ≤ (toList inner).length := by
    simp only [kept, part_join, part_other_join]
    split
    . exact (part_sublist _ _).length_le
    . exact Nat.le_refl _
  omega

theorem balanced_of_length_remaining {a : α} {l r : BinaryTree α}
    (h : (toList l).length + ((toList r).length + 1) ≤ (toList (remaining a l r)).length)
    : l.height ≤ r.height + 1 ∧ r.height ≤ l.height + 1 := by
  have hne {t u : BinaryTree α} (hhigh : u.height + 1 < t.height) : t ≠ nil := by
    rintro rfl
    simp at hhigh
  unfold remaining at h
  split at h
  . next hhigh =>
    have hlt := length_kept_lt .child1 (hne hhigh)
    simp only [toList, List.length_append, List.length_cons] at h
    omega
  . split at h
    . next hhigh =>
      have hlt := length_kept_lt .child2 (hne hhigh)
      simp only [toList, List.length_append, List.length_cons] at h
      omega
    . omega

theorem balanced_insert_of_length_le {b : α} {t : BinaryTree α} (hbalanced : SearchTree.Balanced t)
    (h : (toList (SearchTree.insert key b t)).length ≤ (toList (insertLinked key b t)).length)
    : SearchTree.Balanced (SearchTree.insert key b t) := by
  induction t with
  | nil => simp [SearchTree.insert, SearchTree.Balanced]
  | node a l r ihl ihr =>
    obtain ⟨hlr, hrl, hl, hr⟩ := hbalanced
    simp only [SearchTree.insert, insertLinked] at h ⊢
    split
    . next hlt =>
      rw [if_pos hlt, if_pos hlt] at h
      have hsub := (@insertLinked_sublist _ _ _ key b l).length_le
      have hrem := (remaining_sublist a (insertLinked key b l) r).length_le
      simp only [toList, List.length_append, List.length_cons] at h hrem
      have hl' := ihl hl (by omega)
      rw [insertLinked_eq_insert hl'] at h
      obtain ⟨hlr', hrl'⟩ := balanced_of_length_remaining h
      exact ⟨hlr', hrl', hl', hr⟩
    . next hlt =>
      rw [if_neg hlt, if_neg hlt] at h
      split
      . next hgt =>
        rw [if_pos hgt, if_pos hgt] at h
        have hsub := (@insertLinked_sublist _ _ _ key b r).length_le
        have hrem := (remaining_sublist a l (insertLinked key b r)).length_le
        simp only [toList, List.length_append, List.length_cons] at h hrem
        have hr' := ihr hr (by omega)
        rw [insertLinked_eq_insert hr'] at h
        obtain ⟨hlr', hrl'⟩ := balanced_of_length_remaining h
        exact ⟨hlr', hrl', hl, hr'⟩
      . exact ⟨hlr, hrl, hl, hr⟩

theorem insertLinked_ne_nil (b : α) (t : BinaryTree α) : insertLinked key b t ≠ nil := by
  cases t with
  | nil => simp [insertLinked]
  | node a l r =>
    simp only [insertLinked, remaining]
    split
    . split
      . simp
      . split <;> simp
    . split
      . split
        . simp
        . split <;> simp
      . simp

end LinkedTree
end Osproj
