import Mathlib.Data.List.Perm.Subperm
import Mathlib.Data.Tree.Basic
import Mathlib.Order.Lattice

/-!
This module contains search trees that are never rebalanced: insertion puts a value at the end of its
search path and keeps the first value of a key. The order of the values in the tree plays no role in
what a search finds after an insertion, since both take the same path.
-/

namespace Osproj
namespace SearchTree

open BinaryTree

variable {α κ : Type} [LinearOrder κ]

def find (key : α → κ) (k : κ) : BinaryTree α → Option α
  | nil => none
  | node a l r =>
    if k < key a then find key k l
    else if key a < k then find key k r
    else some a

def insert (key : α → κ) (b : α) : BinaryTree α → BinaryTree α
  | nil => node b nil nil
  | node a l r =>
    if key b < key a then node a (insert key b l) r
    else if key a < key b then node a l (insert key b r)
    else node a l r

def ofList (key : α → κ) (bs : List α) : BinaryTree α := bs.foldl (fun t b => insert key b t) nil

def toList : BinaryTree α → List α
  | nil => []
  | node a l r => toList l ++ a :: toList r

def Sorted (key : α → κ) (t : BinaryTree α) : Prop :=
  (toList t).Pairwise (fun a b => key a < key b)

def Balanced : BinaryTree α → Prop
  | nil => True
  | node _ l r => l.height ≤ r.height + 1 ∧ r.height ≤ l.height + 1 ∧ Balanced l ∧ Balanced r

instance decidableBalanced : (t : BinaryTree α) → Decidable (Balanced t)
  | nil => isTrue trivial
  | node _ l r =>
    have := decidableBalanced l
    have := decidableBalanced r
    inferInstanceAs (Decidable (_ ∧ _ ∧ Balanced l ∧ Balanced r))

variable {key : α → κ}

theorem find_insert (b : α) (k : κ) (t : BinaryTree α)
    : find key k (insert key b t)
        =
      (find key k t).or (if key b = k then some b else none) := by
  induction t with
  | nil =>
    simp only [insert, find, Option.none_or]
    rcases lt_trichotomy k (key b) with hlt | heq | hgt
    . rw [if_pos hlt, if_neg hlt.ne']
    . rw [heq, if_neg (lt_irrefl _), if_neg (lt_irrefl _), if_pos rfl]
    . rw [if_neg hgt.not_gt, if_pos hgt, if_neg hgt.ne]
  | node a l r ihl ihr =>
    simp only [insert]
    rcases lt_trichotomy (key b) (key a) with hlt | heq | hgt
    . rw [if_pos hlt]
      simp only [find]
      by_cases hk : k < key a
      . rw [if_pos hk, if_pos hk, ihl]
      . have hne : key b ≠ k := fun h => hk (h ▸ hlt)
        rw [if_neg hk, if_neg hk, if_neg hne, Option.or_none]
    . rw [if_neg heq.not_lt, if_neg heq.not_gt]
      simp only [find]
      by_cases hk : k < key a
      . have hne : key b ≠ k := fun h => hk.ne (h ▸ heq)
        rw [if_pos hk, if_neg hne, Option.or_none]
      . by_cases hk' : key a < k
        . have hne : key b ≠ k := fun h => hk'.ne (h ▸ heq.symm)
          rw [if_neg hk, if_pos hk', if_neg hne, Option.or_none]
        . rw [if_neg hk, if_neg hk', Option.some_or]
    . rw [if_neg hgt.not_gt, if_pos hgt]
      simp only [find]
      by_cases hk : k < key a
      . have hne : key b ≠ k := fun h => lt_asymm hk (h ▸ hgt)
        rw [if_pos hk, if_pos hk, if_neg hne, Option.or_none]
      . by_cases hk' : key a < k
        . rw [if_neg hk, if_pos hk', if_neg hk, if_pos hk', ihr]
        . rw [if_neg hk, if_neg hk', if_neg hk, if_neg hk', Option.some_or]

theorem find_ofList (k : κ) (bs : List α)
    : find key k (ofList key bs) = bs.find? (fun b => key b = k) := by
  have hfold (t : BinaryTree α)
      : find key k (bs.foldl (fun t b => insert key b t) t)
          =
        (find key k t).or (bs.find? (fun b => key b = k)) := by
    induction bs generalizing t with
    | nil => simp
    | cons b bs ih =>
      rw [List.foldl_cons, ih, find_insert, List.find?_cons, Option.or_assoc]
      by_cases hb : key b = k
      . simp [hb]
      . simp [hb]
  exact hfold nil

theorem mem_of_find {t : BinaryTree α} {k : κ} {a : α} (h : find key k t = some a) : a ∈ toList t := by
  induction t with
  | nil => simp [find] at h
  | node b l r ihl ihr =>
    simp only [find] at h
    simp only [toList, List.mem_append, List.mem_cons]
    split at h
    . exact Or.inl (ihl h)
    . split at h
      . exact Or.inr (Or.inr (ihr h))
      . rw [Option.some.injEq] at h
        exact Or.inr (Or.inl h.symm)

theorem sorted_node {a : α} {l r : BinaryTree α}
    : Sorted key (node a l r)
        ↔
      Sorted key l ∧ Sorted key r ∧ (∀ x ∈ toList l, key x < key a)
        ∧ (∀ x ∈ toList r, key a < key x) := by
  simp only [Sorted, toList, List.pairwise_append, List.pairwise_cons, List.mem_cons]
  constructor
  . rintro ⟨hl, ⟨ha, hr⟩, hlr⟩
    exact ⟨hl, hr, fun x hx => hlr x hx a (Or.inl rfl), ha⟩
  . rintro ⟨hl, hr, hla, har⟩
    refine ⟨hl, ⟨har, hr⟩, ?_⟩
    intro x hx y hy
    rcases hy with rfl | hy
    . exact hla x hx
    . exact lt_trans (hla x hx) (har y hy)

theorem toList_insert_subperm (b : α) (t : BinaryTree α)
    : (toList (insert key b t)).Subperm (b :: toList t) := by
  induction t with
  | nil => exact .refl _
  | node a l r ihl ihr =>
    simp only [insert]
    split
    . exact ihl.append (.refl _)
    . split
      . have hright : (toList l ++ a :: toList (insert key b r)).Subperm
            (toList l ++ b :: a :: toList r) := by
          apply List.Subperm.append (.refl _)
          exact ((List.subperm_cons a).mpr ihr).trans (List.Perm.swap b a _).subperm
        exact hright.trans List.perm_middle.subperm
      . exact (List.sublist_cons_self _ _).subperm

theorem sorted_insert (b : α) {t : BinaryTree α} (h : Sorted key t) : Sorted key (insert key b t) := by
  have hmem {t : BinaryTree α} {x : α} (hx : x ∈ toList (insert key b t)) : x = b ∨ x ∈ toList t := by
    simpa using (toList_insert_subperm b t).subset hx
  induction t with
  | nil => simp [insert, Sorted, toList]
  | node a l r ihl ihr =>
    obtain ⟨hl, hr, hla, har⟩ := sorted_node.mp h
    simp only [insert]
    split
    . next hlt =>
      refine sorted_node.mpr ⟨ihl hl, hr, ?_, har⟩
      intro x hx
      rcases hmem hx with rfl | hx
      . exact hlt
      . exact hla x hx
    . split
      . next hgt =>
        refine sorted_node.mpr ⟨hl, ihr hr, hla, ?_⟩
        intro x hx
        rcases hmem hx with rfl | hx
        . exact hgt
        . exact har x hx
      . exact h

theorem sorted_ofList (bs : List α) : Sorted key (ofList key bs) := by
  have hfold {t : BinaryTree α} (h : Sorted key t)
      : Sorted key (bs.foldl (fun t b => insert key b t) t) := by
    induction bs generalizing t with
    | nil => exact h
    | cons b bs ih => exact ih (sorted_insert b h)
  exact hfold (by simp [Sorted, toList])

theorem Sorted.nodup {t : BinaryTree α} (h : Sorted key t) : (toList t).Nodup := by
  refine List.Pairwise.imp ?_ h
  rintro a _ hlt rfl
  exact lt_irrefl _ hlt

theorem find_eq_some_iff {t : BinaryTree α} (h : Sorted key t) {k : κ} {a : α}
    : find key k t = some a ↔ a ∈ toList t ∧ key a = k := by
  induction t with
  | nil => simp [find, toList]
  | node b l r ihl ihr =>
    obtain ⟨hl, hr, hlb, hbr⟩ := sorted_node.mp h
    simp only [find, toList, List.mem_append, List.mem_cons]
    split
    . next hk =>
      rw [ihl hl]
      constructor
      . rintro ⟨ha, rfl⟩
        exact ⟨Or.inl ha, rfl⟩
      . rintro ⟨ha | rfl | ha, rfl⟩
        . exact ⟨ha, rfl⟩
        . exact absurd hk (lt_irrefl _)
        . exact absurd (hbr a ha) hk.not_gt
    . next hk =>
      split
      . next hk' =>
        rw [ihr hr]
        constructor
        . rintro ⟨ha, rfl⟩
          exact ⟨Or.inr (Or.inr ha), rfl⟩
        . rintro ⟨ha | rfl | ha, rfl⟩
          . exact absurd (hlb a ha) hk'.not_gt
          . exact absurd hk' (lt_irrefl _)
          . exact ⟨ha, rfl⟩
      . next hk' =>
        have heq : key b = k := le_antisymm (not_lt.mp hk) (not_lt.mp hk')
        rw [Option.some.injEq]
        constructor
        . rintro rfl
          exact ⟨Or.inr (Or.inl rfl), heq⟩
        . rintro ⟨ha | ha | ha, hka⟩
          . exact absurd (hlb a ha) (by rw [hka, heq]; exact lt_irrefl _)
          . exact ha.symm
          . exact absurd (hbr a ha) (by rw [hka, heq]; exact lt_irrefl _)

theorem length_toList (t : BinaryTree α) : (toList t).length = t.numNodes := by
  induction t with
  | nil => rfl
  | node a l r ihl ihr =>
    simp only [toList, List.length_append, List.length_cons, ihl, ihr, numNodes]
    omega

theorem height_le_length_toList (t : BinaryTree α) : t.height ≤ (toList t).length := by
  rw [length_toList]
  exact height_le_numNodes t

end SearchTree
end Osproj
