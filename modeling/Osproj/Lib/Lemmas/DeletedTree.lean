import Osproj.Lib.Lemmas.BstBalance

/-!
This module contains deletion from an AVL tree as it should be, with the subtree that a rotation returns
linked at every level, and the part of it that `bst_delete` is about: what the nodes look like before
the rotation at the root.
-/

namespace Osproj
namespace LinkedTree

open BinaryTree SearchTree

section Rotated

variable {α κ : Type} {side : Side} {a : α} {t u l r : BinaryTree α}

theorem toList_lifted_of_child1 (a : α) (l r : BinaryTree α)
    : toList (lifted .child1 a l r) = toList l ++ a :: toList r := by
  cases l with
  | nil => rfl
  | node x outer inner =>
    change toList (if outer.height < inner.height then _ else _) = _
    split
    . cases inner <;> simp [join, part, Side.other, left, right, toList]
    . simp [join, toList, part, Side.other, left, right]

theorem toList_lifted_of_child2 (a : α) (l r : BinaryTree α)
    : toList (lifted .child2 a r l) = toList l ++ a :: toList r := by
  cases r with
  | nil => rfl
  | node x inner outer =>
    change toList (if outer.height < inner.height then _ else _) = _
    split
    . cases inner <;> simp [join, part, Side.other, left, right, toList]
    . simp [join, toList, part, Side.other, left, right]

theorem toList_rotated (a : α) (l r : BinaryTree α)
    : toList (rotated a l r) = toList (node a l r) := by
  unfold rotated
  split
  . exact toList_lifted_of_child1 a l r
  . split
    . exact toList_lifted_of_child2 a l r
    . rfl

theorem balanced_lifted (side : Side) (a : α) (ht : SearchTree.Balanced t) (hu : SearchTree.Balanced u)
    (hheight : t.height = u.height + 2)
    : SearchTree.Balanced (lifted side a t u) ∧ t.height ≤ (lifted side a t u).height
        ∧ (lifted side a t u).height ≤ t.height + 1 := by
  have hne : t ≠ nil := by
    rintro rfl
    simp at hheight
  obtain ⟨x, outer, inner, rfl⟩ := exists_join side hne
  obtain ⟨houter, hinner, ho, hi⟩ := (balanced_join side x outer inner).mp ht
  rw [height_join] at hheight ⊢
  by_cases hlt : outer.height < inner.height
  . have hne' : inner ≠ nil := by
      rintro rfl
      simp at hlt
    obtain ⟨z, c, d, rfl⟩ := exists_join side hne'
    obtain ⟨hc, hd, hc', hd'⟩ := (balanced_join side z c d).mp hi
    rw [lifted_of_inner hlt]
    simp only [height_join, balanced_join] at hlt hinner hheight ⊢
    refine ⟨⟨by omega, by omega, ⟨by omega, by omega, ho, hc'⟩, by omega, by omega, hd', hu⟩, by omega,
      by omega⟩
  . rw [lifted_of_outer hlt]
    simp only [height_join, balanced_join]
    exact ⟨⟨by omega, by omega, ho, by omega, by omega, hi, hu⟩, by omega, by omega⟩

theorem rotated_of_balanced (h : l.height ≤ r.height + 1) (h' : r.height ≤ l.height + 1)
    : rotated a l r = node a l r := by
  unfold rotated
  rw [if_neg (by omega), if_neg (by omega)]

theorem balanced_rotated (a : α) (hl : SearchTree.Balanced l) (hr : SearchTree.Balanced r)
    (h : l.height ≤ r.height + 2)
    (h' : r.height ≤ l.height + 2)
    : SearchTree.Balanced (rotated a l r) ∧ max l.height r.height ≤ (rotated a l r).height
        ∧ (rotated a l r).height ≤ max l.height r.height + 1 := by
  unfold rotated
  split
  . obtain ⟨hbalanced, hle, hle'⟩ := balanced_lifted .child1 a hl hr (by omega)
    exact ⟨hbalanced, by omega, by omega⟩
  . split
    . obtain ⟨hbalanced, hle, hle'⟩ := balanced_lifted .child2 a hr hl (by omega)
      exact ⟨hbalanced, by omega, by omega⟩
    . refine ⟨⟨by omega, by omega, hl, hr⟩, ?_, ?_⟩ <;> simp only [height] <;> omega

end Rotated

def minimum {α : Type} : BinaryTree α → Option α
  | nil => none
  | node a l _ => (minimum l).or (some a)

def rebalanced {α : Type} : BinaryTree α → BinaryTree α
  | nil => nil
  | node a l r => rotated a l r

/--
The tree at a deleted root, if `r'` is what the deletion of its successor makes of `r`. The node of the
root stays and takes over what the node of the successor holds.
-/
def rootless (a : Insertion) (l r r' : BinaryTree Insertion) : BinaryTree Insertion :=
  match l, minimum r with
  | nil, _ => r
  | l, none => l
  | l, some b => node { b with addr := a.addr } l r'

def deleted : BinaryTree Insertion → Nat → BinaryTree Insertion
  | nil, _ => nil
  | node a l r, id =>
    rebalanced (
      if id < a.id then node a (deleted l id) r
      else if a.id < id then node a l (deleted r id)
      else rootless a l r (deleted r ((minimum r).elim 0 Insertion.id)))

def unrotated : BinaryTree Insertion → Nat → BinaryTree Insertion
  | nil, _ => nil
  | node a l r, id =>
    if id < a.id then node a (deleted l id) r
    else if a.id < id then node a l (deleted r id)
    else rootless a l r (deleted r ((minimum r).elim 0 Insertion.id))

def freed : BinaryTree Insertion → Nat → List Nat
  | nil, _ => []
  | node a l r, id =>
    if id < a.id then freed l id
    else if a.id < id then freed r id
    else
      match l, minimum r with
      | nil, _ | _, none => [a.addr]
      | _, some b => freed r b.id

def entries (t : BinaryTree Insertion) : List (Nat × Nat) :=
  (toList t).map (fun o => (o.id, o.data))

section Deleted

variable {t l r : BinaryTree Insertion} {a b : Insertion} {id : Nat}

theorem deleted_eq (t : BinaryTree Insertion) (id : Nat) : deleted t id = rebalanced (unrotated t id) := by
  cases t <;> rfl

theorem toList_rebalanced {α : Type} (t : BinaryTree α) : toList (rebalanced t) = toList t := by
  cases t with
  | nil => rfl
  | node a l r => exact toList_rotated a l r

theorem toList_eq_of_minimum {α : Type} {t : BinaryTree α} {b : α} (h : minimum t = some b)
    : ∃ bs, toList t = b :: bs := by
  induction t with
  | nil => simp [minimum] at h
  | node a l r ihl _ =>
    simp only [minimum, Option.or_eq_some_iff] at h
    rcases h with h | ⟨hl, h⟩
    . obtain ⟨bs, hbs⟩ := ihl h
      exact ⟨bs ++ a :: toList r, by simp [toList, hbs]⟩
    . rw [Option.some.injEq] at h
      subst h
      cases l with
      | nil => exact ⟨toList r, rfl⟩
      | node => simp [minimum] at hl

theorem minimum_eq_none_iff {α : Type} {t : BinaryTree α} : minimum t = none ↔ t = nil := by
  cases t <;> simp [minimum]

theorem rootless_cases (a : Insertion) (l r r' : BinaryTree Insertion)
    : (l = nil ∧ rootless a l r r' = r)
        ∨ (r = nil ∧ rootless a l r r' = l)
        ∨ (l ≠ nil ∧ ∃ b, minimum r = some b
            ∧ rootless a l r r' = node { b with addr := a.addr } l r') := by
  cases l with
  | nil => exact Or.inl ⟨rfl, rfl⟩
  | node x l₁ l₂ =>
    cases hmin : minimum r with
    | none =>
      refine Or.inr (Or.inl ⟨minimum_eq_none_iff.mp hmin, ?_⟩)
      simp [rootless, hmin]
    | some b =>
      refine Or.inr (Or.inr ⟨by simp, b, rfl, ?_⟩)
      simp [rootless, hmin]

theorem entries_node (a : Insertion) (l r : BinaryTree Insertion)
    : entries (node a l r) = entries l ++ (a.id, a.data) :: entries r := by
  simp [entries, toList]

theorem filter_entries (h : ∀ o ∈ toList t, o.id ≠ id)
    : (entries t).filter (fun e => e.1 ≠ id) = entries t := by
  rw [List.filter_eq_self]
  rintro e he
  obtain ⟨o, ho, rfl⟩ := List.mem_map.mp he
  simpa using h o ho

theorem filter_entries_minimum (h : Sorted Insertion.id t) (hb : minimum t = some b)
    : entries t = (b.id, b.data) :: (entries t).filter (fun e => e.1 ≠ b.id) := by
  obtain ⟨bs, hbs⟩ := toList_eq_of_minimum hb
  have hgt : ∀ o ∈ bs, b.id < o.id := by
    rw [Sorted, hbs] at h
    exact (List.pairwise_cons.mp h).1
  have hself : (bs.map (fun o => (o.id, o.data))).filter (fun e => e.1 ≠ b.id)
      = bs.map (fun o => (o.id, o.data)) := by
    rw [List.filter_eq_self]
    rintro e he
    obtain ⟨o, ho, rfl⟩ := List.mem_map.mp he
    simpa using (hgt o ho).ne'
  rw [entries, hbs, List.map_cons, List.filter_cons_of_neg (by simp), hself]

theorem entries_deleted (h : Sorted Insertion.id t)
    : entries (deleted t id) = (entries t).filter (fun e => e.1 ≠ id) := by
  induction t generalizing id with
  | nil => rfl
  | node a l r ihl ihr =>
    obtain ⟨hl, hr, hla, har⟩ := sorted_node.mp h
    have hrebalanced (t : BinaryTree Insertion) : entries (rebalanced t) = entries t := by
      rw [entries, toList_rebalanced, entries]
    simp only [deleted, hrebalanced, entries_node, List.filter_append, List.filter_cons]
    split
    . next hlt =>
      have hright := @filter_entries r id (fun o ho => (hlt.trans (har o ho)).ne')
      rw [entries_node, ihl hl, hright, if_pos (by simp; omega)]
    . split
      . next hgt =>
        have hleft := @filter_entries l id (fun o ho => ((hla o ho).trans hgt).ne)
        rw [entries_node, ihr hr, hleft, if_pos (by simp; omega)]
      . have hid : a.id = id := by omega
        have hleft := @filter_entries l id (fun o ho => hid ▸ (hla o ho).ne)
        have hright := @filter_entries r id (fun o ho => hid ▸ (har o ho).ne')
        rw [hleft, hright, if_neg (by simp [hid])]
        rcases rootless_cases a l r (deleted r ((minimum r).elim 0 Insertion.id)) with
          ⟨rfl, hroot⟩ | ⟨rfl, hroot⟩ | ⟨-, b, hb, hroot⟩
        . rw [hroot]
          rfl
        . rw [hroot]
          simp [entries, toList]
        . rw [hroot, entries_node, hb, Option.elim_some, ihr hr, ← filter_entries_minimum hr hb]

theorem balanced_deleted (h : SearchTree.Balanced t)
    : SearchTree.Balanced (deleted t id) ∧ t.height ≤ (deleted t id).height + 1
        ∧ (deleted t id).height ≤ t.height := by
  induction t generalizing id with
  | nil => exact ⟨trivial, by simp [deleted], by simp [deleted]⟩
  | node a l r ihl ihr =>
    obtain ⟨hlr, hrl, hl, hr⟩ := h
    -- a subtree loses at most one level, and a rotation is enough to make up for it
    have hrotated {a : Insertion} {l' r' : BinaryTree Insertion}
        (hl' : SearchTree.Balanced l' ∧ l.height ≤ l'.height + 1 ∧ l'.height ≤ l.height)
        (hr' : SearchTree.Balanced r' ∧ r.height ≤ r'.height + 1 ∧ r'.height ≤ r.height)
        (hone : l'.height = l.height ∨ r'.height = r.height)
        : SearchTree.Balanced (rotated a l' r') ∧ max l.height r.height + 1 ≤ (rotated a l' r').height + 1
            ∧ (rotated a l' r').height ≤ max l.height r.height + 1 := by
      obtain ⟨hbalanced, hle, hle'⟩ := balanced_rotated a hl'.1 hr'.1 (by omega) (by omega)
      by_cases hlevel : l'.height ≤ r'.height + 1 ∧ r'.height ≤ l'.height + 1
      . rw [rotated_of_balanced hlevel.1 hlevel.2] at hbalanced ⊢
        refine ⟨hbalanced, ?_, ?_⟩ <;> simp only [height] <;> omega
      . exact ⟨hbalanced, by omega, by omega⟩
    have hself {t : BinaryTree Insertion} (ht : SearchTree.Balanced t) : rebalanced t = t := by
      cases t with
      | nil => rfl
      | node x c d => exact rotated_of_balanced ht.1 ht.2.1
    simp only [deleted, height]
    split
    . exact hrotated (ihl hl) ⟨hr, by omega, by omega⟩ (Or.inr rfl)
    . split
      . exact hrotated ⟨hl, by omega, by omega⟩ (ihr hr) (Or.inl rfl)
      . rcases rootless_cases a l r (deleted r ((minimum r).elim 0 Insertion.id)) with
          ⟨rfl, hroot⟩ | ⟨rfl, hroot⟩ | ⟨-, b, hb, hroot⟩
        . rw [hroot, hself hr]
          simp only [height] at hlr hrl ⊢
          exact ⟨hr, by omega, by omega⟩
        . rw [hroot, hself hl]
          simp only [height] at hlr hrl ⊢
          exact ⟨hl, by omega, by omega⟩
        . rw [hroot]
          exact hrotated ⟨hl, by omega, by omega⟩ (ihr hr) (Or.inl rfl)

theorem sorted_iff_entries
    : Sorted Insertion.id t ↔ (entries t).Pairwise (fun e e' => e.1 < e'.1) := by
  rw [Sorted, entries, List.pairwise_map]

theorem sorted_deleted (h : Sorted Insertion.id t) : Sorted Insertion.id (deleted t id) := by
  rw [sorted_iff_entries, entries_deleted h]
  exact List.Pairwise.sublist List.filter_sublist (sorted_iff_entries.mp h)

end Deleted

end LinkedTree
end Osproj
