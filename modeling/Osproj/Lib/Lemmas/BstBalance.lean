import Osproj.Lib.Lemmas.BstInsert

/-!
This module contains what insertions do to the balance of the tree that stays linked. A rotation drops
nodes, so that a subtree can shrink by more than one level, and the rotation above then keeps a part of
the sibling that is too high for it.
-/

namespace Osproj
namespace LinkedTree

open BinaryTree SearchTree

variable {α κ : Type} [LinearOrder κ]

def heightBeside (side : Side) (h : Nat) (u : BinaryTree α) : Nat :=
  if u.height + 1 < h then u.height + 1
  else if h + 1 < u.height then max h (kept side.other u).height + 1
  else max h u.height + 1

def heightAfter (key : α → κ) (b : α) : BinaryTree α → Nat
  | nil => 1
  | node a l r =>
    if key b < key a then heightBeside .child1 (heightAfter key b l) r
    else if key a < key b then heightBeside .child2 (heightAfter key b r) l
    else (node a l r).height

/--
If `u` is too high for its sibling, the part of it that a rotation keeps is not.
-/
def KeepsBeside (side : Side) (h : Nat) (u : BinaryTree α) : Prop :=
  h + 1 < u.height → (kept side.other u).height ≤ h + 1

/--
No subtree on the search path shrinks so far that a rotation cannot make up for it.
-/
def KeepsBalance (key : α → κ) (b : α) : BinaryTree α → Prop
  | nil => True
  | node a l r =>
    if key b < key a then KeepsBalance key b l ∧ KeepsBeside .child1 (heightAfter key b l) r
    else if key a < key b then KeepsBalance key b r ∧ KeepsBeside .child2 (heightAfter key b r) l
    else True

section Kept

variable {side : Side} {a : α} {t t' u : BinaryTree α}

theorem balanced_part (h : SearchTree.Balanced t) : SearchTree.Balanced (part side t) := by
  cases t with
  | nil => cases side <;> trivial
  | node a l r =>
    cases side with
    | child1 => exact h.2.2.1
    | child2 => exact h.2.2.2

theorem balanced_kept (h : SearchTree.Balanced t) : SearchTree.Balanced (kept side t) := by
  simp only [kept]
  split
  . exact balanced_part (balanced_part h)
  . exact balanced_part h

theorem height_le_height_kept (side : Side) (h : SearchTree.Balanced t) : t.height ≤ (kept side t).height + 3 := by
  by_cases ht : t = nil
  . simp [ht]
  . obtain ⟨x, outer, inner, rfl⟩ := exists_join side ht
    obtain ⟨houter, hinner, -, hi⟩ := (balanced_join side x outer inner).mp h
    rw [height_join]
    by_cases hlt : outer.height < inner.height
    . have hne : inner ≠ nil := by
        rintro rfl
        simp at hlt
      obtain ⟨z, c, d, rfl⟩ := exists_join side hne
      obtain ⟨hc, hd, -, -⟩ := (balanced_join side z c d).mp hi
      rw [kept_of_inner hlt]
      rw [height_join] at hlt hinner ⊢
      omega
    . rw [kept_of_outer hlt]
      omega

theorem height_kept_of_uneven (h : SearchTree.Balanced t)
    (huneven : (part side t).height ≠ (part side.other t).height)
    : (kept side t).height + 2 ≤ t.height := by
  have ht : t ≠ nil := by
    rintro rfl
    cases side <;> exact huneven rfl
  obtain ⟨x, outer, inner, rfl⟩ := exists_join side ht
  obtain ⟨houter, hinner, -, hi⟩ := (balanced_join side x outer inner).mp h
  rw [part_join, part_other_join] at huneven
  rw [height_join]
  by_cases hlt : outer.height < inner.height
  . have hne : inner ≠ nil := by
      rintro rfl
      simp at hlt
    obtain ⟨z, c, d, rfl⟩ := exists_join side hne
    rw [kept_of_inner hlt]
    rw [height_join] at hlt hinner ⊢
    omega
  . rw [kept_of_outer hlt]
    omega

end Kept

structure Outcome (keeps : Prop) (h : Nat) (t t' : BinaryTree α) : Prop where
  height_le : t'.height ≤ t.height + 1
  uneven : t.height < t'.height → t = nil
    ∨ ∀ side, (part side t').height ≠ (part side.other t').height
  balanced : keeps → SearchTree.Balanced t' ∧ t'.height = h
  unbalanced : ¬ keeps → ¬ SearchTree.Balanced t' ∧ t'.height ≤ t.height

theorem Outcome.remainingAt (side : Side) {a : α} {t t' u : BinaryTree α} {keeps : Prop} {h : Nat}
    (ht : Outcome keeps h t t') (hbalanced : SearchTree.Balanced (join side a t u))
    : Outcome (keeps ∧ KeepsBeside side h u) (heightBeside side h u) (join side a t u)
        (remainingAt side a t' u) := by
  obtain ⟨htu, hut, -, hu⟩ := (balanced_join side a t u).mp hbalanced
  have hle := ht.height_le
  rw [remainingAt_eq]
  by_cases hhigh : u.height + 1 < t'.height
  . -- the subtree has grown, and the rotation takes it back to the height of the other one
    have hkeeps : keeps := by
      by_contra hkeeps
      have := (ht.unbalanced hkeeps).2
      omega
    obtain ⟨hbalanced', rfl⟩ := ht.balanced hkeeps
    have hne : t' ≠ nil := by
      rintro rfl
      simp at hhigh
    have hheight := height_le_height_kept side hbalanced'
    have huneven : (kept side t').height + 2 ≤ t'.height := by
      rcases ht.uneven (by omega) with rfl | huneven
      . simp at hle
        omega
      . exact height_kept_of_uneven hbalanced' (huneven side)
    rw [if_pos hhigh]
    refine ⟨?_, ?_, ?_, ?_⟩
    . rw [height_join, height_join]
      omega
    . intro hgrown
      rw [height_join, height_join] at hgrown
      omega
    . rintro ⟨-, -⟩
      refine ⟨(balanced_join _ _ _ _).mpr ⟨by omega, by omega, balanced_kept hbalanced', hu⟩, ?_⟩
      rw [height_join, heightBeside, if_pos hhigh]
      omega
    . intro hnot
      refine absurd ⟨hkeeps, fun hlow => ?_⟩ hnot
      omega
  . rw [if_neg hhigh]
    by_cases hlow : t'.height + 1 < u.height
    . have hne : u ≠ nil := by
        rintro rfl
        simp at hlow
      have hkept := height_kept_lt side.other hne
      have hkept' := height_le_height_kept side.other hu
      rw [if_pos hlow]
      refine ⟨?_, ?_, ?_, ?_⟩
      . rw [height_join, height_join]
        omega
      . intro hgrown
        rw [height_join, height_join] at hgrown
        omega
      . rintro ⟨hkeeps, hbeside⟩
        obtain ⟨hbalanced', rfl⟩ := ht.balanced hkeeps
        have hbeside := hbeside hlow
        refine ⟨(balanced_join _ _ _ _).mpr ⟨by omega, by omega, hbalanced', balanced_kept hu⟩, ?_⟩
        rw [height_join, heightBeside, if_neg hhigh, if_pos hlow]
      . intro hnot
        refine ⟨?_, by rw [height_join, height_join]; omega⟩
        intro hjoin
        obtain ⟨-, hheight, hbalanced', -⟩ := (balanced_join _ _ _ _).mp hjoin
        have hkeeps : keeps := by
          by_contra hkeeps
          exact (ht.unbalanced hkeeps).1 hbalanced'
        obtain ⟨-, rfl⟩ := ht.balanced hkeeps
        exact hnot ⟨hkeeps, fun _ => hheight⟩
    . rw [if_neg hlow]
      refine ⟨?_, ?_, ?_, ?_⟩
      . rw [height_join, height_join]
        omega
      . intro hgrown
        rw [height_join, height_join] at hgrown
        refine Or.inr fun side' => ?_
        cases side <;> cases side' <;> simp only [join, part, left, right, Side.other] <;> omega
      . rintro ⟨hkeeps, -⟩
        obtain ⟨hbalanced', rfl⟩ := ht.balanced hkeeps
        refine ⟨(balanced_join _ _ _ _).mpr ⟨by omega, by omega, hbalanced', hu⟩, ?_⟩
        rw [height_join, heightBeside, if_neg hhigh, if_neg hlow]
      . intro hnot
        have hkeeps : ¬ keeps := by
          intro hkeeps
          obtain ⟨-, rfl⟩ := ht.balanced hkeeps
          exact hnot ⟨hkeeps, fun h => absurd h hlow⟩
        obtain ⟨hunbalanced, hheight⟩ := ht.unbalanced hkeeps
        refine ⟨fun hjoin => hunbalanced ((balanced_join _ _ _ _).mp hjoin).2.2.1, ?_⟩
        rw [height_join, height_join]
        omega

theorem insertLinked_node (key : α → κ) (b a : α) (l r : BinaryTree α)
    : insertLinked key b (node a l r)
        =
      if key b < key a then remainingAt .child1 a (insertLinked key b l) r
      else if key a < key b then remainingAt .child2 a (insertLinked key b r) l
      else node a l r := by
  rfl

theorem outcome_insertLinked (key : α → κ) (b : α) {t : BinaryTree α} (h : SearchTree.Balanced t)
    : Outcome (KeepsBalance key b t) (heightAfter key b t) t (insertLinked key b t) := by
  induction t with
  | nil =>
    refine ⟨by simp [insertLinked], fun _ => Or.inl rfl, ?_, fun hnot => absurd trivial hnot⟩
    exact fun _ => ⟨⟨by simp, by simp, trivial, trivial⟩, rfl⟩
  | node a l r ihl ihr =>
    simp only [insertLinked_node, KeepsBalance, heightAfter]
    split
    . exact (ihl h.2.2.1).remainingAt .child1 h
    . split
      . exact (ihr h.2.2.2).remainingAt .child2 h
      . refine ⟨by omega, fun hlt => absurd hlt (Nat.lt_irrefl _), fun _ => ⟨h, rfl⟩, ?_⟩
        exact fun hnot => absurd trivial hnot

end LinkedTree

namespace Bst

open BinaryTree SearchTree LinkedTree

theorem Repr.unique {s : Bst} {p : Nat} {t u : BinaryTree Insertion} (ht : Repr s p t) (hu : Repr s p u)
    : t = u := by
  induction t generalizing p u with
  | nil =>
    cases u with
    | nil => rfl
    | node o l r =>
      obtain ⟨rfl, n, hn, -⟩ := hu
      exact absurd ht hn.addr_ne
  | node o l r ihl ihr =>
    obtain ⟨rfl, n, hn, -, hl, hr⟩ := ht
    cases u with
    | nil => exact absurd hu hn.addr_ne
    | node o' l' r' =>
      obtain ⟨haddr, n', hn', -, hl', hr'⟩ := hu
      have hnode := hn'.node_eq
      rw [← haddr, hn.node_eq, Option.some.injEq] at hnode
      subst hnode
      have ho : o = o' := by
        cases o
        cases o'
        simp only [Insertion.mk.injEq]
        exact ⟨haddr, hn.data_eq.symm.trans hn'.data_eq, hn.id_eq.symm.trans hn'.id_eq⟩
      rw [ho, ihl hl hl', ihr hr hr']

section Runs

variable {fuel : Nat} {os : List Insertion}

def StaysBalanced (fuel : Nat) (os : List Insertion) : Prop :=
  ∀ ps, ps <+: os → ∃ s t, insertAll fuel ps = some s ∧ Repr s s.root t ∧ SearchTree.Balanced t

def KeepsBalanceAll (fuel : Nat) (os : List Insertion) : Prop :=
  ∀ ps o, ps ++ [o] <+: os → ∀ s t, insertAll fuel ps = some s → Repr s s.root t →
    KeepsBalance Insertion.id o t

theorem staysBalanced_iff_linked (hfresh : FreshAddrs os) (hfuel : os.length < fuel)
    : StaysBalanced fuel os ↔ ∀ ps, ps <+: os → SearchTree.Balanced (linked ps) := by
  have hrepr (ps : List Insertion) (hps : ps <+: os)
      : ∃ s, insertAll fuel ps = some s ∧ Repr s s.root (linked ps) := by
    have hlength := hps.length_le
    exact insertAll_repr (hfresh.of_prefix hps) (by omega)
  constructor
  . intro h ps hps
    obtain ⟨s, t, hrun, ht, hbalanced⟩ := h ps hps
    obtain ⟨s', hrun', hlinked⟩ := hrepr ps hps
    rw [hrun, Option.some.injEq] at hrun'
    subst hrun'
    rw [hlinked.unique ht]
    exact hbalanced
  . intro h ps hps
    obtain ⟨s, hrun, hlinked⟩ := hrepr ps hps
    exact ⟨s, linked ps, hrun, hlinked, h ps hps⟩

theorem keepsBalanceAll_iff_linked (hfresh : FreshAddrs os) (hfuel : os.length < fuel)
    : KeepsBalanceAll fuel os
        ↔
      ∀ ps o, ps ++ [o] <+: os → KeepsBalance Insertion.id o (linked ps) := by
  constructor
  . intro h ps o hps
    have hps' := (List.prefix_append ps [o]).trans hps
    have hlength := hps'.length_le
    obtain ⟨s, hrun, hlinked⟩ := @insertAll_repr ps fuel (hfresh.of_prefix hps') (by omega)
    exact h ps o hps s _ hrun hlinked
  . intro h ps o hps s t hrun ht
    have hps' := (List.prefix_append ps [o]).trans hps
    have hlength := hps'.length_le
    obtain ⟨s', hrun', hlinked⟩ := @insertAll_repr ps fuel (hfresh.of_prefix hps') (by omega)
    rw [hrun, Option.some.injEq] at hrun'
    subst hrun'
    rw [ht.unique hlinked]
    exact h ps o hps

theorem staysBalanced_iff (hfresh : FreshAddrs os) (hfuel : os.length < fuel)
    : StaysBalanced fuel os ↔ KeepsBalanceAll fuel os := by
  rw [staysBalanced_iff_linked hfresh hfuel, keepsBalanceAll_iff_linked hfresh hfuel]
  constructor
  . intro h ps o hps
    have hbalanced := h ps ((List.prefix_append ps [o]).trans hps)
    have hbalanced' := h _ hps
    rw [linked_concat] at hbalanced'
    by_contra hnot
    exact ((outcome_insertLinked Insertion.id o hbalanced).unbalanced hnot).1 hbalanced'
  . intro h ps hps
    induction ps using List.reverseRecOn with
    | nil => trivial
    | append_singleton ps o ih =>
      have hbalanced := ih ((List.prefix_append ps [o]).trans hps)
      rw [linked_concat]
      exact ((outcome_insertLinked Insertion.id o hbalanced).balanced (h ps o hps)).1

theorem staysBalanced_iff_two
    : StaysBalanced 3 [⟨0x1000, 0x2000, 1⟩, ⟨0x1020, 0x2020, 2⟩]
        ↔
      KeepsBalanceAll 3 [⟨0x1000, 0x2000, 1⟩, ⟨0x1020, 0x2020, 2⟩] :=
  staysBalanced_iff ⟨by decide, by decide⟩ (by decide)

def unbalancing : List Insertion :=
  [16, 6, 32, 2, 10, 26, 42, 4, 8, 12, 22, 30, 38, 46, 14, 20, 24, 28, 36, 40, 44, 18, 34, 3].map
    (fun id => ⟨0x1000 + 0x20 * id, 0x2000 + id, id⟩)

/--
The last insertion takes the subtree of height 4 at 6 down to height 2, next to one of height 5.
-/
theorem not_staysBalanced : ¬ StaysBalanced 25 unbalancing := by
  rw [staysBalanced_iff_linked ⟨by decide, by decide⟩ (by decide)]
  intro h
  have hunbalanced : ¬ SearchTree.Balanced (linked unbalancing) := by
    decide +kernel
  exact hunbalanced (h unbalancing (List.prefix_refl _))

end Runs

end Bst
end Osproj
