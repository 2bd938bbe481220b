import Osproj.Lib.Lemmas.DeletedTree

/-!
This module contains what one `balance` does to a subtree: it keeps the order and gives the balance back.
-/

namespace Osproj
namespace Bst

open BinaryTree SearchTree LinkedTree

section Balance

variable {s : Bst} {p : Nat} {a : Insertion} {l r t : BinaryTree Insertion}

theorem nodup_of_sorted (h : Repr s p t) (hsorted : Sorted Insertion.id t) : (addrs t).Nodup := by
  rw [addrs, List.Nodup, List.pairwise_map]
  apply List.Pairwise.imp_of_mem _ hsorted
  intro o o' ho ho' hlt heq
  obtain ⟨n, -, -, hn, -⟩ := h.node_of_mem ho
  obtain ⟨n', -, -, hn', -⟩ := h.node_of_mem ho'
  have hnode := hn'.node_eq
  rw [← heq, hn.node_eq, Option.some.injEq] at hnode
  rw [← hn.id_eq, ← hn'.id_eq, hnode] at hlt
  exact Nat.lt_irrefl _ hlt

/--
`balance` of a node whose subtrees are AVL trees with a difference in height of at most two.
-/
theorem balance_rebalances (h : Repr s p (.node a l r)) (hsorted : Sorted Insertion.id (.node a l r))
    (hl : SearchTree.Balanced l) (hr : SearchTree.Balanced r) {factor : Int}
    (hfactor : s.balanceFactor p = some factor) (hlo : -2 ≤ factor) (hhi : factor ≤ 2)
    : ∃ q s' t, s.balance p = some (q, s')
        ∧ Repr s' q t
        ∧ toList t = toList (.node a l r)
        ∧ Sorted Insertion.id t
        ∧ SearchTree.Balanced t
        ∧ (t.height = (BinaryTree.node a l r).height ∨ t.height + 1 = (BinaryTree.node a l r).height) := by
  have hnodup := nodup_of_sorted h hsorted
  have hdifference := balanceFactor_repr h
  rw [hfactor, Option.some.injEq] at hdifference
  simp only [part, left, right] at hdifference
  obtain ⟨rfl, n, hn, hheight, hl', hr'⟩ := h
  obtain ⟨q, s', hbalance, -, hrepr, -⟩ := balance_repr hn hheight hl' hr' hnodup
  obtain ⟨hbalanced, hle, hle'⟩ := balanced_rotated a hl hr (by omega) (by omega)
  have hlist := toList_rotated a l r
  refine ⟨q, s', rotated a l r, hbalance, hrepr, hlist, ?_, hbalanced, ?_⟩
  . rw [Sorted, hlist]
    exact hsorted
  . rw [BinaryTree.height]
    omega

/--
Two descending nodes below the root: `balance` of the root lifts the middle one.
-/
def threeDescending : Bst where
  root := 0x1000
  node := fun p =>
    if p = 0x1000 then some ⟨0, 0x1020, 0, 3, 0x2000, 2⟩
    else if p = 0x1020 then some ⟨0x1000, 0x1040, 0, 2, 0x2020, 1⟩
    else if p = 0x1040 then some ⟨0x1020, 0, 0, 1, 0x2040, 0⟩
    else none

theorem repr_threeDescending
    : Repr threeDescending 0x1000 (.node ⟨0x1000, 0x2000, 3⟩
        (.node ⟨0x1020, 0x2020, 2⟩ (.node ⟨0x1040, 0x2040, 1⟩ nil nil) nil) nil) := by
  refine ⟨rfl, _, ⟨by decide, rfl, rfl, rfl⟩, by decide, ?_, rfl⟩
  refine ⟨rfl, _, ⟨by decide, rfl, rfl, rfl⟩, by decide, ?_, rfl⟩
  exact ⟨rfl, _, ⟨by decide, rfl, rfl, rfl⟩, by decide, rfl, rfl⟩

theorem balance_rebalances_three
    : ∃ q s' t, threeDescending.balance 0x1000 = some (q, s')
        ∧ Repr s' q t
        ∧ toList t = [⟨0x1040, 0x2040, 1⟩, ⟨0x1020, 0x2020, 2⟩, ⟨0x1000, 0x2000, 3⟩]
        ∧ Sorted Insertion.id t
        ∧ SearchTree.Balanced t
        ∧ (t.height = 3 ∨ t.height + 1 = 3) := by
  exact balance_rebalances repr_threeDescending (by unfold Sorted; decide) (by decide) (by decide)
    (show _ = some 2 by decide) (by decide) (by decide)

end Balance

end Bst
end Osproj
