import Osproj.Lib.Lemmas.BstDelete
import Osproj.Mm.Lemmas.SlabRuns

/-!
This module contains `bst_delete` of a tree whose nodes come from the slab allocator. Where the pointers that are stored
on the way are right, and `kfree` comes back and leaves the other nodes alone, the deletion is that of an AVL tree.
-/

namespace Osproj
namespace BstHeap

open BinaryTree SearchTree LinkedTree Bst

variable {s s' : BstHeap} {slot : Slot} {t : BinaryTree Insertion} {slabs fuel id p q x : Nat}

/--
`kfree` of a node comes back, and no word that it writes lies in another node.
-/
def ReleaseOk (s : BstHeap) (slabs x : Nat) : Prop :=
  (s.slab.kfree slabs x).isSome
    ∧ ∀ q, q ≠ x → s.tree.node q ≠ none → WordStore.Miss (s.slab.kfreeStores slabs x) q 24

theorem ReleaseOk.kfree_eq (h : s.ReleaseOk slabs x)
    : ∃ slab, s.kfree slabs x = some ⟨s.tree.forget x, slab, x :: s.released⟩ := by
  obtain ⟨slab, hslab⟩ := Option.isSome_iff_exists.mp h.1
  refine ⟨slab, ?_⟩
  rw [kfree, hslab]
  simp only [Option.bind_eq_bind, Option.bind_some, forget_storeWords h.2, Option.pure_def]

theorem ReleaseOk.set (h : s.ReleaseOk slabs x) {n n' : BstNode} (hn : s.tree.node p = some n)
    : ReleaseOk { s with tree := s.tree.set p n' } slabs x := by
  refine ⟨h.1, fun q hq hne => h.2 q hq ?_⟩
  by_cases hqp : q = p
  . simp [hqp, hn]
  . rwa [node_set_of_ne _ _ hqp] at hne

theorem lift_some {result : Option (Nat × Bst)} {tree : Bst} (h : result = some (q, tree))
    : s.lift result = some (q, { s with tree }) := by
  rw [h]
  rfl

theorem lift_ne_none {result : Option (Nat × Bst)} (h : s.lift result ≠ none) : result ≠ none := by
  rintro rfl
  exact h rfl

/--
The tree is as it is after a deletion, and `kfree` has been called with the node that is gone.
-/
structure Deleted (s : BstHeap) (slot : Slot) (t : BinaryTree Insertion) (id q : Nat) (s' : BstHeap) (p' : Nat)
    : Prop where
  tree : DeletedAt s.tree slot t (unrotated t id) (freed t id) q s'.tree p'
  released : s'.released = freed t id ++ s.released

theorem bstDelete_node_repr (hget : s.tree.get slot = some p) (ht : Repr s.tree p t) (hnodup : (addrs t).Nodup)
    (hok : PointersOk t id) (houtside : slot.Outside (addrs t)) (hfuel : t.height < fuel)
    (hrelease : ∀ x ∈ freed t id, s.ReleaseOk slabs x)
    : ∃ q s' p', bstDelete.node slabs fuel s slot id = some (q, s') ∧ s.Deleted slot t id q s' p' := by
  induction t generalizing s slot p fuel id with
  | nil =>
    obtain ⟨fuel, rfl⟩ : ∃ k, fuel = k + 1 := ⟨fuel - 1, by omega⟩
    simp only [Bst.Repr] at ht
    subst ht
    refine ⟨0, s, 0, by simp [bstDelete.node, hget], ⟨rfl, rfl, ?_, ?_, ?_⟩, rfl⟩
    . rw [write_get hget]
    . intro q _
      rw [write_get hget]
    . simp [addrs, toList]
  | node a l r ihl ihr =>
    obtain ⟨fuel, rfl⟩ : ∃ k, fuel = k + 1 := ⟨fuel - 1, by omega⟩
    obtain ⟨rfl, n, hn, hheight, hl, hr⟩ := ht
    obtain ⟨hal, har, hlnodup, hrnodup, hlr⟩ := nodup_addrs_node.mp hnodup
    have hchild := hn.get_child
    simp only [BinaryTree.height] at hfuel
    simp only [PointersOk] at hok
    simp only [freed] at hrelease
    simp only [bstDelete.node, hget, Option.bind_eq_bind, Option.bind_some, if_neg hn.addr_ne,
      deref_eq hn.addr_ne hn.node_eq, hn.id_eq, Option.pure_def]
    by_cases hlt : id < a.id
    . rw [if_pos hlt] at hok hrelease
      obtain ⟨q, s₁, p', hrec, hdeleted⟩ := ihl (hchild .child1) hl hlnodup hok.1 hal
        (show l.height < fuel by omega) hrelease
      obtain ⟨q', tree, hjoin, hdeleted'⟩ := @deletedAt_join s.tree .child1 slot a n l r _ _ q p' s₁.tree hget hn hr
        hnodup houtside hdeleted.tree (by rw [← deleted_eq]; exact hok.2) (addrs_perm l id)
      refine ⟨q', { s₁ with tree }, a.addr, ?_, ?_, ?_⟩
      . simp only [if_pos hlt, hrec, Option.bind_some]
        exact lift_some hjoin
      . simp only [unrotated, freed, if_pos hlt]
        rw [deleted_eq]
        exact hdeleted'
      . simp only [freed, if_pos hlt]
        exact hdeleted.released
    . rw [if_neg hlt] at hok hrelease
      by_cases hgt : a.id < id
      . rw [if_pos hgt] at hok hrelease
        obtain ⟨q, s₁, p', hrec, hdeleted⟩ := ihr (hchild .child2) hr hrnodup hok.1 har
          (show r.height < fuel by omega) hrelease
        obtain ⟨q', tree, hjoin, hdeleted'⟩ := @deletedAt_join s.tree .child2 slot a n r l _ _ q p' s₁.tree hget hn hl
          hnodup houtside hdeleted.tree (by rw [← deleted_eq]; exact hok.2) (addrs_perm r id)
        refine ⟨q', { s₁ with tree }, a.addr, ?_, ?_, ?_⟩
        . simp only [if_neg hlt, if_pos hgt, hrec, Option.bind_some]
          exact lift_some hjoin
        . simp only [unrotated, freed, if_neg hlt, if_pos hgt]
          rw [deleted_eq]
          exact hdeleted'
        . simp only [freed, if_neg hlt, if_pos hgt]
          exact hdeleted.released
      . rw [if_neg hgt] at hok hrelease
        simp only [if_neg hlt, if_neg hgt]
        have hperm : (addrs (.node a l r)).Perm (a.addr :: (addrs l ++ addrs r)) := by
          rw [addrs_node]
          exact List.perm_middle
        cases l with
        | nil =>
          simp only [Bst.Repr] at hl
          obtain ⟨slab, hkfree⟩ := (hrelease a.addr (List.mem_singleton_self _)).kfree_eq
          obtain ⟨q, tree, p', hremove, hdeleted⟩ := removeRoot_repr hget hr hperm hnodup houtside
          refine ⟨q, ⟨tree, slab, a.addr :: s.released⟩, p', ?_, ?_, ?_⟩
          . simp only [hl, true_or, if_true, hkfree, Option.bind_some]
            exact lift_some hremove
          . simp only [unrotated, freed, if_neg hlt, if_neg hgt]
            exact hdeleted
          . simp only [freed, if_neg hlt, if_neg hgt]
            rfl
        | node x l₁ l₂ =>
          have hl0 : n.child1 ≠ 0 := hl.ne_zero (by simp)
          cases hmin : minimum r with
          | none =>
            rw [minimum_eq_none_iff] at hmin
            subst hmin
            simp only [Bst.Repr] at hr
            rw [show addrs nil = [] from rfl, List.append_nil] at hperm
            obtain ⟨slab, hkfree⟩ := (hrelease a.addr (List.mem_singleton_self _)).kfree_eq
            obtain ⟨q, tree, p', hremove, hdeleted⟩ := removeRoot_repr hget hl hperm hnodup houtside
            refine ⟨q, ⟨tree, slab, a.addr :: s.released⟩, p', ?_, ?_, ?_⟩
            . simp only [hr, or_true, if_true, if_neg hl0, hkfree, Option.bind_some]
              apply lift_some
              simp only [if_neg hl0] at hremove
              exact hremove
            . simp only [unrotated, freed, if_neg hlt, if_neg hgt]
              exact hdeleted
            . simp only [freed, if_neg hlt, if_neg hgt]
              rfl
          | some b =>
            rw [hmin] at hok hrelease
            obtain ⟨hr0, hvalue, m, hm⟩ := exists_successor hr hmin (show r.height < fuel + 1 by omega)
            -- the node takes over the entry of its successor, which is then deleted below
            have htaken := takeOver hget hn hl hr hal har houtside hm.data_eq
            obtain ⟨q, s₁, p', hrec, hdeleted⟩ :=
              @ihr { s with tree := s.tree.set a.addr { n with id := b.id, data := m.data } } _ fuel b.id _ htaken.get_child
                htaken.right hrnodup hok.1 har (show r.height < fuel by omega)
                (fun x hx => (hrelease x hx).set hn.node_eq)
            have haddrs : addrs (.node { b with addr := a.addr } (.node x l₁ l₂) r)
                = addrs (.node a (.node x l₁ l₂) r) := by
              simp only [addrs_node]
            obtain ⟨q', tree, hjoin, hdeleted'⟩ := @deletedAt_join _ .child2 slot { b with addr := a.addr } _ r
              (.node x l₁ l₂) _ _ q p' s₁.tree htaken.get_eq htaken.node_at htaken.left (haddrs ▸ hnodup)
              (haddrs ▸ houtside) hdeleted.tree (by rw [← deleted_eq]; exact hok.2) (addrs_perm r b.id)
            rw [← deleted_eq] at hdeleted'
            refine ⟨q', { s₁ with tree }, a.addr, ?_, ?_, ?_⟩
            . simp only [hl0, hr0, or_self, if_false, hvalue, Option.bind_some,
                deref_eq hm.addr_ne hm.node_eq, hm.id_eq, hrec]
              exact lift_some hjoin
            . simp only [unrotated, freed, if_neg hlt, if_neg hgt, rootless, hmin, Option.elim_some]
              refine hdeleted'.congr htaken.root_eq ?_ haddrs
              intro q hq
              apply htaken.frame
              rintro rfl
              exact hq (by simp [addrs_node])
            . simp only [freed, if_neg hlt, if_neg hgt, hmin]
              exact hdeleted.released

/--
If `kfree` does not come back, neither does the deletion.
-/
theorem bstDelete_node_eq_none (hget : s.tree.get slot = some p) (ht : Repr s.tree p t) (hnodup : (addrs t).Nodup)
    (houtside : slot.Outside (addrs t)) (hfuel : t.height < fuel) (hx : x ∈ freed t id)
    (hfault : s.slab.kfree slabs x = none)
    : bstDelete.node slabs fuel s slot id = none := by
  induction t generalizing s slot p fuel id with
  | nil => cases hx
  | node a l r ihl ihr =>
    obtain ⟨fuel, rfl⟩ : ∃ k, fuel = k + 1 := ⟨fuel - 1, by omega⟩
    obtain ⟨rfl, n, hn, hheight, hl, hr⟩ := ht
    obtain ⟨hal, har, hlnodup, hrnodup, hlr⟩ := nodup_addrs_node.mp hnodup
    have hchild := hn.get_child
    simp only [BinaryTree.height] at hfuel
    simp only [freed] at hx
    simp only [bstDelete.node, hget, Option.bind_eq_bind, Option.bind_some, if_neg hn.addr_ne,
      deref_eq hn.addr_ne hn.node_eq, hn.id_eq, Option.pure_def]
    by_cases hlt : id < a.id
    . rw [if_pos hlt] at hx
      simp only [if_pos hlt, ihl (hchild .child1) hl hlnodup hal (show l.height < fuel by omega) hx hfault,
        Option.bind_none]
    . rw [if_neg hlt] at hx
      by_cases hgt : a.id < id
      . rw [if_pos hgt] at hx
        simp only [if_neg hlt, if_pos hgt, ihr (hchild .child2) hr hrnodup har (show r.height < fuel by omega) hx hfault,
          Option.bind_none]
      . rw [if_neg hgt] at hx
        simp only [if_neg hlt, if_neg hgt]
        have hroot (hxa : x ∈ [a.addr]) : s.kfree slabs a.addr = none := by
          obtain rfl := List.mem_singleton.mp hxa
          rw [kfree, hfault]
          rfl
        cases l with
        | nil =>
          simp only [Bst.Repr] at hl
          simp only [hl, true_or, if_true, hroot hx, Option.bind_none]
        | node y l₁ l₂ =>
          have hl0 : n.child1 ≠ 0 := hl.ne_zero (by simp)
          cases hmin : minimum r with
          | none =>
            rw [hmin] at hx
            rw [minimum_eq_none_iff] at hmin
            subst hmin
            simp only [Bst.Repr] at hr
            simp only [hr, or_true, if_true, hroot hx, Option.bind_none]
          | some b =>
            rw [hmin] at hx
            obtain ⟨hr0, hvalue, m, hm⟩ := exists_successor hr hmin (show r.height < fuel + 1 by omega)
            have htaken := takeOver hget hn hl hr hal har houtside hm.data_eq
            have hnone :=
              @ihr { s with tree := s.tree.set a.addr { n with id := b.id, data := m.data } } _ fuel b.id _ htaken.get_child
                htaken.right hrnodup har (show r.height < fuel by omega) hx hfault
            simp only [hl0, hr0, or_self, if_false, hvalue, Option.bind_some, deref_eq hm.addr_ne hm.node_eq, hm.id_eq,
              hnone, Option.bind_none]

/--
No rotation is due at the root.
-/
def RootStays (t : BinaryTree Insertion) (id : Nat) : Prop :=
  match unrotated t id with
  | .nil => True
  | .node _ l r => l.height ≤ r.height + 1 ∧ r.height ≤ l.height + 1

instance (t : BinaryTree Insertion) (id : Nat) : Decidable (RootStays t id) := by
  unfold RootStays
  split <;> infer_instance

/--
A deletion takes the entry with the identifier out of the tree, calls `kfree` with one node if there is such
an entry, and leaves a search tree that is balanced.
-/
def DeletesEntry (slabs fuel : Nat) (s : BstHeap) (t : BinaryTree Insertion) (id : Nat) : Prop :=
  ∃ v s' t' fs, s.bstDelete slabs fuel .root id = some (v, s')
    ∧ Repr s'.tree s'.tree.root t' ∧ (addrs t').Nodup ∧ Sorted Insertion.id t' ∧ SearchTree.Balanced t'
    ∧ entries t' = (entries t).filter (fun e => e.1 ≠ id)
    ∧ (addrs t).Perm (fs ++ addrs t')
    ∧ s'.released = fs ++ s.released
    ∧ (∀ q, s'.tree.node q = none ↔ s.tree.node q = none ∨ q ∈ fs)

theorem remainingOf_eq (t : BinaryTree Insertion) (id : Nat) (h : RootStays t id)
    : remainingOf (unrotated t id) = deleted t id := by
  rw [deleted_eq]
  unfold RootStays at h
  cases hv : unrotated t id with
  | nil => rfl
  | node a l r =>
    rw [hv] at h
    exact (remaining_of_balanced h.1 h.2).trans (rotated_of_balanced h.1 h.2).symm

section Delete

theorem bstDelete_linked (ht : Repr s.tree s.tree.root t) (hnodup : (addrs t).Nodup) (hok : PointersOk t id)
    (hfuel : t.height < fuel) (hrelease : ∀ x ∈ freed t id, s.ReleaseOk slabs x)
    : ∃ v s', s.bstDelete slabs fuel .root id = some (v, s')
        ∧ Repr s'.tree s'.tree.root (remainingOf (unrotated t id))
        ∧ s'.released = freed t id ++ s.released
        ∧ (∀ q, s'.tree.node q = none ↔ s.tree.node q = none ∨ q ∈ freed t id) := by
  obtain ⟨q, s', p', hdelete, hdeleted, hreleased⟩ := bstDelete_node_repr
    (show s.tree.get .root = some s.tree.root from rfl) ht hnodup hok trivial hfuel hrelease
  have hdata : ∃ v, s'.tree.nodeData q = some v := by
    cases hv : rebalanced (unrotated t id) with
    | nil =>
      have hq := hdeleted.repr
      rw [hv] at hq
      exact ⟨0, by simp only [Bst.Repr] at hq; simp [nodeData, hq]⟩
    | node o l r =>
      have hq := hdeleted.repr
      rw [hv] at hq
      obtain ⟨rfl, n, hn, -⟩ := hq
      exact ⟨n.data, by simp [nodeData, hn.addr_ne, deref_eq hn.addr_ne hn.node_eq]⟩
  obtain ⟨v, hv⟩ := hdata
  refine ⟨v, s', by simp [bstDelete, hdelete, hv], ?_, hreleased, ?_⟩
  . have hroot : s'.tree.root = p' := hdeleted.root_eq
    rw [hroot]
    exact hdeleted.linked
  . intro q
    by_cases hq : q ∈ addrs t
    . rw [hdeleted.freed_iff q hq]
      simp [ht.node_ne_none hq]
    . have hq' : q ∉ freed t id := fun h => hq ((addrs_perm t id).symm.subset (List.mem_append_left _ h))
      rw [hdeleted.frame q hq]
      simp [hq', Slot.write]

theorem deletesEntry_of_pointersOk (ht : Repr s.tree s.tree.root t) (hnodup : (addrs t).Nodup)
    (hsorted : Sorted Insertion.id t) (hbalanced : SearchTree.Balanced t) (hfuel : t.height < fuel)
    (hok : PointersOk t id) (hroot : RootStays t id) (hrelease : ∀ x ∈ freed t id, s.ReleaseOk slabs x)
    : s.DeletesEntry slabs fuel t id := by
  obtain ⟨v, s', hdelete, hrepr, hreleased, hfreed⟩ := bstDelete_linked ht hnodup hok hfuel hrelease
  rw [remainingOf_eq t id hroot] at hrepr
  have hperm := addrs_perm t id
  rw [← addrs_deleted] at hperm
  refine ⟨v, s', _, _, hdelete, hrepr, ?_, sorted_deleted hsorted, (balanced_deleted hbalanced).1,
    entries_deleted hsorted, hperm, hreleased, hfreed⟩
  exact (List.nodup_append.mp (hperm.nodup_iff.mp hnodup)).2.1

theorem pointersOk_of_ne_none (hget : s.tree.get slot = some p) (ht : Repr s.tree p t)
    (hnodup : (addrs t).Nodup) (hsorted : Sorted Insertion.id t) (hapart : DataApart s.tree t)
    (houtside : slot.Outside (addrs t)) (hfuel : t.height < fuel)
    (hrelease : ∀ x ∈ freed t id, s.ReleaseOk slabs x) (h : bstDelete.node slabs fuel s slot id ≠ none)
    : PointersOk t id := by
  induction t generalizing s slot p fuel id with
  | nil => trivial
  | node a l r ihl ihr =>
    obtain ⟨fuel, rfl⟩ : ∃ k, fuel = k + 1 := ⟨fuel - 1, by omega⟩
    obtain ⟨rfl, n, hn, hheight, hl, hr⟩ := ht
    obtain ⟨hal, har, hlnodup, hrnodup, hlr⟩ := nodup_addrs_node.mp hnodup
    obtain ⟨hlsorted, hrsorted, -, -⟩ := sorted_node.mp hsorted
    have hchild := hn.get_child
    have hlapart : DataApart s.tree l := fun o ho => hapart o (by simp [toList, ho])
    have hrapart : DataApart s.tree r := fun o ho => hapart o (by simp [toList, ho])
    have houtl : slot.Outside (a.addr :: addrs l) := by
      apply houtside.mono
      intro q hq
      simp only [addrs_node, List.mem_append, List.mem_cons] at hq ⊢
      tauto
    have houtr : slot.Outside (a.addr :: addrs r) := by
      apply houtside.mono
      intro q hq
      simp only [addrs_node, List.mem_append, List.mem_cons] at hq ⊢
      tauto
    simp only [BinaryTree.height] at hfuel
    simp only [freed] at hrelease
    simp only [bstDelete.node, hget, Option.bind_eq_bind, Option.bind_some, if_neg hn.addr_ne,
      deref_eq hn.addr_ne hn.node_eq, hn.id_eq, Option.pure_def] at h
    simp only [PointersOk]
    by_cases hlt : id < a.id
    . simp only [if_pos hlt] at h hrelease ⊢
      have hne : bstDelete.node slabs fuel s (.child .child1 a.addr) id ≠ none := by
        intro hnone
        simp [hnone] at h
      have hok := ihl (hchild .child1) hl hlnodup hlsorted hlapart hal (show l.height < fuel by omega) hrelease hne
      obtain ⟨q, s₁, p', hrec, hdeleted⟩ := bstDelete_node_repr (hchild .child1) hl hlnodup hok hal
        (show l.height < fuel by omega) hrelease
      simp only [hrec, Option.bind_some] at h
      exact ⟨hok, pointsToItself_of_below hget hn hl hlsorted hlapart hal houtl hdeleted.tree (lift_ne_none h)⟩
    . simp only [if_neg hlt] at h hrelease ⊢
      by_cases hgt : a.id < id
      . simp only [if_pos hgt] at h hrelease ⊢
        have hne : bstDelete.node slabs fuel s (.child .child2 a.addr) id ≠ none := by
          intro hnone
          simp [hnone] at h
        have hok := ihr (hchild .child2) hr hrnodup hrsorted hrapart har (show r.height < fuel by omega) hrelease hne
        obtain ⟨q, s₁, p', hrec, hdeleted⟩ := bstDelete_node_repr (hchild .child2) hr hrnodup hok har
          (show r.height < fuel by omega) hrelease
        simp only [hrec, Option.bind_some] at h
        exact ⟨hok, pointsToItself_of_below hget hn hr hrsorted hrapart har houtr hdeleted.tree (lift_ne_none h)⟩
      . simp only [if_neg hgt] at h hrelease ⊢
        cases l with
        | nil => trivial
        | node x l₁ l₂ =>
          cases hmin : minimum r with
          | none => trivial
          | some b =>
            rw [hmin] at hrelease
            have hl0 : n.child1 ≠ 0 := hl.ne_zero (by simp)
            obtain ⟨hr0, hvalue, m, hm⟩ := exists_successor hr hmin (show r.height < fuel + 1 by omega)
            have htaken := takeOver hget hn hl hr hal har houtside hm.data_eq
            simp only [hl0, hr0, or_self, if_false, hvalue, Option.bind_some,
              deref_eq hm.addr_ne hm.node_eq, hm.id_eq] at h
            have hapart₀ : DataApart (s.tree.set a.addr { n with id := b.id, data := m.data }) r := by
              intro o ho
              obtain ⟨hd, hnone⟩ := hrapart o ho
              have hda : o.data ≠ a.addr := by
                intro heq
                simp [heq, hn.node_eq] at hnone
              exact ⟨hd, (htaken.frame _ hda).trans hnone⟩
            let s₀ : BstHeap := { s with tree := s.tree.set a.addr { n with id := b.id, data := m.data } }
            have hrelease₀ : ∀ x ∈ freed r b.id, s₀.ReleaseOk slabs x := fun x hx => (hrelease x hx).set hn.node_eq
            have hok : PointersOk r b.id := @ihr s₀ _ fuel b.id _ htaken.get_child htaken.right hrnodup hrsorted
              hapart₀ har (show r.height < fuel by omega) hrelease₀ (by
                intro hnone
                simp [s₀, hnone] at h)
            obtain ⟨q, s₁, p', hrec, hdeleted⟩ := @bstDelete_node_repr s₀ _ _ slabs fuel b.id _ htaken.get_child
              htaken.right hrnodup hok har (show r.height < fuel by omega) hrelease₀
            simp only [s₀] at hrec
            simp only [hrec, Option.bind_some] at h
            exact ⟨hok, @pointsToItself_of_below _ r b.id s₁.tree .child2 slot { b with addr := a.addr } _ _ q p'
              htaken.get_eq htaken.node_at htaken.right hrsorted hapart₀ har houtr hdeleted.tree (lift_ne_none h)⟩

theorem rootStays_of_deletesEntry (ht : Repr s.tree s.tree.root t) (hnodup : (addrs t).Nodup)
    (hsorted : Sorted Insertion.id t) (hfuel : t.height < fuel) (hok : PointersOk t id)
    (hrelease : ∀ x ∈ freed t id, s.ReleaseOk slabs x) (h : s.DeletesEntry slabs fuel t id)
    : RootStays t id := by
  obtain ⟨v, s', hdelete, hrepr, -⟩ := bstDelete_linked ht hnodup hok hfuel hrelease
  obtain ⟨v', s'', t', fs, hdelete', hrepr', -, -, -, hentries, -⟩ := h
  rw [hdelete, Option.some.injEq, Prod.mk.injEq] at hdelete'
  obtain ⟨-, rfl⟩ := hdelete'
  -- a rotation at the root would lose an entry
  rw [← hrepr.unique hrepr', ← entries_deleted hsorted, deleted_eq] at hentries
  have hlength := congrArg List.length hentries
  simp only [entries, List.length_map, toList_rebalanced] at hlength
  unfold RootStays
  cases hv : unrotated t id with
  | nil => trivial
  | node a l r =>
    rw [hv] at hlength
    apply @balanced_of_length_remaining Insertion a
    simp only [remainingOf, toList, List.length_append, List.length_cons] at hlength
    omega

theorem kfree_of_deletesEntry (ht : Repr s.tree s.tree.root t) (hnodup : (addrs t).Nodup) (hfuel : t.height < fuel)
    (h : s.DeletesEntry slabs fuel t id) (hx : x ∈ freed t id)
    : (s.slab.kfree slabs x).isSome := by
  obtain ⟨v, s', t', fs, hdelete, -⟩ := h
  by_contra hfault
  rw [Option.not_isSome_iff_eq_none] at hfault
  have hnone := bstDelete_node_eq_none (show s.tree.get .root = some s.tree.root from rfl) ht hnodup trivial hfuel hx
    hfault
  simp [bstDelete, hnone] at hdelete

/--
If the pointers that are stored on the way are right, the root stays and `kfree` leaves the other nodes alone, then a
deletion is one from an AVL tree. `kfree` has to come back. Where it leaves the other nodes alone, the root has to stay,
and where no data pointer points to a node, the pointers have to be right.
-/
theorem bstDelete_deletesEntry (ht : Repr s.tree s.tree.root t) (hnodup : (addrs t).Nodup)
    (hsorted : Sorted Insertion.id t) (hbalanced : SearchTree.Balanced t) (hfuel : t.height < fuel)
    : ((∀ x ∈ freed t id, s.ReleaseOk slabs x) ∧ PointersOk t id ∧ RootStays t id → s.DeletesEntry slabs fuel t id)
        ∧ (s.DeletesEntry slabs fuel t id
          → (∀ x ∈ freed t id, (s.slab.kfree slabs x).isSome)
            ∧ ((∀ x ∈ freed t id, s.ReleaseOk slabs x) → PointersOk t id ∨ DataApart s.tree t
              → PointersOk t id ∧ RootStays t id)) := by
  constructor
  . rintro ⟨hrelease, hok, hroot⟩
    exact deletesEntry_of_pointersOk ht hnodup hsorted hbalanced hfuel hok hroot hrelease
  . intro h
    refine ⟨fun x hx => kfree_of_deletesEntry ht hnodup hfuel h hx, fun hrelease hdata => ?_⟩
    have hok : PointersOk t id := by
      rcases hdata with hok | hapart
      . exact hok
      . apply pointersOk_of_ne_none (show s.tree.get .root = some s.tree.root from rfl) ht hnodup hsorted hapart
          trivial hfuel hrelease
        intro hnone
        obtain ⟨v, s', t', fs, hdelete, -⟩ := h
        simp [bstDelete, hnone] at hdelete
    exact ⟨hok, rootStays_of_deletesEntry ht hnodup hsorted hfuel hok hrelease h⟩

/--
The allocator after `slab_init` and the allocation of `k` nodes.
-/
def exampleSlab (k : Nat) : Option SlabMem :=
  (Run.run (SlabHeap.step 13) ⟨SlabHeap.booted, [], []⟩ (List.replicate k (.kmalloc 24 0xC0201000))).map SlabHeap.mem

/--
What `kmalloc` has returned for three nodes.
-/
def three : BinaryTree Insertion :=
  .node ⟨0xC020133C, 0xC0107000, 4⟩ (.node ⟨0xC020135C, 0xC0107010, 2⟩ .nil .nil)
    (.node ⟨0xC020137C, 0xC0107020, 6⟩ .nil .nil)

def threeNodes : Bst :=
  let s := empty.set 0xC020133C ⟨0, 0xC020135C, 0xC020137C, 4, 0xC0107000, 1⟩
  let s := s.set 0xC020135C ⟨0xC020133C, 0, 0, 2, 0xC0107010, 0⟩
  { s.set 0xC020137C ⟨0xC020133C, 0, 0, 6, 0xC0107020, 0⟩ with root := 0xC020133C }

theorem repr_threeNodes : Repr threeNodes 0xC020133C three := by
  have hnode (a d id h p l r : Nat) (hne : a ≠ 0) (hn : threeNodes.node a = some ⟨p, l, r, id, d, h⟩)
      : NodeAt threeNodes ⟨a, d, id⟩ ⟨p, l, r, id, d, h⟩ := ⟨hne, hn, rfl, rfl⟩
  exact ⟨rfl, _, hnode _ _ _ 1 _ _ _ (by decide) rfl, rfl,
    ⟨rfl, _, hnode _ _ _ 0 _ _ _ (by decide) rfl, rfl, rfl, rfl⟩,
    ⟨rfl, _, hnode _ _ _ 0 _ _ _ (by decide) rfl, rfl, rfl, rfl⟩⟩

theorem mem_of_threeNodes (hq : threeNodes.node q ≠ none) : q ∈ [0xC020133C, 0xC020135C, 0xC020137C] := by
  by_contra hnot
  simp only [List.mem_cons, List.not_mem_nil, or_false, not_or] at hnot
  exact hq (by simp [threeNodes, Bst.set, empty, hnot])

/--
The root of three nodes takes over its successor's entry.
-/
theorem bstDelete_deletesEntry_three
    : ∃ slab, exampleSlab 3 = some slab ∧ DeletesEntry 1 3 ⟨threeNodes, slab, []⟩ three 4 := by
  obtain ⟨slab, hslab⟩ := Option.isSome_iff_exists.mp (show (exampleSlab 3).isSome by decide +kernel)
  refine ⟨slab, hslab, ?_⟩
  have hfree : (exampleSlab 3).map (fun slab => decide ((slab.kfree 1 0xC020137C).isSome
      ∧ ∀ q ∈ [0xC020133C, 0xC020135C, 0xC020137C], q ≠ 0xC020137C
        → WordStore.Miss (slab.kfreeStores 1 0xC020137C) q 24)) = some true := by
    decide +kernel
  rw [hslab, Option.map_some, Option.some.injEq, decide_eq_true_iff] at hfree
  apply (bstDelete_deletesEntry repr_threeNodes (by decide) (by simp [Sorted, toList, three]) (by decide)
    (by decide)).1
  refine ⟨?_, ⟨trivial, trivial⟩, by decide⟩
  have hfreed : freed three 4 = [0xC020137C] := rfl
  intro x hx
  rw [hfreed, List.mem_singleton] at hx
  subst hx
  exact ⟨hfree.1, fun q hq hne => hfree.2 q (mem_of_threeNodes hne) hq⟩

/--
What `kmalloc` has returned for four nodes.
-/
def unlucky : List Insertion :=
  [⟨0xC020133C, 0, 3⟩, ⟨0xC020135C, 0, 2⟩, ⟨0xC020137C, 0, 4⟩, ⟨0xC020139C, 0, 1⟩]

/--
The deletion of 1 returns the data pointer of 2 to 3, which stores it as its child.
-/
theorem not_deletesEntry
    : ∃ tree slab, insertAll 5 unlucky = some tree ∧ exampleSlab 4 = some slab
        ∧ Repr tree tree.root (linked unlucky)
        ∧ (addrs (linked unlucky)).Nodup ∧ Sorted Insertion.id (linked unlucky)
        ∧ SearchTree.Balanced (linked unlucky)
        ∧ ¬ DeletesEntry 1 5 ⟨tree, slab, []⟩ (linked unlucky) 1 := by
  have hfresh : FreshAddrs unlucky := ⟨by decide, by decide⟩
  obtain ⟨tree, hrun, hrepr⟩ := @insertAll_repr unlucky 5 hfresh (by decide)
  obtain ⟨slab, hslab⟩ := Option.isSome_iff_exists.mp (show (exampleSlab 4).isSome by decide +kernel)
  refine ⟨tree, slab, hrun, hslab, hrepr, nodup_linked hfresh.2, sorted_linked _, by decide +kernel, ?_⟩
  rintro ⟨v, s', t', fs, hdelete, ht', -, -, -, hentries, -⟩
  have hlost : (insertAll 5 unlucky).bind (fun tree => (exampleSlab 4).bind (fun slab =>
      (bstDelete 1 5 ⟨tree, slab, []⟩ .root 1).bind
        (fun r => (r.2.tree.deref r.2.tree.root).map (fun n => (n.id, n.child1))))) = some (3, 0) := by
    decide +kernel
  rw [hrun, Option.bind_some, hslab, Option.bind_some, hdelete, Option.bind_some] at hlost
  have hleft : (entries (linked unlucky)).filter (fun e => e.1 ≠ 1) = [(2, 0), (3, 0), (4, 0)] := by
    decide +kernel
  rw [hleft] at hentries
  cases t' with
  | nil => simp [entries, toList] at hentries
  | node o l r =>
    obtain ⟨hroot, n, hn, -, hl, -⟩ := ht'
    rw [hroot, deref_eq hn.addr_ne hn.node_eq, Option.map_some, Option.some.injEq, Prod.mk.injEq]
      at hlost
    obtain ⟨hid, hchild⟩ := hlost
    have hnil : l = nil := by
      by_contra hne
      exact hl.ne_zero hne hchild
    rw [hnil, entries_node, ← hn.id_eq, hid] at hentries
    simp [entries, toList] at hentries

end Delete

end BstHeap
end Osproj
