import Osproj.Lib.Lemmas.BstBalance

/-!
This module contains the `parent` fields after any sequence of insertions. A rotation sets none of them: the subtree
that it moves keeps the parent that it had, so that the fields are right as long as no rotation moves anything.
-/

namespace Osproj
namespace LinkedTree

open BinaryTree SearchTree

section Moved

variable {α κ : Type} [LinearOrder κ] {key : α → κ} {a b : α} {l r t : BinaryTree α}

/--
`u` is what lies beside a subtree that the insertion of `b` makes `h` high out of `t`: if a rotation is due, then the
part that it moves is empty.
-/
def MovesNothingBeside (key : α → κ) (b : α) (side : Side) (t : BinaryTree α) (h : Nat) (u : BinaryTree α) : Prop :=
  (u.height + 1 < h → kept side (SearchTree.insert key b t) = nil) ∧ (h + 1 < u.height → kept side.other u = nil)

def MovesNothing (key : α → κ) (b : α) : BinaryTree α → Prop
  | nil => True
  | node a l r =>
    if key b < key a then MovesNothing key b l ∧ MovesNothingBeside key b .child1 l (heightAfter key b l) r
    else if key a < key b then MovesNothing key b r ∧ MovesNothingBeside key b .child2 r (heightAfter key b r) l
    else True

theorem MovesNothing.keepsBalance (h : MovesNothing key b t) : KeepsBalance key b t := by
  have hbeside {side : Side} {t u : BinaryTree α} {n : Nat} (h : MovesNothingBeside key b side t n u)
      : KeepsBeside side n u := by
    intro hlow
    rw [h.2 hlow]
    exact Nat.zero_le _
  induction t with
  | nil => trivial
  | node a l r ihl ihr =>
    simp only [MovesNothing, KeepsBalance] at h ⊢
    split
    . next hlt =>
      rw [if_pos hlt] at h
      exact ⟨ihl h.1, hbeside h.2⟩
    . next hlt =>
      rw [if_neg hlt] at h
      split
      . next hgt =>
        rw [if_pos hgt] at h
        exact ⟨ihr h.1, hbeside h.2⟩
      . trivial

theorem height_remainingAt_le (side : Side) (a : α) {t' u : BinaryTree α} (h : t'.height ≤ t.height + 1)
    (hrotates : u.height + 1 < t'.height ∨ t'.height + 1 < u.height ∨ t'.height ≤ t.height)
    : (remainingAt side a t' u).height ≤ (join side a t u).height := by
  rw [remainingAt_eq, height_join]
  split
  . next hhigh =>
    have hne : t' ≠ nil := by
      rintro rfl
      simp at hhigh
    have hkept := height_kept_lt side hne
    rw [height_join]
    omega
  . split
    . next hlow =>
      have hne : u ≠ nil := by
        rintro rfl
        simp at hlow
      have hkept := height_kept_lt side.other hne
      rw [height_join]
      omega
    . rw [height_join]
      omega

theorem insertLinked_grows (key : α → κ) (b : α) (t : BinaryTree α)
    : (insertLinked key b t).height ≤ t.height + 1
        ∧ (t.height < (insertLinked key b t).height → insertLinked key b t = SearchTree.insert key b t) := by
  have hstep (side : Side) (a : α) {t t' t'' u : BinaryTree α} (ht : t'.height ≤ t.height + 1)
      (heq : t.height < t'.height → t' = t'')
      : (remainingAt side a t' u).height ≤ (join side a t u).height + 1
          ∧ ((join side a t u).height < (remainingAt side a t' u).height →
              remainingAt side a t' u = join side a t'' u) := by
    by_cases hrotates : u.height + 1 < t'.height ∨ t'.height + 1 < u.height ∨ t'.height ≤ t.height
    . have hle := height_remainingAt_le side a ht hrotates
      exact ⟨by omega, by omega⟩
    . have hkeep : remainingAt side a t' u = join side a t' u := by
        rw [remainingAt_eq, if_neg (by omega), if_neg (by omega)]
      rw [hkeep, height_join, height_join]
      refine ⟨by omega, fun _ => ?_⟩
      rw [heq (by omega)]
  induction t with
  | nil => exact ⟨Nat.le_refl 1, fun _ => rfl⟩
  | node a l r ihl ihr =>
    simp only [insertLinked_node, SearchTree.insert]
    split
    . exact hstep .child1 a ihl.1 ihl.2
    . split
      . exact hstep .child2 a ihr.1 ihr.2
      . exact ⟨Nat.le_succ _, fun _ => rfl⟩

end Moved

end LinkedTree

namespace Bst

open BinaryTree SearchTree LinkedTree

section Parented

variable {s s' : Bst} {side : Side} {a o : Insertion} {t t' u : BinaryTree Insertion} {p q parent : Nat}

def parentAt (s : Bst) (p : Nat) : Option Nat := (s.node p).map BstNode.parent

/--
The `parent` field of every node is the node above it in the tree, and `parent` for the node on top.
-/
def Parented (s : Bst) (parent : Nat) : BinaryTree Insertion → Prop
  | .nil => True
  | .node o l r => s.parentAt o.addr = some parent ∧ Parented s o.addr l ∧ Parented s o.addr r

theorem parented_join
    : Parented s parent (join side o t u)
        ↔
      s.parentAt o.addr = some parent ∧ Parented s o.addr t ∧ Parented s o.addr u := by
  cases side with
  | child1 => rfl
  | child2 =>
    simp only [join, Parented]
    tauto

theorem Parented.congr (h : Parented s parent t) (hsame : ∀ q ∈ addrs t, s'.parentAt q = s.parentAt q)
    : Parented s' parent t := by
  induction t generalizing parent with
  | nil => trivial
  | node o l r ihl ihr =>
    refine ⟨?_, ihl h.2.1 ?_, ihr h.2.2 ?_⟩
    . rw [hsame _ (mem_addrs_node.mpr (Or.inl rfl))]
      exact h.1
    . intro q hq
      exact hsame q (mem_addrs_node.mpr (Or.inr (Or.inl hq)))
    . intro q hq
      exact hsame q (mem_addrs_node.mpr (Or.inr (Or.inr hq)))

theorem parented_kept_iff (h : Parented s parent t) (ht : t ≠ nil) (hparent : parent ∉ addrs t)
    : Parented s parent (kept side t) ↔ kept side t = nil := by
  obtain ⟨x, outer, inner, rfl⟩ := exists_join side ht
  obtain ⟨-, -, hinner⟩ := parented_join.mp h
  have hmem {q : Nat} := @mem_addrs_join side x outer inner q
  have htop {q : Nat} {t : BinaryTree Insertion} (hq : Parented s q t) (hparented : Parented s parent t)
      (hne : q ≠ parent)
      : t = nil := by
    cases t with
    | nil => rfl
    | node z c d =>
      have hparent := hq.1
      rw [hparented.1, Option.some.injEq] at hparent
      exact absurd hparent.symm hne
  constructor
  . intro hkept
    by_cases hdouble : outer.height < inner.height
    . have hne : inner ≠ nil := by
        rintro rfl
        simp at hdouble
      obtain ⟨z, c, d, rfl⟩ := exists_join side hne
      rw [kept_of_inner hdouble] at hkept ⊢
      apply htop (parented_join.mp hinner).2.2 hkept
      rintro rfl
      exact hparent (hmem.mpr (Or.inr (Or.inr (mem_addrs_join.mpr (Or.inl rfl)))))
    . rw [kept_of_outer hdouble] at hkept ⊢
      apply htop hinner hkept
      rintro rfl
      exact hparent (hmem.mpr (Or.inl rfl))
  . intro hnil
    rw [hnil]
    trivial

theorem parented_remainingAt_iff (hbalanced : SearchTree.Balanced (join side a t u))
    (ha : s.parentAt a.addr = some parent)
    (ht : Parented s a.addr (SearchTree.insert Insertion.id o t)) (hu : Parented s a.addr u)
    (hat : a.addr ∉ addrs (SearchTree.insert Insertion.id o t)) (hau : a.addr ∉ addrs u)
    (ih : Parented s a.addr (insertLinked Insertion.id o t) ↔ MovesNothing Insertion.id o t)
    : Parented s parent (remainingAt side a (insertLinked Insertion.id o t) u)
        ↔
      MovesNothing Insertion.id o t
        ∧ MovesNothingBeside Insertion.id o side t (heightAfter Insertion.id o t) u := by
  obtain ⟨htu, hut, htbalanced, -⟩ := (balanced_join side a t u).mp hbalanced
  have hheight (h : MovesNothing Insertion.id o t)
      : (insertLinked Insertion.id o t).height = heightAfter Insertion.id o t :=
    ((outcome_insertLinked Insertion.id o htbalanced).balanced h.keepsBalance).2
  rw [remainingAt_eq]
  split
  . next hhigh =>
    -- the subtree has grown, so that all rotations below moved nothing
    have heq := (insertLinked_grows Insertion.id o t).2 (by omega)
    have hmoves := ih.mp (by rw [heq]; exact ht)
    have hheight := hheight hmoves
    rw [parented_join, parented_kept_iff (by rw [heq]; exact ht) (insertLinked_ne_nil o t) (by rw [heq]; exact hat),
      heq]
    constructor
    . rintro ⟨-, hkept, -⟩
      exact ⟨hmoves, fun _ => hkept, fun hlow => absurd hlow (by omega)⟩
    . rintro ⟨-, hbeside⟩
      exact ⟨ha, hbeside.1 (by omega), hu⟩
  . next hhigh =>
    split
    . next hlow =>
      have hne : u ≠ nil := by
        rintro rfl
        simp at hlow
      rw [parented_join, ih, parented_kept_iff hu hne hau]
      constructor
      . rintro ⟨-, hmoves, hkept⟩
        have hheight := hheight hmoves
        exact ⟨hmoves, fun hhigh' => absurd hhigh' (by omega), fun _ => hkept⟩
      . rintro ⟨hmoves, hbeside⟩
        have hheight := hheight hmoves
        exact ⟨ha, hmoves, hbeside.2 (by omega)⟩
    . next hlow =>
      rw [parented_join, ih]
      constructor
      . rintro ⟨-, hmoves, -⟩
        have hheight := hheight hmoves
        exact ⟨hmoves, fun hhigh' => absurd hhigh' (by omega), fun hlow' => absurd hlow' (by omega)⟩
      . rintro ⟨hmoves, -⟩
        exact ⟨ha, hmoves, hu⟩

/--
If the parents are right for a plain insertion, then they are right for what stays linked exactly if no rotation moves
anything.
-/
theorem parented_insertLinked_iff (hbalanced : SearchTree.Balanced t)
    (hnodup : (addrs (SearchTree.insert Insertion.id o t)).Nodup)
    (h : Parented s parent (SearchTree.insert Insertion.id o t))
    : Parented s parent (insertLinked Insertion.id o t) ↔ MovesNothing Insertion.id o t := by
  induction t generalizing parent with
  | nil => exact iff_of_true h trivial
  | node a l r ihl ihr =>
    simp only [SearchTree.insert, insertLinked_node, MovesNothing] at h hnodup ⊢
    split
    . next hlt =>
      rw [if_pos hlt] at h hnodup
      obtain ⟨hat, hau, hlnodup, -⟩ := nodup_addrs_node.mp hnodup
      exact @parented_remainingAt_iff s .child1 a o l r parent hbalanced h.1 h.2.1 h.2.2 hat hau
        (ihl hbalanced.2.2.1 hlnodup h.2.1)
    . next hlt =>
      rw [if_neg hlt] at h hnodup
      split
      . next hgt =>
        rw [if_pos hgt] at h hnodup
        obtain ⟨hau, hat, -, hrnodup, -⟩ := nodup_addrs_node.mp hnodup
        exact @parented_remainingAt_iff s .child2 a o r l parent hbalanced h.1 h.2.2 h.2.1 hat hau
          (ihr hbalanced.2.2.2 hrnodup h.2.2)
      . next hgt =>
        rw [if_neg hgt] at h
        exact iff_of_true h trivial

end Parented

section SameParents

variable {s s' : Bst} {side : Side} {slot : Slot} {n n' : BstNode} {p q v : Nat}

def SameParents (s s' : Bst) : Prop := ∀ p, s'.parentAt p = s.parentAt p

theorem SameParents.trans {s'' : Bst} (h : SameParents s s') (h' : SameParents s' s'') : SameParents s s'' := by
  intro p
  rw [h' p, h p]

theorem node_of_deref (h : s.deref p = some n) : p ≠ 0 ∧ s.node p = some n := by
  rw [deref] at h
  split at h
  . cases h
  . next hp => exact ⟨hp, h⟩

theorem sameParents_set (hn : s.deref p = some n) (hparent : n'.parent = n.parent) : SameParents s (s.set p n') := by
  intro q
  by_cases hq : q = p
  . rw [hq, parentAt, parentAt, node_set_self, (node_of_deref hn).2, Option.map_some, Option.map_some, hparent]
  . rw [parentAt, parentAt, node_set_of_ne _ _ hq]

theorem parent_setChild (n : BstNode) (side : Side) (p : Nat) : (n.setChild side p).parent = n.parent := by
  cases side <;> rfl

theorem sameParents_write (slot : Slot) (v : Nat) (s : Bst) : SameParents s (slot.write v s) := by
  intro q
  cases slot with
  | root => rfl
  | child side p =>
    simp only [parentAt, Slot.write]
    split
    . cases s.node q with
      | none => rfl
      | some n => simp [parent_setChild]
    . rfl

theorem sameParents_updateHeight (h : s.updateHeight p = some s') : SameParents s s' := by
  simp only [updateHeight, Option.bind_eq_bind, Option.bind_eq_some_iff] at h
  obtain ⟨n, hn, h1, -, h2, -, heq⟩ := h
  rw [← Option.some.inj heq]
  exact sameParents_set hn rfl

/--
The source forgets this: a rotation sets no parent.
-/
theorem sameParents_rotate (h : s.rotate side p = some (q, s')) : SameParents s s' := by
  simp only [rotate, Option.bind_eq_bind, Option.bind_eq_some_iff] at h
  obtain ⟨n, hn, x, hx, x', hx', y, hy, s₁, h₁, s₂, h₂, heq⟩ := h
  rw [← (Prod.mk.inj (Option.some.inj heq)).2]
  apply SameParents.trans (sameParents_set hx' (parent_setChild _ _ _))
  apply SameParents.trans (sameParents_set hy (parent_setChild _ _ _))
  exact SameParents.trans (sameParents_updateHeight h₁) (sameParents_updateHeight h₂)

theorem sameParents_rotateHeavy {inner : Int → Bool} (h : s.rotateHeavy side inner p = some (q, s'))
    : SameParents s s' := by
  simp only [rotateHeavy, Option.bind_eq_bind, Option.bind_eq_some_iff] at h
  obtain ⟨n, hn, factor, hfactor, h⟩ := h
  split at h
  . simp only [Option.bind_eq_some_iff] at h
    obtain ⟨⟨child, s₁⟩, hrotate, n₁, hn₁, h⟩ := h
    apply SameParents.trans (sameParents_rotate hrotate)
    exact SameParents.trans (sameParents_set hn₁ (parent_setChild _ _ _)) (sameParents_rotate h)
  . exact sameParents_rotate h

theorem sameParents_rebalance (h : s.rebalance slot = some (q, s')) : SameParents s s' := by
  simp only [rebalance, Option.bind_eq_bind, Option.bind_eq_some_iff] at h
  obtain ⟨root, -, s₁, hupdate, root', -, h⟩ := h
  apply SameParents.trans (sameParents_updateHeight hupdate)
  simp only [balance, Option.bind_eq_bind, Option.bind_eq_some_iff] at h
  obtain ⟨factor, -, h⟩ := h
  split at h
  . exact sameParents_rotateHeavy h
  . split at h
    . exact sameParents_rotateHeavy h
    . rw [← (Prod.mk.inj (Option.some.inj h)).2]
      exact fun _ => rfl

theorem parentAt_relink (h : ((s.setParent slot side).bind fun s => s.rebalance slot) = some (q, s'))
    (hget : s.get slot = some p) (hn : s.deref p = some n) (x : Nat)
    : s'.parentAt x = if x = n.child side then some p else s.parentAt x := by
  obtain ⟨s₁, hset, hrebalance⟩ := Option.bind_eq_some_iff.mp h
  rw [sameParents_rebalance hrebalance x]
  simp only [setParent, hget, hn, Option.bind_eq_bind, Option.bind_some, Option.bind_eq_some_iff] at hset
  obtain ⟨m, -, heq⟩ := hset
  rw [← Option.some.inj heq]
  split
  . next hx => rw [hx, parentAt, node_set_self, Option.map_some]
  . next hx => rw [parentAt, node_set_of_ne _ _ hx, parentAt]

end SameParents

section Insert

variable {s s' s₁ : Bst} {o a : Insertion} {t u : BinaryTree Insertion} {slot : Slot} {p q fuel : Nat}

def ParentedBelow (s : Bst) : BinaryTree Insertion → Prop
  | .nil => True
  | .node o l r => Parented s o.addr l ∧ Parented s o.addr r

theorem top_insert (o : Insertion) (t : BinaryTree Insertion)
    : ∃ b l r l' r', insertLinked Insertion.id o t = .node b l r
        ∧ SearchTree.insert Insertion.id o t = .node b l' r' := by
  cases t with
  | nil => exact ⟨o, .nil, .nil, .nil, .nil, rfl, rfl⟩
  | node a l r =>
    simp only [insertLinked, SearchTree.insert, remaining]
    refine ⟨a, ?_⟩
    split
    . split
      . exact ⟨_, _, _, _, rfl, rfl⟩
      . split <;> exact ⟨_, _, _, _, rfl, rfl⟩
    . split
      . split
        . exact ⟨_, _, _, _, rfl, rfl⟩
        . split <;> exact ⟨_, _, _, _, rfl, rfl⟩
      . exact ⟨_, _, _, _, rfl, rfl⟩

theorem addrs_insert_subset (o : Insertion) (t : BinaryTree Insertion)
    : addrs (SearchTree.insert Insertion.id o t) ⊆ o.addr :: addrs t := by
  intro q hq
  obtain ⟨x, hx, rfl⟩ := List.mem_map.mp hq
  have hmem : x.addr ∈ (o :: toList t).map Insertion.addr :=
    List.mem_map_of_mem ((toList_insert_subperm o t).subset hx)
  exact hmem

theorem nodup_addrs_insert (hfresh : o.addr ∉ addrs t) (hnodup : (addrs t).Nodup)
    : (addrs (SearchTree.insert Insertion.id o t)).Nodup := by
  obtain ⟨os, hperm, hsub⟩ := @toList_insert_subperm Insertion Nat _ Insertion.id o t
  apply ((hperm.map Insertion.addr).nodup_iff).mp
  apply (hsub.map Insertion.addr).nodup
  exact List.nodup_cons.mpr ⟨hfresh, hnodup⟩

theorem relink_parented {side : Side} {n : BstNode} {v : Nat} (hget : s.get slot = some a.addr) (hn : NodeAt s a n)
    (hnodup : (addrs (join side a t u)).Nodup) (hfresh : o.addr ∉ addrs (join side a t u))
    (houtside : slot.Outside (o.addr :: addrs (join side a t u)))
    (hv : Repr s₁ v (insertLinked Insertion.id o t)) (hroot : s₁.root = s.root)
    (hframe : ∀ q, q ∉ o.addr :: addrs t → s₁.node q = ((Slot.child side a.addr).write v s).node q)
    (h : ((s₁.setParent slot side).bind fun s => s.rebalance slot) = some (q, s'))
    (hbelow : ParentedBelow s₁ (SearchTree.insert Insertion.id o t)) (hu : Parented s a.addr u)
    : s'.parentAt a.addr = s.parentAt a.addr ∧ Parented s' a.addr (SearchTree.insert Insertion.id o t)
        ∧ Parented s' a.addr u := by
  obtain ⟨haps, hups⟩ := beside_of_fresh hnodup hfresh
  obtain ⟨-, -, htnodup, -⟩ := nodup_addrs_join.mp hnodup
  have hot : o.addr ∉ addrs t := fun h => hfresh (mem_addrs_join.mpr (Or.inr (Or.inl h)))
  have hnode₁ : s₁.node a.addr = some (n.setChild side v) := by
    rw [hframe _ haps]
    simp [Slot.write, hn.node_eq]
  have hget₁ : s₁.get slot = some a.addr := by
    apply get_of_frame hget houtside.path
    . rw [write_get hget]
      exact hroot
    . intro q hq
      rw [List.mem_cons, not_or] at hq
      rw [write_get hget, hframe q hq.2]
      simp [Slot.write, hq.1]
  have hparent (x : Nat) := parentAt_relink h hget₁ (deref_eq hn.addr_ne hnode₁) x
  rw [child_setChild] at hparent
  have hsame (x : Nat) (hx : x ∉ o.addr :: addrs t) : s₁.parentAt x = s.parentAt x := by
    rw [parentAt, hframe x hx]
    exact sameParents_write _ _ s x
  -- the child on the search path is the top of both trees
  obtain ⟨b, l, r, l', r', hlinked, hinsert⟩ := top_insert o t
  rw [hlinked] at hv
  obtain ⟨rfl, -⟩ := hv
  have hnodup' := nodup_addrs_insert hot htnodup
  have hsub := addrs_insert_subset o t
  rw [hinsert] at hnodup' hsub hbelow ⊢
  obtain ⟨hbl, hbr, -⟩ := nodup_addrs_node.mp hnodup'
  have hb : b.addr ∈ o.addr :: addrs t := hsub (mem_addrs_node.mpr (Or.inl rfl))
  refine ⟨?_, ⟨?_, ?_, ?_⟩, ?_⟩
  . rw [hparent, if_neg (ne_of_mem_of_not_mem hb haps).symm, hsame _ haps]
  . rw [hparent, if_pos rfl]
  . apply hbelow.1.congr
    intro q hq
    rw [hparent, if_neg (ne_of_mem_of_not_mem hq hbl)]
  . apply hbelow.2.congr
    intro q hq
    rw [hparent, if_neg (ne_of_mem_of_not_mem hq hbr)]
  . apply hu.congr
    intro q hq
    rw [hparent, if_neg (ne_of_mem_of_not_mem hb (hups q hq)).symm, hsame q (hups q hq)]

theorem Parented.below {parent : Nat} (h : Parented s parent t) : ParentedBelow s t := by
  cases t with
  | nil => trivial
  | node a l r => exact h.2

theorem bstInsert_parented (hget : s.get slot = some p) (ht : Repr s p t) (hnodup : (addrs t).Nodup) (ho : o.addr ≠ 0)
    (hfresh : o.addr ∉ addrs t) (houtside : slot.Outside (o.addr :: addrs t)) (hfuel : t.height < fuel)
    (hbelow : ParentedBelow s t) (h : bstInsert o fuel s slot = some (q, s'))
    : ParentedBelow s' (SearchTree.insert Insertion.id o t)
        ∧ (if p = 0 then s'.parentAt o.addr = some 0 else s'.parentAt p = s.parentAt p) := by
  induction t generalizing s slot p fuel q s' with
  | nil =>
    obtain ⟨fuel, rfl⟩ : ∃ k, fuel = k + 1 := ⟨fuel - 1, by omega⟩
    obtain rfl : p = 0 := ht
    simp only [bstInsert, hget, Option.bind_eq_bind, Option.bind_some, if_true, put_eq hget, if_neg ho] at h
    rw [← (Prod.mk.inj (Option.some.inj h)).2, if_pos rfl, parentAt, node_set_self]
    exact ⟨⟨trivial, trivial⟩, rfl⟩
  | node a l r ihl ihr =>
    obtain ⟨fuel, rfl⟩ : ∃ k, fuel = k + 1 := ⟨fuel - 1, by omega⟩
    obtain ⟨rfl, n, hn, -, hl, hr⟩ := ht
    obtain ⟨hal, har, hlnodup, hrnodup, -⟩ := nodup_addrs_node.mp hnodup
    have hfresh' := hfresh
    rw [mem_addrs_node, not_or, not_or] at hfresh'
    obtain ⟨hoa, hol, hor⟩ := hfresh'
    have hslot (side : Side) {t : BinaryTree Insertion} := @Slot.outside_child o a t side hoa
    simp only [BinaryTree.height] at hfuel
    simp only [bstInsert, hget, Option.bind_eq_bind, Option.bind_some, if_neg hn.addr_ne,
      deref_eq hn.addr_ne hn.node_eq, hn.id_eq] at h
    rw [if_neg hn.addr_ne, SearchTree.insert]
    split at h
    . next hlt =>
      have hchild := hn.get_child .child1
      obtain ⟨q₁, s₁, v, hinsert, hv, hroot, hframe⟩ := bstInsert_repr hchild hl hlnodup ho hol (hslot .child1 hal)
        (show l.height < fuel by omega)
      have hbelow₁ := (ihl hchild hl hlnodup hol (hslot .child1 hal) (show l.height < fuel by omega) hbelow.1.below
        hinsert).1
      rw [hinsert] at h
      rw [if_pos hlt]
      obtain ⟨htop, hl', hr'⟩ := @relink_parented s s' s₁ o a l r slot q .child1 n v hget hn hnodup hfresh houtside hv
        hroot hframe h hbelow₁ hbelow.2
      exact ⟨⟨hl', hr'⟩, htop⟩
    . next hlt =>
      rw [if_neg hlt]
      split at h
      . next hgt =>
        have hchild := hn.get_child .child2
        obtain ⟨q₁, s₁, v, hinsert, hv, hroot, hframe⟩ := bstInsert_repr hchild hr hrnodup ho hor (hslot .child2 har)
          (show r.height < fuel by omega)
        have hbelow₁ := (ihr hchild hr hrnodup hor (hslot .child2 har) (show r.height < fuel by omega) hbelow.2.below
          hinsert).1
        rw [hinsert] at h
        rw [if_pos hgt]
        obtain ⟨htop, hr', hl'⟩ := @relink_parented s s' s₁ o a r l slot q .child2 n v hget hn hnodup hfresh houtside
          hv hroot hframe h hbelow₁ hbelow.1
        exact ⟨⟨hl', hr'⟩, htop⟩
      . next hgt =>
        rw [if_neg hgt]
        rw [← (Prod.mk.inj (Option.some.inj h)).2]
        exact ⟨hbelow, rfl⟩

theorem Parented.insert (h : Parented s 0 t) (hget : s.get slot = some p) (ht : Repr s p t) (hnodup : (addrs t).Nodup)
    (ho : o.addr ≠ 0) (hfresh : o.addr ∉ addrs t) (houtside : slot.Outside (o.addr :: addrs t))
    (hfuel : t.height < fuel) (hinsert : bstInsert o fuel s slot = some (q, s'))
    : Parented s' 0 (SearchTree.insert Insertion.id o t) := by
  obtain ⟨hbelow, htop⟩ := bstInsert_parented hget ht hnodup ho hfresh houtside hfuel h.below hinsert
  cases t with
  | nil =>
    obtain rfl : p = 0 := ht
    exact ⟨htop, hbelow⟩
  | node a l r =>
    obtain ⟨rfl, n, hn, -⟩ := ht
    rw [if_neg hn.addr_ne, h.1] at htop
    rw [SearchTree.insert] at hbelow ⊢
    split
    . next hlt =>
      rw [if_pos hlt] at hbelow
      exact ⟨htop, hbelow⟩
    . next hlt =>
      rw [if_neg hlt] at hbelow
      split
      . next hgt =>
        rw [if_pos hgt] at hbelow
        exact ⟨htop, hbelow⟩
      . next hgt =>
        rw [if_neg hgt] at hbelow
        exact ⟨htop, hbelow⟩

end Insert

section Runs

variable {s : Bst} {os ps : List Insertion} {o : Insertion} {t : BinaryTree Insertion} {fuel q parent : Nat}

/--
The `parent` field of every node that is reached from the root pointer is the node that has it as a child, and `NULL`
for the node that the root pointer points to.
-/
structure ParentLinks (s : Bst) : Prop where
  root (n : BstNode) (hn : s.deref s.root = some n) : n.parent = 0
  child (p : Nat) (n m : BstNode) (side : Side) (hp : Reaches s s.root p) (hn : s.deref p = some n)
    (hm : s.deref (n.child side) = some m) : m.parent = p

theorem parented_of_reaches (h : Repr s q t) (htop : ∀ n, s.deref q = some n → n.parent = parent)
    (hchild : ∀ p n m side, Reaches s q p → s.deref p = some n → s.deref (n.child side) = some m → m.parent = p)
    : Parented s parent t := by
  induction t generalizing q parent with
  | nil => trivial
  | node a l r ihl ihr =>
    obtain ⟨rfl, n, hn, -, hl, hr⟩ := h
    have hderef := deref_eq hn.addr_ne hn.node_eq
    have hbelow (side : Side) {t : BinaryTree Insertion} (ht : Repr s (n.child side) t)
        (ih : ∀ {q parent}, Repr s q t → (∀ n, s.deref q = some n → n.parent = parent)
          → (∀ p n m side, Reaches s q p → s.deref p = some n → s.deref (n.child side) = some m → m.parent = p)
          → Parented s parent t)
        : Parented s a.addr t := by
      apply ih ht
      . intro m hm
        exact hchild a.addr n m side (.refl hn.addr_ne) hderef hm
      . intro p n' m side' hp hn' hm
        exact hchild p n' m side' (.child side hderef hp) hn' hm
    refine ⟨?_, hbelow .child1 hl ihl, hbelow .child2 hr ihr⟩
    rw [parentAt, hn.node_eq, Option.map_some, htop n hderef]

theorem Parented.parent_eq (hparented : Parented s parent t) (h : Repr s q t) {n : BstNode} (hn : s.deref q = some n)
    : n.parent = parent := by
  cases t with
  | nil =>
    obtain rfl : q = 0 := h
    cases hn
  | node a l r =>
    obtain ⟨rfl, -⟩ := h
    have htop := hparented.1
    rw [parentAt, (node_of_deref hn).2, Option.map_some, Option.some.injEq] at htop
    exact htop

theorem Parented.child (hparented : Parented s parent t) (h : Repr s q t) {p : Nat} {n m : BstNode} {side : Side}
    (hp : Reaches s q p) (hn : s.deref p = some n) (hm : s.deref (n.child side) = some m)
    : m.parent = p := by
  induction t generalizing q parent with
  | nil =>
    obtain rfl : q = 0 := h
    cases hp with
    | refl hp => exact absurd rfl hp
    | child side hn' => cases hn'
  | node a l r ihl ihr =>
    obtain ⟨rfl, n', hn', -, hl, hr⟩ := h
    have hderef := deref_eq hn'.addr_ne hn'.node_eq
    cases hp with
    | refl =>
      rw [hderef, Option.some.injEq] at hn
      subst hn
      cases side with
      | child1 => exact hparented.2.1.parent_eq hl hm
      | child2 => exact hparented.2.2.parent_eq hr hm
    | child side' hn'' hp =>
      rw [hderef, Option.some.injEq] at hn''
      subst hn''
      cases side' with
      | child1 => exact ihl hparented.2.1 hl hp
      | child2 => exact ihr hparented.2.2 hr hp

theorem parentLinks_iff_parented (h : Repr s s.root t) : ParentLinks s ↔ Parented s 0 t := by
  constructor
  . intro hlinks
    exact parented_of_reaches h hlinks.root hlinks.child
  . intro hparented
    constructor
    . intro n hn
      exact hparented.parent_eq h hn
    . intro p n m side hp hn hm
      exact hparented.child h hp hn hm

theorem insertAll_parented (hfresh : FreshAddrs (ps ++ [o])) (hfuel : (ps ++ [o]).length < fuel)
    (hrun : insertAll fuel ps = some s) (hbalanced : SearchTree.Balanced (linked ps)) (hlinks : ParentLinks s)
    : ∃ s', insertAll fuel (ps ++ [o]) = some s' ∧ (ParentLinks s' ↔ MovesNothing Insertion.id o (linked ps)) := by
  rw [List.length_append, List.length_singleton] at hfuel
  obtain ⟨s₁, hrun₁, hrepr⟩ := @insertAll_repr ps fuel hfresh.of_append (by omega)
  rw [hrun, Option.some.injEq] at hrun₁
  subst hrun₁
  obtain ⟨s', hrun', hrepr'⟩ := @insertAll_repr (ps ++ [o]) fuel hfresh (by rw [List.length_append]; exact hfuel)
  refine ⟨s', hrun', ?_⟩
  have haddrs := hfresh.2
  rw [List.map_append, List.nodup_append] at haddrs
  have hnew : o.addr ∉ addrs (linked ps) := by
    intro hmem
    exact haddrs.2.2 _ (addrs_linked_subset ps hmem) o.addr (List.mem_singleton_self _) rfl
  have hnodup := nodup_linked haddrs.1
  have hheight := height_linked_le ps
  have hparented := (parentLinks_iff_parented hrepr).mp hlinks
  rw [insertAll_concat, hrun, Option.bind_some, insertStep, Option.map_eq_some_iff] at hrun'
  obtain ⟨⟨q, s''⟩, hinsert, rfl⟩ := hrun'
  have hplain := hparented.insert (show s.get .root = some s.root from rfl) hrepr hnodup
    (hfresh.1 o (List.mem_append_right ps (List.mem_singleton_self o))) hnew trivial (show _ < fuel by omega) hinsert
  rw [linked_concat] at hrepr'
  rw [parentLinks_iff_parented hrepr']
  exact parented_insertLinked_iff hbalanced (nodup_addrs_insert hnew hnodup) hplain

def KeepsParents (fuel : Nat) (os : List Insertion) : Prop :=
  ∀ ps, ps <+: os → ∃ s, insertAll fuel ps = some s ∧ ParentLinks s

def MovesNothingAll (fuel : Nat) (os : List Insertion) : Prop :=
  ∀ ps o, ps ++ [o] <+: os → ∀ s t, insertAll fuel ps = some s → Repr s s.root t → MovesNothing Insertion.id o t

theorem parentLinks_empty : ParentLinks empty := by
  constructor
  . intro n hn
    cases hn
  . intro p n m side hp hn hm
    cases (node_of_deref hn).2

theorem keepsParents_iff (hfresh : FreshAddrs os) (hfuel : os.length < fuel)
    : KeepsParents fuel os ↔ MovesNothingAll fuel os := by
  have hstep (ps : List Insertion) (o : Insertion) (hps : ps ++ [o] <+: os) {s : Bst}
      (hrun : insertAll fuel ps = some s) (hbalanced : SearchTree.Balanced (linked ps)) (hlinks : ParentLinks s) :=
    @insertAll_parented s ps o fuel (hfresh.of_prefix hps) (Nat.lt_of_le_of_lt hps.length_le hfuel) hrun hbalanced
      hlinks
  have hbalanced (ps : List Insertion) (o : Insertion) (hbalanced : SearchTree.Balanced (linked ps))
      (hmoves : MovesNothing Insertion.id o (linked ps))
      : SearchTree.Balanced (linked (ps ++ [o])) := by
    rw [linked_concat]
    exact ((outcome_insertLinked Insertion.id o hbalanced).balanced hmoves.keepsBalance).1
  have hlinked (ps : List Insertion) (hps : ps <+: os)
      : ∃ s, insertAll fuel ps = some s ∧ Repr s s.root (linked ps) :=
    insertAll_repr (hfresh.of_prefix hps) (Nat.lt_of_le_of_lt hps.length_le hfuel)
  constructor
  . intro h
    have hall (ps : List Insertion) (hps : ps <+: os) : SearchTree.Balanced (linked ps) := by
      induction ps using List.reverseRecOn with
      | nil => trivial
      | append_singleton ps o ih =>
        have hps' := (List.prefix_append ps [o]).trans hps
        obtain ⟨s, hrun, hlinks⟩ := h ps hps'
        obtain ⟨s', hrun', hiff⟩ := hstep ps o hps hrun (ih hps') hlinks
        obtain ⟨s'', hrun'', hlinks'⟩ := h _ hps
        rw [hrun', Option.some.injEq] at hrun''
        subst hrun''
        exact hbalanced ps o (ih hps') (hiff.mp hlinks')
    intro ps o hps s t hrun ht
    have hps' := (List.prefix_append ps [o]).trans hps
    obtain ⟨s₁, hrun₁, hrepr⟩ := hlinked ps hps'
    obtain ⟨s₂, hrun₂, hlinks⟩ := h ps hps'
    obtain ⟨s', hrun', hlinks'⟩ := h _ hps
    rw [hrun, Option.some.injEq] at hrun₁ hrun₂
    subst hrun₁
    subst hrun₂
    obtain ⟨s'', hrun'', hiff⟩ := hstep ps o hps hrun (hall ps hps') hlinks
    rw [hrun', Option.some.injEq] at hrun''
    subst hrun''
    rw [ht.unique hrepr]
    exact hiff.mp hlinks'
  . intro h
    have hall (ps : List Insertion) (hps : ps <+: os)
        : SearchTree.Balanced (linked ps) ∧ ∃ s, insertAll fuel ps = some s ∧ ParentLinks s := by
      induction ps using List.reverseRecOn with
      | nil => exact ⟨trivial, empty, rfl, parentLinks_empty⟩
      | append_singleton ps o ih =>
        have hps' := (List.prefix_append ps [o]).trans hps
        obtain ⟨htree, s, hrun, hlinks⟩ := ih hps'
        obtain ⟨s₁, hrun₁, hrepr⟩ := hlinked ps hps'
        rw [hrun, Option.some.injEq] at hrun₁
        subst hrun₁
        have hmoves := h ps o hps s _ hrun hrepr
        obtain ⟨s', hrun', hiff⟩ := hstep ps o hps hrun htree hlinks
        exact ⟨hbalanced ps o htree hmoves, s', hrun', hiff.mpr hmoves⟩
    exact fun ps hps => (hall ps hps).2

theorem keepsParents_iff_two
    : KeepsParents 3 [⟨0x1000, 0x2000, 1⟩, ⟨0x1020, 0x2020, 2⟩]
        ↔
      MovesNothingAll 3 [⟨0x1000, 0x2000, 1⟩, ⟨0x1020, 0x2020, 2⟩] :=
  keepsParents_iff ⟨by decide, by decide⟩ (by decide)

def moving : List Insertion := [4, 2, 5, 1, 3, 0].map (fun id => ⟨0x1000 + 0x20 * id, 0x2000 + id, id⟩)

/--
The rotation of the last insertion puts the node of 3 below the root and leaves it with the parent that it had.
-/
theorem not_keepsParents : ¬ KeepsParents 7 moving := by
  intro h
  obtain ⟨s, hrun, hlinks⟩ := h moving (List.prefix_refl _)
  have hstale : (insertAll 7 moving).map (fun s => (s.root, (s.deref s.root).map BstNode.child1,
      (s.deref 0x1060).map BstNode.parent)) = some (0x1080, some 0x1060, some 0x1040) := by
    decide +kernel
  rw [hrun, Option.map_some, Option.some.injEq, Prod.mk.injEq, Prod.mk.injEq] at hstale
  obtain ⟨hroot, hchild, hparent⟩ := hstale
  obtain ⟨n, hn, hchild⟩ := Option.map_eq_some_iff.mp hchild
  obtain ⟨m, hm, hparent⟩ := Option.map_eq_some_iff.mp hparent
  have hm' : s.deref (n.child .child1) = some m := by
    change s.deref n.child1 = some m
    rw [hchild, hm]
  have hlink := hlinks.child s.root n m .child1 (.refl (node_of_deref hn).1) hn hm'
  rw [hparent, hroot] at hlink
  exact absurd hlink (by decide)

end Runs

end Bst
end Osproj
