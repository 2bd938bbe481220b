import Osproj.Lib.Lemmas.DeletedTree

/-!
This module contains what `bst_delete` does to the nodes. The recursion stores what the wrapper returns, the data
pointer of the new root of a subtree, as the pointer to that root, and nobody stores the new root of the whole tree.
-/

namespace Osproj
namespace Bst

open BinaryTree SearchTree LinkedTree

def PointsToItself : BinaryTree Insertion → Prop
  | .nil => True
  | .node o _ _ => o.data = o.addr

/--
What a deletion stores below the root are pointers to the right nodes: `NULL`, or the data of a node that
points to itself.
-/
def PointersOk : BinaryTree Insertion → Nat → Prop
  | .nil, _ => True
  | .node a l r, id =>
    if id < a.id then PointersOk l id ∧ PointsToItself (deleted l id)
    else if a.id < id then PointersOk r id ∧ PointsToItself (deleted r id)
    else
      match l, minimum r with
      | .nil, _ | _, none => True
      | _, some b => PointersOk r b.id ∧ PointsToItself (deleted r b.id)

def remainingOf : BinaryTree Insertion → BinaryTree Insertion
  | .nil => nil
  | .node a l r => remaining a l r

def ReprBelow (s : Bst) (p : Nat) : BinaryTree Insertion → Prop
  | .nil => p = 0
  | .node o l r => p = o.addr ∧ ∃ n, NodeAt s o n ∧ Repr s n.child1 l ∧ Repr s n.child2 r

section Nodes

variable {s : Bst} {p : Nat} {t l r : BinaryTree Insertion} {slot : Slot}

theorem Repr.below (h : Repr s p t) : ReprBelow s p t := by
  cases t with
  | nil => exact h
  | node o l r =>
    obtain ⟨rfl, n, hn, -, hl, hr⟩ := h
    exact ⟨rfl, n, hn, hl, hr⟩

theorem Repr.node_ne_none {q : Nat} (h : Repr s p t) (hq : q ∈ addrs t) : s.node q ≠ none := by
  obtain ⟨o, ho, rfl⟩ := List.mem_map.mp hq
  obtain ⟨n, -, -, hn, -⟩ := h.node_of_mem ho
  simp [hn.node_eq]

theorem addrs_rebalanced (t : BinaryTree Insertion) : addrs (rebalanced t) = addrs t := by
  rw [addrs, toList_rebalanced, addrs]

theorem rebalance_below (hget : s.get slot = some p) (ht : ReprBelow s p t) (hne : t ≠ nil)
    (hnodup : (addrs t).Nodup)
    : ∃ q s', s.rebalance slot = some (q, s')
        ∧ s'.root = s.root
        ∧ Repr s' q (rebalanced t)
        ∧ Repr s' p (remainingOf t)
        ∧ (∀ q, q ∉ addrs t → s'.node q = s.node q) := by
  cases t with
  | nil => exact absurd rfl hne
  | node o l r =>
    obtain ⟨rfl, n, hn, hl, hr⟩ := ht
    exact rebalance_repr hget hn hl hr hnodup

theorem minValueNode_repr {fuel : Nat} (h : Repr s p t) (hne : t ≠ nil) (hfuel : t.height < fuel + 1)
    : ∃ b, minimum t = some b ∧ s.minValueNode fuel p = some b.addr := by
  induction t generalizing p fuel with
  | nil => exact absurd rfl hne
  | node o l r ihl _ =>
    obtain ⟨rfl, n, hn, -, hl, -⟩ := h
    simp only [BinaryTree.height] at hfuel
    obtain ⟨fuel, rfl⟩ : ∃ k, fuel = k + 1 := ⟨fuel - 1, by omega⟩
    simp only [minValueNode, deref_eq hn.addr_ne hn.node_eq, Option.bind_eq_bind, Option.bind_some]
    by_cases hnil : l = nil
    . subst hnil
      simp only [Bst.Repr] at hl
      exact ⟨o, rfl, by simp [hl]⟩
    . obtain ⟨b, hb, hmin⟩ := ihl hl hnil (show l.height < fuel + 1 by omega)
      rw [if_pos (hl.ne_zero hnil)]
      exact ⟨b, by simp [minimum, hb], hmin⟩

theorem exists_successor {fuel : Nat} {b : Insertion} (h : Repr s p t) (hmin : minimum t = some b)
    (hfuel : t.height < fuel + 1)
    : p ≠ 0 ∧ s.minValueNode fuel p = some b.addr ∧ ∃ n, NodeAt s b n := by
  have hne : t ≠ nil := by
    intro heq
    simp [heq, minimum] at hmin
  obtain ⟨b', hb', hvalue⟩ := minValueNode_repr h hne hfuel
  obtain rfl : b = b' := Option.some.inj (hmin.symm.trans hb')
  obtain ⟨bs, hbs⟩ := toList_eq_of_minimum hmin
  obtain ⟨n, -, -, hn, -⟩ := h.node_of_mem (show b ∈ toList t by simp [hbs])
  exact ⟨h.ne_zero hne, hvalue, n, hn⟩

theorem nodeData_repr (h : Repr s p t) (hself : PointsToItself t) : s.nodeData p = some p := by
  cases t with
  | nil =>
    simp only [Bst.Repr] at h
    simp [nodeData, h]
  | node o l r =>
    obtain ⟨rfl, n, hn, -⟩ := h
    simp only [PointsToItself] at hself
    simp [nodeData, hn.addr_ne, deref_eq hn.addr_ne hn.node_eq, hn.data_eq, hself]

theorem storeWords_of_miss {stores : List WordStore} (n : BstNode) (h : WordStore.Miss stores p 24)
    : n.storeWords stores p = n := by
  have hfield {k : Nat} (hk : k ≤ 20) := WordStore.applyAll_of_miss (h.mono (show p ≤ p + k by omega) (by omega))
  have hfirst := WordStore.applyAll_of_miss (h.mono (show p ≤ p by omega) (by omega))
  rw [BstNode.storeWords, hfirst, hfield (k := 4) (by omega), hfield (k := 8) (by omega),
    hfield (k := 12) (by omega), hfield (k := 16) (by omega),
    WordStore.applyInt_of_miss (h.mono (by omega) (by omega))]

/--
The stores that miss all nodes but one leave nothing behind when that one is gone.
-/
theorem forget_storeWords {stores : List WordStore}
    (h : ∀ q, q ≠ p → s.node q ≠ none → WordStore.Miss stores q 24)
    : (s.storeWords stores).forget p = s.forget p := by
  rw [forget, forget, storeWords, Bst.mk.injEq]
  refine ⟨rfl, ?_⟩
  funext q
  by_cases hq : q = p
  . rw [if_pos hq, if_pos hq]
  . rw [if_neg hq, if_neg hq]
    cases hn : s.node q with
    | none => simp only [hn, Option.map_none]
    | some n => simp only [hn, Option.map_some, storeWords_of_miss n (h q hq (by simp [hn]))]

end Nodes

structure DeletedAt (s : Bst) (slot : Slot) (t v : BinaryTree Insertion) (fs : List Nat) (q : Nat)
    (s' : Bst) (p' : Nat) : Prop where
  repr : Repr s' q (rebalanced v)
  linked : Repr s' p' (remainingOf v)
  root_eq : s'.root = (slot.write p' s).root
  frame : ∀ q, q ∉ addrs t → s'.node q = (slot.write p' s).node q
  freed_iff : ∀ q ∈ addrs t, s'.node q = none ↔ q ∈ fs

section Below

variable {s : Bst} {side : Side} {slot : Slot} {a a' : Insertion} {n : BstNode}
variable {t u v : BinaryTree Insertion} {fs : List Nat} {q p' : Nat} {s₁ : Bst}

theorem storeBelow_repr (hn : NodeAt s a n) (hu : Repr s (n.child side.other) u)
    (hnodup : (addrs (join side a t u)).Nodup)
    (hrec : DeletedAt s (.child side a.addr) t v fs q s₁ p') (hself : PointsToItself (rebalanced v))
    (hsub : addrs v ⊆ addrs t)
    : ∃ s₂ n', ((s₁.nodeData q).bind (fun data => s₁.put (.child side a.addr) data)) = some s₂
        ∧ s₂.root = s.root
        ∧ NodeAt s₂ a n'
        ∧ Repr s₂ (n'.child side) (rebalanced v)
        ∧ Repr s₂ (n'.child side.other) u
        ∧ (∀ q, q ≠ a.addr → q ∉ addrs t → s₂.node q = s.node q)
        ∧ (∀ q ∈ addrs t, s₂.node q = none ↔ q ∈ fs) := by
  obtain ⟨hat, hau, -, -, htu⟩ := nodup_addrs_join.mp hnodup
  have hnode : s₁.node a.addr = some (n.setChild side p') := by
    rw [hrec.frame _ hat]
    simp [Slot.write, hn.node_eq]
  have hsame₁ (q : Nat) (hq : q ≠ a.addr) (hqt : q ∉ addrs t) : s₁.node q = s.node q := by
    rw [hrec.frame q hqt]
    simp [Slot.write, hq]
  let n' := (n.setChild side p').setChild side q
  let s₂ := s₁.set a.addr n'
  have hsame (q : Nat) (hq : q ≠ a.addr) : s₂.node q = s₁.node q := node_set_of_ne _ _ hq
  refine ⟨s₂, n', ?_, hrec.root_eq, ?_, ?_, ?_, ?_, ?_⟩
  . rw [nodeData_repr hrec.repr hself, Option.bind_some]
    simp only [put, deref_eq hn.addr_ne hnode, Option.map_some, s₂, n']
  . exact ⟨hn.addr_ne, node_set_self _ _ _, by simpa [n'] using hn.id_eq,
      by simpa [n'] using hn.data_eq⟩
  . rw [child_setChild]
    apply hrec.repr.frame
    intro q hq
    rw [addrs_rebalanced] at hq
    exact hsame q (fun h => hat (hsub (h ▸ hq)))
  . rw [child_other_setChild, child_other_setChild]
    apply hu.frame
    intro q hq
    have hqa : q ≠ a.addr := fun h => hau (h ▸ hq)
    rw [hsame q hqa, hsame₁ q hqa (fun h => htu q h hq)]
  . intro q hq hqt
    rw [hsame q hq, hsame₁ q hq hqt]
  . intro q hq
    rw [hsame q (fun h => hat (h ▸ hq))]
    exact hrec.freed_iff q hq

theorem deletedAt_join (hget : s.get slot = some a.addr) (hn : NodeAt s a n)
    (hu : Repr s (n.child side.other) u)
    (hnodup : (addrs (join side a t u)).Nodup) (houtside : slot.Outside (addrs (join side a t u)))
    (hrec : DeletedAt s (.child side a.addr) t v fs q s₁ p') (hself : PointsToItself (rebalanced v))
    (hperm : (addrs t).Perm (fs ++ addrs v))
    : ∃ q' s', ((s₁.nodeData q).bind (fun data => (s₁.put (.child side a.addr) data).bind
          (fun s => s.rebalance slot))) = some (q', s')
        ∧ DeletedAt s slot (join side a t u) (join side a (rebalanced v) u) fs q' s' a.addr := by
  obtain ⟨hat, hau, htnodup, hunodup, htu⟩ := nodup_addrs_join.mp hnodup
  have hsub : addrs v ⊆ addrs t := fun q hq => hperm.symm.subset (List.mem_append_right _ hq)
  have hfresh := hperm.nodup_iff.mp htnodup
  rw [List.nodup_append] at hfresh
  obtain ⟨s₂, n', hstore, hroot, hn', hv', hu', hsame, hfreed⟩ :=
    storeBelow_repr hn hu hnodup hrec hself hsub
  have hget₂ : s₂.get slot = some a.addr := by
    have houtside' : slot.Outside (a.addr :: addrs t) := by
      apply houtside.mono
      intro q hq
      rw [mem_addrs_join]
      rw [List.mem_cons] at hq
      tauto
    apply get_of_frame hget houtside'
    . rw [write_get hget, hroot]
    . intro q hq
      rw [List.mem_cons, not_or] at hq
      rw [write_get hget, hsame q hq.1 hq.2]
  have hnodup' : (addrs (join side a (rebalanced v) u)).Nodup := by
    rw [nodup_addrs_join, addrs_rebalanced]
    exact ⟨fun h => hat (hsub h), hau, hfresh.2.1, hunodup, fun q hq => htu q (hsub hq)⟩
  have hmem {q : Nat} : q ∈ addrs (join side a (rebalanced v) u)
      ↔ q = a.addr ∨ q ∈ addrs v ∨ q ∈ addrs u := by
    rw [mem_addrs_join, addrs_rebalanced]
  have hbelow : ReprBelow s₂ a.addr (join side a (rebalanced v) u) := by
    cases side with
    | child1 => exact ⟨rfl, n', hn', hv', hu'⟩
    | child2 => exact ⟨rfl, n', hn', hu', hv'⟩
  obtain ⟨q', s', hrebalance, hroot', hrepr, hlinked, hframe⟩ :=
    rebalance_below hget₂ hbelow (by cases side <;> simp [join]) hnodup'
  refine ⟨q', s', ?_, hrepr, hlinked, ?_, ?_, ?_⟩
  . rw [Option.bind_eq_some_iff] at hstore
    obtain ⟨data, hdata, hput⟩ := hstore
    rw [hdata, Option.bind_some, hput, Option.bind_some, hrebalance]
  . rw [write_get hget, hroot', hroot]
  . intro q hq
    rw [write_get hget]
    rw [mem_addrs_join, not_or, not_or] at hq
    rw [hframe q, hsame q hq.1 hq.2.1]
    rw [hmem, not_or, not_or]
    exact ⟨hq.1, fun h => hq.2.1 (hsub h), hq.2.2⟩
  . intro q hq
    by_cases hqf : q ∈ fs
    . have hqt : q ∈ addrs t := hperm.symm.subset (List.mem_append_left _ hqf)
      have hout : q ∉ addrs (join side a (rebalanced v) u) := by
        rw [hmem, not_or, not_or]
        exact ⟨fun h => hat (h ▸ hqt), fun h => hfresh.2.2 q hqf q h rfl, htu q hqt⟩
      rw [hframe q hout]
      exact hfreed q hqt
    . have hin : q ∈ addrs (rebalanced (join side a (rebalanced v) u)) := by
        rw [addrs_rebalanced, hmem]
        rw [mem_addrs_join] at hq
        rcases hq with h | h | h
        . exact Or.inl h
        . exact Or.inr (Or.inl ((List.mem_append.mp (hperm.subset h)).resolve_left hqf))
        . exact Or.inr (Or.inr h)
      simp [hqf, hrepr.node_ne_none hin]

theorem updateHeight_eq_none (hp : p' ≠ 0) (hn : s.node p' = some n)
    (h : s.height (n.child side) = none)
    : s.updateHeight p' = none := by
  cases side with
  | child1 =>
    simp only [BstNode.child] at h
    simp [updateHeight, deref_eq hp hn, h]
  | child2 =>
    simp only [BstNode.child] at h
    simp [updateHeight, deref_eq hp hn, h]

theorem storeBelow_eq_none (hget : s.get slot = some a.addr) (hn : NodeAt s a n)
    (hat : a.addr ∉ addrs t) (houtside : slot.Outside (a.addr :: addrs t))
    (hrec : DeletedAt s (.child side a.addr) t v fs q s₁ p') {d : Nat} (hdata : s₁.nodeData q = some d)
    (hd : d ≠ 0) (hnone : s₁.node d = none)
    : ((s₁.nodeData q).bind (fun data => (s₁.put (.child side a.addr) data).bind
          (fun s => s.rebalance slot))) = none := by
  have hnode : s₁.node a.addr = some (n.setChild side p') := by
    rw [hrec.frame _ hat]
    simp [Slot.write, hn.node_eq]
  let n' := (n.setChild side p').setChild side d
  let s₂ := s₁.set a.addr n'
  have hput : s₁.put (.child side a.addr) d = some s₂ := by
    simp only [put, deref_eq hn.addr_ne hnode, Option.map_some, s₂, n']
  have hget₂ : s₂.get slot = some a.addr := by
    apply get_of_frame hget houtside
    . rw [write_get hget]
      exact hrec.root_eq
    . intro q hq
      rw [List.mem_cons, not_or] at hq
      rw [write_get hget, node_set_of_ne _ _ hq.1, hrec.frame q hq.2]
      simp [Slot.write, hq.1]
  have hda : d ≠ a.addr := by
    rintro rfl
    simp [hnode] at hnone
  have hheight : s₂.height (n'.child side) = none := by
    rw [child_setChild, height, if_neg hd, deref, if_neg hd, node_set_of_ne _ _ hda, hnone]
    rfl
  have hupdate := updateHeight_eq_none hn.addr_ne (node_set_self s₁ a.addr n') hheight
  rw [hdata, Option.bind_some, hput, Option.bind_some]
  simp only [rebalance, hget₂, Option.bind_eq_bind, Option.bind_some]
  rw [hupdate, Option.bind_none]

end Below

theorem addrs_node (a : Insertion) (l r : BinaryTree Insertion)
    : addrs (.node a l r) = addrs l ++ a.addr :: addrs r := by
  simp [addrs, toList]

theorem addrs_deleted (t : BinaryTree Insertion) (id : Nat) : addrs (deleted t id) = addrs (unrotated t id) := by
  rw [deleted_eq, addrs_rebalanced]

theorem addrs_perm (t : BinaryTree Insertion) (id : Nat)
    : (addrs t).Perm (freed t id ++ addrs (unrotated t id)) := by
  induction t generalizing id with
  | nil => exact .refl _
  | node a l r ihl ihr =>
    rw [List.perm_iff_count]
    intro q
    simp only [addrs_node, unrotated, freed]
    split
    . have hcount := (ihl id).count_eq q
      simp only [addrs_node, addrs_deleted, List.count_append, List.count_cons] at hcount ⊢
      omega
    . split
      . have hcount := (ihr id).count_eq q
        simp only [addrs_node, addrs_deleted, List.count_append, List.count_cons] at hcount ⊢
        omega
      . cases l with
        | nil => simp [rootless, addrs, toList]
        | node x l₁ l₂ =>
          cases hmin : minimum r with
          | none =>
            rw [minimum_eq_none_iff] at hmin
            subst hmin
            simp only [rootless, minimum, addrs, toList, List.map_append, List.map_cons, List.map_nil,
              List.count_append, List.count_cons, List.count_nil]
            omega
          | some b =>
            have hcount := (ihr b.id).count_eq q
            simp only [rootless, hmin, Option.elim_some, addrs_node, addrs_deleted, List.count_append,
              List.count_cons] at hcount ⊢
            omega

section Root

variable {s s₀ : Bst} {slot : Slot} {a : Insertion} {n : BstNode} {t t₀ v w : BinaryTree Insertion}
variable {fs : List Nat} {c q p' : Nat} {s' : Bst}

theorem DeletedAt.congr (h : DeletedAt s₀ slot t₀ v fs q s' p') (hroot : s₀.root = s.root)
    (hsame : ∀ q, q ∉ addrs t → s₀.node q = s.node q) (haddrs : addrs t₀ = addrs t)
    : DeletedAt s slot t v fs q s' p' := by
  refine ⟨h.repr, h.linked, ?_, ?_, ?_⟩
  . rw [h.root_eq]
    cases slot with
    | root => rfl
    | child side p => exact hroot
  . intro q hq
    rw [h.frame q (haddrs ▸ hq)]
    cases slot with
    | root => exact hsame q hq
    | child side p => simp only [Slot.write, hsame q hq]
  . rw [← haddrs]
    exact h.freed_iff

theorem removeRoot_repr (hget : s.get slot = some a.addr) (hw : Repr s c w)
    (hperm : (addrs t).Perm (a.addr :: addrs w)) (hnodup : (addrs t).Nodup)
    (houtside : slot.Outside (addrs t))
    : ∃ q s' p', (((s.forget a.addr).put slot c).bind
          (fun s => if c = 0 then some (c, s) else s.rebalance slot)) = some (q, s')
        ∧ DeletedAt s slot t w [a.addr] q s' p' := by
  obtain ⟨haw, hwnodup⟩ := List.nodup_cons.mp (hperm.nodup_iff.mp hnodup)
  have hmem {q : Nat} : q ∈ addrs t ↔ q = a.addr ∨ q ∈ addrs w := by
    rw [hperm.mem_iff, List.mem_cons]
  let s₁ : Bst := s.forget a.addr
  have hsame₁ (q : Nat) (hq : q ≠ a.addr) : s₁.node q = s.node q := if_neg hq
  have hget₁ : s₁.get slot = some a.addr := by
    apply @get_of_frame s s₁ slot a.addr a.addr [a.addr] hget
    . apply houtside.mono
      intro q hq
      rw [hmem]
      exact Or.inl (by simpa using hq)
    . rw [write_get hget]
      rfl
    . intro q hq
      rw [write_get hget]
      exact hsame₁ q (by simpa using hq)
  have hfree : (slot.write c s₁).node a.addr = none := by
    cases slot with
    | root => exact if_pos rfl
    | child side p =>
      have hp : a.addr ≠ p := by
        rintro rfl
        exact houtside (hmem.mpr (Or.inl rfl))
      simp only [Slot.write, if_neg hp]
      exact if_pos rfl
  have hwrite (q : Nat) (hq : q ≠ a.addr) : (slot.write c s₁).node q = (slot.write c s).node q := by
    cases slot with
    | root => exact hsame₁ q hq
    | child side p => simp only [Slot.write, hsame₁ q hq]
  have hwroot : (slot.write c s₁).root = (slot.write c s).root := by
    cases slot <;> rfl
  have hw₁ : Repr (slot.write c s₁) c w := by
    apply hw.frame
    intro q hq
    have hqa : q ≠ a.addr := fun h => haw (h ▸ hq)
    rw [hwrite q hqa]
    cases slot with
    | root => rfl
    | child side p =>
      have hp : q ≠ p := by
        rintro rfl
        exact houtside (hmem.mpr (Or.inr hq))
      simp only [Slot.write, if_neg hp]
  rw [put_eq hget₁, Option.bind_some]
  by_cases hc : c = 0
  . have hnil : w = nil := by
      cases w with
      | nil => rfl
      | node o l r => exact absurd hc (hw.ne_zero (by simp))
    subst hnil
    refine ⟨0, slot.write c s₁, c, by rw [if_pos hc, hc], rfl, hc, hwroot, ?_, ?_⟩
    . intro q hq
      rw [hmem, not_or] at hq
      exact hwrite q hq.1
    . intro q hq
      have hqa : q = a.addr := (hmem.mp hq).resolve_right (by simp [addrs, toList])
      simp [hqa, hfree]
  . have hne : w ≠ nil := by
      rintro rfl
      exact hc hw
    have hget₂ : (slot.write c s₁).get slot = some c := by
      exact get_of_frame hget₁ (show slot.Outside [] by cases slot <;> simp [Slot.Outside]) rfl
        (fun _ _ => rfl)
    obtain ⟨q, s', hrebalance, hroot, hrepr, hlinked, hframe⟩ :=
      rebalance_below hget₂ hw₁.below hne hwnodup
    refine ⟨q, s', c, by rw [if_neg hc, hrebalance], hrepr, hlinked, by rw [hroot, hwroot], ?_, ?_⟩
    . intro q hq
      rw [hmem, not_or] at hq
      rw [hframe q hq.2, hwrite q hq.1]
    . intro q hq
      rcases hmem.mp hq with rfl | hq
      . simp [hframe _ haw, hfree]
      . have hqa : q ≠ a.addr := fun h => haw (h ▸ hq)
        have hne := hrepr.node_ne_none (by rw [addrs_rebalanced]; exact hq)
        simp [hqa, hne]

structure TakenOver (s : Bst) (slot : Slot) (a b : Insertion) (n₀ : BstNode)
    (l r : BinaryTree Insertion) (s₀ : Bst) : Prop where
  node_at : NodeAt s₀ { b with addr := a.addr } n₀
  left : Repr s₀ n₀.child1 l
  right : Repr s₀ n₀.child2 r
  get_eq : s₀.get slot = some a.addr
  get_child : s₀.get (.child .child2 a.addr) = some n₀.child2
  root_eq : s₀.root = s.root
  frame : ∀ q, q ≠ a.addr → s₀.node q = s.node q

theorem takeOver {l r : BinaryTree Insertion} {b : Insertion} {d : Nat} (hget : s.get slot = some a.addr)
    (hn : NodeAt s a n) (hl : Repr s n.child1 l) (hr : Repr s n.child2 r) (hal : a.addr ∉ addrs l)
    (har : a.addr ∉ addrs r) (houtside : slot.Outside (addrs (.node a l r))) (hd : d = b.data)
    : TakenOver s slot a b { n with id := b.id, data := d } l r
        (s.set a.addr { n with id := b.id, data := d }) := by
  let n₀ : BstNode := { n with id := b.id, data := d }
  have hsame (q : Nat) (hq : q ≠ a.addr) : (s.set a.addr n₀).node q = s.node q := node_set_of_ne _ _ hq
  have hderef : (s.set a.addr n₀).deref a.addr = some n₀ := deref_eq hn.addr_ne (node_set_self _ _ _)
  refine ⟨⟨hn.addr_ne, node_set_self _ _ _, rfl, hd⟩, hl.frame ?_, hr.frame ?_, ?_, ?_, rfl, hsame⟩
  . exact fun q hq => hsame q (fun h => hal (h ▸ hq))
  . exact fun q hq => hsame q (fun h => har (h ▸ hq))
  . have houtside' : slot.Outside [a.addr] := by
      apply houtside.mono
      simp [addrs_node]
    apply get_of_frame hget houtside'
    . rw [write_get hget]
      rfl
    . intro q hq
      rw [write_get hget]
      exact hsame q (by simpa using hq)
  . simp only [n₀] at hderef
    rw [get, hderef]
    rfl

end Root

section Apart

variable {s : Bst} {t : BinaryTree Insertion} {id : Nat}

/--
No data pointer is `NULL` or points to a node.
-/
def DataApart (s : Bst) (t : BinaryTree Insertion) : Prop :=
  ∀ o ∈ toList t, o.data ≠ 0 ∧ s.node o.data = none

theorem node_write_eq_none {slot : Slot} {p q : Nat} (h : s.node q = none)
    : (slot.write p s).node q = none := by
  cases slot with
  | root => exact h
  | child side p =>
    simp only [Slot.write, h, Option.map_none]
    split <;> rfl

theorem DataApart.deleted {slot : Slot} {p q p' : Nat} {s' : Bst} (h : DataApart s t) (ht : Repr s p t)
    (hsorted : Sorted Insertion.id t)
    (hdeleted : DeletedAt s slot t (unrotated t id) (freed t id) q s' p')
    : DataApart s' (LinkedTree.deleted t id) := by
  intro o ho
  have hentry : (o.id, o.data) ∈ entries (LinkedTree.deleted t id) := List.mem_map_of_mem ho
  rw [entries_deleted hsorted] at hentry
  obtain ⟨o', ho', heq⟩ := List.mem_map.mp (List.mem_of_mem_filter hentry)
  rw [Prod.mk.injEq] at heq
  obtain ⟨hne, hd⟩ := h o' ho'
  rw [heq.2] at hne hd
  refine ⟨hne, ?_⟩
  rw [hdeleted.frame _ (fun hmem => ht.node_ne_none hmem hd), node_write_eq_none hd]

theorem pointsToItself_of_below {s₁ : Bst} {side : Side} {slot : Slot} {a : Insertion} {n : BstNode}
    {p q p' : Nat} (hget : s.get slot = some a.addr) (hn : NodeAt s a n) (ht : Repr s p t)
    (hsorted : Sorted Insertion.id t) (hapart : DataApart s t) (hat : a.addr ∉ addrs t)
    (houtside : slot.Outside (a.addr :: addrs t))
    (hrec : DeletedAt s (.child side a.addr) t (unrotated t id) (freed t id) q s₁ p')
    (h : ((s₁.nodeData q).bind (fun data => (s₁.put (.child side a.addr) data).bind
          (fun s => s.rebalance slot))) ≠ none)
    : PointsToItself (LinkedTree.deleted t id) := by
  have hapart₁ := hapart.deleted ht hsorted hrec
  have hrepr := hrec.repr
  rw [← deleted_eq] at hrepr
  cases hv : LinkedTree.deleted t id with
  | nil => trivial
  | node o l r =>
    rw [hv] at hrepr hapart₁
    obtain ⟨hne, hnone⟩ := hapart₁ o (by simp [toList])
    obtain ⟨rfl, m, hm, -⟩ := hrepr
    have hdata : s₁.nodeData o.addr = some o.data := by
      simp [nodeData, hm.addr_ne, deref_eq hm.addr_ne hm.node_eq, hm.data_eq]
    exact absurd (storeBelow_eq_none hget hn hat houtside hrec hdata hne hnone) h

end Apart

end Bst
end Osproj
