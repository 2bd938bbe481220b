import Mathlib.Data.List.Rotate
import Osproj.Lib.Lemmas.List
import Osproj.Mm.Lemmas.SlabRuns

/-!
This module contains what a user of the ring of `list.c` sees: the nodes that `list_iter` calls its callback on, and
the ring that `list_delete` leaves behind.
-/

namespace Osproj
namespace ListHeap

/--
The nodes of `ns` and no others form one ring.
-/
def Ring (h : ListHeap) : List Nat → Prop
  | [] => True
  | n :: ns => h.IsRing n ns

def MutuallyInverse (h : ListHeap) (ns : List Nat) : Prop :=
  ∀ a ∈ ns, ((h.cell a).next ∈ ns ∧ (h.cell (h.cell a).next).prev = a)
    ∧ ((h.cell a).prev ∈ ns ∧ (h.cell (h.cell a).prev).next = a)

section Rotate

variable {h : ListHeap} {n : Nat} {ns : List Nat}

theorem IsRing.rotate {b : Nat} (hring : h.IsRing n (b :: ns)) : h.IsRing b (ns ++ [n]) := by
  have hperm : List.Perm (b :: (ns ++ [n])) (n :: b :: ns) := List.perm_append_singleton n (b :: ns)
  have hchain := hring.chain
  rw [List.cons_append, List.isChain_cons_cons] at hchain
  constructor
  . rw [hperm.nodup_iff]
    exact hring.nodup
  . intro a ha
    apply hring.ne_zero
    exact hperm.mem_iff.mp ha
  . have hsplit : b :: (ns ++ [n] ++ [b]) = (b :: ns) ++ n :: [b] := by simp
    rw [hsplit, List.isChain_split]
    constructor
    . exact hchain.2
    . apply List.isChain_pair.mpr
      exact hchain.1

theorem Ring.isRotated {l l' : List Nat} (hring : h.Ring l) (hrot : l ~r l') : h.Ring l' := by
  obtain ⟨k, rfl⟩ := hrot
  induction k generalizing l with
  | zero =>
    rw [List.rotate_zero]
    exact hring
  | succ k ih =>
    cases l with
    | nil =>
      rw [List.rotate_nil]
      exact hring
    | cons n ns =>
      rw [List.rotate_cons_succ]
      apply ih
      cases ns with
      | nil => exact hring
      | cons b ns => exact hring.rotate

theorem IsRing.last {l : List Nat} {z : Nat} (hring : h.IsRing n (l ++ [z])) : h.Linked z n := by
  have hchain := hring.chain
  rw [List.append_assoc, ← List.cons_append, List.singleton_append, List.isChain_split] at hchain
  exact List.isChain_pair.mp hchain.2

theorem IsRing.next_mem (hring : h.IsRing n ns)
    : (h.cell n).next ∈ n :: ns ∧ (h.cell (h.cell n).next).prev = n := by
  have hchain := hring.chain
  cases ns with
  | nil =>
    have hlinked := List.isChain_pair.mp hchain
    rw [hlinked.1]
    exact ⟨List.mem_cons_self .., hlinked.2⟩
  | cons b ns =>
    rw [List.cons_append, List.isChain_cons_cons] at hchain
    rw [hchain.1.1]
    exact ⟨List.mem_cons_of_mem n (List.mem_cons_self ..), hchain.1.2⟩

theorem IsRing.prev_mem (hring : h.IsRing n ns)
    : (h.cell n).prev ∈ n :: ns ∧ (h.cell (h.cell n).prev).next = n := by
  cases ns using List.reverseRecOn with
  | nil =>
    have hlinked := List.isChain_pair.mp hring.chain
    rw [hlinked.2]
    exact ⟨List.mem_cons_self .., hlinked.1⟩
  | append_singleton l z =>
    have hlinked := hring.last
    rw [hlinked.2]
    exact ⟨by simp, hlinked.1⟩

theorem Ring.mutuallyInverse {l : List Nat} (hring : h.Ring l) : h.MutuallyInverse l := by
  intro a ha
  obtain ⟨before, after, rfl⟩ := List.append_of_mem ha
  have hrot : before ++ a :: after ~r a :: (after ++ before) := List.isRotated_append
  have hring' : h.IsRing a (after ++ before) := hring.isRotated hrot
  simp only [hrot.perm.mem_iff]
  exact ⟨hring'.next_mem, hring'.prev_mem⟩

end Rotate

section Calls

variable {σ : Type}

def traced (callback : σ → Nat → Int × σ) (s : List Nat × σ) (a : Nat) : Option (Int × (List Nat × σ)) :=
  some ((callback s.2 a).1, (s.1 ++ [a], (callback s.2 a).2))

def results (callback : σ → Nat → Int × σ) : σ → List Nat → List Int
  | _, [] => []
  | s, a :: as => (callback s a).1 :: results callback (callback s a).2 as

structure CallsInOrder (callback : σ → Nat → Int × σ) (s : σ) (order called : List Nat) : Prop where
  initial : called <+: order
  zero (r : Int) (hr : r ∈ (results callback s called).dropLast) : r = 0
  stop : called = order ∨ ∃ r, (results callback s called).getLast? = some r ∧ r ≠ 0

theorem visit_traced (callback : σ → Nat → Int × σ) (before order : List Nat) (s : σ)
    : ∃ called s', visit (traced callback) (before, s) order = some (before ++ called, s')
        ∧ CallsInOrder callback s order called := by
  induction order generalizing before s with
  | nil =>
    refine ⟨[], s, ?_, List.prefix_rfl, ?_, Or.inl rfl⟩
    . rw [visit, List.append_nil]
    . intro r hr
      cases hr
  | cons a as ih =>
    by_cases hresult : (callback s a).1 = 0
    . obtain ⟨called, s', hvisit, horder⟩ := ih (before ++ [a]) (callback s a).2
      refine ⟨a :: called, s', ?_, ?_, ?_, ?_⟩
      . rw [visit]
        simp only [traced, Option.bind_eq_bind, Option.bind_some, hresult, ne_eq, not_true_eq_false, if_false]
        rw [hvisit, List.append_assoc, List.singleton_append]
      . apply List.cons_prefix_cons.mpr
        exact ⟨rfl, horder.initial⟩
      . intro r hr
        rw [results] at hr
        cases hcalled : results callback (callback s a).2 called with
        | nil =>
          rw [hcalled] at hr
          cases hr
        | cons b bs =>
          rw [hcalled, List.dropLast_cons_cons, ← hcalled] at hr
          rcases List.mem_cons.mp hr with rfl | hr
          . exact hresult
          . exact horder.zero r hr
      . rcases horder.stop with rfl | ⟨r, hlast, hne⟩
        . exact Or.inl rfl
        . refine Or.inr ⟨r, ?_, hne⟩
          rw [results, List.getLast?_cons, hlast, Option.getD_some]
    . refine ⟨[a], (callback s a).2, ?_, ?_, ?_, ?_⟩
      . rw [visit]
        simp only [traced, Option.bind_eq_bind, Option.bind_some, ne_eq, hresult, not_false_eq_true, if_true]
        rfl
      . apply List.cons_prefix_cons.mpr
        exact ⟨rfl, List.nil_prefix⟩
      . intro r hr
        cases hr
      . exact Or.inr ⟨_, rfl, hresult⟩

/--
Whatever the callback is, `list_iter` from `head` comes back and calls it on the nodes of `order`, in this order, up
to the first call that returns non-zero.
-/
def IterVisits (h : ListHeap) (head : Nat) (order : List Nat) : Prop :=
  ∀ {σ : Type} (callback : σ → Nat → Int × σ) (s : σ) (fuel : Nat), order.length ≤ fuel
    → ∃ called s', h.listIter head (traced callback) fuel ([], s) = some (called, s')
        ∧ CallsInOrder callback s order called

theorem CallsInOrder.all {s : σ} {order called : List Nat}
    (hcalls : CallsInOrder (fun s _ => (0, s)) s order called)
    : called = order := by
  have hzero (r : Int) (as : List Nat) (hr : r ∈ results (fun s _ => (0, s)) s as) : r = 0 := by
    induction as with
    | nil => cases hr
    | cons a as ih =>
      rcases List.mem_cons.mp hr with rfl | hr
      . rfl
      . exact ih hr
  rcases hcalls.stop with rfl | ⟨r, hlast, hne⟩
  . rfl
  . exact absurd (hzero r called (List.mem_of_getLast? hlast)) hne

/--
There is one order that `list_iter` visits: a callback that never stops it tells which one.
-/
theorem IterVisits.unique {h : ListHeap} {head : Nat} {order order' : List Nat} (hvisits : h.IterVisits head order)
    (hvisits' : h.IterVisits head order')
    : order = order' := by
  let fuel := order.length + order'.length
  obtain ⟨called, s, hiter, hcalls⟩ := hvisits (fun (s : Unit) _ => (0, s)) () fuel (by omega)
  obtain ⟨called', s', hiter', hcalls'⟩ := hvisits' (fun (s : Unit) _ => (0, s)) () fuel (by omega)
  rw [hiter, Option.some.injEq, Prod.mk.injEq] at hiter'
  rw [← hcalls.all, ← hcalls'.all, hiter'.1]

theorem Ring.iterVisits {h : ListHeap} {n : Nat} {ns : List Nat} (hring : h.Ring (n :: ns))
    : h.IterVisits n (n :: ns) := by
  intro σ callback s fuel hfuel
  rw [@listIter_eq (List Nat × σ) h n (traced callback) ns hring fuel hfuel ([], s)]
  apply visit_traced

end Calls

section Delete

variable {h : ListHeap} {x : Nat} {ns : List Nat}

theorem next_setData (a b v : Nat) : ((h.setData a v).cell b).next = (h.cell b).next := by
  by_cases hb : b = a
  . rw [hb, setData, set_self]
  . rw [setData, set_of_ne _ _ hb]

theorem prev_setData (a b v : Nat) : ((h.setData a v).cell b).prev = (h.cell b).prev := by
  by_cases hb : b = a
  . rw [hb, setData, set_self]
  . rw [setData, set_of_ne _ _ hb]

theorem unlink_links {z a : Nat} (hin : h.Linked z x) (hout : h.Linked x a) (hz : z ≠ 0) (ha : a ≠ 0) (hzx : z ≠ x)
    (c : Nat)
    : ((h.unlink x).cell c).next = (if c = z then a else (h.cell c).next)
        ∧ ((h.unlink x).cell c).prev = (if c = a then z else (h.cell c).prev) := by
  have hprev : (h.cell x).prev = z := hin.2
  have hnext : (h.cell x).next = a := hout.1
  simp only [unlink, hprev, hnext, ne_eq, hz, ha, not_false_eq_true, and_self, if_true]
  constructor
  . rw [next_setPrev, next_setNext]
  . rw [prev_setPrev, next_setNext, if_neg (Ne.symm hzx), hnext]
    rw [prev_setNext, prev_setNext, hprev]

theorem unlink_ring (hring : h.Ring (x :: ns)) : (h.unlink x).Ring ns := by
  cases ns with
  | nil => trivial
  | cons a l =>
    -- the last node of the ring is the one before `x`
    obtain ⟨l', z, hlast⟩ : ∃ l' z, a :: l = l' ++ [z] := by
      cases List.eq_nil_or_concat (a :: l) with
      | inl hnil => cases hnil
      | inr h =>
        obtain ⟨l', z, h⟩ := h
        rw [List.concat_eq_append] at h
        exact ⟨l', z, h⟩
    have hring : h.IsRing x (a :: l) := hring
    have hnodup := List.nodup_cons.mp hring.nodup
    have hchain := hring.chain
    rw [List.cons_append, List.isChain_cons_cons] at hchain
    obtain ⟨hout, hchain⟩ := hchain
    have hin : h.Linked z x := by
      apply @IsRing.last h x l'
      rw [← hlast]
      exact hring
    have hmem : z ∈ a :: l := by
      rw [hlast]
      exact List.mem_append_right l' (List.mem_singleton_self z)
    have hne (c : Nat) (hc : c ∈ a :: l) : c ≠ x := fun heq => hnodup.1 (heq ▸ hc)
    have hlinks :=
      unlink_links hin hout (hring.ne_zero z (List.mem_cons_of_mem x hmem))
        (hring.ne_zero a (List.mem_cons_of_mem x (List.mem_cons_self ..))) (hne z hmem)
    constructor
    . exact hnodup.2
    . intro c hc
      apply hring.ne_zero
      exact List.mem_cons_of_mem x hc
    . have hsplit : a :: (l ++ [a]) = l' ++ z :: [a] := by
        rw [← List.cons_append, hlast, List.append_assoc]
        rfl
      rw [hsplit, List.isChain_split]
      constructor
      . rw [← hlast]
        apply @isChain_of_linked h
        . rw [← List.cons_append] at hchain
          exact hchain.left_of_append
        . intro c hc
          rw [(hlinks c).1, if_neg]
          rintro rfl
          rw [hlast, List.dropLast_concat] at hc
          have hdup := hnodup.2
          rw [hlast, List.nodup_append] at hdup
          exact hdup.2.2 c hc c (List.mem_singleton_self c) rfl
        . intro c hc
          rw [(hlinks c).2, if_neg]
          rintro rfl
          exact (List.nodup_cons.mp hnodup.2).1 hc
      . apply List.isChain_pair.mpr
        constructor
        . rw [(hlinks z).1, if_pos rfl]
        . rw [(hlinks a).2, if_pos rfl]

theorem unlink_erase {order : List Nat} (hring : h.Ring order) (hx : x ∈ order)
    : (h.unlink x).Ring (order.erase x) := by
  obtain ⟨before, after, rfl, hbefore⟩ : ∃ before after, order = before ++ x :: after ∧ x ∉ before := by
    obtain ⟨before, after, hbefore, heq, -⟩ := List.exists_erase_eq hx
    exact ⟨before, after, heq, hbefore⟩
  have hrot : before ++ x :: after ~r x :: (after ++ before) := List.isRotated_append
  rw [List.erase_append_right _ hbefore, List.erase_cons_head]
  apply Ring.isRotated (unlink_ring (hring.isRotated hrot))
  exact List.isRotated_append

def SameLinks (h h' : ListHeap) (ns : List Nat) : Prop :=
  ∀ a ∈ ns, (h'.cell a).prev = (h.cell a).prev ∧ (h'.cell a).next = (h.cell a).next

theorem SameLinks.ring {h' : ListHeap} (hsame : h.SameLinks h' ns) (hring : h.Ring ns) : h'.Ring ns := by
  cases ns with
  | nil => trivial
  | cons n ns =>
    have hring : h.IsRing n ns := hring
    refine ⟨hring.nodup, hring.ne_zero, ?_⟩
    apply isChain_of_linked hring.chain
    . intro a ha
      rw [← List.cons_append, List.dropLast_concat] at ha
      exact (hsame a ha).2
    . intro a ha
      rw [List.tail_cons, (List.perm_append_singleton n ns).mem_iff] at ha
      exact (hsame a ha).1

theorem IsRing.next_eq {n : Nat} (hring : h.IsRing n ns) : (h.cell n).next = ns.headD n := by
  have hchain := hring.chain
  cases ns with
  | nil => exact (List.isChain_pair.mp hchain).1
  | cons b ns =>
    rw [List.cons_append, List.isChain_cons_cons] at hchain
    exact hchain.1.1

theorem IsRing.prev_eq {n : Nat} (hring : h.IsRing n ns) : (h.cell n).prev = ns.getLastD n := by
  cases ns using List.reverseRecOn with
  | nil => exact (List.isChain_pair.mp hring.chain).2
  | append_singleton l z =>
    rw [hring.last.2, List.getLastD_concat]

/--
The order of a ring tells its links.
-/
theorem Ring.sameLinks {h' : ListHeap} (hring : h.Ring ns) (hring' : h'.Ring ns) : h.SameLinks h' ns := by
  intro a ha
  obtain ⟨before, after, rfl⟩ := List.append_of_mem ha
  have hrot : before ++ a :: after ~r a :: (after ++ before) := List.isRotated_append
  have hfirst : h.IsRing a (after ++ before) := hring.isRotated hrot
  have hfirst' : h'.IsRing a (after ++ before) := hring'.isRotated hrot
  rw [hfirst.prev_eq, hfirst'.prev_eq, hfirst.next_eq, hfirst'.next_eq]
  exact ⟨rfl, rfl⟩

/--
What is left of the object that was freed.
-/
def cleared (h : ListHeap) (x : Nat) : ListHeap := ((h.setNext x 0).setPrev x 0).setData x 0

theorem next_cleared (h : ListHeap) (x : Nat) : ((h.cleared x).cell x).next = 0 := by
  rw [cleared, next_setData, next_setPrev, next_setNext, if_pos rfl]

theorem sameLinks_cleared (h : ListHeap) (hx : x ∉ ns) : h.SameLinks (h.cleared x) ns := by
  intro a ha
  have hne : a ≠ x := fun heq => hx (heq ▸ ha)
  rw [cleared, prev_setData, prev_setPrev, if_neg hne, prev_setNext, next_setData, next_setPrev, next_setNext, if_neg hne]
  exact ⟨rfl, rfl⟩

theorem listDelete_eq (hx : x ≠ 0) (slab : SlabMem) (fuel : Nat)
    : h.listDelete slab fuel x
        =
      (slab.kfree fuel x).map fun slab' => (((h.unlink x).storeWords (slab.kfreeStores fuel x)).cleared x, slab') := by
  rw [listDelete, if_neg hx]
  simp only [kfree]
  cases slab.kfree fuel x <;> rfl

/--
`list_iter` from a freed head calls the callback on the freed node, whose `next` is `NULL`.
-/
theorem iterVisits_cleared (h : ListHeap) (hx : x ≠ 0) : (h.cleared x).IterVisits x [x] := by
  intro σ callback s fuel hfuel
  obtain ⟨fuel, rfl⟩ := Nat.exists_eq_succ_of_ne_zero (Nat.one_le_iff_ne_zero.mp hfuel)
  have hiter : (h.cleared x).listIter x (traced callback) (fuel + 1) ([], s) = visit (traced callback) ([], s) [x] := by
    rw [listIter, if_neg hx, listIter.loop, if_neg hx, visit]
    congr 1
    funext p
    simp only [next_cleared, ne_eq, not_true_eq_false, false_and, if_false, visit]
    rfl
  rw [hiter]
  apply visit_traced

end Delete

section Insertions

def nodes (is : List NodeInsertion) : List Nat := visitOrder (is.map NodeInsertion.node)

theorem insertions_ring (h : ListHeap) {is : List NodeInsertion} (hnodup : (is.map NodeInsertion.node).Nodup)
    (hne : ∀ j ∈ is, j.node ≠ 0)
    : ∃ h', Run.run insertNode (h, 0) is = some (h', (nodes is).headD 0) ∧ h'.Ring (nodes is)
        ∧ ∀ j ∈ is, (h'.cell j.node).data = j.data := by
  cases is with
  | nil =>
    refine ⟨h, rfl, trivial, ?_⟩
    intro j hj
    cases hj
  | cons i is =>
    obtain ⟨h', hrun, hring, hdata⟩ := insert_ring h i is hnodup hne
    refine ⟨h', hrun, ?_, hdata⟩
    rw [List.map_reverse] at hring
    exact hring

theorem listIter_insertions (h : ListHeap) (is : List NodeInsertion) (hnodup : (is.map NodeInsertion.node).Nodup)
    (hne : ∀ j ∈ is, j.node ≠ 0)
    : ∃ h' head, Run.run insertNode (h, 0) is = some (h', head)
        ∧ h'.Ring (visitOrder (is.map NodeInsertion.node))
        ∧ h'.MutuallyInverse (is.map NodeInsertion.node)
        ∧ (∀ j ∈ is, (h'.cell j.node).data = j.data)
        ∧ h'.IterVisits head (visitOrder (is.map NodeInsertion.node)) := by
  obtain ⟨h', hrun, hring, hdata⟩ := insertions_ring h hnodup hne
  refine ⟨h', _, hrun, hring, ?_, hdata, ?_⟩
  . intro a ha
    have hinverse := hring.mutuallyInverse a (mem_visitOrder.mpr ha)
    simp only [nodes, mem_visitOrder] at hinverse
    exact hinverse
  . rw [nodes] at hring ⊢
    cases horder : visitOrder (is.map NodeInsertion.node) with
    | nil =>
      intro σ callback s fuel _
      refine ⟨[], s, ?_, List.prefix_rfl, ?_, Or.inl rfl⟩
      . rw [listIter, if_pos List.headD_nil]
      . intro r hr
        cases hr
    | cons n ns =>
      rw [horder] at hring
      exact hring.iterVisits

theorem listIter_insertions_three
    : ∃ h' head, Run.run insertNode (⟨fun _ => ⟨0, 0, 0⟩⟩, 0) [⟨7, 16⟩, ⟨8, 48⟩, ⟨9, 32⟩] = some (h', head)
        ∧ h'.Ring [16, 32, 48]
        ∧ h'.MutuallyInverse [16, 48, 32]
        ∧ (∀ j ∈ [(⟨7, 16⟩ : NodeInsertion), ⟨8, 48⟩, ⟨9, 32⟩], (h'.cell j.node).data = j.data)
        ∧ h'.IterVisits head [16, 32, 48] := by
  exact listIter_insertions ⟨fun _ => ⟨0, 0, 0⟩⟩ [⟨7, 16⟩, ⟨8, 48⟩, ⟨9, 32⟩] (by decide) (by decide)

/--
`list_delete x` of a ring that `list_insert` built does what its caller expects: it comes back, the other nodes are a
ring, and `list_iter` from the caller's head visits them in their cyclic order.
-/
def DeletesCleanly (h : ListHeap) (slab : SlabMem) (fuel head x : Nat) (order : List Nat) : Prop :=
  ∃ h' slab', h.listDelete slab fuel x = some (h', slab')
    ∧ h'.Ring (order.erase x)
    ∧ h'.MutuallyInverse (order.erase x)
    ∧ ∃ order', order' ~r order.erase x ∧ h'.IterVisits head order'

/--
`kfree` comes back, and no word that it writes changes a link of the nodes that remain.
-/
def ReleaseOk (h : ListHeap) (slab : SlabMem) (fuel x : Nat) (order : List Nat) : Prop :=
  (slab.kfree fuel x).isSome
    ∧ (h.unlink x).SameLinks ((h.unlink x).storeWords (slab.kfreeStores fuel x)) (order.erase x)

/--
`list_delete` is not given the caller's head: it serves every node except the one that the head points to, if `kfree`
leaves the others alone.
-/
theorem deletesCleanly_iff (h : ListHeap) (slab : SlabMem) (fuel : Nat) (i : NodeInsertion) (is : List NodeInsertion)
    (hnodup : ((i :: is).map NodeInsertion.node).Nodup) (hne : ∀ j ∈ i :: is, j.node ≠ 0) (x : Nat)
    (hx : x ∈ (i :: is).map NodeInsertion.node)
    : ∃ h' head, Run.run insertNode (h, 0) (i :: is) = some (h', head)
        ∧ (h'.DeletesCleanly slab fuel head x (visitOrder ((i :: is).map NodeInsertion.node))
            ↔
          x ≠ head ∧ h'.ReleaseOk slab fuel x (visitOrder ((i :: is).map NodeInsertion.node))) := by
  obtain ⟨h', hrun, hring, -⟩ := insertions_ring h hnodup hne
  refine ⟨h', i.node, hrun, ?_⟩
  rw [nodes, List.map_cons, visitOrder] at hring
  rw [List.map_cons, visitOrder]
  have hmem : x ∈ i.node :: (is.map NodeInsertion.node).reverse := by
    rw [List.mem_cons, List.mem_reverse, ← List.mem_cons]
    exact hx
  have hzero : x ≠ 0 := IsRing.ne_zero hring x hmem
  have hnot : x ∉ (i.node :: (is.map NodeInsertion.node).reverse).erase x := (IsRing.nodup hring).not_mem_erase
  have hrest := unlink_erase hring hmem
  have hstays (h₁ : ListHeap) := h₁.sameLinks_cleared hnot
  unfold DeletesCleanly ReleaseOk
  rw [listDelete_eq hzero]
  constructor
  . rintro ⟨h₂, slab', hdelete, hring₂, -, order', hrot, hvisits⟩
    obtain ⟨slab'', hfree, heq⟩ := Option.map_eq_some_iff.mp hdelete
    obtain ⟨rfl, -⟩ := Prod.mk.inj heq
    refine ⟨?_, by rw [hfree]; rfl, ?_⟩
    . rintro rfl
      -- `list_iter` calls the callback on the freed node, which is none of the remaining ones
      have horder := hvisits.unique (iterVisits_cleared _ hzero)
      apply hnot
      rw [← hrot.mem_iff, horder]
      exact List.mem_singleton_self _
    . intro a ha
      obtain ⟨hprev, hnext⟩ := hrest.sameLinks hring₂ a ha
      obtain ⟨hprev', hnext'⟩ := hstays _ a ha
      exact ⟨hprev'.symm.trans hprev, hnext'.symm.trans hnext⟩
  . rintro ⟨hxn, hfree, hsame⟩
    obtain ⟨slab', hfree⟩ := Option.isSome_iff_exists.mp hfree
    have hring₂ := (hstays _).ring (hsame.ring hrest)
    refine ⟨_, slab', by rw [hfree]; rfl, hring₂, hring₂.mutuallyInverse, _, List.IsRotated.refl _, ?_⟩
    rw [List.erase_cons_tail (by simpa using Ne.symm hxn)] at hring₂ ⊢
    exact hring₂.iterVisits

instance (h h' : ListHeap) (ns : List Nat) : Decidable (h.SameLinks h' ns) := by
  unfold SameLinks
  infer_instance

instance (h : ListHeap) (slab : SlabMem) (fuel x : Nat) (order : List Nat)
    : Decidable (h.ReleaseOk slab fuel x order) := by
  unfold ReleaseOk
  infer_instance

/--
The allocator after `slab_init` and the allocation of three nodes.
-/
def exampleSlab : SlabMem :=
  ((Run.run (SlabHeap.step 13) ⟨SlabHeap.booted, [], []⟩
    [.kmalloc 12 0xC0201000, .kmalloc 12 0, .kmalloc 12 0]).get (by decide +kernel)).mem

/--
What `kmalloc` has returned for them.
-/
def exampleNodes : List NodeInsertion := [⟨7, 0xC020155C⟩, ⟨8, 0xC020156C⟩, ⟨9, 0xC020157C⟩]

/--
The node in the middle of three.
-/
theorem deletesCleanly_iff_two
    : ∃ h' head, Run.run insertNode (⟨fun _ => ⟨0, 0, 0⟩⟩, 0) exampleNodes = some (h', head)
        ∧ h'.DeletesCleanly exampleSlab 1 head 0xC020156C [0xC020155C, 0xC020157C, 0xC020156C] := by
  obtain ⟨h', head, hrun, hiff⟩ := deletesCleanly_iff ⟨fun _ => ⟨0, 0, 0⟩⟩ exampleSlab 1 ⟨7, 0xC020155C⟩
    [⟨8, 0xC020156C⟩, ⟨9, 0xC020157C⟩] (by decide) (by decide) 0xC020156C (by decide)
  refine ⟨h', head, hrun, hiff.mpr ?_⟩
  have hok : ((Run.run insertNode (⟨fun _ => ⟨0, 0, 0⟩⟩, 0) exampleNodes).map fun r =>
      decide (0xC020156C ≠ r.2 ∧ r.1.ReleaseOk exampleSlab 1 0xC020156C [0xC020155C, 0xC020157C, 0xC020156C]))
      = some true := by
    decide +kernel
  rw [exampleNodes, hrun, Option.map_some, Option.some.injEq] at hok
  exact of_decide_eq_true hok

/--
The node that the caller's head points to: `list_iter` calls the callback on it and stops.
-/
theorem not_deletesCleanly
    : ∃ h' h₂ slab', Run.run insertNode (⟨fun _ => ⟨0, 0, 0⟩⟩, 0) exampleNodes = some (h', 0xC020155C)
        ∧ h'.listDelete exampleSlab 1 0xC020155C = some (h₂, slab')
        ∧ h₂.listIter 0xC020155C (traced fun (s : Unit) _ => (0, s)) 3 ([], ()) = some ([0xC020155C], ())
        ∧ ¬ h'.DeletesCleanly exampleSlab 1 0xC020155C 0xC020155C [0xC020155C, 0xC020157C, 0xC020156C] := by
  obtain ⟨h', hrun, hring, -⟩ := @insertions_ring ⟨fun _ => ⟨0, 0, 0⟩⟩ exampleNodes (by decide) (by decide)
  obtain ⟨slab', hfree⟩ := Option.isSome_iff_exists.mp
    (show (exampleSlab.kfree 1 0xC020155C).isSome by decide +kernel)
  let h₂ := ((h'.unlink 0xC020155C).storeWords (exampleSlab.kfreeStores 1 0xC020155C)).cleared 0xC020155C
  have hdelete : h'.listDelete exampleSlab 1 0xC020155C = some (h₂, slab') := by
    rw [listDelete_eq (by decide), hfree]
    rfl
  have hvisits : h₂.IterVisits 0xC020155C [0xC020155C] := iterVisits_cleared _ (by decide)
  refine ⟨h', h₂, slab', hrun, hdelete, ?_, ?_⟩
  . obtain ⟨called, s', hiter, hcalls⟩ := hvisits (fun s _ => (0, s)) () 3 (by decide)
    rw [hiter, hcalls.all]
  . rintro ⟨h₃, slab'', hdelete', -, -, order', hrot, hvisits'⟩
    rw [hdelete, Option.some.injEq, Prod.mk.injEq] at hdelete'
    rw [← hdelete'.1] at hvisits'
    have horder := hvisits'.unique hvisits
    rw [horder] at hrot
    have hmem : 0xC020155C ∈ [0xC020155C, 0xC020157C, 0xC020156C].erase 0xC020155C :=
      hrot.mem_iff.mp (List.mem_singleton_self _)
    exact absurd hmem (by decide)

end Insertions

end ListHeap
end Osproj
