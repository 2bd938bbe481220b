import Mathlib.Data.List.Chain
import Osproj.Base.Run
import Osproj.Lib.Impl.List

/-!
This module contains the ring that `list_insert` builds, and the order in which `list_iter` visits it.
-/

namespace Osproj
namespace ListHeap

def Linked (h : ListHeap) (a b : Nat) : Prop := (h.cell a).next = b ∧ (h.cell b).prev = a

structure IsRing (h : ListHeap) (n : Nat) (ns : List Nat) : Prop where
  nodup : (n :: ns).Nodup
  ne_zero (a : Nat) (ha : a ∈ n :: ns) : a ≠ 0
  chain : List.IsChain h.Linked (n :: (ns ++ [n]))

def visit {σ : Type} (callback : σ → Nat → Option (Int × σ)) : σ → List Nat → Option σ
  | s, [] => some s
  | s, n :: ns => do
    let (result, s) ← callback s n
    if result ≠ 0 then return s else visit callback s ns

section Set

variable (h : ListHeap) (a b v : Nat)

theorem set_self (node : ListNode) : (h.set a node).cell a = node := by
  exact Function.update_self a node h.cell

theorem set_of_ne {a b : Nat} (node : ListNode) (hne : b ≠ a) : (h.set a node).cell b = h.cell b := by
  exact Function.update_of_ne hne node h.cell

theorem next_setPrev : ((h.setPrev a v).cell b).next = (h.cell b).next := by
  by_cases hb : b = a
  . rw [hb, setPrev, set_self]
  . rw [setPrev, set_of_ne _ _ hb]

theorem prev_setNext : ((h.setNext a v).cell b).prev = (h.cell b).prev := by
  by_cases hb : b = a
  . rw [hb, setNext, set_self]
  . rw [setNext, set_of_ne _ _ hb]

theorem next_setNext : ((h.setNext a v).cell b).next = if b = a then v else (h.cell b).next := by
  by_cases hb : b = a
  . rw [if_pos hb, hb, setNext, set_self]
  . rw [if_neg hb, setNext, set_of_ne _ _ hb]

theorem prev_setPrev : ((h.setPrev a v).cell b).prev = if b = a then v else (h.cell b).prev := by
  by_cases hb : b = a
  . rw [if_pos hb, hb, setPrev, set_self]
  . rw [if_neg hb, setPrev, set_of_ne _ _ hb]

theorem data_setNext : ((h.setNext a v).cell b).data = (h.cell b).data := by
  by_cases hb : b = a
  . rw [hb, setNext, set_self]
  . rw [setNext, set_of_ne _ _ hb]

theorem data_setPrev : ((h.setPrev a v).cell b).data = (h.cell b).data := by
  by_cases hb : b = a
  . rw [hb, setPrev, set_self]
  . rw [setPrev, set_of_ne _ _ hb]

end Set

section Insert

variable {h : ListHeap} {n node data : Nat} {ns : List Nat}

theorem listInsert_nil (hnode : node ≠ 0)
    : ∃ h', h.listInsert 0 data node = some (h', node) ∧ h'.IsRing node [] ∧ (h'.cell node).data = data := by
  let h₁ := h.set node { prev := 0, next := 0, data }
  refine ⟨(h₁.setPrev node node).setNext node node, ?_, ?_, ?_⟩
  . rw [listInsert, if_neg hnode, if_pos rfl]
  . constructor
    . exact List.nodup_cons.mpr ⟨List.not_mem_nil, List.nodup_nil⟩
    . intro a ha
      rw [List.mem_singleton.mp ha]
      exact hnode
    . refine List.isChain_pair.mpr ⟨?_, ?_⟩
      . rw [next_setNext, if_pos rfl]
      . rw [prev_setNext, prev_setPrev, if_pos rfl]
  . rw [data_setNext, data_setPrev, set_self]

theorem isChain_of_linked {h h' : ListHeap} {l : List Nat} (hchain : List.IsChain h.Linked l)
    (hnext : ∀ a ∈ l.dropLast, (h'.cell a).next = (h.cell a).next)
    (hprev : ∀ a ∈ l.tail, (h'.cell a).prev = (h.cell a).prev)
    : List.IsChain h'.Linked l := by
  induction l with
  | nil => exact List.IsChain.nil
  | cons a l ih =>
    cases l with
    | nil => exact List.IsChain.singleton a
    | cons b l =>
      rw [List.isChain_cons_cons] at hchain ⊢
      refine ⟨⟨?_, ?_⟩, ih hchain.2 ?_ ?_⟩
      . rw [hnext a (by simp), hchain.1.1]
      . rw [hprev b (by simp), hchain.1.2]
      . intro c hc
        exact hnext c (by simp [hc])
      . intro c hc
        exact hprev c (by simp only [List.tail_cons] at hc ⊢; exact List.mem_cons_of_mem b hc)

theorem listInsert_ring (hring : h.IsRing n ns) (hnode : node ≠ 0) (hnew : node ∉ n :: ns)
    : ∃ h', h.listInsert n data node = some (h', n) ∧ h'.IsRing n (node :: ns)
        ∧ (h'.cell node).data = data ∧ ∀ a ∈ n :: ns, (h'.cell a).data = (h.cell a).data := by
  obtain ⟨first, rest, hfirst⟩ : ∃ first rest, ns ++ [n] = first :: rest :=
    List.exists_cons_of_ne_nil (by simp)
  have hmem (a : Nat) : a ∈ n :: ns ↔ a ∈ first :: rest := by
    rw [← hfirst, List.mem_append, List.mem_singleton, List.mem_cons]
    exact Or.comm
  have hnodup : (first :: rest).Nodup := by
    rw [← hfirst]
    exact (List.perm_append_singleton n ns).nodup_iff.mpr hring.nodup
  have hchain := hring.chain
  rw [hfirst, List.isChain_cons_cons] at hchain
  have hfirst_mem : first ∈ n :: ns := (hmem first).mpr (List.mem_cons_self ..)
  have hn : n ≠ node := fun heq => hnew (heq ▸ List.mem_cons_self ..)
  have hf : first ≠ node := fun heq => hnew (heq ▸ hfirst_mem)
  have hnext_n : (h.cell n).next = first := hchain.1.1
  let h₁ := h.set node { prev := 0, next := 0, data }
  have hcell₁ {a : Nat} (ha : a ≠ node) : h₁.cell a = h.cell a := set_of_ne h _ ha
  let h₂ := (h₁.setNext node first).setPrev node n
  let h' := (h₂.setPrev first node).setNext n node
  have hnext (a : Nat) (ha : a ≠ n) (ha' : a ≠ node) : (h'.cell a).next = (h.cell a).next := by
    rw [next_setNext, if_neg ha, next_setPrev, next_setPrev, next_setNext, if_neg ha', hcell₁ ha']
  have hprev (a : Nat) (ha : a ≠ first) (ha' : a ≠ node) : (h'.cell a).prev = (h.cell a).prev := by
    rw [prev_setNext, prev_setPrev, if_neg ha, prev_setPrev, if_neg ha', prev_setNext, hcell₁ ha']
  have hdata (a : Nat) : (h'.cell a).data = (h₁.cell a).data := by
    rw [data_setNext, data_setPrev, data_setPrev, data_setNext]
  refine ⟨h', ?_, ⟨?_, ?_, ?_⟩, ?_, ?_⟩
  . have hnonzero : first ≠ 0 := hring.ne_zero first hfirst_mem
    have hnext₁ : (h₁.cell n).next = first := by
      rw [hcell₁ hn, hnext_n]
    have hnext₂ : (h₂.cell n).next = first := by
      rw [next_setPrev, next_setNext, if_neg hn, hnext₁]
    simp only [listInsert]
    rw [if_neg hnode, if_neg (hring.ne_zero n (List.mem_cons_self ..))]
    change (if (h₁.cell n).next = 0 then none else some
      (((((h₁.setNext node (h₁.cell n).next).setPrev node n).setPrev
        (((h₁.setNext node (h₁.cell n).next).setPrev node n).cell n).next node).setNext n node), n)) = _
    rw [hnext₁, if_neg hnonzero]
    change some ((h₂.setPrev (h₂.cell n).next node).setNext n node, n) = _
    rw [hnext₂]
  . have hperm : List.Perm (n :: node :: ns) (node :: n :: ns) := List.Perm.swap node n ns
    rw [hperm.nodup_iff]
    exact List.nodup_cons.mpr ⟨hnew, hring.nodup⟩
  . intro a ha
    rcases List.mem_cons.mp ha with rfl | ha
    . exact hring.ne_zero a (List.mem_cons_self ..)
    . rcases List.mem_cons.mp ha with rfl | ha
      . exact hnode
      . exact hring.ne_zero a (List.mem_cons_of_mem n ha)
  . rw [List.cons_append, hfirst]
    refine List.IsChain.cons_cons ⟨?_, ?_⟩ (List.IsChain.cons_cons ⟨?_, ?_⟩ ?_)
    . rw [next_setNext, if_pos rfl]
    . rw [prev_setNext, prev_setPrev, if_neg (Ne.symm hf), prev_setPrev, if_pos rfl]
    . rw [next_setNext, if_neg (Ne.symm hn), next_setPrev, next_setPrev, next_setNext, if_pos rfl]
    . rw [prev_setNext, prev_setPrev, if_pos rfl]
    . apply isChain_of_linked hchain.2
      . intro a ha
        rw [← hfirst, List.dropLast_concat] at ha
        apply hnext
        . rintro rfl
          exact (List.nodup_cons.mp hring.nodup).1 ha
        . rintro rfl
          exact hnew (List.mem_cons_of_mem n ha)
      . intro a ha
        rw [List.tail_cons] at ha
        apply hprev
        . rintro rfl
          exact (List.nodup_cons.mp hnodup).1 ha
        . rintro rfl
          exact hnew ((hmem a).mpr (List.mem_cons_of_mem first ha))
  . rw [hdata, set_self]
  . intro a ha
    rw [hdata, hcell₁]
    rintro rfl
    exact hnew ha

structure NodeInsertion where
  data : Nat
  node : Nat

def insertNode (s : ListHeap × Nat) (i : NodeInsertion) : Option (ListHeap × Nat) := s.1.listInsert s.2 i.data i.node

def visitOrder {α : Type} : List α → List α
  | [] => []
  | a :: as => a :: as.reverse

theorem mem_visitOrder {α : Type} {a : α} {as : List α} : a ∈ visitOrder as ↔ a ∈ as := by
  cases as with
  | nil => rfl
  | cons b as => rw [visitOrder, List.mem_cons, List.mem_cons, List.mem_reverse]

theorem insert_ring (h : ListHeap) (i : NodeInsertion) (is : List NodeInsertion)
    (hnodup : ((i :: is).map NodeInsertion.node).Nodup) (hne : ∀ j ∈ i :: is, j.node ≠ 0)
    : ∃ h', Run.run insertNode (h, 0) (i :: is) = some (h', i.node)
        ∧ h'.IsRing i.node (is.reverse.map NodeInsertion.node)
        ∧ ∀ j ∈ i :: is, (h'.cell j.node).data = j.data := by
  induction is using List.reverseRecOn with
  | nil =>
    obtain ⟨h', hinsert, hring, hdata⟩ := @listInsert_nil h i.node i.data (hne i (List.mem_cons_self ..))
    refine ⟨h', ?_, hring, ?_⟩
    . simp only [Run.run_cons, insertNode, hinsert, Option.bind_some, Run.run_nil]
    . intro j hj
      rw [List.mem_singleton.mp hj]
      exact hdata
  | append_singleton is k ih =>
    rw [← List.cons_append, List.map_append, List.nodup_append] at hnodup
    obtain ⟨hnodup, -, hother⟩ := hnodup
    rw [← List.cons_append] at hne
    obtain ⟨h₁, hrun, hring, hdata⟩ := ih hnodup (fun j hj => hne j (List.mem_append_left _ hj))
    have hnew (j : NodeInsertion) (hj : j ∈ i :: is) : j.node ≠ k.node :=
      hother j.node (List.mem_map_of_mem hj) k.node (List.mem_singleton_self _)
    have hmem (a : Nat) (ha : a ∈ i.node :: is.reverse.map NodeInsertion.node)
        : ∃ j ∈ i :: is, j.node = a := by
      rw [List.map_reverse, List.mem_cons, List.mem_reverse, ← List.mem_cons, ← List.map_cons] at ha
      exact List.mem_map.mp ha
    have hnode : k.node ∉ i.node :: is.reverse.map NodeInsertion.node := by
      intro hmem'
      obtain ⟨j, hj, heq⟩ := hmem _ hmem'
      exact hnew j hj heq
    obtain ⟨h', hinsert, hring', hdata', hsame⟩ := @listInsert_ring h₁ i.node k.node k.data _ hring
      (hne k (List.mem_append_right _ (List.mem_singleton_self k))) hnode
    refine ⟨h', ?_, ?_, ?_⟩
    . rw [← List.cons_append, Run.run_append, hrun, Option.bind_some, Run.run_cons]
      simp only [insertNode, hinsert, Option.bind_some, Run.run_nil]
    . rw [List.reverse_append]
      exact hring'
    . intro j hj
      rw [← List.cons_append, List.mem_append, List.mem_singleton] at hj
      rcases hj with hj | rfl
      . rw [hsame, hdata j hj]
        rw [List.map_reverse, List.mem_cons, List.mem_reverse, ← List.mem_cons, ← List.map_cons]
        exact List.mem_map_of_mem hj
      . exact hdata'

end Insert

section Iter

variable {σ : Type} {h : ListHeap} {n : Nat} {callback : σ → Nat → Option (Int × σ)}

theorem loop_eq {a : Nat} {ns : List Nat} (hchain : List.IsChain h.Linked (a :: (ns ++ [n])))
    (hne : ∀ b ∈ a :: ns, b ≠ 0) (hother : n ∉ ns) {fuel : Nat} (hfuel : ns.length < fuel) (s : σ)
    : listIter.loop h n callback fuel s a = visit callback s (a :: ns) := by
  induction ns generalizing a fuel s with
  | nil =>
    obtain ⟨fuel, rfl⟩ := Nat.exists_eq_succ_of_ne_zero (Nat.ne_of_gt hfuel)
    have hnext : (h.cell a).next = n := (List.isChain_pair.mp hchain).1
    rw [listIter.loop, if_neg (hne a (List.mem_cons_self ..)), visit]
    congr 1
    funext p
    simp only [hnext, ne_eq, not_true_eq_false, and_false, if_false, visit]
    rfl
  | cons b ns ih =>
    rw [List.length_cons] at hfuel
    obtain ⟨fuel, rfl⟩ := Nat.exists_eq_succ_of_ne_zero (show fuel ≠ 0 by omega)
    rw [List.cons_append, List.isChain_cons_cons] at hchain
    have hnext : (h.cell a).next = b := hchain.1.1
    have hb : b ≠ 0 := hne b (List.mem_cons_of_mem a (List.mem_cons_self ..))
    have hbn : b ≠ n := fun heq => hother (heq ▸ List.mem_cons_self ..)
    have hrest (s : σ) : listIter.loop h n callback fuel s b = visit callback s (b :: ns) :=
      ih hchain.2 (fun c hc => hne c (List.mem_cons_of_mem a hc))
        (fun hn => hother (List.mem_cons_of_mem b hn)) (by omega) s
    rw [listIter.loop, if_neg (hne a (List.mem_cons_self ..)), visit]
    congr 1
    funext p
    simp only [hnext, hrest, hb, hbn, ne_eq, not_false_eq_true, and_self, if_true]

theorem listIter_eq {ns : List Nat} (hring : h.IsRing n ns) {fuel : Nat} (hfuel : ns.length < fuel) (s : σ)
    : h.listIter n callback fuel s = visit callback s (n :: ns) := by
  rw [listIter, if_neg (hring.ne_zero n (List.mem_cons_self ..))]
  exact loop_eq hring.chain hring.ne_zero (List.nodup_cons.mp hring.nodup).1 hfuel s

/--
What the callback keeps is kept, whatever the list is.
-/
theorem listIter_invariant {P : σ → Prop} (hstep : ∀ s a r s', P s → callback s a = some (r, s') → P s') {fuel : Nat}
    {s s' : σ} (hs : P s) (h' : h.listIter n callback fuel s = some s')
    : P s' := by
  have hloop (fuel a : Nat) (s : σ) (hs : P s) (h' : listIter.loop h n callback fuel s a = some s') : P s' := by
    induction fuel generalizing s a with
    | zero => cases h'
    | succ fuel ih =>
      rw [listIter.loop] at h'
      split at h'
      . exact Option.some.inj h' ▸ hs
      . obtain ⟨⟨r, s₁⟩, hcall, h'⟩ := Option.bind_eq_some_iff.mp h'
        have hs₁ := hstep s a r s₁ hs hcall
        dsimp only at h'
        split at h'
        . exact Option.some.inj h' ▸ hs₁
        . split at h'
          . exact ih _ s₁ hs₁ h'
          . exact Option.some.inj h' ▸ hs₁
  rw [listIter] at h'
  split at h'
  . exact Option.some.inj h' ▸ hs
  . exact hloop fuel n s hs h'

end Iter

end ListHeap
end Osproj
