import Osproj.Lib.Lemmas.LinkedTree

/-!
This module contains the refinement of the trees in memory: which tree the nodes below an address stand
for, and which tree they stand for after a rotation and after an insertion.
-/

namespace Osproj
namespace Bst

open BinaryTree SearchTree LinkedTree

section Nodes

variable {s : Bst} {p q : Nat} {n : BstNode}

@[simp]
theorem node_set_self (s : Bst) (p : Nat) (n : BstNode) : (s.set p n).node p = some n := by
  simp [set]

theorem node_set_of_ne (s : Bst) (n : BstNode) (h : q ≠ p) : (s.set p n).node q = s.node q := by
  simp [set, h]

theorem deref_eq (hp : p ≠ 0) (h : s.node p = some n) : s.deref p = some n := by
  rw [deref, if_neg hp, h]

theorem height_eq (hp : p ≠ 0) (h : s.node p = some n) : s.height p = some n.height := by
  rw [height, if_neg hp, deref_eq hp h]
  rfl

theorem height_congr {s' : Bst} (h : s'.node p = s.node p) : s'.height p = s.height p := by
  simp only [height, deref, h]

@[simp]
theorem child_setChild (n : BstNode) (side : Side) : (n.setChild side p).child side = p := by
  cases side <;> rfl

@[simp]
theorem child_other_setChild (n : BstNode) (side : Side)
    : (n.setChild side p).child side.other = n.child side.other := by
  cases side <;> rfl

@[simp]
theorem child_setChild_other (n : BstNode) (side : Side)
    : (n.setChild side.other p).child side = n.child side := by
  cases side <;> rfl

@[simp]
theorem id_setChild (n : BstNode) (side : Side) : (n.setChild side p).id = n.id := by
  cases side <;> rfl

@[simp]
theorem data_setChild (n : BstNode) (side : Side) : (n.setChild side p).data = n.data := by
  cases side <;> rfl

theorem setChild_child (n : BstNode) (side : Side) : n.setChild side (n.child side) = n := by
  cases side <;> rfl

@[simp]
theorem child_height (n : BstNode) (side : Side) (h : Int)
    : { n with height := h }.child side = n.child side := by
  cases side <;> rfl

@[simp]
theorem child_parent (n : BstNode) (side : Side) : { n with parent := q }.child side = n.child side := by
  cases side <;> rfl

theorem updateHeight_eq (side : Side) {h h' : Int} (hp : p ≠ 0) (hn : s.node p = some n)
    (hchild : s.height (n.child side) = some h) (hother : s.height (n.child side.other) = some h')
    : s.updateHeight p = some (s.set p { n with height := max h h' + 1 }) := by
  cases side with
  | child1 =>
    simp only [BstNode.child, Side.other] at hchild hother
    simp only [updateHeight, deref_eq hp hn, hchild, hother, Option.bind_eq_bind, Option.bind_some,
      Option.pure_def]
  | child2 =>
    simp only [BstNode.child, Side.other] at hchild hother
    simp only [updateHeight, deref_eq hp hn, hchild, hother, Option.bind_eq_bind, Option.bind_some,
      Option.pure_def, max_comm h h']

theorem balanceFactor_eq {h1 h2 : Int} (hp : p ≠ 0) (hn : s.node p = some n)
    (hchild1 : s.height n.child1 = some h1) (hchild2 : s.height n.child2 = some h2)
    : s.balanceFactor p = some (h1 - h2) := by
  simp only [balanceFactor, if_neg hp, deref_eq hp hn, hchild1, hchild2, Option.bind_eq_bind,
    Option.bind_some, Option.pure_def]

theorem rotate_eq (side : Side) {x : Nat} {np nx : BstNode} {h1 h2 h3 : Int} (hp : p ≠ 0)
    (hx : x ≠ 0) (hne : p ≠ x) (hnp : s.node p = some np) (hnx : s.node x = some nx)
    (hchild : np.child side = x)
    (h1eq : s.height (nx.child side.other) = some h1)
    (h2eq : s.height (np.child side.other) = some h2)
    (h3eq : s.height (nx.child side) = some h3)
    (hout : ∀ c ∈ [nx.child side.other, np.child side.other, nx.child side], c ≠ p ∧ c ≠ x)
    : ∃ s', s.rotate side p = some (x, s')
        ∧ s'.root = s.root
        ∧ s'.node p
            = some { np.setChild side (nx.child side.other) with height := max h1 h2 + 1 }
        ∧ s'.node x
            = some { nx.setChild side.other p with height := max h3 (max h1 h2 + 1) + 1 }
        ∧ (∀ a, a ≠ p → a ≠ x → s'.node a = s.node a) := by
  simp only [List.mem_cons, List.not_mem_nil, or_false, forall_eq_or_imp, forall_eq] at hout
  obtain ⟨⟨hb, hb'⟩, ⟨hu, hu'⟩, ⟨ht, ht'⟩⟩ := hout
  -- the two links
  let s₁ := s.set x (nx.setChild side.other p)
  let s₂ := s₁.set p (np.setChild side (nx.child side.other))
  have hs₁p : s₁.node p = some np := by
    rw [node_set_of_ne _ _ hne, hnp]
  have hs₂ (a : Nat) (ha : a ≠ p) (ha' : a ≠ x) : s₂.node a = s.node a := by
    rw [node_set_of_ne _ _ ha, node_set_of_ne _ _ ha']
  have hs₂x : s₂.node x = some (nx.setChild side.other p) := by
    rw [node_set_of_ne _ _ hne.symm, node_set_self]
  -- the height of the node that goes down
  let np' : BstNode := { np.setChild side (nx.child side.other) with height := max h1 h2 + 1 }
  have hheight : s₂.updateHeight p = some (s₂.set p np') := by
    apply updateHeight_eq side hp (node_set_self _ _ _)
    . rw [child_setChild, height_congr (hs₂ _ hb hb'), h1eq]
    . rw [child_other_setChild, height_congr (hs₂ _ hu hu'), h2eq]
  -- the height of the node that comes up
  let nx' : BstNode := { nx.setChild side.other p with height := max h3 (max h1 h2 + 1) + 1 }
  have hs₃x : (s₂.set p np').node x = some (nx.setChild side.other p) := by
    rw [node_set_of_ne _ _ hne.symm, hs₂x]
  have hheight' : (s₂.set p np').updateHeight x = some ((s₂.set p np').set x nx') := by
    apply updateHeight_eq side hx hs₃x
    . rw [child_setChild_other, height_congr (node_set_of_ne _ _ ht), height_congr (hs₂ _ ht ht'),
        h3eq]
    . rw [child_setChild, height_eq hp (node_set_self _ _ _)]
  refine ⟨(s₂.set p np').set x nx', ?_, rfl, ?_, node_set_self _ _ _, ?_⟩
  . have hderef : (s.set x (nx.setChild side.other p)).deref p = some np := deref_eq hp hs₁p
    simp only [s₁, s₂] at hheight hheight'
    simp only [rotate, deref_eq hp hnp, hchild, deref_eq hx hnx, hderef, Option.bind_eq_bind,
      Option.bind_some, Option.pure_def]
    rw [hheight, Option.bind_some, hheight', Option.bind_some]
  . rw [node_set_of_ne _ _ hne, node_set_self]
  . intro a ha ha'
    rw [node_set_of_ne _ _ ha', node_set_of_ne _ _ ha, hs₂ a ha ha']

end Nodes

structure NodeAt (s : Bst) (o : Insertion) (n : BstNode) : Prop where
  addr_ne : o.addr ≠ 0
  node_eq : s.node o.addr = some n
  id_eq : n.id = o.id
  data_eq : n.data = o.data

def Repr (s : Bst) : Nat → BinaryTree Insertion → Prop
  | p, .nil => p = 0
  | p, .node o l r =>
    p = o.addr ∧ ∃ n, NodeAt s o n ∧ n.height = (max l.height r.height : Nat)
      ∧ Repr s n.child1 l ∧ Repr s n.child2 r

def addrs (t : BinaryTree Insertion) : List Nat := (toList t).map Insertion.addr

theorem repr_join {s : Bst} {p : Nat} {side : Side} {o : Insertion} {t u : BinaryTree Insertion}
    : Repr s p (join side o t u)
        ↔
      p = o.addr ∧ ∃ n, NodeAt s o n ∧ n.height = (max t.height u.height : Nat)
        ∧ Repr s (n.child side) t ∧ Repr s (n.child side.other) u := by
  cases side with
  | child1 => rfl
  | child2 =>
    simp only [join, Repr, Nat.max_comm, BstNode.child, Side.other]
    constructor
    . rintro ⟨hp, n, hn, hheight, hu, ht⟩
      exact ⟨hp, n, hn, hheight, ht, hu⟩
    . rintro ⟨hp, n, hn, hheight, ht, hu⟩
      exact ⟨hp, n, hn, hheight, hu, ht⟩

theorem mem_addrs_join {side : Side} {o : Insertion} {t u : BinaryTree Insertion} {q : Nat}
    : q ∈ addrs (join side o t u) ↔ q = o.addr ∨ q ∈ addrs t ∨ q ∈ addrs u := by
  simp only [addrs, List.mem_map, mem_toList_join]
  constructor
  . rintro ⟨x, ht | rfl | hu, rfl⟩
    . exact Or.inr (Or.inl ⟨x, ht, rfl⟩)
    . exact Or.inl rfl
    . exact Or.inr (Or.inr ⟨x, hu, rfl⟩)
  . rintro (rfl | ⟨x, ht, rfl⟩ | ⟨x, hu, rfl⟩)
    . exact ⟨o, Or.inr (Or.inl rfl), rfl⟩
    . exact ⟨x, Or.inl ht, rfl⟩
    . exact ⟨x, Or.inr (Or.inr hu), rfl⟩

theorem nodup_addrs_join {side : Side} {o : Insertion} {t u : BinaryTree Insertion}
    : (addrs (join side o t u)).Nodup
        ↔
      o.addr ∉ addrs t ∧ o.addr ∉ addrs u ∧ (addrs t).Nodup ∧ (addrs u).Nodup
        ∧ (∀ q ∈ addrs t, q ∉ addrs u) := by
  unfold addrs
  rw [((toList_join_perm side o t u).map Insertion.addr).nodup_iff, List.map_cons, List.nodup_cons,
    List.map_append, List.mem_append, List.nodup_append, not_or]
  constructor
  . rintro ⟨⟨hot, hou⟩, ht, hu, htu⟩
    exact ⟨hot, hou, ht, hu, fun q hq hq' => htu q hq q hq' rfl⟩
  . rintro ⟨hot, hou, ht, hu, htu⟩
    exact ⟨⟨hot, hou⟩, ht, hu, fun q hq q' hq' heq => htu q hq (heq ▸ hq')⟩

theorem mem_addrs_node {o : Insertion} {l r : BinaryTree Insertion} {q : Nat}
    : q ∈ addrs (.node o l r) ↔ q = o.addr ∨ q ∈ addrs l ∨ q ∈ addrs r :=
  @mem_addrs_join .child1 o l r q

theorem nodup_addrs_node {o : Insertion} {l r : BinaryTree Insertion}
    : (addrs (.node o l r)).Nodup
        ↔
      o.addr ∉ addrs l ∧ o.addr ∉ addrs r ∧ (addrs l).Nodup ∧ (addrs r).Nodup ∧ (∀ q ∈ addrs l, q ∉ addrs r) :=
  @nodup_addrs_join .child1 o l r

theorem get_child {s : Bst} {p : Nat} {n : BstNode} (side : Side) (hn : s.deref p = some n)
    : s.get (.child side p) = some (n.child side) := by
  rw [get, hn, Option.map_some]

theorem NodeAt.get_child {s : Bst} {o : Insertion} {n : BstNode} (hn : NodeAt s o n) (side : Side)
    : s.get (.child side o.addr) = some (n.child side) := by
  exact Bst.get_child side (deref_eq hn.addr_ne hn.node_eq)

namespace Repr

variable {s s' : Bst} {p : Nat} {t : BinaryTree Insertion}

theorem height_eq (h : Repr s p t) : s.height p = some ((t.height : Int) - 1) := by
  cases t with
  | nil =>
    simp only [Repr] at h
    simp [Bst.height, h]
  | node o l r =>
    obtain ⟨rfl, n, hn, hheight, -⟩ := h
    rw [Bst.height_eq hn.addr_ne hn.node_eq, hheight, BinaryTree.height]
    push_cast
    simp

theorem mem_addrs (h : Repr s p t) (hp : p ≠ 0) : p ∈ addrs t := by
  cases t with
  | nil => exact absurd h hp
  | node o l r =>
    obtain ⟨rfl, -⟩ := h
    simp [addrs, toList]

theorem node_of_mem (h : Repr s p t) {o : Insertion} (ho : o ∈ toList t)
    : ∃ n h1 h2, NodeAt s o n ∧ s.height n.child1 = some h1 ∧ s.height n.child2 = some h2
        ∧ n.height = max h1 h2 + 1 := by
  induction t generalizing p with
  | nil => simp [toList] at ho
  | node a l r ihl ihr =>
    obtain ⟨-, n, hn, hheight, hl, hr⟩ := h
    simp only [toList, List.mem_append, List.mem_cons] at ho
    rcases ho with ho | rfl | ho
    . exact ihl hl ho
    . exact ⟨n, _, _, hn, hl.height_eq, hr.height_eq, by omega⟩
    . exact ihr hr ho

theorem ne_zero (h : Repr s p t) (ht : t ≠ nil) : p ≠ 0 := by
  cases t with
  | nil => exact absurd rfl ht
  | node o l r =>
    obtain ⟨rfl, n, hn, -⟩ := h
    exact hn.addr_ne

theorem congr (h : Repr s p t)
    (hsame : ∀ q ∈ addrs t, ∀ n, s.node q = some n → ∃ r, s'.node q = some { n with parent := r })
    : Repr s' p t := by
  induction t generalizing p with
  | nil => exact h
  | node o l r ihl ihr =>
    obtain ⟨rfl, n, hn, hheight, hl, hr⟩ := h
    obtain ⟨parent, hnode⟩ := hsame o.addr (mem_addrs_node.mpr (Or.inl rfl)) n hn.node_eq
    refine ⟨rfl, { n with parent := parent }, ⟨hn.addr_ne, hnode, hn.id_eq, hn.data_eq⟩, hheight,
      ihl hl ?_, ihr hr ?_⟩
    . intro q hq
      exact hsame q (mem_addrs_node.mpr (Or.inr (Or.inl hq)))
    . intro q hq
      exact hsame q (mem_addrs_node.mpr (Or.inr (Or.inr hq)))

theorem frame (h : Repr s p t) (hsame : ∀ q ∈ addrs t, s'.node q = s.node q) : Repr s' p t := by
  apply h.congr
  intro q hq n hn
  exact ⟨n.parent, by rw [hsame q hq, hn]⟩

end Repr

theorem balanceFactor_repr {s : Bst} {p : Nat} {t : BinaryTree Insertion} (h : Repr s p t)
    : s.balanceFactor p = some ((part .child1 t).height - (part .child2 t).height : Int) := by
  cases t with
  | nil =>
    simp only [Repr] at h
    simp [balanceFactor, h, part, left, right]
  | node o l r =>
    obtain ⟨rfl, n, hn, -, hl, hr⟩ := h
    rw [balanceFactor_eq hn.addr_ne hn.node_eq hl.height_eq hr.height_eq]
    simp only [part, left, right]
    congr 1
    omega

section Rotations

variable {s : Bst} {side : Side} {a x : Insertion} {np nx : BstNode}
variable {t b u : BinaryTree Insertion}

theorem rotate_repr (hnp : NodeAt s a np) (hnx : NodeAt s x nx) (hchild : np.child side = x.addr)
    (ht : Repr s (nx.child side) t) (hb : Repr s (nx.child side.other) b)
    (hu : Repr s (np.child side.other) u) (hne : a.addr ≠ x.addr)
    (hout : ∀ q, q ∈ addrs t ∨ q ∈ addrs b ∨ q ∈ addrs u → q ≠ a.addr ∧ q ≠ x.addr)
    : ∃ s', s.rotate side a.addr = some (x.addr, s')
        ∧ s'.root = s.root
        ∧ Repr s' a.addr (join side a b u)
        ∧ Repr s' x.addr (join side x t (join side a b u))
        ∧ (∀ q, q ≠ a.addr → q ≠ x.addr → s'.node q = s.node q) := by
  have hroot {c : Nat} {w : BinaryTree Insertion} (hc : Repr s c w)
      (hw : ∀ q ∈ addrs w, q ≠ a.addr ∧ q ≠ x.addr)
      : c ≠ a.addr ∧ c ≠ x.addr := by
    by_cases hzero : c = 0
    . exact ⟨hzero ▸ hnp.addr_ne.symm, hzero ▸ hnx.addr_ne.symm⟩
    . exact hw c (hc.mem_addrs hzero)
  obtain ⟨s', hrotate, hsroot, hsp, hsx, hsame⟩ := rotate_eq side hnp.addr_ne hnx.addr_ne hne
    hnp.node_eq hnx.node_eq hchild hb.height_eq hu.height_eq ht.height_eq (by
      simp only [List.mem_cons, List.not_mem_nil, or_false, forall_eq_or_imp, forall_eq]
      exact ⟨hroot hb (fun q hq => hout q (Or.inr (Or.inl hq))),
        hroot hu (fun q hq => hout q (Or.inr (Or.inr hq))),
        hroot ht (fun q hq => hout q (Or.inl hq))⟩)
  have hframe {c : Nat} {w : BinaryTree Insertion} (hc : Repr s c w)
      (hw : ∀ q ∈ addrs w, q ≠ a.addr ∧ q ≠ x.addr)
      : Repr s' c w := by
    apply hc.frame
    intro q hq
    exact hsame q (hw q hq).1 (hw q hq).2
  have hdown : Repr s' a.addr (join side a b u) := by
    refine repr_join.mpr ⟨rfl, _, ⟨hnp.addr_ne, hsp, ?_, ?_⟩, ?_, ?_, ?_⟩
    . simpa using hnp.id_eq
    . simpa using hnp.data_eq
    . dsimp only
      omega
    . rw [child_height, child_setChild]
      exact hframe hb (fun q hq => hout q (Or.inr (Or.inl hq)))
    . rw [child_height, child_other_setChild]
      exact hframe hu (fun q hq => hout q (Or.inr (Or.inr hq)))
  refine ⟨s', hrotate, hsroot, hdown, ?_, hsame⟩
  refine repr_join.mpr ⟨rfl, _, ⟨hnx.addr_ne, hsx, ?_, ?_⟩, ?_, ?_, ?_⟩
  . simpa using hnx.id_eq
  . simpa using hnx.data_eq
  . rw [height_join]
    dsimp only
    omega
  . rw [child_height, child_setChild_other]
    exact hframe ht (fun q hq => hout q (Or.inl hq))
  . rw [child_height, child_setChild]
    exact hdown

theorem rotateHeavy_repr {inner : Int → Bool} (hnp : NodeAt s a np)
    (ht : Repr s (np.child side) t) (hu : Repr s (np.child side.other) u)
    (hnodup : (addrs (join side a t u)).Nodup) (hhigh : u.height + 1 < t.height)
    (hinner : inner ((part .child1 t).height - (part .child2 t).height : Int)
      = decide ((part side t).height < (part side.other t).height))
    : ∃ q s', s.rotateHeavy side inner a.addr = some (q, s')
        ∧ s'.root = s.root
        ∧ Repr s' q (lifted side a t u)
        ∧ Repr s' a.addr (join side a (kept side t) u)
        ∧ (∀ q, q ∉ addrs (join side a t u) → s'.node q = s.node q) := by
  obtain ⟨hat, hau, htnodup, -, htu⟩ := nodup_addrs_join.mp hnodup
  have hfactor := balanceFactor_repr ht
  have hne : t ≠ nil := by
    rintro rfl
    simp at hhigh
  obtain ⟨x, outer, inn, rfl⟩ := exists_join side hne
  obtain ⟨hx, nx, hnx, -, hout, hin⟩ := repr_join.mp ht
  obtain ⟨hxo, hxi, -, hinnodup, hoi⟩ := nodup_addrs_join.mp htnodup
  have hmem {q : Nat} := @mem_addrs_join side x outer inn q
  have hax : a.addr ≠ x.addr := fun heq => hat (hmem.mpr (Or.inl heq))
  have hao : a.addr ∉ addrs outer := fun ha => hat (hmem.mpr (Or.inr (Or.inl ha)))
  have hai : a.addr ∉ addrs inn := fun ha => hat (hmem.mpr (Or.inr (Or.inr ha)))
  have hxu : x.addr ∉ addrs u := htu _ (hmem.mpr (Or.inl rfl))
  simp only [part_join, part_other_join] at hinner
  simp only [rotateHeavy, deref_eq hnp.addr_ne hnp.node_eq, Option.bind_eq_bind, Option.bind_some,
    hfactor, hinner]
  by_cases hdouble : outer.height < inn.height
  . rw [if_pos (by simpa using hdouble)]
    have hine : inn ≠ nil := by
      rintro rfl
      simp at hdouble
    obtain ⟨z, c, d, rfl⟩ := exists_join side hine
    rw [kept_of_inner hdouble, lifted_of_inner hdouble]
    obtain ⟨hz, nz, hnz, -, hc, hd⟩ := repr_join.mp hin
    obtain ⟨hzc, hzd, -, -, hcd⟩ := nodup_addrs_join.mp hinnodup
    have hmem' {q : Nat} := @mem_addrs_join side z c d q
    have hxz : x.addr ≠ z.addr := fun heq => hxi (hmem'.mpr (Or.inl heq))
    have haz : a.addr ≠ z.addr := fun heq => hai (hmem'.mpr (Or.inl heq))
    have hsub {q : Nat} (hq : q ∈ addrs c ∨ q ∈ addrs d) : q ∈ addrs (join side z c d) :=
      hmem'.mpr (Or.inr hq)
    have houtz : z.addr ∉ addrs outer := fun hz => hoi _ hz (hmem'.mpr (Or.inl rfl))
    have huz : z.addr ∉ addrs u :=
      htu _ (hmem.mpr (Or.inr (Or.inr (hmem'.mpr (Or.inl rfl)))))
    -- the inner subtree is lifted above the child
    have hrotate₁ := @rotate_repr s side.other x z nx nz d c outer hnx hnz hz hd
      (by rw [other_other]; exact hc) (by rw [other_other]; exact hout) hxz (by
        rintro q (hq | hq | hq)
        . exact ⟨fun h => hxi (hsub (Or.inr (h ▸ hq))), fun h => hzd (h ▸ hq)⟩
        . exact ⟨fun h => hxi (hsub (Or.inl (h ▸ hq))), fun h => hzc (h ▸ hq)⟩
        . exact ⟨fun h => hxo (h ▸ hq), fun h => houtz (h ▸ hq)⟩)
    obtain ⟨s₁, hrotate₁, hroot₁, -, hup₁, hsame₁⟩ := hrotate₁
    rw [join_other, join_other] at hup₁
    -- and then above the node
    let s₂ := s₁.set a.addr (np.setChild side z.addr)
    have hsame₂ (q : Nat) (hq : q ≠ a.addr) : s₂.node q = s₁.node q := node_set_of_ne _ _ hq
    have hnp₁ : s₁.deref a.addr = some np := by
      rw [deref_eq hnp.addr_ne]
      rw [hsame₁ _ hax haz, hnp.node_eq]
    have hnp₂ : NodeAt s₂ a (np.setChild side z.addr) := by
      refine ⟨hnp.addr_ne, node_set_self _ _ _, ?_, ?_⟩
      . simpa using hnp.id_eq
      . simpa using hnp.data_eq
    have hup₂ : Repr s₂ z.addr (join side z (join side x outer c) d) := by
      apply hup₁.frame
      intro q hq
      apply hsame₂
      rintro rfl
      rw [mem_addrs_join, mem_addrs_join] at hq
      rcases hq with hq | (hq | hq | hq) | hq
      . exact haz hq
      . exact hax hq
      . exact hao hq
      . exact hai (hsub (Or.inl hq))
      . exact hai (hsub (Or.inr hq))
    obtain ⟨-, nz', hnz', -, hxc, hd'⟩ := repr_join.mp hup₂
    have hu₂ : Repr s₂ (np.child side.other) u := by
      apply hu.frame
      intro q hq
      rw [hsame₂ q (fun h => hau (h ▸ hq)), hsame₁ q (fun h => hxu (h ▸ hq)) (fun h => huz (h ▸ hq))]
    obtain ⟨s₃, hrotate₃, hroot₃, hdown, hup, hsame₃⟩ := rotate_repr hnp₂ hnz'
      (child_setChild np side) hxc hd' (by rw [child_other_setChild]; exact hu₂) haz (by
        rintro q (hq | hq | hq)
        . rw [mem_addrs_join] at hq
          rcases hq with rfl | hq | hq
          . exact ⟨hax.symm, hxz⟩
          . exact ⟨fun h => hao (h ▸ hq), fun h => houtz (h ▸ hq)⟩
          . exact ⟨fun h => hai (hsub (Or.inl (h ▸ hq))), fun h => hzc (h ▸ hq)⟩
        . exact ⟨fun h => hai (hsub (Or.inr (h ▸ hq))), fun h => hzd (h ▸ hq)⟩
        . exact ⟨fun h => hau (h ▸ hq), fun h => huz (h ▸ hq)⟩)
    refine ⟨_, s₃, ?_, hroot₃.trans hroot₁, hup, hdown, ?_⟩
    . rw [hx, hrotate₁, Option.bind_some]
      simp only [hnp₁, Option.bind_some]
      exact hrotate₃
    . intro q hq
      rw [mem_addrs_join, mem_addrs_join, mem_addrs_join] at hq
      have hqa : q ≠ a.addr := fun h => hq (Or.inl h)
      have hqx : q ≠ x.addr := fun h => hq (Or.inr (Or.inl (Or.inl h)))
      have hqz : q ≠ z.addr := fun h => hq (Or.inr (Or.inl (Or.inr (Or.inr (Or.inl h)))))
      rw [hsame₃ q hqa hqz, hsame₂ q hqa, hsame₁ q hqx hqz]
  . rw [if_neg (by simpa using hdouble), kept_of_outer hdouble, lifted_of_outer hdouble]
    obtain ⟨s', hrotate, hroot, hdown, hup, hsame⟩ := rotate_repr hnp hnx hx hout hin hu hax (by
      rintro q (hq | hq | hq)
      . exact ⟨fun h => hao (h ▸ hq), fun h => hxo (h ▸ hq)⟩
      . exact ⟨fun h => hai (h ▸ hq), fun h => hxi (h ▸ hq)⟩
      . exact ⟨fun h => hau (h ▸ hq), fun h => hxu (h ▸ hq)⟩)
    refine ⟨_, s', hrotate, hroot, hup, hdown, ?_⟩
    intro q hq
    rw [mem_addrs_join, mem_addrs_join] at hq
    apply hsame
    . rintro rfl
      exact hq (Or.inl rfl)
    . rintro rfl
      exact hq (Or.inr (Or.inl (Or.inl rfl)))

variable {l r : BinaryTree Insertion}

theorem balance_repr (hnp : NodeAt s a np) (hheight : np.height = (max l.height r.height : Nat))
    (hl : Repr s np.child1 l) (hr : Repr s np.child2 r)
    (hnodup : (addrs (BinaryTree.node a l r)).Nodup)
    : ∃ q s', s.balance a.addr = some (q, s')
        ∧ s'.root = s.root
        ∧ Repr s' q (rotated a l r)
        ∧ Repr s' a.addr (remaining a l r)
        ∧ (∀ q, q ∉ addrs (BinaryTree.node a l r) → s'.node q = s.node q) := by
  have hfactor : s.balanceFactor a.addr = some (l.height - r.height : Int) := by
    rw [balanceFactor_eq hnp.addr_ne hnp.node_eq hl.height_eq hr.height_eq]
    congr 1
    omega
  simp only [balance, hfactor, Option.bind_eq_bind, Option.bind_some]
  by_cases hleft : r.height + 1 < l.height
  . rw [if_pos (by omega)]
    simp only [rotated, remaining, if_pos hleft]
    apply @rotateHeavy_repr s .child1 a np l r _ hnp hl hr hnodup hleft
    rw [decide_eq_decide]
    simp only [Side.other]
    omega
  . rw [if_neg (by omega)]
    by_cases hright : l.height + 1 < r.height
    . rw [if_pos (by omega)]
      simp only [rotated, remaining, if_neg hleft, if_pos hright]
      apply @rotateHeavy_repr s .child2 a np r l _ hnp hr hl hnodup hright
      rw [decide_eq_decide]
      simp only [Side.other]
      omega
    . rw [if_neg (by omega)]
      have hrepr : Repr s a.addr (.node a l r) := ⟨rfl, np, hnp, hheight, hl, hr⟩
      simp only [rotated, remaining, if_neg hleft, if_neg hright, Option.pure_def]
      exact ⟨_, s, rfl, rfl, hrepr, hrepr, fun _ _ => rfl⟩

theorem get_set_of_child (slot : Slot) {p : Nat} {n n' : BstNode} (hn : s.node p = some n)
    (hchild : ∀ side, n'.child side = n.child side)
    : (s.set p n').get slot = s.get slot := by
  cases slot with
  | root => rfl
  | child side q =>
    simp only [get, deref]
    by_cases hq : q = p
    . subst hq
      rw [node_set_self, hn]
      split
      . rfl
      . simp only [Option.map_some, hchild]
    . rw [node_set_of_ne _ _ hq]

theorem get_set_height (slot : Slot) {p : Nat} {n : BstNode} (hn : s.node p = some n) (h : Int)
    : (s.set p { n with height := h }).get slot = s.get slot :=
  get_set_of_child slot hn (fun side => child_height n side h)

theorem get_set_parent (slot : Slot) {p : Nat} {n : BstNode} (hn : s.node p = some n) (h : Nat)
    : (s.set p { n with parent := h }).get slot = s.get slot :=
  get_set_of_child slot hn (fun side => child_parent n side)

theorem rebalance_repr {slot : Slot} (hget : s.get slot = some a.addr) (hnp : NodeAt s a np)
    (hl : Repr s np.child1 l) (hr : Repr s np.child2 r)
    (hnodup : (addrs (BinaryTree.node a l r)).Nodup)
    : ∃ q s', s.rebalance slot = some (q, s')
        ∧ s'.root = s.root
        ∧ Repr s' q (rotated a l r)
        ∧ Repr s' a.addr (remaining a l r)
        ∧ (∀ q, q ∉ addrs (BinaryTree.node a l r) → s'.node q = s.node q) := by
  obtain ⟨hal, har, -⟩ := nodup_addrs_node.mp hnodup
  have hupdate := updateHeight_eq .child1 hnp.addr_ne hnp.node_eq hl.height_eq hr.height_eq
  have hget' := get_set_height slot hnp.node_eq (max ((l.height : Int) - 1) (r.height - 1) + 1)
  let n : BstNode := { np with height := max ((l.height : Int) - 1) (r.height - 1) + 1 }
  have hn : NodeAt (s.set a.addr n) a n := by
    exact ⟨hnp.addr_ne, node_set_self _ _ _, hnp.id_eq, hnp.data_eq⟩
  have hsame (q : Nat) (hq : q ≠ a.addr) : (s.set a.addr n).node q = s.node q := node_set_of_ne _ _ hq
  obtain ⟨q, s', hbalance, hroot, hrotated, hremaining, hframe⟩ := balance_repr hn
    (show n.height = (max l.height r.height : Nat) by simp only [n]; omega)
    (hl.frame (fun q hq => hsame q (fun h => hal (h ▸ hq))))
    (hr.frame (fun q hq => hsame q (fun h => har (h ▸ hq)))) hnodup
  refine ⟨q, s', ?_, hroot, hrotated, hremaining, ?_⟩
  . simp only [rebalance, hget, Option.bind_eq_bind, Option.bind_some, hupdate, hget']
    exact hbalance
  . intro q hq
    have hqa : q ≠ a.addr := by
      rintro rfl
      exact hq (mem_addrs_node.mpr (Or.inl rfl))
    rw [hframe q hq, hsame q hqa]

theorem rebalance_reprAt {slot : Slot} (hget : s.get slot = some a.addr) (hnp : NodeAt s a np)
    (ht : Repr s (np.child side) t) (hu : Repr s (np.child side.other) u)
    (hnodup : (addrs (join side a t u)).Nodup)
    : ∃ q s', s.rebalance slot = some (q, s')
        ∧ s'.root = s.root
        ∧ Repr s' q (rotatedAt side a t u)
        ∧ Repr s' a.addr (remainingAt side a t u)
        ∧ (∀ q, q ∉ addrs (join side a t u) → s'.node q = s.node q) := by
  cases side with
  | child1 => exact rebalance_repr hget hnp ht hu hnodup
  | child2 => exact rebalance_repr hget hnp hu ht hnodup

end Rotations

def Slot.write (slot : Slot) (v : Nat) (s : Bst) : Bst :=
  match slot with
  | .root => { s with root := v }
  | .child side p =>
    { s with node := fun q => if q = p then (s.node q).map (fun n => n.setChild side v) else s.node q }

def Slot.Outside (slot : Slot) (ps : List Nat) : Prop :=
  match slot with
  | .root => True
  | .child _ p => p ∉ ps

theorem write_get {s : Bst} {slot : Slot} {v : Nat} (h : s.get slot = some v)
    : slot.write v s = s := by
  cases slot with
  | root =>
    rw [get, Option.some.injEq] at h
    subst h
    rfl
  | child side p =>
    have hnode : (fun q => if q = p then (s.node q).map (fun n => n.setChild side v) else s.node q)
        = s.node := by
      funext q
      split
      . next hq =>
        subst hq
        simp only [get, deref] at h
        split at h
        . simp at h
        . obtain ⟨n, hn, rfl⟩ := Option.map_eq_some_iff.mp h
          rw [hn, Option.map_some, setChild_child]
      . rfl
    simp only [Slot.write, hnode]

theorem get_of_frame {s s' : Bst} {slot : Slot} {v v' : Nat} {ps : List Nat}
    (h : s.get slot = some v) (houtside : slot.Outside ps)
    (hroot : s'.root = (slot.write v' s).root)
    (hframe : ∀ q, q ∉ ps → s'.node q = (slot.write v' s).node q)
    : s'.get slot = some v' := by
  cases slot with
  | root => rw [get, hroot]; rfl
  | child side p =>
    simp only [get, deref] at h ⊢
    split at h
    . simp at h
    . next hp =>
      obtain ⟨n, hn, -⟩ := Option.map_eq_some_iff.mp h
      rw [if_neg hp, hframe p houtside]
      simp [Slot.write, hn]

theorem put_eq {s : Bst} {slot : Slot} {v : Nat} (h : s.get slot = some v) (v' : Nat)
    : s.put slot v' = some (slot.write v' s) := by
  cases slot with
  | root => rfl
  | child side p =>
    simp only [get, put] at h ⊢
    obtain ⟨n, hn, -⟩ := Option.map_eq_some_iff.mp h
    rw [hn, Option.map_some, Option.some.injEq]
    simp only [deref] at hn
    split at hn
    . simp at hn
    . simp only [set, Slot.write]
      congr 1
      funext q
      split
      . next hq => rw [hq, hn, Option.map_some]
      . rfl

section Relink

variable {s s₁ : Bst} {side : Side} {slot : Slot} {a : Insertion} {n : BstNode} {v : Nat}
variable {t u : BinaryTree Insertion} {ps : List Nat}

theorem relink_repr (hget : s.get slot = some a.addr) (hn : NodeAt s a n)
    (hu : Repr s (n.child side.other) u) (hv : Repr s₁ v t) (ht : t ≠ nil)
    (hroot : s₁.root = s.root)
    (hframe : ∀ q, q ∉ ps → s₁.node q = ((Slot.child side a.addr).write v s).node q)
    (ha : a.addr ∉ ps) (hups : ∀ q ∈ addrs u, q ∉ ps) (htps : ∀ q ∈ addrs t, q ∈ ps)
    (hnodup : (addrs (join side a t u)).Nodup) (houtside : slot.Outside (a.addr :: ps))
    : ∃ q s', ((s₁.setParent slot side).bind (fun s => s.rebalance slot)) = some (q, s')
        ∧ s'.root = s.root
        ∧ Repr s' a.addr (remainingAt side a t u)
        ∧ (∀ q, q ∉ a.addr :: (ps ++ addrs u) → s'.node q = s.node q) := by
  obtain ⟨hat, hau, -⟩ := nodup_addrs_join.mp hnodup
  have hsame₁ (q : Nat) (hq : q ∉ ps) (hqa : q ≠ a.addr) : s₁.node q = s.node q := by
    rw [hframe q hq]
    simp [Slot.write, hqa]
  have hnode₁ : s₁.node a.addr = some (n.setChild side v) := by
    rw [hframe _ ha]
    simp [Slot.write, hn.node_eq]
  have hget₁ : s₁.get slot = some a.addr := by
    apply get_of_frame hget houtside
    . rw [write_get hget]
      exact hroot
    . intro q hq
      rw [List.mem_cons, not_or] at hq
      rw [write_get hget]
      exact hsame₁ q hq.2 hq.1
  have hv0 := hv.ne_zero ht
  have hvt := hv.mem_addrs hv0
  have hva : v ≠ a.addr := fun h => hat (h ▸ hvt)
  obtain ⟨m, hm⟩ : ∃ m, s₁.node v = some m := by
    cases t with
    | nil => exact absurd rfl ht
    | node o l r =>
      obtain ⟨rfl, m, hm, -⟩ := hv
      exact ⟨m, hm.node_eq⟩
  let s₂ := s₁.set v { m with parent := a.addr }
  have hparent : s₁.setParent slot side = some s₂ := by
    simp only [setParent, hget₁, Option.bind_eq_bind, Option.bind_some,
      deref_eq hn.addr_ne hnode₁, child_setChild, deref_eq hv0 hm, Option.pure_def, s₂]
  have hsame₂ (q : Nat) (hq : q ≠ v) : s₂.node q = s₁.node q := node_set_of_ne _ _ hq
  have hn₂ : NodeAt s₂ a (n.setChild side v) := by
    refine ⟨hn.addr_ne, ?_, ?_, ?_⟩
    . rw [hsame₂ _ hva.symm, hnode₁]
    . simpa using hn.id_eq
    . simpa using hn.data_eq
  have ht₂ : Repr s₂ v t := by
    apply hv.congr
    intro q hq k hk
    by_cases hqv : q = v
    . subst hqv
      rw [hm, Option.some.injEq] at hk
      exact ⟨a.addr, by rw [← hk]; exact node_set_self _ _ _⟩
    . exact ⟨k.parent, by rw [hsame₂ q hqv, hk]⟩
  have hu₂ : Repr s₂ (n.child side.other) u := by
    apply hu.frame
    intro q hq
    have hqps := hups q hq
    rw [hsame₂ q (fun h => hqps (htps q (h ▸ hvt))), hsame₁ q hqps (fun h => hau (h ▸ hq))]
  have hget₂ : s₂.get slot = some a.addr := by
    rw [get_set_parent slot hm, hget₁]
  obtain ⟨q, s', hrebalance, hroot', -, hremaining, hframe'⟩ := rebalance_reprAt hget₂ hn₂
    (by rw [child_setChild]; exact ht₂) (by rw [child_other_setChild]; exact hu₂) hnodup
  refine ⟨q, s', ?_, hroot'.trans hroot, hremaining, ?_⟩
  . rw [hparent, Option.bind_some, hrebalance]
  . intro q hq
    rw [List.mem_cons, List.mem_append, not_or, not_or] at hq
    obtain ⟨hqa, hqps, hqu⟩ := hq
    rw [hframe' q, hsame₂ q (fun h => hqps (htps q (h ▸ hvt))), hsame₁ q hqps hqa]
    rw [mem_addrs_join]
    rintro (h | h | h)
    . exact hqa h
    . exact hqps (htps q h)
    . exact hqu h

end Relink

theorem addrs_insertLinked_subset (o : Insertion) (t : BinaryTree Insertion)
    : addrs (insertLinked Insertion.id o t) ⊆ o.addr :: addrs t := by
  intro q hq
  obtain ⟨x, hx, rfl⟩ := List.mem_map.mp hq
  have hmem : x.addr ∈ (o :: toList t).map Insertion.addr :=
    List.mem_map_of_mem ((insertLinked_subperm o t).subset hx)
  exact hmem

theorem nodup_insertLinked {o : Insertion} {t : BinaryTree Insertion} (hfresh : o.addr ∉ addrs t)
    (hnodup : (addrs t).Nodup)
    : (addrs (insertLinked Insertion.id o t)).Nodup := by
  obtain ⟨os, hperm, hsub⟩ := @insertLinked_subperm Insertion Nat _ Insertion.id o t
  refine ((hperm.map Insertion.addr).nodup_iff).mp ((hsub.map Insertion.addr).nodup ?_)
  exact List.nodup_cons.mpr ⟨hfresh, hnodup⟩

theorem Slot.Outside.mono {slot : Slot} {ps qs : List Nat} (h : slot.Outside qs) (hsub : ps ⊆ qs)
    : slot.Outside ps := by
  cases slot with
  | root => trivial
  | child side p => exact fun hp => h (hsub hp)

/--
The insertion below a node works on a child slot of the node, which is not part of the subtree.
-/
theorem Slot.outside_child {o a : Insertion} {t : BinaryTree Insertion} (side : Side) (hoa : o.addr ≠ a.addr)
    (hat : a.addr ∉ addrs t)
    : (Slot.child side a.addr).Outside (o.addr :: addrs t) := by
  simp only [Slot.Outside, List.mem_cons, not_or]
  exact ⟨Ne.symm hoa, hat⟩

theorem Slot.Outside.path {slot : Slot} {side : Side} {o a : Insertion} {t u : BinaryTree Insertion}
    (h : slot.Outside (o.addr :: addrs (join side a t u)))
    : slot.Outside (a.addr :: (o.addr :: addrs t)) := by
  apply h.mono
  intro q hq
  simp only [List.mem_cons, mem_addrs_join] at hq ⊢
  tauto

theorem beside_of_fresh {side : Side} {o a : Insertion} {t u : BinaryTree Insertion}
    (hnodup : (addrs (join side a t u)).Nodup) (hfresh : o.addr ∉ addrs (join side a t u))
    : a.addr ∉ o.addr :: addrs t ∧ ∀ q ∈ addrs u, q ∉ o.addr :: addrs t := by
  obtain ⟨hat, -, -, -, htu⟩ := nodup_addrs_join.mp hnodup
  rw [mem_addrs_join, not_or, not_or] at hfresh
  simp only [List.mem_cons, not_or]
  constructor
  . exact ⟨Ne.symm hfresh.1, hat⟩
  . intro q hq
    exact ⟨fun h => hfresh.2.2 (h ▸ hq), fun h => htu q h hq⟩

theorem relink_insertLinked {s s₁ : Bst} {side : Side} {slot : Slot} {o a : Insertion} {n : BstNode}
    {t u : BinaryTree Insertion} {v : Nat} (hget : s.get slot = some a.addr) (hn : NodeAt s a n)
    (hu : Repr s (n.child side.other) u) (hnodup : (addrs (join side a t u)).Nodup)
    (hfresh : o.addr ∉ addrs (join side a t u))
    (houtside : slot.Outside (o.addr :: addrs (join side a t u)))
    (hv : Repr s₁ v (insertLinked Insertion.id o t)) (hroot : s₁.root = s.root)
    (hframe : ∀ q, q ∉ o.addr :: addrs t → s₁.node q = ((Slot.child side a.addr).write v s).node q)
    : ∃ q s', ((s₁.setParent slot side).bind (fun s => s.rebalance slot)) = some (q, s')
        ∧ Repr s' a.addr (remainingAt side a (insertLinked Insertion.id o t) u)
        ∧ s'.root = s.root
        ∧ (∀ q, q ∉ o.addr :: addrs (join side a t u) → s'.node q = s.node q) := by
  obtain ⟨haps, hups⟩ := beside_of_fresh hnodup hfresh
  obtain ⟨-, hau, htnodup, hunodup, -⟩ := nodup_addrs_join.mp hnodup
  have hot : o.addr ∉ addrs t := fun h => hfresh (mem_addrs_join.mpr (Or.inr (Or.inl h)))
  have hsub := addrs_insertLinked_subset o t
  have hnodup' : (addrs (join side a (insertLinked Insertion.id o t) u)).Nodup := by
    refine nodup_addrs_join.mpr ⟨fun h => haps (hsub h), hau, nodup_insertLinked hot htnodup, hunodup, ?_⟩
    exact fun q hq hq' => hups q hq' (hsub hq)
  obtain ⟨q, s', hrelink, hroot', hrepr, hframe'⟩ := relink_repr hget hn hu hv
    (insertLinked_ne_nil o t) hroot hframe haps hups (fun q hq => hsub hq) hnodup' houtside.path
  refine ⟨q, s', hrelink, hrepr, hroot', ?_⟩
  intro q hq
  apply hframe'
  simp only [List.mem_cons, List.mem_append, mem_addrs_join] at hq ⊢
  tauto

theorem bstInsert_repr {o : Insertion} {t : BinaryTree Insertion} {s : Bst} {slot : Slot} {p fuel : Nat}
    (hget : s.get slot = some p) (ht : Repr s p t) (hnodup : (addrs t).Nodup) (ho : o.addr ≠ 0)
    (hfresh : o.addr ∉ addrs t) (houtside : slot.Outside (o.addr :: addrs t))
    (hfuel : t.height < fuel)
    : ∃ q s' p', bstInsert o fuel s slot = some (q, s')
        ∧ Repr s' p' (insertLinked Insertion.id o t)
        ∧ s'.root = (slot.write p' s).root
        ∧ (∀ q, q ∉ o.addr :: addrs t → s'.node q = (slot.write p' s).node q) := by
  induction t generalizing s slot p fuel with
  | nil =>
    obtain ⟨fuel, rfl⟩ : ∃ k, fuel = k + 1 := ⟨fuel - 1, by omega⟩
    simp only [Repr] at ht
    subst ht
    refine ⟨o.addr, (slot.write o.addr s).set o.addr ⟨0, 0, 0, o.id, o.data, 0⟩, o.addr, ?_, ?_, ?_, ?_⟩
    . simp only [bstInsert, hget, Option.bind_eq_bind, Option.bind_some, if_pos, put_eq hget, if_neg ho,
        Option.pure_def]
    . exact ⟨rfl, _, ⟨ho, node_set_self _ _ _, rfl, rfl⟩, rfl, rfl, rfl⟩
    . rfl
    . intro q hq
      exact node_set_of_ne _ _ (fun h => hq (by simp [h]))
  | node a l r ihl ihr =>
    obtain ⟨fuel, rfl⟩ : ∃ k, fuel = k + 1 := ⟨fuel - 1, by omega⟩
    obtain ⟨rfl, n, hn, hheight, hl, hr⟩ := ht
    obtain ⟨hal, har, hlnodup, hrnodup, hlr⟩ := nodup_addrs_node.mp hnodup
    have hfresh' := hfresh
    rw [mem_addrs_node, not_or, not_or] at hfresh'
    obtain ⟨hoa, hol, hor⟩ := hfresh'
    simp only [BinaryTree.height] at hfuel
    simp only [bstInsert, hget, Option.bind_eq_bind, Option.bind_some, if_neg hn.addr_ne,
      deref_eq hn.addr_ne hn.node_eq, insertLinked, hn.id_eq]
    split
    . obtain ⟨q, s₁, v, hinsert, hv, hroot, hframe⟩ := ihl (hn.get_child .child1) hl hlnodup hol
        (Slot.outside_child .child1 hoa hal) (show l.height < fuel by omega)
      obtain ⟨q', s', hrelink, hrepr, hroot', hframe'⟩ := @relink_insertLinked s s₁ .child1 slot o a n l r
        v hget hn hr hnodup hfresh houtside hv hroot hframe
      refine ⟨q', s', a.addr, ?_, hrepr, ?_, ?_⟩
      . rw [hinsert]
        exact hrelink
      . rw [write_get hget, hroot']
      . rw [write_get hget]
        exact hframe'
    . split
      . obtain ⟨q, s₁, v, hinsert, hv, hroot, hframe⟩ := ihr (hn.get_child .child2) hr hrnodup hor
          (Slot.outside_child .child2 hoa har) (show r.height < fuel by omega)
        obtain ⟨q', s', hrelink, hrepr, hroot', hframe'⟩ := @relink_insertLinked s s₁ .child2 slot o a n r
          l v hget hn hl hnodup hfresh houtside hv hroot hframe
        refine ⟨q', s', a.addr, ?_, hrepr, ?_, ?_⟩
        . rw [hinsert]
          exact hrelink
        . rw [write_get hget, hroot']
        . rw [write_get hget]
          exact hframe'
      . refine ⟨0, s, a.addr, rfl, ⟨rfl, n, hn, hheight, hl, hr⟩, ?_, ?_⟩
        . rw [write_get hget]
        . rw [write_get hget]
          exact fun _ _ => rfl

theorem bstSearch_loop_repr {s : Bst} {p fuel : Nat} {t : BinaryTree Insertion} (id : Nat)
    (ht : Repr s p t) (hfuel : t.height < fuel)
    : bstSearch.loop s id fuel p = some ((find Insertion.id id t).elim 0 Insertion.addr) := by
  induction t generalizing p fuel with
  | nil =>
    obtain ⟨fuel, rfl⟩ : ∃ k, fuel = k + 1 := ⟨fuel - 1, by omega⟩
    simp only [Repr] at ht
    simp [bstSearch.loop, ht, find]
  | node a l r ihl ihr =>
    obtain ⟨fuel, rfl⟩ : ∃ k, fuel = k + 1 := ⟨fuel - 1, by omega⟩
    obtain ⟨rfl, n, hn, -, hl, hr⟩ := ht
    simp only [BinaryTree.height] at hfuel
    simp only [bstSearch.loop, if_neg hn.addr_ne, deref_eq hn.addr_ne hn.node_eq, Option.bind_eq_bind,
      Option.bind_some, find, hn.id_eq]
    split
    . exact ihl hl (by omega)
    . split
      . exact ihr hr (by omega)
      . rfl

theorem bstSearch_repr {s : Bst} {p fuel : Nat} {t : BinaryTree Insertion} (id : Nat)
    (ht : Repr s p t) (hfuel : t.height < fuel)
    : bstSearch s fuel p id = some ((find Insertion.id id t).elim 0 Insertion.data) := by
  rw [bstSearch, bstSearch_loop_repr id ht hfuel, Option.bind_eq_bind, Option.bind_some]
  cases hfind : find Insertion.id id t with
  | none => rfl
  | some o =>
    obtain ⟨n, -, -, hn, -⟩ := ht.node_of_mem (mem_of_find hfind)
    simp [hn.addr_ne, deref_eq hn.addr_ne hn.node_eq, hn.data_eq]

end Bst
end Osproj
