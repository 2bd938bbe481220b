import Mathlib.Data.List.Induction
import Mathlib.Data.List.Infix
import Osproj.Base.Run
import Osproj.Lib.Lemmas.Bst

/-!
This module contains what holds after any sequence of insertions into an empty tree: what stays linked
to the root pointer is a search tree, but not all that was inserted stays linked. A value is lost as
soon as a rotation is due.
-/

namespace Osproj
namespace Bst

open BinaryTree SearchTree LinkedTree

def insertStep (fuel : Nat) (s : Bst) (o : Insertion) : Option Bst :=
  (bstInsert o fuel s .root).map Prod.snd

def insertAll (fuel : Nat) (os : List Insertion) : Option Bst := Run.run (insertStep fuel) empty os

/--
`kmalloc` never fails and never returns memory that is in use.
-/
def FreshAddrs (os : List Insertion) : Prop :=
  (∀ o ∈ os, o.addr ≠ 0) ∧ (os.map Insertion.addr).Nodup

def linked (os : List Insertion) : BinaryTree Insertion :=
  os.foldl (fun t o => insertLinked Insertion.id o t) nil

inductive Reaches (s : Bst) : Nat → Nat → Prop
  | refl {p : Nat} (hp : p ≠ 0) : Reaches s p p
  | child {p q : Nat} {n : BstNode} (side : Side) (hn : s.deref p = some n)
      (h : Reaches s (n.child side) q) : Reaches s p q

section Linked

variable {os : List Insertion} {o : Insertion}

theorem linked_concat (os : List Insertion) (o : Insertion)
    : linked (os ++ [o]) = insertLinked Insertion.id o (linked os) := by
  simp [linked]

theorem linked_subperm (os : List Insertion) : (toList (linked os)).Subperm os := by
  induction os using List.reverseRecOn with
  | nil => exact .refl _
  | append_singleton os o ih =>
    rw [linked_concat]
    refine (insertLinked_subperm o _).trans (((List.subperm_cons o).mpr ih).trans ?_)
    exact (List.perm_append_singleton o os).symm.subperm

theorem sorted_linked (os : List Insertion) : Sorted Insertion.id (linked os) := by
  induction os using List.reverseRecOn with
  | nil => simp [linked, Sorted, toList]
  | append_singleton os o ih =>
    rw [linked_concat]
    exact sorted_insertLinked o ih

theorem height_linked_le (os : List Insertion) : (linked os).height ≤ os.length :=
  (height_le_length_toList _).trans (linked_subperm os).length_le

theorem nodup_linked (h : (os.map Insertion.addr).Nodup) : (addrs (linked os)).Nodup := by
  obtain ⟨os', hperm, hsub⟩ := linked_subperm os
  exact ((hperm.map Insertion.addr).nodup_iff).mp ((hsub.map Insertion.addr).nodup h)

theorem addrs_linked_subset (os : List Insertion) : addrs (linked os) ⊆ os.map Insertion.addr := by
  intro q hq
  obtain ⟨x, hx, rfl⟩ := List.mem_map.mp hq
  exact List.mem_map_of_mem ((linked_subperm os).subset hx)

theorem FreshAddrs.of_append {os os' : List Insertion} (h : FreshAddrs (os ++ os')) : FreshAddrs os := by
  obtain ⟨hne, hnodup⟩ := h
  rw [List.map_append] at hnodup
  exact ⟨fun o ho => hne o (List.mem_append_left _ ho), (List.nodup_append.mp hnodup).1⟩

theorem FreshAddrs.of_prefix {os os' : List Insertion} (h : FreshAddrs os) (hpre : os' <+: os)
    : FreshAddrs os' := by
  obtain ⟨os'', rfl⟩ := hpre
  exact h.of_append

theorem insertAll_concat (fuel : Nat) (os : List Insertion) (o : Insertion)
    : insertAll fuel (os ++ [o]) = (insertAll fuel os).bind (fun s => insertStep fuel s o) := by
  unfold insertAll
  rw [Run.run_append]
  congr 1
  funext s
  simp

theorem insertAll_spec {fuel : Nat} (hfresh : FreshAddrs os) (hfuel : os.length < fuel)
    : ∃ s, insertAll fuel os = some s ∧ Repr s s.root (linked os)
        ∧ ∀ q, q ∉ os.map Insertion.addr → s.node q = none := by
  induction os using List.reverseRecOn with
  | nil => exact ⟨empty, rfl, rfl, fun _ _ => rfl⟩
  | append_singleton os o ih =>
    rw [List.length_append, List.length_singleton] at hfuel
    obtain ⟨s, hrun, hrepr, hnone⟩ := ih hfresh.of_append (by omega)
    have hnodup := hfresh.2
    rw [List.map_append, List.nodup_append] at hnodup
    have hnew : o.addr ∉ addrs (linked os) := by
      intro h
      exact hnodup.2.2 _ (addrs_linked_subset os h) o.addr (by simp) rfl
    have hheight := height_linked_le os
    obtain ⟨q, s', p', hinsert, hrepr', hroot, hframe⟩ := bstInsert_repr (show s.get .root = some s.root from rfl)
      hrepr (nodup_linked hnodup.1) (hfresh.1 o (by simp)) hnew trivial (show _ < fuel by omega)
    refine ⟨s', ?_, ?_, ?_⟩
    . rw [insertAll_concat, hrun, Option.bind_some, insertStep, hinsert, Option.map_some]
    . have hp : s'.root = p' := hroot
      rw [linked_concat, hp]
      exact hrepr'
    . intro q hq
      rw [List.map_append, List.mem_append, not_or, List.map_singleton, List.mem_singleton] at hq
      have hq' : q ∉ o.addr :: addrs (linked os) := by
        rw [List.mem_cons, not_or]
        exact ⟨hq.2, fun h => hq.1 (addrs_linked_subset os h)⟩
      rw [hframe q hq']
      exact hnone q hq.1

theorem insertAll_repr {fuel : Nat} (hfresh : FreshAddrs os) (hfuel : os.length < fuel)
    : ∃ s, insertAll fuel os = some s ∧ Repr s s.root (linked os) := by
  obtain ⟨s, hrun, hrepr, -⟩ := insertAll_spec hfresh hfuel
  exact ⟨s, hrun, hrepr⟩

theorem reaches_iff {s : Bst} {p q : Nat} {t : BinaryTree Insertion} (h : Repr s p t)
    : Reaches s p q ↔ q ∈ addrs t := by
  have hmem {o : Insertion} {l r : BinaryTree Insertion} {q : Nat} := @mem_addrs_node o l r q
  constructor
  . intro hq
    induction hq generalizing t with
    | refl hp => exact h.mem_addrs hp
    | @child p q n side hn _ ih =>
      cases t with
      | nil =>
        simp only [Repr] at h
        simp [deref, h] at hn
      | node o l r =>
        obtain ⟨rfl, n', hn', -, hl, hr⟩ := h
        rw [deref_eq hn'.addr_ne hn'.node_eq, Option.some.injEq] at hn
        subst hn
        refine hmem.mpr (Or.inr ?_)
        cases side with
        | child1 => exact Or.inl (ih hl)
        | child2 => exact Or.inr (ih hr)
  . intro hq
    induction t generalizing p with
    | nil => simp [addrs, toList] at hq
    | node o l r ihl ihr =>
      obtain ⟨rfl, n, hn, -, hl, hr⟩ := h
      have hderef := deref_eq hn.addr_ne hn.node_eq
      rcases hmem.mp hq with rfl | hq | hq
      . exact .refl hn.addr_ne
      . exact .child .child1 hderef (ihl hl hq)
      . exact .child .child2 hderef (ihr hr hq)

end Linked

section Search

variable {os : List Insertion} {fuel : Nat}

/--
The nodes below the root pointer form a search tree, every one of them is found by its identifier, and
nothing else is found.
-/
structure SearchTreeAt (s : Bst) (fuel : Nat) (t : BinaryTree Insertion) : Prop where
  repr : Repr s s.root t
  nodup : (addrs t).Nodup
  sorted : Sorted Insertion.id t
  height_eq : ∀ q, Reaches s s.root q → ∃ n h1 h2, s.deref q = some n ∧ s.height n.child1 = some h1
    ∧ s.height n.child2 = some h2 ∧ n.height = max h1 h2 + 1
  found : ∀ q n, Reaches s s.root q → s.deref q = some n → bstSearch s fuel s.root n.id = some n.data
  not_found : ∀ id, (∀ q n, Reaches s s.root q → s.deref q = some n → n.id ≠ id)
    → bstSearch s fuel s.root id = some 0

theorem searchTreeAt_of_repr {s : Bst} {t : BinaryTree Insertion} (h : Repr s s.root t)
    (hnodup : (addrs t).Nodup) (hsorted : Sorted Insertion.id t) (hfuel : t.height < fuel)
    : SearchTreeAt s fuel t := by
  have hnode (q : Nat) (hq : Reaches s s.root q)
      : ∃ o ∈ toList t, ∃ n h1 h2, s.deref q = some n ∧ n.id = o.id ∧ n.data = o.data
          ∧ s.height n.child1 = some h1 ∧ s.height n.child2 = some h2 ∧ n.height = max h1 h2 + 1 := by
    obtain ⟨o, ho, rfl⟩ := List.mem_map.mp ((reaches_iff h).mp hq)
    obtain ⟨n, h1, h2, hn, hheight⟩ := h.node_of_mem ho
    exact ⟨o, ho, n, h1, h2, deref_eq hn.addr_ne hn.node_eq, hn.id_eq, hn.data_eq, hheight⟩
  refine ⟨h, hnodup, hsorted, ?_, ?_, ?_⟩
  . intro q hq
    obtain ⟨o, ho, n, h1, h2, hn, -, -, hheight⟩ := hnode q hq
    exact ⟨n, h1, h2, hn, hheight⟩
  . intro q n hq hn
    obtain ⟨o, ho, n', -, -, hn', hid, hdata, -⟩ := hnode q hq
    rw [hn, Option.some.injEq] at hn'
    subst hn'
    rw [bstSearch_repr n.id h hfuel, (find_eq_some_iff hsorted).mpr ⟨ho, hid.symm⟩, Option.elim_some,
      hdata]
  . intro id hid
    rw [bstSearch_repr id h hfuel]
    cases hfind : find Insertion.id id t with
    | none => rfl
    | some o =>
      obtain ⟨ho, rfl⟩ := (find_eq_some_iff hsorted).mp hfind
      obtain ⟨n, -, -, hn, -⟩ := h.node_of_mem ho
      have hreach := (reaches_iff h).mpr (List.mem_map_of_mem ho)
      exact absurd hn.id_eq (hid o.addr n hreach (deref_eq hn.addr_ne hn.node_eq))

/--
No rotation of any insertion goes through `NULL`, and what is linked afterwards is a search tree.
-/
theorem insertAll_searchTreeAt (hfresh : FreshAddrs os) (hfuel : os.length < fuel)
    : ∃ s t, insertAll fuel os = some s ∧ SearchTreeAt s fuel t := by
  obtain ⟨s, hrun, hrepr⟩ := insertAll_repr hfresh hfuel
  refine ⟨s, linked os, hrun, searchTreeAt_of_repr hrepr (nodup_linked hfresh.2) (sorted_linked os) ?_⟩
  exact Nat.lt_of_le_of_lt (height_linked_le os) hfuel

theorem insertAll_searchTreeAt_two
    : ∃ s t, insertAll 3 [⟨0x1000, 0x2000, 5⟩, ⟨0x1020, 0x2020, 5⟩] = some s ∧ SearchTreeAt s 3 t :=
  insertAll_searchTreeAt ⟨by decide, by decide⟩ (by decide)

/--
After each of the insertions a search returns what was inserted first for its identifier.
-/
def KeepsAll (fuel : Nat) (os : List Insertion) : Prop :=
  ∀ ps, ps <+: os → ∃ s, insertAll fuel ps = some s
    ∧ ∀ id, bstSearch s fuel s.root id
        = some ((ps.find? (fun o => o.id = id)).elim 0 Insertion.data)

/--
The search tree that never rotates stays balanced without rotations.
-/
def Unrotated (os : List Insertion) : Prop :=
  ∀ ps, ps <+: os → SearchTree.Balanced (SearchTree.ofList Insertion.id ps)

instance decidableUnrotated (os : List Insertion) : Decidable (Unrotated os) :=
  decidable_of_iff (∀ ps ∈ os.inits, SearchTree.Balanced (SearchTree.ofList Insertion.id ps)) (by
    simp only [List.mem_inits, Unrotated])

theorem ofList_concat (os : List Insertion) (o : Insertion)
    : SearchTree.ofList Insertion.id (os ++ [o])
        =
      SearchTree.insert Insertion.id o (SearchTree.ofList Insertion.id os) := by
  simp [SearchTree.ofList]

theorem linked_eq_ofList (h : Unrotated os) : linked os = SearchTree.ofList Insertion.id os := by
  induction os using List.reverseRecOn with
  | nil => rfl
  | append_singleton os o ih =>
    have hpre (ps : List Insertion) (hps : ps <+: os) : ps <+: os ++ [o] :=
      hps.trans (List.prefix_append _ _)
    have hbalanced := h _ (List.prefix_refl _)
    rw [ofList_concat] at hbalanced
    rw [linked_concat, ofList_concat, ih (fun ps hps => h ps (hpre ps hps)),
      insertLinked_eq_insert hbalanced]

theorem insertAll_search (hfresh : FreshAddrs os) (hfuel : os.length < fuel)
    : ∃ s, insertAll fuel os = some s
        ∧ ∀ id, bstSearch s fuel s.root id
            = some ((find Insertion.id id (linked os)).elim 0 Insertion.data) := by
  obtain ⟨s, hrun, hrepr⟩ := insertAll_repr hfresh hfuel
  have hheight := height_linked_le os
  exact ⟨s, hrun, fun id => bstSearch_repr id hrepr (by omega)⟩

theorem keepsAll_of_unrotated (hfresh : FreshAddrs os) (hfuel : os.length < fuel) (h : Unrotated os)
    : KeepsAll fuel os := by
  intro ps hps
  have hlength := hps.length_le
  obtain ⟨s, hrun, hsearch⟩ := @insertAll_search ps fuel (hfresh.of_prefix hps) (by omega)
  refine ⟨s, hrun, ?_⟩
  intro id
  rw [hsearch id, linked_eq_ofList (fun ps' hps' => h ps' (hps'.trans hps)), find_ofList]

theorem balanced_of_search {o : Insertion} (hfresh : FreshAddrs (os ++ [o]))
    (hfuel : (os ++ [o]).length < fuel) (hdata : ∀ x ∈ os ++ [o], x.data ≠ 0) (h : Unrotated os)
    (hsearch : ∃ s, insertAll fuel (os ++ [o]) = some s
      ∧ ∀ id, bstSearch s fuel s.root id
          = some (((os ++ [o]).find? (fun o => o.id = id)).elim 0 Insertion.data))
    : SearchTree.Balanced (SearchTree.ofList Insertion.id (os ++ [o])) := by
  obtain ⟨s, hrun, hfirst⟩ := hsearch
  obtain ⟨s', hrun', hfound⟩ := insertAll_search hfresh hfuel
  rw [hrun, Option.some.injEq] at hrun'
  subst hrun'
  rw [linked_concat, linked_eq_ofList h] at hfound
  have hsorted := @sorted_ofList _ _ _ Insertion.id (os ++ [o])
  have hsub := @insertLinked_sublist _ _ _ Insertion.id o (SearchTree.ofList Insertion.id os)
  rw [ofList_concat] at hsorted ⊢
  apply balanced_insert_of_length_le (h os (List.prefix_refl _))
  refine (hsorted.nodup.subperm ?_).length_le
  intro x hx
  have hfind := (find_eq_some_iff hsorted).mpr ⟨hx, rfl⟩
  have hfirst := hfirst x.id
  rw [← find_ofList, ofList_concat, hfind, hfound x.id, Option.elim_some, Option.some.injEq] at hfirst
  have hx' : x ∈ os ++ [o] := by
    rw [← ofList_concat, find_ofList] at hfind
    exact List.mem_of_find?_eq_some hfind
  cases hy : find Insertion.id x.id (insertLinked Insertion.id o (SearchTree.ofList Insertion.id os)) with
  | none =>
    rw [hy] at hfirst
    exact absurd hfirst.symm (hdata x hx')
  | some y =>
    obtain ⟨hmem, hid⟩ := (find_eq_some_iff (List.Pairwise.sublist hsub hsorted)).mp hy
    have hxy := (find_eq_some_iff hsorted).mpr ⟨hsub.subset hmem, hid⟩
    rw [hfind, Option.some.injEq] at hxy
    exact hxy ▸ hmem

theorem unrotated_of_keepsAll (hfresh : FreshAddrs os) (hfuel : os.length < fuel)
    (hdata : ∀ o ∈ os, o.data ≠ 0) (h : KeepsAll fuel os)
    : Unrotated os := by
  induction os using List.reverseRecOn with
  | nil =>
    intro ps hps
    rw [List.prefix_nil.mp hps]
    trivial
  | append_singleton os o ih =>
    rw [List.length_append, List.length_singleton] at hfuel
    have hunrotated : Unrotated os := by
      apply ih hfresh.of_append (by omega) (fun o ho => hdata o (List.mem_append_left _ ho))
      exact fun ps hps => h ps (hps.trans (List.prefix_append _ _))
    intro ps hps
    rcases List.prefix_concat_iff.mp hps with rfl | hps
    . exact balanced_of_search hfresh (by simpa using hfuel) hdata hunrotated (h _ (List.prefix_refl _))
    . exact hunrotated ps hps

/--
A search finds the first insertion of every identifier as long as no rotation is due. The first rotation
loses a value.
-/
theorem insertAll_keepsAll (hfresh : FreshAddrs os) (hfuel : os.length < fuel)
    : (Unrotated os → KeepsAll fuel os)
        ∧ ((∀ o ∈ os, o.data ≠ 0) → KeepsAll fuel os → Unrotated os) :=
  ⟨keepsAll_of_unrotated hfresh hfuel, unrotated_of_keepsAll hfresh hfuel⟩

theorem insertAll_keepsAll_two
    : KeepsAll 3 [⟨0x1000, 0x2000, 5⟩, ⟨0x1020, 0x2020, 5⟩] := by
  apply (insertAll_keepsAll ⟨by decide, by decide⟩ (by decide)).1
  decide +kernel

/--
The third of three ascending identifiers rotates the second one out of the tree.
-/
theorem not_keepsAll
    : ¬ KeepsAll 4 [⟨0x1000, 0x2000, 1⟩, ⟨0x1020, 0x2020, 2⟩, ⟨0x1040, 0x2040, 3⟩] := by
  intro h
  obtain ⟨s, hrun, hsearch⟩ := h _ (List.prefix_refl _)
  have hlost : (insertAll 4 [⟨0x1000, 0x2000, 1⟩, ⟨0x1020, 0x2020, 2⟩, ⟨0x1040, 0x2040, 3⟩]).bind
      (fun s => bstSearch s 4 s.root 2) = some 0 := by
    decide +kernel
  rw [hrun, Option.bind_some, hsearch 2] at hlost
  simp at hlost

end Search

end Bst
end Osproj
