import Mathlib.Data.Fintype.EquivFin
import Osproj.Lib.Lemmas.BstInsert

/-!
This module contains what `bst_insert` returns. The recursion returns the node that `balance` returns, not
what the call below it returned, so a duplicate is only reported if it stands at the root. A call that gets
no memory writes to the missing child before it can return anything, unless the tree is empty.
-/

namespace Osproj
namespace Bst

open BinaryTree SearchTree LinkedTree

/--
`kmalloc` may fail, but never returns memory that is in use.
-/
def FreshOrNull (os : List Insertion) : Prop := ((os.map Insertion.addr).filter (· ≠ 0)).Nodup

instance decidableFreshOrNull (os : List Insertion) : Decidable (FreshOrNull os) :=
  inferInstanceAs (Decidable (List.Nodup _))

def Found (s : Bst) (id : Nat) : Prop := ∃ p n, Reaches s s.root p ∧ s.deref p = some n ∧ n.id = id

def SameNodes (s s' : Bst) : Prop := s'.root = s.root ∧ ∀ p, Reaches s s.root p → s'.deref p = s.deref p

/--
The insertion comes back, returns `NULL` exactly for a duplicate or a lack of memory, and has then not
changed anything that is linked.
-/
def ReportsFailure (s : Bst) (fuel : Nat) (o : Insertion) : Prop :=
  ∃ q s', bstInsert o fuel s .root = some (q, s') ∧ (q = 0 ↔ Found s o.id ∨ o.addr = 0)
    ∧ (q = 0 → SameNodes s s')

def Reportable (s : Bst) (o : Insertion) : Prop :=
  s.root = 0 ∨ (∃ n, s.deref s.root = some n ∧ n.id = o.id) ∨ (¬ Found s o.id ∧ o.addr ≠ 0)

section Result

variable {s s' : Bst} {side : Side} {slot : Slot} {p q : Nat}

theorem ne_zero_of_deref {n : BstNode} (h : s.deref p = some n) : p ≠ 0 := by
  rintro rfl
  simp [deref] at h

theorem rotate_ne_zero (h : s.rotate side p = some (q, s')) : q ≠ 0 := by
  simp only [rotate, Option.bind_eq_bind, Option.bind_eq_some_iff, Option.pure_def, Option.some.injEq,
    Prod.mk.injEq] at h
  obtain ⟨n, -, m, hm, -, -, -, -, -, -, -, -, hq, -⟩ := h
  exact hq ▸ ne_zero_of_deref hm

theorem rotateHeavy_ne_zero {inner : Int → Bool} (h : s.rotateHeavy side inner p = some (q, s'))
    : q ≠ 0 := by
  simp only [rotateHeavy, Option.bind_eq_bind, Option.bind_eq_some_iff] at h
  obtain ⟨n, -, factor, -, h⟩ := h
  split at h
  . simp only [Option.bind_eq_some_iff] at h
    obtain ⟨⟨child, s₁⟩, -, n', -, hrotate⟩ := h
    exact rotate_ne_zero hrotate
  . exact rotate_ne_zero h

theorem balance_ne_zero (h : s.balance p = some (q, s')) (hp : p ≠ 0) : q ≠ 0 := by
  simp only [balance, Option.bind_eq_bind, Option.bind_eq_some_iff] at h
  obtain ⟨factor, -, h⟩ := h
  split at h
  . exact rotateHeavy_ne_zero h
  . split at h
    . exact rotateHeavy_ne_zero h
    . simp only [Option.pure_def, Option.some.injEq, Prod.mk.injEq] at h
      exact h.1 ▸ hp

theorem rebalance_ne_zero (h : s.rebalance slot = some (q, s')) : q ≠ 0 := by
  simp only [rebalance, updateHeight, Option.bind_eq_bind, Option.bind_eq_some_iff, Option.pure_def,
    Option.some.injEq] at h
  obtain ⟨p, hget, -, ⟨n, hn, h1, -, h2, -, rfl⟩, p', hget', h⟩ := h
  have hp := ne_zero_of_deref hn
  have hnode : s.node p = some n := by
    rwa [deref, if_neg hp] at hn
  rw [get_set_height slot hnode, hget, Option.some.injEq] at hget'
  exact balance_ne_zero h (hget' ▸ hp)

theorem bstInsert_ne_zero {o : Insertion} {fuel : Nat} {n : BstNode}
    (h : bstInsert o fuel s slot = some (q, s')) (hget : s.get slot = some p) (hn : s.deref p = some n)
    (hid : n.id ≠ o.id)
    : q ≠ 0 := by
  cases fuel with
  | zero => simp [bstInsert] at h
  | succ fuel =>
    simp only [bstInsert, hget, Option.bind_eq_bind, Option.bind_some, if_neg (ne_zero_of_deref hn),
      hn] at h
    split at h
    . simp only [Option.bind_eq_some_iff] at h
      obtain ⟨⟨below, s₁⟩, -, s₂, -, hrebalance⟩ := h
      exact rebalance_ne_zero hrebalance
    . split at h
      . simp only [Option.bind_eq_some_iff] at h
        obtain ⟨⟨below, s₁⟩, -, s₂, -, hrebalance⟩ := h
        exact rebalance_ne_zero hrebalance
      . omega

end Result

section Outcome

variable {s : Bst} {t : BinaryTree Insertion} {o : Insertion} {p fuel : Nat}

theorem found_iff {id : Nat} (h : Repr s s.root t) (hsorted : Sorted Insertion.id t)
    : Found s id ↔ (find Insertion.id id t).isSome := by
  rw [Option.isSome_iff_exists]
  constructor
  . rintro ⟨p, n, hreach, hn, rfl⟩
    obtain ⟨x, hx, rfl⟩ := List.mem_map.mp ((reaches_iff h).mp hreach)
    obtain ⟨n', -, -, hn', -⟩ := h.node_of_mem hx
    rw [deref_eq hn'.addr_ne hn'.node_eq, Option.some.injEq] at hn
    subst hn
    exact ⟨x, (find_eq_some_iff hsorted).mpr ⟨hx, hn'.id_eq.symm⟩⟩
  . rintro ⟨x, hfind⟩
    obtain ⟨hx, rfl⟩ := (find_eq_some_iff hsorted).mp hfind
    obtain ⟨n, -, -, hn, -⟩ := h.node_of_mem hx
    exact ⟨x.addr, n, (reaches_iff h).mpr (List.mem_map_of_mem hx), deref_eq hn.addr_ne hn.node_eq,
      hn.id_eq⟩

/--
The insertion of a duplicate does not ask for memory.
-/
theorem bstInsert_of_found {slot : Slot} (hget : s.get slot = some p) (ht : Repr s p t)
    (hfound : (find Insertion.id o.id t).isSome) (addr : Nat)
    : bstInsert { o with addr := addr } fuel s slot = bstInsert o fuel s slot := by
  induction t generalizing slot p fuel with
  | nil => simp [find] at hfound
  | node a l r ihl ihr =>
    cases fuel with
    | zero => rfl
    | succ fuel =>
      obtain ⟨rfl, n, hn, -, hl, hr⟩ := ht
      have hderef := deref_eq hn.addr_ne hn.node_eq
      have hchild (side : Side) := get_child side hderef
      simp only [find, ← hn.id_eq] at hfound
      simp only [bstInsert, hget, Option.bind_eq_bind, Option.bind_some, if_neg hn.addr_ne, hderef]
      split
      . next hlt =>
        rw [if_pos hlt] at hfound
        rw [ihl (hchild .child1) hl hfound]
      . next hlt =>
        rw [if_neg hlt] at hfound
        split
        . next hgt =>
          rw [if_pos hgt] at hfound
          rw [ihr (hchild .child2) hr hfound]
        . rfl

theorem setParent_of_zero {slot : Slot} {side : Side} {n : BstNode} (hget : s.get slot = some p)
    (hn : s.deref p = some n) (hzero : n.child side = 0)
    : s.setParent slot side = none := by
  simp only [setParent, hget, hn, hzero, Option.bind_eq_bind, Option.bind_some]
  rfl

theorem bstInsert_nil {slot : Slot} (hget : s.get slot = some 0) (haddr : o.addr = 0)
    : bstInsert o (fuel + 1) s slot = some (0, s) := by
  have hput : s.put slot 0 = some s := by
    rw [put_eq hget, write_get hget]
  simp [bstInsert, hget, haddr, hput]

theorem bstInsert_below {slot : Slot} {side : Side} {n : BstNode} {t : BinaryTree Insertion}
    (hget : s.get slot = some p) (hn : s.deref p = some n) (ht : Repr s (n.child side) t)
    (haddr : o.addr = 0) (ih : t ≠ nil → bstInsert o fuel s (.child side p) = none)
    : ((bstInsert o fuel s (.child side p)).bind (fun x =>
        (x.2.setParent slot side).bind (fun s => s.rebalance slot))) = none := by
  by_cases hnil : t = nil
  . subst hnil
    have hzero : n.child side = 0 := ht
    have hchild : s.get (.child side p) = some 0 := by
      rw [get_child side hn, hzero]
    cases fuel with
    | zero => rfl
    | succ fuel =>
      rw [bstInsert_nil hchild haddr, Option.bind_some, setParent_of_zero hget hn hzero, Option.bind_none]
  . rw [ih hnil, Option.bind_none]

/--
Without memory the parent of the missing node is set through `NULL`.
-/
theorem bstInsert_of_null {slot : Slot} (hget : s.get slot = some p) (ht : Repr s p t) (hnil : t ≠ nil)
    (hfound : find Insertion.id o.id t = none) (haddr : o.addr = 0)
    : bstInsert o fuel s slot = none := by
  induction t generalizing slot p fuel with
  | nil => exact absurd rfl hnil
  | node a l r ihl ihr =>
    cases fuel with
    | zero => rfl
    | succ fuel =>
      obtain ⟨rfl, n, hn, -, hl, hr⟩ := ht
      have hderef := deref_eq hn.addr_ne hn.node_eq
      have hchild (side : Side) := get_child side hderef
      simp only [find, ← hn.id_eq] at hfound
      simp only [bstInsert, hget, Option.bind_eq_bind, Option.bind_some, if_neg hn.addr_ne, hderef]
      split
      . next hlt =>
        rw [if_pos hlt] at hfound
        exact bstInsert_below hget hderef hl haddr (fun h => ihl (hchild .child1) hl h hfound)
      . next hlt =>
        rw [if_neg hlt] at hfound
        split
        . next hgt =>
          rw [if_pos hgt] at hfound
          exact bstInsert_below hget hderef hr haddr (fun h => ihr (hchild .child2) hr h hfound)
        . next hgt =>
          simp [hgt] at hfound

end Outcome

section Runs

variable {s : Bst} {os : List Insertion} {o : Insertion} {fuel : Nat}

theorem insert_of_found {t : BinaryTree Insertion} (h : (find Insertion.id o.id t).isSome)
    : SearchTree.insert Insertion.id o t = t := by
  induction t with
  | nil => simp [find] at h
  | node a l r ihl ihr =>
    simp only [find] at h
    simp only [SearchTree.insert]
    split
    . next hlt =>
      rw [if_pos hlt] at h
      rw [ihl h]
    . next hlt =>
      rw [if_neg hlt] at h
      split
      . next hgt =>
        rw [if_pos hgt] at h
        rw [ihr h]
      . rfl

theorem nodup_addrs_of_subperm {t : BinaryTree Insertion} (h : Repr s s.root t)
    (hfresh : FreshOrNull os) (hsub : (toList t).Subperm os)
    : (addrs t).Nodup := by
  have hfilter : (addrs t).filter (· ≠ 0) = addrs t := by
    rw [List.filter_eq_self]
    intro q hq
    obtain ⟨x, hx, rfl⟩ := List.mem_map.mp hq
    obtain ⟨n, -, -, hn, -⟩ := h.node_of_mem hx
    simpa using hn.addr_ne
  rw [← hfilter]
  obtain ⟨os', hperm, hsub'⟩ := hsub
  refine (((hperm.map Insertion.addr).filter _).nodup_iff).mp ?_
  exact List.Nodup.sublist ((hsub'.map Insertion.addr).filter _) hfresh

theorem FreshOrNull.of_append {os os' : List Insertion} (h : FreshOrNull (os ++ os')) : FreshOrNull os := by
  unfold FreshOrNull at h
  rw [List.map_append, List.filter_append] at h
  exact (List.nodup_append.mp h).1

theorem FreshOrNull.not_mem (h : FreshOrNull (os ++ [o])) (ho : o.addr ≠ 0)
    {t : BinaryTree Insertion} (hsub : (toList t).Subperm os)
    : o.addr ∉ addrs t := by
  intro hmem
  obtain ⟨x, hx, heq⟩ := List.mem_map.mp hmem
  unfold FreshOrNull at h
  rw [List.map_append, List.filter_append, List.nodup_append] at h
  refine h.2.2 o.addr ?_ o.addr (by simpa using ho) rfl
  rw [List.mem_filter]
  exact ⟨heq ▸ List.mem_map_of_mem (hsub.subset hx), by simpa using ho⟩

theorem insertAll_linked (hfresh : FreshOrNull os) (hfuel : os.length < fuel)
    (hrun : insertAll fuel os = some s)
    : ∃ t, Repr s s.root t ∧ Sorted Insertion.id t ∧ (toList t).Subperm os := by
  induction os using List.reverseRecOn generalizing s with
  | nil =>
    simp only [insertAll, Run.run_nil, Option.some.injEq] at hrun
    subst hrun
    exact ⟨nil, rfl, by simp [Sorted, toList], .refl _⟩
  | append_singleton os o ih =>
    rw [List.length_append, List.length_singleton] at hfuel
    rw [insertAll_concat, Option.bind_eq_some_iff] at hrun
    obtain ⟨s₀, hrun, hstep⟩ := hrun
    obtain ⟨t, ht, hsorted, hsub⟩ := ih hfresh.of_append (by omega) hrun
    have hnodup := nodup_addrs_of_subperm ht hfresh.of_append hsub
    have hheight := (height_le_length_toList t).trans hsub.length_le
    have hgrow : os.Subperm (os ++ [o]) := (List.sublist_append_left os [o]).subperm
    rw [insertStep, Option.map_eq_some_iff] at hstep
    obtain ⟨⟨q, s'⟩, hinsert, rfl⟩ := hstep
    -- whatever memory there is, a call that comes back links what one with fresh memory links
    have hlink {o' : Insertion} (hinsert' : bstInsert o' fuel s₀ .root = some (q, s')) (ho' : o'.addr ≠ 0)
        (hnew : o'.addr ∉ addrs t)
        : Repr s' s'.root (insertLinked Insertion.id o' t) := by
      obtain ⟨q', s₁, p', hinsert₁, hrepr, hroot, -⟩ := bstInsert_repr
        (show s₀.get .root = some s₀.root from rfl) ht hnodup ho' hnew trivial (show _ < fuel by omega)
      rw [hinsert', Option.some.injEq, Prod.mk.injEq] at hinsert₁
      obtain ⟨-, rfl⟩ := hinsert₁
      have hp : s'.root = p' := hroot
      exact hp ▸ hrepr
    by_cases haddr : o.addr = 0
    . by_cases hfound : (find Insertion.id o.id t).isSome
      . obtain ⟨addr, hnew⟩ := Infinite.exists_notMem_finset (insert 0 (addrs t).toFinset)
        rw [Finset.mem_insert, List.mem_toFinset, not_or] at hnew
        rw [← bstInsert_of_found (show s₀.get .root = some s₀.root from rfl) ht hfound addr] at hinsert
        refine ⟨_, hlink hinsert hnew.1 hnew.2, sorted_insertLinked _ hsorted, ?_⟩
        have hsublist := @insertLinked_sublist _ _ _ Insertion.id { o with addr := addr } t
        rw [insert_of_found (by exact hfound)] at hsublist
        exact (hsublist.subperm.trans hsub).trans hgrow
      . rw [Option.not_isSome_iff_eq_none] at hfound
        by_cases hnil : t = nil
        . subst hnil
          have hget : s₀.get .root = some 0 := by
            rw [get, show s₀.root = 0 from ht]
          obtain ⟨fuel, rfl⟩ : ∃ k, fuel = k + 1 := ⟨fuel - 1, by omega⟩
          rw [bstInsert_nil hget haddr, Option.some.injEq, Prod.mk.injEq] at hinsert
          obtain ⟨-, rfl⟩ := hinsert
          exact ⟨nil, ht, hsorted, List.nil_subperm⟩
        . rw [bstInsert_of_null (show s₀.get .root = some s₀.root from rfl) ht hnil hfound haddr] at hinsert
          cases hinsert
    . refine ⟨_, hlink hinsert haddr (hfresh.not_mem haddr hsub), sorted_insertLinked _ hsorted, ?_⟩
      refine (insertLinked_subperm o t).trans (((List.subperm_cons o).mpr hsub).trans ?_)
      exact (List.perm_append_singleton o os).symm.subperm

section Calls

variable {t : BinaryTree Insertion}

theorem exists_deref_root (ht : Repr s s.root t) (hnil : t ≠ nil) : ∃ n, s.deref s.root = some n := by
  cases t with
  | nil => exact absurd rfl hnil
  | node a l r =>
    obtain ⟨hroot, n, hn, -⟩ := ht
    refine ⟨n, ?_⟩
    rw [hroot]
    exact deref_eq hn.addr_ne hn.node_eq

/--
Of the duplicates only that of the root is answered with `NULL`.
-/
theorem reportsFailure_iff_of_found (ht : Repr s s.root t) (hnil : t ≠ nil) (hdup : Found s o.id)
    : ReportsFailure s (fuel + 1) o ↔ Reportable s o := by
  obtain ⟨n, hderef⟩ := exists_deref_root ht hnil
  constructor
  . rintro ⟨q, s', hinsert, hnull, -⟩
    by_contra hnot
    exact bstInsert_ne_zero hinsert (show s.get .root = some s.root from rfl) hderef
      (fun hid => hnot (Or.inr (Or.inl ⟨n, hderef, hid⟩))) (hnull.mpr (Or.inl hdup))
  . rintro (hzero | ⟨n', hn', hid⟩ | ⟨hnot, -⟩)
    . exact absurd hzero (ht.ne_zero hnil)
    . have hinsert : bstInsert o (fuel + 1) s .root = some (0, s) := by
        simp only [bstInsert, get, Option.bind_eq_bind, Option.bind_some, if_neg (ne_zero_of_deref hn'), hn', hid,
          lt_irrefl, if_false, gt_iff_lt, Option.pure_def]
      exact ⟨0, s, hinsert, by simp [hdup], fun _ => ⟨rfl, fun _ _ => rfl⟩⟩
    . exact absurd hdup hnot

theorem reportsFailure_iff_of_null (ht : Repr s s.root t) (hfind : find Insertion.id o.id t = none)
    (hnew : ¬ Found s o.id) (haddr : o.addr = 0)
    : ReportsFailure s (fuel + 1) o ↔ Reportable s o := by
  have hget : s.get .root = some s.root := rfl
  by_cases hnil : t = nil
  . subst hnil
    have hroot : s.root = 0 := ht
    refine iff_of_true ⟨0, s, bstInsert_nil (hroot ▸ hget) haddr, by simp [haddr], ?_⟩ (Or.inl hroot)
    exact fun _ => ⟨rfl, fun _ _ => rfl⟩
  . refine iff_of_false ?_ ?_
    . rintro ⟨q, s', hinsert, -⟩
      rw [bstInsert_of_null hget ht hnil hfind haddr] at hinsert
      cases hinsert
    . rintro (hzero | ⟨n, hn, hid⟩ | ⟨-, hne⟩)
      . exact ht.ne_zero hnil hzero
      . exact hnew ⟨s.root, n, .refl (ht.ne_zero hnil), hn, hid⟩
      . exact hne haddr

theorem reportsFailure_of_new (ht : Repr s s.root t) (hnodup : (addrs t).Nodup) (hfresh : o.addr ∉ addrs t)
    (hnew : ¬ Found s o.id) (haddr : o.addr ≠ 0) (hfuel : t.height < fuel)
    : ReportsFailure s fuel o := by
  have hget : s.get .root = some s.root := rfl
  obtain ⟨q, s', p', hinsert, -⟩ := bstInsert_repr hget ht hnodup haddr hfresh trivial hfuel
  have hq : q ≠ 0 := by
    by_cases hnil : t = nil
    . subst hnil
      obtain ⟨k, rfl⟩ : ∃ k, fuel = k + 1 := ⟨fuel - 1, by omega⟩
      have hroot : s.root = 0 := ht
      simp only [bstInsert, hget, hroot, Option.bind_eq_bind, Option.bind_some, if_true, put, if_neg haddr,
        Option.pure_def, Option.some.injEq, Prod.mk.injEq] at hinsert
      exact hinsert.1 ▸ haddr
    . obtain ⟨n, hderef⟩ := exists_deref_root ht hnil
      refine bstInsert_ne_zero hinsert hget hderef (fun hid => hnew ?_)
      exact ⟨s.root, n, .refl (ne_zero_of_deref hderef), hderef, hid⟩
  exact ⟨q, s', hinsert, by simp [hq, hnew, haddr], fun h => absurd h hq⟩

end Calls

/--
`NULL` is returned for what it is documented to mean as long as the tree is empty, its root has the
identifier, or the insertion succeeds.
-/
theorem reportsFailure_iff (hfresh : FreshOrNull (os ++ [o])) (hfuel : os.length < fuel)
    (hrun : insertAll fuel os = some s)
    : ReportsFailure s fuel o ↔ Reportable s o := by
  obtain ⟨t, ht, hsorted, hsub⟩ := insertAll_linked hfresh.of_append hfuel hrun
  have hheight := (height_le_length_toList t).trans hsub.length_le
  have hfound := @found_iff s t o.id ht hsorted
  obtain ⟨k, rfl⟩ : ∃ k, fuel = k + 1 := ⟨fuel - 1, by omega⟩
  cases hfind : find Insertion.id o.id t with
  | some x =>
    rw [hfind, Option.isSome_some] at hfound
    have hnil : t ≠ nil := by
      rintro rfl
      simp [find] at hfind
    exact reportsFailure_iff_of_found ht hnil (hfound.mpr rfl)
  | none =>
    rw [hfind, Option.isSome_none] at hfound
    have hnew : ¬ Found s o.id := fun h => Bool.false_ne_true (hfound.mp h)
    by_cases haddr : o.addr = 0
    . exact reportsFailure_iff_of_null ht hfind hnew haddr
    . refine iff_of_true ?_ (Or.inr (Or.inr ⟨hnew, haddr⟩))
      exact reportsFailure_of_new ht (nodup_addrs_of_subperm ht hfresh.of_append hsub) (hfresh.not_mem haddr hsub) hnew
        haddr (by omega)

theorem reportsFailure_iff_one
    : ∃ s, insertAll 2 [⟨0x1000, 0x2000, 2⟩] = some s
        ∧ (ReportsFailure s 2 ⟨0, 0x2020, 1⟩ ↔ Reportable s ⟨0, 0x2020, 1⟩) :=
  ⟨_, rfl, @reportsFailure_iff _ [⟨0x1000, 0x2000, 2⟩] ⟨0, 0x2020, 1⟩ 2 (by decide) (by decide) rfl⟩

/--
The identifier 1 stands below the root, and its second insertion returns the root.
-/
theorem not_reportsFailure
    : ∃ s, insertAll 3 [⟨0x1000, 0x2000, 2⟩, ⟨0x1020, 0x2020, 1⟩] = some s
        ∧ ¬ ReportsFailure s 3 ⟨0x1040, 0x2040, 1⟩ := by
  refine ⟨_, rfl, ?_⟩
  rintro ⟨q, s', hinsert, hnull, -⟩
  have hq := congrArg (Option.map Prod.fst) hinsert
  have hroot : q = 0x1000 := by
    simpa using hq.symm.trans (show _ = some 0x1000 by rfl)
  have hfound : q = 0 := by
    refine hnull.mpr (Or.inl ⟨0x1020, _, .child .child1 rfl (.refl (by decide)), rfl, rfl⟩)
  omega

end Runs

end Bst
end Osproj
