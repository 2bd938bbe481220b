import Mathlib.Data.List.Nodup
import Osproj.Base.Chain
import Osproj.Base.Run
import Osproj.Mm.Lemmas.SlabFilling

/-!
This module contains the free list of one slab. `release_slab` takes the head of the list for the array of the nodes. The
head is never the first node of the array while an object is allocated, so the first release already links the wrong
node, unless it faults.
-/

namespace Osproj

open Slab Chain

/--
A slab in use, with the indices of the objects that are allocated.
-/
structure SlabUse where
  mem : SlabMem
  live : List Nat

/--
A call of `alloc_from_slab`, or of `release_slab` for the `j`th object that is allocated.
-/
inductive SlabUseOp
  | alloc
  | release (j : Nat)
deriving DecidableEq

namespace SlabUse

/--
`alloc_from_slab` is only called while `free_count` is not 0.
-/
def step (page c : Nat) (u : SlabUse) : SlabUseOp → Option SlabUse
  | .alloc =>
    if (u.mem.slab page).freeCount = 0 then
      some u
    else do
      let index := (u.mem.free (u.mem.slab page).free).index
      let (_, mem) ← u.mem.allocFromSlab page (u.mem.cache c).objSize
      return { mem, live := index :: u.live }
  | .release j =>
    match u.live[j]? with
    | none => some u
    | some index => do
      -- the address that `alloc_from_slab` returned for it
      let obj := ((u.mem.slab page).start + (u.mem.cache c).objSize * index) % 0x100000000
      let (_, mem) ← u.mem.releaseSlab obj
      return { mem, live := u.live.eraseIdx j }

/--
The list ends, and its nodes are those of the objects that are not allocated.
-/
def FreeListOk (page c : Nat) (u : SlabUse) : Prop :=
  ∃ l : List Nat,
    Follows (fun a => (u.mem.free a).next) 0 (u.mem.slab page).free (l.map (SlabMem.node page))
      ∧ (∀ i ∈ l, (u.mem.free (SlabMem.node page i)).index = i)
      ∧ l.Nodup
      ∧ (∀ i, i ∈ l ↔ i < (u.mem.cache c).objCountPerSlab ∧ i ∉ u.live)
      ∧ l.length = (u.mem.slab page).freeCount

def ReleasesNothing (u : SlabUse) : SlabUseOp → Prop
  | .alloc => True
  | .release j => u.live.length ≤ j

instance (u : SlabUse) (op : SlabUseOp) : Decidable (ReleasesNothing u op) := by
  unfold ReleasesNothing
  split <;> infer_instance

end SlabUse

namespace SlabMem

/--
The slab that `creat_slab` makes for the cache `c`.
-/
def built (s : SlabMem) (page c : Nat) : Option SlabMem :=
  (s.creatSlab page (s.cache c).objCountPerSlab).map
    (fun s => s.setSlab page { s.slab page with parent := c })

section FreeList

variable {s : SlabMem} {p c n k : Nat}

theorem SlabOk.follows (h : SlabOk s p n k c) {i : Nat} (hk : k ≤ i) (left : Nat) (hn : i + left = n)
    : Follows (fun a => (s.free a).next) 0 (if i < n then node p i else 0)
        ((List.range' i left).map (node p)) := by
  induction left generalizing i with
  | zero =>
    rw [if_neg (by omega)]
    rfl
  | succ left ih =>
    rw [if_pos (by omega)]
    refine ⟨rfl, ?_, ?_⟩
    . simp [node, SIZEOF_SLAB]
    . dsimp only
      rw [h.nodes i hk (by omega)]
      exact ih (by omega) (by omega)

theorem le_of_follows {next : Nat → Nat} {l : List Nat} {a : Nat}
    (hnext : ∀ j ∈ l, k ≤ j → next (node p j) = 0 ∨ ∃ m, k ≤ m ∧ next (node p j) = node p m)
    (h : Follows next 0 a (l.map (node p))) (ha : a = 0 ∨ ∃ m, k ≤ m ∧ a = node p m)
    : ∀ i ∈ l, k ≤ i := by
  induction l generalizing a with
  | nil =>
    intro i hi
    contradiction
  | cons j l ih =>
    obtain ⟨rfl, hne, h⟩ := h
    have hj : k ≤ j := by
      obtain ⟨m, hm, heq⟩ := ha.resolve_left hne
      rw [node_inj] at heq
      omega
    intro i hi
    cases List.mem_cons.mp hi with
    | inl hij => exact hij ▸ hj
    | inr hi =>
      have hrest := hnext j List.mem_cons_self hj
      exact ih (fun j hj => hnext j (List.mem_cons_of_mem _ hj)) h hrest i hi

theorem object_lt {size i : Nat} (hi : i < objCount size) : node p (objCount size) + size * i < p + SLAB_SIZE := by
  have hfit := @node_objCount_le p size
  have hle : size * (i + 1) ≤ size * objCount size := Nat.mul_le_mul_left _ hi
  rw [Nat.mul_succ] at hle
  by_cases hzero : size = 0
  . subst hzero
    simp only [node, SIZEOF_SLAB, SIZEOF_FREE, SLAB_SIZE, objCount] at *
    omega
  . omega

theorem object_div (haligned : p % SLAB_SIZE = 0) {size i : Nat} (hi : i < objCount size)
    : (node p (objCount size) + size * i) / 0x1000 * 0x1000 = p := by
  have hlt := @object_lt p size i hi
  simp only [node, SLAB_SIZE] at *
  omega

theorem object_mod (hp : p + SLAB_SIZE ≤ 0x100000000) {size i : Nat} (hi : i < objCount size)
    : (node p (objCount size) + size * i) % 0x100000000 = node p (objCount size) + size * i :=
  Nat.mod_eq_of_lt (Nat.lt_of_lt_of_le (object_lt hi) hp)

/--
The subtraction of `release_slab`, which is one of unsigned numbers.
-/
theorem object_index {start size i : Nat} (hsize : size ≠ 0) (hlt : start + size * i < 0x100000000)
    : (start + size * i + 0x100000000 - start) % 0x100000000 / size = i := by
  have hsub : start + size * i + 0x100000000 - start = size * i + 0x100000000 := by omega
  rw [hsub, Nat.add_mod_right, Nat.mod_eq_of_lt (by omega), Nat.mul_div_cancel_left i (Nat.pos_of_ne_zero hsize)]

theorem IsSlab.index_eq (h : s.IsSlab p k c) (hp : IsPage p)
    (hcount : (s.cache c).objCountPerSlab = objCount (s.cache c).objSize) (hsize : (s.cache c).objSize ≠ 0)
    {i : Nat} (hi : i < (s.cache c).objCountPerSlab)
    : (node p (s.cache c).objCountPerSlab + (s.cache c).objSize * i + 0x100000000 - (s.slab p).start) % 0x100000000
        / (s.cache c).objSize
        =
      i := by
  rw [hcount] at hi
  rw [h.start, hcount]
  exact object_index hsize (Nat.lt_of_lt_of_le (object_lt hi) hp.size)

theorem IsSlab.releaseSlab_eq (h : s.IsSlab p k c) (hp : IsPage p) (hc : 0x80000000 ≤ c)
    (hcount : (s.cache c).objCountPerSlab = objCount (s.cache c).objSize) {i : Nat}
    (hi : i < (s.cache c).objCountPerSlab)
    : s.releaseSlab (node p (s.cache c).objCountPerSlab + (s.cache c).objSize * i)
        =
      if (s.cache c).objSize = 0 then
        none
      else
        let freeNode := ((s.slab p).free + SIZEOF_FREE * i) % 0x100000000
        (s.freeAt freeNode).map fun node =>
          (p, (s.setFree freeNode { node with next := (s.slab p).free }).setSlab p { s.slab p with
            free := freeNode
            freeCount := ((s.slab p).freeCount + 1) % 0x100000000 }) := by
  have hi' := hi
  rw [hcount] at hi'
  have hdiv := object_div hp.aligned hi'
  rw [← hcount] at hdiv
  simp only [releaseSlab, hdiv, slabAt_of_le hp.kernel, h.parent, cacheAt_of_le hc, Option.bind_eq_bind,
    Option.bind_some]
  split
  . rfl
  . next hzero =>
    rw [h.index_eq hp hcount hzero hi, Option.map_eq_bind]
    rfl

end FreeList

end SlabMem

namespace SlabUse

open SlabMem

variable {page c k i : Nat} {u u' : SlabUse}

/--
The slab has handed out its objects in the order of their indices and none was released.
-/
structure Filled (page c k : Nat) (u : SlabUse) : Prop where
  slab : u.mem.IsSlab page k c
  live : u.live = (List.range k).reverse
  objCountPerSlab : (u.mem.cache c).objCountPerSlab = objCount (u.mem.cache c).objSize

theorem Filled.mem_live (h : Filled page c k u) : i ∈ u.live ↔ i < k := by
  rw [h.live, List.mem_reverse, List.mem_range]

theorem Filled.freeListOk (h : Filled page c k u) : FreeListOk page c u := by
  have hle := h.slab.used_le
  have hcount := h.slab.freeCount
  refine ⟨List.range' k ((u.mem.cache c).objCountPerSlab - k), ?_, ?_, List.nodup_range', ?_, ?_⟩
  . rw [h.slab.free]
    exact SlabOk.follows h.slab (Nat.le_refl k) _ (by omega)
  . intro i hi
    rw [List.mem_range'_1] at hi
    rw [h.slab.nodes i hi.1 (by omega)]
  . intro i
    rw [List.mem_range'_1, h.mem_live]
    omega
  . rw [List.length_range']
    omega

theorem Filled.alloc (h : Filled page c k u) (hpage : IsPage page)
    : ∃ u', u.step page c .alloc = some u' ∧ ∃ k', Filled page c k' u' := by
  have hcount := h.slab.freeCount
  simp only [step]
  split
  . exact ⟨u, rfl, k, h⟩
  . next hfree =>
    have hk : k < (u.mem.cache c).objCountPerSlab := by omega
    obtain ⟨s', halloc, hcache, hslab, -⟩ := h.slab.allocFromSlab hpage h.objCountPerSlab hk
    have hindex : (u.mem.free (u.mem.slab page).free).index = k := by
      rw [h.slab.free, if_pos hk, h.slab.nodes k (Nat.le_refl k) hk]
    refine ⟨⟨s', k :: u.live⟩, ?_, k + 1, hslab, ?_, ?_⟩
    . simp only [halloc, hindex, Option.bind_eq_bind, Option.bind_some, Option.pure_def]
    . dsimp only
      rw [h.live, List.range_succ, List.reverse_append]
      rfl
    . dsimp only
      rw [hcache]
      exact h.objCountPerSlab

theorem Filled.release (h : Filled page c k u) (hpage : IsPage page) (hc : 0x80000000 ≤ c) {j : Nat}
    (hi : u.live[j]? = some i) (hstep : u.step page c (.release j) = some u')
    : u'.live = u.live.eraseIdx j
        ∧ u'.mem.cache = u.mem.cache
        ∧ (u'.mem.slab page).free = node page (k + i)
        ∧ (u'.mem.free (node page (k + i))).next = node page k
        ∧ ∀ m, m ≠ k + i → u'.mem.free (node page m) = u.mem.free (node page m) := by
  have hik : i < k := h.mem_live.mp (List.mem_of_getElem? hi)
  have hle := h.slab.used_le
  have hin : i < (u.mem.cache c).objCountPerSlab := by omega
  have hin' := hin
  rw [h.objCountPerSlab] at hin'
  have haddr := object_mod hpage.size hin'
  rw [← h.objCountPerSlab, ← h.slab.start] at haddr
  have hnode := @node_objCount_le page (u.mem.cache c).objSize
  rw [← h.objCountPerSlab] at hnode
  simp only [step, hi, haddr] at hstep
  rw [h.slab.start, h.slab.releaseSlab_eq hpage hc h.objCountPerSlab hin] at hstep
  split at hstep
  . simp at hstep
  . generalize hfn : ((u.mem.slab page).free + SIZEOF_FREE * i) % 0x100000000 = freeNode at hstep
    simp only [freeAt] at hstep
    split at hstep
    . simp at hstep
    . next hkernel =>
      simp only [Option.map_some, Option.bind_eq_bind, Option.bind_some, Option.pure_def,
        Option.some.injEq] at hstep
      have hsize := hpage.size
      -- the list of a full slab is `NULL`, and the node of the object would lie in the first page of memory
      have hkn : k < (u.mem.cache c).objCountPerSlab := by
        by_contra hfull
        rw [h.slab.free, if_neg hfull] at hfn
        simp only [node, SIZEOF_SLAB, SIZEOF_FREE, SLAB_SIZE] at *
        omega
      have hhead : (u.mem.slab page).free = node page k := by
        rw [h.slab.free, if_pos hkn]
      have hfn' : freeNode = node page (k + i) := by
        rw [hhead] at hfn
        simp only [node, SIZEOF_SLAB, SIZEOF_FREE, SLAB_SIZE] at *
        omega
      rw [← hstep, hfn']
      refine ⟨rfl, rfl, ?_, ?_, ?_⟩
      . simp [setSlab]
      . simp [setSlab, setFree, hhead]
      . intro m hm
        simp [setSlab, setFree, node_inj, hm]

/--
The nodes after the one that was linked are those from the old head on, and none of them belongs to an object that was
handed out.
-/
theorem Filled.not_freeListOk (h : Filled page c k u) (hpage : IsPage page) (hc : 0x80000000 ≤ c) {j : Nat}
    (hi : u.live[j]? = some i) (hstep : u.step page c (.release j) = some u')
    : ¬ FreeListOk page c u' := by
  obtain ⟨hlive, hcache, hfree, hnext, hother⟩ := h.release hpage hc hi hstep
  have hik : i < k := h.mem_live.mp (List.mem_of_getElem? hi)
  have hle := h.slab.used_le
  rintro ⟨l, hfollows, -, -, hmem, -⟩
  have hnotin : i ∉ u'.live := by
    have hnodup : u.live.Nodup := by
      rw [h.live, List.nodup_reverse]
      exact List.nodup_range
    obtain ⟨hj, hij⟩ := List.getElem?_eq_some_iff.mp hi
    rw [hlive, ← hij]
    intro hmem'
    obtain ⟨m, hm, hmj, heq⟩ := List.mem_eraseIdx_iff_getElem.mp hmem'
    exact hmj ((List.Nodup.getElem_inj_iff hnodup).mp heq)
  have hil : i ∈ l := by
    rw [hmem, hcache]
    exact ⟨by omega, hnotin⟩
  have hge : k ≤ i := by
    refine @le_of_follows page k _ l _ ?_ hfollows (Or.inr ⟨k + i, by omega, hfree⟩) i hil
    intro m hm hkm
    by_cases hmk : m = k + i
    . subst hmk
      exact Or.inr ⟨k, Nat.le_refl k, hnext⟩
    . have hmn := ((hmem m).mp hm).1
      rw [hcache] at hmn
      rw [hother m hmk, h.slab.nodes m hkm hmn]
      dsimp only
      split
      . exact Or.inr ⟨m + 1, by omega, rfl⟩
      . exact Or.inl rfl
  omega

theorem filled_built {s : SlabMem} (hpage : IsPage page)
    (hcount : (s.cache c).objCountPerSlab = objCount (s.cache c).objSize)
    (hpos : 0 < (s.cache c).objCountPerSlab)
    : ∃ mem, s.built page c = some mem ∧ Filled page c 0 ⟨mem, []⟩ := by
  have hfit := @node_le page _ _ hcount
  obtain ⟨s₁, hcreat, hok, -, hsame⟩ := slabOk_creatSlab s hpage hpos hfit
  refine ⟨_, by rw [built, hcreat, Option.map_some], ?_, rfl, ?_⟩
  . rw [IsSlab, show (s₁.setSlab page _).cache = s.cache from hsame.cache]
    exact hok.setParent c
  . simpa [setSlab, hsame.cache] using hcount

/--
The list is right all along a run exactly if the run releases nothing.
-/
theorem freeListOk_iff (s : SlabMem) (page c : Nat) (hpage : IsPage page) (hc : 0x80000000 ≤ c)
    (hcount : (s.cache c).objCountPerSlab = objCount (s.cache c).objSize)
    (hpos : 1 ≤ (s.cache c).objCountPerSlab)
    : ∃ mem,
        s.built page c = some mem
          ∧ ∀ ops,
            (∀ ps, ps <+: ops → ∃ u, Run.run (step page c) ⟨mem, []⟩ ps = some u ∧ FreeListOk page c u)
              ↔
            Run.Guarded (step page c) ReleasesNothing ⟨mem, []⟩ ops := by
  obtain ⟨mem, hbuilt, hfilled⟩ := filled_built hpage hcount hpos
  refine ⟨mem, hbuilt, fun ops => ?_⟩
  apply @Run.guarded_iff_prefixes _ _ (step page c) ReleasesNothing (fun u => ∃ k, Filled page c k u)
  . rintro u ⟨k, h⟩
    exact h.freeListOk
  . rintro u op ⟨k, h⟩ hop
    cases op with
    | alloc => exact h.alloc hpage
    | release j =>
      have hnone : u.live[j]? = none := List.getElem?_eq_none hop
      exact ⟨u, by simp only [step, hnone], k, h⟩
  . rintro u op u' ⟨k, h⟩ hop hstep
    cases op with
    | alloc => exact absurd trivial hop
    | release j =>
      have hj : j < u.live.length := Nat.lt_of_not_le hop
      exact h.not_freeListOk hpage hc (List.getElem?_eq_getElem hj) hstep
  . exact ⟨0, hfilled⟩

def bare : SlabMem :=
  boot (fun _ => ⟨0, 0⟩) (fun _ => ⟨0, 0, 0, 0, 0⟩) (fun _ => ⟨0, 0, 0, 0, 0, 0, 0⟩) 0xC0100000

theorem freeListOk_iff_bare
    : ∃ mem,
        bare.built 0xC0200000 0xC0100000 = some mem
          ∧ ∀ ops,
            (∀ ps, ps <+: ops → ∃ u, Run.run (step 0xC0200000 0xC0100000) ⟨mem, []⟩ ps = some u
              ∧ FreeListOk 0xC0200000 0xC0100000 u)
              ↔
            Run.Guarded (step 0xC0200000 0xC0100000) ReleasesNothing ⟨mem, []⟩ ops :=
  freeListOk_iff bare 0xC0200000 0xC0100000 ⟨by decide, by decide, by decide⟩ (by decide) rfl (by decide)

/--
Of two objects the first is released. The node linked is the head itself.
-/
theorem not_freeListOk_release
    : ∃ mem,
        bare.built 0xC0200000 0xC0100000 = some mem
          ∧ ¬ ∀ ps, ps <+: [SlabUseOp.alloc, .alloc, .release 1] →
            ∃ u, Run.run (step 0xC0200000 0xC0100000) ⟨mem, []⟩ ps = some u
              ∧ FreeListOk 0xC0200000 0xC0100000 u := by
  refine ⟨_, Option.eq_some_of_isSome (by decide +kernel), ?_⟩
  intro h
  obtain ⟨u, hrun, l, hfollows, -⟩ := h _ (List.prefix_refl _)
  have hlinks := congrArg (Option.map (fun u => ((u.mem.slab 0xC0200000).free, (u.mem.free 0xC0200024).next))) hrun
  rw [show Option.map _ _ = some (0xC0200024, 0xC0200024) by decide +kernel, Option.map_some, Option.some.injEq,
    Prod.mk.injEq] at hlinks
  rw [← hlinks.1] at hfollows
  obtain ⟨l', hl, hrest⟩ := hfollows.ne_nil (by decide)
  have hnodup := hfollows.nodup
  rw [← hlinks.2] at hrest
  rw [hl, hrest.unique hfollows, hl] at hnodup
  simp at hnodup

end SlabUse
end Osproj
