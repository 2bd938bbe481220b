import Osproj.Mm.Lemmas.SlabCaches

/-!
This module contains the allocations from a new cache. A cache fills one slab after the other: the slab in use is the one
on the empty list after its first object and the one on the partial list after the second one. A slab of one object is
full after its first one, but stays on the empty list.
-/

namespace Osproj

open Slab

namespace SlabMem

open SlabHeap

/--
`k` calls of `alloc_from_kmem` with the pages that `palloc` returns one after the other. Returns the objects and how
many pages were taken.
-/
def allocObjects (s : SlabMem) (c : Nat) (pages : Nat → Nat) : Nat → Option (List Nat × Nat × SlabMem)
  | 0 => some ([], 0, s)
  | k + 1 => do
    let (objs, taken, s) ← allocObjects s c pages k
    let (ret, s') ← s.allocFromKmem c (pages taken)
    return (objs ++ [ret], if NeedsPage s c then taken + 1 else taken, s')

structure IsFresh (s : SlabMem) (c size : Nat) : Prop where
  kernel : 0x80000000 ≤ c
  empty : (s.cache c).emptySlab = 0
  part : (s.cache c).partialSlab = 0
  objSize : (s.cache c).objSize = size
  objCountPerSlab : (s.cache c).objCountPerSlab = objCount size

def pagesFor (n k : Nat) : Nat := (k + n - 1) / n

/--
All calls return objects that are disjoint and lie in the pages taken, which are as many as `k` objects need.
-/
def ServesAll (s : SlabMem) (c size : Nat) (pages : Nat → Nat) (k : Nat) : Prop :=
  ∃ objs s', s.allocObjects c pages k = some (objs, pagesFor (objCount size) k, s')
    ∧ objs.length = k
    ∧ objs.Pairwise (fun a b => a + size ≤ b ∨ b + size ≤ a)
    ∧ ∀ a ∈ objs, ∃ i, i < pagesFor (objCount size) k
        ∧ node (pages i) (objCount size) ≤ a ∧ a + size ≤ pages i + SLAB_SIZE

section Lists

variable {s : SlabMem} {c p : Nat}

theorem partialSlab_fromPartial (s : SlabMem) (c p : Nat)
    : ((s.fromPartial c p).cache c).partialSlab
        =
      if (s.slab p).freeCount = 0 then (s.slab p).next else (s.cache c).partialSlab := by
  rw [fromPartial]
  split
  . simp [setSlab, setCache]
  . rfl

theorem emptySlab_fromPartial (s : SlabMem) (c p : Nat)
    : ((s.fromPartial c p).cache c).emptySlab = (s.cache c).emptySlab := by
  rw [fromPartial]
  split
  . simp [setSlab, setCache]
  . rfl

theorem partialSlab_fromEmpty (s : SlabMem) (c p : Nat)
    : ((s.fromEmpty c p).cache c).partialSlab
        =
      if (s.slab p).freeCount = 0 then (s.cache c).partialSlab else p := by
  rw [fromEmpty]
  split <;> simp [setSlab, setCache]

theorem emptySlab_fromEmpty (s : SlabMem) (c p : Nat)
    : ((s.fromEmpty c p).cache c).emptySlab = (s.slab p).next := by
  rw [fromEmpty]
  split <;> simp [setSlab, setCache]

theorem next_fromPartial (h : (s.slab p).freeCount ≠ 0)
    : ((s.fromPartial c p).slab p).next = (s.slab p).next := by
  rw [fromPartial, if_neg h]

theorem next_fromEmpty (h : (s.slab p).freeCount ≠ 0)
    : ((s.fromEmpty c p).slab p).next = (s.cache c).partialSlab := by
  rw [fromEmpty, if_neg h]
  simp [setSlab, setCache]

end Lists

section Objects

variable {s : SlabMem} {c p page k : Nat}

theorem IsSlab.allocFromSlab (h : s.IsSlab p k c) (hp : IsPage p)
    (hcount : (s.cache c).objCountPerSlab = objCount (s.cache c).objSize)
    (hk : k < (s.cache c).objCountPerSlab)
    : ∃ s',
        s.allocFromSlab p (s.cache c).objSize
            =
          some (node p (s.cache c).objCountPerSlab + (s.cache c).objSize * k, s')
          ∧ s'.cache = s.cache
          ∧ s'.IsSlab p (k + 1) c
          ∧ (s'.slab p).next = (s.slab p).next
          ∧ ∀ q, q ≠ p → s'.slab q = s.slab q := by
  refine ⟨_, SlabOk.allocFromSlab_eq h hp hk ?_, rfl, h.next_object hk, ?_, ?_⟩
  . rw [hcount]
    exact node_objCount_le
  . simp [setSlab]
  . intro q hq
    simp [setSlab, hq]

theorem allocFromKmem_new (hkernel : 0x80000000 ≤ c) (hneeds : NeedsPage s c) (hpage : IsPage page)
    (hcount : (s.cache c).objCountPerSlab = objCount (s.cache c).objSize)
    (hpos : 0 < (s.cache c).objCountPerSlab)
    : ∃ s' : SlabMem,
        s.allocFromKmem c page = some (node page (s.cache c).objCountPerSlab, s'.fromPartial c page)
          ∧ s'.cache = (s.setCache c { s.cache c with emptySlab := page }).cache
          ∧ s'.IsSlab page 1 c
          ∧ (s'.slab page).next = 0
          ∧ ∀ q, q ≠ page → s'.slab q = s.slab q := by
  have hfit := @node_le page _ _ hcount
  obtain ⟨s₁, hcreat, hcaches, hslab, hnext, hother, -⟩ := adopt_creatSlab s hpage hpos hfit
  have hsize : ((s₁.adopt c page).cache c).objSize = (s.cache c).objSize := by
    simp [hcaches, setCache]
  have hcount' : ((s₁.adopt c page).cache c).objCountPerSlab = (s.cache c).objCountPerSlab := by
    simp [hcaches, setCache]
  obtain ⟨s₂, halloc, hcache₂, hslab₂, hnext₂, hother₂⟩ :=
    hslab.allocFromSlab hpage (by rw [hcount', hsize, hcount]) (by rw [hcount']; exact hpos)
  rw [hsize, hcount', Nat.mul_zero, Nat.add_zero] at halloc
  refine ⟨s₂, ?_, hcache₂.trans hcaches, hslab₂, ?_, ?_⟩
  . rw [allocFromKmem_of_needsPage hkernel hneeds, hcreat, Option.bind_some, halloc, Option.map_some]
  . rw [hnext₂, hnext]
  . intro q hq
    rw [hother₂ q hq, hother q hq]

end Objects

section Filling

variable {s : SlabMem} {c size j k : Nat} {pages : Nat → Nat}

def objectAt (size : Nat) (pages : Nat → Nat) (j : Nat) : Nat :=
  node (pages (j / objCount size)) (objCount size) + size * (j % objCount size)

structure Served (s : SlabMem) (c size : Nat) (pages : Nat → Nat) (j : Nat) : Prop where
  objSize : (s.cache c).objSize = size
  objCountPerSlab : (s.cache c).objCountPerSlab = objCount size
  part : (s.cache c).partialSlab = if 2 ≤ j % objCount size then pages (j / objCount size) else 0
  empty : (s.cache c).emptySlab = if j % objCount size = 1 then pages (j / objCount size) else 0
  slab : j % objCount size ≠ 0 → s.IsSlab (pages (j / objCount size)) (j % objCount size) c
  next : j % objCount size ≠ 0 → (s.slab (pages (j / objCount size))).next = 0

theorem succ_of_lt {n : Nat} (h : j % n + 1 < n) : (j + 1) / n = j / n ∧ (j + 1) % n = j % n + 1 := by
  rw [Nat.div_mod_unique (by omega)]
  have hsplit := Nat.mod_add_div j n
  omega

theorem succ_of_eq {n : Nat} (h : j % n + 1 = n) : (j + 1) / n = j / n + 1 ∧ (j + 1) % n = 0 := by
  rw [Nat.div_mod_unique (by omega), Nat.mul_succ]
  have hsplit := Nat.mod_add_div j n
  omega

theorem pagesFor_succ {n : Nat} (hn : 0 < n) : pagesFor n (j + 1) = j / n + 1 := by
  rw [pagesFor, show j + 1 + n - 1 = j + n by omega, Nat.add_div_right j hn]

theorem pagesFor_eq {n : Nat} (hn : 0 < n) : pagesFor n j = if j % n = 0 then j / n else j / n + 1 := by
  have hsplit := Nat.mod_add_div j n
  have hlt := Nat.mod_lt j hn
  have hunique (d c : Nat) (h : c + n * d = j + n - 1) (hc : c < n) : (j + n - 1) / n = d :=
    ((Nat.div_mod_unique hn).mpr ⟨h, hc⟩).1
  unfold pagesFor
  split
  . exact hunique (j / n) (n - 1) (by omega) (by omega)
  . exact hunique (j / n + 1) (j % n - 1) (by rw [Nat.mul_succ]; omega) (by omega)

theorem IsFresh.served (h : IsFresh s c size) : Served s c size pages 0 := by
  constructor
  . exact h.objSize
  . exact h.objCountPerSlab
  . rw [Nat.zero_mod, if_neg (by decide)]
    exact h.part
  . rw [Nat.zero_mod, if_neg (by decide)]
    exact h.empty
  . intro hne
    exact absurd (Nat.zero_mod _) hne
  . intro hne
    exact absurd (Nat.zero_mod _) hne

namespace Served

theorem needsPage_iff (h : Served s c size pages j) (hpage : IsPage (pages (j / objCount size)))
    : NeedsPage s c ↔ j % objCount size = 0 := by
  have hne : pages (j / objCount size) ≠ 0 := by
    have hkernel := hpage.kernel
    omega
  rw [NeedsPage, h.part, h.empty]
  split
  . omega
  . split
    . omega
    . omega

theorem succ {s₂ s' : SlabMem} (hn : 2 ≤ objCount size) (hrelinked : Relinked s₂ s')
    (hsize : (s₂.cache c).objSize = size) (hcount : (s₂.cache c).objCountPerSlab = objCount size)
    (hslab : s₂.IsSlab (pages (j / objCount size)) (j % objCount size + 1) c)
    (hpart : (s'.cache c).partialSlab
      = if 1 ≤ j % objCount size ∧ j % objCount size + 1 < objCount size then pages (j / objCount size) else 0)
    (hempty : (s'.cache c).emptySlab = if j % objCount size = 0 then pages (j / objCount size) else 0)
    (hnext : j % objCount size + 1 < objCount size → (s'.slab (pages (j / objCount size))).next = 0)
    : Served s' c size pages (j + 1) := by
  have hlt := Nat.mod_lt j (show 0 < objCount size by omega)
  have hslab' := hrelinked.isSlab hslab
  constructor
  . rw [hrelinked.caches.objSize, hsize]
  . rw [hrelinked.caches.objCountPerSlab, hcount]
  all_goals
    by_cases hlast : j % objCount size + 1 = objCount size
  . rw [hpart, if_neg (by omega), (succ_of_eq hlast).2, if_neg (by omega)]
  . obtain ⟨hdiv, hmod⟩ := succ_of_lt (show j % objCount size + 1 < objCount size by omega)
    rw [hpart, hdiv, hmod]
    congr 1
    apply propext
    omega
  . rw [hempty, if_neg (by omega), (succ_of_eq hlast).2, if_neg (by omega)]
  . obtain ⟨hdiv, hmod⟩ := succ_of_lt (show j % objCount size + 1 < objCount size by omega)
    rw [hempty, hdiv, hmod]
    congr 1
    apply propext
    omega
  . intro hne
    exact absurd (succ_of_eq hlast).2 hne
  . obtain ⟨hdiv, hmod⟩ := succ_of_lt (show j % objCount size + 1 < objCount size by omega)
    intro _
    rw [hdiv, hmod]
    exact hslab'
  . intro hne
    exact absurd (succ_of_eq hlast).2 hne
  . obtain ⟨hdiv, hmod⟩ := succ_of_lt (show j % objCount size + 1 < objCount size by omega)
    intro _
    rw [hdiv]
    exact hnext (by omega)

/--
The next object comes from a new slab, from the empty list or from the partial list, depending on how many objects the
slab in use has handed out.
-/
theorem step (h : Served s c size pages j) (hkernel : 0x80000000 ≤ c) (hn : 2 ≤ objCount size)
    (hpage : IsPage (pages (j / objCount size)))
    : ∃ s',
        s.allocFromKmem c (pages (pagesFor (objCount size) j)) = some (objectAt size pages j, s')
          ∧ Served s' c size pages (j + 1) := by
  have hlt := Nat.mod_lt j (show 0 < objCount size by omega)
  have hne : pages (j / objCount size) ≠ 0 := by
    have hkernel := hpage.kernel
    omega
  have hsize := h.objSize
  have hcount := h.objCountPerSlab
  have hcount' : (s.cache c).objCountPerSlab = objCount (s.cache c).objSize := by
    rw [hcount, hsize]
  by_cases hzero : j % objCount size = 0
  . rw [pagesFor_eq (by omega), if_pos hzero]
    obtain ⟨s₂, halloc, hcache₂, hslab₂, hnext₂, -⟩ :=
      allocFromKmem_new hkernel ((h.needsPage_iff hpage).mpr hzero) hpage hcount' (by omega)
    have hsize₂ : (s₂.cache c).objSize = size := by
      rw [hcache₂]
      simpa [setCache] using hsize
    have hcount₂ : (s₂.cache c).objCountPerSlab = objCount size := by
      rw [hcache₂]
      simpa [setCache] using hcount
    have hfree := hslab₂.freeCount
    rw [hcount₂] at hfree
    refine ⟨_, ?_, succ hn (relinked_fromPartial s₂ c (pages (j / objCount size))) hsize₂ hcount₂ ?_ ?_ ?_ ?_⟩
    . rw [halloc, hcount, objectAt, hzero, Nat.mul_zero, Nat.add_zero]
    . rw [hzero]
      exact hslab₂
    . have hpart : (s₂.cache c).partialSlab = 0 := by
        rw [hcache₂]
        simpa [setCache, hzero] using h.part
      rw [partialSlab_fromPartial, if_neg (by omega), hpart, if_neg (by omega)]
    . rw [emptySlab_fromPartial, hcache₂, if_pos hzero]
      simp [setCache]
    . intro _
      rw [next_fromPartial (by omega), hnext₂]
  . have hslab := h.slab hzero
    obtain ⟨s₂, halloc, hcache₂, hslab₂, hnext₂, -⟩ := hslab.allocFromSlab hpage hcount' (by omega)
    rw [h.next hzero] at hnext₂
    have hfree := hslab₂.freeCount
    rw [hcache₂, hcount] at hfree
    have hobject : node (pages (j / objCount size)) (s.cache c).objCountPerSlab
        + (s.cache c).objSize * (j % objCount size) = objectAt size pages j := by
      rw [hcount, hsize]
      rfl
    by_cases hone : j % objCount size = 1
    . have hpart : (s.cache c).partialSlab = 0 := by
        rw [h.part, if_neg (by omega)]
      have hempty : (s.cache c).emptySlab = pages (j / objCount size) := by
        rw [h.empty, if_pos hone]
      refine ⟨_, ?_, succ hn (relinked_fromEmpty s₂ c (pages (j / objCount size))) (by rw [hcache₂, hsize])
        (by rw [hcache₂, hcount]) hslab₂ ?_ ?_ ?_⟩
      . rw [allocFromKmem_of_empty hkernel hpart (by rw [hempty]; exact hne), hempty, halloc, Option.map_some,
          hobject]
      . rw [partialSlab_fromEmpty, hcache₂, hpart]
        split
        . rw [if_neg (by omega)]
        . rw [if_pos (by omega)]
      . rw [emptySlab_fromEmpty, hnext₂, if_neg hzero]
      . intro hmore
        rw [next_fromEmpty (by omega), hcache₂, hpart]
    . have hpart : (s.cache c).partialSlab = pages (j / objCount size) := by
        rw [h.part, if_pos (by omega)]
      refine ⟨_, ?_, succ hn (relinked_fromPartial s₂ c (pages (j / objCount size))) (by rw [hcache₂, hsize])
        (by rw [hcache₂, hcount]) hslab₂ ?_ ?_ ?_⟩
      . rw [allocFromKmem_of_part hkernel (by rw [hpart]; exact hne), hpart, halloc, Option.map_some, hobject]
      . rw [partialSlab_fromPartial, hnext₂, hcache₂, hpart]
        split
        . rw [if_neg (by omega)]
        . rw [if_pos (by omega)]
      . rw [emptySlab_fromPartial, hcache₂, h.empty, if_neg hone, if_neg hzero]
      . intro hmore
        rw [next_fromPartial (by omega), hnext₂]

end Served

theorem lt_pagesFor {n : Nat} (hn : 0 < n) (hj : j < k) : j / n < pagesFor n k := by
  have hsucc := @pagesFor_succ j n hn
  have hle : pagesFor n (j + 1) ≤ pagesFor n k := Nat.div_le_div_right (by omega)
  omega

theorem Served.allocObjects (h : IsFresh s c size) (hn : 2 ≤ objCount size)
    (hpages : ∀ i, i < pagesFor (objCount size) k → IsPage (pages i))
    : ∃ s',
        s.allocObjects c pages k
            =
          some ((List.range k).map (objectAt size pages), pagesFor (objCount size) k, s')
          ∧ Served s' c size pages k := by
  induction k with
  | zero =>
    refine ⟨s, ?_, h.served⟩
    rw [pagesFor_eq (by omega), Nat.zero_mod, if_pos rfl, Nat.zero_div]
    rfl
  | succ k ih =>
    have hle : pagesFor (objCount size) k ≤ pagesFor (objCount size) (k + 1) := Nat.div_le_div_right (by omega)
    obtain ⟨s₁, halloc₁, hserved₁⟩ := ih (fun i hi => hpages i (by omega))
    have hpage := hpages _ (lt_pagesFor (show 0 < objCount size by omega) (Nat.lt_succ_self k))
    obtain ⟨s₂, halloc₂, hserved₂⟩ := hserved₁.step h.kernel hn hpage
    refine ⟨s₂, ?_, hserved₂⟩
    have htaken : (if NeedsPage s₁ c then pagesFor (objCount size) k + 1 else pagesFor (objCount size) k)
        = pagesFor (objCount size) (k + 1) := by
      simp only [hserved₁.needsPage_iff hpage, pagesFor_eq (show 0 < objCount size by omega) (j := k),
        pagesFor_succ (show 0 < objCount size by omega)]
      split <;> rfl
    simp only [SlabMem.allocObjects, halloc₁, Option.bind_eq_bind, Option.bind_some, halloc₂, htaken,
      List.range_succ, List.map_append]
    rfl

theorem object_in_page (size : Nat) (pages : Nat → Nat) (hn : 0 < objCount size) (j : Nat)
    : node (pages (j / objCount size)) (objCount size) ≤ objectAt size pages j
        ∧ objectAt size pages j + size ≤ pages (j / objCount size) + SLAB_SIZE := by
  have hfit := @node_objCount_le (pages (j / objCount size)) size
  have hle : size * (j % objCount size + 1) ≤ size * objCount size := Nat.mul_le_mul_left _ (Nat.mod_lt j hn)
  rw [Nat.mul_succ] at hle
  unfold objectAt
  omega

theorem objects_disjoint {i : Nat} (hn : 0 < objCount size)
    (hpages : ∀ i, i < pagesFor (objCount size) k → IsPage (pages i))
    (hinj : ∀ i j, i < pagesFor (objCount size) k → j < pagesFor (objCount size) k → pages i = pages j → i = j)
    (hij : i < j) (hj : j < k)
    : objectAt size pages i + size ≤ objectAt size pages j
        ∨ objectAt size pages j + size ≤ objectAt size pages i := by
  have hi' := lt_pagesFor hn (show i < k by omega)
  have hj' := lt_pagesFor hn hj
  by_cases hdiv : i / objCount size = j / objCount size
  . have hspliti := Nat.mod_add_div i (objCount size)
    have hsplitj := Nat.mod_add_div j (objCount size)
    rw [hdiv] at hspliti
    have hlt : i % objCount size + 1 ≤ j % objCount size := by
      omega
    have hle := Nat.mul_le_mul_left size hlt
    rw [Nat.mul_succ] at hle
    left
    rw [objectAt, objectAt, hdiv]
    omega
  . have hne := (hpages _ hi').div_ne (hpages _ hj') (fun heq => hdiv (hinj _ _ hi' hj' heq))
    have haligned := (hpages _ hi').aligned
    have haligned' := (hpages _ hj').aligned
    have hin := object_in_page size pages hn i
    have hin' := object_in_page size pages hn j
    simp only [node, SLAB_SIZE, SIZEOF_SLAB] at *
    omega

theorem servesAll_of_allocObjects {s' : SlabMem} (hn : 0 < objCount size)
    (hpages : ∀ i, i < pagesFor (objCount size) k → IsPage (pages i))
    (hinj : ∀ i j, i < pagesFor (objCount size) k → j < pagesFor (objCount size) k → pages i = pages j → i = j)
    (halloc : s.allocObjects c pages k
      = some ((List.range k).map (objectAt size pages), pagesFor (objCount size) k, s'))
    : ServesAll s c size pages k := by
  refine ⟨_, s', halloc, by simp, ?_, ?_⟩
  . rw [List.pairwise_map]
    apply List.pairwise_lt_range.imp_of_mem
    intro i j _ hj hij
    exact objects_disjoint hn hpages hinj hij (List.mem_range.mp hj)
  . intro a ha
    obtain ⟨j, hj, rfl⟩ := List.mem_map.mp ha
    exact ⟨j / objCount size, lt_pagesFor hn (List.mem_range.mp hj), object_in_page size pages hn j⟩

theorem allocObjects_of_one (h : IsFresh s c size) (hn : objCount size = 1)
    (hpage : IsPage (pages 0))
    : (∃ s', s.allocObjects c pages 1 = some ([objectAt size pages 0], 1, s'))
        ∧ s.allocObjects c pages 2 = none := by
  have hneeds : NeedsPage s c := ⟨h.part, h.empty⟩
  have hcount : (s.cache c).objCountPerSlab = objCount (s.cache c).objSize := by
    rw [h.objCountPerSlab, h.objSize]
  obtain ⟨s₂, halloc, hcache₂, hslab₂, hnext₂, -⟩ :=
    allocFromKmem_new h.kernel hneeds hpage hcount (by rw [h.objCountPerSlab, hn]; decide)
  have hone : s.allocObjects c pages 1 = some ([objectAt size pages 0], 1, s₂.fromPartial c (pages 0)) := by
    simp only [SlabMem.allocObjects, Option.bind_eq_bind, Option.bind_some, halloc, if_pos hneeds, Option.pure_def,
      h.objCountPerSlab, objectAt, Nat.zero_div, Nat.zero_mod, Nat.mul_zero, Nat.add_zero]
    rfl
  refine ⟨⟨_, hone⟩, ?_⟩
  have hrelinked := relinked_fromPartial s₂ c (pages 0)
  have hcount₂ : (s₂.cache c).objCountPerSlab = 1 := by
    rw [hcache₂]
    simpa [setCache, hn] using h.objCountPerSlab
  have hfree : (s₂.slab (pages 0)).freeCount = 0 := by
    have hfree := hslab₂.freeCount
    omega
  have hpart : ((s₂.fromPartial c (pages 0)).cache c).partialSlab = 0 := by
    rw [partialSlab_fromPartial, if_pos hfree, hnext₂]
  have hempty : ((s₂.fromPartial c (pages 0)).cache c).emptySlab = pages 0 := by
    rw [emptySlab_fromPartial, hcache₂]
    simp [setCache]
  have hne : pages 0 ≠ 0 := by
    have hkernel := hpage.kernel
    omega
  have hfull : (s₂.fromPartial c (pages 0)).allocFromSlab (pages 0)
      ((s₂.fromPartial c (pages 0)).cache c).objSize = none := by
    rw [Option.eq_none_iff_forall_ne_some]
    intro r hr
    have hlt := (hrelinked.isSlab hslab₂).lt_of_allocFromSlab hr
    rw [hrelinked.caches.objCountPerSlab, hcount₂] at hlt
    omega
  have hnone (page : Nat) : (s₂.fromPartial c (pages 0)).allocFromKmem c page = none := by
    rw [allocFromKmem_of_empty h.kernel hpart (by rw [hempty]; exact hne), hempty, hfull, Option.map_none]
  rw [SlabMem.allocObjects, hone]
  simp only [Option.bind_eq_bind, Option.bind_some, hnone, Option.bind_none]

theorem allocObjects_none {m : Nat} (h : s.allocObjects c pages m = none) (hm : m ≤ k)
    : s.allocObjects c pages k = none := by
  induction hm with
  | refl => exact h
  | step _ ih => rw [SlabMem.allocObjects, ih, Option.bind_eq_bind, Option.bind_none]

/--
A new cache serves any number of allocations if its slabs have two objects or more, and one otherwise.
-/
theorem servesAll_iff (s : SlabMem) (c size : Nat) (pages : Nat → Nat) (k : Nat) (h : IsFresh s c size)
    (hn : 1 ≤ objCount size) (hpages : ∀ i, i < pagesFor (objCount size) k → IsPage (pages i))
    (hinj : ∀ i j, i < pagesFor (objCount size) k → j < pagesFor (objCount size) k → pages i = pages j → i = j)
    : ServesAll s c size pages k ↔ 2 ≤ objCount size ∨ k ≤ 1 := by
  by_cases htwo : 2 ≤ objCount size
  . obtain ⟨s', halloc, -⟩ := Served.allocObjects h htwo hpages
    exact iff_of_true (servesAll_of_allocObjects hn hpages hinj halloc) (Or.inl htwo)
  . have hone : objCount size = 1 := by omega
    have hpagesFor : pagesFor (objCount size) k = k := by
      rw [pagesFor, hone, Nat.div_one]
      omega
    match k, hpagesFor with
    | 0, hpagesFor =>
      refine iff_of_true ?_ (Or.inr (Nat.zero_le 1))
      apply @servesAll_of_allocObjects _ _ _ _ _ s hn hpages hinj
      rw [hpagesFor]
      rfl
    | 1, hpagesFor =>
      refine iff_of_true ?_ (Or.inr (Nat.le_refl 1))
      obtain ⟨⟨s', halloc⟩, -⟩ := allocObjects_of_one h hone (hpages 0 (by omega))
      apply servesAll_of_allocObjects hn hpages hinj
      rw [hpagesFor]
      exact halloc
    | k + 2, hpagesFor =>
      refine iff_of_false ?_ (by omega)
      rintro ⟨objs, s', halloc, -⟩
      have hnone := (allocObjects_of_one h hone (hpages 0 (by omega))).2
      rw [allocObjects_none hnone (show 2 ≤ k + 2 by omega)] at halloc
      cases halloc

theorem servesAll_iff_three
    : ServesAll (boot (fun _ => ⟨0, 0⟩) (fun _ => ⟨0, 0, 0, 0, 0⟩) (fun _ => ⟨0, 0, 0, 0, 0, 0, 0⟩) 0xC0100000)
          0xC0100000 28 (fun _ => 0xC0200000) 3
        ↔
      2 ≤ objCount 28 ∨ 3 ≤ 1 := by
  have hone : pagesFor (objCount 28) 3 = 1 := by decide
  apply servesAll_iff
  . exact ⟨by decide, rfl, rfl, rfl, rfl⟩
  . decide
  . intro _ _
    exact ⟨by decide, by decide, by decide⟩
  . rw [hone]
    intro i j hi hj _
    omega

def bigCache : SlabMem :=
  (boot (fun _ => ⟨0, 0⟩) (fun _ => ⟨0, 0, 0, 0, 0⟩) (fun _ => ⟨0, 0, 0, 0, 0, 0, 0⟩) 0xC0100000).setCache 0xC0100040
    {
      emptySlab := 0
      partialSlab := 0
      fullSlab := 0
      objSize := 2048
      objCountPerSlab := objCount 2048
      flags := KMEM_FLAG_COMFORT
      next := 0
    }

/--
A slab has one object of 2048 bytes. The second allocation follows the free list of the full slab, which is `NULL`.
-/
theorem not_servesAll
    : IsFresh bigCache 0xC0100040 2048 ∧ 1 ≤ objCount 2048
        ∧ (∀ i, i < 2 → IsPage (0xC0200000 + 0x1000 * i))
        ∧ ¬ ServesAll bigCache 0xC0100040 2048 (fun i => 0xC0200000 + 0x1000 * i) 2 := by
  refine ⟨⟨by decide, rfl, rfl, rfl, rfl⟩, by decide, ?_, ?_⟩
  . intro i hi
    constructor
    . simp only [SLAB_SIZE]
      omega
    . omega
    . simp only [SLAB_SIZE]
      omega
  . rintro ⟨objs, s', halloc, -⟩
    have hnone : (bigCache.allocObjects 0xC0100040 (fun i => 0xC0200000 + 0x1000 * i) 2).isNone := by
      decide +kernel
    rw [halloc] at hnone
    cases hnone

end Filling

end SlabMem
end Osproj
