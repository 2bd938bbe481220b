import Mathlib.Data.Finset.Card
import Osproj.Mm.Lemmas.SlabRuns

/-!
This module contains the two ways to an object of a given size: `kmalloc_s`, and `qsmalloc` with the cache that
`query_kmem` finds. No step of the allocator changes the sizes of the caches or the list they are on.
-/

namespace Osproj

open Slab SlabHeap

namespace SlabMem

variable {s s' : SlabMem} {caches : List Nat} {recs : List SlabBlock} {a c fuel size kmem page : Nat} {l : List Nat}

section Query

theorem loop_of_mem (h : Chain.Follows (fun c => (s.cache c).next) 0 a l) (ha : a ≠ 0)
    (hkernel : ∀ c ∈ l, 0x80000000 ≤ c) (hfuel : l.length ≤ fuel)
    : (∃ c ∈ l, (s.cache c).objSize = size ∧ queryKmem.loop s size fuel a = some c)
        ∨ (∀ c ∈ l, (s.cache c).objSize ≠ size) ∧ queryKmem.loop s size fuel a = some 0 := by
  induction fuel generalizing a l with
  | zero =>
    rw [List.length_eq_zero_iff.mp (Nat.le_zero.mp hfuel)] at h
    exact absurd h ha
  | succ fuel ih =>
    obtain ⟨l', rfl, h'⟩ := h.ne_nil ha
    simp only [queryKmem.loop, cacheAt_of_le (hkernel a List.mem_cons_self), Option.bind_eq_bind, Option.bind_some]
    split
    . next hsize => exact Or.inl ⟨a, List.mem_cons_self, hsize, rfl⟩
    . next hsize =>
      split
      . next hnext =>
        right
        refine ⟨?_, rfl⟩
        rw [hnext, Chain.Follows.nil_iff] at h'
        rw [h']
        intro c hc
        rw [List.mem_singleton.mp hc]
        exact hsize
      . next hnext =>
        rw [List.length_cons] at hfuel
        have hrest := ih h' hnext (fun c hc => hkernel c (List.mem_cons_of_mem a hc)) (by omega)
        rcases hrest with ⟨c, hc, hfound⟩ | ⟨hmiss, hloop⟩
        . exact Or.inl ⟨c, List.mem_cons_of_mem a hc, hfound⟩
        . right
          refine ⟨?_, hloop⟩
          intro c hc
          rcases List.mem_cons.mp hc with rfl | hc
          . exact hsize
          . exact hmiss c hc

/--
The list of the caches: from `kmem_kmem` on, with no cache for nothing and none for more than `__kmalloc` serves.
-/
structure CacheList (s : SlabMem) (l : List Nat) : Prop where
  chain : Chain.Follows (fun c => (s.cache c).next) 0 s.kmemKmem l
  kernel : ∀ c ∈ l, 0x80000000 ≤ c
  kmemKmem : s.kmemKmem ≠ 0
  pos : ∀ c ∈ l, (s.cache c).objSize ≠ 0
  le : ∀ c ∈ l, (s.cache c).objSize ≤ SLAB_SIZE / 2

theorem CacheList.sameCaches (h : CacheList s l) (hsame : SameCaches s s') : CacheList s' l := by
  constructor
  . simp only [hsame.next, hsame.kmemKmem]
    exact h.chain
  . exact h.kernel
  . rw [hsame.kmemKmem]
    exact h.kmemKmem
  . simp only [hsame.objSize]
    exact h.pos
  . simp only [hsame.objSize]
    exact h.le

theorem CacheList.queryKmem (h : CacheList s l) (hfuel : l.length ≤ fuel) (size : Nat)
    : (∃ c ∈ l, (s.cache c).objSize = size ∧ s.queryKmem fuel size = some c)
        ∨ (∀ c ∈ l, (s.cache c).objSize ≠ size) ∧ s.queryKmem fuel size = some 0 := by
  exact loop_of_mem h.chain h.kmemKmem h.kernel hfuel

theorem CacheList.queryKmem_zero (h : CacheList s l) (hfuel : l.length ≤ fuel) : s.queryKmem fuel 0 = some 0 := by
  rcases h.queryKmem hfuel 0 with ⟨c, hc, hsize, -⟩ | ⟨-, hquery⟩
  . exact absurd hsize (h.pos c hc)
  . exact hquery

/--
`qsmalloc` of `NULL` looks for a cache of size 0.
-/
theorem CacheList.qsmalloc_null (h : CacheList s l) (hfuel : l.length ≤ fuel) (page : Nat)
    : s.qsmalloc fuel 0 page = some (0, s) := by
  simp only [qsmalloc, kmallocFlags, kmemFor, h.queryKmem_zero hfuel]
  rfl

theorem qsmalloc_of_ne (hkmem : kmem ≠ 0) : s.qsmalloc fuel kmem page = s.allocFromKmem kmem page := by
  simp only [qsmalloc, kmallocFlags, kmemFor, KMEM_FLAG_STRICT, KMEM_FLAG_COMFORT, ne_eq, hkmem, not_false_eq_true,
    if_true]
  rfl

theorem kmallocS_of_gt (hsize : size > SLAB_SIZE / 2) : s.kmallocS fuel size page = some (0, s) := by
  rw [kmallocS, kmallocFlags, kmemFor, if_pos hsize]
  rfl

theorem kmallocS_of_queryKmem (hsize : ¬ size > SLAB_SIZE / 2) (hquery : s.queryKmem fuel size = some kmem)
    : s.kmallocS fuel size page = if kmem = 0 then some (0, s) else s.allocFromKmem kmem page := by
  rw [kmallocS, kmallocFlags, kmemFor, if_neg hsize]
  simp only [hquery, KMEM_FLAG_STRICT, KMEM_FLAG_COMFORT]
  by_cases hkmem : kmem = 0
  . simp [hkmem]
  . simp [hkmem]

theorem CacheList.kmallocS_eq (h : CacheList s l) (hfuel : l.length ≤ fuel) (size page : Nat)
    : ∃ q, s.queryKmem fuel size = some q ∧ s.kmallocS fuel size page = s.qsmalloc fuel q page := by
  rcases h.queryKmem hfuel size with ⟨c, hc, hsize, hquery⟩ | ⟨-, hquery⟩
  . have hne : c ≠ 0 := by
      have hkernel := h.kernel c hc
      omega
    have hle : ¬ size > SLAB_SIZE / 2 := by
      rw [← hsize]
      exact Nat.not_lt_of_le (h.le c hc)
    refine ⟨c, hquery, ?_⟩
    rw [kmallocS_of_queryKmem hle hquery, if_neg hne, qsmalloc_of_ne hne]
  . refine ⟨0, hquery, ?_⟩
    rw [h.qsmalloc_null hfuel]
    by_cases hsize : size > SLAB_SIZE / 2
    . exact kmallocS_of_gt hsize
    . rw [kmallocS_of_queryKmem hsize hquery, if_pos rfl]

end Query

section Same

theorem sameCaches_slab (s : SlabMem) (free : Nat → FreeNode) (slab : Nat → SlabHeader)
    : SameCaches s { s with free, slab } := by
  constructor <;> simp

theorem sameCaches_setSlab (s : SlabMem) (a : Nat) (v : SlabHeader) : SameCaches s (s.setSlab a v) :=
  sameCaches_slab s s.free _

theorem sameCaches_setFree (s : SlabMem) (a : Nat) (v : FreeNode) : SameCaches s (s.setFree a v) :=
  sameCaches_slab s _ s.slab

theorem sameCaches_setCache (s : SlabMem) {v : KmemCache} (hsize : v.objSize = (s.cache c).objSize)
    (hcount : v.objCountPerSlab = (s.cache c).objCountPerSlab) (hnext : v.next = (s.cache c).next)
    : SameCaches s (s.setCache c v) := by
  constructor
  . rfl
  . rfl
  . exact fun a => field_setCache KmemCache.objSize hsize a
  . exact fun a => field_setCache KmemCache.objCountPerSlab hcount a
  . exact fun a => field_setCache KmemCache.next hnext a

theorem sameCaches_adopt (s : SlabMem) (c page : Nat) : SameCaches s (s.adopt c page) := by
  apply SameCaches.trans (sameCaches_setSlab s page _)
  apply sameCaches_setCache <;> rfl

theorem sameCaches_loop (s : SlabMem) (freeidx prev i left : Nat)
    : SameCaches s (creatSlab.loop s freeidx prev i left).1 := by
  induction left generalizing s freeidx prev i with
  | zero => exact SameCaches.refl s
  | succ left ih =>
    simp only [creatSlab.loop]
    apply SameCaches.trans (sameCaches_setFree s freeidx _)
    apply SameCaches.trans (sameCaches_setFree _ prev _)
    apply ih

theorem sameCaches_creatSlab {n : Nat} (h : s.creatSlab page n = some s') : SameCaches s s' := by
  simp only [creatSlab, Option.bind_eq_bind, Option.bind_eq_some_iff] at h
  obtain ⟨header, -, heq⟩ := h
  rw [← Option.some.inj heq]
  apply SameCaches.trans (sameCaches_setSlab s page _)
  apply SameCaches.trans (sameCaches_loop _ _ _ 0 n)
  apply SameCaches.trans (sameCaches_setFree _ _ _)
  apply sameCaches_setSlab

theorem sameCaches_allocFromSlab {p objSize ret : Nat} (h : s.allocFromSlab p objSize = some (ret, s'))
    : SameCaches s s' := by
  simp only [allocFromSlab, Option.bind_eq_bind, Option.bind_eq_some_iff] at h
  obtain ⟨header, -, alloc, -, heq⟩ := h
  rw [← (Prod.mk.inj (Option.some.inj heq)).2]
  apply sameCaches_setSlab

theorem sameCaches_allocFromKmem {ret : Nat} (h : s.allocFromKmem kmem page = some (ret, s')) : SameCaches s s' := by
  have hkernel : 0x80000000 ≤ kmem := by
    by_contra hlt
    rw [allocFromKmem, cacheAt, if_pos (by omega)] at h
    cases h
  by_cases hpart : (s.cache kmem).partialSlab = 0
  . by_cases hempty : (s.cache kmem).emptySlab = 0
    . rw [allocFromKmem_of_needsPage hkernel ⟨hpart, hempty⟩, Option.bind_eq_some_iff] at h
      obtain ⟨s₁, hcreat, h⟩ := h
      obtain ⟨⟨r, s₂⟩, halloc, heq⟩ := Option.map_eq_some_iff.mp h
      rw [← (Prod.mk.inj heq).2]
      apply SameCaches.trans (sameCaches_creatSlab hcreat)
      apply SameCaches.trans (sameCaches_adopt s₁ kmem page)
      exact SameCaches.trans (sameCaches_allocFromSlab halloc) (relinked_fromPartial s₂ kmem page).caches
    . rw [allocFromKmem_of_empty hkernel hpart hempty] at h
      obtain ⟨⟨r, s₂⟩, halloc, heq⟩ := Option.map_eq_some_iff.mp h
      rw [← (Prod.mk.inj heq).2]
      exact SameCaches.trans (sameCaches_allocFromSlab halloc) (relinked_fromEmpty s₂ kmem _).caches
  . rw [allocFromKmem_of_part hkernel hpart] at h
    obtain ⟨⟨r, s₂⟩, halloc, heq⟩ := Option.map_eq_some_iff.mp h
    rw [← (Prod.mk.inj heq).2]
    exact SameCaches.trans (sameCaches_allocFromSlab halloc) (relinked_fromPartial s₂ kmem _).caches

theorem sameCaches_kmallocFlags {flags quickalloc ret : Nat}
    (h : s.kmallocFlags fuel size flags quickalloc page = some (ret, s'))
    : SameCaches s s' := by
  simp only [kmallocFlags, Option.bind_eq_bind, Option.bind_eq_some_iff] at h
  obtain ⟨kmem, -, h⟩ := h
  cases kmem with
  | none =>
    rw [← (Prod.mk.inj (Option.some.inj h)).2]
    exact SameCaches.refl s
  | some kmem => exact sameCaches_allocFromKmem h

theorem sameCaches_releaseSlab {obj slab : Nat} (h : s.releaseSlab obj = some (slab, s')) : SameCaches s s' := by
  simp only [releaseSlab, Option.bind_eq_bind, Option.bind_eq_some_iff] at h
  obtain ⟨header, -, parent, -, h⟩ := h
  split at h
  . cases h
  . simp only [Option.bind_eq_some_iff] at h
    obtain ⟨node, -, heq⟩ := h
    rw [← (Prod.mk.inj (Option.some.inj heq)).2]
    apply SameCaches.trans (sameCaches_setFree s _ _)
    apply sameCaches_setSlab

theorem sameCaches_moved (s : SlabMem) (head slab : Nat) (v w : SlabHeader) (emptySlab partialSlab : Nat)
    : SameCaches s (((s.setSlab head v).setSlab slab w).setCache c { s.cache c with emptySlab, partialSlab }) := by
  apply SameCaches.trans (sameCaches_setSlab s head v)
  apply SameCaches.trans (sameCaches_setSlab _ slab w)
  apply sameCaches_setCache <;> rfl

theorem sameCaches_kfree {addr : Nat} (h : s.kfree fuel addr = some s') : SameCaches s s' := by
  rw [kfree] at h
  split at h
  . rw [← Option.some.inj h]
    exact SameCaches.refl s
  . simp only [Option.bind_eq_bind, Option.bind_eq_some_iff] at h
    obtain ⟨⟨slab, s₁⟩, hrelease, h⟩ := h
    apply SameCaches.trans (sameCaches_releaseSlab hrelease)
    -- the search for the slab before changes nothing, from where it starts and whether it is made or not
    dsimp only at h
    generalize (if (s₁.slab slab).freeCount = 1 then (s₁.cache (s₁.slab slab).parent).fullSlab
      else (s₁.cache (s₁.slab slab).parent).partialSlab) = first at h
    split at h
    . rw [Option.bind_some] at h
      split at h
      . rw [← Option.some.inj h]
        apply sameCaches_moved
      . rw [← Option.some.inj h]
        apply sameCaches_moved
    . obtain ⟨head, -, h⟩ := Option.bind_eq_some_iff.mp h
      split at h
      . rw [← Option.some.inj h]
        apply sameCaches_moved
      . rw [← Option.some.inj h]
        apply sameCaches_moved

theorem sameCaches_step {h h' : SlabHeap} {op : SlabOp} (hstep : h.step fuel op = some h')
    : SameCaches h.mem h'.mem := by
  have hallocated (kmem : Option Nat) (size page ret : Nat) (mem : SlabMem)
      : (h.allocated kmem size page ret mem).mem = mem := by
    cases kmem <;> rfl
  cases op with
  | kmalloc size page =>
    simp only [SlabHeap.step, Option.bind_eq_bind, Option.bind_eq_some_iff] at hstep
    obtain ⟨kmem, -, ⟨ret, mem⟩, halloc, heq⟩ := hstep
    rw [← Option.some.inj heq, hallocated]
    exact sameCaches_kmallocFlags halloc
  | kmallocS size page =>
    simp only [SlabHeap.step, Option.bind_eq_bind, Option.bind_eq_some_iff] at hstep
    obtain ⟨kmem, -, ⟨ret, mem⟩, halloc, heq⟩ := hstep
    rw [← Option.some.inj heq, hallocated]
    exact sameCaches_kmallocFlags halloc
  | qsmalloc quickalloc page =>
    simp only [SlabHeap.step, Option.bind_eq_bind, Option.bind_eq_some_iff] at hstep
    obtain ⟨kmem, -, ⟨ret, mem⟩, halloc, heq⟩ := hstep
    rw [← Option.some.inj heq, hallocated]
    exact sameCaches_kmallocFlags halloc
  | kfree i =>
    simp only [SlabHeap.step, Option.bind_eq_bind, Option.bind_eq_some_iff] at hstep
    obtain ⟨block, -, mem, hfree, heq⟩ := hstep
    rw [← Option.some.inj heq]
    exact sameCaches_kfree hfree

end Same

theorem Booting.mem_table (h : Booting s page 12 recs) (hc : c ∈ recs.map SlabBlock.addr)
    : ∃ i, i < 12 ∧ s.quickAllocTable i = c := by
  let table := (Finset.range 12).image s.quickAllocTable
  have hsub : table ⊆ (recs.map SlabBlock.addr).toFinset := by
    intro a ha
    obtain ⟨i, hi, rfl⟩ := Finset.mem_image.mp ha
    rw [List.mem_toFinset]
    exact (h.table i (Finset.mem_range.mp hi)).1
  have hcard : table.card = 12 := by
    rw [Finset.card_image_of_injOn, Finset.card_range]
    intro i hi j hj heq
    have hsize := (h.table i (Finset.mem_range.mp hi)).2
    rw [heq, (h.table j (Finset.mem_range.mp hj)).2] at hsize
    exact Nat.pow_right_injective (Nat.le_refl 2) hsize.symm
  have hle : (recs.map SlabBlock.addr).toFinset.card ≤ table.card := by
    rw [hcard, ← h.length, ← @List.length_map _ _ recs SlabBlock.addr]
    apply List.toFinset_card_le
  have hmem : c ∈ table := by
    rw [Finset.eq_of_subset_of_card_le hsub hle, List.mem_toFinset]
    exact hc
  obtain ⟨i, hi, heq⟩ := Finset.mem_image.mp hmem
  exact ⟨i, Finset.mem_range.mp hi, heq⟩

theorem Booting.cacheList (h : Booting s page 12 recs) : CacheList s (s.kmemKmem :: recs.map SlabBlock.addr) := by
  have hkernel (c : Nat) (hc : c ∈ s.kmemKmem :: recs.map SlabBlock.addr) := (h.kept.cache c hc).kernel
  constructor
  . exact h.ready.chain
  . exact hkernel
  . have hkernel := hkernel _ List.mem_cons_self
    omega
  . intro c hc
    have hpos := (h.kept.cache c hc).objSize_pos
    omega
  . intro c hc
    rcases List.mem_cons.mp hc with rfl | hc
    . rw [h.objSize]
      decide
    . obtain ⟨i, hi, rfl⟩ := h.mem_table hc
      rw [(h.table i hi).2]
      exact Nat.pow_le_pow_right (by decide) (show i ≤ 11 by omega)

end SlabMem

namespace SlabHeap

open SlabMem

/--
`kmalloc_s` of a size and `qsmalloc` of the cache that `query_kmem` finds for it are one and the same, for every size
and after every run of the allocator. Thirteen caches are on the list. Where a release has written into their records,
`CacheList.kmallocS_eq` holds as long as the list is still one.
-/
theorem kmallocS_eq_qsmalloc (free : Nat → FreeNode) (slab : Nat → SlabHeader) (cache : Nat → KmemCache)
    {kmemKmem : Nat} {turns : Nat → Nat} (hkernel : 0x80000000 ≤ kmemKmem) (hpage : IsPage (turns 0))
    (hkmem : kmemKmem / SLAB_SIZE ≠ turns 0 / SLAB_SIZE)
    : ∃ mem,
        (boot free slab cache kmemKmem).slabInit turns = some mem
          ∧ ∀ fuel ops h, Run.run (step fuel) ⟨mem, [], [turns 0]⟩ ops = some h
            → ∀ (size : BitVec 32) page fuel', 13 ≤ fuel'
            → ∃ q, h.mem.queryKmem fuel' size.toNat = some q
                ∧ h.mem.kmallocS fuel' size.toNat page = h.mem.qsmalloc fuel' q page := by
  obtain ⟨mem, recs, hinit, -, hbooting⟩ := slabInit_booting free slab cache hkernel hpage hkmem
  refine ⟨mem, hinit, ?_⟩
  intro fuel ops h hrun size page fuel' hfuel
  have hlist : CacheList h.mem (mem.kmemKmem :: recs.map SlabBlock.addr) := by
    apply @Run.run_invariant _ _ (step fuel) (fun h => CacheList h.mem (mem.kmemKmem :: recs.map SlabBlock.addr)) _
      ⟨mem, [], [turns 0]⟩ h ops hbooting.cacheList hrun
    intro h op h' hlist hstep
    exact hlist.sameCaches (sameCaches_step hstep)
  apply hlist.kmallocS_eq
  rw [List.length_cons, List.length_map, hbooting.length]
  exact hfuel

theorem kmallocS_eq_qsmalloc_booted
    : ∃ h,
        Run.run (step 13) ⟨booted, [], [0xC0200000]⟩ [.kmalloc 100 0xC0201000, .kmallocS 64 0xC0203000] = some h
          ∧ ∃ q, h.mem.queryKmem 13 64 = some q
              ∧ h.mem.kmallocS 13 64 0xC0202000 = h.mem.qsmalloc 13 q 0xC0202000 := by
  obtain ⟨mem, hinit, hsame⟩ :=
    @kmallocS_eq_qsmalloc (fun _ => ⟨0, 0⟩) (fun _ => ⟨0, 0, 0, 0, 0⟩) (fun _ => ⟨0, 0, 0, 0, 0, 0, 0⟩) 0xC0100000
      (fun _ => 0xC0200000) (by decide) (by decide) (by decide)
  rw [slabInit_booted] at hinit
  rw [← Option.some.inj hinit] at hsame
  have hrun := Option.eq_some_of_isSome (show (Run.run (step 13) ⟨booted, [], [0xC0200000]⟩
    [.kmalloc 100 0xC0201000, .kmallocS 64 0xC0203000]).isSome by decide +kernel)
  exact ⟨_, hrun, hsame 13 _ _ hrun 64 0xC0202000 13 (by decide)⟩

end SlabHeap
end Osproj
