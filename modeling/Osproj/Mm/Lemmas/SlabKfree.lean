import Mathlib.Logic.Relation
import Osproj.Mm.Lemmas.SlabFreeList
import Osproj.Mm.Lemmas.SlabLists
import Osproj.Mm.Lemmas.SlabService

/-!
This module contains the search of `kfree` for the slab of a block. The slab is where `kfree` looks for it only if it is
the first one of the partial list: a slab with one object in use is still on the empty list, and the release from a full
slab faults before the search.
-/

namespace Osproj

open Slab

namespace SlabMem

open SlabHeap

variable {s s' : SlabMem} {caches pages : List Nat} {blocks recs : List SlabBlock} {c p q page ret : Nat}

def OnList (s : SlabMem) (head p : Nat) : Prop := Relation.ReflTransGen (fun a b => a ≠ 0 ∧ s.nextSlab a = b) head p

theorem eq_zero_of_onList (h : s.OnList 0 p) : p = 0 := by
  cases Relation.ReflTransGen.cases_head h with
  | inl heq => exact heq.symm
  | inr hstep =>
    obtain ⟨q, ⟨hne, -⟩, -⟩ := hstep
    exact absurd rfl hne

theorem slab_fromPartial_of_ne (h : q ≠ p) : (s.fromPartial c p).slab q = s.slab q := by
  rw [fromPartial]
  split
  . simp [setSlab, setCache, h]
  . rfl

theorem slab_fromEmpty_of_ne (h : q ≠ p) : (s.fromEmpty c p).slab q = s.slab q := by
  rw [fromEmpty]
  split <;> simp [setSlab, setCache, h]

theorem cache_fromPartial_of_ne {a : Nat} (h : a ≠ c) : (s.fromPartial c p).cache a = s.cache a := by
  rw [fromPartial]
  split
  . simp [setSlab, setCache, h]
  . rfl

theorem cache_fromEmpty_of_ne {a : Nat} (h : a ≠ c) : (s.fromEmpty c p).cache a = s.cache a := by
  rw [fromEmpty]
  split <;> simp [setSlab, setCache, h]

/--
An allocation from the cache `c` takes an object of the slab `p`, which is a new one or the front one. What the other
caches and slabs are stays as it is.
-/
structure TakesFrom (s s' : SlabMem) (pages : List Nat) (c page p : Nat) : Prop where
  slab : ∀ q, q ≠ p → s'.slab q = s.slab q
  parent : (s'.slab p).parent = c
  cache : ∀ a, a ≠ c → s'.cache a = s.cache a
  objCountPerSlab : (s'.cache c).objCountPerSlab = (s.cache c).objCountPerSlab
  new : NeedsPage s c → p = page ∧ (s'.slab p).freeCount + 1 = (s.cache c).objCountPerSlab
    ∧ (s'.cache c).partialSlab = 0 ∧ (s'.cache c).emptySlab = page
  old : ¬ NeedsPage s c → p = s.front c ∧ p ∈ pages ∧ (s.slab p).parent = c
    ∧ (s'.slab p).freeCount + 1 = (s.slab p).freeCount
    ∧ ((s'.slab p).freeCount ≠ 0 → (s'.cache c).partialSlab = p)

theorem Kept.takesFrom_front (h : s.Kept caches pages blocks) (hc : c ∈ caches) (hneeds : ¬ NeedsPage s c)
    {r : Nat × SlabMem} (hfront : p = s.front c) (hlink : s.IsLink pages c p) (hne : p ≠ 0)
    (halloc : s.allocFromSlab p (s.cache c).objSize = some r) (hrelinked : Relinked r.2 s')
    (hslab : ∀ q, q ≠ p → s'.slab q = r.2.slab q) (hcache : ∀ a, a ≠ c → s'.cache a = r.2.cache a)
    (hpart : r.2.cache = s.cache → (r.2.slab p).freeCount ≠ 0 → (s'.cache c).partialSlab = p)
    : TakesFrom s s' pages c page p := by
  obtain ⟨hmem, hparent⟩ := hlink.resolve_left hne
  obtain ⟨c', -, k, hk⟩ := h.slab p hmem
  obtain rfl : c' = c := by rw [← hk.parent, hparent]
  have hlt := hk.lt_of_allocFromSlab halloc
  obtain ⟨s₂, halloc₂, hcache₂, hslab₂, -, hother₂⟩ :=
    hk.allocFromSlab (h.page p hmem) (h.cache c' hc).objCountPerSlab hlt
  have hs₂ : s₂ = r.2 := congrArg Prod.snd (Option.some.inj (halloc₂.symm.trans halloc))
  rw [← hs₂] at hrelinked hslab hcache hpart
  have hfree := hk.freeCount
  have hfree₂ := hslab₂.freeCount
  rw [hcache₂] at hfree₂
  refine ⟨?_, ?_, ?_, ?_, fun hno => absurd hno hneeds, fun _ => ⟨hfront, hmem, hparent, ?_, ?_⟩⟩
  . intro q hq
    rw [hslab q hq, hother₂ q hq]
  . rw [hrelinked.parent]
    exact hslab₂.parent
  . intro a ha
    rw [hcache a ha, hcache₂]
  . rw [hrelinked.caches.objCountPerSlab, hcache₂]
  . rw [hrelinked.freeCount]
    omega
  . rw [hrelinked.freeCount]
    exact hpart hcache₂

theorem Kept.takesFrom (h : s.Kept caches pages blocks) (hc : c ∈ caches)
    (hpage : NeedsPage s c → IsPage page ∧ page ∉ pages)
    (halloc : s.allocFromKmem c page = some (ret, s'))
    : ∃ p, TakesFrom s s' pages c page p := by
  have hcache := h.cache c hc
  by_cases hneeds : NeedsPage s c
  . obtain ⟨hpage, -⟩ := hpage hneeds
    obtain ⟨s₂, halloc₂, hcache₂, hslab₂, hnext₂, hother₂⟩ :=
      allocFromKmem_new hcache.kernel hneeds hpage hcache.objCountPerSlab hcache.objCount_pos
    obtain ⟨-, rfl⟩ := Prod.mk.inj (Option.some.inj (halloc₂.symm.trans halloc))
    have hrelinked := relinked_fromPartial s₂ c page
    have hcount₂ : (s₂.cache c).objCountPerSlab = (s.cache c).objCountPerSlab := by
      rw [hcache₂]
      simp [setCache]
    refine ⟨page, ?_, ?_, ?_, ?_, ?_, ?_⟩
    . intro q hq
      rw [slab_fromPartial_of_ne hq, hother₂ q hq]
    . rw [hrelinked.parent]
      exact hslab₂.parent
    . intro a ha
      rw [cache_fromPartial_of_ne ha, hcache₂]
      simp [setCache, ha]
    . rw [hrelinked.caches.objCountPerSlab, hcount₂]
    . intro _
      refine ⟨rfl, ?_, ?_, ?_⟩
      . rw [hrelinked.freeCount, ← hcount₂]
        exact hslab₂.freeCount
      . rw [partialSlab_fromPartial, hnext₂, hcache₂]
        simp [setCache, hneeds.1]
      . rw [emptySlab_fromPartial, hcache₂]
        simp [setCache]
    . exact fun hno => absurd hneeds hno
  . by_cases hpart : (s.cache c).partialSlab = 0
    . have hempty : (s.cache c).emptySlab ≠ 0 := fun hempty => hneeds ⟨hpart, hempty⟩
      rw [allocFromKmem_of_empty hcache.kernel hpart hempty, Option.map_eq_some_iff] at halloc
      obtain ⟨r, hslab, hr⟩ := halloc
      obtain ⟨-, rfl⟩ := Prod.mk.inj hr
      refine ⟨_, h.takesFrom_front hc hneeds ?_ (h.empty c hc) hempty hslab (relinked_fromEmpty r.2 c _)
        (fun q hq => slab_fromEmpty_of_ne hq) (fun a ha => cache_fromEmpty_of_ne ha) ?_⟩
      . rw [front, if_neg (not_not_intro hpart)]
      . intro _ hfree
        rw [partialSlab_fromEmpty, if_neg hfree]
    . rw [allocFromKmem_of_part hcache.kernel hpart, Option.map_eq_some_iff] at halloc
      obtain ⟨r, hslab, hr⟩ := halloc
      obtain ⟨-, rfl⟩ := Prod.mk.inj hr
      refine ⟨_, h.takesFrom_front hc hneeds ?_ (h.part c hc) hpart hslab (relinked_fromPartial r.2 c _)
        (fun q hq => slab_fromPartial_of_ne hq) (fun a ha => cache_fromPartial_of_ne ha) ?_⟩
      . rw [front, if_pos hpart]
      . intro hcaches hfree
        rw [partialSlab_fromPartial, if_neg hfree, hcaches]

/--
Every slab of the cache is full, or it is the front one: with one object in use on the empty list, with more than one on
the partial list.
-/
def InFront (s : SlabMem) (pages : List Nat) (c : Nat) : Prop :=
  ∀ p ∈ pages, (s.slab p).parent = c →
    (s.slab p).freeCount = 0
      ∨ ((s.slab p).freeCount + 1 = (s.cache c).objCountPerSlab
        ∧ (s.cache c).partialSlab = 0 ∧ (s.cache c).emptySlab = p)
      ∨ ((s.slab p).freeCount + 1 < (s.cache c).objCountPerSlab ∧ (s.cache c).partialSlab = p)

theorem InFront.eq_front (h : InFront s pages c) (hp : p ∈ pages) (hparent : (s.slab p).parent = c) (hne : p ≠ 0)
    (hfree : (s.slab p).freeCount ≠ 0)
    : p = s.front c ∧ ¬ NeedsPage s c ∧ (s.slab p).freeCount + 1 ≤ (s.cache c).objCountPerSlab := by
  rcases h p hp hparent with hzero | ⟨hcount, hpart, hempty⟩ | ⟨hcount, hpart⟩
  . exact absurd hzero hfree
  . rw [front, if_neg (not_not_intro hpart), hempty]
    exact ⟨rfl, fun hneeds => hne (hempty.symm.trans hneeds.2), by omega⟩
  . rw [front, hpart, if_pos hne]
    exact ⟨rfl, fun hneeds => hne (hpart.symm.trans hneeds.1), by omega⟩

theorem TakesFrom.mem_of_ne {q : Nat} (ht : TakesFrom s s' pages c page p)
    (hq : q ∈ if NeedsPage s c then page :: pages else pages) (hqp : q ≠ p)
    : q ∈ pages := by
  split at hq
  . next hneeds =>
    refine (List.mem_cons.mp hq).resolve_left ?_
    rw [← (ht.new hneeds).1]
    exact hqp
  . exact hq

theorem InFront.takesFrom (h : InFront s pages c) (ht : TakesFrom s s' pages c page p) (hpages : ∀ q ∈ pages, q ≠ 0)
    : InFront s' (if NeedsPage s c then page :: pages else pages) c := by
  intro q hq hparent
  by_cases hqp : q = p
  . subst hqp
    rw [ht.objCountPerSlab]
    by_cases hneeds : NeedsPage s c
    . obtain ⟨rfl, hcount, hpart, hempty⟩ := ht.new hneeds
      exact Or.inr (Or.inl ⟨hcount, hpart, hempty⟩)
    . obtain ⟨hfront, hmem, hparent', hcount, hpart⟩ := ht.old hneeds
      have hle := (h.eq_front hmem hparent' (hpages q hmem) (by omega)).2.2
      by_cases hzero : (s'.slab q).freeCount = 0
      . exact Or.inl hzero
      . exact Or.inr (Or.inr ⟨by omega, hpart hzero⟩)
  . -- another slab that is not full would be the front one as well
    have hmem := ht.mem_of_ne hq hqp
    rw [ht.slab q hqp] at hparent ⊢
    left
    by_contra hfree
    obtain ⟨hfront, hneeds, -⟩ := h.eq_front hmem hparent (hpages q hmem) hfree
    exact hqp (hfront.trans (ht.old hneeds).1.symm)

theorem InFront.takesFrom_of_ne {c' : Nat} (h : InFront s pages c') (ht : TakesFrom s s' pages c page p) (hne : c' ≠ c)
    : InFront s' (if NeedsPage s c then page :: pages else pages) c' := by
  intro q hq hparent
  have hqp : q ≠ p := by
    rintro rfl
    exact hne (hparent.symm.trans ht.parent)
  have hmem := ht.mem_of_ne hq hqp
  rw [ht.slab q hqp] at hparent ⊢
  rw [ht.cache c' hne]
  exact h q hmem hparent

theorem inFront_of_booting (hpage : IsPage page) (h : Booting s page 12 recs)
    : ∀ c ∈ s.kmemKmem :: recs.map SlabBlock.addr, s.InFront [page] c := by
  intro c hc p hp hparent
  obtain rfl := List.mem_singleton.mp hp
  have hslab := h.boot.slab (by decide)
  rw [hslab.parent] at hparent
  subst hparent
  have hcount : (s.cache s.kmemKmem).objCountPerSlab = 113 := by
    rw [(h.kept.cache _ List.mem_cons_self).objCountPerSlab, h.objSize]
    rfl
  have hfree := hslab.freeCount
  rw [hcount] at hfree
  exact Or.inr (Or.inr ⟨by omega, h.boot.part⟩)

theorem releaseSlab_of_le {obj : Nat} (hslab : 0x80000000 ≤ obj / 0x1000 * 0x1000)
    (hparent : 0x80000000 ≤ (s.slab (obj / 0x1000 * 0x1000)).parent)
    (hsize : (s.cache (s.slab (obj / 0x1000 * 0x1000)).parent).objSize ≠ 0)
    (hnode : 0x80000000 ≤ ((s.slab (obj / 0x1000 * 0x1000)).free + SIZEOF_FREE
      * ((obj + 0x100000000 - (s.slab (obj / 0x1000 * 0x1000)).start) % 0x100000000
        / (s.cache (s.slab (obj / 0x1000 * 0x1000)).parent).objSize)) % 0x100000000)
    : ∃ s', s.releaseSlab obj = some (obj / 0x1000 * 0x1000, s')
        ∧ s'.cache = s.cache
        ∧ (s'.slab (obj / 0x1000 * 0x1000)).parent = (s.slab (obj / 0x1000 * 0x1000)).parent
        ∧ (s'.slab (obj / 0x1000 * 0x1000)).freeCount
            = ((s.slab (obj / 0x1000 * 0x1000)).freeCount + 1) % 0x100000000 := by
  simp only [releaseSlab, slabAt_of_le hslab, cacheAt_of_le hparent, Option.bind_eq_bind, Option.bind_some,
    if_neg hsize, freeAt_of_le hnode]
  refine ⟨_, rfl, rfl, ?_, ?_⟩
  . simp [setSlab]
  . simp [setSlab]

theorem kfree_of_first {s₁ : SlabMem} {addr slab : Nat} {fuel : Nat} (haddr : ¬ addr < 0xC0000000)
    (hrelease : s.releaseSlab addr = some (slab, s₁)) (hone : (s₁.slab slab).freeCount ≠ 1)
    (hfirst : (s₁.cache (s₁.slab slab).parent).partialSlab = slab)
    (hcount : (s₁.slab slab).freeCount ≠ (s₁.cache (s₁.slab slab).parent).objCountPerSlab)
    : ∃ mem, s.kfree fuel addr = some mem
        ∧ (mem.cache (s₁.slab slab).parent).partialSlab = slab
        ∧ (mem.cache (s₁.slab slab).parent).objCountPerSlab
            = (s₁.cache (s₁.slab slab).parent).objCountPerSlab := by
  simp only [kfree, if_neg haddr, hrelease, Option.bind_eq_bind, Option.bind_some, if_neg hone, if_pos hfirst,
    if_neg hcount]
  refine ⟨_, rfl, ?_, ?_⟩
  . simp [setCache]
  . simp [setCache]

end SlabMem

namespace SlabHeap

open SlabMem

variable {h h' : SlabHeap} {caches : List Nat} {recs : List SlabBlock} {fuel size page : Nat}

/--
`kfree` comes back. The list it picks has led to the slab of the block, which is then on the list it belongs to and has
left the one it was found on, unless that is the same.
-/
def KfreeFinds (h : SlabHeap) (b : SlabBlock) : Prop :=
  let slab := b.addr / 0x1000 * 0x1000
  ∃ s fuel mem, h.mem.releaseSlab b.addr = some (slab, s) ∧ h.mem.kfree fuel b.addr = some mem
    ∧ let header := s.slab slab
      let picked (kmem : KmemCache) := if header.freeCount = 1 then kmem.fullSlab else kmem.partialSlab
      let target (kmem : KmemCache) :=
        if header.freeCount = kmem.objCountPerSlab then kmem.emptySlab else kmem.partialSlab
      s.OnList (picked (s.cache header.parent)) slab
        ∧ mem.OnList (target (mem.cache header.parent)) slab
        ∧ (header.freeCount = 1 ∨ header.freeCount = (s.cache header.parent).objCountPerSlab
          → ¬ mem.OnList (picked (mem.cache header.parent)) slab)

/--
The slab of the block is the first one of the partial list of its cache, has a free object and more than one object in
use, and what `release_slab` takes for the node of the object can be accessed.
-/
def KfreeOk (h : SlabHeap) (b : SlabBlock) : Prop :=
  let slab := b.addr / 0x1000 * 0x1000
  let header := h.mem.slab slab
  let parent := h.mem.cache header.parent
  let index := (b.addr + 0x100000000 - header.start) % 0x100000000 / parent.objSize
  0x80000000 ≤ header.parent ∧ parent.objSize ≠ 0 ∧ parent.partialSlab = slab
    ∧ (header.freeCount + 1) % 0x100000000 ≠ 1 ∧ (header.freeCount + 1) % 0x100000000 ≠ parent.objCountPerSlab
    ∧ 0x80000000 ≤ (header.free + SIZEOF_FREE * index) % 0x100000000

structure Fronted (caches : List Nat) (recs : List SlabBlock) (h : SlabHeap) : Prop where
  inv : Inv caches recs h
  front : ∀ c ∈ caches, h.mem.InFront h.pages c

theorem Fronted.allocated (hfronted : Fronted caches recs h) {flags quickalloc ret : Nat} {kmem : Option Nat}
    {mem : SlabMem} (hquick : quickalloc = 0 ∨ quickalloc ∈ caches ∧ size = 0)
    (hpage : h.PageOk page (h.mem.kmemFor fuel size flags quickalloc))
    (hkmem : h.mem.kmemFor fuel size flags quickalloc = some kmem)
    (hret : h.mem.kmallocFlags fuel size flags quickalloc page = some (ret, mem))
    : Fronted caches recs (h.allocated kmem size page ret mem) := by
  refine ⟨hfronted.inv.allocated hquick hpage hkmem hret, ?_⟩
  simp only [kmallocFlags, hkmem, Option.bind_eq_bind, Option.bind_some] at hret
  rw [hkmem] at hpage
  cases kmem with
  | none =>
    obtain ⟨-, rfl⟩ := Prod.mk.inj (Option.some.inj hret)
    exact hfronted.front
  | some kmem =>
    have hmem := (hfronted.inv.ready.kmemFor_mem hfronted.inv.kernel hquick hkmem).1
    obtain ⟨p, htakes⟩ := hfronted.inv.kept.takesFrom hmem hpage hret
    intro c hc
    by_cases hne : c = kmem
    . subst hne
      apply (hfronted.front c hc).takesFrom htakes
      intro q hq
      have hkernel := (hfronted.inv.kept.page q hq).kernel
      omega
    . exact (hfronted.front c hc).takesFrom_of_ne htakes hne

theorem Fronted.step (hfronted : Fronted caches recs h) {op : SlabOp} (hallowed : Allowed fuel h op)
    (hop : NoRelease h op) (hstep : h.step fuel op = some h')
    : Fronted caches recs h' := by
  have hinv' := hfronted.inv.step hallowed hop hstep
  rcases hfronted.inv.step_cases hallowed hop hstep with
    ⟨_, _, _, _, _, _, _, hquick, hpage, hkmem, hret, rfl⟩ | ⟨i, rfl⟩
  . exact hfronted.allocated hquick hpage hkmem hret
  . exact ⟨hinv', hfronted.front⟩

theorem kfreeFinds_of_kfreeOk {b : SlabBlock} (hb : 0xC0000000 ≤ b.addr) (hok : KfreeOk h b) : KfreeFinds h b := by
  obtain ⟨hparent, hsize, hfirst, hone, hcount, hnode⟩ := hok
  obtain ⟨s, hrelease, hcache, hparent', hfree⟩ :=
    releaseSlab_of_le (show 0x80000000 ≤ b.addr / 0x1000 * 0x1000 by omega) hparent hsize hnode
  rw [← hcache, ← hparent'] at hfirst hcount
  rw [← hfree] at hone hcount
  obtain ⟨mem, hkfree, hfirst', hcount'⟩ := @kfree_of_first _ _ _ _ 0 (by omega) hrelease hone hfirst hcount
  refine ⟨s, 0, mem, hrelease, hkfree, ?_, ?_, ?_⟩
  . dsimp only
    rw [if_neg hone, hfirst]
    exact .refl
  . dsimp only
    rw [hcount', if_neg hcount, hfirst']
    exact .refl
  . rintro (heq | heq)
    . exact absurd heq hone
    . exact absurd heq hcount

theorem Fronted.kfreeOk_of_kfreeFinds (hfronted : Fronted caches recs h) {b : SlabBlock} (hb : b ∈ h.live)
    (hfinds : KfreeFinds h b)
    : KfreeOk h b := by
  obtain ⟨hkmem, -, p, hp, k, i, hslab, hi, haddr⟩ := hfronted.inv.kept.block b (List.mem_append_left _ hb)
  have hcache := hfronted.inv.kept.cache _ hkmem
  have hpage := hfronted.inv.kept.page p hp
  have hin := Nat.lt_of_lt_of_le hi hslab.used_le
  have hsize := Nat.pos_iff_ne_zero.mp hcache.objSize_pos
  have hin' := hin
  rw [hcache.objCountPerSlab] at hin'
  have hdiv := object_div hpage.aligned hin'
  rw [← hcache.objCountPerSlab, ← haddr] at hdiv
  have hfit := @CacheOk.node_le h.mem b.kmem p hcache
  have hcount := hslab.freeCount
  have hbound := hpage.size
  have hkernel := hpage.kernel
  obtain ⟨s, fuel, mem, hrelease, -, honlist, -⟩ := hfinds
  rw [hdiv] at hrelease honlist
  have hrelease' := hrelease
  rw [haddr, hslab.releaseSlab_eq hpage hcache.kernel hcache.objCountPerSlab hin, if_neg hsize] at hrelease
  simp only [freeAt] at hrelease
  split at hrelease
  . simp at hrelease
  . next hnode =>
    simp only [Option.map_some, Option.some.injEq, Prod.mk.injEq, true_and] at hrelease
    have hheader : (s.slab p).parent = b.kmem
        ∧ (s.slab p).freeCount = ((h.mem.slab p).freeCount + 1) % 0x100000000 := by
      rw [← hrelease]
      simp [setSlab, hslab.parent]
    have hcache' : s.cache = h.mem.cache := by
      rw [← hrelease]
      rfl
    have hn : (h.mem.cache b.kmem).objCountPerSlab < 0x100000000 := by
      simp only [node, SIZEOF_FREE, SLAB_SIZE] at hfit hbound
      omega
    dsimp only at honlist
    rw [hheader.1, hheader.2, hcache'] at honlist
    -- the head of an empty free list is `NULL`, and so would be its node
    have hfree : (h.mem.slab p).freeCount ≠ 0 := by
      intro hzero
      rw [hslab.free, if_neg (by omega)] at hnode
      simp only [node, SIZEOF_FREE, SLAB_SIZE] at hfit hbound hnode
      omega
    rcases hfronted.front _ hkmem p hp hslab.parent with hzero | ⟨hone, hpart, -⟩ | ⟨hmore, hpart⟩
    . exact absurd hzero hfree
    . rw [if_neg (by omega), hpart] at honlist
      have hzero := eq_zero_of_onList honlist
      omega
    . unfold KfreeOk
      rw [hdiv]
      simp only [hslab.parent]
      refine ⟨hcache.kernel, hsize, hpart, by omega, by omega, ?_⟩
      rw [haddr, hslab.index_eq hpage hcache.objCountPerSlab hsize hin]
      exact Nat.le_of_not_lt hnode

/--
In any run from `slab_init`, `kfree` finds the slab of a live block if the slab is where the code looks for it without a
search, and in a run that has released nothing yet only then. Free nodes, headers and records are separate stores: what a
release before has written into a record of a cache is not seen.
-/
theorem kfreeFinds_iff (free : Nat → FreeNode) (slab : Nat → SlabHeader) (cache : Nat → KmemCache)
    {kmemKmem : Nat} {turns : Nat → Nat} (hkernel : 0x80000000 ≤ kmemKmem) (hpage : IsPage (turns 0))
    (hkmem : kmemKmem / SLAB_SIZE ≠ turns 0 / SLAB_SIZE)
    : ∃ mem,
        (boot free slab cache kmemKmem).slabInit turns = some mem
          ∧ ∀ fuel ops h b,
            Run.Guarded (step fuel) (Offered fuel) ⟨mem, [], [turns 0]⟩ ops
              → Run.run (step fuel) ⟨mem, [], [turns 0]⟩ ops = some h
              → b ∈ h.live
              → 0xC0000000 ≤ b.addr
              → (KfreeOk h b → KfreeFinds h b)
                ∧ (Run.Guarded (step fuel) NoRelease ⟨mem, [], [turns 0]⟩ ops → (KfreeFinds h b ↔ KfreeOk h b)) := by
  obtain ⟨mem, recs, hinit, -, hbooting⟩ := slabInit_booting free slab cache hkernel hpage hkmem
  refine ⟨mem, hinit, ?_⟩
  intro fuel ops h b hguarded hrun hb haddr
  refine ⟨kfreeFinds_of_kfreeOk haddr, fun hnone => ⟨?_, kfreeFinds_of_kfreeOk haddr⟩⟩
  have hfronted : Fronted (mem.kmemKmem :: recs.map SlabBlock.addr) recs ⟨mem, [], [turns 0]⟩ :=
    ⟨⟨hbooting.kept, hbooting.ready⟩, inFront_of_booting hpage hbooting⟩
  have hfronted' : Fronted (mem.kmemKmem :: recs.map SlabBlock.addr) recs h := by
    refine (hguarded.and hnone).invariant (fun h op h' hfronted hop hstep => ?_) hfronted hrun
    exact hfronted.step (hfronted.inv.allowed hop.1 hstep) hop.2 hstep
  exact hfronted'.kfreeOk_of_kfreeFinds hb

instance (h : SlabHeap) (b : SlabBlock) : Decidable (KfreeOk h b) := by
  unfold KfreeOk
  infer_instance

theorem kfreeFinds_iff_two
    : ∃ h b,
        Run.run (step 13) ⟨booted, [], [0xC0200000]⟩ [.kmalloc 100 0xC0201000, .kmalloc 100 0] = some h
          ∧ b ∈ h.live
          ∧ KfreeFinds h b := by
  obtain ⟨mem, hinit, hfinds⟩ :=
    @kfreeFinds_iff (fun _ => ⟨0, 0⟩) (fun _ => ⟨0, 0, 0, 0, 0⟩) (fun _ => ⟨0, 0, 0, 0, 0, 0, 0⟩) 0xC0100000
      (fun _ => 0xC0200000) (by decide) (by decide) (by decide)
  rw [slabInit_booted] at hinit
  rw [← Option.some.inj hinit] at hfinds
  have hrun := Option.eq_some_of_isSome (show (Run.run (step 13) ⟨booted, [], [0xC0200000]⟩
    [.kmalloc 100 0xC0201000, .kmalloc 100 0]).isSome by decide +kernel)
  generalize hh : (Run.run (step 13) ⟨booted, [], [0xC0200000]⟩ [.kmalloc 100 0xC0201000, .kmalloc 100 0]).get _ = h
    at hrun
  obtain ⟨b, hb⟩ : ∃ b, h.live.head? = some b := by
    rw [← Option.isSome_iff_exists, ← hh]
    decide +kernel
  have hok : ∀ b ∈ h.live.head?, 0xC0000000 ≤ b.addr ∧ KfreeOk h b := by
    rw [← hh]
    decide +kernel
  have hmem := List.mem_of_mem_head? hb
  refine ⟨h, b, hrun, hmem, ?_⟩
  exact (hfinds 13 _ h b (by decide +kernel) hrun hmem (hok b hb).1).1 (hok b hb).2

/--
The first object of a new slab: the slab is on the empty list and `kfree` follows the partial list, which has none.
-/
theorem not_kfreeFinds
    : ∃ h b,
        Run.Guarded (step 13) (Offered 13) ⟨booted, [], [0xC0200000]⟩ [.kmalloc 1000 0xC0201000]
          ∧ Run.run (step 13) ⟨booted, [], [0xC0200000]⟩ [.kmalloc 1000 0xC0201000] = some h
          ∧ b ∈ h.live
          ∧ 0xC0000000 ≤ b.addr
          ∧ ¬ KfreeFinds h b := by
  have hrun := Option.eq_some_of_isSome (show (Run.run (step 13) ⟨booted, [], [0xC0200000]⟩
    [.kmalloc 1000 0xC0201000]).isSome by decide +kernel)
  generalize hh : (Run.run (step 13) ⟨booted, [], [0xC0200000]⟩ [.kmalloc 1000 0xC0201000]).get _ = h at hrun
  obtain ⟨b, hb⟩ : ∃ b, h.live.head? = some b := by
    rw [← Option.isSome_iff_exists, ← hh]
    decide +kernel
  have haddr : ∀ b ∈ h.live.head?, 0xC0000000 ≤ b.addr := by
    rw [← hh]
    decide +kernel
  have hsearch : ∀ b ∈ h.live.head?, ∀ r ∈ h.mem.releaseSlab b.addr,
      (r.2.slab (b.addr / 0x1000 * 0x1000)).freeCount ≠ 1
        ∧ (r.2.cache (r.2.slab (b.addr / 0x1000 * 0x1000)).parent).partialSlab = 0 := by
    rw [← hh]
    decide +kernel
  refine ⟨h, b, by decide +kernel, hrun, List.mem_of_mem_head? hb, haddr b hb, ?_⟩
  rintro ⟨s, fuel, mem, hrelease, -, honlist, -⟩
  obtain ⟨hone, hpart⟩ := hsearch b hb _ hrelease
  dsimp only at hone hpart honlist
  rw [if_neg hone, hpart] at honlist
  have hzero := eq_zero_of_onList honlist
  have hkernel := haddr b hb
  omega

end SlabHeap
end Osproj
