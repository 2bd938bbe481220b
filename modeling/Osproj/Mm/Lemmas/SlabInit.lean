import Mathlib.Algebra.Group.Nat.Defs
import Osproj.Base.Chain
import Osproj.Mm.Lemmas.SlabCaches

/-!
This module contains `slab_init`. All caches come out of the first slab of `kmem_kmem`: the first turn creates it, the
second one moves it from the empty list, where the first one left it, to the partial list.
-/

namespace Osproj

open Slab SlabHeap

namespace SlabMem

variable {s s' : SlabMem} {caches caches' pages : List Nat} {blocks recs : List SlabBlock} {c page page' ret j : Nat}

theorem Kept.congr (h : s.Kept caches pages blocks) (hslab : s'.slab = s.slab) (hfree : s'.free = s.free)
    (hold : ∀ c ∈ caches, { s'.cache c with next := 0 } = { s.cache c with next := 0 }) (hsub : caches ⊆ caches')
    (hnew : ∀ c ∈ caches', c ∉ caches →
      s'.CacheOk c ∧ (s'.cache c).emptySlab = 0 ∧ (s'.cache c).partialSlab = 0 ∧ (s'.cache c).fullSlab = 0)
    : s'.Kept caches' pages blocks := by
  have hfields : ∀ c ∈ caches, (s'.cache c).emptySlab = (s.cache c).emptySlab
      ∧ (s'.cache c).partialSlab = (s.cache c).partialSlab ∧ (s'.cache c).fullSlab = (s.cache c).fullSlab
      ∧ (s'.cache c).objSize = (s.cache c).objSize
      ∧ (s'.cache c).objCountPerSlab = (s.cache c).objCountPerSlab := by
    intro c hc
    have heq := hold c hc
    simp only [KmemCache.mk.injEq] at heq
    exact ⟨heq.1, heq.2.1, heq.2.2.1, heq.2.2.2.1, heq.2.2.2.2.1⟩
  have hisSlab : ∀ q k, ∀ c ∈ caches, s.IsSlab q k c → s'.IsSlab q k c := by
    intro q k c hc hk
    rw [IsSlab, (hfields c hc).2.2.2.2]
    apply SlabOk.congr hk <;> simp [hslab, hfree]
  have hlink : ∀ c q, s'.IsLink pages c q ↔ s.IsLink pages c q := by
    intro c q
    simp only [IsLink, hslab]
  constructor
  . intro c hc
    by_cases hmem : c ∈ caches
    . have hcache := h.cache c hmem
      constructor
      . exact hcache.kernel
      . rw [(hfields c hmem).2.2.2.1]
        exact hcache.objSize_pos
      . rw [(hfields c hmem).2.2.2.1, (hfields c hmem).2.2.2.2]
        exact hcache.objCountPerSlab
      . rw [(hfields c hmem).2.2.2.2]
        exact hcache.objCount_pos
    . exact (hnew c hc hmem).1
  . intro c hc
    by_cases hmem : c ∈ caches
    . rw [hlink, (hfields c hmem).1]
      exact h.empty c hmem
    . exact Or.inl (hnew c hc hmem).2.1
  . intro c hc
    by_cases hmem : c ∈ caches
    . rw [hlink, (hfields c hmem).2.1]
      exact h.part c hmem
    . exact Or.inl (hnew c hc hmem).2.2.1
  . intro c hc
    by_cases hmem : c ∈ caches
    . rw [hlink, (hfields c hmem).2.2.1]
      exact h.full c hmem
    . exact Or.inl (hnew c hc hmem).2.2.2
  . exact h.page
  . intro p hp
    obtain ⟨c, hc, k, hk⟩ := h.slab p hp
    exact ⟨c, hsub hc, k, hisSlab p k c hc hk⟩
  . intro p hp
    rw [hlink, hslab]
    exact h.next p hp
  . intro b hb
    obtain ⟨hkmem, hsize, p, hp, k, i, hk, hi⟩ := h.block b hb
    refine ⟨hsub hkmem, ?_, p, hp, k, i, hisSlab p k _ hkmem hk, ?_⟩
    . rw [(hfields _ hkmem).2.2.2.1]
      exact hsize
    . rw [(hfields _ hkmem).2.2.2.1, (hfields _ hkmem).2.2.2.2]
      exact hi
  . exact h.nodup

theorem fromPartial_of_lt {k kmem : Nat} (h : s.IsSlab page k c) (hk : k < (s.cache c).objCountPerSlab)
    : s.fromPartial kmem page = s := by
  have hcount := h.freeCount
  rw [fromPartial, if_neg (by omega)]

structure BootSlab (s : SlabMem) (page j : Nat) : Prop where
  empty : (s.cache s.kmemKmem).emptySlab = if j = 1 then page else 0
  part : (s.cache s.kmemKmem).partialSlab = if j ≤ 1 then 0 else page
  full : (s.cache s.kmemKmem).fullSlab = 0
  next : j ≠ 0 → (s.slab page).next = 0
  slab : j ≠ 0 → s.IsSlab page j s.kmemKmem

theorem BootSlab.allocFromKmem (h : BootSlab s page j)
    (hkept : s.Kept caches (if j = 0 then [] else [page]) blocks) (hK : s.kmemKmem ∈ caches) (hpage : IsPage page)
    (hj : j + 1 < (s.cache s.kmemKmem).objCountPerSlab) (hpage' : j = 0 → page' = page)
    : ∃ ret s',
        s.allocFromKmem s.kmemKmem page' = some (ret, s')
          ∧ BootSlab s' page (j + 1)
          ∧ (∀ c, c ≠ s.kmemKmem → s'.cache c = s.cache c) := by
  have hkernel := (hkept.cache _ hK).kernel
  have hne : page ≠ 0 := by
    have hkernel := hpage.kernel
    omega
  have hempty := h.empty
  have hpart := h.part
  match j, h with
  | 0, h =>
    rw [hpage' rfl]
    have hneeds : NeedsPage s s.kmemKmem := ⟨hpart, hempty⟩
    obtain ⟨s₁, hcreat, hsame₁, hslab₁, hnext₁, hcache₁, hkept₁⟩ := hkept.grow hK hpage (by simp)
    have hpos := (hkept₁.cache _ hK).objCount_pos
    obtain ⟨s₂, heq, hcache₂, hsame₂, hslab₂, hnext₂, -⟩ :=
      hkept₁.allocFromSlab hK List.mem_cons_self hslab₁ hpos (Nat.zero_le _)
    have hcaches := hcache₂.trans hcache₁
    have hsame := hsame₁.trans hsame₂
    have hlt : 0 + 1 < (s₂.cache s.kmemKmem).objCountPerSlab := by
      rw [hsame.objCountPerSlab]
      exact hj
    rw [hsame₁.objSize] at heq
    have halloc := @allocFromKmem_of_needsPage s _ page hkernel hneeds
    rw [hcreat, Option.bind_some, heq, Option.map_some, fromPartial_of_lt hslab₂ hlt] at halloc
    refine ⟨_, s₂, halloc, ?_, ?_⟩
    . rw [← hsame.kmemKmem] at hcaches hslab₂
      constructor
      . simp [hcaches, setCache]
      . simp [hcaches, setCache, hsame.kmemKmem, hpart]
      . simp [hcaches, setCache, hsame.kmemKmem, h.full]
      . intro _
        rw [hnext₂, hnext₁]
      . intro _
        exact hslab₂
    . intro c hc
      simp [hcaches, setCache, hc]
  | 1, h =>
    have hslab := h.slab Nat.one_ne_zero
    have hnext := h.next Nat.one_ne_zero
    simp only [if_true] at hempty hpart
    obtain ⟨s₂, heq, hcache₂, hsame₂, hslab₂, hnext₂, -⟩ :=
      hkept.allocFromSlab hK List.mem_cons_self hslab (by omega) (Nat.zero_le _)
    have hcount : (s₂.slab page).freeCount ≠ 0 := by
      have hcount := hslab₂.freeCount
      rw [hsame₂.objCountPerSlab] at hcount
      omega
    have halloc := @allocFromKmem_of_empty s _ page' hkernel hpart (by rwa [hempty])
    rw [hempty, heq, Option.map_some] at halloc
    refine ⟨_, s₂.fromEmpty s.kmemKmem page, halloc, ?_, ?_⟩
    . have hsame := (relinked_fromEmpty s₂ s.kmemKmem page).caches
      rw [fromEmpty, if_neg hcount] at *
      have hslab₃ := (relinked_relink s.kmemKmem page (s₂.slab page).next page (s₂.cache s.kmemKmem).fullSlab
        (s₂.cache s.kmemKmem).partialSlab).isSlab hslab₂
      constructor
      . simp [setSlab, setCache, hsame₂.kmemKmem, hnext₂, hnext]
      . simp [setSlab, setCache, hsame₂.kmemKmem]
      . simp [setSlab, setCache, hsame₂.kmemKmem, hcache₂, h.full]
      . intro _
        simp [setSlab, setCache, hcache₂, hpart]
      . intro _
        rw [hsame.kmemKmem, hsame₂.kmemKmem]
        exact hslab₃
    . intro c hc
      rw [fromEmpty, if_neg hcount]
      simp [setSlab, setCache, hc, hcache₂]
  | j + 2, h =>
    have hslab := h.slab (Nat.succ_ne_zero _)
    have hnext := h.next (Nat.succ_ne_zero _)
    rw [if_neg (by omega)] at hempty hpart
    obtain ⟨s₂, heq, hcache₂, hsame₂, hslab₂, hnext₂, -⟩ :=
      hkept.allocFromSlab hK List.mem_cons_self hslab (by omega) (Nat.zero_le _)
    have hlt : j + 2 + 1 < (s₂.cache s.kmemKmem).objCountPerSlab := by
      rw [hsame₂.objCountPerSlab]
      exact hj
    have halloc := @allocFromKmem_of_part s _ page' hkernel (by rwa [hpart])
    rw [hpart, heq, Option.map_some, fromPartial_of_lt hslab₂ hlt] at halloc
    refine ⟨_, s₂, halloc, ?_, ?_⟩
    . rw [← hsame₂.kmemKmem] at hslab₂
      constructor
      . rw [hcache₂, hsame₂.kmemKmem, hempty, if_neg (by omega)]
      . rw [hcache₂, hsame₂.kmemKmem, hpart, if_neg (by omega)]
      . rw [hcache₂, hsame₂.kmemKmem, h.full]
      . intro _
        rw [hnext₂, hnext]
      . intro _
        exact hslab₂
    . intro c _
      rw [hcache₂]

structure Booting (s : SlabMem) (page j : Nat) (recs : List SlabBlock) : Prop where
  boot : BootSlab s page j
  kept : s.Kept (s.kmemKmem :: recs.map SlabBlock.addr) (if j = 0 then [] else [page]) recs
  objSize : (s.cache s.kmemKmem).objSize = SIZEOF_KMEM_CACHE
  length : recs.length = j
  fresh : s.kmemKmem ∉ recs.map SlabBlock.addr
  lists : ∀ c ∈ recs.map SlabBlock.addr,
    (s.cache c).emptySlab = 0 ∧ (s.cache c).partialSlab = 0 ∧ (s.cache c).fullSlab = 0
  table : ∀ i, i < j → s.quickAllocTable i ∈ recs.map SlabBlock.addr ∧ (s.cache (s.quickAllocTable i)).objSize = 2 ^ i
  chain : Chain.Follows (fun c => (s.cache c).next) 0 (s.cache s.kmemKmem).next (recs.map SlabBlock.addr)

theorem objCount_pos_of_le {objSize : Nat} (h : objSize ≤ 2048) : 0 < objCount objSize := by
  apply Nat.div_pos
  . simp only [SLAB_SIZE, SIZEOF_SLAB, SIZEOF_FREE]
    omega
  . simp only [SIZEOF_FREE]
    omega

theorem Kept.block_mem (h : s.Kept caches pages blocks) {b : SlabBlock} (hb : b ∈ blocks)
    : ∃ p ∈ pages, IsPage p ∧ p ≤ b.addr ∧ b.addr < p + SLAB_SIZE := by
  obtain ⟨hkmem, -, p, hp, k, i, hslab, hi, haddr⟩ := h.block b hb
  have hcache := h.cache _ hkmem
  have hle := @CacheOk.object_le s _ p hcache i (Nat.lt_of_lt_of_le hi hslab.used_le)
  have hpos := hcache.objSize_pos
  refine ⟨p, hp, h.page p hp, ?_, ?_⟩
  . rw [haddr, node]
    omega
  . omega

def record (s : SlabMem) (kmem objSize flags : Nat) : SlabMem :=
  let s := s.setCache kmem {
    emptySlab := 0
    partialSlab := 0
    fullSlab := 0
    objSize
    objCountPerSlab := objCount objSize
    flags
    next := (s.cache s.kmemKmem).next
  }
  s.setCache s.kmemKmem { s.cache s.kmemKmem with next := kmem }

def register (s : SlabMem) (kmem objSize flags i : Nat) : SlabMem :=
  { s.record kmem objSize flags with
    quickAllocTable := fun j => if j = i then kmem else s.quickAllocTable j }

theorem Booting.register (h : Booting s page j recs) {flags : Nat} (hj : j < 12) (hsame : SameCaches s s')
    (hboot : BootSlab s' page (j + 1))
    (hkept : s'.Kept (s.kmemKmem :: recs.map SlabBlock.addr) [page] (⟨ret, s.kmemKmem, 0⟩ :: recs))
    (hother : ∀ c, c ≠ s.kmemKmem → s'.cache c = s.cache c) (hne : ret ≠ s.kmemKmem)
    (hnew : ret ∉ recs.map SlabBlock.addr) (hkernel : 0x80000000 ≤ ret)
    : Booting (s'.register ret (2 ^ j) flags j) page (j + 1) (⟨ret, s.kmemKmem, 0⟩ :: recs) := by
  have hself : (s'.register ret (2 ^ j) flags j).cache s.kmemKmem = { s'.cache s.kmemKmem with next := ret } := by
    simp [SlabMem.register, record, setCache, hsame.kmemKmem, hne.symm]
  have hret : (s'.register ret (2 ^ j) flags j).cache ret
      = ⟨0, 0, 0, 2 ^ j, objCount (2 ^ j), flags, (s'.cache s.kmemKmem).next⟩ := by
    simp [SlabMem.register, record, setCache, hsame.kmemKmem, hne]
  have hold : ∀ c ∈ recs.map SlabBlock.addr, (s'.register ret (2 ^ j) flags j).cache c = s.cache c := by
    intro c hc
    have hcK : c ≠ s.kmemKmem := ne_of_mem_of_not_mem hc h.fresh
    have hcret : c ≠ ret := ne_of_mem_of_not_mem hc hnew
    simp [SlabMem.register, record, setCache, hsame.kmemKmem, hcK, hcret, hother c hcK]
  have hK : (s'.register ret (2 ^ j) flags j).kmemKmem = s.kmemKmem := hsame.kmemKmem
  have hslab : (s'.register ret (2 ^ j) flags j).slab = s'.slab := rfl
  have hle : 2 ^ j ≤ 2 ^ 11 := Nat.pow_le_pow_right (by omega) (by omega)
  constructor
  . constructor
    . rw [hK, hself, ← hsame.kmemKmem]
      exact hboot.empty
    . rw [hK, hself, ← hsame.kmemKmem]
      exact hboot.part
    . rw [hK, hself, ← hsame.kmemKmem]
      exact hboot.full
    . rw [hslab]
      exact hboot.next
    . intro hj
      have hslabOk := hboot.slab hj
      rw [hK, IsSlab, hself]
      rw [hsame.kmemKmem] at hslabOk
      exact SlabOk.congr hslabOk rfl rfl rfl rfl (fun _ _ => rfl)
  . rw [hK, List.map_cons, if_neg (Nat.succ_ne_zero j)]
    refine Kept.congr hkept hslab (show _ = s'.free from rfl) ?_ ?_ ?_
    . intro c hc
      cases List.mem_cons.mp hc with
      | inl hc => rw [hc, hself]
      | inr hc =>
        rw [hold c hc, hother c (ne_of_mem_of_not_mem hc h.fresh)]
    . intro c hc
      cases List.mem_cons.mp hc with
      | inl hc => simp [hc]
      | inr hc => simp [hc]
    . intro c hc hnot
      have hc : c = ret := by
        simp only [List.mem_cons, not_or] at hc hnot
        exact (hc.resolve_left hnot.1).resolve_right hnot.2
      subst hc
      rw [hret]
      refine ⟨⟨hkernel, ?_, ?_, ?_⟩, rfl, rfl, rfl⟩
      . rw [hret]
        exact Nat.two_pow_pos j
      . rw [hret]
      . rw [hret]
        exact objCount_pos_of_le hle
  . rw [hK, hself, ← h.objSize]
    exact hsame.objSize _
  . rw [List.length_cons, h.length]
  . rw [hK, List.map_cons, List.mem_cons, not_or]
    exact ⟨hne.symm, h.fresh⟩
  . intro c hc
    cases List.mem_cons.mp hc with
    | inl hc =>
      rw [hc, hret]
      exact ⟨rfl, rfl, rfl⟩
    | inr hc =>
      rw [hold c hc]
      exact h.lists c hc
  . intro i hi
    have htable : (s'.register ret (2 ^ j) flags j).quickAllocTable i = if i = j then ret else s.quickAllocTable i := by
      simp only [SlabMem.register, hsame.quickAllocTable]
    rw [htable]
    split
    . next heq => exact ⟨List.mem_cons_self, by rw [hret, heq]⟩
    . next hne =>
      have hmem := h.table i (by omega)
      exact ⟨List.mem_cons_of_mem _ hmem.1, by rw [hold _ hmem.1]; exact hmem.2⟩
  . rw [hK, hself, List.map_cons]
    have hne : ret ≠ 0 := by omega
    refine ⟨rfl, hne, ?_⟩
    simp only [hret, hsame.next]
    apply h.chain.congr
    intro c hc
    rw [hold c hc]

theorem Booting.needsPage_iff (h : Booting s page j recs) (hpage : IsPage page) : NeedsPage s s.kmemKmem ↔ j = 0 := by
  have hne : page ≠ 0 := by
    have hkernel := hpage.kernel
    omega
  rw [NeedsPage, h.boot.part, h.boot.empty]
  grind

theorem Booting.addKmem (h : Booting s page j recs) (hpage : IsPage page)
    (hK : s.kmemKmem / SLAB_SIZE ≠ page / SLAB_SIZE) (hj : j < 12) (hpage' : j = 0 → page' = page) (flags : Nat)
    : ∃ kmem s',
        s.addKmem (2 ^ j) flags page' = some (kmem, s')
          ∧ s'.kmemKmem = s.kmemKmem
          ∧ Booting { s' with quickAllocTable := fun i => if i = j then kmem else s'.quickAllocTable i } page (j + 1)
            (⟨kmem, s.kmemKmem, 0⟩ :: recs) := by
  have hcount : (s.cache s.kmemKmem).objCountPerSlab = 113 := by
    rw [(h.kept.cache _ List.mem_cons_self).objCountPerSlab, h.objSize]
    rfl
  obtain ⟨ret, s₁, halloc, hboot, hother⟩ :=
    h.boot.allocFromKmem h.kept List.mem_cons_self hpage (by omega) hpage'
  have hneeds := h.needsPage_iff hpage
  obtain ⟨hsame, hkept⟩ := h.kept.allocFromKmem List.mem_cons_self (fun hn => by
    rw [hpage' (hneeds.mp hn), if_pos (hneeds.mp hn)]
    exact ⟨hpage, by simp⟩) (Nat.zero_le _) halloc
  have hpages : (if NeedsPage s s.kmemKmem then page' :: (if j = 0 then [] else [page]) else if j = 0 then [] else [page])
      = [page] := by
    by_cases hj0 : j = 0
    . rw [if_pos (hneeds.mpr hj0), if_pos hj0, hpage' hj0]
    . rw [if_neg (fun hn => hj0 (hneeds.mp hn)), if_neg hj0]
  rw [hpages] at hkept
  obtain ⟨p, hp, -, hle, hlt⟩ := hkept.block_mem List.mem_cons_self
  rw [List.mem_singleton] at hp
  subst hp
  have hne : ret ≠ s.kmemKmem := by
    have haligned := hpage.aligned
    simp only [SLAB_SIZE] at *
    omega
  have hnew : ret ∉ recs.map SlabBlock.addr := by
    have hnodup := hkept.nodup
    rw [List.map_cons, List.nodup_cons] at hnodup
    exact hnodup.1
  have hkernel : 0x80000000 ≤ ret := by
    have hkernel := hpage.kernel
    simp only at hle
    omega
  refine ⟨ret, s₁.record ret (2 ^ j) flags, ?_, hsame.kmemKmem, ?_⟩
  . simp only [SlabMem.addKmem, halloc, Option.bind_eq_bind, Option.bind_some, cacheAt_of_le hkernel]
    rfl
  . exact h.register hj hsame hboot hkept hother hne hnew hkernel

theorem Booting.loop (h : Booting s page j recs) {turns : Nat → Nat} {left : Nat} (hpage : IsPage page)
    (hK : s.kmemKmem / SLAB_SIZE ≠ page / SLAB_SIZE) (hleft : j + left = 12) (hturns : turns 0 = page)
    : ∃ s' recs', slabInit.loop s turns (2 ^ j) j left = some s' ∧ s'.kmemKmem = s.kmemKmem
        ∧ Booting s' page 12 recs' := by
  induction left generalizing s j recs with
  | zero =>
    obtain rfl : j = 12 := hleft
    exact ⟨s, recs, rfl, rfl, h⟩
  | succ left ih =>
    obtain ⟨kmem, s₁, hadd, hkmem, hbooting⟩ :=
      @Booting.addKmem s recs page (turns j) j h hpage hK (by omega) (fun hj => by rw [hj, hturns]) KMEM_FLAG_COMFORT
    obtain ⟨s', recs', hloop, hkmem', hbooting'⟩ := ih hbooting (by rwa [← hkmem] at hK) (by omega)
    refine ⟨s', recs', ?_, hkmem'.trans hkmem, hbooting'⟩
    rw [slabInit.loop, hadd]
    exact hloop

theorem booting_boot (free : Nat → FreeNode) (slab : Nat → SlabHeader) (cache : Nat → KmemCache) {kmemKmem : Nat}
    (hkernel : 0x80000000 ≤ kmemKmem) (page : Nat)
    : Booting (boot free slab cache kmemKmem) page 0 [] := by
  have hcache : (boot free slab cache kmemKmem).cache kmemKmem
      = ⟨0, 0, 0, SIZEOF_KMEM_CACHE, objCount SIZEOF_KMEM_CACHE, KMEM_FLAG_STRICT, 0⟩ := if_pos rfl
  constructor
  . constructor
    . rw [show (boot free slab cache kmemKmem).kmemKmem = kmemKmem from rfl, hcache]
      rfl
    . rw [show (boot free slab cache kmemKmem).kmemKmem = kmemKmem from rfl, hcache]
      rfl
    . rw [show (boot free slab cache kmemKmem).kmemKmem = kmemKmem from rfl, hcache]
    . intro h
      contradiction
    . intro h
      contradiction
  . have hok : (boot free slab cache kmemKmem).CacheOk kmemKmem := by
      constructor
      . exact hkernel
      . rw [hcache]
        decide
      . rw [hcache]
      . rw [hcache]
        decide
    have hcaches : ∀ c ∈ [kmemKmem], c = kmemKmem := fun c hc => List.mem_singleton.mp hc
    constructor
    . intro c hc
      rw [hcaches c hc]
      exact hok
    . intro c hc
      rw [hcaches c hc, hcache]
      exact Or.inl rfl
    . intro c hc
      rw [hcaches c hc, hcache]
      exact Or.inl rfl
    . intro c hc
      rw [hcaches c hc, hcache]
      exact Or.inl rfl
    all_goals simp
  . rw [show (boot free slab cache kmemKmem).kmemKmem = kmemKmem from rfl, hcache]
  . rfl
  . simp
  . simp
  . omega
  . rw [show (boot free slab cache kmemKmem).kmemKmem = kmemKmem from rfl, hcache]
    rfl

/--
Only the page of the first turn is used. `palloc` returns a page of the kernel, but not that of the variable `kmem_kmem`.
-/
theorem slabInit_booting (free : Nat → FreeNode) (slab : Nat → SlabHeader) (cache : Nat → KmemCache) {kmemKmem : Nat}
    {turns : Nat → Nat} (hkernel : 0x80000000 ≤ kmemKmem) (hpage : IsPage (turns 0))
    (hK : kmemKmem / SLAB_SIZE ≠ turns 0 / SLAB_SIZE)
    : ∃ s recs, (boot free slab cache kmemKmem).slabInit turns = some s ∧ s.kmemKmem = kmemKmem
        ∧ Booting s (turns 0) 12 recs := by
  exact (booting_boot free slab cache hkernel (turns 0)).loop hpage hK rfl rfl

end SlabMem
end Osproj
