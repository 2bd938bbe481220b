import Osproj.Mm.Lemmas.Slab

/-!
This module contains the invariant of the allocator as long as nothing is released: every slab page hands out its
objects in the order of their indices, and the blocks are the objects that were handed out.
-/

namespace Osproj

open Slab

namespace SlabMem

variable {s s' : SlabMem} {caches pages : List Nat} {blocks : List SlabBlock} {c p page ret : Nat}

structure CacheOk (s : SlabMem) (c : Nat) : Prop where
  kernel : 0x80000000 ≤ c
  objSize_pos : 0 < (s.cache c).objSize
  objCountPerSlab : (s.cache c).objCountPerSlab = objCount (s.cache c).objSize
  objCount_pos : 0 < (s.cache c).objCountPerSlab

def IsLink (s : SlabMem) (pages : List Nat) (c p : Nat) : Prop := p = 0 ∨ p ∈ pages ∧ (s.slab p).parent = c

def IsSlab (s : SlabMem) (p k c : Nat) : Prop := SlabOk s p (s.cache c).objCountPerSlab k c

def HandedOut (s : SlabMem) (pages : List Nat) (b : SlabBlock) : Prop :=
  ∃ p ∈ pages, ∃ k i, s.IsSlab p k b.kmem ∧ i < k
    ∧ b.addr = node p (s.cache b.kmem).objCountPerSlab + (s.cache b.kmem).objSize * i

structure Kept (s : SlabMem) (caches pages : List Nat) (blocks : List SlabBlock) : Prop where
  cache : ∀ c ∈ caches, s.CacheOk c
  empty : ∀ c ∈ caches, s.IsLink pages c (s.cache c).emptySlab
  part : ∀ c ∈ caches, s.IsLink pages c (s.cache c).partialSlab
  full : ∀ c ∈ caches, s.IsLink pages c (s.cache c).fullSlab
  page : ∀ p ∈ pages, IsPage p
  slab : ∀ p ∈ pages, ∃ c ∈ caches, ∃ k, s.IsSlab p k c
  next : ∀ p ∈ pages, s.IsLink pages (s.slab p).parent (s.slab p).next
  block : ∀ b ∈ blocks, b.kmem ∈ caches ∧ b.size ≤ (s.cache b.kmem).objSize ∧ s.HandedOut pages b
  nodup : (blocks.map SlabBlock.addr).Nodup

structure SameCaches (s s' : SlabMem) : Prop where
  kmemKmem : s'.kmemKmem = s.kmemKmem
  quickAllocTable : s'.quickAllocTable = s.quickAllocTable
  objSize : ∀ c, (s'.cache c).objSize = (s.cache c).objSize
  objCountPerSlab : ∀ c, (s'.cache c).objCountPerSlab = (s.cache c).objCountPerSlab
  next : ∀ c, (s'.cache c).next = (s.cache c).next

theorem SameCaches.refl (s : SlabMem) : SameCaches s s := by
  constructor <;> simp

theorem SameCaches.trans {s'' : SlabMem} (h : SameCaches s s') (h' : SameCaches s' s'') : SameCaches s s'' := by
  constructor
  . rw [h'.kmemKmem, h.kmemKmem]
  . rw [h'.quickAllocTable, h.quickAllocTable]
  . intro c
    rw [h'.objSize, h.objSize]
  . intro c
    rw [h'.objCountPerSlab, h.objCountPerSlab]
  . intro c
    rw [h'.next, h.next]

theorem CacheOk.sameCaches (h : s.CacheOk c) (hsame : SameCaches s s') : s'.CacheOk c := by
  constructor
  . exact h.kernel
  . rw [hsame.objSize]
    exact h.objSize_pos
  . rw [hsame.objCountPerSlab, hsame.objSize]
    exact h.objCountPerSlab
  . rw [hsame.objCountPerSlab]
    exact h.objCount_pos

theorem CacheOk.fit (h : s.CacheOk c)
    : node page (s.cache c).objCountPerSlab + (s.cache c).objSize * (s.cache c).objCountPerSlab
        ≤
      page + SLAB_SIZE := by
  rw [h.objCountPerSlab]
  exact node_objCount_le

theorem CacheOk.node_le (h : s.CacheOk c) : node page (s.cache c).objCountPerSlab ≤ page + SLAB_SIZE :=
  SlabMem.node_le h.objCountPerSlab

structure Relinked (s s' : SlabMem) : Prop where
  caches : SameCaches s s'
  free : s'.free = s.free
  start : ∀ p, (s'.slab p).start = (s.slab p).start
  freeCount : ∀ p, (s'.slab p).freeCount = (s.slab p).freeCount
  parent : ∀ p, (s'.slab p).parent = (s.slab p).parent
  freeLink : ∀ p, (s'.slab p).free = (s.slab p).free

namespace Relinked

theorem refl (s : SlabMem) : Relinked s s := by
  refine ⟨SameCaches.refl s, ?_, ?_, ?_, ?_, ?_⟩ <;> simp

theorem isLink (h : Relinked s s') (hlink : s.IsLink pages c p) : s'.IsLink pages c p := by
  rw [IsLink, h.parent]
  exact hlink

theorem isSlab {k : Nat} (h : Relinked s s') (hslab : s.IsSlab p k c) : s'.IsSlab p k c := by
  rw [IsSlab, h.caches.objCountPerSlab]
  apply SlabOk.congr hslab
  . exact h.start p
  . exact h.freeLink p
  . exact h.freeCount p
  . exact h.parent p
  . simp [h.free]

theorem kept (h : Relinked s s') (hkept : s.Kept caches pages blocks)
    (hempty : ∀ c ∈ caches, s.IsLink pages c (s'.cache c).emptySlab)
    (hpart : ∀ c ∈ caches, s.IsLink pages c (s'.cache c).partialSlab)
    (hfull : ∀ c ∈ caches, s.IsLink pages c (s'.cache c).fullSlab)
    (hnext : ∀ p ∈ pages, s.IsLink pages (s.slab p).parent (s'.slab p).next)
    : s'.Kept caches pages blocks := by
  constructor
  . intro c hc
    exact (hkept.cache c hc).sameCaches h.caches
  . intro c hc
    exact h.isLink (hempty c hc)
  . intro c hc
    exact h.isLink (hpart c hc)
  . intro c hc
    exact h.isLink (hfull c hc)
  . exact hkept.page
  . intro p hp
    cases hkept.slab p hp with
    | intro c hslab => exact ⟨c, hslab.1, hslab.2.imp (fun k hk => h.isSlab hk)⟩
  . intro p hp
    rw [h.parent]
    exact h.isLink (hnext p hp)
  . intro b hb
    cases hkept.block b hb with
    | intro hkmem hrest =>
      refine ⟨hkmem, ?_, ?_⟩
      . rw [h.caches.objSize]
        exact hrest.1
      . simp only [HandedOut, h.caches.objSize, h.caches.objCountPerSlab]
        obtain ⟨p, hp, k, i, hslab, hi⟩ := hrest.2
        exact ⟨p, hp, k, i, h.isSlab hslab, hi⟩
  . exact hkept.nodup

end Relinked

def adopt (s : SlabMem) (c page : Nat) : SlabMem :=
  let s := s.setSlab page { s.slab page with parent := c }
  s.setCache c { s.cache c with emptySlab := page }

theorem IsSlab.unique {k k' c' : Nat} (h : s.IsSlab p k c) (h' : s.IsSlab p k' c') : c = c' ∧ k = k' := by
  have hc : c = c' := by rw [← h.parent, h'.parent]
  subst hc
  have hk := h.freeCount
  have hk' := h'.freeCount
  omega

theorem CacheOk.object_le (h : s.CacheOk c) {i : Nat} (hi : i < (s.cache c).objCountPerSlab)
    : node p (s.cache c).objCountPerSlab + (s.cache c).objSize * i + (s.cache c).objSize ≤ p + SLAB_SIZE := by
  have hfit := @CacheOk.fit s c p h
  have hle : (s.cache c).objSize * (i + 1) ≤ (s.cache c).objSize * (s.cache c).objCountPerSlab :=
    Nat.mul_le_mul_left _ hi
  rw [Nat.mul_succ] at hle
  omega

theorem object_disjoint {p' c' i i' : Nat} (hc : s.CacheOk c) (hc' : s.CacheOk c') (hp : IsPage p) (hp' : IsPage p')
    (hi : i < (s.cache c).objCountPerSlab) (hi' : i' < (s.cache c').objCountPerSlab)
    (hne : p ≠ p' ∨ c = c' ∧ i ≠ i')
    : node p (s.cache c).objCountPerSlab + (s.cache c).objSize * i + (s.cache c).objSize
          ≤ node p' (s.cache c').objCountPerSlab + (s.cache c').objSize * i'
        ∨ node p' (s.cache c').objCountPerSlab + (s.cache c').objSize * i' + (s.cache c').objSize
          ≤ node p (s.cache c).objCountPerSlab + (s.cache c).objSize * i := by
  by_cases hpage : p = p'
  . obtain ⟨rfl, hine⟩ : c = c' ∧ i ≠ i' := hne.resolve_left (not_not_intro hpage)
    subst hpage
    cases Nat.lt_or_gt_of_ne hine with
    | inl hlt =>
      have hle : (s.cache c).objSize * (i + 1) ≤ (s.cache c).objSize * i' := Nat.mul_le_mul_left _ hlt
      rw [Nat.mul_succ] at hle
      omega
    | inr hlt =>
      have hle : (s.cache c).objSize * (i' + 1) ≤ (s.cache c).objSize * i := Nat.mul_le_mul_left _ hlt
      rw [Nat.mul_succ] at hle
      omega
  . have hdiv := hp.div_ne hp' hpage
    have haligned := hp.aligned
    have haligned' := hp'.aligned
    have hle := @CacheOk.object_le s c p hc i hi
    have hle' := @CacheOk.object_le s c' p' hc' i' hi'
    simp only [node, SLAB_SIZE, SIZEOF_SLAB] at *
    omega

theorem relinked_relink (kmem head e q f x : Nat)
    : Relinked s
        ((s.setCache kmem { s.cache kmem with emptySlab := e, partialSlab := q, fullSlab := f }).setSlab head
          { s.slab head with next := x }) := by
  constructor
  . constructor
    . rfl
    . rfl
    . exact field_setCache KmemCache.objSize rfl
    . exact field_setCache KmemCache.objCountPerSlab rfl
    . exact field_setCache KmemCache.next rfl
  . rfl
  . exact field_setSlab SlabHeader.start rfl
  . exact field_setSlab SlabHeader.freeCount rfl
  . exact field_setSlab SlabHeader.parent rfl
  . exact field_setSlab SlabHeader.free rfl

theorem IsSlab.next_object {k : Nat} (h : s.IsSlab p k c) (hk : k < (s.cache c).objCountPerSlab)
    : (s.setSlab p { s.slab p with
        free := if k + 1 < (s.cache c).objCountPerSlab then node p (k + 1) else 0
        freeCount := (s.cache c).objCountPerSlab - (k + 1) }).IsSlab p (k + 1) c :=
  SlabOk.next_object h hk

theorem IsSlab.setSlab_of_ne {k q : Nat} {header : SlabHeader} (h : s.IsSlab q k c) (hne : q ≠ p)
    : (s.setSlab p header).IsSlab q k c := by
  apply SlabOk.congr h <;> simp [setSlab, hne]

theorem adopt_creatSlab (s : SlabMem) {page : Nat} (hpage : IsPage page) (hpos : 0 < (s.cache c).objCountPerSlab)
    (hfit : node page (s.cache c).objCountPerSlab ≤ page + SLAB_SIZE)
    : ∃ s',
        s.creatSlab page (s.cache c).objCountPerSlab = some s'
          ∧ (s'.adopt c page).cache = (s.setCache c { s.cache c with emptySlab := page }).cache
          ∧ (s'.adopt c page).IsSlab page 0 c
          ∧ ((s'.adopt c page).slab page).next = 0
          ∧ (∀ q, q ≠ page → (s'.adopt c page).slab q = s.slab q)
          ∧ SameOff page s s' := by
  obtain ⟨s', hcreat, hok, hnext, hsame⟩ := slabOk_creatSlab s hpage hpos hfit
  have hcaches : (s'.adopt c page).cache = (s.setCache c { s.cache c with emptySlab := page }).cache := by
    simp only [adopt, setCache, setSlab, hsame.cache]
  have hcount : ((s'.adopt c page).cache c).objCountPerSlab = (s.cache c).objCountPerSlab := by
    simp [hcaches, setCache]
  refine ⟨s', hcreat, hcaches, ?_, ?_, ?_, hsame⟩
  . rw [IsSlab, hcount]
    exact (hok.setParent c).congr rfl rfl rfl rfl (fun _ _ => rfl)
  . simpa [adopt, setCache, setSlab] using hnext
  . intro q hq
    simp only [adopt, setCache, setSlab, hq, if_false]
    exact hsame.slab q hq

namespace Kept

theorem relink (h : s.Kept caches pages blocks) {kmem head e q f x : Nat}
    (hparent : (s.slab head).parent = kmem) (he : s.IsLink pages kmem e) (hq : s.IsLink pages kmem q)
    (hf : s.IsLink pages kmem f) (hx : s.IsLink pages kmem x)
    : ((s.setCache kmem { s.cache kmem with emptySlab := e, partialSlab := q, fullSlab := f }).setSlab head
        { s.slab head with next := x }).Kept caches pages blocks := by
  apply (relinked_relink kmem head e q f x).kept h
  . intro c hc
    simp only [setSlab, setCache]
    split
    . next heq =>
      rw [heq]
      exact he
    . exact h.empty c hc
  . intro c hc
    simp only [setSlab, setCache]
    split
    . next heq =>
      rw [heq]
      exact hq
    . exact h.part c hc
  . intro c hc
    simp only [setSlab, setCache]
    split
    . next heq =>
      rw [heq]
      exact hf
    . exact h.full c hc
  . intro p hp
    simp only [setSlab, setCache]
    split
    . next heq =>
      rw [heq, hparent]
      exact hx
    . exact h.next p hp

theorem fromPartial (h : s.Kept caches pages blocks) {kmem head : Nat} (hk : kmem ∈ caches) (hhead : head ∈ pages)
    (hparent : (s.slab head).parent = kmem)
    : (s.fromPartial kmem head).Kept caches pages blocks := by
  rw [SlabMem.fromPartial]
  split
  . apply h.relink hparent (h.empty kmem hk) _ (Or.inr ⟨hhead, hparent⟩) (h.full kmem hk)
    rw [← hparent]
    exact h.next head hhead
  . exact h

theorem fromEmpty (h : s.Kept caches pages blocks) {kmem head : Nat} (hk : kmem ∈ caches) (hhead : head ∈ pages)
    (hparent : (s.slab head).parent = kmem)
    : (s.fromEmpty kmem head).Kept caches pages blocks := by
  have hnext : s.IsLink pages kmem (s.slab head).next := by
    rw [← hparent]
    exact h.next head hhead
  rw [SlabMem.fromEmpty]
  split
  . exact h.relink hparent hnext (h.part kmem hk) (Or.inr ⟨hhead, hparent⟩) (h.full kmem hk)
  . exact h.relink hparent hnext (Or.inr ⟨hhead, hparent⟩) (h.full kmem hk) (h.part kmem hk)

theorem allocFromSlab (h : s.Kept caches pages blocks) {k size : Nat} (hc : c ∈ caches) (hp : p ∈ pages)
    (hslab : s.IsSlab p k c) (hk : k < (s.cache c).objCountPerSlab) (hsize : size ≤ (s.cache c).objSize)
    : ∃ s',
        s.allocFromSlab p (s.cache c).objSize
            =
          some (node p (s.cache c).objCountPerSlab + (s.cache c).objSize * k, s')
          ∧ s'.cache = s.cache
          ∧ SameCaches s s'
          ∧ s'.IsSlab p (k + 1) c
          ∧ (∀ q, (s'.slab q).next = (s.slab q).next)
          ∧ s'.Kept caches pages
            (⟨node p (s.cache c).objCountPerSlab + (s.cache c).objSize * k, c, size⟩ :: blocks) := by
  have hcache := h.cache c hc
  have hpage := h.page p hp
  refine ⟨_, hslab.allocFromSlab_eq hpage hk hcache.fit, rfl, ?_, hslab.next_object hk, ?_, ?_⟩
  . constructor <;> simp [setSlab]
  . exact field_setSlab SlabHeader.next rfl
  . have hslab' := hslab.next_object hk
    generalize hheader : ({ s.slab p with
      free := if k + 1 < (s.cache c).objCountPerSlab then node p (k + 1) else 0
      freeCount := (s.cache c).objCountPerSlab - (k + 1) } : SlabHeader) = header at *
    have hparent := @field_setSlab s p _ SlabHeader.parent header (by rw [← hheader])
    have hnext := @field_setSlab s p _ SlabHeader.next header (by rw [← hheader])
    -- the other blocks of the page have smaller indices
    have hblock : ∀ b ∈ blocks, (s.setSlab p header).HandedOut pages b
        ∧ b.addr ≠ node p (s.cache c).objCountPerSlab + (s.cache c).objSize * k := by
      intro b hb
      obtain ⟨hkmem, -, q, hq, k', i, hslabq, hi, haddr⟩ := h.block b hb
      have hcacheb := h.cache b.kmem hkmem
      have hin : i < (s.cache b.kmem).objCountPerSlab := Nat.lt_of_lt_of_le hi hslabq.used_le
      by_cases hpq : q = p
      . subst hpq
        obtain ⟨hceq, hkeq⟩ := hslab.unique hslabq
        refine ⟨⟨q, hq, k + 1, i, hceq ▸ hslab', by omega, haddr⟩, ?_⟩
        have hdisjoint := object_disjoint hcacheb hcache hpage hpage hin hk (Or.inr ⟨hceq.symm, by omega⟩)
        have hpos := hcache.objSize_pos
        have hpos' := hcacheb.objSize_pos
        omega
      . refine ⟨⟨q, hq, k', i, hslabq.setSlab_of_ne hpq, hi, haddr⟩, ?_⟩
        have hdisjoint := object_disjoint hcacheb hcache (h.page q hq) hpage hin hk (Or.inl hpq)
        have hpos := hcache.objSize_pos
        have hpos' := hcacheb.objSize_pos
        omega
    constructor
    . intro c hc
      apply (h.cache c hc).sameCaches
      constructor <;> simp [setSlab]
    . intro c hc
      simp only [IsLink, hparent]
      exact h.empty c hc
    . intro c hc
      simp only [IsLink, hparent]
      exact h.part c hc
    . intro c hc
      simp only [IsLink, hparent]
      exact h.full c hc
    . exact h.page
    . intro q hq
      by_cases hpq : q = p
      . subst hpq
        exact ⟨c, hc, k + 1, hslab'⟩
      . obtain ⟨c', hc', k', hk'⟩ := h.slab q hq
        exact ⟨c', hc', k', hk'.setSlab_of_ne hpq⟩
    . intro q hq
      simp only [IsLink, hparent, hnext]
      exact h.next q hq
    . intro b hb
      cases List.mem_cons.mp hb with
      | inl heq =>
        subst heq
        exact ⟨hc, hsize, p, hp, k + 1, k, hslab', Nat.lt_succ_self k, rfl⟩
      | inr hb =>
        obtain ⟨hkmem, hsizeb, -⟩ := h.block b hb
        exact ⟨hkmem, hsizeb, (hblock b hb).1⟩
    . rw [List.map_cons, List.nodup_cons]
      refine ⟨?_, h.nodup⟩
      intro hmem
      obtain ⟨b, hb, heq⟩ := List.mem_map.mp hmem
      exact (hblock b hb).2 heq

theorem grow (h : s.Kept caches pages blocks) (hc : c ∈ caches) (hpage : IsPage page) (hfresh : page ∉ pages)
    : ∃ s',
        s.creatSlab page (s.cache c).objCountPerSlab = some s'
          ∧ SameCaches s (s'.adopt c page)
          ∧ (s'.adopt c page).IsSlab page 0 c
          ∧ ((s'.adopt c page).slab page).next = 0
          ∧ (s'.adopt c page).cache = (s.setCache c { s.cache c with emptySlab := page }).cache
          ∧ (s'.adopt c page).Kept caches (page :: pages) blocks := by
  have hcache := h.cache c hc
  obtain ⟨s', hs', hcaches, hnew, hnext, hslab, hsame⟩ :=
    adopt_creatSlab s hpage hcache.objCount_pos hcache.node_le
  have hsizes : SameCaches s (s'.adopt c page) := by
    constructor
    . exact hsame.kmemKmem
    . exact hsame.quickAllocTable
    all_goals
      intro a
      rw [hcaches]
    . apply field_setCache KmemCache.objSize
      rfl
    . apply field_setCache KmemCache.objCountPerSlab
      rfl
    . apply field_setCache KmemCache.next
      rfl
  have hpages : ∀ q ∈ pages, q ≠ page := fun q hq => ne_of_mem_of_not_mem hq hfresh
  have hlink : ∀ c' q, s.IsLink pages c' q → (s'.adopt c page).IsLink (page :: pages) c' q := by
    intro c' q hq
    cases hq with
    | inl hq => exact Or.inl hq
    | inr hq =>
      right
      rw [hslab q (hpages q hq.1)]
      exact ⟨List.mem_cons_of_mem _ hq.1, hq.2⟩
  have hold : ∀ q ∈ pages, ∀ c' ∈ caches, ∀ k, s.IsSlab q k c' → (s'.adopt c page).IsSlab q k c' := by
    intro q hq c' hc' k hk
    have hoff := SlabOk.sameOff hk (h.page q hq) hpage (hpages q hq) (h.cache c' hc').node_le hsame
    rw [IsSlab, hsizes.objCountPerSlab]
    apply SlabOk.congr hoff <;> simp [adopt, setCache, setSlab, hpages q hq]
  refine ⟨s', hs', hsizes, hnew, hnext, hcaches, ?_⟩
  . constructor
    . intro c' hc'
      exact (h.cache c' hc').sameCaches hsizes
    . intro c' hc'
      simp only [hcaches, setCache]
      split
      . next heq =>
        right
        rw [heq]
        exact ⟨List.mem_cons_self, hnew.parent⟩
      . exact hlink _ _ (h.empty c' hc')
    . intro c' hc'
      simp only [hcaches, setCache]
      split
      . next heq =>
        rw [heq]
        exact hlink _ _ (h.part c hc)
      . exact hlink _ _ (h.part c' hc')
    . intro c' hc'
      simp only [hcaches, setCache]
      split
      . next heq =>
        rw [heq]
        exact hlink _ _ (h.full c hc)
      . exact hlink _ _ (h.full c' hc')
    . intro q hq
      cases List.mem_cons.mp hq with
      | inl heq => exact heq ▸ hpage
      | inr hq => exact h.page q hq
    . intro q hq
      cases List.mem_cons.mp hq with
      | inl heq => exact ⟨c, hc, 0, heq ▸ hnew⟩
      | inr hq =>
        obtain ⟨c', hc', k, hk⟩ := h.slab q hq
        exact ⟨c', hc', k, hold q hq c' hc' k hk⟩
    . intro q hq
      cases List.mem_cons.mp hq with
      | inl heq =>
        left
        rw [heq]
        exact hnext
      | inr hq =>
        rw [hslab q (hpages q hq)]
        exact hlink _ _ (h.next q hq)
    . intro b hb
      obtain ⟨hkmem, hsize, q, hq, k, i, hk, hi⟩ := h.block b hb
      refine ⟨hkmem, ?_, q, List.mem_cons_of_mem _ hq, k, i, hold q hq _ hkmem k hk, ?_⟩
      . rw [hsizes.objSize]
        exact hsize
      . rw [hsizes.objSize, hsizes.objCountPerSlab]
        exact hi
    . exact h.nodup

end Kept

open SlabHeap in
theorem allocFromKmem_of_needsPage (hkernel : 0x80000000 ≤ c) (hneeds : NeedsPage s c)
    : s.allocFromKmem c page
        =
      (s.creatSlab page (s.cache c).objCountPerSlab).bind fun s' =>
        ((s'.adopt c page).allocFromSlab page (s.cache c).objSize).map fun r => (r.1, r.2.fromPartial c page) := by
  simp only [allocFromKmem, cacheAt_of_le hkernel, Option.bind_eq_bind, Option.bind_some, hneeds.1, hneeds.2, if_true]
  simp only [Option.map_eq_bind]
  rfl

theorem allocFromKmem_of_empty (hkernel : 0x80000000 ≤ c) (hpart : (s.cache c).partialSlab = 0)
    (hempty : (s.cache c).emptySlab ≠ 0)
    : s.allocFromKmem c page
        =
      (s.allocFromSlab (s.cache c).emptySlab (s.cache c).objSize).map fun r =>
        (r.1, r.2.fromEmpty c (s.cache c).emptySlab) := by
  simp only [allocFromKmem, cacheAt_of_le hkernel, Option.bind_eq_bind, Option.bind_some, hpart, hempty, if_true,
    if_false, Option.map_eq_bind]
  rfl

theorem allocFromKmem_of_part (hkernel : 0x80000000 ≤ c) (hpart : (s.cache c).partialSlab ≠ 0)
    : s.allocFromKmem c page
        =
      (s.allocFromSlab (s.cache c).partialSlab (s.cache c).objSize).map fun r =>
        (r.1, r.2.fromPartial c (s.cache c).partialSlab) := by
  simp only [allocFromKmem, cacheAt_of_le hkernel, Option.bind_eq_bind, Option.bind_some, hpart, if_false,
    Option.map_eq_bind]
  rfl

theorem IsSlab.lt_of_allocFromSlab {k objSize : Nat} {r : Nat × SlabMem} (h : s.IsSlab p k c)
    (halloc : s.allocFromSlab p objSize = some r)
    : k < (s.cache c).objCountPerSlab := by
  apply SlabOk.lt_of_freeAt h
  intro hnone
  simp only [allocFromSlab, Option.bind_eq_bind, Option.bind_eq_some_iff] at halloc
  obtain ⟨header, hheader, alloc, halloc, -⟩ := halloc
  simp only [slabAt] at hheader
  split at hheader
  . contradiction
  . rw [← Option.some.inj hheader, hnone] at halloc
    contradiction

theorem relinked_fromPartial (s : SlabMem) (kmem head : Nat) : Relinked s (s.fromPartial kmem head) := by
  rw [fromPartial]
  split
  . exact relinked_relink kmem head _ _ _ _
  . exact Relinked.refl s

theorem relinked_fromEmpty (s : SlabMem) (kmem head : Nat) : Relinked s (s.fromEmpty kmem head) := by
  rw [fromEmpty]
  split <;> exact relinked_relink kmem head _ _ _ _

theorem Kept.of_allocFromSlab (h : s.Kept caches pages blocks) {size : Nat} {r : Nat × SlabMem} (hc : c ∈ caches)
    (hlink : s.IsLink pages c p) (hne : p ≠ 0) (hsize : size ≤ (s.cache c).objSize)
    (halloc : s.allocFromSlab p (s.cache c).objSize = some r)
    : p ∈ pages
        ∧ SameCaches s r.2
        ∧ (r.2.slab p).parent = c
        ∧ r.2.Kept caches pages (⟨r.1, c, size⟩ :: blocks) := by
  obtain ⟨hmem, hparent⟩ := hlink.resolve_left hne
  obtain ⟨c', -, k, hslab⟩ := h.slab p hmem
  obtain rfl : c' = c := by rw [← hslab.parent, hparent]
  obtain ⟨s₂, heq, -, hsame₂, hslab₂, -, hkept₂⟩ :=
    h.allocFromSlab hc hmem hslab (hslab.lt_of_allocFromSlab halloc) hsize
  rw [heq] at halloc
  rw [← Option.some.inj halloc]
  exact ⟨hmem, hsame₂, hslab₂.parent, hkept₂⟩

open SlabHeap in
theorem Kept.allocFromKmem (h : s.Kept caches pages blocks) {size : Nat} (hc : c ∈ caches)
    (hpage : NeedsPage s c → IsPage page ∧ page ∉ pages) (hsize : size ≤ (s.cache c).objSize)
    (halloc : s.allocFromKmem c page = some (ret, s'))
    : SameCaches s s'
        ∧ s'.Kept caches (if NeedsPage s c then page :: pages else pages) (⟨ret, c, size⟩ :: blocks) := by
  have hcache := h.cache c hc
  by_cases hpart : (s.cache c).partialSlab = 0
  . by_cases hempty : (s.cache c).emptySlab = 0
    . have hneeds : NeedsPage s c := ⟨hpart, hempty⟩
      obtain ⟨hpage, hfresh⟩ := hpage hneeds
      obtain ⟨s₁, hcreat, hsame₁, hslab₁, -, -, hkept₁⟩ := h.grow hc hpage hfresh
      rw [if_pos hneeds]
      rw [allocFromKmem_of_needsPage hcache.kernel hneeds, hcreat, Option.bind_some, Option.map_eq_some_iff] at halloc
      obtain ⟨r, halloc, hr⟩ := halloc
      have hpos := (hkept₁.cache c hc).objCount_pos
      have hsize₁ : size ≤ ((s₁.adopt c page).cache c).objSize := by
        rw [hsame₁.objSize]
        exact hsize
      obtain ⟨s₂, heq, -, hsame₂, hslab₂, -, hkept₂⟩ :=
        hkept₁.allocFromSlab hc List.mem_cons_self hslab₁ hpos hsize₁
      rw [hsame₁.objSize] at heq
      rw [heq] at halloc
      rw [← Option.some.inj halloc, Prod.mk.injEq] at hr
      rw [← hr.1, ← hr.2]
      constructor
      . exact (hsame₁.trans hsame₂).trans (relinked_fromPartial s₂ c page).caches
      . exact hkept₂.fromPartial hc List.mem_cons_self hslab₂.parent
    . rw [if_neg (fun hneeds => hempty hneeds.2)]
      rw [allocFromKmem_of_empty hcache.kernel hpart hempty, Option.map_eq_some_iff] at halloc
      obtain ⟨r, halloc, hr⟩ := halloc
      obtain ⟨hmem, hsame, hparent, hkept⟩ := h.of_allocFromSlab hc (h.empty c hc) hempty hsize halloc
      obtain ⟨rfl, rfl⟩ := Prod.mk.inj hr
      constructor
      . exact hsame.trans (relinked_fromEmpty r.2 c _).caches
      . exact hkept.fromEmpty hc hmem hparent
  . rw [if_neg (fun hneeds => hpart hneeds.1)]
    rw [allocFromKmem_of_part hcache.kernel hpart, Option.map_eq_some_iff] at halloc
    obtain ⟨r, halloc, hr⟩ := halloc
    obtain ⟨hmem, hsame, hparent, hkept⟩ := h.of_allocFromSlab hc (h.part c hc) hpart hsize halloc
    obtain ⟨rfl, rfl⟩ := Prod.mk.inj hr
    constructor
    . exact hsame.trans (relinked_fromPartial r.2 c _).caches
    . exact hkept.fromPartial hc hmem hparent

end SlabMem
end Osproj
