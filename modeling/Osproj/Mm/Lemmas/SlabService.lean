import Osproj.Mm.Lemmas.SlabRuns

/-!
This module contains when `kmalloc` comes back. It does not check what `palloc` returns, it reads behind the table for
the largest size it accepts, and it takes an object from the front slab of a cache even if that one is full.
-/

namespace Osproj

open Slab

namespace SlabMem

open SlabHeap

variable {s s' : SlabMem} {caches pages : List Nat} {blocks recs : List SlabBlock} {c page size : Nat}

/--
The slab that an allocation takes an object from, if it does not need a new one.
-/
def front (s : SlabMem) (c : Nat) : Nat :=
  if (s.cache c).partialSlab ≠ 0 then (s.cache c).partialSlab else (s.cache c).emptySlab

theorem allocFromKmem_null (hkernel : 0x80000000 ≤ c) (hneeds : NeedsPage s c) : s.allocFromKmem c 0 = none := by
  rw [allocFromKmem_of_needsPage hkernel hneeds]
  rfl

theorem Kept.exists_allocFromSlab (h : s.Kept caches pages blocks) {p : Nat} (hc : c ∈ caches)
    (hlink : s.IsLink pages c p) (hne : p ≠ 0)
    : (∃ r, s.allocFromSlab p (s.cache c).objSize = some r) ↔ (s.slab p).freeCount ≠ 0 := by
  obtain ⟨hmem, hparent⟩ := hlink.resolve_left hne
  obtain ⟨c', -, k, hslab⟩ := h.slab p hmem
  obtain rfl : c' = c := by rw [← hslab.parent, hparent]
  have hcount := hslab.freeCount
  constructor
  . rintro ⟨r, halloc⟩
    have hlt := hslab.lt_of_allocFromSlab halloc
    omega
  . intro hfree
    obtain ⟨s', halloc, -⟩ := h.allocFromSlab hc hmem hslab (by omega) (Nat.zero_le _)
    exact ⟨_, halloc⟩

theorem Kept.exists_allocFromKmem (h : s.Kept caches pages blocks) (hc : c ∈ caches)
    (hpage : page = 0 ∨ IsPage page ∧ page ∉ pages)
    : (∃ r, s.allocFromKmem c page = some r)
        ↔
      if NeedsPage s c then page ≠ 0 else (s.slab (s.front c)).freeCount ≠ 0 := by
  have hcache := h.cache c hc
  by_cases hneeds : NeedsPage s c
  . rw [if_pos hneeds]
    constructor
    . rintro ⟨r, halloc⟩ rfl
      rw [allocFromKmem_null hcache.kernel hneeds] at halloc
      cases halloc
    . intro hne
      obtain ⟨hpage, hfresh⟩ := hpage.resolve_left hne
      obtain ⟨s₁, hcreat, hsame₁, hslab₁, -, -, hkept₁⟩ := h.grow hc hpage hfresh
      have hpos := (hkept₁.cache c hc).objCount_pos
      obtain ⟨s₂, halloc, -⟩ := hkept₁.allocFromSlab hc List.mem_cons_self hslab₁ hpos (Nat.zero_le _)
      rw [hsame₁.objSize] at halloc
      exact ⟨_, by rw [allocFromKmem_of_needsPage hcache.kernel hneeds, hcreat, Option.bind_some, halloc,
        Option.map_some]⟩
  . rw [if_neg hneeds, front]
    by_cases hpart : (s.cache c).partialSlab = 0
    . have hempty : (s.cache c).emptySlab ≠ 0 := fun hempty => hneeds ⟨hpart, hempty⟩
      rw [if_neg (not_not_intro hpart), ← h.exists_allocFromSlab hc (h.empty c hc) hempty,
        allocFromKmem_of_empty hcache.kernel hpart hempty]
      simp only [Option.map_eq_some_iff]
      exact ⟨fun ⟨_, r, hr, _⟩ => ⟨r, hr⟩, fun ⟨r, hr⟩ => ⟨_, r, hr, rfl⟩⟩
    . rw [if_pos hpart, ← h.exists_allocFromSlab hc (h.part c hc) hpart, allocFromKmem_of_part hcache.kernel hpart]
      simp only [Option.map_eq_some_iff]
      exact ⟨fun ⟨_, r, hr, _⟩ => ⟨r, hr⟩, fun ⟨r, hr⟩ => ⟨_, r, hr, rfl⟩⟩

end SlabMem

namespace SlabHeap

open SlabMem

variable {h h' : SlabHeap} {caches : List Nat} {recs : List SlabBlock} {fuel size page : Nat}

/--
What the calls are given if `palloc` may also return `NULL`.
-/
def Offered (fuel : Nat) (h : SlabHeap) : SlabOp → Prop
  | .kmalloc size page => page = 0 ∨ h.PageOk page (h.mem.kmemFor fuel size.toNat KMEM_FLAG_COMFORT 0)
  | .kmallocS size page => page = 0 ∨ h.PageOk page (h.mem.kmemFor fuel size.toNat KMEM_FLAG_STRICT 0)
  | .qsmalloc quickalloc page =>
    (quickalloc = 0 ∨ h.mem.IsCache quickalloc)
      ∧ (page = 0 ∨ h.PageOk page (h.mem.kmemFor fuel 0 KMEM_FLAG_STRICT quickalloc))
  | .kfree i => i < h.live.length

/--
`kmalloc` comes back with a block of its own that is large enough, or with `NULL` for one of the two reasons and
everything as it was.
-/
def KmallocOk (fuel : Nat) (h : SlabHeap) (size page : Nat) : Prop :=
  ∃ ret mem, h.mem.kmalloc fuel size page = some (ret, mem)
    ∧ ((ret ≠ 0 ∧ ∃ kmem, (h.allocated (some kmem) size page ret mem).Safe)
      ∨ (ret = 0 ∧ mem = h.mem ∧ (size > SLAB_SIZE / 2 ∨ page = 0)))

/--
The size is refused, or it has a cache that needs a page and gets one or has a front slab that is not full.
-/
def Serves (h : SlabHeap) (size page : Nat) : Prop :=
  size > SLAB_SIZE / 2
    ∨ size ≠ SLAB_SIZE / 2 ∧ ∃ kmem, h.mem.comfortKmem size 0 12 = some kmem
      ∧ if NeedsPage h.mem kmem then page ≠ 0 else (h.mem.slab (h.mem.front kmem)).freeCount ≠ 0

theorem Inv.pageOk (hinv : Inv caches recs h) {flags quickalloc : Nat} {r : Nat × SlabMem}
    (hquick : quickalloc = 0 ∨ quickalloc ∈ caches ∧ size = 0)
    (hpage : page = 0 ∨ h.PageOk page (h.mem.kmemFor fuel size flags quickalloc))
    (hret : h.mem.kmallocFlags fuel size flags quickalloc page = some r)
    : h.PageOk page (h.mem.kmemFor fuel size flags quickalloc) := by
  cases hpage with
  | inr hpage => exact hpage
  | inl hpage =>
    subst hpage
    cases hkmem : h.mem.kmemFor fuel size flags quickalloc with
    | none => trivial
    | some kmem =>
      cases kmem with
      | none => trivial
      | some kmem =>
        intro hneeds
        have hmem := (hinv.ready.kmemFor_mem hinv.kernel hquick hkmem).1
        simp only [kmallocFlags, hkmem, Option.bind_eq_bind, Option.bind_some,
          allocFromKmem_null (hinv.kernel kmem hmem) hneeds] at hret
        cases hret

theorem Inv.allowed (hinv : Inv caches recs h) {op : SlabOp} (hop : Offered fuel h op)
    (hstep : h.step fuel op = some h')
    : Allowed fuel h op := by
  cases op with
  | kmalloc size page =>
    simp only [SlabHeap.step, Option.bind_eq_bind, Option.bind_eq_some_iff] at hstep
    obtain ⟨kmem, -, r, hret, -⟩ := hstep
    exact hinv.pageOk (Or.inl rfl) hop hret
  | kmallocS size page =>
    simp only [SlabHeap.step, Option.bind_eq_bind, Option.bind_eq_some_iff] at hstep
    obtain ⟨kmem, -, r, hret, -⟩ := hstep
    exact hinv.pageOk (Or.inl rfl) hop hret
  | qsmalloc quickalloc page =>
    simp only [SlabHeap.step, Option.bind_eq_bind, Option.bind_eq_some_iff] at hstep
    obtain ⟨kmem, -, r, hret, -⟩ := hstep
    refine ⟨hop.1, hinv.pageOk (hop.1.imp_right ?_) hop.2 hret⟩
    intro hcache
    exact ⟨hinv.ready.mem_of_isCache hcache, rfl⟩
  | kfree i => exact hop

theorem comfortKmem_half (s : SlabMem) : s.comfortKmem (SLAB_SIZE / 2) 0 12 = none := by
  simp [comfortKmem, SLAB_SIZE]

theorem kmemFor_comfort (hsize : ¬ size > SLAB_SIZE / 2) (s : SlabMem)
    : s.kmemFor fuel size KMEM_FLAG_COMFORT 0 = (s.comfortKmem size 0 12).map some := by
  rw [kmemFor, if_neg hsize, if_pos rfl, Option.map_eq_bind]
  rfl

theorem not_kmallocOk_of_half (hsize : size = SLAB_SIZE / 2) : ¬ KmallocOk fuel h size page := by
  rintro ⟨ret, mem, hret, -⟩
  have hfor := @kmemFor_comfort fuel size (by omega) h.mem
  rw [hsize, comfortKmem_half, Option.map_none] at hfor
  rw [hsize] at hret
  simp [kmalloc, kmallocFlags, hfor] at hret

theorem Inv.kmalloc_iff (hinv : Inv caches recs h) (hpage : page = 0 ∨ IsPage page ∧ page ∉ h.pages)
    : KmallocOk fuel h size page ↔ h.Serves size page := by
  by_cases hbig : size > SLAB_SIZE / 2
  . have hkmem : h.mem.kmemFor fuel size KMEM_FLAG_COMFORT 0 = some none := by
      rw [kmemFor, if_pos hbig]
    refine iff_of_true ⟨0, h.mem, ?_, Or.inr ⟨rfl, rfl, Or.inl hbig⟩⟩ (Or.inl hbig)
    simp [kmalloc, kmallocFlags, hkmem]
  have hfor := @kmemFor_comfort fuel size hbig h.mem
  by_cases hhalf : size = SLAB_SIZE / 2
  . refine iff_of_false (not_kmallocOk_of_half hhalf) ?_
    rintro (hsize | ⟨hsize, -⟩)
    . exact hbig hsize
    . exact hsize hhalf
  cases hcomfort : h.mem.comfortKmem size 0 12 with
  | none =>
    rw [hcomfort, Option.map_none] at hfor
    refine iff_of_false ?_ ?_
    . rintro ⟨ret, mem, hret, -⟩
      simp [kmalloc, kmallocFlags, hfor] at hret
    . rintro (hsize | ⟨-, kmem, hkmem, -⟩)
      . exact hbig hsize
      . rw [hcomfort] at hkmem
        cases hkmem
  | some kmem =>
    rw [hcomfort, Option.map_some] at hfor
    have hmem := (hinv.ready.kmemFor_mem hinv.kernel (Or.inl rfl) hfor).1
    have hexists := hinv.kept.exists_allocFromKmem hmem hpage
    have hcall : h.mem.kmalloc fuel size page = h.mem.allocFromKmem kmem page := by
      simp [kmalloc, kmallocFlags, hfor]
    constructor
    . rintro ⟨ret, mem, hret, -⟩
      rw [hcall] at hret
      exact Or.inr ⟨hhalf, kmem, hcomfort, hexists.mp ⟨_, hret⟩⟩
    . rintro (hsize | ⟨-, kmem', hkmem, hfront⟩)
      . exact absurd hsize hbig
      . obtain rfl : kmem = kmem' := Option.some.inj (hcomfort.symm.trans hkmem)
        obtain ⟨⟨ret, mem⟩, halloc⟩ := hexists.mpr hfront
        rw [← hcall] at halloc
        have hpageOk : h.PageOk page (h.mem.kmemFor fuel size KMEM_FLAG_COMFORT 0) := by
          apply hinv.pageOk (Or.inl rfl) (hpage.imp_right ?_) halloc
          intro hpage
          rw [hfor]
          exact fun _ => hpage
        have hinv' := hinv.allocated (Or.inl rfl) hpageOk hfor halloc
        refine ⟨ret, mem, halloc, Or.inl ⟨?_, kmem, hinv'.safe⟩⟩
        obtain ⟨-, -, p, hp, -, i, -, -, haddr⟩ := hinv'.kept.block ⟨ret, kmem, size⟩ List.mem_cons_self
        have hkernel := (hinv'.kept.page p hp).kernel
        simp only [node] at haddr
        omega

/--
After any run from `slab_init` that releases nothing, `kmalloc` does what it should exactly in those cases.
-/
theorem kmallocOk_iff (free : Nat → FreeNode) (slab : Nat → SlabHeader) (cache : Nat → KmemCache)
    {kmemKmem : Nat} {turns : Nat → Nat} (hkernel : 0x80000000 ≤ kmemKmem) (hpage : IsPage (turns 0))
    (hkmem : kmemKmem / SLAB_SIZE ≠ turns 0 / SLAB_SIZE)
    : ∃ mem,
        (boot free slab cache kmemKmem).slabInit turns = some mem
          ∧ ∀ fuel ops h (size : BitVec 32) page,
            Run.Guarded (step fuel) (fun h op => Offered fuel h op ∧ NoRelease h op) ⟨mem, [], [turns 0]⟩ ops
              → Run.run (step fuel) ⟨mem, [], [turns 0]⟩ ops = some h
              → page = 0 ∨ IsPage page ∧ page ∉ h.pages
              → (KmallocOk fuel h size.toNat page ↔ h.Serves size.toNat page) := by
  obtain ⟨mem, recs, hinit, -, hbooting⟩ := slabInit_booting free slab cache hkernel hpage hkmem
  refine ⟨mem, hinit, ?_⟩
  intro fuel ops h size page hguarded hrun hpage
  have hinv : Inv (mem.kmemKmem :: recs.map SlabBlock.addr) recs ⟨mem, [], [turns 0]⟩ :=
    ⟨hbooting.kept, hbooting.ready⟩
  have hinv' : Inv (mem.kmemKmem :: recs.map SlabBlock.addr) recs h := by
    refine hguarded.invariant (fun h op h' hinv hop hstep => ?_) hinv hrun
    exact hinv.step (hinv.allowed hop.1 hstep) hop.2 hstep
  exact hinv'.kmalloc_iff hpage

instance (fuel : Nat) (h : SlabHeap) : (op : SlabOp) → Decidable (Offered fuel h op)
  | .kmalloc _ _ => instDecidableOr
  | .kmallocS _ _ => instDecidableOr
  | .qsmalloc _ _ => instDecidableAnd
  | .kfree i => inferInstanceAs (Decidable (i < h.live.length))

/--
The third object comes from the slab of the first two.
-/
theorem kmallocOk_iff_three
    : ∃ h,
        Run.run (step 13) ⟨booted, [], [0xC0200000]⟩ [.kmalloc 100 0xC0201000, .kmalloc 100 0] = some h
          ∧ KmallocOk 13 h (100 : BitVec 32).toNat 0 := by
  obtain ⟨mem, hinit, hiff⟩ :=
    @kmallocOk_iff (fun _ => ⟨0, 0⟩) (fun _ => ⟨0, 0, 0, 0, 0⟩) (fun _ => ⟨0, 0, 0, 0, 0, 0, 0⟩) 0xC0100000
      (fun _ => 0xC0200000) (by decide) (by decide) (by decide)
  rw [slabInit_booted] at hinit
  rw [← Option.some.inj hinit] at hiff
  have hrun := Option.eq_some_of_isSome (show (Run.run (step 13) ⟨booted, [], [0xC0200000]⟩
    [.kmalloc 100 0xC0201000, .kmalloc 100 0]).isSome by decide +kernel)
  generalize hh : (Run.run (step 13) ⟨booted, [], [0xC0200000]⟩ [.kmalloc 100 0xC0201000, .kmalloc 100 0]).get _ = h
    at hrun
  have hkmem : (h.mem.comfortKmem (100 : BitVec 32).toNat 0 12).any fun kmem =>
      if NeedsPage h.mem kmem then (0 : Nat) ≠ 0 else (h.mem.slab (h.mem.front kmem)).freeCount ≠ 0 := by
    rw [← hh]
    decide +kernel
  obtain ⟨kmem, hcomfort, hserves⟩ := (Option.any_eq_true _ _).mp hkmem
  refine ⟨h, hrun, ?_⟩
  apply (hiff 13 _ h 100 0 (by decide +kernel) hrun (Or.inl rfl)).mpr
  refine Or.inr ⟨by decide, kmem, hcomfort, ?_⟩
  split at hserves
  . exact absurd hserves (by decide)
  . next hneeds =>
    rw [if_neg hneeds]
    exact of_decide_eq_true hserves

/--
The shift of 2048 gets to 0 in the last turn of the loop, which reads the entry behind the table.
-/
theorem not_kmallocOk
    : ¬ KmallocOk 13 ⟨booted, [], [0xC0200000]⟩ (2048 : BitVec 32).toNat 0xC0201000 :=
  not_kmallocOk_of_half rfl

end SlabHeap
end Osproj
