import Osproj.Base.Run
import Osproj.Mm.Lemmas.SlabInit

/-!
This module contains the runs of the allocator. As long as nothing is released, live blocks are disjoint objects of the
slabs of their caches. `kfree` takes the head of the free list of a slab for its array: the first object that is
released makes a list that hands out an object twice, or an address behind the slab.
-/

namespace Osproj

open Slab

namespace SlabMem

variable {s s' : SlabMem}

def IsCache (s : SlabMem) (c : Nat) : Prop := c = s.kmemKmem ∨ ∃ i : Fin 12, s.quickAllocTable i = c

instance (s : SlabMem) (c : Nat) : Decidable (s.IsCache c) := by
  unfold IsCache
  infer_instance

instance (page : Nat) : Decidable (IsPage page) :=
  decidable_of_iff (page % SLAB_SIZE = 0 ∧ 0x80000000 ≤ page ∧ page + SLAB_SIZE ≤ 0x100000000)
    ⟨fun h => ⟨h.1, h.2.1, h.2.2⟩, fun h => ⟨h.1, h.2, h.3⟩⟩

structure Ready (s : SlabMem) (caches : List Nat) : Prop where
  kmemKmem : s.kmemKmem ∈ caches
  table : ∀ i, i < 12 → s.quickAllocTable i ∈ caches ∧ (s.cache (s.quickAllocTable i)).objSize = 2 ^ i
  chain : Chain.Follows (fun c => (s.cache c).next) 0 s.kmemKmem caches

variable {caches pages : List Nat} {blocks recs : List SlabBlock} {fuel size flags quickalloc kmem page ret : Nat}

theorem Ready.sameCaches (h : s.Ready caches) (hsame : SameCaches s s') : s'.Ready caches := by
  constructor
  . rw [hsame.kmemKmem]
    exact h.kmemKmem
  . simp only [hsame.quickAllocTable, hsame.objSize]
    exact h.table
  . simp only [hsame.next, hsame.kmemKmem]
    exact h.chain

theorem Ready.mem_of_isCache {c : Nat} (h : s.Ready caches) (hc : s.IsCache c) : c ∈ caches := by
  cases hc with
  | inl hc =>
    rw [hc]
    exact h.kmemKmem
  | inr hc =>
    obtain ⟨i, rfl⟩ := hc
    exact (h.table i i.isLt).1

theorem Booting.ready (h : Booting s page 12 recs) : s.Ready (s.kmemKmem :: recs.map SlabBlock.addr) := by
  have hkernel := (h.kept.cache _ List.mem_cons_self).kernel
  constructor
  . exact List.mem_cons_self
  . intro i hi
    exact ⟨List.mem_cons_of_mem _ (h.table i hi).1, (h.table i hi).2⟩
  . exact ⟨rfl, by omega, h.chain⟩

theorem Kept.sublist {blocks' : List SlabBlock} (h : s.Kept caches pages blocks) (hsub : List.Sublist blocks' blocks)
    : s.Kept caches pages blocks' := by
  constructor
  . exact h.cache
  . exact h.empty
  . exact h.part
  . exact h.full
  . exact h.page
  . exact h.slab
  . exact h.next
  . intro b hb
    exact h.block b (hsub.subset hb)
  . exact h.nodup.sublist (hsub.map SlabBlock.addr)

theorem comfortKmem_some {sz i left : Nat} (h : s.comfortKmem sz i left = some kmem)
    : ∃ j, j < 12 ∧ i < j ∧ kmem = s.quickAllocTable j ∧ sz < 2 ^ (j - i) := by
  induction left generalizing sz i with
  | zero => simp [comfortKmem] at h
  | succ left ih =>
    simp only [comfortKmem] at h
    split at h
    . next hsz =>
      split at h
      . next hi => exact ⟨i + 1, hi, by omega, (Option.some.inj h).symm, by simp; omega⟩
      . contradiction
    . next hsz =>
      obtain ⟨j, hj, hij, hkmem, hlt⟩ := ih h
      refine ⟨j, hj, by omega, hkmem, ?_⟩
      rw [show j - i = j - (i + 1) + 1 by omega, Nat.pow_succ]
      omega

theorem queryKmem.loop_spec {a : Nat} {l : List Nat} (h : Chain.Follows (fun c => (s.cache c).next) 0 a l)
    (ha : a ≠ 0) (hkernel : ∀ c ∈ l, 0x80000000 ≤ c)
    : (∀ r, loop s size fuel a = some r → r = 0 ∨ r ∈ l ∧ (s.cache r).objSize = size)
        ∧ (l.length ≤ fuel → ∃ r, loop s size fuel a = some r) := by
  induction fuel generalizing a l with
  | zero =>
    refine ⟨by simp [loop], ?_⟩
    intro hlength
    rw [List.length_eq_zero_iff.mp (Nat.le_zero.mp hlength)] at h
    exact absurd h ha
  | succ fuel ih =>
    obtain ⟨l', rfl, h'⟩ := h.ne_nil ha
    simp only [loop, cacheAt_of_le (hkernel a List.mem_cons_self), Option.bind_eq_bind, Option.bind_some]
    split
    . next hsize =>
      constructor
      . intro r hr
        rw [← Option.some.inj hr]
        exact Or.inr ⟨List.mem_cons_self, hsize⟩
      . intro _
        exact ⟨a, rfl⟩
    . split
      . next hnext =>
        constructor
        . intro r hr
          exact Or.inl (Option.some.inj hr).symm
        . intro _
          exact ⟨0, rfl⟩
      . next hnext =>
        have hrest := ih h' hnext (fun c hc => hkernel c (List.mem_cons_of_mem a hc))
        constructor
        . intro r hr
          cases hrest.1 r hr with
          | inl hr => exact Or.inl hr
          | inr hr => exact Or.inr ⟨List.mem_cons_of_mem a hr.1, hr.2⟩
        . intro hlength
          rw [List.length_cons] at hlength
          exact hrest.2 (by omega)

theorem Ready.kmemFor_mem (h : s.Ready caches) (hkernel : ∀ c ∈ caches, 0x80000000 ≤ c)
    (hquick : quickalloc = 0 ∨ quickalloc ∈ caches ∧ size = 0)
    (hkmem : s.kmemFor fuel size flags quickalloc = some (some kmem))
    : kmem ∈ caches ∧ size ≤ (s.cache kmem).objSize := by
  rw [kmemFor] at hkmem
  split at hkmem
  . exact absurd (Option.some.inj hkmem) (Option.some_ne_none kmem).symm
  . split at hkmem
    . simp only [Option.bind_eq_bind, Option.bind_eq_some_iff, Option.pure_def, Option.some.injEq] at hkmem
      obtain ⟨_, hcomfort, rfl⟩ := hkmem
      obtain ⟨j, hj, -, rfl, hlt⟩ := comfortKmem_some hcomfort
      have htable := h.table j hj
      refine ⟨htable.1, ?_⟩
      rw [htable.2]
      exact Nat.le_of_lt hlt
    . split at hkmem
      . split at hkmem
        . next hne =>
          have hquick := hquick.resolve_left hne
          rw [← Option.some.inj (Option.some.inj hkmem), hquick.2]
          exact ⟨hquick.1, Nat.zero_le _⟩
        . have hne : s.kmemKmem ≠ 0 := by
            have hkernel := hkernel _ h.kmemKmem
            omega
          simp only [Option.bind_eq_bind, Option.bind_eq_some_iff, Option.pure_def, Option.some.injEq] at hkmem
          obtain ⟨r, hquery, hr⟩ := hkmem
          split at hr
          . contradiction
          . next hzero =>
            rw [← Option.some.inj hr]
            have hfound := ((queryKmem.loop_spec h.chain hne hkernel).1 r hquery).resolve_left hzero
            exact ⟨hfound.1, Nat.le_of_eq hfound.2.symm⟩
      . contradiction

end SlabMem

namespace SlabHeap

open SlabMem

variable {h h' : SlabHeap} {caches : List Nat} {recs : List SlabBlock} {fuel : Nat}

def objSize (h : SlabHeap) (b : SlabBlock) : Nat := (h.mem.cache b.kmem).objSize

/--
The block lies in the object area of the page, behind the header and the array, and the page is one of the slabs of its
cache.
-/
def InObjectArea (h : SlabHeap) (page : Nat) (b : SlabBlock) : Prop :=
  let count := (h.mem.cache b.kmem).objCountPerSlab
  (h.mem.slab page).parent = b.kmem
    ∧ page + SIZEOF_SLAB + SIZEOF_FREE * count ≤ b.addr
    ∧ b.addr + h.objSize b ≤ page + SIZEOF_SLAB + (SIZEOF_FREE + h.objSize b) * count
    ∧ b.addr + h.objSize b ≤ page + SLAB_SIZE

def Safe (h : SlabHeap) : Prop :=
  h.live.Pairwise (fun b b' => b.addr + h.objSize b ≤ b'.addr ∨ b'.addr + h.objSize b' ≤ b.addr)
    ∧ ∀ b ∈ h.live, (∃ page ∈ h.pages, h.InObjectArea page b) ∧ b.size ≤ h.objSize b

/--
If the cache has to get a new slab, `palloc` returns a page of the kernel that it has not returned before.
-/
def PageOk (h : SlabHeap) (page : Nat) : Option (Option Nat) → Prop
  | some (some kmem) => NeedsPage h.mem kmem → IsPage page ∧ page ∉ h.pages
  | _ => True

/--
What the calls are given: fresh pages, a cache for `qsmalloc`, a live block for `kfree`.
-/
def Allowed (fuel : Nat) (h : SlabHeap) : SlabOp → Prop
  | .kmalloc size page => h.PageOk page (h.mem.kmemFor fuel size.toNat KMEM_FLAG_COMFORT 0)
  | .kmallocS size page => h.PageOk page (h.mem.kmemFor fuel size.toNat KMEM_FLAG_STRICT 0)
  | .qsmalloc quickalloc page =>
    (quickalloc = 0 ∨ h.mem.IsCache quickalloc) ∧ h.PageOk page (h.mem.kmemFor fuel 0 KMEM_FLAG_STRICT quickalloc)
  | .kfree i => i < h.live.length

/--
The step is no `kfree`, or one of an address that `kfree` ignores.
-/
def NoRelease (h : SlabHeap) : SlabOp → Prop
  | .kfree i => ∀ b ∈ h.live[i]?, b.addr < 0xC0000000
  | _ => True

structure Inv (caches : List Nat) (recs : List SlabBlock) (h : SlabHeap) : Prop where
  kept : h.mem.Kept caches h.pages (h.live ++ recs)
  ready : h.mem.Ready caches

theorem Inv.kernel (hinv : Inv caches recs h) : ∀ c ∈ caches, 0x80000000 ≤ c := by
  intro c hc
  exact (hinv.kept.cache c hc).kernel

theorem Inv.allocated (hinv : Inv caches recs h) {size flags quickalloc page ret : Nat} {kmem : Option Nat}
    {mem : SlabMem} (hquick : quickalloc = 0 ∨ quickalloc ∈ caches ∧ size = 0)
    (hpage : h.PageOk page (h.mem.kmemFor fuel size flags quickalloc))
    (hkmem : h.mem.kmemFor fuel size flags quickalloc = some kmem)
    (hret : h.mem.kmallocFlags fuel size flags quickalloc page = some (ret, mem))
    : Inv caches recs (h.allocated kmem size page ret mem) := by
  simp only [kmallocFlags, hkmem, Option.bind_eq_bind, Option.bind_some] at hret
  rw [hkmem] at hpage
  cases kmem with
  | none =>
    obtain ⟨-, rfl⟩ := Prod.mk.inj (Option.some.inj hret)
    exact hinv
  | some kmem =>
    have hmem := hinv.ready.kmemFor_mem hinv.kernel hquick hkmem
    obtain ⟨hsame, hkept⟩ := hinv.kept.allocFromKmem hmem.1 hpage hmem.2 hret
    constructor
    . exact hkept
    . exact hinv.ready.sameCaches hsame

/--
What a step can do that releases nothing: an allocation with what it was given, or a `kfree` that only forgets the block.
-/
theorem Inv.step_cases (hinv : Inv caches recs h) {op : SlabOp} (hallowed : Allowed fuel h op) (hop : NoRelease h op)
    (hstep : h.step fuel op = some h')
    : (∃ size flags quickalloc page kmem ret mem,
        (quickalloc = 0 ∨ quickalloc ∈ caches ∧ size = 0)
          ∧ h.PageOk page (h.mem.kmemFor fuel size flags quickalloc)
          ∧ h.mem.kmemFor fuel size flags quickalloc = some kmem
          ∧ h.mem.kmallocFlags fuel size flags quickalloc page = some (ret, mem)
          ∧ h' = h.allocated kmem size page ret mem)
      ∨ ∃ i, h' = { h with live := h.live.eraseIdx i } := by
  cases op with
  | kmalloc size page =>
    simp only [SlabHeap.step, Option.bind_eq_bind, Option.bind_eq_some_iff] at hstep
    obtain ⟨kmem, hkmem, ⟨ret, mem⟩, hret, heq⟩ := hstep
    exact Or.inl ⟨_, _, _, _, _, _, _, Or.inl rfl, hallowed, hkmem, hret, (Option.some.inj heq).symm⟩
  | kmallocS size page =>
    simp only [SlabHeap.step, Option.bind_eq_bind, Option.bind_eq_some_iff] at hstep
    obtain ⟨kmem, hkmem, ⟨ret, mem⟩, hret, heq⟩ := hstep
    exact Or.inl ⟨_, _, _, _, _, _, _, Or.inl rfl, hallowed, hkmem, hret, (Option.some.inj heq).symm⟩
  | qsmalloc quickalloc page =>
    simp only [SlabHeap.step, Option.bind_eq_bind, Option.bind_eq_some_iff] at hstep
    obtain ⟨kmem, hkmem, ⟨ret, mem⟩, hret, heq⟩ := hstep
    refine Or.inl ⟨_, _, _, _, _, _, _, hallowed.1.imp_right ?_, hallowed.2, hkmem, hret, (Option.some.inj heq).symm⟩
    intro hcache
    exact ⟨hinv.ready.mem_of_isCache hcache, rfl⟩
  | kfree i =>
    simp only [SlabHeap.step, Option.bind_eq_bind, Option.bind_eq_some_iff] at hstep
    obtain ⟨b, hb, mem, hmem, heq⟩ := hstep
    rw [kfree, if_pos (hop b hb)] at hmem
    right
    exact ⟨i, by rw [← Option.some.inj heq, ← Option.some.inj hmem]⟩

theorem Inv.step (hinv : Inv caches recs h) {op : SlabOp} (hallowed : Allowed fuel h op) (hop : NoRelease h op)
    (hstep : h.step fuel op = some h')
    : Inv caches recs h' := by
  rcases hinv.step_cases hallowed hop hstep with ⟨_, _, _, _, _, _, _, hquick, hpage, hkmem, hret, rfl⟩ | ⟨i, rfl⟩
  . exact hinv.allocated hquick hpage hkmem hret
  . constructor
    . exact hinv.kept.sublist ((List.eraseIdx_sublist _ i).append_right recs)
    . exact hinv.ready

theorem Inv.disjoint (hinv : Inv caches recs h) {b b' : SlabBlock} (hb : b ∈ h.live) (hb' : b' ∈ h.live)
    (hne : b.addr ≠ b'.addr)
    : b.addr + h.objSize b ≤ b'.addr ∨ b'.addr + h.objSize b' ≤ b.addr := by
  obtain ⟨hkmem, -, p, hp, k, i, hslab, hi, haddr⟩ := hinv.kept.block b (List.mem_append_left _ hb)
  obtain ⟨hkmem', -, p', hp', k', i', hslab', hi', haddr'⟩ := hinv.kept.block b' (List.mem_append_left _ hb')
  have hin := Nat.lt_of_lt_of_le hi hslab.used_le
  have hin' := Nat.lt_of_lt_of_le hi' hslab'.used_le
  rw [objSize, objSize, haddr, haddr']
  apply object_disjoint (hinv.kept.cache _ hkmem) (hinv.kept.cache _ hkmem') (hinv.kept.page p hp)
    (hinv.kept.page p' hp') hin hin'
  by_cases hpage : p = p'
  . right
    subst hpage
    have hunique := hslab.unique hslab'
    refine ⟨hunique.1, ?_⟩
    rintro rfl
    rw [haddr, haddr', hunique.1] at hne
    exact hne rfl
  . exact Or.inl hpage

theorem Inv.safe (hinv : Inv caches recs h) : h.Safe := by
  constructor
  . have hnodup := hinv.kept.nodup
    rw [List.map_append, List.nodup_append] at hnodup
    have hpairwise := List.pairwise_map.mp hnodup.1
    exact hpairwise.imp_of_mem (fun hb hb' hne => hinv.disjoint hb hb' hne)
  . intro b hb
    obtain ⟨hkmem, hsize, p, hp, k, i, hslab, hi, haddr⟩ := hinv.kept.block b (List.mem_append_left _ hb)
    have hcache := hinv.kept.cache _ hkmem
    have hin := Nat.lt_of_lt_of_le hi hslab.used_le
    refine ⟨⟨p, hp, hslab.parent, ?_, ?_, ?_⟩, hsize⟩
    . rw [haddr, node]
      omega
    . have hle : (h.mem.cache b.kmem).objSize * (i + 1)
          ≤ (h.mem.cache b.kmem).objSize * (h.mem.cache b.kmem).objCountPerSlab := Nat.mul_le_mul_left _ hin
      rw [Nat.mul_succ] at hle
      rw [haddr, node, objSize, Nat.add_mul]
      omega
    . rw [haddr]
      exact hcache.object_le hin

/--
As long as nothing is released, the live blocks are disjoint objects of the slabs of their caches.
-/
theorem safe_of_noRelease (free : Nat → FreeNode) (slab : Nat → SlabHeader) (cache : Nat → KmemCache)
    {kmemKmem : Nat} {turns : Nat → Nat} (hkernel : 0x80000000 ≤ kmemKmem) (hpage : IsPage (turns 0))
    (hkmem : kmemKmem / SLAB_SIZE ≠ turns 0 / SLAB_SIZE)
    : ∃ mem,
        (boot free slab cache kmemKmem).slabInit turns = some mem
          ∧ ∀ fuel ops h,
            Run.Guarded (step fuel) (fun h op => Allowed fuel h op ∧ NoRelease h op) ⟨mem, [], [turns 0]⟩ ops
              → Run.run (step fuel) ⟨mem, [], [turns 0]⟩ ops = some h
              → h.Safe := by
  obtain ⟨mem, recs, hinit, -, hbooting⟩ := slabInit_booting free slab cache hkernel hpage hkmem
  refine ⟨mem, hinit, ?_⟩
  intro fuel ops h hguarded hrun
  have hinv : Inv (mem.kmemKmem :: recs.map SlabBlock.addr) recs ⟨mem, [], [turns 0]⟩ :=
    ⟨hbooting.kept, hbooting.ready⟩
  exact (hguarded.invariant (fun _ _ _ hinv hop hstep => hinv.step hop.1 hop.2 hstep) hinv hrun).safe

instance (h : SlabHeap) : Decidable h.Safe := by
  unfold Safe InObjectArea
  infer_instance

instance (h : SlabHeap) (page : Nat) (kmem : Option (Option Nat)) : Decidable (h.PageOk page kmem) := by
  unfold PageOk
  split <;> infer_instance

instance (fuel : Nat) (h : SlabHeap) (op : SlabOp) : Decidable (Allowed fuel h op) := by
  unfold Allowed
  split <;> infer_instance

instance (h : SlabHeap) (op : SlabOp) : Decidable (NoRelease h op) := by
  unfold NoRelease
  split <;> infer_instance

def booted : SlabMem :=
  ((boot (fun _ => ⟨0, 0⟩) (fun _ => ⟨0, 0, 0, 0, 0⟩) (fun _ => ⟨0, 0, 0, 0, 0, 0, 0⟩) 0xC0100000).slabInit
    (fun _ => 0xC0200000)).get (by decide +kernel)

theorem slabInit_booted
    : (boot (fun _ => ⟨0, 0⟩) (fun _ => ⟨0, 0, 0, 0, 0⟩) (fun _ => ⟨0, 0, 0, 0, 0, 0, 0⟩) 0xC0100000).slabInit
        (fun _ => 0xC0200000)
        =
      some booted := by
  rw [booted, Option.some_get]

theorem safe_of_noRelease_two
    : ∃ h,
        Run.run (step 13) ⟨booted, [], [0xC0200000]⟩ [.kmalloc 100 0xC0201000, .kmalloc 7 0xC0202000] = some h
          ∧ h.live.length = 2
          ∧ h.Safe := by
  obtain ⟨mem, hinit, hsafe⟩ :=
    @safe_of_noRelease (fun _ => ⟨0, 0⟩) (fun _ => ⟨0, 0, 0, 0, 0⟩) (fun _ => ⟨0, 0, 0, 0, 0, 0, 0⟩) 0xC0100000
      (fun _ => 0xC0200000) (by decide) (by decide) (by decide)
  rw [slabInit_booted] at hinit
  rw [← Option.some.inj hinit] at hsafe
  have hrun := Option.eq_some_of_isSome (show (Run.run (step 13) ⟨booted, [], [0xC0200000]⟩
    [.kmalloc 100 0xC0201000, .kmalloc 7 0xC0202000]).isSome by decide +kernel)
  exact ⟨_, hrun, by decide +kernel, hsafe 13 _ _ (by decide +kernel) hrun⟩

/--
Two blocks of 1000 bytes, the first one is released, and two more are the same object.
-/
theorem not_safe_release
    : ∃ h,
        Run.Guarded (step 13) (Allowed 13) ⟨booted, [], [0xC0200000]⟩
            [.kmalloc 1000 0xC0201000, .kmalloc 1000 0, .kfree 1, .kmalloc 1000 0, .kmalloc 1000 0]
          ∧ Run.run (step 13) ⟨booted, [], [0xC0200000]⟩
              [.kmalloc 1000 0xC0201000, .kmalloc 1000 0, .kfree 1, .kmalloc 1000 0, .kmalloc 1000 0]
              =
            some h
          ∧ ¬ h.Safe := by
  have hrun := Option.eq_some_of_isSome (show (Run.run (step 13) ⟨booted, [], [0xC0200000]⟩
    [.kmalloc 1000 0xC0201000, .kmalloc 1000 0, .kfree 1, .kmalloc 1000 0, .kmalloc 1000 0]).isSome by decide +kernel)
  exact ⟨_, by decide +kernel, hrun, by decide +kernel⟩

end SlabHeap
end Osproj
