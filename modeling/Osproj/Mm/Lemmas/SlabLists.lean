import Mathlib.Data.List.Nodup
import Osproj.Mm.Lemmas.SlabRuns

/-!
This module contains the three lists of slabs of a cache. An allocation moves a slab to the list that its number of free
objects belongs to, unless the slab is a new one: that one stays at the front of the empty list, and is on two lists
if it has one object only.
-/

namespace Osproj

open Slab Chain

namespace SlabMem

variable {s s' : SlabMem} {caches pages es ps fs : List Nat} {blocks recs : List SlabBlock} {c c' p page fuel : Nat}

def nextSlab (s : SlabMem) (p : Nat) : Nat := (s.slab p).next

structure IsLists (s : SlabMem) (pages : List Nat) (c : Nat) (es ps fs : List Nat) : Prop where
  empty : Follows s.nextSlab 0 (s.cache c).emptySlab es
  part : Follows s.nextSlab 0 (s.cache c).partialSlab ps
  full : Follows s.nextSlab 0 (s.cache c).fullSlab fs
  mem : ∀ q, q ∈ es ++ ps ++ fs ↔ q ∈ pages ∧ (s.slab q).parent = c
  empty_count : ∀ q ∈ es, (s.slab q).freeCount = (s.cache c).objCountPerSlab
  part_count : ∀ q ∈ ps, (s.slab q).freeCount ≠ (s.cache c).objCountPerSlab ∧ (s.slab q).freeCount ≠ 0
  full_count : ∀ q ∈ fs, (s.slab q).freeCount = 0

structure Moved (s s' : SlabMem) (c p : Nat) : Prop where
  slab : ∀ q, q ≠ p → s'.slab q = s.slab q
  parent : (s.slab p).parent = c
  parent' : (s'.slab p).parent = c
  cache : ∀ a, a ≠ c → s'.cache a = s.cache a
  objCountPerSlab : (s'.cache c).objCountPerSlab = (s.cache c).objCountPerSlab

namespace Moved

theorem follows {a : Nat} {l : List Nat} (h : Moved s s' c p) (hl : Follows s.nextSlab 0 a l) (hp : p ∉ l)
    : Follows s'.nextSlab 0 a l := by
  apply hl.congr
  intro q hq
  rw [nextSlab, nextSlab, h.slab q (ne_of_mem_of_not_mem hq hp)]

theorem parent_eq (h : Moved s s' c p) (q : Nat) : (s'.slab q).parent = (s.slab q).parent := by
  by_cases hq : q = p
  . rw [hq, h.parent, h.parent']
  . rw [h.slab q hq]

theorem isLists_of_ne (h : Moved s s' c p) (hl : s.IsLists pages c' es ps fs) (hne : c' ≠ c)
    : s'.IsLists pages c' es ps fs := by
  have hp : p ∉ es ++ ps ++ fs := by
    intro hmem
    have hparent := ((hl.mem p).mp hmem).2
    rw [h.parent] at hparent
    exact hne hparent.symm
  have hslab : ∀ q ∈ es ++ ps ++ fs, s'.slab q = s.slab q := by
    intro q hq
    exact h.slab q (ne_of_mem_of_not_mem hq hp)
  simp only [List.mem_append, not_or] at hp hslab
  constructor
  . rw [h.cache c' hne]
    exact h.follows hl.empty hp.1.1
  . rw [h.cache c' hne]
    exact h.follows hl.part hp.1.2
  . rw [h.cache c' hne]
    exact h.follows hl.full hp.2
  . intro q
    rw [h.parent_eq]
    exact hl.mem q
  . intro q hq
    rw [h.cache c' hne, hslab q (Or.inl (Or.inl hq))]
    exact hl.empty_count q hq
  . intro q hq
    rw [h.cache c' hne, hslab q (Or.inl (Or.inr hq))]
    exact hl.part_count q hq
  . intro q hq
    rw [hslab q (Or.inr hq)]
    exact hl.full_count q hq

end Moved

theorem IsLists.nodup (h : s.IsLists pages c es ps fs) (hpos : 0 < (s.cache c).objCountPerSlab)
    : (es ++ ps ++ fs).Nodup := by
  rw [List.nodup_append, List.nodup_append]
  refine ⟨⟨h.empty.nodup, h.part.nodup, ?_⟩, h.full.nodup, ?_⟩
  . rintro q hq _ hq' rfl
    exact (h.part_count q hq').1 (h.empty_count q hq)
  . rintro q hq _ hq' rfl
    have hfull := h.full_count q hq'
    cases List.mem_append.mp hq with
    | inl hq =>
      have hempty := h.empty_count q hq
      omega
    | inr hq => exact (h.part_count q hq).2 hfull

namespace IsLists

theorem moved {es' ps' fs' : List Nat} (h : s.IsLists pages c es ps fs) (hmoved : Moved s s' c p)
    (hempty : Follows s'.nextSlab 0 (s'.cache c).emptySlab es')
    (hpart : Follows s'.nextSlab 0 (s'.cache c).partialSlab ps')
    (hfull : Follows s'.nextSlab 0 (s'.cache c).fullSlab fs')
    (hmem : ∀ q, q ∈ es' ++ ps' ++ fs' ↔ q ∈ es ++ ps ++ fs)
    (hes : ∀ q ∈ es', q ≠ p ∧ q ∈ es)
    (hps : ∀ q ∈ ps', q ≠ p ∧ q ∈ ps
      ∨ (s'.slab q).freeCount ≠ (s.cache c).objCountPerSlab ∧ (s'.slab q).freeCount ≠ 0)
    (hfs : ∀ q ∈ fs', q ≠ p ∧ q ∈ fs ∨ (s'.slab q).freeCount = 0)
    : s'.IsLists pages c es' ps' fs' := by
  constructor
  . exact hempty
  . exact hpart
  . exact hfull
  . intro q
    rw [hmem, hmoved.parent_eq]
    exact h.mem q
  . intro q hq
    have hq := hes q hq
    rw [hmoved.objCountPerSlab, hmoved.slab q hq.1]
    exact h.empty_count q hq.2
  . intro q hq
    rw [hmoved.objCountPerSlab]
    cases hps q hq with
    | inl hq =>
      rw [hmoved.slab q hq.1]
      exact h.part_count q hq.2
    | inr hq => exact hq
  . intro q hq
    cases hfs q hq with
    | inl hq =>
      rw [hmoved.slab q hq.1]
      exact h.full_count q hq.2
    | inr hq => exact hq

theorem stay (h : s.IsLists pages c es (p :: ps) fs) (hmoved : Moved s s' c p)
    (hcache : s'.cache c = s.cache c) (hnext : s'.nextSlab p = s.nextSlab p)
    (hcount : (s'.slab p).freeCount ≠ (s.cache c).objCountPerSlab) (hfree : (s'.slab p).freeCount ≠ 0)
    (hpos : 0 < (s.cache c).objCountPerSlab)
    : s'.IsLists pages c es (p :: ps) fs := by
  have hnodup := h.nodup hpos
  rw [List.append_assoc, List.cons_append, List.nodup_middle, List.nodup_cons] at hnodup
  simp only [List.mem_append, not_or] at hnodup
  obtain ⟨hhead, hne, hps⟩ := h.part
  apply h.moved hmoved
  . rw [hcache]
    exact hmoved.follows h.empty hnodup.1.1
  . rw [hcache]
    refine ⟨hhead, hne, ?_⟩
    rw [hnext]
    exact hmoved.follows hps hnodup.1.2.1
  . rw [hcache]
    exact hmoved.follows h.full hnodup.1.2.2
  . exact fun q => Iff.rfl
  . intro q hq
    exact ⟨ne_of_mem_of_not_mem hq hnodup.1.1, hq⟩
  . intro q hq
    cases List.mem_cons.mp hq with
    | inl heq =>
      right
      rw [heq]
      exact ⟨hcount, hfree⟩
    | inr hmem =>
      left
      exact ⟨ne_of_mem_of_not_mem hmem hnodup.1.2.1, hq⟩
  . intro q hq
    left
    exact ⟨ne_of_mem_of_not_mem hq hnodup.1.2.2, hq⟩

theorem fill (h : s.IsLists pages c es (p :: ps) fs) (hmoved : Moved s s' c p)
    (hempty : (s'.cache c).emptySlab = (s.cache c).emptySlab) (hpart : (s'.cache c).partialSlab = s.nextSlab p)
    (hfull : (s'.cache c).fullSlab = p) (hnext : s'.nextSlab p = (s.cache c).fullSlab)
    (hfree : (s'.slab p).freeCount = 0) (hpos : 0 < (s.cache c).objCountPerSlab)
    : s'.IsLists pages c es ps (p :: fs) := by
  have hnodup := h.nodup hpos
  rw [List.append_assoc, List.cons_append, List.nodup_middle, List.nodup_cons] at hnodup
  simp only [List.mem_append, not_or] at hnodup
  obtain ⟨-, hne, hps⟩ := h.part
  apply h.moved hmoved
  . rw [hempty]
    exact hmoved.follows h.empty hnodup.1.1
  . rw [hpart]
    exact hmoved.follows hps hnodup.1.2.1
  . refine ⟨hfull, hne, ?_⟩
    rw [hnext]
    exact hmoved.follows h.full hnodup.1.2.2
  . intro q
    simp only [List.mem_append, List.mem_cons]
    grind
  . intro q hq
    exact ⟨ne_of_mem_of_not_mem hq hnodup.1.1, hq⟩
  . intro q hq
    left
    exact ⟨ne_of_mem_of_not_mem hq hnodup.1.2.1, List.mem_cons_of_mem p hq⟩
  . intro q hq
    cases List.mem_cons.mp hq with
    | inl heq =>
      right
      rw [heq]
      exact hfree
    | inr hmem =>
      left
      exact ⟨ne_of_mem_of_not_mem hmem hnodup.1.2.2, hmem⟩

theorem start (h : s.IsLists pages c (p :: es) [] fs) (hmoved : Moved s s' c p)
    (hempty : (s'.cache c).emptySlab = s.nextSlab p) (hpart : (s'.cache c).partialSlab = p)
    (hfull : (s'.cache c).fullSlab = (s.cache c).fullSlab) (hnext : s'.nextSlab p = 0)
    (hcount : (s'.slab p).freeCount ≠ (s.cache c).objCountPerSlab) (hfree : (s'.slab p).freeCount ≠ 0)
    (hpos : 0 < (s.cache c).objCountPerSlab)
    : s'.IsLists pages c es [p] fs := by
  have hnodup := h.nodup hpos
  rw [List.append_nil, List.cons_append, List.nodup_cons] at hnodup
  simp only [List.mem_append, not_or] at hnodup
  obtain ⟨-, hne, hes⟩ := h.empty
  apply h.moved hmoved
  . rw [hempty]
    exact hmoved.follows hes hnodup.1.1
  . exact ⟨hpart, hne, hnext⟩
  . rw [hfull]
    exact hmoved.follows h.full hnodup.1.2
  . intro q
    simp only [List.mem_append, List.mem_cons]
    grind
  . intro q hq
    exact ⟨ne_of_mem_of_not_mem hq hnodup.1.1, List.mem_cons_of_mem p hq⟩
  . intro q hq
    right
    rw [List.mem_singleton.mp hq]
    exact ⟨hcount, hfree⟩
  . intro q hq
    left
    exact ⟨ne_of_mem_of_not_mem hq hnodup.1.2, hq⟩

theorem fillEmpty (h : s.IsLists pages c (p :: es) [] fs) (hmoved : Moved s s' c p)
    (hempty : (s'.cache c).emptySlab = s.nextSlab p) (hpart : (s'.cache c).partialSlab = 0)
    (hfull : (s'.cache c).fullSlab = p) (hnext : s'.nextSlab p = (s.cache c).fullSlab)
    (hfree : (s'.slab p).freeCount = 0) (hpos : 0 < (s.cache c).objCountPerSlab)
    : s'.IsLists pages c es [] (p :: fs) := by
  have hnodup := h.nodup hpos
  rw [List.append_nil, List.cons_append, List.nodup_cons] at hnodup
  simp only [List.mem_append, not_or] at hnodup
  obtain ⟨-, hne, hes⟩ := h.empty
  apply h.moved hmoved
  . rw [hempty]
    exact hmoved.follows hes hnodup.1.1
  . exact hpart
  . refine ⟨hfull, hne, ?_⟩
    rw [hnext]
    exact hmoved.follows h.full hnodup.1.2
  . intro q
    simp only [List.mem_append, List.mem_cons]
    grind
  . intro q hq
    exact ⟨ne_of_mem_of_not_mem hq hnodup.1.1, List.mem_cons_of_mem p hq⟩
  . intro q hq
    simp at hq
  . intro q hq
    cases List.mem_cons.mp hq with
    | inl heq =>
      right
      rw [heq]
      exact hfree
    | inr hmem =>
      left
      exact ⟨ne_of_mem_of_not_mem hmem hnodup.1.2, hmem⟩

end IsLists
theorem moved_setSlab {header : SlabHeader} (hparent : (s.slab p).parent = c) (hparent' : header.parent = c)
    : Moved s (s.setSlab p header) c p := by
  constructor
  . intro q hq
    simp [setSlab, hq]
  . exact hparent
  . simpa [setSlab] using hparent'
  . intro a _
    rfl
  . rfl

theorem moved_relink {header : SlabHeader} (e q f x : Nat) (hparent : (s.slab p).parent = c)
    (hparent' : header.parent = c)
    : let s' := s.setSlab p header
      Moved s
        ((s'.setCache c { s'.cache c with emptySlab := e, partialSlab := q, fullSlab := f }).setSlab p
          { s'.slab p with next := x }) c p := by
  constructor
  . intro q hq
    simp [setSlab, setCache, hq]
  . exact hparent
  . simpa [setSlab, setCache] using hparent'
  . intro a ha
    simp [setSlab, setCache, ha]
  . simp [setSlab, setCache]

theorem Kept.allocFromSlab_eq (h : s.Kept caches pages blocks) (hc : c ∈ caches) (hp : p ∈ pages)
    (hparent : (s.slab p).parent = c) (hfree : (s.slab p).freeCount ≠ 0)
    : ∃ ret header,
        s.allocFromSlab p (s.cache c).objSize = some (ret, s.setSlab p header)
          ∧ header.parent = c
          ∧ header.next = (s.slab p).next
          ∧ header.freeCount + 1 = (s.slab p).freeCount
          ∧ (s.slab p).freeCount ≤ (s.cache c).objCountPerSlab := by
  have hcache := h.cache c hc
  obtain ⟨c', -, k, hslab⟩ := h.slab p hp
  obtain rfl : c' = c := by rw [← hslab.parent, hparent]
  have hcount := hslab.freeCount
  have hk : k < (s.cache c').objCountPerSlab := by omega
  refine ⟨_, _, hslab.allocFromSlab_eq (h.page p hp) hk hcache.fit, hparent, rfl, ?_, ?_⟩
  . simp only
    omega
  . omega

open SlabHeap in
theorem Kept.allocFromKmem_isLists (h : s.Kept caches pages blocks) (hc : c ∈ caches)
    (hlists : s.IsLists pages c es ps fs) (hneeds : ¬ NeedsPage s c)
    : ∃ ret s' p es' ps' fs',
        s.allocFromKmem c page = some (ret, s') ∧ Moved s s' c p ∧ s'.IsLists pages c es' ps' fs' := by
  have hcache := h.cache c hc
  have hpos := hcache.objCount_pos
  by_cases hpart : (s.cache c).partialSlab = 0
  . have hempty : (s.cache c).emptySlab ≠ 0 := fun hempty => hneeds ⟨hpart, hempty⟩
    obtain ⟨es', hes, -⟩ := hlists.empty.ne_nil hempty
    have hps : ps = [] := by
      have hfollows := hlists.part
      rw [hpart] at hfollows
      exact Follows.nil_iff.mp hfollows
    subst hps
    have halloc := @allocFromKmem_of_empty s c page hcache.kernel hpart hempty
    generalize (s.cache c).emptySlab = p at *
    subst hes
    have hp := (hlists.mem p).mp (by simp)
    have hcount := hlists.empty_count p List.mem_cons_self
    obtain ⟨ret, header, hslab, hparent, hnext, hheader, -⟩ := h.allocFromSlab_eq hc hp.1 hp.2 (by omega)
    rw [hslab, Option.map_some, SlabMem.fromEmpty] at halloc
    have hself : (s.setSlab p header).slab p = header := if_pos rfl
    rw [hself] at halloc
    split at halloc
    . next hzero =>
      refine ⟨ret, _, p, es', [], p :: fs, halloc, moved_relink _ _ _ _ hp.2 hparent,
        hlists.fillEmpty (moved_relink _ _ _ _ hp.2 hparent) ?_ ?_ ?_ ?_ ?_ hpos⟩
      . simp [setSlab, setCache, hnext, nextSlab]
      . simpa [setSlab, setCache] using hpart
      . simp [setSlab, setCache]
      . simp [setSlab, setCache, nextSlab]
      . simpa [setSlab, setCache] using hzero
    . next hzero =>
      refine ⟨ret, _, p, es', [p], fs, halloc, moved_relink _ _ _ _ hp.2 hparent,
        hlists.start (moved_relink _ _ _ _ hp.2 hparent) ?_ ?_ ?_ ?_ ?_ ?_ hpos⟩
      . simp [setSlab, setCache, hnext, nextSlab]
      . simp [setSlab, setCache]
      . simp [setSlab, setCache]
      . simpa [setSlab, setCache, nextSlab] using hpart
      . simp only [setSlab, setCache, if_true]
        omega
      . simpa [setSlab, setCache] using hzero
  . obtain ⟨ps', hps, -⟩ := hlists.part.ne_nil hpart
    have halloc := @allocFromKmem_of_part s c page hcache.kernel hpart
    generalize (s.cache c).partialSlab = p at *
    subst hps
    have hp := (hlists.mem p).mp (by simp)
    have hcount := hlists.part_count p List.mem_cons_self
    obtain ⟨ret, header, hslab, hparent, hnext, hheader, hle⟩ := h.allocFromSlab_eq hc hp.1 hp.2 hcount.2
    rw [hslab, Option.map_some, SlabMem.fromPartial] at halloc
    have hself : (s.setSlab p header).slab p = header := if_pos rfl
    rw [hself] at halloc
    split at halloc
    . next hzero =>
      refine ⟨ret, _, p, es, ps', p :: fs, halloc, moved_relink _ _ _ _ hp.2 hparent,
        hlists.fill (moved_relink _ _ _ _ hp.2 hparent) ?_ ?_ ?_ ?_ ?_ hpos⟩
      . simp [setSlab, setCache]
      . simp [setSlab, setCache, hnext, nextSlab]
      . simp [setSlab, setCache]
      . simp [setSlab, setCache, nextSlab]
      . simpa [setSlab, setCache] using hzero
    . next hzero =>
      refine ⟨ret, _, p, es, p :: ps', fs, halloc, moved_setSlab hp.2 hparent,
        hlists.stay (moved_setSlab hp.2 hparent) rfl ?_ ?_ ?_ hpos⟩
      . simp [setSlab, hnext, nextSlab]
      . simp only [hself]
        omega
      . simpa [setSlab] using hzero

end SlabMem

namespace SlabHeap

open SlabMem

variable {h h' : SlabHeap} {caches : List Nat} {recs : List SlabBlock} {fuel : Nat}

structure SlabLists (h : SlabHeap) (c : Nat) (es ps fs : List Nat) : Prop where
  empty : Follows h.mem.nextSlab 0 (h.mem.cache c).emptySlab es
  part : Follows h.mem.nextSlab 0 (h.mem.cache c).partialSlab ps
  full : Follows h.mem.nextSlab 0 (h.mem.cache c).fullSlab fs
  nodup : (es ++ ps ++ fs).Nodup
  mem : ∀ p, p ∈ es ++ ps ++ fs ↔ p ∈ h.pages ∧ (h.mem.slab p).parent = c
  mem_empty : ∀ p ∈ es ++ ps ++ fs, p ∈ es ↔ (h.mem.slab p).freeCount = (h.mem.cache c).objCountPerSlab
  mem_full : ∀ p ∈ es ++ ps ++ fs, p ∈ fs ↔ (h.mem.slab p).freeCount = 0
  mem_part : ∀ p ∈ es ++ ps ++ fs,
    p ∈ ps ↔ (h.mem.slab p).freeCount ≠ (h.mem.cache c).objCountPerSlab ∧ (h.mem.slab p).freeCount ≠ 0

/--
Every slab of every cache is on the list that its number of free objects belongs to, and on no other.
-/
def ListsOk (h : SlabHeap) : Prop := ∀ c, h.mem.IsCache c → ∃ es ps fs, h.SlabLists c es ps fs

theorem slabLists_of_isLists {c : Nat} {es ps fs : List Nat} (hlists : h.mem.IsLists h.pages c es ps fs)
    (hpos : 0 < (h.mem.cache c).objCountPerSlab)
    : h.SlabLists c es ps fs := by
  have hcount : ∀ p ∈ es ++ ps ++ fs,
      p ∈ es ∧ (h.mem.slab p).freeCount = (h.mem.cache c).objCountPerSlab
        ∨ p ∈ ps ∧ (h.mem.slab p).freeCount ≠ (h.mem.cache c).objCountPerSlab ∧ (h.mem.slab p).freeCount ≠ 0
        ∨ p ∈ fs ∧ (h.mem.slab p).freeCount = 0 := by
    intro p hp
    simp only [List.mem_append] at hp
    rcases hp with (hp | hp) | hp
    . exact Or.inl ⟨hp, hlists.empty_count p hp⟩
    . exact Or.inr (Or.inl ⟨hp, hlists.part_count p hp⟩)
    . exact Or.inr (Or.inr ⟨hp, hlists.full_count p hp⟩)
  constructor
  . exact hlists.empty
  . exact hlists.part
  . exact hlists.full
  . exact hlists.nodup hpos
  . exact hlists.mem
  . intro p hp
    have hp := hcount p hp
    refine ⟨hlists.empty_count p, ?_⟩
    intro heq
    grind
  . intro p hp
    have hp := hcount p hp
    refine ⟨hlists.full_count p, ?_⟩
    intro heq
    grind
  . intro p hp
    have hp := hcount p hp
    refine ⟨hlists.part_count p, ?_⟩
    intro heq
    grind

def HasSlab (h : SlabHeap) : Option (Option Nat) → Prop
  | some (some kmem) => ¬ NeedsPage h.mem kmem
  | _ => True

/--
No step takes a new slab, and `kmalloc` is not asked for 2048 bytes, where it reads behind `quick_alloc_table`.
-/
def KeepsLists (fuel : Nat) (h : SlabHeap) : SlabOp → Prop
  | .kmalloc size _ => size.toNat ≠ 2048 ∧ h.HasSlab (h.mem.kmemFor fuel size.toNat KMEM_FLAG_COMFORT 0)
  | .kmallocS size _ => h.HasSlab (h.mem.kmemFor fuel size.toNat KMEM_FLAG_STRICT 0)
  | .qsmalloc quickalloc _ => h.HasSlab (h.mem.kmemFor fuel 0 KMEM_FLAG_STRICT quickalloc)
  | .kfree i => NoRelease h (.kfree i)

structure Listed (caches : List Nat) (recs : List SlabBlock) (h : SlabHeap) : Prop where
  inv : Inv caches recs h
  lists : ∀ c ∈ caches, ∃ es ps fs, h.mem.IsLists h.pages c es ps fs

theorem Listed.listsOk (hlisted : Listed caches recs h) : h.ListsOk := by
  intro c hc
  have hc := hlisted.inv.ready.mem_of_isCache hc
  obtain ⟨es, ps, fs, hlists⟩ := hlisted.lists c hc
  exact ⟨es, ps, fs, slabLists_of_isLists hlists (hlisted.inv.kept.cache c hc).objCount_pos⟩

theorem comfortKmem_isSome {s : SlabMem} {sz i m left : Nat} (hsz : sz < 2 ^ m) (hm : 0 < m) (hleft : m ≤ left)
    (hi : i + m < 12)
    : ∃ kmem, s.comfortKmem sz i left = some kmem := by
  induction left generalizing sz i m with
  | zero => omega
  | succ left ih =>
    simp only [comfortKmem]
    split
    . rw [if_pos (by omega)]
      exact ⟨_, rfl⟩
    . next hne =>
      obtain ⟨m, rfl⟩ : ∃ m', m = m' + 1 := ⟨m - 1, by omega⟩
      rw [Nat.pow_succ] at hsz
      have hm : m ≠ 0 := by
        rintro rfl
        omega
      exact ih (show sz / 2 < 2 ^ m by omega) (by omega) (by omega) (by omega)

theorem Inv.kmemFor_isSome (hinv : Inv caches recs h) {size flags quickalloc : Nat} (hfuel : caches.length ≤ fuel)
    (hflags : flags = KMEM_FLAG_COMFORT ∧ size ≠ 2048 ∨ flags = KMEM_FLAG_STRICT)
    : ∃ kmem, h.mem.kmemFor fuel size flags quickalloc = some kmem := by
  rw [kmemFor]
  split
  . exact ⟨none, rfl⟩
  . next hsize =>
    split
    . next hcomfort =>
      have hne : size ≠ 2048 := by
        cases hflags with
        | inl hflags => exact hflags.2
        | inr hflags =>
          rw [hflags] at hcomfort
          contradiction
      have hle : SLAB_SIZE / 2 = 2048 := rfl
      obtain ⟨kmem, hkmem⟩ := @comfortKmem_isSome h.mem size 0 11 12 (show size < 2 ^ 11 by omega) (by decide)
        (by decide) (by decide)
      rw [hkmem]
      exact ⟨some kmem, rfl⟩
    . next hcomfort =>
      rw [if_pos (hflags.resolve_left (fun hflags => hcomfort hflags.1))]
      split
      . exact ⟨some quickalloc, rfl⟩
      . have hne : h.mem.kmemKmem ≠ 0 := by
          have hkernel := hinv.kernel _ hinv.ready.kmemKmem
          omega
        obtain ⟨kmem, hkmem⟩ := (@queryKmem.loop_spec h.mem fuel size _ _ hinv.ready.chain hne hinv.kernel).2 hfuel
        rw [queryKmem, hkmem]
        exact ⟨_, rfl⟩

theorem Listed.allocated (hlisted : Listed caches recs h) {size flags quickalloc page : Nat}
    (hfuel : caches.length ≤ fuel)
    (hflags : flags = KMEM_FLAG_COMFORT ∧ size ≠ 2048 ∨ flags = KMEM_FLAG_STRICT)
    (hquick : quickalloc = 0 ∨ quickalloc ∈ caches ∧ size = 0)
    (hslab : h.HasSlab (h.mem.kmemFor fuel size flags quickalloc))
    : ∃ kmem ret mem,
        h.mem.kmemFor fuel size flags quickalloc = some kmem
          ∧ h.mem.kmallocFlags fuel size flags quickalloc page = some (ret, mem)
          ∧ Listed caches recs (h.allocated kmem size page ret mem) := by
  obtain ⟨kmem, hkmem⟩ := @Inv.kmemFor_isSome _ _ _ _ hlisted.inv size flags quickalloc hfuel hflags
  rw [hkmem] at hslab
  cases kmem with
  | none =>
    have hpageOk : h.PageOk page (h.mem.kmemFor fuel size flags quickalloc) := by
      rw [hkmem]
      trivial
    have hret : h.mem.kmallocFlags fuel size flags quickalloc page = some (0, h.mem) := by
      simp [kmallocFlags, hkmem]
    exact ⟨none, 0, h.mem, hkmem, hret, hlisted.inv.allocated hquick hpageOk hkmem hret, hlisted.lists⟩
  | some kmem =>
    have hneeds : ¬ NeedsPage h.mem kmem := hslab
    have hpageOk : h.PageOk page (h.mem.kmemFor fuel size flags quickalloc) := by
      rw [hkmem]
      exact fun hneeds => absurd hneeds hslab
    have hmem := hlisted.inv.ready.kmemFor_mem hlisted.inv.kernel hquick hkmem
    obtain ⟨es, ps, fs, hlists⟩ := hlisted.lists kmem hmem.1
    obtain ⟨ret, mem, p, es', ps', fs', halloc, hmoved, hlists'⟩ :=
      @Kept.allocFromKmem_isLists _ _ _ _ _ _ _ kmem page hlisted.inv.kept hmem.1 hlists hneeds
    have hret : h.mem.kmallocFlags fuel size flags quickalloc page = some (ret, mem) := by
      simp [kmallocFlags, hkmem, halloc]
    refine ⟨some kmem, ret, mem, hkmem, hret, hlisted.inv.allocated hquick hpageOk hkmem hret, ?_⟩
    rw [SlabHeap.allocated]
    simp only [if_neg hneeds]
    intro c hc
    by_cases hne : c = kmem
    . subst hne
      exact ⟨es', ps', fs', hlists'⟩
    . obtain ⟨es, ps, fs, hlists⟩ := hlisted.lists c hc
      exact ⟨es, ps, fs, hmoved.isLists_of_ne hlists hne⟩

theorem Listed.step (hlisted : Listed caches recs h) {op : SlabOp} (hfuel : caches.length ≤ fuel)
    (hallowed : Allowed fuel h op) (hop : KeepsLists fuel h op)
    : ∃ h', h.step fuel op = some h' ∧ Listed caches recs h' := by
  cases op with
  | kmalloc size page =>
    obtain ⟨kmem, ret, mem, hkmem, hret, hlisted'⟩ :=
      @Listed.allocated _ _ _ _ hlisted size.toNat KMEM_FLAG_COMFORT 0 page hfuel (Or.inl ⟨rfl, hop.1⟩) (Or.inl rfl) hop.2
    exact ⟨_, by simp [SlabHeap.step, kmalloc, hkmem, hret], hlisted'⟩
  | kmallocS size page =>
    obtain ⟨kmem, ret, mem, hkmem, hret, hlisted'⟩ :=
      @Listed.allocated _ _ _ _ hlisted size.toNat KMEM_FLAG_STRICT 0 page hfuel (Or.inr rfl) (Or.inl rfl) hop
    exact ⟨_, by simp [SlabHeap.step, kmallocS, hkmem, hret], hlisted'⟩
  | qsmalloc quickalloc page =>
    have hquick : quickalloc = 0 ∨ quickalloc ∈ caches ∧ 0 = 0 :=
      hallowed.1.imp_right (fun hcache => ⟨hlisted.inv.ready.mem_of_isCache hcache, rfl⟩)
    obtain ⟨kmem, ret, mem, hkmem, hret, hlisted'⟩ :=
      @Listed.allocated _ _ _ _ hlisted 0 KMEM_FLAG_STRICT quickalloc page hfuel (Or.inr rfl) hquick hop
    exact ⟨_, by simp [SlabHeap.step, qsmalloc, hkmem, hret], hlisted'⟩
  | kfree i =>
    have hb : h.live[i]? = some h.live[i] := List.getElem?_eq_getElem hallowed
    have hstep : h.step fuel (.kfree i) = some { h with live := h.live.eraseIdx i } := by
      simp [SlabHeap.step, kfree, hb, hop _ hb]
    refine ⟨_, hstep, hlisted.inv.step hallowed hop hstep, ?_⟩
    exact hlisted.lists

theorem listed_of_booting {mem : SlabMem} {page : Nat} (hpage : IsPage page) (h : Booting mem page 12 recs)
    : Listed (mem.kmemKmem :: recs.map SlabBlock.addr) recs ⟨mem, [], [page]⟩ := by
  have hparent := (h.boot.slab (by decide)).parent
  refine ⟨⟨h.kept, h.ready⟩, ?_⟩
  intro c hc
  cases List.mem_cons.mp hc with
  | inl hc =>
    have hne : page ≠ 0 := by
      have hkernel := hpage.kernel
      omega
    have hcount : (mem.cache c).objCountPerSlab = 113 := by
      rw [(h.kept.cache c (by simp [hc])).objCountPerSlab, hc, h.objSize]
      rfl
    have hfree : (mem.slab page).freeCount = 101 := by
      have hfree := (h.boot.slab (by decide)).freeCount
      rw [← hc, hcount] at hfree
      omega
    subst hc
    refine ⟨[], [page], [], ?_⟩
    constructor
    . exact h.boot.empty
    . exact ⟨h.boot.part, hne, h.boot.next (by decide)⟩
    . exact h.boot.full
    . intro q
      simp only [List.nil_append, List.append_nil, List.mem_singleton]
      refine ⟨?_, And.left⟩
      rintro rfl
      exact ⟨rfl, hparent⟩
    . intro q hq
      contradiction
    . intro q hq
      rw [List.mem_singleton.mp hq, hfree, hcount]
      decide
    . intro q hq
      contradiction
  | inr hc =>
    have hlists := h.lists c hc
    refine ⟨[], [], [], ?_⟩
    constructor
    . exact hlists.1
    . exact hlists.2.1
    . exact hlists.2.2
    . intro q
      simp only [List.append_nil, List.mem_singleton, List.not_mem_nil, false_iff, not_and]
      rintro rfl heq
      rw [hparent] at heq
      rw [← heq] at hc
      exact h.fresh hc
    all_goals
      intro q hq
      contradiction

/--
After `slab_init`, and as long as no step takes a new slab and nothing is released, the lists are right.
-/
theorem listsOk_of_keepsLists (free : Nat → FreeNode) (slab : Nat → SlabHeader) (cache : Nat → KmemCache)
    {kmemKmem : Nat} {turns : Nat → Nat} (hkernel : 0x80000000 ≤ kmemKmem) (hpage : IsPage (turns 0))
    (hkmem : kmemKmem / SLAB_SIZE ≠ turns 0 / SLAB_SIZE)
    : ∃ mem,
        (boot free slab cache kmemKmem).slabInit turns = some mem
          ∧ ∀ fuel ops n,
            13 ≤ fuel
              → Run.Guarded (step fuel) (fun h op => Allowed fuel h op ∧ KeepsLists fuel h op) ⟨mem, [], [turns 0]⟩ ops
              → ∃ h, Run.run (step fuel) ⟨mem, [], [turns 0]⟩ (ops.take n) = some h ∧ h.ListsOk := by
  obtain ⟨mem, recs, hinit, -, hbooting⟩ := slabInit_booting free slab cache hkernel hpage hkmem
  refine ⟨mem, hinit, ?_⟩
  intro fuel ops n hfuel hguarded
  have hlength : (mem.kmemKmem :: recs.map SlabBlock.addr).length ≤ fuel := by
    rw [List.length_cons, List.length_map, hbooting.length]
    exact hfuel
  rw [← List.take_append_drop n ops] at hguarded
  obtain ⟨h, hrun, hlisted⟩ :=
    hguarded.of_append.progress (fun _ _ hlisted hop => Listed.step hlisted hlength hop.1 hop.2)
      (listed_of_booting hpage hbooting)
  exact ⟨h, hrun, hlisted.listsOk⟩

theorem Inv.not_listsOk_of_needsPage (hinv : Inv caches recs h) {c page ret : Nat} {mem : SlabMem}
    {live : List SlabBlock} (hc : h.mem.IsCache c) (hneeds : NeedsPage h.mem c) (hpage : IsPage page)
    (hfresh : page ∉ h.pages) (halloc : h.mem.allocFromKmem c page = some (ret, mem))
    : ¬ ListsOk ⟨mem, live, page :: h.pages⟩ := by
  have hmem := hinv.ready.mem_of_isCache hc
  have hpos := (hinv.kept.cache c hmem).objCount_pos
  have hkernel := hinv.kernel c hmem
  have hne : page ≠ 0 := by
    have hkernel := hpage.kernel
    omega
  obtain ⟨s₁, hcreat, hsame₁, hslab₁, -, hcache₁, hkept₁⟩ := hinv.kept.grow hmem hpage hfresh
  rw [← hsame₁.objCountPerSlab] at hpos
  obtain ⟨s₂, heq, hcache₂, hsame₂, hslab₂, -, -⟩ :=
    hkept₁.allocFromSlab hmem List.mem_cons_self hslab₁ hpos (Nat.zero_le _)
  rw [hsame₁.objSize] at heq
  rw [allocFromKmem_of_needsPage hkernel hneeds, hcreat, Option.bind_some, heq, Option.map_some] at halloc
  obtain ⟨-, rfl⟩ := Prod.mk.inj (Option.some.inj halloc)
  have hrelinked := relinked_fromPartial s₂ c page
  have hempty : ((s₂.fromPartial c page).cache c).emptySlab = page := by
    have hempty₂ : (s₂.cache c).emptySlab = page := by
      rw [hcache₂, hcache₁]
      simp [setCache]
    rw [fromPartial]
    split <;> simp [setSlab, setCache, hempty₂]
  have hcount := hslab₂.freeCount
  intro hok
  obtain ⟨es, ps, fs, hlists⟩ := hok c (by
    rw [IsCache, hrelinked.caches.kmemKmem, hrelinked.caches.quickAllocTable, hsame₂.kmemKmem, hsame₂.quickAllocTable,
      hsame₁.kmemKmem, hsame₁.quickAllocTable]
    exact hc)
  have hfollows := hlists.empty
  rw [hempty] at hfollows
  obtain ⟨es', rfl, -⟩ := hfollows.ne_nil hne
  have hfull := (hlists.mem_empty page (by simp)).mp List.mem_cons_self
  rw [hrelinked.freeCount, hrelinked.caches.objCountPerSlab] at hfull
  omega

instance (h : SlabHeap) : (kmem : Option (Option Nat)) → Decidable (h.HasSlab kmem)
  | none => isTrue trivial
  | some none => isTrue trivial
  | some (some _) => instDecidableNot

instance (fuel : Nat) (h : SlabHeap) : (op : SlabOp) → Decidable (KeepsLists fuel h op)
  | .kmalloc _ _ => instDecidableAnd
  | .kmallocS _ _ => inferInstanceAs (Decidable (HasSlab _ _))
  | .qsmalloc _ _ => inferInstanceAs (Decidable (HasSlab _ _))
  | .kfree i => inferInstanceAs (Decidable (NoRelease h (.kfree i)))

theorem listsOk_of_keepsLists_two
    : ∃ h,
        Run.run (step 13) ⟨booted, [], [0xC0200000]⟩ [.kmallocS 28 0, .kmalloc 3000 0] = some h ∧ h.ListsOk := by
  obtain ⟨mem, hinit, hlists⟩ :=
    @listsOk_of_keepsLists (fun _ => ⟨0, 0⟩) (fun _ => ⟨0, 0, 0, 0, 0⟩) (fun _ => ⟨0, 0, 0, 0, 0, 0, 0⟩) 0xC0100000
      (fun _ => 0xC0200000) (by decide) (by decide) (by decide)
  rw [slabInit_booted] at hinit
  rw [← Option.some.inj hinit] at hlists
  exact hlists 13 [.kmallocS 28 0, .kmalloc 3000 0] 2 (by decide) (by decide +kernel)

/--
The first allocation from a cache of `quick_alloc_table` leaves its new slab on the empty list.
-/
theorem not_listsOk
    : ∃ h,
        Run.Guarded (step 13) (Allowed 13) ⟨booted, [], [0xC0200000]⟩ [.kmalloc 1 0xC0201000]
          ∧ Run.run (step 13) ⟨booted, [], [0xC0200000]⟩ [.kmalloc 1 0xC0201000] = some h
          ∧ ¬ h.ListsOk := by
  have hrun := Option.eq_some_of_isSome (show (Run.run (step 13) ⟨booted, [], [0xC0200000]⟩
    [.kmalloc 1 0xC0201000]).isSome by decide +kernel)
  refine ⟨_, by decide +kernel, hrun, ?_⟩
  generalize hh : (Run.run (step 13) ⟨booted, [], [0xC0200000]⟩ [.kmalloc 1 0xC0201000]).get _ = h
  have hempty : (h.mem.cache (h.mem.quickAllocTable 1)).emptySlab = 0xC0201000 := by
    rw [← hh]
    decide +kernel
  have hcount : (h.mem.slab 0xC0201000).freeCount
      ≠ (h.mem.cache (h.mem.quickAllocTable 1)).objCountPerSlab := by
    rw [← hh]
    decide +kernel
  intro hok
  obtain ⟨es, ps, fs, hlists⟩ := hok (h.mem.quickAllocTable 1) (Or.inr ⟨1, rfl⟩)
  obtain ⟨es', rfl, -⟩ := hlists.empty.ne_nil (by rw [hempty]; decide)
  rw [hempty] at hlists
  exact hcount ((hlists.mem_empty 0xC0201000 (by simp)).mp (by simp))

end SlabHeap
end Osproj
