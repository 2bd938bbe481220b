import Osproj.Mm.Impl.Slab

/-!
This module contains what `creat_slab` and `alloc_from_slab` do to the page of a slab. Objects are handed out in the
order of their indices, so the list of the free objects of a slab is the tail of its array from the first one that was
never handed out.
-/

namespace Osproj

open Slab

namespace SlabMem

variable {s s' : SlabMem} {page n k c : Nat}

def node (page i : Nat) : Nat := page + SIZEOF_SLAB + SIZEOF_FREE * i

/--
The page is a slab of `c` with `n` objects, the first `k` of which were handed out.
-/
structure SlabOk (s : SlabMem) (page n k c : Nat) : Prop where
  used_le : k ≤ n
  start : (s.slab page).start = node page n
  free : (s.slab page).free = if k < n then node page k else 0
  freeCount : (s.slab page).freeCount + k = n
  parent : (s.slab page).parent = c
  nodes : ∀ i, k ≤ i → i < n → s.free (node page i) = ⟨i, if i + 1 < n then node page (i + 1) else 0⟩

structure IsPage (page : Nat) : Prop where
  aligned : page % SLAB_SIZE = 0
  kernel : 0x80000000 ≤ page
  size : page + SLAB_SIZE ≤ 0x100000000

structure SameOff (page : Nat) (s s' : SlabMem) : Prop where
  free : ∀ a, a / SLAB_SIZE ≠ page / SLAB_SIZE → s'.free a = s.free a
  slab : ∀ a, a ≠ page → s'.slab a = s.slab a
  cache : s'.cache = s.cache
  kmemKmem : s'.kmemKmem = s.kmemKmem
  quickAllocTable : s'.quickAllocTable = s.quickAllocTable

theorem node_succ (page i : Nat) : node page i + SIZEOF_FREE = node page (i + 1) := by
  simp only [node, SIZEOF_FREE]
  omega

theorem node_inj {i j : Nat} : node page i = node page j ↔ i = j := by
  simp only [node, SIZEOF_FREE]
  omega

theorem IsPage.node_div (hpage : IsPage page) (hn : node page n ≤ page + SLAB_SIZE) {i : Nat} (hi : i < n)
    : node page i / SLAB_SIZE = page / SLAB_SIZE := by
  have haligned := hpage.aligned
  simp only [node, SIZEOF_SLAB, SIZEOF_FREE, SLAB_SIZE] at *
  omega

theorem IsPage.div_ne {page' : Nat} (hpage : IsPage page) (hpage' : IsPage page') (hne : page ≠ page')
    : page / SLAB_SIZE ≠ page' / SLAB_SIZE := by
  have haligned := hpage.aligned
  have haligned' := hpage'.aligned
  simp only [SLAB_SIZE] at *
  omega

theorem objCount_mul_le {objSize : Nat} : (SIZEOF_FREE + objSize) * objCount objSize ≤ SLAB_SIZE - SIZEOF_SLAB := by
  exact Nat.mul_div_le _ _

theorem node_objCount_le {objSize : Nat}
    : node page (objCount objSize) + objSize * objCount objSize ≤ page + SLAB_SIZE := by
  have hle := @objCount_mul_le objSize
  rw [Nat.add_mul] at hle
  simp only [node, SIZEOF_SLAB, SLAB_SIZE] at *
  omega

theorem node_le {objSize : Nat} (hn : n = objCount objSize) : node page n ≤ page + SLAB_SIZE := by
  have hle := @node_objCount_le page objSize
  rw [← hn] at hle
  omega

theorem freeAt_of_le {a : Nat} (h : 0x80000000 ≤ a) : s.freeAt a = some (s.free a) := by
  rw [freeAt, if_neg (by omega)]

theorem slabAt_of_le {a : Nat} (h : 0x80000000 ≤ a) : s.slabAt a = some (s.slab a) := by
  rw [slabAt, if_neg (by omega)]

theorem cacheAt_of_le {a : Nat} (h : 0x80000000 ≤ a) : s.cacheAt a = some (s.cache a) := by
  rw [cacheAt, if_neg (by omega)]

theorem field_setSlab {β : Type} (f : SlabHeader → β) {header : SlabHeader} (h : f header = f (s.slab page)) (q : Nat)
    : f ((s.setSlab page header).slab q) = f (s.slab q) := by
  simp only [setSlab]
  split
  . next heq => rw [heq, h]
  . rfl

theorem field_setCache {β : Type} (f : KmemCache → β) {cache : KmemCache} (h : f cache = f (s.cache c)) (a : Nat)
    : f ((s.setCache c cache).cache a) = f (s.cache a) := by
  simp only [setCache]
  split
  . next heq => rw [heq, h]
  . rfl

theorem creatSlab.loop_spec (s : SlabMem) (page i left : Nat)
    : ∃ free,
        creatSlab.loop s (node page i) (node page i) i left
            =
          ({ s with free := free }, node page (i + left), node page (i + left))
          ∧ (∀ j, i ≤ j → j < i + left → free (node page j) = ⟨j, node page (j + 1)⟩)
          ∧ (∀ a, (∀ j, i ≤ j → j < i + left → a ≠ node page j) → free a = s.free a) := by
  induction left generalizing s i with
  | zero => exact ⟨s.free, rfl, by omega, fun a _ => rfl⟩
  | succ left ih =>
    simp only [loop, node_succ]
    specialize ih (((s.setFree (node page i) { s.free (node page i) with index := i }).setFree (node page i)
      { (s.setFree (node page i) { s.free (node page i) with index := i }).free (node page i) with
        next := node page (i + 1) })) (i + 1)
    cases ih with
    | intro free ih =>
      refine ⟨free, ?_, ?_, ?_⟩
      . rw [ih.1]
        simp only [setFree, Prod.mk.injEq, node_inj, true_and]
        omega
      . intro j hj hlt
        cases Nat.eq_or_lt_of_le hj with
        | inl heq =>
          rw [← heq, ih.2.2 _ (fun j hj _ => by rw [ne_eq, node_inj]; omega)]
          simp [setFree]
        | inr hlt' => exact ih.2.1 j hlt' (by omega)
      . intro a ha
        have hne : a ≠ node page i := ha i (Nat.le_refl i) (by omega)
        rw [ih.2.2 a (fun j hj hlt => ha j (by omega) (by omega))]
        simp [setFree, hne]

theorem creatSlab_spec (hpage : IsPage page) (hn : 0 < n) (hfit : node page n ≤ page + SLAB_SIZE)
    : ∃ s',
        s.creatSlab page n = some s'
          ∧ s'.slab page = ⟨node page n, n, (s.slab page).parent, node page 0, 0⟩
          ∧ (∀ i, i < n → s'.free (node page i) = ⟨i, if i + 1 < n then node page (i + 1) else 0⟩)
          ∧ SameOff page s s' := by
  have hloop := creatSlab.loop_spec
    (s.setSlab page { s.slab page with freeCount := n, next := 0, free := page + SIZEOF_SLAB }) page 0 n
  cases hloop with
  | intro free hloop =>
    have hlast : node page (0 + n) - SIZEOF_FREE = node page (n - 1) := by
      simp only [node, SIZEOF_FREE]
      omega
    simp only [creatSlab, slabAt_of_le hpage.kernel, Option.bind_eq_bind, Option.bind_some]
    rw [show page + SIZEOF_SLAB = node page 0 from rfl] at *
    rw [hloop.1]
    refine ⟨_, rfl, ?_, ?_, ?_⟩
    . simp [setSlab, setFree]
    . intro i hi
      simp only [setSlab, setFree, hlast, node_inj]
      cases Nat.eq_or_lt_of_le (show i ≤ n - 1 by omega) with
      | inl heq =>
        rw [if_pos heq, if_neg (by omega), ← heq, hloop.2.1 i (by omega) (by omega)]
      | inr hlt =>
        rw [if_neg (by omega), if_pos (by omega), hloop.2.1 i (by omega) (by omega)]
    . constructor
      . intro a ha
        have hne : ∀ j, j < n → a ≠ node page j := by
          intro j hj heq
          rw [heq, hpage.node_div hfit hj] at ha
          exact ha rfl
        simp only [setSlab, setFree, hlast, hne (n - 1) (by omega), if_false]
        exact hloop.2.2 a (fun j _ hj => hne j (by omega))
      . intro a ha
        simp [setSlab, setFree, ha]
      . rfl
      . rfl
      . rfl

namespace SlabOk

theorem lt_of_freeAt (h : SlabOk s page n k c) (hfree : s.freeAt (s.slab page).free ≠ none) : k < n := by
  by_contra hlt
  rw [h.free, if_neg hlt] at hfree
  exact hfree rfl

theorem congr (h : SlabOk s page n k c)
    (hstart : (s'.slab page).start = (s.slab page).start)
    (hfree : (s'.slab page).free = (s.slab page).free)
    (hcount : (s'.slab page).freeCount = (s.slab page).freeCount)
    (hparent : (s'.slab page).parent = (s.slab page).parent)
    (hnodes : ∀ i, i < n → s'.free (node page i) = s.free (node page i))
    : SlabOk s' page n k c := by
  constructor
  . exact h.used_le
  . rw [hstart, h.start]
  . rw [hfree, h.free]
  . rw [hcount, h.freeCount]
  . rw [hparent, h.parent]
  . intro i hk hn
    rw [hnodes i hn, h.nodes i hk hn]

theorem sameOff {page' : Nat} (h : SlabOk s page n k c) (hpage : IsPage page) (hpage' : IsPage page')
    (hne : page ≠ page') (hfit : node page n ≤ page + SLAB_SIZE) (hsame : SameOff page' s s')
    : SlabOk s' page n k c := by
  have hslab := hsame.slab page hne
  apply h.congr
  . rw [hslab]
  . rw [hslab]
  . rw [hslab]
  . rw [hslab]
  . intro i hi
    apply hsame.free
    rw [hpage.node_div hfit hi]
    exact hpage.div_ne hpage' hne

theorem allocFromSlab_mod (h : SlabOk s page n k c) (hpage : IsPage page) (hk : k < n)
    (hfit : node page n ≤ page + SLAB_SIZE) (objSize : Nat)
    : s.allocFromSlab page objSize
        =
      some (
        (node page n + objSize * k) % 0x100000000,
        s.setSlab page { s.slab page with
          free := if k + 1 < n then node page (k + 1) else 0
          freeCount := n - (k + 1) }
      ) := by
  have hfree := h.free
  rw [if_pos hk] at hfree
  have hle : 0x80000000 ≤ node page k := by
    have hkernel := hpage.kernel
    simp only [node]
    omega
  have hcount : ((s.slab page).freeCount + 0xFFFFFFFF) % 0x100000000 = n - (k + 1) := by
    have hcount := h.freeCount
    have hsize := hpage.size
    have hlt : n ≤ node page n := by
      simp only [node, SIZEOF_FREE]
      omega
    simp only [SLAB_SIZE] at *
    omega
  simp only [allocFromSlab, slabAt_of_le hpage.kernel, hfree, freeAt_of_le hle, h.nodes k (Nat.le_refl k) hk,
    Option.bind_eq_bind, Option.bind_some, hcount, h.start]
  rfl

theorem allocFromSlab_eq (h : SlabOk s page n k c) (hpage : IsPage page) (hk : k < n) {objSize : Nat}
    (hfit : node page n + objSize * n ≤ page + SLAB_SIZE)
    : s.allocFromSlab page objSize
        =
      some (
        node page n + objSize * k,
        s.setSlab page { s.slab page with
          free := if k + 1 < n then node page (k + 1) else 0
          freeCount := n - (k + 1) }
      ) := by
  have haddr : (node page n + objSize * k) % 0x100000000 = node page n + objSize * k := by
    have hsize := hpage.size
    have hle : objSize * k ≤ objSize * n := Nat.mul_le_mul_left _ (Nat.le_of_lt hk)
    -- the array does not end where the page does
    have hlt : objSize * k < objSize * n ∨ objSize * k = 0 ∧ node page n < page + SLAB_SIZE := by
      by_cases hobj : objSize = 0
      . right
        simp only [node, SIZEOF_SLAB, SIZEOF_FREE, SLAB_SIZE, hobj, Nat.zero_mul, true_and] at *
        omega
      . exact Or.inl (Nat.mul_lt_mul_of_pos_left hk (Nat.pos_of_ne_zero hobj))
    apply Nat.mod_eq_of_lt
    omega
  rw [h.allocFromSlab_mod hpage hk (by omega), haddr]

theorem setParent (h : SlabOk s page n k c) (c' : Nat)
    : SlabOk (s.setSlab page { s.slab page with parent := c' }) page n k c' := by
  constructor
  . exact h.used_le
  . simpa [setSlab] using h.start
  . simpa [setSlab] using h.free
  . simpa [setSlab] using h.freeCount
  . simp [setSlab]
  . exact h.nodes

theorem next_object (h : SlabOk s page n k c) (hk : k < n)
    : SlabOk (s.setSlab page { s.slab page with
        free := if k + 1 < n then node page (k + 1) else 0
        freeCount := n - (k + 1) }) page n (k + 1) c := by
  constructor
  . exact hk
  . simpa [setSlab] using h.start
  . simp [setSlab]
  . simp only [setSlab, if_true]
    omega
  . simpa [setSlab] using h.parent
  . intro i hi hn
    exact h.nodes i (by omega) hn

end SlabOk

theorem slabOk_creatSlab (s : SlabMem) (hpage : IsPage page) (hn : 0 < n) (hfit : node page n ≤ page + SLAB_SIZE)
    : ∃ s', s.creatSlab page n = some s' ∧ SlabOk s' page n 0 (s.slab page).parent
        ∧ (s'.slab page).next = 0 ∧ SameOff page s s' := by
  obtain ⟨s', hcreat, hheader, hnodes, hsame⟩ := @creatSlab_spec s page n hpage hn hfit
  refine ⟨s', hcreat, ?_, by rw [hheader], hsame⟩
  constructor
  . exact Nat.zero_le n
  . rw [hheader]
  . rw [hheader, if_pos hn]
  . rw [hheader, Nat.add_zero]
  . rw [hheader]
  . intro i _ hi
    exact hnodes i hi

end SlabMem
end Osproj
