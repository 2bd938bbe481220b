import Osproj.Mm.Lemmas.SlabFreeList

/-!
This module contains the layout of the page of a slab: the header, the array of free nodes and the objects lie one
behind the other, and `kfree` finds the slab and the index of an object from its address.
-/

namespace Osproj

open Slab

structure Area where
  start : Nat
  size : Nat

namespace Area

def Before (a b : Area) : Prop := a.start + a.size ≤ b.start

def Inside (a : Area) (page : Nat) : Prop := page ≤ a.start ∧ a.start + a.size ≤ page + SLAB_SIZE

end Area

namespace SlabMem

open Area

variable {s s' : SlabMem} {page size i n c : Nat}

def objectAddr (page size i : Nat) : Nat := node page (objCount size) + size * i

def areas (page size : Nat) : List Area :=
  ⟨page, SIZEOF_SLAB⟩ :: ((List.range (objCount size)).map (fun i => ⟨node page i, SIZEOF_FREE⟩)
    ++ (List.range (objCount size)).map (fun i => ⟨objectAddr page size i, size⟩))

section Areas

theorem pairwise_before {f : Nat → Nat} {size : Nat} (hsucc : ∀ i j, i < j → f i + size ≤ f j) (n : Nat)
    : ((List.range n).map (fun i => (⟨f i, size⟩ : Area))).Pairwise Before := by
  rw [List.pairwise_map]
  apply List.pairwise_lt_range.imp
  intro i j hij
  exact hsucc i j hij

theorem node_before {j : Nat} (hij : i < j) : node page i + SIZEOF_FREE ≤ node page j := by
  simp only [node, SIZEOF_FREE]
  omega

theorem object_before {j : Nat} (hij : i < j) : objectAddr page size i + size ≤ objectAddr page size j := by
  have hle : size * (i + 1) ≤ size * j := Nat.mul_le_mul_left size hij
  rw [Nat.mul_succ] at hle
  simp only [objectAddr]
  omega

theorem object_end (hi : i < objCount size) : objectAddr page size i + size ≤ page + SLAB_SIZE := by
  have hfit := @node_objCount_le page size
  have hle : size * (i + 1) ≤ size * objCount size := Nat.mul_le_mul_left size hi
  rw [Nat.mul_succ] at hle
  simp only [objectAddr]
  omega

theorem areas_pairwise (page size : Nat) : (areas page size).Pairwise Before := by
  rw [areas, List.pairwise_cons, List.pairwise_append]
  refine ⟨?_, ?_, ?_, ?_⟩
  . intro a ha
    rw [List.mem_append, List.mem_map, List.mem_map] at ha
    rcases ha with ⟨i, -, rfl⟩ | ⟨i, -, rfl⟩
    . simp only [Before, node]
      omega
    . simp only [Before, objectAddr, node]
      omega
  . apply pairwise_before
    intro i j hij
    exact node_before hij
  . apply pairwise_before
    intro i j hij
    exact object_before hij
  . intro a ha b hb
    obtain ⟨i, hi, rfl⟩ := List.mem_map.mp ha
    obtain ⟨j, -, rfl⟩ := List.mem_map.mp hb
    have hbefore := @node_before page i (objCount size) (List.mem_range.mp hi)
    simp only [Before, objectAddr]
    omega

theorem areas_inside (page size : Nat) : ∀ a ∈ areas page size, a.Inside page := by
  intro a ha
  rw [areas, List.mem_cons, List.mem_append, List.mem_map, List.mem_map] at ha
  rcases ha with rfl | ⟨i, hi, rfl⟩ | ⟨i, hi, rfl⟩
  . constructor
    . exact Nat.le_refl page
    . exact Nat.add_le_add_left (show SIZEOF_SLAB ≤ SLAB_SIZE by decide) page
  . have hbefore := @node_before page i (objCount size) (List.mem_range.mp hi)
    have hfit := @node_objCount_le page size
    constructor
    . simp only [node]
      omega
    . simp only
      omega
  . constructor
    . simp only [objectAddr, node]
      omega
    . exact object_end (List.mem_range.mp hi)

end Areas

section Inversion

theorem land_mask {a : Nat} (ha : a < 0x100000000) : a &&& 0xfffff000 = a / 0x1000 * 0x1000 := by
  have hmask : (0xfffff000 : Nat) = (2 ^ 20 - 1) <<< 12 := rfl
  have hdiv : a / 0x1000 * 0x1000 = (a >>> 12) <<< 12 := by
    rw [Nat.shiftRight_eq_div_pow, Nat.shiftLeft_eq]
  rw [hmask, hdiv]
  apply Nat.eq_of_testBit_eq
  intro i
  rw [Nat.testBit_and, Nat.testBit_shiftLeft, Nat.testBit_shiftLeft, Nat.testBit_shiftRight,
    Nat.testBit_two_pow_sub_one]
  by_cases hlow : 12 ≤ i
  . by_cases hhigh : i < 32
    . simp [hlow, show i - 12 < 20 by omega]
    . have hbit : a.testBit i = false := by
        apply Nat.testBit_lt_two_pow
        exact Nat.lt_of_lt_of_le ha (Nat.pow_le_pow_right Nat.two_pos (Nat.le_of_not_lt hhigh))
      simp [hbit, show 12 + (i - 12) = i by omega]
  . simp [hlow]

/--
`release_slab` of the object with index `i`: it takes the page for the slab, and the free node is the one with this
index behind the head of the list.
-/
theorem releaseSlab_objectAddr (haligned : page % SLAB_SIZE = 0) (hpage : page + SLAB_SIZE ≤ 0x100000000)
    (hsize : 1 ≤ size) (hi : i < objCount size) (hstart : (s.slab page).start = node page (objCount size))
    (hparent : (s.cache (s.slab page).parent).objSize = size) {slab : Nat}
    (h : s.releaseSlab (objectAddr page size i) = some (slab, s'))
    : slab = page ∧ (s'.slab page).free = ((s.slab page).free + SIZEOF_FREE * i) % 0x100000000 := by
  have hdiv := object_div haligned hi
  have hindex := object_index (Nat.ne_of_gt hsize) (Nat.lt_of_lt_of_le (object_lt hi) hpage)
  simp only [releaseSlab, objectAddr, hdiv, Option.bind_eq_bind, Option.bind_eq_some_iff] at h
  obtain ⟨header, hheader, parent, hcache, h⟩ := h
  have hheader : header = s.slab page := by
    rw [slabAt] at hheader
    split at hheader
    . cases hheader
    . exact (Option.some.inj hheader).symm
  subst hheader
  have hcache : parent = s.cache (s.slab page).parent := by
    rw [cacheAt] at hcache
    split at hcache
    . cases hcache
    . exact (Option.some.inj hcache).symm
  subst hcache
  rw [hparent, if_neg (by omega)] at h
  simp only [hstart, hindex, Option.bind_eq_some_iff] at h
  obtain ⟨node, -, heq⟩ := h
  obtain ⟨hslab, hmem⟩ := Prod.mk.inj (Option.some.inj heq)
  refine ⟨hslab.symm, ?_⟩
  rw [← hmem]
  simp [setSlab]

end Inversion

/--
For every object size of which a page holds at least one and every page: the areas of the slab do not overlap and lie
in the page, `creat_slab` lays them out, and `kfree` gets from the address of an object to the slab and to the index.
-/
theorem slabLayout (page size : Nat) (haligned : page % SLAB_SIZE = 0) (hpage : page < 0x100000000)
    (hsize : 1 ≤ size) (hn : 1 ≤ objCount size)
    : (areas page size).Pairwise Before
        ∧ (∀ a ∈ areas page size, a.Inside page)
        ∧ (∀ i, i < objCount size →
          objectAddr page size i &&& 0xfffff000 = page
            ∧ (objectAddr page size i - node page (objCount size)) / size = i)
        ∧ (0x80000000 ≤ page → ∀ s : SlabMem, ∃ s',
          s.creatSlab page (objCount size) = some s'
            ∧ (s'.slab page).start = node page (objCount size)
            ∧ (s'.slab page).free = node page 0
            ∧ ∀ i, i < objCount size →
              s'.free (node page i) = ⟨i, if i + 1 < objCount size then node page (i + 1) else 0⟩)
        ∧ ∀ (s s' : SlabMem) slab i, i < objCount size → (s.slab page).start = node page (objCount size)
          → (s.cache (s.slab page).parent).objSize = size → s.releaseSlab (objectAddr page size i) = some (slab, s')
          → slab = page ∧ (s'.slab page).free = ((s.slab page).free + SIZEOF_FREE * i) % 0x100000000 := by
  have hle : page + SLAB_SIZE ≤ 0x100000000 := by
    simp only [SLAB_SIZE] at *
    omega
  refine ⟨areas_pairwise page size, areas_inside page size, ?_, ?_, ?_⟩
  . intro i hi
    constructor
    . rw [objectAddr, land_mask (Nat.lt_of_lt_of_le (object_lt hi) hle)]
      exact object_div haligned hi
    . rw [objectAddr, Nat.add_sub_cancel_left]
      exact Nat.mul_div_cancel_left i hsize
  . intro hkernel s
    obtain ⟨s', hcreat, hslab, hfree, -⟩ :=
      @creatSlab_spec s page (objCount size) ⟨haligned, hkernel, hle⟩ hn (node_le rfl)
    refine ⟨s', hcreat, ?_, ?_, hfree⟩
    . rw [hslab]
    . rw [hslab]
  . intro s s' slab i hi hstart hparent h
    exact releaseSlab_objectAddr haligned hle hsize hi hstart hparent h

theorem slabLayout_three
    : (areas 0xC0200000 1000).Pairwise Before
        ∧ objectAddr 0xC0200000 1000 2 &&& 0xfffff000 = 0xC0200000
        ∧ (objectAddr 0xC0200000 1000 2 - node 0xC0200000 3) / 1000 = 2 := by
  have hlayout := slabLayout 0xC0200000 1000 (by decide) (by decide) (by decide) (by decide)
  exact ⟨hlayout.1, hlayout.2.2.1 2 (by decide)⟩

end SlabMem
end Osproj
