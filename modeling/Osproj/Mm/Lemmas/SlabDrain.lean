import Osproj.Mm.Lemmas.SlabFreeList

/-!
This module contains a slab that is used up. `creat_slab` links all nodes of the array in order, and `alloc_from_slab`
takes one after the other from the head of the list.
-/

namespace Osproj

open Slab Chain

namespace SlabMem

variable {s : SlabMem} {page n k c objSize : Nat}

/--
`k` calls of `alloc_from_slab`. Returns the objects.
-/
def drain (s : SlabMem) (slab objSize : Nat) : Nat → Option (List Nat × SlabMem)
  | 0 => some ([], s)
  | k + 1 => do
    let (objs, s) ← drain s slab objSize k
    let (ret, s) ← s.allocFromSlab slab objSize
    return (objs ++ [ret], s)

theorem SlabOk.drain (h : SlabOk s page n 0 c) (hpage : IsPage page) (hfit : node page n ≤ page + SLAB_SIZE)
    (objSize : Nat) (hk : k ≤ n)
    : ∃ s',
        s.drain page objSize k
            =
          some ((List.range k).map (fun i => (node page n + objSize * i) % 0x100000000), s')
          ∧ SlabOk s' page n k c := by
  induction k with
  | zero => exact ⟨s, rfl, h⟩
  | succ k ih =>
    obtain ⟨s₁, hdrain, h₁⟩ := ih (Nat.le_of_succ_le hk)
    refine ⟨_, ?_, h₁.next_object hk⟩
    simp only [SlabMem.drain, hdrain, Option.bind_eq_bind, Option.bind_some, h₁.allocFromSlab_mod hpage hk hfit,
      List.range_succ, List.map_append]
    rfl

/--
A slab whose array of nodes fits the page: the list of the free nodes is the array, the objects begin behind it, and
as many calls as there are objects return these in order and leave nothing.
-/
theorem creatSlab_drain (s : SlabMem) (page n objSize : Nat) (hpage : IsPage page) (hn : 1 ≤ n)
    (hfit : node page n ≤ page + SLAB_SIZE)
    : ∃ s₁,
        s.creatSlab page n = some s₁
          ∧ Follows (fun a => (s₁.free a).next) 0 (s₁.slab page).free ((List.range n).map (node page))
          ∧ (∀ i, i < n → (s₁.free (node page i)).index = i)
          ∧ (s₁.slab page).start = node page (n - 1) + SIZEOF_FREE
          ∧ ∃ s₂,
            s₁.drain page objSize n
                =
              some ((List.range n).map (fun i => ((s₁.slab page).start + objSize * i) % 0x100000000), s₂)
              ∧ (s₂.slab page).free = 0
              ∧ (s₂.slab page).freeCount = 0 := by
  obtain ⟨s₁, hcreat, h₁, -⟩ := slabOk_creatSlab s hpage hn hfit
  obtain ⟨s₂, hdrain, h₂⟩ := h₁.drain hpage hfit objSize (Nat.le_refl n)
  refine ⟨s₁, hcreat, ?_, ?_, ?_, s₂, ?_, ?_, ?_⟩
  . have hfollows := h₁.follows (Nat.zero_le 0) n (Nat.zero_add n)
    rw [← h₁.free, ← List.range_eq_range'] at hfollows
    exact hfollows
  . intro i hi
    rw [h₁.nodes i (Nat.zero_le i) hi]
  . rw [h₁.start, node_succ, Nat.sub_add_cancel hn]
  . rw [hdrain, h₁.start]
  . rw [h₂.free, if_neg (Nat.lt_irrefl n)]
  . have hcount := h₂.freeCount
    omega

theorem creatSlab_drain_three
    : ∃ s₁,
        SlabUse.bare.creatSlab 0xC0200000 3 = some s₁
          ∧ ∃ s₂, s₁.drain 0xC0200000 28 3 = some ([0xC020002C, 0xC0200048, 0xC0200064], s₂)
            ∧ (s₂.slab 0xC0200000).free = 0 ∧ (s₂.slab 0xC0200000).freeCount = 0 := by
  obtain ⟨s₁, hcreat, -, -, hstart, s₂, hdrain, hend⟩ :=
    creatSlab_drain SlabUse.bare 0xC0200000 3 28 ⟨by decide, by decide, by decide⟩ (by decide) (by decide)
  rw [hstart] at hdrain
  exact ⟨s₁, hcreat, s₂, hdrain, hend⟩

end SlabMem
end Osproj
