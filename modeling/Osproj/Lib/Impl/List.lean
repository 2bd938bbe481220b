import Mathlib.Logic.Function.Basic
import Osproj.Mm.Impl.Slab

/-!
This module contains the ring of `list.c`: `list_insert`, `list_delete` and `list_iter`. A `list_node_t **` is the
value of the variable it points to, so that it is never `NULL`. An access through `NULL` returns `none`. The nodes are
kept apart from the slab allocator, but the words that `kfree` writes may hit them.
-/

namespace Osproj

structure ListNode where
  prev : Nat
  next : Nat
  data : Nat

structure ListHeap where
  cell : Nat → ListNode

namespace ListHeap

def set (h : ListHeap) (a : Nat) (node : ListNode) : ListHeap := ⟨Function.update h.cell a node⟩

def setPrev (h : ListHeap) (a prev : Nat) : ListHeap := h.set a { h.cell a with prev }

def setNext (h : ListHeap) (a next : Nat) : ListHeap := h.set a { h.cell a with next }

/--
`node` is what `kmalloc` returns. The result is the memory and the new value of `*head`.
-/
def listInsert (h : ListHeap) (head data node : Nat) : Option (ListHeap × Nat) :=
  if node = 0 then
    none
  else
    let h := h.set node { prev := 0, next := 0, data }
    if head = 0 then
      some ((h.setPrev node node).setNext node node, node)
    else if (h.cell head).next = 0 then
      none
    else
      let h := (h.setNext node (h.cell head).next).setPrev node head
      let h := h.setPrev (h.cell head).next node
      some (h.setNext head node, head)

def setData (h : ListHeap) (a data : Nat) : ListHeap := h.set a { h.cell a with data }

def storeWords (h : ListHeap) (stores : List WordStore) : ListHeap where
  cell := fun a =>
    {
      prev := WordStore.applyAll stores a (h.cell a).prev
      next := WordStore.applyAll stores (a + 4) (h.cell a).next
      data := WordStore.applyAll stores (a + 8) (h.cell a).data
    }

/--
What `list_delete` does before `kfree`.
-/
def unlink (h : ListHeap) (obj : Nat) : ListHeap :=
  if (h.cell obj).prev ≠ 0 ∧ (h.cell obj).next ≠ 0 then
    let h := h.setNext (h.cell obj).prev (h.cell obj).next
    h.setPrev (h.cell obj).next (h.cell obj).prev
  else
    h

def kfree (h : ListHeap) (slab : SlabMem) (fuel addr : Nat) : Option (ListHeap × SlabMem) := do
  let slab' ← slab.kfree fuel addr
  return (h.storeWords (slab.kfreeStores fuel addr), slab')

/--
The object is written after `kfree`. `fuel` bounds the number of slabs that `kfree` looks at.
-/
def listDelete (h : ListHeap) (slab : SlabMem) (fuel obj : Nat) : Option (ListHeap × SlabMem) :=
  if obj = 0 then
    some (h, slab)
  else do
    let h := h.unlink obj
    let (h, slab) ← h.kfree slab fuel obj
    return (((h.setNext obj 0).setPrev obj 0).setData obj 0, slab)

variable {σ : Type}

def listIter.loop (h : ListHeap) (head : Nat) (callback : σ → Nat → Option (Int × σ))
    : Nat → σ → Nat → Option σ
  | 0, _, _ => none
  | fuel + 1, s, curr =>
    if curr = 0 then
      some s
    else do
      let (result, s) ← callback s curr
      if result ≠ 0 then
        return s
      else if (h.cell curr).next ≠ 0 ∧ (h.cell curr).next ≠ head then
        loop h head callback fuel s (h.cell curr).next
      else
        return s

def listIter (h : ListHeap) (head : Nat) (callback : σ → Nat → Option (Int × σ)) (fuel : Nat) (s : σ)
    : Option σ :=
  if head = 0 then some s else listIter.loop h head callback fuel s head

end ListHeap
end Osproj
