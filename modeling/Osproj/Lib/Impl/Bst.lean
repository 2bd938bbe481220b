import Mathlib.Algebra.Order.Group.Int
import Osproj.Mm.Impl.Slab

/-!
This module contains the search tree of the driver registries as it lies in memory: nodes that refer to
each other by address, and slots (the root pointer and the child fields of nodes) that are passed by
address. Where the source has two mirrored pieces of code there is one definition here, for the side it
is about. An access through `NULL` or to an address without a node returns `none`, and so does a
recursion or a loop that runs out of fuel. The nodes are kept apart from the slab allocator, but the words
that `kfree` writes may hit them.
-/

namespace Osproj

inductive Side
  | child1
  | child2
deriving DecidableEq, Repr

def Side.other : Side → Side
  | .child1 => .child2
  | .child2 => .child1

structure BstNode where
  parent : Nat
  child1 : Nat
  child2 : Nat
  id : Nat
  data : Nat
  height : Int

namespace BstNode

def child (n : BstNode) : Side → Nat
  | .child1 => n.child1
  | .child2 => n.child2

def setChild (n : BstNode) (side : Side) (p : Nat) : BstNode :=
  match side with
  | .child1 => { n with child1 := p }
  | .child2 => { n with child2 := p }

/--
The node at `p` after stores of words.
-/
def storeWords (n : BstNode) (stores : List WordStore) (p : Nat) : BstNode where
  parent := WordStore.applyAll stores p n.parent
  child1 := WordStore.applyAll stores (p + 4) n.child1
  child2 := WordStore.applyAll stores (p + 8) n.child2
  id := WordStore.applyAll stores (p + 12) n.id
  data := WordStore.applyAll stores (p + 16) n.data
  height := WordStore.applyInt stores (p + 20) n.height

end BstNode

structure Bst where
  root : Nat
  node : Nat → Option BstNode

inductive Bst.Slot
  | root
  | child (side : Side) (p : Nat)
deriving DecidableEq

/--
A call of `bst_insert`. `addr` is what `kmalloc` returns, should the function ask for memory.
-/
structure Insertion where
  addr : Nat
  data : Nat
  id : Nat

namespace Bst

def deref (s : Bst) (p : Nat) : Option BstNode := if p = 0 then none else s.node p

def set (s : Bst) (p : Nat) (n : BstNode) : Bst :=
  { s with node := fun q => if q = p then some n else s.node q }

def get (s : Bst) : Slot → Option Nat
  | .root => some s.root
  | .child side p => (s.deref p).map (fun n => n.child side)

def put (s : Bst) (slot : Slot) (v : Nat) : Option Bst :=
  match slot with
  | .root => some { s with root := v }
  | .child side p => (s.deref p).map (fun n => s.set p (n.setChild side v))

def height (s : Bst) (node : Nat) : Option Int :=
  if node = 0 then some (-1) else (s.deref node).map BstNode.height

def balanceFactor (s : Bst) (node : Nat) : Option Int :=
  if node = 0 then
    some 0
  else do
    let n ← s.deref node
    let h1 ← s.height n.child1
    let h2 ← s.height n.child2
    return h1 - h2

def updateHeight (s : Bst) (node : Nat) : Option Bst := do
  let n ← s.deref node
  let h1 ← s.height n.child1
  let h2 ← s.height n.child2
  return s.set node { n with height := max h1 h2 + 1 }

def rotate (s : Bst) (side : Side) (y : Nat) : Option (Nat × Bst) := do
  let x := (← s.deref y).child side
  let T2 := (← s.deref x).child side.other
  -- perform rotation
  let s := s.set x ((← s.deref x).setChild side.other y)
  let s := s.set y ((← s.deref y).setChild side T2)
  -- update heights
  let s ← s.updateHeight y
  let s ← s.updateHeight x
  return (x, s)

def rotateRight (s : Bst) (y : Nat) : Option (Nat × Bst) := s.rotate .child1 y

def rotateLeft (s : Bst) (x : Nat) : Option (Nat × Bst) := s.rotate .child2 x

def rotateHeavy (s : Bst) (side : Side) (inner : Int → Bool) (node : Nat) : Option (Nat × Bst) := do
  let child := (← s.deref node).child side
  let factor ← s.balanceFactor child
  if inner factor then
    let (child, s) ← s.rotate side.other child
    let s := s.set node ((← s.deref node).setChild side child)
    s.rotate side node
  else
    s.rotate side node

/--
The node returned is the new root of the subtree; no slot is made to point to it.
-/
def balance (s : Bst) (node : Nat) : Option (Nat × Bst) := do
  let balance ← s.balanceFactor node
  if balance > 1 then
    s.rotateHeavy .child1 (· < 0) node
  else if balance < -1 then
    s.rotateHeavy .child2 (· > 0) node
  else
    return (node, s)

def rebalance (s : Bst) (slot : Slot) : Option (Nat × Bst) := do
  let s ← s.updateHeight (← s.get slot)
  s.balance (← s.get slot)

def setParent (s : Bst) (slot : Slot) (side : Side) : Option Bst := do
  let root ← s.get slot
  let c := (← s.deref root).child side
  let n ← s.deref c
  return s.set c { n with parent := root }

def bstInsert (o : Insertion) : Nat → Bst → Slot → Option (Nat × Bst)
  | 0, _, _ => none
  | fuel + 1, s, slot => do
    let root ← s.get slot
    if root = 0 then
      let s ← s.put slot o.addr
      if o.addr = 0 then
        return (0, s)
      let n : BstNode := {
        parent := 0
        child1 := 0
        child2 := 0
        id := o.id
        data := o.data
        height := 0
      }
      return (o.addr, s.set o.addr n)
    let n ← s.deref root
    if o.id < n.id then
      let (_, s) ← bstInsert o fuel s (.child .child1 root)
      let s ← s.setParent slot .child1
      s.rebalance slot
    else if o.id > n.id then
      let (_, s) ← bstInsert o fuel s (.child .child2 root)
      let s ← s.setParent slot .child2
      s.rebalance slot
    else
      -- duplicate ids are not allowed
      return (0, s)

def minValueNode (s : Bst) : Nat → Nat → Option Nat
  | 0, _ => none
  | fuel + 1, current => do
    let n ← s.deref current
    if n.child1 ≠ 0 then
      s.minValueNode fuel n.child1
    else
      return current

/--
The root pointer is a variable of the caller.
-/
def storeWords (s : Bst) (stores : List WordStore) : Bst :=
  { s with node := fun p => (s.node p).map (fun n => n.storeWords stores p) }

/--
An access to a node that has been released is none to a node.
-/
def forget (s : Bst) (p : Nat) : Bst := { s with node := fun q => if q = p then none else s.node q }

/--
What `bst_delete` returns for the node that `__bst_delete` returns.
-/
def nodeData (s : Bst) (node : Nat) : Option Nat :=
  if node ≠ 0 then (s.deref node).map BstNode.data else some 0

def bstSearch.loop (s : Bst) (id : Nat) : Nat → Nat → Option Nat
  | 0, _ => none
  | fuel + 1, root =>
    if root = 0 then
      some 0
    else do
      let n ← s.deref root
      if id < n.id then
        loop s id fuel n.child1
      else if id > n.id then
        loop s id fuel n.child2
      else
        return root

def bstSearch (s : Bst) (fuel root id : Nat) : Option Nat := do
  let node ← bstSearch.loop s id fuel root
  if node ≠ 0 then
    return (← s.deref node).data
  else
    return 0

def empty : Bst where
  root := 0
  node := fun _ => none

end Bst

/--
A tree with the slab allocator its nodes come from, and what `kfree` has been called with.
-/
structure BstHeap where
  tree : Bst
  slab : SlabMem
  released : List Nat

namespace BstHeap

/--
`slabs` bounds the number of slabs that `kfree` looks at.
-/
def kfree (s : BstHeap) (slabs p : Nat) : Option BstHeap := do
  let slab ← s.slab.kfree slabs p
  let tree := s.tree.storeWords (s.slab.kfreeStores slabs p)
  return { tree := tree.forget p, slab, released := p :: s.released }

/--
What is done to the tree alone.
-/
def lift (s : BstHeap) (result : Option (Nat × Bst)) : Option (Nat × BstHeap) :=
  result.map (fun r => (r.1, { s with tree := r.2 }))

/--
`__bst_delete`
-/
def bstDelete.node (slabs : Nat) : Nat → BstHeap → Bst.Slot → Nat → Option (Nat × BstHeap)
  | 0, _, _, _ => none
  | fuel + 1, s, slot, id => do
    -- `(*root)->child = bst_delete(&(*root)->child, id)`
    let deleteBelow (s : BstHeap) (side : Side) (root id : Nat) : Option (Nat × BstHeap) := do
      let (node, s) ← bstDelete.node slabs fuel s (.child side root) id
      s.lift do
        let tree ← s.tree.put (.child side root) (← s.tree.nodeData node)
        tree.rebalance slot
    let root ← s.tree.get slot
    if root = 0 then
      return (root, s)
    let n ← s.tree.deref root
    if id < n.id then
      deleteBelow s .child1 root id
    else if id > n.id then
      deleteBelow s .child2 root id
    else if n.child1 = 0 ∨ n.child2 = 0 then
      let temp := if n.child1 = 0 then n.child2 else n.child1
      let s ← s.kfree slabs root
      s.lift do
        let tree ← s.tree.put slot temp
        if temp = 0 then
          return (temp, tree)
        tree.rebalance slot
    else
      -- get the inorder successor
      let temp ← s.tree.minValueNode fuel n.child2
      let m ← s.tree.deref temp
      let tree := s.tree.set root { n with id := m.id, data := m.data }
      deleteBelow { s with tree } .child2 root m.id

def bstDelete (slabs fuel : Nat) (s : BstHeap) (slot : Bst.Slot) (id : Nat) : Option (Nat × BstHeap) := do
  let (node, s) ← bstDelete.node slabs fuel s slot id
  return (← s.tree.nodeData node, s)

end BstHeap
end Osproj
