import Osproj.Base.Memory

/-!
This module contains the byte ring of `fifo.c`. The structure itself, allocated with `kmalloc`, is a record
beside the memory that holds its buffer. Pointers do not wrap: `palloc` returns a block that ends below
the last address. The memory of the caller, behind the `data` of an enqueue and the `buffer` of a dequeue,
is passed by value.
-/

namespace Osproj

structure Fifo where
  size : Nat
  dataSize : Nat
  dirty : Nat
  data : Nat
  start : Nat
  endPtr : Nat

structure FifoMem where
  fifo : Fifo
  mem : Memory

/--
`data` is what `palloc` returns.
-/
def allocFifo (size dataSize data : Nat) : Fifo :=
  let size :=
    if size % dataSize ≠ 0 then (size + (dataSize - size % dataSize)) % 0x100000000 else size
  {
    dataSize
    size
    dirty := 0
    data
    start := data
    endPtr := data
  }

def element (dataSize : Nat) (data : Nat → BitVec 8) : List (BitVec 8) :=
  (List.range dataSize).map data

namespace FifoMem

def fifoEnqueue (s : FifoMem) (data : Nat → BitVec 8) : Int × FifoMem :=
  let fifo := { s.fifo with dirty := 1 }
  let mem := s.mem.storeBytes fifo.endPtr (element fifo.dataSize data)
  -- step end
  if fifo.endPtr + fifo.dataSize ≥ fifo.data + fifo.size then
    (-1, ⟨{ fifo with endPtr := fifo.data }, mem⟩)
  else
    (0, ⟨{ fifo with endPtr := fifo.endPtr + fifo.dataSize }, mem⟩)

def fifoDequeue (s : FifoMem) : Int × List (BitVec 8) × FifoMem :=
  let fifo := s.fifo
  if fifo.start = fifo.endPtr ∧ fifo.dirty = 1 then
    (-1, List.replicate fifo.dataSize 0, s)
  else
    let buffer := s.mem.loadBytes fifo.start fifo.dataSize
    if fifo.start + fifo.dataSize ≥ fifo.data + fifo.size then
      (0, buffer, { s with fifo := { fifo with start := fifo.data } })
    else
      (0, buffer, { s with fifo := { fifo with start := fifo.start + fifo.dataSize } })

end FifoMem

inductive FifoOp
  | enqueue (data : Nat → BitVec 8)
  | dequeue

inductive FifoResult
  | enqueued (status : Int)
  | dequeued (status : Int) (buffer : List (BitVec 8))

namespace FifoMem

def step (s : FifoMem) : FifoOp → FifoResult × FifoMem
  | .enqueue data =>
    let (status, s) := s.fifoEnqueue data
    (.enqueued status, s)
  | .dequeue =>
    let (status, buffer, s) := s.fifoDequeue
    (.dequeued status buffer, s)

def run (s : FifoMem) : List FifoOp → List FifoResult
  | [] => []
  | op :: ops => (s.step op).1 :: (s.step op).2.run ops

end FifoMem
end Osproj
