import Osproj.Base.Extent
import Osproj.Mm.Impl.Buddy
import Osproj.Mm.Impl.Slab

/-!
This module contains the memory of the kernel as a whole: the slab allocator on top of `palloc`, the pages that other
callers get from `palloc`, and what is written into either. The slab allocator keeps its structures as records here,
so the bytes of these are stores of their own, which the records do not read back.
-/

namespace Osproj

open Slab SlabHeap

structure KernelMem where
  map : Memory
  heap : SlabHeap
  given : List Extent

/--
A call of `kmalloc`, `kmalloc_s`, `qsmalloc` or `palloc`, a store of one byte by a caller, or one of the slab
allocator.
-/
inductive KernelMemOp
  | kmalloc (size : BitVec 32)
  | kmallocS (size : BitVec 32)
  | qsmalloc (quickalloc : Nat)
  | palloc (size : BitVec 32)
  | write (addr : Nat) (value : BitVec 8)
  | writeSlab (addr : Nat) (value : BitVec 8)

namespace KernelMem

/--
`creat_slab` calls `palloc` if the cache that `__kmalloc` takes has neither a partial nor an empty slab.
-/
def newPage (cfg : MemConfig) (s : KernelMem) : Option Nat → Nat × Memory
  | none => (0, s.map)
  | some kmem =>
    if NeedsPage s.heap.mem kmem then
      cfg.palloc s.map ZONE_KERNEL SLAB_SIZE
    else
      (0, s.map)

def kmallocFlags (cfg : MemConfig) (fuel : Nat) (s : KernelMem) (size flags quickalloc : Nat) : Option KernelMem := do
  let kmem ← s.heap.mem.kmemFor fuel size flags quickalloc
  let p := s.newPage cfg kmem
  let (ret, mem) ← s.heap.mem.kmallocFlags fuel size flags quickalloc p.1
  return { s with map := p.2, heap := s.heap.allocated kmem size p.1 ret mem }

def addKmem (cfg : MemConfig) (s : KernelMem) (objSize flags : Nat) : Option (Nat × KernelMem) := do
  let kmemKmem := s.heap.mem.kmemKmem
  let p := s.newPage cfg (some kmemKmem)
  let (kmem, mem) ← s.heap.mem.addKmem objSize flags p.1
  let pages := if NeedsPage s.heap.mem kmemKmem then p.1 :: s.heap.pages else s.heap.pages
  return (kmem, { s with map := p.2, heap := { s.heap with mem, pages } })

def slabInit.loop (cfg : MemConfig) (s : KernelMem) (size i : Nat) : Nat → Option KernelMem
  | 0 => some s
  | left + 1 => do
    let (kmem, s) ← s.addKmem cfg size KMEM_FLAG_COMFORT
    let mem := s.heap.mem
    let mem := { mem with quickAllocTable := fun j => if j = i then kmem else mem.quickAllocTable j }
    loop cfg { s with heap := { s.heap with mem } } (size * 2) (i + 1) left

def slabInit (cfg : MemConfig) (s : KernelMem) : Option KernelMem := slabInit.loop cfg s 1 0 12

/--
The variable `total_mem` of `mm_init`, in KiB.
-/
def totalMem (memUpper : Nat) : Nat :=
  ((((memUpper + 1024) % 0x100000000) &&& 0xfffff800) + 2048) % 0x100000000

/--
`page_init` and `slab_init`. `slab` are the variables of the slab allocator.
-/
def mmInit (cfg : MemConfig) (m : Memory) (slab : SlabMem) : Option KernelMem :=
  slabInit cfg { map := cfg.pageInit m, heap := { mem := slab, live := [], pages := [] }, given := [] }

def step (cfg : MemConfig) (fuel : Nat) (s : KernelMem) : KernelMemOp → Option KernelMem
  | .kmalloc size => s.kmallocFlags cfg fuel size.toNat KMEM_FLAG_COMFORT 0
  | .kmallocS size => s.kmallocFlags cfg fuel size.toNat KMEM_FLAG_STRICT 0
  | .qsmalloc quickalloc => s.kmallocFlags cfg fuel 0 KMEM_FLAG_STRICT quickalloc
  | .palloc size =>
    let p := cfg.palloc s.map ZONE_KERNEL size.toNat
    let extent := ⟨p.1, MemConfig.pages size.toNat * PAGE_SIZE⟩
    some { s with map := p.2, given := if p.1 = 0 then s.given else extent :: s.given }
  | .write addr value => some { s with map := s.map.store addr value }
  | .writeSlab addr value => some { s with map := s.map.store addr value }

end KernelMem
end Osproj
