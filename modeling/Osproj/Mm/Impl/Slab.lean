import Osproj.Base.Words
import Osproj.Mm.Impl.Mmap

/-!
This module contains the slab allocator. The structures are records by their addresses, the objects have no contents
here: a cache is a record at the address of its object. An access below `0x80000000`, where nothing is mapped, and a
read behind the end of a table return `none`. `page` is what `palloc` returns if it is asked for a page. A word that is
written to a place of another structure does not change that one here: `kfreeStores` tells which words these are.
-/

namespace Osproj

/--
`free_t`
-/
structure FreeNode where
  index : Nat
  next : Nat

/--
`slab_t`
-/
structure SlabHeader where
  start : Nat
  freeCount : Nat
  parent : Nat
  free : Nat
  next : Nat

/--
`kmem_cache_t`
-/
structure KmemCache where
  emptySlab : Nat
  partialSlab : Nat
  fullSlab : Nat
  objSize : Nat
  objCountPerSlab : Nat
  flags : Nat
  next : Nat

namespace Slab

def SLAB_SIZE : Nat := 4096
def SIZEOF_SLAB : Nat := 20
def SIZEOF_FREE : Nat := 8
def SIZEOF_KMEM_CACHE : Nat := 28
def KMEM_FLAG_COMFORT : Nat := 1
def KMEM_FLAG_STRICT : Nat := 2

def objCount (objSize : Nat) : Nat := (SLAB_SIZE - SIZEOF_SLAB) / (SIZEOF_FREE + objSize)

end Slab

open Slab

/--
`kmemKmem` is the address of the variable `kmem_kmem`.
-/
structure SlabMem where
  free : Nat → FreeNode
  slab : Nat → SlabHeader
  cache : Nat → KmemCache
  kmemKmem : Nat
  quickAllocTable : Nat → Nat

namespace SlabMem

def freeAt (s : SlabMem) (a : Nat) : Option FreeNode := if a < 0x80000000 then none else some (s.free a)

def slabAt (s : SlabMem) (a : Nat) : Option SlabHeader := if a < 0x80000000 then none else some (s.slab a)

def cacheAt (s : SlabMem) (a : Nat) : Option KmemCache := if a < 0x80000000 then none else some (s.cache a)

def setFree (s : SlabMem) (a : Nat) (v : FreeNode) : SlabMem :=
  { s with free := fun b => if b = a then v else s.free b }

def setSlab (s : SlabMem) (a : Nat) (v : SlabHeader) : SlabMem :=
  { s with slab := fun b => if b = a then v else s.slab b }

def setCache (s : SlabMem) (a : Nat) (v : KmemCache) : SlabMem :=
  { s with cache := fun b => if b = a then v else s.cache b }

def creatSlab.loop (s : SlabMem) (freeidx prev i : Nat) : Nat → SlabMem × Nat × Nat
  | 0 => (s, freeidx, prev)
  | left + 1 =>
    let s := s.setFree freeidx { s.free freeidx with index := i }
    let freeidx := freeidx + SIZEOF_FREE
    let s := s.setFree prev { s.free prev with next := freeidx }
    let prev := prev + SIZEOF_FREE
    loop s freeidx prev (i + 1) left

def creatSlab (s : SlabMem) (page objCount : Nat) : Option SlabMem := do
  let slab ← s.slabAt page
  let freeidx := page + SIZEOF_SLAB
  let s := s.setSlab page { slab with freeCount := objCount, next := 0, free := freeidx }
  let (s, freeidx, prev) := creatSlab.loop s freeidx freeidx 0 objCount
  let prev := prev - SIZEOF_FREE
  -- cut tail
  let s := s.setFree prev { s.free prev with next := 0 }
  return s.setSlab page { s.slab page with start := freeidx }

def allocFromSlab (s : SlabMem) (slab objSize : Nat) : Option (Nat × SlabMem) := do
  let header ← s.slabAt slab
  let alloc ← s.freeAt header.free
  let freeCount := (header.freeCount + 0xFFFFFFFF) % 0x100000000
  let s := s.setSlab slab { header with free := alloc.next, freeCount }
  return ((header.start + objSize * alloc.index) % 0x100000000, s)

def fromPartial (s : SlabMem) (kmem head : Nat) : SlabMem :=
  if (s.slab head).freeCount = 0 then
    -- mov to full
    let full := (s.cache kmem).fullSlab
    let s := s.setCache kmem { s.cache kmem with partialSlab := (s.slab head).next, fullSlab := head }
    s.setSlab head { s.slab head with next := full }
  else
    s

def fromEmpty (s : SlabMem) (kmem head : Nat) : SlabMem :=
  if (s.slab head).freeCount = 0 then
    -- ultra-large object: one object in one slab
    let full := (s.cache kmem).fullSlab
    let s := s.setCache kmem { s.cache kmem with emptySlab := (s.slab head).next, fullSlab := head }
    s.setSlab head { s.slab head with next := full }
  else
    -- mov to partial
    let partialSlab := (s.cache kmem).partialSlab
    let s := s.setCache kmem { s.cache kmem with emptySlab := (s.slab head).next, partialSlab := head }
    s.setSlab head { s.slab head with next := partialSlab }

def allocFromKmem (s : SlabMem) (kmem page : Nat) : Option (Nat × SlabMem) := do
  let cache ← s.cacheAt kmem
  if cache.partialSlab = 0 then
    if cache.emptySlab = 0 then
      -- need alloc more slab!
      let s ← s.creatSlab page cache.objCountPerSlab
      let s := s.setSlab page { s.slab page with parent := kmem }
      let s := s.setCache kmem { s.cache kmem with emptySlab := page }
      let (ret, s) ← s.allocFromSlab page cache.objSize
      return (ret, s.fromPartial kmem page)
    else
      let (ret, s) ← s.allocFromSlab cache.emptySlab cache.objSize
      return (ret, s.fromEmpty kmem cache.emptySlab)
  else
    let (ret, s) ← s.allocFromSlab cache.partialSlab cache.objSize
    return (ret, s.fromPartial kmem cache.partialSlab)

def addKmem (s : SlabMem) (objSize flags page : Nat) : Option (Nat × SlabMem) := do
  let (kmem, s) ← s.allocFromKmem s.kmemKmem page
  let _ ← s.cacheAt kmem
  let head := s.cache s.kmemKmem
  let s := s.setCache kmem {
    emptySlab := 0
    partialSlab := 0
    fullSlab := 0
    objSize
    objCountPerSlab := objCount objSize
    flags
    next := head.next
  }
  return (kmem, s.setCache s.kmemKmem { s.cache s.kmemKmem with next := kmem })

def slabInit.loop (s : SlabMem) (pages : Nat → Nat) (size i : Nat) : Nat → Option SlabMem
  | 0 => some s
  | left + 1 => do
    let (kmem, s) ← s.addKmem size KMEM_FLAG_COMFORT (pages i)
    let s := { s with quickAllocTable := fun j => if j = i then kmem else s.quickAllocTable j }
    loop s pages (size * 2) (i + 1) left

def slabInit (s : SlabMem) (pages : Nat → Nat) : Option SlabMem := slabInit.loop s pages 1 0 12

def boot (free : Nat → FreeNode) (slab : Nat → SlabHeader) (cache : Nat → KmemCache) (kmemKmem : Nat) : SlabMem where
  free := free
  slab := slab
  cache := fun a =>
    if a = kmemKmem then
      {
        emptySlab := 0
        partialSlab := 0
        fullSlab := 0
        objSize := SIZEOF_KMEM_CACHE
        objCountPerSlab := objCount SIZEOF_KMEM_CACHE
        flags := KMEM_FLAG_STRICT
        next := 0
      }
    else
      cache a
  kmemKmem := kmemKmem
  quickAllocTable := fun _ => 0

def queryKmem.loop (s : SlabMem) (size : Nat) : Nat → Nat → Option Nat
  | 0, _ => none
  | fuel + 1, kmem => do
    let cache ← s.cacheAt kmem
    if cache.objSize = size then
      return kmem
    else if cache.next = 0 then
      return 0
    else
      loop s size fuel cache.next

def queryKmem (s : SlabMem) (fuel size : Nat) : Option Nat := queryKmem.loop s size fuel s.kmemKmem

def comfortKmem (s : SlabMem) (sz i : Nat) : Nat → Option Nat
  | 0 => none
  | left + 1 =>
    let sz := sz / 2
    if sz = 0 then
      if i + 1 < 12 then some (s.quickAllocTable (i + 1)) else none
    else
      comfortKmem s sz (i + 1) left

/--
The cache `__kmalloc` takes an object from, if it does not return `NULL`.
-/
def kmemFor (s : SlabMem) (fuel size flags quickalloc : Nat) : Option (Option Nat) :=
  if size > SLAB_SIZE / 2 then
    some none
  else if flags = KMEM_FLAG_COMFORT then do
    let kmem ← s.comfortKmem size 0 12
    return some kmem
  else if flags = KMEM_FLAG_STRICT then
    if quickalloc ≠ 0 then
      some (some quickalloc)
    else do
      -- the same walk as that of `query_kmem`
      let kmem ← s.queryKmem fuel size
      return if kmem = 0 then none else some kmem
  else
    none

def kmallocFlags (s : SlabMem) (fuel size flags quickalloc page : Nat) : Option (Nat × SlabMem) := do
  match ← s.kmemFor fuel size flags quickalloc with
  | none => return (0, s)
  | some kmem => s.allocFromKmem kmem page

def kmalloc (s : SlabMem) (fuel size page : Nat) : Option (Nat × SlabMem) :=
  s.kmallocFlags fuel size KMEM_FLAG_COMFORT 0 page

def kmallocS (s : SlabMem) (fuel size page : Nat) : Option (Nat × SlabMem) :=
  s.kmallocFlags fuel size KMEM_FLAG_STRICT 0 page

def qsmalloc (s : SlabMem) (fuel quickalloc page : Nat) : Option (Nat × SlabMem) :=
  s.kmallocFlags fuel 0 KMEM_FLAG_STRICT quickalloc page

def releaseSlab (s : SlabMem) (obj : Nat) : Option (Nat × SlabMem) := do
  let slab := obj / 0x1000 * 0x1000
  let header ← s.slabAt slab
  let parent ← s.cacheAt header.parent
  if parent.objSize = 0 then
    none
  else
    let index := (obj + 0x100000000 - header.start) % 0x100000000 / parent.objSize
    -- the list's head stands for the array's
    let freeNode := (header.free + SIZEOF_FREE * index) % 0x100000000
    let node ← s.freeAt freeNode
    let s := s.setFree freeNode { node with next := header.free }
    let freeCount := (header.freeCount + 1) % 0x100000000
    return (slab, s.setSlab slab { header with free := freeNode, freeCount })

def kfree.search (s : SlabMem) (slab : Nat) : Nat → Nat → Option Nat
  | 0, _ => none
  | fuel + 1, head => do
    let header ← s.slabAt head
    if header.next = slab then return head else search s slab fuel header.next

def kfree (s : SlabMem) (fuel addr : Nat) : Option SlabMem :=
  if addr < 0xC0000000 then
    some s
  else do
    let (slab, s) ← s.releaseSlab addr
    let header := s.slab slab
    let parent := s.cache header.parent
    -- in full, or in partial
    let head := if header.freeCount = 1 then parent.fullSlab else parent.partialSlab
    let head ← if head = slab then some head else kfree.search s slab fuel head
    let s := s.setSlab head { s.slab head with next := (s.slab slab).next }
    if header.freeCount = parent.objCountPerSlab then
      -- mov to empty
      let s := s.setSlab slab { s.slab slab with next := parent.emptySlab }
      return s.setCache header.parent { parent with emptySlab := slab }
    else
      -- mov to partial
      let s := s.setSlab slab { s.slab slab with next := parent.partialSlab }
      return s.setCache header.parent { parent with partialSlab := slab }

/--
The words that `kfree` writes, for memory that is not kept here. The first one is `next` of the node that `release_slab`
takes for the object's.
-/
def kfreeStores (s : SlabMem) (fuel addr : Nat) : List WordStore :=
  if addr < 0xC0000000 then
    []
  else
    let slab := addr / 0x1000 * 0x1000
    let header := s.slab slab
    let parent := s.cache header.parent
    let index := (addr + 0x100000000 - header.start) % 0x100000000 / parent.objSize
    let freeNode := (header.free + SIZEOF_FREE * index) % 0x100000000
    let freeCount := (header.freeCount + 1) % 0x100000000
    let head := if freeCount = 1 then parent.fullSlab else parent.partialSlab
    let head := if head = slab then head else (kfree.search s slab fuel head).getD 0
    let stores := [⟨freeNode + 4, header.free⟩, ⟨slab + 12, freeNode⟩, ⟨slab + 4, freeCount⟩, ⟨head + 16, header.next⟩]
    if freeCount = parent.objCountPerSlab then
      stores ++ [⟨slab + 16, parent.emptySlab⟩, ⟨header.parent, slab⟩]
    else
      stores ++ [⟨slab + 16, parent.partialSlab⟩, ⟨header.parent + 4, slab⟩]

end SlabMem

structure SlabBlock where
  addr : Nat
  kmem : Nat
  size : Nat

/--
The allocator with the blocks that are live and the pages that `palloc` has returned.
-/
structure SlabHeap where
  mem : SlabMem
  live : List SlabBlock
  pages : List Nat

/--
A call of `kmalloc`, `kmalloc_s`, `qsmalloc`, or of `kfree` for the `i`th live block.
-/
inductive SlabOp
  | kmalloc (size : BitVec 32) (page : Nat)
  | kmallocS (size : BitVec 32) (page : Nat)
  | qsmalloc (quickalloc : Nat) (page : Nat)
  | kfree (i : Nat)

namespace SlabHeap

def NeedsPage (s : SlabMem) (kmem : Nat) : Prop := (s.cache kmem).partialSlab = 0 ∧ (s.cache kmem).emptySlab = 0

instance (s : SlabMem) (kmem : Nat) : Decidable (NeedsPage s kmem) := by
  unfold NeedsPage
  infer_instance

def allocated (h : SlabHeap) (kmem : Option Nat) (size page ret : Nat) (mem : SlabMem) : SlabHeap :=
  match kmem with
  | none => { h with mem }
  | some kmem =>
    {
      mem
      live := ⟨ret, kmem, size⟩ :: h.live
      pages := if NeedsPage h.mem kmem then page :: h.pages else h.pages
    }

def step (fuel : Nat) (h : SlabHeap) : SlabOp → Option SlabHeap
  | .kmalloc size page => do
    let kmem ← h.mem.kmemFor fuel size.toNat KMEM_FLAG_COMFORT 0
    let (ret, mem) ← h.mem.kmalloc fuel size.toNat page
    return h.allocated kmem size.toNat page ret mem
  | .kmallocS size page => do
    let kmem ← h.mem.kmemFor fuel size.toNat KMEM_FLAG_STRICT 0
    let (ret, mem) ← h.mem.kmallocS fuel size.toNat page
    return h.allocated kmem size.toNat page ret mem
  | .qsmalloc quickalloc page => do
    let kmem ← h.mem.kmemFor fuel 0 KMEM_FLAG_STRICT quickalloc
    let (ret, mem) ← h.mem.qsmalloc fuel quickalloc page
    return h.allocated kmem 0 page ret mem
  | .kfree i => do
    let block ← h.live[i]?
    let mem ← h.mem.kfree fuel block.addr
    return { h with mem, live := h.live.eraseIdx i }

end SlabHeap
end Osproj
