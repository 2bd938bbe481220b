import Osproj.Lib.Impl.List
import Osproj.Lib.Impl.Str

/-!
This module contains the resolution of a path to a mount point, `get_fs_type` of `vfs.c`. The mount points are
records beside the memory that holds their paths and beside the slab allocator, but the words that `kfree` writes may
hit them. `kmalloc` is what it returns for each size, and the allocator it leaves behind.
-/

namespace Osproj

structure MountPoint where
  path : Nat
  pathLen : BitVec 32
  driverId : Int

/--
The record at `p` after stores of words.
-/
def MountPoint.storeWords (m : MountPoint) (stores : List WordStore) (p : Nat) : MountPoint where
  path := WordStore.applyAll stores p m.path
  pathLen := BitVec.ofNat 32 (WordStore.applyAll stores (p + 4) m.pathLen.toNat)
  driverId := WordStore.applyInt stores (p + 8) m.driverId

/--
The variables of `vfs.c`, the memory, and the working directory of the current task.
-/
structure Vfs where
  mem : Memory
  list : ListHeap
  mountPoint : Nat → MountPoint
  mountPointHead : Nat
  pwd : Nat
  pathSwap : Nat
  mpSwap : Nat
  mostLong : Int

/--
What `get_fs_type` returns, and what it stores to `*baked` and `*fs_type`.
-/
structure FsType where
  status : Int
  baked : Nat
  fsType : Int

namespace Vfs

def getFsTypeCallback (v : Vfs) (m : Nat) : Option (Int × Vfs) :=
  let mp := (v.list.cell m).data
  let point := v.mountPoint mp
  if Str.memcmp v.mem point.path v.pathSwap point.pathLen.toNat = 0 then
    if point.pathLen.toInt > v.mostLong then
      some (0, { v with mostLong := point.pathLen.toInt, mpSwap := mp })
    else
      some (0, v)
  else
    some (0, v)

/--
The size that `kmalloc` is asked for.
-/
def bufSize (v : Vfs) (path : Nat) : Nat :=
  if v.mem.load path ≠ 0x2F then
    (Str.strlen v.mem v.pwd + Str.strlen v.mem path + 1) % 0x100000000
  else
    (Str.strlen v.mem path + 1) % 0x100000000

def copyPath (v : Vfs) (kmalloc : Nat → Nat) (path : Nat) : Option (Nat × Memory) :=
  let buf := kmalloc (v.bufSize path)
  if v.mem.load path ≠ 0x2F then do
    -- not an absolute path
    let mem ← Str.strcpy v.mem buf v.pwd
    let mem ← Str.strcat mem buf path
    return (buf, mem)
  else do
    let mem ← Str.strcpy v.mem buf path
    return (buf, mem)

/--
What `get_fs_type` does before `kfree`, with what it will return and `*baked`. `fuel` bounds the number of mount points
that are visited.
-/
def findMount (v : Vfs) (fuel : Nat) (kmalloc : Nat → Nat) (path : Nat) : Option (Int × Nat × Vfs) := do
  let v := { v with mpSwap := 0, mostLong := 0 }
  let (buf, mem) ← v.copyPath kmalloc path
  let v := { v with mem, pathSwap := buf }
  let v ← v.list.listIter v.mountPointHead getFsTypeCallback fuel v
  if v.mpSwap = 0 then
    return (1, 0, v)
  else
    let point := v.mountPoint v.mpSwap
    let baked := (path + point.pathLen.toNat) % 0x100000000
    let baked := if v.mem.load baked = 0x2F then (baked + 1) % 0x100000000 else baked
    return (0, baked, v)

/--
The variables are kept apart.
-/
def storeWords (v : Vfs) (stores : List WordStore) : Vfs :=
  {
    v with
    mem := v.mem.storeWords stores
    list := v.list.storeWords stores
    mountPoint := fun p => (v.mountPoint p).storeWords stores p
  }

def kfree (v : Vfs) (slab : SlabMem) (slabs p : Nat) : Option (Vfs × SlabMem) := do
  let slab' ← slab.kfree slabs p
  return (v.storeWords (slab.kfreeStores slabs p), slab')

/--
The mount point is read after `kfree`. `slabs` bounds the number of slabs that `kfree` looks at.
-/
def getFsType (v : Vfs) (fuel slabs : Nat) (kmalloc : Nat → Nat × SlabMem) (path : Nat)
    : Option (FsType × Vfs × SlabMem) := do
  let (buf, slab) := kmalloc (v.bufSize path)
  let (status, baked, v) ← v.findMount fuel (fun size => (kmalloc size).1) path
  let (v, slab) ← v.kfree slab slabs buf
  if status ≠ 0 then
    return ({ status, baked, fsType := 0 }, v, slab)
  else
    return ({ status, baked, fsType := (v.mountPoint v.mpSwap).driverId }, v, slab)

end Vfs
end Osproj
