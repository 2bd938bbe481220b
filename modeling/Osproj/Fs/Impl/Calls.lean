import Osproj.Fs.Impl.Vfs
import Osproj.Lib.Impl.Bst
import Osproj.Lib.Impl.Errno

/-!
This module contains the calls of `vfs.c`, which pass a path or a file descriptor on to a function of the driver it
belongs to. The functions of the drivers are given by their addresses. `fuel` bounds every walk, `page` is what `palloc`
returns if `kmalloc` asks for a page. The words that `kfree` writes may hit the trees and the records.
-/

namespace Osproj

/--
The functions of a driver that the calls use.
-/
structure FsPtrs where
  close : Nat
  mkdir : Nat
  openFile : Nat
  read : Nat
  write : Nat

structure FsDriver where
  ptrs : FsPtrs

/--
The record at `p` after stores of words. `ptrs` lies at 16.
-/
def FsDriver.storeWords (d : FsDriver) (stores : List WordStore) (p : Nat) : FsDriver where
  ptrs := {
    close := WordStore.applyAll stores (p + 28) d.ptrs.close
    mkdir := WordStore.applyAll stores (p + 52) d.ptrs.mkdir
    openFile := WordStore.applyAll stores (p + 60) d.ptrs.openFile
    read := WordStore.applyAll stores (p + 68) d.ptrs.read
    write := WordStore.applyAll stores (p + 84) d.ptrs.write
  }

structure Fd where
  driverId : Int
  internalInode : Int

def Fd.storeWords (f : Fd) (stores : List WordStore) (p : Nat) : Fd where
  driverId := WordStore.applyInt stores p f.driverId
  internalInode := WordStore.applyInt stores (p + 4) f.internalInode

/--
`fsDrivers` and `fds` are the trees below `fs_driver_head` and `fd_head`.
-/
structure FileSystem where
  vfs : Vfs
  slab : SlabMem
  fsDrivers : Bst
  fsDriver : Nat → FsDriver
  fds : Bst
  fd : Nat → Fd

/--
What a function of a driver is called with.
-/
inductive FsCall
  | close (inode : Int)
  | mkdir (baked : Nat) (mode : BitVec 16)
  | openFile (baked : Nat) (oflag : Int)
  | read (inode : Int) (buf : Nat) (nbytes : Int)
  | write (inode : Int) (buf : Nat) (nbytes : Int)

namespace FileSystem

/--
The conversion of an identifier that `bst_search` gets.
-/
def key (id : Int) : Nat := (BitVec.ofInt 32 id).toNat

/--
The type and the inode, if there are any to store.
-/
def getFdInfo (s : FileSystem) (fuel : Nat) (id : Int) : Option (Option (Int × Int)) := do
  let fd ← s.fds.bstSearch fuel s.fds.root (key id)
  if fd = 0 then
    return none
  else
    return some ((s.fd fd).driverId, (s.fd fd).internalInode)

/--
The records and the trees after stores of words. The two roots are variables.
-/
def storeWords (s : FileSystem) (stores : List WordStore) : FileSystem :=
  {
    s with
    vfs := s.vfs.storeWords stores
    fsDrivers := s.fsDrivers.storeWords stores
    fsDriver := fun p => (s.fsDriver p).storeWords stores p
    fds := s.fds.storeWords stores
    fd := fun p => (s.fd p).storeWords stores p
  }

section

variable (function : Nat → FsCall → FileSystem → Option (Int × FileSystem)) (s : FileSystem) (fuel : Nat)

/--
The end of each call. There is no driver to read at `NULL`.
-/
def forward (type : Int) (ptr : FsPtrs → Nat) (call : FsCall) : Option (Int × FileSystem) := do
  let driver ← s.fsDrivers.bstSearch fuel s.fsDrivers.root (key type)
  if driver = 0 then
    none
  else if ptr (s.fsDriver driver).ptrs = 0 then
    return (-EPERM, s)
  else
    function (ptr (s.fsDriver driver).ptrs) call s

def byFd (fd : Int) (ptr : FsPtrs → Nat) (call : Int → FsCall) : Option (Int × FileSystem) := do
  match ← s.getFdInfo fuel fd with
  | none => return (-ENFILE, s)
  | some (type, inode) => s.forward function fuel type ptr (call inode)

def byPath (page path : Nat) (ptr : FsPtrs → Nat) (call : Nat → FsCall) : Option (Int × FileSystem) := do
  let block ← s.slab.kmalloc fuel (s.vfs.bufSize path) page
  let (r, vfs, slab) ← s.vfs.getFsType fuel fuel (fun _ => block) path
  let s := { s.storeWords (block.2.kfreeStores fuel block.1) with vfs, slab }
  if r.status ≠ 0 then
    return (-ENOENT, s)
  else
    s.forward function fuel r.fsType ptr (call r.baked)

def fsClose (fd : Int) : Option (Int × FileSystem) := s.byFd function fuel fd FsPtrs.close .close

def fsMkdir (page path : Nat) (mode : BitVec 16) : Option (Int × FileSystem) :=
  s.byPath function fuel page path FsPtrs.mkdir (fun baked => .mkdir baked mode)

def fsOpen (page path : Nat) (oflag : Int) : Option (Int × FileSystem) :=
  s.byPath function fuel page path FsPtrs.openFile (fun baked => .openFile baked oflag)

def fsRead (fd : Int) (buf : Nat) (nbytes : Int) : Option (Int × FileSystem) :=
  s.byFd function fuel fd FsPtrs.read (fun inode => .read inode buf nbytes)

def fsWrite (fd : Int) (buf : Nat) (nbytes : Int) : Option (Int × FileSystem) :=
  s.byFd function fuel fd FsPtrs.write (fun inode => .write inode buf nbytes)

end

end FileSystem

inductive FsOp
  | close (fd : Int)
  | mkdir (page path : Nat) (mode : BitVec 16)
  | openFile (page path : Nat) (oflag : Int)
  | read (fd : Int) (buf : Nat) (nbytes : Int)
  | write (fd : Int) (buf : Nat) (nbytes : Int)

namespace FileSystem

def perform (function : Nat → FsCall → FileSystem → Option (Int × FileSystem)) (fuel : Nat) (s : FileSystem)
    : FsOp → Option (Int × FileSystem)
  | .close fd => s.fsClose function fuel fd
  | .mkdir page path mode => s.fsMkdir function fuel page path mode
  | .openFile page path oflag => s.fsOpen function fuel page path oflag
  | .read fd buf nbytes => s.fsRead function fuel fd buf nbytes
  | .write fd buf nbytes => s.fsWrite function fuel fd buf nbytes

end FileSystem

def MINIX_FS_DRV : Nat := 1
def DEVFS_FS_DRV : Nat := 2

/--
The addresses of the records in `vfs.c`.
-/
structure FsRecords where
  mount_point_root : Nat
  mount_point_dev : Nat
  minix_fs_drv : Nat
  devfs_fs_drv : Nat

namespace FileSystem

/--
`kmalloc i` is what the call number `i` returns.
-/
def fsInit (s : FileSystem) (fuel : Nat) (a : FsRecords) (kmalloc : Nat → Nat) : Option FileSystem := do
  let (list, head) ← s.vfs.list.listInsert s.vfs.mountPointHead a.mount_point_root (kmalloc 0)
  let (list, head) ← list.listInsert head a.mount_point_dev (kmalloc 1)
  let (_, fsDrivers) ← Bst.bstInsert ⟨kmalloc 2, a.minix_fs_drv, MINIX_FS_DRV⟩ fuel s.fsDrivers .root
  let (_, fsDrivers) ← Bst.bstInsert ⟨kmalloc 3, a.devfs_fs_drv, DEVFS_FS_DRV⟩ fuel fsDrivers .root
  return { s with vfs := { s.vfs with list, mountPointHead := head }, fsDrivers }

end FileSystem
end Osproj
