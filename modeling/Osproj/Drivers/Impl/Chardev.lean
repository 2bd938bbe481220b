import Osproj.Lib.Impl.Bst
import Osproj.Lib.Impl.Errno
import Osproj.Mm.Impl.Mmap

/-!
This module contains the registry of the character devices and the memory device. The functions of a device record
take the state of the drivers, `σ`, and return the new one beside their result. A store to `NULL`, an access to an
address that is not mapped or without a record, and a search that runs out of fuel return `none`.
-/

namespace Osproj

def MAJOR_MEM : BitVec 16 := 1

structure Cdev (σ : Type) where
  major : BitVec 16
  read : Option (BitVec 16 → σ → Option (Int × σ))
  write : Option (BitVec 16 → BitVec 8 → σ → Option (Int × σ))
  ioctl : Option (BitVec 16 → BitVec 32 → σ → Option (Int × σ))

structure Chardev (σ : Type) where
  chardevRoot : Bst
  cdev : Nat → Option (Cdev σ)

namespace Chardev

variable {σ : Type}

def empty : Chardev σ where
  chardevRoot := Bst.empty
  cdev := fun _ => none

/--
`(int) major`, which `bst_insert` and `bst_search` take for an `unsigned int`.
-/
def id (major : BitVec 16) : Nat := (major.signExtend 32).toNat

/--
`newdev` and `node` are what the two calls of `kmalloc` return.
-/
def creatCdev (fuel newdev node : Nat) (c : Chardev σ) (dev : Cdev σ) : Option (Chardev σ) :=
  if newdev = 0 then
    none
  else do
    let cdev := fun p => if p = newdev then some dev else c.cdev p
    let (_, chardevRoot) ← Bst.bstInsert ⟨node, newdev, id dev.major⟩ fuel c.chardevRoot .root
    return { chardevRoot := chardevRoot, cdev := cdev }

/--
What `cread`, `cwrite` and `cioctl` have in common: `function` is the one they take from the record.
-/
def call (fuel : Nat) (c : Chardev σ) (major : BitVec 16) (function : Cdev σ → Option (σ → Option (Int × σ)))
    (s : σ)
    : Option (Int × σ) := do
  let dev ← c.chardevRoot.bstSearch fuel c.chardevRoot.root (id major)
  if dev = 0 then
    return (-ENODEV, s)
  match function (← c.cdev dev) with
  | none => return (-ENODEV, s)
  | some function => function s

def cread (fuel : Nat) (c : Chardev σ) (major minor : BitVec 16) (s : σ) : Option (Int × σ) :=
  c.call fuel major (fun dev => dev.read.map (fun read => read minor)) s

def cwrite (fuel : Nat) (c : Chardev σ) (major minor : BitVec 16) (data : BitVec 8) (s : σ) : Option (Int × σ) :=
  c.call fuel major (fun dev => dev.write.map (fun write => write minor data)) s

def cioctl (fuel : Nat) (c : Chardev σ) (major minor : BitVec 16) (cmd : BitVec 32) (s : σ) : Option (Int × σ) :=
  c.call fuel major (fun dev => dev.ioctl.map (fun ioctl => ioctl minor cmd)) s

end Chardev

def MINOR_DEVMEM_MEM : BitVec 16 := 1
def MINOR_DEVMEM_PORT : BitVec 16 := 3
def MINOR_DEVMEM_FULL : BitVec 16 := 4

def MEM_DEV_HI : Nat := 0xC0100000
def MEM_DEV_LO : Nat := 0xC0000000

def PORT_DEV_HI : Int := 0xFFFF
def PORT_DEV_LO : BitVec 16 := 0

/--
The variables of `devmem.c`, and what it reads from: the memory and, with `inb`, the ports.
-/
structure Devmem where
  memory : Memory
  inb : BitVec 16 → BitVec 8
  memPtr : Nat
  portPtr : BitVec 16

namespace Devmem

def devmemRead (minor : BitVec 16) (s : Devmem) : Option (Int × Devmem) :=
  if minor = MINOR_DEVMEM_MEM then do
    let result := s.memory.load (← linear s.memPtr)
    let memPtr := (s.memPtr + 1) % 0x100000000
    let memPtr := if memPtr ≥ MEM_DEV_HI then MEM_DEV_LO else memPtr
    return (result.toInt, { s with memPtr := memPtr })
  else if minor = MINOR_DEVMEM_PORT then
    let result := s.inb s.portPtr
    let portPtr := s.portPtr + 1
    let portPtr := if portPtr.toInt ≥ PORT_DEV_HI then PORT_DEV_LO else portPtr
    return (result.toInt, { s with portPtr := portPtr })
  else
    return (0, s)

def devmemWrite (minor : BitVec 16) (_data : BitVec 8) (s : Devmem) : Option (Int × Devmem) :=
  if minor = MINOR_DEVMEM_FULL then
    return (-ENOSPC, s)
  else
    return (-EPERM, s)

def devmemInit (fuel newdev node : Nat) (c : Chardev Devmem) (s : Devmem) : Option (Chardev Devmem × Devmem) := do
  let c ← c.creatCdev fuel newdev node
    { major := MAJOR_MEM, read := some devmemRead, write := some devmemWrite, ioctl := none }
  return (c, { s with memPtr := MEM_DEV_LO, portPtr := PORT_DEV_LO })

end Devmem
end Osproj
