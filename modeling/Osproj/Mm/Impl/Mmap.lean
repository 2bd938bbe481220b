import Osproj.Base.Memory

/-!
This module contains the two linear views of physical memory and the functions that change the page
tables. Addresses are numbers below `2 ^ 32`, memory is physical. An access to a linear address that
is not mapped in the address space of the kernel returns `none`.
-/

namespace Osproj

def phy2lin (phy : Nat) : Nat :=
  if phy ≤ 0x40000000 then
    -- kernel space
    (phy + 0xC0000000) % 0x100000000
  else if phy ≥ 0xC0000000 then
    -- mmio
    phy - 0x40000000
  else
    0

def lin2phy (lin : Nat) : Nat :=
  if lin ≥ 0xC0000000 then
    -- kernel space
    lin - 0xC0000000
  else if lin ≥ 0x80000000 ∧ lin < 0xC0000000 then
    -- mmio
    lin + 0x40000000
  else
    0

/--
The physical address behind a linear one: the boot code takes away the mapping of the low addresses.
-/
def linear (a : Nat) : Option Nat :=
  if a < 0x80000000 then none else some (lin2phy a)

def PAGE_SIZE : Nat := 4096
def KERNEL_BASE : Nat := 0xC0000000

structure Pde where
  present : BitVec 1
  rw : BitVec 1
  us : BitVec 1
  pwt : BitVec 1
  pcd : BitVec 1
  accessed : BitVec 1
  dirty : BitVec 1
  pse : BitVec 1
  avl : BitVec 4
  addr : BitVec 20

structure Pte where
  present : BitVec 1
  rw : BitVec 1
  us : BitVec 1
  pwt : BitVec 1
  pcd : BitVec 1
  accessed : BitVec 1
  dirty : BitVec 1
  reserved : BitVec 1
  global : BitVec 1
  avl : BitVec 3
  addr : BitVec 20

namespace Pde

def ofWord (w : Nat) : Pde where
  present := .ofNat 1 w
  rw := .ofNat 1 (w / 0x2)
  us := .ofNat 1 (w / 0x4)
  pwt := .ofNat 1 (w / 0x8)
  pcd := .ofNat 1 (w / 0x10)
  accessed := .ofNat 1 (w / 0x20)
  dirty := .ofNat 1 (w / 0x40)
  pse := .ofNat 1 (w / 0x80)
  avl := .ofNat 4 (w / 0x100)
  addr := .ofNat 20 (w / 0x1000)

def toWord (e : Pde) : Nat :=
  e.present.toNat + 0x2 * e.rw.toNat + 0x4 * e.us.toNat + 0x8 * e.pwt.toNat + 0x10 * e.pcd.toNat
    + 0x20 * e.accessed.toNat + 0x40 * e.dirty.toNat + 0x80 * e.pse.toNat + 0x100 * e.avl.toNat
    + 0x1000 * e.addr.toNat

end Pde

namespace Pte

def ofWord (w : Nat) : Pte where
  present := .ofNat 1 w
  rw := .ofNat 1 (w / 0x2)
  us := .ofNat 1 (w / 0x4)
  pwt := .ofNat 1 (w / 0x8)
  pcd := .ofNat 1 (w / 0x10)
  accessed := .ofNat 1 (w / 0x20)
  dirty := .ofNat 1 (w / 0x40)
  reserved := .ofNat 1 (w / 0x80)
  global := .ofNat 1 (w / 0x100)
  avl := .ofNat 3 (w / 0x200)
  addr := .ofNat 20 (w / 0x1000)

def toWord (e : Pte) : Nat :=
  e.present.toNat + 0x2 * e.rw.toNat + 0x4 * e.us.toNat + 0x8 * e.pwt.toNat + 0x10 * e.pcd.toNat
    + 0x20 * e.accessed.toNat + 0x40 * e.dirty.toNat + 0x80 * e.reserved.toNat
    + 0x100 * e.global.toNat + 0x200 * e.avl.toNat + 0x1000 * e.addr.toNat

end Pte

def mapPage.createPage (m : Memory) (page pdeAddr : Nat) : Option (Nat × Memory) := do
  let dst ← linear page
  let m := m.fill dst 0 PAGE_SIZE
  let pde : Pde := {
    present := 1
    rw := 1
    us := 1
    pwt := 0
    pcd := 0
    accessed := 0
    dirty := 0
    pse := 0
    avl := 0
    addr := .ofNat 20 (((page + 0x100000000 - KERNEL_BASE) % 0x100000000) >>> 12)
  }
  return (page, m.storeWord pdeAddr pde.toWord)

/--
`page` is what `palloc` returns. The number returned is missing where the source returns none.
-/
def mapPage (m : Memory) (page pdbr phy virt : Nat) (perm rw : BitVec 8)
    : Option (Option Int × Memory) := do
  let pdeIndex := virt >>> 22
  let pteIndex := (virt >>> 12) &&& 0xFFF
  let pdeAddr ← linear ((pdbr + 4 * pdeIndex) % 0x100000000)
  let pde := Pde.ofWord (m.loadWord pdeAddr)
  if pde.pse = 1 then
    -- already mapped 4MB page
    return (some (-1), m)
  let (pteBase, m) ←
    if pde.present = 0 then
      mapPage.createPage m page pdeAddr
    else
      some (pde.addr.toNat <<< 12, m)
  let pteAddr ← linear ((pteBase + 4 * pteIndex) % 0x100000000)
  let pte := Pte.ofWord (m.loadWord pteAddr)
  if pte.present = 1 then
    -- already mapped page
    return (some (-1), m)
  let pte : Pte := {
    present := 1
    rw := .ofNat 1 rw.toNat
    us := .ofNat 1 perm.toNat
    pwt := 0
    pcd := 0
    accessed := 0
    dirty := 0
    reserved := 0
    global := 0
    avl := 0
    addr := .ofNat 20 (phy >>> 12)
  }
  return (none, m.storeWord pteAddr pte.toWord)

structure HugePde where
  present : BitVec 1
  rw : BitVec 1
  us : BitVec 1
  pwt : BitVec 1
  pcd : BitVec 1
  accessed : BitVec 1
  dirty : BitVec 1
  pse : BitVec 1
  global : BitVec 1
  avl : BitVec 3
  reserved : BitVec 10
  addr : BitVec 10

namespace HugePde

def ofWord (w : Nat) : HugePde where
  present := .ofNat 1 w
  rw := .ofNat 1 (w / 0x2)
  us := .ofNat 1 (w / 0x4)
  pwt := .ofNat 1 (w / 0x8)
  pcd := .ofNat 1 (w / 0x10)
  accessed := .ofNat 1 (w / 0x20)
  dirty := .ofNat 1 (w / 0x40)
  pse := .ofNat 1 (w / 0x80)
  global := .ofNat 1 (w / 0x100)
  avl := .ofNat 3 (w / 0x200)
  reserved := .ofNat 10 (w / 0x1000)
  addr := .ofNat 10 (w / 0x400000)

def toWord (e : HugePde) : Nat :=
  e.present.toNat + 0x2 * e.rw.toNat + 0x4 * e.us.toNat + 0x8 * e.pwt.toNat + 0x10 * e.pcd.toNat
    + 0x20 * e.accessed.toNat + 0x40 * e.dirty.toNat + 0x80 * e.pse.toNat + 0x100 * e.global.toNat
    + 0x200 * e.avl.toNat + 0x1000 * e.reserved.toNat + 0x400000 * e.addr.toNat

end HugePde

/--
The bit `global` of the entry stays what it was.
-/
def mapHugePage (m : Memory) (pdbr phy virt : Nat) (perm rw : BitVec 8)
    : Option (Option Int × Memory) := do
  let pdeIndex := virt >>> 22
  let pdeAddr ← linear ((pdbr + 4 * pdeIndex) % 0x100000000)
  let pde := HugePde.ofWord (m.loadWord pdeAddr)
  if pde.present = 1 then
    -- already mapped page(s)
    return (some (-1), m)
  let pde : HugePde := { pde with
    present := 1
    rw := .ofNat 1 rw.toNat
    us := .ofNat 1 perm.toNat
    pwt := 0
    pcd := 0
    accessed := 0
    dirty := 0
    pse := 1
    avl := 0
    reserved := 0
    addr := .ofNat 10 (phy >>> 22)
  }
  return (none, m.storeWord pdeAddr pde.toWord)

end Osproj
