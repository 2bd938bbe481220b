import Osproj.Mm.Impl.Buddy

/-!
This module contains `map_page` and `unmap_page` with the page allocator in one memory, and the steps of a
program that uses them on one page directory.
-/

namespace Osproj

namespace Memory

/--
Physical memory as it is seen from `0xC0000000` on, where the status map is accessed.
-/
def toKernelSpace (m : Memory) : Memory where
  cell := fun a => m.cell (lin2phy a)
  log := m.log.map (· + KERNEL_BASE)

def ofKernelSpace (m m' : Memory) : Memory where
  cell := fun a => if a < 0x40000000 then m'.cell (a + KERNEL_BASE) else m.cell a
  log := m'.log.map lin2phy

end Memory

namespace MemConfig

/--
`map_page` asks for a page only if there is no table. `palloc` is done when the first byte of the page
is cleared, and changes nothing but the status of pages, so that the directory entry is still the one
that was looked at.
-/
def mapPage (cfg : MemConfig) (m : Memory) (pdbr phy virt : Nat) (perm rw : BitVec 8)
    : Option (Option Int × Memory) := do
  let pdeAddr ← linear ((pdbr + 4 * (virt >>> 22)) % 0x100000000)
  let pde := Pde.ofWord (m.loadWord pdeAddr)
  if pde.pse = 1 ∨ ¬ pde.present = 0 then
    Osproj.mapPage m 0 pdbr phy virt perm rw
  else
    let (page, m') := cfg.palloc m.toKernelSpace ZONE_KERNEL PAGE_SIZE
    Osproj.mapPage (m.ofKernelSpace m') page pdbr phy virt perm rw

def unmapPage.anyPresent (m : Memory) (pteBase : Nat) : Nat → Nat → Option Bool
  | _, 0 => some false
  | i, left + 1 => do
    let a ← linear ((pteBase + 4 * i) % 0x100000000)
    if (Pte.ofWord (m.loadWord a)).present = 1 then
      return true
    else
      anyPresent m pteBase (i + 1) left

def unmapPage (cfg : MemConfig) (m : Memory) (pdbr virt : Nat) : Option Memory := do
  let pdeIndex := virt >>> 22
  let pteIndex := (virt >>> 12) &&& 0xFFF
  let pdeAddr ← linear ((pdbr + 4 * pdeIndex) % 0x100000000)
  let pde := Pde.ofWord (m.loadWord pdeAddr)
  if pde.pse = 1 then
    -- unmap 4MB page
    return m.storeWord pdeAddr { pde with present := 0 }.toWord
  let pteBase := (pde.addr.toNat <<< 12 + KERNEL_BASE) % 0x100000000
  let pteAddr ← linear ((pteBase + 4 * pteIndex) % 0x100000000)
  let pte := Pte.ofWord (m.loadWord pteAddr)
  let m := m.storeWord pteAddr { pte with present := 0 }.toWord
  if ← unmapPage.anyPresent m pteBase 0 1024 then
    return m
  let m := m.ofKernelSpace (cfg.pfree m.toKernelSpace pteBase 1 ZONE_KERNEL)
  let pde := Pde.ofWord (m.loadWord pdeAddr)
  return m.storeWord pdeAddr { pde with present := 0 }.toWord

end MemConfig

inductive MapOp
  | map (phy virt : BitVec 32) (perm rw : BitVec 8)
  | unmap (virt : BitVec 32)

def MapOp.step (cfg : MemConfig) (dir : Nat) (m : Memory) : MapOp → Option Memory
  | .map phy virt perm rw =>
    (cfg.mapPage m (dir + KERNEL_BASE) phy.toNat virt.toNat perm rw).map Prod.snd
  | .unmap virt => cfg.unmapPage m (dir + KERNEL_BASE) virt.toNat

/--
A call on one page directory. `page` is what `palloc` would return.
-/
inductive DirOp
  | map (page : Nat) (phy virt : BitVec 32) (perm rw : BitVec 8)
  | mapHuge (phy virt : BitVec 32) (perm rw : BitVec 8)
  | unmap (virt : BitVec 32)

def DirOp.step (cfg : MemConfig) (dir : Nat) (m : Memory) : DirOp → Option Memory
  | .map page phy virt perm rw =>
    (mapPage m page (dir + KERNEL_BASE) phy.toNat virt.toNat perm rw).map Prod.snd
  | .mapHuge phy virt perm rw =>
    (mapHugePage m (dir + KERNEL_BASE) phy.toNat virt.toNat perm rw).map Prod.snd
  | .unmap virt => cfg.unmapPage m (dir + KERNEL_BASE) virt.toNat

end Osproj
