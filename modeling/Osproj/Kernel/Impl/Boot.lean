import Osproj.Mm.Impl.Mmap

/-!
This module contains the way of the boot code to the page directory that the kernel runs with: `_start` in `head.s`
saves the data area of the BIOS, builds the directory at the physical address 0 and takes the mapping of the low
addresses away again, and `arch_init` adds the window of the devices. Memory is physical. A loop that does not end
returns `none`.
-/

namespace Osproj
namespace Boot

def PAGE_TABLE_ITEM_SIZE : Nat := 1
def USER_COUNT : Nat := 768
def BDA : Nat := 0x400
def BDA_SIZE : Nat := 0xA0
def PDT_BASE : Nat := 0xC0000000

/--
`rep movsl`
-/
def movsl (m : Memory) (esi edi : Nat) : Nat → Memory
  | 0 => m
  | ecx + 1 => movsl (m.storeWord edi (m.loadWord esi)) (esi + 4) (edi + 4) ecx

/--
`rep stosl`. Returns `edi` as well.
-/
def stosl (m : Memory) (eax edi : Nat) : Nat → Memory × Nat
  | 0 => (m, edi)
  | ecx + 1 => stosl (m.storeWord edi eax) eax (edi + 4) ecx

def creatloop (m : Memory) (edi ax : Nat) : Nat → Option Memory
  | 0 => none
  | fuel + 1 =>
    let m := m.storeHalf edi 0x83
    let edi := edi + 2
    let m := m.storeHalf edi ax
    let ax := (ax + 0x40) % 0x10000
    let edi := edi + 2
    if edi ≠ 0x1000 then
      creatloop m edi ax fuel
    else
      some m

/--
What `_start` does before it switches paging on. `biosdata` is the linear address of `_biosdata`.
-/
def setupPaging (m : Memory) (biosdata : Nat) : Option Memory :=
  let m := movsl m BDA ((biosdata + 0x100000000 - 0xC0000000) % 0x100000000) (BDA_SIZE / 4)
  let edi := 0
  -- mapping hack
  let m := m.storeHalf edi 0x83
  let edi := edi + 2
  let m := m.storeHalf edi 0
  let edi := edi + 2
  let (m, edi) := stosl m 0 edi (USER_COUNT * PAGE_TABLE_ITEM_SIZE)
  let edi := (edi + 0x100000000 - 4) % 0x100000000
  creatloop m edi 0 256

/--
The mapping that is destroyed is the one that the address of the store goes through.
-/
def start (m : Memory) (biosdata : Nat) : Option Memory := do
  let m ← setupPaging m biosdata
  return m.storeWord 0 0

/--
The loop of `arch_init` that maps the devices.
-/
def mapMmio (m : Memory) (i : Nat) : Nat → Option Memory
  | 0 => some m
  | left + 1 => do
    let (_, m) ← mapHugePage m PDT_BASE ((0xC0000000 + i * 0x400000) % 0x100000000)
      ((0x80000000 + i * 0x400000) % 0x100000000) 0 1
    mapMmio m (i + 1) left

/--
`_start` up to the call of `kmain`, and then the loop of `arch_init`. What `kmain` and `arch_init` do before that loop is
left out: it writes to the screen, to the tables of segments and gates and to the kernel's own data, not to the directory.
-/
def bootPaging (m : Memory) (biosdata : Nat) : Option Memory := do
  let m ← start m biosdata
  mapMmio m 0 0x100

end Boot
end Osproj
