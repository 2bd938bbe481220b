import Osproj.Mm.Impl.Mmap

/-!
This module contains the page allocator. The status of every page is a byte in memory: first those of
the kernel zone, then those of the user zone, from the end of the kernel image on.
-/

namespace Osproj

def MEM_UNUSED : BitVec 8 := 1
def MEM_USED : BitVec 8 := 2
def ZONE_KERNEL : Nat := 1
def ZONE_USER : Nat := 2

/--
What `page_init` finds: the physical address `kernelEnd` of `_kernel_end` and the size of the memory
in KiB. Physical memory has at most 4 GiB, and the kernel image and the status map fit both in it and
in its first GiB, which is mapped to `0xC0000000`.
-/
structure MemConfig where
  kernelEnd : Nat
  totalMem : Nat
  total_le : totalMem ≤ 0x400000
  image_lt : kernelEnd + 4 * (totalMem >>> 4) < 4 * (totalMem >>> 4) * PAGE_SIZE
  mapped : kernelEnd + 4 * (totalMem >>> 4) < 0x40000000

namespace MemConfig

/-
The variables that `page_init` sets and nothing else changes.
-/
section Variables

variable (cfg : MemConfig)

def kernelMemPages : Nat := cfg.totalMem >>> 4

def userMemPages : Nat := (cfg.totalMem >>> 4) * 3

def memmapKernel : Nat := cfg.kernelEnd + 0xC0000000

def memmapUser : Nat := cfg.kernelEnd + cfg.kernelMemPages + 0xC0000000

def memmapEnd : Nat := cfg.memmapUser + cfg.userMemPages

end Variables

def kernelReservedPages (cfg : MemConfig) : Nat := (cfg.memmapEnd - 0xC0000000) >>> 12 + 1

def pageInit (cfg : MemConfig) (m : Memory) : Memory :=
  let m := m.fill cfg.memmapKernel MEM_USED cfg.kernelReservedPages
  let ptr := cfg.memmapKernel + cfg.kernelReservedPages
  m.fill ptr MEM_UNUSED (cfg.memmapEnd - ptr)

def pages (size : Nat) : Nat :=
  let sz := size / PAGE_SIZE
  if size % PAGE_SIZE ≠ 0 then sz + 1 else sz

/--
The loop over the `left` entries from `index` on. Returns `index` and `head_ptr` as they are when
`curr_size` gets to 0.
-/
def palloc.search (m : Memory) (ptr size : Nat) : Nat → Nat → Nat → Nat → Option (Nat × Nat)
  | 0, _, _, _ => none
  | left + 1, index, headPtr, currSize =>
    if m.load (ptr + index) = MEM_UNUSED then
      let currSize := (currSize + 0xFFFFFFFF) % 0x100000000
      if currSize = 0 then
        some (index, headPtr)
      else
        search m ptr size left (index + 1) headPtr currSize
    else
      search m ptr size left (index + 1) (headPtr + 1) size

def palloc (cfg : MemConfig) (m : Memory) (zone size : Nat) : Nat × Memory :=
  let size := pages size
  if zone ≠ ZONE_USER ∧ zone ≠ ZONE_KERNEL then
    (0, m)
  else
    let ptr := if zone = ZONE_KERNEL then cfg.memmapKernel else cfg.memmapUser
    let searchlen := if zone = ZONE_KERNEL then cfg.kernelMemPages else cfg.userMemPages
    match palloc.search m ptr size searchlen 0 ptr size with
    | none => (0, m)
    | some (index, headPtr) =>
      let addr := ((index + 0x100000000 - size) <<< 12) % 0x100000000
      let m := m.fill headPtr MEM_USED size
      (if zone = ZONE_KERNEL then phy2lin addr else addr, m)

def pfree.release (m : Memory) (ptr i : Nat) : Nat → Memory
  | 0 => m
  | left + 1 => release (m.store ((ptr + i) % 0x100000000) MEM_UNUSED) ptr (i + 1) left

def pfree (cfg : MemConfig) (m : Memory) (addr len zone : Nat) : Memory :=
  let len := len / PAGE_SIZE
  let len := if len % PAGE_SIZE ≠ 0 then len + 1 else len
  let memmap := if zone = ZONE_USER then cfg.memmapUser else cfg.memmapKernel
  pfree.release m (memmap + addr >>> 12) 1 (len - 1)

end MemConfig

/--
The static variables of the allocator, for a memory and a kernel image of any size.
-/
structure PageVars where
  memmapKernel : Nat
  memmapUser : Nat
  memmapEnd : Nat
  kernelMemPages : Nat
  userMemPages : Nat

namespace PageVars

/--
What `page_init` sets them to. `kernelEnd` is the linear address of `_kernel_end`.
-/
def set (kernelEnd totalMem : Nat) : PageVars :=
  let kernelMemPages := totalMem >>> 4
  let userMemPages := (totalMem >>> 4) * 3 % 0x100000000
  -- `KERNEL_END` has no parentheses, so the cast before it converts the address only
  let memmapKernel := (kernelEnd + (0x100000000 - 0xC0000000) + 0xC0000000) % 0x100000000
  let memmapUser :=
    (kernelEnd + (0x100000000 - 0xC0000000) + kernelMemPages + 0xC0000000) % 0x100000000
  let memmapEnd := (memmapUser + userMemPages) % 0x100000000
  { memmapKernel, memmapUser, memmapEnd, kernelMemPages, userMemPages }

def kernelReservedPages (v : PageVars) : Nat :=
  ((v.memmapEnd + (0x100000000 - 0xC0000000)) % 0x100000000) >>> 12 + 1

/--
The first loop of `page_init`. Returns `ptr` as well.
-/
def reserve (m : Memory) (ptr : Nat) : Nat → Nat × Memory
  | 0 => (ptr, m)
  | left + 1 => reserve (m.store ptr MEM_USED) ((ptr + 1) % 0x100000000) left

/--
The second loop of `page_init`.
-/
def clear (v : PageVars) (m : Memory) (ptr : Nat) : Memory :=
  if ptr < v.memmapEnd then
    clear v (m.store ptr MEM_UNUSED) (ptr + 1)
  else
    m
termination_by v.memmapEnd - ptr

def pageInit (kernelEnd totalMem : Nat) (m : Memory) : PageVars × Memory :=
  let v := set kernelEnd totalMem
  let p := reserve m v.memmapKernel v.kernelReservedPages
  (v, v.clear p.2 p.1)

end PageVars
end Osproj
