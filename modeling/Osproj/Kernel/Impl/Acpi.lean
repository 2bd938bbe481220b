import Osproj.Base.Loop
import Osproj.Mm.Impl.Mmap

/-!
This module contains `acpi_init` over the memory, where an access to an address without a mapping returns `none`, and
its loop that looks for the I/O APIC also over a MADT alone, where that is what a read outside of the table returns.
-/

namespace Osproj

/--
`length` is the length field of the header; `entries` are the bytes from the first record on, of which those behind
the length do not belong to the table.
-/
structure Madt where
  length : BitVec 32
  entries : Nat → BitVec 8

namespace Madt

def XSDT_HEADER_SZ : BitVec 32 := 36
def ENTRIES_OFFSET : Nat := 44

def read (t : Madt) (i : Nat) : Option (BitVec 8) :=
  if ENTRIES_OFFSET + i < t.length.toNat then some (t.entries i) else none

def readWord (t : Madt) (i : Nat) : Option Nat := do
  let b0 ← t.read i
  let b1 ← t.read (i + 1)
  let b2 ← t.read (i + 2)
  let b3 ← t.read (i + 3)
  return b0.toNat + 0x100 * b1.toNat + 0x10000 * b2.toNat + 0x1000000 * b3.toNat

/--
One round: the next value of `i`, or what `ioapic_addr` is set to when the loop is left.
-/
def step (t : Madt) (i : BitVec 32) : Option (BitVec 32 ⊕ Option Nat) :=
  if i < t.length - XSDT_HEADER_SZ then do
    let type ← t.read i.toNat
    if type ≠ 1 then
      let length ← t.read (i + 1).toNat
      return .inl (i + length.setWidth 32)
    else
      let addr ← t.readWord (i.toNat + 4)
      return .inr (some (phy2lin addr))
  else
    return .inr none

/--
`i` is not initialized: its first value is what lies on the stack.
-/
def walk (t : Madt) (fuel : Nat) (i : BitVec 32) : Option (Option Nat) := Loop.loop t.step fuel i

end Madt

namespace Acpi

def RSDP_LO : Nat := 0xE0000
def RSDP_HI : Nat := 0xFFFFF
def RSDP_SZ : Nat := 20

def RSD_PTR : List (BitVec 8) := [0x52, 0x53, 0x44, 0x20, 0x50, 0x54, 0x52, 0x20]
def APIC : List (BitVec 8) := [0x41, 0x50, 0x49, 0x43]
def HPET : List (BitVec 8) := [0x48, 0x50, 0x45, 0x54]

/--
What becomes of `acpi_init`: it panics, it follows a `NULL` that `find_xsdt` returned, or it comes to its end, where
`ioapic_addr` is what it was before if no record of an I/O APIC was found.
-/
inductive Outcome
  | panic (reason : String)
  | null
  | done (apicAddr : Nat) (ioapicAddr : Option Nat) (hpetAddr : Nat)
deriving DecidableEq

def load (m : Memory) (a : Nat) : Option (BitVec 8) := (linear (a % 0x100000000)).map m.load

def loadWord (m : Memory) (a : Nat) : Option Nat := do
  let b0 ← load m a
  let b1 ← load m (a + 1)
  let b2 ← load m (a + 2)
  let b3 ← load m (a + 3)
  return b0.toNat + 0x100 * b1.toNat + 0x10000 * b2.toNat + 0x1000000 * b3.toNat

/--
`memcmp` and `strncmp` with the bytes of a literal, which end at the first difference.
-/
def compare (m : Memory) (dst : Nat) : List (BitVec 8) → Option Nat
  | [] => some 0
  | c :: src => do
    if (← load m dst) ≠ c then
      return 1
    else
      compare m (dst + 1) src

def acpiChecksum (m : Memory) (head length : Nat) : Option (BitVec 8) := do
  let sum ← (List.range length).foldlM
    (fun (sum : BitVec 32) i => do return sum + (← load m (head + i)).signExtend 32) 0
  if sum &&& 0xFF = 0 then
    return 1
  else
    return 0

def length (m : Memory) (table : Nat) : Option Nat := loadWord m (table + 4)

/--
The number of entries that `find_xsdt` expects in a table of this length: the subtraction is one of unsigned numbers.
-/
def entryCount (length : Nat) : Nat := (BitVec.ofNat 32 length - Madt.XSDT_HEADER_SZ).toNat / 4

/--
The entry number `i` of the RSDT.
-/
def entry (m : Memory) (rsdt i : Nat) : Option Nat := loadWord m (rsdt + 36 + 4 * i)

def findXsdt.step (m : Memory) (rsdt : Nat) (signature : List (BitVec 8)) (i : Nat) : Option (Nat ⊕ Nat) := do
  if i < entryCount (← length m rsdt) then
    let p ← entry m rsdt i
    -- `*p + 0xC0000000` counts in headers of 36 bytes, which is nothing modulo `2 ^ 32`
    if (← compare m (p + 0xC0000000) (signature.take 4)) = 0 then
      return .inr (phy2lin p)
    else
      return .inl (i + 1)
  else
    return .inr 0

def findXsdt (m : Memory) (rsdt : Nat) (signature : List (BitVec 8)) : Option Nat :=
  Loop.loop (findXsdt.step m rsdt signature) 0x40000000 0

def search.step (m : Memory) (p : Nat) : Option (Nat ⊕ Nat) := do
  if p < phy2lin RSDP_HI then
    if (← compare m p RSD_PTR) = 0 then
      return .inr p
    else
      return .inl (p + 16)
  else
    return .inr p

def search (m : Memory) : Option Nat := Loop.loop (search.step m) 0x2001 (phy2lin RSDP_LO)

/--
The part of `acpi_init` up to the check of the revision: the reason of a panic, or the RSDP that is used.
-/
def rsdp (m : Memory) : Option (Except String Nat) := do
  let rsdp ← search m
  -- do checksum for all acpi versions
  if (← acpiChecksum m rsdp RSDP_SZ) = 0 then
    return .error "bad rsdp checksum"
  else if (← load m (rsdp + 15)) ≠ 0 then
    return .error "unsupported acpi version"
  else
    return .ok rsdp

def walk.step (m : Memory) (madt : Nat) (i : BitVec 32) : Option (BitVec 32 ⊕ Option Nat) := do
  let entries := madt + Madt.ENTRIES_OFFSET
  if i < BitVec.ofNat 32 (← length m madt) - Madt.XSDT_HEADER_SZ then
    if (← load m (entries + i.toNat)) ≠ 1 then
      let length ← load m (entries + (i + 1).toNat)
      return .inl (i + length.setWidth 32)
    else
      let addr ← loadWord m (entries + i.toNat + 4)
      return .inr (some (phy2lin addr))
  else
    return .inr none

def walk (m : Memory) (madt fuel : Nat) (i : BitVec 32) : Option (Option Nat) := Loop.loop (walk.step m madt) fuel i

/--
`i` is what lies on the stack where `acpi_init` has the variable that it does not initialize.
-/
def acpiInit (m : Memory) (fuel : Nat) (i : BitVec 32) : Option Outcome := do
  match ← rsdp m with
  | .error reason => return .panic reason
  | .ok rsdp =>
    let rsdt := phy2lin (← loadWord m (rsdp + 16))
    if (← acpiChecksum m rsdt (← length m rsdt)) = 0 then
      return .panic "bad rsdt checksum"
    else
      -- find MADT
      let madt ← findXsdt m rsdt APIC
      if madt = 0 then
        return .null
      else
        let apicAddr := phy2lin (← loadWord m (madt + 36))
        let ioapicAddr ← walk m madt fuel i
        let hpetHead ← findXsdt m rsdt HPET
        if hpetHead = 0 then
          return .null
        else
          return .done apicAddr ioapicAddr (phy2lin (← loadWord m (hpetHead + 44)))

end Acpi
end Osproj
