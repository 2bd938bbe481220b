import Osproj.Base.Loop
import Osproj.Base.Memory

/-!
This module contains the string functions of `string.c` and `memcmp`. Pointers that are moved do not wrap, but the
address of an element with an index does. A store through `NULL` and a string without end return `none`.
-/

namespace Osproj
namespace Str

def strlen.scan (m : Memory) (s : Nat) : Nat → Option Nat
  | 0 => none
  | n + 1 => if m.load s = 0 then some 0 else (scan m (s + 1) n).map (· + 1)

def strlen (m : Memory) (s : Nat) : Nat := (strlen.scan m s 0xFFFFFFFF).getD 0

/--
`repne scasb` with `ecx` as it is before. Returns `ecx` as it is behind, and whether the byte was found.
-/
def scasb (m : Memory) (al : BitVec 8) (edi : Nat) : Nat → Nat × Bool
  | 0 => (0, false)
  | ecx + 1 => if m.load edi = al then (ecx, true) else scasb m al (edi + 1) ecx

/--
`strlen` as its instructions compute it.
-/
def strlen.instructions (m : Memory) (s : Nat) : BitVec 32 :=
  let (ecx, found) := scasb m 0 s 0xFFFFFFFF
  if found then
    let ecx := BitVec.ofNat 32 ecx - 0xFFFFFFFF
    let ecx := -ecx
    ecx - 1
  else
    0

def strcpy.loop (m : Memory) (dst src : Nat) : Nat → Option Memory
  | 0 => none
  | n + 1 =>
    if m.load src = 0 then
      some (m.store dst 0)
    else
      loop (m.store dst (m.load src)) (dst + 1) (src + 1) n

def strcpy (m : Memory) (dst src : Nat) : Option Memory :=
  if dst = 0 then none else strcpy.loop m dst src 0x100000000

def strcat (m : Memory) (dst src : Nat) : Option Memory := do
  if dst = 0 then
    none
  else
    let n ← strlen.scan m dst 0x100000000
    strcpy m (dst + n) src

def memcmp (m : Memory) (dst src : Nat) : Nat → Nat
  | 0 => 0
  | n + 1 => if m.load src = m.load dst then memcmp m (dst + 1) (src + 1) n else 1

/--
The addresses that were read through `dst` and through `src`, the last one first.
-/
structure Reads where
  dst : List Nat
  src : List Nat

def Reads.add (reads : Reads) (dst src : Nat) : Reads := ⟨dst :: reads.dst, src :: reads.src⟩

structure StrcmpState where
  cs : BitVec 8
  cd : BitVec 8
  dst : Nat
  src : Nat
  reads : Reads

def strcmp.step (m : Memory) (s : StrcmpState) : Option (StrcmpState ⊕ Nat × Reads) :=
  if s.cs = s.cd then
    let cs := m.load s.src
    let cd := m.load s.dst
    let reads := s.reads.add s.dst s.src
    if cs ≠ cd then
      some (.inr (1, reads))
    else if cs = 0 then
      some (.inr (0, reads))
    else
      some (.inl ⟨cs, cd, s.dst + 1, s.src + 1, reads⟩)
  else
    -- behind the loop there is no `return`
    none

def strcmp (m : Memory) (dst src : Nat) : Option (Nat × Reads) :=
  Loop.loop (strcmp.step m) 0x100000000 ⟨0, 0, dst, src, ⟨[], []⟩⟩

/--
The address of `p[i]`. It is the same one if `i` is an `int` that has become negative.
-/
def index (p i : Nat) : Nat := (p + i) % 0x100000000

def strncmp.step (m : Memory) (dst src size : Nat) : Nat × Reads → Option (Nat × Reads ⊕ Nat × Reads)
  | (i, reads) =>
    if i < size then
      let reads := reads.add (index dst i) (index src i)
      if m.load (index dst i) ≠ m.load (index src i) then
        some (.inr (1, reads))
      else
        some (.inl (i + 1, reads))
    else
      some (.inr (0, reads))

def strncmp (m : Memory) (dst src size : Nat) : Option (Nat × Reads) :=
  Loop.loop (strncmp.step m dst src size) (size + 1) (0, ⟨[], []⟩)

/--
Returns the addresses that were read as well.
-/
def strncpy.loop (m : Memory) (dst src i : Nat) (reads : List Nat) : Nat → Memory × List Nat
  | 0 => (m, reads)
  | left + 1 =>
    loop (m.store (index dst i) (m.load (index src i))) dst src (i + 1) (index src i :: reads) left

def strncpy (m : Memory) (dst src size : Nat) : Option (Memory × List Nat) :=
  if dst = 0 ∧ size ≠ 0 then none else some (strncpy.loop m dst src 0 [] size)

def strncat (m : Memory) (dst src size : Nat) : Option (Memory × List Nat) := do
  if dst = 0 then
    none
  else
    let n ← strlen.scan m dst 0x100000000
    strncpy m (dst + n) src size

end Str
end Osproj
