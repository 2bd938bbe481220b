import Osproj.Kernel.Impl.Idt

/-!
This module contains the interrupt controller of the devices: its registers behind the two words the kernel can reach,
the calls that route the pins, and what becomes of a device's interrupt.
-/

namespace Osproj

open X86

/--
`select` is the register that the second word stands for.
-/
structure IoApic where
  select : Nat
  regs : Nat → BitVec 32

namespace IoApic

def ioapicRead (s : IoApic) (reg : Nat) : BitVec 32 × IoApic :=
  let s := { s with select := reg % 0x100 }
  (s.regs s.select, s)

def ioapicWrite (s : IoApic) (reg : Nat) (data : BitVec 32) : IoApic :=
  let s := { s with select := reg % 0x100 }
  { s with regs := fun r => if r = s.select then data else s.regs r }

def ioapicEnable (s : IoApic) (targetVector pin : BitVec 8) : IoApic :=
  let s := s.ioapicWrite (0x10 + 2 * pin.toNat) (targetVector.setWidth 32)
  s.ioapicWrite (0x10 + 2 * pin.toNat + 1) 0

def ioapicDisable (s : IoApic) (pin : BitVec 8) : IoApic :=
  let (value, s) := s.ioapicRead (0x10 + 2 * pin.toNat)
  let s := s.ioapicWrite (0x10 + 2 * pin.toNat) (1 <<< 16 ||| value)
  s.ioapicWrite (0x10 + 2 * pin.toNat + 1) 0

end IoApic

inductive PinOp
  | enable (targetVector pin : BitVec 8)
  | disable (pin : BitVec 8)

def PinOp.step (s : IoApic) : PinOp → Option IoApic
  | .enable targetVector pin => some (s.ioapicEnable targetVector pin)
  | .disable pin => some (s.ioapicDisable pin)

/--
The loop of `serial_init`.
-/
def serialInit : List PinOp :=
  (List.range 24).map (fun i => .enable (BitVec.ofNat 8 (i % 14)) (BitVec.ofNat 8 i))

def PIT_VECTOR : BitVec 8 := 32
def PIT_PIN : BitVec 8 := 2

/--
The calls of `pit_init`, which gets the address of `pit_int`.
-/
def pitInit (pitInt : BitVec 32) : List (Idt.GateOp ⊕ PinOp) :=
  [.inl (Idt.setIntGate PIT_VECTOR pitInt), .inr (.enable PIT_VECTOR PIT_PIN)]

/--
The entry of a pin in the redirection table.
-/
structure Redirection where
  low : BitVec 32
  high : BitVec 32

namespace IoApic

def redirection (s : IoApic) (pin : Nat) : Redirection where
  low := s.regs (0x10 + 2 * pin)
  high := s.regs (0x10 + 2 * pin + 1)

end IoApic

/--
The vector that an entry sends to the processor. A masked one sends none, and the processor does not accept a vector
below 16.
-/
def Redirection.vector (e : Redirection) : Option (BitVec 8) :=
  let v := e.low.setWidth 8
  if e.low.getLsbD 16 then
    none
  else if v < 16 then
    none
  else
    some v

/--
What the processor does when a device raises its pin. If it gets no vector, it goes on.
-/
def IoApic.raise (ioapic : IoApic) (function : BitVec 32 → State → Option State) (text : BitVec 32 → Option (List Instr))
    (idtr : Idt.Idtr) (pin : Nat) (s : State) : Option State :=
  match (ioapic.redirection pin).vector with
  | none => some s
  | some v => Idt.interrupt function text idtr v none s

end Osproj
