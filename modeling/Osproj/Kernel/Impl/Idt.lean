import Osproj.Kernel.Impl.Isr

/-!
This module contains the table of the interrupt gates in memory, how the kernel fills it, and how the processor takes an
interrupt through it. The addresses of the stubs are those the linker chooses.
-/

namespace Osproj

open X86

/--
The addresses of the stubs in `isr.s` that `arch_init` names.
-/
structure Stubs where
  divide_error : BitVec 32
  debug : BitVec 32
  nmi : BitVec 32
  int3 : BitVec 32
  overflow : BitVec 32
  bounds : BitVec 32
  opcode : BitVec 32
  device_not_present : BitVec 32
  double_fault : BitVec 32
  i387_overrun : BitVec 32
  illegal_tss : BitVec 32
  illegal_segment : BitVec 32
  stack_overflow : BitVec 32
  general_protect : BitVec 32
  page_fault : BitVec 32
  reserved : BitVec 32

namespace Idt

def INTR_GATE : BitVec 8 := 0xe
def TRAP_GATE : BitVec 8 := 0xf

inductive GateType
  | intr
  | trap
deriving DecidableEq, Repr

def GateType.code : GateType → BitVec 8
  | .intr => INTR_GATE
  | .trap => TRAP_GATE

/--
The processor goes into a gate of the type.
-/
def GateType.enter (type : GateType) (err : Option (BitVec 32)) (s : State) : State :=
  match type with
  | .intr => s.deliver err
  | .trap => s.pushFrame err

/--
An assignment to the bit field at the bit `lo` of the byte at `a`.
-/
def setField (m : Memory) (a lo width : Nat) (v : BitVec 8) : Memory :=
  let old := (m.load a).toNat
  let kept := old % 2 ^ lo + old / 2 ^ (lo + width) * 2 ^ (lo + width)
  m.store a (BitVec.ofNat 8 (kept + v.toNat % 2 ^ width * 2 ^ lo))

/--
A call of `register_intr` or `register_trap`, which differ in `type` only.
-/
structure GateOp where
  type : GateType
  num : BitVec 8
  isr : BitVec 32
  segment : BitVec 16
  dpl : BitVec 8

def registerIntr (num : BitVec 8) (isr : BitVec 32) (segment : BitVec 16) (dpl : BitVec 8) : GateOp where
  type := .intr
  num := num
  isr := isr
  segment := segment
  dpl := dpl

def registerTrap (num : BitVec 8) (isr : BitVec 32) (segment : BitVec 16) (dpl : BitVec 8) : GateOp where
  type := .trap
  num := num
  isr := isr
  segment := segment
  dpl := dpl

def setIntGate (num : BitVec 8) (isr : BitVec 32) : GateOp := registerIntr num isr (1 <<< 3) 0

def setSystemGate (num : BitVec 8) (isr : BitVec 32) : GateOp := registerIntr num isr (1 <<< 3) 3

def setIrqGate (irq : BitVec 8) (isr : BitVec 32) : GateOp := registerIntr (irq + 0x20) isr (1 <<< 3) 0

/--
The assignments to the entry `num` of the array at `idt`. The bit `reserve1` is not assigned.
-/
def register (idt : Nat) (m : Memory) (op : GateOp) : Option Memory :=
  let a := idt + 8 * op.num.toNat
  let m := m.storeHalf a (op.isr &&& 0xffff).toNat
  let m := m.storeHalf (a + 2) op.segment.toNat
  let m := m.store (a + 4) 0
  let m := setField m (a + 5) 0 4 op.type.code
  let m := setField m (a + 5) 5 2 op.dpl
  let m := setField m (a + 5) 7 1 1
  some (m.storeHalf (a + 6) ((op.isr.sshiftRight 16) &&& 0xffff).toNat)

/--
The calls of `arch_init`.
-/
def archGates (stubs : Stubs) : List GateOp :=
  [
    setIntGate 0 stubs.divide_error,
    setIntGate 1 stubs.debug,
    setIntGate 2 stubs.nmi,
    setSystemGate 3 stubs.int3,
    setSystemGate 4 stubs.overflow,
    setSystemGate 5 stubs.bounds,
    setIntGate 6 stubs.opcode,
    setIntGate 7 stubs.device_not_present,
    setIntGate 8 stubs.double_fault,
    setIntGate 9 stubs.i387_overrun,
    setIntGate 10 stubs.illegal_tss,
    setIntGate 11 stubs.illegal_segment,
    setIntGate 12 stubs.stack_overflow,
    setIntGate 13 stubs.general_protect,
    setIntGate 14 stubs.page_fault
  ] ++ (List.range' 15 241).map (fun i => setIntGate (BitVec.ofNat 8 i) stubs.reserved)

structure Idtr where
  limit : Nat
  addr : Nat

def setupIdt (idt : Nat) : Idtr where
  limit := 256 * 8
  addr := idt

/--
What the processor reads in a gate. `system` is clear in gates.
-/
structure Gate where
  offset : BitVec 32
  selector : BitVec 16
  type : Nat
  system : Nat
  dpl : Nat
  present : Nat
  deriving DecidableEq, Repr

def Gate.load (m : Memory) (a : Nat) : Gate where
  offset := BitVec.ofNat 32 (m.loadHalf a + 0x10000 * m.loadHalf (a + 6))
  selector := BitVec.ofNat 16 (m.loadHalf (a + 2))
  type := (m.load (a + 5)).toNat % 16
  system := (m.load (a + 5)).toNat / 16 % 2
  dpl := (m.load (a + 5)).toNat / 32 % 4
  present := (m.load (a + 5)).toNat / 128

/--
The gates that the processor takes in the model. No other type is ever registered.
-/
def Gate.type? (gate : Gate) : Option GateType :=
  if gate.type = 0xe then
    some .intr
  else if gate.type = 0xf then
    some .trap
  else
    none

/--
The processor takes an interrupt or an exception, which is not one of an `int` instruction, through a gate for its own
segment. `text` is the code at an address. What it does with a gate for another segment is left out.
-/
def interrupt (function : BitVec 32 → State → Option State) (text : BitVec 32 → Option (List Instr)) (idtr : Idtr)
    (vector : BitVec 8) (err : Option (BitVec 32)) (s : State) : Option State :=
  let gate := Gate.load s.mem (idtr.addr + 8 * vector.toNat)
  if 8 * vector.toNat + 7 ≤ idtr.limit ∧ gate.present = 1 ∧ gate.system = 0 ∧ gate.selector = s.seg .cs then
    gate.type?.bind (fun type => (text gate.offset).bind (Run.run (step function) (type.enter err s)))
  else
    none

end Idt
end Osproj
