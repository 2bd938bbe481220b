import Osproj.Base.Memory

/-!
This module contains the scheduler: the task table, the creation of tasks and the task switch that
the timer interrupt runs on a stack of its own. Registers are kept as the machine words they are,
addresses are numbers. A task's kernel stack lives in memory, the table does not. Indexing past the
end of the table and `panic` return `none`.
-/

namespace Osproj

abbrev Reg32 := BitVec 32
abbrev Reg16 := BitVec 16

namespace Sched

def MAX_TASK : Nat := 256
def PAGE_SIZE : Nat := 4096

inductive Status where
  | unused
  | runnable
  | running
  | blocked
  | new
  | yield
  deriving DecidableEq, Repr

/--
The frame the processor pushes on an interrupt and that `iret` pops.
-/
structure InterruptStack where
  eip : Reg32
  cs : Reg32
  eflags : Reg32
  deriving DecidableEq, Repr

def InterruptStack.size : Nat := 12

/--
The frame `sched_int` pushes on the worker stack.
-/
structure SchedStack where
  cr3 : Reg32
  padding : Reg16
  ss : Reg16
  gs : Reg16
  fs : Reg16
  es : Reg16
  ds : Reg16
  ebp : Reg32
  edi : Reg32
  esi : Reg32
  edx : Reg32
  ecx : Reg32
  ebx : Reg32
  eax : Reg32
  deriving DecidableEq, Repr

structure TaskStruct where
  pid : Nat
  kernelStack : Nat
  intStack : InterruptStack
  genericStack : SchedStack
  status : Status
  pwd : Option String
  deriving DecidableEq, Repr

def InterruptStack.zero : InterruptStack := ⟨0, 0, 0⟩

def SchedStack.zero : SchedStack := ⟨0, 0, 0, 0, 0, 0, 0, 0, 0, 0, 0, 0, 0, 0⟩

def TaskStruct.zero : TaskStruct where
  pid := 0
  kernelStack := 0
  intStack := .zero
  genericStack := .zero
  status := .unused
  pwd := none

/--
What `memcpy` reads as an `interrupt_stack_t` at `a`.
-/
def loadFrame (m : Memory) (a : Nat) : InterruptStack where
  eip := BitVec.ofNat 32 (m.loadWord a)
  cs := BitVec.ofNat 32 (m.loadWord (a + 4))
  eflags := BitVec.ofNat 32 (m.loadWord (a + 8))

def storeFrame (m : Memory) (a : Nat) (f : InterruptStack) : Memory :=
  ((m.storeWord a f.eip.toNat).storeWord (a + 4) f.cs.toNat).storeWord (a + 8) f.eflags.toNat

end Sched

structure Sched where
  tssList : List Sched.TaskStruct
  usedIndex : Nat
  currIndex : Nat
  nextPid : Nat
  currTask : Option Nat
  workerStackTop : Nat
  espSwap : Nat
  mem : Memory

namespace Sched

def setTask (s : Sched) (i : Nat) (t : TaskStruct) : Sched :=
  { s with tssList := s.tssList.set i t }

def boot (mem : Memory) : Sched where
  tssList := List.replicate MAX_TASK .zero
  usedIndex := 0
  currIndex := 0
  nextPid := 1
  currTask := none
  workerStackTop := 0
  espSwap := 0
  mem := mem

def newGenericStack : SchedStack :=
  { SchedStack.zero with
    cr3 := 0
    ds := 2 <<< 3
    es := 2 <<< 3
    fs := 2 <<< 3
    gs := 2 <<< 3
    ss := 2 <<< 3 }

def newIntStack (entry : Reg32) : InterruptStack where
  cs := 2 <<< 2
  eflags := 0x282
  eip := entry

def newTask (pid : Nat) (entry : Reg32) (stack : Nat) : TaskStruct :=
  { TaskStruct.zero with
    pid := pid
    pwd := some "/"
    status := .new
    intStack := newIntStack entry
    kernelStack := stack + 0xfff
    genericStack := newGenericStack }

/--
`stack` is the page that `palloc` returns for the kernel stack.
-/
def newTss (s : Sched) (entry : Reg32) (stack : Nat) : Option Sched :=
  if s.usedIndex > MAX_TASK - 1 then
    none
  else
    let new := newTask s.nextPid entry stack
    some { s.setTask s.usedIndex new with nextPid := s.nextPid + 1, usedIndex := s.usedIndex + 1 }

/--
`init` is the address of the first task, `stack` and `workerStack` are the pages `palloc` returns.
-/
def schedInit (s : Sched) (init : Reg32) (stack workerStack : Nat) : Option Sched := do
  let s := { s with tssList := List.replicate MAX_TASK .zero }
  let s ← s.newTss init stack
  return { s with workerStackTop := workerStack + 0xfff }

def saveTo (s : Sched) (stackFrame : SchedStack) (i : Nat) : Option Sched := do
  let tss ← s.tssList[i]?
  return s.setTask i
    { tss with
      intStack := loadFrame s.mem s.espSwap
      genericStack := stackFrame
      kernelStack := s.espSwap }

def switchTo (s : Sched) (i : Nat) : Option (Sched × SchedStack) := do
  let tss ← s.tssList[i]?
  -- the incoming frame goes to `esp_swap` while that still points into the outgoing task's stack
  let s := { s with mem := storeFrame s.mem s.espSwap tss.intStack }
  return ({ s with espSwap := tss.kernelStack }, tss.genericStack)

def switchToNew (s : Sched) (i : Nat) : Option (Sched × SchedStack) := do
  let tss ← s.tssList[i]?
  let newKernelStack := tss.kernelStack - InterruptStack.size
  let s := { s with mem := storeFrame s.mem newKernelStack tss.intStack, espSwap := newKernelStack }
  return (s.setTask i { tss with kernelStack := newKernelStack }, tss.genericStack)

def setStatus (s : Sched) (i : Nat) (status : Status) : Option Sched := do
  let tss ← s.tssList[i]?
  return s.setTask i { tss with status := status }

def wraps (s : Sched) (i : Nat) : Option Bool :=
  if i > MAX_TASK - 1 then
    some true
  else do
    let tss ← s.tssList[i]?
    return tss.pid == 0

/--
Returns the state and what is left in the stack frame.
-/
def doSched (s : Sched) (stackFrame : SchedStack) : Option (Sched × SchedStack) := do
  let lastIndex := s.currIndex
  let s := { s with currIndex := s.currIndex + 1 }
  let wrap ← s.wraps s.currIndex
  let s := if wrap then { s with currIndex := 0 } else s
  let last ← s.tssList[lastIndex]?
  let s ←
    if last.status ≠ .new then do
      let s ← s.saveTo stackFrame lastIndex
      s.setStatus lastIndex .runnable
    else
      some s
  let curr ← s.tssList[s.currIndex]?
  let (s, stackFrame) ←
    if curr.status = .new then s.switchToNew s.currIndex else some (s, stackFrame)
  let curr ← s.tssList[s.currIndex]?
  let (s, stackFrame) ←
    if curr.status = .runnable then s.switchTo s.currIndex else some (s, stackFrame)
  let s ← s.setStatus s.currIndex .running
  return ({ s with currTask := some s.currIndex }, stackFrame)

/--
The timer interrupt: the processor pushes `frame` at `esp` on the stack it runs on, `pit_int` keeps
that stack pointer in `esp_swap`, and `sched_int` pushes the registers `regs` on the worker stack
for `do_sched`. The registers it pops again are returned.
-/
def pitInt (s : Sched) (esp : Nat) (frame : InterruptStack) (regs : SchedStack)
    : Option (Sched × SchedStack) :=
  { s with mem := storeFrame s.mem esp frame, espSwap := esp }.doSched regs

end Sched
end Osproj
