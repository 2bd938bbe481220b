import Osproj.Base.Words
import Osproj.Kernel.Impl.Isr

/-!
This module contains the variables of the scheduler as they lie in memory, and `do_pit_int` on them. The count of the
ticks is left out, and so is the end of the interrupt, which goes to the controller.
-/

namespace Osproj

open X86

/--
The variables of `sched.c` lie one behind the other, the table last. `root` is the address of the string "/".
-/
structure SchedVars where
  addr : Nat
  root : Nat
  addr_pos : 0 < addr
  addr_le : addr + 18448 ≤ 0x100000000
  root_pos : 0 < root
  root_lt : root < 0x100000000

namespace SchedVars

open Sched Isr

def SIZEOF_TASK : Nat := 72

def statusWord : Status → Nat
  | .unused => 0
  | .runnable => 1
  | .running => 2
  | .blocked => 3
  | .new => 4
  | .yield => 5

def wordStatus : Nat → Status
  | 0 => .unused
  | 1 => .runnable
  | 2 => .running
  | 3 => .blocked
  | 4 => .new
  | _ => .yield

/--
What the kernel reads as a `task_struct_t` at `a`. "/" is the only string that a task has.
-/
def loadTask (m : Memory) (a : Nat) : TaskStruct where
  pid := m.loadWord a
  kernelStack := m.loadWord (a + 4)
  intStack := loadFrame m (a + 8)
  genericStack := loadStack m (a + 20)
  status := wordStatus (m.loadWord (a + 64))
  pwd := if m.loadWord (a + 68) = 0 then none else some "/"

variable (v : SchedVars)

def tssList : Nat := v.addr + 16

def loadSched (sym : Symbols) (m : Memory) : Sched where
  tssList := (List.range MAX_TASK).map fun i => loadTask m (v.tssList + SIZEOF_TASK * i)
  usedIndex := m.loadWord v.addr
  currIndex := m.loadWord (v.addr + 4)
  nextPid := m.loadWord (v.addr + 8)
  currTask :=
    let p := m.loadWord (v.addr + 12)
    if p = 0 then none else some ((p - v.tssList) / SIZEOF_TASK)
  workerStackTop := m.loadWord sym.worker_stack_top
  espSwap := m.loadWord sym.esp_swap
  mem := m

/--
A `sched_stack_t` as words, with two registers in each of the first three behind `cr3`.
-/
def stackWords (r : SchedStack) : List Nat :=
  [
    r.cr3.toNat,
    r.padding.toNat + 0x10000 * r.ss.toNat,
    r.gs.toNat + 0x10000 * r.fs.toNat,
    r.es.toNat + 0x10000 * r.ds.toNat,
    r.ebp.toNat,
    r.edi.toNat,
    r.esi.toNat,
    r.edx.toNat,
    r.ecx.toNat,
    r.ebx.toNat,
    r.eax.toNat
  ]

def frameWords (f : InterruptStack) : List Nat := [f.eip.toNat, f.cs.toNat, f.eflags.toNat]

def taskWords (t : TaskStruct) : List Nat :=
  [t.pid, t.kernelStack] ++ frameWords t.intStack ++ stackWords t.genericStack
    ++ [statusWord t.status, t.pwd.elim 0 fun _ => v.root]

def storeTasks (m : Memory) (a : Nat) : List TaskStruct → Memory
  | [] => m
  | t :: ts => storeTasks (m.storeList a (v.taskWords t)) (a + SIZEOF_TASK) ts

def storeSched (m : Memory) (s : Sched) : Memory :=
  (v.storeTasks m v.tssList s.tssList).storeList v.addr
    [s.usedIndex, s.currIndex, s.nextPid, s.currTask.elim 0 fun i => v.tssList + SIZEOF_TASK * i]

/--
The argument is the address of the registers.
-/
def doPitInt (sym : Symbols) (c : State) : Option State := do
  let stackFrame := c.mem.loadWord c.esp
  let (s, regs) ← (v.loadSched sym c.mem).doSched (loadStack c.mem stackFrame)
  let mem := (v.storeSched s.mem s).storeWord sym.esp_swap s.espSwap
  return { c with mem := mem.storeList stackFrame (stackWords regs) }

end SchedVars
end Osproj
