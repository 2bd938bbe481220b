import Mathlib.Algebra.GroupWithZero.Nat
import Osproj.Base.Memory
import Osproj.Base.Run

/-!
This module contains a processor with the registers, the stack and the interrupt entry of a 32 bit x86 in ring 0, for
code without branches. The instruction pointer is that of the interrupted code until `iret` loads it, and the flags that
arithmetic sets are left out, as `iret` loads them too. What a called function does is a parameter. The lemmas are about
registers that are saved on the stack one after the other and restored in the opposite order.
-/

namespace Osproj
namespace X86

inductive Reg
  | eax
  | ebx
  | ecx
  | edx
  | esi
  | edi
  | ebp
deriving DecidableEq, Repr

inductive Seg
  | cs
  | ds
  | es
  | fs
  | gs
  | ss
deriving DecidableEq, Repr

/--
What `push` and `pop` can name.
-/
inductive Loc
  | reg (r : Reg)
  | seg (r : Seg)
deriving DecidableEq, Repr

structure State where
  reg : Reg → BitVec 32
  seg : Seg → BitVec 16
  esp : Nat
  eip : BitVec 32
  eflags : BitVec 32
  cr3 : BitVec 32
  mem : Memory

namespace Loc

def size : Loc → Nat
  | .reg _ => 4
  | .seg _ => 2

def load (m : Memory) (a : Nat) : Loc → Nat
  | .reg _ => m.loadWord a
  | .seg _ => m.loadHalf a

def store (m : Memory) (a v : Nat) : Loc → Memory
  | .reg _ => m.storeWord a v
  | .seg _ => m.storeHalf a v

end Loc

namespace State

def setReg (s : State) (r : Reg) (v : BitVec 32) : State :=
  { s with reg := fun r' => if r' = r then v else s.reg r' }

def setSeg (s : State) (r : Seg) (v : BitVec 16) : State :=
  { s with seg := fun r' => if r' = r then v else s.seg r' }

def get (s : State) : Loc → Nat
  | .reg r => (s.reg r).toNat
  | .seg r => (s.seg r).toNat

def set (s : State) (v : Nat) : Loc → State
  | .reg r => s.setReg r (BitVec.ofNat 32 v)
  | .seg r => s.setSeg r (BitVec.ofNat 16 v)

def below (s : State) (n : Nat) : Nat := if n ≤ s.esp then s.esp - n else s.esp + 0x100000000 - n

def above (s : State) (n : Nat) : Nat := if s.esp + n < 0x100000000 then s.esp + n else s.esp + n - 0x100000000

def pushWord (s : State) (v : Nat) : State := { s with esp := s.below 4, mem := s.mem.storeWord (s.below 4) v }

def pushHalf (s : State) (v : Nat) : State := { s with esp := s.below 2, mem := s.mem.storeHalf (s.below 2) v }

def push (s : State) (l : Loc) : State :=
  { s with esp := s.below l.size, mem := l.store s.mem (s.below l.size) (s.get l) }

def pop (s : State) (l : Loc) : State := { s.set (l.load s.mem s.esp) l with esp := s.above l.size }

def clearInterrupt (s : State) : State := { s with eflags := s.eflags &&& 0xfffffdff }

/--
What the processor pushes when it takes an interrupt with a gate of its own ring. Some exceptions push an error code.
-/
def pushFrame (s : State) (errCode : Option (BitVec 32)) : State :=
  let s := ((s.pushWord s.eflags.toNat).pushWord (s.seg .cs).toNat).pushWord s.eip.toNat
  match errCode with
  | none => s
  | some code => s.pushWord code.toNat

/--
The processor takes an interrupt with an interrupt gate. With a trap gate it would leave the interrupts on.
-/
def deliver (s : State) (errCode : Option (BitVec 32)) : State := (s.pushFrame errCode).clearInterrupt

def iret (s : State) : State :=
  { s with
    eip := BitVec.ofNat 32 (s.mem.loadWord s.esp)
    seg := (s.setSeg .cs (BitVec.ofNat 16 (s.mem.loadWord (s.above 4)))).seg
    eflags := BitVec.ofNat 32 (s.mem.loadWord (s.above 8))
    esp := s.above 12 }

end State

/--
`disp` is the displacement of an operand that is relative to `%esp`.
-/
inductive Instr
  | push (l : Loc)
  | pushImm (v : BitVec 32)
  | pushImmHalf (v : BitVec 16)
  | pushMem (disp : Nat)
  | pop (l : Loc)
  | popMem (disp : Nat)
  | popHalf (r : Reg)
  | xchg (r : Reg) (disp : Nat)
  | nop
  | cli
  | movImm (v : BitVec 32) (r : Reg)
  | movSeg (r : Reg) (sr : Seg)
  | movFromEsp (r : Reg)
  | movFromCr3 (r : Reg)
  | movToCr3 (r : Reg)
  | storeEsp (a : Nat)
  | loadEsp (a : Nat)
  | lea (disp : Nat) (r : Reg)
  | addEsp (n : Nat)
  | call (r : Reg)
  | iret

/--
`function` says how the function at an address returns. It gets the state without the return address.
-/
def step (function : BitVec 32 → State → Option State) (s : State) : Instr → Option State
  | .push l => some (s.push l)
  | .pushImm v => some (s.pushWord v.toNat)
  | .pushImmHalf v => some (s.pushHalf v.toNat)
  | .pushMem disp => some (s.pushWord (s.mem.loadWord (s.above disp)))
  | .pop l => some (s.pop l)
  | .popMem disp =>
    -- the displacement is relative to the stack pointer after the pop
    let value := s.mem.loadWord s.esp
    let s := { s with esp := s.above 4 }
    some { s with mem := s.mem.storeWord (s.above disp) value }
  | .popHalf r =>
    let value := (s.reg r).toNat / 0x10000 * 0x10000 + s.mem.loadHalf s.esp
    some { s.setReg r (BitVec.ofNat 32 value) with esp := s.above 2 }
  | .xchg r disp =>
    let value := s.mem.loadWord (s.above disp)
    some { s.setReg r (BitVec.ofNat 32 value) with mem := s.mem.storeWord (s.above disp) (s.reg r).toNat }
  | .nop => some s
  | .cli => some s.clearInterrupt
  | .movImm v r => some (s.setReg r v)
  | .movSeg r sr => some (s.setSeg sr ((s.reg r).setWidth 16))
  | .movFromEsp r => some (s.setReg r (BitVec.ofNat 32 s.esp))
  | .movFromCr3 r => some (s.setReg r s.cr3)
  | .movToCr3 r => some { s with cr3 := s.reg r }
  | .storeEsp a => some { s with mem := s.mem.storeWord a s.esp }
  | .loadEsp a => some { s with esp := s.mem.loadWord a }
  | .lea disp r => some (s.setReg r (BitVec.ofNat 32 (s.above disp)))
  | .addEsp n => some { s with esp := s.above n }
  | .call r => function (s.reg r) s
  | .iret => some s.iret

def size (ls : List Loc) : Nat := (ls.map Loc.size).sum

/--
The values `v` of the locations lie below `e`, the first one at the highest address.
-/
def Saved (m : Memory) (e : Nat) (v : Loc → Nat) : List Loc → Prop
  | [] => True
  | l :: ls => l.load m (e - l.size) = v l ∧ Saved m (e - l.size) v ls

/--
The state in which the locations have the values `v`.
-/
def State.restore (s : State) (v : Loc → Nat) (ls : List Loc) : State :=
  { s with
    reg := fun r => if .reg r ∈ ls then BitVec.ofNat 32 (v (.reg r)) else s.reg r
    seg := fun r => if .seg r ∈ ls then BitVec.ofNat 16 (v (.seg r)) else s.seg r }

variable {s t : State} {m m' : Memory} {e : Nat} {v v' : Loc → Nat} {l : Loc} {ls : List Loc}

@[simp]
theorem size_nil : size [] = 0 := by
  rfl

@[simp]
theorem size_cons : size (l :: ls) = l.size + size ls := by
  simp [size]

theorem Loc.load_congr {a : Nat} (l : Loc) (h : ∀ b, a ≤ b → b < a + l.size → m'.load b = m.load b)
    : l.load m' a = l.load m a := by
  cases l with
  | reg r => exact Memory.loadWord_congr m m' a h
  | seg r => exact Memory.loadHalf_congr m a m' h

theorem Loc.load_store_self (s : State) (a : Nat) (l : Loc) : l.load (l.store m a (s.get l)) a = s.get l := by
  cases l with
  | reg r =>
    have hlt := (s.reg r).isLt
    simp [load, store, State.get, Nat.mod_eq_of_lt hlt]
  | seg r =>
    have hlt := (s.seg r).isLt
    simp [load, store, State.get, Nat.mod_eq_of_lt hlt]

theorem Loc.load_store_of_disjoint {a b : Nat} (l : Loc) (w : Nat) (h : b < a ∨ a + l.size ≤ b)
    : (l.store m a w).load b = m.load b := by
  cases l with
  | reg r => exact Memory.load_storeWord_of_disjoint m a b w h
  | seg r => exact Memory.load_storeHalf_of_disjoint m a b w h

namespace Saved

theorem congr (h : Saved m e v ls) (hle : size ls ≤ e)
    (hload : ∀ b, e - size ls ≤ b → b < e → m'.load b = m.load b)
    : Saved m' e v ls := by
  induction ls generalizing e with
  | nil => trivial
  | cons l ls ih =>
    rw [size_cons] at hle hload
    refine ⟨?_, ih h.2 (by omega) (fun b hlo hhi => hload b (by omega) (by omega))⟩
    rw [← h.1]
    apply l.load_congr
    intro b hlo hhi
    exact hload b (by omega) (by omega)

theorem values (h : Saved m e v ls) (hv : ∀ l ∈ ls, v l = v' l) : Saved m e v' ls := by
  induction ls generalizing e with
  | nil => trivial
  | cons l ls ih =>
    refine ⟨?_, ih h.2 (fun l' hl' => hv l' (List.mem_cons_of_mem l hl'))⟩
    rw [h.1, hv l List.mem_cons_self]

theorem append {ls' : List Loc} (h : Saved m e v ls) (h' : Saved m (e - size ls) v ls') : Saved m e v (ls ++ ls') := by
  induction ls generalizing e with
  | nil => exact h'
  | cons l ls ih =>
    rw [size_cons, ← Nat.sub_sub] at h'
    exact ⟨h.1, ih h.2 h'⟩

end Saved

@[simp]
theorem State.pushWord_reg (s : State) (w : Nat) : (s.pushWord w).reg = s.reg := by
  rfl

@[simp]
theorem State.pushWord_seg (s : State) (w : Nat) : (s.pushWord w).seg = s.seg := by
  rfl

@[simp]
theorem State.pushWord_eip (s : State) (w : Nat) : (s.pushWord w).eip = s.eip := by
  rfl

@[simp]
theorem State.pushWord_eflags (s : State) (w : Nat) : (s.pushWord w).eflags = s.eflags := by
  rfl

@[simp]
theorem State.pushWord_cr3 (s : State) (w : Nat) : (s.pushWord w).cr3 = s.cr3 := by
  rfl

theorem State.push_reg (s : State) (r : Reg) : s.push (.reg r) = s.pushWord (s.reg r).toNat := by
  rfl

theorem State.below_of_le (hle : e ≤ s.esp) : s.below e = s.esp - e := if_pos hle

theorem State.above_of_lt (h : s.esp + e < 0x100000000) : s.above e = s.esp + e := if_pos h

/--
`t` is `s` after `n` bytes were pushed.
-/
structure Pushed (s t : State) (n : Nat) : Prop where
  esp : t.esp = s.esp - n
  load : ∀ b, b < s.esp - n ∨ s.esp ≤ b → t.mem.load b = s.mem.load b

theorem Pushed.trans {u : State} {n k : Nat} (h : Pushed s t n) (h' : Pushed t u k) (hle : n + k ≤ s.esp)
    : Pushed s u (n + k) := by
  have hesp := h.esp
  constructor
  . rw [h'.esp, hesp, Nat.sub_sub]
  . intro b hb
    rw [h'.load b (by omega), h.load b (by omega)]

theorem pushed_pushWord (w : Nat) (hle : 4 ≤ s.esp) : Pushed s (s.pushWord w) 4 := by
  constructor
  . exact State.below_of_le hle
  . intro b hb
    rw [State.pushWord, State.below_of_le hle]
    exact Memory.load_storeWord_of_disjoint s.mem _ b w (by omega)

theorem pushed_push (hle : l.size ≤ s.esp) : Pushed s (s.push l) l.size := by
  constructor
  . exact State.below_of_le hle
  . intro b hb
    rw [State.push, State.below_of_le hle]
    exact l.load_store_of_disjoint _ (by omega)

/--
The state after `push` of one location after the other.
-/
def State.pushAll (s : State) (ls : List Loc) : State := ls.foldl State.push s

theorem pushed_pushAll (s : State) (hle : size ls ≤ s.esp)
    : Pushed s (s.pushAll ls) (size ls)
        ∧ Saved (s.pushAll ls).mem s.esp s.get ls
        ∧ s.pushAll ls = { s with esp := s.esp - size ls, mem := (s.pushAll ls).mem } := by
  induction ls generalizing s with
  | nil =>
    refine ⟨⟨rfl, fun b _ => rfl⟩, trivial, rfl⟩
  | cons l ls ih =>
    rw [size_cons] at hle
    have hpush := @pushed_push s l (by omega)
    have hesp := hpush.esp
    obtain ⟨hpushed, hsaved, heq⟩ := ih (s.push l) (by omega)
    have hall : (s.push l).pushAll ls = s.pushAll (l :: ls) := rfl
    rw [hall, hesp] at hsaved heq
    rw [hall] at hpushed
    refine ⟨?_, ⟨?_, ?_⟩, ?_⟩
    . rw [size_cons]
      exact hpush.trans hpushed (by omega)
    . rw [← Loc.load_store_self s (m := s.mem) (s.esp - l.size) l]
      apply l.load_congr
      intro b hlo hhi
      rw [hpushed.load b (by omega), State.push, State.below_of_le (by omega)]
    . apply hsaved.values
      intro l' _
      cases l' <;> rfl
    . rw [heq, size_cons, Nat.sub_sub]
      rfl

/--
What is popped in the opposite order is what was saved.
-/
theorem foldl_pop (h : Saved m e v ls) (hmem : t.mem = m) (hesp : t.esp = e - size ls) (hle : size ls ≤ e)
    (hlt : e < 0x100000000)
    : ls.reverse.foldl State.pop t = { t.restore v ls with esp := e } := by
  induction ls generalizing e with
  | nil =>
    rw [size_nil, Nat.sub_zero] at hesp
    subst hesp
    simp [State.restore]
  | cons l ls ih =>
    rw [size_cons] at hesp hle
    rw [List.reverse_cons, List.foldl_append, ih h.2 (by omega) (by omega) (by omega)]
    have hload : l.load t.mem (e - l.size) = v l := by
      rw [hmem]
      exact h.1
    have habove : (if e - l.size + l.size < 0x100000000 then e - l.size + l.size
        else e - l.size + l.size - 0x100000000) = e := by
      rw [if_pos (by omega)]
      omega
    cases l with
    | reg r =>
      simp only [List.foldl_cons, List.foldl_nil, State.pop, State.above, State.restore, State.set, State.setReg, hload,
        habove]
      congr 1
      . funext r'
        by_cases hr : r' = r <;> simp [hr]
      . simp
    | seg r =>
      simp only [List.foldl_cons, List.foldl_nil, State.pop, State.above, State.restore, State.set, State.setSeg, hload,
        habove]
      congr 1
      . simp
      . funext r'
        by_cases hr : r' = r <;> simp [hr]

section Runs

variable {function : BitVec 32 → State → Option State}

theorem run_push (s : State) (ls : List Loc)
    : Run.run (step function) s (ls.map .push) = some (s.pushAll ls) := by
  induction ls generalizing s with
  | nil => rfl
  | cons l ls ih =>
    rw [List.map_cons, Run.run_cons, step, Option.bind_some, ih]
    rfl

theorem run_pop (s : State) (ls : List Loc)
    : Run.run (step function) s (ls.map .pop) = some (ls.foldl State.pop s) := by
  induction ls generalizing s with
  | nil => rfl
  | cons l ls ih =>
    rw [List.map_cons, Run.run_cons, step, Option.bind_some, ih]
    rfl

end Runs

/--
A function that returns, keeps what the C calling convention asks it to keep and does not write to the `n` bytes above
its `args` bytes of arguments.
-/
structure Returns (function : BitVec 32 → State → Option State) (a : BitVec 32) (args n : Nat) (s t : State)
    : Prop where
  call : function a s = some t
  esp : t.esp = s.esp
  kept : ∀ r, r ≠ .eax → r ≠ .ecx → r ≠ .edx → t.reg r = s.reg r
  seg : t.seg = s.seg
  cr3 : t.cr3 = s.cr3
  stack : ∀ b, s.esp + args ≤ b → b < s.esp + args + n → t.mem.load b = s.mem.load b

end X86
end Osproj
