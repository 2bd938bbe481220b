import Osproj.Kernel.Lemmas.Context
import Osproj.Kernel.Lemmas.Isr

/-!
This module contains the timer interrupt instruction by instruction: `pit_int` and `sched_int` on the processor do what
`Sched.pitInt` says. The function they call is the compiled `do_pit_int`, which is assumed to do to the memory what
`do_sched` does to the scheduler.
-/

namespace Osproj

open X86 Sched

namespace Isr

/--
What `sched_int` saves on the worker stack, above the padding and `cr3`.
-/
def switchList : List Loc :=
  [.reg .eax, .reg .ebx, .reg .ecx, .reg .edx, .reg .esi, .reg .edi, .reg .ebp, .seg .ds, .seg .es, .seg .fs, .seg .gs,
    .seg .ss]

def frameOf (s : State) : InterruptStack where
  eip := s.eip
  cs := (s.seg .cs).setWidth 32
  eflags := s.eflags

def stackOf (s : State) : SchedStack where
  cr3 := s.cr3
  padding := 0
  ss := s.seg .ss
  gs := s.seg .gs
  fs := s.seg .fs
  es := s.seg .es
  ds := s.seg .ds
  ebp := s.reg .ebp
  edi := s.reg .edi
  esi := s.reg .esi
  edx := s.reg .edx
  ecx := s.reg .ecx
  ebx := s.reg .ebx
  eax := s.reg .eax

/--
The processor in the context of a task.
-/
def resume (r : SchedStack) (f : InterruptStack) (esp : Nat) (mem : Memory) : State where
  reg := fun
    | .eax => r.eax
    | .ebx => r.ebx
    | .ecx => r.ecx
    | .edx => r.edx
    | .esi => r.esi
    | .edi => r.edi
    | .ebp => r.ebp
  seg := fun
    | .cs => f.cs.setWidth 16
    | .ds => r.ds
    | .es => r.es
    | .fs => r.fs
    | .gs => r.gs
    | .ss => r.ss
  esp := esp
  eip := f.eip
  eflags := f.eflags
  cr3 := r.cr3
  mem := mem

variable {function : BitVec 32 → State → Option State} {m m' : Memory} {top : Nat} {r : SchedStack} {s t c : State}

/--
The values of a `sched_stack_t` by location. `f` is not part of it.
-/
def valueOf (r : SchedStack) : Loc → Nat := (resume r ⟨0, 0, 0⟩ 0 ⟨fun _ => 0, []⟩).get

theorem saved_loadStack (m : Memory) (hroom : 44 ≤ top)
    : Saved m top (valueOf (loadStack m (top - 44))) switchList := by
  have hword (a : Nat) : (BitVec.ofNat 32 (m.loadWord a)).toNat = m.loadWord a := by
    rw [BitVec.toNat_ofNat, Nat.mod_eq_of_lt (Memory.loadWord_lt m a)]
  have hhalf (a : Nat) : (BitVec.ofNat 16 (m.loadHalf a)).toNat = m.loadHalf a := by
    rw [BitVec.toNat_ofNat, Nat.mod_eq_of_lt (Memory.loadHalf_lt m a)]
  simp only [switchList, Saved, Loc.load, Loc.size, valueOf, State.get, resume, loadStack, hword, hhalf, and_true]
  refine ⟨?_, ?_, ?_, ?_, ?_, ?_, ?_, ?_, ?_, ?_, ?_, ?_⟩ <;> congr 1 <;> omega

theorem ofNat_loadWord {a : Nat} {v : BitVec 32} (h : m.loadWord a = v.toNat) : BitVec.ofNat 32 (m.loadWord a) = v := by
  rw [h, BitVec.ofNat_toNat, BitVec.setWidth_eq]

theorem ofNat_loadHalf {a : Nat} {v : BitVec 16} (h : m.loadHalf a = v.toNat) : BitVec.ofNat 16 (m.loadHalf a) = v := by
  rw [h, BitVec.ofNat_toNat, BitVec.setWidth_eq]

theorem loadStack_eq (hsaved : Saved m top s.get switchList) (hpadding : m.loadHalf (top - 40) = 0)
    (hcr3 : m.loadWord (top - 44) = s.cr3.toNat) (hroom : 44 ≤ top)
    : loadStack m (top - 44) = stackOf s := by
  simp only [switchList, Saved, Loc.load, Loc.size, State.get, and_true] at hsaved
  obtain ⟨heax, hebx, hecx, hedx, hesi, hedi, hebp, hds, hes, hfs, hgs, hss⟩ := hsaved
  have hword {a b : Nat} {v : BitVec 32} (h : m.loadWord a = v.toNat) (hab : b = a)
      : BitVec.ofNat 32 (m.loadWord b) = v :=
    hab ▸ ofNat_loadWord h
  have hhalf {a b : Nat} {v : BitVec 16} (h : m.loadHalf a = v.toNat) (hab : b = a)
      : BitVec.ofNat 16 (m.loadHalf b) = v :=
    hab ▸ ofNat_loadHalf h
  have hzero : m.loadHalf (top - 40) = (0 : BitVec 16).toNat := hpadding
  simp only [loadStack, stackOf, SchedStack.mk.injEq]
  exact ⟨hword hcr3 rfl, hhalf hzero (by omega), hhalf hss (by omega), hhalf hgs (by omega), hhalf hfs (by omega),
    hhalf hes (by omega), hhalf hds (by omega), hword hebp (by omega), hword hedi (by omega), hword hesi (by omega),
    hword hedx (by omega), hword hecx (by omega), hword hebx (by omega), hword heax (by omega)⟩

/--
`sched_int` up to the call.
-/
def switchStart (sym : Symbols) : List Instr :=
  switchList.map .push
    ++ [.pushImmHalf 0, .movFromCr3 .esi, .push (.reg .esi), .movFromEsp .esi, .push (.reg .esi), .movImm 0x10 .edx,
      .movSeg .edx .ds, .movSeg .edx .es, .movSeg .edx .fs, .movImm sym.do_pit_int .eax]

/--
`sched_int` after the call.
-/
def switchEnd (sym : Symbols) : List Instr :=
  [.addEsp 4, .pop (.reg .esi), .movToCr3 .esi, .popHalf .esi] ++ switchList.reverse.map .pop
    ++ [.loadEsp sym.esp_swap, .iret]

theorem pitInt_eq (sym : Symbols)
    : pitInt sym
        =
      [.cli, .storeEsp sym.esp_swap, .loadEsp sym.worker_stack_top]
        ++ (switchStart sym ++ .call .eax :: switchEnd sym) := by
  rfl

/--
`do_pit_int` is called in the state `c`, with the address of the registers of `s`. `m` is the memory before these were
saved.
-/
structure AtSwitch (sym : Symbols) (s : State) (m : Memory) (top : Nat) (c : State) : Prop where
  called : c.reg .eax = sym.do_pit_int
  esp : c.esp = top - 48
  pointer : c.mem.loadWord (top - 48) = top - 44
  stack : loadStack c.mem (top - 44) = stackOf s
  load : ∀ b, b < top - 48 ∨ top ≤ b → c.mem.load b = m.load b

theorem run_switchStart (function : BitVec 32 → State → Option State) (sym : Symbols) (t : State) (hroom : 64 ≤ t.esp)
    (hlt : t.esp < 0x100000000)
    : ∃ c, Run.run (X86.step function) t (switchStart sym) = some c ∧ AtSwitch sym t t.mem t.esp c := by
  obtain ⟨hpushed, hsaved, heq⟩ := @pushed_pushAll switchList t
    (by simp only [switchList, size_cons, size_nil, Loc.size]; omega)
  have hsize : size switchList = 38 := rfl
  have hesp := hpushed.esp
  have hload := hpushed.load
  rw [hsize] at hesp hload
  have hreg : (t.pushAll switchList).reg = t.reg := by rw [heq]
  have hcr3 : (t.pushAll switchList).cr3 = t.cr3 := by rw [heq]
  have hrun := @run_push function t switchList
  generalize t.pushAll switchList = u at *
  have hhalf : (if 2 ≤ u.esp then u.esp - 2 else u.esp + 0x100000000 - 2) = t.esp - 40 := by
    rw [if_pos (by omega)]
    omega
  have hword : (if 4 ≤ t.esp - 40 then t.esp - 40 - 4 else t.esp - 40 + 0x100000000 - 4) = t.esp - 44 := by
    rw [if_pos (by omega)]
    omega
  have hword' : (if 4 ≤ t.esp - 44 then t.esp - 44 - 4 else t.esp - 44 + 0x100000000 - 4) = t.esp - 48 := by
    rw [if_pos (by omega)]
    omega
  have hpointer : (BitVec.ofNat 32 (t.esp - 44)).toNat = t.esp - 44 := by
    rw [BitVec.toNat_ofNat]
    omega
  rw [switchStart]
  refine ⟨{ u with
    reg := fun r => if r = Reg.eax then sym.do_pit_int else if r = Reg.edx then 0x10
      else if r = Reg.esi then BitVec.ofNat 32 (t.esp - 44) else t.reg r
    seg := fun r => if r = Seg.ds ∨ r = Seg.es ∨ r = Seg.fs then 0x10 else u.seg r
    esp := t.esp - 48
    mem := ((u.mem.storeHalf (t.esp - 40) 0).storeWord (t.esp - 44) t.cr3.toNat).storeWord (t.esp - 48) (t.esp - 44) },
    ?_, ?_⟩
  . rw [Run.run_append, hrun, Option.bind_some]
    simp only [Run.run_cons, X86.step, Option.bind_some, Run.run_nil, State.pushHalf, State.push_reg, State.setReg,
      State.setSeg, State.pushWord, hhalf, State.below, hword, hword', if_true, hpointer, hreg, hcr3]
    congr 2
    . funext r
      cases r <;> simp
    . funext r
      cases r <;> simp
  . constructor
    . rfl
    . rfl
    . dsimp only
      rw [Memory.loadWord_storeWord_self, Nat.mod_eq_of_lt (by omega)]
    . apply loadStack_eq
      . apply hsaved.congr (by omega)
        intro b hlo hhi
        rw [Memory.load_storeWord_of_disjoint _ _ _ _ (by omega), Memory.load_storeWord_of_disjoint _ _ _ _ (by omega),
          Memory.load_storeHalf_of_disjoint _ _ _ _ (by omega)]
      . rw [Memory.loadHalf_congr _ _ _ (fun b hlo hhi => Memory.load_storeWord_of_disjoint _ _ _ _ (by omega)),
          Memory.loadHalf_congr _ _ _ (fun b hlo hhi => Memory.load_storeWord_of_disjoint _ _ _ _ (by omega)),
          Memory.loadHalf_storeHalf_self]
      . rw [Memory.loadWord_storeWord_of_disjoint _ _ _ _ (by omega), Memory.loadWord_storeWord_self,
          Nat.mod_eq_of_lt t.cr3.isLt]
      . omega
    . intro b hb
      rw [Memory.load_storeWord_of_disjoint _ _ _ _ (by omega), Memory.load_storeWord_of_disjoint _ _ _ _ (by omega),
        Memory.load_storeHalf_of_disjoint _ _ _ _ (by omega), hload b (by omega)]

theorem run_switchEnd (function : BitVec 32 → State → Option State) (sym : Symbols) {c : State} {top esp : Nat}
    (hesp : c.esp = top - 48) (hroom : 64 ≤ top) (hlt : top < 0x100000000) (hswap : c.mem.loadWord sym.esp_swap = esp)
    (hfits : esp + 12 < 0x100000000)
    : Run.run (X86.step function) c (switchEnd sym)
        =
      some (resume (loadStack c.mem (top - 44)) (loadFrame c.mem esp) (esp + 12) c.mem) := by
  have hsize : size switchList = 38 := rfl
  have hadd : (if top - 48 + 4 < 0x100000000 then top - 48 + 4 else top - 48 + 4 - 0x100000000) = top - 44 := by
    rw [if_pos (by omega)]
    omega
  have hpop : (if top - 44 + 4 < 0x100000000 then top - 44 + 4 else top - 44 + 4 - 0x100000000) = top - 40 := by
    rw [if_pos (by omega)]
    omega
  have hhalf : (if top - 40 + 2 < 0x100000000 then top - 40 + 2 else top - 40 + 2 - 0x100000000) = top - 38 := by
    rw [if_pos (by omega)]
    omega
  obtain ⟨u, hrun, hmem, hcr3, hu⟩ : ∃ u, Run.run (X86.step function) c
      [.addEsp 4, .pop (.reg .esi), .movToCr3 .esi, .popHalf .esi] = some u
        ∧ u.mem = c.mem ∧ u.cr3 = (loadStack c.mem (top - 44)).cr3 ∧ u.esp = top - size switchList := by
    refine ⟨_, rfl, rfl, ?_, ?_⟩
    . simp only [State.pop, State.set, State.setReg, State.above, Loc.load, hesp, hadd, loadStack, if_true]
    . simp only [State.pop, State.above, Loc.size, hesp, hadd, hpop, hhalf, hsize]
  have hsaved := saved_loadStack c.mem (show 44 ≤ top by omega)
  rw [switchEnd, Run.run_append, Run.run_append, hrun, Option.bind_some, run_pop, Option.bind_some,
    foldl_pop hsaved hmem hu (by omega) hlt]
  have h4 : (if esp + 4 < 0x100000000 then esp + 4 else esp + 4 - 0x100000000) = esp + 4 := if_pos (by omega)
  have h8 : (if esp + 8 < 0x100000000 then esp + 8 else esp + 8 - 0x100000000) = esp + 8 := if_pos (by omega)
  have h12 : (if esp + 12 < 0x100000000 then esp + 12 else esp + 12 - 0x100000000) = esp + 12 := if_pos hfits
  simp only [Run.run_cons, X86.step, Option.bind_some, Run.run_nil, State.restore, State.iret, State.above,
    State.setSeg, hmem, hcr3, hswap, h4, h8, h12, resume, loadFrame, Option.some.injEq, State.mk.injEq, and_true]
  constructor
  . funext r
    cases r <;> simp [switchList, valueOf, State.get, resume]
  . funext r
    cases r <;> simp [switchList, valueOf, State.get, resume]

/--
What the compiled variables of the scheduler look like in memory: the bytes `vars` hold the tables of a scheduler.
-/
structure Image where
  vars : Nat → Prop
  holds : Memory → Sched → Prop
  congr : ∀ m m' s s', (∀ b, vars b → m'.load b = m.load b)
    → { s' with mem := s.mem, espSwap := s.espSwap } = s → holds m s → holds m' s'

/--
The memory `m` of the processor is that of the scheduler `s`, but for the bytes `hidden` that the scheduler does not
have in its memory.
-/
structure Represents (sym : Symbols) (img : Image) (hidden : Nat → Prop) (m : Memory) (s : Sched) : Prop where
  mem : ∀ b, ¬ hidden b → m.load b = s.mem.load b
  espSwap : m.loadWord sym.esp_swap = s.espSwap
  workerStackTop : m.loadWord sym.worker_stack_top = s.workerStackTop
  image : img.holds m s

/--
The variables and the worker stack are hidden and lie apart.
-/
structure Layout (sym : Symbols) (img : Image) (hidden : Nat → Prop) (top : Nat) : Prop where
  room : 64 ≤ top
  top_lt : top < 0x100000000
  stack : ∀ b, top - 48 ≤ b → b < top → hidden b
  swap : ∀ b, sym.esp_swap ≤ b → b < sym.esp_swap + 4 → hidden b
  swap_apart : sym.esp_swap + 4 ≤ top - 48 ∨ top ≤ sym.esp_swap
  fixed : ∀ b, img.vars b ∨ (sym.worker_stack_top ≤ b ∧ b < sym.worker_stack_top + 4) →
    hidden b ∧ ¬ (top - 48 ≤ b ∧ b < top) ∧ ¬ (sym.esp_swap ≤ b ∧ b < sym.esp_swap + 4)

/--
An interrupt frame at `a` is not hidden.
-/
def Room (hidden : Nat → Prop) (a : Nat) : Prop := a + 12 < 0x100000000 ∧ ∀ b, a ≤ b → b < a + 12 → ¬ hidden b

/--
The frames of the tasks that wait, and those that new tasks will get, are not hidden.
-/
structure StacksApart (hidden : Nat → Prop) (sched : Sched) : Prop where
  new : ∀ (i : Nat) (t : TaskStruct), sched.tssList[i]? = some t → t.status = .new → Room hidden (t.kernelStack - 12)
  runnable : ∀ (i : Nat) (t : TaskStruct), sched.tssList[i]? = some t → t.status = .runnable → Room hidden t.kernelStack

/--
The compiled `do_pit_int` does what `do_sched` does.
-/
def Implements (function : BitVec 32 → State → Option State) (sym : Symbols) (img : Image) (hidden : Nat → Prop) : Prop :=
  ∀ c s s' regs', s.WellFormed → StacksApart hidden s → Room hidden s.espSwap → Layout sym img hidden s.workerStackTop
    → c.esp = s.workerStackTop - 48 → c.mem.loadWord c.esp = s.workerStackTop - 44
    → Represents sym img hidden c.mem s
    → s.doSched (loadStack c.mem (s.workerStackTop - 44)) = some (s', regs')
    → ∃ c',
        function sym.do_pit_int c = some c'
          ∧ c'.esp = c.esp
          ∧ loadStack c'.mem (s.workerStackTop - 44) = regs'
          ∧ Represents sym img hidden c'.mem s'

variable {sym : Symbols} {img : Image} {hidden : Nat → Prop} {sched sched' : Sched} {regs' : SchedStack}

theorem loadFrame_congr {a : Nat} (h : ∀ b, a ≤ b → b < a + 12 → m'.load b = m.load b)
    : loadFrame m' a = loadFrame m a := by
  have hword (k : Nat) (hk : k ≤ 8) : m'.loadWord (a + k) = m.loadWord (a + k) := by
    apply Memory.loadWord_congr
    intro b hlo hhi
    exact h b (by omega) (by omega)
  have hfirst := hword 0 (by omega)
  rw [Nat.add_zero] at hfirst
  simp only [loadFrame, hfirst, hword 4 (by omega), hword 8 (by omega)]

theorem loadStack_congr {a : Nat} (h : ∀ b, a ≤ b → b < a + 44 → m'.load b = m.load b)
    : loadStack m' a = loadStack m a := by
  have hword (k : Nat) (hk : k ≤ 40) : m'.loadWord (a + k) = m.loadWord (a + k) :=
    Memory.loadWord_congr _ _ _ (fun b hlo hhi => h b (by omega) (by omega))
  have hhalf (k : Nat) (hk : k ≤ 40) : m'.loadHalf (a + k) = m.loadHalf (a + k) :=
    Memory.loadHalf_congr _ _ _ (fun b hlo hhi => h b (by omega) (by omega))
  have hfirst := hword 0 (by omega)
  rw [Nat.add_zero] at hfirst
  simp only [loadStack, hfirst, hhalf 4 (by omega), hhalf 6 (by omega), hhalf 8 (by omega), hhalf 10 (by omega),
    hhalf 12 (by omega), hhalf 14 (by omega), hword 16 (by omega), hword 20 (by omega), hword 24 (by omega),
    hword 28 (by omega), hword 32 (by omega), hword 36 (by omega), hword 40 (by omega)]

/--
The frame that the processor pushes is the one of the model, byte by byte.
-/
theorem load_deliver (s : State) (hroom : 16 ≤ s.esp) (hlt : s.esp < 0x100000000) {m : Memory} {b : Nat}
    (hm : b < s.esp - 12 ∨ s.esp ≤ b → m.load b = s.mem.load b)
    : (s.deliver none).mem.load b = (storeFrame m (s.esp - 12) (frameOf s)).load b := by
  obtain ⟨hpushed, hframe, hcs, -, -⟩ := deliver_spec s none hroom hlt
  have heip := s.eip.isLt
  have hcslt := (s.seg .cs).isLt
  have heflags := s.eflags.isLt
  by_cases hin : s.esp - 12 ≤ b ∧ b < s.esp
  . have hword (k : Nat) (hk : (s.deliver none).mem.loadWord (s.esp - 12 + k)
        = (storeFrame m (s.esp - 12) (frameOf s)).loadWord (s.esp - 12 + k))
        (hlo : s.esp - 12 + k ≤ b) (hhi : b < s.esp - 12 + k + 4)
        : (s.deliver none).mem.load b = (storeFrame m (s.esp - 12) (frameOf s)).load b :=
      Memory.load_eq_of_loadWord_eq hk hlo hhi
    have hsetWidth : ((s.seg .cs).setWidth 32).toNat = (s.seg .cs).toNat := by
      rw [BitVec.toNat_setWidth]
      omega
    by_cases hfirst : b < s.esp - 12 + 4
    . apply hword 0 _ (by omega) (by omega)
      simp only [storeFrame, frameOf, Nat.add_zero]
      rw [hframe.eip, Memory.loadWord_storeWord_of_disjoint _ _ _ _ (by omega),
        Memory.loadWord_storeWord_of_disjoint _ _ _ _ (by omega), Memory.loadWord_storeWord_self, Nat.mod_eq_of_lt heip]
    . by_cases hsecond : b < s.esp - 12 + 8
      . apply hword 4 _ (by omega) (by omega)
        simp only [storeFrame, frameOf]
        rw [hcs, Memory.loadWord_storeWord_of_disjoint _ _ _ _ (by omega), Memory.loadWord_storeWord_self, hsetWidth,
          Nat.mod_eq_of_lt (by omega)]
      . apply hword 8 _ (by omega) (by omega)
        simp only [storeFrame, frameOf]
        rw [hframe.eflags, Memory.loadWord_storeWord_self, Nat.mod_eq_of_lt heflags]
  . have hload := hpushed.load
    simp only [Option.isSome_none, Bool.false_eq_true, if_false] at hload
    rw [hload b (by omega)]
    simp only [storeFrame]
    rw [Memory.load_storeWord_of_disjoint _ _ _ _ (by omega), Memory.load_storeWord_of_disjoint _ _ _ _ (by omega),
      Memory.load_storeWord_of_disjoint _ _ _ _ (by omega), hm (by omega)]

theorem wellFormed_framed (h : sched.WellFormed) (a : Nat) (f : InterruptStack)
    : { sched with mem := storeFrame sched.mem a f, espSwap := a }.WellFormed :=
  h.of_pid_eq rfl rfl rfl h.curr_lt (fun _ t ht => ⟨t, ht, rfl⟩) h.status

/--
One tick: the processor gets to the context that the model switches to.
-/
theorem run_pitInt (hwf : sched.WellFormed) (hstacks : StacksApart hidden sched)
    (hlayout : Layout sym img hidden sched.workerStackTop) (himpl : Implements function sym img hidden)
    (hrep : Represents sym img hidden s.mem sched) (hroom : 16 ≤ s.esp) (hlt : s.esp < 0x100000000)
    (hframe : ∀ b, s.esp - 12 ≤ b → b < s.esp → ¬ hidden b)
    (hstep : sched.pitInt (s.esp - 12) (frameOf s) (stackOf s) = some (sched', regs'))
    (hnext : Room hidden sched'.espSwap)
    : ∃ mem,
        Run.run (X86.step function) (s.deliver none) (pitInt sym)
          =
        some (resume regs' (loadFrame sched'.mem sched'.espSwap) (sched'.espSwap + 12) mem)
          ∧ Represents sym img hidden mem sched' := by
  obtain ⟨hpushed, -, -, -, heq⟩ := deliver_spec s none hroom hlt
  have hload := hpushed.load
  have hesp : (s.deliver none).esp = s.esp - 12 := hpushed.esp
  simp only [Option.isSome_none, Bool.false_eq_true, if_false] at hload
  have hbytes (b : Nat) (hb : ¬ hidden b) := load_deliver s hroom hlt (fun _ => (hrep.mem b hb).symm)
  have hfixed : ∀ b, hidden b → (s.deliver none).mem.load b = s.mem.load b := by
    intro b hb
    apply hload
    by_contra hin
    exact hframe b (by omega) (by omega) hb
  have hregs : (s.deliver none).reg = s.reg ∧ (s.deliver none).seg = s.seg ∧ (s.deliver none).cr3 = s.cr3 := by
    rw [heq]
    exact ⟨rfl, rfl, rfl⟩
  generalize s.deliver none = d at *
  -- the stack pointer is kept in `esp_swap`, and the worker stack is taken
  have hswap : ∀ b, ¬ (sym.esp_swap ≤ b ∧ b < sym.esp_swap + 4) →
      (d.mem.storeWord sym.esp_swap (s.esp - 12)).load b = d.mem.load b := by
    intro b hb
    exact Memory.load_storeWord_of_disjoint _ _ _ _ (by omega)
  have htop : (d.mem.storeWord sym.esp_swap (s.esp - 12)).loadWord sym.worker_stack_top = sched.workerStackTop := by
    rw [← hrep.workerStackTop]
    apply Memory.loadWord_congr
    intro b hlo hhi
    have hb := hlayout.fixed b (Or.inr ⟨hlo, hhi⟩)
    rw [hswap b hb.2.2, hfixed b hb.1]
  have hstart : Run.run (X86.step function) d [.cli, .storeEsp sym.esp_swap, .loadEsp sym.worker_stack_top]
      = some { d.clearInterrupt with
        mem := d.mem.storeWord sym.esp_swap (s.esp - 12)
        esp := sched.workerStackTop } := by
    simp only [Run.run_cons, X86.step, Option.bind_some, Run.run_nil, State.clearInterrupt, hesp, htop]
  obtain ⟨c, hrun, hcall⟩ := run_switchStart function sym { d.clearInterrupt with
    mem := d.mem.storeWord sym.esp_swap (s.esp - 12)
    esp := sched.workerStackTop } hlayout.room hlayout.top_lt
  have hcload : ∀ b, ¬ (sched.workerStackTop - 48 ≤ b ∧ b < sched.workerStackTop) →
      c.mem.load b = (d.mem.storeWord sym.esp_swap (s.esp - 12)).load b := by
    intro b hb
    exact hcall.load b (by simp only; omega)
  have hstack : loadStack c.mem (sched.workerStackTop - 44) = stackOf s := by
    rw [hcall.stack]
    simp only [stackOf, State.clearInterrupt, hregs]
  have hcesp : c.esp = sched.workerStackTop - 48 := hcall.esp
  have hpointer : c.mem.loadWord c.esp = sched.workerStackTop - 44 := by
    rw [hcesp]
    exact hcall.pointer
  have hcrep : Represents sym img hidden c.mem
      { sched with mem := storeFrame sched.mem (s.esp - 12) (frameOf s), espSwap := s.esp - 12 } := by
    constructor
    . intro b hb
      have hin : ¬ (sched.workerStackTop - 48 ≤ b ∧ b < sched.workerStackTop) := fun hin =>
        hb (hlayout.stack b hin.1 hin.2)
      have hin' : ¬ (sym.esp_swap ≤ b ∧ b < sym.esp_swap + 4) := fun hin => hb (hlayout.swap b hin.1 hin.2)
      rw [hcload b hin, hswap b hin']
      exact hbytes b hb
    . have happart := hlayout.swap_apart
      rw [Memory.loadWord_congr _ _ _ (fun b hlo hhi => hcload b (by omega)), Memory.loadWord_storeWord_self,
        Nat.mod_eq_of_lt (by omega)]
    . rw [← htop]
      apply Memory.loadWord_congr
      intro b hlo hhi
      exact hcload b (hlayout.fixed b (Or.inr ⟨hlo, hhi⟩)).2.1
    . apply img.congr s.mem _ sched _ _ _ hrep.image
      . intro b hb
        have hb := hlayout.fixed b (Or.inl hb)
        rw [hcload b hb.2.1, hswap b hb.2.2, hfixed b hb.1]
      . rfl
  obtain ⟨c', hfunction, hesp', hregs', hrep'⟩ := himpl c
    { sched with mem := storeFrame sched.mem (s.esp - 12) (frameOf s), espSwap := s.esp - 12 } sched' regs'
    (wellFormed_framed hwf _ _)
    ⟨hstacks.new, hstacks.runnable⟩ ⟨by simp only; omega, fun b hlo hhi => hframe b hlo (by simp only at hhi; omega)⟩
    hlayout hcesp hpointer hcrep (by
      rw [hstack]
      exact hstep)
  have hend := run_switchEnd function sym (hesp'.trans hcesp) hlayout.room hlayout.top_lt hrep'.espSwap hnext.1
  refine ⟨c'.mem, ?_, hrep'⟩
  rw [pitInt_eq, Run.run_append, hstart, Option.bind_some, Run.run_append, hrun, Option.bind_some, Run.run_cons,
    X86.step, hcall.called, hfunction, Option.bind_some, hend]
  rw [hregs', loadFrame_congr (fun b hlo hhi => hrep'.mem b (hnext.2 b hlo hhi))]

theorem StacksApart.savedList (h : StacksApart hidden sched) (hswap : Room hidden sched.espSwap) {stackFrame : SchedStack}
    {last t : TaskStruct} (hlast : sched.tssList[sched.currIndex]? = some last) {i : Nat}
    (ht : (sched.savedList stackFrame last)[i]? = some t)
    : (t.status = .new → Room hidden (t.kernelStack - 12)) ∧ (t.status = .runnable → Room hidden t.kernelStack) := by
  rw [getElem?_savedList stackFrame hlast] at ht
  split at ht
  . rw [Option.some.injEq] at ht
    subst ht
    by_cases hnew : last.status = .new
    . rw [outgoing_of_new hnew]
      exact ⟨h.new sched.currIndex last hlast, h.runnable sched.currIndex last hlast⟩
    . rw [outgoing_of_ne_new hnew]
      exact ⟨nofun, fun _ => hswap⟩
  . exact ⟨h.new i t ht, h.runnable i t ht⟩

theorem StacksApart.switched (h : StacksApart hidden sched) (hswap : Room hidden sched.espSwap) {stackFrame : SchedStack}
    {last curr : TaskStruct} (hlast : sched.tssList[sched.currIndex]? = some last)
    (hcurr : (sched.savedList stackFrame last)[sched.nextIndex]? = some curr) (kernelStack : Nat) (mem : Memory)
    (espSwap : Nat)
    : StacksApart hidden (sched.switched stackFrame last curr kernelStack mem espSwap) := by
  have hcases (i : Nat) (t : TaskStruct)
      (ht : (sched.switched stackFrame last curr kernelStack mem espSwap).tssList[i]? = some t)
      : t.status = .running ∨ (sched.savedList stackFrame last)[i]? = some t := by
    rw [getElem?_switched hcurr] at ht
    split at ht
    . rw [Option.some.injEq] at ht
      rw [← ht]
      exact Or.inl rfl
    . exact Or.inr ht
  constructor
  . intro i t ht hnew
    cases hcases i t ht with
    | inl hrunning => rw [hnew] at hrunning; cases hrunning
    | inr hsaved => exact (h.savedList hswap hlast hsaved).1 hnew
  . intro i t ht hrunnable
    cases hcases i t ht with
    | inl hrunning => rw [hrunnable] at hrunning; cases hrunning
    | inr hsaved => exact (h.savedList hswap hlast hsaved).2 hrunnable

theorem StacksApart.doSched (h : StacksApart hidden sched) (hwf : sched.WellFormed) (hswap : Room hidden sched.espSwap)
    {stackFrame : SchedStack} (hstep : sched.doSched stackFrame = some (sched', regs'))
    : StacksApart hidden sched' ∧ Room hidden sched'.espSwap ∧ sched'.workerStackTop = sched.workerStackTop := by
  obtain ⟨last, curr, hlast, hcurr, -, hcases⟩ := doSched_cases hwf hstep
  have hroom := h.savedList hswap hlast hcurr
  rcases hcases with ⟨hnew, rfl⟩ | ⟨hrunnable, rfl⟩
  . exact ⟨h.switched hswap hlast hcurr _ _ _, hroom.1 hnew, rfl⟩
  . exact ⟨h.switched hswap hlast hcurr _ _ _, hroom.2 hrunnable, rfl⟩

end Isr
end Osproj
