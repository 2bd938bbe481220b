import Osproj.Kernel.Impl.Idt
import Osproj.Kernel.Lemmas.Isr

/-!
This module contains what the table of the gates does: over every run of registrations the processor takes an interrupt
through the gate that was registered last for its vector, and the exceptions get to the stubs that `arch_init` sets.
-/

namespace Osproj

open X86

namespace Idt

/--
The gate after the assignments of a call.
-/
def GateOp.gate (op : GateOp) (old : Gate) : Gate where
  offset := op.isr
  selector := op.segment
  type := op.type.code.toNat
  system := old.system
  dpl := op.dpl.toNat % 4
  present := 1

variable {idt : Nat} {m m' : Memory} {op : GateOp} {ops : List GateOp} {v : BitVec 8}

theorem toNat_low (isr : BitVec 32) : (isr &&& 0xffff).toNat = isr.toNat % 0x10000 := by
  rw [BitVec.toNat_and]
  exact Nat.and_two_pow_sub_one_eq_mod isr.toNat 16

theorem toNat_high (isr : BitVec 32) : (isr.sshiftRight 16).toNat % 0x10000 = isr.toNat / 0x10000 := by
  have hmask : ∀ i < 32, (0xffff : BitVec 32).getLsbD i = decide (i < 16) := by decide
  have hshift : isr.sshiftRight 16 &&& (0xffff : BitVec 32) = isr >>> 16 := by
    apply BitVec.eq_of_getLsbD_eq
    intro i hi
    rw [BitVec.getLsbD_and, BitVec.getLsbD_sshiftRight, BitVec.getLsbD_ushiftRight, hmask i hi]
    by_cases hlow : i < 16
    . simp [hlow, show 16 + i < 32 by omega, show i < 32 from hi]
    . simp [hlow, BitVec.getLsbD_of_ge isr (16 + i) (by omega)]
  rw [← toNat_low, hshift, BitVec.toNat_ushiftRight, Nat.shiftRight_eq_div_pow]

theorem load_setField (m : Memory) (a lo width : Nat) (v : BitVec 8) {b : Nat} (h : b ≠ a)
    : (setField m a lo width v).load b = m.load b := by
  rw [setField, Memory.load_store, if_neg h]

/--
The byte with the bit fields. `reserve1` stays.
-/
theorem toNat_fields (m : Memory) (a : Nat) (type dpl : BitVec 8)
    : ((setField (setField (setField m a 0 4 type) a 5 2 dpl) a 7 1 1).load a).toNat
        =
      type.toNat % 16 + (m.load a).toNat / 16 % 2 * 16 + dpl.toNat % 4 * 32 + 128 := by
  have hold := (m.load a).isLt
  have htype := Nat.mod_lt type.toNat (show 0 < 16 by decide)
  have hdpl := Nat.mod_lt dpl.toNat (show 0 < 4 by decide)
  simp only [setField, Memory.load_store_self, BitVec.toNat_ofNat, BitVec.ofNat_eq_ofNat]
  omega

theorem load_register_of_apart (h : register idt m op = some m') {b : Nat}
    (hb : b < idt + 8 * op.num.toNat ∨ idt + 8 * op.num.toNat + 8 ≤ b)
    : m'.load b = m.load b := by
  rw [register, Option.some.injEq] at h
  subst h
  rw [Memory.load_storeHalf_of_disjoint _ _ _ _ (by omega), load_setField _ _ _ _ _ (by omega),
    load_setField _ _ _ _ _ (by omega), load_setField _ _ _ _ _ (by omega), Memory.load_store, if_neg (by omega),
    Memory.load_storeHalf_of_disjoint _ _ _ _ (by omega), Memory.load_storeHalf_of_disjoint _ _ _ _ (by omega)]

theorem Gate.load_congr {a : Nat} (h : ∀ b, a ≤ b → b < a + 8 → m'.load b = m.load b)
    : Gate.load m' a = Gate.load m a := by
  have hhalf (k : Nat) (hk : k ≤ 6) : m'.loadHalf (a + k) = m.loadHalf (a + k) := by
    apply Memory.loadHalf_congr
    intro b hlo hhi
    exact h b (by omega) (by omega)
  have hfirst := hhalf 0 (by omega)
  rw [Nat.add_zero] at hfirst
  simp only [Gate.load, hfirst, hhalf 2 (by omega), hhalf 6 (by omega), h (a + 5) (by omega) (by omega)]

theorem load_register_self (h : register idt m op = some m')
    : Gate.load m' (idt + 8 * op.num.toNat) = op.gate (Gate.load m (idt + 8 * op.num.toNat)) := by
  rw [register, Option.some.injEq] at h
  subst h
  generalize idt + 8 * op.num.toNat = a
  have hfields := toNat_fields
    (((m.storeHalf a (op.isr.toNat % 0x10000)).storeHalf (a + 2) op.segment.toNat).store (a + 4) 0)
    (a + 5) op.type.code op.dpl
  rw [Memory.load_store, if_neg (by omega), Memory.load_storeHalf_of_disjoint _ _ _ _ (by omega),
    Memory.load_storeHalf_of_disjoint _ _ _ _ (by omega)] at hfields
  have hbyte (m : Memory) (w : Nat) : (m.storeHalf (a + 6) w).load (a + 5) = m.load (a + 5) :=
    Memory.load_storeHalf_of_disjoint _ _ _ _ (by omega)
  have hkept (m : Memory) {b lo width : Nat} {w : BitVec 8} (hb : b + 2 ≤ a + 5)
      : (setField m (a + 5) lo width w).loadHalf b = m.loadHalf b := by
    apply Memory.loadHalf_congr
    intro c hlo hhi
    exact load_setField _ _ _ _ _ (by omega)
  have hstore (m : Memory) {b : Nat} (hb : b + 2 ≤ a + 4) : (m.store (a + 4) 0).loadHalf b = m.loadHalf b := by
    apply Memory.loadHalf_congr
    intro c hlo hhi
    rw [Memory.load_store, if_neg (by omega)]
  have hisr := op.isr.isLt
  have htype : op.type.code.toNat < 16 := by cases op.type <;> decide
  have hsegment := op.segment.isLt
  simp only [Gate.load, GateOp.gate, hbyte, hfields, Memory.loadHalf_storeHalf_self, toNat_low, toNat_high,
    Memory.loadHalf_storeHalf_of_disjoint _ (a + 6) _ _ (Or.inr (show a + 2 ≤ a + 6 by omega)),
    Memory.loadHalf_storeHalf_of_disjoint _ (a + 6) _ _ (Or.inr (show a + 2 + 2 ≤ a + 6 by omega)),
    hkept _ (show a + 2 ≤ a + 5 by omega), hkept _ (show a + 2 + 2 ≤ a + 5 by omega),
    hstore _ (show a + 2 ≤ a + 4 by omega), hstore _ (show a + 2 + 2 ≤ a + 4 by omega),
    Memory.loadHalf_storeHalf_of_disjoint _ (a + 2) _ _ (Or.inr (show a + 2 ≤ a + 2 by omega))]
  simp only [Gate.mk.injEq]
  refine ⟨?_, ?_, ?_, ?_, ?_, ?_⟩
  . apply BitVec.eq_of_toNat_eq
    rw [BitVec.toNat_ofNat]
    omega
  . rw [Nat.mod_eq_of_lt hsegment, BitVec.ofNat_toNat, BitVec.setWidth_eq]
  . omega
  . omega
  . omega
  . omega

theorem register_part (h : register idt m op = some m') (v : BitVec 8)
    : Gate.load m' (idt + 8 * v.toNat)
        =
      if op.num = v then
        op.gate (Gate.load m (idt + 8 * v.toNat))
      else
        Gate.load m (idt + 8 * v.toNat) := by
  by_cases hv : op.num = v
  . rw [if_pos hv, ← hv]
    exact load_register_self h
  . rw [if_neg hv]
    apply Gate.load_congr
    intro b hlo hhi
    apply load_register_of_apart h
    have hne : op.num.toNat ≠ v.toNat := fun heq => hv (BitVec.eq_of_toNat_eq heq)
    omega

/--
Over every run of calls each entry sees its own calls only.
-/
theorem load_run (hrun : Run.run (register idt) m ops = some m') (v : BitVec 8)
    : Gate.load m' (idt + 8 * v.toNat)
        =
      (ops.filter (fun op => op.num = v)).foldl (fun gate op => op.gate gate) (Gate.load m (idt + 8 * v.toNat)) := by
  apply Run.run_part (p := fun op => decide (op.num = v)) (f := GateOp.gate) ?_ hrun
  intro m op m' h
  simp only [decide_eq_true_eq]
  exact register_part h v

theorem exists_run (idt : Nat) (m : Memory) (ops : List GateOp) : ∃ m', Run.run (register idt) m ops = some m' := by
  obtain ⟨m', hrun, -⟩ := (Run.guarded_true m ops).progress (I := fun _ => True) (fun m op _ _ => ⟨_, rfl, trivial⟩) trivial
  exact ⟨m', hrun⟩

/--
The stub that `arch_init` sets for a vector.
-/
def archStub (stubs : Stubs) (v : Nat) : BitVec 32 :=
  match v with
  | 0 => stubs.divide_error
  | 1 => stubs.debug
  | 2 => stubs.nmi
  | 3 => stubs.int3
  | 4 => stubs.overflow
  | 5 => stubs.bounds
  | 6 => stubs.opcode
  | 7 => stubs.device_not_present
  | 8 => stubs.double_fault
  | 9 => stubs.i387_overrun
  | 10 => stubs.illegal_tss
  | 11 => stubs.illegal_segment
  | 12 => stubs.stack_overflow
  | 13 => stubs.general_protect
  | 14 => stubs.page_fault
  | _ => stubs.reserved

theorem archStub_of_le (stubs : Stubs) {i : Nat} (h : 15 ≤ i) : archStub stubs i = stubs.reserved := by
  unfold archStub
  split <;> first | omega | rfl

/--
The call of `arch_init` for a vector.
-/
def archGate (stubs : Stubs) (i : Nat) : GateOp :=
  registerIntr (BitVec.ofNat 8 i) (archStub stubs i) 8 (if 3 ≤ i ∧ i ≤ 5 then 3 else 0)

/--
`arch_init` calls once for each vector, in order.
-/
theorem archGates_eq (stubs : Stubs) : archGates stubs = (List.range' 0 256).map (archGate stubs) := by
  have hrange : List.range' 0 256 = List.range' 0 15 ++ List.range' 15 241 := by
    rw [List.range'_append_1]
  rw [hrange, List.map_append, archGates]
  refine congrArg₂ List.append rfl ?_
  apply List.map_congr_left
  intro i hi
  obtain ⟨hlo, -⟩ := List.mem_range'_1.mp hi
  rw [archGate, archStub_of_le stubs hlo, if_neg (by omega), setIntGate]
  rfl

theorem filter_archGates (stubs : Stubs) (v : BitVec 8)
    : (archGates stubs).filter (fun op => op.num = v) = [archGate stubs v.toNat] := by
  have hnum : ∀ i ∈ List.range' 0 256, decide ((archGate stubs i).num = v) = decide (i = v.toNat) := by
    intro i hi
    obtain ⟨-, hhi⟩ := List.mem_range'_1.mp hi
    apply decide_eq_decide.mpr
    rw [archGate, registerIntr, ← BitVec.toNat_inj, BitVec.toNat_ofNat, Nat.mod_eq_of_lt (by omega)]
  have hv : v.toNat ∈ List.range' 0 256 := by
    rw [List.mem_range'_1]
    exact ⟨Nat.zero_le _, by have := v.isLt; omega⟩
  rw [archGates_eq, List.filter_map, Function.comp_def, List.filter_congr hnum, List.filter_eq,
    (List.nodup_range').count, if_pos hv]
  rfl

/--
The call that counts is the last one.
-/
theorem foldl_gate (ops : List GateOp) (op : GateOp) (gate : Gate)
    : ops.foldl (fun gate op => op.gate gate) (op.gate gate) = (ops.getLastD op).gate gate := by
  induction ops generalizing op with
  | nil => rfl
  | cons op' ops ih =>
    rw [List.foldl_cons, List.getLastD_cons]
    exact ih op'

/--
The last call for a vector.
-/
def lastGate (stubs : Stubs) (ops : List GateOp) (v : BitVec 8) : GateOp :=
  (ops.filter (fun op => op.num = v)).getLastD (archGate stubs v.toNat)

theorem lastGate_of_forall (stubs : Stubs) (h : ∀ op ∈ ops, op.num ≠ v)
    : lastGate stubs ops v = archGate stubs v.toNat := by
  rw [lastGate, Run.filter_eq_nil_of_ne h]
  rfl

theorem lastGate_cons_of_forall (stubs : Stubs) (h : ∀ op' ∈ ops, op'.num ≠ op.num)
    : lastGate stubs (op :: ops) op.num = op := by
  rw [lastGate, List.filter_cons_of_pos (by simp), Run.filter_eq_nil_of_ne h]
  rfl

theorem load_lastGate (stubs : Stubs) (hrun : Run.run (register idt) m (archGates stubs ++ ops) = some m') (v : BitVec 8)
    : Gate.load m' (idt + 8 * v.toNat) = (lastGate stubs ops v).gate (Gate.load m (idt + 8 * v.toNat)) := by
  rw [load_run hrun v, List.filter_append, filter_archGates, List.foldl_append, List.foldl_cons, List.foldl_nil,
    foldl_gate, lastGate]

/--
The four bits of the gate hold both types.
-/
theorem type?_gate (op : GateOp) (old : Gate) : (op.gate old).type? = some op.type := by
  rw [Gate.type?, GateOp.gate]
  cases op.type <;> rfl

theorem interrupt_of_run (function : BitVec 32 → State → Option State) (text : BitVec 32 → Option (List Instr))
    (stubs : Stubs) (hsystem : ∀ v : BitVec 8, (Gate.load m (idt + 8 * v.toNat)).system = 0)
    (hrun : Run.run (register idt) m (archGates stubs ++ ops) = some m') (v : BitVec 8) (err : Option (BitVec 32))
    {s : State} (hs : ∀ b, idt ≤ b → b < idt + 2048 → s.mem.load b = m'.load b)
    (hsegment : (lastGate stubs ops v).segment = s.seg .cs)
    : interrupt function text (setupIdt idt) v err s
        =
      (text (lastGate stubs ops v).isr).bind (Run.run (step function) ((lastGate stubs ops v).type.enter err s)) := by
  have hv := v.isLt
  have hgate : Gate.load s.mem (idt + 8 * v.toNat) = (lastGate stubs ops v).gate (Gate.load m (idt + 8 * v.toNat)) := by
    rw [← load_lastGate stubs hrun v]
    apply Gate.load_congr
    intro b hlo hhi
    exact hs b (by omega) (by omega)
  have hlimit : 8 * v.toNat + 7 ≤ 256 * 8 := by omega
  simp only [interrupt, setupIdt, hgate, type?_gate, Option.bind_some]
  rw [if_pos ⟨hlimit, rfl, hsystem v, hsegment⟩]
  rfl

/--
Whatever is registered after `arch_init`, the processor takes every interrupt to the function that was registered last
for its vector, if that was done for the segment that is interrupted: with the interrupts off if it was registered by
`register_intr`, and with the interrupts as they were if by `register_trap`.
-/
theorem interrupt_eq (function : BitVec 32 → State → Option State) (text : BitVec 32 → Option (List Instr)) (stubs : Stubs)
    (idt : Nat) (m : Memory) (ops : List GateOp)
    (hsystem : ∀ v : BitVec 8, (Gate.load m (idt + 8 * v.toNat)).system = 0)
    : ∃ m',
        Run.run (register idt) m (archGates stubs ++ ops) = some m'
          ∧ ∀ v err s, (∀ b, idt ≤ b → b < idt + 2048 → s.mem.load b = m'.load b)
            → (lastGate stubs ops v).segment = s.seg .cs →
            interrupt function text (setupIdt idt) v err s
              =
            (text (lastGate stubs ops v).isr).bind
              (Run.run (step function) ((lastGate stubs ops v).type.enter err s)) := by
  obtain ⟨m', hrun⟩ := exists_run idt m (archGates stubs ++ ops)
  exact ⟨m', hrun, fun v err s hs hsegment => interrupt_of_run function text stubs hsystem hrun v err hs hsegment⟩

def stubs : Stubs where
  divide_error := 0x100300
  debug := 0x100310
  nmi := 0x100320
  int3 := 0x100330
  overflow := 0x100340
  bounds := 0x100350
  opcode := 0x100360
  device_not_present := 0x100370
  double_fault := 0x100380
  i387_overrun := 0x100390
  illegal_tss := 0x1003A0
  illegal_segment := 0x1003B0
  stack_overflow := 0x1003C0
  general_protect := 0x1003D0
  page_fault := 0x1003E0
  reserved := 0x1003F0

def zero : Memory := ⟨fun _ => 0, []⟩

theorem system_zero (v : BitVec 8) : (Gate.load zero (0x130000 + 8 * v.toNat)).system = 0 := by
  simp [Gate.load, Memory.load, zero]

/--
The gate of the timer, set as a trap and then as an interrupt, and the one of the keyboard the other way round.
-/
theorem interrupt_eq_timer
    : ∃ m',
        Run.run (register 0x130000) zero
            (archGates stubs ++ [registerTrap 0x20 0x100400 8 0, setIrqGate 0 0x100500, setIntGate 0x21 0x100600,
              registerTrap 0x21 0x100700 8 0])
          =
        some m'
          ∧ interrupt Isr.returnZero (fun a => if a = 0x100500 then some [.iret] else none) (setupIdt 0x130000) 0x20 none
              { Isr.interrupted with mem := m' }
            =
          Run.run (step Isr.returnZero) ({ Isr.interrupted with mem := m' }.deliver none) [.iret]
          ∧ interrupt Isr.returnZero (fun a => if a = 0x100700 then some [.iret] else none) (setupIdt 0x130000) 0x21 none
              { Isr.interrupted with mem := m' }
            =
          Run.run (step Isr.returnZero) ({ Isr.interrupted with mem := m' }.pushFrame none) [.iret] := by
  have hsegments : ∀ v ∈ [(0x20 : BitVec 8), 0x21],
      (lastGate stubs [registerTrap 0x20 0x100400 8 0, setIrqGate 0 0x100500, setIntGate 0x21 0x100600,
        registerTrap 0x21 0x100700 8 0] v).segment = 8 := by decide
  obtain ⟨m', hrun, htimer⟩ := interrupt_eq Isr.returnZero (fun a => if a = 0x100500 then some [.iret] else none) stubs
    0x130000 zero [registerTrap 0x20 0x100400 8 0, setIrqGate 0 0x100500, setIntGate 0x21 0x100600,
      registerTrap 0x21 0x100700 8 0] system_zero
  obtain ⟨m'', hrun', hkeyboard⟩ := interrupt_eq Isr.returnZero (fun a => if a = 0x100700 then some [.iret] else none)
    stubs 0x130000 zero [registerTrap 0x20 0x100400 8 0, setIrqGate 0 0x100500, setIntGate 0x21 0x100600,
      registerTrap 0x21 0x100700 8 0] system_zero
  obtain rfl : m' = m'' := Option.some.inj (hrun.symm.trans hrun')
  refine ⟨m', hrun, ?_, ?_⟩
  . exact htimer 0x20 none { Isr.interrupted with mem := m' } (fun _ _ _ => rfl) (hsegments 0x20 (by simp))
  . exact hkeyboard 0x21 none { Isr.interrupted with mem := m' } (fun _ _ _ => rfl) (hsegments 0x21 (by simp))

/--
An exception that no later call takes over gets to its function, and the interrupted code goes on as it was if that
returns.
-/
theorem exception_resumes (sym : Symbols) (function : BitVec 32 → State → Option State)
    (text : BitVec 32 → Option (List Instr)) (stubs : Stubs)
    (hsystem : ∀ v : BitVec 8, (Gate.load m (idt + 8 * v.toNat)).system = 0)
    (hrun : Run.run (register idt) m (archGates stubs ++ ops) = some m') (v : BitVec 8) (code : BitVec 32)
    (hops : ∀ op ∈ ops, op.num ≠ v) (htext : text (archStub stubs v.toNat) = some (Isr.gate sym v.toNat))
    (hvector : v ≠ 14) (hreserved : Isr.hasErrorCode v.toNat → v.toNat < 15) (s : State)
    (hs : ∀ b, idt ≤ b → b < idt + 2048 → s.mem.load b = m'.load b) (hcs : s.seg .cs = 8) (hroom : 64 ≤ s.esp)
    (hlt : s.esp < 0x100000000)
    : let err := if Isr.hasErrorCode v.toNat then some code else none
      ∃ c,
        Isr.AtCall s (s.deliver err).mem (err.getD 0) c
          ∧ (function (Isr.handler sym v.toNat) c = none → interrupt function text (setupIdt idt) v err s = none)
          ∧ ∀ c', Returns function (Isr.handler sym v.toNat) 8 46 c c' →
            interrupt function text (setupIdt idt) v err s = some { s with mem := c'.mem } := by
  intro err
  have hne : v.toNat ≠ 14 := fun heq => hvector (BitVec.eq_of_toNat_eq heq)
  have hsegment : (lastGate stubs ops v).segment = s.seg .cs := by
    rw [lastGate_of_forall stubs hops, hcs]
    rfl
  have heq := interrupt_of_run function text stubs hsystem hrun v err hs hsegment
  rw [lastGate_of_forall stubs hops] at heq
  have htaken : interrupt function text (setupIdt idt) v err s
      = Run.run (step function) (s.deliver err) (Isr.gate sym v.toNat) := by
    rw [heq, archGate, registerIntr, htext, Option.bind_some]
    rfl
  rw [htaken]
  exact Isr.gate_resumes sym function s code hroom hlt hne hreserved

theorem exception_resumes_int3
    : ∃ m' mem,
        Run.run (register 0x130000) zero (archGates stubs ++ [setIrqGate 0 0x100500]) = some m'
          ∧ interrupt Isr.returnZero (fun a => if a = 0x100330 then some (Isr.gate Isr.symbols 3) else none)
              (setupIdt 0x130000) 3 none { Isr.interrupted with mem := m' }
            =
          some { Isr.interrupted with mem := mem } := by
  obtain ⟨m', hrun⟩ := exists_run 0x130000 zero (archGates stubs ++ [setIrqGate 0 0x100500])
  obtain ⟨c, -, -, h⟩ := exception_resumes Isr.symbols Isr.returnZero
    (fun a => if a = 0x100330 then some (Isr.gate Isr.symbols 3) else none) stubs system_zero hrun 3 0 (by decide) rfl
    (by decide) (by decide) { Isr.interrupted with mem := m' } (fun _ _ _ => rfl) rfl
    (show 64 ≤ 0x1000 by decide) (show 0x1000 < 0x100000000 by decide)
  exact ⟨m', _, hrun, h _ (Isr.returns_returnZero _ _ _ c)⟩

end Idt
end Osproj
