import Osproj.Kernel.Impl.Apic
import Osproj.Kernel.Lemmas.Idt

/-!
This module contains the way of a device's interrupt through the interrupt controller and the table of the gates, however
the calls that set them up are mixed. The registers are selected by eight bits, so 128 pins further up is the same pin.
-/

namespace Osproj

open X86

/--
The pin whose entry a call is about.
-/
def PinOp.pin : PinOp → Nat
  | .enable _ pin => pin.toNat % 128
  | .disable pin => pin.toNat % 128

/--
The entry after a call.
-/
def PinOp.route (op : PinOp) (e : Redirection) : Redirection :=
  match op with
  | .enable targetVector _ => ⟨targetVector.setWidth 32, 0⟩
  | .disable _ => ⟨1 <<< 16 ||| e.low, 0⟩

/--
The vector that a call leaves the pin with.
-/
def PinOp.vector : PinOp → Option (BitVec 8)
  | .enable targetVector _ => if targetVector < 16 then none else some targetVector
  | .disable _ => none

namespace IoApic

variable {s s' : IoApic} {op : PinOp} {ops : List PinOp} {pin : Nat}

theorem regs_ioapicWrite (s : IoApic) (reg : Nat) (data : BitVec 32) (r : Nat)
    : (s.ioapicWrite reg data).regs r = if r = reg % 0x100 then data else s.regs r := by
  rfl

/--
Writing both words of an entry.
-/
theorem redirection_write (s : IoApic) (p : BitVec 8) (low high : BitVec 32) (hpin : pin < 120)
    : ((s.ioapicWrite (0x10 + 2 * p.toNat) low).ioapicWrite (0x10 + 2 * p.toNat + 1) high).redirection pin
        =
      if p.toNat % 128 = pin then ⟨low, high⟩ else s.redirection pin := by
  have hp := p.isLt
  simp only [redirection, regs_ioapicWrite]
  by_cases heq : p.toNat % 128 = pin
  . rw [if_pos heq, if_neg (by omega), if_pos (by omega), if_pos (by omega)]
  . rw [if_neg heq, if_neg (by omega), if_neg (by omega), if_neg (by omega), if_neg (by omega)]

theorem redirection_step (h : op.step s = some s') (hpin : pin < 120)
    : s'.redirection pin = if op.pin = pin then op.route (s.redirection pin) else s.redirection pin := by
  cases op with
  | enable targetVector p =>
    rw [PinOp.step, Option.some.injEq] at h
    rw [← h]
    exact redirection_write s p _ _ hpin
  | disable p =>
    rw [PinOp.step, Option.some.injEq] at h
    rw [← h]
    refine (redirection_write { s with select := (0x10 + 2 * p.toNat) % 0x100 } p _ _ hpin).trans ?_
    by_cases heq : p.toNat % 128 = pin
    . have hreg : (0x10 + 2 * p.toNat) % 0x100 = 0x10 + 2 * pin := by omega
      rw [PinOp.pin, if_pos heq, if_pos heq, hreg]
      rfl
    . rw [PinOp.pin, if_neg heq, if_neg heq]
      rfl

/--
Over every run of calls the entry of a pin depends on the calls for it alone.
-/
theorem redirection_run (hrun : Run.run (fun s op => PinOp.step s op) s ops = some s') (hpin : pin < 120)
    : s'.redirection pin
        =
      (ops.filter (fun op => op.pin = pin)).foldl (fun e op => op.route e) (s.redirection pin) := by
  apply Run.run_part (p := fun op => decide (op.pin = pin)) (f := PinOp.route) ?_ hrun
  intro s op s' h
  simp only [decide_eq_true_eq]
  exact redirection_step h hpin

end IoApic

theorem PinOp.vector_route (op : PinOp) (e : Redirection) : (op.route e).vector = op.vector := by
  cases op with
  | enable targetVector p =>
    have hbit : (targetVector.setWidth 32).getLsbD 16 = false := by
      rw [BitVec.getLsbD_setWidth, BitVec.getLsbD_of_ge targetVector 16 (by decide), Bool.and_false]
    have hvector : (targetVector.setWidth 32).setWidth 8 = targetVector := by
      apply BitVec.eq_of_toNat_eq
      have hlt := targetVector.isLt
      simp only [BitVec.toNat_setWidth]
      omega
    simp only [PinOp.route, Redirection.vector, PinOp.vector, hbit, hvector, Bool.false_eq_true, if_false]
  | disable p =>
    have hbit : (1 <<< 16 ||| e.low).getLsbD 16 = true := by
      rw [BitVec.getLsbD_or]
      rfl
    simp only [PinOp.route, Redirection.vector, PinOp.vector, hbit, if_true]

/--
The last call decides.
-/
theorem vector_foldl (ops : List PinOp) {e : Redirection} (he : e.vector = none)
    : (ops.foldl (fun e op => op.route e) e).vector = ops.getLast?.bind PinOp.vector := by
  obtain rfl | ⟨ops, op, rfl⟩ := List.eq_nil_or_concat ops
  . exact he
  . rw [List.concat_eq_append, List.foldl_append, List.getLast?_concat]
    exact op.vector_route _

/--
A gate is registered, or a pin is routed.
-/
def setup (idt : Nat) : Memory × IoApic → Idt.GateOp ⊕ PinOp → Option (Memory × IoApic) :=
  Run.interleave (Idt.register idt) (fun s op => PinOp.step s op)

theorem exists_setup (idt : Nat) (s : Memory × IoApic) (op : Idt.GateOp ⊕ PinOp)
    : ∃ s', setup idt s op = some s' ∧ True := by
  cases op with
  | inl op => exact ⟨_, rfl, trivial⟩
  | inr op =>
    cases op with
    | enable targetVector pin => exact ⟨_, rfl, trivial⟩
    | disable pin => exact ⟨_, rfl, trivial⟩

theorem filterMap_getLeft?_map_inl {α β : Type} (l : List α)
    : (l.map (Sum.inl : α → α ⊕ β)).filterMap Sum.getLeft? = l := by
  rw [List.filterMap_map]
  exact List.filterMap_some

theorem filterMap_getRight?_map_inl {α β : Type} (l : List α)
    : (l.map (Sum.inl : α → α ⊕ β)).filterMap Sum.getRight? = [] := by
  rw [List.filterMap_map]
  exact List.filterMap_eq_nil_iff.mpr (fun _ _ => rfl)

/--
The vector that the calls leave a pin with.
-/
def lastVector (ops : List PinOp) (pin : Nat) : Option (BitVec 8) :=
  (ops.filter (fun op => op.pin = pin)).getLast?.bind PinOp.vector

/--
What a pin's interrupt comes to after the calls `gates` and `pins` that follow `arch_init`, if the gate is one of the
segment that is interrupted.
-/
def taken (function : BitVec 32 → State → Option State) (text : BitVec 32 → Option (List Instr)) (stubs : Stubs)
    (gates : List Idt.GateOp) (pins : List PinOp) (pin : Nat) (s : State) : Option State :=
  match lastVector pins pin with
  | none => some s
  | some v =>
    let last := Idt.lastGate stubs gates v
    (text last.isr).bind (Run.run (step function) (last.type.enter none s))

theorem exists_setup_run (idt : Nat) (s : Memory × IoApic) (ops : List (Idt.GateOp ⊕ PinOp))
    : ∃ s', Run.run (setup idt) s ops = some s' := by
  obtain ⟨s', hrun, -⟩ := (Run.guarded_true s ops).progress (fun s op _ _ => exists_setup idt s op) trivial
  exact ⟨s', hrun⟩

section Raise

variable (function : BitVec 32 → State → Option State) (text : BitVec 32 → Option (List Instr)) (stubs : Stubs)
  (idt : Nat) (m : Memory) (ioapic : IoApic) (ops : List (Idt.GateOp ⊕ PinOp))

theorem raise_of_run (hsystem : ∀ v : BitVec 8, (Idt.Gate.load m (idt + 8 * v.toNat)).system = 0)
    (hmasked : ∀ pin, pin < 120 → (ioapic.redirection pin).vector = none) {s' : Memory × IoApic}
    (hrun : Run.run (setup idt) (m, ioapic) ((Idt.archGates stubs).map Sum.inl ++ ops) = some s') {pin : Nat} {s : State}
    (hpin : pin < 120) (hs : ∀ b, idt ≤ b → b < idt + 2048 → s.mem.load b = s'.1.load b)
    (hsegment : ∀ v, lastVector (ops.filterMap Sum.getRight?) pin = some v →
      (Idt.lastGate stubs (ops.filterMap Sum.getLeft?) v).segment = s.seg .cs)
    : s'.2.raise function text (Idt.setupIdt idt) pin s
        =
      taken function text stubs (ops.filterMap Sum.getLeft?) (ops.filterMap Sum.getRight?) pin s := by
  obtain ⟨hgates, hpins⟩ := Run.run_interleave hrun
  rw [List.filterMap_append, filterMap_getLeft?_map_inl] at hgates
  rw [List.filterMap_append, filterMap_getRight?_map_inl, List.nil_append] at hpins
  have hvector : (s'.2.redirection pin).vector = lastVector (ops.filterMap Sum.getRight?) pin := by
    rw [IoApic.redirection_run hpins hpin]
    exact vector_foldl _ (hmasked pin hpin)
  rw [IoApic.raise, hvector, taken]
  cases hlast : lastVector (ops.filterMap Sum.getRight?) pin with
  | none => rfl
  | some v => exact Idt.interrupt_of_run function text stubs hsystem hgates v none hs (hsegment v hlast)

/--
However registrations and routings are mixed after `arch_init`: the interrupt of a pin is taken by the function that was
registered last for the vector the pin was last enabled with. It is lost if the pin was not enabled or disabled since, or
enabled with a vector of the processor's own.
-/
theorem raise_eq (hsystem : ∀ v : BitVec 8, (Idt.Gate.load m (idt + 8 * v.toNat)).system = 0)
    (hmasked : ∀ pin, pin < 120 → (ioapic.redirection pin).vector = none)
    : ∃ s',
        Run.run (setup idt) (m, ioapic) ((Idt.archGates stubs).map Sum.inl ++ ops) = some s'
          ∧ ∀ pin s, pin < 120 → (∀ b, idt ≤ b → b < idt + 2048 → s.mem.load b = s'.1.load b)
            → (∀ v, lastVector (ops.filterMap Sum.getRight?) pin = some v →
              (Idt.lastGate stubs (ops.filterMap Sum.getLeft?) v).segment = s.seg .cs) →
            s'.2.raise function text (Idt.setupIdt idt) pin s
              =
            taken function text stubs (ops.filterMap Sum.getLeft?) (ops.filterMap Sum.getRight?) pin s := by
  obtain ⟨s', hrun⟩ := exists_setup_run idt (m, ioapic) ((Idt.archGates stubs).map Sum.inl ++ ops)
  exact ⟨s', hrun, fun pin s hpin hs hsegment =>
    raise_of_run function text stubs idt m ioapic ops hsystem hmasked hrun hpin hs hsegment⟩

/--
After a reset every pin is masked.
-/
def resetIoApic : IoApic where
  select := 0
  regs := fun _ => 0x10000

theorem vector_resetIoApic (pin : Nat) : (resetIoApic.redirection pin).vector = none := by
  have hbit : (0x10000 : BitVec 32).getLsbD 16 = true := by decide
  simp only [IoApic.redirection, resetIoApic, Redirection.vector, hbit, if_true]

/--
Two pins, one disabled again and one with a gate that was set twice.
-/
theorem raise_eq_disabled
    : ∃ s',
        Run.run (setup 0x130000) (Idt.zero, resetIoApic) ((Idt.archGates Idt.stubs).map Sum.inl
            ++ [.inr (.enable 0x21 14), .inl (Idt.setIntGate 0x21 0x100500), .inr (.enable 0x22 15), .inr (.disable 15),
              .inl (Idt.registerTrap 0x21 0x100600 8 0)])
          =
        some s'
          ∧ s'.2.raise Isr.returnZero (fun a => if a = 0x100600 then some [.iret] else none) (Idt.setupIdt 0x130000) 15
              { Isr.interrupted with mem := s'.1 }
            =
          some { Isr.interrupted with mem := s'.1 }
          ∧ s'.2.raise Isr.returnZero (fun a => if a = 0x100600 then some [.iret] else none) (Idt.setupIdt 0x130000) 14
              { Isr.interrupted with mem := s'.1 }
            =
          Run.run (step Isr.returnZero) ({ Isr.interrupted with mem := s'.1 }.pushFrame none) [.iret] := by
  obtain ⟨s', hrun, h⟩ := raise_eq Isr.returnZero (fun a => if a = 0x100600 then some [.iret] else none) Idt.stubs 0x130000
    Idt.zero resetIoApic
    [.inr (.enable 0x21 14), .inl (Idt.setIntGate 0x21 0x100500), .inr (.enable 0x22 15), .inr (.disable 15),
      .inl (Idt.registerTrap 0x21 0x100600 8 0)]
    Idt.system_zero (fun pin _ => vector_resetIoApic pin)
  refine ⟨s', hrun, ?_, ?_⟩
  . exact h 15 { Isr.interrupted with mem := s'.1 } (by decide) (fun _ _ _ => rfl) (fun v hv => nomatch hv)
  . refine h 14 { Isr.interrupted with mem := s'.1 } (by decide) (fun _ _ _ => rfl) ?_
    intro v hv
    obtain rfl : 0x21 = v := Option.some.inj hv
    rfl

/--
What `kmain` calls after `arch_init`.
-/
def kmainSetup (pitInt : BitVec 32) : List (Idt.GateOp ⊕ PinOp) := serialInit.map Sum.inr ++ pitInit pitInt

theorem lastVector_append_of_forall {ops ops' : List PinOp} {pin : Nat} (h : ∀ op ∈ ops', op.pin ≠ pin)
    : lastVector (ops ++ ops') pin = lastVector ops pin := by
  rw [lastVector, List.filter_append, Run.filter_eq_nil_of_ne h, List.append_nil, lastVector]

theorem lastVector_kmainSetup (pitInt : BitVec 32)
    : ∀ pin < 24, lastVector ((kmainSetup pitInt).filterMap Sum.getRight?) pin
        = if pin = PIT_PIN.toNat then some PIT_VECTOR else none := by
  have hpins : (kmainSetup pitInt).filterMap Sum.getRight? = serialInit ++ [.enable PIT_VECTOR PIT_PIN] := by rfl
  rw [hpins]
  decide +kernel

/--
`serial_init` routes every pin to a vector that the processor does not accept, and `pit_init` takes one of them back: as
long as no later call names the pin or the timer's vector, the timer is the only device that interrupts.
-/
theorem kmain_raise (pitInt : BitVec 32) (hsystem : ∀ v : BitVec 8, (Idt.Gate.load m (idt + 8 * v.toNat)).system = 0)
    (hmasked : ∀ pin, pin < 120 → (ioapic.redirection pin).vector = none)
    (hgates : ∀ op, .inl op ∈ ops → op.num ≠ PIT_VECTOR)
    : ∃ s',
        Run.run (setup idt) (m, ioapic) ((Idt.archGates stubs).map Sum.inl ++ (kmainSetup pitInt ++ ops)) = some s'
          ∧ ∀ pin s, pin < 24 → (∀ op, .inr op ∈ ops → op.pin ≠ pin)
            → (∀ b, idt ≤ b → b < idt + 2048 → s.mem.load b = s'.1.load b) → s.seg .cs = 8 →
            s'.2.raise function text (Idt.setupIdt idt) pin s
              =
            if pin = PIT_PIN.toNat then
              (text pitInt).bind (Run.run (step function) (s.deliver none))
            else
              some s := by
  obtain ⟨s', hrun⟩ := exists_setup_run idt (m, ioapic) ((Idt.archGates stubs).map Sum.inl ++ (kmainSetup pitInt ++ ops))
  refine ⟨s', hrun, ?_⟩
  intro pin s hpin hpins hs hcs
  have hleft : ∀ op ∈ ops.filterMap Sum.getLeft?, op.num ≠ PIT_VECTOR := by
    intro op hop
    obtain ⟨a, ha, heq⟩ := List.mem_filterMap.mp hop
    rw [Sum.getLeft?_eq_some_iff] at heq
    exact hgates op (heq ▸ ha)
  have hright : ∀ op ∈ ops.filterMap Sum.getRight?, op.pin ≠ pin := by
    intro op hop
    obtain ⟨a, ha, heq⟩ := List.mem_filterMap.mp hop
    rw [Sum.getRight?_eq_some_iff] at heq
    exact hpins op (heq ▸ ha)
  have hgate : Idt.lastGate stubs ((kmainSetup pitInt ++ ops).filterMap Sum.getLeft?) PIT_VECTOR
      = Idt.setIntGate PIT_VECTOR pitInt := by
    have hfirst : (kmainSetup pitInt).filterMap Sum.getLeft? = [Idt.setIntGate PIT_VECTOR pitInt] := by rfl
    rw [List.filterMap_append, hfirst]
    exact Idt.lastGate_cons_of_forall stubs hleft
  have hvector : lastVector ((kmainSetup pitInt ++ ops).filterMap Sum.getRight?) pin
      = if pin = PIT_PIN.toNat then some PIT_VECTOR else none := by
    rw [List.filterMap_append, lastVector_append_of_forall hright]
    exact lastVector_kmainSetup pitInt pin hpin
  have hsegment : ∀ v, lastVector ((kmainSetup pitInt ++ ops).filterMap Sum.getRight?) pin = some v →
      (Idt.lastGate stubs ((kmainSetup pitInt ++ ops).filterMap Sum.getLeft?) v).segment = s.seg .cs := by
    intro v hv
    rw [hvector] at hv
    split at hv
    . obtain rfl : PIT_VECTOR = v := Option.some.inj hv
      rw [hgate, hcs]
      rfl
    . exact nomatch hv
  rw [raise_of_run function text stubs idt m ioapic _ hsystem hmasked hrun (by omega) hs hsegment, taken, hvector]
  by_cases htimer : pin = PIT_PIN.toNat
  . rw [if_pos htimer, if_pos htimer]
    dsimp only
    rw [hgate]
    rfl
  . rw [if_neg htimer, if_neg htimer]

theorem kmain_raise_disabled
    : ∃ s',
        Run.run (setup 0x130000) (Idt.zero, resetIoApic) ((Idt.archGates Idt.stubs).map Sum.inl
            ++ (kmainSetup 0x100500 ++ [.inr (.disable 1), .inl (Idt.setIntGate 0x21 0x100600)]))
          =
        some s'
          ∧ s'.2.raise Isr.returnZero (fun _ => some [.iret]) (Idt.setupIdt 0x130000) 4 { Isr.interrupted with mem := s'.1 }
            =
          some { Isr.interrupted with mem := s'.1 }
          ∧ s'.2.raise Isr.returnZero (fun _ => some [.iret]) (Idt.setupIdt 0x130000) 2 { Isr.interrupted with mem := s'.1 }
            =
          Run.run (step Isr.returnZero) ({ Isr.interrupted with mem := s'.1 }.deliver none) [.iret] := by
  obtain ⟨s', hrun, h⟩ := kmain_raise Isr.returnZero (fun _ => some [.iret]) Idt.stubs 0x130000 Idt.zero resetIoApic
    [.inr (.disable 1), .inl (Idt.setIntGate 0x21 0x100600)] 0x100500 Idt.system_zero (fun pin _ => vector_resetIoApic pin)
    (by simp [Idt.setIntGate, Idt.registerIntr, PIT_VECTOR])
  exact ⟨s', hrun, h 4 { Isr.interrupted with mem := s'.1 } (by decide) (by simp [PinOp.pin]) (fun _ _ _ => rfl) rfl,
    h 2 { Isr.interrupted with mem := s'.1 } (by decide) (by simp [PinOp.pin]) (fun _ _ _ => rfl) rfl⟩

end Raise

end Osproj
