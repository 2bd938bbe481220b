import Osproj.Kernel.Lemmas.TaskTable

/-!
This module contains runs of tasks and ticks: the instructions of `pit_int` and `sched_int` take the processor from
context to context as the model of the scheduler does.
-/

namespace Osproj

open X86 Sched

namespace Isr

variable {function : BitVec 32 → State → Option State} {m : Memory} {s : State} {sym : Symbols} {img : Image}
  {hidden : Nat → Prop} {sched : Sched}

/--
What happens up to the next tick: the tasks store bytes and get the registers to the values of `cpu`, whose memory does
not count.
-/
structure Activity where
  stores : List (Nat × BitVec 8)
  cpu : State

namespace Activity

def mem (e : Activity) (m : Memory) : Memory := e.stores.foldl (fun m p => m.store p.1 p.2) m

/--
The tick on the processor.
-/
def machine (function : BitVec 32 → State → Option State) (sym : Symbols) (s : State) (e : Activity) : Option State :=
  Run.run (X86.step function) ({ e.cpu with mem := e.mem s.mem }.deliver none) (pitInt sym)

/--
The tick in the model, with the context of the task that goes on.
-/
def tick (s : Sched × Option Context) (e : Activity) : Option (Sched × Option Context) := do
  let (s, regs) ← { s.1 with mem := e.mem s.1.mem }.pitInt (e.cpu.esp - 12) (frameOf e.cpu) (stackOf e.cpu)
  return (s, some ⟨regs, loadFrame s.mem s.espSwap⟩)

/--
The tasks do not store into what is hidden, and the stack of the task that is interrupted has room for the frame.
-/
structure Outside (hidden : Nat → Prop) (e : Activity) : Prop where
  stores : ∀ p ∈ e.stores, ¬ hidden p.1
  room : 16 ≤ e.cpu.esp
  stack : Room hidden (e.cpu.esp - 12)

theorem load_mem {e : Activity} {m m' : Memory} {b : Nat} (h : m'.load b = m.load b)
    : (e.mem m').load b = (e.mem m).load b := by
  unfold mem
  generalize e.stores = stores
  induction stores generalizing m m' with
  | nil => exact h
  | cons p stores ih =>
    apply ih
    rw [Memory.load_store, Memory.load_store, h]

theorem load_mem_of_not_mem {e : Activity} {m : Memory} {b : Nat} (h : ∀ p ∈ e.stores, p.1 ≠ b)
    : (e.mem m).load b = m.load b := by
  unfold mem
  generalize e.stores = stores at *
  induction stores generalizing m with
  | nil => rfl
  | cons p stores ih =>
    rw [List.foldl_cons, ih (fun q hq => h q (List.mem_cons_of_mem p hq)), Memory.load_store,
      if_neg (h p List.mem_cons_self).symm]

end Activity

/--
The processor and the model are in the same place: the memory is the same but for what is hidden, and the registers are
those of the context that was switched to last.
-/
structure Matches (sym : Symbols) (img : Image) (hidden : Nat → Prop) (p : Sched × Option Context) (s : State) : Prop where
  memory : Represents sym img hidden s.mem p.1
  context : ∀ x ∈ p.2, s = resume x.regs x.frame (p.1.espSwap + 12) s.mem

/--
What a tick needs of the place where the processor and the model are, and what it keeps.
-/
structure Ready (sym : Symbols) (img : Image) (hidden : Nat → Prop) (p : Sched × Option Context) (s : State) : Prop where
  wellFormed : p.1.WellFormed
  apart : StacksApart hidden p.1
  layout : Layout sym img hidden p.1.workerStackTop
  same : Matches sym img hidden p s

/--
What the tasks store keeps the two memories together.
-/
theorem Represents.activity (h : Represents sym img hidden m sched) (hlayout : Layout sym img hidden sched.workerStackTop)
    {e : Activity} (he : e.Outside hidden)
    : Represents sym img hidden (e.mem m) { sched with mem := e.mem sched.mem } := by
  have hkept (b : Nat) (hb : hidden b) : (e.mem m).load b = m.load b :=
    Activity.load_mem_of_not_mem (fun p hp heq => he.stores p hp (heq ▸ hb))
  constructor
  . intro b hb
    exact Activity.load_mem (h.mem b hb)
  . rw [← h.espSwap]
    exact Memory.loadWord_congr _ _ _ (fun b hlo hhi => hkept b (hlayout.swap b hlo hhi))
  . rw [← h.workerStackTop]
    exact Memory.loadWord_congr _ _ _ (fun b hlo hhi => hkept b (hlayout.fixed b (Or.inr ⟨hlo, hhi⟩)).1)
  . refine img.congr m (e.mem m) sched _ ?_ rfl h.image
    intro b hb
    exact hkept b (hlayout.fixed b (Or.inl hb)).1

theorem tick_spec {p : Sched × Option Context} (h : p.1.WellFormed) (e : Activity)
    : ∃ p', e.tick p = some p' ∧ p'.1.WellFormed := by
  have hmem : { p.1 with mem := e.mem p.1.mem }.WellFormed :=
    h.of_pid_eq rfl rfl rfl h.curr_lt (fun _ t ht => ⟨t, ht, rfl⟩) h.status
  obtain ⟨sched', regs', hstep, hwf, -⟩ := pitInt_spec hmem (e.cpu.esp - 12) (frameOf e.cpu) (stackOf e.cpu)
  refine ⟨(sched', some ⟨regs', loadFrame sched'.mem sched'.espSwap⟩), ?_, hwf⟩
  simp only [Activity.tick, hstep, Option.bind_eq_bind, Option.bind_some, Option.pure_def]

theorem Ready.tick (himpl : Implements function sym img hidden) {p p' : Sched × Option Context} {e : Activity}
    (h : Ready sym img hidden p s) (he : e.Outside hidden) (htick : e.tick p = some p')
    : ∃ s', e.machine function sym s = some s' ∧ Ready sym img hidden p' s' := by
  obtain ⟨p'', htick', hwf⟩ := tick_spec h.wellFormed e
  obtain rfl : p' = p'' := Option.some.inj (htick.symm.trans htick')
  simp only [Activity.tick, Option.bind_eq_bind, Option.bind_eq_some_iff, Option.pure_def, Option.some.injEq,
    Prod.exists] at htick
  obtain ⟨sched', regs', hstep, rfl⟩ := htick
  have hlt := he.stack.1
  have hmem : { p.1 with mem := e.mem p.1.mem }.WellFormed :=
    h.wellFormed.of_pid_eq rfl rfl rfl h.wellFormed.curr_lt (fun _ t ht => ⟨t, ht, rfl⟩) h.wellFormed.status
  have hframes : StacksApart hidden { p.1 with
      mem := storeFrame (e.mem p.1.mem) (e.cpu.esp - 12) (frameOf e.cpu)
      espSwap := e.cpu.esp - 12 } := ⟨h.apart.new, h.apart.runnable⟩
  obtain ⟨hstacks, hnext, htop⟩ := hframes.doSched (wellFormed_framed hmem _ _) he.stack hstep
  have hlayout : Layout sym img hidden { p.1 with mem := e.mem p.1.mem }.workerStackTop := h.layout
  have hcpu : Represents sym img hidden { e.cpu with mem := e.mem s.mem }.mem { p.1 with mem := e.mem p.1.mem } :=
    h.same.memory.activity h.layout he
  obtain ⟨mem, hrun, hrep⟩ := run_pitInt hmem ⟨h.apart.new, h.apart.runnable⟩ hlayout himpl hcpu he.room
    (by simp only; omega) (fun b hlo hhi => he.stack.2 b hlo (by simp only at hhi; omega)) hstep hnext
  refine ⟨_, hrun, hwf, hstacks, ?_, hrep, ?_⟩
  . rw [htop]
    exact h.layout
  . intro x hx
    obtain rfl := Option.some.inj hx
    rfl

/--
Over every run of tasks and ticks the instructions of `pit_int` and `sched_int` do what the model of the scheduler does.
-/
theorem machine_matches (himpl : Implements function sym img hidden) (hwf : sched.WellFormed)
    (hstacks : StacksApart hidden sched) (hlayout : Layout sym img hidden sched.workerStackTop)
    (hrep : Represents sym img hidden s.mem sched) (es : List Activity) (hes : ∀ e ∈ es, e.Outside hidden)
    : ∃ p s',
        Run.run Activity.tick (sched, none) es = some p
          ∧ Run.run (Activity.machine function sym) s es = some s'
          ∧ Matches sym img hidden p s' := by
  have hready : Ready sym img hidden (sched, none) s := ⟨hwf, hstacks, hlayout, hrep, nofun⟩
  have hguarded := Run.guarded_of_forall (fun p e => Activity.tick p e) hes (sched, none)
  obtain ⟨p, hrun, -⟩ := hguarded.progress (fun _ e hI _ => tick_spec hI e) hwf
  obtain ⟨s', hmachine, h⟩ := hguarded.simulates (fun _ _ _ _ hR he htick => hR.tick himpl he htick) hready hrun
  exact ⟨p, s', hrun, hmachine, h.same⟩

/-
A kernel with two tasks that have not run yet, and what its variables and the worker stack take up.
-/
section Pair

def exampleVars : SchedVars := ⟨0x121000, 0x11F000, by decide, by decide, by decide, by decide⟩

def Hidden (b : Nat) : Prop :=
  (0x5000 ≤ b ∧ b < 0x6000) ∨ (0x120000 ≤ b ∧ b < 0x120008) ∨ (0x121000 ≤ b ∧ b < 0x125810)

def pairSched (mem : Memory) : Sched :=
  let s := booted mem 0x100200 0x2000 0x5000
  { s with tssList := s.tssList.set 1 (newTask 2 0x100300 0x7000), nextPid := 3, usedIndex := 2 }

theorem pairSched_wellFormed (mem : Memory) : (pairSched mem).WellFormed := by
  have hused : (booted mem 0x100200 0x2000 0x5000).usedIndex < MAX_TASK := show 1 < 256 by decide
  obtain ⟨s', hnew, hwf, -⟩ := newTss_wellFormed (booted_wellFormed mem 0x100200 0x2000 0x5000) 0x100300 0x7000 hused
  rw [newTss_eq _ _ _ hused, Option.some.injEq] at hnew
  rw [← hnew] at hwf
  exact hwf

theorem mem_pairSched {mem : Memory} {t : TaskStruct} (ht : t ∈ (pairSched mem).tssList)
    : t = newTask 2 0x100300 0x7000 ∨ t = newTask 1 0x100200 0x2000 ∨ t = .zero := by
  rcases List.mem_or_eq_of_mem_set ht with ht | ht
  . rcases List.mem_or_eq_of_mem_set ht with ht | ht
    . exact Or.inr (Or.inr (List.eq_of_mem_replicate ht))
    . exact Or.inr (Or.inl ht)
  . exact Or.inl ht

theorem fits_pairSched (mem : Memory) : SchedVars.FitsSched (pairSched mem) := by
  constructor
  . exact (pairSched_wellFormed mem).length_eq
  . intro t ht
    rcases mem_pairSched ht with rfl | rfl | rfl
    . exact ⟨by decide, by decide, Or.inr rfl⟩
    . exact ⟨by decide, by decide, Or.inr rfl⟩
    . exact ⟨by decide, by decide, Or.inl rfl⟩
  . exact show 2 < 0x100000000 by decide
  . exact show 0 < 0x100000000 by decide
  . exact show 3 < 0x100000000 by decide
  . exact nofun

theorem stacksApart_pairSched (mem : Memory) : StacksApart Hidden (pairSched mem) := by
  constructor
  . intro i t ht hnew
    rcases mem_pairSched (List.mem_of_getElem? ht) with rfl | rfl | rfl
    . have hstack : (newTask 2 0x100300 0x7000).kernelStack = 0x7FFF := rfl
      refine ⟨by decide, fun b hlo hhi => ?_⟩
      rw [Hidden]
      omega
    . have hstack : (newTask 1 0x100200 0x2000).kernelStack = 0x2FFF := rfl
      refine ⟨by decide, fun b hlo hhi => ?_⟩
      rw [Hidden]
      omega
    . cases hnew
  . intro i t ht hrunnable
    rcases mem_pairSched (List.mem_of_getElem? ht) with rfl | rfl | rfl <;> cases hrunnable

/--
The variables in memory.
-/
def pairMem : Memory :=
  exampleVars.storeSched (Memory.storeWord ⟨fun _ => 0, []⟩ 0x120004 0x5FFF) (pairSched ⟨fun _ => 0, []⟩)

theorem loadWord_pairMem {a : Nat} (h : a + 4 ≤ 0x121000)
    : pairMem.loadWord a = (Memory.storeWord ⟨fun _ => 0, []⟩ 0x120004 0x5FFF).loadWord a := by
  have haddr : exampleVars.addr = 0x121000 := rfl
  apply Memory.loadWord_congr
  intro b hlo hhi
  exact SchedVars.load_storeSched_of_disjoint _ (pairSched_wellFormed _).length_eq (Or.inl (by omega))

theorem represents_pairMem
    : Represents symbols (exampleVars.image symbols) Hidden pairMem (pairSched pairMem) := by
  constructor
  . exact fun b _ => rfl
  . exact (loadWord_pairMem (by decide)).trans (Memory.loadWord_storeWord_of_disjoint _ _ _ _ (by decide))
  . exact (loadWord_pairMem (by decide)).trans (Memory.loadWord_storeWord_self _ _ _)
  . exact SchedVars.holds_storeSched _ (fits_pairSched pairMem)

theorem layout_pairSched (mem : Memory)
    : Layout symbols (exampleVars.image symbols) Hidden (pairSched mem).workerStackTop := by
  have htop : (pairSched mem).workerStackTop = 0x5FFF := rfl
  have hswap : symbols.esp_swap = 0x120000 := rfl
  have hworker : symbols.worker_stack_top = 0x120004 := rfl
  have haddr : exampleVars.addr = 0x121000 := rfl
  constructor
  . omega
  . omega
  . intro b hlo hhi
    rw [Hidden]
    omega
  . intro b hlo hhi
    rw [Hidden]
    omega
  . omega
  . intro b hb
    have hb : (0x121000 ≤ b ∧ b < 0x125810) ∨ (0x120004 ≤ b ∧ b < 0x120008) := hb
    rw [Hidden]
    omega

/--
A tick on the stack that the kernel boots with, then one on that of each task.
-/
def pairActivity : List Activity :=
  [0x1000, 0x7F00, 0x2F00].map fun esp => ⟨[(0x9000, 1)], { interrupted with esp }⟩

theorem outside_pairActivity : ∀ e ∈ pairActivity, e.Outside Hidden := by
  intro e he
  obtain ⟨esp, hesp, rfl⟩ := List.mem_map.mp he
  have hesp : esp = 0x1000 ∨ esp = 0x7F00 ∨ esp = 0x2F00 := by simpa using hesp
  constructor
  . intro p hp
    obtain rfl := List.mem_singleton.mp hp
    rw [Hidden]
    decide
  . simp only
    omega
  . refine ⟨by simp only; omega, fun b hlo hhi => ?_⟩
    rw [Hidden]
    simp only at hlo hhi
    omega

/--
Three ticks: both tasks are started, and the second one goes on.
-/
theorem machine_matches_pair
    : ∃ p s',
        Run.run Activity.tick (pairSched pairMem, none) pairActivity = some p
          ∧ Run.run (Activity.machine (fun _ => exampleVars.doPitInt symbols) symbols) { interrupted with mem := pairMem }
              pairActivity
              =
            some s'
          ∧ Matches symbols (exampleVars.image symbols) Hidden p s'
          ∧ p.1.currTask = some 1 := by
  obtain ⟨p, s', hrun, hmachine, hmatches⟩ :=
    @machine_matches (fun _ => exampleVars.doPitInt symbols) { interrupted with mem := pairMem } symbols
      (exampleVars.image symbols) Hidden (pairSched pairMem)
      (SchedVars.implements_doPitInt exampleVars symbols Hidden (by decide)) (pairSched_wellFormed pairMem)
      (stacksApart_pairSched pairMem) (layout_pairSched pairMem) represents_pairMem pairActivity outside_pairActivity
  refine ⟨p, s', hrun, hmachine, hmatches, ?_⟩
  have hcurr : (Run.run Activity.tick (pairSched pairMem, none) pairActivity).map (fun p => p.1.currTask)
      = some (some 1) := by
    decide +kernel
  rw [hrun, Option.map_some, Option.some.injEq] at hcurr
  exact hcurr

end Pair

end Isr
end Osproj
