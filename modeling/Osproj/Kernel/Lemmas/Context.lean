import Osproj.Kernel.Lemmas.RoundRobin
import Mathlib.Logic.Function.Basic

/-!
This module contains the contexts of tasks over a run of timer ticks: what a task had in its
registers and in its interrupt frame when it was preempted, and what it finds when it is selected
again. `switch_to` writes the frame of the incoming task over the frame of the outgoing one, so the
two agree in the runs where this write changes nothing.
-/

namespace Osproj
namespace Sched

structure Context where
  regs : SchedStack
  frame : InterruptStack
  deriving DecidableEq

structure Task where
  entry : Reg32
  stack : Nat

def Task.OnStack (task : Task) (a : Nat) : Prop :=
  task.stack ≤ a ∧ a + InterruptStack.size ≤ task.stack + PAGE_SIZE

def Task.newContext (task : Task) : Context where
  regs := newGenericStack
  frame := newIntStack task.entry

structure TaskSet where
  init : Task
  others : List Task
  length_lt : others.length < MAX_TASK
  disjoint : (init :: others).Pairwise
    (fun t u => t.stack + PAGE_SIZE ≤ u.stack ∨ u.stack + PAGE_SIZE ≤ t.stack)

namespace TaskSet

def all (ts : TaskSet) : List Task := ts.init :: ts.others

def start (ts : TaskSet) (mem : Memory) (workerStack : Nat) : Option Sched := do
  let s ← (boot mem).schedInit ts.init.entry ts.init.stack workerStack
  ts.others.foldlM (fun s t => s.newTss t.entry t.stack) s

end TaskSet

structure Tick where
  esp : Nat
  frame : InterruptStack
  regs : SchedStack

/--
A scheduler together with the context every task had when it was last preempted.
-/
structure Trace where
  sched : Sched
  preempted : Nat → Option Context

namespace Trace

def tick (tr : Trace) (t : Tick) : Option (Trace × Context) := do
  let curr ← tr.sched.tssList[tr.sched.currIndex]?
  let (s, regs) ← tr.sched.pitInt t.esp t.frame t.regs
  let preempted :=
    if curr.status = .running then
      Function.update tr.preempted tr.sched.currIndex (some ⟨t.regs, t.frame⟩)
    else
      tr.preempted
  return (⟨s, preempted⟩, ⟨regs, loadFrame s.mem s.espSwap⟩)

def step (tr : Trace) (t : Tick) : Option Trace := (tr.tick t).map Prod.fst

def expected (tr : Trace) (ts : TaskSet) : Option Context :=
  match tr.preempted tr.sched.currIndex with
  | some c => some c
  | none => ts.all[tr.sched.currIndex]?.map Task.newContext

/--
The interrupt frame of a running task is pushed on that task's own stack.
-/
def OnOwnStack (ts : TaskSet) (tr : Trace) (t : Tick) : Prop :=
  ∀ curr ∈ tr.sched.tssList[tr.sched.currIndex]?, curr.status = .running →
    ∀ task ∈ ts.all[tr.sched.currIndex]?, task.OnStack t.esp

instance (ts : TaskSet) (tr : Trace) (t : Tick) : Decidable (tr.OnOwnStack ts t) := by
  unfold OnOwnStack Task.OnStack
  infer_instance

/--
The next task never ran, or is the one that is interrupted, or was preempted with the very
interrupt frame that is pushed now.
-/
def SwitchOk (tr : Trace) (t : Tick) : Prop :=
  ∀ next ∈ tr.sched.tssList[tr.sched.nextIndex]?,
    next.status = .new ∨ tr.sched.nextIndex = tr.sched.currIndex ∨ next.intStack = t.frame

instance (tr : Trace) (t : Tick) : Decidable (tr.SwitchOk t) := by
  unfold SwitchOk
  infer_instance

theorem expected_of_some {ts : TaskSet} {tr : Trace} {c : Context}
    (h : tr.preempted tr.sched.currIndex = some c)
    : tr.expected ts = some c := by
  simp [expected, h]

theorem expected_of_none {ts : TaskSet} {tr : Trace} {task : Task}
    (h : tr.preempted tr.sched.currIndex = none) (htask : ts.all[tr.sched.currIndex]? = some task)
    : tr.expected ts = some task.newContext := by
  simp [expected, h, htask]

/--
Every task that waits for the processor has its context in the table, and its interrupt frame on
its stack if it ran before.
-/
structure Intact (ts : TaskSet) (tr : Trace) : Prop where
  wellFormed : tr.sched.WellFormed
  used_eq : tr.sched.usedIndex = ts.all.length
  phase : (∃ t, tr.sched.tssList[tr.sched.currIndex]? = some t ∧ t.status = .running)
    ∨ ∀ (i : Nat) (t : TaskStruct), i < tr.sched.usedIndex → tr.sched.tssList[i]? = some t →
        t.status = .new
  new : ∀ (i : Nat) (t : TaskStruct) (task : Task), tr.sched.tssList[i]? = some t →
    ts.all[i]? = some task → t.status = .new →
      t.kernelStack = task.stack + 0xfff ∧ t.intStack = newIntStack task.entry
        ∧ t.genericStack = newGenericStack ∧ tr.preempted i = none
  runnable : ∀ (i : Nat) (t : TaskStruct) (task : Task), tr.sched.tssList[i]? = some t →
    ts.all[i]? = some task → t.status = .runnable →
      task.OnStack t.kernelStack ∧ tr.preempted i = some ⟨t.genericStack, t.intStack⟩
        ∧ loadFrame tr.sched.mem t.kernelStack = t.intStack

end Trace

theorem TaskSet.apart (ts : TaskSet) {i j : Nat} {t u : Task} (ht : ts.all[i]? = some t)
    (hu : ts.all[j]? = some u) (hne : i ≠ j) {a b : Nat} (ha : t.OnStack a) (hb : u.OnStack b)
    : a + 12 ≤ b ∨ b + 12 ≤ a := by
  obtain ⟨hi, rfl⟩ := List.getElem?_eq_some_iff.mp ht
  obtain ⟨hj, rfl⟩ := List.getElem?_eq_some_iff.mp hu
  have hpair := List.pairwise_iff_getElem.mp ts.disjoint
  have hapart : ts.all[i].stack + PAGE_SIZE ≤ ts.all[j].stack
      ∨ ts.all[j].stack + PAGE_SIZE ≤ ts.all[i].stack := by
    rcases Nat.lt_or_gt_of_ne hne with hlt | hlt
    . exact hpair i j hi hj hlt
    . exact (hpair j i hj hi hlt).symm
  simp only [Task.OnStack, InterruptStack.size, PAGE_SIZE] at *
  omega

theorem outgoing_of_new {s : Sched} {stackFrame : SchedStack} {last : TaskStruct}
    (h : last.status = .new)
    : s.outgoing stackFrame last = last := by
  simp [outgoing, h]

theorem outgoing_of_ne_new {s : Sched} {stackFrame : SchedStack} {last : TaskStruct}
    (h : last.status ≠ .new)
    : s.outgoing stackFrame last
        =
      { last with
        intStack := loadFrame s.mem s.espSwap
        genericStack := stackFrame
        kernelStack := s.espSwap
        status := .runnable } := by
  simp [outgoing, h]

namespace Trace

def interrupted (tr : Trace) (t : Tick) : Sched :=
  { tr.sched with mem := storeFrame tr.sched.mem t.esp t.frame, espSwap := t.esp }

def recorded (tr : Trace) (t : Tick) (last : TaskStruct) : Nat → Option Context :=
  if last.status = .running then
    Function.update tr.preempted tr.sched.currIndex (some ⟨t.regs, t.frame⟩)
  else
    tr.preempted

theorem recorded_of_ne {tr : Trace} {t : Tick} {last : TaskStruct} {i : Nat}
    (h : i ≠ tr.sched.currIndex)
    : tr.recorded t last i = tr.preempted i := by
  unfold recorded
  split
  . exact Function.update_of_ne h _ _
  . rfl

theorem recorded_self {tr : Trace} {t : Tick} {last : TaskStruct} (h : last.status = .running)
    : tr.recorded t last tr.sched.currIndex = some ⟨t.regs, t.frame⟩ := by
  simp [recorded, h]

namespace Intact

variable {ts : TaskSet} {tr : Trace} (h : Intact ts tr) (t : Tick)
include h

theorem interrupted_wellFormed : (tr.interrupted t).WellFormed :=
  h.wellFormed.of_pid_eq rfl rfl rfl h.wellFormed.curr_lt (fun _ u hu => ⟨u, hu, rfl⟩)
    h.wellFormed.status

theorem status_last {last : TaskStruct} (hlast : tr.sched.tssList[tr.sched.currIndex]? = some last)
    (hne : last.status ≠ .new)
    : last.status = .running := by
  rcases h.phase with ⟨u, hu, hrun⟩ | hnew
  . rw [hlast, Option.some.injEq] at hu
    exact hu ▸ hrun
  . exact absurd (hnew _ last h.wellFormed.curr_lt hlast) hne

theorem exists_task {i : Nat} (hi : i < tr.sched.usedIndex) : ∃ task, ts.all[i]? = some task := by
  rw [h.used_eq] at hi
  exact ⟨_, List.getElem?_eq_getElem hi⟩

theorem switched {last curr : TaskStruct}
    (hlast : (tr.interrupted t).tssList[(tr.interrupted t).currIndex]? = some last)
    (hcurr : ((tr.interrupted t).savedList t.regs last)[(tr.interrupted t).nextIndex]? = some curr)
    (hown : tr.OnOwnStack ts t) (kernelStack : Nat) (mem : Memory) (espSwap : Nat)
    (hout : last.status = .running → tr.sched.currIndex ≠ tr.sched.nextIndex →
      loadFrame mem t.esp = t.frame)
    (hmem : ∀ (i : Nat) (u : TaskStruct) (task : Task), i ≠ tr.sched.currIndex →
      i ≠ tr.sched.nextIndex → tr.sched.tssList[i]? = some u → ts.all[i]? = some task →
      u.status = .runnable → task.OnStack u.kernelStack →
        loadFrame mem u.kernelStack = loadFrame tr.sched.mem u.kernelStack)
    : Intact ts
        ⟨(tr.interrupted t).switched t.regs last curr kernelStack mem espSwap,
          tr.recorded t last⟩ := by
  have hwf := h.interrupted_wellFormed t
  constructor
  case wellFormed => exact switched_wellFormed hwf hlast hcurr kernelStack mem espSwap
  case used_eq => exact h.used_eq
  case phase => exact Or.inl (switched_oneRunning hwf hlast hcurr kernelStack mem espSwap).running
  case new =>
    intro i u task hu htask hnew
    rw [getElem?_switched hcurr] at hu
    split at hu
    . simp only [Option.some.injEq] at hu
      simp [← hu] at hnew
    . rw [getElem?_savedList t.regs hlast] at hu
      split at hu
      . next heq =>
        subst heq
        simp only [Option.some.injEq] at hu
        by_cases hlnew : last.status = .new
        . rw [outgoing_of_new hlnew] at hu
          subst hu
          simpa [recorded, hlnew] using h.new _ last task hlast htask hnew
        . rw [outgoing_of_ne_new hlnew] at hu
          simp [← hu] at hnew
      . next hne =>
        obtain ⟨hstack, hint, hgeneric, hrec⟩ := h.new i u task hu htask hnew
        exact ⟨hstack, hint, hgeneric, (recorded_of_ne hne).trans hrec⟩
  case runnable =>
    intro i u task hu htask hrunnable
    rw [getElem?_switched hcurr] at hu
    split at hu
    . simp only [Option.some.injEq] at hu
      simp [← hu] at hrunnable
    . next hnext =>
      rw [getElem?_savedList t.regs hlast] at hu
      split at hu
      . next heq =>
        subst heq
        simp only [Option.some.injEq] at hu
        by_cases hlnew : last.status = .new
        . rw [outgoing_of_new hlnew] at hu
          simp [← hu, hlnew] at hrunnable
        . have hrun := h.status_last hlast hlnew
          rw [outgoing_of_ne_new hlnew] at hu
          subst hu
          refine ⟨hown last hlast hrun task htask, ?_, ?_⟩
          . simpa [interrupted] using recorded_self hrun
          . simpa [interrupted, Sched.switched] using hout hrun hnext
      . next hne =>
        obtain ⟨hon, hrec, hload⟩ := h.runnable i u task hu htask hrunnable
        refine ⟨hon, (recorded_of_ne hne).trans hrec, ?_⟩
        rw [← hload]
        exact hmem i u task hne hnext hu htask hrunnable hon

omit h in
theorem tick_eq {last : TaskStruct}
    (hlast : tr.sched.tssList[tr.sched.currIndex]? = some last) {s' : Sched} {regs : SchedStack}
    (hs' : (tr.interrupted t).doSched t.regs = some (s', regs))
    : tr.tick t
        =
      some (⟨s', tr.recorded t last⟩, ⟨regs, loadFrame s'.mem s'.espSwap⟩) := by
  have hpit : tr.sched.pitInt t.esp t.frame t.regs = some (s', regs) := hs'
  unfold tick
  rw [hlast, Option.bind_eq_bind, Option.bind_some, hpit]
  rfl

theorem index_lt {i : Nat} {task : Task} (htask : ts.all[i]? = some task)
    : i < tr.sched.usedIndex := by
  rw [h.used_eq]
  exact (List.getElem?_eq_some_iff.mp htask).1

theorem running_of_runnable {last u : TaskStruct} {i : Nat} {task : Task}
    (hlast : tr.sched.tssList[tr.sched.currIndex]? = some last)
    (hu : tr.sched.tssList[i]? = some u) (htask : ts.all[i]? = some task)
    (hrunnable : u.status = .runnable)
    : last.status = .running := by
  apply h.status_last hlast
  intro hnew
  rcases h.phase with ⟨v, hv, hrun⟩ | hall
  . rw [hlast, Option.some.injEq] at hv
    simp [← hv, hnew] at hrun
  . have := hall i u (h.index_lt htask) hu
    simp [hrunnable] at this

theorem loadFrame_interrupted {last u : TaskStruct} {i : Nat} {task : Task}
    (hown : tr.OnOwnStack ts t) (hlast : tr.sched.tssList[tr.sched.currIndex]? = some last)
    (hne : i ≠ tr.sched.currIndex) (hu : tr.sched.tssList[i]? = some u)
    (htask : ts.all[i]? = some task) (hrunnable : u.status = .runnable)
    (hon : task.OnStack u.kernelStack) (f : InterruptStack)
    : loadFrame (storeFrame tr.sched.mem t.esp f) u.kernelStack
        =
      loadFrame tr.sched.mem u.kernelStack := by
  have hrun := h.running_of_runnable hlast hu htask hrunnable
  obtain ⟨task', htask'⟩ := h.exists_task h.wellFormed.curr_lt
  apply loadFrame_storeFrame_of_disjoint
  exact (ts.apart htask htask' hne hon (hown last hlast hrun task' htask')).symm

theorem tick_new {last curr : TaskStruct} (hown : tr.OnOwnStack ts t)
    (hlast : tr.sched.tssList[tr.sched.currIndex]? = some last)
    (hcurr : ((tr.interrupted t).savedList t.regs last)[(tr.interrupted t).nextIndex]? = some curr)
    (hnew : curr.status = .new)
    : ∃ tr' found, tr.tick t = some (tr', found) ∧ Intact ts tr'
        ∧ tr'.expected ts = some found := by
  have hwf := h.interrupted_wellFormed t
  have hlast' : (tr.interrupted t).tssList[(tr.interrupted t).currIndex]? = some last := hlast
  obtain ⟨task, htask⟩ := h.exists_task h.wellFormed.nextIndex_lt
  obtain ⟨task', htask'⟩ := h.exists_task h.wellFormed.curr_lt
  -- the outgoing task is runnable or never ran, so the slot of `curr` was not touched
  have htab : tr.sched.tssList[tr.sched.nextIndex]? = some curr
      ∧ (tr.sched.nextIndex = tr.sched.currIndex → last.status = .new) := by
    have hcurr' := hcurr
    rw [getElem?_savedList t.regs hlast'] at hcurr'
    split at hcurr'
    . next heq =>
      change tr.sched.nextIndex = tr.sched.currIndex at heq
      simp only [Option.some.injEq] at hcurr'
      by_cases hlnew : last.status = .new
      . rw [outgoing_of_new hlnew] at hcurr'
        exact ⟨by rw [heq, hlast, hcurr'], fun _ => hlnew⟩
      . rw [outgoing_of_ne_new hlnew] at hcurr'
        simp [← hcurr'] at hnew
    . next hne => exact ⟨hcurr', fun heq => absurd heq hne⟩
  obtain ⟨hstack, hint, hgeneric, hrec⟩ := h.new _ curr task htab.1 htask hnew
  have hon : task.OnStack (curr.kernelStack - 12) := by
    simp only [Task.OnStack, InterruptStack.size, PAGE_SIZE]
    omega
  refine ⟨_, _, tick_eq t hlast (doSched_new hwf t.regs hlast hcurr hnew), ?_, ?_⟩
  . apply h.switched t hlast hcurr hown
    . intro hrun hne
      rw [loadFrame_storeFrame_of_disjoint]
      . exact loadFrame_storeFrame_self _ _ _
      . exact ts.apart htask htask' hne.symm hon (hown last hlast hrun task' htask')
    . intro i u tsk hne hnext hu htsk hrunnable honu
      rw [loadFrame_storeFrame_of_disjoint]
      . exact h.loadFrame_interrupted t hown hlast hne hu htsk hrunnable honu t.frame
      . exact ts.apart htask htsk (Ne.symm hnext) hon honu
  . have hnone : tr.recorded t last tr.sched.nextIndex = none := by
      by_cases heq : tr.sched.nextIndex = tr.sched.currIndex
      . simp [recorded, htab.2 heq, hrec]
      . rw [recorded_of_ne heq, hrec]
    rw [expected_of_none hnone htask]
    simp [Task.newContext, Sched.switched, hgeneric, hint]

theorem tick_runnable {last curr : TaskStruct} (hown : tr.OnOwnStack ts t) (hok : tr.SwitchOk t)
    (hlast : tr.sched.tssList[tr.sched.currIndex]? = some last)
    (hcurr : ((tr.interrupted t).savedList t.regs last)[(tr.interrupted t).nextIndex]? = some curr)
    (hrunnable : curr.status = .runnable)
    : ∃ tr' found, tr.tick t = some (tr', found) ∧ Intact ts tr'
        ∧ tr'.expected ts = some found := by
  have hwf := h.interrupted_wellFormed t
  have hlast' : (tr.interrupted t).tssList[(tr.interrupted t).currIndex]? = some last := hlast
  obtain ⟨task, htask⟩ := h.exists_task h.wellFormed.nextIndex_lt
  have hcurr' := hcurr
  rw [getElem?_savedList t.regs hlast'] at hcurr'
  -- either the interrupted task is selected again or another one that waited
  have hcases : (tr.sched.nextIndex = tr.sched.currIndex ∧ last.status = .running
        ∧ curr.intStack = t.frame ∧ curr.genericStack = t.regs ∧ curr.kernelStack = t.esp)
      ∨ (tr.sched.nextIndex ≠ tr.sched.currIndex
        ∧ tr.sched.tssList[tr.sched.nextIndex]? = some curr ∧ curr.intStack = t.frame) := by
    split at hcurr'
    . next heq =>
      simp only [Option.some.injEq] at hcurr'
      have hlnew : last.status ≠ .new := by
        intro hlnew
        rw [outgoing_of_new hlnew] at hcurr'
        simp [← hcurr', hlnew] at hrunnable
      rw [outgoing_of_ne_new hlnew] at hcurr'
      refine Or.inl ⟨heq, h.status_last hlast hlnew, ?_⟩
      subst hcurr'
      exact ⟨loadFrame_storeFrame_self _ _ _, rfl, rfl⟩
    . next hne =>
      refine Or.inr ⟨hne, hcurr', ?_⟩
      rcases hok curr hcurr' with hnew | heq | hframe
      . simp [hrunnable] at hnew
      . exact absurd heq hne
      . exact hframe
  have hframe : curr.intStack = t.frame := by
    rcases hcases with ⟨-, -, hframe, -⟩ | ⟨-, -, hframe⟩
    . exact hframe
    . exact hframe
  have hwaiting {i : Nat} {u : TaskStruct} {tsk : Task} (hne : i ≠ tr.sched.currIndex)
      (hu : tr.sched.tssList[i]? = some u) (htsk : ts.all[i]? = some tsk)
      (hr : u.status = .runnable) (hon : tsk.OnStack u.kernelStack)
      : loadFrame (storeFrame (tr.interrupted t).mem t.esp curr.intStack) u.kernelStack
          =
        loadFrame tr.sched.mem u.kernelStack := by
    have hpush := h.loadFrame_interrupted t hown hlast hne hu htsk hr hon t.frame
    have hrun := h.running_of_runnable hlast hu htsk hr
    obtain ⟨task', htask'⟩ := h.exists_task h.wellFormed.curr_lt
    rw [loadFrame_storeFrame_of_disjoint]
    . exact hpush
    . exact (ts.apart htsk htask' hne hon (hown last hlast hrun task' htask')).symm
  refine ⟨_, _, tick_eq t hlast (doSched_runnable hwf t.regs hlast hcurr hrunnable), ?_, ?_⟩
  . apply h.switched t hlast hcurr hown
    . intro _ _
      rw [← hframe]
      exact loadFrame_storeFrame_self _ _ _
    . intro i u tsk hne _ hu htsk hr hon
      exact hwaiting hne hu htsk hr hon
  . apply expected_of_some
    change tr.recorded t last tr.sched.nextIndex = some ⟨curr.genericStack,
      loadFrame (storeFrame (tr.interrupted t).mem t.esp curr.intStack) curr.kernelStack⟩
    rcases hcases with ⟨heq, hrun, -, hregs, hesp⟩ | ⟨hne, hu, -⟩
    . rw [heq, recorded_self hrun, hesp, hregs, loadFrame_storeFrame_self, hframe]
    . obtain ⟨hon, hrec, hload⟩ := h.runnable _ curr task hu htask hrunnable
      rw [recorded_of_ne hne, hrec, hwaiting hne hu htask hrunnable hon, hload]

/--
The step lemma: under the two conditions the selected task resumes with its own context, and every
waiting task keeps it.
-/
theorem tick_spec (hown : tr.OnOwnStack ts t) (hok : tr.SwitchOk t)
    : ∃ tr' found, tr.tick t = some (tr', found) ∧ Intact ts tr'
        ∧ tr'.expected ts = some found := by
  have hwf := h.interrupted_wellFormed t
  obtain ⟨last, hlast⟩ := hwf.exists_curr
  obtain ⟨curr, hcurr⟩ := hwf.exists_next t.regs last
  rcases hwf.status_incoming hlast hcurr with hnew | hrunnable
  . exact h.tick_new t hown hlast hcurr hnew
  . exact h.tick_runnable t hown hok hlast hcurr hrunnable

end Intact

end Trace

theorem foldlM_newTss_spec {s : Sched} (h : s.WellFormed) (done rest : List Task)
    (hused : s.usedIndex = done.length)
    (hdone : ∀ (i : Nat) (task : Task), done[i]? = some task →
      ∃ pid, s.tssList[i]? = some (newTask pid task.entry task.stack))
    (hroom : done.length + rest.length ≤ MAX_TASK)
    : ∃ s', rest.foldlM (fun s t => s.newTss t.entry t.stack) s = some s' ∧ s'.WellFormed
        ∧ s'.usedIndex = (done ++ rest).length
        ∧ ∀ (i : Nat) (task : Task), (done ++ rest)[i]? = some task →
            ∃ pid, s'.tssList[i]? = some (newTask pid task.entry task.stack) := by
  induction rest generalizing s done with
  | nil =>
    rw [List.append_nil]
    exact ⟨s, rfl, h, hused, hdone⟩
  | cons t rest ih =>
    simp only [List.length_cons] at hroom
    have hlt : s.usedIndex < MAX_TASK := by omega
    obtain ⟨s₁, hs₁, hwf, hused₁⟩ := newTss_wellFormed h t.entry t.stack hlt
    have hs₁' := hs₁
    rw [newTss_eq s t.entry t.stack hlt, Option.some.injEq] at hs₁'
    obtain ⟨old, hold⟩ := h.exists_task hlt
    have hdone₁ (i : Nat) (task : Task) (htask : (done ++ [t])[i]? = some task)
        : ∃ pid, s₁.tssList[i]? = some (newTask pid task.entry task.stack) := by
      rw [← hs₁', getElem?_set_of_getElem? hold, hused]
      by_cases hi : i = done.length
      . simp only [hi, List.getElem?_concat_length, Option.some.injEq] at htask
        exact ⟨s.nextPid, by rw [if_pos hi, htask]⟩
      . have hlti : i < done.length := by
          have := (List.getElem?_eq_some_iff.mp htask).1
          simp only [List.length_append, List.length_singleton] at this
          omega
        rw [List.getElem?_append_left hlti] at htask
        rw [if_neg hi]
        exact hdone i task htask
    obtain ⟨s', hs', hrest⟩ := ih hwf (done ++ [t]) (by simp [hused₁, hused]) hdone₁
      (by simp only [List.length_append, List.length_singleton]; omega)
    refine ⟨s', ?_, by simpa using hrest⟩
    rw [List.foldlM_cons, hs₁]
    exact hs'

theorem TaskSet.start_spec (ts : TaskSet) (mem : Memory) (workerStack : Nat)
    : ∃ s, ts.start mem workerStack = some s ∧ Trace.Intact ts ⟨s, fun _ => none⟩ := by
  have hlength := ts.length_lt
  have hinit (i : Nat) (task : Task) (htask : [ts.init][i]? = some task)
      : ∃ pid, (booted mem ts.init.entry ts.init.stack workerStack).tssList[i]?
          = some (newTask pid task.entry task.stack) := by
    have hi := (List.getElem?_eq_some_iff.mp htask).1
    simp only [List.length_singleton, Nat.lt_one_iff] at hi
    subst hi
    simp only [List.getElem?_cons_zero, Option.some.injEq] at htask
    subst htask
    exact ⟨1, rfl⟩
  obtain ⟨s, hs, hwf, hused, hnew⟩ := foldlM_newTss_spec
    (booted_wellFormed mem ts.init.entry ts.init.stack workerStack) [ts.init] ts.others rfl hinit
    (by simp only [List.length_singleton]; omega)
  have htask (i : Nat) (t : TaskStruct) (task : Task) (ht : s.tssList[i]? = some t)
      (htask : ts.all[i]? = some task)
      : ∃ pid, t = newTask pid task.entry task.stack := by
    obtain ⟨pid, hpid⟩ := hnew i task htask
    rw [ht, Option.some.injEq] at hpid
    exact ⟨pid, hpid⟩
  refine ⟨s, by rw [start, schedInit_eq]; exact hs, hwf, hused, Or.inr ?_, ?_, ?_⟩
  . intro i t hi ht
    rw [hused] at hi
    obtain ⟨pid, rfl⟩ := htask i t _ ht (List.getElem?_eq_getElem hi)
    rfl
  . intro i t task ht hi _
    obtain ⟨pid, rfl⟩ := htask i t task ht hi
    exact ⟨rfl, rfl, rfl, rfl⟩
  . intro i t task ht hi hrunnable
    obtain ⟨pid, rfl⟩ := htask i t task ht hi
    simp [newTask] at hrunnable

namespace TaskSet

def traceAfter (ts : TaskSet) (mem : Memory) (workerStack : Nat) (ticks : List Tick)
    : Option Trace := do
  let s ← ts.start mem workerStack
  Run.run Trace.step ⟨s, fun _ => none⟩ ticks

/--
What the task that the tick `t` selects after `ticks` should resume with and what it does resume
with.
-/
def resumed (ts : TaskSet) (mem : Memory) (workerStack : Nat) (ticks : List Tick) (t : Tick)
    : Option (Option Context × Context) := do
  let tr ← ts.traceAfter mem workerStack ticks
  let (tr, found) ← tr.tick t
  return (tr.expected ts, found)

def Ticks (ts : TaskSet) (mem : Memory) (workerStack : Nat) (ok : Trace → Tick → Prop)
    (ticks : List Tick) : Prop :=
  ∀ s ∈ ts.start mem workerStack, Run.Guarded Trace.step ok ⟨s, fun _ => none⟩ ticks

instance (ts : TaskSet) (mem : Memory) (workerStack : Nat) (ok : Trace → Tick → Prop)
    [∀ tr t, Decidable (ok tr t)] (ticks : List Tick)
    : Decidable (ts.Ticks mem workerStack ok ticks) := by
  unfold Ticks
  infer_instance

/--
In a run whose ticks all meet `SwitchOk`, a task that is selected finds the registers and the
interrupt frame it was preempted with, or the ones `new_tss` built if it never ran.
-/
theorem resumed_eq_expected (ts : TaskSet) (mem : Memory) (workerStack : Nat) (ticks : List Tick)
    (t : Tick)
    (h : ts.Ticks mem workerStack (fun tr t => tr.OnOwnStack ts t ∧ tr.SwitchOk t) (ticks ++ [t]))
    : ∃ c, ts.resumed mem workerStack ticks t = some (some c, c) := by
  obtain ⟨s, hs, hintact⟩ := ts.start_spec mem workerStack
  have hguard := h s hs
  have hstep (tr : Trace) (t : Tick) (hI : Trace.Intact ts tr)
      (hok : tr.OnOwnStack ts t ∧ tr.SwitchOk t)
      : ∃ tr', tr.step t = some tr' ∧ Trace.Intact ts tr' := by
    obtain ⟨tr', found, htick, hI', -⟩ := hI.tick_spec t hok.1 hok.2
    exact ⟨tr', by rw [Trace.step, htick]; rfl, hI'⟩
  obtain ⟨tr, hrun, htr⟩ := hguard.of_append.progress hstep hintact
  have hlast := (hguard.of_append_right hrun).1
  obtain ⟨tr', found, htick, -, hexpected⟩ := htr.tick_spec t hlast.1 hlast.2
  refine ⟨found, ?_⟩
  simp [resumed, traceAfter, hs, hrun, htick, hexpected]

def pair : TaskSet where
  init := ⟨0xC0101000, 0xC0300000⟩
  others := [⟨0xC0102000, 0xC0302000⟩]
  length_lt := by decide
  disjoint := by decide

theorem resumed_eq_expected_pair
    : ∃ c, pair.resumed ⟨fun _ => 0, []⟩ 0xC0304000
        [⟨0xC0100F00, .zero, .zero⟩, ⟨0xC0302F00, ⟨0xC0102010, 8, 0x202⟩, .zero⟩]
        ⟨0xC0300F00, ⟨0xC0102010, 8, 0x202⟩, { SchedStack.zero with eax := 7 }⟩ = some (some c, c) := by
  apply resumed_eq_expected
  decide +kernel

/--
Task 1 is interrupted at `0xC0102010`, task 0 at `0xC0101020`, task 1 again at `0xC0102030`: task 0
then resumes at `0xC0102010`.
-/
theorem resumed_ne_expected
    : ¬ ∀ (ts : TaskSet) (mem : Memory) (workerStack : Nat) (ticks : List Tick) (t : Tick),
        ts.Ticks mem workerStack (fun tr t => tr.OnOwnStack ts t) (ticks ++ [t])
          →
        ∃ c, ts.resumed mem workerStack ticks t = some (some c, c) := by
  intro h
  obtain ⟨c, hc⟩ := h pair ⟨fun _ => 0, []⟩ 0xC0304000
    [⟨0xC0100F00, .zero, .zero⟩, ⟨0xC0302F00, ⟨0xC0102010, 8, 0x202⟩, .zero⟩,
      ⟨0xC0300F00, ⟨0xC0101020, 8, 0x202⟩, .zero⟩]
    ⟨0xC0302E00, ⟨0xC0102030, 8, 0x202⟩, .zero⟩ (by decide +kernel)
  have hfound : pair.resumed ⟨fun _ => 0, []⟩ 0xC0304000
      [⟨0xC0100F00, .zero, .zero⟩, ⟨0xC0302F00, ⟨0xC0102010, 8, 0x202⟩, .zero⟩,
        ⟨0xC0300F00, ⟨0xC0101020, 8, 0x202⟩, .zero⟩]
      ⟨0xC0302E00, ⟨0xC0102030, 8, 0x202⟩, .zero⟩
        =
      some (some ⟨.zero, ⟨0xC0101020, 8, 0x202⟩⟩,
        ⟨.zero, ⟨0xC0102010, 8, 0x202⟩⟩) := by
    decide +kernel
  rw [hc] at hfound
  simp at hfound
  obtain ⟨h₁, h₂⟩ := hfound
  rw [h₁] at h₂
  exact absurd h₂ (by decide)

end TaskSet

end Sched
end Osproj
