import Osproj.Kernel.Lemmas.Sched
import Mathlib.Data.List.Nodup
import Mathlib.Data.List.Range

/-!
This module contains the index discipline of the scheduler: which slots are in use, where
`curr_index` may point, which task runs after a tick, and that round robin serves every task once
per round.
-/

namespace Osproj
namespace Sched

inductive Event where
  | create (entry : Reg32) (stack : Nat)
  | tick (esp : Nat) (frame : InterruptStack) (regs : SchedStack)

def step (s : Sched) : Event → Option Sched
  | .create entry stack => s.newTss entry stack
  | .tick esp frame regs => (s.pitInt esp frame regs).map Prod.fst

def Event.isCreate : Event → Bool
  | .create .. => true
  | .tick .. => false

structure OneRunning (s : Sched) : Prop where
  currTask_eq : s.currTask = some s.currIndex
  running : ∃ t, s.tssList[s.currIndex]? = some t ∧ t.status = .running
  others : ∀ (i : Nat) (t : TaskStruct), i < s.usedIndex → i ≠ s.currIndex →
    s.tssList[i]? = some t → t.status = .runnable ∨ t.status = .new

@[simp]
theorem pid_outgoing (s : Sched) (stackFrame : SchedStack) (last : TaskStruct)
    : (s.outgoing stackFrame last).pid = last.pid := by
  unfold outgoing
  split
  . rfl
  . rfl

theorem status_outgoing (s : Sched) (stackFrame : SchedStack) (last : TaskStruct)
    : (s.outgoing stackFrame last).status = .new
      ∨ (s.outgoing stackFrame last).status = .runnable := by
  unfold outgoing
  split
  . next hnew => exact Or.inl hnew
  . exact Or.inr rfl

namespace WellFormed

variable {s : Sched}

theorem of_pid_eq (h : s.WellFormed) {s' : Sched} (hlength : s'.tssList.length = s.tssList.length)
    (hused : s'.usedIndex = s.usedIndex) (hnext : s'.nextPid = s.nextPid)
    (hcurr : s'.currIndex < s'.usedIndex)
    (hpid : ∀ (i : Nat) (t' : TaskStruct), s'.tssList[i]? = some t' →
      ∃ t, s.tssList[i]? = some t ∧ t'.pid = t.pid)
    (hstatus : ∀ (i : Nat) (t : TaskStruct), s'.tssList[i]? = some t → i < s'.usedIndex →
      t.status = .new ∨ t.status = .runnable ∨ t.status = .running ∧ i = s'.currIndex)
    : s'.WellFormed where
  length_eq := by rw [hlength, h.length_eq]
  used_le := by rw [hused]; exact h.used_le
  curr_lt := hcurr
  pid_ne_zero_iff := by
    intro i t' ht'
    obtain ⟨t, ht, heq⟩ := hpid i t' ht'
    rw [heq, hused]
    exact h.pid_ne_zero_iff i t ht
  pid_lt := by
    intro i t' ht'
    obtain ⟨t, ht, heq⟩ := hpid i t' ht'
    rw [heq, hnext]
    exact h.pid_lt i t ht
  pid_inj := by
    intro i j t' u' ht' hu' hne heq
    obtain ⟨t, ht, htpid⟩ := hpid i t' ht'
    obtain ⟨u, hu, hupid⟩ := hpid j u' hu'
    exact h.pid_inj i j t u ht hu (htpid ▸ hne) (by rw [← htpid, ← hupid, heq])
  status := hstatus

theorem status_incoming (h : s.WellFormed) {stackFrame : SchedStack} {last curr : TaskStruct}
    (hlast : s.tssList[s.currIndex]? = some last)
    (hcurr : (s.savedList stackFrame last)[s.nextIndex]? = some curr)
    : curr.status = .new ∨ curr.status = .runnable := by
  rw [getElem?_savedList stackFrame hlast] at hcurr
  split at hcurr
  . simp only [Option.some.injEq] at hcurr
    rw [← hcurr]
    exact status_outgoing s stackFrame last
  . next hne =>
    have := h.status s.nextIndex curr hcurr h.nextIndex_lt
    simp only [hne, and_false, or_false] at this
    exact this

end WellFormed

section Switched

variable {s : Sched} (h : s.WellFormed) {stackFrame : SchedStack} {last curr : TaskStruct}
  (hlast : s.tssList[s.currIndex]? = some last)
  (hcurr : (s.savedList stackFrame last)[s.nextIndex]? = some curr)
  (kernelStack : Nat) (mem : Memory) (espSwap : Nat)
include h hlast hcurr

theorem switched_others (i : Nat) (t : TaskStruct) (hi : i < s.usedIndex) (hne : i ≠ s.nextIndex)
    (ht : (s.switched stackFrame last curr kernelStack mem espSwap).tssList[i]? = some t)
    : t.status = .runnable ∨ t.status = .new := by
  rw [getElem?_switched hcurr, if_neg hne, getElem?_savedList stackFrame hlast] at ht
  split at ht
  . simp only [Option.some.injEq] at ht
    rw [← ht]
    exact (status_outgoing s stackFrame last).symm
  . next hne' =>
    have := h.status i t ht hi
    simp only [hne', and_false, or_false] at this
    exact this.symm

theorem switched_oneRunning
    : (s.switched stackFrame last curr kernelStack mem espSwap).OneRunning where
  currTask_eq := rfl
  running := ⟨_, by rw [getElem?_switched hcurr]; exact if_pos rfl, rfl⟩
  others := switched_others h hlast hcurr kernelStack mem espSwap

omit h in
theorem switched_pid (i : Nat) (t' : TaskStruct)
    (ht' : (s.switched stackFrame last curr kernelStack mem espSwap).tssList[i]? = some t')
    : ∃ t, s.tssList[i]? = some t ∧ t'.pid = t.pid := by
  have hsaved (u : TaskStruct) (hu : (s.savedList stackFrame last)[i]? = some u)
      : ∃ t, s.tssList[i]? = some t ∧ u.pid = t.pid := by
    rw [getElem?_savedList stackFrame hlast] at hu
    split at hu
    . next heq =>
      simp only [Option.some.injEq] at hu
      exact ⟨last, by rw [heq, hlast], by rw [← hu, pid_outgoing]⟩
    . exact ⟨u, hu, rfl⟩
  rw [getElem?_switched hcurr] at ht'
  split at ht'
  . next heq =>
    simp only [Option.some.injEq] at ht'
    rw [← ht']
    exact hsaved curr (heq ▸ hcurr)
  . exact hsaved t' ht'

theorem switched_wellFormed
    : (s.switched stackFrame last curr kernelStack mem espSwap).WellFormed := by
  have hpid := switched_pid hlast hcurr kernelStack mem espSwap
  refine h.of_pid_eq ?_ rfl rfl h.nextIndex_lt hpid ?_
  . simp [switched, savedList]
  . intro i t ht hi
    by_cases hne : i = s.nextIndex
    . rw [getElem?_switched hcurr, if_pos hne, Option.some.injEq] at ht
      exact Or.inr (Or.inr ⟨by rw [← ht], hne⟩)
    . rcases switched_others h hlast hcurr kernelStack mem espSwap i t hi hne ht with hr | hn
      . exact Or.inr (Or.inl hr)
      . exact Or.inl hn

end Switched

theorem doSched_spec {s : Sched} (h : s.WellFormed) (stackFrame : SchedStack)
    : ∃ s' frame', s.doSched stackFrame = some (s', frame') ∧ s'.WellFormed ∧ s'.OneRunning
        ∧ s'.usedIndex = s.usedIndex ∧ s'.currIndex = s.nextIndex := by
  obtain ⟨last, hlast⟩ := h.exists_curr
  obtain ⟨curr, hcurr⟩ := h.exists_next stackFrame last
  rcases h.status_incoming hlast hcurr with hnew | hrunnable
  . refine ⟨_, _, doSched_new h stackFrame hlast hcurr hnew, ?_, ?_, rfl, rfl⟩
    . apply switched_wellFormed h hlast hcurr
    . apply switched_oneRunning h hlast hcurr
  . refine ⟨_, _, doSched_runnable h stackFrame hlast hcurr hrunnable, ?_, ?_, rfl, rfl⟩
    . apply switched_wellFormed h hlast hcurr
    . apply switched_oneRunning h hlast hcurr

/--
What `do_sched` can do: it switches to a new task or back to a runnable one.
-/
theorem doSched_cases {s s' : Sched} (h : s.WellFormed) {stackFrame frame' : SchedStack}
    (hstep : s.doSched stackFrame = some (s', frame'))
    : ∃ last curr, s.tssList[s.currIndex]? = some last ∧ (s.savedList stackFrame last)[s.nextIndex]? = some curr
        ∧ frame' = curr.genericStack
        ∧ (curr.status = .new
            ∧ s' = s.switched stackFrame last curr (curr.kernelStack - 12)
              (storeFrame s.mem (curr.kernelStack - 12) curr.intStack) (curr.kernelStack - 12)
          ∨ curr.status = .runnable
            ∧ s' = s.switched stackFrame last curr curr.kernelStack (storeFrame s.mem s.espSwap curr.intStack)
              curr.kernelStack) := by
  obtain ⟨last, hlast⟩ := h.exists_curr
  obtain ⟨curr, hcurr⟩ := h.exists_next stackFrame last
  refine ⟨last, curr, hlast, hcurr, ?_⟩
  rcases h.status_incoming hlast hcurr with hnew | hrunnable
  . rw [doSched_new h stackFrame hlast hcurr hnew, Option.some.injEq, Prod.mk.injEq] at hstep
    exact ⟨hstep.2.symm, Or.inl ⟨hnew, hstep.1.symm⟩⟩
  . rw [doSched_runnable h stackFrame hlast hcurr hrunnable, Option.some.injEq, Prod.mk.injEq] at hstep
    exact ⟨hstep.2.symm, Or.inr ⟨hrunnable, hstep.1.symm⟩⟩

theorem pitInt_spec {s : Sched} (h : s.WellFormed) (esp : Nat) (frame : InterruptStack)
    (regs : SchedStack)
    : ∃ s' regs', s.pitInt esp frame regs = some (s', regs') ∧ s'.WellFormed ∧ s'.OneRunning
        ∧ s'.usedIndex = s.usedIndex ∧ s'.currIndex = s.nextIndex := by
  apply doSched_spec
  exact h.of_pid_eq rfl rfl rfl h.curr_lt (fun _ t ht => ⟨t, ht, rfl⟩) h.status

theorem WellFormed.nextPid_pos {s : Sched} (h : s.WellFormed) : 0 < s.nextPid := by
  obtain ⟨t, ht⟩ := h.exists_curr
  exact Nat.zero_lt_of_lt (h.pid_lt s.currIndex t ht)

theorem newTss_eq (s : Sched) (entry : Reg32) (stack : Nat) (h : s.usedIndex < MAX_TASK)
    : s.newTss entry stack
        =
      some { s with
        tssList := s.tssList.set s.usedIndex (newTask s.nextPid entry stack)
        nextPid := s.nextPid + 1
        usedIndex := s.usedIndex + 1 } := by
  unfold newTss
  rw [if_neg (by simp only [MAX_TASK] at *; omega)]
  rfl

theorem newTss_wellFormed {s : Sched} (h : s.WellFormed) (entry : Reg32)
    (stack : Nat) (hlt : s.usedIndex < MAX_TASK)
    : ∃ s', s.newTss entry stack = some s' ∧ s'.WellFormed ∧ s'.usedIndex = s.usedIndex + 1 := by
  refine ⟨_, newTss_eq s entry stack hlt, ?_, rfl⟩
  have hpos := h.nextPid_pos
  obtain ⟨old, hold⟩ := h.exists_task hlt
  have hget := getElem?_set_of_getElem? hold (newTask s.nextPid entry stack)
  constructor
  case length_eq => simp [h.length_eq]
  case used_le => exact hlt
  case curr_lt => exact Nat.lt_succ_of_lt h.curr_lt
  case pid_ne_zero_iff =>
    intro i t ht
    rw [hget] at ht
    split at ht
    . next heq =>
      simp only [Option.some.injEq] at ht
      subst ht heq
      simp only [newTask]
      omega
    . next hne =>
      have := h.pid_ne_zero_iff i t ht
      simp only
      omega
  case pid_lt =>
    intro i t ht
    rw [hget] at ht
    split at ht
    . simp only [Option.some.injEq] at ht
      subst ht
      simp [newTask]
    . exact Nat.lt_succ_of_lt (h.pid_lt i t ht)
  case pid_inj =>
    intro i j t u ht hu hne heq
    rw [hget] at ht hu
    -- the new process id is larger than every one in the table
    split at ht
    . split at hu
      . simp_all
      . have := h.pid_lt j u hu
        simp only [Option.some.injEq] at ht
        subst ht
        simp only [newTask] at heq
        omega
    . split at hu
      . have := h.pid_lt i t ht
        simp only [Option.some.injEq] at hu
        subst hu
        simp only [newTask] at heq
        omega
      . exact h.pid_inj i j t u ht hu hne heq
  case status =>
    intro i t ht hi
    rw [hget] at ht
    split at ht
    . simp only [Option.some.injEq] at ht
      subst ht
      exact Or.inl rfl
    . simp only at hi
      exact h.status i t ht (by omega)

def booted (mem : Memory) (init : Reg32) (stack workerStack : Nat) : Sched where
  tssList := (List.replicate MAX_TASK .zero).set 0 (newTask 1 init stack)
  usedIndex := 1
  currIndex := 0
  nextPid := 2
  currTask := none
  workerStackTop := workerStack + 0xfff
  espSwap := 0
  mem := mem

theorem schedInit_eq (mem : Memory) (init : Reg32) (stack workerStack : Nat)
    : (boot mem).schedInit init stack workerStack = some (booted mem init stack workerStack) := by
  rfl

theorem booted_wellFormed (mem : Memory) (init : Reg32) (stack workerStack : Nat)
    : (booted mem init stack workerStack).WellFormed := by
  have hzero : (List.replicate MAX_TASK TaskStruct.zero)[0]? = some TaskStruct.zero := by
    rw [List.getElem?_replicate]
    exact if_pos (by decide)
  have hget (i : Nat) (t : TaskStruct) (ht : ((List.replicate MAX_TASK TaskStruct.zero).set 0
      (newTask 1 init stack))[i]? = some t)
      : i = 0 ∧ t = newTask 1 init stack ∨ 0 < i ∧ t = TaskStruct.zero := by
    rw [getElem?_set_of_getElem? hzero] at ht
    split at ht
    . next heq => exact Or.inl ⟨heq, by simpa using ht.symm⟩
    . next hne =>
      rw [List.getElem?_replicate] at ht
      split at ht
      . exact Or.inr ⟨by omega, by simpa using ht.symm⟩
      . contradiction
  constructor
  case length_eq => rw [booted, List.length_set, List.length_replicate]
  case used_le => exact Nat.one_le_of_lt (show 0 < MAX_TASK by decide)
  case curr_lt => exact Nat.zero_lt_one
  case pid_ne_zero_iff =>
    intro i t ht
    change _ ↔ i < 1
    rcases hget i t ht with ⟨rfl, rfl⟩ | ⟨hi, rfl⟩
    . simp [newTask]
    . simp only [TaskStruct.zero]
      omega
  case pid_lt =>
    intro i t ht
    change _ < 2
    rcases hget i t ht with ⟨-, rfl⟩ | ⟨-, rfl⟩
    . simp [newTask]
    . simp [TaskStruct.zero]
  case pid_inj =>
    intro i j t u ht hu hne heq
    rcases hget i t ht with ⟨rfl, rfl⟩ | ⟨-, rfl⟩
    . rcases hget j u hu with ⟨rfl, rfl⟩ | ⟨-, rfl⟩
      . rfl
      . simp [newTask, TaskStruct.zero] at heq
    . simp [TaskStruct.zero] at hne
  case status =>
    intro i t ht hi
    change i < 1 at hi
    rcases hget i t ht with ⟨-, rfl⟩ | ⟨hpos, rfl⟩
    . exact Or.inl rfl
    . omega

theorem run_spec {s : Sched} (h : s.WellFormed) (events : List Event)
    (hroom : s.usedIndex + events.countP Event.isCreate ≤ MAX_TASK)
    : ∃ s', Run.run step s events = some s' ∧ s'.WellFormed
        ∧ s'.usedIndex = s.usedIndex + events.countP Event.isCreate := by
  induction events generalizing s with
  | nil => exact ⟨s, rfl, h, rfl⟩
  | cons e es ih =>
    cases e with
    | create entry stack =>
      rw [List.countP_cons_of_pos (by simp [Event.isCreate])] at hroom ⊢
      obtain ⟨s₁, hs₁, hwf, hused⟩ := newTss_wellFormed h entry stack (by omega)
      obtain ⟨s', hs', hwf', hused'⟩ := ih hwf (by omega)
      refine ⟨s', by rw [Run.run_cons, step, hs₁]; exact hs', hwf', ?_⟩
      omega
    | tick esp frame regs =>
      rw [List.countP_cons_of_neg (by simp [Event.isCreate])] at hroom ⊢
      obtain ⟨s₁, _, hs₁, hwf, -, hused, -⟩ := pitInt_spec h esp frame regs
      obtain ⟨s', hs', hwf', hused'⟩ := ih hwf (by omega)
      refine ⟨s', by rw [Run.run_cons, step, hs₁]; exact hs', hwf', ?_⟩
      omega

def selected (s : Sched) : List Event → List Nat
  | [] => []
  | e :: es =>
    match s.step e with
    | some s' => s'.currIndex :: s'.selected es
    | none => []

theorem selected_eq {s : Sched} (h : s.WellFormed) (ticks : List Event)
    (hticks : ∀ e ∈ ticks, e.isCreate = false)
    : s.selected ticks
        =
      (List.range ticks.length).map (fun k => (s.currIndex + 1 + k) % s.usedIndex) := by
  induction ticks generalizing s with
  | nil => rfl
  | cons e es ih =>
    cases e with
    | create entry stack => simp [Event.isCreate] at hticks
    | tick esp frame regs =>
      obtain ⟨s', _, hs', hwf, -, hused, hcurr⟩ := pitInt_spec h esp frame regs
      have hlt := h.curr_lt
      have hnext : s.nextIndex = (s.currIndex + 1) % s.usedIndex := by
        unfold nextIndex
        split
        . next heq => rw [heq, Nat.mod_self]
        . rw [Nat.mod_eq_of_lt (by omega)]
      simp only [selected, step, hs', Option.map_some, List.length_cons, List.range_succ_eq_map,
        List.map_cons, List.map_map]
      rw [ih hwf (fun e he => hticks e (List.mem_cons_of_mem _ he)), hused, hcurr, hnext]
      congr 1
      apply List.map_congr_left
      intro k hk
      simp only [Function.comp_apply]
      rw [Nat.add_assoc, Nat.mod_add_mod]
      congr 1
      omega

theorem count_selected {s : Sched} (h : s.WellFormed) (ticks : List Event)
    (hticks : ∀ e ∈ ticks, e.isCreate = false) (hlength : ticks.length = s.usedIndex) (i : Nat)
    (hi : i < s.usedIndex)
    : (s.selected ticks).count i = 1 := by
  rw [selected_eq h ticks hticks, hlength]
  have hcurr := h.curr_lt
  apply List.count_eq_one_of_mem
  . apply List.Nodup.map_on
    . intro k hk l hl heq
      rw [List.mem_range] at hk hl
      have hmod (c : Nat) (hc : c < 2 * s.usedIndex)
          : c % s.usedIndex = if c < s.usedIndex then c else c - s.usedIndex := by
        split
        . next hlt => exact Nat.mod_eq_of_lt hlt
        . rw [Nat.mod_eq_sub_mod (by omega), Nat.mod_eq_of_lt (by omega)]
      rw [hmod _ (by omega), hmod _ (by omega)] at heq
      split at heq
      . split at heq
        . omega
        . omega
      . split at heq
        . omega
        . omega
    . exact List.nodup_range
  . rw [List.mem_map]
    by_cases hlt : s.currIndex < i
    . refine ⟨i - s.currIndex - 1, List.mem_range.mpr (by omega), ?_⟩
      rw [show s.currIndex + 1 + (i - s.currIndex - 1) = i by omega]
      exact Nat.mod_eq_of_lt hi
    . refine ⟨i + s.usedIndex - s.currIndex - 1, List.mem_range.mpr (by omega), ?_⟩
      rw [show s.currIndex + 1 + (i + s.usedIndex - s.currIndex - 1) = i + s.usedIndex by omega]
      rw [Nat.add_mod_right]
      exact Nat.mod_eq_of_lt hi

/--
Whatever the order of task creations and ticks after `sched_init`, as long as there are no more
than `MAX_TASK` tasks: no call panics or leaves the table, the used slots are exactly those with a
process id and no two of them share it, a tick leaves exactly one running task, and every round of
ticks selects every task once.
-/
theorem roundRobin (mem : Memory) (init : Reg32) (stack workerStack : Nat) (events : List Event)
    (hroom : 1 + events.countP Event.isCreate ≤ MAX_TASK)
    : ∃ s₀ s,
        (boot mem).schedInit init stack workerStack = some s₀
          ∧
        Run.run step s₀ events = some s
          ∧
        s.usedIndex = 1 + events.countP Event.isCreate
          ∧
        (∀ i < MAX_TASK, ∃ t, s.tssList[i]? = some t ∧ (t.pid ≠ 0 ↔ i < s.usedIndex))
          ∧
        (∀ (i j : Nat) (t u : TaskStruct), i < s.usedIndex → j < s.usedIndex →
          s.tssList[i]? = some t → s.tssList[j]? = some u → t.pid = u.pid → i = j)
          ∧
        s.currIndex < s.usedIndex
          ∧
        s.currIndex < MAX_TASK
          ∧
        (∀ earlier esp frame regs, events = earlier ++ [.tick esp frame regs] → s.OneRunning)
          ∧
        (∀ ticks : List Event, (∀ e ∈ ticks, e.isCreate = false) → ticks.length = s.usedIndex →
          ∀ i < s.usedIndex, (s.selected ticks).count i = 1) := by
  have hbooted := booted_wellFormed mem init stack workerStack
  obtain ⟨s, hs, hwf, hused⟩ := run_spec hbooted events hroom
  refine ⟨_, s, schedInit_eq mem init stack workerStack, hs, hused, ?_, ?_, hwf.curr_lt, ?_, ?_, ?_⟩
  . intro i hi
    obtain ⟨t, ht⟩ := hwf.exists_task hi
    exact ⟨t, ht, hwf.pid_ne_zero_iff i t ht⟩
  . intro i j t u hi _ ht hu heq
    exact hwf.pid_inj i j t u ht hu ((hwf.pid_ne_zero_iff i t ht).mpr hi) heq
  . exact Nat.lt_of_lt_of_le hwf.curr_lt hwf.used_le
  . rintro earlier esp frame regs rfl
    rw [List.countP_append] at hroom
    obtain ⟨r, hr, hwfr, -⟩ := run_spec hbooted earlier (show 1 + _ ≤ MAX_TASK by omega)
    obtain ⟨s', _, hs', -, hone, -⟩ := pitInt_spec hwfr esp frame regs
    rw [Run.run_append, hr] at hs
    simp only [Option.bind_some, Run.run_cons, step, hs', Option.map_some, Run.run_nil,
      Option.some.injEq] at hs
    exact hs ▸ hone
  . intro ticks hticks hlength i hi
    exact count_selected hwf ticks hticks hlength i hi

theorem roundRobin_of_one_creation
    : ∃ s₀ s,
        (boot ⟨fun _ => 0, []⟩).schedInit 0xC0101000 0xC0300000 0xC0301000 = some s₀
          ∧
        Run.run step s₀
          [.tick 0xC0100F00 .zero .zero, .create 0xC0102000 0xC0302000,
            .tick 0xC0300F00 .zero .zero] = some s
          ∧
        s.OneRunning := by
  obtain ⟨s₀, s, h₀, hs, -, -, -, -, -, hone, -⟩ := roundRobin ⟨fun _ => 0, []⟩ 0xC0101000
    0xC0300000 0xC0301000
    [.tick 0xC0100F00 .zero .zero, .create 0xC0102000 0xC0302000, .tick 0xC0300F00 .zero .zero]
    (by decide)
  exact ⟨s₀, s, h₀, hs, hone [_, _] _ _ _ rfl⟩

end Sched
end Osproj
