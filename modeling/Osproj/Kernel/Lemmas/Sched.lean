import Osproj.Base.Run
import Osproj.Kernel.Impl.Sched

/-!
This module contains what one call of each scheduler function does. `doSched_new` and
`doSched_runnable` together describe a whole task switch, the other modules do not look into
`do_sched` again.
-/

namespace Osproj
namespace Sched

@[simp]
theorem loadFrame_storeFrame_self (m : Memory) (a : Nat) (f : InterruptStack)
    : loadFrame (storeFrame m a f) a = f := by
  have heip := f.eip.isLt
  have hcs := f.cs.isLt
  have heflags := f.eflags.isLt
  simp only [loadFrame, storeFrame]
  simp (disch := omega) only [Memory.loadWord_storeWord_of_disjoint,
    Memory.loadWord_storeWord_self]
  rw [Nat.mod_eq_of_lt heip, Nat.mod_eq_of_lt hcs, Nat.mod_eq_of_lt heflags]
  simp

theorem loadFrame_storeFrame_of_disjoint (m : Memory) (a b : Nat) (f : InterruptStack)
    (h : a + 12 ≤ b ∨ b + 12 ≤ a)
    : loadFrame (storeFrame m a f) b = loadFrame m b := by
  simp only [loadFrame, storeFrame]
  simp (disch := omega) only [Memory.loadWord_storeWord_of_disjoint]

def nextIndex (s : Sched) : Nat :=
  if s.currIndex + 1 = s.usedIndex then 0 else s.currIndex + 1

structure WellFormed (s : Sched) : Prop where
  length_eq : s.tssList.length = MAX_TASK
  used_le : s.usedIndex ≤ MAX_TASK
  curr_lt : s.currIndex < s.usedIndex
  pid_ne_zero_iff : ∀ (i : Nat) (t : TaskStruct), s.tssList[i]? = some t → (t.pid ≠ 0 ↔ i < s.usedIndex)
  pid_lt : ∀ (i : Nat) (t : TaskStruct), s.tssList[i]? = some t → t.pid < s.nextPid
  pid_inj : ∀ (i j : Nat) (t u : TaskStruct), s.tssList[i]? = some t → s.tssList[j]? = some u → t.pid ≠ 0 →
    t.pid = u.pid → i = j
  status : ∀ (i : Nat) (t : TaskStruct), s.tssList[i]? = some t → i < s.usedIndex →
    t.status = .new ∨ t.status = .runnable ∨ t.status = .running ∧ i = s.currIndex

def outgoing (s : Sched) (stackFrame : SchedStack) (last : TaskStruct) : TaskStruct :=
  if last.status = .new then
    last
  else
    { last with
      intStack := loadFrame s.mem s.espSwap
      genericStack := stackFrame
      kernelStack := s.espSwap
      status := .runnable }

def savedList (s : Sched) (stackFrame : SchedStack) (last : TaskStruct) : List TaskStruct :=
  s.tssList.set s.currIndex (s.outgoing stackFrame last)

def switched (s : Sched) (stackFrame : SchedStack) (last curr : TaskStruct) (kernelStack : Nat)
    (mem : Memory) (espSwap : Nat) : Sched :=
  { s with
    tssList := (s.savedList stackFrame last).set s.nextIndex
      { curr with kernelStack := kernelStack, status := .running }
    mem := mem
    espSwap := espSwap
    currIndex := s.nextIndex
    currTask := some s.nextIndex }

theorem getElem?_set_of_getElem? {α : Type} {l : List α} {i : Nat} {a : α} (h : l[i]? = some a)
    (b : α) (j : Nat)
    : (l.set i b)[j]? = if j = i then some b else l[j]? := by
  obtain ⟨hlength, -⟩ := List.getElem?_eq_some_iff.mp h
  rw [List.getElem?_set]
  by_cases hij : i = j
  . subst hij
    simp [hlength]
  . simp [hij, Ne.symm hij]

theorem getElem?_savedList {s : Sched} (stackFrame : SchedStack) {last : TaskStruct}
    (hlast : s.tssList[s.currIndex]? = some last) (i : Nat)
    : (s.savedList stackFrame last)[i]?
        =
      if i = s.currIndex then some (s.outgoing stackFrame last) else s.tssList[i]? := by
  unfold savedList
  rw [getElem?_set_of_getElem? hlast]

theorem getElem?_switched {s : Sched} {stackFrame : SchedStack} {last curr : TaskStruct}
    (hcurr : (s.savedList stackFrame last)[s.nextIndex]? = some curr) (kernelStack : Nat)
    (mem : Memory) (espSwap i : Nat)
    : (s.switched stackFrame last curr kernelStack mem espSwap).tssList[i]?
        =
      if i = s.nextIndex then
        some { curr with kernelStack := kernelStack, status := .running }
      else
        (s.savedList stackFrame last)[i]? := by
  simp only [switched]
  rw [getElem?_set_of_getElem? hcurr]

namespace WellFormed

variable {s : Sched} (h : s.WellFormed)
include h

theorem exists_task {i : Nat} (hi : i < MAX_TASK) : ∃ t, s.tssList[i]? = some t := by
  rw [← h.length_eq] at hi
  exact ⟨s.tssList[i], List.getElem?_eq_getElem hi⟩

theorem exists_curr : ∃ t, s.tssList[s.currIndex]? = some t :=
  h.exists_task (Nat.lt_of_lt_of_le h.curr_lt h.used_le)

theorem wraps_eq : s.wraps (s.currIndex + 1) = some (decide (s.currIndex + 1 = s.usedIndex)) := by
  have hcurr := h.curr_lt
  have hused := h.used_le
  unfold wraps
  split
  . have : s.currIndex + 1 = s.usedIndex := by simp only [MAX_TASK] at *; omega
    simp [this]
  . next hlt =>
    have hnext : s.currIndex + 1 < MAX_TASK := by
      simp only [MAX_TASK] at *
      omega
    obtain ⟨t, ht⟩ := h.exists_task hnext
    have hpid := h.pid_ne_zero_iff _ _ ht
    have : (t.pid == 0) = decide (s.currIndex + 1 = s.usedIndex) := by
      rw [Bool.eq_iff_iff]
      simp only [beq_iff_eq, decide_eq_true_eq]
      omega
    simp [ht, this]

theorem nextIndex_lt : s.nextIndex < s.usedIndex := by
  have := h.curr_lt
  unfold nextIndex
  split
  . omega
  . omega

theorem exists_next (stackFrame : SchedStack) (last : TaskStruct)
    : ∃ t, (s.savedList stackFrame last)[s.nextIndex]? = some t := by
  have hlt : s.nextIndex < (s.savedList stackFrame last).length := by
    simp only [savedList, List.length_set, h.length_eq]
    exact Nat.lt_of_lt_of_le h.nextIndex_lt h.used_le
  exact ⟨_, List.getElem?_eq_getElem hlt⟩

end WellFormed

section DoSched

variable {s : Sched} (h : s.WellFormed) (stackFrame : SchedStack) {last curr : TaskStruct}
include h

theorem doSched_eq_savedList (hlast : s.tssList[s.currIndex]? = some last)
    : s.doSched stackFrame
        =
      (do
        let s := { s with
          currIndex := s.nextIndex
          tssList := s.savedList stackFrame last }
        let curr ← s.tssList[s.currIndex]?
        let (s, stackFrame) ←
          if curr.status = .new then s.switchToNew s.currIndex else some (s, stackFrame)
        let curr ← s.tssList[s.currIndex]?
        let (s, stackFrame) ←
          if curr.status = .runnable then s.switchTo s.currIndex else some (s, stackFrame)
        let s ← s.setStatus s.currIndex .running
        return ({ s with currTask := some s.currIndex }, stackFrame)) := by
  have hwraps : Sched.wraps { s with currIndex := s.currIndex + 1 } (s.currIndex + 1) = _ :=
    h.wraps_eq
  obtain ⟨hlength, rfl⟩ := List.getElem?_eq_some_iff.mp hlast
  unfold doSched
  simp only [hwraps, Option.bind_eq_bind, Option.bind_some]
  by_cases hwrap : s.currIndex + 1 = s.usedIndex
  . by_cases hnew : (s.tssList[s.currIndex]).status = Status.new
    . simp [hwrap, hlength, hnew, savedList, outgoing, nextIndex]
    . simp [hwrap, hlength, hnew, savedList, outgoing, nextIndex, saveTo, setStatus, setTask]
  . by_cases hnew : (s.tssList[s.currIndex]).status = Status.new
    . simp [hwrap, hlength, hnew, savedList, outgoing, nextIndex]
    . simp [hwrap, hlength, hnew, savedList, outgoing, nextIndex, saveTo, setStatus, setTask]

theorem doSched_new (hlast : s.tssList[s.currIndex]? = some last)
    (hcurr : (s.savedList stackFrame last)[s.nextIndex]? = some curr) (hnew : curr.status = .new)
    : s.doSched stackFrame
        =
      some
        (s.switched stackFrame last curr (curr.kernelStack - 12)
          (storeFrame s.mem (curr.kernelStack - 12) curr.intStack) (curr.kernelStack - 12),
          curr.genericStack) := by
  rw [doSched_eq_savedList h stackFrame hlast]
  obtain ⟨hlength, rfl⟩ := List.getElem?_eq_some_iff.mp hcurr
  simp [hlength, hnew, switchToNew, setStatus, setTask, switched, InterruptStack.size]

theorem doSched_runnable (hlast : s.tssList[s.currIndex]? = some last)
    (hcurr : (s.savedList stackFrame last)[s.nextIndex]? = some curr)
    (hrunnable : curr.status = .runnable)
    : s.doSched stackFrame
        =
      some
        (s.switched stackFrame last curr curr.kernelStack
          (storeFrame s.mem s.espSwap curr.intStack) curr.kernelStack,
          curr.genericStack) := by
  rw [doSched_eq_savedList h stackFrame hlast]
  obtain ⟨hlength, rfl⟩ := List.getElem?_eq_some_iff.mp hcurr
  simp [hlength, hrunnable, switchTo, setStatus, setTask, switched]

end DoSched

end Sched
end Osproj
