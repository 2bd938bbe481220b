import Osproj.Kernel.Impl.TaskTable
import Osproj.Kernel.Lemmas.PitInt

/-!
This module contains that `do_pit_int` on the variables in memory does what `do_sched` does to its state.
-/

namespace Osproj

open X86

namespace SchedVars

open Sched Isr

/--
A task that can be laid down in memory.
-/
structure Fits (t : TaskStruct) : Prop where
  pid : t.pid < 0x100000000
  kernelStack : t.kernelStack < 0x100000000
  pwd : t.pwd = none ∨ t.pwd = some "/"

section Words

variable {v : SchedVars} {m m' : Memory} {a : Nat}

theorem wordStatus_statusWord (status : Status) : wordStatus (statusWord status) = status := by
  cases status <;> rfl

theorem statusWord_lt (status : Status) : statusWord status < 0x100000000 := by
  cases status <;> decide

theorem loadHalf_eq_mod (m : Memory) (a : Nat) : m.loadHalf a = m.loadWord a % 0x10000 := by
  have hlt := Memory.loadHalf_lt m a
  rw [Memory.loadWord_eq_halves]
  omega

theorem loadHalf_eq_div (m : Memory) (a : Nat) : m.loadHalf (a + 2) = m.loadWord a / 0x10000 := by
  have hlt := Memory.loadHalf_lt m a
  rw [Memory.loadWord_eq_halves]
  omega

/--
The words `ws` lie at `a`.
-/
def WordsAt (m : Memory) (a : Nat) (ws : List Nat) : Prop := ∀ i w, ws[i]? = some w → m.loadWord (a + 4 * i) = w

theorem wordsAt_storeList (m : Memory) (a : Nat) {ws : List Nat} (h : ∀ w ∈ ws, w < 0x100000000)
    : WordsAt (m.storeList a ws) a ws := by
  intro i w hw
  rw [Memory.loadWord_storeList m a hw, Nat.mod_eq_of_lt (h w (List.mem_of_getElem? hw))]

theorem WordsAt.append_right {ws ws' : List Nat} (h : WordsAt m a (ws ++ ws')) : WordsAt m (a + 4 * ws.length) ws' := by
  intro i w hw
  have heq : a + 4 * ws.length + 4 * i = a + 4 * (ws.length + i) := by omega
  rw [heq]
  apply h
  rw [List.getElem?_append_right (Nat.le_add_right _ _), Nat.add_sub_cancel_left]
  exact hw

theorem WordsAt.append_left {ws ws' : List Nat} (h : WordsAt m a (ws ++ ws')) : WordsAt m a ws := by
  intro i w hw
  obtain ⟨hlt, -⟩ := List.getElem?_eq_some_iff.mp hw
  apply h
  rw [List.getElem?_append_left hlt]
  exact hw

theorem WordsAt.congr {ws : List Nat} (h : WordsAt m a ws)
    (hload : ∀ b, a ≤ b → b < a + 4 * ws.length → m'.load b = m.load b)
    : WordsAt m' a ws := by
  intro i w hw
  obtain ⟨hlt, -⟩ := List.getElem?_eq_some_iff.mp hw
  rw [← h i w hw]
  exact Memory.loadWord_congr _ _ _ (fun b hlo hhi => hload b (by omega) (by omega))

theorem loadFrame_of_wordsAt {f : InterruptStack} (h : WordsAt m a (frameWords f)) : loadFrame m a = f := by
  obtain ⟨eip, cs, eflags⟩ := f
  simp only [loadFrame, InterruptStack.mk.injEq]
  exact ⟨ofNat_loadWord (h 0 _ rfl), ofNat_loadWord (h 1 _ rfl), ofNat_loadWord (h 2 _ rfl)⟩

theorem loadStack_of_wordsAt {r : SchedStack} (h : WordsAt m a (stackWords r)) : loadStack m a = r := by
  have hword {b : Nat} {x : BitVec 32} := @ofNat_loadWord m b x
  have hlo {b : Nat} {x y : BitVec 16} (hb : m.loadWord b = x.toNat + 0x10000 * y.toNat)
      : BitVec.ofNat 16 (m.loadHalf b) = x := by
    have hx := x.isLt
    apply ofNat_loadHalf
    rw [loadHalf_eq_mod, hb]
    omega
  have hhi {b : Nat} {x y : BitVec 16} (hb : m.loadWord b = x.toNat + 0x10000 * y.toNat)
      : BitVec.ofNat 16 (m.loadHalf (b + 2)) = y := by
    have hx := x.isLt
    apply ofNat_loadHalf
    rw [loadHalf_eq_div, hb]
    omega
  obtain ⟨cr3, padding, ss, gs, fs, es, ds, ebp, edi, esi, edx, ecx, ebx, eax⟩ := r
  simp only [loadStack, SchedStack.mk.injEq]
  exact ⟨hword (h 0 _ rfl), hlo (h 1 _ rfl), hhi (h 1 _ rfl), hlo (h 2 _ rfl), hhi (h 2 _ rfl), hlo (h 3 _ rfl),
    hhi (h 3 _ rfl), hword (h 4 _ rfl), hword (h 5 _ rfl), hword (h 6 _ rfl), hword (h 7 _ rfl), hword (h 8 _ rfl),
    hword (h 9 _ rfl), hword (h 10 _ rfl)⟩

theorem stackWords_lt (r : SchedStack) : ∀ w ∈ stackWords r, w < 0x100000000 := by
  have hhalves (x y : BitVec 16) : x.toNat + 0x10000 * y.toNat < 0x100000000 := by
    have hx := x.isLt
    have hy := y.isLt
    omega
  simp only [stackWords, List.forall_mem_cons, List.not_mem_nil, false_implies, implies_true, and_true]
  refine ⟨r.cr3.isLt, hhalves .., hhalves .., hhalves .., r.ebp.isLt, r.edi.isLt, r.esi.isLt, r.edx.isLt, r.ecx.isLt,
    r.ebx.isLt, r.eax.isLt⟩

theorem frameWords_lt (f : InterruptStack) : ∀ w ∈ frameWords f, w < 0x100000000 := by
  simp only [frameWords, List.forall_mem_cons, List.not_mem_nil, false_implies, implies_true, and_true]
  exact ⟨f.eip.isLt, f.cs.isLt, f.eflags.isLt⟩

theorem loadTask_of_wordsAt {t : TaskStruct} (hfits : Fits t) (h : WordsAt m a (v.taskWords t)) : loadTask m a = t := by
  have hroot := v.root_pos
  have hframe : loadFrame m (a + 8) = t.intStack := loadFrame_of_wordsAt h.append_left.append_left.append_right
  have hstack : loadStack m (a + 20) = t.genericStack := loadStack_of_wordsAt h.append_left.append_right
  have hstatus : m.loadWord (a + 64) = statusWord t.status := h 16 _ rfl
  have hpwd : m.loadWord (a + 68) = t.pwd.elim 0 fun _ => v.root := h 17 _ rfl
  have hname : (if m.loadWord (a + 68) = 0 then none else some "/") = t.pwd := by
    rw [hpwd]
    cases hfits.pwd with
    | inl hnone => rw [hnone, Option.elim_none, if_pos rfl]
    | inr hsome => rw [hsome, Option.elim_some, if_neg (by omega)]
  have hpid : m.loadWord a = t.pid := h 0 _ rfl
  have hkernel : m.loadWord (a + 4) = t.kernelStack := h 1 _ rfl
  rw [loadTask, hpid, hkernel, hframe, hstack, hstatus, wordStatus_statusWord, hname]

theorem taskWords_lt {t : TaskStruct} (hfits : Fits t) : ∀ w ∈ v.taskWords t, w < 0x100000000 := by
  have hpwd : (t.pwd.elim 0 fun _ => v.root) < 0x100000000 := by
    cases t.pwd with
    | none => exact Nat.zero_lt_succ _
    | some _ => exact v.root_lt
  intro w hw
  simp only [taskWords, List.mem_append, List.mem_cons, List.not_mem_nil, or_false] at hw
  rcases hw with (((rfl | rfl) | hw) | hw) | rfl | rfl
  . exact hfits.pid
  . exact hfits.kernelStack
  . exact frameWords_lt t.intStack w hw
  . exact stackWords_lt t.genericStack w hw
  . exact statusWord_lt t.status
  . exact hpwd

theorem load_storeTasks_of_disjoint (m : Memory) {b : Nat} {ts : List TaskStruct}
    (h : b < a ∨ a + SIZEOF_TASK * ts.length ≤ b)
    : (v.storeTasks m a ts).load b = m.load b := by
  induction ts generalizing m a with
  | nil => rfl
  | cons t ts ih =>
    have hlength : (v.taskWords t).length = 18 := rfl
    rw [List.length_cons] at h
    simp only [SIZEOF_TASK] at h ih
    rw [storeTasks, SIZEOF_TASK, ih _ (by omega), Memory.load_storeList_of_disjoint _ (by omega)]

theorem loadTask_congr (h : ∀ b, a ≤ b → b < a + SIZEOF_TASK → m'.load b = m.load b)
    : loadTask m' a = loadTask m a := by
  simp only [SIZEOF_TASK] at h
  have hword (k : Nat) (hk : k ≤ 68) : m'.loadWord (a + k) = m.loadWord (a + k) :=
    Memory.loadWord_congr _ _ _ (fun b hlo hhi => h b (by omega) (by omega))
  have hpid := hword 0 (by omega)
  rw [Nat.add_zero] at hpid
  have hframe : loadFrame m' (a + 8) = loadFrame m (a + 8) :=
    loadFrame_congr (fun b hlo hhi => h b (by omega) (by omega))
  have hstack : loadStack m' (a + 20) = loadStack m (a + 20) :=
    loadStack_congr (fun b hlo hhi => h b (by omega) (by omega))
  simp only [loadTask, hpid, hframe, hstack, hword 4 (by omega), hword 64 (by omega), hword 68 (by omega)]

theorem loadTask_storeTasks (m : Memory) {ts : List TaskStruct} (hfits : ∀ t ∈ ts, Fits t) {i : Nat} {t : TaskStruct}
    (ht : ts[i]? = some t)
    : loadTask (v.storeTasks m a ts) (a + SIZEOF_TASK * i) = t := by
  induction ts generalizing m a i with
  | nil => simp at ht
  | cons u ts ih =>
    have hrest : ∀ t ∈ ts, Fits t := fun t ht => hfits t (List.mem_cons_of_mem u ht)
    cases i with
    | zero =>
      rw [List.getElem?_cons_zero, Option.some.injEq] at ht
      subst ht
      have hu := hfits u List.mem_cons_self
      have hfirst : loadTask (m.storeList a (v.taskWords u)) a = u :=
        loadTask_of_wordsAt hu (wordsAt_storeList m a (taskWords_lt hu))
      rw [storeTasks, Nat.mul_zero, Nat.add_zero]
      refine Eq.trans (loadTask_congr fun b _ hhi => ?_) hfirst
      exact load_storeTasks_of_disjoint _ (Or.inl hhi)
    | succ i =>
      rw [List.getElem?_cons_succ] at ht
      have heq : a + SIZEOF_TASK * (i + 1) = a + SIZEOF_TASK + SIZEOF_TASK * i := by
        rw [Nat.mul_succ]
        omega
      rw [storeTasks, heq]
      exact ih _ hrest ht

end Words

section Sched

variable {v : SchedVars} {sym : Symbols} {m m' : Memory} {s s' : Sched} {r regs' : SchedStack} {hidden : Nat → Prop}

/--
A state that can be laid down in memory.
-/
structure FitsSched (s : Sched) : Prop where
  length : s.tssList.length = MAX_TASK
  task : ∀ t ∈ s.tssList, Fits t
  usedIndex : s.usedIndex < 0x100000000
  currIndex : s.currIndex < 0x100000000
  nextPid : s.nextPid < 0x100000000
  currTask : ∀ i ∈ s.currTask, i < MAX_TASK

/--
The variables are those of `s`, but for the two that the stubs name.
-/
structure Holds (v : SchedVars) (sym : Symbols) (m : Memory) (s : Sched) : Prop where
  tssList : (v.loadSched sym m).tssList = s.tssList
  usedIndex : m.loadWord v.addr = s.usedIndex
  currIndex : m.loadWord (v.addr + 4) = s.currIndex
  nextPid : m.loadWord (v.addr + 8) = s.nextPid
  currTask : (v.loadSched sym m).currTask = s.currTask

theorem holds_storeSched (m : Memory) (hfits : FitsSched s) : v.Holds sym (v.storeSched m s) s := by
  have haddr := v.addr_le
  have htss : v.tssList = v.addr + 16 := rfl
  have hlength := hfits.length
  have hwords : WordsAt (v.storeSched m s) v.addr
      [s.usedIndex, s.currIndex, s.nextPid, s.currTask.elim 0 fun i => v.tssList + SIZEOF_TASK * i] := by
    apply wordsAt_storeList
    simp only [List.forall_mem_cons, List.not_mem_nil, false_implies, implies_true, and_true]
    refine ⟨hfits.usedIndex, hfits.currIndex, hfits.nextPid, ?_⟩
    cases hcurr : s.currTask with
    | none => exact Nat.zero_lt_succ _
    | some i =>
      have hi := hfits.currTask i hcurr
      simp only [Option.elim_some, SIZEOF_TASK, MAX_TASK] at hi ⊢
      omega
  have hptr : (v.storeSched m s).loadWord (v.addr + 12) = s.currTask.elim 0 fun i => v.tssList + SIZEOF_TASK * i :=
    hwords 3 _ rfl
  have hcurr : (v.loadSched sym (v.storeSched m s)).currTask = s.currTask := by
    simp only [loadSched, hptr]
    cases s.currTask with
    | none => rfl
    | some i =>
      rw [Option.elim_some, if_neg (by omega), Nat.add_sub_cancel_left, Nat.mul_div_cancel_left i (by decide)]
  have hlist : (v.loadSched sym (v.storeSched m s)).tssList = s.tssList := by
    apply List.ext_getElem?
    intro i
    simp only [loadSched, List.getElem?_map]
    by_cases hi : i < MAX_TASK
    . obtain ⟨t, ht⟩ : ∃ t, s.tssList[i]? = some t := ⟨_, List.getElem?_eq_getElem (hlength.symm ▸ hi)⟩
      rw [List.getElem?_eq_getElem (by rw [List.length_range]; exact hi), List.getElem_range, Option.map_some, ht,
        ← loadTask_storeTasks m hfits.task ht]
      apply congrArg some
      apply loadTask_congr
      intro b hlo _
      exact Memory.load_storeList_of_disjoint _ (Or.inr (by simp only [List.length_cons, List.length_nil]; omega))
    . rw [List.getElem?_eq_none (by rw [List.length_range]; omega), Option.map_none, List.getElem?_eq_none (by omega)]
  exact ⟨hlist, hwords 0 _ rfl, hwords 1 _ rfl, hwords 2 _ rfl, hcurr⟩

theorem Holds.congr (h : v.Holds sym m s) (hload : ∀ b, v.addr ≤ b → b < v.addr + 18448 → m'.load b = m.load b)
    : v.Holds sym m' s := by
  have htss : v.tssList = v.addr + 16 := rfl
  have hword (k : Nat) (hk : k ≤ 12) : m'.loadWord (v.addr + k) = m.loadWord (v.addr + k) :=
    Memory.loadWord_congr _ _ _ (fun b hlo hhi => hload b (by omega) (by omega))
  have hused := hword 0 (by omega)
  rw [Nat.add_zero] at hused
  have hlist : (v.loadSched sym m').tssList = (v.loadSched sym m).tssList := by
    simp only [loadSched]
    apply List.map_congr_left
    intro i hi
    have hlt : i < 256 := List.mem_range.mp hi
    apply loadTask_congr
    intro b hlo hhi
    simp only [SIZEOF_TASK] at hlo hhi
    exact hload b (by omega) (by omega)
  have hcurr : (v.loadSched sym m').currTask = (v.loadSched sym m).currTask := by
    simp only [loadSched, hword 12 (by omega)]
  exact ⟨hlist.trans h.tssList, hused.trans h.usedIndex, (hword 4 (by omega)).trans h.currIndex,
    (hword 8 (by omega)).trans h.nextPid, hcurr.trans h.currTask⟩

/--
What the variables look like does not depend on what they are apart from.
-/
def image (v : SchedVars) (sym : Symbols) : Image where
  vars := fun b => v.addr ≤ b ∧ b < v.addr + 18448
  holds := v.Holds sym
  congr := by
    intro m m' s s' hload heq h
    have h' : v.Holds sym m s' := by
      rw [← heq] at h
      exact ⟨h.tssList, h.usedIndex, h.currIndex, h.nextPid, h.currTask⟩
    exact h'.congr (fun b hlo hhi => hload b ⟨hlo, hhi⟩)

theorem Holds.fits (h : v.Holds sym m s) : ∀ t ∈ s.tssList, Fits t := by
  intro t ht
  rw [← h.tssList] at ht
  obtain ⟨i, -, rfl⟩ := List.mem_map.mp ht
  refine ⟨Memory.loadWord_lt _ _, Memory.loadWord_lt _ _, ?_⟩
  simp only [loadTask]
  split
  . exact Or.inl rfl
  . exact Or.inr rfl

/--
What `do_sched` leaves fits again.
-/
theorem fits_switched (hwf : s.WellFormed) (hfits : ∀ t ∈ s.tssList, Fits t) (hpid : s.nextPid < 0x100000000)
    (hswap : s.espSwap < 0x100000000) {last curr : TaskStruct} (hlast : s.tssList[s.currIndex]? = some last)
    (hcurr : (s.savedList r last)[s.nextIndex]? = some curr) {kernelStack : Nat} (hle : kernelStack ≤ curr.kernelStack)
    (mem : Memory)
    : FitsSched (s.switched r last curr kernelStack mem kernelStack) ∧ kernelStack < 0x100000000 := by
  have hsaved : ∀ t ∈ s.savedList r last, Fits t := by
    intro t ht
    cases List.mem_or_eq_of_mem_set ht with
    | inl hin => exact hfits t hin
    | inr heq =>
      have hlast := hfits last (List.mem_of_getElem? hlast)
      rw [heq, outgoing]
      split
      . exact hlast
      . exact ⟨hlast.pid, hswap, hlast.pwd⟩
  have hcurr := hsaved curr (List.mem_of_getElem? hcurr)
  have hkernel := hcurr.kernelStack
  have hused := hwf.used_le
  have hnext := hwf.nextIndex_lt
  simp only [MAX_TASK] at hused
  refine ⟨?_, by omega⟩
  constructor
  . simp only [switched, savedList, List.length_set, hwf.length_eq]
  . intro t ht
    cases List.mem_or_eq_of_mem_set ht with
    | inl hin => exact hsaved t hin
    | inr heq =>
      rw [heq]
      exact ⟨hcurr.pid, by simp only; omega, hcurr.pwd⟩
  . exact Nat.lt_of_le_of_lt hused (by decide)
  . simp only [switched]
    omega
  . exact hpid
  . intro i hi
    obtain rfl := Option.some.inj hi
    simp only [MAX_TASK]
    omega

/--
`do_sched` in a memory that differs in hidden bytes.
-/
theorem doSched_congr (hwf : s.WellFormed) (hstacks : StacksApart hidden s) (hswap : Room hidden s.espSwap)
    (hm : ∀ b, ¬ hidden b → m.load b = s.mem.load b) (hstep : s.doSched r = some (s', regs'))
    : ∃ m', { s with mem := m }.doSched r = some ({ s' with mem := m' }, regs')
        ∧ (∀ b, ¬ hidden b → m'.load b = s'.mem.load b)
        ∧ ∀ b, hidden b → m'.load b = m.load b := by
  obtain ⟨last, curr, hlast, hcurr, rfl, hcases⟩ := doSched_cases hwf hstep
  have hwf' : { s with mem := m }.WellFormed :=
    hwf.of_pid_eq rfl rfl rfl hwf.curr_lt (fun _ t ht => ⟨t, ht, rfl⟩) hwf.status
  have hframe : loadFrame m s.espSwap = loadFrame s.mem s.espSwap :=
    loadFrame_congr (fun b hlo hhi => hm b (hswap.2 b hlo hhi))
  have hsaved : { s with mem := m }.savedList r last = s.savedList r last := by
    simp only [savedList, outgoing, hframe]
  have hcurr' : ({ s with mem := m }.savedList r last)[s.nextIndex]? = some curr := by
    rw [hsaved]
    exact hcurr
  have hrooms := hstacks.savedList hswap hlast hcurr
  have hstore {a : Nat} (ha : Room hidden a) (f : InterruptStack)
      : (∀ b, ¬ hidden b → (storeFrame m a f).load b = (storeFrame s.mem a f).load b)
          ∧ ∀ b, hidden b → (storeFrame m a f).load b = m.load b := by
    constructor
    . intro b hb
      exact Memory.load_storeWord_congr (Memory.load_storeWord_congr (Memory.load_storeWord_congr (hm b hb) _ _) _ _) _ _
    . intro b hb
      have hout : b < a ∨ a + 12 ≤ b := by
        by_contra hin
        exact ha.2 b (by omega) (by omega) hb
      simp only [storeFrame]
      rw [Memory.load_storeWord_of_disjoint _ _ _ _ (by omega), Memory.load_storeWord_of_disjoint _ _ _ _ (by omega),
        Memory.load_storeWord_of_disjoint _ _ _ _ (by omega)]
  rcases hcases with ⟨hnew, rfl⟩ | ⟨hrunnable, rfl⟩
  . refine ⟨_, ?_, hstore (hrooms.1 hnew) curr.intStack⟩
    rw [doSched_new hwf' r hlast hcurr' hnew]
    simp only [switched, hsaved]
    rfl
  . refine ⟨_, ?_, hstore hswap curr.intStack⟩
    rw [doSched_runnable hwf' r hlast hcurr' hrunnable]
    simp only [switched, hsaved]
    rfl

theorem fits_doSched (hwf : s.WellFormed) (hfits : ∀ t ∈ s.tssList, Fits t) (hpid : s.nextPid < 0x100000000)
    (hswap : s.espSwap < 0x100000000) (hstep : s.doSched r = some (s', regs'))
    : FitsSched s' ∧ s'.espSwap < 0x100000000 ∧ s'.workerStackTop = s.workerStackTop := by
  obtain ⟨last, curr, hlast, hcurr, -, hcases⟩ := doSched_cases hwf hstep
  rcases hcases with ⟨-, rfl⟩ | ⟨-, rfl⟩
  . obtain ⟨hfits', hlt⟩ := fits_switched hwf hfits hpid hswap hlast hcurr (Nat.sub_le _ 12)
      (storeFrame s.mem (curr.kernelStack - 12) curr.intStack)
    exact ⟨hfits', hlt, rfl⟩
  . obtain ⟨hfits', hlt⟩ := fits_switched hwf hfits hpid hswap hlast hcurr (Nat.le_refl _)
      (storeFrame s.mem s.espSwap curr.intStack)
    exact ⟨hfits', hlt, rfl⟩

theorem loadSched_eq {c : Memory} (h : Represents sym (v.image sym) hidden c s)
    : v.loadSched sym c = { s with mem := c } := by
  have himage : v.Holds sym c s := h.image
  obtain ⟨tssList, usedIndex, currIndex, nextPid, currTask, workerStackTop, espSwap, mem⟩ := s
  have hlist := himage.tssList
  have hcurr := himage.currTask
  have hused := himage.usedIndex
  have hindex := himage.currIndex
  have hpid := himage.nextPid
  have htop := h.workerStackTop
  have hswap := h.espSwap
  simp only [loadSched] at hlist hcurr hused hindex hpid htop hswap ⊢
  simp only [hlist, hcurr, hused, hindex, hpid, htop, hswap]

theorem load_storeSched_of_disjoint (m : Memory) {b : Nat} (hlength : s.tssList.length = MAX_TASK)
    (h : b < v.addr ∨ v.addr + 18448 ≤ b)
    : (v.storeSched m s).load b = m.load b := by
  have htss : v.tssList = v.addr + 16 := rfl
  rw [storeSched, Memory.load_storeList_of_disjoint _ (by simp only [List.length_cons, List.length_nil]; omega)]
  apply load_storeTasks_of_disjoint
  rw [hlength]
  simp only [SIZEOF_TASK, MAX_TASK]
  omega

/--
`do_pit_int` on the variables in memory does what `do_sched` does, wherever these lie apart from those of the stubs.
-/
theorem implements_doPitInt (v : SchedVars) (sym : Symbols) (hidden : Nat → Prop)
    (htop : sym.worker_stack_top + 4 ≤ v.addr ∨ v.addr + 18448 ≤ sym.worker_stack_top)
    : Implements (fun _ => v.doPitInt sym) sym (v.image sym) hidden := by
  intro c s s' regs' hwf hstacks hroom hlayout hesp hptr hrep hstep
  have himage : v.Holds sym c.mem s := hrep.image
  have hpid : s.nextPid < 0x100000000 := himage.nextPid ▸ Memory.loadWord_lt _ _
  have hswap : s.espSwap < 0x100000000 := hrep.espSwap ▸ Memory.loadWord_lt _ _
  obtain ⟨hfits, hswap', htop'⟩ := fits_doSched hwf himage.fits hpid hswap hstep
  obtain ⟨m, hstep', hsame, hkept⟩ := doSched_congr hwf hstacks hroom hrep.mem hstep
  have hregs (b : Nat) (hb : b < s.workerStackTop - 44 ∨ s.workerStackTop ≤ b)
      : (((v.storeSched m s').storeWord sym.esp_swap s'.espSwap).storeList (s.workerStackTop - 44)
          (stackWords regs')).load b
        = ((v.storeSched m s').storeWord sym.esp_swap s'.espSwap).load b := by
    have hlength : (stackWords regs').length = 11 := rfl
    have hroom := hlayout.room
    exact Memory.load_storeList_of_disjoint _ (by omega)
  have hvars (b : Nat) (hlo : v.addr ≤ b) (hhi : b < v.addr + 18448) := hlayout.fixed b (Or.inl ⟨hlo, hhi⟩)
  have hfunction : v.doPitInt sym c
      = some { c with
          mem := ((v.storeSched m s').storeWord sym.esp_swap s'.espSwap).storeList (s.workerStackTop - 44)
            (stackWords regs') } := by
    rw [doPitInt, hptr, loadSched_eq hrep, hstep']
    rfl
  refine ⟨_, hfunction, rfl, ?_, ?_⟩
  . exact loadStack_of_wordsAt (wordsAt_storeList _ _ (stackWords_lt regs'))
  . constructor
    . intro b hb
      have hstack : b < s.workerStackTop - 44 ∨ s.workerStackTop ≤ b := by
        by_contra hin
        exact hb (hlayout.stack b (by omega) (by omega))
      have hesp : b < sym.esp_swap ∨ sym.esp_swap + 4 ≤ b := by
        by_contra hin
        exact hb (hlayout.swap b (by omega) (by omega))
      have hout : b < v.addr ∨ v.addr + 18448 ≤ b := by
        by_contra hin
        exact hb (hvars b (by omega) (by omega)).1
      rw [hregs b hstack, Memory.load_storeWord_of_disjoint _ _ _ _ hesp, load_storeSched_of_disjoint m hfits.length hout,
        hsame b hb]
    . have happart := hlayout.swap_apart
      rw [Memory.loadWord_congr _ _ _ (fun b hlo hhi => hregs b (by omega)), Memory.loadWord_storeWord_self,
        Nat.mod_eq_of_lt hswap']
    . refine Eq.trans ?_ (hrep.workerStackTop.trans htop'.symm)
      apply Memory.loadWord_congr
      intro b hlo hhi
      have hb := hlayout.fixed b (Or.inr ⟨hlo, hhi⟩)
      rw [hregs b (by omega), Memory.load_storeWord_of_disjoint _ _ _ _ (by omega),
        load_storeSched_of_disjoint m hfits.length (by omega), hkept b hb.1]
    . have hstored : v.Holds sym (v.storeSched m s') s' := holds_storeSched m hfits
      apply hstored.congr
      intro b hlo hhi
      have hb := hvars b hlo hhi
      rw [hregs b (by omega), Memory.load_storeWord_of_disjoint _ _ _ _ (by omega)]

end Sched

end SchedVars
end Osproj
