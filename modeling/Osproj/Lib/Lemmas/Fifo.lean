import Mathlib.Data.List.Infix
import Osproj.Base.Ring
import Osproj.Lib.Impl.Fifo

/-!
This module contains the queue behind a fifo. The elements always come out in order as long as one slot
stays free, but the status of an enqueue says whether the ring wraps, not whether it is full, and that of
a dequeue before the first enqueue is wrong.
-/

namespace Osproj

def Fifo.slots (fifo : Fifo) : Nat := fifo.size / fifo.dataSize

namespace FifoMem

def slot (s : FifoMem) (i : Nat) : List (BitVec 8) :=
  s.mem.loadBytes (s.fifo.data + i * s.fifo.dataSize) s.fifo.dataSize

structure Holds (s : FifoMem) (n j : Nat) (q : List (List (BitVec 8))) : Prop where
  slots_pos : 0 < n
  dataSize_pos : 0 < s.fifo.dataSize
  size_eq : s.fifo.size = n * s.fifo.dataSize
  start_eq : s.fifo.start = s.fifo.data + j % n * s.fifo.dataSize
  end_eq : s.fifo.endPtr = s.fifo.data + (j + q.length) % n * s.fifo.dataSize
  holds : Ring.Holds n s.slot j q

theorem rounded_eq {dataSize : Nat} (size : Nat) (hdata : 0 < dataSize)
    : size + (dataSize - size % dataSize) = (size / dataSize + 1) * dataSize := by
  have hdiv := Nat.div_add_mod size dataSize
  have hlt := Nat.mod_lt size hdata
  rw [Nat.add_mul, Nat.mul_comm]
  omega

theorem behind_slot_iff {data dataSize n i : Nat} (hdata : 0 < dataSize)
    : data + i * dataSize + dataSize ≥ data + n * dataSize ↔ n ≤ i + 1 := by
  rw [← Nat.mul_le_mul_right_iff hdata, Nat.add_mul]
  omega

theorem size_allocFifo {size dataSize : Nat} (data : Nat) (hdata : 0 < dataSize)
    (hsize : size < 0x100000000) (hslots : 1 ≤ (allocFifo size dataSize data).slots)
    : (allocFifo size dataSize data).size = (allocFifo size dataSize data).slots * dataSize := by
  have hdiv := Nat.div_add_mod size dataSize
  have hlt := Nat.mod_lt size hdata
  simp only [Fifo.slots, allocFifo] at hslots ⊢
  split
  . next hmod =>
    rw [if_pos hmod] at hslots
    by_cases hwrap : size + (dataSize - size % dataSize) < 0x100000000
    . rw [Nat.mod_eq_of_lt hwrap, rounded_eq size hdata, Nat.mul_div_cancel _ hdata]
    . -- what is left after a wrap is less than one element
      rw [Nat.div_eq_of_lt (by omega)] at hslots
      omega
  . next hmod =>
    rw [Nat.div_mul_cancel]
    exact Nat.dvd_of_mod_eq_zero (by omega)

theorem holds_allocFifo {size dataSize : Nat} (data : Nat) (mem : Memory) (hdata : 0 < dataSize)
    (hsize : size < 0x100000000) (hslots : 1 ≤ (allocFifo size dataSize data).slots)
    : Holds ⟨allocFifo size dataSize data, mem⟩ (allocFifo size dataSize data).slots 0 [] := by
  refine ⟨hslots, hdata, size_allocFifo data hdata hsize hslots, ?_, ?_, Ring.Holds.nil _ _ _⟩
  . simp [allocFifo]
  . simp [allocFifo]

section Step

variable {s : FifoMem} {n j : Nat} {q : List (List (BitVec 8))} {a : List (BitVec 8)}

@[simp]
theorem length_element (dataSize : Nat) (data : Nat → BitVec 8)
    : (element dataSize data).length = dataSize := by
  simp [element]

theorem step_pointer {p : Nat} (h : Holds s n j q) (i : Nat)
    (hp : p = s.fifo.data + i % n * s.fifo.dataSize)
    : (p + s.fifo.dataSize ≥ s.fifo.data + s.fifo.size ↔ i % n + 1 = n)
        ∧ (if p + s.fifo.dataSize ≥ s.fifo.data + s.fifo.size then s.fifo.data else p + s.fifo.dataSize)
          = s.fifo.data + (i + 1) % n * s.fifo.dataSize := by
  have hlt := Nat.mod_lt i h.slots_pos
  have hge : p + s.fifo.dataSize ≥ s.fifo.data + s.fifo.size ↔ n ≤ i % n + 1 := by
    rw [hp, h.size_eq]
    exact behind_slot_iff h.dataSize_pos
  refine ⟨by omega, ?_⟩
  rw [Ring.mod_succ h.slots_pos]
  by_cases hwrap : n ≤ i % n + 1
  . rw [if_pos (hge.mpr hwrap), if_pos hwrap]
    omega
  . rw [if_neg (fun h => hwrap (hge.mp h)), if_neg hwrap, Nat.add_mul]
    omega

theorem fifoEnqueue_eq (s : FifoMem) (data : Nat → BitVec 8)
    : s.fifoEnqueue data
        =
      (if s.fifo.endPtr + s.fifo.dataSize ≥ s.fifo.data + s.fifo.size then -1 else 0,
        {
          fifo := { s.fifo with
            dirty := 1
            endPtr :=
              if s.fifo.endPtr + s.fifo.dataSize ≥ s.fifo.data + s.fifo.size then s.fifo.data
              else s.fifo.endPtr + s.fifo.dataSize
          }
          mem := s.mem.storeBytes s.fifo.endPtr (element s.fifo.dataSize data)
        }) := by
  simp only [fifoEnqueue]
  split <;> rfl

theorem fifoDequeue_eq (h : ¬ (s.fifo.start = s.fifo.endPtr ∧ s.fifo.dirty = 1))
    : s.fifoDequeue
        =
      (0, s.mem.loadBytes s.fifo.start s.fifo.dataSize,
        { s with
          fifo := { s.fifo with
            start :=
              if s.fifo.start + s.fifo.dataSize ≥ s.fifo.data + s.fifo.size then s.fifo.data
              else s.fifo.start + s.fifo.dataSize
          }
        }) := by
  simp only [fifoDequeue]
  rw [if_neg h]
  split <;> rfl

theorem dirty_fifoEnqueue (s : FifoMem) (data : Nat → BitVec 8)
    : (s.fifoEnqueue data).2.fifo.dirty = 1 := by
  rw [fifoEnqueue_eq]

theorem dataSize_fifoEnqueue (s : FifoMem) (data : Nat → BitVec 8)
    : (s.fifoEnqueue data).2.fifo.dataSize = s.fifo.dataSize := by
  rw [fifoEnqueue_eq]

theorem enqueue_status (h : Holds s n j q) (data : Nat → BitVec 8)
    : (s.fifoEnqueue data).1 = if (j + q.length) % n + 1 = n then -1 else 0 := by
  have hpointer := (step_pointer h (j + q.length) h.end_eq).1
  simp only [fifoEnqueue_eq, hpointer]

theorem holds_fifoEnqueue (h : Holds s n j q) (data : Nat → BitVec 8) (hlength : q.length < n)
    : Holds (s.fifoEnqueue data).2 n j (q ++ [element s.fifo.dataSize data]) := by
  have hpointer := (step_pointer h (j + q.length) h.end_eq).2
  rw [fifoEnqueue_eq]
  refine ⟨h.slots_pos, h.dataSize_pos, h.size_eq, h.start_eq, ?_, ?_⟩
  . rw [List.length_append, List.length_singleton, ← Nat.add_assoc]
    exact hpointer
  . apply h.holds.push hlength
    . simp only [slot]
      have hload := Memory.loadBytes_storeBytes s.mem s.fifo.endPtr (element s.fifo.dataSize data)
      rw [length_element] at hload
      rw [← h.end_eq, hload]
    . intro i hi hne
      simp only [slot]
      apply Memory.loadBytes_storeBytes_of_disjoint
      rw [length_element, h.end_eq]
      rcases Nat.lt_or_gt_of_ne hne with hlt | hgt
      . have hmul := Nat.mul_le_mul_right s.fifo.dataSize hlt
        rw [Nat.succ_mul] at hmul
        omega
      . have hmul := Nat.mul_le_mul_right s.fifo.dataSize hgt
        rw [Nat.succ_mul] at hmul
        omega

theorem dequeue_nil (h : Holds s n j []) (hdirty : s.fifo.dirty = 1)
    : s.fifoDequeue = (-1, List.replicate s.fifo.dataSize 0, s) := by
  have hstart : s.fifo.start = s.fifo.endPtr := by
    rw [h.start_eq, h.end_eq]
    simp
  simp only [fifoDequeue]
  rw [if_pos ⟨hstart, hdirty⟩]

theorem dequeue_cons (h : Holds s n j (a :: q)) (hlength : (a :: q).length < n)
    : ∃ s', s.fifoDequeue = (0, a, s') ∧ Holds s' n (j + 1) q ∧ s'.fifo.dirty = s.fifo.dirty
        ∧ s'.fifo.dataSize = s.fifo.dataSize := by
  have hstart : s.fifo.start ≠ s.fifo.endPtr := by
    intro heq
    rw [h.start_eq, h.end_eq, Nat.add_left_cancel_iff, Nat.mul_left_inj h.dataSize_pos.ne'] at heq
    exact absurd ((Ring.add_mod_eq_iff hlength).mp heq.symm) (by simp)
  have hpointer := (step_pointer h j h.start_eq).2
  have hhead : s.mem.loadBytes s.fifo.start s.fifo.dataSize = a := by
    rw [h.start_eq]
    exact h.holds.head
  rw [fifoDequeue_eq (fun h => hstart h.1), hhead]
  refine ⟨_, rfl, ⟨h.slots_pos, h.dataSize_pos, h.size_eq, hpointer, ?_, h.holds.tail⟩, rfl, rfl⟩
  have hend := h.end_eq
  rw [List.length_cons] at hend
  rw [hend]
  congr 3
  omega

end Step

def pending (dataSize : Nat) : List (List (BitVec 8)) → List FifoOp → List (List (BitVec 8))
  | q, [] => q
  | q, .enqueue data :: ops => pending dataSize (q ++ [element dataSize data]) ops
  | q, .dequeue :: ops => pending dataSize q.tail ops

def enqueued (dataSize : Nat) : List FifoOp → List (List (BitVec 8))
  | [] => []
  | .enqueue data :: ops => element dataSize data :: enqueued dataSize ops
  | .dequeue :: ops => enqueued dataSize ops

def returned : List FifoResult → List (List (BitVec 8))
  | [] => []
  | .dequeued 0 buffer :: rs => buffer :: returned rs
  | _ :: rs => returned rs

/--
The results are those of a queue that holds `q`, whatever the enqueues return.
-/
inductive QueueResults (dataSize : Nat) : List (List (BitVec 8)) → List FifoOp → List FifoResult → Prop
  | nil (q : List (List (BitVec 8))) : QueueResults dataSize q [] []
  | enqueue {q : List (List (BitVec 8))} {ops : List FifoOp} {rs : List FifoResult}
      (data : Nat → BitVec 8) (status : Int)
      (h : QueueResults dataSize (q ++ [element dataSize data]) ops rs)
      : QueueResults dataSize q (.enqueue data :: ops) (.enqueued status :: rs)
  | dequeue {q : List (List (BitVec 8))} {ops : List FifoOp} {rs : List FifoResult}
      (a : List (BitVec 8)) (h : QueueResults dataSize q ops rs)
      : QueueResults dataSize (a :: q) (.dequeue :: ops) (.dequeued 0 a :: rs)
  | empty {ops : List FifoOp} {rs : List FifoResult} (h : QueueResults dataSize [] ops rs)
      : QueueResults dataSize [] (.dequeue :: ops)
          (.dequeued (-1) (List.replicate dataSize 0) :: rs)

theorem QueueResults.returned_append {dataSize : Nat} {q : List (List (BitVec 8))} {ops : List FifoOp}
    {rs : List FifoResult} (h : QueueResults dataSize q ops rs)
    : returned rs ++ pending dataSize q ops = q ++ enqueued dataSize ops := by
  induction h with
  | nil q => simp [returned, pending, enqueued]
  | enqueue data status _ ih => simpa [returned, pending, enqueued] using ih
  | dequeue a _ ih => simpa [returned, pending, enqueued] using ih
  | empty _ ih => simpa [returned, pending, enqueued] using ih

section Queue

variable {s : FifoMem} {n j : Nat} {q : List (List (BitVec 8))} {ops : List FifoOp}

theorem queueResults_run (h : Holds s n j q) (hdirty : s.fifo.dirty = 1)
    (hfew : ∀ ps, ps <+: ops → (pending s.fifo.dataSize q ps).length < n)
    : QueueResults s.fifo.dataSize q ops (s.run ops) := by
  induction ops generalizing s j q with
  | nil => exact .nil q
  | cons op ops ih =>
    have hlength : q.length < n := hfew [] List.nil_prefix
    cases op with
    | enqueue data =>
      have hdata := dataSize_fifoEnqueue s data
      rw [← hdata]
      apply QueueResults.enqueue
      rw [hdata]
      have hrest := ih (holds_fifoEnqueue h data hlength) (dirty_fifoEnqueue s data) (by
        intro ps hps
        rw [hdata]
        exact hfew (.enqueue data :: ps) (List.cons_prefix_cons.mpr ⟨rfl, hps⟩))
      rwa [hdata] at hrest
    | dequeue =>
      cases q with
      | nil =>
        have hdequeue := dequeue_nil h hdirty
        simp only [run, step, hdequeue]
        apply QueueResults.empty
        apply ih h hdirty
        intro ps hps
        exact hfew (.dequeue :: ps) (List.cons_prefix_cons.mpr ⟨rfl, hps⟩)
      | cons a q =>
        obtain ⟨s', hdequeue, h', hdirty', hdata⟩ := dequeue_cons h hlength
        simp only [run, step, hdequeue]
        apply QueueResults.dequeue
        rw [← hdata]
        apply ih h' (by rw [hdirty', hdirty])
        intro ps hps
        rw [hdata]
        exact hfew (.dequeue :: ps) (List.cons_prefix_cons.mpr ⟨rfl, hps⟩)

end Queue

/--
With a slot to spare, and something enqueued first, a fifo is a queue.
-/
theorem run_queueResults {size dataSize : Nat} (data : Nat) (mem : Memory) {ops : List FifoOp}
    (hdata : 0 < dataSize) (hsize : size < 0x100000000)
    (hslots : 2 ≤ (allocFifo size dataSize data).slots)
    (hfirst : ops.head? ≠ some .dequeue)
    (hfew : ∀ ps, ps <+: ops →
      (pending dataSize [] ps).length < (allocFifo size dataSize data).slots)
    : QueueResults dataSize [] ops ((⟨allocFifo size dataSize data, mem⟩ : FifoMem).run ops)
        ∧ returned ((⟨allocFifo size dataSize data, mem⟩ : FifoMem).run ops)
            ++ pending dataSize [] ops = enqueued dataSize ops := by
  have hresults : QueueResults dataSize [] ops ((⟨allocFifo size dataSize data, mem⟩ : FifoMem).run ops) := by
    have h := holds_allocFifo data mem hdata hsize (by omega)
    cases ops with
    | nil => exact .nil []
    | cons op ops =>
      cases op with
      | dequeue => exact absurd rfl hfirst
      | enqueue d =>
        apply QueueResults.enqueue
        -- from here on the ring is known to be in use
        have hlength : ([] : List (List (BitVec 8))).length < (allocFifo size dataSize data).slots := by
          rw [List.length_nil]
          omega
        have hrest := @queueResults_run _ _ _ _ ops (holds_fifoEnqueue h d hlength)
          (dirty_fifoEnqueue _ d)
        rw [dataSize_fifoEnqueue] at hrest
        apply hrest
        intro ps hps
        exact hfew (.enqueue d :: ps) (List.cons_prefix_cons.mpr ⟨rfl, hps⟩)
  exact ⟨hresults, by simpa using hresults.returned_append⟩

theorem run_queueResults_two
    : QueueResults 2 [] [.enqueue (fun _ => 7), .dequeue]
          ((⟨allocFifo 4 2 0xC0000000, ⟨fun _ => 0, []⟩⟩ : FifoMem).run
            [.enqueue (fun _ => 7), .dequeue])
        ∧ returned ((⟨allocFifo 4 2 0xC0000000, ⟨fun _ => 0, []⟩⟩ : FifoMem).run
            [.enqueue (fun _ => 7), .dequeue])
            ++ pending 2 [] [.enqueue (fun _ => 7), .dequeue]
          = enqueued 2 [.enqueue (fun _ => 7), .dequeue] := by
  apply run_queueResults 0xC0000000 ⟨fun _ => 0, []⟩ (by decide) (by decide) (by decide) (by simp)
  intro ps hps
  rw [← List.mem_inits] at hps
  simp only [List.inits, List.map_cons, List.map_nil, List.mem_cons, List.not_mem_nil, or_false] at hps
  rcases hps with rfl | rfl | rfl <;> decide

def isEnqueue : FifoOp → Bool
  | .enqueue _ => true
  | .dequeue => false

def Retrieves (s : FifoMem) (q : List (List (BitVec 8))) : Prop :=
  s.run (List.replicate q.length .dequeue) = q.map (.dequeued 0)

/--
The status of an operation tells that the fifo is empty or full, and a full fifo keeps what it has. `q`
is what is outstanding.
-/
def StatusOk (n : Nat) (s : FifoMem) (q : List (List (BitVec 8))) : FifoOp → Prop
  | .enqueue data =>
    ((s.fifoEnqueue data).1 = -1 ↔ q.length = n) ∧
      (q.length = n → Retrieves (s.fifoEnqueue data).2 q)
  | .dequeue => s.fifoDequeue.1 = -1 ↔ q = []

def outstanding (n dataSize : Nat) (q : List (List (BitVec 8))) : FifoOp → List (List (BitVec 8))
  | .enqueue data => if q.length = n then q else q ++ [element dataSize data]
  | .dequeue => q.tail

def StatusesOk (n : Nat) : FifoMem → List (List (BitVec 8)) → List FifoOp → Prop
  | _, _, [] => True
  | s, q, op :: ops =>
    StatusOk n s q op ∧ StatusesOk n (s.step op).2 (outstanding n s.fifo.dataSize q op) ops

section Status

variable {s : FifoMem} {n j : Nat} {q : List (List (BitVec 8))}

theorem statusOk_enqueue (h : Holds s n j q) (hlt : j + q.length < n) (data : Nat → BitVec 8)
    : StatusOk n s q (.enqueue data) ↔ j + q.length + 1 < n := by
  have hstatus := enqueue_status h data
  rw [Nat.mod_eq_of_lt hlt] at hstatus
  simp only [StatusOk, hstatus]
  constructor
  . rintro ⟨hiff, -⟩
    by_contra hwrap
    rw [if_pos (by omega)] at hiff
    have := hiff.mp rfl
    omega
  . intro hwrap
    rw [if_neg (by omega)]
    refine ⟨⟨fun h => absurd h (by decide), fun h => ?_⟩, fun h => ?_⟩
    . omega
    . omega

theorem statusesOk_iff (h : Holds s n j q) (hlt : j + q.length < n)
    (hdirty : s.fifo.dirty = if j + q.length = 0 then 0 else 1) (ops : List FifoOp)
    : StatusesOk n s q ops
        ↔
      (j + q.length = 0 → ops.head? ≠ some .dequeue) ∧ j + q.length + ops.countP isEnqueue < n := by
  induction ops generalizing s j q with
  | nil => simpa [StatusesOk] using hlt
  | cons op ops ih =>
    cases op with
    | enqueue data =>
      have hcount : (FifoOp.enqueue data :: ops).countP isEnqueue = ops.countP isEnqueue + 1 := by
        rw [List.countP_cons_of_pos rfl]
      have hpending : outstanding n s.fifo.dataSize q (.enqueue data)
          = q ++ [element s.fifo.dataSize data] := by
        simp only [outstanding]
        rw [if_neg (by omega)]
      simp only [StatusesOk, statusOk_enqueue h hlt, hpending, step, hcount]
      have hlength : (q ++ [element s.fifo.dataSize data]).length = q.length + 1 := by simp
      constructor
      . rintro ⟨hwrap, hrest⟩
        rw [ih (holds_fifoEnqueue h data (by omega)) (by omega) (by
          rw [dirty_fifoEnqueue, if_neg (by omega)])] at hrest
        exact ⟨by simp, by omega⟩
      . rintro ⟨-, hfew⟩
        refine ⟨by omega, ?_⟩
        rw [ih (holds_fifoEnqueue h data (by omega)) (by omega) (by
          rw [dirty_fifoEnqueue, if_neg (by omega)])]
        exact ⟨fun h => by omega, by omega⟩
    | dequeue =>
      have hcount : (FifoOp.dequeue :: ops).countP isEnqueue = ops.countP isEnqueue := by
        rw [List.countP_cons_of_neg (by simp [isEnqueue])]
      simp only [StatusesOk, StatusOk, step, hcount, List.head?_cons]
      by_cases hzero : j + q.length = 0
      . -- nothing was ever enqueued, and the ring does not look empty
        have hq : q = [] := List.eq_nil_of_length_eq_zero (by omega)
        have hstatus : s.fifoDequeue.1 = 0 := by
          rw [fifoDequeue_eq]
          rintro ⟨-, hone⟩
          rw [hdirty, if_pos hzero] at hone
          exact absurd hone (by decide)
        constructor
        . rintro ⟨hiff, -⟩
          rw [hstatus] at hiff
          exact absurd (hiff.mpr hq) (by decide)
        . rintro ⟨hfirst, -⟩
          exact absurd rfl (hfirst hzero)
      . have hone : s.fifo.dirty = 1 := by
          rw [hdirty, if_neg hzero]
        cases q with
        | nil =>
          rw [dequeue_nil h hone]
          simp only [outstanding, List.tail_nil, true_and]
          rw [ih h hlt hdirty]
          have hj : j ≠ 0 := by simpa using hzero
          simp [hj]
        | cons a q =>
          obtain ⟨s', hdequeue, h', hdirty', hdata⟩ := dequeue_cons h (by omega)
          rw [List.length_cons] at hlt hzero ⊢
          rw [hdequeue]
          simp only [outstanding, List.tail_cons]
          rw [ih h' (by omega) (by rw [hdirty', hone, if_neg (by omega)])]
          constructor
          . rintro ⟨-, -, hfew⟩
            exact ⟨fun h => absurd h hzero, by omega⟩
          . rintro ⟨-, hfew⟩
            exact ⟨by simp, fun h => by omega, by omega⟩

end Status

/--
The statuses of a run are right just if it starts with an enqueue and has fewer enqueues than slots.
-/
theorem statusesOk_allocFifo {size dataSize : Nat} (data : Nat) (mem : Memory) (ops : List FifoOp)
    (hdata : 0 < dataSize) (hsize : size < 0x100000000)
    (hslots : 1 ≤ (allocFifo size dataSize data).slots)
    : StatusesOk (allocFifo size dataSize data).slots ⟨allocFifo size dataSize data, mem⟩ [] ops
        ↔
      ops.head? ≠ some .dequeue ∧ ops.countP isEnqueue < (allocFifo size dataSize data).slots := by
  rw [statusesOk_iff (holds_allocFifo data mem hdata hsize hslots) (by
    rw [List.length_nil]
    omega) rfl]
  simp

theorem statusesOk_allocFifo_two
    : StatusesOk (allocFifo 4 2 0xC0000000).slots ⟨allocFifo 4 2 0xC0000000, ⟨fun _ => 0, []⟩⟩ []
          [.enqueue (fun _ => 7), .dequeue]
        ↔
      [FifoOp.enqueue (fun _ => 7), .dequeue].head? ≠ some .dequeue
        ∧ [FifoOp.enqueue (fun _ => 7), .dequeue].countP isEnqueue < (allocFifo 4 2 0xC0000000).slots :=
  statusesOk_allocFifo 0xC0000000 ⟨fun _ => 0, []⟩ _ (by decide) (by decide) (by decide)

/--
The second of two slots is taken, and the fifo reports that it is full.
-/
theorem not_statusesOk
    : ¬ StatusesOk (allocFifo 4 2 0xC0000000).slots ⟨allocFifo 4 2 0xC0000000, ⟨fun _ => 0, []⟩⟩ []
        [.enqueue (fun _ => 7), .enqueue (fun _ => 8)] := by
  rintro ⟨-, ⟨hiff, -⟩, -⟩
  exact absurd (hiff.mp rfl) (by decide)

end FifoMem
end Osproj
