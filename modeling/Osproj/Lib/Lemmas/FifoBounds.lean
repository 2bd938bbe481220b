import Osproj.Base.Run
import Osproj.Lib.Lemmas.Fifo
import Osproj.Mm.Lemmas.Buddy

/-!
This module contains the memory that a fifo touches. Whatever is enqueued and dequeued, and also if the ring runs full
or empty, both pointers stay at the beginning of a slot.
-/

namespace Osproj

namespace Fifo

def InBlock (f : Fifo) (a : Nat) : Prop := f.data ≤ a ∧ a < f.data + f.size

def AtSlot (f : Fifo) (p : Nat) : Prop := ∃ i, i < f.slots ∧ p = f.data + i * f.dataSize

variable {f : Fifo} {p : Nat}

theorem AtSlot.copy_le (h : f.AtSlot p) (hsize : f.size = f.slots * f.dataSize)
    : f.data ≤ p ∧ p + f.dataSize ≤ f.data + f.size := by
  obtain ⟨i, hi, rfl⟩ := h
  have hle := Nat.mul_le_mul_right f.dataSize hi
  rw [Nat.succ_mul] at hle
  omega

theorem AtSlot.stepped (h : f.AtSlot p) (hsize : f.size = f.slots * f.dataSize) (hpos : 0 < f.dataSize)
    : f.AtSlot (if p + f.dataSize ≥ f.data + f.size then f.data else p + f.dataSize) := by
  obtain ⟨i, hi, rfl⟩ := h
  rw [hsize]
  split
  . exact ⟨0, by omega, by rw [Nat.zero_mul, Nat.add_zero]⟩
  . next hmore =>
    refine ⟨i + 1, ?_, by rw [Nat.succ_mul, Nat.add_assoc]⟩
    rw [FifoMem.behind_slot_iff hpos] at hmore
    omega

theorem slots_pos (hle : f.dataSize ≤ f.size) (hpos : 0 < f.dataSize) : 0 < f.slots :=
  Nat.div_pos hle hpos

end Fifo

namespace FifoMem

/--
The fifo is the one that `f` was when it was allocated, up to where its pointers are.
-/
structure InSlots (f : Fifo) (s : FifoMem) : Prop where
  data : s.fifo.data = f.data
  size : s.fifo.size = f.size
  dataSize : s.fifo.dataSize = f.dataSize
  start : f.AtSlot s.fifo.start
  endPtr : f.AtSlot s.fifo.endPtr

/--
An enqueue copies an element to `end`, and a dequeue copies one from `start` on and stores nothing there.
-/
structure CopiesInside (f : Fifo) (s : FifoMem) : Prop where
  enqueue : ∀ data, Memory.StoresIn s.mem (s.fifoEnqueue data).2.mem f.InBlock
  dequeue : ∀ a, s.fifo.start ≤ a → a < s.fifo.start + s.fifo.dataSize → f.InBlock a
  dequeue_mem : s.fifoDequeue.2.2.mem = s.mem

def next (s : FifoMem) (op : FifoOp) : Option FifoMem := some (s.step op).2

theorem allocFifo_rounds {size dataSize : Nat} (data : Nat) (hdata : 0 < dataSize)
    (hsum : size + dataSize < 0x100000000)
    : dataSize ∣ (allocFifo size dataSize data).size ∧ size ≤ (allocFifo size dataSize data).size := by
  have hlt := Nat.mod_lt size hdata
  simp only [allocFifo]
  split
  . rw [Nat.mod_eq_of_lt (by omega)]
    exact ⟨⟨_, (rounded_eq size hdata).trans (Nat.mul_comm _ _)⟩, Nat.le_add_right _ _⟩
  . next hmod => exact ⟨Nat.dvd_of_mod_eq_zero (by omega), Nat.le_refl size⟩

section Step

variable {f : Fifo} {s : FifoMem}

theorem InSlots.enqueue (h : InSlots f s) (hsize : f.size = f.slots * f.dataSize) (hpos : 0 < f.dataSize)
    (data : Nat → BitVec 8)
    : InSlots f (s.fifoEnqueue data).2 := by
  have hend := h.endPtr.stepped hsize hpos
  rw [← h.data, ← h.size, ← h.dataSize] at hend
  rw [fifoEnqueue_eq]
  exact ⟨h.data, h.size, h.dataSize, h.start, hend⟩

theorem InSlots.dequeue (h : InSlots f s) (hsize : f.size = f.slots * f.dataSize) (hpos : 0 < f.dataSize)
    : InSlots f s.fifoDequeue.2.2 := by
  by_cases hempty : s.fifo.start = s.fifo.endPtr ∧ s.fifo.dirty = 1
  . simp only [fifoDequeue]
    rw [if_pos hempty]
    exact h
  . have hstart := h.start.stepped hsize hpos
    rw [← h.data, ← h.size, ← h.dataSize] at hstart
    rw [fifoDequeue_eq hempty]
    exact ⟨h.data, h.size, h.dataSize, hstart, h.endPtr⟩

theorem InSlots.step (h : InSlots f s) (hsize : f.size = f.slots * f.dataSize) (hpos : 0 < f.dataSize) (op : FifoOp)
    : InSlots f (s.step op).2 := by
  cases op with
  | enqueue data => exact h.enqueue hsize hpos data
  | dequeue => exact h.dequeue hsize hpos

theorem mem_fifoDequeue (s : FifoMem) : s.fifoDequeue.2.2.mem = s.mem := by
  simp only [fifoDequeue]
  split
  . rfl
  . split <;> rfl

theorem InSlots.copiesInside (h : InSlots f s) (hsize : f.size = f.slots * f.dataSize) : CopiesInside f s := by
  constructor
  . intro data
    rw [fifoEnqueue_eq]
    apply (Memory.StoresExactly.storeBytes s.mem s.fifo.endPtr _).storesIn.mono
    have hend := h.endPtr.copy_le hsize
    intro a ha
    rw [length_element, h.dataSize] at ha
    exact ⟨by omega, by omega⟩
  . intro a hlo hhi
    have hstart := h.start.copy_le hsize
    rw [h.dataSize] at hhi
    exact ⟨by omega, by omega⟩
  . exact mem_fifoDequeue s

end Step

/--
In every run the pointers of the fifo stay at slots, so that no copy leaves the pages that `palloc` is asked for.
-/
theorem run_inSlots {size dataSize : Nat} (data : Nat) (mem : Memory) (hdata : 1 ≤ dataSize) (hle : dataSize ≤ size)
    (hsum : size + dataSize < 0x100000000)
    : dataSize ∣ (allocFifo size dataSize data).size
        ∧ size ≤ (allocFifo size dataSize data).size
        ∧ (allocFifo size dataSize data).size ≤ MemConfig.pages (allocFifo size dataSize data).size * PAGE_SIZE
        ∧ ∀ ops, ∃ s, Run.run next ⟨allocFifo size dataSize data, mem⟩ ops = some s
          ∧ InSlots (allocFifo size dataSize data) s
          ∧ CopiesInside (allocFifo size dataSize data) s := by
  obtain ⟨hdvd, hge⟩ := allocFifo_rounds data hdata hsum
  have hsize : (allocFifo size dataSize data).size = (allocFifo size dataSize data).slots * dataSize :=
    (Nat.div_mul_cancel hdvd).symm
  refine ⟨hdvd, hge, ?_, ?_⟩
  . rw [MemConfig.pages_eq, PAGE_SIZE]
    omega
  . intro ops
    have hslots : 0 < (allocFifo size dataSize data).slots := Fifo.slots_pos (Nat.le_trans hle hge) hdata
    have hfirst : InSlots (allocFifo size dataSize data) ⟨allocFifo size dataSize data, mem⟩ := by
      refine ⟨rfl, rfl, rfl, ⟨0, hslots, ?_⟩, ⟨0, hslots, ?_⟩⟩
      . rw [Nat.zero_mul]
        rfl
      . rw [Nat.zero_mul]
        rfl
    have hstep (s : FifoMem) (op : FifoOp) (hs : InSlots (allocFifo size dataSize data) s)
        : ∃ s', next s op = some s' ∧ InSlots (allocFifo size dataSize data) s' :=
      ⟨_, rfl, hs.step hsize hdata op⟩
    obtain ⟨s, hrun, hs⟩ := (Run.guarded_true _ ops).progress (fun s op hs _ => hstep s op hs) hfirst
    exact ⟨s, hrun, hs, hs.copiesInside hsize⟩

theorem run_inSlots_three
    : (allocFifo 5 2 0xC0000000).size = 6
        ∧ ∃ s,
          Run.run next ⟨allocFifo 5 2 0xC0000000, ⟨fun _ => 0, []⟩⟩
              [.dequeue, .dequeue, .enqueue (fun _ => 7), .dequeue, .dequeue] = some s
            ∧ InSlots (allocFifo 5 2 0xC0000000) s
            ∧ CopiesInside (allocFifo 5 2 0xC0000000) s :=
  ⟨rfl, (run_inSlots 0xC0000000 ⟨fun _ => 0, []⟩ (by decide) (by decide) (by decide)).2.2.2 _⟩

end FifoMem
end Osproj
