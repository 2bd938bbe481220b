import Osproj.Drivers.Lemmas.Terminal

/-!
This module contains what no byte written to a terminal changes: the screens and cursors of the terminals that
are not shown, and the memory outside the text buffer.
-/

namespace Osproj
namespace Tty

def kept (s : Tty) := (s.VRAM, s.currTty, s.ttys, s.xs, s.ys, s.fores, s.backs)

section Kept

variable (s : Tty)

@[simp]
theorem kept_moveCursor (x y : Int) : (s.moveCursor x y).kept = s.kept := by
  unfold moveCursor
  dsimp only
  split <;> rfl

theorem kept_setCursor (x y : Int) : kept { s with x := x, y := y } = s.kept := by
  rfl

@[simp]
theorem kept_cls : s.cls.kept = s.kept := by
  rw [cls, kept_moveCursor]
  rfl

theorem kept_stepCursor : s.stepCursor.kept = s.kept := by
  unfold stepCursor
  split
  . rw [kept_moveCursor]
    rfl
  . rw [kept_moveCursor]
    rfl

theorem kept_linebreak : s.linebreak.kept = s.kept := by
  unfold linebreak
  dsimp only
  rw [kept_moveCursor]
  split <;> rfl

theorem kept_putcell (c : BitVec 8) : (s.putcell c).kept = s.kept := by
  unfold putcell
  dsimp only
  split
  . rw [kept_moveCursor]
    rfl
  . rw [kept_stepCursor]
    rfl

theorem kept_putchar (c : BitVec 8) : (s.putchar c).kept = s.kept := by
  unfold putchar
  split
  . rfl
  . split
    . split
      . rfl
      . rw [kept_moveCursor]
        rfl
    . rw [kept_moveCursor]
      rfl
  . rw [kept_moveCursor, kept_setCursor]
    exact kept_cls s
  . exact kept_linebreak s
  . rw [kept_moveCursor]
    rfl
  . rw [kept_putcell, kept_putcell, kept_putcell, kept_putcell]
  . split
    . rfl
    . rw [kept_moveCursor]
      rfl
  . exact kept_putcell s c

theorem kept_up (num : Int) : (s.up num).kept = s.kept := by
  unfold up
  split <;> rfl

theorem kept_position (num second : Int) : (s.position num second).kept = s.kept := by
  unfold position
  split <;> rfl

theorem kept_colour (num second : Int) : (s.colour num second).kept = s.kept := by
  unfold colour
  dsimp only
  repeat' split
  all_goals rfl

theorem kept_command (data : BitVec 8) (num second : Int)
    : (s.command data num second).kept = s.kept := by
  unfold command
  split
  case h_1 => exact kept_up s num
  case h_4 => split <;> rfl
  case h_6 => exact kept_up _ num
  case h_8 => exact kept_position _ num second
  case h_9 => exact kept_position s num second
  case h_10 =>
    split
    . rfl
    . split
      . rfl
      . split
        . exact kept_cls s
        . rfl
  case h_11 =>
    split
    . rfl
    . split
      . rfl
      . split <;> rfl
  case h_12 => exact kept_cls s
  case h_13 => exact kept_cls s
  case h_14 => exact kept_colour s num second
  all_goals rfl

theorem kept_step {s s' : Tty} {w : Write} (hstep : s.step w = some s') : s'.kept = s.kept := by
  refine @of_step (fun t => t.kept = s.kept) _ _ _ ?_ rfl (kept_putchar s w.data) ?_ hstep
  . intro t status buf ptr ht
    exact ht
  . intro p _
    exact kept_command s w.data p.1 p.2

theorem kept_run {s s' : Tty} {ws : List Write} (hrun : Run.run step s ws = some s')
    : s'.kept = s.kept := by
  refine @Run.run_invariant _ _ step (fun t => t.kept = s.kept) ?_ _ _ ws rfl hrun
  intro t w t' ht hstep
  rw [kept_step hstep, ht]

end Kept

def Frames (s s' : Tty) : Prop := ∀ a, ¬ s.InBuffer a → s'.mem.load a = s.mem.load a

section Frames

variable {s s' s'' : Tty}

theorem Frames.trans (h : Frames s s') (hVRAM : s'.VRAM = s.VRAM) (h' : Frames s' s'') : Frames s s'' := by
  intro a ha
  rw [h' a (by rw [InBuffer, hVRAM]; exact ha), h a ha]

theorem frames_of_mem_eq (h : s'.mem = s.mem) : Frames s s' := by
  intro a _
  rw [h]

theorem mem_setCursor (s : Tty) (x y : Int) : ({ s with x := x, y := y } : Tty).mem = s.mem := by
  rfl

theorem frames_scrup : Frames s s.scrup := by
  intro a ha
  simp only [InBuffer, SCREEN_SZ] at ha
  simp only [scrup]
  rw [load_blankCells, if_neg (by omega), Memory.load_copy _ _ _ _ _ (by omega), if_neg (by omega)]

theorem frames_cls : Frames s s.cls := by
  intro a ha
  simp only [InBuffer, SCREEN_SZ] at ha
  simp only [cls, mem_moveCursor]
  rw [load_blankCells, if_neg (by omega)]

theorem frames_stepCursor : Frames s s.stepCursor := by
  unfold stepCursor
  split
  . exact frames_of_mem_eq (by simp)
  . exact frames_of_mem_eq (by simp)

theorem frames_linebreak : Frames s s.linebreak := by
  unfold linebreak
  dsimp only
  split
  . intro a ha
    rw [mem_moveCursor]
    exact @frames_scrup { s with x := 0 } a ha
  . exact frames_of_mem_eq (by simp)

theorem frames_putcell (h : s.Ready) (c : BitVec 8) : Frames s (s.putcell c) := by
  have ⟨hx0, hx1, hy0, hy1⟩ := h.onScreen
  have hcell : Frames s { s with
      mem := (s.mem.store (s.vram ((s.y * 80 + s.x) * 2)) c).store
        (s.vram ((s.y * 80 + s.x) * 2 + 1)) s.ASSEMB_COLOUR } := by
    intro a ha
    have hlo := inBuffer_vram h.mapped (show 0 ≤ (s.y * 80 + s.x) * 2 by omega) (by omega)
    have hhi := inBuffer_vram h.mapped (show 0 ≤ (s.y * 80 + s.x) * 2 + 1 by omega) (by omega)
    simp only [Memory.load_store]
    rw [if_neg, if_neg]
    . rintro rfl
      exact ha hlo
    . rintro rfl
      exact ha hhi
  unfold putcell
  simp only [cellPos_eq h.onScreen]
  split
  . apply hcell.trans rfl
    intro a ha
    rw [mem_moveCursor]
    exact frames_scrup a ha
  . exact hcell.trans rfl frames_stepCursor

theorem frames_putchar (h : s.Ready) (c : BitVec 8) : Frames s (s.putchar c) := by
  unfold putchar
  split
  case h_1 => exact frames_of_mem_eq rfl
  case h_2 =>
    split
    . split
      . exact frames_of_mem_eq rfl
      . exact frames_of_mem_eq (by simp)
    . exact frames_of_mem_eq (by simp)
  case h_3 =>
    intro a ha
    rw [mem_moveCursor, mem_setCursor]
    exact frames_cls a ha
  case h_4 => exact frames_linebreak
  case h_5 => exact frames_of_mem_eq (by simp)
  case h_6 =>
    obtain ⟨h1, hr1⟩ := putcell_spec h 0
    obtain ⟨h2, hr2⟩ := putcell_spec hr1 0
    obtain ⟨h3, hr3⟩ := putcell_spec hr2 0
    apply (frames_putcell h 0).trans h1.VRAM_eq
    apply (frames_putcell hr1 0).trans h2.VRAM_eq
    exact (frames_putcell hr2 0).trans h3.VRAM_eq (frames_putcell hr3 0)
  case h_7 =>
    split
    . exact frames_scrup
    . exact frames_of_mem_eq (by simp)
  case h_8 => exact frames_putcell h c

end Frames

end Tty
end Osproj
