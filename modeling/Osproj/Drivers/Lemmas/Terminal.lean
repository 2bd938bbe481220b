import Osproj.Base.Terminal
import Osproj.Drivers.Lemmas.Tty

/-!
This module contains the refinement of the terminal that never discards a row by the one in the text buffer:
the buffer holds the last 25 rows.
-/

namespace Osproj
namespace Tty

def IsText (c : BitVec 8) : Prop := 0x20 ≤ c.toNat ∨ c = 0x0A ∨ c = 0x0D

instance (c : BitVec 8) : Decidable (IsText c) := by
  unfold IsText
  infer_instance

def receive (t : Terminal 80 (BitVec 8)) (c : BitVec 8) : Terminal 80 (BitVec 8) :=
  if c = 0x0A then t.newRow 0 else if c = 0x0D then t.carriageReturn else t.write 0 c

structure Shows (s : Tty) (t : Terminal 80 (BitVec 8)) : Prop where
  x_eq : s.x = t.x.val
  y_eq : s.y = t.y 25
  cell_eq (i : Nat) (j : Fin 80) (hi : i < 25)
    : s.mem.load (s.VRAM + 2 * (80 * i + j.val)) = t.window 0 25 i j

section Cells

variable {s : Tty} {t : Terminal 80 (BitVec 8)}

theorem load_blankCells (colour : BitVec 8) (m : Memory) (dst n b : Nat)
    : (blankCells colour m dst n).load b
        =
      if dst ≤ b ∧ b < dst + 2 * n then (if (b - dst) % 2 = 0 then 0 else colour) else m.load b := by
  induction n generalizing m dst with
  | zero =>
    rw [if_neg (by omega)]
    rfl
  | succ n ih =>
    rw [blankCells, ih]
    by_cases hin : dst + 2 ≤ b ∧ b < dst + 2 + 2 * n
    . rw [if_pos hin, if_pos (show dst ≤ b ∧ b < dst + 2 * (n + 1) by omega),
        show (b - dst) % 2 = (b - (dst + 2)) % 2 by omega]
    . rw [if_neg hin, Memory.load_store, Memory.load_store]
      by_cases hodd : b = dst + 1
      . rw [if_pos hodd, if_pos (by omega), if_neg (by omega)]
      . rw [if_neg hodd]
        by_cases heven : b = dst
        . rw [if_pos heven, if_pos (by omega), if_pos (by omega)]
        . rw [if_neg heven, if_neg (by omega)]

theorem load_scrup {i j : Nat} (hi : i < 25) (hj : j < 80)
    : s.scrup.mem.load (s.VRAM + 2 * (80 * i + j))
        =
      if i < 24 then s.mem.load (s.VRAM + 2 * (80 * (i + 1) + j)) else 0 := by
  simp only [scrup]
  rw [load_blankCells]
  by_cases hlast : i < 24
  . rw [if_neg (by omega), if_pos hlast, Memory.load_copy _ _ _ _ _ (by omega), if_pos (by omega)]
    congr 1
    omega
  . rw [if_pos (by omega), if_neg hlast, if_pos (by omega)]

theorem Shows.moveCursor (h : s.Shows t) (x y : Int) : (s.moveCursor x y).Shows t := by
  constructor
  . rw [x_moveCursor, h.x_eq]
  . rw [y_moveCursor, h.y_eq]
  . intro i j hi
    rw [mem_moveCursor, VRAM_moveCursor, h.cell_eq i j hi]

theorem Shows.onScreen (h : s.Shows t) : s.OnScreen := by
  have hx := t.x.isLt
  have hy := @Terminal.y_lt _ _ t 25 (by omega)
  have hx_eq := h.x_eq
  have hy_eq := h.y_eq
  constructor <;> omega

theorem shows_newRow_of_lt (h : s.Shows t) (hy : s.y < 24)
    : Shows { s with x := 0, y := s.y + 1 } (t.newRow 0) := by
  have hroom : t.y 25 + 1 < 25 := by
    have := h.y_eq
    omega
  constructor
  . rfl
  . rw [t.y_newRow_of_lt 0 hroom]
    have := h.y_eq
    simp only
    omega
  . intro i j hi
    rw [t.window_newRow_of_lt 0 hroom]
    exact h.cell_eq i j hi

theorem shows_newRow_of_eq (h : s.Shows t) (hy : s.y = 24)
    : Shows { s with x := 0 }.scrup (t.newRow 0) := by
  have hfull : t.y 25 + 1 = 25 := by
    have := h.y_eq
    omega
  constructor
  . rfl
  . rw [t.y_newRow_of_eq 0 hfull, y_scrup]
    exact h.y_eq
  . intro i j hi
    rw [t.window_newRow_of_eq 0 hfull]
    have hload := @load_scrup { s with x := 0 } i j.val hi j.isLt
    rw [show ({ s with x := 0 } : Tty).scrup.VRAM = s.VRAM from rfl, hload]
    by_cases hlast : i < 24
    . rw [if_pos hlast]
      exact h.cell_eq (i + 1) j (by omega)
    . rw [if_neg hlast, t.window_of_le 0 (by omega)]

end Cells

section Receive

variable {s : Tty} {t : Terminal 80 (BitVec 8)}

theorem linebreak_shows (h : s.Shows t) : s.linebreak.Shows (t.newRow 0) := by
  have hon := h.onScreen
  unfold linebreak
  dsimp only
  split
  . next hrow =>
    exact (shows_newRow_of_eq h hrow).moveCursor _ _
  . next hrow =>
    have hy_le := hon.y_le
    have hy_nonneg := hon.y_nonneg
    have hlt : s.y < 24 := by
      simp only [VGA_ROW] at hrow
      omega
    rw [int32_eq_self (by omega) (by omega)]
    exact (shows_newRow_of_lt h hlt).moveCursor _ _

theorem carriageReturn_shows (h : s.Shows t) : Shows { s with x := 0 } t.carriageReturn := by
  exact ⟨rfl, h.y_eq, h.cell_eq⟩

theorem overwrite_shows (hmap : s.Mapped) (h : s.Shows t) (c : BitVec 8)
    : Shows { s with
        mem := (s.mem.store (s.vram ((s.y * 80 + s.x) * 2)) c).store
          (s.vram ((s.y * 80 + s.x) * 2 + 1)) s.ASSEMB_COLOUR } (t.overwrite c) := by
  have ⟨hx0, hx1, hy0, hy1⟩ := h.onScreen
  have hx_eq := h.x_eq
  have hy_eq := h.y_eq
  constructor
  . exact hx_eq
  . rw [t.y_overwrite]
    exact hy_eq
  . intro i j hi
    have hj := j.isLt
    rw [t.window_overwrite 0 (by omega), vram_eq hmap (by omega) (by omega),
      vram_eq hmap (by omega) (by omega)]
    simp only [Memory.load_store]
    rw [if_neg (by omega)]
    by_cases hcell : i = t.y 25 ∧ j = t.x
    . rw [if_pos hcell, if_pos (by rw [hcell.1, hcell.2]; omega)]
    . rw [if_neg hcell, ← h.cell_eq i j hi, if_neg]
      intro heq
      apply hcell
      constructor
      . omega
      . apply Fin.ext
        omega

theorem stepCursor_shows_of_eq (h : s.Shows t) (hx : s.x = 79) (hy : s.y < 24)
    : s.stepCursor.Shows (t.newRow 0) := by
  have hy_nonneg := h.onScreen.y_nonneg
  have hrow : s.y ≠ VGA_ROW := by
    simp only [VGA_ROW]
    omega
  unfold stepCursor
  rw [if_pos hx, if_pos hrow, int32_eq_self (by omega) (by omega)]
  exact (shows_newRow_of_lt h hy).moveCursor _ _

theorem stepCursor_shows_of_lt (h : s.Shows t) (hx : t.x.val + 1 < 80)
    : s.stepCursor.Shows { t with x := ⟨t.x.val + 1, hx⟩ } := by
  have hx_eq := h.x_eq
  unfold stepCursor
  rw [if_neg (by omega), int32_eq_self (by omega) (by omega)]
  have hright : Shows { s with x := s.x + 1 } { t with x := ⟨t.x.val + 1, hx⟩ } := by
    refine ⟨?_, h.y_eq, h.cell_eq⟩
    simp only
    omega
  exact hright.moveCursor _ _

theorem putcell_shows (hmap : s.Mapped) (h : s.Shows t) (c : BitVec 8)
    : (s.putcell c).Shows (t.write 0 c) := by
  have hon := h.onScreen
  have ⟨hx0, hx1, hy0, hy1⟩ := hon
  have hx_eq := h.x_eq
  have hshows := overwrite_shows hmap h c
  unfold putcell Terminal.write
  simp only [cellPos_eq hon]
  by_cases hx : s.x = 79
  . rw [dif_neg (by omega)]
    by_cases hy : s.y = 24
    . rw [if_pos ⟨hy, hx⟩]
      exact (shows_newRow_of_eq hshows hy).moveCursor _ _
    . rw [if_neg (fun hcorner => hy hcorner.1)]
      exact stepCursor_shows_of_eq hshows hx (show s.y < 24 by omega)
  . rw [dif_pos (by omega), if_neg (fun hcorner => hx hcorner.2)]
    exact stepCursor_shows_of_lt hshows (show t.x.val + 1 < 80 by omega)

theorem putchar_shows (hmap : s.Mapped) (h : s.Shows t) {c : BitVec 8} (hc : IsText c)
    : (s.putchar c).Shows (receive t c) := by
  rcases hc with hc | rfl | rfl
  . have hnewline : c ≠ 0x0A := by
      rintro rfl
      exact absurd hc (by decide)
    have hreturn : c ≠ 0x0D := by
      rintro rfl
      exact absurd hc (by decide)
    have hputchar : s.putchar c = s.putcell c := by
      unfold putchar
      split <;> first | rfl | omega
    rw [hputchar, receive, if_neg hnewline, if_neg hreturn]
    exact putcell_shows hmap h c
  . exact linebreak_shows h
  . exact (carriageReturn_shows h).moveCursor _ _

theorem step_of_plain {w : Write} (hstatus : s.commandSequenceStatus = 0) (hesc : w.data ≠ 0x1B)
    : s.step w = some (s.putchar w.data).terminateSequence := by
  unfold step ttyWrite
  rw [if_neg w.minor_ne, if_neg hesc, if_neg (by rw [hstatus]; omega), if_neg (by rw [hstatus]; omega)]

theorem cls_shows : s.cls.Shows (Terminal.clear 0) := by
  constructor
  . simp [cls, Terminal.clear]
  . simp [cls, Terminal.clear, Terminal.y]
  . intro i j hi
    have hj := j.isLt
    have hblank : (Terminal.clear 0 : Terminal 80 (BitVec 8)).window 0 25 i j = 0 := by
      by_cases hzero : i = 0
      . subst hzero
        rfl
      . rw [Terminal.window, List.getElem?_eq_none]
        . rfl
        . simp only [Terminal.rows, Terminal.clear, Terminal.top, List.nil_append, List.length_singleton]
          omega
    simp only [cls, mem_moveCursor, VRAM_moveCursor]
    rw [hblank, load_blankCells, if_pos (by omega), if_pos (by omega)]

theorem status_cls : s.cls.commandSequenceStatus = s.commandSequenceStatus := by
  unfold cls moveCursor
  dsimp only
  split <;> rfl

theorem run_shows (ws : List Write) (hmap : s.Mapped) (hstatus : s.commandSequenceStatus = 0)
    (h : s.Shows t) (htext : ∀ w ∈ ws, IsText w.data)
    : ∃ s', Run.run step s ws = some s' ∧ s'.Shows (ws.foldl (fun t w => receive t w.data) t) := by
  induction ws generalizing s t with
  | nil => exact ⟨s, rfl, h⟩
  | cons w ws ih =>
    have hw := htext w (List.mem_cons_self ..)
    have hesc : w.data ≠ 0x1B := by
      intro heq
      rw [heq] at hw
      exact absurd hw (by decide)
    have hshows := putchar_shows hmap h hw
    have hdraws := (putchar_spec ⟨hmap, h.onScreen⟩ w.data).1
    have hmap' : (s.putchar w.data).terminateSequence.Mapped := hdraws.mapped hmap
    have hshows' : (s.putchar w.data).terminateSequence.Shows (receive t w.data) :=
      ⟨hshows.x_eq, hshows.y_eq, hshows.cell_eq⟩
    obtain ⟨s', hrun, hs'⟩ := ih hmap' rfl hshows' (fun w' hw' => htext w' (List.mem_cons_of_mem _ hw'))
    refine ⟨s', ?_, hs'⟩
    rw [Run.run_cons, step_of_plain hstatus hesc]
    exact hrun

end Receive

theorem run_text (framebuffer : TextBuffer) (s : Tty) (ws : List Write)
    (hVRAM : s.VRAM = framebuffer.addr + 0xC0000000) (hstatus : s.commandSequenceStatus = 0)
    (htext : ∀ w ∈ ws, IsText w.data)
    : ∃ s', Run.run step s.cls ws = some s'
        ∧ s'.Shows (ws.foldl (fun t w => receive t w.data) (Terminal.clear 0)) := by
  have hmap : s.Mapped := by
    have := framebuffer.fits
    simp only [Mapped, SCREEN_SZ]
    omega
  exact run_shows ws ((cls_draws s).mapped hmap) (status_cls.trans hstatus) cls_shows htext

theorem run_text_hi
    : ∃ s', Run.run step ({ boot ⟨fun _ => 0, []⟩ with VRAM := 0xC00B8000 } : Tty).cls
          ([0x48, 0x69, 0x0A].map (⟨1, ·, 0, by decide⟩)) = some s'
        ∧ s'.Shows (([0x48, 0x69, 0x0A].map (⟨1, ·, 0, by decide⟩ : BitVec 8 → Write)).foldl
            (fun t w => receive t w.data) (Terminal.clear 0)) := by
  exact run_text ⟨0xB8000, by decide⟩ _ _ rfl rfl (by decide)

end Tty
end Osproj
