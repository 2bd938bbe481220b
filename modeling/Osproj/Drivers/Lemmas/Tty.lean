import Osproj.Base.Run
import Osproj.Drivers.Impl.Tty

/-!
This module contains what the cursor and screen functions of the terminal do to the cursor and
which bytes of the text buffer they store.
-/

namespace Osproj

theorem int32_eq_self {v : Int} (hlo : -0x80000000 ≤ v) (hhi : v < 0x80000000) : int32 v = v := by
  unfold int32
  omega

theorem int32_range (v : Int) : -0x80000000 ≤ int32 v ∧ int32 v < 0x80000000 := by
  unfold int32
  omega

namespace Tty

structure OnScreen (s : Tty) : Prop where
  x_nonneg : 0 ≤ s.x
  x_le : s.x ≤ 79
  y_nonneg : 0 ≤ s.y
  y_le : s.y ≤ 24

def InBuffer (s : Tty) (a : Nat) : Prop := s.VRAM ≤ a ∧ a < s.VRAM + SCREEN_SZ

def Mapped (s : Tty) : Prop := s.VRAM + SCREEN_SZ ≤ 0x100000000

structure Draws (s s' : Tty) : Prop where
  VRAM_eq : s'.VRAM = s.VRAM
  stores : Memory.StoresIn s.mem s'.mem s.InBuffer

namespace Draws

theorem refl (s : Tty) : Draws s s := by
  exact ⟨rfl, .refl s.mem⟩

theorem of_mem_eq {s s' : Tty} (hVRAM : s'.VRAM = s.VRAM) (hmem : s'.mem = s.mem)
    : Draws s s' := by
  exact ⟨hVRAM, hmem ▸ .refl s.mem⟩

theorem trans {s s' s'' : Tty} (h : Draws s s') (h' : Draws s' s'') : Draws s s'' := by
  refine ⟨h'.VRAM_eq.trans h.VRAM_eq, h.stores.trans (h'.stores.mono ?_)⟩
  intro a ha
  simpa only [InBuffer, h.VRAM_eq] using ha

theorem mapped {s s' : Tty} (h : Draws s s') (hs : s.Mapped) : s'.Mapped := by
  unfold Mapped
  rw [h.VRAM_eq]
  exact hs

end Draws

/-
`moveCursor` only talks to the cursor registers.
-/
section MoveCursor

variable (s : Tty) (x y : Int)

@[simp]
theorem x_moveCursor : (s.moveCursor x y).x = s.x := by
  unfold moveCursor; dsimp only; split <;> rfl

@[simp]
theorem y_moveCursor : (s.moveCursor x y).y = s.y := by
  unfold moveCursor; dsimp only; split <;> rfl

@[simp]
theorem VRAM_moveCursor : (s.moveCursor x y).VRAM = s.VRAM := by
  unfold moveCursor; dsimp only; split <;> rfl

@[simp]
theorem mem_moveCursor : (s.moveCursor x y).mem = s.mem := by
  unfold moveCursor; dsimp only; split <;> rfl

theorem moveCursor_draws : Draws s (s.moveCursor x y) := by
  exact .of_mem_eq (by simp) (by simp)

theorem OnScreen.moveCursor {s : Tty} (h : s.OnScreen) : (s.moveCursor x y).OnScreen := by
  constructor
  . simpa using h.x_nonneg
  . simpa using h.x_le
  . simpa using h.y_nonneg
  . simpa using h.y_le

end MoveCursor

theorem vram_eq {s : Tty} (hmap : s.Mapped) {pos : Int} (hlo : 0 ≤ pos) (hhi : pos < 4000)
    : s.vram pos = s.VRAM + pos.toNat := by
  unfold vram
  simp only [Mapped, SCREEN_SZ] at hmap
  omega

theorem inBuffer_vram {s : Tty} (hmap : s.Mapped) {pos : Int} (hlo : 0 ≤ pos) (hhi : pos < 4000)
    : s.InBuffer (s.vram pos) := by
  rw [vram_eq hmap hlo hhi]
  simp only [InBuffer, SCREEN_SZ]
  omega

theorem blankCells_storesIn {S : Nat → Prop} (colour : BitVec 8) (m : Memory) (dst n : Nat)
    (h : ∀ a, dst ≤ a → a < dst + 2 * n → S a)
    : Memory.StoresIn m (blankCells colour m dst n) S := by
  induction n generalizing m dst with
  | zero => exact .refl m
  | succ n ih =>
    simp only [blankCells]
    apply Memory.StoresIn.trans
    . apply Memory.StoresIn.trans
      . exact .store m dst 0 (h dst (by omega) (by omega))
      . exact .store _ (dst + 1) colour (h (dst + 1) (by omega) (by omega))
    . apply ih
      intro a hlo hhi
      exact h a (by omega) (by omega)

theorem scrup_draws (s : Tty) : Draws s s.scrup := by
  refine ⟨rfl, ?_⟩
  have hcopy := Memory.StoresIn.copy s.mem s.VRAM (s.VRAM + 160) 3840
    (fun a hlo hhi => show s.InBuffer a from ⟨hlo, by simp only [SCREEN_SZ]; omega⟩)
  apply hcopy.trans
  apply blankCells_storesIn
  intro a hlo hhi
  simp only [InBuffer, SCREEN_SZ]
  omega

theorem cls_draws (s : Tty) : Draws s s.cls := by
  refine ⟨by simp [cls], ?_⟩
  simp only [cls, mem_moveCursor]
  apply blankCells_storesIn
  intro a hlo hhi
  simp only [InBuffer, SCREEN_SZ]
  omega

theorem cls_onScreen (s : Tty) : s.cls.OnScreen := by
  constructor <;> simp [cls]

@[simp]
theorem x_scrup (s : Tty) : s.scrup.x = s.x := by
  rfl

@[simp]
theorem y_scrup (s : Tty) : s.scrup.y = s.y := by
  rfl

theorem stepCursor_draws (s : Tty) : Draws s s.stepCursor := by
  unfold stepCursor
  split
  . exact .of_mem_eq (by simp) (by simp)
  . exact .of_mem_eq (by simp) (by simp)

theorem stepCursor_onScreen {s : Tty} (h : s.OnScreen) : s.stepCursor.OnScreen := by
  obtain ⟨hx0, hx1, hy0, hy1⟩ := h
  have hx : int32 (s.x + 1) = s.x + 1 := int32_eq_self (by omega) (by omega)
  have hy : int32 (s.y + 1) = s.y + 1 := int32_eq_self (by omega) (by omega)
  unfold stepCursor
  split
  . apply OnScreen.moveCursor
    by_cases hrow : s.y = 24
    . constructor <;> simp [VGA_ROW, hrow]
    . constructor <;> simp [VGA_ROW, hrow, hy] <;> omega
  . apply OnScreen.moveCursor
    constructor <;> simp only [hx] <;> omega

theorem linebreak_draws (s : Tty) : Draws s s.linebreak := by
  have hleft : Draws s { s with x := 0 } := .of_mem_eq rfl rfl
  unfold linebreak
  dsimp only
  split
  . exact (hleft.trans (scrup_draws _)).trans (moveCursor_draws _ _ _)
  . exact .of_mem_eq (by simp) (by simp)

theorem linebreak_onScreen {s : Tty} (h : s.OnScreen) : s.linebreak.OnScreen := by
  obtain ⟨hx0, hx1, hy0, hy1⟩ := h
  have hy : int32 (s.y + 1) = s.y + 1 := int32_eq_self (by omega) (by omega)
  unfold linebreak
  dsimp only
  split
  . apply OnScreen.moveCursor
    constructor <;> simp only [x_scrup, y_scrup] <;> omega
  . next hrow =>
    simp only [VGA_ROW] at hrow
    apply OnScreen.moveCursor
    constructor <;> simp only [hy] <;> omega

theorem cellPos_eq {s : Tty} (h : s.OnScreen)
    : int32 (int32 (int32 (s.y * VGA_COLUMN) + s.x) * 2) = (s.y * 80 + s.x) * 2 := by
  have ⟨hx0, hx1, hy0, hy1⟩ := h
  simp only [VGA_COLUMN]
  have hrow : int32 (s.y * 80) = s.y * 80 := int32_eq_self (by omega) (by omega)
  have hcell : int32 (s.y * 80 + s.x) = s.y * 80 + s.x := int32_eq_self (by omega) (by omega)
  rw [hrow, hcell]
  exact int32_eq_self (by omega) (by omega)

theorem putcell_draws {s : Tty} (hmap : s.Mapped) (h : s.OnScreen) (c : BitVec 8)
    : Draws s (s.putcell c) := by
  have ⟨hx0, hx1, hy0, hy1⟩ := h
  have hcell : Draws s { s with
      mem := (s.mem.store (s.vram ((s.y * 80 + s.x) * 2)) c).store
        (s.vram ((s.y * 80 + s.x) * 2 + 1)) s.ASSEMB_COLOUR } := by
    have hlo := inBuffer_vram hmap (show 0 ≤ (s.y * 80 + s.x) * 2 by omega) (by omega)
    have hhi := inBuffer_vram hmap (show 0 ≤ (s.y * 80 + s.x) * 2 + 1 by omega) (by omega)
    exact ⟨rfl, (Memory.StoresIn.store s.mem _ c hlo).trans
      (Memory.StoresIn.store _ _ s.ASSEMB_COLOUR hhi)⟩
  unfold putcell
  simp only [cellPos_eq h]
  split
  . apply Draws.trans _ (moveCursor_draws _ _ _)
    apply Draws.trans _ (scrup_draws _)
    exact hcell.trans (.of_mem_eq rfl rfl)
  . exact hcell.trans (stepCursor_draws _)

theorem putcell_onScreen {s : Tty} (h : s.OnScreen) (c : BitVec 8) : (s.putcell c).OnScreen := by
  have ⟨hx0, hx1, hy0, hy1⟩ := h
  unfold putcell
  dsimp only
  split
  . apply OnScreen.moveCursor
    constructor <;> simp only [x_scrup, y_scrup] <;> omega
  . apply stepCursor_onScreen
    exact ⟨hx0, hx1, hy0, hy1⟩

structure Ready (s : Tty) : Prop where
  mapped : s.Mapped
  onScreen : s.OnScreen

theorem putcell_spec {s : Tty} (h : s.Ready) (c : BitVec 8)
    : Draws s (s.putcell c) ∧ (s.putcell c).Ready := by
  have hdraws := putcell_draws h.mapped h.onScreen c
  exact ⟨hdraws, hdraws.mapped h.mapped, putcell_onScreen h.onScreen c⟩

theorem putchar_spec {s : Tty} (h : s.Ready) (c : BitVec 8)
    : Draws s (s.putchar c) ∧ (s.putchar c).OnScreen := by
  have ⟨hx0, hx1, hy0, hy1⟩ := h.onScreen
  have hup : int32 (s.y - 1) = s.y - 1 := int32_eq_self (by omega) (by omega)
  have hdown : int32 (s.y + 1) = s.y + 1 := int32_eq_self (by omega) (by omega)
  have hback : int32 (s.x - 1) = s.x - 1 := int32_eq_self (by omega) (by omega)
  unfold putchar
  split
  case h_1 => exact ⟨.refl s, h.onScreen⟩
  case h_2 => -- '\b'
    split
    . split
      . exact ⟨.refl s, h.onScreen⟩
      . refine ⟨.of_mem_eq (by simp) (by simp), ?_⟩
        apply OnScreen.moveCursor
        constructor <;> simp only [hup] <;> omega
    . refine ⟨.of_mem_eq (by simp) (by simp), ?_⟩
      apply OnScreen.moveCursor
      constructor <;> simp only [hback] <;> omega
  case h_3 => -- '\f'
    constructor
    . apply Draws.trans _ (moveCursor_draws _ _ _)
      apply (cls_draws s).trans
      exact .of_mem_eq (by dsimp only) (by dsimp only)
    . apply OnScreen.moveCursor
      constructor <;> simp
  case h_4 => exact ⟨linebreak_draws s, linebreak_onScreen h.onScreen⟩
  case h_5 => -- '\r'
    refine ⟨.of_mem_eq (by simp) (by simp), ?_⟩
    apply OnScreen.moveCursor
    constructor <;> dsimp only <;> omega
  case h_6 => -- '\t'
    obtain ⟨h1, hr1⟩ := putcell_spec h 0
    obtain ⟨h2, hr2⟩ := putcell_spec hr1 0
    obtain ⟨h3, hr3⟩ := putcell_spec hr2 0
    obtain ⟨h4, hr4⟩ := putcell_spec hr3 0
    exact ⟨((h1.trans h2).trans h3).trans h4, hr4.onScreen⟩
  case h_7 => -- '\v'
    split
    . exact ⟨scrup_draws s, ⟨hx0, hx1, hy0, hy1⟩⟩
    . next hrow =>
      simp only [VGA_ROW] at hrow
      refine ⟨.of_mem_eq (by simp) (by simp), ?_⟩
      apply OnScreen.moveCursor
      constructor <;> simp only [hdown] <;> omega
  case h_8 => exact ⟨putcell_draws h.mapped h.onScreen c, putcell_onScreen h.onScreen c⟩

theorem atoi.sum_range {dec : List (BitVec 8)} {n : Nat} {base result v : Int}
    (h : atoi.sum dec n base result = some v)
    (hrange : -0x80000000 ≤ result ∧ result < 0x80000000)
    : -0x80000000 ≤ v ∧ v < 0x80000000 := by
  induction n generalizing base result with
  | zero =>
    simp only [atoi.sum, Option.some.injEq] at h
    exact h ▸ hrange
  | succ j ih =>
    simp only [atoi.sum, Option.bind_eq_bind, Option.bind_eq_some_iff] at h
    obtain ⟨c, -, h⟩ := h
    exact ih h (int32_range _)

theorem atoi_range {dec : List (BitVec 8)} {terminator : BitVec 8} {v : Int}
    (h : atoi dec terminator = some v)
    : -0x80000000 ≤ v ∧ v < 0x80000000 := by
  simp only [atoi, Option.bind_eq_bind, Option.bind_eq_some_iff] at h
  obtain ⟨i, -, h⟩ := h
  split at h
  . simp only [Option.pure_def, Option.some.injEq] at h
    omega
  . exact atoi.sum_range h (by decide)

theorem atoiComma_range {dec : List (BitVec 8)} {num second : Int}
    (h : atoiComma dec = some (num, second))
    : -0x80000000 ≤ num ∧ num < 0x80000000 := by
  simp only [atoiComma, Option.bind_eq_bind, Option.bind_eq_some_iff] at h
  obtain ⟨o, -, h⟩ := h
  split at h
  . simp only [Option.bind_eq_some_iff] at h
    obtain ⟨v, hv, w, -, h⟩ := h
    simp only [Option.pure_def, Option.some.injEq, Prod.mk.injEq] at h
    exact h.1 ▸ atoi_range hv
  . simp only [Option.bind_eq_some_iff] at h
    obtain ⟨v, hv, h⟩ := h
    simp only [Option.pure_def, Option.some.injEq, Prod.mk.injEq] at h
    exact h.1 ▸ atoi_range hv

structure Write where
  minor : BitVec 16
  data : BitVec 8
  page : Nat
  minor_ne : minor ≠ 0

def step (s : Tty) (w : Write) : Option Tty := s.ttyWrite w.page w.minor w.data

def IsParameter (s : Tty) (w : Write) : Prop :=
  s.commandSequenceStatus = 2 ∧ w.data ≠ 0x1B ∧ isNumberOrComma w.data = true

def IsFinal (s : Tty) (w : Write) : Prop :=
  s.commandSequenceStatus = 2 ∧ w.data ≠ 0x1B ∧ isNumberOrComma w.data = false

instance (s : Tty) (w : Write) : Decidable (s.IsParameter w) := by
  unfold IsParameter
  infer_instance

instance (s : Tty) (w : Write) : Decidable (s.IsFinal w) := by
  unfold IsFinal
  infer_instance

theorem step_cases (s : Tty) (w : Write)
    : (∃ status, ¬ s.IsParameter w ∧ ¬ s.IsFinal w
          ∧ s.step w = some { s with commandSequenceStatus := status })
      ∨ (s.IsParameter w
          ∧ s.step w
              =
            if s.bufPtr < s.commandBuf.length then
              some { s with
                commandBuf := s.commandBuf.set s.bufPtr w.data
                bufPtr := s.bufPtr + 1 }
            else
              none)
      ∨ (s.IsFinal w
          ∧ s.step w
              =
            (atoiComma s.commandBuf).map
              (fun p => (s.command w.data p.1 p.2).terminateSequence))
      ∨ (¬ s.IsParameter w ∧ ¬ s.IsFinal w
          ∧ s.step w = some (s.putchar w.data).terminateSequence) := by
  unfold step ttyWrite
  rw [if_neg w.minor_ne]
  by_cases hesc : w.data = 0x1B
  . refine Or.inl ⟨1, ?_, ?_, by rw [if_pos hesc]⟩
    . simp [IsParameter, hesc]
    . simp [IsFinal, hesc]
  rw [if_neg hesc]
  by_cases hbracket : w.data = 0x5B ∧ s.commandSequenceStatus = 1
  . refine Or.inl ⟨2, ?_, ?_, by rw [if_pos hbracket]⟩
    . simp [IsParameter, hbracket.2]
    . simp [IsFinal, hbracket.2]
  rw [if_neg hbracket]
  by_cases hstatus : s.commandSequenceStatus = 2
  . rw [if_pos hstatus]
    by_cases hparam : isNumberOrComma w.data = true
    . exact Or.inr (Or.inl ⟨⟨hstatus, hesc, hparam⟩, by rw [if_pos hparam]⟩)
    . simp only [Bool.not_eq_true] at hparam
      refine Or.inr (Or.inr (Or.inl ⟨⟨hstatus, hesc, hparam⟩, ?_⟩))
      rw [hparam]
      cases atoiComma s.commandBuf <;> rfl
  . rw [if_neg hstatus]
    refine Or.inr (Or.inr (Or.inr ⟨?_, ?_, rfl⟩))
    . simp [IsParameter, hstatus]
    . simp [IsFinal, hstatus]

/--
What holds of the state and of what `putchar` and the commands make of it holds after a byte.
-/
theorem of_step {P : Tty → Prop} {s s' : Tty} {w : Write}
    (hparser : ∀ s status buf ptr,
      P s → P { s with commandSequenceStatus := status, commandBuf := buf, bufPtr := ptr })
    (hs : P s) (hputchar : P (s.putchar w.data))
    (hcommand : ∀ p ∈ atoiComma s.commandBuf, P (s.command w.data p.1 p.2))
    (hstep : s.step w = some s')
    : P s' := by
  rcases step_cases s w with ⟨status, -, -, heq⟩ | ⟨-, heq⟩ | ⟨-, heq⟩ | ⟨-, -, heq⟩
  . rw [heq, Option.some.injEq] at hstep
    exact hstep ▸ hparser s status _ _ hs
  . rw [heq] at hstep
    split at hstep
    . rw [Option.some.injEq] at hstep
      exact hstep ▸ hparser s _ _ _ hs
    . simp at hstep
  . rw [heq, Option.map_eq_some_iff] at hstep
    obtain ⟨p, hp, hstep⟩ := hstep
    exact hstep ▸ hparser _ _ _ _ (hcommand p hp)
  . rw [heq, Option.some.injEq] at hstep
    exact hstep ▸ hparser _ _ _ _ hputchar

/--
A property for which the state of the parser does not matter holds after a byte exactly if a parameter finds a free
place in `command_buf`, and a final byte its numbers and a command that leads to the property.
-/
theorem step_iff {P : Tty → Prop} {C : Int → Int → Prop} {s : Tty} {w : Write}
    (hparser : ∀ s status buf ptr,
      P { s with commandSequenceStatus := status, commandBuf := buf, bufPtr := ptr } ↔ P s)
    (hs : P s) (hputchar : P (s.putchar w.data))
    (hcommand : ∀ p ∈ atoiComma s.commandBuf, P (s.command w.data p.1 p.2) ↔ C p.1 p.2)
    : (∃ s', s.step w = some s' ∧ P s')
        ↔
      (s.IsParameter w → s.bufPtr < s.commandBuf.length)
        ∧ (s.IsFinal w → ∃ p ∈ atoiComma s.commandBuf, C p.1 p.2) := by
  rcases step_cases s w with ⟨status, hparam, hfinal, heq⟩ | ⟨hparam, heq⟩ | ⟨hfinal, heq⟩ | ⟨hparam, hfinal, heq⟩
  . refine iff_of_true ⟨_, heq, (hparser s status _ _).mpr hs⟩ ?_
    exact ⟨fun hp => absurd hp hparam, fun hf => absurd hf hfinal⟩
  . have hfinal : ¬ s.IsFinal w := fun hf => absurd (hparam.2.2.symm.trans hf.2.2) (by decide)
    by_cases hroom : s.bufPtr < s.commandBuf.length
    . rw [if_pos hroom] at heq
      refine iff_of_true ⟨_, heq, (hparser s _ _ _).mpr hs⟩ ?_
      exact ⟨fun _ => hroom, fun hf => absurd hf hfinal⟩
    . rw [if_neg hroom] at heq
      rw [heq]
      exact iff_of_false (by simp) (fun hok => hroom (hok.1 hparam))
  . have hparam : ¬ s.IsParameter w := fun hp => absurd (hp.2.2.symm.trans hfinal.2.2) (by decide)
    rw [heq]
    cases hnums : atoiComma s.commandBuf with
    | none => exact iff_of_false (by simp) (fun hok => by simpa using hok.2 hfinal)
    | some p =>
      rw [Option.map_some]
      simp only [Option.some.injEq, exists_eq_left', Option.mem_def, hfinal, hparam, false_implies, true_and,
        true_implies]
      exact (hparser _ _ _ _).trans (hcommand p hnums)
  . refine iff_of_true ⟨_, heq, (hparser _ _ _ _).mpr hputchar⟩ ?_
    exact ⟨fun hp => absurd hp hparam, fun hf => absurd hf hfinal⟩

end Tty
end Osproj
