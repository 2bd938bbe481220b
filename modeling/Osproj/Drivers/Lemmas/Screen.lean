import Osproj.Drivers.Lemmas.Tty

/-!
This module contains the bounds of the cursor and of the text buffer over runs of written bytes. The
clamps of the escape sequences let the cursor through to column 80, one past the last one, and take
no account of numbers that come out negative. The bounds hold in exactly those runs in which no
sequence reaches one of these cases.
-/

namespace Osproj
namespace Tty

theorem clearCells_draws {s : Tty} (hmap : s.Mapped) {pos cells : Int} (hpos : 0 ≤ pos)
    (hlt : pos < 2000) (hcells : 0 ≤ cells) (hfit : pos + cells ≤ 2000)
    : Draws s (s.clearCells pos cells) := by
  refine ⟨rfl, ?_⟩
  simp only [clearCells]
  rw [int32_eq_self (by omega) (by omega), int32_eq_self (by omega) (by omega),
    vram_eq hmap (by omega) (by omega)]
  apply Memory.StoresIn.fill
  intro a hlo hhi
  simp only [InBuffer, SCREEN_SZ]
  omega

theorem clearCells_onScreen {s : Tty} (h : s.OnScreen) (pos cells : Int)
    : (s.clearCells pos cells).OnScreen := by
  exact ⟨h.x_nonneg, h.x_le, h.y_nonneg, h.y_le⟩

theorem position_draws (s : Tty) (num second : Int) : Draws s (s.position num second) := by
  unfold position
  split
  . exact .of_mem_eq rfl rfl
  . exact .refl s

theorem colour_fields (s : Tty) (num second : Int)
    : (s.colour num second).VRAM = s.VRAM ∧ (s.colour num second).mem = s.mem
        ∧ (s.colour num second).x = s.x ∧ (s.colour num second).y = s.y := by
  simp only [colour]
  refine ⟨?_, ?_, ?_, ?_⟩
  all_goals (repeat' split) <;> rfl

theorem command_draws {s : Tty} (h : s.Ready) (data : BitVec 8) (num second : Int)
    : Draws s (s.command data num second) := by
  have ⟨hx0, hx1, hy0, hy1⟩ := h.onScreen
  have hclear {pos cells : Int} := @clearCells_draws s h.mapped pos cells
  have hup (t : Tty) : Draws t (t.up num) := by
    unfold up
    split <;> exact .of_mem_eq rfl rfl
  have hdown (t : Tty) : Draws t (t.down num) := .of_mem_eq rfl rfl
  have hleft : Draws s { s with x := 0 } := .of_mem_eq rfl rfl
  unfold command
  split
  case h_1 => exact hup s
  case h_2 => exact hdown s
  case h_3 => exact .of_mem_eq rfl rfl
  case h_4 => split <;> exact .of_mem_eq rfl rfl
  case h_5 => exact hleft.trans (hdown _)
  case h_6 => exact hleft.trans (hup _)
  case h_7 => exact .of_mem_eq rfl rfl
  case h_8 =>
    have hhome : Draws s { s with x := 0, y := 0 } := .of_mem_eq rfl rfl
    exact hhome.trans (position_draws _ num second)
  case h_9 => exact position_draws s num second
  case h_10 =>
    simp only [clearFromCursor2End, clearFromBeginning2Cursor, VGA_COLUMN, VGA_ROW]
    split
    . exact hclear (by omega) (by omega) (by omega) (by omega)
    . split
      . exact hclear (by omega) (by omega) (by omega) (by omega)
      . split
        . exact cls_draws s
        . exact .refl s
  case h_11 =>
    simp only [clearLineFromCursor2End, clearLineFromBeginning2Cursor, clearLine, VGA_COLUMN]
    split
    . exact hclear (by omega) (by omega) (by omega) (by omega)
    . split
      . exact hclear (by omega) (by omega) (by omega) (by omega)
      . split
        . exact hclear (by omega) (by omega) (by omega) (by omega)
        . exact .refl s
  case h_12 => exact cls_draws s
  case h_13 => exact cls_draws s
  case h_14 =>
    obtain ⟨hVRAM, hmem, -, -⟩ := colour_fields s num second
    exact .of_mem_eq hVRAM hmem
  case h_15 => exact .refl s

def CommandOk (s : Tty) (data : BitVec 8) (num second : Int) : Prop :=
  match Char.ofNat data.toNat with
  | 'A' => s.y - 24 ≤ num
  | 'B' => -s.y ≤ num ∧ num < 0x80000000 - s.y
  | 'C' => -s.x ≤ num ∧ num ≤ 79 - s.x
  | 'D' => s.x - 79 ≤ num
  | 'E' => -s.y ≤ num ∧ num < 0x80000000 - s.y
  | 'F' => s.y - 24 ≤ num
  | 'G' => num ≤ 79
  | 'H' => second = -1 ∨ num ≤ 79
  | 'f' => second = -1 ∨ num ≤ 79
  | _ => True

instance (s : Tty) (data : BitVec 8) (num second : Int)
    : Decidable (s.CommandOk data num second) := by
  unfold CommandOk
  split <;> infer_instance

section OnScreenIff

variable {s : Tty} {num second : Int}

theorem up_onScreen_iff (h : s.OnScreen) (hlo : -0x80000000 ≤ num)
    : (s.up num).OnScreen ↔ s.y - 24 ≤ num := by
  have ⟨hx0, hx1, hy0, hy1⟩ := h
  unfold up
  split
  . constructor
    . intro
      omega
    . intro
      constructor <;> dsimp only <;> omega
  . constructor
    . rintro ⟨-, -, hlo', hhi'⟩
      simp only [int32] at hlo' hhi'
      omega
    . intro hnum
      have hy : int32 (s.y - num) = s.y - num := int32_eq_self (by omega) (by omega)
      constructor <;> simp only [hy] <;> omega

theorem down_onScreen_iff (h : s.OnScreen) (hlo : -0x80000000 ≤ num) (hhi : num < 0x80000000)
    : (s.down num).OnScreen ↔ -s.y ≤ num ∧ num < 0x80000000 - s.y := by
  have ⟨hx0, hx1, hy0, hy1⟩ := h
  unfold down
  dsimp only [VGA_ROW]
  constructor
  . rintro ⟨-, -, hlo', -⟩
    simp only [int32] at hlo'
    omega
  . rintro ⟨hlo', hhi'⟩
    have hy : int32 (s.y + num) = s.y + num := int32_eq_self (by omega) (by omega)
    constructor <;> simp only [hy] <;> omega

theorem position_onScreen_iff (h : s.OnScreen)
    : (s.position num second).OnScreen ↔ second = -1 ∨ num ≤ 79 := by
  have ⟨hx0, hx1, hy0, hy1⟩ := h
  unfold position
  split
  . next hsecond =>
    dsimp only [VGA_ROW, VGA_COLUMN]
    constructor
    . rintro ⟨-, hhi', -, -⟩
      dsimp only at hhi'
      omega
    . intro hnum
      constructor <;> dsimp only <;> omega
  . next hsecond =>
    simp only [ne_eq, Decidable.not_not] at hsecond
    exact iff_of_true h (Or.inl hsecond)

end OnScreenIff

theorem command_onScreen_iff {s : Tty} (h : s.OnScreen) (data : BitVec 8) {num second : Int}
    (hlo : -0x80000000 ≤ num) (hhi : num < 0x80000000)
    : (s.command data num second).OnScreen ↔ s.CommandOk data num second := by
  have ⟨hx0, hx1, hy0, hy1⟩ := h
  have hleft : OnScreen { s with x := 0 } := by
    constructor <;> dsimp only <;> omega
  unfold command CommandOk
  generalize Char.ofNat data.toNat = c
  split
  case h_1 => exact up_onScreen_iff h hlo
  case h_2 => exact down_onScreen_iff h hlo hhi
  case h_3 =>
    change _ ↔ -s.x ≤ num ∧ num ≤ 79 - s.x
    dsimp only [VGA_COLUMN]
    constructor
    . rintro ⟨hlo', hhi', -, -⟩
      simp only [int32] at hlo' hhi'
      omega
    . rintro ⟨hlo', hhi'⟩
      have hx : int32 (s.x + num) = s.x + num := int32_eq_self (by omega) (by omega)
      constructor <;> simp only [hx] <;> omega
  case h_4 =>
    change _ ↔ s.x - 79 ≤ num
    split
    . constructor
      . intro
        omega
      . intro
        exact hleft
    . constructor
      . rintro ⟨hlo', hhi', -, -⟩
        simp only [int32] at hlo' hhi'
        omega
      . intro hnum
        have hx : int32 (s.x - num) = s.x - num := int32_eq_self (by omega) (by omega)
        constructor <;> simp only [hx] <;> omega
  case h_5 => exact down_onScreen_iff hleft hlo hhi
  case h_6 => exact up_onScreen_iff hleft hlo
  case h_7 =>
    change _ ↔ num ≤ 79
    dsimp only [VGA_COLUMN]
    constructor
    . rintro ⟨-, hhi', -, -⟩
      dsimp only at hhi'
      omega
    . intro hnum
      constructor <;> dsimp only <;> omega
  case h_8 =>
    have hhome : OnScreen { s with x := 0, y := 0 } := by
      constructor <;> dsimp only <;> omega
    exact position_onScreen_iff hhome
  case h_9 => exact position_onScreen_iff h
  case h_10 =>
    refine iff_of_true ?_ trivial
    split
    . exact clearCells_onScreen h _ _
    . split
      . exact clearCells_onScreen h _ _
      . split
        . exact cls_onScreen s
        . exact h
  case h_11 =>
    refine iff_of_true ?_ trivial
    split
    . exact clearCells_onScreen h _ _
    . split
      . exact clearCells_onScreen h _ _
      . split
        . exact clearCells_onScreen h _ _
        . exact h
  case h_12 => exact iff_of_true (cls_onScreen s) trivial
  case h_13 => exact iff_of_true (cls_onScreen s) trivial
  case h_14 =>
    obtain ⟨-, -, hx, hy⟩ := colour_fields s num second
    refine iff_of_true ?_ trivial
    constructor
    . rw [hx]; exact hx0
    . rw [hx]; exact hx1
    . rw [hy]; exact hy0
    . rw [hy]; exact hy1
  case h_15 =>
    refine iff_of_true h ?_
    split <;> simp_all

/--
What must hold after every byte: it was handled, the cursor is on the screen, and nothing but the
text buffer was stored to.
-/
def Bounded (s : Tty) (w : Write) : Prop :=
  ∃ s', s.step w = some s' ∧ s'.OnScreen ∧ Memory.StoresIn s.mem s'.mem s.InBuffer

/--
The condition under which it does: a parameter finds a free place in `command_buf`, a final byte
finds its numbers there and does not move the cursor off the screen with them.
-/
def WriteOk (s : Tty) (w : Write) : Prop :=
  (s.IsParameter w → s.bufPtr < s.commandBuf.length) ∧
    (s.IsFinal w → ∃ p ∈ atoiComma s.commandBuf, s.CommandOk w.data p.1 p.2)

theorem step_draws {s s' : Tty} (h : s.Ready) {w : Write} (hstep : s.step w = some s')
    : Draws s s' := by
  refine of_step ?_ (.of_mem_eq rfl rfl) (putchar_spec h w.data).1 ?_ hstep
  . intro t status buf ptr ht
    exact ht.trans (.of_mem_eq rfl rfl)
  . intro p _
    exact command_draws h w.data p.1 p.2

theorem bounded_of_step {s s' : Tty} (h : s.Ready) {w : Write} (hstep : s.step w = some s')
    : s.Bounded w ↔ s'.OnScreen := by
  constructor
  . rintro ⟨t, ht, hon, -⟩
    rw [hstep, Option.some.injEq] at ht
    exact ht ▸ hon
  . intro hon
    exact ⟨s', hstep, hon, (step_draws h hstep).stores⟩

theorem bounded_iff_onScreen {s : Tty} (h : s.Ready) (w : Write)
    : s.Bounded w ↔ ∃ s', s.step w = some s' ∧ s'.OnScreen := by
  constructor
  . rintro ⟨s', hstep, hon, -⟩
    exact ⟨s', hstep, hon⟩
  . rintro ⟨s', hstep, hon⟩
    exact (bounded_of_step h hstep).mpr hon

theorem bounded_iff_writeOk {s : Tty} (h : s.Ready) (w : Write) : s.Bounded w ↔ s.WriteOk w := by
  rw [bounded_iff_onScreen h w]
  apply step_iff
  . intro s status buf ptr
    exact ⟨fun ⟨a, b, c, d⟩ => ⟨a, b, c, d⟩, fun ⟨a, b, c, d⟩ => ⟨a, b, c, d⟩⟩
  . exact h.onScreen
  . exact (putchar_spec h w.data).2
  . intro p hnums
    obtain ⟨hlo, hhi⟩ := atoiComma_range hnums
    exact command_onScreen_iff h.onScreen w.data hlo hhi

theorem ready_of_bounded {s s' : Tty} (h : s.Ready) {w : Write} (hok : s.Bounded w)
    (hstep : s.step w = some s')
    : s'.Ready := by
  exact ⟨(step_draws h hstep).mapped h.mapped, (bounded_of_step h hstep).mp hok⟩

theorem ttyPreinit_spec (mem : Memory) (framebuffer : TextBuffer)
    : ∃ s₀, (boot mem).ttyPreinit framebuffer MULTIBOOT_FRAMEBUFFER_TYPE_EGA_TEXT = some s₀
        ∧ s₀.Ready
        ∧ Memory.StoresIn mem s₀.mem s₀.InBuffer
        ∧ s₀.commandBuf = List.replicate CMD_BUF_SZ 0
        ∧ s₀.bufPtr = 0 := by
  let s : Tty :=
    { boot mem with
      VRAM := framebuffer.addr + 0xC0000000, fore := DEFAULT_FORE, back := DEFAULT_BACK }
  have hmap : s.Mapped := by
    have := framebuffer.fits
    simp only [Mapped, SCREEN_SZ, s]
    omega
  have hdraws := cls_draws s
  refine ⟨s.cls, rfl, ⟨hdraws.mapped hmap, cls_onScreen s⟩, ?_, ?_, ?_⟩
  . apply hdraws.stores.mono
    intro a ha
    simpa only [InBuffer, hdraws.VRAM_eq] using ha
  . simp only [cls, moveCursor]
    split <;> rfl
  . simp only [cls, moveCursor]
    split <;> rfl

def CursorBounded (mem : Memory) (framebuffer : TextBuffer) (ws : List Write) : Prop :=
  ∃ s₀, (boot mem).ttyPreinit framebuffer MULTIBOOT_FRAMEBUFFER_TYPE_EGA_TEXT = some s₀
    ∧ s₀.OnScreen
    ∧ Memory.StoresIn mem s₀.mem s₀.InBuffer
    ∧ Run.Guarded step Bounded s₀ ws

theorem cursorBounded_iff (mem : Memory) (framebuffer : TextBuffer) (ws : List Write)
    : CursorBounded mem framebuffer ws
        ↔
      ∃ s₀, (boot mem).ttyPreinit framebuffer MULTIBOOT_FRAMEBUFFER_TYPE_EGA_TEXT = some s₀
        ∧ Run.Guarded step WriteOk s₀ ws := by
  obtain ⟨s₀, hpre, hready, hstores, -⟩ := ttyPreinit_spec mem framebuffer
  have hiff : Run.Guarded step Bounded s₀ ws ↔ Run.Guarded step WriteOk s₀ ws :=
    Run.guarded_congr (fun _ w h => bounded_iff_writeOk h w)
      (fun _ _ _ h hok hstep => ready_of_bounded h hok hstep) ws hready
  unfold CursorBounded
  simp only [hpre, Option.some.injEq, exists_eq_left']
  rw [hiff]
  exact ⟨fun h => h.2.2, fun h => ⟨hready.onScreen, hstores, h⟩⟩

theorem onScreen_of_guarded {s s' : Tty} {ws : List Write} (h : Run.Guarded step Bounded s ws)
    (hon : s.OnScreen) (hrun : Run.run step s ws = some s')
    : s'.OnScreen := by
  apply h.invariant _ hon hrun
  rintro t w t' - ⟨u, hu, hon', -⟩ hstep
  rw [hu, Option.some.injEq] at hstep
  exact hstep ▸ hon'

/--
`ESC [ 8 0 C` moves the cursor to column 80.
-/
theorem not_cursorBounded
    : ¬ CursorBounded ⟨fun _ => 0, []⟩ ⟨0xB8000, by decide⟩
        ([0x1B, 0x5B, 0x38, 0x30, 0x43].map (⟨1, ·, 0, by decide⟩)) := by
  rintro ⟨s₀, hpre, hon, -, h⟩
  have hx : (Run.run step s₀ ([0x1B, 0x5B, 0x38, 0x30, 0x43].map (⟨1, ·, 0, by decide⟩))).map Tty.x
      = some 80 := by
    cases hpre
    decide +kernel
  obtain ⟨s, hrun, hx⟩ := Option.map_eq_some_iff.mp hx
  have := (onScreen_of_guarded h hon hrun).x_le
  omega

end Tty
end Osproj
