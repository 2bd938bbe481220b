import Osproj.Drivers.Lemmas.Screen
import Osproj.Drivers.Lemmas.Switch

/-!
This module contains the exact condition under which the cursor of the graphics card stays where the terminal has its
own. `putchar` and `cls` move both, the escape sequences that move the cursor and the switch between terminals do not.
-/

namespace Osproj
namespace Tty

/--
The position last sent to the cursor registers is that of `x` and `y`.
-/
def Agrees (s : Tty) : Prop := (s.crtc : Int) = s.y * VGA_COLUMN + s.x

structure Synced (s : Tty) : Prop where
  onScreen : s.OnScreen
  agrees : s.Agrees

/--
While nothing is sent to the cursor registers, the cursor has to stay.
-/
theorem synced_iff {s s' : Tty} (h : s.Synced) (hcrtc : s'.crtc = s.crtc) : s'.Synced ↔ s'.x = s.x ∧ s'.y = s.y := by
  obtain ⟨⟨hx0, hx1, hy0, hy1⟩, hagrees⟩ := h
  unfold Agrees VGA_COLUMN at hagrees
  constructor
  . rintro ⟨⟨hx0', hx1', hy0', hy1'⟩, hagrees'⟩
    unfold Agrees VGA_COLUMN at hagrees'
    omega
  . rintro ⟨hx, hy⟩
    refine ⟨⟨?_, ?_, ?_, ?_⟩, ?_⟩
    . rw [hx]; exact hx0
    . rw [hx]; exact hx1
    . rw [hy]; exact hy0
    . rw [hy]; exact hy1
    . rw [Agrees, VGA_COLUMN, hx, hy, hcrtc]
      exact hagrees

theorem synced_of_cursor {s s' : Tty} (h : s.Synced) (hcrtc : s'.crtc = s.crtc) (hx : s'.x = s.x) (hy : s'.y = s.y)
    : s'.Synced := by
  exact (synced_iff h hcrtc).mpr ⟨hx, hy⟩

section Putchar

variable {s : Tty}

/--
`moveCursor` brings the two together wherever the cursor is on the screen.
-/
theorem synced_moveCursor (h : (s.moveCursor s.x s.y).OnScreen) : (s.moveCursor s.x s.y).Synced := by
  refine ⟨h, ?_⟩
  obtain ⟨hx0, hx1, hy0, hy1⟩ := h
  rw [x_moveCursor] at hx0 hx1
  rw [y_moveCursor] at hy0 hy1
  rw [Agrees, x_moveCursor, y_moveCursor]
  have hcolumn : VGA_COLUMN = 80 := rfl
  have hrow : VGA_ROW = 24 := rfl
  unfold moveCursor
  dsimp only
  rw [if_neg (by omega), hcolumn]
  dsimp only
  omega

theorem synced_scrup (h : s.Synced) : s.scrup.Synced := by
  exact synced_of_cursor h rfl rfl rfl

theorem synced_cls (s : Tty) : s.cls.Synced := by
  exact @synced_moveCursor { s with mem := blankCells s.ASSEMB_COLOUR s.mem s.VRAM 2000, x := 0, y := 0 }
    (cls_onScreen s)

theorem synced_putcell (h : s.OnScreen) (c : BitVec 8) : (s.putcell c).Synced := by
  have hon := putcell_onScreen h c
  unfold putcell at hon ⊢
  dsimp only at hon ⊢
  split
  . next hcorner =>
    rw [if_pos hcorner] at hon
    exact synced_moveCursor hon
  . next hcorner =>
    rw [if_neg hcorner] at hon
    unfold stepCursor at hon ⊢
    exact synced_moveCursor hon

theorem synced_putchar (hmap : s.Mapped) (h : s.Synced) (c : BitVec 8) : (s.putchar c).Synced := by
  have hon := (putchar_spec ⟨hmap, h.onScreen⟩ c).2
  generalize ht : s.putchar c = t at hon ⊢
  unfold putchar at ht
  split at ht
  case h_1 => exact ht ▸ h
  case h_2 => -- '\b'
    split at ht
    . split at ht
      . exact ht ▸ h
      . subst ht
        exact synced_moveCursor hon
    . subst ht
      exact synced_moveCursor hon
  case h_3 =>
    subst ht
    exact synced_moveCursor hon
  case h_4 => -- '\n'
    subst ht
    unfold linebreak at hon ⊢
    exact synced_moveCursor hon
  case h_5 =>
    subst ht
    exact synced_moveCursor hon
  case h_6 => -- '\t'
    have h₁ := synced_putcell h.onScreen 0
    have h₂ := synced_putcell h₁.onScreen 0
    have h₃ := synced_putcell h₂.onScreen 0
    exact ht ▸ synced_putcell h₃.onScreen 0
  case h_7 => -- '\v'
    split at ht
    . exact ht ▸ synced_scrup h
    . subst ht
      exact synced_moveCursor hon
  case h_8 => exact ht ▸ synced_putcell h.onScreen c

end Putchar

section Command

variable {s : Tty} {num second : Int}

theorem synced_moved_iff (h : s.Synced) (x y : Int) : Synced { s with x := x, y := y } ↔ x = s.x ∧ y = s.y := by
  exact synced_iff h rfl

def UpStays (y num : Int) : Prop := num = 0 ∨ y = 0 ∧ 0 ≤ num

def DownStays (y num : Int) : Prop := num = 0 ∨ y = 24 ∧ 0 ≤ num ∧ num < 0x80000000 - 24

def PositionStays (s : Tty) (num second : Int) : Prop := max num 0 = s.x ∧ min (max second 0) 24 = s.y

/--
The numbers with which a command leaves the cursor where it is.
-/
def CommandStays (s : Tty) (data : BitVec 8) (num second : Int) : Prop :=
  match Char.ofNat data.toNat with
  | 'A' => UpStays s.y num
  | 'B' => DownStays s.y num
  | 'C' => num = 0
  | 'D' => num = 0 ∨ s.x = 0 ∧ 0 ≤ num
  | 'E' => 0 = s.x ∧ DownStays s.y num
  | 'F' => 0 = s.x ∧ UpStays s.y num
  | 'G' => max num 0 = s.x
  | 'H' => if second = -1 then 0 = s.x ∧ 0 = s.y else s.PositionStays num second
  | 'f' => second = -1 ∨ s.PositionStays num second
  | _ => True

theorem up_eq (hlo : -0x80000000 ≤ num) (hhi : num < 0x80000000) {y : Int} (hy0 : 0 ≤ y) (hy1 : y ≤ 24)
    : (if y < num then 0 else int32 (y - num)) = y ↔ UpStays y num := by
  unfold UpStays int32
  split
  . omega
  . omega

theorem down_eq (hlo : -0x80000000 ≤ num) (hhi : num < 0x80000000) {y : Int} (hy0 : 0 ≤ y) (hy1 : y ≤ 24)
    : (if int32 (y + num) > VGA_ROW then VGA_ROW else int32 (y + num)) = y ↔ DownStays y num := by
  unfold DownStays int32 VGA_ROW
  split
  . omega
  . omega

theorem up_eq_moved (s : Tty) (num : Int)
    : s.up num = { s with x := s.x, y := if s.y < num then 0 else int32 (s.y - num) } := by
  unfold up
  split <;> rfl

theorem synced_clearCells (h : s.Synced) (pos cells : Int) : (s.clearCells pos cells).Synced := by
  exact synced_of_cursor h rfl rfl rfl

theorem crtc_colour : (s.colour num second).crtc = s.crtc := by
  simp only [colour]
  (repeat' split) <;> rfl

theorem synced_colour (h : s.Synced) (num second : Int) : (s.colour num second).Synced := by
  obtain ⟨-, -, hx, hy⟩ := colour_fields s num second
  exact synced_of_cursor h crtc_colour hx hy

theorem column_eq {x : Int} (hx0 : 0 ≤ x) (hx1 : x ≤ 79)
    : (if (if num < 0 then 0 else num) > VGA_COLUMN then VGA_COLUMN else if num < 0 then 0 else num) = x
        ↔
      max num 0 = x := by
  unfold VGA_COLUMN
  split
  . omega
  . split
    . omega
    . omega

theorem row_eq (y : Int)
    : (if (if second < 0 then 0 else second) > VGA_ROW then VGA_ROW else if second < 0 then 0 else second) = y
        ↔
      min (max second 0) 24 = y := by
  unfold VGA_ROW
  split
  . omega
  . split
    . omega
    . omega

theorem position_synced_iff (h : s.Synced) (x y : Int) (hsecond : second ≠ -1)
    : (Tty.position { s with x := x, y := y } num second).Synced ↔ s.PositionStays num second := by
  have ⟨hx0, hx1, hy0, hy1⟩ := h.onScreen
  unfold Tty.position
  rw [if_pos hsecond]
  exact (synced_moved_iff h _ _).trans (and_congr (column_eq hx0 hx1) (row_eq s.y))

theorem command_synced_iff (h : s.Synced) (data : BitVec 8) (hlo : -0x80000000 ≤ num) (hhi : num < 0x80000000)
    : (s.command data num second).Synced ↔ s.CommandStays data num second := by
  have ⟨hx0, hx1, hy0, hy1⟩ := h.onScreen
  unfold command CommandStays
  generalize Char.ofNat data.toNat = c
  split
  case h_1 =>
    rw [up_eq_moved, synced_moved_iff h, up_eq hlo hhi hy0 hy1]
    exact and_iff_right rfl
  case h_2 =>
    exact (synced_moved_iff h s.x _).trans ((and_iff_right rfl).trans (down_eq hlo hhi hy0 hy1))
  case h_3 =>
    change _ ↔ num = 0
    refine (synced_moved_iff h _ s.y).trans ?_
    unfold int32 VGA_COLUMN
    split
    . omega
    . omega
  case h_4 =>
    change _ ↔ num = 0 ∨ s.x = 0 ∧ 0 ≤ num
    split
    . refine (synced_moved_iff h 0 s.y).trans ?_
      omega
    . refine (synced_moved_iff h _ s.y).trans ?_
      unfold int32
      omega
  case h_5 =>
    exact (synced_moved_iff h 0 _).trans (and_congr Iff.rfl (down_eq hlo hhi hy0 hy1))
  case h_6 =>
    rw [up_eq_moved]
    exact (synced_moved_iff h 0 _).trans (and_congr Iff.rfl (up_eq hlo hhi hy0 hy1))
  case h_7 => exact (synced_moved_iff h _ s.y).trans ((and_iff_left rfl).trans (column_eq hx0 hx1))
  case h_8 =>
    by_cases hsecond : second = -1
    . rw [if_pos hsecond, hsecond]
      exact synced_moved_iff h 0 0
    . rw [if_neg hsecond]
      exact position_synced_iff h 0 0 hsecond
  case h_9 =>
    by_cases hsecond : second = -1
    . rw [hsecond]
      exact iff_of_true h (Or.inl rfl)
    . exact (position_synced_iff h s.x s.y hsecond).trans (or_iff_right hsecond).symm
  case h_10 =>
    refine iff_of_true ?_ trivial
    split
    . exact synced_clearCells h _ _
    . split
      . exact synced_clearCells h _ _
      . split
        . exact synced_cls s
        . exact h
  case h_11 =>
    refine iff_of_true ?_ trivial
    split
    . exact synced_clearCells h _ _
    . split
      . exact synced_clearCells h _ _
      . split
        . exact synced_clearCells h _ _
        . exact h
  case h_12 => exact iff_of_true (synced_cls s) trivial
  case h_13 => exact iff_of_true (synced_cls s) trivial
  case h_14 => exact iff_of_true (synced_colour h num second) trivial
  case h_15 =>
    refine iff_of_true h ?_
    split <;> simp_all

end Command

section Step

variable {s : Tty}

/--
The condition on a byte: a parameter finds a free place in `command_buf`, a final byte finds its numbers there and
does not move the cursor with them.
-/
def WriteStays (s : Tty) (w : Write) : Prop :=
  (s.IsParameter w → s.bufPtr < s.commandBuf.length) ∧
    (s.IsFinal w → ∃ p ∈ atoiComma s.commandBuf, s.CommandStays w.data p.1 p.2)

/--
The condition on a switch: it selects the terminal that is shown, or one that has its cursor at the same place and has
a screen or gets one.
-/
def SwitchStays (s : Tty) (t : BitVec 8) (page : Nat) : Prop :=
  t = 0 ∨ t.toInt = s.currTty
    ∨ 0 ≤ t.toInt ∧ s.ttys s.currTty ≠ 0 ∧ (s.ttys t.toNat ≠ 0 ∨ page ≠ 0) ∧ s.xs t.toNat = s.x ∧ s.ys t.toNat = s.y

def OpStays (s : Tty) : Op → Prop
  | .switch t page => s.SwitchStays t page
  | .write w => s.WriteStays w

theorem write_synced_iff (hmap : s.Mapped) (h : s.Synced) (w : Write)
    : (∃ s', s.step w = some s' ∧ s'.Synced) ↔ s.WriteStays w := by
  apply step_iff
  . intro s status buf ptr
    exact ⟨fun h => synced_of_cursor h rfl rfl rfl, fun h => synced_of_cursor h rfl rfl rfl⟩
  . exact h
  . exact synced_putchar hmap h w.data
  . intro p hnums
    obtain ⟨hlo, hhi⟩ := atoiComma_range hnums
    exact command_synced_iff h w.data hlo hhi

theorem switch_synced_iff (h : s.Synced) (t : BitVec 8) (page : Nat)
    : (∃ s', s.switchTty page t = some s' ∧ s'.Synced) ↔ s.SwitchStays t page := by
  unfold switchTty SwitchStays
  by_cases hsame : t = 0 ∨ t.toInt = s.currTty
  . rw [if_pos hsame]
    exact iff_of_true ⟨s, rfl, h⟩ (hsame.imp_right Or.inl)
  . rw [if_neg hsame]
    refine Iff.trans ?_ ((or_iff_right hsame).symm.trans or_assoc)
    rw [not_or] at hsame
    by_cases hfault : t.toInt < 0 ∨ s.ttys s.currTty = 0 ∨ s.ttys t.toNat = 0 ∧ page = 0
    . rw [if_pos hfault]
      refine iff_of_false (by simp) ?_
      rintro ⟨hpos, hcurr, hscreen, -⟩
      omega
    . rw [if_neg hfault]
      simp only [not_or, not_and] at hfault
      have hne : t.toNat ≠ s.currTty := by
        rw [BitVec.toInt_eq_toNat_cond] at hsame hfault
        split at hsame
        . omega
        . omega
      simp only [Option.some.injEq, exists_eq_left']
      refine (synced_iff h ?_).trans ?_
      . split <;> rfl
      . simp only [apply_ite Tty.xs, apply_ite Tty.ys, if_neg hne, ite_self]
        constructor
        . rintro ⟨hx, hy⟩
          exact ⟨by omega, hfault.2.1, by omega, hx, hy⟩
        . rintro ⟨-, -, -, hx, hy⟩
          exact ⟨hx, hy⟩

theorem op_synced_iff (hmap : s.Mapped) (h : s.Synced) (op : Op)
    : (∃ s', op.step s = some s' ∧ s'.Synced) ↔ s.OpStays op := by
  cases op with
  | switch t page => exact switch_synced_iff h t page
  | write w => exact write_synced_iff hmap h w

theorem VRAM_switchTty {s' : Tty} {t : BitVec 8} {page : Nat} (hswitch : s.switchTty page t = some s')
    : s'.VRAM = s.VRAM := by
  unfold switchTty at hswitch
  split at hswitch
  . cases hswitch
    rfl
  . split at hswitch
    . cases hswitch
    . cases hswitch
      dsimp only
      split <;> rfl

theorem VRAM_op {s' : Tty} {op : Op} (hstep : op.step s = some s') : s'.VRAM = s.VRAM := by
  cases op with
  | switch t page => exact VRAM_switchTty hstep
  | write w => exact congrArg Prod.fst (kept_step hstep)

end Step

section Run

/--
After every call the position last sent to the cursor registers is that of the cursor, which is on the screen.
-/
def StaysSynced (s : Tty) (ops : List Op) : Prop :=
  ∀ ps, ps <+: ops → ∃ s', Run.run Op.step s ps = some s' ∧ s'.OnScreen ∧ s'.Agrees

theorem staysSynced_iff {s : Tty} (hmap : s.Mapped) (h : s.Synced) (ops : List Op)
    : s.StaysSynced ops ↔ Run.Guarded Op.step OpStays s ops := by
  let I (s : Tty) : Prop := s.Mapped ∧ s.Synced
  have hmapped (s s' : Tty) (op : Op) (hs : s.Mapped) (hstep : op.step s = some s') : s'.Mapped := by
    rw [Mapped, VRAM_op hstep]
    exact hs
  refine @Run.guarded_iff_prefixes _ _ Op.step OpStays I _ ?_ ?_ ?_ s ops ⟨hmap, h⟩
  . intro s hs
    exact ⟨hs.2.onScreen, hs.2.agrees⟩
  . intro s op hs hok
    obtain ⟨s', hstep, hs'⟩ := (op_synced_iff hs.1 hs.2 op).mpr hok
    exact ⟨s', hstep, hmapped s s' op hs.1 hstep, hs'⟩
  . intro s op s' hs hno hstep hs'
    exact hno ((op_synced_iff hs.1 hs.2 op).mp ⟨s', hstep, hs'.1, hs'.2⟩)

/--
The terminal from `tty_preinit` on: `before` is what is called before `tty_init`, `page` is the screen of terminal 1.
-/
def CursorAgrees (mem : Memory) (framebuffer : TextBuffer) (before : List Op) (page : Nat) (ops : List Op) : Prop :=
  ∃ s₀, (boot mem).ttyPreinit framebuffer MULTIBOOT_FRAMEBUFFER_TYPE_EGA_TEXT = some s₀
    ∧ s₀.StaysSynced before
    ∧ ∃ s, Run.run Op.step s₀ before = some s ∧ (s.ttyInit page).StaysSynced ops

def CursorStays (mem : Memory) (framebuffer : TextBuffer) (before : List Op) (page : Nat) (ops : List Op) : Prop :=
  ∃ s₀, (boot mem).ttyPreinit framebuffer MULTIBOOT_FRAMEBUFFER_TYPE_EGA_TEXT = some s₀
    ∧ Run.Guarded Op.step OpStays s₀ before
    ∧ ∃ s, Run.run Op.step s₀ before = some s ∧ Run.Guarded Op.step OpStays (s.ttyInit page) ops

theorem ttyPreinit_synced (mem : Memory) (framebuffer : TextBuffer)
    : ∃ s₀, (boot mem).ttyPreinit framebuffer MULTIBOOT_FRAMEBUFFER_TYPE_EGA_TEXT = some s₀ ∧ s₀.Mapped
        ∧ s₀.Synced := by
  obtain ⟨s₀, hpre, hready, -⟩ := ttyPreinit_spec mem framebuffer
  refine ⟨s₀, hpre, hready.mapped, ?_⟩
  cases hpre
  exact synced_cls _

theorem VRAM_run {s s' : Tty} {ops : List Op} (hrun : Run.run Op.step s ops = some s') : s'.VRAM = s.VRAM := by
  refine @Run.run_invariant _ _ Op.step (fun t => t.VRAM = s.VRAM) ?_ _ _ ops rfl hrun
  intro t op t' ht hstep
  rw [VRAM_op hstep, ht]

theorem StaysSynced.at_end {s s' : Tty} {ops : List Op} (h : s.StaysSynced ops)
    (hrun : Run.run Op.step s ops = some s')
    : s'.Synced := by
  obtain ⟨t, ht, hon, hagrees⟩ := h ops (List.prefix_refl ops)
  obtain rfl := Option.some.inj (ht.symm.trans hrun)
  exact ⟨hon, hagrees⟩

theorem cursorAgrees_iff (mem : Memory) (framebuffer : TextBuffer) (before : List Op) (page : Nat) (ops : List Op)
    : CursorAgrees mem framebuffer before page ops ↔ CursorStays mem framebuffer before page ops := by
  obtain ⟨s₀, hpre, hmap, hsynced⟩ := ttyPreinit_synced mem framebuffer
  unfold CursorAgrees CursorStays
  simp only [hpre, Option.some.injEq, exists_eq_left']
  rw [← staysSynced_iff hmap hsynced before]
  refine and_congr_right (fun hbefore => exists_congr fun s => and_congr_right fun hrun => ?_)
  have hmap' : (s.ttyInit page).Mapped := by
    change s.Mapped
    rw [Mapped, VRAM_run hrun]
    exact hmap
  have hsynced' : (s.ttyInit page).Synced := synced_of_cursor (hbefore.at_end hrun) rfl rfl rfl
  exact staysSynced_iff hmap' hsynced' ops

/--
`ESC [ 5 C` moves the cursor by five columns.
-/
theorem not_cursorAgrees
    : ¬ ∃ s₀, (boot ⟨fun _ => 0, []⟩).ttyPreinit ⟨0xB8000, by decide⟩ MULTIBOOT_FRAMEBUFFER_TYPE_EGA_TEXT = some s₀
        ∧ ∀ ps, ps <+: [0x1B, 0x5B, 0x35, 0x43].map (fun c => Op.write ⟨1, c, 0, by decide⟩) →
          ∃ s, Run.run Op.step (s₀.ttyInit 0xC0300000) ps = some s ∧ s.Agrees := by
  rintro ⟨s₀, hpre, h⟩
  obtain ⟨s, hrun, hagrees⟩ := h _ (List.prefix_refl _)
  have hcursor : (Run.run Op.step (s₀.ttyInit 0xC0300000)
      ([0x1B, 0x5B, 0x35, 0x43].map (fun c => Op.write ⟨1, c, 0, by decide⟩))).map (fun s => (s.x, s.y, s.crtc))
        = some (5, 0, 0) := by
    cases hpre
    decide +kernel
  rw [hrun, Option.map_some, Option.some.injEq, Prod.mk.injEq, Prod.mk.injEq] at hcursor
  obtain ⟨hx, hy, hcrtc⟩ := hcursor
  rw [Agrees, hx, hy, hcrtc] at hagrees
  exact absurd hagrees (by decide)

end Run

end Tty
end Osproj
