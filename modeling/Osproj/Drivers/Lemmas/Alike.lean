import Osproj.Drivers.Lemmas.Switch

/-!
This module contains the relation between two terminals that show the same, and that every command keeps it: what a
command does depends on nothing but what is shown.
-/

namespace Osproj
namespace Tty

/--
The two states show the same, at the same place.
-/
structure Alike (s t : Tty) : Prop where
  VRAM_eq : s.VRAM = t.VRAM
  shown_eq : s.shown = t.shown

section Alike

variable {s t : Tty}

theorem alike_iff
    : Alike s t
        ↔
      s.VRAM = t.VRAM ∧ (∀ i < SCREEN_SZ, s.mem.load (s.VRAM + i) = t.mem.load (t.VRAM + i)) ∧ s.x = t.x ∧ s.y = t.y
        ∧ s.fore = t.fore ∧ s.back = t.back := by
  constructor
  . rintro ⟨hVRAM, hshown⟩
    simp only [shown, View.mk.injEq, Memory.loadBytes] at hshown
    refine ⟨hVRAM, ?_, hshown.2⟩
    intro i hi
    exact List.map_inj_left.mp hshown.1 i (List.mem_range.mpr hi)
  . rintro ⟨hVRAM, hcells, hrest⟩
    refine ⟨hVRAM, ?_⟩
    simp only [shown, View.mk.injEq]
    exact ⟨loadBytes_congr hcells, hrest⟩

theorem Alike.symm (h : Alike s t) : Alike t s := by
  exact ⟨h.VRAM_eq.symm, h.shown_eq.symm⟩

/--
Only the cursor is moved, to the same place in both.
-/
theorem Alike.setCursor (h : Alike s t) {x x' y y' : Int} (hx : x = x') (hy : y = y')
    : Alike { s with x := x, y := y } { t with x := x', y := y' } := by
  obtain ⟨hVRAM, hcells, -, -, hcolour⟩ := alike_iff.mp h
  exact alike_iff.mpr ⟨hVRAM, hcells, hx, hy, hcolour⟩

theorem Alike.moveCursor (h : Alike s t) (x y : Int) : Alike (s.moveCursor x y) t := by
  unfold Tty.moveCursor
  dsimp only
  split
  . exact h
  . exact ⟨h.VRAM_eq, h.shown_eq⟩

theorem Alike.clearCells (h : Alike s t) (pos cells : Int)
    : Alike (s.clearCells pos cells) (t.clearCells pos cells) := by
  obtain ⟨hVRAM, hcells, hrest⟩ := alike_iff.mp h
  refine alike_iff.mpr ⟨hVRAM, ?_, hrest⟩
  intro i hi
  simp only [Tty.clearCells, vram, Memory.load_fill, hVRAM]
  split
  . rfl
  . exact hVRAM ▸ hcells i hi

theorem Alike.cls (h : Alike s t) : Alike s.cls t.cls := by
  obtain ⟨hVRAM, -, -, -, hfore, hback⟩ := alike_iff.mp h
  have hblank : Alike
      { s with mem := blankCells s.ASSEMB_COLOUR s.mem s.VRAM 2000, x := 0, y := 0 }
      { t with mem := blankCells t.ASSEMB_COLOUR t.mem t.VRAM 2000, x := 0, y := 0 } := by
    refine alike_iff.mpr ⟨hVRAM, ?_, rfl, rfl, hfore, hback⟩
    intro i hi
    rw [SCREEN_SZ] at hi
    dsimp only
    rw [load_blankCells, load_blankCells, hVRAM, ASSEMB_COLOUR, ASSEMB_COLOUR, hfore, hback,
      if_pos (show t.VRAM ≤ t.VRAM + i ∧ t.VRAM + i < t.VRAM + 2 * 2000 by omega),
      if_pos (show t.VRAM ≤ t.VRAM + i ∧ t.VRAM + i < t.VRAM + 2 * 2000 by omega)]
  exact ((hblank.moveCursor 0 0).symm.moveCursor 0 0).symm

theorem Alike.up (h : Alike s t) (num : Int) : Alike (s.up num) (t.up num) := by
  obtain ⟨-, -, hx, hy, -⟩ := alike_iff.mp h
  unfold Tty.up
  rw [hy]
  split
  . exact h.setCursor hx rfl
  . exact h.setCursor hx rfl

theorem Alike.down (h : Alike s t) (num : Int) : Alike (s.down num) (t.down num) := by
  obtain ⟨-, -, hx, hy, -⟩ := alike_iff.mp h
  unfold Tty.down
  rw [hy]
  exact h.setCursor hx rfl

theorem Alike.position (h : Alike s t) (num second : Int) : Alike (s.position num second) (t.position num second) := by
  unfold Tty.position
  split
  . exact h.setCursor rfl rfl
  . exact h

theorem Alike.setFore (h : Alike s t) (v : BitVec 8) : Alike { s with fore := v } { t with fore := v } := by
  obtain ⟨hVRAM, hcells, hx, hy, -, hback⟩ := alike_iff.mp h
  exact alike_iff.mpr ⟨hVRAM, hcells, hx, hy, rfl, hback⟩

theorem Alike.setBack (h : Alike s t) (v : BitVec 8) : Alike { s with back := v } { t with back := v } := by
  obtain ⟨hVRAM, hcells, hx, hy, hfore, -⟩ := alike_iff.mp h
  exact alike_iff.mpr ⟨hVRAM, hcells, hx, hy, hfore, rfl⟩

theorem Alike.ite (h : Alike s t) {s' t' : Tty} (h' : Alike s' t') (c : Prop) [Decidable c]
    : Alike (if c then s' else s) (if c then t' else t) := by
  split
  . exact h'
  . exact h

theorem Alike.colour (h : Alike s t) (num second : Int) : Alike (s.colour num second) (t.colour num second) := by
  have h₁ := h.ite ((h.setFore DEFAULT_FORE).setBack DEFAULT_BACK) (num = 0)
  have h₂ := h₁.ite (h₁.setFore (colour.jmp (num - 30))) (num ≥ 30 ∧ num ≤ 37)
  have h₃ := h₂.ite (h₂.setFore (colour.jmp (second - 30 + 8))) (num = 1 ∧ second ≥ 30 ∧ second ≤ 37)
  have h₄ := h₃.ite (h₃.setBack (colour.jmp (num - 40))) (num ≥ 40 ∧ num ≤ 47)
  exact h₄.ite (h₄.setBack (colour.jmp (second - 40 + 8))) (num = 1 ∧ second ≥ 40 ∧ second ≤ 47)

theorem Alike.command (h : Alike s t) (data : BitVec 8) (num second : Int)
    : Alike (s.command data num second) (t.command data num second) := by
  obtain ⟨-, -, hx, hy, -⟩ := alike_iff.mp h
  have hleft : Alike { s with x := 0 } { t with x := 0 } := h.setCursor rfl hy
  unfold Tty.command
  split
  case h_1 => exact h.up num
  case h_2 => exact h.down num
  case h_3 =>
    rw [hx]
    exact h.setCursor rfl hy
  case h_4 =>
    rw [hx]
    split
    . exact hleft
    . exact h.setCursor rfl hy
  case h_5 => exact hleft.down num
  case h_6 => exact hleft.up num
  case h_7 => exact h.setCursor rfl hy
  case h_8 =>
    have hhome : Alike { s with x := 0, y := 0 } { t with x := 0, y := 0 } := h.setCursor rfl rfl
    exact hhome.position num second
  case h_9 => exact h.position num second
  case h_10 =>
    unfold clearFromCursor2End clearFromBeginning2Cursor
    rw [hx, hy]
    split
    . exact h.clearCells _ _
    . split
      . exact h.clearCells _ _
      . split
        . exact h.cls
        . exact h
  case h_11 =>
    unfold clearLineFromCursor2End clearLineFromBeginning2Cursor clearLine
    rw [hx, hy]
    split
    . exact h.clearCells _ _
    . split
      . exact h.clearCells _ _
      . split
        . exact h.clearCells _ _
        . exact h
  case h_12 => exact h.cls
  case h_13 => exact h.cls
  case h_14 => exact h.colour num second
  case h_15 => exact h

end Alike

end Tty
end Osproj
