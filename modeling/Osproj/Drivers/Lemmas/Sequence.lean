import Osproj.Drivers.Lemmas.Alike
import Osproj.Drivers.Lemmas.CommandBuffer

/-!
This module contains what a complete escape sequence does: its own parameters are read behind those that were
collected before it, and without any of these its effect is a function of the sequence and of what is shown.
-/

namespace Osproj
namespace Tty

/--
A byte written to any terminal: a step looks at nothing else.
-/
def receiveByte (s : Tty) (c : BitVec 8) : Option Tty := s.step ⟨1, c, 0, by decide⟩

theorem step_eq_receiveByte (s : Tty) (w : Write) : s.step w = s.receiveByte w.data := by
  unfold receiveByte step ttyWrite
  rw [if_neg w.minor_ne]
  exact (if_neg (show ¬ (1 : BitVec 16) = 0 by decide)).symm

theorem run_step (s : Tty) (ws : List Write) : Run.run step s ws = Run.run receiveByte s (ws.map Write.data) := by
  rw [Run.run_map]
  exact Run.run_congr (fun w _ s => step_eq_receiveByte s w) s

section Bytes

variable {s : Tty} {c : BitVec 8}

theorem receiveByte_esc : s.receiveByte 0x1B = some { s with commandSequenceStatus := 1 } := by
  rfl

theorem receiveByte_bracket (h : s.commandSequenceStatus = 1)
    : s.receiveByte 0x5B = some { s with commandSequenceStatus := 2 } := by
  unfold receiveByte step ttyWrite
  dsimp only
  rw [if_neg (by decide), if_neg (by decide), if_pos ⟨rfl, h⟩]

theorem ne_esc_of_parameter (hc : isNumberOrComma c) : c ≠ 0x1B := by
  rintro rfl
  exact absurd hc (by decide)

theorem receiveByte_parameter (h : s.commandSequenceStatus = 2) (hc : isNumberOrComma c)
    : s.receiveByte c
        =
      if s.bufPtr < s.commandBuf.length then
        some { s with commandBuf := s.commandBuf.set s.bufPtr c, bufPtr := s.bufPtr + 1 }
      else
        none := by
  unfold receiveByte step ttyWrite
  dsimp only
  rw [if_neg (by decide), if_neg (ne_esc_of_parameter hc), if_neg (by rw [h]; omega), if_pos h, if_pos hc]

theorem receiveByte_final (h : s.commandSequenceStatus = 2) (hesc : c ≠ 0x1B) (hc : ¬ isNumberOrComma c)
    : s.receiveByte c
        =
      (atoiComma s.commandBuf).map fun p => (s.command c p.1 p.2).terminateSequence := by
  unfold receiveByte step ttyWrite
  dsimp only
  rw [if_neg (by decide), if_neg hesc, if_neg (by rw [h]; omega), if_pos h, if_neg hc]
  cases atoiComma s.commandBuf <;> rfl

theorem receiveByte_other (h : s.commandSequenceStatus ≠ 2) (hesc : c ≠ 0x1B)
    (hbracket : ¬ (c = 0x5B ∧ s.commandSequenceStatus = 1))
    : s.receiveByte c = some (s.putchar c).terminateSequence := by
  unfold receiveByte step ttyWrite
  dsimp only
  rw [if_neg (by decide), if_neg hesc, if_neg hbracket, if_neg h]

end Bytes

/--
`command_buf` after the parameters `ps`.
-/
def buffer (ps : List (BitVec 8)) : List (BitVec 8) := ps ++ List.replicate (CMD_BUF_SZ - ps.length) 0

/--
The parameters `ps` were collected and are not used yet.
-/
structure Collected (s : Tty) (ps : List (BitVec 8)) : Prop where
  parameters : ∀ p ∈ ps, isNumberOrComma p
  length_le : ps.length ≤ CMD_BUF_SZ
  bufPtr_eq : s.bufPtr = ps.length
  commandBuf_eq : s.commandBuf = buffer ps

/--
A complete sequence `ESC [`, parameters, final byte.
-/
structure Sequence where
  params : List (BitVec 8)
  final : BitVec 8
  short : params.length ≤ 31
  isParameter : ∀ p ∈ params, isNumberOrComma p
  isFinal : ¬ isNumberOrComma final
  ne_esc : final ≠ 0x1B

def Sequence.bytes (q : Sequence) : List (BitVec 8) := 0x1B :: 0x5B :: (q.params ++ [q.final])

section Sequence

variable {s : Tty} {ps qs : List (BitVec 8)}

theorem length_buffer (h : ps.length ≤ CMD_BUF_SZ) : (buffer ps).length = CMD_BUF_SZ := by
  rw [buffer, List.length_append, List.length_replicate]
  omega

theorem set_buffer (h : ps.length < CMD_BUF_SZ) (c : BitVec 8) : (buffer ps).set ps.length c = buffer (ps ++ [c]) := by
  obtain ⟨n, hn⟩ : ∃ n, CMD_BUF_SZ - ps.length = n + 1 := ⟨CMD_BUF_SZ - ps.length - 1, by omega⟩
  rw [buffer, buffer, List.set_append_right _ _ (Nat.le_refl _), Nat.sub_self, List.length_append, List.length_singleton,
    hn, show CMD_BUF_SZ - (ps.length + 1) = n by omega, List.replicate_succ, List.set_cons_zero, List.append_assoc]
  rfl

/--
Inside of a sequence, behind the parameters `ps`.
-/
def inside (s : Tty) (ps : List (BitVec 8)) : Tty :=
  { s with commandSequenceStatus := 2, commandBuf := buffer ps, bufPtr := ps.length }

theorem Collected.run_start (h : s.Collected ps) : Run.run receiveByte s [0x1B, 0x5B] = some (s.inside ps) := by
  rw [Run.run_cons, receiveByte_esc, Option.bind_some, Run.run_cons, receiveByte_bracket rfl, Option.bind_some,
    Run.run_nil, inside, ← h.bufPtr_eq, ← h.commandBuf_eq]

theorem receiveByte_inside (h : ps.length ≤ CMD_BUF_SZ) {c : BitVec 8} (hc : isNumberOrComma c)
    : (s.inside ps).receiveByte c = if ps.length < CMD_BUF_SZ then some (s.inside (ps ++ [c])) else none := by
  rw [receiveByte_parameter rfl hc]
  have hlength : (s.inside ps).commandBuf.length = CMD_BUF_SZ := length_buffer h
  have hptr : (s.inside ps).bufPtr = ps.length := rfl
  rw [hlength, hptr]
  by_cases hroom : ps.length < CMD_BUF_SZ
  . rw [if_pos hroom, if_pos hroom, inside, inside, set_buffer hroom, List.length_append]
    rfl
  . rw [if_neg hroom, if_neg hroom]

theorem run_inside (h : ps.length ≤ CMD_BUF_SZ) (hqs : ∀ q ∈ qs, isNumberOrComma q)
    : Run.run receiveByte (s.inside ps) qs
        =
      if ps.length + qs.length ≤ CMD_BUF_SZ then some (s.inside (ps ++ qs)) else none := by
  induction qs generalizing ps with
  | nil => rw [List.length_nil, Nat.add_zero, if_pos h, List.append_nil, Run.run_nil]
  | cons q qs ih =>
    rw [Run.run_cons, receiveByte_inside h (hqs q (List.mem_cons_self ..)), List.length_cons]
    by_cases hroom : ps.length < CMD_BUF_SZ
    . have hlength : (ps ++ [q]).length = ps.length + 1 := List.length_append
      rw [if_pos hroom, Option.bind_some, ih (by omega) (fun p hp => hqs p (List.mem_cons_of_mem q hp)), hlength,
        ← List.append_cons, Nat.add_assoc, Nat.add_comm 1]
    . rw [if_neg hroom, if_neg (by omega), Option.bind_none]

/--
A sequence is carried out with what was collected before in front of its own parameters.
-/
theorem Collected.run_sequence (h : s.Collected ps) (q : Sequence)
    : Run.run receiveByte s q.bytes
        =
      if ps.length + q.params.length ≤ CMD_BUF_SZ then
        (atoiComma (buffer (ps ++ q.params))).map fun p =>
          ((s.inside (ps ++ q.params)).command q.final p.1 p.2).terminateSequence
      else
        none := by
  have hstart : q.bytes = [0x1B, 0x5B] ++ (q.params ++ [q.final]) := rfl
  rw [hstart, Run.run_append, h.run_start, Option.bind_some, Run.run_append, run_inside h.length_le q.isParameter]
  split
  . rw [Option.bind_some, Run.run_cons, receiveByte_final rfl q.ne_esc q.isFinal]
    simp only [Run.run_nil, Option.bind_fun_some]
    rfl
  . rfl

end Sequence

section Effect

/--
A terminal that shows `v`.
-/
def canvas (framebuffer : TextBuffer) (v : View) : Tty :=
  { boot ((⟨fun _ => 0, []⟩ : Memory).storeBytes (framebuffer.addr + 0xC0000000) v.cells) with
    VRAM := framebuffer.addr + 0xC0000000, x := v.x, y := v.y, fore := v.fore, back := v.back }

/--
What a sequence shows, from its own parameters alone.
-/
def effect (framebuffer : TextBuffer) (q : Sequence) (v : View) : View :=
  let p := (atoiComma (buffer q.params)).getD (0, -1)
  ((canvas framebuffer v).command q.final p.1 p.2).shown

variable {s : Tty} {framebuffer : TextBuffer} {ps : List (BitVec 8)}

theorem shown_canvas (framebuffer : TextBuffer) {v : View} (hlength : v.cells.length = SCREEN_SZ)
    : (canvas framebuffer v).shown = v := by
  have hcells : (canvas framebuffer v).mem.loadBytes (framebuffer.addr + 0xC0000000) SCREEN_SZ = v.cells := by
    rw [← hlength]
    exact Memory.loadBytes_storeBytes _ _ _
  obtain ⟨cells, x, y, fore, back⟩ := v
  exact congrArg (fun cells => View.mk cells x y fore back) hcells

theorem alike_canvas (hVRAM : s.VRAM = framebuffer.addr + 0xC0000000) : Alike s (canvas framebuffer s.shown) := by
  have hlength : s.shown.cells.length = SCREEN_SZ := by
    simp only [shown, Memory.length_loadBytes]
  exact ⟨hVRAM, (shown_canvas framebuffer hlength).symm⟩

theorem atoiComma_buffer (h : ps.length ≤ 31) : ∃ p, atoiComma (buffer ps) = some p := by
  rw [show (31 : Nat) = CMD_BUF_SZ - 1 from rfl] at h
  have hpos : 0 < CMD_BUF_SZ := by decide
  apply atoiComma_of_last (length_buffer (by omega))
  rw [buffer, List.getElem?_append_right h, List.getElem?_replicate, if_pos (by omega)]

/--
A sequence has its own effect when nothing was collected before.
-/
theorem Collected.run_fresh (h : s.Collected []) (hVRAM : s.VRAM = framebuffer.addr + 0xC0000000) (q : Sequence)
    : ∃ s', Run.run receiveByte s q.bytes = some s' ∧ s'.shown = effect framebuffer q s.shown := by
  obtain ⟨p, hp⟩ := atoiComma_buffer q.short
  have hlength : ([] : List (BitVec 8)).length + q.params.length ≤ CMD_BUF_SZ := by
    have hshort := q.short
    rw [List.length_nil, CMD_BUF_SZ]
    omega
  refine ⟨((s.inside q.params).command q.final p.1 p.2).terminateSequence, ?_, ?_⟩
  . rw [h.run_sequence q, if_pos hlength, List.nil_append, hp]
    rfl
  . have halike : Alike (s.inside q.params) (canvas framebuffer s.shown) := by
      obtain ⟨hVRAM', hshown⟩ := alike_canvas hVRAM
      exact ⟨hVRAM', hshown⟩
    rw [effect, hp]
    exact (halike.command q.final p.1 p.2).shown_eq

end Effect

end Tty
end Osproj
