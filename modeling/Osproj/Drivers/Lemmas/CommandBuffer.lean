import Osproj.Drivers.Lemmas.Screen

/-!
This module contains the bounds of the accesses to `command_buf` over runs of written bytes. The test
that should end an over-long parameter string comes after a `return`, so the bounds hold in exactly
those runs in which no parameter string gets that long.
-/

namespace Osproj
namespace Tty

theorem atoi.scan_of_mem {dec : List (BitVec 8)} {terminator : BitVec 8} (h : terminator ∈ dec)
    (n : Nat)
    : ∃ i ≤ dec.length, atoi.scan dec terminator n = some i := by
  induction n generalizing dec with
  | zero => exact ⟨0, Nat.zero_le _, by simp [atoi.scan]⟩
  | succ n ih =>
    cases dec with
    | nil => simp at h
    | cons c dec =>
      simp only [atoi.scan]
      split
      . exact ⟨0, Nat.zero_le _, rfl⟩
      . next hc =>
        have hmem : terminator ∈ dec := by
          simpa [Ne.symm hc] using h
        obtain ⟨i, hi, heq⟩ := ih hmem
        exact ⟨i + 1, by simpa using hi, by simp [heq]⟩

theorem atoi.sum_of_le {dec : List (BitVec 8)} {n : Nat} (h : n ≤ dec.length) (base result : Int)
    : ∃ v, atoi.sum dec n base result = some v := by
  induction n generalizing base result with
  | zero => exact ⟨result, rfl⟩
  | succ j ih =>
    have hc : dec[j]? = some dec[j] := List.getElem?_eq_getElem (by omega)
    simp only [atoi.sum, hc, Option.bind_eq_bind, Option.bind_some]
    exact ih (by omega) _ _

theorem atoi_of_mem {dec : List (BitVec 8)} {terminator : BitVec 8} (h : terminator ∈ dec)
    : ∃ v, atoi dec terminator = some v := by
  obtain ⟨i, hi, hscan⟩ := atoi.scan_of_mem h 12
  simp only [atoi, hscan, Option.bind_eq_bind, Option.bind_some]
  split
  . exact ⟨-1, rfl⟩
  . exact atoi.sum_of_le hi 1 0

theorem atoiComma.find_of_le {dec : List (BitVec 8)} {n : Nat} (h : n ≤ dec.length)
    : ∃ o, atoiComma.find dec n = some o ∧ ∀ i ∈ o, dec[i]? = some 59 := by
  induction n generalizing dec with
  | zero => exact ⟨none, by simp [atoiComma.find], by simp⟩
  | succ n ih =>
    cases dec with
    | nil => simp at h
    | cons c dec =>
      simp only [atoiComma.find]
      split
      . next hc => exact ⟨some 0, rfl, by simp [hc]⟩
      . next hc =>
        obtain ⟨o, ho, hmem⟩ := @ih dec (by simpa using h)
        refine ⟨o.map (· + 1), by simp [ho], ?_⟩
        intro i hi
        rw [Option.mem_def, Option.map_eq_some_iff] at hi
        obtain ⟨j, hj, rfl⟩ := hi
        simpa using hmem j hj

theorem atoiComma_of_last {dec : List (BitVec 8)} (hlen : dec.length = CMD_BUF_SZ)
    (hlast : dec[CMD_BUF_SZ - 1]? = some 0)
    : ∃ p, atoiComma dec = some p := by
  obtain ⟨o, hfind, hmem⟩ := atoiComma.find_of_le (Nat.le_of_eq hlen.symm)
  simp only [atoiComma, hfind, Option.bind_eq_bind, Option.bind_some]
  cases o with
  | none =>
    obtain ⟨v, hv⟩ := atoi_of_mem (List.mem_of_getElem? hlast)
    exact ⟨(v, -1), by rw [hv]; rfl⟩
  | some i =>
    have hsemi : dec[i]? = some 59 := hmem i rfl
    have hi : i < CMD_BUF_SZ - 1 := by
      have hlt : i < dec.length := (List.getElem?_eq_some_iff.mp hsemi).1
      have hne : i ≠ CMD_BUF_SZ - 1 := by
        rintro rfl
        rw [hlast] at hsemi
        exact absurd hsemi (by decide)
      simp only [CMD_BUF_SZ] at *
      omega
    have hrest : (dec.drop (i + 1))[CMD_BUF_SZ - 1 - (i + 1)]? = some 0 := by
      rw [List.getElem?_drop, show i + 1 + (CMD_BUF_SZ - 1 - (i + 1)) = CMD_BUF_SZ - 1 by omega]
      exact hlast
    obtain ⟨v, hv⟩ := atoi_of_mem (List.mem_of_getElem? hsemi)
    obtain ⟨w, hw⟩ := atoi_of_mem (List.mem_of_getElem? hrest)
    exact ⟨(v, w), by simp only [hv, hw]; rfl⟩

/--
What must hold of every byte: the accesses to `command_buf` it makes are below `CMD_BUF_SZ`, and if
it is the one that makes the parameter string too long, it ends the sequence.
-/
def InCommandBuf (s : Tty) (w : Write) : Prop :=
  s.commandBuf.length = CMD_BUF_SZ
    ∧ ∃ s', s.step w = some s'
        ∧ (s.IsParameter w → s.bufPtr + 1 ≥ CMD_BUF_SZ - 1 →
            s'.commandSequenceStatus = 0 ∧ s'.bufPtr = 0)

/--
The condition under which it does: it does not make the parameter string too long.
-/
def ParameterOk (s : Tty) (w : Write) : Prop :=
  s.IsParameter w → s.bufPtr + 1 < CMD_BUF_SZ - 1

instance (s : Tty) (w : Write) : Decidable (s.ParameterOk w) := by
  unfold ParameterOk
  infer_instance

structure Spare (s : Tty) : Prop where
  length_eq : s.commandBuf.length = CMD_BUF_SZ
  bufPtr_lt : s.bufPtr < CMD_BUF_SZ - 1
  last_eq : s.commandBuf[CMD_BUF_SZ - 1]? = some 0

theorem spare_terminateSequence (s : Tty) : s.terminateSequence.Spare := by
  exact ⟨by simp [terminateSequence], by simp [terminateSequence, CMD_BUF_SZ],
    by simp [terminateSequence, CMD_BUF_SZ]⟩

theorem step_of_parameterOk {s : Tty} (h : s.Spare) {w : Write} (hok : s.ParameterOk w)
    : ∃ s', s.step w = some s' ∧ s'.Spare := by
  have ⟨hlen, hptr, hlast⟩ := h
  rcases step_cases s w with ⟨_, -, -, heq⟩ | ⟨hparam, heq⟩ | ⟨-, heq⟩ | ⟨-, -, heq⟩
  . exact ⟨_, heq, ⟨hlen, hptr, hlast⟩⟩
  . have hnext := hok hparam
    rw [if_pos (by omega)] at heq
    refine ⟨_, heq, ⟨by simpa using hlen, hnext, ?_⟩⟩
    rw [List.getElem?_set_ne (by omega)]
    exact hlast
  . obtain ⟨p, hp⟩ := atoiComma_of_last hlen hlast
    rw [hp, Option.map_some] at heq
    exact ⟨_, heq, spare_terminateSequence _⟩
  . exact ⟨_, heq, spare_terminateSequence _⟩

theorem bufPtr_of_parameter {s s' : Tty} {w : Write} (hparam : s.IsParameter w)
    (hstep : s.step w = some s')
    : s'.bufPtr = s.bufPtr + 1 := by
  unfold IsParameter at hparam
  rcases step_cases s w with ⟨_, hnot, -, -⟩ | ⟨-, heq⟩ | ⟨hfinal, -⟩ | ⟨hnot, -, -⟩
  . exact absurd hparam hnot
  . rw [heq] at hstep
    split at hstep
    . rw [Option.some.injEq] at hstep
      exact hstep ▸ rfl
    . simp at hstep
  . exact absurd (hparam.2.2.symm.trans hfinal.2.2) (by decide)
  . exact absurd hparam hnot

theorem inCommandBuf_iff_parameterOk {s : Tty} (h : s.Spare) (w : Write)
    : s.InCommandBuf w ↔ s.ParameterOk w := by
  constructor
  . rintro ⟨-, s', hstep, hends⟩ hparam
    have hptr := bufPtr_of_parameter hparam hstep
    by_contra hlong
    have hend := hends hparam (by omega)
    omega
  . intro hok
    obtain ⟨s', hstep, -⟩ := step_of_parameterOk h hok
    refine ⟨h.length_eq, s', hstep, ?_⟩
    intro hparam hlong
    have := hok hparam
    omega

def CommandBufBounded (mem : Memory) (framebuffer : TextBuffer) (ws : List Write) : Prop :=
  ∃ s₀, (boot mem).ttyPreinit framebuffer MULTIBOOT_FRAMEBUFFER_TYPE_EGA_TEXT = some s₀
    ∧ Run.Guarded step InCommandBuf s₀ ws

theorem commandBufBounded_iff (mem : Memory) (framebuffer : TextBuffer) (ws : List Write)
    : CommandBufBounded mem framebuffer ws
        ↔
      ∃ s₀, (boot mem).ttyPreinit framebuffer MULTIBOOT_FRAMEBUFFER_TYPE_EGA_TEXT = some s₀
        ∧ Run.Guarded step ParameterOk s₀ ws := by
  obtain ⟨s₀, hpre, -, -, hbuf, hptr⟩ := ttyPreinit_spec mem framebuffer
  have hspare : s₀.Spare := by
    exact ⟨by simp [hbuf], by simp [hptr, CMD_BUF_SZ], by simp [hbuf, CMD_BUF_SZ]⟩
  have hstep {s : Tty} {w : Write} {s' : Tty} (h : s.Spare) (hok : s.InCommandBuf w)
      (hstep : s.step w = some s')
      : s'.Spare := by
    obtain ⟨t, ht, hspare⟩ := step_of_parameterOk h ((inCommandBuf_iff_parameterOk h w).mp hok)
    rw [hstep, Option.some.injEq] at ht
    exact ht ▸ hspare
  have hiff : Run.Guarded step InCommandBuf s₀ ws ↔ Run.Guarded step ParameterOk s₀ ws :=
    Run.guarded_congr (fun _ w h => inCommandBuf_iff_parameterOk h w)
      (fun _ _ _ h hok hs => hstep h hok hs) ws hspare
  unfold CommandBufBounded
  simp only [hpre, Option.some.injEq, exists_eq_left']
  exact hiff

theorem run_ne_none_of_guarded {s : Tty} {ws : List Write}
    (h : Run.Guarded step InCommandBuf s ws)
    : Run.run step s ws ≠ none := by
  have hprogress : ∀ (s : Tty) (w : Write), True → s.InCommandBuf w →
      ∃ s', s.step w = some s' ∧ True := by
    rintro s w - ⟨-, s', hstep, -⟩
    exact ⟨s', hstep, trivial⟩
  obtain ⟨s', hrun, -⟩ := h.progress hprogress trivial
  simp [hrun]

/--
The 33rd digit after `ESC [` is stored behind the end of `command_buf`.
-/
theorem not_commandBufBounded
    : ¬ CommandBufBounded ⟨fun _ => 0, []⟩ ⟨0xB8000, by decide⟩
        (([0x1B, 0x5B] ++ List.replicate 33 0x31).map (⟨1, ·, 0, by decide⟩)) := by
  rintro ⟨s₀, hpre, h⟩
  apply run_ne_none_of_guarded h
  have hnone : (Run.run step s₀
      (([0x1B, 0x5B] ++ List.replicate 33 0x31).map (⟨1, ·, 0, by decide⟩))).isNone = true := by
    cases hpre
    decide +kernel
  exact Option.isNone_iff_eq_none.mp hnone

end Tty
end Osproj
