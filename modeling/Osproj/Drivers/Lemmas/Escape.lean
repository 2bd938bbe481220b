import Osproj.Drivers.Lemmas.Sequence

/-!
This module contains the exact condition under which an escape sequence means the same after everything that was
written before it. An `ESC` inside of a sequence leaves the parameters of that sequence in `command_buf`.
-/

namespace Osproj
namespace Tty

section Probe

/--
`ESC [ 0 0 0 0 0 0 0 0 0 5 ; 0 H`. Its first number is as long as `atoi` takes.
-/
def probe : Sequence where
  params := [0x30, 0x30, 0x30, 0x30, 0x30, 0x30, 0x30, 0x30, 0x30, 0x35, 0x3B, 0x30]
  final := 0x48
  short := by decide
  isParameter := by decide
  isFinal := by decide
  ne_esc := by decide

theorem x_effect_probe (framebuffer : TextBuffer) (v : View) : (effect framebuffer probe v).x = 5 := by
  have hnums : atoiComma (buffer probe.params) = some (5, 0) := by decide
  rw [effect, hnums]
  rfl

theorem le_scan {as bs : List (BitVec 8)} {c : BitVec 8} {n i : Nat} (h : c ∉ as)
    (hscan : atoi.scan (as ++ bs) c n = some i)
    : min n as.length ≤ i := by
  induction as generalizing n i with
  | nil => simp
  | cons a as ih =>
    rw [List.mem_cons, not_or] at h
    cases n with
    | zero => omega
    | succ n =>
      rw [List.cons_append, atoi.scan, if_neg (Ne.symm h.1), Option.map_eq_some_iff] at hscan
      obtain ⟨j, hj, rfl⟩ := hscan
      have := ih h.2 hj
      rw [List.length_cons]
      omega

theorem atoi_long {as bs : List (BitVec 8)} {c : BitVec 8} {v : Int} (h : c ∉ as) (hlength : 11 ≤ as.length)
    (hatoi : atoi (as ++ bs) c = some v)
    : v = -1 := by
  obtain ⟨i, hscan, hatoi⟩ := Option.bind_eq_some_iff.mp hatoi
  have := le_scan h hscan
  rw [if_pos (by omega), Option.pure_def, Option.some.injEq] at hatoi
  exact hatoi.symm

theorem find_append {as bs : List (BitVec 8)} (h : 59 ∉ as) {n : Nat} (hn : as.length < n)
    : atoiComma.find (as ++ 59 :: bs) n = some (some as.length) := by
  induction as generalizing n with
  | nil =>
    obtain ⟨n, rfl⟩ := Nat.exists_eq_succ_of_ne_zero (Nat.ne_of_gt hn)
    rfl
  | cons a as ih =>
    rw [List.mem_cons, not_or] at h
    rw [List.length_cons] at hn
    obtain ⟨n, rfl⟩ := Nat.exists_eq_succ_of_ne_zero (show n ≠ 0 by omega)
    rw [List.cons_append, atoiComma.find, if_neg (Ne.symm h.1), ih h.2 (by omega)]
    rfl

/--
The second number starts behind the first semicolon.
-/
theorem atoi_second {as bs : List (BitVec 8)} {p : Int × Int} (has : 59 ∉ as) (hlength : as.length < CMD_BUF_SZ)
    (h : atoiComma (as ++ 59 :: bs) = some p)
    : atoi bs 0 = some p.2 := by
  obtain ⟨found, hfind, h⟩ := Option.bind_eq_some_iff.mp h
  rw [find_append has hlength, Option.some.injEq] at hfind
  subst hfind
  obtain ⟨v, -, h⟩ := Option.bind_eq_some_iff.mp h
  obtain ⟨w, hw, h⟩ := Option.bind_eq_some_iff.mp h
  cases h
  have hdrop : (as ++ 59 :: bs).drop (as.length + 1) = bs := by
    rw [List.append_cons]
    exact List.drop_left' List.length_append
  rw [hdrop] at hw
  exact hw

theorem atoi_first {dec : List (BitVec 8)} {p : Int × Int} (h : atoiComma dec = some p)
    : atoi dec 59 = some p.1 ∨ p.2 = -1 := by
  obtain ⟨found, -, h⟩ := Option.bind_eq_some_iff.mp h
  cases found with
  | none =>
    obtain ⟨v, -, h⟩ := Option.bind_eq_some_iff.mp h
    cases h
    exact Or.inr rfl
  | some i =>
    obtain ⟨v, hv, h⟩ := Option.bind_eq_some_iff.mp h
    obtain ⟨w, -, h⟩ := Option.bind_eq_some_iff.mp h
    cases h
    exact Or.inl hv

/--
With anything in front of it, one of the two numbers of the probe is too long.
-/
theorem atoiComma_probe {ps : List (BitVec 8)} (hps : ∀ p ∈ ps, isNumberOrComma p) (hne : ps ≠ [])
    (hlength : ps.length ≤ CMD_BUF_SZ) {p : Int × Int} (h : atoiComma (buffer (ps ++ probe.params)) = some p)
    : p.1 = -1 ∨ p.2 = -1 := by
  have hpos : 1 ≤ ps.length := List.length_pos_iff.mpr hne
  have hdigits : probe.params = probe.params.take 10 ++ 59 :: [0x30] := by rfl
  rw [buffer] at h
  generalize List.replicate (CMD_BUF_SZ - (ps ++ probe.params).length) (0 : BitVec 8) = zeros at h
  by_cases hsemi : 59 ∈ ps
  -- the first number is collected, the second goes on with the probe
  . obtain ⟨as, bs, rfl, has⟩ := List.eq_append_cons_of_mem hsemi
    have hbuffer : as ++ 59 :: bs ++ probe.params ++ zeros = as ++ 59 :: (bs ++ probe.params ++ zeros) := by
      simp only [List.append_assoc, List.cons_append]
    rw [List.length_append, List.length_cons] at hlength
    rw [hbuffer] at h
    refine Or.inr (atoi_long ?_ ?_ (atoi_second has (by omega) h))
    . intro hmem
      rcases List.mem_append.mp hmem with hmem | hmem
      . exact absurd (hps 0 (List.mem_append_right as (List.mem_cons_of_mem 59 hmem))) (by decide)
      . exact absurd hmem (by decide)
    . rw [List.length_append]
      exact Nat.le_trans (show 11 ≤ probe.params.length by decide) (Nat.le_add_left _ _)
  -- the first number goes on with the probe
  . have hbuffer : ps ++ probe.params ++ zeros = (ps ++ probe.params.take 10) ++ 59 :: ([0x30] ++ zeros) := by
      rw [hdigits]
      simp only [List.append_assoc, List.cons_append]
      rfl
    have hmem : 59 ∉ ps ++ probe.params.take 10 := by
      rw [List.mem_append, not_or]
      exact ⟨hsemi, by decide⟩
    rw [hbuffer] at h
    refine (atoi_first h).imp_left (fun hv => atoi_long hmem ?_ hv)
    rw [List.length_append]
    exact Nat.add_le_add hpos (show 10 ≤ (probe.params.take 10).length by decide)

theorem Collected.run_probe {s s' : Tty} {ps : List (BitVec 8)} (h : s.Collected ps) (hne : ps ≠ [])
    (hrun : Run.run receiveByte s probe.bytes = some s')
    : s'.x = 0 := by
  rw [h.run_sequence] at hrun
  split at hrun
  . obtain ⟨p, hp, rfl⟩ := Option.map_eq_some_iff.mp hrun
    have hnums := atoiComma_probe h.parameters hne h.length_le hp
    change (Tty.position { s.inside (ps ++ probe.params) with x := 0, y := 0 } p.1 p.2).x = 0
    unfold Tty.position
    split
    . next hsecond =>
      rw [hnums.resolve_right hsecond]
      rfl
    . rfl
  . cases hrun

end Probe

/--
How a sequence goes on after a byte: with more parameters, or behind an `ESC` that starts it anew. Any other byte
ends it.
-/
def goesOn (inside : Bool) (c : BitVec 8) : Option Bool :=
  if c = 0x1B then
    some false
  else if inside then
    if isNumberOrComma c then some true else none
  else if c = 0x5B then
    some true
  else
    none

/--
The bytes end in a sequence that has got a parameter and was not ended by a final byte.
-/
def Unended (bytes : List (BitVec 8)) : Prop :=
  ∃ u p v, bytes = u ++ [0x1B, 0x5B, p] ++ v ∧ isNumberOrComma p ∧ Run.run goesOn true v ≠ none

/--
A parameter was collected, and the sequence goes on.
-/
structure Pending (s : Tty) (inside : Bool) : Prop where
  bufPtr_pos : 0 < s.bufPtr
  status_eq : s.commandSequenceStatus = if inside then 2 else 1

section Unended

variable {s s' : Tty} {c : BitVec 8} {inside : Bool}

theorem Pending.receiveByte (h : s.Pending inside) {inside' : Bool} (hc : goesOn inside c = some inside')
    (hstep : s.receiveByte c = some s')
    : s'.Pending inside' := by
  obtain ⟨hpos, hstatus⟩ := h
  unfold goesOn at hc
  split at hc
  . next hesc =>
    rw [hesc, receiveByte_esc] at hstep
    cases hc
    cases hstep
    exact ⟨hpos, rfl⟩
  . split at hc
    . next hinside =>
      rw [hinside, if_pos rfl] at hstatus
      split at hc
      . next hparam =>
        rw [receiveByte_parameter hstatus hparam] at hstep
        split at hstep
        . cases hc
          cases hstep
          exact ⟨Nat.succ_pos _, hstatus⟩
        . cases hstep
      . cases hc
    . next hinside =>
      rw [if_neg hinside] at hstatus
      split at hc
      . next hbracket =>
        rw [hbracket, receiveByte_bracket hstatus] at hstep
        cases hc
        cases hstep
        exact ⟨hpos, rfl⟩
      . cases hc

theorem Pending.run (h : s.Pending inside) {v : List (BitVec 8)} (hv : Run.run goesOn inside v ≠ none)
    (hrun : Run.run Tty.receiveByte s v = some s')
    : 0 < s'.bufPtr := by
  induction v generalizing s inside with
  | nil =>
    cases hrun
    exact h.bufPtr_pos
  | cons c v ih =>
    rw [Run.run_cons] at hv hrun
    obtain ⟨s₁, hstep, hrun⟩ := Option.bind_eq_some_iff.mp hrun
    cases hc : goesOn inside c with
    | none =>
      rw [hc] at hv
      exact absurd rfl hv
    | some inside' =>
      rw [hc] at hv
      exact ih (h.receiveByte hc hstep) hv hrun

theorem bufPtr_pos_of_unended {bytes : List (BitVec 8)} (h : Unended bytes)
    (hrun : Run.run Tty.receiveByte s bytes = some s')
    : 0 < s'.bufPtr := by
  obtain ⟨u, p, v, rfl, hp, hv⟩ := h
  rw [Run.run_append, Run.run_append] at hrun
  obtain ⟨s₂, hrun, hrun₂⟩ := Option.bind_eq_some_iff.mp hrun
  obtain ⟨s₁, -, hrun₁⟩ := Option.bind_eq_some_iff.mp hrun
  rw [Run.run_cons, receiveByte_esc, Option.bind_some, Run.run_cons, receiveByte_bracket rfl, Option.bind_some,
    Run.run_cons, receiveByte_parameter rfl hp] at hrun₁
  split at hrun₁
  . have hpending : s₂.Pending true := by
      cases hrun₁
      exact ⟨Nat.succ_pos _, rfl⟩
    exact hpending.run hv hrun₂
  . cases hrun₁

/--
What the state of the parser says about the bytes that led to it.
-/
structure Parsed (bytes : List (BitVec 8)) (s : Tty) : Prop where
  collected : ∃ ps, s.Collected ps
  esc (h : s.commandSequenceStatus = 1) : ∃ u, bytes = u ++ [0x1B]
  bracket (h : s.commandSequenceStatus = 2) (hptr : s.bufPtr = 0) : ∃ u, bytes = u ++ [0x1B, 0x5B]
  pending (hptr : 0 < s.bufPtr)
    : ∃ u p v inside, bytes = u ++ [0x1B, 0x5B, p] ++ v ∧ isNumberOrComma p
        ∧ Run.run goesOn true v = some inside ∧ s.commandSequenceStatus = if inside then 2 else 1

theorem parsed_terminateSequence (bytes : List (BitVec 8)) (s : Tty) : Parsed bytes s.terminateSequence := by
  refine ⟨⟨[], by simp, by simp, rfl, rfl⟩, fun h => absurd h ?_, fun h _ => absurd h ?_, fun hptr => ?_⟩
  . exact Nat.zero_ne_one
  . exact Nat.zero_ne_add_one 1
  . exact absurd hptr (Nat.lt_irrefl 0)

theorem goesOn_append {v : List (BitVec 8)} {inside' : Bool} (h : Run.run goesOn true v = some inside)
    (hc : goesOn inside c = some inside')
    : Run.run goesOn true (v ++ [c]) = some inside' := by
  rw [Run.run_append, h, Option.bind_some, Run.run_cons, hc, Option.bind_some, Run.run_nil]

theorem Parsed.receiveByte_esc {bytes : List (BitVec 8)} (h : Parsed bytes s)
    : Parsed (bytes ++ [0x1B]) { s with commandSequenceStatus := 1 } := by
  obtain ⟨ps, hps⟩ := h.collected
  refine ⟨⟨ps, ⟨hps.parameters, hps.length_le, hps.bufPtr_eq, hps.commandBuf_eq⟩⟩, fun _ => ⟨bytes, rfl⟩,
    fun htwo _ => absurd htwo (show ¬ 1 = 2 by decide), fun hptr => ?_⟩
  obtain ⟨u, p, v, inside, rfl, hp, hv, -⟩ := h.pending hptr
  exact ⟨u, p, v ++ [0x1B], false, List.append_assoc .., hp, goesOn_append hv (if_pos rfl), rfl⟩

theorem Parsed.receiveByte_bracket {bytes : List (BitVec 8)} (h : Parsed bytes s) (hstatus : s.commandSequenceStatus = 1)
    : Parsed (bytes ++ [0x5B]) { s with commandSequenceStatus := 2 } := by
  obtain ⟨ps, hps⟩ := h.collected
  refine ⟨⟨ps, ⟨hps.parameters, hps.length_le, hps.bufPtr_eq, hps.commandBuf_eq⟩⟩,
    fun hone => absurd hone (show ¬ 2 = 1 by decide), fun _ _ => ?_, fun hptr => ?_⟩
  . obtain ⟨u, rfl⟩ := h.esc hstatus
    exact ⟨u, List.append_assoc ..⟩
  . obtain ⟨u, p, v, inside, rfl, hp, hv, hinside⟩ := h.pending hptr
    have hfalse : inside = false := by
      rw [hstatus] at hinside
      cases inside with
      | false => rfl
      | true => exact absurd hinside (by decide)
    subst hfalse
    exact ⟨u, p, v ++ [0x5B], true, List.append_assoc .., hp, goesOn_append hv rfl, rfl⟩

theorem Parsed.receiveByte_parameter {bytes : List (BitVec 8)} (h : Parsed bytes s)
    (hstatus : s.commandSequenceStatus = 2) (hc : isNumberOrComma c) (hroom : s.bufPtr < s.commandBuf.length)
    : Parsed (bytes ++ [c]) { s with commandBuf := s.commandBuf.set s.bufPtr c, bufPtr := s.bufPtr + 1 } := by
  obtain ⟨ps, hps⟩ := h.collected
  rw [hps.commandBuf_eq, length_buffer hps.length_le, hps.bufPtr_eq] at hroom
  refine ⟨⟨ps ++ [c], ?_, ?_, ?_, ?_⟩, fun hone => absurd (hstatus.symm.trans hone) (by decide),
    fun _ hptr => absurd hptr (Nat.succ_ne_zero _), fun _ => ?_⟩
  . intro p hp
    rcases List.mem_append.mp hp with hp | hp
    . exact hps.parameters p hp
    . rw [List.mem_singleton.mp hp]
      exact hc
  . rw [List.length_append]
    exact hroom
  . rw [List.length_append, List.length_singleton, hps.bufPtr_eq]
  . rw [hps.bufPtr_eq, hps.commandBuf_eq, set_buffer hroom]
  . rcases Nat.eq_zero_or_pos s.bufPtr with hptr | hptr
    . obtain ⟨u, rfl⟩ := h.bracket hstatus hptr
      refine ⟨u, c, [], true, ?_, hc, rfl, hstatus⟩
      rw [List.append_nil, List.append_assoc]
      rfl
    . obtain ⟨u, p, v, inside, rfl, hp, hv, hinside⟩ := h.pending hptr
      have htrue : inside = true := by
        rw [hstatus] at hinside
        cases inside with
        | false => exact absurd hinside (by decide)
        | true => rfl
      subst htrue
      have hgoesOn : goesOn true c = some true := by
        rw [goesOn, if_neg (ne_esc_of_parameter hc), if_pos rfl, if_pos hc]
      exact ⟨u, p, v ++ [c], true, List.append_assoc .., hp, goesOn_append hv hgoesOn, hstatus⟩

theorem Parsed.receiveByte {bytes : List (BitVec 8)} (h : Parsed bytes s) (hstep : s.receiveByte c = some s')
    : Parsed (bytes ++ [c]) s' := by
  by_cases hesc : c = 0x1B
  . rw [hesc, Tty.receiveByte_esc] at hstep
    cases hstep
    exact hesc ▸ h.receiveByte_esc
  . by_cases hstatus : s.commandSequenceStatus = 2
    . by_cases hc : isNumberOrComma c
      . rw [Tty.receiveByte_parameter hstatus hc] at hstep
        split at hstep
        . next hroom =>
          cases hstep
          exact h.receiveByte_parameter hstatus hc hroom
        . cases hstep
      . rw [receiveByte_final hstatus hesc hc] at hstep
        obtain ⟨p, -, rfl⟩ := Option.map_eq_some_iff.mp hstep
        exact parsed_terminateSequence _ _
    . by_cases hbracket : c = 0x5B ∧ s.commandSequenceStatus = 1
      . rw [hbracket.1, Tty.receiveByte_bracket hbracket.2] at hstep
        cases hstep
        exact hbracket.1 ▸ h.receiveByte_bracket hbracket.2
      . rw [receiveByte_other hstatus hesc hbracket] at hstep
        cases hstep
        exact parsed_terminateSequence _ _

theorem Parsed.run {before bytes : List (BitVec 8)} (h : Parsed before s)
    (hrun : Run.run Tty.receiveByte s bytes = some s')
    : Parsed (before ++ bytes) s' := by
  induction bytes generalizing before s with
  | nil =>
    cases hrun
    rw [List.append_nil]
    exact h
  | cons c bytes ih =>
    rw [Run.run_cons] at hrun
    obtain ⟨s₁, hstep, hrun⟩ := Option.bind_eq_some_iff.mp hrun
    rw [List.append_cons]
    exact ih (h.receiveByte hstep) hrun

end Unended

section Theorem

/--
The terminal after the bytes `ws`, the first ones after `tty_preinit`.
-/
def Reached (mem : Memory) (framebuffer : TextBuffer) (ws : List Write) (s : Tty) : Prop :=
  ((boot mem).ttyPreinit framebuffer MULTIBOOT_FRAMEBUFFER_TYPE_EGA_TEXT).bind (fun s₀ => Run.run step s₀ ws) = some s

/--
Every complete sequence does to what is shown what `effect` says.
-/
def ShowsEffect (effect : Sequence → View → View) (s : Tty) : Prop :=
  ∀ (q : Sequence) (vs : List Write), vs.map Write.data = q.bytes →
    ∃ s', Run.run step s vs = some s' ∧ s'.shown = effect q s.shown

/--
A sequence starts with an empty `command_buf`.
-/
def StartsEmpty (s : Tty) : Prop :=
  ∀ vs : List Write, vs.map Write.data = [0x1B, 0x5B] →
    ∃ s', Run.run step s vs = some s' ∧ s'.commandSequenceStatus = 2 ∧ s'.bufPtr = 0
      ∧ s'.commandBuf = List.replicate CMD_BUF_SZ 0

variable {mem : Memory} {framebuffer : TextBuffer} {ws : List Write} {s : Tty}

theorem Reached.parsed (h : Reached mem framebuffer ws s) : Parsed (ws.map Write.data) s := by
  obtain ⟨s₀, hpre, hrun⟩ := Option.bind_eq_some_iff.mp h
  obtain ⟨t, hpre', -, -, hbuf, hptr⟩ := ttyPreinit_spec mem framebuffer
  obtain rfl := Option.some.inj (hpre'.symm.trans hpre)
  have hstatus : t.commandSequenceStatus = 0 := by
    cases hpre
    exact status_cls
  have hstart : Parsed [] t := by
    refine ⟨⟨[], by simp, by simp, hptr, hbuf⟩, fun hone => ?_, fun htwo _ => ?_, fun hpos => ?_⟩
    . omega
    . omega
    . omega
  rw [run_step] at hrun
  exact hstart.run hrun

theorem Reached.VRAM_eq (h : Reached mem framebuffer ws s) : s.VRAM = framebuffer.addr + 0xC0000000 := by
  obtain ⟨s₀, hpre, hrun⟩ := Option.bind_eq_some_iff.mp h
  have hrun' := congrArg Prod.fst (kept_run hrun)
  cases hpre
  exact hrun'.trans (congrArg Prod.fst (kept_cls _))

theorem Reached.unended_iff (h : Reached mem framebuffer ws s) : Unended (ws.map Write.data) ↔ 0 < s.bufPtr := by
  constructor
  . intro hunended
    obtain ⟨s₀, -, hrun⟩ := Option.bind_eq_some_iff.mp h
    rw [run_step] at hrun
    exact bufPtr_pos_of_unended hunended hrun
  . intro hptr
    obtain ⟨u, p, v, inside, hbytes, hp, hv, -⟩ := h.parsed.pending hptr
    exact ⟨u, p, v, hbytes, hp, by rw [hv]; exact Option.some_ne_none _⟩

theorem not_showsEffect {ps : List (BitVec 8)} (h : s.Collected ps) (hne : ps ≠ [])
    : ¬ ShowsEffect (effect framebuffer) s := by
  intro hshows
  obtain ⟨s', hrun, hshown⟩ := hshows probe (probe.bytes.map (⟨1, ·, 0, by decide⟩)) (by rfl)
  rw [run_step] at hrun
  have hx := h.run_probe hne hrun
  have hx' := congrArg View.x hshown
  rw [x_effect_probe] at hx'
  exact absurd (hx.symm.trans hx') (by decide)

theorem sequences_iff (h : Reached mem framebuffer ws s)
    : (ShowsEffect (effect framebuffer) s ↔ ¬ Unended (ws.map Write.data))
        ∧ (StartsEmpty s ↔ ¬ Unended (ws.map Write.data)) := by
  obtain ⟨ps, hps⟩ := h.parsed.collected
  rw [h.unended_iff, Nat.not_lt]
  rcases Nat.eq_zero_or_pos s.bufPtr with hptr | hptr
  . have hnil : ps = [] := List.length_eq_zero_iff.mp (hps.bufPtr_eq.symm.trans hptr)
    subst hnil
    refine ⟨iff_of_true ?_ (Nat.le_of_eq hptr), iff_of_true ?_ (Nat.le_of_eq hptr)⟩
    . intro q vs hvs
      rw [run_step, hvs]
      exact hps.run_fresh h.VRAM_eq q
    . intro vs hvs
      rw [run_step, hvs]
      exact ⟨_, hps.run_start, rfl, rfl, rfl⟩
  . have hne : ps ≠ [] := by
      rintro rfl
      exact absurd hps.bufPtr_eq (Nat.ne_of_gt hptr)
    refine ⟨iff_of_false (not_showsEffect hps hne) (Nat.not_le.mpr hptr), iff_of_false ?_ (Nat.not_le.mpr hptr)⟩
    intro hempty
    obtain ⟨s', hrun, -, hzero, -⟩ := hempty ([0x1B, 0x5B].map (⟨1, ·, 0, by decide⟩)) (by rfl)
    rw [run_step] at hrun
    obtain rfl := Option.some.inj (hps.run_start.symm.trans hrun)
    exact Nat.ne_of_gt hptr (hps.bufPtr_eq.trans hzero)

/--
Behind a complete sequence with two parameters nothing is left over.
-/
theorem sequences_iff_probe
    : let ws : List Write := probe.bytes.map (⟨1, ·, 0, by decide⟩)
      ∃ s, Reached ⟨fun _ => 0, []⟩ ⟨0xB8000, by decide⟩ ws s
        ∧ ¬ Unended (ws.map Write.data)
        ∧ (ShowsEffect (effect ⟨0xB8000, by decide⟩) s ↔ ¬ Unended (ws.map Write.data))
        ∧ (StartsEmpty s ↔ ¬ Unended (ws.map Write.data)) := by
  intro ws
  obtain ⟨s₀, hpre, -, -, hbuf, hptr⟩ := ttyPreinit_spec ⟨fun _ => 0, []⟩ ⟨0xB8000, by decide⟩
  have hfresh : s₀.Collected [] := ⟨by simp, by simp, hptr, hbuf⟩
  have hnums : atoiComma (buffer ([] ++ probe.params)) = some (5, 0) := by decide
  have hrun := hfresh.run_sequence probe
  rw [if_pos (by decide), hnums, Option.map_some] at hrun
  have hreached : Reached ⟨fun _ => 0, []⟩ ⟨0xB8000, by decide⟩ ws
      ((s₀.inside ([] ++ probe.params)).command probe.final 5 0).terminateSequence := by
    rw [Reached, hpre, Option.bind_some, run_step]
    exact hrun
  refine ⟨_, hreached, ?_, sequences_iff hreached⟩
  rw [hreached.unended_iff]
  exact Nat.lt_irrefl 0

/--
`ESC [ 1` leaves its parameter to the next sequence.
-/
theorem not_sequences
    : ¬ ∃ effect : Sequence → View → View, ∀ ws s,
        Reached ⟨fun _ => 0, []⟩ ⟨0xB8000, by decide⟩ ws s → ShowsEffect effect s := by
  rintro ⟨effect', h⟩
  obtain ⟨s₀, hpre, -, -, hbuf, hptr⟩ := ttyPreinit_spec ⟨fun _ => 0, []⟩ ⟨0xB8000, by decide⟩
  have hreached : Reached ⟨fun _ => 0, []⟩ ⟨0xB8000, by decide⟩ [] s₀ := hpre
  have hfresh : s₀.Collected [] := ⟨by simp, by simp, hptr, hbuf⟩
  have hreached' : Reached ⟨fun _ => 0, []⟩ ⟨0xB8000, by decide⟩ ([0x1B, 0x5B, 0x31].map (⟨1, ·, 0, by decide⟩))
      (s₀.inside [0x31]) := by
    rw [Reached, hpre, Option.bind_some, run_step]
    change Run.run receiveByte s₀ ([0x1B, 0x5B] ++ [0x31]) = _
    rw [Run.run_append, hfresh.run_start, Option.bind_some, run_inside (by decide) (by decide)]
    rfl
  have hcollected : (s₀.inside [0x31]).Collected [0x31] := ⟨by decide, by decide, rfl, rfl⟩
  let vs : List Write := probe.bytes.map (⟨1, ·, 0, by decide⟩)
  obtain ⟨s₁, hrun, hshown⟩ := h _ _ hreached probe vs rfl
  obtain ⟨s₂, hrun', hshown'⟩ := h _ _ hreached' probe vs rfl
  obtain ⟨t, ht, heffect⟩ := hfresh.run_fresh hreached.VRAM_eq probe
  rw [run_step] at hrun hrun'
  obtain rfl := Option.some.inj (hrun.symm.trans ht)
  have hx : s₂.x = 0 := hcollected.run_probe (by decide) hrun'
  have hsame : s₂.shown = s₁.shown := hshown'.trans hshown.symm
  have hx' : s₂.x = 5 := by
    rw [← x_effect_probe ⟨0xB8000, by decide⟩ s₀.shown, ← heffect]
    exact congrArg View.x hsame
  exact absurd (hx.symm.trans hx') (by decide)

end Theorem

end Tty
end Osproj
