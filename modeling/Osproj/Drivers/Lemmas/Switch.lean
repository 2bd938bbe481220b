import Osproj.Drivers.Lemmas.Kept

/-!
This module contains the law of the virtual terminals: what a switch shows is what was there when the terminal
was left, whatever was written to the others in the meantime.
-/

namespace Osproj
namespace Tty

structure View where
  cells : List (BitVec 8)
  x : Int
  y : Int
  fore : BitVec 8
  back : BitVec 8

def View.blank : View where
  cells := List.replicate SCREEN_SZ 0
  x := 0
  y := 0
  fore := DEFAULT_FORE
  back := DEFAULT_BACK

def shown (s : Tty) : View where
  cells := s.mem.loadBytes s.VRAM SCREEN_SZ
  x := s.x
  y := s.y
  fore := s.fore
  back := s.back

def hidden (s : Tty) (k : Nat) : View where
  cells := if s.ttys k = 0 then List.replicate SCREEN_SZ 0 else s.mem.loadBytes (s.ttys k) SCREEN_SZ
  x := s.xs k
  y := s.ys k
  fore := (s.fores k).setWidth 8
  back := (s.backs k).setWidth 8

def view (s : Tty) (k : Nat) : View := if k = s.currTty then s.shown else s.hidden k

inductive Op
  | switch (t : BitVec 8) (page : Nat)
  | write (w : Write)

def Op.step (s : Tty) : Op → Option Tty
  | .switch t page => s.ttyWrite page 0 t
  | .write w => Tty.step s w

/--
The terminal that is current behind an operation, if it is `curr` before it.
-/
def Op.selects (curr : Nat) : Op → Nat
  | .switch t _ => t.toNat
  | .write _ => curr

def Apart (a b : Nat) : Prop := a + SCREEN_SZ ≤ b ∨ b + SCREEN_SZ ≤ a

structure Fresh (s : Tty) (page : Nat) : Prop where
  ne_zero : page ≠ 0
  fits : page + 4096 ≤ 0x100000000
  apart_buffer : Apart page s.VRAM
  apart (k : Nat) (hk : s.ttys k ≠ 0) : Apart page (s.ttys k)

def OpOk (s : Tty) : Op → Prop
  | .switch t page => 1 ≤ t.toNat ∧ t.toNat ≤ 127 ∧ (s.ttys t.toNat = 0 → s.Fresh page)
  | .write w => w.data ≠ 0x1B

/--
The terminals can be switched: each has its own screen, or is blank.
-/
structure Switchable (s : Tty) : Prop where
  ready : s.Ready
  status : s.commandSequenceStatus = 0
  curr_pos : 0 < s.currTty
  curr_le : s.currTty ≤ 127
  curr_ne : s.ttys s.currTty ≠ 0
  apart_buffer (k : Nat) (hk : s.ttys k ≠ 0) : Apart (s.ttys k) s.VRAM
  apart (k l : Nat) (hne : k ≠ l) (hk : s.ttys k ≠ 0) (hl : s.ttys l ≠ 0) : Apart (s.ttys k) (s.ttys l)
  saved (k : Nat) : 0 ≤ s.xs k ∧ s.xs k ≤ 79 ∧ 0 ≤ s.ys k ∧ s.ys k ≤ 24
  blank (k : Nat) (hk : s.ttys k = 0) : s.hidden k = View.blank

theorem view_curr (s : Tty) : s.view s.currTty = s.shown := by
  rw [view, if_pos rfl]

theorem loadBytes_congr {m m' : Memory} {a b n : Nat}
    (h : ∀ i, i < n → m'.load (b + i) = m.load (a + i))
    : m'.loadBytes b n = m.loadBytes a n := by
  apply List.map_congr_left
  intro i hi
  exact h i (List.mem_range.mp hi)

section Write

variable {s s' : Tty}

theorem hidden_of_kept (h : s.Switchable) (hkept : s'.kept = s.kept) (hframes : Frames s s') (k : Nat)
    : s'.hidden k = s.hidden k := by
  simp only [kept, Prod.mk.injEq] at hkept
  obtain ⟨hVRAM, hcurr, httys, hxs, hys, hfores, hbacks⟩ := hkept
  simp only [hidden, httys, hxs, hys, hfores, hbacks, View.mk.injEq, and_true]
  split
  . rfl
  . next hk =>
    have hapart := h.apart_buffer k hk
    apply loadBytes_congr
    intro i hi
    apply hframes
    simp only [InBuffer]
    unfold Apart at hapart
    omega

theorem Switchable.of_kept (h : s.Switchable) (hkept : s'.kept = s.kept) (hframes : Frames s s')
    (hready : s'.Ready) (hstatus : s'.commandSequenceStatus = 0)
    : s'.Switchable := by
  have hhidden := hidden_of_kept h hkept hframes
  simp only [kept, Prod.mk.injEq] at hkept
  obtain ⟨hVRAM, hcurr, httys, hxs, hys, -, -⟩ := hkept
  constructor
  . exact hready
  . exact hstatus
  . rw [hcurr]
    exact h.curr_pos
  . rw [hcurr]
    exact h.curr_le
  . rw [hcurr, httys]
    exact h.curr_ne
  . rw [httys, hVRAM]
    exact h.apart_buffer
  . rw [httys]
    exact h.apart
  . rw [hxs, hys]
    exact h.saved
  . intro k hk
    rw [httys] at hk
    rw [hhidden k]
    exact h.blank k hk

theorem write_spec (h : s.Switchable) {w : Write} (hesc : w.data ≠ 0x1B)
    : ∃ s', s.step w = some s' ∧ s'.Switchable ∧ s'.currTty = s.currTty
        ∧ ∀ k, k ≠ s.currTty → s'.view k = s.view k := by
  obtain ⟨hdraws, hon⟩ := putchar_spec h.ready w.data
  let s' := (s.putchar w.data).terminateSequence
  have hkept : s'.kept = s.kept := kept_putchar s w.data
  have hframes : Frames s s' := frames_putchar h.ready w.data
  have hcurr : s'.currTty = s.currTty := congrArg (fun p => p.2.1) hkept
  refine ⟨s', step_of_plain h.status hesc, ?_, hcurr, ?_⟩
  . have ⟨hx0, hx1, hy0, hy1⟩ := hon
    exact h.of_kept hkept hframes ⟨hdraws.mapped h.ready.mapped, ⟨hx0, hx1, hy0, hy1⟩⟩ rfl
  . intro k hk
    rw [view, view, if_neg hk, if_neg (by rw [hcurr]; exact hk), hidden_of_kept h hkept hframes]

end Write

section Switch

variable {s : Tty} {t page : Nat}

def target (s : Tty) (page t : Nat) : Nat := if s.ttys t = 0 then page else s.ttys t

def switchMem (s : Tty) (page t : Nat) : Memory :=
  let m := s.mem.copy (s.ttys s.currTty) s.VRAM SCREEN_SZ
  (if s.ttys t = 0 then m.fill page 0 SCREEN_SZ else m).copy s.VRAM (s.target page t) SCREEN_SZ

def switched (s : Tty) (page t : Nat) : Tty :=
  { s with
    ttys := fun k => if k = t then s.target page t else s.ttys k
    xs := fun k => if k = s.currTty then s.x else s.xs k
    ys := fun k => if k = s.currTty then s.y else s.ys k
    fores := fun k => if k = s.currTty then s.fore.signExtend 32 else s.fores k
    backs := fun k => if k = s.currTty then s.back.signExtend 32 else s.backs k
    currTty := t
    x := s.xs t
    y := s.ys t
    fore := (s.fores t).setWidth 8
    back := (s.backs t).setWidth 8
    mem := s.switchMem page t }

theorem switchTty_curr {data : BitVec 8} (h : data.toNat ≤ 127) (heq : data.toNat = s.currTty)
    : s.switchTty page data = some s := by
  have hint : data.toInt = s.currTty := by
    rw [BitVec.toInt_eq_toNat_of_lt (by omega), heq]
  rw [switchTty, if_pos (Or.inr hint)]

theorem switchTty_ne {data : BitVec 8} (h : s.Switchable) (hpos : 1 ≤ data.toNat)
    (hle : data.toNat ≤ 127) (hpage : s.ttys data.toNat = 0 → page ≠ 0) (hne : data.toNat ≠ s.currTty)
    : s.switchTty page data = some (s.switched page data.toNat) := by
  have hint : data.toInt = data.toNat := BitVec.toInt_eq_toNat_of_lt (by omega)
  have hzero : data ≠ 0 := by
    rintro rfl
    exact absurd hpos (by decide)
  have hcurr := h.curr_ne
  have hne' : s.currTty ≠ data.toNat := Ne.symm hne
  rw [switchTty, if_neg, if_neg]
  . unfold switched switchMem target
    by_cases hnew : s.ttys data.toNat = 0
    . simp [hnew, hne]
    . have httys : s.ttys = fun k => if k = data.toNat then s.ttys data.toNat else s.ttys k := by
        funext k
        split
        . next hk => rw [hk]
        . rfl
      simp [hnew, hne, ← httys]
  . rintro (hneg | hnull | ⟨hnew, hnull⟩)
    . omega
    . exact hcurr hnull
    . exact hpage hnew hnull
  . rintro (heq | heq)
    . exact hzero heq
    . omega

theorem Fresh.apart_of_target (h : s.Switchable) (hfresh : s.ttys t = 0 → s.Fresh page)
    : Apart (s.target page t) s.VRAM ∧ ∀ k, k ≠ t → s.ttys k ≠ 0 → Apart (s.target page t) (s.ttys k) := by
  unfold target
  split
  . next hnew => exact ⟨(hfresh hnew).apart_buffer, fun k _ hk => (hfresh hnew).apart k hk⟩
  . next hold => exact ⟨h.apart_buffer t hold, fun k hne hk => h.apart t k (Ne.symm hne) hold hk⟩

theorem load_switchMem {a : Nat} (h : s.Switchable) (hfresh : s.ttys t = 0 → s.Fresh page)
    (hne : t ≠ s.currTty)
    : (s.switchMem page t).load a
        =
      if s.VRAM ≤ a ∧ a < s.VRAM + SCREEN_SZ then
        if s.ttys t = 0 then 0 else s.mem.load (s.ttys t + (a - s.VRAM))
      else if s.ttys t = 0 ∧ page ≤ a ∧ a < page + SCREEN_SZ then 0
      else if s.ttys s.currTty ≤ a ∧ a < s.ttys s.currTty + SCREEN_SZ then
        s.mem.load (s.VRAM + (a - s.ttys s.currTty))
      else
        s.mem.load a := by
  have hcurr := h.apart_buffer _ h.curr_ne
  unfold switchMem target
  unfold Apart at hcurr
  by_cases hnew : s.ttys t = 0
  . have htarget := (hfresh hnew).apart_buffer
    unfold Apart at htarget
    simp only [hnew, if_true, true_and]
    rw [Memory.load_copy _ _ _ _ _ (by omega), Memory.load_fill, Memory.load_fill]
    by_cases ha : s.VRAM ≤ a ∧ a < s.VRAM + SCREEN_SZ
    . rw [if_pos ha, if_pos (by omega), if_pos ha]
    . rw [if_neg ha, if_neg ha, Memory.load_copy _ _ _ _ _ (by omega)]
  . have htarget := h.apart_buffer t hnew
    have hother := h.apart t s.currTty hne hnew h.curr_ne
    unfold Apart at htarget hother
    simp only [hnew, if_false, false_and]
    rw [Memory.load_copy _ _ _ _ _ (by omega), Memory.load_copy _ _ _ _ _ (by omega),
      Memory.load_copy _ _ _ _ _ (by omega)]
    by_cases ha : s.VRAM ≤ a ∧ a < s.VRAM + SCREEN_SZ
    . rw [if_pos ha, if_neg (by omega), if_pos ha]
    . rw [if_neg ha, if_neg ha]

theorem loadBytes_eq_zero {m : Memory} {a n : Nat} (h : ∀ i, i < n → m.load (a + i) = 0)
    : m.loadBytes a n = List.replicate n 0 := by
  rw [List.eq_replicate_iff]
  refine ⟨m.length_loadBytes a n, ?_⟩
  intro v hv
  obtain ⟨i, hi, rfl⟩ := List.mem_map.mp hv
  exact h i (List.mem_range.mp hi)

theorem shown_switched (h : s.Switchable) (hfresh : s.ttys t = 0 → s.Fresh page) (hne : t ≠ s.currTty)
    : (s.switched page t).shown = s.hidden t := by
  simp only [shown, hidden, switched, View.mk.injEq, and_true]
  split
  . next hnew =>
    apply loadBytes_eq_zero
    intro i hi
    rw [load_switchMem h hfresh hne, if_pos (by omega), if_pos hnew]
  . next hold =>
    apply loadBytes_congr
    intro i hi
    rw [load_switchMem h hfresh hne, if_pos (by omega), if_neg hold, Nat.add_sub_cancel_left]

theorem mem_switched : (s.switched page t).mem = s.switchMem page t := by
  simp only [switched]

theorem hidden_switched_curr (h : s.Switchable) (hfresh : s.ttys t = 0 → s.Fresh page)
    (hne : t ≠ s.currTty)
    : (s.switched page t).hidden s.currTty = s.shown := by
  have hbuffer := h.apart_buffer _ h.curr_ne
  have hextend : ∀ v : BitVec 8, (v.signExtend 32).setWidth 8 = v := by decide
  obtain ⟨-, htarget⟩ := Fresh.apart_of_target h hfresh
  have hother := htarget s.currTty (Ne.symm hne) h.curr_ne
  unfold Apart at hbuffer hother
  have httys : (s.switched page t).ttys s.currTty = s.ttys s.currTty := if_neg (Ne.symm hne)
  have hfore : (s.switched page t).fores s.currTty = s.fore.signExtend 32 := if_pos rfl
  have hback : (s.switched page t).backs s.currTty = s.back.signExtend 32 := if_pos rfl
  unfold shown hidden
  rw [httys, hfore, hback, hextend, hextend, if_neg h.curr_ne]
  simp only [View.mk.injEq, and_true]
  refine ⟨?_, if_pos rfl, if_pos rfl⟩
  apply loadBytes_congr
  intro i hi
  rw [mem_switched, load_switchMem h hfresh hne, if_neg (by omega), if_neg, if_pos (by omega),
    Nat.add_sub_cancel_left]
  rintro ⟨hnew, hin⟩
  rw [target, if_pos hnew] at hother
  omega

theorem hidden_switched (h : s.Switchable) (hfresh : s.ttys t = 0 → s.Fresh page) (hne : t ≠ s.currTty)
    {k : Nat} (hk : k ≠ t) (hk' : k ≠ s.currTty)
    : (s.switched page t).hidden k = s.hidden k := by
  have httys : (s.switched page t).ttys k = s.ttys k := if_neg hk
  have hfore : (s.switched page t).fores k = s.fores k := if_neg hk'
  have hback : (s.switched page t).backs k = s.backs k := if_neg hk'
  unfold hidden
  rw [httys, hfore, hback]
  simp only [View.mk.injEq, and_true]
  refine ⟨?_, if_neg hk', if_neg hk'⟩
  split
  . rfl
  . next hpage =>
    have hbuffer := h.apart_buffer k hpage
    have hcurr := h.apart k s.currTty hk' hpage h.curr_ne
    obtain ⟨-, htarget⟩ := Fresh.apart_of_target h hfresh
    have hother := htarget k hk hpage
    unfold Apart at hbuffer hcurr hother
    apply loadBytes_congr
    intro i hi
    rw [mem_switched, load_switchMem h hfresh hne, if_neg (by omega), if_neg, if_neg (by omega)]
    rintro ⟨hnew, hin⟩
    rw [target, if_pos hnew] at hother
    omega

theorem view_switched (h : s.Switchable) (hfresh : s.ttys t = 0 → s.Fresh page) (hne : t ≠ s.currTty)
    (k : Nat)
    : (s.switched page t).view k = s.view k := by
  have hcurr : (s.switched page t).currTty = t := rfl
  unfold view
  rw [hcurr]
  by_cases hk : k = t
  . rw [if_pos hk, hk, if_neg hne, shown_switched h hfresh hne]
  . rw [if_neg hk]
    by_cases hk' : k = s.currTty
    . rw [if_pos hk', hk', hidden_switched_curr h hfresh hne]
    . rw [if_neg hk', hidden_switched h hfresh hne hk hk']

theorem Switchable.switched (h : s.Switchable) (hfresh : s.ttys t = 0 → s.Fresh page)
    (hne : t ≠ s.currTty) (hpos : 0 < t) (hle : t ≤ 127)
    : (s.switched page t).Switchable := by
  have ⟨hx0, hx1, hy0, hy1⟩ := h.ready.onScreen
  obtain ⟨hbuffer, hother⟩ := Fresh.apart_of_target h hfresh
  have hsaved := h.saved t
  have httys (k : Nat) : (s.switched page t).ttys k = if k = t then s.target page t else s.ttys k := rfl
  have htarget : s.target page t ≠ 0 := by
    unfold target
    split
    . next hnew => exact (hfresh hnew).ne_zero
    . next hold => exact hold
  constructor
  . exact ⟨h.ready.mapped, ⟨hsaved.1, hsaved.2.1, hsaved.2.2.1, hsaved.2.2.2⟩⟩
  . exact h.status
  . exact hpos
  . exact hle
  . rw [show (s.switched page t).currTty = t from rfl, httys, if_pos rfl]
    exact htarget
  . intro k hk
    rw [httys] at hk ⊢
    by_cases hkt : k = t
    . rw [if_pos hkt]
      exact hbuffer
    . rw [if_neg hkt] at hk ⊢
      exact h.apart_buffer k hk
  . intro k l hkl hk hl
    rw [httys] at hk hl ⊢
    rw [httys l]
    by_cases hkt : k = t
    . rw [if_pos hkt, if_neg (by omega)]
      rw [if_neg (by omega)] at hl
      exact hother l (by omega) hl
    . rw [if_neg hkt] at hk ⊢
      by_cases hlt : l = t
      . rw [if_pos hlt]
        exact Or.symm (hother k hkt hk)
      . rw [if_neg hlt] at hl ⊢
        exact h.apart k l hkl hk hl
  . intro k
    simp only [Tty.switched]
    by_cases hk : k = s.currTty
    . rw [if_pos hk, if_pos hk]
      exact ⟨hx0, hx1, hy0, hy1⟩
    . rw [if_neg hk, if_neg hk]
      exact h.saved k
  . intro k hk
    rw [httys] at hk
    have hkt : k ≠ t := by
      rintro rfl
      rw [if_pos rfl] at hk
      exact htarget hk
    rw [if_neg hkt] at hk
    have hcurr : k ≠ s.currTty := by
      rintro rfl
      exact h.curr_ne hk
    rw [hidden_switched h hfresh hne hkt hcurr]
    exact h.blank k hk

end Switch

theorem switch_spec {s : Tty} {t : BitVec 8} {page : Nat} (h : s.Switchable) (hpos : 1 ≤ t.toNat)
    (hle : t.toNat ≤ 127) (hfresh : s.ttys t.toNat = 0 → s.Fresh page)
    : ∃ s', s.switchTty page t = some s' ∧ s'.Switchable ∧ s'.currTty = t.toNat ∧ ∀ k, s'.view k = s.view k := by
  by_cases heq : t.toNat = s.currTty
  . exact ⟨s, switchTty_curr hle heq, h, heq.symm, fun _ => rfl⟩
  . refine ⟨s.switched page t.toNat, ?_, ?_, rfl, view_switched h hfresh heq⟩
    . exact switchTty_ne h hpos hle (fun hnew => (hfresh hnew).ne_zero) heq
    . exact h.switched hfresh heq hpos hle

theorem Op.step_spec {s : Tty} {op : Op} (h : s.Switchable) (hok : s.OpOk op)
    : ∃ s', op.step s = some s' ∧ s'.Switchable ∧ s'.currTty = op.selects s.currTty
        ∧ ∀ k, s.currTty ≠ k ∨ s'.currTty ≠ k → s'.view k = s.view k := by
  cases op with
  | switch t page =>
    obtain ⟨hpos, hle, hfresh⟩ := hok
    obtain ⟨s', hstep, hs', hcurr, hview⟩ := switch_spec h hpos hle hfresh
    exact ⟨s', hstep, hs', hcurr, fun k _ => hview k⟩
  | write w =>
    obtain ⟨s', hstep, hs', hcurr, hview⟩ := write_spec h hok
    refine ⟨s', hstep, hs', hcurr, fun k hk => hview k ?_⟩
    omega

/--
A switch selects the terminal it names, and nothing else selects one. Whenever that is another terminal, it shows what
it showed when it was last left, or, if it was never selected before, a blank screen.
-/
def Resumes (s₀ : Tty) (ops : List Op) : Prop :=
  ∀ j, ∀ hj : j < ops.length, ∃ s s', Run.run Op.step s₀ (ops.take j) = some s
    ∧ Run.run Op.step s₀ (ops.take (j + 1)) = some s'
    ∧ s'.currTty = ops[j].selects s.currTty
    ∧ (s.currTty ≠ s'.currTty →
      (∀ i < j, ∀ u, Run.run Op.step s₀ (ops.take i) = some u → u.currTty = s'.currTty →
        (∀ n, i < n → n ≤ j → ∀ v, Run.run Op.step s₀ (ops.take n) = some v → v.currTty ≠ s'.currTty) →
        s'.shown = u.shown)
      ∧ ((∀ n ≤ j, ∀ v, Run.run Op.step s₀ (ops.take n) = some v → v.currTty ≠ s'.currTty) →
        s'.shown = View.blank))

theorem Op.step_switchable (s : Tty) (op : Op) (hs : s.Switchable) (hok : s.OpOk op)
    : ∃ s', op.step s = some s' ∧ s'.Switchable := by
  obtain ⟨s', hs', hswitch, -, -⟩ := Op.step_spec hs hok
  exact ⟨s', hs', hswitch⟩

theorem view_eq {s₀ : Tty} {ops : List Op} (h : Run.Guarded Op.step OpOk s₀ ops) (hs₀ : s₀.Switchable)
    {i j k : Nat} {u : Tty} (hij : i ≤ j) (hj : j ≤ ops.length)
    (hu : Run.run Op.step s₀ (ops.take i) = some u)
    (hother : ∀ n, i < n → n ≤ j → ∀ v, Run.run Op.step s₀ (ops.take n) = some v → v.currTty ≠ k)
    : ∃ v, Run.run Op.step s₀ (ops.take j) = some v ∧ v.view k = u.view k := by
  induction hij with
  | refl => exact ⟨u, hu, rfl⟩
  | @step j hle ih =>
    have hij : i ≤ j := hle
    obtain ⟨v, hv, hview⟩ := ih (by omega) (fun n hlo hhi => hother n hlo (by omega))
    obtain ⟨t, t', ht, ht', hst, hok, hstep', -⟩ := h.at_take Op.step_switchable hs₀ (show j < ops.length by omega)
    obtain ⟨w, hw, -, -, hview'⟩ := Op.step_spec hst hok
    obtain rfl : v = t := Option.some.inj (hv.symm.trans ht)
    obtain rfl : w = t' := Option.some.inj (hw.symm.trans hstep')
    refine ⟨w, ht', ?_⟩
    rw [hview' k (Or.inr (hother (j + 1) (by omega) (by omega) w ht')), hview]

theorem resumes_of_switchable {s₀ : Tty} {ops : List Op} (h : Run.Guarded Op.step OpOk s₀ ops)
    (hs₀ : s₀.Switchable) (hblank : ∀ k, k ≠ s₀.currTty → s₀.ttys k = 0)
    : Resumes s₀ ops := by
  intro j hj
  obtain ⟨s, s', hs, hs', hswitch, hok, hstep', -⟩ := h.at_take Op.step_switchable hs₀ hj
  obtain ⟨w, hw, -, hcurr, hview⟩ := Op.step_spec hswitch hok
  obtain rfl : w = s' := Option.some.inj (hw.symm.trans hstep')
  refine ⟨s, w, hs, hs', hcurr, fun hne => ?_⟩
  have hlast : w.shown = s.view w.currTty := by
    rw [← view_curr, hview _ (Or.inl hne)]
  constructor
  . intro i hi u hu hu_curr hother
    obtain ⟨v, hv, hsame⟩ := view_eq h hs₀ (by omega) (by omega) hu hother
    obtain rfl : v = s := Option.some.inj (hv.symm.trans hs)
    rw [hlast, hsame, ← hu_curr, view_curr]
  . intro hother
    obtain ⟨v, hv, hsame⟩ := view_eq h hs₀ (Nat.zero_le j) (by omega) rfl
      (fun n _ hn => hother n hn)
    obtain rfl : v = s := Option.some.inj (hv.symm.trans hs)
    have hfirst : w.currTty ≠ s₀.currTty := Ne.symm (hother 0 (by omega) s₀ rfl)
    rw [hlast, hsame, view, if_neg hfirst, hs₀.blank _ (hblank _ hfirst)]

theorem switchable_ttyInit {s : Tty} {page : Nat} (hready : s.Ready) (hstatus : s.commandSequenceStatus = 0)
    (httys : s.ttys = fun _ => 0) (hxs : s.xs = fun _ => 0) (hys : s.ys = fun _ => 0)
    (hpage : s.Fresh page)
    : (s.ttyInit page).Switchable := by
  have ⟨hx0, hx1, hy0, hy1⟩ := hready.onScreen
  have httys' (k : Nat) : (s.ttyInit page).ttys k = if k = 1 then page else 0 := by
    simp only [ttyInit, httys]
  constructor
  . exact ⟨hready.mapped, ⟨hx0, hx1, hy0, hy1⟩⟩
  . exact hstatus
  . exact Nat.one_pos
  . show 1 ≤ 127
    omega
  . rw [show (s.ttyInit page).currTty = 1 from rfl, httys', if_pos rfl]
    exact hpage.ne_zero
  . intro k hk
    rw [httys'] at hk ⊢
    by_cases hone : k = 1
    . rw [if_pos hone]
      exact hpage.apart_buffer
    . rw [if_neg hone] at hk
      exact absurd rfl hk
  . intro k l hne hk hl
    rw [httys'] at hk hl
    by_cases hone : k = 1
    . rw [if_neg (by omega)] at hl
      exact absurd rfl hl
    . rw [if_neg hone] at hk
      exact absurd rfl hk
  . intro k
    simp only [ttyInit, hxs, hys]
    omega
  . intro k hk
    unfold hidden View.blank
    rw [if_pos hk]
    simp only [ttyInit, hxs, hys]
    rfl

/--
The terminals from `tty_preinit` on: `ws` is what is written before `tty_init`.
-/
theorem resumes (mem : Memory) (framebuffer : TextBuffer) (ws : List Write) (s : Tty) (page : Nat)
    (ops : List Op)
    (hpre : ((boot mem).ttyPreinit framebuffer MULTIBOOT_FRAMEBUFFER_TYPE_EGA_TEXT).bind
      (fun s₀ => Run.run step s₀ ws) = some s)
    (hon : s.OnScreen) (hstatus : s.commandSequenceStatus = 0) (hpage : s.Fresh page)
    (h : Run.Guarded Op.step OpOk (s.ttyInit page) ops)
    : Resumes (s.ttyInit page) ops := by
  let s₁ : Tty :=
    { boot mem with
      VRAM := framebuffer.addr + 0xC0000000, fore := DEFAULT_FORE, back := DEFAULT_BACK }
  have hrun : Run.run step s₁.cls ws = some s := hpre
  have hkept : s.kept = s₁.kept := (kept_run hrun).trans (kept_cls s₁)
  simp only [kept, Prod.mk.injEq] at hkept
  obtain ⟨hVRAM, -, httys, hxs, hys, -, -⟩ := hkept
  have hmapped : s.Mapped := by
    have := framebuffer.fits
    simp only [Mapped, SCREEN_SZ, hVRAM, s₁]
    omega
  apply resumes_of_switchable h (switchable_ttyInit ⟨hmapped, hon⟩ hstatus httys hxs hys hpage)
  intro k hk
  have hne : k ≠ 1 := hk
  simp only [ttyInit, httys, s₁, boot]
  rw [if_neg hne]

/--
Terminal 2 is selected for the first time, and terminal 1 again.
-/
theorem resumes_back
    : Resumes (({ boot ⟨fun _ => 0, []⟩ with
        VRAM := 0xC00B8000, fore := DEFAULT_FORE, back := DEFAULT_BACK } : Tty).cls.ttyInit 0xC0300000)
        [.switch 2 0xC0301000, .switch 1 0] := by
  let s : Tty :=
    { boot ⟨fun _ => 0, []⟩ with VRAM := 0xC00B8000, fore := DEFAULT_FORE, back := DEFAULT_BACK }
  have hkept := kept_cls s
  simp only [kept, Prod.mk.injEq] at hkept
  obtain ⟨hVRAM, -, httys, hxs, hys, -, -⟩ := hkept
  have hnone : s.cls.ttys = fun _ => 0 := httys
  have httys' (k : Nat) : (s.cls.ttyInit 0xC0300000).ttys k = if k = 1 then 0xC0300000 else 0 := by
    simp only [ttyInit, hnone]
  have hpage : s.cls.Fresh 0xC0300000 := by
    refine ⟨by decide, by decide, ?_, fun k hk => absurd (congrFun httys k) hk⟩
    rw [hVRAM]
    exact Or.inr (by decide)
  have hpage' : (s.cls.ttyInit 0xC0300000).Fresh 0xC0301000 := by
    refine ⟨by decide, by decide, ?_, ?_⟩
    . rw [show (s.cls.ttyInit 0xC0300000).VRAM = s.cls.VRAM from rfl, hVRAM]
      exact Or.inr (by decide)
    . intro k hk
      rw [httys'] at hk ⊢
      by_cases hone : k = 1
      . rw [if_pos hone]
        exact Or.inr (by decide)
      . rw [if_neg hone] at hk
        exact absurd rfl hk
  have hmapped : s.cls.Mapped := by
    rw [Mapped, hVRAM]
    decide
  have hswitch := switchable_ttyInit ⟨hmapped, cls_onScreen s⟩ status_cls httys hxs hys hpage
  apply resumes ⟨fun _ => 0, []⟩ ⟨0xB8000, by decide⟩ [] s.cls 0xC0300000 _ rfl (cls_onScreen s) status_cls hpage
  refine ⟨⟨by decide, by decide, fun _ => hpage'⟩, fun s' hs' => ⟨⟨by decide, by decide, fun hnew => ?_⟩,
    fun _ _ => trivial⟩⟩
  have hne : (2 : BitVec 8).toNat ≠ (s.cls.ttyInit 0xC0300000).currTty := show 2 ≠ 1 by decide
  have hstep := switchTty_ne hswitch (by decide) (by decide) (fun _ => hpage'.ne_zero) hne
  obtain rfl := Option.some.inj (hstep.symm.trans hs')
  have hone : (1 : BitVec 8).toNat = 1 := rfl
  have htwo : ¬ 1 = (2 : BitVec 8).toNat := by decide
  rw [hone] at hnew
  simp only [switched, if_neg htwo, httys'] at hnew
  exact absurd hnew (by decide)

end Tty
end Osproj
