import Mathlib.Data.List.Basic
import Mathlib.Data.List.ProdSigma

/-!
This module contains runs of a partial, deterministic transition system and the rules that carry an
invariant from one step to a whole run. A step that returns `none` is one that never comes back.
-/

namespace Osproj
namespace Run

variable {σ α : Type}

def run (step : σ → α → Option σ) (s : σ) (as : List α) : Option σ :=
  as.foldlM step s

/--
Every step of the run `as` from `s` meets the condition `ok`, which looks at the state before the
step and at the input of the step.
-/
def Guarded (step : σ → α → Option σ) (ok : σ → α → Prop) : σ → List α → Prop
  | _, [] => True
  | s, a :: as => ok s a ∧ ∀ s', step s a = some s' → Guarded step ok s' as

instance decidableGuarded (step : σ → α → Option σ) (ok : σ → α → Prop)
    [∀ s a, Decidable (ok s a)] : (s : σ) → (as : List α) → Decidable (Guarded step ok s as)
  | _, [] => isTrue trivial
  | s, a :: as =>
    match h : step s a with
    | none =>
      decidable_of_iff (ok s a) ⟨fun hok => ⟨hok, fun s' hs' => by simp [h] at hs'⟩, And.left⟩
    | some s' =>
      have := decidableGuarded step ok s' as
      decidable_of_iff (ok s a ∧ Guarded step ok s' as)
        ⟨fun hok => ⟨hok.1, fun t ht => by
            rw [h, Option.some.injEq] at ht
            exact ht ▸ hok.2⟩,
          fun hok => ⟨hok.1, hok.2 s' h⟩⟩

variable {step : σ → α → Option σ} {ok : σ → α → Prop} {I : σ → Prop}

@[simp]
theorem run_nil (s : σ) : run step s [] = some s := by
  rfl

@[simp]
theorem run_cons (s : σ) (a : α) (as : List α)
    : run step s (a :: as) = (step s a).bind (fun s' => run step s' as) := by
  simp [run, Option.bind_eq_bind]

theorem run_append (s : σ) (as bs : List α)
    : run step s (as ++ bs) = (run step s as).bind (fun s' => run step s' bs) := by
  simp [run, List.foldlM_append, Option.bind_eq_bind]

theorem run_map {β : Type} (f : β → α) (s : σ) (bs : List β)
    : run step s (bs.map f) = run (fun s b => step s (f b)) s bs := by
  exact List.foldlM_map

/--
A loop whose body is a loop is one run.
-/
theorem run_flatMap {β : Type} (f : β → List α) (s : σ) (bs : List β)
    : run step s (bs.flatMap f) = run (fun s b => run step s (f b)) s bs := by
  induction bs generalizing s with
  | nil => rfl
  | cons b bs ih =>
    rw [List.flatMap_cons, run_append, run_cons]
    simp only [ih]

theorem run_product {β γ : Type} (step : σ → β × γ → Option σ) (s : σ) (bs : List β) (cs : List γ)
    : run step s (bs ×ˢ cs) = run (fun s b => run (fun s c => step s (b, c)) s cs) s bs := by
  change run step s (bs.flatMap fun b => cs.map (Prod.mk b)) = _
  rw [run_flatMap]
  simp only [run_map]

theorem run_congr {step' : σ → α → Option σ} {as : List α} (h : ∀ a ∈ as, ∀ s, step s a = step' s a) (s : σ)
    : run step s as = run step' s as := by
  induction as generalizing s with
  | nil => rfl
  | cons a as ih =>
    rw [run_cons, run_cons, h a (List.mem_cons_self ..) s]
    simp only [ih (fun b hb => h b (List.mem_cons_of_mem a hb))]

theorem run_eq_none {a : α} {as : List α} (hmem : a ∈ as) (hnone : ∀ s, step s a = none) (s : σ)
    : run step s as = none := by
  obtain ⟨before, after, rfl⟩ := List.append_of_mem hmem
  rw [run_append]
  cases run step s before with
  | none => rfl
  | some s' => rw [Option.bind_some, run_cons, hnone s', Option.bind_none]

theorem Guarded.and {ok' : σ → α → Prop} {s : σ} {as : List α} (h : Guarded step ok s as)
    (h' : Guarded step ok' s as)
    : Guarded step (fun s a => ok s a ∧ ok' s a) s as := by
  induction as generalizing s with
  | nil => trivial
  | cons a as ih => exact ⟨⟨h.1, h'.1⟩, fun s' hs' => ih (h.2 s' hs') (h'.2 s' hs')⟩

theorem guarded_and {ok' : σ → α → Prop} (s : σ) (as : List α)
    : Guarded step (fun s a => ok s a ∧ ok' s a) s as ↔ Guarded step ok s as ∧ Guarded step ok' s as := by
  refine ⟨fun h => ?_, fun h => h.1.and h.2⟩
  induction as generalizing s with
  | nil => exact ⟨trivial, trivial⟩
  | cons a as ih =>
    have hrest (s' : σ) (hs' : step s a = some s') := ih s' (h.2 s' hs')
    exact ⟨⟨h.1.1, fun s' hs' => (hrest s' hs').1⟩, ⟨h.1.2, fun s' hs' => (hrest s' hs').2⟩⟩

theorem Guarded.of_append {s : σ} {as bs : List α} (h : Guarded step ok s (as ++ bs))
    : Guarded step ok s as := by
  induction as generalizing s with
  | nil => trivial
  | cons a as ih => exact ⟨h.1, fun s' hs' => ih (h.2 s' hs')⟩

theorem Guarded.of_append_right {s s' : σ} {as bs : List α} (h : Guarded step ok s (as ++ bs))
    (hrun : run step s as = some s')
    : Guarded step ok s' bs := by
  induction as generalizing s with
  | nil =>
    simp only [run_nil, Option.some.injEq] at hrun
    subst hrun
    exact h
  | cons a as ih =>
    simp only [run_cons, Option.bind_eq_some_iff] at hrun
    obtain ⟨t, ht, hrun⟩ := hrun
    exact ih (h.2 t ht) hrun

theorem Guarded.at_take (hstep : ∀ s a, I s → ok s a → ∃ s', step s a = some s' ∧ I s')
    {s : σ} {as : List α} (h : Guarded step ok s as) (hI : I s) {n : Nat} (hn : n < as.length)
    : ∃ t t', run step s (as.take n) = some t ∧ run step s (as.take (n + 1)) = some t'
        ∧ I t ∧ ok t as[n] ∧ step t as[n] = some t' ∧ I t' := by
  induction as generalizing s n with
  | nil => simp at hn
  | cons a as ih =>
    obtain ⟨u, hu, hIu⟩ := hstep s a hI h.1
    cases n with
    | zero =>
      refine ⟨s, u, rfl, ?_, hI, h.1, hu, hIu⟩
      simp [hu]
    | succ n =>
      obtain ⟨t, t', ht, ht', hrest⟩ := ih (h.2 u hu) hIu (Nat.lt_of_succ_lt_succ hn)
      refine ⟨t, t', ?_, ?_, hrest⟩
      . rw [List.take_succ_cons, run_cons, hu]
        exact ht
      . rw [List.take_succ_cons, run_cons, hu]
        exact ht'

theorem Guarded.invariant (hstep : ∀ s a s', I s → ok s a → step s a = some s' → I s')
    {s s' : σ} {as : List α} (h : Guarded step ok s as) (hI : I s)
    (hrun : run step s as = some s')
    : I s' := by
  induction as generalizing s with
  | nil =>
    simp only [run_nil, Option.some.injEq] at hrun
    exact hrun ▸ hI
  | cons a as ih =>
    simp only [run_cons, Option.bind_eq_some_iff] at hrun
    obtain ⟨t, ht, hrun⟩ := hrun
    exact ih (h.2 t ht) (hstep s a t hI h.1 ht) hrun

theorem guarded_of_forall (step : σ → α → Option σ) {ok : α → Prop} {as : List α} (h : ∀ a ∈ as, ok a) (s : σ)
    : Guarded step (fun _ a => ok a) s as := by
  induction as generalizing s with
  | nil => trivial
  | cons a as ih => exact ⟨h a List.mem_cons_self, fun s' _ => ih (fun b hb => h b (List.mem_cons_of_mem a hb)) s'⟩

theorem guarded_true (s : σ) (as : List α) : Guarded step (fun _ _ => True) s as :=
  guarded_of_forall step (fun _ _ => trivial) s

theorem run_invariant (hstep : ∀ s a s', I s → step s a = some s' → I s') {s s' : σ} {as : List α} (hI : I s)
    (hrun : run step s as = some s')
    : I s' := by
  apply (guarded_true s as).invariant ?_ hI hrun
  intro s a s' hs _ h
  exact hstep s a s' hs h

/--
A forward simulation: every step of one system that meets the condition is one of the other.
-/
theorem Guarded.simulates {τ : Type} {step' : τ → α → Option τ} {R : σ → τ → Prop}
    (hstep : ∀ s a s' t, R s t → ok s a → step s a = some s' → ∃ t', step' t a = some t' ∧ R s' t')
    {s s' : σ} {t : τ} {as : List α} (h : Guarded step ok s as) (hR : R s t) (hrun : run step s as = some s')
    : ∃ t', run step' t as = some t' ∧ R s' t' := by
  induction as generalizing s t with
  | nil =>
    rw [run_nil, Option.some.injEq] at hrun
    exact ⟨t, rfl, hrun ▸ hR⟩
  | cons a as ih =>
    rw [run_cons, Option.bind_eq_some_iff] at hrun
    obtain ⟨u, hu, hrun⟩ := hrun
    obtain ⟨v, hv, hR'⟩ := hstep s a u t hR h.1 hu
    obtain ⟨t', hrun', hR''⟩ := ih (h.2 u hu) hR' hrun
    exact ⟨t', by rw [run_cons, hv]; exact hrun', hR''⟩

/--
A part of the state that only some of the steps change, looking at nothing else, does not see the others.
-/
theorem run_part {β : Type} {read : σ → β} {p : α → Bool} {f : α → β → β}
    (hstep : ∀ s a s', step s a = some s' → read s' = if p a then f a (read s) else read s)
    {s s' : σ} {as : List α} (hrun : run step s as = some s')
    : read s' = (as.filter p).foldl (fun b a => f a b) (read s) := by
  induction as generalizing s with
  | nil =>
    rw [run_nil, Option.some.injEq] at hrun
    rw [hrun]
    rfl
  | cons a as ih =>
    rw [run_cons, Option.bind_eq_some_iff] at hrun
    obtain ⟨t, ht, hrun⟩ := hrun
    rw [ih hrun, hstep s a t ht, List.filter_cons]
    by_cases hp : p a
    . simp [hp]
    . simp [hp]

theorem filter_eq_nil_of_ne {κ : Type} [DecidableEq κ] {key : α → κ} {k : κ} {as : List α} (h : ∀ a ∈ as, key a ≠ k)
    : as.filter (fun a => key a = k) = [] := by
  rw [List.filter_eq_nil_iff]
  intro a ha
  simpa using h a ha

/--
Two systems that take their steps in any order.
-/
def interleave {τ β : Type} (step : σ → α → Option σ) (step' : τ → β → Option τ) (s : σ × τ) : α ⊕ β → Option (σ × τ)
  | .inl a => (step s.1 a).map (fun t => (t, s.2))
  | .inr b => (step' s.2 b).map (fun t => (s.1, t))

theorem run_interleave {τ β : Type} {step : σ → α → Option σ} {step' : τ → β → Option τ} {s s' : σ × τ}
    {as : List (α ⊕ β)}
    (hrun : run (interleave step step') s as = some s')
    : run step s.1 (as.filterMap Sum.getLeft?) = some s'.1 ∧ run step' s.2 (as.filterMap Sum.getRight?) = some s'.2 := by
  induction as generalizing s with
  | nil =>
    rw [run_nil, Option.some.injEq] at hrun
    rw [hrun]
    exact ⟨rfl, rfl⟩
  | cons a as ih =>
    rw [run_cons, Option.bind_eq_some_iff] at hrun
    obtain ⟨t, ht, hrun⟩ := hrun
    obtain ⟨hleft, hright⟩ := ih hrun
    cases a with
    | inl a =>
      rw [interleave, Option.map_eq_some_iff] at ht
      obtain ⟨u, hu, rfl⟩ := ht
      refine ⟨?_, hright⟩
      change run step s.1 (a :: as.filterMap Sum.getLeft?) = some s'.1
      rw [run_cons, hu]
      exact hleft
    | inr b =>
      rw [interleave, Option.map_eq_some_iff] at ht
      obtain ⟨u, hu, rfl⟩ := ht
      refine ⟨hleft, ?_⟩
      change run step' s.2 (b :: as.filterMap Sum.getRight?) = some s'.2
      rw [run_cons, hu]
      exact hright

theorem Guarded.progress (hstep : ∀ s a, I s → ok s a → ∃ s', step s a = some s' ∧ I s')
    {s : σ} {as : List α} (h : Guarded step ok s as) (hI : I s)
    : ∃ s', run step s as = some s' ∧ I s' := by
  induction as generalizing s with
  | nil => exact ⟨s, rfl, hI⟩
  | cons a as ih =>
    obtain ⟨t, ht, hIt⟩ := hstep s a hI h.1
    obtain ⟨s', hrun, hI'⟩ := ih (h.2 t ht) hIt
    exact ⟨s', by rw [run_cons, ht]; exact hrun, hI'⟩

/--
Two conditions that agree wherever the invariant holds agree on every run from there.
-/
theorem guarded_congr {ok' : σ → α → Prop} (hiff : ∀ s a, I s → (ok s a ↔ ok' s a))
    (hstep : ∀ s a s', I s → ok s a → step s a = some s' → I s')
    {s : σ} (as : List α) (hI : I s)
    : Guarded step ok s as ↔ Guarded step ok' s as := by
  induction as generalizing s with
  | nil => exact Iff.rfl
  | cons a as ih =>
    constructor
    . intro h
      refine ⟨(hiff s a hI).mp h.1, fun s' hs' => ?_⟩
      exact (ih (hstep s a s' hI h.1 hs')).mp (h.2 s' hs')
    . intro h
      have hok := (hiff s a hI).mpr h.1
      refine ⟨hok, fun s' hs' => ?_⟩
      exact (ih (hstep s a s' hI hok hs')).mpr (h.2 s' hs')

/--
Every state of the run has the property `P` exactly if every step meets the condition, provided that `P` and
the condition decide each other step by step.
-/
theorem guarded_iff_prefixes {P : σ → Prop} (hP : ∀ s, I s → P s)
    (hok : ∀ s a, I s → ok s a → ∃ s', step s a = some s' ∧ I s')
    (hnot : ∀ s a s', I s → ¬ ok s a → step s a = some s' → ¬ P s')
    {s : σ} (as : List α) (hI : I s)
    : (∀ ps, ps <+: as → ∃ s', run step s ps = some s' ∧ P s') ↔ Guarded step ok s as := by
  induction as generalizing s with
  | nil =>
    refine iff_of_true ?_ trivial
    intro ps hps
    rw [List.prefix_nil.mp hps]
    exact ⟨s, rfl, hP s hI⟩
  | cons a as ih =>
    constructor
    . intro h
      have hok' : ok s a := by
        by_contra hno
        obtain ⟨s', hrun, hs'⟩ := h [a] (List.prefix_append [a] as)
        rw [run_cons, Option.bind_eq_some_iff] at hrun
        obtain ⟨t, ht, hrun⟩ := hrun
        rw [run_nil, Option.some.injEq] at hrun
        subst hrun
        exact hnot s a t hI hno ht hs'
      obtain ⟨t, ht, hIt⟩ := hok s a hI hok'
      refine ⟨hok', fun s' hs' => ?_⟩
      rw [ht, Option.some.injEq] at hs'
      subst hs'
      refine (ih hIt).mp (fun ps hps => ?_)
      obtain ⟨s', hrun, hs'⟩ := h (a :: ps) (List.cons_prefix_cons.mpr ⟨rfl, hps⟩)
      rw [run_cons, ht] at hrun
      exact ⟨s', hrun, hs'⟩
    . intro h ps hps
      cases ps with
      | nil => exact ⟨s, rfl, hP s hI⟩
      | cons b ps =>
        obtain ⟨rfl, hpre⟩ := List.cons_prefix_cons.mp hps
        obtain ⟨t, ht, hIt⟩ := hok s b hI h.1
        obtain ⟨s', hrun, hs'⟩ := (ih hIt).mpr (h.2 t ht) ps hpre
        exact ⟨s', by rw [run_cons, ht]; exact hrun, hs'⟩

/--
The same for the runs that come back, in which every step meets `given`.
-/
theorem Guarded.iff_states {given : σ → α → Prop} {P : σ → Prop} (hP : ∀ s, I s → P s)
    (hok : ∀ s a s', I s → given s a → ok s a → step s a = some s' → I s')
    (hnot : ∀ s a, I s → given s a → ¬ ok s a → ∃ s', step s a = some s' ∧ ¬ P s')
    {s : σ} {as : List α} (h : Guarded step given s as) (hI : I s)
    : (∀ ps, ps <+: as → ∀ s', run step s ps = some s' → P s') ↔ Guarded step ok s as := by
  induction as generalizing s with
  | nil =>
    refine iff_of_true ?_ trivial
    intro ps hps s' hrun
    rw [List.prefix_nil.mp hps, run_nil, Option.some.injEq] at hrun
    exact hP s' (hrun ▸ hI)
  | cons a as ih =>
    constructor
    . intro hall
      have hok' : ok s a := by
        by_contra hno
        obtain ⟨t, ht, hPt⟩ := hnot s a hI h.1 hno
        apply hPt
        apply hall [a] (List.prefix_append [a] as)
        rw [run_cons, ht, Option.bind_some, run_nil]
      refine ⟨hok', fun t ht => ?_⟩
      refine (ih (h.2 t ht) (hok s a t hI h.1 hok' ht)).mp (fun ps hps s' hrun => ?_)
      apply hall (a :: ps) (List.cons_prefix_cons.mpr ⟨rfl, hps⟩) s'
      rw [run_cons, ht]
      exact hrun
    . intro hguarded ps hps s' hrun
      cases ps with
      | nil =>
        rw [run_nil, Option.some.injEq] at hrun
        exact hP s' (hrun ▸ hI)
      | cons b ps =>
        obtain ⟨rfl, hpre⟩ := List.cons_prefix_cons.mp hps
        rw [run_cons, Option.bind_eq_some_iff] at hrun
        obtain ⟨t, ht, hrun⟩ := hrun
        exact (ih (h.2 t ht) (hok s b t hI h.1 hguarded.1 ht)).mpr (hguarded.2 t ht) ps hpre s' hrun

end Run
end Osproj
