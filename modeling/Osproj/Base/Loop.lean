import Mathlib.Data.Nat.Basic

/-!
This module contains loops whose body either goes on with a new state or stops with a result. A body that
returns `none` is one that never comes back.
-/

namespace Osproj
namespace Loop

variable {σ ρ : Type} {step : σ → Option (σ ⊕ ρ)} {s s' t : σ} {r : ρ} {k : Nat}

/--
`fuel` bounds the number of times the body is run.
-/
def loop (step : σ → Option (σ ⊕ ρ)) : Nat → σ → Option ρ
  | 0, _ => none
  | fuel + 1, s => do
    match ← step s with
    | .inl s => loop step fuel s
    | .inr r => return r

/--
The body takes `s` to `s'` in `k` rounds.
-/
def Path (step : σ → Option (σ ⊕ ρ)) : Nat → σ → σ → Prop
  | 0, s, s' => s = s'
  | k + 1, s, s' => ∃ t, step s = some (.inl t) ∧ Path step k t s'

theorem loop_succ_inl {fuel : Nat} (h : step s = some (.inl t)) : loop step (fuel + 1) s = loop step fuel t := by
  rw [loop, h]
  rfl

theorem loop_succ_inr {fuel : Nat} (h : step s = some (.inr r)) : loop step (fuel + 1) s = some r := by
  rw [loop, h]
  rfl

theorem loop_of_path (h : Path step k s s') (hstop : step s' = some (.inr r)) : loop step (k + 1) s = some r := by
  induction k generalizing s with
  | zero =>
    obtain rfl : s = s' := h
    exact loop_succ_inr hstop
  | succ k ih =>
    obtain ⟨u, hu, h⟩ := h
    rw [loop_succ_inl hu, ih h]

/--
A body that does what another one does wherever that comes back, run at least as many times.
-/
theorem loop_mono {body : σ → Option (σ ⊕ ρ)} {fuel fuel' : Nat} (hbody : ∀ s y, body s = some y → step s = some y)
    (h : loop body fuel s = some r) (hle : fuel ≤ fuel')
    : loop step fuel' s = some r := by
  induction fuel generalizing s fuel' with
  | zero => cases h
  | succ fuel ih =>
    obtain ⟨n, rfl⟩ := Nat.exists_eq_add_of_le hle
    rw [show fuel + 1 + n = fuel + n + 1 by omega]
    cases hnext : body s with
    | none =>
      rw [loop, hnext] at h
      cases h
    | some next =>
      have hstep := hbody s next hnext
      cases next with
      | inl t =>
        rw [loop_succ_inl hnext] at h
        rw [loop_succ_inl hstep]
        exact ih h (Nat.le_add_right fuel n)
      | inr r' =>
        rw [loop_succ_inr hnext] at h
        rw [loop_succ_inr hstep]
        exact h

theorem loop_of_le {fuel fuel' : Nat} (h : loop step fuel s = some r) (hle : fuel ≤ fuel')
    : loop step fuel' s = some r := loop_mono (fun _ _ hstep => hstep) h hle

theorem loop_of_body {body : σ → Option (σ ⊕ ρ)} {fuel : Nat} (hbody : ∀ s y, body s = some y → step s = some y)
    (h : loop body fuel s = some r)
    : loop step fuel s = some r := loop_mono hbody h (Nat.le_refl fuel)

/--
A loop that goes through the states of the sequence `f` and stops in `f k`.
-/
theorem loop_of_sequence {fuel : Nat} {f : Nat → σ} (hstep : ∀ j, j < k → step (f j) = some (.inl (f (j + 1))))
    (hstop : step (f k) = some (.inr r)) (hfuel : k < fuel)
    : loop step fuel (f 0) = some r := by
  have hpath (i left : Nat) (hleft : i + left = k) : Path step left (f i) (f k) := by
    induction left generalizing i with
    | zero => exact congrArg f hleft
    | succ left ih => exact ⟨f (i + 1), hstep i (by omega), ih (i + 1) (by omega)⟩
  exact loop_of_le (loop_of_path (hpath 0 k (Nat.zero_add k)) hstop) hfuel

theorem path_of_loop {fuel : Nat} (h : loop step fuel s = some r)
    : ∃ k s', Path step k s s' ∧ step s' = some (.inr r) := by
  induction fuel generalizing s with
  | zero => cases h
  | succ fuel ih =>
    cases hstep : step s with
    | none =>
      rw [loop, hstep] at h
      cases h
    | some next =>
      cases next with
      | inl t =>
        rw [loop_succ_inl hstep] at h
        obtain ⟨k, s', hpath, hstop⟩ := ih h
        exact ⟨k + 1, s', ⟨t, hstep, hpath⟩, hstop⟩
      | inr r' =>
        rw [loop_succ_inr hstep] at h
        cases h
        exact ⟨0, s, rfl, hstep⟩

/--
The states of a loop whose body, where it goes on, follows the sequence `f`.
-/
theorem path_iff_of_follows {f : Nat → σ} {ok : σ → Prop}
    (hstep : ∀ n t, step (f n) = some (.inl t) ↔ ok (f n) ∧ t = f (n + 1))
    : Path step k (f 0) s' ↔ (∀ j < k, ok (f j)) ∧ s' = f k := by
  have hgen (n : Nat) : Path step k (f n) s' ↔ (∀ j < k, ok (f (n + j))) ∧ s' = f (n + k) := by
    induction k generalizing n with
    | zero => exact ⟨fun h => ⟨by simp, h.symm⟩, fun h => h.2.symm⟩
    | succ k ih =>
      constructor
      . rintro ⟨t, ht, hpath⟩
        obtain ⟨hok, rfl⟩ := (hstep n t).mp ht
        obtain ⟨hrest, heq⟩ := (ih (n + 1)).mp hpath
        refine ⟨?_, by rw [heq]; congr 1; omega⟩
        intro j hj
        cases j with
        | zero => exact hok
        | succ j =>
          rw [show n + (j + 1) = n + 1 + j by omega]
          exact hrest j (by omega)
      . rintro ⟨hok, heq⟩
        refine ⟨f (n + 1), (hstep n _).mpr ⟨hok 0 (by omega), rfl⟩, (ih (n + 1)).mpr ⟨?_, by rw [heq]; congr 1; omega⟩⟩
        intro j hj
        rw [show n + 1 + j = n + (j + 1) by omega]
        exact hok (j + 1) (by omega)
  simpa using hgen 0

end Loop
end Osproj
