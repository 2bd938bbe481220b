import Mathlib.Data.Nat.Count

/-!
This module contains first fit search: the first run of `n` free places among the places below `len`
and the loop invariant of a search that looks at each place once and counts the free ones since the
last one taken.
-/

namespace Osproj

structure FirstRun (free : Nat → Prop) (len n b : Nat) : Prop where
  fits : b + n ≤ len
  all : ∀ i, b ≤ i → i < b + n → free i
  least : ∀ c, c < b → ∃ i, c ≤ i ∧ i < c + n ∧ ¬ free i

namespace FirstRun

variable {free : Nat → Prop} {len n b b' : Nat}

theorem not_lt (h : FirstRun free len n b) (h' : FirstRun free len n b') : ¬ b < b' := by
  intro hlt
  obtain ⟨i, hlo, hhi, hi⟩ := h'.least b hlt
  exact hi (h.all i hlo hhi)

theorem unique (h : FirstRun free len n b) (h' : FirstRun free len n b') : b = b' := by
  have := h.not_lt h'
  have := h'.not_lt h
  omega

structure Scanned (free : Nat → Prop) (n i k : Nat) : Prop where
  streak_lt : k < n
  streak_le : k ≤ i
  streak : ∀ j, i - k ≤ j → j < i → free j
  blocked : ∀ c, c < i - k → ∃ j, c ≤ j ∧ j < c + n ∧ ¬ free j

namespace Scanned

variable {i k : Nat}

theorem start (hn : 0 < n) : Scanned free n 0 0 := by
  constructor
  . exact hn
  . exact Nat.le_refl 0
  . intro j _ hj
    omega
  . intro c hc
    omega

theorem take (h : Scanned free n i k) (hi : free i) (hk : k + 1 < n)
    : Scanned free n (i + 1) (k + 1) := by
  have ⟨hlt, hle, hstreak, hblocked⟩ := h
  constructor
  . exact hk
  . omega
  . intro j hlo hhi
    by_cases hj : j = i
    . exact hj ▸ hi
    . exact hstreak j (by omega) (by omega)
  . intro c hc
    exact hblocked c (by omega)

theorem skip (h : Scanned free n i k) (hi : ¬ free i) : Scanned free n (i + 1) 0 := by
  have ⟨hlt, hle, hstreak, hblocked⟩ := h
  constructor
  . omega
  . omega
  . intro j hlo hhi
    omega
  . intro c hc
    by_cases hc' : c < i - k
    . exact hblocked c hc'
    -- every run of `n` from one of the last `k` places on reaches the place `i`
    . exact ⟨i, by omega, by omega, hi⟩

theorem found (h : Scanned free n i k) (hi : free i) (hk : k + 1 = n) (hlen : i < len)
    : FirstRun free len n (i - k) := by
  have ⟨hlt, hle, hstreak, hblocked⟩ := h
  constructor
  . omega
  . intro j hlo hhi
    by_cases hj : j = i
    . exact hj ▸ hi
    . exact hstreak j hlo (by omega)
  . exact hblocked

theorem exhausted (h : Scanned free n len k) (b : Nat) : ¬ FirstRun free len n b := by
  intro hrun
  have ⟨hlt, hle, hstreak, hblocked⟩ := h
  have hfits := hrun.fits
  obtain ⟨j, hlo, hhi, hj⟩ := hblocked b (by omega)
  exact hj (hrun.all j hlo hhi)

end Scanned

theorem count_not_of_free [DecidablePred free] {a : Nat} (k : Nat)
    (h : ∀ j, a ≤ j → j < a + k → free j)
    : Nat.count (fun j => ¬ free j) (a + k) = Nat.count (fun j => ¬ free j) a := by
  induction k with
  | zero => rfl
  | succ k ih =>
    have hfree : free (a + k) := h (a + k) (by omega) (by omega)
    rw [← Nat.add_assoc, Nat.count_succ, if_neg (not_not_intro hfree), Nat.add_zero]
    exact ih (fun j hlo hhi => h j hlo (by omega))

theorem count_not_of_taken [DecidablePred free] {a : Nat} (h : ∀ j, j < a → ¬ free j)
    : Nat.count (fun j => ¬ free j) a = a := by
  induction a with
  | zero => rfl
  | succ a ih =>
    rw [Nat.count_succ, if_pos (h a (by omega)), ih (fun j hj => h j (by omega))]

end FirstRun
end Osproj
