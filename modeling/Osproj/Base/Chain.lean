import Mathlib.Data.List.Basic

/-!
This module contains singly linked lists: cells that are linked by `next`, from a first one up to `null`.
-/

namespace Osproj
namespace Chain

variable {α : Type} {next next' : α → α} {null a b : α} {l l' : List α}

/--
The cells on the way from `a` on are those of the list.
-/
def Follows (next : α → α) (null : α) : α → List α → Prop
  | a, [] => a = null
  | a, b :: l => a = b ∧ b ≠ null ∧ Follows next null (next b) l

theorem Follows.nil_iff : Follows next null null l ↔ l = [] := by
  cases l with
  | nil => simp [Follows]
  | cons b l =>
    simp only [Follows, reduceCtorEq, iff_false, not_and]
    intro heq hne
    exact absurd heq.symm hne

theorem Follows.ne_nil (h : Follows next null a l) (hne : a ≠ null)
    : ∃ l', l = a :: l' ∧ Follows next null (next a) l' := by
  cases l with
  | nil => exact absurd h hne
  | cons b l =>
    refine ⟨l, ?_, ?_⟩
    . rw [h.1]
    . rw [h.1]
      exact h.2.2

theorem Follows.congr (h : Follows next null a l) (hnext : ∀ b ∈ l, next' b = next b) : Follows next' null a l := by
  induction l generalizing a with
  | nil => exact h
  | cons b l ih =>
    refine ⟨h.1, h.2.1, ?_⟩
    rw [hnext b List.mem_cons_self]
    exact ih h.2.2 (fun c hc => hnext c (List.mem_cons_of_mem b hc))

theorem Follows.unique (h : Follows next null a l) (h' : Follows next null a l') : l = l' := by
  induction l generalizing a l' with
  | nil =>
    rw [Follows] at h
    subst h
    exact (Follows.nil_iff.mp h').symm
  | cons b l ih =>
    obtain ⟨rfl, hne, h⟩ := h
    obtain ⟨l'', rfl, h''⟩ := h'.ne_nil hne
    rw [ih h h'']

theorem Follows.of_mem (h : Follows next null a l) (hb : b ∈ l)
    : ∃ l₁ l₂, l = l₁ ++ b :: l₂ ∧ Follows next null b (b :: l₂) := by
  induction l generalizing a with
  | nil => simp at hb
  | cons c l ih =>
    cases List.mem_cons.mp hb with
    | inl hbc =>
      subst hbc
      exact ⟨[], l, rfl, rfl, h.2⟩
    | inr hb =>
      obtain ⟨l₁, l₂, heq, hfollows⟩ := ih h.2.2 hb
      exact ⟨c :: l₁, l₂, by rw [heq, List.cons_append], hfollows⟩

theorem Follows.nodup (h : Follows next null a l) : l.Nodup := by
  induction l generalizing a with
  | nil => exact List.nodup_nil
  | cons b l ih =>
    rw [List.nodup_cons]
    refine ⟨?_, ih h.2.2⟩
    intro hb
    obtain ⟨l₁, l₂, heq, hfollows⟩ := h.2.2.of_mem hb
    have hl : l = l₂ := Follows.unique h.2.2 hfollows.2.2
    have hlength := congrArg List.length heq
    rw [hl, List.length_append, List.length_cons] at hlength
    omega

end Chain
end Osproj
