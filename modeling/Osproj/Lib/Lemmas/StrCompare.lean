import Osproj.Lib.Lemmas.Str

/-!
This module contains the end of a string as `strlen`, `strcat` and `strcmp` find it: the instruction of the first one
counts down, and the last one stops at the first difference or at a common terminator.
-/

namespace Osproj
namespace Str

variable {m : Memory} {a b dst src : Nat} {as bs : List (BitVec 8)}

section Length

variable {n i : Nat}

theorem lt_of_scan (h : strlen.scan m a n = some i) : i < n := by
  induction n generalizing a i with
  | zero => cases h
  | succ n ih =>
    rw [strlen.scan] at h
    split at h
    . cases h
      exact Nat.succ_pos n
    . obtain ⟨j, hj, rfl⟩ := Option.map_eq_some_iff.mp h
      exact Nat.succ_lt_succ (ih hj)

theorem scasb_eq (m : Memory) (a n : Nat)
    : scasb m 0 a n
        =
      match strlen.scan m a n with
      | some i => (n - (i + 1), true)
      | none => (0, false) := by
  induction n generalizing a with
  | zero => rfl
  | succ n ih =>
    rw [scasb, strlen.scan]
    split
    . rfl
    . rw [ih]
      cases strlen.scan m (a + 1) n with
      | none => rfl
      | some i =>
        simp only [Option.map_some]
        congr 1
        omega

/--
`subl`, `neg` and `dec` turn what is left of the count into the number of bytes before the terminator.
-/
theorem strlen_instructions (m : Memory) (s : Nat) : (strlen.instructions m s).toNat = strlen m s := by
  rw [strlen.instructions, strlen, scasb_eq]
  have hlt {i : Nat} (h : strlen.scan m s 0xFFFFFFFF = some i) : i < 0xFFFFFFFF := lt_of_scan h
  generalize strlen.scan m s 0xFFFFFFFF = found at hlt
  cases found with
  | none => rfl
  | some i =>
    have hi := hlt rfl
    simp only [if_true, Option.getD_some]
    bv_omega

end Length

namespace Reads

def upTo (dst src : Nat → Nat) (k : Nat) : Reads :=
  ⟨((List.range k).map dst).reverse, ((List.range k).map src).reverse⟩

/--
No byte is read behind the terminator of either string.
-/
def Inside (reads : Reads) (dst : Nat) (as : List (BitVec 8)) (src : Nat) (bs : List (BitVec 8)) : Prop :=
  (∀ x ∈ reads.dst, dst ≤ x ∧ x ≤ dst + as.length) ∧ ∀ x ∈ reads.src, src ≤ x ∧ x ≤ src + bs.length

theorem add_upTo (dst src : Nat → Nat) (k : Nat)
    : (upTo dst src k).add (dst k) (src k) = upTo dst src (k + 1) := by
  simp [upTo, add, List.range_succ]

theorem mem_dst_upTo {dst src : Nat → Nat} {k x : Nat} : x ∈ (upTo dst src k).dst ↔ ∃ j, j < k ∧ dst j = x := by
  simp [upTo]

theorem mem_src_upTo {dst src : Nat → Nat} {k x : Nat} : x ∈ (upTo dst src k).src ↔ ∃ j, j < k ∧ src j = x := by
  simp [upTo]

end Reads

section Difference

variable {k : Nat}

/--
Two strings differ at the terminator of the shorter one at the latest.
-/
theorem exists_difference (h : StringAt m a as) (h' : StringAt m b bs) (hne : as ≠ bs)
    : ∃ k, k ≤ as.length ∧ k ≤ bs.length ∧ (∀ j, j < k → m.load (a + j) = m.load (b + j))
        ∧ m.load (a + k) ≠ m.load (b + k) := by
  induction as generalizing a b bs with
  | nil =>
    cases bs with
    | nil => exact absurd rfl hne
    | cons c bs =>
      refine ⟨0, Nat.le_refl 0, Nat.zero_le _, by omega, ?_⟩
      rw [Nat.add_zero, Nat.add_zero, h'.1, show m.load a = 0 from h]
      exact Ne.symm h'.2.1
  | cons x as ih =>
    cases bs with
    | nil =>
      refine ⟨0, Nat.zero_le _, Nat.le_refl 0, by omega, ?_⟩
      rw [Nat.add_zero, Nat.add_zero, h.1, show m.load b = 0 from h']
      exact h.2.1
    | cons c bs =>
      by_cases hc : x = c
      . subst hc
        have hrest : as ≠ bs := fun heq => hne (congrArg (x :: ·) heq)
        obtain ⟨k, hka, hkb, heq, hdiffer⟩ := ih h.2.2 h'.2.2 hrest
        refine ⟨k + 1, Nat.succ_le_succ hka, Nat.succ_le_succ hkb, ?_, ?_⟩
        . intro j hj
          cases j with
          | zero => exact h.1.trans h'.1.symm
          | succ j =>
            rw [show a + (j + 1) = a + 1 + j by omega, show b + (j + 1) = b + 1 + j by omega]
            exact heq j (Nat.lt_of_succ_lt_succ hj)
        . rw [show a + (k + 1) = a + 1 + k by omega, show b + (k + 1) = b + 1 + k by omega]
          exact hdiffer
      . refine ⟨0, Nat.zero_le _, Nat.zero_le _, by omega, ?_⟩
        rw [Nat.add_zero, Nat.add_zero, h.1, h'.1]
        exact hc

theorem StringAt.load_eq (h : StringAt m a as) (h' : StringAt m b as) {i : Nat} (hi : i ≤ as.length)
    : m.load (a + i) = m.load (b + i) := by
  rw [h.load_add hi, h'.load_add hi]

/--
`strcmp` after `j` rounds. The characters are those of the round before.
-/
def strcmp.state (m : Memory) (dst src : Nat) : Nat → StrcmpState
  | 0 => ⟨0, 0, dst, src, ⟨[], []⟩⟩
  | j + 1 =>
    ⟨m.load (src + j), m.load (dst + j), dst + (j + 1), src + (j + 1), .upTo (dst + ·) (src + ·) (j + 1)⟩

theorem strcmp.state_dst (j : Nat) : (state m dst src j).dst = dst + j := by
  cases j <;> rfl

theorem strcmp.state_src (j : Nat) : (state m dst src j).src = src + j := by
  cases j <;> rfl

theorem strcmp.state_reads (j : Nat) : (state m dst src j).reads = .upTo (dst + ·) (src + ·) j := by
  cases j <;> rfl

theorem strcmp.step_state {j : Nat} (heq : ∀ i, i < j → m.load (dst + i) = m.load (src + i))
    : step m (state m dst src j)
        =
      if m.load (src + j) ≠ m.load (dst + j) then
        some (.inr (1, .upTo (dst + ·) (src + ·) (j + 1)))
      else if m.load (src + j) = 0 then
        some (.inr (0, .upTo (dst + ·) (src + ·) (j + 1)))
      else
        some (.inl (state m dst src (j + 1))) := by
  have hcontinue : (state m dst src j).cs = (state m dst src j).cd := by
    cases j with
    | zero => rfl
    | succ j => exact (heq j (Nat.lt_succ_self j)).symm
  rw [step, if_pos hcontinue]
  simp only [state_dst, state_src, state_reads, Reads.add_upTo (dst + ·) (src + ·) j]
  rfl

theorem strcmp_of_differ (hk : k < 0x100000000) (heq : ∀ j, j < k → m.load (dst + j) = m.load (src + j))
    (hne : ∀ j, j < k → m.load (src + j) ≠ 0) (hdiffer : m.load (dst + k) ≠ m.load (src + k))
    : strcmp m dst src = some (1, .upTo (dst + ·) (src + ·) (k + 1)) := by
  apply Loop.loop_of_sequence (f := strcmp.state m dst src) ?_ ?_ hk
  . intro j hj
    rw [strcmp.step_state (fun i hi => heq i (by omega)), if_neg (not_not.mpr (heq j hj).symm), if_neg (hne j hj)]
  . rw [strcmp.step_state heq, if_pos (Ne.symm hdiffer)]

theorem strcmp_of_equal (hk : k < 0x100000000) (heq : ∀ j, j ≤ k → m.load (dst + j) = m.load (src + j))
    (hne : ∀ j, j < k → m.load (src + j) ≠ 0) (hend : m.load (src + k) = 0)
    : strcmp m dst src = some (0, .upTo (dst + ·) (src + ·) (k + 1)) := by
  have heq' (j : Nat) (hj : j < k) := heq j (Nat.le_of_lt hj)
  apply Loop.loop_of_sequence (f := strcmp.state m dst src) ?_ ?_ hk
  . intro j hj
    rw [strcmp.step_state (fun i hi => heq' i (by omega)), if_neg (not_not.mpr (heq' j hj).symm), if_neg (hne j hj)]
  . rw [strcmp.step_state heq', if_neg (not_not.mpr (heq k (Nat.le_refl k)).symm), if_pos hend]

theorem Reads.inside_upTo (hka : k ≤ as.length) (hkb : k ≤ bs.length)
    : (upTo (a + ·) (b + ·) (k + 1)).Inside a as b bs := by
  constructor
  . intro x hx
    obtain ⟨j, hj, rfl⟩ := mem_dst_upTo.mp hx
    omega
  . intro x hx
    obtain ⟨j, hj, rfl⟩ := mem_src_upTo.mp hx
    omega

theorem strcmp_spec (h : StringAt m a as) (h' : StringAt m b bs) (hlen : as.length < 0x100000000)
    : ∃ reads, strcmp m a b = some (if as = bs then 0 else 1, reads) ∧ reads.Inside a as b bs := by
  by_cases heq : as = bs
  . subst heq
    refine ⟨_, ?_, Reads.inside_upTo (Nat.le_refl _) (Nat.le_refl _)⟩
    rw [if_pos rfl]
    exact strcmp_of_equal hlen (fun j hj => h.load_eq h' hj) (fun j hj => h'.load_ne_zero hj) h'.load_end
  . obtain ⟨k, hka, hkb, hsame, hdiffer⟩ := exists_difference h h' heq
    refine ⟨_, ?_, Reads.inside_upTo hka hkb⟩
    rw [if_neg heq]
    exact strcmp_of_differ (by omega) hsame (fun j hj => h'.load_ne_zero (by omega)) hdiffer

end Difference

section Concatenation

/--
A string is copied and another one appended to it: the destination holds both, nothing else has changed, and `strlen`
and `strcmp` see what there is, the latter without leaving either string.
-/
theorem strcpy_strcat_strcmp (m : Memory) (dst a b : Nat) (as bs : List (BitVec 8)) (h : StringAt m a as)
    (h' : StringAt m b bs) (hdst : 0 < dst) (hroom : dst + as.length + bs.length + 1 ≤ 0x100000000)
    (hapart : a + as.length < dst ∨ dst + as.length + bs.length < a)
    (hapart' : b + bs.length < dst ∨ dst + as.length + bs.length < b)
    : ∃ m₁ m₂, strcpy m dst a = some m₁ ∧ strcat m₁ dst b = some m₂
        ∧ m₂.loadBytes dst (as.length + bs.length + 1) = as ++ bs ++ [0]
        ∧ Memory.StoresIn m m₂ (fun x => dst ≤ x ∧ x < dst + as.length + bs.length + 1)
        ∧ (∀ x, x < dst ∨ dst + as.length + bs.length + 1 ≤ x → m₂.load x = m.load x)
        ∧ (strlen.instructions m₂ dst).toNat = as.length + bs.length
        ∧ ∀ c cs, StringAt m₂ c cs → ∃ r reads, strcmp m₂ dst c = some (r, reads)
          ∧ (r = 0 ↔ cs = as ++ bs)
          ∧ reads.Inside dst (as ++ bs) c cs := by
  obtain ⟨m₁, m₂, hcpy, hcat, hstring, hkept, hstores⟩ :=
    strcpy_strcat h h' (Nat.ne_of_gt hdst) (by omega) hapart.symm hapart'.symm
  refine ⟨m₁, m₂, hcpy, hcat, ?_, ?_, ?_, ?_, ?_⟩
  . rw [← List.length_append]
    exact hstring.loadBytes
  . apply hstores.storesIn.mono
    intro x hx
    omega
  . intro x hx
    exact hkept x (by omega)
  . have hlen := strlen_eq hstring (by rw [List.length_append]; omega)
    rw [strlen_instructions, hlen, List.length_append]
  . intro c cs hc
    obtain ⟨reads, hcmp, hinside⟩ := strcmp_spec hstring hc (by rw [List.length_append]; omega)
    refine ⟨_, reads, hcmp, ?_, hinside⟩
    split
    . next heq => exact iff_of_true rfl heq.symm
    . next hne => exact iff_of_false (by decide) (Ne.symm hne)

def twoStrings : Memory where
  cell := fun x => if x = 0x1000 then 0x61 else if x = 0x2000 then 0x62 else if x = 0x2001 then 0x63 else 0
  log := []

theorem strcpy_strcat_strcmp_three
    : ∃ m₁ m₂, strcpy twoStrings 0x3000 0x1000 = some m₁ ∧ strcat m₁ 0x3000 0x2000 = some m₂
        ∧ m₂.loadBytes 0x3000 4 = [0x61, 0x62, 0x63, 0]
        ∧ (strlen.instructions m₂ 0x3000).toNat = 3 := by
  obtain ⟨m₁, m₂, hcpy, hcat, hbytes, -, -, hlen, -⟩ :=
    strcpy_strcat_strcmp twoStrings 0x3000 0x1000 0x2000 [0x61] [0x62, 0x63] (by decide) (by decide) (by decide)
      (by decide) (by decide) (by decide)
  exact ⟨m₁, m₂, hcpy, hcat, hbytes, hlen⟩

end Concatenation

end Str
end Osproj
