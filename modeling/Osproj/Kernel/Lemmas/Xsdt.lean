import Mathlib.Algebra.GroupWithZero.Nat
import Osproj.Kernel.Impl.Acpi
import Osproj.Lib.Lemmas.StrBounded
import Osproj.Mm.Lemmas.Linear

/-!
This module contains the reads of `acpi.c` from memory, its checksum, and the search for a table in the RSDT: which
entries `find_xsdt` reads and what it returns. Tables are told by their physical addresses.
-/

namespace Osproj
namespace Acpi

def byteAt (m : Memory) (x : Nat) : BitVec 8 := m.load (x % 0x100000000)

def Mapped (x : Nat) : Prop := x % 0x100000000 ∈ kernelMemory ∪ deviceMemory

def Signed (m : Memory) (x : Nat) (signature : List (BitVec 8)) : Prop :=
  ∀ j < signature.length, signature[j]? = some (byteAt m (x + j))

/--
The table at `x` is mapped as far as it agrees with the signature, the first different byte included.
-/
def Readable (m : Memory) (x : Nat) (signature : List (BitVec 8)) : Prop :=
  ∀ j < signature.length, (∀ l < j, signature[l]? = some (byteAt m (x + l))) → Mapped (x + j)

variable {m : Memory} {x rsdt : Nat} {signature : List (BitVec 8)}

theorem mapped_of_lt (h : x < 0x40000000) : Mapped x := by
  apply Or.inl
  constructor <;> omega

theorem load_of_mapped (h : Mapped x) : load m (x + 0xC0000000) = some (byteAt m x) := by
  rw [load, byteAt, linear]
  cases h with
  | inl hkernel =>
    have hlt : x % 0x100000000 < 0x40000000 := hkernel.2
    have hview : (x + 0xC0000000) % 0x100000000 = x % 0x100000000 + 0xC0000000 := by omega
    rw [hview, if_neg (by omega), lin2phy, if_pos (by omega), Nat.add_sub_cancel]
    rfl
  | inr hdevice =>
    have hle : 0xC0000000 ≤ x % 0x100000000 := hdevice.1
    have hlt : x % 0x100000000 < 0x100000000 := hdevice.2
    have hview : (x + 0xC0000000) % 0x100000000 = x % 0x100000000 - 0x40000000 := by omega
    rw [hview, if_neg (by omega), lin2phy, if_neg (by omega), if_pos (by omega), Nat.sub_add_cancel (by omega)]
    rfl

theorem load_of_not_mapped (h : ¬ Mapped x) : load m (x + 0xC0000000) = none := by
  have hkernel : ¬ x % 0x100000000 < 0x40000000 := fun hlt => h (Or.inl ⟨Nat.zero_le _, hlt⟩)
  have hdevice : ¬ 0xC0000000 ≤ x % 0x100000000 :=
    fun hle => h (Or.inr ⟨hle, Nat.mod_lt x (by decide)⟩)
  rw [load, linear, if_pos (by omega)]
  rfl

theorem signed_cons {c : BitVec 8} : Signed m x (c :: signature) ↔ byteAt m x = c ∧ Signed m (x + 1) signature := by
  constructor
  . intro h
    constructor
    . exact (Option.some.inj (h 0 (Nat.zero_lt_succ _))).symm
    . intro j hj
      rw [show x + 1 + j = x + (j + 1) by omega]
      exact h (j + 1) (Nat.succ_lt_succ hj)
  . rintro ⟨rfl, h⟩ j hj
    cases j with
    | zero => rfl
    | succ j =>
      rw [show x + (j + 1) = x + 1 + j by omega]
      exact h j (Nat.lt_of_succ_lt_succ hj)

theorem readable_cons {c : BitVec 8}
    : Readable m x (c :: signature) ↔ Mapped x ∧ (byteAt m x = c → Readable m (x + 1) signature) := by
  constructor
  . intro h
    constructor
    . exact h 0 (Nat.zero_lt_succ _) (fun l hl => absurd hl (Nat.not_lt_zero l))
    . intro hc j hj hagree
      rw [show x + 1 + j = x + (j + 1) by omega]
      apply h (j + 1) (Nat.succ_lt_succ hj)
      intro l hl
      cases l with
      | zero => exact congrArg some hc.symm
      | succ l =>
        rw [show x + (l + 1) = x + 1 + l by omega]
        exact hagree l (Nat.lt_of_succ_lt_succ hl)
  . rintro ⟨hmapped, h⟩ j hj hagree
    cases j with
    | zero => exact hmapped
    | succ j =>
      have hc : byteAt m x = c := (Option.some.inj (hagree 0 (Nat.zero_lt_succ j))).symm
      rw [show x + (j + 1) = x + 1 + j by omega]
      apply h hc j (Nat.lt_of_succ_lt_succ hj)
      intro l hl
      rw [show x + 1 + l = x + (l + 1) by omega]
      exact hagree (l + 1) (Nat.succ_lt_succ hl)

theorem compare_eq_some_iff {r : Nat}
    : compare m (x + 0xC0000000) signature = some r
        ↔
      Readable m x signature ∧ (Signed m x signature ∧ r = 0 ∨ ¬ Signed m x signature ∧ r = 1) := by
  induction signature generalizing x with
  | nil =>
    have hsigned : Signed m x [] := fun j hj => absurd hj (Nat.not_lt_zero j)
    have hreadable : Readable m x [] := fun j hj => absurd hj (Nat.not_lt_zero j)
    simp [compare, hsigned, hreadable, eq_comm]
  | cons c signature ih =>
    rw [signed_cons, readable_cons, compare]
    by_cases hmapped : Mapped x
    . rw [load_of_mapped hmapped, show x + 0xC0000000 + 1 = x + 1 + 0xC0000000 by omega]
      by_cases hc : byteAt m x = c
      . simp [hc, hmapped, ih]
      . simp only [Option.bind_eq_bind, Option.bind_some, ne_eq, hc, not_false_eq_true, if_true, false_and,
          false_implies, hmapped, true_and, false_or]
        exact ⟨fun h => (Option.some.inj h).symm, fun h => h ▸ rfl⟩
    . simp [load_of_not_mapped hmapped, hmapped]

theorem compare_cases {dst r : Nat} (h : compare m dst signature = some r)
    : r = 0 ∧ (∀ j < signature.length, signature[j]? = load m (dst + j))
        ∨ r = 1 ∧ ∃ k < signature.length, (∀ j < k, signature[j]? = load m (dst + j))
          ∧ ∃ b, load m (dst + k) = some b ∧ signature[k]? ≠ some b := by
  induction signature generalizing dst with
  | nil =>
    cases h
    exact Or.inl ⟨rfl, fun j hj => absurd hj (Nat.not_lt_zero j)⟩
  | cons c signature ih =>
    rw [compare, Option.bind_eq_bind, Option.bind_eq_some_iff] at h
    obtain ⟨b, hb, h⟩ := h
    split at h
    . next hne =>
      cases h
      refine Or.inr ⟨rfl, 0, Nat.succ_pos _, fun j hj => absurd hj (Nat.not_lt_zero j), b, hb, ?_⟩
      exact fun heq => hne (Option.some.inj heq).symm
    . next heq =>
      rw [not_not] at heq
      subst heq
      have hcons {n : Nat} (hrest : ∀ j < n, signature[j]? = load m (dst + 1 + j)) (j : Nat) (hj : j < n + 1)
          : (b :: signature)[j]? = load m (dst + j) := by
        cases j with
        | zero => exact hb.symm
        | succ j =>
          rw [show dst + (j + 1) = dst + 1 + j by omega]
          exact hrest j (Nat.lt_of_succ_lt_succ hj)
      rcases ih h with ⟨rfl, hrest⟩ | ⟨rfl, k, hk, hrest, b', hb', hne⟩
      . exact Or.inl ⟨rfl, hcons hrest⟩
      . refine Or.inr ⟨rfl, k + 1, Nat.succ_lt_succ hk, hcons hrest, b', ?_, hne⟩
        rw [show dst + (k + 1) = dst + 1 + k by omega]
        exact hb'

/--
`compare` is `strncmp` with the length of the literal, which lies at `src`, in a memory by linear addresses.
-/
theorem strncmp_of_compare {v : Memory} {dst src r : Nat}
    (hview : ∀ a b, load m a = some b → v.load (a % 0x100000000) = b)
    (hsignature : ∀ j < signature.length, signature[j]? = some (v.load (Str.index src j)))
    (h : compare m dst signature = some r)
    : ∃ reads, Str.strncmp v dst src signature.length = some (r, reads) := by
  have hload {j : Nat} (hj : j < signature.length) (hsame : signature[j]? = load m (dst + j))
      : v.load (Str.index dst j) = v.load (Str.index src j) :=
    hview _ _ (hsame.symm.trans (hsignature j hj))
  rcases compare_cases h with ⟨rfl, hsame⟩ | ⟨rfl, k, hk, hsame, b, hb, hne⟩
  . exact ⟨_, Str.strncmp_of_equal (fun j hj => hload hj (hsame j hj))⟩
  . refine ⟨_, Str.strncmp_of_differ hk (fun j hj => hload (by omega) (hsame j hj)) ?_⟩
    intro heq
    rw [hsignature k hk, ← heq, show v.load (Str.index dst k) = b from hview _ _ hb] at hne
    exact hne rfl

def sumTo (m : Memory) (head n : Nat) : Option (BitVec 32) :=
  (List.range n).foldlM (fun (sum : BitVec 32) i => do return sum + (← load m (head + i)).signExtend 32) 0

theorem sumTo_succ (m : Memory) (head n : Nat)
    : sumTo m head (n + 1)
        =
      (sumTo m head n).bind (fun sum => (load m (head + n)).map (fun b => sum + b.signExtend 32)) := by
  rw [sumTo, List.range_succ, List.foldlM_append]
  apply congrArg (Option.bind (sumTo m head n))
  funext sum
  rw [List.foldlM_cons]
  cases load m (head + n) with
  | none => rfl
  | some b => rfl

theorem load_of_sumTo {head n i : Nat} {sum : BitVec 32} (h : sumTo m head n = some sum) (hi : i < n)
    : ∃ b, load m (head + i) = some b := by
  induction n generalizing sum with
  | zero => exact absurd hi (Nat.not_lt_zero i)
  | succ n ih =>
    rw [sumTo_succ, Option.bind_eq_some_iff] at h
    obtain ⟨sum', hsum', h⟩ := h
    obtain ⟨b, hb, -⟩ := Option.map_eq_some_iff.mp h
    rcases Nat.lt_succ_iff_lt_or_eq.mp hi with hlt | rfl
    . exact ih hsum' hlt
    . exact ⟨b, hb⟩

theorem signExtend_mod (b : BitVec 8) : (b.signExtend 32).toNat % 0x100 = b.toNat := by
  have hlt := b.isLt
  rw [BitVec.toNat_signExtend, BitVec.toNat_setWidth]
  split
  . omega
  . omega

theorem sumTo_eq {head n : Nat} {bytes : Nat → BitVec 8} (h : ∀ i < n, load m (head + i) = some (bytes i))
    : ∃ sum, sumTo m head n = some sum
        ∧ sum.toNat % 0x100 = ((List.range n).map (fun i => (bytes i).toNat)).sum % 0x100 := by
  induction n with
  | zero => exact ⟨0, rfl, rfl⟩
  | succ n ih =>
    obtain ⟨sum, hsum, hmod⟩ := ih (fun i hi => h i (Nat.lt_succ_of_lt hi))
    refine ⟨sum + (bytes n).signExtend 32, ?_, ?_⟩
    . rw [sumTo_succ, hsum, Option.bind_some, h n (Nat.lt_succ_self n)]
      rfl
    . have hbyte := signExtend_mod (bytes n)
      rw [BitVec.toNat_add, List.range_succ, List.map_append, List.sum_append, List.map_singleton,
        List.sum_singleton]
      omega

theorem and_mask_eq_zero_iff (sum : BitVec 32) : sum &&& 0xFF = 0 ↔ sum.toNat % 0x100 = 0 := by
  rw [← BitVec.toNat_inj, BitVec.toNat_and]
  exact iff_of_eq (congrArg (· = 0) (Nat.and_two_pow_sub_one_eq_mod sum.toNat 8))

theorem acpiChecksum_eq_some_iff {head n : Nat} {c : BitVec 8}
    : acpiChecksum m head n = some c ↔ ∃ sum, sumTo m head n = some sum ∧ c = if sum &&& 0xFF = 0 then 1 else 0 := by
  rw [acpiChecksum, Option.bind_eq_bind, Option.bind_eq_some_iff]
  constructor
  . rintro ⟨sum, hsum, hc⟩
    refine ⟨sum, hsum, ?_⟩
    split at hc
    . next h =>
      rw [if_pos h]
      exact (Option.some.inj hc).symm
    . next h =>
      rw [if_neg h]
      exact (Option.some.inj hc).symm
  . rintro ⟨sum, hsum, rfl⟩
    refine ⟨sum, hsum, ?_⟩
    split
    . rfl
    . rfl

theorem eq_one_of_acpiChecksum {head n : Nat} {c : BitVec 8} (h : acpiChecksum m head n = some c) (hc : c ≠ 0)
    : c = 1 := by
  obtain ⟨sum, -, rfl⟩ := acpiChecksum_eq_some_iff.mp h
  split
  . rfl
  . next hsum =>
    rw [if_neg hsum] at hc
    exact absurd rfl hc

def Passed (m : Memory) (rsdt : Nat) (signature : List (BitVec 8)) (i : Nat) : Prop :=
  ∃ p, entry m rsdt i = some p ∧ Readable m p signature ∧ ¬ Signed m p signature

def Hit (m : Memory) (rsdt : Nat) (signature : List (BitVec 8)) (i p : Nat) : Prop :=
  entry m rsdt i = some p ∧ Readable m p signature ∧ Signed m p signature

variable {len i : Nat}

theorem step_eq_some_iff {y : Nat ⊕ Nat} (hlen : length m rsdt = some len) (hsignature : signature.length = 4)
    : findXsdt.step m rsdt signature i = some y
        ↔
      i < entryCount len ∧ (Passed m rsdt signature i ∧ y = .inl (i + 1)
          ∨ ∃ p, Hit m rsdt signature i p ∧ y = .inr (phy2lin p))
        ∨ ¬ i < entryCount len ∧ y = .inr 0 := by
  have htake : signature.take 4 = signature := List.take_of_length_le (Nat.le_of_eq hsignature)
  rw [findXsdt.step, hlen, htake, Option.bind_eq_bind, Option.bind_some]
  split
  . next hi =>
    simp only [hi, true_and, not_true_eq_false, false_and, or_false, Option.bind_eq_some_iff]
    constructor
    . rintro ⟨p, hp, r, hr, hy⟩
      obtain ⟨hreadable, ⟨hsigned, rfl⟩ | ⟨hsigned, rfl⟩⟩ := compare_eq_some_iff.mp hr
      . exact Or.inr ⟨p, ⟨hp, hreadable, hsigned⟩, (Option.some.inj hy).symm⟩
      . exact Or.inl ⟨⟨p, hp, hreadable, hsigned⟩, (Option.some.inj hy).symm⟩
    . rintro (⟨⟨p, hp, hreadable, hsigned⟩, rfl⟩ | ⟨p, ⟨hp, hreadable, hsigned⟩, rfl⟩)
      . exact ⟨p, hp, 1, compare_eq_some_iff.mpr ⟨hreadable, Or.inr ⟨hsigned, rfl⟩⟩, rfl⟩
      . exact ⟨p, hp, 0, compare_eq_some_iff.mpr ⟨hreadable, Or.inl ⟨hsigned, rfl⟩⟩, rfl⟩
  . next hi =>
    simp only [hi, false_and, false_or, not_false_eq_true, true_and]
    exact ⟨fun h => (Option.some.inj h).symm, fun h => h ▸ rfl⟩

theorem path_findXsdt_iff {k k' : Nat} (hlen : length m rsdt = some len) (hsignature : signature.length = 4)
    : Loop.Path (findXsdt.step m rsdt signature) k 0 k'
        ↔
      (∀ j < k, j < entryCount len ∧ Passed m rsdt signature j) ∧ k' = k := by
  apply @Loop.path_iff_of_follows _ _ _ _ _ (fun n => n) (fun j => j < entryCount len ∧ Passed m rsdt signature j)
  intro n t
  rw [step_eq_some_iff hlen hsignature]
  simp [and_assoc]

theorem entryCount_lt (len : Nat) : entryCount len < 0x40000000 := by
  have hlt := (BitVec.ofNat 32 len - Madt.XSDT_HEADER_SZ).isLt
  rw [entryCount]
  omega

theorem findXsdt_eq_some_iff {r : Nat} (hlen : length m rsdt = some len) (hsignature : signature.length = 4)
    : findXsdt m rsdt signature = some r
        ↔
      ∃ k ≤ entryCount len, (∀ j < k, Passed m rsdt signature j)
        ∧ (k < entryCount len ∧ (∃ p, Hit m rsdt signature k p ∧ r = phy2lin p) ∨ k = entryCount len ∧ r = 0) := by
  constructor
  . intro h
    obtain ⟨k, s', hpath, hstop⟩ := Loop.path_of_loop h
    obtain ⟨hpassed, rfl⟩ := (path_findXsdt_iff hlen hsignature).mp hpath
    have hle : s' ≤ entryCount len := by
      cases s' with
      | zero => exact Nat.zero_le _
      | succ k => exact (hpassed k (Nat.lt_succ_self k)).1
    refine ⟨s', hle, fun j hj => (hpassed j hj).2, ?_⟩
    obtain ⟨hlt, ⟨-, hy⟩ | ⟨p, hp, hy⟩⟩ | ⟨hend, hy⟩ := (step_eq_some_iff hlen hsignature).mp hstop
    . cases hy
    . exact Or.inl ⟨hlt, p, hp, Sum.inr.inj hy⟩
    . exact Or.inr ⟨by omega, Sum.inr.inj hy⟩
  . rintro ⟨k, hle, hpassed, hend⟩
    have hpath : Loop.Path (findXsdt.step m rsdt signature) k 0 k :=
      (path_findXsdt_iff hlen hsignature).mpr ⟨fun j hj => ⟨by omega, hpassed j hj⟩, rfl⟩
    have hstop : findXsdt.step m rsdt signature k = some (.inr r) := by
      rw [step_eq_some_iff hlen hsignature]
      rcases hend with ⟨hlt, p, hp, rfl⟩ | ⟨hk, rfl⟩
      . exact Or.inl ⟨hlt, Or.inr ⟨p, hp, rfl⟩⟩
      . exact Or.inr ⟨by omega, rfl⟩
    have hlt := entryCount_lt len
    exact Loop.loop_of_le (Loop.loop_of_path hpath hstop) (by omega)

def ValidRsdt (m : Memory) (rsdt len : Nat) : Prop :=
  length m rsdt = some len ∧ acpiChecksum m rsdt len = some 1

def entryAt (m : Memory) (rsdt i : Nat) : Nat := (entry m rsdt i).getD 0

def entries (len : Nat) : Nat := (len - 36) / 4

def FirstTable (m : Memory) (rsdt len : Nat) (signature : List (BitVec 8)) (i : Nat) : Prop :=
  i < entries len ∧ Signed m (entryAt m rsdt i) signature ∧ ∀ j < i, ¬ Signed m (entryAt m rsdt j) signature

structure FindsFirst (m : Memory) (rsdt len : Nat) (signature : List (BitVec 8)) : Prop where
  inside : ∀ i, Loop.Path (findXsdt.step m rsdt signature) i 0 i → i < entryCount len → 36 + 4 * i + 4 ≤ len
  found : ∃ r, findXsdt m rsdt signature = some r
    ∧ ((∃ i, FirstTable m rsdt len signature i ∧ r = phy2lin (entryAt m rsdt i))
      ∨ (∀ i, ¬ FirstTable m rsdt len signature i) ∧ r = 0)

theorem loadWord_eq_some {a : Nat} (h : ∀ i < 4, ∃ b, load m (a + i) = some b) : ∃ p, loadWord m a = some p := by
  obtain ⟨b0, h0⟩ := h 0 (by decide)
  obtain ⟨b1, h1⟩ := h 1 (by decide)
  obtain ⟨b2, h2⟩ := h 2 (by decide)
  obtain ⟨b3, h3⟩ := h 3 (by decide)
  rw [Nat.add_zero] at h0
  simp [loadWord, h0, h1, h2, h3]

theorem lt_of_loadWord {a p : Nat} (h : loadWord m a = some p) : p < 0x100000000 := by
  simp only [loadWord, Option.bind_eq_bind, Option.bind_eq_some_iff, Option.pure_def, Option.some.injEq] at h
  obtain ⟨b0, -, b1, -, b2, -, b3, -, rfl⟩ := h
  have h0 := b0.isLt
  have h1 := b1.isLt
  have h2 := b2.isLt
  have h3 := b3.isLt
  omega

theorem entryCount_of_le (hlt : len < 0x100000000) (h : 36 ≤ len) : entryCount len = entries len := by
  rw [entryCount, entries, BitVec.toNat_sub, BitVec.toNat_ofNat]
  have hsize : Madt.XSDT_HEADER_SZ.toNat = 36 := rfl
  rw [hsize]
  congr 1
  omega

theorem entryCount_of_lt (h : len < 36) : 0x3FFFFFF7 ≤ entryCount len := by
  rw [entryCount, BitVec.toNat_sub, BitVec.toNat_ofNat]
  have hsize : Madt.XSDT_HEADER_SZ.toNat = 36 := rfl
  rw [hsize]
  omega

theorem entry_of_valid (h : ValidRsdt m rsdt len) (hi : i < entries len)
    : entry m rsdt i = some (entryAt m rsdt i) := by
  have hle : 36 + 4 * i + 4 ≤ len := by
    rw [entries] at hi
    omega
  obtain ⟨sum, hsum, -⟩ := acpiChecksum_eq_some_iff.mp h.2
  obtain ⟨p, hp⟩ : ∃ p, entry m rsdt i = some p := by
    apply loadWord_eq_some
    intro t ht
    rw [Nat.add_assoc, Nat.add_assoc]
    exact load_of_sumTo hsum (by omega)
  rw [entryAt, hp]
  rfl

theorem passed_iff_of_valid (h : ValidRsdt m rsdt len) (hi : i < entries len)
    : Passed m rsdt signature i
        ↔
      Readable m (entryAt m rsdt i) signature ∧ ¬ Signed m (entryAt m rsdt i) signature := by
  simp only [Passed, entry_of_valid h hi, Option.some.injEq]
  exact exists_eq_left'

theorem hit_iff_of_valid {p : Nat} (h : ValidRsdt m rsdt len) (hi : i < entries len)
    : Hit m rsdt signature i p
        ↔
      entryAt m rsdt i = p ∧ Readable m (entryAt m rsdt i) signature ∧ Signed m (entryAt m rsdt i) signature := by
  simp only [Hit, entry_of_valid h hi, Option.some.injEq]
  constructor
  . rintro ⟨rfl, hrest⟩
    exact ⟨rfl, hrest⟩
  . rintro ⟨rfl, hrest⟩
    exact ⟨rfl, hrest⟩

def ReachesMapped (m : Memory) (rsdt len : Nat) (signature : List (BitVec 8)) : Prop :=
  ∀ i < entries len, (∀ j < i, ¬ Signed m (entryAt m rsdt j) signature) → Readable m (entryAt m rsdt i) signature

theorem exists_findXsdt_of_mapped (h : ValidRsdt m rsdt len) (hsignature : signature.length = 4) (hle : 36 ≤ len)
    (hmapped : ReachesMapped m rsdt len signature)
    : ∃ r, findXsdt m rsdt signature = some r
        ∧ ((∃ i, FirstTable m rsdt len signature i ∧ r = phy2lin (entryAt m rsdt i))
          ∨ (∀ i, ¬ FirstTable m rsdt len signature i) ∧ r = 0) := by
  have hcount : entryCount len = entries len := entryCount_of_le (lt_of_loadWord h.1) hle
  have hpassed {n : Nat} (hn : n ≤ entries len) (hbefore : ∀ j < n, ¬ Signed m (entryAt m rsdt j) signature)
      : ∀ j < n, Passed m rsdt signature j := by
    intro j hj
    apply (passed_iff_of_valid h (by omega)).mpr
    exact ⟨hmapped j (by omega) (fun l hl => hbefore l (by omega)), hbefore j hj⟩
  by_cases hex : ∃ i, FirstTable m rsdt len signature i
  . obtain ⟨i, hfirst⟩ := hex
    have ⟨hi, hsigned, hbefore⟩ := hfirst
    refine ⟨_, ?_, Or.inl ⟨i, hfirst, rfl⟩⟩
    apply (findXsdt_eq_some_iff h.1 hsignature).mpr
    refine ⟨i, by omega, hpassed (by omega) hbefore, Or.inl ⟨by omega, entryAt m rsdt i, ?_, rfl⟩⟩
    exact (hit_iff_of_valid h hi).mpr ⟨rfl, hmapped i hi hbefore, hsigned⟩
  . have hnone : ∀ j < entries len, ¬ Signed m (entryAt m rsdt j) signature := by
      intro j
      induction j using Nat.strongRecOn with
      | ind j ih =>
        intro hj hsigned
        exact hex ⟨j, hj, hsigned, fun l hl => ih l hl (Nat.lt_trans hl hj)⟩
    refine ⟨0, ?_, Or.inr ⟨fun i hfirst => hex ⟨i, hfirst⟩, rfl⟩⟩
    apply (findXsdt_eq_some_iff h.1 hsignature).mpr
    exact ⟨entries len, by omega, hpassed (Nat.le_refl _) hnone, Or.inr ⟨hcount.symm, rfl⟩⟩

theorem reachesMapped_of_findXsdt {r : Nat} (h : ValidRsdt m rsdt len) (hsignature : signature.length = 4)
    (hle : 36 ≤ len) (hfind : findXsdt m rsdt signature = some r)
    : ReachesMapped m rsdt len signature := by
  have hcount : entryCount len = entries len := entryCount_of_le (lt_of_loadWord h.1) hle
  obtain ⟨k, hk, hpassed, hend⟩ := (findXsdt_eq_some_iff h.1 hsignature).mp hfind
  intro i hi hbefore
  rcases Nat.lt_trichotomy i k with hlt | rfl | hgt
  . exact ((passed_iff_of_valid h hi).mp (hpassed i hlt)).1
  . rcases hend with ⟨-, p, hp, -⟩ | ⟨hend, -⟩
    . exact ((hit_iff_of_valid h hi).mp hp).2.1
    . omega
  . rcases hend with ⟨-, p, hp, -⟩ | ⟨hend, -⟩
    . exact absurd ((hit_iff_of_valid h (by omega)).mp hp).2.2 (hbefore k hgt)
    . omega

theorem findsFirst_iff (h : ValidRsdt m rsdt len) (hsignature : signature.length = 4)
    : FindsFirst m rsdt len signature ↔ 36 ≤ len ∧ ReachesMapped m rsdt len signature := by
  constructor
  . rintro ⟨hinside, r, hfind, -⟩
    have hle : 36 ≤ len := by
      by_contra hlt
      have hcount := entryCount_of_lt (Nat.lt_of_not_le hlt)
      have hfirst := hinside 0 rfl (by omega)
      omega
    exact ⟨hle, reachesMapped_of_findXsdt h hsignature hle hfind⟩
  . rintro ⟨hle, hmapped⟩
    constructor
    . intro i _ hi
      rw [entryCount_of_le (lt_of_loadWord h.1) hle, entries] at hi
      omega
    . exact exists_findXsdt_of_mapped h hsignature hle hmapped

def Missing (m : Memory) (rsdt len : Nat) (signature : List (BitVec 8)) : Prop :=
  36 ≤ len ∧ ∀ i < entries len, Passed m rsdt signature i

/--
The table at `p` is the first one with the signature, also where the entry that holds `p` lies behind the length.
-/
def FoundAt (m : Memory) (rsdt len : Nat) (signature : List (BitVec 8)) (p : Nat) : Prop :=
  ∃ i < entryCount len, (∀ j < i, Passed m rsdt signature j) ∧ Hit m rsdt signature i p

theorem phy2lin_ne_zero {p : Nat} (hp : p < 0x100000000) (h : Mapped p) : phy2lin p ≠ 0 := by
  rw [Mapped, Nat.mod_eq_of_lt hp] at h
  cases h with
  | inl hkernel =>
    rw [phy2lin_of_kernel hkernel]
    exact Nat.ne_of_gt (Nat.add_pos_right p (by decide))
  | inr hdevice =>
    rw [phy2lin_of_device hdevice]
    have hle : 0xC0000000 ≤ p := hdevice.1
    omega

theorem Hit.ne_zero {p : Nat} (h : Hit m rsdt signature i p) (hsignature : signature.length = 4) : phy2lin p ≠ 0 := by
  obtain ⟨hentry, hreadable, -⟩ := h
  apply phy2lin_ne_zero (lt_of_loadWord hentry)
  exact hreadable 0 (by omega) (fun l hl => absurd hl (Nat.not_lt_zero l))

theorem not_mapped_of_low {a : Nat} (h : a % 0x100000000 < 0x80000000) : load m a = none := by
  rw [load, linear, if_pos h]
  rfl

/--
The search in a table that is shorter than its header comes to addresses without a mapping.
-/
theorem exists_not_passed (h : len < 36) : ∃ i < entryCount len, ¬ Passed m rsdt signature i := by
  have hcount := entryCount_of_lt h
  have hlow : ∃ i < 0x3FFFFFF7, (rsdt + 36 + 4 * i) % 0x100000000 < 0x80000000 := by
    generalize hstart : rsdt + 36 = start
    by_cases hfirst : start % 0x100000000 < 0x80000000
    . exact ⟨0, by omega, by omega⟩
    . refine ⟨(0x100000000 - start % 0x100000000 + 3) / 4, by omega, by omega⟩
  obtain ⟨i, hi, hlow⟩ := hlow
  refine ⟨i, by omega, ?_⟩
  rintro ⟨p, hentry, -⟩
  rw [entry, loadWord, not_mapped_of_low hlow] at hentry
  cases hentry

theorem findXsdt_eq_zero_iff (hlen : length m rsdt = some len) (hsignature : signature.length = 4)
    : findXsdt m rsdt signature = some 0 ↔ Missing m rsdt len signature := by
  rw [findXsdt_eq_some_iff hlen hsignature]
  constructor
  . rintro ⟨k, -, hpassed, ⟨-, p, hp, hzero⟩ | ⟨rfl, -⟩⟩
    . exact absurd hzero.symm (hp.ne_zero hsignature)
    . have hle : 36 ≤ len := by
        by_contra hlt
        obtain ⟨i, hi, hnot⟩ := @exists_not_passed m rsdt signature len (Nat.lt_of_not_le hlt)
        exact hnot (hpassed i hi)
      rw [entryCount_of_le (lt_of_loadWord hlen) hle] at hpassed
      exact ⟨hle, hpassed⟩
  . rintro ⟨hle, hpassed⟩
    rw [← entryCount_of_le (lt_of_loadWord hlen) hle] at hpassed
    exact ⟨entryCount len, Nat.le_refl _, hpassed, Or.inr ⟨rfl, rfl⟩⟩

theorem findXsdt_ne_zero_iff {r : Nat} (hlen : length m rsdt = some len) (hsignature : signature.length = 4)
    : findXsdt m rsdt signature = some r ∧ r ≠ 0 ↔ ∃ p, FoundAt m rsdt len signature p ∧ r = phy2lin p := by
  rw [findXsdt_eq_some_iff hlen hsignature]
  constructor
  . rintro ⟨⟨k, -, hpassed, ⟨hk, p, hp, hr⟩ | ⟨-, hr⟩⟩, hne⟩
    . exact ⟨p, ⟨k, hk, hpassed, hp⟩, hr⟩
    . exact absurd hr hne
  . rintro ⟨p, ⟨k, hk, hpassed, hp⟩, rfl⟩
    exact ⟨⟨k, Nat.le_of_lt hk, hpassed, Or.inl ⟨hk, p, hp, rfl⟩⟩, hp.ne_zero hsignature⟩

end Acpi
end Osproj
