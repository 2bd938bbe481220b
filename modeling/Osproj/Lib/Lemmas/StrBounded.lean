import Mathlib.Data.Nat.Find
import Osproj.Lib.Lemmas.StrCompare

/-!
This module contains the functions with a bound. None of them looks for the terminator: `strncmp` stops at the first
difference and `strncpy` not before the bound, so that what lies behind the terminator is compared and copied as well.
-/

namespace Osproj
namespace Str

variable {m : Memory} {a b p n k : Nat} {as bs ds : List (BitVec 8)}

theorem index_of_lt {i : Nat} (h : p + i < 0x100000000) : index p i = p + i := Nat.mod_eq_of_lt h

/--
The first byte behind the terminator is not part of the string, also if it is the one at the address 0.
-/
theorem index_inside_iff {len : Nat} (hp : p + len < 0x100000000) (hn : n < 0x100000000)
    : (∀ j, j < n → p ≤ index p j ∧ index p j ≤ p + len) ↔ n ≤ len + 1 := by
  constructor
  . intro h
    by_contra hlong
    have hbehind := h (len + 1) (by omega)
    simp only [index] at hbehind
    omega
  . intro hn j hj
    rw [index_of_lt (by omega)]
    omega

section Compare

def strncmp.state (dst src : Nat) (j : Nat) : Nat × Reads := (j, .upTo (index dst) (index src) j)

theorem strncmp.step_state {dst src size j : Nat} (hj : j < size)
    : step m dst src size (state dst src j)
        =
      if m.load (index dst j) ≠ m.load (index src j) then
        some (.inr (1, .upTo (index dst) (index src) (j + 1)))
      else
        some (.inl (state dst src (j + 1))) := by
  simp only [state, step, Reads.add_upTo]
  rw [if_pos hj]

theorem strncmp.step_size {dst src size : Nat}
    : step m dst src size (state dst src size) = some (.inr (0, .upTo (index dst) (index src) size)) :=
  if_neg (Nat.lt_irrefl size)

theorem strncmp_of_differ (hk : k < n) (heq : ∀ j, j < k → m.load (index a j) = m.load (index b j))
    (hdiffer : m.load (index a k) ≠ m.load (index b k))
    : strncmp m a b n = some (1, .upTo (index a) (index b) (k + 1)) := by
  apply Loop.loop_of_sequence (f := strncmp.state a b) (k := k) ?_ ?_ (by omega)
  . intro j hj
    rw [strncmp.step_state (by omega), if_neg (not_not.mpr (heq j hj))]
  . rw [strncmp.step_state hk, if_pos hdiffer]

theorem strncmp_of_equal (heq : ∀ j, j < n → m.load (index a j) = m.load (index b j))
    : strncmp m a b n = some (0, .upTo (index a) (index b) n) := by
  apply Loop.loop_of_sequence (f := strncmp.state a b) (k := n) ?_ ?_ (Nat.lt_succ_self n)
  . intro j hj
    rw [strncmp.step_state hj, if_neg (not_not.mpr (heq j hj))]
  . exact strncmp.step_size

theorem strncmp_of_differ_string (ha : a + as.length < 0x100000000) (hb : b + bs.length < 0x100000000)
    (hka : k ≤ as.length) (hkb : k ≤ bs.length) (hk : k < n)
    (heq : ∀ j, j < k → m.load (a + j) = m.load (b + j)) (hdiffer : m.load (a + k) ≠ m.load (b + k))
    : ∃ reads, strncmp m a b n = some (1, reads) ∧ reads.Inside a as b bs := by
  have hdst {j : Nat} (hj : j ≤ k) : index a j = a + j := index_of_lt (by omega)
  have hsrc {j : Nat} (hj : j ≤ k) : index b j = b + j := index_of_lt (by omega)
  refine ⟨_, strncmp_of_differ hk ?_ ?_, ?_, ?_⟩
  . intro j hj
    rw [hdst (Nat.le_of_lt hj), hsrc (Nat.le_of_lt hj)]
    exact heq j hj
  . rw [hdst (Nat.le_refl k), hsrc (Nat.le_refl k)]
    exact hdiffer
  . intro x hx
    obtain ⟨j, hj, rfl⟩ := Reads.mem_dst_upTo.mp hx
    rw [hdst (Nat.le_of_lt_succ hj)]
    omega
  . intro x hx
    obtain ⟨j, hj, rfl⟩ := Reads.mem_src_upTo.mp hx
    rw [hsrc (Nat.le_of_lt_succ hj)]
    omega

theorem equal_or_differ (m : Memory) (a b n : Nat)
    : (∀ j, j < n → m.load (index a j) = m.load (index b j))
        ∨ ∃ k, k < n ∧ (∀ j, j < k → m.load (index a j) = m.load (index b j))
          ∧ m.load (index a k) ≠ m.load (index b k) := by
  by_cases h : ∃ k, k < n ∧ m.load (index a k) ≠ m.load (index b k)
  . obtain ⟨hk, hdiffer⟩ := Nat.find_spec h
    refine Or.inr ⟨Nat.find h, hk, ?_, hdiffer⟩
    intro j hj
    by_contra hne
    exact Nat.find_min h hj ⟨by omega, hne⟩
  . left
    intro j hj
    by_contra hne
    exact h ⟨j, hj, hne⟩

theorem exists_strncmp (m : Memory) (a b n : Nat)
    : ∃ r k, strncmp m a b n = some (r, .upTo (index a) (index b) k) ∧ k ≤ n
        ∧ ∀ j, j < n → (∀ i, i < j → m.load (index a i) = m.load (index b i)) → j < k := by
  rcases equal_or_differ m a b n with heq | ⟨k, hk, heq, hdiffer⟩
  . exact ⟨0, n, strncmp_of_equal heq, Nat.le_refl n, fun j hj _ => hj⟩
  . refine ⟨1, k + 1, strncmp_of_differ hk heq hdiffer, hk, ?_⟩
    intro j _ hsame
    by_contra hlt
    exact hdiffer (hsame k (by omega))

def CompareAgrees (m : Memory) (a b n : Nat) (as bs : List (BitVec 8)) : Prop :=
  ∃ r reads reads', strncmp m a b n = some (r, reads) ∧ strcmp m a b = some (r, reads') ∧ reads.Inside a as b bs

theorem compareAgrees_iff (h : StringAt m a as) (h' : StringAt m b bs) (ha : a + as.length < 0x100000000)
    (hb : b + bs.length < 0x100000000) (hn : as.length < n) (hn' : bs.length < n) (hlt : n < 0x100000000)
    : CompareAgrees m a b n as bs ↔ as ≠ bs ∨ n = as.length + 1 := by
  by_cases heq : as = bs
  . subst heq
    have hsame (j : Nat) (hj : j ≤ as.length) : m.load (index a j) = m.load (index b j) := by
      rw [index_of_lt (by omega), index_of_lt (by omega)]
      exact h.load_eq h' hj
    obtain ⟨reads', hcmp, -⟩ := strcmp_spec h h' (by omega)
    rw [if_pos rfl] at hcmp
    constructor
    . rintro ⟨r, reads, -, hncmp, -, hinside, -⟩
      right
      by_contra hlong
      obtain ⟨r', k, hncmp', hk, hread⟩ := exists_strncmp m a b n
      cases hncmp.symm.trans hncmp'
      -- the terminators are equal too, so that the bytes behind them are compared
      have hbehind := hread (as.length + 1) (by omega) (fun i hi => hsame i (by omega))
      have hle := (index_inside_iff (n := k) ha (by omega)).mp
        (fun j hj => hinside _ (Reads.mem_dst_upTo.mpr ⟨j, hj, rfl⟩))
      omega
    . rintro (hne | rfl)
      . exact absurd rfl hne
      . refine ⟨0, _, reads', strncmp_of_equal (fun j hj => hsame j (by omega)), hcmp, ?_, ?_⟩
        . intro x hx
          obtain ⟨j, hj, rfl⟩ := Reads.mem_dst_upTo.mp hx
          exact (index_inside_iff ha hlt).mpr (Nat.le_refl _) j hj
        . intro x hx
          obtain ⟨j, hj, rfl⟩ := Reads.mem_src_upTo.mp hx
          exact (index_inside_iff hb hlt).mpr (Nat.le_refl _) j hj
  . obtain ⟨k, hka, hkb, hsame, hdiffer⟩ := exists_difference h h' heq
    obtain ⟨reads, hncmp, hinside⟩ := strncmp_of_differ_string ha hb hka hkb (show k < n by omega) hsame hdiffer
    obtain ⟨reads', hcmp, -⟩ := strcmp_spec h h' (by omega)
    rw [if_neg heq] at hcmp
    exact iff_of_true ⟨1, reads, reads', hncmp, hcmp, hinside⟩ (Or.inl heq)

/--
The results are the same for different strings, and for equal ones if what is behind them is equal up to the bound.
-/
theorem strncmp_eq_strcmp_iff (h : StringAt m a as) (h' : StringAt m b bs) (ha : a + as.length < 0x100000000)
    (hb : b + bs.length < 0x100000000) (hn : as.length < n)
    : (strncmp m a b n).map Prod.fst = (strcmp m a b).map Prod.fst
        ↔
      as ≠ bs ∨ ∀ j, j < n → m.load (index a j) = m.load (index b j) := by
  obtain ⟨reads', hcmp, -⟩ := strcmp_spec h h' (by omega)
  rw [hcmp, Option.map_some]
  by_cases heq : as = bs
  . rw [if_pos heq]
    constructor
    . intro hzero
      rcases equal_or_differ m a b n with hsame | ⟨k, hk, hsame, hdiffer⟩
      . exact Or.inr hsame
      . rw [strncmp_of_differ hk hsame hdiffer] at hzero
        cases hzero
    . rintro (hne | hsame)
      . exact absurd heq hne
      . rw [strncmp_of_equal hsame, Option.map_some]
  . obtain ⟨k, hka, hkb, hsame, hdiffer⟩ := exists_difference h h' heq
    obtain ⟨reads, hncmp, -⟩ := strncmp_of_differ_string ha hb hka hkb (show k < n by omega) hsame hdiffer
    rw [if_neg heq, hncmp, Option.map_some]
    exact iff_of_true rfl (Or.inl heq)

end Compare

section Copy

variable {dst src i left : Nat} {reads : List Nat}

theorem strncpy.mem_reads {x : Nat}
    : x ∈ (loop m dst src i reads left).2 ↔ x ∈ reads ∨ ∃ j, i ≤ j ∧ j < i + left ∧ index src j = x := by
  induction left generalizing m i reads with
  | zero =>
    simp only [loop]
    exact ⟨Or.inl, fun h => h.resolve_right (by rintro ⟨j, hj⟩; omega)⟩
  | succ left ih =>
    rw [loop, ih, List.mem_cons]
    constructor
    . rintro ((rfl | hx) | ⟨j, hlo, hhi, rfl⟩)
      . exact Or.inr ⟨i, Nat.le_refl i, by omega, rfl⟩
      . exact Or.inl hx
      . exact Or.inr ⟨j, by omega, by omega, rfl⟩
    . rintro (hx | ⟨j, hlo, hhi, rfl⟩)
      . exact Or.inl (Or.inr hx)
      . cases Nat.eq_or_lt_of_le hlo with
        | inl heq => exact Or.inl (Or.inl (congrArg (index src) heq.symm))
        | inr hlt => exact Or.inr ⟨j, hlt, by omega, rfl⟩

theorem strncpy.load_loop {x : Nat} (hdst : dst + i + left ≤ 0x100000000) (hx : x < dst + i ∨ dst + i + left ≤ x)
    : (loop m dst src i reads left).1.load x = m.load x := by
  induction left generalizing m i reads with
  | zero => rfl
  | succ left ih =>
    rw [loop, ih (by omega) (by omega), Memory.load_store, index_of_lt (by omega), if_neg (by omega)]

/--
The string is copied with its terminator, whatever is copied behind it.
-/
theorem strncpy.stringAt_loop (h : StringAt m (src + i) as) (hleft : as.length < left)
    (hsrc : src + i + as.length < 0x100000000) (hdst : dst + i + left ≤ 0x100000000)
    (hapart : dst + i + left ≤ src + i ∨ src + i + as.length < dst + i)
    : StringAt (loop m dst src i reads left).1 (dst + i) as := by
  induction as generalizing m i reads left with
  | nil =>
    obtain ⟨left, rfl⟩ := Nat.exists_eq_succ_of_ne_zero (Nat.ne_of_gt hleft)
    have hzero : m.load (src + i) = 0 := h
    rw [List.length_nil] at hsrc
    rw [StringAt, loop, load_loop (by omega) (by omega), index_of_lt (by omega), index_of_lt (by omega),
      Memory.load_store_self, hzero]
  | cons b as ih =>
    rw [List.length_cons] at hleft hsrc hapart
    obtain ⟨left, rfl⟩ := Nat.exists_eq_succ_of_ne_zero (show left ≠ 0 by omega)
    have hnext : StringAt (m.store (dst + i) b) (src + (i + 1)) as := by
      apply h.2.2.congr
      intro c hlo hhi
      rw [Memory.load_store, if_neg (by omega)]
    rw [loop, index_of_lt (by omega), index_of_lt (by omega), h.1]
    refine ⟨?_, h.2.1, ih hnext (by omega) (by omega) (by omega) (by omega)⟩
    rw [load_loop (by omega) (by omega), Memory.load_store_self]

theorem strncpy_spec (h : StringAt m a as) (ha : a + as.length < 0x100000000) (hn : as.length < n) (hpos : 0 < dst)
    (hroom : dst + n ≤ 0x100000000) (hapart : dst + n ≤ a ∨ a + as.length < dst)
    : ∃ m' reads, strncpy m dst a n = some (m', reads)
        ∧ StringAt m' dst as
        ∧ (∀ x, x < dst ∨ dst + n ≤ x → m'.load x = m.load x)
        ∧ ((∀ x ∈ reads, a ≤ x ∧ x ≤ a + as.length) ↔ n = as.length + 1) := by
  refine ⟨_, _, if_neg (by omega), ?_, ?_, ?_⟩
  . exact strncpy.stringAt_loop (i := 0) h hn ha hroom hapart
  . intro x hx
    exact strncpy.load_loop hroom hx
  . have hreads := @index_inside_iff a n as.length ha (by omega)
    rw [show n = as.length + 1 ↔ n ≤ as.length + 1 by omega, ← hreads]
    constructor
    . intro hinside j hj
      exact hinside _ (strncpy.mem_reads.mpr (Or.inr ⟨j, Nat.zero_le j, by omega, rfl⟩))
    . intro hinside x hx
      obtain ⟨j, -, hj, rfl⟩ := (strncpy.mem_reads.mp hx).resolve_left List.not_mem_nil
      exact hinside j (by omega)

def CopyAgrees (m : Memory) (dst a n : Nat) (as : List (BitVec 8)) : Prop :=
  ∃ m' reads, strncpy m dst a n = some (m', reads) ∧ StringAt m' dst as ∧ ∀ x ∈ reads, a ≤ x ∧ x ≤ a + as.length

theorem copyAgrees_iff (h : StringAt m a as) (ha : a + as.length < 0x100000000) (hn : as.length < n) (hpos : 0 < dst)
    (hroom : dst + n ≤ 0x100000000) (hapart : dst + n ≤ a ∨ a + as.length < dst)
    : CopyAgrees m dst a n as ↔ n = as.length + 1 := by
  obtain ⟨m', reads, hcpy, hstring, -, hreads⟩ := strncpy_spec h ha hn hpos hroom hapart
  rw [← hreads]
  constructor
  . rintro ⟨m'', reads', hcpy', -, hinside⟩
    cases hcpy.symm.trans hcpy'
    exact hinside
  . intro hinside
    exact ⟨m', reads, hcpy, hstring, hinside⟩

def AppendAgrees (m : Memory) (dst b n : Nat) (bs : List (BitVec 8)) : Prop :=
  ∃ m' reads m'' cs, strncat m dst b n = some (m', reads) ∧ strcat m dst b = some m''
    ∧ StringAt m' dst cs ∧ StringAt m'' dst cs ∧ ∀ x ∈ reads, b ≤ x ∧ x ≤ b + bs.length

theorem appendAgrees_iff (hd : StringAt m dst ds) (h : StringAt m b bs) (hb : b + bs.length < 0x100000000)
    (hn : bs.length < n) (hpos : 0 < dst) (hroom : dst + ds.length + n ≤ 0x100000000)
    (hapart : dst + ds.length + n ≤ b ∨ b + bs.length < dst)
    : AppendAgrees m dst b n bs ↔ n = bs.length + 1 := by
  obtain ⟨m', reads, hcpy, hstring, hkept, hreads⟩ :=
    @strncpy_spec m b n bs (dst + ds.length) h hb hn (by omega) hroom (by omega)
  have hcat : strncat m dst b n = some (m', reads) := by
    rw [strncat, if_neg (by omega), scan_eq hd (by omega)]
    exact hcpy
  have hcat' := strcat_eq hd h (by omega) (by omega) (by omega)
  rw [← hreads]
  constructor
  . rintro ⟨m'', reads', -, -, hcat'', -, -, -, hinside⟩
    cases hcat.symm.trans hcat''
    exact hinside
  . intro hinside
    refine ⟨m', reads, _, ds ++ bs, hcat, hcat', ?_, ?_, hinside⟩
    . exact hd.append hstring (fun x hx => hkept x (Or.inl hx))
    . apply hd.append (stringAt_storeBytes h.not_mem)
      intro x hx
      exact Memory.load_storeBytes_of_disjoint _ _ _ _ (Or.inl hx)

end Copy

/--
The functions with the bound `n` do what those without it do, and read nothing behind the terminators.
-/
structure BoundedAgrees (m : Memory) (a b dst cat n : Nat) (as bs : List (BitVec 8)) : Prop where
  compare : CompareAgrees m a b n as bs
  copy : CopyAgrees m dst a n as
  append : AppendAgrees m cat b n bs

/--
A bound that is larger than both strings has to be the number of bytes of each, its terminator included.
-/
theorem boundedAgrees_iff (m : Memory) (a b dst cat n : Nat) (as bs ds : List (BitVec 8)) (h : StringAt m a as)
    (h' : StringAt m b bs) (hd : StringAt m cat ds) (ha : a + as.length < 0x100000000)
    (hb : b + bs.length < 0x100000000) (hn : as.length < n) (hn' : bs.length < n)
    (hdst : 0 < dst) (hroom : dst + n ≤ 0x100000000) (hapart : dst + n ≤ a ∨ a + as.length < dst)
    (hcat : 0 < cat) (hroom' : cat + ds.length + n ≤ 0x100000000)
    (hapart' : cat + ds.length + n ≤ b ∨ b + bs.length < cat)
    : BoundedAgrees m a b dst cat n as bs ↔ n = as.length + 1 ∧ n = bs.length + 1 := by
  have hcompare := compareAgrees_iff h h' ha hb hn hn' (by omega)
  have hcopy := copyAgrees_iff h ha hn hdst hroom hapart
  have happend := appendAgrees_iff hd h' hb hn' hcat hroom' hapart'
  constructor
  . intro hagrees
    exact ⟨hcopy.mp hagrees.copy, happend.mp hagrees.append⟩
  . rintro ⟨heq, heq'⟩
    exact ⟨hcompare.mpr (Or.inr heq), hcopy.mpr heq, happend.mpr heq'⟩

/--
The string `"a"` at two addresses, with different bytes behind the terminators.
-/
def trailing : Memory where
  cell := fun x =>
    if x = 0x1000 ∨ x = 0x2000 then 0x61 else if x = 0x1002 then 0x62 else if x = 0x2002 then 0x63 else 0
  log := []

theorem boundedAgrees_iff_two
    : BoundedAgrees trailing 0x1000 0x2000 0x3000 0x4000 2 [0x61] [0x61]
        ↔
      2 = [(0x61 : BitVec 8)].length + 1 ∧ 2 = [(0x61 : BitVec 8)].length + 1 :=
  boundedAgrees_iff trailing 0x1000 0x2000 0x3000 0x4000 2 [0x61] [0x61] [] (by decide) (by decide) (by decide)
    (by decide) (by decide) (by decide) (by decide) (by decide) (by decide) (by decide) (by decide) (by decide)
    (by decide)

/--
`strcmp` finds the strings equal, and `strncmp` with the bound 3 the bytes behind them different.
-/
theorem not_boundedAgrees
    : StringAt trailing 0x1000 [0x61] ∧ StringAt trailing 0x2000 [0x61]
        ∧ (strncmp trailing 0x1000 0x2000 3).map Prod.fst = some 1
        ∧ (strcmp trailing 0x1000 0x2000).map Prod.fst = some 0
        ∧ ¬ BoundedAgrees trailing 0x1000 0x2000 0x3000 0x4000 3 [0x61] [0x61] := by
  have hncmp : (strncmp trailing 0x1000 0x2000 3).map Prod.fst = some 1 := by decide
  have hcmp : (strcmp trailing 0x1000 0x2000).map Prod.fst = some 0 := by
    rw [strcmp_of_equal (k := 1) (by decide) (by decide) (by decide) (by decide)]
    rfl
  refine ⟨by decide, by decide, hncmp, hcmp, ?_⟩
  rintro ⟨⟨r, reads, reads', hncmp', hcmp', -⟩, -, -⟩
  rw [hncmp'] at hncmp
  rw [hcmp'] at hcmp
  cases hncmp.symm.trans hcmp

end Str
end Osproj
