import Osproj.Lib.Impl.Str

/-!
This module contains what the functions of `string.c` do on NUL-terminated strings.
-/

namespace Osproj
namespace Str

def StringAt (m : Memory) (a : Nat) : List (BitVec 8) → Prop
  | [] => m.load a = 0
  | b :: bs => m.load a = b ∧ b ≠ 0 ∧ StringAt m (a + 1) bs

instance decidableStringAt (m : Memory) : (a : Nat) → (bs : List (BitVec 8)) → Decidable (StringAt m a bs)
  | a, [] => inferInstanceAs (Decidable (m.load a = 0))
  | a, b :: bs =>
    have := decidableStringAt m (a + 1) bs
    inferInstanceAs (Decidable (m.load a = b ∧ b ≠ 0 ∧ StringAt m (a + 1) bs))

variable {m m' : Memory} {a dst src n : Nat} {bs cs : List (BitVec 8)}

theorem StringAt.congr (h : StringAt m a bs)
    (hload : ∀ b, a ≤ b → b ≤ a + bs.length → m'.load b = m.load b)
    : StringAt m' a bs := by
  induction bs generalizing a with
  | nil =>
    rw [StringAt, hload a (Nat.le_refl a) (Nat.le_add_right a _)]
    exact h
  | cons b bs ih =>
    simp only [List.length_cons] at hload
    refine ⟨?_, h.2.1, ih h.2.2 (fun c hlo hhi => hload c (by omega) (by omega))⟩
    rw [hload a (by omega) (by omega)]
    exact h.1

theorem StringAt.storeBytes (h : StringAt m a bs) (hcs : a + bs.length < dst ∨ dst + cs.length ≤ a)
    : StringAt (m.storeBytes dst cs) a bs := by
  apply h.congr
  intro b hlo hhi
  exact Memory.load_storeBytes_of_disjoint _ _ _ _ (by omega)

theorem StringAt.drop (h : StringAt m a bs) {i : Nat} (hi : i ≤ bs.length)
    : StringAt m (a + i) (bs.drop i) := by
  induction bs generalizing a i with
  | nil =>
    obtain rfl : i = 0 := Nat.le_zero.mp hi
    exact h
  | cons b bs ih =>
    cases i with
    | zero => exact h
    | succ i =>
      rw [List.length_cons] at hi
      rw [show a + (i + 1) = a + 1 + i by omega]
      exact ih h.2.2 (by omega)

theorem StringAt.load (h : StringAt m a bs) : m.load a = bs.headD 0 := by
  cases bs with
  | nil => exact h
  | cons b bs => exact h.1

theorem StringAt.load_add (h : StringAt m a bs) {i : Nat} (hi : i ≤ bs.length) : m.load (a + i) = bs[i]?.getD 0 := by
  rw [(h.drop hi).load, List.headD_eq_head?_getD, List.head?_drop]

theorem StringAt.load_end (h : StringAt m a bs) : m.load (a + bs.length) = 0 := by
  rw [h.load_add (Nat.le_refl _), List.getElem?_eq_none (Nat.le_refl _), Option.getD_none]

theorem StringAt.unique (h : StringAt m a bs) (h' : StringAt m a cs) : bs = cs := by
  induction bs generalizing a cs with
  | nil =>
    cases cs with
    | nil => rfl
    | cons c cs => exact absurd (h'.1.symm.trans h) h'.2.1
  | cons b bs ih =>
    cases cs with
    | nil => exact absurd (h.1.symm.trans h') h.2.1
    | cons c cs => rw [← h.1, h'.1, ih h.2.2 h'.2.2]

theorem stringAt_storeBytes (hbs : 0 ∉ bs) : StringAt (m.storeBytes a (bs ++ [0])) a bs := by
  induction bs generalizing m a with
  | nil => simp [StringAt, Memory.storeBytes]
  | cons b bs ih =>
    simp only [List.mem_cons, not_or] at hbs
    refine ⟨?_, Ne.symm hbs.1, ih hbs.2⟩
    rw [List.cons_append, Memory.storeBytes, Memory.load_storeBytes_of_disjoint _ _ _ _ (by omega),
      Memory.load_store_self]

theorem StringAt.append (h : StringAt m a bs) (h' : StringAt m' (a + bs.length) cs)
    (hload : ∀ b, b < a + bs.length → m'.load b = m.load b)
    : StringAt m' a (bs ++ cs) := by
  induction bs generalizing a with
  | nil => exact h'
  | cons b bs ih =>
    rw [List.length_cons] at h' hload
    rw [show a + (bs.length + 1) = a + 1 + bs.length by omega] at h'
    refine ⟨?_, h.2.1, ih h.2.2 h' (fun c hc => hload c (by omega))⟩
    rw [hload a (by omega)]
    exact h.1

theorem StringAt.not_mem (h : StringAt m a bs) : 0 ∉ bs := by
  induction bs generalizing a with
  | nil => simp
  | cons b bs ih =>
    simp only [List.mem_cons, not_or]
    exact ⟨Ne.symm h.2.1, ih h.2.2⟩

theorem StringAt.load_ne_zero (h : StringAt m a bs) {i : Nat} (hi : i < bs.length) : m.load (a + i) ≠ 0 := by
  rw [h.load_add (Nat.le_of_lt hi), List.getElem?_eq_getElem hi, Option.getD_some]
  intro hzero
  exact h.not_mem (hzero ▸ List.getElem_mem hi)

theorem StringAt.loadBytes (h : StringAt m a bs) : m.loadBytes a (bs.length + 1) = bs ++ [0] := by
  induction bs generalizing a with
  | nil =>
    have hzero : m.load a = 0 := h
    simp [Memory.loadBytes, hzero]
  | cons b bs ih =>
    rw [List.cons_append, ← ih h.2.2, ← h.1]
    simp only [Memory.loadBytes, List.length_cons, List.range_succ_eq_map (n := bs.length + 1), List.map_cons,
      List.map_map, Nat.add_zero]
    congr 2
    funext i
    exact congrArg m.load (by simp only [Nat.succ_eq_add_one]; omega)

theorem scan_eq (h : StringAt m a bs) (hn : bs.length < n) : strlen.scan m a n = some bs.length := by
  induction bs generalizing a n with
  | nil =>
    have hzero : m.load a = 0 := h
    obtain ⟨n, rfl⟩ := Nat.exists_eq_succ_of_ne_zero (Nat.ne_of_gt hn)
    rw [strlen.scan, if_pos hzero]
    rfl
  | cons b bs ih =>
    rw [List.length_cons] at hn
    obtain ⟨n, rfl⟩ := Nat.exists_eq_succ_of_ne_zero (show n ≠ 0 by omega)
    rw [strlen.scan, if_neg (by rw [h.1]; exact h.2.1), ih h.2.2 (by omega)]
    rfl

theorem strlen_eq (h : StringAt m a bs) (hn : bs.length < 0xFFFFFFFF) : strlen m a = bs.length := by
  rw [strlen, scan_eq h hn]
  rfl

/--
The copy may run into its source from below.
-/
theorem loop_eq (h : StringAt m src bs) (hn : bs.length < n) (hapart : dst ≤ src ∨ src + bs.length < dst)
    : strcpy.loop m dst src n = some (m.storeBytes dst (bs ++ [0])) := by
  induction bs generalizing m dst src n with
  | nil =>
    have hzero : m.load src = 0 := h
    obtain ⟨n, rfl⟩ := Nat.exists_eq_succ_of_ne_zero (Nat.ne_of_gt hn)
    rw [strcpy.loop, if_pos hzero]
    rfl
  | cons b bs ih =>
    rw [List.length_cons] at hn hapart
    obtain ⟨n, rfl⟩ := Nat.exists_eq_succ_of_ne_zero (show n ≠ 0 by omega)
    have hnext : StringAt (m.store dst b) (src + 1) bs := by
      apply h.2.2.congr
      intro c hlo hhi
      rw [Memory.load_store, if_neg (by omega)]
    rw [strcpy.loop, if_neg (by rw [h.1]; exact h.2.1), h.1, ih hnext (by omega) (by omega)]
    rfl

theorem strcpy_eq (h : StringAt m src bs) (hdst : dst ≠ 0) (hn : bs.length < 0x100000000)
    (hapart : dst ≤ src ∨ src + bs.length < dst)
    : strcpy m dst src = some (m.storeBytes dst (bs ++ [0])) := by
  rw [strcpy, if_neg hdst, loop_eq h hn hapart]

theorem strcat_eq (h : StringAt m dst cs) (h' : StringAt m src bs) (hdst : dst ≠ 0)
    (hn : cs.length + bs.length < 0x100000000)
    (hapart : dst + cs.length + bs.length < src ∨ src + bs.length < dst)
    : strcat m dst src = some (m.storeBytes (dst + cs.length) (bs ++ [0])) := by
  rw [strcat, if_neg hdst, scan_eq h (by omega)]
  exact strcpy_eq h' (by omega) (by omega) (by omega)

theorem strcpy_strcat (h : StringAt m src bs) {src' : Nat} {cs : List (BitVec 8)} (h' : StringAt m src' cs)
    (hdst : dst ≠ 0) (hn : bs.length + cs.length < 0x100000000)
    (hapart : dst + bs.length + cs.length < src ∨ src + bs.length < dst)
    (hapart' : dst + bs.length + cs.length < src' ∨ src' + cs.length < dst)
    : ∃ m₁ m₂, strcpy m dst src = some m₁ ∧ strcat m₁ dst src' = some m₂
        ∧ StringAt m₂ dst (bs ++ cs)
        ∧ (∀ x, x < dst ∨ dst + bs.length + cs.length < x → m₂.load x = m.load x)
        ∧ Memory.StoresExactly m m₂ (fun x => dst ≤ x ∧ x ≤ dst + bs.length + cs.length) := by
  have hcopied : StringAt (m.storeBytes dst (bs ++ [0])) dst bs := stringAt_storeBytes h.not_mem
  have hlength (l : List (BitVec 8)) : (l ++ [0]).length = l.length + 1 := List.length_append
  have hkept : StringAt (m.storeBytes dst (bs ++ [0])) src' cs := by
    apply h'.storeBytes
    rw [hlength]
    omega
  refine ⟨_, _, strcpy_eq h hdst (by omega) (by omega), strcat_eq hcopied hkept hdst hn (by omega), ?_, ?_, ?_⟩
  . apply hcopied.append (stringAt_storeBytes h'.not_mem)
    intro x hx
    exact Memory.load_storeBytes_of_disjoint _ _ _ _ (Or.inl hx)
  . intro x hx
    rw [Memory.load_storeBytes_of_disjoint _ _ _ _ (by rw [hlength]; omega),
      Memory.load_storeBytes_of_disjoint _ _ _ _ (by rw [hlength]; omega)]
  . have hstores := (Memory.StoresExactly.storeBytes m dst (bs ++ [0])).trans
      (Memory.StoresExactly.storeBytes _ (dst + bs.length) (cs ++ [0]))
    refine hstores.congr (fun x => ?_)
    rw [hlength, hlength]
    omega

theorem strcpy_storesIn (h : strcpy m dst src = some m') : Memory.StoresIn m m' (fun _ => True) := by
  have hloop (m m' : Memory) (dst src n : Nat) (h : strcpy.loop m dst src n = some m')
      : Memory.StoresIn m m' (fun _ => True) := by
    induction n generalizing m dst src with
    | zero => cases h
    | succ n ih =>
      rw [strcpy.loop] at h
      split at h
      . rw [← Option.some.inj h]
        exact .store m dst 0 trivial
      . exact (Memory.StoresIn.store m dst (m.load src) trivial).trans (ih _ _ _ h)
  rw [strcpy] at h
  split at h
  . cases h
  . exact hloop m m' dst src _ h

theorem strcat_storesIn (h : strcat m dst src = some m') : Memory.StoresIn m m' (fun _ => True) := by
  rw [strcat] at h
  split at h
  . cases h
  . obtain ⟨n, -, h⟩ := Option.bind_eq_some_iff.mp h
    exact strcpy_storesIn h

theorem memcmp_eq_zero_iff (h : StringAt m dst bs) (h' : StringAt m src cs)
    : memcmp m dst src bs.length = 0 ↔ bs <+: cs := by
  induction bs generalizing dst src cs with
  | nil => exact iff_of_true rfl (List.nil_prefix)
  | cons b bs ih =>
    rw [List.length_cons, memcmp, h.1, h'.load]
    cases cs with
    | nil =>
      rw [if_neg]
      . simp
      . exact Ne.symm h.2.1
    | cons c cs =>
      rw [List.cons_prefix_cons, List.headD_cons]
      by_cases hc : c = b
      . rw [if_pos hc, ih h.2.2 h'.2.2]
        exact ⟨fun hp => ⟨hc.symm, hp⟩, And.right⟩
      . rw [if_neg hc]
        exact iff_of_false (by omega) (fun hp => hc hp.1.symm)

end Str
end Osproj
