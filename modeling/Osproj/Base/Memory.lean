import Mathlib.Order.Basic

/-!
This module contains a byte addressed memory that logs the address of every byte stored to it,
together with little endian words, block fills and block copies over it. The lemmas describe each
operation by what a later load sees and by which addresses it adds to the log.
-/

namespace Osproj

structure Memory where
  cell : Nat → BitVec 8
  log : List Nat

namespace Memory

def load (m : Memory) (a : Nat) : BitVec 8 := m.cell a

def store (m : Memory) (a : Nat) (v : BitVec 8) : Memory where
  cell := fun b => if b = a then v else m.cell b
  log := a :: m.log

def loadWord (m : Memory) (a : Nat) : Nat :=
  (m.load a).toNat + 0x100 * (m.load (a + 1)).toNat + 0x10000 * (m.load (a + 2)).toNat
    + 0x1000000 * (m.load (a + 3)).toNat

def storeWord (m : Memory) (a v : Nat) : Memory :=
  (((m.store a (BitVec.ofNat 8 v)).store (a + 1) (BitVec.ofNat 8 (v / 0x100))).store
    (a + 2) (BitVec.ofNat 8 (v / 0x10000))).store (a + 3) (BitVec.ofNat 8 (v / 0x1000000))

def loadHalf (m : Memory) (a : Nat) : Nat := (m.load a).toNat + 0x100 * (m.load (a + 1)).toNat

def storeHalf (m : Memory) (a v : Nat) : Memory :=
  (m.store a (BitVec.ofNat 8 v)).store (a + 1) (BitVec.ofNat 8 (v / 0x100))

def fill (m : Memory) (a : Nat) (v : BitVec 8) : Nat → Memory
  | 0 => m
  | n + 1 => (m.store a v).fill (a + 1) v n

def copy (m : Memory) (dst src : Nat) : Nat → Memory
  | 0 => m
  | n + 1 => (m.store dst (m.load src)).copy (dst + 1) (src + 1) n

def storeBytes (m : Memory) (a : Nat) : List (BitVec 8) → Memory
  | [] => m
  | v :: vs => (m.store a v).storeBytes (a + 1) vs

def loadBytes (m : Memory) (a n : Nat) : List (BitVec 8) := (List.range n).map (fun i => m.load (a + i))

/--
Every byte stored on the way from `m` to `m'` lies in `S`.
-/
def StoresIn (m m' : Memory) (S : Nat → Prop) : Prop :=
  ∃ stores, m'.log = stores ++ m.log ∧ ∀ a ∈ stores, S a

/--
The bytes stored on the way from `m` to `m'` are those of `S`.
-/
def StoresExactly (m m' : Memory) (S : Nat → Prop) : Prop :=
  ∃ stores, m'.log = stores ++ m.log ∧ ∀ a, a ∈ stores ↔ S a

@[simp]
theorem load_store_self (m : Memory) (a : Nat) (v : BitVec 8) : (m.store a v).load a = v := by
  simp [load, store]

theorem load_store (m : Memory) (a b : Nat) (v : BitVec 8)
    : (m.store a v).load b = if b = a then v else m.load b := by
  rfl

@[simp]
theorem log_store (m : Memory) (a : Nat) (v : BitVec 8) : (m.store a v).log = a :: m.log := by
  rfl

theorem loadWord_lt (m : Memory) (a : Nat) : m.loadWord a < 0x100000000 := by
  unfold loadWord
  have := (m.load a).isLt
  have := (m.load (a + 1)).isLt
  have := (m.load (a + 2)).isLt
  have := (m.load (a + 3)).isLt
  omega

@[simp]
theorem loadWord_storeWord_self (m : Memory) (a v : Nat)
    : (m.storeWord a v).loadWord a = v % 0x100000000 := by
  simp [loadWord, storeWord, load_store]
  omega

theorem load_storeWord_of_disjoint (m : Memory) (a b v : Nat) (h : b < a ∨ a + 4 ≤ b)
    : (m.storeWord a v).load b = m.load b := by
  have h0 : b ≠ a := by omega
  have h1 : b ≠ a + 1 := by omega
  have h2 : b ≠ a + 2 := by omega
  have h3 : b ≠ a + 3 := by omega
  simp [storeWord, load_store, h0, h1, h2, h3]

theorem loadWord_congr (m m' : Memory) (a : Nat)
    (h : ∀ b, a ≤ b → b < a + 4 → m'.load b = m.load b)
    : m'.loadWord a = m.loadWord a := by
  unfold loadWord
  rw [h a (by omega) (by omega), h (a + 1) (by omega) (by omega), h (a + 2) (by omega) (by omega),
    h (a + 3) (by omega) (by omega)]

theorem load_eq_of_loadWord_eq {m m' : Memory} {a b : Nat} (h : m'.loadWord a = m.loadWord a) (hlo : a ≤ b)
    (hhi : b < a + 4)
    : m'.load b = m.load b := by
  have hlt (m : Memory) (c : Nat) : (m.load c).toNat < 0x100 := (m.load c).isLt
  have hm := hlt m
  have hm' := hlt m'
  unfold loadWord at h
  have hbytes : ∀ i, i < 4 → (m'.load (a + i)).toNat = (m.load (a + i)).toNat := by
    intro i hi
    have h0 := hm a
    have h1 := hm (a + 1)
    have h2 := hm (a + 2)
    have h3 := hm (a + 3)
    have h0' := hm' a
    have h1' := hm' (a + 1)
    have h2' := hm' (a + 2)
    have h3' := hm' (a + 3)
    match i, hi with
    | 0, _ =>
      rw [Nat.add_zero]
      omega
    | 1, _ | 2, _ | 3, _ => omega
  rw [← BitVec.toNat_inj, show b = a + (b - a) by omega]
  exact hbytes (b - a) (by omega)

theorem storeWord_loadWord (m : Memory) (a b : Nat)
    : m.storeWord a (m.loadWord b)
        =
      (((m.store a (m.load b)).store (a + 1) (m.load (b + 1))).store (a + 2) (m.load (b + 2))).store
        (a + 3) (m.load (b + 3)) := by
  have hbyte {v : Nat} {byte : BitVec 8} (hv : v % 0x100 = byte.toNat) : BitVec.ofNat 8 v = byte := by
    rw [← BitVec.toNat_inj, BitVec.toNat_ofNat]
    exact hv
  have h0 := (m.load b).isLt
  have h1 := (m.load (b + 1)).isLt
  have h2 := (m.load (b + 2)).isLt
  have h3 := (m.load (b + 3)).isLt
  have hbyte0 : BitVec.ofNat 8 (m.loadWord b) = m.load b := hbyte (by unfold loadWord; omega)
  have hbyte1 : BitVec.ofNat 8 (m.loadWord b / 0x100) = m.load (b + 1) := hbyte (by unfold loadWord; omega)
  have hbyte2 : BitVec.ofNat 8 (m.loadWord b / 0x10000) = m.load (b + 2) := hbyte (by unfold loadWord; omega)
  have hbyte3 : BitVec.ofNat 8 (m.loadWord b / 0x1000000) = m.load (b + 3) := hbyte (by unfold loadWord; omega)
  rw [storeWord, hbyte0, hbyte1, hbyte2, hbyte3]

theorem load_storeWord_loadWord (m : Memory) (a b : Nat) : (m.storeWord a (m.loadWord a)).load b = m.load b := by
  simp only [storeWord_loadWord, load_store]
  split
  . next heq => rw [heq]
  . split
    . next heq => rw [heq]
    . split
      . next heq => rw [heq]
      . split
        . next heq => rw [heq]
        . rfl

theorem loadWord_storeWord_of_disjoint (m : Memory) (a b v : Nat) (h : a + 4 ≤ b ∨ b + 4 ≤ a)
    : (m.storeWord a v).loadWord b = m.loadWord b := by
  apply loadWord_congr
  intro c hlo hhi
  apply load_storeWord_of_disjoint
  omega

section Half

variable (m : Memory) (a b v w : Nat)

theorem loadHalf_lt : m.loadHalf a < 0x10000 := by
  unfold loadHalf
  have := (m.load a).isLt
  have := (m.load (a + 1)).isLt
  omega

@[simp]
theorem loadHalf_storeHalf_self : (m.storeHalf a v).loadHalf a = v % 0x10000 := by
  simp [loadHalf, storeHalf, load_store]
  omega

theorem load_storeHalf_of_disjoint (h : b < a ∨ a + 2 ≤ b) : (m.storeHalf a v).load b = m.load b := by
  have h0 : b ≠ a := by omega
  have h1 : b ≠ a + 1 := by omega
  simp [storeHalf, load_store, h0, h1]

theorem loadHalf_congr (m' : Memory) (h : ∀ b, a ≤ b → b < a + 2 → m'.load b = m.load b)
    : m'.loadHalf a = m.loadHalf a := by
  unfold loadHalf
  rw [h a (by omega) (by omega), h (a + 1) (by omega) (by omega)]

theorem loadWord_eq_halves : m.loadWord a = m.loadHalf a + 0x10000 * m.loadHalf (a + 2) := by
  unfold loadWord loadHalf
  rw [Nat.add_assoc a 2 1]
  omega

theorem loadHalf_storeHalf_of_disjoint (h : a + 2 ≤ b ∨ b + 2 ≤ a) : (m.storeHalf a v).loadHalf b = m.loadHalf b := by
  apply loadHalf_congr
  intro c hlo hhi
  apply load_storeHalf_of_disjoint
  omega

/--
A word is stored by halves.
-/
theorem storeHalf_storeHalf (hv : v < 0x10000)
    : (m.storeHalf a v).storeHalf (a + 2) w = m.storeWord a (v + 0x10000 * w) := by
  have hbyte (x y : Nat) (h : x % 0x100 = y % 0x100) : BitVec.ofNat 8 x = BitVec.ofNat 8 y := by
    rw [← BitVec.toNat_inj, BitVec.toNat_ofNat, BitVec.toNat_ofNat]
    exact h
  have h0 := hbyte v (v + 0x10000 * w) (by omega)
  have h1 := hbyte (v / 0x100) ((v + 0x10000 * w) / 0x100) (by omega)
  have h2 := hbyte w ((v + 0x10000 * w) / 0x10000) (by omega)
  have h3 := hbyte (w / 0x100) ((v + 0x10000 * w) / 0x1000000) (by omega)
  rw [storeHalf, storeHalf, storeWord, h0, h1, h2, h3]

end Half

theorem load_fill (m : Memory) (a : Nat) (v : BitVec 8) (n b : Nat)
    : (m.fill a v n).load b = if a ≤ b ∧ b < a + n then v else m.load b := by
  induction n generalizing m a with
  | zero =>
    simp only [fill]
    rw [if_neg (by omega)]
  | succ n ih =>
    simp only [fill]
    rw [ih, load_store]
    by_cases h : b = a
    · rw [if_neg (by omega), if_pos h, if_pos (by omega)]
    · rw [if_neg h]
      congr 1
      apply propext
      omega

theorem loadWord_fill_of_disjoint (m : Memory) (a b n : Nat) (v : BitVec 8)
    (h : a + n ≤ b ∨ b + 4 ≤ a)
    : (m.fill a v n).loadWord b = m.loadWord b := by
  apply loadWord_congr
  intro c hlo hhi
  rw [load_fill, if_neg (by omega)]

theorem loadWord_fill_zero (m : Memory) (a b n : Nat) (h : a ≤ b) (h' : b + 4 ≤ a + n)
    : (m.fill a 0 n).loadWord b = 0 := by
  unfold loadWord
  simp only [load_fill]
  rw [if_pos (by omega), if_pos (by omega), if_pos (by omega), if_pos (by omega)]
  rfl

theorem load_copy (m : Memory) (dst src n b : Nat) (h : dst ≤ src ∨ src + n ≤ dst)
    : (m.copy dst src n).load b
        =
      if dst ≤ b ∧ b < dst + n then m.load (src + (b - dst)) else m.load b := by
  induction n generalizing m dst src with
  | zero =>
    simp only [copy]
    rw [if_neg (by omega)]
  | succ n ih =>
    simp only [copy]
    rw [ih _ _ _ (by omega)]
    by_cases hb : b = dst
    · subst hb
      rw [if_neg (by omega), if_pos (by omega), load_store_self]
      simp
    · by_cases hin : dst + 1 ≤ b ∧ b < dst + 1 + n
      · rw [if_pos hin, if_pos (by omega), load_store, if_neg (by omega)]
        congr 1
        omega
      · rw [if_neg hin, if_neg (by omega), load_store, if_neg hb]

theorem load_storeBytes_of_disjoint (m : Memory) (a b : Nat) (vs : List (BitVec 8))
    (h : b < a ∨ a + vs.length ≤ b)
    : (m.storeBytes a vs).load b = m.load b := by
  induction vs generalizing m a with
  | nil => rfl
  | cons v vs ih =>
    rw [List.length_cons] at h
    rw [storeBytes, ih _ _ (by omega), load_store, if_neg (by omega)]

theorem load_storeBytes (m : Memory) (a i : Nat) (vs : List (BitVec 8)) (h : i < vs.length)
    : (m.storeBytes a vs).load (a + i) = vs[i] := by
  induction vs generalizing m a i with
  | nil => simp at h
  | cons v vs ih =>
    cases i with
    | zero =>
      rw [storeBytes, load_storeBytes_of_disjoint _ _ _ _ (by omega)]
      simp
    | succ i =>
      rw [List.length_cons] at h
      have hi := ih (m.store a v) (a + 1) i (by omega)
      rw [storeBytes, List.getElem_cons_succ, ← hi]
      congr 1
      omega

theorem loadBytes_storeBytes (m : Memory) (a : Nat) (vs : List (BitVec 8))
    : (m.storeBytes a vs).loadBytes a vs.length = vs := by
  apply List.ext_getElem
  . simp [loadBytes]
  . intro i hi hi'
    simp only [loadBytes, List.getElem_map, List.getElem_range]
    exact load_storeBytes m a i vs hi'

theorem loadBytes_storeBytes_of_disjoint (m : Memory) (a b n : Nat) (vs : List (BitVec 8))
    (h : b + n ≤ a ∨ a + vs.length ≤ b)
    : (m.storeBytes a vs).loadBytes b n = m.loadBytes b n := by
  apply List.map_congr_left
  intro i hi
  rw [List.mem_range] at hi
  exact load_storeBytes_of_disjoint m a (b + i) vs (by omega)

@[simp]
theorem length_loadBytes (m : Memory) (a n : Nat) : (m.loadBytes a n).length = n := by
  simp [loadBytes]

namespace StoresIn

variable {m m' m'' : Memory} {S T : Nat → Prop}

theorem refl (m : Memory) : StoresIn m m S := by
  exact ⟨[], by simp, by simp⟩

theorem trans (h : StoresIn m m' S) (h' : StoresIn m' m'' S) : StoresIn m m'' S := by
  obtain ⟨l, hl, hS⟩ := h
  obtain ⟨l', hl', hS'⟩ := h'
  refine ⟨l' ++ l, by rw [hl', hl, List.append_assoc], ?_⟩
  intro a ha
  rcases List.mem_append.mp ha with ha | ha
  · exact hS' a ha
  · exact hS a ha

theorem mono (h : StoresIn m m' S) (hST : ∀ a, S a → T a) : StoresIn m m' T := by
  obtain ⟨l, hl, hS⟩ := h
  exact ⟨l, hl, fun a ha => hST a (hS a ha)⟩

theorem store (m : Memory) (a : Nat) (v : BitVec 8) (h : S a) : StoresIn m (m.store a v) S := by
  exact ⟨[a], by simp, by simpa using h⟩

theorem store_iff (m : Memory) (a : Nat) (v : BitVec 8) : StoresIn m (m.store a v) S ↔ S a := by
  constructor
  · rintro ⟨l, hl, hS⟩
    have hl' : [a] = l := List.append_cancel_right hl
    exact hS a (hl' ▸ List.mem_singleton_self a)
  · exact store m a v

theorem trans_iff (h : StoresIn m m' (fun _ => True)) (h' : StoresIn m' m'' (fun _ => True))
    : StoresIn m m'' S ↔ StoresIn m m' S ∧ StoresIn m' m'' S := by
  obtain ⟨l, hl, -⟩ := h
  obtain ⟨l', hl', -⟩ := h'
  constructor
  · rintro ⟨k, hk, hS⟩
    have hk' : l' ++ l = k := by
      rw [hl', hl, ← List.append_assoc] at hk
      exact List.append_cancel_right hk
    subst hk'
    exact ⟨⟨l, hl, fun a ha => hS a (List.mem_append_right l' ha)⟩,
      ⟨l', hl', fun a ha => hS a (List.mem_append_left l ha)⟩⟩
  · rintro ⟨h, h'⟩
    exact h.trans h'

theorem storeWord (m : Memory) (a v : Nat) (h : ∀ b, a ≤ b → b < a + 4 → S b)
    : StoresIn m (m.storeWord a v) S := by
  refine ⟨[a + 3, a + 2, a + 1, a], by simp [Memory.storeWord], ?_⟩
  intro b hb
  simp only [List.mem_cons, List.not_mem_nil, or_false] at hb
  apply h
  · omega
  · omega

theorem fill (m : Memory) (a : Nat) (v : BitVec 8) (n : Nat) (h : ∀ b, a ≤ b → b < a + n → S b)
    : StoresIn m (m.fill a v n) S := by
  induction n generalizing m a with
  | zero => exact refl m
  | succ n ih =>
    simp only [Memory.fill]
    apply trans
    · exact store m a v (h a (by omega) (by omega))
    · apply ih
      intro b hlo hhi
      exact h b (by omega) (by omega)

theorem copy (m : Memory) (dst src n : Nat) (h : ∀ b, dst ≤ b → b < dst + n → S b)
    : StoresIn m (m.copy dst src n) S := by
  induction n generalizing m dst src with
  | zero => exact refl m
  | succ n ih =>
    simp only [Memory.copy]
    apply trans
    · exact store m dst (m.load src) (h dst (by omega) (by omega))
    · apply ih
      intro b hlo hhi
      exact h b (by omega) (by omega)

end StoresIn

namespace StoresExactly

variable {m m' m'' : Memory} {S T : Nat → Prop}

theorem storesIn (h : StoresExactly m m' S) : StoresIn m m' S := by
  obtain ⟨l, hl, hS⟩ := h
  exact ⟨l, hl, fun a ha => (hS a).mp ha⟩

theorem congr (h : StoresExactly m m' S) (hST : ∀ a, S a ↔ T a) : StoresExactly m m' T := by
  obtain ⟨l, hl, hS⟩ := h
  exact ⟨l, hl, fun a => (hS a).trans (hST a)⟩

theorem trans (h : StoresExactly m m' S) (h' : StoresExactly m' m'' T)
    : StoresExactly m m'' (fun a => S a ∨ T a) := by
  obtain ⟨l, hl, hS⟩ := h
  obtain ⟨l', hl', hT⟩ := h'
  refine ⟨l' ++ l, by rw [hl', hl, List.append_assoc], ?_⟩
  intro a
  rw [List.mem_append, hS, hT, or_comm]

theorem store (m : Memory) (a : Nat) (v : BitVec 8) : StoresExactly m (m.store a v) (· = a) := by
  exact ⟨[a], by simp, by simp⟩

theorem storeBytes (m : Memory) (a : Nat) (vs : List (BitVec 8))
    : StoresExactly m (m.storeBytes a vs) (fun b => a ≤ b ∧ b < a + vs.length) := by
  induction vs generalizing m a with
  | nil =>
    refine ⟨[], rfl, fun b => iff_of_false List.not_mem_nil ?_⟩
    rw [List.length_nil]
    omega
  | cons v vs ih =>
    refine ((store m a v).trans (ih (m.store a v) (a + 1))).congr (fun b => ?_)
    rw [List.length_cons]
    constructor
    . rintro (rfl | ⟨hlo, hhi⟩)
      . omega
      . omega
    . intro hb
      exact (Nat.eq_or_lt_of_le hb.1).imp Eq.symm (fun hlt => ⟨hlt, by omega⟩)

/--
What is stored first lies in the whole.
-/
theorem subset (h : StoresExactly m m' S) (h' : StoresIn m' m'' (fun _ => True)) (hT : StoresIn m m'' T) {a : Nat}
    (ha : S a)
    : T a := by
  obtain ⟨l, hl, hS⟩ := h
  obtain ⟨l', hl', -⟩ := h'
  obtain ⟨k, hk, hT⟩ := hT
  have hk' : l' ++ l = k := by
    rw [hl', hl, ← List.append_assoc] at hk
    exact List.append_cancel_right hk
  exact hT a (hk' ▸ List.mem_append_right l' ((hS a).mpr ha))

end StoresExactly

end Memory
end Osproj
