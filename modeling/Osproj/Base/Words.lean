import Osproj.Base.Memory

/-!
This module contains stores of words seen from a record that is kept apart from the memory: what they make of a field,
whose bytes they may hit. A field that no store hits is as before.
-/

namespace Osproj

/--
A word that is stored.
-/
structure WordStore where
  addr : Nat
  value : Nat
deriving DecidableEq, Repr

namespace WordStore

/--
What the word `w` at `a` is after a store.
-/
def apply (a w : Nat) (store : WordStore) : Nat :=
  if a + 4 ≤ store.addr ∨ store.addr + 4 ≤ a then
    w
  else
    (((⟨fun _ => 0, []⟩ : Memory).storeWord a w).storeWord store.addr store.value).loadWord a

def applyAll (stores : List WordStore) (a w : Nat) : Nat := stores.foldl (apply a) w

/--
No store hits the `n` bytes from `a` on.
-/
def Miss (stores : List WordStore) (a n : Nat) : Prop := ∀ s ∈ stores, a + n ≤ s.addr ∨ s.addr + 4 ≤ a

instance (stores : List WordStore) (a n : Nat) : Decidable (Miss stores a n) := by
  unfold Miss
  infer_instance

/--
What the signed word `w` at `a` is after stores.
-/
def applyInt (stores : List WordStore) (a : Nat) (w : Int) : Int :=
  if Miss stores a 4 then w else (BitVec.ofNat 32 (applyAll stores a (BitVec.ofInt 32 w).toNat)).toInt

variable {stores : List WordStore} {a b n k w : Nat}

theorem Miss.mono (h : Miss stores a n) (hlo : a ≤ b) (hhi : b + k ≤ a + n) : Miss stores b k := by
  intro s hs
  have := h s hs
  omega

theorem applyAll_of_miss (h : Miss stores a 4) (w : Nat) : applyAll stores a w = w := by
  induction stores generalizing w with
  | nil => rfl
  | cons s stores ih =>
    have hs := h s (List.mem_cons_self ..)
    have hrest : Miss stores a 4 := fun s' hs' => h s' (List.mem_cons_of_mem s hs')
    rw [applyAll, List.foldl_cons, apply, if_pos hs]
    exact ih hrest w

theorem applyInt_of_miss (h : Miss stores a 4) (w : Int) : applyInt stores a w = w := if_pos h

end WordStore

namespace Memory

def storeWords (m : Memory) (stores : List WordStore) : Memory := stores.foldl (fun m s => m.storeWord s.addr s.value) m

variable {m m' : Memory} {stores : List WordStore} {b : Nat}

theorem load_storeWord_congr (h : m.load b = m'.load b) (a v : Nat)
    : (m.storeWord a v).load b = (m'.storeWord a v).load b := by
  simp only [storeWord, load_store, h]

/--
What a byte becomes depends on that byte alone.
-/
theorem load_storeWords_congr (h : m.load b = m'.load b)
    : (m.storeWords stores).load b = (m'.storeWords stores).load b := by
  induction stores generalizing m m' with
  | nil => exact h
  | cons s stores ih => exact ih (load_storeWord_congr h s.addr s.value)

/--
Words one behind the other.
-/
def storeList (m : Memory) (a : Nat) : List Nat → Memory
  | [] => m
  | w :: ws => (m.storeWord a w).storeList (a + 4) ws

theorem load_storeList_of_disjoint (m : Memory) {a b : Nat} {ws : List Nat} (h : b < a ∨ a + 4 * ws.length ≤ b)
    : (m.storeList a ws).load b = m.load b := by
  induction ws generalizing m a with
  | nil => rfl
  | cons w ws ih =>
    rw [List.length_cons] at h
    rw [storeList, ih _ (by omega), load_storeWord_of_disjoint _ _ _ _ (by omega)]

theorem loadWord_storeList (m : Memory) (a : Nat) {ws : List Nat} {i w : Nat} (h : ws[i]? = some w)
    : (m.storeList a ws).loadWord (a + 4 * i) = w % 0x100000000 := by
  induction ws generalizing m a i with
  | nil => simp at h
  | cons v ws ih =>
    cases i with
    | zero =>
      rw [List.getElem?_cons_zero, Option.some.injEq] at h
      subst h
      rw [storeList, Memory.loadWord_congr (m.storeWord a v) _ (a + 4 * 0)
        (fun b hlo hhi => load_storeList_of_disjoint _ (Or.inl (by omega)))]
      exact loadWord_storeWord_self m a v
    | succ i =>
      rw [List.getElem?_cons_succ] at h
      have heq : a + 4 * (i + 1) = a + 4 + 4 * i := by omega
      rw [storeList, heq]
      exact ih _ _ h

end Memory
end Osproj
