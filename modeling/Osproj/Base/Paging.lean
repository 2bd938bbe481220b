import Mathlib.Algebra.Group.Nat.Defs
import Osproj.Base.Memory

/-!
This module contains the two level address translation of the processor, with 4 MB pages enabled. An
entry is a word; its bits 0, 1, 2 and 7 are the present, write, user and page size bits.
-/

namespace Osproj
namespace Paging

def bit (w i : Nat) : Nat := w / 2 ^ i % 2

structure Translation where
  addr : Nat
  us : Nat
  rw : Nat

def pdeAddr (dir virt : Nat) : Nat := dir + 4 * (virt / 0x400000)

def pteAddr (table virt : Nat) : Nat := table + 4 * (virt / 0x1000 % 0x400)

def frame (w : Nat) : Nat := w / 0x1000 * 0x1000

def walk (m : Memory) (dir virt : Nat) : Option Translation :=
  let pde := m.loadWord (pdeAddr dir virt)
  if bit pde 0 = 0 then
    none
  else if bit pde 7 = 1 then
    some ⟨pde / 0x400000 * 0x400000 + virt % 0x400000, bit pde 2, bit pde 1⟩
  else
    let pte := m.loadWord (pteAddr (frame pde) virt)
    if bit pte 0 = 0 then
      none
    else
      some ⟨frame pte + virt % 0x1000, bit pde 2 &&& bit pte 2, bit pde 1 &&& bit pte 1⟩

def IsTable (w : Nat) : Prop := bit w 0 = 1 ∧ bit w 7 = 0

theorem bit_lt (w i : Nat) : bit w i < 2 := by
  unfold bit
  omega

theorem bit_ne_one {w i : Nat} : ¬ bit w i = 1 ↔ bit w i = 0 := by
  have hlt := bit_lt w i
  omega

theorem bit_ne_zero {w i : Nat} : ¬ bit w i = 0 ↔ bit w i = 1 := by
  have hlt := bit_lt w i
  omega

theorem pdeAddr_congr {virt v : Nat} (hslot : v / 0x400000 = virt / 0x400000) (dir : Nat)
    : pdeAddr dir v = pdeAddr dir virt := by
  rw [pdeAddr, hslot, pdeAddr]

theorem frame_mod (w : Nat) : frame w % 0x1000 = 0 := by
  unfold frame
  omega

theorem walk_of_not_present {m : Memory} {dir virt : Nat}
    (h : bit (m.loadWord (pdeAddr dir virt)) 0 = 0)
    : walk m dir virt = none := by
  simp only [walk, h, if_true]

theorem walk_of_isTable {m : Memory} {dir virt : Nat}
    (h : IsTable (m.loadWord (pdeAddr dir virt)))
    : walk m dir virt
        =
      let pde := m.loadWord (pdeAddr dir virt)
      let pte := m.loadWord (pteAddr (frame pde) virt)
      if bit pte 0 = 0 then
        none
      else
        some ⟨frame pte + virt % 0x1000, bit pde 2 &&& bit pte 2, bit pde 1 &&& bit pte 1⟩ := by
  unfold walk
  dsimp only
  rw [if_neg (by rw [h.1]; decide), if_neg (by rw [h.2]; decide)]

theorem walk_congr {m m' : Memory} {dir virt : Nat}
    (hpde : m'.loadWord (pdeAddr dir virt) = m.loadWord (pdeAddr dir virt))
    (hpte : IsTable (m.loadWord (pdeAddr dir virt)) →
      m'.loadWord (pteAddr (frame (m.loadWord (pdeAddr dir virt))) virt)
        = m.loadWord (pteAddr (frame (m.loadWord (pdeAddr dir virt))) virt))
    : walk m' dir virt = walk m dir virt := by
  unfold walk
  rw [hpde]
  dsimp only
  split
  . rfl
  . next hpresent =>
    split
    . rfl
    . next hpse =>
      rw [hpte ⟨bit_ne_zero.mp hpresent, bit_ne_one.mp hpse⟩]

theorem walk_congr_load {m m' : Memory} (h : ∀ a, m'.load a = m.load a) (dir virt : Nat)
    : walk m' dir virt = walk m dir virt := by
  have hword (a : Nat) : m'.loadWord a = m.loadWord a := Memory.loadWord_congr _ _ _ (fun b _ _ => h b)
  exact walk_congr (hword _) (fun _ => hword _)

theorem walk_none_congr {m : Memory} {dir virt v : Nat} (h : v / 0x1000 = virt / 0x1000)
    : walk m dir v = none ↔ walk m dir virt = none := by
  have hpde : pdeAddr dir v = pdeAddr dir virt := by
    unfold pdeAddr
    omega
  have hpte (table : Nat) : pteAddr table v = pteAddr table virt := by
    unfold pteAddr
    omega
  simp only [walk, hpde, hpte]
  split
  . exact Iff.rfl
  . split
    . simp
    . split <;> simp

theorem walk_eq_none_iff {m : Memory} {dir virt : Nat} (h : IsTable (m.loadWord (pdeAddr dir virt)))
    : walk m dir virt = none
        ↔
      bit (m.loadWord (pteAddr (frame (m.loadWord (pdeAddr dir virt))) virt)) 0 = 0 := by
  rw [walk_of_isTable h]
  dsimp only
  split
  . next hbit => exact iff_of_true rfl hbit
  . next hbit => exact iff_of_false (by simp) hbit

def HasEntry (m : Memory) (table : Nat) : Prop := ∃ i, i < 1024 ∧ bit (m.loadWord (table + 4 * i)) 0 = 1

theorem bit_of_not_hasEntry {m : Memory} {table i : Nat} (h : ¬ HasEntry m table) (hi : i < 1024)
    : bit (m.loadWord (table + 4 * i)) 0 = 0 := by
  by_contra hne
  exact h ⟨i, hi, bit_ne_zero.mp hne⟩

theorem walk_of_not_hasEntry {m : Memory} {dir virt : Nat} (h : IsTable (m.loadWord (pdeAddr dir virt)))
    (hnone : ¬ HasEntry m (frame (m.loadWord (pdeAddr dir virt))))
    : walk m dir virt = none := by
  rw [walk_eq_none_iff h]
  exact bit_of_not_hasEntry hnone (Nat.mod_lt _ (by decide))

/--
The entry `i` of the table of `virt` is that of an address in its slot.
-/
theorem walk_entry_eq_none_iff {m : Memory} {dir virt i : Nat} (hi : i < 1024)
    (h : IsTable (m.loadWord (pdeAddr dir virt)))
    : walk m dir (virt / 0x400000 * 0x400000 + i * 0x1000) = none
        ↔
      bit (m.loadWord (frame (m.loadWord (pdeAddr dir virt)) + 4 * i)) 0 = 0 := by
  have hslot : (virt / 0x400000 * 0x400000 + i * 0x1000) / 0x400000 = virt / 0x400000 := by omega
  have hindex : (virt / 0x400000 * 0x400000 + i * 0x1000) / 0x1000 % 0x400 = i := by omega
  rw [← pdeAddr_congr hslot] at h
  rw [walk_eq_none_iff h, pdeAddr_congr hslot, pteAddr, hindex]

/--
The memory without the present bit of the entry at `a`.
-/
def drop (m : Memory) (a : Nat) : Memory := m.storeWord a (m.loadWord a / 2 * 2)

section Drop

variable {m : Memory} {a b dir virt v : Nat}

theorem loadWord_drop_self (m : Memory) (a : Nat) : (drop m a).loadWord a = m.loadWord a / 2 * 2 := by
  have hlt := m.loadWord_lt a
  rw [drop, Memory.loadWord_storeWord_self]
  omega

theorem loadWord_drop_of_ne (ha : a % 4 = 0) (hb : b % 4 = 0) (hne : b ≠ a)
    : (drop m a).loadWord b = m.loadWord b := by
  rw [drop, Memory.loadWord_storeWord_of_disjoint]
  omega

theorem bit_drop_self (m : Memory) (a : Nat) : bit ((drop m a).loadWord a) 0 = 0 := by
  rw [loadWord_drop_self]
  unfold bit
  omega

theorem bit_of_bit_drop (ha : a % 4 = 0) (hb : b % 4 = 0) (h : bit ((drop m a).loadWord b) 0 = 1)
    : bit (m.loadWord b) 0 = 1 := by
  by_cases heq : b = a
  . subst heq
    rw [bit_drop_self] at h
    omega
  . rwa [loadWord_drop_of_ne ha hb heq] at h

theorem bit_drop_of_bit (ha : a % 4 = 0) (hb : b % 4 = 0) (h : bit (m.loadWord b) 0 = 0)
    : bit ((drop m a).loadWord b) 0 = 0 := by
  by_contra hne
  have hone := bit_of_bit_drop ha hb (bit_ne_zero.mp hne)
  omega

theorem load_drop_of_bit (h : bit (m.loadWord a) 0 = 0) (b : Nat) : (drop m a).load b = m.load b := by
  have hword : m.loadWord a / 2 * 2 = m.loadWord a := by
    unfold bit at h
    omega
  rw [drop, hword]
  exact Memory.load_storeWord_loadWord m a b

theorem hasEntry_of_drop {table : Nat} (ha : a % 4 = 0) (htable : table % 0x1000 = 0) (h : HasEntry (drop m a) table)
    : HasEntry m table := by
  obtain ⟨i, hi, hbit⟩ := h
  exact ⟨i, hi, bit_of_bit_drop ha (by omega) hbit⟩

theorem walk_drop_pde (hslot : v / 0x400000 = virt / 0x400000)
    : walk (drop m (pdeAddr dir virt)) dir v = none := by
  apply walk_of_not_present
  rw [pdeAddr_congr hslot]
  exact bit_drop_self _ _

theorem walk_drop_pte (hdir : dir % 4 = 0) (htable : IsTable (m.loadWord (pdeAddr dir v)))
    (ha : pteAddr (frame (m.loadWord (pdeAddr dir v))) v = a) (hne : pdeAddr dir v ≠ a)
    : walk (drop m a) dir v = none := by
  have hframe := frame_mod (m.loadWord (pdeAddr dir v))
  have hpde : (drop m a).loadWord (pdeAddr dir v) = m.loadWord (pdeAddr dir v) := by
    apply loadWord_drop_of_ne
    . rw [← ha, pteAddr]
      omega
    . rw [pdeAddr]
      omega
    . exact hne
  rw [walk_of_isTable (hpde.symm ▸ htable), hpde]
  dsimp only
  rw [ha, if_pos (bit_drop_self m a)]

theorem walk_drop_of_ne (hdir : dir % 4 = 0) (ha : a % 4 = 0) (hpde : pdeAddr dir v ≠ a)
    (hpte : IsTable (m.loadWord (pdeAddr dir v)) → pteAddr (frame (m.loadWord (pdeAddr dir v))) v ≠ a)
    : walk (drop m a) dir v = walk m dir v := by
  have hframe := frame_mod (m.loadWord (pdeAddr dir v))
  apply walk_congr
  . apply loadWord_drop_of_ne ha ?_ hpde
    rw [pdeAddr]
    omega
  . intro htable
    apply loadWord_drop_of_ne ha ?_ (hpte htable)
    rw [pteAddr]
    omega

end Drop

end Paging
end Osproj
