import Osproj.Kernel.Impl.Acpi

/-!
This module contains the walk over the records of the MADT, and the exact condition under which it ends inside the
table. The bound of the loop is eight bytes too large, and its index is not initialized. The walk over the table
alone is the one in memory as long as it stays inside.
-/

namespace Osproj
namespace Madt

variable {t : Madt}

/--
The offsets that are reached from the first record by following the record lengths.
-/
def record (t : Madt) : Nat → BitVec 32
  | 0 => 0
  | k + 1 => t.record k + (t.entries (t.record k + 1).toNat).setWidth 32

def Inside (t : Madt) (i : BitVec 32) : Prop := ENTRIES_OFFSET + i.toNat < t.length.toNat

def address (t : Madt) (i : BitVec 32) : Nat :=
  (t.entries (i.toNat + 4)).toNat + 0x100 * (t.entries (i.toNat + 5)).toNat
    + 0x10000 * (t.entries (i.toNat + 6)).toNat + 0x1000000 * (t.entries (i.toNat + 7)).toNat

/--
The `k`-th record is the first one of type 1, and those before it lie in the table.
-/
def FirstIoapic (t : Madt) (k : Nat) : Prop :=
  (∀ j < k, t.Inside (t.record j) ∧ t.entries (t.record j).toNat ≠ 1)
    ∧ t.Inside (t.record k) ∧ t.entries (t.record k).toNat = 1

/--
What must hold of the walk: it starts at the first record, ends, reads no byte outside of the table, and sets
`ioapic_addr` from the first record of type 1.
-/
structure WalkOk (t : Madt) (i : BitVec 32) : Prop where
  starts : i = 0
  ends : ∃ fuel r, t.walk fuel i = some r ∧ ((∃ k, t.FirstIoapic k ∧ r = some (phy2lin (t.address (t.record k))))
    ∨ (∀ k, ¬ t.FirstIoapic k) ∧ r = none)

def Passed (t : Madt) (i : BitVec 32) : Prop :=
  t.entries i.toNat ≠ 1 ∧ ENTRIES_OFFSET + i.toNat + 1 < t.length.toNat

def Ioapic (t : Madt) (i : BitVec 32) : Prop :=
  t.entries i.toNat = 1 ∧ ENTRIES_OFFSET + i.toNat + 8 ≤ t.length.toNat

/--
The condition under which it does: `i` happens to be 0, and the records lie in the table with their types and lengths,
up to a whole record of type 1 or to an offset that is eight bytes behind the table.
-/
def TableOk (t : Madt) (i : BitVec 32) : Prop :=
  i = 0 ∧ ∃ k,
    (∀ j < k, t.Passed (t.record j))
      ∧ (t.Ioapic (t.record k) ∨ 36 ≤ t.length.toNat ∧ t.length.toNat ≤ 36 + (t.record k).toNat)

theorem read_eq_some_iff {i : Nat} {b : BitVec 8}
    : t.read i = some b ↔ ENTRIES_OFFSET + i < t.length.toNat ∧ b = t.entries i := by
  unfold read
  split
  . next h => simp [h, eq_comm]
  . next h => simp [h]

theorem read_of_inside {i : BitVec 32} (h : t.Inside i) : t.read i.toNat = some (t.entries i.toNat) := if_pos h

theorem read_of_not_inside {i : BitVec 32} (h : ¬ t.Inside i) : t.read i.toNat = none := if_neg h

theorem readWord_eq_some_iff {i : BitVec 32} {a : Nat}
    : t.readWord (i.toNat + 4) = some a
        ↔
      ENTRIES_OFFSET + i.toNat + 8 ≤ t.length.toNat ∧ a = t.address i := by
  simp only [readWord, Option.bind_eq_bind, Option.bind_eq_some_iff, read_eq_some_iff, Option.pure_def,
    Option.some.injEq, address]
  constructor
  . rintro ⟨_, ⟨_, rfl⟩, _, ⟨_, rfl⟩, _, ⟨_, rfl⟩, _, ⟨_, rfl⟩, rfl⟩
    exact ⟨by omega, rfl⟩
  . rintro ⟨hfits, rfl⟩
    exact ⟨_, ⟨by omega, rfl⟩, _, ⟨by omega, rfl⟩, _, ⟨by omega, rfl⟩, _, ⟨by omega, rfl⟩, rfl⟩

theorem lt_bound_iff {i : BitVec 32}
    : i < t.length - XSDT_HEADER_SZ ↔ t.length.toNat < 36 ∧ i.toNat < t.length.toNat + 0xFFFFFFDC
      ∨ 36 ≤ t.length.toNat ∧ 36 + i.toNat < t.length.toNat := by
  have hi := i.isLt
  have hlen := t.length.isLt
  rw [BitVec.lt_def, BitVec.toNat_sub, show XSDT_HEADER_SZ.toNat = 36 from rfl]
  omega

theorem toNat_succ {i : BitVec 32} (h : ENTRIES_OFFSET + i.toNat < t.length.toNat) : (i + 1).toNat = i.toNat + 1 := by
  have hlen := t.length.isLt
  have hsucc : i.toNat + 1 < 2 ^ 32 := by
    simp only [ENTRIES_OFFSET] at h
    omega
  rw [BitVec.toNat_add]
  exact Nat.mod_eq_of_lt hsucc

theorem step_eq_read {i : BitVec 32} (h : i < t.length - XSDT_HEADER_SZ)
    : t.step i = (t.read i.toNat).bind fun type =>
        if type ≠ 1 then
          (t.read (i + 1).toNat).map fun length => .inl (i + length.setWidth 32)
        else
          (t.readWord (i.toNat + 4)).map fun addr => .inr (some (phy2lin addr)) := by
  rw [step, if_pos h]
  cases t.read i.toNat with
  | none => rfl
  | some type =>
    simp only [Option.bind_eq_bind, Option.bind_some]
    split
    . cases t.read (i + 1).toNat <;> rfl
    . cases t.readWord (i.toNat + 4) <;> rfl

theorem step_eq_stop {i : BitVec 32} (h : ¬ i < t.length - XSDT_HEADER_SZ) : t.step i = some (.inr none) := by
  rw [step, if_neg h]
  rfl

theorem step_eq_none {i : BitVec 32} (h : i < t.length - XSDT_HEADER_SZ) (hout : ¬ t.Inside i) : t.step i = none := by
  rw [step_eq_read h, read_of_not_inside hout]
  rfl

theorem lt_bound_of_inside {i : BitVec 32} (h : t.Inside i) : i < t.length - XSDT_HEADER_SZ := by
  rw [lt_bound_iff]
  simp only [Inside, ENTRIES_OFFSET] at h
  omega

theorem step_of_ne {i : BitVec 32} (h : t.Inside i) (htype : t.entries i.toNat ≠ 1)
    : t.step i = (t.read (i.toNat + 1)).map fun length => .inl (i + length.setWidth 32) := by
  rw [step_eq_read (lt_bound_of_inside h), read_of_inside h, Option.bind_some, if_pos htype, toNat_succ h]

theorem step_of_eq {i : BitVec 32} (h : t.Inside i) (htype : t.entries i.toNat = 1)
    : t.step i = (t.readWord (i.toNat + 4)).map fun addr => .inr (some (phy2lin addr)) := by
  rw [step_eq_read (lt_bound_of_inside h), read_of_inside h, Option.bind_some, if_neg (not_not_intro htype)]

theorem Passed.inside {i : BitVec 32} (h : t.Passed i) : t.Inside i := Nat.lt_of_succ_lt h.2

/--
The loop goes on to the next record if the type and the length of this one lie in the table.
-/
theorem step_inl_iff {i i' : BitVec 32}
    : t.step i = some (.inl i') ↔ t.Passed i ∧ i' = i + (t.entries (i + 1).toNat).setWidth 32 := by
  by_cases hin : t.Inside i
  . by_cases htype : t.entries i.toNat = 1
    . rw [step_of_eq hin htype]
      simp [Passed, htype]
    . rw [step_of_ne hin htype, Option.map_eq_some_iff, toNat_succ hin]
      simp only [read_eq_some_iff, Sum.inl.injEq, Passed]
      constructor
      . rintro ⟨_, ⟨hlt, rfl⟩, rfl⟩
        exact ⟨⟨htype, hlt⟩, rfl⟩
      . rintro ⟨⟨-, hlt⟩, rfl⟩
        exact ⟨_, ⟨hlt, rfl⟩, rfl⟩
  . refine iff_of_false ?_ (fun h => hin h.1.inside)
    by_cases hbound : i < t.length - XSDT_HEADER_SZ
    . rw [step_eq_none hbound hin]
      exact Option.some_ne_none _ ∘ Eq.symm
    . rw [step_eq_stop hbound]
      simp

theorem step_inr_iff {i : BitVec 32} {r : Option Nat}
    : t.step i = some (.inr r)
        ↔
      t.Ioapic i ∧ r = some (phy2lin (t.address i)) ∨ ¬ i < t.length - XSDT_HEADER_SZ ∧ r = none := by
  by_cases hin : t.Inside i
  . have hbound := lt_bound_of_inside hin
    by_cases htype : t.entries i.toNat = 1
    . rw [step_of_eq hin htype, Option.map_eq_some_iff]
      simp only [readWord_eq_some_iff, Sum.inr.injEq, Ioapic, htype, hbound, not_true, false_and, or_false, true_and]
      constructor
      . rintro ⟨_, ⟨hfits, rfl⟩, rfl⟩
        exact ⟨hfits, rfl⟩
      . rintro ⟨hfits, rfl⟩
        exact ⟨_, ⟨hfits, rfl⟩, rfl⟩
    . rw [step_of_ne hin htype, Option.map_eq_some_iff]
      simp only [reduceCtorEq, and_false, exists_false, Ioapic, hbound, not_true, false_and, or_false, false_iff]
      exact fun h => htype h.1.1
  . have hnot : ¬ t.Ioapic i := by
      rintro ⟨-, hfits⟩
      exact hin (show ENTRIES_OFFSET + i.toNat < t.length.toNat by omega)
    by_cases hbound : i < t.length - XSDT_HEADER_SZ
    . rw [step_eq_none hbound hin]
      simp [hnot, hbound]
    . rw [step_eq_stop hbound]
      simp [hnot, hbound, eq_comm]

theorem path_iff {k : Nat} {i : BitVec 32}
    : Loop.Path t.step k 0 i ↔ (∀ j < k, t.Passed (t.record j)) ∧ i = t.record k := by
  exact @Loop.path_iff_of_follows _ _ _ _ _ t.record t.Passed (fun n i' => step_inl_iff)

theorem firstIoapic_of_passed {k k' : Nat} (hpassed : ∀ j < k, t.Passed (t.record j)) (h : t.FirstIoapic k')
    : k ≤ k' := by
  by_contra hlt
  exact (hpassed k' (by omega)).1 h.2.2

/--
Whatever the walk ends with, it is the right answer.
-/
theorem answer_of_stop {k : Nat} {r : Option Nat} (hpassed : ∀ j < k, t.Passed (t.record j))
    (hstop : t.step (t.record k) = some (.inr r))
    : (∃ k, t.FirstIoapic k ∧ r = some (phy2lin (t.address (t.record k)))) ∨ (∀ k, ¬ t.FirstIoapic k) ∧ r = none := by
  rcases step_inr_iff.mp hstop with ⟨⟨htype, hfits⟩, rfl⟩ | ⟨hbound, rfl⟩
  . refine Or.inl ⟨k, ⟨fun j hj => ⟨(hpassed j hj).inside, (hpassed j hj).1⟩, ?_, htype⟩, rfl⟩
    exact show ENTRIES_OFFSET + (t.record k).toNat < t.length.toNat by omega
  . refine Or.inr ⟨fun k' hk' => ?_, rfl⟩
    rcases Nat.lt_or_eq_of_le (firstIoapic_of_passed hpassed hk') with hlt | rfl
    . exact hbound (lt_bound_of_inside (hk'.1 k hlt).1)
    . exact hbound (lt_bound_of_inside hk'.2.1)

theorem not_lt_bound_iff {k : Nat} (hpassed : ∀ j < k, t.Passed (t.record j))
    : ¬ t.record k < t.length - XSDT_HEADER_SZ
        ↔
      36 ≤ t.length.toNat ∧ t.length.toNat ≤ 36 + (t.record k).toNat := by
  rw [lt_bound_iff]
  cases k with
  | zero =>
    rw [show (t.record 0).toNat = 0 from rfl]
    omega
  | succ k =>
    have hlong := (hpassed 0 (Nat.succ_pos k)).2
    simp only [ENTRIES_OFFSET] at hlong
    omega

theorem walkOk_iff (t : Madt) (i : BitVec 32) : t.WalkOk i ↔ t.TableOk i := by
  constructor
  . rintro ⟨rfl, fuel, r, hwalk, -⟩
    obtain ⟨k, i, hpath, hstop⟩ := Loop.path_of_loop hwalk
    obtain ⟨hpassed, rfl⟩ := path_iff.mp hpath
    refine ⟨rfl, k, hpassed, ?_⟩
    rcases step_inr_iff.mp hstop with ⟨hioapic, -⟩ | ⟨hbound, -⟩
    . exact Or.inl hioapic
    . exact Or.inr ((not_lt_bound_iff hpassed).mp hbound)
  . rintro ⟨rfl, k, hpassed, hend⟩
    have hstop : ∃ r, t.step (t.record k) = some (.inr r) := by
      rcases hend with hioapic | hbound
      . exact ⟨_, step_inr_iff.mpr (Or.inl ⟨hioapic, rfl⟩)⟩
      . exact ⟨_, step_inr_iff.mpr (Or.inr ⟨(not_lt_bound_iff hpassed).mpr hbound, rfl⟩)⟩
    obtain ⟨r, hstop⟩ := hstop
    have hpath := path_iff.mpr ⟨hpassed, rfl⟩
    exact ⟨rfl, k + 1, r, Loop.loop_of_path hpath hstop, answer_of_stop hpassed hstop⟩

/--
In a table without records the byte behind the table is read.
-/
theorem not_walkOk : ¬ WalkOk ⟨44, fun _ => 0⟩ 0 := by
  rintro ⟨-, fuel, r, hwalk, -⟩
  cases fuel with
  | zero => cases hwalk
  | succ fuel =>
    have hnone : step ⟨44, fun _ => 0⟩ 0 = none := by decide
    rw [walk, Loop.loop, hnone] at hwalk
    cases hwalk

end Madt

namespace Acpi

variable {m : Memory} {madt len i : Nat}

/--
The MADT at `madt` as a table of its own.
-/
def tableAt (m : Memory) (madt len : Nat) : Madt where
  length := BitVec.ofNat 32 len
  entries := fun i => (load m (madt + Madt.ENTRIES_OFFSET + i)).getD 0

theorem load_of_read {b : BitVec 8} (hmapped : ∀ i < len, ∃ b, load m (madt + i) = some b)
    (h : (tableAt m madt len).read i = some b)
    : load m (madt + Madt.ENTRIES_OFFSET + i) = some b := by
  obtain ⟨hlt, rfl⟩ := Madt.read_eq_some_iff.mp h
  have hinside : Madt.ENTRIES_OFFSET + i < len :=
    Nat.lt_of_lt_of_le hlt (Nat.mod_le len (2 ^ 32))
  obtain ⟨b, hb⟩ := hmapped _ hinside
  rw [← Nat.add_assoc] at hb
  simp [tableAt, hb]

theorem loadWord_of_readWord {a : Nat} (hmapped : ∀ i < len, ∃ b, load m (madt + i) = some b)
    (h : (tableAt m madt len).readWord i = some a)
    : loadWord m (madt + Madt.ENTRIES_OFFSET + i) = some a := by
  simp only [Madt.readWord, Option.bind_eq_bind, Option.bind_eq_some_iff] at h
  obtain ⟨b0, h0, b1, h1, b2, h2, b3, h3, h⟩ := h
  rw [loadWord, load_of_read hmapped h0, Nat.add_assoc, load_of_read hmapped h1, Nat.add_assoc,
    load_of_read hmapped h2, Nat.add_assoc, load_of_read hmapped h3]
  exact h

/--
The walk in memory does what the one over the table does, as long as that comes back.
-/
theorem walk_of_table {fuel : Nat} {i : BitVec 32} {r : Option Nat} (hlen : length m madt = some len)
    (hmapped : ∀ i < len, ∃ b, load m (madt + i) = some b) (h : (tableAt m madt len).walk fuel i = some r)
    : walk m madt fuel i = some r := by
  apply Loop.loop_of_body ?_ h
  intro i y hy
  rw [walk.step, hlen]
  rw [Madt.step, show (tableAt m madt len).length = BitVec.ofNat 32 len from rfl] at hy
  split at hy
  . next hbound =>
    obtain ⟨type, htype, hy⟩ := Option.bind_eq_some_iff.mp hy
    have hload := load_of_read hmapped htype
    simp only [Option.bind_eq_bind, Option.bind_some, hload]
    rw [if_pos hbound]
    split at hy
    . next hne =>
      obtain ⟨recordLength, hrecord, hy⟩ := Option.bind_eq_some_iff.mp hy
      rw [if_pos hne, load_of_read hmapped hrecord]
      exact hy
    . next heq =>
      obtain ⟨addr, haddr, hy⟩ := Option.bind_eq_some_iff.mp hy
      rw [if_neg heq, Nat.add_assoc, loadWord_of_readWord hmapped haddr]
      exact hy
  . next hbound =>
    simp only [Option.bind_eq_bind, Option.bind_some]
    rw [if_neg hbound]
    exact hy

end Acpi
end Osproj
