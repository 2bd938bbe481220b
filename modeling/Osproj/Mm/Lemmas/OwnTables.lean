import Osproj.Mm.Lemmas.PageOps
import Osproj.Mm.Lemmas.Unmap

/-!
This module contains what `unmap_page` does to the translation of linear addresses. The entry that it clears is taken
from twelve bits of the address as in `map_page`, and a table that is not present is followed all the same.
-/

namespace Osproj

open Paging

/--
A page directory at the physical address `dir` whose tables are pages of their own. What the entries without the
present bit hold does not matter.
-/
structure OwnTables where
  mem : Memory
  dir : Nat
  aligned : dir % PAGE_SIZE = 0
  low : dir + PAGE_SIZE ≤ 0x40000000
  table_ne : ∀ i, i < 1024 → IsTable (mem.loadWord (dir + 4 * i)) → frame (mem.loadWord (dir + 4 * i)) ≠ dir
  table_inj : ∀ i j, i < 1024 → j < 1024 → IsTable (mem.loadWord (dir + 4 * i)) →
    IsTable (mem.loadWord (dir + 4 * j)) →
    frame (mem.loadWord (dir + 4 * i)) = frame (mem.loadWord (dir + 4 * j)) → i = j

namespace OwnTables

open MemConfig

variable {cfg : MemConfig} {t : OwnTables} {virt v : Nat} {m' : Memory}

def pde (t : OwnTables) (virt : Nat) : Nat := t.mem.loadWord (pdeAddr t.dir virt)

def SamePage (t : OwnTables) (virt v : Nat) : Prop :=
  if bit (t.pde virt) 0 = 1 ∧ bit (t.pde virt) 7 = 1 then
    v / 0x400000 = virt / 0x400000
  else
    v / 0x1000 = virt / 0x1000

/--
What `unmap_page` must do: take away the page of `virt` and leave every other address as it is, and the whole memory if
`virt` is not mapped.
-/
def Removes (cfg : MemConfig) (t : OwnTables) (virt : Nat) : Prop :=
  ∃ m', cfg.unmapPage t.mem (t.dir + KERNEL_BASE) virt = some m'
    ∧ (∀ v, v < 0x100000000 → t.SamePage virt v → walk m' t.dir v = none)
    ∧ (∀ v, v < 0x100000000 → ¬ t.SamePage virt v → walk m' t.dir v = walk t.mem t.dir v)
    ∧ (walk t.mem t.dir virt = none → ∀ a, m'.load a = t.mem.load a)

/--
The condition under which it does. The address in an entry without the present bit is followed all the same, and what
it leads to must not have the bit. With a table, the slot has a number divisible by 4 and the table is not empty; or
the word that is hit behind the table does not matter, because `virt` is not mapped and the bit is clear; or it is the
directory entry itself, of a table with `virt` alone.
-/
def UnmapOk (t : OwnTables) (virt : Nat) : Prop :=
  let table := frame (t.pde virt)
  let word := t.mem.loadWord (entryAddr table virt)
  let pte := t.mem.loadWord (pteAddr table virt)
  bit (t.pde virt) 7 = 1
    ∨ (Reached table virt
      ∧ if bit (t.pde virt) 0 = 0 then
          bit word 0 = 0
        else if virt / 0x400000 % 4 = 0 then
          HasEntry t.mem table
        else if bit pte 0 = 0 then
          bit word 0 = 0 ∧ HasEntry t.mem table
        else
          entryAddr table virt = pdeAddr t.dir virt
            ∧ ∀ i, i < 1024 → i ≠ virt / 0x1000 % 0x400 → bit (t.mem.loadWord (table + 4 * i)) 0 = 0)

theorem pdeAddr_mod (t : OwnTables) (v : Nat) : pdeAddr t.dir v % 4 = 0 := by
  have haligned := t.aligned
  simp only [PAGE_SIZE] at haligned
  unfold pdeAddr
  omega

theorem dir_mod (t : OwnTables) : t.dir % 4 = 0 := by
  have haligned := t.aligned
  simp only [PAGE_SIZE] at haligned
  omega

theorem pteAddr_mod (w v : Nat) : pteAddr (frame w) v % 4 = 0 := by
  have hframe := frame_mod w
  unfold pteAddr
  omega

theorem entryAddr_mod (w v : Nat) : entryAddr (frame w) v % 4 = 0 := by
  have hframe := frame_mod w
  unfold entryAddr PageTables.ptePtr
  omega

theorem frame_le {w : Nat} (hw : w < 0x100000000) : frame w + 0x1000 ≤ 0x100000000 := by
  unfold frame
  omega

theorem entryAddr_of_slot {w : Nat} (hw : w < 0x100000000) (hslot : virt / 0x400000 % 4 = 0)
    : entryAddr (frame w) virt = pteAddr (frame w) virt := by
  have hframe := frame_le hw
  unfold entryAddr PageTables.ptePtr pteAddr
  omega

theorem entryAddr_of_other_slot {w : Nat} (hw : w < 0x100000000) (hslot : virt / 0x400000 % 4 ≠ 0) (i : Nat)
    (hi : i < 1024)
    : frame w + 4 * i ≠ entryAddr (frame w) virt := by
  have hframe := frame_le hw
  unfold entryAddr PageTables.ptePtr
  omega

theorem pdeAddr_ne (hslot : v / 0x400000 ≠ virt / 0x400000) : pdeAddr t.dir v ≠ pdeAddr t.dir virt := by
  unfold pdeAddr
  omega

theorem pteAddr_ne_pdeAddr (hv : v < 0x100000000) (hvirt : virt < 0x100000000) (htable : IsTable (t.pde v))
    : pteAddr (frame (t.pde v)) v ≠ pdeAddr t.dir virt := by
  have haligned := t.aligned
  have hframe := frame_mod (t.pde v)
  have hne : frame (t.pde v) ≠ t.dir := t.table_ne (v / 0x400000) (by omega) htable
  simp only [PAGE_SIZE] at haligned
  unfold pteAddr pdeAddr
  omega

theorem pteAddr_ne (hv : v < 0x100000000) (hvirt : virt < 0x100000000) (htable : IsTable (t.pde v))
    (htable' : IsTable (t.pde virt)) (hpage : v / 0x1000 ≠ virt / 0x1000)
    : pteAddr (frame (t.pde v)) v ≠ pteAddr (frame (t.pde virt)) virt := by
  have hframe := frame_mod (t.pde v)
  have hframe' := frame_mod (t.pde virt)
  have hinj := t.table_inj (v / 0x400000) (virt / 0x400000) (by omega) (by omega) htable htable'
  intro heq
  unfold pteAddr at heq
  have hslot := hinj (show frame (t.pde v) = frame (t.pde virt) by omega)
  rw [pde, pde, pdeAddr, pdeAddr, hslot] at heq
  omega

theorem samePage_iff (hnot : ¬ (bit (t.pde virt) 0 = 1 ∧ bit (t.pde virt) 7 = 1))
    : t.SamePage virt v ↔ v / 0x1000 = virt / 0x1000 := by
  rw [SamePage, if_neg hnot]

theorem removes_of_same (hnot : ¬ (bit (t.pde virt) 0 = 1 ∧ bit (t.pde virt) 7 = 1))
    (hunmap : cfg.unmapPage t.mem (t.dir + KERNEL_BASE) virt = some m')
    (hsame : ∀ a, m'.load a = t.mem.load a) (hwalk : walk t.mem t.dir virt = none)
    : Removes cfg t virt := by
  refine ⟨m', hunmap, ?_, ?_, fun _ => hsame⟩
  . intro v _ hv
    rw [walk_congr_load hsame, walk_none_congr ((samePage_iff hnot).mp hv)]
    exact hwalk
  . intro v _ _
    exact walk_congr_load hsame t.dir v

theorem not_removes_of_changed {a : Nat} (hunmap : cfg.unmapPage t.mem (t.dir + KERNEL_BASE) virt = some m')
    (hwalk : walk t.mem t.dir virt = none) (hone : bit (t.mem.loadWord a) 0 = 1) (hzero : bit (m'.loadWord a) 0 = 0)
    : ¬ Removes cfg t virt := by
  rintro ⟨m'', hunmap', -, -, hsame⟩
  obtain rfl : m' = m'' := Option.some.inj (hunmap.symm.trans hunmap')
  have hword : m'.loadWord a = t.mem.loadWord a := Memory.loadWord_congr _ _ _ (fun b _ _ => hsame hwalk b)
  rw [hword] at hzero
  omega

theorem walk_drop_pde_of_ne (hv : v < 0x100000000) (hvirt : virt < 0x100000000)
    (hslot : v / 0x400000 ≠ virt / 0x400000)
    : walk (drop t.mem (pdeAddr t.dir virt)) t.dir v = walk t.mem t.dir v :=
  walk_drop_of_ne t.dir_mod (t.pdeAddr_mod virt) (pdeAddr_ne hslot) (fun htable => pteAddr_ne_pdeAddr hv hvirt htable)

theorem removes_of_pse (hvirt : virt < 0x100000000) (hpse : bit (t.pde virt) 7 = 1) : Removes cfg t virt := by
  have hunmap := @unmapPage_of_pse cfg t.mem t.dir virt t.low hvirt hpse
  by_cases hpresent : bit (t.pde virt) 0 = 1
  . have hpage (v : Nat) : t.SamePage virt v ↔ v / 0x400000 = virt / 0x400000 := by
      rw [SamePage, if_pos ⟨hpresent, hpse⟩]
    refine ⟨_, hunmap, ?_, ?_, ?_⟩
    . intro v _ hv
      exact walk_drop_pde ((hpage v).mp hv)
    . intro v hv hne
      exact walk_drop_pde_of_ne hv hvirt (mt (hpage v).mpr hne)
    . intro hwalk
      rw [pde] at hpresent hpse
      simp [walk, hpresent, hpse] at hwalk
  . have habsent : bit (t.pde virt) 0 = 0 := bit_ne_one.mp hpresent
    exact removes_of_same (fun h => hpresent h.1) hunmap (load_drop_of_bit habsent) (walk_of_not_present habsent)

section NoPse

variable (hvirt : virt < 0x100000000) (hpse : bit (t.pde virt) 7 = 0)

include hvirt hpse

theorem removes_iff_of_absent (hreached : Reached (frame (t.pde virt)) virt) (habsent : bit (t.pde virt) 0 = 0)
    : Removes cfg t virt ↔ bit (t.mem.loadWord (entryAddr (frame (t.pde virt)) virt)) 0 = 0 := by
  obtain ⟨m', hunmap, hload⟩ :=
    @exists_unmapPage_of_absent cfg t.mem t.dir virt _ t.low hvirt hpse rfl t.dir_mod hreached habsent
  have hwalk := walk_of_not_present habsent
  constructor
  . intro hremoves
    by_contra hword
    refine not_removes_of_changed hunmap hwalk (bit_ne_zero.mp hword) ?_ hremoves
    rw [Memory.loadWord_congr _ _ _ (fun b _ _ => hload b)]
    exact bit_drop_self _ _
  . intro hword
    refine removes_of_same (fun h => ?_) hunmap (fun a => ?_) hwalk
    . omega
    . rw [hload]
      exact load_drop_of_bit hword a

theorem exists_unmapPage_behind (hreached : Reached (frame (t.pde virt)) virt) (hslot : virt / 0x400000 % 4 ≠ 0)
    : ∃ m', cfg.unmapPage t.mem (t.dir + KERNEL_BASE) virt = some m'
        ∧ (HasEntry t.mem (frame (t.pde virt)) → m' = drop t.mem (entryAddr (frame (t.pde virt)) virt))
        ∧ (¬ HasEntry t.mem (frame (t.pde virt)) →
          m' = drop (drop t.mem (entryAddr (frame (t.pde virt)) virt)) (pdeAddr t.dir virt)) := by
  have hframe := frame_mod (t.pde virt)
  have hmod := entryAddr_mod (t.pde virt) virt
  -- the entry that is cleared is none of the table
  have hentries : HasEntry (drop t.mem (entryAddr (frame (t.pde virt)) virt)) (frame (t.pde virt))
      ↔ HasEntry t.mem (frame (t.pde virt)) := by
    refine ⟨hasEntry_of_drop hmod hframe, ?_⟩
    rintro ⟨i, hi, hbit⟩
    have hbehind : frame (t.pde virt) + 4 * i ≠ entryAddr (frame (t.pde virt)) virt :=
      entryAddr_of_other_slot (t.mem.loadWord_lt _) hslot i hi
    refine ⟨i, hi, ?_⟩
    rw [loadWord_drop_of_ne hmod (by omega) hbehind]
    exact hbit
  obtain ⟨m', hunmap, hkept, hdropped⟩ :=
    @exists_unmapPage cfg t.mem t.dir virt _ t.low hvirt hpse rfl hreached
  rw [← pde, hentries] at hkept hdropped
  exact ⟨m', hunmap, hkept, hdropped⟩

section Table

variable (hpresent : bit (t.pde virt) 0 = 1)

include hpresent

theorem walk_drop_entry_of_ne (hv : v < 0x100000000) (hne : v / 0x1000 ≠ virt / 0x1000)
    : walk (drop t.mem (pteAddr (frame (t.pde virt)) virt)) t.dir v = walk t.mem t.dir v :=
  walk_drop_of_ne t.dir_mod (pteAddr_mod _ _) (pteAddr_ne_pdeAddr hvirt hv ⟨hpresent, hpse⟩).symm
    (fun htable => pteAddr_ne hv hvirt htable ⟨hpresent, hpse⟩ hne)

theorem walk_drop_table_of_ne
    (hnone : ¬ HasEntry (drop t.mem (pteAddr (frame (t.pde virt)) virt)) (frame (t.pde virt)))
    (hv : v < 0x100000000) (hne : v / 0x1000 ≠ virt / 0x1000)
    : walk (drop (drop t.mem (pteAddr (frame (t.pde virt)) virt)) (pdeAddr t.dir virt)) t.dir v
        =
      walk t.mem t.dir v := by
  have hpde : (drop t.mem (pteAddr (frame (t.pde virt)) virt)).loadWord (pdeAddr t.dir v)
      = t.mem.loadWord (pdeAddr t.dir v) :=
    loadWord_drop_of_ne (pteAddr_mod _ _) (t.pdeAddr_mod v) (pteAddr_ne_pdeAddr hvirt hv ⟨hpresent, hpse⟩).symm
  rw [← walk_drop_entry_of_ne hvirt hpse hpresent hv hne]
  by_cases hslot : v / 0x400000 = virt / 0x400000
  . rw [walk_drop_pde hslot]
    rw [pdeAddr_congr hslot] at hpde
    symm
    apply walk_of_not_hasEntry
    . rw [pdeAddr_congr hslot, hpde]
      exact ⟨hpresent, hpse⟩
    . rw [pdeAddr_congr hslot, hpde]
      exact hnone
  . apply walk_drop_of_ne t.dir_mod (t.pdeAddr_mod virt) (pdeAddr_ne hslot)
    rw [hpde]
    exact fun htable => pteAddr_ne_pdeAddr hv hvirt htable

variable (hreached : Reached (frame (t.pde virt)) virt)

include hreached

theorem removes_iff_of_slot (hslot : virt / 0x400000 % 4 = 0)
    : Removes cfg t virt ↔ HasEntry t.mem (frame (t.pde virt)) := by
  have htable : IsTable (t.pde virt) := ⟨hpresent, hpse⟩
  have hentry : entryAddr (frame (t.pde virt)) virt = pteAddr (frame (t.pde virt)) virt :=
    entryAddr_of_slot (t.mem.loadWord_lt _) hslot
  obtain ⟨m', hunmap, hkept, hdropped⟩ :=
    @exists_unmapPage cfg t.mem t.dir virt _ t.low hvirt hpse rfl hreached
  rw [← pde, hentry] at hkept hdropped
  have hpage (v : Nat) : t.SamePage virt v ↔ v / 0x1000 = virt / 0x1000 := samePage_iff (fun h => by omega)
  constructor
  . intro hremoves
    by_contra hnone
    have hwalk := walk_of_not_hasEntry htable hnone
    refine not_removes_of_changed hunmap hwalk hpresent ?_ hremoves
    rw [hdropped (mt (hasEntry_of_drop (pteAddr_mod _ _) (frame_mod _)) hnone)]
    exact bit_drop_self _ _
  . intro hsome
    have hsame (hwalk : walk t.mem t.dir virt = none) (a : Nat)
        : (drop t.mem (pteAddr (frame (t.pde virt)) virt)).load a = t.mem.load a :=
      load_drop_of_bit ((walk_eq_none_iff htable).mp hwalk) a
    by_cases hleft : HasEntry (drop t.mem (pteAddr (frame (t.pde virt)) virt)) (frame (t.pde virt))
    . rw [hkept hleft] at hunmap
      refine ⟨_, hunmap, ?_, ?_, hsame⟩
      . intro v _ hv
        rw [walk_none_congr ((hpage v).mp hv)]
        exact walk_drop_pte t.dir_mod htable rfl (pteAddr_ne_pdeAddr hvirt hvirt htable).symm
      . intro v hv hne
        exact walk_drop_entry_of_ne hvirt hpse hpresent hv (mt (hpage v).mpr hne)
    . rw [hdropped hleft] at hunmap
      refine ⟨_, hunmap, ?_, ?_, ?_⟩
      . intro v _ hv
        apply walk_drop_pde
        have hv' := (hpage v).mp hv
        omega
      . intro v hv hne
        exact walk_drop_table_of_ne hvirt hpse hpresent hleft hv (mt (hpage v).mpr hne)
      . -- the entry that went was there, so that `virt` was mapped
        intro hwalk
        obtain ⟨i, hi, hbit⟩ := hsome
        refine absurd ⟨i, hi, ?_⟩ hleft
        rw [Memory.loadWord_congr _ _ _ (fun b _ _ => hsame hwalk b)]
        exact hbit

section OtherSlot

variable (hslot : virt / 0x400000 % 4 ≠ 0)

include hslot

theorem removes_iff_of_unmapped (habsent : bit (t.mem.loadWord (pteAddr (frame (t.pde virt)) virt)) 0 = 0)
    : Removes cfg t virt
        ↔
      bit (t.mem.loadWord (entryAddr (frame (t.pde virt)) virt)) 0 = 0 ∧ HasEntry t.mem (frame (t.pde virt)) := by
  obtain ⟨m', hunmap, hkept, hdropped⟩ := @exists_unmapPage_behind cfg _ _ hvirt hpse hreached hslot
  have hwalk : walk t.mem t.dir virt = none := (walk_eq_none_iff ⟨hpresent, hpse⟩).mpr habsent
  constructor
  . intro hremoves
    have hsome : HasEntry t.mem (frame (t.pde virt)) := by
      by_contra hnone
      refine not_removes_of_changed hunmap hwalk hpresent ?_ hremoves
      rw [hdropped hnone]
      exact bit_drop_self _ _
    refine ⟨?_, hsome⟩
    by_contra hword
    refine not_removes_of_changed hunmap hwalk (bit_ne_zero.mp hword) ?_ hremoves
    rw [hkept hsome]
    exact bit_drop_self _ _
  . rintro ⟨hzero, hsome⟩
    rw [hkept hsome] at hunmap
    exact removes_of_same (fun h => by omega) hunmap (load_drop_of_bit hzero) hwalk

theorem removes_iff_of_mapped (hmapped : ¬ bit (t.mem.loadWord (pteAddr (frame (t.pde virt)) virt)) 0 = 0)
    : Removes cfg t virt
        ↔
      entryAddr (frame (t.pde virt)) virt = pdeAddr t.dir virt
        ∧ ∀ i, i < 1024 → i ≠ virt / 0x1000 % 0x400 →
          bit (t.mem.loadWord (frame (t.pde virt) + 4 * i)) 0 = 0 := by
  have htable : IsTable (t.pde virt) := ⟨hpresent, hpse⟩
  obtain ⟨m', hunmap, hkept, -⟩ := @exists_unmapPage_behind cfg _ _ hvirt hpse hreached hslot
  have hwalk : ¬ walk t.mem t.dir virt = none := mt (walk_eq_none_iff htable).mp hmapped
  have hsome : HasEntry t.mem (frame (t.pde virt)) := by
    by_contra hnone
    exact hmapped (bit_of_not_hasEntry hnone (Nat.mod_lt _ (by decide)))
  rw [hkept hsome] at hunmap
  have hpage (v : Nat) : t.SamePage virt v ↔ v / 0x1000 = virt / 0x1000 := samePage_iff (fun h => by omega)
  by_cases hself : entryAddr (frame (t.pde virt)) virt = pdeAddr t.dir virt
  . -- the directory entry of `virt` is hit, and the whole slot goes
    rw [and_iff_right hself]
    rw [hself] at hunmap
    constructor
    . rintro ⟨m'', hunmap', -, hother, -⟩ i hi hne
      obtain rfl : _ = m'' := Option.some.inj (hunmap.symm.trans hunmap')
      have hentry := hother (virt / 0x400000 * 0x400000 + i * 0x1000) (by omega) (fun h => by
        have h' := (hpage _).mp h
        omega)
      rw [walk_drop_pde (by omega)] at hentry
      exact (walk_entry_eq_none_iff hi htable).mp hentry.symm
    . intro hothers
      refine ⟨_, hunmap, ?_, ?_, fun h => absurd h hwalk⟩
      . intro v _ hv
        apply walk_drop_pde
        have hv' := (hpage v).mp hv
        omega
      . intro v hv hne
        have hne' := mt (hpage v).mpr hne
        by_cases hslot' : v / 0x400000 = virt / 0x400000
        . have hpde := pdeAddr_congr hslot' t.dir
          rw [walk_drop_pde hslot']
          symm
          rw [walk_eq_none_iff (by rw [hpde]; exact htable), hpde]
          exact hothers _ (Nat.mod_lt _ (by decide)) (by omega)
        . exact walk_drop_pde_of_ne hv hvirt hslot'
  . refine iff_of_false ?_ (fun h => hself h.1)
    rintro ⟨m'', hunmap', hgone, -⟩
    obtain rfl : _ = m'' := Option.some.inj (hunmap.symm.trans hunmap')
    have hnone := hgone virt hvirt ((hpage virt).mpr rfl)
    rw [walk_drop_of_ne t.dir_mod (entryAddr_mod _ _) (Ne.symm hself)] at hnone
    . exact hwalk hnone
    . exact fun _ => entryAddr_of_other_slot (t.mem.loadWord_lt _) hslot _ (Nat.mod_lt _ (by decide))

end OtherSlot

end Table

end NoPse

theorem removes_iff_unmapOk (cfg : MemConfig) (t : OwnTables) (virt : Nat) (hvirt : virt < 0x100000000)
    : Removes cfg t virt ↔ UnmapOk t virt := by
  unfold UnmapOk
  by_cases hpse : bit (t.pde virt) 7 = 1
  . exact iff_of_true (removes_of_pse hvirt hpse) (Or.inl hpse)
  rw [or_iff_right hpse]
  have hpse' : bit (t.pde virt) 7 = 0 := bit_ne_one.mp hpse
  by_cases hreached : Reached (frame (t.pde virt)) virt
  . rw [and_iff_right hreached]
    split
    . next habsent => exact removes_iff_of_absent hvirt hpse' hreached habsent
    . next hpresent =>
      have hpresent' : bit (t.pde virt) 0 = 1 := bit_ne_zero.mp hpresent
      split
      . next hslot => exact removes_iff_of_slot hvirt hpse' hpresent' hreached hslot
      . next hslot =>
        split
        . next habsent => exact removes_iff_of_unmapped hvirt hpse' hpresent' hreached hslot habsent
        . next hmapped => exact removes_iff_of_mapped hvirt hpse' hpresent' hreached hslot hmapped
  . refine iff_of_false ?_ (fun h => hreached h.1)
    rintro ⟨m', hunmap, -⟩
    rw [unmapPage_of_not_reached t.low hvirt hpse' rfl hreached] at hunmap
    cases hunmap

def onePageMemory : Memory where
  cell := fun a =>
    if a = 0 then 0x53
    else if a = 0x1000 ∨ a = 0x2014 then 7
    else if a = 0x1001 then 0x20
    else if a = 0x2016 then 0x30
    else 0
  log := []

theorem eq_zero_of_isTable {i : Nat} (hi : i < 1024) (h : IsTable (onePageMemory.loadWord (0x1000 + 4 * i)))
    : i = 0 := by
  by_contra hne
  have hload {a : Nat} (hlo : 0x1004 ≤ a) (hhi : a < 0x2000) : onePageMemory.load a = 0 := by
    simp only [Memory.load, onePageMemory]
    rw [if_neg (by omega), if_neg (by omega), if_neg (by omega), if_neg (by omega)]
  have hzero : onePageMemory.loadWord (0x1000 + 4 * i) = 0 := by
    unfold Memory.loadWord
    rw [hload (by omega) (by omega), hload (by omega) (by omega), hload (by omega) (by omega),
      hload (by omega) (by omega)]
    rfl
  rw [hzero] at h
  exact absurd h.1 (by decide)

def onePage : OwnTables where
  mem := onePageMemory
  dir := 0x1000
  aligned := rfl
  low := by decide
  table_ne := by
    intro i hi htable
    rw [eq_zero_of_isTable hi htable]
    decide
  table_inj := by
    intro i j hi hj htable htable' _
    rw [eq_zero_of_isTable hi htable, eq_zero_of_isTable hj htable']

theorem removes_iff_unmapOk_onePage : Removes PageDir.exampleConfig onePage 0x5000 := by
  rw [removes_iff_unmapOk _ _ _ (by decide)]
  refine Or.inr ⟨by decide, ?_⟩
  rw [if_neg (by decide), if_pos (by decide)]
  exact ⟨5, by decide, by decide⟩

/--
The page at `0x400000` is not mapped and its directory entry is 0. The word that loses its present bit is the one at
`0x1000`, the first entry of the directory.
-/
theorem not_removes : ¬ Removes PageDir.exampleConfig onePage 0x400000 := by
  rw [removes_iff_of_absent (by decide) (by decide) (by decide) (by decide)]
  decide

end OwnTables
end Osproj
