import Osproj.Mm.Lemmas.OwnTables

/-!
This module contains when `map_page` and `map_huge_page` refuse, over whole runs on a directory that starts empty. The
bits that `unmap_page` leaves behind and the tables that are already there decide it.
-/

namespace Osproj

open Paging

namespace DirOp

variable {cfg : MemConfig} {dir virt phy page : Nat} {perm rw : BitVec 8} {m m' : Memory}

def SameTables (dir : Nat) (m m' : Memory) : Prop :=
  ∀ i, i < 1024 → m'.loadWord (dir + 4 * i) = m.loadWord (dir + 4 * i)
    ∧ (IsTable (m.loadWord (dir + 4 * i)) → ∀ j, j < 1024 →
      m'.loadWord (frame (m.loadWord (dir + 4 * i)) + 4 * j) = m.loadWord (frame (m.loadWord (dir + 4 * i)) + 4 * j))

def SlotMapped (dir : Nat) (m : Memory) (virt : Nat) : Prop :=
  ∃ v, v < 0x100000000 ∧ v / 0x400000 = virt / 0x400000 ∧ walk m dir v ≠ none

/--
The call comes back. It is refused, with the tables as they were, exactly if it has to be, and has mapped `virt`
otherwise.
-/
def Answers (dir : Nat) (m : Memory) (virt : Nat) (refused : Prop) (ret : Option (Option Int × Memory)) : Prop :=
  ∃ r m', ret = some (r, m')
    ∧ (r = some (-1) ↔ refused)
    ∧ (r = some (-1) → SameTables dir m m')
    ∧ (r ≠ some (-1) → walk m' dir virt ≠ none)

/--
What a call has to do. After `unmap_page` the address is not mapped, so that the next call may map it.
-/
def RefusesRightly (cfg : MemConfig) (dir : Nat) (m : Memory) : DirOp → Prop
  | .map page phy virt perm rw =>
    Answers dir m virt.toNat (walk m dir virt.toNat ≠ none ∨ page = 0)
      (mapPage m page (dir + KERNEL_BASE) phy.toNat virt.toNat perm rw)
  | .mapHuge phy virt perm rw =>
    Answers dir m virt.toNat (SlotMapped dir m virt.toNat)
      (mapHugePage m (dir + KERNEL_BASE) phy.toNat virt.toNat perm rw)
  | .unmap virt =>
    ∃ m', cfg.unmapPage m (dir + KERNEL_BASE) virt.toNat = some m' ∧ walk m' dir virt.toNat = none

/--
The condition under which it does. `map_page` finds the bit of a 4 MB page, and this page is there (or there is no
page for a table), or it finds no table, has a page and the number of the slot is a multiple of 4. The table that
`map_huge_page` finds is not empty. The address in the entry that `unmap_page` finds can be followed.
-/
def RefusalOk (dir : Nat) (m : Memory) : DirOp → Prop
  | .map page _ virt _ _ =>
    let pde := m.loadWord (pdeAddr dir virt.toNat)
    if bit pde 7 = 1 then
      bit pde 0 = 1 ∨ page = 0
    else
      bit pde 0 = 0 ∧ page ≠ 0 ∧ virt.toNat / 0x400000 % 4 = 0
  | .mapHuge _ virt _ _ =>
    let pde := m.loadWord (pdeAddr dir virt.toNat)
    IsTable pde → HasEntry m (frame pde)
  | .unmap virt =>
    let pde := m.loadWord (pdeAddr dir virt.toNat)
    bit pde 7 = 1 ∨ bit pde 0 = 1 ∨ MemConfig.Reached (frame pde) virt.toNat

structure IsFresh (dir : Nat) (m : Memory) (page : Nat) : Prop where
  kernel : KERNEL_BASE ≤ page
  aligned : (page - KERNEL_BASE) % PAGE_SIZE = 0
  low : page - KERNEL_BASE + PAGE_SIZE ≤ 0x40000000
  ne_dir : page - KERNEL_BASE ≠ dir
  ne_table : ∀ i, i < 1024 → IsTable (m.loadWord (dir + 4 * i)) →
    frame (m.loadWord (dir + 4 * i)) ≠ page - KERNEL_BASE

/--
`palloc` returns a fresh page or none.
-/
def Offered (dir : Nat) (m : Memory) : DirOp → Prop
  | .map page _ _ _ _ => page = 0 ∨ IsFresh dir m page
  | _ => True

/--
The tables are pages of their own, in memory that the kernel reaches, and only in slots where the entry that the code
takes is the right one.
-/
structure Inv (dir : Nat) (m : Memory) : Prop where
  aligned : dir % PAGE_SIZE = 0
  low : dir + PAGE_SIZE ≤ 0x40000000
  table_low : ∀ i, i < 1024 → IsTable (m.loadWord (dir + 4 * i)) →
    frame (m.loadWord (dir + 4 * i)) + PAGE_SIZE ≤ 0x40000000
  table_ne : ∀ i, i < 1024 → IsTable (m.loadWord (dir + 4 * i)) → frame (m.loadWord (dir + 4 * i)) ≠ dir
  table_inj : ∀ i j, i < 1024 → j < 1024 → IsTable (m.loadWord (dir + 4 * i)) →
    IsTable (m.loadWord (dir + 4 * j)) →
    frame (m.loadWord (dir + 4 * i)) = frame (m.loadWord (dir + 4 * j)) → i = j
  slot : ∀ i, i < 1024 → IsTable (m.loadWord (dir + 4 * i)) → i % 4 = 0

def Inv.tables (hinv : Inv dir m) : PageTables where
  mem := m
  dir := dir
  aligned := hinv.aligned
  low := hinv.low
  table_low := hinv.table_low
  table_ne := hinv.table_ne

def Inv.ownTables (hinv : Inv dir m) : OwnTables where
  mem := m
  dir := dir
  aligned := hinv.aligned
  low := hinv.low
  table_ne := hinv.table_ne
  table_inj := hinv.table_inj

def Inv.freshPage (hinv : Inv dir m) (hfresh : IsFresh dir m page) : FreshPage hinv.tables where
  addr := page - KERNEL_BASE
  aligned := hfresh.aligned
  low := hfresh.low
  ne_dir := hfresh.ne_dir
  ne_table := hfresh.ne_table

theorem sameTables_refl (dir : Nat) (m : Memory) : SameTables dir m m :=
  fun _ _ => ⟨rfl, fun _ _ _ => rfl⟩

theorem Inv.of_tables (hinv : Inv dir m)
    (h : ∀ i, i < 1024 → IsTable (m'.loadWord (dir + 4 * i)) → m'.loadWord (dir + 4 * i) = m.loadWord (dir + 4 * i))
    : Inv dir m' where
  aligned := hinv.aligned
  low := hinv.low
  table_low := by
    intro i hi htable
    have hword := h i hi htable
    rw [hword] at htable ⊢
    exact hinv.table_low i hi htable
  table_ne := by
    intro i hi htable
    have hword := h i hi htable
    rw [hword] at htable ⊢
    exact hinv.table_ne i hi htable
  table_inj := by
    intro i j hi hj htable htable'
    have hword := h i hi htable
    have hword' := h j hj htable'
    rw [hword] at htable ⊢
    rw [hword'] at htable' ⊢
    exact hinv.table_inj i j hi hj htable htable'
  slot := by
    intro i hi htable
    have hword := h i hi htable
    rw [hword] at htable
    exact hinv.slot i hi htable

theorem Inv.addTable (hinv : Inv dir m) (hfresh : IsFresh dir m page) {s : Nat} (hslot : s % 4 = 0)
    (hnew : m'.loadWord (dir + 4 * s) = page - KERNEL_BASE + 7)
    (hold : ∀ i, i < 1024 → i ≠ s → m'.loadWord (dir + 4 * i) = m.loadWord (dir + 4 * i))
    : Inv dir m' := by
  have hframe : frame (m'.loadWord (dir + 4 * s)) = page - KERNEL_BASE := by
    have haligned := hfresh.aligned
    simp only [PAGE_SIZE] at haligned
    rw [hnew, frame]
    omega
  refine ⟨hinv.aligned, hinv.low, ?_, ?_, ?_, ?_⟩
  . intro i hi htable
    by_cases heq : i = s
    . rw [heq, hframe]
      exact hfresh.low
    . rw [hold i hi heq] at htable ⊢
      exact hinv.table_low i hi htable
  . intro i hi htable
    by_cases heq : i = s
    . rw [heq, hframe]
      exact hfresh.ne_dir
    . rw [hold i hi heq] at htable ⊢
      exact hinv.table_ne i hi htable
  . intro i j hi hj htable htable' hframes
    by_cases heq : i = s
    . by_cases heq' : j = s
      . rw [heq, heq']
      . rw [heq, hframe] at hframes
        rw [hold j hj heq'] at htable' hframes
        exact absurd hframes.symm (hfresh.ne_table j hj htable')
    . rw [hold i hi heq] at htable hframes
      by_cases heq' : j = s
      . rw [heq', hframe] at hframes
        exact absurd hframes (hfresh.ne_table i hi htable)
      . rw [hold j hj heq'] at htable' hframes
        exact hinv.table_inj i j hi hj htable htable' hframes
  . intro i hi htable
    by_cases heq : i = s
    . rw [heq]
      exact hslot
    . rw [hold i hi heq] at htable
      exact hinv.slot i hi htable

theorem Inv.drop (hinv : Inv dir m) {a : Nat} (ha : a % 4 = 0) : Inv dir (Paging.drop m a) := by
  have haligned := hinv.aligned
  simp only [PAGE_SIZE] at haligned
  apply hinv.of_tables
  intro i _ htable
  by_cases heq : dir + 4 * i = a
  . have hone := htable.1
    rw [heq, bit_drop_self] at hone
    omega
  . exact loadWord_drop_of_ne ha (by omega) heq

theorem Inv.table (hinv : Inv dir m) (hvirt : virt < 0x100000000) (htable : IsTable (m.loadWord (pdeAddr dir virt)))
    : virt / 0x400000 % 4 = 0 ∧ MemConfig.Reached (frame (m.loadWord (pdeAddr dir virt))) virt := by
  have hslot := hinv.slot (virt / 0x400000) (by omega) htable
  have hlow := hinv.table_low (virt / 0x400000) (by omega) htable
  refine ⟨hslot, ?_⟩
  rw [← pdeAddr] at hlow
  simp only [PAGE_SIZE] at hlow
  rw [MemConfig.Reached, OwnTables.entryAddr_of_slot (m.loadWord_lt _) hslot]
  unfold InWindow pteAddr
  omega

section MapPage

theorem answers_iff {r : Option Int} {refused : Prop}
    : Answers dir m virt refused (some (r, m'))
        ↔
      (r = some (-1) ↔ refused) ∧ (r = some (-1) → SameTables dir m m') ∧ (r ≠ some (-1) → walk m' dir virt ≠ none) := by
  constructor
  . rintro ⟨r', m'', heq, h⟩
    obtain ⟨rfl, rfl⟩ := Prod.mk.inj (Option.some.inj heq)
    exact h
  . exact fun h => ⟨r, m', rfl, h⟩

theorem not_answers_none {refused : Prop} : ¬ Answers dir m virt refused none := by
  rintro ⟨r, m', heq, -⟩
  cases heq

theorem answers_refused {refused : Prop} : Answers dir m virt refused (some (some (-1), m)) ↔ refused := by
  rw [answers_iff]
  constructor
  . intro h
    exact h.1.mp rfl
  . intro hrefused
    exact ⟨iff_of_true rfl hrefused, fun _ => sameTables_refl dir m, fun hne => absurd rfl hne⟩

theorem answers_done {refused : Prop} (hnot : ¬ refused)
    : Answers dir m virt refused (some (none, m')) ↔ walk m' dir virt ≠ none := by
  rw [answers_iff]
  constructor
  . intro h
    exact h.2.2 (by simp)
  . intro hwalk
    exact ⟨iff_of_false (by simp) hnot, fun h => by simp at h, fun _ => hwalk⟩

theorem walk_ne_none_of_pse (hpse : bit (m.loadWord (pdeAddr dir virt)) 7 = 1)
    : walk m dir virt ≠ none ↔ bit (m.loadWord (pdeAddr dir virt)) 0 = 1 := by
  by_cases hpresent : bit (m.loadWord (pdeAddr dir virt)) 0 = 0
  . refine iff_of_false (fun h => h (walk_of_not_present hpresent)) ?_
    omega
  . refine iff_of_true ?_ (bit_ne_zero.mp hpresent)
    simp [walk, hpresent, hpse]

theorem mapPage_null (hlow : dir + PAGE_SIZE ≤ 0x40000000) (hvirt : virt < 0x100000000)
    (hpse : bit (m.loadWord (pdeAddr dir virt)) 7 = 0) (hpresent : bit (m.loadWord (pdeAddr dir virt)) 0 = 0)
    : mapPage m 0 (dir + KERNEL_BASE) phy virt perm rw = none := by
  have hpse' : ¬ (Pde.ofWord (m.loadWord (pdeAddr dir virt))).pse = 1 := by
    rw [PageTables.pse_iff]
    omega
  have hpresent' := (PageTables.pde_present_iff _).mpr hpresent
  have hnull : linear 0 = none := by decide
  simp only [mapPage, PageTables.linear_dir hlow hvirt, Option.bind_eq_bind, Option.bind_some, if_neg hpse',
    if_pos hpresent', mapPage.createPage, hnull, Option.bind_none]

variable (hinv : Inv dir m) (hvirt : virt < 0x100000000) (hphy : phy < 0x100000000)
  (hpse : bit (m.loadWord (pdeAddr dir virt)) 7 = 0) (hpresent : bit (m.loadWord (pdeAddr dir virt)) 0 = 0)

include hinv hvirt hphy hpse hpresent

theorem mapPage_fresh (hfresh : IsFresh dir m page)
    : mapPage m page (dir + KERNEL_BASE) phy virt perm rw
        =
      let p := hinv.freshPage hfresh
      let m' := hinv.tables.withTable p virt
      let a := PageTables.ptePtr p.addr virt
      if a < 0x40000000 then
        if bit (m'.loadWord a) 0 = 1 then
          some (some (-1), m')
        else
          some (none, m'.storeWord a (PageTables.pteWord phy perm rw))
      else
        none := by
  have hmap := @PageTables.mapPage_of_new hinv.tables phy virt perm rw (hinv.freshPage hfresh) hvirt hphy hpse hpresent
  have hpage : (hinv.freshPage hfresh).addr + KERNEL_BASE = page := Nat.sub_add_cancel hfresh.kernel
  rw [hpage] at hmap
  exact hmap

theorem mapPage_slot (hfresh : IsFresh dir m page) (hslot : virt / 0x400000 % 4 = 0)
    : ∃ m', mapPage m page (dir + KERNEL_BASE) phy virt perm rw = some (none, m')
        ∧ walk m' dir virt ≠ none
        ∧ Inv dir m' := by
  have hlow := hfresh.low
  simp only [PAGE_SIZE] at hlow
  let p := hinv.freshPage hfresh
  let m₁ := hinv.tables.withTable p virt
  let m' := m₁.storeWord (pteAddr p.addr virt) (PageTables.pteWord phy perm rw)
  have hp : p.addr = page - KERNEL_BASE := rfl
  have hinside : p.addr ≤ pteAddr p.addr virt ∧ pteAddr p.addr virt + 4 ≤ p.addr + 0x1000 := by
    unfold pteAddr
    omega
  have hreach : pteAddr p.addr virt < 0x40000000 := by omega
  have hempty : m₁.loadWord (pteAddr p.addr virt) = 0 :=
    PageTables.loadWord_withTable_table p hvirt hinside.1 hinside.2
  have hmap : mapPage m page (dir + KERNEL_BASE) phy virt perm rw = some (none, m') := by
    rw [mapPage_fresh hinv hvirt hphy hpse hpresent hfresh]
    dsimp only
    rw [PageTables.ptePtr_eq _ hslot, if_pos hreach, hempty, if_neg (by decide)]
  have hpde : m'.loadWord (pdeAddr dir virt) = p.addr + 7 := PageTables.loadWord_mapped_pde p hvirt _
  refine ⟨m', hmap, ?_, ?_⟩
  . have htable : IsTable (m'.loadWord (pdeAddr dir virt)) := hpde.symm ▸ PageTables.isTable_page p
    obtain ⟨hbit, -⟩ := PageTables.pteWord_bits phy perm rw
    rw [Ne, walk_eq_none_iff htable, hpde, PageTables.frame_page, Memory.loadWord_storeWord_self,
      Nat.mod_eq_of_lt (PageTables.pteWord_lt hphy), hbit]
    decide
  . have hdir := PageTables.dir_apart p
    have htables : hinv.tables.dir = dir := rfl
    apply hinv.addTable hfresh hslot hpde
    intro i hi hne
    rw [Memory.loadWord_storeWord_of_disjoint _ _ _ _ (by omega)]
    apply PageTables.loadWord_withTable_of_ne p (by omega)
    rw [pdeAddr]
    omega

theorem not_answers_other_slot (hfresh : IsFresh dir m page) (hslot : virt / 0x400000 % 4 ≠ 0) {refused : Prop}
    (hnot : ¬ refused)
    : ¬ Answers dir m virt refused (mapPage m page (dir + KERNEL_BASE) phy virt perm rw) := by
  rw [mapPage_fresh hinv hvirt hphy hpse hpresent hfresh]
  dsimp only
  split
  . split
    . rw [answers_iff]
      exact fun h => hnot (h.1.mp rfl)
    . next hword =>
      rw [answers_done hnot, not_not]
      apply PageTables.walk_mapped_behind _ hvirt hslot
      intro heq
      rw [heq, PageTables.loadWord_withTable_pde] at hword
      exact hword (PageTables.isTable_page _).1
  . exact not_answers_none

end MapPage

theorem answers_mapPage_iff (hinv : Inv dir m) (hvirt : virt < 0x100000000) (hphy : phy < 0x100000000)
    (hoffered : page = 0 ∨ IsFresh dir m page)
    : Answers dir m virt (walk m dir virt ≠ none ∨ page = 0) (mapPage m page (dir + KERNEL_BASE) phy virt perm rw)
        ↔
      if bit (m.loadWord (pdeAddr dir virt)) 7 = 1 then
        bit (m.loadWord (pdeAddr dir virt)) 0 = 1 ∨ page = 0
      else
        bit (m.loadWord (pdeAddr dir virt)) 0 = 0 ∧ page ≠ 0 ∧ virt / 0x400000 % 4 = 0 := by
  split
  . next hpse =>
    have hmap : mapPage m page (dir + KERNEL_BASE) phy virt perm rw = some (some (-1), m) :=
      @PageTables.mapPage_of_pse hinv.tables phy virt perm rw hvirt hpse page
    rw [hmap, answers_refused, walk_ne_none_of_pse hpse]
  . next hpse =>
    have hpse' : bit (m.loadWord (pdeAddr dir virt)) 7 = 0 := bit_ne_one.mp hpse
    by_cases hpresent : bit (m.loadWord (pdeAddr dir virt)) 0 = 0
    . rw [and_iff_right hpresent]
      have hwalk := walk_of_not_present hpresent
      cases hoffered with
      | inl hnull =>
        subst hnull
        rw [mapPage_null hinv.low hvirt hpse' hpresent]
        exact iff_of_false not_answers_none (fun h => h.1 rfl)
      | inr hfresh =>
        have hpage : page ≠ 0 := by
          have hkernel := hfresh.kernel
          simp only [KERNEL_BASE] at hkernel
          omega
        have hnot : ¬ (walk m dir virt ≠ none ∨ page = 0) := by
          rintro (h | h)
          . exact h hwalk
          . exact hpage h
        rw [and_iff_right hpage]
        by_cases hslot : virt / 0x400000 % 4 = 0
        . obtain ⟨m', hmap, hwalk', -⟩ := @mapPage_slot _ _ phy _ perm rw _ hinv hvirt hphy hpse' hpresent hfresh hslot
          rw [hmap, answers_done hnot]
          exact iff_of_true hwalk' hslot
        . exact iff_of_false (not_answers_other_slot hinv hvirt hphy hpse' hpresent hfresh hslot hnot) hslot
    . -- the table is taken for an address that the kernel has mapped
      have htable : IsTable (m.loadWord (pdeAddr dir virt)) := by
        exact ⟨bit_ne_zero.mp hpresent, hpse'⟩
      have hmap : mapPage m page (dir + KERNEL_BASE) phy virt perm rw = none :=
        @PageTables.mapPage_of_isTable hinv.tables phy virt perm rw hvirt htable page
      rw [hmap]
      exact iff_of_false not_answers_none (fun h => hpresent h.1)

section MapHuge

theorem huge_present_iff (w : Nat) : (HugePde.ofWord w).present = 1 ↔ bit w 0 = 1 := by
  rw [← BitVec.toNat_inj]
  simp [HugePde.ofWord, bit]

theorem bits_huge (e : HugePde) (hpresent : e.present = 1) (hpse : e.pse = 1)
    : bit (e.toWord % 0x100000000) 0 = 1 ∧ bit (e.toWord % 0x100000000) 7 = 1 := by
  have hone : (1 : BitVec 1).toNat = 1 := rfl
  have hrw := e.rw.isLt
  have hus := e.us.isLt
  have hpwt := e.pwt.isLt
  have hpcd := e.pcd.isLt
  have haccessed := e.accessed.isLt
  have hdirty := e.dirty.isLt
  unfold bit HugePde.toWord
  rw [hpresent, hpse, hone]
  omega

theorem slotMapped_iff (hvirt : virt < 0x100000000)
    : SlotMapped dir m virt
        ↔
      bit (m.loadWord (pdeAddr dir virt)) 0 = 1
        ∧ (IsTable (m.loadWord (pdeAddr dir virt)) → HasEntry m (frame (m.loadWord (pdeAddr dir virt)))) := by
  constructor
  . rintro ⟨v, hv, hslot, hwalk⟩
    rw [← pdeAddr_congr hslot]
    refine ⟨?_, ?_⟩
    . by_contra habsent
      exact hwalk (walk_of_not_present (bit_ne_one.mp habsent))
    . intro htable
      by_contra hnone
      exact hwalk (walk_of_not_hasEntry htable hnone)
  . rintro ⟨hpresent, hentry⟩
    by_cases hpse : bit (m.loadWord (pdeAddr dir virt)) 7 = 1
    . exact ⟨virt, hvirt, rfl, (walk_ne_none_of_pse hpse).mpr hpresent⟩
    . have htable : IsTable (m.loadWord (pdeAddr dir virt)) := by
        exact ⟨hpresent, bit_ne_one.mp hpse⟩
      obtain ⟨i, hi, hone⟩ := hentry htable
      refine ⟨virt / 0x400000 * 0x400000 + i * 0x1000, by omega, by omega, ?_⟩
      rw [Ne, walk_entry_eq_none_iff hi htable]
      omega

theorem mapHugePage_present (hlow : dir + PAGE_SIZE ≤ 0x40000000) (hvirt : virt < 0x100000000)
    (hpresent : bit (m.loadWord (pdeAddr dir virt)) 0 = 1)
    : mapHugePage m (dir + KERNEL_BASE) phy virt perm rw = some (some (-1), m) := by
  have hpresent' := (huge_present_iff _).mpr hpresent
  simp only [mapHugePage, PageTables.linear_dir hlow hvirt, Option.bind_eq_bind, Option.bind_some, if_pos hpresent',
    Option.pure_def]

theorem mapHugePage_absent (hlow : dir + PAGE_SIZE ≤ 0x40000000) (hvirt : virt < 0x100000000)
    (hpresent : bit (m.loadWord (pdeAddr dir virt)) 0 = 0)
    : ∃ w, mapHugePage m (dir + KERNEL_BASE) phy virt perm rw = some (none, m.storeWord (pdeAddr dir virt) w)
        ∧ bit (w % 0x100000000) 0 = 1 ∧ bit (w % 0x100000000) 7 = 1 := by
  have hpresent' : ¬ (HugePde.ofWord (m.loadWord (pdeAddr dir virt))).present = 1 := by
    rw [huge_present_iff]
    omega
  simp only [mapHugePage, PageTables.linear_dir hlow hvirt, Option.bind_eq_bind, Option.bind_some, if_neg hpresent',
    Option.pure_def]
  exact ⟨_, rfl, bits_huge _ rfl rfl⟩

theorem answers_mapHugePage_iff (hlow : dir + PAGE_SIZE ≤ 0x40000000) (hvirt : virt < 0x100000000)
    : Answers dir m virt (SlotMapped dir m virt) (mapHugePage m (dir + KERNEL_BASE) phy virt perm rw)
        ↔
      (IsTable (m.loadWord (pdeAddr dir virt)) → HasEntry m (frame (m.loadWord (pdeAddr dir virt)))) := by
  by_cases hpresent : bit (m.loadWord (pdeAddr dir virt)) 0 = 0
  . obtain ⟨w, hmap, hbits⟩ := @mapHugePage_absent dir virt phy perm rw m hlow hvirt hpresent
    have hnot : ¬ SlotMapped dir m virt := by
      rw [slotMapped_iff hvirt]
      omega
    rw [hmap, answers_done hnot]
    refine iff_of_true ?_ (fun htable => ?_)
    . rw [walk_ne_none_of_pse, Memory.loadWord_storeWord_self]
      . exact hbits.1
      . rw [Memory.loadWord_storeWord_self]
        exact hbits.2
    . have hone := htable.1
      omega
  . have hone : bit (m.loadWord (pdeAddr dir virt)) 0 = 1 := bit_ne_zero.mp hpresent
    rw [mapHugePage_present hlow hvirt hone, answers_refused, slotMapped_iff hvirt, and_iff_right hone]

theorem Inv.mapHuge (hinv : Inv dir m) (hvirt : virt < 0x100000000)
    (hmap : (mapHugePage m (dir + KERNEL_BASE) phy virt perm rw).map Prod.snd = some m')
    : Inv dir m' := by
  by_cases hpresent : bit (m.loadWord (pdeAddr dir virt)) 0 = 0
  . obtain ⟨w, hmap', hbits⟩ := @mapHugePage_absent dir virt phy perm rw m hinv.low hvirt hpresent
    rw [hmap', Option.map_some, Option.some.injEq] at hmap
    apply hinv.of_tables
    intro i _ htable
    rw [← hmap] at htable ⊢
    by_cases heq : dir + 4 * i = pdeAddr dir virt
    . -- a 4 MB page is no table
      have hpse := htable.2
      rw [heq, Memory.loadWord_storeWord_self] at hpse
      omega
    . rw [pdeAddr] at heq
      apply Memory.loadWord_storeWord_of_disjoint
      rw [pdeAddr]
      omega
  . have hone : bit (m.loadWord (pdeAddr dir virt)) 0 = 1 := bit_ne_zero.mp hpresent
    rw [mapHugePage_present hinv.low hvirt hone, Option.map_some, Option.some.injEq] at hmap
    rw [← hmap]
    exact hinv

end MapHuge

section Unmap

theorem Inv.pdeAddr_mod (hinv : Inv dir m) (virt : Nat) : pdeAddr dir virt % 4 = 0 :=
  hinv.ownTables.pdeAddr_mod virt

theorem unmapPage_iff (hinv : Inv dir m) (hvirt : virt < 0x100000000)
    : (∃ m', cfg.unmapPage m (dir + KERNEL_BASE) virt = some m' ∧ walk m' dir virt = none)
        ↔
      bit (m.loadWord (pdeAddr dir virt)) 7 = 1 ∨ bit (m.loadWord (pdeAddr dir virt)) 0 = 1
        ∨ MemConfig.Reached (frame (m.loadWord (pdeAddr dir virt))) virt := by
  by_cases hpse : bit (m.loadWord (pdeAddr dir virt)) 7 = 1
  . exact iff_of_true ⟨_, MemConfig.unmapPage_of_pse hinv.low hvirt hpse, walk_drop_pde rfl⟩ (Or.inl hpse)
  rw [or_iff_right hpse]
  have hpse' : bit (m.loadWord (pdeAddr dir virt)) 7 = 0 := bit_ne_one.mp hpse
  have hdir := hinv.ownTables.dir_mod
  by_cases hpresent : bit (m.loadWord (pdeAddr dir virt)) 0 = 1
  . refine iff_of_true ?_ (Or.inl hpresent)
    have htable : IsTable (m.loadWord (pdeAddr dir virt)) := ⟨hpresent, hpse'⟩
    obtain ⟨hslot, hreached⟩ := hinv.table hvirt htable
    obtain ⟨m', hunmap, hkept, hdropped⟩ :=
      @MemConfig.exists_unmapPage cfg m dir virt _ hinv.low hvirt hpse' rfl hreached
    refine ⟨m', hunmap, ?_⟩
    by_cases hentry : HasEntry (Paging.drop m (MemConfig.entryAddr (frame (m.loadWord (pdeAddr dir virt))) virt))
        (frame (m.loadWord (pdeAddr dir virt)))
    . rw [hkept hentry, OwnTables.entryAddr_of_slot (m.loadWord_lt _) hslot]
      exact walk_drop_pte hdir htable rfl (@OwnTables.pteAddr_ne_pdeAddr hinv.ownTables virt virt hvirt hvirt htable).symm
    . rw [hdropped hentry]
      exact walk_drop_pde rfl
  . rw [or_iff_right hpresent]
    have habsent : bit (m.loadWord (pdeAddr dir virt)) 0 = 0 := bit_ne_one.mp hpresent
    constructor
    . rintro ⟨m', hunmap, -⟩
      by_contra hreached
      rw [MemConfig.unmapPage_of_not_reached hinv.low hvirt hpse' rfl hreached] at hunmap
      cases hunmap
    . intro hreached
      obtain ⟨m', hunmap, hload⟩ :=
        @MemConfig.exists_unmapPage_of_absent cfg m dir virt _ hinv.low hvirt hpse' rfl hdir hreached habsent
      refine ⟨m', hunmap, ?_⟩
      rw [walk_congr_load hload]
      apply walk_of_not_present
      exact bit_drop_of_bit (OwnTables.entryAddr_mod _ _) (hinv.pdeAddr_mod virt) habsent

theorem Inv.unmap (hinv : Inv dir m) (hvirt : virt < 0x100000000)
    (hunmap : cfg.unmapPage m (dir + KERNEL_BASE) virt = some m')
    : Inv dir m' := by
  by_cases hpse : bit (m.loadWord (pdeAddr dir virt)) 7 = 1
  . rw [MemConfig.unmapPage_of_pse hinv.low hvirt hpse, Option.some.injEq] at hunmap
    rw [← hunmap]
    exact hinv.drop (hinv.pdeAddr_mod virt)
  . have hpse' : bit (m.loadWord (pdeAddr dir virt)) 7 = 0 := bit_ne_one.mp hpse
    by_cases hreached : MemConfig.Reached (frame (m.loadWord (pdeAddr dir virt))) virt
    . obtain ⟨m'', hunmap', hkept, hdropped⟩ :=
        @MemConfig.exists_unmapPage cfg m dir virt _ hinv.low hvirt hpse' rfl hreached
      obtain rfl : m' = m'' := Option.some.inj (hunmap.symm.trans hunmap')
      have hentryAddr := OwnTables.entryAddr_mod (m.loadWord (pdeAddr dir virt)) virt
      by_cases hentry : HasEntry (Paging.drop m (MemConfig.entryAddr (frame (m.loadWord (pdeAddr dir virt))) virt))
          (frame (m.loadWord (pdeAddr dir virt)))
      . rw [hkept hentry]
        exact hinv.drop hentryAddr
      . rw [hdropped hentry]
        exact (hinv.drop hentryAddr).drop (hinv.pdeAddr_mod virt)
    . rw [MemConfig.unmapPage_of_not_reached hinv.low hvirt hpse' rfl hreached] at hunmap
      cases hunmap

end Unmap

theorem Inv.call_iff (hinv : Inv dir m) {op : DirOp} (hoffered : Offered dir m op)
    : RefusesRightly cfg dir m op ↔ RefusalOk dir m op := by
  cases op with
  | map page phy virt perm rw => exact answers_mapPage_iff hinv virt.isLt phy.isLt hoffered
  | mapHuge phy virt perm rw => exact answers_mapHugePage_iff hinv.low virt.isLt
  | unmap virt => exact unmapPage_iff hinv virt.isLt

theorem Inv.step (hinv : Inv dir m) {op : DirOp} (hoffered : Offered dir m op) (hok : RefusalOk dir m op)
    (hstep : op.step cfg dir m = some m')
    : Inv dir m' := by
  cases op with
  | mapHuge phy virt perm rw => exact hinv.mapHuge virt.isLt hstep
  | unmap virt => exact hinv.unmap virt.isLt hstep
  | map page phy virt perm rw =>
    simp only [DirOp.step] at hstep
    simp only [RefusalOk] at hok
    split at hok
    . next hpse =>
      have hmap : mapPage m page (dir + KERNEL_BASE) phy.toNat virt.toNat perm rw = some (some (-1), m) :=
        @PageTables.mapPage_of_pse hinv.tables phy.toNat virt.toNat perm rw virt.isLt hpse page
      rw [hmap, Option.map_some, Option.some.injEq] at hstep
      rw [← hstep]
      exact hinv
    . next hpse =>
      obtain ⟨hpresent, hpage, hslot⟩ := hok
      have hpse' : bit (m.loadWord (pdeAddr dir virt.toNat)) 7 = 0 := bit_ne_one.mp hpse
      obtain ⟨m'', hmap, -, hinv'⟩ := @mapPage_slot _ _ phy.toNat _ perm rw _ hinv virt.isLt phy.isLt hpse' hpresent
        (hoffered.resolve_left hpage) hslot
      rw [hmap, Option.map_some, Option.some.injEq] at hstep
      rw [← hstep]
      exact hinv'

theorem Inv.guarded_iff (hinv : Inv dir m) {ops : List DirOp}
    (hoffered : Run.Guarded (DirOp.step cfg dir) (Offered dir) m ops)
    : Run.Guarded (DirOp.step cfg dir) (RefusesRightly cfg dir) m ops
        ↔
      Run.Guarded (DirOp.step cfg dir) (RefusalOk dir) m ops := by
  have hiff := @Run.guarded_congr _ _ (DirOp.step cfg dir)
    (fun m op => Offered dir m op ∧ RefusesRightly cfg dir m op) (Inv dir)
    (fun m op => Offered dir m op ∧ RefusalOk dir m op)
    (fun m op hinv => and_congr_right fun hoffered => hinv.call_iff hoffered)
    (fun m op m' hinv hok hstep => hinv.step hok.1 ((hinv.call_iff hok.1).mp hok.2) hstep) m ops hinv
  rwa [Run.guarded_and, Run.guarded_and, and_iff_right hoffered, and_iff_right hoffered] at hiff

theorem inv_of_empty (haligned : dir % PAGE_SIZE = 0) (hlow : dir + PAGE_SIZE ≤ 0x40000000)
    (hempty : ∀ i, i < 1024 → bit (m.loadWord (dir + 4 * i)) 0 = 0)
    : Inv dir m := by
  have hnone (i : Nat) (hi : i < 1024) : ¬ IsTable (m.loadWord (dir + 4 * i)) := by
    intro htable
    have hone := htable.1
    have hzero := hempty i hi
    omega
  exact ⟨haligned, hlow, fun i hi htable => absurd htable (hnone i hi), fun i hi htable => absurd htable (hnone i hi),
    fun i _ hi _ htable => absurd htable (hnone i hi), fun i hi htable => absurd htable (hnone i hi)⟩

/--
In a run from an empty directory every call is refused rightly exactly if every call meets the condition.
-/
theorem refusesRightly_iff (cfg : MemConfig) {dir : Nat} {m₀ : Memory} (haligned : dir % PAGE_SIZE = 0)
    (hlow : dir + PAGE_SIZE ≤ 0x40000000) (hempty : ∀ i, i < 1024 → bit (m₀.loadWord (dir + 4 * i)) 0 = 0)
    (ops : List DirOp)
    (hoffered : Run.Guarded (DirOp.step cfg dir) (Offered dir) m₀ ops)
    : Run.Guarded (DirOp.step cfg dir) (RefusesRightly cfg dir) m₀ ops
        ↔
      Run.Guarded (DirOp.step cfg dir) (RefusalOk dir) m₀ ops :=
  (inv_of_empty haligned hlow hempty).guarded_iff hoffered

instance (m : Memory) (table : Nat) : Decidable (HasEntry m table) := by
  unfold HasEntry
  infer_instance

instance (dir : Nat) (m : Memory) (op : DirOp) : Decidable (RefusalOk dir m op) := by
  unfold RefusalOk
  split <;> infer_instance

instance (dir : Nat) (m : Memory) (page : Nat) : Decidable (IsFresh dir m page) :=
  decidable_of_iff
    (KERNEL_BASE ≤ page ∧ (page - KERNEL_BASE) % PAGE_SIZE = 0 ∧ page - KERNEL_BASE + PAGE_SIZE ≤ 0x40000000
      ∧ page - KERNEL_BASE ≠ dir ∧ ∀ i, i < 1024 → IsTable (m.loadWord (dir + 4 * i)) →
        frame (m.loadWord (dir + 4 * i)) ≠ page - KERNEL_BASE)
    ⟨fun h => ⟨h.1, h.2.1, h.2.2.1, h.2.2.2.1, h.2.2.2.2⟩, fun h => ⟨h.1, h.2, h.3, h.4, h.5⟩⟩

instance (dir : Nat) (m : Memory) (op : DirOp) : Decidable (Offered dir m op) := by
  unfold Offered
  split <;> infer_instance

def zeroMemory : Memory := ⟨fun _ => 0, []⟩

theorem zeroMemory_absent (a : Nat) : bit (zeroMemory.loadWord a) 0 = 0 :=
  show bit 0 0 = 0 from rfl

theorem refusesRightly_iff_huge
    : Run.Guarded (DirOp.step PageDir.exampleConfig 0x1000) (RefusesRightly PageDir.exampleConfig 0x1000) zeroMemory
        [.mapHuge 0 0x400000 1 1, .unmap 0x400000, .mapHuge 0 0x400000 1 1, .map 0 0 0x401000 1 1] :=
  (refusesRightly_iff PageDir.exampleConfig (by decide) (by decide) (fun _ _ => zeroMemory_absent _) _
    (by decide +kernel)).mpr (by decide +kernel)

/--
A 4 MB page is mapped and unmapped; its bit stays, and `map_page` refuses.
-/
theorem not_refusesRightly
    : Run.Guarded (DirOp.step PageDir.exampleConfig 0x1000) (Offered 0x1000) zeroMemory
          [.mapHuge 0 0x400000 1 1, .unmap 0x400000, .map 0xC0200000 0x300000 0x400000 1 1]
        ∧ ¬ Run.Guarded (DirOp.step PageDir.exampleConfig 0x1000) (RefusesRightly PageDir.exampleConfig 0x1000) zeroMemory
          [.mapHuge 0 0x400000 1 1, .unmap 0x400000, .map 0xC0200000 0x300000 0x400000 1 1] := by
  have hinv : Inv 0x1000 zeroMemory := inv_of_empty (by decide) (by decide) (fun _ _ => zeroMemory_absent _)
  have hoffered : Run.Guarded (DirOp.step PageDir.exampleConfig 0x1000) (Offered 0x1000) zeroMemory
      [.mapHuge 0 0x400000 1 1, .unmap 0x400000, .map 0xC0200000 0x300000 0x400000 1 1] := by
    decide +kernel
  refine ⟨hoffered, ?_⟩
  rw [hinv.guarded_iff hoffered]
  decide +kernel

end DirOp
end Osproj
