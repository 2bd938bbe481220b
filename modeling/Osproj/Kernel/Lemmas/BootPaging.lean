import Osproj.Kernel.Impl.Boot
import Osproj.Mm.Lemmas.Mmap
import Osproj.Mm.Lemmas.Refusal

/-!
This module contains what the processor translates linear addresses to once the kernel runs: the window of the kernel
and that of the devices, and nothing below them.
-/

namespace Osproj

open Paging

namespace Boot

variable {m : Memory}

/--
The entry `i` of the directory once `arch_init` has mapped the devices.
-/
def bootEntry (i : Nat) : Nat :=
  if i < 512 then
    0
  else if i < 768 then
    0xC0000083 + 0x400000 * (i - 512)
  else
    0x83 + 0x400000 * (i - 768)

/--
The windows of the kernel and of the devices in the directory at the physical address 0.
-/
def Windows (m : Memory) : Prop := ∀ i, 512 ≤ i → i < 1024 → m.loadWord (4 * i) = bootEntry i

theorem movsl_eq {esi edi n : Nat} (h : esi + 4 * n ≤ edi) : movsl m esi edi n = m.copy edi esi (4 * n) := by
  induction n generalizing m esi edi with
  | zero => rfl
  | succ n ih =>
    have hword : m.storeWord edi (m.loadWord esi) = m.copy edi esi 4 := by
      simp only [Memory.storeWord_loadWord, Memory.copy, Memory.load_store]
      rw [if_neg (by omega), if_neg (by omega), if_neg (by omega), if_neg (by omega), if_neg (by omega),
        if_neg (by omega)]
    rw [movsl, ih (by omega), hword]
    rfl

theorem stosl_zero (m : Memory) (edi n : Nat) : stosl m 0 edi n = (m.fill edi 0 (4 * n), edi + 4 * n) := by
  induction n generalizing m edi with
  | zero => rfl
  | succ n ih =>
    rw [stosl, ih, Nat.mul_succ]
    exact Prod.ext rfl (by omega)

theorem creatloop_spec {edi ax k : Nat} (hk : 0 < k) (hedi : edi + 4 * k = 0x1000) (hax : ax + 0x40 * k ≤ 0x10000)
    : ∃ m', creatloop m edi ax k = some m'
        ∧ (∀ j, j < k → m'.loadWord (edi + 4 * j) = 0x83 + 0x10000 * (ax + 0x40 * j))
        ∧ ∀ b, b < edi ∨ 0x1000 ≤ b → m'.load b = m.load b := by
  induction k generalizing m edi ax with
  | zero => omega
  | succ k ih =>
    have hentry : (m.storeHalf edi 0x83).storeHalf (edi + 2) ax = m.storeWord edi (0x83 + 0x10000 * ax) :=
      Memory.storeHalf_storeHalf m edi 0x83 ax (by decide)
    simp only [creatloop, hentry]
    by_cases hlast : k = 0
    . subst hlast
      rw [if_neg (by omega)]
      refine ⟨_, rfl, ?_, ?_⟩
      . intro j hj
        obtain rfl : j = 0 := by omega
        rw [Nat.mul_zero, Nat.add_zero, Nat.add_zero, Memory.loadWord_storeWord_self]
        omega
      . intro b hb
        exact Memory.load_storeWord_of_disjoint _ _ _ _ (by omega)
    . rw [if_pos (by omega), Nat.mod_eq_of_lt (by omega)]
      obtain ⟨m', hloop, hwords, hframe⟩ :=
        @ih (m.storeWord edi (0x83 + 0x10000 * ax)) (edi + 2 + 2) (ax + 0x40) (by omega) (by omega) (by omega)
      refine ⟨m', hloop, ?_, ?_⟩
      . intro j hj
        cases j with
        | zero =>
          rw [Nat.mul_zero, Nat.add_zero, Nat.add_zero,
            Memory.loadWord_congr _ _ _ (fun b hlo hhi => hframe b (by omega)), Memory.loadWord_storeWord_self]
          omega
        | succ j =>
          have hword := hwords j (by omega)
          rw [show edi + 4 * (j + 1) = edi + 2 + 2 + 4 * j by omega, hword]
          omega
      . intro b hb
        rw [hframe b (by omega), Memory.load_storeWord_of_disjoint _ _ _ _ (by omega)]

section Setup

variable {biosdata : Nat} (hlo : 0xC0001000 ≤ biosdata) (hhi : biosdata + BDA_SIZE ≤ 0x100000000)

include hlo hhi

/--
The directory when paging is switched on: the window of the kernel, and the first 4 MB at their own address.
-/
theorem setupPaging_spec (m : Memory)
    : ∃ m', setupPaging m biosdata = some m'
        ∧ m'.loadWord 0 = 0x83
        ∧ (∀ i, 0 < i → i < 768 → m'.loadWord (4 * i) = 0)
        ∧ (∀ i, 768 ≤ i → i < 1024 → m'.loadWord (4 * i) = bootEntry i)
        ∧ ∀ b, 0x1000 ≤ b → m'.load b
            =
          if biosdata - 0xC0000000 ≤ b ∧ b < biosdata - 0xC0000000 + BDA_SIZE then
            m.load (BDA + (b - (biosdata - 0xC0000000)))
          else
            m.load b := by
  have hsize : BDA_SIZE = 0xA0 := rfl
  have hbda : BDA = 0x400 := rfl
  have hdst : (biosdata + 0x100000000 - 0xC0000000) % 0x100000000 = biosdata - 0xC0000000 := by omega
  let m₁ := movsl m BDA (biosdata - 0xC0000000) (BDA_SIZE / 4)
  let m₂ := (m₁.storeWord 0 0x83).fill 4 0 (4 * 768)
  obtain ⟨m', hloop, hwords, hframe⟩ := @creatloop_spec m₂ 0xC00 0 256 (by decide) (by decide) (by decide)
  refine ⟨m', ?_, ?_, ?_, ?_, ?_⟩
  . have hhack (m : Memory) : (m.storeHalf 0 0x83).storeHalf (0 + 2) 0 = m.storeWord 0 0x83 :=
      Memory.storeHalf_storeHalf m 0 0x83 0 (by decide)
    have hend : (0 + 2 + 2 + 4 * (USER_COUNT * PAGE_TABLE_ITEM_SIZE) + 0x100000000 - 4) % 0x100000000 = 0xC00 := rfl
    simp only [setupPaging, hdst, hhack, stosl_zero, hend]
    exact hloop
  . rw [Memory.loadWord_congr _ _ _ (fun b _ _ => hframe b (by omega)),
      Memory.loadWord_fill_of_disjoint _ _ _ _ _ (by omega), Memory.loadWord_storeWord_self]
  . intro i hpos hi
    rw [Memory.loadWord_congr _ _ _ (fun b _ _ => hframe b (by omega))]
    exact Memory.loadWord_fill_zero _ _ _ _ (by omega) (by omega)
  . intro i hlo hi
    have hword := hwords (i - 768) (by omega)
    rw [show 0xC00 + 4 * (i - 768) = 4 * i by omega] at hword
    rw [hword, bootEntry, if_neg (by omega), if_neg (by omega)]
    omega
  . intro b hb
    rw [hframe b (by omega), Memory.load_fill, if_neg (by omega),
      Memory.load_storeWord_of_disjoint _ _ _ _ (by omega),
      show m₁ = _ from movsl_eq (by omega), Memory.load_copy _ _ _ _ _ (by omega)]
    rfl

theorem start_spec (m : Memory)
    : ∃ m', start m biosdata = some m'
        ∧ (∀ i, i < 768 → m'.loadWord (4 * i) = 0)
        ∧ (∀ i, 768 ≤ i → i < 1024 → m'.loadWord (4 * i) = bootEntry i)
        ∧ ∀ b, 0x1000 ≤ b → m'.load b
            =
          if biosdata - 0xC0000000 ≤ b ∧ b < biosdata - 0xC0000000 + BDA_SIZE then
            m.load (BDA + (b - (biosdata - 0xC0000000)))
          else
            m.load b := by
  obtain ⟨m', hsetup, -, hzero, hentry, hframe⟩ := setupPaging_spec hlo hhi m
  have hword {i : Nat} (hi : 0 < i) : (m'.storeWord 0 0).loadWord (4 * i) = m'.loadWord (4 * i) :=
    Memory.loadWord_storeWord_of_disjoint _ _ _ _ (by omega)
  refine ⟨m'.storeWord 0 0, ?_, ?_, ?_, ?_⟩
  . rw [start, hsetup]
    rfl
  . intro i hi
    by_cases hpos : 0 < i
    . rw [hword hpos, hzero i hpos hi]
    . obtain rfl : i = 0 := by omega
      exact Memory.loadWord_storeWord_self _ _ _
  . intro i hlo hi
    rw [hword (by omega), hentry i hlo hi]
  . intro b hb
    rw [Memory.load_storeWord_of_disjoint _ _ _ _ (by omega), hframe b hb]

end Setup

theorem mapHugePage_zero {phy virt : Nat} (hvirt : virt < 0x100000000) (hphy : phy < 0x100000000)
    (hzero : m.loadWord (4 * (virt / 0x400000)) = 0)
    : mapHugePage m PDT_BASE phy virt 0 1
        =
      some (none, m.storeWord (4 * (virt / 0x400000)) (0x83 + phy / 0x400000 * 0x400000)) := by
  have haddr : linear ((PDT_BASE + 4 * (virt >>> 22)) % 0x100000000) = some (4 * (virt / 0x400000)) := by
    have hdir := @PageTables.linear_dir virt 0 (by decide) hvirt
    rw [Nat.zero_add, pdeAddr, Nat.zero_add] at hdir
    exact hdir
  have hpresent : ¬ (HugePde.ofWord 0).present = 1 := by decide
  have hword : HugePde.toWord { HugePde.ofWord 0 with
        present := 1
        rw := .ofNat 1 (1 : BitVec 8).toNat
        us := .ofNat 1 (0 : BitVec 8).toNat
        pwt := 0
        pcd := 0
        accessed := 0
        dirty := 0
        pse := 1
        avl := 0
        reserved := 0
        addr := .ofNat 10 (phy >>> 22)
      } = 0x83 + phy / 0x400000 * 0x400000 := by
    simp only [HugePde.toWord, HugePde.ofWord, BitVec.toNat_ofNat, Nat.shiftRight_eq_div_pow]
    simp
    omega
  simp only [mapHugePage, haddr, Option.bind_eq_bind, Option.bind_some, hzero, if_neg hpresent, Option.pure_def, hword]

theorem mapMmio_spec {i left : Nat} (hleft : i + left = 0x100)
    (hzero : ∀ j, i ≤ j → j < 0x100 → m.loadWord (4 * (512 + j)) = 0)
    : ∃ m', mapMmio m i left = some m'
        ∧ (∀ j, i ≤ j → j < 0x100 → m'.loadWord (4 * (512 + j)) = bootEntry (512 + j))
        ∧ ∀ b, b < 4 * (512 + i) ∨ 0xC00 ≤ b → m'.load b = m.load b := by
  induction left generalizing m i with
  | zero => exact ⟨m, rfl, fun j hlo hhi => by omega, fun b _ => rfl⟩
  | succ left ih =>
    have hphy : (0xC0000000 + i * 0x400000) % 0x100000000 = 0xC0000000 + i * 0x400000 := by omega
    have hvirt : (0x80000000 + i * 0x400000) % 0x100000000 = 0x80000000 + i * 0x400000 := by omega
    have hindex : (0x80000000 + i * 0x400000) / 0x400000 = 512 + i := by omega
    have hmap := @mapHugePage_zero m (0xC0000000 + i * 0x400000) (0x80000000 + i * 0x400000) (by omega) (by omega)
      (by rw [hindex]; exact hzero i (Nat.le_refl i) (by omega))
    rw [hindex, show 0x83 + (0xC0000000 + i * 0x400000) / 0x400000 * 0x400000 = bootEntry (512 + i) by
      rw [bootEntry, if_neg (by omega), if_pos (by omega)]; omega] at hmap
    have hother {j : Nat} (hj : i < j) : (m.storeWord (4 * (512 + i)) (bootEntry (512 + i))).loadWord (4 * (512 + j))
        = m.loadWord (4 * (512 + j)) :=
      Memory.loadWord_storeWord_of_disjoint _ _ _ _ (by omega)
    obtain ⟨m', hloop, hwords, hframe⟩ :=
      @ih (m.storeWord (4 * (512 + i)) (bootEntry (512 + i))) (i + 1) (by omega) (fun j hlo hhi => by
        rw [hother (by omega)]
        exact hzero j (by omega) hhi)
    refine ⟨m', ?_, ?_, ?_⟩
    . simp only [mapMmio, hphy, hvirt, hmap, Option.bind_eq_bind, Option.bind_some]
      exact hloop
    . intro j hlo hhi
      by_cases heq : j = i
      . subst heq
        rw [Memory.loadWord_congr _ _ _ (fun b _ hb => hframe b (by omega)), Memory.loadWord_storeWord_self,
          bootEntry, if_neg (by omega), if_pos (by omega)]
        omega
      . exact hwords j (by omega) hhi
    . intro b hb
      rw [hframe b (by omega), Memory.load_storeWord_of_disjoint _ _ _ _ (by omega)]

theorem walk_of_bootEntry {a : Nat} (hlo : 0x80000000 ≤ a) (hhi : a < 0x100000000)
    (h : m.loadWord (4 * (a / 0x400000)) = bootEntry (a / 0x400000))
    : walk m 0 a = some ⟨lin2phy a, 0, 1⟩ := by
  have hentry : ∃ k, bootEntry (a / 0x400000) = 0x83 + 0x400000 * k ∧ 0x400000 * k + a % 0x400000 = lin2phy a := by
    unfold bootEntry lin2phy
    by_cases hkernel : 0xC0000000 ≤ a
    . exact ⟨a / 0x400000 - 768, by rw [if_neg (by omega), if_neg (by omega)], by rw [if_pos hkernel]; omega⟩
    . refine ⟨0x300 + (a / 0x400000 - 512), by rw [if_neg (by omega), if_pos (by omega)]; omega, ?_⟩
      rw [if_neg hkernel, if_pos (by omega)]
      omega
  obtain ⟨k, hk, hphy⟩ := hentry
  have hbits : bit (0x83 + 0x400000 * k) 0 = 1 ∧ bit (0x83 + 0x400000 * k) 7 = 1
      ∧ bit (0x83 + 0x400000 * k) 2 = 0 ∧ bit (0x83 + 0x400000 * k) 1 = 1 := by
    unfold bit
    omega
  have hframe : (0x83 + 0x400000 * k) / 0x400000 * 0x400000 = 0x400000 * k := by omega
  simp only [walk, pdeAddr, Nat.zero_add, h, hk, hbits, hframe, hphy]
  rfl

theorem Windows.walk_eq (h : Windows m) {a : Nat} (hlo : 0x80000000 ≤ a) (hhi : a < 0x100000000)
    : walk m 0 a = some ⟨lin2phy a, 0, 1⟩ := by
  exact walk_of_bootEntry hlo hhi (h (a / 0x400000) (by omega) (by omega))

theorem bootPaging_spec (m : Memory) {biosdata : Nat} (hlo : 0xC0001000 ≤ biosdata)
    (hhi : biosdata + BDA_SIZE ≤ 0x100000000)
    : ∃ m', bootPaging m biosdata = some m'
        ∧ (∀ i, i < 512 → m'.loadWord (4 * i) = 0)
        ∧ Windows m'
        ∧ ∀ b, 0x1000 ≤ b → m'.load b
            =
          if biosdata - 0xC0000000 ≤ b ∧ b < biosdata - 0xC0000000 + BDA_SIZE then
            m.load (BDA + (b - (biosdata - 0xC0000000)))
          else
            m.load b := by
  obtain ⟨m₁, hstart, hzero, hentry, hframe₁⟩ := start_spec hlo hhi m
  obtain ⟨m', hloop, hwords, hframe⟩ :=
    @mapMmio_spec m₁ 0 0x100 rfl (fun j _ hj => hzero (512 + j) (by omega))
  refine ⟨m', ?_, ?_, ?_, ?_⟩
  . rw [bootPaging, hstart]
    exact hloop
  . intro i hi
    rw [Memory.loadWord_congr _ _ _ (fun b _ hb => hframe b (by omega)), hzero i (by omega)]
  . intro i hi hlt
    by_cases hmmio : i < 768
    . have hword := hwords (i - 512) (by omega) (by omega)
      rwa [show 512 + (i - 512) = i by omega] at hword
    . rw [Memory.loadWord_congr _ _ _ (fun b hb _ => hframe b (by omega)), hentry i (by omega) hlt]
  . intro b hb
    rw [hframe b (by omega), hframe₁ b hb]

/--
What the directory translates an address to when paging is switched on: the code goes on at the low address it runs at
and at the one it was linked for.
-/
def startLinear (a : Nat) : Option Nat :=
  if a < 0x400000 then
    some a
  else if a < 0xC0000000 then
    none
  else
    some (a - 0xC0000000)

/--
The data area of the BIOS is saved at `biosdata`, and no other byte above the directory differs.
-/
def SavesBda (m m' : Memory) (biosdata : Nat) : Prop :=
  m'.loadBytes (biosdata - 0xC0000000) BDA_SIZE = m.loadBytes BDA BDA_SIZE
    ∧ ∀ b, 0x1000 ≤ b → (b < biosdata - 0xC0000000 ∨ biosdata - 0xC0000000 + BDA_SIZE ≤ b) → m'.load b = m.load b

theorem savesBda_of_load {m' : Memory} {biosdata : Nat} (hlo : 0xC0001000 ≤ biosdata)
    (h : ∀ b, 0x1000 ≤ b → m'.load b
        =
      if biosdata - 0xC0000000 ≤ b ∧ b < biosdata - 0xC0000000 + BDA_SIZE then
        m.load (BDA + (b - (biosdata - 0xC0000000)))
      else
        m.load b)
    : SavesBda m m' biosdata := by
  constructor
  . apply List.map_congr_left
    intro i hi
    rw [List.mem_range] at hi
    rw [h _ (by omega), if_pos (by omega), Nat.add_sub_cancel_left]
  . intro b hb hout
    rw [h b hb, if_neg (by omega)]

theorem walk_setupPaging {m₀ : Memory} (hhack : m₀.loadWord 0 = 0x83)
    (hzero : ∀ i, 0 < i → i < 768 → m₀.loadWord (4 * i) = 0)
    (hentry : ∀ i, 768 ≤ i → i < 1024 → m₀.loadWord (4 * i) = bootEntry i) {a : Nat} (ha : a < 0x100000000)
    : walk m₀ 0 a = (startLinear a).map (fun phy => ⟨phy, 0, 1⟩) := by
  rw [startLinear]
  by_cases hlow : a < 0x400000
  . have hslot : a / 0x400000 = 0 := by omega
    have hmod : a % 0x400000 = a := by omega
    rw [if_pos hlow]
    simp only [walk, pdeAddr, hslot, hmod, Nat.mul_zero, Nat.add_zero, hhack, bit]
    simp
  . rw [if_neg hlow]
    by_cases huser : a < 0xC0000000
    . rw [if_pos huser, Option.map_none]
      apply walk_of_not_present
      rw [pdeAddr, Nat.zero_add, hzero _ (by omega) (by omega)]
      rfl
    . rw [if_neg huser, Option.map_some, walk_of_bootEntry (by omega) ha (hentry _ (by omega) (by omega)), lin2phy,
        if_pos (by omega)]

/--
When paging is switched on, the directory holds the window of the kernel and the first 4 MB at their own address. After
the loop of `arch_init` it translates an address as `lin2phy` does, for the kernel only, and nothing below `0x80000000`.
Both times the data area of the BIOS is saved, and nothing else is changed above the directory.
-/
theorem bootPaging_linear (m : Memory) {biosdata : Nat} (hlo : 0xC0001000 ≤ biosdata)
    (hhi : biosdata + BDA_SIZE ≤ 0x100000000)
    : (∃ m₀, setupPaging m biosdata = some m₀
        ∧ (∀ a, a < 0x100000000 → walk m₀ 0 a = (startLinear a).map (fun phy => ⟨phy, 0, 1⟩))
        ∧ SavesBda m m₀ biosdata)
      ∧ ∃ m', bootPaging m biosdata = some m'
        ∧ (∀ a, a < 0x100000000 → walk m' 0 a = (linear a).map (fun phy => ⟨phy, 0, 1⟩))
        ∧ SavesBda m m' biosdata := by
  constructor
  . obtain ⟨m₀, hsetup, hhack, hzero, hentry, hframe⟩ := setupPaging_spec hlo hhi m
    exact ⟨m₀, hsetup, fun a ha => walk_setupPaging hhack hzero hentry ha, savesBda_of_load hlo hframe⟩
  . obtain ⟨m', hboot, hzero, hwindows, hframe⟩ := bootPaging_spec m hlo hhi
    refine ⟨m', hboot, ?_, savesBda_of_load hlo hframe⟩
    intro a ha
    by_cases hlow : a < 0x80000000
    . rw [linear, if_pos hlow, Option.map_none]
      apply walk_of_not_present
      rw [pdeAddr, Nat.zero_add, hzero _ (by omega)]
      rfl
    . rw [linear, if_neg hlow, Option.map_some]
      exact hwindows.walk_eq (by omega) ha

theorem bootPaging_linear_zero
    : (∃ m₀, setupPaging DirOp.zeroMemory 0xC0101000 = some m₀
        ∧ walk m₀ 0 0x100034 = some ⟨0x100034, 0, 1⟩
        ∧ walk m₀ 0 0xC0500034 = some ⟨0x500034, 0, 1⟩
        ∧ walk m₀ 0 0x80000020 = none)
      ∧ ∃ m', bootPaging DirOp.zeroMemory 0xC0101000 = some m'
        ∧ walk m' 0 0xC0101234 = some ⟨0x101234, 0, 1⟩
        ∧ walk m' 0 0x80000020 = some ⟨0xC0000020, 0, 1⟩
        ∧ walk m' 0 0x1000 = none := by
  obtain ⟨⟨m₀, hsetup, hstart, -⟩, m', hboot, hwalk, -⟩ :=
    @bootPaging_linear DirOp.zeroMemory 0xC0101000 (by decide) (by decide)
  exact ⟨⟨m₀, hsetup, hstart _ (by decide), hstart _ (by decide), hstart _ (by decide)⟩,
    m', hboot, hwalk _ (by decide), hwalk _ (by decide), hwalk _ (by decide)⟩

end Boot
end Osproj
