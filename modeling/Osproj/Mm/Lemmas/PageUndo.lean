import Osproj.Mm.Lemmas.Buddy

/-!
This module contains the relation between the entries that `palloc` marks and the entries that `pfree`
releases for the same zone and size.
-/

namespace Osproj
namespace MemConfig

variable (cfg : MemConfig)

/--
If `palloc` returns an address then `pfree` of that address restores the status maps and stores to
nothing else.
-/
def Undoes (m : Memory) (zone : Zone) (size : Nat) : Prop :=
  let p := cfg.palloc m zone.code size
  p.1 ≠ 0 →
    let m' := cfg.pfree p.2 p.1 size zone.code
    (∀ a, cfg.InMaps a → m'.load a = m.load a) ∧ Memory.StoresIn p.2 m' cfg.InMaps

def zoneStart : Zone → Nat
  | .kernel => 0
  | .user => cfg.kernelMemPages

/--
The first entry `pfree` releases for the run at `b`, counted from the start of the kernel's map. The
linear addresses of the kernel zone start at the page `0xC0000`.
-/
def releaseStart (zone : Zone) (b : Nat) : Nat :=
  match zone with
  | .kernel => 0xC0000 + b
  | .user => cfg.kernelMemPages + (b + 0xFFFFF) % 0x100000 + 1

/--
The states in which `pfree` undoes `palloc`: the first run, if there is one, is that of the page 0,
which is returned as `NULL`, or all entries released were unused and lie in the maps, and all entries
marked were used unless they are released again. A run at the entry 0 of the user zone is not among
them: it is released `0x100000` entries behind.
-/
def Undoable (m : Memory) (zone : Zone) (size : Nat) : Prop :=
  let status (i : Nat) := m.load (cfg.memmapKernel + i)
  ∀ b, FirstRun (cfg.Unused m zone) (cfg.memPages zone) (pages size) b →
    (zone = .user ∧ b = 1)
      ∨ let lo := cfg.releaseStart zone b
        let hi := lo + released size
        let head := cfg.zoneStart zone + cfg.headIndex m zone b
        (∀ i, lo ≤ i → i < hi → i < 4 * cfg.kernelMemPages ∧ status i = MEM_UNUSED)
          ∧ (∀ i, head ≤ i → i < head + pages size → ¬ (lo ≤ i ∧ i < hi) → status i = MEM_USED)

theorem memmap_eq (zone : Zone) : cfg.memmap zone = cfg.memmapKernel + cfg.zoneStart zone := by
  cases zone with
  | kernel => rfl
  | user => exact cfg.memmapUser_eq

theorem inMaps_iff (a : Nat)
    : cfg.InMaps a ↔ ∃ i, i < 4 * cfg.kernelMemPages ∧ a = cfg.memmapKernel + i := by
  have hend := cfg.memmapEnd_eq
  unfold InMaps
  constructor
  . intro h
    exact ⟨a - cfg.memmapKernel, by omega, by omega⟩
  . rintro ⟨i, hi, rfl⟩
    omega

theorem runAddr_eq_zero_iff {zone : Zone} {b : Nat} (hb : b < cfg.memPages zone)
    : runAddr zone b = 0 ↔ zone = .user ∧ b = 1 := by
  have hpages := cfg.userMemPages_eq
  have hle := cfg.kernelMemPages_le
  cases zone with
  | kernel =>
    simp only [runAddr, phy2lin, memPages, reduceCtorEq, false_and, iff_false] at *
    split
    . omega
    . split <;> omega
  | user =>
    simp only [runAddr, memPages, true_and] at *
    omega

theorem releaseStart_eq {zone : Zone} {b : Nat} (hb : b < cfg.memPages zone)
    : cfg.memmap zone + runAddr zone b >>> 12 + 1 = cfg.memmapKernel + cfg.releaseStart zone b := by
  have hpages := cfg.userMemPages_eq
  have hle := cfg.kernelMemPages_le
  rw [memmap_eq]
  cases zone with
  | kernel =>
    simp only [runAddr, phy2lin, memPages, zoneStart, releaseStart,
      Nat.shiftRight_eq_div_pow] at *
    split
    . omega
    . split <;> omega
  | user =>
    simp only [runAddr, memPages, zoneStart, releaseStart, Nat.shiftRight_eq_div_pow] at *
    omega

theorem releaseStart_le {zone : Zone} {b : Nat} (hb : b < cfg.memPages zone)
    : cfg.releaseStart zone b ≤ 0x140000 := by
  have hle := cfg.kernelMemPages_le
  cases zone with
  | kernel =>
    simp only [releaseStart, memPages] at *
    omega
  | user =>
    simp only [releaseStart]
    omega

section Release

variable {cfg} {m : Memory} {lo n : Nat}

/-
The entries wrap round the end of the address space to addresses that are not in the maps.
-/
theorem wrapped_eq_iff (hlo : lo ≤ 0x140000) (hn : n ≤ 0x100000) {ptr i j : Nat}
    (hptr : ptr + 1 = cfg.memmapKernel + lo) (hj : j < n)
    : (ptr + (1 + j)) % 0x100000000 = cfg.memmapKernel + i ∧ i < 4 * cfg.kernelMemPages
        ↔
      lo + j = i ∧ i < 4 * cfg.kernelMemPages := by
  have hge := cfg.memmapKernel_ge
  have hend := cfg.memmapEnd_eq
  have hlt := cfg.memmapEnd_lt
  omega

theorem load_release_entry (hlo : lo ≤ 0x140000) (hn : n ≤ 0x100000) {ptr : Nat}
    (hptr : ptr + 1 = cfg.memmapKernel + lo) {i : Nat} (hi : i < 4 * cfg.kernelMemPages)
    : (pfree.release m ptr 1 n).load (cfg.memmapKernel + i)
        =
      if lo ≤ i ∧ i < lo + n then MEM_UNUSED else m.load (cfg.memmapKernel + i) := by
  split
  . next hmem =>
    have hj := (wrapped_eq_iff hlo hn hptr (show i - lo < n by omega)).mpr ⟨by omega, hi⟩
    exact load_release_of_eq (by omega) (by omega) hj.1
  . next hmem =>
    apply load_release_of_ne
    intro j hj hj' heq
    have := (@wrapped_eq_iff cfg lo n hlo hn ptr i (j - 1) hptr (by omega)).mp
      ⟨by rw [← heq]; congr 2; omega, hi⟩
    omega

theorem release_storesIn_maps_iff (hlo : lo ≤ 0x140000) (hn : n ≤ 0x100000) {ptr : Nat}
    (hptr : ptr + 1 = cfg.memmapKernel + lo)
    : Memory.StoresIn m (pfree.release m ptr 1 n) cfg.InMaps
        ↔
      ∀ i, lo ≤ i → i < lo + n → i < 4 * cfg.kernelMemPages := by
  rw [release_storesIn_iff]
  have hentry (j : Nat) (hj : j < n)
      : cfg.InMaps ((ptr + (1 + j)) % 0x100000000) ↔ lo + j < 4 * cfg.kernelMemPages := by
    rw [inMaps_iff]
    constructor
    . rintro ⟨i, hi, heq⟩
      have := (wrapped_eq_iff hlo hn hptr hj).mp ⟨heq, hi⟩
      omega
    . intro hlt
      have := (wrapped_eq_iff hlo hn hptr hj).mpr ⟨rfl, hlt⟩
      exact ⟨lo + j, hlt, this.1⟩
  constructor
  . intro h i hi hi'
    have := (hentry (i - lo) (by omega)).mp (h (1 + (i - lo)) (by omega) (by omega))
    omega
  . intro h j hj hj'
    have := (hentry (j - 1) (by omega)).mpr (h (lo + (j - 1)) (by omega) (by omega))
    rwa [Nat.add_sub_of_le hj] at this

end Release

theorem headIndex_le (m : Memory) (zone : Zone) (b : Nat) : cfg.headIndex m zone b ≤ b := by
  exact Nat.count_le _

theorem zoneStart_add_le {zone : Zone} {i : Nat} (hi : i ≤ cfg.memPages zone)
    : cfg.zoneStart zone + i ≤ 4 * cfg.kernelMemPages := by
  have hpages := cfg.userMemPages_eq
  cases zone with
  | kernel => simp only [zoneStart, memPages] at *; omega
  | user => simp only [zoneStart, memPages] at *; omega

theorem load_pfree_palloc {m : Memory} {zone : Zone} {size b : Nat} (hpos : 0 < size)
    (hlt : size < 0x100000000)
    (hrun : FirstRun (cfg.Unused m zone) (cfg.memPages zone) (pages size) b)
    (hpalloc : cfg.palloc m zone.code size = (runAddr zone b,
      m.fill (cfg.memmap zone + cfg.headIndex m zone b) MEM_USED (pages size)))
    {i : Nat} (hi : i < 4 * cfg.kernelMemPages)
    : let p := cfg.palloc m zone.code size
      let lo := cfg.releaseStart zone b
      let head := cfg.zoneStart zone + cfg.headIndex m zone b
      (cfg.pfree p.2 p.1 size zone.code).load (cfg.memmapKernel + i)
        =
      if lo ≤ i ∧ i < lo + released size then
        MEM_UNUSED
      else if head ≤ i ∧ i < head + pages size then
        MEM_USED
      else
        m.load (cfg.memmapKernel + i) := by
  have hn := pages_pos hpos
  have hb : b < cfg.memPages zone := by
    have := hrun.fits
    omega
  have hrel : released size ≤ 0x100000 := by
    have := released_le size
    simp only [PAGE_SIZE] at this
    omega
  simp only [hpalloc, pfree_eq]
  rw [load_release_entry (cfg.releaseStart_le hb) hrel (cfg.releaseStart_eq hb) hi,
    Memory.load_fill, memmap_eq]
  congr 2
  apply propext
  omega

theorem undoes_iff_of_firstRun {m : Memory} {zone : Zone} {size b : Nat} (hpos : 0 < size)
    (hlt : size < 0x100000000)
    (hrun : FirstRun (cfg.Unused m zone) (cfg.memPages zone) (pages size) b)
    : cfg.Undoes m zone size ↔ cfg.Undoable m zone size := by
  have hpalloc := cfg.palloc_of_firstRun hpos hlt hrun
  have hn := pages_pos hpos
  have hfits := hrun.fits
  have hb : b < cfg.memPages zone := by omega
  have hrel : released size ≤ 0x100000 := by
    have := released_le size
    simp only [PAGE_SIZE] at this
    omega
  have hhead : cfg.zoneStart zone + cfg.headIndex m zone b + pages size
      ≤ 4 * cfg.kernelMemPages := by
    have := cfg.headIndex_le m zone b
    have := cfg.zoneStart_add_le hfits
    omega
  have hload := @cfg.load_pfree_palloc m zone size b hpos hlt hrun hpalloc
  have hstores := @release_storesIn_maps_iff cfg (cfg.palloc m zone.code size).2 _ _
    (cfg.releaseStart_le hb) hrel _ (cfg.releaseStart_eq hb)
  have hnull := cfg.runAddr_eq_zero_iff hb
  dsimp only at hload
  generalize hlo : cfg.releaseStart zone b = lo at hload hstores
  generalize hhd : cfg.zoneStart zone + cfg.headIndex m zone b = head at hload hhead
  constructor
  . intro h b' hrun'
    obtain rfl := hrun.unique hrun'
    by_cases hzero : runAddr zone b = 0
    . exact Or.inl (hnull.mp hzero)
    . obtain ⟨hrestore, hin⟩ := h (by rw [hpalloc]; exact hzero)
      have hinside := hstores.mp (by simpa only [hpalloc, pfree_eq] using hin)
      dsimp only
      rw [hlo, hhd]
      refine Or.inr ⟨?_, ?_⟩
      . intro i hi hi'
        have hmap := hinside i hi hi'
        refine ⟨hmap, ?_⟩
        rw [← hrestore _ ((cfg.inMaps_iff _).mpr ⟨i, hmap, rfl⟩), hload hmap, if_pos ⟨hi, hi'⟩]
      . intro i hi hi' hout
        have hmap : i < 4 * cfg.kernelMemPages := by omega
        rw [← hrestore _ ((cfg.inMaps_iff _).mpr ⟨i, hmap, rfl⟩), hload hmap, if_neg hout,
          if_pos ⟨hi, hi'⟩]
  . intro h hne
    rcases h b hrun with hone | hcond
    . exact absurd (hnull.mpr hone) (by simpa only [hpalloc] using hne)
    . dsimp only at hcond
      rw [hlo, hhd] at hcond
      obtain ⟨hreleased, hmarked⟩ := hcond
      constructor
      . intro a ha
        obtain ⟨i, hi, rfl⟩ := (cfg.inMaps_iff a).mp ha
        rw [hload hi]
        split
        . next hin => exact (hreleased i hin.1 hin.2).2.symm
        . next hout =>
          split
          . next hmark => exact (hmarked i hmark.1 hmark.2 hout).symm
          . rfl
      . have hin := hstores.mpr (fun i hi hi' => (hreleased i hi hi').1)
        simpa only [hpalloc, pfree_eq] using hin

end MemConfig
end Osproj
