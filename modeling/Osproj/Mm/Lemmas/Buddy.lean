import Osproj.Base.FirstRun
import Osproj.Mm.Impl.Buddy

/-!
This module contains what `page_init`, `palloc` and `pfree` do to the status map, in terms of the
first run of unused entries.
-/

namespace Osproj

inductive Zone
  | kernel
  | user
deriving DecidableEq, Repr

def Zone.code : Zone → Nat
  | .kernel => ZONE_KERNEL
  | .user => ZONE_USER

namespace MemConfig

variable (cfg : MemConfig)

def memmap : Zone → Nat
  | .kernel => cfg.memmapKernel
  | .user => cfg.memmapUser

def memPages : Zone → Nat
  | .kernel => cfg.kernelMemPages
  | .user => cfg.userMemPages

def Unused (m : Memory) (zone : Zone) (i : Nat) : Prop := m.load (cfg.memmap zone + i) = MEM_UNUSED

instance (m : Memory) (zone : Zone) : DecidablePred (cfg.Unused m zone) := by
  unfold Unused
  infer_instance

def InMaps (a : Nat) : Prop := cfg.memmapKernel ≤ a ∧ a < cfg.memmapEnd

/--
The entry from which on `palloc` marks the run at `b`: it counts the taken entries before the run.
-/
def headIndex (m : Memory) (zone : Zone) (b : Nat) : Nat :=
  Nat.count (fun i => ¬ cfg.Unused m zone i) b

/--
The address `palloc` returns for the run at `b`: that of the page before the run.
-/
def runAddr (zone : Zone) (b : Nat) : Nat :=
  let addr := (b + 0xFFFFF) % 0x100000 * 0x1000
  match zone with
  | .kernel => phy2lin addr
  | .user => addr

section Layout

theorem memmapEnd_eq : cfg.memmapEnd = cfg.memmapKernel + 4 * cfg.kernelMemPages := by
  simp only [memmapEnd, memmapUser, memmapKernel, userMemPages, kernelMemPages]
  omega

theorem memmapUser_eq : cfg.memmapUser = cfg.memmapKernel + cfg.kernelMemPages := by
  simp only [memmapUser, memmapKernel]
  omega

theorem userMemPages_eq : cfg.userMemPages = 3 * cfg.kernelMemPages := by
  simp only [userMemPages, kernelMemPages]
  omega

theorem kernelMemPages_le : cfg.kernelMemPages ≤ 0x40000 := by
  have := cfg.total_le
  simp only [kernelMemPages, Nat.shiftRight_eq_div_pow]
  omega

theorem memmapKernel_ge : 0xC0000000 ≤ cfg.memmapKernel := by
  simp only [memmapKernel]
  omega

theorem memmapEnd_lt : cfg.memmapEnd < 0x100000000 := by
  have := cfg.mapped
  simp only [memmapEnd, memmapUser, userMemPages, kernelMemPages]
  omega

theorem kernelReservedPages_lt : cfg.kernelReservedPages ≤ 0x40000 := by
  have hmapped := cfg.mapped
  have hend := cfg.memmapEnd_eq
  simp only [kernelReservedPages, Nat.shiftRight_eq_div_pow, hend, memmapKernel,
    kernelMemPages] at *
  omega

end Layout

theorem load_pageInit {m : Memory} {i : Nat} (hi : i < 4 * cfg.kernelMemPages)
    : (cfg.pageInit m).load (cfg.memmapKernel + i)
        =
      if i < cfg.kernelReservedPages then MEM_USED else MEM_UNUSED := by
  have hend := cfg.memmapEnd_eq
  simp only [pageInit, Memory.load_fill]
  by_cases hres : i < cfg.kernelReservedPages
  . rw [if_neg (by omega), if_pos (by omega), if_pos hres]
  . rw [if_pos (by omega), if_neg hres]

theorem firstRun_pageInit (m : Memory) {n : Nat} (hpos : 0 < n)
    (hn : cfg.kernelReservedPages + n ≤ cfg.kernelMemPages)
    : FirstRun (cfg.Unused (cfg.pageInit m) .kernel) (cfg.memPages .kernel) n
        cfg.kernelReservedPages := by
  constructor
  . exact hn
  . intro i hlo hhi
    simp only [Unused, memmap]
    rw [cfg.load_pageInit (by omega), if_neg (by omega)]
  . intro c hc
    refine ⟨c, Nat.le_refl c, ?_, ?_⟩
    . omega
    . simp only [Unused, memmap]
      rw [cfg.load_pageInit (by omega), if_pos hc]
      decide

theorem pages_eq (size : Nat) : pages size = (size + 4095) / 4096 := by
  unfold pages
  dsimp only
  split
  . simp only [PAGE_SIZE] at *
    omega
  . simp only [PAGE_SIZE] at *
    omega

theorem pages_pos {size : Nat} (h : 0 < size) : 0 < pages size := by
  rw [pages_eq]
  omega

theorem pages_lt {size : Nat} (h : size < 0x100000000) : pages size < 0x100000000 := by
  rw [pages_eq]
  omega

theorem palloc.search_spec {m : Memory} {ptr n : Nat} (hn : n < 0x100000000) {i k : Nat}
    (h : FirstRun.Scanned (fun j => m.load (ptr + j) = MEM_UNUSED) n i k) (left : Nat)
    : let head (j : Nat) := ptr + Nat.count (fun j => ¬ m.load (ptr + j) = MEM_UNUSED) j
      (∃ b, FirstRun (fun j => m.load (ptr + j) = MEM_UNUSED) (i + left) n b
        ∧ palloc.search m ptr n left i (head i) (n - k) = some (b + n - 1, head b))
      ∨ ((∀ b, ¬ FirstRun (fun j => m.load (ptr + j) = MEM_UNUSED) (i + left) n b)
        ∧ palloc.search m ptr n left i (head i) (n - k) = none) := by
  intro head
  have hstreak := h.streak_lt
  have hle := h.streak_le
  induction left generalizing i k with
  | zero => exact Or.inr ⟨h.exhausted, rfl⟩
  | succ left ih =>
    rw [palloc.search, show i + (left + 1) = i + 1 + left by omega]
    by_cases hi : m.load (ptr + i) = MEM_UNUSED
    . have hcurr : (n - k + 0xFFFFFFFF) % 0x100000000 = n - (k + 1) := by omega
      rw [if_pos hi, hcurr]
      by_cases hk : k + 1 = n
      . have hhead : head i = head (i - k) := by
          have := FirstRun.count_not_of_free k (fun j hlo hhi => h.streak j hlo (by omega))
          rw [Nat.sub_add_cancel hle] at this
          exact congrArg (ptr + ·) this
        refine Or.inl ⟨i - k, h.found hi hk (by omega), ?_⟩
        rw [if_pos (by omega), hhead, show i - k + n - 1 = i by omega]
      . have hhead : head (i + 1) = head i := by
          simp only [head, Nat.count_succ, if_neg (not_not_intro hi), Nat.add_zero]
        rw [if_neg (by omega), ← hhead]
        exact ih (h.take hi (by omega)) (by omega) (by omega)
    . have hhead : head (i + 1) = head i + 1 := by
        simp only [head, Nat.count_succ, if_pos hi, Nat.add_assoc]
      rw [if_neg hi, ← hhead]
      exact ih (h.skip hi) (by omega) (by omega)

theorem palloc_eq (m : Memory) (zone : Zone) (size : Nat)
    : cfg.palloc m zone.code size
        =
      match palloc.search m (cfg.memmap zone) (pages size) (cfg.memPages zone) 0 (cfg.memmap zone)
        (pages size) with
      | none => (0, m)
      | some (index, headPtr) =>
        let addr := ((index + 0x100000000 - pages size) <<< 12) % 0x100000000
        (match zone with | .kernel => phy2lin addr | .user => addr,
          m.fill headPtr MEM_USED (pages size)) := by
  cases zone with
  | kernel =>
    cases hsearch : palloc.search m cfg.memmapKernel (pages size) cfg.kernelMemPages 0 cfg.memmapKernel
      (pages size) <;>
      simp only [palloc, Zone.code, ZONE_KERNEL, ZONE_USER, memmap, memPages, ne_eq, Nat.reduceEqDiff, not_true,
        and_false, if_false, if_true, hsearch]
  | user =>
    cases hsearch : palloc.search m cfg.memmapUser (pages size) cfg.userMemPages 0 cfg.memmapUser
      (pages size) <;>
      simp only [palloc, Zone.code, ZONE_KERNEL, ZONE_USER, memmap, memPages, ne_eq, Nat.reduceEqDiff, not_true,
        false_and, if_false, hsearch]

theorem palloc_spec (m : Memory) (zone : Zone) {size : Nat} (hpos : 0 < size)
    (hlt : size < 0x100000000)
    : (∃ b, FirstRun (cfg.Unused m zone) (cfg.memPages zone) (pages size) b
        ∧ cfg.palloc m zone.code size
            =
          (runAddr zone b,
            m.fill (cfg.memmap zone + cfg.headIndex m zone b) MEM_USED (pages size)))
      ∨ ((∀ b, ¬ FirstRun (cfg.Unused m zone) (cfg.memPages zone) (pages size) b)
        ∧ cfg.palloc m zone.code size = (0, m)) := by
  have hn := pages_pos hpos
  have hn' := pages_lt hlt
  have hsearch := @palloc.search_spec m (cfg.memmap zone) _ hn' 0 0 (.start hn) (cfg.memPages zone)
  rw [palloc_eq]
  simp only [Nat.zero_add, Nat.count_zero, Nat.add_zero, Nat.sub_zero] at hsearch
  rcases hsearch with ⟨b, hrun, heq⟩ | ⟨hrun, heq⟩
  . refine Or.inl ⟨b, hrun, ?_⟩
    rw [heq]
    have haddr : ((b + pages size - 1 + 0x100000000 - pages size) <<< 12) % 0x100000000
        = (b + 0xFFFFF) % 0x100000 * 0x1000 := by
      rw [Nat.shiftLeft_eq]
      omega
    simp only [haddr]
    cases zone <;> rfl
  . exact Or.inr ⟨hrun, by rw [heq]⟩

theorem palloc_of_firstRun {m : Memory} {zone : Zone} {size b : Nat} (hpos : 0 < size) (hlt : size < 0x100000000)
    (hrun : FirstRun (cfg.Unused m zone) (cfg.memPages zone) (pages size) b)
    : cfg.palloc m zone.code size
        =
      (runAddr zone b, m.fill (cfg.memmap zone + cfg.headIndex m zone b) MEM_USED (pages size)) := by
  rcases cfg.palloc_spec m zone hpos hlt with ⟨b', hrun', hpalloc⟩ | ⟨hnone, -⟩
  . rw [hrun.unique hrun', hpalloc]
  . exact absurd hrun (hnone b)

/--
The number of entries `pfree` writes for a size: one less than it has full pages, and one more if that
is no multiple of 4096.
-/
def released (size : Nat) : Nat :=
  let len := size / PAGE_SIZE
  (if len % PAGE_SIZE ≠ 0 then len + 1 else len) - 1

theorem released_le (size : Nat) : released size ≤ size / PAGE_SIZE := by
  unfold released
  generalize size / PAGE_SIZE = len
  by_cases hlen : len = 0
  . simp [hlen]
  . dsimp only
    split <;> omega

theorem released_le_pages (size : Nat) : released size ≤ pages size := by
  have := released_le size
  rw [pages_eq]
  simp only [PAGE_SIZE] at *
  omega

theorem pfree_eq (m : Memory) (addr size : Nat) (zone : Zone)
    : cfg.pfree m addr size zone.code
        =
      pfree.release m (cfg.memmap zone + addr >>> 12) 1 (released size) := by
  cases zone <;> rfl

theorem load_release_of_ne {m : Memory} {ptr i left a : Nat}
    (h : ∀ j, i ≤ j → j < i + left → (ptr + j) % 0x100000000 ≠ a)
    : (pfree.release m ptr i left).load a = m.load a := by
  induction left generalizing m i with
  | zero => rfl
  | succ left ih =>
    rw [pfree.release, ih (fun j hlo hhi => h j (by omega) (by omega)), Memory.load_store,
      if_neg (h i (by omega) (by omega)).symm]

theorem load_release_of_eq {m : Memory} {ptr i left a j : Nat} (hlo : i ≤ j) (hhi : j < i + left)
    (h : (ptr + j) % 0x100000000 = a)
    : (pfree.release m ptr i left).load a = MEM_UNUSED := by
  induction left generalizing m i j with
  | zero => omega
  | succ left ih =>
    rw [pfree.release]
    -- the addresses wrap round, so a later store may hit the same entry again
    by_cases hagain : ∃ k, i + 1 ≤ k ∧ k < i + 1 + left ∧ (ptr + k) % 0x100000000 = a
    . obtain ⟨k, hk, hk', ha⟩ := hagain
      exact ih hk hk' ha
    . have hji : j = i := by
        by_contra hne
        exact hagain ⟨j, by omega, by omega, h⟩
      rw [load_release_of_ne (fun k hk hk' ha => hagain ⟨k, hk, hk', ha⟩), Memory.load_store,
        if_pos (hji ▸ h.symm)]

theorem release_storesIn (m : Memory) (ptr i left : Nat)
    : Memory.StoresIn m (pfree.release m ptr i left) (fun _ => True) := by
  induction left generalizing m i with
  | zero => exact .refl m
  | succ left ih => exact (Memory.StoresIn.store m _ MEM_UNUSED trivial).trans (ih _ _)

theorem release_storesIn_iff (m : Memory) (ptr i left : Nat) (S : Nat → Prop)
    : Memory.StoresIn m (pfree.release m ptr i left) S
        ↔
      ∀ j, i ≤ j → j < i + left → S ((ptr + j) % 0x100000000) := by
  induction left generalizing m i with
  | zero =>
    refine iff_of_true (.refl m) ?_
    intro j hlo hhi
    omega
  | succ left ih =>
    rw [pfree.release, Memory.StoresIn.trans_iff (.store m _ MEM_UNUSED trivial)
      (release_storesIn _ _ _ _), Memory.StoresIn.store_iff, ih]
    constructor
    . rintro ⟨hi, hlater⟩ j hlo hhi
      by_cases hji : j = i
      . exact hji ▸ hi
      . exact hlater j (by omega) (by omega)
    . intro h
      exact ⟨h i (by omega) (by omega), fun j hlo hhi => h j (by omega) (by omega)⟩

end MemConfig
end Osproj
