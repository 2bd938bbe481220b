import Osproj.Mm.Lemmas.PageRuns

/-!
This module contains which entries `palloc` marks and when it returns `NULL`. It marks the entries of the
first run only if no unused entry lies before that run, and the page before a run of the user zone can be
the one with the address `NULL`.
-/

namespace Osproj

namespace FirstRun

variable {free : Nat → Prop} {len n b : Nat}

theorem exists_of_run (h : b + n ≤ len ∧ ∀ i, b ≤ i → i < b + n → free i)
    : ∃ c, FirstRun free len n c := by
  classical
  have hex : ∃ b, b + n ≤ len ∧ ∀ i, b ≤ i → i < b + n → free i := ⟨b, h⟩
  obtain ⟨hfits, hall⟩ := Nat.find_spec hex
  refine ⟨Nat.find hex, hfits, hall, ?_⟩
  intro c hc
  have hmin := Nat.find_min hex hc
  by_contra hno
  push Not at hno
  exact hmin ⟨by omega, hno⟩

theorem count_not_lt [DecidablePred free] {i : Nat} (hi : i < b) (h : free i)
    : Nat.count (fun j => ¬ free j) b < b := by
  have hsplit := Nat.count_add (fun j => ¬ free j) (i + 1) (b - (i + 1))
  rw [show i + 1 + (b - (i + 1)) = b by omega, Nat.count_succ, if_neg (not_not_intro h)] at hsplit
  have hbefore := Nat.count_le (p := fun j => ¬ free j) (n := i)
  have hafter := Nat.count_le (p := fun k => ¬ free (i + 1 + k)) (n := b - (i + 1))
  omega

end FirstRun

namespace MemConfig

variable (cfg : MemConfig)

def HasRun (m : Memory) (zone : Zone) (n : Nat) : Prop :=
  ∃ b, b + n ≤ cfg.memPages zone ∧ ∀ i, b ≤ i → i < b + n → cfg.Unused m zone i

/--
`palloc` turns the entries of the first run, if there is one, and no others.
-/
def MarksRun (m : Memory) (zone : Zone) (size : Nat) : Prop :=
  let n := (size + 4095) / 4096
  ∀ b, FirstRun (cfg.Unused m zone) (cfg.memPages zone) n b →
    ∀ zone' i, i < cfg.memPages zone' →
      (cfg.palloc m zone.code size).2.load (cfg.memmap zone' + i)
        =
      if zone' = zone ∧ b ≤ i ∧ i < b + n then MEM_USED else m.load (cfg.memmap zone' + i)

/--
`palloc` returns `NULL` exactly if it is asked for nothing, for an unknown zone or for more than there is,
and changes neither map then.
-/
def FailsRightly (m : Memory) (zone size : Nat) : Prop :=
  let p := cfg.palloc m zone size
  (p.1 = 0
      ↔
    (zone ≠ ZONE_KERNEL ∧ zone ≠ ZONE_USER) ∨ size = 0
      ∨ (∃ z : Zone, z.code = zone ∧ ¬ cfg.HasRun m z ((size + 4095) / 4096)))
    ∧ (p.1 = 0 → ∀ a, cfg.InMaps a → p.2.load a = m.load a)

section Marks

variable {cfg}

theorem hasRun_of_firstRun {m : Memory} {zone : Zone} {n b : Nat}
    (h : FirstRun (cfg.Unused m zone) (cfg.memPages zone) n b)
    : cfg.HasRun m zone n :=
  ⟨b, h.fits, h.all⟩

theorem not_hasRun {m : Memory} {zone : Zone} {n : Nat}
    (h : ∀ b, ¬ FirstRun (cfg.Unused m zone) (cfg.memPages zone) n b)
    : ¬ cfg.HasRun m zone n := by
  rintro ⟨b, hrun⟩
  obtain ⟨c, hc⟩ := FirstRun.exists_of_run hrun
  exact h c hc

theorem zone_eq_of_memmap {zone zone' : Zone} {i j : Nat} (hi : i < cfg.memPages zone)
    (hj : j < cfg.memPages zone') (h : cfg.memmap zone + i = cfg.memmap zone' + j)
    : zone = zone' := by
  have huser := cfg.memmapUser_eq
  cases zone with
  | kernel =>
    cases zone' with
    | kernel => rfl
    | user =>
      simp only [memmap, memPages] at h hi
      omega
  | user =>
    cases zone' with
    | kernel =>
      simp only [memmap, memPages] at h hj
      omega
    | user => rfl

theorem load_fill_entry {m : Memory} {zone zone' : Zone} {h n i : Nat} (hfits : h + n ≤ cfg.memPages zone)
    (hi : i < cfg.memPages zone')
    : (m.fill (cfg.memmap zone + h) MEM_USED n).load (cfg.memmap zone' + i)
        =
      if zone' = zone ∧ h ≤ i ∧ i < h + n then MEM_USED else m.load (cfg.memmap zone' + i) := by
  rw [Memory.load_fill]
  by_cases hzone : zone' = zone
  . subst hzone
    congr 1
    apply propext
    rw [eq_self_iff_true, true_and]
    omega
  . have hout : ¬ (cfg.memmap zone + h ≤ cfg.memmap zone' + i
        ∧ cfg.memmap zone' + i < cfg.memmap zone + h + n) := by
      rintro ⟨hlo, hhi⟩
      have hj : cfg.memmap zone' + i - cfg.memmap zone < cfg.memPages zone := by omega
      exact hzone (zone_eq_of_memmap hi hj (by omega))
    rw [if_neg hout, if_neg (fun h => hzone h.1)]

/--
The entries marked are those of the first run exactly if all entries before it are taken.
-/
theorem marksRun_iff (cfg : MemConfig) (m : Memory) (zone : Zone) (size : Nat) (hpos : 0 < size)
    (hlt : size < 0x100000000)
    : cfg.MarksRun m zone size
        ↔
      ∀ b, FirstRun (cfg.Unused m zone) (cfg.memPages zone) (pages size) b →
        ∀ i, i < b → ¬ cfg.Unused m zone i := by
  have hn := pages_pos hpos
  simp only [MarksRun, ← pages_eq]
  rcases cfg.palloc_spec m zone hpos hlt with ⟨b, hrun, hpalloc⟩ | ⟨hnone, hpalloc⟩
  . have hfits := hrun.fits
    have hhead := cfg.headIndex_le m zone b
    constructor
    . intro h b' hrun' i hi hunused
      obtain rfl := hrun.unique hrun'
      have hhead' : cfg.headIndex m zone b < b := FirstRun.count_not_lt hi hunused
      -- the last entry of the run stays as it was
      have hlast := h b hrun zone (b + pages size - 1) (by omega)
      have hbeyond : ¬ b + pages size - 1 < cfg.headIndex m zone b + pages size := by omega
      rw [hpalloc, load_fill_entry (by omega) (by omega), if_neg (fun h => hbeyond h.2.2),
        if_pos ⟨rfl, by omega, by omega⟩] at hlast
      have hfree : m.load _ = MEM_UNUSED := hrun.all (b + pages size - 1) (by omega) (by omega)
      rw [hfree] at hlast
      exact absurd hlast (by decide)
    . intro h b' hrun' zone' i hi
      obtain rfl := hrun.unique hrun'
      rw [hpalloc, headIndex_of_taken (h b hrun), load_fill_entry hfits hi]
  . exact iff_of_true (fun b hrun => absurd hrun (hnone b)) (fun b hrun => absurd hrun (hnone b))

theorem marksRun_iff_one_page
    : let cfg : MemConfig := ⟨0x200000, 0x8000, by decide, by decide, by decide⟩
      let m := cfg.pageInit ⟨fun _ => 0, []⟩
      cfg.MarksRun m .user 4096
        ↔
      ∀ b, FirstRun (cfg.Unused m .user) (cfg.memPages .user) (pages 4096) b →
        ∀ i, i < b → ¬ cfg.Unused m .user i := by
  intro cfg m
  exact marksRun_iff cfg m .user 4096 (by decide) (by decide)

/--
Of four pages of the user zone the third is given back. The next two pages are the fifth and the sixth,
but the fourth and the fifth entry are marked.
-/
theorem not_marksRun
    : let cfg : MemConfig := ⟨0x20000, 0x400, by decide, by decide, by decide⟩
      let page : PageOp := .palloc .user 4096 (by decide) (by decide)
      ∃ s, Run.run cfg.pageStep ⟨cfg.pageInit ⟨fun _ => 0, []⟩, []⟩ [page, page, page, page, .pfree 1] = some s
        ∧ ¬ cfg.MarksRun s.mem .user 8192 := by
  intro cfg page
  refine ⟨_, Option.eq_some_of_isSome (by decide +kernel), ?_⟩
  intro h
  refine absurd (h 4 ⟨by decide, ?_, ?_⟩ .user 5 (by decide)) (by decide +kernel)
  . intro i hlo hhi
    obtain rfl | rfl : i = 4 ∨ i = 5 := by omega
    . decide +kernel
    . decide +kernel
  . intro c hc
    obtain rfl | rfl | hc : c = 0 ∨ c = 1 ∨ (c = 2 ∨ c = 3) := by omega
    . exact ⟨0, by omega, by omega, by decide +kernel⟩
    . exact ⟨1, by omega, by omega, by decide +kernel⟩
    . exact ⟨3, by omega, by omega, by decide +kernel⟩

end Marks

section Failures

variable {cfg}

theorem palloc.search_zero {m : Memory} {ptr index headPtr k left : Nat} (h : k + left < 0x100000000)
    : palloc.search m ptr 0 left index headPtr ((0x100000000 - k) % 0x100000000) = none := by
  induction left generalizing index headPtr k with
  | zero => rfl
  | succ left ih =>
    rw [palloc.search]
    split
    . have hcurr : ((0x100000000 - k) % 0x100000000 + 0xFFFFFFFF) % 0x100000000
          = (0x100000000 - (k + 1)) % 0x100000000 := by
        omega
      dsimp only
      rw [hcurr, if_neg (by omega)]
      exact ih (by omega)
    . exact @ih (index + 1) (headPtr + 1) 0 (by omega)

theorem palloc_zero (m : Memory) (zone : Zone) : cfg.palloc m zone.code 0 = (0, m) := by
  have hpages : cfg.memPages zone < 0x100000000 := by
    have := cfg.kernelMemPages_le
    have := cfg.userMemPages_eq
    cases zone <;> simp only [memPages] <;> omega
  have hnone := @palloc.search_zero m (cfg.memmap zone) 0 (cfg.memmap zone) 0 (cfg.memPages zone) (by omega)
  have hzero : pages 0 = 0 := rfl
  rw [palloc_eq, hzero]
  rw [Nat.sub_zero, Nat.mod_self] at hnone
  rw [hnone]

theorem palloc_of_zone {m : Memory} {zone size : Nat} (h : zone ≠ ZONE_KERNEL) (h' : zone ≠ ZONE_USER)
    : cfg.palloc m zone size = (0, m) := by
  simp only [palloc, ne_eq, h, h', not_false_iff, and_self, if_true]

theorem Zone.code_inj {z z' : Zone} (h : z.code = z'.code) : z = z' := by
  cases z <;> cases z' <;> first | rfl | exact absurd h (by decide)

theorem exists_zone_code {zone : Nat} (h : ¬ (zone ≠ ZONE_KERNEL ∧ zone ≠ ZONE_USER)) : ∃ z : Zone, z.code = zone := by
  by_cases hkernel : zone = ZONE_KERNEL
  . exact ⟨.kernel, hkernel.symm⟩
  . exact ⟨.user, (not_ne_iff.mp (fun huser => h ⟨hkernel, huser⟩)).symm⟩

theorem exists_code_not_hasRun_iff {m : Memory} {z : Zone} {n : Nat}
    : (∃ z' : Zone, z'.code = z.code ∧ ¬ cfg.HasRun m z' n) ↔ ¬ cfg.HasRun m z n := by
  constructor
  . rintro ⟨z', hcode, hno⟩
    exact Zone.code_inj hcode ▸ hno
  . exact fun hno => ⟨z, rfl, hno⟩

/--
`NULL` means what it is meant to mean unless the first run is that of the page 0, whose address is `NULL`.
-/
theorem failsRightly_iff (cfg : MemConfig) (m : Memory) (zone size : Nat) (hlt : size < 0x100000000)
    : cfg.FailsRightly m zone size
        ↔
      ¬ (zone = ZONE_USER ∧ FirstRun (cfg.Unused m .user) cfg.userMemPages (pages size) 1) := by
  simp only [FailsRightly, ← pages_eq]
  by_cases hzone : zone ≠ ZONE_KERNEL ∧ zone ≠ ZONE_USER
  . rw [palloc_of_zone hzone.1 hzone.2]
    exact iff_of_true ⟨iff_of_true rfl (Or.inl hzone), fun _ _ _ => rfl⟩ (fun h => hzone.2 h.1)
  obtain ⟨z, rfl⟩ := exists_zone_code hzone
  rw [exists_code_not_hasRun_iff]
  rcases Nat.eq_zero_or_pos size with rfl | hpos
  . rw [palloc_zero]
    refine iff_of_true ⟨iff_of_true rfl (Or.inr (Or.inl rfl)), fun _ _ _ => rfl⟩ ?_
    rintro ⟨-, hrun⟩
    obtain ⟨i, hlo, hhi, -⟩ := hrun.least 0 (by omega)
    exact absurd hhi (by simp [pages])
  rcases cfg.palloc_spec m z hpos hlt with ⟨b, hrun, hpalloc⟩ | ⟨hnone, hpalloc⟩
  . have hn := pages_pos hpos
    have hfits := hrun.fits
    have hnull := cfg.runAddr_eq_zero_iff (show b < cfg.memPages z by omega)
    have hright : ¬ ((z.code ≠ ZONE_KERNEL ∧ z.code ≠ ZONE_USER) ∨ size = 0
        ∨ ¬ cfg.HasRun m z (pages size)) := by
      rintro (hno | hzero | hno)
      . exact hzone hno
      . omega
      . exact hno (hasRun_of_firstRun hrun)
    rw [hpalloc]
    dsimp only
    rw [hnull, iff_false_right hright]
    constructor
    . rintro ⟨hne, -⟩ ⟨huser, hrun'⟩
      obtain rfl : z = .user := Zone.code_inj huser
      exact hne ⟨rfl, hrun.unique hrun'⟩
    . intro h
      have hne : ¬ (z = .user ∧ b = 1) := by
        rintro ⟨rfl, rfl⟩
        exact h ⟨rfl, hrun⟩
      exact ⟨hne, fun hnull => absurd hnull hne⟩
  . rw [hpalloc]
    refine iff_of_true ⟨iff_of_true rfl (Or.inr (Or.inr (not_hasRun hnone))), fun _ _ _ => rfl⟩ ?_
    rintro ⟨huser, hrun⟩
    obtain rfl : z = .user := Zone.code_inj huser
    exact hnone 1 hrun

theorem failsRightly_iff_kernel
    : let cfg : MemConfig := ⟨0x200000, 0x8000, by decide, by decide, by decide⟩
      cfg.FailsRightly (cfg.pageInit ⟨fun _ => 0, []⟩) ZONE_KERNEL 8192 := by
  intro cfg
  exact (failsRightly_iff cfg _ ZONE_KERNEL 8192 (by decide)).mpr (fun h => absurd h.1 (by decide))

/--
The second page of the user zone is the one with the address `NULL`.
-/
theorem not_failsRightly
    : let cfg : MemConfig := ⟨0x200000, 0x8000, by decide, by decide, by decide⟩
      ∃ s, Run.run cfg.pageStep ⟨cfg.pageInit ⟨fun _ => 0, []⟩, []⟩
          [.palloc .user 4096 (by decide) (by decide)] = some s
        ∧ ¬ cfg.FailsRightly s.mem ZONE_USER 4096 := by
  intro cfg
  refine ⟨_, rfl, ?_⟩
  rintro ⟨hnull, -⟩
  rcases hnull.mp (by decide +kernel) with ⟨-, hzone⟩ | hzero | ⟨z, hz, hno⟩
  . exact hzone rfl
  . omega
  . obtain rfl : z = .user := Zone.code_inj hz
    refine hno ⟨1, by decide, ?_⟩
    intro i hlo hhi
    obtain rfl : i = 1 := by omega
    decide +kernel

end Failures

end MemConfig
end Osproj
