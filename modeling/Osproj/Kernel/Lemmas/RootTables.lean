import Mathlib.Data.Nat.Find
import Osproj.Kernel.Lemmas.Xsdt

/-!
This module contains the search for the ACPI root tables: which RSDP `acpi_init` uses, and when it follows the `NULL`
of a table that it has not found.
-/

namespace Osproj
namespace Acpi

variable {m : Memory} {x : Nat}

def candidate (k : Nat) : Nat := RSDP_LO + 16 * k

/--
The table that the search ends at: the first one with the signature, or what lies behind the last candidate.
-/
def Chosen (m : Memory) (x : Nat) : Prop :=
  ∃ k ≤ 0x2000, x = candidate k ∧ (∀ j < k, ¬ Signed m (candidate j) RSD_PTR)
    ∧ (k < 0x2000 → Signed m (candidate k) RSD_PTR)

theorem exists_chosen (m : Memory) : ∃ x, Chosen m x := by
  classical
  have hex : ∃ k, k = 0x2000 ∨ Signed m (candidate k) RSD_PTR := ⟨0x2000, Or.inl rfl⟩
  refine ⟨candidate (Nat.find hex), Nat.find hex, Nat.find_min' hex (Or.inl rfl), rfl, ?_, ?_⟩
  . intro j hj hsigned
    exact Nat.find_min hex hj (Or.inr hsigned)
  . intro hlt
    rcases Nat.find_spec hex with heq | hsigned
    . exact absurd heq (Nat.ne_of_lt hlt)
    . exact hsigned

theorem mapped_candidate {k i : Nat} (hk : k ≤ 0x2000) (hi : i < 0x100) : Mapped (candidate k + i) := by
  apply mapped_of_lt
  simp only [candidate, RSDP_LO]
  omega

theorem compare_candidate {k r : Nat} (hk : k ≤ 0x2000)
    : compare m (candidate k + 0xC0000000) RSD_PTR = some r
        ↔
      Signed m (candidate k) RSD_PTR ∧ r = 0 ∨ ¬ Signed m (candidate k) RSD_PTR ∧ r = 1 := by
  have hreadable : Readable m (candidate k) RSD_PTR :=
    fun j hj _ => mapped_candidate hk (Nat.lt_trans hj (by decide))
  rw [compare_eq_some_iff, and_iff_right hreadable]

theorem candidate_lt_iff {k : Nat} : candidate k + 0xC0000000 < phy2lin RSDP_HI ↔ k < 0x2000 := by
  rw [show phy2lin RSDP_HI = RSDP_HI + 0xC0000000 by decide, Nat.add_lt_add_iff_right]
  simp only [candidate, RSDP_LO, RSDP_HI]
  omega

theorem search_step_of_not_signed {k : Nat} (hk : k < 0x2000) (h : ¬ Signed m (candidate k) RSD_PTR)
    : search.step m (candidate k + 0xC0000000) = some (.inl (candidate (k + 1) + 0xC0000000)) := by
  have hcompare := (compare_candidate (Nat.le_of_lt hk)).mpr (Or.inr ⟨h, rfl⟩)
  have hnext : candidate k + 0xC0000000 + 16 = candidate (k + 1) + 0xC0000000 := by
    rw [Nat.add_right_comm, candidate, candidate, Nat.add_assoc RSDP_LO, Nat.mul_add_one]
  rw [search.step, if_pos (candidate_lt_iff.mpr hk), hcompare, ← hnext]
  rfl

theorem search_step_of_chosen {k : Nat} (hk : k ≤ 0x2000) (h : k < 0x2000 → Signed m (candidate k) RSD_PTR)
    : search.step m (candidate k + 0xC0000000) = some (.inr (candidate k + 0xC0000000)) := by
  by_cases hlt : k < 0x2000
  . have hcompare := (compare_candidate hk).mpr (Or.inl ⟨h hlt, rfl⟩)
    rw [search.step, if_pos (candidate_lt_iff.mpr hlt), hcompare]
    rfl
  . rw [search.step, if_neg (fun hbelow => hlt (candidate_lt_iff.mp hbelow))]
    rfl

theorem search_of_chosen (h : Chosen m x) : search m = some (x + 0xC0000000) := by
  obtain ⟨k, hk, rfl, hbefore, hsigned⟩ := h
  have hpath (n : Nat) (hn : n ≤ k)
      : Loop.Path (search.step m) n (candidate (k - n) + 0xC0000000) (candidate k + 0xC0000000) := by
    induction n with
    | zero => rfl
    | succ n ih =>
      have hstep := search_step_of_not_signed (m := m) (k := k - (n + 1)) (by omega) (hbefore _ (by omega))
      rw [show k - (n + 1) + 1 = k - n by omega] at hstep
      exact ⟨_, hstep, ih (Nat.le_of_succ_le hn)⟩
  have hstart := hpath k (Nat.le_refl k)
  rw [Nat.sub_self] at hstart
  exact Loop.loop_of_le (Loop.loop_of_path hstart (search_step_of_chosen hk hsigned)) (Nat.succ_le_succ hk)

def RsdpOk (bytes : Nat → BitVec 8) : Prop :=
  ((List.range RSDP_SZ).map (fun i => (bytes i).toNat)).sum % 0x100 = 0 ∧ bytes 15 = 0

instance (bytes : Nat → BitVec 8) : Decidable (RsdpOk bytes) := inferInstanceAs (Decidable (_ ∧ _))

theorem rsdp_eq {a : Nat} {bytes : Nat → BitVec 8} (hsearch : search m = some a)
    (hload : ∀ i < RSDP_SZ, load m (a + i) = some (bytes i))
    : ∃ reason, rsdp m = some (if RsdpOk bytes then .ok a else .error reason) := by
  obtain ⟨sum, hsum, hmod⟩ := sumTo_eq hload
  have hsum_iff := and_mask_eq_zero_iff sum
  rw [hmod] at hsum_iff
  have hchecksum := acpiChecksum_eq_some_iff.mpr ⟨sum, hsum, rfl⟩
  rw [rsdp, hsearch]
  simp only [Option.bind_eq_bind, Option.bind_some, hchecksum, hload 15 (by decide)]
  by_cases hzero : sum &&& 0xFF = 0
  . rw [if_pos hzero, if_neg (by decide)]
    by_cases hrevision : bytes 15 = 0
    . have hok : RsdpOk bytes := ⟨hsum_iff.mp hzero, hrevision⟩
      exact ⟨"", by rw [if_neg (not_not_intro hrevision), if_pos hok, Option.pure_def]⟩
    . have hok : ¬ RsdpOk bytes := fun hok => hrevision hok.2
      exact ⟨"unsupported acpi version", by rw [if_pos hrevision, if_neg hok, Option.pure_def]⟩
  . have hok : ¬ RsdpOk bytes := fun hok => hzero (hsum_iff.mpr hok.1)
    exact ⟨"bad rsdp checksum", by rw [if_neg hzero, if_pos (Eq.refl 0), if_neg hok, Option.pure_def]⟩

def bytesAt (m : Memory) (x i : Nat) : BitVec 8 := byteAt m (x + i)

theorem rsdp_of_chosen (h : Chosen m x)
    : ∃ reason, rsdp m = some (if RsdpOk (bytesAt m x) then .ok (x + 0xC0000000) else .error reason) := by
  apply rsdp_eq (search_of_chosen h)
  intro i hi
  obtain ⟨k, hk, rfl, -⟩ := h
  rw [Nat.add_right_comm]
  exact load_of_mapped (mapped_candidate hk (Nat.lt_trans hi (by decide)))

theorem Chosen.view (h : Chosen m x) : phy2lin x = x + 0xC0000000 := by
  obtain ⟨k, hk, rfl, -⟩ := h
  apply phy2lin_of_kernel
  constructor
  . exact Nat.zero_le _
  . simp only [candidate, RSDP_LO]
    omega

theorem Chosen.unique {x' : Nat} (h : Chosen m x) (h' : Chosen m x') : x = x' := by
  have hsearch := search_of_chosen h
  rw [search_of_chosen h', Option.some.injEq] at hsearch
  exact (Nat.add_right_cancel hsearch).symm

def FirstSigned (m : Memory) (x : Nat) : Prop :=
  ∃ k < 0x2000, x = candidate k ∧ Signed m (candidate k) RSD_PTR ∧ ∀ j < k, ¬ Signed m (candidate j) RSD_PTR

/--
The root pointer that is used has the signature and passes both checks, and without one there is a panic.
-/
def AcceptsOnlyValid (m : Memory) : Prop :=
  (∀ a, rsdp m = some (.ok a) → ∃ x, FirstSigned m x ∧ RsdpOk (bytesAt m x) ∧ a = phy2lin x)
    ∧ ((¬ ∃ x, FirstSigned m x ∧ RsdpOk (bytesAt m x)) → ∃ reason, rsdp m = some (.error reason))

theorem acceptsOnlyValid_of_signed (h : FirstSigned m x) : AcceptsOnlyValid m := by
  obtain ⟨k, hk, rfl, hsigned, hbefore⟩ := h
  have hchosen : Chosen m (candidate k) := ⟨k, Nat.le_of_lt hk, rfl, hbefore, fun _ => hsigned⟩
  have hfirst : FirstSigned m (candidate k) := ⟨k, hk, rfl, hsigned, hbefore⟩
  obtain ⟨reason, hrsdp⟩ := rsdp_of_chosen hchosen
  constructor
  . intro a ha
    rw [hrsdp, Option.some.injEq] at ha
    split at ha
    . next hok =>
      obtain rfl := Except.ok.inj ha
      exact ⟨candidate k, hfirst, hok, hchosen.view.symm⟩
    . cases ha
  . intro hnone
    rw [if_neg (fun hok => hnone ⟨_, hfirst, hok⟩)] at hrsdp
    exact ⟨reason, hrsdp⟩

theorem acceptsOnlyValid_of_not_signed (h : ∀ k < 0x2000, ¬ Signed m (candidate k) RSD_PTR)
    : AcceptsOnlyValid m ↔ ¬ RsdpOk (bytesAt m (candidate 0x2000)) := by
  have hnone : ¬ ∃ x, FirstSigned m x ∧ RsdpOk (bytesAt m x) := by
    rintro ⟨x, ⟨k, hk, -, hsigned, -⟩, -⟩
    exact h k hk hsigned
  obtain ⟨reason, hrsdp⟩ :=
    rsdp_of_chosen ⟨0x2000, Nat.le_refl _, rfl, h, fun hlt => absurd hlt (Nat.lt_irrefl _)⟩
  constructor
  . rintro ⟨haccepted, -⟩ hok
    rw [if_pos hok] at hrsdp
    obtain ⟨x, hfirst, hx, -⟩ := haccepted _ hrsdp
    exact hnone ⟨x, hfirst, hx⟩
  . intro hok
    rw [if_neg hok] at hrsdp
    refine ⟨fun a ha => ?_, fun _ => ⟨reason, hrsdp⟩⟩
    rw [hrsdp] at ha
    cases ha

theorem acceptsOnlyValid_iff (m : Memory)
    : AcceptsOnlyValid m
        ↔
      (∃ k < 0x2000, Signed m (candidate k) RSD_PTR) ∨ ¬ RsdpOk (bytesAt m (candidate 0x2000)) := by
  obtain ⟨x, k, hk, rfl, hbefore, hsigned⟩ := exists_chosen m
  rcases Nat.lt_or_eq_of_le hk with hlt | rfl
  . apply iff_of_true
    . exact acceptsOnlyValid_of_signed ⟨k, hlt, rfl, hsigned hlt, hbefore⟩
    . exact Or.inl ⟨k, hlt, hsigned hlt⟩
  . rw [acceptsOnlyValid_of_not_signed hbefore]
    constructor
    . exact Or.inr
    . rintro (⟨k, hlt, hsigned⟩ | hok)
      . exact absurd hsigned (hbefore k hlt)
      . exact hok

/--
`acpi_init` uses the RSDT at `rsdt`: both checksums and the revision pass, also where no RSDP has been found.
-/
def Accepted (m : Memory) (rsdt len : Nat) : Prop :=
  ∃ x a, Chosen m x ∧ RsdpOk (bytesAt m x) ∧ loadWord m (phy2lin x + 16) = some a ∧ rsdt = phy2lin a
    ∧ ValidRsdt m rsdt len

theorem rsdp_eq_ok_iff {a : Nat}
    : rsdp m = some (.ok a) ↔ ∃ x, Chosen m x ∧ RsdpOk (bytesAt m x) ∧ a = phy2lin x := by
  obtain ⟨x, hx⟩ := exists_chosen m
  obtain ⟨reason, hrsdp⟩ := rsdp_of_chosen hx
  rw [hrsdp]
  constructor
  . intro h
    split at h
    . next hok =>
      obtain rfl := Except.ok.inj (Option.some.inj h)
      exact ⟨x, hx, hok, hx.view.symm⟩
    . cases h
  . rintro ⟨x', hx', hok, rfl⟩
    obtain rfl := hx.unique hx'
    rw [if_pos hok, hx.view]

theorem acpiInit_eq_null_iff {fuel : Nat} {i : BitVec 32}
    : acpiInit m fuel i = some .null
        ↔
      ∃ rsdt len, Accepted m rsdt len
        ∧ (findXsdt m rsdt APIC = some 0
          ∨ ∃ madt lapic r, (findXsdt m rsdt APIC = some madt ∧ madt ≠ 0) ∧ loadWord m (madt + 36) = some lapic
            ∧ walk m madt fuel i = some r ∧ findXsdt m rsdt HPET = some 0) := by
  constructor
  . intro h
    rw [acpiInit, Option.bind_eq_bind, Option.bind_eq_some_iff] at h
    obtain ⟨root, hroot, h⟩ := h
    cases root with
    | error reason => cases h
    | ok rsdp =>
      obtain ⟨x, hx, hok, rfl⟩ := rsdp_eq_ok_iff.mp hroot
      obtain ⟨a, ha, h⟩ := Option.bind_eq_some_iff.mp h
      obtain ⟨len, hlen, h⟩ := Option.bind_eq_some_iff.mp h
      obtain ⟨c, hc, h⟩ := Option.bind_eq_some_iff.mp h
      split at h
      . cases h
      . next hne =>
        have hvalid : ValidRsdt m (phy2lin a) len := ⟨hlen, eq_one_of_acpiChecksum hc hne ▸ hc⟩
        refine ⟨phy2lin a, len, ⟨x, a, hx, hok, ha, rfl, hvalid⟩, ?_⟩
        obtain ⟨madt, hmadt, h⟩ := Option.bind_eq_some_iff.mp h
        split at h
        . next hzero => exact Or.inl (hzero ▸ hmadt)
        . next hmadt_ne =>
          obtain ⟨lapic, hlapic, h⟩ := Option.bind_eq_some_iff.mp h
          obtain ⟨r, hr, h⟩ := Option.bind_eq_some_iff.mp h
          obtain ⟨hpet, hhpet, h⟩ := Option.bind_eq_some_iff.mp h
          split at h
          . next hzero => exact Or.inr ⟨madt, lapic, r, ⟨hmadt, hmadt_ne⟩, hlapic, hr, hzero ▸ hhpet⟩
          . obtain ⟨addr, -, h⟩ := Option.bind_eq_some_iff.mp h
            cases h
  . rintro ⟨rsdt, len, ⟨x, a, hx, hok, ha, rfl, hlen, hsum⟩, hnull⟩
    have hroot : rsdp m = some (.ok (phy2lin x)) := rsdp_eq_ok_iff.mpr ⟨x, hx, hok, rfl⟩
    rw [acpiInit, hroot]
    simp only [Option.bind_eq_bind, Option.bind_some, ha, hlen, hsum]
    rw [if_neg (by decide)]
    rcases hnull with hmadt | ⟨madt, lapic, r, ⟨hmadt, hne⟩, hlapic, hr, hhpet⟩
    . rw [hmadt]
      rfl
    . simp only [hmadt, Option.bind_some, if_neg hne, hlapic, hr, hhpet]
      rfl

def TablesPresent (m : Memory) (fuel : Nat) (i : BitVec 32) : Prop :=
  ∀ rsdt len, Accepted m rsdt len →
    ¬ Missing m rsdt len APIC
      ∧ ∀ p lapic r, FoundAt m rsdt len APIC p → loadWord m (phy2lin p + 36) = some lapic →
          walk m (phy2lin p) fuel i = some r → ¬ Missing m rsdt len HPET

theorem neverNull_iff (m : Memory) (fuel : Nat) (i : BitVec 32)
    : acpiInit m fuel i ≠ some .null ↔ TablesPresent m fuel i := by
  rw [ne_eq, acpiInit_eq_null_iff]
  constructor
  . intro h rsdt len hacc
    have ⟨_, _, _, _, _, _, hlen, _⟩ := hacc
    constructor
    . intro hmissing
      exact h ⟨rsdt, len, hacc, Or.inl ((findXsdt_eq_zero_iff hlen rfl).mpr hmissing)⟩
    . intro p lapic r hfound hlapic hr hmissing
      refine h ⟨rsdt, len, hacc, Or.inr ⟨phy2lin p, lapic, r, ?_, hlapic, hr, ?_⟩⟩
      . exact (findXsdt_ne_zero_iff hlen rfl).mpr ⟨p, hfound, rfl⟩
      . exact (findXsdt_eq_zero_iff hlen rfl).mpr hmissing
  . rintro h ⟨rsdt, len, hacc, hnull⟩
    have ⟨_, _, _, _, _, _, hlen, _⟩ := hacc
    rcases hnull with hmadt | ⟨madt, lapic, r, hmadt, hlapic, hr, hhpet⟩
    . exact (h rsdt len hacc).1 ((findXsdt_eq_zero_iff hlen rfl).mp hmadt)
    . obtain ⟨p, hfound, rfl⟩ := (findXsdt_ne_zero_iff hlen rfl).mp hmadt
      exact (h rsdt len hacc).2 p lapic r hfound hlapic hr ((findXsdt_eq_zero_iff hlen rfl).mp hhpet)

theorem rootTables_iff (m : Memory)
    : (AcceptsOnlyValid m
          ↔
        (∃ k < 0x2000, Signed m (candidate k) RSD_PTR) ∨ ¬ RsdpOk (bytesAt m (candidate 0x2000)))
      ∧ (∀ rsdt len signature, ValidRsdt m rsdt len → signature.length = 4 →
          (FindsFirst m rsdt len signature ↔ 36 ≤ len ∧ ReachesMapped m rsdt len signature))
      ∧ ∀ fuel i, acpiInit m fuel i ≠ some .null ↔ TablesPresent m fuel i := by
  refine ⟨acceptsOnlyValid_iff m, ?_, neverNull_iff m⟩
  intro rsdt len signature hvalid hsignature
  exact findsFirst_iff hvalid hsignature

/--
An RSDP for an RSDT without entries.
-/
def bareTables : List (BitVec 8) :=
  RSD_PTR ++ [0xB3] ++ List.replicate 7 0 ++ [0x20, 0x00, 0x0E, 0x00]
    ++ List.replicate 12 0
    ++ [0, 0, 0, 0, 36, 0, 0, 0, 0, 0xDC] ++ List.replicate 26 0

def bareMemory : Memory where
  cell := fun a => if 0xE0000 ≤ a then bareTables.getD (a - 0xE0000) 0 else 0
  log := []

/--
The RSDT has an entry for the table behind it.
-/
def listedTables : List (BitVec 8) :=
  bareTables.take 32 ++ [0, 0, 0, 0, 40, 0, 0, 0, 0, 0x82] ++ List.replicate 26 0 ++ [0x48, 0x00, 0x0E, 0x00] ++ APIC

def listedMemory : Memory where
  cell := fun a => if 0xE0000 ≤ a then listedTables.getD (a - 0xE0000) 0 else 0
  log := []

theorem validRsdt_listedMemory : ValidRsdt listedMemory 0xC00E0020 40 := by
  constructor
  . rfl
  . rfl

theorem rootTables_iff_listedMemory
    : FindsFirst listedMemory 0xC00E0020 40 APIC ∧ FirstTable listedMemory 0xC00E0020 40 APIC 0 := by
  have hentry : entryAt listedMemory 0xC00E0020 0 = 0xE0048 := rfl
  constructor
  . apply ((rootTables_iff listedMemory).2.1 0xC00E0020 40 APIC validRsdt_listedMemory rfl).mpr
    refine ⟨by decide, fun i hi _ => ?_⟩
    obtain rfl : i = 0 := Nat.lt_one_iff.mp hi
    intro j hj _
    rw [hentry]
    have hlength : APIC.length = 4 := rfl
    exact mapped_of_lt (by omega)
  . refine ⟨by decide, ?_, fun j hj => absurd hj (Nat.not_lt_zero j)⟩
    rw [hentry]
    unfold Signed
    decide +kernel

def zeroMemory : Memory where
  cell := fun _ => 0
  log := []

/--
Memory without any table is accepted, the search in its RSDT of no bytes reads behind them, and with an RSDT that has
no entries `NULL` is followed.
-/
theorem not_rootTables
    : ¬ AcceptsOnlyValid zeroMemory
        ∧ (ValidRsdt zeroMemory 0xC0000000 0 ∧ ¬ FindsFirst zeroMemory 0xC0000000 0 APIC)
        ∧ acpiInit bareMemory 0 0 = some .null := by
  have hvalid : ValidRsdt zeroMemory 0xC0000000 0 := ⟨rfl, rfl⟩
  refine ⟨?_, ⟨hvalid, ?_⟩, rfl⟩
  . rw [acceptsOnlyValid_iff]
    rintro (⟨k, -, hsigned⟩ | hok)
    . have hfirst := hsigned 0 (by decide)
      simp [RSD_PTR, byteAt, zeroMemory, Memory.load] at hfirst
    . exact hok ⟨rfl, rfl⟩
  . rw [findsFirst_iff hvalid rfl]
    rintro ⟨hle, -⟩
    exact absurd hle (by decide)

end Acpi
end Osproj
