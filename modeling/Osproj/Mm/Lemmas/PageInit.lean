import Osproj.Mm.Lemmas.Buddy

/-!
This module contains what `page_init` does for every size of the memory and of the kernel image whose
status map ends below the last linear address. The map lies behind the image, and the entries of all
pages up to the end of the map are taken, whether they are in the kernel map or in the user map.
-/

namespace Osproj
namespace PageVars

/--
The entry of every page up to the one with the end `E + P` of the map is taken and all others are not,
nothing else is written, and the pages of the image and of the map are taken. `E` is the physical end of
the image, `P` the number of pages.
-/
structure Protects (E P : Nat) (m : Memory) (v : PageVars) (m' : Memory) : Prop where
  kernel_map : v.memmapKernel = E + 0xC0000000
  user_map : v.memmapUser = v.memmapKernel + v.kernelMemPages
  pages : v.kernelMemPages + v.userMemPages = P
  status : ∀ p, p < P → m'.load (v.memmapKernel + p)
    = if p ≤ (E + P) >>> 12 then MEM_USED else MEM_UNUSED
  stores : Memory.StoresIn m m' (fun a => E + 0xC0000000 ≤ a ∧ a < E + P + 0xC0000000)
  taken : ∀ a, a < E + P → a / PAGE_SIZE < P ∧ m'.load (v.memmapKernel + a / PAGE_SIZE) = MEM_USED

/--
The variables of a map that ends below the last linear address. `n` is the number of pages of the kernel.
-/
structure Fits (E n : Nat) (v : PageVars) : Prop where
  memmapKernel_eq : v.memmapKernel = E + 0xC0000000
  memmapUser_eq : v.memmapUser = v.memmapKernel + n
  memmapEnd_eq : v.memmapEnd = v.memmapKernel + 4 * n
  kernelMemPages_eq : v.kernelMemPages = n
  userMemPages_eq : v.userMemPages = 3 * n
  reserved_eq : v.kernelReservedPages = (E + 4 * n) / 4096 + 1

theorem reserve_eq {m : Memory} {ptr n : Nat} (h : ptr + n < 0x100000000)
    : reserve m ptr n = (ptr + n, m.fill ptr MEM_USED n) := by
  induction n generalizing m ptr with
  | zero => rfl
  | succ n ih =>
    rw [reserve, Nat.mod_eq_of_lt (by omega), ih (by omega), Nat.add_assoc, Nat.add_comm 1 n]
    rfl

theorem clear_eq (v : PageVars) (m : Memory) (ptr : Nat)
    : v.clear m ptr = m.fill ptr MEM_UNUSED (v.memmapEnd - ptr) := by
  induction hleft : v.memmapEnd - ptr generalizing m ptr with
  | zero =>
    rw [clear, if_neg (by omega)]
    rfl
  | succ left ih =>
    rw [clear, if_pos (by omega), ih _ _ (by omega)]
    rfl

theorem fits_set {E totalMem : Nat} (hwrap : E + 4 * (totalMem >>> 4) + 0xC0000000 < 0x100000000)
    : Fits E (totalMem >>> 4) (set (E + 0xC0000000) totalMem) := by
  unfold set
  generalize totalMem >>> 4 = n at *
  constructor
  . dsimp only
    omega
  . dsimp only
    omega
  . dsimp only
    omega
  . rfl
  . dsimp only
    omega
  . simp only [kernelReservedPages, Nat.shiftRight_eq_div_pow]
    omega

theorem load_init {E n p : Nat} {v : PageVars} (m : Memory) (h : Fits E n v) (hp : p < 4 * n)
    : ((m.fill v.memmapKernel MEM_USED v.kernelReservedPages).fill
        (v.memmapKernel + v.kernelReservedPages) MEM_UNUSED
        (v.memmapEnd - (v.memmapKernel + v.kernelReservedPages))).load (v.memmapKernel + p)
        =
      if p ≤ (E + 4 * n) / 4096 then MEM_USED else MEM_UNUSED := by
  have hend := h.memmapEnd_eq
  have hres := h.reserved_eq
  rw [Memory.load_fill, Memory.load_fill]
  by_cases hp' : p ≤ (E + 4 * n) / 4096
  . rw [if_neg (by omega), if_pos (by omega), if_pos hp']
  . rw [if_pos (by omega), if_neg hp']

/--
The image and the map are protected in every memory that has room for both.
-/
theorem pageInit_protects (E totalMem : Nat) (m : Memory)
    (hfit : E + 4 * (totalMem >>> 4) < 4096 * (4 * (totalMem >>> 4)))
    (hwrap : E + 4 * (totalMem >>> 4) + 0xC0000000 < 0x100000000)
    : let p := pageInit (E + 0xC0000000) totalMem m
      Protects E (4 * (totalMem >>> 4)) m p.1 p.2 := by
  have hfits := fits_set hwrap
  simp only [pageInit]
  generalize set (E + 0xC0000000) totalMem = v at hfits ⊢
  generalize totalMem >>> 4 = n at hfits hfit hwrap ⊢
  have ⟨hkernel, huser, hend, hkernelPages, huserPages, hres⟩ := hfits
  have hshift : (E + 4 * n) >>> 12 = (E + 4 * n) / 4096 := Nat.shiftRight_eq_div_pow _ _
  rw [reserve_eq (by omega)]
  dsimp only
  rw [clear_eq]
  constructor
  . exact hkernel
  . rw [huser, hkernelPages]
  . omega
  . intro p hp
    rw [load_init m hfits hp, hshift]
  . apply (Memory.StoresIn.fill m _ _ _ ?_).trans (Memory.StoresIn.fill _ _ _ _ ?_)
    . intro b hlo hhi
      omega
    . intro b hlo hhi
      omega
  . intro a ha
    simp only [PAGE_SIZE]
    refine ⟨by omega, ?_⟩
    rw [load_init m hfits (by omega), if_pos (by omega)]

/--
Of 64 pages the first 16 are those of the kernel, and the last two of the 18 pages reserved are not.
-/
theorem pageInit_protects_spilled
    : let p := pageInit (0x11000 + 0xC0000000) 0x100 ⟨fun _ => 0, []⟩
      Protects 0x11000 64 ⟨fun _ => 0, []⟩ p.1 p.2 :=
  pageInit_protects 0x11000 0x100 _ (by decide) (by decide)

/--
The memory of a machine with a map that fits is set up in the same way.
-/
theorem pageInit_eq (cfg : MemConfig) (m : Memory)
    : let p := pageInit (cfg.kernelEnd + 0xC0000000) cfg.totalMem m
      p.1.memmapKernel = cfg.memmapKernel ∧ p.1.memmapUser = cfg.memmapUser
        ∧ p.1.memmapEnd = cfg.memmapEnd ∧ p.1.kernelMemPages = cfg.kernelMemPages
        ∧ p.1.userMemPages = cfg.userMemPages ∧ p.2 = cfg.pageInit m := by
  have hmapped := cfg.mapped
  have himage := cfg.image_lt
  simp only [PAGE_SIZE] at himage
  have hend := cfg.memmapEnd_eq
  have huser := cfg.memmapUser_eq
  have hpages := cfg.userMemPages_eq
  have hres : cfg.kernelReservedPages = (cfg.kernelEnd + 4 * cfg.kernelMemPages) / 4096 + 1 := by
    simp only [MemConfig.kernelReservedPages, hend, MemConfig.memmapKernel, Nat.shiftRight_eq_div_pow]
    omega
  have hfits : Fits cfg.kernelEnd cfg.kernelMemPages (set (cfg.kernelEnd + 0xC0000000) cfg.totalMem) :=
    fits_set (by omega)
  simp only [pageInit]
  generalize set (cfg.kernelEnd + 0xC0000000) cfg.totalMem = v at hfits ⊢
  obtain ⟨hkernel', huser', hend', hkernelPages', huserPages', hres'⟩ := hfits
  have hbase : v.memmapKernel = cfg.memmapKernel := hkernel'
  have hlast : v.memmapEnd = cfg.memmapEnd := by
    omega
  have hreserved : v.kernelReservedPages = cfg.kernelReservedPages := by
    omega
  have hpagesEq : cfg.kernelMemPages = cfg.totalMem >>> 4 := rfl
  rw [reserve_eq (by omega)]
  dsimp only
  rw [clear_eq, hlast, hbase, hreserved]
  refine ⟨rfl, ?_, rfl, hkernelPages', ?_, rfl⟩
  . omega
  . omega

end PageVars
end Osproj
