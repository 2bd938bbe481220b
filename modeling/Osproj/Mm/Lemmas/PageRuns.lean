import Osproj.Base.Run
import Osproj.Mm.Lemmas.PageUndo

/-!
This module contains the physical pages of the live allocations over runs of `palloc` and `pfree`.
`palloc` returns the page before the run it found and marks as many entries as the run has from
another place on if there are unused entries before the run, so the pages of the live allocations are
only kept apart in runs that stay clear of both.
-/

namespace Osproj

structure Alloc where
  zone : Zone
  size : Nat
  addr : Nat

namespace Alloc

def firstPage (a : Alloc) : Nat :=
  match a.zone with
  | .kernel => lin2phy a.addr >>> 12
  | .user => a.addr >>> 12

/--
The page `p` of the 4 GiB of physical memory is one of those of the allocation.
-/
def Covers (a : Alloc) (p : Nat) : Prop :=
  ∃ i, i < MemConfig.pages a.size ∧ p = (a.firstPage + i) % 0x100000

end Alloc

structure PageState where
  mem : Memory
  live : List Alloc

inductive PageOp
  | palloc (zone : Zone) (size : Nat) (size_pos : 0 < size) (size_lt : size < 0x100000000)
  | pfree (i : Nat)

namespace MemConfig

variable (cfg : MemConfig)

def pageStep (s : PageState) : PageOp → Option PageState
  | .palloc zone size _ _ =>
    let p := cfg.palloc s.mem zone.code size
    some {
      mem := p.2
      live := if p.1 = 0 then s.live else ⟨zone, size, p.1⟩ :: s.live
    }
  | .pfree i => do
    let a ← s.live[i]?
    some {
      mem := cfg.pfree s.mem a.addr a.size a.zone.code
      live := s.live.eraseIdx i
    }

structure Safe (live : List Alloc) : Prop where
  disjoint : live.Pairwise (fun a a' => ∀ p, a.Covers p → ¬ a'.Covers p)
  unreserved : ∀ a ∈ live, ∀ p, a.Covers p → cfg.kernelReservedPages ≤ p
  not_user : ∀ a ∈ live, a.zone = .kernel →
    ∀ p, a.Covers p → ¬ (cfg.kernelMemPages ≤ p ∧ p < 4 * cfg.kernelMemPages)

/--
The calls that keep the pages apart: a call of `palloc` finds no run, or one of the user zone with no
unused entry before it, and the page before that run is not reserved or is not given out.
-/
def PageOk (s : PageState) : PageOp → Prop
  | .palloc zone size _ _ =>
    ∀ b, FirstRun (cfg.Unused s.mem zone) (cfg.memPages zone) (pages size) b →
      zone = .user
        ∧ (∀ i, i < b → ¬ cfg.Unused s.mem .user i)
        ∧ (b = 1 ∨ (b = 0 ∧ pages size = 1) ∨ cfg.kernelReservedPages < b)
  | .pfree _ => True

end MemConfig

def Alloc.run (a : Alloc) : Nat := (a.addr >>> 12 + 1) % 0x100000

namespace MemConfig

variable {cfg : MemConfig}

structure Placed (cfg : MemConfig) (m : Memory) (a : Alloc) : Prop where
  zone_eq : a.zone = .user
  size_pos : 0 < a.size
  size_lt : a.size < 0x100000000
  addr_eq : a.addr = runAddr .user a.run
  run_ok : (a.run = 0 ∧ pages a.size = 1) ∨ cfg.kernelReservedPages < a.run
  fits : a.run + pages a.size ≤ cfg.userMemPages
  taken : ∀ i, a.run ≤ i → i < a.run + pages a.size → ¬ cfg.Unused m .user i

def Apart (a a' : Alloc) : Prop :=
  a.run + pages a.size ≤ a'.run ∨ a'.run + pages a'.size ≤ a.run

theorem Apart.symm {a a' : Alloc} (h : Apart a a') : Apart a' a := by
  exact Or.symm h

structure Kept (cfg : MemConfig) (s : PageState) : Prop where
  placed : ∀ a ∈ s.live, cfg.Placed s.mem a
  apart : s.live.Pairwise Apart

theorem userMemPages_lt : cfg.userMemPages ≤ 0xC0000 := by
  have := cfg.kernelMemPages_le
  rw [userMemPages_eq]
  omega

theorem kernelReservedPages_pos : 0 < cfg.kernelReservedPages := by
  exact Nat.succ_pos _

theorem Placed.covers_iff {m : Memory} {a : Alloc} (h : cfg.Placed m a) (p : Nat)
    : a.Covers p
        ↔
      p < 0x100000 ∧ a.run ≤ (p + 1) % 0x100000 ∧ (p + 1) % 0x100000 < a.run + pages a.size := by
  have hfits := h.fits
  have hlt := @userMemPages_lt cfg
  have hpage : a.firstPage = (a.run + 0xFFFFF) % 0x100000 := by
    have haddr := h.addr_eq
    simp only [Alloc.firstPage, h.zone_eq]
    rw [haddr, runAddr, Nat.shiftRight_eq_div_pow]
    omega
  unfold Alloc.Covers
  rw [hpage]
  constructor
  . rintro ⟨i, hi, rfl⟩
    omega
  . rintro ⟨hp, hlo, hhi⟩
    exact ⟨(p + 1) % 0x100000 - a.run, by omega, by omega⟩

theorem Kept.safe {s : PageState} (h : cfg.Kept s) : cfg.Safe s.live := by
  have hres := cfg.kernelReservedPages_lt
  have hpos := @kernelReservedPages_pos cfg
  constructor
  . apply h.apart.imp_of_mem
    intro a a' ha ha' hapart p hp hp'
    have hcovers := ((h.placed a ha).covers_iff p).mp hp
    have hcovers' := ((h.placed a' ha').covers_iff p).mp hp'
    unfold Apart at hapart
    omega
  . intro a ha p hp
    have hplaced := h.placed a ha
    have hrun := hplaced.run_ok
    have hcovers := (hplaced.covers_iff p).mp hp
    omega
  . intro a ha hkernel
    exact absurd ((h.placed a ha).zone_eq.symm.trans hkernel) (by decide)

theorem Placed.of_unused_imp {m m' : Memory} {a : Alloc} (h : cfg.Placed m a)
    (hunused : ∀ i, a.run ≤ i → i < a.run + pages a.size →
      cfg.Unused m' .user i → cfg.Unused m .user i)
    : cfg.Placed m' a := by
  exact { h with taken := fun i hlo hhi hi => h.taken i hlo hhi (hunused i hlo hhi hi) }

theorem headIndex_of_taken {m : Memory} {zone : Zone} {b : Nat}
    (h : ∀ i, i < b → ¬ cfg.Unused m zone i)
    : cfg.headIndex m zone b = b := by
  exact FirstRun.count_not_of_taken h

theorem run_runAddr {b size : Nat} (hb : b ≤ 0xC0000)
    : Alloc.run ⟨.user, size, runAddr .user b⟩ = b := by
  simp only [Alloc.run, runAddr, Nat.shiftRight_eq_div_pow]
  omega

theorem placed_of_run {m : Memory} {size b : Nat} (hpos : 0 < size) (hlt : size < 0x100000000)
    (hrun : FirstRun (cfg.Unused m .user) (cfg.memPages .user) (pages size) b)
    (hok : (b = 0 ∧ pages size = 1) ∨ cfg.kernelReservedPages < b)
    : cfg.Placed (m.fill (cfg.memmapUser + b) MEM_USED (pages size))
        ⟨.user, size, runAddr .user b⟩ := by
  have hfits : b + pages size ≤ cfg.userMemPages := hrun.fits
  have hle := @userMemPages_lt cfg
  have hb := @run_runAddr b size (by omega)
  constructor
  . rfl
  . exact hpos
  . exact hlt
  . rw [hb]
  . rw [hb]
    exact hok
  . rw [hb]
    exact hfits
  . intro i hlo hhi
    rw [hb] at hlo hhi
    dsimp only at hhi
    simp only [Unused, memmap]
    rw [Memory.load_fill, if_pos (by omega)]
    decide

theorem unused_of_fill {m : Memory} {a n i : Nat}
    (h : cfg.Unused (m.fill a MEM_USED n) .user i)
    : cfg.Unused m .user i := by
  unfold Unused at *
  rw [Memory.load_fill] at h
  split at h
  . exact absurd h (by decide)
  . exact h

theorem Kept.palloc {s s' : PageState} {zone : Zone} {size : Nat} {hpos : 0 < size}
    {hlt : size < 0x100000000} (h : cfg.Kept s) (hok : cfg.PageOk s (.palloc zone size hpos hlt))
    (hstep : cfg.pageStep s (.palloc zone size hpos hlt) = some s')
    : cfg.Kept s' := by
  simp only [pageStep, Option.some.injEq] at hstep
  rcases cfg.palloc_spec s.mem zone hpos hlt with ⟨b, hrun, hpalloc⟩ | ⟨-, hpalloc⟩
  . obtain ⟨rfl, hbefore, hb⟩ := hok b hrun
    have hn := pages_pos hpos
    have hfits : b + pages size ≤ cfg.userMemPages := hrun.fits
    have hnull := @runAddr_eq_zero_iff cfg .user b (by simp only [memPages]; omega)
    rw [hpalloc, headIndex_of_taken hbefore] at hstep
    have hold : ∀ a ∈ s.live,
        cfg.Placed (s.mem.fill (cfg.memmapUser + b) MEM_USED (pages size)) a := by
      intro a ha
      exact (h.placed a ha).of_unused_imp (fun i _ _ hi => unused_of_fill hi)
    dsimp only at hstep
    by_cases hone : b = 1
    . rw [if_pos (hnull.mpr ⟨rfl, hone⟩)] at hstep
      subst hstep
      exact ⟨hold, h.apart⟩
    . rw [if_neg (fun hzero => hone (hnull.mp hzero).2)] at hstep
      subst hstep
      have hnew := placed_of_run hpos hlt hrun (by omega)
      constructor
      . intro a ha
        rcases List.mem_cons.mp ha with rfl | ha
        . exact hnew
        . exact hold a ha
      . refine List.Pairwise.cons ?_ h.apart
        intro a ha
        have hplaced := h.placed a ha
        have hle := @userMemPages_lt cfg
        have hsize := pages_pos hplaced.size_pos
        unfold Apart
        rw [run_runAddr (by omega)]
        dsimp only
        -- the entries of the old run are taken, those of the new one were unused
        by_contra hoverlap
        have hi := hrun.all (max b a.run) (by omega) (by omega)
        exact hplaced.taken (max b a.run) (by omega) (by omega) hi
  . rw [hpalloc, if_pos rfl] at hstep
    subst hstep
    exact h

theorem unused_of_pfree {m : Memory} {a : Alloc} (h : cfg.Placed m a) {i : Nat}
    (hi : i < cfg.userMemPages) (hout : ¬ (a.run ≤ i ∧ i < a.run + pages a.size))
    (hunused : cfg.Unused (cfg.pfree m a.addr a.size a.zone.code) .user i)
    : cfg.Unused m .user i := by
  have hn := pages_pos h.size_pos
  have hrun : a.run < cfg.memPages .user := by
    have := h.fits
    simp only [memPages]
    omega
  have hrel : released a.size ≤ 0x100000 := by
    have := released_le a.size
    have := h.size_lt
    simp only [PAGE_SIZE] at *
    omega
  have hrel' := released_le_pages a.size
  have hstart := cfg.releaseStart_eq hrun
  rw [← h.addr_eq] at hstart
  have hle := @userMemPages_lt cfg
  have husr := cfg.userMemPages_eq
  have hentry : cfg.memmap .user + i = cfg.memmapKernel + (cfg.kernelMemPages + i) := by
    have := cfg.memmapUser_eq
    simp only [memmap]
    omega
  unfold Unused at *
  rw [hentry] at hunused ⊢
  rw [h.zone_eq, pfree_eq, load_release_entry (cfg.releaseStart_le hrun) hrel hstart
    (by omega)] at hunused
  split at hunused
  . next hin =>
    have hok := h.run_ok
    simp only [releaseStart, memPages] at *
    omega
  . exact hunused

theorem Kept.pfree {s s' : PageState} {i : Nat} (h : cfg.Kept s)
    (hstep : cfg.pageStep s (.pfree i) = some s')
    : cfg.Kept s' := by
  simp only [pageStep, Option.bind_eq_bind, Option.bind_eq_some_iff, Option.some.injEq] at hstep
  obtain ⟨a, ha, rfl⟩ := hstep
  obtain ⟨hi, rfl⟩ := List.getElem?_eq_some_iff.mp ha
  have hplaced := h.placed _ (List.getElem_mem hi)
  constructor
  . intro a' ha'
    obtain ⟨j, hj, hji, rfl⟩ := List.mem_eraseIdx_iff_getElem.mp ha'
    have hplaced' := h.placed _ (List.getElem_mem hj)
    have hapart : Apart s.live[i] s.live[j] := by
      have hpairs := List.pairwise_iff_getElem.mp h.apart
      rcases Nat.lt_or_gt_of_ne hji with hlt | hlt
      . exact (hpairs j i hj hi hlt).symm
      . exact hpairs i j hi hj hlt
    apply hplaced'.of_unused_imp
    intro k hlo hhi
    have hfits := hplaced'.fits
    unfold Apart at hapart
    exact unused_of_pfree hplaced (by omega) (by omega)
  . exact h.apart.sublist (List.eraseIdx_sublist _ _)

/--
Whatever the calls of a run are that are all of that kind, the pages of the live allocations are their
own.
-/
theorem safe_of_pageOk (cfg : MemConfig) (m : Memory) (ops : List PageOp) (s : PageState)
    (hok : Run.Guarded cfg.pageStep cfg.PageOk ⟨cfg.pageInit m, []⟩ ops)
    (hrun : Run.run cfg.pageStep ⟨cfg.pageInit m, []⟩ ops = some s)
    : cfg.Safe s.live := by
  have hkept : cfg.Kept ⟨cfg.pageInit m, []⟩ := by
    constructor
    . intro a ha
      simp at ha
    . exact .nil
  apply Kept.safe
  apply hok.invariant _ hkept hrun
  intro t op t' ht hop hstep
  cases op with
  | palloc zone size hpos hlt => exact ht.palloc hop hstep
  | pfree i => exact ht.pfree hstep

/--
The first `n` entries of the user map are taken, and all others are unused.
-/
def UserTakenTo (cfg : MemConfig) (m : Memory) (n : Nat) : Prop :=
  ∀ i, i < cfg.userMemPages → (cfg.Unused m .user i ↔ n ≤ i)

section UserTakenTo

variable {m : Memory} {n k : Nat}

theorem userTakenTo_pageInit (cfg : MemConfig) (m : Memory) (hfit : cfg.kernelReservedPages ≤ cfg.kernelMemPages)
    : cfg.UserTakenTo (cfg.pageInit m) 0 := by
  intro i hi
  have hpages := cfg.userMemPages_eq
  refine iff_of_true ?_ (Nat.zero_le i)
  rw [Unused, memmap, memmapUser_eq, Nat.add_assoc, cfg.load_pageInit (by omega), if_neg (by omega)]

theorem UserTakenTo.firstRun (h : cfg.UserTakenTo m n) (hk : 0 < k) (hfit : n + k ≤ cfg.userMemPages)
    : FirstRun (cfg.Unused m .user) (cfg.memPages .user) k n := by
  constructor
  . exact hfit
  . intro i hlo hhi
    exact (h i (by omega)).mpr hlo
  . intro c hc
    refine ⟨c, Nat.le_refl c, by omega, ?_⟩
    intro hfree
    have hle := (h c (by omega)).mp hfree
    omega

theorem UserTakenTo.not_unused (h : cfg.UserTakenTo m n) (hn : n ≤ cfg.userMemPages) (i : Nat) (hi : i < n)
    : ¬ cfg.Unused m .user i := by
  intro hfree
  have hle := (h i (by omega)).mp hfree
  omega

theorem UserTakenTo.fill (h : cfg.UserTakenTo m n)
    : cfg.UserTakenTo (m.fill (cfg.memmapUser + n) MEM_USED k) (n + k) := by
  intro i hi
  have hunused := h i hi
  simp only [Unused, memmap] at *
  rw [Memory.load_fill]
  split
  . next hin => exact iff_of_false (by decide) (by omega)
  . next hout =>
    rw [hunused]
    omega

/--
A call for the user zone moves the cursor. The page of the first entry but one is the page 0, which nobody gets.
-/
theorem UserTakenTo.palloc (h : cfg.UserTakenTo m n) (live : List Alloc) {size : Nat} (hpos : 0 < size)
    (hlt : size < 0x100000000) (hfit : n + pages size ≤ cfg.userMemPages)
    (hplace : n = 1 ∨ (n = 0 ∧ pages size = 1) ∨ cfg.kernelReservedPages < n)
    : cfg.PageOk ⟨m, live⟩ (.palloc .user size hpos hlt)
        ∧ ∃ mem, cfg.pageStep ⟨m, live⟩ (.palloc .user size hpos hlt)
            = some ⟨mem, if n = 1 then live else ⟨.user, size, runAddr .user n⟩ :: live⟩
          ∧ cfg.UserTakenTo mem (n + pages size) := by
  have hrun := h.firstRun (pages_pos hpos) hfit
  have htaken := h.not_unused (show n ≤ cfg.userMemPages by omega)
  constructor
  . intro b hb
    obtain rfl := hrun.unique hb
    exact ⟨rfl, htaken, hplace⟩
  . have hpalloc := cfg.palloc_of_firstRun hpos hlt hrun
    rw [headIndex_of_taken htaken] at hpalloc
    refine ⟨_, ?_, h.fill⟩
    have hlt' : n < cfg.memPages .user := by
      have hpages := pages_pos hpos
      have hfits : n + pages size ≤ cfg.memPages .user := hfit
      omega
    have hnull : runAddr .user n = 0 ↔ n = 1 := by
      rw [cfg.runAddr_eq_zero_iff hlt']
      simp
    simp only [pageStep, hpalloc, hnull, memmap]

end UserTakenTo

/--
Four pages of the user zone are live, one of the five allocations has been released, and one more call has returned
`NULL`.
-/
theorem safe_of_pageOk_user
    : let cfg : MemConfig := ⟨0x200000, 0x8000, by decide, by decide, by decide⟩
      ∃ s, Run.run cfg.pageStep ⟨cfg.pageInit ⟨fun _ => 0, []⟩, []⟩
          [.palloc .user 4096 (by decide) (by decide), .palloc .user 0x300000 (by decide) (by decide),
            .palloc .user 4096 (by decide) (by decide), .palloc .user 8192 (by decide) (by decide),
            .palloc .user 4096 (by decide) (by decide), .pfree 0] = some s
        ∧ s.live = [⟨.user, 8192, 0x301000⟩, ⟨.user, 4096, 0x300000⟩, ⟨.user, 4096, 0xFFFFF000⟩]
        ∧ cfg.Safe s.live := by
  intro cfg
  have hstart : cfg.UserTakenTo (cfg.pageInit ⟨fun _ => 0, []⟩) 0 := cfg.userTakenTo_pageInit _ (by decide)
  let a : Alloc := ⟨.user, 4096, 0xFFFFF000⟩
  let b : Alloc := ⟨.user, 4096, 0x300000⟩
  let c : Alloc := ⟨.user, 8192, 0x301000⟩
  obtain ⟨hok₀, m₁, hstep₀, h₁⟩ := hstart.palloc [] (show 0 < 4096 by decide) (by decide) (by decide) (by decide)
  obtain ⟨hok₁, m₂, hstep₁, h₂⟩ := h₁.palloc [a] (show 0 < 0x300000 by decide) (by decide) (by decide) (by decide)
  obtain ⟨hok₂, m₃, hstep₂, h₃⟩ := h₂.palloc [a] (show 0 < 4096 by decide) (by decide) (by decide) (by decide)
  obtain ⟨hok₃, m₄, hstep₃, h₄⟩ := h₃.palloc [b, a] (show 0 < 8192 by decide) (by decide) (by decide) (by decide)
  obtain ⟨hok₄, m₅, hstep₄, -⟩ := h₄.palloc [c, b, a] (show 0 < 4096 by decide) (by decide) (by decide) (by decide)
  replace hstep₀ : cfg.pageStep _ _ = some ⟨m₁, [a]⟩ := hstep₀
  replace hstep₁ : cfg.pageStep _ _ = some ⟨m₂, [a]⟩ := hstep₁
  replace hstep₂ : cfg.pageStep _ _ = some ⟨m₃, [b, a]⟩ := hstep₂
  replace hstep₃ : cfg.pageStep _ _ = some ⟨m₄, [c, b, a]⟩ := hstep₃
  have hnext {s t : PageState} {op : PageOp} {ops : List PageOp} (hstep : cfg.pageStep s op = some t)
      (hok : cfg.PageOk s op) (hops : Run.Guarded cfg.pageStep cfg.PageOk t ops)
      : Run.Guarded cfg.pageStep cfg.PageOk s (op :: ops) := by
    refine ⟨hok, fun t' ht' => ?_⟩
    rw [hstep, Option.some.injEq] at ht'
    exact ht' ▸ hops
  have hrun : Run.run cfg.pageStep ⟨cfg.pageInit ⟨fun _ => 0, []⟩, []⟩
      [.palloc .user 4096 (by decide) (by decide), .palloc .user 0x300000 (by decide) (by decide),
        .palloc .user 4096 (by decide) (by decide), .palloc .user 8192 (by decide) (by decide),
        .palloc .user 4096 (by decide) (by decide), .pfree 0]
      = some ⟨cfg.pfree m₅ 0x303000 4096 ZONE_USER, [c, b, a]⟩ := by
    rw [Run.run_cons, hstep₀, Option.bind_some, Run.run_cons, hstep₁, Option.bind_some, Run.run_cons, hstep₂,
      Option.bind_some, Run.run_cons, hstep₃, Option.bind_some, Run.run_cons, hstep₄]
    rfl
  refine ⟨_, hrun, rfl, safe_of_pageOk cfg _ _ _ ?_ hrun⟩
  exact hnext hstep₀ hok₀ (hnext hstep₁ hok₁ (hnext hstep₂ hok₂ (hnext hstep₃ hok₃ (hnext hstep₄ hok₄
    ⟨trivial, fun _ _ => trivial⟩))))

/--
The first page given to the kernel is the last one of the status map.
-/
theorem not_safe
    : let cfg : MemConfig := ⟨0x200000, 0x8000, by decide, by decide, by decide⟩
      ∃ s, Run.run cfg.pageStep ⟨cfg.pageInit ⟨fun _ => 0, []⟩, []⟩
          [.palloc .kernel 4096 (by decide) (by decide)] = some s
        ∧ ¬ cfg.Safe s.live := by
  intro cfg
  refine ⟨_, rfl, ?_⟩
  intro hsafe
  have hrun : FirstRun (cfg.Unused (cfg.pageInit ⟨fun _ => 0, []⟩) .kernel)
      (cfg.memPages .kernel) (pages 4096) cfg.kernelReservedPages := by
    exact cfg.firstRun_pageInit _ (by decide) (by decide)
  have hpalloc := cfg.palloc_of_firstRun (by decide) (by decide) hrun
  dsimp only at hsafe
  rw [hpalloc, if_neg (by decide)] at hsafe
  have := hsafe.unreserved _ (List.mem_cons_self ..) (cfg.kernelReservedPages - 1)
    ⟨0, by decide, by decide⟩
  exact absurd this (by decide)

end MemConfig
end Osproj
