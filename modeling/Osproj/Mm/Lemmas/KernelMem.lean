import Osproj.Mm.Impl.KernelMem
import Osproj.Mm.Lemmas.PageBump
import Osproj.Mm.Lemmas.SlabLists
import Osproj.Mm.Lemmas.SlabService

/-!
This module contains the memory of the kernel from `mm_init` on, as long as nothing is released. `palloc` moves a cursor
over the kernel zone, so what it gives to the slab allocator and to others is apart, and no store into it reaches the
kernel map. `palloc` refuses a call only if the pages are used up, and `kmalloc` depends on it only for a new slab.
-/

namespace Osproj

open Slab SlabMem SlabHeap MemConfig

namespace KernelMem

/--
The pages of the slabs and the pages that others got from `palloc`.
-/
def extents (s : KernelMem) : List Extent := s.heap.pages.map (⟨·, SLAB_SIZE⟩) ++ s.given

def block (s : KernelMem) (b : SlabBlock) : Extent := ⟨b.addr, s.heap.objSize b⟩

/--
A caller stores into a block or a page that it got, the slab allocator into the rest of its pages. `qsmalloc` is called
with a cache.
-/
def Owned (s : KernelMem) : KernelMemOp → Prop
  | .qsmalloc quickalloc => quickalloc = 0 ∨ s.heap.mem.IsCache quickalloc
  | .write addr _ => (∃ b ∈ s.heap.live, (s.block b).Contains addr) ∨ ∃ e ∈ s.given, e.Contains addr
  | .writeSlab addr _ =>
    (∃ page ∈ s.heap.pages, Extent.Contains ⟨page, SLAB_SIZE⟩ addr) ∧ ∀ b ∈ s.heap.live, ¬ (s.block b).Contains addr
  | _ => True

structure Safe (cfg : MemConfig) (memUpper : Nat) (s : KernelMem) : Prop where
  blocks : s.heap.Safe
  apart : s.extents.Pairwise Extent.Apart
  zone : ∀ e ∈ s.extents, cfg.memmapUser ≤ e.start
    ∧ e.start + e.size < 0xC0000000 + cfg.kernelMemPages * PAGE_SIZE
    ∧ e.start + e.size < 0xC0000000 + (memUpper + 1024) * 1024
  block_apart : ∀ b ∈ s.heap.live, ∀ e ∈ s.given, (s.block b).Apart e

structure Inv (cfg : MemConfig) (caches : List Nat) (recs : List SlabBlock) (u : Nat) (s : KernelMem) : Prop where
  heap : s.heap.Inv caches recs
  taken : cfg.TakenTo s.map u
  packed : Packed (pageAddr cfg.kernelReservedPages) (pageAddr u) s.extents

variable {cfg : MemConfig} {s s' : KernelMem} {caches : List Nat} {recs : List SlabBlock}
variable {u fuel size flags quickalloc : Nat}

theorem isPage_pageAddr (h : cfg.TakenTo s.map u) : IsPage (pageAddr u) := by
  have hle := h.le
  have hpages := cfg.kernelMemPages_le
  constructor <;> simp only [pageAddr, PAGE_SIZE, SLAB_SIZE] <;> omega

theorem newPage_of_needsPage {kmem : Nat} (h : cfg.TakenTo s.map u) (hneeds : NeedsPage s.heap.mem kmem)
    : if u < cfg.kernelMemPages then
        (s.newPage cfg (some kmem)).1 = pageAddr u ∧ cfg.TakenTo (s.newPage cfg (some kmem)).2 (u + 1)
      else
        s.newPage cfg (some kmem) = (0, s.map) := by
  have hpalloc := @TakenTo.palloc cfg s.map u SLAB_SIZE h (by decide)
  rw [show pages SLAB_SIZE = 1 from rfl] at hpalloc
  simp only [newPage, if_pos hneeds]
  split
  . next hlt =>
    rw [if_pos ⟨by decide, hlt⟩] at hpalloc
    exact ⟨by rw [hpalloc.1], hpalloc.2⟩
  . next hge =>
    rw [if_neg (fun hand => hge hand.2)] at hpalloc
    exact hpalloc

theorem newPage_of_not_needsPage {kmem : Nat} (hneeds : ¬ NeedsPage s.heap.mem kmem)
    : s.newPage cfg (some kmem) = (0, s.map) := by
  exact if_neg hneeds

theorem page_mem {page : Nat} (hpage : page ∈ s.heap.pages) : (⟨page, SLAB_SIZE⟩ : Extent) ∈ s.extents := by
  exact List.mem_append_left _ (List.mem_map.mpr ⟨page, hpage, rfl⟩)

namespace Inv

theorem fresh (h : Inv cfg caches recs u s) : pageAddr u ∉ s.heap.pages := by
  intro hmem
  have hinside := h.packed.inside _ (page_mem hmem)
  simp only [SLAB_SIZE] at hinside
  omega

theorem pageAddr_succ (h : Inv cfg caches recs u s) : pageAddr (u + 1) = pageAddr u + SLAB_SIZE := by
  rw [pageAddr_add h.taken.pos, Nat.one_mul]
  rfl

theorem kmallocFlags (h : Inv cfg caches recs u s) (hquick : quickalloc = 0 ∨ quickalloc ∈ caches ∧ size = 0)
    (hcall : s.kmallocFlags cfg fuel size flags quickalloc = some s')
    : ∃ u', Inv cfg caches recs u' s' := by
  simp only [KernelMem.kmallocFlags, Option.bind_eq_bind, Option.bind_eq_some_iff] at hcall
  obtain ⟨kmem, hkmem, ⟨ret, mem⟩, hret, hs'⟩ := hcall
  obtain rfl := (Option.some.inj hs').symm
  have hpageOk : s.heap.PageOk (s.newPage cfg kmem).1 (s.heap.mem.kmemFor fuel size flags quickalloc)
      → SlabHeap.Inv caches recs (s.heap.allocated kmem size (s.newPage cfg kmem).1 ret mem) := by
    intro hpage
    exact h.heap.allocated hquick hpage hkmem hret
  rw [hkmem] at hpageOk
  cases kmem with
  | none => exact ⟨u, hpageOk trivial, h.taken, h.packed⟩
  | some kmem =>
    by_cases hneeds : NeedsPage s.heap.mem kmem
    . have hnew := newPage_of_needsPage h.taken hneeds
      by_cases hlt : u < cfg.kernelMemPages
      . rw [if_pos hlt] at hnew
        refine ⟨u + 1, hpageOk ?_, hnew.2, ?_⟩
        . intro _
          rw [hnew.1]
          exact ⟨isPage_pageAddr h.taken, h.fresh⟩
        . simp only [extents, SlabHeap.allocated, if_pos hneeds, hnew.1, h.pageAddr_succ]
          exact h.packed.push SLAB_SIZE
      . -- `creat_slab` writes to `NULL`
        rw [if_neg hlt] at hnew
        have hmem := (h.heap.ready.kmemFor_mem h.heap.kernel hquick hkmem).1
        simp only [SlabMem.kmallocFlags, hkmem, hnew, Option.bind_eq_bind, Option.bind_some,
          allocFromKmem_null (h.heap.kernel kmem hmem) hneeds] at hret
        cases hret
    . refine ⟨u, hpageOk (fun hn => absurd hn hneeds), ?_, ?_⟩
      . rw [newPage_of_not_needsPage hneeds]
        exact h.taken
      . simp only [extents, SlabHeap.allocated, if_neg hneeds]
        exact h.packed

theorem palloc (h : Inv cfg caches recs u s) {size : BitVec 32} (hcall : s.step cfg fuel (.palloc size) = some s')
    : ∃ u', Inv cfg caches recs u' s' := by
  have hpalloc := h.taken.palloc size.isLt
  obtain rfl := (Option.some.inj hcall).symm
  split at hpalloc
  . obtain ⟨heq, htaken⟩ := hpalloc
    refine ⟨u + pages size.toNat, h.heap, htaken, ?_⟩
    simp only [extents, heq, if_neg (pageAddr_ne_zero u), pageAddr_add h.taken.pos]
    exact h.packed.push_middle _
  . refine ⟨u, h.heap, ?_, ?_⟩
    . rw [hpalloc]
      exact h.taken
    . simp only [extents, hpalloc, if_true]
      exact h.packed

/--
A block lies in the page of a slab.
-/
theorem exists_page (h : Inv cfg caches recs u s) {b : SlabBlock} (hb : b ∈ s.heap.live)
    : ∃ page ∈ s.heap.pages, (s.block b).Within ⟨page, SLAB_SIZE⟩ := by
  obtain ⟨⟨page, hpage, -, hlo, -, hhi⟩, -⟩ := h.heap.safe.2 b hb
  refine ⟨page, hpage, ?_, hhi⟩
  simp only [block] at hlo ⊢
  omega

/--
A store into a page that is given out goes behind the kernel map.
-/
theorem store (h : Inv cfg caches recs u s) (huser : cfg.memmapUser ≤ pageAddr cfg.kernelReservedPages) {addr : Nat}
    (value : BitVec 8) (howned : ∃ e ∈ s.extents, e.Contains addr)
    : Inv cfg caches recs u { s with map := s.map.store addr value } := by
  obtain ⟨e, he, hlo, -⟩ := howned
  have hinside := (h.packed.inside e he).1
  constructor
  . exact h.heap
  . apply h.taken.congr
    intro a _ ha
    rw [Memory.load_store, if_neg (by omega)]
  . exact h.packed

theorem step (huser : cfg.memmapUser ≤ pageAddr cfg.kernelReservedPages) (h : Inv cfg caches recs u s)
    {op : KernelMemOp} (howned : s.Owned op) (hstep : s.step cfg fuel op = some s')
    : ∃ u', Inv cfg caches recs u' s' := by
  cases op with
  | kmalloc size => exact h.kmallocFlags (Or.inl rfl) hstep
  | kmallocS size => exact h.kmallocFlags (Or.inl rfl) hstep
  | qsmalloc quickalloc =>
    apply h.kmallocFlags (howned.imp_right ?_) hstep
    intro hcache
    exact ⟨h.heap.ready.mem_of_isCache hcache, rfl⟩
  | palloc size => exact h.palloc hstep
  | write addr value =>
    obtain rfl := (Option.some.inj hstep).symm
    refine ⟨u, h.store huser value ?_⟩
    rcases howned with ⟨b, hb, hin⟩ | ⟨e, he, hin⟩
    . obtain ⟨page, hpage, hwithin⟩ := h.exists_page hb
      exact ⟨_, page_mem hpage, hin.within hwithin⟩
    . exact ⟨e, List.mem_append_right _ he, hin⟩
  | writeSlab addr value =>
    obtain rfl := (Option.some.inj hstep).symm
    obtain ⟨⟨page, hpage, hin⟩, -⟩ := howned
    exact ⟨u, h.store huser value ⟨_, page_mem hpage, hin⟩⟩

end Inv

theorem totalMem_le {memUpper : Nat} (h : memUpper + 1024 < 0x100000000) : totalMem memUpper ≤ memUpper + 3072 := by
  have hand := @Nat.and_le_left (memUpper + 1024) 0xfffff800
  rw [totalMem, Nat.mod_eq_of_lt h]
  omega

theorem Inv.safe (h : Inv cfg caches recs u s) (huser : cfg.memmapUser ≤ pageAddr cfg.kernelReservedPages)
    {memUpper : Nat} (hmem : cfg.totalMem = totalMem memUpper) (hupper : memUpper + 1024 < 0x100000000)
    : s.Safe cfg memUpper := by
  have hapart := h.packed.apart
  constructor
  . exact h.heap.safe
  . exact hapart
  . intro e he
    obtain ⟨hlo, hhi⟩ := h.packed.inside e he
    have hle := h.taken.le
    have hpos := h.taken.pos
    have htotal := totalMem_le hupper
    have hpages : cfg.kernelMemPages = cfg.totalMem / 16 := Nat.shiftRight_eq_div_pow _ 4
    simp only [pageAddr, PAGE_SIZE] at *
    omega
  . intro b hb e he
    obtain ⟨page, hpage, hwithin⟩ := h.exists_page hb
    have hpages : (⟨page, SLAB_SIZE⟩ : Extent) ∈ s.heap.pages.map (⟨·, SLAB_SIZE⟩) := List.mem_map.mpr ⟨_, hpage, rfl⟩
    have hdisjoint := (List.pairwise_append.mp hapart).2.2 _ hpages e he
    exact hdisjoint.within hwithin ⟨Nat.le_refl _, Nat.le_refl _⟩

/-
What `mm_init` sets up: `j` caches are made, and only the first one took a page.
-/
section Init

structure Booting (cfg : MemConfig) (j : Nat) (recs : List SlabBlock) (s : KernelMem) : Prop where
  slab : SlabMem.Booting s.heap.mem (pageAddr cfg.kernelReservedPages) j recs
  live : s.heap.live = []
  given : s.given = []
  pages : s.heap.pages = if j = 0 then [] else [pageAddr cfg.kernelReservedPages]
  taken : cfg.TakenTo s.map (if j = 0 then cfg.kernelReservedPages else cfg.kernelReservedPages + 1)

variable {j left : Nat}

theorem Booting.addKmem (h : Booting cfg j recs s) (hj : j < 12) (hfit : cfg.kernelReservedPages < cfg.kernelMemPages)
    (himage : s.heap.mem.kmemKmem / SLAB_SIZE ≠ pageAddr cfg.kernelReservedPages / SLAB_SIZE)
    : ∃ kmem s₁,
        s.addKmem cfg (2 ^ j) KMEM_FLAG_COMFORT = some (kmem, s₁)
          ∧ s₁.heap.mem.kmemKmem = s.heap.mem.kmemKmem
          ∧ Booting cfg (j + 1) (⟨kmem, s.heap.mem.kmemKmem, 0⟩ :: recs)
            { s₁ with
              heap := { s₁.heap with
                mem := { s₁.heap.mem with
                  quickAllocTable := fun i => if i = j then kmem else s₁.heap.mem.quickAllocTable i } } } := by
  have hpage : IsPage (pageAddr cfg.kernelReservedPages) := by
    have hres := cfg.kernelReservedPages_lt
    have hpages := cfg.kernelMemPages_le
    constructor <;> simp only [pageAddr, PAGE_SIZE, SLAB_SIZE] <;> omega
  have hneeds := h.slab.needsPage_iff hpage
  have hnew : (j = 0 → (s.newPage cfg (some s.heap.mem.kmemKmem)).1 = pageAddr cfg.kernelReservedPages)
      ∧ cfg.TakenTo (s.newPage cfg (some s.heap.mem.kmemKmem)).2 (cfg.kernelReservedPages + 1) := by
    have htaken := h.taken
    by_cases hj0 : j = 0
    . rw [if_pos hj0] at htaken
      have hnew := newPage_of_needsPage htaken (hneeds.mpr hj0)
      rw [if_pos hfit] at hnew
      exact ⟨fun _ => hnew.1, hnew.2⟩
    . rw [if_neg hj0] at htaken
      rw [newPage_of_not_needsPage (fun hn => hj0 (hneeds.mp hn))]
      exact ⟨fun hzero => absurd hzero hj0, htaken⟩
  obtain ⟨kmem, mem, hadd, hkmem, hslab⟩ := h.slab.addKmem hpage himage hj hnew.1 KMEM_FLAG_COMFORT
  refine ⟨kmem, _, by simp only [KernelMem.addKmem, hadd, Option.bind_eq_bind, Option.bind_some]; rfl, hkmem, ?_⟩
  constructor
  . exact hslab
  . exact h.live
  . exact h.given
  . simp only [h.pages, hneeds]
    by_cases hj0 : j = 0
    . simp [hj0, hnew.1 hj0]
    . simp [hj0]
  . exact hnew.2

theorem Booting.loop (h : Booting cfg j recs s) (hfit : cfg.kernelReservedPages < cfg.kernelMemPages)
    (himage : s.heap.mem.kmemKmem / SLAB_SIZE ≠ pageAddr cfg.kernelReservedPages / SLAB_SIZE) (hleft : j + left = 12)
    : ∃ s' recs', slabInit.loop cfg s (2 ^ j) j left = some s' ∧ Booting cfg 12 recs' s' := by
  induction left generalizing s j recs with
  | zero =>
    obtain rfl : j = 12 := hleft
    exact ⟨s, recs, rfl, h⟩
  | succ left ih =>
    obtain ⟨kmem, s₁, hadd, hkmem, hbooting⟩ := h.addKmem (by omega) hfit himage
    obtain ⟨s', recs', hloop, hbooting'⟩ := ih hbooting (by rwa [← hkmem] at himage) (by omega)
    refine ⟨s', recs', ?_, hbooting'⟩
    rw [slabInit.loop, hadd]
    exact hloop

theorem Booting.inv (h : Booting cfg 12 recs s)
    : Inv cfg (s.heap.mem.kmemKmem :: recs.map SlabBlock.addr) recs (cfg.kernelReservedPages + 1) s := by
  have hpages := h.pages
  rw [if_neg (by decide)] at hpages
  have hkept := h.slab.kept
  rw [if_neg (by decide)] at hkept
  constructor
  . constructor
    . rw [h.live, hpages]
      exact hkept
    . exact h.slab.ready
  . exact h.taken
  . rw [extents, hpages, h.given, pageAddr_add kernelReservedPages_pos]
    exact (Packed.nil _).push _

end Init

/--
The kernel map ends before the page that holds the end of the user map, which is the first one that is given out.
-/
theorem memmapUser_le (cfg : MemConfig) (huser : PAGE_SIZE ≤ cfg.userMemPages)
    : cfg.memmapUser ≤ pageAddr cfg.kernelReservedPages := by
  have hend : cfg.memmapEnd = cfg.memmapUser + cfg.userMemPages := rfl
  have hkernel : 0xC0000000 ≤ cfg.memmapUser := by
    simp only [memmapUser]
    omega
  simp only [pageAddr, kernelReservedPages, hend, Nat.shiftRight_eq_div_pow, PAGE_SIZE] at *
  omega

theorem exists_booting_mmInit (cfg : MemConfig) (m : Memory) (free : Nat → FreeNode) (slab : Nat → SlabHeader)
    (cache : Nat → KmemCache) {kmemKmem : Nat} (hkernel : 0xC0000000 ≤ kmemKmem) (himage : kmemKmem < cfg.memmapKernel)
    (huser : PAGE_SIZE ≤ cfg.userMemPages) (hfit : cfg.kernelReservedPages < cfg.kernelMemPages)
    : ∃ s₀ recs, mmInit cfg m (boot free slab cache kmemKmem) = some s₀ ∧ Booting cfg 12 recs s₀ := by
  have hbooting : Booting cfg 0 []
      ⟨cfg.pageInit m, ⟨boot free slab cache kmemKmem, [], []⟩, []⟩ := by
    constructor
    . exact booting_boot free slab cache (by omega) _
    . rfl
    . rfl
    . rfl
    . exact cfg.takenTo_pageInit m (by omega)
  have hpage : kmemKmem / SLAB_SIZE ≠ pageAddr cfg.kernelReservedPages / SLAB_SIZE := by
    have hle := memmapUser_le cfg huser
    have hmap := cfg.memmapUser_eq
    simp only [pageAddr, PAGE_SIZE, SLAB_SIZE] at *
    omega
  exact hbooting.loop hfit hpage (Nat.zero_add 12)

theorem exists_inv_mmInit (cfg : MemConfig) (m : Memory) (free : Nat → FreeNode) (slab : Nat → SlabHeader)
    (cache : Nat → KmemCache) {kmemKmem : Nat} (hkernel : 0xC0000000 ≤ kmemKmem) (himage : kmemKmem < cfg.memmapKernel)
    (huser : PAGE_SIZE ≤ cfg.userMemPages) (hfit : cfg.kernelReservedPages < cfg.kernelMemPages)
    : ∃ s₀ caches recs, mmInit cfg m (boot free slab cache kmemKmem) = some s₀
        ∧ Inv cfg caches recs (cfg.kernelReservedPages + 1) s₀ := by
  obtain ⟨s₀, recs, hinit, hbooting⟩ := exists_booting_mmInit cfg m free slab cache hkernel himage huser hfit
  exact ⟨s₀, _, recs, hinit, hbooting.inv⟩

/--
The bytes that are given out, and those that there are from the first page on.
-/
def used (s : KernelMem) : Nat := (s.extents.map Extent.size).sum

def capacity (cfg : MemConfig) : Nat := (cfg.kernelMemPages - cfg.kernelReservedPages) * PAGE_SIZE

/--
The size has a cache. If that has neither a partial nor an empty slab there is a page for a new one, and otherwise the
slab in front has an object left. A full slab in front, which is what the first allocation from a slab of one object
leaves on `empty_slab`, is not passed over.
-/
def Serves (cfg : MemConfig) (s : KernelMem) (size : Nat) : Prop :=
  size < SLAB_SIZE / 2
    ∧ ∃ kmem, s.heap.mem.comfortKmem size 0 12 = some kmem
      ∧ if NeedsPage s.heap.mem kmem then
          s.used + SLAB_SIZE ≤ capacity cfg
        else
          (s.heap.mem.slab (s.heap.mem.front kmem)).freeCount ≠ 0

namespace Inv

theorem used_add_le_iff (h : Inv cfg caches recs u s) (n : Nat)
    : s.used + n * PAGE_SIZE ≤ capacity cfg ↔ u + n ≤ cfg.kernelMemPages := by
  have hfull := h.packed.full
  have hle := h.taken.le
  have hpos := h.taken.pos
  have hres := @kernelReservedPages_pos cfg
  simp only [used, capacity, pageAddr, PAGE_SIZE] at *
  omega

theorem palloc_ne_zero_iff (h : Inv cfg caches recs u s) (hsize : size < 0x100000000)
    : (cfg.palloc s.map ZONE_KERNEL size).1 ≠ 0 ↔ 0 < size ∧ s.used + pages size * PAGE_SIZE ≤ capacity cfg := by
  have hpalloc := h.taken.palloc hsize
  rw [h.used_add_le_iff]
  split at hpalloc
  . next hfits =>
    rw [hpalloc.1]
    exact iff_of_true (pageAddr_ne_zero u) hfits
  . next hfits =>
    rw [hpalloc]
    exact iff_of_false (fun hne => hne rfl) hfits

theorem newPage_ne_zero_iff (h : Inv cfg caches recs u s) {kmem : Nat} (hneeds : NeedsPage s.heap.mem kmem)
    : (s.newPage cfg (some kmem)).1 ≠ 0 ↔ s.used + SLAB_SIZE ≤ capacity cfg := by
  have hiff := @palloc_ne_zero_iff cfg s caches recs u SLAB_SIZE h (by decide)
  rw [newPage, if_pos hneeds, hiff]
  exact and_iff_right (by decide)

theorem newPage_fresh (h : Inv cfg caches recs u s) (kmem : Nat)
    : (s.newPage cfg (some kmem)).1 = 0
        ∨ IsPage (s.newPage cfg (some kmem)).1 ∧ (s.newPage cfg (some kmem)).1 ∉ s.heap.pages := by
  by_cases hneeds : NeedsPage s.heap.mem kmem
  . have hnew := newPage_of_needsPage h.taken hneeds
    split at hnew
    . rw [hnew.1]
      exact Or.inr ⟨isPage_pageAddr h.taken, h.fresh⟩
    . rw [hnew]
      exact Or.inl rfl
  . rw [newPage_of_not_needsPage hneeds]
    exact Or.inl rfl

theorem allocFromKmem_iff (h : Inv cfg caches recs u s) {kmem : Nat} (hkmem : kmem ∈ caches)
    : (∃ r, s.heap.mem.allocFromKmem kmem (s.newPage cfg (some kmem)).1 = some r)
        ↔
      if NeedsPage s.heap.mem kmem then
        s.used + SLAB_SIZE ≤ capacity cfg
      else
        (s.heap.mem.slab (s.heap.mem.front kmem)).freeCount ≠ 0 := by
  rw [h.heap.kept.exists_allocFromKmem hkmem (h.newPage_fresh kmem)]
  by_cases hneeds : NeedsPage s.heap.mem kmem
  . rw [if_pos hneeds, if_pos hneeds, h.newPage_ne_zero_iff hneeds]
  . rw [if_neg hneeds, if_neg hneeds]

theorem kmalloc_iff (h : Inv cfg caches recs u s) (size : BitVec 32)
    : (∃ s' b, s.step cfg fuel (.kmalloc size) = some s' ∧ s'.heap.live = b :: s.heap.live)
        ↔
      s.Serves cfg size.toNat := by
  simp only [KernelMem.step, KernelMem.kmallocFlags, Serves]
  by_cases hbig : size.toNat > SLAB_SIZE / 2
  . have hkmem : s.heap.mem.kmemFor fuel size.toNat KMEM_FLAG_COMFORT 0 = some none := by
      rw [kmemFor, if_pos hbig]
    refine iff_of_false ?_ (fun hserves => by omega)
    rintro ⟨s', b, hstep, hlive⟩
    -- nothing is allocated
    simp only [hkmem, SlabMem.kmallocFlags, Option.bind_eq_bind, Option.bind_some, Option.pure_def,
      Option.some.injEq] at hstep
    rw [← hstep] at hlive
    exact List.cons_ne_self _ _ hlive.symm
  have hfor := @kmemFor_comfort fuel size.toNat hbig s.heap.mem
  cases hcomfort : s.heap.mem.comfortKmem size.toNat 0 12 with
  | none =>
    rw [hcomfort, Option.map_none] at hfor
    refine iff_of_false ?_ (by simp)
    rintro ⟨s', b, hstep, -⟩
    simp [hfor] at hstep
  | some kmem =>
    rw [hcomfort, Option.map_some] at hfor
    have hlt : size.toNat < SLAB_SIZE / 2 := by
      by_contra hge
      rw [show size.toNat = SLAB_SIZE / 2 by omega, comfortKmem_half] at hcomfort
      cases hcomfort
    have hmem := (h.heap.ready.kmemFor_mem h.heap.kernel (Or.inl rfl) hfor).1
    have hexists := h.allocFromKmem_iff hmem
    simp only [hfor, SlabMem.kmallocFlags, Option.bind_eq_bind, Option.bind_some, Option.pure_def,
      Option.some.injEq, exists_eq_left', and_iff_right hlt]
    rw [← hexists]
    constructor
    . rintro ⟨s', b, hstep, -⟩
      obtain ⟨r, hr, -⟩ := Option.bind_eq_some_iff.mp hstep
      exact ⟨r, hr⟩
    . rintro ⟨r, hr⟩
      exact ⟨_, _, by rw [hr]; rfl, rfl⟩

end Inv

/--
The caches of `kmalloc` have no slabs at first.
-/
theorem Booting.needsPage (h : Booting cfg 12 recs s) (hsize : size < 2 ^ 11)
    : ∃ kmem, s.heap.mem.comfortKmem size 0 12 = some kmem ∧ NeedsPage s.heap.mem kmem := by
  obtain ⟨kmem, hcomfort⟩ := @comfortKmem_isSome s.heap.mem size 0 11 12 hsize (by decide) (by decide) (by decide)
  obtain ⟨j, hj, -, rfl, -⟩ := comfortKmem_some hcomfort
  obtain ⟨hempty, hpartial, -⟩ := h.slab.lists _ (h.slab.table j hj).1
  exact ⟨_, hcomfort, hpartial, hempty⟩

theorem Booting.used_eq (h : Booting cfg 12 recs s) : s.used = SLAB_SIZE := by
  have hpages := h.pages
  rw [if_neg (by decide)] at hpages
  simp only [used, extents, hpages, h.given, List.map_cons, List.map_nil, List.append_nil, List.sum_cons, List.sum_nil,
    Nat.add_zero]

/--
The state behind a call of `palloc`.
-/
theorem Booting.palloc (h : Booting cfg 12 recs s) (fuel : Nat) (size : BitVec 32)
    : ∃ s', s.step cfg fuel (.palloc size) = some s'
        ∧ s'.heap = s.heap ∧ s'.used ≤ SLAB_SIZE + MemConfig.pages size.toNat * PAGE_SIZE := by
  refine ⟨_, rfl, rfl, ?_⟩
  have hused := h.used_eq
  simp only [used, extents, List.map_append, List.sum_append] at hused ⊢
  split
  . omega
  . rw [List.map_cons, List.sum_cons, Nat.add_comm SLAB_SIZE, Nat.add_left_comm]
    exact Nat.add_le_add_left (Nat.le_of_eq hused) _

section Example

/--
32 MiB of memory and an image of 2 MiB.
-/
def exampleConfig : MemConfig := ⟨0x200000, 0x8800, by decide, by decide, by decide⟩

def exampleSlab : SlabMem :=
  boot (fun _ => ⟨0, 0⟩) (fun _ => ⟨0, 0, 0, 0, 0⟩) (fun _ => ⟨0, 0, 0, 0, 0, 0, 0⟩) 0xC0150000

theorem exists_booting_example
    : ∃ s₀ recs, mmInit exampleConfig ⟨fun _ => 0, []⟩ exampleSlab = some s₀ ∧ Booting exampleConfig 12 recs s₀ :=
  exists_booting_mmInit exampleConfig ⟨fun _ => 0, []⟩ (fun _ => ⟨0, 0⟩) (fun _ => ⟨0, 0, 0, 0, 0⟩)
    (fun _ => ⟨0, 0, 0, 0, 0, 0, 0⟩) (by decide) (by decide) (by decide) (by decide)

theorem serves_example (h : Booting exampleConfig 12 recs s) (hheap : s'.heap = s.heap)
    (hused : s'.used + SLAB_SIZE ≤ capacity exampleConfig)
    : s'.Serves exampleConfig (100 : BitVec 32).toNat := by
  obtain ⟨kmem, hcomfort, hneeds⟩ := h.needsPage (show (100 : BitVec 32).toNat < 2 ^ 11 by decide)
  refine ⟨by decide, kmem, hheap ▸ hcomfort, ?_⟩
  rw [hheap, if_pos hneeds]
  exact hused

/--
Two pages for others than the slab allocator, then an object.
-/
theorem exists_object_example (h : Booting exampleConfig 12 recs s)
    : ∃ s₁ s₂ b, s.step exampleConfig 13 (.palloc 8192) = some s₁ ∧ s₁.step exampleConfig 13 (.kmalloc 100) = some s₂
        ∧ s₁.Serves exampleConfig (100 : BitVec 32).toNat
        ∧ s₁.used + pages (4096 : BitVec 32).toNat * PAGE_SIZE ≤ capacity exampleConfig
        ∧ s₂.heap.live = [b] ∧ (s₂.block b).Contains b.addr := by
  obtain ⟨s₁, hfirst, hheap, hused⟩ := h.palloc 13 8192
  have hcapacity : SLAB_SIZE + pages (8192 : BitVec 32).toNat * PAGE_SIZE + SLAB_SIZE ≤ capacity exampleConfig := by
    decide
  have hserves := serves_example h hheap (by omega)
  obtain ⟨u, hinv⟩ := h.inv.palloc hfirst
  obtain ⟨s₂, b, hsecond, hlive⟩ := (hinv.kmalloc_iff 100).mpr hserves
  rw [hheap, h.live] at hlive
  obtain ⟨u', hinv'⟩ := hinv.kmallocFlags (Or.inl rfl) hsecond
  refine ⟨s₁, s₂, b, hfirst, hsecond, hserves, ?_, hlive, Nat.le_refl _, ?_⟩
  . have hpage : pages (4096 : BitVec 32).toNat * PAGE_SIZE = SLAB_SIZE := rfl
    omega
  . obtain ⟨hkmem, -⟩ := hinv'.heap.kept.block b (List.mem_append_left _ (hlive ▸ List.mem_cons_self))
    have hpos := (hinv'.heap.kept.cache _ hkmem).objSize_pos
    exact Nat.lt_add_of_pos_right hpos

end Example

/--
Whatever is allocated, and whatever is written into what was allocated, the blocks of the slab allocator, its pages and
the pages of others stay apart, behind the kernel map and inside of the memory of the machine.
-/
theorem mmInit_safe (cfg : MemConfig) (m : Memory) (free : Nat → FreeNode) (slab : Nat → SlabHeader)
    (cache : Nat → KmemCache) (kmemKmem memUpper : Nat) (hmem : cfg.totalMem = totalMem memUpper)
    (hupper : memUpper + 1024 < 0x100000000) (hkernel : 0xC0000000 ≤ kmemKmem) (himage : kmemKmem < cfg.memmapKernel)
    (huser : PAGE_SIZE ≤ cfg.userMemPages) (hfit : cfg.kernelReservedPages < cfg.kernelMemPages)
    : ∃ s₀, mmInit cfg m (boot free slab cache kmemKmem) = some s₀
        ∧ ∀ fuel ops s, Run.Guarded (step cfg fuel) Owned s₀ ops → Run.run (step cfg fuel) s₀ ops = some s
          → s.Safe cfg memUpper := by
  obtain ⟨s₀, caches, recs, hinit, hinv⟩ := exists_inv_mmInit cfg m free slab cache hkernel himage huser hfit
  refine ⟨s₀, hinit, ?_⟩
  intro fuel ops s hguarded hrun
  have hle := memmapUser_le cfg huser
  obtain ⟨u, h⟩ := hguarded.invariant (I := fun s => ∃ u, Inv cfg caches recs u s)
    (fun s op s' ⟨u, h⟩ howned hstep => h.step hle howned hstep) ⟨_, hinv⟩ hrun
  exact h.safe hle hmem hupper

/--
Two pages for others than the slab allocator, an object, and a byte that is written into it.
-/
theorem mmInit_safe_object
    : ∃ s₀ s b, mmInit exampleConfig ⟨fun _ => 0, []⟩ exampleSlab = some s₀
        ∧ Run.run (step exampleConfig 13) s₀ [.palloc 8192, .kmalloc 100, .write b.addr 7] = some s
        ∧ s.heap.live = [b] ∧ s.Safe exampleConfig 0x7C00 := by
  obtain ⟨s₀, hinit, hsafe⟩ :=
    mmInit_safe exampleConfig ⟨fun _ => 0, []⟩ (fun _ => ⟨0, 0⟩) (fun _ => ⟨0, 0, 0, 0, 0⟩)
      (fun _ => ⟨0, 0, 0, 0, 0, 0, 0⟩) 0xC0150000 0x7C00 (by decide) (by decide) (by decide) (by decide) (by decide)
      (by decide)
  obtain ⟨s₀', recs, hinit', hbooting⟩ := exists_booting_example
  obtain rfl : s₀ = s₀' := Option.some.inj (hinit.symm.trans hinit')
  obtain ⟨s₁, s₂, b, hfirst, hsecond, -, -, hlive, hcontains⟩ := exists_object_example hbooting
  have hrun : Run.run (step exampleConfig 13) s₀ [.palloc 8192, .kmalloc 100, .write b.addr 7]
      = some { s₂ with map := s₂.map.store b.addr 7 } := by
    rw [Run.run_cons, hfirst, Option.bind_some, Run.run_cons, hsecond, Option.bind_some]
    rfl
  refine ⟨s₀, _, b, hinit, hrun, hlive, hsafe 13 _ _ ?_ hrun⟩
  refine ⟨trivial, fun s hs => ⟨trivial, fun s' hs' => ⟨?_, fun _ _ => trivial⟩⟩⟩
  obtain rfl : s = s₁ := Option.some.inj (hs.symm.trans hfirst)
  obtain rfl : s' = s₂ := Option.some.inj (hs'.symm.trans hsecond)
  exact Or.inl ⟨b, hlive ▸ List.mem_cons_self, hcontains⟩

/--
`palloc` fails exactly if the pages that are left do not suffice, and `kmalloc` exactly if the size has no cache, the
slab in front is full, or a page for a new slab is needed and none is left.
-/
theorem mmInit_allocates_iff (cfg : MemConfig) (m : Memory) (free : Nat → FreeNode) (slab : Nat → SlabHeader)
    (cache : Nat → KmemCache) (kmemKmem : Nat) (hkernel : 0xC0000000 ≤ kmemKmem) (himage : kmemKmem < cfg.memmapKernel)
    (huser : PAGE_SIZE ≤ cfg.userMemPages) (hfit : cfg.kernelReservedPages < cfg.kernelMemPages)
    : ∃ s₀, mmInit cfg m (boot free slab cache kmemKmem) = some s₀
        ∧ ∀ fuel ops s (size : BitVec 32), Run.Guarded (step cfg fuel) Owned s₀ ops
          → Run.run (step cfg fuel) s₀ ops = some s
          → ((cfg.palloc s.map ZONE_KERNEL size.toNat).1 ≠ 0
                ↔ 0 < size.toNat ∧ s.used + pages size.toNat * PAGE_SIZE ≤ capacity cfg)
              ∧ ((∃ s' b, s.step cfg fuel (.kmalloc size) = some s' ∧ s'.heap.live = b :: s.heap.live)
                ↔ s.Serves cfg size.toNat) := by
  obtain ⟨s₀, caches, recs, hinit, hinv⟩ := exists_inv_mmInit cfg m free slab cache hkernel himage huser hfit
  refine ⟨s₀, hinit, ?_⟩
  intro fuel ops s size hguarded hrun
  have hle := memmapUser_le cfg huser
  obtain ⟨u, h⟩ := hguarded.invariant (I := fun s => ∃ u, Inv cfg caches recs u s)
    (fun s op s' ⟨u, h⟩ howned hstep => h.step hle howned hstep) ⟨_, hinv⟩ hrun
  exact ⟨h.palloc_ne_zero_iff size.isLt, h.kmalloc_iff size⟩

/--
Behind two pages for others, both `palloc` and `kmalloc` have something left.
-/
theorem mmInit_allocates_iff_two
    : ∃ s₀ s s' b, mmInit exampleConfig ⟨fun _ => 0, []⟩ exampleSlab = some s₀
        ∧ Run.run (step exampleConfig 13) s₀ [.palloc 8192] = some s
        ∧ (exampleConfig.palloc s.map ZONE_KERNEL (4096 : BitVec 32).toNat).1 ≠ 0
        ∧ s.step exampleConfig 13 (.kmalloc 100) = some s' ∧ s'.heap.live = b :: s.heap.live := by
  obtain ⟨s₀, hinit, hiff⟩ :=
    mmInit_allocates_iff exampleConfig ⟨fun _ => 0, []⟩ (fun _ => ⟨0, 0⟩) (fun _ => ⟨0, 0, 0, 0, 0⟩)
      (fun _ => ⟨0, 0, 0, 0, 0, 0, 0⟩) 0xC0150000 (by decide) (by decide) (by decide) (by decide)
  obtain ⟨s₀', recs, hinit', hbooting⟩ := exists_booting_example
  obtain rfl : s₀ = s₀' := Option.some.inj (hinit.symm.trans hinit')
  obtain ⟨s₁, -, -, hfirst, -, hserves, hused, -, -⟩ := exists_object_example hbooting
  have hrun : Run.run (step exampleConfig 13) s₀ [.palloc 8192] = some s₁ := by
    rw [Run.run_cons, hfirst]
    rfl
  have hguarded : Run.Guarded (step exampleConfig 13) Owned s₀ [.palloc 8192] := ⟨trivial, fun _ _ => trivial⟩
  obtain ⟨s', b, hstep, hlive⟩ := (hiff 13 _ s₁ 100 hguarded hrun).2.mpr hserves
  exact ⟨s₀, s₁, s', b, hinit, hrun, (hiff 13 _ s₁ 4096 hguarded hrun).1.mpr ⟨by decide, hused⟩, hstep, hlive⟩

end KernelMem
end Osproj
