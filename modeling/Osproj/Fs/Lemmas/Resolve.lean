import Osproj.Fs.Lemmas.Vfs
import Osproj.Mm.Lemmas.SlabRuns

/-!
This module contains the conditions under which `get_fs_type` finds the mount point of an absolute path, and under which
it finds the same for a path that is relative to the working directory. The release of the copied path has a part in
both.
-/

namespace Osproj

open Str ListHeap

namespace Vfs

variable {v : Vfs} {ms : List Mount} {ps ws : List (BitVec 8)} {kmalloc : Nat → Nat} {path buf n : Nat}
  {mem : Memory}

section Copy

structure Copied (v : Vfs) (mem : Memory) (buf : Nat) (fs : List (BitVec 8)) : Prop where
  copy : StringAt mem buf fs
  load_eq (a : Nat) (ha : a < buf ∨ buf + fs.length < a) : mem.load a = v.mem.load a

theorem Copied.stringAt {fs bs : List (BitVec 8)} {a : Nat} (h : Copied v mem buf fs)
    (hclear : Clear buf (fs.length + 1) a bs) (hbs : StringAt v.mem a bs)
    : StringAt mem a bs := by
  unfold Clear at hclear
  apply hbs.congr
  intro b hlo hhi
  exact h.load_eq b (by omega)

/--
What becomes of a string does not depend on a copy elsewhere.
-/
theorem Copied.stringAt_iff {fs bs : List (BitVec 8)} {a : Nat} (h : Copied v mem buf fs)
    (hclear : Clear buf (fs.length + 1) a bs) (stores : List WordStore)
    : StringAt (mem.storeWords stores) a bs ↔ StringAt (v.mem.storeWords stores) a bs := by
  unfold Clear at hclear
  have hload (b : Nat) (hlo : a ≤ b) (hhi : b ≤ a + bs.length)
      : (mem.storeWords stores).load b = (v.mem.storeWords stores).load b :=
    Memory.load_storeWords_congr (h.load_eq b (by omega))
  exact ⟨fun h => h.congr (fun b hlo hhi => (hload b hlo hhi).symm), fun h => h.congr hload⟩

theorem load_eq_slash_iff (hps : StringAt v.mem path ps) : v.mem.load path = 0x2F ↔ ps.head? = some 0x2F := by
  rw [hps.load]
  cases ps with
  | nil => exact iff_of_false (by decide) (by simp)
  | cons b bs => rw [List.headD_cons, List.head?_cons, Option.some.injEq]

theorem bufSize_absolute (hps : StringAt v.mem path ps) (habs : ps.head? = some 0x2F)
    (hlength : ps.length + 1 < 0x100000000)
    : v.bufSize path = ps.length + 1 := by
  have hslash := (load_eq_slash_iff hps).mpr habs
  rw [bufSize, if_neg (by simp [hslash]), strlen_eq hps (by omega), Nat.mod_eq_of_lt hlength]

theorem bufSize_relative (hws : StringAt v.mem v.pwd ws) (hps : StringAt v.mem path ps) (hrel : ps.head? ≠ some 0x2F)
    (hlength : ws.length + ps.length + 1 < 0x100000000)
    : v.bufSize path = ws.length + ps.length + 1 := by
  have hslash := mt (load_eq_slash_iff hps).mp hrel
  rw [bufSize, if_pos hslash, strlen_eq hws (by omega), strlen_eq hps (by omega), Nat.mod_eq_of_lt hlength]

theorem copyPath_absolute (hps : StringAt v.mem path ps) (habs : ps.head? = some 0x2F)
    (hblock : v.Block ms (kmalloc (ps.length + 1)) (ps.length + 1))
    (hclear : Clear (kmalloc (ps.length + 1)) (ps.length + 1) path ps)
    : ∃ mem, v.copyPath kmalloc path = some (kmalloc (ps.length + 1), mem)
        ∧ Copied v mem (kmalloc (ps.length + 1)) ps := by
  have hfits := hblock.fits
  have hne := hblock.ne_zero
  have hslash := (load_eq_slash_iff hps).mpr habs
  unfold Clear at hclear
  refine ⟨v.mem.storeBytes (kmalloc (ps.length + 1)) (ps ++ [0]), ?_, ?_, ?_⟩
  . rw [copyPath, if_neg (by simp [hslash]), bufSize_absolute hps habs (by omega)]
    simp only [strcpy_eq hps hne (by omega) (by omega), Option.bind_eq_bind, Option.bind_some, Option.pure_def]
  . exact stringAt_storeBytes hps.not_mem
  . intro a ha
    apply Memory.load_storeBytes_of_disjoint
    rw [List.length_append, List.length_singleton]
    omega

theorem copyPath_relative (hws : StringAt v.mem v.pwd ws) (hps : StringAt v.mem path ps)
    (hrel : ps.head? ≠ some 0x2F)
    (hblock : v.Block ms (kmalloc (ws.length + ps.length + 1)) (ws.length + ps.length + 1))
    (hpwd : Clear (kmalloc (ws.length + ps.length + 1)) (ws.length + ps.length + 1) v.pwd ws)
    (hclear : Clear (kmalloc (ws.length + ps.length + 1)) (ws.length + ps.length + 1) path ps)
    : ∃ mem, v.copyPath kmalloc path = some (kmalloc (ws.length + ps.length + 1), mem)
        ∧ Copied v mem (kmalloc (ws.length + ps.length + 1)) (ws ++ ps) := by
  have hfits := hblock.fits
  have hne := hblock.ne_zero
  have hslash := mt (load_eq_slash_iff hps).mp hrel
  have hsize := bufSize_relative hws hps hrel (by omega)
  generalize hbuf : kmalloc (ws.length + ps.length + 1) = buf at *
  unfold Clear at hpwd hclear
  obtain ⟨m₁, m₂, hcpy, hcat, hcopy, hload, -⟩ := strcpy_strcat hws hps hne (by omega) (by omega) (by omega)
  refine ⟨m₂, ?_, hcopy, ?_⟩
  . rw [copyPath, if_pos hslash, hsize, hbuf]
    simp only [hcpy, hcat, Option.bind_eq_bind, Option.bind_some, Option.pure_def]
  . intro a ha
    rw [List.length_append] at ha
    exact hload a (by omega)

/--
The path that is looked up for `path` is `fs`, of which `mem` holds a copy.
-/
structure Prepared (v : Vfs) (ms : List Mount) (kmalloc : Nat → Nat) (path : Nat) (ps fs : List (BitVec 8))
    (mem : Memory) : Prop where
  bufSize_eq : v.bufSize path = fs.length + 1
  copyPath_eq : v.copyPath kmalloc path = some (kmalloc (fs.length + 1), mem)
  copied : Copied v mem (kmalloc (fs.length + 1)) fs
  clear : Clear (kmalloc (fs.length + 1)) (fs.length + 1) path ps
  string : StringAt v.mem path ps
  mounts (m : Mount) (hm : m ∈ ms) : StringAt mem (v.mountPoint m.point).path m.path

variable {fs : List (BitVec 8)}

theorem Prepared.load_eq (h : v.Prepared ms kmalloc path ps fs mem) {a : Nat} (hlo : path ≤ a)
    (hhi : a ≤ path + ps.length)
    : mem.load a = v.mem.load a := by
  have hclear := h.clear
  unfold Clear at hclear
  exact h.copied.load_eq a (by omega)

theorem Prepared.string_copied (h : v.Prepared ms kmalloc path ps fs mem) : StringAt mem path ps :=
  h.copied.stringAt h.clear h.string

theorem Prepared.stringAt_iff (h : v.Prepared ms kmalloc path ps fs mem) {a : Nat} {bs : List (BitVec 8)}
    (hlo : path ≤ a) (hhi : a + bs.length ≤ path + ps.length) (stores : List WordStore)
    : StringAt (mem.storeWords stores) a bs ↔ StringAt (v.mem.storeWords stores) a bs := by
  have hclear := h.clear
  unfold Clear at hclear
  apply h.copied.stringAt_iff
  unfold Clear
  omega

theorem Prepared.getFsType_eq {fuel : Nat} {kmalloc : Nat → Nat × SlabMem}
    (h : v.Prepared ms (fun size => (kmalloc size).1) path ps fs mem) (slabs : Nat) (hlisted : v.Listed ms)
    (hfuel : ms.length ≤ fuel)
    : v.getFsType fuel slabs kmalloc path
        =
      ((kmalloc (fs.length + 1)).2.kfree slabs (kmalloc (fs.length + 1)).1).map fun slab =>
        (fsTypeOf { v with mem } ((kmalloc (fs.length + 1)).2.kfreeStores slabs (kmalloc (fs.length + 1)).1) path
            (select ms fs),
          ({ v with mem, pathSwap := (kmalloc (fs.length + 1)).1 }.found (select ms fs)).storeWords
            ((kmalloc (fs.length + 1)).2.kfreeStores slabs (kmalloc (fs.length + 1)).1), slab) := by
  have heq := Vfs.getFsType_eq slabs hlisted hfuel h.copyPath_eq h.copied.copy h.mounts
    (by rw [h.bufSize_eq])
  rw [h.bufSize_eq] at heq
  exact heq

end Copy

section Example

/--
The allocator after `slab_init` and `fs_init`.
-/
def exampleSlab : SlabMem :=
  ((Run.run (SlabHeap.step 13) ⟨SlabHeap.booted, [], []⟩
    [.kmalloc 12 0xC0201000, .kmalloc 12 0, .kmalloc 24 0xC0203000, .kmalloc 24 0]).get (by decide +kernel)).mem

/--
What the slab allocator returns for each size, and its state behind that.
-/
def slabKmalloc (s : SlabMem) (fuel page size : Nat) : Nat × SlabMem := (s.kmalloc fuel size page).getD (0, s)

@[irreducible]
def exampleKmalloc : Nat → Nat × SlabMem := slabKmalloc exampleSlab 13 0xC0205000

/--
The nodes are what `kmalloc` has returned for them.
-/
def exampleMounts : List Mount :=
  [{ point := 0xC0107000, node := 0xC020155C, path := [0x2F], driverId := 1 },
    { point := 0xC0107010, node := 0xC020156C, path := [0x2F, 0x64, 0x65, 0x76], driverId := 2 }]

/--
"/devices"
-/
def devices : List (BitVec 8) := [0x2F, 0x64, 0x65, 0x76, 0x69, 0x63, 0x65, 0x73]

/--
"usr/bin/sh"
-/
def shell : List (BitVec 8) := [0x75, 0x73, 0x72, 0x2F, 0x62, 0x69, 0x6E, 0x2F, 0x73, 0x68]

/--
"dev/tty0"
-/
def tty : List (BitVec 8) := [0x64, 0x65, 0x76, 0x2F, 0x74, 0x74, 0x79, 0x30]

def exampleMemory : Memory :=
  (((((⟨fun _ => 0, []⟩ : Memory).storeBytes 0xC0108000 [0x2F]).storeBytes 0xC0108010
    [0x2F, 0x64, 0x65, 0x76]).storeBytes 0xC0108020 devices).storeBytes
    0xC0108030 (0x2F :: shell)).storeBytes 0xC0108040 (0x2F :: tty)

def exampleList : ListHeap × Nat :=
  (Run.run insertNode (⟨fun _ => ⟨0, 0, 0⟩⟩, 0) (exampleMounts.map fun m => ⟨m.point, m.node⟩)).getD
    (⟨fun _ => ⟨0, 0, 0⟩⟩, 0)

def exampleVfs : Vfs where
  mem := exampleMemory
  list := exampleList.1
  mountPoint := fun a => if a = 0xC0107000 then ⟨0xC0108000, 1, 1⟩ else ⟨0xC0108010, 4, 2⟩
  mountPointHead := exampleList.2
  pwd := 0xC0108000
  pathSwap := 0
  mpSwap := 0
  mostLong := 0

theorem forall_exampleMounts {P : Mount → Prop}
    (hroot : P { point := 0xC0107000, node := 0xC020155C, path := [0x2F], driverId := 1 })
    (hdev : P { point := 0xC0107010, node := 0xC020156C, path := [0x2F, 0x64, 0x65, 0x76], driverId := 2 })
    : ∀ m ∈ exampleMounts, P m := by
  simp only [exampleMounts, List.forall_mem_cons]
  exact ⟨hroot, hdev, by simp⟩

theorem mounted_exampleVfs : exampleVfs.Mounted exampleMounts := by
  refine ⟨⟨⟨fun _ => ⟨0, 0, 0⟩⟩, rfl⟩, by decide, by decide, ?_⟩
  apply forall_exampleMounts
  . exact ⟨by decide, by decide +kernel, by decide, rfl, rfl⟩
  . exact ⟨by decide, by decide +kernel, by decide, rfl, rfl⟩

instance (a n b : Nat) (bs : List (BitVec 8)) : Decidable (Clear a n b bs) := by
  unfold Clear
  infer_instance

/--
A block for nine to sixteen bytes lies behind the nodes of the list.
-/
theorem exampleKmalloc_eq {n : Nat} (hn : n ∈ [9, 10, 12]) : (exampleKmalloc n).1 = 0xC020157C := by
  have h : ∀ n ∈ [9, 10, 12], (exampleKmalloc n).1 = 0xC020157C := by
    decide +kernel
  exact h n hn

theorem block_exampleVfs {n : Nat} (hn : n ∈ [9, 10, 12]) : exampleVfs.Block exampleMounts (exampleKmalloc n).1 n := by
  have hle : n ≤ 12 := by
    simp only [List.mem_cons, List.not_mem_nil, or_false] at hn
    omega
  rw [exampleKmalloc_eq hn]
  refine ⟨by decide, by omega, ?_⟩
  apply forall_exampleMounts
  . exact Or.inr (by decide)
  . exact Or.inr (by decide)

theorem clear_exampleVfs {n a : Nat} {bs : List (BitVec 8)} (hn : n ∈ [9, 10, 12]) (ha : a + bs.length < 0xC020157C)
    : Clear (exampleKmalloc n).1 n a bs := by
  rw [exampleKmalloc_eq hn]
  exact Or.inr ha

end Example

section Absolute

def IsMountOf (ms ps : List (BitVec 8)) : Prop :=
  ms <+: ps ∧ (ps = ms ∨ ms.getLast? = some 0x2F ∨ (ps.drop ms.length).head? = some 0x2F)

instance (ms ps : List (BitVec 8)) : Decidable (IsMountOf ms ps) := by
  unfold IsMountOf
  infer_instance

/--
`r` is the answer for the path `ps`, which is at `path`: the mount point with the longest mount path that is a
prefix on component boundaries, and the rest of the path, or that there is none.
-/
def Resolves (ms : List Mount) (ps : List (BitVec 8)) (path : Nat) (mem : Memory) (r : FsType) : Prop :=
  (r.status = 0 ∧ ∃ m ∈ ms, IsMountOf m.path ps
      ∧ (∀ m' ∈ ms, IsMountOf m'.path ps → m'.path.length ≤ m.path.length)
      ∧ r.fsType = m.driverId
      ∧ r.baked + (strip (ps.drop m.path.length)).length = path + ps.length
      ∧ StringAt mem r.baked (strip (ps.drop m.path.length)))
    ∨ (r.status ≠ 0 ∧ ∀ m ∈ ms, ¬ IsMountOf m.path ps)

/--
The longest mount paths that are prefixes byte by byte are prefixes on component boundaries.
-/
def OnBoundary (ms : List Mount) (ps : List (BitVec 8)) : Prop :=
  ∀ m, IsLongest ms ps m → IsMountOf m.path ps

theorem length_strip (bs : List (BitVec 8))
    : (strip bs).length + (if bs.head? = some 0x2F then 1 else 0) = bs.length := by
  cases bs with
  | nil => rfl
  | cons b bs =>
    simp only [strip, List.head?_cons, Option.some.injEq]
    split
    . rw [List.length_cons]
    . rw [List.length_cons, Nat.add_zero]

theorem getLast?_of_isPrefix {ms : List (BitVec 8)} {k : Nat} {b : BitVec 8} (hp : ms <+: ps)
    (hlen : ms.length = k + 1) (hb : (ps.drop k).head? = some b)
    : ms.getLast? = some b := by
  obtain ⟨rest, rfl⟩ := hp
  rcases List.eq_nil_or_concat ms with rfl | ⟨init, c, rfl⟩
  . simp at hlen
  . rw [List.concat_eq_append] at hlen hb ⊢
    rw [List.length_append, List.length_singleton] at hlen
    obtain rfl : init.length = k := by omega
    rw [List.append_assoc, List.drop_left] at hb
    rw [List.getLast?_append, List.getLast?_singleton]
    simpa using hb

/--
After the stores the rest of the path `ps` lies behind `baked`, and the driver of the mount point `m` is that of a mount
point with the same path.
-/
def Kept (v : Vfs) (ms : List Mount) (stores : List WordStore) (mem : Memory) (path : Nat) (ps : List (BitVec 8))
    (m : Mount) : Prop :=
  StringAt (mem.storeWords stores) (bakedAt mem path m.path.length) (strip (ps.drop m.path.length))
    ∧ ∃ m' ∈ ms, m'.path = m.path ∧ ((v.mountPoint m.point).storeWords stores m.point).driverId = m'.driverId

instance (v : Vfs) (ms : List Mount) (stores : List WordStore) (mem : Memory) (path : Nat) (ps : List (BitVec 8))
    (m : Mount) : Decidable (v.Kept ms stores mem path ps m) := by
  unfold Kept
  infer_instance

/--
The longest mount point is the answer iff it lies on a component boundary and its answer is kept.
-/
theorem resolves_iff {r : FsType} {stores : List WordStore} (hlisted : v.Listed ms)
    (hps : StringAt mem path ps) (hend : path + ps.length < 0x100000000)
    (hr : r = fsTypeOf { v with mem } stores path (select ms ps))
    : Resolves ms ps path (mem.storeWords stores) r
        ↔
      OnBoundary ms ps ∧ ∀ m, select ms ps = some m → v.Kept ms stores mem path ps m := by
  cases hselect : select ms ps with
  | none =>
    have hnone := not_isPrefix_of_select hselect (fun m hm => (hlisted.mountAt m hm).length_pos)
    rw [hr, hselect]
    apply iff_of_true
    . exact Or.inr ⟨by simp [fsTypeOf], fun m hm hmount => hnone m hm hmount.1⟩
    . exact ⟨fun m hm => absurd hm.isPrefix (hnone m hm.mem), by simp⟩
  | some m =>
    have hlongest := isLongest_of_select hselect
    obtain ⟨hbaked, hrest⟩ := bakedAt_eq hps hend hlongest.isPrefix.length_le
    rw [hr, hselect]
    constructor
    . rintro (⟨-, m', hm', hmount, hmax, htype, hbaked', hrest'⟩ | ⟨hstatus, -⟩)
      . have hle := hlongest.le m' hm' hmount.1
        have hstrip := length_strip (ps.drop m.path.length)
        have hstrip' := length_strip (ps.drop m'.path.length)
        have hlen := hlongest.isPrefix.length_le
        simp only [fsTypeOf] at hbaked' hrest' htype
        rw [List.length_drop] at hstrip hstrip'
        have hpath : m'.path = m.path := by
          apply (List.prefix_of_prefix_length_le hmount.1 hlongest.isPrefix hle).eq_of_length
          by_contra hne
          -- the longer path ends with the '/' behind the shorter one, and is on a boundary itself
          have hslash : (ps.drop m'.path.length).head? = some 0x2F := by
            by_contra hno
            rw [if_neg hno] at hstrip'
            omega
          rw [if_pos hslash] at hstrip'
          have hlast := getLast?_of_isPrefix hlongest.isPrefix (show m.path.length = m'.path.length + 1 by omega) hslash
          have hge := hmax m hlongest.mem ⟨hlongest.isPrefix, Or.inr (Or.inl hlast)⟩
          omega
        rw [hpath] at hmount hrest'
        refine ⟨fun m'' hm'' => hlongest.path_eq hm'' ▸ hmount, fun m'' hm'' => ?_⟩
        obtain rfl : m = m'' := Option.some.inj hm''
        exact ⟨hrest', m', hm', hpath, htype⟩
      . exact absurd rfl hstatus
    . rintro ⟨hboundary, hkept⟩
      obtain ⟨hrest', m', hm', hpath, htype⟩ := hkept m rfl
      have hmount := hboundary m hlongest
      refine Or.inl ⟨rfl, m', hm', hpath ▸ hmount, ?_, htype, ?_, ?_⟩
      . intro m'' hm'' hmount'
        rw [hpath]
        exact hlongest.le m'' hm'' hmount'.1
      . rw [hpath]
        exact hbaked
      . rw [hpath]
        exact hrest'

structure AbsolutePath (v : Vfs) (ms : List Mount) (kmalloc : Nat → Nat) (path : Nat) (ps : List (BitVec 8))
    : Prop where
  string : StringAt v.mem path ps
  fits : path + ps.length < 0x100000000
  absolute : ps.head? = some 0x2F
  block : v.Block ms (kmalloc (ps.length + 1)) (ps.length + 1)
  clear : Clear (kmalloc (ps.length + 1)) (ps.length + 1) path ps

theorem prepared_absolute (hlisted : v.Listed ms) (h : v.AbsolutePath ms kmalloc path ps)
    : ∃ mem, v.Prepared ms kmalloc path ps ps mem := by
  have hfits := h.block.fits
  have hne := h.block.ne_zero
  obtain ⟨mem, hcopy, hcopied⟩ := copyPath_absolute h.string h.absolute h.block h.clear
  exact ⟨mem, bufSize_absolute h.string h.absolute (by omega), hcopy, hcopied, h.clear, h.string,
    fun m hm => hcopied.stringAt (h.block.clear m hm) (hlisted.mountAt m hm).path_at⟩

theorem Prepared.kept_iff {fs : List (BitVec 8)} {m : Mount} (h : v.Prepared ms kmalloc path ps fs mem)
    (hend : path + ps.length < 0x100000000) (hlen : m.path.length ≤ ps.length) (stores : List WordStore)
    : v.Kept ms stores mem path ps m ↔ v.Kept ms stores v.mem path ps m := by
  obtain ⟨hbaked, -⟩ := bakedAt_eq h.string hend hlen
  have hstrip := length_strip (ps.drop m.path.length)
  rw [List.length_drop] at hstrip
  have heq : bakedAt mem path m.path.length = bakedAt v.mem path m.path.length := by
    simp only [bakedAt]
    rw [Nat.mod_eq_of_lt (show path + m.path.length < 0x100000000 by omega), h.load_eq (by omega) (by omega)]
  rw [Kept, Kept, heq, h.stringAt_iff (by omega) (by omega)]

/--
`kfree` of the copy comes back, and the answer for the path `ps` is kept.
-/
def KeepsAnswer (v : Vfs) (ms : List Mount) (slabs : Nat) (block : Nat × SlabMem) (path : Nat) (ps : List (BitVec 8))
    : Prop :=
  (block.2.kfree slabs block.1).isSome
    ∧ ∀ m, select ms ps = some m → v.Kept ms (block.2.kfreeStores slabs block.1) v.mem path ps m

end Absolute

section Relative

def lookedUp (ws ps : List (BitVec 8)) : List (BitVec 8) := if ps.head? = some 0x2F then ps else ws ++ ps

structure Lookup (v : Vfs) (ms : List Mount) (kmalloc : Nat → Nat) (ws : List (BitVec 8)) (path : Nat)
    (ps : List (BitVec 8)) : Prop where
  pwd : StringAt v.mem v.pwd ws
  string : StringAt v.mem path ps
  fits : path + ps.length < 0x100000000
  block : v.Block ms (kmalloc ((lookedUp ws ps).length + 1)) ((lookedUp ws ps).length + 1)
  clear_pwd : Clear (kmalloc ((lookedUp ws ps).length + 1)) ((lookedUp ws ps).length + 1) v.pwd ws
  clear : Clear (kmalloc ((lookedUp ws ps).length + 1)) ((lookedUp ws ps).length + 1) path ps

theorem prepared_lookup (hlisted : v.Listed ms) (h : v.Lookup ms kmalloc ws path ps)
    : ∃ mem, v.Prepared ms kmalloc path ps (lookedUp ws ps) mem := by
  obtain ⟨hpwd, hps, hend, hblock, hclear_pwd, hclear⟩ := h
  have hfits := hblock.fits
  have hne := hblock.ne_zero
  have hmounts {mem : Memory} (hcopied : Copied v mem (kmalloc ((lookedUp ws ps).length + 1)) (lookedUp ws ps))
      (m : Mount) (hm : m ∈ ms) : StringAt mem (v.mountPoint m.point).path m.path :=
    hcopied.stringAt (hblock.clear m hm) (hlisted.mountAt m hm).path_at
  by_cases habs : ps.head? = some 0x2F
  . rw [lookedUp, if_pos habs] at *
    obtain ⟨mem, hcopy, hcopied⟩ := copyPath_absolute hps habs hblock hclear
    exact ⟨mem, bufSize_absolute hps habs (by omega), hcopy, hcopied, hclear, hps, hmounts hcopied⟩
  . rw [lookedUp, if_neg habs] at *
    rw [List.length_append] at hblock hclear hclear_pwd hfits hne
    obtain ⟨mem, hcopy, hcopied⟩ := copyPath_relative hpwd hps habs hblock hclear_pwd hclear
    have hsize := bufSize_relative hpwd hps habs (by omega)
    rw [← List.length_append] at hclear hcopy hcopied hsize
    exact ⟨mem, hsize, hcopy, hcopied, hclear, hps, hmounts hcopied⟩

/--
`kfree` of the copy comes back.
-/
def Releases (slabs : Nat) (block : Nat × SlabMem) : Prop := (block.2.kfree slabs block.1).isSome

/--
If the path `fs` is below a mount point, the stores change neither the string `ps` at `path` nor its driver.
-/
def Spares (v : Vfs) (ms : List Mount) (stores : List WordStore) (path : Nat) (ps fs : List (BitVec 8)) : Prop :=
  ∀ m, select ms fs = some m →
    StringAt (v.mem.storeWords stores) path ps
      ∧ ((v.mountPoint m.point).storeWords stores m.point).driverId = m.driverId

/--
`kfree` of the copy comes back and spares what is read after it.
-/
def ReleaseOk (v : Vfs) (ms : List Mount) (slabs : Nat) (block : Nat × SlabMem) (path : Nat)
    (ps fs : List (BitVec 8)) : Prop :=
  Releases slabs block ∧ v.Spares ms (block.2.kfreeStores slabs block.1) path ps fs

def Inside (path : Nat) (ps : List (BitVec 8)) (a : Nat) : Prop := path ≤ a ∧ a ≤ path + ps.length

/--
The answers `r` for the path `ps` at `path` and `r'` for the path `fs` at `q` are the same, and each points into the
path it was asked for.
-/
def Agrees (path q : Nat) (ps fs : List (BitVec 8)) (mem mem' : Memory) (r r' : FsType) : Prop :=
  r.status = r'.status ∧ r.fsType = r'.fsType
    ∧ (r.baked = 0 ∧ r'.baked = 0
      ∨ (∃ bs, StringAt mem r.baked bs ∧ StringAt mem' r'.baked bs)
        ∧ Inside path ps r.baked ∧ Inside q fs r'.baked)

/--
No mount path is a prefix of the absolute path, or the working directory is "/" and the longest one ends before a
'/' inside the relative path.
-/
def Aligned (ms : List Mount) (ws ps : List (BitVec 8)) : Prop :=
  ∀ m, IsLongest ms (ws ++ ps) m →
    ws = [0x2F] ∧ m.path.length ≤ ps.length
      ∧ ((ws ++ ps).drop m.path.length).head? = some 0x2F
      ∧ (ps.drop m.path.length).head? ≠ some 0x2F

theorem strip_eq_iff (hws : ws.getLast? = some 0x2F) (hn : n ≤ ps.length)
    : strip (ps.drop n) = strip ((ws ++ ps).drop n)
        ↔
      ws = [0x2F] ∧ ((ws ++ ps).drop n).head? = some 0x2F ∧ (ps.drop n).head? ≠ some 0x2F := by
  have hne : ws ≠ [] := by
    rintro rfl
    simp at hws
  have hpos : 0 < ws.length := List.length_pos_iff.mpr hne
  constructor
  . intro heq
    have hlen := length_strip (ps.drop n)
    have hlen' := length_strip ((ws ++ ps).drop n)
    rw [← heq] at hlen'
    rw [List.length_drop] at hlen hlen'
    rw [List.length_append] at hlen'
    by_cases hslash : ((ws ++ ps).drop n).head? = some 0x2F
    . rw [if_pos hslash] at hlen'
      by_cases hslash' : (ps.drop n).head? = some 0x2F
      . rw [if_pos hslash'] at hlen
        omega
      . rw [if_neg hslash'] at hlen
        obtain ⟨b, rfl⟩ := List.length_eq_one_iff.mp (show ws.length = 1 by omega)
        rw [List.getLast?_singleton, Option.some.injEq] at hws
        exact ⟨by rw [hws], hslash, hslash'⟩
    . rw [if_neg hslash] at hlen'
      split at hlen
      . omega
      . omega
  . rintro ⟨rfl, hslash, hslash'⟩
    have hdrop : ([0x2F] ++ ps).drop n = 0x2F :: ps.drop n := by
      cases hrest : ([0x2F] ++ ps).drop n with
      | nil =>
        rw [hrest] at hslash
        simp at hslash
      | cons b bs =>
        rw [hrest, List.head?_cons, Option.some.injEq] at hslash
        have htail : ps.drop n = bs := by
          have h := congrArg List.tail hrest
          rw [List.tail_drop] at h
          exact h
        rw [htail, hslash]
    rw [hdrop, strip, if_pos rfl]
    cases hrest : ps.drop n with
    | nil => rfl
    | cons b bs =>
      rw [hrest, List.head?_cons] at hslash'
      rw [strip, if_neg (fun hb => hslash' (by rw [hb]))]

theorem not_inside_bakedAt (hend : path + ps.length < 0x100000000) (hn : ps.length < n) (hlt : n < 0x80000000)
    : ¬ Inside path ps (bakedAt mem path n) := by
  unfold Inside bakedAt
  dsimp only
  split
  . omega
  . omega

theorem select_eq_none (h : ∀ m ∈ ms, ¬ m.path <+: ps) : select ms ps = none := by
  cases hselect : select ms ps with
  | none => rfl
  | some m =>
    have hlongest := isLongest_of_select hselect
    exact absurd hlongest.isPrefix (h m hlongest.mem)

/--
Where the string is kept, so is the rest that `baked` points to.
-/
theorem bakedAt_kept {mem' : Memory} (hps : StringAt mem path ps) (hkept : StringAt mem' path ps)
    (hend : path + ps.length < 0x100000000) (hn : n ≤ ps.length)
    : bakedAt mem path n + (strip (ps.drop n)).length = path + ps.length
        ∧ StringAt mem' (bakedAt mem path n) (strip (ps.drop n)) := by
  have heq : bakedAt mem path n = bakedAt mem' path n := by
    simp only [bakedAt]
    rw [Nat.mod_eq_of_lt (show path + n < 0x100000000 by omega), hps.load_add hn, hkept.load_add hn]
  rw [heq]
  exact bakedAt_eq hkept hend hn

theorem agrees_iff {q : Nat} {mem' : Memory} {stores stores' : List WordStore} (hlisted : v.Listed ms)
    (hws : ws.getLast? = some 0x2F)
    (hps : StringAt mem path ps) (hend : path + ps.length < 0x100000000)
    (hfs : StringAt mem' q (ws ++ ps)) (hend' : q + (ws ++ ps).length < 0x100000000)
    (hspares : ∀ m, select ms (ws ++ ps) = some m → StringAt (mem.storeWords stores) path ps
      ∧ ((v.mountPoint m.point).storeWords stores m.point).driverId = m.driverId)
    (hspares' : ∀ m, select ms (ws ++ ps) = some m → StringAt (mem'.storeWords stores') q (ws ++ ps)
      ∧ ((v.mountPoint m.point).storeWords stores' m.point).driverId = m.driverId)
    : Agrees path q ps (ws ++ ps) (mem.storeWords stores) (mem'.storeWords stores')
          (fsTypeOf { v with mem } stores path (select ms (ws ++ ps)))
          (fsTypeOf { v with mem := mem' } stores' q (select ms (ws ++ ps)))
        ↔ Aligned ms ws ps := by
  cases hselect : select ms (ws ++ ps) with
  | none =>
    have hnone := not_isPrefix_of_select hselect (fun m hm => (hlisted.mountAt m hm).length_pos)
    apply iff_of_true
    . exact ⟨rfl, rfl, Or.inl ⟨rfl, rfl⟩⟩
    . exact fun m hm => absurd hm.isPrefix (hnone m hm.mem)
  | some m =>
    obtain ⟨hkept, hdriver⟩ := hspares m hselect
    obtain ⟨hkept', hdriver'⟩ := hspares' m hselect
    have hlongest := isLongest_of_select hselect
    have hm := hlisted.mountAt m hlongest.mem
    have hpos := hm.length_pos
    have haligned : Aligned ms ws ps ↔ ws = [0x2F] ∧ m.path.length ≤ ps.length
        ∧ ((ws ++ ps).drop m.path.length).head? = some 0x2F
        ∧ (ps.drop m.path.length).head? ≠ some 0x2F := by
      constructor
      . exact fun h => h m hlongest
      . intro h m' hm'
        rw [← hlongest.path_eq hm']
        exact h
    have hlen' := hlongest.isPrefix.length_le
    obtain ⟨hbaked', hrest'⟩ := bakedAt_kept hfs hkept' hend' hlen'
    have hstrip' := length_strip ((ws ++ ps).drop m.path.length)
    rw [List.length_drop] at hstrip'
    have hinside' : Inside q (ws ++ ps) (bakedAt mem' q m.path.length) := by
      unfold Inside
      omega
    have hagrees : Agrees path q ps (ws ++ ps) (mem.storeWords stores) (mem'.storeWords stores')
          (fsTypeOf { v with mem } stores path (some m)) (fsTypeOf { v with mem := mem' } stores' q (some m))
        ↔ (∃ bs, StringAt (mem.storeWords stores) (bakedAt mem path m.path.length) bs
            ∧ StringAt (mem'.storeWords stores') (bakedAt mem' q m.path.length) bs)
          ∧ Inside path ps (bakedAt mem path m.path.length) := by
      unfold Agrees fsTypeOf
      dsimp only
      constructor
      . rintro ⟨-, -, ⟨-, hzero⟩ | ⟨hsame, hin, -⟩⟩
        . omega
        . exact ⟨hsame, hin⟩
      . rintro ⟨hsame, hin⟩
        exact ⟨rfl, by rw [hdriver, hdriver'], Or.inr ⟨hsame, hin, hinside'⟩⟩
    rw [hagrees, haligned]
    by_cases hle : m.path.length ≤ ps.length
    . obtain ⟨hbaked, hrest⟩ := bakedAt_kept hps hkept hend hle
      have hstrip := length_strip (ps.drop m.path.length)
      rw [List.length_drop] at hstrip
      have hinside : Inside path ps (bakedAt mem path m.path.length) := by
        unfold Inside
        omega
      have hiff := strip_eq_iff hws hle
      constructor
      . rintro ⟨⟨bs, hbs, hbs'⟩, -⟩
        have heq := (hrest.unique hbs).trans (hrest'.unique hbs').symm
        obtain ⟨hone, hslash, hslash'⟩ := hiff.mp heq
        exact ⟨hone, hle, hslash, hslash'⟩
      . rintro ⟨hone, -, hslash, hslash'⟩
        have heq := hiff.mpr ⟨hone, hslash, hslash'⟩
        exact ⟨⟨_, hrest, heq ▸ hrest'⟩, hinside⟩
    . constructor
      . rintro ⟨-, hin⟩
        exact absurd hin (not_inside_bakedAt hend (by omega) hm.length_lt)
      . exact fun h => absurd h.2.1 hle

theorem Listed.not_isPrefix (h : v.Listed ms) (hws : ws ≠ []) (hrel : ws.head? ≠ some 0x2F) {m : Mount}
    (hm : m ∈ ms)
    : ¬ m.path <+: ws ++ ps := by
  intro hp
  have habs := (h.mountAt m hm).absolute
  cases ws with
  | nil => exact hws rfl
  | cons b bs =>
    cases hpath : m.path with
    | nil => simp [hpath] at habs
    | cons c cs =>
      rw [hpath, List.head?_cons, Option.some.injEq] at habs
      rw [hpath, List.cons_append, List.cons_prefix_cons] at hp
      exact hrel (by rw [List.head?_cons, ← hp.1, habs])

theorem select_lookedUp (hlisted : v.Listed ms) (hne : ws ≠ [])
    : select ms (lookedUp ws (ws ++ ps)) = select ms (ws ++ ps) := by
  by_cases habs : ws.head? = some 0x2F
  . have hhead : (ws ++ ps).head? = some 0x2F := by
      rw [List.head?_append, habs]
      rfl
    rw [lookedUp, if_pos hhead]
  . have hhead : (ws ++ ps).head? ≠ some 0x2F := by
      cases ws with
      | nil => exact absurd rfl hne
      | cons b bs => exact habs
    rw [lookedUp, if_neg hhead, select_eq_none (fun m hm => hlisted.not_isPrefix hne habs hm),
      select_eq_none (fun m hm => hlisted.not_isPrefix hne habs hm)]

/--
Both calls come back, with the same answer.
-/
def BothAgree (v : Vfs) (fuel slabs : Nat) (kmalloc kmalloc' : Nat → Nat × SlabMem) (path q : Nat)
    (ps fs : List (BitVec 8)) : Prop :=
  ∃ r v₁ s₁ r' v₂ s₂, v.getFsType fuel slabs kmalloc path = some (r, v₁, s₁)
    ∧ v.getFsType fuel slabs kmalloc' q = some (r', v₂, s₂)
    ∧ Agrees path q ps fs v₁.mem v₂.mem r r'

section Both

variable {kmalloc kmalloc' : Nat → Nat × SlabMem} {q fuel slabs : Nat}

theorem releases_of_bothAgree {fs fs' : List (BitVec 8)} {mem mem' : Memory} (hlisted : v.Listed ms)
    (hfuel : ms.length ≤ fuel) (hpath : v.Prepared ms (fun size => (kmalloc size).1) path ps fs mem)
    (hfull : v.Prepared ms (fun size => (kmalloc' size).1) q (ws ++ ps) fs' mem')
    (h : v.BothAgree fuel slabs kmalloc kmalloc' path q ps (ws ++ ps))
    : Releases slabs (kmalloc (fs.length + 1)) ∧ Releases slabs (kmalloc' (fs'.length + 1)) := by
  obtain ⟨r, v₁, s₁, r', v₂, s₂, hget, hget', -⟩ := h
  rw [hpath.getFsType_eq slabs hlisted hfuel, Option.map_eq_some_iff] at hget
  rw [hfull.getFsType_eq slabs hlisted hfuel, Option.map_eq_some_iff] at hget'
  obtain ⟨slab, hfree, -⟩ := hget
  obtain ⟨slab', hfree', -⟩ := hget'
  exact ⟨by rw [Releases, hfree]; rfl, by rw [Releases, hfree']; rfl⟩

theorem bothAgree_iff (hlisted : v.Listed ms) (hfuel : ms.length ≤ fuel) (hws : ws.getLast? = some 0x2F)
    (hrel : ps.head? ≠ some 0x2F) (hpath : v.Lookup ms (fun size => (kmalloc size).1) ws path ps)
    (hfull : v.Lookup ms (fun size => (kmalloc' size).1) ws q (ws ++ ps))
    (hrelease : v.ReleaseOk ms slabs (kmalloc ((ws ++ ps).length + 1)) path ps (ws ++ ps))
    (hrelease' : v.ReleaseOk ms slabs (kmalloc' ((lookedUp ws (ws ++ ps)).length + 1)) q (ws ++ ps) (ws ++ ps))
    : v.BothAgree fuel slabs kmalloc kmalloc' path q ps (ws ++ ps) ↔ Aligned ms ws ps := by
  have hne : ws ≠ [] := by
    rintro rfl
    simp at hws
  obtain ⟨mem, hprepared⟩ := prepared_lookup hlisted hpath
  obtain ⟨mem', hprepared'⟩ := prepared_lookup hlisted hfull
  have hlooked : lookedUp ws ps = ws ++ ps := if_neg hrel
  rw [hlooked] at hprepared
  obtain ⟨slab, hfree⟩ := Option.isSome_iff_exists.mp hrelease.1
  obtain ⟨slab', hfree'⟩ := Option.isSome_iff_exists.mp hrelease'.1
  have hget := hprepared.getFsType_eq slabs hlisted hfuel
  have hget' := hprepared'.getFsType_eq slabs hlisted hfuel
  rw [hfree, Option.map_some] at hget
  rw [hfree', Option.map_some, select_lookedUp hlisted hne] at hget'
  have hiff := agrees_iff hlisted hws hprepared.string_copied hpath.fits hprepared'.string_copied hfull.fits
    (fun m hm => ⟨(hprepared.stringAt_iff (Nat.le_refl _) (Nat.le_refl _) _).mpr (hrelease.2 m hm).1,
      (hrelease.2 m hm).2⟩)
    (fun m hm => ⟨(hprepared'.stringAt_iff (Nat.le_refl _) (Nat.le_refl _) _).mpr (hrelease'.2 m hm).1,
      (hrelease'.2 m hm).2⟩)
  rw [← hiff, BothAgree, hget, hget']
  constructor
  . rintro ⟨r, v₁, s₁, r', v₂, s₂, h₁, h₂, h⟩
    rw [Option.some.injEq, Prod.mk.injEq, Prod.mk.injEq] at h₁ h₂
    obtain ⟨rfl, rfl, -⟩ := h₁
    obtain ⟨rfl, rfl, -⟩ := h₂
    exact h
  . exact fun h => ⟨_, _, _, _, _, _, rfl, rfl, h⟩

end Both

theorem lookup_exampleVfs {ps : List (BitVec 8)} {path : Nat} (hps : StringAt exampleVfs.mem path ps)
    (hlength : (lookedUp [0x2F] ps).length + 1 ∈ [9, 10, 12]) (hpath : path + ps.length < 0xC020157C)
    : exampleVfs.Lookup exampleMounts (fun size => (exampleKmalloc size).1) [0x2F] path ps :=
  ⟨by decide +kernel, hps, by omega, block_exampleVfs hlength, clear_exampleVfs hlength (by decide),
    clear_exampleVfs hlength hpath⟩

end Relative

end Vfs
end Osproj
