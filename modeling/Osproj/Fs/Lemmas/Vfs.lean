import Osproj.Fs.Impl.Vfs
import Osproj.Lib.Lemmas.ListRing
import Osproj.Lib.Lemmas.Str

/-!
This module contains the mount point that `get_fs_type` finds: the one with the longest path that is a prefix of
the path looked up, byte by byte.
-/

namespace Osproj

open Str ListHeap

structure Mount where
  point : Nat
  node : Nat
  path : List (BitVec 8)
  driverId : Int

namespace Vfs

structure MountAt (v : Vfs) (m : Mount) : Prop where
  ne_zero : m.point ≠ 0
  path_at : StringAt v.mem (v.mountPoint m.point).path m.path
  pathLen_eq : (v.mountPoint m.point).pathLen.toInt = m.path.length
  driverId_eq : (v.mountPoint m.point).driverId = m.driverId
  absolute : m.path.head? = some 0x2F

/--
The mount points `ms` were inserted into the list in this order, each with a new node.
-/
structure Mounted (v : Vfs) (ms : List Mount) : Prop where
  inserted : ∃ h : ListHeap, Run.run insertNode (h, 0) (ms.map fun m => ⟨m.point, m.node⟩)
    = some (v.list, v.mountPointHead)
  nodup : (ms.map Mount.node).Nodup
  ne_zero (m : Mount) (hm : m ∈ ms) : m.node ≠ 0
  mountAt (m : Mount) (hm : m ∈ ms) : v.MountAt m

/--
The list holds the mount points `ms`.
-/
structure Listed (v : Vfs) (ms : List Mount) : Prop where
  head_eq : v.mountPointHead = ((visitOrder ms).map Mount.node).headD 0
  ring : v.list.Ring ((visitOrder ms).map Mount.node)
  data (m : Mount) (hm : m ∈ ms) : (v.list.cell m.node).data = m.point
  mountAt (m : Mount) (hm : m ∈ ms) : v.MountAt m

def longer (ps : List (BitVec 8)) (best : Option Mount) (m : Mount) : Option Mount :=
  if m.path <+: ps ∧ best.elim 0 (fun m => m.path.length) < m.path.length then some m else best

def select (ms : List Mount) (ps : List (BitVec 8)) : Option Mount := (visitOrder ms).foldl (longer ps) none

def found (v : Vfs) (best : Option Mount) : Vfs :=
  { v with mpSwap := best.elim 0 Mount.point, mostLong := best.elim 0 (fun m => (m.path.length : Int)) }

section Select

variable {ps : List (BitVec 8)} {ms : List Mount} {m : Mount}

theorem foldl_longer_none {best : Option Mount} (h : ms.foldl (longer ps) best = none)
    (hpos : ∀ m ∈ ms, 0 < m.path.length)
    : best = none ∧ ∀ m ∈ ms, ¬ m.path <+: ps := by
  induction ms generalizing best with
  | nil => exact ⟨h, by simp⟩
  | cons m ms ih =>
    obtain ⟨hlonger, hms⟩ := ih h (fun m' hm' => hpos m' (List.mem_cons_of_mem m hm'))
    have hm := hpos m (List.mem_cons_self ..)
    unfold longer at hlonger
    split at hlonger
    . simp at hlonger
    . next hnot =>
      subst hlonger
      refine ⟨rfl, ?_⟩
      intro m' hm'
      rcases List.mem_cons.mp hm' with rfl | hm'
      . exact fun hp => hnot ⟨hp, hm⟩
      . exact hms m' hm'

theorem foldl_longer_some {best : Option Mount} (h : ms.foldl (longer ps) best = some m)
    : (best = some m ∨ m ∈ ms ∧ m.path <+: ps)
        ∧ best.elim 0 (fun m => m.path.length) ≤ m.path.length
        ∧ ∀ m' ∈ ms, m'.path <+: ps → m'.path.length ≤ m.path.length := by
  induction ms generalizing best with
  | nil =>
    rw [List.foldl_nil] at h
    subst h
    exact ⟨Or.inl rfl, Nat.le_refl _, by simp⟩
  | cons a ms ih =>
    obtain ⟨hfound, hle, hmax⟩ := ih h
    unfold longer at hfound hle
    split at hfound
    . next htaken =>
      rw [if_pos htaken] at hle
      have hle' : a.path.length ≤ m.path.length := hle
      refine ⟨Or.inr ?_, Nat.le_trans (Nat.le_of_lt htaken.2) hle', ?_⟩
      . rcases hfound with heq | ⟨hm, hp⟩
        . rw [Option.some.injEq] at heq
          exact heq ▸ ⟨List.mem_cons_self .., htaken.1⟩
        . exact ⟨List.mem_cons_of_mem a hm, hp⟩
      . intro m' hm' hp
        rcases List.mem_cons.mp hm' with rfl | hm'
        . exact hle'
        . exact hmax m' hm' hp
    . next hleft =>
      rw [if_neg hleft] at hle
      refine ⟨?_, hle, ?_⟩
      . rcases hfound with heq | ⟨hm, hp⟩
        . exact Or.inl heq
        . exact Or.inr ⟨List.mem_cons_of_mem a hm, hp⟩
      . intro m' hm' hp
        rcases List.mem_cons.mp hm' with rfl | hm'
        . have : ¬ best.elim 0 (fun m => m.path.length) < m'.path.length := fun hlt => hleft ⟨hp, hlt⟩
          omega
        . exact hmax m' hm' hp

structure IsLongest (ms : List Mount) (ps : List (BitVec 8)) (m : Mount) : Prop where
  mem : m ∈ ms
  isPrefix : m.path <+: ps
  le (m' : Mount) (hm' : m' ∈ ms) (hp : m'.path <+: ps) : m'.path.length ≤ m.path.length

theorem isLongest_of_select (h : select ms ps = some m) : IsLongest ms ps m := by
  obtain ⟨hfound, -, hmax⟩ := foldl_longer_some h
  obtain ⟨hm, hp⟩ := hfound.resolve_left (by simp)
  exact ⟨mem_visitOrder.mp hm, hp, fun m' hm' => hmax m' (mem_visitOrder.mpr hm')⟩

theorem not_isPrefix_of_select (h : select ms ps = none) (hpos : ∀ m ∈ ms, 0 < m.path.length) (m : Mount)
    (hm : m ∈ ms)
    : ¬ m.path <+: ps := by
  have hnone := foldl_longer_none h (fun m' hm' => hpos m' (mem_visitOrder.mp hm'))
  exact hnone.2 m (mem_visitOrder.mpr hm)

theorem IsLongest.path_eq {m' : Mount} (h : IsLongest ms ps m) (h' : IsLongest ms ps m') : m.path = m'.path := by
  have hle := h'.le m h.mem h.isPrefix
  have hge := h.le m' h'.mem h'.isPrefix
  exact List.IsPrefix.eq_of_length (List.prefix_of_prefix_length_le h.isPrefix h'.isPrefix hle) (by omega)

end Select

section Search

variable {v : Vfs} {ms : List Mount} {m : Mount} {ps : List (BitVec 8)}

theorem MountAt.pathLen_toNat (h : v.MountAt m) : (v.mountPoint m.point).pathLen.toNat = m.path.length := by
  have hint := h.pathLen_eq
  rw [BitVec.toInt_eq_toNat_cond] at hint
  have hlt := (v.mountPoint m.point).pathLen.isLt
  split at hint
  . omega
  . omega

theorem MountAt.length_lt (h : v.MountAt m) : m.path.length < 0x80000000 := by
  have hint := h.pathLen_eq
  have hlt := @BitVec.toInt_lt _ (v.mountPoint m.point).pathLen
  omega

theorem MountAt.length_pos (h : v.MountAt m) : 0 < m.path.length := by
  have habs := h.absolute
  cases hpath : m.path with
  | nil => simp [hpath] at habs
  | cons b bs => simp

theorem callback_eq (hm : v.MountAt m) (hdata : (v.list.cell m.node).data = m.point)
    (hps : StringAt v.mem v.pathSwap ps) (best : Option Mount)
    : getFsTypeCallback (v.found best) m.node = some (0, v.found (longer ps best m)) := by
  have hcmp : Str.memcmp v.mem (v.mountPoint m.point).path v.pathSwap (v.mountPoint m.point).pathLen.toNat = 0
      ↔ m.path <+: ps := by
    rw [hm.pathLen_toNat]
    exact memcmp_eq_zero_iff hm.path_at hps
  have hlong : (v.mountPoint m.point).pathLen.toInt > best.elim 0 (fun m => (m.path.length : Int))
      ↔ best.elim 0 (fun m => m.path.length) < m.path.length := by
    rw [hm.pathLen_eq]
    cases best with
    | none => simp
    | some b => simp
  simp only [getFsTypeCallback, found, hdata, hcmp, hlong, longer]
  by_cases hp : m.path <+: ps
  . by_cases hlt : best.elim 0 (fun m => m.path.length) < m.path.length
    . rw [if_pos hp, if_pos hlt, if_pos ⟨hp, hlt⟩, hm.pathLen_eq]
      rfl
    . rw [if_pos hp, if_neg hlt, if_neg (fun h => hlt h.2)]
  . rw [if_neg hp, if_neg (fun h => hp h.1)]

theorem visit_eq (hms : ∀ m ∈ ms, v.MountAt m ∧ (v.list.cell m.node).data = m.point)
    (hps : StringAt v.mem v.pathSwap ps) (best : Option Mount)
    : visit getFsTypeCallback (v.found best) (ms.map Mount.node) = some (v.found (ms.foldl (longer ps) best)) := by
  induction ms generalizing best with
  | nil => rfl
  | cons m ms ih =>
    obtain ⟨hm, hdata⟩ := hms m (List.mem_cons_self ..)
    rw [List.map_cons, visit, callback_eq hm hdata hps]
    exact ih (fun m' hm' => hms m' (List.mem_cons_of_mem m hm')) (longer ps best m)

theorem visitOrder_map {α β : Type} (f : α → β) (l : List α) : visitOrder (l.map f) = (visitOrder l).map f := by
  cases l with
  | nil => rfl
  | cons a l => rw [List.map_cons, visitOrder, visitOrder, List.map_cons, List.map_reverse]

theorem Mounted.listed (h : v.Mounted ms) : v.Listed ms := by
  obtain ⟨h₀, hrun⟩ := h.inserted
  let insertion (m : Mount) : NodeInsertion := ⟨m.point, m.node⟩
  have hnodes : (ms.map insertion).map NodeInsertion.node = ms.map Mount.node := by
    rw [List.map_map]
    rfl
  obtain ⟨h', hrun', hring, hdata⟩ := insertions_ring h₀ (hnodes.symm ▸ h.nodup) (by
    intro j hj
    obtain ⟨m, hm, rfl⟩ := List.mem_map.mp hj
    exact h.ne_zero m hm)
  rw [hrun, Option.some.injEq, Prod.mk.injEq] at hrun'
  obtain ⟨rfl, hhead⟩ := hrun'
  have horder : nodes (ms.map insertion) = (visitOrder ms).map Mount.node := by
    rw [nodes, hnodes, visitOrder_map]
  rw [horder] at hhead hring
  exact ⟨hhead, hring, fun m hm => hdata (insertion m) (List.mem_map_of_mem hm), h.mountAt⟩

theorem search_eq (h : v.Listed ms) (hps : StringAt v.mem v.pathSwap ps) {fuel : Nat} (hfuel : ms.length ≤ fuel)
    : v.list.listIter v.mountPointHead getFsTypeCallback fuel (v.found none) = some (v.found (select ms ps)) := by
  cases ms with
  | nil =>
    rw [h.head_eq]
    rfl
  | cons m ms =>
    have hring : v.list.IsRing m.node (ms.reverse.map Mount.node) := h.ring
    have hhead : v.mountPointHead = m.node := h.head_eq
    rw [List.length_cons] at hfuel
    have hlen : (ms.reverse.map Mount.node).length < fuel := by
      rw [List.length_map, List.length_reverse]
      omega
    rw [hhead, listIter_eq hring hlen, ← List.map_cons]
    apply visit_eq _ hps
    intro m' hm'
    have hmem : m' ∈ m :: ms := mem_visitOrder.mp hm'
    exact ⟨h.mountAt m' hmem, h.data m' hmem⟩

end Search

/--
The address `get_fs_type` stores to `*baked` for a mount point whose path has the length `n`.
-/
def bakedAt (mem : Memory) (path n : Nat) : Nat :=
  let baked := (path + n) % 0x100000000
  if mem.load baked = 0x2F then (baked + 1) % 0x100000000 else baked

def found.status (best : Option Mount) : Int := best.elim 1 (fun _ => 0)

def found.baked (mem : Memory) (path : Nat) (best : Option Mount) : Nat :=
  best.elim 0 (fun m => bakedAt mem path m.path.length)

/--
The driver of a mount point is read after the stores of `kfree`.
-/
def fsTypeOf (v : Vfs) (stores : List WordStore) (path : Nat) : Option Mount → FsType
  | none => { status := 1, baked := 0, fsType := 0 }
  | some m =>
    {
      status := 0
      baked := bakedAt v.mem path m.path.length
      fsType := ((v.mountPoint m.point).storeWords stores m.point).driverId
    }

def Clear (a n b : Nat) (bs : List (BitVec 8)) : Prop := a + n ≤ b ∨ b + bs.length < a

structure Block (v : Vfs) (ms : List Mount) (a n : Nat) : Prop where
  ne_zero : a ≠ 0
  fits : a + n ≤ 0x100000000
  clear (m : Mount) (hm : m ∈ ms) : Clear a n (v.mountPoint m.point).path m.path

section Resolve

variable {v : Vfs} {ms : List Mount} {m : Mount} {ps ws fs : List (BitVec 8)} {kmalloc : Nat → Nat}
  {path buf fuel n : Nat} {mem : Memory}

/--
Copying a path elsewhere leaves the mount points.
-/
theorem Listed.of_paths (h : v.Listed ms) (hms : ∀ m ∈ ms, StringAt mem (v.mountPoint m.point).path m.path)
    : ({ v with mem, pathSwap := buf } : Vfs).Listed ms := by
  refine ⟨h.head_eq, h.ring, h.data, fun m hm => ?_⟩
  have ⟨hpoint, hpath, hlen, hdriver, habs⟩ := h.mountAt m hm
  exact ⟨hpoint, hms m hm, hlen, hdriver, habs⟩

theorem Listed.found (h : v.Listed ms) (best : Option Mount) : (v.found best).Listed ms := by
  refine ⟨h.head_eq, h.ring, h.data, fun m hm => ?_⟩
  have ⟨hpoint, hpath, hlen, hdriver, habs⟩ := h.mountAt m hm
  exact ⟨hpoint, hpath, hlen, hdriver, habs⟩

theorem findMount_eq (h : v.Listed ms) (hfuel : ms.length ≤ fuel)
    (hcopy : v.copyPath kmalloc path = some (buf, mem)) (hfs : StringAt mem buf fs)
    (hms : ∀ m ∈ ms, StringAt mem (v.mountPoint m.point).path m.path)
    : v.findMount fuel kmalloc path
        =
      some (found.status (select ms fs), found.baked mem path (select ms fs),
        { v with mem, pathSwap := buf }.found (select ms fs)) := by
  let v' : Vfs := { v with mem, pathSwap := buf }
  have hlisted : v'.Listed ms := h.of_paths hms
  have hsearch : v.list.listIter v.mountPointHead getFsTypeCallback fuel (v'.found none)
      = some (v'.found (select ms fs)) := search_eq hlisted hfs hfuel
  have hcopy' : ({ v with mpSwap := 0, mostLong := 0 } : Vfs).copyPath kmalloc path = some (buf, mem) := hcopy
  have hstart : ({ v with mem, pathSwap := buf, mpSwap := 0, mostLong := 0 } : Vfs) = v'.found none := rfl
  simp only [findMount, hcopy', Option.bind_eq_bind, Option.bind_some, hstart, hsearch]
  cases hselect : select ms fs with
  | none => rfl
  | some m =>
    have hm := h.mountAt m (isLongest_of_select hselect).mem
    have hfound : ¬ (v'.found (some m)).mpSwap = 0 := hm.ne_zero
    rw [if_neg hfound, found.baked, Option.elim_some, bakedAt, ← hm.pathLen_toNat]
    rfl

theorem getFsType_eq {kmalloc : Nat → Nat × SlabMem} (slabs : Nat) (h : v.Listed ms) (hfuel : ms.length ≤ fuel)
    (hcopy : v.copyPath (fun size => (kmalloc size).1) path = some (buf, mem)) (hfs : StringAt mem buf fs)
    (hms : ∀ m ∈ ms, StringAt mem (v.mountPoint m.point).path m.path) (hbuf : (kmalloc (v.bufSize path)).1 = buf)
    : v.getFsType fuel slabs kmalloc path
        =
      ((kmalloc (v.bufSize path)).2.kfree slabs buf).map fun slab =>
        (fsTypeOf { v with mem } ((kmalloc (v.bufSize path)).2.kfreeStores slabs buf) path (select ms fs),
          ({ v with mem, pathSwap := buf }.found (select ms fs)).storeWords
            ((kmalloc (v.bufSize path)).2.kfreeStores slabs buf), slab) := by
  have hfind := findMount_eq h hfuel hcopy hfs hms
  simp only [getFsType, hfind, hbuf, Option.bind_eq_bind, Option.bind_some, kfree, Option.pure_def]
  cases (kmalloc (v.bufSize path)).2.kfree slabs buf with
  | none => rfl
  | some slab =>
    cases select ms fs with
    | none => rfl
    | some m => rfl

def strip : List (BitVec 8) → List (BitVec 8)
  | [] => []
  | b :: bs => if b = 0x2F then bs else b :: bs

theorem bakedAt_eq (hps : StringAt mem path ps) (hend : path + ps.length < 0x100000000) (hn : n ≤ ps.length)
    : bakedAt mem path n + (strip (ps.drop n)).length = path + ps.length
        ∧ StringAt mem (bakedAt mem path n) (strip (ps.drop n)) := by
  have hdrop := hps.drop hn
  have hlen : (ps.drop n).length = ps.length - n := List.length_drop
  have hload := hdrop.load
  unfold bakedAt
  rw [Nat.mod_eq_of_lt (show path + n < 0x100000000 by omega)]
  cases hrest : ps.drop n with
  | nil =>
    rw [hrest] at hdrop hlen hload
    rw [if_neg (by rw [hload]; decide)]
    rw [List.length_nil] at hlen
    refine ⟨?_, hdrop⟩
    simp only [strip, List.length_nil]
    omega
  | cons b bs =>
    rw [hrest] at hdrop hlen hload
    rw [List.length_cons] at hlen
    simp only [hload, List.headD_cons, strip]
    by_cases hb : b = 0x2F
    . rw [if_pos hb, if_pos hb, Nat.mod_eq_of_lt (by omega)]
      exact ⟨by omega, hdrop.2.2⟩
    . rw [if_neg hb, if_neg hb]
      refine ⟨?_, hdrop⟩
      rw [List.length_cons]
      omega

end Resolve

end Vfs
end Osproj
