import Osproj.Drivers.Impl.Pci
import Osproj.Lib.Lemmas.List

/-!
This module contains the exact condition under which `get_device_by_class` finds all devices of a class. Its callback
stops the iteration at the first device it stores.
-/

namespace Osproj

open ListHeap

namespace Pci

/--
The devices `is` were inserted into the list in this order, each with a new node.
-/
structure Listed (p : Pci) (is : List NodeInsertion) : Prop where
  inserted : ∃ h : ListHeap, Run.run insertNode (h, 0) is = some (p.list, p.pciDeviceList)
  nodup : (is.map NodeInsertion.node).Nodup
  ne_zero (i : NodeInsertion) (hi : i ∈ is) : i.node ≠ 0
  data_lt (i : NodeInsertion) (hi : i ∈ is) : i.data < 0x100000000

def isOfClass (p : Pci) (classcode subclass : BitVec 8) (i : NodeInsertion) : Bool :=
  (p.device i.data).classcode = classcode ∧ (p.device i.data).subclass = subclass

def ofClass (p : Pci) (is : List NodeInsertion) (classcode subclass : BitVec 8) : List NodeInsertion :=
  is.filter (p.isOfClass classcode subclass)

/--
What must hold of a call: it stores distinct devices of the class, all of them or as many as fit, returns their number
and stores nothing behind them.
-/
def FindsAll (p : Pci) (is : List NodeInsertion) (fuel : Nat) (classcode subclass : BitVec 8) (mem : Memory)
    (buf : Nat) (bufsz : Int) : Prop :=
  ∃ r mem', p.getDeviceByClass fuel classcode subclass mem buf bufsz = some (r, mem')
    ∧ (r : Int) = (if bufsz = 0 then ((p.ofClass is classcode subclass).length : Int)
      else min ((p.ofClass is classcode subclass).length : Int) bufsz)
    ∧ Memory.StoresIn mem mem' (fun a => buf ≤ a ∧ a < buf + 4 * r)
    ∧ ∃ ds : List Nat, ds.length = r ∧ ds.Nodup ∧ (∀ d ∈ ds, d ∈ (p.ofClass is classcode subclass).map NodeInsertion.data)
      ∧ ∀ i (hi : i < ds.length), mem'.loadWord (buf + 4 * i) = ds[i]

variable {p : Pci} {is : List NodeInsertion} {s : ClassSearch}

theorem callback2_of_class {i : NodeInsertion} (hdata : (p.list.cell i.node).data = i.data)
    (hroom : s.bufszSwap = 0 ∨ s.bufszSwap > s.indexSwap) (hclass : p.isOfClass s.classcodeSwap s.subclassSwap i)
    : p.callback2 s i.node = some (1,
        { s with mem := s.mem.storeWord (s.bufSwap + 4 * s.indexSwap) i.data, indexSwap := s.indexSwap + 1 }) := by
  simp only [isOfClass, decide_eq_true_eq] at hclass
  rw [callback2, hdata, if_pos ⟨hclass.1, hclass.2, hroom⟩]

theorem callback2_of_not_class {i : NodeInsertion} (hdata : (p.list.cell i.node).data = i.data)
    (hclass : ¬ p.isOfClass s.classcodeSwap s.subclassSwap i)
    : p.callback2 s i.node = some (0, s) := by
  simp only [isOfClass, decide_eq_true_eq] at hclass
  rw [callback2, hdata]
  exact if_neg (fun h => hclass ⟨h.1, h.2.1⟩)

/--
The visit ends at the first device of the class.
-/
theorem visit_callback2 (hdata : ∀ i ∈ is, (p.list.cell i.node).data = i.data)
    (hroom : s.bufszSwap = 0 ∨ s.bufszSwap > s.indexSwap)
    : visit p.callback2 s (is.map NodeInsertion.node)
        =
      match is.find? (p.isOfClass s.classcodeSwap s.subclassSwap) with
      | none => some s
      | some i =>
        some { s with mem := s.mem.storeWord (s.bufSwap + 4 * s.indexSwap) i.data, indexSwap := s.indexSwap + 1 } := by
  induction is with
  | nil => rfl
  | cons i is ih =>
    have hi := hdata i (List.mem_cons_self ..)
    rw [List.map_cons, visit]
    by_cases hclass : p.isOfClass s.classcodeSwap s.subclassSwap i
    . rw [callback2_of_class hi hroom hclass, List.find?_cons_of_pos hclass]
      rfl
    . rw [callback2_of_not_class hi hclass, List.find?_cons_of_neg hclass,
        ← ih (fun j hj => hdata j (List.mem_cons_of_mem i hj))]
      rfl

theorem listIter_callback2 (h : p.Listed is) {fuel : Nat} (hfuel : is.length ≤ fuel)
    (hroom : s.bufszSwap = 0 ∨ s.bufszSwap > s.indexSwap)
    : p.list.listIter p.pciDeviceList p.callback2 fuel s
        =
      match (visitOrder is).find? (p.isOfClass s.classcodeSwap s.subclassSwap) with
      | none => some s
      | some i =>
        some { s with mem := s.mem.storeWord (s.bufSwap + 4 * s.indexSwap) i.data, indexSwap := s.indexSwap + 1 } := by
  obtain ⟨heap, hrun⟩ := h.inserted
  cases is with
  | nil =>
    rw [Run.run_nil, Option.some.injEq, Prod.mk.injEq] at hrun
    rw [listIter, if_pos hrun.2.symm]
    rfl
  | cons i is =>
    obtain ⟨heap', hrun', hring, hdata⟩ := insert_ring heap i is h.nodup h.ne_zero
    rw [hrun, Option.some.injEq, Prod.mk.injEq] at hrun'
    obtain ⟨rfl, hhead⟩ := hrun'
    have hlen : (is.reverse.map NodeInsertion.node).length < fuel := by
      rw [List.length_map, List.length_reverse]
      exact hfuel
    rw [hhead, listIter_eq hring hlen, ← List.map_cons]
    apply visit_callback2 _ hroom
    intro j hj
    exact hdata j (mem_visitOrder.mp hj)

theorem length_ofClass_of_none {classcode subclass : BitVec 8}
    (h : (visitOrder is).find? (p.isOfClass classcode subclass) = none)
    : (p.ofClass is classcode subclass).length = 0 := by
  rw [List.find?_eq_none] at h
  rw [List.length_eq_zero_iff, ofClass, List.filter_eq_nil_iff]
  exact fun i hi => h i (mem_visitOrder.mpr hi)

theorem mem_ofClass_of_some {classcode subclass : BitVec 8} {i : NodeInsertion}
    (h : (visitOrder is).find? (p.isOfClass classcode subclass) = some i)
    : i ∈ p.ofClass is classcode subclass := by
  exact List.mem_filter.mpr ⟨mem_visitOrder.mp (List.mem_of_find?_eq_some h), List.find?_some h⟩

theorem getDeviceByClass_none (h : p.Listed is) {fuel : Nat} (hfuel : is.length ≤ fuel) {classcode subclass : BitVec 8}
    {mem : Memory} {buf : Nat} {bufsz : Int} (hbufsz : 0 ≤ bufsz)
    (hnone : (visitOrder is).find? (p.isOfClass classcode subclass) = none)
    : p.getDeviceByClass fuel classcode subclass mem buf bufsz = some (0, mem) := by
  rw [getDeviceByClass, listIter_callback2 h hfuel (by dsimp only; omega)]
  dsimp only
  rw [hnone]
  rfl

theorem getDeviceByClass_some (h : p.Listed is) {fuel : Nat} (hfuel : is.length ≤ fuel) {classcode subclass : BitVec 8}
    {mem : Memory} {buf : Nat} {bufsz : Int} (hbufsz : 0 ≤ bufsz) {i : NodeInsertion}
    (hsome : (visitOrder is).find? (p.isOfClass classcode subclass) = some i)
    : p.getDeviceByClass fuel classcode subclass mem buf bufsz = some (1, mem.storeWord buf i.data) := by
  rw [getDeviceByClass, listIter_callback2 h hfuel (by dsimp only; omega)]
  dsimp only
  rw [hsome]
  rfl

theorem findsAll_iff (h : p.Listed is) {fuel : Nat} (hfuel : is.length ≤ fuel) (classcode subclass : BitVec 8)
    (mem : Memory) (buf : Nat) {bufsz : Int} (hbufsz : 0 ≤ bufsz)
    : p.FindsAll is fuel classcode subclass mem buf bufsz
        ↔
      (p.ofClass is classcode subclass).length ≤ 1 ∨ bufsz = 1 := by
  unfold FindsAll
  cases hfind : (visitOrder is).find? (p.isOfClass classcode subclass) with
  | none =>
    have hlength := length_ofClass_of_none hfind
    refine iff_of_true ⟨0, mem, getDeviceByClass_none h hfuel hbufsz hfind, ?_, .refl mem, [], rfl, List.nodup_nil,
      by simp, by simp⟩ (by omega)
    rw [hlength]
    split <;> omega
  | some i =>
    have hmem := mem_ofClass_of_some hfind
    have hpos := List.length_pos_of_mem hmem
    rw [getDeviceByClass_some h hfuel hbufsz hfind]
    constructor
    . rintro ⟨r, mem', hr, hcount, -⟩
      rw [Option.some.injEq, Prod.mk.injEq] at hr
      rw [← hr.1] at hcount
      split at hcount
      . omega
      . omega
    . intro hok
      refine ⟨1, _, rfl, ?_, ?_, [i.data], rfl, by simp, ?_, ?_⟩
      . split
        . omega
        . omega
      . exact .storeWord mem buf i.data (fun b hlo hhi => ⟨hlo, hhi⟩)
      . intro d hd
        rw [List.mem_singleton.mp hd]
        exact List.mem_map_of_mem hmem
      . intro j hj
        obtain rfl : j = 0 := Nat.lt_one_iff.mp hj
        rw [Nat.mul_zero, Nat.add_zero, Memory.loadWord_storeWord_self]
        exact Nat.mod_eq_of_lt (h.data_lt i (List.mem_of_mem_filter hmem))

section Example

def exampleDevices : List NodeInsertion := [⟨0xC0200000, 0xC0201000⟩, ⟨0xC0200040, 0xC0201010⟩]

def exampleController : PciDevice where
  bus := 0
  device := 1
  function := 1
  deviceId := 0x7010
  vendorId := 0x8086
  classcode := 1
  subclass := 1
  progIf := 0x80
  bar := [0, 0, 0, 0, 0xC001, 0]

def exampleList : ListHeap × Nat :=
  (Run.run insertNode (⟨fun _ => ⟨0, 0, 0⟩⟩, 0) exampleDevices).getD (⟨fun _ => ⟨0, 0, 0⟩⟩, 0)

def examplePci : Pci where
  list := exampleList.1
  pciDeviceList := exampleList.2
  device := fun _ => exampleController
  calls := 4
  printed := []

theorem listed_examplePci : examplePci.Listed exampleDevices := by
  exact ⟨⟨⟨fun _ => ⟨0, 0, 0⟩⟩, rfl⟩, by decide, by decide, by decide⟩

end Example

theorem findsAll_iff_first
    : examplePci.FindsAll exampleDevices 2 1 1 ⟨fun _ => 0, []⟩ 0xC0300000 1
        ↔
      (examplePci.ofClass exampleDevices 1 1).length ≤ 1 ∨ (1 : Int) = 1 := by
  exact findsAll_iff listed_examplePci (by decide) 1 1 _ _ (by decide)

/--
Two IDE controllers and room for both: only one is found.
-/
theorem not_findsAll : ¬ examplePci.FindsAll exampleDevices 2 1 1 ⟨fun _ => 0, []⟩ 0xC0300000 2 := by
  rintro ⟨r, mem', hr, hcount, -⟩
  have hfirst := @getDeviceByClass_some examplePci exampleDevices listed_examplePci 2 (by decide) 1 1
    ⟨fun _ => 0, []⟩ 0xC0300000 2 (by decide) ⟨0xC0200000, 0xC0201000⟩ rfl
  rw [hfirst, Option.some.injEq, Prod.mk.injEq] at hr
  rw [← hr.1] at hcount
  exact absurd hcount (by decide)

end Pci
end Osproj
