import Osproj.Drivers.Lemmas.PciScan

/-!
This module contains the lookup of a device by its place on the bus, in the list that the scan leaves: it finds the record
of each function that is present, and no other.
-/

namespace Osproj

open ListHeap

namespace Pci

variable {c : PciConfig} {kmalloc : Nat → Nat} {heap : ListHeap} {p s : Pci} {fs : List PciFunction} {t : IdSearch}

def isAt (p : Pci) (t : IdSearch) (node : Nat) : Bool :=
  (p.device (p.list.cell node).data).bus = t.busSwap ∧ (p.device (p.list.cell node).data).device = t.deviceSwap
    ∧ (p.device (p.list.cell node).data).function = t.functionSwap

/--
The visit ends at the first device of the place.
-/
theorem visit_callback1 (p : Pci) (t : IdSearch) (nodes : List Nat)
    : visit p.callback1 t nodes
        =
      match nodes.find? (p.isAt t) with
      | none => some t
      | some node => some { t with swap1 := (p.list.cell node).data } := by
  induction nodes with
  | nil => rfl
  | cons node nodes ih =>
    rw [visit]
    by_cases hat : p.isAt t node
    . rw [List.find?_cons_of_pos hat]
      simp only [isAt, decide_eq_true_eq] at hat
      rw [callback1, if_pos hat]
      rfl
    . rw [List.find?_cons_of_neg hat, ← ih]
      simp only [isAt, decide_eq_true_eq] at hat
      rw [callback1, if_neg hat]
      rfl

/--
What must hold of a lookup: the record it returns is that of the function at the place, and `NULL` if there is none.
-/
structure FindsAt (c : PciConfig) (s : Pci) (fs : List PciFunction) (bus device function : BitVec 8) (dev : Nat)
    : Prop where
  found : ∀ f ∈ fs, f.bus = bus → f.device.setWidth 8 = device → f.function.setWidth 8 = function
    → dev ≠ 0 ∧ s.device dev = c.header f
  missing : (∀ f ∈ fs, ¬ (f.bus = bus ∧ f.device.setWidth 8 = device ∧ f.function.setWidth 8 = function)) → dev = 0

/--
The place of a function is its only one.
-/
theorem eq_of_place {f g : PciFunction} (hbus : f.bus = g.bus) (hdevice : f.device.setWidth 8 = g.device.setWidth 8)
    (hfunction : f.function.setWidth 8 = g.function.setWidth 8)
    : f = g := by
  cases f
  cases g
  rw [PciFunction.mk.injEq]
  exact ⟨hbus, setWidth_injective (by decide) hdevice, setWidth_injective (by decide) hfunction⟩

theorem Found.findsAt (h : Found c kmalloc heap s fs) (hkmalloc : Allocates kmalloc) (hpos : 0 < fs.length)
    (hlength : fs.length ≤ 65536) {fuel : Nat} (hfuel : fs.length ≤ fuel) (bus device function : BitVec 8)
    : ∃ dev, s.getDeviceById fuel bus device function = some dev ∧ FindsAt c s fs bus device function dev := by
  obtain ⟨list, head, ns, hrun, hring, hperm, hdata⟩ := insert_all hkmalloc heap hpos hlength
  rw [h.inserted, Option.some.injEq, Prod.mk.injEq] at hrun
  obtain ⟨rfl, rfl⟩ := hrun
  have hnode (a : Nat) (ha : a ∈ s.pciDeviceList :: ns)
      : ∃ i, ∃ hi : i < fs.length, (s.list.cell a).data = kmalloc (2 * i)
          ∧ s.device (s.list.cell a).data = c.header fs[i] := by
    obtain ⟨i, hi, rfl⟩ := List.mem_map.mp (hperm.mem_iff.mp ha)
    rw [List.mem_range] at hi
    exact ⟨i, hi, hdata i hi, by rw [hdata i hi, h.device i hi]⟩
  have hfuel' : ns.length < fuel := by
    have hlen := hperm.length_eq
    rw [List.length_cons, List.length_map, List.length_range] at hlen
    omega
  rw [getDeviceById, listIter_eq hring hfuel', visit_callback1]
  cases hfind : (s.pciDeviceList :: ns).find?
      (s.isAt { swap1 := 0, busSwap := bus, deviceSwap := device, functionSwap := function }) with
  | none =>
    refine ⟨0, rfl, ?_, fun _ => rfl⟩
    intro f hf hbus hdevice hfunction
    obtain ⟨i, hi, rfl⟩ := List.mem_iff_getElem.mp hf
    have hmem : kmalloc (2 * i + 1) ∈ s.pciDeviceList :: ns :=
      hperm.mem_iff.mpr (List.mem_map_of_mem (List.mem_range.mpr hi))
    have hnot := List.find?_eq_none.mp hfind _ hmem
    simp only [isAt, hdata i hi, h.device i hi, decide_eq_true_eq] at hnot
    exact absurd ⟨hbus, hdevice, hfunction⟩ hnot
  | some a =>
    obtain ⟨i, hi, hkey, hheader⟩ := hnode a (List.mem_of_find?_eq_some hfind)
    have hat := List.find?_some hfind
    simp only [isAt, hheader, decide_eq_true_eq] at hat
    obtain ⟨hbus, hdevice, hfunction⟩ := hat
    refine ⟨_, rfl, ?_, ?_⟩
    . intro f hf hbus' hdevice' hfunction'
      have heq : f = fs[i] :=
        eq_of_place (hbus'.trans hbus.symm) (hdevice'.trans hdevice.symm) (hfunction'.trans hfunction.symm)
      rw [heq]
      exact ⟨hkey ▸ hkmalloc.ne_zero (2 * i) (by omega), hheader⟩
    . intro hnone
      exact absurd ⟨hbus, hdevice, hfunction⟩ (hnone fs[i] (List.getElem_mem hi))

/--
After the scan, the lookup finds the record of each function that is present, with the fields of its header, and returns
`NULL` for every other place.
-/
theorem pciInit_getDeviceById (hpresent : c.present ⟨0, 0, 0⟩) (hkmalloc : Allocates kmalloc) (hlist : s.pciDeviceList = 0)
    (hcalls : s.calls = 0) (hnamed : ∀ f, c.present f → Named c f)
    : ∃ s',
        s.pciInit c kmalloc = some s'
          ∧ ∀ fuel bus device function, 65536 ≤ fuel →
            ∃ dev, s'.getDeviceById fuel bus device function = some dev
              ∧ FindsAt c s' (functions.filter c.present) bus device function dev := by
  obtain ⟨out, hinit⟩ := @pciInit_eq c kmalloc s hpresent
  have hstart : Found c kmalloc s.list { s with printed := out } [] := by
    refine ⟨hcalls, ?_, by simp⟩
    dsimp only
    rw [hlist]
    rfl
  have hlength : ([] : List PciFunction).length + functions.length ≤ 65536 := by
    rw [length_functions, List.length_nil]
  obtain ⟨s', hrun, hfound⟩ := hstart.run hkmalloc hlength (fun f _ => hnamed f)
  rw [List.nil_append] at hfound
  have hpos : 0 < (functions.filter c.present).length :=
    List.length_pos_of_mem (List.mem_filter.mpr ⟨mem_functions _, hpresent⟩)
  have hle : (functions.filter c.present).length ≤ 65536 := by
    rw [← length_functions]
    exact List.length_filter_le ..
  refine ⟨s', hinit.trans hrun, fun fuel bus device function hfuel => ?_⟩
  exact hfound.findsAt hkmalloc hpos hle (hle.trans hfuel) bus device function

theorem pciInit_getDeviceById_bridge
    : ∃ s',
        boot.pciInit (oneFunction 0x12378086 0x06000002) (fun i => 0xC0400000 + 64 * i) = some s'
          ∧ ∃ dev, s'.getDeviceById 65536 0 0 0 = some dev ∧ dev ≠ 0
            ∧ s'.device dev = (oneFunction 0x12378086 0x06000002).header ⟨0, 0, 0⟩ := by
  have hnamed : ∀ f, (oneFunction 0x12378086 0x06000002).present f → Named (oneFunction 0x12378086 0x06000002) f := by
    intro f hf
    by_cases hzero : f.bus = 0 ∧ f.device = 0 ∧ f.function = 0
    . intro hclass
      simp only [PciConfig.header, PciConfig.register, oneFunction, if_pos hzero] at hclass
      exact absurd hclass (by decide)
    . simp only [PciConfig.present, PciConfig.register, oneFunction, if_neg hzero] at hf
      exact absurd hf (by decide)
  obtain ⟨s', hinit, h⟩ := pciInit_getDeviceById (s := boot) (by decide) allocates_example rfl rfl hnamed
  obtain ⟨dev, hdev, hfinds⟩ := h 65536 0 0 0 (Nat.le_refl 65536)
  exact ⟨s', hinit, dev, hdev, hfinds.found ⟨0, 0, 0⟩
    (List.mem_filter.mpr ⟨mem_functions _, by decide⟩) rfl rfl rfl⟩

end Pci
end Osproj
