import Osproj.Drivers.Lemmas.PciConfig
import Osproj.Kernel.Lemmas.Format
import Osproj.Lib.Lemmas.List
import Mathlib.Data.List.Nodup

/-!
This module contains the exact condition under which the scan of the bus lists every function that is present. The
table of the mass storage controllers is shorter than the subclasses the hardware may report.
-/

namespace Osproj

open ListHeap
open Printk (Arg printk)

namespace Pci

section Print

variable (s : Pci)

/--
The formats of the scan, each with the number of integers it prints.
-/
def formats : List (String × Nat) :=
  [("scanning pci\n", 0), ("unknown device\n", 0), ("\n", 0), (" [PI %x2]", 1), ("%x2:%x2.%x1 %x4:%x4 [%x2%x2] ", 7)]

theorem formats_takesInt
    : ∀ p ∈ formats, (Printk.pieces (CString.lit p.1).chars).all Printk.Piece.takesInt
        ∧ (Printk.pieces (CString.lit p.1).chars).countP Printk.Piece.isNumber = p.2 := by
  decide +kernel

theorem names_verbatim
    : ∀ name ∈ classes ++ massStorage, ∀ str, name = some str → 0x25 ∉ str.chars := by
  decide +kernel

theorem print_eq {fmt : String} {args : List Arg} (h : printk (CString.lit fmt).bytes args ≠ none)
    : ∃ out, s.print fmt args = some { s with printed := out } := by
  obtain ⟨r, hr⟩ := Option.ne_none_iff_exists'.mp h
  refine ⟨s.printed ++ r.1, ?_⟩
  rw [print, hr]
  rfl

theorem print_ints {fmt : String} {n : Nat} (hfmt : (fmt, n) ∈ formats) (vs : List (BitVec 32)) (hlength : vs.length = n)
    : ∃ out, s.print fmt (vs.map .int) = some { s with printed := out } := by
  obtain ⟨hint, hcount⟩ := formats_takesInt _ hfmt
  exact print_eq s (Printk.printk_ints hint (by rw [hcount, hlength]))

theorem print_name {str : CString} (hname : some str ∈ classes ++ massStorage)
    : ∃ out, s.print "%s" [.str str []] = some { s with printed := out } := by
  apply print_eq
  have hfmt : (CString.lit "%s").bytes = [0x25, 0x73, 0] := by decide +kernel
  rw [hfmt, Printk.verbatim_of_not_mem (names_verbatim _ hname str rfl)]
  exact Option.some_ne_none _

/--
The table of the mass storage controllers has an entry for the device.
-/
def InTable (classcode subclass : BitVec 8) : Prop := classcode = 1 → subclass.toNat < massStorage.length

theorem getElem?_classes (classcode : BitVec 8) : ∃ name, classes[classcode.toNat]? = some name ∧ name ∈ classes := by
  have hlength : classes.length = 256 := by
    rw [classes, List.length_append, List.length_map, List.length_replicate]
    rfl
  have hlt : classcode.toNat < classes.length := by
    rw [hlength]
    exact classcode.isLt
  exact ⟨classes[classcode.toNat], List.getElem?_eq_getElem hlt, List.getElem_mem hlt⟩

theorem printName_unknown {classcode subclass progif : BitVec 8} (hname : classes[classcode.toNat]? = some none)
    : ∃ out, s.printName classcode subclass progif = some { s with printed := out } := by
  obtain ⟨out, hprint⟩ := @print_ints s "unknown device\n" 0 (by simp [formats]) [] rfl
  refine ⟨out, ?_⟩
  rw [printName, hname]
  exact hprint

theorem printName_other {classcode subclass progif : BitVec 8} {classname : CString} (hclass : classcode ≠ 1)
    (hname : classes[classcode.toNat]? = some (some classname)) (hmem : some classname ∈ classes)
    : ∃ out, s.printName classcode subclass progif = some { s with printed := out } := by
  obtain ⟨out, hprint⟩ := print_name s (List.mem_append_left massStorage hmem)
  obtain ⟨out', hprint'⟩ := @print_ints { s with printed := out } "\n" 0 (by simp [formats]) [] rfl
  refine ⟨out', ?_⟩
  rw [printName, hname]
  change (if classcode = 1 then _ else (s.print "%s" [.str classname []]).bind _) = _
  rw [if_neg hclass, hprint]
  exact hprint'

theorem printName_one (subclass progif : BitVec 8)
    : s.printName 1 subclass progif
        =
      (massStorage[subclass.toNat]?).bind fun name =>
        (match name with
          | some name => s.print "%s" [.str name []]
          | none => some s).bind fun s =>
        (if subclass = 1 then s.print " [PI %x2]" [.int (progif.setWidth 32)] else some s).bind fun s =>
        s.print "\n" [] := by
  have hname : classes[(1 : BitVec 8).toNat]? = some (some (CString.lit "Mass Storage Controller")) := by rfl
  rw [printName, hname, Option.bind_eq_bind, Option.bind_some]
  dsimp only
  rw [if_pos rfl, Option.bind_eq_bind]
  congr 1
  funext name
  by_cases hide : subclass = 1
  . cases name <;> simp only [if_pos hide]
  . cases name <;> simp only [if_neg hide]

theorem printName_storage {subclass : BitVec 8} (progif : BitVec 8) (hlt : subclass.toNat < massStorage.length)
    : ∃ out, s.printName 1 subclass progif = some { s with printed := out } := by
  have hname : ∃ out, (match massStorage[subclass.toNat] with
      | some name => s.print "%s" [.str name []]
      | none => some s) = some { s with printed := out } := by
    cases hentry : massStorage[subclass.toNat] with
    | none => exact ⟨s.printed, rfl⟩
    | some name => exact print_name s (List.mem_append_right classes (hentry ▸ List.getElem_mem hlt))
  obtain ⟨out, hname⟩ := hname
  have hprogif : ∃ out', (if subclass = 1 then ({ s with printed := out } : Pci).print " [PI %x2]"
      [.int (progif.setWidth 32)] else some { s with printed := out }) = some { s with printed := out' } := by
    split
    . exact @print_ints { s with printed := out } " [PI %x2]" 1 (by simp [formats]) [progif.setWidth 32] rfl
    . exact ⟨out, rfl⟩
  obtain ⟨out', hprogif⟩ := hprogif
  rw [printName_one, List.getElem?_eq_getElem hlt, Option.bind_some, hname, Option.bind_some, hprogif,
    Option.bind_some]
  exact @print_ints { s with printed := out' } "\n" 0 (by simp [formats]) [] rfl

theorem printName_eq {classcode subclass : BitVec 8} (progif : BitVec 8) (htable : InTable classcode subclass)
    : ∃ out, s.printName classcode subclass progif = some { s with printed := out } := by
  obtain ⟨name, hname, hmem⟩ := getElem?_classes classcode
  cases name with
  | none => exact printName_unknown s hname
  | some classname =>
    by_cases hclass : classcode = 1
    . rw [hclass]
      exact printName_storage s progif (htable hclass)
    . exact printName_other s hclass hname hmem

theorem printName_eq_none {classcode subclass : BitVec 8} (progif : BitVec 8) (htable : ¬ InTable classcode subclass)
    : s.printName classcode subclass progif = none := by
  simp only [InTable, Classical.not_imp, Nat.not_lt] at htable
  rw [htable.1, printName_one, List.getElem?_eq_none htable.2, Option.bind_none]

end Print

section Scan

variable {c : PciConfig} {kmalloc : Nat → Nat} {s : Pci} {f : PciFunction}

/--
The name of a function is in the tables.
-/
def Named (c : PciConfig) (f : PciFunction) : Prop := InTable (c.header f).classcode (c.header f).subclass

theorem classfyDevice_eq {list : ListHeap} {head : Nat} (hne : kmalloc s.calls ≠ 0)
    (hinsert : s.list.listInsert s.pciDeviceList (kmalloc s.calls) (kmalloc (s.calls + 1)) = some (list, head))
    : ∃ out, classfyDevice c kmalloc s f.bus (f.device.setWidth 8) (f.function.setWidth 8)
        =
      printName ⟨list, head, Function.update s.device (kmalloc s.calls) (c.header f), s.calls + 2, out⟩
        (c.header f).classcode (c.header f).subclass (c.header f).progIf := by
  obtain ⟨out, hprint⟩ := @print_ints
    ⟨list, head, Function.update s.device (kmalloc s.calls) (c.header f), s.calls + 2, s.printed⟩
    "%x2:%x2.%x1 %x4:%x4 [%x2%x2] " 7 (by simp [formats])
    [f.bus.setWidth 32, (f.device.setWidth 8).setWidth 32, (f.function.setWidth 8).setWidth 32,
      (c.header f).deviceId.setWidth 32, (c.header f).vendorId.setWidth 32, (c.header f).classcode.setWidth 32,
      (c.header f).subclass.setWidth 32] rfl
  refine ⟨out, ?_⟩
  rw [classfyDevice]
  simp only [readPciData_eq, byte_shiftRight, half_shiftRight]
  simp only [half_and, readBars_eq, hinsert, Option.bind_eq_bind, Option.bind_some, if_neg hne]
  exact congrArg (fun o => Option.bind o _) hprint

/--
A function whose name is in none of the tables ends the scan.
-/
theorem classfyDevice_eq_none (hnamed : ¬ Named c f)
    : classfyDevice c kmalloc s f.bus (f.device.setWidth 8) (f.function.setWidth 8) = none := by
  cases hinsert : s.list.listInsert s.pciDeviceList (kmalloc s.calls) (kmalloc (s.calls + 1)) with
  | none =>
    rw [classfyDevice, hinsert]
    rfl
  | some r =>
    by_cases hne : kmalloc s.calls = 0
    . rw [classfyDevice, hinsert, Option.bind_eq_bind, Option.bind_some]
      exact if_pos hne
    . obtain ⟨out, heq⟩ := @classfyDevice_eq c kmalloc s f r.1 r.2 hne hinsert
      rw [heq]
      exact printName_eq_none _ _ hnamed

/--
The function at the numbers of the three loops.
-/
def functionAt (p : Nat × Nat × Nat) : PciFunction :=
  ⟨BitVec.ofNat 8 p.1, BitVec.ofNat 5 p.2.1, BitVec.ofNat 3 p.2.2⟩

def scanned : List (Nat × Nat × Nat) := List.range 256 ×ˢ List.range 32 ×ˢ List.range 8

def functions : List PciFunction := scanned.map functionAt

def scan (c : PciConfig) (kmalloc : Nat → Nat) (s : Pci) (f : PciFunction) : Option Pci :=
  if c.present f then classfyDevice c kmalloc s f.bus (f.device.setWidth 8) (f.function.setWidth 8) else some s

theorem mem_scanned {bus dev func : Nat} : (bus, dev, func) ∈ scanned ↔ bus < 256 ∧ dev < 32 ∧ func < 8 := by
  rw [scanned, List.mem_product, List.mem_product, List.mem_range, List.mem_range, List.mem_range]

theorem mem_functions (f : PciFunction) : f ∈ functions := by
  refine List.mem_map.mpr ⟨(f.bus.toNat, f.device.toNat, f.function.toNat), mem_scanned.mpr ?_, ?_⟩
  . exact ⟨f.bus.isLt, f.device.isLt, f.function.isLt⟩
  . simp [functionAt]

theorem length_functions : functions.length = 65536 := by
  rw [functions, List.length_map, scanned, List.length_product, List.length_product, List.length_range,
    List.length_range, List.length_range]

theorem eq_of_ofNat_eq {w n m : Nat} (hn : n < 2 ^ w) (hm : m < 2 ^ w) (h : BitVec.ofNat w n = BitVec.ofNat w m)
    : n = m := by
  have htoNat := congrArg BitVec.toNat h
  rwa [BitVec.toNat_ofNat, BitVec.toNat_ofNat, Nat.mod_eq_of_lt hn, Nat.mod_eq_of_lt hm] at htoNat

theorem nodup_functions : functions.Nodup := by
  refine List.Nodup.map_on ?_ (List.nodup_range.product (List.nodup_range.product List.nodup_range))
  rintro ⟨bus, dev, func⟩ hp ⟨bus', dev', func'⟩ hp' heq
  obtain ⟨hbus, hdev, hfunc⟩ := mem_scanned.mp hp
  obtain ⟨hbus', hdev', hfunc'⟩ := mem_scanned.mp hp'
  simp only [functionAt, PciFunction.mk.injEq] at heq
  rw [eq_of_ofNat_eq hbus hbus' heq.1, eq_of_ofNat_eq hdev hdev' heq.2.1, eq_of_ofNat_eq hfunc hfunc' heq.2.2]

theorem setWidth_ofNat {w n : Nat} (hn : n < 2 ^ w) : (BitVec.ofNat w n).setWidth 8 = BitVec.ofNat 8 n := by
  apply BitVec.eq_of_toNat_eq
  rw [BitVec.toNat_setWidth, BitVec.toNat_ofNat, BitVec.toNat_ofNat, Nat.mod_eq_of_lt hn]

theorem scanFunction_eq (bus : Nat) {dev func : Nat} (hdev : dev < 32) (hfunc : func < 8)
    : scanFunction c kmalloc bus dev s func = scan c kmalloc s (functionAt (bus, dev, func)) := by
  rw [scan, ← checkDevice_eq, functionAt]
  dsimp only
  rw [setWidth_ofNat hdev, setWidth_ofNat hfunc]
  rfl

theorem scanBuses_eq : (List.range 256).foldlM (scanBus c kmalloc) s = Run.run (scan c kmalloc) s functions := by
  rw [functions, Run.run_map, scanned, Run.run_product]
  apply Run.run_congr
  intro bus hbus s
  rw [Run.run_product]
  apply Run.run_congr
  intro dev hdev s
  apply Run.run_congr
  intro func hfunc s
  exact scanFunction_eq bus (List.mem_range.mp hdev) (List.mem_range.mp hfunc)

end Scan

section Invariant

variable {c : PciConfig} {kmalloc : Nat → Nat} {heap : ListHeap} {s : Pci} {f : PciFunction} {fs : List PciFunction}

/--
No call of the scan returns `NULL`, and no two calls the same address.
-/
structure Allocates (kmalloc : Nat → Nat) : Prop where
  ne_zero (i : Nat) (hi : i < 131072) : kmalloc i ≠ 0
  injective (i j : Nat) (hi : i < 131072) (hj : j < 131072) (heq : kmalloc i = kmalloc j) : i = j

/--
The first call for a device is the one for its record, the second the one for its node.
-/
def insertion (kmalloc : Nat → Nat) (i : Nat) : NodeInsertion := ⟨kmalloc (2 * i), kmalloc (2 * i + 1)⟩

/--
The state after the scan has found the functions `fs`.
-/
structure Found (c : PciConfig) (kmalloc : Nat → Nat) (heap : ListHeap) (s : Pci) (fs : List PciFunction) : Prop where
  calls : s.calls = 2 * fs.length
  inserted
    : Run.run insertNode (heap, 0) ((List.range fs.length).map (insertion kmalloc)) = some (s.list, s.pciDeviceList)
  device (i : Nat) (hi : i < fs.length) : s.device (kmalloc (2 * i)) = c.header fs[i]

theorem map_insertion {α : Type} (kmalloc : Nat → Nat) (g : NodeInsertion → α) (k : Nat)
    : ((List.range k).map (insertion kmalloc)).map g = (List.range k).map fun i => g (insertion kmalloc i) := by
  rw [List.map_map]
  rfl

theorem insert_all (hkmalloc : Allocates kmalloc) (heap : ListHeap) {k : Nat} (hpos : 0 < k) (hk : k ≤ 65536)
    : ∃ h n ns, Run.run insertNode (heap, 0) ((List.range k).map (insertion kmalloc)) = some (h, n)
        ∧ h.IsRing n ns ∧ List.Perm (n :: ns) ((List.range k).map fun i => kmalloc (2 * i + 1))
        ∧ ∀ i < k, (h.cell (kmalloc (2 * i + 1))).data = kmalloc (2 * i) := by
  have hnodup : (((List.range k).map (insertion kmalloc)).map NodeInsertion.node).Nodup := by
    rw [map_insertion]
    refine List.Nodup.map_on ?_ List.nodup_range
    intro i hi j hj heq
    rw [List.mem_range] at hi hj
    have := hkmalloc.injective (2 * i + 1) (2 * j + 1) (by omega) (by omega) heq
    omega
  have hne (j : NodeInsertion) (hj : j ∈ (List.range k).map (insertion kmalloc)) : j.node ≠ 0 := by
    obtain ⟨i, hi, rfl⟩ := List.mem_map.mp hj
    rw [List.mem_range] at hi
    exact hkmalloc.ne_zero (2 * i + 1) (by omega)
  obtain ⟨k, rfl⟩ := Nat.exists_eq_succ_of_ne_zero (Nat.ne_of_gt hpos)
  have hcons := map_insertion kmalloc NodeInsertion.node (k + 1)
  have hdata' (i : Nat) (hi : i < k + 1) : insertion kmalloc i ∈ (List.range (k + 1)).map (insertion kmalloc) :=
    List.mem_map_of_mem (List.mem_range.mpr hi)
  rw [Nat.succ_eq_add_one] at hnodup hne ⊢
  cases hlist : (List.range (k + 1)).map (insertion kmalloc) with
  | nil => simp at hlist
  | cons i is =>
    rw [hlist] at hnodup hne hcons hdata'
    obtain ⟨h, hrun, hring, hdata⟩ := insert_ring heap i is hnodup hne
    refine ⟨h, i.node, is.reverse.map NodeInsertion.node, hrun, hring, ?_, fun j hj => hdata _ (hdata' j hj)⟩
    change List.Perm _ ((List.range (k + 1)).map fun i => (insertion kmalloc i).node)
    rw [← hcons, List.map_cons, List.map_reverse]
    exact (List.reverse_perm _).cons _

theorem Found.push (h : Found c kmalloc heap s fs) (hkmalloc : Allocates kmalloc) (hlength : fs.length < 65536)
    {list : ListHeap} {head : Nat} (f : PciFunction) (out : List (BitVec 8))
    (hrun : Run.run insertNode (heap, 0) ((List.range (fs.length + 1)).map (insertion kmalloc)) = some (list, head))
    : Found c kmalloc heap ⟨list, head, Function.update s.device (kmalloc s.calls) (c.header f), s.calls + 2, out⟩
        (fs ++ [f]) := by
  constructor
  . rw [List.length_append, List.length_singleton, Nat.mul_add, ← h.calls]
  . rw [List.length_append, List.length_singleton]
    exact hrun
  . intro i hi
    rw [List.length_append, List.length_singleton] at hi
    dsimp only
    by_cases heq : i = fs.length
    . subst heq
      rw [← h.calls, Function.update_self, List.getElem_concat_length rfl]
    . have hlt : i < fs.length := by omega
      have hother : kmalloc (2 * i) ≠ kmalloc s.calls := by
        intro hsame
        have := hkmalloc.injective (2 * i) s.calls (by omega) (by rw [h.calls]; omega) hsame
        rw [h.calls] at this
        omega
      rw [Function.update_of_ne hother, h.device i hlt, List.getElem_append_left hlt]

theorem Found.step (h : Found c kmalloc heap s fs) (hkmalloc : Allocates kmalloc) (hlength : fs.length < 65536)
    (hpresent : c.present f) (hnamed : Named c f)
    : ∃ s', scan c kmalloc s f = some s' ∧ Found c kmalloc heap s' (fs ++ [f]) := by
  obtain ⟨list, head, -, hrun, -⟩ := insert_all hkmalloc heap (Nat.succ_pos fs.length) hlength
  have hinsert : s.list.listInsert s.pciDeviceList (kmalloc s.calls) (kmalloc (s.calls + 1)) = some (list, head) := by
    rw [Nat.succ_eq_add_one, List.range_succ, List.map_append, Run.run_append, h.inserted, Option.bind_some,
      List.map_singleton, Run.run_cons] at hrun
    simp only [Run.run_nil, Option.bind_fun_some] at hrun
    rw [h.calls]
    exact hrun
  have hne : kmalloc s.calls ≠ 0 := hkmalloc.ne_zero s.calls (by rw [h.calls]; omega)
  obtain ⟨out, hclassfy⟩ := @classfyDevice_eq c kmalloc s f list head hne hinsert
  obtain ⟨out', hname⟩ := printName_eq
    ⟨list, head, Function.update s.device (kmalloc s.calls) (c.header f), s.calls + 2, out⟩ (c.header f).progIf hnamed
  refine ⟨_, ?_, h.push hkmalloc hlength f out' hrun⟩
  rw [scan, if_pos hpresent, hclassfy, hname]

theorem Found.run (h : Found c kmalloc heap s fs) (hkmalloc : Allocates kmalloc) {gs : List PciFunction}
    (hlength : fs.length + gs.length ≤ 65536) (hnamed : ∀ g ∈ gs, c.present g → Named c g)
    : ∃ s', Run.run (scan c kmalloc) s gs = some s' ∧ Found c kmalloc heap s' (fs ++ gs.filter c.present) := by
  induction gs generalizing s fs with
  | nil =>
    rw [List.filter_nil, List.append_nil]
    exact ⟨s, rfl, h⟩
  | cons g gs ih =>
    rw [List.length_cons] at hlength
    have hnamed' (f : PciFunction) (hf : f ∈ gs) := hnamed f (List.mem_cons_of_mem g hf)
    rw [Run.run_cons]
    by_cases hpresent : c.present g
    . obtain ⟨s₁, hs₁, hfound⟩ := h.step hkmalloc (by omega) hpresent (hnamed g (List.mem_cons_self ..) hpresent)
      rw [hs₁, Option.bind_some, List.filter_cons_of_pos hpresent, List.append_cons]
      apply ih hfound _ hnamed'
      rw [List.length_append, List.length_singleton]
      omega
    . rw [scan, if_neg hpresent, Option.bind_some, List.filter_cons_of_neg hpresent]
      exact ih h (by omega) hnamed'

end Invariant

variable {c : PciConfig} {kmalloc : Nat → Nat} {s : Pci}

def entries (s : Pci) (nodes : List Nat) : List PciDevice := nodes.map fun a => s.device (s.list.cell a).data

/--
What must hold of the scan: the list it leaves has one entry for each function that is present, with the fields of its
header. An access outside of a name table would be a `none`.
-/
def ListsAll (c : PciConfig) (kmalloc : Nat → Nat) (s : Pci) : Prop :=
  ∃ s' ns, s.pciInit c kmalloc = some s' ∧ s'.list.IsRing s'.pciDeviceList ns
    ∧ (s'.entries (s'.pciDeviceList :: ns)).Nodup
    ∧ ∀ d, d ∈ s'.entries (s'.pciDeviceList :: ns) ↔ ∃ f, c.present f ∧ c.header f = d

theorem setWidth_injective {w : Nat} (hw : w ≤ 8) {a b : BitVec w} (h : a.setWidth 8 = b.setWidth 8) : a = b := by
  rw [← BitVec.setWidth_eq a, ← BitVec.setWidth_eq b, ← BitVec.setWidth_setWidth_of_le a hw, h,
    BitVec.setWidth_setWidth_of_le b hw]

theorem header_injective (c : PciConfig) : Function.Injective c.header := by
  rintro ⟨bus, dev, func⟩ ⟨bus', dev', func'⟩ h
  have hbus : bus = bus' := congrArg PciDevice.bus h
  have hdev : dev.setWidth 8 = dev'.setWidth 8 := congrArg PciDevice.device h
  have hfunc : func.setWidth 8 = func'.setWidth 8 := congrArg PciDevice.function h
  rw [hbus, setWidth_injective (by decide) hdev, setWidth_injective (by decide) hfunc]

theorem Found.entries {heap : ListHeap} {fs : List PciFunction} (h : Found c kmalloc heap s fs)
    (hkmalloc : Allocates kmalloc) (hpos : 0 < fs.length) (hlength : fs.length ≤ 65536)
    : ∃ ns, s.list.IsRing s.pciDeviceList ns ∧ List.Perm (s.entries (s.pciDeviceList :: ns)) (fs.map c.header) := by
  obtain ⟨list, head, ns, hrun, hring, hperm, hdata⟩ := insert_all hkmalloc heap hpos hlength
  rw [h.inserted, Option.some.injEq, Prod.mk.injEq] at hrun
  obtain ⟨rfl, rfl⟩ := hrun
  refine ⟨ns, hring, ?_⟩
  have hmap := hperm.map fun a => s.device (s.list.cell a).data
  refine hmap.trans (List.Perm.of_eq ?_)
  apply List.ext_getElem
  . rw [List.length_map, List.length_map, List.length_map, List.length_range]
  . intro i hi hi'
    rw [List.length_map] at hi'
    rw [List.getElem_map, List.getElem_map, List.getElem_map, List.getElem_range, hdata i hi', h.device i hi']

theorem pciInit_eq (hpresent : c.present ⟨0, 0, 0⟩)
    : ∃ out, s.pciInit c kmalloc = Run.run (scan c kmalloc) { s with printed := out } functions := by
  obtain ⟨out, hprint⟩ := @print_ints s "scanning pci\n" 0 (by simp [formats]) [] rfl
  refine ⟨out, ?_⟩
  have hcheck : checkDevice c 0 0 0 = true := (checkDevice_eq c ⟨0, 0, 0⟩).trans hpresent
  rw [← scanBuses_eq, pciInit, if_pos hcheck]
  exact congrArg (fun o => Option.bind o _) hprint

theorem pciInit_eq_none (hpresent : c.present ⟨0, 0, 0⟩) {f : PciFunction} (hf : c.present f) (hnamed : ¬ Named c f)
    : s.pciInit c kmalloc = none := by
  obtain ⟨out, hinit⟩ := @pciInit_eq c kmalloc s hpresent
  rw [hinit]
  apply Run.run_eq_none (mem_functions f)
  intro s
  rw [scan, if_pos hf]
  exact classfyDevice_eq_none hnamed

theorem listsAll_iff (hpresent : c.present ⟨0, 0, 0⟩) (hkmalloc : Allocates kmalloc) (hlist : s.pciDeviceList = 0)
    (hcalls : s.calls = 0)
    : ListsAll c kmalloc s ↔ ∀ f, c.present f → Named c f := by
  constructor
  . rintro ⟨s', ns, hinit, -⟩ f hf
    by_contra hnamed
    rw [pciInit_eq_none hpresent hf hnamed] at hinit
    cases hinit
  . intro hnamed
    obtain ⟨out, hinit⟩ := @pciInit_eq c kmalloc s hpresent
    have hstart : Found c kmalloc s.list { s with printed := out } [] := by
      refine ⟨hcalls, ?_, by simp⟩
      dsimp only
      rw [hlist]
      rfl
    have hlength : ([] : List PciFunction).length + functions.length ≤ 65536 := by
      rw [length_functions, List.length_nil]
    obtain ⟨s', hrun, hfound⟩ := hstart.run hkmalloc hlength (fun f _ => hnamed f)
    rw [List.nil_append] at hfound
    have hpos : 0 < (functions.filter c.present).length :=
      List.length_pos_of_mem (List.mem_filter.mpr ⟨mem_functions _, hpresent⟩)
    have hle : (functions.filter c.present).length ≤ 65536 := by
      rw [← length_functions]
      exact List.length_filter_le ..
    obtain ⟨ns, hring, hperm⟩ := hfound.entries hkmalloc hpos hle
    refine ⟨s', ns, hinit.trans hrun, hring, ?_, ?_⟩
    . rw [hperm.nodup_iff]
      exact (nodup_functions.filter _).map (header_injective c)
    . intro d
      rw [hperm.mem_iff, List.mem_map]
      simp only [List.mem_filter, mem_functions, true_and]

section Example

/--
A machine with one function, whose registers are `vendor` and `revision`, and then zeros.
-/
def oneFunction (vendor revision : BitVec 32) : PciConfig where
  dword bus dev func register :=
    if bus = 0 ∧ dev = 0 ∧ func = 0 then
      if register = 0 then vendor else if register = 2 then revision else 0
    else
      0xFFFFFFFF

def boot : Pci where
  list := ⟨fun _ => ⟨0, 0, 0⟩⟩
  pciDeviceList := 0
  device := fun _ => ⟨0, 0, 0, 0, 0, 0, 0, 0, []⟩
  calls := 0
  printed := []

theorem allocates_example : Allocates fun i => 0xC0400000 + 64 * i := by
  constructor
  . intro i hi
    omega
  . intro i j hi hj heq
    omega

end Example

theorem listsAll_iff_bridge
    : ListsAll (oneFunction 0x12378086 0x06000002) (fun i => 0xC0400000 + 64 * i) boot
        ↔
      ∀ f, (oneFunction 0x12378086 0x06000002).present f → Named (oneFunction 0x12378086 0x06000002) f := by
  exact listsAll_iff (by decide) allocates_example rfl rfl

/--
A mass storage controller of no known kind, subclass `0x80`.
-/
theorem not_listsAll : ¬ ListsAll (oneFunction 0x12378086 0x01800000) (fun i => 0xC0400000 + 64 * i) boot := by
  rintro ⟨s', ns, hinit, -⟩
  have hnamed : ¬ Named (oneFunction 0x12378086 0x01800000) ⟨0, 0, 0⟩ := by
    unfold Named InTable
    decide
  rw [pciInit_eq_none (by decide) (by decide) hnamed] at hinit
  cases hinit

end Pci
end Osproj
