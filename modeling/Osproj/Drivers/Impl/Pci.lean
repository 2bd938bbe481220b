import Osproj.Base.Memory
import Osproj.Kernel.Impl.Printk
import Osproj.Lib.Impl.List

/-!
This module contains the scan of the PCI bus and the lookup of the devices it found. The device records are kept by
address, beside the nodes of the list. An access outside of a table and one through `NULL` return `none`.
-/

namespace Osproj

open Printk (Arg printk)

/--
The configuration space: a bus number, a device number of five bits, a function number of three and a register number
of six select a double word.
-/
structure PciConfig where
  dword : BitVec 8 → BitVec 5 → BitVec 3 → BitVec 6 → BitVec 32

structure PciDevice where
  bus : BitVec 8
  device : BitVec 8
  function : BitVec 8
  deviceId : BitVec 16
  vendorId : BitVec 16
  classcode : BitVec 8
  subclass : BitVec 8
  progIf : BitVec 8
  bar : List (BitVec 32)

/--
The variables of `pci.c`, what it has printed, and how often it has called `kmalloc`.
-/
structure Pci where
  list : ListHeap
  pciDeviceList : Nat
  device : Nat → PciDevice
  calls : Nat
  printed : List (BitVec 8)

namespace Pci

def classNames : List String :=
  ["Unclassified", "Mass Storage Controller", "Network Controller", "Display Controller", "Multimedia Controller",
    "Memory Controller", "Bridge", "Simple Communication Controller", "Base System Peripheral",
    "Input Device Controller", "Docking Station", "Processor", "Serial Bus Controller", "Wireless Controller",
    "Intelligent Controller", "Satellite Communication Controller", "Encryption Controller",
    "Signal Processing Controller", "Processing Accelerator", "Non-Essential Instrumentation"]

/--
The entries without a name are `NULL`.
-/
def classes : List (Option CString) := classNames.map (some ∘ .lit) ++ List.replicate 236 none

def massStorage : List (Option CString) :=
  ["SCSI Bus Controller", "IDE Controller", "Floppy Disk Controller", "IPI Bus Controller", "RAID Controller",
    "ATA Controller", "Serial ATA Controller", "Serial Attached SCSI Controller",
    "Non-Volatile Memory Controller"].map (some ∘ .lit)

section Config

variable (c : PciConfig) (bus dev func offset : BitVec 8)

def configAddress : BitVec 32 :=
  (bus.setWidth 32 <<< 16) ||| (dev.setWidth 32 <<< 11) ||| (func.setWidth 32 <<< 8)
    ||| (offset &&& 0xFC).setWidth 32 ||| 0x80000000

/--
What `PCI_CONFIG_DATA` returns after `address` was written to `PCI_CONFIG_ADDRESS`.
-/
def configData (address : BitVec 32) : BitVec 32 :=
  c.dword (address.extractLsb' 16 8) (address.extractLsb' 11 5) (address.extractLsb' 8 3) (address.extractLsb' 2 6)

def readPciData : BitVec 32 := configData c (configAddress bus dev func offset)

def readPciWord : BitVec 16 :=
  ((readPciData c bus dev func offset >>> ((offset &&& 2).toNat * 8)) &&& 0xFFFF).setWidth 16

def checkDevice : Bool := readPciWord c bus dev func 0 ≠ 0xFFFF

def readBars : List (BitVec 32) :=
  (List.range 6).map fun j => readPciData c bus dev func (BitVec.ofNat 8 (0x10 + 4 * j))

end Config

def print (s : Pci) (fmt : String) (args : List Arg) : Option Pci := do
  let (out, _) ← printk (CString.lit fmt).bytes args
  return { s with printed := s.printed ++ out }

def printName (s : Pci) (classcode subclass progif : BitVec 8) : Option Pci := do
  match ← classes[classcode.toNat]? with
  | none => s.print "unknown device\n" []
  | some classname =>
    if classcode = 1 then
      -- the second table has nine entries only
      let name ← massStorage[subclass.toNat]?
      let s ← match name with
        | some name => s.print "%s" [.str name []]
        | none => some s
      let s ← if subclass = 1 then s.print " [PI %x2]" [.int (progif.setWidth 32)] else some s
      s.print "\n" []
    else
      let s ← s.print "%s" [.str classname []]
      s.print "\n" []

def classfyDevice (c : PciConfig) (kmalloc : Nat → Nat) (s : Pci) (bus dev func : BitVec 8) : Option Pci := do
  let deviceId := readPciData c bus dev func 0x0
  let devId := readPciData c bus dev func 0x8
  let classcode := ((devId >>> 24) &&& 0xFF).setWidth 8
  let subclass := ((devId >>> 16) &&& 0xFF).setWidth 8
  let progif := ((devId >>> 8) &&& 0xFF).setWidth 8
  let device := kmalloc s.calls
  let (list, pciDeviceList) ← s.list.listInsert s.pciDeviceList device (kmalloc (s.calls + 1))
  if device = 0 then
    none
  else
    let d : PciDevice :=
      { bus
        device := dev
        function := func
        deviceId := ((deviceId >>> 16) &&& 0xFFFF).setWidth 16
        vendorId := (deviceId &&& 0xFFFF).setWidth 16
        classcode
        subclass
        progIf := progif
        bar := readBars c bus dev func }
    let s := { s with list, pciDeviceList, calls := s.calls + 2, device := Function.update s.device device d }
    let s ← s.print "%x2:%x2.%x1 %x4:%x4 [%x2%x2] "
      [.int (bus.setWidth 32), .int (dev.setWidth 32), .int (func.setWidth 32), .int (d.deviceId.setWidth 32),
        .int (d.vendorId.setWidth 32), .int (classcode.setWidth 32), .int (subclass.setWidth 32)]
    s.printName classcode subclass progif

def scanFunction (c : PciConfig) (kmalloc : Nat → Nat) (bus dev : Nat) (s : Pci) (func : Nat) : Option Pci :=
  let bus := BitVec.ofNat 8 bus
  let dev := BitVec.ofNat 8 dev
  let func := BitVec.ofNat 8 func
  if checkDevice c bus dev func then classfyDevice c kmalloc s bus dev func else some s

def scanDevice (c : PciConfig) (kmalloc : Nat → Nat) (bus : Nat) (s : Pci) (dev : Nat) : Option Pci :=
  (List.range 8).foldlM (scanFunction c kmalloc bus dev) s

def scanBus (c : PciConfig) (kmalloc : Nat → Nat) (s : Pci) (bus : Nat) : Option Pci :=
  (List.range 32).foldlM (scanDevice c kmalloc bus) s

/--
`kmalloc` returns a new address for each of its calls.
-/
def pciInit (c : PciConfig) (kmalloc : Nat → Nat) (s : Pci) : Option Pci :=
  if checkDevice c 0 0 0 then do
    let s ← s.print "scanning pci\n" []
    (List.range 256).foldlM (scanBus c kmalloc) s
  else
    s.print "no pci exist\n" []

end Pci

/--
The variables of `get_device_by_class`, and the memory of its buffer.
-/
structure ClassSearch where
  classcodeSwap : BitVec 8
  subclassSwap : BitVec 8
  bufszSwap : Int
  bufSwap : Nat
  indexSwap : Nat
  mem : Memory

namespace Pci

def callback2 (p : Pci) (s : ClassSearch) (node : Nat) : Option (Int × ClassSearch) :=
  let dev := (p.list.cell node).data
  let d := p.device dev
  if d.classcode = s.classcodeSwap ∧ d.subclass = s.subclassSwap
      ∧ (s.bufszSwap = 0 ∨ s.bufszSwap > s.indexSwap) then
    some (1, { s with mem := s.mem.storeWord (s.bufSwap + 4 * s.indexSwap) dev, indexSwap := s.indexSwap + 1 })
  else
    some (0, s)

/--
`fuel` bounds the number of devices that are visited. The result is what is returned, and the memory.
-/
def getDeviceByClass (p : Pci) (fuel : Nat) (classcode subclass : BitVec 8) (mem : Memory) (buf : Nat) (bufsz : Int)
    : Option (Nat × Memory) := do
  let s ← p.list.listIter p.pciDeviceList p.callback2 fuel
    { classcodeSwap := classcode, subclassSwap := subclass, bufszSwap := bufsz, bufSwap := buf, indexSwap := 0, mem }
  return (s.indexSwap, s.mem)

end Pci

/--
The variables of `get_device_by_id`.
-/
structure IdSearch where
  swap1 : Nat
  busSwap : BitVec 8
  deviceSwap : BitVec 8
  functionSwap : BitVec 8

namespace Pci

def callback1 (p : Pci) (s : IdSearch) (node : Nat) : Option (Int × IdSearch) :=
  let dev := (p.list.cell node).data
  let d := p.device dev
  if d.bus = s.busSwap ∧ d.device = s.deviceSwap ∧ d.function = s.functionSwap then
    some (1, { s with swap1 := dev })
  else
    some (0, s)

/--
`fuel` bounds the number of devices that are visited.
-/
def getDeviceById (p : Pci) (fuel : Nat) (bus device function : BitVec 8) : Option Nat := do
  let s ← p.list.listIter p.pciDeviceList p.callback1 fuel
    { swap1 := 0, busSwap := bus, deviceSwap := device, functionSwap := function }
  return s.swap1

end Pci
end Osproj
