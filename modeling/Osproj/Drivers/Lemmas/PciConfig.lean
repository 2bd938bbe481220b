import Osproj.Drivers.Impl.Pci

/-!
This module contains what the scan of the bus reads of a function: the fields of its header.
-/

namespace Osproj

structure PciFunction where
  bus : BitVec 8
  device : BitVec 5
  function : BitVec 3

namespace PciConfig

variable (c : PciConfig) (f : PciFunction)

def register (n : BitVec 6) : BitVec 32 := c.dword f.bus f.device f.function n

def present : Bool := (c.register f 0).extractLsb' 0 16 ≠ 0xFFFF

/--
The fields of the header of a function, which has the class code in register 2 and the BARs from register 4 on.
-/
def header : PciDevice where
  bus := f.bus
  device := f.device.setWidth 8
  function := f.function.setWidth 8
  deviceId := (c.register f 0).extractLsb' 16 16
  vendorId := (c.register f 0).extractLsb' 0 16
  classcode := (c.register f 2).extractLsb' 24 8
  subclass := (c.register f 2).extractLsb' 16 8
  progIf := (c.register f 2).extractLsb' 8 8
  bar := [c.register f 4, c.register f 5, c.register f 6, c.register f 7, c.register f 8, c.register f 9]

end PciConfig

namespace Pci

section Address

variable {w start len n : Nat} (v : BitVec w)

theorem extract_shiftLeft (h : n + w ≤ 32) : (v.setWidth 32 <<< n).extractLsb' n w = v := by
  ext i hi
  simp (disch := omega)

theorem extract_shiftLeft_of_le (h : start + len ≤ n)
    : (v.setWidth 32 <<< n).extractLsb' start len = BitVec.ofNat len 0 := by
  ext i hi
  simp (disch := omega)
  omega

theorem extract_shiftLeft_of_ge (h : n + w ≤ start)
    : (v.setWidth 32 <<< n).extractLsb' start len = BitVec.ofNat len 0 := by
  ext i hi
  simp (disch := omega) [BitVec.getLsbD_of_ge]

theorem extract_setWidth_of_ge (h : w ≤ start) : (v.setWidth 32).extractLsb' start len = BitVec.ofNat len 0 := by
  ext i hi
  simp (disch := omega) [BitVec.getLsbD_of_ge]

end Address

section Read

variable (c : PciConfig) (f : PciFunction) (offset : BitVec 8)

theorem bus_configAddress
    : (configAddress f.bus (f.device.setWidth 8) (f.function.setWidth 8) offset).extractLsb' 16 8 = f.bus := by
  have hbase : (0x80000000 : BitVec 32).extractLsb' 16 8 = 0#8 := by decide
  simp (disch := omega) only [configAddress, BitVec.extractLsb'_or, BitVec.setWidth_setWidth, extract_shiftLeft,
    extract_shiftLeft_of_ge, extract_setWidth_of_ge, hbase, BitVec.or_zero]

theorem device_configAddress
    : (configAddress f.bus (f.device.setWidth 8) (f.function.setWidth 8) offset).extractLsb' 11 5 = f.device := by
  have hbase : (0x80000000 : BitVec 32).extractLsb' 11 5 = 0#5 := by decide
  simp (disch := omega) only [configAddress, BitVec.extractLsb'_or, BitVec.setWidth_setWidth, extract_shiftLeft,
    extract_shiftLeft_of_le, extract_shiftLeft_of_ge, extract_setWidth_of_ge, hbase, BitVec.or_zero, BitVec.zero_or]

theorem function_configAddress
    : (configAddress f.bus (f.device.setWidth 8) (f.function.setWidth 8) offset).extractLsb' 8 3 = f.function := by
  have hbase : (0x80000000 : BitVec 32).extractLsb' 8 3 = 0#3 := by decide
  simp (disch := omega) only [configAddress, BitVec.extractLsb'_or, BitVec.setWidth_setWidth, extract_shiftLeft,
    extract_shiftLeft_of_le, extract_setWidth_of_ge, hbase, BitVec.or_zero, BitVec.zero_or]

theorem register_configAddress
    : (configAddress f.bus (f.device.setWidth 8) (f.function.setWidth 8) offset).extractLsb' 2 6
        =
      offset.extractLsb' 2 6 := by
  have hbase : (0x80000000 : BitVec 32).extractLsb' 2 6 = 0#6 := by decide
  have hmask : (0xFC : BitVec 8).extractLsb' 2 6 = BitVec.allOnes 6 := by decide
  have hoffset : ((offset &&& 0xFC).setWidth 32).extractLsb' 2 6 = offset.extractLsb' 2 6 := by
    rw [BitVec.extractLsb'_setWidth_of_le (by omega), BitVec.extractLsb'_and, hmask, BitVec.and_allOnes]
  simp (disch := omega) only [configAddress, BitVec.extractLsb'_or, BitVec.setWidth_setWidth, extract_shiftLeft_of_le,
    hbase, hoffset, BitVec.or_zero, BitVec.zero_or]

theorem readPciData_eq
    : readPciData c f.bus (f.device.setWidth 8) (f.function.setWidth 8) offset
        =
      c.register f (offset.extractLsb' 2 6) := by
  rw [readPciData, configData, bus_configAddress, device_configAddress, function_configAddress,
    register_configAddress]
  rfl

theorem field_shiftRight {w : Nat} {mask : BitVec 32} (hmask : mask.setWidth w = BitVec.allOnes w) (v : BitVec 32)
    (k : Nat)
    : ((v >>> k) &&& mask).setWidth w = v.extractLsb' k w := by
  rw [BitVec.setWidth_and, hmask, BitVec.and_allOnes, BitVec.setWidth_ushiftRight_eq_extractLsb]

theorem byte_shiftRight (v : BitVec 32) (k : Nat) : ((v >>> k) &&& 0xFF).setWidth 8 = v.extractLsb' k 8 := by
  exact field_shiftRight rfl v k

theorem half_shiftRight (v : BitVec 32) (k : Nat) : ((v >>> k) &&& 0xFFFF).setWidth 16 = v.extractLsb' k 16 := by
  exact field_shiftRight rfl v k

theorem half_and (v : BitVec 32) : (v &&& 0xFFFF).setWidth 16 = v.extractLsb' 0 16 := by
  exact half_shiftRight v 0

theorem checkDevice_eq
    : checkDevice c f.bus (f.device.setWidth 8) (f.function.setWidth 8) = c.present f := by
  rw [checkDevice, readPciWord, readPciData_eq, PciConfig.present, ← half_shiftRight]
  rfl

theorem readBars_eq
    : readBars c f.bus (f.device.setWidth 8) (f.function.setWidth 8) = (c.header f).bar := by
  simp only [readBars, readPciData_eq]
  rfl

end Read

end Pci
end Osproj
