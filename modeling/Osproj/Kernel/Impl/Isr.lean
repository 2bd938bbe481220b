import Osproj.Base.X86
import Osproj.Kernel.Impl.Sched

/-!
This module contains the interrupt stubs of `isr.s`, instruction by instruction. A stub that jumps is followed by the
code it jumps to. The addresses of the functions and variables that the stubs name are those the linker chooses.
-/

namespace Osproj

open X86

structure Symbols where
  do_divide_error : BitVec 32
  do_debug : BitVec 32
  do_nmi : BitVec 32
  do_int3 : BitVec 32
  do_overflow : BitVec 32
  do_bounds : BitVec 32
  do_opcode : BitVec 32
  do_device_not_present : BitVec 32
  do_double_fault : BitVec 32
  do_i387_overrun : BitVec 32
  do_illegal_tss : BitVec 32
  do_illegal_segment : BitVec 32
  do_stack_overflow : BitVec 32
  do_general_protect : BitVec 32
  do_page_fault : BitVec 32
  do_reserved : BitVec 32
  do_ata_int : BitVec 32
  do_pit_int : BitVec 32
  esp_swap : Nat
  worker_stack_top : Nat

namespace Isr

open Sched

/--
What `memcpy` reads as a `sched_stack_t` at `a`.
-/
def loadStack (m : Memory) (a : Nat) : SchedStack where
  cr3 := BitVec.ofNat 32 (m.loadWord a)
  padding := BitVec.ofNat 16 (m.loadHalf (a + 4))
  ss := BitVec.ofNat 16 (m.loadHalf (a + 6))
  gs := BitVec.ofNat 16 (m.loadHalf (a + 8))
  fs := BitVec.ofNat 16 (m.loadHalf (a + 10))
  es := BitVec.ofNat 16 (m.loadHalf (a + 12))
  ds := BitVec.ofNat 16 (m.loadHalf (a + 14))
  ebp := BitVec.ofNat 32 (m.loadWord (a + 16))
  edi := BitVec.ofNat 32 (m.loadWord (a + 20))
  esi := BitVec.ofNat 32 (m.loadWord (a + 24))
  edx := BitVec.ofNat 32 (m.loadWord (a + 28))
  ecx := BitVec.ofNat 32 (m.loadWord (a + 32))
  ebx := BitVec.ofNat 32 (m.loadWord (a + 36))
  eax := BitVec.ofNat 32 (m.loadWord (a + 40))

def noErrCode : List Instr :=
  [
    .xchg .eax 0,
    .push (.reg .ebx),
    .push (.reg .ecx),
    .push (.reg .edx),
    .push (.reg .esi),
    .push (.reg .edi),
    .push (.reg .ebp),
    .push (.seg .ds),
    .push (.seg .es),
    .push (.seg .fs),
    -- fake err code for c func
    .pushImm 0,
    .lea 44 .edx,
    .push (.reg .edx),
    .movImm 0x10 .edx,
    .movSeg .edx .ds,
    .movSeg .edx .es,
    -- load kernel segment
    .movSeg .edx .fs,
    .call .eax,
    -- pop out trash
    .pop (.reg .eax),
    .pop (.reg .eax),
    .pop (.seg .fs),
    .pop (.seg .es),
    .pop (.seg .ds),
    .pop (.reg .ebp),
    .pop (.reg .edi),
    .pop (.reg .esi),
    .pop (.reg .edx),
    .pop (.reg .ecx),
    .pop (.reg .ebx),
    .pop (.reg .eax),
    .iret
  ]

def errCode : List Instr :=
  [
    .xchg .eax 4,
    .xchg .ebx 0,
    .push (.reg .ecx),
    .push (.reg .edx),
    .push (.reg .esi),
    .push (.reg .edi),
    .push (.reg .ebp),
    .push (.seg .ds),
    .push (.seg .es),
    .push (.seg .fs),
    .push (.reg .eax),
    .lea 44 .eax,
    .push (.reg .eax),
    .movImm 0x10 .eax,
    .movSeg .eax .ds,
    .movSeg .eax .es,
    .movSeg .eax .fs,
    .call .ebx,
    .pop (.reg .eax),
    .pop (.reg .eax),
    .pop (.seg .fs),
    .pop (.seg .es),
    .pop (.seg .ds),
    .pop (.reg .ebp),
    .pop (.reg .edi),
    .pop (.reg .esi),
    .pop (.reg .edx),
    .pop (.reg .ecx),
    .pop (.reg .ebx),
    .pop (.reg .eax),
    .iret
  ]

def schedInt (sym : Symbols) : List Instr :=
  [
    .push (.reg .eax),
    .push (.reg .ebx),
    .push (.reg .ecx),
    .push (.reg .edx),
    .push (.reg .esi),
    .push (.reg .edi),
    .push (.reg .ebp),
    .push (.seg .ds),
    .push (.seg .es),
    .push (.seg .fs),
    .push (.seg .gs),
    .push (.seg .ss),
    .pushImmHalf 0,
    .movFromCr3 .esi,
    .push (.reg .esi),
    .movFromEsp .esi,
    .push (.reg .esi),
    .movImm 0x10 .edx,
    .movSeg .edx .ds,
    .movSeg .edx .es,
    -- load kernel segment
    .movSeg .edx .fs,
    .movImm sym.do_pit_int .eax,
    .call .eax,
    -- stack balance
    .addEsp 4,
    -- cr3
    .pop (.reg .esi),
    .movToCr3 .esi,
    .popHalf .esi,
    .pop (.seg .ss),
    .pop (.seg .gs),
    .pop (.seg .fs),
    .pop (.seg .es),
    .pop (.seg .ds),
    .pop (.reg .ebp),
    .pop (.reg .edi),
    .pop (.reg .esi),
    .pop (.reg .edx),
    .pop (.reg .ecx),
    .pop (.reg .ebx),
    .pop (.reg .eax),
    .loadEsp sym.esp_swap,
    .iret
  ]

section Stubs

variable (sym : Symbols)

def pitInt : List Instr :=
  [
    .cli,
    .storeEsp sym.esp_swap,
    -- switch to scheduler working stack
    .loadEsp sym.worker_stack_top
  ] ++ schedInt sym

def plain (handler : BitVec 32) : List Instr := [.cli, .pushImm handler] ++ noErrCode

def withErrCode (handler : BitVec 32) : List Instr := [.cli, .pushImm handler] ++ errCode

def ataPrimInt : List Instr := plain sym.do_ata_int

def ataScndInt : List Instr := plain sym.do_ata_int

def divideError : List Instr := plain sym.do_divide_error

def debug : List Instr := plain sym.do_debug

def nmi : List Instr := plain sym.do_nmi

def int3 : List Instr := plain sym.do_int3

def overflow : List Instr := plain sym.do_overflow

def bounds : List Instr := plain sym.do_bounds

def opcode : List Instr := plain sym.do_opcode

def deviceNotPresent : List Instr := plain sym.do_device_not_present

def doubleFault : List Instr := withErrCode sym.do_double_fault

def i387Overrun : List Instr := plain sym.do_i387_overrun

def illegalTss : List Instr := withErrCode sym.do_illegal_tss

def illegalSegment : List Instr := withErrCode sym.do_illegal_segment

def stackOverflow : List Instr := withErrCode sym.do_stack_overflow

def generalProtect : List Instr := withErrCode sym.do_general_protect

def pageFault : List Instr :=
  [
    .cli,
    .nop,
    .pushMem 4,
    .popMem 0xa,
    .pushImm sym.do_page_fault
  ] ++ errCode

def reserved : List Instr := plain sym.do_reserved

/--
The stubs that `arch_init` sets for the vectors.
-/
def gate (vector : Nat) : List Instr :=
  match vector with
  | 0 => divideError sym
  | 1 => debug sym
  | 2 => nmi sym
  | 3 => int3 sym
  | 4 => overflow sym
  | 5 => bounds sym
  | 6 => opcode sym
  | 7 => deviceNotPresent sym
  | 8 => doubleFault sym
  | 9 => i387Overrun sym
  | 10 => illegalTss sym
  | 11 => illegalSegment sym
  | 12 => stackOverflow sym
  | 13 => generalProtect sym
  | 14 => pageFault sym
  | _ => reserved sym

end Stubs

end Isr
end Osproj
