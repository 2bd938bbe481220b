import Osproj.Base.Memory

/-!
This module contains the terminal: the cursor, the text buffer of the graphics card, the parser of
escape sequences and the switch between virtual terminals. An `int` is an integer that wraps as the
machine's does, a `char` is a byte. A load or store outside `command_buf` and an access through a
`NULL` screen return `none`, as does `panic`.
-/

namespace Osproj

def int32 (v : Int) : Int := (v + 0x80000000) % 0x100000000 - 0x80000000

structure TextBuffer where
  addr : Nat
  fits : addr + 4000 ≤ 0x40000000

namespace Tty

def VGA_ROW : Int := 24
def VGA_COLUMN : Int := 80
def CMD_BUF_SZ : Nat := 32
def DEFAULT_FORE : BitVec 8 := 7
def DEFAULT_BACK : BitVec 8 := 0
def MULTIBOOT_FRAMEBUFFER_TYPE_EGA_TEXT : Nat := 2

def SCREEN_SZ : Nat := 4000

def jmptable : List (BitVec 8) := [0, 4, 2, 6, 1, 5, 3, 7, 8, 12, 10, 14, 9, 13, 11, 15]

end Tty

/--
The variables of the terminal. `crtc` is the position last sent to the cursor registers.
-/
structure Tty where
  ttys : Nat → Nat
  xs : Nat → Int
  ys : Nat → Int
  fores : Nat → BitVec 32
  backs : Nat → BitVec 32
  currTty : Nat
  VRAM : Nat
  x : Int
  y : Int
  fore : BitVec 8
  back : BitVec 8
  commandSequenceStatus : Nat
  commandBuf : List (BitVec 8)
  bufPtr : Nat
  crtc : Nat
  mem : Memory

namespace Tty

def ASSEMB_COLOUR (s : Tty) : BitVec 8 := (s.back <<< 4) + s.fore

/--
The address of the byte `pos` of the text buffer.
-/
def vram (s : Tty) (pos : Int) : Nat := ((s.VRAM + pos) % 0x100000000).toNat

def atoi.scan (dec : List (BitVec 8)) (terminator : BitVec 8) : Nat → Option Nat
  | 0 => some 0
  | n + 1 =>
    match dec with
    | [] => none
    | c :: dec => if c = terminator then some 0 else (scan dec terminator n).map (· + 1)

def atoi.sum (dec : List (BitVec 8)) : Nat → Int → Int → Option Int
  | 0, _, result => some result
  | j + 1, base, result => do
    let c ← dec[j]?
    sum dec j (int32 (base * 10)) (int32 (result + int32 (base * (c.toInt - 48))))

/--
`dec` is what is left of `command_buf` from the place the source's pointer points to.
-/
def atoi (dec : List (BitVec 8)) (terminator : BitVec 8) : Option Int := do
  let i ← atoi.scan dec terminator 12
  if i > 10 then
    return -1
  else
    atoi.sum dec i 1 0

def atoiComma.find (dec : List (BitVec 8)) : Nat → Option (Option Nat)
  | 0 => some none
  | n + 1 =>
    match dec with
    | [] => none
    | c :: dec => if c = 59 then some (some 0) else (find dec n).map (Option.map (· + 1))

def atoiComma (dec : List (BitVec 8)) : Option (Int × Int) := do
  match ← atoiComma.find dec CMD_BUF_SZ with
  | some i =>
    let result ← atoi dec 59
    let second ← atoi (dec.drop (i + 1)) 0
    return (result, second)
  | none =>
    let result ← atoi dec 0
    return (result, -1)

def isNumberOrComma (c : BitVec 8) : Bool :=
  (48 ≤ c.toInt && c.toInt ≤ 57) || c.toInt == 59

def moveCursor (s : Tty) (x y : Int) : Tty :=
  let x := x % 0x100000000
  let y := y % 0x100000000
  if x ≥ VGA_COLUMN + 1 ∨ y ≥ VGA_ROW + 1 then
    s
  else
    { s with crtc := ((y * VGA_COLUMN + x) % 0x10000).toNat }

def stepCursor (s : Tty) : Tty :=
  let s :=
    if s.x = 79 then
      { s with x := 0, y := if s.y ≠ VGA_ROW then int32 (s.y + 1) else s.y }
    else
      { s with x := int32 (s.x + 1) }
  s.moveCursor s.x s.y

def blankCells (colour : BitVec 8) (m : Memory) (dst : Nat) : Nat → Memory
  | 0 => m
  | n + 1 => blankCells colour ((m.store dst 0).store (dst + 1) colour) (dst + 2) n

def scrup (s : Tty) : Tty :=
  let mem := s.mem.copy s.VRAM (s.VRAM + 160) 3840
  { s with mem := blankCells s.ASSEMB_COLOUR mem (s.VRAM + 3840) 80 }

def linebreak (s : Tty) : Tty :=
  let s := { s with x := 0 }
  let s := if s.y = VGA_ROW then s.scrup else { s with y := int32 (s.y + 1) }
  s.moveCursor s.x s.y

def cls (s : Tty) : Tty :=
  let s := { s with mem := blankCells s.ASSEMB_COLOUR s.mem s.VRAM 2000, x := 0, y := 0 }
  s.moveCursor 0 0

def putcell (s : Tty) (c : BitVec 8) : Tty :=
  let pos := int32 (int32 (int32 (s.y * VGA_COLUMN) + s.x) * 2)
  let mem := (s.mem.store (s.vram pos) c).store (s.vram (pos + 1)) s.ASSEMB_COLOUR
  let s := { s with mem := mem }
  if s.y = VGA_ROW ∧ s.x = 79 then
    let s := { s with x := 0 }.scrup
    s.moveCursor s.x s.y
  else
    s.stepCursor

def putchar (s : Tty) (c : BitVec 8) : Tty :=
  match c.toNat with
  | 0x07 => s -- '\a'
  | 0x08 => -- '\b'
    if s.x = 0 then
      if s.y = 0 then
        s
      else
        let s := { s with y := int32 (s.y - 1), x := 79 }
        s.moveCursor s.x s.y
    else
      let s := { s with x := int32 (s.x - 1) }
      s.moveCursor s.x s.y
  | 0x0C => -- '\f'
    let s := { s.cls with x := 0, y := 0 }
    s.moveCursor s.x s.y
  | 0x0A => s.linebreak -- '\n'
  | 0x0D => -- '\r'
    let s := { s with x := 0 }
    s.moveCursor s.x s.y
  | 0x09 => (((s.putcell 0).putcell 0).putcell 0).putcell 0 -- '\t'
  | 0x0B => -- '\v'
    if s.y = VGA_ROW then
      s.scrup
    else
      let s := { s with y := int32 (s.y + 1) }
      s.moveCursor s.x s.y
  | _ => s.putcell c

def clearCells (s : Tty) (pos cells : Int) : Tty :=
  { s with
    mem := s.mem.fill (s.vram (int32 (pos * 2))) 0 ((int32 (cells * 2)) % 0x100000000).toNat }

def clearFromCursor2End (s : Tty) : Tty :=
  s.clearCells (s.y * VGA_COLUMN + s.x) (VGA_COLUMN * (VGA_ROW + 1) - (s.y * VGA_COLUMN + s.x))

def clearFromBeginning2Cursor (s : Tty) : Tty :=
  s.clearCells 0 (s.y * VGA_COLUMN + s.x)

def clearLineFromCursor2End (s : Tty) : Tty :=
  s.clearCells (s.y * VGA_COLUMN + s.x) (VGA_COLUMN - s.x)

def clearLineFromBeginning2Cursor (s : Tty) : Tty :=
  s.clearCells (s.y * VGA_COLUMN) s.x

def clearLine (s : Tty) : Tty :=
  s.clearCells (s.y * VGA_COLUMN) VGA_COLUMN

def up (s : Tty) (num : Int) : Tty :=
  if s.y < num then { s with y := 0 } else { s with y := int32 (s.y - num) }

def down (s : Tty) (num : Int) : Tty :=
  let y := int32 (s.y + num)
  { s with y := if y > VGA_ROW then VGA_ROW else y }

def position (s : Tty) (num second : Int) : Tty :=
  if second ≠ -1 then
    let x := if num < 0 then 0 else num
    let x := if x > VGA_COLUMN then VGA_COLUMN else x
    let y := if second < 0 then 0 else second
    let y := if y > VGA_ROW then VGA_ROW else y
    { s with x := x, y := y }
  else
    s

def colour (s : Tty) (num second : Int) : Tty :=
  let s := if num = 0 then { s with fore := DEFAULT_FORE, back := DEFAULT_BACK } else s
  let s := if num ≥ 30 ∧ num ≤ 37 then { s with fore := jmp (num - 30) } else s
  let s :=
    if num = 1 ∧ second ≥ 30 ∧ second ≤ 37 then { s with fore := jmp (second - 30 + 8) } else s
  let s := if num ≥ 40 ∧ num ≤ 47 then { s with back := jmp (num - 40) } else s
  if num = 1 ∧ second ≥ 40 ∧ second ≤ 47 then { s with back := jmp (second - 40 + 8) } else s
where
  jmp (i : Int) : BitVec 8 := jmptable.getD i.toNat 0

def command (s : Tty) (data : BitVec 8) (num second : Int) : Tty :=
  match Char.ofNat data.toNat with
  | 'A' => s.up num
  | 'B' => s.down num
  | 'C' =>
    let x := int32 (s.x + num)
    { s with x := if x > VGA_COLUMN then VGA_COLUMN else x }
  | 'D' => if s.x < num then { s with x := 0 } else { s with x := int32 (s.x - num) }
  | 'E' => { s with x := 0 }.down num
  | 'F' => { s with x := 0 }.up num
  | 'G' =>
    let x := if num < 0 then 0 else num
    { s with x := if x > VGA_COLUMN then VGA_COLUMN else x }
  | 'H' => { s with x := 0, y := 0 }.position num second
  | 'f' => s.position num second
  | 'J' =>
    if num = 0 then s.clearFromCursor2End
    else if num = 1 then s.clearFromBeginning2Cursor
    else if num = 2 then s.cls
    else s
  | 'K' =>
    if num = 0 then s.clearLineFromCursor2End
    else if num = 1 then s.clearLineFromBeginning2Cursor
    else if num = 2 then s.clearLine
    else s
  | 'S' => s.cls
  | 'T' => s.cls
  | 'm' => s.colour num second
  | _ => s

def terminateSequence (s : Tty) : Tty :=
  { s with
    commandSequenceStatus := 0
    bufPtr := 0
    commandBuf := List.replicate CMD_BUF_SZ 0 }

/--
Writes to the selecting minor: `data` is the terminal to switch to, `page` is what `palloc` returns
if that has no screen yet.
-/
def switchTty (s : Tty) (page : Nat) (data : BitVec 8) : Option Tty :=
  if data = 0 ∨ data.toInt = s.currTty then
    some s
  else if data.toInt < 0 ∨ s.ttys s.currTty = 0 ∨ s.ttys data.toNat = 0 ∧ page = 0 then
    none
  else
    let curr := s.currTty
    let t := data.toNat
    let s :=
      { s with
        mem := s.mem.copy (s.ttys curr) s.VRAM SCREEN_SZ
        xs := fun i => if i = curr then s.x else s.xs i
        ys := fun i => if i = curr then s.y else s.ys i
        fores := fun i => if i = curr then s.fore.signExtend 32 else s.fores i
        backs := fun i => if i = curr then s.back.signExtend 32 else s.backs i }
    let s :=
      if s.ttys t = 0 then
        { s with
          ttys := fun i => if i = t then page else s.ttys i
          mem := s.mem.fill page 0 SCREEN_SZ }
      else
        s
    some
      { s with
        currTty := t
        x := s.xs t
        y := s.ys t
        fore := (s.fores t).setWidth 8
        back := (s.backs t).setWidth 8
        mem := s.mem.copy s.VRAM (s.ttys t) SCREEN_SZ }

def ttyWrite (s : Tty) (page : Nat) (minor : BitVec 16) (data : BitVec 8) : Option Tty :=
  if minor = 0 then
    s.switchTty page data
  else if data = 0x1B then -- ESC
    some { s with commandSequenceStatus := 1 }
  else if data = 0x5B ∧ s.commandSequenceStatus = 1 then -- '['
    some { s with commandSequenceStatus := 2 }
  else if s.commandSequenceStatus = 2 then
    if isNumberOrComma data then
      if s.bufPtr < s.commandBuf.length then
        -- the test for a full buffer comes after the return and never runs
        some { s with commandBuf := s.commandBuf.set s.bufPtr data, bufPtr := s.bufPtr + 1 }
      else
        none
    else do
      let (num, second) ← atoiComma s.commandBuf
      return (s.command data num second).terminateSequence
  else
    some (s.putchar data).terminateSequence

def boot (mem : Memory) : Tty where
  ttys := fun _ => 0
  xs := fun _ => 0
  ys := fun _ => 0
  fores := fun _ => 0
  backs := fun _ => 0
  currTty := 1
  VRAM := 0
  x := 0
  y := 0
  fore := 0
  back := 0
  commandSequenceStatus := 0
  commandBuf := List.replicate CMD_BUF_SZ 0
  bufPtr := 0
  crtc := 0
  mem := mem

def ttyPreinit (s : Tty) (framebuffer : TextBuffer) (framebufferType : Nat) : Option Tty :=
  let s :=
    { s with VRAM := framebuffer.addr + 0xC0000000, fore := DEFAULT_FORE, back := DEFAULT_BACK }
  if framebufferType ≠ MULTIBOOT_FRAMEBUFFER_TYPE_EGA_TEXT then
    none
  else
    some s.cls

/--
`page` is the screen of terminal 1. The `memset` calls fill every byte of an `int`.
-/
def ttyInit (s : Tty) (page : Nat) : Tty :=
  { s with
    currTty := 1
    ttys := fun i => if i = 1 then page else s.ttys i
    fores := fun _ => 0x07070707
    backs := fun _ => 0 }

end Tty
end Osproj
