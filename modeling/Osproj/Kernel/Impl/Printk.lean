import Mathlib.Data.List.TakeWhile

/-!
This module contains `printk`: it turns a format and its arguments into the bytes that are written to the terminal.
A format is the list of its bytes up to and with the NUL. A read behind it, an argument that was not passed and a
store behind a buffer return `none`.
-/

namespace Osproj

/--
A string in memory: the bytes before its NUL.
-/
structure CString where
  chars : List (BitVec 8)
  noNul : 0 ∉ chars

namespace CString

def bytes (s : CString) : List (BitVec 8) := s.chars ++ [0]

def of (bs : List (BitVec 8)) : CString where
  chars := bs.takeWhile (· ≠ 0)
  noNul h := by simpa using List.mem_takeWhile_imp h

def lit (s : String) : CString := of (s.toList.map fun c => BitVec.ofNat 8 c.toNat)

end CString

namespace Printk

/--
A string is printed by a call of its own, which was passed no arguments: `junk` is what it finds in their place.
-/
inductive Arg
  | int (v : BitVec 32)
  | str (s : CString) (junk : List Arg)

def IS_NUM (num : BitVec 8) : Bool := 48 ≤ num.toInt && num.toInt ≤ 57

def puthex (hex : BitVec 8) : List (BitVec 8) :=
  if hex > 0xF then
    []
  else if hex < 0xA then
    [hex + 48]
  else
    [hex - 0xA + 97]

def putheX (hex : BitVec 8) : List (BitVec 8) :=
  if hex > 0xF then
    []
  else if hex < 0xA then
    [hex + 48]
  else
    [hex - 0xA + 65]

def topDigit (val : BitVec 32) : BitVec 8 := ((val &&& 0xF0000000) >>> 28).setWidth 8

structure HexScan where
  first : Nat
  digcount : Nat
  startdig : Nat
  val : BitVec 32

namespace hex

def scan (s : HexScan) (i : Nat) : HexScan :=
  let s := if topDigit s.val ≠ 0 ∧ s.first = 0 then { s with first := 1, startdig := i } else s
  let s := if s.first = 1 then { s with digcount := s.digcount + 1 } else s
  { s with val := s.val <<< 4 }

def zeros (put : BitVec 8 → List (BitVec 8)) : Nat → List (BitVec 8)
  | 0 => []
  | padding + 1 => put 0 ++ zeros put padding

def digits (put : BitVec 8 → List (BitVec 8)) (startdig : Nat) : List Nat → BitVec 32 → List (BitVec 8)
  | [], _ => []
  | i :: is, val =>
    (if i ≥ startdig then put (topDigit val &&& 0xF) else []) ++ digits put startdig is (val <<< 4)

end hex

/--
`x` and `X` differ in the function that prints a digit.
-/
def hex (put : BitVec 8 → List (BitVec 8)) (val : BitVec 32) (padding : Nat) : List (BitVec 8) :=
  if val = 0 then
    if padding = 0 then
      put 0
    else
      hex.zeros put padding
  else
    let s := (List.range 8).foldl hex.scan { first := 0, digcount := 0, startdig := 0, val }
    (if padding > s.digcount then hex.zeros put (padding - s.digcount) else [])
      ++ hex.digits put s.startdig (List.range 8) val

def x (val : BitVec 32) (padding : Nat) : List (BitVec 8) := hex puthex val padding

def X (val : BitVec 32) (padding : Nat) : List (BitVec 8) := hex putheX val padding

def p.loop : Nat → BitVec 32 → List (BitVec 8)
  | 0, _ => []
  | n + 1, val => puthex (topDigit val) ++ loop n (val <<< 4)

def p (val : BitVec 32) : List (BitVec 8) := p.loop 8 val

/--
The loop of `d` and of `u`, from the least significant digit on. `left` is the number of places that are free
in `buf`.
-/
def decimal (mod div : BitVec 32 → BitVec 32) (left : Nat) (val : BitVec 32) (buf : List (BitVec 8))
    : Option (List (BitVec 8)) :=
  if val = 0 then
    some buf
  else
    match left with
    | 0 => none
    | left + 1 => decimal mod div left (div val) (buf ++ [(mod val).setWidth 8 + 48])

/--
`-val` is undefined for the least number. It wraps here, which is one outcome among others.
-/
def d (val : BitVec 32) : Option (List (BitVec 8)) :=
  let loop (val : BitVec 32) := decimal (·.srem 10) (·.sdiv 10) 10 val []
  if val = 0 then
    some [48]
  else if val.toInt < 0 then do
    let buf ← loop (-val)
    return 45 :: buf.reverse
  else do
    let buf ← loop val
    return buf.reverse

def u (val : BitVec 32) : Option (List (BitVec 8)) :=
  if val = 0 then
    some [48]
  else do
    let buf ← decimal (· % 10) (· / 10) 10 val []
    return buf.reverse

inductive Conversion
  | number (print : BitVec 32 → Option (List (BitVec 8)))
  | hex
  | string
  | percent
  | unknown

def conversion (c : BitVec 8) : Conversion :=
  match Char.ofNat c.toNat with
  | 'd' => .number d
  | 'i' => .number d
  | 'u' => .number u
  | 's' => .string
  | 'x' => .hex
  | 'X' => .number (fun v => some (X v 0))
  | 'c' => .number (fun v => some [v.setWidth 8])
  | 'p' => .number (fun v => some (p v))
  | '%' => .percent
  | _ => .unknown

abbrev Printed := Option (List (BitVec 8) × List Arg)

def putchars (out : List (BitVec 8)) (rest : Printed) : Printed := rest.map fun r => (out ++ r.1, r.2)

/--
The result is what was printed and the arguments that are left.
-/
def printk (fmt : List (BitVec 8)) (args : List Arg) : Printed :=
  match fmt with
  | [] => none
  | c :: fmt =>
    if c = 0 then
      some ([], args)
    else if c = 0x25 then -- '%'
      match fmt with
      | [] => none
      | c :: fmt =>
        match conversion c with
        | .number print =>
          match args with
          | .int v :: args => (print v).bind fun out => putchars out (printk fmt args)
          | _ => none
        | .hex =>
          match fmt, args with
          | w :: fmt, .int v :: args =>
            if IS_NUM w then
              putchars (x v (w - 48).toNat) (printk fmt args)
            else
              putchars (x v 0) (printk (w :: fmt) args)
          | _, _ => none
        | .string =>
          match args with
          | .str s junk :: args => (printk s.bytes junk).bind fun out => putchars out.1 (printk fmt args)
          | _ => none
        | .percent => putchars [0x25] (printk fmt args)
        | .unknown => putchars [c] (printk fmt args)
    else
      putchars [c] (printk fmt args)
termination_by (sizeOf args, fmt.length)

/--
`print_uppercase` of `cpu.c`. It prints one letter at a time.
-/
def printUppercase : List (BitVec 8) → Option (List (BitVec 8))
  | [] => none
  | c :: str =>
    if c = 0 then
      some []
    else do
      let upper := if 97 ≤ c.toInt ∧ c.toInt ≤ 122 then c - 32 else c
      let (out, _) ← printk [0x25, 0x73, 0] [.str (.of [upper, 0]) []]
      let rest ← printUppercase str
      return out ++ rest

end Printk
end Osproj
