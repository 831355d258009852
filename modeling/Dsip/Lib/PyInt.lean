import Mathlib.Data.String.Basic

/-!
# `int(text, 16)` of Python

What the conversion accepts beyond hexadecimal digits: white space around the
number, a sign, a `0x` prefix, single underscores between digits, and, in a text
that is not all ASCII, the decimal digits and the white space of other scripts.
-/

namespace Dsip.Lib.PyInt

/-- ASCII white space, as the conversion skips it at both ends. -/
def isSpace (c : Char) : Bool := c = ' ' || (9 ≤ c.toNat && c.toNat ≤ 13)

/-- White space outside ASCII. -/
def wideSpaces : List Nat :=
  [0x85, 0xa0, 0x1680, 0x2000, 0x2001, 0x2002, 0x2003, 0x2004, 0x2005, 0x2006, 0x2007, 0x2008,
    0x2009, 0x200a, 0x2028, 0x2029, 0x202f, 0x205f, 0x3000]

/-- The code points of the zeros outside ASCII whose digits run in tens
(category Nd of Unicode 14). -/
def wideZeros : List Nat :=
  [0x660, 0x6f0, 0x7c0, 0x966, 0x9e6, 0xa66, 0xae6, 0xb66, 0xbe6, 0xc66, 0xce6, 0xd66, 0xde6,
    0xe50, 0xed0, 0xf20, 0x1040, 0x1090, 0x17e0, 0x1810, 0x1946, 0x19d0, 0x1a80, 0x1a90, 0x1b50,
    0x1bb0, 0x1c40, 0x1c50, 0xa620, 0xa8d0, 0xa900, 0xa9d0, 0xa9f0, 0xaa50, 0xabf0, 0xff10,
    0x104a0, 0x10d30, 0x11066, 0x110f0, 0x11136, 0x111d0, 0x112f0, 0x11450, 0x114d0, 0x11650,
    0x116c0, 0x11730, 0x118e0, 0x11950, 0x11c50, 0x11d50, 0x11da0, 0x16a60, 0x16ac0, 0x16b50,
    0x1d7ce, 0x1d7d8, 0x1d7e2, 0x1d7ec, 0x1d7f6, 0x1e140, 0x1e2f0, 0x1e950, 0x1fbf0]

/-- The ASCII character a character stands for; `?` for one that is neither a
digit nor white space, which no number contains. -/
def toAscii (c : Char) : Char :=
  if c.toNat < 127 then c
  else if c.toNat ∈ wideSpaces then ' '
  else
    match wideZeros.find? fun base => base ≤ c.toNat && c.toNat < base + 10 with
    | some base => Char.ofNat ('0'.toNat + (c.toNat - base))
    | none => '?'

def hexDigit (c : Char) : Option Nat :=
  if '0' ≤ c ∧ c ≤ '9' then some (c.toNat - '0'.toNat)
  else if 'a' ≤ c ∧ c ≤ 'f' then some (c.toNat - 'a'.toNat + 10)
  else if 'A' ≤ c ∧ c ≤ 'F' then some (c.toNat - 'A'.toNat + 10)
  else none

/-- Digits with single underscores between them; `afterDigit` says whether the
character before was a digit. -/
def digits (acc : Nat) (afterDigit : Bool) : List Char → Option Nat
  | [] => if afterDigit then some acc else none
  | c :: cs =>
    if c = '_' then
      if afterDigit then digits acc false cs else none
    else
      match hexDigit c with
      | some d => digits (acc * 16 + d) true cs
      | none => none

/-- The number after its sign: the prefix may be followed by one underscore. -/
def magnitude : List Char → Option Nat
  | '0' :: x :: cs =>
    if x = 'x' ∨ x = 'X' then
      match cs with
      | '_' :: cs => digits 0 false cs
      | cs => digits 0 false cs
    else digits 0 false ('0' :: x :: cs)
  | cs => digits 0 false cs

def signed : List Char → Option Int
  | '+' :: cs => (magnitude cs).map fun n => (n : Int)
  | '-' :: cs => (magnitude cs).map fun n => -(n : Int)
  | cs => (magnitude cs).map fun n => (n : Int)

/-- `int(text, 16)`; `none` is the `ValueError`. -/
def ofHex (text : List Char) : Option Int :=
  let ascii := if text.all fun c => c.toNat < 128 then text else text.map toAscii
  signed (((ascii.dropWhile isSpace).reverse.dropWhile isSpace).reverse)

end Dsip.Lib.PyInt
