import Dsip.Lib.Encodings

/-!
# BER as SNMP reads it

One-byte tags and definite lengths. A reader goes over the content of an element
and reads the elements in it one after the other.
-/

namespace Dsip.Events

open Dsip.Lib

abbrev Bytes := List UInt8

/-- `b[start:stop]`. -/
def slice (b : Bytes) (start stop : Nat) : Bytes := (b.drop start).take (stop - start)

def beNat (c : Bytes) : Nat := c.foldl (fun n x => n * 256 + x.toNat) 0

/-- Big-endian, in two's complement. -/
def beInt (c : Bytes) : Int :=
  if c.headD 0 &&& 0x80 = 0 then beNat c else beNat c - 2 ^ (8 * c.length)

def hexDigit (n : Nat) : Char := "0123456789abcdef".toList.getD n '0'

def hex (c : Bytes) : String :=
  String.ofList (c.flatMap fun x => [hexDigit (x.toNat / 16), hexDigit (x.toNat % 16)])

def decodeUtf8 (c : Bytes) : Option String := (utf8Decode (c.map (·.toNat))).map String.ofList

/-! ## Elements -/

/-- An element: its tag, and where its content starts and stops. -/
structure Tlv where
  tag : UInt8
  start : Nat
  stop : Nat
  deriving DecidableEq, Repr

/-- The content of an element. -/
def Tlv.content (b : Bytes) (t : Tlv) : Bytes := slice b t.start t.stop

/-- `tlv`: the element at a position, within a limit. -/
def tlv (b : Bytes) (pos stop : Nat) : Option Tlv := do
  guard (pos + 2 ≤ stop)
  let tag ← b[pos]?
  guard (tag &&& 0x1F ≠ 0x1F)
  let first ← b[pos + 1]?
  if first < 0x80 then
    guard (pos + 2 + first.toNat ≤ stop)
    return ⟨tag, pos + 2, pos + 2 + first.toNat⟩
  else
    let k := (first &&& 0x7F).toNat
    guard (k ≠ 0 ∧ k ≤ 4 ∧ pos + 2 + k ≤ stop)
    let n := beNat (slice b (pos + 2) (pos + 2 + k))
    guard (pos + 2 + k + n ≤ stop)
    return ⟨tag, pos + 2 + k, pos + 2 + k + n⟩

/-- `R`: a reader at a position, within a limit. -/
structure R where
  pos : Nat
  stop : Nat
  deriving DecidableEq, Repr

/-- A reader of an element's content. -/
def Tlv.reader (t : Tlv) : R := ⟨t.start, t.stop⟩

def R.done (r : R) : Bool := r.stop ≤ r.pos

def R.next (b : Bytes) (r : R) : Option (Tlv × R) :=
  (tlv b r.pos r.stop).map fun t => (t, { r with pos := t.stop })

def R.expect (b : Bytes) (tag : UInt8) (r : R) : Option (Tlv × R) := do
  let (t, r) ← r.next b
  guard (t.tag = tag)
  return (t, r)

/-! ## Values -/

def ranged (v lo hi : Int) : Option Int := if lo ≤ v ∧ v ≤ hi then some v else none

def max31 : Int := 2 ^ 31 - 1

def berInt (c : Bytes) : Option Int :=
  if 1 ≤ c.length ∧ c.length ≤ 8 then some (beInt c) else none

def berUint (c : Bytes) : Option Nat :=
  if 1 ≤ c.length ∧ c.length ≤ 9 ∧ ¬ (c.length = 9 ∧ c.headD 0 ≠ 0) then some (beNat c) else none

/-- The numbers of an OID, the first two of them in one; `acc` is the one being
read. -/
def oidSubs (acc : Nat) : Bytes → Option (List Nat)
  | [] => some []
  | x :: rest =>
    let acc := acc * 128 + (x &&& 0x7F).toNat
    if 2 ^ 64 - 1 < acc then none
    else if x &&& 0x80 = 0 then (oidSubs 0 rest).map (acc :: ·)
    else oidSubs acc rest

/-- The dotted form of an OID. -/
def dotted : List Nat → String
  | [] => ""
  | x :: rest =>
    let head := if x < 40 then [0, x] else if x < 80 then [1, x - 40] else [2, x - 80]
    ".".intercalate ((head ++ rest).map toString)

def berOid (c : Bytes) : Option String :=
  match c.getLast? with
  | none => none
  | some last => if last &&& 0x80 ≠ 0 then none else (oidSubs 0 c).map dotted

def isControl (c : Char) : Bool := c.toNat ≤ 0x1F ∨ 0x7F ≤ c.toNat ∧ c.toNat ≤ 0x9F

/-- The text of an octet string, or its hex. -/
def octetText (c : Bytes) : String :=
  match (decodeUtf8 c).filter fun s => !s.toList.any isControl with
  | some s => s
  | none => hex c

structure Value where
  type : String
  value : String
  deriving DecidableEq, Repr

def unsignedType (tag : UInt8) : Option String :=
  if tag = 0x41 then some "Counter32"
  else if tag = 0x42 then some "Gauge32"
  else if tag = 0x43 then some "TimeTicks"
  else if tag = 0x46 then some "Counter64"
  else none

def dottedBytes (c : Bytes) : String := ".".intercalate (c.map fun x => toString x.toNat)

def berValue (tag : UInt8) (c : Bytes) : Option Value :=
  if tag = 0x02 then do
    let v ← ranged (← berInt c) (-2 ^ 31) max31
    return ⟨"Integer32", toString v⟩
  else if tag = 0x04 then some ⟨"OCTET STRING", octetText c⟩
  else if tag = 0x05 then if c = [] then some ⟨"NULL", ""⟩ else none
  else if tag = 0x06 then (berOid c).map (⟨"OBJECT IDENTIFIER", ·⟩)
  else if tag = 0x40 then if c.length = 4 then some ⟨"IpAddress", dottedBytes c⟩ else none
  else
    match unsignedType tag with
    | some name => do
        let v ← berUint c
        guard (tag = 0x46 ∨ v ≤ 2 ^ 32 - 1)
        return ⟨name, toString v⟩
    | none => if tag = 0x44 then some ⟨"Opaque", hex c⟩ else none

end Dsip.Events
