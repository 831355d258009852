import Dsip.Events.SnmpV3

/-!
# The TypeScript parser of SNMPv3 messages

It splits every constructed element into all the elements in it before it reads
any. An element that the source would not find is none here.
-/

namespace Dsip.Events.Ts

open Dsip.Lib

/-- `tlv`: the element at a position, within a limit. -/
def tlv (b : Bytes) (pos limit : Nat) : Option Tlv := do
  guard (pos < limit)
  let tag ← b[pos]?
  guard (tag &&& 0x1F ≠ 0x1F)
  guard (pos + 1 < limit)
  let first ← b[pos + 1]?
  let pos := pos + 2
  if first < 0x80 then
    guard (pos + first.toNat ≤ limit)
    return ⟨tag, pos, pos + first.toNat⟩
  else
    let n := (first &&& 0x7F).toNat
    guard (¬ (n < 1 ∨ 4 < n))
    guard (pos + n ≤ limit)
    let len := beNat (slice b pos (pos + n))
    guard (pos + n + len ≤ limit)
    return ⟨tag, pos + n, pos + n + len⟩

/-- The elements from a position on. Each takes two bytes at least, so that
`fuel` is not used up where it is the bytes there are. -/
def childrenFrom (b : Bytes) (stop : Nat) : Nat → Nat → Option (List Tlv)
  | 0, p => if p < stop then none else some []
  | fuel + 1, p =>
    if p < stop then do
      let c ← tlv b p stop
      let rest ← childrenFrom b stop fuel c.stop
      return c :: rest
    else some []

def children (b : Bytes) (t : Tlv) : Option (List Tlv) := childrenFrom b t.stop (t.stop - t.start) t.start

/-- `seq`: a SEQUENCE of exactly `n` elements. -/
def seq (b : Bytes) (t : Tlv) (n : Nat) : Option (List Tlv) := do
  guard (t.tag = 0x30)
  let c ← children b t
  guard (c.length = n)
  return c

def intOf (b : Bytes) (t : Tlv) : Option Int := do
  guard (t.tag = 0x02)
  let n := t.stop - t.start
  guard (¬ (n < 1 ∨ 8 < n))
  return beInt (t.content b)

def intIn (b : Bytes) (t : Tlv) (lo hi : Int) : Option Int := do
  let v ← intOf b t
  guard (¬ (v < lo ∨ hi < v))
  return v

def octets (b : Bytes) (t : Tlv) : Option Bytes := do
  guard (t.tag = 0x04)
  return t.content b

/-- The numbers of an OID; `more` says that the last byte read goes on. -/
def oidSubs (v : Nat) (more : Bool) : Bytes → Option (List Nat)
  | [] => if more then none else some []
  | byte :: rest =>
    let v := v * 128 + (byte &&& 0x7F).toNat
    if 2 ^ 64 - 1 < v then none
    else if byte &&& 0x80 ≠ 0 then oidSubs v true rest
    else (oidSubs 0 false rest).map (v :: ·)

def oidOf (c : Bytes) : Option String := do
  guard (c.length ≠ 0)
  return dotted (← oidSubs 0 false c)

def value (b : Bytes) (t : Tlv) : Option Value :=
  let c := t.content b
  if t.tag = 0x02 then (intIn b t (-2 ^ 31) max31).map fun v => ⟨"Integer32", toString v⟩
  else if t.tag = 0x04 then some ⟨"OCTET STRING", octetText c⟩
  else if t.tag = 0x05 then if c.length ≠ 0 then none else some ⟨"NULL", ""⟩
  else if t.tag = 0x06 then (oidOf c).map (⟨"OBJECT IDENTIFIER", ·⟩)
  else if t.tag = 0x40 then if c.length ≠ 4 then none else some ⟨"IpAddress", dottedBytes c⟩
  else if t.tag = 0x44 then some ⟨"Opaque", hex c⟩
  else
    match unsignedType t.tag with
    | none => none
    | some name => do
        guard (¬ (c.length < 1 ∨ 9 < c.length ∨ c.length = 9 ∧ c.headD 0 ≠ 0))
        let v := beNat c
        guard (¬ (t.tag ≠ 0x46 ∧ 2 ^ 32 - 1 < v))
        return ⟨name, toString v⟩

structure Pdu where
  tag : UInt8
  contextEngineId : Bytes
  requestId : Int
  varbinds : List VarBind
  deriving DecidableEq, Repr

def varBind (b : Bytes) (t : Tlv) : Option VarBind := do
  let [o, v] ← seq b t 2 | none
  guard (o.tag = 0x06)
  let oid ← oidOf (o.content b)
  let value ← value b v
  return ⟨oid, value⟩

def scopedPdu (b : Bytes) (outer : Tlv) : Option Pdu := do
  let [ctxEngine, ctxName, pdu] ← seq b outer 3 | none
  let contextEngineId ← octets b ctxEngine
  let _ ← octets b ctxName
  let [id, status, index, list] ← children b pdu | none
  let requestId ← intIn b id (-2 ^ 31) max31
  let _ ← intOf b status
  let _ ← intOf b index
  guard (list.tag = 0x30)
  let varbinds ← (← children b list).mapM (varBind b)
  return ⟨pdu.tag, contextEngineId, requestId, varbinds⟩

/-- `parseMessage`'s result. -/
structure Message where
  model : Int
  auth : Bool
  priv : Bool
  reportable : Bool
  engineId : Bytes
  boots : Int
  time : Int
  userName : Bytes
  authParams : Tlv
  privParams : Bytes
  pdu : Option Pdu
  encrypted : Option Bytes
  deriving DecidableEq, Repr

/-- What `parseMessage` reads first: the flags, the security model, and where the
security parameters and the data are. -/
structure Header where
  auth : Bool
  priv : Bool
  reportable : Bool
  model : Int
  spT : Tlv
  data : Tlv
  deriving DecidableEq, Repr

def header (b : Bytes) : Option Header := do
  let outer ← tlv b 0 b.length
  guard (outer.stop = b.length)
  let [ver, global, spT, data] ← seq b outer 4 | none
  guard ((← intOf b ver) = 3)
  let [id, max, flagsT, modelT] ← seq b global 4 | none
  let _ ← intIn b id 0 max31
  let _ ← intIn b max 484 max31
  let [flags] ← octets b flagsT | none
  let auth : Bool := flags &&& 1 ≠ 0
  let priv : Bool := flags &&& 2 ≠ 0
  let reportable : Bool := flags &&& 4 ≠ 0
  guard ¬ (priv ∧ ¬ auth)
  let model ← intIn b modelT 0 max31
  let _ ← octets b spT
  return ⟨auth, priv, reportable, model, spT, data⟩

/-- The security parameters of a message. -/
structure Security where
  engineId : Bytes
  boots : Int
  time : Int
  userName : Bytes
  authParams : Tlv
  privParams : Bytes
  deriving DecidableEq, Repr

def security (b : Bytes) (spT : Tlv) : Option Security := do
  let spInner ← tlv b spT.start spT.stop
  guard (spInner.stop = spT.stop)
  let [eid, bootsT, timeT, userT, authT, privT] ← seq b spInner 6 | none
  let engineId ← octets b eid
  guard ¬ (engineId.length ≠ 0 ∧ (engineId.length < 5 ∨ 32 < engineId.length))
  let boots ← intIn b bootsT 0 max31
  let time ← intIn b timeT 0 max31
  let userName ← octets b userT
  guard (userName.length ≤ 32)
  let _ ← octets b authT
  let privParams ← octets b privT
  return ⟨engineId, boots, time, userName, authT, privParams⟩

/-- The PDU of a message, or what is encrypted of it. -/
def payload (b : Bytes) (priv : Bool) (data : Tlv) : Option (Option Pdu × Option Bytes) :=
  if priv then (octets b data).map fun data => (none, some data)
  else (scopedPdu b data).map fun pdu => (some pdu, none)

def parseMessage (b : Bytes) (tsm : Bool := false) : Option Message := do
  let h ← header b
  if tsm then
    let pdu ← scopedPdu b h.data
    return {
      model := h.model, auth := h.auth, priv := h.priv, reportable := h.reportable
      engineId := [], boots := 0, time := 0, userName := []
      authParams := h.spT, privParams := [], pdu := some pdu, encrypted := none }
  else
    let s ← security b h.spT
    let (pdu, encrypted) ← payload b h.priv h.data
    return {
      model := h.model, auth := h.auth, priv := h.priv, reportable := h.reportable
      engineId := s.engineId, boots := s.boots, time := s.time, userName := s.userName
      authParams := s.authParams, privParams := s.privParams, pdu := pdu, encrypted := encrypted }

end Dsip.Events.Ts
