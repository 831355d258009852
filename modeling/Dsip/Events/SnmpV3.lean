import Dsip.Events.Ber

/-!
# SNMPv3 messages

`parse_v3` and `parse_tsm`: the structure of a message, or none. Both read every
element in turn and check at its end that a constructed one holds no more.
-/

namespace Dsip.Events

structure VarBind where
  oid : String
  value : Value
  deriving DecidableEq, Repr

/-- A PDU: its tag, the request id, and the varbinds. -/
structure Pdu where
  tag : UInt8
  requestId : Int
  varbinds : List VarBind
  deriving DecidableEq, Repr

inductive MsgData where
  | encrypted (data : Bytes)
  | plain (pdu : Pdu)
  deriving DecidableEq, Repr

/-- `parse_v3`'s result. -/
structure Message where
  msgId : Int
  flags : UInt8
  auth : Bool
  priv : Bool
  reportable : Bool
  model : Int
  engine : Bytes
  boots : Int
  time : Int
  user : Bytes
  authSpan : Nat × Nat
  privParams : Bytes
  data : MsgData
  deriving DecidableEq, Repr

/-- The integer of an element that must be one. -/
def R.int (b : Bytes) (r : R) : Option (Int × R) := do
  let (t, r) ← r.expect b 0x02
  let v ← berInt (t.content b)
  return (v, r)

def R.intIn (b : Bytes) (lo hi : Int) (r : R) : Option (Int × R) := do
  let (v, r) ← r.int b
  let v ← ranged v lo hi
  return (v, r)

def varBind (b : Bytes) (t : Tlv) : Option VarBind := do
  let (name, one) ← t.reader.expect b 0x06
  let (t, one) ← one.next b
  guard one.done
  let value ← berValue t.tag (t.content b)
  let oid ← berOid (name.content b)
  return ⟨oid, value⟩

/-- The varbinds from a position on. Each takes two bytes at least, so that
`fuel` is not used up where it is the bytes there are. -/
def varBinds (b : Bytes) : Nat → R → Option (List VarBind)
  | 0, v => if v.done then some [] else none
  | fuel + 1, v =>
    if v.done then some []
    else do
      let (t, v) ← v.expect b 0x30
      let one ← varBind b t
      let rest ← varBinds b fuel v
      return one :: rest

def scopedContent (b : Bytes) (q : R) : Option Pdu := do
  let (_, q) ← q.expect b 0x04
  let (_, q) ← q.expect b 0x04
  let (pdu, q) ← q.next b
  guard q.done
  let p := pdu.reader
  let (requestId, p) ← p.intIn b (-2 ^ 31) max31
  let (_, p) ← p.int b
  let (_, p) ← p.int b
  let (list, p) ← p.expect b 0x30
  guard p.done
  let varbinds ← varBinds b (list.stop - list.start) list.reader
  return ⟨pdu.tag, requestId, varbinds⟩

def parseScopedPdu (b : Bytes) : Option Pdu := do
  let (t, r) ← R.expect b 0x30 ⟨0, b.length⟩
  guard r.done
  scopedContent b t.reader

/-- The global data of a message: the id, the flags and the security model. -/
def globalData (b : Bytes) (g : R) : Option (Int × UInt8 × Int) := do
  let (msgId, g) ← g.intIn b 0 max31
  let (_, g) ← g.intIn b 484 max31
  let (t, g) ← g.expect b 0x04
  guard (t.stop - t.start = 1)
  let flags ← b[t.start]?
  let (model, g) ← g.intIn b 0 max31
  guard g.done
  guard ¬ (flags &&& 2 ≠ 0 ∧ flags &&& 1 = 0)
  return (msgId, flags, model)

def parseV3 (b : Bytes) : Option Message := do
  let (t, top) ← R.expect b 0x30 ⟨0, b.length⟩
  guard top.done
  let (version, m) ← t.reader.int b
  guard (version = 3)
  let (t, m) ← m.expect b 0x30
  let (msgId, flags, model) ← globalData b t.reader
  let (t, m) ← m.expect b 0x04
  let (t, sp) ← t.reader.expect b 0x30
  guard sp.done
  let (t, u) ← t.reader.expect b 0x04
  let engine := t.content b
  guard (engine.length = 0 ∨ 5 ≤ engine.length ∧ engine.length ≤ 32)
  let (boots, u) ← u.intIn b 0 max31
  let (time, u) ← u.intIn b 0 max31
  let (t, u) ← u.expect b 0x04
  let user := t.content b
  guard (user.length ≤ 32)
  let (authParams, u) ← u.expect b 0x04
  let (t, u) ← u.expect b 0x04
  let privParams := t.content b
  guard u.done
  let (data, m) ←
    if flags &&& 2 ≠ 0 then do
      let (t, m) ← m.expect b 0x04
      pure (MsgData.encrypted (t.content b), m)
    else do
      let (t, m) ← m.expect b 0x30
      let pdu ← scopedContent b t.reader
      pure (MsgData.plain pdu, m)
  guard m.done
  return {
    msgId := msgId
    flags := flags
    auth := flags &&& 1 ≠ 0
    priv := flags &&& 2 ≠ 0
    reportable := flags &&& 4 ≠ 0
    model := model
    engine := engine
    boots := boots
    time := time
    user := user
    authSpan := (authParams.start, authParams.stop)
    privParams := privParams
    data := data }

/-- `parse_tsm`: the security model, the PDU, and the context engine. -/
def parseTsm (b : Bytes) : Option (Int × Pdu × Bytes) := do
  let (t, top) ← R.expect b 0x30 ⟨0, b.length⟩
  guard top.done
  let (version, m) ← t.reader.int b
  guard (version = 3)
  let (t, m) ← m.expect b 0x30
  let (_, _, model) ← globalData b t.reader
  let (_, m) ← m.expect b 0x04
  let (t, m) ← m.expect b 0x30
  let pdu ← scopedContent b t.reader
  guard m.done
  let (engine, _) ← t.reader.expect b 0x04
  return (model, pdu, engine.content b)

end Dsip.Events
