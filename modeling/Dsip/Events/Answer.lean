import Dsip.Events.BerWrite
import Dsip.Events.Usm

/-!
# The gateway's answers to SNMPv3 messages

`snmp_answer`: the response to an inform, the two Reports, and with transport
security the response and the answer to an engine id discovery. The parts of the
message that go back unchanged are cut out of it as they are.
-/

namespace Dsip.Events

/-- The libraries, with AES-CFB encryption by key, IV and data. -/
structure Sealer extends Crypto where
  encrypt : Bytes → Bytes → Bytes → Bytes

/-- What is known of the libraries: a digest is as long as any part of it that is
used, and CFB has no padding and decrypts what it encrypted. -/
structure Sealer.Lawful (c : Sealer) : Prop where
  digest : ∀ auth key data, auth.macLen ≤ (c.hmac auth key data).length
  encrypt_length : ∀ key iv data, (c.encrypt key iv data).length = data.length
  decrypt_length : ∀ key iv data, (c.decrypt key iv data).length = data.length
  decrypt_encrypt : ∀ key iv data, key.length = 16 → iv.length = 16 →
    c.decrypt key iv (c.encrypt key iv data) = data

/-- What the source raises and does not catch. -/
inductive Raised where
  | keyError
  | typeError
  | valueError
  deriving DecidableEq, Repr

def answerMaxSize : Int := 65507

def snmpEngineIdOid : String := "1.3.6.1.6.3.10.2.1.1.0"

inductive AnswerKind where
  | response
  | discovery
  | unknownEngineId
  | notInTimeWindow
  deriving DecidableEq, Repr

/-- `REPORT_OIDS`. -/
def reportOid : AnswerKind → Option String
  | .unknownEngineId => some "1.3.6.1.6.3.15.1.1.4.0"
  | .notInTimeWindow => some "1.3.6.1.6.3.15.1.1.2.0"
  | .response | .discovery => none

structure LocalEngine where
  engineId : Bytes
  boots : Int
  time : Int
  deriving DecidableEq, Repr

/-- What `snmp_answer` is asked. -/
structure Question where
  message : Bytes
  localEngine : LocalEngine
  answer : AnswerKind
  counter : Nat
  user : Option User
  salt : Bytes
  deriving DecidableEq, Repr

/-! ## Cutting a message -/

/-- `_received`: the id, the flags and the security model of a message, and the
bytes of its data. -/
def received (b : Bytes) : Option (Int × UInt8 × Int × Bytes) := do
  let (t, _) ← R.expect b 0x30 ⟨0, b.length⟩
  let (_, m) ← t.reader.expect b 0x02
  let (t, m) ← m.expect b 0x30
  let (msgId, g) ← t.reader.int b
  let (_, g) ← g.expect b 0x02
  let (t, g) ← g.expect b 0x04
  let flags ← b[t.start]?
  let (model, _) ← g.int b
  let (_, m) ← m.expect b 0x04
  let (data, _) ← m.next b
  return (msgId, flags, model, slice b m.pos data.stop)

/-- `_scoped_raw`: the context engine and name, the request id, and the bytes of
the VarBindList. -/
def scopedRaw (b : Bytes) : Option (Bytes × Bytes × Int × Bytes) := do
  let (t, top) ← R.expect b 0x30 ⟨0, b.length⟩
  guard top.done
  let (engine, q) ← t.reader.expect b 0x04
  let (name, q) ← q.expect b 0x04
  let (pdu, _) ← q.next b
  let (requestId, p) ← pdu.reader.int b
  let (_, p) ← p.expect b 0x02
  let (_, p) ← p.expect b 0x02
  let (list, _) ← p.expect b 0x30
  return (engine.content b, name.content b, requestId, slice b p.pos list.stop)

/-! ## Writing one -/

/-- The content of `_scoped`'s PDU. -/
def pduContent (requestId : Int) (list : Bytes) : Bytes :=
  writeInt requestId ++ writeInt 0 ++ writeInt 0 ++ list

/-- `_scoped`. -/
def writeScoped (engine name : Bytes) (tag : UInt8) (requestId : Int) (list : Bytes) : Bytes :=
  writeTlv 0x30 (writeTlv 0x04 engine ++ writeTlv 0x04 name ++ writeTlv tag (pduContent requestId list))

/-- A VarBindList of one varbind. -/
def writeVarBind (oid : String) (value : Bytes) : Except Raised Bytes :=
  match writeOid oid with
  | none => .error .valueError
  | some name => .ok (writeTlv 0x30 (writeTlv 0x30 (name ++ value)))

/-- What stands before the security parameters of a message. -/
def messageHead (msgId : Int) (flags : UInt8) (model : Int) : Bytes :=
  writeInt 3 ++
    writeTlv 0x30 (writeInt msgId ++ writeInt answerMaxSize ++ writeTlv 0x04 [flags] ++ writeInt model)

/-- `_message`: the message, and where the content of its security parameters starts. -/
def writeMessage (msgId : Int) (flags : UInt8) (model : Int) (security data : Bytes) : Bytes × Nat :=
  let head := messageHead msgId flags model
  let body := head ++ writeTlv 0x04 security ++ data
  (writeTlv 0x30 body,
    1 + (writeLen body.length).length + head.length + 1 + (writeLen security.length).length)

/-- What stands before the authentication parameters. -/
def usmHead (source : LocalEngine) (name : Bytes) : Bytes :=
  writeTlv 0x04 source.engineId ++ writeInt source.boots ++ writeInt source.time ++ writeTlv 0x04 name

/-- `aes_cfb` of either direction, which takes keys and IVs of 16 bytes. -/
def cfb (f : Bytes → Bytes → Bytes → Bytes) (key iv data : Bytes) : Except Raised Bytes :=
  if key.length = 16 ∧ iv.length = 16 then .ok (f key iv data) else .error .valueError

/-- `u["auth_key"]`. -/
def User.authKey (u : User) : Except Raised Bytes :=
  match u.authSecret with
  | .key bytes => .ok bytes
  | .password _ => .error .keyError

/-- `bytes.fromhex(u["priv_key"])[:16]`. -/
def User.privKey (u : User) : Except Raised Bytes :=
  match u.privSecret with
  | some (.key bytes) => .ok (bytes.take 16)
  | some (.password _) | none => .error .keyError

/-- A user that is looked into. -/
def given : Option User → Except Raised User
  | some u => .ok u
  | none => .error .typeError

/-- The IV of a message from an engine. -/
def ivOf (boots time : Int) (salt : Bytes) : Bytes := toBytes4 boots ++ toBytes4 time ++ salt

/-- The data of a message: encrypted where the flags say so. -/
def usmData (c : Sealer) (flags : UInt8) (source : LocalEngine) (plain : Bytes) (user : Option User)
    (salt : Bytes) : Except Raised Bytes :=
  if flags &&& 2 ≠ 0 then do
    let key ← (← given user).privKey
    let data ← cfb c.encrypt key (ivOf source.boots source.time salt) plain
    return writeTlv 0x04 data
  else return plain

/-- `_usm`: the MAC is put where the zeros were that it is of. -/
def writeUsm (c : Sealer) (msgId : Int) (flags : UInt8) (source : LocalEngine) (name plain : Bytes)
    (user : Option User) (salt : Bytes) : Except Raised Bytes := do
  let data ← usmData c flags source plain user salt
  let head := usmHead source name
  let content (params : Bytes) :=
    head ++ writeTlv 0x04 params ++ writeTlv 0x04 (if flags &&& 2 ≠ 0 then salt else [])
  if flags &&& 1 ≠ 0 then
    let u ← given user
    let zeros := List.replicate u.auth.macLen 0
    let (msg, start) := writeMessage msgId flags 3 (writeTlv 0x30 (content zeros)) data
    let start := start + (1 + (writeLen (content zeros).length).length + head.length + 2)
    let key ← u.authKey
    let mac := (c.hmac u.auth key msg).take u.auth.macLen
    return msg.take start ++ mac ++ msg.drop (start + u.auth.macLen)
  else return (writeMessage msgId flags 3 (writeTlv 0x30 (content [])) data).1

/-- `snmp_answer`; none where the message is malformed. -/
def snmpAnswer (c : Sealer) (q : Question) : Except Raised (Option Bytes) :=
  match reportOid q.answer with
  | some oid =>
    match parseV3 q.message with
    | none => .ok none
    | some m => do
        let list ← writeVarBind oid (writeUint 0x41 q.counter)
        let flags := if q.answer = .notInTimeWindow then 0x01 else 0x00
        let plain := writeScoped q.localEngine.engineId [] 0xA8 0 list
        let answer ← writeUsm c m.msgId flags q.localEngine m.user plain q.user []
        return some answer
  | none =>
    match received q.message with
    | none => .ok none
    | some (msgId, flags, model, data) =>
      let flags := flags &&& 0x03
      if model = 4 then
        match parseTsm q.message, scopedRaw data with
        | some _, some (engine, name, requestId, list) => do
            let list ←
              if q.answer = .discovery then
                writeVarBind snmpEngineIdOid (writeTlv 0x04 q.localEngine.engineId)
              else pure list
            return some (writeMessage msgId flags 4 [] (writeScoped engine name 0xA2 requestId list)).1
        | _, _ => .ok none
      else
        match parseV3 q.message with
        | none => .ok none
        | some m =>
          match q.user with
          | none => .error .keyError
          | some u => do
              let plain ←
                match m.data with
                | .encrypted encrypted => do
                    cfb c.decrypt (← u.privKey) (ivOf m.boots m.time m.privParams) encrypted
                | .plain _ => pure data
              match scopedRaw plain with
              | none => return none
              | some (engine, name, requestId, list) => do
                  let plain := writeScoped engine name 0xA2 requestId list
                  let answer ← writeUsm c msgId flags q.localEngine m.user plain (some u) q.salt
                  return some answer

end Dsip.Events
