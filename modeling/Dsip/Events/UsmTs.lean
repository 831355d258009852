import Dsip.Events.SnmpV3Ts
import Dsip.Events.Usm

/-!
# The TypeScript USM receiver

It hashes a repeated password piece by piece, and a user's privacy key only when
a message needs it. Engine ids and keys are bytes here, as in the Python
receiver; the source compares engine ids as hex.
-/

namespace Dsip.Events.Ts

open Dsip.Lib

/-- Sixty-four times the password. -/
def chunk (password : Bytes) : Bytes :=
  (List.range (64 * password.length)).map fun i => password.getD (i % password.length) 0

/-- What `localizePassword` hashes first: whole chunks, then the rest. -/
def passwordStream (password : Bytes) : Bytes :=
  let whole := passwordSpan / (chunk password).length
  let fed := whole * (chunk password).length
  (List.replicate whole (chunk password)).flatten ++
    (List.range (passwordSpan - fed)).map fun i => password.getD ((fed + i) % password.length) 0

/-- `localizePassword`. It does not come to an end on an empty password. -/
def localizePassword (c : Crypto) (auth : Auth) (password engineId : Bytes) : Except Fault Bytes :=
  if password = [] then .error .noKey
  else
    let ku := c.hash auth (passwordStream password)
    .ok (c.hash auth (ku ++ engineId ++ ku))

/-- The key of a secret for an engine. -/
def localize (c : Crypto) (auth : Auth) (engineId : Bytes) : Secret → Except Fault Bytes
  | .key bytes => .ok bytes
  | .password bytes => localizePassword c auth bytes engineId

structure UsmReceiver where
  ctx : Context
  now : Int
  engines : Dict Bytes Engine

namespace UsmReceiver

/-- `constructor`. -/
def new (ctx : Context) : UsmReceiver where
  ctx := ctx
  now := ctx.now
  engines := ∅

variable (c : Crypto) (rx : UsmReceiver)

/-- The user of a message: one of its engine first. -/
def userOf (engineId name : Bytes) : Option User :=
  match decodeUtf8 name with
  | none => none
  | some name =>
    (rx.ctx.users.find? fun u => u.engineId = some engineId ∧ u.user = name).orElse fun _ =>
      rx.ctx.users.find? fun u => u.engineId = none ∧ u.user = name

/-- What a message turns out to be before its time is looked at. -/
inductive Authenticity where
  | refused (reason : String) (report : Bool)
  | authentic (m : Message) (u : User)
  deriving DecidableEq, Repr

/-- Steps 1 to 6 of `receive`. -/
def authenticate (b : Bytes) : Except Fault Authenticity :=
  match parseMessage b with
  | none => .ok (.refused "malformed" false)
  | some m =>
    if m.model ≠ 3 then .ok (.refused "unsupported-security-model" false)
    else if m.engineId.length = 0 then .ok (.refused "unknown-engine-id" m.reportable)
    else
      match rx.userOf m.engineId m.userName with
      | none => .ok (.refused "unknown-user" false)
      | some u =>
        if ¬ m.auth ∨ m.priv ∧ u.privSecret = none then
          .ok (.refused "unsupported-security-level" false)
        else do
          let authKey ← localize c u.auth m.engineId u.authSecret
          let ap := m.authParams
          let zeroed := b.take ap.start ++ List.replicate (ap.stop - ap.start) 0 ++ b.drop ap.stop
          let mac := (c.hmac u.auth authKey zeroed).take u.auth.macLen
          if ap.stop - ap.start ≠ u.auth.macLen then return .refused "wrong-digest" false
          else if mac ≠ slice b ap.start ap.stop then return .refused "wrong-digest" false
          else return .authentic m u

/-- The entry of another engine as a message leaves it. -/
def entry (m : Message) : Engine :=
  let seen : Engine := { boots := m.boots, time := m.time, latest := m.time, setAt := rx.now }
  match rx.engines.lookup m.engineId with
  | none => seen
  | some cur =>
    if cur.boots < m.boots ∨ m.boots = cur.boots ∧ cur.latest < m.time then seen else cur

/-- Step 7, for another engine. -/
def isLate (m : Message) (e : Engine) : Bool :=
  e.boots = max31 ∨ m.boots < e.boots ∨ m.boots = e.boots ∧ m.time < e.time + (rx.now - e.setAt) - 150

/-- Step 7, for the gateway's own engine. -/
def isOutside (m : Message) : Bool :=
  let localTime := rx.ctx.time + (rx.now - rx.ctx.now)
  rx.ctx.boots = max31 ∨ m.boots ≠ rx.ctx.boots ∨ 150 < |m.time - localTime|

/-- Step 8: the PDU of a message, if it can be decrypted to one. -/
def pduOf (m : Message) (u : User) : Except Fault (Option Pdu) :=
  match m.encrypted, u.privSecret with
  | none, _ => .ok m.pdu
  | some _, none => .error .noKey
  | some data, some secret =>
    if m.privParams.length ≠ 8 then .ok none
    else do
      let key := (← localize c u.auth m.engineId secret).take 16
      if key.length ≠ 16 then return none
      else
        let plain := c.decrypt key (toBytes4 m.boots ++ toBytes4 m.time ++ m.privParams) data
        return do
          let t ← tlv plain 0 plain.length
          guard (t.stop = plain.length)
          scopedPdu plain t

/-- Steps 8 to 10. -/
def deliver (m : Message) (u : User) : Except Fault Result := do
  match ← pduOf c m u with
  | none => return .refused "decryption-error" false
  | some pdu =>
    let inform : Bool := pdu.tag = 0xA6
    let authoritative : Bool := m.engineId = rx.ctx.engine
    if pdu.tag ≠ 0xA7 ∧ ¬ inform then return .refused "not-a-notification" false
    else if inform ≠ authoritative then return .refused "engine-id-mismatch" false
    else
      return .accepted {
        varbinds := pdu.varbinds
        inform := if inform then some pdu.requestId else none
        engineId := m.engineId
        user := u.user
        level := if m.priv then "authPriv" else "authNoPriv" }

def receive (b : Bytes) : Except Fault (UsmReceiver × Result) := do
  match ← rx.authenticate c b with
  | .refused reason report => return (rx, .refused reason report)
  | .authentic m u =>
    if m.engineId = rx.ctx.engine then
      if rx.isOutside m then return (rx, .refused "not-in-time-window" m.reportable)
      else return (rx, ← rx.deliver c m u)
    else
      let e := rx.entry m
      let rx := { rx with engines := rx.engines.insert m.engineId e }
      if rx.isLate m e then return (rx, .refused "not-in-time-window" false)
      else return (rx, ← rx.deliver c m u)

def step (rx : UsmReceiver) : Event → Except Fault (UsmReceiver × Option Result)
  | .receive b => (rx.receive c b).map fun r => (r.1, some r.2)
  | .advance n => .ok ({ rx with now := rx.now + n }, none)

/-- What `step` shows of the engines: their cached times as of now. -/
def snapshot : List (String × Int × Int × Int) :=
  (rx.engines.entries.map fun e =>
    (hex e.1, e.2.boots, e.2.time + (rx.now - e.2.setAt), e.2.latest)).insertionSort fun a b =>
      a.1 ≤ b.1

def machine (ctx : Context) : TSys UsmReceiver Event (Option Result) := TSys.ofStep (· = new ctx) (step c)

end UsmReceiver

end Dsip.Events.Ts
