import Dsip.Events.SnmpV3
import Dsip.Lib.Dict
import Dsip.Lib.TSys

/-!
# The USM receiver

A gateway's receiver of SNMPv3 notifications: who sent a message, whether it is
authentic, whether it is timely, and what it says. It keeps the time of its own
engine, and a cached time for each other engine.

The hash functions, HMAC and AES are parameters.
-/

namespace Dsip.Events

open Dsip.Lib

/-- The keys of `HASHES`. -/
inductive Auth where
  | md5
  | sha
  | sha224
  | sha256
  | sha384
  | sha512
  deriving DecidableEq, Repr

def Auth.macLen : Auth → Nat
  | .md5 | .sha => 12
  | .sha224 => 16
  | .sha256 => 24
  | .sha384 => 32
  | .sha512 => 48

def window : Int := 150

structure Crypto where
  hash : Auth → Bytes → Bytes
  /-- By key and data. -/
  hmac : Auth → Bytes → Bytes → Bytes
  /-- AES-CFB decryption by key, IV and data. -/
  decrypt : Bytes → Bytes → Bytes → Bytes

/-- A key as it is configured. -/
inductive Secret where
  | key (bytes : Bytes)
  | password (bytes : Bytes)
  deriving DecidableEq, Repr

/-- A configured user, of one engine or of any. -/
structure User where
  engineId : Option Bytes
  user : String
  auth : Auth
  authSecret : Secret
  privSecret : Option Secret
  deriving DecidableEq, Repr

/-- What is cached of another engine: `time` as it was at receiver time `setAt`. -/
structure Engine where
  boots : Int
  time : Int
  latest : Int
  setAt : Int
  deriving DecidableEq, Repr

/-- Where the source raises, for want of a key. -/
inductive Fault where
  | noKey
  deriving DecidableEq, Repr

structure Trap where
  varbinds : List VarBind
  /-- The request id of an inform. -/
  inform : Option Int
  engineId : Bytes
  user : String
  level : String
  deriving DecidableEq, Repr

inductive Result where
  | refused (reason : String) (report : Bool)
  | accepted (trap : Trap)
  deriving DecidableEq, Repr

inductive Event where
  | receive (datagram : Bytes)
  | advance (n : Int)
  deriving DecidableEq, Repr

structure Context where
  now : Int
  engine : Bytes
  boots : Int
  time : Int
  users : List User
  deriving DecidableEq, Repr

structure UsmReceiver where
  ctx : Context
  now : Int
  cache : Dict Bytes Engine

/-- How much of a repeated password is hashed. -/
def passwordSpan : Nat := 1048576

def passwordToKey (c : Crypto) (auth : Auth) (password engine : Bytes) : Except Fault Bytes :=
  if password = [] then .error .noKey
  else
    let rep := ((List.replicate (passwordSpan / password.length + 1) password).flatten).take
      passwordSpan
    let ku := c.hash auth rep
    .ok (c.hash auth (ku ++ engine ++ ku))

/-- The key of a secret for an engine. -/
def Secret.localize (c : Crypto) (auth : Auth) (engine : Bytes) : Secret → Except Fault Bytes
  | .key bytes => .ok bytes
  | .password bytes => passwordToKey c auth bytes engine

def toBytes4 (n : Int) : Bytes :=
  [UInt8.ofNat (n.toNat / 2 ^ 24), UInt8.ofNat (n.toNat / 2 ^ 16), UInt8.ofNat (n.toNat / 2 ^ 8),
    UInt8.ofNat n.toNat]

/-- `aes_cfb`, which takes keys of 16 bytes. -/
def aesCfb (c : Crypto) (key iv data : Bytes) : Except Fault Bytes :=
  if key.length = 16 then .ok (c.decrypt key iv data) else .error .noKey

namespace UsmReceiver

/-- `__init__`. -/
def new (ctx : Context) : UsmReceiver where
  ctx := ctx
  now := ctx.now
  cache := ∅

variable (c : Crypto) (rx : UsmReceiver)

def localTime : Int := rx.ctx.time + (rx.now - rx.ctx.now)

/-- `_user`: one of the engine first. -/
def userOf (engine name : Bytes) : Option User :=
  (decodeUtf8 name).bind fun name =>
    (rx.ctx.users.find? fun u => u.engineId = some engine ∧ u.user = name).orElse fun _ =>
      rx.ctx.users.find? fun u => u.engineId = none ∧ u.user = name

/-- `keys`: of authentication, and of privacy if the user has it. -/
def keys (u : User) (engine : Bytes) : Except Fault (Bytes × Option Bytes) := do
  let authKey ← u.authSecret.localize c u.auth engine
  match u.privSecret with
  | none => return (authKey, none)
  | some secret =>
    let privKey ← secret.localize c u.auth engine
    return (authKey, some (privKey.take 16))

/-- The MAC of a message is right. -/
def macOk (u : User) (authKey b : Bytes) (m : Message) : Bool :=
  let (start, stop) := m.authSpan
  let zeroed := b.take start ++ List.replicate u.auth.macLen 0 ++ b.drop stop
  stop - start = u.auth.macLen ∧ (c.hmac u.auth authKey zeroed).take u.auth.macLen = slice b start stop

/-- What a message turns out to be before its time is looked at. -/
inductive Authenticity where
  | refused (reason : String) (report : Bool)
  | authentic (m : Message) (u : User) (privKey : Option Bytes)
  deriving DecidableEq, Repr

/-- The first steps of `receive`. -/
def authenticate (b : Bytes) : Except Fault Authenticity :=
  match parseV3 b with
  | none => .ok (.refused "malformed" false)
  | some m =>
    if m.model ≠ 3 then .ok (.refused "unsupported-security-model" false)
    else if m.engine = [] then .ok (.refused "unknown-engine-id" m.reportable)
    else
      match rx.userOf m.engine m.user with
      | none => .ok (.refused "unknown-user" false)
      | some u =>
        if ¬ m.auth ∨ m.priv ∧ u.privSecret = none then
          .ok (.refused "unsupported-security-level" false)
        else do
          let (authKey, privKey) ← keys c u m.engine
          if macOk c u authKey b m then return .authentic m u privKey
          else return .refused "wrong-digest" false

/-- The message's boots and time are above what is cached. -/
def isNewer (m : Message) (e : Engine) : Bool := e.boots < m.boots ∨ m.boots = e.boots ∧ e.latest < m.time

/-- The entry of another engine as a message leaves it. -/
def entry (m : Message) : Engine :=
  match (rx.cache.lookup m.engine).filter fun e => !isNewer m e with
  | none => { boots := m.boots, time := m.time, latest := m.time, setAt := rx.now }
  | some e => e

/-- A message in the window of its engine's entry. -/
def inWindow (m : Message) (e : Engine) : Bool :=
  ¬ (e.boots = max31 ∨ m.boots < e.boots ∨ m.boots = e.boots ∧ m.time < e.time + (rx.now - e.setAt) - window)

/-- A message in the window of the receiver's own time. -/
def inOwnWindow (m : Message) : Bool :=
  ¬ (rx.ctx.boots = max31 ∨ m.boots ≠ rx.ctx.boots ∨ window < |m.time - rx.localTime|)

/-- The PDU of a message, if it can be decrypted to one. -/
def pduOf (m : Message) (privKey : Option Bytes) : Except Fault (Option Pdu) :=
  match m.data, privKey with
  | .plain pdu, _ => .ok (some pdu)
  | .encrypted _, none => .error .noKey
  | .encrypted data, some key =>
    if m.privParams.length ≠ 8 then .ok none
    else (aesCfb c key (toBytes4 m.boots ++ toBytes4 m.time ++ m.privParams) data).map
      parseScopedPdu

/-- The last steps of `receive`. -/
def deliver (m : Message) (u : User) (privKey : Option Bytes) : Except Fault Result := do
  match ← pduOf c m privKey with
  | none => return .refused "decryption-error" false
  | some pdu =>
    if pdu.tag ≠ 0xA7 ∧ pdu.tag ≠ 0xA6 then return .refused "not-a-notification" false
    else if (pdu.tag = 0xA7) = (m.engine = rx.ctx.engine) then
      return .refused "engine-id-mismatch" false
    else
      return .accepted {
        varbinds := pdu.varbinds
        inform := if pdu.tag = 0xA6 then some pdu.requestId else none
        engineId := m.engine
        user := u.user
        level := if m.priv then "authPriv" else "authNoPriv" }

def receive (b : Bytes) : Except Fault (UsmReceiver × Result) := do
  match ← rx.authenticate c b with
  | .refused reason report => return (rx, .refused reason report)
  | .authentic m u privKey =>
    if m.engine = rx.ctx.engine then
      if rx.inOwnWindow m then return (rx, ← rx.deliver c m u privKey)
      else return (rx, .refused "not-in-time-window" m.reportable)
    else
      let e := rx.entry m
      let rx := { rx with cache := rx.cache.insert m.engine e }
      if rx.inWindow m e then return (rx, ← rx.deliver c m u privKey)
      else return (rx, .refused "not-in-time-window" false)

def step (rx : UsmReceiver) : Event → Except Fault (UsmReceiver × Option Result)
  | .receive b => (rx.receive c b).map fun r => (r.1, some r.2)
  | .advance n => .ok ({ rx with now := rx.now + n }, none)

/-- `snapshot`: the engines with their cached times as of now. -/
def snapshot : List (String × Int × Int × Int) :=
  (rx.cache.entries.map fun e =>
    (hex e.1, e.2.boots, e.2.time + (rx.now - e.2.setAt), e.2.latest)).insertionSort fun a b =>
      a.1 ≤ b.1

def machine (ctx : Context) : TSys UsmReceiver Event (Option Result) := TSys.ofStep (· = new ctx) (step c)

end UsmReceiver

end Dsip.Events
