import Mathlib.Data.Prod.Lex
import Mathlib.Data.String.Basic
import Dsip.Lib.Dict
import Dsip.Lib.FoldEmit
import Dsip.Lib.TSys

/-!
# The authority of broadcasts and presence

An authority holds the publication records of streams and the presence records
of devices, admits subscribers to either, and sends each subscription a `notify`
with the body it is entitled to: for presence the records it sees, and the
assertion for the bound devices that hold none of them.

A subscription ends when its time or its admitting grant's is up, when that
grant is revoked, when its device ends it, or when its device renews it; the
renewal is a subscription of its own.
-/

namespace Dsip.Broadcast

open Dsip.Lib

/-! ## Limits -/

/-- P§8, and T-Presence-Grace's default. -/
def recordMinLifetimeS : Nat := 60

def recordMaxLifetimeS : Nat := 3600

def presenceGraceS : Nat := 60

def publishIntervalS : Nat := 5

/-- `SUBSCRIPTION_EVENTS`: §9.3 hard caps. -/
def subscriptionCap (event : String) : Nat :=
  if event = "presence" then 3600 else 86400

/-! ## What is kept -/

/-- A device's current record for an audience. -/
structure PresenceRecord where
  id : String
  device : String
  seq : Nat
  expiresAt : Nat
  state : Option String := none
  kid : Option String := none
  sealedState : Option String := none
  audience : Option String := none
  deriving DecidableEq, Repr

/-- Subject, device and audience, the empty text for none, in this order. -/
abbrev RecordKey := String ×ₗ String ×ₗ String

def recordKey (subject device audience : String) : RecordKey := toLex (subject, toLex (device, audience))

def RecordKey.subject (k : RecordKey) : String := (ofLex k).1

def RecordKey.device (k : RecordKey) : String := (ofLex (ofLex k).2).1

inductive Body where
  | presence (state : String) (records : List PresenceRecord)
  | publication (state : String) (publication : Option String) (provenance : List String)
  deriving DecidableEq, Repr

structure Subscription where
  subscriber : String
  device : String
  target : String
  events : List String
  expiresAt : Nat
  seq : Nat := 0
  own : Bool := false
  grant : Option String := none
  grantUntil : Option Nat := none
  audience : Option String := none
  isSealed : Bool := false
  /-- The body last sent. -/
  body : Option Body := none
  deriving DecidableEq, Repr

/-- A subscription told its body once more. -/
def Subscription.told (sub : Subscription) (body : Body) : Subscription :=
  { sub with seq := sub.seq + 1, body := some body }

/-- The subscription is this device's, for this target and these events. -/
def Subscription.matches (sub : Subscription) (device target : String) (events : List String) : Bool :=
  sub.device = device ∧ sub.target = target ∧ sub.events = events

/-- A publication record. Its variants are kept by id. -/
structure Publication where
  publication : String
  publisher : String
  state : String
  expiresAt : Nat
  variants : List String
  deriving DecidableEq, Repr

structure Statement where
  processor : String
  operation : String
  inputVariant : String
  outputVariant : String
  deriving DecidableEq, Repr

structure Policy where
  mode : String
  allow : List String
  audience : Option String := none
  deriving DecidableEq, Repr

/-! ## What comes in -/

structure Grant where
  id : String
  identity : String
  grantee : String
  scope : List String
  validUntil : Nat
  verified : Bool := true
  presenceAudience : Option String := none
  deriving DecidableEq, Repr

structure Claim where
  type : String
  grant : Option Grant
  deriving DecidableEq, Repr

/-- A `subscribe`; it names at least one event. -/
structure Subscribe where
  id : String
  target : String
  events : List String
  expiresIn : Nat
  claims : List Claim := []
  capability : Option String := none
  profiles : List String := []
  nonempty : events ≠ [] := by decide
  deriving DecidableEq, Repr

/-- A `presence` message. `audience` is empty when it names none. -/
structure Presence where
  id : String
  device : Option String
  subject : String
  issuedAt : Nat
  expiresAt : Nat
  seq : Nat
  audience : String := ""
  state : Option String := none
  kid : Option String := none
  sealedState : Option String := none
  deriving DecidableEq, Repr

/-- What is kept of a `presence` message. -/
def Presence.record (m : Presence) (device : String) : PresenceRecord where
  id := m.id
  device := device
  seq := m.seq
  expiresAt := m.expiresAt
  state := m.state
  kid := m.kid
  sealedState := m.sealedState
  audience := if m.audience = "" then none else some m.audience

inductive Message where
  | publish (id publisher streamId state : String) (expiresAt : Nat) (variants : List String)
  | unpublish (streamId publication : String)
  | provenance (originalStream originalPublication : String) (statement : Statement)
  | subscribe (m : Subscribe)
  | presence (m : Presence)
  | grantRevocation (grant : String) (validUntil : Nat)
  | other (type : String)
  deriving DecidableEq, Repr

inductive RelayChange where
  | bind
  | unbind
  deriving DecidableEq, Repr

inductive Event where
  | advance (n : Nat)
  | recv (sender : String) (m : Message)
  | policy (target : String) (policy : Policy)
  | issueCapability (token target : String)
  | relay (change : RelayChange) (identity device : String)
  deriving DecidableEq, Repr

inductive NotifyState where
  | active
  | terminated
  deriving DecidableEq, Repr

/-- What a `notify` says. -/
structure Notice where
  seq : Nat
  state : NotifyState
  reason : Option String
  body : Body
  deriving DecidableEq, Repr

inductive Emit where
  | drop (reason : String)
  | publication (stream state : String)
  | provenance (stream processor : String)
  | subscription (id state : String)
  | error (device inReplyTo reason : String) (retryAfter : Option Nat)
  | reject (device session reason : String)
  | notify (device subscription : String) (notice : Notice)
  deriving DecidableEq, Repr

/-! ## The state -/

structure Authority where
  now : Nat
  identities : Dict String String
  /-- By stream, in the order they were first published. -/
  publications : List (String × Publication)
  provenance : Dict String (List Statement)
  subscriptions : Dict String Subscription
  policy : Dict String Policy
  capabilities : Dict String String
  bound : Dict String (Finset String)
  records : Dict RecordKey PresenceRecord
  /-- Device to when its records are dropped, after an unbind. -/
  graceUntil : Dict String Nat
  /-- By device and audience. -/
  lastAccepted : Dict (String × String) Nat
  /-- By granting identity and grant. -/
  revoked : Dict (String × String) Nat
  grace : Nat

namespace Authority

structure Context where
  start : Nat := 0
  identities : Dict String String := ∅
  presenceGrace : Nat := presenceGraceS

def init (ctx : Context) : Authority where
  now := ctx.start
  identities := ctx.identities
  publications := []
  provenance := ∅
  subscriptions := ∅
  policy := ∅
  capabilities := ∅
  bound := ∅
  records := ∅
  graceUntil := ∅
  lastAccepted := ∅
  revoked := ∅
  grace := ctx.presenceGrace

variable (s : Authority)

def identityOf (did : String) : String := (s.identities.lookup did).getD did

def boundOf (identity : String) : Finset String := (s.bound.lookup identity).getD ∅

/-! ## Bodies -/

/-- The records a subscription sees; all of them when it is the subject's own
view. -/
def sees (sub : Option Subscription) (r : PresenceRecord) : Bool :=
  match sub with
  | none => true
  | some sub =>
    if r.sealedState.isSome ∧ ¬ sub.isSealed then false
    else sub.own ∨ r.audience = none ∨ r.audience = sub.audience

/-- The records of a subject, by device, then by audience. -/
def recordsOf (subject : String) : List PresenceRecord :=
  (s.records.sortedKeys.filter (·.subject = subject)).filterMap s.records.lookup

def presenceBody (subject : String) (sub : Option Subscription) : Body :=
  let recs := (s.recordsOf subject).filter (sees sub)
  let asserted :=
    if ∃ device ∈ s.boundOf subject, ∀ r ∈ recs, r.device ≠ device then "available" else "offline"
  .presence asserted recs

def bodyFor (sub : Subscription) : Body :=
  if "publication" ∈ sub.events then
    match s.publications.lookup sub.target with
    | none => .publication "unknown" none []
    | some pub =>
      .publication pub.state (some pub.publication)
        (((s.provenance.lookup sub.target).getD []).map (·.processor))
  else s.presenceBody sub.target (some sub)

/-! ## Notifying -/

/-- `notify`. The callers pass ids of subscriptions there are. -/
def notify (sid : String) (state : NotifyState) (reason : Option String) : Authority × List Emit :=
  match s.subscriptions.lookup sid with
  | none => (s, [])
  | some sub =>
    let body := s.bodyFor sub
    ({ s with
        subscriptions := match state with
          | .active => s.subscriptions.insert sid (sub.told body)
          | .terminated => s.subscriptions.erase sid },
      [.notify sub.device sid ⟨sub.seq + 1, state, reason, body⟩])

/-- What a subscription is due in a loop over them: nothing, or a `notify` with
its state and reason. -/
abbrev Dues := Authority → Subscription → Option (NotifyState × Option String)

def notifyTurn (due : Dues) (s : Authority) (sid : String) : Authority × List Emit :=
  match (s.subscriptions.lookup sid).bind (due s) with
  | none => (s, [])
  | some (state, reason) => s.notify sid state reason

/-- The loops that notify: over the ids, whichever is due one. -/
def notifyEach (due : Dues) (ids : List String) : Authority × List Emit := foldEmit (notifyTurn due) s ids

/-- The ids of the subscriptions that satisfy `p`, in order. -/
def idsWhere (p : Subscription → Bool) : List String :=
  s.subscriptions.sortedKeys.filter fun sid => (s.subscriptions.lookup sid).any p

def notifyAll (event target : String) : Authority × List Emit :=
  s.notifyEach (fun _ _ => some (.active, none))
    (s.idsWhere fun sub => sub.target = target ∧ event ∈ sub.events)

/-- A body that is not the one last sent. -/
def staleDue : Dues := fun s sub =>
  if sub.body = some (s.bodyFor sub) then none else some (.active, none)

def presenceChanged (identity : String) : Authority × List Emit :=
  s.notifyEach staleDue (s.idsWhere fun sub => sub.target = identity ∧ "presence" ∈ sub.events)

/-! ## Records -/

def holdsRecord (subject device : String) : Bool :=
  s.records.keys.any fun k => k.subject = subject ∧ k.device = device

def dropDevice (subject device : String) : Authority :=
  { s with
    records := s.records.filter fun k _ => !(k.subject = subject ∧ k.device = device)
    graceUntil := s.graceUntil.erase device }

def refuse (sender id reason : String) (retryAfter : Option Nat := none) : List Emit :=
  [.error sender id reason retryAfter]

/-- `recv_presence`: the checks in the profile's order. -/
def recvPresence (sender : String) (m : Presence) (identity : String) : Authority × List Emit :=
  match m.device with
  | none => (s, refuse sender m.id "presence.signer-mismatch")
  | some device =>
    if device ≠ sender ∨ m.subject ≠ identity then
      (s, refuse sender m.id "presence.signer-mismatch")
    else if ¬ (m.issuedAt + recordMinLifetimeS ≤ m.expiresAt ∧
        m.expiresAt ≤ m.issuedAt + recordMaxLifetimeS) then
      (s, refuse sender m.id "presence.lifetime")
    else if (s.records.lookup (recordKey identity device m.audience)).any (m.seq ≤ ·.seq) then
      (s, refuse sender m.id "presence.stale")
    else
      match (s.lastAccepted.lookup (device, m.audience)).filter
          (s.now < · + publishIntervalS) with
      | some last =>
        (s, refuse sender m.id "policy.rate-limited" (publishIntervalS - (s.now - last)))
      | none =>
        presenceChanged { s with
          records := s.records.insert (recordKey identity device m.audience)
            (m.record device)
          lastAccepted := s.lastAccepted.insert (device, m.audience) s.now } identity

def recvRevocation (grant : String) (validUntil : Nat) (identity : String) : Authority × List Emit :=
  notifyEach { s with revoked := s.revoked.insert (identity, grant) validUntil }
    (fun _ sub => if sub.grant = some grant ∧ sub.target = identity then
      some (.terminated, some "policy.terminated") else none)
    s.subscriptions.sortedKeys

/-! ## Subscribing -/

def authorized (target identity : String) (token : Option String) : Bool :=
  if token.any fun token => s.capabilities.lookup token = some target then true
  else
    match s.policy.lookup target with
    | none => true
    | some pol => pol.mode = "public" ∨ identity ∈ pol.allow

/-- What admission fixes of a subscription. -/
structure Admission where
  own : Bool := false
  grant : Option String := none
  grantUntil : Option Nat := none
  audience : Option String := none
  deriving DecidableEq, Repr

/-- A grant that admits a presence subscriber. -/
def admits (target identity : String) (g : Grant) : Bool :=
  g.verified ∧ g.identity = target ∧ g.grantee = identity ∧ "dsip.subscribe" ∈ g.scope ∧
    s.now < g.validUntil ∧ (target, g.id) ∉ s.revoked

/-- The grants presented, in order. -/
def grantsOf (claims : List Claim) : List Grant :=
  claims.filterMap fun c => if c.type = "dsip-grant" then c.grant else none

/-- `admit_presence`: the first rule that admits. -/
def admitPresence (target identity : String) (m : Subscribe) : Option Admission :=
  if identity = target then some { own := true }
  else
    match (grantsOf m.claims).find? (s.admits target identity) with
    | some g => some
        { grant := some g.id, grantUntil := some g.validUntil, audience := g.presenceAudience }
    | none =>
      if m.capability.any fun token => s.capabilities.lookup token = some target then some {}
      else
        match s.policy.lookup target with
        | none => none
        | some pol =>
          if pol.mode = "public" ∨ identity ∈ pol.allow then some { audience := pol.audience }
          else none

def targetExists (target : String) (events : List String) : Bool :=
  if "publication" ∈ events then (s.publications.lookup target).isSome
  else target ∈ s.identities.values ∨ s.boundOf target ≠ ∅ ∨ target ∈ s.policy ∨
    target ∈ s.capabilities.values

/-- The subscription a `subscribe` renews or ends; there is at most one. -/
def existing (device : String) (m : Subscribe) : Option String :=
  (s.subscriptions.entries.find? fun e => e.2.matches device m.target m.events).map (·.1)

/-- The rule that admits a subscriber, and what it fixes. -/
def admission (identity : String) (m : Subscribe) : Option Admission :=
  if ¬ s.targetExists m.target m.events then none
  else if "presence" ∈ m.events then s.admitPresence m.target identity m
  else if s.authorized m.target identity m.capability then some {}
  else none

/-- The lifetime of a subscription: what is asked for, to the tightest cap. -/
def lifetime (m : Subscribe) : Nat :=
  min m.expiresIn ((m.events.map subscriptionCap).min
    fun h => m.nonempty (List.map_eq_nil_iff.mp h))

/-- An admitted subscription, before its first `notify`. -/
def newSubscription (sender identity : String) (m : Subscribe) (a : Admission) : Subscription where
  subscriber := identity
  device := sender
  target := m.target
  events := m.events
  expiresAt := s.now + lifetime m
  own := a.own
  grant := a.grant
  grantUntil := a.grantUntil
  audience := a.audience
  isSealed := "presence/0.2" ∈ m.profiles

/-- The subscriptions without the one a `subscribe` renews or ends. -/
def withdraw (device : String) (m : Subscribe) (state : String) : Authority × List Emit :=
  match s.existing device m with
  | none => (s, [])
  | some sid =>
    ({ s with subscriptions := s.subscriptions.erase sid }, [.subscription sid state])

def recvSubscribe (sender : String) (m : Subscribe) (identity : String) : Authority × List Emit :=
  if m.expiresIn = 0 then
    if (s.existing sender m).isSome then s.withdraw sender m "terminated"
    else (s, [.drop "no-matching-subscription"])
  else
    match s.admission identity m with
    | none => (s, [.reject sender m.id "policy.blocked"])
    | some a =>
      let (s', out) := s.withdraw sender m "replaced"
      let sub := s'.newSubscription sender identity m a
      let (s'', out') := notify { s' with subscriptions := s'.subscriptions.insert m.id sub }
        m.id .active none
      (s'', out ++ out')

/-! ## Publications -/

def streamInNamespace (streamId publisher : String) : Bool :=
  streamId = publisher ∨ (publisher ++ ":").toList <+: streamId.toList

/-- Set the entry of a stream, in place if there is one. -/
def setPublication (stream : String) (pub : Publication) : Authority :=
  { s with publications :=
      if (s.publications.lookup stream).isSome then
        s.publications.map fun e => if e.1 = stream then (stream, pub) else e
      else s.publications ++ [(stream, pub)] }

/-- Tell the stream's subscriptions of a change, after the emission of it. -/
def published (stream : String) (e : Emit) : Authority × List Emit :=
  let (s', out) := s.notifyAll "publication" stream
  (s', e :: out)

def recvPublish (id publisher streamId state : String) (expiresAt : Nat) (variants : List String)
    (identity : String) : Authority × List Emit :=
  if publisher ≠ identity then (s, [.drop "publisher-mismatch"])
  else if ¬ streamInNamespace streamId publisher then (s, [.drop "stream-id-namespace"])
  else if (s.publications.lookup streamId).any (id ≤ ·.publication) then
    (s, [.drop "stale-publication"])
  else
    let s := s.setPublication streamId ⟨id, publisher, state, expiresAt, variants⟩
    published { s with provenance := s.provenance.erase streamId } streamId
      (.publication streamId state)

def recvUnpublish (streamId publication identity : String) : Authority × List Emit :=
  match (s.publications.lookup streamId).filter (·.publication = publication) with
  | none => (s, [.drop "unknown-publication"])
  | some cur =>
    if cur.publisher ≠ identity then (s, [.drop "publisher-mismatch"])
    else
      published (s.setPublication streamId { cur with state := "withdrawn" }) streamId
        (.publication streamId "withdrawn")

def recvProvenance (originalStream originalPublication : String) (st : Statement)
    (identity : String) : Authority × List Emit :=
  match (s.publications.lookup originalStream).filter (·.publication = originalPublication) with
  | none => (s, [.drop "provenance-unknown-publication"])
  | some cur =>
    if st.processor ≠ identity then (s, [.drop "provenance-processor-mismatch"])
    else if st.inputVariant ∉ cur.variants then (s, [.drop "provenance-variant-unknown"])
    else
      let statements := (s.provenance.lookup originalStream).getD [] ++ [st]
      published { s with provenance := s.provenance.insert originalStream statements }
        originalStream (.provenance originalStream st.processor)

def recv (sender : String) (m : Message) : Authority × List Emit :=
  let identity := s.identityOf sender
  match m with
  | .publish id publisher streamId state expiresAt variants =>
    s.recvPublish id publisher streamId state expiresAt variants identity
  | .unpublish streamId publication => s.recvUnpublish streamId publication identity
  | .provenance originalStream originalPublication st =>
    s.recvProvenance originalStream originalPublication st identity
  | .subscribe m => s.recvSubscribe sender m identity
  | .presence m => s.recvPresence sender m identity
  | .grantRevocation grant validUntil => s.recvRevocation grant validUntil identity
  | .other _ => (s, [.drop "not-broadcast"])

/-! ## Time -/

/-- A subscription whose time or admitting grant is up. -/
def lapseDue : Dues := fun s sub =>
  if sub.expiresAt ≤ s.now then some (.terminated, some "session.expired")
  else if sub.grantUntil.any (· ≤ s.now) then some (.terminated, some "policy.terminated")
  else none

/-- One stream of the loop over the publications. -/
def expireStream (stream : String) : Authority × List Emit :=
  match s.publications.lookup stream with
  | none => (s, [])
  | some pub =>
    if (pub.state = "live" ∨ pub.state = "scheduled") ∧ pub.expiresAt ≤ s.now then
      published (s.setPublication stream { pub with state := "expired" }) stream
        (.publication stream "expired")
    else (s, [])

/-- One record of the loop over them: it goes with its device's others when the
grace is over, or by itself. -/
def expireRecord (st : Authority × Finset String) (e : RecordKey × PresenceRecord) :
    Authority × Finset String :=
  if e.1 ∉ st.1.records then st
  else if (st.1.graceUntil.lookup e.1.device).any (· ≤ st.1.now) then
    (st.1.dropDevice e.1.subject e.1.device, insert e.1.subject st.2)
  else if e.2.expiresAt ≤ st.1.now then
    ({ st.1 with records := st.1.records.erase e.1 }, insert e.1.subject st.2)
  else st

/-- The records in order, with their keys. -/
def recordItems : List (RecordKey × PresenceRecord) :=
  s.records.sortedKeys.filterMap fun k => (s.records.lookup k).map (k, ·)

def expire : Authority × List Emit :=
  let (s, out) := s.notifyEach lapseDue s.subscriptions.sortedKeys
  let s := { s with revoked := s.revoked.filter fun _ validUntil => s.now < validUntil }
  let (s, out') := foldEmit expireStream s (s.publications.map Prod.fst)
  let (s, changed) := s.recordItems.foldl expireRecord (s, ∅)
  let s := { s with graceUntil := s.graceUntil.filter fun _ ends => s.now < ends }
  let (s, out'') := foldEmit presenceChanged s (sorted changed)
  (s, out ++ out' ++ out'')

/-! ## Steps -/

/-- The relay's word on a device's binding. -/
def relay (change : RelayChange) (identity device : String) : Authority :=
  match change with
  | .bind =>
    { s with
      bound := s.bound.insert identity (insert device (s.boundOf identity))
      graceUntil := s.graceUntil.erase device }
  | .unbind =>
    let s := { s with bound :=
      if identity ∈ s.bound then s.bound.insert identity ((s.boundOf identity).erase device)
      else s.bound }
    if s.holdsRecord identity device ∧ device ∉ s.graceUntil then
      if s.grace = 0 then s.dropDevice identity device
      else { s with graceUntil := s.graceUntil.insert device (s.now + s.grace) }
    else s

def step : Event → Authority × List Emit
  | .advance n => expire { s with now := s.now + n }
  | .recv sender m => s.recv sender m
  | .policy target pol => ({ s with policy := s.policy.insert target pol }, [])
  | .issueCapability token target =>
    ({ s with capabilities := s.capabilities.insert token target }, [])
  | .relay change identity device => (s.relay change identity device).presenceChanged identity

def machine (ctx : Context) : TSys Authority Event (List Emit) := TSys.ofTotal (· = init ctx) step

end Authority

end Dsip.Broadcast
