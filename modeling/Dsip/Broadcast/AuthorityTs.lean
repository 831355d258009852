import Dsip.Broadcast.Authority

/-!
# The TypeScript authority

The second implementation of the authority. It keeps one identity for a bound
device and the identities it has seen bind, the records of a subject under texts
made of device and audience, the subscriptions in a list, and revocations under
texts made of identity and grant. After every event that may change presence it
looks at all presence subscriptions.

Events and emissions are those of `Dsip.Broadcast.Authority`. Texts are compared
by code point in both languages.
-/

namespace Dsip.Broadcast.Ts

open Dsip.Lib
open Dsip.Broadcast.Authority (Context)

/-- An event as it arrives. `publisher` is the one an `unpublish` names, which
the Python authority does not read. -/
structure Arrival where
  event : Event
  publisher : String := ""
  deriving DecidableEq, Repr

inductive Fault where
  /-- The body of a publication that is not there. -/
  | unpublished
  | unknownMessage
  deriving DecidableEq, Repr

structure Publication where
  id : String
  publisher : String
  state : String
  variants : List String
  expires : Nat
  provenance : List String := []
  deriving DecidableEq, Repr

structure Subscription where
  id : String
  device : String
  subscriber : String
  target : String
  events : List String
  seq : Nat := 0
  expiresAt : Nat
  own : Bool := false
  /-- The admitting grant and its `valid_until`. -/
  grant : Option (String × Nat) := none
  audience : Option String := none
  isSealed : Bool := false
  lastBody : Option Body := none
  deriving DecidableEq, Repr

structure Authority where
  ctx : Context
  now : Nat
  policy : Dict String Policy
  capabilities : Dict String String
  /-- By stream, in the order they were first published. -/
  publications : List (String × Publication)
  subscriptions : List Subscription
  /-- Device to identity. -/
  bound : Dict String String
  seen : Finset String
  records : Dict String (Dict String PresenceRecord)
  graceUntil : Dict String Nat
  lastAccepted : Dict String Nat
  revoked : Dict String Nat

/-- `recordKey`: `device` or `device/audience`. -/
def recordKey (device : String) (audience : Option String) : String :=
  match audience with
  | none => device
  | some audience => device ++ "/" ++ audience

/-- `recordOrder`: by device, then by audience, a record without one first. -/
def recordOrder (a b : PresenceRecord) : Prop :=
  a.device < b.device ∨ a.device = b.device ∧ a.audience.all fun x => b.audience.any fun y => x ≤ y

instance (a b : PresenceRecord) : Decidable (recordOrder a b) := inferInstanceAs (Decidable (_ ∨ _))

/-- Order by target, then by id. -/
def targetOrder (a b : Subscription) : Prop := a.target < b.target ∨ a.target = b.target ∧ a.id ≤ b.id

instance (a b : Subscription) : Decidable (targetOrder a b) := inferInstanceAs (Decidable (_ ∨ _))

def idOrder (a b : Subscription) : Prop := a.id ≤ b.id

instance (a b : Subscription) : Decidable (idOrder a b) := inferInstanceAs (Decidable (_ ≤ _))

/-- What is kept of a `presence` message; its state stays sealed when it names
none. -/
def record (m : Presence) (device : String) (audience : Option String) : PresenceRecord where
  id := m.id
  device := device
  seq := m.seq
  expiresAt := m.expiresAt
  state := m.state
  kid := if m.state.isSome then none else m.kid
  sealedState := if m.state.isSome then none else m.sealedState
  audience := audience

namespace Authority

/-- `constructor`. -/
def new (ctx : Context) : Authority where
  ctx := ctx
  now := ctx.start
  policy := ∅
  capabilities := ∅
  publications := []
  subscriptions := []
  bound := ∅
  seen := ∅
  records := ∅
  graceUntil := ∅
  lastAccepted := ∅
  revoked := ∅

variable (t : Authority)

def identityOf (did : String) : String := (t.ctx.identities.lookup did).getD did

/-! ## Bodies -/

def sees (sub : Subscription) (r : PresenceRecord) : Bool :=
  if r.sealedState.isSome ∧ ¬ sub.isSealed then false
  else sub.own ∨ r.audience = none ∨ r.audience = sub.audience

def held (subject : String) : Dict String PresenceRecord := (t.records.lookup subject).getD ∅

def presenceBody (sub : Subscription) : Body :=
  let visible := ((t.held sub.target).values.filter (sees sub)).insertionSort recordOrder
  let asserted := t.bound.entries.any fun e =>
    e.2 = sub.target ∧ ¬ visible.any fun r => r.device = e.1
  .presence (if asserted then "available" else "offline") visible

/-- `body`. A subscription to anything but presence has its publication:
`subscribe` fails otherwise, and publications stay. -/
def body (sub : Subscription) (event : String) : Body :=
  if event = "presence" then t.presenceBody sub
  else
    match t.publications.lookup sub.target with
    | none => .publication "unknown" none []
    | some p => .publication p.state (some p.id) p.provenance

/-! ## Notifying -/

/-- What `notify` sends. -/
def notice (sub : Subscription) (event : String) (terminal : Option String) : Emit :=
  .notify sub.device sub.id
    ⟨sub.seq + 1, if terminal.isSome then .terminated else .active, terminal, t.body sub event⟩

/-- What `notify` changes. -/
def notified (sub : Subscription) (event : String) : Subscription :=
  { sub with
    seq := sub.seq + 1
    lastBody := if event = "presence" then some (t.body sub event) else sub.lastBody }

/-- A presence subscription whose body is not the one last sent. -/
def Stale (sub : Subscription) : Prop := "presence" ∈ sub.events ∧ sub.lastBody ≠ some (t.presenceBody sub)

instance (sub : Subscription) : Decidable (t.Stale sub) := inferInstanceAs (Decidable (_ ∧ _))

/-- `notifyChanged`. Every turn of the loop concerns its own subscription. -/
def notifyChanged : Authority × List Emit :=
  ({ t with subscriptions := t.subscriptions.map fun sub =>
      if t.Stale sub then t.notified sub "presence" else sub },
    ((t.subscriptions.filter t.Stale).insertionSort targetOrder).map
      (t.notice · "presence" none))

def notifyAll (target event : String) : Authority × List Emit :=
  let concerned (sub : Subscription) : Bool := sub.target = target ∧ event ∈ sub.events
  ({ t with subscriptions := t.subscriptions.map fun sub =>
      if concerned sub then t.notified sub event else sub },
    (t.subscriptions.filter concerned).map (t.notice · event none))

/-- The subscriptions that are due a reason end with it, in the order of their
ids. -/
def terminate (due : Subscription → Option String) : Authority × List Emit :=
  ({ t with subscriptions := t.subscriptions.filter fun sub => due sub = none },
    ((t.subscriptions.filter fun sub => due sub ≠ none).insertionSort idOrder).map fun sub =>
      t.notice sub (sub.events.headD "") (due sub))

/-! ## Publications -/

/-- Set the entry of a stream, in place if there is one. -/
def setPublication (stream : String) (p : Publication) : Authority :=
  { t with publications :=
      if (t.publications.lookup stream).isSome then
        t.publications.map fun e => if e.1 = stream then (stream, p) else e
      else t.publications ++ [(stream, p)] }

def setState (stream : String) (p : Publication) (state : String) : Authority × List Emit :=
  let (t, out) := (t.setPublication stream { p with state := state }).notifyAll stream "publication"
  (t, .publication stream state :: out)

def recvPublish (id publisher stream state : String) (expiresAt : Nat) (variants : List String)
    (sender : String) : Authority × List Emit :=
  if publisher ≠ sender then (t, [.drop "publisher-mismatch"])
  else if ¬ (sender ++ ":").toList <+: stream.toList then (t, [.drop "stream-id-namespace"])
  else if (t.publications.lookup stream).any (id ≤ ·.id) then (t, [.drop "stale-publication"])
  else
    t.setState stream
      { id := id, publisher := sender, state := "", variants := variants, expires := expiresAt }
      state

def recvUnpublish (stream publication publisher sender : String) : Authority × List Emit :=
  let p := t.publications.lookup stream
  if publisher ≠ sender ∨ p.any (·.publisher ≠ sender) then (t, [.drop "publisher-mismatch"])
  else
    match p.filter (·.id = publication) with
    | none => (t, [.drop "unknown-publication"])
    | some p => t.setState stream p "withdrawn"

def recvProvenance (stream publication : String) (st : Statement) (sender : String) : Authority × List Emit :=
  match t.publications.find? fun e => e.2.id = publication with
  | none => (t, [.drop "provenance-unknown-publication"])
  | some (recordStream, p) =>
    if recordStream ≠ stream then (t, [.drop "provenance-stream-mismatch"])
    else if st.processor ≠ sender then (t, [.drop "provenance-processor-mismatch"])
    else if st.inputVariant ∉ p.variants then (t, [.drop "provenance-variant-unknown"])
    else
      let p := { p with provenance := p.provenance ++ [sender] }
      let (t, out) := (t.setPublication stream p).notifyAll stream "publication"
      (t, .provenance stream sender :: out)

/-! ## Presence -/

def refuse (sender id reason : String) (retryAfter : Option Nat := none) : List Emit :=
  [.error sender id reason retryAfter]

def presence (sender : String) (m : Presence) : Authority × List Emit :=
  let audience := if m.audience = "" then none else some m.audience
  let key := recordKey sender audience
  let held := t.held m.subject
  if m.device ≠ some sender ∨ m.subject ≠ t.identityOf sender then
    (t, refuse sender m.id "presence.signer-mismatch")
  else if m.expiresAt < m.issuedAt + recordMinLifetimeS ∨ m.issuedAt + recordMaxLifetimeS < m.expiresAt then
    (t, refuse sender m.id "presence.lifetime")
  else if (held.lookup key).any (m.seq ≤ ·.seq) then (t, refuse sender m.id "presence.stale")
  else
    match (t.lastAccepted.lookup key).filter (t.now < · + publishIntervalS) with
    | some last =>
      (t, refuse sender m.id "policy.rate-limited" (publishIntervalS - (t.now - last)))
    | none =>
      notifyChanged { t with
        records := t.records.insert m.subject (held.insert key (record m sender audience))
        lastAccepted := t.lastAccepted.insert key t.now }

def bindingChange (change : RelayChange) (identity device : String) : Authority × List Emit :=
  let held := t.held identity
  let holds := held.values.any fun r => r.device = device
  match change with
  | .bind =>
    notifyChanged { t with
      bound := t.bound.insert device identity
      seen := insert identity t.seen
      graceUntil := t.graceUntil.erase device }
  | .unbind =>
    let t := { t with bound := t.bound.erase device }
    notifyChanged <|
      if holds ∧ device ∉ t.graceUntil then
        if t.ctx.presenceGrace = 0 then
          { t with records := t.records.insert identity (held.filter fun _ r => r.device ≠ device) }
        else
          { t with graceUntil := t.graceUntil.insert device (t.now + t.ctx.presenceGrace) }
      else t

def revocationKey (identity grant : String) : String := identity ++ "\n" ++ grant

def grantRevocation (sender grant : String) (validUntil : Nat) : Authority × List Emit :=
  let identity := t.identityOf sender
  let t := { t with revoked :=
    if t.now < validUntil then t.revoked.insert (revocationKey identity grant) validUntil
    else t.revoked }
  t.terminate fun sub =>
    if sub.grant.any (·.1 = grant) ∧ sub.target = identity then some "policy.terminated" else none

/-! ## Subscribing -/

/-- A grant that admits a presence subscriber. -/
def admits (target subscriber : String) (g : Grant) : Bool :=
  g.verified ∧ g.identity = target ∧ g.grantee = subscriber ∧ "dsip.subscribe" ∈ g.scope ∧
    t.now < g.validUntil ∧ revocationKey target g.id ∉ t.revoked

def admittingGrant (claims : List Claim) (subscriber target : String) : Option Grant :=
  (claims.filterMap fun c => if c.type = "dsip-grant" then c.grant else none).find?
    (t.admits target subscriber)

/-- What admission fixes of a subscription. -/
structure Admission where
  own : Bool := false
  grant : Option (String × Nat) := none
  audience : Option String := none
  deriving DecidableEq, Repr

def known (target : String) : Bool :=
  target ∈ t.policy ∨ target ∈ t.seen ∨ target ∈ t.ctx.identities.values ∨ target ∈ t.capabilities.values

/-- `admit`. -/
def admission (m : Subscribe) (subscriber : String) : Option Admission :=
  let policy := t.policy.lookup m.target
  let capability := m.capability.any fun token => t.capabilities.lookup token = some m.target
  let byPolicy := policy.any fun pol => pol.mode = "public" ∨ subscriber ∈ pol.allow
  if ¬ t.known m.target ∨ "publication" ∈ m.events ∧ (t.publications.lookup m.target).isNone then none
  else if "presence" ∉ m.events then
    if policy.isSome ∧ (byPolicy ∨ capability) then some {} else none
  else if subscriber = m.target then some { own := true }
  else
    match t.admittingGrant m.claims subscriber m.target with
    | some g => some { grant := some (g.id, g.validUntil), audience := g.presenceAudience }
    | none =>
      if capability then some {}
      else if byPolicy then some { audience := policy.bind (·.audience) }
      else none

/-- The subscription is this device's, for this target and these events. -/
def same (sender : String) (m : Subscribe) (sub : Subscription) : Bool :=
  sub.device = sender ∧ sub.target = m.target ∧ sub.events = m.events

/-- The subscription a `subscribe` renews or ends. -/
def prior (sender : String) (m : Subscribe) : Option Subscription := t.subscriptions.find? (same sender m)

/-- The subscriptions without the first that a `subscribe` renews or ends. -/
def withdraw (sender : String) (m : Subscribe) (state : String) : Authority × List Emit :=
  match t.prior sender m with
  | none => (t, [])
  | some sub =>
    ({ t with subscriptions := t.subscriptions.eraseP (same sender m) }, [.subscription sub.id state])

/-- An admitted subscription, before its first `notify`. -/
def newSubscription (sender subscriber : String) (m : Subscribe) (a : Admission) : Subscription where
  id := m.id
  device := sender
  subscriber := subscriber
  target := m.target
  events := m.events
  expiresAt := t.now + m.expiresIn
  own := a.own
  grant := a.grant
  audience := a.audience
  isSealed := "presence/0.2" ∈ m.profiles

/-- The first notifies, one for each event. -/
def greet (sub : Subscription) (events : List String) : Subscription × List Emit :=
  foldEmit (fun sub event => (t.notified sub event, [t.notice sub event none])) sub events

def subscribe (sender : String) (m : Subscribe) (subscriber : String) :
    Except Fault (Authority × List Emit) :=
  if m.expiresIn = 0 then
    if (t.prior sender m).isSome then .ok (t.withdraw sender m "terminated")
    else .ok (t, [.drop "no-matching-subscription"])
  else
    match t.admission m subscriber with
    | none => .ok (t, [.reject sender m.id "policy.blocked"])
    | some a =>
      if (∃ event ∈ m.events, event ≠ "presence") ∧ (t.publications.lookup m.target).isNone then
        .error .unpublished
      else
        let (t, out) := t.withdraw sender m "replaced"
        let (sub, out') := t.greet (t.newSubscription sender subscriber m a) m.events
        .ok ({ t with subscriptions := t.subscriptions ++ [sub] }, out ++ out')

def recv (sender publisher : String) (m : Message) : Except Fault (Authority × List Emit) :=
  let identity := t.identityOf sender
  match m with
  | .publish id publisher stream state expiresAt variants =>
    .ok (t.recvPublish id publisher stream state expiresAt variants identity)
  | .unpublish stream publication =>
    .ok (t.recvUnpublish stream publication publisher identity)
  | .provenance stream publication st => .ok (t.recvProvenance stream publication st identity)
  | .subscribe m => t.subscribe sender m identity
  | .presence m => .ok (t.presence sender m)
  | .grantRevocation grant validUntil => .ok (t.grantRevocation sender grant validUntil)
  | .other _ => .error .unknownMessage

/-! ## Time -/

/-- A live publication that is over. -/
def expireStream (t : Authority) (stream : String) : Authority × List Emit :=
  match t.publications.lookup stream with
  | none => (t, [])
  | some p =>
    if p.state = "live" ∧ p.expires ≤ t.now then t.setState stream p "expired" else (t, [])

/-- Why a subscription ends as time passes. -/
def lapseDue (sub : Subscription) : Option String :=
  if sub.expiresAt ≤ t.now then some "session.expired"
  else if sub.grant.any (·.2 ≤ t.now) then some "policy.terminated"
  else none

/-- A record past its time, or of a device whose grace has run out, goes. -/
def keeps (r : PresenceRecord) : Bool := t.now < r.expiresAt ∧ (t.graceUntil.lookup r.device).all (t.now < ·)

def advance (n : Nat) : Authority × List Emit :=
  let t := { t with now := t.now + n }
  let (t, out) := foldEmit expireStream t (t.publications.map Prod.fst)
  let (t, out') := t.terminate t.lapseDue
  let t := { t with
    revoked := t.revoked.filter fun _ validUntil => t.now < validUntil
    records := t.records.map fun held => Dict.filter (fun _ r => t.keeps r) held
    graceUntil := t.graceUntil.filter fun _ ends => t.now < ends }
  let (t, out'') := t.notifyChanged
  (t, out ++ out' ++ out'')

/-! ## Steps -/

def step (a : Arrival) : Except Fault (Authority × List Emit) :=
  match a.event with
  | .advance n => .ok (t.advance n)
  | .recv sender m => t.recv sender a.publisher m
  | .policy target pol => .ok ({ t with policy := t.policy.insert target pol }, [])
  | .issueCapability token target =>
    .ok ({ t with capabilities := t.capabilities.insert token target }, [])
  | .relay change identity device => .ok (t.bindingChange change identity device)

def machine (ctx : Context) : TSys Authority Arrival (List Emit) := TSys.ofStep (· = new ctx) step

end Authority

end Dsip.Broadcast.Ts
