import Dsip.Engine.Endpoint

/-!
# What an endpoint makes of a received message

An invite starts a session unless policy or glare refuses it. Every other
message about a session finds its session by id, and the handler of its type
looks at the role and the state of the record: nothing here asks who sent it,
except which leg of a forked call answered.
-/

namespace Dsip.Engine

open Dsip.Lib Dsip.Registry

/-- A responder notes that the initiator has spoken since the answer. -/
def Session.observe (s : Session) (body : SessionBody) : Session :=
  match s.role, s.state, body with
  | .responder, .active, .cancel _ => s
  | .responder, .active, _ => { s with postAnswerSeen := true }
  | _, _, _ => s

namespace Endpoint

variable (e : Endpoint) (s : Session) (m : Msg)

/-! ## Invites and glare -/

/-- First contact: the sender is neither allowed nor holds a grant of ours. -/
def refuses (identity : String) : Bool :=
  e.contacts.firstContactRequired && identity ∉ e.contacts.allow &&
    !e.contacts.hasGrant e.now identity

/-- A live attempt of ours to an identity. -/
def IsRival (identity : String) (s : Session) : Prop :=
  s.role = .initiator ∧ s.Attempting ∧ s.inviteTo.map e.identityOf = some identity

instance (identity : String) : DecidablePred (e.IsRival identity) :=
  fun _ => inferInstanceAs (Decidable (_ ∧ _))

/-- Every live attempt of ours to that identity, by id. -/
def rivals (identity : String) : List Session :=
  (e.sessions.values.filter (e.IsRival identity)).insertionSort fun s t => s.id ≤ t.id

/-- The invite is rejected and its session recorded as ended. -/
def refuseInvite (reason : String) : Endpoint :=
  (e.send (.reject m.sender m.id reason none)).put
    { id := m.id, role := .responder, state := .ended, peer := m.sender }

/-- An invite of ours that lost is withdrawn. -/
def withdraw (e : Endpoint) (glare : Session) : Endpoint :=
  let e := (e.stopAll glare).send (.cancel glare.inviteTo glare.id "session.glare")
  (e.put { glare with cancelled := true, state := .ended }).emit (.ui (.ended "session.glare"))

/-- The invite is offered to the owner. -/
def offer (dest : Option String) (expiresAt : Option Nat) : Endpoint :=
  let s : Session :=
    { id := m.id
      role := .responder
      state := .offered
      peer := m.sender
      inviteTo := dest
      inviteExpiresAt := expiresAt }
  (e.put s).emit (.ui .offered)

def recvInvite (dest : Option String) (expiresAt : Option Nat) : Endpoint :=
  if e.refuses (e.identityOf m.sender) then e.refuseInvite m "policy.first-contact-required"
  else
    match e.rivals (e.identityOf m.sender) with
    | [] =>
      match e.sessions.lookup m.id with
      | none => e.offer m dest expiresAt
      | some s =>
        if s.state = .ended then e.emit (.drop "ended-session")
        else e.send (.error m.sender m.id "session.invalid-state" m.id)
    | first :: rest =>
      -- §12.6: the smallest id of all the invites wins
      if first.id < m.id then e.refuseInvite m "session.glare"
      else
        let e := (first :: rest).foldl withdraw e
        if first.id = m.id then
          (e.send (.reject m.sender m.id "session.glare" none)).emit (.ui .glareRetry)
        else e.offer m dest expiresAt

/-! ## Messages of a session -/

/-- `recv_progress` of status `ringing`: T-Queue is cancelled, and T-Ring starts
anew when the responder says for how long. -/
def progressRinging (ringTimeout : Option Nat) : Endpoint :=
  let s := { s with queueCount := 0 }
  let e := (e.put s).stopTimer s .queue
  match ringTimeout with
  | some rt => e.startTimer s .ring (clamp rt tRingBounds)
  | none => if e.running s .ring = none then e.startTimer s .ring e.tRing else e

/-- `recv_progress` of status `queued`: T-Ring is suspended. More re-queues than
allowed count as the expiry of T-Queue. -/
def progressQueued (queueTimeout : Option Nat) : Except Fault Endpoint :=
  let s := { s with queueCount := s.queueCount + 1 }
  let e := e.put s
  if maxConsecutiveRequeues < s.queueCount then .ok (e.timeOut s)
  else
    let e := e.stopTimer s .ring
    match queueTimeout with
    | none => .error .noQueueTimeout
    | some qt => .ok (e.startTimer s .queue (min qt tQueueCap))

/-- `recv_progress` of any other status: T-Ring is the backstop. -/
def progressOther : Endpoint :=
  if e.running s .ring = none ∧ e.running s .queue = none then e.startTimer s .ring e.tRing else e

def recvProgress (status : String) (ringTimeout queueTimeout : Option Nat) : Except Fault Endpoint :=
  if s.role ≠ .initiator ∨ ¬ s.Attempting then .ok (e.error m "session.invalid-state")
  else
    let e := e.stopTimer s .establish
    let s := { s with state := .proceeding }
    let e := (e.put s).emit (.ui (.progress (effectiveProgressStatus status)))
    match effectiveProgressStatus status with
    | .ringing => .ok (e.progressRinging s ringTimeout)
    | .queued => e.progressQueued s queueTimeout
    | _ => .ok (e.progressOther s)

def recvAnswer (answeredBy : String) (inReplyTo : Option String) : Endpoint :=
  if s.role ≠ .initiator ∧ ¬ (s.state = .active ∧ inReplyTo.isSome) then
    e.error m "session.invalid-state"
  else if s.Attempting then
    match inReplyTo with
    | some _ => e.error m "session.invalid-state"
    | none =>
      let e := (e.stopAll s).put { s with
        state := .active, wasActive := true, answeredDevice := m.sender, peer := m.sender }
      let e := (e.emit (.media .start)).emit
        (.ui (.answered (effectiveAnsweredBy answeredBy)))
      -- forked delivery: the other legs are withdrawn
      if some m.sender ≠ s.inviteTo then
        e.send (.cancel s.inviteTo s.id "session.answered-elsewhere")
      else e
  else if s.state = .active then
    match inReplyTo with
    | some id =>
      if s.outstanding = some ⟨id, .outbound⟩ then
        (e.put { s with outstanding := none }).emit (.media .applyUpdate)
      else e.emit (.drop "stale-update-reply")
    | none =>
      if some m.sender ≠ s.answeredDevice then
        e.send (.bye m.sender s.id "session.already-answered")
      else e.error m "session.invalid-state"
  else e.error m "session.invalid-state"

def recvReject (token : String) (inReplyTo : Option String) : Endpoint :=
  let reason := (resolveReason token .reject).effective
  if s.role = .initiator ∧ s.Attempting ∧ inReplyTo = none then e.endSession s reason false
  else
    match s.state, inReplyTo with
    | .active, some id =>
      if s.outstanding = some ⟨id, .outbound⟩ then
        (e.put { s with outstanding := none }).emit (.ui (.updateRejected reason))
      else e.emit (.drop "stale-update-reply")
    | _, _ => e.error m "session.invalid-state"

def recvCancel (token : String) : Endpoint :=
  let reason := (resolveReason token .cancel).effective
  if s.role ≠ .responder then e.error m "session.invalid-state"
  else
    match s.state with
    | .offered => e.endSession s reason false
    | .alerting =>
      let e := e.stopAll s
      let e := if reason ≠ "session.answered-elsewhere" then e.emit (.ui .missedCall) else e
      e.endSession s reason false
    | .active =>
      -- §12.5 rule 2: the cancel crossed our answer
      if reason ≠ "session.answered-elsewhere" ∧ s.postAnswerSeen = false then
        e.endSession s reason true
      else e.error m "session.invalid-state"
    | _ => e.error m "session.invalid-state"

/-- An update is put before the owner. -/
def offerUpdate (answeredBy : Option String) : Endpoint :=
  let e := (e.put { s with outstanding := some ⟨m.id, .inbound⟩ }).emit (.ui .updateOffered)
  match answeredBy with
  | none => e
  | some v => e.emit (.ui (.answered (effectiveAnsweredBy v)))

/-- `recv_update`: of two that crossed the one with the smaller id proceeds. -/
def recvUpdate (answeredBy : Option String) : Endpoint :=
  if s.state ≠ .active then e.error m "session.invalid-state"
  else
    match s.outstanding with
    | none => e.offerUpdate s m answeredBy
    | some ⟨id, .outbound⟩ =>
      if id < m.id then e.send (.reject m.sender s.id "session.glare" m.id)
      else (e.emit (.ui (.updateRejected "session.glare"))).offerUpdate s m answeredBy
    | some ⟨_, .inbound⟩ =>
      -- §12.8 rule 4: neither is processed
      (e.put { s with outstanding := none }).error m "session.update-pending"

def recvInfo (about : Option String) : Endpoint :=
  if s.state ≠ .active then e.error m "session.invalid-state"
  else
    match about.filter (· ∈ knownInfoAbout) with
    | none => e.emit (.drop "unknown-about")
    | some about => e.emit (.info about)

def recvBye (token : String) : Endpoint :=
  if s.state ≠ .active then e.error m "session.invalid-state"
  else e.endSession s (resolveReason token .bye).effective true

def recvHello : Endpoint := e.error m "session.invalid-state"

/-- The handler of a message's type. -/
def handle : SessionBody → Except Fault Endpoint
  | .progress status ringTimeout queueTimeout =>
    e.recvProgress s m status ringTimeout queueTimeout
  | .answer answeredBy inReplyTo => .ok (e.recvAnswer s m answeredBy inReplyTo)
  | .reject token inReplyTo => .ok (e.recvReject s m token inReplyTo)
  | .cancel token => .ok (e.recvCancel s m token)
  | .update answeredBy => .ok (e.recvUpdate s m answeredBy)
  | .info about => .ok (e.recvInfo s m about)
  | .bye token => .ok (e.recvBye s m token)
  | .hello => .ok (e.recvHello m)

/-- A message for an ended session: a late answer is hung up on, for the reason
the attempt ended. -/
def recvEnded (body : SessionBody) : Endpoint :=
  match s.role, body with
  | .initiator, .answer _ none =>
    e.send (.bye m.sender s.id
      (if s.cancelled then "session.cancelled"
        else if s.wasActive then "session.already-answered"
        else "session.failed"))
  | _, _ => e.emit (.drop "ended-session")

/-- A message about a session. -/
def recvHeld (body : SessionBody) : Except Fault Endpoint :=
  match m.session.bind fun sid => e.sessions.lookup sid with
  | none => .ok (e.error m "session.unknown-session")
  | some s =>
    if s.state = .ended then .ok (e.recvEnded s m body)
    else (e.put (s.observe body)).handle (s.observe body) m body

/-! ## Dispatch -/

/-- An error: the relay's own ends an attempt of ours that stayed without
response. -/
def recvError (reason : Option String) : Endpoint :=
  match m.session.bind fun sid => e.sessions.lookup sid with
  | none => e.emit (.ui (.error reason))
  | some s =>
    if reason = some "transport.no-response" ∧ s.role = .initiator ∧ s.Attempting then
      e.endSession s "transport.no-response" false
    else e.emit (.ui (.error reason))

/-- A reject that answers an introduction of ours. -/
def introductionRejected (introduction token : String) : Endpoint :=
  { e with contacts := { e.contacts with pendingSent := e.contacts.pendingSent.erase introduction } }.emit
    (.ui (.introductionRejected (resolveReason token .reject).effective))

/-- A message of a session: a reject may answer an introduction instead. -/
def recvSession (body : SessionBody) : Except Fault Endpoint :=
  match body, m.session.filter (· ∈ e.contacts.pendingSent) with
  | .reject token _, some introduction => .ok (e.introductionRejected introduction token)
  | _, _ => e.recvHeld m body

def recv : Except Fault Endpoint :=
  match m.body with
  | .invite dest expiresAt => .ok (e.recvInvite m dest expiresAt)
  | .error reason => .ok (e.recvError m reason)
  | .introduction contactToken =>
    .ok (e.withContacts
      (e.contacts.recvIntroduction e.now m.id m.sender (e.identityOf m.sender) contactToken))
  | .grant scope validUntil presenceKeys =>
    .ok (e.withContacts
      (e.contacts.recvGrant e.now m.id m.session (e.identityOf m.sender) scope validUntil
        presenceKeys))
  | .presence kid subject =>
    (e.contacts.recvOwnRecord e.now e.identity kid subject).map e.withContacts
  | .session body => e.recvSession m body

end Endpoint

end Dsip.Engine
