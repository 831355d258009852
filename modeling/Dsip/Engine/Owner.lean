import Dsip.Engine.Endpoint

/-!
# What the owner of an endpoint does

The local events: placing a call, and everything that names a held session. An
event that the state of the session does not allow is refused, and nothing else
happens.
-/

namespace Dsip.Engine

open Dsip.Lib Dsip.Registry

namespace Endpoint

variable (e : Endpoint) (s : Session)

/-- `local` place_call. A session id is used once: a held session, live or
ended, is never overwritten. -/
def placeCall (sid dest : String) : Endpoint :=
  if sid ∈ e.sessions then e.emit (.refused "invalid-state")
  else
    let s : Session := { id := sid, role := .initiator, state := .inviting, peer := dest, inviteTo := dest }
    let e := e.put s
    let e := e.send (.invite dest sid (e.contacts.heldGrantFor e.now (e.identityOf dest)))
    e.startTimer s .establish e.tEstablish

/-- `local` cancel. -/
def localCancel : Endpoint :=
  if s.role = .initiator ∧ s.Attempting then
    ((e.stopAll s).send (.cancel s.inviteTo s.id "user.cancelled")).put
      { s with cancelled := true, state := .ended }
  else e.emit (.refused "invalid-state")

/-- `local` hangup: an empty reason counts as none. -/
def localHangup (reason : Option String) : Endpoint :=
  if s.state = .active then
    let e := e.stopAll s
    let e := e.send (.bye s.peer s.id ((reason.filter (· ≠ "")).getD "user.hangup"))
    (e.emit (.media .stop)).put { s with outstanding := none, state := .ended }
  else e.emit (.refused "invalid-state")

/-- `local` alert: an invite that expired before alerting is rejected. A
`ring_timeout` of 0 is sent, and counts as none for T-Ring-Local. -/
def localAlert (ringTimeout : Option Nat) : Except Fault Endpoint :=
  if s.role = .responder ∧ s.state = .offered then
    match s.inviteExpiresAt with
    | none => .error .noExpiry
    | some expiresAt =>
      if expiresAt ≤ e.now then
        .ok ((e.send (.reject s.peer s.id "session.expired" none)).endSession s none false)
      else
        let e := e.send (.progress s.peer s.id "ringing" ringTimeout)
        let s := { s with state := .alerting }
        .ok ((e.put s).startTimer s .ringLocal
          (match ringTimeout.filter (· ≠ 0) with
            | some rt => clamp rt tRingLocalBounds
            | none => e.tRingLocal))
  else .ok (e.emit (.refused "invalid-state"))

/-- `local` auto_reject. -/
def localAutoReject (reason : String) : Endpoint :=
  if s.role = .responder ∧ s.state = .offered then
    (e.send (.reject s.peer s.id reason none)).endSession s none false
  else e.emit (.refused "invalid-state")

/-- `local` accept. -/
def localAccept (answeredBy : Option String) : Endpoint :=
  if s.role = .responder ∧ s.state = .alerting then
    let e := (e.stopAll s).send (.answer s.peer s.id (answeredBy.getD "user") none)
    (e.put { s with state := .active, wasActive := true }).emit (.media .start)
  else e.emit (.refused "invalid-state")

/-- `local` decline. -/
def localDecline (reason : Option String) : Endpoint :=
  if s.role = .responder ∧ s.state = .alerting then
    ((e.stopAll s).send (.reject s.peer s.id (reason.getD "user.declined") none)).endSession s none
      false
  else e.emit (.refused "invalid-state")

/-- `local` update: one outstanding, both directions. -/
def localUpdate (id : String) (answeredBy : Option String) : Endpoint :=
  if s.state ≠ .active then e.emit (.refused "invalid-state")
  else if s.outstanding.isSome then e.emit (.refused "update-pending")
  else
    (e.send (.update s.peer s.id id answeredBy)).put { s with outstanding := some ⟨id, .outbound⟩ }

/-- `local` answer_update. -/
def localAnswerUpdate (inReplyTo : String) (answeredBy : Option String) : Endpoint :=
  if s.state = .active ∧ s.outstanding = some ⟨inReplyTo, .inbound⟩ then
    let e := e.send (.answer s.peer s.id (answeredBy.getD "user") inReplyTo)
    (e.emit (.media .applyUpdate)).put { s with outstanding := none }
  else e.emit (.refused "no-pending-update")

/-- `local` reject_update. -/
def localRejectUpdate (inReplyTo reason : String) : Endpoint :=
  if s.state = .active ∧ s.outstanding = some ⟨inReplyTo, .inbound⟩ then
    (e.send (.reject s.peer s.id reason inReplyTo)).put { s with outstanding := none }
  else e.emit (.refused "no-pending-update")

/-- `local` info. -/
def localInfo : Endpoint :=
  if s.state = .active then e.send (.info s.peer s.id) else e.emit (.refused "invalid-state")

/-- A local event on a held session. -/
def callEvent : CallEvent → Except Fault Endpoint
  | .cancel => .ok (e.localCancel s)
  | .hangup reason => .ok (e.localHangup s reason)
  | .alert ringTimeout => e.localAlert s ringTimeout
  | .autoReject reason => .ok (e.localAutoReject s reason)
  | .accept answeredBy => .ok (e.localAccept s answeredBy)
  | .decline reason => .ok (e.localDecline s reason)
  | .update id answeredBy => .ok (e.localUpdate s id answeredBy)
  | .answerUpdate inReplyTo answeredBy => .ok (e.localAnswerUpdate s inReplyTo answeredBy)
  | .rejectUpdate inReplyTo reason => .ok (e.localRejectUpdate s inReplyTo reason)
  | .info => .ok (e.localInfo s)

/-- `local`, for an event that names a session. -/
def call (sid : String) (event : CallEvent) : Except Fault Endpoint :=
  match e.sessions.lookup sid with
  | none => .ok (e.emit (.refused "unknown-session"))
  | some s => e.callEvent s event

end Endpoint

end Dsip.Engine
