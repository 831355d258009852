import Dsip.Gateway.Call

/-!
# The TypeScript controller

The second implementation of the controller. It keeps no note of a cancel, takes
responses and SIP requests in either direction, and throws where it is sent what
no peer of its direction sends.
-/

namespace Dsip.Gateway.Ts

open Dsip.Lib

inductive Fault where
  | unexpectedDsip (type : String)
  | unexpectedSip (request : String)
  /-- A `reject` or `bye` of no reason. -/
  | noReason
  deriving DecidableEq, Repr

/-- `GatewayCall`. -/
structure Call where
  ctx : Context
  dsip : DsipLeg := .idle
  sip : SipLeg := .idle
  answered : Bool := false
  deriving DecidableEq, Repr

namespace Call

variable (c : Call)

def up : Bool := c.dsip = .active ∧ c.answered

def timerC : Call × List Emit :=
  ({ c with dsip := .ended, sip := .terminated },
    [.sip .cancel, .dsip (.autoReject "gateway.unreachable" (some "SIP Timer C"))])

/-- The messages that both directions send. -/
def fromEither (m : DsipMessage) : Except Fault (Call × List Emit) :=
  match m with
  | .update direction => .ok (c, [.sip (.reInvite direction)])
  | .bye (some reason) =>
    .ok ({ c with dsip := .ended, sip := .terminated }, [.sip (.bye (byeCause reason) reason), .release])
  | .bye none => .error .noReason
  | m => .error (.unexpectedDsip m.type)

def fromDsip (m : DsipMessage) : Except Fault (Call × List Emit) :=
  match m, c.ctx.direction with
  | .info about data, _ =>
    if about ≠ "media:dtmf" then .ok (c, [.ignore ("dsip info " ++ about)])
    else if ¬ c.up then .ok (c, [.ignore "dsip dtmf outside the established call"])
    else .ok (c, [.sip (.info data)])
  | .invite, .outbound => .ok ({ c with dsip := .inviting, sip := .calling }, [.sip .invite])
  | .cancel, .outbound => .ok ({ c with dsip := .ended }, [.sip .cancel])
  | .progress status, .inbound =>
    .ok ({ c with dsip := .alerting },
      if status = "ringing" then [.sip (.respond 180)] else [])
  | .answer answeredBy, .inbound =>
    .ok ({ c with dsip := .active, sip := .confirmed, answered := true },
      [.sip (.answer (if answeredBy = some "screening" then "sendonly" else "sendrecv")), .bridge])
  | .reject (some reason), .inbound =>
    let (status, cause) := mapOutbound reason
    .ok ({ c with dsip := .ended, sip := .terminated }, [.sip (.refuse status cause reason)])
  | .reject none, .inbound => .error .noReason
  | m, _ => c.fromEither m

/-- A 183 with media that answers the DSIP leg. -/
def answersEarly (r : Response) : Bool := r.status = 183 ∧ r.sdp ∧ c.ctx.earlyMedia ≠ .never ∧ ¬ c.answered

/-- The gateway answers the DSIP leg. -/
def answer : Call × List Emit := ({ c with dsip := .active, answered := true }, [.dsip .accept, .bridge])

def sipResponse (r : Response) : Call × List Emit :=
  if r.status = 100 then (c, [])
  else if r.status < 200 then
    let (c, out) :=
      if c.dsip = .inviting then ({ c with sip := .early, dsip := .proceeding }, [.dsip .alert])
      else ({ c with sip := .early }, [])
    if c.answersEarly r then (c.answer.1, out ++ c.answer.2) else (c, out)
  else if r.status < 300 then
    if c.dsip = .ended then
      ({ c with sip := .terminated },
        [.sip .ack, .sip (.bye (byeCause "session.cancelled") "session.cancelled")])
    else if c.answered then ({ c with sip := .confirmed }, [.sip .ack])
    else
      let c := { c with sip := .confirmed }
      (c.answer.1, .sip .ack :: c.answer.2)
  else if c.dsip = .ended then ({ c with sip := .terminated }, [])
  else
    let mapped := reasonInbound (some r.status) r.q850 (if c.answered then .active else .preAnswer)
    ({ c with sip := .terminated, dsip := .ended },
      if c.answered then [.dsip (.hangup mapped.reason mapped.detail)]
      else [.dsip (.autoReject mapped.reason mapped.detail)])

def fromSip : SipMessage → Except Fault (Call × List Emit)
  | .dtmf digits durationMs =>
    if c.up then .ok (c, [.dsip (.info ⟨some digits, durationMs⟩)])
    else .ok (c, [.ignore "sip dtmf outside the established call"])
  | .response r => .ok (c.sipResponse r)
  | .invite fromTn identity cnam =>
    let claim := telClaimTs fromTn identity cnam
    .ok ({ c with dsip := .offered, sip := .early },
      [.dsip (.placeCall claim claim.basis), .sip (.respond 100)])
  | .ack => .ok (c, [])
  | .cancel =>
    .ok ({ c with dsip := .ended, sip := .terminated },
      [.sip (.respond 200), .dsip .cancel, .sip (.respond 487)])
  | .bye q850 =>
    .ok ({ c with dsip := .ended, sip := .terminated },
      [.sip (.respond 200), .dsip (.hangup (reasonInbound none q850 .active).reason), .release])
  | .refer => .ok (c, [.sip (.respond 603)])
  | .reInvite direction => .ok (c, [.dsip (.update direction)])
  | .info dtmf =>
    .ok (c, [.sip (.respond 200),
      if c.up then .dsip (.info (dtmf.getD ⟨none, none⟩))
      else .ignore "sip dtmf outside the established call"])
  | .other request => .error (.unexpectedSip request)

def step (c : Call) : Event → Except Fault (Call × List Emit)
  | .timerC => .ok c.timerC
  | .dsip m => c.fromDsip m
  | .sip m => c.fromSip m

def machine (ctx : Context) : TSys Call Event (List Emit) := TSys.ofStep (· = { ctx := ctx }) step

end Call

end Dsip.Gateway.Ts
