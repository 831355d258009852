import Dsip.Gateway.Reasons
import Dsip.Lib.TSys

/-!
# A call through a gateway

The controller of one call: a DSIP leg, a SIP leg, and the media between them.
It is told what arrives on either leg, and of SIP's Timer C, and says what goes
out on both.
-/

namespace Dsip.Gateway

open Dsip.Lib

inductive Direction where
  | outbound
  | inbound
  deriving DecidableEq, Repr

inductive EarlyMedia where
  | auto
  | always
  | never
  deriving DecidableEq, Repr

/-- Outbound: inviting, proceeding, active, ended; inbound: offered, alerting,
active, ended. -/
inductive DsipLeg where
  | idle
  | inviting
  | proceeding
  | offered
  | alerting
  | active
  | ended
  deriving DecidableEq, Repr

def DsipLeg.name : DsipLeg → String
  | .idle => "idle"
  | .inviting => "inviting"
  | .proceeding => "proceeding"
  | .offered => "offered"
  | .alerting => "alerting"
  | .active => "active"
  | .ended => "ended"

inductive SipLeg where
  | idle
  | calling
  | early
  | confirmed
  | terminated
  deriving DecidableEq, Repr

/-! ## What comes in -/

structure Dtmf where
  digits : Option String
  durationMs : Option Nat
  deriving DecidableEq, Repr

inductive DsipMessage where
  | invite
  | cancel
  | progress (status : String)
  | answer (answeredBy : Option String)
  | reject (reason : Option String)
  | update (direction : Option String)
  | info (about : String) (data : Dtmf)
  | bye (reason : Option String)
  | other (type : String)
  deriving DecidableEq, Repr

def DsipMessage.type : DsipMessage → String
  | .invite => "invite"
  | .cancel => "cancel"
  | .progress _ => "progress"
  | .answer _ => "answer"
  | .reject _ => "reject"
  | .update _ => "update"
  | .info _ _ => "info"
  | .bye _ => "bye"
  | .other type => type

/-- A SIP response. `sdp` says that it has a body. -/
structure Response where
  status : Nat
  sdp : Bool := false
  announcement : Option String := none
  q850 : Option Nat := none
  movedTo : Option String := none
  deriving DecidableEq, Repr

inductive SipMessage where
  | response (r : Response)
  | invite (fromTn : String) (identity : Option CallerIdentity) (cnam : Option String)
  | cancel
  | ack
  | bye (q850 : Option Nat)
  | info (dtmf : Option Dtmf)
  | refer
  | reInvite (direction : Option String)
  /-- A telephone-event of the media. -/
  | dtmf (digits : String) (durationMs : Option Nat)
  | other (request : String)
  deriving DecidableEq, Repr

inductive Event where
  | dsip (m : DsipMessage)
  | sip (m : SipMessage)
  | timerC
  deriving DecidableEq, Repr

/-! ## What goes out -/

/-- On the SIP leg. A reason crosses as text beside its Q.850 cause. -/
inductive SipOut where
  | invite
  | cancel
  | ack
  | respond (status : Nat)
  /-- 200 to the INVITE. -/
  | answer (direction : String)
  | refuse (status : Nat) (q850 : Option Nat) (reason : String)
  | bye (q850 : Nat) (reason : String)
  | info (dtmf : Dtmf)
  | reInvite (direction : Option String)
  deriving DecidableEq, Repr

/-- What the DSIP engine is told to do. -/
inductive Local where
  | placeCall (claim : TelClaim) (trustBasis : String)
  | alert
  /-- Answered by the gateway. -/
  | accept
  | cancel
  | autoReject (reason : String) (detail : Option String)
  | hangup (reason : String) (detail : Option String := none)
  | info (dtmf : Dtmf)
  | update (direction : Option String)
  deriving DecidableEq, Repr

inductive Emit where
  | sip (out : SipOut)
  | dsip (ev : Local)
  | bridge
  | release
  | ignore (what : String)
  | ignoreSip (m : SipMessage)
  deriving DecidableEq, Repr

/-! ## The controller -/

structure Context where
  direction : Direction := .outbound
  earlyMedia : EarlyMedia := .auto
  deriving DecidableEq, Repr

/-- `GatewayCall`. -/
structure Call where
  ctx : Context
  dsip : DsipLeg := .idle
  sip : SipLeg := .idle
  answered : Bool := false
  cancelled : Bool := false
  deriving DecidableEq, Repr

namespace Call

variable (c : Call)

def carriesDtmf : Bool := c.answered ∧ c.dsip ≠ .ended

/-- A 183 with media that answers the DSIP leg. -/
def answersEarly (r : Response) : Bool :=
  r.sdp ∧ r.status = 183 ∧ ¬ c.answered ∧ ¬ r.announcement.any (· ≠ "") ∧
    (c.ctx.earlyMedia = .auto ∨ c.ctx.earlyMedia = .always)

/-- The gateway answers the DSIP leg. -/
def answer : Call × List Emit := ({ c with answered := true, dsip := .active }, [.dsip .accept, .bridge])

def fromDsip : DsipMessage → Call × List Emit
  | .invite =>
    if c.ctx.direction = .outbound then
      ({ c with dsip := .inviting, sip := .calling }, [.sip .invite])
    else (c, [.ignore ("dsip invite in " ++ c.dsip.name)])
  | .cancel =>
    if c.ctx.direction = .outbound then
      ({ c with cancelled := true, dsip := .ended },
        if c.sip = .calling ∨ c.sip = .early then [.sip .cancel] else [])
    else (c, [.ignore ("dsip cancel in " ++ c.dsip.name)])
  | .progress _ =>
    if c.ctx.direction = .inbound then ({ c with dsip := .alerting }, [.sip (.respond 180)])
    else (c, [.ignore ("dsip progress in " ++ c.dsip.name)])
  | .answer answeredBy =>
    if c.ctx.direction = .inbound then
      ({ c with dsip := .active, sip := .confirmed, answered := true },
        [.sip (.answer (if answeredBy = some "screening" then "sendonly" else "sendrecv")), .bridge])
    else (c, [.ignore ("dsip answer in " ++ c.dsip.name)])
  | .reject reason =>
    if c.ctx.direction = .inbound then
      let token := reason.getD "session.failed"
      let (status, cause) := mapOutbound token
      ({ c with dsip := .ended, sip := .terminated }, [.sip (.refuse status cause token)])
    else (c, [.ignore ("dsip reject in " ++ c.dsip.name)])
  | .update direction => (c, [.sip (.reInvite (some (direction.getD "sendrecv")))])
  | .info about data =>
    if about ≠ "media:dtmf" then (c, [.ignore ("dsip info " ++ about)])
    else if ¬ c.carriesDtmf then (c, [.ignore "dsip dtmf outside the established call"])
    else (c, [.sip (.info data)])
  | .bye reason =>
    let token := reason.getD "user.hangup"
    if c.sip = .calling ∨ c.sip = .early ∨ c.sip = .confirmed then
      ({ c with dsip := .ended, sip := .terminated }, [.sip (.bye (byeCause token) token), .release])
    else ({ c with dsip := .ended }, [.release])
  | .other type => (c, [.ignore ("dsip " ++ type ++ " in " ++ c.dsip.name)])

/-- A response to the gateway's INVITE. -/
def response (r : Response) : Call × List Emit :=
  if c.cancelled then
    ({ c with sip := .terminated },
      if 200 ≤ r.status ∧ r.status < 300 then [.sip .ack, .sip (.bye 16 "session.cancelled")]
      else [])
  else if 100 ≤ r.status ∧ r.status < 200 then
    let (c, out) :=
      if 180 ≤ r.status then
        if c.dsip = .inviting then
          ({ c with sip := .early, dsip := .proceeding }, [.dsip .alert])
        else ({ c with sip := .early }, [])
      else (c, [])
    if c.answersEarly r then (c.answer.1, out ++ c.answer.2) else (c, out)
  else if 200 ≤ r.status ∧ r.status < 300 then
    let c := { c with sip := .confirmed }
    if ¬ c.answered then (c.answer.1, .sip .ack :: c.answer.2) else (c, [.sip .ack])
  else if 300 ≤ r.status then
    if c.dsip = .ended then ({ c with sip := .terminated }, [])
    else
      let mapped := mapInbound (some r.status) r.q850
        (if c.answered then .active else .preAnswer) r.movedTo
      ({ c with sip := .terminated, dsip := .ended },
        if mapped.carry = .reject then [.dsip (.autoReject mapped.reason mapped.detail)]
        else [.dsip (.hangup mapped.reason), .release])
  else (c, [])

def fromSip : SipMessage → Call × List Emit
  | .response r =>
    if c.ctx.direction = .outbound then c.response r else (c, [.ignoreSip (.response r)])
  | .invite fromTn identity cnam =>
    if c.ctx.direction = .inbound then
      let claim := telClaim fromTn identity cnam
      ({ c with dsip := .offered, sip := .early },
        [.dsip (.placeCall claim claim.basis), .sip (.respond 100)])
    else (c, [.ignoreSip (.invite fromTn identity cnam)])
  | .cancel =>
    if c.ctx.direction = .inbound then
      if c.dsip = .offered ∨ c.dsip = .alerting then
        ({ c with sip := .terminated, dsip := .ended },
          [.sip (.respond 200), .dsip .cancel, .sip (.respond 487)])
      else ({ c with sip := .terminated }, [.sip (.respond 200)])
    else (c, [.ignoreSip .cancel])
  | .ack => (c, [])
  | .bye q850 =>
    if c.dsip = .ended then ({ c with sip := .terminated }, [.sip (.respond 200)])
    else
      ({ c with sip := .terminated, dsip := .ended },
        [.sip (.respond 200), .dsip (.hangup (mapInbound none q850 .active).reason), .release])
  | .info dtmf =>
    match dtmf with
    | none => (c, [.sip (.respond 200)])
    | some data =>
      if c.carriesDtmf then (c, [.sip (.respond 200), .dsip (.info data)])
      else (c, [.sip (.respond 200), .ignore "sip dtmf outside the established call"])
  | .dtmf digits durationMs =>
    if c.carriesDtmf then (c, [.dsip (.info ⟨some digits, durationMs⟩)])
    else (c, [.ignore "sip dtmf outside the established call"])
  | .refer => (c, [.sip (.respond 603)])
  | .reInvite direction => (c, [.dsip (.update (some (direction.getD "sendrecv")))])
  | .other request => (c, [.ignoreSip (.other request)])

def timerC : Call × List Emit :=
  if (c.sip = .calling ∨ c.sip = .early) ∧ ¬ c.answered then
    ({ c with sip := .terminated, dsip := .ended },
      [.sip .cancel, .dsip (.autoReject "gateway.unreachable" (some "SIP Timer C"))])
  else (c, [])

def step (c : Call) : Event → Call × List Emit
  | .dsip m => c.fromDsip m
  | .sip m => c.fromSip m
  | .timerC => c.timerC

def machine (ctx : Context) : TSys Call Event (List Emit) := TSys.ofTotal (· = { ctx := ctx }) step

end Call

end Dsip.Gateway
