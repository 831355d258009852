import Mathlib.Data.List.Basic

/-!
# What crosses a gateway

The reasons of one leg in the terms of the other, and the claim a gateway makes
of a PSTN caller. The tables are the same in both implementations; what they do
with them is not.
-/

namespace Dsip.Gateway

/-! ## SIP to DSIP -/

def q850ToDsip : Nat → Option String
  | 1 | 28 => some "identity.unknown"
  | 16 | 31 => some "user.hangup"
  | 17 => some "endpoint.busy"
  | 18 | 19 | 20 => some "endpoint.unavailable"
  | 21 => some "user.declined"
  | 22 => some "identity.not-in-service"
  | 34 | 38 | 41 | 42 | 43 | 44 => some "gateway.unreachable"
  | 47 => some "media.failed"
  | 63 | 65 | 79 => some "media.unsupported"
  | 102 => some "session.timeout"
  | _ => none

def sipToDsip : Nat → Option String
  | 403 => some "policy.blocked"
  | 404 | 484 | 604 => some "identity.unknown"
  | 408 | 480 => some "endpoint.unavailable"
  | 410 => some "identity.not-in-service"
  | 415 | 488 | 606 => some "media.unsupported"
  | 486 | 600 => some "endpoint.busy"
  | 487 => some "session.cancelled"
  | 502 | 503 | 504 => some "gateway.unreachable"
  | 603 => some "user.declined"
  | _ => none

/-- The reasons of a failed attempt, which once active are `gateway.mapped`. -/
def attemptTokens : List String :=
  ["endpoint.busy", "endpoint.unavailable", "identity.unknown", "identity.not-in-service",
    "identity.moved", "session.cancelled", "user.declined", "policy.blocked"]

inductive Phase where
  | preAnswer
  | active
  | transport
  deriving DecidableEq, Repr

inductive Carry where
  | reject
  | bye
  | error
  deriving DecidableEq, Repr

def Phase.carry : Phase → Carry
  | .preAnswer => .reject
  | .active => .bye
  | .transport => .error

structure Inbound where
  reason : String
  carry : Carry
  detail : Option String
  deriving DecidableEq, Repr

def q850Detail (cause : Nat) : String := "Q.850 " ++ toString cause

def sipDetail (status : Nat) : String := "SIP " ++ toString status

def mapInbound (sipStatus q850 : Option Nat) (phase : Phase) (movedTo : Option String := none) : Inbound :=
  let (token, detail) :=
    match q850.bind q850ToDsip, sipStatus.bind sipToDsip, sipStatus, q850 with
    | some token, _, _, _ => (token, q850.map q850Detail)
    | none, some token, _, _ => (token, sipStatus.map sipDetail)
    | none, none, some status, _ => ("gateway.mapped", some (sipDetail status))
    | none, none, none, some cause => ("gateway.mapped", some (q850Detail cause))
    | none, none, none, none => ("user.hangup", none)
  let (token, detail) :=
    match movedTo.filter (· ≠ "") with
    | some moved =>
      if token = "identity.not-in-service" then ("identity.moved", some moved)
      else (token, detail)
    | none => (token, detail)
  if phase = .active ∧ token ∈ attemptTokens then
    ⟨"gateway.mapped", phase.carry, some (detail.getD token)⟩
  else ⟨token, phase.carry, detail⟩

def reasonInbound (sipStatus q850 : Option Nat) (phase : Phase) : Inbound :=
  match sipStatus, q850 with
  | none, none => ⟨"user.hangup", phase.carry, none⟩
  | _, _ =>
    let byCause := q850.bind q850ToDsip
    let reason := (byCause.orElse fun _ => sipStatus.bind sipToDsip).getD "gateway.mapped"
    let detail :=
      if byCause.isSome ∨ sipStatus = none then q850.map q850Detail else sipStatus.map sipDetail
    if phase = .active ∧ reason ∈ attemptTokens then ⟨"gateway.mapped", phase.carry, detail⟩
    else ⟨reason, phase.carry, detail⟩

/-! ## DSIP to SIP -/

/-- `DSIP_TO_SIP`: the status and, but for one token, the Q.850 cause. -/
def dsipToSip : String → Option (Nat × Option Nat)
  | "user.declined" | "user.blocked" => some (603, some 21)
  | "user.no-answer" => some (480, some 19)
  | "user.cancelled" => some (487, none)
  | "endpoint.busy" => some (486, some 17)
  | "endpoint.unavailable" => some (480, some 18)
  | "endpoint.capability" => some (488, some 79)
  | "identity.not-in-service" | "identity.moved" => some (410, some 22)
  | "identity.suspended" => some (403, some 21)
  | "identity.unknown" => some (404, some 1)
  | "session.expired" | "session.timeout" => some (480, some 102)
  | "session.failed" => some (500, some 41)
  | "media.unsupported" | "media.offer-required" | "media.encryption-required" =>
    some (488, some 65)
  | "policy.blocked" | "policy.trust-insufficient" | "policy.first-contact-required" =>
    some (403, some 21)
  | "policy.rate-limited" | "transport.rate-limited" => some (503, some 42)
  | "policy.terminated" => some (480, some 31)
  | "transport.envelope-too-large" | "transport.hello-required" | "transport.hello-rejected"
  | "transport.routing-refused" => some (503, some 41)
  | "transport.unknown-recipient" => some (404, some 1)
  | "gateway.unreachable" => some (503, some 38)
  | "gateway.mapped" => some (500, some 41)
  | _ => none

/-- A token of no row, by its category. -/
def categoryToSip : String → Nat × Option Nat
  | "user" => (603, some 21)
  | "endpoint" => (480, some 18)
  | "identity" => (404, some 1)
  | "media" => (488, some 65)
  | "policy" => (403, some 21)
  | "transport" => (503, some 41)
  | "gateway" => (503, some 38)
  | _ => (500, some 41)

def byeCauses : String → Option Nat
  | "user.hangup" | "session.already-answered" | "session.cancelled" => some 16
  | "media.failed" => some 47
  | "policy.terminated" => some 31
  | _ => none

/-- The text before the first dot. -/
def category (token : String) : String := String.ofList (token.toList.takeWhile (· ≠ '.'))

/-- `map_outbound` before the answer: a final response. -/
def mapOutbound (token : String) : Nat × Option Nat := (dsipToSip token).getD (categoryToSip (category token))

/-- `map_outbound` of an active call: the cause of a BYE. -/
def byeCause (token : String) : Nat := (byeCauses token).getD (((dsipToSip token).bind (·.2)).getD 16)

/-! ## The PSTN caller -/

def gatewayDid : String := "did:web:gw.example"

/-- What came with the call of its caller's identity. -/
structure CallerIdentity where
  attest : Option String
  verified : Bool
  origTn : Option String
  deriving DecidableEq, Repr

structure TelClaim where
  number : String
  attestation : String
  verified : Bool
  verifier : String := gatewayDid
  cnam : Option String
  deriving DecidableEq, Repr

/-- The basis a client shows for a gateway's claim. -/
def TelClaim.basis (claim : TelClaim) : String :=
  "Gateway attested by gw.example · " ++
    if claim.attestation = "none" then "no attestation"
    else "STIR attestation " ++ claim.attestation ++
      (if claim.verified then " (verified)" else " (unverified)")

def telClaim (fromTn : String) (identity : Option CallerIdentity) (cnam : Option String) : TelClaim :=
  let (attestation, verified) :=
    match identity with
    | none => ("none", false)
    | some i =>
      let attestation := (i.attest.filter (· ≠ "")).getD "none"
      if i.origTn.any fun orig => orig ≠ "" ∧ orig ≠ fromTn then ("none", false)
      else (attestation, i.verified ∧ attestation ≠ "none")
  { number := fromTn, attestation := attestation, verified := verified, cnam := cnam.filter (· ≠ "") }

/-- `telClaim`: a passport for another number is discarded, and one for none. -/
def telClaimTs (fromTn : String) (identity : Option CallerIdentity) (cnam : Option String) : TelClaim :=
  let usable := identity.filter fun i => i.origTn = some fromTn
  { number := fromTn, attestation := (usable.bind (·.attest)).getD "none",
    verified := usable.any (·.verified), cnam := cnam }

end Dsip.Gateway
