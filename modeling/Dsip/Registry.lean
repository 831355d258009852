import Mathlib.Data.String.Basic

/-!
# The core registries

Reason tokens, answering parties and progress statuses are open sets: a value
that is well formed and not registered never fails, it falls back to its
category or to a registered value.
-/

namespace Dsip.Registry

/-- The message types that carry a reason. -/
inductive ReasonType where
  | reject
  | cancel
  | bye
  | error
  deriving DecidableEq, Repr

def categories : List String :=
  ["user", "endpoint", "identity", "session", "media", "policy", "transport", "gateway",
    "mailbox", "presence"]

/-- `REASONS`: a token and the message types it is valid on. -/
def reasons : List (String × List ReasonType) :=
  [("user.declined", [.reject, .bye]), ("user.no-answer", [.reject]), ("user.hangup", [.bye]),
    ("user.cancelled", [.cancel]),
    ("user.blocked", [.reject]),
    ("endpoint.busy", [.reject]),
    ("endpoint.unavailable", [.reject]),
    ("endpoint.capability", [.reject]),
    ("identity.not-in-service", [.reject, .error]),
    ("identity.moved", [.reject]),
    ("identity.suspended", [.reject]),
    ("identity.unknown", [.reject, .error]),
    ("session.expired", [.reject]),
    ("session.timeout", [.cancel, .bye]),
    ("session.glare", [.reject, .cancel]),
    ("session.answered-elsewhere", [.cancel]),
    ("session.already-answered", [.bye]),
    ("session.cancelled", [.bye]),
    ("session.invalid-state", [.error]),
    ("session.unknown-session", [.error]),
    ("session.update-pending", [.error]),
    ("session.unsupported-core-version", [.reject, .error]),
    ("session.unsupported-profile-version", [.reject, .error]),
    ("session.unsupported-critical-extension", [.reject, .error]),
    ("session.version-downgrade-detected", [.error]),
    ("session.unsupported-wire-format", [.error]),
    ("session.failed", [.reject, .bye, .error]),
    ("media.unsupported", [.reject, .bye]),
    ("media.offer-required", [.reject]),
    ("media.encryption-required", [.reject]),
    ("media.failed", [.bye]),
    ("policy.trust-insufficient", [.reject]),
    ("policy.first-contact-required", [.reject]),
    ("policy.blocked", [.reject, .cancel]),
    ("policy.terminated", [.bye]),
    ("policy.recording-declined", [.reject, .bye]),
    ("policy.rate-limited", [.reject, .error]),
    ("policy.subscription-lifetime", [.error]),
    ("transport.envelope-too-large", [.error]),
    ("transport.hello-required", [.error]),
    ("transport.hello-rejected", [.error]),
    ("transport.routing-refused", [.error]),
    ("transport.unknown-recipient", [.error]),
    ("transport.rate-limited", [.error]),
    ("transport.no-response", [.error]),
    ("transport.replaced", [.error]),
    ("gateway.unreachable", [.reject, .bye, .error]),
    ("gateway.downgraded", [.error]),
    ("gateway.mapped", [.reject, .bye, .error]),
    ("mailbox.commit-conflict", [.error]),
    ("mailbox.stale-epoch", [.error]),
    ("mailbox.unknown-group", [.error]),
    ("mailbox.cursor-invalid", [.error]),
    ("mailbox.object-too-large", [.error]),
    ("mailbox.quota-exceeded", [.error]),
    ("mailbox.no-key-packages", [.error]),
    ("mailbox.unsupported-class", [.error]),
    ("mailbox.unsupported-mode", [.error]),
    ("mailbox.blob-mismatch", [.error]),
    ("mailbox.hub-unreachable", [.error]),
    ("mailbox.not-served", [.error]),
    ("mailbox.not-enrolled", [.error]),
    ("presence.signer-mismatch", [.error]),
    ("presence.sealed-invalid", [.error]),
    ("presence.lifetime", [.error]),
    ("presence.stale", [.error])]

/-- The category of a token: what stands before its first dot. -/
def category (token : String) : String := String.ofList (token.toList.takeWhile (· ≠ '.'))

inductive Fallback where
  | none
  | category
  | unknownCategory
  deriving DecidableEq, Repr

structure ReasonResolution where
  token : String
  effective : String
  fallback : Fallback
  validOnType : Bool
  deriving DecidableEq, Repr

/-- `resolve_reason`: the §15.1 fallback rule, for the type that carries the
token. -/
def resolveReason (token : String) (type : ReasonType) : ReasonResolution :=
  match reasons.lookup token with
  | some types => ⟨token, token, .none, type ∈ types⟩
  | none =>
    if category token ∈ categories then ⟨token, token, .category, true⟩
    else ⟨token, "session.failed", .unknownCategory, true⟩

def answeredBy : List String := ["user", "service", "screening", "gateway"]

/-- `effective_answered_by`: §14.3. -/
def effectiveAnsweredBy (v : String) : String := if v ∈ answeredBy then v else "service"

inductive ProgressStatus where
  | trying
  | ringing
  | queued
  | forwarded
  deriving DecidableEq, Repr

/-- `effective_progress_status`: an unknown status is `trying` (§12.10). -/
def effectiveProgressStatus : String → ProgressStatus
  | "ringing" => .ringing
  | "queued" => .queued
  | "forwarded" => .forwarded
  | _ => .trying

end Dsip.Registry
