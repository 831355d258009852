import Dsip.Lib.Dict
import Dsip.Lib.FoldEmit

/-!
# First contact and presence keys of an endpoint

What an endpoint keeps about whom it has let in: the policy, the grants it
issued and holds, the introductions it sent and received, and, when presence
keys are on, the epoch of the key of every scope. A grant that ends makes the
scopes it carried keys for due; a scope that is due rotates, and the live grants
carrying it are issued again.

The functions are the part of the source's `Endpoint` that touches no session
and no timer. They take the clock as an argument and return what they emit.
-/

namespace Dsip.Engine

open Dsip.Lib

/-- Where the source raises, and where the model's clock loop would stop
short. -/
inductive Fault where
  /-- `context.presence_keys.grant_ids exhausted`. -/
  | grantIdsExhausted
  /-- An alert for an invite without `expires_at`. -/
  | noExpiry
  /-- A `queued` progress without `queue_timeout`. -/
  | noQueueTimeout
  /-- A timer of a session that is not held. -/
  | noSession
  /-- The fuel of `advance` ran out. -/
  | unfinished
  deriving DecidableEq, Repr

structure GrantIssued where
  grantee : String
  scope : List String
  validUntil : Nat
  audience : Option String
  keys : List String
  chain : List String
  ended : Bool
  deriving DecidableEq, Repr

structure GrantHeld where
  grantor : String
  scope : List String
  validUntil : Nat
  deriving DecidableEq, Repr

/-- An introduction that waits for the owner's answer. -/
structure Request where
  identity : String
  device : String
  deriving DecidableEq, Repr

structure Contacts where
  firstContactRequired : Bool
  allow : Finset String
  grantsIssued : Dict String GrantIssued
  grantsHeld : Dict String GrantHeld
  requests : Dict String Request
  pendingSent : Dict String String
  tokens : Dict String String
  seenIntroductions : Finset String
  keysOn : Bool
  sealed : Finset String
  tRotate : Nat
  grantIds : List String
  epochs : Dict String Nat
  lastRotated : Dict String Nat
  /-- When a scope rotates. -/
  due : Dict String Nat
  /-- By grantor and scope, the epochs of the keys held. -/
  heldKeys : Dict String (Dict String (Finset Nat))

/-- What the contact functions emit. -/
inductive ContactEmit where
  | sendGrant (dest session id : String) (scope : List String) (validUntil : Nat)
      (presenceAudience : Option String) (presenceKeys : Option (List String))
  | sendIntroduction (dest id : String) (purpose contactToken : Option String)
  | sendReject (dest session reason : String)
  | refused (reason : String)
  | drop (reason : String)
  | revoke (ids : List String)
  | introductionReceived (identity : String) (token : Bool)
  | granted (grantor : String)
  | keysRotated (scope : String) (epoch : Nat)
  | keysSeen (scope : String) (epoch : Nat)
  deriving DecidableEq, Repr

namespace Contacts

/-- A live grant of scope `dsip.invite`. -/
def admitsInvite (now validUntil : Nat) (scope : List String) : Bool :=
  now < validUntil && "dsip.invite" ∈ scope

def hasGrant (c : Contacts) (now : Nat) (identity : String) : Bool :=
  c.grantsIssued.values.any fun g =>
    g.grantee = identity && admitsInvite now g.validUntil g.scope

/-- `held_grant_for`: the first by id. -/
def heldGrantFor (c : Contacts) (now : Nat) (identity : String) : Option String :=
  c.grantsHeld.sortedKeys.find? fun gid => (c.grantsHeld.lookup gid).any fun g =>
    g.grantor = identity && admitsInvite now g.validUntil g.scope

/-- `re.fullmatch(r"[a-z][a-z0-9-]{0,63}", audience)`. -/
def validAudience (audience : String) : Bool :=
  let lower c := 'a' ≤ c && c ≤ 'z'
  match audience.toList with
  | [] => false
  | c :: cs => lower c && cs.length ≤ 63 &&
      cs.all fun c => lower c || ('0' ≤ c && c ≤ '9') || c = '-'

/-! ## Issuing -/

/-- `key_scopes`: `main` and the audience, when the grant admits presence and
either is sealed. -/
def keyScopes (c : Contacts) (scope : List String) (audience : Option String) : List String :=
  if !c.keysOn || "dsip.subscribe" ∉ scope then []
  else if "main" ∉ c.sealed ∧ ¬ audience.any (· ∈ c.sealed) then []
  else "main" :: audience.toList

/-- `dict.setdefault` with epoch 0. -/
def startEpoch (epochs : Dict String Nat) (scope : String) : Dict String Nat :=
  if scope ∈ epochs then epochs else epochs.insert scope 0

/-- The name of the key of a scope at its current epoch. -/
def keyName (epochs : Dict String Nat) (scope : String) : String :=
  scope ++ "." ++ toString ((epochs.lookup scope).getD 0)

def issueGrant (c : Contacts) (gid grantee : String) (scope : List String) (validUntil : Nat)
    (introduction : String) (audience : Option String) (chain : List String) :
    Contacts × List ContactEmit :=
  let keys := c.keyScopes scope audience
  let epochs := keys.foldl startEpoch c.epochs
  ({ c with
      epochs := epochs
      grantsIssued := c.grantsIssued.insert gid
        { grantee, scope, validUntil, audience, keys, chain, ended := false } },
    [.sendGrant grantee introduction gid scope validUntil audience
      (if keys = [] then none else some (keys.map (keyName epochs)))])

/-! ## Ending and rotating -/

/-- When a scope that becomes due now rotates. -/
def rotatesAt (c : Contacts) (now : Nat) (scope : String) : Nat :=
  match c.lastRotated.lookup scope with
  | none => now
  | some last => if last + c.tRotate ≤ now then now else last + c.tRotate

/-- One scope of an ending grant. -/
def makeDue (now : Nat) (keep : List String) (c : Contacts) (scope : String) : Contacts :=
  if scope ∈ keep ∨ scope ∈ c.due then c
  else { c with due := c.due.insert scope (c.rotatesAt now scope) }

/-- `end_grant`, for a grant that has left `grantsIssued`. -/
def endGrant (c : Contacts) (now : Nat) (g : GrantIssued) (keep : List String) : Contacts :=
  if g.ended then c else g.keys.foldl (makeDue now keep) c

/-- A grant with keys that has not ended. -/
def GrantIssued.Running (g : GrantIssued) : Prop := g.keys ≠ [] ∧ g.ended = false

instance : DecidablePred GrantIssued.Running :=
  fun _ => inferInstanceAs (Decidable (_ ∧ _))

/-- The grant ends when it is running and past its `valid_until`. -/
def endIfLapsed (now : Nat) (c : Contacts) (gid : String) : Contacts :=
  match c.grantsIssued.lookup gid with
  | none => c
  | some g =>
    if GrantIssued.Running g ∧ g.validUntil ≤ now then
      { c with grantsIssued := c.grantsIssued.insert gid { g with ended := true } }.endGrant now
        g []
    else c

/-- Grants reaching their `valid_until` end, in id order. -/
def endLapsed (c : Contacts) (now : Nat) : Contacts := c.grantsIssued.sortedKeys.foldl (endIfLapsed now) c

/-- A grant that follows each live grant carrying a key of `scopes`. -/
def regrantEach (now : Nat) (scopes : List String) :
    Contacts → List String → Except Fault (Contacts × List ContactEmit)
  | c, [] => .ok (c, [])
  | c, gid :: gids =>
    match c.grantsIssued.lookup gid with
    | none => regrantEach now scopes c gids
    | some g =>
      if g.validUntil ≤ now ∨ ¬ g.keys.any (· ∈ scopes) then regrantEach now scopes c gids
      else
        match c.grantIds with
        | [] => .error .grantIdsExhausted
        | next :: rest =>
          let (c, out) := issueGrant
            { c with grantsIssued := c.grantsIssued.erase gid, grantIds := rest }
            next g.grantee g.scope g.validUntil gid g.audience (gid :: g.chain)
          (regrantEach now scopes c gids).map fun r => (r.1, out ++ r.2)

def regrantCarrying (c : Contacts) (now : Nat) (scopes : List String) :
    Except Fault (Contacts × List ContactEmit) :=
  if scopes = [] then .ok (c, []) else regrantEach now scopes c c.grantsIssued.sortedKeys

def rotate (now : Nat) (c : Contacts) (scope : String) : Contacts × List ContactEmit :=
  let epoch := (c.epochs.lookup scope).getD 0 + 1
  ({ c with
      due := c.due.erase scope
      epochs := c.epochs.insert scope epoch
      lastRotated := c.lastRotated.insert scope now },
    [.keysRotated scope epoch])

/-- The scopes due now: `main` first, the others by name. -/
def dueNow (c : Contacts) (now : Nat) : List String :=
  let scopes := c.due.sortedKeys.filter fun scope => (c.due.lookup scope).any (· ≤ now)
  scopes.filter (· = "main") ++ scopes.filter (· ≠ "main")

def rotateDue (c : Contacts) (now : Nat) : Except Fault (Contacts × List ContactEmit) :=
  let scopes := c.dueNow now
  let rotated := foldEmit (rotate now) c scopes
  (rotated.1.regrantCarrying now scopes).map fun r => (r.1, rotated.2 ++ r.2)

/-! ## Local events -/

/-- `local` introduce. -/
def introduce (c : Contacts) (id dest : String) (purpose contactToken : Option String) :
    Contacts × List ContactEmit :=
  ({ c with pendingSent := c.pendingSent.insert id dest }, [.sendIntroduction dest id purpose contactToken])

/-- `local` grant. -/
def grant (c : Contacts) (id introduction : String) (scope : List String) (validUntil : Nat)
    (audience : Option String) : Contacts × List ContactEmit :=
  match c.requests.lookup introduction with
  | none => (c, [.refused "unknown-introduction"])
  | some req =>
    if audience.any (!validAudience ·) then (c, [.refused "invalid-audience"])
    else
      issueGrant { c with requests := c.requests.erase introduction } id req.identity scope
        validUntil introduction audience []

/-- `local` regrant: a grant may follow a live grant we issued. What the grantee
keeps through the new grant is not rotated. -/
def regrant (c : Contacts) (now : Nat) (id gid : String) (scope : List String) (validUntil : Nat)
    (audience : Option String) : Except Fault (Contacts × List ContactEmit) :=
  match c.grantsIssued.lookup gid with
  | none => .ok (c, [.refused "unknown-grant"])
  | some old =>
    if old.validUntil ≤ now then .ok (c, [.refused "unknown-grant"])
    else if audience.any (!validAudience ·) then .ok (c, [.refused "invalid-audience"])
    else
      let (c, out) := issueGrant { c with grantsIssued := c.grantsIssued.erase gid } id
        old.grantee scope validUntil gid audience []
      let c := c.endGrant now old (c.keyScopes scope audience)
      (c.rotateDue now).map fun r => (r.1, .revoke (gid :: old.chain) :: out ++ r.2)

/-- `local` reject_introduction. -/
def rejectIntroduction (c : Contacts) (introduction reason : String) : Contacts × List ContactEmit :=
  match c.requests.lookup introduction with
  | none => (c, [.refused "unknown-introduction"])
  | some req =>
    ({ c with requests := c.requests.erase introduction }, [.sendReject req.identity introduction reason])

/-- `local` revoke: with the grant's rotation chain. -/
def revoke (c : Contacts) (now : Nat) (gid : String) : Except Fault (Contacts × List ContactEmit) :=
  match c.grantsIssued.lookup gid with
  | none => .ok (c, [.refused "unknown-grant"])
  | some g =>
    let c := { c with grantsIssued := c.grantsIssued.erase gid }.endGrant now g []
    (c.rotateDue now).map fun r => (r.1, .revoke (gid :: g.chain) :: r.2)

/-- `local` issue_token. -/
def issueToken (c : Contacts) (token grantId : String) : Contacts :=
  { c with tokens := c.tokens.insert token grantId }

/-! ## Received messages -/

def recvIntroduction (c : Contacts) (now : Nat) (id device identity : String)
    (contactToken : Option String) : Contacts × List ContactEmit :=
  if id ∈ c.seenIntroductions then (c, [.drop "duplicate-introduction"])
  else
    let c := { c with seenIntroductions := insert id c.seenIntroductions }
    match contactToken.bind fun token => (c.tokens.lookup token).map fun gid => (token, gid) with
    | some (token, gid) =>
      let (c, out) := issueGrant { c with tokens := c.tokens.erase token } gid identity
        ["dsip.invite"] (now + 31536000) id none []
      (c, .introductionReceived identity true :: out)
    | none =>
      ({ c with requests := c.requests.insert id { identity, device } },
        [.introductionReceived identity false])

/-- `str.rpartition(".")`, without the dot. -/
def rpartition (kid : String) : String × String :=
  let back := kid.toList.reverse
  let tail := back.takeWhile (· ≠ '.')
  (String.ofList (back.drop (tail.length + 1)).reverse, String.ofList tail.reverse)

/-- `int(e)` of a text that is all ASCII digits; `none` where `[0-9]+` does not
match it. -/
def epochNumber (e : String) : Option Nat :=
  let digits := e.toList
  if digits ≠ [] ∧ digits.all fun c => '0' ≤ c && c ≤ '9' then
    some (digits.foldl (fun n c => 10 * n + (c.toNat - '0'.toNat)) 0)
  else none

/-- The two highest epochs: the lowest goes while there are more than two. -/
def highestTwo (epochs : Finset Nat) : Finset Nat :=
  let ordered := sorted epochs
  (ordered.drop (ordered.length - 2)).toFinset

/-- P§12.4: a key of a grant is kept under its scope. -/
def holdKey (keys : Dict String (Finset Nat)) (kid : String) : Dict String (Finset Nat) :=
  match epochNumber (rpartition kid).2 with
  | none => keys
  | some e =>
    keys.insert (rpartition kid).1
      (highestTwo (insert e ((keys.lookup (rpartition kid).1).getD ∅)))

/-- The grantor's entry exists once a key of it is kept. -/
def holdKeys (held : Dict String (Dict String (Finset Nat))) (grantor : String)
    (kids : List String) : Dict String (Dict String (Finset Nat)) :=
  if kids.any fun kid => (epochNumber (rpartition kid).2).isSome then
    held.insert grantor (kids.foldl holdKey ((held.lookup grantor).getD ∅))
  else held

/-- `recv_grant`: the answer to an introduction of ours, or a grant that follows
a live one we hold from the same identity. -/
def recvGrant (c : Contacts) (now : Nat) (id : String) (session : Option String) (grantor : String)
    (scope : List String) (validUntil : Nat) (presenceKeys : List String) :
    Contacts × List ContactEmit :=
  let keep (c : Contacts) : Contacts × List ContactEmit :=
    ({ c with
        grantsHeld := c.grantsHeld.insert id { grantor, scope, validUntil }
        heldKeys := holdKeys c.heldKeys grantor presenceKeys },
      [.granted grantor])
  match session with
  | none => (c, [.drop "unknown-introduction"])
  | some intro =>
    if intro ∈ c.pendingSent then keep { c with pendingSent := c.pendingSent.erase intro }
    else if (c.grantsHeld.lookup intro).any fun g => g.grantor = grantor ∧ now < g.validUntil then
      keep { c with grantsHeld := c.grantsHeld.erase intro }
    else (c, [.drop "unknown-introduction"])

/-- `recv_own_record`: a higher epoch of our own is adopted and the live grants
carrying the scope are issued again. -/
def recvOwnRecord (c : Contacts) (now : Nat) (identity : String) (kid subject : Option String) :
    Except Fault (Contacts × List ContactEmit) :=
  match kid with
  | none => .ok (c, [])
  | some kid =>
    if !c.keysOn ∨ subject ≠ some identity then .ok (c, [])
    else
      let scope := (rpartition kid).1
      match epochNumber (rpartition kid).2 with
      | none => .ok (c, [])
      | some e =>
        if (c.epochs.lookup scope).any (e ≤ ·) then .ok (c, [])
        else
          let regranted := { c with epochs := c.epochs.insert scope e }.regrantCarrying now
            [scope]
          regranted.map fun r => (r.1, .keysSeen scope e :: r.2)

end Contacts

end Dsip.Engine
