import Dsip.Lib.Dict
import Dsip.Lib.FoldEmit
import Dsip.Lib.TSys

/-!
# The forking relay

A relay routes by its bindings, holds what it cannot deliver yet, and tracks the
legs of every invite it forked (§12.7, §13.2, §13.3). The legs of an attempt
terminate one by one; when the last one has, and none answered, the relay
signals the outcome of the attempt.

The definitions follow the source function by function.
-/

namespace Dsip.Routing

open Dsip.Lib

/-- `REASON_RANK`: §12.7 rule 6. -/
def reasonRank : List String := ["user.declined", "user.no-answer", "endpoint.busy", "endpoint.unavailable"]

def tQueueCapS : Nat := 1800

/-! ## Attempts -/

inductive LegState where
  | delivered
  | answered
  | rejected
  | expired
  | cancelled
  deriving DecidableEq, Repr

inductive Outcome where
  | answered
  | rejected
  | cancelled
  | noResponse
  deriving DecidableEq, Repr

structure Attempt where
  session : String
  initiator : String
  identity : String
  legs : Dict String LegState
  /-- By leg, in the order the rejects came. -/
  reasons : List (String × String)
  outcome : Option Outcome
  /-- When the relay last forked, flushed or heard from it. -/
  last : Nat
  /-- The legs that have sent progress, answer or reject. -/
  heard : Finset String
  deriving DecidableEq

/-! ## Messages, events and emissions -/

inductive MsgType where
  | invite
  | introduction
  | progress
  | answer
  | reject
  | cancel
  | other (name : String)
  deriving DecidableEq, Repr

/-- A received message: `sender` is its `from` and `dest` its `to`. A reject and
a cancel carry a reason. -/
structure Message where
  type : MsgType
  id : String
  sender : String
  dest : Option String := none
  session : Option String := none
  inReplyTo : Option String := none
  expiresAt : Option Nat := none
  reason : String := ""
  status : Option String := none
  deriving DecidableEq, Repr

inductive Why where
  | expired
  | cancelled
  deriving DecidableEq, Repr

inductive Emit where
  | deliver (leg : String) (type : MsgType) (id : Option String)
  | deliverCancel (leg reason : String)
  | queue (dest : String) (type : MsgType)
  | dequeue (dest : String) (type : MsgType) (why : Why)
  | forwardProgress (leg : String) (status : Option String)
  | forwardAnswer (leg : String)
  /-- The outcome of `attempt`, which the forwarded reject itself does not
  name. -/
  | forwardReject (attempt leg reason : String)
  /-- `error transport.no-response`, to the initiator. -/
  | noResponse (dest session : String)
  /-- `error transport.unknown-recipient`, to the sender. -/
  | unknownRecipient (dest inReplyTo : String)
  | drop (reason : String)
  deriving DecidableEq, Repr

inductive Event where
  | advance (seconds : Nat)
  | invite (session sender dest : String) (legs : List String)
  | bind (device identity : String)
  | unbind (device identity : String)
  | legExpired (session leg : String)
  | recv (msg : Message)
  deriving DecidableEq, Repr

/-- A message without `to` or `session` where the source reads one. -/
inductive Fault where
  | noRecipient
  | noSession
  deriving DecidableEq, Repr

/-! ## The legs of an attempt -/

namespace Attempt

def new (session initiator identity : String) (last : Nat) : Attempt where
  session := session
  initiator := initiator
  identity := identity
  legs := ∅
  reasons := []
  outcome := none
  last := last
  heard := ∅

def setLeg (a : Attempt) (leg : String) (st : LegState) : Attempt := { a with legs := a.legs.insert leg st }

def Waiting (a : Attempt) : Prop := .delivered ∈ a.legs.values

instance : DecidablePred Waiting := fun _ => inferInstanceAs (Decidable (_ ∈ _))

/-- The most informative reason, with the first leg that gave it. -/
def best (reasons : List (String × String)) : Option (String × String) :=
  match reasonRank.find? fun r => r ∈ reasons.map Prod.snd with
  | some reason => reasons.find? fun p => p.2 = reason
  | none => reasons.head?

def checkComplete (a : Attempt) : Attempt × List Emit :=
  if a.outcome ≠ none ∨ a.Waiting then (a, [])
  else
    match best a.reasons with
    | none => ({ a with outcome := some .noResponse }, [.noResponse a.initiator a.session])
    | some (leg, reason) =>
      ({ a with outcome := some .rejected }, [.forwardReject a.session leg reason])

def fork (a : Attempt) (leg : String) : Attempt × List Emit :=
  (a.setLeg leg .delivered, [.deliver leg .invite none])

/-- A leg added to an attempt that is under way. -/
def join (a : Attempt) (now : Nat) (device sid : String) : Attempt × List Emit :=
  ({ a.setLeg device .delivered with last := now }, [.deliver device .invite sid])

/-- The initiator's cancel reaches one leg; `only` is the leg it is addressed
to. -/
def cancelLeg (only : Option String) (reason : String) (a : Attempt) (leg : String) : Attempt × List Emit :=
  if a.legs.lookup leg = some .delivered ∧ (only = none ∨ only = some leg) then
    (a.setLeg leg .cancelled, [.deliverCancel leg reason])
  else (a, [])

/-- The initiator's cancel: the attempt is over when it leaves no leg
outstanding. -/
def cancel (a : Attempt) (only : Option String) (reason : String) : Attempt × List Emit :=
  let r := foldEmit (cancelLeg only reason) a a.legs.sortedKeys
  (if r.1.outcome = none ∧ ¬ r.1.Waiting then { r.1 with outcome := some .cancelled } else r.1, r.2)

/-- `d[k] = v`, in insertion order. -/
def setItem (l : List (String × String)) (k v : String) : List (String × String) :=
  if k ∈ l.map Prod.fst then l.map fun p => if p.1 = k then (k, v) else p else l ++ [(k, v)]

/-- A message of a leg. An answer is never withheld; what else a terminated leg
sends is screened. -/
def fromLeg (a : Attempt) (m : Message) (st : LegState) : Attempt × List Emit :=
  let a := { a with heard := insert m.sender a.heard }
  match m.type with
  | .answer =>
    (if st = .delivered then
        { a.setLeg m.sender .answered with outcome := a.outcome.getD .answered }
      else a,
      [.forwardAnswer m.sender])
  | type =>
    if st ≠ .delivered then (a, [.drop "leg-terminated"])
    else
      match type with
      | .progress => (a, [.forwardProgress m.sender m.status])
      | .reject =>
        { a.setLeg m.sender .rejected with
          reasons := setItem a.reasons m.sender m.reason }.checkComplete
      | _ => (a, [.drop "not-attempt-scoped"])

/-- The legs that have sent nothing. -/
def silent (a : Attempt) : List String :=
  a.legs.sortedKeys.filter fun leg => a.legs.lookup leg = some .delivered ∧ leg ∉ a.heard

def expireSilent (a : Attempt) : Attempt × List Emit :=
  match a.silent with
  | [] => (a, [])
  | leg :: legs =>
    ((leg :: legs).foldl (fun a leg => a.setLeg leg .expired) a).checkComplete

end Attempt

/-! ## The state -/

/-- A queued envelope, with its place in the order of arrival. -/
structure Held where
  dest : String
  msg : Message
  arrival : Nat
  deadline : Nat
  deriving DecidableEq, Repr

structure Relay where
  now : Nat
  attempts : Dict String Attempt
  /-- By identity, its bound devices. -/
  bindings : Dict String (Finset String)
  /-- The identity of every device ever bound. -/
  devices : Dict String String
  /-- By identity or device, what is held for it. -/
  inbox : Dict String (List Held)
  arrivals : Nat
  retention : Nat
  invites : Dict String Message
  /-- When the last binding of an identity or device ended. -/
  lastBound : Dict String Nat
  deriving DecidableEq

structure Context where
  start : Nat := 0
  offlineRetentionS : Option Nat := none

namespace Relay

/-- `Relay.__init__`. -/
def new (ctx : Context) : Relay where
  now := ctx.start
  attempts := ∅
  bindings := ∅
  devices := ∅
  inbox := ∅
  arrivals := 0
  retention := ctx.offlineRetentionS.getD 86400
  invites := ∅
  lastBound := ∅

/-- Store an attempt after something happened to it, with what was emitted. -/
def put (r : Relay) (sid : String) (o : Attempt × List Emit) : Relay × List Emit :=
  ({ r with attempts := r.attempts.insert sid o.1 }, o.2)

/-! ## Routing -/

/-- The devices bound for an identity. -/
def boundFor (r : Relay) (identity : String) : Finset String := (r.bindings.lookup identity).getD ∅

def legsFor (r : Relay) (dest : String) : List String :=
  match r.devices.lookup dest with
  | some identity => if dest ∈ r.boundFor identity then [dest] else []
  | none => sorted (r.boundFor dest)

def known (r : Relay) (dest : String) : Bool := dest ∈ r.bindings || dest ∈ r.devices

def heldFor (r : Relay) (dest : String) : List Held := (r.inbox.lookup dest).getD []

def enqueue (r : Relay) (dest : String) (m : Message) : Relay × List Emit :=
  let h : Held :=
    { dest := dest
      msg := m
      arrival := r.arrivals + 1
      deadline := min (m.expiresAt.getD (r.now + r.retention)) (r.now + r.retention) }
  ({ r with
      arrivals := r.arrivals + 1
      inbox := r.inbox.insert dest (r.heldFor dest ++ [h]) },
    [.queue dest m.type])

def routePlain (r : Relay) (m : Message) : Except Fault (Relay × List Emit) :=
  match r.legsFor (m.dest.getD "") with
  | leg :: legs => .ok (r, (leg :: legs).map fun d => .deliver d m.type m.id)
  | [] =>
    if r.known (m.dest.getD "") then
      match m.dest with
      | none => .error .noRecipient
      | some dest => .ok (r.enqueue dest m)
    else .ok (r, [.unknownRecipient m.sender m.id])

/-! ## Bindings -/

/-- `flush_to`: a queued invite becomes a tracked leg. -/
def flushTo (device : String) (r : Relay) (h : Held) : Relay × List Emit :=
  match h.msg.type with
  | .invite =>
    match r.attempts.lookup h.msg.id with
    | some a => r.put h.msg.id (a.join r.now device h.msg.id)
    | none =>
      { r with invites := r.invites.insert h.msg.id h.msg }.put h.msg.id
        ((Attempt.new h.msg.id h.msg.sender h.dest 0).join r.now device h.msg.id)
  | type => (r, [.deliver device type h.msg.id])

/-- A device that binds becomes a leg of a live attempt of its identity, while
the invite is unexpired. -/
def lateBind (device identity : String) (r : Relay) (sid : String) : Relay × List Emit :=
  match r.attempts.lookup sid with
  | none => (r, [])
  | some a =>
    if a.identity = identity ∧ a.outcome = none ∧ device ∉ a.legs then
      match r.invites.lookup sid with
      | none => (r, [])
      | some inv =>
        if r.now < inv.expiresAt.getD (r.now + 1) then r.put sid (a.join r.now device sid)
        else (r, [])
    else (r, [])

/-- What is held for an identity and a device, in the order it came. -/
def flushed (r : Relay) (device identity : String) : List Held :=
  (r.heldFor identity ++ (if device = identity then [] else r.heldFor device)).insertionSort
    fun g h => g.arrival ≤ h.arrival

/-- `relay_event` bind. -/
def bind (r : Relay) (device identity : String) : Relay × List Emit :=
  let queued := r.flushed device identity
  let r : Relay :=
    { r with
      bindings := r.bindings.insert identity (insert device (r.boundFor identity))
      devices := r.devices.insert device identity
      lastBound := (r.lastBound.erase identity).erase device
      inbox := (r.inbox.erase identity).erase device }
  let f := foldEmit (flushTo device) r queued
  let l := foldEmit (lateBind device identity) f.1 f.1.attempts.sortedKeys
  (l.1, f.2 ++ l.2)

/-- `relay_event` unbind. -/
def unbind (r : Relay) (device identity : String) : Relay :=
  let r : Relay :=
    { r with
      bindings :=
        if identity ∈ r.bindings then
          r.bindings.insert identity ((r.boundFor identity).erase device)
        else r.bindings
      lastBound := r.lastBound.insert device r.now }
  if r.boundFor identity = ∅ then { r with lastBound := r.lastBound.insert identity r.now } else r

/-! ## The clock -/

/-- `expire_queues`, for one recipient. -/
def expireQueue (r : Relay) (dest : String) : Relay × List Emit :=
  let keep := (r.heldFor dest).filter fun h => r.now < h.deadline
  ({ r with inbox := if keep = [] then r.inbox.erase dest else r.inbox.insert dest keep },
    ((r.heldFor dest).filter fun h => h.deadline ≤ r.now).map fun h =>
      .dequeue dest h.msg.type .expired)

def expireQueues (r : Relay) : Relay × List Emit := foldEmit expireQueue r r.inbox.sortedKeys

/-- `expire_silent_legs`, for one attempt. -/
def expireSilentLeg (r : Relay) (sid : String) : Relay × List Emit :=
  match r.attempts.lookup sid, (r.invites.lookup sid).bind (·.expiresAt) with
  | some a, some expiresAt => if r.now < expiresAt then (r, []) else r.put sid a.expireSilent
  | _, _ => (r, [])

def expireSilentLegs (r : Relay) : Relay × List Emit := foldEmit expireSilentLeg r r.attempts.sortedKeys

/-- An attempt nothing was done for in longer than the T-Queue cap goes. -/
def forgetAttempt (r : Relay) (sid : String) : Relay :=
  match r.attempts.lookup sid with
  | some a =>
    if a.last + tQueueCapS < r.now then
      { r with attempts := r.attempts.erase sid, invites := r.invites.erase sid }
    else r
  | none => r

/-- A recipient bound too long ago is forgotten, unless something is bound. -/
def forgetRecipient (r : Relay) (who : String) : Relay :=
  let r := { r with lastBound := r.lastBound.erase who }
  match r.devices.lookup who with
  | some identity =>
    if who ∈ r.boundFor identity then r else { r with devices := r.devices.erase who }
  | none => if r.boundFor who = ∅ then { r with bindings := r.bindings.erase who } else r

/-- The recipients to look at: nothing held, and their last binding ended longer
ago than the retention. -/
def lapsed (r : Relay) : List String :=
  r.lastBound.sortedKeys.filter fun who =>
    (r.lastBound.lookup who).any (· + r.retention < r.now) && who ∉ r.inbox

def forget (r : Relay) : Relay :=
  let r := r.attempts.sortedKeys.foldl forgetAttempt r
  r.lapsed.foldl forgetRecipient r

def advance (r : Relay) (seconds : Nat) : Relay × List Emit :=
  let q := { r with now := r.now + seconds }.expireQueues
  let s := q.1.expireSilentLegs
  (s.1.forget, q.2 ++ s.2)

/-! ## Received messages -/

/-- `relay_event` invite: fork to the legs. -/
def invite (r : Relay) (session sender dest : String) (legs : List String) : Relay × List Emit :=
  r.put session (foldEmit Attempt.fork (.new session sender dest r.now) legs)

/-- `relay_event` leg_expired. -/
def legExpired (r : Relay) (session leg : String) : Relay × List Emit :=
  match r.attempts.lookup session with
  | none => (r, [])
  | some a =>
    if a.legs.lookup leg = some .delivered then r.put session (a.setLeg leg .expired).checkComplete
    else (r, [])

/-- `recv` introduction: an unknown recipient is treated as an offline one. -/
def recvIntroduction (r : Relay) (dest : String) (m : Message) : Relay × List Emit :=
  match r.legsFor dest with
  | [] => r.enqueue dest m
  | legs => (r, legs.map fun d => .deliver d .introduction none)

/-- `recv` invite. -/
def recvInvite (r : Relay) (dest : String) (m : Message) : Relay × List Emit :=
  match r.legsFor dest with
  | [] => if r.known dest then r.enqueue dest m else (r, [.unknownRecipient m.sender m.id])
  | legs =>
    { r with invites := r.invites.insert m.id m }.invite m.id m.sender dest legs

/-- A cancel for an invite that is still queued. -/
def cancelQueued (r : Relay) (m : Message) (dest : String) : Option (Relay × List Emit) :=
  let remaining := (r.heldFor dest).filter fun h =>
    ¬ (h.msg.type = .invite ∧ some h.msg.id = m.session)
  if remaining.length = (r.heldFor dest).length then none
  else
    some ({ r with
        inbox := if remaining = [] then r.inbox.erase dest else r.inbox.insert dest remaining },
      [.dequeue dest .invite .cancelled])

/-- A message of a session the relay holds no attempt for. -/
def recvUntracked (r : Relay) (m : Message) : Except Fault (Relay × List Emit) :=
  if m.type = .cancel then
    match m.dest with
    | none => .error .noRecipient
    | some dest =>
      if m.session = none ∧ ∃ h ∈ r.heldFor dest, h.msg.type = .invite then .error .noSession
      else
        match r.cancelQueued m dest with
        | some o => .ok o
        | none => r.routePlain m
  else r.routePlain m

/-- The initiator's cancel, for the identity it invited or for one leg. -/
def recvCancel (r : Relay) (sid : String) (a : Attempt) (m : Message) : Except Fault (Relay × List Emit) :=
  let a := { a with last := r.now }
  let only := m.dest.filter (· ∈ a.legs)
  if only = none ∧ ¬ (m.dest = none ∨ m.dest = some a.identity) then
    (r.put sid (a, [])).1.routePlain m
  else .ok (r.put sid (a.cancel only m.reason))

/-- A message of a session the relay holds an attempt for. -/
def recvTracked (r : Relay) (sid : String) (a : Attempt) (m : Message) : Except Fault (Relay × List Emit) :=
  if m.type ∉ [.progress, .answer, .reject, .cancel] ∨ m.inReplyTo ≠ none then r.routePlain m
  else if m.type = .cancel ∧ m.sender = a.initiator then r.recvCancel sid a m
  else
    match a.legs.lookup m.sender with
    | none => r.routePlain m
    | some st => .ok (r.put sid ({ a with last := r.now }.fromLeg m st))

/-- `recv`, for any other message. -/
def recvSession (r : Relay) (m : Message) : Except Fault (Relay × List Emit) :=
  match m.session with
  | none => r.recvUntracked m
  | some sid =>
    match r.attempts.lookup sid with
    | none => r.recvUntracked m
    | some a => r.recvTracked sid a m

def recv (r : Relay) (m : Message) : Except Fault (Relay × List Emit) :=
  match m.type, m.dest with
  | .introduction, some dest => .ok (r.recvIntroduction dest m)
  | .introduction, none => .error .noRecipient
  | .invite, some dest => .ok (r.recvInvite dest m)
  | .invite, none => .error .noRecipient
  | _, _ => r.recvSession m

def step (r : Relay) : Event → Except Fault (Relay × List Emit)
  | .advance seconds => .ok (r.advance seconds)
  | .invite session sender dest legs => .ok (r.invite session sender dest legs)
  | .bind device identity => .ok (r.bind device identity)
  | .unbind device identity => .ok (r.unbind device identity, [])
  | .legExpired session leg => .ok (r.legExpired session leg)
  | .recv m => r.recv m

end Relay

def machine : TSys Relay Event (List Emit) := .ofStep (fun r => ∃ ctx, r = .new ctx) Relay.step

end Dsip.Routing
