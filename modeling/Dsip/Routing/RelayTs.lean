import Dsip.Routing.Relay

/-!
# The TypeScript relay

The second implementation of the forking relay. It keeps a map of bound devices,
the set of recipients it knows, and one queue in the order of arrival. The
definitions follow its source function by function; messages, events and
emissions are those of `Dsip.Routing.Relay`.

Identifiers are ASCII, so that the string orders of the two languages are one.
-/

namespace Dsip.Routing.Ts

open Dsip.Lib

def informative : List String := ["user.declined", "user.no-answer", "endpoint.busy", "endpoint.unavailable"]

def attemptIdleCapS : Nat := 1800

def defaultOfflineRetentionS : Nat := 86400

structure Attempt where
  sender : String
  dest : String
  expires : Option Nat
  legs : Dict String LegState
  outcome : Option Outcome
  rejections : List (String × String)
  touched : Nat
  heard : Finset String

structure Queued where
  dest : String
  msg : Message
  /-- `until`. -/
  deadline : Nat

structure Relay where
  now : Nat
  /-- By device, the identity it is bound for. -/
  bound : Dict String String
  known : Finset String
  lastUnbound : Dict String Nat
  attempts : Dict String Attempt
  queue : List Queued
  retention : Nat

/-! ## Attempts -/

namespace Attempt

def addLeg (now : Nat) (session : String) (withId : Bool) (a : Attempt) (leg : String) :
    Attempt × List Emit :=
  ({ a with legs := a.legs.insert leg .delivered, touched := now },
    [.deliver leg .invite (if withId then some session else none)])

def rank (reason : String) : Nat := informative.idxOf reason

/-- The rejection that is forwarded. -/
def best (a : Attempt) : Option (String × String) :=
  (a.rejections.insertionSort fun x y => rank x.2 ≤ rank y.2).head?

/-- `legEnded`, once the leg is recorded. -/
def complete (session : String) (a : Attempt) : Attempt × List Emit :=
  if a.outcome ≠ none ∨ .delivered ∈ a.legs.values then (a, [])
  else
    match a.best with
    | some (leg, reason) =>
      ({ a with outcome := some .rejected }, [.forwardReject session leg reason])
    | none => ({ a with outcome := some .noResponse }, [.noResponse a.sender session])

def legEnded (session : String) (state : LegState) (a : Attempt) (leg : String) : Attempt × List Emit :=
  if a.legs.lookup leg ≠ some .delivered then (a, [])
  else { a with legs := a.legs.insert leg state }.complete session

/-- A leg that has sent nothing expires. -/
def expireLeg (session : String) (a : Attempt) (leg : String) : Attempt × List Emit :=
  if a.legs.lookup leg = some .delivered ∧ leg ∉ a.heard then a.legEnded session .expired leg
  else (a, [])

/-- The body of `expireSilentLegs`. -/
def expireSilent (now : Nat) (session : String) (a : Attempt) : Attempt × List Emit :=
  match a.expires with
  | none => (a, [])
  | some expires =>
    if now < expires then (a, []) else foldEmit (expireLeg session) a a.legs.sortedKeys

def cancelLeg (target : Option String) (reason : String) (a : Attempt) (leg : String) : Attempt × List Emit :=
  if a.legs.lookup leg ≠ some .delivered ∨
      (target ≠ none ∧ target ≠ some a.dest ∧ target ≠ some leg) then (a, [])
  else ({ a with legs := a.legs.insert leg .cancelled }, [.deliverCancel leg reason])

def cancel (a : Attempt) (target : Option String) (reason : String) : Attempt × List Emit :=
  let f := foldEmit (cancelLeg target reason) a a.legs.sortedKeys
  (if f.1.outcome = none ∧ .delivered ∉ f.1.legs.values then
    { f.1 with outcome := some .cancelled } else f.1, f.2)

def fromLeg (session : String) (a : Attempt) (m : Message) (state : LegState) : Attempt × List Emit :=
  let a := { a with heard := insert m.sender a.heard }
  if m.type = .answer then
    (if state = .delivered then
      { a with legs := a.legs.insert m.sender .answered, outcome := a.outcome.getD .answered }
    else a, [.forwardAnswer m.sender])
  else if state ≠ .delivered then (a, [.drop "leg-terminated"])
  else if m.type = .progress then (a, [.forwardProgress m.sender m.status])
  else
    { a with rejections := a.rejections ++ [(m.sender, m.reason)] }.legEnded session .rejected
      m.sender

end Attempt

namespace Relay

/-- `constructor`. -/
def new (ctx : Context) : Relay where
  now := ctx.start
  bound := ∅
  known := ∅
  lastUnbound := ∅
  attempts := ∅
  queue := []
  retention := ctx.offlineRetentionS.getD defaultOfflineRetentionS

def devicesOf (r : Relay) (identity : String) : List String :=
  (r.bound.keys.filter fun d => r.bound.lookup d = some identity).insertionSort (· ≤ ·)

def put (r : Relay) (session : String) (o : Attempt × List Emit) : Relay × List Emit :=
  ({ r with attempts := r.attempts.insert session o.1 }, o.2)

def fork (r : Relay) (session sender dest : String) (legs : List String) (expires : Option Nat)
    (withId : Bool) : Relay × List Emit :=
  let a : Attempt :=
    { sender := sender, dest := dest, expires := expires, legs := ∅, outcome := none,
      rejections := [], touched := r.now, heard := ∅ }
  r.put session (foldEmit (Attempt.addLeg r.now session withId) a legs)

def hold (r : Relay) (dest : String) (m : Message) : Relay × List Emit :=
  let retention := r.now + r.retention
  ({ r with
      queue := r.queue ++ [
        { dest := dest, msg := m, deadline := min (m.expiresAt.getD retention) retention }] },
    [.queue dest m.type])

def expireQueue (r : Relay) : Relay × List Emit :=
  let expired := r.queue.filter fun q => q.deadline ≤ r.now
  ({ r with queue := r.queue.filter fun q => r.now < q.deadline },
    (expired.insertionSort fun p q => p.dest ≤ q.dest).map fun q =>
      .dequeue q.dest q.msg.type .expired)

def expireSilentLegs (r : Relay) : Relay × List Emit :=
  let s := sweep (Attempt.expireSilent r.now) r.attempts
  ({ r with attempts := s.1 }, s.2)

/-- Bound now, as a device or as an identity. -/
def boundNow (r : Relay) : List String := r.bound.keys ++ r.bound.values

/-- A recipient that is forgotten. -/
def Lapsed (r : Relay) (x : String) : Prop :=
  x ∉ r.boundNow ∧ (∀ q ∈ r.queue, q.dest ≠ x) ∧ ∃ ended ∈ r.lastUnbound.lookup x, r.retention < r.now - ended

instance (r : Relay) : DecidablePred r.Lapsed := fun x =>
  inferInstanceAs (Decidable (_ ∧ _ ∧ ∃ ended, r.lastUnbound.lookup x = some ended ∧ _))

def forget (r : Relay) : Relay :=
  { r with
    attempts := r.attempts.filter fun _ a => ¬ attemptIdleCapS < r.now - a.touched
    known := r.known.filter fun x => ¬ r.Lapsed x
    lastUnbound := r.lastUnbound.filter fun x _ => ¬ (x ∈ r.known ∧ r.Lapsed x) }

def advance (r : Relay) (seconds : Nat) : Relay × List Emit :=
  let q := { r with now := r.now + seconds }.expireQueue
  let s := q.1.expireSilentLegs
  (s.1.forget, q.2 ++ s.2)

def unbind (r : Relay) (device : String) : Relay :=
  match r.bound.lookup device with
  | none => r
  | some identity =>
    let r : Relay :=
      { r with
        bound := r.bound.erase device
        lastUnbound := r.lastUnbound.insert device r.now }
    if r.devicesOf identity = [] then
      { r with lastUnbound := r.lastUnbound.insert identity r.now }
    else r

def flush (device identity : String) (r : Relay) (q : Queued) : Relay × List Emit :=
  if q.msg.type = .invite then
    r.fork q.msg.id q.msg.sender identity [device] q.msg.expiresAt true
  else (r, [.deliver device q.msg.type (some q.msg.id)])

/-- A device that binds becomes a leg of a live attempt. -/
def join (now : Nat) (device identity : String) (flushed : List String) (session : String)
    (a : Attempt) : Attempt × List Emit :=
  if (a.outcome = none ∧ ∀ t ∈ a.expires, now < t) ∧ a.dest = identity ∧ device ∉ a.legs ∧
      session ∉ flushed then
    a.addLeg now session true device
  else (a, [])

def bind (r : Relay) (device identity : String) : Relay × List Emit :=
  let mine := r.queue.filter fun q => q.dest = identity ∨ q.dest = device
  let r : Relay :=
    { r with
      bound := r.bound.insert device identity
      known := insert identity (insert device r.known)
      queue := r.queue.filter fun q => ¬ (q.dest = identity ∨ q.dest = device) }
  let f := foldEmit (flush device identity) r mine
  let flushed := (mine.filter fun q => q.msg.type = .invite).map fun q => q.msg.id
  let l := sweep (join f.1.now device identity flushed) f.1.attempts
  ({ f.1 with attempts := l.1 }, f.2 ++ l.2)

def route (r : Relay) (m : Message) : Relay × List Emit :=
  let dest := m.dest.getD ""
  match if dest ∈ r.bound then [dest] else r.devicesOf dest with
  | leg :: legs => (r, (leg :: legs).map fun d => .deliver d m.type m.id)
  | [] =>
    if dest ∈ r.known then r.hold dest m else (r, [.unknownRecipient m.sender m.id])

/-- The queued invite that a cancel withdraws. -/
def QueuedFor (m : Message) (q : Queued) : Prop :=
  q.msg.type = .invite ∧ some q.msg.id = m.session ∧ some q.dest = m.dest

instance (m : Message) : DecidablePred (QueuedFor m) := fun _ => inferInstanceAs (Decidable (_ ∧ _))

/-- `recv`, for a message of a session: what is left when the cancel of an
attempt has been handled. -/
def recvOther (r : Relay) (m : Message) : Relay × List Emit :=
  if m.type = .cancel ∧ ∃ q ∈ r.queue, QueuedFor m q then
    ({ r with queue := r.queue.filter fun q => ¬ QueuedFor m q },
      (r.queue.filter fun q => QueuedFor m q).map fun q => .dequeue q.dest .invite .cancelled)
  else
    match m.session with
    | none => r.route m
    | some session =>
      match r.attempts.lookup session with
      | none => r.route m
      | some a =>
        match a.legs.lookup m.sender with
        | none => r.route m
        | some state =>
          if m.inReplyTo = none ∧ m.type ∈ [.progress, .answer, .reject] then
            r.put session ({ a with touched := r.now }.fromLeg session m state)
          else r.route m

/-- `recv`, for a message of a session. -/
def recvSession (r : Relay) (m : Message) : Relay × List Emit :=
  match m.session with
  | none => r.recvOther m
  | some session =>
    match r.attempts.lookup session with
    | none => r.recvOther m
    | some a =>
      if m.type = .cancel ∧ m.sender = a.sender then
        if m.dest = none ∨ m.dest = some a.dest ∨ ∃ leg ∈ m.dest, leg ∈ a.legs then
          r.put session ({ a with touched := r.now }.cancel m.dest m.reason)
        else r.route m
      else r.recvOther m

/-- `recv`. An invite and an introduction have a `to`. -/
def recv (r : Relay) (m : Message) : Relay × List Emit :=
  let dest := m.dest.getD ""
  if m.type = .invite then
    match r.devicesOf dest with
    | [] => if dest ∈ r.known then r.hold dest m else (r, [.unknownRecipient m.sender m.id])
    | devices => r.fork m.id m.sender dest devices m.expiresAt false
  else if m.type = .introduction then
    match r.devicesOf dest with
    | [] => r.hold dest m
    | devices => (r, devices.map fun d => .deliver d .introduction none)
  else r.recvSession m

def step (r : Relay) : Event → Relay × List Emit
  | .advance seconds => r.advance seconds
  | .invite session sender dest legs => r.fork session sender dest legs none false
  | .bind device identity => r.bind device identity
  | .unbind device _ => (r.unbind device, [])
  | .legExpired session leg =>
    match r.attempts.lookup session with
    | none => (r, [])
    | some a => r.put session (a.legEnded session .expired leg)
  | .recv m => r.recv m

end Relay

end Dsip.Routing.Ts
