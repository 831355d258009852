import Dsip.Messaging.Client

/-!
# The conversation client in TypeScript

The timeline is sorted from the contents when it is shown, the watermark is kept
by content id, and the fresh items of a batch go into one `delivered` receipt.
-/

namespace Dsip.Messaging.Ts

open Dsip.Lib
open Client (Context Content Receipt Item Held Book View ActivityState Event Emit byKeys)

def intervalS : Int := 5
def maxDeliveredGroup : Nat := 32
def media : List String := ["audio", "video"]

structure Client where
  ctx : Context
  now : Int
  content : Dict String Held
  delivered : Book
  played : Book
  readThrough : Dict String String
  activity : Book
  playedSent : Finset String
  lastReadSent : Option Int
  readPending : Bool
  lastActivitySent : Dict String Int

namespace Client

def init (ctx : Context) : Client where
  ctx := ctx
  now := ctx.now
  content := ∅
  delivered := ∅
  played := ∅
  readThrough := ∅
  activity := ∅
  playedSent := ∅
  lastReadSent := none
  readPending := false
  lastActivitySent := ∅

def sendRead (c : Client) : Client × List Emit :=
  ({ c with lastReadSent := some c.now, readPending := false },
    [.read (if c.ctx.policy.read then "conversation" else "personal") (c.readThrough.lookup c.ctx.me)])

/-- `advances`: a watermark names content that is held. -/
def advances (c : Client) (identity : String) (through : Option String) : Bool :=
  match through.bind c.content.lookup with
  | none => false
  | some target =>
    match c.readThrough.lookup identity with
    | none => true
    | some current => (c.content.lookup current).any fun held => target.seq > held.seq

/-- One target of a `delivered` or `played` receipt: its table, and whether it changed. -/
def mark (content : Dict String Held) (r : Receipt) (s : Book × Bool) (id : String) : Book × Bool :=
  match content.lookup id with
  | none => s
  | some item =>
    if item.sender = r.sender ∨ (r.kind = "played" ∧ item.kind ∉ media) then s
    else if ((s.1.lookup id).bind (·.lookup r.sender)).isSome then s
    else (s.1.insert id (((s.1.lookup id).getD ∅).insert r.sender r.sentAt), true)

def receipt (c : Client) (r : Receipt) : Client × Bool :=
  if r.kind = "read" then
    match r.through with
    | some through =>
      if !c.advances r.sender (some through) then (c, false)
      else ({ c with readThrough := c.readThrough.insert r.sender through }, true)
    | none => (c, false)
  else if r.kind = "delivered" then
    let (table, changed) := r.targets.foldl (mark c.content r) (c.delivered, false)
    ({ c with delivered := table }, changed)
  else if r.kind = "played" then
    let (table, changed) := r.targets.foldl (mark c.content r) (c.played, false)
    ({ c with played := table }, changed)
  else (c, false)

/-- One item in `batch`: the client, the fresh ids and what is emitted. -/
def batchItem (restoring : Bool) (s : Client × List String × List Emit) (it : Item) :
    Client × List String × List Emit :=
  let (c, fresh, emit) := s
  match it.object with
  | .content o =>
    if o.id ∈ c.content then s
    else ({ c with content := c.content.insert o.id ⟨o.sender, it.seq, o.kind⟩ },
      if o.sender ≠ c.ctx.me then fresh ++ [o.id] else fresh, emit)
  | .receipt r =>
    let (c, changed) := c.receipt r
    (c, fresh, if changed && !restoring then emit ++ [.archive it.seq] else emit)
  | .other => s

def batch (c : Client) (items : List Item) (restoring : Bool) : Client × List Emit :=
  let (c, fresh, emit) := items.foldl (batchItem restoring) (c, [], [])
  let targets := fresh.filter fun id => ((c.delivered.lookup id).bind (·.lookup c.ctx.me)).isNone
  let allowed := c.ctx.policy.delivered && c.ctx.memberIdentities ≤ maxDeliveredGroup
  if !restoring && allowed && !targets.isEmpty then
    (c, emit ++ [.receipt "conversation" "delivered" targets])
  else (c, emit)

/-- The branch of `read`. -/
def read (c : Client) (through : String) : Client × List Emit :=
  if c.advances c.ctx.me (some through) then
    let c := { c with readThrough := c.readThrough.insert c.ctx.me through }
    if c.lastReadSent.any fun last => c.now - last < intervalS then ({ c with readPending := true }, [])
    else c.sendRead
  else (c, [])

/-- The branch of `play`. -/
def play (c : Client) (id : String) : Client × List Emit :=
  let already := id ∈ c.playedSent || ((c.played.lookup id).bind (·.lookup c.ctx.me)).isSome
  if c.ctx.policy.played && (c.content.lookup id).any (·.kind ∈ media) && !already then
    ({ c with playedSent := insert id c.playedSent }, [.receipt "conversation" "played" [id]])
  else (c, [])

/-- The branch of `activity`. -/
def sendActivity (c : Client) (a : String) (state : ActivityState) : Client × List Emit :=
  if c.ctx.policy.activity &&
      (state = .stopped || (c.lastActivitySent.lookup a).all fun last => c.now - last ≥ intervalS) then
    ({ c with lastActivitySent :=
        if state = .stopped then c.lastActivitySent.erase a else c.lastActivitySent.insert a c.now },
      [.activity a state])
  else (c, [])

/-- The branch of `activity_in`. -/
def activityIn (c : Client) (sender activity : String) (state : ActivityState) (expiresAt : Int) : Client :=
  if state = .stopped then
    match c.activity.lookup sender with
    | none => c
    | some shown =>
      let shown := shown.erase activity
      if shown.keys.length = 0 then { c with activity := c.activity.erase sender }
      else { c with activity := c.activity.insert sender shown }
  else if c.now < expiresAt then
    { c with activity :=
        c.activity.insert sender (((c.activity.lookup sender).getD ∅).insert activity expiresAt) }
  else c

/-- The branch of `advance`: a pending watermark that was never sent counts from 0. -/
def advance (c : Client) (n : Int) : Client × List Emit :=
  let now := c.now + n
  let activity := (c.activity.map (Dict.filter fun _ expires => !(now ≥ expires))).filter
    fun _ shown => shown.keys.length ≠ 0
  let c := { c with now := now, activity := activity }
  if c.readPending && c.now - c.lastReadSent.getD 0 ≥ intervalS then c.sendRead else (c, [])

def step (c : Client) : Event → Client × List Emit
  | .advance n => c.advance n
  | .sync items => c.batch items false
  | .restore items => c.batch items true
  | .read through => c.read through
  | .play id => c.play id
  | .activity a state => c.sendActivity a state
  | .activityIn sender a state expiresAt => (c.activityIn sender a state expiresAt, [])

/-- The ids of the contents, sorted by seq. -/
def timeline (c : Client) : List String :=
  (c.content.inOrder.insertionSort fun a b => a.2.seq ≤ b.2.seq).map (·.1)

def state (c : Client) : View where
  timeline := c.timeline
  delivered := byKeys c.delivered
  played := byKeys c.played
  readThrough := c.readThrough.sortedEntries
  activity := byKeys c.activity

/-- The client after some events. -/
def run (c : Client) (events : List Event) : Client := events.foldl (fun c e => (c.step e).1) c

/-- What is emitted and shown after each event. -/
def observe (c : Client) : List Event → List (List Emit × View)
  | [] => []
  | e :: events => ((c.step e).2, (c.step e).1.state) :: observe (c.step e).1 events

end Client

end Dsip.Messaging.Ts
