import Dsip.Lib.Dict
import Mathlib.Data.PNat.Basic

/-!
# The conversation client

One device's view of one conversation: its timeline, the collapsed receipts, the
read watermarks and the activity shown, with what it sends. A hub numbers items
from 1, so a seq is a positive number.
-/

namespace Dsip.Messaging

open Dsip.Lib

namespace Client

def mediaKinds : List String := ["audio", "video"]
def deliveredMaxGroup : Nat := 32
def receiptMaxTargets : Nat := 256
def readMinIntervalS : Int := 5
def activityRefreshS : Int := 5

structure Policy where
  delivered : Bool
  read : Bool
  played : Bool
  activity : Bool
  deriving DecidableEq

structure Context where
  me : String
  now : Int
  memberIdentities : Nat
  policy : Policy
  deriving DecidableEq

structure Content where
  id : String
  sender : String
  kind : String
  deriving DecidableEq

structure Receipt where
  kind : String
  sender : String
  sentAt : Int
  targets : List String := []
  through : Option String := none
  deriving DecidableEq

inductive Object where
  | content (o : Content)
  | receipt (o : Receipt)
  | other
  deriving DecidableEq

structure Item where
  seq : ℕ+
  object : Object
  deriving DecidableEq

inductive ActivityState where
  | active
  | stopped
  deriving DecidableEq

inductive Event where
  | sync (items : List Item)
  | restore (items : List Item)
  | read (through : String)
  | play (id : String)
  | activity (activity : String) (state : ActivityState)
  | activityIn (sender activity : String) (state : ActivityState) (expiresAt : Int)
  | advance (n : Int)
  deriving DecidableEq

inductive Emit where
  | archive (seq : ℕ+)
  | receipt (dest kind : String) (targets : List String)
  | read (dest : String) (through : Option String)
  | activity (activity : String) (state : ActivityState)
  deriving DecidableEq

/-- What is kept of a content object. -/
structure Held where
  sender : String
  seq : ℕ+
  kind : String
  deriving DecidableEq

/-- Who receipted each content, and when. -/
abbrev Book := Dict String (Dict String Int)

/-- The rendering state: every table by key. -/
structure View where
  timeline : List String
  delivered : List (String × List (String × Int))
  played : List (String × List (String × Int))
  readThrough : List (String × String)
  activity : List (String × List (String × Int))
  deriving DecidableEq

/-- A table of tables by both keys. -/
def byKeys (b : Book) : List (String × List (String × Int)) := (b.map Dict.sortedEntries).sortedEntries

end Client

structure Client where
  now : Int
  me : String
  policy : Client.Policy
  members : Nat
  content : Dict String Client.Held
  timeline : List String
  delivered : Client.Book
  played : Client.Book
  readSeq : Dict String ℕ+
  readThrough : Dict String String
  sentDelivered : Finset String
  sentPlayed : Finset String
  lastReadSent : Option Int
  pendingRead : Bool
  lastActivity : Dict String Int
  shown : Client.Book

namespace Client

def init (ctx : Context) : Client where
  now := ctx.now
  me := ctx.me
  policy := ctx.policy
  members := ctx.memberIdentities
  content := ∅
  timeline := []
  delivered := ∅
  played := ∅
  readSeq := ∅
  readThrough := ∅
  sentDelivered := ∅
  sentPlayed := ∅
  lastReadSent := none
  pendingRead := false
  lastActivity := ∅
  shown := ∅

/-- Keep a content object that is not held yet. -/
def take (c : Client) (seq : ℕ+) (o : Content) : Client :=
  { c with
    content := c.content.insert o.id ⟨o.sender, seq, o.kind⟩
    timeline := c.timeline ++ [o.id] }

/-- One target of a `delivered` or `played` receipt: its book, and whether it changed. -/
def mark (content : Dict String Held) (o : Receipt) (s : Book × Bool) (t : String) : Book × Bool :=
  match content.lookup t with
  | none => s
  | some c =>
    if c.sender = o.sender then s
    else if o.kind = "played" ∧ c.kind ∉ mediaKinds then s
    else
      let seen := (s.1.lookup t).getD ∅
      if o.sender ∉ seen then (s.1.insert t (seen.insert o.sender o.sentAt), true) else s

def receipt (c : Client) (o : Receipt) : Client × Bool :=
  if o.kind = "delivered" ∨ o.kind = "played" then
    let book := if o.kind = "delivered" then c.delivered else c.played
    let (book, changed) := o.targets.foldl (mark c.content o) (book, false)
    (if o.kind = "delivered" then { c with delivered := book } else { c with played := book }, changed)
  else if o.kind = "read" then
    match o.through with
    | none => (c, false)
    | some through =>
      match c.content.lookup through with
      | none => (c, false)
      | some held =>
        if ((c.readSeq.lookup o.sender).map (·.val)).getD 0 < held.seq then
          ({ c with readSeq := c.readSeq.insert o.sender held.seq,
                    readThrough := c.readThrough.insert o.sender through }, true)
        else (c, false)
  else (c, false)

/-- One item in `_sync`: the client, the fresh ids and what is archived. -/
def syncItem (s : Client × List String × List Emit) (it : Item) : Client × List String × List Emit :=
  let (c, fresh, archive) := s
  match it.object with
  | .content o => if o.id ∈ c.content then s else (c.take it.seq o, fresh ++ [o.id], archive)
  | .receipt o =>
    let (c, changed) := c.receipt o
    (c, fresh, if changed then archive ++ [.archive it.seq] else archive)
  | .other => s

/-- The slices of at most `receiptMaxTargets`. -/
def chunks (targets : List String) : List (List String) :=
  (List.range' 0 ((targets.length + receiptMaxTargets - 1) / receiptMaxTargets) receiptMaxTargets).map
    fun k => (targets.drop k).take receiptMaxTargets

def sync (c : Client) (items : List Item) : Client × List Emit :=
  let (c, fresh, archive) := items.foldl syncItem (c, [], [])
  if c.policy.delivered && c.members ≤ deliveredMaxGroup then
    let targets := fresh.filter fun i =>
      (c.content.lookup i).any (·.sender ≠ c.me) && c.me ∉ (c.delivered.lookup i).getD ∅ &&
        i ∉ c.sentDelivered
    ({ c with sentDelivered := c.sentDelivered ∪ targets.toFinset },
      archive ++ (chunks targets).map (.receipt "conversation" "delivered"))
  else (c, archive)

/-- One item in `_restore`. -/
def restoreItem (c : Client) (it : Item) : Client :=
  match it.object with
  | .content o => if o.id ∉ c.content then c.take it.seq o else c
  | .receipt o => (c.receipt o).1
  | .other => c

def restore (c : Client) (items : List Item) : Client := items.foldl restoreItem c

/-- `_read_send`: a reader without a watermark would be Python's `KeyError`. -/
def readSend (c : Client) : Client × List Emit :=
  ({ c with lastReadSent := some c.now, pendingRead := false },
    [.read (if c.policy.read then "conversation" else "personal") (c.readThrough.lookup c.me)])

def read (c : Client) (through : String) : Client × List Emit :=
  match c.content.lookup through with
  | none => (c, [])
  | some held =>
    if held.seq ≤ ((c.readSeq.lookup c.me).map (·.val)).getD 0 then (c, [])
    else
      let c := { c with readSeq := c.readSeq.insert c.me held.seq,
                        readThrough := c.readThrough.insert c.me through }
      if c.lastReadSent.any fun last => c.now - last < readMinIntervalS then
        ({ c with pendingRead := true }, [])
      else c.readSend

def activityIn (c : Client) (sender activity : String) (state : ActivityState) (expiresAt : Int) : Client :=
  let acts := (c.shown.lookup sender).getD ∅
  let acts :=
    match state with
    | .stopped => acts.erase activity
    | .active => if expiresAt > c.now then acts.insert activity expiresAt else acts
  if acts.keys.isEmpty then { c with shown := c.shown.erase sender }
  else { c with shown := c.shown.insert sender acts }

def advance (c : Client) (n : Int) : Client × List Emit :=
  let now := c.now + n
  let shown := (c.shown.map (Dict.filter fun _ t => t > now)).filter fun _ acts => !acts.keys.isEmpty
  let c := { c with now := now, shown := shown }
  if c.pendingRead && c.lastReadSent.any (fun last => c.now - last ≥ readMinIntervalS) then c.readSend
  else (c, [])

def play (c : Client) (i : String) : Client × List Emit :=
  match c.content.lookup i with
  | none => (c, [])
  | some held =>
    if held.kind ∉ mediaKinds ∨ !c.policy.played ∨ c.me ∈ (c.played.lookup i).getD ∅ ∨
        i ∈ c.sentPlayed then (c, [])
    else ({ c with sentPlayed := insert i c.sentPlayed }, [.receipt "conversation" "played" [i]])

def activity (c : Client) (a : String) (state : ActivityState) : Client × List Emit :=
  if !c.policy.activity then (c, [])
  else
    match state with
    | .active =>
      if (c.lastActivity.lookup a).any fun last => c.now - last < activityRefreshS then (c, [])
      else ({ c with lastActivity := c.lastActivity.insert a c.now }, [.activity a .active])
    | .stopped => ({ c with lastActivity := c.lastActivity.erase a }, [.activity a .stopped])

def step (c : Client) : Event → Client × List Emit
  | .sync items => c.sync items
  | .restore items => (c.restore items, [])
  | .read through => c.read through
  | .play id => c.play id
  | .activity a state => c.activity a state
  | .activityIn sender a state expiresAt => (c.activityIn sender a state expiresAt, [])
  | .advance n => c.advance n

def snapshot (c : Client) : View where
  timeline := c.timeline
  delivered := byKeys (c.delivered.filter fun _ m => !m.keys.isEmpty)
  played := byKeys (c.played.filter fun _ m => !m.keys.isEmpty)
  readThrough := c.readThrough.sortedEntries
  activity := byKeys c.shown

/-- The client after some events. -/
def run (c : Client) (events : List Event) : Client := events.foldl (fun c e => (c.step e).1) c

/-- What is emitted and shown after each event. -/
def observe (c : Client) : List Event → List (List Emit × View)
  | [] => []
  | e :: events => ((c.step e).2, (c.step e).1.snapshot) :: observe (c.step e).1 events

end Client

end Dsip.Messaging
