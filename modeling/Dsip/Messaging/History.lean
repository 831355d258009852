import Dsip.Lib.Dict
import Dsip.Lib.FoldEmit

/-!
# A device's history

What a device shows of its conversations comes by three routes: archive records,
MLS items, and what it sent itself. A record whose archive key the device does
not hold is held until the key arrives; an MLS item from before the device
joined is skipped; copies of one object collapse by its id.

The two implementations are here side by side. They take in the same events
(`Gate`): which objects they open, and when, does not depend on what they do
with them. The Python history keeps what it showed with its group and seq, and
what it applied apart; the TypeScript history keeps one set of ids and a
timeline in seq order.
-/

namespace Dsip.Messaging

open Dsip.Lib

/-- The `object` of an item; content where none is named. -/
inductive ObjectKind where
  | content
  | receipt
  | callEvent
  | other (name : String)
  deriving DecidableEq, Repr

structure Obj where
  id : String
  group : String
  seq : Nat
  kind : ObjectKind := .content
  deriving DecidableEq, Repr

structure Record where
  cursor : String
  akid : String
  obj : Obj
  deriving DecidableEq, Repr

namespace History

structure Context where
  keys : Dict String Nat := ∅
  joined : Dict String Nat := ∅

inductive Event where
  | joined (group : String) (epoch : Nat)
  | archiveKey (akid : String) (createdAt : Nat)
  | archive (r : Record)
  | mls (o : Obj) (epoch : Nat)
  | sent (o : Obj)
  deriving DecidableEq, Repr

inductive Emit where
  | duplicate (id : String)
  | shown (id : String)
  | hold (cursor : String)
  | apply (cursor : String)
  | prejoin (seq : Nat)
  | archive (group : String) (seq : Nat) (akid : String)
  deriving DecidableEq, Repr

/-- An MLS item from before the device joined its group. -/
def isPrejoin (joined : Dict String Nat) (o : Obj) (epoch : Nat) : Bool :=
  (joined.lookup o.group).any (epoch < ·)

/-! ## What both take in -/

/-- The keys, the joined epochs and the held records. -/
structure Gate where
  keys : Finset String
  joined : Dict String Nat
  held : List Record

/-- The records of a key, and the objects in them. -/
def released (held : List Record) (akid : String) : List Record := held.filter (·.akid = akid)

/-- One event: the gate after it, and the objects it opens, in order. -/
def Gate.step (g : Gate) : Event → Gate × List Obj
  | .joined group epoch => ({ g with joined := g.joined.insert group epoch }, [])
  | .archiveKey akid _ =>
    ({ g with keys := insert akid g.keys, held := g.held.filter (·.akid ≠ akid) },
      (released g.held akid).map (·.obj))
  | .archive r => if r.akid ∈ g.keys then (g, [r.obj]) else ({ g with held := g.held ++ [r] }, [])
  | .mls o epoch => if isPrejoin g.joined o epoch then (g, []) else (g, [o])
  | .sent o => (g, [o])

end History

open History (Event Emit Context isPrejoin released)

/-! ## The Python history -/

structure Entry where
  id : String
  group : String
  seq : Nat
  deriving DecidableEq, Repr

def Obj.entry (o : Obj) : Entry := ⟨o.id, o.group, o.seq⟩

def Entry.le (a b : Entry) : Prop := a.group < b.group ∨ (a.group = b.group ∧ a.seq ≤ b.seq)

instance : DecidableRel Entry.le := fun _ _ => inferInstanceAs (Decidable (_ ∨ _))

structure History where
  keys : Dict String Nat
  joined : Dict String Nat
  held : List Record
  /-- `shown`, in the order of showing. -/
  shown : List Entry
  applied : Finset String

namespace History

def init (ctx : Context) : History where
  keys := ctx.keys
  joined := ctx.joined
  held := []
  shown := []
  applied := ∅

/-- What restores state and is no timeline entry. -/
def isState (kind : ObjectKind) : Bool := kind = .receipt || kind = .callEvent

/-- The later of two keys: by `created_at`, then by `akid`. -/
def laterKey (best : Option (String × Nat)) (key : String × Nat) : Option (String × Nat) :=
  match best with
  | none => some key
  | some b => if b.2 < key.2 ∨ (b.2 = key.2 ∧ b.1 < key.1) then some key else some b

def current (h : History) : Option String :=
  ((h.keys.entries.map fun k => (k.1, k.2)).foldl laterKey none).map (·.1)

/-- `_show`. -/
def present (h : History) (o : Obj) : History × Emit :=
  if o.id ∈ h.shown.map (·.id) then (h, .duplicate o.id)
  else ({ h with shown := h.shown ++ [o.entry] }, .shown o.id)

/-- `_open`. -/
def openRecord (h : History) (r : Record) : History × Emit :=
  if isState r.obj.kind then
    if r.obj.id ∈ h.applied then (h, .duplicate r.obj.id)
    else ({ h with applied := insert r.obj.id h.applied }, .apply r.cursor)
  else h.present r.obj

/-- `_open` of one of several. -/
def openOne (h : History) (r : Record) : History × List Emit :=
  let (h, e) := h.openRecord r
  (h, [e])

def archiveKey (h : History) (akid : String) (createdAt : Nat) : History × List Emit :=
  let h := { h with keys := h.keys.insert akid createdAt }
  let (h, out) := foldEmit openOne h (released h.held akid)
  ({ h with held := h.held.filter (·.akid ≠ akid) }, out)

def archive (h : History) (r : Record) : History × List Emit :=
  if r.akid ∉ h.keys then ({ h with held := h.held ++ [r] }, [.hold r.cursor])
  else h.openOne r

def fromMls (h : History) (o : Obj) : History × List Emit :=
  let (h, shown) := h.present o
  match shown, h.current with
  | .shown _, some akid => (h, [shown, .archive o.group o.seq akid])
  | _, _ => (h, [shown])

def sent (h : History) (o : Obj) : History × List Emit :=
  if isState o.kind then
    if o.id ∈ h.applied then (h, [.duplicate o.id])
    else
      ({ h with applied := insert o.id h.applied }, h.current.toList.map (.archive o.group o.seq ·))
  else h.fromMls o

def mls (h : History) (o : Obj) (epoch : Nat) : History × List Emit :=
  if isPrejoin h.joined o epoch then (h, [.prejoin o.seq]) else h.sent o

def step (h : History) : Event → History × List Emit
  | .joined group epoch => ({ h with joined := h.joined.insert group epoch }, [])
  | .archiveKey akid createdAt => h.archiveKey akid createdAt
  | .archive r => h.archive r
  | .mls o epoch => h.mls o epoch
  | .sent o => h.sent o

/-- `snapshot()["timeline"]`. -/
def timeline (h : History) : List String := (h.shown.insertionSort Entry.le).map (·.id)

/-- The history after some events. -/
def run (ctx : Context) (es : List Event) : History := es.foldl (fun h e => (h.step e).1) (init ctx)

end History

/-! ## The TypeScript history -/

namespace Ts

structure Entry where
  id : String
  seq : Nat
  deriving DecidableEq, Repr

structure History where
  keys : Dict String Nat
  joined : Dict String Nat
  timeline : List Entry
  known : Finset String
  held : List Record

namespace History

/-- `constructor`. -/
def new (ctx : Context) : History where
  keys := ctx.keys
  joined := ctx.joined
  timeline := []
  known := ∅
  held := []

def isTimeline (kind : ObjectKind) : Bool := kind = .content

/-- `current`: the last key in order. -/
def current (h : History) : Option String :=
  ((h.keys.entries.map fun k => (k.1, k.2)).insertionSort fun a b =>
    a.2 < b.2 ∨ (a.2 = b.2 ∧ a.1 < b.1)).getLast?.map (·.1)

def entry (o : Obj) : Entry := ⟨o.id, o.seq⟩

/-- `show`. -/
def present (h : History) (o : Obj) : History :=
  { h with timeline := (h.timeline ++ [entry o]).insertionSort fun a b => a.seq ≤ b.seq }

def restore (h : History) (r : Record) : History × Emit :=
  if r.obj.id ∈ h.known then (h, .duplicate r.obj.id)
  else
    let h := { h with known := insert r.obj.id h.known }
    if !isTimeline r.obj.kind then (h, .apply r.cursor)
    else (h.present r.obj, .shown r.obj.id)

def restoreOne (h : History) (r : Record) : History × List Emit :=
  let (h, e) := h.restore r
  (h, [e])

def archive (h : History) (r : Record) : History × List Emit :=
  if r.akid ∉ h.keys then ({ h with held := h.held ++ [r] }, [.hold r.cursor])
  else h.restoreOne r

def archiveKey (h : History) (akid : String) (createdAt : Nat) : History × List Emit :=
  foldEmit restoreOne
    { h with keys := h.keys.insert akid createdAt, held := h.held.filter (·.akid ≠ akid) }
    (released h.held akid)

/-- An MLS item the device can read, or one it sent. -/
def item (h : History) (o : Obj) : History × List Emit :=
  if o.id ∈ h.known then (h, [.duplicate o.id])
  else
    let h := { h with known := insert o.id h.known }
    let archived := h.current.toList.map (Emit.archive o.group o.seq ·)
    if isTimeline o.kind then (h.present o, .shown o.id :: archived) else (h, archived)

def step (h : History) : Event → History × List Emit
  | .archive r => h.archive r
  | .archiveKey akid createdAt => h.archiveKey akid createdAt
  | .joined group epoch => ({ h with joined := h.joined.insert group epoch }, [])
  | .mls o epoch => if isPrejoin h.joined o epoch then (h, [.prejoin o.seq]) else h.item o
  | .sent o => h.item o

/-- The history after some events. -/
def run (ctx : Context) (es : List Event) : History := es.foldl (fun h e => (h.step e).1) (new ctx)

end History

end Ts

end Dsip.Messaging
