import Dsip.Messaging.HubFanout

/-!
# The TypeScript hub

The second implementation of the hub. It keeps no account of what a step sends:
after every change it goes over all queues and sends the heads that are not in
`sent`. Deposits, events and emissions are those of `Dsip.Messaging.Hub`.

The devices of an identity are a sorted array, here the set of them. The keys of
`sent` are strings that name the queue, its identity and the seq. Identities are
ASCII, so that the string orders of the two languages are one.
-/

namespace Dsip.Messaging.Ts

open Dsip.Lib
open Dsip.Messaging.Hub (Event Emit Context Kind queueOf refuse groupInfoOut)

structure Hub where
  now : Nat
  kind : String
  owner : Option String
  retention : Nat
  epoch : Nat
  nextSeq : Nat
  roster : Roster
  pending : Dict String (List Nat)
  welcomes : Dict String (List Nat)
  classes : Dict Nat DepositClass
  digests : Dict String Nat
  sent : Finset (Kind × String × Nat)
  unregistered : Finset String
  groupInfo : Bool
  movedTo : Option String
  waiting : Dict String Nat

namespace Hub

/-- `constructor`. -/
def new (ctx : Context) : Hub where
  now := ctx.now
  kind := ctx.kind
  owner := ctx.owner
  retention := ctx.retention
  epoch := ctx.epoch
  nextSeq := ctx.nextSeq
  roster := ctx.roster
  pending := ∅
  welcomes := ∅
  classes := ∅
  digests := ∅
  sent := ∅
  unregistered := ∅
  groupInfo := false
  movedTo := none
  waiting := ∅

/-! ## Who may do what -/

/-- `externalJoin`, whether it accepts. -/
def externalJoin (kind : String) (owner : Option String) (roster : Roster) (joiner : Leaf)
    (adds : List Leaf) (removes : List Removal) : Bool :=
  adds = [joiner] &&
  (if kind = "personal" then decide (some joiner.identity = owner)
    else decide (joiner.identity ∈ roster)) &&
  removes.all (·.identity = joiner.identity)

/-- What another identity may lose: it goes entirely, or the leaves whose
delegation no longer verifies do. -/
def mayRemove (h : Hub) (removes : List Removal) (identity : String) : Bool :=
  let removed := removes.filter (·.identity = identity)
  let left := ((h.roster.lookup identity).getD ∅).filter (· ∉ removed.map (·.device))
  left = ∅ || removed.all (!·.delegationValid)

def authorized (h : Hub) (d : Deposit) (c : Commit) : Bool :=
  if !c.valid then false
  else if c.external then
    externalJoin h.kind h.owner h.roster ⟨d.identity, d.device⟩ c.adds c.removes
  else if c.adds.any fun a => a.identity ≠ d.identity ∧ a.identity ∈ h.roster then false
  else c.removes.all fun r => r.identity = d.identity ∨ h.mayRemove c.removes r.identity

/-! ## The queues -/

def classOf (h : Hub) (seq : Nat) : DepositClass := (h.classes.lookup seq).getD (.other "")

def queue (h : Hub) : Kind → String → List Nat
  | .items => queueOf h.pending
  | .welcomes => queueOf h.welcomes

/-- The class a head is sent with. -/
def sentAs (h : Hub) (seq : Nat) : Kind → DepositClass
  | .items => h.classOf seq
  | .welcomes => .welcome

/-- One turn of `flush`: the head of a queue, once. -/
def flushHead (kind : Kind) (h : Hub) (i : String) : Hub × List Emit :=
  match h.queue kind i with
  | [] => (h, [])
  | head :: _ =>
    if (kind = .items ∧ i ∈ h.unregistered) ∨ (kind, i, head) ∈ h.sent then (h, [])
    else
      ({ h with sent := insert (kind, i, head) h.sent }, [.fanout i (some head) (h.sentAs head kind)])

def flush (h : Hub) : Hub × List Emit :=
  let p := foldEmit (flushHead .items) h h.pending.sortedKeys
  let w := foldEmit (flushHead .welcomes) p.1 p.1.welcomes.sortedKeys
  (w.1, p.2 ++ w.2)

/-- The clock of an identity starts. -/
def startClock (now : Nat) (waiting : Dict String Nat) (i : String) : Dict String Nat :=
  if i ∈ waiting then waiting else waiting.insert i now

def enqueue (seq : Nat) (queues : Dict String (List Nat)) (i : String) : Dict String (List Nat) :=
  queues.insert i (queueOf queues i ++ [seq])

/-- `deposit`, once it is accepted: numbered, queued and sent. -/
def sequence (h : Hub) (d : Deposit) (recipients welcomed : List String) : Hub × List Emit :=
  let f := flush
    { h with
      nextSeq := h.nextSeq + 1
      digests := h.digests.insert d.digest h.nextSeq
      classes := h.classes.insert h.nextSeq d.cls
      waiting := (recipients ++ welcomed).foldl (startClock h.now) h.waiting
      pending := recipients.foldl (enqueue h.nextSeq) h.pending
      welcomes := welcomed.foldl (enqueue h.nextSeq) h.welcomes }
  (f.1, .accepted d.device d.id (some h.nextSeq) false :: f.2)

/-! ## Deposits -/

def removeLeaf (roster : Roster) (r : Removal) : Roster :=
  let left := ((roster.lookup r.identity).getD ∅).erase r.device
  if left = ∅ then roster.erase r.identity else roster.insert r.identity left

def addLeaf (recipients : List String) (external : Bool) (st : Hub × List String) (a : Leaf) :
    Hub × List String :=
  let devices := (st.1.roster.lookup a.identity).getD ∅
  if a.device ∈ devices then
    ({ st.1 with roster := st.1.roster.insert a.identity devices }, st.2)
  else
    ({ st.1 with
        roster := st.1.roster.insert a.identity (insert a.device devices)
        unregistered :=
          if a.identity ∉ recipients ∧ !external then insert a.identity st.1.unregistered
          else st.1.unregistered },
      if !external ∧ a.identity ∉ st.2 then st.2 ++ [a.identity] else st.2)

/-- A commit that is accepted. -/
def applyCommit (h : Hub) (d : Deposit) (c : Commit) : Hub × List Emit :=
  let recipients := h.roster.keys
  let st := c.adds.foldl (addLeaf recipients c.external)
    ({ h with roster := c.removes.foldl removeLeaf h.roster }, [])
  sequence
    { st.1 with
      epoch := h.epoch + 1
      movedTo := c.movesTo.or h.movedTo } d recipients st.2

def returned (h : Hub) (d : Deposit) (handoverSeq : Nat) : Hub × List Emit :=
  let view := d.view.getD ⟨h.epoch, ∅⟩
  if d.identity ∉ view.roster ∨ handoverSeq < h.nextSeq then (h, refuse d "policy.blocked")
  else
    ({ h with
        movedTo := none
        epoch := view.epoch
        roster := view.roster
        nextSeq := handoverSeq + 1
        groupInfo := true },
      groupInfoOut d view.roster)

/-- `deposit`, for a handshake or an application whose depositor may make it. -/
def depositOrdered (h : Hub) (d : Deposit) : Hub × List Emit :=
  if d.cls = .application then
    if d.epoch ≠ h.epoch ∧ d.epoch + 1 ≠ h.epoch then (h, refuse d "mailbox.stale-epoch")
    else h.sequence d h.roster.keys []
  else
    match d.commit with
    | none =>
      if d.epoch ≠ h.epoch then (h, refuse d "mailbox.stale-epoch")
      else h.sequence d h.roster.keys []
    | some c =>
      if d.epoch + 1 = h.epoch then (h, refuse d "mailbox.commit-conflict")
      else if d.epoch ≠ h.epoch then (h, refuse d "mailbox.stale-epoch")
      else if !h.authorized d c then (h, refuse d "policy.blocked")
      else h.applyCommit d c

/-- The depositor of an item that is not from an external joiner is a member. -/
def mayDeposit (h : Hub) (d : Deposit) : Bool :=
  match d.commit with
  | some c =>
    if d.cls = .handshake ∧ c.external then h.authorized d c else d.identity ∈ h.roster
  | none => d.identity ∈ h.roster

def deposit (h : Hub) (d : Deposit) : Hub × List Emit :=
  if h.movedTo ≠ none then
    match d.cls, d.handoverSeq with
    | .groupInfo, some handoverSeq => h.returned d handoverSeq
    | _, _ => (h, refuse d "mailbox.unknown-group")
  else if d.cls ∉ [.handshake, .application, .ephemeral, .groupInfo] then
    (h, refuse d "mailbox.unsupported-class")
  else if d.cls = .ephemeral ∧ d.expiresAt ≤ h.now then (h, [])
  else
    match if d.cls.Sequenced then h.digests.lookup d.digest else none with
    | some seq => (h, [.accepted d.device d.id (some seq) true])
    | none =>
      if !h.mayDeposit d then (h, refuse d "policy.blocked")
      else if d.cls = .ephemeral then
        (h, (h.roster.sortedKeys.filter (· ≠ d.identity)).map (.forward · .ephemeral))
      else if d.cls = .groupInfo then ({ h with groupInfo := true }, groupInfoOut d h.roster)
      else h.depositOrdered d

/-! ## The other events -/

/-- The queues of an identity are dropped. -/
def drop (h : Hub) (i : String) : Hub × List Emit :=
  ({ h with
      pending := h.pending.erase i
      welcomes := h.welcomes.erase i
      unregistered := h.unregistered.erase i
      waiting := h.waiting.erase i },
    [.dropped i (queueOf h.pending i) (queueOf h.welcomes i)])

def advance (h : Hub) (n : Nat) : Hub × List Emit :=
  let h := { h with now := h.now + n }
  foldEmit drop h (h.waiting.sortedKeys.filter fun i =>
    (h.waiting.lookup i).any fun since => h.retention + since ≤ h.now)

/-- The queue without its head, deleted when nothing is left. -/
def popHead (queues : Dict String (List Nat)) (i : String) : List Nat → Dict String (List Nat)
  | [] => queues.erase i
  | rest => queues.insert i rest

def ack (h : Hub) (i : String) (seq : Nat) (cls : Option DepositClass) : Hub × List Emit :=
  match queueOf (if cls = some .welcome then h.welcomes else h.pending) i with
  | [] => (h, [])
  | head :: rest =>
    if head ≠ seq then (h, [])
    else
      let h : Hub :=
        if cls = some .welcome then { h with welcomes := popHead h.welcomes i rest }
        else { h with pending := popHead h.pending i rest }
      let h : Hub :=
        { h with
          unregistered :=
            if cls = some .welcome ∧ i ∉ h.welcomes then h.unregistered.erase i
            else h.unregistered
          waiting :=
            if i ∈ h.pending ∨ i ∈ h.welcomes then h.waiting.insert i h.now
            else h.waiting.erase i }
      h.flush

def step (h : Hub) : Event → Hub × List Emit
  | .advance n => h.advance n
  | .ack i seq cls => h.ack i seq cls
  | .restart => { h with sent := ∅ }.flush
  | .deposit d => h.deposit d

end Hub

end Dsip.Messaging.Ts
