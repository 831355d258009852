import Dsip.Lib.Dict
import Dsip.Lib.FoldEmit
import Dsip.Lib.PyInt
import Dsip.Lib.TSys

/-!
# The mailbox of an identity

A mailbox stores what hubs, welcomers and strangers deposit for the identities
it serves, and its owner's devices read it page by page. It knows the hub each
group is registered with; when a group moves, it still admits what the previous
hub ordered, and holds the new hub off until that is stored or the wait for it
is over.

The definitions follow the source function by function. A step fails where the
source raises: on an acknowledgement with no device registered, on a page limit
of 0, and on a first contact with an introduction budget of 0.
-/

namespace Dsip.Messaging

open Dsip.Lib

/-- M§7.4: how long a mailbox holds a new hub off for the old hub's last
items. -/
def handoverWaitS : Nat := 300

/-- M§14.2: an origin issued no later than the hub deposit plus this. -/
def originSkewS : Nat := 300

def keyPackagesPerDevice : Nat := 100

def messageGrantScopes : List String := ["dsip.message", "dsip.invite"]

/-- The classes of stored items and of what a hub delivers. -/
inductive HeldClass where
  | handshake
  | application
  | ephemeral
  | groupInfo
  | welcome
  | archive
  | introduction
  | grant
  | other (name : String)
  deriving DecidableEq, Repr

inductive MailboxMode where
  | sync
  | queue
  deriving DecidableEq, Repr

/-- `MAILBOX_MODES`. -/
def MailboxMode.parse : String → Option MailboxMode
  | "sync" => some .sync
  | "queue" => some .queue
  | _ => none

inductive Admit where
  | grant
  | anyone
  deriving DecidableEq, Repr

inductive RegState where
  | pending
  | joined
  deriving DecidableEq, Repr

/-- What the mailbox keeps once it stops waiting for the previous hub: the
highest seq stored then, and the seqs the previous hub delivered after. -/
structure Release where
  released : Nat
  late : List Nat
  deriving DecidableEq, Repr

/-- The hub a group moved away from. -/
structure Previous where
  hub : String
  through : Nat
  since : Nat
  release : Option Release := none
  deriving DecidableEq, Repr

structure Reg where
  hub : String
  state : RegState
  since : Nat
  items : Nat := 0
  highSeq : Option Nat := none
  previous : Option Previous := none
  deriving DecidableEq, Repr

/-- `reg.get("high_seq", 0)`. -/
def Reg.high (reg : Reg) : Nat := reg.highSeq.getD 0

structure Item where
  cursor : String
  n : Nat
  cls : HeldClass
  group : String
  digest : Option String := none
  size : Nat := 0
  seq : Option Nat := none
  depositor : Option String := none
  expiresAt : Option Nat := none
  deriving DecidableEq, Repr

structure KeyPackages where
  oneTime : Nat := 0
  lastResort : Bool := false
  deriving DecidableEq, Repr

structure Grant where
  id : Option String
  grantor : Option String
  grantee : Option String
  scope : List String := []
  validUntil : Nat := 0
  deriving DecidableEq, Repr

structure Mailbox where
  now : Nat
  owner : String
  serves : Finset String
  devices : List String
  mode : MailboxMode
  admits : Admit
  pendingTtl : Nat
  pendingMax : Nat
  /-- `none` is unlimited. -/
  quota : Option Nat
  handoverWait : Nat
  groups : Dict String Reg
  kp : Dict String KeyPackages
  revoked : Finset String
  items : List Item
  counter : Nat
  acks : Dict String Nat
  bound : Finset String
  archived : Dict (String × Nat) String
  introLimit : Nat
  introWindow : Nat
  inboxCap : Nat
  introLog : Dict String (List Nat)
  introductionsSent : List String

/-! ## Cursors -/

/-- `cursor`: sixteen hexadecimal digits, more from 2^64 on. -/
def cursor (n : Nat) : String :=
  let digits := Nat.toDigits 16 n
  "c:" ++ String.ofList (List.replicate (16 - digits.length) '0' ++ digits)

def cursorNum (c : String) : Option Int :=
  match c.toList with
  | 'c' :: ':' :: digits => if digits.length = 16 then PyInt.ofHex digits else none
  | _ => none

namespace Mailbox

structure Context where
  now : Nat := 0
  owner : String
  serves : Finset String := {owner}
  devices : List String
  mode : MailboxMode := .sync
  admits : Admit := .grant
  pendingTtl : Nat := 604800
  pendingMax : Nat := 500
  quota : Option Nat := none
  handoverWait : Nat := handoverWaitS
  groups : Dict String (String × RegState) := ∅
  kp : Dict String KeyPackages := ∅
  introLimit : Nat := 5
  introWindow : Nat := 3600
  inboxCap : Nat := 16

/-! ## Events and what is emitted -/

inductive ContactKind where
  | introduction
  | grant
  deriving DecidableEq, Repr

def ContactKind.cls : ContactKind → HeldClass
  | .introduction => .introduction
  | .grant => .grant

structure FirstContact where
  id : String
  sender : String
  senderIdentity : String
  recipient : String
  kind : ContactKind
  session : Option String := none
  expiresAt : Nat
  deriving DecidableEq, Repr

/-- The adder device's signed deposit behind a hub-forwarded welcome. -/
structure Origin where
  identity : String
  group : String
  issuedAt : Nat
  deriving DecidableEq, Repr

structure Welcome where
  id : String
  sender : String
  recipient : String
  group : String
  hub : String
  adderIdentity : Option String := none
  viaHub : Bool := false
  origin : Option Origin := none
  issuedAt : Nat := 0
  grant : Option Grant := none
  successorOf : Option String := none
  digest : Option String := none
  size : Nat := 0
  deriving DecidableEq, Repr

structure HubDeposit where
  id : String
  sender : String
  recipient : String
  group : String
  seq : Option Nat
  cls : HeldClass
  expiresAt : Option Nat := none
  size : Nat := 0
  deriving DecidableEq, Repr

structure Forward where
  id : String
  device : String
  identity : String
  group : String
  dest : String
  deriving DecidableEq, Repr

structure Sync where
  id : String
  device : String
  since : Option String := none
  ackThrough : Option String := none
  live : Bool := false
  limit : Nat := 200
  deriving DecidableEq, Repr

structure GroupConfig where
  group : String
  left : Bool := false
  hub : Option String := none
  handoverSeq : Option Nat := none
  deriving DecidableEq, Repr

structure Config where
  id : String
  device : String
  mode : Option String := none
  admits : Option Admit := none
  groups : List GroupConfig := []
  revokedGrants : List String := []
  introductionsSent : List String := []
  revokedDevices : List String := []
  deriving DecidableEq, Repr

structure Archive where
  id : String
  device : String
  refGroup : String
  refSeq : Nat
  size : Nat := 0
  deriving DecidableEq, Repr

structure KpUpload where
  id : String
  device : String
  count : Nat := 0
  lastResort : Bool := false
  deriving DecidableEq, Repr

structure KpFetch where
  id : String
  sender : String
  senderIdentity : String
  target : String
  grant : Option Grant := none
  successorOf : Option String := none
  deriving DecidableEq, Repr

inductive Event where
  | firstContact (e : FirstContact)
  | advance (n : Nat)
  | welcome (e : Welcome)
  | hubDeposit (e : HubDeposit)
  | forwardFailed (device id : String)
  | forward (e : Forward)
  | sync (e : Sync)
  | unbind (device : String)
  | config (e : Config)
  | archive (e : Archive)
  | kpUpload (e : KpUpload)
  | kpFetch (e : KpFetch)
  | restart
  deriving DecidableEq, Repr

inductive Served where
  | oneTime
  | lastResort
  deriving DecidableEq, Repr

inductive Emit where
  | error (dest inReplyTo reason : String) (retryAfter : Option Nat)
  | accepted (dest inReplyTo : String) (cursor : Option String) (duplicate : Bool)
  | push (device cursor : String)
  /-- A push of what is not stored. -/
  | pushEphemeral (device : String)
  | handoverExpired (group hub : String) (missing : List Nat)
  | forward (dest id : String)
  | items (dest inReplyTo : String) (cursors : List String) (next : Option String)
  | close (device reason : String)
  | keyPackages (dest inReplyTo : String) (devices : Dict String Served)
  deriving DecidableEq

inductive Fault where
  /-- `min` over no devices. -/
  | noDevices
  /-- The last item of an empty page. -/
  | emptyPage
  /-- The oldest entry of an empty log. -/
  | emptyLog
  deriving DecidableEq, Repr

def init (ctx : Context) : Mailbox where
  now := ctx.now
  owner := ctx.owner
  serves := ctx.serves
  devices := ctx.devices.insertionSort (· ≤ ·)
  mode := ctx.mode
  admits := ctx.admits
  pendingTtl := ctx.pendingTtl
  pendingMax := ctx.pendingMax
  quota := ctx.quota
  handoverWait := ctx.handoverWait
  groups := Dict.map (fun r => { hub := r.1, state := r.2, since := ctx.now }) ctx.groups
  kp := ctx.kp
  revoked := ∅
  items := []
  counter := 0
  acks := ∅
  bound := ∅
  archived := ∅
  introLimit := ctx.introLimit
  introWindow := ctx.introWindow
  inboxCap := ctx.inboxCap
  introLog := ∅
  introductionsSent := []

/-! ## Helpers -/

def error (dest id reason : String) : List Emit := [.error dest id reason none]

def grantOk (m : Mailbox) (grant : Option Grant) (grantee : Option String) (target : String) : Bool :=
  grant.any fun g =>
    g.grantor = some target && g.grantee = grantee && g.scope.any (· ∈ messageGrantScopes) &&
      m.now < g.validUntil && g.id.all (· ∉ m.revoked)

def used (m : Mailbox) : Nat := (m.items.map (·.size)).sum

def overQuota (m : Mailbox) (size : Nat) : Bool := m.quota.any fun quota => quota < m.used + size

/-- The devices a stored item is announced to. -/
def pushes (m : Mailbox) (depositor : Option String) (c : String) : List Emit :=
  ((sorted m.bound).filter fun device => depositor ≠ some device).map (.push · c)

/-- `_store`: the item gets the next cursor; a group keeps one group-info. -/
def store (m : Mailbox) (item : Item) : Mailbox × String × List Emit :=
  let c := cursor (m.counter + 1)
  let kept := if item.cls = .groupInfo then
      m.items.filter fun it => ¬ (it.group = item.group ∧ it.cls = .groupInfo)
    else m.items
  ({ m with
      counter := m.counter + 1
      items := kept ++ [{ item with cursor := c, n := m.counter + 1 }] },
    c, m.pushes item.depositor c)

/-- Store and answer with the cursor. -/
def storeAccepted (m : Mailbox) (dest id : String) (item : Item) : Mailbox × List Emit :=
  let (m, c, out) := m.store item
  (m, .accepted dest id (some c) false :: out)

/-! ## First contact -/

/-- The log of a key, without what has left the window. -/
def recent (m : Mailbox) (key : String) : List Nat :=
  ((m.introLog.lookup key).getD []).filter (m.now < · + m.introWindow)

/-- §19.4: rate-limited per sender identity and per recipient inbox. The second
component is `retry_after` when a key is at its limit. -/
def meter (m : Mailbox) : List String → Except Fault (Mailbox × Option Nat)
  | [] => .ok (m, none)
  | key :: keys =>
    let log := m.recent key
    let m := { m with introLog := m.introLog.insert key log }
    if m.introLimit ≤ log.length then
      match log with
      | [] => .error .emptyLog
      | oldest :: _ => .ok (m, some (oldest + m.introWindow - m.now))
    else m.meter keys

/-- The deposit is logged under each of its keys. -/
def log (m : Mailbox) (keys : List String) : Mailbox :=
  { m with introLog := keys.foldl (fun l key =>
      l.insert key ((l.lookup key).getD [] ++ [m.now])) m.introLog }

/-- A grant that answers an introduction the owner sent. -/
def Solicited (m : Mailbox) (e : FirstContact) : Prop :=
  e.kind = .grant ∧ ∃ s ∈ m.introductionsSent, e.session = some s

instance (m : Mailbox) (e : FirstContact) : Decidable (m.Solicited e) := inferInstanceAs (Decidable (_ ∧ _))

/-- `_first_contact` once it is paid for. -/
def hold (m : Mailbox) (e : FirstContact) : Mailbox × List Emit :=
  if e.recipient ∉ m.serves then (m, [.accepted e.sender e.id none false])
  else if e.kind = .introduction ∧ m.inboxCap ≤ (m.items.filter fun it => it.cls = .introduction).length then
    (m, [.accepted e.sender e.id none false])
  else
    m.storeAccepted e.sender e.id
      { cursor := "", n := 0, cls := e.kind.cls, group := "", expiresAt := some e.expiresAt }

def firstContact (m : Mailbox) (e : FirstContact) : Except Fault (Mailbox × List Emit) :=
  if m.Solicited e then
    let m := { m with introductionsSent := m.introductionsSent.erase (e.session.getD "") }
    .ok (m.hold e)
  else
    let keys := ["sender:" ++ e.senderIdentity, "inbox:" ++ e.recipient]
    match m.meter keys with
    | .error fault => .error fault
    | .ok (m, some retryAfter) =>
      .ok (m, [.error e.sender e.id "policy.rate-limited" (some retryAfter)])
    | .ok (m, none) => .ok ((m.log keys).hold e)

/-! ## Time -/

/-- The pending groups that were not confirmed in time. -/
def lapsed (m : Mailbox) : List String :=
  m.groups.keys.filter fun g =>
    (m.groups.lookup g).any fun r => r.state = .pending ∧ r.since + m.pendingTtl < m.now

/-- M§6.6: an unconfirmed pending group is dropped with its items. -/
def dropGroup (m : Mailbox) (g : String) : Mailbox :=
  { m with
    groups := m.groups.erase g
    items := m.items.filter fun it => ¬ (it.group = g ∧ it.cls ≠ .archive) }

def advance (m : Mailbox) (n : Nat) : Mailbox :=
  let m := { m with
    now := m.now + n
    items := m.items.filter fun it => it.expiresAt.all (m.now + n < ·) }
  m.lapsed.foldl dropGroup m

/-! ## Welcomes -/

/-- The identity a welcome was sent by: the origin's where a hub forwarded it.
The error is the refusal of a forwarded welcome whose origin proves nothing. -/
def adder (m : Mailbox) (e : Welcome) : Except String (Option String) :=
  if e.viaHub then
    match e.origin with
    | none => .error "policy.blocked"
    | some o =>
      if o.group ≠ e.group then .error "policy.blocked"
      else if e.issuedAt + originSkewS < o.issuedAt ∨ o.issuedAt + m.pendingTtl < e.issuedAt then
        .error "policy.blocked"
      else .ok (some o.identity)
  else .ok e.adderIdentity

/-- M§14.2: who may add the owner to a group. -/
def mayAdd (m : Mailbox) (e : Welcome) (adder : Option String) : Bool :=
  m.admits = .anyone || adder = some m.owner || m.grantOk e.grant adder e.recipient ||
    e.successorOf.any (· ∈ m.groups)

/-- The welcome of the same bytes still held for the group. -/
def heldWelcome (m : Mailbox) (e : Welcome) : Option Item :=
  if e.digest.isSome then
    m.items.find? fun it => it.cls = .welcome ∧ it.group = e.group ∧ it.digest = e.digest
  else none

/-- A group not registered yet is, as pending. -/
def registerPending (m : Mailbox) (e : Welcome) : Mailbox :=
  if e.group ∈ m.groups then m
  else { m with groups := m.groups.insert e.group { hub := e.hub, state := .pending, since := m.now } }

def welcome (m : Mailbox) (e : Welcome) : Mailbox × List Emit :=
  if e.recipient ∉ m.serves then (m, error e.sender e.id "transport.unknown-recipient")
  else
    match m.adder e with
    | .error reason => (m, error e.sender e.id reason)
    | .ok adder =>
      if !m.mayAdd e adder then (m, error e.sender e.id "policy.first-contact-required")
      else
        match m.heldWelcome e with
        | some it => (m, [.accepted e.sender e.id (some it.cursor) true])
        | none =>
          if m.overQuota e.size then (m, error e.sender e.id "mailbox.quota-exceeded")
          else
            (m.registerPending e).storeAccepted e.sender e.id
              { cursor := "", n := 0, cls := .welcome, group := e.group, digest := e.digest, size := e.size }

/-! ## A hub's items -/

def unknownGroup (e : HubDeposit) : List Emit := error e.sender e.id "mailbox.unknown-group"

/-- The item is stored, and its seq recorded: as late, or as the highest. -/
def Reg.stored (reg : Reg) (seq : Option Nat) (late : Bool) : Reg :=
  let reg := { reg with items := reg.items + 1 }
  match seq with
  | none => reg
  | some s =>
    if late then
      { reg with previous := reg.previous.map fun prev =>
          { prev with release := prev.release.map fun r => { r with late := r.late ++ [s] } } }
    else { reg with highSeq := some s }

/-- The item of the group with this seq, while it is retained. -/
def retained (m : Mailbox) (group : String) (seq : Nat) : Option Item :=
  m.items.find? fun it => it.group = group ∧ it.seq = some seq ∧ it.cls ≠ .archive

/-- `_hub_deposit` from the admission on. `late` marks an item of the previous
hub arriving after the wait for it expired. -/
def deliver (m : Mailbox) (e : HubDeposit) (reg : Reg) (late : Bool) (out : List Emit) :
    Mailbox × List Emit :=
  if e.cls = .ephemeral then
    if e.expiresAt.any (· ≤ m.now) then (m, out)
    else (m, out ++ (sorted m.bound).map .pushEphemeral)
  else
    match e.seq.filter fun s => s ≤ reg.high ∧ !late with
    | some s =>
      -- spec-gap 59: a redelivery
      (m, [.accepted e.sender e.id ((m.retained e.group s).map (·.cursor)) true])
    | none =>
      if reg.state = .pending ∧ m.pendingMax ≤ reg.items then
        (m, error e.sender e.id "mailbox.quota-exceeded")
      else if m.overQuota e.size then
        (m, out ++ error e.sender e.id "mailbox.quota-exceeded")
      else
        let m := { m with groups := m.groups.insert e.group (Reg.stored reg e.seq late) }
        let (m, answer) := m.storeAccepted e.sender e.id
          { cursor := "", n := 0, cls := e.cls, group := e.group, seq := e.seq, size := e.size }
        (m, out ++ answer)

/-- spec-gap 71: the item comes from the previous hub after the wait for it and
was not stored late before. -/
def Previous.isLate (prev : Previous) (seq : Nat) : Bool :=
  prev.release.any fun r => r.released < seq ∧ seq ∉ r.late

/-- spec-gap 60: the previous hub still delivers what it ordered. -/
def fromPrevious (m : Mailbox) (e : HubDeposit) (reg : Reg) (prev : Previous) : Mailbox × List Emit :=
  match e.seq with
  | none => (m, unknownGroup e)
  | some s =>
    if prev.through < s then (m, unknownGroup e)
    else m.deliver e reg (Previous.isLate prev s) []

/-- The new hub continues the numbering; what it would number again is blocked,
after an expiry just noticed is announced (spec-gap 88). -/
def fromCurrent (m : Mailbox) (e : HubDeposit) (reg : Reg) (prev : Previous) (out : List Emit) :
    Mailbox × List Emit :=
  if e.seq.any (· ≤ prev.through) then (m, out ++ error e.sender e.id "policy.blocked")
  else m.deliver e reg false out

/-- spec-gap 71: the previous hub did not finish within `handover_wait`. -/
def Reg.expire (reg : Reg) (prev : Previous) : Reg :=
  { reg with previous := some { prev with release := some { released := reg.high, late := [] } } }

/-- The seqs left to the owner's devices. -/
def missing (reg : Reg) (prev : Previous) : List Nat := List.range' (reg.high + 1) (prev.through - reg.high)

def hubDeposit (m : Mailbox) (e : HubDeposit) : Mailbox × List Emit :=
  if e.recipient ∉ m.serves then (m, error e.sender e.id "transport.unknown-recipient")
  else
    match m.groups.lookup e.group with
    | none => (m, unknownGroup e)
    | some reg =>
      match reg.previous with
      | none => if reg.hub ≠ e.sender then (m, unknownGroup e) else m.deliver e reg false []
      | some prev =>
        if e.sender = prev.hub ∧ reg.hub ≠ e.sender then m.fromPrevious e reg prev
        else if reg.hub ≠ e.sender then (m, unknownGroup e)
        else if reg.high < prev.through ∧ prev.release = none then
          if m.now < prev.since + m.handoverWait then (m, unknownGroup e)
          else
            let reg' := Reg.expire reg prev
            { m with groups := m.groups.insert e.group reg' }.fromCurrent e reg' prev
              [.handoverExpired e.group prev.hub (missing reg prev)]
        else m.fromCurrent e reg prev []

/-! ## The owner's devices -/

/-- `_forward`: the mailbox stores nothing. -/
def forward (m : Mailbox) (e : Forward) : List Emit :=
  if e.identity ≠ m.owner then error e.device e.id "policy.blocked"
  else if (m.groups.lookup e.group).any (·.hub = e.dest) then [.forward e.dest e.id]
  else error e.device e.id "mailbox.unknown-group"

/-- A cursor a sync names, by its number: absent, or not above the counter. -/
def readCursor (m : Mailbox) : Option String → Option (Option Int)
  | none => some none
  | some c => ((cursorNum c).filter fun n => n ≤ (m.counter : Int)).map some

/-- The acknowledgement of a sync. In queue mode an item goes once every
registered device has acknowledged it. -/
def acknowledge (m : Mailbox) (device : String) : Option Int → Except Fault Mailbox
  | none => .ok m
  | some n =>
    let ack := (max (((m.acks.lookup device).getD 0 : Nat) : Int) n).toNat
    let m := { m with acks := m.acks.insert device ack }
    if m.mode = .queue then
      match m.devices.map fun dv => (m.acks.lookup dv).getD 0 with
      | [] => .error .noDevices
      | a :: as => .ok { m with items := m.items.filter (as.foldl min a < ·.n) }
    else .ok m

/-- The page a sync is answered with. -/
def page (m : Mailbox) (e : Sync) (since : Int) : Except Fault (List Emit) :=
  let avail := m.items.filter fun it => since < (it.n : Int)
  let taken := avail.take e.limit
  if e.limit < avail.length then
    match taken.getLast? with
    | none => .error .emptyPage
    | some last => .ok [.items e.device e.id (taken.map (·.cursor)) (some last.cursor)]
  else .ok [.items e.device e.id (taken.map (·.cursor)) none]

/-- A live sync binds the device. -/
def goLive (m : Mailbox) (e : Sync) : Mailbox :=
  if e.live then { m with bound := insert e.device m.bound } else m

def sync (m : Mailbox) (e : Sync) : Except Fault (Mailbox × List Emit) :=
  match m.readCursor e.since, m.readCursor e.ackThrough with
  | some since, some ack =>
    match m.acknowledge e.device ack with
    | .error fault => .error fault
    | .ok m =>
      ((m.goLive e).page e (since.getD 0)).map fun out => (m.goLive e, out)
  | _, _ => .ok (m, error e.device e.id "mailbox.cursor-invalid")

def unbind (m : Mailbox) (device : String) : Mailbox := { m with bound := m.bound.erase device }

/-- M§7.4: an owner device names the group's new hub. What the old hub ordered
through the commit that moved the group is still admitted. -/
def Reg.rehome (reg : Reg) (now : Nat) (g : GroupConfig) : Reg :=
  match g.hub with
  | none => reg
  | some hub =>
    if hub = reg.hub then reg
    else { reg with
      previous := some
        { hub := reg.hub, through := g.handoverSeq.getD reg.high, since := now }
      hub := hub }

/-- One group entry of a config. -/
def configGroup (now : Nat) (groups : Dict String Reg) (g : GroupConfig) : Dict String Reg :=
  if g.left then groups.erase g.group
  else
    match groups.lookup g.group with
    | some reg => groups.insert g.group (Reg.rehome { reg with state := .joined } now g)
    | none =>
      match g.hub with
      | none => groups
      | some hub => groups.insert g.group { hub, state := .joined, since := now }

/-- spec-gap 57: a revoked device loses its binding now, its registration and
its KeyPackages. -/
def revokeDevice (m : Mailbox) (device : String) : Mailbox × List Emit :=
  ({ m with
      bound := m.bound.erase device
      devices := m.devices.filter (· ≠ device)
      kp := m.kp.erase device },
    if device ∈ m.bound then [.close device "delegation-revoked"] else [])

/-- The part of `_config` after the mode is checked. -/
def applyConfig (m : Mailbox) (e : Config) (mode : MailboxMode) : Mailbox × List Emit :=
  let m := { m with
    mode := mode
    admits := e.admits.getD m.admits
    groups := e.groups.foldl (configGroup m.now) m.groups
    revoked := m.revoked ∪ e.revokedGrants.toFinset
    introductionsSent := m.introductionsSent ++ e.introductionsSent.filter (· ∉ m.introductionsSent) }
  let (m, closes) := foldEmit revokeDevice m e.revokedDevices
  (m, .accepted e.device e.id none false :: closes)

def config (m : Mailbox) (e : Config) : Mailbox × List Emit :=
  match e.mode with
  | none => m.applyConfig e m.mode
  | some text =>
    match MailboxMode.parse text with
    | none => (m, error e.device e.id "mailbox.unsupported-mode")
    | some mode => m.applyConfig e mode

def archive (m : Mailbox) (e : Archive) : Mailbox × List Emit :=
  if m.mode = .queue then (m, error e.device e.id "mailbox.unsupported-class")
  else
    match m.archived.lookup (e.refGroup, e.refSeq) with
    | some c => (m, [.accepted e.device e.id (some c) true])
    | none =>
      if m.overQuota e.size then (m, error e.device e.id "mailbox.quota-exceeded")
      else
        let (m, c, out) := m.store
          { cursor := "", n := 0, cls := .archive, group := e.refGroup,
            depositor := some e.device, size := e.size }
        ({ m with archived := m.archived.insert (e.refGroup, e.refSeq) c },
          .accepted e.device e.id (some c) false :: out)

/-! ## KeyPackages -/

def kpUpload (m : Mailbox) (e : KpUpload) : Mailbox × List Emit :=
  if e.device ∉ m.devices then (m, error e.device e.id "policy.blocked")
  else
    let k := (m.kp.lookup e.device).getD {}
    let k := { k with
      oneTime := min (k.oneTime + e.count) keyPackagesPerDevice
      lastResort := k.lastResort || e.lastResort }
    ({ m with kp := m.kp.insert e.device k }, [.accepted e.device e.id none false])

/-- One device's turn of a fetch: single use, then last resort. -/
def serve (st : Dict String KeyPackages × Dict String Served) (device : String) :
    Dict String KeyPackages × Dict String Served :=
  match st.1.lookup device with
  | none => st
  | some k =>
    if 0 < k.oneTime then
      (st.1.insert device { k with oneTime := k.oneTime - 1 }, st.2.insert device .oneTime)
    else if k.lastResort then (st.1, st.2.insert device .lastResort)
    else st

def kpFetch (m : Mailbox) (e : KpFetch) : Mailbox × List Emit :=
  if e.target ∉ m.serves then (m, error e.sender e.id "transport.unknown-recipient")
  else if !(m.admits = .anyone || e.senderIdentity = e.target ||
      e.successorOf.any (· ∈ m.groups) ||
      m.grantOk e.grant (some e.senderIdentity) e.target) then
    (m, error e.sender e.id "policy.first-contact-required")
  else
    let (kp, served) := m.devices.foldl serve (m.kp, ∅)
    if served = ∅ then (m, error e.sender e.id "mailbox.no-key-packages")
    else ({ m with kp := kp }, [.keyPackages e.sender e.id served])

/-! ## The machine -/

/-- `_restart`: what is written to disk is read back as it was; the live
bindings are lost with the connections. -/
def restart (m : Mailbox) : Mailbox := { m with bound := ∅ }

def step (m : Mailbox) : Event → Except Fault (Mailbox × List Emit)
  | .firstContact e => m.firstContact e
  | .advance n => .ok (m.advance n, [])
  | .welcome e => .ok (m.welcome e)
  | .hubDeposit e => .ok (m.hubDeposit e)
  | .forwardFailed device id => .ok (m, error device id "mailbox.hub-unreachable")
  | .forward e => .ok (m, m.forward e)
  | .sync e => m.sync e
  | .unbind device => .ok (m.unbind device, [])
  | .config e => .ok (m.config e)
  | .archive e => .ok (m.archive e)
  | .kpUpload e => .ok (m.kpUpload e)
  | .kpFetch e => .ok (m.kpFetch e)
  | .restart => .ok (m.restart, [])

def machine (ctx : Context) : TSys Mailbox Event (List Emit) := TSys.ofStep (· = init ctx) step

end Mailbox

end Dsip.Messaging
