import Dsip.Messaging.MailboxItems

/-!
# The TypeScript mailbox

The second implementation of the mailbox. It keeps the last cursor each device
acknowledged and compares cursors as texts; it remembers the seqs it stored of
each group, and whether it gave up waiting for the previous hub.

Events and emissions are those of `Dsip.Messaging.Mailbox`; a sync may leave its
limit out. The limits a context may leave out are given. Identities are ASCII,
so that the string orders of the two languages are one.
-/

namespace Dsip.Messaging.Ts

open Dsip.Lib
open Dsip.Messaging.Mailbox (Context FirstContact Origin Welcome HubDeposit Forward Sync GroupConfig
  Config Archive KpUpload KpFetch Event Emit Fault Served)

/-- The hub a group moved away from. -/
structure Previous where
  hub : String
  handoverSeq : Option Nat
  since : Nat
  released : Bool := false
  deriving DecidableEq, Repr

structure Registration where
  hub : String
  state : RegState
  since : Nat
  count : Nat := 0
  high : Nat := 0
  /-- The seqs stored. The cursors it has beside them are not read. -/
  seen : Finset Nat := ∅
  previous : Option Previous := none
  deriving DecidableEq

structure Item where
  cursor : String
  cls : HeldClass
  group : Option String := none
  seq : Option Nat := none
  expiresAt : Option Nat := none
  digest : Option String := none
  size : Nat := 0
  deriving DecidableEq, Repr

/-- An introduction or an unsolicited grant, and when it came. -/
structure IntroTime where
  sender : String
  recipient : String
  time : Nat
  deriving DecidableEq, Repr

structure Mailbox where
  ctx : Context
  now : Nat
  mode : MailboxMode
  counter : Nat
  items : List Item
  groups : Dict String Registration
  keyPackages : Dict String KeyPackages
  devices : List String
  live : Finset String
  acks : Dict String String
  archive : Dict String String
  revokedGrants : Finset String
  introductionsSent : Finset String
  introTimes : List IntroTime

/-- An event as it arrives: `bare` is a sync without a limit. -/
inductive Arrival where
  | event (e : Event)
  | bare (e : Sync)
  deriving DecidableEq, Repr

namespace Mailbox

/-- `constructor`. -/
def new (ctx : Context) : Mailbox where
  ctx := ctx
  now := ctx.now
  mode := ctx.mode
  counter := 0
  items := []
  groups := Dict.map (fun r => { hub := r.1, state := r.2, since := ctx.now }) ctx.groups
  keyPackages := ctx.kp
  devices := ctx.devices
  live := ∅
  acks := ∅
  archive := ∅
  revokedGrants := ∅
  introductionsSent := ∅
  introTimes := []

/-! ## Helpers -/

def error (dest id reason : String) : List Emit := [.error dest id reason none]

def accepted (dest id : String) (cursor : Option String := none) (duplicate : Bool := false) : List Emit :=
  [.accepted dest id cursor duplicate]

def store (m : Mailbox) (item : Item) : Mailbox × String :=
  let c := cursor (m.counter + 1)
  ({ m with counter := m.counter + 1, items := m.items ++ [{ item with cursor := c }] }, c)

def usedBytes (m : Mailbox) : Nat := (m.items.map (·.size)).sum

def overQuota (m : Mailbox) (size : Nat) : Bool := m.ctx.quota.any fun quota => quota < m.usedBytes + size

/-- The bound devices, in order. -/
def bound (m : Mailbox) : List String := (m.devices.insertionSort (· ≤ ·)).filter (· ∈ m.live)

def push (m : Mailbox) (c : String) (except : Option String := none) : List Emit :=
  (m.bound.filter fun device => except ≠ some device).map (.push · c)

/-! ## Time -/

/-- One group of `advance`. -/
def dropLapsed (m : Mailbox) (g : String) : Mailbox :=
  match m.groups.lookup g with
  | none => m
  | some r =>
    if r.state = .pending ∧ r.since + m.ctx.pendingTtl < m.now then
      { m with
        groups := m.groups.erase g
        items := m.items.filter fun i => i.group ≠ some g ∨ i.cls = .archive }
    else m

def advance (m : Mailbox) (n : Nat) : Mailbox :=
  let m := { m with
    now := m.now + n
    items := m.items.filter fun i => i.expiresAt.all (m.now + n < ·) }
  m.groups.keys.foldl dropLapsed m

/-! ## A hub's items -/

/-- `missing`: what the old hub still owes. -/
def missing (r : Registration) (handover : Option Nat) : List Nat :=
  match handover with
  | none => []
  | some h => List.range' (r.high + 1) (h - r.high)

def unknownGroup (e : HubDeposit) : List Emit := error e.sender e.id "mailbox.unknown-group"

/-- The item of the group with this seq, while it is retained. -/
def retained (m : Mailbox) (group : String) (seq : Nat) : Option String :=
  (m.items.find? fun i => i.group = some group ∧ i.seq = some seq ∧ i.cls ≠ .archive).map (·.cursor)

/-- The seq is recorded with the item. -/
def Registration.record (r : Registration) (seq : Option Nat) : Registration :=
  match seq with
  | none => { r with count := r.count + 1 }
  | some s => { r with count := r.count + 1, seen := insert s r.seen, high := max r.high s }

/-- A redelivery: seen, or not above the highest unless late. -/
def Registration.isKnown (r : Registration) (sender : String) (s : Nat) : Bool :=
  decide (s ∈ r.seen) ||
    (decide (s ≤ r.high) && !(r.previous.any fun p => p.released ∧ sender = p.hub))

/-- `hubDeposit` from the admission on. -/
def deliver (m : Mailbox) (e : HubDeposit) (r : Registration) (out : List Emit) : Mailbox × List Emit :=
  if e.cls = .ephemeral then
    if e.expiresAt.any (· ≤ m.now) then (m, out)
    else (m, out ++ m.bound.map .pushEphemeral)
  else
    match e.seq.filter (Registration.isKnown r e.sender) with
    | some s => (m, out ++ accepted e.sender e.id (m.retained e.group s) true)
    | none =>
      if r.state = .pending ∧ m.ctx.pendingMax ≤ r.count then
        (m, out ++ error e.sender e.id "mailbox.quota-exceeded")
      else if m.overQuota e.size then
        (m, out ++ error e.sender e.id "mailbox.quota-exceeded")
      else
        let items := if e.cls = .groupInfo then
            m.items.filter fun i => ¬ (i.cls = .groupInfo ∧ i.group = some e.group)
          else m.items
        let (m, c) := { m with items := items }.store
          { cursor := "", cls := e.cls, group := some e.group, seq := e.seq, size := e.size }
        let m := { m with groups := m.groups.insert e.group (Registration.record r e.seq) }
        (m, out ++ accepted e.sender e.id (some c) ++ m.push c)

/-- A deposit of the current hub, after the group moved. -/
def fromMoved (m : Mailbox) (e : HubDeposit) (r : Registration) (prev : Previous)
    (out : List Emit) : Mailbox × List Emit :=
  if e.seq.any fun s => prev.handoverSeq.any (s ≤ ·) then
    (m, out ++ error e.sender e.id "policy.blocked")
  else m.deliver e r out

def Registration.release (r : Registration) (prev : Previous) : Registration :=
  { r with previous := some { prev with released := true } }

/-- The old hub is admitted through the handover. -/
def Previous.admitted (prev : Previous) (e : HubDeposit) : Bool :=
  e.sender = prev.hub && e.seq.any fun s => prev.handoverSeq.all (s ≤ ·)

def hubDeposit (m : Mailbox) (e : HubDeposit) : Mailbox × List Emit :=
  match m.groups.lookup e.group with
  | none => (m, unknownGroup e)
  | some r =>
    if e.sender ≠ r.hub then
      if r.previous.any (Previous.admitted · e) then m.deliver e r []
      else (m, unknownGroup e)
    else
      match r.previous with
      | none => m.deliver e r []
      | some prev =>
        if !prev.released && missing r prev.handoverSeq ≠ [] then
          if m.now < prev.since + m.ctx.handoverWait then (m, unknownGroup e)
          else
            let r' := Registration.release r prev
            fromMoved { m with groups := m.groups.insert e.group r' } e r' prev
              [.handoverExpired e.group prev.hub (missing r prev.handoverSeq)]
        else m.fromMoved e r prev []

/-! ## Welcomes -/

def authorized (m : Mailbox) (requester : Option String) (grant : Option Grant)
    (successorOf : Option String) : Bool :=
  m.ctx.admits = .anyone || requester = some m.ctx.owner || successorOf.any (· ∈ m.groups) ||
    grant.any fun g =>
      g.grantor = some m.ctx.owner && g.grantee = requester &&
        g.scope.any (· ∈ messageGrantScopes) && m.now < g.validUntil &&
        g.id.all (· ∉ m.revokedGrants)

/-- The identity a welcome was sent by. -/
def adder (m : Mailbox) (e : Welcome) : Except String (Option String) :=
  if e.viaHub then
    match e.origin with
    | none => .error "policy.blocked"
    | some o =>
      if o.group = e.group ∧ o.issuedAt ≤ e.issuedAt + originSkewS ∧
          e.issuedAt ≤ o.issuedAt + m.ctx.pendingTtl then
        .ok (some o.identity)
      else .error "policy.blocked"
  else .ok e.adderIdentity

/-- The welcome of the same bytes still held for the group. -/
def known (m : Mailbox) (e : Welcome) : Option Item :=
  if e.digest.isSome then
    m.items.find? fun i => i.cls = .welcome ∧ i.group = some e.group ∧ i.digest = e.digest
  else none

def welcome (m : Mailbox) (e : Welcome) : Mailbox × List Emit :=
  if e.recipient ∉ m.ctx.serves then (m, error e.sender e.id "transport.unknown-recipient")
  else
    match m.adder e with
    | .error reason => (m, error e.sender e.id reason)
    | .ok adder =>
      if !m.authorized adder e.grant e.successorOf then
        (m, error e.sender e.id "policy.first-contact-required")
      else
        match m.known e with
        | some i => (m, accepted e.sender e.id (some i.cursor) true)
        | none =>
          if m.overQuota e.size then (m, error e.sender e.id "mailbox.quota-exceeded")
          else
            let (m, c) := m.store
              { cursor := "", cls := .welcome, group := some e.group, digest := e.digest, size := e.size }
            let m := if e.group ∈ m.groups then m
              else { m with groups :=
                m.groups.insert e.group { hub := e.hub, state := .pending, since := m.now } }
            (m, accepted e.sender e.id (some c) ++ m.push c)

/-! ## First contact -/

/-- A grant that answers an introduction the owner sent. -/
def Solicited (m : Mailbox) (e : FirstContact) : Prop :=
  e.kind = .grant ∧ ∃ s ∈ m.introductionsSent, e.session = some s

instance (m : Mailbox) (e : FirstContact) : Decidable (m.Solicited e) := inferInstanceAs (Decidable (_ ∧ _))

/-- The deposits still counted. -/
def recent (m : Mailbox) : List IntroTime := m.introTimes.filter fun t => m.now < t.time + m.ctx.introWindow

/-- `over`: what the deposit is counted with, where that is at the limit. -/
def overLimit (m : Mailbox) (e : FirstContact) : Option (List IntroTime) :=
  let bySender := m.recent.filter (·.sender = e.senderIdentity)
  let byInbox := m.recent.filter (·.recipient = e.recipient)
  if m.ctx.introLimit ≤ bySender.length then some bySender
  else if m.ctx.introLimit ≤ byInbox.length then some byInbox
  else none

/-- `firstContact` once it is paid for. -/
def hold (m : Mailbox) (e : FirstContact) : Mailbox × List Emit :=
  if e.recipient ∉ m.ctx.serves ∨ (e.kind = .introduction ∧
      m.ctx.inboxCap ≤ (m.items.filter fun i => i.cls = .introduction).length) then
    (m, accepted e.sender e.id)
  else
    let (m, c) := m.store { cursor := "", cls := e.kind.cls, expiresAt := some e.expiresAt }
    (m, accepted e.sender e.id (some c) ++ m.push c)

def firstContact (m : Mailbox) (e : FirstContact) : Except Fault (Mailbox × List Emit) :=
  if m.Solicited e then
    .ok (hold { m with introductionsSent := m.introductionsSent.erase (e.session.getD "") } e)
  else
    match m.overLimit e with
    | some [] => .error .emptyLog
    | some (oldest :: _) =>
      .ok (m, [.error e.sender e.id "policy.rate-limited"
        (some (oldest.time + m.ctx.introWindow - m.now))])
    | none =>
      .ok (hold { m with introTimes := m.introTimes ++ [⟨e.senderIdentity, e.recipient, m.now⟩] } e)

/-! ## The owner's devices -/

def isLowerHex (c : Char) : Bool := ('0' ≤ c && c ≤ '9') || ('a' ≤ c && c ≤ 'f')

/-- `parseInt` of hexadecimal digits. -/
def parseHex (digits : List Char) : Nat := digits.foldl (fun n c => n * 16 + (PyInt.hexDigit c).getD 0) 0

/-- `known`, of a cursor: it was given out. -/
def knownCursor (m : Mailbox) (c : String) : Bool :=
  match c.toList with
  | 'c' :: ':' :: digits =>
    decide (digits.length = 16) && digits.all isLowerHex && decide (1 ≤ parseHex digits) &&
      decide (parseHex digits ≤ m.counter)
  | _ => false

/-- The acknowledgement of a sync: the last one counts. In queue mode an item
goes once every registered device has acknowledged it. -/
def acknowledge (m : Mailbox) (device : String) : Option String → Mailbox
  | none => m
  | some c =>
    let acks := m.acks.insert device c
    if m.mode = .queue then
      { m with
        acks := acks
        items := m.items.filter fun i =>
          ¬ ∀ d ∈ m.devices, i.cursor ≤ (acks.lookup d).getD "" }
    else { m with acks := acks }

/-- The page a sync is answered with. -/
def page (m : Mailbox) (e : Sync) (limit : Option Nat) : Except Fault (List Emit) :=
  let after := m.items.filter fun i => e.since.all (· < i.cursor)
  let taken := after.take (limit.getD after.length)
  if taken.length < after.length then
    match taken.getLast? with
    | none => .error .emptyPage
    | some last => .ok [.items e.device e.id (taken.map (·.cursor)) (some last.cursor)]
  else .ok [.items e.device e.id (taken.map (·.cursor)) none]

def sync (m : Mailbox) (e : Sync) (limit : Option Nat) : Except Fault (Mailbox × List Emit) :=
  if e.since.any fun c => !m.knownCursor c then
    .ok (m, error e.device e.id "mailbox.cursor-invalid")
  else
    let m := m.acknowledge e.device e.ackThrough
    let m := if e.live then { m with live := insert e.device m.live } else m
    (m.page e limit).map fun out => (m, out)

/-- The owner's device names the new hub. -/
def Registration.rehome (r : Registration) (now : Nat) (g : GroupConfig) : Registration :=
  match g.hub with
  | none => r
  | some hub =>
    if hub = r.hub then r
    else { r with
      previous := some { hub := r.hub, handoverSeq := g.handoverSeq, since := now }
      hub := hub }

/-- One group entry of a config. -/
def configGroup (now : Nat) (groups : Dict String Registration) (g : GroupConfig) :
    Dict String Registration :=
  if g.left then groups.erase g.group
  else
    match groups.lookup g.group with
    | some r => groups.insert g.group (Registration.rehome { r with state := .joined } now g)
    | none =>
      match g.hub with
      | none => groups
      | some hub => groups.insert g.group { hub, state := .joined, since := now }

/-- spec-gap 57: a revoked device is forgotten and its binding closed. -/
def revokeDevice (m : Mailbox) (device : String) : Mailbox × List Emit :=
  ({ m with
      devices := m.devices.filter (· ≠ device)
      keyPackages := m.keyPackages.erase device
      acks := m.acks.erase device
      live := m.live.erase device },
    [.close device "delegation-revoked"])

/-- The part of `config` after the mode is checked. -/
def applyConfig (m : Mailbox) (e : Config) (mode : MailboxMode) : Mailbox × List Emit :=
  let m := { m with
    mode := mode
    groups := e.groups.foldl (configGroup m.now) m.groups
    revokedGrants := m.revokedGrants ∪ e.revokedGrants.toFinset
    introductionsSent := m.introductionsSent ∪ e.introductionsSent.toFinset }
  let (m, closes) := foldEmit revokeDevice m e.revokedDevices
  (m, accepted e.device e.id ++ closes)

def config (m : Mailbox) (e : Config) : Mailbox × List Emit :=
  match e.mode with
  | none => m.applyConfig e m.mode
  | some text =>
    match MailboxMode.parse text with
    | none => (m, error e.device e.id "mailbox.unsupported-mode")
    | some mode => m.applyConfig e mode

/-- The key of an archive record. -/
def archiveKey (e : Archive) : String := e.refGroup ++ "/" ++ toString e.refSeq

def archiveDeposit (m : Mailbox) (e : Archive) : Mailbox × List Emit :=
  if m.mode ≠ .sync then (m, error e.device e.id "mailbox.unsupported-class")
  else
    match m.archive.lookup (archiveKey e) with
    | some c => (m, accepted e.device e.id (some c) true)
    | none =>
      if m.overQuota e.size then (m, error e.device e.id "mailbox.quota-exceeded")
      else
        let (m, c) := m.store
          { cursor := "", cls := .archive, group := some e.refGroup, seq := some e.refSeq, size := e.size }
        let m := { m with archive := m.archive.insert (archiveKey e) c }
        (m, accepted e.device e.id (some c) ++ m.push c (some e.device))

/-! ## KeyPackages -/

def kpUpload (m : Mailbox) (e : KpUpload) : Mailbox × List Emit :=
  let held := (m.keyPackages.lookup e.device).getD {}
  let held := { held with
    oneTime := min (held.oneTime + e.count) keyPackagesPerDevice
    lastResort := held.lastResort || e.lastResort }
  ({ m with keyPackages := m.keyPackages.insert e.device held }, accepted e.device e.id)

/-- One device's turn of a fetch. -/
def serve (st : Dict String KeyPackages × Dict String Served) (device : String) :
    Dict String KeyPackages × Dict String Served :=
  match st.1.lookup device with
  | none => st
  | some held =>
    if 0 < held.oneTime then
      (st.1.insert device { held with oneTime := held.oneTime - 1 }, st.2.insert device .oneTime)
    else if held.lastResort then (st.1, st.2.insert device .lastResort)
    else st

def kpFetch (m : Mailbox) (e : KpFetch) : Mailbox × List Emit :=
  if !m.authorized (some e.senderIdentity) e.grant e.successorOf then
    (m, error e.sender e.id "policy.first-contact-required")
  else
    let (keyPackages, devices) := m.keyPackages.keys.foldl serve (m.keyPackages, ∅)
    let m := { m with keyPackages := keyPackages }
    if devices = ∅ then (m, error e.sender e.id "mailbox.no-key-packages")
    else (m, [.keyPackages e.sender e.id devices])

def forward (m : Mailbox) (e : Forward) : List Emit :=
  if e.identity ≠ m.ctx.owner then error e.device e.id "policy.blocked"
  else
    match m.groups.lookup e.group with
    | none => error e.device e.id "mailbox.unknown-group"
    | some r =>
      if r.hub ≠ e.dest then error e.device e.id "mailbox.unknown-group"
      else [.forward r.hub e.id]

/-! ## The machine -/

def stepEvent (m : Mailbox) : Event → Except Fault (Mailbox × List Emit)
  | .advance n => .ok (m.advance n, [])
  | .restart => .ok ({ m with live := ∅ }, [])
  | .unbind device => .ok ({ m with live := m.live.erase device }, [])
  | .hubDeposit e => .ok (m.hubDeposit e)
  | .welcome e => .ok (m.welcome e)
  | .firstContact e => m.firstContact e
  | .sync e => m.sync e (some e.limit)
  | .config e => .ok (m.config e)
  | .archive e => .ok (m.archiveDeposit e)
  | .kpUpload e => .ok (m.kpUpload e)
  | .kpFetch e => .ok (m.kpFetch e)
  | .forward e => .ok (m, m.forward e)
  | .forwardFailed device id => .ok (m, error device id "mailbox.hub-unreachable")

def step (m : Mailbox) : Arrival → Except Fault (Mailbox × List Emit)
  | .event e => m.stepEvent e
  | .bare e => m.sync e none

def machine (ctx : Context) : TSys Mailbox Arrival (List Emit) := TSys.ofStep (· = new ctx) step

end Mailbox

end Dsip.Messaging.Ts
