import Dsip.Lib.Dict
import Dsip.Lib.FoldEmit
import Dsip.Lib.TSys

/-!
# The hub of a messaging group

One hub orders a group's traffic: it gives every accepted `handshake` and
`application` deposit the next `seq`, answers a re-deposit of the same bytes
with the `seq` they have, applies the commits to its view of the roster, and
fans every item out to the members' mailboxes, one unacknowledged item per
mailbox at a time. The group can move to another hub and come back.

The definitions follow the source function by function. `deposit_outcome` says
once everything a deposit can do; what is proved about runs is proved from it.
-/

namespace Dsip.Messaging

open Dsip.Lib

/-- M§4.4 RECOMMENDED: 30 days. -/
def mlsRetentionS : Nat := 2592000

inductive DepositClass where
  | handshake
  | application
  | ephemeral
  | groupInfo
  | welcome
  | other (name : String)
  deriving DecidableEq, Repr

/-- The classes a hub sequences. -/
def DepositClass.Sequenced (cls : DepositClass) : Prop := cls = .handshake ∨ cls = .application

instance : DecidablePred DepositClass.Sequenced :=
  fun _ => inferInstanceAs (Decidable (_ ∨ _))

structure Leaf where
  identity : String
  device : String
  deriving DecidableEq, Repr

structure Removal where
  identity : String
  device : String
  delegationValid : Bool := true
  deriving DecidableEq, Repr

structure Commit where
  external : Bool := false
  valid : Bool := true
  adds : List Leaf := []
  removes : List Removal := []
  movesTo : Option String := none
  deriving DecidableEq, Repr

/-- A roster: the devices of every member identity. -/
abbrev Roster := Dict String (Finset String)

/-- The epoch and roster of the GroupInfo a returning group brings. -/
structure View where
  epoch : Nat
  roster : Roster
  deriving DecidableEq

/-- A `commit` that is absent or empty is `none`. -/
structure Deposit where
  cls : DepositClass
  identity : String
  device : String
  id : String
  digest : String := ""
  epoch : Nat := 0
  commit : Option Commit := none
  expiresAt : Nat := 0
  handoverSeq : Option Nat := none
  view : Option View := none
  deriving DecidableEq

/-! ## The rules a member checks on a commit too -/

/-- The devices an identity has in a list of leaves. -/
def devicesOf (leaves : List Leaf) (who : String) : List String :=
  (leaves.filter (·.identity = who)).map (·.device)

/-- What a commit may take from another identity: all its leaves, or leaves
whose delegation no longer verifies. -/
def removalAllowed (roster : List Leaf) (removes : List Removal) (who : String) : Bool :=
  let rs := removes.filter (·.identity = who)
  (devicesOf roster who).all (fun device => device ∈ rs.map (·.device)) ||
    rs.all (fun r => !r.delegationValid)

/-- `check_roster_change`: `none` accepts. -/
def checkRosterChange (committer : String) (roster adds : List Leaf) (removes : List Removal) :
    Option String :=
  if adds.any fun a => a.identity ∈ roster.map (·.identity) ∧ a.identity ≠ committer then
    some "roster-adds-other-devices"
  else if removes.all fun r => r.identity = committer ∨ removalAllowed roster removes r.identity then
    none
  else some "roster-removes-part-of-identity"

/-- `check_external_join`: `none` accepts. -/
def checkExternalJoin (kind : String) (owner : Option String) (roster : List String)
    (joiner : Leaf) (adds : List Leaf) (removes : List Removal) : Option String :=
  if adds ≠ [joiner] then some "external-join-adds"
  else if ¬ (joiner.identity ∈ roster ∨ (kind = "personal" ∧ owner = some joiner.identity)) then
    some "external-join-not-member"
  else if removes.any (·.identity ≠ joiner.identity) then some "external-join-removes-other"
  else none

/-! ## The state -/

structure Hub where
  now : Nat
  kind : String
  owner : Option String
  epoch : Nat
  nextSeq : Nat
  roster : Roster
  digests : Dict String Nat
  seqClass : Dict Nat DepositClass
  pending : Dict String (List Nat)
  groupInfo : Bool
  movedTo : Option String
  welcomes : Dict String (List Nat)
  /-- Identities a commit brought in whose welcome is not acknowledged. -/
  unregistered : Finset String
  retention : Nat
  /-- When an identity's queues last went from empty to not, or saw a head
  acknowledged. -/
  waiting : Dict String Nat
  deriving DecidableEq

namespace Hub

structure Context where
  now : Nat := 0
  kind : String := "direct"
  owner : Option String := none
  epoch : Nat := 0
  nextSeq : Nat := 1
  roster : Roster := ∅
  retention : Nat := mlsRetentionS

inductive Event where
  | advance (n : Nat)
  | ack (identity : String) (seq : Nat) (cls : Option DepositClass)
  | restart
  | deposit (d : Deposit)
  deriving DecidableEq

inductive Emit where
  | accepted (device inReplyTo : String) (seq : Option Nat) (duplicate : Bool)
  | error (device inReplyTo reason : String)
  | fanout (identity : String) (seq : Option Nat) (cls : DepositClass)
  | forward (identity : String) (cls : DepositClass)
  | dropped (identity : String) (pending welcomes : List Nat)
  deriving DecidableEq, Repr

def init (ctx : Context) : Hub where
  now := ctx.now
  kind := ctx.kind
  owner := ctx.owner
  epoch := ctx.epoch
  nextSeq := ctx.nextSeq
  roster := ctx.roster
  digests := ∅
  seqClass := ∅
  pending := ∅
  groupInfo := false
  movedTo := none
  welcomes := ∅
  unregistered := ∅
  retention := ctx.retention
  waiting := ∅

/-- An identity's queue, empty when there is none. -/
def queueOf (queues : Dict String (List Nat)) (i : String) : List Nat := (queues.lookup i).getD []

abbrev pendingOf (h : Hub) (i : String) : List Nat := queueOf h.pending i
abbrev welcomesOf (h : Hub) (i : String) : List Nat := queueOf h.welcomes i

/-- The class a seq was given with. Every queued seq has one. -/
def classOf (h : Hub) (seq : Nat) : DepositClass := (h.seqClass.lookup seq).getD (.other "")

/-- One turn of the loops that queue a seq: the identity's clock starts if it
stands, and the seq goes out at once when it is alone and nothing holds it. -/
def push (now seq : Nat) (cls : DepositClass) (clear : String → Bool)
    (st : Dict String Nat × Dict String (List Nat)) (i : String) :
    (Dict String Nat × Dict String (List Nat)) × List Emit :=
  let q := queueOf st.2 i ++ [seq]
  ((if i ∈ st.1 then st.1 else st.1.insert i now, st.2.insert i q),
    if q.length = 1 ∧ clear i then [.fanout i (some seq) cls] else [])

/-- `_sequence`: number the deposit and queue it for the targets. -/
def sequence (h : Hub) (d : Deposit) (targets : List String) : Hub × List Emit :=
  let queued := foldEmit (push h.now h.nextSeq d.cls (· ∉ h.unregistered))
    (h.waiting, h.pending) targets
  ({ h with
      nextSeq := h.nextSeq + 1
      digests := h.digests.insert d.digest h.nextSeq
      seqClass := h.seqClass.insert h.nextSeq d.cls
      waiting := queued.1.1
      pending := queued.1.2 },
    .accepted d.device d.id (some h.nextSeq) false :: queued.2)

def removeLeaf (roster : Roster) (r : Removal) : Roster :=
  match roster.lookup r.identity with
  | none => roster
  | some devs =>
    if devs.erase r.device = ∅ then roster.erase r.identity
    else roster.insert r.identity (devs.erase r.device)

def addLeaf (roster : Roster) (a : Leaf) : Roster :=
  roster.insert a.identity (insert a.device ((roster.lookup a.identity).getD ∅))

/-- The identities that gain a device the roster does not have. -/
def gained (before : Roster) (adds : List Leaf) : Finset String :=
  ((adds.filter fun a => a.device ∉ (before.lookup a.identity).getD ∅).map (·.identity)).toFinset

/-- Queue the welcome of a commit for every identity that gained a device. -/
def welcome (h : Hub) (seq : Nat) (targets : List String) : Hub × List Emit :=
  let queued := foldEmit (push h.now seq .welcome fun _ => true) (h.waiting, h.welcomes) targets
  ({ h with waiting := queued.1.1, welcomes := queued.1.2 }, queued.2)

/-- An accepted commit: it is sequenced, the roster and the epoch change, and
the identities that gained a device are sent the welcome, under the seq the
commit was just given. -/
def applyCommit (h : Hub) (d : Deposit) (c : Commit) : Hub × List Emit :=
  let (h₁, out) := h.sequence d h.roster.sortedKeys
  let h₂ := { h₁ with
    roster := c.adds.foldl addLeaf (c.removes.foldl removeLeaf h.roster)
    epoch := h.epoch + 1
    movedTo := (c.movesTo.filter (· ≠ "")).or h.movedTo }
  if c.external then (h₂, out)
  else
    let targets := gained h.roster c.adds
    let h₃ := { h₂ with
      unregistered := h.unregistered ∪ targets.filter (· ∉ h.roster) }
    let (h₄, out') := h₃.welcome h.nextSeq (sorted targets)
    (h₄, out ++ out')

/-- `_error`. -/
def refuse (d : Deposit) (reason : String) : List Emit := [.error d.device d.id reason]

/-- What the accepted GroupInfo of a group is answered with. -/
def groupInfoOut (d : Deposit) (roster : Roster) : List Emit :=
  .accepted d.device d.id none false :: roster.sortedKeys.map (.fanout · none .groupInfo)

/-- `_returned`: the group comes back to this hub, which it left. -/
def returned (h : Hub) (d : Deposit) (handoverSeq : Nat) : Hub × List Emit :=
  match d.view with
  | none => (h, refuse d "policy.blocked")
  | some view =>
    if d.identity ∉ view.roster then (h, refuse d "policy.blocked")
    else if handoverSeq < h.nextSeq then (h, refuse d "policy.blocked")
    else
      ({ h with
          movedTo := none
          epoch := view.epoch
          roster := view.roster
          nextSeq := handoverSeq + 1
          groupInfo := true },
        groupInfoOut d view.roster)

/-- The roster as the leaves `check_roster_change` reads. -/
def leaves (roster : Roster) : List Leaf :=
  roster.sortedKeys.flatMap fun i =>
    (sorted ((roster.lookup i).getD ∅)).map fun device => ⟨i, device⟩

/-- `_deposit` for a handshake made for the current epoch. -/
def handshake (h : Hub) (d : Deposit) : Hub × List Emit :=
  match d.commit with
  | none => h.sequence d h.roster.sortedKeys
  | some c =>
    if !c.valid then (h, refuse d "policy.blocked")
    else if (checkRosterChange d.identity (leaves h.roster) c.adds c.removes).isSome then
      (h, refuse d "policy.blocked")
    else h.applyCommit d c

/-- The epochs an application message may be made for. -/
def RecentEpoch (h : Hub) (epoch : Nat) : Prop := epoch = h.epoch ∨ epoch + 1 = h.epoch

instance (h : Hub) (epoch : Nat) : Decidable (h.RecentEpoch epoch) := inferInstanceAs (Decidable (_ ∨ _))

/-- Who may deposit a sequenced item: a member, or the joiner of an external
commit. -/
def mayDeposit (h : Hub) (d : Deposit) : Bool :=
  match d.commit with
  | some c =>
    if c.external then
      (checkExternalJoin h.kind h.owner h.roster.sortedKeys ⟨d.identity, d.device⟩ c.adds
        c.removes).isNone
    else d.identity ∈ h.roster
  | none => d.identity ∈ h.roster

/-- `_deposit` for the sequenced classes. -/
def depositSequenced (h : Hub) (d : Deposit) : Hub × List Emit :=
  match h.digests.lookup d.digest with
  | some seq => (h, [.accepted d.device d.id (some seq) true])
  | none =>
    if !h.mayDeposit d then (h, refuse d "policy.blocked")
    else if d.cls = .application then
      if h.RecentEpoch d.epoch then h.sequence d h.roster.sortedKeys
      else (h, refuse d "mailbox.stale-epoch")
    else if d.epoch ≠ h.epoch then
      (h, refuse d (if d.commit.isSome ∧ d.epoch + 1 = h.epoch then "mailbox.commit-conflict"
        else "mailbox.stale-epoch"))
    else h.handshake d

/-- `_deposit` while the group is here. -/
def depositHere (h : Hub) (d : Deposit) : Hub × List Emit :=
  match d.cls with
  | .groupInfo =>
    if d.identity ∉ h.roster then (h, refuse d "policy.blocked")
    else ({ h with groupInfo := true }, groupInfoOut d h.roster)
  | .ephemeral =>
    if d.expiresAt ≤ h.now then (h, [])
    else if d.identity ∉ h.roster then (h, refuse d "policy.blocked")
    else (h, (h.roster.sortedKeys.filter (· ≠ d.identity)).map (.forward · .ephemeral))
  | .handshake | .application => h.depositSequenced d
  | .welcome | .other _ => (h, refuse d "mailbox.unsupported-class")

/-- `_deposit`: a group that moved away takes nothing but its own return. -/
def deposit (h : Hub) (d : Deposit) : Hub × List Emit :=
  match h.movedTo with
  | none => h.depositHere d
  | some _ =>
    match d.cls, d.handoverSeq with
    | .groupInfo, some handoverSeq => h.returned d handoverSeq
    | _, _ => (h, refuse d "mailbox.unknown-group")

/-- The queue an ack is for: the identity's welcomes, or its items. -/
def ackedQueues (h : Hub) (cls : Option DepositClass) : Dict String (List Nat) :=
  if cls = some .welcome then h.welcomes else h.pending

/-- Progress restarts the identity's clock, and nothing left queued stops it. -/
def restartClock (h : Hub) (i : String) : Hub :=
  { h with waiting :=
      if h.pendingOf i ≠ [] ∨ h.welcomesOf i ≠ [] then h.waiting.insert i h.now
      else h.waiting.erase i }

/-- The head of the queue leaves it. -/
def popHead (h : Hub) (i : String) (cls : Option DepositClass) (rest : List Nat) : Hub :=
  restartClock (if cls = some .welcome then { h with welcomes := h.welcomes.insert i rest }
    else { h with pending := h.pending.insert i rest }) i

def ack (h : Hub) (i : String) (seq : Nat) (cls : Option DepositClass) : Hub × List Emit :=
  match queueOf (h.ackedQueues cls) i with
  | [] => (h, [])
  | head :: rest =>
    if head ≠ seq then (h, [])
    else
      let h := h.popHead i cls rest
      match rest with
      | next :: _ =>
        if cls = some .welcome ∨ i ∉ h.unregistered then
          (h, [.fanout i (some next) (cls.getD (h.classOf next))])
        else (h, [])
      | [] =>
        if cls = some .welcome ∧ i ∈ h.unregistered then
          -- the group is registered now: whatever waited behind the welcome goes
          let h := { h with unregistered := h.unregistered.erase i }
          match h.pendingOf i with
          | [] => (h, [])
          | waiting :: _ => (h, [.fanout i (some waiting) (h.classOf waiting)])
        else (h, [])

/-- The retention bound reached: everything queued for the identity goes, and
the hold on its queue with it. -/
def drop (h : Hub) (i : String) : Hub × List Emit :=
  ({ h with
      pending := h.pending.erase i
      welcomes := h.welcomes.erase i
      unregistered := h.unregistered.erase i
      waiting := h.waiting.erase i },
    [.dropped i (h.pendingOf i) (h.welcomesOf i)])

def advance (h : Hub) (n : Nat) : Hub × List Emit :=
  let h := { h with now := h.now + n }
  foldEmit drop h (h.waiting.sortedKeys.filter fun i =>
    (h.waiting.lookup i).any (· + h.retention ≤ h.now))

/-- What is written to disk: sets as sorted lists. -/
structure Saved where
  now : Nat
  kind : String
  owner : Option String
  epoch : Nat
  nextSeq : Nat
  roster : Dict String (List String)
  digests : Dict String Nat
  seqClass : Dict Nat DepositClass
  pending : Dict String (List Nat)
  groupInfo : Bool
  movedTo : Option String
  welcomes : Dict String (List Nat)
  unregistered : List String
  retention : Nat
  waiting : Dict String Nat

def save (h : Hub) : Saved where
  now := h.now
  kind := h.kind
  owner := h.owner
  epoch := h.epoch
  nextSeq := h.nextSeq
  roster := Dict.map sorted h.roster
  digests := h.digests
  seqClass := h.seqClass
  pending := h.pending
  groupInfo := h.groupInfo
  movedTo := h.movedTo
  welcomes := h.welcomes
  unregistered := sorted h.unregistered
  retention := h.retention
  waiting := h.waiting

def Saved.load (s : Saved) : Hub where
  now := s.now
  kind := s.kind
  owner := s.owner
  epoch := s.epoch
  nextSeq := s.nextSeq
  roster := Dict.map List.toFinset s.roster
  digests := s.digests
  seqClass := s.seqClass
  pending := s.pending
  groupInfo := s.groupInfo
  movedTo := s.movedTo
  welcomes := s.welcomes
  unregistered := s.unregistered.toFinset
  retention := s.retention
  waiting := s.waiting

/-- The heads of a set of queues that nothing holds, each as the fan-out of its
class. -/
def heads (queues : Dict String (List Nat)) (clear : String → Bool) (cls : Nat → DepositClass) : List Emit :=
  queues.sortedKeys.flatMap fun i =>
    match queueOf queues i with
    | [] => []
    | seq :: _ => if clear i then [.fanout i (some seq) (cls seq)] else []

/-- `restart`: the head of every unacknowledged queue is sent again. -/
def restart (h : Hub) : Hub × List Emit :=
  let h := h.save.load
  (h, heads h.pending (· ∉ h.unregistered) h.classOf ++ heads h.welcomes (fun _ => true)
    fun _ => .welcome)

def step (h : Hub) : Event → Hub × List Emit
  | .advance n => h.advance n
  | .ack i seq cls => h.ack i seq cls
  | .restart => h.restart
  | .deposit d => h.deposit d

def machine (ctx : Context) : TSys Hub Event (List Emit) := TSys.ofTotal (· = init ctx) step

@[simp] theorem load_save (h : Hub) : h.save.load = h := by
  have hr : Dict.map List.toFinset (Dict.map sorted h.roster) = h.roster :=
    Dict.map_map_cancel toFinset_sorted h.roster
  simp [save, Saved.load, hr]

/-! ## What a deposit can do -/

/-- Everything a deposit can do, with the guards it passed. -/
inductive Outcome (h : Hub) (d : Deposit) : Hub × List Emit → Prop
  | refused (reason : String) : Outcome h d (h, refuse d reason)
  | expired : h.movedTo = none → d.cls = .ephemeral → d.expiresAt ≤ h.now → Outcome h d (h, [])
  | relayed : h.movedTo = none → d.cls = .ephemeral → d.identity ∈ h.roster →
      Outcome h d (h, (h.roster.sortedKeys.filter (· ≠ d.identity)).map (.forward · .ephemeral))
  | published : h.movedTo = none → d.cls = .groupInfo → d.identity ∈ h.roster →
      Outcome h d ({ h with groupInfo := true }, groupInfoOut d h.roster)
  | duplicate (seq : Nat) : h.movedTo = none → d.cls.Sequenced →
      h.digests.lookup d.digest = some seq →
      Outcome h d (h, [.accepted d.device d.id (some seq) true])
  | sequenced : h.movedTo = none → d.cls.Sequenced → h.digests.lookup d.digest = none →
      h.mayDeposit d = true → h.RecentEpoch d.epoch →
      Outcome h d (h.sequence d h.roster.sortedKeys)
  | committed (c : Commit) : h.movedTo = none → d.cls = .handshake →
      h.digests.lookup d.digest = none → h.mayDeposit d = true → d.epoch = h.epoch →
      d.commit = some c → c.valid = true →
      checkRosterChange d.identity (leaves h.roster) c.adds c.removes = none →
      Outcome h d (h.applyCommit d c)
  | returned (view : View) (handoverSeq : Nat) : h.movedTo ≠ none → d.cls = .groupInfo →
      d.view = some view → d.handoverSeq = some handoverSeq → d.identity ∈ view.roster →
      h.nextSeq ≤ handoverSeq →
      Outcome h d
        ({ h with
            movedTo := none
            epoch := view.epoch
            roster := view.roster
            nextSeq := handoverSeq + 1
            groupInfo := true },
          groupInfoOut d view.roster)

variable {h : Hub} {d : Deposit}

theorem handshake_outcome (hm : h.movedTo = none) (hc : d.cls = .handshake)
    (hd : h.digests.lookup d.digest = none) (hmay : h.mayDeposit d = true)
    (he : d.epoch = h.epoch) : Outcome h d (h.handshake d) := by
  unfold handshake
  split
  case h_1 => exact .sequenced hm (.inl hc) hd hmay (.inl he)
  case h_2 c hcommit =>
    cases hv : c.valid with
    | false => exact .refused _
    | true =>
      cases hr : checkRosterChange d.identity (leaves h.roster) c.adds c.removes with
      | some reason => exact .refused _
      | none => exact .committed c hm hc hd hmay he hcommit hv hr

theorem depositSequenced_outcome (hm : h.movedTo = none) (hc : d.cls.Sequenced) :
    Outcome h d (h.depositSequenced d) := by
  unfold depositSequenced
  cases hd : h.digests.lookup d.digest with
  | some seq => exact .duplicate seq hm hc hd
  | none =>
    cases hmay : h.mayDeposit d with
    | false => exact .refused _
    | true =>
      simp only [Bool.not_true, Bool.false_eq_true, if_false]
      split
      case isTrue =>
        split
        case isTrue hrecent => exact .sequenced hm hc hd hmay hrecent
        case isFalse => exact .refused _
      case isFalse happ =>
        split
        case isTrue => exact .refused _
        case isFalse he =>
          exact handshake_outcome hm (hc.resolve_right happ) hd hmay (not_not.mp he)

theorem depositHere_outcome (hm : h.movedTo = none) : Outcome h d (h.depositHere d) := by
  unfold depositHere
  split
  case h_1 hc =>
    split
    case isTrue => exact .refused _
    case isFalse hmem => exact .published hm hc (not_not.mp hmem)
  case h_2 hc =>
    split
    case isTrue hexp => exact .expired hm hc hexp
    case isFalse =>
      split
      case isTrue => exact .refused _
      case isFalse hmem => exact .relayed hm hc (not_not.mp hmem)
  case h_3 hc => exact depositSequenced_outcome hm (.inl hc)
  case h_4 hc => exact depositSequenced_outcome hm (.inr hc)
  case h_5 => exact .refused _
  case h_6 => exact .refused _

theorem returned_outcome {handoverSeq : Nat} (hm : h.movedTo ≠ none) (hc : d.cls = .groupInfo)
    (hs : d.handoverSeq = some handoverSeq) : Outcome h d (h.returned d handoverSeq) := by
  unfold returned
  cases hv : d.view with
  | none => exact .refused _
  | some view =>
    dsimp only
    split
    case isTrue => exact .refused _
    case isFalse hmem =>
      split
      case isTrue => exact .refused _
      case isFalse hlt =>
        exact .returned view handoverSeq hm hc hv hs (not_not.mp hmem) (not_lt.mp hlt)

theorem deposit_outcome (h : Hub) (d : Deposit) : Outcome h d (h.deposit d) := by
  unfold deposit
  split
  case h_1 hm => exact depositHere_outcome hm
  case h_2 new hm =>
    have hmoved : h.movedTo ≠ none := by rw [hm]; exact Option.some_ne_none new
    split
    case h_1 hc hs => exact returned_outcome hmoved hc hs
    case h_2 => exact .refused _

end Hub

end Dsip.Messaging
