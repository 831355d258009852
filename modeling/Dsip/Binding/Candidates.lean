import Dsip.Lib.TSys
import Mathlib.Tactic

/-!
# The exchange of ICE candidates

`CandidateExchange` on both ends of a call, joined by a FIFO channel in each
direction. What happens to the candidates of one side depends on its `Lane` alone:
its sending half, its channel, and the receiving half of the other side. The
invariant is stated of a lane (`Lane.Good`), and the two machines are followed by
their lanes (`Net.lane_step`).
-/

namespace Dsip.Binding

open Dsip.Lib

variable {C : Type}

/-! ## One machine -/

inductive Event (C : Type) where
  | localCandidate (candidate : C)
  | gatheringComplete
  | active
  | remoteDescription
  | remoteInfo (device : String) (candidates : List C) (endOfCandidates : Bool)
  | sessionEnd

/-- What an `info` says of candidates: how many it carries, and whether they are
the last. -/
structure Info where
  candidates : Nat
  endOfCandidates : Bool
  deriving DecidableEq, Repr

inductive Emit where
  | sendInfo (info : Info)
  | buffer (side : String) (n : Nat)
  | apply (n : Nat)
  | remoteEnd
  | dropBuffered (n : Nat)
  | ignore (reason : String)
  deriving DecidableEq, Repr

structure CandidateExchange (C : Type) where
  peer : Option String
  active : Bool
  remoteApplied : Bool
  localBuf : List C
  gatheringComplete : Bool
  endSent : Bool
  remoteBuf : List C
  remoteEnd : Bool
  ended : Bool

namespace CandidateExchange

def init (peer : Option String) : CandidateExchange C where
  peer := peer
  active := false
  remoteApplied := false
  localBuf := []
  gatheringComplete := false
  endSent := false
  remoteBuf := []
  remoteEnd := false
  ended := false

/-- What remote candidates come to: applied, or buffered for the description. -/
def arrive (x : CandidateExchange C) (candidates : List C) : CandidateExchange C × List Emit :=
  if candidates = [] then (x, [])
  else if x.remoteApplied then (x, [.apply candidates.length])
  else
    let buf := x.remoteBuf ++ candidates
    ({ x with remoteBuf := buf }, [.buffer "remote" buf.length])

def step (x : CandidateExchange C) (event : Event C) : CandidateExchange C × List Emit :=
  if x.ended then (x, [.ignore "ended"])
  else
    match event with
    | .localCandidate candidate =>
      if x.active then (x, [.sendInfo ⟨1, false⟩])
      else
        let buf := x.localBuf ++ [candidate]
        ({ x with localBuf := buf }, [.buffer "local" buf.length])
    | .gatheringComplete =>
      if x.active ∧ ¬ x.endSent then
        ({ x with gatheringComplete := true, endSent := true }, [.sendInfo ⟨0, true⟩])
      else ({ x with gatheringComplete := true }, [])
    | .active =>
      let last := x.gatheringComplete && !x.endSent
      if x.localBuf ≠ [] ∨ last then
        ({ x with active := true, localBuf := [], endSent := x.endSent || last },
          [.sendInfo ⟨x.localBuf.length, last⟩])
      else ({ x with active := true }, [])
    | .remoteDescription =>
      if x.remoteBuf ≠ [] then
        ({ x with remoteApplied := true, remoteBuf := [] }, [.apply x.remoteBuf.length])
      else ({ x with remoteApplied := true }, [])
    | .remoteInfo device candidates endOfCandidates =>
      if x.peer.any (· ≠ device) then (x, [.ignore "not-party"])
      else if x.remoteEnd then (x, [.ignore "after-end"])
      else
        let (y, out) := x.arrive candidates
        if endOfCandidates then ({ y with remoteEnd := true }, out ++ [.remoteEnd]) else (y, out)
    | .sessionEnd =>
      if x.remoteBuf ≠ [] ∨ x.localBuf ≠ [] then
        ({ x with ended := true, remoteBuf := [], localBuf := [] },
          [.dropBuffered (x.remoteBuf.length + x.localBuf.length)])
      else ({ x with ended := true }, [])

theorem step_flags (x : CandidateExchange C) {event : Event C} (hon : x.ended = false)
    (hend : event ≠ .sessionEnd) : (x.step event).1.peer = x.peer ∧ (x.step event).1.ended = false ∧
      ((x.step event).1.active = true ↔ x.active = true ∨ event = .active) ∧
      ((x.step event).1.gatheringComplete = true ↔ x.gatheringComplete = true ∨ event = .gatheringComplete) ∧
      ((x.step event).1.remoteApplied = true ↔ x.remoteApplied = true ∨ event = .remoteDescription) := by
  simp only [step, hon, Bool.false_eq_true, if_false]
  cases event with
  | localCandidate candidate =>
    dsimp only
    split <;> simp [hon]
  | gatheringComplete =>
    dsimp only
    split <;> simp
  | active =>
    dsimp only
    split <;> simp
  | remoteDescription =>
    dsimp only
    split <;> simp
  | remoteInfo device candidates endOfCandidates =>
    simp only [arrive]
    split_ifs <;> simp [hon]
  | sessionEnd => exact absurd rfl hend

end CandidateExchange

/-! ## Two machines -/

inductive Side where
  | left
  | right
  deriving DecidableEq, Repr

def Side.other : Side → Side
  | .left => .right
  | .right => .left

@[simp] theorem Side.other_other (d : Side) : d.other.other = d := by
  cases d <;> rfl

@[simp] theorem Side.other_ne (d : Side) : d.other ≠ d := by
  cases d <;> decide

theorem Side.eq_other {d e : Side} (h : e ≠ d) : e = d.other := by
  cases d <;> cases e <;> first | rfl | exact absurd rfl h

@[simp] theorem Side.ne_other (d : Side) : d ≠ d.other := d.other_ne.symm

/-- The two machines, and what each has sent that has not arrived, oldest first. -/
structure Net (C : Type) where
  peer : Side → CandidateExchange C
  wire : Side → List Info

inductive Input (C : Type) where
  | event (side : Side) (event : Event C)
  /-- The oldest `info` that this side has sent, with its candidates. -/
  | deliver (side : Side) (candidates : List C)

@[simp] def infos (out : List Emit) : List Info :=
  out.filterMap fun
    | .sendInfo info => some info
    | _ => none

namespace Net

def init (device : Side → String) : Net C where
  peer d := .init (some (device d.other))
  wire _ := []

def act (s : Net C) (d : Side) (event : Event C) : Net C × (Side × List Emit) :=
  let (x, out) := (s.peer d).step event
  (⟨Function.update s.peer d x, Function.update s.wire d (s.wire d ++ infos out)⟩, (d, out))

/-- What is left of a side's channel. -/
def pop (s : Net C) (d : Side) (rest : List Info) : Net C := { s with wire := Function.update s.wire d rest }

def step (device : Side → String) (s : Net C) : Input C → Except Unit (Net C × (Side × List Emit))
  | .event d event => .ok (s.act d event)
  | .deliver d candidates =>
    match s.wire d with
    | info :: rest =>
      if candidates.length = info.candidates then
        .ok ((s.pop d rest).act d.other
          (.remoteInfo (device d) candidates info.endOfCandidates))
      else .error ()
    | [] => .error ()

def system (device : Side → String) : TSys (Net C) (Input C) (Side × List Emit) :=
  .ofStep (· = init device) (step device)

end Net

abbrev Trace (C : Type) := TSys.Trace (Input C) (Side × List Emit)

/-- The side has had this event. -/
def Said (tr : Trace C) (d : Side) (event : Event C) : Prop := ∃ x ∈ tr, x.1 = .event d event

/-- No session ends, no candidate follows the end of gathering, and what does not
come over the channel is not from the peer. -/
def Proper (device : Side → String) (tr : Trace C) (_ : Net C) : Input C → Prop
  | .event d (.localCandidate _) => ¬ Said tr d .gatheringComplete
  | .event d (.remoteInfo sender _ _) => sender ≠ device d.other
  | .event _ .sessionEnd => False
  | _ => True

/-! ## A lane -/

/-- One direction: the sending half of one machine, its channel, the receiving half
of the other, and what has been gathered, sent and applied. -/
structure Lane where
  active : Bool
  complete : Bool
  endSent : Bool
  localBuf : Nat
  wire : List Info
  described : Bool
  remoteBuf : Nat
  remoteEnd : Bool
  gathered : Nat
  sent : Nat
  ends : Nat
  applied : Nat
  endsSeen : Nat

namespace Lane

def gather (l : Lane) : Lane :=
  if l.active then { l with gathered := l.gathered + 1, sent := l.sent + 1, wire := l.wire ++ [⟨1, false⟩] }
  else { l with gathered := l.gathered + 1, localBuf := l.localBuf + 1 }

def finish (l : Lane) : Lane :=
  if l.active ∧ ¬ l.endSent then
    { l with complete := true, endSent := true, ends := l.ends + 1, wire := l.wire ++ [⟨0, true⟩] }
  else { l with complete := true }

def activate (l : Lane) : Lane :=
  let last := l.complete && !l.endSent
  if l.localBuf ≠ 0 ∨ last then
    { l with
      active := true
      localBuf := 0
      endSent := l.endSent || last
      sent := l.sent + l.localBuf
      ends := l.ends + last.toNat
      wire := l.wire ++ [⟨l.localBuf, last⟩] }
  else { l with active := true }

def describe (l : Lane) : Lane :=
  { l with described := true, applied := l.applied + l.remoteBuf, remoteBuf := 0 }

def arrive (l : Lane) (info : Info) : Lane :=
  if l.remoteEnd then l
  else
    { l with
      applied := if l.described then l.applied + info.candidates else l.applied
      remoteBuf := if l.described then l.remoteBuf else l.remoteBuf + info.candidates
      remoteEnd := info.endOfCandidates
      endsSeen := l.endsSeen + info.endOfCandidates.toNat }

/-- Nothing is lost and nothing overtaken. -/
structure Good (l : Lane) : Prop where
  kept : l.gathered = l.sent + l.localBuf
  early : l.active = false → l.sent = 0 ∧ l.endSent = false
  flushed : l.active = true → l.localBuf = 0
  closes : l.active = true → l.complete = true → l.endSent = true
  closed : l.endSent = true → l.complete = true
  ends : l.ends = l.endSent.toNat
  sent : l.sent = (l.wire.map (·.candidates)).sum + l.remoteBuf + l.applied
  open' : l.endSent = false → l.remoteEnd = false ∧ ∀ info ∈ l.wire, info.endOfCandidates = false
  last : l.endSent = true → l.remoteEnd = true ∧ l.wire = [] ∨
    l.remoteEnd = false ∧ ∃ before info, l.wire = before ++ [info] ∧ info.endOfCandidates = true ∧
      ∀ i ∈ before, i.endOfCandidates = false
  waits : l.described = false → l.applied = 0
  drained : l.described = true → l.remoteBuf = 0
  seen : l.endsSeen = l.remoteEnd.toNat

variable {l : Lane}

theorem Good.gather (h : l.Good) (hopen : l.complete = false) : l.gather.Good := by
  have hend : l.endSent = false := by
    cases he : l.endSent with
    | false => rfl
    | true => simp [h.closed he] at hopen
  obtain ⟨hremote, hwire⟩ := h.open' hend
  unfold Lane.gather
  split
  case isTrue hactive =>
    have := h.kept
    have := h.sent
    have hlast : ∀ info ∈ l.wire ++ [⟨1, false⟩], info.endOfCandidates = false := by
      intro info hinfo
      rcases List.mem_append.mp hinfo with hold | hnew
      · exact hwire info hold
      · rw [List.mem_singleton.mp hnew]
    exact { h with
      kept := by dsimp only; omega
      early := fun hoff => by simp [hactive] at hoff
      sent := by simp; omega
      open' := fun _ => ⟨hremote, hlast⟩
      last := fun he => by simp [hend] at he }
  case isFalse hoff =>
    exact { h with
      kept := by have := h.kept; dsimp only; omega
      flushed := fun hon => absurd hon hoff }

theorem Good.finish (h : l.Good) : l.finish.Good := by
  unfold Lane.finish
  split
  case isTrue hsend =>
    obtain ⟨hactive, hend⟩ := hsend
    have hend : l.endSent = false := by simpa using hend
    obtain ⟨hremote, hwire⟩ := h.open' hend
    exact { h with
      early := fun hoff => by simp [hactive] at hoff
      closes := fun _ _ => rfl
      closed := fun _ => rfl
      ends := by simp [h.ends, hend]
      sent := by have := h.sent; simp; omega
      open' := nofun
      last := fun _ => .inr ⟨hremote, l.wire, _, rfl, rfl, hwire⟩ }
  case isFalse hquiet =>
    exact { h with
      closes := fun hactive _ => by simp_all
      closed := fun _ => rfl }

theorem Good.not_active (h : l.Good) (hsend : l.localBuf ≠ 0 ∨ (l.complete && !l.endSent) = true) :
    l.active = false := by
  cases hactive : l.active with
  | false => rfl
  | true =>
    have hbuf := h.flushed hactive
    have hclosed := h.closes hactive
    simp_all

theorem Good.activate (h : l.Good) : l.activate.Good := by
  unfold Lane.activate
  extract_lets last
  split
  case isTrue hsend =>
    obtain ⟨hnone, hend⟩ := h.early (h.not_active hsend)
    obtain ⟨hremote, hwire⟩ := h.open' hend
    have hkept := h.kept
    have hsent := h.sent
    -- the flush carries the end marker just if gathering is complete
    have hlast : last = l.complete := by simp [last, hend]
    rw [hlast]
    cases hcomplete : l.complete with
    | true =>
      exact { h with
        kept := by dsimp only; omega
        early := nofun
        flushed := fun _ => rfl
        closes := fun _ _ => by simp
        closed := fun _ => rfl
        ends := by simp [h.ends, hend]
        sent := by simp; omega
        open' := by simp
        last := fun _ => .inr ⟨hremote, l.wire, _, rfl, rfl, hwire⟩ }
    | false =>
      have hall : ∀ info ∈ l.wire ++ [⟨l.localBuf, false⟩], info.endOfCandidates = false := by
        intro info hinfo
        rcases List.mem_append.mp hinfo with hold | hnew
        · exact hwire info hold
        · rw [List.mem_singleton.mp hnew]
      exact { h with
        kept := by dsimp only; omega
        early := nofun
        flushed := fun _ => rfl
        closes := nofun
        closed := by simp [hend]
        ends := by simp [h.ends, hend]
        sent := by simp; omega
        open' := fun _ => ⟨hremote, hall⟩
        last := by simp [hend] }
  case isFalse hquiet =>
    obtain ⟨hbuf, hlast⟩ : l.localBuf = 0 ∧ last = false := by simpa using hquiet
    exact { h with
      early := nofun
      flushed := fun _ => hbuf
      closes := fun _ hc => by simpa [last, show l.complete = true from hc] using hlast }

theorem Good.describe (h : l.Good) : l.describe.Good :=
  { h with
    sent := by have := h.sent; simp only [Lane.describe]; omega
    waits := nofun
    drained := fun _ => rfl }

theorem Good.arrive {info : Info} {rest : List Info} (h : l.Good) (hwire : l.wire = info :: rest) :
    ({ l with wire := rest }.arrive info).Good := by
  have hremote : l.remoteEnd = false := by
    cases hend : l.endSent with
    | false => exact (h.open' hend).1
    | true =>
      rcases h.last hend with ⟨-, hnil⟩ | ⟨hremote, -⟩
      · rw [hnil] at hwire
        cases hwire
      · exact hremote
  have hsum : l.sent = info.candidates + (rest.map (·.candidates)).sum + l.remoteBuf + l.applied := by
    simpa [hwire] using h.sent
  unfold Lane.arrive
  rw [if_neg (by simp [hremote])]
  exact { h with
    sent := by
      dsimp only
      split <;> omega
    open' := fun hend => by
      have hall := (h.open' hend).2
      rw [hwire] at hall
      exact ⟨hall info List.mem_cons_self, fun i hi => hall i (List.mem_cons_of_mem _ hi)⟩
    last := fun hend => by
      obtain ⟨hon, -⟩ | ⟨-, before, last, hbefore, hlast, hall⟩ := h.last hend
      · simp [hremote] at hon
      rw [hwire] at hbefore
      -- the marker arrives just when it is alone
      cases before with
      | nil =>
        obtain ⟨rfl, rfl⟩ := List.cons.inj hbefore
        exact .inl ⟨hlast, rfl⟩
      | cons b before =>
        obtain ⟨rfl, hrest⟩ := List.cons.inj hbefore
        exact .inr ⟨hall _ List.mem_cons_self, before, last, hrest, hlast,
          fun i hi => hall i (List.mem_cons_of_mem _ hi)⟩
    waits := fun hoff => by
      have := h.waits hoff
      simp_all
    drained := fun hon => by
      have := h.drained hon
      simp_all
    seen := by simp [h.seen, hremote] }

end Lane

/-! ## The lanes of a run -/

@[simp] def Emit.candidates : Emit → Nat
  | .sendInfo info => info.candidates
  | _ => 0

@[simp] def Emit.ends : Emit → Nat
  | .sendInfo info => info.endOfCandidates.toNat
  | _ => 0

@[simp] def Emit.applied : Emit → Nat
  | .apply n => n
  | _ => 0

@[simp] def Emit.remoteEnds : Emit → Nat
  | .remoteEnd => 1
  | _ => 0

/-- A count of what a side has emitted. -/
def tally (count : Emit → Nat) (tr : Trace C) (d : Side) : Nat :=
  (tr.map fun x => if x.2.1 = d then (x.2.2.map count).sum else 0).sum

/-- How many candidates a side has gathered. -/
def gathered (tr : Trace C) (d : Side) : Nat :=
  (tr.map fun x => match x.1 with
    | .event e (.localCandidate _) => if e = d then 1 else 0
    | _ => 0).sum

@[simp] theorem tally_snoc (count : Emit → Nat) (tr : Trace C) (i : Input C) (e d : Side)
    (out : List Emit) : tally count (tr ++ [(i, (e, out))]) d =
      tally count tr d + if e = d then (out.map count).sum else 0 := by
  simp [tally]

@[simp] theorem gathered_snoc (tr : Trace C) (i : Input C) (o : Side × List Emit) (d : Side) :
    gathered (tr ++ [(i, o)]) d = gathered tr d + match i with
      | .event e (.localCandidate _) => if e = d then 1 else 0
      | _ => 0 := by
  simp [gathered]

def lane (tr : Trace C) (s : Net C) (d : Side) : Lane where
  active := (s.peer d).active
  complete := (s.peer d).gatheringComplete
  endSent := (s.peer d).endSent
  localBuf := (s.peer d).localBuf.length
  wire := s.wire d
  described := (s.peer d.other).remoteApplied
  remoteBuf := (s.peer d.other).remoteBuf.length
  remoteEnd := (s.peer d.other).remoteEnd
  gathered := gathered tr d
  sent := tally Emit.candidates tr d
  ends := tally Emit.ends tr d
  applied := tally Emit.applied tr d.other
  endsSeen := tally Emit.remoteEnds tr d.other

/-- What an event of a side does to its own lane. -/
def Event.outward : Event C → Lane → Lane
  | .localCandidate _ => Lane.gather
  | .gatheringComplete => Lane.finish
  | .active => Lane.activate
  | _ => id

/-- What it does to the lane of the other. -/
def Event.inward : Event C → Lane → Lane
  | .remoteDescription => Lane.describe
  | _ => id

/-- The session is on, and the event is not its end nor from the channel. -/
def Quiet (x : CandidateExchange C) : Event C → Prop
  | .remoteInfo sender _ _ => x.peer.any (· ≠ sender) = true
  | .sessionEnd => False
  | _ => True

variable {tr : Trace C} {s : Net C} {d : Side}

theorem act_foreign {sender : String} {candidates : List C} {endOfCandidates : Bool}
    (hon : (s.peer d).ended = false) (hforeign : (s.peer d).peer.any (· ≠ sender) = true) :
    s.act d (.remoteInfo sender candidates endOfCandidates) = (s, (d, [.ignore "not-party"])) := by
  simp only [Net.act, CandidateExchange.step, hon, hforeign, if_true, Bool.false_eq_true, if_false]
  simp

theorem act_outward {event : Event C} (hon : (s.peer d).ended = false) (hq : Quiet (s.peer d) event) :
    lane (tr ++ [(.event d event, (s.act d event).2)]) (s.act d event).1 d = event.outward (lane tr s d) := by
  cases event with
  | localCandidate candidate =>
    simp only [Net.act, CandidateExchange.step, hon, Event.outward]
    by_cases hactive : (s.peer d).active <;> simp [lane, Lane.gather, hactive]
  | gatheringComplete =>
    simp only [Net.act, CandidateExchange.step, hon, Event.outward]
    by_cases hsend : (s.peer d).active = true ∧ (s.peer d).endSent = false <;>
      simp [lane, Lane.finish, hsend]
  | active =>
    simp only [Net.act, CandidateExchange.step, hon, Event.outward, Lane.activate]
    cases hbuf : (s.peer d).localBuf with
    | nil =>
      by_cases hlast : (s.peer d).gatheringComplete = true ∧ (s.peer d).endSent = false <;>
        simp [lane, hbuf, hlast]
    | cons candidate buf => simp [lane, hbuf]
  | remoteDescription =>
    simp only [Net.act, CandidateExchange.step, hon, Event.outward]
    by_cases hbuf : (s.peer d).remoteBuf = [] <;> simp [lane, hbuf]
  | remoteInfo sender candidates endOfCandidates =>
    rw [act_foreign hon hq]
    simp [lane, Event.outward]
  | sessionEnd => exact absurd hq id

theorem act_inward {event : Event C} (hon : (s.peer d).ended = false) (hq : Quiet (s.peer d) event) :
    lane (tr ++ [(.event d event, (s.act d event).2)]) (s.act d event).1 d.other =
      event.inward (lane tr s d.other) := by
  cases event with
  | localCandidate candidate =>
    simp only [Net.act, CandidateExchange.step, hon, Event.inward]
    by_cases hactive : (s.peer d).active <;> simp [lane, hactive]
  | gatheringComplete =>
    simp only [Net.act, CandidateExchange.step, hon, Event.inward]
    by_cases hsend : (s.peer d).active = true ∧ (s.peer d).endSent = false <;> simp [lane, hsend]
  | active =>
    simp only [Net.act, CandidateExchange.step, hon, Event.inward]
    cases hbuf : (s.peer d).localBuf with
    | nil =>
      by_cases hlast : (s.peer d).gatheringComplete = true ∧ (s.peer d).endSent = false <;>
        simp [lane, hlast]
    | cons candidate buf => simp [lane]
  | remoteDescription =>
    simp only [Net.act, CandidateExchange.step, hon, Event.inward]
    by_cases hbuf : (s.peer d).remoteBuf = [] <;> simp [lane, Lane.describe, hbuf]
  | remoteInfo sender candidates endOfCandidates =>
    rw [act_foreign hon hq]
    simp [lane, Event.inward]
  | sessionEnd => exact absurd hq id

theorem deliver_lane {device : String} {candidates : List C} {info : Info} {rest : List Info}
    (hon : (s.peer d.other).ended = false) (hpeer : (s.peer d.other).peer = some device)
    (hlen : candidates.length = info.candidates) :
    let r := (s.pop d rest).act d.other (.remoteInfo device candidates info.endOfCandidates)
    lane (tr ++ [(.deliver d candidates, r.2)]) r.1 d = { lane tr s d with wire := rest }.arrive info ∧
      lane (tr ++ [(.deliver d candidates, r.2)]) r.1 d.other = lane tr s d.other := by
  by_cases hend : (s.peer d.other).remoteEnd
  · simp [Net.act, Net.pop, CandidateExchange.step, hon, hpeer, hend, lane, Lane.arrive]
  · cases candidates with
    | nil =>
      cases hlast : info.endOfCandidates <;>
        simp [Net.act, Net.pop, CandidateExchange.step, CandidateExchange.arrive, hon, hpeer, hend, lane,
          Lane.arrive, ← hlen, hlast]
    | cons candidate candidates =>
      cases hlast : info.endOfCandidates <;> cases happlied : (s.peer d.other).remoteApplied <;>
        simp [Net.act, Net.pop, CandidateExchange.step, CandidateExchange.arrive, hon, hpeer, hend, lane,
          Lane.arrive, ← hlen, hlast, happlied]

/-! ## Runs -/

@[simp] theorem said_snoc {i : Input C} {o : Side × List Emit} {event : Event C} :
    Said (tr ++ [(i, o)]) d event ↔ Said tr d event ∨ i = .event d event := by
  simp only [Said, List.mem_append, List.mem_singleton]
  constructor
  · rintro ⟨x, hx | rfl, hsaid⟩
    · exact .inl ⟨x, hx, hsaid⟩
    · exact .inr hsaid
  · rintro (⟨x, hx, hsaid⟩ | hsaid)
    · exact ⟨x, .inl hx, hsaid⟩
    · exact ⟨_, .inr rfl, hsaid⟩

structure Sound (device : Side → String) (tr : Trace C) (s : Net C) : Prop where
  good : ∀ d, (lane tr s d).Good
  on : ∀ d, (s.peer d).ended = false
  party : ∀ d, (s.peer d).peer = some (device d.other)
  active : ∀ d, (s.peer d).active = true ↔ Said tr d .active
  complete : ∀ d, (s.peer d).gatheringComplete = true ↔ Said tr d .gatheringComplete
  described : ∀ d, (s.peer d).remoteApplied = true ↔ Said tr d .remoteDescription

theorem Sound.flags {device : Side → String} (h : Sound device tr s) {event : Event C}
    (hend : event ≠ .sessionEnd) (e : Side) :
    let x := (Function.update s.peer d ((s.peer d).step event).1) e
    x.peer = some (device e.other) ∧ x.ended = false ∧
      (x.active = true ↔ Said tr e .active ∨ d = e ∧ event = .active) ∧
      (x.gatheringComplete = true ↔ Said tr e .gatheringComplete ∨ d = e ∧ event = .gatheringComplete) ∧
      (x.remoteApplied = true ↔ Said tr e .remoteDescription ∨ d = e ∧ event = .remoteDescription) := by
  by_cases he : e = d
  · subst he
    have hflags := (s.peer e).step_flags (h.on e) hend
    simpa only [Function.update_self, h.party, h.active, h.complete, h.described, true_and] using hflags
  · simp [Function.update_of_ne he, h.party, h.on, h.active, h.complete, h.described, Ne.symm he]

theorem Sound.step {device : Side → String} (h : Sound device tr s) {i : Input C} {t : Net C}
    {o : Side × List Emit} (hproper : Proper device tr s i)
    (hstep : Net.step device s i = .ok (t, o)) : Sound device (tr ++ [(i, o)]) t := by
  cases i with
  | event d event =>
    have hq : Quiet (s.peer d) event := by
      cases event with
      | remoteInfo sender candidates endOfCandidates =>
        have hne : device d.other ≠ sender := fun he => hproper he.symm
        simp [Quiet, h.party, hne]
      | sessionEnd => exact absurd hproper id
      | _ => trivial
    have hend : event ≠ .sessionEnd := by
      rintro rfl
      exact hq
    obtain ⟨rfl, rfl⟩ : (s.act d event).1 = t ∧ (s.act d event).2 = o := by
      simpa only [Net.step, Except.ok.injEq, Prod.ext_iff] using hstep
    have hflags := h.flags (d := d) hend
    refine ⟨fun e => ?_, fun e => (hflags e).2.1, fun e => (hflags e).1, fun e => ?_, fun e => ?_,
      fun e => ?_⟩
    · by_cases he : e = d
      · subst he
        rw [act_outward (h.on e) hq]
        cases event with
        | localCandidate candidate =>
          refine (h.good e).gather ?_
          exact Bool.eq_false_iff.mpr fun hc => hproper ((h.complete e).mp hc)
        | gatheringComplete => exact (h.good e).finish
        | active => exact (h.good e).activate
        | remoteDescription => exact h.good e
        | remoteInfo sender candidates endOfCandidates => exact h.good e
        | sessionEnd => exact absurd rfl hend
      · obtain rfl := Side.eq_other he
        rw [act_inward (h.on d) hq]
        cases event with
        | remoteDescription => exact (h.good d.other).describe
        | _ => exact h.good d.other
    · rw [said_snoc]
      simpa [Net.act] using (hflags e).2.2.1
    · rw [said_snoc]
      simpa [Net.act] using (hflags e).2.2.2.1
    · rw [said_snoc]
      simpa [Net.act] using (hflags e).2.2.2.2
  | deliver d candidates =>
    unfold Net.step at hstep
    split at hstep
    case h_1 => contradiction
    case h_2 d' candidates' hinput =>
      obtain ⟨rfl, rfl⟩ := Input.deliver.inj hinput
      split at hstep
      case h_2 => cases hstep
      case h_1 info rest hwire =>
        split at hstep
        case isFalse => cases hstep
        case isTrue hlen =>
          obtain ⟨rfl, rfl⟩ := Prod.ext_iff.mp (Except.ok.inj hstep)
          have hparty : (s.peer d.other).peer = some (device d) := by
            rw [h.party, Side.other_other]
          obtain ⟨hlane, hlane'⟩ :=
            @deliver_lane C tr s d (device d) candidates info rest (h.on d.other) hparty hlen
          have hflags := @Sound.flags C tr s d.other device h
            (.remoteInfo (device d) candidates info.endOfCandidates) nofun
          refine ⟨fun e => ?_, fun e => (hflags e).2.1, fun e => (hflags e).1, fun e => ?_,
            fun e => ?_, fun e => ?_⟩
          · by_cases he : e = d
            · subst he
              exact hlane ▸ (h.good e).arrive hwire
            · obtain rfl := Side.eq_other he
              exact hlane' ▸ h.good d.other
          · rw [said_snoc]
            simpa [Net.act, Net.pop] using (hflags e).2.2.1
          · rw [said_snoc]
            simpa [Net.act, Net.pop] using (hflags e).2.2.2.1
          · rw [said_snoc]
            simpa [Net.act, Net.pop] using (hflags e).2.2.2.2

theorem Sound.init (device : Side → String) : Sound device ([] : Trace C) (Net.init device) where
  good d := by
    refine ⟨rfl, fun _ => ⟨rfl, rfl⟩, nofun, nofun, nofun, rfl, rfl, fun _ => ⟨rfl, nofun⟩, nofun,
      fun _ => rfl, nofun, rfl⟩
  on _ := rfl
  party _ := rfl
  active _ := by simp [Net.init, CandidateExchange.init, Said]
  complete _ := by simp [Net.init, CandidateExchange.init, Said]
  described _ := by simp [Net.init, CandidateExchange.init, Said]

theorem sound_of_run {device : Side → String}
    (h : (Net.system device).RunWhere (Proper device) (Net.init device) tr s) : Sound device tr s :=
  h.invariant (Sound.init device) fun _ _ _ _ _ _ hsound hproper hstep => hsound.step hproper hstep

/-- **No candidate is lost and none repeated**, whatever the order of events and
deliveries: what a side has sent and what it still buffers is what it has gathered,
and once it has said that it is done, and its channel is empty, the other side has
applied just these. -/
theorem candidates_conserved {device : Side → String}
    (h : (Net.system device).RunWhere (Proper device) (Net.init device) tr s) (d : Side) :
    tally Emit.candidates tr d + (s.peer d).localBuf.length = gathered tr d ∧
      (¬ Said tr d .active → tally Emit.candidates tr d = 0 ∧ tally Emit.ends tr d = 0) ∧
      tally Emit.ends tr d ≤ 1 ∧
      (tally Emit.ends tr d = 1 → Said tr d .gatheringComplete ∧ tally Emit.candidates tr d = gathered tr d) ∧
      (¬ Said tr d .remoteDescription → tally Emit.applied tr d = 0) ∧
      (Said tr d .active → Said tr d .gatheringComplete → s.wire d = [] → Said tr d.other .remoteDescription →
          tally Emit.applied tr d.other = gathered tr d ∧ tally Emit.remoteEnds tr d.other = 1) ∧
      ∀ sender candidates endOfCandidates, sender ≠ device d.other →
        Net.step device s (.event d (.remoteInfo sender candidates endOfCandidates)) =
          .ok (s, (d, [.ignore "not-party"])) := by
  have hsound := sound_of_run h
  have hgood := hsound.good d
  have hkept : gathered tr d = tally Emit.candidates tr d + (s.peer d).localBuf.length := hgood.kept
  have hends : tally Emit.ends tr d = (s.peer d).endSent.toNat := hgood.ends
  refine ⟨hkept.symm, fun hoff => ?_, ?_, fun hone => ?_, fun hoff => ?_, fun hon hdone hempty hdesc => ?_,
    fun sender candidates endOfCandidates hne => ?_⟩
  · have hactive : (s.peer d).active = false := Bool.eq_false_iff.mpr fun ha => hoff ((hsound.active d).mp ha)
    obtain ⟨hsent, hend⟩ := hgood.early hactive
    have hend : (s.peer d).endSent = false := hend
    exact ⟨hsent, by rw [hends, hend]; rfl⟩
  · rw [hends]
    exact Bool.toNat_le _
  · have hend : (s.peer d).endSent = true := by
      cases he : (s.peer d).endSent with
      | false => simp [hends, he] at hone
      | true => rfl
    have hactive : (s.peer d).active = true := by
      cases ha : (s.peer d).active with
      | false => simpa [lane, hend] using (hgood.early ha).2
      | true => rfl
    have hbuf : (s.peer d).localBuf.length = 0 := hgood.flushed hactive
    exact ⟨(hsound.complete d).mp (hgood.closed hend), by omega⟩
  · have hdesc : (s.peer d).remoteApplied = false :=
      Bool.eq_false_iff.mpr fun ha => hoff ((hsound.described d).mp ha)
    have hwaits := (hsound.good d.other).waits
    simp only [lane, Side.other_other] at hwaits
    exact hwaits hdesc
  · have hactive : (s.peer d).active = true := (hsound.active d).mpr hon
    have hdesc : (s.peer d.other).remoteApplied = true := (hsound.described d.other).mpr hdesc
    have hend : (s.peer d).endSent = true := hgood.closes hactive ((hsound.complete d).mpr hdone)
    have hbuf : (s.peer d).localBuf.length = 0 := hgood.flushed hactive
    have hremote : (s.peer d.other).remoteBuf.length = 0 := hgood.drained hdesc
    have hsent : tally Emit.candidates tr d = ((s.wire d).map (·.candidates)).sum +
      (s.peer d.other).remoteBuf.length + tally Emit.applied tr d.other := hgood.sent
    have hseen : tally Emit.remoteEnds tr d.other = (s.peer d.other).remoteEnd.toNat := hgood.seen
    rw [hempty] at hsent
    -- the end marker is sent and not in the channel
    obtain ⟨hremoteEnd, -⟩ | ⟨-, before, info, hwire, -⟩ := hgood.last hend
    · have hremoteEnd : (s.peer d.other).remoteEnd = true := hremoteEnd
      refine ⟨?_, by rw [hseen, hremoteEnd]; rfl⟩
      simp only [List.map_nil, List.sum_nil] at hsent
      omega
    · have hwire : s.wire d = before ++ [info] := hwire
      simp [hempty] at hwire
  · have hforeign : (s.peer d).peer.any (· ≠ sender) = true := by
      simp [hsound.party d, Ne.symm hne]
    simp only [Net.step, act_foreign (hsound.on d) hforeign]

theorem run_event {device : Side → String} (d : Side) (event : Event C)
    (h : (Net.system device).RunWhere (Proper device) (Net.init device) tr s)
    (hproper : Proper device tr s (.event d event)) :
    (Net.system device).RunWhere (Proper device) (Net.init device)
      (tr ++ [(.event d event, (s.act d event).2)]) (s.act d event).1 :=
  h.snoc hproper rfl

theorem run_deliver {device : Side → String} (d : Side) (info : Info) (rest : List Info)
    (candidates : List C)
    (h : (Net.system device).RunWhere (Proper device) (Net.init device) tr s)
    (hwire : s.wire d = info :: rest) (hlen : candidates.length = info.candidates) :
    let r := (s.pop d rest).act d.other (.remoteInfo (device d) candidates info.endOfCandidates)
    (Net.system device).RunWhere (Proper device) (Net.init device)
      (tr ++ [(.deliver d candidates, r.2)]) r.1 := by
  refine h.snoc trivial ?_
  simp only [Net.system, TSys.ofStep, Net.step, hwire, hlen, if_true]

/-- Two candidates, one before the call is active and one after it, and the end of
gathering: the other side, which has its description late, applies both. -/
theorem candidates_conserved_two :
    let device : Side → String := fun d => if d = .left then "phone" else "desk"
    ∃ (tr : Trace Unit) (s : Net Unit), (Net.system device).RunWhere (Proper device) (Net.init device) tr s ∧
        gathered tr .left = 2 ∧ tally Emit.applied tr .right = 2 := by
  intro device
  have h₀ : (Net.system device).RunWhere (Proper device) (Net.init device) ([] : Trace Unit) _ := .nil
  have h₁ := run_event .left (.localCandidate ()) h₀ (by simp [Proper, Said])
  have h₂ := run_event .left .active h₁ trivial
  have h₃ := run_event .left (.localCandidate ()) h₂ (by simp [Proper, Said])
  have h₄ := run_deliver .left ⟨1, false⟩ [⟨1, false⟩] [()] h₃ (by decide +kernel) rfl
  have h₅ := run_event .left .gatheringComplete h₄ trivial
  have h₆ := run_event .right .remoteDescription h₅ trivial
  have h₇ := run_deliver .left ⟨1, false⟩ [⟨0, true⟩] [()] h₆ (by decide +kernel) rfl
  have h₈ := run_deliver .left ⟨0, true⟩ [] [] h₇ (by decide +kernel) rfl
  obtain ⟨-, -, -, -, -, happlied, -⟩ := candidates_conserved h₈ .left
  have hwire := happlied (by simp [Said]) (by simp [Said]) (by decide +kernel)
    (by simp [Said, Side.other])
  exact ⟨_, _, h₈, by decide +kernel, hwire.1⟩

end Dsip.Binding
