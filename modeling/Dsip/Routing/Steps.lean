import Dsip.Routing.Relay

/-!
# What a step of the relay can be

Most of what a relay does concerns its attempts alone (`Tracks`): nothing is
queued, nothing leaves the inbox, no binding changes. `recv_outcome` says what a
received message can come to: it is routed, held, refused, or handled by an
attempt.
-/

namespace Dsip.Routing

open Dsip.Lib

/-- The emissions that concern the inbox. -/
def Emit.OfInbox : Emit → Prop
  | .queue .. | .dequeue .. => True
  | _ => False

instance : DecidablePred Emit.OfInbox
  | .queue .. | .dequeue .. => isTrue trivial
  | .deliver .. | .deliverCancel .. | .forwardProgress .. | .forwardAnswer _
  | .forwardReject .. | .noResponse .. | .unknownRecipient .. | .drop _ => isFalse id

/-- Nothing is queued or dequeued. -/
def Plain (o : List Emit) : Prop := ∀ e ∈ o, ¬ e.OfInbox

theorem plain_nil : Plain [] := by
  intro e he
  cases he

theorem plain_append {o o' : List Emit} (h : Plain o) (h' : Plain o') : Plain (o ++ o') := by
  intro e he
  rcases List.mem_append.mp he with he | he
  · exact h e he
  · exact h' e he

theorem plain_singleton {e : Emit} (h : ¬ e.OfInbox) : Plain [e] := by
  intro e' he
  rw [List.mem_singleton.mp he]
  exact h

theorem plain_map {α : Type} {f : α → Emit} (h : ∀ a, ¬ (f a).OfInbox) (l : List α) : Plain (l.map f) := by
  intro e he
  obtain ⟨a, -, rfl⟩ := List.mem_map.mp he
  exact h a

theorem plain_foldEmit {σ α : Type} {f : σ → α → σ × List Emit} (h : ∀ s a, Plain (f s a).2)
    (l : List α) (s : σ) : Plain (foldEmit f s l).2 :=
  foldEmit_forall (fun a _ s e he => h s a e he) s

/-! ## What an attempt says -/

namespace Attempt

variable (a : Attempt)

theorem checkComplete_plain : Plain a.checkComplete.2 := by
  unfold checkComplete
  split
  case isTrue => exact plain_nil
  case isFalse => split <;> exact plain_singleton id

theorem cancel_plain (only : Option String) (reason : String) : Plain (a.cancel only reason).2 := by
  apply plain_foldEmit
  intro a leg
  unfold cancelLeg
  split
  case isTrue => exact plain_singleton id
  case isFalse => exact plain_nil

theorem fromLeg_plain (m : Message) (st : LegState) : Plain (a.fromLeg m st).2 := by
  unfold fromLeg
  dsimp only
  split
  case h_1 => exact plain_singleton id
  case h_2 =>
    split
    case isTrue => exact plain_singleton id
    case isFalse =>
      split
      case h_2 => exact checkComplete_plain _
      all_goals exact plain_singleton id

theorem expireSilent_plain : Plain a.expireSilent.2 := by
  unfold expireSilent
  split
  case h_1 => exact plain_nil
  case h_2 => exact checkComplete_plain _

end Attempt

namespace Relay

/-! ## What concerns attempts alone -/

/-- The relay without its attempts. -/
def store (r : Relay) : Relay := { r with attempts := ∅, invites := ∅ }

/-- Only attempts changed, and nothing was queued or dequeued. -/
structure Tracks (r : Relay) (o : Relay × List Emit) : Prop where
  store : o.1.store = r.store
  plain : Plain o.2

variable {r : Relay}

theorem Tracks.refl (r : Relay) : r.Tracks (r, []) := ⟨rfl, plain_nil⟩

theorem Tracks.trans {o o' : Relay × List Emit} (h : r.Tracks o) (h' : o.1.Tracks o') :
    r.Tracks (o'.1, o.2 ++ o'.2) :=
  ⟨h'.store.trans h.store, plain_append h.plain h'.plain⟩

theorem tracks_put (r : Relay) (sid : String) {o : Attempt × List Emit} (h : Plain o.2) :
    r.Tracks (r.put sid o) :=
  ⟨rfl, h⟩

theorem tracks_foldEmit {α : Type} {f : Relay → α → Relay × List Emit}
    (h : ∀ (r : Relay) (a : α), r.Tracks (f r a)) (l : List α) : ∀ r, Tracks r (foldEmit f r l) := by
  induction l with
  | nil => exact Tracks.refl
  | cons a l ih => exact fun r => (h r a).trans (ih _)

theorem tracks_join (r : Relay) (sid : String) (a : Attempt) (device id : String) :
    r.Tracks (r.put sid (a.join r.now device id)) :=
  tracks_put r sid (plain_singleton fun h => h)

theorem tracks_flushTo (device : String) (r : Relay) (h : Held) : r.Tracks (flushTo device r h) := by
  unfold flushTo
  split
  case h_1 =>
    split
    case h_1 => exact tracks_join ..
    case h_2 => exact ⟨rfl, plain_singleton fun h => h⟩
  case h_2 => exact ⟨rfl, plain_singleton fun h => h⟩

theorem tracks_lateBind (device identity : String) (r : Relay) (sid : String) :
    r.Tracks (lateBind device identity r sid) := by
  unfold lateBind
  split
  case h_1 => exact .refl r
  case h_2 =>
    split
    case isFalse => exact .refl r
    case isTrue =>
      split
      case h_1 => exact .refl r
      case h_2 =>
        split
        case isTrue => exact tracks_join ..
        case isFalse => exact .refl r

theorem tracks_expireSilentLeg (r : Relay) (sid : String) : r.Tracks (r.expireSilentLeg sid) := by
  unfold expireSilentLeg
  split
  case h_1 =>
    split
    case isTrue => exact .refl r
    case isFalse => exact tracks_put r sid (Attempt.expireSilent_plain _)
  case h_2 => exact .refl r

theorem tracks_expireSilentLegs (r : Relay) : r.Tracks r.expireSilentLegs :=
  tracks_foldEmit tracks_expireSilentLeg r.attempts.sortedKeys r

theorem tracks_legExpired (r : Relay) (session leg : String) : r.Tracks (r.legExpired session leg) := by
  unfold legExpired
  split
  case h_1 => exact .refl r
  case h_2 =>
    split
    case isTrue => exact tracks_put r session (Attempt.checkComplete_plain _)
    case isFalse => exact .refl r

theorem tracks_invite (r : Relay) (session sender dest : String) (legs : List String) :
    r.Tracks (r.invite session sender dest legs) := by
  apply tracks_put
  apply plain_foldEmit
  exact fun a leg => plain_singleton fun h => h

/-! ## Received messages -/

inductive Routed (r : Relay) (m : Message) : Relay × List Emit → Prop
  | delivered {legs : List String} (hm : legs ≠ []) (h : r.legsFor (m.dest.getD "") = legs) :
      Routed r m (r, legs.map fun d => .deliver d m.type m.id)
  | queued {dest : String} (hd : m.dest = some dest) (hl : r.legsFor dest = [])
      (hk : r.known dest = true) : Routed r m (r.enqueue dest m)
  | unknown (hl : r.legsFor (m.dest.getD "") = []) (hk : r.known (m.dest.getD "") = false) :
      Routed r m (r, [.unknownRecipient m.sender m.id])

theorem routePlain_outcome {m : Message} {o : Relay × List Emit} (h : r.routePlain m = .ok o) :
    Routed r m o := by
  unfold routePlain at h
  split at h
  case h_1 leg legs hl =>
    cases h
    exact .delivered (List.cons_ne_nil leg legs) hl
  case h_2 hl =>
    split at h
    case isTrue hk =>
      cases hd : m.dest with
      | none =>
        rw [hd] at h
        cases h
      | some dest =>
        rw [hd] at h hl hk
        cases h
        exact .queued hd hl hk
    case isFalse hk =>
      cases h
      exact .unknown hl (by simpa using hk)

/-- What a received message comes to. -/
inductive RecvOutcome (r : Relay) (m : Message) : Relay × List Emit → Prop
  | introduced {dest : String} (ht : m.type = .introduction) (hd : m.dest = some dest) :
      RecvOutcome r m (r.recvIntroduction dest m)
  | invited {dest : String} (ht : m.type = .invite) (hd : m.dest = some dest) :
      RecvOutcome r m (r.recvInvite dest m)
  /-- Not the business of an attempt. -/
  | routed {o : Relay × List Emit} (ht : m.type ≠ .introduction ∧ m.type ≠ .invite)
      (h : Routed r m o) : RecvOutcome r m o
  /-- A queued invite is withdrawn. -/
  | withdrawn {dest : String} {o : Relay × List Emit} (ht : m.type = .cancel)
      (hd : m.dest = some dest) (h : r.cancelQueued m dest = some o) : RecvOutcome r m o
  /-- The initiator's cancel, addressed to a device that is no leg. -/
  | strayed {sid : String} {a : Attempt} {o : Relay × List Emit} (ht : m.type = .cancel)
      (hs : m.session = some sid) (ha : r.attempts.lookup sid = some a)
      (h : Routed (r.put sid ({ a with last := r.now }, [])).1 m o) : RecvOutcome r m o
  | cancelled {sid : String} {a : Attempt} (ht : m.type = .cancel) (hs : m.session = some sid)
      (ha : r.attempts.lookup sid = some a) (hi : m.sender = a.initiator) :
      RecvOutcome r m
        (r.put sid ({ a with last := r.now }.cancel (m.dest.filter (· ∈ a.legs)) m.reason))
  | leg {sid : String} {a : Attempt} {st : LegState}
      (ht : m.type ∈ [.progress, .answer, .reject, .cancel]) (hr : m.inReplyTo = none)
      (hs : m.session = some sid) (ha : r.attempts.lookup sid = some a)
      (hl : a.legs.lookup m.sender = some st) :
      RecvOutcome r m (r.put sid ({ a with last := r.now }.fromLeg m st))

theorem recvUntracked_outcome {m : Message} {o : Relay × List Emit}
    (ht : m.type ≠ .introduction ∧ m.type ≠ .invite) (h : r.recvUntracked m = .ok o) : RecvOutcome r m o := by
  unfold recvUntracked at h
  split at h
  case isFalse => exact .routed ht (routePlain_outcome h)
  case isTrue hc =>
    cases hd : m.dest with
    | none =>
      rw [hd] at h
      cases h
    | some dest =>
      rw [hd] at h
      dsimp only at h
      split at h
      case isTrue => cases h
      case isFalse =>
        cases hq : r.cancelQueued m dest with
        | none =>
          rw [hq] at h
          exact .routed ht (routePlain_outcome h)
        | some o' =>
          rw [hq] at h
          cases h
          exact .withdrawn hc hd hq

theorem recvTracked_outcome {m : Message} {o : Relay × List Emit} {sid : String} {a : Attempt}
    (ht : m.type ≠ .introduction ∧ m.type ≠ .invite) (hs : m.session = some sid)
    (ha : r.attempts.lookup sid = some a) (h : r.recvTracked sid a m = .ok o) : RecvOutcome r m o := by
  unfold recvTracked at h
  split at h
  case isTrue => exact .routed ht (routePlain_outcome h)
  case isFalse hin =>
    rw [not_or, not_not, not_not] at hin
    split at h
    case isTrue hc =>
      unfold recvCancel at h
      dsimp only at h
      split at h
      case isTrue => exact .strayed hc.1 hs ha (routePlain_outcome h)
      case isFalse =>
        cases h
        exact .cancelled hc.1 hs ha hc.2
    case isFalse =>
      cases hl : a.legs.lookup m.sender with
      | none =>
        rw [hl] at h
        exact .routed ht (routePlain_outcome h)
      | some st =>
        rw [hl] at h
        cases h
        exact .leg hin.1 hin.2 hs ha hl

theorem recv_outcome {m : Message} {o : Relay × List Emit} (h : r.recv m = .ok o) : RecvOutcome r m o := by
  unfold recv at h
  split at h
  case h_1 ht hd =>
    cases h
    exact .introduced ht hd
  case h_2 => cases h
  case h_3 ht hd =>
    cases h
    exact .invited ht hd
  case h_4 => cases h
  case h_5 hintro hintro' hinv hinv' =>
    have ht : m.type ≠ .introduction ∧ m.type ≠ .invite := by
      cases hd : m.dest with
      | none => exact ⟨fun ht => hintro' ht hd, fun ht => hinv' ht hd⟩
      | some dest => exact ⟨fun ht => hintro dest ht hd, fun ht => hinv dest ht hd⟩
    unfold recvSession at h
    cases hs : m.session with
    | none =>
      rw [hs] at h
      exact recvUntracked_outcome ht h
    | some sid =>
      rw [hs] at h
      dsimp only at h
      cases ha : r.attempts.lookup sid with
      | none =>
        rw [ha] at h
        exact recvUntracked_outcome ht h
      | some a =>
        rw [ha] at h
        exact recvTracked_outcome ht hs ha h

end Relay

end Dsip.Routing
