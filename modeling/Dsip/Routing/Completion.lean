import Dsip.Routing.Attempts
import Dsip.Routing.Inbox

/-!
# An attempt completes once

`Slot` is what a step does to one session id: nothing, an invite is queued, an
attempt starts, or the attempt moves and may then be forgotten. `Tally` is what
holds of a session id along a run that invites every session id once. The main
result, `completes_once`, says that an attempt waits for a leg until its outcome
is set, that the outcome stays, and that it is signalled once.
-/

namespace Dsip.Routing

open Dsip.Lib

/-- The session an event invites to. -/
def Event.invited : Event → Option String
  | .invite session .. => some session
  | .recv m => if m.type = .invite then some m.id else none
  | _ => none

/-- The rejects an attempt takes: those that are neither screened nor routed
on. -/
def took (sid : String) : Event → List Emit → List (String × String)
  | .recv m, o =>
    if m.type = .reject ∧ m.session = some sid ∧ ∀ e ∈ o, e.Signals sid then
      [(m.sender, m.reason)]
    else []
  | _, _ => []

theorem took_eq_nil {sid : String} {m : Message} {o : List Emit}
    (h : m.type ≠ .reject ∨ m.session ≠ some sid ∨ ∃ e ∈ o, ¬ e.Signals sid) : took sid (.recv m) o = [] := by
  apply if_neg
  rintro ⟨ht, hs, hall⟩
  rcases h with h | h | ⟨e, he, h⟩
  · exact h ht
  · exact h hs
  · exact h (hall e he)

/-- Nothing is signalled and no reject is taken. -/
def Quiet (sid : String) (i : Event) (o : List Emit) : Prop := signals sid o = [] ∧ took sid i o = []

namespace Attempt

/-- An attempt that has just started. -/
structure Fresh (sid : String) (a : Attempt) : Prop where
  session : a.session = sid
  outcome : a.outcome = none
  reasons : a.reasons = []
  legs : ∀ leg st, a.legs.lookup leg = some st → st = .delivered

variable {a : Attempt} {sid : String}

theorem Fresh.sound (h : a.Fresh sid) : a.Sound sid where
  session := h.session
  unanswered _ leg hl := by cases h.legs leg _ hl
  rejects p hp := by
    rw [h.reasons] at hp
    cases hp

theorem lookup_delivered {d : Dict String LegState}
    (h : ∀ leg st, d.lookup leg = some st → st = .delivered) (leg : String) :
    ∀ k st, (d.insert leg .delivered).lookup k = some st → st = .delivered := by
  intro k st hk
  rw [Dict.lookup_insert_eq] at hk
  split at hk
  case isTrue => exact (Option.some.inj hk).symm
  case isFalse => exact h k st hk

theorem Fresh.join (h : a.Fresh sid) (now : Nat) (device id : String) : (a.join now device id).1.Fresh sid :=
  ⟨h.session, h.outcome, h.reasons, lookup_delivered h.legs device⟩

theorem fresh_join_new (sid initiator identity : String) (last now : Nat) (device id : String) :
    ((new sid initiator identity last).join now device id).1.Fresh sid :=
  ⟨rfl, rfl, rfl, lookup_delivered (by simp [new]) device⟩

theorem fresh_fork (sid initiator identity : String) (last : Nat) (legs : List String) :
    (foldEmit fork (new sid initiator identity last) legs).1.Fresh sid := by
  have hnew : (new sid initiator identity last).Fresh sid := ⟨rfl, rfl, rfl, by simp [new]⟩
  refine foldEmit_invariant (P := Fresh sid) (l := legs) ?_ _ hnew
  intro k _ b hb
  exact ⟨hb.session, hb.outcome, hb.reasons, lookup_delivered hb.legs k⟩

theorem waiting_fork (sid initiator identity : String) (last : Nat) {legs : List String}
    (hne : legs ≠ []) : (foldEmit fork (new sid initiator identity last) legs).1.Waiting := by
  cases legs with
  | nil => exact absurd rfl hne
  | cons leg legs =>
    refine foldEmit_invariant (P := Waiting) (l := legs) ?_ _ (waiting_setLeg _ leg)
    exact fun k _ b _ => waiting_setLeg b k

theorem checkComplete_owner {k : String} : ∀ e ∈ a.checkComplete.2, e.Signals k → a.session = k := by
  unfold checkComplete
  split
  case isTrue => exact nofun
  case isFalse =>
    split
    all_goals
      intro e he hs
      rw [List.mem_singleton.mp he] at hs
      exact hs

theorem fromLeg_owner {m : Message} {st : LegState} {k : String} :
    ∀ e ∈ (a.fromLeg m st).2, e.Signals k → a.session = k := by
  unfold fromLeg
  dsimp only
  split
  case h_1 =>
    intro e he hs
    rw [List.mem_singleton.mp he] at hs
    exact hs.elim
  case h_2 =>
    split
    case isTrue =>
      intro e he hs
      rw [List.mem_singleton.mp he] at hs
      exact hs.elim
    case isFalse =>
      split
      case h_2 => exact checkComplete_owner
      all_goals
        intro e he hs
        rw [List.mem_singleton.mp he] at hs
        exact hs.elim

theorem session_expired (legs : List String) :
    ∀ a : Attempt, (legs.foldl (fun a l => a.setLeg l .expired) a).session = a.session := by
  induction legs with
  | nil => exact fun _ => rfl
  | cons leg legs ih => exact fun a => ih (a.setLeg leg .expired)

theorem expireSilent_owner {k : String} : ∀ e ∈ a.expireSilent.2, e.Signals k → a.session = k := by
  unfold expireSilent
  split
  case h_1 => exact nofun
  case h_2 leg legs hs =>
    intro e he h
    exact (session_expired (leg :: legs) a).symm.trans (checkComplete_owner e he h)

theorem expireSilent_signals (h : a.session = sid) : signals sid a.expireSilent.2 = a.expireSilent.2 := by
  unfold expireSilent
  split
  case h_1 => rfl
  case h_2 leg legs hs => exact checkComplete_signals ((session_expired (leg :: legs) a).trans h)

theorem cancel_signals (only : Option String) (reason k : String) :
    signals k (a.cancel only reason).2 = [] := by
  apply signals_eq_nil
  refine foldEmit_forall (Q := fun e : Emit => ¬ e.Signals k) ?_ _
  intro leg _ b
  unfold cancelLeg
  split
  case isTrue =>
    intro e he
    rw [List.mem_singleton.mp he]
    exact id
  case isFalse => exact nofun

end Attempt

namespace Relay

/-- The held invites of a session. -/
def pending (r : Relay) (sid : String) : Set Held :=
  {h | h ∈ r.heldFor h.dest ∧ h.msg.type = .invite ∧ h.msg.id = sid}

/-- An invite names at least one leg. -/
def HasLegs : Event → Prop
  | .invite _ _ _ legs => legs ≠ []
  | _ => True

/-- What a step does to one session id. -/
inductive Slot (sid : String) (r : Relay) (i : Event) (o : Relay × List Emit) : Prop
  | same (hi : i.invited ≠ some sid) (hq : Quiet sid i o.2)
      (ha : o.1.attempts.lookup sid = r.attempts.lookup sid)
      (hp : o.1.pending sid ⊆ r.pending sid)
  /-- An invite is queued, or refused. -/
  | asked {h : Held} (hi : i.invited = some sid) (hq : Quiet sid i o.2)
      (ha : o.1.attempts.lookup sid = r.attempts.lookup sid)
      (hp : o.1.pending sid ⊆ insert h (r.pending sid))
  | forked {a : Attempt} (hi : i.invited = some sid) (hq : Quiet sid i o.2)
      (ha : o.1.attempts.lookup sid = some a) (hf : a.Fresh sid) (hw : HasLegs i → a.Waiting)
      (hp : o.1.pending sid ⊆ r.pending sid)
  /-- A queued invite is flushed. -/
  | flushed {h : Held} (hi : i.invited ≠ some sid) (hq : Quiet sid i o.2)
      (hin : h ∈ r.pending sid) (hout : h ∉ o.1.pending sid)
      (ha : r.attempts.lookup sid = none → ∃ a, o.1.attempts.lookup sid = some a ∧ a.Fresh sid ∧ a.Waiting)
      (hp : o.1.pending sid ⊆ r.pending sid)
  | moved {a b : Attempt} (hi : i.invited ≠ some sid) (ha : r.attempts.lookup sid = some a)
      (hm : a.Moved (signals sid o.2) (took sid i o.2) b)
      (hb : o.1.attempts.lookup sid = some b ∨
        o.1.attempts.lookup sid = none ∧ (b = a ∨ b = a.expireSilent.1))
      (hp : o.1.pending sid ⊆ r.pending sid)

/-! ## Held invites -/

variable {r : Relay} {sid : String}

theorem pending_of_sublist {r' : Relay} (h : ∀ k, (r'.heldFor k).Sublist (r.heldFor k)) :
    r'.pending sid ⊆ r.pending sid :=
  fun g hg => ⟨(h g.dest).subset hg.1, hg.2⟩

theorem pending_of_inbox {r' : Relay} (h : r'.inbox = r.inbox) : r'.pending sid ⊆ r.pending sid := by
  apply pending_of_sublist
  intro k
  rw [heldFor_of_inbox h]

theorem pending_of_enqueue {r' : Relay} {dest : String} {m : Message}
    (h : r'.inbox = (r.enqueue dest m).1.inbox) :
    r'.pending sid ⊆ insert (r.envelope dest m) (r.pending sid) := by
  rintro g ⟨hg, hinvite⟩
  rw [heldFor_enqueue h] at hg
  split at hg
  case isFalse => exact .inr ⟨hg, hinvite⟩
  case isTrue hd =>
    rcases List.mem_append.mp hg with hg | hg
    · exact .inr ⟨hd ▸ hg, hinvite⟩
    · exact .inl (List.mem_singleton.mp hg)

theorem pending_of_enqueue_other {r' : Relay} {dest : String} {m : Message}
    (h : r'.inbox = (r.enqueue dest m).1.inbox) (hm : ¬ (m.type = .invite ∧ m.id = sid)) :
    r'.pending sid ⊆ r.pending sid := by
  intro g hg
  rcases pending_of_enqueue h hg with rfl | hg'
  · exact absurd hg.2 hm
  · exact hg'

theorem lookup_put (r : Relay) (s k : String) (o : Attempt × List Emit) :
    (r.put s o).1.attempts.lookup k = if k = s then some o.1 else r.attempts.lookup k :=
  Dict.lookup_insert_eq ..

/-! ## Loops over the attempts -/

/-- What a turn of a loop over the attempts makes of one, by the clock and the
invites. -/
abbrev Turn := Nat → Dict String Message → String → Attempt → Attempt × List Emit

/-- `f` does `g` to the attempt of its session id, if there is one. -/
def Turns (f : Relay → String → Relay × List Emit) (g : Turn) : Prop :=
  ∀ s k, (s.attempts.lookup k = none → f s k = (s, [])) ∧ ∀ a, s.attempts.lookup k = some a →
      f s k = s.put k (g s.now s.invites k a) ∨
      f s k = (s, []) ∧ g s.now s.invites k a = (a, [])

section Loop

variable {f : Relay → String → Relay × List Emit} {g : Turn}

theorem Turns.cases (h : Turns f g) (s : Relay) (k : String) :
    (s.attempts.lookup k = none ∧ f s k = (s, [])) ∨
    ∃ a, s.attempts.lookup k = some a ∧ (f s k = s.put k (g s.now s.invites k a) ∨
        f s k = (s, []) ∧ g s.now s.invites k a = (a, [])) := by
  cases ha : s.attempts.lookup k with
  | none => exact .inl ⟨rfl, (h s k).1 ha⟩
  | some a => exact .inr ⟨a, rfl, (h s k).2 a ha⟩

theorem Turns.clock (h : Turns f g) (s : Relay) (k : String) :
    ((f s k).1.now, (f s k).1.invites) = (s.now, s.invites) := by
  rcases h.cases s k with ⟨-, hf⟩ | ⟨a, -, hf | ⟨hf, -⟩⟩
  · rw [hf]
  · rw [hf]
    rfl
  · rw [hf]

theorem Turns.own (h : Turns f g) (s : Relay) (k : String) : (f s k).1.attempts.lookup k =
      (s.attempts.lookup k).map fun a => (g s.now s.invites k a).1 := by
  rcases h.cases s k with ⟨ha, hf⟩ | ⟨a, ha, hf | ⟨hf, hg⟩⟩
  · rw [hf, ha]
    rfl
  · rw [hf, ha, lookup_put, if_pos rfl]
    rfl
  · rw [hf, ha, Option.map_some, hg]

theorem Turns.other (h : Turns f g) (s : Relay) (k j : String) (hj : j ≠ k) :
    (f s k).1.attempts.lookup j = s.attempts.lookup j := by
  rcases h.cases s k with ⟨-, hf⟩ | ⟨a, -, hf | ⟨hf, -⟩⟩
  · rw [hf]
  · rw [hf, lookup_put, if_neg hj]
  · rw [hf]

theorem Turns.out (h : Turns f g) (s : Relay) (k : String) :
    (f s k).2 = (s.attempts.lookup k).elim [] fun a => (g s.now s.invites k a).2 := by
  rcases h.cases s k with ⟨ha, hf⟩ | ⟨a, ha, hf | ⟨hf, hg⟩⟩
  · rw [hf, ha]
    rfl
  · rw [hf, ha]
    rfl
  · rw [hf, ha, Option.elim_some, hg]

theorem Turns.loop (h : Turns f g) (s : Relay) :
    (∀ j, (foldEmit f s s.attempts.sortedKeys).1.attempts.lookup j =
      (s.attempts.lookup j).map fun a => (g s.now s.invites j a).1) ∧
    (foldEmit f s s.attempts.sortedKeys).2 = s.attempts.sortedKeys.flatMap fun j =>
      (s.attempts.lookup j).elim [] fun a => (g s.now s.invites j a).2 := by
  let turn (env : Nat × Dict String Message) (k : String) (v : Option Attempt) : Option Attempt × List Emit :=
    (v.map fun a => (g env.1 env.2 k a).1, v.elim [] fun a => (g env.1 env.2 k a).2)
  have hkeys := @foldEmit_keys _ _ _ _ _ _ (fun r : Relay => r.attempts.lookup)
    (fun r : Relay => (r.now, r.invites)) f turn h.clock h.own h.other h.out _
    (Dict.nodup_sortedKeys s.attempts) s
  refine ⟨?_, hkeys.2.2⟩
  intro j
  refine (hkeys.2.1 j).trans ?_
  split
  case isTrue => rfl
  case isFalse hj =>
    rw [Dict.mem_sortedKeys, ← AList.lookup_eq_none] at hj
    rw [hj]
    rfl

/-- Where every attempt says only what concerns itself, the loop says of one
session what its attempt says. -/
theorem Turns.signals (h : Turns f g) (s : Relay) (sid : String)
    (hown : ∀ j a, s.attempts.lookup j = some a → ∀ e ∈ (g s.now s.invites j a).2,
      e.Signals sid → j = sid) : signals sid (foldEmit f s s.attempts.sortedKeys).2 =
      (s.attempts.lookup sid).elim [] fun a => signals sid (g s.now s.invites sid a).2 := by
  rw [(h.loop s).2]
  have hmain : ∀ ks : List String, ks.Nodup → Routing.signals sid (ks.flatMap fun j =>
        (s.attempts.lookup j).elim [] fun a => (g s.now s.invites j a).2) =
      if sid ∈ ks then
        (s.attempts.lookup sid).elim [] fun a => Routing.signals sid (g s.now s.invites sid a).2
      else [] := by
    intro ks
    induction ks with
    | nil => exact fun _ => rfl
    | cons k ks ih =>
      intro hnd
      obtain ⟨hk, hks⟩ := List.nodup_cons.mp hnd
      rw [List.flatMap_cons, signals_append, ih hks]
      by_cases hj : sid = k
      · subst hj
        rw [if_neg hk, if_pos List.mem_cons_self, List.append_nil]
        cases s.attempts.lookup sid <;> rfl
      · have hnil : Routing.signals sid ((s.attempts.lookup k).elim []
            fun a => (g s.now s.invites k a).2) = [] := by
          apply signals_eq_nil
          cases ha : s.attempts.lookup k with
          | none => exact nofun
          | some a => exact fun e he hs => hj (hown k a ha e he hs).symm
        rw [hnil, List.nil_append]
        simp only [List.mem_cons, hj, false_or]
  rw [hmain _ (Dict.nodup_sortedKeys _)]
  split
  case isTrue => rfl
  case isFalse hj =>
    rw [Dict.mem_sortedKeys, ← AList.lookup_eq_none] at hj
    rw [hj]
    rfl

end Loop

/-! ## A bind -/

/-- What a device that binds makes of one attempt. -/
def late (device identity : String) : Turn := fun now invites sid a =>
  if a.identity = identity ∧ a.outcome = none ∧ device ∉ a.legs ∧
      ∃ m, invites.lookup sid = some m ∧ now < m.expiresAt.getD (now + 1) then
    a.join now device sid
  else (a, [])

theorem turns_lateBind (device identity : String) :
    Turns (lateBind device identity) (late device identity) := by
  intro s k
  unfold lateBind late
  refine ⟨fun ha => by rw [ha], ?_⟩
  intro a ha
  rw [ha]
  dsimp only
  by_cases hl : a.identity = identity ∧ a.outcome = none ∧ device ∉ a.legs
  · rw [if_pos hl]
    cases hi : s.invites.lookup k with
    | none => exact .inr ⟨rfl, if_neg fun h => by simp at h⟩
    | some inv =>
      dsimp only
      by_cases hn : s.now < inv.expiresAt.getD (s.now + 1)
      · rw [if_pos hn, if_pos ⟨hl.1, hl.2.1, hl.2.2, inv, rfl, hn⟩]
        exact .inl rfl
      · rw [if_neg hn, if_neg]
        · exact .inr ⟨rfl, rfl⟩
        · rintro ⟨-, -, -, m, hm, hm'⟩
          cases hm
          exact hn hm'
  · rw [if_neg hl, if_neg fun h => hl ⟨h.1, h.2.1, h.2.2.1⟩]
    exact .inr ⟨rfl, rfl⟩

theorem late_cases (device identity : String) (now : Nat) (invites : Dict String Message)
    (sid : String) (a : Attempt) : late device identity now invites sid a = (a, []) ∨
    a.outcome = none ∧ device ∉ a.legs ∧ late device identity now invites sid a = a.join now device sid := by
  unfold late
  split
  case isTrue h => exact .inr ⟨h.2.1, h.2.2.1, rfl⟩
  case isFalse => exact .inl rfl

/-- A queued invite of the session. -/
def Asks (sid : String) (h : Held) : Prop := h.msg.type = .invite ∧ h.msg.id = sid

theorem flushTo_other {device : String} {s : Relay} {h : Held} (hh : ¬ Asks sid h) :
    (flushTo device s h).1.attempts.lookup sid = s.attempts.lookup sid := by
  unfold flushTo
  split
  case h_2 => rfl
  case h_1 ht =>
    have hne : sid ≠ h.msg.id := fun he => hh ⟨ht, he.symm⟩
    split
    case h_1 => rw [lookup_put, if_neg hne]
    case h_2 => exact (lookup_put ..).trans (if_neg hne)

theorem flush_other {device : String} {l : List Held} (hl : ∀ h ∈ l, ¬ Asks sid h) (s : Relay) :
    (foldEmit (flushTo device) s l).1.attempts.lookup sid = s.attempts.lookup sid := by
  refine foldEmit_invariant (P := fun t => t.attempts.lookup sid = s.attempts.lookup sid)
    (l := l) ?_ s rfl
  intro h hh t ht
  exact (flushTo_other (hl h hh)).trans ht

/-- The attempt of a session with no attempt before the flush. -/
def Starts (sid : String) (v : Option Attempt) : Prop := ∀ a, v = some a → a.Fresh sid ∧ a.Waiting

theorem flushTo_starts {device : String} {s : Relay} {h : Held} (hh : Asks sid h)
    (hs : Starts sid (s.attempts.lookup sid)) :
    ∃ a, (flushTo device s h).1.attempts.lookup sid = some a ∧ a.Fresh sid ∧ a.Waiting := by
  obtain ⟨ht, rfl⟩ := hh
  unfold flushTo
  rw [ht]
  dsimp only
  cases ha : s.attempts.lookup h.msg.id with
  | none =>
    refine ⟨_, (lookup_put ..).trans (if_pos rfl), ?_⟩
    exact ⟨Attempt.fresh_join_new .., Attempt.waiting_setLeg ..⟩
  | some a =>
    refine ⟨_, (lookup_put ..).trans (if_pos rfl), ?_⟩
    exact ⟨(hs a ha).1.join .., Attempt.waiting_setLeg ..⟩

theorem flush_starts {device : String} {l : List Held} (hl : ∃ h ∈ l, Asks sid h) :
    ∀ s : Relay, Starts sid (s.attempts.lookup sid) →
      ∃ a, (foldEmit (flushTo device) s l).1.attempts.lookup sid = some a ∧ a.Fresh sid ∧ a.Waiting := by
  induction l with
  | nil =>
    obtain ⟨h, hh, -⟩ := hl
    cases hh
  | cons h l ih =>
    intro s hs
    rw [foldEmit_cons]
    have hnext : Starts sid ((flushTo device s h).1.attempts.lookup sid) := by
      by_cases hh : Asks sid h
      · obtain ⟨a, ha, hf⟩ := flushTo_starts hh hs
        intro b hb
        rw [ha] at hb
        exact Option.some.inj hb ▸ hf
      · rw [flushTo_other hh]
        exact hs
    by_cases hlater : ∃ g ∈ l, Asks sid g
    · exact ih hlater _ hnext
    · obtain ⟨g, hg, hasks⟩ := hl
      rcases List.mem_cons.mp hg with rfl | hg
      · obtain ⟨a, ha, hf⟩ := flushTo_starts hasks hs
        refine ⟨a, (flush_other ?_ _).trans ha, hf⟩
        exact fun k hk hasks => hlater ⟨k, hk, hasks⟩
      · exact absurd ⟨g, hg, hasks⟩ hlater

/-- Everything the relay holds an attempt for is sound. -/
def Tracked (r : Relay) : Prop := ∀ sid a, r.attempts.lookup sid = some a → a.Sound sid

theorem bind_quiet (r : Relay) (device identity : String) :
    Quiet sid (.bind device identity) (r.bind device identity).2 := by
  refine ⟨signals_eq_nil ?_, rfl⟩
  obtain ⟨late, ho, hl⟩ := bind_out r device identity
  rw [ho]
  intro e he
  rcases List.mem_append.mp he with he | he
  · obtain ⟨h, -, rfl⟩ := List.mem_map.mp he
    exact id
  · obtain ⟨s, rfl⟩ := hl e he
    exact id

theorem bind_slot (hr : r.Stored) (ht : r.Tracked) (device identity : String) :
    Slot sid r (.bind device identity) (r.bind device identity) := by
  have hquiet : Quiet sid (.bind device identity) (r.bind device identity).2 := bind_quiet r device identity
  have hinbox := (bind_inbox r device identity).1
  have hpend : (r.bind device identity).1.pending sid ⊆ r.pending sid := by
    apply pending_of_sublist
    intro k
    rw [heldFor_flushed hinbox]
    split
    case isTrue => exact List.nil_sublist _
    case isFalse => exact List.Sublist.refl _
  -- the attempts after the flush, and after the late binds
  have hattempts : (r.bind device identity).1.attempts.lookup sid = _ :=
    ((turns_lateBind device identity).loop _).1 sid
  generalize hr₁ : ({ r with
      bindings := r.bindings.insert identity (insert device (r.boundFor identity))
      devices := r.devices.insert device identity
      lastBound := (r.lastBound.erase identity).erase device
      inbox := (r.inbox.erase identity).erase device } : Relay) = r₁ at hattempts
  have hsame : r₁.attempts = r.attempts := by rw [← hr₁]
  by_cases hasks : ∃ h ∈ r.flushed device identity, Asks sid h
  · obtain ⟨h, hh, hin⟩ := hasks
    have hdest : h.dest = device ∨ h.dest = identity := by
      rcases mem_flushed.mp hh with hh | hh
      · exact .inr (hr.dest _ h hh)
      · exact .inl (hr.dest _ h hh)
    have hheld : h ∈ r.heldFor h.dest := by
      rcases mem_flushed.mp hh with hh | hh
      all_goals
        rw [hr.dest _ h hh]
        exact hh
    refine .flushed nofun hquiet (h := h) ⟨hheld, hin⟩ ?_ ?_ hpend
    · rintro ⟨hout, -⟩
      rw [heldFor_flushed hinbox, if_pos hdest] at hout
      cases hout
    · intro hnone
      have hstarts : Starts sid (r₁.attempts.lookup sid) := by
        rw [hsame, hnone]
        exact nofun
      obtain ⟨a, ha, hf⟩ := @flush_starts _ device _ ⟨h, hh, hin⟩ r₁ hstarts
      rw [ha, Option.map_some] at hattempts
      refine ⟨_, hattempts, ?_⟩
      rcases late_cases device identity _ _ sid a with he | ⟨-, -, he⟩
      · rw [he]
        exact hf
      · rw [he]
        exact ⟨hf.1.join .., Attempt.waiting_setLeg ..⟩
  · have hflush := @flush_other sid device _ (fun h hh hs => hasks ⟨h, hh, hs⟩) r₁
    rw [hflush, hsame] at hattempts
    cases ha : r.attempts.lookup sid with
    | none =>
      rw [ha] at hattempts
      exact .same nofun hquiet (hattempts.trans ha.symm) hpend
    | some a =>
      rw [ha, Option.map_some] at hattempts
      refine .moved nofun ha ?_ (.inl hattempts) hpend
      rw [hquiet.1]
      rcases late_cases device identity _ _ sid a with he | ⟨-, hnew, he⟩
      · rw [he]
        exact (ht sid a ha).went.stays id
      · rw [he]
        exact Attempt.join_moved (ht sid a ha) hnew ..

/-! ## The clock -/

/-- What the clock makes of one attempt. -/
def silence : Turn := fun now invites sid a =>
  if ∃ t, (invites.lookup sid).bind (·.expiresAt) = some t ∧ t ≤ now then a.expireSilent
  else (a, [])

theorem turns_expireSilentLeg : Turns expireSilentLeg silence := by
  intro s k
  unfold expireSilentLeg silence
  refine ⟨fun ha => by rw [ha], ?_⟩
  intro a ha
  rw [ha]
  cases he : (s.invites.lookup k).bind (·.expiresAt) with
  | none => exact .inr ⟨rfl, if_neg (by simp)⟩
  | some t =>
    dsimp only
    by_cases hn : s.now < t
    · rw [if_pos hn, if_neg]
      · exact .inr ⟨rfl, rfl⟩
      · rintro ⟨u, hu, hle⟩
        obtain rfl := Option.some.inj hu
        omega
    · rw [if_neg hn, if_pos ⟨t, rfl, Nat.le_of_not_lt hn⟩]
      exact .inl rfl

theorem silence_owner {now : Nat} {invites : Dict String Message} {k j : String} {a : Attempt} :
    ∀ e ∈ (silence now invites j a).2, e.Signals k → a.session = k := by
  unfold silence
  split
  case isTrue => exact Attempt.expireSilent_owner
  case isFalse => exact nofun

theorem silence_cases (now : Nat) (invites : Dict String Message) (a : Attempt) :
    (silence now invites sid a).1 = a ∨ (silence now invites sid a).1 = a.expireSilent.1 := by
  unfold silence
  split
  case isTrue => exact .inr rfl
  case isFalse => exact .inl rfl

theorem silence_moved {now : Nat} {invites : Dict String Message} {a : Attempt} (ha : a.Sound sid) :
    a.Moved (signals sid (silence now invites sid a).2) [] (silence now invites sid a).1 := by
  unfold silence
  split
  case isFalse => exact ha.went.stays id
  case isTrue =>
    rw [Attempt.expireSilent_signals ha.session]
    exact Attempt.expireSilent_moved ha

theorem advance_slot (ht : r.Tracked) (seconds : Nat) :
    Slot sid r (.advance seconds) (r.advance seconds) := by
  have hpend : (r.advance seconds).1.pending sid ⊆ r.pending sid := by
    rcases (advance_shift r seconds).heldFor with ⟨-, hsub⟩ | ⟨m, dest, hi, -⟩
    · exact pending_of_sublist hsub
    · cases hi
  unfold advance at hpend ⊢
  dsimp only at hpend ⊢
  obtain ⟨hrest, -, hout⟩ := expireQueues_spec { r with now := r.now + seconds }
  generalize ({ r with now := r.now + seconds } : Relay).expireQueues = q at hrest hout hpend ⊢
  have hattempts : q.1.attempts = r.attempts := by
    have h : q.1.empty.attempts = r.empty.attempts := by rw [hrest]; rfl
    exact h
  have hq : Routing.signals sid q.2 = [] := by
    apply signals_eq_nil
    rw [hout]
    intro e he
    obtain ⟨dest, -, he⟩ := List.mem_flatMap.mp he
    obtain ⟨h, -, rfl⟩ := List.mem_map.mp he
    exact id
  have hloop := (turns_expireSilentLeg.loop q.1).1 sid
  have hsignals := turns_expireSilentLeg.signals q.1 sid ?_
  · have hforget := (forgets_forget q.1.expireSilentLegs.1).attempts sid
    change q.1.expireSilentLegs.1.attempts.lookup sid = _ at hloop
    change Routing.signals sid q.1.expireSilentLegs.2 = _ at hsignals
    rw [hattempts] at hloop hsignals
    rw [hloop] at hforget
    cases ha : r.attempts.lookup sid with
    | none =>
      rw [ha] at hsignals hforget
      refine .same nofun ⟨?_, rfl⟩ ?_ hpend
      · rw [signals_append, hq, hsignals]
        rfl
      · rw [ha]
        exact hforget.elim id id
    | some a =>
      rw [ha] at hsignals hforget
      refine .moved nofun ha ?_ (hforget.imp_right fun h => ⟨h, silence_cases ..⟩) hpend
      rw [signals_append, hq, hsignals]
      exact silence_moved (ht sid a ha)
  · intro j a ha e he hs
    rw [hattempts] at ha
    exact (ht j a ha).session.symm.trans (silence_owner e he hs)

theorem legExpired_slot (ht : r.Tracked) (session leg : String) :
    Slot sid r (.legExpired session leg) (r.legExpired session leg) := by
  unfold legExpired
  cases ha : r.attempts.lookup session with
  | none => exact .same nofun ⟨rfl, rfl⟩ rfl (pending_of_inbox rfl)
  | some a =>
    dsimp only
    split
    case isFalse => exact .same nofun ⟨rfl, rfl⟩ rfl (pending_of_inbox rfl)
    case isTrue hl =>
      have hsession := (ht session a ha).session
      by_cases hs : sid = session
      · subst hs
        refine .moved nofun ha ?_ (.inl ((lookup_put ..).trans (if_pos rfl)))
          (pending_of_inbox rfl)
        have hm := Attempt.legExpired_moved (ht sid a ha) hl
        rw [← Attempt.checkComplete_signals (a := a.setLeg leg .expired) hsession] at hm
        exact hm
      · refine .same nofun ⟨signals_eq_nil ?_, rfl⟩ ((lookup_put ..).trans (if_neg hs))
          (pending_of_inbox rfl)
        intro e he hsig
        exact hs ((Attempt.checkComplete_owner e he hsig).symm.trans hsession)

/-! ## Invites -/

theorem invite_slot {session sender dest : String} {legs : List String}
    {r₀ : Relay} {i : Event} (hl : HasLegs i → legs ≠ []) (hi : i.invited = some session) (htook : took sid i = fun _ => [])
    (ha : r.attempts = r₀.attempts) (hp : r.inbox = r₀.inbox) :
    Slot sid r₀ i (r.invite session sender dest legs) := by
  have hquiet : Quiet sid i (r.invite session sender dest legs).2 := by
    refine ⟨signals_eq_nil ?_, by rw [htook]⟩
    refine foldEmit_forall (Q := fun e : Emit => ¬ e.Signals sid) (f := Attempt.fork)
      (l := legs) ?_ _
    intro leg _ a e he
    rw [List.mem_singleton.mp he]
    exact id
  have hpend : (r.invite session sender dest legs).1.pending sid ⊆ r₀.pending sid := pending_of_inbox hp
  by_cases hs : sid = session
  · subst hs
    exact .forked hi hquiet ((lookup_put ..).trans (if_pos rfl)) (Attempt.fresh_fork ..)
      (fun h => Attempt.waiting_fork _ _ _ _ (hl h)) hpend
  · refine .same ?_ hquiet ((lookup_put ..).trans ?_) hpend
    · rw [hi]
      exact fun h => hs (Option.some.inj h).symm
    · rw [if_neg hs, ha]

/-! ## Received messages -/

variable {m : Message}

theorem invited_recv (ht : m.type ≠ .invite) : (Event.recv m).invited ≠ some sid := by
  show (if m.type = .invite then some m.id else none) ≠ some sid
  rw [if_neg ht]
  exact nofun

theorem quiet_of_type {o : List Emit} (ht : m.type ≠ .reject) (h : ∀ e ∈ o, ¬ e.Signals sid) :
    Quiet sid (.recv m) o :=
  ⟨signals_eq_nil h, took_eq_nil (.inl ht)⟩

theorem introduction_slot (r : Relay) (dest : String) (ht : m.type = .introduction) :
    Slot sid r (.recv m) (r.recvIntroduction dest m) := by
  have hi : (Event.recv m).invited ≠ some sid := invited_recv (by rw [ht]; exact nofun)
  have hreject : m.type ≠ .reject := by
    rw [ht]
    exact nofun
  unfold recvIntroduction
  split
  case h_1 =>
    refine .same hi (quiet_of_type hreject ?_) rfl (pending_of_enqueue_other rfl ?_)
    · intro e he
      rw [List.mem_singleton.mp he]
      exact id
    · rw [ht]
      exact fun h => by cases h.1
  case h_2 =>
    refine .same hi (quiet_of_type hreject ?_) rfl (pending_of_inbox rfl)
    intro e he
    obtain ⟨d, -, rfl⟩ := List.mem_map.mp he
    exact id

theorem recvInvite_slot (r : Relay) (dest : String) (ht : m.type = .invite) :
    Slot sid r (.recv m) (r.recvInvite dest m) := by
  have hinvited : (Event.recv m).invited = some m.id := if_pos ht
  have hreject : m.type ≠ .reject := by
    rw [ht]
    exact nofun
  unfold recvInvite
  split
  case h_2 legs hne =>
    refine invite_slot (fun _ => hne) hinvited ?_ rfl rfl
    funext o
    exact took_eq_nil (.inl hreject)
  case h_1 =>
    by_cases hs : m.id = sid
    · have hi : (Event.recv m).invited = some sid := hs ▸ hinvited
      split
      case isTrue =>
        refine .asked hi (quiet_of_type hreject ?_) rfl (pending_of_enqueue rfl)
        intro e he
        rw [List.mem_singleton.mp he]
        exact id
      case isFalse =>
        refine .asked (h := r.envelope dest m) hi (quiet_of_type hreject ?_) rfl
          ((pending_of_inbox rfl).trans (Set.subset_insert _ _))
        intro e he
        rw [List.mem_singleton.mp he]
        exact id
    · have hi : (Event.recv m).invited ≠ some sid := by
        rw [hinvited]
        exact fun h => hs (Option.some.inj h)
      split
      case isTrue =>
        refine .same hi (quiet_of_type hreject ?_) rfl
          (pending_of_enqueue_other rfl fun h => hs h.2)
        intro e he
        rw [List.mem_singleton.mp he]
        exact id
      case isFalse =>
        refine .same hi (quiet_of_type hreject ?_) rfl (pending_of_inbox rfl)
        intro e he
        rw [List.mem_singleton.mp he]
        exact id

theorem Routed.quiet {o : Relay × List Emit} (h : Routed r m o) : Quiet sid (.recv m) o.2 := by
  have hnone : ∀ e ∈ o.2, ¬ e.Signals sid := by
    cases h with
    | delivered =>
      intro e he
      obtain ⟨d, -, rfl⟩ := List.mem_map.mp he
      exact id
    | queued =>
      intro e he
      rw [List.mem_singleton.mp he]
      exact id
    | unknown =>
      intro e he
      rw [List.mem_singleton.mp he]
      exact id
  have hsome : ∃ e, e ∈ o.2 := by
    cases h with
    | @delivered legs hne _ =>
      obtain ⟨d, hd⟩ := List.exists_mem_of_ne_nil legs hne
      exact ⟨_, List.mem_map_of_mem hd⟩
    | queued => exact ⟨_, List.mem_singleton_self _⟩
    | unknown => exact ⟨_, List.mem_singleton_self _⟩
  obtain ⟨e, he⟩ := hsome
  exact ⟨signals_eq_nil hnone, took_eq_nil (.inr (.inr ⟨e, he, hnone e he⟩))⟩

theorem Routed.attempts {o : Relay × List Emit} (h : Routed r m o) : o.1.attempts = r.attempts := by
  cases h <;> rfl

theorem Routed.pending {o : Relay × List Emit} (h : Routed r m o) (ht : m.type ≠ .invite) :
    o.1.pending sid ⊆ r.pending sid := by
  cases h with
  | delivered => exact pending_of_inbox rfl
  | queued => exact pending_of_enqueue_other rfl fun h => ht h.1
  | unknown => exact pending_of_inbox rfl

theorem took_fromLeg {a : Attempt} (ha : a.Sound sid) (last : Nat) (st : LegState)
    (hs : m.session = some sid) :
    took sid (.recv m) ({ a with last := last }.fromLeg m st).2 = Attempt.takes m st := by
  unfold Attempt.takes
  by_cases ht : m.type = .reject
  · by_cases hst : st = .delivered
    · rw [if_pos ⟨ht, hst⟩]
      apply if_pos
      refine ⟨ht, hs, ?_⟩
      let rejected : Attempt := { a.setLeg m.sender .rejected with
          last := last
          heard := insert m.sender a.heard
          reasons := Attempt.setItem a.reasons m.sender m.reason }
      have hsession : rejected.session = sid := ha.session
      have hsig := Attempt.checkComplete_signals hsession
      intro e he
      unfold Attempt.fromLeg at he
      rw [ht] at he
      dsimp only at he
      rw [if_neg (not_not.mpr hst)] at he
      have hmem := hsig.symm ▸ he
      exact of_decide_eq_true (List.mem_filter.mp hmem).2
    · rw [if_neg fun h => hst h.2]
      apply took_eq_nil
      refine .inr (.inr ⟨.drop "leg-terminated", ?_, id⟩)
      unfold Attempt.fromLeg
      rw [ht]
      dsimp only
      rw [if_pos hst]
      exact List.mem_singleton_self _
  · rw [if_neg fun h => ht h.1]
    exact took_eq_nil (.inl ht)

theorem put_slot {s : String} {a : Attempt} {o : Attempt × List Emit} {i : Event}
    (hi : i.invited ≠ some sid) (ha : r.attempts.lookup s = some a)
    (hm : sid = s → a.Moved (signals sid o.2) (took sid i o.2) o.1)
    (hq : sid ≠ s → Quiet sid i o.2) : Slot sid r i (r.put s o) := by
  by_cases hs : sid = s
  · subst hs
    exact .moved hi ha (hm rfl) (.inl ((lookup_put ..).trans (if_pos rfl))) (pending_of_inbox rfl)
  · exact .same hi (hq hs) ((lookup_put ..).trans (if_neg hs)) (pending_of_inbox rfl)

theorem recv_slot (ht : r.Tracked) {o : Relay × List Emit} (h : r.recv m = .ok o) :
    Slot sid r (.recv m) o := by
  cases recv_outcome h with
  | introduced hi hd => exact introduction_slot r _ hi
  | invited hi hd => exact recvInvite_slot r _ hi
  | routed hi h =>
    exact .same (invited_recv hi.2) h.quiet (by rw [h.attempts]) (h.pending hi.2)
  | withdrawn hc hd h =>
    have hw := cancelQueued_withdraws h
    refine .same (invited_recv (by rw [hc]; exact nofun))
      (quiet_of_type (by rw [hc]; exact nofun) ?_) (by rw [hw.attempts]) ?_
    · rw [hw.out]
      intro e he
      rw [List.mem_singleton.mp he]
      exact id
    · apply pending_of_sublist
      intro k
      rw [hw.held]
      split
      case isTrue hk =>
        rw [hk]
        exact List.filter_sublist
      case isFalse => exact List.Sublist.refl _
  | @strayed s a _ hc hs ha h =>
    have hinvited : (Event.recv m).invited ≠ some sid := invited_recv (by rw [hc]; exact nofun)
    have hpend : o.1.pending sid ⊆ r.pending sid :=
      (h.pending (by rw [hc]; exact nofun)).trans (pending_of_inbox rfl)
    have hlook := lookup_put r s sid ({ a with last := r.now }, [])
    rw [← h.attempts] at hlook
    by_cases hsid : sid = s
    · subst hsid
      rw [if_pos rfl] at hlook
      refine .moved hinvited ha ?_ (.inl hlook) hpend
      rw [h.quiet.1, h.quiet.2]
      exact ((ht sid a ha).went.touched r.now a.heard).stays id
    · rw [if_neg hsid] at hlook
      exact .same hinvited h.quiet hlook hpend
  | @cancelled s a hc hs ha hi =>
    have hreject : m.type ≠ .reject := by
      rw [hc]
      exact nofun
    refine put_slot (invited_recv (by rw [hc]; exact nofun)) ha ?_ ?_
    · rintro rfl
      rw [Attempt.cancel_signals, took_eq_nil (.inl hreject)]
      exact Attempt.cancel_moved (ht sid a ha) ..
    · exact fun _ => ⟨Attempt.cancel_signals .., took_eq_nil (.inl hreject)⟩
  | @leg s a st hl hr hs ha hleg =>
    refine put_slot (invited_recv ?_) ha ?_ ?_
    · intro he
      rw [he] at hl
      simp at hl
    · rintro rfl
      rw [took_fromLeg (ht sid a ha) _ _ hs]
      exact Attempt.fromLeg_moved (ht sid a ha) _ hleg
    · intro hne
      refine ⟨signals_eq_nil ?_, took_eq_nil (.inr (.inl ?_))⟩
      · intro e he hsig
        exact hne ((Attempt.fromLeg_owner e he hsig).symm.trans (ht s a ha).session)
      · rw [hs]
        exact fun h => hne (Option.some.inj h).symm

theorem step_slot (hr : r.Stored) (ht : r.Tracked) {i : Event} {o : Relay × List Emit} (h : r.step i = .ok o) : Slot sid r i o := by
  cases i with
  | advance seconds =>
    obtain rfl := Except.ok.inj h
    exact advance_slot ht seconds
  | invite session sender dest legs =>
    obtain rfl := Except.ok.inj h
    exact invite_slot id rfl rfl rfl rfl
  | bind device identity =>
    obtain rfl := Except.ok.inj h
    exact bind_slot hr ht device identity
  | unbind device identity =>
    obtain rfl := Except.ok.inj h
    obtain ⟨b, l, h⟩ := unbind_rest r device identity
    exact .same nofun ⟨rfl, rfl⟩ (by rw [h]) (pending_of_inbox (by rw [h]))
  | legExpired session leg =>
    obtain rfl := Except.ok.inj h
    exact legExpired_slot ht session leg
  | recv m => exact recv_slot ht h

/-! ## One session along a run -/

abbrev Trace := TSys.Trace Event (List Emit)

/-- The signals for one session along a trace. -/
def signalled (sid : String) (tr : Trace) : List Emit := tr.flatMap fun e => Routing.signals sid e.2

/-- The rejects taken for one session along a trace. -/
def taken (sid : String) (tr : Trace) : List (String × String) := tr.flatMap fun e => took sid e.1 e.2

/-- The session was invited to. -/
def Asked (sid : String) (tr : Trace) : Prop := ∃ e ∈ tr, e.1.invited = some sid

/-- Each session id is invited once. -/
def InvitedOnce (tr : Trace) (_ : Relay) (i : Event) : Prop :=
  i.invited = none ∨ ∀ e ∈ tr, e.1.invited ≠ i.invited

/-- Each session id is invited once, to at least one leg. -/
def Once (tr : Trace) (r : Relay) (i : Event) : Prop := InvitedOnce tr r i ∧ HasLegs i

instance : DecidablePred HasLegs
  | .invite _ _ _ legs => inferInstanceAs (Decidable (legs ≠ []))
  | .advance _ | .bind .. | .unbind .. | .legExpired .. | .recv _ => isTrue trivial

instance (tr : Trace) (r : Relay) (i : Event) : Decidable (InvitedOnce tr r i) :=
  inferInstanceAs (Decidable (_ ∨ _))

instance (tr : Trace) (r : Relay) (i : Event) : Decidable (Once tr r i) := inferInstanceAs (Decidable (_ ∧ _))

theorem InvitedOnce.not_asked {tr : Trace} {i : Event} (h : InvitedOnce tr r i)
    (hi : i.invited = some sid) : ¬ Asked sid tr := by
  rintro ⟨e, he, hasked⟩
  rcases h with hn | hne
  · rw [hn] at hi
    cases hi
  · exact hne e he (hasked.trans hi.symm)

@[simp] theorem signalled_snoc (sid : String) (tr : Trace) (i : Event) (o : List Emit) :
    signalled sid (tr ++ [(i, o)]) = signalled sid tr ++ Routing.signals sid o := by
  simp [signalled]

@[simp] theorem taken_snoc (sid : String) (tr : Trace) (i : Event) (o : List Emit) :
    taken sid (tr ++ [(i, o)]) = taken sid tr ++ took sid i o := by
  simp [taken]

theorem Asked.snoc {tr : Trace} (h : Asked sid tr) (e : Event × List Emit) : Asked sid (tr ++ [e]) := by
  obtain ⟨e', he, hi⟩ := h
  exact ⟨e', List.mem_append_left _ he, hi⟩

theorem asked_snoc_iff {tr : Trace} {i : Event} {o : List Emit} (hi : i.invited ≠ some sid) :
    Asked sid (tr ++ [(i, o)]) ↔ Asked sid tr := by
  refine ⟨?_, fun h => h.snoc _⟩
  rintro ⟨e, he, hasked⟩
  rcases List.mem_append.mp he with he | he
  · exact ⟨e, he, hasked⟩
  · rw [List.mem_singleton.mp he] at hasked
    exact absurd hasked hi

theorem asked_of_invited {tr : Trace} {i : Event} {o : List Emit} (hi : i.invited = some sid) :
    Asked sid (tr ++ [(i, o)]) :=
  ⟨(i, o), List.mem_append_right _ (List.mem_singleton_self _), hi⟩

inductive Phase (sid : String) (tr : Trace) (r : Relay) : Prop
  | idle (ha : r.attempts.lookup sid = none) (hi : ¬ Asked sid tr) (hp : r.pending sid = ∅)
      (hs : signalled sid tr = []) (ht : taken sid tr = [])
  /-- Its invite may be in the inbox. -/
  | queued {h : Held} (ha : r.attempts.lookup sid = none) (hi : Asked sid tr)
      (hp : r.pending sid ⊆ {h}) (hs : signalled sid tr = []) (ht : taken sid tr = [])
  | live {a : Attempt} (ha : r.attempts.lookup sid = some a) (hi : Asked sid tr)
      (hp : r.pending sid = ∅) (hsound : a.Sound sid) (ht : a.reasons = taken sid tr)
      (hs : signalled sid tr ≠ [] → a.outcome ≠ none) (hone : (signalled sid tr).length ≤ 1)
  | closed (ha : r.attempts.lookup sid = none) (hi : Asked sid tr) (hp : r.pending sid = ∅)
      (hone : (signalled sid tr).length ≤ 1)

variable {tr : Trace} {i : Event} {o : Relay × List Emit}

theorem Phase.same (h : Phase sid tr r) (hi : i.invited ≠ some sid) (hq : Quiet sid i o.2)
    (ha : o.1.attempts.lookup sid = r.attempts.lookup sid)
    (hp : o.1.pending sid ⊆ r.pending sid) : Phase sid (tr ++ [(i, o.2)]) o.1 := by
  have hsig : signalled sid (tr ++ [(i, o.2)]) = signalled sid tr := by
    rw [signalled_snoc, hq.1, List.append_nil]
  have htake : taken sid (tr ++ [(i, o.2)]) = taken sid tr := by
    rw [taken_snoc, hq.2, List.append_nil]
  have hask : Asked sid (tr ++ [(i, o.2)]) ↔ Asked sid tr := asked_snoc_iff hi
  cases h with
  | idle hl hno hpend hs ht =>
    refine .idle (ha.trans hl) (fun h => hno (hask.mp h)) ?_ (hsig.trans hs) (htake.trans ht)
    exact Set.subset_empty_iff.mp (hp.trans hpend.subset)
  | queued hl hyes hpend hs ht =>
    exact .queued (ha.trans hl) (hask.mpr hyes) (hp.trans hpend) (hsig.trans hs)
      (htake.trans ht)
  | live hl hyes hpend hsound ht hs hone =>
    refine .live (ha.trans hl) (hask.mpr hyes) ?_ hsound (ht.trans htake.symm) ?_ ?_
    · exact Set.subset_empty_iff.mp (hp.trans hpend.subset)
    · rwa [hsig]
    · rwa [hsig]
  | closed hl hyes hpend hone =>
    refine .closed (ha.trans hl) (hask.mpr hyes) ?_ (hsig ▸ hone)
    exact Set.subset_empty_iff.mp (hp.trans hpend.subset)

theorem Phase.fresh (h : Phase sid tr r) (hi : ¬ Asked sid tr) :
    r.attempts.lookup sid = none ∧ r.pending sid = ∅ ∧ signalled sid tr = [] ∧ taken sid tr = [] := by
  cases h with
  | idle hl _ hp hs ht => exact ⟨hl, hp, hs, ht⟩
  | queued _ hyes => exact absurd hyes hi
  | live _ hyes => exact absurd hyes hi
  | closed _ hyes => exact absurd hyes hi

theorem Attempt.Fresh.phase {a : Attempt} (hf : a.Fresh sid)
    (ha : o.1.attempts.lookup sid = some a) (hi : Asked sid (tr ++ [(i, o.2)]))
    (hp : o.1.pending sid = ∅) (hq : Quiet sid i o.2) (hs : signalled sid tr = [])
    (ht : taken sid tr = []) : Phase sid (tr ++ [(i, o.2)]) o.1 := by
  have hsig : signalled sid (tr ++ [(i, o.2)]) = [] := by
    rw [signalled_snoc, hq.1, hs, List.append_nil]
  refine .live ha hi hp hf.sound ?_ ?_ ?_
  · rw [taken_snoc, hq.2, ht, hf.reasons]
    rfl
  · exact fun hne => absurd hsig hne
  · rw [hsig]
    exact Nat.zero_le 1

theorem Moved.phase {a b : Attempt}
    (hm : a.Moved (Routing.signals sid o.2) (took sid i o.2) b) (hsound : a.Sound sid)
    (hi : Asked sid (tr ++ [(i, o.2)])) (hp : o.1.pending sid = ∅)
    (ht : a.reasons = taken sid tr) (hs : signalled sid tr ≠ [] → a.outcome ≠ none)
    (hone : (signalled sid tr).length ≤ 1)
    (hb : o.1.attempts.lookup sid = some b ∨ o.1.attempts.lookup sid = none) :
    Phase sid (tr ++ [(i, o.2)]) o.1 := by
  -- what is signalled now was not signalled before
  have hlen : (signalled sid (tr ++ [(i, o.2)])).length ≤ 1 := by
    rw [signalled_snoc]
    by_cases hnow : Routing.signals sid o.2 = []
    · rw [hnow, List.append_nil]
      exact hone
    · have hbefore : signalled sid tr = [] := by
        by_contra hne
        exact hs hne (hm.quiet hnow).1
      rw [hbefore, List.nil_append]
      exact hm.signal.length_le
  have hout : signalled sid (tr ++ [(i, o.2)]) ≠ [] → b.outcome ≠ none := by
    rw [signalled_snoc]
    intro hne hnone
    have ha : a.outcome = none := by
      cases ha : a.outcome with
      | none => rfl
      | some x =>
        rw [hm.keeps x ha] at hnone
        cases hnone
    have hbefore : signalled sid tr = [] := by
      by_contra hne
      exact hs hne ha
    rw [hbefore, List.nil_append] at hne
    exact Attempt.outcome_of_signal hm.signal hne hnone
  rcases hb with hb | hb
  · refine .live hb hi hp (hm.sound hsound) ?_ hout hlen
    rw [hm.reasons, taken_snoc, ht]
  · exact .closed hb hi hp hlen

theorem Phase.step (h : Phase sid tr r) (hc : InvitedOnce tr r i) (hslot : Slot sid r i o) :
    Phase sid (tr ++ [(i, o.2)]) o.1 := by
  cases hslot with
  | same hi hq ha hp => exact h.same hi hq ha hp
  | @asked g hi hq ha hp =>
    obtain ⟨hl, hpend, hs, ht⟩ := h.fresh (hc.not_asked hi)
    refine .queued (h := g) (ha.trans hl) (asked_of_invited hi) ?_ ?_ ?_
    · rw [hpend] at hp
      simpa using hp
    · rw [signalled_snoc, hs, hq.1]
      rfl
    · rw [taken_snoc, ht, hq.2]
      rfl
  | forked hi hq ha hf _ hp =>
    obtain ⟨hl, hpend, hs, ht⟩ := h.fresh (hc.not_asked hi)
    exact Attempt.Fresh.phase hf ha (asked_of_invited hi)
      (Set.subset_empty_iff.mp (hp.trans hpend.subset)) hq hs ht
  | flushed hi hq hin hout ha hp =>
    cases h with
    | idle _ _ hpend =>
      rw [hpend] at hin
      cases hin
    | @queued g hl hyes hpend hs ht =>
      obtain ⟨a, ha, hf, -⟩ := ha hl
      refine Attempt.Fresh.phase hf ha (hyes.snoc _) ?_ hq hs ht
      -- the envelope that was flushed is the only one there was
      apply Set.eq_empty_of_forall_notMem
      intro k hk
      have hkg := hpend (hp hk)
      have hgg := hpend hin
      rw [Set.mem_singleton_iff] at hkg hgg
      rw [hkg, ← hgg] at hk
      exact hout hk
    | live _ _ hpend =>
      rw [hpend] at hin
      cases hin
    | closed _ _ hpend =>
      rw [hpend] at hin
      cases hin
  | moved hi ha hm hb hp =>
    cases h with
    | idle hl =>
      rw [hl] at ha
      cases ha
    | queued hl =>
      rw [hl] at ha
      cases ha
    | closed hl =>
      rw [hl] at ha
      cases ha
    | live hl hyes hpend hsound ht hs hone =>
      rw [hl] at ha
      obtain rfl := Option.some.inj ha
      exact Moved.phase hm hsound (hyes.snoc _)
        (Set.subset_empty_iff.mp (hp.trans hpend.subset)) ht hs hone
        (hb.imp_right fun h => h.1)

theorem tracked_of_phases (h : ∀ sid, Phase sid tr r) : r.Tracked := by
  intro sid a ha
  cases h sid with
  | idle hl =>
    rw [hl] at ha
    cases ha
  | queued hl =>
    rw [hl] at ha
    cases ha
  | closed hl =>
    rw [hl] at ha
    cases ha
  | live hl hyes hpend hsound =>
    rw [hl] at ha
    exact Option.some.inj ha ▸ hsound

/-- What holds after every step of a run that invites once. -/
structure Standing (tr : Trace) (r : Relay) : Prop where
  stored : r.Stored
  phase : ∀ sid, Phase sid tr r

theorem Standing.slot (h : Standing tr r) (hs : r.step i = .ok o) : Slot sid r i o :=
  step_slot h.stored (tracked_of_phases h.phase) hs

theorem standing_of_run {ctx : Context} (h : machine.RunWhere InvitedOnce (.new ctx) tr r) :
    Standing tr r := by
  refine TSys.RunWhere.invariant (P := Standing) ?_ ?_ h
  · refine ⟨stored_new ctx, fun sid => .idle rfl ?_ ?_ rfl rfl⟩
    · rintro ⟨e, he, -⟩
      cases he
    · apply Set.eq_empty_of_forall_notMem
      rintro h ⟨hh, -⟩
      have hnil : (Relay.new ctx).heldFor h.dest = [] := rfl
      rw [hnil] at hh
      cases hh
  · intro tr r i o r' _ hst hc hs
    exact ⟨hst.stored.shift (step_shift hs), fun sid => (hst.phase sid).step hc (hst.slot hs)⟩

theorem Standing.signals (h : Standing tr r) (hs : r.step i = .ok o) {e : Emit}
    (he : e ∈ o.2) (hsig : e.Signals sid) :
    ∃ a b, r.attempts.lookup sid = some a ∧ a.Sound sid ∧ a.reasons = taken sid tr ∧
      a.Moved [e] (took sid i o.2) b ∧
      (o.1.attempts.lookup sid = some b ∨
        o.1.attempts.lookup sid = none ∧ (b = a ∨ b = a.expireSilent.1)) := by
  have hmem : e ∈ Routing.signals sid o.2 := List.mem_filter.mpr ⟨he, decide_eq_true hsig⟩
  have hloud : ¬ Quiet sid i o.2 := by
    rintro ⟨hq, -⟩
    rw [hq] at hmem
    cases hmem
  cases h.slot hs with
  | same _ hq => exact absurd hq hloud
  | asked _ hq => exact absurd hq hloud
  | forked _ hq => exact absurd hq hloud
  | flushed _ hq => exact absurd hq hloud
  | @moved a b hi ha hm hb hp =>
    have hsingle : Routing.signals sid o.2 = [e] := by
      have hlen := hm.signal.length_le
      generalize Routing.signals sid o.2 = l at hmem hlen
      match l, hmem, hlen with
      | [x], hmem, _ => rw [List.mem_singleton.mp hmem]
    rw [hsingle] at hm
    cases h.phase sid with
    | live hl hyes hpend hsound ht =>
      rw [hl] at ha
      obtain rfl := Option.some.inj ha
      exact ⟨_, b, hl, hsound, ht, hm, hb⟩
    | idle hl =>
      rw [hl] at ha
      cases ha
    | queued hl =>
      rw [hl] at ha
      cases ha
    | closed hl =>
      rw [hl] at ha
      cases ha

/-- What is settled of an attempt stays. -/
structure Kept (a b : Attempt) : Prop where
  outcome : ∀ x, a.outcome = some x → b.outcome = some x
  legs : ∀ leg st, st ≠ .delivered → a.legs.lookup leg = some st → b.legs.lookup leg = some st

theorem Kept.refl (a : Attempt) : Kept a a := ⟨fun _ h => h, fun _ _ _ h => h⟩

theorem Kept.moved {a b c : Attempt} {l : List Emit} {t : List (String × String)}
    (h : Kept a b) (hm : b.Moved l t c) : Kept a c :=
  ⟨fun x hx => hm.keeps x (h.outcome x hx), fun leg st hst hl => hm.ends leg st hst (h.legs leg st hst hl)⟩

theorem kept_of_run {ctx : Context} {tr' : Trace} {s : Relay} {a : Attempt}
    (h : machine.RunWhere InvitedOnce (.new ctx) tr r)
    (h' : machine.RunWhere (fun t => InvitedOnce (tr ++ t)) r tr' s)
    (ha : r.attempts.lookup sid = some a) : ∀ b, s.attempts.lookup sid = some b → Kept a b := by
  have hlive : Asked sid tr ∧ r.pending sid = ∅ := by
    cases (standing_of_run h).phase sid with
    | live hl hyes hpend => exact ⟨hyes, hpend⟩
    | idle hl =>
      rw [hl] at ha
      cases ha
    | queued hl =>
      rw [hl] at ha
      cases ha
    | closed hl =>
      rw [hl] at ha
      cases ha
  -- nothing of the session is asked for or held again
  let P (_ : Trace) (s : Relay) : Prop := s.pending sid = ∅ ∧ ∀ b, s.attempts.lookup sid = some b → Kept a b
  refine (TSys.RunWhere.invariant (P := P) ⟨hlive.2, ?_⟩ ?_ h').2
  · intro b hb
    rw [ha] at hb
    exact Option.some.inj hb ▸ Kept.refl a
  · rintro tr' s i o s' hrun ⟨hpend, hkept⟩ hc hs
    have hst := standing_of_run (h.append hrun)
    have hasked : ¬ i.invited = some sid := by
      intro hi
      obtain ⟨e, he, hinv⟩ := hlive.1
      exact hc.not_asked hi ⟨e, List.mem_append_left _ he, hinv⟩
    cases hst.slot hs with
    | asked hi => exact absurd hi hasked
    | forked hi => exact absurd hi hasked
    | flushed _ _ hin =>
      rw [hpend] at hin
      cases hin
    | same _ _ hsame hp =>
      refine ⟨Set.subset_empty_iff.mp (hp.trans hpend.subset), ?_⟩
      intro b hb
      exact hkept b (hsame ▸ hb)
    | @moved b c _ hb hm hc' hp =>
      refine ⟨Set.subset_empty_iff.mp (hp.trans hpend.subset), ?_⟩
      intro d hd
      rcases hc' with hc' | ⟨hc', -⟩
      · rw [hd] at hc'
        obtain rfl := Option.some.inj hc'
        exact (hkept b hb).moved hm
      · rw [hd] at hc'
        cases hc'

theorem waiting_of_run {ctx : Context} (h : machine.RunWhere Once (.new ctx) tr r) :
    ∀ sid a, r.attempts.lookup sid = some a → a.outcome = none → a.Waiting := by
  refine TSys.RunWhere.invariant (P := fun _ r => ∀ sid a, r.attempts.lookup sid = some a →
    a.outcome = none → a.Waiting) ?_ ?_ h
  · intro sid a ha
    cases ha
  · intro tr r i o s hrun hwaits hc hs sid b hb
    have hst := standing_of_run (hrun.mono fun _ _ _ h => h.1)
    have hslot : Slot sid r i (s, o) := hst.slot hs
    cases hslot with
    | same _ _ ha => exact hwaits sid b (ha ▸ hb)
    | asked _ _ ha => exact hwaits sid b (ha ▸ hb)
    | forked _ _ ha _ hw =>
      rw [hb] at ha
      obtain rfl := Option.some.inj ha
      exact fun _ => hw hc.2
    | flushed _ _ hin _ ha =>
      have hnone : r.attempts.lookup sid = none := by
        cases hst.phase sid with
        | idle hl => exact hl
        | queued hl => exact hl
        | closed hl => exact hl
        | live _ _ hpend =>
          rw [hpend] at hin
          cases hin
      obtain ⟨a, ha, -, hw⟩ := ha hnone
      rw [hb] at ha
      obtain rfl := Option.some.inj ha
      exact fun _ => hw
    | moved _ ha hm hb' =>
      rcases hb' with hb' | ⟨hb', -⟩
      · rw [hb] at hb'
        obtain rfl := Option.some.inj hb'
        exact hm.waits (hwaits sid _ ha)
      · rw [hb] at hb'
        cases hb'

/-- An attempt waits for a leg until its outcome is set, and what is settled of
it stays. The outcome is signalled once in a run, by a step that leaves no leg
outstanding and before which the attempt had no outcome and no answer; a
forwarded reject is the best of those the attempt took. -/
theorem completes_once {ctx : Context} (h : machine.RunWhere Once (.new ctx) tr r) (sid : String) :
    (∀ a, r.attempts.lookup sid = some a → a.outcome = none → a.Waiting) ∧
    (signalled sid tr).length ≤ 1 ∧
    (∀ i o s, Once tr r i → machine.step r i o s → ∀ e ∈ o, e.Signals sid →
      ∃ a b, r.attempts.lookup sid = some a ∧ a.outcome = none ∧
        (∀ leg, a.legs.lookup leg ≠ some .answered) ∧ ¬ b.Waiting ∧
        (s.attempts.lookup sid = some b ∨ s.attempts.lookup sid = none ∧ (b = a ∨ b = a.expireSilent.1))) ∧
    (∀ i o s leg reason, Once tr r i → machine.step r i o s → .forwardReject sid leg reason ∈ o →
        (leg, reason) ∈ taken sid (tr ++ [(i, o)]) ∧
        ∀ p ∈ taken sid (tr ++ [(i, o)]), Attempt.rank reason ≤ Attempt.rank p.2) ∧
    ∀ tr' s, machine.RunWhere (fun t => Once (tr ++ t)) r tr' s →
      ∀ a b, r.attempts.lookup sid = some a → s.attempts.lookup sid = some b → Kept a b := by
  have hst := standing_of_run (h.mono fun _ _ _ h => h.1)
  refine ⟨fun a => waiting_of_run h sid a, ?_, ?_, ?_, ?_⟩
  · cases hst.phase sid with
    | idle _ _ _ hs => simp [hs]
    | queued _ _ _ hs => simp [hs]
    | live _ _ _ _ _ _ hone => exact hone
    | closed _ _ _ hone => exact hone
  · intro i o s hc hs e he hsig
    obtain ⟨a, b, ha, hsound, -, hm, hb⟩ := hst.signals hs he hsig
    have hquiet := hm.quiet (List.cons_ne_nil e [])
    exact ⟨a, b, ha, hquiet.1, hsound.unanswered hquiet.1, hquiet.2.1, hb⟩
  · intro i o s leg reason hc hs he
    obtain ⟨a, b, -, -, ht, hm, -⟩ := hst.signals hs he rfl
    have hbest : Attempt.best b.reasons = some (leg, reason) := by
      cases hm.signal with
      | reject _ hr => exact hr
    rw [taken_snoc, ← ht, ← hm.reasons]
    exact Attempt.best_rank hbest
  · intro tr' s h' a b ha hb
    exact kept_of_run (h.mono fun _ _ _ h => h.1) (h'.mono fun _ _ _ h => h.1) ha b hb

theorem completes_once_rejected : ∃ tr r, machine.RunWhere Once (.new {}) tr r ∧
      signalled "s" tr = [.forwardReject "s" "b" "user.declined"] ∧
      (signalled "s" tr).length ≤ 1 := by
  obtain ⟨tr, r, h, hs⟩ := TSys.exec?_runWhere Relay.step Once (fun r => ∃ ctx, r = .new ctx)
    (.new {})
    [.invite "s" "alice" "bob" ["a", "b"],
     .recv { type := .reject, id := "m1", sender := "a", session := some "s", reason := "endpoint.busy" },
     .recv { type := .reject, id := "m2", sender := "b", session := some "s", reason := "user.declined" }]
    (fun r => signalled "s" r.1 = [.forwardReject "s" "b" "user.declined"])
    (by decide) (by decide)
  exact ⟨tr, r, h, of_decide_eq_true hs, (completes_once h "s").2.1⟩

/-- An invite event without legs leaves an attempt that nothing completes; and
the reject of a leg that has expired is screened, so that a worse one is
forwarded. -/
theorem completion_gaps : (∃ tr r, machine.RunWhere InvitedOnce (.new {}) tr r ∧
      ∃ a ∈ r.attempts.lookup "s", a.outcome = none ∧ ¬ a.Waiting) ∧
    ∃ tr r m, machine.RunWhere InvitedOnce (.new {}) tr r ∧
      m.type = .reject ∧ m.session = some "s" ∧ m.sender = "a" ∧
      (∃ o, (Event.recv m, o) ∈ tr) ∧ (∃ a ∈ r.attempts.lookup "s", "a" ∈ a.legs) ∧
      .forwardReject "s" "b" "endpoint.busy" ∈ signalled "s" tr ∧
      Attempt.rank m.reason < Attempt.rank "endpoint.busy" := by
  constructor
  · obtain ⟨tr, r, h, hs⟩ := TSys.exec?_runWhere Relay.step InvitedOnce
      (fun r => ∃ ctx, r = .new ctx) (.new {}) [.invite "s" "alice" "bob" []]
      (fun r => (r.2.attempts.lookup "s").any fun a => a.outcome = none ∧ ¬ a.Waiting)
      (by decide) (by decide)
    obtain ⟨a, ha, hopen⟩ := (Option.any_eq_true _ _).mp hs
    exact ⟨tr, r, h, a, ha, of_decide_eq_true hopen⟩
  · let m : Message :=
      { type := .reject, id := "m1", sender := "a", session := some "s", reason := "user.declined" }
    obtain ⟨tr, r, h, hs⟩ := TSys.exec?_runWhere Relay.step InvitedOnce
      (fun r => ∃ ctx, r = .new ctx) (.new {})
      [.invite "s" "alice" "bob" ["a", "b"], .legExpired "s" "a", .recv m,
       .recv { type := .reject, id := "m2", sender := "b", session := some "s", reason := "endpoint.busy" }]
      (fun r => (.recv m, [.drop "leg-terminated"]) ∈ r.1 ∧
        (r.2.attempts.lookup "s").any (fun a => "a" ∈ a.legs) ∧
        .forwardReject "s" "b" "endpoint.busy" ∈ signalled "s" r.1) (by decide) (by decide)
    obtain ⟨hm, hleg, hsig⟩ := of_decide_eq_true hs
    obtain ⟨a, ha, hleg⟩ := (Option.any_eq_true _ _).mp hleg
    exact ⟨tr, r, m, h, rfl, rfl, rfl, ⟨_, hm⟩, ⟨a, ha, of_decide_eq_true hleg⟩, hsig, by decide⟩

end Relay

end Dsip.Routing
