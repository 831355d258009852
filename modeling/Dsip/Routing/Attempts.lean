import Dsip.Routing.Steps

/-!
# How an attempt moves

`Moved` is what any step of the relay can do to an attempt it holds: a leg that
has terminated stays as it is, an outcome stays once it is set, and the outcome
is signalled in the step that sets it to `rejected` or `noResponse`, with no leg
outstanding and none answered.
-/

namespace Dsip.Routing

open Dsip.Lib

/-- The signal of the outcome of an attempt. -/
def Emit.Signals (sid : String) : Emit → Prop
  | .forwardReject attempt _ _ => attempt = sid
  | .noResponse _ session => session = sid
  | _ => False

instance (sid : String) : DecidablePred (Emit.Signals sid)
  | .forwardReject attempt _ _ => inferInstanceAs (Decidable (attempt = sid))
  | .noResponse _ session => inferInstanceAs (Decidable (session = sid))
  | .deliver .. | .deliverCancel .. | .queue .. | .dequeue .. | .forwardProgress ..
  | .forwardAnswer _ | .unknownRecipient .. | .drop _ => isFalse id

/-- The signals for one attempt among what is emitted. -/
def signals (sid : String) (o : List Emit) : List Emit := o.filter (Emit.Signals sid)

@[simp] theorem signals_append (sid : String) (o o' : List Emit) :
    signals sid (o ++ o') = signals sid o ++ signals sid o' :=
  List.filter_append ..

theorem signals_eq_nil {sid : String} {o : List Emit} (h : ∀ e ∈ o, ¬ e.Signals sid) :
    signals sid o = [] := by
  apply List.filter_eq_nil_iff.mpr
  simpa using h

namespace Attempt

/-- What the attempts the relay holds are like. -/
structure Sound (sid : String) (a : Attempt) : Prop where
  session : a.session = sid
  unanswered : a.outcome = none → ∀ leg, a.legs.lookup leg ≠ some .answered
  rejects : ∀ p ∈ a.reasons, a.legs.lookup p.1 = some .rejected

theorem waiting_iff {a : Attempt} : a.Waiting ↔ ∃ leg, a.legs.lookup leg = some .delivered := Dict.mem_values

/-- The legs moved on, and nothing else is settled yet. `took` is the reject
that was taken, if one was. -/
structure Went (a : Attempt) (took : List (String × String)) (b : Attempt) : Prop where
  session : b.session = a.session
  initiator : b.initiator = a.initiator
  outcome : b.outcome = a.outcome
  ends : ∀ leg st, st ≠ .delivered → a.legs.lookup leg = some st → b.legs.lookup leg = some st
  reasons : b.reasons = a.reasons ++ took
  unanswered : b.outcome = none → ∀ leg, b.legs.lookup leg ≠ some .answered
  rejects : ∀ p ∈ b.reasons, b.legs.lookup p.1 = some .rejected

/-- What is said when the outcome is set. -/
inductive Signal (a b : Attempt) : List Emit → Prop
  | none (h : b.outcome ≠ a.outcome → b.outcome = some .answered ∨ b.outcome = some .cancelled) :
      Signal a b []
  | noResponse (h : b.outcome = some .noResponse) (hr : b.reasons = []) :
      Signal a b [.noResponse a.initiator a.session]
  | reject {leg reason : String} (h : b.outcome = some .rejected)
      (hr : best b.reasons = some (leg, reason)) : Signal a b [.forwardReject a.session leg reason]

theorem outcome_of_signal {a b : Attempt} {o : List Emit} (h : Signal a b o) (ho : o ≠ []) :
    b.outcome ≠ none := by
  cases h with
  | none => exact absurd rfl ho
  | noResponse h => rw [h]; exact nofun
  | reject h => rw [h]; exact nofun

theorem Signal.length_le {a b : Attempt} {o : List Emit} (h : Signal a b o) : o.length ≤ 1 := by
  cases h with
  | none => exact Nat.zero_le 1
  | noResponse => exact Nat.le_refl 1
  | reject => exact Nat.le_refl 1

structure Moved (a : Attempt) (o : List Emit) (took : List (String × String)) (b : Attempt) : Prop where
  session : b.session = a.session
  keeps : ∀ x, a.outcome = some x → b.outcome = some x
  ends : ∀ leg st, st ≠ .delivered → a.legs.lookup leg = some st → b.legs.lookup leg = some st
  reasons : b.reasons = a.reasons ++ took
  signal : Signal a b o
  /-- The outcome is signalled when every leg has terminated and none has
  answered. -/
  quiet : o ≠ [] → a.outcome = none ∧ ¬ b.Waiting ∧ ∀ leg, b.legs.lookup leg ≠ some .answered
  waits : (a.outcome = none → a.Waiting) → b.outcome = none → b.Waiting
  unanswered : b.outcome = none → ∀ leg, b.legs.lookup leg ≠ some .answered
  rejects : ∀ p ∈ b.reasons, b.legs.lookup p.1 = some .rejected

variable {a b : Attempt} {sid : String} {took : List (String × String)}

theorem Moved.sound {o : List Emit} (h : a.Moved o took b) (ha : a.Sound sid) : b.Sound sid :=
  ⟨h.session.trans ha.session, h.unanswered, h.rejects⟩

theorem Sound.went (h : a.Sound sid) : a.Went [] a :=
  ⟨rfl, rfl, rfl, fun _ _ _ hl => hl, by simp, h.unanswered, h.rejects⟩

theorem Went.stays (h : a.Went took b)
    (hw : (a.outcome = none → a.Waiting) → a.outcome = none → b.Waiting) : a.Moved [] took b where
  session := h.session
  keeps _ hx := h.outcome.trans hx
  ends := h.ends
  reasons := h.reasons
  signal := .none fun hne => absurd h.outcome hne
  quiet hne := absurd rfl hne
  waits ha hb := hw ha (h.outcome ▸ hb)
  unanswered := h.unanswered
  rejects := h.rejects

theorem best_eq_none {reasons : List (String × String)} (h : best reasons = none) : reasons = [] := by
  unfold best at h
  split at h
  case h_1 reason hr =>
    have hmem := List.find?_some hr
    rw [decide_eq_true_eq, List.mem_map] at hmem
    obtain ⟨p, hp, hpr⟩ := hmem
    rw [List.find?_eq_none] at h
    exact absurd (by simpa using hpr) (h p hp)
  case h_2 => exact List.head?_eq_none_iff.mp h

/-- The place of a reason in the order of §12.7 rule 6. -/
def rank (reason : String) : Nat := reasonRank.idxOf reason

theorem best_rank {reasons : List (String × String)} {leg reason : String}
    (h : best reasons = some (leg, reason)) :
    (leg, reason) ∈ reasons ∧ ∀ p ∈ reasons, rank reason ≤ rank p.2 := by
  unfold best at h
  split at h
  case h_1 first hr =>
    have hmem := List.mem_of_find?_eq_some h
    have heq := List.find?_some h
    rw [decide_eq_true_eq] at heq
    obtain rfl : reason = first := heq
    refine ⟨hmem, ?_⟩
    intro p hp
    -- no reason that stands before the first one found was given
    obtain ⟨-, before, after, hsplit, hbefore⟩ := List.find?_eq_some_iff_append.mp hr
    have hnot : p.2 ∉ before := by
      intro hin
      have := hbefore _ hin
      simp only [Bool.not_eq_true', decide_eq_false_iff_not] at this
      exact this (List.mem_map_of_mem hp)
    have hfirst : reason ∉ before := by
      intro hin
      have := hbefore _ hin
      simp only [Bool.not_eq_true', decide_eq_false_iff_not] at this
      exact this (List.mem_map_of_mem hmem)
    unfold rank
    rw [hsplit, List.idxOf_append_of_notMem hnot, List.idxOf_append_of_notMem hfirst, List.idxOf_cons_self]
    omega
  case h_2 hr =>
    have hmem := List.mem_of_mem_head? h
    refine ⟨hmem, ?_⟩
    intro p hp
    have hnone := List.find?_eq_none.mp hr
    have hp' : p.2 ∉ reasonRank := by
      intro hin
      exact hnone _ hin (decide_eq_true (List.mem_map_of_mem hp))
    unfold rank
    rw [List.idxOf_eq_length hp']
    exact List.idxOf_le_length

theorem Went.checkComplete (h : a.Went took b) : a.Moved b.checkComplete.2 took b.checkComplete.1 := by
  unfold Attempt.checkComplete
  split
  case isTrue hor =>
    apply h.stays
    intro _ ha
    rcases hor with ho | hw
    · exact absurd (h.outcome.trans ha) ho
    · exact hw
  case isFalse hno =>
    rw [not_or, not_not] at hno
    obtain ⟨hout, hwaits⟩ := hno
    have ha : a.outcome = none := h.outcome ▸ hout
    have hkeeps : ∀ x y, a.outcome = some x → some y = some x := by
      intro x y hx
      rw [ha] at hx
      cases hx
    split
    case h_1 hbest =>
      refine ⟨h.session, fun x => hkeeps x _, h.ends, h.reasons, ?_, ?_, nofun, nofun, h.rejects⟩
      · rw [h.initiator, h.session]
        exact .noResponse rfl (best_eq_none hbest)
      · exact fun _ => ⟨ha, hwaits, h.unanswered hout⟩
    case h_2 leg reason hbest =>
      refine ⟨h.session, fun x => hkeeps x _, h.ends, h.reasons, ?_, ?_, nofun, nofun, h.rejects⟩
      · rw [h.session]
        exact .reject rfl hbest
      · exact fun _ => ⟨ha, hwaits, h.unanswered hout⟩

theorem lookup_setLeg (a : Attempt) (leg k : String) (st : LegState) :
    (a.setLeg leg st).legs.lookup k = if k = leg then some st else a.legs.lookup k :=
  Dict.lookup_insert_eq ..

theorem Went.setLeg (h : a.Went [] b) (ha : a.Sound sid) {leg : String} {st : LegState}
    (hl : a.legs.lookup leg = some .delivered) (hst : st ≠ .answered) : a.Went [] (b.setLeg leg st) where
  session := h.session
  initiator := h.initiator
  outcome := h.outcome
  reasons := h.reasons
  ends k x hx hk := by
    rw [lookup_setLeg, if_neg]
    · exact h.ends k x hx hk
    · rintro rfl
      rw [hl] at hk
      exact hx (Option.some.inj hk).symm
  unanswered hb k := by
    rw [lookup_setLeg]
    split
    case isTrue => simpa using hst
    case isFalse => exact h.unanswered hb k
  rejects p hp := by
    rw [lookup_setLeg, if_neg]
    · exact h.rejects p hp
    · rintro rfl
      have hp' : p ∈ a.reasons := List.append_nil a.reasons ▸ h.reasons ▸ hp
      rw [ha.rejects p hp'] at hl
      cases hl

theorem Went.touched (h : a.Went took b) (last : Nat) (heard : Finset String) :
    a.Went took { b with last := last, heard := heard } :=
  ⟨h.session, h.initiator, h.outcome, h.ends, h.reasons, h.unanswered, h.rejects⟩

theorem waiting_setLeg (a : Attempt) (leg : String) : (a.setLeg leg .delivered).Waiting :=
  waiting_iff.mpr ⟨leg, by rw [lookup_setLeg, if_pos rfl]⟩

theorem join_moved (ha : a.Sound sid) {device : String} (hnew : device ∉ a.legs) (now : Nat)
    (id : String) : a.Moved [] [] (a.join now device id).1 := by
  have hk : ∀ k st, a.legs.lookup k = some st → k ≠ device := by
    rintro k st hk rfl
    exact hnew (Dict.mem_iff_lookup.mpr ⟨st, hk⟩)
  have hw : a.Went [] (a.setLeg device .delivered) := by
    refine ⟨rfl, rfl, rfl, ?_, by simp [setLeg], ?_, ?_⟩
    · intro k st _ hl
      rw [lookup_setLeg, if_neg (hk k st hl)]
      exact hl
    · intro ho k
      rw [lookup_setLeg]
      split
      case isTrue => simp
      case isFalse => exact ha.unanswered ho k
    · intro p hp
      have hl := ha.rejects p hp
      rw [lookup_setLeg, if_neg (hk _ _ hl)]
      exact hl
  exact (hw.touched now a.heard).stays fun _ _ => waiting_setLeg a device

theorem cancel_moved (ha : a.Sound sid) (last : Nat) (only : Option String) (reason : String) :
    a.Moved [] [] ({ a with last := last }.cancel only reason).1 := by
  unfold cancel
  dsimp only
  have hw : a.Went [] (foldEmit (cancelLeg only reason) { a with last := last }
      a.legs.sortedKeys).1 := by
    -- a leg that is still outstanding is one that was
    let P (b : Attempt) : Prop := a.Went [] b ∧
      ∀ leg, b.legs.lookup leg = some .delivered → a.legs.lookup leg = some .delivered
    refine (foldEmit_invariant (P := P) ?_ _ ⟨ha.went.touched last a.heard, fun _ h => h⟩).1
    rintro leg - b ⟨hb, hlegs⟩
    unfold cancelLeg
    split
    case isTrue hl =>
      refine ⟨hb.setLeg ha (hlegs leg hl.1) (by simp), ?_⟩
      intro k hk
      rw [lookup_setLeg] at hk
      split at hk
      case isTrue => cases hk
      case isFalse => exact hlegs k hk
    case isFalse => exact ⟨hb, hlegs⟩
  generalize foldEmit (cancelLeg only reason) { a with last := last } a.legs.sortedKeys = f at hw
  split
  case isFalse hno =>
    apply hw.stays
    intro _ ho
    by_contra hwaits
    exact hno ⟨hw.outcome.trans ho, hwaits⟩
  case isTrue hyes =>
    have ha' : a.outcome = none := hw.outcome ▸ hyes.1
    refine ⟨hw.session, ?_, hw.ends, hw.reasons, .none fun _ => .inr rfl, nofun, nofun, nofun, hw.rejects⟩
    intro x hx
    rw [ha'] at hx
    cases hx

theorem expireSilent_moved (ha : a.Sound sid) : a.Moved (a.expireSilent).2 [] (a.expireSilent).1 := by
  unfold expireSilent
  split
  case h_1 => exact ha.went.stays id
  case h_2 leg legs hs =>
    apply Went.checkComplete
    have hdelivered : ∀ l ∈ leg :: legs, a.legs.lookup l = some .delivered := by
      intro l hl
      rw [← hs, silent, List.mem_filter, decide_eq_true_eq] at hl
      exact hl.2.1
    have hfold : ∀ ls : List String, (∀ l ∈ ls, a.legs.lookup l = some .delivered) →
        ∀ b, a.Went [] b → a.Went [] (ls.foldl (fun b l => b.setLeg l .expired) b) := by
      intro ls
      induction ls with
      | nil => exact fun _ _ hb => hb
      | cons l ls ih =>
        intro hls b hb
        exact ih (fun k hk => hls k (List.mem_cons_of_mem l hk)) _
          (hb.setLeg ha (hls l List.mem_cons_self) (by simp))
    exact hfold _ hdelivered a ha.went

theorem legExpired_moved (ha : a.Sound sid) {leg : String} (hl : a.legs.lookup leg = some .delivered) :
    a.Moved (a.setLeg leg .expired).checkComplete.2 [] (a.setLeg leg .expired).checkComplete.1 :=
  (ha.went.setLeg ha hl (by simp)).checkComplete

theorem setItem_new {l : List (String × String)} {k : String} (h : k ∉ l.map Prod.fst)
    (v : String) : setItem l k v = l ++ [(k, v)] := by
  rw [setItem, if_neg h]

/-- The reject an attempt takes from a message. -/
def takes (m : Message) (st : LegState) : List (String × String) :=
  if m.type = .reject ∧ st = .delivered then [(m.sender, m.reason)] else []

theorem answer_moved (ha : a.Sound sid) (last : Nat) (heard : Finset String) {leg : String}
    (hl : a.legs.lookup leg = some .delivered) :
    a.Moved [] [] { a.setLeg leg .answered with
      last := last, heard := heard, outcome := a.outcome.getD .answered } where
  session := rfl
  keeps x hx := by simp [hx]
  ends k x hx hk := by
    show (a.setLeg leg .answered).legs.lookup k = some x
    rw [lookup_setLeg, if_neg]
    · exact hk
    · rintro rfl
      rw [hl] at hk
      exact hx (Option.some.inj hk).symm
  reasons := (List.append_nil _).symm
  signal := by
    apply Signal.none
    intro hne
    left
    cases ho : a.outcome with
    | none => simp
    | some x => simp [ho] at hne
  quiet := nofun
  waits := nofun
  unanswered := nofun
  rejects p hp := by
    have hr := ha.rejects p hp
    show (a.setLeg leg .answered).legs.lookup p.1 = some .rejected
    rw [lookup_setLeg, if_neg]
    · exact hr
    · intro hk
      rw [hk, hl] at hr
      cases hr

theorem checkComplete_signals (h : a.session = sid) : signals sid a.checkComplete.2 = a.checkComplete.2 := by
  apply List.filter_eq_self.mpr
  unfold checkComplete
  split
  case isTrue => simp
  case isFalse => split <;> simp [Emit.Signals, h]

theorem reject_moved (ha : a.Sound sid) {leg reason : String}
    (hl : a.legs.lookup leg = some .delivered)
    (hb : b = { a.setLeg leg .rejected with
      last := b.last, heard := b.heard, reasons := setItem a.reasons leg reason }) :
    a.Moved (signals sid b.checkComplete.2) [(leg, reason)] b.checkComplete.1 := by
  have hsession : b.session = sid := by
    rw [hb]
    exact ha.session
  rw [checkComplete_signals hsession]
  apply Went.checkComplete
  have hnew : leg ∉ a.reasons.map Prod.fst := by
    intro hmem
    obtain ⟨p, hp, rfl⟩ := List.mem_map.mp hmem
    rw [ha.rejects p hp] at hl
    cases hl
  have hgone : a.Went [] (a.setLeg leg .rejected) := ha.went.setLeg ha hl (by simp)
  rw [hb]
  refine ⟨rfl, rfl, rfl, hgone.ends, setItem_new hnew reason, hgone.unanswered, ?_⟩
  intro p hp
  replace hp : p ∈ a.reasons ++ [(leg, reason)] := setItem_new hnew reason ▸ hp
  rcases List.mem_append.mp hp with hp | hp
  · exact hgone.rejects p hp
  · rw [List.mem_singleton.mp hp]
    exact (lookup_setLeg a leg leg .rejected).trans (if_pos rfl)

theorem fromLeg_moved (ha : a.Sound sid) (last : Nat) {m : Message} {st : LegState}
    (hl : a.legs.lookup m.sender = some st) :
    a.Moved (signals sid ({ a with last := last }.fromLeg m st).2) (takes m st)
      ({ a with last := last }.fromLeg m st).1 := by
  have hsame : a.Went [] { a with last := last, heard := insert m.sender a.heard } := ha.went.touched last _
  have hstays := hsame.stays id
  unfold fromLeg takes
  cases ht : m.type with
  | answer =>
    rw [if_neg fun h => by cases h.1]
    by_cases hst : st = .delivered
    · subst hst
      exact answer_moved ha last _ hl
    · simp only [if_neg hst]
      exact hstays
  | reject =>
    by_cases hst : st = .delivered
    · subst hst
      rw [if_pos ⟨rfl, rfl⟩]
      exact reject_moved ha hl rfl
    · rw [if_neg fun h => hst h.2]
      simp only [if_pos hst]
      exact hstays
  | progress =>
    rw [if_neg fun h => by cases h.1]
    by_cases hst : st = .delivered
    · simp only [if_neg (not_not.mpr hst)]
      exact hstays
    · simp only [if_pos hst]
      exact hstays
  | _ =>
    rw [if_neg fun h => by cases h.1]
    by_cases hst : st = .delivered
    · simp only [if_neg (not_not.mpr hst)]
      exact hstays
    · simp only [if_pos hst]
      exact hstays

end Attempt

end Dsip.Routing
