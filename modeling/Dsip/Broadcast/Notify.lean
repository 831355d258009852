import Dsip.Broadcast.Authority

/-!
# What the notifying loops do

Every loop of the authority over its subscriptions is `notifyEach`: a turn
concerns one subscription, and changes nothing else. `notifyEach_spec` says what
becomes of each subscription and what it is told; `refresh_spec` what the loops
of `presence_changed` do over several subjects.
-/

namespace Dsip.Broadcast.Authority

open Dsip.Lib

variable (s : Authority)

/-- The subscription of an id. -/
abbrev subOf (sid : String) : Option Subscription := s.subscriptions.lookup sid

/-- All but the subscriptions. -/
def rest : Authority := { s with subscriptions := ∅ }

/-- What is told to a subscription, in order. -/
def noticesTo (sid : String) (out : List Emit) : List Notice :=
  out.filterMap fun
    | .notify _ i n => if i = sid then some n else none
    | _ => none

/-- The `notify` a subscription is due. -/
def notice (sub : Subscription) (state : NotifyState) (reason : Option String) : Notice :=
  ⟨sub.seq + 1, state, reason, s.bodyFor sub⟩

/-- What becomes of a subscription in a loop, and what it is told. -/
def answer (due : Dues) (sub : Subscription) : Option Subscription × List Notice :=
  match due s sub with
  | none => (some sub, [])
  | some (.active, reason) => (some (sub.told (s.bodyFor sub)), [s.notice sub .active reason])
  | some (.terminated, reason) => (none, [s.notice sub .terminated reason])

variable {s}

@[simp] theorem noticesTo_nil (sid : String) : noticesTo sid [] = [] := rfl

theorem noticesTo_append (sid : String) (out out' : List Emit) :
    noticesTo sid (out ++ out') = noticesTo sid out ++ noticesTo sid out' := by
  simp [noticesTo]

theorem noticesTo_map_notify (sid i device : String) (l : List Notice) :
    noticesTo sid (l.map (.notify device i)) = if i = sid then l else [] := by
  unfold noticesTo
  rw [List.filterMap_map]
  split
  case isTrue h => simp [h]
  case isFalse h => simp [h]

theorem noticesTo_flatMap {ids : List String} (hids : ids.Nodup) (device : String → String)
    (l : String → List Notice) (sid : String) :
    noticesTo sid (ids.flatMap fun i => (l i).map (.notify (device i) i)) =
      if sid ∈ ids then l sid else [] := by
  induction ids with
  | nil => rfl
  | cons i ids ih =>
    obtain ⟨hi, hids⟩ := List.nodup_cons.mp hids
    rw [List.flatMap_cons, noticesTo_append, noticesTo_map_notify, ih hids]
    by_cases hsid : i = sid
    · subst hsid
      simp [hi]
    · have hsid' : sid ≠ i := fun h => hsid h.symm
      simp [hsid, hsid']

/-! ## One loop -/

/-- What a turn makes of its own subscription, and what it emits. -/
def turnOf (due : Dues) (s : Authority) (sid : String) (v : Option Subscription) :
    Option Subscription × List Emit :=
  (v.bind fun sub => (s.answer due sub).1,
    v.elim [] fun sub => (s.answer due sub).2.map (.notify sub.device sid))

theorem answer_rest {due : Dues} (hdue : ∀ s : Authority, due s.rest = due s) (s : Authority)
    (sub : Subscription) : s.rest.answer due sub = s.answer due sub := by
  unfold answer
  rw [hdue]
  rfl

theorem turnOf_rest {due : Dues} (hdue : ∀ s : Authority, due s.rest = due s) (s : Authority) :
    turnOf due s.rest = turnOf due s := by
  funext sid v
  unfold turnOf
  simp only [answer_rest hdue]

theorem notifyTurn_spec (due : Dues) (s : Authority) (sid : String) : (notifyTurn due s sid).1.rest = s.rest ∧
    (notifyTurn due s sid).1.subOf sid = (turnOf due s sid (s.subOf sid)).1 ∧
    (∀ j, j ≠ sid → (notifyTurn due s sid).1.subOf j = s.subOf j) ∧
    (notifyTurn due s sid).2 = (turnOf due s sid (s.subOf sid)).2 := by
  unfold notifyTurn turnOf answer
  cases hsub : s.subscriptions.lookup sid with
  | none => simp [subOf, hsub]
  | some sub =>
    simp only [subOf, hsub, Option.bind_some, Option.elim_some]
    cases hd : due s sub with
    | none => exact ⟨rfl, hsub, fun _ _ => rfl, rfl⟩
    | some sr =>
      obtain ⟨state, reason⟩ := sr
      cases state with
      | active =>
        simp only [notify, hsub]
        exact ⟨rfl, AList.lookup_insert _, fun j hj => AList.lookup_insert_ne hj, rfl⟩
      | terminated =>
        simp only [notify, hsub]
        exact ⟨rfl, AList.lookup_erase _ _, fun j hj => AList.lookup_erase_ne hj, rfl⟩

theorem notifyEach_spec {due : Dues} (hdue : ∀ s : Authority, due s.rest = due s)
    {ids : List String} (hids : ids.Nodup) (s : Authority) : (s.notifyEach due ids).1.rest = s.rest ∧
    (∀ sid, (s.notifyEach due ids).1.subOf sid =
      if sid ∈ ids then (s.subOf sid).bind fun sub => (s.answer due sub).1 else s.subOf sid) ∧
    ∀ sid, noticesTo sid (s.notifyEach due ids).2 =
      if sid ∈ ids then (s.subOf sid).elim [] fun sub => (s.answer due sub).2 else [] := by
  obtain ⟨hrest, hsubs, hout⟩ := @foldEmit_keys Authority Emit String (Option Subscription)
    Authority _ subOf rest (notifyTurn due) (fun s => turnOf due s)
    (fun s sid => (notifyTurn_spec due s sid).1)
    (fun s sid => by rw [turnOf_rest hdue]; exact (notifyTurn_spec due s sid).2.1)
    (fun s sid j hj => (notifyTurn_spec due s sid).2.2.1 j hj)
    (fun s sid => by rw [turnOf_rest hdue]; exact (notifyTurn_spec due s sid).2.2.2) ids hids s
  rw [turnOf_rest hdue] at hsubs hout
  refine ⟨hrest, hsubs, ?_⟩
  intro sid
  have hmap : (fun k => (turnOf due s k (s.subOf k)).2) =
      fun k => ((s.subOf k).elim [] fun sub => (s.answer due sub).2).map
        (.notify ((s.subOf k).elim "" (·.device)) k) := by
    funext k
    unfold turnOf
    cases s.subOf k <;> rfl
  have hnotices := noticesTo_flatMap hids (fun k => (s.subOf k).elim "" (·.device))
    (fun k => (s.subOf k).elim [] fun sub => (s.answer due sub).2) sid
  rw [← hmap, ← hout] at hnotices
  exact hnotices

/-! ## The loops of `presence_changed` -/

theorem nodup_idsWhere (s : Authority) (p : Subscription → Bool) : (s.idsWhere p).Nodup :=
  (Dict.nodup_sortedKeys _).filter _

theorem mem_idsWhere {p : Subscription → Bool} {sid : String} :
    sid ∈ s.idsWhere p ↔ ∃ sub, s.subOf sid = some sub ∧ p sub = true := by
  unfold idsWhere
  rw [List.mem_filter, Dict.mem_sortedKeys, Dict.mem_iff_lookup, Option.any_eq_true]
  constructor
  · rintro ⟨-, h⟩
    exact h
  · rintro ⟨sub, hsub, hp⟩
    exact ⟨⟨sub, hsub⟩, sub, hsub, hp⟩

theorem notifyWhere_spec {due : Dues} (hdue : ∀ s : Authority, due s.rest = due s) (s : Authority)
    (p : Subscription → Bool) : (s.notifyEach due (s.idsWhere p)).1.rest = s.rest ∧
    (∀ sid, (s.notifyEach due (s.idsWhere p)).1.subOf sid =
      (s.subOf sid).bind fun sub => if p sub then (s.answer due sub).1 else some sub) ∧
    ∀ sid, noticesTo sid (s.notifyEach due (s.idsWhere p)).2 =
      (s.subOf sid).elim [] fun sub => if p sub then (s.answer due sub).2 else [] := by
  obtain ⟨hrest, hsubs, hnotices⟩ := notifyEach_spec hdue (nodup_idsWhere s p) s
  have hids : ∀ sid sub, s.subOf sid = some sub → (sid ∈ s.idsWhere p ↔ p sub = true) := by
    intro sid sub hsub
    simp [mem_idsWhere, hsub]
  refine ⟨hrest, ?_, ?_⟩
  · intro sid
    rw [hsubs]
    cases hsub : s.subOf sid with
    | none => simp
    | some sub => simp only [hids sid sub hsub, Option.bind_some]
  · intro sid
    rw [hnotices]
    cases hsub : s.subOf sid with
    | none => simp
    | some sub => simp only [hids sid sub hsub, Option.elim_some]

/-- A presence subscription to one of the subjects whose body is not the one
last sent. -/
def Stale (s : Authority) (subjects : List String) (sub : Subscription) : Prop :=
  sub.target ∈ subjects ∧ "presence" ∈ sub.events ∧ sub.body ≠ some (s.bodyFor sub)

instance (subjects : List String) (sub : Subscription) : Decidable (s.Stale subjects sub) :=
  inferInstanceAs (Decidable (_ ∧ _))

/-- What becomes of a subscription when the subjects' presence changed. -/
def refreshed (s : Authority) (subjects : List String) (sub : Subscription) : Subscription :=
  if s.Stale subjects sub then sub.told (s.bodyFor sub) else sub

def refreshNotices (s : Authority) (subjects : List String) (sub : Subscription) : List Notice :=
  if s.Stale subjects sub then [s.notice sub .active none] else []

theorem presenceChanged_spec (s : Authority) (identity : String) :
    (s.presenceChanged identity).1.rest = s.rest ∧
    (∀ sid, (s.presenceChanged identity).1.subOf sid = (s.subOf sid).map (s.refreshed [identity])) ∧
    ∀ sid, noticesTo sid (s.presenceChanged identity).2 =
      (s.subOf sid).elim [] (s.refreshNotices [identity]) := by
  obtain ⟨hrest, hsubs, hnotices⟩ := notifyWhere_spec
    (fun _ => rfl : ∀ s : Authority, staleDue s.rest = staleDue s) s
    fun sub => sub.target = identity ∧ "presence" ∈ sub.events
  have hstale : ∀ sub, s.Stale [identity] sub ↔
      (sub.target = identity ∧ "presence" ∈ sub.events) ∧ sub.body ≠ some (s.bodyFor sub) := by
    intro sub
    rw [Stale, List.mem_singleton, and_assoc]
  refine ⟨hrest, ?_, ?_⟩
  · intro sid
    refine (hsubs sid).trans ?_
    cases s.subOf sid with
    | none => rfl
    | some sub =>
      simp only [refreshed, hstale, answer, staleDue, Option.bind_some, Option.map_some]
      by_cases hc : sub.target = identity ∧ "presence" ∈ sub.events
      · by_cases hb : sub.body = some (s.bodyFor sub) <;> simp [hc, hb]
      · simp [hc]
  · intro sid
    refine (hnotices sid).trans ?_
    cases s.subOf sid with
    | none => rfl
    | some sub =>
      simp only [refreshNotices, hstale, answer, staleDue, Option.elim_some]
      by_cases hc : sub.target = identity ∧ "presence" ∈ sub.events
      · by_cases hb : sub.body = some (s.bodyFor sub) <;> simp [hc, hb]
      · simp [hc]

theorem bodyFor_of_rest {s s' : Authority} (h : s'.rest = s.rest) (sub : Subscription) :
    s'.bodyFor sub = s.bodyFor sub :=
  (congrArg (fun r : Authority => r.bodyFor sub) h : s'.rest.bodyFor sub = s.rest.bodyFor sub)

theorem refreshed_of_rest {s s' : Authority} (h : s'.rest = s.rest) (subjects : List String)
    (sub : Subscription) : s'.refreshed subjects sub = s.refreshed subjects sub ∧
      s'.refreshNotices subjects sub = s.refreshNotices subjects sub := by
  have hrefreshed := congrArg (fun r : Authority => r.refreshed subjects sub) h
  have hnotices := congrArg (fun r : Authority => r.refreshNotices subjects sub) h
  exact ⟨hrefreshed, hnotices⟩

theorem refreshed_cons (identity : String) (subjects : List String) (sub : Subscription) :
    s.refreshed subjects (s.refreshed [identity] sub) = s.refreshed (identity :: subjects) sub ∧
      s.refreshNotices [identity] sub ++ s.refreshNotices subjects (s.refreshed [identity] sub) =
        s.refreshNotices (identity :: subjects) sub := by
  have htold : ¬ s.Stale subjects (sub.told (s.bodyFor sub)) := fun h => h.2.2 rfl
  by_cases hfirst : s.Stale [identity] sub
  · have hall : s.Stale (identity :: subjects) sub :=
      ⟨List.mem_cons.mpr (.inl (List.mem_singleton.mp hfirst.1)), hfirst.2⟩
    simp [refreshed, refreshNotices, hfirst, hall, htold]
  · have hiff : s.Stale (identity :: subjects) sub ↔ s.Stale subjects sub := by
      constructor
      · rintro ⟨ht, hrest⟩
        refine ⟨(List.mem_cons.mp ht).resolve_left fun heq => hfirst ⟨?_, hrest⟩, hrest⟩
        exact List.mem_singleton.mpr heq
      · rintro ⟨ht, hrest⟩
        exact ⟨List.mem_cons_of_mem _ ht, hrest⟩
    simp [refreshed, refreshNotices, hfirst, hiff]

theorem refresh_spec (subjects : List String) (s : Authority) :
    (foldEmit presenceChanged s subjects).1.rest = s.rest ∧
    (∀ sid, (foldEmit presenceChanged s subjects).1.subOf sid = (s.subOf sid).map (s.refreshed subjects)) ∧
    ∀ sid, noticesTo sid (foldEmit presenceChanged s subjects).2 =
      (s.subOf sid).elim [] (s.refreshNotices subjects) := by
  induction subjects generalizing s with
  | nil =>
    refine ⟨rfl, ?_, ?_⟩
    · intro sid
      cases hsub : s.subOf sid <;> simp [refreshed, Stale, hsub]
    · intro sid
      cases s.subOf sid <;> simp [refreshNotices, Stale]
  | cons identity subjects ih =>
    obtain ⟨hrest, hsubs, hnotices⟩ := presenceChanged_spec s identity
    obtain ⟨hrest', hsubs', hnotices'⟩ := ih (s.presenceChanged identity).1
    have hsame := refreshed_of_rest hrest subjects
    rw [foldEmit_cons]
    refine ⟨hrest'.trans hrest, ?_, ?_⟩
    · intro sid
      rw [hsubs', hsubs]
      cases s.subOf sid with
      | none => rfl
      | some sub =>
        simp only [Option.map_some, (hsame _).1, (refreshed_cons identity subjects sub).1]
    · intro sid
      rw [noticesTo_append, hnotices, hnotices', hsubs]
      cases s.subOf sid with
      | none => rfl
      | some sub =>
        simp only [Option.map_some, Option.elim_some, (hsame _).2, (refreshed_cons identity subjects sub).2]

end Dsip.Broadcast.Authority
