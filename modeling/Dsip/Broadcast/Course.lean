import Dsip.Broadcast.Notify

/-!
# What a step does to a subscription

* `Bystander` — what concerns publications passes by the presence subscriptions;
* `Origin` — where every subscription after a step comes from;
* `Course` — all that a step can do to one presence subscription, with what it
  is told.
-/

namespace Dsip.Broadcast

open Dsip.Lib

/-- A subscription to presence and not to publications. -/
def Subscription.PresenceOnly (sub : Subscription) : Prop :=
  "presence" ∈ sub.events ∧ "publication" ∉ sub.events

instance : DecidablePred Subscription.PresenceOnly := fun _ => inferInstanceAs (Decidable (_ ∧ _))

/-- What is fixed when a subscription begins. -/
def Subscription.terms (sub : Subscription) : Subscription := { sub with seq := 0, body := none }

namespace Authority

variable {s s' s'' : Authority}

/-! ## Bodies of presence subscriptions -/

theorem bodyFor_of_presenceOnly {sub : Subscription} (h : sub.PresenceOnly) :
    s.bodyFor sub = s.presenceBody sub.target (some sub) := if_neg h.2

theorem filter_sortedKeys_congr {κ β : Type*} [LinearOrder κ] {d d' : Dict κ β} {p : κ → Bool}
    (h : ∀ k, p k = true → d.lookup k = d'.lookup k) : d.sortedKeys.filter p = d'.sortedKeys.filter p := by
  have hsorted : ∀ d : Dict κ β, (d.sortedKeys.filter p).Pairwise (· ≤ ·) :=
    fun d => (List.pairwise_insertionSort (· ≤ ·) _).filter _
  refine List.Perm.eq_of_pairwise' (hsorted d) (hsorted d') ?_
  rw [List.perm_ext_iff_of_nodup ((Dict.nodup_sortedKeys d).filter _)
    ((Dict.nodup_sortedKeys d').filter _)]
  intro k
  simp only [List.mem_filter, Dict.mem_sortedKeys, Dict.mem_iff_lookup]
  refine and_congr_left fun hp => ?_
  rw [h k hp]

theorem recordsOf_congr {subject : String}
    (h : ∀ k : RecordKey, k.subject = subject → s'.records.lookup k = s.records.lookup k) :
    s'.recordsOf subject = s.recordsOf subject := by
  unfold recordsOf
  rw [filter_sortedKeys_congr fun k hk => h k (of_decide_eq_true hk)]
  refine List.filterMap_congr fun k hk => ?_
  exact h k (of_decide_eq_true (List.mem_filter.mp hk).2)

theorem bodyFor_congr {sub : Subscription} (hsub : sub.PresenceOnly)
    (hrecords : ∀ k : RecordKey, k.subject = sub.target → s'.records.lookup k = s.records.lookup k)
    (hbound : s'.boundOf sub.target = s.boundOf sub.target) : s'.bodyFor sub = s.bodyFor sub := by
  rw [bodyFor_of_presenceOnly hsub, bodyFor_of_presenceOnly hsub]
  unfold presenceBody
  rw [recordsOf_congr hrecords, hbound]

/-! ## Publications -/

/-- What concerns publications only. -/
structure Bystander (s s' : Authority) (out : List Emit) : Prop where
  records : s'.records = s.records
  bound : s'.bound = s.bound
  now : s'.now = s.now
  graceUntil : s'.graceUntil = s.graceUntil
  terms : ∀ sid, (s'.subOf sid).map (·.terms) = (s.subOf sid).map (·.terms)
  others : ∀ sid, (∀ sub, s.subOf sid = some sub → "publication" ∉ sub.events) →
    s'.subOf sid = s.subOf sid ∧ noticesTo sid out = []

theorem Bystander.of_same (hsubs : s'.subscriptions = s.subscriptions)
    (hrecords : s'.records = s.records) (hbound : s'.bound = s.bound) (hnow : s'.now = s.now)
    (hgrace : s'.graceUntil = s.graceUntil) {out : List Emit}
    (hout : ∀ sid, noticesTo sid out = []) : Bystander s s' out where
  records := hrecords
  bound := hbound
  now := hnow
  graceUntil := hgrace
  terms sid := by rw [subOf, hsubs]
  others sid _ := ⟨congrArg _ hsubs, hout sid⟩

theorem Bystander.trans {out out' : List Emit} (h : Bystander s s' out)
    (h' : Bystander s' s'' out') : Bystander s s'' (out ++ out') where
  records := h'.records.trans h.records
  bound := h'.bound.trans h.bound
  now := h'.now.trans h.now
  graceUntil := h'.graceUntil.trans h.graceUntil
  terms sid := (h'.terms sid).trans (h.terms sid)
  others sid hsub := by
    obtain ⟨hsame, hnone⟩ := h.others sid hsub
    obtain ⟨hsame', hnone'⟩ := h'.others sid (hsame ▸ hsub)
    exact ⟨hsame'.trans hsame, by rw [noticesTo_append, hnone, hnone']; rfl⟩

theorem notifyAll_bystander (s : Authority) (target : String) :
    Bystander s (s.notifyAll "publication" target).1 (s.notifyAll "publication" target).2 := by
  let due : Dues := fun _ _ => some (.active, none)
  have hdue : ∀ s : Authority, due s.rest = due s := fun _ => rfl
  obtain ⟨hrest, hsubs, hnotices⟩ := notifyWhere_spec hdue s
    fun sub => sub.target = target ∧ "publication" ∈ sub.events
  refine ⟨congrArg (·.records) hrest, congrArg (·.bound) hrest, congrArg (·.now) hrest,
    congrArg (·.graceUntil) hrest, ?_, ?_⟩
  · intro sid
    refine (congrArg (Option.map (·.terms)) (hsubs sid)).trans ?_
    cases s.subOf sid with
    | none => rfl
    | some sub =>
      simp only [Option.bind_some, answer, due]
      split <;> rfl
  · intro sid hsub
    refine ⟨(hsubs sid).trans ?_, (hnotices sid).trans ?_⟩
    · cases hs : s.subOf sid with
      | none => rfl
      | some sub => simp [hsub sub hs]
    · cases hs : s.subOf sid with
      | none => rfl
      | some sub => simp [hsub sub hs]

theorem published_bystander (h : Bystander s s' []) (stream : String) {e : Emit}
    (he : ∀ sid, noticesTo sid [e] = []) : Bystander s (s'.published stream e).1 (s'.published stream e).2 :=
  h.trans ((Bystander.of_same rfl rfl rfl rfl rfl he).trans (notifyAll_bystander s' stream))

theorem recvPublish_bystander (s : Authority) (id publisher streamId state : String)
    (expiresAt : Nat) (variants : List String) (identity : String) :
    Bystander s (s.recvPublish id publisher streamId state expiresAt variants identity).1
      (s.recvPublish id publisher streamId state expiresAt variants identity).2 := by
  have hrefused : ∀ reason, Bystander s s [.drop reason] :=
    fun reason => .of_same rfl rfl rfl rfl rfl fun _ => rfl
  unfold recvPublish
  split
  · exact hrefused _
  split
  · exact hrefused _
  split
  · exact hrefused _
  · refine published_bystander ?_ _ ?_
    · refine .of_same ?_ ?_ ?_ ?_ ?_ noticesTo_nil <;> rfl
    · exact fun _ => rfl

theorem recvUnpublish_bystander (s : Authority) (streamId publication identity : String) :
    Bystander s (s.recvUnpublish streamId publication identity).1
      (s.recvUnpublish streamId publication identity).2 := by
  have hrefused : ∀ reason, Bystander s s [.drop reason] :=
    fun reason => .of_same rfl rfl rfl rfl rfl fun _ => rfl
  unfold recvUnpublish
  split
  · exact hrefused _
  split
  · exact hrefused _
  · refine published_bystander ?_ _ ?_
    · refine .of_same ?_ ?_ ?_ ?_ ?_ noticesTo_nil <;> rfl
    · exact fun _ => rfl

theorem recvProvenance_bystander (s : Authority) (stream publication : String) (st : Statement)
    (identity : String) : Bystander s (s.recvProvenance stream publication st identity).1
      (s.recvProvenance stream publication st identity).2 := by
  have hrefused : ∀ reason, Bystander s s [.drop reason] :=
    fun reason => .of_same rfl rfl rfl rfl rfl fun _ => rfl
  unfold recvProvenance
  split
  · exact hrefused _
  split
  · exact hrefused _
  split
  · exact hrefused _
  · refine published_bystander ?_ _ ?_
    · refine .of_same ?_ ?_ ?_ ?_ ?_ noticesTo_nil <;> rfl
    · exact fun _ => rfl

theorem expireStream_bystander (s : Authority) (stream : String) :
    Bystander s (s.expireStream stream).1 (s.expireStream stream).2 := by
  have hnothing : Bystander s s [] := .of_same rfl rfl rfl rfl rfl noticesTo_nil
  unfold expireStream
  split
  · exact hnothing
  split
  · refine published_bystander ?_ _ ?_
    · refine .of_same ?_ ?_ ?_ ?_ ?_ noticesTo_nil <;> rfl
    · exact fun _ => rfl
  · exact hnothing

theorem expireStreams_bystander (streams : List String) (s : Authority) :
    Bystander s (foldEmit expireStream s streams).1 (foldEmit expireStream s streams).2 := by
  induction streams generalizing s with
  | nil => exact .of_same rfl rfl rfl rfl rfl noticesTo_nil
  | cons stream streams ih => exact (expireStream_bystander s stream).trans (ih _)

/-! ## Records that go -/

/-- Records dropped: those of the `changed` subjects at most. -/
structure Dropped (s s' : Authority) (changed : Finset String) : Prop where
  subscriptions : s'.subscriptions = s.subscriptions
  bound : s'.bound = s.bound
  now : s'.now = s.now
  records : ∀ k : RecordKey, k.subject ∉ changed → s'.records.lookup k = s.records.lookup k

theorem dropDevice_lookup (subject device : String) {k : RecordKey} (hk : k.subject ≠ subject) :
    (s.dropDevice subject device).records.lookup k = s.records.lookup k := by
  unfold dropDevice
  dsimp only
  rw [Dict.lookup_filter]
  cases s.records.lookup k with
  | none => rfl
  | some r => simp [hk]

theorem expireRecord_dropped {st : Authority × Finset String} (h : Dropped s st.1 st.2)
    (e : RecordKey × PresenceRecord) : Dropped s (expireRecord st e).1 (expireRecord st e).2 := by
  unfold expireRecord
  split
  · exact h
  split
  · refine ⟨h.subscriptions, h.bound, h.now, fun k hk => ?_⟩
    rw [Finset.mem_insert, not_or] at hk
    exact (dropDevice_lookup _ _ hk.1).trans (h.records k hk.2)
  split
  · refine ⟨h.subscriptions, h.bound, h.now, fun k hk => ?_⟩
    rw [Finset.mem_insert, not_or] at hk
    refine (AList.lookup_erase_ne ?_).trans (h.records k hk.2)
    rintro rfl
    exact hk.1 rfl
  · exact h

theorem expireRecords_dropped (items : List (RecordKey × PresenceRecord))
    {st : Authority × Finset String} (h : Dropped s st.1 st.2) :
    Dropped s (items.foldl expireRecord st).1 (items.foldl expireRecord st).2 := by
  induction items generalizing st with
  | nil => exact h
  | cons e items ih => exact ih (expireRecord_dropped h e)

/-! ## What a step can do -/

/-- The subscription an event begins. -/
def begins (s : Authority) : Event → Option String
  | .recv sender (.subscribe m) =>
    if m.expiresIn ≠ 0 ∧ (s.admission (s.identityOf sender) m).isSome then some m.id else none
  | _ => none

/-- Why an event ends a subscription, and the reason it is told. -/
inductive Ends (s : Authority) (ev : Event) (s' : Authority) (sub : Subscription) : String → Prop
  | expired {n} (hev : ev = .advance n) (h : sub.expiresAt ≤ s'.now) :
      Ends s ev s' sub "session.expired"
  | grantOver {n g} (hev : ev = .advance n) (hg : sub.grantUntil = some g) (h : g ≤ s'.now) :
      Ends s ev s' sub "policy.terminated"
  | revoked {sender grant validUntil} (hev : ev = .recv sender (.grantRevocation grant validUntil))
      (hg : sub.grant = some grant) (ht : sub.target = s.identityOf sender) :
      Ends s ev s' sub "policy.terminated"

/-- All that a step can do to a presence subscription, with what it is told. -/
inductive Course (s : Authority) (ev : Event) (s' : Authority) (sid : String) : List Notice → Prop
  | absent (hb : begins s ev ≠ some sid) (h : s.subOf sid = none) (h' : s'.subOf sid = none) :
      Course s ev s' sid []
  | steady {sub} (hb : begins s ev ≠ some sid) (h : s.subOf sid = some sub)
      (h' : s'.subOf sid = some sub) (hbody : s'.bodyFor sub = s.bodyFor sub) :
      Course s ev s' sid []
  | changed {sub} (hb : begins s ev ≠ some sid) (h : s.subOf sid = some sub)
      (h' : s'.subOf sid = some (sub.told (s'.bodyFor sub)))
      (hbody : s'.bodyFor sub ≠ s.bodyFor sub) :
      Course s ev s' sid [s'.notice sub .active none]
  | began {sub} (hb : begins s ev = some sid) (hseq : sub.seq = 0)
      (h' : s'.subOf sid = some (sub.told (s'.bodyFor sub))) :
      Course s ev s' sid [s'.notice sub .active none]
  | ended {sub reason} (hb : begins s ev ≠ some sid) (h : s.subOf sid = some sub)
      (h' : s'.subOf sid = none) (hends : Ends s ev s' sub reason) :
      Course s ev s' sid [s.notice sub .terminated (some reason)]
  | withdrawn {sub sender m} (hb : begins s ev ≠ some sid) (h : s.subOf sid = some sub)
      (h' : s'.subOf sid = none) (hev : ev = .recv sender (.subscribe m))
      (hown : sub.matches sender m.target m.events = true) : Course s ev s' sid []

/-- Every presence subscription was last sent the body it is entitled to. -/
def UpToDate (s : Authority) : Prop :=
  ∀ sid sub, s.subOf sid = some sub → sub.PresenceOnly → sub.body = some (s.bodyFor sub)

/-- What is there for an id is a presence subscription. -/
def ForPresence (s : Authority) (sid : String) : Prop := ∀ sub, s.subOf sid = some sub → sub.PresenceOnly

section Course

variable {ev : Event} {sid : String} {out : List Emit}

theorem Course.of_same (hb : begins s ev ≠ some sid) (hp : s.ForPresence sid)
    (hsubs : s'.subOf sid = s.subOf sid) (hrecords : s'.records = s.records)
    (hbound : s'.bound = s.bound) : Course s ev s' sid [] := by
  cases hsub : s.subOf sid with
  | none => exact .absent hb hsub (hsubs.trans hsub)
  | some sub =>
    refine .steady hb hsub (hsubs.trans hsub) (bodyFor_congr (hp sub hsub) ?_ ?_)
    · intro k _
      rw [hrecords]
    · unfold boundOf
      rw [hbound]

/-- After a change of the subjects' records or bindings, their subscriptions are
told if their bodies changed. -/
theorem Course.of_refresh {s₁ : Authority} {subjects : List String} (hup : s.UpToDate)
    (hb : begins s ev ≠ some sid) (hp : s.ForPresence sid) (hsame : s₁.subOf sid = s.subOf sid)
    (hbodies : ∀ sub, sub.PresenceOnly → sub.target ∉ subjects → s₁.bodyFor sub = s.bodyFor sub)
    (hrest : s'.rest = s₁.rest) (hsubs : s'.subOf sid = (s₁.subOf sid).map (s₁.refreshed subjects))
    (hout : noticesTo sid out = (s₁.subOf sid).elim [] (s₁.refreshNotices subjects)) :
    Course s ev s' sid (noticesTo sid out) := by
  rw [hsame] at hsubs hout
  rw [hout]
  cases hsub : s.subOf sid with
  | none =>
    rw [hsub] at hsubs
    exact .absent hb hsub hsubs
  | some sub =>
    have hpresence := hp sub hsub
    rw [hsub] at hsubs
    have hbody : s'.bodyFor sub = s₁.bodyFor sub := bodyFor_of_rest hrest sub
    have hstale : s₁.Stale subjects sub ↔ sub.target ∈ subjects ∧ s₁.bodyFor sub ≠ s.bodyFor sub := by
      unfold Stale
      rw [hup sid sub hsub hpresence, Ne, Option.some_inj, eq_comm (b := s₁.bodyFor sub)]
      simp [hpresence.1]
    simp only [refreshed, refreshNotices, Option.map_some, Option.elim_some] at hsubs ⊢
    by_cases hst : s₁.Stale subjects sub
    · rw [if_pos hst] at hsubs ⊢
      have hnotice : s₁.notice sub .active none = s'.notice sub .active none := by
        unfold notice
        rw [hbody]
      rw [hnotice]
      exact .changed hb hsub (hbody ▸ hsubs) (hbody ▸ (hstale.mp hst).2)
    · rw [if_neg hst] at hsubs ⊢
      refine .steady hb hsub hsubs (hbody.trans ?_)
      by_cases ht : sub.target ∈ subjects
      · by_contra hne
        exact hst (hstale.mpr ⟨ht, hne⟩)
      · exact hbodies sub hpresence ht

end Course

end Authority

end Dsip.Broadcast
