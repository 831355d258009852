import Dsip.Broadcast.Steps

/-!
# What holds in every state

* `Unlapsed` — no subscription's time, or admitting grant's, is up;
* `UpToDate` — every presence subscription was last sent the body it is entitled
  to;
* `Unique` — a device has one subscription for a target and events.

Each follows from where the subscriptions after a step come from: `step_origin`.
-/

namespace Dsip.Broadcast

open Dsip.Lib

theorem Subscription.presenceOnly_of_terms {sub sub' : Subscription} (h : sub'.terms = sub.terms) :
    sub'.PresenceOnly ↔ sub.PresenceOnly := by
  have hevents : sub'.terms.events = sub.terms.events := congrArg (·.events) h
  exact Iff.of_eq (congrArg (fun events => "presence" ∈ events ∧ "publication" ∉ events) hevents)

namespace Authority

variable {s s' : Authority} {ev : Event} {sid : String}

/-! ## Where subscriptions come from -/

/-- Every subscription was there before, on the same terms. -/
structure Keeps (s s' : Authority) : Prop where
  now : s'.now = s.now
  subs : ∀ sid sub', s'.subOf sid = some sub' → ∃ sub, s.subOf sid = some sub ∧ sub'.terms = sub.terms

theorem Keeps.of_terms (hnow : s'.now = s.now)
    (h : ∀ sid, (s'.subOf sid).map (·.terms) = (s.subOf sid).map (·.terms)) : Keeps s s' where
  now := hnow
  subs sid sub' hsub' := by
    have hterms := h sid
    rw [hsub'] at hterms
    obtain ⟨sub, hsub, heq⟩ := Option.map_eq_some_iff.mp hterms.symm
    exact ⟨sub, hsub, heq.symm⟩

theorem Keeps.of_same (hnow : s'.now = s.now) (h : s'.subscriptions = s.subscriptions) : Keeps s s' := by
  refine .of_terms hnow fun sid => ?_
  rw [subOf, h]

theorem Bystander.keeps {out : List Emit} (h : Bystander s s' out) : Keeps s s' := .of_terms h.now h.terms

theorem presenceChanged_keeps {s₁ : Authority} (identity : String) (hnow : s₁.now = s.now)
    (hsubs : s₁.subscriptions = s.subscriptions) : Keeps s (s₁.presenceChanged identity).1 := by
  obtain ⟨hrest, hsubs', -⟩ := presenceChanged_spec s₁ identity
  have hnow' : (s₁.presenceChanged identity).1.now = s₁.now := congrArg (·.now) hrest
  refine .of_terms (hnow'.trans hnow) fun sid => ?_
  rw [hsubs', Option.map_map, subOf, hsubs]
  refine congrArg (fun f => Option.map f _) (funext fun sub => ?_)
  show (s₁.refreshed [identity] sub).terms = sub.terms
  unfold refreshed
  split <;> rfl

theorem recvPresence_keeps (s : Authority) (sender : String) (m : Presence) (identity : String) :
    Keeps s (s.recvPresence sender m identity).1 := by
  have hrefused : Keeps s s := .of_same rfl rfl
  unfold recvPresence
  split
  · exact hrefused
  split
  · exact hrefused
  split
  · exact hrefused
  split
  · exact hrefused
  split
  · exact hrefused
  · exact presenceChanged_keeps identity rfl rfl

theorem recvRevocation_keeps (s : Authority) (grant : String) (validUntil : Nat)
    (identity : String) : Keeps s (s.recvRevocation grant validUntil identity).1 := by
  let s₁ : Authority := { s with revoked := s.revoked.insert (identity, grant) validUntil }
  let due : Dues := fun _ sub => if sub.grant = some grant ∧ sub.target = identity then
    some (.terminated, some "policy.terminated") else none
  obtain ⟨hrest, hsubs, -⟩ := notifyEach_spec (fun _ => rfl : ∀ s, due s.rest = due s)
    (Dict.nodup_sortedKeys s.subscriptions) s₁
  refine ⟨congrArg (·.now) hrest, ?_⟩
  intro sid sub' hsub'
  have hkept := (hsubs sid).symm.trans hsub'
  split at hkept
  · obtain ⟨sub, hsub, hans⟩ := Option.bind_eq_some_iff.mp hkept
    refine ⟨sub, hsub, ?_⟩
    simp only [answer, due] at hans
    split_ifs at hans
    obtain rfl := Option.some.inj hans
    rfl
  · exact ⟨sub', hkept, rfl⟩

theorem keeps_of_withdrawn {m : Subscribe} {device : String} (hnow : s'.now = s.now)
    (h : ∀ sid, s'.subOf sid =
      if s.existing device m = some sid then none else s.subOf sid) : Keeps s s' := by
  refine ⟨hnow, ?_⟩
  intro sid sub' hsub'
  rw [h] at hsub'
  split_ifs at hsub'
  exact ⟨sub', hsub', rfl⟩

theorem recvSubscribe_keeps {sender : String} {m : Subscribe}
    (hb : begins s (.recv sender (.subscribe m)) = none) :
    Keeps s (s.recvSubscribe sender m (s.identityOf sender)).1 := by
  have hsame : Keeps s s := .of_same rfl rfl
  unfold recvSubscribe
  split
  case isTrue hzero =>
    obtain ⟨hrest, hsubs, -⟩ := withdraw_spec s sender m "terminated"
    split
    · exact keeps_of_withdrawn (congrArg (·.now) hrest) hsubs
    · exact hsame
  case isFalse hzero =>
    cases ha : s.admission (s.identityOf sender) m with
    | none => exact hsame
    | some a => simp [begins, ha, hzero] at hb

theorem step_keeps (ev : Event) (hb : begins s ev = none) (hadv : ∀ n, ev ≠ .advance n) :
    Keeps s (s.step ev).1 := by
  cases ev with
  | advance n => exact absurd rfl (hadv n)
  | policy target pol => exact .of_same rfl rfl
  | issueCapability token target => exact .of_same rfl rfl
  | relay change identity device =>
    obtain ⟨hnow, hsubs, -⟩ := relay_spec s change identity device
    exact presenceChanged_keeps identity hnow hsubs
  | recv sender m =>
    cases m with
    | publish id publisher streamId state expiresAt variants =>
      exact (recvPublish_bystander s id publisher streamId state expiresAt variants _).keeps
    | unpublish streamId publication => exact (recvUnpublish_bystander s streamId publication _).keeps
    | provenance stream publication st =>
      exact (recvProvenance_bystander s stream publication st _).keeps
    | subscribe m => exact recvSubscribe_keeps hb
    | presence m => exact recvPresence_keeps s sender m _
    | grantRevocation grant validUntil => exact recvRevocation_keeps s grant validUntil _
    | other type => exact .of_same rfl rfl

/-- Where a subscription after a step comes from. -/
inductive Origin (s : Authority) (ev : Event) (s' : Authority) (sid : String)
    (sub' : Subscription) : Prop
  | kept {sub} (h : s.subOf sid = some sub) (hterms : sub'.terms = sub.terms)
      (hlive : s'.now = s.now ∨ lapseDue s' sub = none)
  | begun {sender m a} (hev : ev = .recv sender (.subscribe m)) (hid : m.id = sid)
      (hne : m.expiresIn ≠ 0) (ha : s.admission (s.identityOf sender) m = some a)
      (hterms : sub'.terms = s.newSubscription sender (s.identityOf sender) m a)
      (hnow : s'.now = s.now)

theorem begins_eq_some {b : String} (h : begins s ev = some b) :
    ∃ sender m a, ev = .recv sender (.subscribe m) ∧ m.id = b ∧ m.expiresIn ≠ 0 ∧
      s.admission (s.identityOf sender) m = some a := by
  unfold begins at h
  split at h
  · split_ifs at h with hadmitted
    obtain ⟨hne, ha⟩ := hadmitted
    obtain ⟨a, ha⟩ := Option.isSome_iff_exists.mp ha
    exact ⟨_, _, a, rfl, Option.some.inj h, hne, ha⟩
  · cases h

theorem step_origin (s : Authority) (ev : Event) {sub' : Subscription}
    (h : (s.step ev).1.subOf sid = some sub') : Origin s ev (s.step ev).1 sid sub' := by
  cases hb : begins s ev with
  | some b =>
    obtain ⟨sender, m, a, rfl, rfl, hne, ha⟩ := begins_eq_some hb
    obtain ⟨body, hrest, -, hsubs, -⟩ := @recvSubscribe_admitted s sender _ m a hne ha
    have hnow : (s.step (.recv sender (.subscribe m))).1.now = s.now := congrArg (·.now) hrest
    have hsub := (hsubs sid).symm.trans h
    split_ifs at hsub with hid hex
    · obtain rfl := Option.some.inj hsub
      exact .begun rfl hid.symm hne ha rfl hnow
    · exact .kept hsub rfl (.inl hnow)
  | none =>
    by_cases hadv : ∃ n, ev = .advance n
    · obtain ⟨n, rfl⟩ := hadv
      have hterms := expire_terms { s with now := s.now + n } sid
      have hnow := expire_now { s with now := s.now + n }
      have h' : (expire { s with now := s.now + n }).1.subOf sid = some sub' := h
      rw [h'] at hterms
      obtain ⟨sub, hsub, hterms⟩ := Option.map_eq_some_iff.mp hterms.symm
      obtain ⟨hsub, hlive⟩ := Option.filter_eq_some_iff.mp hsub
      refine .kept hsub hterms.symm (.inr ?_)
      exact (congrFun (lapseDue_of_now hnow) sub).trans (of_decide_eq_true hlive)
    · obtain ⟨hnow, hkept⟩ := step_keeps ev hb fun n hev => hadv ⟨n, hev⟩
      obtain ⟨sub, hsub, hterms⟩ := hkept sid sub' h
      exact .kept hsub hterms (.inl hnow)

/-! ## Time -/

/-- No subscription's time, or admitting grant's, is up. -/
def Unlapsed (s : Authority) : Prop :=
  ∀ sid sub, s.subOf sid = some sub → s.now < sub.expiresAt ∧ ∀ g, sub.grantUntil = some g → s.now < g

theorem lapseDue_eq_none {sub : Subscription} :
    lapseDue s sub = none ↔ s.now < sub.expiresAt ∧ ∀ g, sub.grantUntil = some g → s.now < g := by
  unfold lapseDue
  split_ifs with hexpired hgrant
  · simp [Nat.not_lt.mpr hexpired]
  · obtain ⟨g, hg, hle⟩ := Option.any_eq_true _ _ |>.mp hgrant
    simp only [false_iff, not_and]
    exact fun _ h => absurd (h g hg) (Nat.not_lt.mpr (of_decide_eq_true hle))
  · refine iff_of_true rfl ⟨Nat.lt_of_not_le hexpired, fun g hg => ?_⟩
    refine Nat.lt_of_not_le fun hle => hgrant ?_
    rw [hg]
    exact decide_eq_true hle

theorem lifetime_pos {m : Subscribe} (h : m.expiresIn ≠ 0) : 0 < lifetime m := by
  unfold lifetime
  refine Nat.lt_min.mpr ⟨Nat.pos_of_ne_zero h, ?_⟩
  have hmem := @List.min_mem Nat _ _ (m.events.map subscriptionCap) fun h =>
    m.nonempty (List.map_eq_nil_iff.mp h)
  obtain ⟨event, -, hcap⟩ := List.mem_map.mp hmem
  rw [← hcap]
  unfold subscriptionCap
  split <;> omega

theorem admitPresence_grantUntil {target identity : String} {m : Subscribe} {a : Admission} {g : Nat}
    (ha : s.admitPresence target identity m = some a) (hg : a.grantUntil = some g) : s.now < g := by
  unfold admitPresence at ha
  split at ha
  · obtain rfl := Option.some.inj ha
    cases hg
  split at ha
  case h_1 grant hgrant =>
    obtain rfl := Option.some.inj ha
    obtain rfl := Option.some.inj hg
    have hadmits := List.find?_some hgrant
    unfold admits at hadmits
    have hall := of_decide_eq_true hadmits
    exact hall.2.2.2.2.1
  split at ha
  · obtain rfl := Option.some.inj ha
    cases hg
  split at ha
  · cases ha
  split at ha
  · obtain rfl := Option.some.inj ha
    cases hg
  · cases ha

theorem admission_grantUntil {identity : String} {m : Subscribe} {a : Admission} {g : Nat}
    (ha : s.admission identity m = some a) (hg : a.grantUntil = some g) : s.now < g := by
  unfold admission at ha
  split at ha
  · cases ha
  split at ha
  · exact admitPresence_grantUntil ha hg
  split at ha
  · obtain rfl := Option.some.inj ha
    cases hg
  · cases ha

theorem unlapsed_step (s : Authority) (ev : Event) (h : s.Unlapsed) : (s.step ev).1.Unlapsed := by
  intro sid sub' hsub'
  cases step_origin s ev hsub' with
  | @kept sub hsub hterms hlive =>
    have hsame : lapseDue (s.step ev).1 sub' = lapseDue (s.step ev).1 sub :=
      (congrArg (lapseDue (s.step ev).1) hterms :
        lapseDue (s.step ev).1 sub'.terms = lapseDue (s.step ev).1 sub.terms)
    rw [← lapseDue_eq_none, hsame]
    rcases hlive with hnow | hlive
    · rw [lapseDue_of_now hnow]
      exact lapseDue_eq_none.mpr (h sid sub hsub)
    · exact hlive
  | @begun sender m a hev hid hne ha hterms hnow =>
    have hexpires : sub'.expiresAt = s.now + lifetime m := congrArg (·.expiresAt) hterms
    have hgrant : sub'.grantUntil = a.grantUntil := congrArg (·.grantUntil) hterms
    have hpos := lifetime_pos hne
    refine ⟨by omega, fun g hg => ?_⟩
    rw [hnow]
    exact admission_grantUntil ha (hgrant.symm.trans hg)

/-! ## Bodies -/

theorem upToDate_step (s : Authority) (ev : Event) (h : s.UpToDate) : (s.step ev).1.UpToDate := by
  intro sid sub' hsub' hpresence
  have hp : begins s ev ≠ some sid → s.ForPresence sid := by
    intro hb sub hsub
    cases step_origin s ev hsub' with
    | @kept sub₁ hsub₁ hterms hlive =>
      obtain rfl := Option.some.inj (hsub.symm.trans hsub₁)
      exact (Subscription.presenceOnly_of_terms hterms).mp hpresence
    | @begun sender m a hev hid hne ha hterms hnow =>
      refine absurd ?_ hb
      subst hev hid
      simp [begins, hne, ha]
  have hcourse := step_course h ev hp
  generalize noticesTo sid (s.step ev).2 = l at hcourse
  cases hcourse with
  | absent hb _ h' => cases h'.symm.trans hsub'
  | @steady sub hb hsub h' hbody =>
    obtain rfl := Option.some.inj (h'.symm.trans hsub')
    rw [h sid sub hsub hpresence, hbody]
  | @changed sub hb hsub h' hbody =>
    obtain rfl := Option.some.inj (h'.symm.trans hsub')
    rfl
  | @began sub hb hseq h' =>
    obtain rfl := Option.some.inj (h'.symm.trans hsub')
    rfl
  | ended _ _ h' => cases h'.symm.trans hsub'
  | withdrawn _ _ h' => cases h'.symm.trans hsub'

/-! ## One subscription a device, target and events -/

/-- A device has at most one subscription for a target and events. -/
def Unique (s : Authority) : Prop :=
  ∀ sid sid' sub sub', s.subOf sid = some sub → s.subOf sid' = some sub' →
    sub'.matches sub.device sub.target sub.events = true → sid = sid'

theorem Unique.of_kept (hu : s.Unique) (h : ∀ sid sub', s'.subOf sid = some sub' →
      ∃ sub, s.subOf sid = some sub ∧ sub'.terms = sub.terms) : s'.Unique := by
  intro sid₁ sid₂ sub₁' sub₂' h₁' h₂' hmatches
  obtain ⟨sub₁, h₁, hterms₁⟩ := h sid₁ sub₁' h₁'
  obtain ⟨sub₂, h₂, hterms₂⟩ := h sid₂ sub₂' h₂'
  refine hu sid₁ sid₂ sub₁ sub₂ h₁ h₂ ?_
  have hsame : sub₂'.terms.matches sub₁'.terms.device sub₁'.terms.target sub₁'.terms.events = true := hmatches
  rw [hterms₁, hterms₂] at hsame
  exact hsame

/-- With one at most, the subscription a `subscribe` renews or ends is the one
that matches, whatever the order they are kept in. -/
theorem Unique.existing_eq_some (hu : s.Unique) {device : String} {m : Subscribe} :
    s.existing device m = some sid ↔
      ∃ sub, s.subOf sid = some sub ∧ sub.matches device m.target m.events = true := by
  refine ⟨existing_matches, ?_⟩
  rintro ⟨sub, hsub, hmatches⟩
  have hsome : (s.existing device m).isSome := by
    unfold existing
    rw [Option.isSome_map, List.find?_isSome]
    exact ⟨⟨sid, sub⟩, AList.mem_lookup_iff.mp hsub, hmatches⟩
  obtain ⟨sid', hex⟩ := Option.isSome_iff_exists.mp hsome
  obtain ⟨sub', hsub', hmatches'⟩ := existing_matches hex
  have hown := of_decide_eq_true hmatches'
  rw [hex, hu sid' sid sub' sub hsub' hsub]
  rw [hown.1, hown.2.1, hown.2.2]
  exact hmatches

theorem unique_step (s : Authority) (ev : Event) (hu : s.Unique) : (s.step ev).1.Unique := by
  cases hb : begins s ev with
  | none =>
    refine hu.of_kept fun sid sub' hsub' => ?_
    cases step_origin s ev hsub' with
    | kept hsub hterms _ => exact ⟨_, hsub, hterms⟩
    | begun hev hid hne ha => simp [hev, begins, hne, ha] at hb
  | some b =>
    obtain ⟨sender, m, a, rfl, rfl, hne, ha⟩ := begins_eq_some hb
    obtain ⟨body, -, -, hsubs, -⟩ := @recvSubscribe_admitted s sender _ m a hne ha
    have hothers : ∀ sid sub', sid ≠ m.id → (s.step (.recv sender (.subscribe m))).1.subOf sid = some sub' →
        s.subOf sid = some sub' ∧ sub'.matches sender m.target m.events = false := by
      intro sid sub' hid hsub'
      have hsub := (hsubs sid).symm.trans hsub'
      rw [if_neg hid] at hsub
      split_ifs at hsub with hex
      refine ⟨hsub, Bool.eq_false_iff.mpr fun hmatches => hex ?_⟩
      exact hu.existing_eq_some.mpr ⟨sub', hsub, hmatches⟩
    have hnew : ∀ sub', (s.step (.recv sender (.subscribe m))).1.subOf m.id = some sub' →
        sub'.device = sender ∧ sub'.target = m.target ∧ sub'.events = m.events := by
      intro sub' hsub'
      have hsub := (hsubs m.id).symm.trans hsub'
      rw [if_pos rfl] at hsub
      obtain rfl := Option.some.inj hsub
      exact ⟨rfl, rfl, rfl⟩
    intro sid₁ sid₂ sub₁ sub₂ h₁ h₂ hmatches
    by_cases hid₁ : sid₁ = m.id <;> by_cases hid₂ : sid₂ = m.id
    · rw [hid₁, hid₂]
    · subst hid₁
      obtain ⟨hd, ht, he⟩ := hnew sub₁ h₁
      rw [hd, ht, he, (hothers sid₂ sub₂ hid₂ h₂).2] at hmatches
      cases hmatches
    · subst hid₂
      obtain ⟨hd, ht, he⟩ := hnew sub₂ h₂
      have hown := of_decide_eq_true hmatches
      have hmatches' : sub₁.matches sender m.target m.events = true :=
        decide_eq_true ⟨hown.1.symm.trans hd, hown.2.1.symm.trans ht, hown.2.2.symm.trans he⟩
      rw [(hothers sid₁ sub₁ hid₁ h₁).2] at hmatches'
      cases hmatches'
    · exact hu sid₁ sid₂ sub₁ sub₂ (hothers sid₁ sub₁ hid₁ h₁).1
        (hothers sid₂ sub₂ hid₂ h₂).1 hmatches

/-! ## Every reachable state -/

/-- What holds in every state. -/
structure Sound (s : Authority) : Prop where
  unlapsed : s.Unlapsed
  upToDate : s.UpToDate
  unique : s.Unique

theorem sound_invariant (ctx : Context) : (machine ctx).Invariant Sound := by
  refine TSys.Inductive.invariant ⟨?_, ?_⟩
  · rintro s rfl
    have hnone : ∀ sid sub, (init ctx).subOf sid ≠ some sub := fun _ _ h => by cases h
    exact ⟨fun _ _ h => absurd h (hnone _ _), fun _ _ h => absurd h (hnone _ _),
      fun _ _ _ _ h => absurd h (hnone _ _)⟩
  · intro s ev out s' h hs
    obtain rfl : (s.step ev).1 = s' := congrArg Prod.fst hs
    exact ⟨unlapsed_step s ev h.unlapsed, upToDate_step s ev h.upToDate, unique_step s ev h.unique⟩

end Authority

end Dsip.Broadcast
