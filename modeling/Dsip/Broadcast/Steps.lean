import Dsip.Broadcast.Expiry

/-!
# One step of the authority

Event by event, what a step does to a presence subscription (`step_course`), and
where every subscription after it comes from (`step_origin`).
-/

namespace Dsip.Broadcast.Authority

open Dsip.Lib

variable {s s' : Authority} {ev : Event} {sid : String}

/-! ## Changes of a subject's presence -/

theorem presenceChanged_course {s₁ : Authority} {identity : String} (hup : s.UpToDate)
    (hb : begins s ev ≠ some sid) (hp : s.ForPresence sid)
    (hsubs : s₁.subscriptions = s.subscriptions) (hrecords : ∀ k : RecordKey, k.subject ≠ identity →
      s₁.records.lookup k = s.records.lookup k)
    (hbound : ∀ subject, subject ≠ identity → s₁.boundOf subject = s.boundOf subject) :
    Course s ev (s₁.presenceChanged identity).1 sid
      (noticesTo sid (s₁.presenceChanged identity).2) := by
  obtain ⟨hrest, hsubs', hnotices⟩ := presenceChanged_spec s₁ identity
  refine Course.of_refresh hup hb hp (congrArg (AList.lookup sid) hsubs) ?_ hrest (hsubs' sid)
    (hnotices sid)
  intro sub hsub htarget
  have hne : sub.target ≠ identity := fun h => htarget (List.mem_singleton.mpr h)
  exact bodyFor_congr hsub (fun k hk => hrecords k (hk ▸ hne)) (hbound _ hne)

theorem recvPresence_course (hup : s.UpToDate) (hb : begins s ev ≠ some sid)
    (hp : s.ForPresence sid) (sender : String) (m : Presence) (identity : String) :
    Course s ev (s.recvPresence sender m identity).1 sid
      (noticesTo sid (s.recvPresence sender m identity).2) := by
  have hrefused : ∀ reason retryAfter,
      Course s ev s sid (noticesTo sid (refuse sender m.id reason retryAfter)) :=
    fun _ _ => .of_same hb hp rfl rfl rfl
  unfold recvPresence
  split
  · exact hrefused _ _
  split
  · exact hrefused _ _
  split
  · exact hrefused _ _
  split
  · exact hrefused _ _
  split
  · exact hrefused _ _
  · refine presenceChanged_course hup hb hp rfl ?_ fun _ _ => rfl
    intro k hk
    refine AList.lookup_insert_ne ?_
    rintro rfl
    exact hk rfl

theorem relay_spec (s : Authority) (change : RelayChange) (identity device : String) :
    (s.relay change identity device).now = s.now ∧
    (s.relay change identity device).subscriptions = s.subscriptions ∧
    (∀ k : RecordKey, k.subject ≠ identity →
      (s.relay change identity device).records.lookup k = s.records.lookup k) ∧
    ∀ subject, subject ≠ identity → (s.relay change identity device).boundOf subject = s.boundOf subject := by
  cases change with
  | bind =>
    refine ⟨rfl, rfl, fun _ _ => rfl, ?_⟩
    intro subject hne
    unfold relay boundOf
    dsimp only
    rw [AList.lookup_insert_ne hne]
  | unbind =>
    have hunbind : ∀ subject, subject ≠ identity → ((if identity ∈ s.bound then
          s.bound.insert identity ((s.boundOf identity).erase device)
          else s.bound).lookup subject).getD ∅ = s.boundOf subject := by
      intro subject hne
      unfold boundOf
      split
      · rw [AList.lookup_insert_ne hne]
      · rfl
    unfold relay
    dsimp only
    generalize (if identity ∈ s.bound then
      s.bound.insert identity ((s.boundOf identity).erase device) else s.bound) = bound'
      at hunbind ⊢
    split
    · split
      · exact ⟨rfl, rfl, fun k hk => dropDevice_lookup _ _ hk, hunbind⟩
      · exact ⟨rfl, rfl, fun _ _ => rfl, hunbind⟩
    · exact ⟨rfl, rfl, fun _ _ => rfl, hunbind⟩

/-! ## Revocations -/

theorem recvRevocation_course (sender grant : String) (validUntil : Nat) :
    Course s (.recv sender (.grantRevocation grant validUntil))
      (s.recvRevocation grant validUntil (s.identityOf sender)).1 sid
      (noticesTo sid (s.recvRevocation grant validUntil (s.identityOf sender)).2) := by
  have hb : begins s (.recv sender (.grantRevocation grant validUntil)) ≠ some sid := by
    simp [begins]
  let s₁ : Authority := { s with revoked := s.revoked.insert (s.identityOf sender, grant) validUntil }
  let due : Dues := fun _ sub =>
    if sub.grant = some grant ∧ sub.target = s.identityOf sender then
      some (.terminated, some "policy.terminated") else none
  obtain ⟨hrest, hsubs, hnotices⟩ := notifyEach_spec (fun _ => rfl : ∀ s, due s.rest = due s)
    (Dict.nodup_sortedKeys s.subscriptions) s₁
  show Course s _ (s₁.notifyEach due s.subscriptions.sortedKeys).1 sid
    (noticesTo sid (s₁.notifyEach due s.subscriptions.sortedKeys).2)
  have hsub₁ := hsubs sid
  rw [hnotices]
  cases hsub : s.subOf sid with
  | none =>
    have hsub₀ : s₁.subOf sid = none := hsub
    rw [hsub₀, Option.bind_none, ite_self] at hsub₁
    rw [Option.elim_none, ite_self]
    exact .absent hb hsub hsub₁
  | some sub =>
    have hsub₀ : s₁.subOf sid = some sub := hsub
    have hmem : sid ∈ s.subscriptions.sortedKeys :=
      Dict.mem_sortedKeys.mpr (Dict.mem_iff_lookup.mpr ⟨sub, hsub⟩)
    rw [if_pos hmem, hsub₀] at hsub₁
    rw [if_pos hmem]
    simp only [Option.bind_some, Option.elim_some, answer, due] at hsub₁ ⊢
    by_cases hdue : sub.grant = some grant ∧ sub.target = s.identityOf sender
    · rw [if_pos hdue] at hsub₁ ⊢
      exact .ended hb hsub hsub₁ (.revoked rfl hdue.1 hdue.2)
    · rw [if_neg hdue] at hsub₁ ⊢
      exact .steady hb hsub hsub₁ (bodyFor_of_rest hrest sub)

/-! ## Subscribing -/

theorem existing_matches {device : String} {m : Subscribe} (h : s.existing device m = some sid) :
    ∃ sub, s.subOf sid = some sub ∧ sub.matches device m.target m.events = true := by
  obtain ⟨e, he, rfl⟩ := Option.map_eq_some_iff.mp h
  have hmatches := List.find?_some he
  exact ⟨e.2, AList.mem_lookup_iff.mpr (List.mem_of_find?_eq_some he), hmatches⟩

theorem withdraw_spec (s : Authority) (device : String) (m : Subscribe) (state : String) :
    (s.withdraw device m state).1.rest = s.rest ∧
    (∀ sid, (s.withdraw device m state).1.subOf sid =
      if s.existing device m = some sid then none else s.subOf sid) ∧
    ∀ sid, noticesTo sid (s.withdraw device m state).2 = [] := by
  unfold withdraw
  split
  case h_1 h => exact ⟨rfl, fun sid => by simp [h], fun _ => rfl⟩
  case h_2 sid' h =>
    refine ⟨rfl, ?_, fun _ => rfl⟩
    intro sid
    rw [subOf, Dict.lookup_erase_eq]
    simp only [h, Option.some.injEq, eq_comm]

theorem withdrawn_course {sender : String} {m : Subscribe} (hp : s.ForPresence sid)
    (hb : begins s (.recv sender (.subscribe m)) ≠ some sid)
    (hsubs : s'.subOf sid = if s.existing sender m = some sid then none else s.subOf sid)
    (hrecords : s'.records = s.records) (hbound : s'.bound = s.bound) :
    Course s (.recv sender (.subscribe m)) s' sid [] := by
  by_cases hex : s.existing sender m = some sid
  · rw [if_pos hex] at hsubs
    obtain ⟨sub, hsub, hmatches⟩ := existing_matches hex
    exact .withdrawn hb hsub hsubs rfl hmatches
  · rw [if_neg hex] at hsubs
    exact .of_same hb hp hsubs hrecords hbound

theorem recvSubscribe_admitted {sender identity : String} {m : Subscribe} {a : Admission}
    (hne : m.expiresIn ≠ 0) (ha : s.admission identity m = some a) :
    ∃ body, (s.recvSubscribe sender m identity).1.rest = s.rest ∧
      body = s.bodyFor (s.newSubscription sender identity m a) ∧
      (∀ sid, (s.recvSubscribe sender m identity).1.subOf sid =
        if sid = m.id then some ((s.newSubscription sender identity m a).told body)
        else if s.existing sender m = some sid then none else s.subOf sid) ∧
      ∀ sid, noticesTo sid (s.recvSubscribe sender m identity).2 =
        if sid = m.id then [⟨1, .active, none, body⟩] else [] := by
  obtain ⟨hrest, hsubs, hnotices⟩ := withdraw_spec s sender m "replaced"
  unfold recvSubscribe
  rw [if_neg hne, ha]
  dsimp only
  generalize s.withdraw sender m "replaced" = r at hrest hsubs hnotices ⊢
  obtain ⟨s₁, out⟩ := r
  dsimp only at hrest hsubs hnotices ⊢
  have hnew : s₁.newSubscription sender identity m a = s.newSubscription sender identity m a :=
    (congrArg (fun r : Authority => r.newSubscription sender identity m a) hrest :
      s₁.rest.newSubscription sender identity m a = s.rest.newSubscription sender identity m a)
  have hbody := bodyFor_of_rest hrest (s.newSubscription sender identity m a)
  unfold notify
  simp only [AList.lookup_insert, hnew]
  refine ⟨_, hrest, hbody, ?_, ?_⟩
  · intro sid
    rw [← hsubs]
    by_cases hsid : sid = m.id
    · rw [if_pos hsid, hsid]
      exact AList.lookup_insert _
    · rw [if_neg hsid]
      exact (AList.lookup_insert_ne hsid).trans (AList.lookup_insert_ne hsid)
  · intro sid
    rw [noticesTo_append, hnotices, List.nil_append]
    exact (noticesTo_map_notify sid m.id sender [⟨1, .active, none, _⟩]).trans
      (if_congr eq_comm rfl rfl)

theorem recvSubscribe_course {sender : String} {m : Subscribe}
    (hp : begins s (.recv sender (.subscribe m)) ≠ some sid → s.ForPresence sid) :
    Course s (.recv sender (.subscribe m)) (s.recvSubscribe sender m (s.identityOf sender)).1 sid
      (noticesTo sid (s.recvSubscribe sender m (s.identityOf sender)).2) := by
  by_cases hzero : m.expiresIn = 0
  · have hb : begins s (.recv sender (.subscribe m)) ≠ some sid := by simp [begins, hzero]
    obtain ⟨hrest, hsubs, hnotices⟩ := withdraw_spec s sender m "terminated"
    unfold recvSubscribe
    rw [if_pos hzero]
    split
    · rw [hnotices]
      exact withdrawn_course (hp hb) hb (hsubs sid) (congrArg (·.records) hrest)
        (congrArg (·.bound) hrest)
    · exact .of_same hb (hp hb) rfl rfl rfl
  · cases ha : s.admission (s.identityOf sender) m with
    | none =>
      have hb : begins s (.recv sender (.subscribe m)) ≠ some sid := by simp [begins, ha]
      unfold recvSubscribe
      rw [if_neg hzero, ha]
      exact .of_same hb (hp hb) rfl rfl rfl
    | some a =>
      obtain ⟨body, hrest, rfl, hsubs, hnotices⟩ := @recvSubscribe_admitted s sender _ m a hzero ha
      have hbegins : begins s (.recv sender (.subscribe m)) = some m.id := by
        simp [begins, ha, hzero]
      rw [hnotices]
      by_cases hsid : sid = m.id
      · have hsub := hsubs sid
        rw [if_pos hsid, ← bodyFor_of_rest hrest] at hsub
        rw [if_pos hsid, ← bodyFor_of_rest hrest]
        exact .began (hsid ▸ hbegins) rfl hsub
      · have hb : begins s (.recv sender (.subscribe m)) ≠ some sid := by
          rw [hbegins]
          exact fun h => hsid (Option.some.inj h).symm
        rw [if_neg hsid]
        exact withdrawn_course (hp hb) hb ((hsubs sid).trans (if_neg hsid))
          (congrArg (·.records) hrest) (congrArg (·.bound) hrest)

/-! ## Every event -/

theorem Bystander.course {out : List Emit} (h : Bystander s s' out) (hb : begins s ev ≠ some sid)
    (hp : s.ForPresence sid) : Course s ev s' sid (noticesTo sid out) := by
  obtain ⟨hsame, hnone⟩ := h.others sid fun sub hsub => (hp sub hsub).2
  rw [hnone]
  exact .of_same hb hp hsame h.records h.bound

theorem step_course (hup : s.UpToDate) (ev : Event) (hp : begins s ev ≠ some sid → s.ForPresence sid) :
    Course s ev (s.step ev).1 sid (noticesTo sid (s.step ev).2) := by
  cases ev with
  | advance n => exact expire_course hup (hp (by simp [begins]))
  | policy target pol =>
    have hb : begins s (.policy target pol) ≠ some sid := by simp [begins]
    exact .of_same hb (hp hb) rfl rfl rfl
  | issueCapability token target =>
    have hb : begins s (.issueCapability token target) ≠ some sid := by simp [begins]
    exact .of_same hb (hp hb) rfl rfl rfl
  | relay change identity device =>
    have hb : begins s (.relay change identity device) ≠ some sid := by simp [begins]
    obtain ⟨-, hsubs, hrecords, hbound⟩ := relay_spec s change identity device
    exact presenceChanged_course hup hb (hp hb) hsubs hrecords hbound
  | recv sender m =>
    cases m with
    | publish id publisher streamId state expiresAt variants =>
      have hb : begins s (.recv sender (.publish id publisher streamId state expiresAt variants)) ≠
          some sid := by simp [begins]
      exact (recvPublish_bystander s id publisher streamId state expiresAt variants _).course hb
        (hp hb)
    | unpublish streamId publication =>
      have hb : begins s (.recv sender (.unpublish streamId publication)) ≠ some sid := by
        simp [begins]
      exact (recvUnpublish_bystander s streamId publication _).course hb (hp hb)
    | provenance stream publication st =>
      have hb : begins s (.recv sender (.provenance stream publication st)) ≠ some sid := by
        simp [begins]
      exact (recvProvenance_bystander s stream publication st _).course hb (hp hb)
    | subscribe m => exact recvSubscribe_course hp
    | presence m =>
      have hb : begins s (.recv sender (.presence m)) ≠ some sid := by simp [begins]
      exact recvPresence_course hup hb (hp hb) sender m _
    | grantRevocation grant validUntil => exact recvRevocation_course sender grant validUntil
    | other type =>
      have hb : begins s (.recv sender (.other type)) ≠ some sid := by simp [begins]
      exact .of_same hb (hp hb) rfl rfl rfl

end Dsip.Broadcast.Authority
