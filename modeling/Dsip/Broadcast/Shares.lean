import Dsip.Broadcast.Life

/-!
# Shares that have ended

A grant is a share of its granting identity's presence. `Ended` is the state it
leaves: its time is up, or its revocation is kept as long as it would have run;
no subscription is admitted by it then, for as long as no event shortens the
revocation (`ended_path`). `Admitted` is the rule of an admission, and
`exists_begunBy` finds the one of each presence subscription.
-/

namespace Dsip.Broadcast.Authority

open Dsip.Lib

variable {s s' : Authority} {ev : Event} {sid : String}

/-! ## Revocations kept -/

theorem notifyEach_rest (due : Dues) (ids : List String) (s : Authority) :
    (s.notifyEach due ids).1.rest = s.rest :=
  foldEmit_invariant (P := fun s' => s'.rest = s.rest)
    (fun sid _ s' hs' => (notifyTurn_spec due s' sid).1.trans hs') s rfl

theorem published_revoked (s : Authority) (stream : String) (e : Emit) :
    (s.published stream e).1.revoked = s.revoked :=
  congrArg (·.revoked) (notifyEach_rest _ _ s)

theorem expireStreams_revoked (streams : List String) (s : Authority) :
    (foldEmit expireStream s streams).1.revoked = s.revoked := by
  refine foldEmit_invariant (P := fun s' => s'.revoked = s.revoked) ?_ s rfl
  intro stream _ s' hs'
  unfold expireStream
  split
  · exact hs'
  split
  · exact (published_revoked _ stream _).trans hs'
  · exact hs'

theorem expireRecords_revoked (items : List (RecordKey × PresenceRecord))
    (st : Authority × Finset String) : (items.foldl expireRecord st).1.revoked = st.1.revoked := by
  induction items generalizing st with
  | nil => rfl
  | cons e items ih =>
    rw [List.foldl_cons, ih]
    unfold expireRecord
    split_ifs <;> rfl

theorem refresh_revoked (subjects : List String) (s : Authority) :
    (foldEmit presenceChanged s subjects).1.revoked = s.revoked :=
  congrArg (·.revoked) (refresh_spec subjects s).1

theorem expire_revoked (s : Authority) :
    s.expire.1.revoked = s.revoked.filter fun _ validUntil => s.now < validUntil := by
  have hrest := notifyEach_rest lapseDue s.subscriptions.sortedKeys s
  have hrevoked : (s.notifyEach lapseDue s.subscriptions.sortedKeys).1.revoked = s.revoked :=
    congrArg (·.revoked) hrest
  have hnow : (s.notifyEach lapseDue s.subscriptions.sortedKeys).1.now = s.now := congrArg (·.now) hrest
  unfold expire
  dsimp only
  rw [refresh_revoked]
  dsimp only
  rw [expireRecords_revoked]
  dsimp only
  rw [expireStreams_revoked]
  dsimp only
  rw [hrevoked, hnow]

/-- The revocations kept after an event. -/
def revokedAfter (s : Authority) : Event → Dict (String × String) Nat
  | .advance n => s.revoked.filter fun _ validUntil => s.now + n < validUntil
  | .recv sender (.grantRevocation grant validUntil) =>
    s.revoked.insert (s.identityOf sender, grant) validUntil
  | _ => s.revoked

theorem presenceChanged_revoked (s : Authority) (identity : String) :
    (s.presenceChanged identity).1.revoked = s.revoked :=
  congrArg (·.revoked) (notifyEach_rest _ _ s)

theorem recvPresence_revoked (s : Authority) (sender : String) (m : Presence) (identity : String) :
    (s.recvPresence sender m identity).1.revoked = s.revoked := by
  unfold recvPresence
  split
  · rfl
  split
  · rfl
  split
  · rfl
  split
  · rfl
  split
  · rfl
  · exact presenceChanged_revoked _ identity

theorem relay_revoked (s : Authority) (change : RelayChange) (identity device : String) :
    (s.relay change identity device).revoked = s.revoked := by
  cases change with
  | bind => rfl
  | unbind =>
    unfold relay
    dsimp only
    generalize (if identity ∈ s.bound then
      s.bound.insert identity ((s.boundOf identity).erase device) else s.bound) = bound'
    split
    · split <;> rfl
    · rfl

theorem recvSubscribe_revoked (s : Authority) (sender : String) (m : Subscribe)
    (identity : String) : (s.recvSubscribe sender m identity).1.revoked = s.revoked := by
  have hwithdraw : ∀ state, (s.withdraw sender m state).1.revoked = s.revoked :=
    fun state => congrArg (·.revoked) (withdraw_spec s sender m state).1
  by_cases hzero : m.expiresIn = 0
  · unfold recvSubscribe
    rw [if_pos hzero]
    split
    · exact hwithdraw _
    · rfl
  · cases ha : s.admission identity m with
    | none =>
      unfold recvSubscribe
      rw [if_neg hzero, ha]
    | some a =>
      obtain ⟨body, hrest, -⟩ := @recvSubscribe_admitted s sender identity m a hzero ha
      exact congrArg (·.revoked) hrest

theorem step_revoked (s : Authority) (ev : Event) : (s.step ev).1.revoked = revokedAfter s ev := by
  cases ev with
  | advance n => exact expire_revoked { s with now := s.now + n }
  | policy target pol => rfl
  | issueCapability token target => rfl
  | relay change identity device =>
    exact (presenceChanged_revoked _ identity).trans (relay_revoked s change identity device)
  | recv sender m =>
    cases m with
    | publish id publisher streamId state expiresAt variants =>
      show (s.recvPublish ..).1.revoked = s.revoked
      unfold recvPublish
      split
      · rfl
      split
      · rfl
      split
      · rfl
      · exact published_revoked _ streamId _
    | unpublish streamId publication =>
      show (s.recvUnpublish ..).1.revoked = s.revoked
      unfold recvUnpublish
      split
      · rfl
      split
      · rfl
      · exact published_revoked _ streamId _
    | provenance stream publication st =>
      show (s.recvProvenance ..).1.revoked = s.revoked
      unfold recvProvenance
      split
      · rfl
      split
      · rfl
      split
      · rfl
      · exact published_revoked _ stream _
    | subscribe m => exact recvSubscribe_revoked s sender m _
    | presence m => exact recvPresence_revoked s sender m _
    | grantRevocation grant validUntil => exact congrArg (·.revoked) (notifyEach_rest _ _ _)
    | other type => rfl

theorem step_now (s : Authority) (ev : Event) : s.now ≤ (s.step ev).1.now := by
  cases hb : begins s ev with
  | some b =>
    obtain ⟨sender, m, a, rfl, -, hne, ha⟩ := begins_eq_some hb
    obtain ⟨body, hrest, -⟩ := @recvSubscribe_admitted s sender _ m a hne ha
    exact le_of_eq (congrArg (·.now) hrest).symm
  | none =>
    by_cases hadv : ∃ n, ev = .advance n
    · obtain ⟨n, rfl⟩ := hadv
      exact le_of_le_of_eq (Nat.le_add_right s.now n) (expire_now { s with now := s.now + n }).symm
    · exact le_of_eq (step_keeps ev hb fun n hev => hadv ⟨n, hev⟩).now.symm

/-! ## The rule of an admission -/

/-- The rule that admitted a presence subscriber, and what it fixes. -/
inductive Admitted (s : Authority) (identity : String) (m : Subscribe) : Admission → Prop
  | own (h : identity = m.target) : Admitted s identity m { own := true }
  | grant {g} (hg : g ∈ grantsOf m.claims) (hverified : g.verified = true)
      (hidentity : g.identity = m.target) (hgrantee : g.grantee = identity)
      (hscope : "dsip.subscribe" ∈ g.scope) (hlive : s.now < g.validUntil)
      (hunrevoked : (m.target, g.id) ∉ s.revoked) :
      Admitted s identity m
        { grant := some g.id, grantUntil := some g.validUntil, audience := g.presenceAudience }
  | capability {token} (htoken : m.capability = some token)
      (h : s.capabilities.lookup token = some m.target) : Admitted s identity m {}
  | policy {pol} (hpol : s.policy.lookup m.target = some pol)
      (h : pol.mode = "public" ∨ identity ∈ pol.allow) :
      Admitted s identity m { audience := pol.audience }

theorem admitted_of_admitPresence {identity : String} {m : Subscribe} {a : Admission}
    (h : s.admitPresence m.target identity m = some a) : Admitted s identity m a := by
  unfold admitPresence at h
  split at h
  case isTrue hown =>
    obtain rfl := Option.some.inj h
    exact .own hown
  split at h
  case h_1 g hg =>
    obtain rfl := Option.some.inj h
    have hadmits := List.find?_some hg
    obtain ⟨hverified, hidentity, hgrantee, hscope, hlive, hunrevoked⟩ := of_decide_eq_true hadmits
    exact .grant (List.mem_of_find?_eq_some hg) hverified hidentity hgrantee hscope hlive hunrevoked
  split at h
  case isTrue hcapability =>
    obtain rfl := Option.some.inj h
    obtain ⟨token, htoken, hlookup⟩ := Option.any_eq_true _ _ |>.mp hcapability
    exact .capability htoken (of_decide_eq_true hlookup)
  split at h
  · cases h
  case h_2 pol hpol =>
    split at h
    case isTrue hallowed =>
      obtain rfl := Option.some.inj h
      exact .policy hpol hallowed
    · cases h

theorem admitted_of_admission {identity : String} {m : Subscribe} {a : Admission}
    (h : s.admission identity m = some a) :
    ("presence" ∈ m.events → Admitted s identity m a) ∧ ("presence" ∉ m.events → a = {}) := by
  unfold admission at h
  split at h
  · cases h
  split at h
  case isTrue hp => exact ⟨fun _ => admitted_of_admitPresence h, fun hno => absurd hp hno⟩
  case isFalse hp =>
    split at h
    · exact ⟨fun hyes => absurd hyes hp, fun _ => (Option.some.inj h).symm⟩
    · cases h

/-! ## Shares -/

/-- The subscription was admitted by the grant. -/
def AdmittedBy (g : Grant) (sub : Subscription) : Prop :=
  sub.target = g.identity ∧ sub.grant = some g.id ∧ sub.grantUntil = some g.validUntil

/-- The grant's time is up, or its revocation is kept until then. -/
def Ended (g : Grant) (s : Authority) : Prop :=
  g.validUntil ≤ s.now ∨ ∃ v, s.revoked.lookup (g.identity, g.id) = some v ∧ g.validUntil ≤ v

/-- No subscription is there by the grant. -/
def Unshared (g : Grant) (s : Authority) : Prop := ∀ sid sub, s.subOf sid = some sub → ¬ AdmittedBy g sub

/-- The event does not shorten the revocation of a grant that still runs. -/
def KeepsRevoked (g : Grant) (s : Authority) (ev : Event) : Prop :=
  ∀ sender v, ev = .recv sender (.grantRevocation g.id v) → s.identityOf sender = g.identity →
    s.now < g.validUntil → g.validUntil ≤ v

variable {g : Grant} {sub : Subscription}

theorem admittedBy_terms {sub' : Subscription} (h : sub'.terms = sub.terms) :
    AdmittedBy g sub' ↔ AdmittedBy g sub :=
  Iff.of_eq (congrArg (AdmittedBy g) h : AdmittedBy g sub'.terms = AdmittedBy g sub.terms)

theorem Ended.refuses (h : Ended g s) {sender identity : String} {m : Subscribe}
    {a : Admission} (ha : s.admission identity m = some a) :
    ¬ AdmittedBy g (s.newSubscription sender identity m a) := by
  rintro ⟨htarget, hgrant, huntil⟩
  have htarget' : m.target = g.identity := htarget
  have hgrant' : a.grant = some g.id := hgrant
  have huntil' : a.grantUntil = some g.validUntil := huntil
  obtain ⟨hrule, hnone⟩ := admitted_of_admission ha
  by_cases hp : "presence" ∈ m.events
  · cases hrule hp with
    | own => cases hgrant'
    | capability => cases hgrant'
    | policy => cases hgrant'
    | @grant g' _ _ _ _ _ hlive hunrevoked =>
      obtain hid : g'.id = g.id := Option.some.inj hgrant'
      obtain hv : g'.validUntil = g.validUntil := Option.some.inj huntil'
      rcases h with hover | ⟨v, hv, -⟩
      · omega
      · refine hunrevoked (Dict.mem_iff_lookup.mpr ⟨v, ?_⟩)
        rw [htarget', hid]
        exact hv
  · rw [hnone hp] at hgrant'
    cases hgrant'

theorem Ended.step (h : Ended g s) (hk : KeepsRevoked g s ev) : Ended g (s.step ev).1 := by
  rcases h with hover | ⟨v, hv, hle⟩
  · exact .inl (hover.trans (step_now s ev))
  by_cases hover : g.validUntil ≤ (s.step ev).1.now
  · exact .inl hover
  right
  have hlive : s.now < g.validUntil := by
    have := step_now s ev
    omega
  rw [step_revoked]
  unfold revokedAfter
  split
  case h_1 n =>
    have hnow : (s.step (.advance n)).1.now = s.now + n := expire_now { s with now := s.now + n }
    refine ⟨v, ?_, hle⟩
    rw [Dict.lookup_filter, hv, Option.filter_some, if_pos (by simp; omega)]
  case h_2 sender grant w =>
    rw [Dict.lookup_insert_eq]
    split
    case isTrue heq =>
      obtain ⟨hidentity, hid⟩ := Prod.mk.inj heq
      exact ⟨w, rfl, hk sender w (by rw [hid]) hidentity.symm hlive⟩
    case isFalse => exact ⟨v, hv, hle⟩
  case h_3 => exact ⟨v, hv, hle⟩

theorem Unshared.step (h : Unshared g s) (hended : Ended g s) (ev : Event) : Unshared g (s.step ev).1 := by
  intro sid sub' hsub' hby
  cases step_origin s ev hsub' with
  | kept hsub hterms => exact h sid _ hsub ((admittedBy_terms hterms).mp hby)
  | begun hev hid hne ha hterms hnow =>
    have hby' : AdmittedBy g sub'.terms := hby
    rw [hterms] at hby'
    exact hended.refuses ha hby'

/-! ## From the end on -/

/-- The move ends the grant's share: the grant is revoked by its identity, or
its time is up. -/
inductive EndsShare (g : Grant) (m : AuthorityMove) : Prop
  | revoked {sender} (hev : m.input = .recv sender (.grantRevocation g.id g.validUntil))
      (hidentity : m.before.identityOf sender = g.identity)
  | expired (h : g.validUntil ≤ m.after.now)

theorem Ended.of_ends {m : AuthorityMove} (h : EndsShare g m)
    (hstep : m.before.step m.input = (m.after, m.output)) : Ended g m.after := by
  obtain ⟨before, input, output, after⟩ := m
  obtain rfl : (before.step input).1 = after := congrArg Prod.fst hstep
  cases h with
  | expired h => exact .inl h
  | @revoked sender hev hidentity =>
    subst hev
    refine .inr ⟨g.validUntil, ?_, le_refl _⟩
    show (before.step _).1.revoked.lookup (g.identity, g.id) = some g.validUntil
    rw [step_revoked]
    unfold revokedAfter
    have hkey : (g.identity, g.id) = (before.identityOf sender, g.id) := congrArg (·, g.id) hidentity.symm
    rw [Dict.lookup_insert_eq, if_pos hkey]

theorem recvRevocation_unshared (s : Authority) (grant : String) (validUntil : Nat)
    (identity : String) (h : (s.recvRevocation grant validUntil identity).1.subOf sid = some sub) :
    ¬ (sub.target = identity ∧ sub.grant = some grant) := by
  let s₁ : Authority := { s with revoked := s.revoked.insert (identity, grant) validUntil }
  let due : Dues := fun _ sub => if sub.grant = some grant ∧ sub.target = identity then
    some (.terminated, some "policy.terminated") else none
  obtain ⟨-, hsubs, -⟩ := notifyEach_spec (fun _ => rfl : ∀ s, due s.rest = due s)
    (Dict.nodup_sortedKeys s.subscriptions) s₁
  have hleft := (hsubs sid).symm.trans h
  split_ifs at hleft with hid
  · obtain ⟨sub₁, -, hans⟩ := Option.bind_eq_some_iff.mp hleft
    simp only [answer, due] at hans
    split_ifs at hans with hby
    obtain rfl := Option.some.inj hans
    rintro ⟨htarget, hgrant⟩
    exact hby ⟨hgrant, htarget⟩
  · refine absurd ?_ hid
    exact Dict.mem_sortedKeys.mpr (Dict.mem_iff_lookup.mpr ⟨sub, hleft⟩)

theorem Unshared.of_ends {m : AuthorityMove} (h : EndsShare g m)
    (hstep : m.before.step m.input = (m.after, m.output)) (hlive : m.before.Unlapsed) :
    Unshared g m.after := by
  obtain ⟨before, input, output, after⟩ := m
  obtain rfl : (before.step input).1 = after := congrArg Prod.fst hstep
  rintro sid sub hsub ⟨htarget, hgrant, huntil⟩
  cases h with
  | expired h =>
    have hlt := (unlapsed_step before input hlive sid sub hsub).2 g.validUntil huntil
    exact absurd h (Nat.not_le.mpr hlt)
  | @revoked sender hev hidentity =>
    subst hev
    exact recvRevocation_unshared before g.id g.validUntil _ hsub
      ⟨htarget.trans hidentity.symm, hgrant⟩

/-- The rule for a grant whose share has ended: from then on its revocation is
kept as long as it would have run, and it admits nobody. -/
theorem ended_path {p : List AuthorityMove} {ctx : Context} {s₀ : Authority}
    (h : (machine ctx).Path s₀ p s) (hended : Ended g s₀) (hunshared : Unshared g s₀)
    (hkeeps : ∀ m ∈ p, KeepsRevoked g m.before m.input) : Ended g s ∧ Unshared g s := by
  induction h with
  | nil => exact ⟨hended, hunshared⟩
  | @snoc p s ev out s' _ hs ih =>
    obtain rfl : (s.step ev).1 = s' := congrArg Prod.fst hs
    obtain ⟨hended, hunshared⟩ := ih fun m hm => hkeeps m (List.mem_append_left _ hm)
    exact ⟨hended.step (hkeeps _ List.mem_concat_self), hunshared.step hended ev⟩

/-- The move begins the subscription, on the terms of the rule that admits it. -/
structure BegunBy (sid : String) (sub : Subscription) (m : AuthorityMove) (sender : String)
    (msg : Subscribe) (a : Admission) : Prop where
  input : m.input = .recv sender (.subscribe msg)
  id : msg.id = sid
  rule : Admitted m.before (m.before.identityOf sender) msg a
  terms : sub.terms = m.before.newSubscription sender (m.before.identityOf sender) msg a

/-- A presence subscription has the terms of the rule that admitted it when it
was last subscribed. -/
theorem exists_begunBy {ctx : Context} {p : List AuthorityMove}
    (h : (machine ctx).Path (init ctx) p s) (hsub : s.subOf sid = some sub)
    (hpresence : "presence" ∈ sub.events) :
    ∃ p₁ m p₂ sender msg a, p = p₁ ++ m :: p₂ ∧ (∀ m' ∈ p₂, ¬ Begins sid m') ∧
      BegunBy sid sub m sender msg a := by
  obtain ⟨p₁, m, p₂, rfl, hbegins, hno, sub₀, hsub₀, hterms⟩ := exists_begins h sub hsub
  obtain ⟨-, hstep, -⟩ := h.split
  obtain ⟨sender, msg, a, hinput, hid, hne, ha⟩ := begins_eq_some hbegins
  obtain ⟨before, input, output, after⟩ := m
  obtain rfl : (before.step input).1 = after := congrArg Prod.fst hstep
  dsimp only at hinput ha hsub₀
  subst hinput hid
  obtain ⟨body, -, -, hsubs, -⟩ := @recvSubscribe_admitted before sender _ msg a hne ha
  have hnew := (hsubs msg.id).symm.trans hsub₀
  rw [if_pos rfl] at hnew
  have hterms' : sub.terms = before.newSubscription sender (before.identityOf sender) msg a := by
    rw [← hterms, ← Option.some.inj hnew]
    rfl
  have hevents : sub.events = msg.events := congrArg (·.events) hterms'
  exact ⟨p₁, _, p₂, sender, msg, a, rfl, hno, rfl, rfl,
    (admitted_of_admission ha).1 (hevents ▸ hpresence), hterms'⟩

end Dsip.Broadcast.Authority
