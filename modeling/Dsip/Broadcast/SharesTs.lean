import Dsip.Broadcast.Owners
import Dsip.Broadcast.Shares

/-!
# Shares that have ended, in both implementations

The TypeScript authority keeps a revocation under a text of identity and grant,
and none whose time is up already. For the rest it is as in
`Dsip.Broadcast.Shares`; `share_ended` is about both.
-/

namespace Dsip.Broadcast.Ts.Authority

open Dsip.Lib
open Dsip.Broadcast.Authority (Context)

variable {t t' : Authority} {a : Arrival}

/-! ## Revocations kept -/

theorem notifyChanged_revoked (t : Authority) : t.notifyChanged.1.revoked = t.revoked := rfl

theorem expireStreams_revoked (streams : List String) (t : Authority) :
    (foldEmit expireStream t streams).1.revoked = t.revoked := by
  refine foldEmit_invariant (P := fun t' => t'.revoked = t.revoked) ?_ t rfl
  intro stream _ t' ht'
  unfold expireStream
  split
  · exact ht'
  split
  · exact ht'
  · exact ht'

theorem advance_revoked (t : Authority) (n : Nat) :
    (t.advance n).1.revoked = t.revoked.filter fun _ validUntil => t.now + n < validUntil := by
  let t₁ : Authority := { t with now := t.now + n }
  let t₂ := (foldEmit expireStream t₁ (t₁.publications.map Prod.fst)).1
  have hlast : (t.advance n).1.revoked = t₂.revoked.filter fun _ validUntil => t₂.now < validUntil := rfl
  have hrevoked : t₂.revoked = t.revoked := expireStreams_revoked _ t₁
  have hnow : t₂.now = t.now + n := (expireStreams_terms _ t₁).2
  rw [hlast, hrevoked, hnow]

/-- The revocations kept after an event. -/
def revokedAfter (t : Authority) : Event → Dict String Nat
  | .advance n => t.revoked.filter fun _ validUntil => t.now + n < validUntil
  | .recv sender (.grantRevocation grant validUntil) =>
    if t.now < validUntil then
      t.revoked.insert (revocationKey (t.identityOf sender) grant) validUntil
    else t.revoked
  | _ => t.revoked

theorem presence_revoked (t : Authority) (sender : String) (m : Presence) :
    (t.presence sender m).1.revoked = t.revoked := by
  unfold presence
  dsimp only
  generalize (if m.audience = "" then none else some m.audience) = audience
  split
  · rfl
  split
  · rfl
  split
  · rfl
  split
  · rfl
  · rfl

theorem bindingChange_revoked (t : Authority) (change : RelayChange) (identity device : String) :
    (t.bindingChange change identity device).1.revoked = t.revoked := by
  cases change with
  | bind => rfl
  | unbind =>
    unfold bindingChange
    dsimp only
    rw [notifyChanged_revoked]
    split
    · split <;> rfl
    · rfl

theorem recvPublish_revoked (t : Authority) (id publisher stream state : String) (expiresAt : Nat)
    (variants : List String) (sender : String) :
    (t.recvPublish id publisher stream state expiresAt variants sender).1.revoked = t.revoked := by
  unfold recvPublish
  split
  · rfl
  split
  · rfl
  split
  · rfl
  · rfl

theorem recvUnpublish_revoked (t : Authority) (stream publication publisher sender : String) :
    (t.recvUnpublish stream publication publisher sender).1.revoked = t.revoked := by
  unfold recvUnpublish
  dsimp only
  split
  · rfl
  split
  · rfl
  · rfl

theorem recvProvenance_revoked (t : Authority) (stream publication : String) (st : Statement)
    (sender : String) : (t.recvProvenance stream publication st sender).1.revoked = t.revoked := by
  unfold recvProvenance
  split
  · rfl
  split
  · rfl
  split
  · rfl
  split
  · rfl
  · rfl

theorem withdraw_revoked (t : Authority) (sender : String) (m : Subscribe) (state : String) :
    (t.withdraw sender m state).1.revoked = t.revoked := by
  unfold withdraw
  split <;> rfl

variable {subscriber : String} {out : List Emit}

theorem subscribe_revoked {sender : String} {m : Subscribe}
    (h : t.subscribe sender m subscriber = .ok (t', out)) : t'.revoked = t.revoked := by
  unfold subscribe at h
  split at h
  · split at h
    · obtain ⟨rfl, rfl⟩ := Prod.ext_iff.mp (Except.ok.inj h)
      exact withdraw_revoked t sender m "terminated"
    · obtain ⟨rfl, rfl⟩ := Prod.ext_iff.mp (Except.ok.inj h)
      rfl
  · split at h
    · obtain ⟨rfl, rfl⟩ := Prod.ext_iff.mp (Except.ok.inj h)
      rfl
    split at h
    · cases h
    · obtain ⟨rfl, rfl⟩ := Prod.ext_iff.mp (Except.ok.inj h)
      exact withdraw_revoked t sender m "replaced"

theorem step_revoked (h : t.step a = .ok (t', out)) : t'.revoked = t.revokedAfter a.event := by
  unfold step at h
  have hok : ∀ {r : Authority × List Emit} {revoked},
      .ok r = (Except.ok (t', out) : Except Fault _) → r.1.revoked = revoked →
      t'.revoked = revoked := by
    intro r revoked hr hrevoked
    obtain rfl := Except.ok.inj hr
    exact hrevoked
  cases hev : a.event with
  | advance n =>
    rw [hev] at h
    exact hok h (advance_revoked t n)
  | policy target pol =>
    rw [hev] at h
    exact hok h rfl
  | issueCapability token target =>
    rw [hev] at h
    exact hok h rfl
  | relay change identity device =>
    rw [hev] at h
    exact hok h (bindingChange_revoked t change identity device)
  | recv sender m =>
    rw [hev] at h
    cases m with
    | publish id publisher stream state expiresAt variants =>
      exact hok h (recvPublish_revoked t id publisher stream state expiresAt variants _)
    | unpublish stream publication =>
      exact hok h (recvUnpublish_revoked t stream publication a.publisher _)
    | provenance stream publication st =>
      exact hok h (recvProvenance_revoked t stream publication st _)
    | subscribe m => exact subscribe_revoked h
    | presence m => exact hok h (presence_revoked t sender m)
    | grantRevocation grant validUntil => exact hok h rfl
    | other type => cases h

theorem step_now (h : t.step a = .ok (t', out)) : t.now ≤ t'.now := by
  cases step_terms h with
  | lapsed _ hnow _ =>
    rw [hnow]
    exact Nat.le_add_right _ _
  | kept hnow | revoked _ hnow | subscribed _ hnow => exact le_of_eq hnow.symm

theorem now_of_advance {n : Nat} (h : t.step a = .ok (t', out))
    (hev : a.event = .advance n) : t'.now = t.now + n := by
  unfold step at h
  rw [hev] at h
  obtain ⟨rfl, rfl⟩ := Prod.ext_iff.mp (Except.ok.inj h)
  exact (advance_terms t n).2

/-! ## The rule of an admission -/

/-- The rule that admitted a presence subscriber, and what it fixes. -/
inductive Admitted (t : Authority) (subscriber : String) (m : Subscribe) : Admission → Prop
  | own (h : subscriber = m.target) : Admitted t subscriber m { own := true }
  | grant {g} (hg : g ∈ Dsip.Broadcast.Authority.grantsOf m.claims) (hverified : g.verified = true)
      (hidentity : g.identity = m.target) (hgrantee : g.grantee = subscriber)
      (hscope : "dsip.subscribe" ∈ g.scope) (hlive : t.now < g.validUntil)
      (hunrevoked : revocationKey m.target g.id ∉ t.revoked) :
      Admitted t subscriber m
        { grant := some (g.id, g.validUntil), audience := g.presenceAudience }
  | capability {token} (htoken : m.capability = some token)
      (h : t.capabilities.lookup token = some m.target) : Admitted t subscriber m {}
  | policy {pol} (hpol : t.policy.lookup m.target = some pol)
      (h : pol.mode = "public" ∨ subscriber ∈ pol.allow) :
      Admitted t subscriber m { audience := pol.audience }

theorem admitted_of_admission {m : Subscribe} {a : Admission} (h : t.admission m subscriber = some a) :
    ("presence" ∈ m.events → Admitted t subscriber m a) ∧ ("presence" ∉ m.events → a = {}) := by
  unfold admission at h
  dsimp only at h
  split at h
  · cases h
  split at h
  case isTrue hno =>
    refine ⟨fun hp => absurd hp hno, fun _ => ?_⟩
    split at h
    · exact (Option.some.inj h).symm
    · cases h
  case isFalse hp =>
    refine ⟨fun _ => ?_, fun hno => absurd hno hp⟩
    split at h
    case isTrue hown =>
      obtain rfl := Option.some.inj h
      exact .own hown
    split at h
    case h_1 g hg =>
      obtain rfl := Option.some.inj h
      have hadmits := List.find?_some hg
      obtain ⟨hverified, hidentity, hgrantee, hscope, hlive, hunrevoked⟩ := of_decide_eq_true hadmits
      exact .grant (List.mem_of_find?_eq_some hg) hverified hidentity hgrantee hscope hlive
        hunrevoked
    split at h
    case isTrue hcapability =>
      obtain rfl := Option.some.inj h
      obtain ⟨token, htoken, hlookup⟩ := Option.any_eq_true _ _ |>.mp hcapability
      exact .capability htoken (of_decide_eq_true hlookup)
    split at h
    case isTrue hpolicy =>
      obtain ⟨pol, hpol, hallowed⟩ := Option.any_eq_true _ _ |>.mp hpolicy
      rw [hpol] at h
      obtain rfl := Option.some.inj h
      exact .policy hpol (of_decide_eq_true hallowed)
    · cases h

/-! ## Shares -/

/-- The subscription was admitted by the grant. -/
def AdmittedBy (g : Grant) (sub : Subscription) : Prop :=
  sub.target = g.identity ∧ sub.grant = some (g.id, g.validUntil)

/-- The grant's time is up, or its revocation is kept until then. -/
def Ended (g : Grant) (t : Authority) : Prop :=
  g.validUntil ≤ t.now ∨ ∃ v, t.revoked.lookup (revocationKey g.identity g.id) = some v ∧ g.validUntil ≤ v

/-- No subscription is there by the grant. -/
def Unshared (g : Grant) (t : Authority) : Prop := ∀ sub ∈ t.terms, ¬ AdmittedBy g sub

/-- The event does not shorten the revocation of a grant that still runs. -/
def KeepsRevoked (g : Grant) (t : Authority) (ev : Event) : Prop :=
  ∀ sender grant v, ev = .recv sender (.grantRevocation grant v) →
    revocationKey (t.identityOf sender) grant = revocationKey g.identity g.id →
    t.now < v → t.now < g.validUntil → g.validUntil ≤ v

variable {g : Grant}

theorem Ended.refuses (h : Ended g t) {sender : String} {m : Subscribe}
    {a : Admission} (ha : t.admission m subscriber = some a) :
    ¬ AdmittedBy g (t.newSubscription sender subscriber m a) := by
  rintro ⟨htarget, hgrant⟩
  have htarget' : m.target = g.identity := htarget
  have hgrant' : a.grant = some (g.id, g.validUntil) := hgrant
  obtain ⟨hrule, hnone⟩ := admitted_of_admission ha
  by_cases hp : "presence" ∈ m.events
  · cases hrule hp with
    | own => cases hgrant'
    | capability => cases hgrant'
    | policy => cases hgrant'
    | @grant g' _ _ _ _ _ hlive hunrevoked =>
      obtain ⟨hid, hv⟩ := Prod.mk.inj (Option.some.inj hgrant')
      rcases h with hover | ⟨v, hv, -⟩
      · omega
      · refine hunrevoked (Dict.mem_iff_lookup.mpr ⟨v, ?_⟩)
        rw [htarget', hid]
        exact hv
  · rw [hnone hp] at hgrant'
    cases hgrant'

theorem Ended.step (h : Ended g t) (hs : t.step a = .ok (t', out))
    (hk : KeepsRevoked g t a.event) : Ended g t' := by
  have hle := step_now hs
  rcases h with hover | ⟨v, hv, hlong⟩
  · exact .inl (hover.trans hle)
  by_cases hover : g.validUntil ≤ t'.now
  · exact .inl hover
  right
  have hlive : t.now < g.validUntil := by omega
  rw [step_revoked hs]
  unfold revokedAfter
  split
  case h_1 n hev =>
    have hnow := now_of_advance hs hev
    refine ⟨v, ?_, hlong⟩
    rw [Dict.lookup_filter, hv, Option.filter_some, if_pos (by simp; omega)]
  case h_2 sender grant w hev =>
    split
    case isTrue hw =>
      rw [Dict.lookup_insert_eq]
      split
      case isTrue heq => exact ⟨w, rfl, hk sender grant w hev heq.symm hw hlive⟩
      case isFalse => exact ⟨v, hv, hlong⟩
    case isFalse => exact ⟨v, hv, hlong⟩
  case h_3 => exact ⟨v, hv, hlong⟩

/-! ## Where subscriptions come from -/

/-- A `subscribe` that begins a subscription under the key of this one. -/
def Renews (t : Authority) (ev : Event) (sub : Subscription) : Prop :=
  ∃ m a, ev = .recv sub.device (.subscribe m) ∧ m.target = sub.target ∧ m.events = sub.events ∧
    m.expiresIn ≠ 0 ∧ t.admission m (t.identityOf sub.device) = some a

/-- Where the terms after a step come from. -/
inductive Origin (t : Authority) (ev : Event) (t' : Authority) (sub : Subscription) : Prop
  | kept (h : sub ∈ t.terms) (hlive : t'.now = t.now ∨ t'.lapseDue sub = none)
      (hno : ¬ t.Renews ev sub)
  | begun {sender m a} (hev : ev = .recv sender (.subscribe m)) (hne : m.expiresIn ≠ 0)
      (ha : t.admission m (t.identityOf sender) = some a)
      (hsub : sub = t.newSubscription sender (t.identityOf sender) m a) (hnow : t'.now = t.now)

theorem subscribe_admitted {sender : String} {m : Subscribe} {ad : Admission}
    (h : t.subscribe sender m (t.identityOf sender) = .ok (t', out)) (hne : m.expiresIn ≠ 0)
    (ha : t.admission m (t.identityOf sender) = some ad) :
    ∃ sub, sub.terms = t.newSubscription sender (t.identityOf sender) m ad ∧
      t'.subscriptions = t.subscriptions.eraseP (same sender m) ++ [sub] := by
  unfold subscribe at h
  rw [if_neg hne, ha] at h
  dsimp only at h
  split at h
  · cases h
  obtain ⟨hsubs, -, hnew⟩ := withdraw_spec t sender m "replaced"
  generalize t.withdraw sender m "replaced" = r at h hsubs hnew
  obtain ⟨t₁, out₁⟩ := r
  dsimp only at h hsubs hnew
  obtain ⟨rfl, rfl⟩ := Prod.ext_iff.mp (Except.ok.inj h)
  refine ⟨_, ?_, congrArg (· ++ [_]) hsubs⟩
  rw [greet_terms, hnew]
  rfl

theorem subscribe_origin {sender : String} {m : Subscribe} (hu : t.Unique)
    (h : t.subscribe sender m (t.identityOf sender) = .ok (t', out)) {sub : Subscription}
    (hsub : sub ∈ t'.terms) : Origin t (.recv sender (.subscribe m)) t' sub := by
  obtain ⟨hcase, hnow⟩ := subscribe_spec h
  by_cases hadmitted : m.expiresIn ≠ 0 ∧ ∃ ad, t.admission m (t.identityOf sender) = some ad
  · obtain ⟨hne, ad, ha⟩ := hadmitted
    obtain ⟨new, hnew, hsubs⟩ := subscribe_admitted h hne ha
    have hterms : t'.terms = t.terms.eraseP (same sender m) ++ [new.terms] := by
      unfold terms
      rw [hsubs, List.map_append, eraseP_same_terms]
      rfl
    rw [hterms] at hsub
    rcases List.mem_append.mp hsub with hold | hsub
    · refine .kept (List.mem_of_mem_eraseP hold) (.inl hnow) ?_
      rintro ⟨m', a', hev, htarget, hevents, -⟩
      obtain ⟨hdevice, hm⟩ := Event.recv.inj hev
      obtain rfl := Message.subscribe.inj hm
      refine hu.erased sub hold ?_
      unfold Subscription.key
      rw [← hdevice, htarget, hevents]
    · rw [List.mem_singleton.mp hsub]
      exact .begun rfl hne ha hnew hnow
  · have hno : ¬ t.Renews (.recv sender (.subscribe m)) sub := by
      rintro ⟨m', a', hev, -, -, hne, ha⟩
      obtain ⟨rfl, hm⟩ := Event.recv.inj hev
      obtain rfl := Message.subscribe.inj hm
      exact hadmitted ⟨hne, a', ha⟩
    cases hcase with
    | refused hsubs =>
      refine .kept ?_ (.inl hnow) hno
      unfold terms at hsub ⊢
      rwa [hsubs] at hsub
    | ended _ hsubs =>
      refine .kept ?_ (.inl hnow) hno
      unfold terms at hsub
      rw [hsubs, eraseP_same_terms] at hsub
      exact List.mem_of_mem_eraseP hsub
    | began hne ha => exact absurd ⟨hne, _, ha⟩ hadmitted

theorem step_origin (hu : t.Unique) (h : t.step a = .ok (t', out))
    {sub : Subscription} (hsub : sub ∈ t'.terms) : Origin t a.event t' sub := by
  have hother : ∀ {ev : Event}, (∀ sender m, ev ≠ .recv sender (.subscribe m)) → ¬ t.Renews ev sub := by
    rintro ev hne ⟨m, a, hev, -⟩
    exact hne _ m hev
  by_cases hsubscribe : ∃ sender m, a.event = .recv sender (.subscribe m)
  · obtain ⟨sender, m, hev⟩ := hsubscribe
    unfold step at h
    rw [hev] at h ⊢
    exact subscribe_origin hu h hsub
  · have hno := hother fun sender m hev => hsubscribe ⟨sender, m, hev⟩
    cases step_terms h with
    | kept hnow h => exact .kept (h ▸ hsub) (.inl hnow) hno
    | lapsed _ _ h =>
      rw [h] at hsub
      obtain ⟨hsub, hlive⟩ := List.mem_filter.mp hsub
      exact .kept hsub (.inr (of_decide_eq_true hlive)) hno
    | revoked _ hnow h =>
      rw [h] at hsub
      exact .kept (List.mem_of_mem_filter hsub) (.inl hnow) hno
    | subscribed hev => exact absurd ⟨_, _, hev⟩ hsubscribe

/-! ## Time -/

/-- No subscription's time, or admitting grant's, is up. -/
def Unlapsed (t : Authority) : Prop := ∀ sub ∈ t.terms, t.lapseDue sub = none

theorem admission_grant_live {m : Subscribe} {ad : Admission}
    (ha : t.admission m subscriber = some ad) : ¬ ad.grant.any (·.2 ≤ t.now) = true := by
  obtain ⟨hrule, hnone⟩ := admitted_of_admission ha
  by_cases hp : "presence" ∈ m.events
  · cases hrule hp with
    | own | capability | policy => simp
    | grant _ _ _ _ _ hlive => simpa using hlive
  · rw [hnone hp]
    simp

theorem unlapsed_step (hu : t.Unique) (hlive : t.Unlapsed) (h : t.step a = .ok (t', out)) : t'.Unlapsed := by
  intro sub hsub
  cases step_origin hu h hsub with
  | kept hsub hstays =>
    rcases hstays with hnow | hstays
    · rw [lapseDue_of_now hnow]
      exact hlive sub hsub
    · exact hstays
  | @begun sender m ad hev hne ha hsub hnow =>
    rw [lapseDue_of_now hnow, hsub]
    have htime : ¬ t.now + m.expiresIn ≤ t.now := by omega
    unfold lapseDue newSubscription
    rw [if_neg htime, if_neg (admission_grant_live ha)]

/-- What holds in every state. -/
structure Sound (t : Authority) : Prop where
  unique : t.Unique
  unlapsed : t.Unlapsed

theorem Sound.step (hsound : t.Sound) (h : t.step a = .ok (t', out)) : t'.Sound :=
  ⟨unique_step hsound.unique h, unlapsed_step hsound.unique hsound.unlapsed h⟩

theorem sound_invariant (ctx : Context) : (machine ctx).Invariant Sound := by
  refine TSys.Inductive.invariant ⟨?_, ?_⟩
  · rintro t rfl
    exact ⟨List.nodup_nil, fun _ hsub => absurd hsub List.not_mem_nil⟩
  · intro t a out t' hsound hs
    exact hsound.step hs

/-! ## From the end on -/

abbrev AuthorityMove := TSys.Move Authority Arrival (List Emit)

/-- The move ends the grant's share: the grant is revoked by its identity, or
its time is up. -/
inductive EndsShare (g : Grant) (m : AuthorityMove) : Prop
  | revoked {sender} (hev : m.input.event = .recv sender (.grantRevocation g.id g.validUntil))
      (hidentity : m.before.identityOf sender = g.identity)
  | expired (h : g.validUntil ≤ m.after.now)

theorem Ended.of_ends {m : AuthorityMove} (h : EndsShare g m)
    (hstep : m.before.step m.input = .ok (m.after, m.output)) : Ended g m.after := by
  cases h with
  | expired h => exact .inl h
  | @revoked sender hev hidentity =>
    by_cases hlive : g.validUntil ≤ m.after.now
    · exact .inl hlive
    · have hle := step_now hstep
      refine .inr ⟨g.validUntil, ?_, le_refl _⟩
      rw [step_revoked hstep, hev]
      unfold revokedAfter
      dsimp only
      rw [if_pos (by omega), hidentity, Dict.lookup_insert_eq, if_pos rfl]

theorem Unshared.of_ends {m : AuthorityMove} (h : EndsShare g m)
    (hstep : m.before.step m.input = .ok (m.after, m.output)) (hsound : m.before.Sound) :
    Unshared g m.after := by
  rintro sub hsub ⟨htarget, hgrant⟩
  cases h with
  | expired h =>
    have hlive := (hsound.step hstep).unlapsed sub hsub
    unfold lapseDue at hlive
    split_ifs at hlive with _ hlate
    refine hlate ?_
    rw [hgrant]
    exact decide_eq_true h
  | @revoked sender hev hidentity =>
    unfold step recv at hstep
    rw [hev] at hstep
    have hafter := Except.ok.inj hstep
    have hterms := (grantRevocation_terms m.before sender g.id g.validUntil).1
    rw [hafter] at hterms
    rw [hterms] at hsub
    have hleft := of_decide_eq_true (List.mem_filter.mp hsub).2
    refine hleft ⟨?_, htarget.trans hidentity.symm⟩
    rw [hgrant]
    exact decide_eq_true rfl

theorem Unshared.step (h : Unshared g t) (hended : Ended g t) (hu : t.Unique)
    (hs : t.step a = .ok (t', out)) : Unshared g t' := by
  intro sub hsub
  cases step_origin hu hs hsub with
  | kept hsub => exact h sub hsub
  | begun hev hne ha hsub =>
    rw [hsub]
    exact hended.refuses ha

/-- The rule for a grant whose share has ended: from then on its revocation is
kept as long as it would have run, and it admits nobody. -/
theorem ended_path {ctx : Context} {p : List AuthorityMove} {t₀ : Authority}
    (h : (machine ctx).Path t₀ p t) (hsound : t₀.Sound) (hended : Ended g t₀)
    (hunshared : Unshared g t₀) (hkeeps : ∀ m ∈ p, KeepsRevoked g m.before m.input.event) :
    t.Sound ∧ Ended g t ∧ Unshared g t := by
  induction h with
  | nil => exact ⟨hsound, hended, hunshared⟩
  | snoc _ hs ih =>
    obtain ⟨hsound, hended, hunshared⟩ := ih fun m hm => hkeeps m (List.mem_append_left _ hm)
    exact ⟨hsound.step hs, hended.step hs (hkeeps _ List.mem_concat_self),
      hunshared.step hended hsound.unique hs⟩

/-- The move begins the subscription, on the terms of the rule that admits it. -/
structure BegunBy (sub : Subscription) (m : AuthorityMove) (sender : String) (msg : Subscribe)
    (ad : Admission) : Prop where
  input : m.input.event = .recv sender (.subscribe msg)
  rule : Admitted m.before (m.before.identityOf sender) msg ad
  terms : sub = m.before.newSubscription sender (m.before.identityOf sender) msg ad

/-- A presence subscription has the terms of the rule that admitted it when it
was last subscribed. -/
theorem exists_begunBy {ctx : Context} {p : List AuthorityMove}
    (h : (machine ctx).Path (new ctx) p t) : ∀ sub ∈ t.terms, "presence" ∈ sub.events →
    ∃ p₁ m p₂ sender msg ad, p = p₁ ++ m :: p₂ ∧
      (∀ m' ∈ p₂, ¬ m'.before.Renews m'.input.event sub) ∧ BegunBy sub m sender msg ad := by
  induction h with
  | nil =>
    intro sub hsub
    exact absurd hsub List.not_mem_nil
  | @snoc p t a out t' hp hs ih =>
    intro sub hsub hpresence
    obtain ⟨tr, hrun⟩ := hp.run
    have hsound := sound_invariant ctx t (hrun.reachable (.init rfl))
    cases step_origin hsound.unique hs hsub with
    | kept hsub _ hno =>
      obtain ⟨p₁, m, p₂, sender, msg, ad, rfl, hlast, hbegun⟩ := ih sub hsub hpresence
      refine ⟨p₁, m, p₂ ++ [⟨t, a, out, t'⟩], sender, msg, ad, by simp, ?_, hbegun⟩
      intro m' hm'
      rcases List.mem_append.mp hm' with hm' | hm'
      · exact hlast m' hm'
      · rw [List.mem_singleton.mp hm']
        exact hno
    | @begun sender m ad hev hne ha hsub =>
      have hevents : sub.events = m.events := congrArg (·.events) hsub
      exact ⟨p, _, [], sender, m, ad, rfl, fun _ h => (List.not_mem_nil h).elim, hev,
        (admitted_of_admission ha).1 (hevents ▸ hpresence), hsub⟩

end Dsip.Broadcast.Ts.Authority

namespace Dsip.Broadcast.Authority

open Dsip.Lib

/-- From a move on that ends a grant's share, no subscription is there by the
grant, as long as no event shortens its revocation; and a presence subscription
has the terms of the rule that admitted it when it was last subscribed. Both
hold in either implementation. -/
theorem share_ended (ctx : Context) : (∀ p s, (machine ctx).Path (init ctx) p s →
      (∀ g p₁ m p₂, p = p₁ ++ m :: p₂ → EndsShare g m →
        (∀ m' ∈ p₂, KeepsRevoked g m'.before m'.input) → Unshared g s) ∧
      ∀ sid sub, s.subOf sid = some sub → "presence" ∈ sub.events →
        ∃ p₁ m p₂ sender msg a, p = p₁ ++ m :: p₂ ∧ (∀ m' ∈ p₂, ¬ Begins sid m') ∧
          BegunBy sid sub m sender msg a) ∧
    ∀ p t, (Ts.Authority.machine ctx).Path (Ts.Authority.new ctx) p t →
      (∀ g p₁ m p₂, p = p₁ ++ m :: p₂ → Ts.Authority.EndsShare g m →
        (∀ m' ∈ p₂, Ts.Authority.KeepsRevoked g m'.before m'.input.event) →
        Ts.Authority.Unshared g t) ∧
      ∀ sub ∈ t.terms, "presence" ∈ sub.events → ∃ p₁ m p₂ sender msg a, p = p₁ ++ m :: p₂ ∧
          (∀ m' ∈ p₂, ¬ m'.before.Renews m'.input.event sub) ∧
          Ts.Authority.BegunBy sub m sender msg a := by
  refine ⟨fun p s hp => ⟨?_, fun sid sub => exists_begunBy hp⟩,
    fun p t hp => ⟨?_, Ts.Authority.exists_begunBy hp⟩⟩
  · intro g p₁ m p₂ hsplit hends hkeeps
    obtain ⟨hbefore, hstep, hafter⟩ := (hsplit ▸ hp).split
    obtain ⟨tr, hrun⟩ := hbefore.run
    have hsound := sound_invariant ctx m.before (hrun.reachable (.init rfl))
    exact (ended_path hafter (.of_ends hends hstep) (.of_ends hends hstep hsound.unlapsed)
      hkeeps).2
  · intro g p₁ m p₂ hsplit hends hkeeps
    obtain ⟨hbefore, hstep, hafter⟩ := (hsplit ▸ hp).split
    obtain ⟨tr, hrun⟩ := hbefore.run
    have hsound := Ts.Authority.sound_invariant ctx m.before (hrun.reachable (.init rfl))
    exact (Ts.Authority.ended_path hafter (hsound.step hstep) (.of_ends hends hstep)
      (.of_ends hends hstep hsound) hkeeps).2.2

/-! ## A share with bob -/

def bobsGrant : Grant where
  id := "g1"
  identity := "alice"
  grantee := "bob"
  scope := ["dsip.subscribe"]
  validUntil := 100

def bobPresents (id : String) : Event :=
  .recv "bob" (.subscribe
    { id := id, target := "alice", events := ["presence"], expiresIn := 60,
      claims := [⟨"dsip-grant", some bobsGrant⟩], nonempty := presence_ne_nil })

def phoneRevokes (validUntil : Nat) : Event := .recv "phone" (.grantRevocation "g1" validUntil)

/-- Bob comes back with a grant that was revoked. -/
def sharedOnce : List Event := [bobPresents "s1", phoneRevokes 100, bobPresents "s2"]

theorem share_ended_bob : Unshared bobsGrant (TSys.moves step (init twoDevices) sharedOnce).2 := by
  refine ((share_ended twoDevices).1 _ _ (TSys.moves_path step _ _ sharedOnce)).1 bobsGrant
    [_] _ [_] rfl (.revoked rfl (by decide +kernel)) ?_
  intro m hm
  obtain rfl := List.mem_singleton.mp hm
  intro sender v hev
  cases hev

/-- A second revocation, with an earlier time, and bob comes back after it. -/
def sharedTwice : List Event := [phoneRevokes 100, phoneRevokes 10, .advance 10, bobPresents "s1"]

instance (g : Grant) (sub : Subscription) : Decidable (AdmittedBy g sub) :=
  inferInstanceAs (Decidable (_ ∧ _))

instance (g : Grant) (sub : Ts.Subscription) : Decidable (Ts.Authority.AdmittedBy g sub) :=
  inferInstanceAs (Decidable (_ ∧ _))

/-- The same events for the TypeScript authority. -/
def sharedTwiceTs : Option (List Ts.Authority.AuthorityMove × Ts.Authority) :=
  TSys.moves? Ts.Authority.step (Ts.Authority.new twoDevices) (sharedTwice.map fun ev => ⟨ev, ""⟩)

/-- The share comes back after an earlier time overwrote that of its revocation,
in both implementations. -/
theorem share_returns : (¬ ∀ (ctx : Context) (p : List AuthorityMove) (s : Authority),
      (machine ctx).Path (init ctx) p s → ∀ g p₁ m p₂, p = p₁ ++ m :: p₂ → EndsShare g m → Unshared g s) ∧
    ¬ ∀ (ctx : Context) (p : List Ts.Authority.AuthorityMove) (t : Ts.Authority),
      (Ts.Authority.machine ctx).Path (Ts.Authority.new ctx) p t →
      ∀ g p₁ m p₂, p = p₁ ++ m :: p₂ → Ts.Authority.EndsShare g m → Ts.Authority.Unshared g t := by
  constructor
  · intro h
    have hno := h twoDevices _ _ (TSys.moves_path step _ _ sharedTwice) bobsGrant [] _ [_, _, _] rfl
      (.revoked rfl (by decide +kernel))
    have hback : ((TSys.moves step (init twoDevices) sharedTwice).2.subOf "s1").any fun sub =>
        AdmittedBy bobsGrant sub := by decide +kernel
    obtain ⟨sub, hsub, hby⟩ := Option.any_eq_true _ _ |>.mp hback
    exact hno "s1" sub hsub (of_decide_eq_true hby)
  · intro h
    have hback : sharedTwiceTs.any fun r => ∃ m ∈ r.1.head?,
        m.input.event = phoneRevokes 100 ∧ m.before.identityOf "phone" = "alice" ∧
        ∃ sub ∈ r.2.terms, Ts.Authority.AdmittedBy bobsGrant sub := by decide +kernel
    obtain ⟨⟨p, t⟩, hr, hback⟩ := Option.any_eq_true _ _ |>.mp hback
    obtain ⟨m, hm, hev, hidentity, sub, hsub, hby⟩ := of_decide_eq_true hback
    obtain ⟨p₂, rfl⟩ := List.head?_eq_some_iff.mp hm
    exact h twoDevices _ t (TSys.moves?_path Ts.Authority.step _ hr) bobsGrant [] m p₂ rfl
      (.revoked hev hidentity) sub hsub hby

end Dsip.Broadcast.Authority
