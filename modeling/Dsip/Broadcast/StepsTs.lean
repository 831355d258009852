import Dsip.Broadcast.AuthorityTs

/-!
# The subscriptions of the TypeScript authority

What a step leaves of the subscriptions, their notices aside: `terms` is what is
fixed when one begins. A step that is no `subscribe` keeps the terms of some of
them, in order (`step_terms`); `subscribe_terms` says what a `subscribe` does.
-/

namespace Dsip.Broadcast.Ts

open Dsip.Lib

/-- What is fixed when a subscription begins. -/
def Subscription.terms (sub : Subscription) : Subscription := { sub with seq := 0, lastBody := none }

def Subscription.key (sub : Subscription) : String × String × List String :=
  (sub.device, sub.target, sub.events)

namespace Authority

variable {t t' : Authority}

/-- The subscriptions, their notices aside. -/
def terms (t : Authority) : List Subscription := t.subscriptions.map (·.terms)

theorem notifyChanged_terms (t : Authority) : t.notifyChanged.1.terms = t.terms := by
  unfold notifyChanged terms
  rw [List.map_map]
  refine List.map_congr_left fun sub _ => ?_
  show (if t.Stale sub then t.notified sub "presence" else sub).terms = sub.terms
  split <;> rfl

theorem notifyAll_terms (t : Authority) (target event : String) :
    (t.notifyAll target event).1.terms = t.terms := by
  unfold notifyAll terms
  rw [List.map_map]
  refine List.map_congr_left fun sub _ => ?_
  show (if decide (sub.target = target ∧ event ∈ sub.events) then t.notified sub event
    else sub).terms = sub.terms
  split <;> rfl

theorem setState_terms (t : Authority) (stream : String) (p : Publication) (state : String) :
    (t.setState stream p state).1.terms = t.terms :=
  notifyAll_terms (t.setPublication stream { p with state := state }) stream "publication"

theorem expireStream_terms (t : Authority) (stream : String) :
    (t.expireStream stream).1.terms = t.terms ∧ (t.expireStream stream).1.now = t.now := by
  unfold expireStream
  split
  · exact ⟨rfl, rfl⟩
  split
  · exact ⟨setState_terms .., rfl⟩
  · exact ⟨rfl, rfl⟩

theorem expireStreams_terms (streams : List String) (t : Authority) :
    (foldEmit expireStream t streams).1.terms = t.terms ∧
      (foldEmit expireStream t streams).1.now = t.now := by
  induction streams generalizing t with
  | nil => exact ⟨rfl, rfl⟩
  | cons stream streams ih =>
    obtain ⟨hterms, hnow⟩ := expireStream_terms t stream
    obtain ⟨hterms', hnow'⟩ := ih (t.expireStream stream).1
    exact ⟨hterms'.trans hterms, hnow'.trans hnow⟩

theorem terminate_terms {due : Subscription → Option String}
    (hdue : ∀ sub, due sub.terms = due sub) (t : Authority) :
    (t.terminate due).1.terms = t.terms.filter fun sub => due sub = none := by
  unfold terminate terms
  rw [List.filter_map]
  refine congrArg (List.map _) (List.filter_congr fun sub _ => ?_)
  simp [hdue]

theorem lapseDue_terms (t : Authority) (sub : Subscription) : t.lapseDue sub.terms = t.lapseDue sub := rfl

theorem lapseDue_of_now (h : t'.now = t.now) : t'.lapseDue = t.lapseDue := by
  funext sub
  unfold lapseDue
  rw [h]

theorem advance_terms (t : Authority) (n : Nat) : (t.advance n).1.terms =
      t.terms.filter (fun sub => lapseDue { t with now := t.now + n } sub = none) ∧
    (t.advance n).1.now = t.now + n := by
  let t₁ : Authority := { t with now := t.now + n }
  let t₂ := (foldEmit expireStream t₁ (t₁.publications.map Prod.fst)).1
  let t₃ := (t₂.terminate t₂.lapseDue).1
  let t₄ : Authority :=
    { t₃ with
      revoked := t₃.revoked.filter fun _ validUntil => t₃.now < validUntil
      records := t₃.records.map fun held => Dict.filter (fun _ r => t₃.keeps r) held
      graceUntil := t₃.graceUntil.filter fun _ ends => t₃.now < ends }
  obtain ⟨hterms, hnow⟩ := expireStreams_terms (t₁.publications.map Prod.fst) t₁
  have hended : t₄.terms = t₂.terms.filter fun sub => t₂.lapseDue sub = none :=
    terminate_terms (lapseDue_terms t₂) t₂
  have hlast : (t.advance n).1 = t₄.notifyChanged.1 := rfl
  have hnow₂ : t₂.now = t₁.now := hnow
  rw [hlast, notifyChanged_terms, hended, lapseDue_of_now hnow₂]
  exact ⟨congrArg _ hterms, hnow⟩

theorem presence_terms (t : Authority) (sender : String) (m : Presence) :
    (t.presence sender m).1.terms = t.terms ∧ (t.presence sender m).1.now = t.now := by
  unfold presence
  dsimp only
  generalize (if m.audience = "" then none else some m.audience) = audience
  split
  · exact ⟨rfl, rfl⟩
  split
  · exact ⟨rfl, rfl⟩
  split
  · exact ⟨rfl, rfl⟩
  split
  · exact ⟨rfl, rfl⟩
  · exact ⟨notifyChanged_terms _, rfl⟩

theorem bindingChange_terms (t : Authority) (change : RelayChange) (identity device : String) :
    (t.bindingChange change identity device).1.terms = t.terms ∧
      (t.bindingChange change identity device).1.now = t.now := by
  unfold bindingChange
  cases change with
  | bind => exact ⟨notifyChanged_terms _, rfl⟩
  | unbind =>
    dsimp only
    split
    · split
      · exact ⟨notifyChanged_terms _, rfl⟩
      · exact ⟨notifyChanged_terms _, rfl⟩
    · exact ⟨notifyChanged_terms _, rfl⟩

theorem recvPublish_terms (t : Authority) (id publisher stream state : String) (expiresAt : Nat)
    (variants : List String) (sender : String) :
    (t.recvPublish id publisher stream state expiresAt variants sender).1.terms = t.terms ∧
      (t.recvPublish id publisher stream state expiresAt variants sender).1.now = t.now := by
  unfold recvPublish
  split
  · exact ⟨rfl, rfl⟩
  split
  · exact ⟨rfl, rfl⟩
  split
  · exact ⟨rfl, rfl⟩
  · exact ⟨setState_terms .., rfl⟩

theorem recvUnpublish_terms (t : Authority) (stream publication publisher sender : String) :
    (t.recvUnpublish stream publication publisher sender).1.terms = t.terms ∧
      (t.recvUnpublish stream publication publisher sender).1.now = t.now := by
  unfold recvUnpublish
  dsimp only
  split
  · exact ⟨rfl, rfl⟩
  split
  · exact ⟨rfl, rfl⟩
  · exact ⟨setState_terms .., rfl⟩

theorem recvProvenance_terms (t : Authority) (stream publication : String) (st : Statement)
    (sender : String) : (t.recvProvenance stream publication st sender).1.terms = t.terms ∧
      (t.recvProvenance stream publication st sender).1.now = t.now := by
  unfold recvProvenance
  split
  · exact ⟨rfl, rfl⟩
  split
  · exact ⟨rfl, rfl⟩
  split
  · exact ⟨rfl, rfl⟩
  split
  · exact ⟨rfl, rfl⟩
  · exact ⟨notifyAll_terms _ stream "publication", rfl⟩

/-! ## Subscribing -/

theorem grantRevocation_terms (t : Authority) (sender grant : String) (validUntil : Nat) :
    (t.grantRevocation sender grant validUntil).1.terms = t.terms.filter (fun sub =>
        ¬ (sub.grant.any (·.1 = grant) ∧ sub.target = t.identityOf sender)) ∧
    (t.grantRevocation sender grant validUntil).1.now = t.now := by
  refine ⟨?_, rfl⟩
  unfold grantRevocation
  dsimp only
  refine (terminate_terms (fun _ => rfl) _).trans (List.filter_congr fun sub _ => ?_)
  split <;> simp_all

theorem greet_terms (t : Authority) (sub : Subscription) (events : List String) :
    (t.greet sub events).1.terms = sub.terms := by
  unfold greet
  induction events generalizing sub with
  | nil => rfl
  | cons event events ih =>
    rw [foldEmit_cons, ih]
    rfl

theorem withdraw_spec (t : Authority) (sender : String) (m : Subscribe) (state : String) :
    (t.withdraw sender m state).1.subscriptions = t.subscriptions.eraseP (same sender m) ∧
    (t.withdraw sender m state).1.now = t.now ∧
    (t.withdraw sender m state).1.newSubscription = t.newSubscription := by
  unfold withdraw
  split
  case h_1 h =>
    refine ⟨?_, rfl, rfl⟩
    rw [List.eraseP_of_forall_not]
    exact fun sub hsub => (List.find?_eq_none.mp h) sub hsub
  case h_2 sub h => exact ⟨rfl, rfl, rfl⟩

/-- What a `subscribe` leaves of the subscriptions. -/
inductive Subscribed (t : Authority) (sender : String) (m : Subscribe) (t' : Authority) : Prop
  | refused (h : t'.subscriptions = t.subscriptions)
  | ended (hzero : m.expiresIn = 0)
      (h : t'.subscriptions = t.subscriptions.eraseP (same sender m))
  | began {a sub} (hne : m.expiresIn ≠ 0)
      (ha : t.admission m (t.identityOf sender) = some a)
      (hsub : sub.terms = t.newSubscription sender (t.identityOf sender) m a)
      (h : t'.subscriptions = t.subscriptions.eraseP (same sender m) ++ [sub])

theorem subscribe_spec {sender : String} {m : Subscribe} {out : List Emit}
    (h : t.subscribe sender m (t.identityOf sender) = .ok (t', out)) :
    Subscribed t sender m t' ∧ t'.now = t.now := by
  unfold subscribe at h
  split at h
  case isTrue hzero =>
    split at h
    · obtain ⟨hsubs, hnow, -⟩ := withdraw_spec t sender m "terminated"
      obtain ⟨rfl, rfl⟩ := Prod.ext_iff.mp (Except.ok.inj h)
      exact ⟨.ended hzero hsubs, hnow⟩
    · obtain ⟨rfl, rfl⟩ := Prod.ext_iff.mp (Except.ok.inj h)
      exact ⟨.refused rfl, rfl⟩
  case isFalse hne =>
    split at h
    case h_1 =>
      obtain ⟨rfl, rfl⟩ := Prod.ext_iff.mp (Except.ok.inj h)
      exact ⟨.refused rfl, rfl⟩
    case h_2 a ha =>
      split at h
      · cases h
      · obtain ⟨hsubs, hnow, hnew⟩ := withdraw_spec t sender m "replaced"
        generalize t.withdraw sender m "replaced" = r at h hsubs hnow hnew
        obtain ⟨t₁, out₁⟩ := r
        dsimp only at h hsubs hnow hnew
        obtain ⟨rfl, rfl⟩ := Prod.ext_iff.mp (Except.ok.inj h)
        refine ⟨.began hne ha ?_ (congrArg (· ++ [_]) hsubs), hnow⟩
        rw [greet_terms, hnew]
        rfl

/-! ## Every event -/

/-- What a step leaves of the subscriptions. -/
inductive Stepped (t : Authority) (a : Arrival) (t' : Authority) : Prop
  | kept (hnow : t'.now = t.now) (h : t'.terms = t.terms)
  | lapsed {n} (hev : a.event = .advance n) (hnow : t'.now = t.now + n)
      (h : t'.terms = t.terms.filter fun sub => t'.lapseDue sub = none)
  | revoked {sender grant validUntil}
      (hev : a.event = .recv sender (.grantRevocation grant validUntil)) (hnow : t'.now = t.now)
      (h : t'.terms = t.terms.filter fun sub =>
        ¬ (sub.grant.any (·.1 = grant) ∧ sub.target = t.identityOf sender))
  | subscribed {sender m} (hev : a.event = .recv sender (.subscribe m)) (hnow : t'.now = t.now)
      (h : Subscribed t sender m t')

theorem step_terms {a : Arrival} {out : List Emit} (h : t.step a = .ok (t', out)) : Stepped t a t' := by
  have hkept : ∀ {r : Authority × List Emit}, .ok r = (Except.ok (t', out) : Except Fault _) →
      r.1.terms = t.terms ∧ r.1.now = t.now → Stepped t a t' := by
    intro r hr hterms
    obtain rfl := Except.ok.inj hr
    exact .kept hterms.2 hterms.1
  unfold step at h
  cases hev : a.event with
  | advance n =>
    rw [hev] at h
    obtain ⟨hterms, hnow⟩ := advance_terms t n
    obtain ⟨rfl, rfl⟩ := Prod.ext_iff.mp (Except.ok.inj h)
    refine .lapsed hev hnow ?_
    rw [hterms, ← lapseDue_of_now (t := { t with now := t.now + n }) hnow]
  | policy target pol =>
    rw [hev] at h
    exact hkept h ⟨rfl, rfl⟩
  | issueCapability token target =>
    rw [hev] at h
    exact hkept h ⟨rfl, rfl⟩
  | relay change identity device =>
    rw [hev] at h
    exact hkept h (bindingChange_terms t change identity device)
  | recv sender m =>
    rw [hev] at h
    cases m with
    | publish id publisher stream state expiresAt variants =>
      exact hkept h (recvPublish_terms t id publisher stream state expiresAt variants _)
    | unpublish stream publication =>
      exact hkept h (recvUnpublish_terms t stream publication a.publisher _)
    | provenance stream publication st =>
      exact hkept h (recvProvenance_terms t stream publication st _)
    | subscribe m =>
      obtain ⟨hsub, hnow⟩ := subscribe_spec h
      exact .subscribed hev hnow hsub
    | presence m => exact hkept h (presence_terms t sender m)
    | grantRevocation grant validUntil =>
      obtain ⟨hterms, hnow⟩ := grantRevocation_terms t sender grant validUntil
      obtain ⟨rfl, rfl⟩ := Prod.ext_iff.mp (Except.ok.inj h)
      exact .revoked hev hnow hterms
    | other type => cases h

end Authority

end Dsip.Broadcast.Ts
