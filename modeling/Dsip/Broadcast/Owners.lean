import Dsip.Broadcast.Life
import Dsip.Broadcast.StepsTs

/-!
# Whose a subscription is

A `subscribe` leaves the subscriptions of other devices as they are, unless its
id is that of one of them: the Python authority keeps them by id, so it replaces
it; the TypeScript authority keeps a list, so it does not.
-/

namespace Dsip.Broadcast

open Dsip.Lib

namespace Authority

variable {s s' : Authority}

/-- The subscriptions of other devices are there as they were. -/
def OthersKept (s s' : Authority) (sender : String) : Prop :=
  ∀ sid sub, s.subOf sid = some sub → sub.device ≠ sender → s'.subOf sid = some sub

/-- The `subscribe` begins a subscription under the id of another device's. -/
def Collides (s : Authority) (sender : String) (m : Subscribe) : Prop :=
  m.expiresIn ≠ 0 ∧ (s.admission (s.identityOf sender) m).isSome ∧
    (s.subOf m.id).any fun sub => sub.device ≠ sender

instance (s : Authority) (sender : String) (m : Subscribe) : Decidable (s.Collides sender m) :=
  inferInstanceAs (Decidable (_ ∧ _))

theorem device_of_existing {sender sid : String} {m : Subscribe} {sub : Subscription}
    (hsub : s.subOf sid = some sub) (hdevice : sub.device ≠ sender) : s.existing sender m ≠ some sid := by
  intro hex
  obtain ⟨sub', hsub', hmatches⟩ := existing_matches hex
  obtain rfl := Option.some.inj (hsub.symm.trans hsub')
  exact hdevice (of_decide_eq_true hmatches).1

theorem othersKept_of_not_begins {sender : String} {m : Subscribe}
    (hb : begins s (.recv sender (.subscribe m)) = none) :
    OthersKept s (s.step (.recv sender (.subscribe m))).1 sender := by
  intro sid sub hsub hdevice
  show (s.recvSubscribe sender m (s.identityOf sender)).1.subOf sid = some sub
  unfold recvSubscribe
  split
  case isTrue hzero =>
    obtain ⟨-, hsubs, -⟩ := withdraw_spec s sender m "terminated"
    split
    · rw [hsubs, if_neg (device_of_existing hsub hdevice)]
      exact hsub
    · exact hsub
  case isFalse hne =>
    cases ha : s.admission (s.identityOf sender) m with
    | none => exact hsub
    | some a => simp [begins, ha, hne] at hb

theorem othersKept_iff (s : Authority) (sender : String) (m : Subscribe) :
    OthersKept s (s.step (.recv sender (.subscribe m))).1 sender ↔ ¬ s.Collides sender m := by
  cases hb : begins s (.recv sender (.subscribe m)) with
  | none =>
    refine iff_of_true (othersKept_of_not_begins hb) ?_
    rintro ⟨hne, hadmitted, -⟩
    simp [begins, hne, hadmitted] at hb
  | some b =>
    obtain ⟨sender', m', a, hev, -, hne, ha⟩ := begins_eq_some hb
    obtain ⟨rfl, hm⟩ := Event.recv.inj hev
    obtain rfl := Message.subscribe.inj hm
    obtain ⟨body, -, -, hsubs, -⟩ := @recvSubscribe_admitted s sender _ m a hne ha
    constructor
    · -- the subscription that begins is the sender's
      rintro hkept ⟨-, -, hother⟩
      obtain ⟨sub, hsub, hdevice⟩ := Option.any_eq_true _ _ |>.mp hother
      have hdevice' : sub.device ≠ sender := of_decide_eq_true hdevice
      have hnew := (hsubs m.id).symm.trans (hkept m.id sub hsub hdevice')
      rw [if_pos rfl] at hnew
      obtain rfl := Option.some.inj hnew
      exact hdevice' rfl
    · intro hno sid sub hsub hdevice
      refine (hsubs sid).trans ?_
      have hid : sid ≠ m.id := by
        rintro rfl
        refine hno ⟨hne, by rw [ha]; rfl, ?_⟩
        rw [hsub]
        exact decide_eq_true hdevice
      rw [if_neg hid, if_neg (device_of_existing hsub hdevice)]
      exact hsub

end Authority

namespace Ts.Authority

variable {t t' : Authority}

theorem filter_eraseP {α : Type} {p q : α → Bool} (h : ∀ x, p x = true → q x = false)
    (l : List α) : (l.eraseP p).filter q = l.filter q := by
  induction l with
  | nil => rfl
  | cons x l ih =>
    rw [List.eraseP_cons]
    cases hp : p x with
    | true => rw [cond_true, List.filter_cons_of_neg (by simp [h x hp])]
    | false => rw [cond_false, List.filter_cons, List.filter_cons, ih]

/-- The subscriptions of other devices, as they are kept. -/
def others (t : Authority) (sender : String) : List Subscription :=
  t.subscriptions.filter fun sub => sub.device ≠ sender

theorem others_of_subscribed {sender : String} {m : Subscribe} (h : Subscribed t sender m t') :
    t'.others sender = t.others sender := by
  have herase : (t.subscriptions.eraseP (same sender m)).filter
      (fun sub => sub.device ≠ sender) = t.others sender := by
    refine filter_eraseP (fun sub hsub => ?_) t.subscriptions
    have hdevice := (of_decide_eq_true hsub).1
    simp [hdevice]
  unfold others at herase ⊢
  cases h with
  | refused h => rw [h]
  | ended _ h => rw [h, herase]
  | @began a sub _ _ hsub h =>
    have hdevice : sub.device = sender := (congrArg (·.device) hsub : sub.terms.device = _)
    rw [h, List.filter_append, herase, List.filter_cons_of_neg (by simp [hdevice])]
    exact List.append_nil _

/-- A device has at most one subscription for a target and events. -/
def Unique (t : Authority) : Prop := (t.terms.map (·.key)).Nodup

theorem Unique.sublist (h : t.Unique) (hsub : List.Sublist t'.terms t.terms) : t'.Unique :=
  (hsub.map _).nodup h

theorem eraseP_same_terms (t : Authority) (sender : String) (m : Subscribe) :
    (t.subscriptions.eraseP (same sender m)).map (·.terms) = t.terms.eraseP (same sender m) := by
  unfold terms
  rw [List.eraseP_map]
  rfl

theorem Unique.erased (h : t.Unique) {sender : String} {m : Subscribe} :
    ∀ sub ∈ t.terms.eraseP (same sender m), sub.key ≠ (sender, m.target, m.events) := by
  unfold Unique at h
  generalize t.terms = l at h ⊢
  induction l with
  | nil => simp
  | cons x l ih =>
    obtain ⟨hx, hl⟩ := List.nodup_cons.mp h
    intro sub hsub hkey
    rw [List.eraseP_cons] at hsub
    cases hp : same sender m x with
    | true =>
      rw [hp, cond_true] at hsub
      have hown := of_decide_eq_true hp
      refine hx ?_
      have hxkey : x.key = sub.key := by
        rw [hkey]
        unfold Subscription.key
        rw [hown.1, hown.2.1, hown.2.2]
      show x.key ∈ l.map (·.key)
      rw [hxkey]
      exact List.mem_map_of_mem hsub
    | false =>
      rw [hp, cond_false] at hsub
      rcases List.mem_cons.mp hsub with rfl | hsub
      · unfold Subscription.key at hkey
        obtain ⟨hd, hrest⟩ := Prod.mk.inj hkey
        obtain ⟨ht, he⟩ := Prod.mk.inj hrest
        have hp' : same sender m sub = true := decide_eq_true ⟨hd, ht, he⟩
        rw [hp] at hp'
        cases hp'
      · exact ih hl sub hsub hkey

theorem unique_step {a : Arrival} {out : List Emit} (hu : t.Unique)
    (h : t.step a = .ok (t', out)) : t'.Unique := by
  cases step_terms h with
  | kept _ h => exact hu.sublist (h ▸ List.Sublist.refl _)
  | lapsed _ _ h => exact hu.sublist (h ▸ List.filter_sublist)
  | revoked _ _ h => exact hu.sublist (h ▸ List.filter_sublist)
  | @subscribed sender m _ _ hs =>
    cases hs with
    | refused h =>
      refine hu.sublist ?_
      unfold terms
      rw [h]
    | ended _ h =>
      refine hu.sublist ?_
      unfold terms
      rw [h]
      exact List.eraseP_sublist.map _
    | @began a sub _ _ hsub h =>
      have hterms : t'.terms = t.terms.eraseP (same sender m) ++ [sub.terms] := by
        unfold terms
        rw [h, List.map_append, eraseP_same_terms]
        rfl
      have hkey : sub.terms.key = (sender, m.target, m.events) := by rw [hsub]; rfl
      unfold Unique
      rw [hterms, List.map_append, List.nodup_append]
      refine ⟨(List.eraseP_sublist.map _).nodup hu, List.nodup_singleton _, ?_⟩
      intro k hk k' hk'
      obtain ⟨sub', hsub', rfl⟩ := List.mem_map.mp hk
      obtain rfl := List.mem_singleton.mp hk'
      show sub'.key ≠ sub.terms.key
      rw [hkey]
      exact hu.erased sub' hsub'

theorem unique_invariant (ctx : Dsip.Broadcast.Authority.Context) : (machine ctx).Invariant Unique := by
  refine TSys.Inductive.invariant ⟨?_, ?_⟩
  · rintro t rfl
    exact List.nodup_nil
  · intro t a out t' hu hs
    exact unique_step hu hs

end Ts.Authority

namespace Authority

/-- In every reachable state a `subscribe` leaves the subscriptions of other
devices as they are, unless it begins one under the id of one of them; the
TypeScript authority leaves them in any case. Neither has two subscriptions of
one device for the same target and events. -/
theorem subscribe_frame (ctx : Context) : (∀ s, (machine ctx).Reachable s → s.Unique ∧ ∀ sender m,
      (OthersKept s (s.step (.recv sender (.subscribe m))).1 sender ↔ ¬ s.Collides sender m)) ∧
    ∀ t, (Ts.Authority.machine ctx).Reachable t → t.Unique ∧
      ∀ a sender m t' out, a.event = .recv sender (.subscribe m) → t.step a = .ok (t', out) →
        t'.others sender = t.others sender := by
  refine ⟨fun s hs => ⟨(sound_invariant ctx s hs).unique, othersKept_iff s⟩, ?_⟩
  intro t ht
  refine ⟨Ts.Authority.unique_invariant ctx t ht, ?_⟩
  intro a sender m t' out hev hstep
  have hsubscribe : t.subscribe sender m (t.identityOf sender) = .ok (t', out) := by
    unfold Ts.Authority.step at hstep
    rw [hev] at hstep
    exact hstep
  exact Ts.Authority.others_of_subscribed (Ts.Authority.subscribe_spec hsubscribe).1

/-! ## Two devices -/

theorem presence_ne_nil : ["presence"] ≠ [] := by decide

/-- A presence `subscribe` to the devices' own identity. -/
def ownWatch (id : String) : Subscribe where
  id := id
  target := "alice"
  events := ["presence"]
  expiresIn := 60
  nonempty := presence_ne_nil

/-- The state after the phone's `subscribe`. -/
def phoneWatches : Authority := ((init twoDevices).step (.recv "phone" (.subscribe (ownWatch "s1")))).1

theorem reachable_phoneWatches : (machine twoDevices).Reachable phoneWatches :=
  (TSys.exec_run step (· = init twoDevices) (init twoDevices)
    [.recv "phone" (.subscribe (ownWatch "s1"))]).reachable (.init rfl)

theorem subscribe_frame_laptop :
    OthersKept phoneWatches (phoneWatches.step (.recv "laptop" (.subscribe (ownWatch "s2")))).1
      "laptop" :=
  (((subscribe_frame twoDevices).1 phoneWatches reachable_phoneWatches).2 "laptop"
    (ownWatch "s2")).mpr (by decide +kernel)

/-- The laptop's `subscribe` under the id of the phone's subscription. -/
theorem subscribe_replaces_other :
    ¬ ∀ (ctx : Context) (s : Authority), (machine ctx).Reachable s → ∀ sender m,
      OthersKept s (s.step (.recv sender (.subscribe m))).1 sender := by
  intro h
  have hkept := h twoDevices phoneWatches reachable_phoneWatches "laptop" (ownWatch "s1")
  exact (othersKept_iff _ _ _).mp hkept (by decide +kernel)

end Authority

end Dsip.Broadcast
