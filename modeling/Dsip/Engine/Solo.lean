import Dsip.Engine.Wire

/-!
# An endpoint with one session

An endpoint that has done nothing but take part in one call: no other session,
no grants, no keys that are due. `Holds` follows the record of the session and
the messages of one step; whatever such an endpoint does is told by the session
table alone, and it sends nothing but the messages of its session.
-/

namespace Dsip.Engine

open Dsip.Lib

namespace Endpoint

/-- No session but `sid` is held, and the contacts have nothing to do. -/
structure Solo (e : Endpoint) (device sid : String) : Prop where
  device : e.device = device
  keyed : e.Keyed
  others : ∀ k, k ≠ sid → e.sessions.lookup k = none
  grants : e.contacts.grantsIssued = ∅
  due : e.contacts.due = ∅
  pending : e.contacts.pendingSent = ∅

/-- The record of the session, if there is one, and the messages sent in this
step. -/
structure Holds (e : Endpoint) (device sid : String) (r : Option Session)
    (ms : List Send) : Prop extends Solo e device sid where
  record : e.sessions.lookup sid = r
  sent : sends e.out = ms
  silent : contactEmits e.out = []

variable {e e' : Endpoint} {device sid : String} {r : Option Session} {ms : List Send}

theorem Solo.holds (h : e.Solo device sid) :
    Holds { e with out := [] } device sid (e.sessions.lookup sid) [] :=
  ⟨⟨h.device, h.keyed, h.others, h.grants, h.due, h.pending⟩, rfl, rfl, rfl⟩

theorem solo_new (ctx : Context) (sid : String) : (Endpoint.new ctx).Solo ctx.device sid := by
  refine ⟨rfl, ?_, fun _ _ => rfl, rfl, rfl, rfl⟩
  intro k s hs
  cases hs

theorem Holds.letters (h : e.Holds device sid r ms) : letters e.out = ms.map .session := by
  rw [letters_of_silent h.silent, h.sent]

theorem Holds.emit (h : e.Holds device sid r ms) {x : Emit} (hsend : x.toSend = none)
    (hcontact : x.toContact = none) : (e.emit x).Holds device sid r ms := by
  refine ⟨⟨h.device, h.keyed, h.others, h.grants, h.due, h.pending⟩, h.record, ?_, ?_⟩
  · rw [(emit_frame e x).2.2.1, sends_append, h.sent, sends_cons, hsend]
    simp
  · rw [contactEmits_emit e x hcontact, h.silent]

theorem Holds.send (h : e.Holds device sid r ms) (msg : Send) :
    (e.send msg).Holds device sid r (ms ++ [msg]) := by
  refine ⟨⟨h.device, h.keyed, h.others, h.grants, h.due, h.pending⟩, h.record, ?_, ?_⟩
  · rw [send_eq, (emit_frame e _).2.2.1, sends_append, h.sent]
    rfl
  · rw [send_eq, contactEmits_emit e _ rfl, h.silent]

theorem Holds.put (h : e.Holds device sid r ms) {s : Session} (hs : s.id = sid) :
    (e.put s).Holds device sid (some s) ms := by
  refine ⟨⟨h.device, h.keyed.of_put s, ?_, h.grants, h.due, h.pending⟩, ?_, h.sent, h.silent⟩
  · intro k hk
    exact (AList.lookup_insert_ne (hs ▸ hk)).trans (h.others k hk)
  · rw [← hs]
    exact AList.lookup_insert _

theorem Holds.did (h : e.Holds device sid r ms) {eff : Effect} (hd : Did e sid eff e')
    (hid : eff.record.id = sid) : e'.Holds device sid (some eff.record) (ms ++ eff.sends) := by
  refine ⟨⟨?_, h.keyed.did hd hid, ?_, ?_, ?_, ?_⟩, hd.record, ?_, ?_⟩
  · exact (congrArg Setting.device hd.only.setting).trans h.device
  · intro k hk
    exact (hd.only.sessions k hk).trans (h.others k hk)
  · rw [hd.only.contacts, h.grants]
  · rw [hd.only.contacts, h.due]
  · rw [hd.only.contacts, h.pending]
  · rw [hd.sends, h.sent]
  · rw [hd.only.silent, h.silent]

theorem Holds.startTimer (h : e.Holds device sid r ms) (s : Session) (name : TimerName)
    (seconds : Nat) : (e.startTimer s name seconds).Holds device sid r ms := by
  obtain ⟨hsessions, -, hcontacts, hout, hsetting⟩ := startTimer_frame e s name seconds
  refine ⟨⟨?_, h.keyed.congr hsessions, ?_, ?_, ?_, ?_⟩, ?_, ?_, ?_⟩
  · rw [hsetting, h.device]
  · rw [hsessions]
    exact h.others
  · rw [hcontacts, h.grants]
  · rw [hcontacts, h.due]
  · rw [hcontacts, h.pending]
  · rw [hsessions, h.record]
  · rw [hout, sends_append, h.sent]
    simp
  · rw [hout, contactEmits, List.filterMap_append]
    simpa [contactEmits] using h.silent

/-! ## The owner and the other side -/

theorem Holds.placeCall (h : e.Holds device sid r ms) (dest : String) :
    (r.isSome ∧ (e.placeCall sid dest).Holds device sid r ms) ∨
      (r = none ∧ ∃ s grant, s.role = .initiator ∧ s.state = .inviting ∧ s.inviteTo = some dest ∧
        (e.placeCall sid dest).Holds device sid (some s) (ms ++ [.invite dest sid grant])) := by
  unfold Endpoint.placeCall
  split
  case isTrue hmem =>
    rw [Dict.mem_iff_lookup, h.record] at hmem
    exact .inl ⟨Option.isSome_iff_exists.mpr hmem, h.emit rfl rfl⟩
  case isFalse hno =>
    rw [Dict.mem_iff_lookup, h.record] at hno
    refine .inr ⟨?_, _, _, rfl, rfl, rfl, ((h.put ?_).send _).startTimer _ _ _⟩
    · cases r with
      | none => rfl
      | some s => exact absurd ⟨s, rfl⟩ hno
    · rfl

theorem Holds.call (h : e.Holds device sid r ms) {event : CallEvent}
    (hcall : e.call sid event = .ok e') : (r = none ∧ e'.Holds device sid none ms) ∨
      ∃ s, r = some s ∧ s.id = sid ∧
        e'.Holds device sid (some (s.act e.now event).record) (ms ++ (s.act e.now event).sends) := by
  unfold Endpoint.call at hcall
  rw [h.record] at hcall
  cases r with
  | none =>
    cases hcall
    exact .inl ⟨rfl, h.emit rfl rfl⟩
  | some s =>
    have hid := h.keyed sid s h.record
    have hs := h.record
    rw [← hid] at hs
    refine .inr ⟨s, rfl, hid, h.did ?_ ((s.act_id _ _).trans hid)⟩
    rw [← hid]
    exact callEvent_did hs hcall

theorem Holds.message (h : e.Holds device sid r ms) {m : Msg} {body : SessionBody}
    (hm : m.session = some sid) (hrecv : e.recvSession m body = .ok e') : (r = none ∧
        e'.Holds device sid none (ms ++ [.error m.sender m.session "session.unknown-session" m.id])) ∨
      ∃ s, r = some s ∧ s.id = sid ∧
        e'.Holds device sid (some (s.recv m body).record) (ms ++ (s.recv m body).sends) := by
  cases recvSession_outcome hrecv with
  | introduction hanswers =>
    obtain ⟨_, _, _, _, _, hmem⟩ := hanswers
    rw [h.pending] at hmem
    cases hmem
  | unknown hno =>
    have hnone := hno sid hm
    rw [Dict.mem_iff_lookup, h.record] at hnone
    cases r with
    | none => exact .inl ⟨rfl, h.send _⟩
    | some s => exact absurd ⟨s, rfl⟩ hnone
  | held _ hm' hs hd =>
    obtain rfl := Option.some.inj (hm.symm.trans hm')
    have hid := h.keyed sid _ hs
    rw [h.record] at hs
    exact .inr ⟨_, hs, hid, h.did (hd hid) ((Session.recv_id _ _ _).trans hid)⟩

/-- An invite under the session's id, at an endpoint that placed no call: it is
rejected by policy, offered, or a repetition. -/
theorem Holds.invite (h : e.Holds device sid r ms) (hrole : ∀ s, r = some s → s.role = .responder)
    {m : Msg} (hm : m.id = sid) (dest : Option String) (expiresAt : Option Nat) :
    (∃ s reason, s.role = .responder ∧ s.state = .ended ∧
        (e.recvInvite m dest expiresAt).Holds device sid (some s)
          (ms ++ [.reject m.sender sid reason none])) ∨
      (r = none ∧ ∃ s, s.role = .responder ∧ s.state = .offered ∧ s.postAnswerSeen = false ∧
        (e.recvInvite m dest expiresAt).Holds device sid (some s) ms) ∨
      ∃ s, r = some s ∧ if s.state = .ended then (e.recvInvite m dest expiresAt).Holds device sid r ms
        else (e.recvInvite m dest expiresAt).Holds device sid r
          (ms ++ [.error m.sender (some sid) "session.invalid-state" sid]) := by
  have hrivals : e.rivals (e.identityOf m.sender) = [] := by
    rw [List.eq_nil_iff_forall_not_mem]
    intro s hs
    obtain ⟨hheld, hinitiator, -⟩ := (mem_rivals h.keyed).mp hs
    have hid : s.id = sid := by
      by_contra hne
      rw [h.others _ hne] at hheld
      cases hheld
    rw [hid, h.record] at hheld
    rw [hrole s hheld] at hinitiator
    cases hinitiator
  subst hm
  unfold Endpoint.recvInvite
  split
  case isTrue =>
    refine .inl ⟨_, _, ?_, ?_, (h.send _).put ?_⟩ <;> rfl
  case isFalse =>
    rw [hrivals]
    dsimp only
    rw [h.record]
    cases r with
    | none =>
      refine .inr (.inl ⟨rfl, ?_⟩)
      refine ⟨_, ?_, ?_, ?_, Holds.emit (h.put ?_) ?_ ?_⟩ <;> rfl
    | some s =>
      refine .inr (.inr ⟨s, rfl, ?_⟩)
      dsimp only
      by_cases hst : s.state = .ended
      · rw [if_pos hst, if_pos hst]
        exact h.emit rfl rfl
      · rw [if_neg hst, if_neg hst]
        exact h.send _

theorem Holds.error (h : e.Holds device sid r ms) {m : Msg} {reason : Option String}
    (hreason : reason ≠ some "transport.no-response") : (e.recvError m reason).Holds device sid r ms := by
  unfold recvError
  split
  case h_1 => exact h.emit rfl rfl
  case h_2 =>
    split
    case isTrue hno => exact absurd hno.1 hreason
    case isFalse => exact h.emit rfl rfl

/-! ## The clock -/

theorem Holds.lapse (h : e.Holds device sid r ms) (now : Nat) :
    Holds { e with contacts := e.contacts.endLapsed now } device sid r ms := by
  have hsame : e.contacts.endLapsed now = e.contacts := by
    unfold Contacts.endLapsed
    rw [h.grants]
    rfl
  rw [hsame]
  exact h

theorem Holds.rotate (h : e.Holds device sid r ms) {now : Nat} {c : Contacts × List ContactEmit}
    (hc : e.contacts.rotateDue now = .ok c) : (e.withContacts c).Holds device sid r ms := by
  have hsame : c = (e.contacts, []) := by
    have hdue : e.contacts.dueNow now = [] := by
      unfold Contacts.dueNow
      rw [h.due]
      rfl
    unfold Contacts.rotateDue at hc
    rw [hdue] at hc
    exact (Except.ok.inj hc).symm
  subst hsame
  refine ⟨⟨h.device, h.keyed, h.others, h.grants, h.due, h.pending⟩, h.record, ?_, ?_⟩
  · simpa [withContacts] using h.sent
  · simpa [withContacts] using h.silent

theorem Holds.advance {Q : Option Session → List Send → Prop} (h : e.Holds device sid r ms) (hQ : Q r ms)
    (hstep : ∀ s ms name, Q (some s) ms → Q (some (s.expire name).record) (ms ++ (s.expire name).sends))
    {seconds : Nat} (hadv : e.advance seconds = .ok e') :
    ∃ r' ms', Q r' ms' ∧ e'.Holds device sid r' ms' := by
  have hkeeps : Keeps fun e => ∃ r ms, Q r ms ∧ e.Holds device sid r ms := by
    refine ⟨?_, ?_, ?_, ?_⟩
    · rintro e n ⟨r, ms, hQ, h⟩ - -
      exact ⟨r, ms, hQ, ⟨⟨h.device, h.keyed, h.others, h.grants, h.due, h.pending⟩, h.record, h.sent,
        h.silent⟩⟩
    · rintro e t e' ⟨r, ms, hQ, h⟩ - - hfire
      obtain ⟨s, hs, hd⟩ := fire_did_of_keyed h.keyed hfire
      obtain rfl : t.session = sid := by
        by_contra hne
        rw [h.others _ hne] at hs
        cases hs
      have hrecord := h.record
      rw [hs] at hrecord
      subst hrecord
      have herased : Holds { e with timers := e.timers.erase t } device t.session (some s) ms :=
        ⟨⟨h.device, h.keyed, h.others, h.grants, h.due, h.pending⟩, h.record, h.sent, h.silent⟩
      exact ⟨_, _, hstep s ms t.name hQ, herased.did hd ((s.expire_id _).trans (h.keyed _ s hs))⟩
    · rintro e ⟨r, ms, hQ, h⟩
      exact ⟨r, ms, hQ, h.lapse _⟩
    · rintro e c ⟨r, ms, hQ, h⟩ hc
      exact ⟨r, ms, hQ, h.rotate hc⟩
  exact hkeeps.advance ⟨r, ms, hQ, h⟩ hadv

/-! ## Letters -/

/-- A letter from a device, with the message in it related to `k`. -/
def Mail {κ : Type} (device : String) (P : Send → κ → Prop) (w : Wire) (k : κ) : Prop :=
  ∃ msg, w = ⟨device, .session msg⟩ ∧ P msg k

theorem Holds.mail {κ : Type} {P : Send → κ → Prop} {ks : List κ} (h : e.Holds device sid r ms)
    (hms : List.Forall₂ P ms ks) :
    List.Forall₂ (Mail device P) ((Engine.letters e.out).map (Wire.mk device)) ks := by
  rw [h.letters, List.map_map, List.forall₂_map_left_iff]
  exact hms.imp fun msg k hmsg => ⟨msg, rfl, hmsg⟩

theorem post_ok {event : Event} {sent : List Wire} (h : e.post event = .ok (e', sent)) :
    { e with out := [] }.perform event = .ok e' ∧ sent = (Engine.letters e'.out).map (Wire.mk e.device) := by
  obtain ⟨⟨e₁, out⟩, hstep, heq⟩ := map_ok h
  obtain ⟨e₂, hperform, hout⟩ := map_ok hstep
  cases hout
  cases heq
  exact ⟨hperform, rfl⟩

end Endpoint

end Dsip.Engine
