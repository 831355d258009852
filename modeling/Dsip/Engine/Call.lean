import Dsip.Engine.Handshake
import Dsip.Engine.Solo

/-!
# Two endpoints agree on a call

One endpoint places a call to the device of the other (§12.4), and either owner
may do anything that concerns a call, at any time. The initiator plays the
caller of the handshake and the responder the callee, whatever the clocks do in
between: a timer that expires is a caller that gives up, or a callee that
refuses. What the handshake guarantees of every interleaving, §12.5 included,
the endpoints have.
-/

namespace Dsip.Engine

open Dsip.Lib Dsip.Registry
open Handshake (Caller Callee Up Down CallerAct CalleeAct)

/-! ## The roles -/

/-- The initiator's record as a caller; `peer` is the device called. -/
inductive CallerIs (peer : String) : Option Session → Caller → Prop
  | idle : CallerIs peer none .idle
  | calling {s : Session} (hr : s.role = .initiator) (ha : s.Attempting)
      (hd : s.inviteTo = some peer) : CallerIs peer (some s) .calling
  | talking {s : Session} (hr : s.role = .initiator) (hst : s.state = .active)
      (hd : s.answeredDevice = some peer) : CallerIs peer (some s) .talking
  | finished {s : Session} (hr : s.role = .initiator) (hst : s.state = .ended) :
      CallerIs peer (some s) .finished

/-- The responder's record as a callee. -/
inductive CalleeIs : Option Session → Callee → Prop
  | idle : CalleeIs none .idle
  | offered {s : Session} (hr : s.role = .responder) (hst : s.state = .offered)
      (hp : s.postAnswerSeen = false) : CalleeIs (some s) .offered
  | ringing {s : Session} (hr : s.role = .responder) (hst : s.state = .alerting)
      (hp : s.postAnswerSeen = false) : CalleeIs (some s) .ringing
  | talking {s : Session} {spoken : Bool} (hr : s.role = .responder) (hst : s.state = .active)
      (hp : s.postAnswerSeen = spoken) : CalleeIs (some s) (.talking spoken)
  | finished {s : Session} (hr : s.role = .responder) (hst : s.state = .ended) :
      CalleeIs (some s) .finished

/-- A message of the initiator. An error it sends is not the relay's. -/
inductive IsDown (peer sid : String) : Send → Down → Prop
  | invite {grant : Option String} : IsDown peer sid (.invite peer sid grant) .invite
  | cancel {dest : Option String} {reason : String}
      (h : (resolveReason reason .cancel).effective ≠ "session.answered-elsewhere") :
      IsDown peer sid (.cancel dest sid reason) .cancel
  | bye {dest reason : String} : IsDown peer sid (.bye dest sid reason) .bye
  | error {dest reason id : String} {session : Option String}
      (h : reason ≠ "transport.no-response") :
      IsDown peer sid (.error dest session reason id) .error

/-- A message of the responder. -/
inductive IsUp (sid : String) : Send → Up → Prop
  | progress {dest : String} {ringTimeout : Option Nat} :
      IsUp sid (.progress dest sid "ringing" ringTimeout) .progress
  | answer {dest answeredBy : String} : IsUp sid (.answer dest sid answeredBy none) .answer
  | reject {dest reason : String} : IsUp sid (.reject dest sid reason none) .reject
  | bye {dest reason : String} : IsUp sid (.bye dest sid reason) .bye
  | error {dest reason id : String} {session : Option String}
      (h : reason ≠ "transport.no-response") : IsUp sid (.error dest session reason id) .error

/-- A message of the responder about its session, by what it says. -/
inductive SaysUp : SessionBody → Up → Prop
  | progress {ringTimeout queueTimeout : Option Nat} :
      SaysUp (.progress "ringing" ringTimeout queueTimeout) .progress
  | answer {answeredBy : String} : SaysUp (.answer answeredBy none) .answer
  | reject {token : String} : SaysUp (.reject token none) .reject
  | bye {token : String} : SaysUp (.bye token) .bye

/-- A message of the initiator about its session. -/
inductive SaysDown : SessionBody → Down → Prop
  | cancel {token : String}
      (h : (resolveReason token .cancel).effective ≠ "session.answered-elsewhere") :
      SaysDown (.cancel token) .cancel
  | bye {token : String} : SaysDown (.bye token) .bye

/-- The owner's events on a call. -/
def CallEvent.OfCall : CallEvent → Prop
  | .cancel | .hangup _ | .alert _ | .autoReject _ | .accept _ | .decline _ => True
  | _ => False

instance : DecidablePred CallEvent.OfCall
  | .cancel | .hangup _ | .alert _ | .autoReject _ | .accept _ | .decline _ => isTrue trivial
  | .update .. | .answerUpdate .. | .rejectUpdate .. | .info => isFalse id

/-! ## What a session does is what its role does -/

/-- An effect on the initiator's session that is a step of a caller. -/
def PlaysCaller (peer sid : String) (eff : Effect) (o : Caller × List Down) : Prop :=
  CallerIs peer (some eff.record) o.1 ∧ List.Forall₂ (IsDown peer sid) eff.sends o.2

/-- An effect on the responder's session that is a step of a callee. -/
def PlaysCallee (sid : String) (eff : Effect) (o : Callee × List Up) : Prop :=
  CalleeIs (some eff.record) o.1 ∧ List.Forall₂ (IsUp sid) eff.sends o.2

section Caller

variable {s : Session} {c : Caller} {peer : String}

theorem CallerIs.role (h : CallerIs peer (some s) c) : s.role = .initiator := by
  cases h <;> assumption

theorem CallerIs.stays (h : CallerIs peer (some s) c) :
    PlaysCaller peer s.id { record := s } (c.act .pass) := by
  cases h
  case calling hr ha hd => exact ⟨.calling hr ha hd, .nil⟩
  case talking hr hst hd => exact ⟨.talking hr hst hd, .nil⟩
  case finished hr hst => exact ⟨.finished hr hst, .nil⟩

theorem not_attempting {s : Session} (h : s.state = .active ∨ s.state = .ended) : ¬ s.Attempting := by
  rintro (ha | ha) <;> rw [ha] at h <;> rcases h with h | h <;> cases h

theorem not_active {s : Session} (h : s.Attempting) : s.state ≠ .active := by
  intro hst
  exact not_attempting (.inl hst) h

theorem CallerIs.act (h : CallerIs peer (some s) c) (now : Nat) {event : CallEvent}
    (hevent : event.OfCall) : ∃ i, PlaysCaller peer s.id (s.act now event) (c.act i) := by
  have hrole : ¬ s.role = .responder := by simp [h.role]
  cases event
  case cancel =>
    by_cases ha : s.Attempting
    case pos =>
      simp only [Session.act, if_pos (And.intro h.role ha)]
      cases h
      case calling hr _ _ =>
        exact ⟨.giveUp, .finished hr rfl, .cons (.cancel (by decide)) .nil⟩
      case talking hst _ => exact absurd ha (not_attempting (.inl hst))
      case finished hst => exact absurd ha (not_attempting (.inr hst))
    case neg =>
      simp only [Session.act, if_neg fun hno : s.role = .initiator ∧ s.Attempting => ha hno.2]
      exact ⟨.pass, h.stays⟩
  case hangup reason =>
    by_cases hst : s.state = .active
    case pos =>
      simp only [Session.act, if_pos hst]
      cases h
      case calling ha _ => exact absurd hst (not_active ha)
      case talking hr _ _ => exact ⟨.hangUp, .finished hr rfl, .cons .bye .nil⟩
      case finished hst' => rw [hst] at hst'; cases hst'
    case neg =>
      simp only [Session.act, if_neg hst]
      exact ⟨.pass, h.stays⟩
  case alert ringTimeout =>
    simp only [Session.act, hrole, false_and, if_false]
    exact ⟨.pass, h.stays⟩
  case autoReject reason =>
    simp only [Session.act, hrole, false_and, if_false]
    exact ⟨.pass, h.stays⟩
  case accept answeredBy =>
    simp only [Session.act, hrole, false_and, if_false]
    exact ⟨.pass, h.stays⟩
  case decline reason =>
    simp only [Session.act, hrole, false_and, if_false]
    exact ⟨.pass, h.stays⟩
  all_goals cases hevent

theorem CallerIs.expire (h : CallerIs peer (some s) c) (name : TimerName) :
    ∃ i : CallerAct, i.Lapse ∧ PlaysCaller peer s.id (s.expire name) (c.act i) := by
  have hstate : ¬ (name = .ringLocal ∧ s.state = .alerting) := by
    rintro ⟨-, hst⟩
    cases h
    case calling ha _ => rcases ha with ha | ha <;> rw [hst] at ha <;> cases ha
    case talking h _ => rw [hst] at h; cases h
    case finished h => rw [hst] at h; cases h
  unfold Session.expire
  rw [if_neg hstate]
  split
  case isTrue hwait =>
    cases h
    case calling hr _ _ =>
      exact ⟨.giveUp, .inl rfl, .finished hr rfl, .cons (.cancel (by decide)) .nil⟩
    case talking hst _ => exact absurd hwait.2 (not_attempting (.inl hst))
    case finished hst => exact absurd hwait.2 (not_attempting (.inr hst))
  case isFalse => exact ⟨.pass, .inr rfl, h.stays⟩

theorem CallerIs.refuses (h : CallerIs peer (some s) c) (m : Msg) :
    PlaysCaller peer s.id (s.refuse m "session.invalid-state") (c, [.error]) := by
  obtain ⟨hc, -⟩ := h.stays
  have hsame : (c.act .pass).1 = c := by cases c <;> rfl
  rw [hsame] at hc
  exact ⟨hc, .cons (.error (by decide)) .nil⟩

theorem CallerIs.recv (h : CallerIs peer (some s) c) {m : Msg} (hm : m.sender = peer)
    {body : SessionBody} {up : Up} (hup : SaysUp body up) :
    PlaysCaller peer s.id (s.recv m body) (c.recv up) := by
  have hrefuses := h.refuses m
  unfold Session.recv
  rw [s.observe_initiator h.role]
  cases h
  case finished hr hst =>
    rw [if_pos hst]
    cases hup
    case answer =>
      simp only [Session.reactLate, hr]
      exact ⟨.finished hr hst, .cons .bye .nil⟩
    all_goals
      simp only [Session.reactLate, hr]
      exact ⟨.finished hr hst, .nil⟩
  case calling hr ha hd =>
    have hopen : s.state ≠ .ended := fun hst => not_attempting (.inr hst) ha
    have hpos := And.intro hr ha
    rw [if_neg hopen]
    cases hup
    case progress =>
      simp only [Session.react, if_pos hpos]
      exact ⟨.calling hr (.inr rfl) hd, .nil⟩
    case answer =>
      simp only [Session.react, if_pos hpos]
      rw [if_pos (by rw [hm, hd])]
      exact ⟨.talking hr rfl (congrArg some hm), .nil⟩
    case reject =>
      simp only [Session.react, if_pos hpos]
      exact ⟨.finished hr rfl, .nil⟩
    case bye =>
      simp only [Session.react, if_neg (not_active ha)]
      exact hrefuses
  case talking hr hst hd =>
    have hopen : s.state ≠ .ended := by simp [hst]
    have hneg : ¬ (s.role = .initiator ∧ s.Attempting) :=
      fun hno => not_attempting (.inl hst) hno.2
    rw [if_neg hopen]
    cases hup
    case progress =>
      simp only [Session.react, if_neg hneg]
      exact hrefuses
    case answer =>
      -- the device that answered is the one called: no other leg
      have hleg : ¬ (s.role = .initiator ∧ s.state = .active ∧ some m.sender ≠ s.answeredDevice) := by
        rintro ⟨-, -, hne⟩
        exact hne (by rw [hm, hd])
      simp only [Session.react, if_neg hneg]
      rw [if_neg hleg]
      exact hrefuses
    case reject =>
      simp only [Session.react, if_neg hneg]
      exact hrefuses
    case bye =>
      simp only [Session.react, if_pos hst]
      exact ⟨.finished hr rfl, .nil⟩

end Caller

section Callee

variable {s : Session} {r : Callee}

theorem CalleeIs.role (h : CalleeIs (some s) r) : s.role = .responder := by
  cases h <;> assumption

theorem CalleeIs.stays (h : CalleeIs (some s) r) : PlaysCallee s.id { record := s } (r.act .pass) := by
  cases h
  case offered hr hst hp => exact ⟨.offered hr hst hp, .nil⟩
  case ringing hr hst hp => exact ⟨.ringing hr hst hp, .nil⟩
  case talking hr hst hp => exact ⟨.talking hr hst hp, .nil⟩
  case finished hr hst => exact ⟨.finished hr hst, .nil⟩

theorem CalleeIs.act (h : CalleeIs (some s) r) (now : Nat) {event : CallEvent}
    (hevent : event.OfCall) : ∃ i, PlaysCallee s.id (s.act now event) (r.act i) := by
  have hrole : ¬ s.role = .initiator := by simp [h.role]
  -- outside the one state that allows an event nothing happens
  have hpass : s.act now event = { record := s } → ∃ i, PlaysCallee s.id (s.act now event) (r.act i) := by
    intro hact
    rw [hact]
    exact ⟨.pass, h.stays⟩
  cases event
  case cancel =>
    apply hpass
    simp only [Session.act, hrole, false_and, if_false]
  case hangup reason =>
    cases h
    case talking hr hst _ =>
      simp only [Session.act, if_pos hst]
      exact ⟨.hangUp, .finished hr rfl, .cons .bye .nil⟩
    all_goals
      apply hpass
      simp [Session.act, *]
  case alert ringTimeout =>
    cases h
    case offered hr hst hp =>
      simp only [Session.act, if_pos (And.intro hr hst)]
      split
      case isTrue => exact ⟨.refuse, .finished hr rfl, .cons .reject .nil⟩
      case isFalse => exact ⟨.ring, .ringing hr rfl hp, .cons .progress .nil⟩
    all_goals
      apply hpass
      simp [Session.act, *]
  case autoReject reason =>
    cases h
    case offered hr hst _ =>
      simp only [Session.act, if_pos (And.intro hr hst)]
      exact ⟨.refuse, .finished hr rfl, .cons .reject .nil⟩
    all_goals
      apply hpass
      simp [Session.act, *]
  case accept answeredBy =>
    cases h
    case ringing hr hst hp =>
      simp only [Session.act, if_pos (And.intro hr hst)]
      exact ⟨.accept, .talking hr rfl hp, .cons .answer .nil⟩
    all_goals
      apply hpass
      simp [Session.act, *]
  case decline reason =>
    cases h
    case ringing hr hst _ =>
      simp only [Session.act, if_pos (And.intro hr hst)]
      exact ⟨.refuse, .finished hr rfl, .cons .reject .nil⟩
    all_goals
      apply hpass
      simp [Session.act, *]
  all_goals cases hevent

theorem CalleeIs.expire (h : CalleeIs (some s) r) (name : TimerName) :
    ∃ i : CalleeAct, i.Lapse ∧ PlaysCallee s.id (s.expire name) (r.act i) := by
  have hidle : ¬ (name ≠ .ringLocal ∧ s.Attempting) := by
    rintro ⟨-, ha⟩
    cases h <;> rcases ha with ha | ha <;> simp_all
  unfold Session.expire
  rw [if_neg hidle]
  split
  case isTrue hring =>
    cases h
    case ringing hr _ _ => exact ⟨.refuse, .inl rfl, .finished hr rfl, .cons .reject .nil⟩
    all_goals simp_all
  case isFalse => exact ⟨.pass, .inr rfl, h.stays⟩

theorem CalleeIs.refuses (h : CalleeIs (some s) r) (m : Msg) :
    PlaysCallee s.id (s.refuse m "session.invalid-state") (r, [.error]) := by
  obtain ⟨hr, -⟩ := h.stays
  have hsame : (r.act .pass).1 = r := by cases r <;> rfl
  rw [hsame] at hr
  exact ⟨hr, .cons (.error (by decide)) .nil⟩

theorem CalleeIs.recv (h : CalleeIs (some s) r) (m : Msg) {body : SessionBody} {down : Down}
    (hdown : SaysDown body down) (admitted : Bool) :
    PlaysCallee s.id (s.recv m body) (r.recv admitted down) := by
  have hrefuses := h.refuses m
  unfold Session.recv
  cases h
  case finished hr hst =>
    rw [if_pos hst]
    cases hdown
    all_goals
      simp only [Session.reactLate, hr]
      exact ⟨.finished hr hst, .nil⟩
  case offered hr hst hp =>
    rw [if_neg (by simp [hst]), s.observe_early (by simp [hst])]
    cases hdown
    case cancel =>
      simp only [Session.react, hr, hst]
      exact ⟨.finished hr rfl, .nil⟩
    case bye =>
      simp only [Session.react, hst]
      exact hrefuses
  case ringing hr hst hp =>
    rw [if_neg (by simp [hst]), s.observe_early (by simp [hst])]
    cases hdown
    case cancel =>
      simp only [Session.react, hr, hst]
      exact ⟨.finished hr rfl, .nil⟩
    case bye =>
      simp only [Session.react, hst]
      exact hrefuses
  case talking spoken hr hst hp =>
    rw [if_neg (by simp [hst])]
    cases hdown
    case cancel token hreason =>
      rw [s.observe_cancel]
      simp only [Session.react, hr, hst]
      cases spoken
      case false =>
        rw [if_pos ⟨hreason, hp⟩]
        exact ⟨.finished hr rfl, .nil⟩
      case true =>
        rw [if_neg]
        · exact hrefuses
        · rintro ⟨-, hno⟩
          rw [hp] at hno
          cases hno
    case bye token =>
      obtain ⟨-, hrole, hstate, -⟩ := s.observe_frame (.bye token)
      rw [hst] at hstate
      rw [hr] at hrole
      simp only [Session.react, if_pos hstate]
      exact ⟨.finished hrole rfl, .nil⟩

end Callee

/-! ## The endpoints play their parts -/

namespace Endpoint

/-- An endpoint as the caller of `sid`. -/
def Calls (device peer sid : String) (e : Endpoint) (c : Caller) : Prop :=
  e.Solo device sid ∧ CallerIs peer (e.sessions.lookup sid) c

/-- An endpoint as the callee of `sid`. -/
def IsCalled (device sid : String) (e : Endpoint) (r : Callee) : Prop :=
  e.Solo device sid ∧ CalleeIs (e.sessions.lookup sid) r

variable {e e' : Endpoint} {device peer sid : String} {r : Option Session} {ms : List Send}

theorem Holds.calls {c : Caller} {downs : List Down} (h : e'.Holds device sid r ms)
    (hc : CallerIs peer r c) (hms : List.Forall₂ (IsDown peer sid) ms downs) : e'.Calls device peer sid c ∧
      List.Forall₂ (Mail device (IsDown peer sid)) ((Engine.letters e'.out).map (Wire.mk device))
        downs := by
  refine ⟨⟨h.toSolo, ?_⟩, h.mail hms⟩
  rw [h.record]
  exact hc

theorem Holds.isCalled {c : Callee} {ups : List Up} (h : e'.Holds device sid r ms)
    (hc : CalleeIs r c) (hms : List.Forall₂ (IsUp sid) ms ups) : e'.IsCalled device sid c ∧
      List.Forall₂ (Mail device (IsUp sid)) ((Engine.letters e'.out).map (Wire.mk device)) ups := by
  refine ⟨⟨h.toSolo, ?_⟩, h.mail hms⟩
  rw [h.record]
  exact hc

/-- The events of a call to `peer`, at the initiator. -/
def InitiatorEvent (peer sid : String) : Event → Prop
  | .placeCall k dest => k = sid ∧ dest = peer
  | .call k event => k = sid ∧ event.OfCall
  | .advance _ => True
  | _ => False

/-- The events of a call, at the responder. -/
def ResponderEvent (sid : String) : Event → Prop
  | .call k event => k = sid ∧ event.OfCall
  | .advance _ => True
  | _ => False

variable {sent : List Wire}

theorem calls_act {c : Caller} (h : e.Calls device peer sid c) {event : Event}
    (hevent : InitiatorEvent peer sid event)
    (hpost : e.post event = .ok (e', sent)) : ∃ i, e'.Calls device peer sid (c.act i).1 ∧
      List.Forall₂ (Mail device (IsDown peer sid)) sent (c.act i).2 := by
  obtain ⟨hsolo, hc⟩ := h
  obtain ⟨hperform, rfl⟩ := post_ok hpost
  rw [hsolo.device]
  have h := hsolo.holds
  generalize e.sessions.lookup sid = r at h hc
  have hpass : CallerIs peer r (c.act .pass).1 ∧ (c.act .pass).2 = [] := by
    cases c <;> exact ⟨hc, rfl⟩
  cases event
  case advance seconds =>
    let Q (r : Option Session) (ms : List Send) : Prop :=
      (∀ s, r = some s → s.id = sid) ∧ ∃ i : CallerAct, i.Lapse ∧ CallerIs peer r (c.act i).1 ∧
        List.Forall₂ (IsDown peer sid) ms (c.act i).2
    have hstart : Q r [] := by
      refine ⟨fun s hs => h.keyed sid s (h.record.trans hs), .pass, .inr rfl, hpass.1, ?_⟩
      rw [hpass.2]
      exact .nil
    have hstep : ∀ s ms name, Q (some s) ms →
        Q (some (s.expire name).record) (ms ++ (s.expire name).sends) := by
      rintro s ms name ⟨hid, i, hi, hr, hms⟩
      obtain ⟨j, hj, hrecord, hsends⟩ := hr.expire name
      obtain ⟨k, hk, hact⟩ := c.act_lapse hi hj
      rw [hid s rfl] at hsends
      refine ⟨?_, k, hk, ?_, ?_⟩
      · intro _ hs
        rw [← Option.some.inj hs]
        exact (s.expire_id name).trans (hid s rfl)
      · rw [hact]
        exact hrecord
      · rw [hact]
        exact List.rel_append hms hsends
    obtain ⟨r', ms, ⟨-, i, -, hr, hms⟩, hheld⟩ := h.advance hstart hstep hperform
    exact ⟨i, hheld.calls hr hms⟩
  case placeCall k dest =>
    obtain ⟨rfl, rfl⟩ := hevent
    cases hperform
    rcases h.placeCall dest with ⟨-, h⟩ | ⟨rfl, s, grant, hrole, hst, hd, h⟩
    · exact ⟨.pass, h.calls hpass.1 (hpass.2 ▸ .nil)⟩
    · cases hc
      exact ⟨.place, h.calls (.calling hrole (.inl hst) hd) (.cons .invite .nil)⟩
  case call k event =>
    obtain ⟨rfl, hevent⟩ := hevent
    rcases h.call hperform with ⟨rfl, hheld⟩ | ⟨s, rfl, hid, hheld⟩
    · exact ⟨.pass, hheld.calls hpass.1 (hpass.2 ▸ .nil)⟩
    · obtain ⟨i, hrecord, hsends⟩ := hc.act e.now hevent
      rw [hid] at hsends
      exact ⟨i, hheld.calls hrecord hsends⟩
  all_goals cases hevent

theorem isCalled_act {c : Callee} (h : e.IsCalled device sid c) {event : Event}
    (hevent : ResponderEvent sid event) (hpost : e.post event = .ok (e', sent)) :
    ∃ i, e'.IsCalled device sid (c.act i).1 ∧ List.Forall₂ (Mail device (IsUp sid)) sent (c.act i).2 := by
  obtain ⟨hsolo, hc⟩ := h
  obtain ⟨hperform, rfl⟩ := post_ok hpost
  rw [hsolo.device]
  have h := hsolo.holds
  generalize e.sessions.lookup sid = r at h hc
  have hpass : CalleeIs r (c.act .pass).1 ∧ (c.act .pass).2 = [] := by
    cases c <;> exact ⟨hc, rfl⟩
  cases event
  case advance seconds =>
    let Q (r : Option Session) (ms : List Send) : Prop :=
      (∀ s, r = some s → s.id = sid) ∧ ∃ i : CalleeAct, i.Lapse ∧ CalleeIs r (c.act i).1 ∧
        List.Forall₂ (IsUp sid) ms (c.act i).2
    have hstart : Q r [] := by
      refine ⟨fun s hs => h.keyed sid s (h.record.trans hs), .pass, .inr rfl, hpass.1, ?_⟩
      rw [hpass.2]
      exact .nil
    have hstep : ∀ s ms name, Q (some s) ms →
        Q (some (s.expire name).record) (ms ++ (s.expire name).sends) := by
      rintro s ms name ⟨hid, i, hi, hr, hms⟩
      obtain ⟨j, hj, hrecord, hsends⟩ := hr.expire name
      obtain ⟨k, hk, hact⟩ := c.act_lapse hi hj
      rw [hid s rfl] at hsends
      refine ⟨?_, k, hk, ?_, ?_⟩
      · intro _ hs
        rw [← Option.some.inj hs]
        exact (s.expire_id name).trans (hid s rfl)
      · rw [hact]
        exact hrecord
      · rw [hact]
        exact List.rel_append hms hsends
    obtain ⟨r', ms, ⟨-, i, -, hr, hms⟩, hheld⟩ := h.advance hstart hstep hperform
    exact ⟨i, hheld.isCalled hr hms⟩
  case call k event =>
    obtain ⟨rfl, hevent⟩ := hevent
    rcases h.call hperform with ⟨rfl, hheld⟩ | ⟨s, rfl, hid, hheld⟩
    · exact ⟨.pass, hheld.isCalled hpass.1 (hpass.2 ▸ .nil)⟩
    · obtain ⟨i, hrecord, hsends⟩ := hc.act e.now hevent
      rw [hid] at hsends
      exact ⟨i, hheld.isCalled hrecord hsends⟩
  all_goals cases hevent

theorem toMsg_up (peer : String) {msg : Send} {up : Up} (h : IsUp sid msg up) (stamp : Stamp) :
    (∃ body, (Wire.toMsg ⟨peer, .session msg⟩ stamp).session = some sid ∧
        (Wire.toMsg ⟨peer, .session msg⟩ stamp).sender = peer ∧
        (Wire.toMsg ⟨peer, .session msg⟩ stamp).body = .session body ∧ SaysUp body up) ∨
      (up = .error ∧ ∃ reason, reason ≠ some "transport.no-response" ∧
        (Wire.toMsg ⟨peer, .session msg⟩ stamp).body = .error reason) := by
  cases h with
  | progress => exact .inl ⟨_, rfl, rfl, rfl, .progress⟩
  | answer => exact .inl ⟨_, rfl, rfl, rfl, .answer⟩
  | reject => exact .inl ⟨_, rfl, rfl, rfl, .reject⟩
  | bye => exact .inl ⟨_, rfl, rfl, rfl, .bye⟩
  | @error _ reason _ _ h => exact .inr ⟨rfl, some reason, by simpa using h, rfl⟩

theorem toMsg_down (peer : String) {msg : Send} {down : Down} (h : IsDown device sid msg down) (stamp : Stamp) :
    (∃ body, (Wire.toMsg ⟨peer, .session msg⟩ stamp).session = some sid ∧
        (Wire.toMsg ⟨peer, .session msg⟩ stamp).body = .session body ∧ SaysDown body down) ∨
      (down = .error ∧ ∃ reason, reason ≠ some "transport.no-response" ∧
        (Wire.toMsg ⟨peer, .session msg⟩ stamp).body = .error reason) ∨
      (down = .invite ∧ (Wire.toMsg ⟨peer, .session msg⟩ stamp).id = sid ∧ ∃ dest expiresAt,
          (Wire.toMsg ⟨peer, .session msg⟩ stamp).body = .invite dest expiresAt) := by
  cases h with
  | invite => exact .inr (.inr ⟨rfl, rfl, _, _, rfl⟩)
  | cancel h => exact .inl ⟨_, rfl, rfl, .cancel h⟩
  | bye => exact .inl ⟨_, rfl, rfl, .bye⟩
  | @error _ reason _ _ h => exact .inr (.inl ⟨rfl, some reason, by simpa using h, rfl⟩)

theorem calls_recv {c : Caller} (h : e.Calls device peer sid c) {w : Wire} {up : Up}
    (hw : Mail peer (IsUp sid) w up) {stamp : Stamp}
    (hpost : e.post (.recv (w.toMsg stamp)) = .ok (e', sent)) : e'.Calls device peer sid (c.recv up).1 ∧
      List.Forall₂ (Mail device (IsDown peer sid)) sent (c.recv up).2 := by
  obtain ⟨hsolo, hc⟩ := h
  obtain ⟨hperform, rfl⟩ := post_ok hpost
  obtain ⟨msg, rfl, hmsg⟩ := hw
  rw [hsolo.device]
  have h := hsolo.holds
  generalize e.sessions.lookup sid = r at h hc
  have harrives := toMsg_up peer hmsg stamp
  generalize Wire.toMsg ⟨peer, .session msg⟩ stamp = m at hperform harrives
  replace hperform : { e with out := [] }.recv m = .ok e' := hperform
  unfold Endpoint.recv at hperform
  rcases harrives with ⟨body, hm, hsender, hbody, hup⟩ | ⟨rfl, reason, hreason, hbody⟩
  · rw [hbody] at hperform
    rcases h.message hm hperform with ⟨rfl, hheld⟩ | ⟨s, rfl, hid, hheld⟩
    · -- before the call is placed
      cases hc
      cases hup <;> exact hheld.calls .idle (.cons (.error (by decide)) .nil)
    · obtain ⟨hrecord, hsends⟩ := hc.recv hsender hup
      rw [hid] at hsends
      exact hheld.calls hrecord hsends
  · rw [hbody] at hperform
    cases hperform
    have hsame : c.recv .error = (c, []) := by cases c <;> rfl
    rw [hsame]
    exact (h.error hreason).calls hc .nil

theorem isCalled_recv {c : Callee} (h : e.IsCalled device sid c) {w : Wire} {down : Down}
    (hw : Mail peer (IsDown device sid) w down) {stamp : Stamp}
    (hpost : e.post (.recv (w.toMsg stamp)) = .ok (e', sent)) :
    ∃ admitted, e'.IsCalled device sid (c.recv admitted down).1 ∧
      List.Forall₂ (Mail device (IsUp sid)) sent (c.recv admitted down).2 := by
  obtain ⟨hsolo, hc⟩ := h
  obtain ⟨hperform, rfl⟩ := post_ok hpost
  obtain ⟨msg, rfl, hmsg⟩ := hw
  rw [hsolo.device]
  have h := hsolo.holds
  generalize e.sessions.lookup sid = r at h hc
  have harrives := toMsg_down peer hmsg stamp
  generalize Wire.toMsg ⟨peer, .session msg⟩ stamp = m at hperform harrives
  replace hperform : { e with out := [] }.recv m = .ok e' := hperform
  unfold Endpoint.recv at hperform
  rcases harrives with ⟨body, hm, hbody, hdown⟩ | ⟨rfl, reason, hreason, hbody⟩ |
    ⟨rfl, hm, dest, expiresAt, hbody⟩
  · rw [hbody] at hperform
    rcases h.message hm hperform with ⟨rfl, hheld⟩ | ⟨s, rfl, hid, hheld⟩
    · cases hc
      cases hdown <;> exact ⟨true, hheld.isCalled .idle (.cons (.error (by decide)) .nil)⟩
    · obtain ⟨hrecord, hsends⟩ := hc.recv m hdown true
      rw [hid] at hsends
      exact ⟨true, hheld.isCalled hrecord hsends⟩
  · rw [hbody] at hperform
    cases hperform
    have hsame : c.recv true .error = (c, []) := by cases c <;> rfl
    refine ⟨true, ?_⟩
    rw [hsame]
    exact (h.error hreason).isCalled hc .nil
  · rw [hbody] at hperform
    cases hperform
    have hrole : ∀ s, r = some s → s.role = .responder := by
      rintro s rfl
      exact hc.role
    rcases h.invite hrole hm dest expiresAt with ⟨s, reason, hr, hst, hheld⟩ |
      ⟨rfl, s, hr, hst, hp, hheld⟩ | ⟨s, rfl, hheld⟩
    · refine ⟨false, ?_⟩
      have hrefused : c.recv false .invite = (.finished, [.reject]) := by cases c <;> rfl
      rw [hrefused]
      exact hheld.isCalled (.finished hr hst) (.cons .reject .nil)
    · cases hc
      exact ⟨true, hheld.isCalled (.offered hr hst hp) .nil⟩
    · refine ⟨true, ?_⟩
      split at hheld
      case isTrue hst =>
        cases hc
        case finished hr _ => exact hheld.isCalled (.finished hr hst) .nil
        all_goals simp_all
      case isFalse hst =>
        have herror : c.recv true .invite = (c, [.error]) := by
          cases hc
          case finished hst' => exact absurd hst' hst
          all_goals rfl
        rw [herror]
        exact hheld.isCalled hc (.cons (.error (by decide)) .nil)

theorem caller_simulates (device peer sid : String) :
    Duplex.Simulates party Handshake.caller (Calls device peer sid) (fun _ _ => True)
      (Mail peer (IsUp sid)) (Mail device (IsDown peer sid)) (InitiatorEvent peer sid) where
  act hr hevent hact := by
    obtain ⟨i, hcalls, hsent⟩ := calls_act hr hevent hact
    exact ⟨i, _, _, trivial, rfl, hcalls, hsent⟩
  recv hr hw hrecv := by
    obtain ⟨hcalls, hsent⟩ := calls_recv hr hw hrecv
    exact ⟨true, _, _, rfl, hcalls, hsent⟩

theorem callee_simulates (device peer sid : String) :
    Duplex.Simulates party Handshake.callee (IsCalled device sid) (fun _ _ => True)
      (Mail peer (IsDown device sid)) (Mail device (IsUp sid)) (ResponderEvent sid) where
  act hr hevent hact := by
    obtain ⟨i, hcalled, hsent⟩ := isCalled_act hr hevent hact
    exact ⟨i, _, _, trivial, rfl, hcalled, hsent⟩
  recv hr hw hrecv := by
    obtain ⟨admitted, hcalled, hsent⟩ := isCalled_recv hr hw hrecv
    exact ⟨admitted, _, _, rfl, hcalled, hsent⟩

end Endpoint

namespace Link

/-- The steps of one call that the left endpoint places to the device `peer`. -/
def OneCall (peer sid : String) : Input → Prop :=
  Duplex.Covered (Endpoint.InitiatorEvent peer sid) (Endpoint.ResponderEvent sid)

instance (peer sid : String) : DecidablePred (OneCall peer sid)
  | .left (.placeCall k dest) => inferInstanceAs (Decidable (k = sid ∧ dest = peer))
  | .left (.call k event) => inferInstanceAs (Decidable (k = sid ∧ event.OfCall))
  | .left (.advance _) => isTrue trivial
  | .right (.call k event) => inferInstanceAs (Decidable (k = sid ∧ event.OfCall))
  | .right (.advance _) => isTrue trivial
  | .deliverRight _ => isTrue trivial
  | .deliverLeft _ => isTrue trivial
  | .left (.recv _) | .left (.introduce ..) | .left (.grant ..) | .left (.regrant ..)
  | .left (.rejectIntroduction ..) | .left (.revoke _) | .left (.issueToken ..) => isFalse id
  | .right (.placeCall ..) | .right (.recv _) | .right (.introduce ..) | .right (.grant ..)
  | .right (.regrant ..) | .right (.rejectIntroduction ..) | .right (.revoke _)
  | .right (.issueToken ..) => isFalse id

/-- The left endpoint has sent a cancel of the session. -/
def CancelSent (sid : String) (tr : Trace) : Prop :=
  ∃ i got sent device dest reason, (i, Duplex.Output.left got sent) ∈ tr ∧
    ⟨device, .session (.cancel dest sid reason)⟩ ∈ sent

/-- The session is ACTIVE at an endpoint. -/
def ActiveAt (e : Endpoint) (sid : String) : Prop := ∃ s, e.sessions.lookup sid = some s ∧ s.state = .active

variable {peer sid : String} {r : Option Session}

theorem callerIs_active {c : Caller} (h : CallerIs peer r c) :
    (∃ s, r = some s ∧ s.state = .active) ↔ c = .talking := by
  cases h
  case talking s _ hst _ => exact iff_of_true ⟨s, rfl, hst⟩ rfl
  case idle => simp
  case calling ha _ => simpa using not_active ha
  case finished hst => simp [hst]

theorem calleeIs_active {c : Callee} (h : CalleeIs r c) :
    (∃ s, r = some s ∧ s.state = .active) ↔ ∃ spoken, c = .talking spoken := by
  cases h
  case talking s spoken _ hst _ => exact iff_of_true ⟨s, rfl, hst⟩ ⟨spoken, rfl⟩
  case idle => simp
  case offered hst _ => simp [hst]
  case ringing hst _ => simp [hst]
  case finished hst => simp [hst]

/-- **Two endpoints agree on a call.** Along every run of two fresh endpoints in
which the left one places one call to the device of the right one: with nothing
under way and the initiator's session neither INVITING nor PROCEEDING, the session
is ACTIVE at both or at neither; and an initiator that has sent a cancel is not
ACTIVE. -/
theorem call_agreed {a b : Endpoint} (ha : a.Fresh) (hb : b.Fresh) {sid : String} {tr : Trace}
    {s : Link} (h : system.RunWhere (fun _ _ i => OneCall b.device sid i) ⟨a, b, [], []⟩ tr s) :
    (s.toRight = [] → s.toLeft = [] → ∀ r, s.left.sessions.lookup sid = some r → ¬ r.Attempting →
        (ActiveAt s.left sid ↔ ActiveAt s.right sid)) ∧
      (CancelSent sid tr → ¬ ActiveAt s.left sid) := by
  have hstart : Duplex.Related (Endpoint.Calls a.device b.device sid)
      (Endpoint.IsCalled b.device sid) (Endpoint.Mail b.device (IsUp sid))
      (Endpoint.Mail a.device (IsDown b.device sid)) ⟨a, b, [], []⟩ Handshake.start := by
    obtain ⟨ctx, rfl⟩ := ha
    obtain ⟨ctx', rfl⟩ := hb
    exact ⟨⟨Endpoint.solo_new ctx sid, .idle⟩, ⟨Endpoint.solo_new ctx' sid, .idle⟩, .nil, .nil⟩
  obtain ⟨tr', s', hrun, hrel, htr⟩ := Duplex.Related.run
    (Endpoint.caller_simulates a.device b.device sid)
    (Endpoint.callee_simulates b.device a.device sid) (fun _ _ _ hi => hi) hstart h
  obtain ⟨hshape, hwithdrawn⟩ := Handshake.shape_of_run hrun
  have hcaller := callerIs_active hrel.left.2
  refine ⟨?_, ?_⟩
  · intro hright hleft r hr hdone
    have hdown := hrel.toRight
    have hup := hrel.toLeft
    rw [hright, List.forall₂_nil_left_iff] at hdown
    rw [hleft, List.forall₂_nil_left_iff] at hup
    rw [hdown, hup] at hshape
    have hcalling : s'.left ≠ .calling := by
      intro hcalling
      have hplays := hrel.left.2
      rw [hcalling, hr] at hplays
      cases hplays
      contradiction
    show (∃ _, _) ↔ ∃ _, _
    rw [hcaller, calleeIs_active hrel.right.2]
    exact hshape.agree hcalling
  · rintro ⟨i, got, sent, device, dest, reason, hmem, hcancel⟩ hactive
    obtain ⟨i', got', sent', down, hmem', hdown, msg, hmsg, hisDown⟩ :=
      Duplex.sent_of_related htr hmem hcancel
    cases hmsg
    cases hisDown
    have hfinished := hwithdrawn ⟨i', got', sent', hmem', hdown⟩
    rw [hcaller.mp hactive] at hfinished
    cases hfinished

/-- A cancel that crosses the answer. -/
def crossingCall : List Input :=
  [.left (.placeCall "call-1" "did:bob:1"), .deliverRight ⟨"", some 60⟩,
    .right (.call "call-1" (.alert none)), .deliverLeft ⟨"msg-1", none⟩,
    .right (.call "call-1" (.accept none)), .left (.call "call-1" .cancel),
    .deliverRight ⟨"msg-2", none⟩, .deliverLeft ⟨"msg-3", none⟩, .deliverRight ⟨"msg-4", none⟩]

def alice : Context := { device := "did:alice:1", identity := "did:alice" }

def bob : Context := { device := "did:bob:1", identity := "did:bob" }

/-- Whether the left endpoint cancelled, as a check. -/
def cancelsIn (sid : String) (tr : Trace) : Bool :=
  tr.any fun p =>
    match p.2 with
    | .left _ sent => sent.any fun w =>
      match w.letter with
      | .session (.cancel _ k _) => k = sid
      | _ => false
    | .right .. => false

theorem cancelSent_of_cancelsIn {sid : String} {tr : Trace} (h : cancelsIn sid tr = true) :
    CancelSent sid tr := by
  unfold cancelsIn at h
  rw [List.any_eq_true] at h
  obtain ⟨⟨i, o⟩, hmem, ho⟩ := h
  split at ho
  case h_1 got sent ho' =>
    rw [List.any_eq_true] at ho
    obtain ⟨⟨device, letter⟩, hw, hcancel⟩ := ho
    split at hcancel
    case h_1 dest k reason hletter =>
      rw [decide_eq_true_eq] at hcancel
      cases hcancel
      cases hletter
      cases ho'
      exact ⟨i, got, sent, device, dest, reason, hmem, hw⟩
    case h_2 => cases hcancel
  case h_2 => cases ho

/-- After the crossing neither side is ACTIVE. -/
theorem call_agreed_crossing : ∃ tr s, system.RunWhere (fun _ _ i => OneCall "did:bob:1" "call-1" i)
        ⟨Endpoint.new alice, Endpoint.new bob, [], []⟩ tr s ∧
      (ActiveAt s.left "call-1" ↔ ActiveAt s.right "call-1") ∧ CancelSent "call-1" tr ∧
      ¬ ActiveAt s.left "call-1" := by
  obtain ⟨tr, s, hrun, hp⟩ := TSys.exec?_runWhere (Duplex.step party party)
    (fun _ _ i => OneCall "did:bob:1" "call-1" i) system.init
    ⟨Endpoint.new alice, Endpoint.new bob, [], []⟩ crossingCall
    (fun r => cancelsIn "call-1" r.1 && decide (r.2.toRight = [] ∧ r.2.toLeft = []) &&
      (r.2.left.sessions.lookup "call-1").any fun s => ¬ s.Attempting)
    (by decide) (by decide)
  rw [Bool.and_eq_true, Bool.and_eq_true, decide_eq_true_eq, Option.any_eq_true] at hp
  obtain ⟨⟨hcancels, hright, hleft⟩, r, hr, hdone⟩ := hp
  rw [decide_eq_true_eq] at hdone
  have hsent := cancelSent_of_cancelsIn hcancels
  obtain ⟨hagree, hcancelled⟩ := call_agreed ⟨alice, rfl⟩ ⟨bob, rfl⟩ hrun
  exact ⟨tr, s, hrun, hagree hright hleft r hr hdone, hsent, hcancelled hsent⟩

end Link

end Dsip.Engine
