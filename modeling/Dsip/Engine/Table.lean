import Dsip.Engine.Machine

/-!
# The session table

§12.4 as a table: what one session does on a message, on a local event, and when
its timer expires. An `Effect` is the next record, the messages sent and the
media commands given; timers and notices are left out. The endpoint's functions
about a session have the effect the table says, and touch no other session
(`Did`).
-/

namespace Dsip.Engine

open Dsip.Lib Dsip.Registry

structure Effect where
  record : Session
  sends : List Send := []
  medias : List Media := []

namespace Session

variable (s : Session)

/-- The record of a session that is over. -/
def close : Session := { s with outstanding := none, state := .ended }

def refuse (m : Msg) (reason : String) : Effect :=
  { record := s, sends := [.error m.sender m.session reason m.id] }

/-- A reply to an update of ours frees the slot, unless the slot holds
something else. -/
def settle (id : String) (medias : List Media) : Effect :=
  if s.outstanding = some ⟨id, .outbound⟩ then
    { record := { s with outstanding := none }, medias := medias }
  else { record := s }

/-- An update of the other side takes the slot. -/
def take (id : String) : Effect := { record := { s with outstanding := some ⟨id, .inbound⟩ } }

/-- The wait for an answer is over. -/
def giveUp : Effect :=
  { record := { s with cancelled := true }.close
    sends := [.cancel s.inviteTo s.id "session.timeout"] }

/-- A cancel that crossed our answer ends the session. -/
def Crosses (token : String) : Prop :=
  (resolveReason token .cancel).effective ≠ "session.answered-elsewhere" ∧ s.postAnswerSeen = false

instance (token : String) : Decidable (s.Crosses token) := inferInstanceAs (Decidable (_ ∧ _))

/-- A message of the session, before it has ended. -/
def react (m : Msg) : SessionBody → Effect
  | .progress status _ _ =>
    if s.role = .initiator ∧ s.Attempting then
      match effectiveProgressStatus status with
      | .ringing => { record := { s with state := .proceeding, queueCount := 0 } }
      | .queued =>
        if maxConsecutiveRequeues < s.queueCount + 1 then
          { s with state := .proceeding, queueCount := s.queueCount + 1 }.giveUp
        else { record := { s with state := .proceeding, queueCount := s.queueCount + 1 } }
      | _ => { record := { s with state := .proceeding } }
    else s.refuse m "session.invalid-state"
  | .answer _ none =>
    if s.role = .initiator ∧ s.Attempting then
      { record := { s with
          state := .active, wasActive := true, answeredDevice := m.sender, peer := m.sender }
        sends :=
          if some m.sender = s.inviteTo then []
          else [.cancel s.inviteTo s.id "session.answered-elsewhere"]
        medias := [.start] }
    else if s.role = .initiator ∧ s.state = .active ∧ some m.sender ≠ s.answeredDevice then
      { record := s, sends := [.bye m.sender s.id "session.already-answered"] }
    else s.refuse m "session.invalid-state"
  | .answer _ (some id) =>
    if s.state = .active then s.settle id [.applyUpdate]
    else s.refuse m "session.invalid-state"
  | .reject _ none =>
    if s.role = .initiator ∧ s.Attempting then { record := s.close }
    else s.refuse m "session.invalid-state"
  | .reject _ (some id) =>
    if s.state = .active then s.settle id [] else s.refuse m "session.invalid-state"
  | .cancel token =>
    match s.role, s.state with
    | .responder, .offered | .responder, .alerting => { record := s.close }
    | .responder, .active =>
      if s.Crosses token then { record := s.close, medias := [.stop] }
      else s.refuse m "session.invalid-state"
    | _, _ => s.refuse m "session.invalid-state"
  | .update _ =>
    if s.state = .active then
      match s.outstanding with
      | none => s.take m.id
      | some ⟨id, .outbound⟩ =>
        if id < m.id then
          { record := s, sends := [.reject m.sender s.id "session.glare" m.id] }
        else s.take m.id
      | some ⟨_, .inbound⟩ => { s with outstanding := none }.refuse m "session.update-pending"
    else s.refuse m "session.invalid-state"
  | .info _ =>
    if s.state = .active then { record := s } else s.refuse m "session.invalid-state"
  | .bye _ =>
    if s.state = .active then { record := s.close, medias := [.stop] }
    else s.refuse m "session.invalid-state"
  | .hello => s.refuse m "session.invalid-state"

/-- What a late answer to an ended attempt is told. -/
def lateReason : String :=
  if s.cancelled then "session.cancelled"
  else if s.wasActive then "session.already-answered"
  else "session.failed"

/-- A message of the session after it has ended. -/
def reactLate (m : Msg) (body : SessionBody) : Effect :=
  match s.role, body with
  | .initiator, .answer _ none => { record := s, sends := [.bye m.sender s.id s.lateReason] }
  | _, _ => { record := s }

theorem reactLate_frame (m : Msg) (body : SessionBody) :
    (s.reactLate m body).record = s ∧ (s.reactLate m body).medias = [] := by
  unfold reactLate
  split <;> exact ⟨rfl, rfl⟩

def recv (m : Msg) (body : SessionBody) : Effect :=
  if s.state = .ended then s.reactLate m body else (s.observe body).react m body

/-- A local event on the session. An alert is expired when the invite was. -/
def act (now : Nat) : CallEvent → Effect
  | .cancel =>
    if s.role = .initiator ∧ s.Attempting then
      { record := { s with cancelled := true, state := .ended }
        sends := [.cancel s.inviteTo s.id "user.cancelled"] }
    else { record := s }
  | .hangup reason =>
    if s.state = .active then
      { record := s.close
        sends := [.bye s.peer s.id ((reason.filter (· ≠ "")).getD "user.hangup")]
        medias := [.stop] }
    else { record := s }
  | .alert ringTimeout =>
    if s.role = .responder ∧ s.state = .offered then
      if s.inviteExpiresAt.any (· ≤ now) then
        { record := s.close, sends := [.reject s.peer s.id "session.expired" none] }
      else
        { record := { s with state := .alerting }
          sends := [.progress s.peer s.id "ringing" ringTimeout] }
    else { record := s }
  | .autoReject reason =>
    if s.role = .responder ∧ s.state = .offered then
      { record := s.close, sends := [.reject s.peer s.id reason none] }
    else { record := s }
  | .accept answeredBy =>
    if s.role = .responder ∧ s.state = .alerting then
      { record := { s with state := .active, wasActive := true }
        sends := [.answer s.peer s.id (answeredBy.getD "user") none]
        medias := [.start] }
    else { record := s }
  | .decline reason =>
    if s.role = .responder ∧ s.state = .alerting then
      { record := s.close
        sends := [.reject s.peer s.id (reason.getD "user.declined") none] }
    else { record := s }
  | .update id answeredBy =>
    if s.state = .active ∧ s.outstanding = none then
      { record := { s with outstanding := some ⟨id, .outbound⟩ }
        sends := [.update s.peer s.id id answeredBy] }
    else { record := s }
  | .answerUpdate inReplyTo answeredBy =>
    if s.state = .active ∧ s.outstanding = some ⟨inReplyTo, .inbound⟩ then
      { record := { s with outstanding := none }
        sends := [.answer s.peer s.id (answeredBy.getD "user") inReplyTo]
        medias := [.applyUpdate] }
    else { record := s }
  | .rejectUpdate inReplyTo reason =>
    if s.state = .active ∧ s.outstanding = some ⟨inReplyTo, .inbound⟩ then
      { record := { s with outstanding := none }
        sends := [.reject s.peer s.id reason inReplyTo] }
    else { record := s }
  | .info =>
    if s.state = .active then { record := s, sends := [.info s.peer s.id] }
    else { record := s }

/-- A timer of the session expires. -/
def expire (name : TimerName) : Effect :=
  if name ≠ .ringLocal ∧ s.Attempting then s.giveUp
  else if name = .ringLocal ∧ s.state = .alerting then
    { record := s.close, sends := [.reject s.peer s.id "user.no-answer" none] }
  else { record := s }

end Session

/-! ## The endpoint has the effects of the table -/

namespace Endpoint

/-- From `e` to `e'` the session `sid` had an effect, and nothing else changed
but its timers and the notices. -/
structure Did (e : Endpoint) (sid : String) (eff : Effect) (e' : Endpoint) : Prop where
  only : Only e sid e'
  record : e'.sessions.lookup sid = some eff.record
  sends : sends e'.out = sends e.out ++ eff.sends
  medias : medias e'.out = medias e.out ++ eff.medias

section Handlers

variable {e e' : Endpoint} {s : Session} {m : Msg}

theorem did_nothing (hs : e.sessions.lookup s.id = some s) : Did e s.id { record := s } e :=
  ⟨only_self e s.id, hs, by simp, by simp⟩

theorem did_notice (hs : e.sessions.lookup s.id = some s) {x : Emit} (hsend : sends [x] = [])
    (hmedia : medias [x] = []) (hcontact : x.toContact = none) : Did e s.id { record := s } (e.emit x) := by
  refine ⟨(only_emit e e x hcontact).mpr (only_self e s.id), hs, ?_, ?_⟩
  · rw [(emit_frame e x).2.2.1, sends_append, hsend]
  · rw [(emit_frame e x).2.2.1, medias_append, hmedia]

theorem did_refuse (hs : e.sessions.lookup s.id = some s) (reason : String) :
    Did e s.id (s.refuse m reason) (e.error m reason) :=
  ⟨by simp, by simpa [Session.refuse] using hs, by simp [Session.refuse], by simp [Session.refuse]⟩

theorem did_end (reason : Option String) (mediaStop : Bool) :
    Did e s.id { record := s.close, medias := if mediaStop then [.stop] else [] }
      (e.endSession s reason mediaStop) :=
  ⟨by simp, by simp [Session.close], by simp, by simp⟩

theorem progressRinging_did (ringTimeout : Option Nat) :
    Did e s.id { record := { s with queueCount := 0 } } (e.progressRinging s ringTimeout) := by
  unfold progressRinging
  cases ringTimeout
  case none =>
    dsimp only
    split <;> refine ⟨?_, ?_, ?_, ?_⟩ <;> simp
  case some rt => refine ⟨?_, ?_, ?_, ?_⟩ <;> simp

theorem progressQueued_did {queueTimeout : Option Nat}
    (h : e.progressQueued s queueTimeout = .ok e') : Did e s.id
      (if maxConsecutiveRequeues < s.queueCount + 1 then
        { s with queueCount := s.queueCount + 1 }.giveUp
      else { record := { s with queueCount := s.queueCount + 1 } }) e' := by
  unfold progressQueued at h
  dsimp only at h
  split at h
  case isTrue hmax =>
    cases h
    rw [if_pos hmax]
    refine ⟨?_, ?_, ?_, ?_⟩ <;> simp [Session.giveUp, Session.close]
  case isFalse hmax =>
    rw [if_neg hmax]
    split at h
    case h_1 => cases h
    case h_2 =>
      cases h
      refine ⟨?_, ?_, ?_, ?_⟩ <;> simp

theorem progressOther_did (hs : e.sessions.lookup s.id = some s) :
    Did e s.id { record := s } (e.progressOther s) := by
  unfold progressOther
  split
  case isTrue => exact ⟨by simp, by simpa using hs, by simp, by simp⟩
  case isFalse => exact did_nothing hs

theorem did_after {e₁ : Endpoint} {sid : String} {eff : Effect} (hd : Did e₁ sid eff e')
    (ho : Only e sid e₁) (hsends : sends e₁.out = sends e.out)
    (hmedias : medias e₁.out = medias e.out) : Did e sid eff e' :=
  ⟨ho.trans hd.only, hd.record, hsends ▸ hd.sends, hmedias ▸ hd.medias⟩

theorem recvProgress_did (hs : e.sessions.lookup s.id = some s) {status : String}
    {ringTimeout queueTimeout : Option Nat}
    (h : e.recvProgress s m status ringTimeout queueTimeout = .ok e') :
    Did e s.id (s.react m (.progress status ringTimeout queueTimeout)) e' := by
  unfold recvProgress at h
  split at h
  case isTrue hno =>
    have hneg : ¬ (s.role = .initiator ∧ s.Attempting) := by
      intro ⟨hr, ha⟩
      exact hno.elim (absurd hr) (absurd ha)
    cases h
    simp only [Session.react, if_neg hneg]
    exact did_refuse hs _
  case isFalse hyes =>
    have hpos : s.role = .initiator ∧ s.Attempting := by
      rwa [not_or, not_not, not_not] at hyes
    simp only [Session.react, if_pos hpos]
    dsimp only at h
    -- PROCEEDING is recorded first, then the status is looked at
    cases hst : effectiveProgressStatus status
    all_goals simp only [hst] at h ⊢
    case ringing =>
      cases h
      exact did_after (progressRinging_did (s := { s with state := .proceeding }) ringTimeout)
        (by simp) (by simp) (by simp)
    case queued =>
      exact did_after (progressQueued_did (s := { s with state := .proceeding }) h) (by simp)
        (by simp) (by simp)
    all_goals
      cases h
      exact did_after (progressOther_did (s := { s with state := .proceeding }) (by simp))
        (by simp) (by simp) (by simp)

theorem did_settle (hs : e.sessions.lookup s.id = some s) (id : String) {x : Emit}
    (hsend : sends [x] = []) (hcontact : x.toContact = none) : Did e s.id (s.settle id (medias [x]))
      (if s.outstanding = some ⟨id, .outbound⟩ then
        (e.put { s with outstanding := none }).emit x
      else e.emit (.drop "stale-update-reply")) := by
  unfold Session.settle
  split
  case isTrue =>
    refine ⟨by simp [hcontact], by simp, ?_, ?_⟩
    · rw [(emit_frame _ x).2.2.1, sends_append, hsend]
      simp
    · rw [(emit_frame _ x).2.2.1, medias_append]
      simp
  case isFalse => exact did_notice hs rfl rfl rfl

theorem recvAnswer_did (hs : e.sessions.lookup s.id = some s) (answeredBy : String)
    (inReplyTo : Option String) : Did e s.id (s.react m (.answer answeredBy inReplyTo))
      (e.recvAnswer s m answeredBy inReplyTo) := by
  have hidle : s.state = .active → ¬ s.Attempting := by
    rintro hst (ha | ha) <;> rw [hst] at ha <;> cases ha
  unfold recvAnswer Session.react
  cases inReplyTo
  case none =>
    by_cases hr : s.role = .initiator
    case neg =>
      simp only [hr, ne_eq, not_false_eq_true, Option.isSome_none, Bool.false_eq_true, and_false,
        and_self, if_true, false_and, if_false]
      exact did_refuse hs _
    case pos =>
      simp only [hr, ne_eq, not_true_eq_false, false_and, if_false, true_and]
      by_cases ha : s.Attempting
      case pos =>
        simp only [ha, if_true]
        by_cases hf : some m.sender = s.inviteTo <;>
          simp only [hf, not_true_eq_false, not_false_eq_true, if_true, if_false] <;>
          constructor <;> simp
      case neg =>
        simp only [ha, if_false]
        by_cases hst : s.state = .active
        case neg =>
          simp only [hst, false_and, if_false]
          exact did_refuse hs _
        case pos =>
          simp only [hst, true_and, if_true]
          by_cases hd : some m.sender = s.answeredDevice
          case pos =>
            simp only [hd, not_true_eq_false, if_false]
            exact did_refuse hs _
          case neg =>
            simp only [hd, not_false_eq_true, if_true]
            constructor <;> simp [hs]
  case some id =>
    dsimp only
    by_cases hst : s.state = .active
    case pos =>
      have hr : ¬ (s.role ≠ .initiator ∧ ¬ (s.state = .active ∧ (some id).isSome = true)) :=
        fun h => h.2 ⟨hst, rfl⟩
      rw [if_pos hst, if_neg hr, if_neg (hidle hst), if_pos hst]
      exact did_settle hs id (x := .media .applyUpdate) rfl rfl
    case neg =>
      simp only [hst, if_false, ite_self, false_and, not_false_eq_true, and_true]
      exact did_refuse hs _

theorem recvReject_did (hs : e.sessions.lookup s.id = some s) (token : String) (inReplyTo : Option String) :
    Did e s.id (s.react m (.reject token inReplyTo)) (e.recvReject s m token inReplyTo) := by
  unfold recvReject Session.react
  cases inReplyTo
  case none =>
    by_cases hi : s.role = .initiator ∧ s.Attempting
    case pos =>
      simp only [hi, and_self, if_true]
      exact did_end _ false
    case neg =>
      simp only [and_true, hi, if_false]
      cases s.state <;> exact did_refuse hs _
  case some id =>
    dsimp only
    have hno : ¬ (s.role = .initiator ∧ s.Attempting ∧ some id = none) := by simp
    rw [if_neg hno]
    by_cases hst : s.state = .active
    case pos =>
      rw [if_pos hst]
      split
      case h_1 hid =>
        cases hid
        exact did_settle hs id (x := .ui (.updateRejected _)) rfl rfl
      case h_2 h => exact absurd rfl (h id hst)
    case neg =>
      rw [if_neg hst]
      split
      case h_1 h _ => exact absurd h hst
      case h_2 => exact did_refuse hs _

theorem recvCancel_did (hs : e.sessions.lookup s.id = some s) (token : String) :
    Did e s.id (s.react m (.cancel token)) (e.recvCancel s m token) := by
  unfold recvCancel Session.react
  cases hr : s.role
  case initiator =>
    simp only [ne_eq, reduceCtorEq, not_false_eq_true, if_true]
    exact did_refuse hs _
  case responder =>
    simp only [ne_eq, not_true_eq_false, if_false]
    cases hst : s.state
    case offered => exact did_end _ false
    case alerting =>
      dsimp only
      constructor <;> split <;> simp [Session.close]
    case active =>
      dsimp only
      by_cases hc : s.Crosses token
      case pos =>
        have hc' : _ ≠ _ ∧ _ = false := hc
        rw [if_pos hc, if_pos hc']
        exact did_end _ true
      case neg =>
        have hc' : ¬ (_ ≠ _ ∧ _ = false) := hc
        rw [if_neg hc, if_neg hc']
        exact did_refuse hs _
    all_goals exact did_refuse hs _

theorem offerUpdate_did (answeredBy : Option String) :
    Did e s.id (s.take m.id) (e.offerUpdate s m answeredBy) := by
  unfold offerUpdate Session.take
  cases answeredBy <;> constructor <;> simp

theorem recvUpdate_did (hs : e.sessions.lookup s.id = some s) (answeredBy : Option String) :
    Did e s.id (s.react m (.update answeredBy)) (e.recvUpdate s m answeredBy) := by
  unfold recvUpdate Session.react
  by_cases hst : s.state = .active
  case neg =>
    simp only [ne_eq, hst, not_false_eq_true, if_true, if_false]
    exact did_refuse hs _
  case pos =>
    simp only [ne_eq, hst, not_true_eq_false, if_true, if_false]
    rcases s.outstanding with _ | ⟨id, _ | _⟩
    · exact offerUpdate_did answeredBy
    · dsimp only
      split
      case isTrue => constructor <;> simp [hs]
      case isFalse =>
        -- our update lost: the owner is told, then the other one is offered
        exact did_after (offerUpdate_did answeredBy) (by simp) (by simp) (by simp)
    · constructor <;> simp [Session.refuse]

theorem recvInfo_did (hs : e.sessions.lookup s.id = some s) (about : Option String) :
    Did e s.id (s.react m (.info about)) (e.recvInfo s m about) := by
  unfold recvInfo Session.react
  by_cases hst : s.state = .active
  case neg =>
    simp only [ne_eq, hst, not_false_eq_true, if_true, if_false]
    exact did_refuse hs _
  case pos =>
    simp only [ne_eq, hst, not_true_eq_false, if_true, if_false]
    split <;> exact did_notice hs rfl rfl rfl

theorem recvBye_did (hs : e.sessions.lookup s.id = some s) (token : String) :
    Did e s.id (s.react m (.bye token)) (e.recvBye s m token) := by
  unfold recvBye Session.react
  by_cases hst : s.state = .active
  case neg =>
    simp only [ne_eq, hst, not_false_eq_true, if_true, if_false]
    exact did_refuse hs _
  case pos =>
    simp only [ne_eq, hst, not_true_eq_false, if_true, if_false]
    exact did_end _ true

theorem handle_did (hs : e.sessions.lookup s.id = some s) {body : SessionBody}
    (h : e.handle s m body = .ok e') : Did e s.id (s.react m body) e' := by
  cases body
  case progress => exact recvProgress_did hs h
  all_goals
    cases h
  case answer answeredBy inReplyTo => exact recvAnswer_did hs answeredBy inReplyTo
  case reject token inReplyTo => exact recvReject_did hs token inReplyTo
  case cancel token => exact recvCancel_did hs token
  case update answeredBy => exact recvUpdate_did hs answeredBy
  case info about => exact recvInfo_did hs about
  case bye token => exact recvBye_did hs token
  case hello => exact did_refuse hs _

theorem recvEnded_did (hs : e.sessions.lookup s.id = some s) (body : SessionBody) :
    Did e s.id (s.reactLate m body) (e.recvEnded s m body) := by
  unfold recvEnded Session.reactLate
  cases hr : s.role
  case responder => exact did_notice hs rfl rfl rfl
  case initiator =>
    cases body
    case answer answeredBy inReplyTo =>
      cases inReplyTo
      case none => refine ⟨?_, ?_, ?_, ?_⟩ <;> simp [hs, Session.lateReason]
      case some => exact did_notice hs rfl rfl rfl
    all_goals exact did_notice hs rfl rfl rfl

/-- A reject that names an introduction of ours. -/
def AnswersIntroduction (e : Endpoint) (m : Msg) (body : SessionBody) : Prop :=
  ∃ token inReplyTo introduction, body = .reject token inReplyTo ∧
    m.session = some introduction ∧ introduction ∈ e.contacts.pendingSent

/-- What a message of a session comes to. -/
inductive SessionOutcome (e : Endpoint) (m : Msg) (body : SessionBody) : Endpoint → Prop
  /-- It answers an introduction of ours. -/
  | introduction {introduction token : String} (h : e.AnswersIntroduction m body) :
      SessionOutcome e m body (e.introductionRejected introduction token)
  /-- No session of that id is held. -/
  | unknown (hm : ∀ sid, m.session = some sid → sid ∉ e.sessions) :
      SessionOutcome e m body (e.error m "session.unknown-session")
  /-- A held session has the effect of the table. -/
  | held {sid : String} {s : Session} {e' : Endpoint} (hno : ¬ e.AnswersIntroduction m body)
      (hm : m.session = some sid) (hs : e.sessions.lookup sid = some s)
      (hd : s.id = sid → Did e sid (s.recv m body) e') : SessionOutcome e m body e'

theorem recvHeld_outcome {body : SessionBody} (hno : ¬ e.AnswersIntroduction m body)
    (h : e.recvHeld m body = .ok e') : SessionOutcome e m body e' := by
  unfold recvHeld at h
  cases hm : m.session with
  | none =>
    rw [hm] at h
    cases h
    exact .unknown (by simp [hm])
  | some sid =>
    rw [hm, Option.bind_some] at h
    cases hs : e.sessions.lookup sid with
    | none =>
      rw [hs] at h
      cases h
      apply SessionOutcome.unknown
      rintro k hk hmem
      rw [hm, Option.some.injEq] at hk
      subst hk
      simp [Dict.mem_iff_lookup, hs] at hmem
    | some s =>
      rw [hs] at h
      dsimp only at h
      refine .held hno hm hs ?_
      rintro rfl
      unfold Session.recv
      split at h
      case isTrue hst =>
        rw [if_pos hst]
        cases h
        exact recvEnded_did hs body
      case isFalse hst =>
        rw [if_neg hst]
        -- noting that the initiator has spoken touches this record only
        have hid : (s.observe body).id = s.id := by
          unfold Session.observe
          split <;> rfl
        have hput : (e.put (s.observe body)).sessions.lookup (s.observe body).id =
            some (s.observe body) := AList.lookup_insert _
        obtain ⟨ho, hr, hsends, hmedias⟩ := handle_did hput h
        rw [hid] at ho hr
        have hself := (only_put e e (s.observe body) hid).mpr (only_self e s.id)
        exact ⟨hself.trans ho, hr, hsends, hmedias⟩

theorem recvSession_outcome {body : SessionBody} (h : e.recvSession m body = .ok e') :
    SessionOutcome e m body e' := by
  unfold recvSession at h
  split at h
  case h_1 token inReplyTo introduction hp =>
    cases h
    rw [Option.filter_eq_some_iff] at hp
    exact .introduction ⟨token, inReplyTo, introduction, rfl, hp.1, by simpa using hp.2⟩
  case h_2 hother =>
    apply recvHeld_outcome _ h
    rintro ⟨token, inReplyTo, introduction, rfl, hm, hp⟩
    apply hother token inReplyTo introduction rfl
    rw [Option.filter_eq_some_iff]
    exact ⟨hm, by simpa using hp⟩

theorem localAlert_did (hs : e.sessions.lookup s.id = some s) {ringTimeout : Option Nat}
    (h : e.localAlert s ringTimeout = .ok e') : Did e s.id (s.act e.now (.alert ringTimeout)) e' := by
  unfold localAlert at h
  unfold Session.act
  dsimp only
  split at h
  case isFalse hno =>
    cases h
    rw [if_neg hno]
    exact did_notice hs rfl rfl rfl
  case isTrue hyes =>
    rw [if_pos hyes]
    cases hx : s.inviteExpiresAt with
    | none =>
      rw [hx] at h
      cases h
    | some expiresAt =>
      simp only [hx] at h
      simp only [Option.any_some, decide_eq_true_eq]
      split at h
      case isTrue hlate =>
        cases h
        rw [if_pos hlate]
        constructor <;> simp [Session.close]
      case isFalse hlate =>
        cases h
        rw [if_neg hlate]
        constructor <;> simp

theorem localUpdate_did (hs : e.sessions.lookup s.id = some s) (id : String) (answeredBy : Option String) :
    Did e s.id (s.act e.now (.update id answeredBy)) (e.localUpdate s id answeredBy) := by
  unfold localUpdate Session.act
  dsimp only
  by_cases hst : s.state = .active
  case neg =>
    rw [if_neg fun h => hst h.1, if_pos hst]
    exact did_notice hs rfl rfl rfl
  case pos =>
    rw [if_neg (not_not.mpr hst)]
    by_cases ho : s.outstanding = none
    case neg =>
      rw [if_neg fun h => ho h.2, if_pos (Option.isSome_iff_ne_none.mpr ho)]
      exact did_notice hs rfl rfl rfl
    case pos =>
      rw [if_pos ⟨hst, ho⟩, if_neg (by simp [ho])]
      constructor <;> simp

theorem did_guarded (hs : e.sessions.lookup s.id = some s) {c : Prop} [Decidable c] {eff : Effect}
    (reason : String) (h : c → Did e s.id eff e') : Did e s.id (if c then eff else { record := s })
      (if c then e' else e.emit (.refused reason)) := by
  split
  case isTrue hc => exact h hc
  case isFalse => exact did_notice hs rfl rfl rfl

theorem callEvent_did (hs : e.sessions.lookup s.id = some s) {event : CallEvent}
    (h : e.callEvent s event = .ok e') : Did e s.id (s.act e.now event) e' := by
  cases event
  case alert => exact localAlert_did hs h
  all_goals
    cases h
  case update id answeredBy => exact localUpdate_did hs id answeredBy
  case cancel =>
    apply did_guarded hs
    intro _
    constructor <;> simp
  case hangup reason =>
    apply did_guarded hs
    intro _
    constructor <;> simp [Session.close]
  case autoReject reason =>
    apply did_guarded hs
    intro _
    constructor <;> simp [Session.close]
  case accept answeredBy =>
    apply did_guarded hs
    intro _
    constructor <;> simp
  case decline reason =>
    apply did_guarded hs
    intro _
    constructor <;> simp [Session.close]
  case answerUpdate inReplyTo answeredBy =>
    apply did_guarded hs
    intro _
    constructor <;> simp
  case rejectUpdate inReplyTo reason =>
    apply did_guarded hs
    intro _
    constructor <;> simp
  case info =>
    apply did_guarded hs
    intro _
    constructor <;> simp [hs]

theorem fire_did {t : Timer} (hs : e.sessions.lookup t.session = some s) (hid : s.id = t.session)
    (h : e.fire t = .ok e') : Did e s.id (s.expire t.name) e' := by
  rw [← hid] at hs
  unfold fire at h
  rw [← hid, hs] at h
  dsimp only at h
  unfold Session.expire
  split at h
  case isTrue hwait =>
    cases h
    rw [if_pos hwait]
    constructor <;> simp [Session.giveUp, Session.close]
  case isFalse hwait =>
    rw [if_neg hwait]
    split at h
    case isTrue hring =>
      cases h
      rw [if_pos hring]
      constructor <;> simp [Session.close]
    case isFalse hring =>
      cases h
      rw [if_neg hring]
      exact did_notice hs rfl rfl rfl

/-! ## The outcome of an event -/

/-- Nothing the table speaks of happened: no record, no timer, no media. -/
structure Quiet (e e' : Endpoint) : Prop where
  setting : e'.toSetting = e.toSetting
  now : e'.now = e.now
  sessions : e'.sessions = e.sessions
  timers : e'.timers = e.timers
  medias : medias e'.out = medias e.out

theorem quiet_contacts (e : Endpoint) (r : Contacts × List ContactEmit) : Quiet e (e.withContacts r) :=
  ⟨rfl, rfl, rfl, rfl, by simp [withContacts]⟩

theorem quiet_emit (e : Endpoint) {x : Emit} (hx : medias [x] = []) : Quiet e (e.emit x) := by
  refine ⟨rfl, rfl, rfl, rfl, ?_⟩
  rw [(emit_frame e x).2.2.1, medias_append, hx, List.append_nil]

inductive Outcome (e : Endpoint) : Event → Endpoint → Prop
  | advance {seconds : Nat} {e' : Endpoint} (h : e.advance seconds = .ok e') :
      Outcome e (.advance seconds) e'
  | invite {m : Msg} {dest : Option String} {expiresAt : Option Nat}
      (hb : m.body = .invite dest expiresAt) :
      Outcome e (.recv m) (e.recvInvite m dest expiresAt)
  | message {m : Msg} {body : SessionBody} {e' : Endpoint} (hb : m.body = .session body)
      (h : SessionOutcome e m body e') : Outcome e (.recv m) e'
  /-- The relay's own error ends an attempt. -/
  | unanswered {m : Msg} {reason : Option String} {sid : String} {s : Session} {e' : Endpoint}
      (hb : m.body = .error reason) (hs : e.sessions.lookup sid = some s)
      (hd : s.id = sid → Did e sid { record := s.close } e') : Outcome e (.recv m) e'
  | placed {sid dest : String} (h : sid ∉ e.sessions) :
      Outcome e (.placeCall sid dest) (e.placeCall sid dest)
  | call {sid : String} {s : Session} {event : CallEvent} {e' : Endpoint}
      (hs : e.sessions.lookup sid = some s)
      (hd : s.id = sid → Did e sid (s.act e.now event) e') : Outcome e (.call sid event) e'
  | quiet {event : Event} {e' : Endpoint} (h : Quiet e e') : Outcome e event e'

theorem recv_outcome (h : e.recv m = .ok e') : Outcome e (.recv m) e' := by
  unfold recv at h
  cases hb : m.body
  all_goals simp only [hb] at h
  case invite dest expiresAt =>
    cases h
    exact .invite hb
  case error reason =>
    cases h
    unfold recvError
    split
    case h_1 => exact .quiet (quiet_emit e rfl)
    case h_2 s hs =>
      split
      case isTrue =>
        obtain ⟨sid, -, hs⟩ := Option.bind_eq_some_iff.mp hs
        apply Outcome.unanswered hb hs
        rintro rfl
        exact did_end _ false
      case isFalse => exact .quiet (quiet_emit e rfl)
  case introduction =>
    cases h
    exact .quiet (quiet_contacts e _)
  case grant =>
    cases h
    exact .quiet (quiet_contacts e _)
  case presence =>
    obtain ⟨r, -, rfl⟩ := map_ok h
    exact .quiet (quiet_contacts e r)
  case session body => exact .message hb (recvSession_outcome h)

theorem perform_outcome {event : Event} (h : e.perform event = .ok e') : Outcome e event e' := by
  cases event
  case advance => exact .advance h
  case recv => exact recv_outcome h
  case placeCall sid dest =>
    cases h
    by_cases hmem : sid ∈ e.sessions
    · rw [placeCall, if_pos hmem]
      exact .quiet (quiet_emit e rfl)
    · exact .placed hmem
  case regrant =>
    obtain ⟨r, -, rfl⟩ := map_ok h
    exact .quiet (quiet_contacts e r)
  case revoke =>
    obtain ⟨r, -, rfl⟩ := map_ok h
    exact .quiet (quiet_contacts e r)
  case call sid event =>
    replace h : e.call sid event = .ok e' := h
    unfold call at h
    cases hs : e.sessions.lookup sid with
    | none =>
      rw [hs] at h
      cases h
      exact .quiet (quiet_emit e rfl)
    | some s =>
      rw [hs] at h
      apply Outcome.call hs
      rintro rfl
      exact callEvent_did hs h
  case issueToken =>
    cases h
    exact .quiet ⟨rfl, rfl, rfl, rfl, rfl⟩
  all_goals
    cases h
    exact .quiet (quiet_contacts e _)

theorem step_outcome {event : Event} {out : List Emit} (h : machine.step e event out e') :
    Outcome { e with out := [] } event e' ∧ out = e'.out := by
  obtain ⟨e₁, hperform, heq⟩ := map_ok h
  cases heq
  exact ⟨perform_outcome hperform, rfl⟩

end Handlers

end Endpoint

end Dsip.Engine
