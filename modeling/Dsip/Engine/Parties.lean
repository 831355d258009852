import Dsip.Engine.Records

/-!
# Whose messages a session listens to

An endpoint that is handed a message about a session takes it for the other
party's: who sent it is asked by no handler but to tell the legs of a forked
call apart. So the messages that move a session are described by the session
they name, its role and state, and the update they reply to (`Acts`), and a
stranger's move it like anybody's.
-/

namespace Dsip.Engine

open Dsip.Lib Dsip.Registry

namespace Session

variable (s : Session)

/-- The messages that move a session: its state or its outstanding update
changes, or a media command is given. Of an update that crosses ours, the id
matters too. -/
def Acts (id : String) : SessionBody → Prop
  | .progress status _ _ =>
    s.role = .initiator ∧ (s.state = .inviting ∨ (s.state = .proceeding ∧
      effectiveProgressStatus status = .queued ∧ maxConsecutiveRequeues < s.queueCount + 1))
  | .answer _ none | .reject _ none => s.role = .initiator ∧ s.Attempting
  | .answer _ (some update) | .reject _ (some update) =>
    s.state = .active ∧ s.outstanding = some ⟨update, .outbound⟩
  | .cancel token =>
    s.role = .responder ∧ (s.state = .offered ∨ s.state = .alerting ∨ (s.state = .active ∧ s.Crosses token))
  | .update _ => s.state = .active ∧ ∀ ours, s.outstanding = some ⟨ours, .outbound⟩ → id ≤ ours
  | .bye _ => s.state = .active
  | .info _ | .hello => False

/-- An effect that moves nothing. -/
def Unmoved (eff : Effect) : Prop :=
  eff.record.state = s.state ∧ eff.record.outstanding = s.outstanding ∧ eff.medias = []

variable {s} {m : Msg}

theorem unmoved_refuse (reason : String) : s.Unmoved (s.refuse m reason) := ⟨rfl, rfl, rfl⟩

theorem unmoved_settle_iff (id : String) (ms : List Media) :
    s.Unmoved (s.settle id ms) ↔ s.outstanding ≠ some ⟨id, .outbound⟩ := by
  unfold settle
  split
  case isTrue h => simp [Unmoved, h]
  case isFalse h => simp [Unmoved, h]

theorem unmoved_take_iff (id : String) : s.Unmoved (s.take id) ↔ s.outstanding = some ⟨id, .inbound⟩ := by
  simp [Unmoved, take, eq_comm]

theorem unmoved_ite {c : Prop} [Decidable c] {eff : Effect} (reason : String)
    (h : c → ¬ s.Unmoved eff) : s.Unmoved (if c then eff else s.refuse m reason) ↔ ¬ c := by
  split
  case isTrue hc => exact iff_of_false (h hc) (not_not.mpr hc)
  case isFalse hc => exact iff_of_true (unmoved_refuse reason) hc

theorem not_unmoved_of_state {eff : Effect} (h : eff.record.state ≠ s.state) :
    ¬ s.Unmoved eff := fun hu => h hu.1

theorem react_progress_iff (status : String) (rt qt : Option Nat) :
    s.Unmoved (s.react m (.progress status rt qt)) ↔ ¬ s.Acts m.id (.progress status rt qt) := by
  unfold react Acts
  dsimp only
  split
  case isFalse h =>
    refine iff_of_true (unmoved_refuse _) ?_
    rintro ⟨hr, hst | ⟨hst, -⟩⟩
    · exact h ⟨hr, .inl hst⟩
    · exact h ⟨hr, .inr hst⟩
  case isTrue h =>
    obtain ⟨hr, hst⟩ := h
    by_cases hq : effectiveProgressStatus status = .queued
    · simp only [hq, hr, true_and]
      split
      case isTrue hmax =>
        -- more re-queues than allowed: the attempt is over
        refine iff_of_false (not_unmoved_of_state ?_) (not_not.mpr ?_)
        · rcases hst with hst | hst <;> rw [hst] <;> exact nofun
        · rcases hst with hst | hst
          · exact .inl hst
          · exact .inr ⟨hst, hmax⟩
      case isFalse hmax =>
        rcases hst with hst | hst <;> simp [Unmoved, hst, hmax]
    · simp only [hr, hq, true_and, false_and, and_false, or_false]
      split
      all_goals rcases hst with hst | hst <;> simp_all [Unmoved]

theorem unmoved_reply_iff (id : String) (ms : List Media) (reason : String) :
    s.Unmoved (if s.state = .active then s.settle id ms else s.refuse m reason) ↔
      ¬ (s.state = .active ∧ s.outstanding = some ⟨id, .outbound⟩) := by
  by_cases hst : s.state = .active
  · rw [if_pos hst, unmoved_settle_iff]
    simp [hst]
  · rw [if_neg hst]
    exact iff_of_true (unmoved_refuse _) fun h => hst h.1

theorem react_cancel_iff (token : String) :
    s.Unmoved (s.react m (.cancel token)) ↔ ¬ s.Acts m.id (.cancel token) := by
  unfold react Acts
  dsimp only
  cases hr : s.role
  case initiator => exact iff_of_true (unmoved_refuse _) fun h => nomatch h.1
  case responder =>
    cases hst : s.state
    case offered =>
      refine iff_of_false (not_unmoved_of_state ?_) (by simp)
      rw [hst]
      exact nofun
    case alerting =>
      refine iff_of_false (not_unmoved_of_state ?_) (by simp)
      rw [hst]
      exact nofun
    case active =>
      simp only [true_and, reduceCtorEq, false_or]
      exact unmoved_ite _ fun _ => not_unmoved_of_state (hst ▸ nofun)
    all_goals exact iff_of_true (unmoved_refuse _) (by simp)

theorem react_update_iff (answeredBy : Option String) :
    s.Unmoved (s.react m (.update answeredBy)) ↔ ¬ s.Acts m.id (.update answeredBy) := by
  unfold react Acts
  dsimp only
  by_cases hst : s.state = .active
  case neg =>
    rw [if_neg hst]
    exact iff_of_true (unmoved_refuse _) fun h => hst h.1
  case pos =>
    rw [if_pos hst]
    rcases ho : s.outstanding with _ | ⟨ours, _ | _⟩
    · simp [unmoved_take_iff, ho, hst]
    · dsimp only
      split
      case isTrue hlt =>
        refine iff_of_true ⟨rfl, ho ▸ rfl, rfl⟩ ?_
        rintro ⟨-, hle⟩
        exact absurd hlt (not_lt.mpr (hle ours rfl))
      case isFalse hlt =>
        rw [unmoved_take_iff, ho]
        refine iff_of_false (by simp) (not_not.mpr ⟨hst, ?_⟩)
        rintro _ ⟨⟩
        exact not_lt.mp hlt
    · simp [Unmoved, refuse, ho, hst]

theorem react_unmoved_iff (body : SessionBody) : s.Unmoved (s.react m body) ↔ ¬ s.Acts m.id body := by
  have hwait : ∀ st, st = .active ∨ st = .ended → s.Attempting → st ≠ s.state := by
    rintro _ (rfl | rfl) (h | h) <;> rw [h] <;> exact nofun
  cases body
  case progress status rt qt => exact react_progress_iff status rt qt
  case answer answeredBy inReplyTo =>
    cases inReplyTo
    case none =>
      unfold react Acts
      dsimp only
      split
      case isTrue h =>
        exact iff_of_false (not_unmoved_of_state (hwait _ (.inl rfl) h.2)) (not_not.mpr h)
      case isFalse h =>
        refine iff_of_true ?_ h
        split
        case isTrue => exact ⟨rfl, rfl, rfl⟩
        case isFalse => exact unmoved_refuse _
    case some id => exact unmoved_reply_iff id _ _
  case reject token inReplyTo =>
    cases inReplyTo
    case none =>
      exact unmoved_ite _ fun h => not_unmoved_of_state (hwait _ (.inr rfl) h.2)
    case some id => exact unmoved_reply_iff id _ _
  case cancel token => exact react_cancel_iff token
  case update answeredBy => exact react_update_iff answeredBy
  case info about =>
    unfold react Acts
    dsimp only
    refine iff_of_true ?_ not_false
    split
    case isTrue => exact ⟨rfl, rfl, rfl⟩
    case isFalse => exact unmoved_refuse _
  case bye token =>
    exact unmoved_ite _ fun h => not_unmoved_of_state (h ▸ nofun)
  case hello => exact iff_of_true (unmoved_refuse _) not_false

/-- Having spoken is not what a message is let in by, but for a cancel, which
does not count as speaking. -/
theorem acts_observe (id : String) (body : SessionBody) : (s.observe body).Acts id body ↔ s.Acts id body := by
  obtain ⟨-, hrole, hstate, hout⟩ := observe_frame s body
  have hqueue : (s.observe body).queueCount = s.queueCount := by
    unfold observe
    split <;> rfl
  cases body
  case cancel token => rw [observe_cancel]
  case answer answeredBy inReplyTo =>
    cases inReplyTo <;> simp only [Acts, Attempting, hrole, hstate, hout]
  case reject token inReplyTo =>
    cases inReplyTo <;> simp only [Acts, Attempting, hrole, hstate, hout]
  all_goals simp only [Acts, hrole, hstate, hout, hqueue]

theorem recv_unmoved_iff (body : SessionBody) : s.Unmoved (s.recv m body) ↔ ¬ s.Acts m.id body := by
  unfold recv
  split
  case isTrue hended =>
    refine iff_of_true ?_ ?_
    · obtain ⟨hrecord, hmedias⟩ := reactLate_frame s m body
      exact ⟨by rw [hrecord], by rw [hrecord], hmedias⟩
    · unfold Acts Attempting
      split <;> simp [hended]
  case isFalse =>
    obtain ⟨-, -, hstate, hout⟩ := observe_frame s body
    rw [← acts_observe, ← react_unmoved_iff]
    unfold Unmoved
    rw [hstate, hout]

theorem settle_medias (id : String) (ms : List Media) : ∀ x ∈ (s.settle id ms).medias, x ∈ ms := by
  unfold settle
  split
  case isTrue => exact fun _ h => h
  case isFalse => exact nofun

theorem react_start {body : SessionBody} (h : .start ∈ (s.react m body).medias) :
    ∃ answeredBy, body = .answer answeredBy none ∧ s.role = .initiator ∧ s.Attempting := by
  unfold react at h
  split at h
  case h_2 answeredBy =>
    by_cases hi : s.role = .initiator ∧ s.Attempting
    · exact ⟨answeredBy, rfl, hi⟩
    · rw [if_neg hi] at h
      split at h <;> cases h
  all_goals exfalso
  all_goals repeat' split at h
  all_goals first
    | exact List.not_mem_nil h
    | exact absurd (List.mem_singleton.mp h) nofun
    | exact absurd (List.mem_singleton.mp (settle_medias _ _ _ h)) nofun
    | exact List.not_mem_nil (settle_medias _ _ _ h)

theorem recv_start {body : SessionBody} (h : .start ∈ (s.recv m body).medias) :
    ∃ answeredBy, body = .answer answeredBy none ∧ s.role = .initiator ∧ s.Attempting := by
  unfold recv at h
  split at h
  case isTrue =>
    rw [(reactLate_frame s m body).2] at h
    cases h
  case isFalse =>
    obtain ⟨-, hrole, hstate, -⟩ := observe_frame s body
    obtain ⟨answeredBy, hb, hr, ha⟩ := react_start h
    refine ⟨answeredBy, hb, hrole ▸ hr, ?_⟩
    show s.state = .inviting ∨ s.state = .proceeding
    rw [← hstate]
    exact ha

end Session

namespace Endpoint

variable {e e' : Endpoint} {m : Msg} {body : SessionBody}

/-- A message that moves the session it names. -/
def Acts (e : Endpoint) (m : Msg) (s : Session) (body : SessionBody) : Prop :=
  ¬ e.AnswersIntroduction m body ∧ s.Acts m.id body

/-- The session keeps its state and its outstanding update. -/
def Unmoved (e' : Endpoint) (sid : String) (s : Session) : Prop :=
  ∃ s', e'.sessions.lookup sid = some s' ∧ s'.state = s.state ∧ s'.outstanding = s.outstanding

theorem message_unmoved_iff (hk : e.Keyed) (hout : medias e.out = [])
    (h : SessionOutcome e m body e') {sid : String} {s : Session} (hm : m.session = some sid)
    (hs : e.sessions.lookup sid = some s) : (Unmoved e' sid s ∧ medias e'.out = []) ↔ ¬ e.Acts m s body := by
  cases h
  case introduction hintro =>
    refine iff_of_true ⟨⟨s, hs, rfl, rfl⟩, ?_⟩ fun h => h.1 hintro
    simpa [introductionRejected] using hout
  case unknown hunknown => exact absurd (Dict.mem_iff_lookup.mpr ⟨s, hs⟩) (hunknown sid hm)
  case held sid' s' hno hm' hs' hd =>
    obtain rfl : sid = sid' := Option.some.inj (hm.symm.trans hm')
    obtain rfl := Option.some.inj (hs.symm.trans hs')
    obtain ⟨-, hrecord, -, hmedias⟩ := hd (hk sid s hs)
    rw [hmedias, hout, List.nil_append]
    have hacts : ¬ e.Acts m s body ↔ ¬ s.Acts m.id body := by
      rw [Acts, and_iff_right hno]
    rw [hacts, ← Session.recv_unmoved_iff]
    constructor
    · rintro ⟨⟨s', hs', hst, ho⟩, hnone⟩
      rw [hrecord] at hs'
      cases hs'
      exact ⟨hst, ho, hnone⟩
    · rintro ⟨hst, ho, hnone⟩
      exact ⟨⟨_, hrecord, hst, ho⟩, hnone⟩

theorem message_step (hb : m.body = .session body) {out : List Emit} (h : machine.step e (.recv m) out e') :
    SessionOutcome { e with out := [] } m body e' ∧ out = e'.out := by
  obtain ⟨e₁, hperform, heq⟩ := map_ok h
  cases heq
  refine ⟨?_, rfl⟩
  replace hperform : { e with out := [] }.recv m = .ok e' := hperform
  unfold recv at hperform
  rw [hb] at hperform
  exact recvSession_outcome hperform

/-- **Who sent it is not asked.** In every reachable state, a received message
about a held session leaves the session's state and outstanding update as they
are and gives no media command exactly when it is not one that `Acts`, from
whichever device it comes; no other session changes; and media starts only on an
answer, with no update it replies to, that names an attempt of the endpoint's
own that is still INVITING or PROCEEDING. -/
theorem admitted_by_session {out : List Emit} (he : machine.Reachable e)
    (hb : m.body = .session body) (h : machine.step e (.recv m) out e') :
    (∀ sid s, m.session = some sid → e.sessions.lookup sid = some s →
      ((Unmoved e' sid s ∧ medias out = []) ↔ ¬ e.Acts m s body)) ∧
    (∀ sid, m.session ≠ some sid → e'.sessions.lookup sid = e.sessions.lookup sid) ∧
    (.start ∈ medias out → ∃ sid s answeredBy, m.session = some sid ∧
      e.sessions.lookup sid = some s ∧ body = .answer answeredBy none ∧
      s.role = .initiator ∧ s.Attempting) := by
  obtain ⟨ho, rfl⟩ := message_step hb h
  refine ⟨?_, ?_, ?_⟩
  · intro sid s hm hs
    exact message_unmoved_iff (e := { e with out := [] }) (keyed e he) rfl ho hm hs
  · intro sid hne
    cases ho
    case introduction => rfl
    case unknown => rfl
    case held sid' s' _ hm hs hd =>
      refine (hd (keyed e he sid' s' hs)).only.sessions sid ?_
      rintro rfl
      exact hne hm
  · intro hstart
    cases ho
    case introduction => simp [introductionRejected] at hstart
    case unknown => simp at hstart
    case held sid s _ hm hs hd =>
      have hmedias := (hd (keyed e he sid s hs)).medias
      rw [hmedias] at hstart
      obtain ⟨answeredBy, hrest⟩ := Session.recv_start (by simpa using hstart)
      exact ⟨sid, s, answeredBy, hm, hs, hrest⟩

/-! ## A stranger's answer -/

/-- The identity on the other side of a session: the invited one, or the one
that invited. -/
def otherSide (e : Endpoint) (s : Session) : Option String :=
  match s.role with
  | .initiator => s.inviteTo.map e.identityOf
  | .responder => some (e.identityOf s.peer)

/-- An answer from a device nobody invited. -/
def strangerAnswer : Msg := ⟨"msg-9", "did:mallory:1", "call-1", .session (.answer "user" none)⟩

/-- A stranger's answer makes an outgoing call ACTIVE and starts its media. -/
theorem stranger_starts_media :
    ¬ ∀ (e e' : Endpoint) (out : List Emit) (m : Msg) (body : SessionBody) (sid : String)
      (s : Session), machine.Reachable e → m.body = .session body → body ≠ .hello →
      machine.step e (.recv m) out e' → m.session = some sid →
      e.sessions.lookup sid = some s → e.otherSide s ≠ some (e.identityOf m.sender) →
      Unmoved e' sid s ∧ medias out = [] := by
  intro hall
  let p (e : Endpoint) : Bool :=
    match e.step (.recv strangerAnswer) with
    | .error _ => false
    | .ok (_, out) =>
      (e.sessions.lookup "call-1").any fun s =>
        e.otherSide s ≠ some (e.identityOf "did:mallory:1") && .start ∈ medias out
  obtain ⟨e, he, hp⟩ := exists_reachable { device := "did:alice:1", identity := "did:alice" }
    [.placeCall "call-1" "did:bob:1"] p (by decide) (by decide)
  unfold p at hp
  split at hp
  case h_1 => cases hp
  case h_2 e' out hstep =>
    rw [Option.any_eq_true] at hp
    obtain ⟨s, hs, hp⟩ := hp
    rw [Bool.and_eq_true, decide_eq_true_eq, decide_eq_true_eq] at hp
    obtain ⟨-, hnone⟩ := hall e e' out strangerAnswer _ "call-1" s he rfl nofun hstep rfl hs hp.1
    rw [hnone] at hp
    cases hp.2

/-- The stranger's answer is one of `Acts`, and it moves the call. -/
theorem stranger_admitted : ∃ e e' out s, machine.Reachable e ∧ machine.step e (.recv strangerAnswer) out e' ∧
      e.sessions.lookup "call-1" = some s ∧ e.Acts strangerAnswer s (.answer "user" none) ∧
      ¬ (Unmoved e' "call-1" s ∧ medias out = []) := by
  let p (e : Endpoint) : Bool :=
    (e.step (.recv strangerAnswer)).isOk &&
      (e.sessions.lookup "call-1").any fun s => s.role = .initiator ∧ s.Attempting
  obtain ⟨e, he, hp⟩ := exists_reachable { device := "did:alice:1", identity := "did:alice" }
    [.placeCall "call-1" "did:bob:1"] p (by decide) (by decide)
  unfold p at hp
  rw [Bool.and_eq_true, Option.any_eq_true] at hp
  obtain ⟨hok, s, hs, hwaits⟩ := hp
  rw [decide_eq_true_eq] at hwaits
  cases hstep : e.step (.recv strangerAnswer) with
  | error fault =>
    rw [hstep] at hok
    cases hok
  | ok r =>
    obtain ⟨e', out⟩ := r
    have hacts : e.Acts strangerAnswer s (.answer "user" none) := by
      refine ⟨?_, hwaits⟩
      rintro ⟨_, _, _, hbody, -⟩
      cases hbody
    refine ⟨e, e', out, s, he, hstep, hs, hacts, ?_⟩
    intro hunmoved
    exact ((admitted_by_session he rfl hstep).1 "call-1" s rfl hs).mp hunmoved hacts

end Endpoint

end Dsip.Engine
