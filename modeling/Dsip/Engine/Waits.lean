import Dsip.Engine.Records

/-!
# Every wait is bounded by a timer

§12.9: whatever an endpoint waits for, a timer ends the wait. `Expected` says
which timers a session in its role and state has running, `Fits` adds that they
expire within the half hour T-Queue may last. A step about one session keeps
`Fits` for it and touches no other (`Only`); the loop of `advance` fires every
timer that is due before the clock passes it.

An invite that reuses the id of a held session overwrites its record and leaves
the timers of the old one running, so the runs are those whose invites are
new.
-/

namespace Dsip.Engine

open Dsip.Lib Dsip.Registry

/-- The timers a session has running, by its role and state. -/
def Expected : Role → SessionState → List TimerName → Prop
  | .initiator, .inviting, names => names = [.establish]
  | .initiator, .proceeding, names => names = [.ring] ∨ names = [.queue]
  | .responder, .alerting, names => names = [.ringLocal]
  | _, _, names => names = []

/-- The timers are the expected ones, and none is overdue or more than
`tQueueCap` away. -/
structure Fits (now : Nat) (s : Session) (ts : List Timer) : Prop where
  names : Expected s.role s.state (ts.map (·.name))
  soon : ∀ t ∈ ts, now ≤ t.deadline ∧ t.deadline ≤ now + tQueueCap

theorem Expected.length_le {r : Role} {st : SessionState} {names : List TimerName}
    (h : Expected r st names) : names.length ≤ 1 := by
  unfold Expected at h
  split at h
  case h_2 => rcases h with rfl | rfl <;> simp
  all_goals simp [h]

variable {t : Timer} {seconds : Nat}

namespace Fits

variable {now : Nat} {s s' : Session} {ts : List Timer}

theorem timers_cases (h : Fits now s ts) : ts = [] ∨ ∃ t, ts = [t] := by
  have hlen := h.names.length_le
  rw [List.length_map] at hlen
  rcases ts with _ | ⟨t, _ | ⟨u, ts⟩⟩
  · exact .inl rfl
  · exact .inr ⟨t, rfl⟩
  · simp at hlen

theorem clear_eq (h : Fits now s ts) : Endpoint.clear ts = [] := by
  rcases h.timers_cases with rfl | ⟨t, rfl⟩ <;> simp

theorem idle (h : Expected s.role s.state []) : Fits now s [] := ⟨h, by simp⟩

theorem congr (h : Fits now s ts) (hr : s'.role = s.role) (hst : s'.state = s.state) : Fits now s' ts :=
  ⟨by rw [hr, hst]; exact h.names, h.soon⟩

theorem attempting (h : Fits now s ts) (hr : s.role = .initiator) (ha : s.Attempting) :
    ∃ t, ts = [t] ∧ t.name ≠ .ringLocal := by
  have hn := h.names
  rw [hr] at hn
  rcases h.timers_cases with rfl | ⟨t, rfl⟩
  · rcases ha with ha | ha <;> simp [ha, Expected] at hn
  · refine ⟨t, rfl, ?_⟩
    rcases ha with ha | ha <;> simp only [ha, Expected, List.map_cons, List.map_nil,
      List.cons.injEq, and_true] at hn
    · simp [hn]
    · rcases hn with hn | hn <;> simp [hn]

theorem started (hn : Expected s.role s.state [t.name])
    (hd : t.deadline = now + seconds) (hs : seconds ≤ tQueueCap) : Fits now s [t] := by
  refine ⟨hn, ?_⟩
  intro u hu
  rw [List.mem_singleton] at hu
  subst hu
  rw [hd]
  omega

end Fits

/-- No timer, or one of the given names that is neither overdue nor too far
away. -/
def AtMost (now : Nat) (names : List TimerName) (ts : List Timer) : Prop :=
  ts = [] ∨ ∃ t, ts = [t] ∧ t.name ∈ names ∧ now ≤ t.deadline ∧ t.deadline ≤ now + tQueueCap

namespace AtMost

variable {now : Nat} {names : List TimerName} {ts : List Timer}

theorem erase (h : AtMost now names ts) (name : TimerName) :
    AtMost now (names.erase name) (ts.eraseP (·.name = name)) := by
  rcases h with rfl | ⟨t, rfl, hname, hsoon⟩
  · exact .inl rfl
  · by_cases ht : t.name = name
    · exact .inl (by simp [ht])
    · refine .inr ⟨t, by simp [ht], ?_, hsoon⟩
      exact (List.mem_erase_of_ne ht).mpr hname

theorem eraseP_eq_nil {name : TimerName} (h : AtMost now [name] ts) : ts.eraseP (·.name = name) = [] := by
  rcases h with rfl | ⟨t, rfl, hname, -⟩
  · rfl
  · simp [List.mem_singleton.mp hname]

theorem mono {names' : List TimerName} (h : AtMost now names ts)
    (hsub : ∀ name ∈ names, name ∈ names') : AtMost now names' ts := by
  rcases h with rfl | ⟨t, rfl, hname, hsoon⟩
  · exact .inl rfl
  · exact .inr ⟨t, rfl, hsub _ hname, hsoon⟩

theorem clear_eq (h : AtMost now names ts) : Endpoint.clear ts = [] := by
  rcases h with rfl | ⟨t, rfl, -⟩ <;> simp

theorem eq_nil (h : AtMost now names ts)
    (hnone : ∀ name ∈ names, ts.find? (·.name = name) = none) : ts = [] := by
  rcases h with rfl | ⟨t, rfl, hname, -⟩
  · rfl
  · have := hnone t.name hname
    simp at this

end AtMost

/-! ## The invariant -/

namespace Endpoint

/-- A session held under its own id, with the timers it should have. -/
def HeldFit (e : Endpoint) (sid : String) : Prop :=
  ∃ s, e.sessions.lookup sid = some s ∧ s.id = sid ∧ Fits e.now s (e.timersOf sid)

structure Waits (e : Endpoint) : Prop where
  held : ∀ sid, sid ∈ e.sessions → e.HeldFit sid
  idle : ∀ sid, sid ∉ e.sessions → e.timersOf sid = []
  bounded : e.tEstablish ≤ tQueueCap ∧ e.tRing ≤ tQueueCap ∧ e.tRingLocal ≤ tQueueCap

variable {e e' : Endpoint}

theorem Waits.fits (h : e.Waits) {sid : String} {s : Session}
    (hs : e.sessions.lookup sid = some s) : s.id = sid ∧ Fits e.now s (e.timersOf sid) := by
  obtain ⟨s', hs', hid, hf⟩ := h.held sid (Dict.mem_iff_lookup.mpr ⟨s, hs⟩)
  obtain rfl := Option.some.inj (hs.symm.trans hs')
  exact ⟨hid, hf⟩

theorem Waits.only (h : e.Waits) {sid : String} (ho : Only e sid e') (hs : e'.HeldFit sid) : e'.Waits := by
  have hmem : ∀ k, k ≠ sid → (k ∈ e'.sessions ↔ k ∈ e.sessions) := by
    intro k hk
    rw [Dict.mem_iff_lookup, Dict.mem_iff_lookup, ho.sessions k hk]
  refine ⟨?_, ?_, ?_⟩
  · intro k hk
    by_cases hks : k = sid
    · exact hks ▸ hs
    · obtain ⟨s, hl, hid, hf⟩ := h.held k ((hmem k hks).mp hk)
      refine ⟨s, (ho.sessions k hks).trans hl, hid, ?_⟩
      rw [ho.now, ho.timers k hks]
      exact hf
  · intro k hk
    have hks : k ≠ sid := by
      rintro rfl
      obtain ⟨s, hl, -⟩ := hs
      exact hk (Dict.mem_iff_lookup.mpr ⟨s, hl⟩)
    rw [ho.timers k hks]
    exact h.idle k fun hmem' => hk ((hmem k hks).mpr hmem')
  · rw [ho.setting]
    exact h.bounded

/-! ## Steps about one session -/

section Handlers

variable {s s' : Session} {m : Msg}

theorem heldFit_self (hs : e.sessions.lookup s.id = some s)
    (hf : Fits e.now s (e.timersOf s.id)) : e.HeldFit s.id := ⟨s, hs, rfl, hf⟩

theorem heldFit_put (hf : Fits e.now s (e.timersOf s.id)) (hid : s'.id = s.id)
    (hr : s'.role = s.role) (hst : s'.state = s.state) : (e.put s').HeldFit s.id := by
  refine ⟨s', ?_, hid, hf.congr hr hst⟩
  rw [(put_frame e s').1, hid]
  exact AList.lookup_insert _

theorem heldFit_stopped (s' : Session) (hl : e.sessions.lookup s.id = some s') (hid : s'.id = s.id)
    (hst : s'.state = .active ∨ s'.state = .ended) (ht : e.timersOf s.id = []) : e.HeldFit s.id := by
  refine ⟨s', hl, hid, ?_⟩
  rw [ht]
  apply Fits.idle
  rcases hst with hst | hst <;> rw [hst] <;> cases s'.role <;> rfl

theorem endSession_fits (hc : clear (e.timersOf s.id) = []) (reason : Option String)
    (mediaStop : Bool) : (e.endSession s reason mediaStop).HeldFit s.id := by
  have hl : (e.endSession s reason mediaStop).sessions.lookup s.id = some s.close := by
    simp [Session.close]
  exact heldFit_stopped _ hl rfl (.inr rfl) (by simp [hc])

theorem timeOut_fits (hc : clear (e.timersOf s.id) = []) : (e.timeOut s).HeldFit s.id := by
  have hl : (e.timeOut s).sessions.lookup s.id = some s.giveUp.record := by
    simp [Session.giveUp, Session.close]
  exact heldFit_stopped _ hl rfl (.inr rfl) (by simp [hc])

variable (hs : e.sessions.lookup s.id = some s) (hf : Fits e.now s (e.timersOf s.id))
include hs hf

theorem settle_fits (id : String) (x y : Emit) : (if s.outstanding = some ⟨id, .outbound⟩ then
      (e.put { s with outstanding := none }).emit x
    else e.emit y).HeldFit s.id := by
  split
  case isTrue => exact heldFit_put hf rfl rfl rfl
  case isFalse => exact heldFit_self hs hf

theorem recvAnswer_fits (answeredBy : String) (inReplyTo : Option String) :
    (e.recvAnswer s m answeredBy inReplyTo).HeldFit s.id := by
  have hself := heldFit_self hs hf
  unfold recvAnswer
  split
  case isTrue => exact hself
  case isFalse =>
    split
    case isTrue =>
      split
      case h_1 => exact hself
      case h_2 =>
        -- answered: the attempt's timer is stopped
        dsimp only
        split <;> exact heldFit_stopped _ (AList.lookup_insert _) rfl (.inl rfl)
          (by simp [hf.clear_eq])
    case isFalse =>
      split
      case isTrue =>
        split
        case h_1 id _ => exact settle_fits hs hf id _ _
        case h_2 => split <;> exact hself
      case isFalse => exact hself

theorem recvReject_fits (token : String) (inReplyTo : Option String) :
    (e.recvReject s m token inReplyTo).HeldFit s.id := by
  unfold recvReject
  dsimp only
  split
  case isTrue => exact endSession_fits hf.clear_eq _ _
  case isFalse =>
    split
    case h_1 => exact settle_fits hs hf _ _ _
    case h_2 => exact heldFit_self hs hf

theorem recvCancel_fits (token : String) : (e.recvCancel s m token).HeldFit s.id := by
  have hself := heldFit_self hs hf
  unfold recvCancel
  dsimp only
  split
  case isTrue => exact hself
  case isFalse =>
    split
    case h_1 => exact endSession_fits hf.clear_eq _ _
    case h_2 =>
      apply endSession_fits
      split <;> simp [hf.clear_eq]
    case h_3 =>
      split
      case isTrue => exact endSession_fits hf.clear_eq _ _
      case isFalse => exact hself
    case h_4 => exact hself

omit hs in
theorem offerUpdate_fits (answeredBy : Option String) : (e.offerUpdate s m answeredBy).HeldFit s.id := by
  unfold offerUpdate
  cases answeredBy <;> exact heldFit_put hf rfl rfl rfl

theorem recvUpdate_fits (answeredBy : Option String) : (e.recvUpdate s m answeredBy).HeldFit s.id := by
  unfold recvUpdate
  split
  case isTrue => exact heldFit_self hs hf
  case isFalse =>
    split
    case h_1 => exact offerUpdate_fits hf answeredBy
    case h_2 =>
      split
      case isTrue => exact heldFit_self hs hf
      case isFalse => exact offerUpdate_fits (e := e.emit _) hf answeredBy
    case h_3 => exact heldFit_put hf rfl rfl rfl

omit hs in
theorem atMost_attempt (hr : s.role = .initiator) (ha : s.Attempting) :
    AtMost e.now [.establish, .ring, .queue] (e.timersOf s.id) := by
  obtain ⟨t, ht, hne⟩ := hf.attempting hr ha
  refine .inr ⟨t, ht, ?_, hf.soon t (by simp [ht])⟩
  cases hname : t.name
  case ringLocal => exact absurd hname hne
  all_goals decide

omit hs hf in
theorem startTimer_held (hl : e.sessions.lookup s.id = some s) {name : TimerName}
    (hn : Expected s.role s.state [name]) (hold : (e.timersOf s.id).eraseP (·.name = name) = [])
    (hle : seconds ≤ tQueueCap) : (e.startTimer s name seconds).HeldFit s.id := by
  refine ⟨s, by simpa using hl, rfl, ?_⟩
  rw [timersOf_startTimer, hold, (startTimer_frame e s name seconds).2.1]
  exact Fits.started hn rfl hle

omit hs hf in
theorem startTimer_fits (hl : e.sessions.lookup s.id = some s) (hr : s.role = .initiator)
    (hst : s.state = .proceeding) {name : TimerName} (hn : name = .ring ∨ name = .queue)
    (hold : AtMost e.now [name] (e.timersOf s.id)) (hle : seconds ≤ tQueueCap) :
    (e.startTimer s name seconds).HeldFit s.id := by
  apply startTimer_held hl _ hold.eraseP_eq_nil hle
  rw [hr, hst]
  rcases hn with rfl | rfl
  · exact .inl rfl
  · exact .inr rfl

omit hs hf in
theorem atMost_fits (hl : e.sessions.lookup s.id = some s) (hr : s.role = .initiator)
    (hst : s.state = .proceeding) (hold : AtMost e.now [.ring, .queue] (e.timersOf s.id))
    (hne : e.timersOf s.id ≠ []) : e.HeldFit s.id := by
  rcases hold with hnil | ⟨t, ht, hname, hsoon⟩
  · exact absurd hnil hne
  · refine ⟨s, hl, rfl, ?_⟩
    rw [ht]
    refine ⟨?_, ?_⟩
    · rw [hr, hst]
      simpa [Expected] using hname
    · intro u hu
      rw [List.mem_singleton] at hu
      exact hu ▸ hsoon

section Progress

variable {e : Endpoint} (hl : e.sessions.lookup s.id = some s) (hr : s.role = .initiator)
  (hst : s.state = .proceeding) (hold : AtMost e.now [.ring, .queue] (e.timersOf s.id))
include hl hr hst hold

omit hl hs hf in
theorem progressRinging_fits (hb : e.tRing ≤ tQueueCap) (ringTimeout : Option Nat) :
    (e.progressRinging s ringTimeout).HeldFit s.id := by
  unfold progressRinging
  dsimp only
  generalize hs₂ : ({ s with queueCount := 0 } : Session) = s₂
  have hid : s₂.id = s.id := by rw [← hs₂]
  rw [← hid] at hold ⊢
  -- T-Queue is gone, so that only T-Ring can be left
  generalize he₂ : (e.put s₂).stopTimer s₂ .queue = e₂
  have hnow : e₂.now = e.now := by simp [← he₂]
  have hring : AtMost e₂.now [.ring] (e₂.timersOf s₂.id) := by
    rw [hnow, ← he₂, timersOf_stopTimer]
    exact hold.erase .queue
  have hl₂ : e₂.sessions.lookup s₂.id = some s₂ := by simp [← he₂]
  have hr₂ : s₂.role = .initiator := by rw [← hs₂]; exact hr
  have hst₂ : s₂.state = .proceeding := by rw [← hs₂]; exact hst
  cases ringTimeout
  case some rt =>
    have hle : clamp rt tRingBounds ≤ tRingBounds.2 := clamp_le rt (by decide)
    have hcap : tRingBounds.2 ≤ tQueueCap := by decide
    exact startTimer_fits hl₂ hr₂ hst₂ (.inl rfl) hring (by omega)
  case none =>
    dsimp only
    split
    case isTrue =>
      have hset : e₂.toSetting = e.toSetting := by simp [← he₂]
      exact startTimer_fits hl₂ hr₂ hst₂ (.inl rfl) hring (by rw [hset]; exact hb)
    case isFalse hrun =>
      apply atMost_fits hl₂ hr₂ hst₂ (hring.mono (by simp))
      intro hnil
      exact hrun (by rw [running_eq, hnil]; rfl)

omit hl hs hf in
theorem progressQueued_fits {e' : Endpoint} {queueTimeout : Option Nat}
    (h : e.progressQueued s queueTimeout = .ok e') : e'.HeldFit s.id := by
  unfold progressQueued at h
  dsimp only at h
  split at h
  case isTrue =>
    cases h
    exact timeOut_fits (s := { s with queueCount := s.queueCount + 1 }) hold.clear_eq
  case isFalse =>
    split at h
    case h_1 => cases h
    case h_2 qt =>
      cases h
      -- T-Ring is suspended, so that only T-Queue can be left
      refine startTimer_fits (s := { s with queueCount := s.queueCount + 1 }) (by simp) hr hst
        (.inr rfl) ?_ (Nat.min_le_right qt tQueueCap)
      rw [timersOf_stopTimer, (stopTimer_frame _ _ _).2.1]
      exact hold.erase .ring

omit hs hf in
theorem progressOther_fits (hb : e.tRing ≤ tQueueCap) : (e.progressOther s).HeldFit s.id := by
  unfold progressOther
  split
  case isTrue hnone =>
    rw [running_eq, running_eq] at hnone
    have hnil : e.timersOf s.id = [] := by
      apply hold.eq_nil
      simpa using hnone
    exact startTimer_fits hl hr hst (.inl rfl) (.inl hnil) hb
  case isFalse hsome =>
    apply atMost_fits hl hr hst hold
    intro hnil
    apply hsome
    rw [running_eq, running_eq, hnil]
    exact ⟨rfl, rfl⟩

end Progress

theorem recvProgress_fits (hb : e.tRing ≤ tQueueCap) {status : String}
    {ringTimeout queueTimeout : Option Nat} {e' : Endpoint}
    (h : e.recvProgress s m status ringTimeout queueTimeout = .ok e') : e'.HeldFit s.id := by
  unfold recvProgress at h
  split at h
  case isTrue =>
    cases h
    exact heldFit_self hs hf
  case isFalse hyes =>
    rw [not_or, not_not, not_not] at hyes
    obtain ⟨hr, ha⟩ := hyes
    dsimp only at h
    generalize hs₁ : ({ s with state := .proceeding } : Session) = s₁ at h
    generalize he₁ : ((e.stopTimer s .establish).put s₁).emit
      (.ui (.progress (effectiveProgressStatus status))) = e₁ at h
    have hid : s₁.id = s.id := by rw [← hs₁]
    have hr₁ : s₁.role = .initiator := by rw [← hs₁]; exact hr
    have hst₁ : s₁.state = .proceeding := by rw [← hs₁]
    have hl₁ : e₁.sessions.lookup s₁.id = some s₁ := by simp [← he₁]
    have hring : e₁.tRing ≤ tQueueCap := by
      have hset : e₁.toSetting = e.toSetting := by simp [← he₁]
      rw [hset]
      exact hb
    have hold : AtMost e₁.now [.ring, .queue] (e₁.timersOf s₁.id) := by
      have hnow : e₁.now = e.now := by simp [← he₁]
      have hts : e₁.timersOf s.id = (e.stopTimer s .establish).timersOf s.id := by simp [← he₁]
      rw [hnow, hid, hts, timersOf_stopTimer]
      exact (atMost_attempt hf hr ha).erase .establish
    rw [← hid]
    cases hst : effectiveProgressStatus status
    all_goals simp only [hst] at h
    case ringing =>
      cases h
      exact progressRinging_fits hr₁ hst₁ hold hring ringTimeout
    case queued => exact progressQueued_fits hr₁ hst₁ hold h
    all_goals
      cases h
      exact progressOther_fits hl₁ hr₁ hst₁ hold hring

theorem handle_fits (hb : e.tRing ≤ tQueueCap) {body : SessionBody} {e' : Endpoint}
    (h : e.handle s m body = .ok e') : e'.HeldFit s.id := by
  cases body
  case progress => exact recvProgress_fits hs hf hb h
  all_goals
    cases h
  case answer answeredBy inReplyTo => exact recvAnswer_fits hs hf answeredBy inReplyTo
  case reject token inReplyTo => exact recvReject_fits hs hf token inReplyTo
  case cancel token => exact recvCancel_fits hs hf token
  case update answeredBy => exact recvUpdate_fits hs hf answeredBy
  case info =>
    unfold recvInfo
    split
    case isTrue => exact heldFit_self hs hf
    case isFalse => split <;> exact heldFit_self hs hf
  case bye =>
    unfold recvBye
    split
    case isTrue => exact heldFit_self hs hf
    case isFalse => exact endSession_fits hf.clear_eq _ _
  case hello => exact heldFit_self hs hf

theorem guarded_fits {c : Prop} [Decidable c] {e' : Endpoint} (reason : String)
    (h : c → e'.HeldFit s.id) : (if c then e' else e.emit (.refused reason)).HeldFit s.id := by
  split
  case isTrue hc => exact h hc
  case isFalse => exact heldFit_self hs hf

theorem localAlert_fits (hb : e.tRingLocal ≤ tQueueCap) {ringTimeout : Option Nat}
    {e' : Endpoint} (h : e.localAlert s ringTimeout = .ok e') : e'.HeldFit s.id := by
  unfold localAlert at h
  split at h
  case isFalse =>
    cases h
    exact heldFit_self hs hf
  case isTrue hoffered =>
    split at h
    case h_1 => cases h
    case h_2 expiresAt _ =>
      split at h
      case isTrue =>
        cases h
        exact endSession_fits (e := e.send _) hf.clear_eq _ _
      case isFalse =>
        cases h
        -- an offered session waits for nothing yet
        have hnone : e.timersOf s.id = [] := by
          have hn := hf.names
          rw [hoffered.1, hoffered.2] at hn
          exact List.map_eq_nil_iff.mp hn
        refine startTimer_held (s := { s with state := .alerting }) (by simp) ?_ ?_ ?_
        · rw [hoffered.1]
          exact rfl
        · show (e.timersOf s.id).eraseP _ = []
          rw [hnone]
          rfl
        · split
          case h_1 rt _ =>
            have hle : clamp rt tRingLocalBounds ≤ tRingLocalBounds.2 := clamp_le rt (by decide)
            have hcap : tRingLocalBounds.2 ≤ tQueueCap := by decide
            omega
          case h_2 => exact hb

theorem callEvent_fits (hb : e.tRingLocal ≤ tQueueCap) {event : CallEvent} {e' : Endpoint}
    (h : e.callEvent s event = .ok e') : e'.HeldFit s.id := by
  have hstopped : (e.stopAll s).timersOf s.id = [] := by
    rw [timersOf_stopAll]
    exact hf.clear_eq
  cases event
  case alert => exact localAlert_fits hs hf hb h
  all_goals
    cases h
  case cancel =>
    apply guarded_fits hs hf
    intro _
    exact heldFit_stopped _ (AList.lookup_insert _) rfl (.inr rfl) hstopped
  case hangup =>
    apply guarded_fits hs hf
    intro _
    exact heldFit_stopped _ (AList.lookup_insert _) rfl (.inr rfl) hstopped
  case autoReject =>
    apply guarded_fits hs hf
    intro _
    exact endSession_fits (e := e.send _) hf.clear_eq _ _
  case accept =>
    apply guarded_fits hs hf
    intro _
    exact heldFit_stopped _ (AList.lookup_insert _) rfl (.inl rfl) hstopped
  case decline =>
    apply guarded_fits hs hf
    intro _
    refine endSession_fits (e := (e.stopAll s).send _) ?_ _ _
    show clear ((e.stopAll s).timersOf s.id) = []
    rw [hstopped]
    rfl
  case update =>
    unfold localUpdate
    split
    case isTrue => exact heldFit_self hs hf
    case isFalse =>
      split
      case isTrue => exact heldFit_self hs hf
      case isFalse => exact heldFit_put (e := e.send _) hf rfl rfl rfl
  case answerUpdate =>
    apply guarded_fits hs hf
    intro _
    exact heldFit_put (e := (e.send _).emit _) hf rfl rfl rfl
  case rejectUpdate =>
    apply guarded_fits hs hf
    intro _
    exact heldFit_put (e := e.send _) hf rfl rfl rfl
  case info =>
    apply guarded_fits hs hf
    intro _
    exact heldFit_self hs hf

end Handlers

/-! ## Steps of the endpoint -/

theorem Waits.quiet (h : e.Waits) (hq : Quiet e e') : e'.Waits := by
  have hts : ∀ k, e'.timersOf k = e.timersOf k := by
    intro k
    rw [timersOf, timersOf, hq.timers]
  refine ⟨?_, ?_, ?_⟩
  · intro sid hmem
    rw [hq.sessions] at hmem
    obtain ⟨s, hs, hid, hf⟩ := h.held sid hmem
    refine ⟨s, by rw [hq.sessions]; exact hs, hid, ?_⟩
    rw [hq.now, hts]
    exact hf
  · intro sid hmem
    rw [hq.sessions] at hmem
    rw [hts]
    exact h.idle sid hmem
  · rw [hq.setting]
    exact h.bounded

theorem Waits.put (h : e.Waits) {s s' : Session} (hs : e.sessions.lookup s.id = some s)
    (hid : s'.id = s.id) (hr : s'.role = s.role) (hst : s'.state = s.state) : (e.put s').Waits :=
  h.only ((only_put e e s' hid).mpr (only_self e s.id)) (heldFit_put (h.fits hs).2 hid hr hst)

theorem recvHeld_waits (h : e.Waits) {m : Msg} {body : SessionBody}
    (hr : e.recvHeld m body = .ok e') : e'.Waits := by
  unfold recvHeld at hr
  split at hr
  case h_1 =>
    cases hr
    exact h.quiet (quiet_emit e rfl)
  case h_2 s hs =>
    obtain ⟨sid, -, hs⟩ := Option.bind_eq_some_iff.mp hs
    obtain ⟨rfl, hf⟩ := h.fits hs
    split at hr
    case isTrue =>
      cases hr
      unfold recvEnded
      split <;> exact h.quiet (quiet_emit e rfl)
    case isFalse =>
      obtain ⟨hid, hrole, hstate, -⟩ := Session.observe_frame s body
      have hput := h.put hs hid hrole hstate
      have hs' : (e.put (s.observe body)).sessions.lookup (s.observe body).id =
          some (s.observe body) := AList.lookup_insert _
      exact hput.only (handle_did hs' hr).only
        (handle_fits hs' (hput.fits hs').2 h.bounded.2.1 hr)

theorem recvSession_waits (h : e.Waits) {m : Msg} {body : SessionBody}
    (hr : e.recvSession m body = .ok e') : e'.Waits := by
  unfold recvSession at hr
  split at hr
  case h_1 =>
    cases hr
    exact h.quiet ⟨rfl, rfl, rfl, rfl, by simp [introductionRejected]⟩
  case h_2 => exact recvHeld_waits h hr

theorem recvError_waits (h : e.Waits) (m : Msg) (reason : Option String) : (e.recvError m reason).Waits := by
  unfold recvError
  split
  case h_1 => exact h.quiet (quiet_emit e rfl)
  case h_2 s hs =>
    obtain ⟨sid, -, hs⟩ := Option.bind_eq_some_iff.mp hs
    obtain ⟨rfl, hf⟩ := h.fits hs
    split
    case isTrue => exact h.only (did_end _ _).only (endSession_fits hf.clear_eq _ _)
    case isFalse => exact h.quiet (quiet_emit e rfl)

theorem Waits.putNew (h : e.Waits) {s : Session} (hnew : s.id ∉ e.sessions)
    (hn : Expected s.role s.state []) : (e.put s).Waits := by
  apply h.only ((only_put e e s rfl).mpr (only_self e s.id))
  refine ⟨s, AList.lookup_insert _, rfl, ?_⟩
  show Fits e.now s (e.timersOf s.id)
  rw [h.idle s.id hnew]
  exact Fits.idle hn

theorem placeCall_waits (h : e.Waits) (sid dest : String) : (e.placeCall sid dest).Waits := by
  unfold placeCall
  split
  case isTrue => exact h.quiet (quiet_emit e rfl)
  case isFalse hnew =>
    let s : Session := { id := sid, role := .initiator, state := .inviting, peer := dest, inviteTo := dest }
    have hexp : Expected s.role s.state [.establish] := rfl
    have hold : (e.timersOf sid).eraseP (·.name = .establish) = [] := by
      rw [h.idle sid hnew]
      rfl
    exact h.only (by simp [s])
      (startTimer_held (e := (e.put s).send _) (s := s) (by simp) hexp hold h.bounded.1)

theorem withdrawn_waits (rs : List Session) : ∀ {e : Endpoint}, e.Waits →
    (∀ r ∈ rs, r.id ∈ e.sessions) → (rs.foldl withdraw e).Waits := by
  induction rs with
  | nil => exact fun h _ => h
  | cons r rs ih =>
    intro e h hheld
    obtain ⟨s, -, -, hf⟩ := h.held r.id (hheld r List.mem_cons_self)
    have hw : (e.withdraw r).Waits := by
      have ho : Only e r.id (e.withdraw r) := by simp [withdraw]
      apply h.only ho
      apply heldFit_stopped r.lose _ rfl (.inr rfl)
      · show (e.stopAll r).timersOf r.id = []
        rw [timersOf_stopAll]
        exact hf.clear_eq
      · rw [(withdraw_sessions e r).1]
        exact AList.lookup_insert _
    apply ih hw
    intro r' hr'
    rw [(withdraw_sessions e r).1, AList.mem_insert]
    exact .inr (hheld r' (List.mem_cons_of_mem r hr'))

theorem offer_waits (h : e.Waits) {m : Msg} (hnew : m.id ∉ e.sessions) (dest : Option String)
    (expiresAt : Option Nat) : (e.offer m dest expiresAt).Waits := by
  unfold offer
  dsimp only
  apply Waits.quiet _ (quiet_emit _ rfl)
  exact h.putNew hnew rfl

theorem recvInvite_waits (h : e.Waits) {m : Msg} (hnew : m.id ∉ e.sessions)
    (dest : Option String) (expiresAt : Option Nat) : (e.recvInvite m dest expiresAt).Waits := by
  have hkeyed : e.Keyed := fun sid s hs => (h.fits hs).1
  have hrivals : ∀ r ∈ e.rivals (e.identityOf m.sender), r.id ∈ e.sessions := by
    intro r hr
    exact Dict.mem_iff_lookup.mpr ⟨r, ((mem_rivals hkeyed).mp hr).1⟩
  have ho := recvInvite_outcome e m dest expiresAt
  generalize e.recvInvite m dest expiresAt = e' at ho ⊢
  cases ho
  case rejected => exact Waits.putNew (e := e.send _) (h.quiet (quiet_emit e rfl)) hnew rfl
  case repeated hx => exact h.quiet (quiet_emit e hx)
  case offered => exact offer_waits h hnew dest expiresAt
  case tied first rest _ hr _ =>
    have hw := withdrawn_waits (first :: rest) h (hr ▸ hrivals)
    exact (hw.quiet (quiet_emit _ rfl)).quiet (quiet_emit _ rfl)
  case lost first rest _ hr hlt =>
    have hw := withdrawn_waits (first :: rest) h (hr ▸ hrivals)
    apply offer_waits hw
    rw [Dict.mem_iff_lookup]
    rcases withdrawn_lookup (first :: rest) m.id e with hsame | ⟨r, hr', hid, -⟩
    · rw [hsame, ← Dict.mem_iff_lookup]
      exact hnew
    · exact absurd (hid ▸ hrivals r (hr ▸ hr')) hnew

/-! ## The clock -/

theorem timersOf_erase (h : e.Waits) (ht : t ∈ e.timers) : e.timersOf t.session = [t] ∧
      Only e t.session { e with timers := e.timers.erase t } ∧
      ({ e with timers := e.timers.erase t } : Endpoint).timersOf t.session = [] := by
  have hmem : t ∈ e.timersOf t.session := by
    rw [timersOf, List.mem_filter]
    exact ⟨ht, by simp⟩
  have hone : e.timersOf t.session = [t] := by
    by_cases hheld : t.session ∈ e.sessions
    · obtain ⟨s, -, -, hf⟩ := h.held _ hheld
      rcases hf.timers_cases with hnil | ⟨u, hu⟩
      · rw [hnil] at hmem
        cases hmem
      · rw [hu, List.mem_singleton] at hmem
        rw [hu, hmem]
    · rw [h.idle _ hheld] at hmem
      cases hmem
  refine ⟨hone, only_erase e t, ?_⟩
  show (e.timers.erase t).filter _ = []
  rw [← List.erase_filter]
  show (e.timersOf t.session).erase t = []
  rw [hone]
  simp

theorem Expected.ends_wait {s : Session} (h : Expected s.role s.state [t.name]) :
    (t.name ≠ .ringLocal ∧ s.Attempting) ∨ (t.name = .ringLocal ∧ s.state = .alerting) := by
  unfold Expected at h
  split at h
  case h_1 hst =>
    rw [List.singleton_inj] at h
    exact .inl ⟨by simp [h], .inl hst⟩
  case h_2 hst =>
    rw [List.singleton_inj, List.singleton_inj] at h
    refine .inl ⟨?_, .inr hst⟩
    rcases h with h | h <;> simp [h]
  case h_3 hst =>
    rw [List.singleton_inj] at h
    exact .inr ⟨h, hst⟩
  case h_4 => cases h

theorem fire_fits (h : e.Waits) (ht : t ∈ e.timers) (hfire : { e with timers:= e.timers.erase t }.fire t = .ok e') : e'.HeldFit t.session := by
  obtain ⟨hone, -, hnone⟩ := timersOf_erase h ht
  unfold fire at hfire
  split at hfire
  case h_1 => cases hfire
  case h_2 s hs =>
    replace hs : e.sessions.lookup t.session = some s := hs
    obtain ⟨hid, hf⟩ := h.fits hs
    have hn := hf.names
    rw [hone] at hn
    have hends := Expected.ends_wait hn
    dsimp only at hfire
    rw [← hid] at hnone ⊢
    split at hfire
    case isTrue =>
      cases hfire
      apply timeOut_fits
      show clear (({ e with timers := e.timers.erase t } : Endpoint).timersOf s.id) = []
      rw [hnone]
      rfl
    case isFalse hwait =>
      split at hfire
      case isTrue =>
        cases hfire
        apply endSession_fits
        show clear (({ e with timers := e.timers.erase t } : Endpoint).timersOf s.id) = []
        rw [hnone]
        rfl
      case isFalse hring => exact (hends.elim hwait hring).elim

theorem keeps_waits : Keeps Waits where
  clock e n h hle hts := by
    refine ⟨?_, h.idle, h.bounded⟩
    intro sid hmem
    obtain ⟨s, hs, hid, hf⟩ := h.held sid hmem
    refine ⟨s, hs, hid, hf.names, ?_⟩
    intro t ht
    obtain ⟨hnow, hsoon⟩ := hf.soon t ht
    have hlater := hts t (List.mem_of_mem_filter ht) hnow
    show n ≤ t.deadline ∧ t.deadline ≤ n + tQueueCap
    omega
  fire e t e' h ht _ hfire := by
    have hkeyed : e.Keyed := fun sid s hs => (h.fits hs).1
    obtain ⟨s, hs, hd⟩ := fire_did_of_keyed hkeyed hfire
    exact h.only ((timersOf_erase h ht).2.1.trans hd.only) (fire_fits h ht hfire)
  lapse e h := h.quiet ⟨rfl, rfl, rfl, rfl, rfl⟩
  rotate e r h _ := h.quiet (quiet_contacts e r)

/-- Invites bring ids that are new to the endpoint. -/
def NewInvite (e : Endpoint) : Event → Prop
  | .recv ⟨id, _, _, .invite _ _⟩ => id ∉ e.sessions
  | _ => True

instance (e : Endpoint) : DecidablePred e.NewInvite
  | .recv ⟨id, _, _, .invite _ _⟩ => inferInstanceAs (Decidable (id ∉ e.sessions))
  | .recv ⟨_, _, _, .error _⟩ => isTrue trivial
  | .recv ⟨_, _, _, .introduction _⟩ => isTrue trivial
  | .recv ⟨_, _, _, .grant _ _ _⟩ => isTrue trivial
  | .recv ⟨_, _, _, .presence _ _⟩ => isTrue trivial
  | .recv ⟨_, _, _, .session _⟩ => isTrue trivial
  | .advance _ => isTrue trivial
  | .placeCall _ _ => isTrue trivial
  | .introduce _ _ _ _ => isTrue trivial
  | .grant _ _ _ _ _ => isTrue trivial
  | .regrant _ _ _ _ _ => isTrue trivial
  | .rejectIntroduction _ _ => isTrue trivial
  | .revoke _ => isTrue trivial
  | .issueToken _ _ => isTrue trivial
  | .call _ _ => isTrue trivial

theorem perform_waits (h : e.Waits) {event : Event} (hnew : e.NewInvite event)
    (hp : e.perform event = .ok e') : e'.Waits := by
  cases event
  case advance => exact keeps_waits.advance h hp
  case placeCall sid dest =>
    cases hp
    exact placeCall_waits h sid dest
  case recv m =>
    obtain ⟨id, sender, session, body⟩ := m
    replace hp : e.recv ⟨id, sender, session, body⟩ = .ok e' := hp
    unfold recv at hp
    cases body
    case invite dest expiresAt =>
      cases hp
      exact recvInvite_waits (m := ⟨id, sender, session, .invite dest expiresAt⟩) h hnew dest
        expiresAt
    case error =>
      cases hp
      exact recvError_waits h _ _
    case session => exact recvSession_waits h hp
    case presence =>
      obtain ⟨r, -, rfl⟩ := map_ok hp
      exact h.quiet (quiet_contacts e r)
    all_goals
      cases hp
      exact h.quiet (quiet_contacts e _)
  case call sid event =>
    replace hp : e.call sid event = .ok e' := hp
    unfold call at hp
    split at hp
    case h_1 =>
      cases hp
      exact h.quiet (quiet_emit e rfl)
    case h_2 s hs =>
      obtain ⟨rfl, hf⟩ := h.fits hs
      exact h.only (callEvent_did hs hp).only (callEvent_fits hs hf h.bounded.2.2 hp)
  case issueToken =>
    cases hp
    exact h.quiet ⟨rfl, rfl, rfl, rfl, rfl⟩
  case regrant =>
    obtain ⟨r, -, rfl⟩ := map_ok hp
    exact h.quiet (quiet_contacts e r)
  case revoke =>
    obtain ⟨r, -, rfl⟩ := map_ok hp
    exact h.quiet (quiet_contacts e r)
  all_goals
    cases hp
    exact h.quiet (quiet_contacts e _)

theorem waits_new (ctx : Context) : (Endpoint.new ctx).Waits := by
  have hcap : tEstablishBounds.2 ≤ tQueueCap ∧ tRingBounds.2 ≤ tQueueCap ∧
      tRingLocalBounds.2 ≤ tQueueCap := by decide
  refine ⟨?_, ?_, ?_⟩
  · intro sid hmem
    cases hmem
  · intro sid _
    rfl
  · exact ⟨(clamp_le _ (by decide)).trans hcap.1, (clamp_le _ (by decide)).trans hcap.2.1,
      (clamp_le _ (by decide)).trans hcap.2.2⟩

theorem waits_of_run {e₀ : Endpoint} (h₀ : Fresh e₀) {tr : TSys.Trace Event (List Emit)}
    (h : machine.RunWhere (fun _ e event => e.NewInvite event) e₀ tr e) : e.Waits := by
  obtain ⟨ctx, rfl⟩ := h₀
  refine TSys.RunWhere.invariant (P := fun _ e => e.Waits) (waits_new ctx) ?_ h
  intro _ e event out e' _ hw hnew hstep
  obtain ⟨e₁, hperform, heq⟩ := map_ok hstep
  cases heq
  exact perform_waits (e := { e with out := [] }) ⟨hw.held, hw.idle, hw.bounded⟩ hnew hperform

/-- The names of the timers a session has running. -/
def namesOf (e : Endpoint) (sid : String) : List TimerName := (e.timersOf sid).map (·.name)

/-- **Every wait is bounded.** -/
theorem waits_bounded {e₀ : Endpoint} (h₀ : Fresh e₀) {tr : TSys.Trace Event (List Emit)}
    (h : machine.RunWhere (fun _ e event => e.NewInvite event) e₀ tr e) :
    (∀ sid s, e.sessions.lookup sid = some s → Expected s.role s.state (e.namesOf sid)) ∧
    (∀ sid, sid ∉ e.sessions → e.namesOf sid = []) ∧
    (∀ sid, (e.namesOf sid).Nodup) ∧
    ∀ t ∈ e.timers, e.now ≤ t.deadline ∧ t.deadline ≤ e.now + 1800 := by
  have hw := waits_of_run h₀ h
  have hidle : ∀ sid, sid ∉ e.sessions → e.namesOf sid = [] := by
    intro sid hmem
    rw [namesOf, hw.idle sid hmem]
    rfl
  refine ⟨?_, hidle, ?_, ?_⟩
  · intro sid s hs
    exact (hw.fits hs).2.names
  · intro sid
    by_cases hmem : sid ∈ e.sessions
    · obtain ⟨s, hs⟩ := Dict.mem_iff_lookup.mp hmem
      have hlen := (hw.fits hs).2.names.length_le
      rcases hn : e.namesOf sid with _ | ⟨name, _ | ⟨name', names⟩⟩
      · exact List.nodup_nil
      · exact List.nodup_singleton name
      · rw [namesOf] at hn
        rw [hn] at hlen
        simp at hlen
    · rw [hidle sid hmem]
      exact List.nodup_nil
  · intro t ht
    have hmem : t ∈ e.timersOf t.session := by
      rw [timersOf, List.mem_filter]
      exact ⟨ht, by simp⟩
    have hheld : t.session ∈ e.sessions := by
      by_contra hno
      rw [hw.idle _ hno] at hmem
      cases hmem
    obtain ⟨s, hs⟩ := Dict.mem_iff_lookup.mp hheld
    exact (hw.fits hs).2.soon t hmem

/-- A call of ours that rings, and an incoming one that rings here. -/
def twoCalls : List Event :=
  [.placeCall "call-1" "did:bob:1",
    .recv ⟨"msg-1", "did:bob:1", "call-1", .session (.progress "ringing" none none)⟩,
    .recv ⟨"call-2", "did:carol:1", none, .invite "did:alice:1" (some 60)⟩,
    .call "call-2" (.alert (some 45)), .advance 20]

/-- Both calls wait for the timer of their side. -/
theorem waits_bounded_calls : ∃ tr e, machine.RunWhere (fun _ e event => e.NewInvite event)
        (.new { device := "did:alice:1", identity := "did:alice" }) tr e ∧ e.now = 20 ∧
      (e.namesOf "call-1" = [.ring] ∨ e.namesOf "call-1" = [.queue]) ∧
      e.namesOf "call-2" = [.ringLocal] := by
  let p (r : TSys.Trace Event (List Emit) × Endpoint) : Bool :=
    r.2.now = 20 &&
      (r.2.sessions.lookup "call-1").any (fun s => s.role = .initiator ∧ s.state = .proceeding) &&
      (r.2.sessions.lookup "call-2").any (fun s => s.role = .responder ∧ s.state = .alerting)
  obtain ⟨tr, e, hrun, hp⟩ := TSys.exec?_runWhere step (fun _ e event => e.NewInvite event) Fresh
    (.new { device := "did:alice:1", identity := "did:alice" }) twoCalls p (by decide) (by decide)
  simp only [p, Bool.and_eq_true, decide_eq_true_eq, Option.any_eq_true] at hp
  obtain ⟨⟨hnow, s, hs, hr, hst⟩, s', hs', hr', hst'⟩ := hp
  have hwaits := (waits_bounded ⟨_, rfl⟩ hrun).1
  have h₁ := hwaits "call-1" s hs
  have h₂ := hwaits "call-2" s' hs'
  rw [hr, hst] at h₁
  rw [hr', hst'] at h₂
  exact ⟨tr, e, hrun, hnow, h₁, h₂⟩

end Endpoint

end Dsip.Engine
