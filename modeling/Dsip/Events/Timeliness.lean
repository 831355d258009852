import Dsip.Events.Replay

/-!
# The clock of an engine only goes forward

A message that is not authentic leaves the receiver as it is. An authentic one may
set the entry of its engine, and then to boots and a time above what was there
(`Upto`). The gateway's own engine has no entry, and an entry with the last boots
stays the last.
-/

namespace Dsip.Events

open Dsip.Lib

/-- The reasons by which a datagram is refused before its time is looked at. -/
def unauthentic : List String :=
  ["malformed", "unsupported-security-model", "unknown-engine-id", "unknown-user",
    "unsupported-security-level", "wrong-digest"]

/-- The boots and the latest time of an entry are not above another's. -/
def Engine.Upto (e e' : Engine) : Prop := e.boots < e'.boots ∨ e.boots = e'.boots ∧ e.latest ≤ e'.latest

theorem Engine.Upto.refl (e : Engine) : e.Upto e := .inr ⟨rfl, le_refl _⟩

theorem Engine.Upto.trans {e e' e'' : Engine} (h : e.Upto e') (h' : e'.Upto e'') : e.Upto e'' := by
  unfold Engine.Upto at *
  omega

/-- A message of another engine that its entry, if there is one, does not rule out. -/
def UsmReceiver.Timely (rx : UsmReceiver) (m : Message) : Prop :=
  ∀ e, rx.cache.lookup m.engine = some e → e.boots < m.boots ∨ e.boots = m.boots ∧
      (e.latest < m.time ∨ e.time + (rx.now - e.setAt) - 150 ≤ m.time)

/-- A message of the gateway's engine within 150 s of its clock. -/
def UsmReceiver.OwnTimely (rx : UsmReceiver) (m : Message) : Prop :=
  m.boots = rx.ctx.boots ∧ |m.time - rx.localTime| ≤ 150

section Receive

variable {c : Crypto} {rx rx' : UsmReceiver} {b : Bytes} {m : Message}

theorem boots_le_of_parseV3 (h : parseV3 b = some m) : m.boots ≤ max31 := by
  obtain ⟨header, security, isData⟩ := parseV3_eq_some.mp h
  cases security with
  | mk _ _ _ _ _ _ boots_range => exact boots_range.2

theorem deliver_spec {u : User} {privKey : Option Bytes} {r : Result} (h : rx.deliver c m u privKey = .ok r) :
    (∃ reason, r = .refused reason false ∧ reason ∉ unauthentic) ∨
      ∃ trap, r = .accepted trap ∧ trap.engineId = m.engine := by
  unfold UsmReceiver.deliver at h
  cases hpdu : UsmReceiver.pduOf c m privKey with
  | error e => rw [hpdu] at h; cases h
  | ok pdu =>
    rw [hpdu] at h
    cases pdu with
    | none =>
      cases h
      exact .inl ⟨_, rfl, by decide⟩
    | some pdu =>
      dsimp only [bind, Except.bind] at h
      split at h
      case isTrue =>
        cases h
        exact .inl ⟨_, rfl, by decide⟩
      case isFalse =>
        split at h
        case isTrue =>
          cases h
          exact .inl ⟨_, rfl, by decide⟩
        case isFalse =>
          cases h
          exact .inr ⟨_, rfl, rfl⟩

/-- What is not authentic leaves the receiver as it is. Else the message is one of
its engine, which sets the entry of another engine than the gateway's. -/
theorem receive_spec {r : Result} (h : rx.receive c b = .ok (rx', r)) :
    rx' = rx ∧ (∃ reason report, r = .refused reason report) ∨
      ∃ m, Authentic c rx.ctx b m ∧ (∀ reason report, r = .refused reason report → reason ∉ unauthentic) ∧
        (∀ trap, r = .accepted trap → trap.engineId = m.engine) ∧
          (m.engine = rx.ctx.engine ∧ rx' = rx ∧ (∀ trap, r = .accepted trap → rx.inOwnWindow m = true) ∨
            m.engine ≠ rx.ctx.engine ∧ rx' = { rx with cache := rx.cache.insert m.engine (rx.entry m) } ∧
              ∀ trap, r = .accepted trap → rx.inWindow m (rx.entry m) = true) := by
  unfold UsmReceiver.receive at h
  cases ha : rx.authenticate c b with
  | error e => rw [ha] at h; cases h
  | ok a =>
    rw [ha] at h
    rcases authenticate_spec ha with ⟨reason, report, rfl, -⟩ | ⟨m, u, privKey, rfl, hauth⟩
    · cases h
      exact .inl ⟨rfl, reason, report, rfl⟩
    · refine .inr ⟨m, hauth, ?_⟩
      dsimp only [bind, Except.bind] at h
      -- What a delivered message has, whichever receiver delivers it.
      have hdelivered {rx : UsmReceiver} {r : Result} (hr : rx.deliver c m u privKey = .ok r) :
          (∀ reason report, r = .refused reason report → reason ∉ unauthentic) ∧
            ∀ trap, r = .accepted trap → trap.engineId = m.engine := by
        rcases deliver_spec hr with ⟨reason, rfl, hreason⟩ | ⟨trap, rfl, hengine⟩
        · refine ⟨?_, nofun⟩
          rintro _ _ ⟨⟩
          exact hreason
        · refine ⟨nofun, ?_⟩
          rintro _ ⟨⟩
          exact hengine
      split at h
      case isTrue hown =>
        split at h
        case isTrue hwindow =>
          cases hr : rx.deliver c m u privKey with
          | error e => rw [hr] at h; cases h
          | ok r =>
            rw [hr] at h
            cases h
            obtain ⟨hreason, hengine⟩ := hdelivered hr
            exact ⟨hreason, hengine, .inl ⟨hown, rfl, fun _ _ => hwindow⟩⟩
        case isFalse =>
          cases h
          refine ⟨?_, nofun, .inl ⟨hown, rfl, nofun⟩⟩
          rintro _ _ ⟨⟩
          decide
      case isFalse hother =>
        split at h
        case isTrue hwindow =>
          cases hr : UsmReceiver.deliver c
              { rx with cache := rx.cache.insert m.engine (rx.entry m) } m u privKey with
          | error e => rw [hr] at h; cases h
          | ok r =>
            rw [hr] at h
            cases h
            obtain ⟨hreason, hengine⟩ := hdelivered hr
            exact ⟨hreason, hengine, .inr ⟨hother, rfl, fun _ _ => hwindow⟩⟩
        case isFalse =>
          cases h
          refine ⟨?_, nofun, .inr ⟨hother, rfl, nofun⟩⟩
          rintro _ _ ⟨⟩
          decide

end Receive

/-! ## Entries -/

section Entries

variable {c : Crypto} {ctx : Context} {rx rx' : UsmReceiver} {i : Event} {o : Option Result}
  {m : Message} {e : Engine} {engine : Bytes}

theorem upto_entry (h : rx.cache.lookup m.engine = some e) : e.Upto (rx.entry m) := by
  rcases entry_cases rx m with ⟨e', h', -, heq⟩ | ⟨hnew, heq⟩
  · obtain rfl := Option.some.inj (h.symm.trans h')
    rw [heq]
    exact .refl e
  · have hnewer := hnew e h
    rw [heq]
    unfold Engine.Covers at hnewer
    unfold Engine.Upto
    dsimp only
    omega

theorem upto_step (hs : Clocked c rx i o rx') (h : rx.cache.lookup engine = some e) :
    ∃ e', rx'.cache.lookup engine = some e' ∧ e.Upto e' := by
  cases hs with
  | advance n => exact ⟨e, h, .refl e⟩
  | ignored => exact ⟨e, h, .refl e⟩
  | own => exact ⟨e, h, .refl e⟩
  | other b m r hauth hother =>
    rw [Dict.lookup_insert_eq]
    by_cases hsame : engine = m.engine
    case pos =>
      subst hsame
      rw [if_pos rfl]
      exact ⟨_, rfl, upto_entry h⟩
    case neg =>
      rw [if_neg hsame]
      exact ⟨e, h, .refl e⟩

theorem upto_run {tr : Trace} (hrun : (clocked c ctx).Run rx tr rx') (h : rx.cache.lookup engine = some e) :
    ∃ e', rx'.cache.lookup engine = some e' ∧ e.Upto e' := by
  induction hrun with
  | nil => exact ⟨e, h, .refl e⟩
  | snoc _ _ hs ih =>
    obtain ⟨e', he', hle⟩ := ih
    obtain ⟨e'', he'', hle'⟩ := upto_step hs he'
    exact ⟨e'', he'', hle.trans hle'⟩

/-- What every step keeps: the context, no entry of the gateway's engine, and each
entry with its time as it was set. -/
structure Entered (ctx : Context) (rx : UsmReceiver) : Prop where
  same : rx.ctx = ctx
  own : rx.cache.lookup ctx.engine = none
  time : ∀ engine e, rx.cache.lookup engine = some e → e.time = e.latest ∧ e.boots ≤ max31

theorem entered_inductive : (clocked c ctx).Inductive (Entered ctx) where
  init := by
    rintro _ rfl
    exact ⟨rfl, rfl, nofun⟩
  step := by
    intro rx i o rx' h hs
    cases hs with
    | advance n => exact ⟨h.same, h.own, h.time⟩
    | ignored => exact h
    | own => exact h
    | other b m r hauth hother =>
      rw [h.same] at hother
      refine ⟨h.same, ?_, ?_⟩
      · rw [Dict.lookup_insert_eq, if_neg (Ne.symm hother)]
        exact h.own
      · intro engine e he
        rw [Dict.lookup_insert_eq] at he
        split at he
        case isFalse => exact h.time engine e he
        case isTrue =>
          cases he
          rcases entry_cases rx m with ⟨e, hlookup, -, heq⟩ | ⟨-, heq⟩
          · rw [heq]
            exact h.time _ _ hlookup
          · rw [heq]
            exact ⟨rfl, boots_le_of_parseV3 hauth.parsed⟩

theorem reachable_entered (h : (UsmReceiver.machine c ctx).Reachable rx) : Entered ctx rx := by
  obtain ⟨rx₀, tr, rfl, hrun⟩ := h.exists_run
  exact entered_inductive.invariant rx ((run_clocked hrun).reachable (.init rfl))

theorem timely_of_inWindow (h : rx.inWindow m (rx.entry m) = true) : rx.Timely m := by
  intro e he
  unfold UsmReceiver.inWindow window at h
  rw [decide_eq_true_eq] at h
  rcases entry_cases rx m with ⟨e', he', -, heq⟩ | ⟨hnew, -⟩
  · obtain rfl := Option.some.inj (he.symm.trans he')
    rw [heq] at h
    omega
  · have hnewer := hnew e he
    unfold Engine.Covers at hnewer
    omega

theorem not_inWindow (hm : m.boots ≤ max31) (he : rx.cache.lookup m.engine = some e)
    (hlast : e.boots = max31) : rx.inWindow m (rx.entry m) = false := by
  have hboots : (rx.entry m).boots = max31 ∨ m.boots < (rx.entry m).boots := by
    have hcovers := entry_covers rx m
    have hupto := upto_entry he
    unfold Engine.Upto at hupto
    unfold Engine.Covers at hcovers
    omega
  unfold UsmReceiver.inWindow
  rw [decide_eq_false_iff_not, not_not]
  exact hboots.imp_right .inl

end Entries

/-! ## Runs -/

section Runs

variable {c : Crypto} {ctx : Context} {rx rx' : UsmReceiver} {engine : Bytes} {e : Engine} {tr : Trace}

theorem receive_of_step {b : Bytes} {r : Result} (h : UsmReceiver.step c rx (.receive b) = .ok (rx', some r)) :
    rx.receive c b = .ok (rx', r) := by
  unfold UsmReceiver.step at h
  dsimp only at h
  cases hr : rx.receive c b with
  | error fault => rw [hr] at h; cases h
  | ok p => rw [hr] at h; cases h; rfl

theorem not_accepted_last (h : (UsmReceiver.machine c ctx).Reachable rx)
    (hrun : (UsmReceiver.machine c ctx).Run rx tr rx') (he : rx.cache.lookup engine = some e)
    (hlast : e.boots = max31) {b : Bytes} {trap : Trap}
    (hmem : (Event.receive b, some (Result.accepted trap)) ∈ tr) : trap.engineId ≠ engine := by
  rintro rfl
  obtain ⟨tr₁, tr₂, rfl⟩ := List.append_of_mem hmem
  obtain ⟨s, hrun₁, hrest⟩ := TSys.Run.split hrun
  obtain ⟨s', hs, -⟩ := TSys.Run.uncons hrest
  have hentered := reachable_entered (hrun₁.reachable h)
  obtain ⟨e', he', hupto⟩ := upto_run (run_clocked hrun₁) he
  have hboots : e'.boots = max31 := by
    have hle := (hentered.time _ _ he').2
    unfold Engine.Upto at hupto
    omega
  rcases receive_spec (receive_of_step hs) with ⟨-, reason, report, heq⟩ | ⟨m, hauth, -, hengine, hcases⟩
  · cases heq
  · rw [hengine trap rfl] at he'
    rcases hcases with ⟨hown, -⟩ | ⟨-, -, hwindow⟩
    · rw [hown, hentered.same, hentered.own] at he'
      cases he'
    · have hin := hwindow trap rfl
      rw [not_inWindow (boots_le_of_parseV3 hauth.parsed) he' hboots] at hin
      cases hin

end Runs

/-- Only authentic messages set an entry, and to no less than it was; what is
accepted was timely; and the last boots are the end of an engine. -/
theorem clock_forwards (c : Crypto) (ctx : Context) :
    (∀ (rx rx' : UsmReceiver) (b : Bytes) (reason : String) (report : Bool),
        rx.receive c b = .ok (rx', .refused reason report) → reason ∈ unauthentic → rx' = rx) ∧
      (∀ (rx rx' : UsmReceiver) (b : Bytes) (r : Result), rx.receive c b = .ok (rx', r) → rx' ≠ rx →
        ∃ m, Authentic c rx.ctx b m ∧ m.engine ≠ rx.ctx.engine) ∧
      (∀ (rx rx' : UsmReceiver) (tr : Trace), (UsmReceiver.machine c ctx).Run rx tr rx' →
        ∀ engine e, rx.cache.lookup engine = some e → ∃ e', rx'.cache.lookup engine = some e' ∧ e.Upto e') ∧
      (∀ rx : UsmReceiver, (UsmReceiver.machine c ctx).Reachable rx → rx.cache.lookup ctx.engine = none ∧
          ∀ engine e, rx.cache.lookup engine = some e → e.time = e.latest) ∧
      (∀ (rx rx' : UsmReceiver) (b : Bytes) (trap : Trap), rx.receive c b = .ok (rx', .accepted trap) →
        ∃ m, Authentic c rx.ctx b m ∧ trap.engineId = m.engine ∧
          (m.engine = rx.ctx.engine ∧ rx.OwnTimely m ∨ m.engine ≠ rx.ctx.engine ∧ rx.Timely m)) ∧
      ∀ (rx rx' : UsmReceiver) (tr : Trace) (engine : Bytes) (e : Engine),
        (UsmReceiver.machine c ctx).Reachable rx → (UsmReceiver.machine c ctx).Run rx tr rx' →
          rx.cache.lookup engine = some e → e.boots = max31 →
            ∀ b trap, (.receive b, some (.accepted trap)) ∈ tr → trap.engineId ≠ engine := by
  refine ⟨?_, ?_, ?_, ?_, ?_, ?_⟩
  · intro rx rx' b reason report h hmem
    rcases receive_spec h with ⟨hsame, -⟩ | ⟨m, -, hreason, -⟩
    · exact hsame
    · exact absurd hmem (hreason reason report rfl)
  · intro rx rx' b r h hne
    rcases receive_spec h with ⟨hsame, -⟩ | ⟨m, hauth, -, -, ⟨-, hsame, -⟩ | ⟨hother, -⟩⟩
    · exact absurd hsame hne
    · exact absurd hsame hne
    · exact ⟨m, hauth, hother⟩
  · exact fun rx rx' tr hrun engine e he => upto_run (run_clocked hrun) he
  · intro rx h
    have hentered := reachable_entered h
    exact ⟨hentered.own, fun engine e he => (hentered.time engine e he).1⟩
  · intro rx rx' b trap h
    rcases receive_spec h with ⟨-, reason, report, heq⟩ | ⟨m, hauth, -, hengine, hcases⟩
    · cases heq
    · refine ⟨m, hauth, hengine trap rfl, hcases.imp ?_ ?_⟩
      · rintro ⟨hown, -, hwindow⟩
        have hin := hwindow trap rfl
        unfold UsmReceiver.inOwnWindow window at hin
        rw [decide_eq_true_eq] at hin
        refine ⟨hown, ?_, ?_⟩
        · exact not_not.mp fun hboots => hin (.inr (.inl hboots))
        · exact not_lt.mp fun hlate => hin (.inr (.inr hlate))
      · rintro ⟨hother, -, hwindow⟩
        exact ⟨hother, timely_of_inWindow (hwindow trap rfl)⟩
  · exact fun rx rx' tr engine e h hrun he hlast b trap hmem => not_accepted_last h hrun he hlast hmem

/-- A trap like `trap1000` with the last boots, with this digest. -/
def lastTrapWith (digest : Bytes) : Bytes :=
  [0x30, 0x52, 0x02, 0x01, 0x03, 0x30, 0x0d, 0x02, 0x01, 0x01, 0x02, 0x02, 0x05, 0xdc, 0x04, 0x01,
    0x01, 0x02, 0x01, 0x03, 0x04, 0x26, 0x30, 0x24, 0x04, 0x05, 0x80, 0x00, 0x00, 0x00, 0x02, 0x02,
    0x04, 0x7f, 0xff, 0xff, 0xff, 0x02, 0x02, 0x03, 0xe8, 0x04, 0x01, 0x75, 0x04, 0x0c] ++ digest ++
  [0x04, 0x00, 0x30, 0x16, 0x04, 0x05, 0x80, 0x00, 0x00, 0x00, 0x02, 0x04, 0x00, 0xa7, 0x0b, 0x02,
    0x01, 0x01, 0x02, 0x01, 0x00, 0x02, 0x01, 0x00, 0x30, 0x00]

def lastTrap : Bytes := lastTrapWith [0x92, 0x3c, 0x67, 0x80, 0x9d, 0xaa, 0x3c, 0x53, 0x7e, 0x36, 0xd1, 0x4e]

/-- HMAC-MD5 where it is asked of this trap too. -/
def lastCrypto : Crypto where
  hash _ _ := []
  hmac auth key data :=
    if data = lastTrapWith (List.replicate 12 0) then
      [0x92, 0x3c, 0x67, 0x80, 0x9d, 0xaa, 0x3c, 0x53, 0x7e, 0x36, 0xd1, 0x4e]
    else trapCrypto.hmac auth key data
  decrypt _ _ data := data

/-- The collector with an entry of the traps' engine. -/
def caching (boots : Int) : UsmReceiver :=
  { UsmReceiver.new collector with
    cache := (∅ : Dict Bytes Engine).insert [0x80, 0x00, 0x00, 0x00, 0x02]
      { boots := boots, time := 1000, latest := 1000, setAt := 0 } }

theorem receive_trap1000 :
    (UsmReceiver.new collector).receive lastCrypto trap1000 = .ok (caching 1, .accepted engineTrap) := by
  rfl

theorem receive_lastTrap : (caching 1).receive lastCrypto lastTrap =
      .ok (caching max31, .refused "not-in-time-window" false) := by
  rfl

theorem receive_lastTrap_again : (caching max31).receive lastCrypto lastTrap =
      .ok (caching max31, .refused "not-in-time-window" false) := by
  rfl

theorem clock_forwards_last : (UsmReceiver.new collector).receive lastCrypto [] =
        .ok (UsmReceiver.new collector, .refused "malformed" false) ∧
      (∃ m, Authentic lastCrypto collector trap1000 m ∧ engineTrap.engineId = m.engine ∧
        (m.engine = collector.engine ∧ (UsmReceiver.new collector).OwnTimely m ∨
          m.engine ≠ collector.engine ∧ (UsmReceiver.new collector).Timely m)) ∧
      (∃ e, (caching max31).cache.lookup engineTrap.engineId = some e ∧
        Engine.Upto { boots := 1, time := 1000, latest := 1000, setAt := 0 } e) ∧
      (caching max31).cache.lookup collector.engine = none ∧
      ∀ b trap, (.receive b, some (.accepted trap)) ∈
        [(Event.receive lastTrap, some (Result.refused "not-in-time-window" false))] →
          trap.engineId ≠ engineTrap.engineId := by
  obtain ⟨hfrozen, -, hupto, hentered, haccepted, hlast⟩ := clock_forwards lastCrypto collector
  have hstep (rx rx' : UsmReceiver) {b : Bytes} {r : Result} (h : rx.receive lastCrypto b = .ok (rx', r)) :
      (UsmReceiver.machine lastCrypto collector).Run rx [(.receive b, some r)] rx' := by
    refine TSys.Run.extend (.nil : (UsmReceiver.machine lastCrypto collector).Run rx [] rx) ?_
    change UsmReceiver.step lastCrypto rx (.receive b) = _
    unfold UsmReceiver.step
    dsimp only
    rw [h]
    rfl
  have hfirst := hstep _ _ receive_trap1000
  have hsecond := hstep _ _ receive_lastTrap
  have hreach := hsecond.reachable (hfirst.reachable (.init rfl))
  refine ⟨?_, haccepted _ _ _ _ receive_trap1000, ?_, (hentered _ hreach).1, ?_⟩
  · have h : (UsmReceiver.new collector).receive lastCrypto [] =
        .ok (UsmReceiver.new collector, .refused "malformed" false) := rfl
    rwa [hfrozen _ _ _ _ _ h (by decide)] at h
  · exact hupto _ _ _ hsecond _ _ rfl
  · exact hlast _ _ _ _ _ hreach (hstep _ _ receive_lastTrap_again) rfl rfl

end Dsip.Events
