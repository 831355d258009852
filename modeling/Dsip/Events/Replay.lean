import Dsip.Events.Window

/-!
# How long a notification can be replayed

An accepted datagram is accepted again as long as its time is in the window.
For the gateway's own engine the window is 150 s to either side, so that a
message from the future has 300 s. For another engine the window lies below the
cached time, and the cached time starts anew with every message that has a later
time, however late it comes. `replayed_late` has a run of each kind,
`replay_bounded` says that there is nothing else.

`Clocks` holds after every step: the cache covers every message received
(`covers`). From the first acceptance on, `Since` says when the cached time was
last set.
-/

namespace Dsip.Events

open Dsip.Lib

abbrev Trace := TSys.Trace Event (Option Result)

def Event.Forward : Event → Prop
  | .receive _ => True
  | .advance n => 0 ≤ n

/-- The seconds that pass in a trace. -/
def elapsed : Trace → Int
  | [] => 0
  | (.receive _, _) :: tr => elapsed tr
  | (.advance n, _) :: tr => n + elapsed tr

@[simp] theorem elapsed_append (tr₁ tr₂ : Trace) : elapsed (tr₁ ++ tr₂) = elapsed tr₁ + elapsed tr₂ := by
  induction tr₁ with
  | nil => simp [elapsed]
  | cons e tr₁ ih =>
    obtain ⟨i, o⟩ := e
    cases i with
    | receive b => exact ih
    | advance n =>
      simp only [List.cons_append, elapsed, ih]
      ring

/-- A message of another engine that the cached boots and time reach. -/
def Engine.Covers (e : Engine) (m : Message) : Prop :=
  m.boots < e.boots ∨ m.boots = e.boots ∧ m.time ≤ e.latest

theorem covers_iff {e : Engine} {m : Message} : e.Covers m ↔ UsmReceiver.isNewer m e = false := by
  unfold Engine.Covers UsmReceiver.isNewer
  rw [decide_eq_false_iff_not]
  omega

section Entry

variable {rx : UsmReceiver} {m : Message}

theorem entry_of_covers {e : Engine} (h : rx.cache.lookup m.engine = some e) (hcovers : e.Covers m) :
    rx.entry m = e := by
  unfold UsmReceiver.entry
  rw [h, Option.filter, covers_iff.mp hcovers]
  rfl

/-- The entry is as it was, and covers the message, or it is the message's, which
no entry covered. -/
theorem entry_cases (rx : UsmReceiver) (m : Message) :
    (∃ e, rx.cache.lookup m.engine = some e ∧ e.Covers m ∧ rx.entry m = e) ∨
      (∀ e, rx.cache.lookup m.engine = some e → ¬ e.Covers m) ∧
        rx.entry m = { boots := m.boots, time := m.time, latest := m.time, setAt := rx.now } := by
  cases h : rx.cache.lookup m.engine with
  | none =>
    refine .inr ⟨nofun, ?_⟩
    unfold UsmReceiver.entry
    rw [h]
    rfl
  | some e =>
    by_cases hcovers : e.Covers m
    case pos => exact .inl ⟨e, rfl, hcovers, entry_of_covers h hcovers⟩
    case neg =>
      refine .inr ⟨?_, ?_⟩
      · rintro _ ⟨⟩
        exact hcovers
      · have hnewer : UsmReceiver.isNewer m e = true := by
          rw [covers_iff] at hcovers
          exact eq_true_of_ne_false hcovers
        unfold UsmReceiver.entry
        rw [h, Option.filter, hnewer]
        rfl

theorem entry_covers (rx : UsmReceiver) (m : Message) : (rx.entry m).Covers m := by
  rcases entry_cases rx m with ⟨e, -, hcovers, heq⟩ | ⟨-, heq⟩
  · rw [heq]
    exact hcovers
  · rw [heq]
    exact .inr ⟨rfl, le_refl _⟩

theorem entry_covers_of {e : Engine} {m' : Message} (h : rx.cache.lookup m.engine = some e)
    (hcovers : e.Covers m') : (rx.entry m).Covers m' := by
  rcases entry_cases rx m with ⟨e', h', -, heq⟩ | ⟨hnew, heq⟩
  · obtain rfl := Option.some.inj (h.symm.trans h')
    rw [heq]
    exact hcovers
  · have hnewer := hnew e h
    rw [heq]
    unfold Engine.Covers at *
    dsimp only
    omega

end Entry

/-! ## The cache after a trace -/

/-- What holds of a receiver after a trace. -/
structure Clocks (c : Crypto) (ctx : Context) (tr : Trace) (rx : UsmReceiver) : Prop where
  same : rx.ctx = ctx
  covers : ∀ b o m, (.receive b, o) ∈ tr → Authentic c ctx b m → m.engine ≠ ctx.engine →
    ∃ e, rx.cache.lookup m.engine = some e ∧ e.Covers m
  entries : ∀ engine e, rx.cache.lookup engine = some e → e.time = e.latest ∧ e.setAt ≤ rx.now

variable {c : Crypto} {ctx : Context} {tr : Trace} {rx rx' : UsmReceiver} {i : Event}
  {o : Option Result}

theorem clocks_new (c : Crypto) (ctx : Context) : Clocks c ctx [] (.new ctx) where
  same := rfl
  covers _ _ _ h := absurd h List.not_mem_nil
  entries engine e h := by cases h

theorem Clocks.step (h : Clocks c ctx tr rx) (hforward : i.Forward) (hs : Clocked c rx i o rx') :
    Clocks c ctx (tr ++ [(i, o)]) rx' := by
  have hold {b : Bytes} {o' : Option Result}
      (hmem : (Event.receive b, o') ∈ tr ++ [(i, o)]) (hne : i ≠ .receive b) :
      (Event.receive b, o') ∈ tr := by
    rcases List.mem_append.mp hmem with hmem | hmem
    · exact hmem
    · cases List.mem_singleton.mp hmem
      exact absurd rfl hne
  cases hs with
  | advance n =>
    refine ⟨h.same, fun b o m hmem => h.covers b o m (hold hmem nofun), fun engine e he => ?_⟩
    obtain ⟨htime, hset⟩ := h.entries engine e he
    exact ⟨htime, hset.trans (le_add_of_nonneg_right hforward)⟩
  | ignored b reason report hnone =>
    refine ⟨h.same, fun b' o m hmem hauth => ?_, h.entries⟩
    refine h.covers b' o m (hold hmem ?_) hauth
    rintro ⟨⟩
    exact hnone m (h.same ▸ hauth)
  | own b m r hauth hown =>
    refine ⟨h.same, fun b' o m' hmem hauth' hother => ?_, h.entries⟩
    refine h.covers b' o m' (hold hmem ?_) hauth' hother
    rintro ⟨⟩
    obtain rfl := hauth'.unique (h.same ▸ hauth)
    exact hother (h.same ▸ hown)
  | other b m r hauth hother =>
    rw [h.same] at hauth hother
    refine ⟨h.same, fun b' o m' hmem hauth' hother' => ?_, fun engine e he => ?_⟩
    · dsimp only
      rw [Dict.lookup_insert_eq]
      rcases List.mem_append.mp hmem with hmem | hmem
      · obtain ⟨e, hlookup, hcovers⟩ := h.covers b' o m' hmem hauth' hother'
        split
        case isTrue hsame => exact ⟨_, rfl, entry_covers_of (hsame ▸ hlookup) hcovers⟩
        case isFalse => exact ⟨e, hlookup, hcovers⟩
      · cases List.mem_singleton.mp hmem
        obtain rfl := hauth'.unique hauth
        exact ⟨_, if_pos rfl, entry_covers rx m'⟩
    · dsimp only at he
      rw [Dict.lookup_insert_eq] at he
      split at he
      case isTrue => 
        cases he
        rcases entry_cases rx m with ⟨e, hlookup, -, heq⟩ | ⟨-, heq⟩
        · rw [heq]
          exact h.entries _ _ hlookup
        · rw [heq]
          exact ⟨rfl, le_refl _⟩
      case isFalse => exact h.entries _ _ he

/-! ## Since an acceptance -/

/-- After a trace a datagram sets the cached time of a message's engine anew: it
has the same boots, and a later time than all that came before it. -/
def SetsTime (c : Crypto) (ctx : Context) (tr : Trace) (m : Message) (b : Bytes) : Prop :=
  ∃ m', Authentic c ctx b m' ∧ m'.engine = m.engine ∧ m'.boots = m.boots ∧
    ∀ b₀ o m₀, (.receive b₀, o) ∈ tr → Authentic c ctx b₀ m₀ → m₀.engine = m.engine →
      m₀.boots = m.boots → m₀.time < m'.time

/-- Since the trace `tr₁`, which ended at `now`, the trace `tr` has run. -/
structure Since (c : Crypto) (ctx : Context) (m : Message) (tr₁ : Trace) (now : Int) (tr : Trace)
    (rx : UsmReceiver) : Prop where
  clocks : Clocks c ctx (tr₁ ++ tr) rx
  now_eq : rx.now = now + elapsed tr
  lastSet : ∀ e, rx.cache.lookup m.engine = some e → e.boots = m.boots →
    e.setAt ≤ now ∨ ∃ tr₂ b o tr₃, tr = tr₂ ++ (.receive b, o) :: tr₃ ∧
      SetsTime c ctx (tr₁ ++ tr₂) m b ∧ e.setAt = rx.now - elapsed tr₃

variable {m : Message} {tr₁ : Trace} {now : Int}

theorem Since.step (h : Since c ctx m tr₁ now tr rx) (hm : m.engine ≠ ctx.engine)
    (hforward : i.Forward) (hs : Clocked c rx i o rx') : Since c ctx m tr₁ now (tr ++ [(i, o)]) rx' := by
  have hclocks := h.clocks.step hforward hs
  rw [List.append_assoc] at hclocks
  have hpassed : rx'.now = rx.now + elapsed [(i, o)] := by
    cases hs <;> simp [elapsed]
  have hnow : rx'.now = now + elapsed (tr ++ [(i, o)]) := by
    rw [hpassed, h.now_eq, elapsed_append, add_assoc]
  -- An entry that stays was set when it was.
  have hcarry {e : Engine} (he : rx.cache.lookup m.engine = some e) (hboots : e.boots = m.boots) :
      e.setAt ≤ now ∨ ∃ tr₂ b o' tr₃, tr ++ [(i, o)] = tr₂ ++ (.receive b, o') :: tr₃ ∧
        SetsTime c ctx (tr₁ ++ tr₂) m b ∧ e.setAt = rx'.now - elapsed tr₃ := by
    rcases h.lastSet e he hboots with hold | ⟨tr₂, b, o', tr₃, rfl, hsets, hset⟩
    · exact .inl hold
    · refine .inr ⟨tr₂, b, o', tr₃ ++ [(i, o)], by simp, hsets, ?_⟩
      rw [hset, hpassed, elapsed_append]
      ring
  refine ⟨hclocks, hnow, ?_⟩
  cases hs with
  | advance n => exact fun e he => hcarry he
  | ignored => exact fun e he => hcarry he
  | own => exact fun e he => hcarry he
  | other b m' r hauth hother =>
    rw [h.clocks.same] at hauth hother
    intro e he hboots
    dsimp only at he
    rw [Dict.lookup_insert_eq] at he
    split at he
    case isFalse => exact hcarry he hboots
    case isTrue hsame =>
      cases he
      rcases entry_cases rx m' with ⟨e, hlookup, -, heq⟩ | ⟨hnew, heq⟩
      · rw [heq] at hboots ⊢
        exact hcarry (hsame ▸ hlookup) hboots
      · rw [heq] at hboots ⊢
        refine .inr ⟨tr, b, some r, [], rfl, ⟨m', hauth, hsame.symm, hboots, ?_⟩, by simp [elapsed]⟩
        intro b₀ o₀ m₀ hmem hauth₀ hengine hboots₀
        obtain ⟨e, hlookup, hcovers⟩ := h.clocks.covers b₀ o₀ m₀ hmem hauth₀ (hengine ▸ hm)
        rw [hengine, hsame] at hlookup
        have hnewer := hnew e hlookup
        dsimp only at hboots
        unfold Engine.Covers at hcovers hnewer
        omega

/-! ## Runs -/

/-- The runs of the steps that a receiver of either implementation can make. -/
def clocked (c : Crypto) (ctx : Context) : TSys UsmReceiver Event (Option Result) where
  init := (· = .new ctx)
  step rx i o rx' := Clocked c rx i o rx'

theorem run_clocked (h : (UsmReceiver.machine c ctx).Run rx tr rx') : (clocked c ctx).Run rx tr rx' := by
  induction h with
  | nil => exact .nil
  | snoc _ _ hs ih => exact TSys.Run.extend ih (step_clocked hs)

theorem run_ts_clocked {ts ts' : Ts.UsmReceiver} (h : (Ts.UsmReceiver.machine c ctx).Run ts tr ts') :
    (clocked c ctx).Run (toPy ts) tr (toPy ts') := by
  induction h with
  | nil => exact .nil
  | snoc _ _ hs ih => exact TSys.Run.extend ih (step_ts_clocked hs)

theorem run_now (h : (clocked c ctx).Run rx tr rx') : rx'.now = rx.now + elapsed tr ∧ rx'.ctx = rx.ctx := by
  induction h with
  | nil => simp [elapsed]
  | snoc _ _ hs ih =>
    obtain ⟨hnow, hctx⟩ := ih
    rw [elapsed_append, ← add_assoc, ← hnow]
    cases hs <;> exact ⟨by simp [elapsed], hctx⟩

theorem clocks_run (hforward : ∀ e ∈ tr, e.1.Forward) (h : (clocked c ctx).Run (.new ctx) tr rx) :
    Clocks c ctx tr rx := by
  induction h with
  | nil => exact clocks_new c ctx
  | snoc _ _ hs ih =>
    refine (ih fun e he => hforward e (List.mem_append_left _ he)).step ?_ hs
    exact hforward _ (List.mem_append_right _ (List.mem_singleton_self _))

theorem since_run (hm : m.engine ≠ ctx.engine) (hforward : ∀ e ∈ tr, e.1.Forward)
    (h₀ : Clocks c ctx tr₁ rx) (h : (clocked c ctx).Run rx tr rx') : Since c ctx m tr₁ rx.now tr rx' := by
  induction h with
  | nil =>
    refine ⟨by simpa using h₀, by simp [elapsed], fun e he _ => .inl (h₀.entries _ e he).2⟩
  | snoc _ _ hs ih =>
    refine (ih fun e he => hforward e (List.mem_append_left _ he)).step hm ?_ hs
    exact hforward _ (List.mem_append_right _ (List.mem_singleton_self _))

/-- A datagram is accepted again after `tr₂` only in the window: 300 s for the
gateway's own engine; for another 150 s from when it was first accepted, or from
when a later time of that engine was received. -/
def ReplayBound (c : Crypto) (ctx : Context) (b : Bytes) (tr₁ tr₂ : Trace) : Prop :=
  ∃ m, Authentic c ctx b m ∧ ((m.engine = ctx.engine ∧ elapsed tr₂ ≤ 300) ∨
      (m.engine ≠ ctx.engine ∧ (elapsed tr₂ ≤ 150 ∨ ∃ tr₃ b' o tr₄, tr₂ = tr₃ ++ (.receive b', o) :: tr₄ ∧
          SetsTime c ctx (tr₁ ++ tr₃) m b' ∧ elapsed tr₄ ≤ 150)))

theorem accepted_cases {b : Bytes} {trap : Trap} (h : Clocked c rx (.receive b) (some (.accepted trap)) rx') :
    ∃ m, Authentic c rx.ctx b m ∧ rx'.now = rx.now ∧ rx'.ctx = rx.ctx ∧
      ((m.engine = rx.ctx.engine ∧ rx.inOwnWindow m = true) ∨
        (m.engine ≠ rx.ctx.engine ∧ rx.inWindow m (rx.entry m) = true)) := by
  cases h with
  | own b m r hauth hown hwindow => exact ⟨m, hauth, rfl, rfl, .inl ⟨hown, hwindow trap rfl⟩⟩
  | other b m r hauth hother hwindow => exact ⟨m, hauth, rfl, rfl, .inr ⟨hother, hwindow trap rfl⟩⟩

theorem clocked_bounded {b : Bytes} {tr₂ : Trace} {trap trap' : Trap}
    (hforward : ∀ e ∈ tr₁ ++ (.receive b, some (.accepted trap)) :: (tr₂ ++ [(.receive b, some (.accepted trap'))]),
      e.1.Forward)
    (h : (clocked c ctx).Run (.new ctx)
      (tr₁ ++ (.receive b, some (.accepted trap)) :: (tr₂ ++ [(.receive b, some (.accepted trap'))])) rx) :
    ReplayBound c ctx b (tr₁ ++ [(.receive b, some (.accepted trap))]) tr₂ := by
  obtain ⟨s₀, hrun₁, hrest⟩ := TSys.Run.split h
  obtain ⟨s₁, hfirst, hrest⟩ := TSys.Run.uncons hrest
  obtain ⟨s₂, hrun₂, hrest⟩ := TSys.Run.split hrest
  obtain ⟨s₃, hsecond, -⟩ := TSys.Run.uncons hrest
  have hclocks₀ : Clocks c ctx tr₁ s₀ := clocks_run (fun e he => hforward e (List.mem_append_left _ he)) hrun₁
  have hreceive : Event.Forward (.receive b) := trivial
  have hclocks := hclocks₀.step hreceive hfirst
  have hforward₂ : ∀ e ∈ tr₂, e.1.Forward := fun e he => hforward e (by simp [he])
  obtain ⟨m, hauth, hnow, hctx, hwindow⟩ := accepted_cases hfirst
  obtain ⟨m', hauth', -, -, hwindow'⟩ := accepted_cases hsecond
  obtain ⟨hnow₂, hctx₂⟩ := run_now hrun₂
  rw [hctx₂, hctx] at hauth' hwindow'
  obtain rfl := hauth'.unique hauth
  rw [hclocks₀.same] at hauth hwindow hwindow'
  refine ⟨m', hauth, ?_⟩
  by_cases hown : m'.engine = ctx.engine
  case pos =>
    have hfirstIn := (hwindow.resolve_right fun h => h.1 hown).2
    have hsecondIn := (hwindow'.resolve_right fun h => h.1 hown).2
    refine .inl ⟨hown, ?_⟩
    unfold UsmReceiver.inOwnWindow UsmReceiver.localTime window at hfirstIn hsecondIn
    rw [decide_eq_true_eq, hctx₂, hctx, hnow₂, hnow] at hsecondIn
    rw [decide_eq_true_eq] at hfirstIn
    have hfirstAbs := abs_le.mp (not_lt.mp fun h => hfirstIn (.inr (.inr h)))
    have hsecondAbs := abs_le.mp (not_lt.mp fun h => hsecondIn (.inr (.inr h)))
    linarith [hfirstAbs.1, hfirstAbs.2, hsecondAbs.1, hsecondAbs.2]
  case neg =>
    have hsince := since_run hown hforward₂ hclocks hrun₂
    have hmem : (Event.receive b, some (Result.accepted trap)) ∈
        tr₁ ++ [(Event.receive b, some (Result.accepted trap))] ++ tr₂ := by simp
    obtain ⟨e, hlookup, hcovers⟩ := hsince.clocks.covers _ _ _ hmem hauth hown
    have hsecondIn := (hwindow'.resolve_left fun h => hown h.1).2
    rw [entry_of_covers hlookup hcovers] at hsecondIn
    obtain ⟨htime, -⟩ := hsince.clocks.entries _ e hlookup
    unfold UsmReceiver.inWindow window at hsecondIn
    rw [decide_eq_true_eq] at hsecondIn
    unfold Engine.Covers at hcovers
    refine .inr ⟨hown, ?_⟩
    rcases hsince.lastSet e hlookup (by omega) with hset | ⟨tr₃, b', o, tr₄, rfl, hsets, hset⟩
    · exact .inl (by omega)
    · exact .inr ⟨tr₃, b', o, tr₄, rfl, hsets, by omega⟩

/-- The same of the runs of both implementations. -/
theorem replay_bounded (c : Crypto) (ctx : Context) (b : Bytes) (tr₁ tr₂ : Trace) (trap trap' : Trap)
    (hforward : ∀ e ∈ tr₁ ++ (.receive b, some (.accepted trap)) ::
      (tr₂ ++ [(.receive b, some (.accepted trap'))]), e.1.Forward)
    (h : (∃ rx, (UsmReceiver.machine c ctx).Run (.new ctx) (tr₁ ++
        (.receive b, some (.accepted trap)) :: (tr₂ ++ [(.receive b, some (.accepted trap'))])) rx) ∨
      ∃ ts, (Ts.UsmReceiver.machine c ctx).Run (.new ctx) (tr₁ ++
        (.receive b, some (.accepted trap)) :: (tr₂ ++ [(.receive b, some (.accepted trap'))])) ts) :
    ReplayBound c ctx b (tr₁ ++ [(.receive b, some (.accepted trap))]) tr₂ := by
  rcases h with ⟨rx, h⟩ | ⟨ts, h⟩
  · exact clocked_bounded hforward (run_clocked h)
  · exact clocked_bounded hforward (run_ts_clocked h)

/-! ## Replays after 150 s -/

def informTrap : Trap where
  varbinds := []
  inform := some 1
  engineId := [0x80, 0x00, 0x00, 0x00, 0x01]
  user := "u"
  level := "authNoPriv"

theorem inform150_run : ∃ rx, (UsmReceiver.machine inform150Crypto gateway).Run (.new gateway)
    ([] ++ (.receive inform150, some (.accepted informTrap)) ::
      ([(.advance 151, none)] ++ [(.receive inform150, some (.accepted informTrap))])) rx := by
  obtain ⟨tr, rx, hrun, htr⟩ := TSys.exec?_runWhere (UsmReceiver.step inform150Crypto) (fun _ _ _ => True)
    (· = .new gateway) (.new gateway) [.receive inform150, .advance 151, .receive inform150]
    (fun r => r.1 = [(.receive inform150, some (.accepted informTrap)), (.advance 151, none),
      (.receive inform150, some (.accepted informTrap))])
    (by decide +kernel) (by decide +kernel)
  obtain rfl : tr = _ := of_decide_eq_true htr
  exact ⟨rx, hrun⟩

theorem replay_bounded_inform150 : ReplayBound inform150Crypto gateway inform150
      ([] ++ [(.receive inform150, some (.accepted informTrap))]) [(.advance 151, none)] :=
  replay_bounded inform150Crypto gateway inform150 [] [(.advance 151, none)] informTrap informTrap
    (by simp [Event.Forward]) (.inl inform150_run)

/-- A trap of another engine, with this low byte of its time and this digest. -/
def trapWith (low : UInt8) (digest : Bytes) : Bytes :=
  [0x30, 0x4f, 0x02, 0x01, 0x03, 0x30, 0x0d, 0x02, 0x01, 0x01, 0x02, 0x02, 0x05, 0xdc, 0x04, 0x01,
    0x01, 0x02, 0x01, 0x03, 0x04, 0x23, 0x30, 0x21, 0x04, 0x05, 0x80, 0x00, 0x00, 0x00, 0x02, 0x02,
    0x01, 0x01, 0x02, 0x02, 0x03, low, 0x04, 0x01, 0x75, 0x04, 0x0c] ++ digest ++
  [0x04, 0x00, 0x30, 0x16, 0x04, 0x05, 0x80, 0x00, 0x00, 0x00, 0x02, 0x04, 0x00, 0xa7, 0x0b, 0x02,
    0x01, 0x01, 0x02, 0x01, 0x00, 0x02, 0x01, 0x00, 0x30, 0x00]

def digest1000 : Bytes := [0xf3, 0x39, 0xc4, 0xd4, 0x21, 0x32, 0x65, 0x5a, 0x6b, 0x8c, 0xcd, 0xd4]

def digest1001 : Bytes := [0xc6, 0x20, 0x30, 0xa8, 0x0c, 0xfc, 0x10, 0x6e, 0x50, 0x63, 0x6b, 0xbc]

/-- The trap with time 1000, and one sent a second later. -/
def trap1000 : Bytes := trapWith 0xe8 digest1000

def trap1001 : Bytes := trapWith 0xe9 digest1001

/-- HMAC-MD5 where it is asked of the two traps, with their digests zeroed. -/
def trapCrypto : Crypto where
  hash _ _ := []
  hmac _ _ data :=
    if data = trapWith 0xe8 (List.replicate 12 0) then digest1000
    else if data = trapWith 0xe9 (List.replicate 12 0) then digest1001
    else []
  decrypt _ _ data := data

def collector : Context where
  now := 0
  engine := [0x80, 0x00, 0x00, 0x00, 0x01]
  boots := 1
  time := 0
  users := [{
    engineId := some [0x80, 0x00, 0x00, 0x00, 0x02]
    user := "u"
    auth := .md5
    authSecret := .key [0, 1, 2, 3, 4, 5, 6, 7, 8, 9, 10, 11, 12, 13, 14, 15]
    privSecret := none }]

def engineTrap : Trap where
  varbinds := []
  inform := none
  engineId := [0x80, 0x00, 0x00, 0x00, 0x02]
  user := "u"
  level := "authNoPriv"

theorem trap1000_run : ∃ rx, (UsmReceiver.machine trapCrypto collector).Run (.new collector)
    ([] ++ (.receive trap1000, some (.accepted engineTrap)) ::
      ([(.advance 140, none), (.receive trap1001, some (.accepted engineTrap)), (.advance 60, none)] ++
        [(.receive trap1000, some (.accepted engineTrap))])) rx := by
  obtain ⟨tr, rx, hrun, htr⟩ := TSys.exec?_runWhere (UsmReceiver.step trapCrypto) (fun _ _ _ => True)
    (· = .new collector) (.new collector)
    [.receive trap1000, .advance 140, .receive trap1001, .advance 60, .receive trap1000]
    (fun r => r.1 = [(.receive trap1000, some (.accepted engineTrap)), (.advance 140, none),
      (.receive trap1001, some (.accepted engineTrap)), (.advance 60, none),
      (.receive trap1000, some (.accepted engineTrap))])
    (by decide +kernel) (by decide +kernel)
  obtain rfl : tr = _ := of_decide_eq_true htr
  exact ⟨rx, hrun⟩

/-- A datagram is not accepted again more than 150 s after it was. -/
def NoReplay (c : Crypto) (ctx : Context) : Prop :=
  ∀ b tr₁ tr₂ trap trap' rx,
    (∀ e ∈ tr₁ ++ (.receive b, some (.accepted trap)) :: (tr₂ ++ [(.receive b, some (.accepted trap'))]),
      Event.Forward e.1) →
    (UsmReceiver.machine c ctx).Run (.new ctx) (tr₁ ++
      (.receive b, some (.accepted trap)) :: (tr₂ ++ [(.receive b, some (.accepted trap'))])) rx →
    elapsed tr₂ ≤ 150

/-- The inform is accepted twice within 151 s, the trap within 200 s. -/
theorem replayed_late : ¬ NoReplay inform150Crypto gateway ∧ ¬ NoReplay trapCrypto collector := by
  constructor
  · intro h
    obtain ⟨rx, hrun⟩ := inform150_run
    have hle := h _ _ _ _ _ rx (by simp [Event.Forward]) hrun
    exact absurd hle (by decide)
  · intro h
    obtain ⟨rx, hrun⟩ := trap1000_run
    have hle := h _ _ _ _ _ rx (by simp [Event.Forward]) hrun
    exact absurd hle (by decide)

end Dsip.Events
