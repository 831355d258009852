import Dsip.Events.UsmAgree

/-!
# What a receiver's step does to its clocks

`Clocked` says everything that a step can do to the time and to the cache of
either implementation's receiver, and what it takes for a message to be
accepted. The invariants of the time window are proved from it.
-/

namespace Dsip.Events

open Dsip.Lib

/-- A datagram that passes steps 1 to 6: a message of a user, whose digest is
right. -/
structure Authentic (c : Crypto) (ctx : Context) (b : Bytes) (m : Message) : Prop where
  parsed : parseV3 b = some m
  model : m.model = 3
  engine : m.engine ≠ []
  level : m.auth = true
  user : ∃ u key, (UsmReceiver.new ctx).userOf m.engine m.user = some u ∧
    ¬ (m.priv = true ∧ u.privSecret = none) ∧
      u.authSecret.localize c u.auth m.engine = .ok key ∧ UsmReceiver.macOk c u key b m = true

theorem Authentic.unique {c : Crypto} {ctx : Context} {b : Bytes} {m m' : Message}
    (h : Authentic c ctx b m) (h' : Authentic c ctx b m') : m = m' :=
  Option.some.inj (h.parsed.symm.trans h'.parsed)

/-- The steps of a receiver, of either implementation. -/
inductive Clocked (c : Crypto) (rx : UsmReceiver) : Event → Option Result → UsmReceiver → Prop
  | advance (n : Int) : Clocked c rx (.advance n) none { rx with now := rx.now + n }
  | ignored (b : Bytes) (reason : String) (report : Bool)
      (none : ∀ m, ¬ Authentic c rx.ctx b m) :
      Clocked c rx (.receive b) (some (.refused reason report)) rx
  | own (b : Bytes) (m : Message) (r : Result) (authentic : Authentic c rx.ctx b m)
      (isOwn : m.engine = rx.ctx.engine)
      (window : ∀ trap, r = .accepted trap → rx.inOwnWindow m = true) :
      Clocked c rx (.receive b) (some r) rx
  | other (b : Bytes) (m : Message) (r : Result) (authentic : Authentic c rx.ctx b m)
      (isOther : m.engine ≠ rx.ctx.engine)
      (window : ∀ trap, r = .accepted trap → rx.inWindow m (rx.entry m) = true) :
      Clocked c rx (.receive b) (some r)
        { rx with cache := rx.cache.insert m.engine (rx.entry m) }

section Python

variable {c : Crypto} {rx : UsmReceiver} {b : Bytes}

theorem keys_auth {u : User} {engine : Bytes} {authKey : Bytes} {privKey : Option Bytes}
    (h : UsmReceiver.keys c u engine = .ok (authKey, privKey)) :
    u.authSecret.localize c u.auth engine = .ok authKey := by
  unfold UsmReceiver.keys at h
  cases hauth : u.authSecret.localize c u.auth engine with
  | error e => rw [hauth] at h; cases h
  | ok key =>
    rw [hauth] at h
    cases hsecret : u.privSecret with
    | none =>
      rw [hsecret] at h
      cases h
      rfl
    | some secret =>
      rw [hsecret] at h
      dsimp only [bind, Except.bind] at h
      cases hpriv : secret.localize c u.auth engine with
      | error e => rw [hpriv] at h; cases h
      | ok priv => rw [hpriv] at h; cases h; rfl

theorem authenticate_spec {a : UsmReceiver.Authenticity} (h : rx.authenticate c b = .ok a) :
    (∃ reason report, a = .refused reason report ∧ ∀ m, ¬ Authentic c rx.ctx b m) ∨
      ∃ m u privKey, a = .authentic m u privKey ∧ Authentic c rx.ctx b m := by
  unfold UsmReceiver.authenticate at h
  cases hm : parseV3 b with
  | none =>
    rw [hm] at h
    cases h
    exact .inl ⟨_, _, rfl, fun m hm' => by cases hm.symm.trans hm'.parsed⟩
  | some m =>
    rw [hm] at h
    dsimp only at h
    have hmeq {m' : Message} (h' : Authentic c rx.ctx b m') : m' = m :=
      Option.some.inj (h'.parsed.symm.trans hm)
    split at h
    case isTrue hmodel =>
      cases h
      exact .inl ⟨_, _, rfl, fun m' h' => hmodel (hmeq h' ▸ h'.model)⟩
    case isFalse hmodel =>
      split at h
      case isTrue hengine =>
        cases h
        exact .inl ⟨_, _, rfl, fun m' h' => h'.engine (hmeq h' ▸ hengine)⟩
      case isFalse hengine =>
        cases hfind : rx.userOf m.engine m.user with
        | none =>
          rw [hfind] at h
          cases h
          refine .inl ⟨_, _, rfl, fun m' h' => ?_⟩
          obtain rfl := hmeq h'
          obtain ⟨u, key, hu, -⟩ := h'.user
          cases hfind.symm.trans hu
        | some u =>
          rw [hfind] at h
          dsimp only at h
          split at h
          case isTrue hlevel =>
            cases h
            refine .inl ⟨_, _, rfl, fun m' h' => ?_⟩
            obtain rfl := hmeq h'
            obtain ⟨u', key, hu', hpriv, -⟩ := h'.user
            cases hfind.symm.trans hu'
            exact hlevel.elim (fun hauth => hauth h'.level) hpriv
          case isFalse hlevel =>
            cases hkeys : UsmReceiver.keys c u m.engine with
            | error e => rw [hkeys] at h; cases h
            | ok ks =>
              obtain ⟨authKey, privKey⟩ := ks
              rw [hkeys] at h
              dsimp only [bind, Except.bind] at h
              split at h
              case isTrue hmac =>
                cases h
                refine .inr ⟨m, u, privKey, rfl, hm, ?_, hengine, ?_, u, authKey, hfind, ?_,
                  keys_auth hkeys, hmac⟩
                · exact not_not.mp hmodel
                · exact not_not.mp fun hauth => hlevel (.inl hauth)
                · exact fun hpriv => hlevel (.inr hpriv)
              case isFalse hmac =>
                cases h
                refine .inl ⟨_, _, rfl, fun m' h' => ?_⟩
                obtain rfl := hmeq h'
                obtain ⟨u', key, hu', -, hkey, hok⟩ := h'.user
                cases hfind.symm.trans hu'
                cases (keys_auth hkeys).symm.trans hkey
                exact hmac hok

theorem receive_clocked {rx' : UsmReceiver} {r : Result} (h : rx.receive c b = .ok (rx', r)) :
    Clocked c rx (.receive b) (some r) rx' := by
  unfold UsmReceiver.receive at h
  cases ha : rx.authenticate c b with
  | error e => rw [ha] at h; cases h
  | ok a =>
    rw [ha] at h
    rcases authenticate_spec ha with ⟨reason, report, rfl, hnone⟩ | ⟨m, u, privKey, rfl, hauth⟩
    · cases h
      exact .ignored b reason report hnone
    · dsimp only [bind, Except.bind] at h
      split at h
      case isTrue hown =>
        split at h
        case isTrue hwindow =>
          cases hr : rx.deliver c m u privKey with
          | error e => rw [hr] at h; cases h
          | ok r => rw [hr] at h; cases h; exact .own b m r hauth hown fun _ _ => hwindow
        case isFalse =>
          cases h
          exact .own b m _ hauth hown nofun
      case isFalse hother =>
        split at h
        case isTrue hwindow =>
          cases hr : UsmReceiver.deliver c
              { rx with cache := rx.cache.insert m.engine (rx.entry m) } m u privKey with
          | error e => rw [hr] at h; cases h
          | ok r => rw [hr] at h; cases h; exact .other b m r hauth hother fun _ _ => hwindow
        case isFalse =>
          cases h
          exact .other b m _ hauth hother nofun

theorem step_clocked {e : Event} {o : Option Result} {rx' : UsmReceiver}
    (h : UsmReceiver.step c rx e = .ok (rx', o)) : Clocked c rx e o rx' := by
  cases e with
  | advance n => cases h; exact .advance n
  | receive b =>
    unfold UsmReceiver.step at h
    dsimp only at h
    cases hr : rx.receive c b with
    | error e => rw [hr] at h; cases h
    | ok r => rw [hr] at h; cases h; exact receive_clocked hr

end Python

/-! ## The TypeScript receiver -/

section TypeScript

variable {c : Crypto} {rx : UsmReceiver} {b : Bytes}

theorem authenticate_ts_spec {a : Ts.UsmReceiver.Authenticity} (h : rx.toTs.authenticate c b = .ok a) :
    (∃ reason report, a = .refused reason report ∧ ∀ m, ¬ Authentic c rx.ctx b m) ∨
      ∃ m m' u, a = .authentic m' u ∧ m.reading = m'.reading ∧ Authentic c rx.ctx b m := by
  have hparse := parse_agree b
  unfold Ts.UsmReceiver.authenticate at h
  cases hm : parseV3 b with
  | none =>
    rw [hm, Option.map_none, eq_comm, Option.map_eq_none_iff] at hparse
    rw [hparse] at h
    cases h
    exact .inl ⟨_, _, rfl, fun m hm' => by cases hm.symm.trans hm'.parsed⟩
  | some m =>
    rw [hm, Option.map_some, eq_comm, Option.map_eq_some_iff] at hparse
    obtain ⟨m', hm', hread⟩ := hparse
    rw [hm'] at h
    dsimp only at h
    have hmeq {m₁ : Message} (h' : Authentic c rx.ctx b m₁) : m₁ = m :=
      Option.some.inj (h'.parsed.symm.trans hm)
    have hmodel' : m'.model = m.model := congrArg Reading.model hread
    have hengine' : m'.engineId = m.engine := congrArg Reading.engine hread
    have huser : m'.userName = m.user := congrArg Reading.user hread
    have hauth : m'.auth = m.auth := congrArg Reading.auth hread
    have hpriv : m'.priv = m.priv := congrArg Reading.priv hread
    have hspan : m.authSpan = (m'.authParams.start, m'.authParams.stop) :=
      (congrArg Reading.authSpan hread).symm
    rw [hmodel', hengine', huser, hauth, hpriv, userOf_eq] at h
    split at h
    case isTrue hmodel =>
      cases h
      exact .inl ⟨_, _, rfl, fun m' h' => hmodel (hmeq h' ▸ h'.model)⟩
    case isFalse hmodel =>
      split at h
      case isTrue hengine =>
        cases h
        exact .inl ⟨_, _, rfl, fun m' h' => h'.engine (hmeq h' ▸ List.length_eq_zero_iff.mp hengine)⟩
      case isFalse hengine =>
        cases hfind : rx.userOf m.engine m.user with
        | none =>
          rw [hfind] at h
          cases h
          refine .inl ⟨_, _, rfl, fun m' h' => ?_⟩
          obtain rfl := hmeq h'
          obtain ⟨u, key, hu, -⟩ := h'.user
          cases hfind.symm.trans hu
        | some u =>
          rw [hfind] at h
          dsimp only at h
          split at h
          case isTrue hlevel =>
            cases h
            refine .inl ⟨_, _, rfl, fun m' h' => ?_⟩
            obtain rfl := hmeq h'
            obtain ⟨u', key, hu', hnone, -⟩ := h'.user
            cases hfind.symm.trans hu'
            exact hlevel.elim (fun hoff => hoff h'.level) hnone
          case isFalse hlevel =>
            rw [localize_eq] at h
            cases hkey : u.authSecret.localize c u.auth m.engine with
            | error e => rw [hkey] at h; cases h
            | ok key =>
              rw [hkey] at h
              dsimp only [bind, Except.bind] at h
              by_cases hmac : UsmReceiver.macOk c u key b m = true
              case pos =>
                obtain ⟨hlen, hdigest⟩ := (macOk_iff hspan).mp hmac
                rw [if_neg (not_not_intro hlen), if_neg (not_not_intro hdigest)] at h
                cases h
                refine .inr ⟨m, m', u, rfl, hread.symm, hm, not_not.mp hmodel,
                  mt List.length_eq_zero_iff.mpr hengine, ?_, u, key, hfind, ?_, hkey, hmac⟩
                · exact not_not.mp fun hoff => hlevel (.inl hoff)
                · exact fun hnone => hlevel (.inr hnone)
              case neg =>
                have hrefuted : ∀ m₁, ¬ Authentic c rx.ctx b m₁ := by
                  intro m₁ h'
                  obtain rfl := hmeq h'
                  obtain ⟨u', key', hu', -, hkey', hok⟩ := h'.user
                  cases hfind.symm.trans hu'
                  cases hkey.symm.trans hkey'
                  exact hmac hok
                split at h
                case isTrue =>
                  cases h
                  exact .inl ⟨_, _, rfl, hrefuted⟩
                case isFalse hlen =>
                  split at h
                  case isTrue =>
                    cases h
                    exact .inl ⟨_, _, rfl, hrefuted⟩
                  case isFalse hdigest =>
                    exact absurd ((macOk_iff hspan).mpr ⟨not_not.mp hlen, not_not.mp hdigest⟩) hmac

/-- A receiver of the other implementation as one of this. -/
def toPy (ts : Ts.UsmReceiver) : UsmReceiver := ⟨ts.ctx, ts.now, ts.engines⟩

theorem receive_ts_clocked {ts : Ts.UsmReceiver} {r : Result} (h : rx.toTs.receive c b = .ok (ts, r)) :
    Clocked c rx (.receive b) (some r) (toPy ts) := by
  unfold Ts.UsmReceiver.receive at h
  cases ha : rx.toTs.authenticate c b with
  | error e => rw [ha] at h; cases h
  | ok a =>
    rw [ha] at h
    rcases authenticate_ts_spec ha with ⟨reason, report, rfl, hnone⟩ | ⟨m, m', u, rfl, hread, hauth⟩
    · cases h
      exact .ignored b reason report hnone
    · have hengine : m.engine = m'.engineId := congrArg Reading.engine hread
      have hctx : rx.toTs.ctx = rx.ctx := rfl
      dsimp only [bind, Except.bind] at h
      rw [hctx, ← hengine, ← entry_agree hread] at h
      split at h
      case isTrue hown =>
        by_cases houtside : rx.toTs.isOutside m' = true
        case pos =>
          rw [if_pos houtside] at h
          cases h
          exact .own b m _ hauth hown nofun
        case neg =>
          rw [if_neg houtside] at h
          have hwindow : rx.inOwnWindow m = true := by rw [inOwnWindow_agree hread]; simpa using houtside
          cases hr : rx.toTs.deliver c m' u with
          | error e => rw [hr] at h; cases h
          | ok r => rw [hr] at h; cases h; exact .own b m r hauth hown fun _ _ => hwindow
      case isFalse hother =>
        split at h
        case isTrue =>
          cases h
          exact .other b m _ hauth hother nofun
        case isFalse hlate =>
          have hwindow : rx.inWindow m (rx.entry m) = true := by
            have hlate' : rx.toTs.isLate m' (rx.entry m) = false := Bool.eq_false_iff.mpr hlate
            rw [inWindow_agree hread, hlate']
            rfl
          cases hr : Ts.UsmReceiver.deliver c
              ⟨rx.ctx, rx.toTs.now, rx.toTs.engines.insert m.engine (rx.entry m)⟩ m' u with
          | error e => rw [hr] at h; cases h
          | ok r => rw [hr] at h; cases h; exact .other b m r hauth hother fun _ _ => hwindow

theorem step_ts_clocked {ts ts' : Ts.UsmReceiver} {e : Event} {o : Option Result}
    (h : Ts.UsmReceiver.step c ts e = .ok (ts', o)) : Clocked c (toPy ts) e o (toPy ts') := by
  cases e with
  | advance n => cases h; exact .advance n
  | receive b =>
    unfold Ts.UsmReceiver.step at h
    dsimp only at h
    cases hr : ts.receive c b with
    | error e => rw [hr] at h; cases h
    | ok r =>
      rw [hr] at h
      cases h
      exact @receive_ts_clocked c (toPy ts) b _ _ hr

end TypeScript

end Dsip.Events
