import Dsip.Events.Messages
import Dsip.Events.UsmTs

/-!
# Both USM receivers do the same

`parse_agree` carries over from messages to receivers: `authenticate_agree`,
`deliver_agree` and `step_agree` go along the steps of `receive`, and
`receivers_agree` along a run. A user whose keys do not localize is where the
implementations part: one raises as soon as it looks at the user, the other only
when the message needs the key.
-/

namespace Dsip.Events

open Dsip.Lib

/-! ## Keys -/

/-- A password over and over, `m` bytes of it. -/
def cycled (password : Bytes) (m : Nat) : Bytes :=
  (List.range m).map fun i => password.getD (i % password.length) 0

section Cycled

variable (password : Bytes)

theorem cycled_length_self : cycled password password.length = password := by
  refine List.ext_getElem (by simp [cycled]) fun i hi hlen => ?_
  simp [cycled, Nat.mod_eq_of_lt hlen, hlen]

theorem cycled_add (n m : Nat) :
    cycled password n ++ (List.range m).map (fun i => password.getD ((n + i) % password.length) 0) =
      cycled password (n + m) := by
  unfold cycled
  rw [List.range_add, List.map_append, List.map_map]
  rfl

theorem cycled_append (k m : Nat) : cycled password (k * password.length) ++ cycled password m =
      cycled password (k * password.length + m) := by
  rw [← cycled_add]
  refine congrArg _ (List.map_congr_left fun i _ => ?_)
  simp [Nat.add_mod]

theorem flatten_replicate_cycled (n k : Nat) :
    (List.replicate n (cycled password (k * password.length))).flatten =
      cycled password (n * (k * password.length)) := by
  induction n with
  | zero => simp [cycled]
  | succ n ih =>
    rw [List.replicate_succ, List.flatten_cons, ih, cycled_append]
    congr 1
    ring

theorem take_cycled {m n : Nat} (h : m ≤ n) : (cycled password n).take m = cycled password m := by
  unfold cycled
  rw [← List.map_take, List.take_range, min_eq_left h]

variable {password}

theorem passwordStream_eq (hne : password ≠ []) : Ts.passwordStream password =
      ((List.replicate (passwordSpan / password.length + 1) password).flatten).take passwordSpan := by
  have hpos : 0 < password.length := List.length_pos_iff.mpr hne
  have hchunk : (Ts.chunk password).length = 64 * password.length := by simp [Ts.chunk]
  have hwhole := flatten_replicate_cycled password (passwordSpan / (64 * password.length)) 64
  have hfed : passwordSpan / (64 * password.length) * (64 * password.length) ≤ passwordSpan :=
    Nat.div_mul_le_self _ _
  have hself : (List.replicate (passwordSpan / password.length + 1) password).flatten =
      cycled password ((passwordSpan / password.length + 1) * password.length) := by
    have h := flatten_replicate_cycled password (passwordSpan / password.length + 1) 1
    rwa [one_mul, cycled_length_self] at h
  have hspan : passwordSpan ≤ (passwordSpan / password.length + 1) * password.length := by
    have h := Nat.lt_div_mul_add hpos (a := passwordSpan)
    rw [Nat.add_mul, one_mul]
    exact h.le
  rw [hself, take_cycled password hspan]
  unfold Ts.passwordStream
  dsimp only
  rw [hchunk]
  refine (congrArg (· ++ _) hwhole).trans ?_
  rw [cycled_add, Nat.add_sub_cancel' hfed]

end Cycled

theorem localize_eq (c : Crypto) (auth : Auth) (engine : Bytes) (secret : Secret) :
    Ts.localize c auth engine secret = secret.localize c auth engine := by
  cases secret with
  | key bytes => rfl
  | password password =>
    unfold Ts.localize Secret.localize Ts.localizePassword passwordToKey
    dsimp only
    split
    case isTrue => rfl
    case isFalse hne => rw [passwordStream_eq hne]

/-! ## Receivers -/

/-- The keys of a user localize for every engine, a privacy key to 16 bytes at
least. -/
structure User.Localizes (c : Crypto) (u : User) : Prop where
  auth : ∀ engine, ∃ key, u.authSecret.localize c u.auth engine = .ok key
  priv : ∀ secret, u.privSecret = some secret → ∀ engine, ∃ key,
    secret.localize c u.auth engine = .ok key ∧ 16 ≤ key.length

/-- The other implementation's receiver in the same state. -/
def UsmReceiver.toTs (rx : UsmReceiver) : Ts.UsmReceiver := ⟨rx.ctx, rx.now, rx.cache⟩

section Receive

variable {c : Crypto} {rx : UsmReceiver}

variable {u : User}

theorem mem_of_userOf {engine name : Bytes} (h : rx.userOf engine name = some u) : u ∈ rx.ctx.users := by
  unfold UsmReceiver.userOf at h
  obtain ⟨name, -, h⟩ := Option.bind_eq_some_iff.mp h
  rw [Option.orElse_eq_or, Option.or_eq_some_iff] at h
  rcases h with h | ⟨-, h⟩
  · exact List.mem_of_find?_eq_some h
  · exact List.mem_of_find?_eq_some h

theorem userOf_eq (engine name : Bytes) : rx.toTs.userOf engine name = rx.userOf engine name := by
  unfold Ts.UsmReceiver.userOf UsmReceiver.userOf
  cases decodeUtf8 name <;> rfl

theorem keys_of_localizes (hu : u.Localizes c) (engine : Bytes) :
    ∃ authKey privKey, u.authSecret.localize c u.auth engine = .ok authKey ∧
      UsmReceiver.keys c u engine = .ok (authKey, privKey) ∧ ∀ secret, u.privSecret = some secret → ∃ key,
          secret.localize c u.auth engine = .ok key ∧ 16 ≤ key.length ∧ privKey = some (key.take 16) := by
  obtain ⟨authKey, hauth⟩ := hu.auth engine
  unfold UsmReceiver.keys
  rw [hauth]
  cases hsecret : u.privSecret with
  | none => exact ⟨authKey, none, rfl, rfl, nofun⟩
  | some secret =>
    obtain ⟨key, hkey, hlen⟩ := hu.priv secret hsecret engine
    refine ⟨authKey, some (key.take 16), rfl, ?_, ?_⟩
    · simp only [hkey]
      rfl
    · rintro _ ⟨⟩
      exact ⟨key, hkey, hlen, rfl⟩

theorem macOk_iff {key b : Bytes} {m : Message} {ap : Tlv}
    (hspan : m.authSpan = (ap.start, ap.stop)) : UsmReceiver.macOk c u key b m = true ↔
      ap.stop - ap.start = u.auth.macLen ∧
        (c.hmac u.auth key (b.take ap.start ++ List.replicate (ap.stop - ap.start) 0 ++
          b.drop ap.stop)).take u.auth.macLen = slice b ap.start ap.stop := by
  unfold UsmReceiver.macOk
  rw [hspan]
  dsimp only
  rw [decide_eq_true_eq]
  refine and_congr_right fun hlen => ?_
  rw [hlen]

/-- What both receivers find a datagram to be. -/
inductive SameAuthenticity (c : Crypto) (rx : UsmReceiver) (b : Bytes) :
    UsmReceiver.Authenticity → Ts.UsmReceiver.Authenticity → Prop
  | refused (reason : String) (report : Bool) :
      SameAuthenticity c rx b (.refused reason report) (.refused reason report)
  | authentic {m : Message} {m' : Ts.Message} {u : User} {authKey : Bytes} {privKey : Option Bytes}
      (parsed : parseV3 b = some m) (reading : m.reading = m'.reading) (user : u ∈ rx.ctx.users)
      (level : ¬ (m.priv = true ∧ u.privSecret = none))
      (keys : UsmReceiver.keys c u m.engine = .ok (authKey, privKey)) :
      SameAuthenticity c rx b (.authentic m u privKey) (.authentic m' u)

theorem authenticate_agree (hu : ∀ u ∈ rx.ctx.users, u.Localizes c) (b : Bytes) :
    ∃ a a', rx.authenticate c b = .ok a ∧ rx.toTs.authenticate c b = .ok a' ∧
      SameAuthenticity c rx b a a' := by
  have hparse := parse_agree b
  unfold UsmReceiver.authenticate Ts.UsmReceiver.authenticate
  cases hm : parseV3 b with
  | none =>
    rw [hm, Option.map_none, eq_comm, Option.map_eq_none_iff] at hparse
    rw [hparse]
    exact ⟨_, _, rfl, rfl, .refused _ _⟩
  | some m =>
    rw [hm, Option.map_some, eq_comm, Option.map_eq_some_iff] at hparse
    obtain ⟨m', hm', hread⟩ := hparse
    rw [hm']
    dsimp only
    have hmodel : m'.model = m.model := congrArg Reading.model hread
    have hengine : m'.engineId = m.engine := congrArg Reading.engine hread
    have huser : m'.userName = m.user := congrArg Reading.user hread
    have hreport : m'.reportable = m.reportable := congrArg Reading.reportable hread
    have hauth : m'.auth = m.auth := congrArg Reading.auth hread
    have hpriv : m'.priv = m.priv := congrArg Reading.priv hread
    have hspan : (m'.authParams.start, m'.authParams.stop) = m.authSpan := congrArg Reading.authSpan hread
    rw [hmodel, hengine, huser, hreport, hauth, hpriv, userOf_eq]
    by_cases h3 : m.model ≠ 3
    case pos =>
      rw [if_pos h3, if_pos h3]
      exact ⟨_, _, rfl, rfl, .refused _ _⟩
    rw [if_neg h3, if_neg h3]
    by_cases hnone : m.engine = []
    case pos =>
      rw [if_pos hnone, if_pos (List.length_eq_zero_iff.mpr hnone)]
      exact ⟨_, _, rfl, rfl, .refused _ _⟩
    rw [if_neg hnone, if_neg (mt List.length_eq_zero_iff.mp hnone)]
    cases hfind : rx.userOf m.engine m.user with
    | none => exact ⟨_, _, rfl, rfl, .refused _ _⟩
    | some u =>
      dsimp only
      by_cases hlevel : ¬ m.auth = true ∨ m.priv = true ∧ u.privSecret = none
      case pos =>
        rw [if_pos hlevel, if_pos hlevel]
        exact ⟨_, _, rfl, rfl, .refused _ _⟩
      rw [if_neg hlevel, if_neg hlevel]
      have huin := mem_of_userOf hfind
      obtain ⟨authKey, privKey, hlocal, hkeys, -⟩ := keys_of_localizes (hu u huin) m.engine
      rw [hkeys, localize_eq, hlocal]
      dsimp only [bind, Except.bind]
      have hspans : m.authSpan = (m'.authParams.start, m'.authParams.stop) := hspan.symm
      by_cases hok : UsmReceiver.macOk c u authKey b m = true
      case pos =>
        obtain ⟨hlen, hmac⟩ := (macOk_iff hspans).mp hok
        refine ⟨_, _, if_pos hok, ?_, .authentic hm hread.symm huin (fun h => hlevel (.inr h)) hkeys⟩
        rw [if_neg (not_not_intro hlen), if_neg (not_not_intro hmac)]
        rfl
      case neg =>
        refine ⟨_, _, if_neg hok, ?_, .refused _ _⟩
        by_cases hlen : m'.authParams.stop - m'.authParams.start = u.auth.macLen
        case pos =>
          rw [if_neg (not_not_intro hlen), if_pos fun hmac => hok ((macOk_iff hspans).mpr ⟨hlen, hmac⟩)]
          rfl
        case neg =>
          rw [if_pos hlen]
          rfl

theorem parseScopedPdu_agree (b : Bytes) :
    parseScopedPdu b =
      (do let t ← Ts.tlv b 0 b.length
          guard (t.stop = b.length)
          Ts.scopedPdu b t : Option Ts.Pdu).map Ts.Pdu.reading := by
  ext pdu
  unfold parseScopedPdu
  simp only [↓expect_bind, ↓guard_bind, done_iff, some_bind, tlv_eq, Option.map_eq_some_iff,
    scopedContent_eq_some]
  constructor
  · rintro ⟨t, ht, htag, hend, engine, hcontent⟩
    have hbounds := tlv_bounds ht
    exact ⟨_, ⟨t, ht, hbounds.2.2.antisymm hend, (scopedPdu_eq_some hbounds.2).mpr ⟨htag, hcontent⟩⟩, rfl⟩
  · rintro ⟨⟨tag, engine, id, varbinds⟩, ⟨t, ht, hend, hpdu⟩, rfl⟩
    obtain ⟨htag, hcontent⟩ := (scopedPdu_eq_some (tlv_bounds ht).2).mp hpdu
    exact ⟨t, ht, htag, hend.ge, engine, hcontent⟩

theorem priv_of_encrypted {b : Bytes} {m : Message} (hm : parseV3 b = some m) {data : Bytes}
    (hdata : m.data = .encrypted data) : m.priv = true := by
  obtain ⟨-, -, hd⟩ := parseV3_eq_some.mp hm
  rename_i d _
  cases hd with
  | encrypted hpriv => exact hpriv
  | plain => cases hdata

variable {m' : Ts.Message} {authKey : Bytes} {privKey : Option Bytes}

theorem pduOf_agree {b : Bytes} {m : Message} (hu : u.Localizes c) (hm : parseV3 b = some m)
    (hread : m.reading = m'.reading) (hlevel : ¬ (m.priv = true ∧ u.privSecret = none))
    (hkeys : UsmReceiver.keys c u m.engine = .ok (authKey, privKey)) :
    UsmReceiver.pduOf c m privKey = (Ts.UsmReceiver.pduOf c m' u).map (·.map Ts.Pdu.reading) := by
  have hengine : m.engine = m'.engineId := congrArg Reading.engine hread
  have hparams : m.privParams = m'.privParams := congrArg Reading.privParams hread
  have hboots : m.boots = m'.boots := congrArg Reading.boots hread
  have htime : m.time = m'.time := congrArg Reading.time hread
  have hpdu : m.data.pdu = m'.pdu.map Ts.Pdu.reading := congrArg Reading.pdu hread
  have hbytes : m.data.data = m'.encrypted := congrArg Reading.encrypted hread
  unfold UsmReceiver.pduOf Ts.UsmReceiver.pduOf
  cases hdata : m.data with
  | plain pdu =>
    rw [hdata] at hpdu hbytes
    rw [← hbytes]
    exact congrArg Except.ok hpdu
  | encrypted data =>
    rw [hdata] at hbytes
    rw [← hbytes]
    cases hsecret : u.privSecret with
    | none => exact absurd ⟨priv_of_encrypted hm hdata, hsecret⟩ hlevel
    | some secret =>
      obtain ⟨_, privKey', -, hkeys', hpriv⟩ := keys_of_localizes hu m.engine
      obtain ⟨rfl, rfl⟩ := Prod.mk.inj (Except.ok.inj (hkeys'.symm.trans hkeys))
      obtain ⟨key, hkey, hlen, rfl⟩ := hpriv secret hsecret
      have htake : (key.take 16).length = 16 := by rw [List.length_take]; omega
      dsimp only [MsgData.data]
      rw [← hparams, ← hboots, ← htime, ← hengine, localize_eq, hkey]
      by_cases h8 : m.privParams.length ≠ 8
      case pos =>
        rw [if_pos h8, if_pos h8]
        rfl
      case neg =>
        rw [if_neg h8, if_neg h8]
        unfold aesCfb
        rw [if_pos htake]
        dsimp only [bind, Except.bind]
        rw [if_neg (not_not_intro htake)]
        exact congrArg Except.ok (parseScopedPdu_agree _)

theorem deliver_agree {b : Bytes} {m : Message} (hu : u.Localizes c) (hm : parseV3 b = some m)
    (hread : m.reading = m'.reading) (hlevel : ¬ (m.priv = true ∧ u.privSecret = none))
    (hkeys : UsmReceiver.keys c u m.engine = .ok (authKey, privKey)) :
    rx.deliver c m u privKey = rx.toTs.deliver c m' u := by
  have hengine : m.engine = m'.engineId := congrArg Reading.engine hread
  have hpriv : m.priv = m'.priv := congrArg Reading.priv hread
  unfold UsmReceiver.deliver Ts.UsmReceiver.deliver
  rw [pduOf_agree hu hm hread hlevel hkeys]
  cases Ts.UsmReceiver.pduOf c m' u with
  | error e => rfl
  | ok pdu =>
    cases pdu with
    | none => rfl
    | some pdu =>
      have hne : (0xA6 : UInt8) ≠ 0xA7 := by decide
      simp only [Except.map, bind, Except.bind, Option.map_some, Ts.Pdu.reading,
        UsmReceiver.toTs, hengine, hpriv]
      by_cases hinform : pdu.tag = 0xA6
      case pos => by_cases hown : m'.engineId = rx.ctx.engine <;> simp [hinform, hown, hne]
      case neg =>
        by_cases htrap : pdu.tag = 0xA7
        case pos => by_cases hown : m'.engineId = rx.ctx.engine <;> simp [htrap, hown, hne.symm]
        case neg => simp [hinform, htrap]

theorem entry_agree {m : Message} (hread : m.reading = m'.reading) : rx.entry m = rx.toTs.entry m' := by
  have hengine : m.engine = m'.engineId := congrArg Reading.engine hread
  have hboots : m.boots = m'.boots := congrArg Reading.boots hread
  have htime : m.time = m'.time := congrArg Reading.time hread
  unfold UsmReceiver.entry Ts.UsmReceiver.entry UsmReceiver.toTs
  rw [hengine, hboots, htime]
  dsimp only
  cases rx.cache.lookup m'.engineId with
  | none => rfl
  | some e =>
    unfold UsmReceiver.isNewer
    rw [hboots, htime]
    by_cases hnewer : e.boots < m'.boots ∨ m'.boots = e.boots ∧ e.latest < m'.time
    case pos =>
      simp only [Option.filter, hnewer, decide_true, Bool.not_true, if_true]
      rfl
    case neg =>
      simp only [Option.filter, hnewer, decide_false, Bool.not_false, if_false]
      rfl

theorem inWindow_agree {m : Message} (hread : m.reading = m'.reading) (e : Engine) :
    rx.inWindow m e = !rx.toTs.isLate m' e := by
  have hboots : m.boots = m'.boots := congrArg Reading.boots hread
  have htime : m.time = m'.time := congrArg Reading.time hread
  unfold UsmReceiver.inWindow Ts.UsmReceiver.isLate
  rw [hboots, htime]
  exact decide_not

theorem inOwnWindow_agree {m : Message} (hread : m.reading = m'.reading) :
    rx.inOwnWindow m = !rx.toTs.isOutside m' := by
  have hboots : m.boots = m'.boots := congrArg Reading.boots hread
  have htime : m.time = m'.time := congrArg Reading.time hread
  unfold UsmReceiver.inOwnWindow Ts.UsmReceiver.isOutside UsmReceiver.localTime
  rw [hboots, htime]
  exact decide_not

theorem receive_agree (huall : ∀ u ∈ rx.ctx.users, u.Localizes c) (b : Bytes) :
    rx.toTs.receive c b = (rx.receive c b).map fun r => (r.1.toTs, r.2) := by
  obtain ⟨a, a', ha, ha', hsame⟩ := authenticate_agree huall b
  unfold UsmReceiver.receive Ts.UsmReceiver.receive
  rw [ha, ha']
  cases hsame with
  | refused reason report => rfl
  | @authentic m m' u authKey privKey hm hread huin hlevel hkeys =>
    have hengine : m.engine = m'.engineId := congrArg Reading.engine hread
    have hreport : m.reportable = m'.reportable := congrArg Reading.reportable hread
    have hctx : rx.toTs.ctx = rx.ctx := rfl
    dsimp only [bind, Except.bind]
    rw [hctx, ← hengine]
    by_cases hown : m.engine = rx.ctx.engine
    case pos =>
      rw [if_pos hown, if_pos hown, inOwnWindow_agree hread,
        deliver_agree (huall u huin) hm hread hlevel hkeys, hreport]
      cases rx.toTs.isOutside m' with
      | true => rfl
      | false => cases rx.toTs.deliver c m' u <;> rfl
    case neg =>
      rw [if_neg hown, if_neg hown, ← entry_agree hread]
      have hkept (kept : UsmReceiver) (e : Engine) : (if kept.toTs.isLate m' e then
              (pure (kept.toTs, .refused "not-in-time-window" false) : Except Fault _)
            else (kept.toTs.deliver c m' u).map fun r => (kept.toTs, r)) =
          (if kept.inWindow m e then (kept.deliver c m u privKey).map fun r => (kept, r)
            else pure (kept, Result.refused "not-in-time-window" false)).map fun r => (r.1.toTs, r.2) := by
        rw [inWindow_agree hread, deliver_agree (huall u huin) hm hread hlevel hkeys]
        cases kept.toTs.isLate m' e with
        | true => rfl
        | false => cases kept.toTs.deliver c m' u <;> rfl
      exact hkept { rx with cache := rx.cache.insert m.engine (rx.entry m) } (rx.entry m)

theorem step_agree (hu : ∀ u ∈ rx.ctx.users, u.Localizes c) (e : Event) :
    Ts.UsmReceiver.step c rx.toTs e = (UsmReceiver.step c rx e).map fun r => (r.1.toTs, r.2) := by
  cases e with
  | advance n => rfl
  | receive b =>
    unfold Ts.UsmReceiver.step UsmReceiver.step
    dsimp only
    rw [receive_agree hu b]
    cases rx.receive c b <;> rfl

/-! ## Users whose keys localize bring no fault -/

theorem deliver_ok {b : Bytes} {m : Message}
    (hu : u.Localizes c) (hm : parseV3 b = some m) (hlevel : ¬ (m.priv = true ∧ u.privSecret = none))
    (hkeys : UsmReceiver.keys c u m.engine = .ok (authKey, privKey)) :
    ∃ r, rx.deliver c m u privKey = .ok r := by
  have hpdu : ∃ pdu, UsmReceiver.pduOf c m privKey = .ok pdu := by
    unfold UsmReceiver.pduOf
    cases hdata : m.data with
    | plain pdu => exact ⟨_, rfl⟩
    | encrypted data =>
      cases hsecret : u.privSecret with
      | none => exact absurd ⟨priv_of_encrypted hm hdata, hsecret⟩ hlevel
      | some secret =>
        obtain ⟨_, privKey', -, hkeys', hpriv⟩ := keys_of_localizes hu m.engine
        obtain ⟨rfl, rfl⟩ := Prod.mk.inj (Except.ok.inj (hkeys'.symm.trans hkeys))
        obtain ⟨key, -, hlen, rfl⟩ := hpriv secret hsecret
        have htake : (key.take 16).length = 16 := by rw [List.length_take]; omega
        dsimp only
        split
        case isTrue => exact ⟨_, rfl⟩
        case isFalse =>
          unfold aesCfb
          rw [if_pos htake]
          exact ⟨_, rfl⟩
  obtain ⟨pdu, hpdu⟩ := hpdu
  unfold UsmReceiver.deliver
  rw [hpdu]
  cases pdu with
  | none => exact ⟨_, rfl⟩
  | some pdu =>
    dsimp only [bind, Except.bind]
    split
    case isTrue => exact ⟨_, rfl⟩
    case isFalse => split <;> exact ⟨_, rfl⟩

theorem step_ok (hu : ∀ u ∈ rx.ctx.users, u.Localizes c) (e : Event) :
    ∃ r, UsmReceiver.step c rx e = .ok r ∧ r.1.ctx = rx.ctx := by
  cases e with
  | advance n => exact ⟨_, rfl, rfl⟩
  | receive b =>
    have hreceive : ∃ r, rx.receive c b = .ok r ∧ r.1.ctx = rx.ctx := by
      obtain ⟨a, a', ha, -, hsame⟩ := authenticate_agree hu b
      unfold UsmReceiver.receive
      rw [ha]
      cases hsame with
      | refused reason report => exact ⟨_, rfl, rfl⟩
      | @authentic m m' u authKey privKey hm hread huin hlevel hkeys =>
        have hdeliver (rx : UsmReceiver) := @deliver_ok c rx _ _ _ _ _ (hu u huin) hm hlevel hkeys
        dsimp only [bind, Except.bind]
        split
        case isTrue =>
          split
          case isTrue =>
            obtain ⟨r, hr⟩ := hdeliver rx
            rw [hr]
            exact ⟨_, rfl, rfl⟩
          case isFalse => exact ⟨_, rfl, rfl⟩
        case isFalse =>
          split
          case isTrue =>
            obtain ⟨r, hr⟩ := hdeliver { rx with cache := rx.cache.insert m.engine (rx.entry m) }
            rw [hr]
            exact ⟨_, rfl, rfl⟩
          case isFalse => exact ⟨_, rfl, rfl⟩
    obtain ⟨r, hr, hctx⟩ := hreceive
    unfold UsmReceiver.step
    dsimp only
    rw [hr]
    exact ⟨_, rfl, hctx⟩

end Receive

theorem exec_agree (c : Crypto) (es : List Event) : ∀ {rx : UsmReceiver},
    (∀ u ∈ rx.ctx.users, u.Localizes c) → ∃ tr rx', TSys.exec? (UsmReceiver.step c) rx es = some (tr, rx') ∧
        TSys.exec? (Ts.UsmReceiver.step c) rx.toTs es = some (tr, rx'.toTs) := by
  induction es with
  | nil => exact fun {rx} _ => ⟨[], rx, rfl, rfl⟩
  | cons e es ih =>
    intro rx hu
    obtain ⟨⟨rx₁, o⟩, hstep, hctx⟩ := step_ok hu e
    obtain ⟨tr, rx', hrun, hrun'⟩ := @ih rx₁ (by rw [hctx]; exact hu)
    have hstep' : Ts.UsmReceiver.step c rx.toTs e = .ok (rx₁.toTs, o) := by
      rw [step_agree hu e, hstep]
      rfl
    refine ⟨(e, o) :: tr, rx', ?_, ?_⟩
    · simp only [TSys.exec?, hstep, hrun, Option.map_some]
    · simp only [TSys.exec?, hstep', hrun', Option.map_some]

/-- Both implementations accept the same messages and say the same of them; and
both receivers give the same results and keep the same cache. -/
theorem snmp_agree : (∀ b : Bytes,
      (parseV3 b).map Message.reading = (Ts.parseMessage b).map Ts.Message.reading ∧
        parseTsm b = (Ts.parseMessage b true).bind fun m =>
          m.pdu.map fun p => (m.model, p.reading, p.contextEngineId)) ∧
      ∀ (c : Crypto) (ctx : Context), (∀ u ∈ ctx.users, u.Localizes c) → ∀ es : List Event,
        ∃ tr rx ts, TSys.exec? (UsmReceiver.step c) (.new ctx) es = some (tr, rx) ∧
          TSys.exec? (Ts.UsmReceiver.step c) (.new ctx) es = some (tr, ts) ∧
            ts.engines = rx.cache ∧ ts.now = rx.now ∧ ts.snapshot = rx.snapshot := by
  refine ⟨fun b => ⟨parse_agree b, parseTsm_agree b⟩, fun c ctx hu es => ?_⟩
  obtain ⟨tr, rx, hrun, hrun'⟩ := @exec_agree c es (UsmReceiver.new ctx) hu
  exact ⟨tr, rx, rx.toTs, hrun, hrun', rfl, rfl, rfl⟩

/-! ## An inform to the gateway -/

/-- An authenticated inform, with time 150 of the gateway's engine. -/
def inform150 : Bytes :=
  [0x30, 0x4f, 0x02, 0x01, 0x03, 0x30, 0x0d, 0x02, 0x01, 0x01, 0x02, 0x02, 0x05, 0xdc, 0x04, 0x01,
    0x01, 0x02, 0x01, 0x03, 0x04, 0x23, 0x30, 0x21, 0x04, 0x05, 0x80, 0x00, 0x00, 0x00, 0x01, 0x02,
    0x01, 0x01, 0x02, 0x02, 0x00, 0x96, 0x04, 0x01, 0x75, 0x04, 0x0c, 0x85, 0x63, 0x71, 0x9e, 0x69,
    0x65, 0xb5, 0x12, 0x99, 0x49, 0x7e, 0x03, 0x04, 0x00, 0x30, 0x16, 0x04, 0x05, 0x80, 0x00, 0x00,
    0x00, 0x01, 0x04, 0x00, 0xa6, 0x0b, 0x02, 0x01, 0x01, 0x02, 0x01, 0x00, 0x02, 0x01, 0x00, 0x30,
    0x00]

/-- HMAC-MD5 where it is asked of `inform150`, with its digest zeroed. -/
def inform150Crypto : Crypto where
  hash _ _ := []
  hmac _ _ _ := [0x85, 0x63, 0x71, 0x9e, 0x69, 0x65, 0xb5, 0x12, 0x99, 0x49, 0x7e, 0x03]
  decrypt _ _ data := data

/-- A gateway whose engine's time is 0, and its user `u`. -/
def gateway : Context where
  now := 0
  engine := [0x80, 0x00, 0x00, 0x00, 0x01]
  boots := 1
  time := 0
  users := [{
    engineId := some [0x80, 0x00, 0x00, 0x00, 0x01]
    user := "u"
    auth := .md5
    authSecret := .key [0, 1, 2, 3, 4, 5, 6, 7, 8, 9, 10, 11, 12, 13, 14, 15]
    privSecret := none }]

theorem gateway_localizes : ∀ u ∈ gateway.users, u.Localizes inform150Crypto := by
  intro u hu
  obtain rfl := List.mem_singleton.mp hu
  exact ⟨fun _ => ⟨_, rfl⟩, nofun⟩

theorem snmp_agree_inform : ∃ tr rx ts, TSys.exec? (UsmReceiver.step inform150Crypto) (.new gateway)
        [.receive inform150, .advance 151, .receive inform150] = some (tr, rx) ∧
      TSys.exec? (Ts.UsmReceiver.step inform150Crypto) (.new gateway)
        [.receive inform150, .advance 151, .receive inform150] = some (tr, ts) ∧
      ts.engines = rx.cache ∧ ts.now = rx.now ∧ ts.snapshot = rx.snapshot :=
  snmp_agree.2 inform150Crypto gateway gateway_localizes _

end Dsip.Events
