import Dsip.Events.Grammar

/-!
# Both parsers accept what the grammar does

`parseV3_eq_some` and `parseTsm_eq_some` for the Python parsers,
`parseMessage_eq_some` and `parseMessage_tsm_eq_some` for the TypeScript one.
-/

namespace Dsip.Events

open Dsip.Lib

variable {b : Bytes} {pos stop : Nat} {t : Tlv}

theorem content_eq_singleton (hin : t.Within b) {x : UInt8} :
    t.content b = [x] ↔ t.stop - t.start = 1 ∧ b[t.start]? = some x := by
  constructor
  · intro h
    have hlen : t.stop - t.start = 1 := by rw [← length_content hin, h]; rfl
    unfold Tlv.content slice at h
    rw [hlen, List.take_one, List.head?_drop] at h
    cases hx : b[t.start]? with
    | none => rw [hx] at h; cases h
    | some y => rw [hx] at h; cases h; exact ⟨hlen, rfl⟩
  · rintro ⟨hlen, hx⟩
    unfold Tlv.content slice
    rw [hlen, List.take_one, List.head?_drop, hx]
    rfl

/-- The global data of a message: its id, flags and security model. -/
inductive IsGlobal (b : Bytes) (r : R) : Int × UInt8 × Int → Prop
  | mk {id max flagsT modelT : Tlv} {msgId size model : Int} {flags : UInt8}
      (fills : Fills b r.stop r.pos [id, max, flagsT, modelT])
      (id_eq : IsInt b id msgId) (id_range : 0 ≤ msgId ∧ msgId ≤ max31)
      (isSize : IsInt b max size) (size_range : 484 ≤ size ∧ size ≤ max31)
      (isFlags : flagsT.tag = 0x04) (flags_eq : flagsT.content b = [flags])
      (model_eq : IsInt b modelT model) (model_range : 0 ≤ model ∧ model ≤ max31)
      (auth : ¬ (flags &&& 2 ≠ 0 ∧ flags &&& 1 = 0)) : IsGlobal b r (msgId, flags, model)

theorem globalData_eq_some {r : R} (hr : r.stop ≤ b.length) {g : Int × UInt8 × Int} :
    globalData b r = some g ↔ IsGlobal b r g := by
  unfold globalData
  simp only [↓expect_bind, ↓guard_bind, ↓intIn_bind, done_iff, some_bind, Option.pure_def, Option.some.injEq]
  constructor
  · rintro ⟨id, n, hid, hint, hrange, max, m, hmax, hm, hmrange, flagsT, hflags, hft, hone, x, hx, modelT,
      k, hmodel, hk, hkrange, hdone, hauth, rfl⟩
    have hfills : Fills b r.stop r.pos [id, max, flagsT, modelT] := ⟨hid, hmax, hflags, hmodel, hdone⟩
    have hin := hfills.within hr flagsT (by simp)
    exact ⟨hfills, hint, hrange, hm, hmrange, hft, (content_eq_singleton hin).mpr ⟨hone, hx⟩, hk, hkrange,
      hauth⟩
  · rintro ⟨hfills, hint, hrange, hm, hmrange, hft, hone, hk, hkrange, hauth⟩
    rename_i id max flagsT modelT n m k x
    have hin := hfills.within hr flagsT (by simp)
    obtain ⟨hone, hx⟩ := (content_eq_singleton hin).mp hone
    obtain ⟨hid, hmax, hflags, hmodel, hdone⟩ := hfills
    exact ⟨_, _, hid, hint, hrange, _, _, hmax, hm, hmrange, _, hflags, hft, hone, _, hx, _, _, hmodel, hk,
      hkrange, hdone, hauth, rfl⟩

/-- The security parameters of a message. -/
inductive IsSecurity (b : Bytes) (sp : Tlv) : Ts.Security → Prop
  | mk {inner engine bootsT timeT user authParams privParams : Tlv} {boots time : Int}
      (fills : Fills b sp.stop sp.start [inner]) (isSequence : inner.tag = 0x30)
      (inner_fills : Fills b inner.stop inner.start
        [engine, bootsT, timeT, user, authParams, privParams])
      (isEngine : engine.tag = 0x04)
      (engine_length : (engine.content b).length = 0 ∨
        5 ≤ (engine.content b).length ∧ (engine.content b).length ≤ 32)
      (boots_eq : IsInt b bootsT boots) (boots_range : 0 ≤ boots ∧ boots ≤ max31)
      (time_eq : IsInt b timeT time) (time_range : 0 ≤ time ∧ time ≤ max31)
      (isUser : user.tag = 0x04) (user_length : (user.content b).length ≤ 32)
      (isAuth : authParams.tag = 0x04) (isPriv : privParams.tag = 0x04) :
      IsSecurity b sp ⟨engine.content b, boots, time, user.content b, authParams, privParams.content b⟩

inductive IsData (b : Bytes) (priv : Bool) (data : Tlv) : MsgData → Prop
  | encrypted (hpriv : priv = true) (octets : data.tag = 0x04) :
      IsData b priv data (.encrypted (data.content b))
  | plain {engine : Bytes} {pdu : Pdu} (hpriv : priv = false) (isSequence : data.tag = 0x30)
      (content : IsScoped b data.reader engine pdu) : IsData b priv data (.plain pdu)

/-- A message up to its data: the global data, and where the security parameters
and the data are. -/
inductive IsHeader (b : Bytes) : Int × UInt8 × Int → Tlv → Tlv → Prop
  | mk {outer version globalT sp data : Tlv} {g : Int × UInt8 × Int}
      (outer_fills : Fills b b.length 0 [outer]) (isSequence : outer.tag = 0x30)
      (fills : Fills b outer.stop outer.start [version, globalT, sp, data])
      (isVersion : IsInt b version 3) (global_tag : globalT.tag = 0x30)
      (isGlobal : IsGlobal b globalT.reader g) (sp_tag : sp.tag = 0x04) : IsHeader b g sp data

/-- A message with its parts put together. -/
def messageOf (msgId : Int) (flags : UInt8) (model : Int) (s : Ts.Security) (data : MsgData) : Message where
  msgId := msgId
  flags := flags
  auth := flags &&& 1 ≠ 0
  priv := flags &&& 2 ≠ 0
  reportable := flags &&& 4 ≠ 0
  model := model
  engine := s.engineId
  boots := s.boots
  time := s.time
  user := s.userName
  authSpan := (s.authParams.start, s.authParams.stop)
  privParams := s.privParams
  data := data

/-- A message of the User-based Security Model's form. -/
inductive IsMessage (b : Bytes) : Message → Prop
  | mk {sp data : Tlv} {msgId model : Int} {flags : UInt8} {s : Ts.Security} {d : MsgData}
      (header : IsHeader b (msgId, flags, model) sp data) (security : IsSecurity b sp s)
      (isData : IsData b (flags &&& 2 ≠ 0) data d) : IsMessage b (messageOf msgId flags model s d)

theorem parseV3_eq_some {m : Message} : parseV3 b = some m ↔ IsMessage b m := by
  unfold parseV3
  simp only [↓expect_bind, ↓guard_bind, ↓int_bind, ↓intIn_bind, ↓pure_bind, done_iff, some_bind,
    Option.pure_def]
  constructor
  · rintro ⟨outer, houter, houtert, hend, version, n, hversion, hn, rfl, globalT, hglobal, hglobalt,
      ⟨msgId, flags, model⟩, hg, sp, hsp, hspt, inner, hinner, hinnert, hinnerend, engine, hengine,
      henginet, hlen, bootsT, boots, hboots, hbootsi, hbootsr, timeT, time, htime, htimei, htimer, user,
      huser, husert, huserlen, auth, hauth, hautht, priv, hpriv, hprivt, hprivend, h⟩
    have hsecurity : IsSecurity b sp ⟨engine.content b, boots, time, user.content b, auth, priv.content b⟩ :=
      ⟨⟨hinner, hinnerend⟩, hinnert, ⟨hengine, hboots, htime, huser, hauth, hpriv, hprivend⟩, henginet,
        hlen, hbootsi, hbootsr, htimei, htimer, husert, huserlen, hautht, hprivt⟩
    have hglobalstop : globalT.stop ≤ b.length := (tlv_bounds hglobal).2.2.trans (tlv_bounds houter).2.2
    rw [globalData_eq_some hglobalstop] at hg
    have hheader {data : Tlv} (hdata : tlv b sp.stop outer.stop = some data)
        (hdone : outer.stop ≤ data.stop) : IsHeader b (msgId, flags, model) sp data :=
      ⟨⟨houter, hend⟩, houtert, ⟨hversion, hglobal, hsp, hdata, hdone⟩, hn, hglobalt, hg, hspt⟩
    split at h
    case isTrue hp =>
      simp only [↓expect_bind, ↓guard_bind, Option.some.injEq] at h
      obtain ⟨data, hdata, hdatat, hdone, rfl⟩ := h
      exact ⟨hheader hdata hdone, hsecurity, .encrypted (decide_eq_true hp) hdatat⟩
    case isFalse hp =>
      simp only [↓expect_bind, ↓guard_bind, some_bind, Option.some.injEq] at h
      obtain ⟨data, hdata, hdatat, pdu, hpdu, hdone, rfl⟩ := h
      obtain ⟨ctx, hscoped⟩ := scopedContent_eq_some.mp hpdu
      exact ⟨hheader hdata hdone, hsecurity, .plain (decide_eq_false hp) hdatat hscoped⟩
  · rintro ⟨⟨⟨houter, hend⟩, houtert, ⟨hversion, hglobal, hsp, hdata, hdone⟩, hn, hglobalt, hg, hspt⟩,
      ⟨⟨hinner, hinnerend⟩, hinnert, ⟨hengine, hboots, htime, huser, hauth, hpriv, hprivend⟩, henginet,
        hlen, hbootsi, hbootsr, htimei, htimer, husert, huserlen, hautht, hprivt⟩, hisData⟩
    have hglobalstop := (tlv_bounds hglobal).2.2.trans (tlv_bounds houter).2.2
    refine ⟨_, houter, houtert, hend, _, _, hversion, hn, rfl, _, hglobal, hglobalt, _,
      (globalData_eq_some hglobalstop).mpr hg, _, hsp, hspt, _, hinner, hinnert, hinnerend, _, hengine,
      henginet, hlen, _, _, hboots, hbootsi, hbootsr, _, _, htime, htimei, htimer, _, huser, husert,
      huserlen, _, hauth, hautht, _, hpriv, hprivt, hprivend, ?_⟩
    cases hisData with
    | encrypted hp hdatat =>
      rw [if_pos (of_decide_eq_true hp)]
      simp only [↓expect_bind, ↓guard_bind, Option.some.injEq]
      exact ⟨_, hdata, hdatat, hdone, rfl⟩
    | plain hp hdatat hcontent =>
      rw [if_neg (of_decide_eq_false hp)]
      simp only [↓expect_bind, ↓guard_bind, some_bind, Option.some.injEq]
      exact ⟨_, hdata, hdatat, _, scopedContent_eq_some.mpr ⟨_, hcontent⟩, hdone, rfl⟩

/-- A message of the Transport Security Model's form: the model, the PDU and the
context engine. -/
inductive IsTsm (b : Bytes) : Int × Pdu × Bytes → Prop
  | mk {sp data : Tlv} {msgId model : Int} {flags : UInt8} {engine : Bytes} {pdu : Pdu}
      (header : IsHeader b (msgId, flags, model) sp data) (isSequence : data.tag = 0x30)
      (content : IsScoped b data.reader engine pdu) : IsTsm b (model, pdu, engine)

theorem IsScoped.engine_eq {r : R} {engine : Bytes} {pdu : Pdu} (h : IsScoped b r engine pdu) :
    ∃ t, tlv b r.pos r.stop = some t ∧ t.tag = 0x04 ∧ t.content b = engine := by
  obtain ⟨hfills, hengine⟩ := h
  exact ⟨_, hfills.1, hengine, rfl⟩

theorem parseTsm_eq_some {m : Int × Pdu × Bytes} : parseTsm b = some m ↔ IsTsm b m := by
  unfold parseTsm
  simp only [↓expect_bind, ↓guard_bind, ↓int_bind, done_iff, some_bind, Option.pure_def, Option.some.injEq]
  constructor
  · rintro ⟨outer, houter, houtert, hend, version, n, hversion, hn, rfl, globalT, hglobal, hglobalt,
      ⟨msgId, flags, model⟩, hg, sp, hsp, hspt, data, hdata, hdatat, pdu, hpdu, hdone, engine, hengine,
      henginet, rfl⟩
    have hglobalstop : globalT.stop ≤ b.length := (tlv_bounds hglobal).2.2.trans (tlv_bounds houter).2.2
    obtain ⟨ctx, hscoped⟩ := scopedContent_eq_some.mp hpdu
    obtain ⟨t, ht, -, rfl⟩ := hscoped.engine_eq
    obtain rfl := Option.some.inj (ht.symm.trans hengine)
    exact ⟨⟨⟨houter, hend⟩, houtert, ⟨hversion, hglobal, hsp, hdata, hdone⟩, hn, hglobalt,
      (globalData_eq_some hglobalstop).mp hg, hspt⟩, hdatat, hscoped⟩
  · rintro ⟨⟨⟨houter, hend⟩, houtert, ⟨hversion, hglobal, hsp, hdata, hdone⟩, hn, hglobalt, hg, hspt⟩,
      hdatat, hcontent⟩
    have hglobalstop := (tlv_bounds hglobal).2.2.trans (tlv_bounds houter).2.2
    obtain ⟨t, ht, htag, rfl⟩ := hcontent.engine_eq
    exact ⟨_, houter, houtert, hend, _, _, hversion, hn, rfl, _, hglobal, hglobalt, _,
      (globalData_eq_some hglobalstop).mpr hg, _, hsp, hspt, _, hdata, hdatat, _,
      scopedContent_eq_some.mpr ⟨_, hcontent⟩, hdone, _, ht, htag, rfl⟩

/-! ## The TypeScript parser -/

theorem header_eq_some {h : Ts.Header} :
    Ts.header b = some h ↔ ∃ msgId flags, IsHeader b (msgId, flags, h.model) h.spT h.data ∧
      h.auth = decide (flags &&& 1 ≠ 0) ∧ h.priv = decide (flags &&& 2 ≠ 0) ∧
        h.reportable = decide (flags &&& 4 ≠ 0) := by
  unfold Ts.header
  simp only [↓guard_bind, some_bind, tlv_eq, seq_eq_some]
  constructor
  · rintro ⟨outer, houter, hend, l, ⟨houtert, hparts, -⟩, hread⟩
    have hfills : Fills b b.length 0 [outer] := ⟨houter, hend.ge⟩
    split at hread
    case h_1 version globalT sp data =>
      have hin := hparts.within hend.le
      have hglobal := hin globalT (by simp)
      simp only [↓guard_bind, some_bind, seq_eq_some, intOf_eq_some (hin version (by simp))] at hread
      obtain ⟨n, hversion, rfl, l, ⟨hglobalt, hglobals, -⟩, hread⟩ := hread
      split at hread
      case h_1 id max flagsT modelT =>
        have hgin := hglobals.within hglobal.2
        simp only [some_bind, intIn_ts_eq_some (hgin id (by simp)),
          intIn_ts_eq_some (hgin max (by simp)), octets_eq_some] at hread
        obtain ⟨msgId, ⟨hid, hidr⟩, size, ⟨hmax, hmaxr⟩, c, ⟨hflagst, hflags⟩, hread⟩ := hread
        split at hread
        case h_1 flags =>
          simp only [↓guard_bind, some_bind, intIn_ts_eq_some (hgin modelT (by simp)), octets_eq_some,
            Option.pure_def, Option.some.injEq] at hread
          obtain ⟨hauth, model, ⟨hmodel, hmodelr⟩, c, ⟨hspt, rfl⟩, rfl⟩ := hread
          refine ⟨msgId, flags, ⟨hfills, houtert, hparts, hversion, hglobalt,
            ⟨hglobals, hid, hidr, hmax, hmaxr, hflagst, hflags, hmodel, hmodelr, ?_⟩, hspt⟩, rfl, rfl, rfl⟩
          simpa using hauth
        case h_2 => cases hread
      case h_2 => cases hread
    case h_2 => cases hread
  · rintro ⟨msgId, flags, hheader, hauth, hpriv, hreportable⟩
    obtain ⟨auth, priv, reportable, model, sp, data⟩ := h
    dsimp only at hheader hauth hpriv hreportable
    subst hauth hpriv hreportable
    obtain ⟨⟨houter, hend⟩, houtert, hparts, hversion, hglobalt,
      ⟨hglobals, hid, hidr, hmax, hmaxr, hflagst, hflags, hmodel, hmodelr, hlevel⟩, hspt⟩ := hheader
    rename_i outer version globalT id max flagsT modelT size
    have hstop : outer.stop = b.length := (tlv_bounds houter).2.2.antisymm hend
    have hin := hparts.within hstop.le
    have hgin := hglobals.within (hin globalT (by simp)).2
    refine ⟨outer, houter, hstop, _, ⟨houtert, hparts, rfl⟩, ?_⟩
    simp only [↓guard_bind, some_bind, seq_eq_some, intOf_eq_some (hin version (by simp))]
    refine ⟨_, hversion, rfl, _, ⟨hglobalt, hglobals, rfl⟩, ?_⟩
    simp only [some_bind, intIn_ts_eq_some (hgin id (by simp)), intIn_ts_eq_some (hgin max (by simp)),
      octets_eq_some]
    refine ⟨_, ⟨hid, hidr⟩, _, ⟨hmax, hmaxr⟩, _, ⟨hflagst, hflags⟩, ?_⟩
    simp only [↓guard_bind, some_bind, intIn_ts_eq_some (hgin modelT (by simp)), octets_eq_some,
      Option.pure_def, Option.some.injEq]
    exact ⟨by simpa using hlevel, _, ⟨hmodel, hmodelr⟩, _, ⟨hspt, rfl⟩, rfl⟩

theorem security_eq_some {sp : Tlv} (hsp : sp.Within b) {s : Ts.Security} :
    Ts.security b sp = some s ↔ IsSecurity b sp s := by
  have hlength (n : Nat) : ¬ (n ≠ 0 ∧ (n < 5 ∨ 32 < n)) ↔ n = 0 ∨ 5 ≤ n ∧ n ≤ 32 := by omega
  unfold Ts.security
  simp only [↓guard_bind, some_bind, tlv_eq, seq_eq_some]
  constructor
  · rintro ⟨inner, hinner, hend, l, ⟨hinnert, hparts, -⟩, hread⟩
    have hfills : Fills b sp.stop sp.start [inner] := ⟨hinner, hend.ge⟩
    split at hread
    case h_1 engine bootsT timeT user authParams privParams =>
      have hin := hparts.within (hend.le.trans hsp.2)
      simp only [↓guard_bind, some_bind, intIn_ts_eq_some (hin bootsT (by simp)),
        intIn_ts_eq_some (hin timeT (by simp)), octets_eq_some, hlength, Option.pure_def,
        Option.some.injEq] at hread
      obtain ⟨c, ⟨henginet, rfl⟩, hlen, boots, ⟨hboots, hbootsr⟩, time, ⟨htime, htimer⟩, c, ⟨husert, rfl⟩,
        huser, c, ⟨hautht, rfl⟩, c, ⟨hprivt, rfl⟩, rfl⟩ := hread
      exact ⟨hfills, hinnert, hparts, henginet, hlen, hboots, hbootsr, htime, htimer, husert, huser, hautht,
        hprivt⟩
    case h_2 => cases hread
  · rintro ⟨⟨hinner, hend⟩, hinnert, hparts, henginet, hlen, hboots, hbootsr, htime, htimer, husert, huser,
      hautht, hprivt⟩
    rename_i inner engine bootsT timeT user authParams privParams boots time
    have hstop : inner.stop = sp.stop := (tlv_bounds hinner).2.2.antisymm hend
    have hin := hparts.within (hstop.le.trans hsp.2)
    refine ⟨inner, hinner, hstop, _, ⟨hinnert, hparts, rfl⟩, ?_⟩
    simp only [↓guard_bind, some_bind, intIn_ts_eq_some (hin bootsT (by simp)),
      intIn_ts_eq_some (hin timeT (by simp)), octets_eq_some, hlength, Option.pure_def,
      Option.some.injEq]
    exact ⟨_, ⟨henginet, rfl⟩, hlen, _, ⟨hboots, hbootsr⟩, _, ⟨htime, htimer⟩, _, ⟨husert, rfl⟩, huser, _,
      ⟨hautht, rfl⟩, _, ⟨hprivt, rfl⟩, rfl⟩

theorem IsHeader.within {g : Int × UInt8 × Int} {sp data : Tlv} (h : IsHeader b g sp data) :
    sp.Within b ∧ data.Within b := by
  obtain ⟨⟨houter, -⟩, -, hparts⟩ := h
  have hin := hparts.within (tlv_bounds houter).2.2
  exact ⟨hin sp (by simp), hin data (by simp)⟩

/-! ## The two together -/

/-- What both implementations say of a message. -/
structure Reading where
  model : Int
  auth : Bool
  priv : Bool
  reportable : Bool
  engine : Bytes
  boots : Int
  time : Int
  user : Bytes
  authSpan : Nat × Nat
  privParams : Bytes
  pdu : Option Pdu
  encrypted : Option Bytes
  deriving DecidableEq, Repr

def MsgData.pdu : MsgData → Option Pdu
  | .encrypted _ => none
  | .plain pdu => some pdu

def MsgData.data : MsgData → Option Bytes
  | .encrypted data => some data
  | .plain _ => none

def Message.reading (m : Message) : Reading where
  model := m.model
  auth := m.auth
  priv := m.priv
  reportable := m.reportable
  engine := m.engine
  boots := m.boots
  time := m.time
  user := m.user
  authSpan := m.authSpan
  privParams := m.privParams
  pdu := m.data.pdu
  encrypted := m.data.data

/-- The request id, the tag and the varbinds of a PDU. -/
def Ts.Pdu.reading (p : Ts.Pdu) : Events.Pdu := ⟨p.tag, p.requestId, p.varbinds⟩

def Ts.Message.reading (m : Ts.Message) : Reading where
  model := m.model
  auth := m.auth
  priv := m.priv
  reportable := m.reportable
  engine := m.engineId
  boots := m.boots
  time := m.time
  user := m.userName
  authSpan := (m.authParams.start, m.authParams.stop)
  privParams := m.privParams
  pdu := m.pdu.map Ts.Pdu.reading
  encrypted := m.encrypted

theorem payload_iff {priv : Bool} {data : Tlv} (hin : data.Within b) {pdu : Option Pdu}
    {encrypted : Option Bytes} :
    (∃ p, Ts.payload b priv data = some (p, encrypted) ∧ p.map Ts.Pdu.reading = pdu) ↔
      ∃ d, IsData b priv data d ∧ d.pdu = pdu ∧ d.data = encrypted := by
  unfold Ts.payload
  cases priv with
  | true =>
    simp only [if_true, Option.map_eq_some_iff, octets_eq_some, Prod.mk.injEq]
    constructor
    · rintro ⟨p, ⟨c, ⟨htag, rfl⟩, rfl, rfl⟩, rfl⟩
      exact ⟨_, .encrypted rfl htag, rfl, rfl⟩
    · rintro ⟨d, hd, rfl, rfl⟩
      cases hd with
      | encrypted _ htag => exact ⟨none, ⟨_, ⟨htag, rfl⟩, rfl, rfl⟩, rfl⟩
      | plain hpriv => cases hpriv
  | false =>
    simp only [Bool.false_eq_true, if_false, Option.map_eq_some_iff, Prod.mk.injEq]
    constructor
    · rintro ⟨p, ⟨⟨tag, engine, id, varbinds⟩, hpdu, rfl, rfl⟩, rfl⟩
      obtain ⟨htag, hcontent⟩ := (scopedPdu_eq_some hin).mp hpdu
      exact ⟨_, .plain rfl htag hcontent, rfl, rfl⟩
    · rintro ⟨d, hd, rfl, rfl⟩
      cases hd with
      | encrypted hpriv => cases hpriv
      | plain _ htag hcontent =>
        exact ⟨_, ⟨_, (scopedPdu_eq_some hin).mpr ⟨htag, hcontent⟩, rfl, rfl⟩, rfl⟩

theorem parseMessage_iff {r : Reading} :
    (∃ m, Ts.parseMessage b = some m ∧ m.reading = r) ↔ ∃ m, IsMessage b m ∧ m.reading = r := by
  unfold Ts.parseMessage
  simp only [Bool.false_eq_true, if_false, some_bind, header_eq_some, Option.pure_def, Option.some.injEq]
  constructor
  · rintro ⟨m, ⟨h, ⟨msgId, flags, hheader, hauth, hpriv, hreportable⟩, s, hs, ⟨p, encrypted⟩, hp, rfl⟩, rfl⟩
    have hin := hheader.within
    rw [security_eq_some hin.1] at hs
    obtain ⟨d, hd, hpdu, rfl⟩ := (payload_iff hin.2).mp ⟨p, hp, rfl⟩
    rw [hpriv] at hd
    refine ⟨_, ⟨hheader, hs, hd⟩, ?_⟩
    simp only [Message.reading, messageOf, Ts.Message.reading, hauth, hpriv, hreportable, hpdu]
  · rintro ⟨m, ⟨hheader, hs, hd⟩, rfl⟩
    rename_i sp data msgId model flags s d
    have hin := hheader.within
    obtain ⟨p, hp, hpdu⟩ := (payload_iff hin.2).mpr ⟨d, hd, rfl, rfl⟩
    refine ⟨_, ⟨⟨_, _, _, model, sp, data⟩, ⟨msgId, flags, hheader, rfl, rfl, rfl⟩, s,
      (security_eq_some hin.1).mpr hs, _, hp, rfl⟩, ?_⟩
    unfold Ts.Message.reading
    rw [hpdu]
    rfl

theorem parse_agree (b : Bytes) :
    (parseV3 b).map Message.reading = (Ts.parseMessage b).map Ts.Message.reading := by
  ext r
  simp only [Option.map_eq_some_iff, parseV3_eq_some, parseMessage_iff]

theorem parseTsm_agree (b : Bytes) : parseTsm b = (Ts.parseMessage b true).bind fun m =>
      m.pdu.map fun p => (m.model, p.reading, p.contextEngineId) := by
  ext ⟨model, pdu, engine⟩
  rw [parseTsm_eq_some, Option.bind_eq_some_iff]
  unfold Ts.parseMessage
  simp only [if_true, some_bind, header_eq_some, Option.pure_def, Option.some.injEq]
  constructor
  · rintro ⟨hheader, htag, hcontent⟩
    rename_i sp data msgId flags
    have hpdu := (scopedPdu_eq_some hheader.within.2).mpr ⟨htag, hcontent⟩
    exact ⟨_, ⟨⟨_, _, _, model, sp, data⟩, ⟨msgId, flags, hheader, rfl, rfl, rfl⟩, _, hpdu, rfl⟩, rfl⟩
  · rintro ⟨m, ⟨h, ⟨msgId, flags, hheader, -⟩, ⟨tag, engine, id, varbinds⟩, hpdu, rfl⟩, heq⟩
    obtain ⟨htag, hcontent⟩ := (scopedPdu_eq_some hheader.within.2).mp hpdu
    cases heq
    exact ⟨hheader, htag, hcontent⟩

end Dsip.Events
