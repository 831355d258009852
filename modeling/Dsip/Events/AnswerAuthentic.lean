import Dsip.Events.AnswerUsm
import Dsip.Events.Timeliness

/-!
# The gateway's answers are ones it would accept

The response to an inform that a receiver accepts, the two Reports and the answers
with transport security are read by the parsers that read what they answer, and say
of it what they are to say (`answers_authentic`). The Reports and the answers are
built of parts; the length of the message that is answered is what bounds them.
-/

namespace Dsip.Events

open Dsip.Lib

/-! ## What is answered -/

variable {engine : Bytes}

section Accepted

variable {c : Crypto} {rx rx' : UsmReceiver} {b : Bytes} {trap : Trap} {m : Message} {u : User}
  {privKey : Option Bytes}

theorem authentic_inv (h : rx.authenticate c b = .ok (.authentic m u privKey)) :
    parseV3 b = some m ∧ m.model = 3 ∧ m.auth = true ∧ rx.userOf m.engine m.user = some u ∧
      ∃ authKey, UsmReceiver.keys c u m.engine = .ok (authKey, privKey) := by
  unfold UsmReceiver.authenticate at h
  cases hm : parseV3 b with
  | none => rw [hm] at h; cases h
  | some m' =>
    rw [hm] at h
    dsimp only at h
    split at h
    case isTrue => cases h
    case isFalse hmodel =>
      split at h
      case isTrue => cases h
      case isFalse =>
        cases hu : rx.userOf m'.engine m'.user with
        | none => rw [hu] at h; cases h
        | some u' =>
          rw [hu] at h
          dsimp only at h
          split at h
          case isTrue => cases h
          case isFalse hlevel =>
            cases hkeys : UsmReceiver.keys c u' m'.engine with
            | error e => rw [hkeys] at h; cases h
            | ok ks =>
              rw [hkeys] at h
              dsimp only [bind, Except.bind] at h
              split at h
              case isTrue =>
                cases h
                exact ⟨rfl, not_not.mp hmodel, not_not.mp fun hauth => hlevel (.inl hauth), hu, _, hkeys⟩
              case isFalse => cases h

theorem deliver_inv (h : rx.deliver c m u privKey = .ok (.accepted trap)) :
    ∃ pdu, UsmReceiver.pduOf c m privKey = .ok (some pdu) ∧ trap.varbinds = pdu.varbinds ∧
      ∀ id, trap.inform = some id → pdu.tag = 0xA6 ∧ pdu.requestId = id := by
  unfold UsmReceiver.deliver at h
  cases hpdu : UsmReceiver.pduOf c m privKey with
  | error e => rw [hpdu] at h; cases h
  | ok pdu =>
    rw [hpdu] at h
    cases pdu with
    | none => cases h
    | some pdu =>
      dsimp only [bind, Except.bind] at h
      split at h
      case isTrue => cases h
      case isFalse =>
        split at h
        case isTrue => cases h
        case isFalse =>
          cases h
          refine ⟨pdu, rfl, rfl, fun id hid => ?_⟩
          dsimp only at hid
          split at hid
          case isTrue htag => exact ⟨htag, Option.some.inj hid⟩
          case isFalse => cases hid

theorem accepted_inv (h : rx.receive c b = .ok (rx', .accepted trap)) :
    ∃ m u authKey privKey pdu, parseV3 b = some m ∧ m.model = 3 ∧ m.auth = true ∧
      rx.userOf m.engine m.user = some u ∧ UsmReceiver.keys c u m.engine = .ok (authKey, privKey) ∧
        UsmReceiver.pduOf c m privKey = .ok (some pdu) ∧ trap.varbinds = pdu.varbinds ∧
          ∀ id, trap.inform = some id → pdu.tag = 0xA6 ∧ pdu.requestId = id := by
  unfold UsmReceiver.receive at h
  cases ha : rx.authenticate c b with
  | error e => rw [ha] at h; cases h
  | ok a =>
    rw [ha] at h
    cases a with
    | refused reason report => cases h
    | authentic m u privKey =>
      obtain ⟨hparse, hmodel, hauth, hu, authKey, hkeys⟩ := authentic_inv ha
      have hdeliver : ∃ rx₁ : UsmReceiver, rx₁.deliver c m u privKey = .ok (.accepted trap) := by
        dsimp only [bind, Except.bind] at h
        split at h
        case isTrue =>
          split at h
          case isTrue =>
            cases hr : rx.deliver c m u privKey with
            | error e => rw [hr] at h; cases h
            | ok r => rw [hr] at h; cases h; exact ⟨rx, hr⟩
          case isFalse => cases h
        case isFalse =>
          split at h
          case isTrue =>
            cases hr : UsmReceiver.deliver c
                { rx with cache := rx.cache.insert m.engine (rx.entry m) } m u privKey with
            | error e => rw [hr] at h; cases h
            | ok r => rw [hr] at h; cases h; exact ⟨_, hr⟩
          case isFalse => cases h
      obtain ⟨rx₁, hr⟩ := hdeliver
      obtain ⟨pdu, hpdu, hvarbinds, hinform⟩ := deliver_inv hr
      exact ⟨m, u, authKey, privKey, pdu, hparse, hmodel, hauth, hu, hkeys, hpdu, hvarbinds, hinform⟩

theorem keys_priv {authKey key : Bytes} (h : UsmReceiver.keys c u engine = .ok (authKey, privKey))
    (hkey : u.privSecret = some (.key key)) : privKey = some (key.take 16) := by
  unfold UsmReceiver.keys at h
  rw [hkey] at h
  dsimp only [bind, Except.bind] at h
  cases hlocal : u.authSecret.localize c u.auth engine with
  | error e => rw [hlocal] at h; cases h
  | ok auth => rw [hlocal] at h; cases h; rfl

theorem keys_none {authKey : Bytes} (h : UsmReceiver.keys c u engine = .ok (authKey, privKey))
    (hnone : u.privSecret = none) : privKey = none := by
  unfold UsmReceiver.keys at h
  rw [hnone] at h
  dsimp only [bind, Except.bind] at h
  cases hlocal : u.authSecret.localize c u.auth engine with
  | error e => rw [hlocal] at h; cases h
  | ok auth => rw [hlocal] at h; cases h; rfl

end Accepted

/-- The keys of a user are given, where it has them. -/
structure User.Configured (u : User) : Prop where
  auth : ∃ key, u.authSecret = .key key
  priv : ∀ secret, u.privSecret = some secret → ∃ key, secret = .key key

/-- What an answer is to the message it answers: of its id and user, by the
gateway's engine, and with these flags. -/
structure Replies (m answer : Message) (source : LocalEngine) (bits : UInt8) : Prop where
  msgId : answer.msgId = m.msgId
  user : answer.user = m.user
  engine : answer.engine = source.engineId
  boots : answer.boots = source.boots
  time : answer.time = source.time
  flags : answer.flags = bits
  auth : answer.auth = decide (bits &&& 1 ≠ 0)
  priv : answer.priv = decide (bits &&& 2 ≠ 0)
  reportable : answer.reportable = false
  model : answer.model = 3

section Responses

variable {c : Sealer} {rx rx' : UsmReceiver} {b : Bytes} {trap : Trap} {m : Message} {u : User} {requestId : Int}

theorem exists_received (hparse : parseV3 b = some m) :
    ∃ data, received b = some (m.msgId, m.flags, m.model, data) ∧
      ∀ pdu, m.data = .plain pdu → ∃ p, ReadsAs data p pdu.varbinds ∧ p.tag = pdu.tag ∧
        p.requestId = pdu.requestId ∧ Fieldable pdu.requestId := by
  obtain ⟨hheader, hsecurity, hisData⟩ := parseV3_eq_some.mp hparse
  obtain ⟨part, hreceived, rfl, hat⟩ := exists_data hheader
  refine ⟨_, hreceived, fun pdu hplain => ?_⟩
  cases hisData with
  | encrypted => cases hplain
  | plain hpriv htag hscoped =>
    cases hplain
    obtain ⟨p, hreads, -, hfields⟩ := readsAs_of_isScoped hat htag hscoped
    exact ⟨p, hreads, hfields⟩

theorem flags_of_parseV3 (hparse : parseV3 b = some m) :
    m.auth = decide (m.flags &&& 1 ≠ 0) ∧ m.priv = decide (m.flags &&& 2 ≠ 0) ∧
      ¬ (m.flags &&& 2 ≠ 0 ∧ m.flags &&& 1 = 0) ∧ (0 ≤ m.msgId ∧ m.msgId ≤ max31) ∧ m.user.length ≤ 32 ∧
        (m.flags &&& 2 ≠ 0 ↔ ∃ data, m.data = .encrypted data) := by
  obtain ⟨hheader, hsecurity, hisData⟩ := parseV3_eq_some.mp hparse
  obtain ⟨-, -, -, -, -, hglobal, -⟩ := hheader
  obtain ⟨-, -, hid, -, -, -, -, -, -, hlevel⟩ := hglobal
  cases hsecurity with
  | mk _ _ _ _ _ _ _ _ _ _ huser =>
    refine ⟨rfl, rfl, hlevel, hid, huser, ?_⟩
    cases hisData with
    | encrypted hpriv => exact iff_of_true (of_decide_eq_true hpriv) ⟨_, rfl⟩
    | plain hpriv => exact iff_of_false (of_decide_eq_false hpriv) nofun

theorem plaintext_accepted (h : rx.receive c.toCrypto b = .ok (rx', .accepted trap))
    (hparse : parseV3 b = some m) (hu : rx.userOf m.engine m.user = some u) (hconfigured : u.Configured)
    (hid : trap.inform = some requestId) :
    ∃ plain p, plaintext c.toCrypto (some u) b m = some plain ∧ ReadsAs plain p trap.varbinds ∧
      p.tag = 0xA6 ∧ p.requestId = requestId ∧ Fieldable requestId ∧
        ((∃ data, m.data = .encrypted data) → m.privParams.length = 8 ∧
          ∃ key, u.privKey = .ok key ∧ key.length = 16) := by
  obtain ⟨m', u', authKey, privKey, pdu, hparse', -, -, hu', hkeys, hpdu, hvarbinds, hinform⟩ := accepted_inv h
  cases hparse.symm.trans hparse'
  cases hu.symm.trans hu'
  obtain ⟨htag, rfl⟩ := hinform requestId hid
  rw [hvarbinds, ← htag]
  unfold UsmReceiver.pduOf at hpdu
  unfold plaintext
  cases hdata : m.data with
  | plain pdu' =>
    rw [hdata] at hpdu
    cases hpdu
    obtain ⟨data, hreceived, hplain⟩ := exists_received hparse
    obtain ⟨p, hreads, hptag, hprequest, hrange⟩ := hplain pdu hdata
    rw [hreceived]
    exact ⟨data, p, rfl, hreads, hptag, hprequest, hrange, nofun⟩
  | encrypted data =>
    rw [hdata] at hpdu
    cases hsecret : u.privSecret with
    | none =>
      cases keys_none hkeys hsecret
      cases hpdu
    | some secret =>
      obtain ⟨key, rfl⟩ := hconfigured.priv secret hsecret
      cases keys_priv hkeys hsecret
      have hkey : u.privKey = .ok (key.take 16) := by
        unfold User.privKey
        rw [hsecret]
      dsimp only at hpdu
      split at hpdu
      case isTrue => cases hpdu
      case isFalse height =>
        unfold aesCfb at hpdu
        split at hpdu
        case isFalse => cases hpdu
        case isTrue hsixteen =>
          have hscoped := Except.ok.inj hpdu
          obtain ⟨p, hreads, hptag, hprequest, hrange⟩ := parseScopedPdu_eq_some.mp hscoped
          refine ⟨_, p, ?_, hreads, hptag, hprequest, hrange, fun _ => ⟨not_not.mp height, _, hkey, hsixteen⟩⟩
          simp only [Option.bind_eq_bind, Option.bind_some, hkey, Except.toOption, Option.pure_def]
          rfl

theorem length_plaintext_le (hc : c.Lawful) (hparse : parseV3 b = some m) {user : Option User} {plain : Bytes}
    (h : plaintext c.toCrypto user b m = some plain) : plain.length ≤ b.length := by
  obtain ⟨hheader, hsecurity, hisData⟩ := parseV3_eq_some.mp hparse
  cases hisData with
  | encrypted =>
    unfold plaintext messageOf at h
    simp only [Option.bind_eq_bind, Option.bind_eq_some_iff, Option.pure_def, Option.some.injEq] at h
    obtain ⟨u, -, key, -, rfl⟩ := h
    rw [hc.decrypt_length]
    exact length_slice_le _ _ _
  | plain =>
    unfold plaintext at h
    rw [received_of_isHeader hheader] at h
    obtain rfl := Option.some.inj h
    exact length_slice_le _ _ _

theorem and_three (bits : UInt8) :
    (bits &&& 3) &&& 1 = bits &&& 1 ∧ (bits &&& 3) &&& 2 = bits &&& 2 ∧ (bits &&& 3) &&& 4 = 0 := by
  rw [UInt8.and_assoc, UInt8.and_assoc, UInt8.and_assoc]
  exact ⟨rfl, rfl, UInt8.and_zero⟩

theorem snmpAnswer_response {q : Question} (hq : q.message = b) (hkind : reportOid q.answer = none)
    (huser : q.user = some u) (hparse : parseV3 b = some m) (hmodel : m.model = 3) {plain : Bytes}
    {p : ScopedParts} {varbinds : List VarBind} (hplain : plaintext c.toCrypto (some u) b m = some plain)
    (hreads : ReadsAs plain p varbinds) (hkey : (∃ data, m.data = .encrypted data) → m.privParams.length = 8 ∧
      ∃ key, u.privKey = .ok key ∧ key.length = 16) :
    snmpAnswer c q = (writeUsm c m.msgId (m.flags &&& 3) q.localEngine m.user
      (writeScoped p.engine p.name 0xA2 p.requestId p.list) (some u) q.salt).map some := by
  obtain ⟨data, hreceived, -⟩ := exists_received hparse
  have hraw := scopedRaw_of_readScoped hreads.readScoped
  have hfour : ¬ m.model = 4 := by
    rw [hmodel]
    decide
  unfold snmpAnswer
  rw [hkind, hq, hreceived]
  dsimp only
  rw [if_neg hfour, hparse, huser]
  dsimp only
  unfold plaintext at hplain
  cases hdata : m.data with
  | plain pdu =>
    rw [hdata, hreceived] at hplain
    obtain rfl := Option.some.inj hplain
    dsimp only [pure, Except.pure, bind, Except.bind]
    rw [hraw]
    dsimp only
    cases writeUsm c m.msgId (m.flags &&& 3) q.localEngine m.user
      (writeScoped p.engine p.name 0xA2 p.requestId p.list) (some u) q.salt <;> rfl
  | encrypted enc =>
    obtain ⟨height, key, hkey', hsixteen⟩ := hkey ⟨enc, hdata⟩
    have hiv : (ivOf m.boots m.time m.privParams).length = 16 := by
      rw [length_ivOf, height]
    have hopen : cfb c.decrypt key (ivOf m.boots m.time m.privParams) enc = .ok _ := if_pos ⟨hsixteen, hiv⟩
    rw [hdata] at hplain
    simp only [Option.bind_eq_bind, Option.bind_some, hkey', Except.toOption, Option.pure_def,
      Option.some.injEq] at hplain
    subst hplain
    dsimp only [pure, Except.pure, bind, Except.bind]
    rw [hkey']
    dsimp only
    rw [hopen]
    dsimp only
    rw [hraw]
    dsimp only
    cases writeUsm c m.msgId (m.flags &&& 3) q.localEngine m.user
      (writeScoped p.engine p.name 0xA2 p.requestId p.list) (some u) q.salt <;> rfl

theorem authKey_of_key {key : Bytes} (h : u.authSecret = .key key) : u.authKey = .ok key := by
  unfold User.authKey
  rw [h]

theorem response_spec (hc : c.Lawful) {q : Question} (hsource : q.localEngine.Valid) (hsalt : q.salt.length = 8)
    (hkind : reportOid q.answer = none) (hlength : q.message.length < 2 ^ 29)
    (h : rx.receive c.toCrypto q.message = .ok (rx', .accepted trap)) (hid : trap.inform = some requestId)
    (hparse : parseV3 q.message = some m) (hu : rx.userOf m.engine m.user = some u) (hconfigured : u.Configured)
    (huser : q.user = some u) :
    ∃ answer m' plain plain' p, snmpAnswer c q = .ok (some answer) ∧ parseV3 answer = some m' ∧
      Replies m m' q.localEngine (m.flags &&& 3) ∧ m'.auth = m.auth ∧ m'.priv = m.priv ∧
      (∀ key, u.authSecret = .key key → UsmReceiver.macOk c.toCrypto u key answer m' = true) ∧
      plaintext c.toCrypto q.user q.message m = some plain ∧
      plaintext c.toCrypto q.user answer m' = some plain' ∧
      readScoped plain = some p ∧ p.tag = 0xA6 ∧ p.requestId = requestId ∧
      readScoped plain' = some { p with tag := 0xA2, status := 0, index := 0 } ∧
      parseScopedPdu plain' = some ⟨0xA2, requestId, trap.varbinds⟩ := by
  obtain ⟨plain, p, hplain, hreads, hptag, hprequest, hrange, hkey⟩ := plaintext_accepted h hparse hu hconfigured hid
  obtain ⟨_, _, _, _, _, hparse', hmodel, hauth, -⟩ := accepted_inv h
  cases hparse.symm.trans hparse'
  obtain ⟨hauth_eq, hpriv_eq, hlevel, hmsgId, hname, hencrypted⟩ := flags_of_parseV3 hparse
  obtain ⟨hone, htwo, hfour⟩ := and_three m.flags
  have hplain_le := length_plaintext_le hc hparse hplain
  obtain ⟨list, hlist, -, hvarbinds, hengine_le, hname_le, hlist_le⟩ := hreads.exists_list
  obtain ⟨whole, hwhole, hwhole_tag, hwhole_length, hwhole_reads, hscoped⟩ := @exists_scopedPart p.engine p.name
    0xA2 p.requestId list trap.varbinds (hprequest ▸ hrange) (by decide) (by omega) (by omega)
    (by rw [hlist]; omega) hvarbinds
  rw [hlist] at hwhole hwhole_reads
  have hauthKey : (m.flags &&& 3) &&& 1 ≠ 0 → ∃ u' key, some u = some u' ∧ u'.authKey = .ok key := by
    intro _
    obtain ⟨key, hsecret⟩ := hconfigured.auth
    exact ⟨u, key, rfl, authKey_of_key hsecret⟩
  have hprivKey : (m.flags &&& 3) &&& 2 ≠ 0 →
      q.salt.length = 8 ∧ ∃ u' key, some u = some u' ∧ u'.privKey = .ok key ∧ key.length = 16 := by
    intro hbit
    rw [htwo] at hbit
    obtain ⟨-, key, hkey, hsixteen⟩ := hkey (hencrypted.mp hbit)
    exact ⟨hsalt, u, key, rfl, hkey, hsixteen⟩
  obtain ⟨answer, auth, d, hwrite, hread, hplain', hmac⟩ := writeUsm_spec hc hmsgId
    (by rw [hone, htwo]; exact hlevel) hsource hname hwhole_tag hwhole_length hscoped hauthKey hprivKey
  refine ⟨answer, _, plain, whole.bytes, p, ?_, hread, ⟨rfl, rfl, rfl, rfl, rfl, rfl, rfl, rfl, ?_, rfl⟩, ?_, ?_,
    fun key hsecret => ?_, huser ▸ hplain, huser ▸ hplain', hreads.readScoped, hptag, hprequest,
    hwhole_reads.readScoped, ?_⟩
  · rw [snmpAnswer_response rfl hkind huser hparse hmodel hplain hreads hkey, ← hwhole, hwrite]
    rfl
  · exact decide_eq_false (not_not.mpr hfour)
  · rw [hauth_eq, ← hone]
    rfl
  · rw [hpriv_eq, ← htwo]
    rfl
  · refine hmac u key ?_ rfl (authKey_of_key hsecret)
    rw [hone]
    rw [hauth_eq] at hauth
    exact of_decide_eq_true hauth
  · exact parseScopedPdu_eq_some.mpr ⟨_, hwhole_reads, rfl, hprequest, hrange⟩

end Responses

/-! ## Reports and transport security -/

section Others

variable {c : Sealer} {m : Message} {q : Question} {oid : String}

theorem exists_oid {x : Nat} {ns : List Nat} (h : ∀ n ∈ x :: ns, n < 2 ^ 64)
    (hlength : ((x :: ns).flatMap writeSub).length ≤ 100) :
    ∃ c, writeOid (dotted (x :: ns)) = some (writeTlv 0x06 c) ∧ berOid c = some (dotted (x :: ns)) ∧
      c.length ≤ 100 :=
  ⟨_, writeOid_dotted h, berOid_flatMap (by simp) h, hlength⟩

theorem exists_reportOid (hkind : reportOid q.answer = some oid) :
    ∃ c, writeOid oid = some (writeTlv 0x06 c) ∧ berOid c = some oid ∧ c.length ≤ 100 := by
  cases hanswer : q.answer with
  | response => rw [hanswer] at hkind; cases hkind
  | discovery => rw [hanswer] at hkind; cases hkind
  | unknownEngineId =>
    rw [hanswer] at hkind
    cases hkind
    exact @exists_oid 43 [6, 1, 6, 3, 15, 1, 1, 4, 0] (by decide) (by decide)
  | notInTimeWindow =>
    rw [hanswer] at hkind
    cases hkind
    exact @exists_oid 43 [6, 1, 6, 3, 15, 1, 1, 2, 0] (by decide) (by decide)

theorem exists_snmpEngineIdOid :
    ∃ c, writeOid snmpEngineIdOid = some (writeTlv 0x06 c) ∧ berOid c = some snmpEngineIdOid ∧ c.length ≤ 100 :=
  @exists_oid 43 [6, 1, 6, 3, 10, 2, 1, 1, 0] (by decide) (by decide)

theorem exists_counter {n : Nat} (hn : n < 2 ^ 32) :
    ∃ value : Part, value.bytes = writeUint 0x41 n ∧ value.bytes.length ≤ 100 ∧
      berValue value.tlv.tag (value.tlv.content value.bytes) = some ⟨"Counter32", toString n⟩ := by
  have hread := (berUint_uintContent (n := n) (by omega)).1
  have hlength : (uintContent n).length ≤ 9 := by
    unfold berUint at hread
    split at hread
    case isTrue h => exact h.2.1
    case isFalse => cases hread
  have hvalue : (writeTlv 0x41 (uintContent n)).length ≤ _ := length_writeTlv_le (by omega)
  refine ⟨.written 0x41 (uintContent n) (by decide) (by omega), rfl, ?_, ?_⟩
  · rw [Part.written_bytes]
    omega
  · rw [Part.content_written, Part.written_tag]
    have hle : (0x41 : UInt8) = 0x46 ∨ n ≤ 2 ^ 32 - 1 := .inr (by omega)
    change (do let v ← berUint (uintContent n); guard _; return _) = _
    rw [hread]
    dsimp only [bind, Option.bind]
    rw [guard, if_pos hle]
    rfl

theorem report_spec (hc : c.Lawful) (hsource : q.localEngine.Valid) (hkind : reportOid q.answer = some oid)
    (hcounter : q.counter < 2 ^ 32) (hparse : parseV3 q.message = some m)
    (huser : q.answer = .notInTimeWindow → ∃ u key, q.user = some u ∧ u.authSecret = .key key) :
    ∃ answer m' plain list, snmpAnswer c q = .ok (some answer) ∧ parseV3 answer = some m' ∧
      Replies m m' q.localEngine (if q.answer = .notInTimeWindow then 1 else 0) ∧
      (∀ u key, q.answer = .notInTimeWindow → q.user = some u → u.authSecret = .key key →
        UsmReceiver.macOk c.toCrypto u key answer m' = true) ∧
      plaintext c.toCrypto q.user answer m' = some plain ∧
      readScoped plain = some ⟨q.localEngine.engineId, [], 0xA8, 0, 0, 0, list⟩ ∧
      parseScopedPdu plain = some ⟨0xA8, 0, [⟨oid, ⟨"Counter32", toString q.counter⟩⟩]⟩ := by
  obtain ⟨-, -, -, hmsgId, hname, -⟩ := flags_of_parseV3 hparse
  obtain ⟨content, hwriteOid, hreadOid, hcontent⟩ := exists_reportOid hkind
  obtain ⟨value, hvalue, hvalue_le, hvalue_eq⟩ := exists_counter hcounter
  obtain ⟨list, hlist, hlist_lt, hvarbinds⟩ := exists_writeVarBind hwriteOid hreadOid hcontent hvalue_eq hvalue_le
  have hengine := hsource.engineId
  obtain ⟨whole, hwhole, hwhole_tag, hwhole_length, hwhole_reads, hscoped⟩ := @exists_scopedPart
    q.localEngine.engineId [] 0xA8 0 list _ fieldable_zero (by decide) (by omega) (by decide) hlist_lt hvarbinds
  generalize hbits : (if q.answer = .notInTimeWindow then 0x01 else 0x00 : UInt8) = bits
  have hpriv : bits &&& 2 = 0 := by
    rw [← hbits]
    split <;> rfl
  have hfour : bits &&& 4 = 0 := by
    rw [← hbits]
    split <;> rfl
  have hone : bits &&& 1 ≠ 0 ↔ q.answer = .notInTimeWindow := by
    rw [← hbits]
    split
    case isTrue hanswer => exact iff_of_true (by decide) hanswer
    case isFalse hanswer => exact iff_of_false (by decide) hanswer
  obtain ⟨answer, auth, d, hwrite, hread, hplain, hmac⟩ := @writeUsm_spec c m.msgId bits q.localEngine m.user []
    q.localEngine.engineId q.user whole _ hc hmsgId (fun h => h.1 hpriv) hsource hname hwhole_tag hwhole_length hscoped
    (fun hbit => by
      obtain ⟨u, key, hu, hsecret⟩ := huser (hone.mp hbit)
      exact ⟨u, key, hu, authKey_of_key hsecret⟩) (fun hbit => absurd hpriv hbit)
  refine ⟨answer, _, whole.bytes, list.bytes, ?_, hread, ⟨rfl, rfl, rfl, rfl, rfl, rfl, rfl, rfl, ?_, rfl⟩,
    fun u key hanswer hu hsecret => hmac u key (hone.mpr hanswer) hu (authKey_of_key hsecret), hplain,
    hwhole_reads.readScoped, parseScopedPdu_eq_some.mpr ⟨_, hwhole_reads, rfl, rfl, fieldable_zero⟩⟩
  · unfold snmpAnswer
    rw [hkind]
    dsimp only
    rw [hparse]
    dsimp only
    rw [← hvalue, hlist, hbits]
    dsimp only [bind, Except.bind]
    rw [← hwhole, hwrite]
    rfl
  · exact decide_eq_false (not_not.mpr hfour)

theorem exists_engineId (h : engine.length ≤ 32) :
    ∃ value : Part, value.bytes = writeTlv 0x04 engine ∧ value.bytes.length ≤ 100 ∧
      berValue value.tlv.tag (value.tlv.content value.bytes) = some ⟨"OCTET STRING", octetText engine⟩ := by
  have hvalue : (writeTlv 0x04 engine).length ≤ _ := length_writeTlv_le (by omega)
  refine ⟨.octets engine (by omega), rfl, ?_, ?_⟩
  · rw [Part.octets_bytes]
    omega
  · unfold Part.octets
    rw [Part.content_written]
    rfl

theorem exists_tsmList {p : ScopedParts} {varbinds : List VarBind} {plain : Bytes} (hreads : ReadsAs plain p varbinds)
    (hplain : plain.length < 2 ^ 29) (hengine : q.localEngine.engineId.length ≤ 32) :
    ∃ (list : Part) (answered : List VarBind), IsVarBindList list.bytes list.tlv answered ∧
      list.bytes.length < 2 ^ 29 ∧
      (if q.answer = .discovery then
        writeVarBind snmpEngineIdOid (writeTlv 0x04 q.localEngine.engineId)
      else pure p.list) = .ok list.bytes ∧
      (q.answer = .discovery →
        answered = [⟨snmpEngineIdOid, ⟨"OCTET STRING", octetText q.localEngine.engineId⟩⟩]) ∧
      (q.answer ≠ .discovery → list.bytes = p.list ∧ answered = varbinds) := by
  by_cases hanswer : q.answer = .discovery
  case pos =>
    obtain ⟨content, hwriteOid, hreadOid, hcontent⟩ := exists_snmpEngineIdOid
    obtain ⟨value, hvalue, hvalue_le, hvalue_eq⟩ := exists_engineId hengine
    obtain ⟨list, hlist, hlist_lt, hvarbinds⟩ :=
      exists_writeVarBind hwriteOid hreadOid hcontent hvalue_eq hvalue_le
    rw [if_pos hanswer, ← hvalue]
    exact ⟨list, _, hvarbinds, hlist_lt, hlist, fun _ => rfl, fun h => absurd hanswer h⟩
  case neg =>
    obtain ⟨list, hlist, -, hvarbinds, -, -, hlist_le⟩ := hreads.exists_list
    rw [if_neg hanswer, ← hlist]
    exact ⟨list, varbinds, hvarbinds, by rw [hlist]; omega, rfl, fun h => absurd h hanswer, fun _ => ⟨rfl, rfl⟩⟩

theorem tsm_spec {pdu : Pdu} (hengine : q.localEngine.engineId.length ≤ 32)
    (hkind : reportOid q.answer = none) (hlength : q.message.length < 2 ^ 29)
    (hparse : parseTsm q.message = some (4, pdu, engine)) :
    ∃ answer msgId flags data p plain list varbinds, snmpAnswer c q = .ok (some answer) ∧
      received q.message = some (msgId, flags, 4, data) ∧ readScoped data = some p ∧ p.engine = engine ∧
      p.requestId = pdu.requestId ∧ parseTsm answer = some (4, ⟨0xA2, pdu.requestId, varbinds⟩, engine) ∧
      received answer = some (msgId, flags &&& 3, 4, plain) ∧
      readScoped plain = some ⟨engine, p.name, 0xA2, pdu.requestId, 0, 0, list⟩ ∧
      (q.answer = .discovery →
        varbinds = [⟨snmpEngineIdOid, ⟨"OCTET STRING", octetText q.localEngine.engineId⟩⟩]) ∧
      (q.answer ≠ .discovery → list = p.list ∧ varbinds = pdu.varbinds) := by
  obtain ⟨hheader, htag, hcontent⟩ := parseTsm_eq_some.mp hparse
  rename_i sp data msgId flags
  obtain ⟨part, hreceived, rfl, hat⟩ := exists_data hheader
  obtain ⟨p, hreads, rfl, hptag, hprequest, hrange⟩ := readsAs_of_isScoped hat htag hcontent
  have hpart_le := hat.length_le
  obtain ⟨-, -, -, -, hengine_le, hname_le, -⟩ := hreads.exists_list
  obtain ⟨list, varbinds, hvarbinds, hlist_lt, hlist, hdiscovery, hresponse⟩ :=
    exists_tsmList hreads (by omega) hengine
  obtain ⟨whole, hwhole, hwhole_tag, hwhole_length, hwhole_reads, hscoped⟩ := @exists_scopedPart p.engine p.name
    0xA2 pdu.requestId list varbinds hrange (by decide) (by omega) (by omega) hlist_lt hvarbinds
  obtain ⟨-, -, -, -, -, hglobal, -⟩ := hheader
  obtain ⟨-, -, hmsgId, -, -, -, -, -, -, hlevel⟩ := hglobal
  obtain ⟨hone, htwo, -⟩ := and_three flags
  obtain ⟨sp', hheader', hat', -⟩ := @isHeader_writeMessage msgId 4 (flags &&& 3) [] whole hmsgId (by decide)
    (by rw [hone, htwo]; exact hlevel) (by decide) (by omega)
  have hreceived' := received_of_isHeader hheader'
  have hslice := hat'.slice_self
  rw [← whole.whole] at hslice
  rw [Tlv.shift_stop, hslice] at hreceived'
  refine ⟨(writeMessage msgId (flags &&& 3) 4 [] whole.bytes).1, msgId, flags, part.bytes, p, whole.bytes,
    list.bytes, varbinds, ?_, hreceived, hreads.readScoped, rfl, hprequest,
    parseTsm_eq_some.mpr (.mk hheader' hwhole_tag (hscoped _ _ hat')), hreceived', hwhole_reads.readScoped,
    hdiscovery, hresponse⟩
  unfold snmpAnswer
  rw [hkind, hreceived]
  dsimp only
  rw [if_pos rfl, hparse, scopedRaw_of_readScoped hreads.readScoped]
  dsimp only
  by_cases hanswer : q.answer = .discovery
  case pos =>
    rw [if_pos hanswer] at hlist ⊢
    rw [hlist, hprequest, hwhole]
    rfl
  case neg =>
    rw [if_neg hanswer] at hlist ⊢
    rw [hlist, hprequest, hwhole]
    rfl

end Others

/-- What the gateway says to a message is authentic, and says of it what it is to
say: the response to an inform that a receiver accepts, the two Reports, and the
answers with transport security. -/
theorem answers_authentic (c : Sealer) (hc : c.Lawful) (q : Question) (hsource : q.localEngine.Valid)
    (hlength : q.message.length < 2 ^ 29) :
    (∀ (rx rx' : UsmReceiver) (trap : Trap) (requestId : Int) (m : Message) (u : User),
        reportOid q.answer = none → q.salt.length = 8 →
        rx.receive c.toCrypto q.message = .ok (rx', .accepted trap) → trap.inform = some requestId →
        parseV3 q.message = some m → rx.userOf m.engine m.user = some u → u.Configured → q.user = some u →
          ∃ answer m' plain plain' p, snmpAnswer c q = .ok (some answer) ∧ parseV3 answer = some m' ∧
            Replies m m' q.localEngine (m.flags &&& 3) ∧ m'.auth = m.auth ∧ m'.priv = m.priv ∧
            (∀ key, u.authSecret = .key key → UsmReceiver.macOk c.toCrypto u key answer m' = true) ∧
            plaintext c.toCrypto q.user q.message m = some plain ∧
            plaintext c.toCrypto q.user answer m' = some plain' ∧
            readScoped plain = some p ∧ p.tag = 0xA6 ∧ p.requestId = requestId ∧
            readScoped plain' = some { p with tag := 0xA2, status := 0, index := 0 } ∧
            parseScopedPdu plain' = some ⟨0xA2, requestId, trap.varbinds⟩) ∧
      (∀ (oid : String) (m : Message), reportOid q.answer = some oid → q.counter < 2 ^ 32 →
        parseV3 q.message = some m →
        (q.answer = .notInTimeWindow → ∃ u key, q.user = some u ∧ u.authSecret = .key key) →
          ∃ answer m' plain list, snmpAnswer c q = .ok (some answer) ∧ parseV3 answer = some m' ∧
            Replies m m' q.localEngine (if q.answer = .notInTimeWindow then 1 else 0) ∧
            (∀ u key, q.answer = .notInTimeWindow → q.user = some u → u.authSecret = .key key →
              UsmReceiver.macOk c.toCrypto u key answer m' = true) ∧
            plaintext c.toCrypto q.user answer m' = some plain ∧
            readScoped plain = some ⟨q.localEngine.engineId, [], 0xA8, 0, 0, 0, list⟩ ∧
            parseScopedPdu plain = some ⟨0xA8, 0, [⟨oid, ⟨"Counter32", toString q.counter⟩⟩]⟩) ∧
      ∀ (pdu : Pdu) (engine : Bytes), reportOid q.answer = none → parseTsm q.message = some (4, pdu, engine) →
          ∃ answer msgId flags data p plain list varbinds, snmpAnswer c q = .ok (some answer) ∧
            received q.message = some (msgId, flags, 4, data) ∧ readScoped data = some p ∧ p.engine = engine ∧
            p.requestId = pdu.requestId ∧ parseTsm answer = some (4, ⟨0xA2, pdu.requestId, varbinds⟩, engine) ∧
            received answer = some (msgId, flags &&& 3, 4, plain) ∧
            readScoped plain = some ⟨engine, p.name, 0xA2, pdu.requestId, 0, 0, list⟩ ∧
            (q.answer = .discovery →
              varbinds = [⟨snmpEngineIdOid, ⟨"OCTET STRING", octetText q.localEngine.engineId⟩⟩]) ∧
            (q.answer ≠ .discovery → list = p.list ∧ varbinds = pdu.varbinds) := by
  refine ⟨?_, ?_, ?_⟩
  · intro rx rx' trap requestId m u hkind hsalt h hid hparse hu hconfigured huser
    exact response_spec hc hsource hsalt hkind hlength h hid hparse hu hconfigured huser
  · exact fun oid m hkind hcounter hparse huser => report_spec hc hsource hkind hcounter hparse huser
  · exact fun pdu engine hkind hparse => tsm_spec hsource.engineId.2 hkind hlength hparse

/-! ## An inform that is answered -/

/-- An inform of user `u`, encrypted, with this digest. -/
def informWith (digest : Bytes) : Bytes :=
  [0x30, 0x58, 0x02, 0x01, 0x03, 0x30, 0x0d, 0x02, 0x01, 0x01, 0x02, 0x02, 0x05, 0xdc, 0x04, 0x01, 0x07,
   0x02, 0x01, 0x03, 0x04, 0x2a, 0x30, 0x28, 0x04, 0x05, 0x80, 0x00, 0x00, 0x00, 0x01, 0x02, 0x01, 0x01,
   0x02, 0x01, 0x00, 0x04, 0x01, 0x75, 0x04, 0x0c] ++ digest ++
  [0x04, 0x08, 0x01, 0x02, 0x03, 0x04, 0x05, 0x06, 0x07, 0x08, 0x04, 0x18, 0xd2, 0x4c, 0xea, 0x35, 0xc8,
   0x5e, 0x6c, 0x06, 0x36, 0x9f, 0x7e, 0x7b, 0x8c, 0x62, 0x9e, 0x99, 0x48, 0x72, 0xdf, 0x37, 0xa6, 0x1c,
   0x4b, 0x40]

/-- The response to it, with this digest. -/
def responseWith (digest : Bytes) : Bytes :=
  [0x30, 0x59, 0x02, 0x01, 0x03, 0x30, 0x0e, 0x02, 0x01, 0x01, 0x02, 0x03, 0x00, 0xff, 0xe3, 0x04, 0x01,
   0x03, 0x02, 0x01, 0x03, 0x04, 0x2a, 0x30, 0x28, 0x04, 0x05, 0x80, 0x00, 0x00, 0x00, 0x01, 0x02, 0x01,
   0x01, 0x02, 0x01, 0x00, 0x04, 0x01, 0x75, 0x04, 0x0c] ++ digest ++
  [0x04, 0x08, 0x0b, 0x0c, 0x0d, 0x0e, 0x0f, 0x10, 0x11, 0x12, 0x04, 0x18, 0xa9, 0x67, 0x83, 0xdd, 0x2e,
   0xcb, 0xf1, 0xa8, 0x16, 0xf7, 0xc5, 0xf1, 0x3f, 0x2d, 0x03, 0x52, 0xdd, 0xec, 0x12, 0xe4, 0x82, 0x9f,
   0x4f, 0x15]

/-- The Report that it is not in the time window, with this digest. -/
def reportWith (digest : Bytes) : Bytes :=
  [0x30, 0x60, 0x02, 0x01, 0x03, 0x30, 0x0e, 0x02, 0x01, 0x01, 0x02, 0x03, 0x00, 0xff, 0xe3, 0x04, 0x01,
   0x01, 0x02, 0x01, 0x03, 0x04, 0x22, 0x30, 0x20, 0x04, 0x05, 0x80, 0x00, 0x00, 0x00, 0x01, 0x02, 0x01,
   0x01, 0x02, 0x01, 0x00, 0x04, 0x01, 0x75, 0x04, 0x0c] ++ digest ++
  [0x04, 0x00, 0x30, 0x27, 0x04, 0x05, 0x80, 0x00, 0x00, 0x00, 0x01, 0x04, 0x00, 0xa8, 0x1c, 0x02, 0x01,
   0x00, 0x02, 0x01, 0x00, 0x02, 0x01, 0x00, 0x30, 0x11, 0x30, 0x0f, 0x06, 0x0a, 0x2b, 0x06, 0x01, 0x06,
   0x03, 0x0f, 0x01, 0x01, 0x02, 0x00, 0x41, 0x01, 0x09]

/-- The inform with transport security. -/
def tsmInform : Bytes :=
  [0x30, 0x2c, 0x02, 0x01, 0x03, 0x30, 0x0d, 0x02, 0x01, 0x01, 0x02, 0x02, 0x05, 0xdc, 0x04, 0x01, 0x03,
   0x02, 0x01, 0x04, 0x04, 0x00, 0x30, 0x16, 0x04, 0x05, 0x80, 0x00, 0x00, 0x00, 0x01, 0x04, 0x00, 0xa6,
   0x0b, 0x02, 0x01, 0x07, 0x02, 0x01, 0x00, 0x02, 0x01, 0x00, 0x30, 0x00]

def swap (x y data : Bytes) : Bytes := if data = x then y else if data = y then x else data

theorem length_swap {x y : Bytes} (h : x.length = y.length) (data : Bytes) :
    (swap x y data).length = data.length := by
  unfold swap
  grind

theorem swap_swap (x y data : Bytes) : swap x y (swap x y data) = data := by
  unfold swap
  grind

/-- A ScopedPDU of this tag, in plaintext. -/
def scopedOf (tag : UInt8) : Bytes :=
  [0x30, 0x16, 0x04, 0x05, 0x80, 0x00, 0x00, 0x00, 0x01, 0x04, 0x00, tag, 0x0b, 0x02, 0x01, 0x07, 0x02, 0x01,
    0x00, 0x02, 0x01, 0x00, 0x30, 0x00]

/-- AES-CFB where it is asked: of the inform's ScopedPDU and of the response's. -/
def sealing (iv data : Bytes) : Bytes :=
  if iv = [0, 0, 0, 1, 0, 0, 0, 0, 1, 2, 3, 4, 5, 6, 7, 8] then
    swap (scopedOf 0xA6)
      [0xd2, 0x4c, 0xea, 0x35, 0xc8, 0x5e, 0x6c, 0x06, 0x36, 0x9f, 0x7e, 0x7b, 0x8c, 0x62, 0x9e, 0x99,
       0x48, 0x72, 0xdf, 0x37, 0xa6, 0x1c, 0x4b, 0x40]
      data
  else if iv = [0, 0, 0, 1, 0, 0, 0, 0, 11, 12, 13, 14, 15, 16, 17, 18] then
    swap (scopedOf 0xA2)
      [0xa9, 0x67, 0x83, 0xdd, 0x2e, 0xcb, 0xf1, 0xa8, 0x16, 0xf7, 0xc5, 0xf1, 0x3f, 0x2d, 0x03, 0x52,
       0xdd, 0xec, 0x12, 0xe4, 0x82, 0x9f, 0x4f, 0x15]
      data
  else data

theorem length_sealing (iv data : Bytes) : (sealing iv data).length = data.length := by
  unfold sealing
  split
  · exact length_swap (by decide) data
  · split
    · exact length_swap (by decide) data
    · rfl

theorem sealing_sealing (iv data : Bytes) : sealing iv (sealing iv data) = data := by
  unfold sealing
  split
  · exact swap_swap _ _ data
  · split
    · exact swap_swap _ _ data
    · rfl

/-- HMAC-MD5 and AES where they are asked. -/
def sealer : Sealer where
  hash _ _ := []
  hmac auth _ data :=
    if auth = .md5 ∧ data = informWith (List.replicate 12 0) then
      [0x05, 0xdf, 0xff, 0xaf, 0x24, 0x19, 0x25, 0x9e, 0x9e, 0x5b, 0xb7, 0x97, 0x7d, 0xb2, 0x82, 0x93]
    else if auth = .md5 ∧ data = responseWith (List.replicate 12 0) then
      [0xa0, 0xde, 0x8c, 0x97, 0xea, 0x63, 0xdf, 0x78, 0x3b, 0x3d, 0x57, 0x42, 0xf2, 0x09, 0x1f, 0x52]
    else if auth = .md5 ∧ data = reportWith (List.replicate 12 0) then
      [0x6a, 0x41, 0xfd, 0x85, 0x9a, 0xf3, 0x8a, 0x8d, 0xfe, 0x3d, 0xc9, 0xed, 0x2e, 0xf6, 0x4a, 0x04]
    else List.replicate 48 0
  decrypt _ iv data := sealing iv data
  encrypt _ iv data := sealing iv data

theorem lawful_sealer : sealer.Lawful where
  digest auth key data := by
    unfold sealer
    dsimp only
    split
    case isTrue h => rw [h.1]; decide
    case isFalse =>
      split
      case isTrue h => rw [h.1]; decide
      case isFalse =>
        split
        case isTrue h => rw [h.1]; decide
        case isFalse => cases auth <;> decide
  encrypt_length _ iv data := length_sealing iv data
  decrypt_length _ iv data := length_sealing iv data
  decrypt_encrypt _ iv data _ _ := sealing_sealing iv data

def answerUser : User where
  engineId := none
  user := "u"
  auth := .md5
  authSecret := .key [0, 1, 2, 3, 4, 5, 6, 7, 8, 9, 10, 11, 12, 13, 14, 15]
  privSecret := some (.key [16, 17, 18, 19, 20, 21, 22, 23, 24, 25, 26, 27, 28, 29, 30, 31])

def gatewayEngine : LocalEngine := ⟨[0x80, 0x00, 0x00, 0x00, 0x01], 1, 0⟩

def gatewayReceiver : UsmReceiver := .new ⟨0, gatewayEngine.engineId, 1, 0, [answerUser]⟩

def inform : Bytes := informWith [0x05, 0xdf, 0xff, 0xaf, 0x24, 0x19, 0x25, 0x9e, 0x9e, 0x5b, 0xb7, 0x97]

def informQuestion : Question where
  message := inform
  localEngine := gatewayEngine
  answer := .response
  counter := 9
  user := some answerUser
  salt := [11, 12, 13, 14, 15, 16, 17, 18]

def informMessage : Message where
  msgId := 1
  flags := 7
  auth := true
  priv := true
  reportable := true
  model := 3
  engine := gatewayEngine.engineId
  boots := 1
  time := 0
  user := [0x75]
  authSpan := (42, 54)
  privParams := [1, 2, 3, 4, 5, 6, 7, 8]
  data := .encrypted
    [0xd2, 0x4c, 0xea, 0x35, 0xc8, 0x5e, 0x6c, 0x06, 0x36, 0x9f, 0x7e, 0x7b, 0x8c, 0x62, 0x9e, 0x99, 0x48,
     0x72, 0xdf, 0x37, 0xa6, 0x1c, 0x4b, 0x40]

theorem parseV3_inform : parseV3 inform = some informMessage := by
  rfl

theorem receive_inform : gatewayReceiver.receive sealer.toCrypto inform =
    .ok (gatewayReceiver, .accepted ⟨[], some 7, gatewayEngine.engineId, "u", "authPriv"⟩) := by
  rfl

theorem valid_gatewayEngine : gatewayEngine.Valid where
  engineId := by decide
  boots := by decide
  time := by decide

theorem configured_answerUser : answerUser.Configured where
  auth := ⟨_, rfl⟩
  priv := by
    rintro _ ⟨⟩
    exact ⟨_, rfl⟩

theorem answers_authentic_inform :
    (∃ answer m', snmpAnswer sealer informQuestion = .ok (some answer) ∧ parseV3 answer = some m' ∧
        m'.priv = true ∧ m'.boots = 1 ∧
        UsmReceiver.macOk sealer.toCrypto answerUser [0, 1, 2, 3, 4, 5, 6, 7, 8, 9, 10, 11, 12, 13, 14, 15]
          answer m' = true) ∧
      (∃ answer m', snmpAnswer sealer { informQuestion with answer := .notInTimeWindow } = .ok (some answer) ∧
        parseV3 answer = some m' ∧ Replies informMessage m' gatewayEngine 1) ∧
      ∃ answer, snmpAnswer sealer { informQuestion with message := tsmInform } = .ok (some answer) ∧
        parseTsm answer = some (4, ⟨0xA2, 7, []⟩, gatewayEngine.engineId) := by
  have hvalid := valid_gatewayEngine
  refine ⟨?response, ?report, ?tsm⟩
  case response =>
    obtain ⟨hresponse, -, -⟩ := answers_authentic sealer lawful_sealer informQuestion hvalid (by decide)
    obtain ⟨answer, m', -, -, -, hanswer, hparse, hreplies, -, hpriv, hmac, -⟩ :=
      hresponse gatewayReceiver gatewayReceiver _ 7 informMessage answerUser rfl rfl receive_inform rfl
        parseV3_inform rfl configured_answerUser rfl
    exact ⟨answer, m', hanswer, hparse, hpriv, hreplies.boots, hmac _ rfl⟩
  case report =>
    obtain ⟨-, hreport, -⟩ := answers_authentic sealer lawful_sealer
      { informQuestion with answer := .notInTimeWindow } hvalid (by decide)
    obtain ⟨answer, m', -, -, hanswer, hparse, hreplies, -⟩ :=
      hreport _ informMessage rfl (by decide) parseV3_inform fun _ => ⟨answerUser, _, rfl, rfl⟩
    exact ⟨answer, m', hanswer, hparse, hreplies⟩
  case tsm =>
    obtain ⟨-, -, htsm⟩ := answers_authentic sealer lawful_sealer
      { informQuestion with message := tsmInform } hvalid (by decide)
    have hparse : parseTsm tsmInform = some (4, ⟨0xA6, 7, []⟩, gatewayEngine.engineId) := by rfl
    obtain ⟨answer, _, _, _, p, _, _, varbinds, hanswer, -, -, -, -, hread, -, -, -, hresponse⟩ :=
      htsm _ _ rfl hparse
    obtain ⟨-, rfl⟩ := hresponse nofun
    exact ⟨answer, hanswer, hread⟩

end Dsip.Events
