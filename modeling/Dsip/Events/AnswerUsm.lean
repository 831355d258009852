import Dsip.Events.AnswerScoped

/-!
# A message of the gateway's engine is authentic

`_usm` puts the MAC at a place that it reckons from the lengths of the parts around
it. That is the place of the authentication parameters (`slot_usm`), so the message
is one that `parse_v3` reads, and its MAC is right (`writeUsm_spec`).
-/

namespace Dsip.Events

open Dsip.Lib

/-! ## What a message is cut into -/

section Received

variable {b : Bytes} {msgId model : Int} {flags : UInt8} {sp data : Tlv} {m : Message}

theorem received_of_isHeader (h : IsHeader b (msgId, flags, model) sp data) :
    received b = some (msgId, flags, model, slice b sp.stop data.stop) := by
  obtain ⟨⟨houter, -⟩, houtert, ⟨hversion, hglobal, hsp, hdata, -⟩, hn, hglobalt, hg, hspt⟩ := h
  rename_i outer version globalT
  have hglobalstop : globalT.stop ≤ b.length := (tlv_bounds hglobal).2.2.trans (tlv_bounds houter).2.2
  obtain ⟨hfills, hid, -, hsize, -, hflagst, hflags, hmodel, -, -⟩ := hg
  rename_i id max flagsT modelT size
  have hin := hfills.within hglobalstop flagsT (by simp)
  obtain ⟨hidt, hsizet, hflagsT, hmodelT, -⟩ := hfills
  unfold received
  simp only [↓expect_bind, ↓next_bind, ↓int_bind, some_bind, Option.pure_def, Option.some.injEq]
  exact ⟨_, houter, houtert, _, hversion, hn.1, _, hglobal, hglobalt, _, _, hidt, hid, _, hsizet, hsize.1, _,
    hflagsT, hflagst, _, ((content_eq_singleton hin).mp hflags).2, _, _, hmodelT, hmodel, _, hsp, hspt, _, hdata,
    rfl⟩

theorem exists_data (h : IsHeader b (msgId, flags, model) sp data) :
    ∃ part : Part, received b = some (msgId, flags, model, part.bytes) ∧ data = part.tlv.shift sp.stop ∧
      StandsAt b sp.stop part.bytes := by
  have hreceived := received_of_isHeader h
  obtain ⟨⟨houter, -⟩, -, ⟨-, -, -, hdata, -⟩, -⟩ := h
  have hstop := (tlv_bounds houter).2.2
  have hbounds := tlv_bounds hdata
  obtain ⟨part, hpart, rfl⟩ := exists_part hdata hstop
  rw [← hpart] at hreceived
  refine ⟨part, hreceived, rfl, ?_⟩
  rw [hpart]
  exact (standsAt_slice (by omega) (by omega)).1

end Received

/-! ## Messages of the gateway's engine -/

section Usm

variable {msgId : Int} {flags : UInt8} {source : LocalEngine} {name params privParams data x y : Bytes}

/-- The message with these authentication parameters. -/
def usmMessage (msgId : Int) (flags : UInt8) (source : LocalEngine) (name privParams data params : Bytes) :
    Bytes × Nat :=
  writeMessage msgId flags 3 (writeTlv 0x30 (usmContent source name params privParams)) data

/-- Where `_usm` puts the MAC. -/
def authPos (msgId : Int) (flags : UInt8) (source : LocalEngine) (name privParams data params : Bytes) : Nat :=
  (usmMessage msgId flags source name privParams data params).2 +
    (1 + (writeLen (usmContent source name params privParams).length).length + (usmHead source name).length + 2)

theorem authPos_congr (h : x.length = y.length) :
    authPos msgId flags source name privParams data x = authPos msgId flags source name privParams data y := by
  unfold authPos usmMessage writeMessage usmContent
  simp only [List.length_append, length_writeTlv, h]

theorem slot_usm {n : Nat} (hn : n < 0x80) :
    Slot (fun x => (usmMessage msgId flags source name privParams data x).1) n
      (authPos msgId flags source name privParams data (List.replicate n 0)) := by
  have hzeros : (List.replicate n (0 : UInt8)).length = n := List.length_replicate
  have hparams : Slot (fun x => writeTlv 0x04 x) n (1 + (writeLen n).length + 0) :=
    (Slot.self n).inside 0x04 fun x hx => hx
  have hcontent := (hparams.after (usmHead source name)).before (writeTlv 0x04 privParams)
  have hsequence := hcontent.inside 0x30 fun x hx => hcontent.length_eq hx hzeros
  have hsecurity := hsequence.inside 0x04 fun x hx => hsequence.length_eq hx hzeros
  have hbody := (hsecurity.after (messageHead msgId flags 3)).before data
  have hmessage := hbody.inside 0x30 fun x hx => hbody.length_eq hx hzeros
  have hlen : writeLen n = [UInt8.ofNat n] := if_pos hn
  rw [hlen] at hmessage
  convert hmessage using 1
  · rfl
  · unfold authPos usmMessage writeMessage usmContent
    simp only [List.length_singleton]
    omega

theorem parseV3_usmMessage {part : Part} {d : MsgData} (hid : 0 ≤ msgId ∧ msgId ≤ max31)
    (hflags : ¬ (flags &&& 2 ≠ 0 ∧ flags &&& 1 = 0)) (hsource : source.Valid) (hname : name.length ≤ 32)
    (hparams : params.length < 0x80) (hpriv : privParams.length ≤ 8) (hpart : part.bytes.length < 2 ^ 31)
    (hdata : ∀ b pos, StandsAt b pos part.bytes → IsData b (flags &&& 2 ≠ 0) (part.tlv.shift pos) d) :
    ∃ auth, parseV3 (usmMessage msgId flags source name privParams part.bytes params).1 =
        some (messageOf msgId flags 3 ⟨source.engineId, source.boots, source.time, name, auth, privParams⟩ d) ∧
      auth.start = authPos msgId flags source name privParams part.bytes params ∧
      auth.stop = auth.start + params.length ∧
      received (usmMessage msgId flags source name privParams part.bytes params).1 =
        some (msgId, flags, 3, part.bytes) := by
  have hcontent := length_usmContent_le hsource hname hparams hpriv
  have hsize : (writeTlv 0x30 (usmContent source name params privParams)).length ≤ _ :=
    length_writeTlv_le (by omega)
  obtain ⟨sp, hheader, hdata_at, hstart, hstop, hsecurity_at⟩ := @isHeader_writeMessage msgId 3 flags
    (writeTlv 0x30 (usmContent source name params privParams)) part hid (by decide) hflags (by omega) hpart
  obtain ⟨auth, hsecurity, hauth, hauth_stop, -⟩ :=
    isSecurity_usmContent hsource hname hparams hpriv hsecurity_at hstop
  have hreceived := received_of_isHeader hheader
  have hslice := hdata_at.slice_self
  rw [← part.whole] at hslice
  rw [Tlv.shift_stop, hslice] at hreceived
  refine ⟨auth, parseV3_eq_some.mpr (.mk hheader hsecurity (hdata _ _ hdata_at)), ?_, hauth_stop, hreceived⟩
  rw [hauth, hstart]
  rfl

end Usm

/-! ## The MAC -/

section Mac

variable {c : Sealer} {msgId : Int} {flags : UInt8} {source : LocalEngine} {name privParams data : Bytes}
  {u : User} {key : Bytes}

theorem splice_mac {n : Nat} {mac : Bytes} (hn : n < 0x80) (hmac : mac.length = n) :
    let zeros := List.replicate n 0
    let message := usmMessage msgId flags source name privParams data
    let start := authPos msgId flags source name privParams data zeros
    (message zeros).1.take start ++ mac ++ (message zeros).1.drop (start + n) = (message mac).1 :=
  (slot_usm hn).splice List.length_replicate hmac

theorem macOk_usmMessage {auth : Tlv} {m : Message} (hspan : m.authSpan = (auth.start, auth.stop))
    (hdigest : u.auth.macLen ≤ (c.hmac u.auth key
      (usmMessage msgId flags source name privParams data (List.replicate u.auth.macLen 0)).1).length)
    {mac : Bytes} (hmac : mac = (c.hmac u.auth key (usmMessage msgId flags source name privParams data
      (List.replicate u.auth.macLen 0)).1).take u.auth.macLen)
    (hstart : auth.start = authPos msgId flags source name privParams data mac)
    (hstop : auth.stop = auth.start + mac.length) :
    UsmReceiver.macOk c.toCrypto u key (usmMessage msgId flags source name privParams data mac).1 m = true := by
  have hshort : u.auth.macLen < 0x80 := by cases u.auth <;> decide
  have hlength : mac.length = u.auth.macLen := by
    rw [hmac, List.length_take]
    omega
  have hzeros : (List.replicate u.auth.macLen (0 : UInt8)).length = u.auth.macLen := List.length_replicate
  have hslot := @slot_usm msgId flags source name privParams data u.auth.macLen hshort
  rw [authPos_congr (hlength.trans hzeros.symm)] at hstart
  rw [hlength] at hstop
  -- Zeros put back where the MAC is are the message that it is the MAC of.
  have hback := hslot.splice hlength hzeros
  rw [← hstart, ← hstop] at hback
  have hslice := (hslot.standsAt hlength).slice_self
  rw [← hstart, hlength, ← hstop] at hslice
  unfold UsmReceiver.macOk
  rw [hspan]
  dsimp only at hback hslice ⊢
  rw [hback, hslice, decide_eq_true_eq]
  exact ⟨by omega, hmac.symm⟩

end Mac

/-! ## `_usm` -/

/-- The ScopedPDU of a message, as its user reads it. -/
def plaintext (c : Crypto) (user : Option User) (b : Bytes) (m : Message) : Option Bytes :=
  match m.data with
  | .encrypted data => do
      let u ← user
      let key ← u.privKey.toOption
      return c.decrypt key (ivOf m.boots m.time m.privParams) data
  | .plain _ => (received b).map fun r => r.2.2.2

section Writing

variable {c : Sealer} {msgId : Int} {flags : UInt8} {source : LocalEngine} {name salt engine : Bytes}
  {user : Option User} {whole : Part} {pdu : Pdu}

theorem length_ivOf (boots time : Int) (salt : Bytes) : (ivOf boots time salt).length = 8 + salt.length := by
  unfold ivOf toBytes4
  simp
  omega

theorem usmData_spec (hc : c.Lawful) (htag : whole.tlv.tag = 0x30) (hlength : whole.bytes.length + 6 < 2 ^ 31)
    (hscoped : ∀ b pos, StandsAt b pos whole.bytes → IsScoped b (whole.tlv.shift pos).reader engine pdu)
    (hpriv : flags &&& 2 ≠ 0 → salt.length = 8 ∧ ∃ u key, user = some u ∧ u.privKey = .ok key ∧ key.length = 16) :
    ∃ (part : Part) (d : MsgData), usmData c flags source whole.bytes user salt = .ok part.bytes ∧
      part.bytes.length < 2 ^ 31 ∧
      (∀ b pos, StandsAt b pos part.bytes → IsData b (flags &&& 2 ≠ 0) (part.tlv.shift pos) d) ∧
        ∀ answer m, m.data = d → received answer = some (msgId, flags, 3, part.bytes) →
          m.boots = source.boots → m.time = source.time →
            m.privParams = (if flags &&& 2 ≠ 0 then salt else []) →
              plaintext c.toCrypto user answer m = some whole.bytes := by
  unfold usmData
  by_cases hbit : flags &&& 2 ≠ 0
  case pos =>
    obtain ⟨hsalt, u, key, rfl, hkey, hsixteen⟩ := hpriv hbit
    have hiv : (ivOf source.boots source.time salt).length = 16 := by
      rw [length_ivOf, hsalt]
    have hsealed : cfb c.encrypt key (ivOf source.boots source.time salt) whole.bytes = .ok _ :=
      if_pos ⟨hsixteen, hiv⟩
    have henc := hc.encrypt_length key (ivOf source.boots source.time salt) whole.bytes
    have hinverse := hc.decrypt_encrypt key (ivOf source.boots source.time salt) whole.bytes hsixteen hiv
    generalize c.encrypt key (ivOf source.boots source.time salt) whole.bytes = enc at *
    refine ⟨.octets enc (by omega), .encrypted enc, ?_, ?_, fun b pos hat => ?_, ?_⟩
    · rw [if_pos hbit]
      simp only [given, bind, Except.bind, hkey, hsealed]
      rfl
    · have h : (writeTlv 0x04 enc).length ≤ _ := length_writeTlv_le (by omega)
      rw [Part.octets_bytes]
      omega
    · have hdata : IsData b (flags &&& 2 ≠ 0) ((Part.octets enc (by omega)).tlv.shift pos) _ :=
        .encrypted (decide_eq_true hbit) rfl
      rwa [content_octets hat] at hdata
    · intro answer m hm _ hboots htime hparams
      unfold plaintext
      rw [if_pos hbit] at hparams
      rw [hm, hboots, htime, hparams]
      simp only [Option.bind_eq_bind, Option.bind_some, hkey, Except.toOption, Option.pure_def, hinverse]
  case neg =>
    refine ⟨whole, .plain pdu, if_neg hbit, by omega, fun b pos hat => ?_, ?_⟩
    · exact .plain (decide_eq_false hbit) htag (hscoped b pos hat)
    · intro answer m hm hreceived _ _ _
      unfold plaintext
      rw [hm, hreceived]
      rfl

/-- `_usm` writes a message of the gateway's engine, of these flags and of this
user, with a right MAC and this ScopedPDU. -/
theorem writeUsm_spec (hc : c.Lawful) (hid : 0 ≤ msgId ∧ msgId ≤ max31)
    (hflags : ¬ (flags &&& 2 ≠ 0 ∧ flags &&& 1 = 0)) (hsource : source.Valid) (hname : name.length ≤ 32)
    (htag : whole.tlv.tag = 0x30) (hlength : whole.bytes.length + 6 < 2 ^ 31)
    (hscoped : ∀ b pos, StandsAt b pos whole.bytes → IsScoped b (whole.tlv.shift pos).reader engine pdu)
    (hauth : flags &&& 1 ≠ 0 → ∃ u key, user = some u ∧ u.authKey = .ok key)
    (hpriv : flags &&& 2 ≠ 0 → salt.length = 8 ∧ ∃ u key, user = some u ∧ u.privKey = .ok key ∧ key.length = 16) :
    ∃ answer auth d, writeUsm c msgId flags source name whole.bytes user salt = .ok answer ∧
      (let m := messageOf msgId flags 3 ⟨source.engineId, source.boots, source.time, name, auth,
        if flags &&& 2 ≠ 0 then salt else []⟩ d
      parseV3 answer = some m ∧ plaintext c.toCrypto user answer m = some whole.bytes ∧
        ∀ u key, flags &&& 1 ≠ 0 → user = some u → u.authKey = .ok key →
          UsmReceiver.macOk c.toCrypto u key answer m = true) := by
  obtain ⟨part, d, hdata, hpart, hisData, hplain⟩ := @usmData_spec c msgId flags source salt engine user whole
    pdu hc htag hlength hscoped hpriv
  have hparams : (if flags &&& 2 ≠ 0 then salt else []).length ≤ 8 := by
    split
    case isTrue hbit => exact (hpriv hbit).1.le
    case isFalse => simp
  by_cases hbit : flags &&& 1 ≠ 0
  case pos =>
    obtain ⟨u, key, rfl, hkey⟩ := hauth hbit
    have hshort : u.auth.macLen < 0x80 := by cases u.auth <;> decide
    have hdigest := hc.digest u.auth key (usmMessage msgId flags source name
      (if flags &&& 2 ≠ 0 then salt else []) part.bytes (List.replicate u.auth.macLen 0)).1
    generalize hmac : (c.hmac u.auth key (usmMessage msgId flags source name
      (if flags &&& 2 ≠ 0 then salt else []) part.bytes (List.replicate u.auth.macLen 0)).1).take
        u.auth.macLen = mac
    have hlength : mac.length = u.auth.macLen := by
      rw [← hmac, List.length_take]
      omega
    have hwrite : writeUsm c msgId flags source name whole.bytes (some u) salt =
        .ok (usmMessage msgId flags source name (if flags &&& 2 ≠ 0 then salt else []) part.bytes mac).1 := by
      rw [← splice_mac hshort hlength, ← hmac]
      unfold writeUsm
      simp only [hdata, bind, Except.bind, if_pos hbit, given, hkey]
      rfl
    obtain ⟨auth, hparse, hstart, hstop, hreceived⟩ := parseV3_usmMessage hid hflags hsource hname
      (hlength.trans_lt hshort) hparams hpart hisData
    refine ⟨_, auth, d, hwrite, hparse, hplain _ _ rfl hreceived rfl rfl rfl, fun u' key' _ hu hkey' => ?_⟩
    cases hu
    cases hkey.symm.trans hkey'
    exact macOk_usmMessage rfl hdigest hmac.symm hstart hstop
  case neg =>
    have hwrite : writeUsm c msgId flags source name whole.bytes user salt =
        .ok (usmMessage msgId flags source name (if flags &&& 2 ≠ 0 then salt else []) part.bytes []).1 := by
      unfold writeUsm
      simp only [hdata, bind, Except.bind, if_neg hbit]
      rfl
    obtain ⟨auth, hparse, -, -, hreceived⟩ := parseV3_usmMessage hid hflags hsource hname
      (show ([] : Bytes).length < 0x80 by decide) hparams hpart hisData
    exact ⟨_, auth, d, hwrite, hparse, hplain _ _ rfl hreceived rfl rfl rfl, fun u' key' h => absurd h hbit⟩

end Writing

end Dsip.Events
