import Dsip.Events.Answer
import Dsip.Events.Embed

/-!
# How the gateway's answers are read

What `writeScoped`, `writeMessage` and `_usm`'s security parameters write is of the
grammar that `parse_v3` and `parse_tsm` accept, at whatever place each length form
puts it. A `Slot` is where a part of a message stands, whatever that part is.
-/

namespace Dsip.Events

open Dsip.Lib

/-! ## Slots -/

/-- Bytes of this length are put at this place, in bytes that are otherwise fixed. -/
def Slot (f : Bytes → Bytes) (n k : Nat) : Prop :=
  ∃ front back, front.length = k ∧ ∀ x, x.length = n → f x = front ++ (x ++ back)

namespace Slot

variable {f : Bytes → Bytes} {n k size : Nat} {x y : Bytes}

theorem self (n : Nat) : Slot (fun x => x) n 0 := ⟨[], [], rfl, by simp⟩

theorem after (h : Slot f n k) (p : Bytes) : Slot (fun x => p ++ f x) n (p.length + k) := by
  obtain ⟨front, back, rfl, hf⟩ := h
  refine ⟨p ++ front, back, by simp, fun x hx => ?_⟩
  dsimp only
  rw [hf x hx]
  simp

theorem before (h : Slot f n k) (q : Bytes) : Slot (fun x => f x ++ q) n k := by
  obtain ⟨front, back, rfl, hf⟩ := h
  refine ⟨front, back ++ q, rfl, fun x hx => ?_⟩
  dsimp only
  rw [hf x hx]
  simp

theorem length_eq (h : Slot f n k) (hx : x.length = n) (hy : y.length = n) : (f x).length = (f y).length := by
  obtain ⟨front, back, -, hf⟩ := h
  rw [hf x hx, hf y hy]
  simp [hx, hy]

theorem inside (h : Slot f n k) (tag : UInt8) (hsize : ∀ x, x.length = n → (f x).length = size) :
    Slot (fun x => writeTlv tag (f x)) n (1 + (writeLen size).length + k) := by
  obtain ⟨front, back, rfl, hf⟩ := h
  refine ⟨tag :: writeLen size ++ front, back, ?_, fun x hx => ?_⟩
  · simp
    omega
  · dsimp only
    unfold writeTlv
    rw [hsize x hx, hf x hx]
    simp

theorem standsAt (h : Slot f n k) (hx : x.length = n) : StandsAt (f x) k x := by
  obtain ⟨front, back, hk, hf⟩ := h
  exact ⟨front, back, hf x hx, hk⟩

theorem splice (h : Slot f n k) (hx : x.length = n) (hy : y.length = n) :
    (f x).take k ++ y ++ (f x).drop (k + n) = f y := by
  obtain ⟨front, back, rfl, hf⟩ := h
  have hdrop : (front ++ (x ++ back)).drop (front.length + n) = back := by
    rw [← hx, ← List.drop_drop, List.drop_left, List.drop_left]
  rw [hf x hx, hf y hy, hdrop, List.take_left, List.append_assoc]

end Slot

/-! ## Sizes -/

section Sizes

variable {v : Int}

/-- A number that a field of a message may have. -/
def Fieldable (v : Int) : Prop := -2 ^ 31 ≤ v ∧ v ≤ max31

theorem fieldable_zero : Fieldable 0 := by
  unfold Fieldable max31
  omega

theorem Fieldable.of_range (h : 0 ≤ v ∧ v ≤ max31) : Fieldable v := by
  unfold Fieldable
  omega

theorem Fieldable.read (h : Fieldable v) : berInt (intContent v) = some v ∧ (intContent v).length ≤ 8 := by
  unfold Fieldable max31 at h
  have hread := (berInt_intContent (v := v) (by omega) (by omega)).1
  exact ⟨hread, (berInt_eq_some.mp hread).1.2⟩

theorem length_writeInt_le (h : Fieldable v) : (writeInt v).length ≤ 14 := by
  have hlength := h.read.2
  have hle : (writeInt v).length ≤ (intContent v).length + 6 := length_writeTlv_le (by omega)
  omega

end Sizes

/-! ## Integers -/

/-- An INTEGER that is written. -/
def Part.int (v : Int) (h : Fieldable v) : Part :=
  .written 0x02 (intContent v) (by decide) (h.read.2.trans_lt (by decide))

@[simp] theorem Part.int_bytes (v : Int) (h : Fieldable v) : (Part.int v h).bytes = writeInt v := rfl

theorem isInt_int {b : Bytes} {pos : Nat} {v : Int} (h : Fieldable v) (hat : StandsAt b pos (writeInt v)) :
    IsInt b ((Part.int v h).tlv.shift pos) v := by
  refine ⟨rfl, ?_⟩
  rw [Part.content hat]
  unfold Part.int
  rw [Part.content_written]
  exact h.read.1

/-- An OCTET STRING that is written. -/
def Part.octets (c : Bytes) (h : c.length < 2 ^ 32) : Part := .written 0x04 c (by decide) h

@[simp] theorem Part.octets_bytes (c : Bytes) (h : c.length < 2 ^ 32) :
    (Part.octets c h).bytes = writeTlv 0x04 c := rfl

@[simp] theorem Part.written_bytes (tag : UInt8) (body : Bytes) (htag : tag &&& 0x1F ≠ 0x1F)
    (hbody : body.length < 2 ^ 32) : (Part.written tag body htag hbody).bytes = writeTlv tag body := rfl

@[simp] theorem Part.written_tag (tag : UInt8) (body : Bytes) (htag : tag &&& 0x1F ≠ 0x1F)
    (hbody : body.length < 2 ^ 32) : (Part.written tag body htag hbody).tlv.tag = tag := rfl

theorem content_octets {b : Bytes} {pos : Nat} {c : Bytes} {h : c.length < 2 ^ 32}
    (hat : StandsAt b pos (Part.octets c h).bytes) : ((Part.octets c h).tlv.shift pos).content b = c := by
  rw [Part.content hat]
  exact Part.content_written

/-! ## Scoped PDUs -/

/-- The parts of a ScopedPDU, the VarBindList as its bytes. -/
structure ScopedParts where
  engine : Bytes
  name : Bytes
  tag : UInt8
  requestId : Int
  status : Int
  index : Int
  list : Bytes
  deriving DecidableEq, Repr

/-- Bytes that are one ScopedPDU, with its error fields. -/
def readScoped (b : Bytes) : Option ScopedParts := do
  let (t, top) ← R.expect b 0x30 ⟨0, b.length⟩
  guard top.done
  let (engine, q) ← t.reader.expect b 0x04
  let (name, q) ← q.expect b 0x04
  let (pdu, q) ← q.next b
  guard q.done
  let (requestId, p) ← pdu.reader.int b
  let (status, p) ← p.int b
  let (index, p) ← p.int b
  let (list, end_) ← p.expect b 0x30
  guard end_.done
  return ⟨engine.content b, name.content b, pdu.tag, requestId, status, index, slice b p.pos list.stop⟩

/-- The content of a ScopedPDU with these parts, and where its VarBindList is. -/
inductive PartsAt (b : Bytes) (r : R) : ScopedParts → Tlv → Prop
  | mk {engine name pdu id status index list : Tlv} {requestId n m : Int}
      (fills : Fills b r.stop r.pos [engine, name, pdu])
      (isEngine : engine.tag = 0x04) (isName : name.tag = 0x04)
      (pdu_fills : Fills b pdu.stop pdu.start [id, status, index, list])
      (id_eq : IsInt b id requestId) (status_eq : IsInt b status n) (index_eq : IsInt b index m)
      (isList : list.tag = 0x30) :
      PartsAt b r ⟨engine.content b, name.content b, pdu.tag, requestId, n, m,
        slice b index.stop list.stop⟩ list

section Scoped

variable {b s : Bytes} {r : R} {t list : Tlv} {p : ScopedParts} {engine name : Bytes} {tag : UInt8}
  {requestId : Int}

theorem readScoped_eq_some : readScoped b = some p ↔
      ∃ t list, Fills b b.length 0 [t] ∧ t.tag = 0x30 ∧ PartsAt b t.reader p list := by
  unfold readScoped
  simp only [↓expect_bind, ↓next_bind, ↓guard_bind, ↓int_bind, done_iff, Option.pure_def, Option.some.injEq]
  constructor
  · rintro ⟨t, ht, htag, hend, engine, hengine, he, name, hname, hn, pdu, hpdu, hdone, id, rid, hid, hint,
      status, n, hstatus, hstatusi, index, m, hindex, hindexi, list, hlist, hl, hlast, rfl⟩
    exact ⟨t, list, ⟨ht, hend⟩, htag, ⟨hengine, hname, hpdu, hdone⟩, he, hn,
      ⟨hid, hstatus, hindex, hlist, hlast⟩, hint, hstatusi, hindexi, hl⟩
  · rintro ⟨t, list, ⟨ht, hend⟩, htag, ⟨hengine, hname, hpdu, hdone⟩, he, hn,
      ⟨hid, hstatus, hindex, hlist, hlast⟩, hint, hstatusi, hindexi, hl⟩
    exact ⟨t, ht, htag, hend, _, hengine, he, _, hname, hn, _, hpdu, hdone, _, _, hid, hint, _, _, hstatus,
      hstatusi, _, _, hindex, hindexi, _, hlist, hl, hlast, rfl⟩

theorem scopedRaw_of_readScoped (h : readScoped b = some p) :
    scopedRaw b = some (p.engine, p.name, p.requestId, p.list) := by
  obtain ⟨t, list, ⟨ht, hend⟩, htag, ⟨hengine, hname, hpdu, hdone⟩, he, hn,
    ⟨hid, hstatus, hindex, hlist, hlast⟩, hint, hstatusi, hindexi, hl⟩ := readScoped_eq_some.mp h
  unfold scopedRaw
  simp only [↓expect_bind, ↓next_bind, ↓guard_bind, ↓int_bind, done_iff, Option.pure_def, Option.some.injEq]
  exact ⟨t, ht, htag, hend, _, hengine, he, _, hname, hn, _, hpdu, _, _, hid, hint, _, hstatus, hstatusi.1, _,
    hindex, hindexi.1, _, hlist, hl, rfl⟩

theorem isScoped_iff {pdu : Pdu} : IsScoped b r engine pdu ↔
    ∃ p list, PartsAt b r p list ∧ p.engine = engine ∧ p.tag = pdu.tag ∧ p.requestId = pdu.requestId ∧
      Fieldable pdu.requestId ∧ IsVarBindList b list pdu.varbinds := by
  constructor
  · rintro ⟨fills, isEngine, isName, pdu_fills, id_eq, range, isStatus, isIndex, isList, list_fills, all⟩
    exact ⟨_, _, ⟨fills, isEngine, isName, pdu_fills, id_eq, isStatus, isIndex, isList⟩, rfl, rfl, rfl, range,
      isList, _, list_fills, all⟩
  · obtain ⟨tag, requestId, varbinds⟩ := pdu
    rintro ⟨_, _, ⟨fills, isEngine, isName, pdu_fills, id_eq, isStatus, isIndex, isList⟩, rfl, rfl, rfl, range,
      -, ts, list_fills, all⟩
    exact ⟨fills, isEngine, isName, pdu_fills, id_eq, range, isStatus, isIndex, isList, list_fills, all⟩

theorem PartsAt.list_bounds (h : PartsAt b r p list) :
    ∃ pos stop, tlv b pos stop = some list ∧ stop ≤ r.stop ∧ p.list = slice b pos list.stop := by
  obtain ⟨⟨hengine, hname, hpdu, -⟩, -, -, ⟨hid, hstatus, hindex, hlist, -⟩, -⟩ := h
  exact ⟨_, _, hlist, (tlv_bounds hpdu).2.2, rfl⟩

theorem length_slice_le (b : Bytes) (start stop : Nat) : (slice b start stop).length ≤ b.length := by
  unfold slice
  rw [List.length_take, List.length_drop]
  omega

theorem PartsAt.copied {n : Nat} (hat : StandsAt b n s) (ht : t.stop ≤ s.length)
    (h : PartsAt b (t.shift n).reader p list) :
    ∃ list', PartsAt s t.reader p list' ∧ list = list'.shift n ∧ list'.stop ≤ s.length := by
  obtain ⟨fills, isEngine, isName, pdu_fills, id_eq, status_eq, index_eq, isList⟩ := h
  obtain ⟨l, hl, heq⟩ := exists_fills_shift hat ht fills
  obtain ⟨engine, l, rfl, rfl, htwo⟩ := List.map_eq_cons_iff.mp heq.symm
  obtain ⟨name, l, rfl, rfl, hone⟩ := List.map_eq_cons_iff.mp htwo
  obtain ⟨pdu, l, rfl, rfl, hnil⟩ := List.map_eq_cons_iff.mp hone
  obtain rfl := List.map_eq_nil_iff.mp hnil
  have hin := hl.within ht
  obtain ⟨l, hl', heq⟩ := exists_fills_shift hat (hin pdu (by simp)).2 pdu_fills
  obtain ⟨id, l, rfl, rfl, hthree⟩ := List.map_eq_cons_iff.mp heq.symm
  obtain ⟨status, l, rfl, rfl, htwo⟩ := List.map_eq_cons_iff.mp hthree
  obtain ⟨index, l, rfl, rfl, hone⟩ := List.map_eq_cons_iff.mp htwo
  obtain ⟨list, l, rfl, rfl, hnil⟩ := List.map_eq_cons_iff.mp hone
  obtain rfl := List.map_eq_nil_iff.mp hnil
  have hin' := hl'.within (hin pdu (by simp)).2
  rw [isInt_shift hat (hin' _ (by simp)).2] at id_eq status_eq index_eq
  have hparts : PartsAt s t.reader _ list := ⟨hl, isEngine, isName, hl', id_eq, status_eq, index_eq, isList⟩
  rw [content_shift hat (hin engine (by simp)).2, content_shift hat (hin name (by simp)).2]
  rw [Tlv.shift_stop, Tlv.shift_stop, hat.slice_eq (hin' list (by simp)).2]
  exact ⟨list, hparts, rfl, (hin' list (by simp)).2⟩

theorem exists_writeScoped {part : Part} (hrequest : Fieldable requestId) (htag : tag &&& 0x1F ≠ 0x1F)
    (hengine : engine.length < 2 ^ 30) (hname : name.length < 2 ^ 30)
    (hlist : part.bytes.length < 2 ^ 30) (hpart : part.tlv.tag = 0x30) :
    ∃ whole : Part, whole.bytes = writeScoped engine name tag requestId part.bytes ∧
      whole.tlv.tag = 0x30 ∧ whole.bytes.length ≤ engine.length + name.length + part.bytes.length + 66 ∧
        ∀ b pos, StandsAt b pos whole.bytes → ∃ n, StandsAt b n part.bytes ∧
          PartsAt b (whole.tlv.shift pos).reader ⟨engine, name, tag, requestId, 0, 0, part.bytes⟩
            (part.tlv.shift n) := by
  have hzero := fieldable_zero
  have hpdu : ([Part.int requestId hrequest, .int 0 hzero, .int 0 hzero, part].flatMap
      Part.bytes).length ≤ part.bytes.length + 42 := by
    have h := length_writeInt_le hrequest
    have h0 := length_writeInt_le hzero
    simp
    omega
  have hpdu' := Part.length_group_le tag _ htag (Nat.lt_of_le_of_lt hpdu (by omega))
  generalize hpduP : Part.group tag [.int requestId hrequest, .int 0 hzero, .int 0 hzero, part] htag
    (Nat.lt_of_le_of_lt hpdu (by omega)) = pduP at hpdu'
  have hbody : ([Part.octets engine (by omega), .octets name (by omega), pduP].flatMap
      Part.bytes).length ≤ engine.length + name.length + part.bytes.length + 60 := by
    have hengine' : (writeTlv 0x04 engine).length ≤ _ := length_writeTlv_le (by omega)
    have hname' : (writeTlv 0x04 name).length ≤ _ := length_writeTlv_le (by omega)
    simp
    omega
  have hwhole := Part.length_group_le 0x30 _ (by decide) (Nat.lt_of_le_of_lt hbody (by omega))
  generalize hwholeP : Part.group 0x30 [.octets engine (by omega), .octets name (by omega), pduP] (by decide)
    (Nat.lt_of_le_of_lt hbody (by omega)) = whole at hwhole
  refine ⟨whole, ?_, ?_, by omega, fun b pos hat => ?_⟩
  · subst hwholeP hpduP
    simp [Part.group, writeScoped, pduContent]
  · subst hwholeP
    rfl
  · obtain ⟨start, stop, hwhole_eq, hfills, ⟨hengine_at, hname_at, hpdu_at, -⟩, -⟩ :=
      Part.fills_group hwholeP hat
    obtain ⟨first, last, hpdu_eq, hfills', ⟨hid_at, hstatus_at, hindex_at, hlist_at, -⟩, -⟩ :=
      Part.fills_group hpduP hpdu_at
    simp only [Part.laid] at hfills hfills'
    rw [hpdu_eq] at hfills
    have hparts : PartsAt b ⟨start, stop⟩ _ _ := .mk hfills rfl rfl hfills' (isInt_int hrequest hid_at)
      (isInt_int hzero hstatus_at) (isInt_int hzero hindex_at) hpart
    have hlist_eq := hlist_at.slice_self
    rw [← part.whole] at hlist_eq
    rw [content_octets hengine_at, content_octets hname_at] at hparts
    refine ⟨_, hlist_at, ?_⟩
    rw [hwhole_eq]
    change PartsAt b ⟨start, stop⟩ _ _
    convert hparts using 2
    exact hlist_eq.symm

end Scoped

/-! ## Messages -/

section Messages

variable {msgId model boots time : Int} {flags : UInt8} {security : Bytes} {data : Part}

theorem isHeader_writeMessage (hid : 0 ≤ msgId ∧ msgId ≤ max31) (hmodel : 0 ≤ model ∧ model ≤ max31)
    (hflags : ¬ (flags &&& 2 ≠ 0 ∧ flags &&& 1 = 0)) (hsecurity : security.length < 2 ^ 30)
    (hdata : data.bytes.length < 2 ^ 31) :
    ∃ sp, IsHeader (writeMessage msgId flags model security data.bytes).1 (msgId, flags, model) sp
        (data.tlv.shift sp.stop) ∧
      StandsAt (writeMessage msgId flags model security data.bytes).1 sp.stop data.bytes ∧
      sp.start = (writeMessage msgId flags model security data.bytes).2 ∧
      sp.stop = sp.start + security.length ∧
      StandsAt (writeMessage msgId flags model security data.bytes).1 sp.start security := by
  have hsize : Fieldable answerMaxSize := by
    unfold Fieldable max31 answerMaxSize
    omega
  have hversion : Fieldable 3 := by
    unfold Fieldable max31
    omega
  have hid' := Fieldable.of_range hid
  have hmodel' := Fieldable.of_range hmodel
  have hglobal : ([Part.int msgId hid', .int answerMaxSize hsize, .octets [flags] (by simp),
      .int model hmodel'].flatMap Part.bytes).length ≤ 49 := by
    have hid_le := length_writeInt_le hid'
    have hsize_le := length_writeInt_le hsize
    have hmodel_le := length_writeInt_le hmodel'
    have hflags_le : (writeTlv 0x04 [flags]).length ≤ 1 + 6 := length_writeTlv_le (by simp)
    simp
    omega
  have hglobal' := Part.length_group_le 0x30 _ (by decide) (Nat.lt_of_le_of_lt hglobal (by omega))
  generalize hglobalP : Part.group 0x30 [.int msgId hid', .int answerMaxSize hsize, .octets [flags] (by simp),
    .int model hmodel'] (by decide) (Nat.lt_of_le_of_lt hglobal (by omega)) = globalP at hglobal'
  have hbody : ([Part.int 3 hversion, globalP, .octets security (by omega), data].flatMap
      Part.bytes).length < 2 ^ 32 := by
    have hversion_le := length_writeInt_le hversion
    have hsecurity_le : (writeTlv 0x04 security).length ≤ security.length + 6 := length_writeTlv_le (by omega)
    simp
    omega
  generalize hwholeP : Part.group 0x30 [.int 3 hversion, globalP, .octets security (by omega), data] (by decide)
    hbody = whole
  have hhead : messageHead msgId flags model = writeInt 3 ++ globalP.bytes := by
    subst hglobalP
    simp [messageHead, Part.group]
  have hflat : [Part.int 3 hversion, globalP, .octets security (by omega), data].flatMap Part.bytes =
      messageHead msgId flags model ++ writeTlv 0x04 security ++ data.bytes := by
    rw [hhead]
    simp
  have hwhole : whole.bytes = (writeMessage msgId flags model security data.bytes).1 := by
    subst hwholeP
    change writeTlv 0x30 _ = writeTlv 0x30 _
    rw [hflat]
  have hat : StandsAt (writeMessage msgId flags model security data.bytes).1 0 whole.bytes := by
    rw [hwhole]
    exact .whole _
  have hstart_eq : (writeMessage msgId flags model security data.bytes).2 =
      1 + (writeLen (messageHead msgId flags model ++ writeTlv 0x04 security ++ data.bytes).length).length +
        (messageHead msgId flags model).length + 1 + (writeLen security.length).length := rfl
  have hlength := congrArg List.length hwhole
  generalize writeMessage msgId flags model security data.bytes = message at hat hstart_eq hlength
  obtain ⟨start, stop, hwhole_eq, hfills, ⟨hversion_at, hglobal_at, hsecurity_at, hdata_at, -⟩, hstart, hstop⟩ :=
    Part.fills_group hwholeP hat
  obtain ⟨first, last, hglobal_eq, hfills', ⟨hid_at, hsize_at, hflags_at, hmodel_at, -⟩, -⟩ :=
    Part.fills_group hglobalP hglobal_at
  simp only [Part.laid] at hfills hfills'
  rw [hglobal_eq] at hfills
  have houter : Fills message.1 message.1.length 0 [⟨0x30, start, stop⟩] := by
    refine ⟨?_, ?_⟩
    · rw [← hwhole_eq]
      exact tlv_shift hat (le_refl _) whole.isOne (by rw [whole.whole]; omega)
    · change message.1.length ≤ stop
      omega
  have hglobal_is : IsGlobal message.1 ⟨first, last⟩ (msgId, flags, model) :=
    .mk hfills' (isInt_int hid' hid_at) hid (isInt_int hsize hsize_at) (by decide) rfl
      (content_octets hflags_at) (isInt_int hmodel' hmodel_at) hmodel hflags
  refine ⟨_, .mk houter rfl hfills (isInt_int hversion hversion_at) rfl hglobal_is rfl, hdata_at, ?_, ?_, ?_⟩
  · have hhead_length := congrArg List.length hhead
    rw [List.length_append] at hhead_length
    rw [hstart_eq, hhead_length, ← hflat]
    rw [hstart]
    change _ + (1 + (writeLen security.length).length) = _
    rw [Part.int_bytes]
    omega
  · change _ + (writeTlv 0x04 security).length = _ + (1 + (writeLen security.length).length) + security.length
    rw [length_writeTlv]
    omega
  · exact hsecurity_at.body

/-- What the security parameters of an engine are, but for the authentication. -/
def usmContent (source : LocalEngine) (name params privParams : Bytes) : Bytes :=
  usmHead source name ++ writeTlv 0x04 params ++ writeTlv 0x04 privParams

structure LocalEngine.Valid (source : LocalEngine) : Prop where
  engineId : 5 ≤ source.engineId.length ∧ source.engineId.length ≤ 32
  boots : 0 ≤ source.boots ∧ source.boots ≤ max31
  time : 0 ≤ source.time ∧ source.time ≤ max31

theorem length_usmContent_le {source : LocalEngine} (hsource : source.Valid) {name params privParams : Bytes}
    (hname : name.length ≤ 32) (hparams : params.length < 0x80) (hpriv : privParams.length ≤ 8) :
    (usmContent source name params privParams).length ≤ 300 := by
  obtain ⟨-, hengine⟩ := hsource.engineId
  have hengine_le : (writeTlv 0x04 source.engineId).length ≤ _ := length_writeTlv_le (by omega)
  have hboots_le := length_writeInt_le (.of_range hsource.boots)
  have htime_le := length_writeInt_le (.of_range hsource.time)
  have hname_le : (writeTlv 0x04 name).length ≤ _ := length_writeTlv_le (by omega)
  have hparams_le : (writeTlv 0x04 params).length ≤ _ := length_writeTlv_le (by omega)
  have hpriv_le : (writeTlv 0x04 privParams).length ≤ _ := length_writeTlv_le (by omega)
  unfold usmContent usmHead
  simp only [List.length_append]
  omega

/-- The security parameters that are written are read, and the authentication
parameters found at their place. -/
theorem isSecurity_usmContent {b : Bytes} {sp : Tlv} {source : LocalEngine} (hsource : source.Valid)
    {name params privParams : Bytes} (hname : name.length ≤ 32) (hparams : params.length < 0x80)
    (hpriv : privParams.length ≤ 8)
    (hat : StandsAt b sp.start (writeTlv 0x30 (usmContent source name params privParams)))
    (hstop : sp.stop = sp.start + (writeTlv 0x30 (usmContent source name params privParams)).length) :
    ∃ auth, IsSecurity b sp
        ⟨source.engineId, source.boots, source.time, name, auth, privParams⟩ ∧
      auth.start = sp.start + (1 + (writeLen (usmContent source name params privParams).length).length +
        (usmHead source name).length + 2) ∧
      auth.stop = auth.start + params.length ∧ StandsAt b auth.start params := by
  obtain ⟨hlow, hengine⟩ := hsource.engineId
  have hboots := Fieldable.of_range hsource.boots
  have htime := Fieldable.of_range hsource.time
  have hsize := length_usmContent_le hsource hname hparams hpriv
  have hflat : [Part.octets source.engineId (by omega), .int source.boots hboots, .int source.time htime,
      .octets name (by omega), .octets params (by omega), .octets privParams (by omega)].flatMap Part.bytes =
        usmContent source name params privParams := by
    simp [usmContent, usmHead]
  have hbody := congrArg List.length hflat
  generalize hinnerP : Part.group 0x30 [.octets source.engineId (by omega), .int source.boots hboots,
    .int source.time htime, .octets name (by omega), .octets params (by omega),
    .octets privParams (by omega)] (by decide) (by omega) = innerP
  have hbytes : innerP.bytes = writeTlv 0x30 (usmContent source name params privParams) := by
    subst hinnerP
    change writeTlv 0x30 _ = _
    rw [hflat]
  rw [← hbytes] at hat hstop
  obtain ⟨start, stop, hinner_eq, hfills, ⟨hengine_at, hboots_at, htime_at, hname_at, hparams_at, hpriv_at, -⟩,
    hstart, hstop'⟩ := Part.fills_group hinnerP hat
  simp only [Part.laid] at hfills
  have hinner : Fills b sp.stop sp.start [⟨0x30, start, stop⟩] := by
    refine ⟨?_, ?_⟩
    · rw [← hinner_eq]
      exact tlv_shift hat (le_refl _) innerP.isOne (by rw [innerP.whole]; omega)
    · change sp.stop ≤ stop
      omega
  have hengine_eq := content_octets hengine_at
  have hsecurity := IsSecurity.mk hinner rfl hfills rfl (by rw [hengine_eq]; omega)
    (isInt_int hboots hboots_at) hsource.boots (isInt_int htime htime_at) hsource.time rfl
    (by rw [content_octets hname_at]; exact hname) rfl rfl
  rw [hengine_eq, content_octets hname_at, content_octets hpriv_at] at hsecurity
  refine ⟨_, hsecurity, ?_, ?_, hparams_at.body⟩
  · have hlen : writeLen params.length = [UInt8.ofNat params.length] := if_pos hparams
    have hhead : (usmHead source name).length = (writeTlv 0x04 source.engineId).length +
        (writeInt source.boots).length + (writeInt source.time).length + (writeTlv 0x04 name).length := by
      unfold usmHead
      simp only [List.length_append]
    rw [hhead, ← hflat, hstart]
    change _ + (1 + (writeLen params.length).length) = _
    rw [hlen]
    simp only [Part.octets_bytes, Part.int_bytes, List.length_singleton]
    omega
  · change _ + (writeTlv 0x04 params).length = _ + (1 + (writeLen params.length).length) + params.length
    rw [length_writeTlv]
    omega

end Messages

end Dsip.Events
