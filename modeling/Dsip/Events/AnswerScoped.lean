import Dsip.Events.AnswerRead

/-!
# The ScopedPDU of a message and of its answer

`ReadsAs` is what a ScopedPDU's bytes say. The one of a message says in the bytes
cut out of it what it said in the message (`readsAs_of_isScoped`), and the one that
is written of its parts says them, alone and in the answer (`exists_scopedPart`).
-/

namespace Dsip.Events

open Dsip.Lib

/-- Bytes that are one ScopedPDU with these parts and these varbinds. -/
def ReadsAs (s : Bytes) (p : ScopedParts) (varbinds : List VarBind) : Prop :=
  ∃ t list, Fills s s.length 0 [t] ∧ t.tag = 0x30 ∧ PartsAt s t.reader p list ∧ IsVarBindList s list varbinds

section Reading

variable {b s : Bytes} {p : ScopedParts} {varbinds : List VarBind} {pdu : Pdu} {engine : Bytes}

theorem ReadsAs.readScoped (h : ReadsAs s p varbinds) : readScoped s = some p := by
  obtain ⟨t, list, hfills, htag, hparts, -⟩ := h
  exact readScoped_eq_some.mpr ⟨t, list, hfills, htag, hparts⟩

theorem parseScopedPdu_eq_some :
    parseScopedPdu s = some pdu ↔ ∃ p, ReadsAs s p pdu.varbinds ∧ p.tag = pdu.tag ∧
      p.requestId = pdu.requestId ∧ Fieldable pdu.requestId := by
  unfold parseScopedPdu ReadsAs
  simp only [↓expect_bind, ↓guard_bind, done_iff, scopedContent_eq_some]
  constructor
  · rintro ⟨t, ht, htag, hend, engine, hscoped⟩
    obtain ⟨p, list, hparts, -, hpdu, hrequest, hrange, hlist⟩ := isScoped_iff.mp hscoped
    exact ⟨p, ⟨t, list, ⟨ht, hend⟩, htag, hparts, hlist⟩, hpdu, hrequest, hrange⟩
  · rintro ⟨p, ⟨t, list, ⟨ht, hend⟩, htag, hparts, hlist⟩, hpdu, hrequest, hrange⟩
    exact ⟨t, ht, htag, hend, p.engine,
      isScoped_iff.mpr ⟨p, list, hparts, rfl, hpdu, hrequest, hrange, hlist⟩⟩

theorem readsAs_of_isScoped {n : Nat} {part : Part} (hat : StandsAt b n part.bytes)
    (htag : part.tlv.tag = 0x30) (h : IsScoped b (part.tlv.shift n).reader engine pdu) :
    ∃ p, ReadsAs part.bytes p pdu.varbinds ∧ p.engine = engine ∧ p.tag = pdu.tag ∧
      p.requestId = pdu.requestId ∧ Fieldable pdu.requestId := by
  obtain ⟨p, list, hparts, hengine, hpdu, hrequest, hrange, hlist⟩ := isScoped_iff.mp h
  obtain ⟨list, hparts', rfl, hstop⟩ := hparts.copied hat part.whole.le
  exact ⟨p, ⟨_, list, ⟨part.isOne, part.whole.ge⟩, htag, hparts', (isVarBindList_shift hat hstop).mp hlist⟩,
    hengine, hpdu, hrequest, hrange⟩

/-- The VarBindList that an answer copies is one wherever it stands, and nothing
that it copies is longer than what it is cut out of. -/
theorem ReadsAs.exists_list (h : ReadsAs s p varbinds) :
    ∃ part : Part, part.bytes = p.list ∧ part.tlv.tag = 0x30 ∧
      IsVarBindList part.bytes part.tlv varbinds ∧ p.engine.length ≤ s.length ∧
        p.name.length ≤ s.length ∧ p.list.length ≤ s.length := by
  obtain ⟨t, list, ⟨ht, -⟩, -, hparts, hlist⟩ := h
  obtain ⟨pos, stop, htlv, hstop, hbytes⟩ := hparts.list_bounds
  have hstop' : stop ≤ s.length := hstop.trans (tlv_bounds ht).2.2
  have hlistb := tlv_bounds htlv
  obtain ⟨part, hpart, rfl⟩ := exists_part htlv hstop'
  have hat : StandsAt s pos part.bytes := by
    rw [hpart]
    exact (standsAt_slice (by omega) (by omega)).1
  refine ⟨part, hpart.trans hbytes.symm, hlist.1, (isVarBindList_shift hat part.whole.le).mp hlist, ?_⟩
  cases hparts with
  | mk => exact ⟨length_slice_le _ _ _, length_slice_le _ _ _, length_slice_le _ _ _⟩

end Reading

section Writing

variable {engine name : Bytes} {tag : UInt8} {requestId : Int} {list : Part} {varbinds : List VarBind}

theorem exists_scopedPart (hrequest : Fieldable requestId) (htag : tag &&& 0x1F ≠ 0x1F)
    (hengine : engine.length < 2 ^ 29) (hname : name.length < 2 ^ 29) (hlist : list.bytes.length < 2 ^ 29)
    (hvarbinds : IsVarBindList list.bytes list.tlv varbinds) :
    ∃ whole : Part, whole.bytes = writeScoped engine name tag requestId list.bytes ∧
      whole.tlv.tag = 0x30 ∧ whole.bytes.length + 6 < 2 ^ 31 ∧
      ReadsAs whole.bytes ⟨engine, name, tag, requestId, 0, 0, list.bytes⟩ varbinds ∧
        ∀ b pos, StandsAt b pos whole.bytes →
          IsScoped b (whole.tlv.shift pos).reader engine ⟨tag, requestId, varbinds⟩ := by
  obtain ⟨whole, hbytes, hwhole, hlength, hparts⟩ := @exists_writeScoped engine name tag requestId list
    hrequest htag (by omega) (by omega) (by omega) hvarbinds.1
  refine ⟨whole, hbytes, hwhole, by omega, ?_, fun b pos hat => ?_⟩
  · obtain ⟨n, hat, hparts⟩ := hparts _ 0 (.whole _)
    have hshift : whole.tlv.shift 0 = whole.tlv := by simp [Tlv.shift]
    rw [hshift] at hparts
    exact ⟨_, _, ⟨whole.isOne, whole.whole.ge⟩, hwhole, hparts,
      (isVarBindList_shift hat list.whole.le).mpr hvarbinds⟩
  · obtain ⟨n, hlist_at, hparts⟩ := hparts b pos hat
    exact isScoped_iff.mpr ⟨_, _, hparts, rfl, rfl, rfl, hrequest,
      (isVarBindList_shift hlist_at list.whole.le).mpr hvarbinds⟩

theorem exists_writeVarBind {oid : String} {c : Bytes} (hwrite : writeOid oid = some (writeTlv 0x06 c))
    (hread : berOid c = some oid) (hsize : c.length ≤ 100) {value : Part} {v : Value}
    (hvalue : berValue value.tlv.tag (value.tlv.content value.bytes) = some v)
    (hlength : value.bytes.length ≤ 100) :
    ∃ list : Part, writeVarBind oid value.bytes = .ok list.bytes ∧ list.bytes.length < 2 ^ 29 ∧
      IsVarBindList list.bytes list.tlv [⟨oid, v⟩] := by
  have hname_le : (writeTlv 0x06 c).length ≤ _ := length_writeTlv_le (by omega)
  have hone : ([Part.written 0x06 c (by decide) (by omega), value].flatMap Part.bytes).length ≤ 206 := by
    simp
    omega
  have hone' := Part.length_group_le 0x30 _ (by decide) (Nat.lt_of_le_of_lt hone (by omega))
  generalize honeP : Part.group 0x30 [.written 0x06 c (by decide) (by omega), value] (by decide)
    (Nat.lt_of_le_of_lt hone (by omega)) = one at hone'
  have hlist : ([one].flatMap Part.bytes).length ≤ 212 := by
    rw [List.flatMap_singleton]
    omega
  have hlist' := Part.length_group_le 0x30 _ (by decide) (Nat.lt_of_le_of_lt hlist (by omega))
  generalize hlistP : Part.group 0x30 [one] (by decide) (Nat.lt_of_le_of_lt hlist (by omega)) = list at hlist'
  refine ⟨list, ?_, by omega, ?_⟩
  · unfold writeVarBind
    rw [hwrite]
    subst hlistP honeP
    simp [Part.group]
  · obtain ⟨start, stop, hlist_eq, hfills, ⟨hone_at, -⟩, -⟩ := Part.fills_group hlistP (.whole _)
    obtain ⟨first, last, hone_eq, hfills', ⟨hname_at, hvalue_at, -⟩, -⟩ := Part.fills_group honeP hone_at
    simp only [Part.laid] at hfills hfills'
    rw [hone_eq] at hfills
    have hshift : list.tlv.shift 0 = list.tlv := by simp [Tlv.shift]
    rw [hshift] at hlist_eq
    rw [hlist_eq]
    refine ⟨rfl, _, hfills, .cons (.mk rfl hfills' rfl ?_ ?_) .nil⟩
    · rw [Part.content hname_at, Part.content_written]
      exact hread
    · rw [Part.content hvalue_at]
      exact hvalue

end Writing

end Dsip.Events
