import Dsip.Events.Embed
import Dsip.Pkarr.CarryAgree

/-!
# Carrying what was carried

What is kept is plain: its owner and the names in its data are in wire form without
pointers. Plain records written as the answers of a message are read back as they are,
so that carrying that message gives them again.
-/

namespace Dsip.Pkarr

open Dsip.Lib
open Dsip.Events (StandsAt)

/-- Labels that a name can have. -/
def GoodLabels (labels : List Bytes) : Prop := ∀ label ∈ labels, 1 ≤ label.length ∧ label.length ≤ 63

/-- Data that is a layout without pointers. -/
inductive Filled : List Part → Bytes → Prop
  | nil : Filled [] []
  | name {labels : List Bytes} {parts : List Part} {rest : Bytes} : GoodLabels labels → Filled parts rest →
      Filled (.name :: parts) (wireName labels ++ rest)
  | fixed {k : Nat} {c : Bytes} {parts : List Part} {rest : Bytes} : c.length = k → Filled parts rest →
      Filled (.fixed k :: parts) (c ++ rest)

/-- A record that is kept, and reads as it is. -/
structure Plain (zone : ZoneName) (k : Kept) : Prop where
  owner : ∃ labels, GoodLabels labels ∧ k.name = wireName labels ∧
    ¬dsipLabels.any (fun first => isZoneName labels first (lower zone.bytes))
  type_lt : k.type < 256 ^ 2
  ttl_lt : k.ttl < 256 ^ 4
  data : ∀ parts ∈ compressible k.type, Filled parts k.rdata

/-! ## What is kept is plain -/

variable {keep : List Kept}

section Kept

variable {zone : ZoneName} {msg : Bytes}

theorem uint_lt (pkt : Bytes) (off width : Nat) : uint pkt off width < 256 ^ width := by
  have hlt := BigEndian.value_lt (slice pkt off (off + width))
  have hle : (slice pkt off (off + width)).length ≤ width := by
    rw [slice, List.length_drop, List.length_take]
    omega
  exact hlt.trans_le (Nat.pow_le_pow_right (by decide) hle)

theorem expandFields_filled {rdEnd : Nat} {fields : List Part} {pos stop : Nat} {parts out : Bytes}
    (hrdEnd : rdEnd ≤ msg.length) (h : expandFields msg rdEnd fields pos parts = some (out, stop)) :
    ∃ data, out = parts ++ data ∧ Filled fields data := by
  induction fields generalizing pos parts with
  | nil =>
    cases h
    exact ⟨[], (List.append_nil _).symm, .nil⟩
  | cons field fields ih =>
    cases field with
    | name =>
      rw [expandFields] at h
      cases hread : readName msg pos with
      | none =>
        rw [hread] at h
        cases h
      | some r =>
        rw [hread] at h
        dsimp only at h
        split at h
        · cases h
        · obtain ⟨data, rfl, hfilled⟩ := ih h
          exact ⟨wireName r.1 ++ data, List.append_assoc _ _ _, .name (readName_spec hread).1 hfilled⟩
    | fixed k =>
      rw [expandFields] at h
      split at h
      · cases h
      · rename_i hle
        obtain ⟨data, rfl, hfilled⟩ := ih h
        refine ⟨slice msg pos (pos + k) ++ data, List.append_assoc _ _ _, .fixed ?_ hfilled⟩
        rw [slice, List.length_drop, List.length_take]
        omega

/-- What is parsed fits its fields. -/
structure Parsed (msg : Bytes) (rr : RR) : Prop where
  labels : GoodLabels rr.labels
  type_lt : rr.type < 256 ^ 2
  ttl_lt : rr.ttl < 256 ^ 4
  inside : rr.rdStart + rr.rdata.length ≤ msg.length

theorem parseRecords_parsed {an left i pos stop : Nat} {answers answers' : List RR}
    (h : parseRecords msg an left i pos answers = some (answers', stop)) (hanswers : ∀ rr ∈ answers, Parsed msg rr) :
    (∀ rr ∈ answers', Parsed msg rr) ∧ answers'.length ≤ answers.length + (an - i) := by
  induction left generalizing i pos answers with
  | zero =>
    cases h
    exact ⟨hanswers, Nat.le_add_right _ _⟩
  | succ left ih =>
    rw [parseRecords] at h
    cases hread : readName msg pos with
    | none =>
      rw [hread] at h
      cases h
    | some r =>
      rw [hread] at h
      dsimp only at h
      split at h
      · cases h
      · split at h
        · cases h
        · rename_i hdata
          split at h
          · rename_i hanswer
            have hnew : Parsed msg ⟨r.1, uint msg r.2 2, uint msg (r.2 + 2) 2, uint msg (r.2 + 4) 4,
                slice msg (r.2 + 10) (r.2 + 10 + uint msg (r.2 + 8) 2), r.2 + 10⟩ := by
              refine ⟨(readName_spec hread).1, uint_lt _ _ _, uint_lt _ _ _, ?_⟩
              simp only [slice, List.length_drop, List.length_take]
              omega
            obtain ⟨hall, hlength⟩ := ih h fun rr hmem => by
              rcases List.mem_append.mp hmem with hmem | hmem
              · exact hanswers rr hmem
              · rw [List.mem_singleton.mp hmem]
                exact hnew
            refine ⟨hall, ?_⟩
            rw [List.length_append, List.length_singleton] at hlength
            omega
          · obtain ⟨hall, hlength⟩ := ih h hanswers
            exact ⟨hall, by omega⟩

theorem expandRdata_filled {rr : RR} {rdata : Bytes} (hparsed : Parsed msg rr) (h : expandRdata msg rr = some rdata) :
    ∀ parts ∈ compressible rr.type, Filled parts rdata := by
  intro parts hparts
  unfold expandRdata at h
  rw [Option.mem_def.mp hparts] at h
  dsimp only at h
  split at h
  · cases h
  · rename_i out stop hexpand
    split at h
    · cases h
    · cases h
      obtain ⟨data, rfl, hfilled⟩ := expandFields_filled hparsed.inside hexpand
      exact hfilled

theorem keepAnswers_map {answers : List RR} (h : keepAnswers zone msg answers [] = some keep) :
    keep.map (fun k => (k.name, k.type, k.ttl)) =
      (answers.filter fun rr => ¬passedOver zone rr).map fun rr => (wireName rr.labels, rr.type, rr.ttl) := by
  induction answers generalizing keep with
  | nil =>
    cases h
    rfl
  | cons rr answers ih =>
    rw [keepAnswers] at h
    split at h
    · rename_i hover
      rw [List.filter_cons_of_neg (by simpa using hover)]
      exact ih h
    · rename_i hover
      rw [List.filter_cons_of_pos (by simpa using hover)]
      split at h
      · cases h
      · rename_i rdata _
        rw [keepAnswers_append] at h
        obtain ⟨rest, hrest, rfl⟩ := Option.map_eq_some_iff.mp h
        rw [List.map_append, List.map_cons, ← ih hrest]
        rfl

theorem keepAnswers_plain {answers : List RR} (hparsed : ∀ rr ∈ answers, Parsed msg rr)
    (h : keepAnswers zone msg answers [] = some keep) : ∀ k ∈ keep, Plain zone k := by
  induction answers generalizing keep with
  | nil =>
    cases h
    exact fun k hmem => by cases hmem
  | cons rr answers ih =>
    have hrest := fun rr' hmem => hparsed rr' (List.mem_cons_of_mem _ hmem)
    rw [keepAnswers] at h
    split at h
    · exact ih hrest h
    · rename_i hover
      split at h
      · cases h
      · rename_i rdata hrdata
        rw [keepAnswers_append] at h
        obtain ⟨rest, hkeep, rfl⟩ := Option.map_eq_some_iff.mp h
        have hrr := hparsed rr List.mem_cons_self
        intro k hmem
        rcases List.mem_cons.mp hmem with rfl | hmem
        · exact ⟨⟨rr.labels, hrr.labels, rfl, (not_or.mp hover).2⟩, hrr.type_lt, hrr.ttl_lt,
            expandRdata_filled hrr hrdata⟩
        · exact ih hrest hkeep k hmem

theorem carryTs_plain (h : carryTs zone msg = some keep) :
    (∀ k ∈ keep, Plain zone k) ∧ keep.length < 256 ^ 2 := by
  unfold carryTs at h
  split at h
  · cases h
  · rename_i answers hparse
    unfold parseAnswers at hparse
    split at hparse
    · cases hparse
    · dsimp only at hparse
      split at hparse
      · cases hparse
      · split at hparse
        · cases hparse
        · rename_i answers' stop hrecords
          split at hparse
          · cases hparse
          · cases hparse
            obtain ⟨hparsed, hlength⟩ := parseRecords_parsed hrecords fun rr hmem => by cases hmem
            refine ⟨keepAnswers_plain hparsed h, ?_⟩
            have hmap := congrArg List.length (keepAnswers_map h)
            have hfilter := List.length_filter_le (fun rr => decide ¬passedOver zone rr) answers
            have hcount := uint_lt msg 6 2
            rw [List.length_map, List.length_map] at hmap
            rw [List.length_nil] at hlength
            omega

end Kept

/-! ## What is plain reads as it is -/

section Again

variable {zone : ZoneName} {msg : Bytes} {pos : Nat}

theorem slice_at {c : Bytes} (h : StandsAt msg pos c) : slice msg pos (pos + c.length) = c := by
  rw [slice, List.drop_take]
  exact h.slice_self

theorem uint_at {width n : Nat} (hn : n < 256 ^ width) (h : StandsAt msg pos (BigEndian.bytes width n)) :
    uint msg pos width = n := by
  have hslice := slice_at h
  rw [BigEndian.length_bytes] at hslice
  rw [uint, hslice, BigEndian.value_bytes hn]

theorem readLoop_wire {labels : List Bytes} (hgood : GoodLabels labels) (read : List Bytes) (start : Nat)
    (hat : StandsAt msg pos (wireName labels)) :
    (readLoop msg).exec ⟨read, none, start, pos⟩ = some (read ++ labels, pos + (wireName labels).length) := by
  induction labels generalizing read pos with
  | nil =>
    have hget : msg[pos]? = some 0 := hat.getElem? (p := 0) (by decide)
    refine Loop.exec_inr ?_
    change readStep msg _ = _
    rw [readStep, show msg[(⟨read, none, start, pos⟩ : Walk (List Bytes)).off]? = some 0 from hget]
    simp [wireName]
  | cons label labels ih =>
    obtain ⟨hpos, hle⟩ := hgood label List.mem_cons_self
    have hwire : wireName (label :: labels) = wireLabel label ++ wireName labels := by
      rw [wireName, wireName, List.flatMap_cons, List.append_assoc]
    have hcount : (wireLabel label).length = 1 + label.length := by
      rw [wireLabel, List.length_cons, Nat.add_comm]
    rw [hwire] at hat ⊢
    have hlabel : StandsAt msg (pos + 1) label := by
      have hpiece : StandsAt msg pos ([label.length.toUInt8] ++ label) := hat.left
      exact hpiece.right
    have hrest : StandsAt msg (pos + 1 + label.length) (wireName labels) := by
      have hright := hat.right
      rw [hcount, ← Nat.add_assoc] at hright
      exact hright
    have hget : msg[pos]? = some label.length.toUInt8 := by
      have hfirst := hat.left.getElem? (p := 0) (by rw [hcount]; omega)
      exact hfirst
    have hnat : label.length.toUInt8.toNat = label.length := by
      change (UInt8.ofNat label.length).toNat = _
      rw [UInt8.toNat_ofNat']
      omega
    have hshort : ¬label.length.toUInt8 > 63 := by
      rw [gt_iff_lt, UInt8.lt_iff_toNat_lt, hnat]
      exact Nat.not_lt.mpr hle
    have hbits := (label_type label.length.toUInt8).1.mpr hshort
    have hzero : label.length.toUInt8 ≠ 0 := by
      intro h
      rw [h] at hnat
      exact absurd hnat.symm (by change ¬label.length = 0; omega)
    have hfit := hlabel.length_le
    have hslice := slice_at hlabel
    have hstep : readStep msg ⟨read, none, start, pos⟩ =
        .inl ⟨read ++ [label], none, start, pos + 1 + label.length⟩ := by
      rw [readStep, show msg[(⟨read, none, start, pos⟩ : Walk (List Bytes)).off]? = _ from hget]
      dsimp only
      rw [if_neg hzero, if_neg fun htype => ((label_type _).2 htype).2 hbits, if_neg hshort, hnat,
        if_neg (Nat.not_lt.mpr hfit), hslice]
    rw [Loop.exec_inl (L := readLoop msg) hstep, ih (fun l hl => hgood l (List.mem_cons_of_mem _ hl)) _ hrest,
      List.append_assoc, List.length_append, hcount]
    congr 2
    omega

theorem readName_wire {labels : List Bytes} (hgood : GoodLabels labels) (hat : StandsAt msg pos (wireName labels)) :
    readName msg pos = some (labels, pos + (wireName labels).length) := readLoop_wire hgood [] pos hat

theorem expandFields_at {rdEnd : Nat} {fields : List Part} {data : Bytes} (hfilled : Filled fields data)
    (hat : StandsAt msg pos data) (hend : pos + data.length ≤ rdEnd) (parts : Bytes) :
    expandFields msg rdEnd fields pos parts = some (parts ++ data, pos + data.length) := by
  induction hfilled generalizing pos parts with
  | nil => simp [expandFields]
  | @name labels fields rest hgood _ ih =>
    rw [List.length_append] at hend
    rw [expandFields, readName_wire hgood hat.left]
    dsimp only
    rw [if_neg (by omega), ih hat.right (by omega), List.append_assoc, List.length_append, Nat.add_assoc]
  | @fixed k c fields rest hlength _ ih =>
    rw [List.length_append] at hend
    have hslice := slice_at hat.left
    have hright := hat.right
    rw [hlength] at hslice hright hend
    rw [expandFields, if_neg (by omega), hslice, ih hright (by omega), List.append_assoc, List.length_append, hlength,
      Nat.add_assoc]

/-- A kept record, written as an IN record. -/
def writeRecord (k : Kept) : Bytes :=
  k.name ++ (BigEndian.bytes 2 k.type ++ (BigEndian.bytes 2 1 ++ (BigEndian.bytes 4 k.ttl ++
    (BigEndian.bytes 2 k.rdata.length ++ k.rdata))))

/-- A message whose only records are answers, after an id and flags. -/
def writeAnswers (front : Bytes) (keep : List Kept) : Bytes :=
  front ++ (BigEndian.bytes 2 0 ++ (BigEndian.bytes 2 keep.length ++ (BigEndian.bytes 2 0 ++
    (BigEndian.bytes 2 0 ++ keep.flatMap writeRecord))))

theorem parseRecords_again {an i : Nat} (hplain : ∀ k ∈ keep, Plain zone k)
    (hrdata : ∀ k ∈ keep, k.rdata.length < 65536) (hat : StandsAt msg pos (keep.flatMap writeRecord))
    (han : i + keep.length ≤ an) :
    ∃ answers, parseRecords msg an keep.length i pos [] = some (answers, pos + (keep.flatMap writeRecord).length) ∧
      keepAnswers zone msg answers [] = some keep := by
  induction keep generalizing i pos with
  | nil => exact ⟨[], rfl, rfl⟩
  | cons k keep ih =>
    obtain ⟨⟨labels, hgood, hname, howner⟩, htype, httl, hdata⟩ := hplain k List.mem_cons_self
    rw [List.flatMap_cons] at hat ⊢
    have hrecord : StandsAt msg pos (writeRecord k) := hat.left
    unfold writeRecord at hrecord
    rw [hname] at hrecord
    have hread := readName_wire hgood hrecord.left
    have hlength : (writeRecord k).length = (wireName labels).length + 10 + k.rdata.length := by
      simp only [writeRecord, hname, List.length_append, BigEndian.length_bytes]
      omega
    have hfields := hrecord.right
    generalize hstop : pos + (wireName labels).length = stop at hfields hread
    have hclassAt := hfields.right
    have httlAt := hclassAt.right
    have hcountAt := httlAt.right
    have hrdataAt := hcountAt.right
    simp only [BigEndian.length_bytes, Nat.add_assoc, Nat.reduceAdd] at hclassAt httlAt hcountAt hrdataAt
    have hcount := uint_at (hrdata k List.mem_cons_self) hcountAt.left
    have hend := hrdataAt.length_le
    have hslice := slice_at hrdataAt
    have hover : ¬passedOver zone ⟨labels, k.type, 1, k.ttl, k.rdata, stop + 10⟩ :=
      not_or.mpr ⟨not_not.mpr rfl, howner⟩
    have hexpand : expandRdata msg ⟨labels, k.type, 1, k.ttl, k.rdata, stop + 10⟩ = some k.rdata := by
      unfold expandRdata
      cases hparts : compressible k.type with
      | none => rfl
      | some parts =>
        dsimp only
        rw [expandFields_at (hdata parts hparts) hrdataAt (Nat.le_refl _)]
        exact if_neg (not_not.mpr rfl)
    have hrest : StandsAt msg (stop + 10 + k.rdata.length) (keep.flatMap writeRecord) := by
      have hright := hat.right
      rw [hlength, ← Nat.add_assoc, ← Nat.add_assoc, hstop] at hright
      exact hright
    rw [List.length_cons] at han
    obtain ⟨answers, hparse, hkeep⟩ := ih (i := i + 1) (fun k' hmem => hplain k' (List.mem_cons_of_mem _ hmem))
      (fun k' hmem => hrdata k' (List.mem_cons_of_mem _ hmem)) hrest (by omega)
    refine ⟨⟨labels, k.type, 1, k.ttl, k.rdata, stop + 10⟩ :: answers, ?_, ?_⟩
    · rw [List.length_cons, parseRecords, hread]
      dsimp only
      rw [if_neg (by omega), hcount, if_neg (by omega), if_pos (by omega), uint_at htype hfields.left,
        uint_at (by decide) hclassAt.left, uint_at httl httlAt.left, hslice, parseRecords_append, hparse,
        List.length_append, hlength]
      simp only [Option.map_some, List.nil_append, List.singleton_append, Option.some.injEq, Prod.mk.injEq, true_and]
      omega
    · rw [keepAnswers, if_neg hover, hexpand]
      dsimp only
      rw [keepAnswers_append, hkeep, ← hname]
      rfl

theorem carryTs_again {front : Bytes} (hfront : front.length = 4)
    (hplain : ∀ k ∈ keep, Plain zone k) (hrdata : ∀ k ∈ keep, k.rdata.length < 65536)
    (hcount : keep.length < 256 ^ 2) : carryTs zone (writeAnswers front keep) = some keep := by
  have hat := StandsAt.whole (writeAnswers front keep)
  have hlength : (writeAnswers front keep).length = 12 + (keep.flatMap writeRecord).length := by
    simp only [writeAnswers, List.length_append, BigEndian.length_bytes, hfront]
    omega
  have hqd := hat.right
  rw [hfront] at hqd
  have han := hqd.right
  have hns := han.right
  have har := hns.right
  have hrecords := har.right
  simp only [BigEndian.length_bytes, Nat.reduceAdd] at hqd han hns har hrecords
  have hqdZero : uint (writeAnswers front keep) 4 2 = 0 := uint_at (by decide) hqd.left
  have hanCount : uint (writeAnswers front keep) 6 2 = keep.length := uint_at hcount han.left
  have hnsZero : uint (writeAnswers front keep) 8 2 = 0 := uint_at (by decide) hns.left
  have harZero : uint (writeAnswers front keep) 10 2 = 0 := uint_at (by decide) har.left
  obtain ⟨answers, hparse, hkeep⟩ := parseRecords_again (i := 0) hplain hrdata hrecords (by omega : _ ≤ keep.length)
  unfold carryTs parseAnswers
  dsimp only
  rw [if_neg (by omega), hqdZero, hanCount, hnsZero, harZero, parseQuestions]
  dsimp only [Nat.add_zero]
  rw [hparse]
  dsimp only
  rw [if_neg (by omega)]
  exact hkeep

end Again

theorem not_passedOver (zone : ZoneName) (rr : RR) :
    ¬passedOver zone rr ↔ rr.cls = 1 ∧ ∀ first ∈ dsipLabels, rr.labels.map lower ≠ [first, lower zone.bytes] := by
  have howner (first : Bytes) :
      isZoneName rr.labels first (lower zone.bytes) = true ↔ rr.labels.map lower = [first, lower zone.bytes] := by
    unfold isZoneName
    match rr.labels with
    | [] | [_] | _ :: _ :: _ :: _ => simp
    | [a, b] => simp
  unfold passedOver
  rw [not_or, not_not, List.any_eq_true, not_exists]
  refine and_congr Iff.rfl (forall_congr' fun first => ?_)
  rw [not_and, howner]

/-- Both refuse a message or both carry the same records: in order, one for every IN
answer that is not DSIP's, with its owner, type and ttl. What is carried, written as the
only answers of a message, is carried again as it is. -/
theorem carry_keeps (zone : ZoneName) (dns : Bytes) : carry zone dns = refused (carryTs zone dns) ∧
    (∀ keep, carry zone dns = .ok keep → ∃ answers, parseAnswers dns = some answers ∧
      keep.map (fun k => (k.name, k.type, k.ttl)) =
        (answers.filter fun rr => rr.cls = 1 ∧ ∀ first ∈ dsipLabels, rr.labels.map lower ≠ [first, lower zone.bytes]).map
          fun rr => (wireName rr.labels, rr.type, rr.ttl)) ∧
    (∀ keep front, carry zone dns = .ok keep → front.length = 4 → (∀ k ∈ keep, k.rdata.length < 65536) →
      carry zone (writeAnswers front keep) = .ok keep ∧ carryTs zone (writeAnswers front keep) = some keep) := by
  have hkept {keep : List Kept} (h : carry zone dns = .ok keep) : carryTs zone dns = some keep := by
    rw [carry_eq] at h
    cases hts : carryTs zone dns with
    | none =>
      rw [hts] at h
      cases h
    | some keep' =>
      rw [hts] at h
      cases h
      rfl
  refine ⟨carry_eq zone dns, fun keep h => ?_, fun keep front h hfront hrdata => ?_⟩
  · have hts := hkept h
    unfold carryTs at hts
    cases hparse : parseAnswers dns with
    | none =>
      rw [hparse] at hts
      cases hts
    | some answers =>
      rw [hparse] at hts
      refine ⟨answers, rfl, (keepAnswers_map hts).trans ?_⟩
      congr 2
      funext rr
      exact decide_eq_decide.mpr (not_passedOver zone rr)
  · obtain ⟨hplain, hcount⟩ := carryTs_plain (hkept h)
    have hagain := carryTs_again hfront hplain hrdata hcount
    exact ⟨by rw [carry_eq, hagain]; rfl, hagain⟩

end Dsip.Pkarr
