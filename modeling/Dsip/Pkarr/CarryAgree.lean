import Dsip.Pkarr.CarryTs

/-!
# Both carry the same records

Reading and expanding in turn refuses what reading first and expanding then refuses,
and keeps the same: a failure anywhere refuses the message, and an owner is compared the
same way as labels and in wire form.
-/

namespace Dsip.Pkarr

open Dsip.Lib

def refused {α : Type} : Option α → Except Stop α
  | none => .error .reject
  | some a => .ok a

/-! ## Owners -/

variable {labels : List Bytes}

section Owners

theorem lowerByte_small {n : UInt8} (h : n.toNat ≤ 63) : lowerByte n = n := by
  refine if_neg fun hrange => ?_
  have hle : (0x41 : UInt8).toNat ≤ n.toNat := UInt8.le_iff_toNat_le.mp hrange.1
  have h65 : (0x41 : UInt8).toNat = 65 := rfl
  omega

theorem length_lower (label : Bytes) : (lower label).length = label.length := List.length_map _

theorem lower_wireLabel {label : Bytes} (h : label.length ≤ 63) : lower (wireLabel label) = wireLabel (lower label) := by
  have hsmall : label.length.toUInt8.toNat ≤ 63 := by
    rw [Nat.toUInt8, UInt8.toNat_ofNat']
    omega
  rw [wireLabel, wireLabel, length_lower, lower, List.map_cons, lowerByte_small hsmall]
  rfl

theorem lower_wireName (h : ∀ label ∈ labels, label.length ≤ 63) :
    lower (wireName labels) = wireName (labels.map lower) := by
  induction labels with
  | nil => rfl
  | cons label labels ih =>
    have hrest := ih fun l hl => h l (List.mem_cons_of_mem _ hl)
    unfold wireName at hrest ⊢
    rw [List.flatMap_cons, List.map_cons, List.flatMap_cons, List.append_assoc, List.append_assoc, ← hrest,
      ← lower_wireLabel (h label List.mem_cons_self)]
    exact List.map_append

theorem wireName_inj {labels' : List Bytes} (hlabels : ∀ l ∈ labels, 1 ≤ l.length ∧ l.length ≤ 63)
    (hlabels' : ∀ l ∈ labels', l.length ≤ 63) (h : wireName labels = wireName labels') : labels = labels' := by
  have hbyte {n m : Nat} (hn : n ≤ 63) (hm : m ≤ 63) (hnm : n.toUInt8 = m.toUInt8) : n = m := by
    have htoNat : (UInt8.ofNat n).toNat = (UInt8.ofNat m).toNat := congrArg UInt8.toNat hnm
    rw [UInt8.toNat_ofNat', UInt8.toNat_ofNat'] at htoNat
    omega
  induction labels generalizing labels' with
  | nil =>
    cases labels' with
    | nil => rfl
    | cons l' rest' =>
      have hlength := congrArg List.length h
      simp [wireName, wireLabel] at hlength
  | cons l rest ih =>
    obtain ⟨hpos, hle⟩ := hlabels l List.mem_cons_self
    cases labels' with
    | nil =>
      have hlength := congrArg List.length h
      simp [wireName, wireLabel] at hlength
    | cons l' rest' =>
      have hle' := hlabels' l' List.mem_cons_self
      unfold wireName at h ih
      rw [List.flatMap_cons, List.flatMap_cons, wireLabel, wireLabel, List.cons_append, List.cons_append,
        List.cons_append, List.cons_append] at h
      obtain ⟨hhead, htail⟩ := List.cons.inj h
      have hlength := hbyte hle hle' hhead
      rw [List.append_assoc, List.append_assoc] at htail
      obtain ⟨hl, hrest⟩ := List.append_inj htail hlength
      rw [hl, ih (fun x hx => hlabels x (List.mem_cons_of_mem _ hx))
        (fun x hx => hlabels' x (List.mem_cons_of_mem _ hx)) hrest]

theorem length_zone (zone : ZoneName) : zone.bytes.length = zone.text.length := List.length_map _

theorem owner_iff (zone : ZoneName) (hlabels : ∀ l ∈ labels, 1 ≤ l.length ∧ l.length ≤ 63) :
    (owners zone).any (fun o => lower (wireName labels) = lower o) =
      dsipLabels.any (fun first => isZoneName labels first (lower zone.bytes)) := by
  have hfirst : ∀ first ∈ dsipLabels, first.length ≤ 63 ∧ lower first = first := by decide
  rw [Bool.eq_iff_iff, owners, List.any_map, List.any_eq_true, List.any_eq_true]
  refine exists_congr fun first => and_congr_right fun hmem => ?_
  obtain ⟨hlength, hlower⟩ := hfirst first hmem
  have hzone : zone.bytes.length ≤ 63 := (length_zone zone).trans_le zone.length_le
  have howner : [UInt8.ofNat first.length] ++ first ++ [UInt8.ofNat zone.text.length] ++ zone.bytes ++ [0] =
      wireName [first, zone.bytes] := by
    simp [wireName, wireLabel, length_zone]
  have hgood : ∀ l ∈ [first, zone.bytes], l.length ≤ 63 := by simp [hlength, hzone]
  have hiff : wireName (labels.map lower) = wireName ([first, zone.bytes].map lower) ↔
      labels.map lower = [first, zone.bytes].map lower := by
    refine ⟨wireName_inj ?_ ?_, congrArg wireName⟩
    · simpa [length_lower] using hlabels
    · simpa [length_lower] using hgood
  rw [Function.comp_apply, howner, lower_wireName fun l hl => (hlabels l hl).2, lower_wireName hgood, decide_eq_true_eq,
    hiff, List.map_cons, List.map_singleton, hlower]
  unfold isZoneName
  rcases labels with _ | ⟨a, _ | ⟨b, _ | ⟨c, rest⟩⟩⟩ <;> simp

end Owners

/-! ## Data -/

theorem nameRdata_eq (type : Nat) : nameRdata type = compressible type := by
  unfold nameRdata compressible
  by_cases hlt : type < 16
  · interval_cases type <;> rfl
  · have hne (n : Nat) (h : n < 16) : (type == n) = false := beq_false_of_ne (by omega)
    simp only [List.lookup_cons, List.lookup_nil, hne 2 (by omega), hne 3 (by omega), hne 4 (by omega), hne 5 (by omega), hne 6 (by omega),
      hne 7 (by omega), hne 8 (by omega), hne 9 (by omega), hne 12 (by omega), hne 14 (by omega), hne 15 (by omega)]
    rw [if_neg (by simp; omega), if_neg (by omega), if_neg (by omega), if_neg (by omega)]

theorem expandParts_eq (dns : Bytes) (re : Nat) (parts : List Part) (p : Nat) (out : Bytes) :
    expandParts dns re parts p out = refused (expandFields dns re parts p out) := by
  induction parts generalizing p out with
  | nil => rfl
  | cons part parts ih =>
    cases part with
    | name =>
      rw [expandParts, expandFields, expand_eq]
      cases readName dns p with
      | none => rfl
      | some r =>
        dsimp only [limited]
        by_cases hpast : r.2 > re
        · rw [if_pos hpast, if_pos hpast]
          rfl
        · rw [if_neg hpast, if_neg hpast]
          exact ih r.2 (out ++ wireName r.1)
    | fixed k =>
      rw [expandParts, expandFields]
      by_cases hpast : p + k > re
      · rw [if_pos hpast, if_pos hpast]
        rfl
      · rw [if_neg hpast, if_neg hpast]
        exact ih (p + k) _

theorem carriedRdata_eq {dns : Bytes} {rr : RR} {re : Nat} (hre : re = rr.rdStart + rr.rdata.length)
    (hdata : rr.rdata = slice dns rr.rdStart re) :
    carriedRdata dns rr.type rr.rdStart re = refused (expandRdata dns rr) := by
  unfold carriedRdata expandRdata
  rw [nameRdata_eq]
  cases compressible rr.type with
  | none => rw [hdata]; rfl
  | some parts =>
    dsimp only
    rw [expandParts_eq, ← hre]
    cases expandFields dns re parts rr.rdStart [] with
    | none => rfl
    | some r =>
      dsimp only [refused]
      by_cases hend : r.2 ≠ re
      · rw [if_pos hend, if_pos hend]
      · rw [if_neg hend, if_neg hend]

/-! ## Records -/

theorem parseRecords_append (msg : Bytes) (an left i pos : Nat) (answers : List RR) :
    parseRecords msg an left i pos answers =
      (parseRecords msg an left i pos []).map fun r => (answers ++ r.1, r.2) := by
  induction left generalizing i pos answers with
  | zero => simp [parseRecords]
  | succ left ih =>
    unfold parseRecords
    cases readName msg pos with
    | none => rfl
    | some r =>
      dsimp only
      split
      · rfl
      · split
        · rfl
        · split
          · rw [ih, ih (i + 1) _ ([] ++ _), Option.map_map]
            congr 1
            funext x
            simp
          · exact ih _ _ _

theorem keepAnswers_append (zone : ZoneName) (msg : Bytes) (answers : List RR) (keep : List Kept) :
    keepAnswers zone msg answers keep = (keepAnswers zone msg answers []).map fun r => keep ++ r := by
  induction answers generalizing keep with
  | nil => simp [keepAnswers]
  | cons rr answers ih =>
    unfold keepAnswers
    split
    · exact ih keep
    · cases expandRdata msg rr with
      | none => rfl
      | some rdata =>
        dsimp only
        rw [ih, ih ([] ++ _), Option.map_map]
        congr 1
        funext x
        simp

/-- What the records loop gives, from what is parsed. -/
def carriedFrom (zone : ZoneName) (dns : Bytes) (keep : List Kept) :
    Option (List RR × Nat) → Except Stop (List Kept × Nat)
  | none => .error .reject
  | some (answers, pos) => refused ((keepAnswers zone dns answers []).map fun r => (keep ++ r, pos))

theorem records_answer (zone : ZoneName) (dns : Bytes) {an left i stop n : Nat} {keep : List Kept}
    (hanswer : i < an) (hrdata : (slice dns (stop + 10) (stop + 10 + n)).length = n)
    (ih : ∀ i off keep, records zone dns an left i off keep = carriedFrom zone dns keep (parseRecords dns an left i off [])) :
    (if i ≥ an ∨ uint dns (stop + 2) 2 ≠ 1 ∨
          dsipLabels.any (fun first => isZoneName labels first (lower zone.bytes)) = true then
        records zone dns an left (i + 1) (stop + 10 + n) keep
      else
        match carriedRdata dns (uint dns stop 2) (stop + 10) (stop + 10 + n) with
        | .error e => .error e
        | .ok rdata => records zone dns an left (i + 1) (stop + 10 + n)
            (keep ++ [⟨wireName labels, uint dns stop 2, uint dns (stop + 4) 4, rdata⟩])) =
      carriedFrom zone dns keep
        ((parseRecords dns an left (i + 1) (stop + 10 + n) []).map fun r =>
          ([⟨labels, uint dns stop 2, uint dns (stop + 2) 2, uint dns (stop + 4) 4,
            slice dns (stop + 10) (stop + 10 + n), stop + 10⟩] ++ r.1, r.2)) := by
  generalize hrr : (⟨labels, uint dns stop 2, uint dns (stop + 2) 2, uint dns (stop + 4) 4,
    slice dns (stop + 10) (stop + 10 + n), stop + 10⟩ : RR) = rr
  have hpassed : (i ≥ an ∨ uint dns (stop + 2) 2 ≠ 1 ∨
      dsipLabels.any (fun first => isZoneName labels first (lower zone.bytes)) = true) ↔ passedOver zone rr := by
    rw [← hrr]
    exact or_iff_right (Nat.not_le.mpr hanswer)
  have hdata : carriedRdata dns (uint dns stop 2) (stop + 10) (stop + 10 + n) = refused (expandRdata dns rr) := by
    rw [← hrr]
    exact @carriedRdata_eq dns ⟨labels, _, _, _, _, stop + 10⟩ _ (by rw [hrdata]) rfl
  by_cases hover : passedOver zone rr
  · rw [if_pos (hpassed.mpr hover), ih]
    cases parseRecords dns an left (i + 1) (stop + 10 + n) [] with
    | none => rfl
    | some r =>
      rw [Option.map_some, carriedFrom, carriedFrom, List.singleton_append, keepAnswers, if_pos hover]
  · rw [if_neg fun h => hover (hpassed.mp h), hdata]
    cases hexpand : expandRdata dns rr with
    | none =>
      cases parseRecords dns an left (i + 1) (stop + 10 + n) [] with
      | none => rfl
      | some r =>
        rw [Option.map_some, carriedFrom, List.singleton_append, keepAnswers, if_neg hover, hexpand]
        rfl
    | some rdata =>
      dsimp only [refused]
      rw [ih]
      cases parseRecords dns an left (i + 1) (stop + 10 + n) [] with
      | none => rfl
      | some r =>
        rw [Option.map_some, carriedFrom, carriedFrom, List.singleton_append, keepAnswers, if_neg hover, hexpand]
        dsimp only
        rw [keepAnswers_append zone dns r.1 ([] ++ _), Option.map_map, ← hrr]
        congr 2
        funext x
        simp

theorem records_eq (zone : ZoneName) (dns : Bytes) (an left i off : Nat) (keep : List Kept) :
    records zone dns an left i off keep = carriedFrom zone dns keep (parseRecords dns an left i off []) := by
  induction left generalizing i off keep with
  | zero => simp [records, parseRecords, carriedFrom, keepAnswers, refused]
  | succ left ih =>
    unfold records parseRecords
    rw [expand_eq]
    cases hread : readName dns off with
    | none => rfl
    | some r =>
      obtain ⟨labels, stop⟩ := r
      obtain ⟨hlabels, -, hstop⟩ := readName_spec hread
      dsimp only [limited]
      rw [if_neg (Nat.not_lt.mpr hstop)]
      dsimp only
      by_cases hhead : stop + 10 > dns.length
      · rw [if_pos hhead, if_pos hhead]
        rfl
      rw [if_neg hhead, if_neg hhead]
      by_cases hdata : stop + 10 + uint dns (stop + 8) 2 > dns.length
      · rw [if_pos hdata, if_pos hdata]
        rfl
      rw [if_neg hdata, if_neg hdata, owner_iff zone hlabels]
      have hrdata : (slice dns (stop + 10) (stop + 10 + uint dns (stop + 8) 2)).length = uint dns (stop + 8) 2 := by
        rw [slice, List.length_drop, List.length_take]
        omega
      by_cases hanswer : i < an
      · rw [if_pos hanswer, List.nil_append, parseRecords_append]
        exact records_answer zone dns hanswer hrdata ih
      · rw [if_neg hanswer, if_pos (.inl (Nat.le_of_not_lt hanswer))]
        exact ih _ _ _

/-! ## The message -/

theorem readName_past {msg : Bytes} {pos : Nat} (h : pos ≥ msg.length) : readName msg pos = none := by
  refine Loop.exec_inr ?_
  have hget : msg[pos]? = none := List.getElem?_eq_none_iff.mpr h
  change readStep msg (.fresh [] pos) = _
  rw [readStep, show msg[(Walk.fresh ([] : List Bytes) pos).off]? = none from hget]

theorem questions_past {dns : Bytes} {n off : Nat} (h : off > dns.length) :
    questions dns n off = .error .reject ∨ questions dns n off = .ok off := by
  cases n with
  | zero => exact .inr rfl
  | succ n =>
    left
    rw [questions, expand_eq, readName_past (Nat.le_of_lt h)]
    rfl

theorem records_past {zone : ZoneName} {dns : Bytes} {an left i off : Nat} {keep : List Kept} (h : off > dns.length) :
    records zone dns an left i off keep = .error .reject ∨ records zone dns an left i off keep = .ok (keep, off) := by
  cases left with
  | zero => exact .inr rfl
  | succ left =>
    left
    rw [records, expand_eq, readName_past (Nat.le_of_lt h)]
    rfl

theorem questions_eq (dns : Bytes) (n off : Nat) : questions dns n off = refused (parseQuestions dns n off) ∨
      parseQuestions dns n off = none ∧ ∃ off' > dns.length, questions dns n off = .ok off' := by
  induction n generalizing off with
  | zero => exact .inl rfl
  | succ n ih =>
    rw [questions, parseQuestions, expand_eq]
    cases hread : readName dns off with
    | none => exact .inl rfl
    | some r =>
      obtain ⟨-, -, hstop⟩ := readName_spec hread
      dsimp only [limited]
      rw [if_neg (Nat.not_lt.mpr hstop)]
      dsimp only
      by_cases hpast : r.2 + 4 > dns.length
      · rw [if_pos hpast]
        rcases questions_past hpast with h | h
        · exact .inl h
        · exact .inr ⟨rfl, r.2 + 4, hpast, h⟩
      · rw [if_neg hpast]
        exact ih (r.2 + 4)

theorem carry_eq (zone : ZoneName) (dns : Bytes) : carry zone dns = refused (carryTs zone dns) := by
  unfold carry carryTs parseAnswers
  by_cases hshort : dns.length < 12
  · rw [if_pos hshort, if_pos hshort]
    rfl
  rw [if_neg hshort, if_neg hshort]
  dsimp only
  rcases questions_eq dns (uint dns 4 2) 12 with h | ⟨hparse, off, hpast, h⟩
  · rw [h]
    cases parseQuestions dns (uint dns 4 2) 12 with
    | none => rfl
    | some off =>
      dsimp only [refused]
      rw [records_eq, Nat.add_assoc]
      cases parseRecords dns (uint dns 6 2) (uint dns 6 2 + (uint dns 8 2 + uint dns 10 2)) 0 off [] with
      | none => rfl
      | some r =>
        dsimp only [carriedFrom]
        by_cases hend : r.2 ≠ dns.length
        · rw [if_pos hend]
          cases keepAnswers zone dns r.1 [] with
          | none => rfl
          | some keep => exact if_pos hend
        · rw [if_neg hend]
          dsimp only
          cases keepAnswers zone dns r.1 [] with
          | none => rfl
          | some keep => exact if_neg hend
  · rw [h, hparse]
    dsimp only
    rcases @records_past zone dns (uint dns 6 2) (uint dns 6 2 + uint dns 8 2 + uint dns 10 2) 0 off [] hpast with
      hrecords | hrecords
    · rw [hrecords]
      rfl
    · rw [hrecords]
      exact if_pos (by omega)

end Dsip.Pkarr
