import Dsip.Pkarr.Names

/-!
# The readers of a name agree

`readName` is the TypeScript reader. `_name` gives its labels in lower case, and
`_expand` its labels in wire form where the name ends by the limit: `_expand` stops at
the first byte past the limit, and where it does, the whole name ends past it.
-/

namespace Dsip.Pkarr

open Dsip.Lib

/-- One pass through the loop of `readName`; no result where it throws. -/
def readStep (msg : Bytes) (s : Walk (List Bytes)) : Walk (List Bytes) ⊕ Option (List Bytes × Nat) :=
  match msg[s.off]? with
  | none => .inr none
  | some len =>
    if len = 0 then .inr (some (s.out, s.endAt.getD (s.off + 1)))
    else if len &&& 0xC0 = 0xC0 then
      match msg[s.off + 1]? with
      | none => .inr none
      | some low =>
        if pointer len low ≥ s.start then .inr none
        else
          .inl { s with
            endAt := some (s.endAt.getD (s.off + 2)), off := pointer len low, start := pointer len low }
    else if len > 63 then .inr none
    else if s.off + 1 + len.toNat > msg.length then .inr none
    else
      .inl { s with
        out := s.out ++ [slice msg (s.off + 1) (s.off + 1 + len.toNat)], off := s.off + 1 + len.toNat }

theorem label_type (n : UInt8) : (n &&& 0xC0 = 0 ↔ ¬n > 63) ∧ (n &&& 0xC0 = 0xC0 → n ≠ 0 ∧ n &&& 0xC0 ≠ 0) := by
  have hall : ∀ k : Fin 256, (UInt8.ofNat k &&& 0xC0 = 0 ↔ ¬UInt8.ofNat k > 63) ∧
      (UInt8.ofNat k &&& 0xC0 = 0xC0 → UInt8.ofNat k ≠ 0 ∧ UInt8.ofNat k &&& 0xC0 ≠ 0) := by
    decide +kernel
  have h := hall ⟨n.toNat, n.toNat_lt⟩
  rw [UInt8.ofNat_toNat] at h
  exact h

theorem readStep_inl {msg : Bytes} {s s' : Walk (List Bytes)} (h : readStep msg s = .inl s') :
    Pass msg (fun labels off n => labels ++ [slice msg (off + 1) (off + 1 + n.toNat)]) s s' := by
  unfold readStep at h
  split at h
  · cases h
  · rename_i n hn
    split at h
    · cases h
    · rename_i hzero
      split at h
      · rename_i htype
        split at h
        · cases h
        · rename_i low hlow
          split at h
          · cases h
          · rename_i hptr
            cases h
            exact .pointer hn hlow htype (Nat.lt_of_not_le hptr)
      · split at h
        · cases h
        · rename_i hshort
          split at h
          · cases h
          · rename_i hend
            cases h
            exact .label hn ((label_type n).1.mpr hshort) hzero (Nat.le_of_not_lt hend)

/-- How a pass ends: the name is over, or it is malformed. -/
inductive Halt (msg : Bytes) (s : Walk (List Bytes)) : Option (List Bytes × Nat) → Prop
  | zero : msg[s.off]? = some 0 → Halt msg s (some (s.out, s.endAt.getD (s.off + 1)))
  | past : msg[s.off]? = none → Halt msg s none
  | cut {n : UInt8} : msg[s.off]? = some n → n &&& 0xC0 = 0xC0 → msg[s.off + 1]? = none → Halt msg s none
  | forward {n low : UInt8} : msg[s.off]? = some n → n &&& 0xC0 = 0xC0 → msg[s.off + 1]? = some low →
      pointer n low ≥ s.start → Halt msg s none
  | other {n : UInt8} : msg[s.off]? = some n → n &&& 0xC0 ≠ 0xC0 → n &&& 0xC0 ≠ 0 → Halt msg s none
  | long {n : UInt8} : msg[s.off]? = some n → n &&& 0xC0 = 0 → n ≠ 0 → s.off + 1 + n.toNat > msg.length →
      Halt msg s none

theorem readStep_inr {msg : Bytes} {s : Walk (List Bytes)} {r : Option (List Bytes × Nat)}
    (h : readStep msg s = .inr r) : Halt msg s r := by
  unfold readStep at h
  split at h
  · rename_i hn
    cases h
    exact .past hn
  · rename_i n hn
    split at h
    · rename_i hzero
      cases h
      exact .zero (hzero ▸ hn)
    · rename_i hzero
      split at h
      · rename_i htype
        split at h
        · rename_i hlow
          cases h
          exact .cut hn htype hlow
        · rename_i low hlow
          split at h
          · rename_i hptr
            cases h
            exact .forward hn htype hlow hptr
          · cases h
      · rename_i htype
        split at h
        · rename_i hlong
          cases h
          exact .other hn htype fun hbits => (label_type n).1.mp hbits hlong
        · rename_i hshort
          split at h
          · rename_i hend
            cases h
            exact .long hn ((label_type n).1.mpr hshort) hzero hend
          · cases h

/-- The loop of `readName`. -/
def readLoop (msg : Bytes) : Loop (Walk (List Bytes)) (Option (List Bytes × Nat)) where
  step := readStep msg
  measure := Walk.measure msg
  decreases _ _ h := (readStep_inl h).measure_lt

def readName (msg : Bytes) (pos : Nat) : Option (List Bytes × Nat) := (readLoop msg).exec (.fresh [] pos)

/-! ## One pass of each -/

def lowered : Option (List Bytes × Nat) → Except Stop (List Bytes × Nat)
  | none => .error .reject
  | some (labels, next) => .ok (labels.map lower, next)

theorem nameStep_eq (pkt : Bytes) (s : Walk (List Bytes)) :
    nameStep pkt s = (readStep pkt s).map id lowered := by
  unfold nameStep readStep
  cases hget : pkt[s.off]? with
  | none =>
    rw [if_pos (List.getElem?_eq_none_iff.mp hget)]
    rfl
  | some n =>
    have hlt : ¬s.off ≥ pkt.length := by
      rw [ge_iff_le, ← List.getElem?_eq_none_iff, hget]
      simp
    rw [if_neg hlt]
    dsimp only
    by_cases htype : n &&& 0xC0 = 0xC0
    · rw [if_pos htype, if_neg ((label_type n).2 htype).1, if_pos htype]
      cases hlow : pkt[s.off + 1]? with
      | none =>
        rw [if_pos (List.getElem?_eq_none_iff.mp hlow)]
        rfl
      | some low =>
        have hlt' : ¬s.off + 1 ≥ pkt.length := by
          rw [ge_iff_le, ← List.getElem?_eq_none_iff, hlow]
          simp
        rw [if_neg hlt']
        dsimp only
        by_cases hptr : pointer n low ≥ s.start
        · rw [if_pos hptr, if_pos hptr]
          rfl
        · rw [if_neg hptr, if_neg hptr]
          rfl
    · rw [if_neg htype, if_neg htype]
      by_cases hbits : n &&& 0xC0 = 0
      · rw [if_neg (not_not.mpr hbits), if_neg ((label_type n).1.mp hbits)]
        by_cases hzero : n = 0
        · rw [if_pos hzero, if_pos hzero]
          rfl
        · rw [if_neg hzero, if_neg hzero]
          by_cases hend : s.off + 1 + n.toNat > pkt.length
          · rw [if_pos hend, if_pos hend]
            rfl
          · rw [if_neg hend, if_neg hend]
            rfl
      · have hlong : n > 63 := by
          by_contra h
          exact hbits ((label_type n).1.mpr h)
        have hzero : n ≠ 0 := by
          rintro rfl
          exact hbits rfl
        rw [if_pos hbits, if_neg hzero, if_pos hlong]
        rfl

def wireLabel (label : Bytes) : Bytes := label.length.toUInt8 :: label

/-- `wireName`: the labels with their lengths, and a zero byte. -/
def wireName (labels : List Bytes) : Bytes := labels.flatMap wireLabel ++ [0]

/-- The reader of bytes that has what the reader of labels has. -/
def Walk.wired (s : Walk (List Bytes)) : Walk Bytes := { s with out := s.out.flatMap wireLabel }

theorem Walk.wired_eq (s : Walk (List Bytes)) : s.wired = ⟨s.out.flatMap wireLabel, s.endAt, s.start, s.off⟩ := rfl

/-- A name in wire form, where it ends by the limit. -/
def limited (limit : Nat) : Option (List Bytes × Nat) → Except Stop (Bytes × Nat)
  | none => .error .reject
  | some (labels, next) => if next > limit then .error .reject else .ok (wireName labels, next)

theorem read_next {msg : Bytes} {s : Walk (List Bytes)} {k : Nat} (hend : ∀ e ∈ s.endAt, k < e)
    (hoff : s.endAt = none → k ≤ s.off) {labels : List Bytes} {next : Nat}
    (h : (readLoop msg).exec s = some (labels, next)) : k < next := by
  have hall : ∀ labels next, (readLoop msg).exec s = some (labels, next) → k < next := by
    refine Loop.exec_of_invariant (fun u : Walk (List Bytes) => (∀ e ∈ u.endAt, k < e) ∧ (u.endAt = none → k ≤ u.off))
      (fun r => ∀ labels next, r = some (labels, next) → k < next) ?_ ?_ ⟨hend, hoff⟩
    · rintro u u' ⟨hend, hoff⟩ hstep
      cases readStep_inl hstep with
      | pointer hget hlow htype hptr =>
        refine ⟨fun e he => ?_, nofun⟩
        cases he
        cases hu : u.endAt with
        | none =>
          have := hoff hu
          simp only [Option.getD_none]
          omega
        | some e => exact hend e hu
      | label hget hbits hzero hle =>
        refine ⟨hend, fun hnone => ?_⟩
        have := hoff hnone
        dsimp only
        omega
    · rintro u r ⟨hend, hoff⟩ hstep labels next rfl
      have hnext : next = u.endAt.getD (u.off + 1) := by
        cases readStep_inr hstep
        rfl
      rw [hnext]
      cases hu : u.endAt with
      | none =>
        have := hoff hu
        simp only [Option.getD_none]
        omega
      | some e => exact hend e hu
  exact hall labels next h

theorem slice_label {pkt : Bytes} {off : Nat} {n : UInt8} (hget : pkt[off]? = some n)
    (hle : off + 1 + n.toNat ≤ pkt.length) :
    slice pkt off (off + 1 + n.toNat) = wireLabel (slice pkt (off + 1) (off + 1 + n.toNat)) ∧
      (slice pkt (off + 1) (off + 1 + n.toNat)).length = n.toNat := by
  have hlength : (slice pkt (off + 1) (off + 1 + n.toNat)).length = n.toNat := by
    rw [slice, List.length_drop, List.length_take]
    omega
  refine ⟨?_, hlength⟩
  obtain ⟨hlt, hget⟩ := List.getElem?_eq_some_iff.mp hget
  have htake : off < (pkt.take (off + 1 + n.toNat)).length := by
    rw [List.length_take]
    omega
  rw [wireLabel, hlength, slice, List.drop_eq_getElem_cons htake, List.getElem_take, hget]
  rw [show n.toNat.toUInt8 = n from UInt8.ofNat_toNat]
  rfl

theorem lt_of_get {pkt : Bytes} {off : Nat} {n : UInt8} (h : pkt[off]? = some n) : ¬off ≥ pkt.length := by
  rw [ge_iff_le, ← List.getElem?_eq_none_iff, h]
  simp

theorem expandStep_eq (pkt : Bytes) (limit : Nat) (s : Walk (List Bytes)) :
    expandStep pkt limit s.wired = (readStep pkt s).map Walk.wired (limited limit) ∨
      expandStep pkt limit s.wired = .inr (.error .reject) ∧
        ∀ labels next, (readLoop pkt).exec s = some (labels, next) → limit < next := by
  by_cases hearly : s.endAt = none ∧ s.off ≥ limit
  · refine .inr ⟨if_pos (.inr hearly), fun _ _ h => read_next (fun e he => ?_) (fun _ => hearly.2) h⟩
    rw [hearly.1] at he
    cases he
  cases hstep : readStep pkt s with
  | inl s' =>
    have hexec : (readLoop pkt).exec s = (readLoop pkt).exec s' := Loop.exec_inl hstep
    cases readStep_inl hstep with
    | @pointer n low hget hlow htype hptr =>
      by_cases hlate : s.endAt = none ∧ s.off + 1 ≥ limit
      · refine .inr ⟨?_, fun _ _ h => ?_⟩
        · rw [Walk.wired_eq, expandStep]
          dsimp only
          rw [if_neg (not_or.mpr ⟨lt_of_get hget, hearly⟩), hget]
          dsimp only
          rw [if_pos htype, if_pos (.inr hlate)]
        · refine read_next (fun e he => ?_) (fun hnone => by cases hnone) (hexec ▸ h)
          cases he
          rw [hlate.1, Option.getD_none]
          omega
      · left
        rw [Walk.wired_eq, expandStep]
        dsimp only
        rw [if_neg (not_or.mpr ⟨lt_of_get hget, hearly⟩), hget]
        dsimp only
        rw [if_pos htype, if_neg (not_or.mpr ⟨lt_of_get hlow, hlate⟩), hlow]
        dsimp only
        rw [if_neg (Nat.not_le.mpr hptr)]
        rfl
    | @label n hget hbits hzero hle =>
      have htype : ¬n &&& 0xC0 = 0xC0 := fun htype => ((label_type n).2 htype).2 hbits
      by_cases hlate : s.endAt = none ∧ s.off + 1 + n.toNat > limit
      · refine .inr ⟨?_, fun _ _ h => ?_⟩
        · rw [Walk.wired_eq, expandStep]
          dsimp only
          rw [if_neg (not_or.mpr ⟨lt_of_get hget, hearly⟩), hget]
          dsimp only
          rw [if_neg htype, if_neg (not_not.mpr hbits), if_neg hzero, if_pos (.inr hlate)]
        · refine read_next (fun e he => ?_) (fun _ => Nat.le_of_lt hlate.2) (hexec ▸ h)
          change e ∈ s.endAt at he
          rw [hlate.1] at he
          cases he
      · left
        rw [Walk.wired_eq, expandStep]
        dsimp only
        rw [if_neg (not_or.mpr ⟨lt_of_get hget, hearly⟩), hget]
        dsimp only
        rw [if_neg htype, if_neg (not_not.mpr hbits), if_neg hzero,
          if_neg (not_or.mpr ⟨Nat.not_lt.mpr hle, hlate⟩)]
        simp only [Walk.wired, Sum.map_inl, List.flatMap_append, List.flatMap_singleton, (slice_label hget hle).1]
  | inr r =>
    left
    rw [Walk.wired_eq, expandStep]
    dsimp only
    cases readStep_inr hstep with
    | zero hget =>
      rw [if_neg (not_or.mpr ⟨lt_of_get hget, hearly⟩), hget]
      dsimp only
      rw [if_neg (by decide), if_neg (by decide), if_pos rfl, Sum.map_inr, limited]
      split <;> rfl
    | past hget =>
      rw [if_pos (.inl (List.getElem?_eq_none_iff.mp hget))]
      rfl
    | @cut n hget htype hlow =>
      rw [if_neg (not_or.mpr ⟨lt_of_get hget, hearly⟩), hget]
      dsimp only
      rw [if_pos htype, if_pos (.inl (List.getElem?_eq_none_iff.mp hlow))]
      rfl
    | @forward n low hget htype hlow hptr =>
      rw [if_neg (not_or.mpr ⟨lt_of_get hget, hearly⟩), hget, hlow]
      dsimp only
      rw [if_pos htype, if_pos hptr]
      split <;> rfl
    | @other n hget htype hbits =>
      rw [if_neg (not_or.mpr ⟨lt_of_get hget, hearly⟩), hget]
      dsimp only
      rw [if_neg htype, if_pos hbits]
      rfl
    | @long n hget hbits hzero hend =>
      have htype : ¬n &&& 0xC0 = 0xC0 := fun htype => ((label_type n).2 htype).2 hbits
      rw [if_neg (not_or.mpr ⟨lt_of_get hget, hearly⟩), hget]
      dsimp only
      rw [if_neg htype, if_neg (not_not.mpr hbits), if_neg hzero, if_pos (.inl hend)]
      rfl

/-! ## The whole loops -/

theorem name_eq (pkt : Bytes) (off : Nat) : name pkt off = lowered (readName pkt off) := by
  refine Loop.exec_of_related Eq (fun r r' => r = lowered r') ?_ rfl
  rintro s _ rfl
  have hstep := nameStep_eq pkt s
  cases hread : readStep pkt s with
  | inl s' =>
    rw [hread] at hstep
    exact .inl ⟨s', s', hstep, hread, rfl⟩
  | inr r =>
    rw [hread] at hstep
    right
    rw [Loop.exec_inr (L := nameLoop pkt) hstep, Loop.exec_inr (L := readLoop pkt) hread]

theorem expand_eq (pkt : Bytes) (off limit : Nat) : expand pkt off limit = limited limit (readName pkt off) := by
  refine Loop.exec_of_related (fun t s => t = Walk.wired s) (fun r r' => r = limited limit r') ?_ rfl
  rintro _ s rfl
  rcases expandStep_eq pkt limit s with hstep | ⟨hstep, hpast⟩
  · cases hread : readStep pkt s with
    | inl s' =>
      rw [hread] at hstep
      exact .inl ⟨s'.wired, s', hstep, hread, rfl⟩
    | inr r =>
      rw [hread] at hstep
      right
      rw [Loop.exec_inr (L := expandLoop pkt limit) hstep, Loop.exec_inr (L := readLoop pkt) hread]
  · right
    rw [Loop.exec_inr (L := expandLoop pkt limit) hstep]
    cases hexec : (readLoop pkt).exec s with
    | none => rfl
    | some r => exact (if_pos (hpast r.1 r.2 hexec)).symm

theorem readName_spec {msg : Bytes} {pos : Nat} {labels : List Bytes} {next : Nat}
    (h : readName msg pos = some (labels, next)) :
    (∀ label ∈ labels, 1 ≤ label.length ∧ label.length ≤ 63) ∧ pos < next ∧ next ≤ msg.length := by
  refine ⟨?_, read_next (fun e he => by cases he) (fun _ => Nat.le_refl _) h, ?_⟩
  · refine Loop.exec_of_invariant
      (fun s : Walk (List Bytes) => ∀ label ∈ s.out, 1 ≤ label.length ∧ label.length ≤ 63)
      (fun r => ∀ labels next, r = some (labels, next) → ∀ label ∈ labels, 1 ≤ label.length ∧ label.length ≤ 63)
      ?_ ?_ (fun label hmem => by cases hmem) labels next h
    · intro s s' hlengths hstep
      cases readStep_inl hstep with
      | pointer _ _ _ _ => exact hlengths
      | @label n hget hbits hzero hle =>
        intro label hmem
        rcases List.mem_append.mp hmem with hmem | hmem
        · exact hlengths label hmem
        · rw [List.mem_singleton.mp hmem, (slice_label hget hle).2]
          have hshort := (label_type n).1.mp hbits
          have hpos : n.toNat ≠ 0 := fun h0 => hzero (UInt8.toNat_inj.mp h0)
          have hle63 : n.toNat ≤ 63 := UInt8.le_iff_toNat_le.mp (UInt8.not_lt.mp hshort)
          omega
    · rintro s r hlengths hstep labels next rfl
      cases readStep_inr hstep
      exact hlengths
  · refine Loop.exec_of_invariant (fun s : Walk (List Bytes) => ∀ e ∈ s.endAt, e ≤ msg.length)
      (fun r => ∀ labels next, r = some (labels, next) → next ≤ msg.length) ?_ ?_
      (fun e he => by cases he) labels next h
    · intro s s' hend hstep
      cases readStep_inl hstep with
      | pointer _ hlow _ _ =>
        intro e he
        cases he
        have hlt := lt_of_get hlow
        cases hs : s.endAt with
        | none =>
          rw [Option.getD_none]
          omega
        | some e => exact hend e hs
      | label _ _ _ _ => exact hend
    · rintro s r hend hstep labels next rfl
      cases readStep_inr hstep with
      | zero hget =>
        have hlt := lt_of_get hget
        cases hs : s.endAt with
        | none =>
          rw [Option.getD_none]
          omega
        | some e => exact hend e hs

/-- Both readers end in bounded steps, never read outside the packet, and agree on every
name: the labels of one are those of the other in lower case, and the next offset is the
same. -/
theorem names_agree (pkt : Bytes) (off : Nat) : (∀ n, (off + 1) * (pkt.length + 1) ≤ n →
      (nameLoop pkt).run n (.fresh [] off) = some (name pkt off) ∧
      ∀ limit, (expandLoop pkt limit).run n (.fresh [] off) = some (expand pkt off limit)) ∧
    name pkt off ≠ .error .outside ∧
    (∀ limit, expand pkt off limit ≠ .error .outside) ∧
    (∀ labels next, name pkt off = .ok (labels, next) →
      ∃ raw : List Bytes, raw.map lower = labels ∧ (∀ label ∈ raw, 1 ≤ label.length ∧ label.length ≤ 63) ∧
        expand pkt off pkt.length = .ok (wireName raw, next)) ∧
    (∀ wire next, expand pkt off pkt.length = .ok (wire, next) →
      ∃ raw : List Bytes, wireName raw = wire ∧ (∀ label ∈ raw, 1 ≤ label.length ∧ label.length ≤ 63) ∧
        name pkt off = .ok (raw.map lower, next)) := by
  refine ⟨fun n hn => ?_, ?_, fun limit => ?_, fun labels next h => ?_, fun wire next h => ?_⟩
  · have hmeasure : off * (pkt.length + 1) + (pkt.length - off) < n := by
      rw [Nat.add_mul] at hn
      omega
    exact ⟨Loop.run_eq hmeasure, fun limit => Loop.run_eq hmeasure⟩
  · rw [name_eq]
    cases readName pkt off with
    | none => simp [lowered]
    | some r => simp [lowered]
  · rw [expand_eq]
    cases readName pkt off with
    | none => simp [limited]
    | some r =>
      rw [limited]
      split <;> simp
  · rw [name_eq] at h
    cases hread : readName pkt off with
    | none =>
      rw [hread] at h
      cases h
    | some r =>
      obtain ⟨hlengths, -, hnext⟩ := readName_spec hread
      rw [hread] at h
      cases h
      refine ⟨r.1, rfl, hlengths, ?_⟩
      rw [expand_eq, hread]
      exact if_neg (Nat.not_lt.mpr hnext)
  · rw [expand_eq] at h
    cases hread : readName pkt off with
    | none =>
      rw [hread] at h
      cases h
    | some r =>
      obtain ⟨hlengths, -, hnext⟩ := readName_spec hread
      rw [hread, limited, if_neg (Nat.not_lt.mpr hnext)] at h
      cases h
      refine ⟨r.1, rfl, hlengths, ?_⟩
      rw [name_eq, hread]
      rfl

end Dsip.Pkarr
