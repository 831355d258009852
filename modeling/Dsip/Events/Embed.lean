import Dsip.Events.BerWrite
import Dsip.Events.Messages

/-!
# Elements inside other bytes

An element, what fills it and a varbind read the same wherever their bytes stand
(`tlv_shift`, `fills_shift`, `isVarBind_shift`), so that a part of a message that
is copied as it is says in the copy what it said. Parts that are written one after
the other are read one after the other (`fills_laid`).
-/

namespace Dsip.Events

open Dsip.Lib

/-- The bytes `s` stand at a position. -/
def StandsAt (b : Bytes) (pos : Nat) (s : Bytes) : Prop :=
  ∃ pre post, b = pre ++ (s ++ post) ∧ pre.length = pos

namespace StandsAt

variable {b s s' : Bytes} {pos p start stop : Nat}

theorem whole (b : Bytes) : StandsAt b 0 b := ⟨[], [], by simp, rfl⟩

theorem length_le (h : StandsAt b pos s) : pos + s.length ≤ b.length := by
  obtain ⟨pre, post, rfl, rfl⟩ := h
  simp only [List.length_append]
  omega

theorem left (h : StandsAt b pos (s ++ s')) : StandsAt b pos s := by
  obtain ⟨pre, post, rfl, rfl⟩ := h
  exact ⟨pre, s' ++ post, by simp, rfl⟩

theorem right (h : StandsAt b pos (s ++ s')) : StandsAt b (pos + s.length) s' := by
  obtain ⟨pre, post, rfl, rfl⟩ := h
  exact ⟨pre ++ s, post, by simp, by simp⟩

theorem getElem? (h : StandsAt b pos s) (hp : p < s.length) : b[pos + p]? = s[p]? := by
  obtain ⟨pre, post, rfl, rfl⟩ := h
  rw [List.getElem?_append_right (Nat.le_add_right _ _), Nat.add_sub_cancel_left,
    List.getElem?_append_left hp]

theorem slice_eq (h : StandsAt b pos s) (hstop : stop ≤ s.length) :
    slice b (pos + start) (pos + stop) = slice s start stop := by
  obtain ⟨pre, post, rfl, rfl⟩ := h
  have hsub : pre.length + stop - (pre.length + start) = stop - start := by omega
  unfold slice
  rw [hsub, ← List.drop_drop, List.drop_left]
  by_cases hle : start ≤ s.length
  case pos =>
    rw [List.drop_append_of_le_length hle, List.take_append_of_le_length]
    rw [List.length_drop]
    omega
  case neg =>
    have hzero : stop - start = 0 := by omega
    rw [hzero, List.take_zero, List.take_zero]

theorem slice_self (h : StandsAt b pos s) : slice b pos (pos + s.length) = s := by
  obtain ⟨pre, post, rfl, rfl⟩ := h
  exact slice_append pre s post

theorem body {tag : UInt8} {c : Bytes} (h : StandsAt b pos (writeTlv tag c)) :
    StandsAt b (pos + (1 + (writeLen c.length).length)) c := by
  have hhead : StandsAt b pos ((tag :: writeLen c.length) ++ c) := h
  have hlength : (tag :: writeLen c.length).length = 1 + (writeLen c.length).length := by
    rw [List.length_cons, Nat.add_comm]
  rw [← hlength]
  exact hhead.right

end StandsAt

theorem standsAt_slice {b : Bytes} {start stop : Nat} (hle : start ≤ stop) (hstop : stop ≤ b.length) :
    StandsAt b start (slice b start stop) ∧ (slice b start stop).length = stop - start := by
  have hlength : (slice b start stop).length = stop - start := by
    unfold slice
    rw [List.length_take, List.length_drop]
    omega
  refine ⟨⟨b.take start, b.drop stop, ?_, ?_⟩, hlength⟩
  · have hdrop : b.drop stop = (b.drop start).drop (stop - start) := by
      rw [List.drop_drop, Nat.add_sub_cancel' hle]
    unfold slice
    rw [hdrop, List.take_append_drop, List.take_append_drop]
  · rw [List.length_take]
    omega

/-! ## Elements -/

/-- An element as it is read so many bytes further on. -/
def Tlv.shift (n : Nat) (t : Tlv) : Tlv := ⟨t.tag, n + t.start, n + t.stop⟩

@[simp] theorem Tlv.shift_tag (n : Nat) (t : Tlv) : (t.shift n).tag = t.tag := rfl

@[simp] theorem Tlv.shift_stop (n : Nat) (t : Tlv) : (t.shift n).stop = n + t.stop := rfl

section Shift

variable {b s : Bytes} {n p stop stop' : Nat} {t : Tlv} {v : Int}

theorem tlv_cases (h : tlv b p stop = some t) :
    ∃ first, p + 2 ≤ stop ∧ b[p]? = some t.tag ∧ t.tag &&& 0x1F ≠ 0x1F ∧ b[p + 1]? = some first ∧
      (first < 0x80 ∧ t.start = p + 2 ∧ t.stop = p + 2 + first.toNat ∧ t.stop ≤ stop ∨
        ¬ first < 0x80 ∧ ∃ k n, (first &&& 0x7F).toNat = k ∧ 0 < k ∧ k ≤ 4 ∧
          beNat (slice b (p + 2) (p + 2 + k)) = n ∧ t.start = p + 2 + k ∧ t.stop = p + 2 + k + n ∧
            t.stop ≤ stop) := by
  unfold tlv at h
  simp only [some_bind, Option.guard_eq_some', exists_const] at h
  obtain ⟨hroom, tag, htag, hmulti, first, hfirst, h⟩ := h
  split at h
  case isTrue hshort =>
    simp only [some_bind, Option.guard_eq_some', exists_const, Option.pure_def, Option.some.injEq] at h
    obtain ⟨hle, rfl⟩ := h
    exact ⟨first, hroom, htag, hmulti, hfirst, .inl ⟨hshort, rfl, rfl, hle⟩⟩
  case isFalse hlong =>
    simp only [some_bind, Option.guard_eq_some', exists_const, Option.pure_def, Option.some.injEq] at h
    obtain ⟨⟨hne, hfour, -⟩, hle, rfl⟩ := h
    exact ⟨first, hroom, htag, hmulti, hfirst,
      .inr ⟨hlong, _, _, rfl, Nat.pos_of_ne_zero hne, hfour, rfl, rfl, rfl, hle⟩⟩

theorem tlv_shift (hat : StandsAt b n s) (hstop : stop ≤ s.length) (h : tlv s p stop = some t)
    (hle : n + t.stop ≤ stop') : tlv b (n + p) stop' = some (t.shift n) := by
  obtain ⟨tag, start, last⟩ := t
  obtain ⟨first, hroom, htag, hmulti, hfirst, hform⟩ := tlv_cases h
  rw [← hat.getElem? (by omega)] at htag hfirst
  rw [← Nat.add_assoc] at hfirst
  dsimp only at hform hle
  rcases hform with ⟨hshort, rfl, rfl, hend⟩ | ⟨hlong, k, m, hk, hpos, hfour, hm, rfl, rfl, hend⟩
  · have hread : tlv b (n + p) stop' = _ := tlv_of_short htag hmulti hfirst hshort (by omega)
    rw [hread]
    simp [Tlv.shift, Nat.add_assoc]
  · have hcount : beNat (slice b (n + p + 2) (n + p + 2 + k)) = m := by
      have hslice : slice b (n + (p + 2)) (n + (p + 2 + k)) = _ := hat.slice_eq (by omega)
      simp only [← Nat.add_assoc] at hslice
      rw [hslice, hm]
    have hread : tlv b (n + p) stop' = _ :=
      tlv_of_long htag hmulti hfirst hlong hk hpos hfour hcount (by omega)
    rw [hread]
    simp [Tlv.shift, Nat.add_assoc]

theorem exists_tlv_shift (hat : StandsAt b n s) (hstop : stop ≤ s.length)
    (h : tlv b (n + p) stop' = some t) (hle : t.stop ≤ n + stop) :
    ∃ t', tlv s p stop = some t' ∧ t = t'.shift n := by
  obtain ⟨tag, start, last⟩ := t
  obtain ⟨first, hroom, htag, hmulti, hfirst, hform⟩ := tlv_cases h
  dsimp only at hform hle
  have hbound : p + 2 ≤ stop := by omega
  rw [Nat.add_assoc, hat.getElem? (by omega)] at hfirst
  rw [hat.getElem? (by omega)] at htag
  rcases hform with ⟨hshort, rfl, rfl, hend⟩ | ⟨hlong, k, m, hk, hpos, hfour, hm, rfl, rfl, hend⟩
  · refine ⟨_, tlv_of_short htag hmulti hfirst hshort (by omega), ?_⟩
    simp [Tlv.shift, Nat.add_assoc]
  · have hcount : beNat (slice s (p + 2) (p + 2 + k)) = m := by
      have hslice : slice b (n + (p + 2)) (n + (p + 2 + k)) = _ := hat.slice_eq (by omega)
      simp only [← Nat.add_assoc] at hslice
      rw [← hslice, hm]
    refine ⟨_, tlv_of_long htag hmulti hfirst hlong hk hpos hfour hcount (by omega), ?_⟩
    simp [Tlv.shift, Nat.add_assoc]

theorem content_shift (hat : StandsAt b n s) (hstop : t.stop ≤ s.length) :
    (t.shift n).content b = t.content s :=
  hat.slice_eq hstop

theorem fills_shift (hat : StandsAt b n s) (hstop : stop ≤ s.length) {l : List Tlv} :
    Fills s stop p l → Fills b (n + stop) (n + p) (l.map (Tlv.shift n)) := by
  induction l generalizing p with
  | nil => exact fun h => Nat.add_le_add_left h n
  | cons t l ih =>
    intro h
    have hbounds := tlv_bounds h.1
    exact ⟨tlv_shift hat hstop h.1 (by omega), ih h.2⟩

theorem exists_fills_shift (hat : StandsAt b n s) (hstop : stop ≤ s.length) {l : List Tlv}
    (h : Fills b (n + stop) (n + p) l) : ∃ l', Fills s stop p l' ∧ l = l'.map (Tlv.shift n) := by
  induction l generalizing p with
  | nil => exact ⟨[], Nat.le_of_add_le_add_left h, rfl⟩
  | cons t l ih =>
    have hbounds := tlv_bounds h.1
    obtain ⟨t', ht', rfl⟩ := exists_tlv_shift hat hstop h.1 hbounds.2.2
    obtain ⟨l', hl', rfl⟩ := ih h.2
    exact ⟨t' :: l', ⟨ht', hl'⟩, rfl⟩

theorem isInt_shift (hat : StandsAt b n s) (hstop : t.stop ≤ s.length) :
    IsInt b (t.shift n) v ↔ IsInt s t v := by
  unfold IsInt
  rw [content_shift hat hstop, Tlv.shift_tag]

theorem isVarBind_shift (hat : StandsAt b n s) (hstop : t.stop ≤ s.length) {vb : VarBind} :
    IsVarBind b (t.shift n) vb ↔ IsVarBind s t vb := by
  have hcontent {l : List Tlv} (hl : Fills s t.stop t.start l) :
      ∀ t' ∈ l, (t'.shift n).content b = t'.content s := by
    intro t' ht'
    exact content_shift hat (hl.within hstop t' ht').2
  constructor
  · rintro ⟨tag, fills, isName, oid_eq, value_eq⟩
    obtain ⟨l, hl, heq⟩ := exists_fills_shift hat hstop fills
    obtain ⟨name, l, rfl, rfl, htail⟩ := List.map_eq_cons_iff.mp heq.symm
    obtain ⟨value, l, rfl, rfl, hnil⟩ := List.map_eq_cons_iff.mp htail
    obtain rfl := List.map_eq_nil_iff.mp hnil
    have hin := hcontent hl
    rw [hin name (by simp)] at oid_eq
    rw [hin value (by simp)] at value_eq
    exact ⟨tag, hl, isName, oid_eq, value_eq⟩
  · rintro ⟨tag, fills, isName, oid_eq, value_eq⟩
    rename_i name value oid v
    have hin := hcontent fills
    rw [← hin name (by simp)] at oid_eq
    rw [← hin value (by simp)] at value_eq
    exact ⟨tag, fills_shift hat hstop fills, isName, oid_eq, value_eq⟩

theorem forall₂_varBind_shift (hat : StandsAt b n s) {ts : List Tlv} (hin : ∀ t ∈ ts, t.stop ≤ s.length)
    {vbs : List VarBind} :
    List.Forall₂ (IsVarBind b) (ts.map (Tlv.shift n)) vbs ↔ List.Forall₂ (IsVarBind s) ts vbs := by
  rw [List.forall₂_map_left_iff]
  induction ts generalizing vbs with
  | nil => simp
  | cons t ts ih =>
    rw [List.forall₂_cons_left_iff, List.forall₂_cons_left_iff]
    have hrest {vbs : List VarBind} :
        List.Forall₂ (fun t vb => IsVarBind b (t.shift n) vb) ts vbs ↔ List.Forall₂ (IsVarBind s) ts vbs :=
      ih fun t ht => hin t (List.mem_cons_of_mem _ ht)
    simp only [isVarBind_shift hat (hin t List.mem_cons_self), hrest]

/-- A VarBindList with these varbinds. -/
def IsVarBindList (b : Bytes) (t : Tlv) (vbs : List VarBind) : Prop :=
  t.tag = 0x30 ∧ ∃ ts, Fills b t.stop t.start ts ∧ List.Forall₂ (IsVarBind b) ts vbs

theorem isVarBindList_shift (hat : StandsAt b n s) (hstop : t.stop ≤ s.length) {vbs : List VarBind} :
    IsVarBindList b (t.shift n) vbs ↔ IsVarBindList s t vbs := by
  have hin {ts : List Tlv} (hts : Fills s t.stop t.start ts) : ∀ t ∈ ts, t.stop ≤ s.length :=
    fun t' ht' => (hts.within hstop t' ht').2
  refine and_congr_right fun _ => ?_
  constructor
  · rintro ⟨ts, hts, hall⟩
    obtain ⟨ts, hts', rfl⟩ := exists_fills_shift hat hstop hts
    exact ⟨ts, hts', (forall₂_varBind_shift hat (hin hts')).mp hall⟩
  · rintro ⟨ts, hts, hall⟩
    exact ⟨_, fills_shift hat hstop hts, (forall₂_varBind_shift hat (hin hts)).mpr hall⟩

end Shift

/-! ## Parts -/

theorem length_writeTlv (tag : UInt8) (body : Bytes) :
    (writeTlv tag body).length = 1 + (writeLen body.length).length + body.length := by
  unfold writeTlv
  simp
  omega

theorem length_writeLen_le {n : Nat} (hn : n < 2 ^ 32) : (writeLen n).length ≤ 5 := by
  have hfour := byteLength_le_four hn
  unfold writeLen
  split
  · simp
  · simp
    omega

theorem length_writeTlv_le {tag : UInt8} {body : Bytes} (hbody : body.length < 2 ^ 32) :
    (writeTlv tag body).length ≤ body.length + 6 := by
  have hlen := length_writeLen_le hbody
  rw [length_writeTlv]
  omega

/-- Bytes that are one element, written by the gateway or copied. -/
structure Part where
  bytes : Bytes
  tlv : Tlv
  isOne : Events.tlv bytes 0 bytes.length = some tlv
  whole : tlv.stop = bytes.length

namespace Part

/-- An element that is written. -/
def written (tag : UInt8) (body : Bytes) (htag : tag &&& 0x1F ≠ 0x1F) (hbody : body.length < 2 ^ 32) :
    Part where
  bytes := writeTlv tag body
  tlv := ⟨tag, 1 + (writeLen body.length).length, (writeTlv tag body).length⟩
  isOne := by simpa using @tlv_writeTlv tag body [] [] htag hbody (writeTlv tag body).length (by simp)
  whole := rfl

/-- The elements of parts that stand one after the other. -/
def laid (pos : Nat) : List Part → List Tlv
  | [] => []
  | part :: rest => part.tlv.shift pos :: laid (pos + part.bytes.length) rest

variable {b : Bytes} {pos stop : Nat} {part : Part} {parts : List Part}

theorem fills_laid (hat : StandsAt b pos (parts.flatMap Part.bytes))
    (hstop : stop = pos + (parts.flatMap Part.bytes).length) : Fills b stop pos (laid pos parts) := by
  induction parts generalizing pos with
  | nil => exact hstop.le
  | cons part rest ih =>
    rw [List.flatMap_cons] at hat hstop
    rw [List.length_append] at hstop
    refine ⟨tlv_shift hat.left (le_refl _) part.isOne ?_, ?_⟩
    · rw [part.whole]
      omega
    · rw [Tlv.shift_stop, part.whole]
      exact ih hat.right (by omega)

theorem content (hat : StandsAt b pos part.bytes) :
    (part.tlv.shift pos).content b = part.tlv.content part.bytes :=
  content_shift hat part.whole.le

theorem content_written {tag : UInt8} {body : Bytes} {htag : tag &&& 0x1F ≠ 0x1F}
    {hbody : body.length < 2 ^ 32} :
    (written tag body htag hbody).tlv.content (written tag body htag hbody).bytes = body := by
  simpa [written] using @content_writeTlv tag body [] []

/-- Parts that stand one after the other from a position on. -/
def Placed (b : Bytes) (pos : Nat) : List Part → Prop
  | [] => True
  | part :: rest => StandsAt b pos part.bytes ∧ Placed b (pos + part.bytes.length) rest

theorem placed_flatMap (hat : StandsAt b pos (parts.flatMap Part.bytes)) : Placed b pos parts := by
  induction parts generalizing pos with
  | nil => exact trivial
  | cons part rest ih =>
    rw [List.flatMap_cons] at hat
    exact ⟨hat.left, ih hat.right⟩

/-- An element that is written with these parts in it. -/
def group (tag : UInt8) (parts : List Part) (htag : tag &&& 0x1F ≠ 0x1F)
    (hbody : (parts.flatMap Part.bytes).length < 2 ^ 32) : Part :=
  written tag (parts.flatMap Part.bytes) htag hbody

theorem length_group_le (tag : UInt8) (parts : List Part) (htag : tag &&& 0x1F ≠ 0x1F)
    (hbody : (parts.flatMap Part.bytes).length < 2 ^ 32) :
    (group tag parts htag hbody).bytes.length ≤ (parts.flatMap Part.bytes).length + 6 :=
  length_writeTlv_le hbody

theorem fills_group {tag : UInt8} {htag : tag &&& 0x1F ≠ 0x1F}
    {hbody : (parts.flatMap Part.bytes).length < 2 ^ 32} (hpart : group tag parts htag hbody = part)
    (hat : StandsAt b pos part.bytes) :
    ∃ start stop, part.tlv.shift pos = ⟨tag, start, stop⟩ ∧ Fills b stop start (laid start parts) ∧
      Placed b start parts ∧ start = pos + (1 + (writeLen (parts.flatMap Part.bytes).length).length) ∧
        stop = pos + part.bytes.length := by
  subst hpart
  have hin : StandsAt b (pos + (1 + (writeLen (parts.flatMap Part.bytes).length).length))
      (parts.flatMap Part.bytes) := hat.body
  refine ⟨_, _, rfl, fills_laid hin ?_, placed_flatMap hin, rfl, rfl⟩
  show pos + (writeTlv tag (parts.flatMap Part.bytes)).length = _
  rw [length_writeTlv]
  unfold group written
  dsimp only
  omega

end Part

theorem exists_part {b : Bytes} {pos stop : Nat} {t : Tlv} (h : tlv b pos stop = some t)
    (hstop : stop ≤ b.length) : ∃ part : Part, part.bytes = slice b pos t.stop ∧ t = part.tlv.shift pos := by
  have hbounds := tlv_bounds h
  obtain ⟨hat, hlength⟩ : StandsAt b pos (slice b pos t.stop) ∧ (slice b pos t.stop).length = t.stop - pos :=
    standsAt_slice (by omega) (by omega)
  obtain ⟨t', ht', rfl⟩ := exists_tlv_shift (p := 0) hat (le_refl _) h (by omega)
  refine ⟨⟨_, t', ht', ?_⟩, rfl, rfl⟩
  rw [hlength, Tlv.shift_stop]
  omega

end Dsip.Events
