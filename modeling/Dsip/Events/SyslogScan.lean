import Dsip.Events.SignedBlock

/-!
# The two scanners of a block

The parser of structured data goes by a grammar, `element_end` by quotes. Both stop
at the same bytes because each piece that the parser takes leaves the scanner
outside quotes (`IsPiece`), and what a piece says does not depend on what follows.
-/

namespace Dsip.Events

open Dsip.Lib

/-! ## Names and values -/

section Pieces

variable {b rest raw v : Bytes} {n : String} {i : Nat}

theorem skip_eq_some {lead : Bytes} : skip lead b = some rest ↔ b = lead ++ rest := by
  unfold skip
  constructor
  · intro h
    split at h
    case isTrue hlead =>
      cases h
      conv_lhs => rw [← List.take_append_drop lead.length b, hlead]
    case isFalse => cases h
  · rintro rfl
    rw [List.take_left, if_pos rfl, List.drop_left]

theorem ascii_asciiText (raw : Bytes) : ascii (asciiText raw) = raw := by
  have hbyte (a : UInt8) : UInt8.ofNat (Char.ofNat a.toNat).toNat = a := by
    have hlt := a.toNat_lt
    rw [Utf8Replace.toNat_ofNat (.inl (by omega)), UInt8.ofNat_toNat]
  unfold ascii asciiText
  rw [String.toList_ofList, List.map_map]
  conv_rhs => rw [← List.map_id raw]
  exact List.map_congr_left fun a _ => hbyte a

theorem takeWhile_append {p : UInt8 → Bool} (hall : ∀ a ∈ raw, p a = true)
    (hstop : ∀ a ∈ rest.head?, p a = false) :
    (raw ++ rest).takeWhile p = raw ∧ (raw ++ rest).dropWhile p = rest := by
  rw [List.takeWhile_append_of_pos hall, List.dropWhile_append_of_pos hall]
  cases rest with
  | nil => simp
  | cons a rest =>
    have ha := hstop a rfl
    simp [ha]

theorem dropWhile_head {p : UInt8 → Bool} (b : Bytes) : ∀ a ∈ (b.dropWhile p).head?, p a = false := by
  intro a ha
  have h := List.head?_dropWhile_not p b
  rw [Option.mem_def.mp ha] at h
  simpa using h

section Scan

variable {quoted : Bool} {c d : UInt8}

@[simp] theorem scanEnd_escape : scanEnd true i (0x5C :: d :: rest) = scanEnd true (i + 2) rest := by
  rw [scanEnd.eq_def]
  simp

@[simp] theorem scanEnd_quote : scanEnd quoted i (0x22 :: rest) = scanEnd (!quoted) (i + 1) rest := by
  rw [scanEnd.eq_def]
  simp

@[simp] theorem scanEnd_close : scanEnd false i (0x5D :: rest) = some i := by
  rw [scanEnd.eq_def]
  simp

theorem scanEnd_other (hquote : c ≠ 0x22) (hescape : quoted = true → c ≠ 0x5C) (hclose : quoted = false → c ≠ 0x5D) :
    scanEnd quoted i (c :: rest) = scanEnd quoted (i + 1) rest := by
  rw [scanEnd.eq_def]
  cases quoted <;> simp_all

@[simp] theorem sdValue_quote : sdValue (0x22 :: rest) = some ([], rest) := by
  rw [sdValue.eq_def]
  cases rest <;> simp

/-- What a backslash and the byte after it are of a value. -/
def escaped (d : UInt8) : Bytes := if d = 0x22 ∨ d = 0x5C ∨ d = 0x5D then [d] else [0x5C, d]

theorem sdValue_escape :
    sdValue (0x5C :: d :: rest) = (sdValue rest).map fun (v, r) => (escaped d ++ v, r) := by
  rw [sdValue.eq_def]
  unfold escaped
  dsimp only
  rw [if_pos rfl]
  congr 1
  funext ⟨v, r⟩
  dsimp only
  split <;> rfl

theorem sdValue_plain (hescape : c ≠ 0x5C) (hquote : c ≠ 0x22) :
    sdValue (c :: rest) = (sdValue rest).map fun (v, r) => (c :: v, r) := by
  rw [sdValue.eq_def]
  cases rest with
  | nil => simp [hquote, sdValue]
  | cons d rest => simp [hescape, hquote]

end Scan

theorem scanEnd_plain (hall : ∀ a ∈ raw, a ≠ 0x22 ∧ a ≠ 0x5D) (i : Nat) (rest : Bytes) :
    scanEnd false i (raw ++ rest) = scanEnd false (i + raw.length) rest := by
  induction raw generalizing i with
  | nil => rfl
  | cons a raw ih =>
    obtain ⟨hquote, hclose⟩ := hall a List.mem_cons_self
    have hstep : scanEnd false i (a :: (raw ++ rest)) = scanEnd false (i + 1) (raw ++ rest) :=
      scanEnd_other hquote (fun h => nomatch h) fun _ => hclose
    rw [List.cons_append, hstep, ih fun x hx => hall x (List.mem_cons_of_mem _ hx), List.length_cons]
    congr 1
    omega

theorem sdName_spec (h : sdName b = some (n, rest)) :
    ∃ raw, b = raw ++ rest ∧ n = asciiText raw ∧ raw ≠ [] ∧ (∀ a ∈ rest.head?, isNameByte a = false) ∧
      (∀ rest', (∀ a ∈ rest'.head?, isNameByte a = false) → sdName (raw ++ rest') = some (n, rest')) ∧
        ∀ i rest', scanEnd false i (raw ++ rest') = scanEnd false (i + raw.length) rest' := by
  unfold sdName at h
  dsimp only at h
  split at h
  case isFalse => cases h
  case isTrue hlength =>
    cases h
    have hall : ∀ a ∈ b.takeWhile isNameByte, isNameByte a = true := List.all_eq_true.mp List.all_takeWhile
    refine ⟨b.takeWhile isNameByte, (List.takeWhile_append_dropWhile ..).symm, rfl, ?_, dropWhile_head b, ?_, ?_⟩
    · intro hnil
      rw [hnil] at hlength
      exact absurd hlength.1 (by decide)
    · intro rest' hstop
      obtain ⟨htake, hdrop⟩ := takeWhile_append hall hstop
      unfold sdName
      dsimp only
      rw [htake, hdrop, if_pos hlength]
    · refine scanEnd_plain fun a ha => ?_
      have hname := hall a ha
      unfold isNameByte at hname
      simp only [Bool.and_eq_true, Bool.not_eq_true', decide_eq_false_iff_not, not_or] at hname
      exact ⟨hname.2.2.2.2, hname.2.2.2.1⟩

/-- A value is read, and scanned, up to its quote; one with nothing that needs an
escape is the bytes themselves. -/
theorem sdValue_spec (h : sdValue b = some (v, rest)) :
    ∃ raw, b = raw ++ 0x22 :: rest ∧ (∀ rest', sdValue (raw ++ 0x22 :: rest') = some (v, rest')) ∧
      (∀ i rest', scanEnd true i (raw ++ 0x22 :: rest') = scanEnd false (i + (raw.length + 1)) rest') ∧
        ((∀ a ∈ v, a ≠ 0x22 ∧ a ≠ 0x5C ∧ a ≠ 0x5D) → raw = v) := by
  induction b using sdValue.induct generalizing v with
  | case1 => cases h
  | case2 =>
    cases h
    exact ⟨[], rfl, fun _ => sdValue_quote, fun _ _ => scanEnd_quote, fun _ => rfl⟩
  | case3 c hc =>
    rw [sdValue.eq_def] at h
    dsimp only at h
    rw [if_neg hc] at h
    cases h
  | case4 d rest₂ ih =>
    -- an escape
    rw [sdValue_escape] at h
    obtain ⟨⟨v', r⟩, hv', heq⟩ := Option.map_eq_some_iff.mp h
    cases heq
    obtain ⟨raw, rfl, hread, hscan, hplain⟩ := ih hv'
    refine ⟨0x5C :: d :: raw, rfl, fun rest' => ?_, fun i rest' => ?_, fun hall => ?_⟩
    · rw [List.cons_append, List.cons_append, sdValue_escape, hread rest']
      rfl
    · rw [List.cons_append, List.cons_append, scanEnd_escape, hscan, List.length_cons, List.length_cons]
      congr 1
      omega
    · -- of which the value keeps a byte that needs one
      exfalso
      unfold escaped at hall
      split at hall
      case isTrue hd =>
        have h := hall d (by simp)
        tauto
      case isFalse => exact (hall 0x5C (by simp)).2.1 rfl
  | case5 d rest₂ =>
    rw [sdValue_quote] at h
    cases h
    exact ⟨[], rfl, fun _ => sdValue_quote, fun _ _ => scanEnd_quote, fun _ => rfl⟩
  | case6 c d rest₂ hescape hquote ih =>
    rw [sdValue_plain hescape hquote] at h
    obtain ⟨⟨v', r⟩, hv', heq⟩ := Option.map_eq_some_iff.mp h
    cases heq
    obtain ⟨raw, hraw, hread, hscan, hplain⟩ := ih hv'
    refine ⟨c :: raw, by rw [hraw]; rfl, fun rest' => ?_, fun i rest' => ?_, fun hall => ?_⟩
    · rw [List.cons_append, sdValue_plain hescape hquote, hread rest']
      rfl
    · have hstep : scanEnd true i (c :: (raw ++ 0x22 :: rest')) = scanEnd true (i + 1) (raw ++ 0x22 :: rest') :=
        scanEnd_other hquote (fun _ => hescape) fun h => nomatch h
      rw [List.cons_append, hstep, hscan, List.length_cons]
      congr 1
      omega
    · rw [hplain fun a ha => hall a (List.mem_cons_of_mem _ ha)]

/-! ## The `SIGN` of a block -/

theorem plain_of_base64 {c : Char} (h : (base64Value c).isSome = true ∨ c = '=') :
    c.toNat < 0x80 ∧ c ≠ '"' ∧ c ≠ '\\' ∧ c ≠ ']' := by
  have hrange {lo hi : Char} (hle : lo ≤ c ∧ c ≤ hi) : lo.toNat ≤ c.toNat ∧ c.toNat ≤ hi.toNat := hle
  have hbounds : 0x41 ≤ c.toNat ∧ c.toNat ≤ 0x5A ∨ 0x61 ≤ c.toNat ∧ c.toNat ≤ 0x7A ∨
      0x2B ≤ c.toNat ∧ c.toNat ≤ 0x3D := by
    rcases h with h | rfl
    · unfold base64Value at h
      split_ifs at h with hupper hlower hdigit hplus hslash
      · exact .inl (hrange hupper)
      · exact .inr (.inl (hrange hlower))
      · have hdigit := hrange hdigit
        rw [show '0'.toNat = 0x30 from rfl, show '9'.toNat = 0x39 from rfl] at hdigit
        omega
      · exact .inr (.inr (hplus ▸ by decide))
      · exact .inr (.inr (hslash ▸ by decide))
      · cases h
    · exact .inr (.inr (by decide))
  refine ⟨by omega, ?_, ?_, ?_⟩ <;> rintro rfl <;> revert hbounds <;> decide

theorem all_base64 {s : String} (h : b64 s ≠ none) : ∀ c ∈ s.toList, (base64Value c).isSome = true ∨ c = '=' := by
  intro c hc
  unfold b64 at h
  cases hpad : padding (s.toList.takeWhile fun c => (base64Value c).isSome).length with
  | none => exact absurd (by simp [hpad]) h
  | some pad =>
    by_cases heq : s.toList = (s.toList.takeWhile fun c => (base64Value c).isSome) ++ pad
    case neg => exact absurd (by simp [hpad, guard, heq]) h
    case pos =>
      rw [heq, List.mem_append] at hc
      rcases hc with hc | hc
      · exact .inl (List.all_eq_true.mp List.all_takeWhile c hc)
      · have hequals : ∀ x ∈ pad, x = '=' := by
          unfold padding at hpad
          split at hpad <;> cases hpad <;> simp
        exact .inr (hequals c hc)

theorem plain_of_b64 (h : b64 (text v) ≠ none) :
    (∀ a ∈ v, a ≠ 0x22 ∧ a ≠ 0x5C ∧ a ≠ 0x5D) ∧ utf8Encode (text v).toList = v := by
  have hall := all_base64 h
  unfold text at hall ⊢
  rw [String.toList_ofList] at hall ⊢
  obtain ⟨heq, hascii⟩ := Utf8Replace.eq_map_of_ascii fun c hc => (plain_of_base64 (hall c hc)).1
  constructor
  · intro a ha
    have hplain := plain_of_base64 (hall (Char.ofNat a.toNat) (heq ▸ List.mem_map_of_mem ha))
    refine ⟨?_, ?_, ?_⟩ <;> rintro rfl
    · exact hplain.2.1 rfl
    · exact hplain.2.2.1 rfl
    · exact hplain.2.2.2 rfl
  · rw [heq]
    clear heq hall h
    induction v with
    | nil => rfl
    | cons a v ih =>
      have ha := hascii a List.mem_cons_self
      have hchar : String.utf8EncodeChar (Char.ofNat a.toNat) = [a] := by
        have hval : (Char.ofNat a.toNat).val.toNat = a.toNat := Utf8Replace.toNat_ofNat (.inl (by omega))
        unfold String.utf8EncodeChar
        simp only [hval]
        rw [if_pos (by omega), UInt8.ofNat_toNat]
      have ih := ih fun x hx => hascii x (List.mem_cons_of_mem _ hx)
      unfold utf8Encode at ih ⊢
      rw [List.map_cons, List.flatMap_cons, hchar, ih]
      rfl

/-! ## Parameters and elements -/

/-- The bytes of a name: what the name reader takes whatever stands after, and the
scanner passes over. -/
structure IsName (n : String) (raw : Bytes) : Prop where
  ne_nil : raw ≠ []
  read : ∀ rest, (∀ a ∈ rest.head?, isNameByte a = false) → sdName (raw ++ rest) = some (n, rest)
  scan : ∀ i rest, scanEnd false i (raw ++ rest) = scanEnd false (i + raw.length) rest

/-- The bytes of a parameter, from the space before it to the quote at its end: the
scanner is outside quotes again after them. -/
structure IsPiece (p : SdParam) (piece : Bytes) : Prop where
  head : piece.head? = some 0x20
  read : ∀ rest, sdParam (piece ++ rest) = some (p, rest)
  scan : ∀ i rest, scanEnd false i (piece ++ rest) = scanEnd false (i + piece.length) rest
  sign : p.name = "SIGN" → b64 p.value ≠ none → piece = signCut p.value

theorem sdName_eq_some (h : sdName b = some (n, rest)) :
    ∃ raw, b = raw ++ rest ∧ IsName n raw ∧ n = asciiText raw ∧ ∀ a ∈ rest.head?, isNameByte a = false := by
  obtain ⟨raw, hb, hn, hnil, hstop, hread, hscan⟩ := sdName_spec h
  exact ⟨raw, hb, ⟨hnil, hread, hscan⟩, hn, hstop⟩

theorem sdParam_eq_some {p : SdParam} (h : sdParam b = some (p, rest)) :
    ∃ piece, b = piece ++ rest ∧ IsPiece p piece := by
  obtain ⟨b₁, hspace, h⟩ := Option.bind_eq_some_iff.mp h
  obtain ⟨⟨name, b₂⟩, hname, h⟩ := Option.bind_eq_some_iff.mp h
  obtain ⟨b₃, hequals, h⟩ := Option.bind_eq_some_iff.mp h
  obtain ⟨⟨value, b₄⟩, hvalue, h⟩ := Option.bind_eq_some_iff.mp h
  cases h
  obtain ⟨nameRaw, rfl, hisName, hnameText, -⟩ := sdName_eq_some hname
  obtain ⟨valueRaw, rfl, hread, hscan, hplain⟩ := sdValue_spec hvalue
  cases skip_eq_some.mp hspace
  cases skip_eq_some.mp hequals
  refine ⟨0x20 :: (nameRaw ++ (0x3D :: 0x22 :: (valueRaw ++ [0x22]))), by simp [ascii], rfl, ?_, ?_, ?_⟩
  · intro rest'
    have hlaid : 0x20 :: (nameRaw ++ (0x3D :: 0x22 :: (valueRaw ++ [0x22]))) ++ rest' =
        ascii " " ++ (nameRaw ++ (ascii "=\"" ++ (valueRaw ++ 0x22 :: rest'))) := by simp [ascii]
    rw [hlaid]
    unfold sdParam
    rw [skip_eq_some.mpr rfl, Option.bind_eq_bind, Option.bind_some,
      hisName.read _ (by rintro a ⟨⟩; rfl), Option.bind_eq_bind, Option.bind_some]
    dsimp only
    rw [skip_eq_some.mpr rfl, Option.bind_eq_bind, Option.bind_some, hread]
    rfl
  · intro i rest'
    have hlaid : 0x20 :: (nameRaw ++ (0x3D :: 0x22 :: (valueRaw ++ [0x22]))) ++ rest' =
        0x20 :: (nameRaw ++ (0x3D :: 0x22 :: (valueRaw ++ 0x22 :: rest'))) := by simp
    have hfirst : scanEnd false i (0x20 :: (nameRaw ++ (0x3D :: 0x22 :: (valueRaw ++ 0x22 :: rest')))) =
        scanEnd false (i + 1) (nameRaw ++ (0x3D :: 0x22 :: (valueRaw ++ 0x22 :: rest'))) :=
      scanEnd_other (by decide) (fun h => nomatch h) fun _ => by decide
    have hequals (j : Nat) : scanEnd false j (0x3D :: 0x22 :: (valueRaw ++ 0x22 :: rest')) =
        scanEnd false (j + 1) (0x22 :: (valueRaw ++ 0x22 :: rest')) :=
      scanEnd_other (by decide) (fun h => nomatch h) fun _ => by decide
    rw [hlaid, hfirst, hisName.scan, hequals, scanEnd_quote, Bool.not_false, hscan]
    congr 1
    simp only [List.length_cons, List.length_append, List.length_nil]
    omega
  · intro hsign hb64
    dsimp only at hsign hb64 ⊢
    obtain ⟨hescapes, hencoded⟩ := plain_of_b64 hb64
    have hnameRaw : nameRaw = ascii "SIGN" := by rw [← ascii_asciiText nameRaw, ← hnameText, hsign]
    rw [hplain hescapes, hnameRaw]
    unfold signCut
    rw [hencoded]
    simp [ascii]

variable {fuel : Nat} {params : List SdParam}

theorem sdParams_eq_some (hfuel : b.length ≤ fuel) (h : sdParams fuel b = some (params, rest)) :
    ∃ pieces, List.Forall₂ IsPiece params pieces ∧ b = pieces.flatten ++ rest ∧ rest.head? ≠ some 0x20 := by
  induction fuel generalizing b params with
  | zero =>
    cases h
    rw [List.length_eq_zero_iff.mp (Nat.le_zero.mp hfuel)]
    exact ⟨[], .nil, rfl, nofun⟩
  | succ fuel ih =>
    unfold sdParams at h
    split at h
    case isFalse hstop =>
      cases h
      exact ⟨[], .nil, rfl, hstop⟩
    case isTrue =>
      obtain ⟨⟨p, b₁⟩, hparam, h⟩ := Option.bind_eq_some_iff.mp h
      obtain ⟨⟨ps, b₂⟩, hparams, h⟩ := Option.bind_eq_some_iff.mp h
      cases h
      obtain ⟨piece, rfl, hpiece⟩ := sdParam_eq_some hparam
      have hne : piece.length ≠ 0 := by
        intro hlength
        have hhead := hpiece.head
        rw [List.length_eq_zero_iff.mp hlength] at hhead
        cases hhead
      rw [List.length_append] at hfuel
      obtain ⟨pieces, hpieces, rfl, hstop⟩ := ih (by omega) hparams
      exact ⟨piece :: pieces, .cons hpiece hpieces, by simp, hstop⟩

theorem sdParams_flatten {pieces : List Bytes}
    (hpieces : List.Forall₂ IsPiece params pieces) (hstop : rest.head? ≠ some 0x20) (hfuel : pieces.length ≤ fuel) :
    sdParams fuel (pieces.flatten ++ rest) = some (params, rest) := by
  induction hpieces generalizing fuel with
  | nil =>
    cases fuel with
    | zero => rfl
    | succ fuel =>
      unfold sdParams
      exact if_neg hstop
  | @cons p piece params pieces hpiece hpieces ih =>
    cases fuel with
    | zero => cases hfuel
    | succ fuel =>
      have hhead : (piece ++ (pieces.flatten ++ rest)).head? = some 0x20 := by
        rw [List.head?_append, hpiece.head]
        rfl
      unfold sdParams
      rw [List.flatten_cons, List.append_assoc, if_pos hhead, hpiece.read, Option.bind_eq_bind, Option.bind_some]
      dsimp only
      rw [ih (Nat.le_of_succ_le_succ hfuel), Option.bind_eq_bind, Option.bind_some]
      rfl

theorem length_le_flatten {pieces : List Bytes}
    (hpieces : List.Forall₂ IsPiece params pieces) : pieces.length ≤ pieces.flatten.length := by
  induction hpieces with
  | nil => exact Nat.le_refl _
  | @cons p piece params pieces hpiece hpieces ih =>
    cases piece with
    | nil => exact absurd hpiece.head nofun
    | cons a piece =>
      simp only [List.flatten_cons, List.length_cons, List.length_append]
      omega

theorem scanEnd_flatten {pieces : List Bytes} (hpieces : List.Forall₂ IsPiece params pieces)
    (i : Nat) (rest : Bytes) : scanEnd false i (pieces.flatten ++ rest) = scanEnd false (i + pieces.flatten.length) rest := by
  induction hpieces generalizing i with
  | nil => rfl
  | @cons p piece params pieces hpiece hpieces ih =>
    rw [List.flatten_cons, List.append_assoc, hpiece.scan, ih, List.length_append, Nat.add_assoc]

/-- The bytes of an element between its brackets: its identifier and its parameters. -/
structure IsElement (e : SdElement) (raw : Bytes) (pieces : List Bytes) : Prop where
  id : IsName e.id raw
  params : List.Forall₂ IsPiece e.params pieces

variable {e : SdElement} {es : List SdElement} {pieces : List Bytes}

theorem sdElement_eq_some (h : sdElement b = some (e, rest)) :
    ∃ raw pieces, IsElement e raw pieces ∧ b = 0x5B :: (raw ++ pieces.flatten ++ 0x5D :: rest) := by
  obtain ⟨b₁, hopen, h⟩ := Option.bind_eq_some_iff.mp h
  obtain ⟨⟨id, b₂⟩, hid, h⟩ := Option.bind_eq_some_iff.mp h
  obtain ⟨⟨params, b₃⟩, hparams, h⟩ := Option.bind_eq_some_iff.mp h
  obtain ⟨b₄, hclose, h⟩ := Option.bind_eq_some_iff.mp h
  cases h
  obtain ⟨raw, rfl, hname, -, -⟩ := sdName_eq_some hid
  obtain ⟨pieces, hpieces, rfl, -⟩ := sdParams_eq_some (Nat.le_refl _) hparams
  cases skip_eq_some.mp hopen
  cases skip_eq_some.mp hclose
  exact ⟨raw, pieces, ⟨hname, hpieces⟩, by simp [ascii]⟩

theorem IsElement.read (helement : IsElement e raw pieces) (rest : Bytes) :
    sdElement (0x5B :: (raw ++ pieces.flatten ++ 0x5D :: rest)) = some (e, rest) := by
  have hstop : ∀ a ∈ (pieces.flatten ++ 0x5D :: rest).head?, isNameByte a = false := by
    intro a ha
    have hpieces := helement.params
    generalize e.params = params at hpieces
    cases hpieces with
    | nil =>
      cases ha
      rfl
    | @cons p piece params pieces hpiece _ =>
      rw [List.flatten_cons, List.append_assoc, List.head?_append, hpiece.head] at ha
      cases ha
      rfl
  have hfuel : pieces.length ≤ (pieces.flatten ++ 0x5D :: rest).length := by
    have hle := length_le_flatten helement.params
    rw [List.length_append]
    omega
  have hopen : skip (ascii "[") (0x5B :: (raw ++ pieces.flatten ++ 0x5D :: rest)) =
      some (raw ++ (pieces.flatten ++ 0x5D :: rest)) := skip_eq_some.mpr (by simp [ascii])
  unfold sdElement
  rw [hopen, Option.bind_eq_bind, Option.bind_some, helement.id.read _ hstop, Option.bind_eq_bind, Option.bind_some]
  dsimp only
  rw [sdParams_flatten helement.params (by simp) hfuel, Option.bind_eq_bind, Option.bind_some]
  dsimp only
  rw [skip_eq_some.mpr (show 0x5D :: rest = ascii "]" ++ rest from rfl)]
  rfl

theorem IsElement.scan (helement : IsElement e raw pieces) (i : Nat) (rest : Bytes) :
    scanEnd false i (raw ++ pieces.flatten ++ 0x5D :: rest) = some (i + (raw ++ pieces.flatten).length) := by
  rw [List.append_assoc, helement.id.scan, scanEnd_flatten helement.params, scanEnd_close, List.length_append,
    Nat.add_assoc]

theorem sdElements_of_stop (h : b.head? ≠ some 0x5B) : sdElements fuel b = some ([], b) := by
  cases fuel with
  | zero => rfl
  | succ fuel =>
    unfold sdElements
    exact if_neg h

theorem sdElements_cons (h : sdElements fuel b = some (e :: es, rest)) :
    ∃ fuel' b', fuel = fuel' + 1 ∧ sdElement b = some (e, b') ∧ sdElements fuel' b' = some (es, rest) := by
  cases fuel with
  | zero => cases h
  | succ fuel =>
    unfold sdElements at h
    split at h
    case isFalse => cases h
    case isTrue =>
      obtain ⟨⟨e', b'⟩, helement, h⟩ := Option.bind_eq_some_iff.mp h
      obtain ⟨⟨es', b''⟩, helements, h⟩ := Option.bind_eq_some_iff.mp h
      cases h
      exact ⟨fuel, b', rfl, helement, helements⟩

theorem sdElements_nil (hfuel : fuel ≠ 0) (h : sdElements fuel b = some ([], rest)) :
    rest = b ∧ b.head? ≠ some 0x5B := by
  cases fuel with
  | zero => exact absurd rfl hfuel
  | succ fuel =>
    unfold sdElements at h
    split at h
    case isFalse hstop =>
      cases h
      exact ⟨rfl, hstop⟩
    case isTrue =>
      obtain ⟨⟨e', b'⟩, helement, h⟩ := Option.bind_eq_some_iff.mp h
      obtain ⟨⟨es', b''⟩, helements, h⟩ := Option.bind_eq_some_iff.mp h
      cases h

theorem IsElement.sign {sign : String} (helement : IsElement e raw pieces)
    (hlast : e.params.getLast? = some ⟨"SIGN", sign⟩) (hb64 : b64 sign ≠ none) :
    ∃ init, pieces = init ++ [signCut sign] ∧ IsElement { e with params := e.params.dropLast } raw init := by
  obtain ⟨params, hparams⟩ := List.getLast?_eq_some_iff.mp hlast
  have hpieces := helement.params
  rw [hparams] at hpieces
  have hinit := (List.forall₂_take_append _ _ _ hpieces.flip).flip
  have hrest := List.forall₂_drop_append _ _ _ hpieces.flip
  obtain ⟨last, tail, hlastPiece, htail, hdrop⟩ := List.forall₂_cons_right_iff.mp hrest
  cases htail
  have hsplit : pieces = pieces.take params.length ++ [last] := by
    rw [← hdrop, List.take_append_drop]
  refine ⟨pieces.take params.length, by rw [← hlastPiece.sign rfl hb64]; exact hsplit, helement.id, ?_⟩
  rw [hparams, List.dropLast_concat]
  exact hinit

end Pieces

end Dsip.Events
