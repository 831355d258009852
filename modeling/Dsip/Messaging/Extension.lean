import Dsip.Lib.BigEndian

/-!
# MLS extensions

An extension as bytes: its type, the length of its data in one of three forms, and
the data. The reader takes the shortest form only, so that what it reads is what the
writer writes (`decodeExtension_eq_ok`).
-/

namespace Dsip.Messaging.Extension

open Dsip.Lib

abbrev Bytes := List UInt8

/-- `vl_len`; none where the data is too long. -/
def vlLen (n : Nat) : Option Bytes :=
  if n < 1 <<< 6 then some (BigEndian.bytes 1 n)
  else if n < 1 <<< 14 then some (BigEndian.bytes 2 (0x4000 ||| n))
  else if n < 1 <<< 30 then some (BigEndian.bytes 4 (0x80000000 ||| n))
  else none

/-- `encode_extension`; none where the type has more than 16 bits or the data is too long. -/
def encodeExtension (extType : Nat) (data : Bytes) : Option Bytes :=
  if extType < 65536 then (vlLen data.length).map fun len => BigEndian.bytes 2 extType ++ len ++ data else none

/-- Why an extension is rejected. -/
inductive MlsError where
  | truncated
  | lengthInvalid
  | lengthNonMinimal
  | trailingBytes
  deriving DecidableEq, Repr

/-- The codes of the rejections. -/
def MlsError.code : MlsError → String
  | .truncated => "mls-truncated"
  | .lengthInvalid => "mls-length-invalid"
  | .lengthNonMinimal => "mls-length-non-minimal"
  | .trailingBytes => "mls-trailing-bytes"

/-- `b[start:stop]`. -/
def slice (b : Bytes) (start stop : Nat) : Bytes := (b.drop start).take (stop - start)

/-- The bytes of a length, by its two first bits; eight bytes are out of bounds. -/
def lengthBytes (form : Nat) : Option Nat :=
  match form with
  | 0 => some 1
  | 1 => some 2
  | 2 => some 4
  | _ => none

/-- `decode_extension`: the type and the data. -/
def decodeExtension (b : Bytes) : Except MlsError (Nat × Bytes) :=
  match b[2]? with
  | none => .error .truncated
  | some first =>
    match lengthBytes (first.toNat >>> 6) with
    | none => .error .lengthInvalid
    | some n =>
      let length := BigEndian.value (slice b 2 (2 + n)) &&& ((1 <<< (8 * n - 2)) - 1)
      let data := slice b (2 + n) (2 + n + length)
      if b.length < 2 + n then .error .truncated
      else if n = 2 ∧ length < 1 <<< 6 ∨ n = 4 ∧ length < 1 <<< 14 then .error .lengthNonMinimal
      else if data.length < length then .error .truncated
      else if 2 + n + length < b.length then .error .trailingBytes
      else .ok (BigEndian.value (b.take 2), data)

/-! ## The three forms -/

/-- The number in the bytes of a length: the form in the two first bits. -/
def formed (form n length : Nat) : Nat := form * 2 ^ (8 * n - 2) + length

/-- A length in one of the forms, which is the shortest that it fits. -/
inductive IsLength : Nat → Nat → Nat → Prop where
  | one {length : Nat} : length < 2 ^ 6 → IsLength 0 1 length
  | two {length : Nat} : 2 ^ 6 ≤ length → length < 2 ^ 14 → IsLength 1 2 length
  | four {length : Nat} : 2 ^ 14 ≤ length → length < 2 ^ 30 → IsLength 2 4 length

section Forms

variable {form n length t : Nat} {b data header : Bytes}

theorem IsLength.lt (h : IsLength form n length) : length < 2 ^ (8 * n - 2) := by
  cases h <;> assumption

theorem IsLength.formed_lt (h : IsLength form n length) : formed form n length < 256 ^ n := by
  unfold formed
  cases h <;> omega

theorem vlLen_eq (h : IsLength form n length) : vlLen length = some (BigEndian.bytes n (formed form n length)) := by
  unfold vlLen formed
  simp only [Nat.one_shiftLeft]
  cases h with
  | one hlt =>
    rw [if_pos hlt, Nat.zero_mul, Nat.zero_add]
  | two hle hlt =>
    have hor : 0x4000 ||| length = 2 ^ 14 + length := (Nat.two_pow_add_eq_or_of_lt hlt 1).symm
    rw [if_neg (Nat.not_lt.mpr hle), if_pos hlt, hor, Nat.one_mul]
  | four hle hlt =>
    have hor : 0x80000000 ||| length = 2 ^ 30 * 2 + length := (Nat.two_pow_add_eq_or_of_lt hlt 2).symm
    have hsmall : ¬ length < 2 ^ 6 := by omega
    rw [if_neg hsmall, if_neg (Nat.not_lt.mpr hle), if_pos hlt, hor, Nat.mul_comm]

theorem exists_isLength (h : length < 2 ^ 30) : ∃ form n, IsLength form n length := by
  by_cases hone : length < 2 ^ 6
  · exact ⟨_, _, .one hone⟩
  · by_cases htwo : length < 2 ^ 14
    · exact ⟨_, _, .two (Nat.not_lt.mp hone) htwo⟩
    · exact ⟨_, _, .four (Nat.not_lt.mp htwo) h⟩

theorem value_div (hn : 0 < n) (first : UInt8) (hlength : header.length = n) (hhead : header.head? = some first) :
    BigEndian.value header / 2 ^ (8 * n - 2) = first.toNat >>> 6 := by
  cases header with
  | nil => cases hhead
  | cons a rest =>
    cases hhead
    have hpow : 2 ^ (8 * n - 2) = 256 ^ rest.length * 64 := by
      have hexp : 8 * n - 2 = 8 * rest.length + 6 := by
        rw [List.length_cons] at hlength
        omega
      rw [hexp, pow_add, pow_mul]
      norm_num
    have hrest := BigEndian.value_lt rest
    rw [BigEndian.value_cons, hpow, ← Nat.div_div_eq_div_mul, Nat.shiftRight_eq_div_pow, Nat.add_comm,
      Nat.add_mul_div_right _ _ (by positivity), Nat.div_eq_of_lt hrest, Nat.zero_add]

/-! ## Reading what is written -/

theorem encodeExtension_eq_some (ht : t < 65536) (h : IsLength form n data.length) : encodeExtension t data =
      some (BigEndian.bytes 2 t ++ BigEndian.bytes n (formed form n data.length) ++ data) := by
  unfold encodeExtension
  rw [if_pos ht, vlLen_eq h]
  rfl

theorem IsLength.reader (h : IsLength form n length) :
    0 < n ∧ lengthBytes form = some n ∧ formed form n length / 2 ^ (8 * n - 2) = form ∧
      formed form n length % 2 ^ (8 * n - 2) = length ∧ ¬ (n = 2 ∧ length < 2 ^ 6 ∨ n = 4 ∧ length < 2 ^ 14) := by
  have hlt := h.lt
  have hpos : 0 < 2 ^ (8 * n - 2) := by positivity
  unfold formed
  refine ⟨?_, ?_, ?_, ?_, ?_⟩
  · cases h <;> decide
  · cases h <;> rfl
  · rw [Nat.add_comm, Nat.add_mul_div_right _ _ hpos, Nat.div_eq_of_lt hlt, Nat.zero_add]
  · rw [Nat.add_comm, Nat.add_mul_mod_self_right, Nat.mod_eq_of_lt hlt]
  · cases h <;> omega

theorem decodeExtension_laid (ht : t < 65536) (h : IsLength form n data.length) :
    decodeExtension (BigEndian.bytes 2 t ++ BigEndian.bytes n (formed form n data.length) ++ data) = .ok (t, data) := by
  obtain ⟨hn, hform, hdiv, hmod, hminimal⟩ := h.reader
  generalize hheader : BigEndian.bytes n (formed form n data.length) = header
  have hlength : header.length = n := by rw [← hheader, BigEndian.length_bytes]
  have hvalue : BigEndian.value header = formed form n data.length := by
    rw [← hheader, BigEndian.value_bytes h.formed_lt]
  generalize htype : BigEndian.bytes 2 t = type
  have htypeLength : type.length = 2 := by rw [← htype, BigEndian.length_bytes]
  have htypeValue : BigEndian.value type = t := by rw [← htype, BigEndian.value_bytes ht]
  cases header with
  | nil =>
    rw [List.length_nil] at hlength
    omega
  | cons first rest =>
    have hfirst : (type ++ (first :: rest) ++ data)[2]? = some first := by
      rw [List.append_assoc, List.getElem?_append_right (by omega), htypeLength]
      rfl
    have hslice : slice (type ++ (first :: rest) ++ data) 2 (2 + n) = first :: rest := by
      unfold slice
      rw [List.append_assoc, ← htypeLength, List.drop_left, Nat.add_sub_cancel_left, ← hlength, List.take_left]
    have hdata : slice (type ++ (first :: rest) ++ data) (2 + n) (2 + n + data.length) = data := by
      unfold slice
      rw [List.drop_left' (by rw [List.length_append, htypeLength, hlength]), Nat.add_sub_cancel_left, List.take_length]
    have hshift : first.toNat >>> 6 = form := by
      rw [← value_div hn first hlength rfl, hvalue, hdiv]
    have htake : (type ++ (first :: rest) ++ data).take 2 = type := by
      rw [List.append_assoc, ← htypeLength, List.take_left]
    have htotal : (type ++ (first :: rest) ++ data).length = 2 + n + data.length := by
      rw [List.length_append, List.length_append, htypeLength, hlength]
    unfold decodeExtension
    simp only [hfirst, hshift, hform, hslice, hvalue, Nat.one_shiftLeft, Nat.and_two_pow_sub_one_eq_mod, hmod, hdata,
      htotal, htake, htypeValue]
    rw [if_neg (by omega), if_neg hminimal, if_neg (Nat.lt_irrefl _), if_neg (Nat.lt_irrefl _)]

theorem isLength_of_reader (hform : lengthBytes form = some n) (hlt : length < 2 ^ (8 * n - 2))
    (hminimal : ¬ (n = 2 ∧ length < 2 ^ 6 ∨ n = 4 ∧ length < 2 ^ 14)) : IsLength form n length := by
  unfold lengthBytes at hform
  split at hform <;> cases hform
  · exact .one hlt
  · exact .two (by omega) hlt
  · exact .four (by omega) hlt

theorem bytes_value_of_length {c : Bytes} (h : c.length = n) : BigEndian.bytes n (BigEndian.value c) = c := by
  rw [← h]
  exact BigEndian.bytes_value c

theorem laid_of_decodeExtension (h : decodeExtension b = .ok (t, data)) :
    ∃ form n, t < 65536 ∧ IsLength form n data.length ∧
      b = BigEndian.bytes 2 t ++ BigEndian.bytes n (formed form n data.length) ++ data := by
  unfold decodeExtension at h
  split at h
  case h_1 => cases h
  case h_2 first hfirst =>
    split at h
    case h_1 => cases h
    case h_2 n hform =>
      simp only [Nat.one_shiftLeft, Nat.and_two_pow_sub_one_eq_mod] at h
      generalize hlength : BigEndian.value (slice b 2 (2 + n)) % 2 ^ (8 * n - 2) = length at h
      split_ifs at h with hshort hminimal hdata htrailing
      cases h
      have hheaderLength : (slice b 2 (2 + n)).length = n := by
        unfold slice
        rw [List.length_take, List.length_drop]
        omega
      have htotal : b.length = 2 + n + length := by
        unfold slice at hdata
        rw [List.length_take, List.length_drop] at hdata
        omega
      have hrest : slice b (2 + n) (2 + n + length) = b.drop (2 + n) := by
        unfold slice
        rw [Nat.add_sub_cancel_left, List.take_of_length_le]
        rw [List.length_drop]
        omega
      have hrestLength : (b.drop (2 + n)).length = length := by
        rw [List.length_drop]
        omega
      have hpos : 0 < n := by
        unfold lengthBytes at hform
        split at hform <;> cases hform <;> decide
      have hhead : (slice b 2 (2 + n)).head? = some first := by
        unfold slice
        rw [List.head?_take, if_neg (by omega), List.head?_drop, hfirst]
      have hdiv := value_div hpos first hheaderLength hhead
      have hvalue : BigEndian.value (slice b 2 (2 + n)) = formed (first.toNat >>> 6) n length := by
        unfold formed
        rw [← hdiv, ← hlength, Nat.div_add_mod']
      have htype : BigEndian.bytes 2 (BigEndian.value (b.take 2)) = b.take 2 := by
        have htwo : (b.take 2).length = 2 := by
          rw [List.length_take]
          omega
        exact bytes_value_of_length htwo
      have hheader : BigEndian.bytes n (formed (first.toNat >>> 6) n length) = slice b 2 (2 + n) := by
        rw [← hvalue]
        exact bytes_value_of_length hheaderLength
      refine ⟨first.toNat >>> 6, n, ?_, ?_, ?_⟩
      · refine lt_of_lt_of_le (BigEndian.value_lt _) ?_
        rw [show 65536 = 256 ^ 2 from rfl]
        exact Nat.pow_le_pow_right (by decide) (List.length_take_le _ _)
      · rw [hrest, hrestLength]
        exact isLength_of_reader hform (hlength ▸ Nat.mod_lt _ (by positivity)) hminimal
      · have hsplit : b.drop 2 = slice b 2 (2 + n) ++ b.drop (2 + n) := by
          unfold slice
          rw [Nat.add_sub_cancel_left, ← List.drop_drop, List.take_append_drop]
        rw [hrest, hrestLength, hheader, htype, List.append_assoc, ← hsplit, List.take_append_drop]

/-- The writer and the reader are inverse: what is written is read back, what is read
was written so, and everything else is rejected with one of the codes. -/
theorem extension_codec : (∀ t (data : Bytes), t < 2 ^ 16 → data.length < 2 ^ 30 →
      ∃ b, encodeExtension t data = some b ∧ decodeExtension b = .ok (t, data)) ∧
    (∀ b t data, decodeExtension b = .ok (t, data) → encodeExtension t data = some b) ∧
    ∀ b, (∃ t data, encodeExtension t data = some b) ∨ ∃ e, decodeExtension b = .error e ∧
        e.code ∈ ["mls-truncated", "mls-length-invalid", "mls-length-non-minimal", "mls-trailing-bytes"] := by
  have hread (b : Bytes) (t : Nat) (data : Bytes) (h : decodeExtension b = .ok (t, data)) :
      encodeExtension t data = some b := by
    obtain ⟨form, n, ht, hlength, rfl⟩ := laid_of_decodeExtension h
    exact encodeExtension_eq_some ht hlength
  refine ⟨fun t data ht hdata => ?_, hread, fun b => ?_⟩
  · obtain ⟨form, n, hlength⟩ := exists_isLength hdata
    exact ⟨_, encodeExtension_eq_some ht hlength, decodeExtension_laid ht hlength⟩
  · cases hb : decodeExtension b with
    | ok extension => exact .inl ⟨_, _, hread b extension.1 extension.2 hb⟩
    | error e =>
      refine .inr ⟨e, rfl, ?_⟩
      cases e <;> decide

theorem extension_codec_conversation : ∃ b, encodeExtension 0xF0D2 [1, 2] = some b ∧ decodeExtension b = .ok (0xF0D2, [1, 2]) :=
  extension_codec.1 0xF0D2 [1, 2] (by decide) (by decide)

end Forms

end Dsip.Messaging.Extension
