import Dsip.Lib.Encodings

/-!
# Writing base64url and UTF-8

The encoders beside the readers of `Lib.Encodings`, and that what they write is read back
(`base64UrlDecode_encode`, `utf8Decode_encode`).
-/

namespace Dsip.Lib

/-! ## Base64url -/

/-- The base64url digit of a value. -/
def base64Char (n : Nat) : Char :=
  "ABCDEFGHIJKLMNOPQRSTUVWXYZabcdefghijklmnopqrstuvwxyz0123456789-_".toList.getD n 'A'

/-- The digits of a list of bytes, three bytes to four digits. -/
def byteDigits : List Nat → List Nat
  | [] => []
  | [a] => [a / 4, a % 4 * 16]
  | [a, b] => [a / 4, a % 4 * 16 + b / 16, b % 16 * 4]
  | a :: b :: c :: rest => [a / 4, a % 4 * 16 + b / 16, b % 16 * 4 + c / 64, c % 64] ++ byteDigits rest

/-- Bytes as unpadded base64url. -/
def base64UrlEncode (bytes : List Nat) : List Char := (byteDigits bytes).map base64Char

theorem base64Digit_char {n : Nat} (h : n < 64) : base64Digit (base64Char n) = some n := by
  have hall : ∀ n : Fin 64, base64Digit (base64Char n) = some n.val := by decide +kernel
  exact hall ⟨n, h⟩

theorem base64Char_ne {n : Nat} (h : n < 64) {c : Char} (hc : base64Digit c = none) : base64Char n ≠ c := by
  intro heq
  rw [← heq, base64Digit_char h] at hc
  cases hc

variable {bytes : List Nat}

theorem lt_of_mem_byteDigits (h : ∀ b ∈ bytes, b < 256) : ∀ d ∈ byteDigits bytes, d < 64 := by
  induction bytes using byteDigits.induct with
  | case1 => exact fun d hd => absurd hd List.not_mem_nil
  | case2 a =>
    have ha := h a List.mem_cons_self
    simp only [byteDigits, List.mem_cons, List.not_mem_nil, or_false]
    rintro d (rfl | rfl) <;> omega
  | case3 a b =>
    have ha := h a (by simp)
    have hb := h b (by simp)
    simp only [byteDigits, List.mem_cons, List.not_mem_nil, or_false]
    rintro d (rfl | rfl | rfl) <;> omega
  | case4 a b c rest ih =>
    have ha := h a (by simp)
    have hb := h b (by simp)
    have hc := h c (by simp)
    have hrest := ih fun d hd => h d (by simp [hd])
    simp only [byteDigits, List.mem_append, List.mem_cons, List.not_mem_nil, or_false]
    rintro d ((rfl | rfl | rfl | rfl) | hd)
    · omega
    · omega
    · omega
    · omega
    · exact hrest d hd

theorem digitBytes_byteDigits (h : ∀ b ∈ bytes, b < 256) : digitBytes (byteDigits bytes) = some bytes := by
  induction bytes using byteDigits.induct with
  | case1 => rfl
  | case2 a =>
    have ha := h a List.mem_cons_self
    have heq : a / 4 * 4 + a % 4 * 16 / 16 = a := by omega
    rw [byteDigits, digitBytes, heq]
  | case3 a b =>
    have ha := h a (by simp)
    have hb := h b (by simp)
    have hfirst : a / 4 * 4 + (a % 4 * 16 + b / 16) / 16 = a := by omega
    have hsecond : (a % 4 * 16 + b / 16) % 16 * 16 + b % 16 * 4 / 4 = b := by omega
    rw [byteDigits, digitBytes, hfirst, hsecond]
  | case4 a b c rest ih =>
    have ha := h a (by simp)
    have hb := h b (by simp)
    have hc := h c (by simp)
    have hfirst : a / 4 * 4 + (a % 4 * 16 + b / 16) / 16 = a := by omega
    have hsecond : (a % 4 * 16 + b / 16) % 16 * 16 + (b % 16 * 4 + c / 64) / 4 = b := by omega
    have hthird : (b % 16 * 4 + c / 64) % 4 * 64 + c % 64 = c := by omega
    rw [byteDigits, List.cons_append, List.cons_append, List.cons_append, List.cons_append, List.nil_append, digitBytes,
      ih fun d hd => h d (by simp [hd]), hfirst, hsecond, hthird]
    rfl

theorem mapM_base64Digit {digits : List Nat} (h : ∀ d ∈ digits, d < 64) :
    (digits.map base64Char).mapM base64Digit = some digits := by
  induction digits with
  | nil => rfl
  | cons d digits ih =>
    rw [List.map_cons, List.mapM_cons, base64Digit_char (h d List.mem_cons_self),
      ih fun e he => h e (List.mem_cons_of_mem d he)]
    rfl

theorem base64UrlDecode_encode (h : ∀ b ∈ bytes, b < 256) :
    base64UrlDecode (String.ofList (base64UrlEncode bytes)) = some bytes := by
  unfold base64UrlDecode base64UrlEncode
  rw [String.toList_ofList, mapM_base64Digit (lt_of_mem_byteDigits h), Option.bind_some, digitBytes_byteDigits h]

theorem not_mem_base64UrlEncode (h : ∀ b ∈ bytes, b < 256) {c : Char} (hc : base64Digit c = none) :
    c ∉ base64UrlEncode bytes := by
  intro hmem
  obtain ⟨d, hd, heq⟩ := List.mem_map.mp hmem
  exact base64Char_ne (lt_of_mem_byteDigits h d hd) hc heq

theorem base64UrlEncode_eq_nil : base64UrlEncode bytes = [] ↔ bytes = [] := by
  unfold base64UrlEncode
  rw [List.map_eq_nil_iff]
  cases bytes using byteDigits.induct <;> simp [byteDigits]

/-! ## UTF-8 -/

/-- Text as UTF-8, the bytes as numbers. -/
def utf8Bytes (text : List Char) : List Nat := (utf8Encode text).map UInt8.toNat

theorem utf8Bytes_lt (text : List Char) : ∀ b ∈ utf8Bytes text, b < 256 := by
  intro b hb
  obtain ⟨u, -, rfl⟩ := List.mem_map.mp hb
  exact u.toNat_lt

theorem utf8Bytes_cons (c : Char) (text : List Char) :
    utf8Bytes (c :: text) = (String.utf8EncodeChar c).map UInt8.toNat ++ utf8Bytes text := by
  unfold utf8Bytes utf8Encode
  rw [List.flatMap_cons, List.map_append]

theorem isScalar_toNat {least : Nat} {c : Char} (h : least ≤ c.toNat) : isScalar least c.toNat = true :=
  decide_eq_true ⟨h, c.valid⟩

theorem toNat_ofNat {n : Nat} (h : n < 256) : (UInt8.ofNat n).toNat = n := by
  change n % 256 = n
  exact Nat.mod_eq_of_lt h

theorem encodeChar_eq (c : Char) : (String.utf8EncodeChar c).map UInt8.toNat =
    if c.toNat < 0x80 then [c.toNat]
    else if c.toNat < 0x800 then [c.toNat / 64 + 0xC0, c.toNat % 64 + 0x80]
    else if c.toNat < 0x10000 then [c.toNat / 4096 + 0xE0, c.toNat / 64 % 64 + 0x80, c.toNat % 64 + 0x80]
    else [c.toNat / 262144 + 0xF0, c.toNat / 4096 % 64 + 0x80, c.toNat / 64 % 64 + 0x80, c.toNat % 64 + 0x80] := by
  have hvalid : c.toNat < 0x110000 := by
    rcases c.valid with h | ⟨-, h⟩
    · exact lt_trans h (by decide)
    · exact h
  unfold String.utf8EncodeChar
  change List.map UInt8.toNat (if c.toNat ≤ 0x7f then _ else if c.toNat ≤ 0x7ff then _
    else if c.toNat ≤ 0xffff then _ else _) = _
  have hval : c.val.toNat = c.toNat := rfl
  simp only [hval]
  by_cases h₁ : c.toNat < 0x80
  · rw [if_pos (by omega), if_pos h₁, List.map_singleton, toNat_ofNat (by omega)]
  · rw [if_neg (by omega), if_neg h₁]
    by_cases h₂ : c.toNat < 0x800
    · rw [if_pos (by omega), if_pos h₂]
      simp only [List.map_cons, List.map_nil]
      rw [toNat_ofNat (by omega), toNat_ofNat (by omega), Nat.mod_eq_of_lt (by omega)]
    · rw [if_neg (by omega), if_neg h₂]
      by_cases h₃ : c.toNat < 0x10000
      · rw [if_pos (by omega), if_pos h₃]
        simp only [List.map_cons, List.map_nil]
        rw [toNat_ofNat (by omega), toNat_ofNat (by omega), toNat_ofNat (by omega), Nat.mod_eq_of_lt (by omega)]
      · rw [if_neg (by omega), if_neg h₃]
        simp only [List.map_cons, List.map_nil]
        rw [toNat_ofNat (by omega), toNat_ofNat (by omega), toNat_ofNat (by omega), toNat_ofNat (by omega),
          Nat.mod_eq_of_lt (by omega)]

theorem isContinuation_add {n : Nat} (h : n < 64) : isContinuation (n + 0x80) = true :=
  decide_eq_true (by omega)

theorem utf8Decode_char (c : Char) (rest : List Nat) :
    utf8Decode ((String.utf8EncodeChar c).map UInt8.toNat ++ rest) = (utf8Decode rest).map (c :: ·) := by
  have hof : Char.ofNat c.toNat = c := Char.ofNat_toNat c
  have hvalid : c.toNat < 0x110000 := by
    rcases c.valid with h | ⟨-, h⟩
    · exact lt_trans h (by decide)
    · exact h
  have hlast : isContinuation (c.toNat % 64 + 0x80) = true := isContinuation_add (by omega)
  have hmid : isContinuation (c.toNat / 64 % 64 + 0x80) = true := isContinuation_add (by omega)
  have hhigh : isContinuation (c.toNat / 4096 % 64 + 0x80) = true := isContinuation_add (by omega)
  rw [encodeChar_eq]
  by_cases h₁ : c.toNat < 0x80
  · rw [if_pos h₁, List.singleton_append, utf8Decode.eq_def]
    dsimp only
    rw [if_pos h₁, hof]
  · rw [if_neg h₁]
    by_cases h₂ : c.toNat < 0x800
    · have htwo : (c.toNat / 64 + 0xC0 - 0xC0) * 64 + (c.toNat % 64 + 0x80 - 0x80) = c.toNat := by omega
      rw [if_pos h₂, List.cons_append, List.singleton_append, utf8Decode.eq_def]
      dsimp only
      rw [if_neg (by omega), htwo, if_pos ⟨by omega, by omega, hlast, isScalar_toNat (by omega)⟩, hof]
    · rw [if_neg h₂]
      by_cases h₃ : c.toNat < 0x10000
      · have hthree : (c.toNat / 4096 + 0xE0 - 0xE0) * 4096 + (c.toNat / 64 % 64 + 0x80 - 0x80) * 64 +
            (c.toNat % 64 + 0x80 - 0x80) = c.toNat := by omega
        rw [if_pos h₃, List.cons_append, List.cons_append, List.singleton_append, utf8Decode.eq_def]
        dsimp only
        rw [if_neg (by omega), if_neg (by omega), hthree,
          if_pos ⟨by omega, by omega, hmid, hlast, isScalar_toNat (by omega)⟩, hof]
      · have hfour : (c.toNat / 262144 + 0xF0 - 0xF0) * 262144 + (c.toNat / 4096 % 64 + 0x80 - 0x80) * 4096 +
            (c.toNat / 64 % 64 + 0x80 - 0x80) * 64 + (c.toNat % 64 + 0x80 - 0x80) = c.toNat := by omega
        rw [if_neg h₃, List.cons_append, List.cons_append, List.cons_append, List.singleton_append, utf8Decode.eq_def]
        dsimp only
        rw [if_neg (by omega), if_neg (by omega), if_neg (by omega), hfour,
          if_pos ⟨by omega, by omega, hhigh, hmid, hlast, isScalar_toNat (by omega)⟩, hof]

theorem utf8Decode_encode (text : List Char) : utf8Decode (utf8Bytes text) = some text := by
  induction text with
  | nil => rfl
  | cons c text ih => rw [utf8Bytes_cons, utf8Decode_char, ih, Option.map_some]

end Dsip.Lib
