import Mathlib.Tactic

/-!
# Base64url, ASCII and UTF-8

Unpadded base64url text to bytes, and bytes to text by two codecs. Where the
text is ASCII the codecs agree (`utf8Decode_of_ascii`, `ascii_of_utf8Decode`).
-/

namespace Dsip.Lib

/-- The value of a base64url digit. -/
def base64Digit (c : Char) : Option Nat :=
  if 'A' ≤ c ∧ c ≤ 'Z' then some (c.toNat - 'A'.toNat)
  else if 'a' ≤ c ∧ c ≤ 'z' then some (c.toNat - 'a'.toNat + 26)
  else if '0' ≤ c ∧ c ≤ '9' then some (c.toNat - '0'.toNat + 52)
  else if c = '-' then some 62
  else if c = '_' then some 63
  else none

/-- The bytes of a list of digits, four digits to three bytes. What is left of
the last digit is dropped; one digit alone makes no byte. -/
def digitBytes : List Nat → Option (List Nat)
  | [] => some []
  | [_] => none
  | [a, b] => some [a * 4 + b / 16]
  | [a, b, c] => some [a * 4 + b / 16, b % 16 * 16 + c / 4]
  | a :: b :: c :: d :: rest =>
    (digitBytes rest).map ([a * 4 + b / 16, b % 16 * 16 + c / 4, c % 4 * 64 + d] ++ ·)

def base64UrlDecode (text : String) : Option (List Nat) := (text.toList.mapM base64Digit).bind digitBytes

def asciiDecode : List Nat → Option (List Char)
  | [] => some []
  | a :: rest => if a < 0x80 then (asciiDecode rest).map (Char.ofNat a :: ·) else none

def isContinuation (b : Nat) : Bool := 0x80 ≤ b ∧ b < 0xC0

/-- A scalar value that needs at least `least`. -/
def isScalar (least n : Nat) : Bool := least ≤ n ∧ n.isValidChar

/-- Bytes as UTF-8: shortest forms only, no surrogates. -/
def utf8Decode : List Nat → Option (List Char)
  | [] => some []
  | a :: rest =>
    if a < 0x80 then (utf8Decode rest).map (Char.ofNat a :: ·)
    else
      match rest with
      | [] => none
      | b :: rest₂ =>
        let two := (a - 0xC0) * 64 + (b - 0x80)
        if 0xC0 ≤ a ∧ a < 0xE0 ∧ isContinuation b ∧ isScalar 0x80 two then
          (utf8Decode rest₂).map (Char.ofNat two :: ·)
        else
          match rest₂ with
          | [] => none
          | c :: rest₃ =>
            let three := (a - 0xE0) * 4096 + (b - 0x80) * 64 + (c - 0x80)
            if 0xE0 ≤ a ∧ a < 0xF0 ∧ isContinuation b ∧ isContinuation c ∧ isScalar 0x800 three then
              (utf8Decode rest₃).map (Char.ofNat three :: ·)
            else
              match rest₃ with
              | [] => none
              | d :: rest₄ =>
                let four := (a - 0xF0) * 262144 + (b - 0x80) * 4096 + (c - 0x80) * 64 + (d - 0x80)
                if 0xF0 ≤ a ∧ a < 0xF8 ∧ isContinuation b ∧ isContinuation c ∧
                    isContinuation d ∧ isScalar 0x10000 four then
                  (utf8Decode rest₄).map (Char.ofNat four :: ·)
                else none

theorem utf8Decode_of_ascii {bytes : List Nat} {text : List Char}
    (h : asciiDecode bytes = some text) : utf8Decode bytes = some text := by
  induction bytes generalizing text with
  | nil => exact h
  | cons a rest ih =>
    unfold asciiDecode at h
    split at h
    case isTrue ha =>
      obtain ⟨tail, htail, rfl⟩ := Option.map_eq_some_iff.mp h
      unfold utf8Decode
      rw [if_pos ha, ih htail]
      rfl
    case isFalse => cases h

theorem toNat_of_scalar {least n : Nat} (h : isScalar least n = true) : least ≤ (Char.ofNat n).toNat := by
  obtain ⟨hleast, hvalid⟩ := of_decide_eq_true h
  have hn : (Char.ofNat n).toNat = n := by
    unfold Char.ofNat
    rw [dif_pos hvalid]
    rfl
  rw [hn]
  exact hleast

theorem not_ascii_of_scalar {least n : Nat} (hn : isScalar least n = true) (hleast : 0x80 ≤ least)
    {tail : List Char} (h : ∀ c ∈ Char.ofNat n :: tail, c.toNat < 0x80) : False := by
  have hlow := h _ List.mem_cons_self
  have hhigh := toNat_of_scalar hn
  omega

theorem ascii_of_utf8Decode {bytes : List Nat} {text : List Char}
    (h : utf8Decode bytes = some text) (hascii : ∀ c ∈ text, c.toNat < 0x80) :
    asciiDecode bytes = some text := by
  induction bytes generalizing text with
  | nil => exact h
  | cons a rest ih =>
    unfold utf8Decode at h
    split at h
    case isTrue ha =>
      obtain ⟨tail, htail, rfl⟩ := Option.map_eq_some_iff.mp h
      unfold asciiDecode
      rw [if_pos ha, ih htail fun c hc => hascii c (List.mem_cons_of_mem _ hc)]
      rfl
    case isFalse =>
      -- every longer form stands for a character outside ASCII
      exfalso
      split at h
      · cases h
      dsimp only at h
      split at h
      case isTrue hb =>
        obtain ⟨tail, -, rfl⟩ := Option.map_eq_some_iff.mp h
        exact not_ascii_of_scalar hb.2.2.2 (le_refl _) hascii
      split at h
      · cases h
      split at h
      case isTrue hc =>
        obtain ⟨tail, -, rfl⟩ := Option.map_eq_some_iff.mp h
        exact not_ascii_of_scalar hc.2.2.2.2 (by decide) hascii
      split at h
      · cases h
      split at h
      case isTrue hd =>
        obtain ⟨tail, -, rfl⟩ := Option.map_eq_some_iff.mp h
        exact not_ascii_of_scalar hd.2.2.2.2.2 (by decide) hascii
      case isFalse => cases h

def utf8Encode (text : List Char) : List UInt8 := text.flatMap String.utf8EncodeChar

theorem utf8Encode_injective : Function.Injective utf8Encode := by
  intro a b h
  have hbytes : a.utf8Encode = b.utf8Encode := congrArg List.toByteArray h
  have hstring : String.ofList a = String.ofList b := by
    rw [← String.toByteArray_inj]
    simpa using hbytes
  exact String.ofList_injective hstring

end Dsip.Lib
