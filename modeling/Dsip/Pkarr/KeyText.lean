import Dsip.Lib.Base58
import Dsip.Lib.BigEndian

/-!
# Keys as texts

A key as a `did:key`, which is base 58, and as z-base-32, which is 52 digits of 5 bits
with 4 bits of padding. What is read is what is written: one text for each key.
-/

namespace Dsip.Pkarr

open Dsip.Lib

abbrev Bytes := List UInt8

def ed25519PubMulticodec : Bytes := [0xED, 0x01]

def didKeyHead : List Char := "did:key:z".toList

def didKeyFromPublic (pub : Bytes) : List Char := didKeyHead ++ base58Encode (ed25519PubMulticodec ++ pub)

/-- `public_from_did_key`; none where it raises. -/
def publicFromDidKey (did : List Char) : Option Bytes :=
  if didKeyHead.isPrefixOf did then
    match base58Decode (did.drop didKeyHead.length) with
    | none => none
    | some raw =>
      if ¬ed25519PubMulticodec.isPrefixOf raw ∨ raw.length ≠ 2 + 32 then none else some (raw.drop 2)
  else none

theorem publicFromDidKey_eq {did : List Char} {pub : Bytes} (h : publicFromDidKey did = some pub) :
    didKeyFromPublic pub = did ∧ pub.length = 32 := by
  unfold publicFromDidKey at h
  split at h
  · rename_i hhead
    obtain ⟨text, rfl⟩ := List.isPrefixOf_iff_prefix.mp hhead
    rw [List.drop_left] at h
    cases hraw : base58Decode text with
    | none =>
      rw [hraw] at h
      cases h
    | some raw =>
      simp only [hraw] at h
      split at h
      · cases h
      · rename_i hcodec
        obtain ⟨hcodec, hlength⟩ := not_or.mp hcodec
        obtain ⟨key, rfl⟩ := List.isPrefixOf_iff_prefix.mp (not_not.mp hcodec)
        cases h
        refine ⟨?_, ?_⟩
        · rw [didKeyFromPublic, ← base58Encode_decode hraw]
          rfl
        · rw [List.length_drop, not_not.mp hlength]
  · cases h

theorem publicFromDidKey_didKey {pub : Bytes} (h : pub.length = 32) :
    publicFromDidKey (didKeyFromPublic pub) = some pub := by
  have hcodec : ed25519PubMulticodec.isPrefixOf (ed25519PubMulticodec ++ pub) = true :=
    List.isPrefixOf_iff_prefix.mpr (List.prefix_append _ _)
  have hlength : (ed25519PubMulticodec ++ pub).length = 2 + 32 := by
    rw [List.length_append, h]
    rfl
  unfold publicFromDidKey didKeyFromPublic
  rw [if_pos (List.isPrefixOf_iff_prefix.mpr (List.prefix_append _ _)), List.drop_left, base58Decode_encode]
  simp only [hcodec, hlength]
  rfl

/-! ## Digits of five bits -/

/-- The last digits of a number, most significant first. -/
def digits32 (width n : Nat) : List Nat := (List.range width).map fun i => (n >>> (5 * width - 5 * (i + 1))) &&& 31

def number32 (digits : List Nat) : Nat := digits.foldl (fun n d => (n <<< 5) ||| d) 0

section Digits

variable {width n d : Nat} {digits : List Nat}

theorem digits32_succ : digits32 (width + 1) n = digits32 width (n >>> 5) ++ [n &&& 31] := by
  unfold digits32
  rw [List.range_succ, List.map_append, List.map_singleton]
  congr 1
  · refine List.map_congr_left fun i hmem => ?_
    have hi := List.mem_range.mp hmem
    have hshift : 5 * (width + 1) - 5 * (i + 1) = 5 + (5 * width - 5 * (i + 1)) := by omega
    rw [hshift, Nat.shiftRight_add]
  · rw [Nat.sub_self, Nat.shiftRight_zero]

theorem number32_concat (hd : d < 32) : number32 (digits ++ [d]) = number32 digits * 32 + d := by
  unfold number32
  rw [List.foldl_append, List.foldl_cons, List.foldl_nil, ← Nat.shiftLeft_add_eq_or_of_lt hd, Nat.shiftLeft_eq]

theorem and_31 (n : Nat) : n &&& 31 = n % 32 := Nat.and_two_pow_sub_one_eq_mod n 5

theorem number32_digits32 (h : n < 32 ^ width) : number32 (digits32 width n) = n := by
  induction width generalizing n with
  | zero =>
    have hn : n = 0 := by simpa using h
    rw [hn]
    rfl
  | succ width ih =>
    have hquotient : n >>> 5 < 32 ^ width := by
      rw [Nat.shiftRight_eq_div_pow]
      rw [pow_succ] at h
      omega
    have hdigit : n &&& 31 < 32 := by
      rw [and_31]
      omega
    rw [digits32_succ, number32_concat hdigit, ih hquotient, and_31, Nat.shiftRight_eq_div_pow]
    omega

theorem digits32_number32 (h : ∀ d ∈ digits, d < 32) : digits32 digits.length (number32 digits) = digits := by
  induction digits using List.reverseRecOn with
  | nil => rfl
  | append_singleton digits d ih =>
    have hd : d < 32 := h d (by simp)
    have hquotient : (number32 digits * 32 + d) >>> 5 = number32 digits := by
      rw [Nat.shiftRight_eq_div_pow]
      omega
    have hdigit : (number32 digits * 32 + d) &&& 31 = d := by
      rw [and_31]
      omega
    rw [number32_concat hd, List.length_append, List.length_singleton, digits32_succ, hquotient, hdigit,
      ih fun d' hmem => h d' (List.mem_append_left _ hmem)]

theorem number32_lt (h : ∀ d ∈ digits, d < 32) : number32 digits < 32 ^ digits.length := by
  induction digits using List.reverseRecOn with
  | nil => decide
  | append_singleton digits d ih =>
    have hd : d < 32 := h d (by simp)
    have hrest := ih fun d' hmem => h d' (List.mem_append_left _ hmem)
    rw [number32_concat hd, List.length_append, List.length_singleton, pow_succ]
    omega

@[simp] theorem length_digits32 : (digits32 width n).length = width := by simp [digits32]

theorem lt_of_mem_digits32 (h : d ∈ digits32 width n) : d < 32 := by
  obtain ⟨i, -, rfl⟩ := List.mem_map.mp h
  rw [and_31]
  omega

end Digits

/-! ## z-base-32 -/

def zb32 : List Char := "ybndrfg8ejkmcpqxot1uwisza345h769".toList

def zb32Char (d : Nat) : Char := zb32.getD d 'y'

def z32Encode (b : Bytes) : List Char :=
  let bits := b.length * 8
  let pad := (5 - bits % 5) % 5
  let n := BigEndian.value b <<< pad
  (List.range ((bits + pad) / 5)).map fun i => zb32Char ((n >>> (bits + pad - 5 * (i + 1))) &&& 31)

inductive Z32Error where
  | malformed
  | nonCanonical
  deriving DecidableEq, Repr

def z32Decode (s : List Char) : Except Z32Error Bytes :=
  if s.length ≠ 52 ∨ s.any (fun c => !zb32.contains c) then .error .malformed
  else
    let n := s.foldl (fun n c => (n <<< 5) ||| zb32.idxOf c) 0
    if n &&& 0xF ≠ 0 then .error .nonCanonical else .ok (BigEndian.bytes 32 (n >>> 4))

section Zbase32

variable {s : List Char} {b : Bytes} {d : Nat} {c : Char}

theorem idxOf_zb32Char : ∀ d < 32, zb32.idxOf (zb32Char d) = d := by decide

theorem mem_zb32Char : ∀ d < 32, zb32Char d ∈ zb32 := by decide

theorem zb32Char_idxOf (h : c ∈ zb32) : zb32Char (zb32.idxOf c) = c := by
  have hlt := List.idxOf_lt_length_of_mem h
  rw [zb32Char, List.getD_eq_getElem?_getD, List.getElem?_eq_getElem hlt, Option.getD_some, List.getElem_idxOf]

theorem idxOf_lt (h : c ∈ zb32) : zb32.idxOf c < 32 := List.idxOf_lt_length_of_mem h

theorem foldl_idxOf (s : List Char) :
    s.foldl (fun n c => (n <<< 5) ||| zb32.idxOf c) 0 = number32 (s.map zb32.idxOf) := by
  rw [number32, List.foldl_map]

theorem z32Encode_eq (h : b.length = 32) : z32Encode b = (digits32 52 (BigEndian.value b * 16)).map zb32Char := by
  unfold z32Encode
  rw [h]
  dsimp only
  rw [digits32, List.map_map, Nat.shiftLeft_eq]
  rfl

theorem malformed_iff :
    (s.length ≠ 52 ∨ s.any (fun c => !zb32.contains c)) ↔ ¬(s.length = 52 ∧ ∀ c ∈ s, c ∈ zb32) := by
  rw [not_and_or, List.any_eq_true]
  refine or_congr Iff.rfl ?_
  push Not
  simp

theorem readable_map {digits : List Nat} (hlt : ∀ d ∈ digits, d < 32) (hlength : digits.length = 52) :
    (digits.map zb32Char).length = 52 ∧ ∀ c ∈ digits.map zb32Char, c ∈ zb32 := by
  refine ⟨by rw [List.length_map, hlength], fun c hc => ?_⟩
  obtain ⟨d, hd, rfl⟩ := List.mem_map.mp hc
  exact mem_zb32Char d (hlt d hd)

theorem z32Decode_eq (h : s.length = 52 ∧ ∀ c ∈ s, c ∈ zb32) :
    z32Decode s = if number32 (s.map zb32.idxOf) % 16 ≠ 0 then .error .nonCanonical
      else .ok (BigEndian.bytes 32 (number32 (s.map zb32.idxOf) / 16)) := by
  unfold z32Decode
  rw [if_neg fun hbad => malformed_iff.mp hbad h]
  dsimp only
  rw [foldl_idxOf, show 0xF = 2 ^ 4 - 1 from rfl, Nat.and_two_pow_sub_one_eq_mod, Nat.shiftRight_eq_div_pow]

theorem readable_of_ne {e : Except Z32Error Bytes} (h : z32Decode s = e) (hne : e ≠ .error .malformed) :
    s.length = 52 ∧ ∀ c ∈ s, c ∈ zb32 := by
  by_contra hbad
  unfold z32Decode at h
  rw [if_pos (malformed_iff.mpr hbad)] at h
  exact hne h.symm

theorem map_idxOf_zb32Char {digits : List Nat} (hlt : ∀ d ∈ digits, d < 32) :
    (digits.map zb32Char).map zb32.idxOf = digits := by
  rw [List.map_map]
  exact (List.map_congr_left fun d hd => idxOf_zb32Char d (hlt d hd)).trans (List.map_id _)

theorem z32Decode_encode (h : b.length = 32) : (z32Encode b).length = 52 ∧ z32Decode (z32Encode b) = .ok b := by
  have hvalue : BigEndian.value b < 256 ^ 32 := h ▸ BigEndian.value_lt b
  have hlt (d : Nat) (hd : d ∈ digits32 52 (BigEndian.value b * 16)) : d < 32 := lt_of_mem_digits32 hd
  have hreadable := readable_map hlt length_digits32
  rw [z32Encode_eq h]
  refine ⟨hreadable.1, ?_⟩
  rw [z32Decode_eq hreadable, map_idxOf_zb32Char hlt, number32_digits32 (by omega), Nat.mul_mod_left,
    if_neg (fun hne => hne rfl), Nat.mul_div_cancel _ (by decide)]
  have hbytes := BigEndian.bytes_value b
  rw [h] at hbytes
  rw [hbytes]

theorem z32Encode_decode (h : z32Decode s = .ok b) : b.length = 32 ∧ s.length = 52 ∧ z32Encode b = s := by
  obtain ⟨hlength, hmem⟩ := readable_of_ne h (by simp)
  have hlt : ∀ d ∈ s.map zb32.idxOf, d < 32 := by
    intro d hd
    obtain ⟨c, hc, rfl⟩ := List.mem_map.mp hd
    exact idxOf_lt (hmem c hc)
  have hnumber := number32_lt hlt
  have hdigits := digits32_number32 hlt
  rw [List.length_map, hlength] at hnumber hdigits
  rw [z32Decode_eq ⟨hlength, hmem⟩] at h
  split at h
  · cases h
  · rename_i hpadding
    obtain rfl := Except.ok.inj h
    refine ⟨BigEndian.length_bytes _ _, hlength, ?_⟩
    rw [z32Encode_eq (BigEndian.length_bytes _ _), BigEndian.value_bytes (by omega),
      Nat.div_mul_cancel (Nat.dvd_of_mod_eq_zero (not_not.mp hpadding)), hdigits, List.map_map]
    exact (List.map_congr_left fun c hc => zb32Char_idxOf (hmem c hc)).trans (List.map_id _)

theorem z32Decode_nonCanonical : z32Decode s = .error .nonCanonical ↔
      s.length = 52 ∧ (∀ c ∈ s, c ∈ zb32) ∧ ∃ c ∈ s.getLast?, zb32.idxOf c % 16 ≠ 0 := by
  have hpadding (hreadable : s.length = 52 ∧ ∀ c ∈ s, c ∈ zb32) :
      number32 (s.map zb32.idxOf) % 16 ≠ 0 ↔ ∃ c ∈ s.getLast?, zb32.idxOf c % 16 ≠ 0 := by
    induction s using List.reverseRecOn with
    | nil => exact absurd hreadable.1 (by decide)
    | append_singleton init c _ =>
      have hc := idxOf_lt (hreadable.2 c (by simp))
      rw [List.map_append, List.map_singleton, number32_concat hc, List.getLast?_concat]
      have hmod : (number32 (init.map zb32.idxOf) * 32 + zb32.idxOf c) % 16 = zb32.idxOf c % 16 := by omega
      rw [hmod]
      simp
  constructor
  · intro h
    have hreadable := readable_of_ne h (by simp)
    rw [z32Decode_eq hreadable] at h
    split at h
    · rename_i hne
      exact ⟨hreadable.1, hreadable.2, (hpadding hreadable).mp hne⟩
    · cases h
  · rintro ⟨hlength, hmem, hlast⟩
    rw [z32Decode_eq ⟨hlength, hmem⟩, if_pos ((hpadding ⟨hlength, hmem⟩).mpr hlast)]

end Zbase32

/-- One text for each string of bytes in base 58, for each key as a `did:key`, and for
each key in z-base-32, where a text whose padding is not zero is refused. -/
theorem key_texts : (∀ data, base58Decode (base58Encode data) = some data) ∧
    (∀ text data, base58Decode text = some data → base58Encode data = text) ∧
    (∀ pub, pub.length = 32 → publicFromDidKey (didKeyFromPublic pub) = some pub) ∧
    (∀ did pub, publicFromDidKey did = some pub → pub.length = 32 ∧ didKeyFromPublic pub = did) ∧
    (∀ did did' pub, publicFromDidKey did = some pub → publicFromDidKey did' = some pub → did = did') ∧
    (∀ b, b.length = 32 → (z32Encode b).length = 52 ∧ z32Decode (z32Encode b) = .ok b) ∧
    (∀ s b, z32Decode s = .ok b → b.length = 32 ∧ s.length = 52 ∧ z32Encode b = s) ∧
    (∀ s, z32Decode s = .error .nonCanonical ↔
      s.length = 52 ∧ (∀ c ∈ s, c ∈ zb32) ∧ ∃ c ∈ s.getLast?, zb32.idxOf c % 16 ≠ 0) := by
  refine ⟨base58Decode_encode, fun _ _ => base58Encode_decode, fun _ => publicFromDidKey_didKey, ?_, ?_,
    fun _ => z32Decode_encode, fun _ _ => z32Encode_decode, fun _ => z32Decode_nonCanonical⟩
  · intro did pub h
    obtain ⟨hdid, hlength⟩ := publicFromDidKey_eq h
    exact ⟨hlength, hdid⟩
  · intro did did' pub h h'
    rw [← (publicFromDidKey_eq h).1, (publicFromDidKey_eq h').1]

end Dsip.Pkarr
