import Dsip.Lib.Encoders
import Dsip.Lib.Fields

/-!
# What a sealed presence record is bound to

The associated data of a sealed record and of a grant's keys, and the inputs that a key and the
name of an audience are derived from, are texts with a zero byte between them. No text has one of
its own, so that each determines what it was made of (`sealed_bound`).
-/

namespace Dsip.Broadcast

open Dsip.Lib Dsip.Lib.Fields

abbrev Bytes := List UInt8

/-- The fields of a sealed record that its associated data binds. -/
structure SealedRecord where
  subject : String
  device : String
  audience : Option String
  kid : String
  seq : Nat
  expiresAt : Nat
  deriving DecidableEq, Repr

/-- `str.encode`. -/
def encode (text : String) : Bytes := utf8Encode text.toList

/-- `b"\0".join`. -/
def join (parts : List Bytes) : Bytes := [0].intercalate parts

def recordAad (r : SealedRecord) : Option Bytes := do
  let seq ← pack 8 r.seq
  let expiresAt ← pack 8 r.expiresAt
  return join [encode "dsip presence v1", encode r.subject, encode r.device, encode (r.audience.getD ""), encode r.kid] ++
    ([0] ++ (seq ++ expiresAt))

/-- The associated data of `open_grant_keys`. -/
def grantAad (id grantor grantee : String) : Bytes := join [encode id, encode grantor, encode grantee]

/-- What `presence_key` is derived from. -/
def keyInfo (subject kid : String) : Bytes := join [encode "dsip presence key v1", encode subject, encode kid]

/-- What `audience_tag` is derived from. -/
def tagInfo (subject label : String) : Bytes := join [encode "dsip presence audience v1", encode subject, encode label]

namespace Ts

def joined (parts : List String) : Bytes :=
  (parts.zipIdx.flatMap fun (part, i) => if i = 0 then [encode part] else [[0], encode part]).flatten

def recordAad (r : SealedRecord) : Option Bytes := do
  let seq ← pack 8 r.seq
  let expiresAt ← pack 8 r.expiresAt
  return joined ["dsip presence v1", r.subject, r.device, r.audience.getD "", r.kid] ++ ([0] ++ (seq ++ expiresAt))

end Ts

/-! ## Texts without a zero -/

def Clear (text : String) : Prop := Char.ofNat 0 ∉ text.toList

instance (text : String) : Decidable (Clear text) := inferInstanceAs (Decidable (_ ∉ _))

theorem encode_inj {s t : String} (h : encode s = encode t) : s = t := String.toList_inj.mp (utf8Encode_injective h)

theorem Clear.zero_notMem {text : String} (h : Clear text) : 0 ∉ encode text := by
  intro hzero
  obtain ⟨c, hc, hbyte⟩ := List.mem_flatMap.mp hzero
  have hmem : 0 ∈ (String.utf8EncodeChar c).map UInt8.toNat := List.mem_map.mpr ⟨0, hbyte, rfl⟩
  rw [encodeChar_eq] at hmem
  have hnul : c.toNat = 0 := by
    split at hmem
    · exact (List.mem_singleton.mp hmem).symm
    · split at hmem
      · simp at hmem
      · split at hmem <;> simp at hmem
  refine h ?_
  rwa [← show c = Char.ofNat 0 by rw [← hnul, Char.ofNat_toNat]]

theorem Clear.split {s t : String} {r r' : Bytes} (hs : Clear s) (ht : Clear t)
    (h : encode s ++ 0 :: r = encode t ++ 0 :: r') : s = t ∧ r = r' := by
  have hended : ∀ {u : String}, Clear u → ended 0 (encode u) = some (encode u ++ [0]) := by
    intro u hu
    exact ended_eq_some.mpr ⟨hu.zero_notMem, rfl⟩
  obtain ⟨heq, hrest⟩ := separates_ended 0 _ _ _ _ _ _ (hended hs) (hended ht) (by simpa using h)
  exact ⟨encode_inj heq, hrest⟩

theorem joined_eq (parts : List String) : Ts.joined parts = join (parts.map encode) := by
  have hlater : ∀ (l : List String) (n : Nat),
      ((l.zipIdx (n + 1)).flatMap fun (part, i) => if i = 0 then [encode part] else [[0], encode part]).flatten =
        l.flatMap fun part => 0 :: encode part := by
    intro l
    induction l with
    | nil => exact fun _ => rfl
    | cons part l ih =>
      intro n
      simp [List.zipIdx_cons, ih]
  have hjoin : ∀ (l : List String) (first : Bytes),
      join (first :: l.map encode) = first ++ l.flatMap fun part => 0 :: encode part := by
    intro l
    induction l with
    | nil => simp [join, List.intercalate]
    | cons part l ih =>
      intro first
      have hnext := ih (encode part)
      simp only [join, List.intercalate, List.map_cons, List.intersperse] at hnext ⊢
      simp [hnext]
  cases parts with
  | nil => rfl
  | cons part parts =>
    rw [List.map_cons, hjoin]
    simp [Ts.joined, List.zipIdx_cons, hlater]

/-- The fields of a record are texts without a zero. -/
structure SealedRecord.Clean (r : SealedRecord) : Prop where
  subject : Clear r.subject
  device : Clear r.device
  audience : Clear (r.audience.getD "")
  kid : Clear r.kid

theorem recordAad_eq_some {r : SealedRecord} {b : Bytes} : recordAad r = some b ↔ ∃ seq expires,
    pack 8 r.seq = some seq ∧ pack 8 r.expiresAt = some expires ∧
      encode "dsip presence v1" ++ 0 :: (encode r.subject ++ 0 :: (encode r.device ++ 0 ::
        (encode (r.audience.getD "") ++ 0 :: (encode r.kid ++ 0 :: (seq ++ expires))))) = b := by
  unfold recordAad
  simp [Option.bind_eq_some_iff, join, List.intercalate, List.intersperse]

/-- **What a record, a grant's keys, a key and an audience are bound to.** Both programs make the same
associated data of a record; it determines the record, an audience that is missing counting as the
empty one; that of a grant its id and its parties; what a key and an audience's name are derived
from the subject and the key id or the label, and it is never the same for both. -/
theorem sealed_bound : (∀ r, Ts.recordAad r = recordAad r) ∧
    (∀ r r' b, r.Clean → r'.Clean → recordAad r = some b → recordAad r' = some b →
      r.subject = r'.subject ∧ r.device = r'.device ∧ r.audience.getD "" = r'.audience.getD "" ∧ r.kid = r'.kid ∧
        r.seq = r'.seq ∧ r.expiresAt = r'.expiresAt) ∧
    (∀ id grantor grantee id' grantor' grantee', Clear id → Clear grantor → Clear id' → Clear grantor' →
      grantAad id grantor grantee = grantAad id' grantor' grantee' → id = id' ∧ grantor = grantor' ∧ grantee = grantee') ∧
    (∀ subject x subject' x', Clear subject → Clear subject' →
      (keyInfo subject x = keyInfo subject' x' → subject = subject' ∧ x = x') ∧
      (tagInfo subject x = tagInfo subject' x' → subject = subject' ∧ x = x')) ∧
    ∀ subject kid subject' label, keyInfo subject kid ≠ tagInfo subject' label := by
  have hthree : ∀ a b c : String, join [encode a, encode b, encode c] =
      encode a ++ 0 :: (encode b ++ 0 :: encode c) := by
    intro a b c
    simp [join, List.intercalate, List.intersperse]
  refine ⟨fun r => ?_, ?_, ?_, ?_, ?_⟩
  · unfold Ts.recordAad recordAad
    rw [joined_eq]
    rfl
  · intro r r' b hr hr' h h'
    obtain ⟨seq, expires, hseq, hexpires, rfl⟩ := recordAad_eq_some.mp h
    obtain ⟨seq', expires', hseq', hexpires', heq⟩ := recordAad_eq_some.mp h'
    have hrest := List.append_cancel_left heq
    rw [List.cons.injEq] at hrest
    obtain ⟨hsubject, hrest⟩ := hr'.subject.split hr.subject hrest.2
    obtain ⟨hdevice, hrest⟩ := hr'.device.split hr.device hrest
    obtain ⟨haudience, hrest⟩ := hr'.audience.split hr.audience hrest
    obtain ⟨hkid, hrest⟩ := hr'.kid.split hr.kid hrest
    -- the numbers may hold a zero byte, but have eight bytes each
    obtain ⟨hs, hrest⟩ := separates_pack 8 _ _ _ _ _ _ hseq' hseq hrest
    rw [hrest] at hexpires'
    have he := (separates_pack 8).inj hexpires' hexpires
    exact ⟨hsubject.symm, hdevice.symm, haudience.symm, hkid.symm, hs.symm, he.symm⟩
  · intro id grantor grantee id' grantor' grantee' hid hgrantor hid' hgrantor' h
    unfold grantAad at h
    rw [hthree, hthree] at h
    obtain ⟨rfl, hparties⟩ := hid.split hid' h
    obtain ⟨rfl, hgrantee⟩ := hgrantor.split hgrantor' hparties
    exact ⟨rfl, rfl, encode_inj hgrantee⟩
  · intro subject x subject' x' hs hs'
    have hsame : ∀ label : String, Clear label → join [encode label, encode subject, encode x] =
        join [encode label, encode subject', encode x'] → subject = subject' ∧ x = x' := by
      intro label hlabel h
      rw [hthree, hthree] at h
      obtain ⟨-, hrest⟩ := hlabel.split hlabel h
      obtain ⟨rfl, hx⟩ := hs.split hs' hrest
      exact ⟨rfl, encode_inj hx⟩
    exact ⟨hsame _ (by decide), hsame _ (by decide)⟩
  · intro subject kid subject' label h
    unfold keyInfo tagInfo at h
    rw [hthree, hthree] at h
    obtain ⟨hlabel, -⟩ := Clear.split (by decide) (by decide) h
    exact absurd hlabel (by decide)

end Dsip.Broadcast
