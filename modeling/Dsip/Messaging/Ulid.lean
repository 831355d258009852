import Dsip.Lib.BigEndian
import Dsip.Lib.Radix
import Dsip.Messaging.Successor

/-!
# ULIDs

A ULID is a timestamp and 10 random bytes in 26 Crockford digits. The alphabet is in code-point
order and the width is fixed, so the texts are ordered as the numbers are (`ulid_order`).
-/

namespace Dsip.Messaging

open Dsip.Lib

namespace Ulid

/-! ## The source -/

def crockford : List Char := "0123456789ABCDEFGHJKMNPQRSTVWXYZ".toList

/-- `CROCKFORD[d]`. -/
def digitChar (d : Nat) : Char := crockford.getD d '0'

/-- `_DECODE`. -/
def decodeDigit (c : Char) : Option Nat := crockford.idxOf? c

/-- The loop of `encode`; the digits come out last first. -/
def encodeDigits : Nat → Nat → List Char → List Char
  | 0, _, out => out
  | k + 1, n, out => encodeDigits k (n >>> 5) (digitChar (n &&& 31) :: out)

def encode (tsMs : Int) (rand : List UInt8) : Option String :=
  if rand.length = 10 ∧ 0 ≤ tsMs ∧ tsMs < 2 ^ 48 then
    some (String.ofList (encodeDigits 26 (tsMs.toNat <<< 80 ||| BigEndian.value rand) []))
  else none

def isValid (s : String) : Bool := isUlid s.toList

/-- `timestamp_ms`; nothing where a digit is none. -/
def timestampMs (s : String) : Option Nat :=
  (s.toList.take 10).foldlM (fun n c => (decodeDigit c).map fun d => n <<< 5 ||| d) 0

/-! ## Digits -/

def digitValue (c : Char) : Nat := (decodeDigit c).getD 0

/-- The number that a ULID's text stands for. -/
def number (s : String) : Nat := radix 32 (s.toList.map digitValue)

theorem decodeDigit_digitChar : ∀ d < 32, decodeDigit (digitChar d) = some d := by
  decide +kernel

theorem digitChar_lt : ∀ d < 32, ∀ e < 32, digitChar d < digitChar e ↔ d < e := by
  decide +kernel

theorem isCrockford_digitChar : ∀ d < 32, isCrockford (digitChar d) = true := by
  decide +kernel

theorem first_digitChar : ∀ d < 32, ('0' ≤ digitChar d && digitChar d ≤ '7') = decide (d < 8) := by
  decide +kernel

theorem exists_digit {c : Char} (h : isCrockford c = true) : ∃ d < 32, c = digitChar d := by
  have hall : ∀ n < 0x80, isCrockford (Char.ofNat n) = true → ∃ d < 32, Char.ofNat n = digitChar d := by
    decide +kernel
  have hn : c.toNat < 0x80 := by
    have hz : c ≤ 'Z' := by
      simp only [isCrockford, decide_eq_true_eq] at h
      rcases h with ⟨-, h⟩ | ⟨-, h⟩ | ⟨-, h⟩ | ⟨-, h⟩ | ⟨-, h⟩ | ⟨-, h⟩
      · exact h.trans (by decide)
      · exact h.trans (by decide)
      · exact h.trans (by decide)
      · exact h.trans (by decide)
      · exact h.trans (by decide)
      · exact h
    have hle : c.toNat ≤ 'Z'.toNat := hz
    exact lt_of_le_of_lt hle (by decide)
  have hc := hall c.toNat hn
  rw [Char.ofNat_toNat] at hc
  exact hc h

theorem digitValue_digitChar {d : Nat} (h : d < 32) : digitValue (digitChar d) = d := by
  rw [digitValue, decodeDigit_digitChar d h]
  rfl

/-! ## Texts of digits -/

def text (ds : List Nat) : String := String.ofList (ds.map digitChar)

/-- The digits of a 128-bit number: 26 of them, where the first has three bits. -/
structure IsDigits (ds : List Nat) : Prop where
  length : ds.length = 26
  lt : ∀ d ∈ ds, d < 32
  first : radix 32 ds < 2 ^ 128

variable {ds : List Nat}

theorem radix_lt_iff_first {d : Nat} (hlength : ds.length = 25) (h : ∀ e ∈ ds, e < 32) :
    radix 32 (d :: ds) < 2 ^ 128 ↔ d < 8 := by
  have hds := radix_lt h
  rw [hlength] at hds
  rw [radix_cons, hlength]
  norm_num at hds ⊢
  omega

theorem isValid_text (h : IsDigits ds) : isValid (text ds) = true := by
  obtain ⟨hlength, hlt, hfirst⟩ := h
  cases ds with
  | nil => simp at hlength
  | cons d ds =>
    have hlength : ds.length = 25 := by simpa using hlength
    have hds : ∀ e ∈ ds, e < 32 := fun e he => hlt e (List.mem_cons_of_mem _ he)
    have hd : d < 8 := (radix_lt_iff_first hlength hds).mp hfirst
    have hall : (ds.map digitChar).all isCrockford = true := by
      rw [List.all_map, List.all_eq_true]
      intro e he
      exact isCrockford_digitChar e (hds e he)
    unfold isValid text
    rw [String.toList_ofList, List.map_cons]
    show ('0' ≤ digitChar d && digitChar d ≤ '7' && (ds.map digitChar).length == 25 && _) = true
    rw [first_digitChar d (by omega), hall]
    simp [hd, hlength]

theorem exists_digits {s : String} (h : isValid s = true) : ∃ ds, IsDigits ds ∧ s = text ds := by
  have hdigits (cs : List Char) (hcs : cs.all isCrockford = true) : ∃ ds : List Nat, (∀ d ∈ ds, d < 32) ∧ cs = ds.map digitChar := by
    induction cs with
    | nil => exact ⟨[], by simp, rfl⟩
    | cons c cs ih =>
      rw [List.all_cons, Bool.and_eq_true] at hcs
      obtain ⟨d, hd, rfl⟩ := exists_digit hcs.1
      obtain ⟨ds, hds, rfl⟩ := ih hcs.2
      refine ⟨d :: ds, ?_, rfl⟩
      intro e he
      rcases List.mem_cons.mp he with rfl | he
      · exact hd
      · exact hds e he
  unfold isValid at h
  cases hs : s.toList with
  | nil =>
    rw [hs] at h
    cases h
  | cons c cs =>
    rw [hs] at h
    simp only [isUlid, Bool.and_eq_true, beq_iff_eq] at h
    obtain ⟨⟨⟨hlow, hhigh⟩, hlength⟩, hall⟩ := h
    have hfirst : isCrockford c = true := by
      simp only [isCrockford, decide_eq_true_eq]
      exact .inl ⟨of_decide_eq_true hlow, (of_decide_eq_true hhigh).trans (by decide)⟩
    obtain ⟨d, hd, rfl⟩ := exists_digit hfirst
    obtain ⟨ds, hds, rfl⟩ := hdigits cs hall
    have hlength : ds.length = 25 := by simpa using hlength
    have hsmall : d < 8 := by
      have h8 := first_digitChar d hd
      rw [hlow, hhigh] at h8
      exact of_decide_eq_true h8.symm
    refine ⟨d :: ds, ⟨by simp [hlength], ?_, (radix_lt_iff_first hlength hds).mpr hsmall⟩, ?_⟩
    · intro e he
      rcases List.mem_cons.mp he with rfl | he
      · exact hd
      · exact hds e he
    · rw [text, List.map_cons, ← hs, String.ofList_toList]

theorem number_text (h : ∀ d ∈ ds, d < 32) : number (text ds) = radix 32 ds := by
  have hvalues : (ds.map digitChar).map digitValue = ds := by
    rw [List.map_map]
    conv_rhs => rw [← List.map_id ds]
    refine List.map_congr_left fun d hd => ?_
    exact digitValue_digitChar (h d hd)
  unfold number text
  rw [String.toList_ofList, hvalues]

theorem text_lt_text {es : List Nat} (hds : ∀ d ∈ ds, d < 32) (hes : ∀ e ∈ es, e < 32) :
    text ds < text es ↔ ds < es := by
  show (text ds).toList < (text es).toList ↔ _
  unfold text
  rw [String.toList_ofList, String.toList_ofList]
  refine map_lt_map (fun d hd e he => digitChar_lt d (hds d hd) e (hes e he)) fun d hd e he => ?_
  constructor
  · intro heq
    rw [← digitValue_digitChar (hds d hd), heq, digitValue_digitChar (hes e he)]
  · rintro rfl
    rfl

/-! ## Encoding and decoding -/

theorem encodeDigits_eq (k n : Nat) (out : List Char) :
    encodeDigits k n out = (radixDigits 32 k n).map digitChar ++ out := by
  induction k generalizing n out with
  | zero => rfl
  | succ k ih =>
    have hlast : n &&& 31 = n % 32 := Nat.and_two_pow_sub_one_eq_mod n 5
    have hrest : n >>> 5 = n / 32 := Nat.shiftRight_eq_div_pow n 5
    rw [encodeDigits, ih, hlast, hrest, radixDigits, List.map_append]
    simp

/-- The number of a timestamp and its randomness. -/
def pack (ts : Nat) (rand : List UInt8) : Nat := ts * 2 ^ 80 + BigEndian.value rand

theorem value_lt_of_length {rand : List UInt8} (h : rand.length = 10) : BigEndian.value rand < 2 ^ 80 := by
  have hlt := BigEndian.value_lt rand
  rw [h] at hlt
  calc BigEndian.value rand < 256 ^ 10 := hlt
    _ = 2 ^ 80 := by norm_num

theorem shiftLeft_or_eq_pack {ts : Nat} {rand : List UInt8} (h : rand.length = 10) :
    ts <<< 80 ||| BigEndian.value rand = pack ts rand := by
  rw [← Nat.shiftLeft_add_eq_or_of_lt (value_lt_of_length h), Nat.shiftLeft_eq]
  rfl

theorem encode_eq_some {tsMs : Int} {rand : List UInt8} {s : String} : encode tsMs rand = some s ↔
      (rand.length = 10 ∧ 0 ≤ tsMs ∧ tsMs < 2 ^ 48) ∧ s = text (radixDigits 32 26 (pack tsMs.toNat rand)) := by
  unfold encode
  by_cases h : rand.length = 10 ∧ 0 ≤ tsMs ∧ tsMs < 2 ^ 48
  · rw [if_pos h, encodeDigits_eq, List.append_nil, shiftLeft_or_eq_pack h.1, Option.some_inj, eq_comm]
    exact (and_iff_right h).symm
  · rw [if_neg h]
    constructor
    · intro hnone
      cases hnone
    · intro hboth
      exact absurd hboth.1 h

theorem isDigits_pack {ts : Nat} {rand : List UInt8} (hts : ts < 2 ^ 48) (hrand : rand.length = 10) :
    IsDigits (radixDigits 32 26 (pack ts rand)) ∧ radix 32 (radixDigits 32 26 (pack ts rand)) = pack ts rand := by
  have hvalue := value_lt_of_length hrand
  have hpack : pack ts rand < 2 ^ 128 := by
    unfold pack
    norm_num at hts hvalue ⊢
    omega
  have hfits : pack ts rand < 32 ^ 26 := hpack.trans (by norm_num)
  have hradix := radix_radixDigits 32 hfits
  refine ⟨⟨length_radixDigits 32 26 _, fun d hd => lt_of_mem_radixDigits (by omega) hd, ?_⟩, hradix⟩
  rw [hradix]
  exact hpack

theorem timestampMs_text (h : IsDigits ds) : timestampMs (text ds) = some (radix 32 ds / 2 ^ 80) := by
  have hfold (es : List Nat) (hes : ∀ e ∈ es, e < 32) (n : Nat) :
      (es.map digitChar).foldlM (fun n c => (decodeDigit c).map fun d => n <<< 5 ||| d) n =
        some (es.foldl (fun n d => n * 32 + d) n) := by
    induction es generalizing n with
    | nil => rfl
    | cons e es ih =>
      have he : e < 32 := hes e List.mem_cons_self
      have hor : n <<< 5 ||| e = n * 32 + e := by
        rw [← Nat.shiftLeft_add_eq_or_of_lt (i := 5) he, Nat.shiftLeft_eq]
      rw [List.map_cons, List.foldlM_cons, decodeDigit_digitChar e he, Option.map_some, hor]
      exact ih (fun e' he' => hes e' (List.mem_cons_of_mem _ he')) (n * 32 + e)
  have hsplit := radix_append 32 (ds.take 10) (ds.drop 10)
  have hrest : radix 32 (ds.drop 10) < 32 ^ (ds.drop 10).length := radix_lt fun d hd => h.lt d (List.mem_of_mem_drop hd)
  rw [List.length_drop, h.length] at hrest
  rw [List.take_append_drop, List.length_drop, h.length] at hsplit
  have hpower : (32 : Nat) ^ (26 - 10) = 2 ^ 80 := by norm_num
  rw [hpower] at hsplit hrest
  unfold timestampMs text
  rw [String.toList_ofList, ← List.map_take, hfold _ (fun d hd => h.lt d (List.mem_of_mem_take hd)), Option.some_inj, hsplit]
  show radix 32 (ds.take 10) = _
  rw [mul_comm, Nat.mul_add_div (by norm_num), Nat.div_eq_of_lt hrest, add_zero]

theorem exists_pack {n : Nat} (h : n < 2 ^ 128) :
    ∃ ts rand, ts < 2 ^ 48 ∧ rand.length = 10 ∧ pack ts rand = n := by
  refine ⟨n / 2 ^ 80, BigEndian.bytes 10 (n % 2 ^ 80), ?_, BigEndian.length_bytes 10 _, ?_⟩
  · norm_num at h ⊢
    omega
  · have hrest : n % 2 ^ 80 < 256 ^ 10 := lt_of_lt_of_eq (Nat.mod_lt _ (by norm_num)) (by norm_num)
    rw [pack, BigEndian.value_bytes hrest]
    exact Nat.div_add_mod' n (2 ^ 80)

theorem pack_injective {ts ts' : Nat} {rand rand' : List UInt8} (hrand : rand.length = 10) (hrand' : rand'.length = 10)
    (h : pack ts rand = pack ts' rand') : ts = ts' ∧ rand = rand' := by
  have hvalue := value_lt_of_length hrand
  have hvalue' := value_lt_of_length hrand'
  unfold pack at h
  have hboth : ts = ts' ∧ BigEndian.value rand = BigEndian.value rand' := by
    norm_num at h hvalue hvalue'
    omega
  refine ⟨hboth.1, ?_⟩
  rw [← BigEndian.bytes_value rand, ← BigEndian.bytes_value rand', hrand, hrand', hboth.2]

theorem lt_iff_number_lt {s u : String} (hs : isValid s = true) (hu : isValid u = true) :
    s < u ↔ number s < number u := by
  obtain ⟨ds, hds, rfl⟩ := exists_digits hs
  obtain ⟨es, hes, rfl⟩ := exists_digits hu
  rw [number_text hds.lt, number_text hes.lt, text_lt_text hds.lt hes.lt]
  exact (radix_lt_radix (hds.length.trans hes.length.symm) hds.lt hes.lt).symm

theorem encode_spec {tsMs : Int} {rand : List UInt8} {s : String} (h : encode tsMs rand = some s) :
    isValid s = true ∧ number s = pack tsMs.toNat rand ∧ timestampMs s = some tsMs.toNat := by
  obtain ⟨⟨hrand, hlow, hhigh⟩, rfl⟩ := encode_eq_some.mp h
  have hlt : tsMs.toNat < 2 ^ 48 := by omega
  obtain ⟨hdigits, hradix⟩ := isDigits_pack hlt hrand
  refine ⟨isValid_text hdigits, ?_, ?_⟩
  · rw [number_text hdigits.lt, hradix]
  · have hvalue := value_lt_of_length hrand
    rw [timestampMs_text hdigits, hradix, pack, mul_comm, Nat.mul_add_div (by norm_num), Nat.div_eq_of_lt hvalue, add_zero]

/-- The order of ULIDs is the order of their numbers, so of their times. -/
theorem ulid_order : (∀ (tsMs : Int) (rand : List UInt8), 0 ≤ tsMs → tsMs < 2 ^ 48 → rand.length = 10 →
      ∃ s, encode tsMs rand = some s ∧ isValid s = true ∧ timestampMs s = some tsMs.toNat ∧
        number s = tsMs.toNat * 2 ^ 80 + BigEndian.value rand) ∧
    (∀ s u : String, isValid s = true → isValid u = true →
      number s < 2 ^ 128 ∧ (s < u ↔ number s < number u)) ∧
    (∀ (tsMs tsMs' : Int) (rand rand' : List UInt8) (s u : String), encode tsMs rand = some s →
      encode tsMs' rand' = some u → tsMs < tsMs' → s < u) ∧
    ∀ s : String, isValid s = true → ∃! p : Int × List UInt8, encode p.1 p.2 = some s := by
  refine ⟨?_, ?_, ?_, ?_⟩
  · intro tsMs rand hlow hhigh hrand
    have hencode := encode_eq_some.mpr ⟨⟨hrand, hlow, hhigh⟩, rfl⟩
    obtain ⟨hvalid, hnumber, htime⟩ := encode_spec hencode
    exact ⟨_, hencode, hvalid, htime, hnumber⟩
  · intro s u hs hu
    obtain ⟨ds, hds, hsds⟩ := exists_digits hs
    refine ⟨?_, lt_iff_number_lt hs hu⟩
    rw [hsds, number_text hds.lt]
    exact hds.first
  · intro tsMs tsMs' rand rand' s u hs hu hlt
    obtain ⟨hvalid, hnumber, -⟩ := encode_spec hs
    obtain ⟨hvalid', hnumber', -⟩ := encode_spec hu
    obtain ⟨⟨hrand, hlow, -⟩, -⟩ := encode_eq_some.mp hs
    have hvalue := value_lt_of_length hrand
    have hmore : tsMs.toNat + 1 ≤ tsMs'.toNat := by omega
    rw [lt_iff_number_lt hvalid hvalid', hnumber, hnumber', pack, pack]
    norm_num at hvalue ⊢
    omega
  · intro s hs
    obtain ⟨ds, hds, rfl⟩ := exists_digits hs
    obtain ⟨ts, rand, hts, hrand, hpack⟩ := exists_pack hds.first
    have hdigits : radixDigits 32 26 (pack ts rand) = ds := by
      rw [hpack, ← hds.length]
      exact radixDigits_radix hds.lt
    have hencode : encode (ts : Int) rand = some (text ds) := by
      rw [encode_eq_some]
      refine ⟨⟨hrand, by omega, by exact_mod_cast hts⟩, ?_⟩
      rw [Int.toNat_natCast, hdigits]
    refine ⟨(ts, rand), hencode, ?_⟩
    rintro ⟨tsMs', rand'⟩ h
    -- both pairs have the number of the text
    obtain ⟨⟨hrand', hlow', -⟩, -⟩ := encode_eq_some.mp h
    have hsame : pack tsMs'.toNat rand' = pack ts rand := by
      rw [← (encode_spec h).2.1, (encode_spec hencode).2.1, Int.toNat_natCast]
    obtain ⟨hts', rfl⟩ := pack_injective hrand' hrand hsame
    have hint : tsMs' = (ts : Int) := by omega
    rw [hint]

end Ulid

end Dsip.Messaging
