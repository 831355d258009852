import Mathlib.Data.Nat.Digits.Lemmas
import Mathlib.Tactic

/-!
# Base 58

Bytes as a number written in base 58, with a `1` for each leading zero byte. Bytes
that do not start with zero are known by their text (`base58Encode_inj`); a digit list is
known by its leading zeros and its value, in any base, so that bytes and texts turn into
each other and back (`base58Decode_encode`, `base58Encode_decode`).
-/

namespace Dsip.Lib

def base58Alphabet : List Char := "123456789ABCDEFGHJKLMNPQRSTUVWXYZabcdefghijkmnopqrstuvwxyz".toList

def base58Char (d : Nat) : Char := base58Alphabet.getD d '1'

/-- The place of a character in the alphabet, which has no `0`, `I`, `O` and `l`. -/
def base58Digit (c : Char) : Option Nat :=
  let n := c.toNat
  if '1'.toNat ≤ n ∧ n ≤ '9'.toNat then some (n - '1'.toNat)
  else if 'A'.toNat ≤ n ∧ n ≤ 'H'.toNat then some (n - 'A'.toNat + 9)
  else if 'J'.toNat ≤ n ∧ n ≤ 'N'.toNat then some (n - 'J'.toNat + 17)
  else if 'P'.toNat ≤ n ∧ n ≤ 'Z'.toNat then some (n - 'P'.toNat + 22)
  else if 'a'.toNat ≤ n ∧ n ≤ 'k'.toNat then some (n - 'a'.toNat + 33)
  else if 'm'.toNat ≤ n ∧ n ≤ 'z'.toNat then some (n - 'm'.toNat + 44)
  else none

/-- Bytes as a number, big-endian. -/
def bytesNat (data : List UInt8) : Nat := Nat.ofDigits 256 (data.reverse.map (·.toNat))

/-- A number as bytes, big-endian, without leading zeros. -/
def natBytes (n : Nat) : List UInt8 := (Nat.digits 256 n).reverse.map UInt8.ofNat

def base58Encode (data : List UInt8) : List Char :=
  List.replicate (data.takeWhile (· = 0)).length '1' ++ (Nat.digits 58 (bytesNat data)).reverse.map base58Char

def base58Decode (text : List Char) : Option (List UInt8) :=
  (text.mapM base58Digit).map fun digits =>
    List.replicate (text.takeWhile (· = '1')).length 0 ++ natBytes (Nat.ofDigits 58 digits.reverse)

theorem base58Digit_char : ∀ d < 58, base58Digit (base58Char d) = some d := by
  decide +kernel

theorem map_base58Char_inj {l m : List Nat} (hl : ∀ d ∈ l, d < 58) (hm : ∀ d ∈ m, d < 58)
    (h : l.map base58Char = m.map base58Char) : l = m := by
  have hback {l : List Nat} (hl : ∀ d ∈ l, d < 58) : (l.map base58Char).map base58Digit = l.map some := by
    rw [List.map_map]
    exact List.map_congr_left fun d hd => base58Digit_char d (hl d hd)
  have hsome := (hback hl).symm.trans ((congrArg (List.map base58Digit) h).trans (hback hm))
  exact List.map_injective_iff.mpr (Option.some_injective _) hsome

theorem bytesNat_inj {x y : List UInt8} (hx : ∀ a ∈ x.head?, a ≠ 0) (hy : ∀ a ∈ y.head?, a ≠ 0)
    (h : bytesNat x = bytesNat y) : x = y := by
  have hdigits {z : List UInt8} (hz : ∀ a ∈ z.head?, a ≠ 0) :
      Nat.digits 256 (bytesNat z) = z.reverse.map (·.toNat) := by
    refine Nat.digits_ofDigits 256 (by decide) _ (fun d hd => ?_) fun hne => ?_
    · obtain ⟨a, -, rfl⟩ := List.mem_map.mp hd
      exact a.toNat_lt
    · cases z with
      | nil => exact absurd rfl hne
      | cons a z =>
        have ha : a.toNat ≠ 0 := fun h0 => hz a rfl (UInt8.toNat_inj.mp h0)
        simpa using ha
  have heq := (hdigits hx).symm.trans ((congrArg (Nat.digits 256) h).trans (hdigits hy))
  exact List.reverse_injective (List.map_injective_iff.mpr (fun a b => UInt8.toNat_inj.mp) heq)

theorem base58Encode_inj {x y : List UInt8} (hx : ∀ a ∈ x.head?, a ≠ 0)
    (hy : ∀ a ∈ y.head?, a ≠ 0) (h : base58Encode x = base58Encode y) : x = y := by
  have hpad {z : List UInt8} (hz : ∀ a ∈ z.head?, a ≠ 0) : z.takeWhile (· = 0) = [] := by
    cases z with
    | nil => rfl
    | cons a z => simp [hz a rfl]
  have hlt (n : Nat) : ∀ d ∈ (Nat.digits 58 n).reverse, d < 58 := fun d hd =>
    Nat.digits_lt_base (by decide) (List.mem_reverse.mp hd)
  unfold base58Encode at h
  rw [hpad hx, hpad hy] at h
  have hdigits := List.reverse_injective (map_base58Char_inj (hlt _) (hlt _) h)
  exact bytesNat_inj hx hy (Nat.digits_inj_iff.mp hdigits)

/-! ## Leading zeros and value -/

section Positional

variable {base n k : Nat} {digits : List Nat}

/-- The digits of a number after so many zeros, most significant first. -/
def positional (base k n : Nat) : List Nat := List.replicate k 0 ++ (Nat.digits base n).reverse

theorem positional_of_digits (hbase : 1 < base) (hlt : ∀ d ∈ digits, d < base) :
    positional base (digits.takeWhile (· = 0)).length (Nat.ofDigits base digits.reverse) = digits := by
  induction digits with
  | nil => simp [positional]
  | cons d digits ih =>
    have hrest := ih fun d' hmem => hlt d' (List.mem_cons_of_mem _ hmem)
    by_cases hd : d = 0
    · rw [hd, List.takeWhile_cons_of_pos (by simp), List.reverse_cons, Nat.ofDigits_append, Nat.ofDigits_singleton,
        Nat.mul_zero, Nat.add_zero, List.length_cons, positional, List.replicate_succ, List.cons_append]
      exact congrArg (0 :: ·) hrest
    · have hdigits : Nat.digits base (Nat.ofDigits base (d :: digits).reverse) = (d :: digits).reverse := by
        refine Nat.digits_ofDigits base hbase _ (fun d' hmem => hlt d' (List.mem_reverse.mp hmem)) fun hne => ?_
        rw [List.getLast_reverse]
        exact hd
      rw [List.takeWhile_cons_of_neg (by simpa using hd), positional, hdigits, List.reverse_reverse]
      rfl

theorem takeWhile_positional : (positional base k n).takeWhile (· = 0) = List.replicate k 0 := by
  unfold positional
  rw [List.takeWhile_append_of_pos (by simp), List.append_right_eq_self]
  cases hrev : (Nat.digits base n).reverse with
  | nil => rfl
  | cons d rest =>
    have hdigits : Nat.digits base n = rest.reverse ++ [d] := by
      rw [← List.reverse_reverse (Nat.digits base n), hrev, List.reverse_cons]
    have hn : n ≠ 0 := by
      rintro rfl
      rw [Nat.digits_zero] at hrev
      cases hrev
    have hlast := Nat.getLast_digit_ne_zero base hn
    have hd : d ≠ 0 := by
      intro h
      simp only [hdigits, List.getLast_append_singleton] at hlast
      exact hlast h
    exact List.takeWhile_cons_of_neg (by simpa using hd)

theorem ofDigits_positional : Nat.ofDigits base (positional base k n).reverse = n := by
  unfold positional
  rw [List.reverse_append, List.reverse_reverse, List.reverse_replicate, Nat.ofDigits_append, Nat.ofDigits_digits,
    Nat.ofDigits_replicate_zero, Nat.mul_zero, Nat.add_zero]

theorem lt_of_mem_positional (hbase : 1 < base) {d : Nat} (h : d ∈ positional base k n) : d < base := by
  rcases List.mem_append.mp h with h | h
  · rw [List.eq_of_mem_replicate h]
    omega
  · exact Nat.digits_lt_base hbase (List.mem_reverse.mp h)

end Positional

theorem base58Char_digit {c : Char} {d : Nat} (h : base58Digit c = some d) : base58Char d = c ∧ d < 58 := by
  have hall : ∀ n : Fin 128, ∀ d ∈ base58Digit (Char.ofNat n), base58Char d = Char.ofNat n ∧ d < 58 := by
    decide +kernel
  have hlt : c.toNat < 128 := by
    have hz : 'z'.toNat < 128 := by decide
    by_contra hle
    have hnone : base58Digit c = none := by
      have hbounds : '9'.toNat < 128 ∧ 'H'.toNat < 128 ∧ 'N'.toNat < 128 ∧ 'Z'.toNat < 128 ∧ 'k'.toNat < 128 := by
        decide
      unfold base58Digit
      rw [if_neg (by omega), if_neg (by omega), if_neg (by omega), if_neg (by omega), if_neg (by omega),
        if_neg (by omega)]
    rw [hnone] at h
    cases h
  have hc := hall ⟨c.toNat, hlt⟩ d
  rw [Char.ofNat_toNat] at hc
  exact hc h

theorem base58Digit_eq_zero {c : Char} : base58Digit c = some 0 ↔ c = '1' := by
  constructor
  · intro h
    exact (base58Char_digit h).1.symm
  · rintro rfl
    decide

theorem base58Encode_eq (data : List UInt8) :
    base58Encode data = (positional 58 (data.takeWhile (· = 0)).length (bytesNat data)).map base58Char := by
  unfold base58Encode positional
  rw [List.map_append, List.map_replicate]
  rfl

theorem base58Decode_eq {text : List Char} {digits : List Nat} (h : text.mapM base58Digit = some digits) :
    base58Decode text = some ((positional 256 (digits.takeWhile (· = 0)).length (Nat.ofDigits 58 digits.reverse)).map
      UInt8.ofNat) := by
  have hzeros : (text.takeWhile (· = '1')).length = (digits.takeWhile (· = 0)).length := by
    induction text generalizing digits with
    | nil =>
      cases h
      rfl
    | cons c text ih =>
      rw [List.mapM_cons] at h
      cases hc : base58Digit c with
      | none =>
        rw [hc] at h
        cases h
      | some d =>
        cases hrest : text.mapM base58Digit with
        | none =>
          rw [hc, hrest] at h
          cases h
        | some rest =>
          rw [hc, hrest] at h
          cases h
          have hiff : c = '1' ↔ d = 0 := by
            rw [← base58Digit_eq_zero, hc, Option.some.injEq]
          by_cases hd : d = 0
          · rw [List.takeWhile_cons_of_pos (by simpa using hiff.mpr hd), List.takeWhile_cons_of_pos (by simpa using hd),
              List.length_cons, List.length_cons, ih hrest]
          · rw [List.takeWhile_cons_of_neg (by simpa using fun h => hd (hiff.mp h)),
              List.takeWhile_cons_of_neg (by simpa using hd)]
            rfl
  unfold base58Decode natBytes positional
  rw [h, hzeros, Option.map_some, List.map_append, List.map_replicate]
  rfl

theorem bytesNat_eq (data : List UInt8) : bytesNat data = Nat.ofDigits 256 (data.map (·.toNat)).reverse := by
  rw [bytesNat, List.map_reverse]

theorem takeWhile_toNat (data : List UInt8) :
    ((data.map (·.toNat)).takeWhile (· = 0)).length = (data.takeWhile (· = 0)).length := by
  rw [List.takeWhile_map, List.length_map]
  congr 2
  funext a
  exact decide_eq_decide.mpr ⟨fun h => UInt8.toNat_inj.mp h, fun h => by rw [h]; rfl⟩

theorem positional_toNat (data : List UInt8) :
    positional 256 (data.takeWhile (· = 0)).length (bytesNat data) = data.map (·.toNat) := by
  rw [bytesNat_eq, ← takeWhile_toNat]
  refine positional_of_digits (by decide) fun d hmem => ?_
  obtain ⟨a, -, rfl⟩ := List.mem_map.mp hmem
  exact a.toNat_lt

theorem map_ofNat_toNat (data : List UInt8) : (data.map (·.toNat)).map UInt8.ofNat = data := by
  rw [List.map_map]
  exact (List.map_congr_left fun a _ => UInt8.ofNat_toNat).trans (List.map_id _)

theorem map_toNat_ofNat {digits : List Nat} (h : ∀ d ∈ digits, d < 256) :
    (digits.map UInt8.ofNat).map (·.toNat) = digits := by
  rw [List.map_map]
  refine (List.map_congr_left fun d hmem => ?_).trans (List.map_id _)
  exact UInt8.toNat_ofNat_of_lt' (h d hmem)

theorem mapM_base58Digit {digits : List Nat} (h : ∀ d ∈ digits, d < 58) :
    (digits.map base58Char).mapM base58Digit = some digits := by
  induction digits with
  | nil => rfl
  | cons d digits ih =>
    rw [List.map_cons, List.mapM_cons, base58Digit_char d (h d List.mem_cons_self),
      ih fun d' hmem => h d' (List.mem_cons_of_mem _ hmem)]
    rfl

theorem map_base58Char {text : List Char} {digits : List Nat} (h : text.mapM base58Digit = some digits) :
    digits.map base58Char = text ∧ ∀ d ∈ digits, d < 58 := by
  induction text generalizing digits with
  | nil =>
    cases h
    exact ⟨rfl, by simp⟩
  | cons c text ih =>
    rw [List.mapM_cons] at h
    cases hc : base58Digit c with
    | none =>
      rw [hc] at h
      cases h
    | some d =>
      cases hrest : text.mapM base58Digit with
      | none =>
        rw [hc, hrest] at h
        cases h
      | some rest =>
        rw [hc, hrest] at h
        cases h
        obtain ⟨hchar, hlt⟩ := base58Char_digit hc
        obtain ⟨hmap, hrestLt⟩ := ih hrest
        exact ⟨by rw [List.map_cons, hchar, hmap], List.forall_mem_cons.mpr ⟨hlt, hrestLt⟩⟩

theorem base58Decode_encode (data : List UInt8) : base58Decode (base58Encode data) = some data := by
  have hlt (d : Nat) (hmem : d ∈ positional 58 (data.takeWhile (· = 0)).length (bytesNat data)) : d < 58 :=
    lt_of_mem_positional (by decide) hmem
  rw [base58Encode_eq, base58Decode_eq (mapM_base58Digit hlt), takeWhile_positional, ofDigits_positional,
    List.length_replicate, positional_toNat, map_ofNat_toNat]

theorem base58Encode_decode {text : List Char} {data : List UInt8} (h : base58Decode text = some data) :
    base58Encode data = text := by
  cases hdigits : text.mapM base58Digit with
  | none =>
    rw [base58Decode, hdigits] at h
    cases h
  | some digits =>
    obtain ⟨hmap, hlt⟩ := map_base58Char hdigits
    rw [base58Decode_eq hdigits] at h
    cases h
    rw [base58Encode_eq, ← takeWhile_toNat, bytesNat_eq, map_toNat_ofNat fun d => lt_of_mem_positional (by decide),
      takeWhile_positional, ofDigits_positional, List.length_replicate,
      positional_of_digits (by decide) hlt, hmap]

end Dsip.Lib
