import Mathlib.Tactic

/-!
# Numbers as bytes, most significant first

Unsigned numbers and numbers in two's complement, of a given width and of the
least width that holds them.
-/

namespace Dsip.Lib.BigEndian

/-- The number that bytes stand for. -/
def value (c : List UInt8) : Nat := c.foldl (fun n x => n * 256 + x.toNat) 0

/-- A number in so many bytes; what does not fit is cut off. -/
def bytes : Nat → Nat → List UInt8
  | 0, _ => []
  | width + 1, n => bytes width (n / 256) ++ [UInt8.ofNat n]

section Value

variable {c d : List UInt8} {x : UInt8}

@[simp] theorem value_nil : value [] = 0 := rfl

theorem value_concat : value (c ++ [x]) = value c * 256 + x.toNat := by
  simp [value]

theorem value_append : value (c ++ d) = value c * 256 ^ d.length + value d := by
  induction d using List.reverseRecOn with
  | nil => simp
  | append_singleton d x ih =>
    rw [← List.append_assoc, value_concat, value_concat, ih, List.length_append, List.length_singleton,
      pow_succ]
    ring

theorem value_cons : value (x :: c) = x.toNat * 256 ^ c.length + value c := by
  have h := value_append (c := [x]) (d := c)
  simpa [value] using h

theorem value_lt (c : List UInt8) : value c < 256 ^ c.length := by
  induction c using List.reverseRecOn with
  | nil => simp
  | append_singleton c x ih =>
    have hx := x.toNat_lt
    rw [value_concat, List.length_append, List.length_singleton, pow_succ]
    omega

end Value

section Bytes

variable {n width : Nat}

@[simp] theorem length_bytes (width n : Nat) : (bytes width n).length = width := by
  induction width generalizing n with
  | zero => rfl
  | succ width ih => simp [bytes, ih]

theorem value_bytes (h : n < 256 ^ width) : value (bytes width n) = n := by
  induction width generalizing n with
  | zero =>
    have hn : n = 0 := by simpa using h
    rw [hn]
    rfl
  | succ width ih =>
    have hquotient : n / 256 < 256 ^ width := by
      rw [pow_succ] at h
      omega
    have hlast : (UInt8.ofNat n).toNat = n % 256 := UInt8.toNat_ofNat'
    rw [bytes, value_concat, ih hquotient, hlast]
    omega

theorem bytes_value (c : List UInt8) : bytes c.length (value c) = c := by
  induction c using List.reverseRecOn with
  | nil => rfl
  | append_singleton c x ih =>
    have hx := x.toNat_lt
    have hquotient : (value c * 256 + x.toNat) / 256 = value c := by omega
    have hlast : UInt8.ofNat (value c * 256 + x.toNat) = x := by
      apply UInt8.toNat_inj.mp
      rw [UInt8.toNat_ofNat']
      omega
    rw [value_concat, List.length_append, List.length_singleton, bytes, hquotient, ih, hlast]

end Bytes

/-! ## The least width -/

/-- The number of bits of a number; none for zero. -/
def bitLength (n : Nat) : Nat := if n = 0 then 0 else n.log2 + 1

/-- The number of bytes of a number; none for zero. -/
def byteLength (n : Nat) : Nat := (bitLength n + 7) / 8

section Width

variable {n k : Nat}

theorem bitLength_le_iff : bitLength n ≤ k ↔ n < 2 ^ k := by
  unfold bitLength
  by_cases hn : n = 0
  · simp [hn]
  · rw [if_neg hn, ← Nat.log2_lt hn]
    omega

theorem byteLength_le_iff : byteLength n ≤ k ↔ n < 256 ^ k := by
  have hpow : (256 : Nat) ^ k = 2 ^ (8 * k) := by
    rw [pow_mul]
    rfl
  rw [hpow, ← bitLength_le_iff]
  unfold byteLength
  omega

theorem lt_byteLength (n : Nat) : n < 256 ^ byteLength n := byteLength_le_iff.mp (le_refl _)

end Width

/-! ## Two's complement -/

def negative (c : List UInt8) : Bool := 128 ≤ (c.headD 0).toNat

/-- The number that bytes stand for in two's complement. -/
def signedValue (c : List UInt8) : Int :=
  if negative c then value c - 256 ^ c.length else value c

/-- The numbers of a width in two's complement. -/
def Fits (width : Nat) (v : Int) : Prop := -(2 ^ (8 * width - 1)) ≤ v ∧ v < 2 ^ (8 * width - 1)

instance (width : Nat) (v : Int) : Decidable (Fits width v) := inferInstanceAs (Decidable (_ ∧ _))

/-- A number in two's complement, in so many bytes. -/
def signedBytes (width : Nat) (v : Int) : List UInt8 := bytes width (v % 256 ^ width).toNat

section Signed

variable {c : List UInt8} {v : Int} {width : Nat}

theorem pow_half (hwidth : 0 < width) : (256 : Int) ^ width = 2 * 2 ^ (8 * width - 1) := by
  have hpow : (256 : Int) ^ width = 2 ^ (8 * width) := by
    rw [pow_mul]
    rfl
  rw [hpow, ← pow_succ']
  congr 1
  omega

theorem negative_iff (hc : c ≠ []) : negative c = true ↔ (2 : Int) ^ (8 * c.length - 1) ≤ value c := by
  obtain ⟨x, rest, rfl⟩ := List.exists_cons_of_ne_nil hc
  have hrest := value_lt rest
  have hbit : (2 : Nat) ^ (8 * (x :: rest).length - 1) = 128 * 256 ^ rest.length := by
    have hpow : (256 : Nat) ^ rest.length = 2 ^ (8 * rest.length) := by
      rw [pow_mul]
      rfl
    rw [hpow, List.length_cons, show 8 * (rest.length + 1) - 1 = 7 + 8 * rest.length by omega, pow_add]
    rfl
  rw [show (2 : Int) ^ (8 * (x :: rest).length - 1) = ((2 ^ (8 * (x :: rest).length - 1) : Nat) : Int) by
    push_cast; rfl, Int.ofNat_le, hbit, value_cons]
  unfold negative
  rw [decide_eq_true_eq, List.headD_cons]
  generalize 256 ^ rest.length = p at hrest
  constructor
  · intro hx
    calc 128 * p ≤ x.toNat * p := Nat.mul_le_mul_right p hx
      _ ≤ x.toNat * p + value rest := Nat.le_add_right _ _
  · intro hle
    by_contra hx
    have hlow : x.toNat * p ≤ 127 * p := Nat.mul_le_mul_right p (by omega)
    omega

theorem fits_signedValue (hc : c ≠ []) : Fits c.length (signedValue c) := by
  have hlt : (value c : Int) < 256 ^ c.length := by exact_mod_cast value_lt c
  have hiff := negative_iff hc
  have hhalf := pow_half (List.length_pos_iff.mpr hc)
  have hvalue : (0 : Int) ≤ value c := Int.natCast_nonneg _
  unfold Fits signedValue
  split
  case isTrue hneg =>
    have hle := hiff.mp hneg
    constructor <;> linarith
  case isFalse hpos =>
    have hgt : (value c : Int) < 2 ^ (8 * c.length - 1) := by
      rw [← not_le]
      exact fun hle => hpos (hiff.mpr hle)
    constructor <;> linarith

theorem signedValue_signedBytes (hwidth : 0 < width) (h : Fits width v) :
    signedValue (signedBytes width v) = v := by
  obtain ⟨hlow, hhigh⟩ := h
  have hhalf := pow_half hwidth
  have hpos : (0 : Int) < 256 ^ width := by positivity
  have hmod : ((v % 256 ^ width).toNat : Int) = v % 256 ^ width :=
    Int.toNat_of_nonneg (Int.emod_nonneg v hpos.ne')
  have hvalue : (value (signedBytes width v) : Int) = v % 256 ^ width := by
    unfold signedBytes
    rw [value_bytes, hmod]
    have hlt := Int.emod_lt_of_pos v hpos
    zify
    rwa [hmod]
  have hlength : (signedBytes width v).length = width := length_bytes _ _
  have hne : signedBytes width v ≠ [] := by
    rw [← List.length_pos_iff, hlength]
    exact hwidth
  have hiff := negative_iff hne
  rw [hlength, hvalue] at hiff
  unfold signedValue
  rw [hlength, hvalue]
  -- a number below zero is its complement
  by_cases hsign : v < 0
  · have hv : v % 256 ^ width = v + 256 ^ width := by
      rw [← Int.add_emod_right, Int.emod_eq_of_lt] <;> linarith
    rw [if_pos (hiff.mpr (by rw [hv]; linarith)), hv]
    ring
  · have hv : v % 256 ^ width = v := Int.emod_eq_of_lt (by omega) (by linarith)
    rw [if_neg (fun hneg => by have := hiff.mp hneg; rw [hv] at this; linarith), hv]

end Signed

end Dsip.Lib.BigEndian
