import Dsip.Lib.BigEndian

/-!
# DER

The one encoding of an element: its length in the least form, and an integer in
the least width.
-/

namespace Dsip.Lib.Der

open BigEndian

variable {c : List UInt8} {n : Nat}

/-! ## Numbers without leading zeros -/

/-- The bytes of a number; none for zero. -/
def leastBytes (n : Nat) : List UInt8 := bytes (byteLength n) n

theorem value_leastBytes (n : Nat) : value (leastBytes n) = n := value_bytes (lt_byteLength n)

theorem length_leastBytes (n : Nat) : (leastBytes n).length = byteLength n := length_bytes _ _

theorem head_leastBytes (n : Nat) : (leastBytes n).head? ≠ some 0 := by
  intro hhead
  obtain ⟨r, hr⟩ := List.head?_eq_some_iff.mp hhead
  have hvalue := value_leastBytes n
  have hlength := length_leastBytes n
  rw [hr] at hvalue hlength
  have hn : value r = n := by simpa [value_cons] using hvalue
  have hle : byteLength n ≤ r.length := byteLength_le_iff.mpr (hn ▸ value_lt r)
  rw [List.length_cons] at hlength
  omega

theorem leastBytes_value (hc : c.head? ≠ some 0) : leastBytes (value c) = c := by
  have hlength : byteLength (value c) = c.length := by
    apply le_antisymm
    · exact byteLength_le_iff.mpr (value_lt c)
    · cases c with
      | nil => exact Nat.zero_le _
      | cons x r =>
        by_contra hlt
        rw [List.length_cons, not_le, Nat.lt_succ_iff, byteLength_le_iff, value_cons] at hlt
        have hx : 0 < x.toNat := by
          by_contra hzero
          have hx : x = 0 := UInt8.toNat_inj.mp (Nat.le_zero.mp (not_lt.mp hzero))
          exact hc (congrArg some hx)
        have hle := Nat.mul_le_mul_right (256 ^ r.length) hx
        omega
  rw [leastBytes, hlength, bytes_value]

/-! ## Elements -/

def lengthBytes (n : Nat) : List UInt8 :=
  if n < 0x80 then [UInt8.ofNat n] else UInt8.ofNat (0x80 + (leastBytes n).length) :: leastBytes n

def element (tag : UInt8) (content : List UInt8) : List UInt8 :=
  tag :: (lengthBytes content.length ++ content)

theorem length_lt_element (tag : UInt8) (c : List UInt8) : c.length + 2 ≤ (element tag c).length := by
  unfold element lengthBytes
  split <;> simp

/-! ## Integers -/

/-- A number from zero on, in two's complement of the least width. -/
def integerBytes (n : Nat) : List UInt8 :=
  if (leastBytes n).headD 0x80 < 0x80 then leastBytes n else 0 :: leastBytes n

/-- The first byte says no more than the leading bit of the second. -/
def Redundant (c : List UInt8) : Prop :=
  ∃ x y r, c = x :: y :: r ∧ ((x = 0 ∧ y < 0x80) ∨ (x = 0xFF ∧ 0x80 ≤ y))

theorem negative_cons (x : UInt8) (r : List UInt8) : negative (x :: r) = true ↔ ¬ x < 0x80 := by
  unfold negative
  rw [decide_eq_true_eq, UInt8.lt_iff_toNat_lt, List.headD_cons]
  exact not_lt.symm

theorem signedValue_of_low {x : UInt8} (r : List UInt8) (hx : x < 0x80) :
    signedValue (x :: r) = value (x :: r) := if_neg fun h => (negative_cons x r).mp h hx

/-- Bytes are the encoding of a number from zero on where they are of the least width and stand
for it. -/
theorem eq_integerBytes_iff : c = integerBytes n ↔ c ≠ [] ∧ ¬ Redundant c ∧ signedValue c = n := by
  constructor
  · rintro rfl
    unfold integerBytes
    have hvalue := value_leastBytes n
    have hzero := head_leastBytes n
    split
    case isTrue hlow =>
      cases hc : leastBytes n with
      | nil =>
        rw [hc] at hlow
        exact absurd hlow (by decide)
      | cons x r =>
        rw [hc] at hlow hvalue hzero
        rw [List.headD_cons] at hlow
        refine ⟨List.cons_ne_nil x r, ?_, by rw [signedValue_of_low r hlow, hvalue]⟩
        intro ⟨x', y, r', heq, hred⟩
        obtain ⟨rfl, rfl⟩ := List.cons.inj heq
        rcases hred with ⟨rfl, -⟩ | ⟨rfl, -⟩
        · exact hzero rfl
        · exact absurd hlow (by decide : ¬ (0xFF : UInt8) < 0x80)
    case isFalse hhigh =>
      refine ⟨List.cons_ne_nil _ _, ?_, ?_⟩
      · intro ⟨x, y, r, heq, hred⟩
        obtain ⟨rfl, hr⟩ := List.cons.inj heq
        rw [hr] at hhigh
        rcases hred with ⟨-, hy⟩ | ⟨hx, -⟩
        · exact hhigh hy
        · cases hx
      · rw [signedValue_of_low _ (by decide), value_cons, hvalue]
        simp
  · intro ⟨hne, hred, hn⟩
    obtain ⟨x, r, rfl⟩ := List.exists_cons_of_ne_nil hne
    have hlow : x < 0x80 := by
      by_contra hhigh
      have hlt : (value (x :: r) : Int) < 256 ^ (x :: r).length := by exact_mod_cast value_lt (x :: r)
      rw [signedValue, if_pos ((negative_cons x r).mpr hhigh)] at hn
      omega
    rw [signedValue_of_low r hlow, Nat.cast_inj] at hn
    by_cases hx : x = 0
    · subst hx
      have hr : value r = n := by simpa [value_cons] using hn
      cases r with
      | nil =>
        obtain rfl : 0 = n := hr
        rfl
      | cons y r =>
        have hy : ¬ y < 0x80 := fun hy => hred ⟨0, y, r, rfl, .inl ⟨rfl, hy⟩⟩
        have hleast : leastBytes n = y :: r := by
          rw [← hr]
          refine leastBytes_value fun hzero => hy ?_
          rw [Option.some.inj hzero]
          decide
        rw [integerBytes, hleast, List.headD_cons, if_neg hy]
    · have hleast : leastBytes n = x :: r := by
        rw [← hn]
        exact leastBytes_value fun hzero => hx (Option.some.inj hzero)
      rw [integerBytes, hleast, List.headD_cons, if_pos hlow]

end Dsip.Lib.Der
