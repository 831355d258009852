import Mathlib.Tactic
import Dsip.Messaging.Mailbox

/-!
# Cursors name numbers

A cursor is read back as the number it was written for, as long as the number
has sixteen digits; a longer one is refused. Different numbers have different
cursors.
-/

namespace Dsip.Messaging

open Dsip.Lib Dsip.Lib.PyInt

/-- A digit as a cursor writes it. -/
def IsHex (c : Char) : Prop := ∃ d < 16, c = Nat.digitChar d

theorem IsHex.facts {c : Char} (h : IsHex c) :
    c ≠ '_' ∧ c ≠ 'x' ∧ c ≠ 'X' ∧ c ≠ '+' ∧ c ≠ '-' ∧ isSpace c = false ∧ c.toNat < 128 := by
  obtain ⟨d, hd, rfl⟩ := h
  interval_cases d <;> decide

theorem hexDigit_digitChar {d : Nat} (hd : d < 16) : hexDigit (Nat.digitChar d) = some d := by
  interval_cases d <;> decide

theorem isHex_zero : IsHex '0' := ⟨0, by omega, rfl⟩

theorem isHex_toDigits {n : Nat} : ∀ c ∈ Nat.toDigits 16 n, IsHex c := by
  induction n using Nat.base_induction 16 (by omega) with
  | single m hm =>
    rw [Nat.toDigits_of_lt_base hm]
    intro c hc
    exact ⟨m, hm, List.mem_singleton.mp hc⟩
  | digit m k hk hm ih =>
    rw [← Nat.toDigits_append_toDigits (by omega) hm hk, Nat.toDigits_of_lt_base hk]
    intro c hc
    rcases List.mem_append.mp hc with hc | hc
    · exact ih c hc
    · exact ⟨k, hk, List.mem_singleton.mp hc⟩

/-! ## Reading digits -/

variable {l : List Char}

theorem digits_snoc {acc v d : Nat} {b : Bool} {c : Char}
    (h : digits acc b l = some v) (hl : b = true ∨ l ≠ []) (hc : IsHex c)
    (hd : hexDigit c = some d) : digits acc b (l ++ [c]) = some (v * 16 + d) := by
  have hone : ∀ acc b, digits acc b [c] = some (acc * 16 + d) := by
    intro acc b
    simp [digits, hc.facts.1, hd]
  induction l generalizing acc b with
  | nil =>
    obtain rfl : b = true := hl.resolve_right fun h => h rfl
    obtain rfl : acc = v := by simpa [digits] using h
    exact hone acc true
  | cons a l ih =>
    rw [List.cons_append]
    unfold digits at h ⊢
    split at h
    case isTrue ha =>
      rw [if_pos ha]
      split at h
      case isTrue hb =>
        rw [if_pos hb]
        refine ih h (.inr ?_)
        rintro rfl
        simp [digits] at h
      case isFalse => cases h
    case isFalse ha =>
      rw [if_neg ha]
      split at h
      case h_1 => exact ih h (.inl rfl)
      case h_2 => cases h

theorem digits_toDigits (n : Nat) (b : Bool) : digits 0 b (Nat.toDigits 16 n) = some n := by
  induction n using Nat.base_induction 16 (by omega) with
  | single m hm =>
    have hm' : IsHex (Nat.digitChar m) := ⟨m, hm, rfl⟩
    rw [Nat.toDigits_of_lt_base hm]
    simp [digits, hm'.facts.1, hexDigit_digitChar hm]
  | digit m k hk hm ih =>
    rw [← Nat.toDigits_append_toDigits (by omega) hm hk, Nat.toDigits_of_lt_base hk,
      digits_snoc ih (.inr (List.ne_nil_of_length_pos Nat.length_toDigits_pos)) ⟨k, hk, rfl⟩
        (hexDigit_digitChar hk), Nat.mul_comm]

theorem digits_zeros (k n : Nat) (b : Bool) :
    digits 0 b (List.replicate k '0' ++ Nat.toDigits 16 n) = some n := by
  induction k generalizing b with
  | zero => exact digits_toDigits n b
  | succ k ih =>
    rw [List.replicate_succ, List.cons_append, digits, if_neg isHex_zero.facts.1]
    have hzero : hexDigit '0' = some 0 := rfl
    rw [hzero]
    exact ih true

theorem magnitude_of_hex (h : ∀ c ∈ l, IsHex c) : magnitude l = digits 0 false l := by
  unfold magnitude
  split
  case h_1 x cs =>
    have hx := (h x (by simp)).facts
    rw [if_neg]
    rintro (rfl | rfl)
    · exact hx.2.1 rfl
    · exact hx.2.2.1 rfl
  case h_2 => rfl

theorem signed_of_hex (h : ∀ c ∈ l, IsHex c) : signed l = (digits 0 false l).map fun n => (n : Int) := by
  unfold signed
  split
  case h_1 cs => exact absurd rfl (h '+' List.mem_cons_self).facts.2.2.2.1
  case h_2 cs => exact absurd rfl (h '-' List.mem_cons_self).facts.2.2.2.2.1
  case h_3 => rw [magnitude_of_hex h]

theorem dropWhile_isSpace_of_hex (h : ∀ c ∈ l, IsHex c) : l.dropWhile isSpace = l := by
  cases l with
  | nil => rfl
  | cons c l =>
    rw [List.dropWhile_cons_of_neg]
    rw [(h c List.mem_cons_self).facts.2.2.2.2.2.1]
    exact Bool.false_ne_true

theorem ofHex_of_hex (h : ∀ c ∈ l, IsHex c) : ofHex l = (digits 0 false l).map fun n => (n : Int) := by
  have hascii : (l.all fun c => decide (c.toNat < 128)) = true :=
    List.all_eq_true.mpr fun c hc => decide_eq_true (h c hc).facts.2.2.2.2.2.2
  have hback : ∀ c ∈ l.reverse, IsHex c := fun c hc => h c (List.mem_reverse.mp hc)
  unfold ofHex
  dsimp only
  rw [if_pos hascii, dropWhile_isSpace_of_hex h, dropWhile_isSpace_of_hex hback,
    List.reverse_reverse, signed_of_hex h]

/-! ## Cursors -/

def cursorDigits (n : Nat) : List Char :=
  List.replicate (16 - (Nat.toDigits 16 n).length) '0' ++ Nat.toDigits 16 n

theorem cursor_toList (n : Nat) : (cursor n).toList = 'c' :: ':' :: cursorDigits n := by
  simp [cursor, cursorDigits]

theorem isHex_cursorDigits (n : Nat) : ∀ c ∈ cursorDigits n, IsHex c := by
  intro c hc
  rcases List.mem_append.mp hc with hc | hc
  · exact List.eq_of_mem_replicate hc ▸ isHex_zero
  · exact isHex_toDigits c hc

theorem length_cursorDigits (n : Nat) : (cursorDigits n).length = 16 ↔ n < 16 ^ 16 := by
  rw [← Nat.length_toDigits_le_iff (by omega) (by omega), cursorDigits, List.length_append,
    List.length_replicate]
  omega

theorem cursorNum_cursor (n : Nat) : cursorNum (cursor n) = if n < 16 ^ 16 then some (n : Int) else none := by
  unfold cursorNum
  simp only [cursor_toList]
  by_cases h : n < 16 ^ 16
  · rw [if_pos h, if_pos ((length_cursorDigits n).mpr h), ofHex_of_hex (isHex_cursorDigits n),
      cursorDigits, digits_zeros]
    rfl
  · rw [if_neg h, if_neg fun hl => h ((length_cursorDigits n).mp hl)]

theorem cursorNum_eq {n : Nat} {k : Int} (h : cursorNum (cursor n) = some k) : n < 16 ^ 16 ∧ k = n := by
  rw [cursorNum_cursor] at h
  split at h
  case isTrue hlt => exact ⟨hlt, (Option.some.inj h).symm⟩
  case isFalse => cases h

theorem cursor_injective {n k : Nat} (h : cursor n = cursor k) : n = k := by
  have hdigits : cursorDigits n = cursorDigits k := by
    have := congrArg String.toList h
    rw [cursor_toList, cursor_toList] at this
    exact List.tail_eq_of_cons_eq (List.tail_eq_of_cons_eq this)
  have hread : digits 0 false (cursorDigits n) = digits 0 false (cursorDigits k) := congrArg _ hdigits
  rw [cursorDigits, cursorDigits, digits_zeros, digits_zeros] at hread
  exact Option.some.inj hread

end Dsip.Messaging
