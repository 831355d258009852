import Mathlib.Tactic

/-!
# UTF-8 with replacement

Bytes as text where what is not UTF-8 becomes the replacement character, one for
each longest beginning of a character that does not go on. Text that turns out to
be ASCII was the same ASCII bytes (`eq_map_of_ascii`).
-/

namespace Dsip.Lib.Utf8Replace

def replacement : Char := Char.ofNat 0xFFFD

/-- How many bytes follow a first byte, and between what the second one is. -/
def following (a : Nat) : Option (Nat × Nat × Nat) :=
  if 0xC2 ≤ a ∧ a ≤ 0xDF then some (1, 0x80, 0xBF)
  else if a = 0xE0 then some (2, 0xA0, 0xBF)
  else if a = 0xED then some (2, 0x80, 0x9F)
  else if 0xE1 ≤ a ∧ a ≤ 0xEF then some (2, 0x80, 0xBF)
  else if a = 0xF0 then some (3, 0x90, 0xBF)
  else if a = 0xF4 then some (3, 0x80, 0x8F)
  else if 0xF1 ≤ a ∧ a ≤ 0xF3 then some (3, 0x80, 0xBF)
  else none

def isContinuation (b : Nat) : Bool := 0x80 ≤ b ∧ b ≤ 0xBF

def two (a b : Nat) : Nat := (a - 0xC0) * 64 + (b - 0x80)

def three (a b c : Nat) : Nat := (a - 0xE0) * 4096 + (b - 0x80) * 64 + (c - 0x80)

def four (a b c d : Nat) : Nat := (a - 0xF0) * 262144 + (b - 0x80) * 4096 + (c - 0x80) * 64 + (d - 0x80)

/-- `decode("utf-8", errors="replace")`. -/
def decode : List UInt8 → List Char
  | [] => []
  | a :: rest =>
    if a.toNat < 0x80 then Char.ofNat a.toNat :: decode rest
    else
      match following a.toNat with
      | none => replacement :: decode rest
      | some (n, lo, hi) =>
        match rest with
        | [] => [replacement]
        | b :: rest₂ =>
          if ¬ (lo ≤ b.toNat ∧ b.toNat ≤ hi) then replacement :: decode (b :: rest₂)
          else if n = 1 then Char.ofNat (two a.toNat b.toNat) :: decode rest₂
          else
            match rest₂ with
            | [] => [replacement]
            | c :: rest₃ =>
              if ¬ isContinuation c.toNat then replacement :: decode (c :: rest₃)
              else if n = 2 then Char.ofNat (three a.toNat b.toNat c.toNat) :: decode rest₃
              else
                match rest₃ with
                | [] => [replacement]
                | d :: rest₄ =>
                  if ¬ isContinuation d.toNat then replacement :: decode (d :: rest₄)
                  else Char.ofNat (four a.toNat b.toNat c.toNat d.toNat) :: decode rest₄

theorem ascii_cons {a : UInt8} {rest : List UInt8} (h : a.toNat < 0x80) :
    decode (a :: rest) = Char.ofNat a.toNat :: decode rest := by
  rw [decode.eq_def]
  exact if_pos h

theorem toNat_ofNat {n : Nat} (h : n.isValidChar) : (Char.ofNat n).toNat = n := by
  unfold Char.ofNat
  rw [dif_pos h]
  rfl

/-- A scalar value outside ASCII. -/
def IsHigh (n : Nat) : Prop := 0x80 ≤ n ∧ (n < 0xD800 ∨ 0xDFFF < n ∧ n < 0x110000)

theorem toNat_of_isHigh {n : Nat} (h : IsHigh n) : 0x80 ≤ (Char.ofNat n).toNat := by
  rw [toNat_ofNat h.2]
  exact h.1

theorem isHigh_of_following {a n lo hi b : Nat} (h : following a = some (n, lo, hi)) (hb : lo ≤ b ∧ b ≤ hi) :
    (n = 1 → IsHigh (two a b)) ∧ (n = 2 → ∀ c, isContinuation c = true → IsHigh (three a b c)) ∧
      (n ≠ 1 → n ≠ 2 → ∀ c d, isContinuation c = true → isContinuation d = true → IsHigh (four a b c d)) := by
  unfold IsHigh two three four isContinuation
  simp only [decide_eq_true_eq]
  unfold following at h
  split_ifs at h <;> cases h <;> refine ⟨?_, ?_, ?_⟩ <;> intros <;> omega

theorem exists_not_ascii {a : UInt8} {rest : List UInt8} (h : ¬ a.toNat < 0x80) :
    ∃ c text, decode (a :: rest) = c :: text ∧ 0x80 ≤ c.toNat := by
  have hreplacement : 0x80 ≤ replacement.toNat := by decide
  rw [decode.eq_def]
  dsimp only
  rw [if_neg h]
  cases hfollowing : following a.toNat with
  | none => exact ⟨_, _, rfl, hreplacement⟩
  | some bounds =>
    obtain ⟨n, lo, hi⟩ := bounds
    dsimp only
    split
    · exact ⟨_, _, rfl, hreplacement⟩
    · split
      case isTrue => exact ⟨_, _, rfl, hreplacement⟩
      case isFalse hb =>
        rw [not_not] at hb
        obtain ⟨htwo, hthree, hfour⟩ := isHigh_of_following hfollowing hb
        split
        case isTrue hn => exact ⟨_, _, rfl, toNat_of_isHigh (htwo hn)⟩
        case isFalse hn =>
          split
          · exact ⟨_, _, rfl, hreplacement⟩
          · split
            case isTrue => exact ⟨_, _, rfl, hreplacement⟩
            case isFalse hc =>
              rw [not_not] at hc
              split
              case isTrue hn' => exact ⟨_, _, rfl, toNat_of_isHigh (hthree hn' _ hc)⟩
              case isFalse hn' =>
                split
                · exact ⟨_, _, rfl, hreplacement⟩
                · split
                  case isTrue => exact ⟨_, _, rfl, hreplacement⟩
                  case isFalse hd =>
                    rw [not_not] at hd
                    exact ⟨_, _, rfl, toNat_of_isHigh (hfour hn hn' _ _ hc hd)⟩

theorem eq_map_of_ascii {bytes : List UInt8} (h : ∀ c ∈ decode bytes, c.toNat < 0x80) :
    decode bytes = bytes.map (fun a => Char.ofNat a.toNat) ∧ ∀ a ∈ bytes, a.toNat < 0x80 := by
  induction bytes with
  | nil => exact ⟨rfl, by simp⟩
  | cons a rest ih =>
    by_cases ha : a.toNat < 0x80
    case pos =>
      rw [ascii_cons ha] at h ⊢
      obtain ⟨heq, hall⟩ := ih fun c hc => h c (List.mem_cons_of_mem _ hc)
      rw [heq]
      exact ⟨rfl, fun x hx => (List.mem_cons.mp hx).elim (· ▸ ha) (hall x)⟩
    case neg =>
      obtain ⟨c, text, heq, hhigh⟩ := @exists_not_ascii a rest ha
      rw [heq] at h
      have hlow := h c List.mem_cons_self
      omega

end Dsip.Lib.Utf8Replace
