import Mathlib.Tactic

/-!
# Replacing a word in a text

Every occurrence of a word, from the left, none overlapping another. Where the word's first
letter does not occur, the text stays (`substitute_append`); at a letter that the word does
not have, the text falls apart (`substitute_split`).
-/

namespace Dsip.Lib

universe u

variable {α : Type u} [DecidableEq α]

/-- The text with each occurrence of `old` replaced, after so many letters that are part of one. -/
def substitute (old new : List α) : ℕ → List α → List α
  | _, [] => []
  | k + 1, _ :: text => substitute old new k text
  | 0, a :: text =>
    if old <+: a :: text then new ++ substitute old new (old.length - 1) text
    else a :: substitute old new 0 text

variable {old new : List α}

theorem substitute_cons (a : α) (text : List α) : substitute old new 0 (a :: text) =
      if old <+: a :: text then new ++ substitute old new (old.length - 1) text
      else a :: substitute old new 0 text := by
  rw [substitute]

theorem substitute_drop (k : ℕ) (text : List α) :
    substitute old new k text = substitute old new 0 (text.drop k) := by
  induction k generalizing text with
  | zero => rfl
  | succ k ih =>
    cases text with
    | nil => simp [substitute]
    | cons a text => rw [substitute, ih, List.drop_succ_cons]

theorem substitute_word (hold : old ≠ []) (text : List α) :
    substitute old new 0 (old ++ text) = new ++ substitute old new 0 text := by
  cases old with
  | nil => exact absurd rfl hold
  | cons o os =>
    have hword : o :: os <+: o :: (os ++ text) := ⟨text, rfl⟩
    rw [List.cons_append, substitute_cons, if_pos hword, substitute_drop]
    simp

theorem substitute_append {o : α} {os : List α} (hold : old = o :: os) {a : List α} (ha : o ∉ a) (text : List α) :
    substitute old new 0 (a ++ text) = a ++ substitute old new 0 text := by
  induction a with
  | nil => rfl
  | cons b a ih =>
    rw [List.mem_cons, not_or] at ha
    have hnot : ¬old <+: b :: (a ++ text) := by
      rw [hold, List.cons_prefix_cons]
      exact fun h => ha.1 h.1
    rw [List.cons_append, substitute_cons, if_neg hnot, ih ha.2]
    rfl

theorem substitute_letter {o d : α} {os : List α} (hold : old = o :: os) (hd : o ≠ d) (text : List α) :
    substitute old new 0 (d :: text) = d :: substitute old new 0 text :=
  substitute_append hold (a := [d]) (by simpa using hd) text

omit [DecidableEq α] in
theorem prefix_split {d : α} (hd : d ∉ old) {a text : List α} : old <+: a ++ d :: text ↔ old <+: a := by
  constructor
  · intro h
    induction a generalizing old with
    | nil =>
      cases old with
      | nil => exact List.nil_prefix
      | cons o os =>
        rw [List.nil_append, List.cons_prefix_cons] at h
        exact absurd (h.1 ▸ List.mem_cons_self) hd
    | cons b a ih =>
      cases old with
      | nil => exact List.nil_prefix
      | cons o os =>
        rw [List.cons_append, List.cons_prefix_cons] at h
        exact List.cons_prefix_cons.mpr ⟨h.1, ih (fun hos => hd (List.mem_cons_of_mem _ hos)) h.2⟩
  · exact fun h => h.trans (List.prefix_append _ _)

theorem substitute_split {d : α} (hd : d ∉ old) (hold : old ≠ []) (a text : List α) :
    substitute old new 0 (a ++ d :: text) = substitute old new 0 a ++ d :: substitute old new 0 text := by
  have hall (k : ℕ) (hk : k ≤ a.length) :
      substitute old new k (a ++ d :: text) = substitute old new k a ++ d :: substitute old new 0 text := by
    induction a generalizing k with
    | nil =>
      obtain rfl : k = 0 := by simpa using hk
      have hnot : ¬old <+: d :: text := fun h => hold (List.prefix_nil.mp ((prefix_split hd).mp h))
      rw [List.nil_append, substitute_cons, if_neg hnot]
      simp [substitute]
    | cons b a ih =>
      cases k with
      | succ k =>
        rw [List.cons_append, substitute, substitute]
        exact ih k (by simpa using hk)
      | zero =>
        rw [List.cons_append, substitute_cons, substitute_cons]
        by_cases hword : old <+: b :: a
        · have hlength := hword.length_le
          have hin : old <+: b :: (a ++ d :: text) := (prefix_split (a := b :: a) hd).mpr hword
          rw [if_pos hin, if_pos hword, ih _ (by simp at hlength; omega), List.append_assoc]
        · have hout : ¬old <+: b :: (a ++ d :: text) := fun h => hword ((prefix_split (a := b :: a) hd).mp h)
          rw [if_neg hout, if_neg hword, ih 0 (by omega)]
          rfl
  exact hall 0 (Nat.zero_le _)

theorem substitute_map {β : Type u} [DecidableEq β] {f : α → β} (hf : Function.Injective f) (k : ℕ) (text : List α) :
    substitute (old.map f) (new.map f) k (text.map f) = (substitute old new k text).map f := by
  induction text generalizing k with
  | nil => simp [substitute]
  | cons a text ih =>
    cases k with
    | succ k =>
      rw [List.map_cons, substitute, substitute]
      exact ih k
    | zero =>
      have hword : old.map f <+: f a :: text.map f ↔ old <+: a :: text := by
        rw [← List.map_cons, List.prefix_iff_eq_take, List.prefix_iff_eq_take, List.length_map, ← List.map_take]
        exact (List.map_injective_iff.mpr hf).eq_iff
      rw [List.map_cons, substitute_cons, substitute_cons]
      by_cases h : old <+: a :: text
      · rw [if_pos (hword.mpr h), if_pos h, List.length_map, ih, List.map_append]
      · rw [if_neg fun h' => h (hword.mp h'), if_neg h, ih, List.map_cons]

end Dsip.Lib
