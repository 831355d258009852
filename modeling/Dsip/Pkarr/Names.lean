import Dsip.Lib.Loop
import Dsip.Pkarr.KeyText

/-!
# Compressed names

A name is labels, a zero byte or a pointer to before the run of labels that it ends.
`_name` reads the labels and `_expand` the uncompressed bytes. Both always end, since a
pointer lowers the start of the run and a label the bytes that are left after it.
-/

namespace Dsip.Pkarr

open Dsip.Lib

/-- How a reader ends without a name; `outside` is a byte read outside the packet. -/
inductive Stop where
  | reject
  | outside
  deriving DecidableEq, Repr

/-- A reader in a name: what it has, the next offset once it has followed a pointer,
where the run of labels starts, and where it reads. -/
structure Walk (α : Type) where
  out : α
  endAt : Option Nat
  start : Nat
  off : Nat

/-- `ptr`. -/
def pointer (n low : UInt8) : Nat := ((n &&& 0x3F).toNat <<< 8) ||| low.toNat

def lowerByte (b : UInt8) : UInt8 := if 0x41 ≤ b ∧ b ≤ 0x5A then b + 32 else b

def lower (label : Bytes) : Bytes := label.map lowerByte

def slice (pkt : Bytes) (lo hi : Nat) : Bytes := (pkt.take hi).drop lo

/-- One pass through the loop of `_name`. -/
def nameStep (pkt : Bytes) (s : Walk (List Bytes)) : Walk (List Bytes) ⊕ Except Stop (List Bytes × Nat) :=
  if s.off ≥ pkt.length then .inr (.error .reject)
  else
    match pkt[s.off]? with
    | none => .inr (.error .outside)
    | some n =>
      if n &&& 0xC0 = 0xC0 then
        if s.off + 1 ≥ pkt.length then .inr (.error .reject)
        else
          match pkt[s.off + 1]? with
          | none => .inr (.error .outside)
          | some low =>
            if pointer n low ≥ s.start then .inr (.error .reject)
            else
              .inl { s with
                endAt := some (s.endAt.getD (s.off + 2)), off := pointer n low, start := pointer n low }
      else if n &&& 0xC0 ≠ 0 then .inr (.error .reject)
      else if n = 0 then .inr (.ok (s.out.map lower, s.endAt.getD (s.off + 1)))
      else if s.off + 1 + n.toNat > pkt.length then .inr (.error .reject)
      else
        .inl { s with
          out := s.out ++ [slice pkt (s.off + 1) (s.off + 1 + n.toNat)], off := s.off + 1 + n.toNat }

/-- One pass through the loop of `_expand`. -/
def expandStep (pkt : Bytes) (limit : Nat) (s : Walk Bytes) : Walk Bytes ⊕ Except Stop (Bytes × Nat) :=
  if s.off ≥ pkt.length ∨ s.endAt = none ∧ s.off ≥ limit then .inr (.error .reject)
  else
    match pkt[s.off]? with
    | none => .inr (.error .outside)
    | some n =>
      if n &&& 0xC0 = 0xC0 then
        if s.off + 1 ≥ pkt.length ∨ s.endAt = none ∧ s.off + 1 ≥ limit then .inr (.error .reject)
        else
          match pkt[s.off + 1]? with
          | none => .inr (.error .outside)
          | some low =>
            if pointer n low ≥ s.start then .inr (.error .reject)
            else
              .inl { s with
                endAt := some (s.endAt.getD (s.off + 2)), off := pointer n low, start := pointer n low }
      else if n &&& 0xC0 ≠ 0 then .inr (.error .reject)
      else if n = 0 then
        if s.endAt.getD (s.off + 1) > limit then .inr (.error .reject)
        else .inr (.ok (s.out ++ [0], s.endAt.getD (s.off + 1)))
      else if s.off + 1 + n.toNat > pkt.length ∨ s.endAt = none ∧ s.off + 1 + n.toNat > limit then
        .inr (.error .reject)
      else
        .inl { s with
          out := s.out ++ slice pkt s.off (s.off + 1 + n.toNat), off := s.off + 1 + n.toNat }

/-- The start of the run, and the bytes left after the offset. -/
def Walk.measure {α : Type} (pkt : Bytes) (s : Walk α) : Nat := s.start * (pkt.length + 1) + (pkt.length - s.off)

variable {α : Type} {pkt : Bytes}

theorem Walk.measure_pointer {s s' : Walk α} (h : s'.start < s.start) : s'.measure pkt < s.measure pkt := by
  have hstart : (s'.start + 1) * (pkt.length + 1) ≤ s.start * (pkt.length + 1) := Nat.mul_le_mul_right _ h
  rw [Nat.add_mul] at hstart
  unfold Walk.measure
  omega

theorem Walk.measure_label {s s' : Walk α} (hstart : s'.start = s.start)
    (hoff : s.off < s'.off) (hlt : s.off < pkt.length) : s'.measure pkt < s.measure pkt := by
  unfold Walk.measure
  rw [hstart]
  omega

/-- What one pass does: it follows a pointer or takes a label. -/
inductive Pass {α : Type} (pkt : Bytes) (take : α → Nat → UInt8 → α) (s : Walk α) : Walk α → Prop
  | pointer {n low : UInt8} : pkt[s.off]? = some n → pkt[s.off + 1]? = some low → n &&& 0xC0 = 0xC0 →
      pointer n low < s.start → Pass pkt take s
        { s with endAt := some (s.endAt.getD (s.off + 2)), off := pointer n low, start := pointer n low }
  | label {n : UInt8} : pkt[s.off]? = some n → n &&& 0xC0 = 0 → n ≠ 0 → s.off + 1 + n.toNat ≤ pkt.length →
      Pass pkt take s { s with out := take s.out s.off n, off := s.off + 1 + n.toNat }

theorem Pass.measure_lt {take : α → Nat → UInt8 → α} {s s' : Walk α}
    (h : Pass pkt take s s') : s'.measure pkt < s.measure pkt := by
  cases h with
  | pointer _ _ _ hptr => exact Walk.measure_pointer hptr
  | label hget _ _ hle => exact Walk.measure_label rfl (by dsimp only; omega) (by omega)

theorem nameStep_inl {s s' : Walk (List Bytes)} (h : nameStep pkt s = .inl s') :
    Pass pkt (fun labels off n => labels ++ [slice pkt (off + 1) (off + 1 + n.toNat)]) s s' := by
  unfold nameStep at h
  split at h
  · cases h
  · split at h
    · cases h
    · rename_i n hn
      split at h
      · rename_i htype
        split at h
        · cases h
        · split at h
          · cases h
          · rename_i low hlow
            split at h
            · cases h
            · rename_i hptr
              cases h
              exact .pointer hn hlow htype (Nat.lt_of_not_le hptr)
      · split at h
        · cases h
        · rename_i htype
          split at h
          · cases h
          · rename_i hzero
            split at h
            · cases h
            · rename_i hend
              cases h
              exact .label hn (not_not.mp htype) hzero (Nat.le_of_not_lt hend)

theorem expandStep_inl {limit : Nat} {s s' : Walk Bytes} (h : expandStep pkt limit s = .inl s') :
    Pass pkt (fun out off n => out ++ slice pkt off (off + 1 + n.toNat)) s s' := by
  unfold expandStep at h
  split at h
  · cases h
  · split at h
    · cases h
    · rename_i n hn
      split at h
      · rename_i htype
        split at h
        · cases h
        · split at h
          · cases h
          · rename_i low hlow
            split at h
            · cases h
            · rename_i hptr
              cases h
              exact .pointer hn hlow htype (Nat.lt_of_not_le hptr)
      · split at h
        · cases h
        · rename_i htype
          split at h
          · split at h
            · cases h
            · cases h
          · rename_i hzero
            split at h
            · cases h
            · rename_i hend
              cases h
              exact .label hn (not_not.mp htype) hzero (Nat.le_of_not_lt (not_or.mp hend).1)

/-- The loop of `_name`. -/
def nameLoop (pkt : Bytes) : Loop (Walk (List Bytes)) (Except Stop (List Bytes × Nat)) where
  step := nameStep pkt
  measure := Walk.measure pkt
  decreases _ _ h := (nameStep_inl h).measure_lt

/-- The loop of `_expand`. -/
def expandLoop (pkt : Bytes) (limit : Nat) : Loop (Walk Bytes) (Except Stop (Bytes × Nat)) where
  step := expandStep pkt limit
  measure := Walk.measure pkt
  decreases _ _ h := (expandStep_inl h).measure_lt

/-- A reader before it has read. -/
def Walk.fresh {α : Type} (out : α) (off : Nat) : Walk α := ⟨out, none, off, off⟩

def name (pkt : Bytes) (off : Nat) : Except Stop (List Bytes × Nat) := (nameLoop pkt).exec (.fresh [] off)

def expand (pkt : Bytes) (off limit : Nat) : Except Stop (Bytes × Nat) := (expandLoop pkt limit).exec (.fresh [] off)

end Dsip.Pkarr
