import Mathlib.Data.List.Basic
import Mathlib.Tactic.Linarith

/-!
# Sliding windows

A log of times and how many of them a window of a width holds. What is admitted
only while fewer than `n` times are live never puts more than `n` in any window.
-/

namespace Dsip.Lib.SlidingWindow

/-- The times that still count at `now`. -/
def live (width now : Nat) (log : List Nat) : List Nat := log.filter (now < · + width)

/-- The times in the window that ends at `t`. -/
def ending (width t : Nat) (log : List Nat) : List Nat := log.filter fun s => t < s + width ∧ s ≤ t

variable {width now t n : Nat} {log : List Nat}

theorem live_live (h : now ≤ t) : live width t (live width now log) = live width t log := by
  unfold live
  rw [List.filter_filter]
  refine List.filter_congr fun s _ => ?_
  rw [← Bool.decide_and]
  exact decide_eq_decide.mpr ⟨And.left, fun hs => ⟨hs, h.trans_lt hs⟩⟩

theorem live_append (log log' : List Nat) :
    live width t (log ++ log') = live width t log ++ live width t log' := List.filter_append _ _

theorem ending_append (log log' : List Nat) :
    ending width t (log ++ log') = ending width t log ++ ending width t log' := List.filter_append _ _

theorem length_live_le : (live width t log).length ≤ log.length := List.length_filter_le _ _

theorem ending_eq_live (h : ∀ s ∈ log, s ≤ t) : ending width t log = live width t log := by
  unfold ending live
  refine List.filter_congr fun s hs => ?_
  exact decide_eq_decide.mpr ⟨And.left, fun hlive => ⟨hlive, h s hs⟩⟩

/-- The log ends by `now`, and no window holds more than `n` of it. -/
structure Bounded (width n now : Nat) (log : List Nat) : Prop where
  past : ∀ s ∈ log, s ≤ now
  le : ∀ t, (ending width t log).length ≤ n

theorem Bounded.nil : Bounded width n now [] where
  past _ h := absurd h List.not_mem_nil
  le _ := n.zero_le

theorem Bounded.later (h : Bounded width n now log) (hle : now ≤ t) : Bounded width n t log where
  past s hs := (h.past s hs).trans hle
  le := h.le

theorem Bounded.snoc (h : Bounded width n now log) (hroom : (live width now log).length < n) :
    Bounded width n now (log ++ [now]) where
  past s hs := by
    rcases List.mem_append.mp hs with hs | hs
    · exact h.past s hs
    · exact (List.mem_singleton.mp hs).le
  le t := by
    rw [ending_append, List.length_append]
    by_cases hle : now ≤ t
    case pos =>
      have hone : (ending width t [now]).length ≤ 1 := List.length_filter_le _ _
      have hlive : (ending width t log).length ≤ (live width now log).length := by
        rw [ending_eq_live fun s hs => (h.past s hs).trans hle, ← live_live hle]
        exact length_live_le
      linarith
    case neg =>
      have hnone : ending width t [now] = [] :=
        List.filter_eq_nil_iff.mpr fun s hs => by simp [List.mem_singleton.mp hs, hle]
      rw [hnone]
      exact h.le t

theorem Bounded.live_le (h : Bounded width n now log) : (live width now log).length ≤ n := by
  rw [← ending_eq_live h.past]
  exact h.le now

theorem Bounded.room (h : Bounded width n now log) {oldest : Nat} {rest : List Nat}
    (hlive : live width now log = oldest :: rest) (hnow : now ≤ t) (hover : oldest + width ≤ t) :
    (live width t log).length < n := by
  have hfirst : live width t (oldest :: rest) = live width t rest :=
    List.filter_cons_of_neg (by simpa using hover)
  have hle := h.live_le
  rw [← live_live hnow, hlive, hfirst]
  rw [hlive, List.length_cons] at hle
  exact (length_live_le).trans_lt hle

end Dsip.Lib.SlidingWindow
