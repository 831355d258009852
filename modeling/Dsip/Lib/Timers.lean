import Mathlib.Data.List.Sort
import Mathlib.Data.Prod.Lex
import Mathlib.Tactic

/-!
# Timers that have run out

Each key may have a timer. `ripe` lists those that have run out, by time and then by key: each
timer once, whatever the order of the keys.
-/

namespace Dsip.Lib

variable {κ : Type} [LinearOrder κ]

/-- The timers that have run out, by time and key. -/
def ripe (keys : List κ) (due : κ → Option Int) (now : Int) : List (Int ×ₗ κ) :=
  (keys.filterMap fun k => ((due k).filter (· ≤ now)).map fun d => toLex (d, k)).insertionSort (· ≤ ·)

variable {keys : List κ} {due : κ → Option Int} {now : Int}

theorem mem_ripe {x : Int ×ₗ κ} :
    x ∈ ripe keys due now ↔ (ofLex x).2 ∈ keys ∧ due (ofLex x).2 = some (ofLex x).1 ∧ (ofLex x).1 ≤ now := by
  unfold ripe
  rw [List.mem_insertionSort, List.mem_filterMap]
  constructor
  · rintro ⟨k, hk, hx⟩
    obtain ⟨d, hd, rfl⟩ := Option.map_eq_some_iff.mp hx
    obtain ⟨hdue, hle⟩ := Option.filter_eq_some_iff.mp hd
    exact ⟨hk, hdue, of_decide_eq_true hle⟩
  · rintro ⟨hk, hdue, hle⟩
    refine ⟨(ofLex x).2, hk, ?_⟩
    rw [hdue, Option.filter_some, if_pos (decide_eq_true hle)]
    rfl

theorem mem_ripe_keys {k : κ} :
    k ∈ (ripe keys due now).map (fun x => (ofLex x).2) ↔ k ∈ keys ∧ ∃ d, due k = some d ∧ d ≤ now := by
  rw [List.mem_map]
  constructor
  · rintro ⟨x, hx, rfl⟩
    obtain ⟨hk, hdue, hle⟩ := mem_ripe.mp hx
    exact ⟨hk, _, hdue, hle⟩
  · rintro ⟨hk, d, hdue, hle⟩
    exact ⟨toLex (d, k), mem_ripe.mpr ⟨hk, hdue, hle⟩, rfl⟩

theorem nodup_ripe_keys (h : keys.Nodup) : ((ripe keys due now).map fun x => (ofLex x).2).Nodup := by
  have hperm := (List.perm_insertionSort (· ≤ ·)
    (keys.filterMap fun k => ((due k).filter (· ≤ now)).map fun d => toLex (d, k))).map fun x : Int ×ₗ κ => (ofLex x).2
  refine hperm.nodup_iff.mpr ?_
  have hsub : (keys.filterMap fun k => ((due k).filter (· ≤ now)).map fun d => (toLex (d, k) : Int ×ₗ κ)).map
      (fun x => (ofLex x).2) = keys.filter fun k => ((due k).filter (· ≤ now)).isSome := by
    clear hperm h
    induction keys with
    | nil => rfl
    | cons k keys ih =>
      rw [List.filterMap_cons, List.filter_cons]
      cases hk : (due k).filter (· ≤ now) with
      | none =>
        rw [if_neg (by simp)]
        exact ih
      | some d =>
        exact congrArg (k :: ·) ih
  rw [hsub]
  exact h.filter _

end Dsip.Lib
