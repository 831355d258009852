import Mathlib.Logic.Basic
import Mathlib.Tactic

/-!
# Loops with a measure

A loop is a step that goes on with a state or ends with a result, and a measure that
every step lowers. It always ends (`exec`), in no more steps than the measure says
(`run_eq`); what steps keep holds of the result (`exec_of_invariant`), and two loops
whose steps go together have results that go together (`exec_of_related`).
-/

namespace Dsip.Lib

structure Loop (σ ρ : Type) where
  step : σ → σ ⊕ ρ
  measure : σ → Nat
  decreases : ∀ s s', step s = .inl s' → measure s' < measure s

namespace Loop

variable {σ ρ σ' ρ' : Type} (L : Loop σ ρ) (M : Loop σ' ρ')

def exec (s : σ) : ρ :=
  match _h : L.step s with
  | .inl s' => exec s'
  | .inr r => r
termination_by L.measure s
decreasing_by exact L.decreases s s' _h

/-- So many steps; none where the loop is still going. -/
def run : Nat → σ → Option ρ
  | 0, _ => none
  | n + 1, s =>
    match L.step s with
    | .inl s' => run n s'
    | .inr r => some r

variable {L M} {s s' : σ} {t : σ'} {r : ρ}

theorem exec_inl (h : L.step s = .inl s') : L.exec s = L.exec s' := by
  rw [exec]
  split
  · rename_i s'' h'
    rw [h] at h'
    cases h'
    rfl
  · rename_i r h'
    rw [h] at h'
    cases h'

theorem exec_inr (h : L.step s = .inr r) : L.exec s = r := by
  rw [exec]
  split
  · rename_i s'' h'
    rw [h] at h'
    cases h'
  · rename_i r' h'
    rw [h] at h'
    cases h'
    rfl

theorem run_eq {n : Nat} (h : L.measure s < n) : L.run n s = some (L.exec s) := by
  induction n generalizing s with
  | zero => omega
  | succ n ih =>
    rw [run]
    cases hstep : L.step s with
    | inl s' =>
      have hlt := L.decreases s s' hstep
      rw [exec_inl hstep]
      exact ih (by omega)
    | inr r => rw [exec_inr hstep]

theorem exec_of_invariant (I : σ → Prop) (Q : ρ → Prop) (hstep : ∀ s s', I s → L.step s = .inl s' → I s')
    (hend : ∀ s r, I s → L.step s = .inr r → Q r) (h : I s) : Q (L.exec s) := by
  induction hn : L.measure s using Nat.strong_induction_on generalizing s with
  | _ n ih =>
    cases hs : L.step s with
    | inl s' =>
      have hlt := L.decreases s s' hs
      rw [exec_inl hs]
      exact ih (L.measure s') (by omega) (hstep s s' h hs) rfl
    | inr r =>
      rw [exec_inr hs]
      exact hend s r h hs

theorem exec_of_related (R : σ → σ' → Prop) (Q : ρ → ρ' → Prop) (hstep : ∀ s t, R s t →
      (∃ s' t', L.step s = .inl s' ∧ M.step t = .inl t' ∧ R s' t') ∨ Q (L.exec s) (M.exec t))
    (h : R s t) : Q (L.exec s) (M.exec t) := by
  induction hn : L.measure s using Nat.strong_induction_on generalizing s t with
  | _ n ih =>
    rcases hstep s t h with ⟨s', t', hs, ht, hrel⟩ | hdone
    · have hlt := L.decreases s s' hs
      rw [exec_inl hs, exec_inl ht]
      exact ih (L.measure s') (by omega) hrel rfl
    · exact hdone

end Loop

end Dsip.Lib
