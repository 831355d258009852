import Mathlib.Data.List.Basic

/-!
# Two runs an observer compares

A machine runs on the same inputs from two states, and an observer sees a view
of every output. `Unwinds` is a relation of the two states that one step keeps
as long as the steps agree, where to agree is exactly to look the same; then the
two runs look the same exactly when all their steps agree (`views_eq_iff`).
-/

namespace Dsip.Lib.TwoRuns

universe u v w x

variable {σ : Type u} {ι : Type v} {ο ε : Type w} {ω : Type x}
  (step : σ → ι → Except ε (σ × ο)) (view : ο → ω) (agree : σ → σ → ι → Prop)

/-- What the observer sees: the view of every step's output, and `none` where
the machine fails and stops. -/
def views (s : σ) : List ι → List (Option ω)
  | [] => []
  | i :: is =>
    match step s i with
    | .error _ => [none]
    | .ok (s', o) => some (view o) :: views s' is

/-- The steps of the two runs agree, as long as both run. -/
def Throughout (s t : σ) : List ι → Prop
  | [] => True
  | i :: is =>
    agree s t i ∧
      match step s i, step t i with
      | .ok (s', _), .ok (t', _) => Throughout s' t' is
      | _, _ => True

instance decidableThroughout [∀ s t i, Decidable (agree s t i)] :
    ∀ s t is, Decidable (Throughout step agree s t is)
  | _, _, [] => isTrue trivial
  | s, t, i :: is =>
    have : Decidable (match step s i, step t i with
        | .ok (s', _), .ok (t', _) => Throughout step agree s' t' is
        | _, _ => True) :=
      match step s i, step t i with
      | .ok (s', _), .ok (t', _) => decidableThroughout s' t' is
      | .ok _, .error _ => isTrue trivial
      | .error _, .ok _ => isTrue trivial
      | .error _, .error _ => isTrue trivial
    inferInstanceAs (Decidable (agree s t i ∧ _))

/-- One step of two related states: both fail, or both run, and then they look
the same exactly when they agree, and stay related if they do. -/
def Unwinds (R : σ → σ → Prop) : Prop :=
  ∀ s t i, R s t →
    match step s i, step t i with
    | .ok (s', o), .ok (t', o') =>
      (view o = view o' ↔ agree s t i) ∧ (agree s t i → R s' t')
    | .error _, .error _ => agree s t i
    | _, _ => False

variable {step view agree}

theorem views_eq_iff {R : σ → σ → Prop} (h : Unwinds step view agree R) (is : List ι) : ∀ {s t : σ}, R s t →
      (views step view s is = views step view t is ↔ Throughout step agree s t is) := by
  induction is with
  | nil => exact fun _ => ⟨fun _ => trivial, fun _ => rfl⟩
  | cons i is ih =>
    intro s t hR
    have hstep := h s t i hR
    unfold views Throughout
    cases hs : step s i with
    | error e =>
      cases ht : step t i with
      | error e' =>
        rw [hs, ht] at hstep
        exact ⟨fun _ => ⟨hstep, trivial⟩, fun _ => rfl⟩
      | ok r =>
        rw [hs, ht] at hstep
        exact hstep.elim
    | ok r =>
      cases ht : step t i with
      | error e =>
        rw [hs, ht] at hstep
        exact hstep.elim
      | ok r' =>
        rw [hs, ht] at hstep
        obtain ⟨hview, hkeep⟩ := hstep
        dsimp only
        rw [List.cons.injEq, Option.some.injEq, hview]
        exact and_congr_right fun ha => ih (hkeep ha)

end Dsip.Lib.TwoRuns
