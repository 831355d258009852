import Mathlib.Tactic

/-!
# Since

`Since S C ms`: something in `ms` meets `S`, and nothing after it meets `C`. A program keeps the
answer as one bit, set by `S` and cleared by `C`; `since_append` is the bit's step.
-/

namespace Dsip.Lib

variable {μ : Type} {S C : μ → Prop} {ms : List μ} {m : μ}

/-- `S` happened, and `C` has not happened after it. -/
def Since (S C : μ → Prop) (ms : List μ) : Prop := ∃ pre m mid, ms = pre ++ m :: mid ∧ S m ∧ ∀ b ∈ mid, ¬ C b

theorem not_since_nil : ¬ Since S C [] := by
  rintro ⟨pre, m, mid, h, -⟩
  exact List.append_ne_nil_of_right_ne_nil pre (List.cons_ne_nil m mid) h.symm

theorem since_append : Since S C (ms ++ [m]) ↔ S m ∨ Since S C ms ∧ ¬ C m := by
  constructor
  · rintro ⟨pre, a, mid, h, hs, hc⟩
    rcases List.eq_nil_or_concat mid with rfl | ⟨mid', b, rfl⟩
    · left
      have hlast := (List.append_inj' h rfl).2
      rwa [List.cons.inj hlast |>.1]
    · right
      have h' : ms ++ [m] = (pre ++ a :: mid') ++ [b] := by rw [h]; simp
      obtain ⟨hms, hlast⟩ := List.append_inj' h' rfl
      have hb : m = b := (List.cons.inj hlast).1
      refine ⟨⟨pre, a, mid', hms, hs, fun x hx => hc x ?_⟩, hb ▸ hc b ?_⟩
      · rw [List.concat_eq_append]
        exact List.mem_append_left _ hx
      · rw [List.concat_eq_append]
        exact List.mem_append_right _ (List.mem_singleton_self b)
  · rintro (hs | ⟨⟨pre, a, mid, rfl, hs, hc⟩, hm⟩)
    · exact ⟨ms, m, [], rfl, hs, fun b hb => absurd hb List.not_mem_nil⟩
    · refine ⟨pre, a, mid ++ [m], by simp, hs, fun b hb => ?_⟩
      rcases List.mem_append.mp hb with hb | hb
      · exact hc b hb
      · rw [List.mem_singleton] at hb
        rwa [hb]

end Dsip.Lib
