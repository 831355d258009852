import Mathlib.Tactic

/-!
# Computations that do not fail

A computation ends in a value or in an error, and some errors are failures. `Safe bad P x` says
that `x` does not fail, and that `P` holds of its value if it has one; `Fails bad x` that it
does. A loop fails exactly where the first failing turn is reached (`fails_foldlM`).
-/

namespace Dsip.Lib

universe u v

variable {ε : Type u} {α β σ : Type v} {bad : ε → Prop} {P : α → Prop} {Q : β → Prop}

/-- No failure, and a value of `P` if there is one. -/
def Safe (bad : ε → Prop) (P : α → Prop) : Except ε α → Prop
  | .ok a => P a
  | .error e => ¬bad e

/-- The computation ends in a failure. -/
def Fails (bad : ε → Prop) (x : Except ε α) : Prop := ∃ e, x = .error e ∧ bad e

namespace Safe

variable {x : Except ε α} {f : α → Except ε β}

theorem ok {a : α} (h : P a) : Safe bad P (.ok a) := h

theorem error {e : ε} (h : ¬bad e) : Safe bad P (.error e : Except ε α) := h

theorem mono {P' : α → Prop} (h : Safe bad P x) (himp : ∀ a, P a → P' a) : Safe bad P' x := by
  cases x with
  | ok a => exact himp a h
  | error e => exact h

theorem bind (hx : Safe bad P x) (hf : ∀ a, P a → Safe bad Q (f a)) : Safe bad Q (x >>= f) := by
  cases x with
  | ok a => exact hf a hx
  | error e => exact hx

theorem ite_bind {p : Prop} [Decidable p] {y : Except ε α} (hx : Safe bad P (if p then x else y))
    (hf : ∀ a, P a → Safe bad Q (f a)) : Safe bad Q (if p then x >>= f else y >>= f) := by
  by_cases hp : p
  · rw [if_pos hp] at hx ⊢
    exact hx.bind hf
  · rw [if_neg hp] at hx ⊢
    exact hx.bind hf

theorem when_bind {p : Prop} [Decidable p] {x : Except ε PUnit} {f : PUnit → Except ε β}
    (hx : p → Safe bad (fun _ => True) x) (hf : Safe bad Q (f ⟨⟩)) : Safe bad Q (if p then x >>= f else f ⟨⟩) := by
  by_cases hp : p
  · rw [if_pos hp]
    exact (hx hp).bind fun _ _ => hf
  · rw [if_neg hp]
    exact hf

theorem value (hx : Safe bad P x) {a : α} (h : x = .ok a) : P a := by
  rw [h] at hx
  exact hx

theorem not_fails (hx : Safe bad P x) : ¬Fails bad x := by
  rintro ⟨e, rfl, hbad⟩
  exact hx hbad

theorem mapM {g : β → Except ε α} {l : List β} (h : ∀ b ∈ l, Safe bad P (g b)) :
    Safe bad (fun as => ∀ a ∈ as, P a) (l.mapM g) := by
  induction l with
  | nil => exact fun a ha => absurd ha List.not_mem_nil
  | cons b l ih =>
    rw [List.mapM_cons]
    refine (h b List.mem_cons_self).bind fun a ha => ?_
    refine (ih fun b' hb' => h b' (List.mem_cons_of_mem _ hb')).bind fun as has => ?_
    intro a' ha'
    rcases List.mem_cons.mp ha' with rfl | ha'
    · exact ha
    · exact has a' ha'

theorem allM {ε : Type u} {β : Type} {bad : ε → Prop} {g : β → Except ε Bool} {l : List β}
    (h : ∀ b ∈ l, Safe bad (fun _ => True) (g b)) : Safe bad (fun _ => True) (l.allM g) := by
  induction l with
  | nil => trivial
  | cons b l ih =>
    rw [List.allM]
    refine (h b List.mem_cons_self).bind fun ok _ => ?_
    cases ok with
    | true => exact ih fun b' hb' => h b' (List.mem_cons_of_mem _ hb')
    | false => trivial

theorem anyM {ε : Type u} {β : Type} {bad : ε → Prop} {g : β → Except ε Bool} {l : List β}
    (h : ∀ b ∈ l, Safe bad (fun _ => True) (g b)) : Safe bad (fun _ => True) (l.anyM g) := by
  induction l with
  | nil => trivial
  | cons b l ih =>
    rw [List.anyM]
    refine (h b List.mem_cons_self).bind fun found _ => ?_
    cases found with
    | true => trivial
    | false => exact ih fun b' hb' => h b' (List.mem_cons_of_mem _ hb')

theorem forM {ε : Type u} {β : Type} {bad : ε → Prop} {g : β → Except ε PUnit} {l : List β}
    (h : ∀ b ∈ l, Safe bad (fun _ => True) (g b)) : Safe bad (fun _ => True) (l.forM g) := by
  induction l with
  | nil => trivial
  | cons b l ih =>
    show Safe bad _ (g b >>= fun _ => l.forM g)
    exact (h b List.mem_cons_self).bind fun _ _ => ih fun b' hb' => h b' (List.mem_cons_of_mem _ hb')

theorem foldlM {S : σ → Prop} {g : σ → α → Except ε σ} {l : List α}
    (h : ∀ a ∈ l, ∀ s, S s → Safe bad S (g s a)) {s : σ} (hs : S s) : Safe bad S (l.foldlM g s) := by
  induction l generalizing s with
  | nil => exact hs
  | cons a l ih =>
    rw [List.foldlM_cons]
    exact (h a List.mem_cons_self s hs).bind fun s' hs' =>
      ih (fun a' ha' => h a' (List.mem_cons_of_mem _ ha')) hs'

end Safe

theorem keeps_foldlM {S : σ → Prop} {g : σ → α → Except ε σ} (h : ∀ s a s', S s → g s a = .ok s' → S s') {l : List α}
    {s s' : σ} (hs : S s) (hl : l.foldlM g s = .ok s') : S s' := by
  induction l generalizing s with
  | nil =>
    cases hl
    exact hs
  | cons a l ih =>
    rw [List.foldlM_cons] at hl
    cases hstep : g s a with
    | error e =>
      rw [hstep] at hl
      cases hl
    | ok t =>
      rw [hstep] at hl
      exact ih (h s a t hs hstep) hl

/-- A loop whose turns fail on certain elements alone, and else have a value, fails if there is one. -/
theorem foldlM_cases {T : α → Prop} {g : σ → α → Except ε σ} {e : ε} {l : List α}
    (h : ∀ a ∈ l, ∀ s, (∃ s', g s a = .ok s') ∧ ¬T a ∨ g s a = .error e ∧ T a) (s : σ) :
    (∃ s', l.foldlM g s = .ok s') ∧ (∀ a ∈ l, ¬T a) ∨ l.foldlM g s = .error e ∧ ∃ a ∈ l, T a := by
  induction l generalizing s with
  | nil => exact .inl ⟨⟨s, rfl⟩, fun a ha => absurd ha List.not_mem_nil⟩
  | cons a l ih =>
    rw [List.foldlM_cons]
    rcases h a List.mem_cons_self s with ⟨⟨s', hs'⟩, hnot⟩ | ⟨herror, ha⟩
    · rw [hs']
      rcases ih (fun b hb => h b (List.mem_cons_of_mem _ hb)) s' with ⟨hok, hrest⟩ | ⟨herror, b, hb, htrap⟩
      · refine .inl ⟨hok, ?_⟩
        intro b hb
        rcases List.mem_cons.mp hb with rfl | hb
        · exact hnot
        · exact hrest b hb
      · exact .inr ⟨herror, b, List.mem_cons_of_mem _ hb, htrap⟩
    · rw [herror]
      exact .inr ⟨rfl, a, List.mem_cons_self, ha⟩

theorem safe_of_not_fails {x : Except ε α} (h : ¬Fails bad x) : Safe bad (fun a => x = .ok a) x := by
  cases x with
  | ok a => exact rfl
  | error e => exact fun hbad => h ⟨e, rfl, hbad⟩

theorem fails_bind {x : Except ε α} {f : α → Except ε β} :
    Fails bad (x >>= f) ↔ Fails bad x ∨ ∃ a, x = .ok a ∧ Fails bad (f a) := by
  cases x with
  | ok a =>
    constructor
    · exact fun h => .inr ⟨a, rfl, h⟩
    · rintro (⟨e, h, -⟩ | ⟨_, ⟨⟩, h⟩)
      · cases h
      · exact h
  | error e =>
    constructor
    · rintro ⟨_, ⟨⟩, hbad⟩
      exact .inl ⟨e, rfl, hbad⟩
    · rintro (⟨_, ⟨⟩, hbad⟩ | ⟨_, h, -⟩)
      · exact ⟨e, rfl, hbad⟩
      · cases h

theorem Safe.fails_bind {x : Except ε α} {f : α → Except ε β} (hx : Safe bad P x) :
    Fails bad (x >>= f) ↔ ∃ a, x = .ok a ∧ P a ∧ Fails bad (f a) := by
  rw [Lib.fails_bind]
  constructor
  · rintro (h | ⟨a, ha, h⟩)
    · exact absurd h hx.not_fails
    · exact ⟨a, ha, hx.value ha, h⟩
  · rintro ⟨a, ha, -, h⟩
    exact .inr ⟨a, ha, h⟩

theorem fails_foldlM {g : σ → α → Except ε σ} {l : List α} {s : σ} : Fails bad (l.foldlM g s) ↔
      ∃ before a after s', l = before ++ a :: after ∧ before.foldlM g s = .ok s' ∧ Fails bad (g s' a) := by
  induction l generalizing s with
  | nil =>
    constructor
    · rintro ⟨e, h, -⟩
      cases h
    · rintro ⟨before, a, after, s', h, -⟩
      cases before <;> cases h
  | cons a l ih =>
    rw [List.foldlM_cons, fails_bind]
    constructor
    · rintro (h | ⟨s', hs', h⟩)
      · exact ⟨[], a, l, s, rfl, rfl, h⟩
      · obtain ⟨before, b, after, s'', rfl, hbefore, h⟩ := ih.mp h
        refine ⟨a :: before, b, after, s'', rfl, ?_, h⟩
        rw [List.foldlM_cons, hs']
        exact hbefore
    · rintro ⟨before, b, after, s'', hsplit, hbefore, h⟩
      cases before with
      | nil =>
        obtain ⟨rfl, rfl⟩ := List.cons.inj hsplit
        cases hbefore
        exact .inl h
      | cons a' before =>
        obtain ⟨rfl, rfl⟩ := List.cons.inj hsplit
        rw [List.foldlM_cons] at hbefore
        cases hs' : g s a with
        | error e =>
          rw [hs'] at hbefore
          cases hbefore
        | ok s' =>
          rw [hs'] at hbefore
          exact .inr ⟨s', rfl, ih.mpr ⟨before, b, after, s'', rfl, hbefore, h⟩⟩

end Dsip.Lib
