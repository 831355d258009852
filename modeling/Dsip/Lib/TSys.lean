import Mathlib.Data.List.Basic
import Mathlib.Data.List.Infix
import Mathlib.Data.Set.Basic

/-!
# Labelled transition systems and their runs

A machine reads an input and writes an output at every step. Three notions of
behaviour are used by the machines built on it:

* `Reachable` — the states some run from an initial state ends in;
* `Run s₀ tr s` — one run with its trace, oldest step first, for statements
  about what was read and written along the way;
* `RunWhere C` — the runs whose every step meets a condition on the trace so
  far, the state before the step, and the input.

Each comes with its induction rule (`Inductive.invariant`, `Run.invariant`,
`RunWhere.invariant`): what holds at the start and is kept by one step holds
throughout.
-/

namespace Dsip.Lib

universe u v w

/-- A labelled transition system: states `σ`, inputs `ι`, outputs `ο`. -/
structure TSys (σ : Type u) (ι : Type v) (ο : Type w) where
  init : σ → Prop
  step : σ → ι → ο → σ → Prop

namespace TSys

variable {σ : Type u} {ι : Type v} {ο : Type w} (M : TSys σ ι ο)

/-- A trace: the input and the output of every step, oldest first. -/
abbrev Trace (ι : Type v) (ο : Type w) := List (ι × ο)

/-! ## Reachable states -/

inductive Reachable : σ → Prop
  | init {s} : M.init s → Reachable s
  | step {s i o s'} : Reachable s → M.step s i o s' → Reachable s'

/-- `P` holds in every reachable state. -/
def Invariant (P : σ → Prop) : Prop := ∀ s, M.Reachable s → P s

/-- `P` holds initially and one step keeps it. -/
structure Inductive (P : σ → Prop) : Prop where
  init : ∀ s, M.init s → P s
  step : ∀ s i o s', P s → M.step s i o s' → P s'

variable {M}

theorem Inductive.invariant {P : σ → Prop} (h : M.Inductive P) : M.Invariant P := by
  intro s hs
  induction hs with
  | init hi => exact h.init _ hi
  | step _ hst ih => exact h.step _ _ _ _ ih hst

/-! ## Runs -/

/-- The runs from `s₀` whose every step meets `C`, a condition on the trace so
far, the state before the step, and the input. -/
inductive RunWhere (M : TSys σ ι ο) (C : Trace ι ο → σ → ι → Prop) (s₀ : σ) : Trace ι ο → σ → Prop
  | nil : RunWhere M C s₀ [] s₀
  | snoc {tr s i o s'} : RunWhere M C s₀ tr s → C tr s i → M.step s i o s' →
      RunWhere M C s₀ (tr ++ [(i, o)]) s'

/-- The runs from `s₀`, with no condition on their steps. -/
abbrev Run (M : TSys σ ι ο) : σ → Trace ι ο → σ → Prop := RunWhere M (fun _ _ _ => True)

theorem Run.extend {s₀ s s' : σ} {tr : Trace ι ο} {i : ι} {o : ο} (h : M.Run s₀ tr s)
    (hs : M.step s i o s') : M.Run s₀ (tr ++ [(i, o)]) s' :=
  RunWhere.snoc h trivial hs

theorem RunWhere.mono {C C' : Trace ι ο → σ → ι → Prop} {s₀ s : σ} {tr : Trace ι ο}
    (hC : ∀ tr s i, C tr s i → C' tr s i) (h : M.RunWhere C s₀ tr s) : M.RunWhere C' s₀ tr s := by
  induction h with
  | nil => exact .nil
  | snoc _ hc hs ih => exact ih.snoc (hC _ _ _ hc) hs

theorem Run.reachable {s₀ s : σ} {tr : Trace ι ο} (h : M.Run s₀ tr s)
    (h₀ : M.Reachable s₀) : M.Reachable s := by
  induction h with
  | nil => exact h₀
  | snoc _ _ hs ih => exact ih.step hs

theorem Reachable.exists_run {s : σ} (h : M.Reachable s) : ∃ s₀ tr, M.init s₀ ∧ M.Run s₀ tr s := by
  induction h with
  | init hi => exact ⟨_, [], hi, .nil⟩
  | step _ hs ih =>
    obtain ⟨s₀, tr, hi, hr⟩ := ih
    exact ⟨s₀, _, hi, Run.extend hr hs⟩

/-- The rule for conditional runs: `P` holds of the empty trace, and one step
that meets the condition keeps it. The step may use that the run so far is
one. -/
theorem RunWhere.invariant {C : Trace ι ο → σ → ι → Prop} {s₀ : σ} {P : Trace ι ο → σ → Prop} (h₀ : P [] s₀)
    (hstep : ∀ tr s i o s', M.RunWhere C s₀ tr s → P tr s → C tr s i → M.step s i o s' →
      P (tr ++ [(i, o)]) s')
    {tr : Trace ι ο} {s : σ} (h : M.RunWhere C s₀ tr s) : P tr s := by
  induction h with
  | nil => exact h₀
  | snoc hr hc hs ih => exact hstep _ _ _ _ _ hr ih hc hs

theorem RunWhere.append {C : Trace ι ο → σ → ι → Prop} {s₀ s₁ s₂ : σ} {tr₁ tr₂ : Trace ι ο}
    (h₁ : M.RunWhere C s₀ tr₁ s₁) (h₂ : M.RunWhere (fun tr => C (tr₁ ++ tr)) s₁ tr₂ s₂) :
    M.RunWhere C s₀ (tr₁ ++ tr₂) s₂ := by
  induction h₂ with
  | nil => simpa using h₁
  | snoc _ hc hs ih => simpa [List.append_assoc] using ih.snoc hc hs

/-- Simulation, step by step: every step of a run is matched by one of the other
machine, whose run meets its own condition. -/
theorem RunWhere.simulate {σ' ι' ο' : Type*} {M' : TSys σ' ι' ο'}
    {C : Trace ι ο → σ → ι → Prop} {C' : Trace ι' ο' → σ' → ι' → Prop} {s₀ : σ} {s₀' : σ'}
    {R : Trace ι ο → σ → Trace ι' ο' → σ' → Prop} (h₀ : R [] s₀ [] s₀')
    (hstep : ∀ tr s tr' s' i o t, R tr s tr' s' → C tr s i → M.step s i o t →
      ∃ i' o' t', C' tr' s' i' ∧ M'.step s' i' o' t' ∧ R (tr ++ [(i, o)]) t (tr' ++ [(i', o')]) t')
    {tr : Trace ι ο} {s : σ} (h : M.RunWhere C s₀ tr s) :
    ∃ tr' s', M'.RunWhere C' s₀' tr' s' ∧ R tr s tr' s' := by
  induction h with
  | nil => exact ⟨[], s₀', .nil, h₀⟩
  | snoc _ hc hs ih =>
    obtain ⟨tr', s', hrun, hrel⟩ := ih
    obtain ⟨i', o', t', hc', hs', hrel'⟩ := hstep _ _ tr' s' _ _ _ hrel hc hs
    exact ⟨_, t', .snoc hrun hc' hs', hrel'⟩

theorem Run.invariant {s₀ : σ} {P : Trace ι ο → σ → Prop} (h₀ : P [] s₀)
    (hstep : ∀ tr s i o s', M.Run s₀ tr s → P tr s → M.step s i o s' → P (tr ++ [(i, o)]) s')
    {tr : Trace ι ο} {s : σ} (h : M.Run s₀ tr s) : P tr s :=
  RunWhere.invariant h₀ (fun tr s i o s' hr hp _ hs => hstep tr s i o s' hr hp hs) h

theorem Run.append {s₀ s₁ s₂ : σ} {tr₁ tr₂ : Trace ι ο} (h₁ : M.Run s₀ tr₁ s₁)
    (h₂ : M.Run s₁ tr₂ s₂) : M.Run s₀ (tr₁ ++ tr₂) s₂ := by
  induction h₂ with
  | nil => simpa using h₁
  | snoc _ _ hs ih => simpa [List.append_assoc] using Run.extend ih hs

theorem Run.split {s₀ s : σ} {tr₁ tr₂ : Trace ι ο} (h : M.Run s₀ (tr₁ ++ tr₂) s) :
    ∃ s₁, M.Run s₀ tr₁ s₁ ∧ M.Run s₁ tr₂ s := by
  generalize htr : tr₁ ++ tr₂ = tr at h
  induction h generalizing tr₂ with
  | nil =>
    obtain ⟨rfl, rfl⟩ := List.append_eq_nil_iff.mp htr
    exact ⟨s₀, .nil, .nil⟩
  | @snoc tr s i o s' hr _ hs ih =>
    rcases List.eq_nil_or_concat tr₂ with rfl | ⟨init, last, rfl⟩
    · rw [List.append_nil] at htr
      subst htr
      exact ⟨s', Run.extend hr hs, .nil⟩
    · rw [List.concat_eq_append, ← List.append_assoc] at htr
      obtain ⟨hinit, hlast⟩ := List.append_inj' htr rfl
      obtain ⟨s₁, h₁, h₂⟩ := ih hinit
      obtain rfl : last = (i, o) := by simpa using hlast
      exact ⟨s₁, h₁, by simpa using Run.extend h₂ hs⟩

theorem Run.cons {s s₁ s₂ : σ} {i : ι} {o : ο} {tr : Trace ι ο} (hs : M.step s i o s₁)
    (h : M.Run s₁ tr s₂) : M.Run s ((i, o) :: tr) s₂ :=
  Run.append (Run.extend .nil hs) h

theorem Run.uncons {s s₂ : σ} {i : ι} {o : ο} {tr : Trace ι ο} (h : M.Run s ((i, o) :: tr) s₂) :
    ∃ s₁, M.step s i o s₁ ∧ M.Run s₁ tr s₂ := by
  obtain ⟨s₁, hfirst, hrest⟩ := @Run.split _ _ _ M s s₂ [(i, o)] tr h
  generalize htr : [(i, o)] = tr' at hfirst
  cases hfirst with
  | nil => cases htr
  | @snoc tr' s' i' o' _ hr _ hs =>
    have happend : [] ++ [(i, o)] = tr' ++ [(i', o')] := htr
    obtain ⟨hnil, heq⟩ := List.append_inj' happend rfl
    subst hnil
    obtain ⟨rfl, rfl⟩ := Prod.mk.inj (List.head_eq_of_cons_eq heq)
    generalize hnil : ([] : Trace ι ο) = tr' at hr
    cases hr with
    | nil => exact ⟨s₁, hs, hrest⟩
    | snoc => exact absurd hnil.symm (by simp)

/-! ## Paths -/

/-- One step, with the states before and after it. -/
structure Move (σ : Type u) (ι : Type v) (ο : Type w) where
  before : σ
  input : ι
  output : ο
  after : σ

/-- A run that shows its states, oldest step first. -/
inductive Path (M : TSys σ ι ο) (s₀ : σ) : List (Move σ ι ο) → σ → Prop
  | nil : Path M s₀ [] s₀
  | snoc {p s i o s'} : Path M s₀ p s → M.step s i o s' → Path M s₀ (p ++ [⟨s, i, o, s'⟩]) s'

theorem Path.invariant {s₀ : σ} {P : List (Move σ ι ο) → σ → Prop} (h₀ : P [] s₀)
    (hstep : ∀ p s i o s', M.Path s₀ p s → P p s → M.step s i o s' → P (p ++ [⟨s, i, o, s'⟩]) s')
    {p : List (Move σ ι ο)} {s : σ} (h : M.Path s₀ p s) : P p s := by
  induction h with
  | nil => exact h₀
  | snoc hp hs ih => exact hstep _ _ _ _ _ hp ih hs

theorem Path.run {s₀ s : σ} {p : List (Move σ ι ο)} (h : M.Path s₀ p s) : ∃ tr, M.Run s₀ tr s := by
  induction h with
  | nil => exact ⟨[], .nil⟩
  | snoc _ hs ih =>
    obtain ⟨tr, hr⟩ := ih
    exact ⟨_, Run.extend hr hs⟩

theorem RunWhere.path {C : Trace ι ο → σ → ι → Prop} {s₀ s : σ} {tr : Trace ι ο}
    (h : M.RunWhere C s₀ tr s) : ∃ p, M.Path s₀ p s ∧ tr = (p.map fun m => (m.input, m.output)) ∧
      ∀ m ∈ p, ∃ before, C before m.before m.input := by
  induction h with
  | nil => exact ⟨[], .nil, rfl, fun _ hm => absurd hm List.not_mem_nil⟩
  | @snoc tr s i o s' _ hc hs ih =>
    obtain ⟨p, hp, htr, hall⟩ := ih
    refine ⟨_, hp.snoc hs, by simp [htr], ?_⟩
    intro m hm
    rcases List.mem_append.mp hm with hm | hm
    · exact hall m hm
    · obtain rfl := List.mem_singleton.mp hm
      exact ⟨tr, hc⟩

theorem Path.append {s₀ s₁ s₂ : σ} {p₁ p₂ : List (Move σ ι ο)} (h₁ : M.Path s₀ p₁ s₁)
    (h₂ : M.Path s₁ p₂ s₂) : M.Path s₀ (p₁ ++ p₂) s₂ := by
  induction h₂ with
  | nil => simpa using h₁
  | snoc _ hs ih => simpa [List.append_assoc] using ih.snoc hs

theorem Run.path {s₀ s : σ} {tr : Trace ι ο} (h : M.Run s₀ tr s) :
    ∃ p, M.Path s₀ p s ∧ tr = p.map fun m => (m.input, m.output) := by
  induction h with
  | nil => exact ⟨[], .nil, rfl⟩
  | snoc _ _ hs ih =>
    obtain ⟨p, hp, htr⟩ := ih
    exact ⟨_, hp.snoc hs, by simp [htr]⟩

theorem Path.splitAt {s₀ s : σ} {p₁ p₂ : List (Move σ ι ο)} (h : M.Path s₀ (p₁ ++ p₂) s) :
    ∃ s₁, M.Path s₀ p₁ s₁ ∧ M.Path s₁ p₂ s := by
  generalize hp : p₁ ++ p₂ = p at h
  induction h generalizing p₂ with
  | nil =>
    obtain ⟨rfl, rfl⟩ := List.append_eq_nil_iff.mp hp
    exact ⟨s₀, .nil, .nil⟩
  | @snoc p s i o s' hrun hs ih =>
    rcases List.eq_nil_or_concat p₂ with rfl | ⟨init, last, rfl⟩
    · rw [List.append_nil] at hp
      subst hp
      exact ⟨s', hrun.snoc hs, .nil⟩
    · rw [List.concat_eq_append, ← List.append_assoc] at hp
      obtain ⟨hinit, hlast⟩ := List.append_inj' hp rfl
      obtain rfl := List.head_eq_of_cons_eq hlast
      obtain ⟨s₁, h₁, h₂⟩ := ih hinit
      rw [List.concat_eq_append]
      exact ⟨s₁, h₁, h₂.snoc hs⟩

theorem Path.split {s₀ s : σ} {p₁ p₂ : List (Move σ ι ο)} {m : Move σ ι ο} (h : M.Path s₀ (p₁ ++ m :: p₂) s) :
    M.Path s₀ p₁ m.before ∧ M.step m.before m.input m.output m.after ∧ M.Path m.after p₂ s := by
  generalize hp : p₁ ++ m :: p₂ = p at h
  induction h generalizing p₂ with
  | nil => exact absurd hp (by simp)
  | @snoc p s i o s' hrun hs ih =>
    rcases List.eq_nil_or_concat p₂ with rfl | ⟨init, last, rfl⟩
    · obtain ⟨rfl, hm⟩ := List.append_inj' hp rfl
      obtain rfl := List.head_eq_of_cons_eq hm
      exact ⟨hrun, hs, .nil⟩
    · rw [List.concat_eq_append, ← List.cons_append, ← List.append_assoc] at hp
      obtain ⟨hinit, hlast⟩ := List.append_inj' hp rfl
      obtain rfl := List.head_eq_of_cons_eq hlast
      obtain ⟨h₁, h₂, h₃⟩ := ih hinit
      rw [List.concat_eq_append]
      exact ⟨h₁, h₂, h₃.snoc hs⟩

theorem Path.uncons {s₀ s : σ} {p : List (Move σ ι ο)} {m : Move σ ι ο} (h : M.Path s₀ (m :: p) s) :
    m.before = s₀ ∧ M.step m.before m.input m.output m.after ∧ M.Path m.after p s := by
  obtain ⟨hnil, hs, hp⟩ := @Path.split _ _ _ M s₀ s [] p m h
  generalize hq : ([] : List (Move σ ι ο)) = q at hnil
  cases hnil with
  | nil => exact ⟨rfl, hs, hp⟩
  | snoc => exact absurd hq.symm (by simp)

/-! ## Machines given by a function -/

/-- The system of a total step function. -/
def ofTotal (init : σ → Prop) (step : σ → ι → σ × ο) : TSys σ ι ο where
  init := init
  step s i o s' := step s i = (s', o)

/-- The system of a step function that can fail: a step is a call that
returns. -/
def ofStep {ε : Type*} (init : σ → Prop) (step : σ → ι → Except ε (σ × ο)) : TSys σ ι ο where
  init := init
  step s i o s' := step s i = .ok (s', o)

section Exec

variable (step : σ → ι → σ × ο) (C : Trace ι ο → σ → ι → Prop)

/-- The trace and the end of a machine's run on a list of inputs. -/
def exec (s : σ) : List ι → Trace ι ο × σ
  | [] => ([], s)
  | i :: is =>
    let r := exec (step s i).1 is
    ((i, (step s i).2) :: r.1, r.2)

/-- Every input of the list meets the condition when it is its turn. -/
def Along : Trace ι ο → σ → List ι → Prop
  | _, _, [] => True
  | tr, s, i :: is => C tr s i ∧ Along (tr ++ [(i, (step s i).2)]) (step s i).1 is

instance decidableAlong [∀ tr s i, Decidable (C tr s i)] : ∀ tr s is, Decidable (Along step C tr s is)
  | _, _, [] => isTrue trivial
  | tr, s, i :: is =>
    let _ := decidableAlong (tr ++ [(i, (step s i).2)]) (step s i).1 is
    inferInstanceAs (Decidable (C tr s i ∧ _))

theorem exec_runWhere_aux (init : σ → Prop) {s₀ : σ} (is : List ι) :
    ∀ tr s, (ofTotal init step).RunWhere C s₀ tr s → Along step C tr s is →
      (ofTotal init step).RunWhere C s₀ (tr ++ (exec step s is).1) (exec step s is).2 := by
  induction is with
  | nil =>
    intro tr s h _
    simpa [exec] using h
  | cons i is ih =>
    intro tr s h ha
    have hstep := ih _ _ (RunWhere.snoc (o := (step s i).2) h ha.1 rfl) ha.2
    simpa [exec, List.append_assoc] using hstep

theorem exec_runWhere (init : σ → Prop) (s : σ) (is : List ι) (h : Along step C [] s is) :
    (ofTotal init step).RunWhere C s (exec step s is).1 (exec step s is).2 :=
  exec_runWhere_aux step C init is [] s .nil h

theorem exec_run (init : σ → Prop) (s : σ) (is : List ι) :
    (ofTotal init step).Run s (exec step s is).1 (exec step s is).2 := by
  induction is generalizing s with
  | nil => exact .nil
  | cons i is ih => exact Run.cons rfl (ih _)

/-- The moves and the end of a machine's run on a list of inputs. -/
def moves (s : σ) : List ι → List (Move σ ι ο) × σ
  | [] => ([], s)
  | i :: is =>
    let r := moves (step s i).1 is
    (⟨s, i, (step s i).2, (step s i).1⟩ :: r.1, r.2)

theorem moves_path (init : σ → Prop) (s : σ) (is : List ι) :
    (ofTotal init step).Path s (moves step s is).1 (moves step s is).2 := by
  induction is generalizing s with
  | nil => exact .nil
  | cons i is ih =>
    have hfirst : (ofTotal init step).Path s [⟨s, i, (step s i).2, (step s i).1⟩] (step s i).1 :=
      Path.nil.snoc rfl
    exact hfirst.append (ih _)

end Exec

section Exec?

variable {ε : Type*} (step : σ → ι → Except ε (σ × ο)) (C : Trace ι ο → σ → ι → Prop)

/-- `exec` for a step function that can fail: the run, when every call
returns. -/
def exec? (s : σ) : List ι → Option (Trace ι ο × σ)
  | [] => some ([], s)
  | i :: is =>
    match step s i with
    | .error _ => none
    | .ok (s', o) => (exec? s' is).map fun r => ((i, o) :: r.1, r.2)

/-- Every input meets the condition when it is its turn, and every call
returns. -/
def Along? : Trace ι ο → σ → List ι → Prop
  | _, _, [] => True
  | tr, s, i :: is =>
    match step s i with
    | .error _ => False
    | .ok (s', o) => C tr s i ∧ Along? (tr ++ [(i, o)]) s' is

instance decidableAlong? [∀ tr s i, Decidable (C tr s i)] : ∀ tr s is, Decidable (Along? step C tr s is)
  | _, _, [] => isTrue trivial
  | tr, s, i :: is =>
    match h : step s i with
    | .error _ => isFalse (by simp [Along?, h])
    | .ok (s', o) =>
      let _ := decidableAlong? (tr ++ [(i, o)]) s' is
      decidable_of_iff (C tr s i ∧ Along? step C (tr ++ [(i, o)]) s' is) (by simp [Along?, h])

theorem exec?_runWhere_aux (init : σ → Prop) {s₀ : σ} (is : List ι) :
    ∀ tr s, (ofStep init step).RunWhere C s₀ tr s → Along? step C tr s is →
      ∃ r, exec? step s is = some r ∧ (ofStep init step).RunWhere C s₀ (tr ++ r.1) r.2 := by
  induction is with
  | nil =>
    intro tr s h _
    exact ⟨([], s), rfl, by simpa using h⟩
  | cons i is ih =>
    intro tr s h ha
    unfold Along? at ha
    unfold exec?
    cases hs : step s i with
    | error e => simp [hs] at ha
    | ok r =>
      obtain ⟨s', o⟩ := r
      simp only [hs] at ha ⊢
      obtain ⟨r, hr, hrun⟩ := ih _ s' (.snoc h ha.1 hs) ha.2
      exact ⟨((i, o) :: r.1, r.2), by simp [hr], by simpa using hrun⟩

theorem exec?_runWhere (init : σ → Prop) (s : σ) (is : List ι) (p : Trace ι ο × σ → Bool)
    (h : Along? step C [] s is) (hp : (exec? step s is).any p = true) :
    ∃ tr s', (ofStep init step).RunWhere C s tr s' ∧ p (tr, s') = true := by
  obtain ⟨r, hr, hrun⟩ := exec?_runWhere_aux step C init is [] s .nil h
  rw [hr] at hp
  exact ⟨r.1, r.2, hrun, hp⟩

/-- `moves` for a step function that can fail. -/
def moves? (s : σ) : List ι → Option (List (Move σ ι ο) × σ)
  | [] => some ([], s)
  | i :: is =>
    match step s i with
    | .error _ => none
    | .ok (s', o) => (moves? s' is).map fun r => (⟨s, i, o, s'⟩ :: r.1, r.2)

theorem moves?_path (init : σ → Prop) {is : List ι} {s : σ} {r : List (Move σ ι ο) × σ}
    (h : moves? step s is = some r) : (ofStep init step).Path s r.1 r.2 := by
  induction is generalizing s r with
  | nil =>
    obtain rfl := Option.some.inj h
    exact .nil
  | cons i is ih =>
    unfold moves? at h
    cases hs : step s i with
    | error e => simp [hs] at h
    | ok so =>
      obtain ⟨s', o⟩ := so
      rw [hs] at h
      obtain ⟨r', hr', rfl⟩ := Option.map_eq_some_iff.mp h
      have hfirst : (ofStep init step).Path s [⟨s, i, o, s'⟩] s' := Path.nil.snoc hs
      exact hfirst.append (ih hr')

end Exec?

end TSys

end Dsip.Lib
