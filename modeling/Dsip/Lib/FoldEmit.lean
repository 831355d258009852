import Dsip.Lib.Dict

/-!
# Loops that emit

`foldEmit f s l` runs `f` over a list, threading a state and collecting what
every turn writes, in order. `foldEmit_invariant` carries a property of the
state and of what has been written through the loop. `foldEmit_keys` sums up a
loop over distinct keys in which every turn concerns the entry of its own key;
`sweep` is such a loop over the entries of a dictionary.
-/

namespace Dsip.Lib

universe u v w

variable {σ : Type u} {α : Type v} {ε : Type w}

/-- Run `f` over the list, collecting the outputs. -/
def foldEmit (f : σ → α → σ × List ε) : σ → List α → σ × List ε
  | s, [] => (s, [])
  | s, a :: as =>
    let rest := foldEmit f (f s a).1 as
    (rest.1, (f s a).2 ++ rest.2)

@[simp] theorem foldEmit_nil (f : σ → α → σ × List ε) (s : σ) : foldEmit f s [] = (s, []) := rfl

@[simp] theorem foldEmit_cons (f : σ → α → σ × List ε) (s : σ) (a : α) (as : List α) :
    foldEmit f s (a :: as) = ((foldEmit f (f s a).1 as).1, (f s a).2 ++ (foldEmit f (f s a).1 as).2) := rfl

theorem foldEmit_append (f : σ → α → σ × List ε) (s : σ) (as bs : List α) : foldEmit f s (as ++ bs) =
      ((foldEmit f (foldEmit f s as).1 bs).1, (foldEmit f s as).2 ++ (foldEmit f (foldEmit f s as).1 bs).2) := by
  induction as generalizing s with
  | nil => rfl
  | cons a as ih =>
    rw [List.cons_append, foldEmit_cons, foldEmit_cons, ih]
    simp

theorem foldEmit_map {β : Type*} (f : σ → α → σ × List ε) (g : β → α) (s : σ) (bs : List β) :
    foldEmit f s (bs.map g) = foldEmit (fun s b => f s (g b)) s bs := by
  induction bs generalizing s with
  | nil => rfl
  | cons b bs ih => rw [List.map_cons, foldEmit_cons, foldEmit_cons, ih]

theorem foldEmit_split {f : σ → α → σ × List ε} {l : List α} {s : σ} {out rest : List ε} {e : ε}
    (h : (foldEmit f s l).2 = out ++ e :: rest) :
    ∃ pre a post before after, l = pre ++ a :: post ∧ (f (foldEmit f s pre).1 a).2 = before ++ e :: after ∧
      out = (foldEmit f s pre).2 ++ before ∧ rest = after ++ (foldEmit f (f (foldEmit f s pre).1 a).1 post).2 := by
  induction l generalizing s out with
  | nil => exact absurd h.symm (List.append_ne_nil_of_right_ne_nil out (List.cons_ne_nil e rest))
  | cons a l ih =>
    rw [foldEmit_cons] at h
    rcases List.append_eq_append_iff.mp h with ⟨mid, hout, hrest⟩ | ⟨mid, hhead, hrest⟩
    · obtain ⟨pre, b, post, before, after, hl, hturn, hmid, hlater⟩ := ih hrest
      refine ⟨a :: pre, b, post, before, after, by rw [hl]; rfl, hturn, ?_, hlater⟩
      rw [hout, hmid, foldEmit_cons, List.append_assoc]
    · cases mid with
      | nil =>
        have hnil : (foldEmit f (f s a).1 l).2 = [] ++ e :: rest := hrest.symm
        obtain ⟨pre, b, post, before, after, hl, hturn, hmid, hlater⟩ := ih hnil
        refine ⟨a :: pre, b, post, before, after, by rw [hl]; rfl, hturn, ?_, hlater⟩
        rw [foldEmit_cons, List.append_assoc, ← hmid, hhead]
        simp
      | cons e' mid =>
        obtain ⟨rfl, htail⟩ := List.cons.inj hrest
        exact ⟨[], a, l, out, mid, rfl, hhead, rfl, htail⟩

theorem foldEmit_invariant {f : σ → α → σ × List ε} {P : σ → Prop} {l : List α}
    (h : ∀ a ∈ l, ∀ s, P s → P (f s a).1) : ∀ s, P s → P (foldEmit f s l).1 := by
  induction l with
  | nil => exact fun s hs => hs
  | cons a as ih =>
    intro s hs
    exact ih (fun b hb => h b (List.mem_cons_of_mem _ hb)) _ (h a List.mem_cons_self s hs)

theorem foldEmit_forall {f : σ → α → σ × List ε} {Q : ε → Prop} {l : List α}
    (h : ∀ a ∈ l, ∀ s, ∀ e ∈ (f s a).2, Q e) : ∀ s, ∀ e ∈ (foldEmit f s l).2, Q e := by
  induction l with
  | nil => simp
  | cons a as ih =>
    intro s e he
    rcases List.mem_append.mp he with he | he
    · exact h a List.mem_cons_self s e he
    · exact ih (fun b hb => h b (List.mem_cons_of_mem _ hb)) _ e he

/-- Two loops in step: what relates the states before a turn relates them after
it, and both turns write the same. -/
theorem foldEmit_rel {τ : Type*} {β : Type*} {f : σ → α → σ × List ε} {f' : τ → β → τ × List ε}
    {q : α → β} {R : σ → τ → Prop} {l : List α}
    (h : ∀ a ∈ l, ∀ s t, R s t → R (f s a).1 (f' t (q a)).1 ∧ (f s a).2 = (f' t (q a)).2) :
    ∀ s t, R s t → R (foldEmit f s l).1 (foldEmit f' t (l.map q)).1 ∧
      (foldEmit f s l).2 = (foldEmit f' t (l.map q)).2 := by
  induction l with
  | nil => exact fun s t hR => ⟨hR, rfl⟩
  | cons a l ih =>
    intro s t hR
    obtain ⟨hR', ho⟩ := h a List.mem_cons_self s t hR
    obtain ⟨hR'', ho'⟩ := ih (fun b hb => h b (List.mem_cons_of_mem a hb)) _ _ hR'
    refine ⟨hR'', ?_⟩
    rw [List.map_cons, foldEmit_cons, foldEmit_cons, ho, ho']

/-! ## Loops over distinct keys -/

section Keys

variable {κ β γ : Type*} [DecidableEq κ] {view : σ → κ → β} {env : σ → γ}

/-- A loop over distinct keys, where a turn reads the entry of its key and what
no turn changes, and changes that entry alone. -/
theorem foldEmit_keys {f : σ → κ → σ × List ε} {g : γ → κ → β → β × List ε}
    (henv : ∀ s k, env (f s k).1 = env s) (hown : ∀ s k, view (f s k).1 k = (g (env s) k (view s k)).1)
    (hother : ∀ s k j, j ≠ k → view (f s k).1 j = view s j)
    (hout : ∀ s k, (f s k).2 = (g (env s) k (view s k)).2) {ks : List κ} (hnd : ks.Nodup) :
    ∀ s, env (foldEmit f s ks).1 = env s ∧ (∀ j, view (foldEmit f s ks).1 j =
        if j ∈ ks then (g (env s) j (view s j)).1 else view s j) ∧
      (foldEmit f s ks).2 = ks.flatMap fun k => (g (env s) k (view s k)).2 := by
  induction ks with
  | nil => exact fun s => ⟨rfl, fun j => by simp, rfl⟩
  | cons k ks ih =>
    intro s
    obtain ⟨hk, hks⟩ := List.nodup_cons.mp hnd
    obtain ⟨henv', hview, hout'⟩ := ih hks (f s k).1
    refine ⟨henv'.trans (henv s k), ?_, ?_⟩
    · intro j
      rw [foldEmit_cons, hview, henv]
      by_cases hj : j = k
      · subst hj
        rw [if_neg hk, if_pos List.mem_cons_self, hown]
      · simp only [hother s k j hj, List.mem_cons, hj, false_or]
    · have hrest : ks.flatMap (fun j => (g (env (f s k).1) j (view (f s k).1 j)).2) =
          ks.flatMap fun j => (g (env s) j (view s j)).2 := by
        apply List.flatMap_congr
        intro j hj
        rw [henv, hother s k j (fun h => hk (h ▸ hj))]
      show (f s k).2 ++ (foldEmit f (f s k).1 ks).2 = _
      rw [hout', hrest, hout, List.flatMap_cons]

theorem foldl_keys {f : σ → κ → σ} {g : γ → κ → β → β} (henv : ∀ s k, env (f s k) = env s)
    (hown : ∀ s k, view (f s k) k = g (env s) k (view s k))
    (hother : ∀ s k j, j ≠ k → view (f s k) j = view s j) {ks : List κ} (hnd : ks.Nodup) :
    ∀ s, env (ks.foldl f s) = env s ∧
      ∀ j, view (ks.foldl f s) j = if j ∈ ks then g (env s) j (view s j) else view s j := by
  induction ks with
  | nil => exact fun s => ⟨rfl, fun j => by simp⟩
  | cons k ks ih =>
    intro s
    obtain ⟨hk, hks⟩ := List.nodup_cons.mp hnd
    obtain ⟨henv', hview⟩ := ih hks (f s k)
    refine ⟨henv'.trans (henv s k), ?_⟩
    intro j
    rw [List.foldl_cons, hview, henv]
    by_cases hj : j = k
    · subst hj
      rw [if_neg hk, if_pos List.mem_cons_self, hown]
    · simp only [hother s k j hj, List.mem_cons, hj, false_or]

end Keys

/-! ## Loops over a dictionary -/

section Sweep

variable {κ β : Type*} [LinearOrder κ]

/-- Change every entry, in the order of the keys, collecting the outputs. -/
def sweep (g : κ → β → β × List ε) (d : Dict κ β) : Dict κ β × List ε :=
  foldEmit (fun d k =>
    match d.lookup k with
    | none => (d, [])
    | some b => (d.insert k (g k b).1, (g k b).2)) d d.sortedKeys

theorem sweep_spec (g : κ → β → β × List ε) (d : Dict κ β) :
    (∀ k, (sweep g d).1.lookup k = (d.lookup k).map fun b => (g k b).1) ∧
    (sweep g d).2 = d.sortedKeys.flatMap fun k => (d.lookup k).elim [] fun b => (g k b).2 := by
  let turn (d : Dict κ β) (k : κ) : Dict κ β × List ε :=
    match d.lookup k with
    | none => (d, [])
    | some b => (d.insert k (g k b).1, (g k b).2)
  let entry (_ : Unit) (k : κ) (v : Option β) : Option β × List ε :=
    (v.map fun b => (g k b).1, v.elim [] fun b => (g k b).2)
  have hown : ∀ d k, (turn d k).1.lookup k = (entry () k (d.lookup k)).1 := by
    intro d k
    simp only [turn, entry]
    cases h : d.lookup k with
    | none => exact h
    | some b => exact AList.lookup_insert d
  have hother : ∀ d k j, j ≠ k → (turn d k).1.lookup j = d.lookup j := by
    intro d k j hj
    simp only [turn]
    cases d.lookup k with
    | none => rfl
    | some b => exact AList.lookup_insert_ne hj
  have hout : ∀ d k, (turn d k).2 = (entry () k (d.lookup k)).2 := by
    intro d k
    simp only [turn, entry]
    cases d.lookup k <;> rfl
  have hkeys := @foldEmit_keys _ _ _ _ _ _ (fun d : Dict κ β => d.lookup) (fun _ => ()) turn
    entry (fun _ _ => rfl) hown hother hout _ (Dict.nodup_sortedKeys d) d
  refine ⟨?_, hkeys.2.2⟩
  intro k
  refine (hkeys.2.1 k).trans ?_
  split
  case isTrue => rfl
  case isFalse hk =>
    rw [Dict.mem_sortedKeys, ← AList.lookup_eq_none] at hk
    rw [hk]
    rfl

end Sweep

end Dsip.Lib
