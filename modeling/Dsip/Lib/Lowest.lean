import Mathlib.Data.Set.Insert
import Mathlib.Data.Prod.Lex
import Mathlib.Data.List.Sort
import Mathlib.Tactic

/-!
# The lowest of a growing set

Elements come in one by one and some of them have a rank. What is kept is the
lowest of those that came in: a new element either is the lowest now
(`Lowest.eq_new`) or leaves the lowest as it was (`lowest_insert_of_not`). So
what is kept depends on what came in, not on when or how often.
-/

namespace Dsip.Lib

universe u v

variable {α : Type u} {κ : Type v} [LinearOrder κ] (rank : α → Option κ)

/-- `a` has a rank, and nothing else in `S` a lower one. -/
def Lowest (S : Set α) (a : α) : Prop := a ∈ S ∧ ∃ k, rank a = some k ∧ ∀ b ∈ S, ∀ j, rank b = some j → k ≤ j

variable {rank} {S : Set α} {a b : α}

theorem Lowest.unique (hrank : ∀ a b k, rank a = some k → rank b = some k → a = b)
    (ha : Lowest rank S a) (hb : Lowest rank S b) : a = b := by
  obtain ⟨hamem, k, hk, hka⟩ := ha
  obtain ⟨hbmem, j, hj, hjb⟩ := hb
  have hkj : k = j := le_antisymm (hka b hbmem j hj) (hjb a hamem k hk)
  exact hrank a b k hk (hkj ▸ hj)

theorem Lowest.of_subset {T : Set α} (h : Lowest rank S a) (hT : T ⊆ S) (ha : a ∈ T) : Lowest rank T a := by
  obtain ⟨-, k, hk, hlow⟩ := h
  exact ⟨ha, k, hk, fun b hb => hlow b (hT hb)⟩

theorem Lowest.eq_new (hrank : ∀ a b k, rank a = some k → rank b = some k → a = b)
    (hb : Lowest rank (insert b S) b) : Lowest rank (insert b S) a ↔ a = b := by
  constructor
  · intro ha
    exact ha.unique hrank hb
  · rintro rfl
    exact hb

theorem lowest_insert_of_not (hb : ¬ Lowest rank (insert b S) b) :
    Lowest rank (insert b S) a ↔ Lowest rank S a := by
  constructor
  · intro ha
    rcases ha.1 with rfl | hmem
    · exact absurd ha hb
    · exact ha.of_subset (Set.subset_insert b S) hmem
  · rintro ⟨hmem, k, hk, hlow⟩
    refine ⟨Set.mem_insert_of_mem b hmem, k, hk, ?_⟩
    rintro c (rfl | hc) j hj
    · by_contra hkj
      have hjk : j ≤ k := le_of_not_ge hkj
      refine hb ⟨Set.mem_insert c S, j, hj, ?_⟩
      rintro d (rfl | hd) i hi
      · exact (Option.some.inj (hj.symm.trans hi)).le
      · exact hjk.trans (hlow d hd i hi)
    · exact hlow c hc j hj

/-! ## Finding it in a list -/

theorem head?_insertionSort (key : α → κ) (a : α) (l : List α) :
    ((a :: l).insertionSort fun a b => key a ≤ key b).head? =
      match (l.insertionSort fun a b => key a ≤ key b).head? with
      | none => some a
      | some b => if key a ≤ key b then some a else some b := by
  rw [List.insertionSort_cons]
  cases l.insertionSort fun a b => key a ≤ key b with
  | nil => rfl
  | cons b rest =>
    rw [List.orderedInsert_cons]
    split <;> simp_all

/-- Of a list in increasing order, a stable sort by a key puts first the lowest
by key and then by itself. -/
theorem head?_insertionSort_eq_some [LinearOrder α] (key : α → κ) {l : List α}
    (hl : l.Pairwise (· < ·)) {a : α} : (l.insertionSort fun a b => key a ≤ key b).head? = some a ↔
      Lowest (fun b => some (toLex (key b, b))) {b | b ∈ l} a := by
  have hrank : ∀ a b k, some (toLex (key a, a)) = some k → some (toLex (key b, b)) = some k → a = b := by
    intro a b k ha hb
    exact congrArg (fun k => (ofLex k).2) (Option.some.inj (ha.trans hb.symm))
  induction l generalizing a with
  | nil =>
    simp [Lowest]
  | cons c l ih =>
    obtain ⟨hc, hl⟩ := List.pairwise_cons.mp hl
    have hset : {b | b ∈ c :: l} = insert c {b | b ∈ l} := by
      ext b
      simp
    rw [hset, head?_insertionSort]
    cases hfirst : (l.insertionSort fun a b => key a ≤ key b).head? with
    | none =>
      have hnil : l = [] := by
        rw [List.head?_eq_none_iff] at hfirst
        exact List.length_eq_zero_iff.mp
          ((List.length_insertionSort _ l).symm.trans (congrArg List.length hfirst))
      subst hnil
      have hlow : Lowest (fun b => some (toLex (key b, b))) (insert c {b | b ∈ []}) c := by
        refine ⟨Set.mem_insert c _, _, rfl, ?_⟩
        rintro b (rfl | hb) j hj
        · exact (Option.some.inj hj).le
        · cases hb
      rw [hlow.eq_new hrank]
      exact Option.some_inj.trans eq_comm
    | some b =>
      obtain ⟨hb, k, hk, hlow⟩ := (ih hl).mp hfirst
      obtain rfl := Option.some.inj hk
      dsimp only
      split
      case isTrue hcb =>
        have hpair : toLex (key c, c) ≤ toLex (key b, b) := by
          rcases hcb.lt_or_eq with hlt | heq
          · exact (Prod.Lex.toLex_lt_toLex.mpr (.inl hlt)).le
          · exact Prod.Lex.toLex_le_toLex.mpr (.inr ⟨heq, (hc b hb).le⟩)
        have hnew : Lowest (fun b => some (toLex (key b, b))) (insert c {b | b ∈ l}) c := by
          refine ⟨Set.mem_insert c _, _, rfl, ?_⟩
          rintro d (rfl | hd) j hj
          · exact (Option.some.inj hj).le
          · exact hpair.trans (hlow d hd j hj)
        rw [hnew.eq_new hrank]
        exact Option.some_inj.trans eq_comm
      case isFalse hcb =>
        have hnot : ¬ Lowest (fun b => some (toLex (key b, b))) (insert c {b | b ∈ l}) c := by
          rintro ⟨-, k, hk, hmin⟩
          obtain rfl := Option.some.inj hk
          have hle := hmin b (Set.mem_insert_of_mem c hb) _ rfl
          rcases Prod.Lex.toLex_le_toLex.mp hle with hlt | ⟨heq, -⟩
          · exact hcb hlt.le
          · exact hcb heq.le
        rw [lowest_insert_of_not hnot, ← hfirst]
        exact ih hl

end Dsip.Lib
