import Mathlib.Data.List.Sort
import Mathlib.Tactic

/-!
# Sorting by a key

Insertion sort is stable, so sorting by a key is collecting, key by key, the
elements that have it (`insertionSort_by_key`), and what comes first is the first
element with the least key there is (`head?_insertionSort_by_key`).
-/

namespace Dsip.Lib

universe u v

variable {α : Type u} {κ : Type v} [LinearOrder κ] (key : α → κ)

theorem orderedInsert_append {a : α} {before : List α} (h : ∀ b ∈ before, key b < key a)
    (after : List α) : (before ++ after).orderedInsert (fun a b => key a ≤ key b) a =
      before ++ after.orderedInsert (fun a b => key a ≤ key b) a := by
  induction before with
  | nil => rfl
  | cons b before ih =>
    have hb := h b List.mem_cons_self
    rw [List.cons_append, List.orderedInsert_cons, if_neg (not_le.mpr hb),
      ih fun c hc => h c (List.mem_cons_of_mem b hc)]
    rfl

theorem orderedInsert_of_le {a : α} {l : List α} (h : ∀ b ∈ l, key a ≤ key b) :
    l.orderedInsert (fun a b => key a ≤ key b) a = a :: l := by
  cases l with
  | nil => rfl
  | cons b l => rw [List.orderedInsert_cons, if_pos (h b List.mem_cons_self)]

theorem orderedInsert_flatMap {a : α} {ks : List κ} (hs : ks.Pairwise (· < ·)) (ha : key a ∈ ks)
    {f : κ → List α} (hf : ∀ k, ∀ b ∈ f k, key b = k) :
    (ks.flatMap f).orderedInsert (fun a b => key a ≤ key b) a =
      ks.flatMap fun k => if key a = k then a :: f k else f k := by
  induction ks with
  | nil => cases ha
  | cons k ks ih =>
    obtain ⟨hk, hks⟩ := List.pairwise_cons.mp hs
    rw [List.flatMap_cons, List.flatMap_cons]
    by_cases hak : key a = k
    · have hrest : ks.flatMap (fun k => if key a = k then a :: f k else f k) = ks.flatMap f := by
        apply List.flatMap_congr
        intro j hj
        rw [if_neg]
        intro h
        exact absurd (hk j hj) (h ▸ hak ▸ lt_irrefl _)
      rw [if_pos hak, hrest, List.cons_append]
      apply orderedInsert_of_le
      intro b hb
      rcases List.mem_append.mp hb with hb | hb
      · rw [hf k b hb, hak]
      · obtain ⟨j, hj, hb⟩ := List.mem_flatMap.mp hb
        rw [hf j b hb, hak]
        exact (hk j hj).le
    · have hmem : key a ∈ ks := (List.mem_cons.mp ha).resolve_left hak
      rw [if_neg hak, orderedInsert_append key, ih hks hmem]
      intro b hb
      rw [hf k b hb]
      exact hk _ hmem

theorem insertionSort_by_key (l : List α) {ks : List κ} (hs : ks.Pairwise (· < ·))
    (hl : ∀ a ∈ l, key a ∈ ks) : l.insertionSort (fun a b => key a ≤ key b) =
      ks.flatMap fun k => l.filter fun a => key a = k := by
  induction l with
  | nil => simp
  | cons a l ih =>
    have hf : ∀ k, ∀ b ∈ l.filter (fun b => key b = k), key b = k :=
      fun k b hb => of_decide_eq_true (List.mem_filter.mp hb).2
    rw [List.insertionSort_cons, ih fun b hb => hl b (List.mem_cons_of_mem a hb),
      orderedInsert_flatMap key hs (hl a List.mem_cons_self) hf]
    apply List.flatMap_congr
    intro k _
    rw [List.filter_cons]
    split <;> simp_all

theorem head?_insertionSort_by_key (l : List α) {ks : List κ} (hs : ks.Pairwise (· < ·))
    (hl : ∀ a ∈ l, key a ∈ ks) : (l.insertionSort fun a b => key a ≤ key b).head? =
      ks.findSome? fun k => l.find? fun a => key a = k := by
  rw [insertionSort_by_key key l hs hl, List.head?_flatMap]
  congr 1
  funext k
  exact List.head?_filter ..

end Dsip.Lib
