import Mathlib.Data.List.AList
import Mathlib.Data.List.Sort
import Mathlib.Data.Finset.Lattice.Fold
import Mathlib.Data.String.Basic
import Mathlib.Tactic

/-!
# Dictionaries and sorted views

`Dict α β` is Mathlib's association list with one value type. This module adds
the case-split form of its lookup laws, a map and a filter, and the two
sorted views a program takes of unordered data: the keys of a dictionary and
the members of a finite set, in increasing order.
-/

namespace Dsip.Lib

universe u v w

/-- A finite map from `α` to `β`. -/
abbrev Dict (α : Type u) (β : Type v) := AList (fun _ : α => β)

namespace Dict

variable {α : Type u} {β : Type v} {γ : Type w} [DecidableEq α]

def ofList (l : List (α × β)) : Dict α β := l.foldl (fun d e => d.insert e.1 e.2) ∅

theorem lookup_insert_eq (d : Dict α β) (a b : α) (v : β) :
    (d.insert b v).lookup a = if a = b then some v else d.lookup a := by
  split
  case isTrue h => rw [h, AList.lookup_insert]
  case isFalse h => exact AList.lookup_insert_ne h

theorem lookup_insert_congr {l l' : Dict α β} {k x : α} {v v' : β} (hv : v = v')
    (h : x ≠ k → l.lookup x = l'.lookup x) : (l.insert k v).lookup x = (l'.insert k v').lookup x := by
  rw [lookup_insert_eq, lookup_insert_eq]
  split
  case isTrue => exact congrArg some hv
  case isFalse hx => exact h hx

theorem lookup_erase_eq (d : Dict α β) (a b : α) :
    (d.erase b).lookup a = if a = b then none else d.lookup a := by
  split
  case isTrue h => rw [h, AList.lookup_erase]
  case isFalse h => exact AList.lookup_erase_ne h

theorem mem_iff_lookup {d : Dict α β} {a : α} : a ∈ d ↔ ∃ b, d.lookup a = some b := by
  rw [← AList.lookup_isSome, Option.isSome_iff_exists]

def values (d : Dict α β) : List β := d.entries.map Sigma.snd

theorem mem_values {d : Dict α β} {b : β} : b ∈ d.values ↔ ∃ a, d.lookup a = some b := by
  simp only [values, List.mem_map, Sigma.exists, exists_eq_right]
  exact exists_congr fun a => AList.mem_lookup_iff.symm.trans Option.mem_def

omit [DecidableEq α] in
private theorem keys_map_entries (f : β → γ) (l : List (Sigma fun _ : α => β)) :
    (l.map fun e => (⟨e.1, f e.2⟩ : Sigma fun _ : α => γ)).keys = l.keys := by
  simp [List.keys, Function.comp_def]

def map (f : β → γ) (d : Dict α β) : Dict α γ :=
  ⟨d.entries.map fun e => ⟨e.1, f e.2⟩, by
    have hd : d.entries.keys.Nodup := d.nodupKeys
    rwa [← keys_map_entries f] at hd⟩

theorem lookup_map (f : β → γ) (d : Dict α β) (a : α) : (d.map f).lookup a = (d.lookup a).map f := by
  have key : ∀ l : List (Sigma fun _ : α => β),
      (l.map fun e => (⟨e.1, f e.2⟩ : Sigma fun _ : α => γ)).dlookup a = (l.dlookup a).map f := by
    intro l
    induction l with
    | nil => rfl
    | cons e l ih =>
      obtain ⟨k, v⟩ := e
      by_cases hk : a = k
      · subst hk
        simp
      · have h₁ := List.dlookup_cons_ne (β := fun _ => γ)
          (l.map fun e => ⟨e.1, f e.2⟩) ⟨k, f v⟩ hk
        have h₂ := List.dlookup_cons_ne (β := fun _ => β) l ⟨k, v⟩ hk
        exact h₁.trans (ih.trans (congrArg _ h₂.symm))
  exact key d.entries

omit [DecidableEq α] in
theorem map_map_cancel {f : β → γ} {g : γ → β} (h : ∀ b, g (f b) = b) (d : Dict α β) :
    (d.map f).map g = d := by
  apply AList.ext
  simp [map, Function.comp_def, h]

/-- Keep the entries that satisfy `p`. -/
def filter (p : α → β → Bool) (d : Dict α β) : Dict α β :=
  ⟨d.entries.filter fun e => p e.1 e.2, List.NodupKeys.sublist List.filter_sublist d.nodupKeys⟩

theorem lookup_filter (p : α → β → Bool) (d : Dict α β) (a : α) :
    (d.filter p).lookup a = (d.lookup a).filter (p a) := by
  ext b
  have hmem : b ∈ (d.filter p).lookup a ↔ b ∈ d.lookup a ∧ p a b = true := by
    rw [AList.mem_lookup_iff, AList.mem_lookup_iff]
    exact List.mem_filter
  rw [← Option.mem_def, hmem, Option.filter_eq_some_iff, Option.mem_def]

/-- The entries from the first inserted to the last: `AList.insert` puts a new key first. -/
def inOrder (d : Dict α β) : List (α × β) := d.entries.reverse.map fun e => (e.1, e.2)

theorem inOrder_insert_new {d : Dict α β} {a : α} (h : a ∉ d) (b : β) :
    inOrder (d.insert a b) = d.inOrder ++ [(a, b)] := by
  have hentries : (d.insert a b).entries = ⟨a, b⟩ :: d.entries := AList.entries_insert_of_notMem h
  simp only [inOrder, hentries, List.reverse_cons, List.map_append, List.map_cons, List.map_nil]

theorem mem_inOrder {d : Dict α β} {e : α × β} : e ∈ d.inOrder ↔ d.lookup e.1 = some e.2 := by
  simp only [inOrder, List.mem_map, List.mem_reverse]
  rw [← Option.mem_def, AList.mem_lookup_iff]
  constructor
  · rintro ⟨⟨a, b⟩, he, rfl⟩
    exact he
  · exact fun he => ⟨⟨e.1, e.2⟩, he, rfl⟩

end Dict

/-! ## Sorted views -/

section Sorted

variable {α : Type u} [LinearOrder α]

/-- The members of a finite set in increasing order. Insertion sort keeps the
definition evaluable by the kernel. -/
def sorted (s : Finset α) : List α :=
  Quot.liftOn s.val (List.insertionSort (· ≤ ·)) fun l₁ l₂ h =>
    (((List.perm_insertionSort _ l₁).trans h).trans
      (List.perm_insertionSort _ l₂).symm).eq_of_pairwise'
      (List.pairwise_insertionSort _ _) (List.pairwise_insertionSort _ _)

theorem coe_sorted (s : Finset α) : (sorted s : Multiset α) = s.val := by
  rcases s with ⟨⟨l⟩, hl⟩
  exact Quot.sound (List.perm_insertionSort _ l)

@[simp] theorem mem_sorted {s : Finset α} {a : α} : a ∈ sorted s ↔ a ∈ s := by
  rw [← Multiset.mem_coe, coe_sorted, Finset.mem_val]

theorem nodup_sorted (s : Finset α) : (sorted s).Nodup := by
  rw [← Multiset.coe_nodup, coe_sorted]
  exact s.nodup

@[simp] theorem toFinset_sorted (s : Finset α) : (sorted s).toFinset = s := by
  ext a
  simp

/-- The keys of a dictionary in increasing order. -/
def Dict.sortedKeys {β : Type v} (d : Dict α β) : List α := d.keys.insertionSort (· ≤ ·)

@[simp] theorem Dict.mem_sortedKeys {β : Type v} {d : Dict α β} {a : α} : a ∈ d.sortedKeys ↔ a ∈ d := by
  rw [sortedKeys, List.mem_insertionSort, ← AList.mem_keys]

theorem Dict.nodup_sortedKeys {β : Type v} (d : Dict α β) : d.sortedKeys.Nodup :=
  (List.perm_insertionSort _ _).nodup_iff.mpr d.keys_nodup

theorem Dict.sortedKeys_congr {β : Type v} {γ : Type w} {d : Dict α β} {d' : Dict α γ}
    (h : ∀ a, a ∈ d ↔ a ∈ d') : d.sortedKeys = d'.sortedKeys := by
  have hperm : d.keys.Perm d'.keys := by
    apply (List.perm_ext_iff_of_nodup d.keys_nodup d'.keys_nodup).mpr
    intro a
    rw [← AList.mem_keys, ← AList.mem_keys]
    exact h a
  exact (((List.perm_insertionSort _ _).trans hperm).trans
    (List.perm_insertionSort _ _).symm).eq_of_pairwise'
      (List.pairwise_insertionSort _ _) (List.pairwise_insertionSort _ _)

def Dict.sortedEntries {β : Type v} (d : Dict α β) : List (α × β) :=
  d.sortedKeys.filterMap fun k => (d.lookup k).map (k, ·)

theorem Dict.sortedEntries_congr {β : Type v} {d d' : Dict α β}
    (h : ∀ a, d.lookup a = d'.lookup a) : d.sortedEntries = d'.sortedEntries := by
  have hkeys : d.sortedKeys = d'.sortedKeys :=
    sortedKeys_congr fun a => by rw [← AList.lookup_isSome, ← AList.lookup_isSome, h a]
  simp only [sortedEntries, hkeys, h]

theorem Dict.pairwise_sortedKeys {β : Type v} (d : Dict α β) : d.sortedKeys.Pairwise (· < ·) := by
  have hle : d.sortedKeys.Pairwise (· ≤ ·) := List.pairwise_insertionSort _ _
  refine (hle.and (Dict.nodup_sortedKeys d)).imp ?_
  rintro a b ⟨hab, hne⟩
  exact lt_of_le_of_ne hab hne

theorem sorted_eq {s : Finset α} {l : List α} (hl : l.Nodup) (h : ∀ a, a ∈ l ↔ a ∈ s) :
    l.insertionSort (· ≤ ·) = sorted s := by
  have hperm : l.Perm (sorted s) := by
    apply (List.perm_ext_iff_of_nodup hl (nodup_sorted s)).mpr
    intro a
    rw [mem_sorted]
    exact h a
  have hsorted : (sorted s).Pairwise (· ≤ ·) := by
    rcases s with ⟨⟨l'⟩, hl'⟩
    exact List.pairwise_insertionSort _ _
  exact ((List.perm_insertionSort _ _).trans hperm).eq_of_pairwise'
    (List.pairwise_insertionSort _ _) hsorted

theorem pairwise_sorted (s : Finset α) : (sorted s).Pairwise (· < ·) := by
  have hle : (sorted s).Pairwise (· ≤ ·) := by
    rcases s with ⟨⟨l⟩, hl⟩
    exact List.pairwise_insertionSort _ _
  refine (hle.and (nodup_sorted s)).imp ?_
  rintro a b ⟨hab, hne⟩
  exact lt_of_le_of_ne hab hne

/-- Two walks over increasing lists collect the same, when they do the same where
both pass and nothing elsewhere. -/
theorem flatMap_eq_of_sorted {β : Type v} {l l' : List α} {f g : α → List β}
    (hl : l.Pairwise (· < ·)) (hl' : l'.Pairwise (· < ·))
    (hboth : ∀ a ∈ l, a ∈ l' → f a = g a) (hleft : ∀ a ∈ l, a ∉ l' → f a = [])
    (hright : ∀ a ∈ l', a ∉ l → g a = []) : l.flatMap f = l'.flatMap g := by
  have hskip : ∀ (q : List α) (f : α → List β) (p : α → Bool), (∀ a ∈ q, p a = false → f a = []) →
      q.flatMap f = (q.filter p).flatMap f := by
    intro q f p h
    induction q with
    | nil => rfl
    | cons a q ih =>
      have hrest := ih fun b hb => h b (List.mem_cons_of_mem a hb)
      cases hp : p a with
      | true => rw [List.filter_cons_of_pos hp, List.flatMap_cons, List.flatMap_cons, hrest]
      | false =>
        rw [List.filter_cons_of_neg (by simp [hp]), List.flatMap_cons,
          h a List.mem_cons_self hp, List.nil_append, hrest]
  have hsame : l.filter (· ∈ l') = l'.filter (· ∈ l) := by
    have hperm : (l.filter (· ∈ l')).Perm (l'.filter (· ∈ l)) := by
      rw [List.perm_ext_iff_of_nodup (hl.imp ne_of_lt |>.filter _) (hl'.imp ne_of_lt |>.filter _)]
      intro a
      simp only [List.mem_filter, decide_eq_true_eq]
      exact and_comm
    refine List.Perm.eq_of_pairwise ?_ (hl.filter _) (hl'.filter _) hperm
    exact fun a b _ _ h₁ h₂ => absurd h₁ (lt_asymm h₂)
  rw [hskip l f (· ∈ l') fun a ha hno => hleft a ha (of_decide_eq_false hno),
    hskip l' g (· ∈ l) fun a ha hno => hright a ha (of_decide_eq_false hno), ← hsame]
  apply List.flatMap_congr
  intro a ha
  rw [List.mem_filter, decide_eq_true_eq] at ha
  exact hboth a ha.1 ha.2

end Sorted

end Dsip.Lib
