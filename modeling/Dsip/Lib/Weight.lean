import Dsip.Lib.Dict

/-!
# Weighing a dictionary

`weight f d` sums `f` over the stored values. Setting or removing a key changes
it by the weights of the old and the new value.
-/

namespace Dsip.Lib.Dict

universe u v

variable {α : Type u} {β : Type v} [DecidableEq α]

/-- The sum of `f` over the stored values. -/
def weight (f : β → Nat) (d : Dict α β) : Nat := (d.values.map f).sum

theorem weight_erase (f : β → Nat) (d : Dict α β) (a : α) :
    weight f (d.erase a) + ((d.lookup a).map f).getD 0 = d.weight f := by
  have key : ∀ l : List (Sigma fun _ : α => β), l.NodupKeys →
      (((l.kerase a).map Sigma.snd).map f).sum + ((l.dlookup a).map f).getD 0 =
        ((l.map Sigma.snd).map f).sum := by
    intro l hl
    induction l with
    | nil => rfl
    | cons e l ih =>
      obtain ⟨k, v⟩ := e
      by_cases hk : a = k
      · subst hk
        have herase : List.kerase a (⟨a, v⟩ :: l) = l := List.kerase_cons_eq rfl
        have hlookup : (List.dlookup a (⟨a, v⟩ :: l) : Option β) = some v := List.dlookup_cons_eq l a v
        rw [herase, hlookup]
        simp only [Option.map_some, Option.getD_some, List.map_cons, List.sum_cons]
        omega
      · have hne : (List.dlookup a (⟨k, v⟩ :: l) : Option β) = l.dlookup a := List.dlookup_cons_ne l ⟨k, v⟩ hk
        have herase : List.kerase a (⟨k, v⟩ :: l) = ⟨k, v⟩ :: l.kerase a := List.kerase_cons_ne hk
        have hrest := ih (List.nodupKeys_cons.mp hl).2
        rw [herase, hne]
        simp only [List.map_cons, List.sum_cons]
        omega
  exact key d.entries d.nodupKeys

theorem weight_insert (f : β → Nat) (d : Dict α β) (a : α) (b : β) :
    weight f (d.insert a b) + ((d.lookup a).map f).getD 0 = d.weight f + f b := by
  have herase := weight_erase f d a
  have hinsert : weight f (d.insert a b) = f b + weight f (d.erase a) := by
    show ((((d.insert a b).entries.map Sigma.snd)).map f).sum = _
    rw [AList.entries_insert]
    simp only [List.map_cons, List.sum_cons]
    rfl
  omega

theorem le_weight (f : β → Nat) {d : Dict α β} {a : α} {b : β} (h : d.lookup a = some b) :
    f b ≤ d.weight f := by
  have herase := weight_erase f d a
  rw [h] at herase
  simp only [Option.map_some, Option.getD_some] at herase
  omega

omit [DecidableEq α] in
theorem weight_eq_filter (p : β → Bool) (n : Nat) (d : Dict α β) :
    d.weight (fun b => if p b then n else 0) = n * (d.values.filter p).length := by
  unfold weight
  induction d.values with
  | nil => rfl
  | cons b bs ih =>
    rw [List.map_cons, List.sum_cons, ih, List.filter_cons]
    split
    case isTrue h => rw [List.length_cons, Nat.mul_succ, Nat.add_comm]
    case isFalse h => rw [Nat.zero_add]

end Dsip.Lib.Dict
