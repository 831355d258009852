import Dsip.Transparency.SearchTree

/-!
# The ladder of versions

`base_ladder`: the versions that a search looks up for the greatest one. It doubles
until it is above the version, then bisects, and ends at the version and the next one.
-/

namespace Dsip.Transparency

/-- The first loop of `base_ladder`, with `k` versions so far. -/
def ladderUp (t : Nat) : Nat → Nat → Option (List Nat)
  | 0, _ => none
  | fuel + 1, k =>
    let v := (1 <<< k) - 1
    if t < v then some [v] else (ladderUp t fuel (k + 1)).map (v :: ·)

def bisect (t : Nat) : Nat → Nat → Nat → Option (List Nat)
  | 0, lo, hi => if lo + 1 < hi then none else some []
  | fuel + 1, lo, hi =>
    if lo + 1 < hi then
      let v := (lo + hi) / 2
      (if v ≤ t then bisect t fuel v hi else bisect t fuel lo v).map (v :: ·)
    else some []

def baseLadder (fuel t : Nat) : Option (List Nat) := do
  let out ← ladderUp t fuel 0
  let hi ← out.reverse[0]?
  let lo ← out.reverse[1]?
  let mids ← bisect t fuel lo hi
  return out ++ mids

section Ladder

variable {t : Nat}

/-- The versions that the doubling goes through. -/
def doubled (k : Nat) : Nat := 2 ^ k - 1

theorem doubled_lt {j k : Nat} (h : j < k) : doubled j < doubled k := by
  have hlt : 2 ^ j < 2 ^ k := Nat.pow_lt_pow_right (by decide) h
  have hpos : 0 < 2 ^ j := by positivity
  unfold doubled
  omega

theorem doubled_le {j k : Nat} (h : j ≤ k) : doubled j ≤ doubled k := by
  rcases Nat.lt_or_eq_of_le h with hlt | rfl
  · exact Nat.le_of_lt (doubled_lt hlt)
  · exact Nat.le_refl _

theorem ladderUp_eq {top : Nat} (hle : doubled top ≤ t) (hlt : t < doubled (top + 1)) (d : Nat) :
    ∀ k, k + d = top + 1 → ∀ fuel, d + 1 ≤ fuel →
      ladderUp t fuel k = some ((List.range' k (d + 1)).map doubled) := by
  induction d with
  | zero =>
    intro k hk fuel hfuel
    obtain rfl : k = top + 1 := by omega
    cases fuel with
    | zero => omega
    | succ fuel =>
      have habove : t < (1 <<< (top + 1)) - 1 := by
        rw [Nat.one_shiftLeft]
        exact hlt
      unfold ladderUp
      rw [if_pos habove, Nat.one_shiftLeft]
      rfl
  | succ d ih =>
    intro k hk fuel hfuel
    cases fuel with
    | zero => omega
    | succ fuel =>
      have hbelow : ¬ t < (1 <<< k) - 1 := by
        have hdoubled : doubled k ≤ doubled top := doubled_le (by omega)
        rw [Nat.one_shiftLeft]
        exact Nat.not_lt.mpr (hdoubled.trans hle)
      unfold ladderUp
      rw [if_neg hbelow, ih (k + 1) (by omega) fuel (by omega), Nat.one_shiftLeft]
      rfl

theorem bisect_eq (width : Nat) : ∀ lo hi, hi - lo ≤ width → lo ≤ t → t < hi →
      ∃ mids, (∀ fuel, width ≤ fuel → bisect t fuel lo hi = some mids) ∧ (∀ v ∈ mids, lo < v ∧ v < hi) ∧ mids.Nodup ∧
        t ∈ lo :: mids ∧ t + 1 ∈ hi :: mids := by
  induction width with
  | zero =>
    intro lo hi hwidth hlo hhi
    omega
  | succ width ih =>
    intro lo hi hwidth hlo hhi
    by_cases hgap : lo + 1 < hi
    · by_cases hmid : (lo + hi) / 2 ≤ t
      · obtain ⟨mids, hread, hinside, hnodup, ht, ht'⟩ := ih ((lo + hi) / 2) hi (by omega) hmid hhi
        refine ⟨(lo + hi) / 2 :: mids, fun fuel hfuel => ?_, fun v hv => ?_, ?_, ?_, ?_⟩
        · cases fuel with
          | zero => omega
          | succ fuel =>
            unfold bisect
            rw [if_pos hgap]
            dsimp only
            rw [if_pos hmid, hread fuel (by omega)]
            rfl
        · rcases List.mem_cons.mp hv with rfl | hv
          · omega
          · have hv := hinside v hv
            omega
        · exact List.nodup_cons.mpr ⟨fun hmem => absurd (hinside _ hmem).1 (Nat.lt_irrefl _), hnodup⟩
        · exact List.mem_cons_of_mem _ ht
        · rcases List.mem_cons.mp ht' with heq | hmem
          · exact heq ▸ List.mem_cons_self
          · exact List.mem_cons_of_mem _ (List.mem_cons_of_mem _ hmem)
      · obtain ⟨mids, hread, hinside, hnodup, ht, ht'⟩ := ih lo ((lo + hi) / 2) (by omega) hlo (by omega)
        refine ⟨(lo + hi) / 2 :: mids, fun fuel hfuel => ?_, fun v hv => ?_, ?_, ?_, ?_⟩
        · cases fuel with
          | zero => omega
          | succ fuel =>
            unfold bisect
            rw [if_pos hgap]
            dsimp only
            rw [if_neg hmid, hread fuel (by omega)]
            rfl
        · rcases List.mem_cons.mp hv with rfl | hv
          · omega
          · have hv := hinside v hv
            omega
        · exact List.nodup_cons.mpr ⟨fun hmem => absurd (hinside _ hmem).2 (Nat.lt_irrefl _), hnodup⟩
        · rcases List.mem_cons.mp ht with heq | hmem
          · exact heq ▸ List.mem_cons_self
          · exact List.mem_cons_of_mem _ (List.mem_cons_of_mem _ hmem)
        · exact List.mem_cons_of_mem _ ht'
    · have heq : t = lo ∧ t + 1 = hi := by omega
      refine ⟨[], fun fuel _ => ?_, nofun, List.nodup_nil, ?_, ?_⟩
      · cases fuel <;> (unfold bisect; exact if_neg hgap)
      · rw [heq.1]
        exact List.mem_cons_self
      · rw [heq.2]
        exact List.mem_cons_self

/-- The ladder of a version is found, repeats nothing, and has the version and the
next one; so that only this version answers as it does. -/
theorem baseLadder_eq (t : Nat) :
    ∃ out, (∀ fuel, t + 2 ≤ fuel → baseLadder fuel t = some out) ∧ out.Nodup ∧ t ∈ out ∧ t + 1 ∈ out ∧
      ∀ t', (∀ v ∈ out, v ≤ t' ↔ v ≤ t) → t' = t := by
  -- `top` doublings are not above the version
  obtain ⟨top, hle, hlt⟩ : ∃ top, doubled top ≤ t ∧ t < doubled (top + 1) := by
    have hlog := (Nat.log2_eq_iff (n := t + 1) (by omega)).mp rfl
    unfold doubled
    exact ⟨(t + 1).log2, by omega, by omega⟩
  have htop : top ≤ t := (Nat.le_pred_of_lt Nat.lt_two_pow_self).trans hle
  have hup := ladderUp_eq hle hlt (top + 1) 0 (by omega)
  obtain ⟨mids, hmids, hinside, hnodup, ht, ht'⟩ :=
    bisect_eq (doubled (top + 1) - doubled top) (doubled top) (doubled (top + 1)) (Nat.le_refl _) hle hlt
  have hwidth : doubled (top + 1) - doubled top ≤ t + 1 := by
    unfold doubled at hle ⊢
    rw [pow_succ]
    omega
  rw [← List.range_eq_range'] at hup
  have hreverse : ((List.range (top + 1 + 1)).map doubled).reverse =
      doubled (top + 1) :: doubled top :: ((List.range top).map doubled).reverse := by
    rw [List.range_succ, List.range_succ, List.map_append, List.map_append, List.reverse_append, List.reverse_append]
    rfl
  have hmem {k : Nat} (hk : k ≤ top + 1) : doubled k ∈ (List.range (top + 1 + 1)).map doubled :=
    List.mem_map_of_mem (List.mem_range.mpr (by omega))
  have hin : t ∈ (List.range (top + 1 + 1)).map doubled ++ mids ∧ t + 1 ∈ (List.range (top + 1 + 1)).map doubled ++ mids := by
    constructor
    · rcases List.mem_cons.mp ht with heq | hmids
      · exact List.mem_append_left _ (heq ▸ hmem (Nat.le_succ top))
      · exact List.mem_append_right _ hmids
    · rcases List.mem_cons.mp ht' with heq | hmids
      · exact List.mem_append_left _ (heq ▸ hmem (Nat.le_refl _))
      · exact List.mem_append_right _ hmids
  refine ⟨(List.range (top + 1 + 1)).map doubled ++ mids, fun fuel hfuel => ?_, ?_, hin.1, hin.2, fun v hv => ?_⟩
  · unfold baseLadder
    rw [hup fuel (by omega), Option.bind_eq_bind, Option.bind_some, hreverse]
    simp only [List.getElem?_cons_zero, List.getElem?_cons_succ, Option.bind_eq_bind, Option.bind_some,
      hmids fuel (by omega)]
    rfl
  · refine List.nodup_append.mpr ⟨?_, hnodup, ?_⟩
    · have hinj : Function.Injective doubled := StrictMono.injective fun _ _ h => doubled_lt h
      exact (List.nodup_map_iff hinj).mpr List.nodup_range
    · rintro x hx y hy rfl
      obtain ⟨k, hk, rfl⟩ := List.mem_map.mp hx
      have hbetween := hinside _ hy
      rcases Nat.lt_or_ge k (top + 1) with hlow | hhigh
      · have hdoubled := doubled_le (Nat.le_of_lt_succ hlow)
        omega
      · have hdoubled := doubled_le hhigh
        omega
  · have hlow := (hv t hin.1).mpr (Nat.le_refl t)
    have hhigh := mt (hv (t + 1) hin.2).mp (by omega)
    omega

end Ladder

/-- Every tree has a frontier and every version a ladder. -/
theorem search_defined : (∀ n, 1 ≤ n → ∃ out, (∀ fuel, n ≤ fuel → frontier fuel n = .ok out) ∧
      (∃ root, bstRoot n = .ok root ∧ out.head? = some root) ∧ out.getLast? = some (n - 1) ∧ (∀ y ∈ out, y < n) ∧
      out.IsChain fun y z => y < z ∧ ∃ r, bstRoot (n - (y + 1)) = .ok r ∧ z = y + 1 + r) ∧
    ∀ t, ∃ out, (∀ fuel, t + 2 ≤ fuel → baseLadder fuel t = some out) ∧ out.Nodup ∧ t ∈ out ∧ t + 1 ∈ out ∧
      ∀ t', (∀ v ∈ out, v ≤ t' ↔ v ≤ t) → t' = t :=
  ⟨fun _ hn => frontier_eq hn, baseLadder_eq⟩

theorem search_defined_five :
    (∃ out, frontier 5 5 = .ok out ∧ out.getLast? = some 4) ∧ ∃ out, baseLadder 7 5 = some out ∧ 6 ∈ out := by
  obtain ⟨out, hread, -, hlast, -⟩ := search_defined.1 5 (by decide)
  obtain ⟨ladder, hladder, -, -, hnext, -⟩ := search_defined.2 5
  exact ⟨⟨out, hread 5 (Nat.le_refl 5), hlast⟩, ladder, hladder 7 (Nat.le_refl 7), hnext⟩

end Dsip.Transparency
