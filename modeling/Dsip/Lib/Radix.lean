import Mathlib.Tactic

/-!
# Digits of a fixed width, most significant first

The number that digits stand for, the digits of a number, and the order of the two: digits of one
width are ordered, letter by letter, as their numbers are (`radix_lt_radix`).
-/

namespace Dsip.Lib

/-- The number that digits stand for. -/
def radix (b : ℕ) (ds : List ℕ) : ℕ := ds.foldl (fun n d => n * b + d) 0

/-- A number in so many digits; what does not fit is cut off. -/
def radixDigits (b : ℕ) : ℕ → ℕ → List ℕ
  | 0, _ => []
  | width + 1, n => radixDigits b width (n / b) ++ [n % b]

variable {b n width : ℕ} {ds es : List ℕ}

@[simp] theorem radix_nil (b : ℕ) : radix b [] = 0 := rfl

theorem radix_concat (b : ℕ) (ds : List ℕ) (d : ℕ) : radix b (ds ++ [d]) = radix b ds * b + d := by
  simp [radix]

theorem radix_append (b : ℕ) (ds es : List ℕ) : radix b (ds ++ es) = radix b ds * b ^ es.length + radix b es := by
  induction es using List.reverseRecOn with
  | nil => simp
  | append_singleton es e ih =>
    rw [← List.append_assoc, radix_concat, radix_concat, ih, List.length_append, List.length_singleton, pow_succ]
    ring

theorem radix_cons (b d : ℕ) (ds : List ℕ) : radix b (d :: ds) = d * b ^ ds.length + radix b ds := by
  have h := radix_append b [d] ds
  simpa [radix] using h

theorem radix_lt (h : ∀ d ∈ ds, d < b) : radix b ds < b ^ ds.length := by
  induction ds with
  | nil => simp
  | cons d ds ih =>
    have hd : d < b := h d List.mem_cons_self
    have hds := ih fun e he => h e (List.mem_cons_of_mem _ he)
    rw [radix_cons, List.length_cons, pow_succ]
    calc d * b ^ ds.length + radix b ds < d * b ^ ds.length + b ^ ds.length := by omega
      _ = (d + 1) * b ^ ds.length := by ring
      _ ≤ b * b ^ ds.length := Nat.mul_le_mul_right _ hd
      _ = b ^ ds.length * b := by ring

@[simp] theorem length_radixDigits (b width n : ℕ) : (radixDigits b width n).length = width := by
  induction width generalizing n with
  | zero => rfl
  | succ width ih => simp [radixDigits, ih]

theorem lt_of_mem_radixDigits (hb : 0 < b) {d : ℕ} (hd : d ∈ radixDigits b width n) : d < b := by
  induction width generalizing n with
  | zero => simp [radixDigits] at hd
  | succ width ih =>
    simp only [radixDigits, List.mem_append, List.mem_singleton] at hd
    rcases hd with hd | rfl
    · exact ih hd
    · exact Nat.mod_lt _ hb

theorem radix_radixDigits (b : ℕ) (h : n < b ^ width) : radix b (radixDigits b width n) = n := by
  induction width generalizing n with
  | zero =>
    have hn : n = 0 := by simpa using h
    simp [radixDigits, hn]
  | succ width ih =>
    have hquotient : n / b < b ^ width := by
      rw [pow_succ] at h
      exact Nat.div_lt_of_lt_mul (by rwa [mul_comm] at h)
    rw [radixDigits, radix_concat, ih hquotient]
    exact Nat.div_add_mod' n b

theorem radixDigits_radix (h : ∀ d ∈ ds, d < b) : radixDigits b ds.length (radix b ds) = ds := by
  induction ds using List.reverseRecOn with
  | nil => rfl
  | append_singleton ds d ih =>
    have hd : d < b := h d (by simp)
    have hds := ih fun e he => h e (by simp [he])
    have hquotient : (radix b ds * b + d) / b = radix b ds := by
      rw [mul_comm, Nat.mul_add_div (by omega), Nat.div_eq_of_lt hd, add_zero]
    have hlast : (radix b ds * b + d) % b = d := by
      rw [mul_comm, Nat.mul_add_mod, Nat.mod_eq_of_lt hd]
    rw [List.length_append, List.length_singleton, radixDigits, radix_concat, hquotient, hlast, hds]

theorem radix_lt_radix (hlength : ds.length = es.length) (hds : ∀ d ∈ ds, d < b) (hes : ∀ e ∈ es, e < b) :
    radix b ds < radix b es ↔ ds < es := by
  induction ds generalizing es with
  | nil =>
    cases es with
    | nil => simp
    | cons e es => simp at hlength
  | cons d ds ih =>
    cases es with
    | nil => simp at hlength
    | cons e es =>
      have hlength : ds.length = es.length := by simpa using hlength
      have hds' : ∀ d ∈ ds, d < b := fun d hd => hds d (List.mem_cons_of_mem _ hd)
      have hes' : ∀ e ∈ es, e < b := fun e he => hes e (List.mem_cons_of_mem _ he)
      have hd := radix_lt hds'
      have he := radix_lt hes'
      rw [radix_cons, radix_cons, hlength, List.cons_lt_cons_iff, ← ih hlength hds' hes']
      rw [hlength] at hd
      -- the first digits decide, unless they are one
      rcases lt_trichotomy d e with hlt | rfl | hgt
      · have hmul : (d + 1) * b ^ es.length ≤ e * b ^ es.length := Nat.mul_le_mul_right _ hlt
        rw [add_mul, one_mul] at hmul
        constructor
        · intro _
          exact .inl hlt
        · intro _
          omega
      · constructor
        · intro h
          exact .inr ⟨rfl, by omega⟩
        · rintro (h | ⟨-, h⟩)
          · omega
          · omega
      · have hmul : (e + 1) * b ^ es.length ≤ d * b ^ es.length := Nat.mul_le_mul_right _ hgt
        rw [add_mul, one_mul] at hmul
        constructor
        · intro h
          omega
        · rintro (h | ⟨h, -⟩)
          · omega
          · omega

theorem map_lt_map {α β : Type} [LT α] [LT β] {f : α → β} {xs ys : List α}
    (hlt : ∀ x ∈ xs, ∀ y ∈ ys, (f x < f y ↔ x < y)) (heq : ∀ x ∈ xs, ∀ y ∈ ys, (f x = f y ↔ x = y)) :
    xs.map f < ys.map f ↔ xs < ys := by
  induction xs generalizing ys with
  | nil =>
    cases ys with
    | nil => simp
    | cons y ys => simp
  | cons x xs ih =>
    cases ys with
    | nil => simp
    | cons y ys =>
      have hlt' : ∀ x ∈ xs, ∀ y ∈ ys, (f x < f y ↔ x < y) := fun x hx y hy =>
        hlt x (List.mem_cons_of_mem _ hx) y (List.mem_cons_of_mem _ hy)
      have heq' : ∀ x ∈ xs, ∀ y ∈ ys, (f x = f y ↔ x = y) := fun x hx y hy =>
        heq x (List.mem_cons_of_mem _ hx) y (List.mem_cons_of_mem _ hy)
      rw [List.map_cons, List.map_cons, List.cons_lt_cons_iff, List.cons_lt_cons_iff, ih hlt' heq',
        hlt x List.mem_cons_self y List.mem_cons_self, heq x List.mem_cons_self y List.mem_cons_self]

end Dsip.Lib
