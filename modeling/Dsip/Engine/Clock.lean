import Dsip.Engine.Endpoint

/-!
# The clock of an endpoint

`advance` moves the clock to a target, stopping at every instant at which
something happens by itself: a timer expires, a grant with keys reaches its
`valid_until`, a scope is due to rotate. A stop is one `tick`. The loops carry
fuel.
-/

namespace Dsip.Engine

open Dsip.Lib Dsip.Registry

namespace Endpoint

def fire (e : Endpoint) (t : Timer) : Except Fault Endpoint :=
  match e.sessions.lookup t.session with
  | none => .error .noSession
  | some s =>
    let e := e.emit (.timerFire t.name)
    if t.name ≠ .ringLocal ∧ s.Attempting then .ok (e.timeOut s)
    else if t.name = .ringLocal ∧ s.state = .alerting then
      .ok ((e.send (.reject s.peer s.id "user.no-answer" none)).endSession s
        (some "user.no-answer") false)
    else .ok e

/-- The timer to fire next: of those due, the first by deadline and start. -/
def firstDue (e : Endpoint) : Option Timer :=
  ((e.timers.filter (·.deadline ≤ e.now)).insertionSort Timer.Before).head?

/-- The session timers due now, one after another. -/
def fireDue : Nat → Endpoint → Except Fault Endpoint
  | fuel, e =>
    match e.firstDue with
    | none => .ok e
    | some t =>
      match fuel with
      | 0 => .error .unfinished
      | fuel + 1 => ({ e with timers := e.timers.erase t }.fire t).bind (fireDue fuel)

/-- The instants at which something happens by itself. -/
def instants (e : Endpoint) : List Nat :=
  e.timers.map (·.deadline) ++
    (e.contacts.grantsIssued.values.filter fun g => Contacts.GrantIssued.Running g).map
      (·.validUntil) ++
    e.contacts.due.values

/-- One turn of the loop of `advance`, at an instant. -/
def tick (e : Endpoint) (instant : Nat) : Except Fault Endpoint :=
  let e := { e with now := max e.now instant }
  (e.fireDue e.timers.length).bind fun e =>
    let e := { e with contacts := e.contacts.endLapsed e.now }
    (e.contacts.rotateDue e.now).map e.withContacts

/-- The loop of `advance`: up to the target instant by instant. -/
def advanceUntil (target : Nat) : Nat → Endpoint → Except Fault Endpoint
  | fuel, e =>
    match (e.instants.filter (· ≤ target)).min? with
    | none => .ok { e with now := target }
    | some instant =>
      match fuel with
      | 0 => .error .unfinished
      | fuel + 1 => (e.tick instant).bind (advanceUntil target fuel)

/-- A turn fires a timer, ends a grant with keys, which makes at most two scopes
due, or rotates a scope. -/
def turns (e : Endpoint) : Nat :=
  e.timers.length +
    3 * (e.contacts.grantsIssued.values.filter fun g => Contacts.GrantIssued.Running g).length +
    e.contacts.due.values.length

def advance (e : Endpoint) (seconds : Nat) : Except Fault Endpoint := e.advanceUntil (e.now + seconds) e.turns

/-! ## The rule of `advance`

What firing a timer keeps, what the grants and keys of the contacts do not
matter to, and what survives the clock moving past no timer, `advance` keeps. -/

variable {e e' : Endpoint}

theorem firstDue_mem {t : Timer} (h : e.firstDue = some t) : t ∈ e.timers ∧ t.deadline ≤ e.now := by
  have hmem := List.mem_of_mem_head? h
  rw [List.mem_insertionSort, List.mem_filter] at hmem
  simpa using hmem

theorem min?_le_all {l : List Nat} {n : Nat} (h : l.min? = some n) : ∀ i ∈ l, n ≤ i :=
  fun _ hi => (List.min?_eq_some_iff.mp h).2 _ hi

variable {target instant : Nat}

theorem instant_le (h : (e.instants.filter (· ≤ target)).min? = some instant) :
    instant ≤ target ∧ ∀ t ∈ e.timers, instant ≤ t.deadline := by
  have hmem := (List.min?_eq_some_iff.mp h).1
  rw [List.mem_filter, decide_eq_true_eq] at hmem
  refine ⟨hmem.2, ?_⟩
  intro t ht
  by_cases hle : t.deadline ≤ target
  · apply min?_le_all h
    rw [List.mem_filter]
    refine ⟨?_, by simpa using hle⟩
    simp only [instants, List.mem_append, List.mem_map]
    exact .inl (.inl ⟨t, ht, rfl⟩)
  · have := hmem.2
    omega

theorem lt_deadline (h : (e.instants.filter (· ≤ target)).min? = none) :
    ∀ t ∈ e.timers, target < t.deadline := by
  intro t ht
  by_contra hle
  rw [List.min?_eq_none_iff, List.filter_eq_nil_iff] at h
  apply h t.deadline
  · simp only [instants, List.mem_append, List.mem_map]
    exact .inl (.inl ⟨t, ht, rfl⟩)
  · simpa using hle

theorem bind_ok {α β : Type} {x : Except Fault α} {f : α → Except Fault β} {b : β}
    (h : x.bind f = .ok b) : ∃ a, x = .ok a ∧ f a = .ok b := by
  cases x with
  | error fault => cases h
  | ok a => exact ⟨a, rfl, h⟩

theorem map_ok {α β : Type} {x : Except Fault α} {f : α → β} {b : β} (h : x.map f = .ok b) :
    ∃ a, x = .ok a ∧ f a = b := by
  cases x with
  | error fault => cases h
  | ok a => exact ⟨a, rfl, Except.ok.inj h⟩

section Rule

variable {P : Endpoint → Prop}

/-- The steps `advance` is made of keep `P`. -/
structure Keeps (P : Endpoint → Prop) : Prop where
  /-- The clock moves on, past no timer that is still to expire. -/
  clock : ∀ e n, P e → e.now ≤ n → (∀ t ∈ e.timers, e.now ≤ t.deadline → n ≤ t.deadline) →
    P { e with now := n }
  fire : ∀ e t e', P e → t ∈ e.timers → t.deadline ≤ e.now →
    { e with timers := e.timers.erase t }.fire t = .ok e' → P e'
  lapse : ∀ e, P e → P { e with contacts := e.contacts.endLapsed e.now }
  rotate : ∀ e r, P e → e.contacts.rotateDue e.now = .ok r → P (e.withContacts r)

theorem fireDue_rule {fuel : Nat} (hfire : ∀ e t e', P e → t ∈ e.timers → t.deadline ≤ e.now →
      { e with timers := e.timers.erase t }.fire t = .ok e' → P e') :
    ∀ {e : Endpoint}, P e → e.fireDue fuel = .ok e' → P e' := by
  induction fuel with
  | zero =>
    intro e he h
    unfold fireDue at h
    split at h
    case h_1 =>
      cases h
      exact he
    case h_2 => cases h
  | succ fuel ih =>
    intro e he h
    unfold fireDue at h
    split at h
    case h_1 =>
      cases h
      exact he
    case h_2 t ht =>
      obtain ⟨e₁, hfired, hrest⟩ := bind_ok h
      obtain ⟨hmem, hdue⟩ := firstDue_mem ht
      exact ih (hfire e t e₁ he hmem hdue hfired) hrest

theorem fire_now {t : Timer} (h : e.fire t = .ok e') : e'.now = e.now := by
  unfold fire at h
  split at h
  case h_1 => cases h
  case h_2 s _ =>
    dsimp only at h
    split at h
    case isTrue =>
      cases h
      exact ((only_timeOut _ _ s rfl).mpr (only_self _ s.id)).now
    case isFalse =>
      split at h
      case isTrue =>
        cases h
        exact ((only_endSession _ _ s rfl _ _).mpr (only_self _ s.id)).now
      case isFalse =>
        cases h
        rfl

theorem tick_now (h : e.tick instant = .ok e') : e'.now = max e.now instant := by
  obtain ⟨e₁, hfired, hrest⟩ := bind_ok h
  obtain ⟨r, -, rfl⟩ := map_ok hrest
  show e₁.now = max e.now instant
  refine fireDue_rule (P := fun e₁ => e₁.now = max e.now instant) ?_ rfl hfired
  intro e₂ t e₃ hnow _ _ hfire
  rw [fire_now hfire]
  exact hnow

variable (hP : Keeps P)
include hP

theorem Keeps.tick (he : P e) (hi : ∀ t ∈ e.timers, instant ≤ t.deadline)
    (h : e.tick instant = .ok e') : P e' := by
  have hclock : P { e with now := max e.now instant } := by
    apply hP.clock e _ he (Nat.le_max_left ..)
    intro t ht hnow
    have := hi t ht
    omega
  obtain ⟨e₁, hfired, hrest⟩ := bind_ok h
  obtain ⟨r, hr, rfl⟩ := map_ok hrest
  exact hP.rotate _ r (hP.lapse e₁ (fireDue_rule hP.fire hclock hfired)) hr

theorem Keeps.advanceUntil {fuel : Nat} : ∀ {e : Endpoint}, P e → e.now ≤ target →
    e.advanceUntil target fuel = .ok e' → P e' := by
  -- no instant up to the target is left
  have hdone : ∀ {e : Endpoint}, P e → e.now ≤ target →
      (e.instants.filter (· ≤ target)).min? = none → P { e with now := target } := by
    intro e he hnow hnone
    apply hP.clock e target he hnow
    intro t ht _
    exact Nat.le_of_lt (lt_deadline hnone t ht)
  induction fuel with
  | zero =>
    intro e he hnow h
    unfold Endpoint.advanceUntil at h
    split at h
    case h_1 hnone =>
      cases h
      exact hdone he hnow hnone
    case h_2 => cases h
  | succ fuel ih =>
    intro e he hnow h
    unfold Endpoint.advanceUntil at h
    split at h
    case h_1 hnone =>
      cases h
      exact hdone he hnow hnone
    case h_2 instant hnext =>
      obtain ⟨hle, hall⟩ := instant_le hnext
      obtain ⟨e₁, htick, hrest⟩ := bind_ok h
      apply ih (hP.tick he hall htick) _ hrest
      rw [tick_now htick]
      omega

theorem Keeps.advance {seconds : Nat} (he : P e) (h : e.advance seconds = .ok e') : P e' :=
  hP.advanceUntil he (Nat.le_add_right ..) h

end Rule

end Endpoint

end Dsip.Engine
