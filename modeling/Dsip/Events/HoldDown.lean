import Dsip.Events.AlarmList
import Dsip.Lib.Timers

/-!
# The clear hold-down

A gateway holds a clear for `hold_s`; a raise of the same alarm, or an inform, drops it. To one
key the machine is a `Slot`, which has at most one clear in it (`slot_run`). What a run deposits
of a key is read off its slot.
-/

namespace Dsip.Events

open Dsip.Lib

/-- A device's report of an alarm; `rest` is what the hold-down hands on unread. -/
structure DeviceReport (ρ : Type) where
  resource : String
  type : String
  qualifier : Option String
  cleared : Bool
  inform : Bool
  rest : ρ

namespace DeviceReport

variable {ρ : Type}

def key (r : DeviceReport ρ) : AlarmKey := keyOf r.resource r.type r.qualifier

/-- The report with a qualifier. -/
def normal (r : DeviceReport ρ) : DeviceReport ρ := { r with qualifier := some (r.qualifier.getD "") }

@[simp] theorem key_normal (r : DeviceReport ρ) : r.normal.key = r.key := rfl

@[simp] theorem cleared_normal (r : DeviceReport ρ) : r.normal.cleared = r.cleared := rfl

/-- A report that is never held, and drops what is held. -/
def settles (r : DeviceReport ρ) : Bool := r.inform || !r.cleared

end DeviceReport

namespace HoldDown

inductive Event (ρ ε : Type) where
  | report (r : DeviceReport ρ)
  | event (e : ε)
  | advance (n : Nat)

inductive Emit (ρ ε : Type) where
  | report (r : DeviceReport ρ)
  | event (e : ε)

end HoldDown

structure HoldDown (ρ : Type) where
  now : Int
  hold : Nat
  /-- A held clear and when it is due, by key. -/
  held : Dict AlarmKey (Int × DeviceReport ρ)

namespace HoldDown

variable {ρ ε : Type}

def init (now : Int) (hold : Nat) : HoldDown ρ where
  now := now
  hold := hold
  held := ∅

/-- The clears that are due, by time and key. -/
def dueClears (h : HoldDown ρ) : List (Int ×ₗ AlarmKey) :=
  ripe h.held.keys (fun k => (h.held.lookup k).map (·.1)) h.now

def release (h : HoldDown ρ) (k : AlarmKey) : HoldDown ρ × List (Emit ρ ε) :=
  match h.held.lookup k with
  | none => (h, [])
  | some (_, r) => ({ h with held := h.held.erase k }, [.report r])

def step (h : HoldDown ρ) : Event ρ ε → HoldDown ρ × List (Emit ρ ε)
  | .report report =>
    let r := report.normal
    let k := r.key
    if r.inform then ({ h with held := h.held.erase k }, [.report r])
    else if r.cleared then
      if h.hold = 0 then (h, [.report r])
      else if k ∈ h.held then (h, [])
      else ({ h with held := h.held.insert k (h.now + h.hold, r) }, [])
    else ({ h with held := h.held.erase k }, [.report r])
  | .event e => (h, [.event e])
  | .advance n =>
    let h := { h with now := h.now + n }
    foldEmit release h (h.dueClears.map fun x => (ofLex x).2)

/-- The machine after a list of events, and what it deposited. -/
def run (h : HoldDown ρ) (es : List (Event ρ ε)) : HoldDown ρ × List (Emit ρ ε) := foldEmit step h es

/-! ## One key -/

/-- The reports of a key among what is deposited. -/
def reportsOf (k : AlarmKey) (out : List (Emit ρ ε)) : List (DeviceReport ρ) :=
  out.filterMap fun o =>
    match o with
    | .report r => if r.key = k then some r else none
    | .event _ => none

/-- What a run deposits of a key. -/
def deposited (k : AlarmKey) (h : HoldDown ρ) (es : List (Event ρ ε)) : List (DeviceReport ρ) :=
  reportsOf k (h.run es).2

/-- The time, and the clear of one key. -/
abbrev Slot (ρ : Type) := Int × Option (Int × DeviceReport ρ)

def slotStep (hold : Nat) (k : AlarmKey) (s : Slot ρ) : Event ρ ε → Slot ρ × List (DeviceReport ρ)
  | .report r =>
    if r.key ≠ k then (s, [])
    else if r.settles then ((s.1, none), [r.normal])
    else if hold = 0 then (s, [r.normal])
    else
      match s.2 with
      | some _ => (s, [])
      | none => ((s.1, some (s.1 + hold, r.normal)), [])
  | .event _ => (s, [])
  | .advance n =>
    match s.2 with
    | none => ((s.1 + n, none), [])
    | some (due, r) => if due ≤ s.1 + n then ((s.1 + n, none), [r]) else ((s.1 + n, some (due, r)), [])

/-- What a machine is to a key. -/
def slot (h : HoldDown ρ) (k : AlarmKey) : Slot ρ := (h.now, h.held.lookup k)

/-- Each held clear is a clear of its key. -/
def Keyed (h : HoldDown ρ) : Prop := ∀ k due r, h.held.lookup k = some (due, r) → r.key = k

@[simp] theorem reportsOf_nil (k : AlarmKey) : reportsOf k ([] : List (Emit ρ ε)) = [] := rfl

theorem reportsOf_append (k : AlarmKey) (a b : List (Emit ρ ε)) :
    reportsOf k (a ++ b) = reportsOf k a ++ reportsOf k b := List.filterMap_append ..

theorem reportsOf_report (k : AlarmKey) (r : DeviceReport ρ) :
    reportsOf k ([.report r] : List (Emit ρ ε)) = if r.key = k then [r] else [] := by
  unfold reportsOf
  by_cases h : r.key = k
  · simp [h]
  · simp [h]

theorem keyed_init (now : Int) (hold : Nat) : Keyed (init now hold : HoldDown ρ) := by
  intro k due r h
  cases h

theorem keyed_insert {h : HoldDown ρ} (hkeyed : h.Keyed) {r : DeviceReport ρ} (due : Int) :
    Keyed { h with held := h.held.insert r.key (due, r) } := by
  intro j due' r' hj
  rw [Dict.lookup_insert_eq] at hj
  split at hj
  · rename_i heq
    cases hj
    exact heq.symm
  · exact hkeyed j due' r' hj

theorem keyed_erase {h : HoldDown ρ} (hkeyed : h.Keyed) (k : AlarmKey) : Keyed { h with held := h.held.erase k } := by
  intro j due r hj
  rw [Dict.lookup_erase_eq] at hj
  split at hj
  · cases hj
  · exact hkeyed j due r hj

theorem release_keys (h : HoldDown ρ) {ks : List AlarmKey} (hnodup : ks.Nodup) :
    ((foldEmit (ε := Emit ρ ε) release h ks).1.now = h.now ∧ (foldEmit (ε := Emit ρ ε) release h ks).1.hold = h.hold) ∧
      (∀ k, k ∈ ks → (foldEmit (ε := Emit ρ ε) release h ks).1.held.lookup k = none) ∧
      (∀ k, k ∉ ks → (foldEmit (ε := Emit ρ ε) release h ks).1.held.lookup k = h.held.lookup k) ∧
      (foldEmit (ε := Emit ρ ε) release h ks).2 = ks.flatMap fun k => (h.held.lookup k).elim [] fun e => [.report e.2] := by
  have hloop := @foldEmit_keys _ _ _ _ _ _ (fun (h : HoldDown ρ) k => h.held.lookup k) (fun h => (h.now, h.hold))
    (release (ε := ε)) (fun _ _ v => (none, v.elim [] fun e => [.report e.2])) ?_ ?_ ?_ ?_ ks hnodup h
  · obtain ⟨henv, hview, hout⟩ := hloop
    refine ⟨Prod.mk.inj henv, fun k hk => ?_, fun k hk => ?_, hout⟩
    · rw [hview k, if_pos hk]
    · rw [hview k, if_neg hk]
  · intro h k
    unfold release
    split
    · rfl
    · rfl
  · intro h k
    unfold release
    cases hk : h.held.lookup k with
    | none => exact hk
    | some e => exact AList.lookup_erase k h.held
  · intro h k j hj
    unfold release
    cases h.held.lookup k with
    | none => rfl
    | some e => exact AList.lookup_erase_ne hj
  · intro h k
    unfold release
    cases hk : h.held.lookup k with
    | none => rfl
    | some e => rfl

theorem reportsOf_released {h : HoldDown ρ} (hkeyed : h.Keyed) {ks : List AlarmKey} (hnodup : ks.Nodup) (k : AlarmKey) :
    let out := ks.flatMap fun j => (h.held.lookup j).elim [] fun e => ([.report e.2] : List (Emit ρ ε))
    (k ∈ ks → reportsOf k out = (h.held.lookup k).elim [] fun e => [e.2]) ∧ (k ∉ ks → reportsOf k out = []) := by
  induction ks with
  | nil => exact ⟨fun hk => absurd hk List.not_mem_nil, fun _ => rfl⟩
  | cons j ks ih =>
    obtain ⟨hj, hnodup⟩ := List.nodup_cons.mp hnodup
    obtain ⟨hmem, hnot⟩ := ih hnodup
    have hown : reportsOf k ((h.held.lookup j).elim [] fun e => ([.report e.2] : List (Emit ρ ε))) =
        if j = k then (h.held.lookup k).elim [] (fun e => [e.2]) else [] := by
      cases hlookup : h.held.lookup j with
      | none =>
        split
        · rename_i heq
          rw [← heq, hlookup]
          rfl
        · rfl
      | some e =>
        have hkey := hkeyed j e.1 e.2 hlookup
        show reportsOf k [.report e.2] = _
        rw [reportsOf_report, hkey]
        split
        · rename_i heq
          rw [← heq, hlookup]
          rfl
        · rfl
    dsimp only
    rw [List.flatMap_cons, reportsOf_append, hown]
    by_cases heq : j = k
    · subst heq
      rw [if_pos rfl, hnot hj, List.append_nil]
      exact ⟨fun _ => rfl, fun hk => absurd List.mem_cons_self hk⟩
    · rw [if_neg heq, List.nil_append]
      constructor
      · intro hk
        exact hmem ((List.mem_cons.mp hk).resolve_left fun h => heq h.symm)
      · intro hk
        exact hnot fun h => hk (List.mem_cons_of_mem _ h)

theorem step_report (h : HoldDown ρ) (r : DeviceReport ρ) : h.step (.report r : Event ρ ε) =
      if r.settles then ({ h with held := h.held.erase r.key }, [.report r.normal])
      else if h.hold = 0 then (h, [.report r.normal])
      else if r.key ∈ h.held then (h, [])
      else ({ h with held := h.held.insert r.key (h.now + h.hold, r.normal) }, []) := by
  have hinform : r.normal.inform = r.inform := rfl
  have hcleared : r.normal.cleared = r.cleared := rfl
  simp only [step, DeviceReport.settles, hinform, hcleared, DeviceReport.key_normal]
  by_cases hi : r.inform = true
  · simp [hi]
  · by_cases hc : r.cleared = true
    · simp only [hi, hc]
      rfl
    · simp [hi, hc]

theorem step_slot_report {h : HoldDown ρ} (hkeyed : h.Keyed) (r : DeviceReport ρ) (k : AlarmKey) :
    (h.step (.report r : Event ρ ε)).1.Keyed ∧ (h.step (.report r : Event ρ ε)).1.hold = h.hold ∧
      (h.step (.report r : Event ρ ε)).1.slot k = (slotStep h.hold k (h.slot k) (.report r : Event ρ ε)).1 ∧
      reportsOf k (h.step (.report r : Event ρ ε)).2 = (slotStep h.hold k (h.slot k) (.report r : Event ρ ε)).2 := by
  have hkey : r.normal.key = r.key := rfl
  rw [step_report]
  unfold slotStep slot
  by_cases hsettles : r.settles = true
  · rw [if_pos hsettles]
    refine ⟨keyed_erase hkeyed r.key, rfl, ?_, ?_⟩
    · by_cases hk : r.key = k
      · subst hk
        simp [hsettles]
      · have hk' : ¬k = r.key := fun h => hk h.symm
        simp [hk, hk']
    · by_cases hk : r.key = k
      · simp [reportsOf_report, hk, hsettles]
      · simp [reportsOf_report, hk]
  rw [if_neg hsettles]
  by_cases hhold : h.hold = 0
  · rw [if_pos hhold]
    refine ⟨hkeyed, rfl, ?_, ?_⟩
    · by_cases hk : r.key = k
      · simp [hk, hsettles, hhold]
      · simp [hk]
    · by_cases hk : r.key = k
      · simp [reportsOf_report, hk, hsettles, hhold]
      · simp [reportsOf_report, hk]
  rw [if_neg hhold]
  by_cases hheld : r.key ∈ h.held
  · obtain ⟨e, he⟩ := Dict.mem_iff_lookup.mp hheld
    rw [if_pos hheld]
    refine ⟨hkeyed, rfl, ?_, ?_⟩
    · by_cases hk : r.key = k
      · subst hk
        simp [hsettles, hhold, he]
      · simp [hk]
    · by_cases hk : r.key = k
      · subst hk
        simp [hsettles, hhold, he]
      · simp [hk]
  · have hnone : h.held.lookup r.key = none := AList.lookup_eq_none.mpr hheld
    rw [if_neg hheld]
    refine ⟨keyed_insert (r := r.normal) hkeyed _, rfl, ?_, ?_⟩
    · by_cases hk : r.key = k
      · subst hk
        simp [hsettles, hhold, hnone]
      · have hk' : ¬k = r.key := fun h => hk h.symm
        simp [hk, hk']
    · by_cases hk : r.key = k
      · subst hk
        simp [hsettles, hhold, hnone]
      · simp [hk]

theorem step_slot_advance {h : HoldDown ρ} (hkeyed : h.Keyed) (n : Nat) (k : AlarmKey) :
    (h.step (.advance n : Event ρ ε)).1.Keyed ∧ (h.step (.advance n : Event ρ ε)).1.hold = h.hold ∧
      (h.step (.advance n : Event ρ ε)).1.slot k = (slotStep h.hold k (h.slot k) (.advance n : Event ρ ε)).1 ∧
      reportsOf k (h.step (.advance n : Event ρ ε)).2 = (slotStep h.hold k (h.slot k) (.advance n : Event ρ ε)).2 := by
  let late : HoldDown ρ := { h with now := h.now + n }
  have hkeyed' : late.Keyed := hkeyed
  have hnodup : (late.dueClears.map fun x => (ofLex x).2).Nodup := nodup_ripe_keys late.held.keys_nodup
  have hmem (j : AlarmKey) : j ∈ (late.dueClears.map fun x => (ofLex x).2) ↔
      ∃ e, h.held.lookup j = some e ∧ e.1 ≤ h.now + n := by
    refine mem_ripe_keys.trans ?_
    constructor
    · rintro ⟨-, due, hdue, hle⟩
      obtain ⟨e, he, rfl⟩ := Option.map_eq_some_iff.mp hdue
      exact ⟨e, he, hle⟩
    · rintro ⟨e, he, hle⟩
      refine ⟨AList.mem_keys.mp (Dict.mem_iff_lookup.mpr ⟨e, he⟩), e.1, ?_, hle⟩
      rw [he]
      rfl
  obtain ⟨⟨hnow, hhold⟩, hin, hout, hemit⟩ := release_keys (ε := ε) late hnodup
  obtain ⟨hdeposit, hnothing⟩ := reportsOf_released (ε := ε) hkeyed' hnodup k
  have hstep : h.step (.advance n : Event ρ ε) =
      foldEmit release late (late.dueClears.map fun x => (ofLex x).2) := rfl
  rw [hstep]
  refine ⟨?_, hhold, ?_, ?_⟩
  · intro j due r hj
    by_cases hdue : j ∈ (late.dueClears.map fun x => (ofLex x).2)
    · rw [hin j hdue] at hj
      cases hj
    · rw [hout j hdue] at hj
      exact hkeyed j due r hj
  · unfold slotStep slot
    rw [hnow]
    cases hlookup : h.held.lookup k with
    | none =>
      have hrest : k ∉ (late.dueClears.map fun x => (ofLex x).2) := by
        rw [hmem, hlookup]
        rintro ⟨e, he, -⟩
        cases he
      rw [hout k hrest]
      exact congrArg (Prod.mk _) hlookup
    | some e =>
      by_cases hle : e.1 ≤ h.now + n
      · rw [hin k ((hmem k).mpr ⟨e, hlookup, hle⟩)]
        simp [hle, late]
      · have hrest : k ∉ (late.dueClears.map fun x => (ofLex x).2) := by
          rw [hmem, hlookup]
          rintro ⟨e', he', hle'⟩
          cases he'
          exact hle hle'
        rw [hout k hrest]
        show (late.now, h.held.lookup k) = _
        rw [hlookup]
        simp [hle, late]
  · rw [hemit]
    unfold slotStep slot
    cases hlookup : h.held.lookup k with
    | none =>
      have hrest : k ∉ (late.dueClears.map fun x => (ofLex x).2) := by
        rw [hmem, hlookup]
        rintro ⟨e, he, -⟩
        cases he
      exact hnothing hrest
    | some e =>
      by_cases hle : e.1 ≤ h.now + n
      · refine (hdeposit ((hmem k).mpr ⟨e, hlookup, hle⟩)).trans ?_
        show (h.held.lookup k).elim [] _ = _
        rw [hlookup]
        simp [hle]
      · have hrest : k ∉ (late.dueClears.map fun x => (ofLex x).2) := by
          rw [hmem, hlookup]
          rintro ⟨e', he', hle'⟩
          cases he'
          exact hle hle'
        refine (hnothing hrest).trans ?_
        simp [hle]

theorem step_slot {h : HoldDown ρ} (hkeyed : h.Keyed) (e : Event ρ ε) (k : AlarmKey) :
    (h.step e).1.Keyed ∧ (h.step e).1.hold = h.hold ∧
      (h.step e).1.slot k = (slotStep h.hold k (h.slot k) e).1 ∧
      reportsOf k (h.step e).2 = (slotStep h.hold k (h.slot k) e).2 := by
  cases e with
  | event e => exact ⟨hkeyed, rfl, rfl, rfl⟩
  | report r => exact step_slot_report hkeyed r k
  | advance n => exact step_slot_advance hkeyed n k

/-! ## Runs -/

theorem slot_run {h : HoldDown ρ} (hkeyed : h.Keyed) (es : List (Event ρ ε)) (k : AlarmKey) :
    (h.run es).1.Keyed ∧ (h.run es).1.hold = h.hold ∧
      (h.run es).1.slot k = (foldEmit (slotStep h.hold k) (h.slot k) es).1 ∧
      deposited k h es = (foldEmit (slotStep h.hold k) (h.slot k) es).2 := by
  induction es generalizing h with
  | nil => exact ⟨hkeyed, rfl, rfl, rfl⟩
  | cons e es ih =>
    obtain ⟨hkeyed', hhold, hslot, hout⟩ := step_slot hkeyed e k
    obtain ⟨hkeyed'', hhold', hslot', hout'⟩ := ih hkeyed'
    rw [hhold, hslot] at hslot' hout'
    refine ⟨hkeyed'', hhold'.trans hhold, hslot', ?_⟩
    have hcons : deposited k h (e :: es) = reportsOf k (h.step e).2 ++ deposited k (h.step e).1 es :=
      reportsOf_append k _ _
    rw [hcons, hout, hout']
    rfl

/-- The time that events take. -/
def elapsed : List (Event ρ ε) → Nat
  | [] => 0
  | .advance n :: es => n + elapsed es
  | _ :: es => elapsed es

/-- An event is a report of this key. -/
def Reports (k : AlarmKey) : Event ρ ε → Prop
  | .report r => r.key = k
  | _ => False

/-- An event is a raise or an inform of this key. -/
def Settles (k : AlarmKey) : Event ρ ε → Prop
  | .report r => r.key = k ∧ r.settles = true
  | _ => False

/-- What is in a slot is a clear, not due before the last report's hold-down has passed. -/
def SlotOk (hold : Nat) (s : Slot ρ) : Prop :=
  ∀ due r, s.2 = some (due, r) → r.cleared = true ∧ hold ≠ 0 ∧ s.1 < due ∧ due ≤ s.1 + hold

section Slots

variable {hold : Nat} {k : AlarmKey} {s : Slot ρ}

theorem time_slotStep (e : Event ρ ε) : (slotStep hold k s e).1.1 = s.1 + elapsed [e] := by
  cases e with
  | event e => simp [slotStep, elapsed]
  | report r =>
    simp only [slotStep, elapsed]
    split
    · simp
    split
    · simp
    split
    · simp
    split
    · simp
    · simp
  | advance n =>
    simp only [slotStep, elapsed]
    split
    · simp
    split
    · simp
    · simp

theorem slotOk_step (hs : SlotOk hold s) (e : Event ρ ε) : SlotOk hold (slotStep hold k s e).1 := by
  obtain ⟨now, held⟩ := s
  intro due r hdue
  have htime := @time_slotStep _ _ hold k (now, held) e
  cases e with
  | event e => exact hs due r hdue
  | report report =>
    simp only [elapsed, Nat.cast_zero, add_zero] at htime
    rw [htime]
    simp only [slotStep] at hdue
    split at hdue
    · exact hs due r hdue
    split at hdue
    · cases hdue
    rename_i hnot
    split at hdue
    · exact hs due r hdue
    rename_i hhold
    cases held with
    | some e => exact hs due r hdue
    | none =>
      cases hdue
      have hcleared : report.cleared = true := by
        unfold DeviceReport.settles at hnot
        simp at hnot
        exact hnot.2
      exact ⟨hcleared, hhold, by omega, le_refl _⟩
  | advance n =>
    simp only [elapsed, add_zero] at htime
    rw [htime]
    cases held with
    | none => cases hdue
    | some e =>
      obtain ⟨due', r'⟩ := e
      simp only [slotStep] at hdue
      split at hdue
      · cases hdue
      · rename_i hle
        cases hdue
        obtain ⟨hcleared, hhold, hlt, hbound⟩ := hs due r rfl
        have hbound : due ≤ now + hold := hbound
        exact ⟨hcleared, hhold, by omega, by omega⟩

theorem slotOk_run (hs : SlotOk hold s) (es : List (Event ρ ε)) : SlotOk hold (foldEmit (slotStep hold k) s es).1 :=
  foldEmit_invariant (P := SlotOk hold) (fun e _ _ h => slotOk_step h e) s hs

theorem quiet_none {es : List (Event ρ ε)} (hquiet : ∀ e ∈ es, ¬Reports k e) (now : Int) :
    (foldEmit (slotStep hold k) (now, none) es).2 = [] := by
  induction es generalizing now with
  | nil => rfl
  | cons e es ih =>
    have hrest := fun e' he' => hquiet e' (List.mem_cons_of_mem e he')
    have hhead := hquiet e List.mem_cons_self
    cases e with
    | event e => exact ih hrest now
    | advance n => exact ih hrest (now + n)
    | report r =>
      have hne : r.key ≠ k := hhead
      rw [foldEmit_cons]
      simp only [slotStep, if_pos hne, List.nil_append]
      exact ih hrest now

theorem quiet_some {es : List (Event ρ ε)} (hquiet : ∀ e ∈ es, ¬Reports k e) {now due : Int} (r : DeviceReport ρ)
    (hlt : now < due) (hreached : due ≤ now + elapsed es) :
    (foldEmit (slotStep hold k) (now, some (due, r)) es).2 = [r] := by
  induction es generalizing now with
  | nil =>
    simp only [elapsed] at hreached
    omega
  | cons e es ih =>
    have hrest := fun e' he' => hquiet e' (List.mem_cons_of_mem e he')
    have hhead := hquiet e List.mem_cons_self
    cases e with
    | event e => exact ih hrest hlt hreached
    | report r' =>
      have hne : r'.key ≠ k := hhead
      rw [foldEmit_cons]
      simp only [slotStep, if_pos hne, List.nil_append]
      exact ih hrest hlt hreached
    | advance n =>
      rw [foldEmit_cons]
      by_cases hle : due ≤ now + n
      · simp only [slotStep, if_pos hle]
        rw [quiet_none hrest (now + n)]
        rfl
      · simp only [slotStep, if_neg hle, List.nil_append]
        refine ih hrest (by omega) ?_
        simp only [elapsed] at hreached
        push_cast at hreached
        omega

/-- After a report of its key and the hold-down, the slot has deposited a report that is cleared as that one. -/
theorem slot_settles (hs : SlotOk hold s) {r : DeviceReport ρ} (hkey : r.key = k) {es : List (Event ρ ε)}
    (hquiet : ∀ e ∈ es, ¬Reports k e) (helapsed : hold ≤ elapsed es) :
    ∃ d, (foldEmit (slotStep hold k) s (.report r :: es)).2 = [d] ∧ d.cleared = r.cleared := by
  obtain ⟨now, held⟩ := s
  rw [foldEmit_cons]
  simp only [slotStep, hkey, ne_eq, not_true_eq_false, if_false]
  by_cases hsettles : r.settles = true
  · rw [if_pos hsettles]
    refine ⟨r.normal, ?_, rfl⟩
    show [r.normal] ++ (foldEmit (slotStep hold k) (now, none) es).2 = _
    rw [quiet_none hquiet]
    rfl
  rw [if_neg hsettles]
  have hcleared : r.cleared = true := by
    unfold DeviceReport.settles at hsettles
    simp at hsettles
    exact hsettles.2
  by_cases hhold : hold = 0
  · rw [if_pos hhold]
    have hnone : held = none := by
      cases held with
      | none => rfl
      | some e => exact absurd hhold (hs e.1 e.2 rfl).2.1
    subst hnone
    refine ⟨r.normal, ?_, rfl⟩
    show [r.normal] ++ (foldEmit (slotStep hold k) (now, none) es).2 = _
    rw [quiet_none hquiet]
    rfl
  rw [if_neg hhold]
  cases held with
  | none =>
    refine ⟨r.normal, ?_, rfl⟩
    exact quiet_some hquiet r.normal (by omega) (by omega)
  | some e =>
    obtain ⟨hd, -, hlt, hbound⟩ := hs e.1 e.2 rfl
    have hbound : e.1 ≤ now + hold := hbound
    refine ⟨e.2, ?_, hd.trans hcleared.symm⟩
    exact quiet_some hquiet e.2 hlt (by omega)

end Slots

/-! ## What is deposited, and when -/

theorem deposited_append (k : AlarmKey) (h : HoldDown ρ) (es es' : List (Event ρ ε)) :
    deposited k h (es ++ es') = deposited k h es ++ deposited k (h.run es).1 es' := by
  unfold deposited run
  rw [foldEmit_append, reportsOf_append]

theorem deposited_cons (k : AlarmKey) (h : HoldDown ρ) (e : Event ρ ε) (es : List (Event ρ ε)) :
    deposited k h (e :: es) = reportsOf k (h.step e).2 ++ deposited k (h.step e).1 es := reportsOf_append k _ _

theorem slot_source {hold : Nat} {k : AlarmKey} {s : Slot ρ} (es : List (Event ρ ε)) :
    ∀ d ∈ (foldEmit (slotStep hold k) s es).2, (∃ due, s.2 = some (due, d)) ∨ ∃ r, .report r ∈ es ∧ d = r.normal := by
  induction es generalizing s with
  | nil => exact fun d hd => absurd hd List.not_mem_nil
  | cons e es ih =>
    obtain ⟨now, held⟩ := s
    intro d hd
    have hlater (h : ∃ r, .report r ∈ es ∧ d = r.normal) : ∃ r, .report r ∈ e :: es ∧ d = r.normal := by
      obtain ⟨r, hr, heq⟩ := h
      exact ⟨r, List.mem_cons_of_mem _ hr, heq⟩
    rw [foldEmit_cons] at hd
    rcases List.mem_append.mp hd with hd | hd
    · cases e with
      | event e => simp [slotStep] at hd
      | report r =>
        simp only [slotStep] at hd
        split at hd
        · simp at hd
        split at hd
        · exact .inr ⟨r, List.mem_cons_self, List.mem_singleton.mp hd⟩
        split at hd
        · exact .inr ⟨r, List.mem_cons_self, List.mem_singleton.mp hd⟩
        split at hd
        · simp at hd
        · simp at hd
      | advance n =>
        cases held with
        | none => simp [slotStep] at hd
        | some c =>
          simp only [slotStep] at hd
          split at hd
          · rw [List.mem_singleton.mp hd]
            exact .inl ⟨c.1, rfl⟩
          · simp at hd
    · rcases ih d hd with ⟨due, hdue⟩ | h
      · -- what is in the slot after the step was in it before, or has just come
        cases e with
        | event e => exact .inl ⟨due, hdue⟩
        | report r =>
          simp only [slotStep] at hdue
          split at hdue
          · exact .inl ⟨due, hdue⟩
          split at hdue
          · cases hdue
          split at hdue
          · exact .inl ⟨due, hdue⟩
          split at hdue
          · exact .inl ⟨due, hdue⟩
          · cases hdue
            exact .inr ⟨r, List.mem_cons_self, rfl⟩
        | advance n =>
          cases held with
          | none => cases hdue
          | some c =>
            simp only [slotStep] at hdue
            split at hdue
            · cases hdue
            · cases hdue
              exact .inl ⟨_, rfl⟩
      · exact .inr (hlater h)

/-- What becomes of a held clear in a run. -/
inductive Fate (k : AlarmKey) (h : HoldDown ρ) (due : Int) (r : DeviceReport ρ) (es : List (Event ρ ε)) : Prop
  | held : (∀ e ∈ es, ¬Settles k e) → h.now + elapsed es < due → (h.run es).1.held.lookup k = some (due, r) →
      deposited k h es = [] → Fate k h due r es
  /-- The advance that its time comes in deposits it, and it is held no more. -/
  | deposited (before after : List (Event ρ ε)) (n : Nat) : es = before ++ .advance n :: after →
      (∀ e ∈ before, ¬Settles k e) → h.now + elapsed before < due → due ≤ h.now + elapsed before + n →
      deposited k h before = [] → deposited k h (before ++ [.advance n]) = [r] →
      k ∉ (h.run (before ++ [.advance n])).1.held → Fate k h due r es
  /-- A raise or an inform comes first. What is deposited with it is that report. -/
  | cancelled (before after : List (Event ρ ε)) (raise : DeviceReport ρ) : es = before ++ .report raise :: after →
      (∀ e ∈ before, ¬Settles k e) → h.now + elapsed before < due → Settles k (.report raise : Event ρ ε) →
      deposited k h (before ++ [.report raise]) = [raise.normal] →
      k ∉ (h.run (before ++ [.report raise])).1.held → Fate k h due r es

theorem fate_cons {k : AlarmKey} {h : HoldDown ρ} {e : Event ρ ε} {due : Int} {r : DeviceReport ρ}
    {es : List (Event ρ ε)} (hnot : ¬Settles k e) (htime : (h.step e).1.now = h.now + elapsed [e])
    (hout : reportsOf k (h.step e).2 = []) (h' : Fate k (h.step e).1 due r es) : Fate k h due r (e :: es) := by
  have hsum (l : List (Event ρ ε)) : (elapsed (e :: l) : Int) = elapsed [e] + elapsed l := by
    cases e with
    | report r => simp [elapsed]
    | event e => simp [elapsed]
    | advance n => simp [elapsed]
  have hfirst (l : List (Event ρ ε)) : deposited k h (e :: l) = deposited k (h.step e).1 l := by
    rw [deposited_cons, hout, List.nil_append]
  have hnone {l : List (Event ρ ε)} (hl : ∀ e' ∈ l, ¬Settles k e') : ∀ e' ∈ e :: l, ¬Settles k e' :=
    List.forall_mem_cons.mpr ⟨hnot, hl⟩
  cases h' with
  | held hl hlt hheld hd =>
    refine .held (hnone hl) ?_ hheld ((hfirst es).trans hd)
    rw [hsum]
    omega
  | deposited before after n hes hl hlt hle hd hd' hgone =>
    refine .deposited (e :: before) after n (by rw [hes]; rfl) (hnone hl) ?_ ?_ ((hfirst _).trans hd)
      ((hfirst _).trans hd') hgone
    · rw [hsum]
      omega
    · rw [hsum]
      omega
  | cancelled before after raise hes hl hlt hraise hd' hgone =>
    refine .cancelled (e :: before) after raise (by rw [hes]; rfl) (hnone hl) ?_ hraise ((hfirst _).trans hd') hgone
    rw [hsum]
    omega

theorem fate_held {k : AlarmKey} {h : HoldDown ρ} (hkeyed : h.Keyed) {due : Int} {r : DeviceReport ρ}
    (hheld : h.held.lookup k = some (due, r)) (hlt : h.now < due) (hhold : h.hold ≠ 0) (es : List (Event ρ ε)) :
    Fate k h due r es := by
  induction es generalizing h with
  | nil => exact .held (fun e he => absurd he List.not_mem_nil) (by simpa [elapsed] using hlt) hheld rfl
  | cons e es ih =>
    obtain ⟨hkeyed', hhold', hslot, hout⟩ := step_slot hkeyed e k
    have hs : h.slot k = (h.now, some (due, r)) := congrArg (Prod.mk h.now) hheld
    have htime : (h.step e).1.now = h.now + elapsed [e] := by
      have := congrArg Prod.fst hslot
      rwa [time_slotStep] at this
    have hgone (hlookup : (h.step e).1.held.lookup k = none) : k ∉ (h.run [e]).1.held :=
      AList.lookup_eq_none.mp hlookup
    have hone : deposited k h [e] = reportsOf k (h.step e).2 := by
      rw [deposited_cons]
      exact List.append_nil _
    rw [hs] at hslot hout
    cases e with
    | event e => exact fate_cons (fun h => h) htime hout (ih hkeyed' hheld hlt hhold)
    | report raise =>
      by_cases hraise : Settles k (.report raise : Event ρ ε)
      · have hcome : slotStep h.hold k (h.now, some (due, r)) (.report raise : Event ρ ε) =
            ((h.now, none), [raise.normal]) := by simp [slotStep, hraise.1, hraise.2]
        rw [hcome] at hslot hout
        refine .cancelled [] es raise rfl (fun e he => absurd he List.not_mem_nil) ?_ hraise (hone.trans hout)
          (hgone (congrArg Prod.snd hslot))
        simpa [elapsed] using hlt
      · -- another key's report, or one more clear: the first one stays
        have hstay : slotStep h.hold k (h.now, some (due, r)) (.report raise : Event ρ ε) =
            ((h.now, some (due, r)), []) := by
          simp only [slotStep]
          by_cases hk : raise.key = k
          · have hsettles : ¬raise.settles = true := fun h => hraise ⟨hk, h⟩
            simp [hk, hsettles, hhold]
          · simp [hk]
        rw [hstay] at hslot hout
        have hnow : (h.step (.report raise : Event ρ ε)).1.now = h.now := congrArg Prod.fst hslot
        exact fate_cons hraise htime hout
          (ih hkeyed' (congrArg Prod.snd hslot) (by rw [hnow]; exact hlt) (by rw [hhold']; exact hhold))
    | advance n =>
      simp only [elapsed, add_zero] at htime
      by_cases hle : due ≤ h.now + n
      · have hcome : slotStep h.hold k (h.now, some (due, r)) (.advance n : Event ρ ε) =
            ((h.now + n, none), [r]) := by simp [slotStep, hle]
        rw [hcome] at hslot hout
        refine .deposited [] es n rfl (fun e he => absurd he List.not_mem_nil) ?_ ?_ rfl (hone.trans hout)
          (hgone (congrArg Prod.snd hslot))
        · simpa [elapsed] using hlt
        · simpa [elapsed] using hle
      · have hstay : slotStep h.hold k (h.now, some (due, r)) (.advance n : Event ρ ε) =
            ((h.now + n, some (due, r)), []) := by simp [slotStep, hle]
        rw [hstay] at hslot hout
        refine fate_cons (fun h => h) (by simpa [elapsed] using htime) hout
          (ih hkeyed' (congrArg Prod.snd hslot) ?_ (by rw [hhold']; exact hhold))
        rw [htime]
        omega

theorem slotOk_init (now : Int) (hold : Nat) (es : List (Event ρ ε)) (k : AlarmKey) :
    SlotOk hold (((init now hold : HoldDown ρ).run es).1.slot k) := by
  rw [(slot_run (keyed_init now hold) es k).2.2.1]
  refine slotOk_run (fun due r hdue => ?_) es
  cases hdue

theorem hold_run (now : Int) (hold : Nat) (es : List (Event ρ ε)) :
    ((init now hold : HoldDown ρ).run es).1.Keyed ∧ ((init now hold : HoldDown ρ).run es).1.hold = hold :=
  have h := slot_run (keyed_init now hold) es ("", "", "")
  ⟨h.1, h.2.1⟩

theorem slot_holds {hold : Nat} {k : AlarmKey} {now due : Int} {e : Event ρ ε} {r : DeviceReport ρ}
    (h : (slotStep hold k (now, none) e).1.2 = some (due, r)) :
    due = now + hold ∧ ∃ r', e = .report r' ∧ r = r'.normal ∧ r'.key = k ∧ r'.settles = false := by
  cases e with
  | event e => cases h
  | advance n => cases h
  | report r' =>
    simp only [slotStep] at h
    split at h
    · cases h
    rename_i hkey
    split at h
    · cases h
    rename_i hsettles
    split at h
    · cases h
    · cases h
      exact ⟨rfl, r', rfl, rfl, not_not.mp hkey, Bool.eq_false_iff.mpr hsettles⟩

/--
The hold-down leaves no wrong state behind.

After each run the last report of a key decides what is deposited last, once the hold-down has
passed. A raise goes out at once, and no clear from before it comes after. A clear that is held is
due a hold-down later, and is deposited then unless a raise or an inform of its key has come.
-/
theorem holdDown_settles (now : Int) (hold : Nat) (es : List (Event ρ ε)) (k : AlarmKey) :
    let h := ((init now hold : HoldDown ρ).run es).1
    (∀ (r : DeviceReport ρ) (post : List (Event ρ ε)), r.key = k → (∀ e ∈ post, ¬Reports k e) → hold ≤ elapsed post →
        ∃ d, (deposited k (init now hold) (es ++ .report r :: post)).getLast? = some d ∧ d.cleared = r.cleared) ∧
      (∀ r : DeviceReport ρ, r.cleared = false → (h.step (.report r : Event ρ ε)).2 = [.report r.normal]) ∧
      (∀ (r : DeviceReport ρ) (post : List (Event ρ ε)), r.key = k → r.cleared = false →
        ∀ d ∈ deposited k (h.step (.report r : Event ρ ε)).1 post, ∃ r', .report r' ∈ post ∧ d = r'.normal) ∧
      (∀ (e : Event ρ ε) (due : Int) (r : DeviceReport ρ), k ∉ h.held → (h.step e).1.held.lookup k = some (due, r) →
        due = h.now + hold ∧ ∃ r', e = .report r' ∧ r = r'.normal ∧ r'.key = k ∧ r'.settles = false) ∧
      ∀ (due : Int) (r : DeviceReport ρ), h.held.lookup k = some (due, r) →
        r.cleared = true ∧ h.now < due ∧ ∀ post : List (Event ρ ε), Fate k h due r post := by
  intro h
  obtain ⟨hkeyed, hhold⟩ : h.Keyed ∧ h.hold = hold := hold_run now hold es
  have hok : SlotOk hold (h.slot k) := slotOk_init now hold es k
  have hraise (r : DeviceReport ρ) (hr : r.cleared = false) : r.settles = true := by simp [DeviceReport.settles, hr]
  refine ⟨?_, ?_, ?_, ?_, ?_⟩
  · intro r post hkey hquiet helapsed
    obtain ⟨d, hd, hcleared⟩ := slot_settles hok hkey hquiet helapsed
    refine ⟨d, ?_, hcleared⟩
    have hrun := (slot_run hkeyed (.report r :: post) k).2.2.2
    rw [deposited_append, hrun, hhold, hd]
    exact List.getLast?_concat
  · intro r hr
    rw [step_report, if_pos (hraise r hr)]
  · intro r post hkey hr d hd
    obtain ⟨hkeyed', hhold', hslot, -⟩ := step_slot hkeyed (.report r : Event ρ ε) k
    rw [(slot_run hkeyed' post k).2.2.2] at hd
    refine (slot_source post d hd).resolve_left ?_
    rintro ⟨due, hdue⟩
    rw [hslot] at hdue
    simp [slotStep, hkey, hraise r hr] at hdue
  · intro e due r hnot hheld
    have hnone : h.slot k = (h.now, none) := congrArg (Prod.mk h.now) (AList.lookup_eq_none.mpr hnot)
    obtain ⟨-, -, hslot, -⟩ := step_slot hkeyed e k
    rw [hhold, hnone] at hslot
    exact slot_holds ((congrArg Prod.snd hslot).symm.trans hheld)
  · intro due r hheld
    obtain ⟨hcleared, hne, hlt, -⟩ := hok due r hheld
    exact ⟨hcleared, hlt, fate_held hkeyed hheld hlt (by rw [hhold]; exact hne)⟩

end HoldDown

end Dsip.Events
