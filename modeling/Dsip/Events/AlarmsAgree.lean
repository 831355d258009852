import Dsip.Events.AlarmListTs

/-!
# The alarm lists agree

The incremental update is the full recomputation, because a timer that no event
touches is already what it would be set to (`Agree.armed`): an alarm has a timer
just if one is due to it.
-/

namespace Dsip.Events

open Dsip.Lib

/-! ## Comparisons -/

theorem ts_rank : Ts.rank = rank := by
  funext severity
  cases severity with
  | none => rfl
  | some s =>
    by_cases hs : s ∈ severities
    · simp only [severities, List.mem_cons, List.not_mem_nil, or_false] at hs
      rcases hs with rfl | rfl | rfl | rfl | rfl <;> decide
    · have hnone : severities.idxOf? s = none := List.idxOf?_eq_none_iff.mpr hs
      simp only [severities, List.mem_cons, List.not_mem_nil, or_false, not_or] at hs
      obtain ⟨h₀, h₁, h₂, h₃, h₄⟩ := hs
      simp only [Ts.rank, rank, hnone, if_neg h₀, if_neg h₁, if_neg h₂, if_neg h₃, if_neg h₄]
      rfl

theorem cmpStr_spec : ∀ xs ys : List Char, (Ts.cmpStr xs ys < 0 ↔ xs < ys) ∧ (Ts.cmpStr xs ys = 0 ↔ xs = ys)
  | [], [] => by simp [Ts.cmpStr]
  | [], y :: ys => by simp [Ts.cmpStr]; omega
  | x :: xs, [] => by simp [Ts.cmpStr]; omega
  | x :: xs, y :: ys => by
      obtain ⟨hlt, heq⟩ := cmpStr_spec xs ys
      simp only [Ts.cmpStr]
      split
      case isTrue hne =>
        have hxy : x ≠ y := by
          rintro rfl
          simp at hne
        have hchar : (x.toNat : Int) - y.toNat < 0 ↔ x < y := by
          rw [sub_neg, Nat.cast_lt]
          exact Iff.rfl
        simp [List.cons_lt_cons_iff, hxy, hchar, hne]
      case isFalse hzero =>
        obtain rfl : x = y := Char.toNat_inj.mp (by omega)
        simp [hlt, heq]

theorem cmpStr_le (a b : String) : Ts.cmpStr a.toList b.toList ≤ 0 ↔ a ≤ b := by
  obtain ⟨hlt, heq⟩ := cmpStr_spec a.toList b.toList
  rw [le_iff_lt_or_eq, hlt, heq, String.toList_inj, ← String.lt_iff_toList_lt, ← le_iff_lt_or_eq]

theorem orElse_spec {d e : Int} {lt eq lt' : Prop} (hd : (d < 0 ↔ lt) ∧ (d = 0 ↔ eq))
    (he : e ≤ 0 ↔ lt') : Ts.orElse d e ≤ 0 ↔ lt ∨ eq ∧ lt' := by
  rw [← hd.1, ← hd.2, ← he]
  unfold Ts.orElse
  split <;> omega

theorem cmpKey_le (a b : AlarmKey) : Ts.cmpKey a b ≤ 0 ↔ a ≤ b := by
  obtain ⟨r, t, q⟩ := a
  obtain ⟨r', t', q'⟩ := b
  have hstr (x y : String) : (Ts.cmpStr x.toList y.toList < 0 ↔ x < y) ∧
      (Ts.cmpStr x.toList y.toList = 0 ↔ x = y) := by
    rw [String.lt_iff_toList_lt, ← String.toList_inj]
    exact cmpStr_spec _ _
  have hinner := orElse_spec (hstr t t') (cmpStr_le q q')
  have houter := orElse_spec (hstr r r') hinner
  show _ ↔ toLex (r, toLex (t, q)) ≤ toLex (r', toLex (t', q'))
  rw [Prod.Lex.toLex_le_toLex, Prod.Lex.toLex_le_toLex]
  exact houter

theorem insertionSort_congr {α : Type} {r s : α → α → Prop} [DecidableRel r] [DecidableRel s]
    (h : ∀ a b, r a b ↔ s a b) (l : List α) : l.insertionSort r = l.insertionSort s := by
  obtain rfl : r = s := funext fun a => funext fun b => propext (h a b)
  congr

/-! ## Timers -/

namespace AlarmList

/-- An alarm has a timer just if one is due to it. -/
def Armed (policy : Option AlarmPolicy) (a : Alarm) : Prop := a.due.isSome = isDue policy a

variable {l : AlarmList} {a : Alarm}

theorem armed_arm (l : AlarmList) (a : Alarm) : Armed l.policy (l.arm a) := by
  unfold Armed arm
  split
  case isTrue hdue =>
    have hpolicy : l.policy.isSome := by
      rw [isDue, Option.any_eq_true] at hdue
      obtain ⟨p, hp, -⟩ := hdue
      simp [hp]
    have hsame (due : Option Int) : isDue l.policy { a with due := due } = isDue l.policy a := rfl
    rw [hsame, hdue]
    simp [hpolicy]
  case isFalse hdue =>
    have hsame : isDue l.policy { a with due := none } = isDue l.policy a := rfl
    rw [hsame]
    simpa using hdue

theorem arm_of_armed (h : Armed l.policy a) : l.arm a = a := by
  unfold Armed at h
  unfold arm
  split
  case isTrue hdue =>
    rw [hdue] at h
    obtain ⟨due, hsome⟩ := Option.isSome_iff_exists.mp h
    cases a
    simp_all
  case isFalse hdue =>
    have hnone : a.due = none := by
      cases hd : a.due with
      | none => rfl
      | some due => simp [hd, hdue] at h
    cases a
    simp_all

end AlarmList

/-- The same alarm in TypeScript. -/
def Alarm.ts (k : AlarmKey) (a : Alarm) : Ts.Alarm where
  key := k
  severity := a.severity
  cleared := a.cleared
  operator := a.operator
  count := a.count
  escalated := a.escalated
  due := a.due

theorem retimed_ts (l : AlarmList) (k : AlarmKey) (a : Alarm) :
    Ts.AlarmList.retimed l.now l.policy (a.ts k) = (l.arm a).ts k := by
  unfold Ts.AlarmList.retimed AlarmList.arm
  cases l.policy with
  | none => rfl
  | some p =>
    dsimp only
    rw [ts_rank]
    show (if AlarmList.isDue (some p) a = true then
        if a.due = none then { a.ts k with due := some (l.now + p.afterS) } else a.ts k
      else { a.ts k with due := none }) = _
    by_cases hdue : AlarmList.isDue (some p) a = true
    · rw [if_pos hdue, if_pos hdue]
      cases hnone : a.due <;> simp [Alarm.ts, hnone]
    · rw [if_neg hdue, if_neg hdue]
      rfl

/-- Both lists are at the same state, and every timer is what it would be set to. -/
structure Agree (l : AlarmList) (t : Ts.AlarmList) : Prop where
  now : t.now = l.now
  policy : t.policy = l.policy
  gateways : t.gateways = l.gateways
  alarms : ∀ k, t.alarms.lookup k = (l.alarms.lookup k).map (Alarm.ts k)
  armed : ∀ k a, l.alarms.lookup k = some a → AlarmList.Armed l.policy a

namespace Agree

variable {l : AlarmList} {t : Ts.AlarmList}

theorem set (h : Agree l t) (k : AlarmKey) {a : Alarm} (ha : AlarmList.Armed l.policy a) :
    Agree (l.set k a) (t.set k (a.ts k)) where
  now := h.now
  policy := h.policy
  gateways := h.gateways
  alarms k' := by
    simp only [AlarmList.set, Ts.AlarmList.set, Dict.lookup_insert_eq]
    split
    case isTrue he => rw [he]; rfl
    case isFalse => exact h.alarms k'
  armed k' a' ha' := by
    simp only [AlarmList.set, Dict.lookup_insert_eq] at ha'
    split at ha'
    case isTrue =>
      obtain rfl := Option.some.inj ha'
      exact ha
    case isFalse => exact h.armed k' a' ha'

theorem retime (h : Agree l t) : Agree l t.retime where
  now := h.now
  policy := h.policy
  gateways := h.gateways
  alarms k := by
    simp only [Ts.AlarmList.retime, Dict.lookup_map, h.alarms, Option.map_map, h.now, h.policy]
    apply Option.map_congr
    intro a ha
    rw [Function.comp_apply, retimed_ts, AlarmList.arm_of_armed (h.armed k a ha)]
  armed := h.armed

theorem retime_set (h : Agree l t) (k : AlarmKey) (a : Alarm) :
    Agree (l.set k (l.arm a)) (t.set k (a.ts k)).retime where
  now := h.now
  policy := h.policy
  gateways := h.gateways
  alarms k' := by
    simp only [Ts.AlarmList.retime, Ts.AlarmList.set, AlarmList.set, Dict.lookup_map,
      Dict.lookup_insert_eq, h.now, h.policy]
    split
    case isTrue he =>
      subst he
      simp only [Option.map_some, retimed_ts]
    case isFalse =>
      have hk := h.retime.alarms k'
      simpa only [Ts.AlarmList.retime, Dict.lookup_map, h.now, h.policy] using hk
  armed := (h.set k (AlarmList.armed_arm l a)).armed

/-! ## Events -/

theorem report (h : Agree l t) (r : AlarmReport) :
    Agree (l.report r).1 (t.report r).1 ∧ (t.report r).2 = (l.report r).2 := by
  unfold AlarmList.report Ts.AlarmList.report
  extract_lets k
  rw [h.alarms k]
  cases hk : l.alarms.lookup k with
  | none =>
    dsimp only [Option.map_none]
    split
    case isTrue => exact ⟨h, rfl⟩
    case isFalse => exact ⟨h.retime_set k _, rfl⟩
  | some a =>
    have ha : AlarmList.Armed l.policy a := h.armed k a hk
    -- counting a report does not bear on the timer
    have hcounted : AlarmList.Armed l.policy { a with count := a.count + 1 } := ha
    dsimp only [Option.map_some]
    by_cases hdown : a.cleared = true
    · have hoff : a.due = none := by
        have hdue : AlarmList.isDue l.policy a = false := by
          cases hpolicy : l.policy <;> simp [AlarmList.isDue, hdown]
        simpa [AlarmList.Armed, hdue] using ha
      by_cases hr : r.cleared = true
      · simp only [Alarm.ts, if_pos hdown, if_pos hr]
        exact ⟨h.set k hcounted, trivial⟩
      · simp only [Alarm.ts, if_pos hdown, if_neg hr, hoff]
        exact ⟨h.retime_set k _, trivial⟩
    · by_cases hr : r.cleared = true
      · simp only [Alarm.ts, if_neg hdown, if_pos hr]
        exact ⟨h.retime_set k _, trivial⟩
      · have hdown' : ¬ (a.ts k).cleared = true := hdown
        by_cases hsame : r.severity = a.severity
        · have hsame' : ¬ r.severity ≠ (a.ts k).severity := not_not.mpr hsame
          simp only [if_neg hdown, if_neg hdown', if_neg hr, if_pos hsame, if_neg hsame']
          exact ⟨(h.set k hcounted).retime, trivial⟩
        · have hsame' : r.severity ≠ (a.ts k).severity := hsame
          simp only [if_neg hdown, if_neg hdown', if_neg hr, if_neg hsame, if_pos hsame']
          exact ⟨h.retime_set k _, trivial⟩

theorem ack (h : Agree l t) (e : AlarmAck) :
    Agree (l.ack e).1 (t.ack e).1.retime ∧ (t.ack e).2 = (l.ack e).2 := by
  unfold AlarmList.ack Ts.AlarmList.ack
  extract_lets k
  have hstate : e.state ∉ operatorStates ↔ e.state ≠ "ack" ∧ e.state ≠ "closed" := by
    simp [operatorStates]
  rw [h.alarms k]
  by_cases hunknown : e.state ≠ "ack" ∧ e.state ≠ "closed"
  · rw [if_pos hunknown]
    cases l.alarms.lookup k with
    | none => exact ⟨h.retime, rfl⟩
    | some a =>
      dsimp only
      rw [if_pos (.inl (hstate.mpr hunknown))]
      exact ⟨h.retime, rfl⟩
  · rw [if_neg hunknown]
    cases hk : l.alarms.lookup k with
    | none => exact ⟨h.retime, rfl⟩
    | some a =>
      dsimp only [Option.map_some, Alarm.ts]
      by_cases hdone : a.operator = "closed" ∨ a.operator = e.state
      · rw [if_pos hdone, if_pos (.inr hdone)]
        exact ⟨h.retime, rfl⟩
      · rw [if_neg hdone, if_neg (fun hor => hor.elim (fun hno => hunknown (hstate.mp hno)) hdone)]
        exact ⟨h.retime_set k _, rfl⟩

theorem heartbeat (h : Agree l t) (gateway : String) (intervalS : Int) :
    Agree (l.heartbeat gateway intervalS).1 (t.heartbeat gateway intervalS).1 ∧
      (t.heartbeat gateway intervalS).2 = (l.heartbeat gateway intervalS).2 := by
  have hset : Agree { l with gateways := l.gateways.insert gateway ⟨intervalS, l.now⟩ }
      { t with gateways := t.gateways.insert gateway ⟨intervalS, t.now⟩ } :=
    ⟨h.now, h.policy, by rw [h.gateways, h.now], h.alarms, h.armed⟩
  unfold AlarmList.heartbeat Ts.AlarmList.heartbeat AlarmList.isSilent
  dsimp only
  rw [h.alarms]
  cases l.alarms.lookup (keyOf gateway silent (some "")) with
  | none => exact ⟨hset, rfl⟩
  | some a =>
    simp only [Option.map_some, Option.any_some, Alarm.ts]
    split
    case isTrue => exact hset.report _
    case isFalse => exact ⟨hset, rfl⟩

theorem watch (h : Agree l t) (gateway : String) :
    Agree (l.watch gateway).1 (t.watch gateway).1 ∧ (t.watch gateway).2 = (l.watch gateway).2 := by
  unfold AlarmList.watch Ts.AlarmList.watch AlarmList.isSilent
  rw [h.gateways, h.alarms, h.now]
  cases l.gateways.lookup gateway with
  | none => exact ⟨h, rfl⟩
  | some g =>
    dsimp only
    have hquiet : (((l.alarms.lookup (keyOf gateway silent (some ""))).map
        (Alarm.ts (keyOf gateway silent (some "")))).all (·.cleared) = true) ↔
        (!(l.alarms.lookup (keyOf gateway silent (some ""))).any fun a => !a.cleared) = true := by
      cases l.alarms.lookup (keyOf gateway silent (some "")) <;> simp [Alarm.ts]
    simp only [hquiet]
    split
    case isTrue => exact h.report _
    case isFalse => exact ⟨h, rfl⟩

theorem escalate (h : Agree l t) (k : AlarmKey) :
    Agree (l.escalate k).1 (t.escalate k).1 ∧ (t.escalate k).2 = (l.escalate k).2 := by
  unfold AlarmList.escalate Ts.AlarmList.escalate
  rw [h.alarms k]
  cases l.alarms.lookup k with
  | none => exact ⟨h, rfl⟩
  | some a =>
    have hdone : AlarmList.Armed l.policy { a with due := none, escalated := true } := by
      cases hpolicy : l.policy <;> simp [AlarmList.Armed, AlarmList.isDue]
    exact ⟨h.set k hdone, rfl⟩

/-! ## Orders -/

theorem gatewayIds (h : Agree l t) : t.gatewayIds = l.gateways.sortedKeys := by
  unfold Ts.AlarmList.gatewayIds Dict.sortedKeys
  rw [h.gateways]
  exact insertionSort_congr cmpStr_le _

theorem keys_values (h : Agree l t) : t.alarms.values.map (·.key) = t.alarms.keys := by
  simp only [Dict.values, AList.keys, List.keys, List.map_map]
  apply List.map_congr_left
  rintro ⟨k, a⟩ he
  have hlookup : t.alarms.lookup k = some a := AList.mem_lookup_iff.mpr he
  rw [h.alarms k] at hlookup
  obtain ⟨b, -, rfl⟩ := Option.map_eq_some_iff.mp hlookup
  rfl

theorem mem_values (h : Agree l t) {b : Ts.Alarm} :
    b ∈ t.alarms.values ↔ ∃ k a, l.alarms.lookup k = some a ∧ b = a.ts k := by
  rw [Dict.mem_values]
  constructor
  · rintro ⟨k, hk⟩
    rw [h.alarms k] at hk
    obtain ⟨a, ha, rfl⟩ := Option.map_eq_some_iff.mp hk
    exact ⟨k, a, ha, rfl⟩
  · rintro ⟨k, a, ha, rfl⟩
    exact ⟨k, by rw [h.alarms k, ha]; rfl⟩

theorem snapshot (h : Agree l t) : t.snapshot = l.snapshot := by
  let view : Ts.Alarm → AlarmView := fun a =>
    ⟨a.key, a.severity, a.cleared, a.operator, a.count, a.due⟩
  let byKey := t.alarms.values.insertionSort fun a b => Ts.cmpKey a.key b.key ≤ 0
  have hkeys : byKey.map (·.key) = l.alarms.sortedKeys := by
    have hsort := List.map_insertionSort (fun a b : Ts.Alarm => Ts.cmpKey a.key b.key ≤ 0) (· ≤ ·)
      (·.key) t.alarms.values fun a _ b _ => cmpKey_le a.key b.key
    rw [h.keys_values] at hsort
    refine hsort.trans (Dict.sortedKeys_congr fun k => ?_)
    rw [← AList.lookup_isSome, ← AList.lookup_isSome, h.alarms k, Option.isSome_map]
  show byKey.map view = _
  unfold AlarmList.snapshot
  rw [← hkeys, List.filterMap_map, ← List.filterMap_eq_map]
  apply List.filterMap_congr
  intro b hb
  obtain ⟨k, a, ha, rfl⟩ := h.mem_values.mp ((List.mem_insertionSort _).mp hb)
  show some (view (a.ts k)) = (l.alarms.lookup k).map _
  rw [ha]
  rfl

theorem insertionSort_of_perm {α : Type} [LinearOrder α] {p q : List α} (h : p.Perm q) :
    p.insertionSort (· ≤ ·) = q.insertionSort (· ≤ ·) :=
  (((List.perm_insertionSort _ _).trans h).trans (List.perm_insertionSort _ _).symm).eq_of_pairwise'
    (List.pairwise_insertionSort _ _) (List.pairwise_insertionSort _ _)

theorem dueAlarms (h : Agree l t) : t.dueAlarms.map (·.key) = l.dueTimers.map fun x => (ofLex x).2 := by
  let timer : Ts.Alarm → Int ×ₗ AlarmKey := fun a => toLex (a.due.getD 0, a.key)
  let ripe := t.alarms.values.filter fun a => a.due.any (· ≤ t.now)
  have hsort : t.dueAlarms.map timer = (ripe.map timer).insertionSort (· ≤ ·) := by
    refine List.map_insertionSort _ (· ≤ ·) timer ripe fun a _ b _ => ?_
    rw [Prod.Lex.toLex_le_toLex]
    exact orElse_spec ⟨by simp, by simp; omega⟩ (cmpKey_le a.key b.key)
  have htimers : t.dueAlarms.map timer = l.dueTimers := by
    rw [hsort]
    apply insertionSort_of_perm
    refine (List.perm_ext_iff_of_nodup ?_ ?_).mpr fun x => ?_
    · refine List.Nodup.of_map (fun x => (ofLex x).2) ?_
      rw [List.map_map]
      have hsub : (ripe.map (·.key)).Sublist t.alarms.keys := h.keys_values ▸ (List.filter_sublist).map _
      exact hsub.nodup t.alarms.keys_nodup
    · refine l.alarms.keys_nodup.filterMap fun k k' x hk hk' => ?_
      obtain ⟨due, -, rfl⟩ := Option.map_eq_some_iff.mp hk
      obtain ⟨due', -, he⟩ := Option.map_eq_some_iff.mp hk'
      exact (congrArg (fun x => (ofLex x).2) he).symm
    · have hnow := h.now
      simp only [ripe, List.mem_map, List.mem_filter, List.mem_filterMap, Option.map_eq_some_iff,
        Option.filter_eq_some_iff, Option.bind_eq_some_iff, Option.any_eq_true, decide_eq_true_eq]
      constructor
      · rintro ⟨_, ⟨hb, due, hdue, hle⟩, rfl⟩
        obtain ⟨k, a, ha, rfl⟩ := h.mem_values.mp hb
        have hk : k ∈ l.alarms := Dict.mem_iff_lookup.mpr ⟨a, ha⟩
        have hdue' : a.due = some due := hdue
        refine ⟨k, AList.mem_keys.mp hk, due, ⟨⟨a, ha, hdue'⟩, hnow ▸ hle⟩, ?_⟩
        show toLex (due, k) = toLex (a.due.getD 0, k)
        rw [hdue']
        rfl
      · rintro ⟨k, -, due, ⟨⟨a, ha, hdue⟩, hle⟩, rfl⟩
        refine ⟨a.ts k, ⟨h.mem_values.mpr ⟨k, a, ha, rfl⟩, due, hdue, hnow ▸ hle⟩, ?_⟩
        show toLex (a.due.getD 0, k) = toLex (due, k)
        rw [hdue]
        rfl
  rw [← htimers, List.map_map]
  rfl

theorem loop {κ : Type} {f : AlarmList → κ → AlarmList × List AlarmEmit}
    {g : Ts.AlarmList → κ → Ts.AlarmList × List AlarmEmit}
    (hturn : ∀ {l t}, Agree l t → ∀ k, Agree (f l k).1 (g t k).1 ∧ (g t k).2 = (f l k).2) :
    ∀ (ks : List κ) {l : AlarmList} {t : Ts.AlarmList}, Agree l t →
      Agree (foldEmit f l ks).1 (foldEmit g t ks).1 ∧ (foldEmit g t ks).2 = (foldEmit f l ks).2
  | [], _, _, h => ⟨h, rfl⟩
  | k :: ks, _, _, h => by
      obtain ⟨hfirst, hout⟩ := hturn h k
      obtain ⟨hrest, houts⟩ := loop hturn ks hfirst
      exact ⟨hrest, by rw [foldEmit_cons, foldEmit_cons, hout, houts]⟩

theorem advance (h : Agree l t) (s : Int) :
    Agree (l.advance s).1 (t.advance s).1 ∧ (t.advance s).2 = (l.advance s).2 := by
  have hnow : Agree { l with now := l.now + s } { t with now := t.now + s } :=
    ⟨by rw [h.now], h.policy, h.gateways, h.alarms, h.armed⟩
  unfold AlarmList.advance Ts.AlarmList.advance
  dsimp only
  rw [hnow.gatewayIds]
  obtain ⟨hwatched, hout⟩ := loop Agree.watch l.gateways.sortedKeys hnow
  rw [hwatched.dueAlarms]
  obtain ⟨hescalated, hout'⟩ := loop Agree.escalate _ hwatched
  exact ⟨hescalated, by rw [hout, hout']⟩

theorem step (h : Agree l t) (event : AlarmEvent) :
    Agree (l.step event).1 (t.step event).1 ∧ (t.step event).2 = (l.step event).2 := by
  cases event with
  | report r =>
    obtain ⟨hreport, hout⟩ := h.report r
    exact ⟨hreport.retime, hout⟩
  | ack e => exact h.ack e
  | heartbeat gateway intervalS =>
    obtain ⟨hheartbeat, hout⟩ := h.heartbeat gateway intervalS
    exact ⟨hheartbeat.retime, hout⟩
  | advance s =>
    obtain ⟨hadvance, hout⟩ := h.advance s
    exact ⟨hadvance.retime, hout⟩

theorem observe (events : List AlarmEvent) {l : AlarmList} {t : Ts.AlarmList} (h : Agree l t) :
    t.observe events = l.observe events := by
  induction events generalizing l t with
  | nil => rfl
  | cons event events ih =>
    obtain ⟨hstep, hout⟩ := h.step event
    simp only [AlarmList.observe, Ts.AlarmList.observe, hout, hstep.snapshot, ih hstep]

theorem init (now : Int) (policy : Option AlarmPolicy) : Agree (.init now policy) (.init now policy) where
  now := rfl
  policy := rfl
  gateways := rfl
  alarms _ := rfl
  armed _ _ h := by cases h

end Agree

/-- **Every member computes the same alarm list**: the two implementations emit the
same and hold the same alarms after every event. -/
theorem alarm_lists_agree (now : Int) (policy : Option AlarmPolicy) (events : List AlarmEvent) :
    (Ts.AlarmList.init now policy).observe events = (AlarmList.init now policy).observe events :=
  (Agree.init now policy).observe events

end Dsip.Events
