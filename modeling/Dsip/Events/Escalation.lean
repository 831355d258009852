import Dsip.Events.AlarmsAgree
import Dsip.Lib.Timers

/-!
# Escalation

An advance moves the clock, then looks after each gateway, then escalates what is due. Here these
are acts of their own, so that each moment between them is a state of the run. What one act does
to the alarms is said once (`Turn`). An alarm that has a timer has been due to escalate since the
timer was set (`timer_since`).
-/

namespace Dsip.Events

open Dsip.Lib

namespace AlarmList

/-- What happens at one moment. -/
inductive Act where
  | report (r : AlarmReport)
  | ack (e : AlarmAck)
  | heartbeat (gateway : String) (intervalS : Int)
  | tick (s : Int)
  | watch (gateway : String)
  | escalate (k : AlarmKey)

def tick (l : AlarmList) (s : Int) : AlarmList := { l with now := l.now + s }

def act (l : AlarmList) : Act → AlarmList × List AlarmEmit
  | .report r => l.report r
  | .ack e => l.ack e
  | .heartbeat gateway intervalS => l.heartbeat gateway intervalS
  | .tick s => (l.tick s, [])
  | .watch gateway => l.watch gateway
  | .escalate k => l.escalate k

/-- The list after an advance has looked after the gateways. -/
def watched (l : AlarmList) (s : Int) : AlarmList := (foldEmit watch (l.tick s) (l.tick s).gateways.sortedKeys).1

def acts (l : AlarmList) : AlarmEvent → List Act
  | .report r => [.report r]
  | .ack e => [.ack e]
  | .heartbeat gateway intervalS => [.heartbeat gateway intervalS]
  | .advance s =>
    .tick s :: ((l.tick s).gateways.sortedKeys.map .watch ++
      (l.watched s).dueTimers.map fun t => .escalate (ofLex t).2)

def trace (l : AlarmList) : List AlarmEvent → List Act
  | [] => []
  | e :: es => l.acts e ++ (l.step e).1.trace es

def after (l : AlarmList) (as : List Act) : AlarmList := (foldEmit act l as).1

def emitted (l : AlarmList) (as : List Act) : List AlarmEmit := (foldEmit act l as).2

theorem foldEmit_acts (l : AlarmList) (e : AlarmEvent) : foldEmit act l (l.acts e) = l.step e := by
  cases e with
  | report r => simp [acts, act, step]
  | ack e => simp [acts, act, step]
  | heartbeat gateway intervalS => simp [acts, act, step]
  | advance s =>
    have hwatch : foldEmit act (l.tick s) ((l.tick s).gateways.sortedKeys.map .watch) =
        foldEmit watch (l.tick s) (l.tick s).gateways.sortedKeys := foldEmit_map act .watch _ _
    have hescalate (l' : AlarmList) : foldEmit act l' ((l.watched s).dueTimers.map fun t => .escalate (ofLex t).2) =
        foldEmit escalate l' ((l.watched s).dueTimers.map fun t => (ofLex t).2) := by
      rw [foldEmit_map, foldEmit_map]
      rfl
    show foldEmit act l (.tick s :: (_ ++ _)) = l.advance s
    rw [foldEmit_cons, foldEmit_append]
    simp only [act, List.nil_append]
    rw [hwatch, hescalate]
    rfl

theorem foldEmit_trace (l : AlarmList) (es : List AlarmEvent) : foldEmit act l (l.trace es) = foldEmit step l es := by
  induction es generalizing l with
  | nil => rfl
  | cons e es ih =>
    show foldEmit act l (l.acts e ++ (l.step e).1.trace es) = _
    rw [foldEmit_append, foldEmit_acts, ih]
    rfl

/-! ## One act -/

end AlarmList

/-- Neither raises an alarm nor escalates one. -/
def AlarmEmit.Plain : AlarmEmit → Prop
  | .raised .. => False
  | .escalate .. => False
  | _ => True

namespace AlarmList

/-- What an act does to the alarms. -/
inductive Turn (l l' : AlarmList) : List AlarmEmit → Prop
  | idle : l'.alarms = l.alarms → Turn l l' []
  | counted (k : AlarmKey) (a : Alarm) : l.alarms.lookup k = some a →
      l'.alarms = l.alarms.insert k { a with count := a.count + 1 } → Turn l l' []
  | raised (k : AlarmKey) (severity : Option String) (reopened : Bool) (a : Alarm) : a.due = none → a.escalated = false →
      l'.now = l.now → l'.alarms = l.alarms.insert k (l.arm a) → Turn l l' [.raised k severity reopened]
  | told (k : AlarmKey) (a a' : Alarm) (e : AlarmEmit) : l.alarms.lookup k = some a → a'.due = a.due →
      a'.escalated = a.escalated → e.Plain → l'.now = l.now → l'.alarms = l.alarms.insert k (l.arm a') → Turn l l' [e]
  | escalated (k : AlarmKey) (a : Alarm) : l.alarms.lookup k = some a →
      l'.alarms = l.alarms.insert k { a with due := none, escalated := true } → Turn l l' [.escalate k a.severity]

theorem turn_report (l : AlarmList) (r : AlarmReport) : Turn l (l.report r).1 (l.report r).2 := by
  unfold report
  dsimp only
  cases ha : l.alarms.lookup (keyOf r.resource r.type r.qualifier) with
  | none =>
    dsimp only
    split
    · exact .idle rfl
    · exact .raised _ _ _ _ rfl rfl rfl rfl
  | some a =>
    dsimp only
    split
    · split
      · exact .counted _ a ha rfl
      · exact .told _ a { a with count := a.count + 1, cleared := true } _ ha rfl rfl trivial rfl rfl
    split
    · exact .raised _ _ _ _ rfl rfl rfl rfl
    split
    · exact .counted _ a ha rfl
    · exact .told _ a { a with count := a.count + 1, severity := r.severity } _ ha rfl rfl trivial rfl rfl

theorem turn_ack (l : AlarmList) (e : AlarmAck) : Turn l (l.ack e).1 (l.ack e).2 := by
  unfold ack
  dsimp only
  cases ha : l.alarms.lookup (keyOf e.resource e.type e.qualifier) with
  | none => exact .idle rfl
  | some a =>
    dsimp only
    split
    · exact .idle rfl
    · exact .told _ a { a with operator := e.state } _ ha rfl rfl trivial rfl rfl

theorem Turn.of_watches {l l₁ l' : AlarmList} {out : List AlarmEmit} (h : Turn l₁ l' out) (halarms : l₁.alarms = l.alarms)
    (hnow : l₁.now = l.now) (hpolicy : l₁.policy = l.policy) : Turn l l' out := by
  have harm (a : Alarm) : l₁.arm a = l.arm a := by
    unfold arm
    rw [hnow, hpolicy]
  cases h with
  | idle h => exact .idle (h.trans halarms)
  | counted k a ha h => exact .counted k a (halarms ▸ ha) (halarms ▸ h)
  | raised k severity reopened a hdue hesc hnow' h =>
    exact .raised k severity reopened a hdue hesc (hnow'.trans hnow) (by rw [h, halarms, harm])
  | told k a a' e ha hdue hesc he hnow' h =>
    exact .told k a a' e (halarms ▸ ha) hdue hesc he (hnow'.trans hnow) (by rw [h, halarms, harm])
  | escalated k a ha h => exact .escalated k a (halarms ▸ ha) (halarms ▸ h)

theorem turn_heartbeat (l : AlarmList) (gateway : String) (intervalS : Int) :
    Turn l (l.heartbeat gateway intervalS).1 (l.heartbeat gateway intervalS).2 := by
  unfold heartbeat
  dsimp only
  split
  · exact (turn_report _ (silence gateway true)).of_watches rfl rfl rfl
  · exact .idle rfl

theorem turn_watch (l : AlarmList) (gateway : String) : Turn l (l.watch gateway).1 (l.watch gateway).2 := by
  unfold watch
  cases l.gateways.lookup gateway with
  | none => exact .idle rfl
  | some g =>
    dsimp only
    split
    · exact turn_report l _
    · exact .idle rfl

theorem turn_escalate (l : AlarmList) (k : AlarmKey) : Turn l (l.escalate k).1 (l.escalate k).2 := by
  unfold escalate
  cases ha : l.alarms.lookup k with
  | none => exact .idle rfl
  | some a => exact .escalated k a ha rfl

theorem turn_act (l : AlarmList) (a : Act) : Turn l (l.act a).1 (l.act a).2 := by
  cases a with
  | report r => exact turn_report l r
  | ack e => exact turn_ack l e
  | heartbeat gateway intervalS => exact turn_heartbeat l gateway intervalS
  | tick s => exact .idle rfl
  | watch gateway => exact turn_watch l gateway
  | escalate k => exact turn_escalate l k

theorem policy_report (l : AlarmList) (r : AlarmReport) : (l.report r).1.policy = l.policy := by
  unfold report
  dsimp only
  split
  · split
    · rfl
    · rfl
  split
  · split
    · rfl
    · rfl
  split
  · rfl
  split
  · rfl
  · rfl

theorem policy_act (l : AlarmList) (a : Act) : (l.act a).1.policy = l.policy := by
  cases a with
  | report r => exact policy_report l r
  | ack e =>
    simp only [act, ack]
    split
    · rfl
    split
    · rfl
    · rfl
  | heartbeat gateway intervalS =>
    simp only [act, heartbeat]
    split
    · exact policy_report _ _
    · rfl
  | tick s => rfl
  | watch gateway =>
    simp only [act, watch]
    split
    · rfl
    split
    · exact policy_report l _
    · rfl
  | escalate k =>
    simp only [act, escalate]
    split
    · rfl
    · rfl

/-! ## What an act does to one alarm -/

section One

variable {l l' : AlarmList} {out : List AlarmEmit} {k : AlarmKey}

/-- Every timer of the list is what it would be set to. -/
def AllArmed (l : AlarmList) : Prop := ∀ k a, l.alarms.lookup k = some a → Armed l.policy a

theorem Turn.armed (h : Turn l l' out) (hpolicy : l'.policy = l.policy) (harmed : l.AllArmed) : l'.AllArmed := by
  have hinsert {k : AlarmKey} {a : Alarm} (ha : Armed l.policy a) (halarms : l'.alarms = l.alarms.insert k a) : l'.AllArmed := by
    intro j b hb
    rw [halarms, Dict.lookup_insert_eq] at hb
    rw [hpolicy]
    split at hb
    · cases hb
      exact ha
    · exact harmed j b hb
  cases h with
  | idle h =>
    intro j b hb
    rw [h] at hb
    rw [hpolicy]
    exact harmed j b hb
  | counted k a ha h =>
    have ha' : Armed l.policy { a with count := a.count + 1 } := harmed k a ha
    exact hinsert ha' h
  | raised k severity reopened a hdue hesc hnow h => exact hinsert (armed_arm l a) h
  | told k a a' e ha hdue hesc he hnow h => exact hinsert (armed_arm l a') h
  | escalated k a ha h =>
    refine hinsert ?_ h
    cases hp : l.policy with
    | none => simp [Armed, isDue]
    | some p => simp [Armed, isDue]

theorem due_arm {a : Alarm} {d : Int} (h : (l.arm a).due = some d) :
    a.due = some d ∨ ∃ p, l.policy = some p ∧ d = l.now + p.afterS := by
  unfold arm at h
  split at h
  · cases ha : a.due with
    | some d' =>
      rw [ha] at h
      exact .inl h
    | none =>
      rw [ha] at h
      obtain ⟨p, hp, hd⟩ := Option.map_eq_some_iff.mp h
      exact .inr ⟨p, hp, hd.symm⟩
  · cases h

@[simp] theorem escalated_arm (a : Alarm) : (l.arm a).escalated = a.escalated := by
  unfold arm
  split
  · rfl
  · rfl

theorem Turn.timer (h : Turn l l' out) {a' : Alarm} {d : Int} (ha' : l'.alarms.lookup k = some a') (hd : a'.due = some d) :
    (∃ a, l.alarms.lookup k = some a ∧ a.due = some d) ∨ ∃ p, l.policy = some p ∧ d = l'.now + p.afterS := by
  cases h with
  | idle h =>
    rw [h] at ha'
    exact .inl ⟨a', ha', hd⟩
  | counted j a ha h =>
    rw [h, Dict.lookup_insert_eq] at ha'
    split at ha'
    · rename_i heq
      cases ha'
      exact .inl ⟨a, heq ▸ ha, hd⟩
    · exact .inl ⟨a', ha', hd⟩
  | raised j severity reopened a hdue hesc hnow h =>
    rw [h, Dict.lookup_insert_eq] at ha'
    split at ha'
    · cases ha'
      rw [hnow]
      refine .inr ((due_arm hd).resolve_left ?_)
      rw [hdue]
      intro h
      cases h
    · exact .inl ⟨a', ha', hd⟩
  | told j a b e ha hdue hesc he hnow h =>
    rw [h, Dict.lookup_insert_eq] at ha'
    split at ha'
    · rename_i heq
      cases ha'
      rw [hnow]
      rcases due_arm hd with hd | hset
      · exact .inl ⟨a, heq ▸ ha, hdue.symm.trans hd⟩
      · exact .inr hset
    · exact .inl ⟨a', ha', hd⟩
  | escalated j a ha h =>
    rw [h, Dict.lookup_insert_eq] at ha'
    split at ha'
    · cases ha'
      cases hd
    · exact .inl ⟨a', ha', hd⟩

/-- Whether the alarm has been escalated, and not raised again. -/
def isEscalated (l : AlarmList) (k : AlarmKey) : Bool := (l.alarms.lookup k).any (·.escalated)

/-- Among what was emitted, an escalation of the alarm that no raise of it follows. -/
def EscalatedSince (k : AlarmKey) (out : List AlarmEmit) : Prop :=
  ∃ before severity later, out = before ++ .escalate k severity :: later ∧
    ∀ severity' reopened, .raised k severity' reopened ∉ later

theorem not_escalatedSince_nil (k : AlarmKey) : ¬EscalatedSince k [] := by
  rintro ⟨before, severity, later, h, -⟩
  exact List.append_ne_nil_of_right_ne_nil before (List.cons_ne_nil _ later) h.symm

theorem escalatedSince_escalate (severity : Option String) : EscalatedSince k (out ++ [.escalate k severity]) :=
  ⟨out, severity, [], rfl, fun _ _ => List.not_mem_nil⟩

theorem not_escalatedSince_raised (severity : Option String) (reopened : Bool) :
    ¬EscalatedSince k (out ++ [.raised k severity reopened]) := by
  rintro ⟨before, severity', later, h, hlater⟩
  rcases List.eq_nil_or_concat later with rfl | ⟨later, e, rfl⟩
  · have hlast := congrArg List.getLast? h
    simp at hlast
  · have hlast := congrArg List.getLast? h
    rw [List.concat_eq_append, ← List.cons_append, ← List.append_assoc, List.getLast?_concat,
      List.getLast?_concat] at hlast
    cases hlast
    exact hlater severity reopened (by simp)

theorem escalatedSince_other {e : AlarmEmit} (hraised : ∀ severity reopened, e ≠ .raised k severity reopened)
    (hescalate : ∀ severity, e ≠ .escalate k severity) :
    EscalatedSince k (out ++ [e]) ↔ EscalatedSince k out := by
  constructor
  · rintro ⟨before, severity, later, h, hlater⟩
    rcases List.eq_nil_or_concat later with rfl | ⟨later, e', rfl⟩
    · have hlast := congrArg List.getLast? h
      simp only [List.getLast?_concat] at hlast
      cases hlast
      exact absurd rfl (hescalate severity)
    · rw [List.concat_eq_append, ← List.cons_append, ← List.append_assoc] at h
      obtain ⟨hout, -⟩ := List.append_inj' h rfl
      refine ⟨before, severity, later, hout, fun severity' reopened hmem => hlater severity' reopened ?_⟩
      simp [hmem]
  · rintro ⟨before, severity, later, rfl, hlater⟩
    refine ⟨before, severity, later ++ [e], by simp, fun severity' reopened hmem => ?_⟩
    rcases List.mem_append.mp hmem with hmem | hmem
    · exact hlater severity' reopened hmem
    · exact hraised severity' reopened (List.mem_singleton.mp hmem).symm

theorem Turn.escalatedSince (h : Turn l l' out) {past : List AlarmEmit}
    (hpast : l.isEscalated k = true ↔ EscalatedSince k past) :
    l'.isEscalated k = true ↔ EscalatedSince k (past ++ out) := by
  have hinsert {j : AlarmKey} {a : Alarm} (halarms : l'.alarms = l.alarms.insert j a) :
      l'.isEscalated k = if k = j then a.escalated else l.isEscalated k := by
    unfold isEscalated
    rw [halarms, Dict.lookup_insert_eq]
    split
    · rfl
    · rfl
  have hown {a : Alarm} (ha : l.alarms.lookup k = some a) : l.isEscalated k = a.escalated := by
    unfold isEscalated
    rw [ha]
    rfl
  cases h with
  | idle h =>
    unfold isEscalated at hpast ⊢
    rw [h, List.append_nil]
    exact hpast
  | counted j a ha h =>
    rw [hinsert h, List.append_nil]
    split
    · rename_i heq
      subst heq
      rwa [hown ha] at hpast
    · exact hpast
  | raised j severity reopened a hdue hesc hnow h =>
    rw [hinsert h]
    split
    · rename_i heq
      subst heq
      rw [escalated_arm, hesc]
      exact iff_of_false Bool.false_ne_true (not_escalatedSince_raised severity reopened)
    · rename_i hne
      refine hpast.trans (escalatedSince_other (fun s r he => ?_) (fun s he => ?_)).symm
      · cases he
        exact hne rfl
      · cases he
  | told j a a' e ha hdue hesc he hnow h =>
    have hplain : EscalatedSince k (past ++ [e]) ↔ EscalatedSince k past := by
      refine escalatedSince_other (fun s r heq => ?_) (fun s heq => ?_)
      · subst heq
        exact he
      · subst heq
        exact he
    rw [hinsert h, hplain]
    split
    · rename_i heq
      subst heq
      rw [escalated_arm, hesc]
      rwa [hown ha] at hpast
    · exact hpast
  | escalated j a ha h =>
    rw [hinsert h]
    split
    · rename_i heq
      subst heq
      exact iff_of_true rfl (escalatedSince_escalate a.severity)
    · rename_i hne
      refine hpast.trans (escalatedSince_other (fun s r he => ?_) (fun s he => ?_)).symm
      · cases he
      · cases he
        exact hne rfl

end One

/-! ## Runs -/

theorem after_append (l : AlarmList) (as bs : List Act) : l.after (as ++ bs) = (l.after as).after bs := by
  unfold after
  rw [foldEmit_append]

theorem emitted_append (l : AlarmList) (as bs : List Act) :
    l.emitted (as ++ bs) = l.emitted as ++ (l.after as).emitted bs := by
  unfold emitted after
  rw [foldEmit_append]

theorem turn_last (l : AlarmList) (as : List Act) (a : Act) :
    Turn (l.after as) (l.after (as ++ [a])) ((l.after as).act a).2 := by
  rw [after_append]
  exact turn_act (l.after as) a

theorem emitted_last (l : AlarmList) (as : List Act) (a : Act) :
    l.emitted (as ++ [a]) = l.emitted as ++ ((l.after as).act a).2 := by
  rw [emitted_append]
  exact congrArg (l.emitted as ++ ·) (List.append_nil _)

theorem policy_after (l : AlarmList) (as : List Act) : (l.after as).policy = l.policy :=
  foldEmit_invariant (P := fun l' => l'.policy = l.policy) (fun a _ l' h => (policy_act l' a).trans h) l rfl

section Init

variable {now : Int} {policy : Option AlarmPolicy}

theorem allArmed_after (as : List Act) : ((init now policy).after as).AllArmed := by
  induction as using List.reverseRecOn with
  | nil =>
    intro k a h
    cases h
  | append_singleton as a ih =>
    refine (turn_last _ as a).armed ?_ ih
    rw [policy_after, policy_after]

theorem escalatedSince_after (as : List Act) (k : AlarmKey) :
    ((init now policy).after as).isEscalated k = true ↔ EscalatedSince k ((init now policy).emitted as) := by
  induction as using List.reverseRecOn with
  | nil => exact iff_of_false Bool.false_ne_true (not_escalatedSince_nil k)
  | append_singleton as a ih =>
    rw [emitted_last]
    exact (turn_last _ as a).escalatedSince ih

/-- An alarm that a policy has escalated. -/
def ToEscalate (p : AlarmPolicy) (l : AlarmList) (k : AlarmKey) : Prop :=
  ∃ a, l.alarms.lookup k = some a ∧ a.cleared = false ∧ a.operator = "none" ∧ a.escalated = false ∧
    rank (some p.minSeverity) ≤ rank a.severity

theorem isDue_iff {a : Alarm} : isDue policy a = true ↔ ∃ p, policy = some p ∧ a.cleared = false ∧ a.operator = "none" ∧
    a.escalated = false ∧ rank (some p.minSeverity) ≤ rank a.severity := by
  cases policy with
  | none => simp [isDue]
  | some p => simp [isDue, and_assoc]

theorem toEscalate_of_timer (as : List Act) {p : AlarmPolicy} (hp : policy = some p) {k : AlarmKey} {a : Alarm} {d : Int}
    (ha : ((init now policy).after as).alarms.lookup k = some a) (hd : a.due = some d) :
    ToEscalate p ((init now policy).after as) k := by
  have harmed := allArmed_after as k a ha
  rw [policy_after] at harmed
  unfold Armed at harmed
  rw [hd] at harmed
  obtain ⟨p', hp', hdue⟩ := isDue_iff.mp harmed.symm
  have hpolicy : policy = some p' := hp'
  rw [hp] at hpolicy
  cases hpolicy
  exact ⟨a, ha, hdue⟩

theorem timer_since (as : List Act) {k : AlarmKey} {a : Alarm} {d : Int}
    (ha : ((init now policy).after as).alarms.lookup k = some a) (hd : a.due = some d) :
    ∃ p, policy = some p ∧ ∃ before since, as = before ++ since ∧ ((init now policy).after before).now + p.afterS = d ∧
      ∀ part rest, since = part ++ rest → ToEscalate p ((init now policy).after (before ++ part)) k := by
  induction as using List.reverseRecOn generalizing a d with
  | nil => cases ha
  | append_singleton as b ih =>
    rcases (turn_last _ as b).timer ha hd with ⟨a', ha', hd'⟩ | ⟨p, hp, hset⟩
    · obtain ⟨p, hp, before, since, rfl, hdue, hheld⟩ := ih ha' hd'
      refine ⟨p, hp, before, since ++ [b], by simp, hdue, ?_⟩
      intro part rest hparts
      rcases List.eq_nil_or_concat rest with rfl | ⟨rest, b', rfl⟩
      · rw [List.append_nil] at hparts
        rw [← hparts, ← List.append_assoc]
        exact toEscalate_of_timer _ hp ha hd
      · rw [List.concat_eq_append, ← List.append_assoc] at hparts
        exact hheld part rest (List.append_inj' hparts rfl).1
    · rw [policy_after] at hp
      refine ⟨p, hp, as ++ [b], [], by simp, hset.symm, ?_⟩
      intro part rest hparts
      obtain ⟨rfl, -⟩ := List.append_eq_nil_iff.mp hparts.symm
      rw [List.append_nil]
      exact toEscalate_of_timer _ hp ha hd

end Init

theorem escalate_others {ks : List AlarmKey} {k : AlarmKey} (hk : k ∉ ks) (l : AlarmList) :
    (foldEmit escalate l ks).1.alarms.lookup k = l.alarms.lookup k ∧ (foldEmit escalate l ks).1.now = l.now := by
  induction ks generalizing l with
  | nil => exact ⟨rfl, rfl⟩
  | cons j ks ih =>
    have hne := List.ne_of_not_mem_cons hk
    have hks := List.not_mem_of_not_mem_cons hk
    have hturn : (l.escalate j).1.alarms.lookup k = l.alarms.lookup k ∧ (l.escalate j).1.now = l.now := by
      unfold escalate
      cases hj : l.alarms.lookup j with
      | none => exact ⟨rfl, rfl⟩
      | some a => exact ⟨AList.lookup_insert_ne hne, rfl⟩
    rw [foldEmit_cons]
    exact ⟨(ih hks _).1.trans hturn.1, (ih hks _).2.trans hturn.2⟩

theorem acts_escalate {l : AlarmList} {e : AlarmEvent} {pre post : List Act} {k : AlarmKey}
    (h : l.acts e = pre ++ .escalate k :: post) :
    ∃ a d, (l.after pre).alarms.lookup k = some a ∧ a.due = some d ∧ d ≤ (l.after pre).now := by
  have hmem : Act.escalate k ∈ l.acts e := by
    rw [h]
    simp
  cases e with
  | report r => cases List.mem_singleton.mp hmem
  | ack e => cases List.mem_singleton.mp hmem
  | heartbeat gateway intervalS => cases List.mem_singleton.mp hmem
  | advance s =>
    let watching : List Act := .tick s :: (l.tick s).gateways.sortedKeys.map .watch
    let timers : List (Int ×ₗ AlarmKey) := (l.watched s).dueTimers
    have hnot : Act.escalate k ∉ watching := by simp [watching]
    have hacts : watching ++ timers.map (fun t => .escalate (ofLex t).2) = pre ++ .escalate k :: post := h
    obtain ⟨mid, hpre, hescalate⟩ : ∃ mid, pre = watching ++ mid ∧
        timers.map (fun t => Act.escalate (ofLex t).2) = mid ++ .escalate k :: post := by
      rcases List.append_eq_append_iff.mp hacts with ⟨mid, hpre, hrest⟩ | ⟨mid, hwatching, hrest⟩
      · exact ⟨mid, hpre, hrest⟩
      · cases mid with
        | nil => exact ⟨[], by simpa using hwatching.symm, hrest.symm⟩
        | cons a mid =>
          obtain ⟨rfl, -⟩ := List.cons.inj hrest
          exact absurd (hwatching ▸ by simp) hnot
    obtain ⟨first, rest, htimers, hmid, hrest⟩ := List.map_eq_append_iff.mp hescalate
    obtain ⟨t, last, rfl, ht, -⟩ := List.map_eq_cons_iff.mp hrest
    have hkey : (ofLex t).2 = k := by
      injection ht
    have hafter : l.after pre = (foldEmit escalate (l.watched s) (first.map fun t => (ofLex t).2)).1 := by
      have hwatching : l.after watching = l.watched s := by
        show (foldEmit act (l.tick s) _).1 = _
        rw [foldEmit_map]
        rfl
      rw [hpre, after_append, hwatching, ← hmid]
      show (foldEmit act _ _).1 = _
      rw [foldEmit_map, foldEmit_map]
      rfl
    have hnodup : (timers.map fun t => (ofLex t).2).Nodup := nodup_ripe_keys (l.watched s).alarms.keys_nodup
    have hfresh : k ∉ first.map fun t => (ofLex t).2 := by
      rw [htimers, List.map_append, List.map_cons, hkey] at hnodup
      exact fun hk => (List.nodup_append.mp hnodup).2.2 k hk k List.mem_cons_self rfl
    obtain ⟨hlookup, hnow⟩ := escalate_others hfresh (l.watched s)
    have htimer : t ∈ timers := by
      rw [htimers]
      simp
    obtain ⟨-, hdue, hle⟩ := mem_ripe.mp htimer
    rw [hkey] at hdue
    obtain ⟨a, ha, hd⟩ := Option.bind_eq_some_iff.mp hdue
    rw [hafter, hlookup, hnow]
    exact ⟨a, (ofLex t).1, ha, hd, hle⟩

theorem trace_escalate {es : List AlarmEvent} {l : AlarmList} {pre post : List Act} {k : AlarmKey}
    (h : l.trace es = pre ++ .escalate k :: post) :
    ∃ a d, (l.after pre).alarms.lookup k = some a ∧ a.due = some d ∧ d ≤ (l.after pre).now := by
  induction es generalizing l pre with
  | nil => exact absurd h.symm (List.append_ne_nil_of_right_ne_nil pre (List.cons_ne_nil _ post))
  | cons e es ih =>
    have hstep : l.after (l.acts e) = (l.step e).1 := congrArg Prod.fst (foldEmit_acts l e)
    have hlater {mid : List Act} (hmid : (l.step e).1.trace es = mid ++ .escalate k :: post) (hpre : pre = l.acts e ++ mid) :
        ∃ a d, (l.after pre).alarms.lookup k = some a ∧ a.due = some d ∧ d ≤ (l.after pre).now := by
      rw [hpre, after_append, hstep]
      exact ih hmid
    rcases List.append_eq_append_iff.mp h with ⟨mid, hpre, hrest⟩ | ⟨mid, hacts, hrest⟩
    · exact hlater hrest hpre
    · cases mid with
      | nil => exact @hlater [] hrest.symm (by simpa using hacts.symm)
      | cons a mid =>
        obtain ⟨rfl, -⟩ := List.cons.inj hrest
        exact acts_escalate hacts

theorem act_of_escalate {l : AlarmList} {b : Act} {k : AlarmKey} {severity : Option String}
    (h : .escalate k severity ∈ (l.act b).2) : b = .escalate k ∧ (l.act b).2 = [.escalate k severity] := by
  have hreport (l : AlarmList) (r : AlarmReport) : .escalate k severity ∉ (l.report r).2 := by
    unfold report
    dsimp only
    split
    · split <;> simp
    split
    · split <;> simp
    split
    · simp
    split <;> simp
  cases b with
  | report r => exact absurd h (hreport l r)
  | ack e =>
    simp only [act, ack] at h
    split at h
    · cases h
    split at h
    · cases h
    · cases List.mem_singleton.mp h
  | heartbeat gateway intervalS =>
    simp only [act, heartbeat] at h
    split at h
    · exact absurd h (hreport _ _)
    · cases h
  | tick s => cases h
  | watch gateway =>
    simp only [act, watch] at h
    split at h
    · cases h
    split at h
    · exact absurd h (hreport _ _)
    · cases h
  | escalate j =>
    simp only [act, escalate] at h ⊢
    split at h
    · cases h
    · cases List.mem_singleton.mp h
      exact ⟨rfl, rfl⟩

theorem isEscalated_of_lookup {l : AlarmList} {k : AlarmKey} {a : Alarm} (ha : l.alarms.lookup k = some a) :
    l.isEscalated k = a.escalated := by
  unfold isEscalated
  rw [ha]
  rfl

/--
Alarm escalation fires once, and only when due.

The acts are what happens in the events of a run, one by one. At each moment an alarm has a timer
just if a policy wants it escalated and it has not been since it was raised. What escalates it
comes when the policy's time has passed since a moment from which that has held throughout, and
between two escalations of an alarm it is raised.
-/
theorem escalates_once (now : Int) (policy : Option AlarmPolicy) (es : List AlarmEvent) :
    let l := init now policy
    foldEmit act l (l.trace es) = foldEmit step l es ∧
      (∀ pre post, l.trace es = pre ++ post → ∀ k a, (l.after pre).alarms.lookup k = some a →
        (a.due.isSome = true ↔ ∃ p, policy = some p ∧ a.cleared = false ∧ a.operator = "none" ∧
          ¬EscalatedSince k (l.emitted pre) ∧ rank (some p.minSeverity) ≤ rank a.severity)) ∧
      (∀ pre b post k severity, l.trace es = pre ++ b :: post → .escalate k severity ∈ ((l.after pre).act b).2 →
        ∃ p, policy = some p ∧ ∃ before since, pre = before ++ since ∧
          (l.after before).now + p.afterS ≤ (l.after pre).now ∧
          ∀ part rest, since = part ++ rest → ToEscalate p (l.after (before ++ part)) k) ∧
      ∀ (first second third : List AlarmEmit) (k : AlarmKey) (severity severity' : Option String),
        (foldEmit step l es).2 = first ++ .escalate k severity :: (second ++ .escalate k severity' :: third) →
        ∃ severity reopened, .raised k severity reopened ∈ second := by
  intro l
  refine ⟨foldEmit_trace l es, ?_, ?_, ?_⟩
  · intro pre post hpre k a ha
    have harmed : a.due.isSome = isDue policy a := by
      have h := allArmed_after pre k a ha
      rwa [policy_after] at h
    have hesc : a.escalated = false ↔ ¬EscalatedSince k (l.emitted pre) := by
      rw [← escalatedSince_after pre k, isEscalated_of_lookup ha, Bool.not_eq_true]
    rw [harmed, isDue_iff]
    simp only [hesc]
  · intro pre b post k severity hpre hb
    obtain ⟨rfl, -⟩ := act_of_escalate hb
    obtain ⟨a, d, ha, hd, hle⟩ := trace_escalate hpre
    obtain ⟨p, hp, before, since, hsplit, hset, hheld⟩ := timer_since pre ha hd
    refine ⟨p, hp, before, since, hsplit, ?_, hheld⟩
    show ((init now policy).after before).now + p.afterS ≤ _
    rw [hset]
    exact hle
  · intro first second third k severity severity' hout
    rw [← foldEmit_trace, ← List.cons_append, ← List.append_assoc] at hout
    obtain ⟨pre, b, post, before, after, htrace, hturn, hpast, -⟩ := foldEmit_split hout
    have hmem : .escalate k severity' ∈ ((foldEmit act l pre).1.act b).2 := by
      rw [hturn]
      simp
    obtain ⟨rfl, honly⟩ := act_of_escalate hmem
    have hbefore : before = [] := by
      rw [honly] at hturn
      cases before with
      | nil => rfl
      | cons e before => simp at hturn
    subst hbefore
    obtain ⟨a, d, ha, hd, -⟩ := trace_escalate htrace
    obtain ⟨p, hp, -⟩ := timer_since pre ha hd
    obtain ⟨a', ha', -, -, hesc, -⟩ := toEscalate_of_timer pre hp ha hd
    -- it would count as escalated already, were it not raised in between
    by_contra hnone
    have hsince : EscalatedSince k (l.emitted pre) :=
      ⟨first, severity, second, by simpa [emitted] using hpast.symm, fun s r hmem => hnone ⟨s, r, hmem⟩⟩
    have htrue := (escalatedSince_after pre k).mpr hsince
    rw [isEscalated_of_lookup ha', hesc] at htrue
    cases htrue

end AlarmList

end Dsip.Events
