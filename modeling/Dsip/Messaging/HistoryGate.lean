import Mathlib.Tactic
import Dsip.Messaging.History

/-!
# What a history opens

Both histories take events in through the same gate. It opens an archive record
once its key is there, and everything else at once, so that in the end the same
objects are open whatever the order of the events (`opened_perm`); what is shown
is a function of the objects opened, in the order of opening (`shown_eq`,
`shelf_eq`).
-/

namespace Dsip.Messaging

open Dsip.Lib

namespace History

/-! ## What is opened -/

/-- The device holds the key by now. -/
def KeyKnown (ctx : Context) (es : List Event) (akid : String) : Prop :=
  akid ∈ ctx.keys ∨ ∃ createdAt, .archiveKey akid createdAt ∈ es

/-- The objects the device can read by now. -/
inductive Seen (ctx : Context) (es : List Event) : Obj → Prop
  | archive {r : Record} (hr : .archive r ∈ es) (hkey : KeyKnown ctx es r.akid) : Seen ctx es r.obj
  | mls {o : Obj} {epoch : Nat} (ho : .mls o epoch ∈ es)
      (hjoined : isPrejoin ctx.joined o epoch = false) : Seen ctx es o
  | sent {o : Obj} (ho : .sent o ∈ es) : Seen ctx es o

/-- The joined epochs are fixed beforehand. -/
def Event.isJoined : Event → Bool
  | .joined .. => true
  | _ => false

/-- The object an event opens by itself, with these keys. -/
def opens (keys : Finset String) (joined : Dict String Nat) : Event → Option Obj
  | .archive r => if r.akid ∈ keys then some r.obj else none
  | .mls o epoch => if isPrejoin joined o epoch then none else some o
  | .sent o => some o
  | _ => none

def Gate.start (ctx : Context) : Gate := ⟨ctx.keys.keys.toFinset, ctx.joined, []⟩

/-- The gate after some events, and the objects opened on the way. -/
def Gate.run (g : Gate) (es : List Event) : Gate × List Obj := foldEmit Gate.step g es

section Gate

variable {g : Gate} {es : List Event}

theorem Gate.run_cons (g : Gate) (e : Event) (es : List Event) :
    g.run (e :: es) = (((g.step e).1.run es).1, (g.step e).2 ++ ((g.step e).1.run es).2) := rfl

theorem Gate.step_joined {e : Event} (he : e.isJoined = false) : (g.step e).1.joined = g.joined := by
  cases e with
  | joined => cases he
  | archiveKey | sent => rfl
  | archive r => simp only [Gate.step]; split <;> rfl
  | mls o epoch => simp only [Gate.step]; split <;> rfl

theorem Gate.mem_step_keys (e : Event) (akid : String) :
    akid ∈ (g.step e).1.keys ↔ akid ∈ g.keys ∨ ∃ createdAt, e = .archiveKey akid createdAt := by
  cases e with
  | joined | sent => simp [Gate.step]
  | archiveKey akid' createdAt =>
    simp only [Gate.step, Finset.mem_insert, Event.archiveKey.injEq, exists_and_left]
    constructor
    · rintro (rfl | h)
      · exact .inr ⟨rfl, createdAt, rfl⟩
      · exact .inl h
    · rintro (h | ⟨rfl, -⟩)
      · exact .inr h
      · exact .inl rfl
  | archive r => simp only [Gate.step]; split <;> simp
  | mls o epoch => simp only [Gate.step]; split <;> simp

theorem Gate.mem_run_keys (es : List Event) (g : Gate) (akid : String) :
    akid ∈ (g.run es).1.keys ↔ akid ∈ g.keys ∨ ∃ createdAt, .archiveKey akid createdAt ∈ es := by
  induction es generalizing g with
  | nil => simp [Gate.run]
  | cons e es ih =>
    rw [Gate.run_cons]
    dsimp only
    rw [ih, Gate.mem_step_keys]
    simp only [List.mem_cons, or_assoc]
    constructor
    · rintro (h | ⟨c, rfl⟩ | ⟨c, h⟩)
      · exact .inl h
      · exact .inr ⟨c, .inl rfl⟩
      · exact .inr ⟨c, .inr h⟩
    · rintro (h | ⟨c, rfl | h⟩)
      · exact .inl h
      · exact .inr (.inl ⟨c, rfl⟩)
      · exact .inr (.inr ⟨c, h⟩)

/-- No record is held whose key is there. -/
def Gate.Shut (g : Gate) : Prop := ∀ r ∈ g.held, r.akid ∉ g.keys

theorem Gate.Shut.step (h : g.Shut) (e : Event) : (g.step e).1.Shut := by
  cases e with
  | joined | sent => exact h
  | archiveKey akid createdAt =>
    intro r hr
    simp only [Gate.step, List.mem_filter, decide_eq_true_eq, Finset.mem_insert] at hr ⊢
    rintro (he | hk)
    · exact hr.2 he
    · exact h r hr.1 hk
  | archive r =>
    simp only [Gate.step]
    split
    case isTrue => exact h
    case isFalse hk =>
      intro r' hr'
      rcases List.mem_append.mp hr' with hr' | hr'
      · exact h r' hr'
      · rw [List.mem_singleton.mp hr']
        exact hk
  | mls o epoch => simp only [Gate.step]; split <;> exact h

theorem Gate.Shut.run (h : g.Shut) (es : List Event) : (g.run es).1.Shut := by
  induction es generalizing g with
  | nil => exact h
  | cons e es ih => exact ih (h.step e)

/-- What is opened in the end: what was held under a key that is there then, and
what every event opens by itself with the keys that are there then. -/
theorem Gate.run_opened (es : List Event) {g : Gate} (hshut : g.Shut) (hj : ∀ e ∈ es, e.isJoined = false) :
    (g.run es).2.Perm ((g.held.filter (·.akid ∈ (g.run es).1.keys)).map (·.obj) ++
      es.filterMap (opens (g.run es).1.keys g.joined)) := by
  induction es generalizing g with
  | nil =>
    have hnone : g.held.filter (·.akid ∈ (g.run []).1.keys) = [] := by
      refine List.filter_eq_nil_iff.mpr fun r hr => ?_
      exact fun hk => hshut r hr (of_decide_eq_true hk)
    rw [hnone]
    exact List.Perm.refl _
  | cons e es ih =>
    have hrest := ih (hshut.step e) fun e' he' => hj e' (List.mem_cons_of_mem _ he')
    rw [Gate.step_joined (hj e List.mem_cons_self)] at hrest
    rw [Gate.run_cons]
    dsimp only
    have hkeys : ∀ akid, akid ∈ (g.step e).1.keys → akid ∈ ((g.step e).1.run es).1.keys :=
      fun akid h => (Gate.mem_run_keys es _ akid).mpr (.inl h)
    generalize ((g.step e).1.run es).1.keys = keys at hrest hkeys
    refine (List.Perm.append_left _ hrest).trans ?_
    cases e with
    | joined group epoch => exact absurd (hj _ List.mem_cons_self) (by simp [Event.isJoined])
    | sent o =>
      simp only [Gate.step, List.filterMap_cons, opens, List.singleton_append]
      exact List.perm_middle.symm
    | mls o epoch =>
      simp only [Gate.step, List.filterMap_cons, opens]
      cases hpre : isPrejoin g.joined o epoch with
      | true => exact List.Perm.refl _
      | false =>
        simp only [Bool.false_eq_true, if_false, List.singleton_append]
        exact List.perm_middle.symm
    | archive r =>
      simp only [Gate.step, List.filterMap_cons, opens] at hkeys ⊢
      by_cases hk : r.akid ∈ g.keys
      · have hin : r.akid ∈ keys := hkeys _ (by rw [if_pos hk]; exact hk)
        simp only [if_pos hk, if_pos hin, List.singleton_append]
        exact List.perm_middle.symm
      · simp only [if_neg hk, List.filter_append, List.map_append]
        by_cases hin : r.akid ∈ keys
        · simp [hin]
        · simp [hin]
    | archiveKey akid createdAt =>
      simp only [Gate.step, List.filterMap_cons, opens]
      have hin : akid ∈ keys := hkeys akid (Finset.mem_insert_self _ _)
      -- the held records under the new key, and those under another that is there in the end
      have hsplit := List.filter_append_perm (fun r : Record => decide (r.akid = akid))
        (g.held.filter fun r => decide (r.akid ∈ keys))
      rw [List.filter_filter, List.filter_filter] at hsplit
      have hleft : g.held.filter (fun r => decide (r.akid = akid) && decide (r.akid ∈ keys)) =
          released g.held akid := by
        refine List.filter_congr fun r _ => ?_
        by_cases he : r.akid = akid <;> simp [he, hin]
      have hright : g.held.filter (fun r => !decide (r.akid = akid) && decide (r.akid ∈ keys)) =
          (g.held.filter (·.akid ≠ akid)).filter (·.akid ∈ keys) := by
        rw [List.filter_filter]
        refine List.filter_congr fun r _ => ?_
        simp [Bool.and_comm]
      rw [hleft, hright] at hsplit
      rw [← List.append_assoc, ← List.map_append]
      exact (hsplit.map _).append_right _

theorem Gate.start_shut (ctx : Context) : (Gate.start ctx).Shut :=
  fun _ hr => absurd hr List.not_mem_nil

theorem mem_start_keys (ctx : Context) (es : List Event) (akid : String) :
    akid ∈ ((Gate.start ctx).run es).1.keys ↔ KeyKnown ctx es akid := by
  rw [Gate.mem_run_keys]
  simp [Gate.start, KeyKnown, AList.mem_keys]

/-- The objects opened by some events. -/
def opened (ctx : Context) (es : List Event) : List Obj := ((Gate.start ctx).run es).2

variable {ctx : Context}

theorem opened_perm_opens (hj : ∀ e ∈ es, e.isJoined = false) :
    (opened ctx es).Perm (es.filterMap (opens ((Gate.start ctx).run es).1.keys ctx.joined)) :=
  Gate.run_opened es (Gate.start_shut ctx) hj

theorem mem_opened (hj : ∀ e ∈ es, e.isJoined = false) (o : Obj) : o ∈ opened ctx es ↔ Seen ctx es o := by
  rw [(opened_perm_opens hj).mem_iff, List.mem_filterMap]
  constructor
  · rintro ⟨e, he, ho⟩
    cases e with
    | joined | archiveKey => cases ho
    | archive r =>
      simp only [opens] at ho
      split at ho
      case isTrue hk =>
        obtain rfl := Option.some.inj ho
        exact .archive he ((mem_start_keys ctx es _).mp hk)
      case isFalse => cases ho
    | mls o' epoch =>
      simp only [opens] at ho
      split at ho
      case isTrue => cases ho
      case isFalse hpre =>
        obtain rfl := Option.some.inj ho
        exact .mls he (Bool.eq_false_iff.mpr hpre)
    | sent o' =>
      obtain rfl := Option.some.inj ho
      exact .sent he
  · rintro (⟨hr, hk⟩ | ⟨ho, hpre⟩ | ho)
    · exact ⟨_, hr, by simp [opens, mem_start_keys, hk]⟩
    · exact ⟨_, ho, by simp [opens, hpre]⟩
    · exact ⟨_, ho, rfl⟩

/-- **Whatever the order of the events**, the same objects are opened. -/
theorem opened_perm {es' : List Event} (hp : es'.Perm es) (hj : ∀ e ∈ es, e.isJoined = false) :
    (opened ctx es').Perm (opened ctx es) := by
  have hkeys : ((Gate.start ctx).run es').1.keys = ((Gate.start ctx).run es).1.keys := by
    ext akid
    simp only [mem_start_keys, KeyKnown, hp.mem_iff]
  have hj' : ∀ e ∈ es', e.isJoined = false := fun e he => hj e (hp.mem_iff.mp he)
  refine (opened_perm_opens hj').trans ?_
  rw [hkeys]
  exact (hp.filterMap _).trans (opened_perm_opens hj).symm

end Gate

/-! ## What is made of it -/

/-- One more object for the Python history. -/
def takeShown (shown : List Entry) (o : Obj) : List Entry :=
  if isState o.kind then shown
  else if o.id ∈ shown.map (·.id) then shown
  else shown ++ [o.entry]

def gate (h : History) : Gate := ⟨h.keys.keys.toFinset, h.joined, h.held⟩

section Python

variable {h : History}

theorem mem_gate_keys (akid : String) : akid ∈ h.gate.keys ↔ akid ∈ h.keys := by
  simp [gate, AList.mem_keys]

theorem gate_insert (akid : String) (createdAt : Nat) :
    ((h.keys.insert akid createdAt).keys.toFinset) = insert akid h.keys.keys.toFinset := by
  ext a
  simp only [List.mem_toFinset, Finset.mem_insert, ← AList.mem_keys, AList.mem_insert]

theorem present_shown (o : Obj) (hs : isState o.kind = false) :
    (h.present o).1 = { h with shown := takeShown h.shown o } := by
  unfold present takeShown
  rw [hs, if_neg Bool.false_ne_true]
  split <;> rfl

theorem openOne_shown (r : Record) :
    ∃ applied, (h.openOne r).1 = { h with applied := applied, shown := takeShown h.shown r.obj } := by
  unfold openOne openRecord
  cases hs : isState r.obj.kind with
  | true =>
    simp only [if_true, takeShown, hs]
    split <;> exact ⟨_, rfl⟩
  | false =>
    simp only [Bool.false_eq_true, if_false]
    exact ⟨_, present_shown r.obj hs⟩

theorem sent_shown (o : Obj) :
    ∃ applied, (h.sent o).1 = { h with applied := applied, shown := takeShown h.shown o } := by
  unfold sent
  cases hs : isState o.kind with
  | true =>
    simp only [if_true, takeShown, hs]
    split <;> exact ⟨_, rfl⟩
  | false =>
    simp only [Bool.false_eq_true, if_false]
    refine ⟨h.applied, ?_⟩
    rw [← present_shown o hs]
    unfold fromMls
    dsimp only
    split <;> rfl

theorem openAll_shown (rs : List Record) (h : History) : ∃ applied, (foldEmit openOne h rs).1 =
      { h with applied := applied, shown := (rs.map (·.obj)).foldl takeShown h.shown } := by
  induction rs generalizing h with
  | nil => exact ⟨h.applied, rfl⟩
  | cons r rs ih =>
    obtain ⟨applied, hone⟩ := openOne_shown (h := h) r
    obtain ⟨applied', hall⟩ := ih (h.openOne r).1
    refine ⟨applied', ?_⟩
    rw [foldEmit_cons]
    dsimp only
    rw [hall, hone]
    rfl

theorem step_gate (e : Event) : (h.step e).1.gate = (h.gate.step e).1 ∧
      (h.step e).1.shown = (h.gate.step e).2.foldl takeShown h.shown := by
  cases e with
  | joined group epoch => exact ⟨rfl, rfl⟩
  | sent o =>
    obtain ⟨applied, hs⟩ := sent_shown (h := h) o
    simp only [step, hs]
    exact ⟨rfl, rfl⟩
  | mls o epoch =>
    simp only [step, mls, Gate.step]
    have hpre : isPrejoin h.gate.joined o epoch = isPrejoin h.joined o epoch := rfl
    rw [hpre]
    cases isPrejoin h.joined o epoch with
    | true => exact ⟨rfl, rfl⟩
    | false =>
      obtain ⟨applied, hs⟩ := sent_shown (h := h) o
      simp only [Bool.false_eq_true, if_false, hs]
      exact ⟨rfl, rfl⟩
  | archive r =>
    simp only [step, archive, Gate.step, mem_gate_keys]
    by_cases hk : r.akid ∈ h.keys
    · obtain ⟨applied, hs⟩ := openOne_shown (h := h) r
      simp only [hk, not_true, if_false, if_true, hs]
      exact ⟨rfl, rfl⟩
    · simp only [hk, not_false_eq_true, if_false, if_true]
      exact ⟨rfl, rfl⟩
  | archiveKey akid createdAt =>
    obtain ⟨applied, hs⟩ := openAll_shown (released h.held akid)
      { h with keys := h.keys.insert akid createdAt }
    simp only [step, archiveKey, Gate.step, hs]
    refine ⟨?_, rfl⟩
    simp only [gate, gate_insert]

theorem run_gate (es : List Event) (h : History) :
    (es.foldl (fun h e => (h.step e).1) h).gate = (h.gate.run es).1 ∧
      (es.foldl (fun h e => (h.step e).1) h).shown = (h.gate.run es).2.foldl takeShown h.shown := by
  induction es generalizing h with
  | nil => exact ⟨rfl, rfl⟩
  | cons e es ih =>
    obtain ⟨hgate, hshown⟩ := step_gate (h := h) e
    obtain ⟨hgate', hshown'⟩ := ih (h.step e).1
    rw [List.foldl_cons, Gate.run_cons]
    dsimp only
    rw [hgate', hshown', hgate, hshown, List.foldl_append]
    exact ⟨rfl, rfl⟩

theorem shown_eq (ctx : Context) (es : List Event) :
    (run ctx es).shown = (opened ctx es).foldl takeShown [] := (run_gate es (init ctx)).2

theorem held_eq (ctx : Context) (es : List Event) : (run ctx es).held = ((Gate.start ctx).run es).1.held :=
  congrArg Gate.held (run_gate es (init ctx)).1

end Python

end History

namespace Ts.History

open Messaging.History (Event Context Gate Seen opened released isPrejoin)

/-- One more object for the TypeScript history: its ids and its timeline. -/
def take (s : Finset String × List Entry) (o : Obj) : Finset String × List Entry :=
  if o.id ∈ s.1 then s
  else if isTimeline o.kind then
    (insert o.id s.1, (s.2 ++ [entry o]).insertionSort fun a b => a.seq ≤ b.seq)
  else (insert o.id s.1, s.2)

def gate (h : History) : Gate := ⟨h.keys.keys.toFinset, h.joined, h.held⟩

def shelf (h : History) : Finset String × List Entry := (h.known, h.timeline)

section TypeScript

variable {h : History}

theorem mem_gate_keys (akid : String) : akid ∈ h.gate.keys ↔ akid ∈ h.keys := by
  simp [gate, AList.mem_keys]

theorem restoreOne_shelf (r : Record) :
    (h.restoreOne r).1.gate = h.gate ∧ (h.restoreOne r).1.shelf = take h.shelf r.obj := by
  unfold restoreOne restore take shelf
  dsimp only
  split
  case isTrue => exact ⟨rfl, rfl⟩
  case isFalse => cases isTimeline r.obj.kind <;> exact ⟨rfl, rfl⟩

theorem item_shelf (o : Obj) : (h.item o).1.gate = h.gate ∧ (h.item o).1.shelf = take h.shelf o := by
  unfold item take shelf
  dsimp only
  split
  case isTrue => exact ⟨rfl, rfl⟩
  case isFalse => cases isTimeline o.kind <;> exact ⟨rfl, rfl⟩

theorem restoreAll_shelf (rs : List Record) (h : History) : (foldEmit restoreOne h rs).1.gate = h.gate ∧
      (foldEmit restoreOne h rs).1.shelf = (rs.map (·.obj)).foldl take h.shelf := by
  induction rs generalizing h with
  | nil => exact ⟨rfl, rfl⟩
  | cons r rs ih =>
    obtain ⟨hgate, hshelf⟩ := restoreOne_shelf (h := h) r
    obtain ⟨hgate', hshelf'⟩ := ih (h.restoreOne r).1
    rw [foldEmit_cons]
    dsimp only
    rw [hgate', hshelf', hgate, hshelf]
    exact ⟨rfl, rfl⟩

theorem step_gate (e : Event) : (h.step e).1.gate = (h.gate.step e).1 ∧
      (h.step e).1.shelf = (h.gate.step e).2.foldl take h.shelf := by
  cases e with
  | joined group epoch => exact ⟨rfl, rfl⟩
  | sent o => exact item_shelf o
  | mls o epoch =>
    simp only [step, Gate.step]
    have hpre : isPrejoin h.gate.joined o epoch = isPrejoin h.joined o epoch := rfl
    rw [hpre]
    cases isPrejoin h.joined o epoch with
    | true => exact ⟨rfl, rfl⟩
    | false => exact item_shelf o
  | archive r =>
    simp only [step, archive, Gate.step, mem_gate_keys]
    by_cases hk : r.akid ∈ h.keys
    · simp only [hk, not_true, if_false, if_true]
      exact restoreOne_shelf r
    · simp only [hk, not_false_eq_true, if_false, if_true]
      exact ⟨rfl, rfl⟩
  | archiveKey akid createdAt =>
    obtain ⟨hgate, hshelf⟩ := restoreAll_shelf (released h.held akid)
      { h with keys := h.keys.insert akid createdAt, held := h.held.filter (·.akid ≠ akid) }
    simp only [step, archiveKey, Gate.step]
    rw [hgate, hshelf]
    refine ⟨?_, rfl⟩
    simp only [gate]
    congr 1
    ext a
    simp only [List.mem_toFinset, Finset.mem_insert, ← AList.mem_keys, AList.mem_insert]

theorem run_gate (es : List Event) (h : History) :
    (es.foldl (fun h e => (h.step e).1) h).gate = (h.gate.run es).1 ∧
      (es.foldl (fun h e => (h.step e).1) h).shelf = (h.gate.run es).2.foldl take h.shelf := by
  induction es generalizing h with
  | nil => exact ⟨rfl, rfl⟩
  | cons e es ih =>
    obtain ⟨hgate, hshelf⟩ := step_gate (h := h) e
    obtain ⟨hgate', hshelf'⟩ := ih (h.step e).1
    rw [List.foldl_cons, Gate.run_cons]
    dsimp only
    rw [hgate', hshelf', hgate, hshelf, List.foldl_append]
    exact ⟨rfl, rfl⟩

theorem shelf_eq (ctx : Context) (es : List Event) :
    (run ctx es).shelf = (opened ctx es).foldl take (∅, []) := (run_gate es (new ctx)).2

theorem held_eq (ctx : Context) (es : List Event) : (run ctx es).held = ((Gate.start ctx).run es).1.held :=
  congrArg Gate.held (run_gate es (new ctx)).1

end TypeScript

end Ts.History

end Dsip.Messaging
