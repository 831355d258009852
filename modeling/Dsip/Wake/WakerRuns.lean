import Dsip.Wake.Waker

/-!
# Whom a run wakes

A run is a list of moments, two for an event: what is settled, and the event itself. `Fair` is what
one moment does, read off the state before it; `Kept` reads the state off the moments so far. A
device is woken once for an invite between its bindings.
-/

namespace Dsip.Wake

open Dsip.Lib

/-- One half of an event: `input` is absent while what has expired is settled. -/
structure Moment where
  input : Option Input
  time : Int
  before : Waker
  out : List Output
  after : Waker

/-- The wakes among what is sent. -/
def wakesOf (out : List Output) : List WakeMsg :=
  out.filterMap fun o =>
    match o with
    | .wake x => some x
    | .ended _ _ => none

/-- Whom a wake goes to, and what for. -/
def WakeMsg.whom (x : WakeMsg) : String × Kind × Option String := (x.device, x.kind, x.session)

namespace Moment

variable (m : Moment) (sid d : String)

def wakes : List WakeMsg := wakesOf m.out

/-- `d` is sent a `call` wake for the session. -/
def Calls : Prop := ∃ t, .call d sid t ∈ m.wakes

def Messages : Prop := ∃ t, .message d t ∈ m.wakes

def Binds : Prop := m.input = some (.bind d)

/-- Nothing is left of a wake for the session: `d` binds, or the session is not held. -/
def Clears : Prop := m.Binds d ∨ sid ∉ m.after.held

/-- When an invite `h` stopped being held, if it did now: its expiry, or the event's time. -/
def stopped (h : HeldInvite) : Int :=
  match m.input with
  | none => h.expiresAt
  | some _ => m.time

/-- The time a wake is about: for a call that ended, its end. -/
def about : WakeMsg → Int
  | .callEnded _ _ deliverBy => deliverBy - callEndedS
  | .call .. => m.time
  | .message .. => m.time

end Moment

/-- `d` got the `call` wake for the held session, and has not bound since. -/
def Woken (sid d : String) : List Moment → Prop := Since (Moment.Calls · sid d) (Moment.Clears · sid d)

/-- `d` got a `message` wake at `t`, and has not bound since. -/
def Messaged (d : String) (t : Int) : List Moment → Prop :=
  Since (fun m => m.Messages d ∧ m.time = t) (Moment.Binds · d)

namespace Waker

def moments (w : Waker) : List Event → Option (List Moment)
  | [] => some []
  | e :: es => do
      let s := w.settle e.time
      let (w', out) ← s.1.apply e.time e.input
      let ms ← moments w' es
      return ⟨none, e.time, w, s.2, s.1⟩ :: ⟨some e.input, e.time, s.1, out, w'⟩ :: ms

/-- `d` is among those woken for the session. -/
def Woke (w : Waker) (sid d : String) : Prop := ∃ h, w.held.lookup sid = some h ∧ d ∈ h.woken

/-- Those woken for an invite are among those it is held for, and none of these is bound. -/
def Guarded (w : Waker) : Prop :=
  ∀ sid h, w.held.lookup sid = some h → ∀ d, (d ∈ h.woken → d ∈ h.devices) ∧ (d ∈ h.devices → d ∉ w.bound)

theorem guarded_init (component : Component) : (init component).Guarded := by
  intro sid h hl
  cases hl

end Waker

structure Fair (m : Moment) : Prop where
  guarded : m.after.Guarded
  woke_iff : ∀ sid d, m.after.Woke sid d ↔ m.Calls sid d ∨ m.before.Woke sid d ∧ ¬ m.Clears sid d
  taken : ∀ x ∈ m.wakes, m.before.takes x.device x.kind (m.about x) = true ∧ x.device ∉ m.before.bound
  once : (m.wakes.map WakeMsg.whom).Nodup
  fresh : ∀ sid d, m.Calls sid d → sid ∈ m.after.held ∧ ¬ m.before.Woke sid d
  ended_iff : ∀ sid d t, .callEnded d sid t ∈ m.wakes ↔
    ∃ h, m.before.held.lookup sid = some h ∧ sid ∉ m.after.held ∧ d ∈ h.woken ∧
      t = m.stopped h + callEndedS ∧ m.before.takes d .callEnded (m.stopped h) = true
  messaged : ∀ d, m.Messages d → m.after.lastMessage.lookup d = some m.time ∧
    ∀ t, m.before.lastMessage.lookup d = some t → t + coalesce ≤ m.time
  last : ∀ d, ¬ m.Messages d → ¬ m.Binds d → m.after.lastMessage.lookup d = m.before.lastMessage.lookup d

variable {out : List Output}

theorem mem_wakesOf {x : WakeMsg} : x ∈ wakesOf out ↔ .wake x ∈ out := by
  unfold wakesOf
  rw [List.mem_filterMap]
  constructor
  · intro h
    obtain ⟨o, ho, hx⟩ := h
    cases o with
    | wake y => rwa [← Option.some.inj hx]
    | ended d c => cases hx
  · intro h
    exact ⟨_, h, rfl⟩

theorem wakesOf_append (a b : List Output) : wakesOf (a ++ b) = wakesOf a ++ wakesOf b := List.filterMap_append ..

theorem wakesOf_map {α : Type} (f : α → WakeMsg) (l : List α) : wakesOf (l.map fun a => .wake (f a)) = l.map f := by
  unfold wakesOf
  rw [List.filterMap_map]
  exact congrFun (List.filterMap_eq_map (f := f)) l

theorem wakesOf_flatMap {α : Type} (f : α → List Output) (l : List α) :
    wakesOf (l.flatMap f) = l.flatMap fun a => wakesOf (f a) := by
  induction l with
  | nil => rfl
  | cons a l ih => rw [List.flatMap_cons, List.flatMap_cons, wakesOf_append, ih]

theorem wakesOf_eq_nil (h : ∀ x, .wake x ∉ out) : wakesOf out = [] := by
  apply List.eq_nil_iff_forall_not_mem.mpr
  intro x hx
  exact h x (mem_wakesOf.mp hx)

section Moments

variable {m : Moment}

theorem fair_quiet (hg : m.before.Guarded) (hout : ∀ x, .wake x ∉ m.out) (hin : ∀ d, ¬ m.Binds d)
    (hheld : m.after.held = m.before.held) (hlast : m.after.lastMessage = m.before.lastMessage)
    (hbound : m.after.bound ⊆ m.before.bound) : Fair m := by
  have hnone : m.wakes = [] := wakesOf_eq_nil hout
  have hcalls : ∀ sid d, ¬ m.Calls sid d := by
    intro sid d h
    obtain ⟨t, ht⟩ := h
    rw [hnone] at ht
    exact List.not_mem_nil ht
  constructor
  case guarded =>
    intro sid h hl d
    rw [hheld] at hl
    obtain ⟨hwd, hdb⟩ := hg sid h hl d
    exact ⟨hwd, fun hd hb => hdb hd (hbound hb)⟩
  case woke_iff =>
    intro sid d
    unfold Waker.Woke
    rw [hheld]
    constructor
    · intro hw
      obtain ⟨h, hl, hd⟩ := hw
      refine Or.inr ⟨⟨h, hl, hd⟩, ?_⟩
      intro hc
      rcases hc with hc | hc
      · exact hin d hc
      · rw [hheld] at hc
        exact hc (Dict.mem_iff_lookup.mpr ⟨h, hl⟩)
    · intro hw
      exact (hw.resolve_left (hcalls sid d)).1
  case taken => rw [hnone]; exact fun x hx => absurd hx List.not_mem_nil
  case once => rw [hnone]; exact List.nodup_nil
  case fresh => exact fun sid d h => absurd h (hcalls sid d)
  case ended_iff =>
    intro sid d t
    rw [hnone]
    constructor
    · exact fun h => absurd h List.not_mem_nil
    · intro h
      obtain ⟨h', hl, hno, -⟩ := h
      rw [hheld] at hno
      exact absurd (Dict.mem_iff_lookup.mpr ⟨h', hl⟩) hno
  case messaged =>
    intro d h
    obtain ⟨t, ht⟩ := h
    rw [hnone] at ht
    exact absurd ht List.not_mem_nil
  case last => exact fun d _ _ => by rw [hlast]

/-! ## Invites that stop being held -/

/-- The wakes of `callEndedOut`. -/
def endedWakes (w : Waker) (sid : String) (h : HeldInvite) (stopped : Int) : List WakeMsg :=
  ((sorted (h.woken ∩ h.devices)).filter fun d => w.takes d .callEnded stopped).map fun d =>
    .callEnded d sid (stopped + callEndedS)

theorem wakesOf_callEndedOut (w : Waker) (sid : String) (h : HeldInvite) (stopped : Int) :
    wakesOf (w.callEndedOut sid h stopped) = endedWakes w sid h stopped := wakesOf_map ..

theorem mem_endedWakes {w : Waker} {sid : String} {h : HeldInvite} {stopped : Int} {x : WakeMsg} :
    x ∈ endedWakes w sid h stopped ↔ ∃ d, d ∈ h.woken ∧ d ∈ h.devices ∧ w.takes d .callEnded stopped = true ∧
      x = .callEnded d sid (stopped + callEndedS) := by
  unfold endedWakes
  rw [List.mem_map]
  constructor
  · intro hx
    obtain ⟨d, hd, rfl⟩ := hx
    obtain ⟨hmem, ht⟩ := List.mem_filter.mp hd
    obtain ⟨hw, hdev⟩ := Finset.mem_inter.mp (mem_sorted.mp hmem)
    exact ⟨d, hw, hdev, ht, rfl⟩
  · intro hx
    obtain ⟨d, hw, hdev, ht, rfl⟩ := hx
    exact ⟨d, List.mem_filter.mpr ⟨mem_sorted.mpr (Finset.mem_inter.mpr ⟨hw, hdev⟩), ht⟩, rfl⟩

theorem nodup_endedWakes (w : Waker) (sid : String) (h : HeldInvite) (stopped : Int) :
    ((endedWakes w sid h stopped).map WakeMsg.whom).Nodup := by
  unfold endedWakes
  rw [List.map_map]
  refine List.Nodup.map ?_ ((nodup_sorted _).filter _)
  intro d d' heq
  exact congrArg Prod.fst heq

theorem fair_stop {gone : List String} (hg : m.before.Guarded) (hnd : gone.Nodup) (hin : ∀ d, ¬ m.Binds d)
    (hheld : ∀ sid, m.after.held.lookup sid = if sid ∈ gone then none else m.before.held.lookup sid)
    (hbound : m.after.bound = m.before.bound) (hlast : m.after.lastMessage = m.before.lastMessage)
    (hgone : ∀ sid ∈ gone, sid ∈ m.before.held)
    (hwakes : m.wakes = gone.flatMap fun sid => (m.before.held.lookup sid).elim [] fun h =>
      endedWakes m.before sid h (m.stopped h)) : Fair m := by
  have hmem : ∀ x, x ∈ m.wakes ↔ ∃ sid ∈ gone, ∃ h, m.before.held.lookup sid = some h ∧ ∃ d, d ∈ h.woken ∧
      d ∈ h.devices ∧ m.before.takes d .callEnded (m.stopped h) = true ∧
      x = .callEnded d sid (m.stopped h + callEndedS) := by
    intro x
    rw [hwakes, List.mem_flatMap]
    refine exists_congr fun sid => and_congr_right fun hsid => ?_
    obtain ⟨h, hl⟩ := Dict.mem_iff_lookup.mp (hgone sid hsid)
    rw [hl, Option.elim_some, mem_endedWakes]
    constructor
    · intro hx
      exact ⟨h, rfl, hx⟩
    · intro hx
      obtain ⟨h', hl', hx⟩ := hx
      obtain rfl := Option.some.inj hl'
      exact hx
  have hcalls : ∀ sid d, ¬ m.Calls sid d := by
    intro sid d h
    obtain ⟨t, ht⟩ := h
    obtain ⟨sid', _, h', _, d', _, _, _, heq⟩ := (hmem _).mp ht
    cases heq
  have hkept : ∀ sid h, m.after.held.lookup sid = some h → m.before.held.lookup sid = some h := by
    intro sid h hl
    rw [hheld] at hl
    split at hl
    · cases hl
    · exact hl
  constructor
  case guarded =>
    intro sid h hl d
    rw [hbound]
    exact hg sid h (hkept sid h hl) d
  case woke_iff =>
    intro sid d
    constructor
    · intro hw
      obtain ⟨h, hl, hd⟩ := hw
      refine Or.inr ⟨⟨h, hkept sid h hl, hd⟩, ?_⟩
      intro hc
      rcases hc with hc | hc
      · exact hin d hc
      · exact hc (Dict.mem_iff_lookup.mpr ⟨h, hl⟩)
    · intro hw
      obtain ⟨⟨h, hl, hd⟩, hc⟩ := hw.resolve_left (hcalls sid d)
      obtain ⟨h', hl'⟩ : ∃ h', m.after.held.lookup sid = some h' := by
        rw [← Dict.mem_iff_lookup]
        by_contra hno
        exact hc (Or.inr hno)
      have hsame := hkept sid h' hl'
      rw [hl] at hsame
      obtain rfl := Option.some.inj hsame
      exact ⟨h, hl', hd⟩
  case taken =>
    intro x hx
    obtain ⟨sid, hsid, h, hl, d, hw, hdev, ht, rfl⟩ := (hmem x).mp hx
    refine ⟨?_, (hg sid h hl d).2 hdev⟩
    show m.before.takes d .callEnded (m.stopped h + callEndedS - callEndedS) = true
    rwa [Int.add_sub_cancel]
  case once =>
    rw [hwakes, List.map_flatMap, List.nodup_flatMap]
    constructor
    · intro sid _
      cases m.before.held.lookup sid with
      | none => exact List.nodup_nil
      | some h => exact nodup_endedWakes ..
    · refine hnd.imp ?_
      intro sid sid' hne y hy hy'
      -- the session is part of whom a wake goes to
      have hsession : ∀ {s : String}, y ∈ ((m.before.held.lookup s).elim [] fun h =>
          endedWakes m.before s h (m.stopped h)).map WakeMsg.whom → y.2.2 = some s := by
        intro s hs
        obtain ⟨x, hx, rfl⟩ := List.mem_map.mp hs
        cases hl : m.before.held.lookup s with
        | none =>
          rw [hl] at hx
          exact absurd hx List.not_mem_nil
        | some h =>
          rw [hl, Option.elim_some, mem_endedWakes] at hx
          obtain ⟨d, _, _, _, rfl⟩ := hx
          rfl
      have heq := (hsession hy).symm.trans (hsession hy')
      exact hne (Option.some.inj heq)
  case fresh => exact fun sid d h => absurd h (hcalls sid d)
  case ended_iff =>
    intro sid d t
    rw [hmem]
    constructor
    · intro hx
      obtain ⟨sid', hsid, h, hl, d', hw, hdev, ht, heq⟩ := hx
      cases heq
      refine ⟨h, hl, ?_, hw, rfl, ht⟩
      intro hin'
      obtain ⟨h', hl'⟩ := Dict.mem_iff_lookup.mp hin'
      rw [hheld, if_pos hsid] at hl'
      cases hl'
    · intro hx
      obtain ⟨h, hl, hno, hw, rfl, ht⟩ := hx
      have hsid : sid ∈ gone := by
        by_contra hout
        apply hno
        rw [Dict.mem_iff_lookup, hheld, if_neg hout]
        exact ⟨h, hl⟩
      exact ⟨sid, hsid, h, hl, d, hw, (hg sid h hl d).1 hw, ht, rfl⟩
  case messaged =>
    intro d h
    obtain ⟨t, ht⟩ := h
    obtain ⟨sid', _, h', _, d', _, _, _, heq⟩ := (hmem _).mp ht
    cases heq
  case last => exact fun d _ _ => by rw [hlast]

end Moments

namespace Waker

variable {w : Waker} {time : Int}

theorem fair_settle (hg : w.Guarded) (time : Int) : Fair ⟨none, time, w, (w.settle time).2, (w.settle time).1⟩ := by
  obtain ⟨hsame, hlookup, quiet, hout, hquiet⟩ := settle_spec w time
  let expired (sid : String) : Bool := (w.held.lookup sid).any fun h => h.expiresAt ≤ time
  apply @fair_stop _ (w.held.sortedKeys.filter expired) hg ((Dict.nodup_sortedKeys _).filter _)
  case hin => exact fun d h => by cases h
  case hheld =>
    intro sid
    refine (hlookup sid).trans ?_
    show _ = if sid ∈ _ then none else w.held.lookup sid
    simp only [List.mem_filter, Dict.mem_sortedKeys, ← AList.lookup_isSome]
    cases hl : w.held.lookup sid with
    | none => simp
    | some h =>
      by_cases hle : h.expiresAt ≤ time
      · simp [expired, hl, hle, Option.filter_some]
      · simp [expired, hl, hle, Option.filter_some]
  case hbound =>
    show (w.settle time).1.bound = w.bound
    rw [hsame]
  case hlast =>
    show (w.settle time).1.lastMessage = w.lastMessage
    rw [hsame]
  case hgone =>
    intro sid hsid
    exact Dict.mem_sortedKeys.mp (List.mem_filter.mp hsid).1
  case hwakes =>
    show wakesOf (w.settle time).2 = _
    rw [hout, wakesOf_append, wakesOf_eq_nil hquiet, List.append_nil, wakesOf_flatMap]
    show _ = (w.held.sortedKeys.filter expired).flatMap fun sid => (w.held.lookup sid).elim [] fun h =>
      endedWakes w sid h h.expiresAt
    induction w.held.sortedKeys with
    | nil => rfl
    | cons sid sids ih =>
      rw [List.flatMap_cons, List.filter_cons, ih]
      cases hl : w.held.lookup sid with
      | none =>
        rw [if_neg (by simp [expired, hl])]
        rfl
      | some h =>
        by_cases hle : h.expiresAt ≤ time
        · rw [if_pos (by simp [expired, hl, hle]), List.flatMap_cons, hl, Option.elim_some, Option.elim_some,
            if_pos hle, wakesOf_callEndedOut]
        · rw [if_neg (by simp [expired, hl, hle]), Option.elim_some, if_neg hle]
          rfl

theorem fair_drop (hg : w.Guarded) {sid : String} {h : HeldInvite} (hl : w.held.lookup sid = some h) (i : Input)
    (hi : ∀ d, i ≠ .bind d) : Fair ⟨some i, time, w, (w.callEnded sid h time).2, (w.callEnded sid h time).1⟩ := by
  apply @fair_stop _ [sid] hg (List.nodup_singleton sid)
  case hin => exact fun d hb => hi d (Option.some.inj hb)
  case hheld =>
    intro j
    show (w.held.erase sid).lookup j = if j ∈ [sid] then none else w.held.lookup j
    rw [Dict.lookup_erase_eq]
    simp only [List.mem_singleton]
  case hbound => rfl
  case hlast => rfl
  case hgone =>
    intro j hj
    rw [List.mem_singleton.mp hj]
    exact Dict.mem_iff_lookup.mpr ⟨h, hl⟩
  case hwakes =>
    show wakesOf (w.callEndedOut sid h time) = List.flatMap _ [sid]
    rw [List.flatMap_singleton, hl, wakesOf_callEndedOut]
    rfl

theorem fair_bind (hg : w.Guarded) (d : String) : Fair ⟨some (.bind d), time, w, [], w.bind d⟩ := by
  have hheld : ∀ sid, (w.bind d).held.lookup sid = (w.held.lookup sid).map fun h =>
      { h with devices := h.devices.erase d, woken := h.woken.erase d } := Dict.lookup_map _ _
  constructor
  case guarded =>
    intro sid h hl d'
    have hl' := hl
    rw [hheld] at hl'
    obtain ⟨h₀, hl₀, rfl⟩ := Option.map_eq_some_iff.mp hl'
    obtain ⟨hwd, hdb⟩ := hg sid h₀ hl₀ d'
    simp only [Finset.mem_erase]
    refine ⟨fun hw => ⟨hw.1, hwd hw.2⟩, ?_⟩
    intro hd hb
    rcases Finset.mem_insert.mp hb with hb | hb
    · exact hd.1 hb
    · exact hdb hd.2 hb
  case woke_iff =>
    intro sid d'
    constructor
    · intro hw
      obtain ⟨h, hl, hd⟩ := hw
      have hl' := hl
      change (w.bind d).held.lookup sid = some h at hl'
      rw [hheld] at hl'
      obtain ⟨h₀, hl₀, rfl⟩ := Option.map_eq_some_iff.mp hl'
      obtain ⟨hne, hd₀⟩ := Finset.mem_erase.mp hd
      refine Or.inr ⟨⟨h₀, hl₀, hd₀⟩, ?_⟩
      intro hc
      rcases hc with hc | hc
      · exact hne (Input.bind.inj (Option.some.inj hc)).symm
      · exact hc (Dict.mem_iff_lookup.mpr ⟨_, hl⟩)
    · intro hw
      rcases hw with hw | hw
      · obtain ⟨t, ht⟩ := hw
        exact absurd ht List.not_mem_nil
      · obtain ⟨⟨h₀, hl₀, hd₀⟩, hc⟩ := hw
        refine ⟨_, (hheld sid).trans (by rw [hl₀]; rfl), Finset.mem_erase.mpr ⟨?_, hd₀⟩⟩
        intro heq
        exact hc (Or.inl (by rw [heq]; rfl))
  case taken => exact fun x hx => absurd hx List.not_mem_nil
  case once => exact List.nodup_nil
  case fresh =>
    intro sid d' hc
    obtain ⟨t, ht⟩ := hc
    exact absurd ht List.not_mem_nil
  case ended_iff =>
    intro sid d' t
    constructor
    · exact fun h => absurd h List.not_mem_nil
    · intro hx
      obtain ⟨h, hl, hno, -⟩ := hx
      refine absurd ?_ hno
      show sid ∈ (w.bind d).held
      rw [Dict.mem_iff_lookup, hheld]
      exact ⟨_, Option.map_eq_some_iff.mpr ⟨h, hl, rfl⟩⟩
  case messaged =>
    intro d' hc
    obtain ⟨t, ht⟩ := hc
    exact absurd ht List.not_mem_nil
  case last =>
    intro d' _ hb
    refine AList.lookup_erase_ne ?_
    intro heq
    exact hb (by rw [heq]; rfl)

theorem fair_hold (hg : w.Guarded) (sid : String) (expiresAt : Int) (devices : List String) :
    Fair ⟨some (.hold sid expiresAt devices), time, w, (w.hold time sid expiresAt devices).2,
      (w.hold time sid expiresAt devices).1⟩ := by
  unfold hold
  split
  case isFalse => exact fair_quiet hg (fun x => List.not_mem_nil) (fun d h => by cases h) rfl rfl (Finset.Subset.refl _)
  case isTrue =>
    -- the invite as it was, or a new one that wakes no one yet
    obtain ⟨h, hh, hguard, hwoke⟩ : ∃ h, (w.held.lookup sid).getD ⟨expiresAt, ∅, ∅⟩ = h ∧
        (∀ d, (d ∈ h.woken → d ∈ h.devices) ∧ (d ∈ h.devices → d ∉ w.bound)) ∧
        ∀ d, d ∈ h.woken ↔ w.Woke sid d := by
      refine ⟨_, rfl, ?_, ?_⟩
      · cases hl : w.held.lookup sid with
        | none => simp
        | some h => exact hg sid h hl
      · intro d
        unfold Woke
        cases hl : w.held.lookup sid with
        | none => simp
        | some h => simp
    rw [hh]
    obtain ⟨-, hdevices, hwoken, hout⟩ :=
      @holdFor_loop w time expiresAt sid h (sorted devices.toFinset) (nodup_sorted _)
    dsimp only
    generalize foldEmit (w.holdFor time sid expiresAt) h (sorted devices.toFinset) = r at hdevices hwoken hout ⊢
    have hlookup : ∀ j, (w.held.insert sid r.1).lookup j = if j = sid then some r.1 else w.held.lookup j :=
      fun j => Dict.lookup_insert_eq ..
    have hwakes : ∀ x, x ∈ wakesOf r.2 ↔ ∃ d, d ∈ sorted devices.toFinset ∧ d ∉ w.bound ∧ ¬ w.Woke sid d ∧
        w.takes d .call time = true ∧ x = .call d sid expiresAt := by
      intro x
      rw [hout, wakesOf_map, List.mem_map]
      refine exists_congr fun d => ?_
      simp only [List.mem_filter, decide_eq_true_eq, hwoke, and_assoc, @eq_comm _ x]
    have hcalls : ∀ j d, (∃ t, .call d j t ∈ wakesOf r.2) ↔
        j = sid ∧ d ∈ sorted devices.toFinset ∧ d ∉ w.bound ∧ ¬ w.Woke sid d ∧ w.takes d .call time = true := by
      intro j d
      constructor
      · intro hx
        obtain ⟨t, ht⟩ := hx
        obtain ⟨d', hd, hb, hno, htakes, heq⟩ := (hwakes _).mp ht
        cases heq
        exact ⟨rfl, hd, hb, hno, htakes⟩
      · intro hx
        obtain ⟨rfl, hd, hb, hno, htakes⟩ := hx
        exact ⟨expiresAt, (hwakes _).mpr ⟨d, hd, hb, hno, htakes, rfl⟩⟩
    constructor
    case guarded =>
      intro j h' hl d
      change (w.held.insert sid r.1).lookup j = some h' at hl
      rw [hlookup] at hl
      split at hl
      · obtain rfl := Option.some.inj hl
        rw [hdevices, hwoken]
        constructor
        · intro hw
          exact hw.imp (hguard d).1 fun hd => ⟨hd.1, hd.2.1⟩
        · intro hd
          exact hd.elim (hguard d).2 fun hd => hd.2
      · exact hg j h' hl d
    case woke_iff =>
      intro j d
      show (∃ h', (w.held.insert sid r.1).lookup j = some h' ∧ d ∈ h'.woken) ↔
        (∃ t, _ ∈ wakesOf r.2) ∨ w.Woke j d ∧ ¬ ((_ : Option Input) = _ ∨ j ∉ w.held.insert sid r.1)
      rw [hcalls, Dict.mem_iff_lookup, hlookup]
      by_cases hj : j = sid
      · subst hj
        rw [if_pos rfl]
        constructor
        · intro hw
          obtain ⟨h', heq, hd⟩ := hw
          obtain rfl := Option.some.inj heq
          rw [hwoken, hwoke] at hd
          by_cases hwas : w.Woke j d
          · exact Or.inr ⟨hwas, by simp⟩
          · exact Or.inl ⟨rfl, (hd.resolve_left hwas).1, (hd.resolve_left hwas).2.1, hwas, (hd.resolve_left hwas).2.2⟩
        · intro hw
          refine ⟨r.1, rfl, ?_⟩
          rw [hwoken, hwoke]
          rcases hw with hw | hw
          · exact Or.inr ⟨hw.2.1, hw.2.2.1, hw.2.2.2.2⟩
          · exact Or.inl hw.1
      · rw [if_neg hj]
        constructor
        · intro hw
          obtain ⟨h', hl, hd⟩ := hw
          exact Or.inr ⟨⟨h', hl, hd⟩, by simp [hl]⟩
        · intro hw
          rcases hw with hw | hw
          · exact absurd hw.1 hj
          · exact hw.1
    case taken =>
      intro x hx
      obtain ⟨d, _, hb, _, htakes, rfl⟩ := (hwakes x).mp hx
      exact ⟨htakes, hb⟩
    case once =>
      show ((wakesOf r.2).map WakeMsg.whom).Nodup
      rw [hout, wakesOf_map, List.map_map]
      refine List.Nodup.map ?_ ((nodup_sorted _).filter _)
      intro d d' heq
      exact congrArg Prod.fst heq
    case fresh =>
      intro j d hc
      obtain ⟨rfl, _, _, hno, _⟩ := (hcalls j d).mp hc
      exact ⟨AList.mem_insert _ |>.mpr (Or.inl rfl), hno⟩
    case ended_iff =>
      intro j d t
      constructor
      · intro hx
        obtain ⟨d', _, _, _, _, heq⟩ := (hwakes _).mp hx
        cases heq
      · intro hx
        obtain ⟨h', hl, hno, -⟩ := hx
        exact absurd (AList.mem_insert _ |>.mpr (Or.inr (Dict.mem_iff_lookup.mpr ⟨h', hl⟩))) hno
    case messaged =>
      intro d hc
      obtain ⟨t, ht⟩ := hc
      obtain ⟨d', _, _, _, _, heq⟩ := (hwakes _).mp ht
      cases heq
    case last => exact fun d _ _ => rfl

theorem fair_store (hg : w.Guarded) (identity : String) (i : Input) (hi : ∀ d, i ≠ .bind d) :
    Fair ⟨some i, time, w, (foldEmit (storeFor identity time) w w.regs.sortedKeys).2,
      (foldEmit (storeFor identity time) w w.regs.sortedKeys).1⟩ := by
  obtain ⟨hsame, ks, hks, hmem, hout, hlast⟩ := @storeFor_loop identity time _ (Dict.nodup_sortedKeys w.regs) w
  generalize foldEmit (storeFor identity time) w w.regs.sortedKeys = r at hsame hout hlast
  have hheld : r.1.held = w.held := by rw [hsame]
  have hwakes : ∀ x, x ∈ wakesOf r.2 ↔ ∃ d, d ∈ ks ∧ x = .message d (time + coalesce) := by
    intro x
    rw [hout, wakesOf_map, List.mem_map]
    simp only [@eq_comm _ x]
  have hcalls : ∀ sid d, ¬ ∃ t, .call d sid t ∈ wakesOf r.2 := by
    intro sid d hc
    obtain ⟨t, ht⟩ := hc
    obtain ⟨d', _, heq⟩ := (hwakes _).mp ht
    cases heq
  have hmessages : ∀ d, (∃ t, .message d t ∈ wakesOf r.2) ↔ d ∈ ks := by
    intro d
    constructor
    · intro hc
      obtain ⟨t, ht⟩ := hc
      obtain ⟨d', hd, heq⟩ := (hwakes _).mp ht
      cases heq
      exact hd
    · intro hd
      exact ⟨_, (hwakes _).mpr ⟨d, hd, rfl⟩⟩
  constructor
  case guarded =>
    intro sid h hl d
    change r.1.held.lookup sid = some h at hl
    rw [hheld] at hl
    show _ ∧ (_ → d ∉ r.1.bound)
    rw [hsame]
    exact hg sid h hl d
  case woke_iff =>
    intro sid d
    show (∃ h, r.1.held.lookup sid = some h ∧ _) ↔ _ ∨ _ ∧ ¬ (some i = some (.bind d) ∨ sid ∉ r.1.held)
    rw [hheld]
    constructor
    · intro hw
      obtain ⟨h, hl, hd⟩ := hw
      refine Or.inr ⟨⟨h, hl, hd⟩, ?_⟩
      intro hc
      rcases hc with hc | hc
      · exact hi d (Option.some.inj hc)
      · exact hc (Dict.mem_iff_lookup.mpr ⟨h, hl⟩)
    · intro hw
      exact (hw.resolve_left (hcalls sid d)).1
  case taken =>
    intro x hx
    obtain ⟨d, hd, rfl⟩ := (hwakes x).mp hx
    obtain ⟨_, _, hb, ht, _⟩ := (hmem d).mp hd
    exact ⟨ht, hb⟩
  case once =>
    show ((wakesOf r.2).map WakeMsg.whom).Nodup
    rw [hout, wakesOf_map, List.map_map]
    refine List.Nodup.map ?_ hks
    intro d d' heq
    exact congrArg Prod.fst heq
  case fresh => exact fun sid d hc => absurd hc (hcalls sid d)
  case ended_iff =>
    intro sid d t
    constructor
    · intro hx
      obtain ⟨d', _, heq⟩ := (hwakes _).mp hx
      cases heq
    · intro hx
      obtain ⟨h, hl, hno, -⟩ := hx
      change sid ∉ r.1.held at hno
      rw [hheld] at hno
      exact absurd (Dict.mem_iff_lookup.mpr ⟨h, hl⟩) hno
  case messaged =>
    intro d hc
    have hd := (hmessages d).mp hc
    refine ⟨(hlast d).trans (if_pos hd), ?_⟩
    exact ((hmem d).mp hd).2.2.2.2
  case last =>
    intro d hno _
    exact (hlast d).trans (if_neg fun hd => hno ((hmessages d).mpr hd))

theorem fair_finish (hg : w.Guarded) (d : String) (cause : Cause) (i : Input) (hi : ∀ d, i ≠ .bind d) :
    Fair ⟨some i, time, w, (w.finish d cause).2, (w.finish d cause).1⟩ := by
  obtain ⟨hsame, hout⟩ := finish_spec w d cause
  generalize w.finish d cause = r at hsame hout ⊢
  apply fair_quiet hg hout
  case hin => exact fun d' hb => hi d' (Option.some.inj hb)
  case hheld =>
    show r.1.held = w.held
    rw [hsame]
  case hlast =>
    show r.1.lastMessage = w.lastMessage
    rw [hsame]
  case hbound =>
    show r.1.bound ⊆ w.bound
    rw [hsame]

theorem fair_idle (hg : w.Guarded) {w' : Waker} (i : Input) (hi : ∀ d, i ≠ .bind d) (hheld : w'.held = w.held)
    (hlast : w'.lastMessage = w.lastMessage) (hbound : w'.bound ⊆ w.bound) : Fair ⟨some i, time, w, [], w'⟩ :=
  fair_quiet hg (fun _ => List.not_mem_nil) (fun d h => hi d (Option.some.inj h)) hheld hlast hbound

theorem fair_of_eq {i : Option Input} {w' : Waker} {r : Waker × List Output}
    (hf : Fair ⟨i, time, w, r.2, r.1⟩) (h : some r = some (w', out)) : Fair ⟨i, time, w, out, w'⟩ := by
  rw [Option.some.inj h] at hf
  exact hf

theorem fair_apply (hg : w.Guarded) {i : Input} {w' : Waker}
    (h : w.apply time i = some (w', out)) : Fair ⟨some i, time, w, out, w'⟩ := by
  cases i with
  | register d r =>
    cases h
    exact fair_idle hg _ (fun d h => by cases h) rfl rfl (Finset.Subset.refl _)
  | remove d => exact fair_of_eq (fair_finish hg d .removed _ fun d h => by cases h) h
  | revoke d => exact fair_of_eq (fair_finish hg d .revoked _ fun d h => by cases h) h
  | forget d => exact fair_of_eq (fair_finish hg d .forgotten _ fun d h => by cases h) h
  | bind d =>
    cases h
    exact fair_bind hg d
  | unbind d =>
    cases h
    exact fair_idle hg _ (fun d h => by cases h) rfl rfl (Finset.erase_subset d w.bound)
  | hold sid expiresAt devices =>
    simp only [apply, Option.ite_none_right_eq_some] at h
    exact fair_of_eq (fair_hold hg sid expiresAt devices) h.2
  | drop sid =>
    simp only [apply, Option.ite_none_right_eq_some] at h
    obtain ⟨-, h⟩ := h
    cases hl : w.held.lookup sid with
    | none =>
      rw [hl] at h
      cases h
      exact fair_idle hg _ (fun d h => by cases h) rfl rfl (Finset.Subset.refl _)
    | some x =>
      rw [hl] at h
      cases h
      exact fair_drop hg hl _ fun d h => by cases h
  | store identity cls =>
    simp only [apply, Option.ite_none_right_eq_some] at h
    obtain ⟨-, h⟩ := h
    split at h
    · exact fair_of_eq (fair_store hg identity _ fun d h => by cases h) h
    · cases h
      exact fair_idle hg _ (fun d h => by cases h) rfl rfl (Finset.Subset.refl _)
  | answer d reason =>
    simp only [apply] at h
    split at h
    · exact fair_of_eq (fair_finish hg d .gateway _ fun d h => by cases h) h
    · cases h
      exact fair_idle hg _ (fun d h => by cases h) rfl rfl (Finset.Subset.refl _)
  | tick =>
    cases h
    exact fair_idle hg _ (fun d h => by cases h) rfl rfl (Finset.Subset.refl _)

end Waker

/-! ## Runs -/

/-- What the moments so far left in the state. -/
structure Kept (ms : List Moment) (w : Waker) : Prop where
  guarded : w.Guarded
  woke_iff : ∀ sid d, w.Woke sid d ↔ Woken sid d ms
  last : ∀ d t, Messaged d t ms → ∃ last, w.lastMessage.lookup d = some last ∧ t ≤ last

/-- What a moment sends, after the moments `pre`. -/
structure Discreet (pre : List Moment) (m : Moment) : Prop where
  taken : ∀ x ∈ m.wakes, (∃ r, m.before.regs.lookup x.device = some r ∧ m.about x < r.expiresAt ∧
    ∀ kinds, r.kinds = some kinds → x.kind.text ∈ kinds) ∧ x.device ∉ m.before.bound
  once : (m.wakes.map WakeMsg.whom).Nodup
  call : ∀ sid d, m.Calls sid d → sid ∈ m.after.held ∧ ¬ Woken sid d pre
  callEnded : ∀ sid d t, .callEnded d sid t ∈ m.wakes ↔
    ∃ h, m.before.held.lookup sid = some h ∧ sid ∉ m.after.held ∧ Woken sid d pre ∧
      t = m.stopped h + callEndedS ∧ m.before.takes d .callEnded (m.stopped h) = true
  message : ∀ d t, m.Messages d → Messaged d t pre → t + coalesce ≤ m.time

section Runs

variable {pre : List Moment} {m : Moment}

theorem kept_init (component : Component) : Kept [] (Waker.init component) where
  guarded := Waker.guarded_init component
  woke_iff := by
    intro sid d
    constructor
    · intro h
      obtain ⟨h, hl, -⟩ := h
      cases hl
    · intro h
      exact absurd h not_since_nil
  last := by
    intro d t h
    exact absurd h not_since_nil

theorem Kept.step (hk : Kept pre m.before) (hf : Fair m) : Kept (pre ++ [m]) m.after where
  guarded := hf.guarded
  woke_iff := by
    intro sid d
    unfold Woken
    rw [hf.woke_iff, hk.woke_iff, since_append]
    rfl
  last := by
    intro d t h
    unfold Messaged at h
    rw [since_append] at h
    by_cases hm : m.Messages d
    · obtain ⟨hlast, hgap⟩ := hf.messaged d hm
      refine ⟨m.time, hlast, ?_⟩
      rcases h with h | h
      · exact h.2.symm.le
      · obtain ⟨last, hl, hle⟩ := hk.last d t h.1
        have hgap' := hgap last hl
        unfold coalesce at hgap'
        omega
    · obtain ⟨hsince, hbind⟩ := h.resolve_left fun h => hm h.1
      rw [hf.last d hm hbind]
      exact hk.last d t hsince

theorem Kept.discreet (hk : Kept pre m.before) (hf : Fair m) : Discreet pre m where
  taken := by
    intro x hx
    obtain ⟨htakes, hbound⟩ := hf.taken x hx
    exact ⟨Waker.takes_iff.mp htakes, hbound⟩
  once := hf.once
  call := by
    intro sid d hc
    obtain ⟨hheld, hno⟩ := hf.fresh sid d hc
    rw [hk.woke_iff] at hno
    exact ⟨hheld, hno⟩
  callEnded := by
    intro sid d t
    rw [hf.ended_iff]
    refine exists_congr fun h => and_congr_right fun hl => and_congr_right fun _ => ?_
    rw [← hk.woke_iff]
    refine and_congr_left fun _ => ?_
    constructor
    · intro hd
      exact ⟨h, hl, hd⟩
    · intro hd
      obtain ⟨h', hl', hd⟩ := hd
      rw [hl] at hl'
      rwa [Option.some.inj hl']
  message := by
    intro d t hm hsince
    obtain ⟨last, hl, hle⟩ := hk.last d t hsince
    have hgap := (hf.messaged d hm).2 last hl
    omega

end Runs

namespace Waker

theorem moments_cons {w : Waker} {e : Event} {es : List Event} {ms : List Moment}
    (h : w.moments (e :: es) = some ms) :
    ∃ w' out ms', (w.settle e.time).1.apply e.time e.input = some (w', out) ∧ w'.moments es = some ms' ∧
      ms = ⟨none, e.time, w, (w.settle e.time).2, (w.settle e.time).1⟩ ::
        ⟨some e.input, e.time, (w.settle e.time).1, out, w'⟩ :: ms' := by
  rw [moments] at h
  obtain ⟨⟨w', out⟩, happly, h⟩ := Option.bind_eq_some_iff.mp h
  obtain ⟨ms', hms, h⟩ := Option.bind_eq_some_iff.mp h
  exact ⟨w', out, ms', happly, hms, (Option.some.inj h).symm⟩

theorem moments_run {w w' : Waker} {es : List Event} (h : w.run es = some (w', out)) :
    ∃ ms, w.moments es = some ms ∧ out = ms.flatMap Moment.out := by
  induction es generalizing w out with
  | nil =>
    cases h
    exact ⟨[], rfl, rfl⟩
  | cons e es ih =>
    rw [run] at h
    obtain ⟨⟨w₁, out₁⟩, hstep, h⟩ := Option.bind_eq_some_iff.mp h
    obtain ⟨⟨w₂, out₂⟩, hrun, h⟩ := Option.bind_eq_some_iff.mp h
    unfold step at hstep
    obtain ⟨⟨w₃, out₃⟩, happly, hstep⟩ := Option.bind_eq_some_iff.mp hstep
    cases hstep
    cases h
    obtain ⟨ms, hms, rfl⟩ := ih hrun
    refine ⟨⟨none, e.time, w, (w.settle e.time).2, (w.settle e.time).1⟩ ::
      ⟨some e.input, e.time, (w.settle e.time).1, out₃, w₁⟩ :: ms, ?_, ?_⟩
    · rw [moments]
      exact Option.bind_eq_some_iff.mpr ⟨(w₁, out₃), happly, Option.bind_eq_some_iff.mpr ⟨ms, hms, rfl⟩⟩
    · simp

theorem discreet_moments {w : Waker} {es : List Event} {before ms : List Moment} (hk : Kept before w)
    (h : w.moments es = some ms) : ∀ pre m post, ms = pre ++ m :: post → Discreet (before ++ pre) m := by
  induction es generalizing w before ms with
  | nil =>
    cases h
    intro pre m post hsplit
    exact absurd hsplit.symm (List.append_ne_nil_of_right_ne_nil pre (List.cons_ne_nil m post))
  | cons e es ih =>
    obtain ⟨w', out, ms', happly, hms, rfl⟩ := moments_cons h
    have hsettle := fair_settle hk.guarded e.time
    have hkept := hk.step (m := ⟨none, e.time, w, (w.settle e.time).2, (w.settle e.time).1⟩) hsettle
    have happlied := fair_apply hkept.guarded happly
    have hkept' := hkept.step (m := ⟨some e.input, e.time, (w.settle e.time).1, out, w'⟩) happlied
    intro pre m post hsplit
    match pre with
    | [] =>
      obtain ⟨rfl, -⟩ := List.cons.inj hsplit
      rw [List.append_nil]
      exact hk.discreet hsettle
    | [a] =>
      obtain ⟨ha, hsplit⟩ := List.cons.inj hsplit
      obtain ⟨rfl, -⟩ := List.cons.inj hsplit
      rw [← ha]
      exact hkept.discreet happlied
    | a :: b :: pre =>
      obtain ⟨ha, hsplit⟩ := List.cons.inj hsplit
      obtain ⟨hb, hsplit⟩ := List.cons.inj hsplit
      rw [← ha, ← hb]
      have hrest := ih hkept' hms pre m post hsplit
      simpa using hrest

/-- Whatever the times of the events: a device is woken for what it takes, not while it is bound, once for
an invite between its bindings, again when that invite is no longer held, and for messages a minute apart. -/
theorem wakes_discreet (component : Component) (es : List Event) {w : Waker} {out : List Output}
    (h : (init component).run es = some (w, out)) :
    ∃ ms, (init component).moments es = some ms ∧ out = ms.flatMap Moment.out ∧
      ∀ pre m post, ms = pre ++ m :: post → Discreet pre m := by
  obtain ⟨ms, hms, hout⟩ := moments_run h
  exact ⟨ms, hms, hout, discreet_moments (kept_init component) hms⟩

/-- A device binds and unbinds while an invite is held, and the invite is held for it again. -/
def again : List Event :=
  [⟨0, .register "d" ⟨"i", 1000, none⟩⟩, ⟨1, .hold "s" 100 ["d"]⟩, ⟨2, .bind "d"⟩, ⟨3, .unbind "d"⟩,
    ⟨4, .hold "s" 100 ["d"]⟩]

/-- The run in which the device is woken twice. -/
theorem wakes_discreet_again : ∃ ms, (init .relay).moments again = some ms ∧
      [.wake (.call "d" "s" 100), .wake (.call "d" "s" 100)] = ms.flatMap Moment.out ∧
      ∀ pre m post, ms = pre ++ m :: post → Discreet pre m :=
  wakes_discreet .relay again (w := _) rfl

/-- A held session's `call` wake goes to a device twice, when it bound in between. -/
theorem call_wake_again :
    ¬ ∀ component es ms, (init component).moments es = some ms → ∀ pre m post, ms = pre ++ m :: post →
      ∀ sid d, m.Calls sid d → ¬ Since (Moment.Calls · sid d) (fun m => sid ∉ m.after.held) pre := by
  intro h
  let ms : List Moment := ((init .relay).moments again).get rfl
  refine h .relay again ms rfl (ms.take 9) ms[9] [] rfl "s" "d" ⟨100, by decide⟩ ?_
  exact ⟨ms.take 3, ms[3], (ms.drop 4).take 5, rfl, ⟨100, by decide⟩, by decide⟩

end Waker

end Dsip.Wake
