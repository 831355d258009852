import Mathlib.Tactic
import Dsip.Lib.TSys

/-!
# A device's outbox while its hub cannot be reached

`HubOutage` holds what a device deposits for one group. A deposit is forwarded
at once while the hub is up and queued while it is down; the head is forwarded
again when the backoff timer `retryAt` runs out, and an `accepted` flushes the
rest.

`inFlight` reads off a trace which forwards still wait for their answer. An
outbox is *stranded* when it is down with items pending, no timer set and none
of the pending items in flight: nothing but `hub_timeout` will move them. The
timer is taken down by the retry it fires and put back only by an outage
answer, so a refusal of the retried item strands what waits behind it. `Fed` is
the exact condition on the steps under which no run strands anything
(`not_stranded_iff_fed`).
-/

namespace Dsip.Messaging

open Dsip.Lib

/-- M§9.4 RECOMMENDED: a hub unreachable this long triggers a successor group. -/
def hubTimeoutS : Nat := 86400

/-- §13.2 backoff: initial 1 s, factor 2, max 60 s. -/
def retryInitialS : Nat := 1
def retryMaxS : Nat := 60

/-- `state` and `down_since` of the source as one value: `down_since` is set
exactly outside `up`. -/
inductive OutageState where
  | up
  | down (since : Nat)
  | abandoned (since : Nat)
  deriving DecidableEq, Repr

structure HubOutage where
  now : Nat
  hubTimeout : Nat
  pending : List String
  attempt : Nat
  retryAt : Option Nat
  state : OutageState
  handoverAttempt : Nat
  handoverAt : Option Nat
  deriving DecidableEq, Repr

namespace HubOutage

/-- A host restoring its outbox passes `pending` and `downSince`. -/
structure Context where
  now : Nat
  hubTimeout : Nat := hubTimeoutS
  pending : List String := []
  downSince : Option Nat := none

inductive Event where
  | deposit (id : String)
  | answer (id : String) (reason : Option String)
  | noAnswer (id : String)
  | handoverFailed
  | advance (n : Nat)
  deriving DecidableEq, Repr

inductive Emit where
  | refuse (reason : String)
  | forward (id : String)
  | queued (id : String)
  | retryIn (delay : Nat)
  | sent (id : String)
  | refused (id reason : String)
  | handoverRetryIn (delay : Nat)
  | handoverRetry
  | successor (pending : List String)
  deriving DecidableEq, Repr

/-- `__init__`: with `down_since` the first retry is due at once. -/
def init (ctx : Context) : HubOutage where
  now := ctx.now
  hubTimeout := ctx.hubTimeout
  pending := ctx.pending
  attempt := 0
  retryAt := ctx.downSince.map fun _ => ctx.now
  state := match ctx.downSince with
    | none => .up
    | some since => .down since
  handoverAttempt := 0
  handoverAt := none

/-- `min(RETRY_INITIAL_S * 2 ** (attempt - 1), RETRY_MAX_S)`. -/
def backoff (attempt : Nat) : Nat := min (retryInitialS * 2 ^ (attempt - 1)) retryMaxS

def deposit (h : HubOutage) (id : String) : HubOutage × List Emit :=
  match h.state with
  | .abandoned _ => (h, [.refuse "group-abandoned"])
  | .up => ({ h with pending := h.pending ++ [id] }, [.forward id])
  | .down _ => ({ h with pending := h.pending ++ [id] }, [.queued id])

/-- The hub is down from the first unreachable answer on. -/
def markDown (h : HubOutage) : OutageState :=
  match h.state with
  | .up => .down h.now
  | s => s

def unreachable (h : HubOutage) (id : String) : HubOutage × List Emit :=
  if id ∉ h.pending then (h, [])
  else
    let delay := backoff (h.attempt + 1)
    ({ h with state := h.markDown, attempt := h.attempt + 1, retryAt := some (h.now + delay) },
      [.retryIn delay])

/-- spec-gap 99: a hub that cannot store counts as unreachable. -/
def isOutage (reason : String) : Bool :=
  reason == "mailbox.hub-unreachable" || reason == "mailbox.quota-exceeded"

/-- `_answer` past the outage reasons: the item leaves the outbox. -/
def settle (h : HubOutage) (id : String) (reason : Option String) : HubOutage × List Emit :=
  if id ∉ h.pending then (h, [])
  else
    let h := { h with pending := h.pending.erase id }
    match reason with
    | some r => (h, [.refused id r])
    | none =>
      match h.state with
      | .down _ =>
        ({ h with state := .up, attempt := 0, retryAt := none }, .sent id :: h.pending.map .forward)
      | _ => (h, [.sent id])

def answer (h : HubOutage) (id : String) (reason : Option String) : HubOutage × List Emit :=
  if reason.any isOutage then h.unreachable id else h.settle id reason

def handoverFailed (h : HubOutage) : HubOutage × List Emit :=
  match h.state with
  | .abandoned _ =>
    let delay := backoff (h.handoverAttempt + 1)
    ({ h with handoverAttempt := h.handoverAttempt + 1, handoverAt := some (h.now + delay) },
      [.handoverRetryIn delay])
  | _ => (h, [])

/-- A timer that is set and has been reached. -/
def due (timer : Option Nat) (now : Nat) : Bool := timer.any (· ≤ now)

/-- The `down` part of `_advance`: hand over at `hub_timeout`, else retry the
head when its timer is due. -/
def advanceDown (h : HubOutage) (since : Nat) : HubOutage × List Emit :=
  if since + h.hubTimeout ≤ h.now then
    ({ h with pending := [], state := .abandoned since, retryAt := none }, [.successor h.pending])
  else
    match h.pending with
    | [] => (h, [])
    | head :: _ =>
      if due h.retryAt h.now then ({ h with retryAt := none }, [.forward head]) else (h, [])

def advance (h : HubOutage) (n : Nat) : HubOutage × List Emit :=
  let h := { h with now := h.now + n }
  match h.state with
  | .abandoned _ =>
    if due h.handoverAt h.now then ({ h with handoverAt := none }, [.handoverRetry]) else (h, [])
  | .up => (h, [])
  | .down since => h.advanceDown since

def step (h : HubOutage) : Event → HubOutage × List Emit
  | .deposit id => h.deposit id
  | .answer id reason => h.answer id reason
  | .noAnswer id => h.unreachable id
  | .handoverFailed => h.handoverFailed
  | .advance n => h.advance n

/-- The outbox started from a context. -/
def machine (ctx : Context) : TSys HubOutage Event (List Emit) := TSys.ofTotal (· = init ctx) step

/-! ## What is in flight -/

def forwards (out : List Emit) : List String :=
  out.filterMap fun
    | .forward id => some id
    | _ => none

/-- The forwards left open once `ev` is read: an answer, or no answer, closes
one forward of its item. -/
def closed (open' : List String) : Event → List String
  | .answer id _ => open'.erase id
  | .noAnswer id => open'.erase id
  | _ => open'

/-- The forwards whose answer has not been received, after one more step. -/
def flightAfter (open' : List String) (st : Event × List Emit) : List String :=
  closed open' st.1 ++ forwards st.2

/-- The forwards of a whole trace whose answer has not been received. -/
def inFlight (tr : TSys.Trace Event (List Emit)) : List String := tr.foldl flightAfter []

theorem inFlight_snoc (tr : TSys.Trace Event (List Emit)) (ev : Event) (out : List Emit) :
    inFlight (tr ++ [(ev, out)]) = closed (inFlight tr) ev ++ forwards out := by
  simp [inFlight, List.foldl_append, flightAfter]

/-! ## Stranding -/

/-- Down, with no retry scheduled. -/
def Idle (h : HubOutage) : Prop := (∃ since, h.state = .down since) ∧ h.retryAt = none

/-- Idle with items pending, none of them in flight. -/
def Stranded (h : HubOutage) (open' : List String) : Prop :=
  h.Idle ∧ h.pending ≠ [] ∧ ∀ p ∈ h.pending, p ∉ open'

/-- What a step must not do. A deposit into an idle outbox must find an item of
it in flight; a refusal that takes an item out of an idle outbox must leave
nothing behind, or leave something in flight. -/
def Fed (tr : TSys.Trace Event (List Emit)) (h : HubOutage) : Event → Prop
  | .deposit id => h.Idle → ∃ p ∈ h.pending ++ [id], p ∈ inFlight tr
  | .answer id (some reason) =>
    ¬ isOutage reason → id ∈ h.pending → h.Idle → h.pending.erase id ≠ [] →
      ∃ p ∈ h.pending.erase id, p ∈ (inFlight tr).erase id
  | _ => True

theorem not_idle_of_up {h : HubOutage} (hs : h.state = .up) : ¬ h.Idle := by
  rintro ⟨⟨since, hd⟩, -⟩
  rw [hs] at hd
  cases hd

theorem not_idle_of_abandoned {h : HubOutage} {since : Nat} (hs : h.state = .abandoned since) : ¬ h.Idle := by
  rintro ⟨⟨since', hd⟩, -⟩
  rw [hs] at hd
  cases hd

theorem not_idle_of_timer {h : HubOutage} {t : Nat} (ht : h.retryAt = some t) : ¬ h.Idle := by
  rintro ⟨-, hn⟩
  rw [ht] at hn
  cases hn

theorem not_stranded_erase {h : HubOutage} {open' : List String} {id : String}
    (hid : id ∉ h.pending) (hn : ¬ h.Stranded open') : ¬ h.Stranded (open'.erase id) := by
  rintro ⟨hi, hne, hall⟩
  refine hn ⟨hi, hne, fun p hp hmem => hall p hp ?_⟩
  have hne' : p ≠ id := fun he => hid (he ▸ hp)
  exact (List.mem_erase_of_ne hne').mpr hmem

/-! ### One step, event by event

Each lemma says when the event strands an outbox that was not stranded. -/

section Steps

variable {h : HubOutage} {open' : List String}

theorem stranded_deposit_iff (id : String) : (h.deposit id).1.Stranded (open' ++ forwards (h.deposit id).2) ↔
      h.Idle ∧ ∀ p ∈ h.pending ++ [id], p ∉ open' := by
  cases hs : h.state with
  | up =>
    have hi : ¬ h.Idle := not_idle_of_up hs
    simp [deposit, hs, Stranded, Idle]
  | abandoned since =>
    have hi : ¬ h.Idle := not_idle_of_abandoned hs
    simp [deposit, hs, Stranded, hi]
  | down since => simp [deposit, hs, Stranded, Idle, forwards]

theorem not_stranded_unreachable (id : String) (hn : ¬ h.Stranded open') :
    ¬ (h.unreachable id).1.Stranded (open'.erase id ++ forwards (h.unreachable id).2) := by
  unfold unreachable
  split
  case isTrue hid => simpa [forwards] using not_stranded_erase hid hn
  case isFalse => exact fun hst => not_idle_of_timer rfl hst.1

theorem stranded_refused_iff (id reason : String) (hn : ¬ h.Stranded open') :
    (h.settle id (some reason)).1.Stranded
        (open'.erase id ++ forwards (h.settle id (some reason)).2) ↔
      id ∈ h.pending ∧ h.Idle ∧ h.pending.erase id ≠ [] ∧ ∀ p ∈ h.pending.erase id, p ∉ open'.erase id := by
  unfold settle
  split
  case isTrue hid =>
    have hne := not_stranded_erase hid hn
    simp [forwards, hid, hne]
  case isFalse hid =>
    have hid : id ∈ h.pending := Decidable.not_not.mp hid
    simp [forwards, Stranded, Idle, hid]

theorem not_stranded_accepted (id : String) (hn : ¬ h.Stranded open') :
    ¬ (h.settle id none).1.Stranded (open'.erase id ++ forwards (h.settle id none).2) := by
  unfold settle
  split
  case isTrue hid => simpa [forwards] using not_stranded_erase hid hn
  case isFalse hid =>
    cases hs : h.state with
    | down since => exact fun hst => not_idle_of_up rfl hst.1
    | up => exact fun hst => not_idle_of_up rfl hst.1
    | abandoned since => exact fun hst => not_idle_of_abandoned rfl hst.1

theorem not_stranded_handoverFailed (hn : ¬ h.Stranded open') :
    ¬ h.handoverFailed.1.Stranded (open' ++ forwards h.handoverFailed.2) := by
  unfold handoverFailed
  cases hs : h.state with
  | abandoned since => exact fun hst => not_idle_of_abandoned rfl hst.1
  | up => simpa [forwards, ← hs] using hn
  | down since => simpa [forwards, ← hs] using hn

theorem not_stranded_advanceDown (since : Nat) (hn : ¬ h.Stranded open') :
    ¬ (h.advanceDown since).1.Stranded (open' ++ forwards (h.advanceDown since).2) := by
  unfold advanceDown
  split
  case isTrue => exact fun hst => not_idle_of_abandoned rfl hst.1
  case isFalse =>
    cases hp : h.pending with
    | nil => exact fun hst => hst.2.1 hp
    | cons head rest =>
      dsimp only
      split
      case isTrue =>
        intro hst
        have hout := hst.2.2 head (by simp)
        simp [forwards] at hout
      case isFalse => simpa [forwards] using hn

theorem not_stranded_advance (n : Nat) (hn : ¬ h.Stranded open') :
    ¬ (h.advance n).1.Stranded (open' ++ forwards (h.advance n).2) := by
  have hn' : ¬ Stranded { h with now := h.now + n } open' := hn
  unfold advance
  cases hs : h.state with
  | up => exact fun hst => not_idle_of_up rfl hst.1
  | down since => simpa [hs] using not_stranded_advanceDown since hn'
  | abandoned since =>
    dsimp only
    split <;> exact fun hst => not_idle_of_abandoned rfl hst.1

end Steps

theorem stranded_step_iff {tr : TSys.Trace Event (List Emit)} {h : HubOutage} (ev : Event)
    (hn : ¬ h.Stranded (inFlight tr)) :
    (h.step ev).1.Stranded (inFlight (tr ++ [(ev, (h.step ev).2)])) ↔ ¬ Fed tr h ev := by
  rw [inFlight_snoc]
  cases ev with
  | deposit id => simp only [step, closed, stranded_deposit_iff, Fed]; push Not; rfl
  | noAnswer id => simpa [step, closed, Fed] using not_stranded_unreachable id hn
  | handoverFailed => simpa [step, closed, Fed] using not_stranded_handoverFailed hn
  | advance n => simpa [step, closed, Fed] using not_stranded_advance n hn
  | answer id reason =>
    cases reason with
    | none => simpa [step, closed, Fed, answer] using not_stranded_accepted id hn
    | some r =>
      cases hr : isOutage r with
      | true =>
        simpa [step, closed, Fed, answer, hr] using not_stranded_unreachable id hn
      | false =>
        simp only [step, closed, Fed, answer, Option.any_some, hr, Bool.false_eq_true,
          if_false, stranded_refused_iff id r hn, not_false_eq_true, true_implies]
        push Not
        rfl

theorem not_stranded_init (ctx : Context) : ¬ (init ctx).Stranded [] := by
  cases hd : ctx.downSince with
  | none => exact fun hst => not_idle_of_up (by simp [init, hd]) hst.1
  | some since => exact fun hst => not_idle_of_timer (t := ctx.now) (by simp [init, hd]) hst.1

/-- A run strands nothing, before any of its steps or at its end, exactly when
every step of it is `Fed`. -/
theorem not_stranded_iff_fed (ctx : Context) (tr : TSys.Trace Event (List Emit)) (h : HubOutage) :
    (machine ctx).RunWhere (fun tr h _ => ¬ h.Stranded (inFlight tr)) (init ctx) tr h ∧
        ¬ h.Stranded (inFlight tr) ↔
      (machine ctx).RunWhere Fed (init ctx) tr h := by
  constructor
  · rintro ⟨hr, hend⟩
    induction hr with
    | nil => exact .nil
    | @snoc tr s i o s' hr hn hs ih =>
      have hs' : s.step i = (s', o) := hs
      have hiff := stranded_step_iff i hn
      rw [hs'] at hiff
      exact .snoc (ih hn) (not_not.mp fun hf => hend (hiff.mpr hf)) hs
  · intro hr
    induction hr with
    | nil => exact ⟨.nil, not_stranded_init ctx⟩
    | @snoc tr s i o s' hr hf hs ih =>
      have hs' : s.step i = (s', o) := hs
      have hiff := stranded_step_iff i ih.2
      rw [hs'] at hiff
      exact ⟨.snoc ih.1 ih.2 hs, fun hst => hiff.mp hst hf⟩

/-- The retried head is refused while a second item waits behind it: the timer
is down, nothing is in flight, and `b` waits for `hub_timeout`. -/
theorem refused_retry_strands : ∃ tr h, (machine { now := 0 }).Run (init { now := 0 }) tr h ∧
      h.pending = ["b"] ∧ h.Stranded (inFlight tr) :=
  ⟨_, _, TSys.exec_run step _ (init { now := 0 })
      [.deposit "a", .noAnswer "a", .deposit "b", .advance 1, .answer "a" (some "policy.blocked")],
    by decide, ⟨⟨0, by decide⟩, by decide⟩, by decide, by decide⟩

end HubOutage

end Dsip.Messaging
