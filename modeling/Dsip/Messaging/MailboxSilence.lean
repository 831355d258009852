import Dsip.Lib.TwoRuns
import Dsip.Messaging.MailboxTs

/-!
# What first contact tells a stranger

A stranger deposits introductions and grants and sees only the answers to them.
The rate limits do not depend on whom the mailbox serves, nor does what a
dropped deposit is answered with; but the answer to a deposit that is kept has
its cursor. So two mailboxes that differ in whom they serve and in what they
hold answer alike exactly as long as they keep the same deposits
(`Intake.Blind.unwinds`, for both implementations).
-/

namespace Dsip.Messaging

open Dsip.Lib Dsip.Lib.TwoRuns

namespace Mailbox

inductive Knock where
  | contact (e : FirstContact)
  | advance (n : Nat)
  deriving DecidableEq, Repr

def Knock.event : Knock → Event
  | .contact e => .firstContact e
  | .advance n => .advance n

/-- An answer to a depositor. A push goes to a device. -/
def Emit.isAnswer : Emit → Bool
  | .accepted .. => true
  | .error .. => true
  | _ => false

def answersOf (out : List Emit) : List Emit := out.filter Emit.isAnswer

theorem answersOf_push (c : String) (l : List String) : answersOf (l.map (.push · c)) = [] := by
  refine List.filter_eq_nil_iff.mpr ?_
  intro e he
  obtain ⟨device, -, rfl⟩ := List.mem_map.mp he
  exact Bool.false_ne_true

/-- What a kept deposit and a dropped one are answered with. -/
def answer (e : FirstContact) (kept : Bool) (n : Nat) : List Emit :=
  [.accepted e.sender e.id (if kept then some (cursor n) else none) false]

theorem answer_eq_iff (e : FirstContact) (kept kept' : Bool) (n : Nat) :
    answer e kept n = answer e kept' n ↔ kept = kept' := by
  cases kept <;> cases kept' <;> simp [answer]

/-- The classes that first contact leaves. -/
def held (cls : HeldClass) : Bool := cls = .introduction || cls = .grant

end Mailbox

open Mailbox (Knock FirstContact Fault Emit answersOf answer)

/-! ## Any mailbox -/

/-- First contact at a mailbox in two parts: the rate limits are asked (`pay`
gives `retry_after` where they refuse), then the deposit is held. -/
structure Intake (M : Type) where
  pay : M → FirstContact → Except Fault (M × Option Nat)
  keeps : M → FirstContact → Bool
  hold : M → FirstContact → M × List Emit
  counter : M → Nat
  advance : M → Nat → M

namespace Intake

variable {M : Type} (I : Intake M)

def firstContact (m : M) (e : FirstContact) : Except Fault (M × List Emit) :=
  match I.pay m e with
  | .error fault => .error fault
  | .ok (m, some retryAfter) =>
    .ok (m, [.error e.sender e.id "policy.rate-limited" (some retryAfter)])
  | .ok (m, none) => .ok (I.hold m e)

def step (m : M) : Knock → Except Fault (M × List Emit)
  | .contact e => I.firstContact m e
  | .advance n => .ok (I.advance m n, [])

/-- The rate limits let the deposit through. -/
def isPaid (m : M) (e : FirstContact) : Bool :=
  match I.pay m e with
  | .ok (_, none) => true
  | _ => false

/-- A deposit that the rate limits let through is kept by both or by neither. -/
def KeepAlike (m₁ m₂ : M) : Knock → Prop
  | .contact e => I.isPaid m₁ e → I.keeps m₁ e = I.keeps m₂ e
  | .advance _ => True

instance (m₁ m₂ : M) : ∀ k, Decidable (I.KeepAlike m₁ m₂ k)
  | .contact _ => inferInstanceAs (Decidable (_ → _))
  | .advance _ => isTrue trivial

/-- The two payments of related mailboxes: both fail, or they give the same
`retry_after`; nothing changes of what is kept. -/
def PaysAlike (R : M → M → Prop) (e : FirstContact) (m₁ m₂ : M) : Prop :=
  match I.pay m₁ e, I.pay m₂ e with
  | .ok (m₁', retry), .ok (m₂', retry') =>
    R m₁' m₂' ∧ retry = retry' ∧ I.keeps m₁' e = I.keeps m₁ e ∧ I.keeps m₂' e = I.keeps m₂ e
  | .error _, .error _ => True
  | _, _ => False

/-- A relation of mailboxes that differ only where the rate limits do not
look. -/
structure Blind (R : M → M → Prop) : Prop where
  pay : ∀ {m₁ m₂}, R m₁ m₂ → ∀ e, I.PaysAlike R e m₁ m₂
  counter : ∀ {m₁ m₂}, R m₁ m₂ → I.counter m₁ = I.counter m₂
  answers : ∀ m e, answersOf (I.hold m e).2 = answer e (I.keeps m e) (I.counter m + 1)
  hold : ∀ {m₁ m₂}, R m₁ m₂ → ∀ e, I.keeps m₁ e = I.keeps m₂ e → R (I.hold m₁ e).1 (I.hold m₂ e).1
  advance : ∀ {m₁ m₂}, R m₁ m₂ → ∀ n, R (I.advance m₁ n) (I.advance m₂ n)

variable {I}

theorem Blind.unwinds {R : M → M → Prop} (h : I.Blind R) : Unwinds I.step answersOf I.KeepAlike R := by
  intro m₁ m₂ k hR
  cases k with
  | advance n => exact ⟨⟨fun _ => trivial, fun _ => rfl⟩, fun _ => h.advance hR n⟩
  | contact e =>
    have hpay := h.pay hR e
    unfold PaysAlike at hpay
    unfold step firstContact KeepAlike isPaid
    dsimp only
    cases h₁ : I.pay m₁ e with
    | error fault =>
      cases h₂ : I.pay m₂ e with
      | error fault' => exact fun hpaid => absurd hpaid Bool.false_ne_true
      | ok r =>
        rw [h₁, h₂] at hpay
        exact hpay.elim
    | ok r =>
      cases h₂ : I.pay m₂ e with
      | error fault =>
        rw [h₁, h₂] at hpay
        exact hpay.elim
      | ok r' =>
        obtain ⟨m₁', retry⟩ := r
        obtain ⟨m₂', retry'⟩ := r'
        rw [h₁, h₂] at hpay
        obtain ⟨hR', rfl, hk₁, hk₂⟩ := hpay
        cases retry with
        | some retryAfter =>
          exact ⟨⟨fun _ hpaid => absurd hpaid Bool.false_ne_true, fun _ => rfl⟩, fun _ => hR'⟩
        | none =>
          dsimp only
          rw [h.answers, h.answers, h.counter hR', hk₁, hk₂, Mailbox.answer_eq_iff]
          refine ⟨⟨fun hk _ => hk, fun hk => hk rfl⟩, fun hk => h.hold hR' e ?_⟩
          rw [hk₁, hk₂]
          exact hk rfl

end Intake

/-! ## The Python mailbox -/

namespace Mailbox

/-- The same mailbox, except for whom it serves and what it holds. -/
def withHeld (m : Mailbox) (serves : Finset String) (items : List Item) : Mailbox :=
  { m with serves := serves, items := items }

/-- Two mailboxes equal but for whether they serve `r`, and for what first
contact left. -/
structure Twins (r : String) (m₁ m₂ : Mailbox) : Prop where
  rest : ∃ serves items, m₂ = m₁.withHeld serves items
  serves : ∀ x, x ≠ r → (x ∈ m₁.serves ↔ x ∈ m₂.serves)
  items : m₁.items.filter (!held ·.cls) = m₂.items.filter (!held ·.cls)

/-- What `firstContact` does before the deposit is held. -/
def pay (m : Mailbox) (e : FirstContact) : Except Fault (Mailbox × Option Nat) :=
  if m.Solicited e then
    .ok ({ m with introductionsSent := m.introductionsSent.erase (e.session.getD "") }, none)
  else
    let keys := ["sender:" ++ e.senderIdentity, "inbox:" ++ e.recipient]
    match m.meter keys with
    | .error fault => .error fault
    | .ok (m, some retryAfter) => .ok (m, some retryAfter)
    | .ok (m, none) => .ok (m.log keys, none)

/-- The deposit is kept: for an identity served, within the bounded inbox. -/
def keeps (m : Mailbox) (e : FirstContact) : Bool :=
  decide (e.recipient ∈ m.serves) && !(decide (e.kind = .introduction) &&
    decide (m.inboxCap ≤ (m.items.filter fun it => it.cls = .introduction).length))

def intake : Intake Mailbox := ⟨pay, keeps, hold, counter, advance⟩

theorem step_eq (m : Mailbox) (k : Knock) : m.step k.event = intake.step m k := by
  cases k with
  | advance n => rfl
  | contact e =>
    show m.firstContact e = intake.firstContact m e
    unfold Intake.firstContact intake firstContact pay
    dsimp only
    split
    case isTrue => rfl
    case isFalse =>
      generalize m.meter _ = metered
      obtain _ | ⟨_, _ | _⟩ := metered <;> rfl

section Blind

variable (m : Mailbox) (e : FirstContact) (serves : Finset String) (items : List Item)

theorem meter_withHeld (keys : List String) (m : Mailbox) : (m.withHeld serves items).meter keys =
      (m.meter keys).map fun r => (r.1.withHeld serves items, r.2) := by
  induction keys generalizing m with
  | nil => rfl
  | cons key keys ih =>
    unfold meter
    dsimp only
    have hrecent : (m.withHeld serves items).recent key = m.recent key := rfl
    rw [hrecent]
    show (if m.introLimit ≤ (m.recent key).length then _ else _) = _
    split
    case isTrue =>
      cases m.recent key with
      | nil => rfl
      | cons oldest log => rfl
    case isFalse => exact ih { m with introLog := m.introLog.insert key (m.recent key) }

theorem pay_withHeld :
    (m.withHeld serves items).pay e = (m.pay e).map fun r => (r.1.withHeld serves items, r.2) := by
  unfold pay
  have hsolicited : (m.withHeld serves items).Solicited e ↔ m.Solicited e := Iff.rfl
  by_cases hs : m.Solicited e
  · rw [if_pos hs, if_pos (hsolicited.mpr hs)]
    rfl
  · rw [if_neg hs, if_neg fun h => hs (hsolicited.mp h)]
    dsimp only
    rw [meter_withHeld]
    cases m.meter ["sender:" ++ e.senderIdentity, "inbox:" ++ e.recipient] with
    | error fault => rfl
    | ok r =>
      obtain ⟨m', retry⟩ := r
      cases retry <;> rfl

theorem pay_frame {m' : Mailbox} {retry : Option Nat} (h : m.pay e = .ok (m', retry)) :
    ∃ log sent, m' = { m with introLog := log, introductionsSent := sent } := by
  unfold pay at h
  split at h
  case isTrue =>
    obtain ⟨rfl, -⟩ := Prod.mk.inj (Except.ok.inj h)
    exact ⟨m.introLog, _, rfl⟩
  case isFalse =>
    dsimp only at h
    split at h
    case h_1 => cases h
    case h_2 hm | h_3 hm =>
      obtain ⟨log, rfl⟩ := meter_items _ hm
      obtain ⟨rfl, -⟩ := Prod.mk.inj (Except.ok.inj h)
      exact ⟨_, m.introductionsSent, rfl⟩

def contactItem (e : FirstContact) : Item :=
  { cursor := "", n := 0, cls := e.kind.cls, group := "", expiresAt := some e.expiresAt }

theorem hold_eq : m.hold e =
      if m.keeps e then m.storeAccepted e.sender e.id (contactItem e)
      else (m, [.accepted e.sender e.id none false]) := by
  unfold hold keeps contactItem
  by_cases hserves : e.recipient ∈ m.serves
  · by_cases hfull : e.kind = .introduction ∧
        m.inboxCap ≤ (m.items.filter fun it => it.cls = .introduction).length
    · simp [hserves, hfull.1, hfull.2]
    · rw [if_neg (not_not.mpr hserves), if_neg hfull]
      simp [hserves, hfull]
  · rw [if_pos hserves]
    simp [hserves]

theorem hold_answers : answersOf (m.hold e).2 = answer e (m.keeps e) (m.counter + 1) := by
  rw [hold_eq]
  cases hk : m.keeps e with
  | false => rfl
  | true =>
    show Emit.accepted _ _ _ _ :: answersOf (m.pushes _ _) = _
    rw [pushes, answersOf_push]
    rfl

theorem hold_withHeld (hk : m.keeps e = (m.withHeld serves items).keeps e) :
    ∃ items', ((m.withHeld serves items).hold e).1 = (m.hold e).1.withHeld serves items' := by
  rw [hold_eq, hold_eq, ← hk]
  cases m.keeps e with
  | false => exact ⟨items, rfl⟩
  | true => exact ⟨_, rfl⟩

theorem dropGroups_withHeld (l : List String) (m : Mailbox) (items : List Item) :
    ∃ items', l.foldl dropGroup (m.withHeld serves items) = (l.foldl dropGroup m).withHeld serves items' := by
  induction l generalizing m items with
  | nil => exact ⟨items, rfl⟩
  | cons g l ih => exact ih (m.dropGroup g) _

theorem advance_withHeld (n : Nat) :
    ∃ items', (m.withHeld serves items).advance n = (m.advance n).withHeld serves items' :=
  dropGroups_withHeld serves _
    { m with
      now := m.now + n
      items := m.items.filter fun it => it.expiresAt.all (m.now + n < ·) }
    (items.filter fun it => it.expiresAt.all (m.now + n < ·))

end Blind

theorem blind : intake.Blind fun m₁ m₂ => ∃ serves items, m₂ = m₁.withHeld serves items where
  pay := by
    rintro m₁ _ ⟨serves, items, rfl⟩ e
    unfold Intake.PaysAlike
    have hpay₂ : intake.pay (m₁.withHeld serves items) e =
        (intake.pay m₁ e).map fun r => (r.1.withHeld serves items, r.2) :=
      pay_withHeld m₁ e serves items
    rw [hpay₂]
    cases hpay : intake.pay m₁ e with
    | error fault => trivial
    | ok r =>
      obtain ⟨log, sent, hr⟩ := @pay_frame m₁ e r.1 r.2 hpay
      refine ⟨⟨serves, items, rfl⟩, rfl, ?_, ?_⟩
      · rw [hr]
        rfl
      · rw [hr]
        rfl
  counter := by
    rintro m₁ _ ⟨serves, items, rfl⟩
    rfl
  answers m e := m.hold_answers e
  hold := by
    rintro m₁ _ ⟨serves, items, rfl⟩ e hk
    obtain ⟨items', h⟩ := hold_withHeld m₁ e serves items hk
    exact ⟨serves, items', h⟩
  advance := by
    rintro m₁ _ ⟨serves, items, rfl⟩ n
    obtain ⟨items', h⟩ := advance_withHeld m₁ serves items n
    exact ⟨serves, items', h⟩

/-- What a stranger sees of a run: the answers of every step. -/
def answers (m : Mailbox) (ks : List Knock) : List (Option (List Emit)) :=
  views (fun m k => m.step k.event) answersOf m ks

/-- Throughout the two runs, both keep a deposit that the rate limits let
through, or neither does. -/
def KeepAlike (m₁ m₂ : Mailbox) (ks : List Knock) : Prop :=
  Throughout (fun m k => m.step k.event) intake.KeepAlike m₁ m₂ ks

instance (m₁ m₂ : Mailbox) (ks : List Knock) : Decidable (KeepAlike m₁ m₂ ks) := decidableThroughout _ _ _ _ _

theorem answers_eq_iff {r : String} {m₁ m₂ : Mailbox} (h : Twins r m₁ m₂) (ks : List Knock) :
    answers m₁ ks = answers m₂ ks ↔ KeepAlike m₁ m₂ ks := by
  have hstep : (fun m (k : Knock) => step m k.event) = intake.step := by
    funext m k
    exact step_eq m k
  unfold answers KeepAlike
  rw [hstep]
  exact views_eq_iff blind.unwinds ks h.rest

end Mailbox

/-! ## The TypeScript mailbox -/

namespace Ts.Mailbox

/-- The same mailbox, except for whom it serves and what it holds. -/
def withHeld (m : Mailbox) (serves : Finset String) (items : List Item) : Mailbox :=
  { m with ctx := { m.ctx with serves := serves }, items := items }

/-- `Dsip.Messaging.Mailbox.Twins`, for the second implementation. -/
structure Twins (r : String) (m₁ m₂ : Mailbox) : Prop where
  rest : ∃ serves items, m₂ = m₁.withHeld serves items
  serves : ∀ x, x ≠ r → (x ∈ m₁.ctx.serves ↔ x ∈ m₂.ctx.serves)
  items : m₁.items.filter (!Messaging.Mailbox.held ·.cls) = m₂.items.filter (!Messaging.Mailbox.held ·.cls)

/-- What `firstContact` does before the deposit is held. -/
def pay (m : Mailbox) (e : FirstContact) : Except Fault (Mailbox × Option Nat) :=
  if m.Solicited e then
    .ok ({ m with introductionsSent := m.introductionsSent.erase (e.session.getD "") }, none)
  else
    match m.overLimit e with
    | some [] => .error .emptyLog
    | some (oldest :: _) => .ok (m, some (oldest.time + m.ctx.introWindow - m.now))
    | none =>
      .ok ({ m with introTimes := m.introTimes ++ [⟨e.senderIdentity, e.recipient, m.now⟩] }, none)

def keeps (m : Mailbox) (e : FirstContact) : Bool :=
  decide (e.recipient ∈ m.ctx.serves) && !(decide (e.kind = .introduction) &&
    decide (m.ctx.inboxCap ≤ (m.items.filter fun i => i.cls = .introduction).length))

def intake : Intake Mailbox := ⟨pay, keeps, hold, counter, advance⟩

theorem step_eq (m : Mailbox) (k : Knock) : m.step (.event k.event) = intake.step m k := by
  cases k with
  | advance n => rfl
  | contact e =>
    show m.firstContact e = intake.firstContact m e
    unfold Intake.firstContact intake firstContact pay
    dsimp only
    split
    case isTrue => rfl
    case isFalse =>
      generalize m.overLimit e = logged
      obtain _ | _ | _ := logged <;> rfl

section Blind

variable (m : Mailbox) (e : FirstContact) (serves : Finset String) (items : List Item)

theorem pay_withHeld :
    (m.withHeld serves items).pay e = (m.pay e).map fun r => (r.1.withHeld serves items, r.2) := by
  unfold pay
  have hsolicited : (m.withHeld serves items).Solicited e ↔ m.Solicited e := Iff.rfl
  have hlimit : (m.withHeld serves items).overLimit e = m.overLimit e := rfl
  by_cases hs : m.Solicited e
  · rw [if_pos hs, if_pos (hsolicited.mpr hs)]
    rfl
  · rw [if_neg hs, if_neg fun h => hs (hsolicited.mp h), hlimit]
    cases m.overLimit e with
    | none => rfl
    | some times => cases times <;> rfl

theorem pay_frame {m' : Mailbox} {retry : Option Nat} (h : m.pay e = .ok (m', retry)) :
    ∃ times sent, m' = { m with introTimes := times, introductionsSent := sent } := by
  unfold pay at h
  split at h
  case isTrue =>
    obtain ⟨rfl, -⟩ := Prod.mk.inj (Except.ok.inj h)
    exact ⟨m.introTimes, _, rfl⟩
  case isFalse =>
    split at h
    case h_1 => cases h
    case h_2 | h_3 =>
      obtain ⟨rfl, -⟩ := Prod.mk.inj (Except.ok.inj h)
      exact ⟨_, m.introductionsSent, rfl⟩

def contactItem (e : FirstContact) : Item :=
  { cursor := "", cls := e.kind.cls, expiresAt := some e.expiresAt }

theorem hold_eq : m.hold e =
      if m.keeps e then
        ((m.store (contactItem e)).1, accepted e.sender e.id (some (m.store (contactItem e)).2) ++
          (m.store (contactItem e)).1.push (m.store (contactItem e)).2)
      else (m, accepted e.sender e.id) := by
  unfold hold keeps contactItem
  by_cases hserves : e.recipient ∈ m.ctx.serves
  · by_cases hfull : e.kind = .introduction ∧
        m.ctx.inboxCap ≤ (m.items.filter fun i => i.cls = .introduction).length
    · simp [hserves, hfull.1, hfull.2]
    · rw [if_neg (not_or.mpr ⟨not_not.mpr hserves, hfull⟩)]
      simp [hserves, hfull]
  · rw [if_pos (.inl hserves)]
    simp [hserves]

theorem hold_answers : answersOf (m.hold e).2 = answer e (m.keeps e) (m.counter + 1) := by
  rw [hold_eq]
  cases hk : m.keeps e with
  | false => rfl
  | true =>
    show Emit.accepted _ _ _ _ :: answersOf (push _ _ _) = _
    rw [push, Messaging.Mailbox.answersOf_push]
    rfl

theorem hold_withHeld (hk : m.keeps e = (m.withHeld serves items).keeps e) :
    ∃ items', ((m.withHeld serves items).hold e).1 = (m.hold e).1.withHeld serves items' := by
  rw [hold_eq, hold_eq, ← hk]
  cases m.keeps e with
  | false => exact ⟨items, rfl⟩
  | true => exact ⟨_, rfl⟩

theorem dropLapsed_withHeld (g : String) :
    ∃ items', (m.withHeld serves items).dropLapsed g = (m.dropLapsed g).withHeld serves items' := by
  unfold dropLapsed
  have hlookup : (m.withHeld serves items).groups.lookup g = m.groups.lookup g := rfl
  have htime : (m.withHeld serves items).ctx.pendingTtl = m.ctx.pendingTtl ∧
      (m.withHeld serves items).now = m.now := ⟨rfl, rfl⟩
  rw [hlookup, htime.1, htime.2]
  cases m.groups.lookup g with
  | none => exact ⟨items, rfl⟩
  | some r =>
    dsimp only
    split
    case isTrue => exact ⟨_, rfl⟩
    case isFalse => exact ⟨items, rfl⟩

theorem dropGroups_withHeld (l : List String) (m : Mailbox) (items : List Item) :
    ∃ items', l.foldl dropLapsed (m.withHeld serves items) =
      (l.foldl dropLapsed m).withHeld serves items' := by
  induction l generalizing m items with
  | nil => exact ⟨items, rfl⟩
  | cons g l ih =>
    obtain ⟨items', h⟩ := dropLapsed_withHeld m serves items g
    rw [List.foldl_cons, List.foldl_cons, h]
    exact ih (m.dropLapsed g) items'

theorem advance_withHeld (n : Nat) :
    ∃ items', (m.withHeld serves items).advance n = (m.advance n).withHeld serves items' :=
  dropGroups_withHeld serves m.groups.keys
    { m with
      now := m.now + n
      items := m.items.filter fun i => i.expiresAt.all (m.now + n < ·) }
    (items.filter fun i => i.expiresAt.all (m.now + n < ·))

end Blind

theorem blind : intake.Blind fun m₁ m₂ => ∃ serves items, m₂ = m₁.withHeld serves items where
  pay := by
    rintro m₁ _ ⟨serves, items, rfl⟩ e
    unfold Intake.PaysAlike
    have hpay₂ : intake.pay (m₁.withHeld serves items) e =
        (intake.pay m₁ e).map fun r => (r.1.withHeld serves items, r.2) :=
      pay_withHeld m₁ e serves items
    rw [hpay₂]
    cases hpay : intake.pay m₁ e with
    | error fault => trivial
    | ok r =>
      obtain ⟨times, sent, hr⟩ := @pay_frame m₁ e r.1 r.2 hpay
      refine ⟨⟨serves, items, rfl⟩, rfl, ?_, ?_⟩
      · rw [hr]
        rfl
      · rw [hr]
        rfl
  counter := by
    rintro m₁ _ ⟨serves, items, rfl⟩
    rfl
  answers m e := m.hold_answers e
  hold := by
    rintro m₁ _ ⟨serves, items, rfl⟩ e hk
    obtain ⟨items', h⟩ := hold_withHeld m₁ e serves items hk
    exact ⟨serves, items', h⟩
  advance := by
    rintro m₁ _ ⟨serves, items, rfl⟩ n
    obtain ⟨items', h⟩ := advance_withHeld m₁ serves items n
    exact ⟨serves, items', h⟩

/-- What a stranger sees of a run: the answers of every step. -/
def answers (m : Mailbox) (ks : List Knock) : List (Option (List Emit)) :=
  views (fun m k => m.step (.event k.event)) answersOf m ks

/-- Throughout the two runs, both keep a deposit that the rate limits let
through, or neither does. -/
def KeepAlike (m₁ m₂ : Mailbox) (ks : List Knock) : Prop :=
  Throughout (fun m k => m.step (.event k.event)) intake.KeepAlike m₁ m₂ ks

instance (m₁ m₂ : Mailbox) (ks : List Knock) : Decidable (KeepAlike m₁ m₂ ks) := decidableThroughout _ _ _ _ _

theorem answers_eq_iff {r : String} {m₁ m₂ : Mailbox} (h : Twins r m₁ m₂) (ks : List Knock) :
    answers m₁ ks = answers m₂ ks ↔ KeepAlike m₁ m₂ ks := by
  have hstep : (fun m (k : Knock) => step m (.event k.event)) = intake.step := by
    funext m k
    exact step_eq m k
  unfold answers KeepAlike
  rw [hstep]
  exact views_eq_iff blind.unwinds ks h.rest

end Ts.Mailbox

/-- **When first contact is silent**: the answers of two mailboxes that differ in
whether they serve `r` and in what is held are the same exactly as long as both
keep a deposit that the rate limits let through, or neither does. -/
theorem first_contact_silent_iff (r : String) (ks : List Knock) :
    (∀ m₁ m₂ : Mailbox, m₁.Twins r m₂ → (m₁.answers ks = m₂.answers ks ↔ m₁.KeepAlike m₂ ks)) ∧
    ∀ m₁ m₂ : Ts.Mailbox, m₁.Twins r m₂ → (m₁.answers ks = m₂.answers ks ↔ m₁.KeepAlike m₂ ks) :=
  ⟨fun _ _ h => Mailbox.answers_eq_iff h ks, fun _ _ h => Ts.Mailbox.answers_eq_iff h ks⟩

/-! ## Carol, served or not -/

def strangersContext (serves : Finset String) : Mailbox.Context :=
  { owner := "did:bob", serves, devices := ["d1"], introLimit := 2 }

def introductionTo (recipient : String) : Knock :=
  .contact
    { id := "i", sender := "d9", senderIdentity := "did:alice", recipient, kind := .introduction,
      expiresAt := 60 }

theorem strangers_twins : (Mailbox.init (strangersContext {"did:bob"})).Twins "did:carol"
        (Mailbox.init (strangersContext {"did:bob", "did:carol"})) ∧
      (Ts.Mailbox.new (strangersContext {"did:bob"})).Twins "did:carol"
        (Ts.Mailbox.new (strangersContext {"did:bob", "did:carol"})) := by
  have hserves : ∀ x, x ≠ "did:carol" →
      (x ∈ ({"did:bob"} : Finset String) ↔ x ∈ ({"did:bob", "did:carol"} : Finset String)) := by
    intro x hx
    simp [hx]
  exact ⟨⟨⟨_, [], rfl⟩, hserves, rfl⟩, ⟨⟨_, [], rfl⟩, hserves, rfl⟩⟩

/-- Introductions to others, one too many: the answers do not tell. -/
theorem first_contact_silent_others : (Mailbox.init (strangersContext {"did:bob"})).answers
        [introductionTo "did:bob", introductionTo "did:dave", introductionTo "did:carol"] =
      (Mailbox.init (strangersContext {"did:bob", "did:carol"})).answers
        [introductionTo "did:bob", introductionTo "did:dave", introductionTo "did:carol"] :=
  ((first_contact_silent_iff "did:carol" _).1 _ _ strangers_twins.1).mpr (by decide +kernel)

/-- An introduction to Carol is answered with a cursor where she is served, by
both implementations. -/
theorem first_contact_tells : (Mailbox.init (strangersContext {"did:bob"})).Twins "did:carol"
        (Mailbox.init (strangersContext {"did:bob", "did:carol"})) ∧
      (Mailbox.init (strangersContext {"did:bob"})).answers [introductionTo "did:carol"] ≠
        (Mailbox.init (strangersContext {"did:bob", "did:carol"})).answers
          [introductionTo "did:carol"] ∧
      (Ts.Mailbox.new (strangersContext {"did:bob"})).Twins "did:carol"
        (Ts.Mailbox.new (strangersContext {"did:bob", "did:carol"})) ∧
      (Ts.Mailbox.new (strangersContext {"did:bob"})).answers [introductionTo "did:carol"] ≠
        (Ts.Mailbox.new (strangersContext {"did:bob", "did:carol"})).answers
          [introductionTo "did:carol"] :=
  ⟨strangers_twins.1, by decide +kernel, strangers_twins.2, by decide +kernel⟩

end Dsip.Messaging
