import Mathlib.Tactic
import Dsip.Messaging.HubOutage

/-!
# What becomes of the messages of an outbox

Every deposit is accounted for: it is refused at once, pending, or out again as
sent, refused, or handed over to the successor group. The accounts are kept in
counts of ids (`Accounts`), so that fresh ids are in exactly one of them once.

* `Accounts` — what the moves so far and the state say together;
* `Accounts.step` — one step keeps it, event by event;
* `outbox_keeps_every_message` — the result for every run.
-/

namespace Dsip.Messaging.HubOutage

open Dsip.Lib

abbrev OutboxMove := TSys.Move HubOutage Event (List Emit)

/-! ## The accounts -/

def deposits (mv : OutboxMove) : List String :=
  match mv.input with
  | .deposit id => [id]
  | _ => []

/-- The id a move refuses at once. -/
def refusedAtOnce (mv : OutboxMove) : List String :=
  if .refuse "group-abandoned" ∈ mv.output then deposits mv else []

/-- The id an emission reports sent. -/
def Emit.sentId : Emit → Option String
  | .sent id => some id
  | _ => none

/-- The id an emission reports refused. -/
def Emit.refusedId : Emit → Option String
  | .refused id _ => some id
  | _ => none

/-- The ids an emission hands over. -/
def Emit.handedOver : Emit → Option (List String)
  | .successor ids => some ids
  | _ => none

def sent (mv : OutboxMove) : List String := mv.output.filterMap Emit.sentId

def refusedIn (mv : OutboxMove) : List String := mv.output.filterMap Emit.refusedId

/-- The successor emissions of a move. -/
def successors (mv : OutboxMove) : List (List String) := mv.output.filterMap Emit.handedOver

/-- Everything deposited, in order: what a host restored, then the deposits. -/
def deposited (ctx : Context) (p : List OutboxMove) : List String := ctx.pending ++ p.flatMap deposits

/-! ## Failures -/

/-- The hub did not take an item. -/
def Emit.isRetry : Emit → Bool
  | .retryIn _ => true
  | _ => false

/-- The successor group could not be created. -/
def Emit.isHandoverRetry : Emit → Bool
  | .handoverRetryIn _ => true
  | _ => false

def Emit.isSent (e : Emit) : Bool := e.sentId.isSome

/-- The failures of a kind in a row, since the last accepted item. -/
def streak (failure : Emit → Bool) (p : List OutboxMove) : Nat :=
  p.foldl (fun k mv =>
    if mv.output.any Emit.isSent then 0 else if mv.output.any failure then k + 1 else k) 0

/-- The hub failed at `since`, or a host restored the outbox with it, and
nothing was accepted after. -/
def DownSince (ctx : Context) (p : List OutboxMove) (since : Nat) : Prop :=
  (ctx.downSince = some since ∧ ∀ mv ∈ p, sent mv = []) ∨
    ∃ before mv after, p = before ++ mv :: after ∧ mv.before.now = since ∧
      mv.output.any Emit.isRetry ∧ ∀ mv' ∈ after, sent mv' = []

/-! ## What one step does -/

/-- An emission that reports nothing and counts as no failure. -/
def Emit.isQuiet : Emit → Bool
  | .forward _ | .queued _ | .handoverRetry => true
  | _ => false

def Event.isDeposit : Event → Bool
  | .deposit _ => true
  | _ => false

/-- The items, the state and the counters are those of `h'` too. -/
def Same (h h' : HubOutage) : Prop :=
  h'.pending = h.pending ∧ h'.state = h.state ∧ h'.attempt = h.attempt ∧
    h'.handoverAttempt = h.handoverAttempt ∧ h'.hubTimeout = h.hubTimeout

def IsAbandoned (h : HubOutage) : Prop := ∃ since, h.state = .abandoned since

inductive Effect (h : HubOutage) : Event → List Emit → HubOutage → Prop
  | quiet {ev out h'} (hev : ev.isDeposit = false) (hout : out.all Emit.isQuiet)
      (hsame : Same h h') : Effect h ev out h'
  | deposited {id out} (hup : ¬ h.IsAbandoned) (hout : out.all Emit.isQuiet) :
      Effect h (.deposit id) out { h with pending := h.pending ++ [id] }
  | turnedAway {id} (hgone : h.IsAbandoned) :
      Effect h (.deposit id) [.refuse "group-abandoned"] h
  | failed {ev id timer} (hev : ev.isDeposit = false) (hid : id ∈ h.pending) :
      Effect h ev [.retryIn (backoff (h.attempt + 1))]
        { h with state := h.markDown, attempt := h.attempt + 1, retryAt := timer }
  | refused {ev id reason} (hev : ev.isDeposit = false) (hid : id ∈ h.pending) :
      Effect h ev [.refused id reason] { h with pending := h.pending.erase id }
  | accepted {ev id out h'} (hev : ev.isDeposit = false) (hid : id ∈ h.pending)
      (hout : out.all Emit.isQuiet) (hpending : h'.pending = h.pending.erase id)
      (hstate : (∃ since, h.state = .down since) ∧ h'.state = .up ∧ h'.attempt = 0 ∨
        (∀ since, h.state ≠ .down since) ∧ h'.state = h.state ∧ h'.attempt = h.attempt)
      (hrest : h'.handoverAttempt = h.handoverAttempt ∧ h'.hubTimeout = h.hubTimeout) :
      Effect h ev (.sent id :: out) h'
  | handoverFailed {ev timer} (hev : ev.isDeposit = false) (hgone : h.IsAbandoned) :
      Effect h ev [.handoverRetryIn (backoff (h.handoverAttempt + 1))]
        { h with handoverAttempt := h.handoverAttempt + 1, handoverAt := timer }
  | handedOver {n since} (hdown : h.state = .down since) (htime : since + h.hubTimeout ≤ h.now + n) :
      Effect h (.advance n) [.successor h.pending]
        { h with now := h.now + n, pending := [], state := .abandoned since, retryAt := none }

section Steps

variable {h : HubOutage}

theorem deposit_effect (id : String) : Effect h (.deposit id) (h.deposit id).2 (h.deposit id).1 := by
  cases hs : h.state with
  | up =>
    have hup : ¬ h.IsAbandoned := by simp [IsAbandoned, hs]
    have hd : h.deposit id = ({ h with pending := h.pending ++ [id] }, [.forward id]) := by
      simp [deposit, hs]
    rw [hd]
    exact .deposited hup rfl
  | down since =>
    have hup : ¬ h.IsAbandoned := by simp [IsAbandoned, hs]
    have hd : h.deposit id = ({ h with pending := h.pending ++ [id] }, [.queued id]) := by
      simp [deposit, hs]
    rw [hd]
    exact .deposited hup rfl
  | abandoned since =>
    have hd : h.deposit id = (h, [.refuse "group-abandoned"]) := by simp [deposit, hs]
    rw [hd]
    exact .turnedAway ⟨since, hs⟩

theorem unreachable_effect (id : String) {ev : Event} (hev : ev.isDeposit = false) :
    Effect h ev (h.unreachable id).2 (h.unreachable id).1 := by
  unfold unreachable
  split
  case isTrue => exact .quiet hev rfl ⟨rfl, rfl, rfl, rfl, rfl⟩
  case isFalse hid => exact .failed hev (not_not.mp hid)

theorem forwards_quiet (l : List String) : (l.map Emit.forward).all Emit.isQuiet := by
  simp [Emit.isQuiet]

theorem settle_effect (id : String) (reason : Option String) {ev : Event}
    (hev : ev.isDeposit = false) : Effect h ev (h.settle id reason).2 (h.settle id reason).1 := by
  unfold settle
  split
  case isTrue => exact .quiet hev rfl ⟨rfl, rfl, rfl, rfl, rfl⟩
  case isFalse hid =>
    have hid : id ∈ h.pending := not_not.mp hid
    cases reason with
    | some reason => exact .refused hev hid
    | none =>
      cases hs : h.state with
      | down since =>
        dsimp only
        exact .accepted hev hid (forwards_quiet _) rfl (.inl ⟨⟨since, hs⟩, rfl, rfl⟩) ⟨rfl, rfl⟩
      | up =>
        dsimp only
        exact .accepted hev hid rfl rfl (.inr ⟨by simp [hs], hs.symm, rfl⟩)
          ⟨rfl, rfl⟩
      | abandoned since =>
        dsimp only
        exact .accepted hev hid rfl rfl (.inr ⟨by simp [hs], hs.symm, rfl⟩)
          ⟨rfl, rfl⟩

theorem handoverFailed_effect : Effect h .handoverFailed h.handoverFailed.2 h.handoverFailed.1 := by
  cases hs : h.state with
  | abandoned since =>
    have hf : h.handoverFailed = ({ h with
            handoverAttempt := h.handoverAttempt + 1
            handoverAt := some (h.now + backoff (h.handoverAttempt + 1)) },
          [.handoverRetryIn (backoff (h.handoverAttempt + 1))]) := by
      simp [handoverFailed, hs]
    rw [hf]
    exact .handoverFailed rfl ⟨since, hs⟩
  | up =>
    have hf : h.handoverFailed = (h, []) := by simp [handoverFailed, hs]
    rw [hf]
    exact .quiet rfl rfl ⟨rfl, rfl, rfl, rfl, rfl⟩
  | down since =>
    have hf : h.handoverFailed = (h, []) := by simp [handoverFailed, hs]
    rw [hf]
    exact .quiet rfl rfl ⟨rfl, rfl, rfl, rfl, rfl⟩

theorem advance_effect (n : Nat) : Effect h (.advance n) (h.advance n).2 (h.advance n).1 := by
  unfold advance
  cases hs : h.state with
  | up => exact .quiet rfl rfl ⟨rfl, hs.symm, rfl, rfl, rfl⟩
  | abandoned since =>
    dsimp only
    split <;> exact .quiet rfl rfl ⟨rfl, hs.symm, rfl, rfl, rfl⟩
  | down since =>
    unfold advanceDown
    dsimp only
    split
    case isTrue htime => exact .handedOver hs htime
    case isFalse =>
      cases hp : h.pending with
      | nil => exact .quiet rfl rfl ⟨hp.symm, hs.symm, rfl, rfl, rfl⟩
      | cons head rest =>
        dsimp only
        split <;> exact .quiet rfl rfl ⟨hp.symm, hs.symm, rfl, rfl, rfl⟩

theorem step_effect (h : HubOutage) (ev : Event) : Effect h ev (h.step ev).2 (h.step ev).1 := by
  cases ev with
  | deposit id => exact deposit_effect id
  | noAnswer id => exact unreachable_effect id rfl
  | handoverFailed => exact handoverFailed_effect
  | advance n => exact advance_effect n
  | answer id reason =>
    show Effect h _ (h.answer id reason).2 (h.answer id reason).1
    unfold answer
    split
    case isTrue => exact unreachable_effect id rfl
    case isFalse => exact settle_effect id reason rfl

theorem quiet_views {out : List Emit} (hout : out.all Emit.isQuiet) :
    out.filterMap Emit.sentId = [] ∧ out.filterMap Emit.refusedId = [] ∧
      out.filterMap Emit.handedOver = [] ∧ out.any Emit.isSent = false ∧
      out.any Emit.isRetry = false ∧ out.any Emit.isHandoverRetry = false ∧
      .refuse "group-abandoned" ∉ out := by
  induction out with
  | nil => simp
  | cons e out ih =>
    simp only [List.all_cons, Bool.and_eq_true] at hout
    have hrest := ih hout.2
    cases e with
    | forward | queued | handoverRetry =>
      simpa [Emit.sentId, Emit.refusedId, Emit.handedOver, Emit.isSent, Emit.isRetry,
        Emit.isHandoverRetry] using hrest
    | refuse | retryIn | sent | refused | handoverRetryIn | successor => cases hout.1

end Steps

/-! ## The accounts along a run -/

theorem streak_snoc (failure : Emit → Bool) (p : List OutboxMove) (mv : OutboxMove) :
    streak failure (p ++ [mv]) =
      if mv.output.any Emit.isSent then 0
      else if mv.output.any failure then streak failure p + 1 else streak failure p := by
  simp [streak, List.foldl_append]

theorem deposited_snoc (ctx : Context) (p : List OutboxMove) (mv : OutboxMove) :
    deposited ctx (p ++ [mv]) = deposited ctx p ++ deposits mv := by
  simp [deposited]

theorem DownSince.snoc {ctx : Context} {p : List OutboxMove} {since : Nat}
    (h : DownSince ctx p since) {mv : OutboxMove} (hmv : sent mv = []) : DownSince ctx (p ++ [mv]) since := by
  have hlater : ∀ l : List OutboxMove, (∀ mv' ∈ l, sent mv' = []) → ∀ mv' ∈ l ++ [mv], sent mv' = [] := by
    intro l hl mv' hmem
    rcases List.mem_append.mp hmem with hmem | hmem
    · exact hl mv' hmem
    · rw [List.mem_singleton.mp hmem]
      exact hmv
  rcases h with ⟨hctx, hall⟩ | ⟨before, first, after, rfl, htime, hfail, hall⟩
  · exact .inl ⟨hctx, hlater p hall⟩
  · exact .inr ⟨before, first, after ++ [mv], by simp, htime, hfail, hlater after hall⟩

theorem deposits_eq_nil (mv : OutboxMove) (h : mv.input.isDeposit = false) : deposits mv = [] := by
  unfold deposits
  split
  case h_1 id heq =>
    rw [heq] at h
    cases h
  case h_2 => rfl

section Books

variable {ctx : Context} {p : List OutboxMove} {h h' : HubOutage} {ev : Event} {out : List Emit}

theorem Effect.moved (he : Effect h ev out h') (id : String) :
    (deposits ⟨h, ev, out, h'⟩).count id + h.pending.count id =
      (refusedAtOnce ⟨h, ev, out, h'⟩).count id + h'.pending.count id +
        (sent ⟨h, ev, out, h'⟩).count id + (refusedIn ⟨h, ev, out, h'⟩).count id +
        (successors ⟨h, ev, out, h'⟩).flatten.count id := by
  -- taking an item out of the outbox
  have herase : ∀ x ∈ h.pending, h.pending.count id = (h.pending.erase x).count id + [x].count id := by
    intro x hx
    rw [(List.perm_cons_erase hx).count_eq, List.count_cons, List.count_singleton]
  cases he with
  | quiet hev hout hsame =>
    obtain ⟨hsent, hrefused, hover, -, -, -, hrefuse⟩ := quiet_views hout
    simp [deposits_eq_nil ⟨h, ev, out, h'⟩ hev, refusedAtOnce, hrefuse, sent, hsent, refusedIn,
      hrefused, successors, hover, hsame.1]
  | deposited hup hout =>
    obtain ⟨hsent, hrefused, hover, -, -, -, hrefuse⟩ := quiet_views hout
    simp [deposits, refusedAtOnce, hrefuse, sent, hsent, refusedIn, hrefused, successors, hover]
    omega
  | turnedAway hgone =>
    simp [deposits, refusedAtOnce, sent, refusedIn, successors, Emit.sentId, Emit.refusedId,
      Emit.handedOver, List.filterMap_cons]
  | failed hev hid =>
    simp [deposits_eq_nil ⟨h, ev, _, _⟩ hev, refusedAtOnce, sent, refusedIn, successors,
      Emit.sentId, Emit.refusedId, Emit.handedOver, List.filterMap_cons]
  | refused hev hid =>
    have hcount := herase _ hid
    simp [deposits_eq_nil ⟨h, ev, _, _⟩ hev, refusedAtOnce, sent, refusedIn, successors,
      Emit.sentId, Emit.refusedId, Emit.handedOver, List.filterMap_cons]
    omega
  | accepted hev hid hout hpending =>
    obtain ⟨hsent, hrefused, hover, -, -, -, hrefuse⟩ := quiet_views hout
    have hcount := herase _ hid
    simp [deposits_eq_nil ⟨h, ev, _, _⟩ hev, refusedAtOnce, sent, refusedIn, successors,
      Emit.sentId, Emit.refusedId, Emit.handedOver, List.filterMap_cons, hsent, hrefused, hover,
      hpending]
    omega
  | handoverFailed hev hgone =>
    simp [deposits_eq_nil ⟨h, ev, _, _⟩ hev, refusedAtOnce, sent, refusedIn, successors,
      Emit.sentId, Emit.refusedId, Emit.handedOver, List.filterMap_cons]
  | handedOver hdown htime =>
    simp [deposits, refusedAtOnce, sent, refusedIn, successors, Emit.sentId, Emit.refusedId,
      Emit.handedOver, List.filterMap_cons]

theorem Effect.order (he : Effect h ev out h') :
    h'.pending.Sublist (h.pending ++ deposits ⟨h, ev, out, h'⟩) := by
  have hkeep : ∀ l : List String, l.Sublist h.pending → l.Sublist (h.pending ++ deposits ⟨h, ev, out, h'⟩) :=
    fun l hl => hl.trans (List.sublist_append_left _ _)
  cases he with
  | quiet hev hout hsame => exact hkeep _ (hsame.1 ▸ List.Sublist.refl _)
  | deposited => exact List.Sublist.refl _
  | turnedAway | failed | handoverFailed => exact hkeep _ (List.Sublist.refl _)
  | refused => exact hkeep _ List.erase_sublist
  | accepted hev hid hout hpending => exact hkeep _ (hpending ▸ List.erase_sublist)
  | handedOver => exact List.nil_sublist _

structure Balanced (ctx : Context) (p : List OutboxMove) (h : HubOutage) : Prop where
  balance : ∀ id, (deposited ctx p).count id =
    (p.flatMap refusedAtOnce).count id + h.pending.count id + (p.flatMap sent).count id +
      (p.flatMap refusedIn).count id + (p.flatMap successors).flatten.count id
  order : h.pending.Sublist (deposited ctx p)
  gone : h.IsAbandoned → h.pending = []
  notYet : ¬ h.IsAbandoned → p.flatMap successors = []
  once : (p.flatMap successors).length ≤ 1

theorem Effect.abandons (he : Effect h ev out h') :
    (successors ⟨h, ev, out, h'⟩ = [] ∧ (h'.IsAbandoned ↔ h.IsAbandoned) ∧
      (h.IsAbandoned → h'.pending.Sublist h.pending)) ∨
    (¬ h.IsAbandoned ∧ h'.IsAbandoned ∧ h'.pending = [] ∧ successors ⟨h, ev, out, h'⟩ = [h.pending]) := by
  cases he with
  | quiet hev hout hsame =>
    refine .inl ⟨(quiet_views hout).2.2.1, ?_, fun _ => hsame.1 ▸ List.Sublist.refl _⟩
    simp [IsAbandoned, hsame.2.1]
  | deposited hup hout => exact .inl ⟨(quiet_views hout).2.2.1, Iff.rfl, fun hgone => absurd hgone hup⟩
  | turnedAway hgone => exact .inl ⟨rfl, Iff.rfl, fun _ => List.Sublist.refl _⟩
  | failed hev hid =>
    refine .inl ⟨rfl, ?_, fun _ => List.Sublist.refl _⟩
    show (∃ since, h.markDown = _) ↔ ∃ since, h.state = _
    unfold markDown
    cases hs : h.state <;> simp
  | refused hev hid => exact .inl ⟨rfl, Iff.rfl, fun _ => List.erase_sublist⟩
  | accepted hev hid hout hpending hstate =>
    refine .inl ⟨?_, ?_, fun _ => hpending ▸ List.erase_sublist⟩
    · exact (quiet_views hout).2.2.1
    · rcases hstate with ⟨⟨since, hs⟩, hup, -⟩ | ⟨-, hs, -⟩
      · simp [IsAbandoned, hs, hup]
      · simp [IsAbandoned, hs]
  | handoverFailed hev hgone => exact .inl ⟨rfl, Iff.rfl, fun _ => List.Sublist.refl _⟩
  | handedOver hdown htime => exact .inr ⟨by simp [IsAbandoned, hdown], ⟨_, rfl⟩, rfl, rfl⟩

theorem balanced_init (ctx : Context) : Balanced ctx [] (init ctx) where
  balance id := by simp [deposited, init]
  order := by simp [deposited, init]
  gone := by
    rintro ⟨since, hs⟩
    cases hd : ctx.downSince <;> simp [init, hd] at hs
  notYet _ := rfl
  once := Nat.zero_le 1

theorem Balanced.step (hb : Balanced ctx p h) (he : Effect h ev out h') :
    Balanced ctx (p ++ [⟨h, ev, out, h'⟩]) h' := by
  have hab := he.abandons
  refine ⟨fun id => ?_, ?_, fun hg => ?_, fun hg => ?_, ?_⟩
  · have hold := hb.balance id
    have hmoved := he.moved id
    simp only [deposited_snoc, List.flatMap_append, List.flatMap_singleton, List.flatten_append,
      List.count_append]
    omega
  · rw [deposited_snoc]
    exact he.order.trans (hb.order.append_right _)
  · rcases hab with ⟨-, hiff, hsub⟩ | ⟨-, -, hempty, -⟩
    · have hold := hb.gone (hiff.mp hg)
      exact List.sublist_nil.mp (hold ▸ hsub (hiff.mp hg))
    · exact hempty
  · rcases hab with ⟨hnone, hiff, -⟩ | ⟨-, hgone, -, -⟩
    · simp [hb.notYet fun h => hg (hiff.mpr h), hnone]
    · exact absurd hgone hg
  · rcases hab with ⟨hnone, -, -⟩ | ⟨hnot, -, -, hone⟩
    · simpa [hnone] using hb.once
    · simp [hb.notYet hnot, hone]

/-- The counters and the clock of an outage. -/
structure Counted (ctx : Context) (p : List OutboxMove) (h : HubOutage) : Prop where
  timeout : h.hubTimeout = ctx.hubTimeout
  attempt : ¬ h.IsAbandoned → h.attempt = streak Emit.isRetry p
  up : h.state = .up → h.attempt = 0
  handover : h.handoverAttempt = streak Emit.isHandoverRetry p
  early : ¬ h.IsAbandoned → h.handoverAttempt = 0
  down : ∀ since, h.state = .down since → DownSince ctx p since

theorem counted_init (ctx : Context) : Counted ctx [] (init ctx) where
  timeout := rfl
  attempt _ := rfl
  up _ := rfl
  handover := rfl
  early _ := rfl
  down since hs := by
    cases hd : ctx.downSince with
    | none => simp [init, hd] at hs
    | some t =>
      simp only [init, hd, OutageState.down.injEq] at hs
      exact .inl ⟨hd.trans (congrArg some hs), fun _ hmv => absurd hmv List.not_mem_nil⟩

theorem DownSince.failed (hdown : ∀ since, h.state = .down since → DownSince ctx p since)
    {mv : OutboxMove} (hbefore : mv.before = h) (hretry : mv.output.any Emit.isRetry)
    (hsent : sent mv = []) {since : Nat} (hs : h.markDown = .down since) :
    DownSince ctx (p ++ [mv]) since := by
  unfold markDown at hs
  cases hstate : h.state with
  | up =>
    simp only [hstate, OutageState.down.injEq] at hs
    refine .inr ⟨p, mv, [], rfl, ?_, hretry, fun _ hmv => absurd hmv List.not_mem_nil⟩
    rw [hbefore, hs]
  | down t =>
    simp only [hstate] at hs
    exact (hdown since (hstate.trans hs)).snoc hsent
  | abandoned t => simp [hstate] at hs

theorem Counted.step (hc : Counted ctx p h) (hgone : h.IsAbandoned → h.pending = [])
    (he : Effect h ev out h') : Counted ctx (p ++ [⟨h, ev, out, h'⟩]) h' := by
  have hlive : ∀ {id}, id ∈ h.pending → ¬ h.IsAbandoned := by
    intro id hid ha
    rw [hgone ha] at hid
    exact List.not_mem_nil hid
  cases he with
  | quiet hev hout hsame =>
    obtain ⟨hsent, -, -, hno, hretry, hhandover, -⟩ := quiet_views hout
    obtain ⟨-, hstate, hattempt, hhand, htimeout⟩ := hsame
    have hiff : h'.IsAbandoned ↔ h.IsAbandoned := by simp [IsAbandoned, hstate]
    refine ⟨htimeout.trans hc.timeout, ?_, ?_, ?_, ?_, ?_⟩
    · simpa [hiff, hattempt, streak_snoc, hno, hretry] using hc.attempt
    · simpa [hstate, hattempt] using hc.up
    · simpa [hhand, streak_snoc, hno, hhandover] using hc.handover
    · simpa [hiff, hhand] using hc.early
    · intro since hs
      exact (hc.down since (hstate ▸ hs)).snoc hsent
  | deposited hup hout =>
    obtain ⟨hsent, -, -, hno, hretry, hhandover, -⟩ := quiet_views hout
    refine ⟨hc.timeout, ?_, hc.up, ?_, hc.early, fun since hs => (hc.down since hs).snoc hsent⟩
    · intro _
      simpa [streak_snoc, hno, hretry] using hc.attempt hup
    · simpa [streak_snoc, hno, hhandover] using hc.handover
  | turnedAway ha =>
    refine ⟨hc.timeout, fun hn => absurd ha hn, hc.up, ?_, hc.early,
      fun since hs => (hc.down since hs).snoc rfl⟩
    simpa [streak_snoc, Emit.isSent, Emit.sentId, Emit.isHandoverRetry] using hc.handover
  | failed hev hid =>
    have hn := hlive hid
    refine ⟨hc.timeout, ?_, ?_, ?_, ?_, ?_⟩
    · intro _
      simpa [streak_snoc, Emit.isSent, Emit.sentId, Emit.isRetry] using hc.attempt hn
    · intro hs
      unfold markDown at hs
      cases hstate : h.state <;> simp [hstate] at hs
    · simpa [streak_snoc, Emit.isSent, Emit.sentId, Emit.isHandoverRetry] using hc.handover
    · exact fun _ => hc.early hn
    · exact fun since hs => DownSince.failed hc.down rfl rfl rfl hs
  | refused hev hid =>
    refine ⟨hc.timeout, ?_, hc.up, ?_, hc.early, fun since hs => (hc.down since hs).snoc rfl⟩
    · intro hn
      simpa [streak_snoc, Emit.isSent, Emit.sentId, Emit.isRetry] using hc.attempt hn
    · simpa [streak_snoc, Emit.isSent, Emit.sentId, Emit.isHandoverRetry] using hc.handover
  | accepted hev hid hout hpending hstate hrest =>
    have hn := hlive hid
    refine ⟨hrest.2.trans hc.timeout, ?_, ?_, ?_, ?_, ?_⟩
    · intro _
      rw [streak_snoc, if_pos (by simp [Emit.isSent, Emit.sentId])]
      rcases hstate with ⟨-, -, hzero⟩ | ⟨hno, hs, hattempt⟩
      · exact hzero
      · rw [hattempt]
        cases h₀ : h.state with
        | up => exact hc.up h₀
        | down since => exact absurd h₀ (hno since)
        | abandoned since => exact absurd ⟨since, h₀⟩ hn
    · intro hs
      rcases hstate with ⟨-, -, hzero⟩ | ⟨-, hs', hattempt⟩
      · exact hzero
      · rw [hattempt]
        exact hc.up (hs' ▸ hs)
    · rw [streak_snoc, if_pos (by simp [Emit.isSent, Emit.sentId]), hrest.1]
      exact hc.early hn
    · intro _
      rw [hrest.1]
      exact hc.early hn
    · intro since hs
      rcases hstate with ⟨-, hup, -⟩ | ⟨hno, hs', -⟩
      · rw [hup] at hs
        cases hs
      · exact absurd (hs' ▸ hs) (hno since)
  | handoverFailed hev ha =>
    obtain ⟨since, hs⟩ := ha
    refine ⟨hc.timeout, fun hn => absurd ⟨since, hs⟩ hn, hc.up, ?_, fun hn => absurd ⟨since, hs⟩ hn, ?_⟩
    · simpa [streak_snoc, Emit.isSent, Emit.sentId, Emit.isHandoverRetry] using hc.handover
    · exact fun since hs => (hc.down since hs).snoc rfl
  | handedOver hdown htime =>
    refine ⟨hc.timeout, fun hn => absurd ⟨_, rfl⟩ hn, nofun, ?_, fun hn => absurd ⟨_, rfl⟩ hn, nofun⟩
    simpa [streak_snoc, Emit.isSent, Emit.sentId, Emit.isHandoverRetry] using hc.handover

end Books

theorem books_of_path {ctx : Context} {p : List OutboxMove} {h : HubOutage}
    (hp : (machine ctx).Path (init ctx) p h) : Balanced ctx p h ∧ Counted ctx p h := by
  refine TSys.Path.invariant (P := fun p h => Balanced ctx p h ∧ Counted ctx p h)
    ⟨balanced_init ctx, counted_init ctx⟩ ?_ hp
  rintro p h ev out h' - ⟨hb, hc⟩ hs
  have he : Effect h ev out h' := by
    have heff := step_effect h ev
    rw [show h.step ev = (h', out) from hs] at heff
    exact heff
  exact ⟨hb.step he, hc.step hb.gone he⟩

/-- What a move may emit after the moves before it. -/
structure Timely (ctx : Context) (before : List OutboxMove) (mv : OutboxMove) : Prop where
  /-- The hand-over lists what is pending, in deposit order, when the hub has
  been down for `hub_timeout`. -/
  handover : ∀ ids, .successor ids ∈ mv.output → ids = mv.before.pending ∧
    ids.Sublist (deposited ctx before) ∧
    ∃ since, DownSince ctx before since ∧ since + ctx.hubTimeout ≤ mv.after.now
  /-- The delay after the `k`-th failure in a row. -/
  retry : ∀ delay, .retryIn delay ∈ mv.output → ∃ k, streak Emit.isRetry (before ++ [mv]) = k + 1 ∧
    delay = min (2 ^ k) 60
  handoverRetry : ∀ delay, .handoverRetryIn delay ∈ mv.output →
    ∃ k, streak Emit.isHandoverRetry (before ++ [mv]) = k + 1 ∧ delay = min (2 ^ k) 60

theorem backoff_succ (k : Nat) : backoff (k + 1) = min (2 ^ k) 60 := by
  simp [backoff, retryInitialS, retryMaxS]

theorem Effect.timely {ctx : Context} {p : List OutboxMove} {h h' : HubOutage} {ev : Event}
    {out : List Emit} (hb : Balanced ctx p h) (hc : Counted ctx p h) (he : Effect h ev out h') :
    Timely ctx p ⟨h, ev, out, h'⟩ := by
  have hquiet : ∀ {l : List Emit}, l.all Emit.isQuiet → (∀ ids, .successor ids ∉ l) ∧
      (∀ delay, .retryIn delay ∉ l) ∧ ∀ delay, .handoverRetryIn delay ∉ l := by
    intro l hl
    rw [List.all_eq_true] at hl
    exact ⟨fun _ hm => absurd (hl _ hm) Bool.false_ne_true, fun _ hm => absurd (hl _ hm) Bool.false_ne_true,
      fun _ hm => absurd (hl _ hm) Bool.false_ne_true⟩
  cases he with
  | quiet _ hout | deposited _ hout =>
    obtain ⟨h₁, h₂, h₃⟩ := hquiet hout
    exact ⟨fun _ hm => absurd hm (h₁ _), fun _ hm => absurd hm (h₂ _), fun _ hm => absurd hm (h₃ _)⟩
  | turnedAway | refused => exact ⟨by simp, by simp, by simp⟩
  | accepted _ _ hout =>
    obtain ⟨h₁, h₂, h₃⟩ := hquiet hout
    exact ⟨by simp [h₁], by simp [h₂], by simp [h₃]⟩
  | failed _ hid =>
    have hn : ¬ h.IsAbandoned := by
      intro ha
      rw [hb.gone ha] at hid
      exact List.not_mem_nil hid
    refine ⟨by simp, ?_, by simp⟩
    intro delay hm
    simp only [List.mem_singleton, Emit.retryIn.injEq] at hm
    refine ⟨h.attempt, ?_, hm.trans (backoff_succ _)⟩
    simp [streak_snoc, Emit.isSent, Emit.sentId, Emit.isRetry, hc.attempt hn]
  | handoverFailed =>
    refine ⟨by simp, by simp, ?_⟩
    intro delay hm
    simp only [List.mem_singleton, Emit.handoverRetryIn.injEq] at hm
    refine ⟨h.handoverAttempt, ?_, hm.trans (backoff_succ _)⟩
    simp [streak_snoc, Emit.isSent, Emit.sentId, Emit.isHandoverRetry, hc.handover]
  | handedOver hdown htime =>
    refine ⟨?_, by simp, by simp⟩
    intro ids hm
    simp only [List.mem_singleton, Emit.successor.injEq] at hm
    subst hm
    refine ⟨rfl, hb.order, _, hc.down _ hdown, ?_⟩
    rw [← hc.timeout]
    exact htime

/-- **The outbox keeps every message.** With fresh ids, every deposited id is
refused at once, pending, sent, refused or handed over, and only one of these
and once; the outbox is in deposit order, there is one hand-over at most, and
every move is timely. -/
theorem outbox_keeps_every_message {ctx : Context} {p : List OutboxMove} {h : HubOutage}
    (hp : (machine ctx).Path (init ctx) p h) (hfresh : (deposited ctx p).Nodup) :
    (∀ id, (p.flatMap refusedAtOnce).count id + h.pending.count id + (p.flatMap sent).count id +
      (p.flatMap refusedIn).count id + (p.flatMap successors).flatten.count id =
        if id ∈ deposited ctx p then 1 else 0) ∧
    h.pending.Sublist (deposited ctx p) ∧ (p.flatMap successors).length ≤ 1 ∧
    ∀ before mv after, p = before ++ mv :: after → Timely ctx before mv := by
  obtain ⟨hb, hc⟩ := books_of_path hp
  refine ⟨fun id => ?_, hb.order, hb.once, ?_⟩
  · rw [← hb.balance id]
    split
    case isTrue hid => exact List.count_eq_one_of_mem hfresh hid
    case isFalse hid => exact List.count_eq_zero_of_not_mem hid
  · rintro before mv after rfl
    obtain ⟨hbefore, hs, -⟩ := hp.split
    obtain ⟨hb, hc⟩ := books_of_path hbefore
    have heff := step_effect mv.before mv.input
    rw [show mv.before.step mv.input = (mv.after, mv.output) from hs] at heff
    exact heff.timely hb hc

/-- Two items: the first is sent once the hub is back, the second is handed
over. -/
theorem outbox_keeps_every_message_two :
    ∃ p h, (machine { now := 0, hubTimeout := 5 }).Path (init { now := 0, hubTimeout := 5 }) p h ∧
      p.flatMap sent = ["a"] ∧ p.flatMap successors = [["b"]] ∧
      ∀ before mv after, p = before ++ mv :: after → Timely { now := 0, hubTimeout := 5 } before mv :=
  ⟨_, _, TSys.moves_path step (· = init { now := 0, hubTimeout := 5 }) (init { now := 0, hubTimeout := 5 })
      [.deposit "a", .noAnswer "a", .deposit "b", .advance 1, .answer "a" none, .noAnswer "b", .advance 5],
    by decide, by decide, (outbox_keeps_every_message (TSys.moves_path step _ _ _) (by decide)).2.2.2⟩

end Dsip.Messaging.HubOutage
