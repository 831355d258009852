import Dsip.Lib.SlidingWindow
import Dsip.Messaging.MailboxItems

/-!
# What first contact costs

Each sender identity and each inbox has a log of the deposits it paid for. `Budget`
says that the live part of a log is that of all the deposits charged so far, so that
no window of `intro_window` seconds holds more than `intro_limit` of them. A grant
that answers an introduction the owner sent is not charged; the entry pays for it.
-/

namespace Dsip.Messaging.Mailbox

open Dsip.Lib SlidingWindow

/-! ## Who pays -/

/-- What a deposit is metered by: who sends it, and where it goes. -/
inductive Payer where
  | sender (identity : String)
  | inbox (recipient : String)
  deriving DecidableEq, Repr

def Payer.key : Payer → String
  | .sender identity => "sender:" ++ identity
  | .inbox recipient => "inbox:" ++ recipient

def Payer.Pays : Payer → FirstContact → Prop
  | .sender identity, e => e.senderIdentity = identity
  | .inbox recipient, e => e.recipient = recipient

instance (payer : Payer) (e : FirstContact) : Decidable (payer.Pays e) := by
  cases payer <;> exact inferInstanceAs (Decidable (_ = _))

/-- The keys that `firstContact` meters. -/
def keysOf (e : FirstContact) : List String := ["sender:" ++ e.senderIdentity, "inbox:" ++ e.recipient]

theorem append_right_inj' {p s t : String} : p ++ s = p ++ t ↔ s = t := by
  rw [← String.toList_inj, String.toList_append, String.toList_append, List.append_cancel_left_eq,
    String.toList_inj]

theorem sender_ne_inbox (s t : String) : "sender:" ++ s ≠ "inbox:" ++ t := by
  intro h
  have hlist := congrArg String.toList h
  rw [String.toList_append, String.toList_append] at hlist
  exact absurd (congrArg List.head? hlist) (by simp)

theorem key_mem_keysOf {payer : Payer} {e : FirstContact} : payer.key ∈ keysOf e ↔ payer.Pays e := by
  unfold keysOf
  cases payer with
  | sender identity =>
    simp only [Payer.key, Payer.Pays, List.mem_cons, List.not_mem_nil, or_false, append_right_inj',
      sender_ne_inbox]
    exact eq_comm
  | inbox recipient =>
    simp only [Payer.key, Payer.Pays, List.mem_cons, List.not_mem_nil, or_false, append_right_inj',
      (sender_ne_inbox _ _).symm, false_or]
    exact eq_comm

theorem nodup_keysOf (e : FirstContact) : (keysOf e).Nodup := by
  simp [keysOf, sender_ne_inbox]

/-! ## Metering -/

def logOf (m : Mailbox) (key : String) : List Nat := (m.introLog.lookup key).getD []

theorem recent_eq (m : Mailbox) (key : String) : m.recent key = live m.introWindow m.now (m.logOf key) := rfl

section Meter

variable {m m' : Mailbox} {keys : List String} {retry : Option Nat}

/-- A key's log without what has left the window. -/
def pruned (m : Mailbox) (k : String) : Mailbox := { m with introLog := m.introLog.insert k (m.recent k) }

theorem pruned_live (m : Mailbox) (k key : String) {t : Nat} (ht : m.now ≤ t) :
    live m.introWindow t ((m.pruned k).logOf key) = live m.introWindow t (m.logOf key) := by
  unfold logOf pruned
  dsimp only
  rw [Dict.lookup_insert_eq]
  split
  case isTrue heq =>
    subst heq
    exact live_live ht
  case isFalse => rfl

theorem pruned_recent (m : Mailbox) (k key : String) : (m.pruned k).recent key = m.recent key :=
  m.pruned_live k key (le_refl _)

theorem meter_live (h : m.meter keys = .ok (m', retry)) (key : String) {t : Nat} (ht : m.now ≤ t) :
    live m.introWindow t (m'.logOf key) = live m.introWindow t (m.logOf key) := by
  induction keys generalizing m with
  | nil =>
    cases h
    rfl
  | cons k keys ih =>
    unfold meter at h
    dsimp only at h
    split at h
    case isTrue =>
      split at h
      case h_1 => cases h
      case h_2 =>
        cases h
        exact m.pruned_live k key ht
    case isFalse => exact (ih h ht).trans (m.pruned_live k key ht)

theorem meter_none (h : m.meter keys = .ok (m', none)) :
    ∀ key ∈ keys, (m.recent key).length < m.introLimit := by
  induction keys generalizing m with
  | nil => exact fun key hkey => absurd hkey List.not_mem_nil
  | cons k keys ih =>
    unfold meter at h
    dsimp only at h
    split at h
    case isTrue => split at h <;> cases h
    case isFalse hroom =>
      intro key hkey
      rcases List.mem_cons.mp hkey with rfl | hkey
      · exact not_le.mp hroom
      · have hrest : ((m.pruned k).recent key).length < m.introLimit := @ih (m.pruned k) h key hkey
        rwa [pruned_recent] at hrest

theorem meter_some {retryAfter : Nat} (h : m.meter keys = .ok (m', some retryAfter)) :
    ∃ key ∈ keys, ∃ oldest rest, m.recent key = oldest :: rest ∧
      m.introLimit ≤ (m.recent key).length ∧ retryAfter = oldest + m.introWindow - m.now := by
  induction keys generalizing m with
  | nil => cases h
  | cons k keys ih =>
    unfold meter at h
    dsimp only at h
    split at h
    case isTrue hfull =>
      split at h
      case h_1 => cases h
      case h_2 oldest rest heq =>
        cases h
        exact ⟨k, List.mem_cons_self, oldest, rest, heq, hfull, rfl⟩
    case isFalse hroom =>
      obtain ⟨key, hkey, oldest, rest, hrecent, hfull, hretry⟩ := @ih (m.pruned k) h
      rw [pruned_recent] at hrecent hfull
      exact ⟨key, List.mem_cons_of_mem _ hkey, oldest, rest, hrecent, hfull, hretry⟩

theorem logOf_log (hnodup : keys.Nodup) (key : String) :
    (m.log keys).logOf key = m.logOf key ++ if key ∈ keys then [m.now] else [] := by
  have hfold : ∀ (l : Dict String (List Nat)),
      ((keys.foldl (fun l k => l.insert k ((l.lookup k).getD [] ++ [m.now])) l).lookup key).getD [] =
        (l.lookup key).getD [] ++ if key ∈ keys then [m.now] else [] := by
    induction keys with
    | nil => simp
    | cons k keys ih =>
      intro l
      obtain ⟨hk, hnodup⟩ := List.nodup_cons.mp hnodup
      rw [List.foldl_cons, ih hnodup, Dict.lookup_insert_eq]
      by_cases heq : key = k
      case pos =>
        subst heq
        rw [if_pos rfl, if_neg hk, if_pos List.mem_cons_self]
        simp
      case neg =>
        rw [if_neg heq]
        simp only [List.mem_cons, heq, false_or]
  exact hfold m.introLog

end Meter

/-! ## What a step does to the budget -/

/-- What first contact is paid from. -/
structure Purse where
  introLog : Dict String (List Nat)
  introductionsSent : List String
  introLimit : Nat
  introWindow : Nat
  now : Nat

def purse (m : Mailbox) : Purse := ⟨m.introLog, m.introductionsSent, m.introLimit, m.introWindow, m.now⟩

/-- The introductions that are not held yet are added. -/
def Purse.list (p : Purse) (ids : List String) : Purse :=
  { p with introductionsSent := p.introductionsSent ++ ids.filter (· ∉ p.introductionsSent) }

/-- An emission refuses for the rate. -/
def Emit.isRateLimited : Emit → Bool
  | .error _ _ reason _ => reason = "policy.rate-limited"
  | _ => false

def Config.Supported (e : Config) : Prop := ∀ text, e.mode = some text → MailboxMode.parse text ≠ none

inductive BudgetStep (m : Mailbox) : Event → List Emit → Mailbox → Prop
  | quiet {ev out m'} (other : ∀ e, ev ≠ .firstContact e) (same : m'.purse = m.purse) :
      BudgetStep m ev out m'
  | advanced {n out m'} (later : m'.purse = { m.purse with now := m.now + n }) :
      BudgetStep m (.advance n) out m'
  | listed {e out m'} (supported : e.Supported)
      (sent : m'.purse = m.purse.list e.introductionsSent) :
      BudgetStep m (.config e) out m'
  | solicited {e out m'} {s : String} (solicited : m.Solicited e) (session : e.session = some s)
      (accepted : out.any Emit.isRateLimited = false)
      (sent : m'.purse = { m.purse with introductionsSent := m.introductionsSent.erase s }) :
      BudgetStep m (.firstContact e) out m'
  | refused {e m'} {retryAfter : Nat} (unsolicited : ¬ m.Solicited e)
      (meter : m.meter (keysOf e) = .ok (m', some retryAfter)) :
      BudgetStep m (.firstContact e)
        [.error e.sender e.id "policy.rate-limited" (some retryAfter)] m'
  | charged {e out m₁ m'} (unsolicited : ¬ m.Solicited e)
      (meter : m.meter (keysOf e) = .ok (m₁, none)) (accepted : out.any Emit.isRateLimited = false)
      (logged : m'.purse = (m₁.log (keysOf e)).purse) : BudgetStep m (.firstContact e) out m'

section Steps

variable {m m' : Mailbox} {out : List Emit}

theorem hold_purse (e : FirstContact) : (m.hold e).1.purse = m.purse := by
  unfold hold
  split
  case isTrue => rfl
  case isFalse => split <;> rfl

theorem pushes_accepted (depositor : Option String) (c : String) :
    (m.pushes depositor c).any Emit.isRateLimited = false := by
  unfold pushes
  simp [List.any_map, Emit.isRateLimited]

theorem hold_accepted (e : FirstContact) : (m.hold e).2.any Emit.isRateLimited = false := by
  unfold hold
  split
  case isTrue => rfl
  case isFalse =>
    split
    case isTrue => rfl
    case isFalse => exact pushes_accepted _ _

theorem firstContact_budget {e : FirstContact} (h : m.firstContact e = .ok (m', out)) :
    BudgetStep m (.firstContact e) out m' := by
  unfold firstContact at h
  split at h
  case isTrue hs =>
    obtain ⟨s, -, hsession⟩ := hs.2
    obtain rfl := congrArg Prod.fst (Except.ok.inj h)
    obtain rfl := congrArg Prod.snd (Except.ok.inj h)
    refine .solicited hs hsession (hold_accepted e) ?_
    rw [hold_purse, hsession]
    rfl
  case isFalse hs =>
    dsimp only at h
    split at h
    case h_1 => cases h
    case h_2 m₁ _ hm =>
      cases h
      exact .refused hs hm
    case h_3 m₁ hm =>
      obtain rfl := congrArg Prod.fst (Except.ok.inj h)
      obtain rfl := congrArg Prod.snd (Except.ok.inj h)
      exact .charged hs hm (hold_accepted e) (hold_purse e)

theorem dropGroups_purse (l : List String) (m : Mailbox) : (l.foldl dropGroup m).purse = m.purse := by
  induction l generalizing m with
  | nil => rfl
  | cons g l ih => exact ih (m.dropGroup g)

theorem welcome_purse (e : Welcome) : (m.welcome e).1.purse = m.purse := by
  unfold welcome
  split
  case isTrue => rfl
  case isFalse =>
    split
    case h_1 => rfl
    case h_2 =>
      split
      case isTrue => rfl
      case isFalse =>
        split
        case h_1 => rfl
        case h_2 =>
          split
          case isTrue => rfl
          case isFalse =>
            show (m.registerPending e).purse = m.purse
            unfold registerPending
            split <;> rfl

theorem deliver_purse (e : HubDeposit) (reg : Reg) (late : Bool) (out : List Emit) :
    (m.deliver e reg late out).1.purse = m.purse := by
  unfold deliver
  split
  case isTrue => split <;> rfl
  case isFalse =>
    split
    case h_1 => rfl
    case h_2 =>
      split
      case isTrue => rfl
      case isFalse => split <;> rfl

theorem fromCurrent_purse (e : HubDeposit) (reg : Reg) (prev : Previous) (out : List Emit) :
    (m.fromCurrent e reg prev out).1.purse = m.purse := by
  unfold fromCurrent
  split
  case isTrue => rfl
  case isFalse => exact deliver_purse e reg false out

theorem hubDeposit_purse (e : HubDeposit) : (m.hubDeposit e).1.purse = m.purse := by
  unfold hubDeposit
  split
  case isTrue => rfl
  case isFalse =>
    split
    case h_1 => rfl
    case h_2 reg _ =>
      split
      case h_1 =>
        split
        case isTrue => rfl
        case isFalse => exact deliver_purse e reg false []
      case h_2 prev _ =>
        split
        case isTrue =>
          unfold fromPrevious
          split
          case h_1 => rfl
          case h_2 =>
            split
            case isTrue => rfl
            case isFalse => exact deliver_purse e reg _ []
        case isFalse =>
          split
          case isTrue => rfl
          case isFalse =>
            split
            case isTrue =>
              split
              case isTrue => rfl
              case isFalse => exact fromCurrent_purse e _ prev _
            case isFalse => exact fromCurrent_purse e reg prev []

theorem acknowledge_purse {device : String} {ack : Option Int} (h : m.acknowledge device ack = .ok m') :
    m'.purse = m.purse := by
  unfold acknowledge at h
  split at h
  case h_1 =>
    cases h
    rfl
  case h_2 =>
    dsimp only at h
    split at h
    case isTrue =>
      split at h
      case h_1 => cases h
      case h_2 =>
        cases h
        rfl
    case isFalse =>
      cases h
      rfl

theorem sync_purse {e : Sync} (h : m.sync e = .ok (m', out)) : m'.purse = m.purse := by
  unfold sync at h
  split at h
  case h_1 =>
    split at h
    case h_1 => cases h
    case h_2 m₁ hack =>
      cases hp : (m₁.goLive e).page e _ with
      | error fault => rw [hp] at h; cases h
      | ok out' =>
        rw [hp] at h
        cases h
        rw [← acknowledge_purse hack]
        unfold goLive
        split <;> rfl
  case h_2 =>
    cases h
    rfl

theorem applyConfig_purse (e : Config) (mode : MailboxMode) :
    (m.applyConfig e mode).1.purse = m.purse.list e.introductionsSent := by
  unfold applyConfig
  dsimp only
  exact @foldEmit_invariant _ _ _ revokeDevice (fun m' => m'.purse = m.purse.list e.introductionsSent)
    e.revokedDevices (fun _ _ _ h => h) _ rfl

theorem config_budget (e : Config) : BudgetStep m (.config e) (m.config e).2 (m.config e).1 := by
  unfold config
  cases hmode : e.mode with
  | none => exact .listed (by rw [Config.Supported, hmode]; exact nofun) (applyConfig_purse e _)
  | some text =>
    dsimp only
    cases hparse : MailboxMode.parse text with
    | none => exact .quiet nofun rfl
    | some mode =>
      refine .listed ?_ (applyConfig_purse e mode)
      rw [Config.Supported, hmode]
      rintro _ ⟨⟩
      rw [hparse]
      nofun

theorem archive_purse (e : Archive) : (m.archive e).1.purse = m.purse := by
  unfold archive
  split
  case isTrue => rfl
  case isFalse =>
    split
    case h_1 => rfl
    case h_2 => split <;> rfl

theorem kpFetch_purse (e : KpFetch) : (m.kpFetch e).1.purse = m.purse := by
  unfold kpFetch
  split
  case isTrue => rfl
  case isFalse =>
    split
    case isTrue => rfl
    case isFalse =>
      dsimp only
      split <;> rfl

theorem step_budget {ev : Event} (h : m.step ev = .ok (m', out)) : BudgetStep m ev out m' := by
  have hinj {r : Mailbox × List Emit} (he : (Except.ok r : Except Fault _) = .ok (m', out)) :
      r.1 = m' := congrArg Prod.fst (Except.ok.inj he)
  cases ev with
  | firstContact e => exact firstContact_budget h
  | advance n =>
    rw [← hinj h]
    exact .advanced (dropGroups_purse _ _)
  | welcome e => exact .quiet nofun (hinj h ▸ welcome_purse e)
  | hubDeposit e => exact .quiet nofun (hinj h ▸ hubDeposit_purse e)
  | sync e => exact .quiet nofun (sync_purse h)
  | config e =>
    have hconfig := @config_budget m e
    rwa [Except.ok.inj h] at hconfig
  | archive e => exact .quiet nofun (hinj h ▸ archive_purse e)
  | kpUpload e =>
    have hupload : (m.kpUpload e).1.purse = m.purse := by
      unfold kpUpload
      split <;> rfl
    exact .quiet nofun (hinj h ▸ hupload)
  | kpFetch e => exact .quiet nofun (hinj h ▸ kpFetch_purse e)
  | forwardFailed | forward | unbind | restart => exact .quiet nofun (hinj h ▸ rfl)

end Steps

/-! ## What has been charged -/

abbrev ContactMove := TSys.Move Mailbox Event (List Emit)

/-- When a payer was charged for a deposit. -/
def Payer.charges (payer : Payer) (mv : ContactMove) : List Nat :=
  match mv.input with
  | .firstContact e =>
    if payer.Pays e ∧ ¬ mv.before.Solicited e ∧ mv.output.any Emit.isRateLimited = false then
      [mv.before.now]
    else []
  | _ => []

/-- The grant that answers an introduction, and is not charged. -/
def answering (s : String) (mv : ContactMove) : List FirstContact :=
  match mv.input with
  | .firstContact e => if mv.before.Solicited e ∧ e.session = some s then [e] else []
  | _ => []

section Charges

variable {payer : Payer} {m m' : Mailbox} {out : List Emit}

/-- What a payer was charged in all. -/
def Payer.charged (payer : Payer) (p : List ContactMove) : List Nat := p.flatMap payer.charges

theorem charged_snoc (p : List ContactMove) (mv : ContactMove) :
    payer.charged (p ++ [mv]) = payer.charged p ++ payer.charges mv := by
  unfold Payer.charged
  rw [List.flatMap_append, List.flatMap_singleton]

theorem charged_append (p p' : List ContactMove) :
    payer.charged (p ++ p') = payer.charged p ++ payer.charged p' := List.flatMap_append

theorem charges_other {ev : Event} (h : ∀ e, ev ≠ .firstContact e) : payer.charges ⟨m, ev, out, m'⟩ = [] := by
  unfold Payer.charges
  dsimp only
  split
  case h_1 e => exact absurd rfl (h e)
  case h_2 => rfl

theorem charges_solicited {e : FirstContact} (h : m.Solicited e) :
    payer.charges ⟨m, .firstContact e, out, m'⟩ = [] :=
  if_neg fun hc => hc.2.1 h

theorem charges_refused {e : FirstContact} (h : out.any Emit.isRateLimited = true) :
    payer.charges ⟨m, .firstContact e, out, m'⟩ = [] :=
  if_neg fun hc => Bool.noConfusion (hc.2.2.symm.trans h)

theorem charges_admitted {e : FirstContact} (hs : ¬ m.Solicited e)
    (hout : out.any Emit.isRateLimited = false) :
    payer.charges ⟨m, .firstContact e, out, m'⟩ = if payer.Pays e then [m.now] else [] := by
  unfold Payer.charges
  dsimp only
  by_cases hpays : payer.Pays e
  case pos => rw [if_pos hpays, if_pos ⟨hpays, hs, hout⟩]
  case neg => rw [if_neg hpays, if_neg fun hc => hpays hc.1]

end Charges

/-- After a path, the live part of every payer's log is that of what it was charged. -/
structure Budget (ctx : Context) (p : List ContactMove) (m : Mailbox) : Prop where
  limit : m.introLimit = ctx.introLimit
  width : m.introWindow = ctx.introWindow
  bounded : ∀ payer : Payer, Bounded ctx.introWindow ctx.introLimit m.now (payer.charged p)
  recent : ∀ payer : Payer, m.recent payer.key = live ctx.introWindow m.now (payer.charged p)

section Budget

variable {ctx : Context} {p : List ContactMove} {m m' : Mailbox} {ev : Event} {out : List Emit}

theorem budget_init (ctx : Context) : Budget ctx [] (init ctx) where
  limit := rfl
  width := rfl
  bounded _ := .nil
  recent _ := rfl

theorem logOf_congr (h : m'.introLog = m.introLog) (key : String) : m'.logOf key = m.logOf key := by
  unfold logOf
  rw [h]

theorem Budget.uncharged (h : Budget ctx p m) (hcharges : ∀ payer : Payer, payer.charges ⟨m, ev, out, m'⟩ = [])
    (hlimit : m'.introLimit = m.introLimit) (hwidth : m'.introWindow = m.introWindow) (hnow : m.now ≤ m'.now)
    (hlog : ∀ key, live m.introWindow m'.now (m'.logOf key) = live m.introWindow m'.now (m.logOf key)) :
    Budget ctx (p ++ [⟨m, ev, out, m'⟩]) m' := by
  refine ⟨hlimit.trans h.limit, hwidth.trans h.width, fun payer => ?_, fun payer => ?_⟩
  · rw [charged_snoc, hcharges, List.append_nil]
    exact (h.bounded payer).later hnow
  · have hrecent := h.recent payer
    rw [recent_eq, h.width] at hrecent
    rw [charged_snoc, hcharges, List.append_nil, recent_eq, hwidth, hlog, h.width, ← live_live hnow,
      hrecent, live_live hnow]

theorem Budget.unlogged (h : Budget ctx p m) (hcharges : ∀ payer : Payer, payer.charges ⟨m, ev, out, m'⟩ = [])
    {sent : List String} {now : Nat} (hnow : m.now ≤ now)
    (hpurse : m'.purse = { m.purse with introductionsSent := sent, now := now }) :
    Budget ctx (p ++ [⟨m, ev, out, m'⟩]) m' := by
  have hnow' : m'.now = now := congrArg Purse.now hpurse
  refine h.uncharged hcharges (congrArg Purse.introLimit hpurse) (congrArg Purse.introWindow hpurse) ?_ ?_
  · rw [hnow']
    exact hnow
  · intro key
    rw [logOf_congr (congrArg Purse.introLog hpurse)]

theorem Budget.step (h : Budget ctx p m) (hs : BudgetStep m ev out m') :
    Budget ctx (p ++ [⟨m, ev, out, m'⟩]) m' := by
  cases hs with
  | quiet hother hsame => exact h.unlogged (fun _ => charges_other hother) (le_refl _) hsame
  | advanced hlater => exact h.unlogged (fun _ => charges_other nofun) (Nat.le_add_right _ _) hlater
  | listed hsupported hsent => exact h.unlogged (fun _ => charges_other nofun) (le_refl _) hsent
  | solicited hsolicited hsession haccepted hsent =>
    exact h.unlogged (fun _ => charges_solicited hsolicited) (le_refl _) hsent
  | refused hunsolicited hmeter =>
    have hlog := fun key => @meter_live _ _ _ _ hmeter key m.now (le_refl _)
    obtain ⟨log, rfl⟩ := meter_items _ hmeter
    exact h.uncharged (fun _ => charges_refused rfl) rfl rfl (le_refl _) hlog
  | @charged e _ m₁ _ hunsolicited hmeter haccepted hlogged =>
    have hroom := meter_none hmeter
    have hlive := fun key => @meter_live _ _ _ _ hmeter key m.now (le_refl _)
    obtain ⟨log, hm₁⟩ := meter_items _ hmeter
    have hnow : m'.now = m.now := by
      rw [hm₁] at hlogged
      exact congrArg Purse.now hlogged
    have hwidth : m'.introWindow = m.introWindow := by
      rw [hm₁] at hlogged
      exact congrArg Purse.introWindow hlogged
    have hlimit : m'.introLimit = m.introLimit := by
      rw [hm₁] at hlogged
      exact congrArg Purse.introLimit hlogged
    have hnow₁ : m₁.now = m.now := by rw [hm₁]
    refine ⟨hlimit.trans h.limit, hwidth.trans h.width, fun payer => ?_, fun payer => ?_⟩
    · rw [charged_snoc, charges_admitted hunsolicited haccepted, hnow]
      split
      case isTrue hpays =>
        refine (h.bounded payer).snoc ?_
        rw [← h.recent, ← h.limit]
        exact hroom _ (key_mem_keysOf.mpr hpays)
      case isFalse =>
        rw [List.append_nil]
        exact h.bounded payer
    · have hrecent := h.recent payer
      rw [recent_eq, h.width] at hrecent
      rw [charged_snoc, charges_admitted hunsolicited haccepted, recent_eq, hwidth, hnow,
        logOf_congr (congrArg Purse.introLog hlogged), logOf_log (nodup_keysOf e), live_append,
        hlive, h.width, hrecent, live_append, hnow₁]
      simp only [key_mem_keysOf]

theorem budget_path (h : (machine ctx).Path (init ctx) p m) : Budget ctx p m :=
  h.invariant (budget_init ctx) fun _ _ _ _ _ _ hp hs => hp.step (step_budget hs)

end Budget

/-! ## Answers -/

/-- The grants that answered an introduction. -/
def answered (s : String) (p : List ContactMove) : List FirstContact := p.flatMap (answering s)

theorem answered_snoc (s : String) (p : List ContactMove) (mv : ContactMove) :
    answered s (p ++ [mv]) = answered s p ++ answering s mv := by
  unfold answered
  rw [List.flatMap_append, List.flatMap_singleton]

/-- A config lists an introduction that is not held once, and none that was answered. -/
def ListsOnce (p : List ContactMove) (mv : ContactMove) : Prop :=
  ∀ e, mv.input = .config e → e.Supported → ∀ s ∈ e.introductionsSent,
    s ∉ mv.before.introductionsSent → e.introductionsSent.count s = 1 ∧ answered s p = []

section Answers

variable {ctx : Context} {p : List ContactMove} {m m' : Mailbox} {ev : Event} {out : List Emit}

theorem answering_other {s : String} (h : ∀ e, ev ≠ .firstContact e) : answering s ⟨m, ev, out, m'⟩ = [] := by
  unfold answering
  dsimp only
  split
  case h_1 e => exact absurd rfl (h e)
  case h_2 => rfl

/-- An introduction is held or answered, and once. -/
def AnsweredOnce (p : List ContactMove) (m : Mailbox) : Prop :=
  ∀ s, m.introductionsSent.count s + (answered s p).length ≤ 1

theorem AnsweredOnce.step (h : AnsweredOnce p m) (hs : BudgetStep m ev out m')
    (honce : ListsOnce p ⟨m, ev, out, m'⟩) : AnsweredOnce (p ++ [⟨m, ev, out, m'⟩]) m' := by
  intro s
  have hbefore := h s
  rw [answered_snoc, List.length_append]
  cases hs with
  | quiet hother hsame =>
    have hsent : m'.introductionsSent = m.introductionsSent := congrArg Purse.introductionsSent hsame
    rw [answering_other hother, hsent]
    exact hbefore
  | @advanced n _ _ hlater =>
    have hsent : m'.introductionsSent = m.introductionsSent := congrArg Purse.introductionsSent hlater
    have hnone : answering s ⟨m, .advance n, out, m'⟩ = [] := answering_other nofun
    rw [hnone, hsent]
    exact hbefore
  | @listed e _ _ hsupported hlist =>
    have hsent : m'.introductionsSent =
        m.introductionsSent ++ e.introductionsSent.filter (· ∉ m.introductionsSent) :=
      congrArg Purse.introductionsSent hlist
    have hnone : answering s ⟨m, .config e, out, m'⟩ = [] := answering_other nofun
    rw [hnone, hsent, List.count_append, List.length_nil, Nat.add_zero]
    by_cases hadded : s ∈ e.introductionsSent ∧ s ∉ m.introductionsSent
    case pos =>
      obtain ⟨hcount, hopen⟩ := honce e rfl hsupported s hadded.1 hadded.2
      have hfilter : (e.introductionsSent.filter (· ∉ m.introductionsSent)).count s = 1 := by
        rw [List.count_filter (by simpa using hadded.2), hcount]
      rw [hfilter, List.count_eq_zero_of_not_mem hadded.2, hopen, List.length_nil]
    case neg =>
      have hfilter : (e.introductionsSent.filter (· ∉ m.introductionsSent)).count s = 0 := by
        refine List.count_eq_zero_of_not_mem fun hmem => ?_
        obtain ⟨hlisted, hnew⟩ := List.mem_filter.mp hmem
        exact hadded ⟨hlisted, of_decide_eq_true hnew⟩
      rw [hfilter, Nat.add_zero]
      exact hbefore
  | @solicited e _ _ s' hsolicited hsession haccepted hpurse =>
    have hsent : m'.introductionsSent = m.introductionsSent.erase s' :=
      congrArg Purse.introductionsSent hpurse
    have hheld : s' ∈ m.introductionsSent := by
      obtain ⟨held, hmem, hheld⟩ := hsolicited.2
      rwa [← Option.some.inj (hheld.symm.trans hsession)]
    unfold answering
    dsimp only
    rw [hsession, hsent]
    by_cases heq : s' = s
    case pos =>
      subst heq
      have hpos : 0 < m.introductionsSent.count s' := List.count_pos_iff.mpr hheld
      rw [if_pos ⟨hsolicited, rfl⟩, List.count_erase_self, List.length_singleton]
      omega
    case neg =>
      rw [if_neg fun hc => heq (Option.some.inj hc.2), List.count_erase_of_ne (Ne.symm heq),
        List.length_nil, Nat.add_zero]
      exact hbefore
  | refused hunsolicited hmeter =>
    obtain ⟨log, rfl⟩ := meter_items _ hmeter
    unfold answering
    dsimp only
    rw [if_neg fun hc => hunsolicited hc.1]
    exact hbefore
  | charged hunsolicited hmeter haccepted hlogged =>
    obtain ⟨log, rfl⟩ := meter_items _ hmeter
    have hsent : m'.introductionsSent = m.introductionsSent := congrArg Purse.introductionsSent hlogged
    unfold answering
    dsimp only
    rw [if_neg fun hc => hunsolicited hc.1, hsent]
    exact hbefore

theorem answeredOnce_path (h : (machine ctx).Path (init ctx) p m)
    (honce : ∀ p₁ mv p₂, p = p₁ ++ mv :: p₂ → ListsOnce p₁ mv) : AnsweredOnce p m := by
  induction h with
  | nil => exact fun s => Nat.zero_le 1
  | @snoc p m ev out m' _ hs ih =>
    refine AnsweredOnce.step (ih ?_) (step_budget hs) (honce p _ [] rfl)
    rintro p₁ mv p₂ rfl
    exact honce p₁ mv (p₂ ++ [⟨m, ev, out, m'⟩]) (by simp)

end Answers

/-! ## Refusals -/

section Refusals

variable {ctx : Context} {p p' : List ContactMove} {m m' m'' : Mailbox} {e : FirstContact} {out : List Emit}

theorem refused_spec (h : m.firstContact e = .ok (m', out)) (hout : out.any Emit.isRateLimited = true) :
    ∃ retryAfter, out = [.error e.sender e.id "policy.rate-limited" (some retryAfter)] ∧
      m.meter (keysOf e) = .ok (m', some retryAfter) := by
  have hs := firstContact_budget h
  cases hs with
  | quiet other => exact absurd rfl (other e)
  | solicited _ _ haccepted => exact Bool.noConfusion (haccepted.symm.trans hout)
  | refused _ hmeter => exact ⟨_, rfl, hmeter⟩
  | charged _ _ haccepted => exact Bool.noConfusion (haccepted.symm.trans hout)

theorem refused_recent (h : m.firstContact e = .ok (m', out)) (hout : out.any Emit.isRateLimited = true)
    (key : String) {t : Nat} (ht : m.now ≤ t) :
    ({ m' with now := t } : Mailbox).recent key = ({ m with now := t } : Mailbox).recent key := by
  obtain ⟨retryAfter, -, hmeter⟩ := refused_spec h hout
  have hlive := meter_live hmeter key ht
  obtain ⟨log, rfl⟩ := meter_items _ hmeter
  exact hlive

theorem refused_sent (h : m.firstContact e = .ok (m', out)) (hout : out.any Emit.isRateLimited = true) :
    m'.introductionsSent = m.introductionsSent := by
  obtain ⟨retryAfter, -, hmeter⟩ := refused_spec h hout
  obtain ⟨log, rfl⟩ := meter_items _ hmeter
  rfl

theorem exists_payer {key : String} (h : key ∈ keysOf e) : ∃ payer : Payer, payer.key = key ∧ payer.Pays e := by
  rcases List.mem_cons.mp h with rfl | h
  · exact ⟨.sender e.senderIdentity, rfl, rfl⟩
  · obtain rfl := List.mem_singleton.mp h
    exact ⟨.inbox e.recipient, rfl, rfl⟩

theorem refused_retry {retryAfter : Nat} (hp : (machine ctx).Path (init ctx) p m) (h : m.firstContact e =
      .ok (m', [.error e.sender e.id "policy.rate-limited" (some retryAfter)])) :
    ∃ payer : Payer, payer.Pays e ∧ m.introLimit ≤ (m.recent payer.key).length ∧
      ∀ p' m'', (machine ctx).Path m' p' m'' → m.now + retryAfter ≤ m''.now →
        payer.charged p' = [] → (m''.recent payer.key).length < m''.introLimit := by
  obtain ⟨_, heq, hmeter⟩ := refused_spec h rfl
  cases heq
  obtain ⟨key, hkey, oldest, rest, hrecent, hfull, hretry⟩ := meter_some hmeter
  obtain ⟨payer, rfl, hpays⟩ := exists_payer hkey
  refine ⟨payer, hpays, hfull, fun p' m'' hp' hnow hcharged => ?_⟩
  have hstep := TSys.Path.snoc (TSys.Path.nil : (machine ctx).Path m [] m)
    (show (machine ctx).step m (.firstContact e) _ m' from h)
  have hbudget := budget_path hp
  have hlater := budget_path ((hp.append hstep).append hp')
  have hall : payer.charged (p ++ ([] ++ [⟨m, .firstContact e,
      [.error e.sender e.id "policy.rate-limited" (some retryAfter)], m'⟩]) ++ p') = payer.charged p := by
    rw [charged_append, List.nil_append, charged_snoc, charges_refused rfl, hcharged, List.append_nil,
      List.append_nil]
  rw [hlater.recent, hall, hlater.limit]
  rw [hbudget.recent] at hrecent
  rw [hbudget.width] at hretry
  exact (hbudget.bounded payer).room hrecent (by omega) (by omega)

end Refusals

/-- First contact is metered by a sliding window, a refusal costs nothing and says
when there is room again; and where every config lists an introduction once, one
grant answers it unmetered. -/
theorem first_contact_metered (ctx : Context) :
    (∀ p m, (machine ctx).Path (init ctx) p m → ∀ (payer : Payer) t,
        (ending ctx.introWindow t (payer.charged p)).length ≤ ctx.introLimit) ∧
      (∀ (m m' : Mailbox) e out, m.firstContact e = .ok (m', out) → out.any Emit.isRateLimited = true →
        (∀ key t, m.now ≤ t →
            ({ m' with now := t } : Mailbox).recent key = ({ m with now := t } : Mailbox).recent key) ∧
          m'.introductionsSent = m.introductionsSent) ∧
      (∀ p m m' e retryAfter, (machine ctx).Path (init ctx) p m →
        m.firstContact e = .ok (m', [.error e.sender e.id "policy.rate-limited" (some retryAfter)]) →
          ∃ payer : Payer, payer.Pays e ∧ m.introLimit ≤ (m.recent payer.key).length ∧
            ∀ p' m'', (machine ctx).Path m' p' m'' → m.now + retryAfter ≤ m''.now →
              payer.charged p' = [] → (m''.recent payer.key).length < m''.introLimit) ∧
      ∀ p m, (machine ctx).Path (init ctx) p m →
        (∀ p₁ mv p₂, p = p₁ ++ mv :: p₂ → ListsOnce p₁ mv) → ∀ s, (answered s p).length ≤ 1 := by
  refine ⟨?_, ?_, ?_, ?_⟩
  · exact fun p m hp payer t => ((budget_path hp).bounded payer).le t
  · intro m m' e out h hout
    exact ⟨fun key t ht => refused_recent h hout key ht, refused_sent h hout⟩
  · exact fun p m m' e retryAfter hp h => refused_retry hp h
  · intro p m hp honce s
    exact (Nat.le_add_left _ _).trans (answeredOnce_path hp honce s)

/-- A grant of a stranger that names an introduction. -/
def grantFor (id session : String) : Event :=
  .firstContact { id, sender := "c1", senderIdentity := "carol", recipient := "bob", kind := .grant,
                  session := some session, expiresAt := 100 }

/-- The owner's device says which introductions it sent. -/
def listing (id : String) (ids : List String) : Event :=
  .config { id, device := "b1", introductionsSent := ids }

/-- A mailbox that takes one first contact an hour. -/
def strict : Context := { owner := "bob", devices := ["b1"], introLimit := 1 }

theorem path_where {ctx : Context} (evs : List Event) (P : List ContactMove → Bool)
    (h : (TSys.moves? step (init ctx) evs).any (P ·.1) = true) :
    ∃ p m, (machine ctx).Path (init ctx) p m ∧ P p = true := by
  obtain ⟨⟨p, m⟩, hr, hP⟩ := Option.any_eq_true _ _ |>.mp h
  exact ⟨p, m, TSys.moves?_path _ _ hr, hP⟩

/-- Both answers to an introduction that a config lists twice are unmetered, and so
is an answer after one and another config. -/
theorem answered_twice : (∃ p m, (machine strict).Path (init strict) p m ∧ (answered "i" p).length = 2) ∧
      ∃ p m, (machine strict).Path (init strict) p m ∧
        (p.map (·.input)) = [listing "x1" ["i"], grantFor "g1" "i", listing "x2" ["i"], grantFor "g2" "i"] ∧
          (answered "i" p).length = 2 := by
  constructor
  · obtain ⟨p, m, hp, htwo⟩ := @path_where strict
      [listing "x1" ["i", "i"], grantFor "g1" "i", grantFor "g2" "i"]
      (fun p => (answered "i" p).length = 2) (by decide)
    exact ⟨p, m, hp, of_decide_eq_true htwo⟩
  · obtain ⟨p, m, hp, htwo⟩ := @path_where strict
      [listing "x1" ["i"], grantFor "g1" "i", listing "x2" ["i"], grantFor "g2" "i"]
      (fun p => p.map (·.input) =
        [listing "x1" ["i"], grantFor "g1" "i", listing "x2" ["i"], grantFor "g2" "i"] ∧
          (answered "i" p).length = 2) (by decide)
    exact ⟨p, m, hp, of_decide_eq_true htwo⟩

/-- The second grant that names the introduction is metered, and the third refused. -/
theorem first_contact_metered_strict : ∃ p m, (machine strict).Path (init strict) p m ∧
      (∀ (payer : Payer) t, (ending 3600 t (payer.charged p)).length ≤ 1) ∧
        (Payer.inbox "bob").charged p = [0] ∧ ∀ s, (answered s p).length ≤ 1 := by
  obtain ⟨p, m, hp, hinputs⟩ := @path_where strict
    [listing "x1" ["i"], grantFor "g1" "i", grantFor "g2" "i", grantFor "g3" "i"]
    (fun p => p.map (·.input) =
      [listing "x1" ["i"], grantFor "g1" "i", grantFor "g2" "i", grantFor "g3" "i"] ∧
        (Payer.inbox "bob").charged p = [0])
    (by decide)
  obtain ⟨hinputs, hcharged⟩ := of_decide_eq_true hinputs
  refine ⟨p, m, hp, (first_contact_metered strict).1 p m hp, hcharged, ?_⟩
  refine (first_contact_metered strict).2.2.2 p m hp ?_
  rintro p₁ mv p₂ rfl
  cases p₁ with
  | nil =>
    rintro e he - s hs -
    refine ⟨?_, rfl⟩
    obtain ⟨hfirst, -⟩ := List.cons.inj hinputs
    cases hfirst.symm.trans he
    obtain rfl := List.mem_singleton.mp hs
    rfl
  | cons mv₁ p₁ =>
    rintro e he - s hs -
    obtain ⟨-, hrest⟩ := List.cons.inj hinputs
    have hmem : mv.input ∈ [grantFor "g1" "i", grantFor "g2" "i", grantFor "g3" "i"] := by
      rw [← hrest]
      simp
    rw [he] at hmem
    simp [grantFor] at hmem

end Dsip.Messaging.Mailbox
