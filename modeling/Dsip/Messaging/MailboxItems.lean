import Dsip.Messaging.Cursor

/-!
# What happens to the items of a mailbox

Every step leaves the items alone, stores one more at the end, or keeps some of
them: `ItemsStep` says which, and why the others go. The items stay numbered in
order below the counter (`Numbered`).
-/

namespace Dsip.Messaging.Mailbox

open Dsip.Lib

/-- The item as it is stored next. -/
def placed (m : Mailbox) (item : Item) : Item :=
  { item with cursor := cursor (m.counter + 1), n := m.counter + 1 }

/-- A group-info and an older one of its group. -/
def Supersedes (item it : Item) : Prop := item.cls = .groupInfo ∧ it.group = item.group ∧ it.cls = .groupInfo

instance (item : Item) : DecidablePred (Supersedes item) :=
  fun _ => inferInstanceAs (Decidable (_ ∧ _ ∧ _))

/-- A pending group whose time is over at `now`. -/
def Lapsed (m : Mailbox) (now : Nat) (group : String) : Prop :=
  ∃ reg, m.groups.lookup group = some reg ∧ reg.state = .pending ∧ reg.since + m.pendingTtl < now

/-- What a step does to the items. -/
inductive ItemsStep (m : Mailbox) : Event → Mailbox → Prop
  | same {ev : Event} {m' : Mailbox} (hitems : m'.items = m.items)
      (hcounter : m'.counter = m.counter) (hacks : m'.acks = m.acks) : ItemsStep m ev m'
  | stored {ev : Event} {m' : Mailbox} (item : Item)
      (hitems : m'.items = m.items.filter (fun it => ¬ Supersedes item it) ++ [m.placed item])
      (hcounter : m'.counter = m.counter + 1) (hacks : m'.acks = m.acks)
      (hexpires : item.expiresAt.isSome → item.cls = .introduction ∨ item.cls = .grant) :
      ItemsStep m ev m'
  | advanced {n : Nat} {m' : Mailbox} (p : Item → Bool) (hitems : m'.items = m.items.filter p)
      (hcounter : m'.counter = m.counter) (hacks : m'.acks = m.acks)
      (hgone : ∀ it ∈ m.items, p it = false → (∃ t, it.expiresAt = some t ∧ t ≤ m.now + n) ∨
        (m.Lapsed (m.now + n) it.group ∧ it.cls ≠ .archive)) : ItemsStep m (.advance n) m'
  | acknowledged {e : Sync} {m' : Mailbox} (c : String) (k : Int) (p : Item → Bool)
      (hack : e.ackThrough = some c) (hread : cursorNum c = some k)
      (hitems : m'.items = m.items.filter p) (hcounter : m'.counter = m.counter)
      (hacks : m'.acks = m.acks.insert e.device (max (((m.acks.lookup e.device).getD 0 : Nat) : Int) k).toNat)
      (hgone : ∀ it ∈ m.items, p it = false → m.mode = .queue ∧
        ∀ dv ∈ m.devices, it.n ≤ (m'.acks.lookup dv).getD 0) : ItemsStep m (.sync e) m'

section Steps

variable {m m' : Mailbox} {out : List Emit}

theorem ItemsStep.store {ev : Event} {m₀ : Mailbox} (item : Item) (hitems : m₀.items = m.items)
    (hcounter : m₀.counter = m.counter) (hacks : m₀.acks = m.acks)
    (hexpires : item.expiresAt.isSome → item.cls = .introduction ∨ item.cls = .grant) :
    ItemsStep m ev (m₀.store item).1 := by
  refine .stored item ?_ ?_ hacks hexpires
  · show (if item.cls = .groupInfo then _ else _) ++ _ = _
    unfold placed
    rw [hcounter, hitems]
    congr 1
    by_cases hinfo : item.cls = .groupInfo
    · rw [if_pos hinfo]
      apply List.filter_congr
      intro it _
      simp only [Supersedes, hinfo, true_and]
    · rw [if_neg hinfo, eq_comm, List.filter_eq_self]
      intro it _
      exact decide_eq_true fun h => hinfo h.1
  · show m₀.counter + 1 = _
    rw [hcounter]

theorem meter_items (keys : List String) {m m' : Mailbox} {retry : Option Nat}
    (h : m.meter keys = .ok (m', retry)) : ∃ log, m' = { m with introLog := log } := by
  induction keys generalizing m with
  | nil =>
    cases h
    exact ⟨m'.introLog, rfl⟩
  | cons key keys ih =>
    unfold meter at h
    dsimp only at h
    split at h
    case isTrue =>
      split at h
      case h_1 => cases h
      case h_2 =>
        cases h
        exact ⟨_, rfl⟩
    case isFalse =>
      obtain ⟨log, rfl⟩ := ih h
      exact ⟨log, rfl⟩

theorem hold_items {ev : Event} {m₀ : Mailbox} (e : FirstContact) (hitems : m₀.items = m.items)
    (hcounter : m₀.counter = m.counter) (hacks : m₀.acks = m.acks) : ItemsStep m ev (m₀.hold e).1 := by
  unfold hold
  split
  case isTrue => exact .same hitems hcounter hacks
  case isFalse =>
    split
    case isTrue => exact .same hitems hcounter hacks
    case isFalse =>
      refine ItemsStep.store _ hitems hcounter hacks fun _ => ?_
      cases e.kind with
      | introduction => exact .inl rfl
      | grant => exact .inr rfl

theorem firstContact_items {ev : Event} {e : FirstContact}
    (h : m.firstContact e = .ok (m', out)) : ItemsStep m ev m' := by
  unfold firstContact at h
  split at h
  case isTrue =>
    obtain rfl := congrArg Prod.fst (Except.ok.inj h)
    exact hold_items e rfl rfl rfl
  case isFalse =>
    dsimp only at h
    split at h
    case h_1 => cases h
    case h_2 m₁ _ hm =>
      obtain ⟨log, rfl⟩ := meter_items _ hm
      obtain rfl := congrArg Prod.fst (Except.ok.inj h)
      exact .same rfl rfl rfl
    case h_3 m₁ hm =>
      obtain ⟨log, rfl⟩ := meter_items _ hm
      obtain rfl := congrArg Prod.fst (Except.ok.inj h)
      exact hold_items e rfl rfl rfl

theorem dropGroups_items (l : List String) (m : Mailbox) : (l.foldl dropGroup m).items =
        m.items.filter (fun it => ¬ (it.group ∈ l ∧ it.cls ≠ .archive)) ∧
      (l.foldl dropGroup m).counter = m.counter ∧ (l.foldl dropGroup m).acks = m.acks := by
  induction l generalizing m with
  | nil =>
    refine ⟨(List.filter_eq_self.mpr ?_).symm, rfl, rfl⟩
    intro it _
    exact decide_eq_true fun h => absurd h.1 List.not_mem_nil
  | cons g l ih =>
    obtain ⟨hitems, hcounter, hacks⟩ := ih (m.dropGroup g)
    refine ⟨?_, hcounter, hacks⟩
    rw [List.foldl_cons, hitems]
    show (m.items.filter _).filter _ = _
    rw [List.filter_filter]
    apply List.filter_congr
    intro it _
    simp only [List.mem_cons]
    by_cases hcls : it.cls = .archive <;> by_cases hg : it.group = g <;>
      by_cases hl : it.group ∈ l <;> simp [hcls, hg, hl]

theorem advance_items (m : Mailbox) (n : Nat) : ItemsStep m (.advance n) (m.advance n) := by
  unfold advance
  dsimp only
  generalize hl : lapsed _ = l
  obtain ⟨hitems, hcounter, hacks⟩ := dropGroups_items l { m with
    now := m.now + n
    items := m.items.filter fun it => it.expiresAt.all (m.now + n < ·) }
  rw [List.filter_filter] at hitems
  refine .advanced _ hitems hcounter hacks ?_
  intro it _ hno
  rw [Bool.and_eq_false_iff] at hno
  rcases hno with hno | hno
  · refine .inr ?_
    rw [decide_eq_false_iff_not, not_not] at hno
    refine ⟨?_, hno.2⟩
    have hmem := hno.1
    rw [← hl, lapsed, List.mem_filter, Option.any_eq_true] at hmem
    obtain ⟨-, reg, hreg, hstate⟩ := hmem
    exact ⟨reg, hreg, of_decide_eq_true hstate⟩
  · refine .inl ?_
    cases he : it.expiresAt with
    | none =>
      rw [he] at hno
      cases hno
    | some t =>
      rw [he, Option.all_some, decide_eq_false_iff_not, not_lt] at hno
      exact ⟨t, rfl, hno⟩

theorem welcome_items {ev : Event} (e : Welcome) : ItemsStep m ev (m.welcome e).1 := by
  have hsame : ItemsStep m ev m := .same rfl rfl rfl
  unfold welcome
  split
  case isTrue => exact hsame
  case isFalse =>
    split
    case h_1 => exact hsame
    case h_2 =>
      split
      case isTrue => exact hsame
      case isFalse =>
        split
        case h_1 => exact hsame
        case h_2 =>
          split
          case isTrue => exact hsame
          case isFalse =>
            have hreg : (m.registerPending e).items = m.items ∧
                (m.registerPending e).counter = m.counter ∧ (m.registerPending e).acks = m.acks := by
              unfold registerPending
              split <;> exact ⟨rfl, rfl, rfl⟩
            exact ItemsStep.store _ hreg.1 hreg.2.1 hreg.2.2 nofun

theorem deliver_items {ev : Event} {m₀ : Mailbox} (e : HubDeposit) (reg : Reg) (late : Bool)
    (out : List Emit) (hitems : m₀.items = m.items) (hcounter : m₀.counter = m.counter)
    (hacks : m₀.acks = m.acks) : ItemsStep m ev (m₀.deliver e reg late out).1 := by
  have hsame : ItemsStep m ev m₀ := .same hitems hcounter hacks
  unfold deliver
  split
  case isTrue => split <;> exact hsame
  case isFalse =>
    split
    case h_1 => exact hsame
    case h_2 =>
      split
      case isTrue => exact hsame
      case isFalse =>
        split
        case isTrue => exact hsame
        case isFalse =>
          exact @ItemsStep.store m ev { m₀ with
            groups := m₀.groups.insert e.group (Reg.stored reg e.seq late) } _ hitems hcounter hacks
            nofun

theorem fromCurrent_items {ev : Event} {m₀ : Mailbox} (e : HubDeposit) (reg : Reg)
    (prev : Previous) (out : List Emit) (hitems : m₀.items = m.items)
    (hcounter : m₀.counter = m.counter) (hacks : m₀.acks = m.acks) :
    ItemsStep m ev (m₀.fromCurrent e reg prev out).1 := by
  unfold fromCurrent
  split
  case isTrue => exact .same hitems hcounter hacks
  case isFalse => exact deliver_items e reg false out hitems hcounter hacks

theorem hubDeposit_items {ev : Event} (e : HubDeposit) : ItemsStep m ev (m.hubDeposit e).1 := by
  have hsame : ItemsStep m ev m := .same rfl rfl rfl
  unfold hubDeposit
  split
  case isTrue => exact hsame
  case isFalse =>
    split
    case h_1 => exact hsame
    case h_2 reg _ =>
      split
      case h_1 =>
        split
        case isTrue => exact hsame
        case isFalse => exact deliver_items e reg false [] rfl rfl rfl
      case h_2 prev _ =>
        split
        case isTrue =>
          unfold fromPrevious
          split
          case h_1 => exact hsame
          case h_2 =>
            split
            case isTrue => exact hsame
            case isFalse => exact deliver_items e reg _ [] rfl rfl rfl
        case isFalse =>
          split
          case isTrue => exact hsame
          case isFalse =>
            split
            case isTrue =>
              split
              case isTrue => exact hsame
              case isFalse => exact fromCurrent_items e _ prev _ rfl rfl rfl
            case isFalse => exact fromCurrent_items e reg prev [] rfl rfl rfl

theorem foldl_min_le (as : List Nat) (a : Nat) : as.foldl min a ≤ a ∧ ∀ b ∈ as, as.foldl min a ≤ b := by
  induction as generalizing a with
  | nil => exact ⟨le_rfl, fun b hb => absurd hb List.not_mem_nil⟩
  | cons x as ih =>
    obtain ⟨hle, hall⟩ := ih (min a x)
    refine ⟨hle.trans (min_le_left a x), ?_⟩
    intro b hb
    rcases List.mem_cons.mp hb with rfl | hb
    · exact hle.trans (min_le_right a _)
    · exact hall b hb

theorem acknowledge_items {e : Sync} {c : String} {k : Int} (hack : e.ackThrough = some c)
    (hread : cursorNum c = some k) (h : m.acknowledge e.device (some k) = .ok m') :
    ItemsStep m (.sync e) m' := by
  unfold acknowledge at h
  dsimp only at h
  split at h
  case isTrue hqueue =>
    split at h
    case h_1 => cases h
    case h_2 a as hdevices =>
      obtain rfl := Except.ok.inj h
      refine .acknowledged c k _ hack hread rfl rfl rfl ?_
      intro it _ hno
      refine ⟨hqueue, ?_⟩
      rw [decide_eq_false_iff_not, not_lt] at hno
      intro dv hdv
      have hmem := List.mem_map_of_mem (f := fun dv => ((m.acks.insert e.device
        (max (((m.acks.lookup e.device).getD 0 : Nat) : Int) k).toNat).lookup dv).getD 0) hdv
      rw [hdevices] at hmem
      rcases List.mem_cons.mp hmem with he | hmem
      · exact hno.trans (he ▸ (foldl_min_le as a).1)
      · exact hno.trans ((foldl_min_le as a).2 _ hmem)
  case isFalse =>
    obtain rfl := Except.ok.inj h
    refine .acknowledged c k (fun _ => true) hack hread ?_ rfl rfl ?_
    · exact (List.filter_true m.items).symm
    · intro it _ hno
      cases hno

theorem readCursor_eq {c : Option String} {k : Option Int} (h : m.readCursor c = some k) :
    (c = none ∧ k = none) ∨ ∃ c' k', c = some c' ∧ k = some k' ∧ cursorNum c' = some k' ∧
      k' ≤ (m.counter : Int) := by
  unfold readCursor at h
  split at h
  case h_1 =>
    obtain rfl := Option.some.inj h
    exact .inl ⟨rfl, rfl⟩
  case h_2 c' =>
    obtain ⟨k', hk', rfl⟩ := Option.map_eq_some_iff.mp h
    rw [Option.filter_eq_some_iff] at hk'
    exact .inr ⟨c', k', rfl, rfl, hk'.1, of_decide_eq_true hk'.2⟩

theorem goLive_items (m : Mailbox) (e : Sync) :
    (m.goLive e).items = m.items ∧ (m.goLive e).counter = m.counter ∧ (m.goLive e).acks = m.acks := by
  unfold goLive
  split <;> exact ⟨rfl, rfl, rfl⟩

theorem ItemsStep.congr {ev : Event} {m'' : Mailbox} (h : ItemsStep m ev m')
    (hitems : m''.items = m'.items) (hcounter : m''.counter = m'.counter)
    (hacks : m''.acks = m'.acks) : ItemsStep m ev m'' := by
  cases h with
  | same h₁ h₂ h₃ => exact .same (hitems.trans h₁) (hcounter.trans h₂) (hacks.trans h₃)
  | stored item h₁ h₂ h₃ h₄ =>
    exact .stored item (hitems.trans h₁) (hcounter.trans h₂) (hacks.trans h₃) h₄
  | advanced p h₁ h₂ h₃ h₄ =>
    exact .advanced p (hitems.trans h₁) (hcounter.trans h₂) (hacks.trans h₃) h₄
  | acknowledged c k p hack hread h₁ h₂ h₃ h₄ =>
    refine .acknowledged c k p hack hread (hitems.trans h₁) (hcounter.trans h₂)
      (hacks.trans h₃) ?_
    rw [hacks]
    exact h₄

/-- What a sync that is answered with items comes to. -/
structure Paged (m : Mailbox) (e : Sync) (m' : Mailbox) (out : List Emit) : Prop where
  since : ∃ k, m.readCursor e.since = some k ∧ m'.page e (k.getD 0) = .ok out
  items : ItemsStep m (.sync e) m'

theorem sync_items {e : Sync} (h : m.sync e = .ok (m', out)) :
    (m' = m ∧ out = error e.device e.id "mailbox.cursor-invalid") ∨ m.Paged e m' out := by
  unfold sync at h
  split at h
  case h_2 =>
    obtain ⟨rfl, rfl⟩ := Prod.mk.inj (Except.ok.inj h)
    exact .inl ⟨rfl, rfl⟩
  case h_1 since ack hsince hack =>
    split at h
    case h_1 => cases h
    case h_2 m₁ hm =>
      refine .inr ?_
      cases hpage : (m₁.goLive e).page e (since.getD 0) with
      | error fault =>
        rw [hpage] at h
        cases h
      | ok out₁ =>
        rw [hpage] at h
        obtain ⟨rfl, rfl⟩ := Prod.mk.inj (Except.ok.inj h)
        obtain ⟨hitems, hcounter, hacks⟩ := goLive_items m₁ e
        refine ⟨⟨since, hsince, hpage⟩, ItemsStep.congr ?_ hitems hcounter hacks⟩
        rcases readCursor_eq hack with ⟨-, rfl⟩ | ⟨c, k, hc, rfl, hread, -⟩
        · obtain rfl := Except.ok.inj hm
          exact .same rfl rfl rfl
        · exact acknowledge_items hc hread hm

theorem config_items {ev : Event} (e : Config) : ItemsStep m ev (m.config e).1 := by
  have happly : ∀ mode, ItemsStep m ev (m.applyConfig e mode).1 := by
    intro mode
    have hinv := @foldEmit_invariant _ _ _ revokeDevice
      (fun m' => m'.items = m.items ∧ m'.counter = m.counter ∧ m'.acks = m.acks) e.revokedDevices
      (fun _ _ _ h => h)
    obtain ⟨h₁, h₂, h₃⟩ := hinv { m with
      mode := mode
      admits := e.admits.getD m.admits
      groups := e.groups.foldl (configGroup m.now) m.groups
      revoked := m.revoked ∪ e.revokedGrants.toFinset
      introductionsSent := m.introductionsSent ++
        e.introductionsSent.filter (· ∉ m.introductionsSent) } ⟨rfl, rfl, rfl⟩
    exact .same h₁ h₂ h₃
  unfold config
  split
  case h_1 => exact happly _
  case h_2 =>
    split
    case h_1 => exact .same rfl rfl rfl
    case h_2 => exact happly _

theorem archive_items {ev : Event} (e : Archive) : ItemsStep m ev (m.archive e).1 := by
  unfold archive
  split
  case isTrue => exact .same rfl rfl rfl
  case isFalse =>
    split
    case h_1 => exact .same rfl rfl rfl
    case h_2 =>
      split
      case isTrue => exact .same rfl rfl rfl
      case isFalse =>
        exact (@ItemsStep.store m ev m
          { cursor := "", n := 0, cls := .archive, group := e.refGroup,
            depositor := some e.device, size := e.size } rfl rfl rfl nofun).congr rfl rfl rfl

/-- **Every step**, as the items see it. -/
theorem step_items {ev : Event} (h : m.step ev = .ok (m', out)) : ItemsStep m ev m' := by
  have hfst : ∀ {r : Mailbox × List Emit}, (Except.ok r : Except Fault _) = .ok (m', out) →
      r.1 = m' := fun he => congrArg Prod.fst (Except.ok.inj he)
  cases ev with
  | firstContact e => exact firstContact_items h
  | advance n => exact hfst h ▸ advance_items m n
  | welcome e => exact hfst h ▸ welcome_items e
  | hubDeposit e => exact hfst h ▸ hubDeposit_items e
  | sync e =>
    rcases sync_items h with ⟨rfl, -⟩ | hpaged
    · exact .same rfl rfl rfl
    · exact hpaged.items
  | config e => exact hfst h ▸ config_items e
  | archive e => exact hfst h ▸ archive_items e
  | kpUpload e =>
    have hr : ∀ r, r = m.kpUpload e → r.1.items = m.items ∧ r.1.counter = m.counter ∧ r.1.acks = m.acks := by
      rintro r rfl
      unfold kpUpload
      split <;> exact ⟨rfl, rfl, rfl⟩
    obtain ⟨h₁, h₂, h₃⟩ := hr _ rfl
    exact hfst h ▸ .same h₁ h₂ h₃
  | kpFetch e =>
    have hr : ∀ r, r = m.kpFetch e → r.1.items = m.items ∧ r.1.counter = m.counter ∧ r.1.acks = m.acks := by
      rintro r rfl
      unfold kpFetch
      split
      case isTrue => exact ⟨rfl, rfl, rfl⟩
      case isFalse =>
        split
        case isTrue => exact ⟨rfl, rfl, rfl⟩
        case isFalse =>
          dsimp only
          split <;> exact ⟨rfl, rfl, rfl⟩
    obtain ⟨h₁, h₂, h₃⟩ := hr _ rfl
    exact hfst h ▸ .same h₁ h₂ h₃
  | forwardFailed | forward | unbind | restart => exact hfst h ▸ .same rfl rfl rfl

end Steps

/-! ## Numbering -/

/-- The items are numbered in order, below the counter, and named by their
numbers. -/
structure Numbered (m : Mailbox) : Prop where
  sorted : m.items.Pairwise fun a b => a.n < b.n
  bounded : ∀ it ∈ m.items, 0 < it.n ∧ it.n ≤ m.counter
  named : ∀ it ∈ m.items, it.cursor = cursor it.n
  expiring : ∀ it ∈ m.items, it.expiresAt.isSome → it.cls = .introduction ∨ it.cls = .grant

theorem numbered_init (ctx : Context) : (init ctx).Numbered :=
  ⟨.nil, fun _ h => absurd h List.not_mem_nil, fun _ h => absurd h List.not_mem_nil,
    fun _ h => absurd h List.not_mem_nil⟩

theorem Numbered.filter {m m' : Mailbox} (h : m.Numbered) {p : Item → Bool}
    (hitems : m'.items = m.items.filter p) (hcounter : m.counter ≤ m'.counter) : m'.Numbered := by
  have hsub : ∀ it ∈ m'.items, it ∈ m.items := by
    intro it hit
    rw [hitems] at hit
    exact List.mem_of_mem_filter hit
  refine ⟨?_, fun it hit => ?_, fun it hit => h.named it (hsub it hit),
    fun it hit => h.expiring it (hsub it hit)⟩
  · rw [hitems]
    exact h.sorted.filter p
  · obtain ⟨hpos, hle⟩ := h.bounded it (hsub it hit)
    exact ⟨hpos, hle.trans hcounter⟩

theorem Numbered.step {m m' : Mailbox} {ev : Event} (h : m.Numbered) (hs : ItemsStep m ev m') :
    m'.Numbered := by
  cases hs with
  | same hitems hcounter =>
    exact @Numbered.filter m m' h (fun _ => true) (hitems.trans (List.filter_true _).symm)
      hcounter.ge
  | advanced p hitems hcounter => exact h.filter hitems hcounter.ge
  | acknowledged _ _ p _ _ hitems hcounter => exact h.filter hitems hcounter.ge
  | stored item hitems hcounter _ hexpires =>
    have hkept : ∀ it ∈ m.items.filter (fun it => ¬ Supersedes item it), it ∈ m.items :=
      fun it hit => List.mem_of_mem_filter hit
    have hcases : ∀ it ∈ m'.items, it ∈ m.items ∨ it = m.placed item := by
      intro it hit
      rw [hitems] at hit
      rcases List.mem_append.mp hit with hit | hit
      · exact .inl (hkept it hit)
      · exact .inr (List.mem_singleton.mp hit)
    refine ⟨?_, ?_, ?_, ?_⟩
    · rw [hitems, List.pairwise_append]
      refine ⟨h.sorted.filter _, List.pairwise_singleton _ _, ?_⟩
      intro a ha b hb
      rw [List.mem_singleton.mp hb]
      exact Nat.lt_succ_of_le (h.bounded a (hkept a ha)).2
    · intro it hit
      rw [hcounter]
      rcases hcases it hit with hit | rfl
      · exact ⟨(h.bounded it hit).1, Nat.le_succ_of_le (h.bounded it hit).2⟩
      · exact ⟨Nat.succ_pos _, le_rfl⟩
    · intro it hit
      rcases hcases it hit with hit | rfl
      · exact h.named it hit
      · rfl
    · intro it hit
      rcases hcases it hit with hit | rfl
      · exact h.expiring it hit
      · exact hexpires

theorem numbered (ctx : Context) : (machine ctx).Invariant Numbered := by
  apply TSys.Inductive.invariant
  refine ⟨?_, ?_⟩
  · rintro m rfl
    exact numbered_init ctx
  · intro m ev out m' h hs
    exact h.step (step_items hs)

end Dsip.Messaging.Mailbox
