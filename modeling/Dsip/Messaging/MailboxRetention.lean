import Dsip.Messaging.MailboxItems

/-!
# What a mailbox lets go

An item goes when every registered device has acknowledged it, when it expires,
with its lapsed group, or when a newer group-info replaces it (`Reason`). In
queue mode the acknowledgement is measured by the least over the registered
devices: once none is left there is no least, and the sync is not answered
(`Bare`).
-/

namespace Dsip.Messaging.Mailbox

open Dsip.Lib

abbrev MailboxTrace := TSys.Trace Event (List Emit)

/-- The device acknowledged the number, or one past it, in a sync that was
answered. -/
def Acked (tr : MailboxTrace) (dv : String) (n : Nat) : Prop :=
  ∃ e c k cursors next, (.sync e, [.items e.device e.id cursors next]) ∈ tr ∧ e.device = dv ∧
    e.ackThrough = some c ∧ cursorNum c = some k ∧ (n : Int) ≤ k

inductive Reason (tr : MailboxTrace) (m : Mailbox) (ev : Event) (out : List Emit) (m' : Mailbox)
    (it : Item) : Prop
  | acknowledged {e : Sync} (hev : ev = .sync e) (hmode : m.mode = .queue)
      (hall : ∀ dv ∈ m.devices, Acked (tr ++ [(ev, out)]) dv it.n)
  | expired {n t : Nat} (hev : ev = .advance n) (hcls : it.cls = .introduction ∨ it.cls = .grant)
      (ht : it.expiresAt = some t) (hle : t ≤ m.now + n)
  | lapsed {n : Nat} (hev : ev = .advance n) (hgroup : m.Lapsed (m.now + n) it.group)
      (hcls : it.cls ≠ .archive)
  | replaced {newer : Item} (hmem : newer ∈ m'.items) (hnewer : newer.cls = .groupInfo)
      (hcls : it.cls = .groupInfo) (hgroup : newer.group = it.group) (hlt : it.n < newer.n)

/-- An acknowledgement in queue mode with no device registered. -/
def Bare (m : Mailbox) (e : Sync) : Prop :=
  (m.readCursor e.since).isSome ∧ (m.readCursor e.ackThrough).any (·.isSome) ∧
    m.mode = .queue ∧ m.devices = []

instance (m : Mailbox) : DecidablePred m.Bare :=
  fun _ => inferInstanceAs (Decidable (_ ∧ _ ∧ _ ∧ _))

section Answers

variable {m m' : Mailbox} {e : Sync} {out : List Emit}

theorem page_spec (m : Mailbox) {e : Sync} (hl : 1 ≤ e.limit) (since : Int) :
    ∃ cursors next, m.page e since = .ok [.items e.device e.id cursors next] := by
  unfold page
  dsimp only
  split
  case isFalse => exact ⟨_, none, rfl⟩
  case isTrue hlt =>
    split
    case h_2 last _ => exact ⟨_, some last.cursor, rfl⟩
    case h_1 hnone =>
      have hlength := congrArg List.length (List.getLast?_eq_none_iff.mp hnone)
      rw [List.length_take, List.length_nil] at hlength
      omega

theorem page_out {since : Int} (h : m.page e since = .ok out) :
    ∃ cursors next, out = [.items e.device e.id cursors next] := by
  unfold page at h
  dsimp only at h
  split at h
  case isFalse =>
    obtain rfl := Except.ok.inj h
    exact ⟨_, none, rfl⟩
  case isTrue =>
    split at h
    case h_1 => cases h
    case h_2 last _ =>
      obtain rfl := Except.ok.inj h
      exact ⟨_, some last.cursor, rfl⟩

theorem acknowledge_fails_iff (m : Mailbox) (device : String) (ack : Option Int) :
    (∃ fault, m.acknowledge device ack = .error fault) ↔ ack.isSome ∧ m.mode = .queue ∧ m.devices = [] := by
  cases ack with
  | none =>
    refine ⟨?_, ?_⟩
    · rintro ⟨_, h⟩
      cases h
    · intro h
      cases h.1
  | some k =>
    unfold acknowledge
    dsimp only
    split
    case isFalse hmode =>
      refine ⟨?_, fun h => absurd h.2.1 hmode⟩
      rintro ⟨_, h⟩
      cases h
    case isTrue hmode =>
      split
      case h_1 hnone =>
        exact ⟨fun _ => ⟨rfl, hmode, List.map_eq_nil_iff.mp hnone⟩, fun _ => ⟨_, rfl⟩⟩
      case h_2 a as hsome =>
        refine ⟨?_, ?_⟩
        · rintro ⟨_, h⟩
          cases h
        · intro h
          rw [h.2.2] at hsome
          cases hsome

theorem sync_answered_iff (hl : 1 ≤ e.limit) : (∃ m' x, m.sync e = .ok (m', [x])) ↔ ¬ m.Bare e := by
  unfold sync Bare
  split
  case h_2 hinvalid =>
    refine ⟨fun _ h => ?_, fun _ => ⟨m, _, rfl⟩⟩
    obtain ⟨since, hsince⟩ := Option.isSome_iff_exists.mp h.1
    obtain ⟨ack, hack, -⟩ := (Option.any_eq_true _ _).mp h.2.1
    exact hinvalid since ack hsince hack
  case h_1 since ack hsince hack =>
    rw [hsince, hack, Option.any_some]
    have hiff := acknowledge_fails_iff m e.device ack
    cases hm : m.acknowledge e.device ack with
    | error fault =>
      refine ⟨?_, fun hno => absurd ⟨rfl, hiff.mp ⟨fault, hm⟩⟩ hno⟩
      rintro ⟨_, _, h⟩
      cases h
    | ok m₁ =>
      obtain ⟨cursors, next, hpage⟩ := page_spec (m₁.goLive e) hl (since.getD 0)
      refine ⟨fun _ h => ?_, fun _ => ?_⟩
      · obtain ⟨fault, hfault⟩ := hiff.mpr h.2
        rw [hm] at hfault
        cases hfault
      · dsimp only
        rw [hpage]
        exact ⟨_, _, rfl⟩

/-! ## Acknowledgements along a run -/

variable {tr : MailboxTrace}

theorem Acked.snoc {dv : String} {n : Nat} (h : Acked tr dv n)
    (x : Event × List Emit) : Acked (tr ++ [x]) dv n := by
  obtain ⟨e, c, k, cursors, next, hmem, h⟩ := h
  exact ⟨e, c, k, cursors, next, List.mem_append_left _ hmem, h⟩

/-- What the mailbox recorded was acknowledged. -/
def Honest (tr : MailboxTrace) (m : Mailbox) : Prop :=
  ∀ dv a, m.acks.lookup dv = some a → 0 < a → Acked tr dv a

theorem Honest.step {ev : Event} (h : Honest tr m)
    (hs : m.step ev = .ok (m', out)) : Honest (tr ++ [(ev, out)]) m' := by
  have hsame : m'.acks = m.acks → Honest (tr ++ [(ev, out)]) m' := by
    intro hacks dv a ha hpos
    rw [hacks] at ha
    exact (h dv a ha hpos).snoc _
  have hitems := step_items hs
  cases hitems with
  | same _ _ hacks => exact hsame hacks
  | stored _ _ _ hacks => exact hsame hacks
  | advanced _ _ _ hacks => exact hsame hacks
  | @acknowledged e _ c k p hack hread _ _ hacks =>
    rcases sync_items hs with ⟨rfl, rfl⟩ | hpaged
    · exact hsame rfl
    · obtain ⟨_, -, hpage⟩ := hpaged.since
      obtain ⟨cursors, next, rfl⟩ := page_out hpage
      intro dv a ha hpos
      rw [hacks, Dict.lookup_insert_eq] at ha
      split at ha
      case isFalse => exact (h dv a ha hpos).snoc _
      case isTrue hdv =>
        subst hdv
        obtain rfl := Option.some.inj ha
        by_cases hle : k ≤ (((m.acks.lookup e.device).getD 0 : Nat) : Int)
        · -- an acknowledgement below an earlier one changes nothing
          rw [max_eq_left hle, Int.toNat_natCast] at hpos ⊢
          cases hold : m.acks.lookup e.device with
          | none =>
            rw [hold] at hpos
            exact absurd hpos (lt_irrefl 0)
          | some b =>
            rw [hold] at hpos
            exact (h _ b hold hpos).snoc _
        · rw [not_le] at hle
          rw [max_eq_right hle.le]
          exact ⟨e, c, k, cursors, next, List.mem_append_right _ List.mem_cons_self, rfl, hack,
            hread, by omega⟩

theorem honest_of_run {ctx : Context} (h : (machine ctx).Run (init ctx) tr m) : Honest tr m := by
  refine TSys.Run.invariant (P := Honest) ?_ ?_ h
  · intro dv a ha
    cases ha
  · intro tr m ev out m' _ hh hs
    exact hh.step hs

theorem reason_of_step {ctx : Context} {ev : Event}
    (h : (machine ctx).Run (init ctx) tr m) (hs : m.step ev = .ok (m', out)) {it : Item}
    (hit : it ∈ m.items) (hno : it ∉ m'.items) : Reason tr m ev out m' it := by
  have hnumbered := numbered ctx m (h.reachable (.init rfl))
  have hhonest := (honest_of_run h).step hs
  have hp : ∀ {p : Item → Bool}, m'.items = m.items.filter p → p it = false := by
    intro p hitems
    rw [hitems, List.mem_filter] at hno
    exact Bool.eq_false_iff.mpr fun htrue => hno ⟨hit, htrue⟩
  have hitems := step_items hs
  cases hitems with
  | same hitems => exact absurd (hitems ▸ hit) hno
  | stored item hitems =>
    have hover : Supersedes item it := by
      by_contra hnot
      refine hno ?_
      rw [hitems]
      exact List.mem_append_left _ (List.mem_filter.mpr ⟨hit, decide_eq_true hnot⟩)
    refine @Reason.replaced tr m ev out m' it (m.placed item) ?_ hover.1 hover.2.2 hover.2.1.symm ?_
    · rw [hitems]
      exact List.mem_append_right _ List.mem_cons_self
    · exact Nat.lt_succ_of_le (hnumbered.bounded it hit).2
  | advanced p hitems _ _ hgone =>
    rcases hgone it hit (hp hitems) with ⟨t, ht, hle⟩ | ⟨hlapsed, hcls⟩
    · exact .expired rfl (hnumbered.expiring it hit (by rw [ht]; rfl)) ht hle
    · exact .lapsed rfl hlapsed hcls
  | acknowledged c k p _ _ hitems _ _ hgone =>
    obtain ⟨hmode, hall⟩ := hgone it hit (hp hitems)
    refine .acknowledged rfl hmode ?_
    intro dv hdv
    have hpos := (hnumbered.bounded it hit).1
    have hle := hall dv hdv
    cases ha : m'.acks.lookup dv with
    | none =>
      rw [ha, Option.getD_none] at hle
      omega
    | some a =>
      rw [ha, Option.getD_some] at hle
      obtain ⟨e', c', k', cursors, next, hmem, hdv', hc', hread, hk'⟩ := hhonest dv a ha (hpos.trans_le hle)
      exact ⟨e', c', k', cursors, next, hmem, hdv', hc', hread, by omega⟩

end Answers

/-- **A mailbox discards nothing unacknowledged**; and a sync is answered exactly
when it is not an acknowledgement in queue mode with no device registered. -/
theorem discards_nothing_unacknowledged {ctx : Context} {tr : MailboxTrace} {m : Mailbox}
    (h : (machine ctx).Run (init ctx) tr m) :
    (∀ ev out m', (machine ctx).step m ev out m' → ∀ it ∈ m.items, it ∉ m'.items → Reason tr m ev out m' it) ∧
    ∀ e : Sync, 1 ≤ e.limit → ((∃ m' x, (machine ctx).step m (.sync e) [x] m') ↔ ¬ m.Bare e) :=
  ⟨fun _ _ _ hs _ hit hno => reason_of_step h hs hit hno, fun _ hl => sync_answered_iff hl⟩

/-! ## Two devices -/

def queueContext (devices : List String) : Context :=
  { owner := "did:bob", devices, mode := .queue, groups := Dict.ofList [("g", "did:hub", .joined)] }

def ordered : Event :=
  .hubDeposit
    { id := "h", sender := "did:hub", recipient := "did:bob", group := "g", seq := some 1,
      cls := .application }

def ackedBy (device ack : String) : Event := .sync { id := "s", device, ackThrough := some ack }

/-- An item that both devices acknowledged goes, and a further sync is
answered. -/
theorem discards_nothing_unacknowledged_two :
    ∃ tr m, (machine (queueContext ["d1", "d2"])).Run (init (queueContext ["d1", "d2"])) tr m ∧
      m.counter = 1 ∧ m.items = [] ∧
      ∃ m' x, (machine (queueContext ["d1", "d2"])).step m
        (ackedBy "d2" "c:0000000000000001") [x] m' := by
  obtain ⟨tr, m, hrun, hp⟩ := TSys.exec?_runWhere step (fun _ _ _ => True)
    (· = init (queueContext ["d1", "d2"])) (init (queueContext ["d1", "d2"]))
    [ordered, ackedBy "d1" "c:0000000000000001", ackedBy "d2" "c:0000000000000001"]
    (fun r => r.2.counter = 1 && r.2.items = [] && r.2.devices ≠ []) (by decide +kernel)
    (by decide +kernel)
  simp only [Bool.and_eq_true, decide_eq_true_eq] at hp
  obtain ⟨⟨hcounter, hitems⟩, hdevices⟩ := hp
  refine ⟨tr, m, hrun, hcounter, hitems, ?_⟩
  exact ((discards_nothing_unacknowledged hrun).2 _ (by decide)).mpr fun hbare =>
    hdevices hbare.2.2.2

/-- With its only device revoked, the mailbox does not answer its sync. -/
theorem sync_unanswered : ∃ tr m, (machine (queueContext ["d1"])).Run (init (queueContext ["d1"])) tr m ∧
      m.step (ackedBy "d1" "c:0000000000000001") = .error .noDevices := by
  obtain ⟨tr, m, hrun, hp⟩ := TSys.exec?_runWhere step (fun _ _ _ => True)
    (· = init (queueContext ["d1"])) (init (queueContext ["d1"]))
    [ordered, .config { id := "c", device := "d1", revokedDevices := ["d1"] }]
    (fun r => match r.2.step (ackedBy "d1" "c:0000000000000001") with
      | .error fault => fault = .noDevices
      | .ok _ => false) (by decide +kernel) (by decide +kernel)
  refine ⟨tr, m, hrun, ?_⟩
  split at hp
  case h_1 fault he =>
    rw [he, of_decide_eq_true hp]
  case h_2 => cases hp

end Dsip.Messaging.Mailbox
