import Dsip.Routing.Steps

/-!
# The inbox of a relay

`Shift` is what a step does to the inbox: an envelope is queued, the queues of a
recipient are flushed to the device that binds, envelopes expire, a queued
invite is withdrawn, or nothing of the kind happens. `Stored` is what the inbox
is like in every reachable state: an envelope is held under the recipient it is
addressed to, and its arrival number tells it from every other one.
-/

namespace Dsip.Routing

open Dsip.Lib

namespace Relay

variable {r : Relay}

/-! ## Queues -/

variable {r' : Relay}

theorem heldFor_of_inbox {r : Relay} (h : r'.inbox = r.inbox) (dest : String) :
    r'.heldFor dest = r.heldFor dest := by
  unfold heldFor
  rw [h]

theorem heldFor_keep {dest : String} {keep : List Held}
    (h : r'.inbox = if keep = [] then r.inbox.erase dest else r.inbox.insert dest keep)
    (k : String) : r'.heldFor k = if k = dest then keep else r.heldFor k := by
  unfold heldFor
  rw [h]
  split
  case isTrue hk =>
    rw [Dict.lookup_erase_eq]
    split
    case isTrue => exact hk.symm
    case isFalse => rfl
  case isFalse =>
    rw [Dict.lookup_insert_eq]
    split <;> rfl

/-- The envelope `enqueue` makes of a message. -/
def envelope (r : Relay) (dest : String) (m : Message) : Held where
  dest := dest
  msg := m
  arrival := r.arrivals + 1
  deadline := min (m.expiresAt.getD (r.now + r.retention)) (r.now + r.retention)

variable {m : Message}

theorem heldFor_enqueue {dest : String}
    (h : r'.inbox = (r.enqueue dest m).1.inbox) (k : String) : r'.heldFor k =
      if k = dest then r.heldFor dest ++ [r.envelope dest m] else r.heldFor k := by
  unfold heldFor
  rw [h]
  show ((r.inbox.insert dest _).lookup k).getD [] = _
  rw [Dict.lookup_insert_eq]
  split <;> rfl

theorem heldFor_flushed {device identity : String}
    (h : r'.inbox = (r.inbox.erase identity).erase device) (k : String) :
    r'.heldFor k = if k = device ∨ k = identity then [] else r.heldFor k := by
  unfold heldFor
  rw [h, Dict.lookup_erase_eq, Dict.lookup_erase_eq]
  by_cases hd : k = device
  · rw [if_pos hd, if_pos (.inl hd)]
    rfl
  · by_cases hi : k = identity
    · rw [if_neg hd, if_pos hi, if_pos (.inr hi)]
      rfl
    · rw [if_neg hd, if_neg hi, if_neg (not_or.mpr ⟨hd, hi⟩)]

theorem mem_flushed {device identity : String} {h : Held} :
    h ∈ r.flushed device identity ↔ h ∈ r.heldFor identity ∨ h ∈ r.heldFor device := by
  unfold flushed
  rw [List.mem_insertionSort, List.mem_append]
  split
  case isTrue he =>
    rw [he]
    simp
  case isFalse => rfl

/-! ## Expiry -/

/-- The relay without its inbox. -/
def empty (r : Relay) : Relay := { r with inbox := ∅ }

theorem expireQueues_spec (r : Relay) : r.expireQueues.1.empty = r.empty ∧
    (∀ dest, r.expireQueues.1.heldFor dest = (r.heldFor dest).filter fun h => r.now < h.deadline) ∧
    r.expireQueues.2 = r.inbox.sortedKeys.flatMap fun dest =>
      ((r.heldFor dest).filter fun h => h.deadline ≤ r.now).map fun h =>
        .dequeue dest h.msg.type .expired := by
  let turn (env : Relay) (dest : String) (q : List Held) : List Held × List Emit :=
    (q.filter fun h => env.now < h.deadline,
      (q.filter fun h => h.deadline ≤ env.now).map fun h => .dequeue dest h.msg.type .expired)
  have hkeys := @foldEmit_keys _ _ _ _ _ _ heldFor empty expireQueue turn (fun _ _ => rfl) (fun s k => (heldFor_keep rfl k).trans (if_pos rfl))
    (fun s k j hj => (heldFor_keep rfl j).trans (if_neg hj)) (fun _ _ => rfl)
    _ (Dict.nodup_sortedKeys r.inbox) r
  refine ⟨hkeys.1, ?_, hkeys.2.2⟩
  intro dest
  refine (hkeys.2.1 dest).trans ?_
  split
  case isTrue => rfl
  case isFalse hmem =>
    rw [Dict.mem_sortedKeys, ← AList.lookup_eq_none] at hmem
    unfold heldFor
    rw [hmem]
    rfl

/-! ## Forgetting -/

/-- What `forget` leaves alone, and that it can only drop an attempt. -/
structure Forgets (r r' : Relay) : Prop where
  now : r'.now = r.now
  inbox : r'.inbox = r.inbox
  arrivals : r'.arrivals = r.arrivals
  retention : r'.retention = r.retention
  bound : r'.boundFor = r.boundFor
  attempts : ∀ sid, r'.attempts.lookup sid = r.attempts.lookup sid ∨ r'.attempts.lookup sid = none

theorem Forgets.refl (r : Relay) : r.Forgets r := ⟨rfl, rfl, rfl, rfl, rfl, fun _ => .inl rfl⟩

theorem Forgets.trans {r'' : Relay} (h : r.Forgets r') (h' : r'.Forgets r'') : r.Forgets r'' where
  now := h'.now.trans h.now
  inbox := h'.inbox.trans h.inbox
  arrivals := h'.arrivals.trans h.arrivals
  retention := h'.retention.trans h.retention
  bound := h'.bound.trans h.bound
  attempts sid := by
    rcases h'.attempts sid with h₁ | h₁
    · rw [h₁]
      exact h.attempts sid
    · exact .inr h₁

theorem Forgets.foldl {f : Relay → String → Relay} (h : ∀ r k, Forgets r (f r k))
    (ks : List String) : r.Forgets (ks.foldl f r) :=
  List.foldlRecOn ks f (.refl r) fun b hb k _ => hb.trans (h b k)

theorem forgets_forgetAttempt (r : Relay) (sid : String) : r.Forgets (r.forgetAttempt sid) := by
  unfold forgetAttempt
  split
  case h_2 => exact .refl r
  case h_1 =>
    split
    case isFalse => exact .refl r
    case isTrue =>
      refine ⟨rfl, rfl, rfl, rfl, rfl, ?_⟩
      intro k
      show (r.attempts.erase sid).lookup k = _ ∨ (r.attempts.erase sid).lookup k = _
      rw [Dict.lookup_erase_eq]
      split
      case isTrue => exact .inr rfl
      case isFalse => exact .inl rfl

theorem boundFor_forgetRecipient (r : Relay) (who : String) :
    (r.forgetRecipient who).boundFor = r.boundFor := by
  unfold forgetRecipient
  dsimp only
  split
  case h_1 => split <;> rfl
  case h_2 =>
    split
    case isFalse => rfl
    case isTrue hnone =>
      funext identity
      show ((r.bindings.erase who).lookup identity).getD ∅ = _
      rw [Dict.lookup_erase_eq]
      split
      case isTrue h =>
        rw [h]
        exact hnone.symm
      case isFalse => rfl

theorem forgets_forgetRecipient (r : Relay) (who : String) : r.Forgets (r.forgetRecipient who) := by
  refine ⟨?_, ?_, ?_, ?_, boundFor_forgetRecipient r who, fun sid => .inl ?_⟩
  all_goals
    unfold forgetRecipient
    dsimp only
    split <;> split <;> rfl

theorem forgets_forget (r : Relay) : r.Forgets r.forget := by
  unfold forget
  exact (Forgets.foldl forgets_forgetAttempt _).trans (Forgets.foldl forgets_forgetRecipient _)

theorem unbind_rest (r : Relay) (device identity : String) :
    ∃ b l, r.unbind device identity = { r with bindings := b, lastBound := l } := by
  unfold unbind
  dsimp only
  generalize (if identity ∈ r.bindings then
    r.bindings.insert identity ((r.boundFor identity).erase device) else r.bindings) = b
  split
  case isTrue => exact ⟨b, _, rfl⟩
  case isFalse => exact ⟨b, _, rfl⟩

/-! ## What a step does to the inbox -/

/-- A flush delivers every envelope to the device that binds. -/
def handed (device : String) (h : Held) : Emit := .deliver device h.msg.type (some h.msg.id)

inductive Shift (r : Relay) : Event → Relay × List Emit → Prop
  | same {i : Event} {o : Relay × List Emit} (hi : o.1.inbox = r.inbox)
      (ha : o.1.arrivals = r.arrivals) (ho : Plain o.2) : Shift r i o
  | queued {m : Message} {dest : String} {o : Relay × List Emit} (hd : m.dest = some dest)
      (hi : o.1.inbox = (r.enqueue dest m).1.inbox) (ha : o.1.arrivals = r.arrivals + 1)
      (ho : o.2 = [.queue dest m.type]) : Shift r (.recv m) o
  | flushed {device identity : String} {late : List Emit} {o : Relay × List Emit}
      (hi : o.1.inbox = (r.inbox.erase identity).erase device) (ha : o.1.arrivals = r.arrivals)
      (ho : o.2 = (r.flushed device identity).map (handed device) ++ late)
      (hl : ∀ e ∈ late, ∃ sid, e = .deliver device .invite (some sid)) :
      Shift r (.bind device identity) o
  | expired {seconds : Nat} {late : List Emit} {o : Relay × List Emit}
      (hi : ∀ dest, o.1.heldFor dest = (r.heldFor dest).filter fun h => r.now + seconds < h.deadline)
      (ha : o.1.arrivals = r.arrivals)
      (ho : o.2 = (r.inbox.sortedKeys.flatMap fun dest =>
        ((r.heldFor dest).filter fun h => h.deadline ≤ r.now + seconds).map fun h =>
          .dequeue dest h.msg.type .expired) ++ late)
      (hl : Plain late) : Shift r (.advance seconds) o
  | withdrawn {m : Message} {dest : String} {o : Relay × List Emit} (ht : m.type = .cancel)
      (hd : m.dest = some dest) (h : r.cancelQueued m dest = some o) : Shift r (.recv m) o

variable {o : Relay × List Emit}

theorem inbox_of_store (h : r.Tracks o) : o.1.inbox = r.inbox ∧ o.1.arrivals = r.arrivals := by
  have hi : o.1.store.inbox = r.store.inbox := congrArg inbox h.store
  have ha : o.1.store.arrivals = r.store.arrivals := congrArg arrivals h.store
  exact ⟨hi, ha⟩

theorem Tracks.shift {i : Event} (h : r.Tracks o) : Shift r i o :=
  .same (inbox_of_store h).1 (inbox_of_store h).2 h.plain

theorem flushTo_handed (device : String) (r : Relay) (h : Held) :
    (flushTo device r h).2 = [handed device h] := by
  unfold flushTo handed
  cases ht : h.msg.type with
  | invite =>
    dsimp only
    split <;> rfl
  | _ => rfl

theorem foldEmit_flushTo (device : String) (l : List Held) :
    ∀ r, (foldEmit (flushTo device) r l).2 = l.map (handed device) := by
  induction l with
  | nil => exact fun _ => rfl
  | cons h l ih =>
    intro r
    rw [foldEmit_cons, flushTo_handed, ih]
    rfl

theorem lateBind_delivers (device identity : String) (r : Relay) (sid : String) :
    ∀ e ∈ (lateBind device identity r sid).2, ∃ s, e = .deliver device .invite (some s) := by
  unfold lateBind
  split
  case h_1 => exact nofun
  case h_2 =>
    split
    case isFalse => exact nofun
    case isTrue =>
      split
      case h_1 => exact nofun
      case h_2 =>
        split
        case isFalse => exact nofun
        case isTrue =>
          intro e he
          exact ⟨sid, List.mem_singleton.mp he⟩

theorem bind_inbox (r : Relay) (device identity : String) :
    (r.bind device identity).1.inbox = (r.inbox.erase identity).erase device ∧
    (r.bind device identity).1.arrivals = r.arrivals := by
  unfold bind
  dsimp only
  generalize hr : ({ r with
      bindings := r.bindings.insert identity (insert device (r.boundFor identity))
      devices := r.devices.insert device identity
      lastBound := (r.lastBound.erase identity).erase device
      inbox := (r.inbox.erase identity).erase device } : Relay) = r₁
  have hf := tracks_foldEmit (tracks_flushTo device) (r.flushed device identity) r₁
  have hl := tracks_foldEmit (tracks_lateBind device identity)
    (foldEmit (flushTo device) r₁ (r.flushed device identity)).1.attempts.sortedKeys
    (foldEmit (flushTo device) r₁ (r.flushed device identity)).1
  have hboth := inbox_of_store (hf.trans hl)
  have hi : r₁.inbox = (r.inbox.erase identity).erase device := by rw [← hr]
  have ha : r₁.arrivals = r.arrivals := by rw [← hr]
  exact ⟨hboth.1.trans hi, hboth.2.trans ha⟩

theorem bind_out (r : Relay) (device identity : String) : ∃ late : List Emit,
      (r.bind device identity).2 = (r.flushed device identity).map (handed device) ++ late ∧
      ∀ e ∈ late, ∃ sid, e = .deliver device .invite (some sid) :=
  ⟨_, congrArg (· ++ _) (foldEmit_flushTo device _ _),
    foldEmit_forall (fun sid _ s => lateBind_delivers device identity s sid) _⟩

theorem bind_shift (r : Relay) (device identity : String) :
    Shift r (.bind device identity) (r.bind device identity) := by
  obtain ⟨late, ho, hl⟩ := bind_out r device identity
  exact .flushed (bind_inbox r device identity).1 (bind_inbox r device identity).2 ho hl

theorem advance_shift (r : Relay) (seconds : Nat) : Shift r (.advance seconds) (r.advance seconds) := by
  unfold advance
  dsimp only
  obtain ⟨hrest, hheld, hout⟩ := expireQueues_spec { r with now := r.now + seconds }
  generalize ({ r with now := r.now + seconds } : Relay).expireQueues = q at hrest hheld hout
  have ha : q.1.empty.arrivals = r.arrivals := by rw [hrest]; rfl
  have ht := tracks_expireSilentLegs q.1
  have hs := inbox_of_store ht
  have hf := forgets_forget q.1.expireSilentLegs.1
  refine .expired ?_ (hf.arrivals.trans (hs.2.trans ha))
    (congrArg (· ++ _) hout) ht.plain
  intro dest
  rw [heldFor_of_inbox (hf.inbox.trans hs.1)]
  exact hheld dest

theorem Routed.shift {r₀ r : Relay} (h : Routed r m o)
    (hi : r.inbox = r₀.inbox) (ha : r.arrivals = r₀.arrivals)
    (hn : r.now = r₀.now) (hr : r.retention = r₀.retention) : Shift r₀ (.recv m) o := by
  cases h with
  | delivered => exact .same hi ha (plain_map (fun _ => id) _)
  | queued hd =>
    refine .queued hd ?_ (congrArg (· + 1) ha) rfl
    unfold enqueue heldFor
    dsimp only
    rw [hi, ha, hn, hr]
  | unknown => exact .same hi ha (plain_singleton id)

theorem invite_shift (r : Relay) {dest : String} (hd : m.dest = some dest) :
    Shift r (.recv m) (r.recvInvite dest m) := by
  unfold recvInvite
  split
  case h_1 =>
    split
    case isTrue => exact .queued hd rfl rfl rfl
    case isFalse => exact .same rfl rfl (plain_singleton id)
  case h_2 =>
    have ht := tracks_invite { r with invites := r.invites.insert m.id m } m.id m.sender dest
      (r.legsFor dest)
    exact .same (inbox_of_store ht).1 (inbox_of_store ht).2 ht.plain

theorem recv_shift (h : r.recv m = .ok o) : Shift r (.recv m) o := by
  cases recv_outcome h with
  | introduced ht hd =>
    unfold recvIntroduction
    split
    case h_1 => exact .queued hd rfl rfl rfl
    case h_2 => exact .same rfl rfl (plain_map (fun _ => id) _)
  | invited ht hd => exact invite_shift r hd
  | routed ht h => exact h.shift rfl rfl rfl rfl
  | withdrawn ht hd h => exact .withdrawn ht hd h
  | strayed ht hs ha h => exact h.shift rfl rfl rfl rfl
  | cancelled ht hs ha hi => exact (tracks_put r _ (Attempt.cancel_plain _ _ _)).shift
  | leg ht hr hs ha hl => exact (tracks_put r _ (Attempt.fromLeg_plain _ _ _)).shift

theorem step_shift {i : Event} (h : r.step i = .ok o) : Shift r i o := by
  cases i with
  | advance seconds =>
    obtain rfl := Except.ok.inj h
    exact advance_shift r seconds
  | invite session sender dest legs =>
    obtain rfl := Except.ok.inj h
    exact (tracks_invite r session sender dest legs).shift
  | bind device identity =>
    obtain rfl := Except.ok.inj h
    exact bind_shift r device identity
  | unbind device identity =>
    obtain rfl := Except.ok.inj h
    obtain ⟨b, l, h⟩ := unbind_rest r device identity
    exact .same (by rw [h]) (by rw [h]) plain_nil
  | legExpired session leg =>
    obtain rfl := Except.ok.inj h
    exact (tracks_legExpired r session leg).shift
  | recv m => exact recv_shift h

/-- A cancel withdraws the invite of its session from the queue. -/
structure Withdraws (r : Relay) (m : Message) (dest : String) (o : Relay × List Emit) : Prop where
  held : ∀ k, o.1.heldFor k =
    if k = dest then
      (r.heldFor dest).filter fun h => ¬ (h.msg.type = .invite ∧ some h.msg.id = m.session)
    else r.heldFor k
  arrivals : o.1.arrivals = r.arrivals
  out : o.2 = [.dequeue dest .invite .cancelled]
  found : ∃ h ∈ r.heldFor dest, h.msg.type = .invite ∧ some h.msg.id = m.session
  attempts : o.1.attempts = r.attempts

theorem cancelQueued_withdraws {dest : String}
    (h : r.cancelQueued m dest = some o) : Withdraws r m dest o := by
  unfold cancelQueued at h
  dsimp only at h
  split at h
  case isTrue => cases h
  case isFalse hlen =>
    cases h
    refine ⟨heldFor_keep rfl, rfl, rfl, ?_, rfl⟩
    by_contra hnone
    apply hlen
    congr 1
    apply List.filter_eq_self.mpr
    intro h hh
    rw [decide_eq_true_eq]
    exact fun hw => hnone ⟨h, hh, hw⟩

theorem Shift.heldFor {i : Event} (h : Shift r i o) :
    (o.1.arrivals = r.arrivals ∧ ∀ dest, (o.1.heldFor dest).Sublist (r.heldFor dest)) ∨
    ∃ m dest, i = .recv m ∧ m.dest = some dest ∧ o.1.arrivals = r.arrivals + 1 ∧ ∀ k, o.1.heldFor k =
        if k = dest then r.heldFor dest ++ [r.envelope dest m] else r.heldFor k := by
  cases h with
  | same hi ha _ =>
    refine .inl ⟨ha, fun dest => ?_⟩
    rw [heldFor_of_inbox hi]
  | queued hd hi ha _ => exact .inr ⟨_, _, rfl, hd, ha, heldFor_enqueue hi⟩
  | flushed hi ha _ _ =>
    refine .inl ⟨ha, fun dest => ?_⟩
    rw [heldFor_flushed hi]
    split
    case isTrue => exact List.nil_sublist _
    case isFalse => exact List.Sublist.refl _
  | expired hi ha _ _ =>
    refine .inl ⟨ha, fun dest => ?_⟩
    rw [hi]
    exact List.filter_sublist
  | withdrawn _ _ h =>
    have hw := cancelQueued_withdraws h
    refine .inl ⟨hw.arrivals, fun dest => ?_⟩
    rw [hw.held]
    split
    case isTrue hk =>
      rw [hk]
      exact List.filter_sublist
    case isFalse => exact List.Sublist.refl _

structure Stored (r : Relay) : Prop where
  dest : ∀ dest, ∀ h ∈ r.heldFor dest, h.dest = dest
  addressed : ∀ dest, ∀ h ∈ r.heldFor dest, h.msg.dest = some dest
  arrived : ∀ dest, ∀ h ∈ r.heldFor dest, h.arrival ≤ r.arrivals
  ordered : ∀ dest, (r.heldFor dest).Pairwise fun g h => g.arrival < h.arrival
  told : ∀ k k', ∀ g ∈ r.heldFor k, ∀ h ∈ r.heldFor k', g.arrival = h.arrival → g = h

theorem stored_new (ctx : Context) : (Relay.new ctx).Stored := by
  have hnil : ∀ dest, (Relay.new ctx).heldFor dest = [] := fun _ => rfl
  constructor <;> simp [hnil]

theorem Stored.shift {i : Event} (hr : r.Stored) (h : Shift r i o) : o.1.Stored := by
  rcases h.heldFor with ⟨ha, hsub⟩ | ⟨m, d, -, hd, ha, hheld⟩
  · refine ⟨?_, ?_, ?_, ?_, ?_⟩
    · exact fun dest h hh => hr.dest dest h ((hsub dest).subset hh)
    · exact fun dest h hh => hr.addressed dest h ((hsub dest).subset hh)
    · exact fun dest h hh => ha ▸ hr.arrived dest h ((hsub dest).subset hh)
    · exact fun dest => (hr.ordered dest).sublist (hsub dest)
    · exact fun k k' g hg h hh => hr.told k k' g ((hsub k).subset hg) h ((hsub k').subset hh)
  · -- the new envelope is the last to arrive
    have hcases : ∀ k, ∀ h ∈ o.1.heldFor k, h ∈ r.heldFor k ∨ (k = d ∧ h = r.envelope d m) := by
      intro k h hh
      rw [hheld] at hh
      split at hh
      case isFalse => exact .inl hh
      case isTrue hk =>
        rcases List.mem_append.mp hh with hh | hh
        · exact .inl (hk ▸ hh)
        · exact .inr ⟨hk, List.mem_singleton.mp hh⟩
    have hlast : ∀ k, ∀ h ∈ r.heldFor k, h.arrival < (r.envelope d m).arrival :=
      fun k h hh => Nat.lt_succ_of_le (hr.arrived k h hh)
    refine ⟨?_, ?_, ?_, ?_, ?_⟩
    · intro k h hh
      rcases hcases k h hh with hh | ⟨rfl, rfl⟩
      · exact hr.dest k h hh
      · rfl
    · intro k h hh
      rcases hcases k h hh with hh | ⟨rfl, rfl⟩
      · exact hr.addressed k h hh
      · exact hd
    · intro k h hh
      rw [ha]
      rcases hcases k h hh with hh | ⟨rfl, rfl⟩
      · exact Nat.le_succ_of_le (hr.arrived k h hh)
      · exact Nat.le_refl _
    · intro k
      rw [hheld]
      split
      case isFalse => exact hr.ordered k
      case isTrue =>
        refine List.pairwise_append.mpr ⟨hr.ordered d, List.pairwise_singleton _ _, ?_⟩
        intro g hg h hh
        rw [List.mem_singleton.mp hh]
        exact hlast d g hg
    · intro k k' g hg h hh hgh
      rcases hcases k g hg with hg | ⟨rfl, rfl⟩ <;> rcases hcases k' h hh with hh | ⟨rfl, rfl⟩
      · exact hr.told k k' g hg h hh hgh
      · have := hlast k g hg
        omega
      · have := hlast k' h hh
        omega
      · rfl

theorem stored_of_run {ctx : Context} {tr : TSys.Trace Event (List Emit)} {r : Relay}
    (h : machine.Run (.new ctx) tr r) : r.Stored :=
  TSys.Run.invariant (P := fun _ r => r.Stored) (stored_new ctx)
    (fun _ _ _ _ _ _ hr hs => hr.shift (step_shift hs)) h

end Relay

end Dsip.Routing
