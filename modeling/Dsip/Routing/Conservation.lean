import Dsip.Routing.Inbox

/-!
# What becomes of a queued envelope

An envelope that is queued stays in the inbox until one step takes it out, with
one of three fates (`Fate`): a bind flushes it, it expires, or, being an invite,
its cancel withdraws it. `conserved` follows an envelope from the step that
queued it. A flush is in the order of arrival (`flushed_in_order`), and the relay
keeps knowing a recipient it holds something for or that is bound
(`known_kept`).
-/

namespace Dsip.Routing

open Dsip.Lib

namespace Relay

variable {r : Relay}

/-- The relay holds the envelope. -/
def Holds (r : Relay) (h : Held) : Prop := h ∈ r.heldFor h.dest

theorem Stored.holds (hr : r.Stored) {dest : String} {h : Held} (hh : h ∈ r.heldFor dest) : r.Holds h := by
  unfold Holds
  rw [hr.dest dest h hh]
  exact hh

theorem Stored.nodup (hr : r.Stored) (dest : String) : (r.heldFor dest).Nodup := by
  refine (hr.ordered dest).imp ?_
  rintro g h hlt rfl
  exact Nat.lt_irrefl _ hlt

/-! ## A flush -/

theorem Stored.flushed_nodup (hr : r.Stored) (device identity : String) :
    (r.flushed device identity).Nodup := by
  unfold flushed
  rw [(List.perm_insertionSort _ _).nodup_iff]
  refine List.Nodup.append (hr.nodup identity) ?_ ?_
  · split
    case isTrue => exact List.nodup_nil
    case isFalse => exact hr.nodup device
  · intro h hi hd
    split at hd
    case isTrue => cases hd
    case isFalse hne =>
      exact hne ((hr.dest device h hd).symm.trans (hr.dest identity h hi))

theorem Stored.mem_flushed_iff (hr : r.Stored) {device identity : String} {h : Held} :
    h ∈ r.flushed device identity ↔ r.Holds h ∧ (h.dest = identity ∨ h.dest = device) := by
  rw [mem_flushed]
  constructor
  · rintro (hh | hh)
    · exact ⟨hr.holds hh, .inl (hr.dest _ h hh)⟩
    · exact ⟨hr.holds hh, .inr (hr.dest _ h hh)⟩
  · rintro ⟨hh, hd | hd⟩
    · exact .inl (hd ▸ hh)
    · exact .inr (hd ▸ hh)

theorem Stored.flushed_sorted (hr : r.Stored) (device identity : String) :
    (r.flushed device identity).Pairwise fun g h => g.arrival < h.arrival := by
  have hsorted : (r.flushed device identity).Pairwise fun g h => g.arrival ≤ h.arrival := by
    have : Std.Total fun g h : Held => g.arrival ≤ h.arrival := ⟨fun g h => Nat.le_total _ _⟩
    have : IsTrans Held fun g h => g.arrival ≤ h.arrival := ⟨fun _ _ _ => Nat.le_trans⟩
    exact List.pairwise_insertionSort _ _
  refine (hsorted.and (hr.flushed_nodup device identity)).imp_of_mem ?_
  rintro g h hg hh ⟨hle, hne⟩
  have hg' := (hr.mem_flushed_iff.mp hg).1
  have hh' := (hr.mem_flushed_iff.mp hh).1
  have hneq : g.arrival ≠ h.arrival := fun heq => hne (hr.told _ _ g hg' h hh' heq)
  omega

/-! ## Expiry -/

/-- What has expired at a time, in the order it is dequeued. -/
def overdue (r : Relay) (now : Nat) : List Held :=
  r.inbox.sortedKeys.flatMap fun dest => (r.heldFor dest).filter fun h => h.deadline ≤ now

theorem Stored.overdue_nodup (hr : r.Stored) (now : Nat) : (r.overdue now).Nodup := by
  refine List.nodup_flatMap.mpr ⟨fun dest _ => (hr.nodup dest).filter _, ?_⟩
  refine (Dict.nodup_sortedKeys r.inbox).imp ?_
  intro d d' hne h hd hd'
  have h₁ := hr.dest d h (List.mem_of_mem_filter hd)
  have h₂ := hr.dest d' h (List.mem_of_mem_filter hd')
  exact hne (h₁.symm.trans h₂)

theorem mem_inbox_of_holds {h : Held} (hh : r.Holds h) : h.dest ∈ r.inbox := by
  by_contra hno
  unfold Holds heldFor at hh
  rw [AList.lookup_eq_none.mpr hno] at hh
  cases hh

theorem Stored.mem_overdue (hr : r.Stored) {now : Nat} {h : Held} :
    h ∈ r.overdue now ↔ r.Holds h ∧ h.deadline ≤ now := by
  unfold overdue
  rw [List.mem_flatMap]
  constructor
  · rintro ⟨dest, -, hh⟩
    rw [List.mem_filter, decide_eq_true_eq] at hh
    exact ⟨hr.holds hh.1, hh.2⟩
  · rintro ⟨hh, hd⟩
    refine ⟨h.dest, Dict.mem_sortedKeys.mpr (mem_inbox_of_holds hh), ?_⟩
    rw [List.mem_filter, decide_eq_true_eq]
    exact ⟨hh, hd⟩

theorem Stored.overdue_out (hr : r.Stored) (now : Nat) : (r.inbox.sortedKeys.flatMap fun dest =>
      ((r.heldFor dest).filter fun h => h.deadline ≤ now).map fun h =>
        Emit.dequeue dest h.msg.type .expired) =
    (r.overdue now).map fun h => .dequeue h.dest h.msg.type .expired := by
  unfold overdue
  rw [List.map_flatMap]
  apply List.flatMap_congr
  intro dest _
  apply List.map_congr_left
  intro h hh
  rw [hr.dest dest h (List.mem_of_mem_filter hh)]

/-! ## Fates -/

/-- How an envelope leaves the inbox: what the step read and what it wrote. -/
inductive Fate (r : Relay) (h : Held) : Event → List Emit → Prop
  /-- Every envelope flushed is delivered once, to the device that binds. What
  follows are the invites of live attempts. -/
  | flushed {device identity : String} {late : List Emit}
      (hin : h ∈ r.flushed device identity) (hone : (r.flushed device identity).Nodup)
      (hl : ∀ e ∈ late, ∃ sid, e = .deliver device .invite (some sid)) :
      Fate r h (.bind device identity) ((r.flushed device identity).map (handed device) ++ late)
  | expired {seconds : Nat} {late : List Emit} (hd : h.deadline ≤ r.now + seconds)
      (hin : h ∈ r.overdue (r.now + seconds)) (hone : (r.overdue (r.now + seconds)).Nodup)
      (hl : Plain late) :
      Fate r h (.advance seconds)
        (((r.overdue (r.now + seconds)).map fun h => .dequeue h.dest h.msg.type .expired) ++ late)
  | withdrawn {m : Message} (ht : m.type = .cancel) (hi : h.msg.type = .invite)
      (hs : m.session = some h.msg.id) (hd : m.dest = some h.dest) :
      Fate r h (.recv m) [.dequeue h.dest .invite .cancelled]

variable {i : Event} {o : Relay × List Emit}

theorem Stored.fate (hr : r.Stored) (hs : Shift r i o)
    {h : Held} (hh : r.Holds h) : o.1.Holds h ∨ ¬ o.1.Holds h ∧ Fate r h i o.2 := by
  by_cases hstay : o.1.Holds h
  · exact .inl hstay
  refine .inr ⟨hstay, ?_⟩
  unfold Holds at hstay
  cases hs with
  | same hi =>
    rw [heldFor_of_inbox hi] at hstay
    exact absurd hh hstay
  | queued _ hi =>
    rw [heldFor_enqueue hi] at hstay
    split at hstay
    case isTrue hd => exact absurd (List.mem_append_left _ (hd ▸ hh)) hstay
    case isFalse => exact absurd hh hstay
  | flushed hi _ ho hl =>
    rw [heldFor_flushed hi] at hstay
    split at hstay
    case isFalse => exact absurd hh hstay
    case isTrue hd =>
      rw [ho]
      exact .flushed (hr.mem_flushed_iff.mpr ⟨hh, hd.symm⟩) (hr.flushed_nodup _ _) hl
  | expired hi _ ho hl =>
    rw [hi, List.mem_filter, decide_eq_true_eq] at hstay
    have hd := Nat.le_of_not_lt fun hlt => hstay ⟨hh, hlt⟩
    rw [ho, hr.overdue_out]
    exact .expired hd (hr.mem_overdue.mpr ⟨hh, hd⟩) (hr.overdue_nodup _) hl
  | @withdrawn m dest _ ht hd hw =>
    have hw := cancelQueued_withdraws hw
    rw [hw.held] at hstay
    split at hstay
    case isFalse => exact absurd hh hstay
    case isTrue hk =>
      rw [List.mem_filter, decide_eq_true_eq, not_and, not_not] at hstay
      obtain ⟨hi, hs⟩ := hstay (hk ▸ hh)
      rw [hw.out, ← hk]
      exact .withdrawn ht hi hs.symm (hk ▸ hd)

theorem Shift.arrivals_le (h : Shift r i o) : r.arrivals ≤ o.1.arrivals := by
  rcases h.heldFor with ⟨ha, -⟩ | ⟨_, _, -, -, ha, -⟩
  · exact ha.ge
  · omega

theorem Shift.gone (hs : Shift r i o) {h : Held} (hh : ¬ r.Holds h) (ha : h.arrival ≤ r.arrivals) :
    ¬ o.1.Holds h ∧ h.arrival ≤ o.1.arrivals := by
  rcases hs.heldFor with ⟨harr, hsub⟩ | ⟨m, dest, -, -, harr, hheld⟩
  · exact ⟨fun hin => hh ((hsub _).subset hin), harr ▸ ha⟩
  · refine ⟨?_, by omega⟩
    unfold Holds
    rw [hheld]
    split
    case isFalse => exact hh
    case isTrue hd =>
      intro hin
      rcases List.mem_append.mp hin with hin | hin
      · apply hh
        unfold Holds
        rwa [hd]
      · -- the one that is new has a new arrival number
        have harrival : h.arrival = r.arrivals + 1 := by
          rw [List.mem_singleton.mp hin]
          rfl
        omega

/-! ## Known recipients -/

/-- A device is bound for the recipient, or it is a bound device. -/
def Bound (r : Relay) (dest : String) : Prop :=
  r.boundFor dest ≠ ∅ ∨ ∃ identity, r.devices.lookup dest = some identity ∧ dest ∈ r.boundFor identity

theorem known_iff {dest : String} : r.known dest = true ↔ dest ∈ r.bindings ∨ dest ∈ r.devices := by
  simp [known]

theorem known_of_bound {dest : String} (h : r.Bound dest) : r.known dest = true := by
  rw [known_iff]
  rcases h with h | ⟨identity, hd, -⟩
  · left
    by_contra hno
    apply h
    unfold boundFor
    rw [AList.lookup_eq_none.mpr hno]
    rfl
  · exact .inr (Dict.mem_iff_lookup.mpr ⟨identity, hd⟩)

theorem lookup_devices_forgetRecipient (r : Relay) (who dest : String) :
    (r.forgetRecipient who).devices.lookup dest = r.devices.lookup dest ∨
    who = dest ∧ ∃ identity, r.devices.lookup dest = some identity ∧ dest ∉ r.boundFor identity := by
  unfold forgetRecipient
  dsimp only
  cases hd : r.devices.lookup who with
  | none =>
    dsimp only
    split <;> exact .inl rfl
  | some identity =>
    dsimp only
    split
    case isTrue => exact .inl rfl
    case isFalse hno =>
      by_cases hw : who = dest
      · subst hw
        exact .inr ⟨rfl, identity, hd, hno⟩
      · left
        show (r.devices.erase who).lookup dest = _
        rw [Dict.lookup_erase_eq, if_neg fun h => hw h.symm]

theorem Bound.forgetRecipient {dest : String} (h : r.Bound dest) (who : String) :
    (r.forgetRecipient who).Bound dest := by
  unfold Bound
  rw [boundFor_forgetRecipient]
  rcases h with h | ⟨identity, hd, hin⟩
  · exact .inl h
  · rcases lookup_devices_forgetRecipient r who dest with hsame | ⟨-, identity', hd', hno⟩
    · exact .inr ⟨identity, hsame.trans hd, hin⟩
    · rw [hd] at hd'
      obtain rfl := Option.some.inj hd'
      exact absurd hin hno

theorem known_forgetRecipient {dest who : String} (hw : who ≠ dest) (h : r.known dest = true) :
    (r.forgetRecipient who).known dest = true := by
  rw [known_iff] at h ⊢
  have hmem : ∀ d : Dict String String, dest ∈ d → dest ∈ d.erase who :=
    fun d hin => AList.mem_erase.mpr ⟨hw.symm, hin⟩
  have hmem' : ∀ d : Dict String (Finset String), dest ∈ d → dest ∈ d.erase who :=
    fun d hin => AList.mem_erase.mpr ⟨hw.symm, hin⟩
  unfold forgetRecipient
  dsimp only
  split
  case h_1 =>
    split
    case isTrue => exact h
    case isFalse => exact h.imp_right (hmem _)
  case h_2 =>
    split
    case isTrue => exact h.imp_left (hmem' _)
    case isFalse => exact h

theorem not_mem_lapsed {dest : String} (h : dest ∈ r.inbox) : dest ∉ r.lapsed := by
  unfold lapsed
  rw [List.mem_filter]
  rintro ⟨-, hl⟩
  rw [Bool.and_eq_true, decide_eq_true_eq] at hl
  exact hl.2 h

theorem forgetAttempts_bindings (r : Relay) (sids : List String) :
    (sids.foldl forgetAttempt r).bindings = r.bindings ∧
    (sids.foldl forgetAttempt r).devices = r.devices := by
  refine List.foldlRecOn (motive := fun s : Relay => s.bindings = r.bindings ∧
    s.devices = r.devices) sids forgetAttempt ⟨rfl, rfl⟩ ?_
  rintro s ⟨hb, hd⟩ sid -
  unfold forgetAttempt
  split
  case h_2 => exact ⟨hb, hd⟩
  case h_1 => split <;> exact ⟨hb, hd⟩

theorem forget_known {dest : String} (h : r.known dest = true)
    (hkeep : dest ∈ r.inbox ∨ r.Bound dest) : r.forget.known dest = true := by
  unfold forget
  dsimp only
  obtain ⟨hb, hd⟩ := forgetAttempts_bindings r r.attempts.sortedKeys
  have hi := (Forgets.foldl forgets_forgetAttempt (r := r) r.attempts.sortedKeys).inbox
  generalize r.attempts.sortedKeys.foldl forgetAttempt r = s at hb hd hi
  have hknown : s.known dest = true := by
    rw [known_iff, hb, hd]
    exact known_iff.mp h
  rcases hkeep with hin | hbound
  · have hout : dest ∉ s.lapsed := not_mem_lapsed (hi ▸ hin)
    refine List.foldlRecOn (motive := fun t : Relay => t.known dest = true) s.lapsed
      forgetRecipient hknown ?_
    intro t ht who hwho
    exact known_forgetRecipient (fun he => hout (he ▸ hwho)) ht
  · have hs : s.Bound dest := by
      unfold Bound boundFor at hbound ⊢
      rw [hb, hd]
      exact hbound
    apply known_of_bound
    exact List.foldlRecOn (motive := fun t : Relay => t.Bound dest) s.lapsed forgetRecipient hs
      fun t ht who _ => ht.forgetRecipient who

/-- Who is bound, and what is known of whom. -/
def ties (r : Relay) : Dict String (Finset String) × Dict String String := (r.bindings, r.devices)

theorem Tracks.ties (h : r.Tracks o) : o.1.ties = r.ties := by
  have hs : o.1.store.ties = r.store.ties := congrArg Relay.ties h.store
  exact hs

theorem Routed.ties {m : Message} (h : Routed r m o) : o.1.ties = r.ties := by
  cases h <;> rfl

theorem recv_ties {m : Message} (h : r.recv m = .ok o) : o.1.ties = r.ties := by
  cases recv_outcome h with
  | introduced =>
    unfold recvIntroduction
    split <;> rfl
  | invited =>
    unfold recvInvite
    split
    case h_1 => split <;> rfl
    case h_2 => rfl
  | routed _ h => exact h.ties
  | @withdrawn dest _ _ _ h =>
    unfold cancelQueued at h
    dsimp only at h
    split at h
    case isTrue => cases h
    case isFalse =>
      obtain rfl := Option.some.inj h
      rfl
  | strayed _ _ _ h => exact h.ties
  | cancelled => rfl
  | leg => rfl

theorem known_of_ties {r' : Relay} {dest : String} (h : r'.ties = r.ties)
    (hk : r.known dest = true) : r'.known dest = true := by
  obtain ⟨hb, hd⟩ := Prod.ext_iff.mp h
  rw [known_iff] at hk ⊢
  rw [show r'.bindings = r.bindings from hb, show r'.devices = r.devices from hd]
  exact hk

theorem bound_of_ties {r' : Relay} {dest : String} (h : r'.ties = r.ties) (hk : r.Bound dest) :
    r'.Bound dest := by
  obtain ⟨hb, hd⟩ := Prod.ext_iff.mp h
  unfold Bound boundFor at hk ⊢
  rw [show r'.bindings = r.bindings from hb, show r'.devices = r.devices from hd]
  exact hk

theorem bind_known {dest : String} (device identity : String) (hk : r.known dest = true) :
    (r.bind device identity).1.known dest = true := by
  unfold bind
  dsimp only
  generalize hr : ({ r with
      bindings := r.bindings.insert identity (insert device (r.boundFor identity))
      devices := r.devices.insert device identity
      lastBound := (r.lastBound.erase identity).erase device
      inbox := (r.inbox.erase identity).erase device } : Relay) = r₁
  have hf := tracks_foldEmit (tracks_flushTo device) (r.flushed device identity) r₁
  have hl := tracks_foldEmit (tracks_lateBind device identity)
    (foldEmit (flushTo device) r₁ (r.flushed device identity)).1.attempts.sortedKeys
    (foldEmit (flushTo device) r₁ (r.flushed device identity)).1
  refine known_of_ties (hf.trans hl).ties ?_
  rw [← hr, known_iff]
  exact (known_iff.mp hk).imp (fun h => AList.mem_insert _ |>.mpr (.inr h))
    fun h => AList.mem_insert _ |>.mpr (.inr h)

theorem unbind_known {dest : String} (device identity : String) (hk : r.known dest = true) :
    (r.unbind device identity).known dest = true := by
  have hb : dest ∈ r.bindings → dest ∈ (if identity ∈ r.bindings then
      r.bindings.insert identity ((r.boundFor identity).erase device) else r.bindings) := by
    intro h
    split
    case isTrue => exact (AList.mem_insert _).mpr (.inr h)
    case isFalse => exact h
  rw [known_iff] at hk ⊢
  unfold unbind
  dsimp only
  generalize (if identity ∈ r.bindings then
    r.bindings.insert identity ((r.boundFor identity).erase device) else r.bindings) = b at hb ⊢
  split
  case isTrue => exact hk.imp_left hb
  case isFalse => exact hk.imp_left hb

theorem known_kept (h : r.step i = .ok o) {dest : String}
    (hk : r.known dest = true) (hkeep : o.1.heldFor dest ≠ [] ∨ r.Bound dest) : o.1.known dest = true := by
  cases i with
  | bind device identity =>
    obtain rfl := Except.ok.inj h
    exact bind_known device identity hk
  | unbind device identity =>
    obtain rfl := Except.ok.inj h
    exact unbind_known device identity hk
  | invite session sender to' legs =>
    obtain rfl := Except.ok.inj h
    exact known_of_ties (tracks_invite r session sender to' legs).ties hk
  | legExpired session leg =>
    obtain rfl := Except.ok.inj h
    exact known_of_ties (tracks_legExpired r session leg).ties hk
  | recv m => exact known_of_ties (recv_ties h) hk
  | advance seconds =>
    obtain rfl := Except.ok.inj h
    unfold advance at hkeep ⊢
    dsimp only at hkeep ⊢
    obtain ⟨hrest, -, -⟩ := expireQueues_spec { r with now := r.now + seconds }
    generalize ({ r with now := r.now + seconds } : Relay).expireQueues = q at hrest hkeep ⊢
    have hties : q.1.expireSilentLegs.1.ties = r.ties := by
      have hq : q.1.empty.ties = r.empty.ties := by rw [hrest]; rfl
      exact (tracks_expireSilentLegs q.1).ties.trans hq
    apply forget_known (known_of_ties hties hk)
    rcases hkeep with hheld | hbound
    · left
      rw [heldFor_of_inbox (forgets_forget _).inbox] at hheld
      by_contra hno
      apply hheld
      unfold heldFor
      rw [AList.lookup_eq_none.mpr hno]
      rfl
    · exact .inr (bound_of_ties hties hbound)

/-! ## Whole runs -/

theorem held_or_fate {r₀ : Relay} {h : Held} (hst : r₀.Stored) (hh : r₀.Holds h)
    {p : List (TSys.Move Relay Event (List Emit))} (hp : machine.Path r₀ p r) :
    (r.Holds h ∧ ∀ k ∈ p, k.after.Holds h) ∨
    ¬ r.Holds h ∧ h.arrival ≤ r.arrivals ∧ ∃ q₁ k q₂, p = q₁ ++ k :: q₂ ∧ k.before.Holds h ∧
      (∀ j ∈ q₁, j.after.Holds h) ∧ Fate k.before h k.input k.output ∧
      ∀ j ∈ k :: q₂, ¬ j.after.Holds h := by
  induction hp with
  | nil => exact .inl ⟨hh, fun _ hk => absurd hk List.not_mem_nil⟩
  | @snoc p s i o s' hp hs ih =>
    obtain ⟨tr, hrun⟩ := hp.run
    have hstored : s.Stored :=
      TSys.Run.invariant (P := fun _ r => r.Stored) hst
        (fun _ _ _ _ _ _ hr hs => hr.shift (step_shift hs)) hrun
    have hshift := step_shift hs
    rcases ih with ⟨hin, hall⟩ | ⟨hout, harr, q₁, k, q₂, rfl, hk, hq₁, hfate, hafter⟩
    · rcases hstored.fate hshift hin with hstay | ⟨hleft, hfate⟩
      · refine .inl ⟨hstay, ?_⟩
        intro k hk
        rcases List.mem_append.mp hk with hk | hk
        · exact hall k hk
        · rw [List.mem_singleton.mp hk]
          exact hstay
      · have harr : h.arrival ≤ s'.arrivals := (hstored.arrived _ h hin).trans hshift.arrivals_le
        refine .inr ⟨hleft, harr, p, _, [], rfl, hin, hall, hfate, ?_⟩
        intro j hj
        rw [List.mem_singleton.mp hj]
        exact hleft
    · obtain ⟨hstill, harr'⟩ := hshift.gone hout harr
      refine .inr ⟨hstill, harr', q₁, k, q₂ ++ [⟨s, i, o, s'⟩], by simp, hk, hq₁, hfate, ?_⟩
      intro j hj
      rw [← List.cons_append] at hj
      rcases List.mem_append.mp hj with hj | hj
      · exact hafter j hj
      · rw [List.mem_singleton.mp hj]
        exact hstill

/-- What becomes of the envelope a move queues, along the moves `p` after it. -/
def Conserved (r : Relay) (m : TSys.Move Relay Event (List Emit))
    (p : List (TSys.Move Relay Event (List Emit))) (dest : String) (type : MsgType) : Prop :=
  ∃ msg, m.input = .recv msg ∧ msg.dest = some dest ∧ msg.type = type ∧ m.output = [.queue dest type] ∧
    ¬ m.before.Holds (m.before.envelope dest msg) ∧
    m.after.Holds (m.before.envelope dest msg) ∧
    ((r.Holds (m.before.envelope dest msg) ∧ ∀ k ∈ p, k.after.Holds (m.before.envelope dest msg)) ∨
    ¬ r.Holds (m.before.envelope dest msg) ∧
      ∃ q₁ k q₂, p = q₁ ++ k :: q₂ ∧ k.before.Holds (m.before.envelope dest msg) ∧
        (∀ j ∈ q₁, j.after.Holds (m.before.envelope dest msg)) ∧
        Fate k.before (m.before.envelope dest msg) k.input k.output ∧
        ∀ j ∈ k :: q₂, ¬ j.after.Holds (m.before.envelope dest msg))

theorem queued_of_out (hs : Shift r i o) {dest : String} {type : MsgType} (hq : .queue dest type ∈ o.2) :
    ∃ m, i = .recv m ∧ m.dest = some dest ∧ m.type = type ∧ o.2 = [.queue dest type] ∧
      o.1.inbox = (r.enqueue dest m).1.inbox := by
  cases hs with
  | same _ _ ho => exact absurd trivial (ho _ hq)
  | @queued m d _ hd hi ha ho =>
    rw [ho] at hq
    obtain ⟨rfl, rfl⟩ := Emit.queue.inj (List.mem_singleton.mp hq)
    exact ⟨m, rfl, hd, rfl, ho, hi⟩
  | flushed _ _ ho hl =>
    rw [ho] at hq
    rcases List.mem_append.mp hq with hq | hq
    · obtain ⟨h, -, he⟩ := List.mem_map.mp hq
      cases he
    · obtain ⟨sid, he⟩ := hl _ hq
      cases he
  | expired _ _ ho hl =>
    rw [ho] at hq
    rcases List.mem_append.mp hq with hq | hq
    · obtain ⟨d, -, hq⟩ := List.mem_flatMap.mp hq
      obtain ⟨h, -, he⟩ := List.mem_map.mp hq
      cases he
    · exact absurd trivial (hl _ hq)
  | withdrawn _ _ hw =>
    rw [(cancelQueued_withdraws hw).out] at hq
    cases List.mem_singleton.mp hq

/-- The relay conserves what it queues: every queued envelope is held until one
step takes it out, with its fate; a bind flushes the envelopes of its identity
and its device in the order they arrived; and a recipient stays known while
something is held for it or it is bound. -/
theorem conserved {ctx : Context} {p : List (TSys.Move Relay Event (List Emit))}
    (hp : machine.Path (.new ctx) p r) :
    (∀ p₁ m p₂ dest type, p = p₁ ++ m :: p₂ → .queue dest type ∈ m.output → Conserved r m p₂ dest type) ∧
    (∀ m ∈ p, ∀ device identity, m.input = .bind device identity → (∃ late : List Emit,
        m.output = (m.before.flushed device identity).map (handed device) ++ late ∧
        ∀ e ∈ late, ∃ sid, e = .deliver device .invite (some sid)) ∧
      (m.before.flushed device identity).Pairwise (fun g h => g.arrival < h.arrival) ∧
      ∀ h, h ∈ m.before.flushed device identity ↔ m.before.Holds h ∧ (h.dest = identity ∨ h.dest = device)) ∧
    ∀ m ∈ p, ∀ dest, m.before.known dest = true →
      m.after.heldFor dest ≠ [] ∨ m.before.Bound dest → m.after.known dest = true := by
  have hstored : ∀ {q : List (TSys.Move Relay Event (List Emit))} {s : Relay},
      machine.Path (.new ctx) q s → s.Stored := by
    intro q s hq
    obtain ⟨tr, hrun⟩ := hq.run
    exact stored_of_run hrun
  refine ⟨?_, ?_, ?_⟩
  · intro p₁ m p₂ dest type hsplit hq
    subst hsplit
    obtain ⟨h₁, hstep, h₂⟩ := hp.split
    have hst := hstored h₁
    have hshift := step_shift hstep
    obtain ⟨msg, hi, hd, ht, ho, hinbox⟩ := queued_of_out hshift hq
    have hnew : ¬ m.before.Holds (m.before.envelope dest msg) := by
      intro hin
      have hle := hst.arrived _ _ hin
      have harr : (m.before.envelope dest msg).arrival = m.before.arrivals + 1 := rfl
      omega
    have hheld : m.after.Holds (m.before.envelope dest msg) := by
      show m.before.envelope dest msg ∈ m.after.heldFor dest
      rw [heldFor_enqueue hinbox, if_pos rfl]
      exact List.mem_append_right _ (List.mem_singleton_self _)
    refine ⟨msg, hi, hd, ht, ho, hnew, hheld, ?_⟩
    rcases held_or_fate (hst.shift hshift) hheld h₂ with hstay | ⟨hout, -, hfate⟩
    · exact .inl hstay
    · exact .inr ⟨hout, hfate⟩
  · intro m hm device identity hi
    obtain ⟨p₁, p₂, rfl⟩ := List.append_of_mem hm
    obtain ⟨h₁, hstep, -⟩ := hp.split
    rw [hi] at hstep
    have hst := hstored h₁
    refine ⟨?_, hst.flushed_sorted device identity, fun h => hst.mem_flushed_iff⟩
    have hout : m.output = (m.before.bind device identity).2 := (congrArg Prod.snd (Except.ok.inj hstep)).symm
    rw [hout]
    exact bind_out m.before device identity
  · intro m hm dest hk hkeep
    obtain ⟨p₁, p₂, rfl⟩ := List.append_of_mem hm
    obtain ⟨-, hstep, -⟩ := hp.split
    exact known_kept hstep hk hkeep

/-- A call for a phone that is off, withdrawn before the phone comes back. -/
theorem conserved_withdrawn : ∃ p r, machine.Path (.new {}) p r ∧ (p.map fun m => m.output) =
        [[], [], [.queue "bob" .invite], [.dequeue "bob" .invite .cancelled]] ∧
      ∀ m ∈ p, ∀ dest, m.before.known dest = true →
        m.after.heldFor dest ≠ [] ∨ m.before.Bound dest → m.after.known dest = true := by
  obtain ⟨tr, r, h, hs⟩ := TSys.exec?_runWhere Relay.step (fun _ _ _ => True)
    (fun r => ∃ ctx, r = .new ctx) (.new {})
    [.bind "phone" "bob", .unbind "phone" "bob",
     .recv { type := .invite, id := "s", sender := "alice", dest := some "bob" },
     .recv { type := .cancel, id := "c", sender := "alice", dest := some "bob", session := some "s" }]
    (fun r => r.1.map Prod.snd = [[], [], [.queue "bob" .invite], [.dequeue "bob" .invite .cancelled]])
    (by decide) (by decide)
  obtain ⟨p, hp, rfl⟩ := TSys.Run.path h
  refine ⟨p, r, hp, ?_, (conserved hp).2.2⟩
  rw [← of_decide_eq_true hs, List.map_map]
  rfl

/-- A flushed invite is delivered again, to a device that binds while its attempt
is live. -/
theorem invite_delivered_twice : ∃ tr r, machine.Run (.new {}) tr r ∧ tr.map Prod.snd =
        [[], [], [.queue "bob" .invite], [.deliver "phone" .invite (some "s")],
         [.deliver "laptop" .invite (some "s")]] := by
  obtain ⟨tr, r, h, hs⟩ := TSys.exec?_runWhere Relay.step (fun _ _ _ => True)
    (fun r => ∃ ctx, r = .new ctx) (.new {})
    [.bind "phone" "bob", .unbind "phone" "bob",
     .recv { type := .invite, id := "s", sender := "alice", dest := some "bob" },
     .bind "phone" "bob", .bind "laptop" "bob"]
    (fun r => r.1.map Prod.snd = [[], [], [.queue "bob" .invite], [.deliver "phone" .invite (some "s")],
       [.deliver "laptop" .invite (some "s")]])
    (by decide) (by decide)
  exact ⟨tr, r, h, of_decide_eq_true hs⟩

end Relay

end Dsip.Routing
