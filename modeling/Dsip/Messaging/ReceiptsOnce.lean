import Dsip.Messaging.Watermarks

/-!
# Receipts are sent and kept once

What a run of the client sends of receipts, and what it keeps of those it reads. A target is
named once of each kind, whatever the batches; that it is another identity's and without a
receipt of this one needs that only others' media are played, and that a content comes before
the receipts about it (`receipts_once`).
-/

namespace Dsip.Messaging.Client

open Dsip.Lib

/-- What a run sends, with the times. -/
def sent (c : Client) : List Event → List (Int × Emit)
  | [] => []
  | e :: events => c.sends e ++ sent (c.step e).1 events

/-- The targets of the receipts of a kind. -/
def targetsOf (kind : String) (sent : List (Int × Emit)) : List String :=
  sent.flatMap fun s =>
    match s.2 with
    | .receipt _ k targets => if k = kind then targets else []
    | _ => []

def book (c : Client) (kind : String) : Book := if kind = "delivered" then c.delivered else c.played

/-- The kinds of receipt that name targets. -/
def kinds : List String := ["delivered", "played"]

/-- Receipts are sent and kept once, in every run. -/
structure ReceiptsOnce (ctx : Context) (events : List Event) : Prop where
  /-- No content is named twice in what is sent. -/
  once : ∀ kind ∈ kinds, (targetsOf kind ((init ctx).sent events)).Nodup
  /-- What is named is another identity's. -/
  others : ∀ past e later, events = past ++ e :: later → ∀ kind ∈ kinds,
    ∀ t ∈ targetsOf kind (((init ctx).run past).sends e),
      ∃ held, heldAs (processed (past ++ [e])) t = some held ∧ held.sender ≠ ctx.me
  /-- No receipt of this identity for it was read before, the batch included. -/
  unreceipted : ∀ past e later, events = past ++ e :: later → ∀ kind ∈ kinds,
    ∀ t ∈ targetsOf kind (((init ctx).run past).sends e),
      firstReceipt (processed (past ++ [e])) kind t ctx.me = none
  fit : ∀ s ∈ (init ctx).sent events, ∀ dest kind targets, s.2 = .receipt dest kind targets →
    targets.length ≤ receiptMaxTargets
  /-- Own read receipts name what is held, and are apart in time and in seq. -/
  named : ∀ a ∈ readsOf ((init ctx).sent events), 0 < seqOf ((init ctx).run events).content a.2
  apart : (readsOf ((init ctx).sent events)).Pairwise fun a b =>
    a.1 + readMinIntervalS ≤ b.1 ∧
      seqOf ((init ctx).run events).content a.2 < seqOf ((init ctx).run events).content b.2
  /-- None is pending once the clock has reached the interval. -/
  waits : ∀ past n later, events = past ++ .advance n :: later →
    ((init ctx).run (past ++ [.advance n])).pendingRead = true →
      ∃ last, ((init ctx).run (past ++ [.advance n])).lastReadSent = some last ∧
        ((init ctx).run (past ++ [.advance n])).now - last < readMinIntervalS
  forward : ∀ past later, events = past ++ later → ∀ who,
    ((init ctx).run past).position who ≤ ((init ctx).run events).position who
  /-- A book has the times of the first receipts that count, and no others. -/
  first : ∀ past later, events = past ++ later → ∀ kind ∈ kinds, ∀ id who,
    entry (((init ctx).run past).book kind) id who =
      match heldAs (processed past) id with
      | none => none
      | some held => if Counts held kind who then firstReceipt (processed past) kind id who else none

/-- No media of the device's own identity is played while `played` is disclosed. -/
def PlaysOthers (ctx : Context) (events : List Event) : Prop :=
  ∀ past i later, events = past ++ .play i :: later → ctx.policy.played = true →
    ∀ held, heldAs (processed past) i = some held → held.kind ∈ mediaKinds → held.sender ≠ ctx.me

/-- No receipt that counts comes before the content it names. -/
def ContentFirst (its : List Item) : Prop :=
  ∀ kind ∈ kinds, ∀ id who held, heldAs its id = some held → Counts held kind who →
    firstReceipt (before its id) kind id who = none

/-! ## Slices -/

theorem flatten_slices (l : List String) (k n : ℕ) :
    ((List.range' 0 n k).map fun i => (l.drop i).take k).flatten = l.take (n * k) := by
  induction n with
  | zero => simp
  | succ n ih =>
    rw [List.range'_concat, List.map_append, List.flatten_append, ih, Nat.succ_mul, List.take_add]
    simp [Nat.mul_comm]

theorem flatten_chunks (targets : List String) : (chunks targets).flatten = targets := by
  unfold chunks
  rw [flatten_slices, List.take_of_length_le]
  unfold receiptMaxTargets
  omega

theorem length_chunks {targets ts : List String} (h : ts ∈ chunks targets) : ts.length ≤ receiptMaxTargets := by
  obtain ⟨k, -, rfl⟩ := List.mem_map.mp h
  exact List.length_take_le _ _

/-! ## What is new in a batch -/

theorem items_fresh (items : List Item) (c : Client) (fresh : List String) (archive : List Emit)
    (hnodup : fresh.Nodup) (hheld : ∀ i ∈ fresh, i ∈ c.content) :
    (items.foldl syncItem (c, fresh, archive)).2.1.Nodup := by
  induction items generalizing c fresh archive with
  | nil => exact hnodup
  | cons it items ih =>
    refine ih (syncItem (c, fresh, archive) it).1 _ (syncItem (c, fresh, archive) it).2.2 ?_ ?_
    · obtain ⟨seq, object⟩ := it
      cases object with
      | other => exact hnodup
      | receipt o => exact hnodup
      | content o =>
        show (if o.id ∈ c.content then (c, fresh, archive) else (c.take seq o, fresh ++ [o.id], archive)).2.1.Nodup
        split
        · exact hnodup
        · rename_i hnew
          refine List.Nodup.append hnodup (List.nodup_singleton _) fun i hi hnew' => ?_
          rw [List.mem_singleton.mp hnew'] at hi
          exact hnew (hheld _ hi)
    · obtain ⟨seq, object⟩ := it
      cases object with
      | other => exact hheld
      | receipt o =>
        show ∀ i ∈ fresh, i ∈ (c.receipt o).1.content
        rw [receipt_content]
        exact hheld
      | content o =>
        show ∀ i ∈ (if o.id ∈ c.content then (c, fresh, archive) else
            (c.take seq o, fresh ++ [o.id], archive)).2.1,
          i ∈ (if o.id ∈ c.content then (c, fresh, archive) else (c.take seq o, fresh ++ [o.id], archive)).1.content
        split
        · exact hheld
        · rename_i hnew
          intro i hi
          rcases List.mem_append.mp hi with hi | hi
          · exact (AList.mem_insert _).mpr (.inr (hheld i hi))
          · rw [List.mem_singleton.mp hi]
            exact Dict.mem_iff_lookup.mpr ⟨_, lookup_taken seq o⟩

theorem items_sent (items : List Item) (c : Client) (fresh : List String) (archive : List Emit) :
    (items.foldl syncItem (c, fresh, archive)).1.sentDelivered = c.sentDelivered ∧
      (items.foldl syncItem (c, fresh, archive)).1.sentPlayed = c.sentPlayed := by
  induction items generalizing c fresh archive with
  | nil => exact ⟨rfl, rfl⟩
  | cons it items ih =>
    obtain ⟨hdelivered, hplayed⟩ := ih (syncItem (c, fresh, archive) it).1 (syncItem (c, fresh, archive) it).2.1
      (syncItem (c, fresh, archive) it).2.2
    have hitem : (syncItem (c, fresh, archive) it).1.sentDelivered = c.sentDelivered ∧
        (syncItem (c, fresh, archive) it).1.sentPlayed = c.sentPlayed := by
      obtain ⟨seq, object⟩ := it
      cases object with
      | other => exact ⟨rfl, rfl⟩
      | receipt o =>
        show (c.receipt o).1.sentDelivered = c.sentDelivered ∧ (c.receipt o).1.sentPlayed = c.sentPlayed
        obtain ⟨_, _, _, _, heq⟩ := receipt_writes c o
        rw [heq]
        exact ⟨rfl, rfl⟩
      | content o =>
        show (if o.id ∈ c.content then (c, fresh, archive) else
            (c.take seq o, fresh ++ [o.id], archive)).1.sentDelivered = c.sentDelivered ∧
          (if o.id ∈ c.content then (c, fresh, archive) else
            (c.take seq o, fresh ++ [o.id], archive)).1.sentPlayed = c.sentPlayed
        split
        · exact ⟨rfl, rfl⟩
        · exact ⟨rfl, rfl⟩
    exact ⟨hdelivered.trans hitem.1, hplayed.trans hitem.2⟩

/-! ## What a step sends -/

theorem targetsOf_append (kind : String) (a b : List (Int × Emit)) :
    targetsOf kind (a ++ b) = targetsOf kind a ++ targetsOf kind b := List.flatMap_append

/-- Whether it is a receipt that names targets. -/
def Emit.isReceipt : Emit → Bool
  | .receipt _ _ _ => true
  | _ => false

theorem targetsOf_eq_nil {t : Int} {ms : List Emit} (h : ∀ m ∈ ms, m.isReceipt = false) (kind : String) :
    targetsOf kind (ms.map fun m => (t, m)) = [] := by
  unfold targetsOf
  rw [List.flatMap_map, List.flatMap_eq_nil_iff]
  intro m hm
  have hreceipt := h m hm
  cases m with
  | receipt dest k targets => cases hreceipt
  | _ => rfl

theorem targetsOf_chunks (t : Int) (targets : List String) (kind : String) :
    targetsOf kind (((chunks targets).map (Emit.receipt "conversation" "delivered")).map fun m => (t, m)) =
      if "delivered" = kind then targets else [] := by
  unfold targetsOf
  rw [List.flatMap_map, List.flatMap_map]
  by_cases hkind : "delivered" = kind
  · simp only [hkind, if_true]
    rw [List.flatMap_id']
    exact flatten_chunks targets
  · simp [hkind]

/-- What a step can send of receipts. -/
structure Receipting (c : Client) (e : Event) : Prop where
  nodup : ∀ kind ∈ kinds, (targetsOf kind (c.sends e)).Nodup
  undelivered : ∀ t ∈ targetsOf "delivered" (c.sends e), t ∉ c.sentDelivered
  unplayed : ∀ t ∈ targetsOf "played" (c.sends e), t ∉ c.sentPlayed
  sentDelivered : (c.step e).1.sentDelivered = c.sentDelivered ∪ (targetsOf "delivered" (c.sends e)).toFinset
  sentPlayed : (c.step e).1.sentPlayed = c.sentPlayed ∪ (targetsOf "played" (c.sends e)).toFinset
  owed : ∀ t ∈ targetsOf "delivered" (c.sends e), ((c.step e).1.content.lookup t).any (·.sender ≠ c.me) = true ∧
    ¬Noted (c.step e).1.delivered c.me t
  media : ∀ t ∈ targetsOf "played" (c.sends e), e = .play t ∧ c.policy.played = true ∧ ¬Noted c.played c.me t ∧
    ∃ held, c.content.lookup t = some held ∧ held.kind ∈ mediaKinds
  fit : ∀ s ∈ c.sends e, ∀ dest kind targets, s.2 = .receipt dest kind targets → targets.length ≤ receiptMaxTargets

theorem receipting_quiet {c : Client} {e : Event} (hquiet : ∀ m ∈ (c.step e).2, m.isReceipt = false)
    (hdelivered : (c.step e).1.sentDelivered = c.sentDelivered) (hplayed : (c.step e).1.sentPlayed = c.sentPlayed) :
    c.Receipting e := by
  have hnone : ∀ kind, targetsOf kind (c.sends e) = [] := targetsOf_eq_nil hquiet
  refine ⟨fun kind _ => ?_, ?_, ?_, ?_, ?_, ?_, ?_, fun s hs dest kind targets heq => ?_⟩
  · rw [hnone]
    exact List.nodup_nil
  · rw [hnone]
    exact nofun
  · rw [hnone]
    exact nofun
  · rw [hnone, hdelivered]
    simp
  · rw [hnone, hplayed]
    simp
  · rw [hnone]
    exact nofun
  · rw [hnone]
    exact nofun
  · obtain ⟨m, hm, rfl⟩ := List.mem_map.mp hs
    have hreceipt := hquiet m hm
    change m = _ at heq
    rw [heq] at hreceipt
    cases hreceipt

theorem receipting_sync (c : Client) (items : List Item) : c.Receipting (.sync items) := by
  have harchive := archived items c [] [] nofun
  have hnone : ∀ m ∈ (items.foldl syncItem (c, [], [])).2.2, m.isReceipt = false := by
    intro m hm
    obtain ⟨seq, rfl⟩ := harchive m hm
    rfl
  have hkept := syncItems_kept items (c := c) [] []
  obtain ⟨hdelivered, hplayed⟩ := items_sent items c [] []
  obtain heq | ⟨targets, howed, hsublist, heq⟩ := sync_cases c items
  · exact receipting_quiet (by show ∀ m ∈ (c.sync items).2, _; rw [heq]; exact hnone)
      (by show (c.sync items).1.sentDelivered = _; rw [heq]; exact hdelivered)
      (by show (c.sync items).1.sentPlayed = _; rw [heq]; exact hplayed)
  · have htargets (kind : String) : targetsOf kind (c.sends (.sync items)) = if "delivered" = kind then targets else [] := by
      unfold Client.sends
      show targetsOf kind ((c.sync items).2.map fun m => ((c.sync items).1.now, m)) = _
      rw [heq, List.map_append, targetsOf_append, targetsOf_eq_nil hnone, List.nil_append, targetsOf_chunks]
    have hnodup : targets.Nodup := hsublist.nodup (items_fresh items c [] [] List.nodup_nil nofun)
    have hdeliveredTargets : targetsOf "delivered" (c.sends (.sync items)) = targets := htargets "delivered"
    have hplayedTargets : targetsOf "played" (c.sends (.sync items)) = [] := htargets "played"
    have hstep : ((c.step (.sync items)).1) = { (items.foldl syncItem (c, [], [])).1 with
        sentDelivered := (items.foldl syncItem (c, [], [])).1.sentDelivered ∪ targets.toFinset } :=
      congrArg Prod.fst heq
    refine ⟨fun kind _ => ?_, ?_, ?_, ?_, ?_, ?_, ?_, ?_⟩
    · rw [htargets]
      split
      · exact hnodup
      · exact List.nodup_nil
    · rw [hdeliveredTargets, ← hdelivered]
      exact fun t ht => (howed t ht).2.2.2
    · rw [hplayedTargets]
      exact nofun
    · rw [hdeliveredTargets, hstep, ← hdelivered]
    · rw [hplayedTargets, hstep, ← hplayed]
      simp
    · rw [hdeliveredTargets, hstep, ← hkept.me]
      exact fun t ht => ⟨(howed t ht).2.1, (howed t ht).2.2.1⟩
    · rw [hplayedTargets]
      exact nofun
    · unfold Client.sends
      show ∀ s ∈ (c.sync items).2.map fun m => ((c.sync items).1.now, m), _
      rw [heq]
      intro s hs dest kind ts hreceipt
      obtain ⟨m, hm, rfl⟩ := List.mem_map.mp hs
      change m = _ at hreceipt
      rcases List.mem_append.mp hm with hm | hm
      · have hnot := hnone m hm
        rw [hreceipt] at hnot
        cases hnot
      · obtain ⟨chunk, hchunk, rfl⟩ := List.mem_map.mp hm
        cases hreceipt
        exact length_chunks hchunk

theorem receipting_play (c : Client) (i : String) : c.Receipting (.play i) := by
  obtain heq | ⟨held, hheld, hmedia, hpolicy, hnoted, hunsent, heq⟩ := play_cases c i
  · exact receipting_quiet (by show ∀ m ∈ (c.play i).2, _; rw [heq]; exact nofun)
      (by show (c.play i).1.sentDelivered = _; rw [heq]) (by show (c.play i).1.sentPlayed = _; rw [heq])
  · have hsends : c.sends (.play i) = [(c.now, .receipt "conversation" "played" [i])] := by
      unfold Client.sends
      show (c.play i).2.map (fun m => ((c.play i).1.now, m)) = _
      rw [heq]
      rfl
    have hstep : (c.step (.play i)).1 = { c with sentPlayed := insert i c.sentPlayed } := congrArg Prod.fst heq
    have hdeliveredTargets : targetsOf "delivered" (c.sends (.play i)) = [] := by rw [hsends]; rfl
    have hplayedTargets : targetsOf "played" (c.sends (.play i)) = [i] := by rw [hsends]; rfl
    refine ⟨fun kind hkind => ?_, ?_, ?_, ?_, ?_, ?_, ?_, ?_⟩
    · rcases List.mem_cons.mp hkind with rfl | hkind
      · rw [hdeliveredTargets]
        exact List.nodup_nil
      · rw [List.mem_singleton.mp hkind, hplayedTargets]
        exact List.nodup_singleton i
    · rw [hdeliveredTargets]
      exact nofun
    · rw [hplayedTargets]
      intro t ht
      rw [List.mem_singleton.mp ht]
      exact hunsent
    · rw [hdeliveredTargets, hstep]
      simp
    · rw [hplayedTargets, hstep]
      ext t
      simp
    · rw [hdeliveredTargets]
      exact nofun
    · rw [hplayedTargets]
      intro t ht
      rw [List.mem_singleton.mp ht]
      exact ⟨rfl, hpolicy, hnoted, held, hheld, hmedia⟩
    · rw [hsends]
      intro s hs dest kind ts hreceipt
      rw [List.mem_singleton.mp hs] at hreceipt
      cases hreceipt
      show 1 ≤ 256
      omega

theorem receipting (c : Client) (e : Event) : c.Receipting e := by
  cases e with
  | sync items => exact receipting_sync c items
  | play i => exact receipting_play c i
  | restore items =>
    obtain ⟨hdelivered, hplayed⟩ := items_sent items c [] []
    refine receipting_quiet nofun ?_ ?_
    · show (c.restore items).sentDelivered = _
      rw [restore_eq items [] []]
      exact hdelivered
    · show (c.restore items).sentPlayed = _
      rw [restore_eq items [] []]
      exact hplayed
  | read through =>
    show c.Receipting (.read through)
    have hquiet : (∀ m ∈ (c.read through).2, m.isReceipt = false) ∧
        (c.read through).1.sentDelivered = c.sentDelivered ∧ (c.read through).1.sentPlayed = c.sentPlayed := by
      obtain heq | ⟨held, -, -, ⟨last, -, -, heq⟩ | ⟨-, heq⟩⟩ := read_cases c through
      · rw [heq]
        exact ⟨nofun, rfl, rfl⟩
      · rw [heq]
        exact ⟨nofun, rfl, rfl⟩
      · rw [heq]
        refine ⟨fun m hm => ?_, rfl, rfl⟩
        rw [List.mem_singleton.mp hm]
        rfl
    exact receipting_quiet hquiet.1 hquiet.2.1 hquiet.2.2
  | activity a state =>
    obtain ⟨_, heq, hsent⟩ := activity_cases c a state
    refine receipting_quiet (fun m hm => ?_) ?_ ?_
    · obtain ⟨_, _, rfl⟩ := hsent m hm
      rfl
    · show (c.activity a state).1.sentDelivered = _
      rw [heq]
    · show (c.activity a state).1.sentPlayed = _
      rw [heq]
  | activityIn sender a state expiresAt =>
    obtain ⟨_, heq⟩ := activityIn_cases c sender a state expiresAt
    refine receipting_quiet nofun ?_ ?_
    · show (c.activityIn sender a state expiresAt).sentDelivered = _
      rw [heq]
    · show (c.activityIn sender a state expiresAt).sentPlayed = _
      rw [heq]
  | advance n =>
    have hquiet : (∀ m ∈ (c.advance n).2, m.isReceipt = false) ∧
        (c.advance n).1.sentDelivered = c.sentDelivered ∧ (c.advance n).1.sentPlayed = c.sentPlayed := by
      obtain ⟨_, ⟨-, last, -, -, heq⟩ | ⟨-, heq⟩⟩ := advance_cases c n
      · rw [heq]
        refine ⟨fun m hm => ?_, rfl, rfl⟩
        rw [List.mem_singleton.mp hm]
        rfl
      · rw [heq]
        exact ⟨nofun, rfl, rfl⟩
    exact receipting_quiet hquiet.1 hquiet.2.1 hquiet.2.2

/-! ## A run -/

theorem sent_snoc (c : Client) (events : List Event) (e : Event) :
    c.sent (events ++ [e]) = c.sent events ++ (c.run events).sends e := by
  induction events generalizing c with
  | nil => simp [Client.sent, Client.run]
  | cons e' events ih =>
    show c.sends e' ++ (c.step e').1.sent (events ++ [e]) = c.sends e' ++ (c.step e').1.sent events ++ _
    rw [ih, List.append_assoc]
    rfl

theorem readsOf_append (a b : List (Int × Emit)) : readsOf (a ++ b) = readsOf a ++ readsOf b := List.filterMap_append

theorem reads_run (ctx : Context) (events : List Event) :
    ((init ctx).run events).Reads (readsOf ((init ctx).sent events)) := by
  induction events using List.reverseRecOn with
  | nil => exact reads_init ctx
  | append_singleton events e ih =>
    rw [sent_snoc, readsOf_append, run_snoc]
    exact (ih.step e).1

theorem step_context (c : Client) (e : Event) : (c.step e).1.me = c.me ∧ (c.step e).1.policy = c.policy := by
  cases e with
  | sync items =>
    have hkept := syncItems_kept items (c := c) [] []
    show (c.sync items).1.me = c.me ∧ (c.sync items).1.policy = c.policy
    obtain heq | ⟨targets, -, -, heq⟩ := sync_cases c items
    · rw [heq]
      exact ⟨hkept.me, hkept.policy⟩
    · rw [heq]
      exact ⟨hkept.me, hkept.policy⟩
  | restore items =>
    have hkept := syncItems_kept items (c := c) [] []
    show (c.restore items).me = c.me ∧ (c.restore items).policy = c.policy
    rw [restore_eq items [] []]
    exact ⟨hkept.me, hkept.policy⟩
  | read through =>
    show (c.read through).1.me = c.me ∧ (c.read through).1.policy = c.policy
    obtain heq | ⟨held, -, -, ⟨last, -, -, heq⟩ | ⟨-, heq⟩⟩ := read_cases c through
    · rw [heq]
      exact ⟨rfl, rfl⟩
    · rw [heq]
      exact ⟨rfl, rfl⟩
    · rw [heq]
      exact ⟨rfl, rfl⟩
  | play i =>
    show (c.play i).1.me = c.me ∧ (c.play i).1.policy = c.policy
    obtain heq | ⟨held, -, -, -, -, -, heq⟩ := play_cases c i
    · rw [heq]
      exact ⟨rfl, rfl⟩
    · rw [heq]
      exact ⟨rfl, rfl⟩
  | activity a state =>
    show (c.activity a state).1.me = c.me ∧ (c.activity a state).1.policy = c.policy
    obtain ⟨_, heq, -⟩ := activity_cases c a state
    rw [heq]
    exact ⟨rfl, rfl⟩
  | activityIn sender a state expiresAt =>
    show (c.activityIn sender a state expiresAt).me = c.me ∧ (c.activityIn sender a state expiresAt).policy = c.policy
    obtain ⟨_, heq⟩ := activityIn_cases c sender a state expiresAt
    rw [heq]
    exact ⟨rfl, rfl⟩
  | advance n =>
    show (c.advance n).1.me = c.me ∧ (c.advance n).1.policy = c.policy
    obtain ⟨_, ⟨-, last, -, -, heq⟩ | ⟨-, heq⟩⟩ := advance_cases c n
    · rw [heq]
      exact ⟨rfl, rfl⟩
    · rw [heq]
      exact ⟨rfl, rfl⟩

theorem run_context (ctx : Context) (events : List Event) :
    ((init ctx).run events).me = ctx.me ∧ ((init ctx).run events).policy = ctx.policy := by
  induction events using List.reverseRecOn with
  | nil => exact ⟨rfl, rfl⟩
  | append_singleton events e ih =>
    obtain ⟨hme, hpolicy⟩ := step_context ((init ctx).run events) e
    rw [run_snoc]
    exact ⟨hme.trans ih.1, hpolicy.trans ih.2⟩

/-- The receipts sent so far, beside what the client remembers of them. -/
structure Receipted (c : Client) (sent : List (Int × Emit)) : Prop where
  once : ∀ kind ∈ kinds, (targetsOf kind sent).Nodup
  sentDelivered : ∀ t, t ∈ targetsOf "delivered" sent ↔ t ∈ c.sentDelivered
  sentPlayed : ∀ t, t ∈ targetsOf "played" sent ↔ t ∈ c.sentPlayed
  fit : ∀ s ∈ sent, ∀ dest kind targets, s.2 = .receipt dest kind targets → targets.length ≤ receiptMaxTargets

theorem receipted_run (ctx : Context) (events : List Event) :
    ((init ctx).run events).Receipted ((init ctx).sent events) := by
  induction events using List.reverseRecOn with
  | nil => exact ⟨fun _ _ => List.nodup_nil, fun t => by simp [Client.sent, targetsOf, init, Client.run],
      fun t => by simp [Client.sent, targetsOf, init, Client.run], nofun⟩
  | append_singleton events e ih =>
    have hstep := receipting ((init ctx).run events) e
    rw [sent_snoc, run_snoc]
    refine ⟨fun kind hkind => ?_, fun t => ?_, fun t => ?_, fun s hs => ?_⟩
    · rw [targetsOf_append, List.nodup_append]
      refine ⟨ih.once kind hkind, hstep.nodup kind hkind, ?_⟩
      rintro t ht _ ht' rfl
      rcases List.mem_cons.mp hkind with rfl | hkind
      · exact hstep.undelivered t ht' ((ih.sentDelivered t).mp ht)
      · rw [List.mem_singleton.mp hkind] at ht ht'
        exact hstep.unplayed t ht' ((ih.sentPlayed t).mp ht)
    · rw [targetsOf_append, hstep.sentDelivered, List.mem_append, Finset.mem_union, List.mem_toFinset,
        ih.sentDelivered]
    · rw [targetsOf_append, hstep.sentPlayed, List.mem_append, Finset.mem_union, List.mem_toFinset, ih.sentPlayed]
    · rcases List.mem_append.mp hs with hs | hs
      · exact ih.fit s hs
      · exact hstep.fit s hs

theorem exists_sends {ctx : Context} {events : List Event} {kind t : String}
    (h : t ∈ targetsOf kind ((init ctx).sent events)) :
    ∃ past e later, events = past ++ e :: later ∧ t ∈ targetsOf kind (((init ctx).run past).sends e) := by
  induction events using List.reverseRecOn with
  | nil => cases h
  | append_singleton events e ih =>
    rw [sent_snoc, targetsOf_append] at h
    rcases List.mem_append.mp h with h | h
    · obtain ⟨past, e', later, rfl, ht⟩ := ih h
      exact ⟨past, e', later ++ [e], by simp, ht⟩
    · exact ⟨events, e, [], rfl, h⟩

/-! ## Content before its receipts -/

theorem processed_append (a b : List Event) : processed (a ++ b) = processed a ++ processed b := List.flatMap_append

variable {its : List Item}

theorem heldAs_append {id : String} {held : Held} (h : heldAs its id = some held)
    (later : List Item) : heldAs (its ++ later) id = some held := by
  unfold heldAs at h ⊢
  rw [List.findSome?_append, h]
  rfl

theorem before_append {id : String} {held : Held} (h : heldAs its id = some held)
    (later : List Item) : before (its ++ later) id = before its id := by
  obtain ⟨it, hit, hbrings⟩ := List.exists_of_findSome?_eq_some h
  unfold before
  rw [List.takeWhile_append, if_neg]
  intro hlength
  have hall := List.takeWhile_eq_self_iff.mp ((List.takeWhile_prefix _).eq_of_length hlength) it hit
  rw [hbrings] at hall
  cases hall

theorem ContentFirst.earlier {later : List Item} (h : ContentFirst (its ++ later)) : ContentFirst its := by
  intro kind hkind id who held hheld hcounts
  rw [← before_append hheld later]
  exact h kind hkind id who held (heldAs_append hheld later) hcounts

theorem ContentFirst.due (h : ContentFirst its) {kind : String} (hkind : kind ∈ kinds)
    (id who : String) :
    due its kind id who =
      match heldAs its id with
      | none => none
      | some held => if Counts held kind who then firstReceipt its kind id who else none := by
  unfold Client.due
  cases hheld : heldAs its id with
  | none => rfl
  | some held =>
    dsimp only
    split
    · rename_i hcounts
      have hsplit : before its id ++ since its id = its := List.takeWhile_append_dropWhile
      have hbefore := h kind hkind id who held hheld hcounts
      unfold firstReceipt at hbefore ⊢
      conv_rhs => rw [← hsplit]
      rw [List.findSome?_append, hbefore]
      rfl
    · rfl

theorem entry_run (ctx : Context) (events : List Event) {kind : String} (hkind : kind ∈ kinds) (id who : String) :
    entry (((init ctx).run events).book kind) id who = due (processed events) kind id who := by
  have hheard := heard_run ctx events
  rcases List.mem_cons.mp hkind with rfl | hkind
  · exact hheard.delivered id who
  · rw [List.mem_singleton.mp hkind]
    exact hheard.played id who

/-- What a step names is another's without a receipt of this identity, but for what it plays of its own. -/
theorem sends_others {ctx : Context} {past : List Event} {e : Event} {kind t : String} (hkind : kind ∈ kinds)
    (ht : t ∈ targetsOf kind (((init ctx).run past).sends e)) :
    ∃ held, heldAs (processed (past ++ [e])) t = some held ∧ due (processed (past ++ [e])) kind t ctx.me = none ∧
      (kind = "played" → held.kind ∈ mediaKinds) ∧ (held.sender ≠ ctx.me ∨
          kind = "played" ∧ e = .play t ∧ ctx.policy.played = true ∧ heldAs (processed past) t = some held) := by
  have hstep := receipting ((init ctx).run past) e
  obtain ⟨hme, hpolicy⟩ := run_context ctx past
  have hheard := heard_run ctx (past ++ [e])
  rcases List.mem_cons.mp hkind with rfl | hkind
  · obtain ⟨hother, hnoted⟩ := hstep.owed t ht
    rw [← run_snoc, hme] at hnoted
    rw [← run_snoc, hheard.content, hme] at hother
    obtain ⟨held, hheld, hsender⟩ := Option.any_eq_true _ _ |>.mp hother
    refine ⟨held, hheld, ?_, nofun, .inl (of_decide_eq_true hsender)⟩
    rw [← hheard.delivered]
    exact entry_eq_none.mpr hnoted
  · obtain rfl := List.mem_singleton.mp hkind
    obtain ⟨rfl, hdisclosed, hnoted, held, hheld, hmedia⟩ := hstep.media t ht
    have hpast := heard_run ctx past
    have hitems : processed (past ++ [.play t]) = processed past := by
      rw [processed_snoc]
      exact List.append_nil _
    rw [hitems]
    rw [hpast.content] at hheld
    rw [hme] at hnoted
    refine ⟨held, hheld, ?_, fun _ => hmedia, .inr ⟨rfl, rfl, hpolicy ▸ hdisclosed, hheld⟩⟩
    rw [← hpast.played]
    exact entry_eq_none.mpr hnoted

/-! ## Once -/

theorem position_le (ctx : Context) (past later : List Event) (who : String) :
    ((init ctx).run past).position who ≤ ((init ctx).run (past ++ later)).position who := by
  induction later using List.reverseRecOn with
  | nil => rw [List.append_nil]
  | append_singleton later e ih =>
    have hreads := reads_run ctx (past ++ later)
    have hafter := reads_run ctx (past ++ later ++ [e])
    have hle := (hreads.step e).2 who
    rw [← run_snoc, ← hreads.marks, ← hafter.marks] at hle
    rw [← List.append_assoc]
    exact ih.trans hle

theorem pending_advance (ctx : Context) (past : List Event) (n : Int)
    (h : ((init ctx).run (past ++ [.advance n])).pendingRead = true) :
    ∃ last, ((init ctx).run (past ++ [.advance n])).lastReadSent = some last ∧
      ((init ctx).run (past ++ [.advance n])).now - last < readMinIntervalS := by
  have hreads := reads_run ctx (past ++ [.advance n])
  obtain ⟨last, hlast⟩ := Option.isSome_iff_exists.mp (hreads.pending h).1
  refine ⟨last, hlast, ?_⟩
  rw [run_snoc] at h hlast ⊢
  change (((init ctx).run past).advance n).1.pendingRead = true at h
  change (((init ctx).run past).advance n).1.lastReadSent = some last at hlast
  show (((init ctx).run past).advance n).1.now - last < readMinIntervalS
  obtain ⟨shown, ⟨-, last', -, -, heq⟩ | ⟨hwaits, heq⟩⟩ := advance_cases ((init ctx).run past) n
  · rw [heq] at h
    cases h
  · rw [heq] at h hlast ⊢
    exact hwaits h last hlast

/-- Where contents come before the receipts about them, receipts are sent and kept once exactly when
only others' media are played. -/
theorem receipts_once {ctx : Context} {events : List Event} (hfirst : ContentFirst (processed events)) :
    ReceiptsOnce ctx events ↔ PlaysOthers ctx events := by
  constructor
  · intro h past i later hsplit hdisclosed held hheld hmedia hmine
    -- an own content's receipts are never booked, so only an earlier receipt of ours keeps this one back
    have hpast := heard_run ctx past
    obtain ⟨hme, hpolicy⟩ := run_context ctx past
    have hcontradiction {past' : List Event} {e : Event} (later' : List Event) (hsplit' : events = past' ++ e :: later')
        (ht : i ∈ targetsOf "played" (((init ctx).run past').sends e))
        (hheld' : ∀ held', heldAs (processed (past' ++ [e])) i = some held' → held' = held) : False := by
      obtain ⟨held', hsome, hother⟩ := h.others past' e later' hsplit' "played" (by simp [kinds]) i ht
      rw [hheld' held' hsome] at hother
      exact hother hmine
    by_cases hsent : i ∈ ((init ctx).run past).sentPlayed
    · obtain ⟨past', e, between, rfl, ht⟩ := exists_sends (((receipted_run ctx past).sentPlayed i).mpr hsent)
      refine hcontradiction (between ++ .play i :: later) (by rw [hsplit]; simp) ht fun held' hsome => ?_
      have hlater := heldAs_append hsome (processed between)
      rw [← processed_append, List.append_assoc, List.singleton_append, hheld] at hlater
      exact (Option.some.inj hlater).symm
    · have hnoted : ¬Noted ((init ctx).run past).played ctx.me i := by
        rw [← entry_eq_none, hpast.played, Client.due, hheld]
        exact if_neg fun hcounts => hcounts.1 hmine
      have hplay : (((init ctx).run past).play i).2 = [.receipt "conversation" "played" [i]] := by
        unfold Client.play
        rw [hpast.content, hheld, hpolicy, hme]
        dsimp only
        rw [if_neg]
        rintro (hnot | hnot | hnot | hnot)
        · exact hnot hmedia
        · rw [hdisclosed] at hnot
          cases hnot
        · exact hnoted hnot
        · exact hsent hnot
      refine hcontradiction later hsplit ?_ fun held' hsome => ?_
      · unfold Client.sends
        show i ∈ targetsOf "played" ((((init ctx).run past).play i).2.map _)
        rw [hplay]
        exact List.mem_singleton_self i
      · rw [processed_snoc] at hsome
        rw [heldAs_append hheld] at hsome
        exact (Option.some.inj hsome).symm
  · intro hplays
    have hothers {past : List Event} {e : Event} {later : List Event} (hsplit : events = past ++ e :: later)
        {kind t : String} (hkind : kind ∈ kinds) (ht : t ∈ targetsOf kind (((init ctx).run past).sends e)) :
        ∃ held, heldAs (processed (past ++ [e])) t = some held ∧ due (processed (past ++ [e])) kind t ctx.me = none ∧
          Counts held kind ctx.me := by
      obtain ⟨held, hheld, hdue, hmedia, hother | ⟨rfl, rfl, hdisclosed, hpast⟩⟩ := sends_others hkind ht
      · exact ⟨held, hheld, hdue, hother, hmedia⟩
      · exact ⟨held, hheld, hdue, hplays past t later hsplit hdisclosed held hpast (hmedia rfl), hmedia⟩
    have hreads := reads_run ctx events
    have hreceipted := receipted_run ctx events
    refine ⟨hreceipted.once, ?_, ?_, hreceipted.fit, fun a ha => (hreads.named a ha).1, hreads.apart, ?_, ?_, ?_⟩
    · intro past e later hsplit kind hkind t ht
      obtain ⟨held, hheld, -, hcounts⟩ := hothers hsplit hkind ht
      exact ⟨held, hheld, hcounts.1⟩
    · intro past e later hsplit kind hkind t ht
      obtain ⟨held, hheld, hdue, hcounts⟩ := hothers hsplit hkind ht
      have hearlier : ContentFirst (processed (past ++ [e])) := by
        rw [hsplit, ← List.singleton_append, ← List.append_assoc, processed_append] at hfirst
        exact hfirst.earlier
      rw [hearlier.due hkind, hheld] at hdue
      dsimp only at hdue
      rwa [if_pos hcounts] at hdue
    · intro past n later hsplit hpending
      exact pending_advance ctx past n hpending
    · rintro past later rfl who
      exact position_le ctx past later who
    · rintro past later rfl kind hkind id who
      rw [processed_append] at hfirst
      rw [entry_run ctx past hkind, hfirst.earlier.due hkind]

/-- Media of another, with a sibling's receipt for one of two in the same batch. -/
theorem receipts_once_example : ReceiptsOnce ⟨"did:web:bob", 0, 2, ⟨true, true, true, false⟩⟩
      [.sync [⟨1, .content ⟨"m1", "did:web:alice", "audio"⟩⟩, ⟨2, .content ⟨"m2", "did:web:alice", "text"⟩⟩,
        ⟨3, .receipt ⟨"delivered", "did:web:bob", 7, ["m1"], none⟩⟩], .play "m1", .read "m2"] := by
  refine (receipts_once ?_).mpr ?_
  · intro kind _ id who held hheld _
    by_cases hm1 : id = "m1"
    · subst hm1
      rfl
    · by_cases hm2 : id = "m2"
      · subst hm2
        rfl
      · have hnone (it : Item) (hit : it ∈ processed
            [.sync [⟨1, .content ⟨"m1", "did:web:alice", "audio"⟩⟩, ⟨2, .content ⟨"m2", "did:web:alice", "text"⟩⟩,
              ⟨3, .receipt ⟨"delivered", "did:web:bob", 7, ["m1"], none⟩⟩], .play "m1", .read "m2"]) :
            it.brings id = none := by
          simp only [processed, Event.items, List.flatMap_cons, List.flatMap_nil, List.append_nil, List.mem_cons,
            List.not_mem_nil, or_false] at hit
          rcases hit with rfl | rfl | rfl
          · exact if_neg fun h => hm1 h.symm
          · exact if_neg fun h => hm2 h.symm
          · rfl
        rw [heldAs, List.findSome?_eq_none_iff.mpr hnone] at hheld
        cases hheld
  · intro past i later hsplit _ held hheld _
    match past with
    | [] => cases hsplit
    | [e] =>
      obtain ⟨rfl, hrest⟩ := List.cons.inj hsplit
      cases hrest
      cases hheld
      decide
    | [e, e'] => cases hsplit
    | e :: e' :: e'' :: past => simp at hsplit

/-- What is played of one's own is receipted, and so is what a sibling receipted before it came. -/
theorem own_media_receipted : ¬ReceiptsOnce ⟨"did:web:bob", 0, 2, ⟨true, true, true, false⟩⟩
        [.sync [⟨1, .content ⟨"m1", "did:web:bob", "audio"⟩⟩], .play "m1"] ∧
      ¬ReceiptsOnce ⟨"did:web:bob", 0, 2, ⟨true, true, true, false⟩⟩
        [.sync [⟨2, .receipt ⟨"delivered", "did:web:bob", 7, ["m1"], none⟩⟩,
          ⟨1, .content ⟨"m1", "did:web:alice", "text"⟩⟩]] := by
  constructor
  · intro h
    obtain ⟨held, hheld, hother⟩ := h.others [.sync [⟨1, .content ⟨"m1", "did:web:bob", "audio"⟩⟩]] (.play "m1") []
      rfl "played" (by decide) "m1" (by decide +kernel)
    cases hheld
    exact hother rfl
  · intro h
    have hnone := h.unreceipted [] _ [] rfl "delivered" (by decide) "m1" (by decide +kernel)
    revert hnone
    decide +kernel

end Dsip.Messaging.Client
