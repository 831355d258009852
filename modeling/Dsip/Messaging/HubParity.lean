import Dsip.Messaging.HubTs

/-!
# The two hubs in step

`Same` relates the states of the Python and the TypeScript hub. What the second
has noted as sent stays behind its queues (`Behind`), and after every step every
head that nothing holds is among it (`Told`): a walk over the queues then sends
what the first hub sends where it changes them.
-/

namespace Dsip.Messaging.Hub

open Dsip.Lib

/-- The two hubs in the same state. -/
structure Same (h : Hub) (t : Ts.Hub) : Prop where
  now : t.now = h.now
  kind : t.kind = h.kind
  owner : t.owner = h.owner
  retention : t.retention = h.retention
  epoch : t.epoch = h.epoch
  nextSeq : t.nextSeq = h.nextSeq
  roster : ∀ i, t.roster.lookup i = h.roster.lookup i
  queue : ∀ k i, t.queue k i = h.queue k i
  filled : ∀ i, (i ∈ t.pending ↔ h.queue .items i ≠ []) ∧ (i ∈ t.welcomes ↔ h.queue .welcomes i ≠ [])
  classes : t.classes = h.seqClass
  digests : t.digests = h.digests
  unregistered : t.unregistered = h.unregistered
  groupInfo : t.groupInfo = h.groupInfo
  movedTo : t.movedTo = h.movedTo
  waiting : ∀ i, t.waiting.lookup i = h.waiting.lookup i

/-- Only heads have been sent. -/
structure Behind (t : Ts.Hub) : Prop where
  below : ∀ k i n, (k, i, n) ∈ t.sent → n < t.nextSeq
  tail : ∀ k i head rest, t.queue k i = head :: rest → ∀ n ∈ rest, (k, i, n) ∉ t.sent

/-- Every head that nothing holds has been sent. -/
def Told (t : Ts.Hub) : Prop :=
  ∀ k i head rest, t.queue k i = head :: rest → (k = .items → i ∉ t.unregistered) → (k, i, head) ∈ t.sent

/-- The two hubs between two steps. -/
structure InStep (h : Hub) (t : Ts.Hub) : Prop where
  same : Same h t
  behind : Behind t
  told : Told t

variable {h : Hub} {t : Ts.Hub}

/-! ## What a walk over the queues sends -/

/-- The head of a queue, when it has not been sent and nothing holds it. -/
def unsent (t : Ts.Hub) (k : Kind) (i : String) : Option Nat :=
  match t.queue k i with
  | [] => none
  | head :: _ => if (k = .items ∧ i ∈ t.unregistered) ∨ (k, i, head) ∈ t.sent then none else some head

theorem unsent_eq_some {k : Kind} {i : String} {head : Nat} : unsent t k i = some head ↔
      (∃ rest, t.queue k i = head :: rest) ∧ (k = .items → i ∉ t.unregistered) ∧ (k, i, head) ∉ t.sent := by
  unfold unsent
  cases hq : t.queue k i with
  | nil => simp
  | cons first rest =>
    dsimp only
    by_cases hheld : (k = .items ∧ i ∈ t.unregistered) ∨ (k, i, first) ∈ t.sent
    · rw [if_pos hheld]
      refine iff_of_false nofun ?_
      rintro ⟨⟨rest', hrest⟩, hclear, hsent⟩
      obtain ⟨rfl, -⟩ := List.cons.inj hrest
      rcases hheld with ⟨hk, hu⟩ | hin
      · exact hclear hk hu
      · exact hsent hin
    · rw [if_neg hheld]
      rw [not_or, not_and] at hheld
      constructor
      · intro he
        obtain rfl := Option.some.inj he
        exact ⟨⟨rest, rfl⟩, hheld.1, hheld.2⟩
      · rintro ⟨⟨rest', hrest⟩, -, -⟩
        obtain ⟨rfl, -⟩ := List.cons.inj hrest
        rfl

def news (t : Ts.Hub) (k : Kind) (i : String) : List Emit :=
  (unsent t k i).toList.map fun head => .fanout i (some head) (t.sentAs head k)

theorem flushHead_eq (k : Kind) (t : Ts.Hub) (i : String) : t.flushHead k i = (match unsent t k i with
        | none => t
        | some head => { t with sent := insert (k, i, head) t.sent }, news t k i) := by
  unfold Ts.Hub.flushHead news unsent
  cases t.queue k i with
  | nil => rfl
  | cons head rest =>
    dsimp only
    split <;> rfl

/-- The hub after a walk: only `sent` grew, and by heads. -/
def Walked (t t' : Ts.Hub) : Prop :=
  ∃ s, t' = { t with sent := s } ∧ t.sent ⊆ s ∧
    ∀ k i n, (k, i, n) ∈ s → (k, i, n) ∈ t.sent ∨ ∃ rest, t.queue k i = n :: rest

theorem Walked.refl (t : Ts.Hub) : Walked t t := ⟨t.sent, rfl, Finset.Subset.refl _, fun _ _ _ => .inl⟩

theorem Walked.trans {t' t'' : Ts.Hub} (h : Walked t t') (h' : Walked t' t'') : Walked t t'' := by
  obtain ⟨s, rfl, hsub, hnew⟩ := h
  obtain ⟨s', rfl, hsub', hnew'⟩ := h'
  refine ⟨s', rfl, hsub.trans hsub', ?_⟩
  intro k i n hn
  rcases hnew' k i n hn with hn | hn
  · exact hnew k i n hn
  · exact .inr hn

theorem walked_flushHead (k : Kind) (t : Ts.Hub) (i : String) : Walked t (t.flushHead k i).1 := by
  rw [flushHead_eq]
  cases hu : unsent t k i with
  | none => exact .refl t
  | some head =>
    refine ⟨_, rfl, Finset.subset_insert _ _, ?_⟩
    intro k' i' n hn
    rcases Finset.mem_insert.mp hn with he | hn
    · simp only [Prod.mk.injEq] at he
      obtain ⟨rfl, rfl, rfl⟩ := he
      exact .inr (unsent_eq_some.mp hu).1
    · exact .inl hn

theorem walked_foldEmit (k : Kind) (l : List String) (t : Ts.Hub) :
    Walked t (foldEmit (Ts.Hub.flushHead k) t l).1 :=
  foldEmit_invariant (P := Walked t) (fun i _ _ hs => hs.trans (walked_flushHead k _ i)) t (.refl t)

theorem Walked.frame {t' : Ts.Hub} (hw : Walked t t') :
    t'.pending = t.pending ∧ t'.welcomes = t.welcomes ∧ t'.unregistered = t.unregistered ∧
      t'.classes = t.classes ∧ t'.nextSeq = t.nextSeq := by
  obtain ⟨s, rfl, -⟩ := hw
  exact ⟨rfl, rfl, rfl, rfl, rfl⟩

theorem unsent_flushHead_own (k : Kind) (t : Ts.Hub) (i : String) :
    unsent (t.flushHead k i).1 k i = none := by
  rw [flushHead_eq]
  cases hu : unsent t k i with
  | none => exact hu
  | some head =>
    obtain ⟨⟨rest, hq⟩, -⟩ := unsent_eq_some.mp hu
    dsimp only
    unfold unsent
    rw [show Ts.Hub.queue { t with sent := insert (k, i, head) t.sent } k i = head :: rest from hq]
    exact if_pos (.inr (Finset.mem_insert_self _ _))

theorem unsent_flushHead_other {k k' : Kind} {t : Ts.Hub} {i j : String} (h : (k', j) ≠ (k, i)) :
    unsent (t.flushHead k i).1 k' j = unsent t k' j := by
  rw [flushHead_eq]
  cases unsent t k i with
  | none => rfl
  | some head =>
    dsimp only
    unfold unsent
    rw [show Ts.Hub.queue { t with sent := insert (k, i, head) t.sent } k' j = t.queue k' j from rfl]
    cases t.queue k' j with
    | nil => rfl
    | cons first rest =>
      dsimp only
      have hne : (k', j, first) ≠ (k, i, head) := by
        intro he
        simp only [Prod.mk.injEq] at he
        obtain ⟨rfl, rfl, -⟩ := he
        exact h rfl
      simp only [Finset.mem_insert, hne, false_or]

theorem walk_spec (k : Kind) {l : List String} (hl : l.Nodup) (t : Ts.Hub) :
    (foldEmit (Ts.Hub.flushHead k) t l).2 = l.flatMap (news t k) ∧
    (∀ i ∈ l, unsent (foldEmit (Ts.Hub.flushHead k) t l).1 k i = none) ∧
    ∀ k' i, k' ≠ k → unsent (foldEmit (Ts.Hub.flushHead k) t l).1 k' i = unsent t k' i := by
  let turn (env : Dict Nat DepositClass) (i : String) (v : Option Nat) : Option Nat × List Emit :=
    (none, v.toList.map fun head =>
      .fanout i (some head) (if k = .items then (env.lookup head).getD (.other "") else .welcome))
  have hkeys := @foldEmit_keys _ _ _ _ _ _ (fun t => unsent t k) (fun t : Ts.Hub => t.classes)
    (Ts.Hub.flushHead k) turn (fun s i => (walked_flushHead k s i).frame.2.2.2.1)
    (fun s i => unsent_flushHead_own k s i)
    (fun s i j hj => unsent_flushHead_other fun he => hj (Prod.mk.inj he).2)
    (fun s i => by rw [flushHead_eq]; cases k <;> rfl) _ hl t
  refine ⟨?_, ?_, ?_⟩
  · rw [hkeys.2.2]
    cases k <;> rfl
  · intro i hi
    exact (hkeys.2.1 i).trans (if_pos hi)
  · intro k' i hk
    refine foldEmit_invariant (P := fun s => unsent s k' i = unsent t k' i) ?_ t rfl
    intro j _ s hs
    exact (unsent_flushHead_other fun he => hk (Prod.mk.inj he).1).trans hs

/-- **The walk over all queues.** -/
theorem flush_spec (t : Ts.Hub)
    (hfilled : ∀ i, (t.queue .items i ≠ [] → i ∈ t.pending) ∧ (t.queue .welcomes i ≠ [] → i ∈ t.welcomes)) :
    Walked t t.flush.1 ∧ (∀ k i, unsent t.flush.1 k i = none) ∧
    t.flush.2 = t.pending.sortedKeys.flatMap (news t .items) ++
      t.welcomes.sortedKeys.flatMap (news t .welcomes) := by
  unfold Ts.Hub.flush
  dsimp only
  have hwalk := walked_foldEmit .items t.pending.sortedKeys t
  obtain ⟨hout, hnone, hother⟩ := walk_spec .items (Dict.nodup_sortedKeys t.pending) t
  generalize foldEmit (Ts.Hub.flushHead .items) t t.pending.sortedKeys = p at hwalk hout hnone hother
  have hwalk' := walked_foldEmit .welcomes p.1.welcomes.sortedKeys p.1
  obtain ⟨hout', hnone', hother'⟩ := walk_spec .welcomes (Dict.nodup_sortedKeys p.1.welcomes) p.1
  generalize foldEmit (Ts.Hub.flushHead .welcomes) p.1 p.1.welcomes.sortedKeys = w
    at hwalk' hout' hnone' hother'
  have hempty : ∀ {u : Ts.Hub} k i, u.queue k i = [] → unsent u k i = none := by
    intro u k i hq
    unfold unsent
    rw [hq]
  refine ⟨hwalk.trans hwalk', ?_, ?_⟩
  · intro k i
    cases k with
    | items =>
      rw [hother' .items i nofun]
      by_cases hi : i ∈ t.pending
      · exact hnone i (Dict.mem_sortedKeys.mpr hi)
      · apply hempty
        by_contra hne
        rw [Ts.Hub.queue, hwalk.frame.1] at hne
        exact hi ((hfilled i).1 hne)
    | welcomes =>
      by_cases hi : i ∈ t.welcomes
      · apply hnone' i
        rw [hwalk.frame.2.1]
        exact Dict.mem_sortedKeys.mpr hi
      · apply hempty
        by_contra hne
        rw [Ts.Hub.queue, (hwalk.trans hwalk').frame.2.1] at hne
        exact hi ((hfilled i).2 hne)
  · rw [hout, hout', hwalk.frame.2.1]
    congr 1
    apply List.flatMap_congr
    intro i _
    unfold news
    rw [hother .welcomes i nofun]
    rfl

theorem Same.sent (hs : Same h t) (s : Finset (Kind × String × Nat)) : Same h { t with sent := s } :=
  ⟨hs.now, hs.kind, hs.owner, hs.retention, hs.epoch, hs.nextSeq, hs.roster, hs.queue, hs.filled,
    hs.classes, hs.digests, hs.unregistered, hs.groupInfo, hs.movedTo, hs.waiting⟩

theorem Same.flush (hs : Same h t) (hq : h.Queues) (hb : Behind t) : InStep h t.flush.1 ∧
      t.flush.2 = t.pending.sortedKeys.flatMap (news t .items) ++
        t.welcomes.sortedKeys.flatMap (news t .welcomes) := by
  have hfilled : ∀ i, (t.queue .items i ≠ [] → i ∈ t.pending) ∧
      (t.queue .welcomes i ≠ [] → i ∈ t.welcomes) := by
    intro i
    rw [hs.queue, hs.queue]
    exact ⟨(hs.filled i).1.mpr, (hs.filled i).2.mpr⟩
  obtain ⟨hwalk, hnone, hout⟩ := flush_spec t hfilled
  refine ⟨?_, hout⟩
  obtain ⟨s, ht, hsub, hnew⟩ := hwalk
  rw [ht] at hnone ⊢
  refine ⟨hs.sent s, ⟨?_, ?_⟩, ?_⟩
  · intro k i n hn
    rcases hnew k i n hn with hn | ⟨rest, hrest⟩
    · exact hb.below k i n hn
    · show n < t.nextSeq
      rw [hs.nextSeq]
      apply hq.below k i
      rw [← hs.queue, hrest]
      exact List.mem_cons_self
  · intro k i head rest hqueue n hn hin
    replace hqueue : t.queue k i = head :: rest := hqueue
    rcases hnew k i n hin with hin | ⟨rest', hrest⟩
    · exact hb.tail k i head rest hqueue n hn hin
    · -- a queue is increasing, so nothing behind the head is the head
      have hinc := hq.increasing k i
      rw [← hs.queue, hqueue] at hinc
      rw [hqueue] at hrest
      obtain ⟨rfl, -⟩ := List.cons.inj hrest
      exact Nat.lt_irrefl _ (List.rel_of_pairwise_cons hinc hn)
  · intro k i head rest hqueue hclear
    by_contra hnot
    have hsome := unsent_eq_some.mpr ⟨⟨rest, hqueue⟩, hclear, hnot⟩
    rw [hnone k i] at hsome
    cases hsome

/-! ## The clock -/

theorem InStep.drop (hi : InStep h t) (i : String) :
    InStep (h.drop i).1 (t.drop i).1 ∧ (h.drop i).2 = (t.drop i).2 := by
  have hs := hi.same
  have hqueue : ∀ k j, (t.drop i).1.queue k j = if j = i then [] else t.queue k j := by
    intro k j
    cases k <;> exact queueOf_erase ..
  have hqueue' : ∀ k j, (h.drop i).1.queue k j = if j = i then [] else h.queue k j := by
    intro k j
    cases k <;> exact queueOf_erase ..
  have hcons : ∀ {k j head rest}, (t.drop i).1.queue k j = head :: rest →
      j ≠ i ∧ t.queue k j = head :: rest := by
    intro k j head rest hq
    rw [hqueue] at hq
    split at hq
    case isTrue => cases hq
    case isFalse hne => exact ⟨hne, hq⟩
  constructor
  · refine ⟨⟨hs.now, hs.kind, hs.owner, hs.retention, hs.epoch, hs.nextSeq, hs.roster, ?_, ?_,
      hs.classes, hs.digests, ?_, hs.groupInfo, hs.movedTo, ?_⟩, ⟨hi.behind.below, ?_⟩, ?_⟩
    · intro k j
      rw [hqueue, hqueue', hs.queue]
    · intro j
      rw [hqueue', hqueue']
      show (j ∈ t.pending.erase i ↔ _) ∧ (j ∈ t.welcomes.erase i ↔ _)
      rw [AList.mem_erase, AList.mem_erase, (hs.filled j).1, (hs.filled j).2]
      by_cases hj : j = i
      · simp [hj]
      · simp [hj]
    · exact congrArg (·.erase i) hs.unregistered
    · intro j
      show (t.waiting.erase i).lookup j = (h.waiting.erase i).lookup j
      rw [Dict.lookup_erase_eq, Dict.lookup_erase_eq, hs.waiting]
    · intro k j head rest hq
      exact hi.behind.tail k j head rest (hcons hq).2
    · intro k j head rest hq hclear
      obtain ⟨hne, hq⟩ := hcons hq
      refine hi.told k j head rest hq fun hk hu => hclear hk ?_
      exact Finset.mem_erase.mpr ⟨hne, hu⟩
  · show [Emit.dropped i (h.queue .items i) (h.queue .welcomes i)] =
      [Emit.dropped i (t.queue .items i) (t.queue .welcomes i)]
    rw [hs.queue, hs.queue]

theorem InStep.advance (hi : InStep h t) (n : Nat) :
    InStep (h.advance n).1 (t.advance n).1 ∧ (h.advance n).2 = (t.advance n).2 := by
  have hs := hi.same
  have hclock : InStep { h with now := h.now + n } { t with now := t.now + n } :=
    ⟨⟨congrArg (· + n) hs.now, hs.kind, hs.owner, hs.retention, hs.epoch, hs.nextSeq, hs.roster,
      hs.queue, hs.filled, hs.classes, hs.digests, hs.unregistered, hs.groupInfo, hs.movedTo,
      hs.waiting⟩, ⟨hi.behind.below, hi.behind.tail⟩, hi.told⟩
  have hdue : (t.waiting.sortedKeys.filter fun i =>
      (t.waiting.lookup i).any fun since => t.retention + since ≤ t.now + n) =
      h.waiting.sortedKeys.filter fun i =>
        (h.waiting.lookup i).any (· + h.retention ≤ h.now + n) := by
    have hkeys : t.waiting.sortedKeys = h.waiting.sortedKeys := by
      apply Dict.sortedKeys_congr
      intro i
      rw [Dict.mem_iff_lookup, Dict.mem_iff_lookup, hs.waiting]
    rw [hkeys]
    apply List.filter_congr
    intro i _
    rw [hs.waiting, hs.retention, hs.now]
    congr 1
    funext since
    rw [Nat.add_comm]
  unfold Hub.advance Ts.Hub.advance
  dsimp only
  rw [hdue]
  have hrel := @foldEmit_rel _ _ _ _ _ Hub.drop Ts.Hub.drop id InStep
    (h.waiting.sortedKeys.filter fun i => (h.waiting.lookup i).any (· + h.retention ≤ h.now + n))
    (fun i _ s u hR => hR.drop i) _ _ hclock
  rw [List.map_id] at hrel
  exact hrel

/-! ## Restarts -/

theorem InStep.restart (hi : InStep h t) (hq : h.Queues) :
    InStep h.restart.1 (t.step .restart).1 ∧ h.restart.2 = (t.step .restart).2 := by
  have hs := hi.same.sent ∅
  have hb : Behind { t with sent := ∅ } :=
    ⟨fun k i n hn => absurd hn (Finset.notMem_empty _),
      fun k i head rest _ n _ hn => absurd hn (Finset.notMem_empty _)⟩
  obtain ⟨hin, hout⟩ := hs.flush hq hb
  unfold Hub.restart
  rw [load_save]
  refine ⟨hin, ?_⟩
  show _ = ({ t with sent := ∅ } : Ts.Hub).flush.2
  rw [hout]
  have hheads : ∀ (k : Kind) (clear : String → Bool) (cls : Nat → DepositClass)
      (queues : Dict String (List Nat)) (keys : List String), keys.Pairwise (· < ·) →
      (∀ i, queueOf queues i = h.queue k i) → (∀ i, i ∈ keys ↔ h.queue k i ≠ []) →
      (∀ i, clear i = true ↔ (k = .items → i ∉ h.unregistered)) →
      (∀ n, cls n = Ts.Hub.sentAs { t with sent := ∅ } n k) →
      heads queues clear cls = keys.flatMap (news { t with sent := ∅ } k) := by
    intro k clear cls queues keys hkeys hqueues hmem hclear hcls
    unfold heads
    have hturn : ∀ i, (match queueOf queues i with
        | [] => []
        | seq :: _ => if clear i then [Emit.fanout i (some seq) (cls seq)] else []) =
        news { t with sent := ∅ } k i := by
      intro i
      unfold news unsent
      rw [hs.queue, hqueues]
      cases h.queue k i with
      | nil => rfl
      | cons head rest =>
        dsimp only
        by_cases hc : clear i = true
        · rw [if_pos hc, if_neg]
          · rw [hcls]
            rfl
          · rintro (⟨hk, hu⟩ | hin)
            · rw [hs.unregistered] at hu
              exact (hclear i).mp hc hk hu
            · exact absurd hin (Finset.notMem_empty _)
        · rw [if_neg hc, if_pos]
          · rfl
          · left
            rw [hclear, Classical.not_imp, not_not] at hc
            rw [hs.unregistered]
            exact hc
    have hnil : ∀ i, h.queue k i = [] → news { t with sent := ∅ } k i = [] := by
      intro i hnil
      unfold news unsent
      rw [hs.queue, hnil]
      rfl
    apply flatMap_eq_of_sorted (Dict.pairwise_sortedKeys queues) hkeys
    · exact fun i _ _ => hturn i
    · intro i _ hi
      rw [hmem, not_not] at hi
      exact (hturn i).trans (hnil i hi)
    · intro i hi hno
      apply hnil
      rw [Dict.mem_sortedKeys, ← AList.lookup_eq_none] at hno
      rw [← hqueues]
      unfold queueOf
      rw [hno]
      rfl
  refine congrArg₂ HAppend.hAppend ?_ ?_
  · apply hheads .items
    · exact Dict.pairwise_sortedKeys t.pending
    · exact fun _ => rfl
    · exact fun i => Dict.mem_sortedKeys.trans (hi.same.filled i).1
    · simp
    · intro n
      exact (congrArg (fun d => (d.lookup n).getD (.other "")) hs.classes).symm
  · apply hheads .welcomes
    · exact Dict.pairwise_sortedKeys t.welcomes
    · exact fun _ => rfl
    · exact fun i => Dict.mem_sortedKeys.trans (hi.same.filled i).2
    · simp
    · exact fun _ => rfl

/-! ## Acknowledgements -/

section Ack

variable {i : String} {seq : Nat} {cls : Option DepositClass} {rest : List Nat}

/-- The hold that is left when a head is acknowledged. -/
def holdAfter (u : Finset String) (i : String) (cls : Option DepositClass) (rest : List Nat) :
    Finset String :=
  if cls = some .welcome ∧ rest = [] then u.erase i else u

theorem holdAfter_of_not {u : Finset String} (hno : ¬ (cls = some .welcome ∧ rest = [] ∧ i ∈ u)) :
    holdAfter u i cls rest = u := by
  unfold holdAfter
  split
  case isTrue hw => exact Finset.erase_eq_of_notMem fun hu => hno ⟨hw.1, hw.2, hu⟩
  case isFalse => rfl

/-- What the acknowledgement of a head is answered with. -/
def ackOut (h : Hub) (i : String) (cls : Option DepositClass) : List Nat → List Emit
  | next :: _ =>
    if cls = some .welcome ∨ i ∉ h.unregistered then
      [.fanout i (some next) (cls.getD (h.classOf next))]
    else []
  | [] =>
    if cls = some .welcome ∧ i ∈ h.unregistered then
      match h.queue .items i with
      | [] => []
      | waiting :: _ => [.fanout i (some waiting) (h.classOf waiting)]
    else []

theorem ack_head (hq : h.queue (ackKind cls) i = seq :: rest) : h.ack i seq cls =
      ({ h.popHead i cls rest with unregistered := holdAfter h.unregistered i cls rest },
        h.ackOut i cls rest) := by
  have hclass : ∀ rest seq', (h.popHead i cls rest).classOf seq' = h.classOf seq' := by
    intro rest seq'
    rw [classOf, (popHead_frame h i cls rest).2.1, classOf]
  have hheld : ∀ rest, (h.popHead i cls rest).unregistered = h.unregistered :=
    fun rest => (popHead_frame h i cls rest).1
  unfold ack
  rw [queue_ackKind, hq]
  dsimp only
  rw [if_neg (not_not.mpr rfl)]
  cases rest with
  | cons next rest =>
    dsimp only [ackOut]
    rw [hheld, hclass, holdAfter_of_not (by simp), popHead_self]
    split <;> rfl
  | nil =>
    dsimp only [ackOut]
    rw [hheld]
    by_cases hreg : cls = some .welcome ∧ i ∈ h.unregistered
    · rw [if_pos hreg, if_pos hreg, holdAfter, if_pos ⟨hreg.1, rfl⟩]
      have hkind : ackKind cls = .welcomes := by simp [ackKind, hreg.1]
      have hitems : ∀ u, pendingOf { h.popHead i cls [] with unregistered := u } i = h.queue .items i := by
        intro u
        show (h.popHead i cls []).queue .items i = _
        rw [queue_popHead, hkind]
        rfl
      rw [hitems]
      cases h.queue .items i with
      | nil => rfl
      | cons waiting rest =>
        dsimp only
        rw [← hclass [] waiting]
        rfl
    · rw [if_neg hreg, if_neg hreg, holdAfter_of_not fun h => hreg ⟨h.1, h.2.2⟩, popHead_self]

/-- The other hub, when the head has left its queue. -/
def popped (t : Ts.Hub) (i : String) (cls : Option DepositClass) (rest : List Nat) : Ts.Hub :=
  let t : Ts.Hub :=
    if cls = some .welcome then { t with welcomes := Ts.Hub.popHead t.welcomes i rest }
    else { t with pending := Ts.Hub.popHead t.pending i rest }
  { t with
    unregistered :=
      if cls = some .welcome ∧ i ∉ t.welcomes then t.unregistered.erase i else t.unregistered
    waiting :=
      if i ∈ t.pending ∨ i ∈ t.welcomes then t.waiting.insert i t.now else t.waiting.erase i }

theorem ts_ack_head (hq : t.queue (ackKind cls) i = seq :: rest) :
    t.ack i seq cls = (popped t i cls rest).flush := by
  have hqueue : queueOf (if cls = some .welcome then t.welcomes else t.pending) i = seq :: rest := by
    rw [← hq]
    unfold ackKind
    split <;> rfl
  unfold Ts.Hub.ack
  rw [hqueue]
  dsimp only
  rw [if_neg (not_not.mpr rfl)]
  rfl

theorem queueOf_pop (queues : Dict String (List Nat)) (i j : String) (rest : List Nat) :
    queueOf (Ts.Hub.popHead queues i rest) j = if j = i then rest else queueOf queues j := by
  cases rest with
  | nil => exact queueOf_erase ..
  | cons next rest => exact queueOf_insert ..

theorem mem_pop (queues : Dict String (List Nat)) (i j : String) (rest : List Nat) :
    j ∈ Ts.Hub.popHead queues i rest ↔ if j = i then rest ≠ [] else j ∈ queues := by
  cases rest with
  | nil =>
    show j ∈ queues.erase i ↔ _
    rw [AList.mem_erase]
    by_cases hj : j = i
    · simp [hj]
    · simp [hj]
  | cons next rest =>
    show j ∈ queues.insert i (next :: rest) ↔ _
    rw [AList.mem_insert]
    by_cases hj : j = i
    · simp [hj]
    · simp [hj]

theorem queue_popped (t : Ts.Hub) (k : Kind) (j : String) :
    (popped t i cls rest).queue k j = if k = ackKind cls ∧ j = i then rest else t.queue k j := by
  unfold popped ackKind
  by_cases hc : cls = some .welcome
  · rw [if_pos hc, if_pos hc]
    cases k with
    | items => rfl
    | welcomes =>
      refine (queueOf_pop ..).trans ?_
      simp [Ts.Hub.queue]
  · rw [if_neg hc, if_neg hc]
    cases k with
    | welcomes => rfl
    | items =>
      refine (queueOf_pop ..).trans ?_
      simp [Ts.Hub.queue]

theorem mem_popped (t : Ts.Hub) (j : String) : (j ∈ (popped t i cls rest).pending ↔
      if .items = ackKind cls ∧ j = i then rest ≠ [] else j ∈ t.pending) ∧
    (j ∈ (popped t i cls rest).welcomes ↔
      if .welcomes = ackKind cls ∧ j = i then rest ≠ [] else j ∈ t.welcomes) := by
  unfold popped ackKind
  by_cases hc : cls = some .welcome
  · rw [if_pos hc, if_pos hc]
    refine ⟨by simp, ?_⟩
    refine (mem_pop ..).trans ?_
    simp
  · rw [if_neg hc, if_neg hc]
    refine ⟨?_, by simp⟩
    refine (mem_pop ..).trans ?_
    simp

theorem popHead_rest (h : Hub) (i : String) (cls : Option DepositClass) (rest : List Nat) :
    ∃ p w, h.popHead i cls rest = { h with
      pending := p
      welcomes := w
      waiting :=
        if queueOf p i ≠ [] ∨ queueOf w i ≠ [] then h.waiting.insert i h.now
        else h.waiting.erase i } := by
  unfold popHead
  split
  · exact ⟨_, _, rfl⟩
  · exact ⟨_, _, rfl⟩

theorem popped_rest (t : Ts.Hub) (i : String) (cls : Option DepositClass) (rest : List Nat) :
    ∃ p w, popped t i cls rest = { t with
      pending := p
      welcomes := w
      unregistered :=
        if cls = some .welcome ∧ i ∉ w then t.unregistered.erase i else t.unregistered
      waiting := if i ∈ p ∨ i ∈ w then t.waiting.insert i t.now else t.waiting.erase i } := by
  unfold popped
  split
  · exact ⟨_, _, rfl⟩
  · exact ⟨_, _, rfl⟩

theorem Same.popped (hs : Same h t) (i : String) (cls : Option DepositClass) (rest : List Nat) :
    Same { h.popHead i cls rest with unregistered := holdAfter h.unregistered i cls rest }
      (popped t i cls rest) := by
  have hqueue : ∀ k j, (h.popHead i cls rest).queue k j =
    if k = ackKind cls ∧ j = i then rest else h.queue k j := queue_popHead rest
  have hqueue' : ∀ k j, (Hub.popped t i cls rest).queue k j =
    if k = ackKind cls ∧ j = i then rest else t.queue k j := queue_popped t
  have hmem := @mem_popped i cls rest t
  obtain ⟨p, w, hp⟩ := popHead_rest h i cls rest
  obtain ⟨p', w', hp'⟩ := popped_rest t i cls rest
  rw [hp'] at hqueue' hmem ⊢
  rw [hp] at hqueue ⊢
  have hfilled : ∀ j, (j ∈ p' ↔ queueOf p j ≠ []) ∧ (j ∈ w' ↔ queueOf w j ≠ []) := by
    intro j
    have hitems := hqueue .items j
    have hwelcomes := hqueue .welcomes j
    replace hitems : queueOf p j = _ := hitems
    replace hwelcomes : queueOf w j = _ := hwelcomes
    rw [hitems, hwelcomes]
    constructor
    · refine (hmem j).1.trans ?_
      split
      case isTrue => rfl
      case isFalse => exact (hs.filled j).1
    · refine (hmem j).2.trans ?_
      split
      case isTrue => rfl
      case isFalse => exact (hs.filled j).2
  refine ⟨hs.now, hs.kind, hs.owner, hs.retention, hs.epoch, hs.nextSeq, hs.roster, ?_, hfilled,
    hs.classes, hs.digests, ?_, hs.groupInfo, hs.movedTo, ?_⟩
  · intro k j
    refine (hqueue' k j).trans ?_
    rw [hs.queue]
    exact (hqueue k j).symm
  · show (if cls = some .welcome ∧ i ∉ w' then t.unregistered.erase i else t.unregistered) = _
    rw [hs.unregistered]
    unfold holdAfter
    by_cases hc : cls = some .welcome
    · have hw : queueOf w i = rest := (hqueue .welcomes i).trans (if_pos ⟨by simp [ackKind, hc], rfl⟩)
      simp only [hc, true_and, (hfilled i).2, hw, not_not]
    · simp only [hc, false_and]
  · intro j
    show (if i ∈ p' ∨ i ∈ w' then t.waiting.insert i t.now else t.waiting.erase i).lookup j =
      (if queueOf p i ≠ [] ∨ queueOf w i ≠ [] then h.waiting.insert i h.now
        else h.waiting.erase i).lookup j
    simp only [(hfilled i).1, (hfilled i).2]
    split
    case isTrue => exact Dict.lookup_insert_congr hs.now fun _ => hs.waiting j
    case isFalse => rw [Dict.lookup_erase_eq, Dict.lookup_erase_eq, hs.waiting]

theorem flatMap_single {β : Type} {l : List String} (hl : l.Nodup) {f : String → List β}
    (i : String) (hother : ∀ j, j ≠ i → f j = []) (hown : i ∉ l → f i = []) : l.flatMap f = f i := by
  induction l with
  | nil => exact (hown List.not_mem_nil).symm
  | cons j l ih =>
    obtain ⟨hj, hl⟩ := List.nodup_cons.mp hl
    rw [List.flatMap_cons]
    by_cases hji : j = i
    · have hrest : l.flatMap f = [] := by
        apply List.flatMap_eq_nil_iff.mpr
        intro k hk
        exact hother k fun hki => hj (hji.trans hki.symm ▸ hk)
      rw [hrest, hji, List.append_nil]
    · rw [hother j hji, List.nil_append]
      apply ih hl
      intro hi
      apply hown
      rw [List.mem_cons, not_or]
      exact ⟨fun h => hji h.symm, hi⟩

theorem news_eq_nil {k : Kind} (hu : unsent t k i = none) : news t k i = [] := by
  unfold news
  rw [hu]
  rfl

theorem news_of_unsent {k : Kind} {head : Nat} (hu : unsent t k i = some head) :
    news t k i = [.fanout i (some head) (t.sentAs head k)] := by
  unfold news
  rw [hu]
  rfl

/-- What an acknowledgement asks for. -/
structure AckMeets (h : Hub) (t : Ts.Hub) (i : String) (seq : Nat) (cls : Option DepositClass) : Prop where
  /-- It names no class but that of the item that is next, if it names one. -/
  named : ∀ c, cls = some c → c ≠ .welcome → i ∉ h.unregistered → ∀ next rest,
    h.queue .items i = seq :: next :: rest → h.classOf next = c
  /-- When the last welcome of an identity that waits for it is acknowledged, the
  head of its items is not under way already. -/
  flight : cls = some .welcome → h.queue .welcomes i = [seq] → i ∈ h.unregistered →
    ∀ head rest, h.queue .items i = head :: rest → (.items, i, head) ∉ t.sent

theorem mem_holdAfter {u : Finset String} {j : String} (hj : j ∈ u) (hne : j ≠ i) :
    j ∈ holdAfter u i cls rest := by
  unfold holdAfter
  split
  case isTrue => exact Finset.mem_erase.mpr ⟨hne, hj⟩
  case isFalse => exact hj

theorem unsent_nil {k : Kind} (hq : t.queue k i = []) : unsent t k i = none := by
  unfold unsent
  rw [hq]

theorem InStep.behind_popped (hi : InStep h t) (hq : t.queue (ackKind cls) i = seq :: rest) :
    Behind (popped t i cls rest) := by
  have hsent : (popped t i cls rest).sent = t.sent := by
    obtain ⟨p, w, hp⟩ := popped_rest t i cls rest
    rw [hp]
  have hnext : (popped t i cls rest).nextSeq = t.nextSeq := by
    obtain ⟨p, w, hp⟩ := popped_rest t i cls rest
    rw [hp]
  refine ⟨?_, ?_⟩
  · rw [hsent, hnext]
    exact hi.behind.below
  · intro k j head rest' hqueue n hn
    rw [hsent]
    rw [queue_popped] at hqueue
    split at hqueue
    case isTrue hk =>
      obtain ⟨rfl, rfl⟩ := hk
      refine hi.behind.tail _ j seq rest hq n ?_
      rw [hqueue]
      exact List.mem_cons_of_mem _ hn
    case isFalse => exact hi.behind.tail k j head rest' hqueue n hn

theorem InStep.unsent_popped (hi : InStep h t) {k : Kind} {j : String} (hne : ¬ (k = ackKind cls ∧ j = i))
    (hu : k = .items → j ∈ t.unregistered → j ∈ (popped t i cls rest).unregistered) :
    unsent (popped t i cls rest) k j = none := by
  have hsent : (popped t i cls rest).sent = t.sent := by
    obtain ⟨p, w, hp⟩ := popped_rest t i cls rest
    rw [hp]
  cases hun : unsent (popped t i cls rest) k j with
  | none => rfl
  | some head =>
    obtain ⟨⟨rest', hqueue⟩, hclear, hnot⟩ := unsent_eq_some.mp hun
    rw [queue_popped, if_neg hne] at hqueue
    rw [hsent] at hnot
    exact absurd (hi.told k j head rest' hqueue fun hk hin => hclear hk (hu hk hin)) hnot

theorem InStep.news_popped (hi : InStep h t) (hq : h.queue (ackKind cls) i = seq :: rest)
    (hm : AckMeets h t i seq cls) :
    news (popped t i cls rest) .items i ++ news (popped t i cls rest) .welcomes i = h.ackOut i cls rest := by
  have hs := hi.same.popped i cls rest
  have hqt : t.queue (ackKind cls) i = seq :: rest := (hi.same.queue _ i).trans hq
  have hsent : (popped t i cls rest).sent = t.sent := by
    obtain ⟨p, w, hp⟩ := popped_rest t i cls rest
    rw [hp]
  have hhold : (popped t i cls rest).unregistered = holdAfter h.unregistered i cls rest := hs.unregistered
  have hclass : ∀ n, (popped t i cls rest).classOf n = h.classOf n := by
    intro n
    have hc : (popped t i cls rest).classes = h.seqClass := hs.classes.trans (popHead_frame h i cls rest).2.1
    unfold Ts.Hub.classOf classOf
    rw [hc]
  have htail : ∀ next rest', rest = next :: rest' → (ackKind cls, i, next) ∉ t.sent := by
    rintro next rest' rfl
    exact hi.behind.tail _ i seq _ hqt next List.mem_cons_self
  by_cases hw : cls = some .welcome
  · have hkind : ackKind cls = .welcomes := by simp [ackKind, hw]
    rw [hkind] at hq hqt htail
    cases rest with
    | cons next rest =>
      have hitems : unsent (popped t i cls (next :: rest)) .items i = none := by
        apply hi.unsent_popped
        · rw [hkind]
          exact fun h => by cases h.1
        · intro _ hin
          rw [hhold, holdAfter_of_not (by simp), ← hi.same.unregistered]
          exact hin
      have hwelcome : unsent (popped t i cls (next :: rest)) .welcomes i = some next := by
        refine unsent_eq_some.mpr ⟨⟨rest, ?_⟩, (fun h => by cases h), ?_⟩
        · rw [queue_popped, if_pos ⟨hkind.symm, rfl⟩]
        · rw [hsent]
          exact htail next rest rfl
      rw [news_eq_nil hitems, news_of_unsent hwelcome, ackOut, if_pos (.inl hw), hw]
      rfl
    | nil =>
      have hwelcome : unsent (popped t i cls []) .welcomes i = none := by
        apply unsent_nil
        rw [queue_popped, if_pos ⟨hkind.symm, rfl⟩]
      rw [news_eq_nil hwelcome, List.append_nil]
      by_cases hu : i ∈ h.unregistered
      · have hfree : i ∉ (popped t i cls []).unregistered := by
          rw [hhold, holdAfter, if_pos ⟨hw, rfl⟩]
          exact Finset.notMem_erase i _
        have hqueue : (popped t i cls []).queue .items i = h.queue .items i := by
          rw [queue_popped, if_neg (by rw [hkind]; exact fun h => by cases h.1)]
          exact hi.same.queue .items i
        rw [ackOut, if_pos ⟨hw, hu⟩]
        cases hitems : h.queue .items i with
        | nil => exact news_eq_nil (unsent_nil (hqueue.trans hitems))
        | cons head rest =>
          have hsome : unsent (popped t i cls []) .items i = some head := by
            refine unsent_eq_some.mpr ⟨⟨rest, hqueue.trans hitems⟩, fun _ => hfree, ?_⟩
            rw [hsent]
            exact hm.flight hw hq hu head rest hitems
          rw [news_of_unsent hsome]
          exact congrArg (fun c => [Emit.fanout i (some head) c]) (hclass head)
      · have hitems : unsent (popped t i cls []) .items i = none := by
          apply hi.unsent_popped
          · rw [hkind]
            exact fun h => by cases h.1
          · intro _ hin
            rw [hi.same.unregistered] at hin
            exact absurd hin hu
        rw [news_eq_nil hitems, ackOut, if_neg fun h => hu h.2]
  · have hkind : ackKind cls = .items := by simp [ackKind, hw]
    rw [hkind] at hq hqt htail
    have hwelcome : unsent (popped t i cls rest) .welcomes i = none := by
      apply hi.unsent_popped
      · rw [hkind]
        exact fun h => by cases h.1
      · exact fun h => by cases h
    rw [news_eq_nil hwelcome, List.append_nil]
    have hqueue : (popped t i cls rest).queue .items i = rest := by
      rw [queue_popped, if_pos ⟨hkind.symm, rfl⟩]
    have hkeep : (popped t i cls rest).unregistered = h.unregistered := by
      rw [hhold, holdAfter_of_not fun h => hw h.1]
    cases rest with
    | nil => rw [news_eq_nil (unsent_nil hqueue), ackOut, if_neg fun h => hw h.1]
    | cons next rest =>
      by_cases hu : i ∈ h.unregistered
      · have hnone : unsent (popped t i cls (next :: rest)) .items i = none := by
          unfold unsent
          rw [hqueue, hkeep]
          exact if_pos (.inl ⟨rfl, hu⟩)
        rw [news_eq_nil hnone, ackOut, if_neg]
        rintro (h | h)
        · exact hw h
        · exact h hu
      · have hsome : unsent (popped t i cls (next :: rest)) .items i = some next := by
          refine unsent_eq_some.mpr ⟨⟨rest, hqueue⟩, fun _ => ?_, ?_⟩
          · rw [hkeep]
            exact hu
          · rw [hsent]
            exact htail next rest rfl
        have hcls : cls.getD (h.classOf next) = h.classOf next := by
          cases hc : cls with
          | none => rfl
          | some c =>
            have hne : c ≠ .welcome := fun he => hw (hc.trans (congrArg some he))
            exact (hm.named c hc hne hu next rest hq).symm
        rw [news_of_unsent hsome, ackOut, if_pos (.inr hu), hcls]
        exact congrArg (fun c => [Emit.fanout i (some next) c]) (hclass next)

theorem InStep.ack (hi : InStep h t) (hq : h.Queues) (hm : AckMeets h t i seq cls) :
    InStep (h.ack i seq cls).1 (t.ack i seq cls).1 ∧ (h.ack i seq cls).2 = (t.ack i seq cls).2 := by
  have hqt : queueOf (if cls = some .welcome then t.welcomes else t.pending) i = h.queue (ackKind cls) i := by
    rw [← hi.same.queue]
    unfold ackKind
    split <;> rfl
  have hignored : (∀ rest, h.queue (ackKind cls) i ≠ seq :: rest) →
      h.ack i seq cls = (h, []) ∧ t.ack i seq cls = (t, []) := by
    intro hno
    unfold Hub.ack Ts.Hub.ack
    rw [queue_ackKind, hqt]
    cases hqueue : h.queue (ackKind cls) i with
    | nil => exact ⟨rfl, rfl⟩
    | cons head rest =>
      have hne : head ≠ seq := fun he => hno rest (hqueue.trans (he ▸ rfl))
      exact ⟨if_pos hne, if_pos hne⟩
  by_cases hhead : ∃ rest, h.queue (ackKind cls) i = seq :: rest
  · obtain ⟨rest, hqueue⟩ := hhead
    have hqueue' : t.queue (ackKind cls) i = seq :: rest := (hi.same.queue _ i).trans hqueue
    have hq₁ := (ack_spec i seq cls hq).2
    rw [ack_head hqueue] at hq₁ ⊢
    rw [ts_ack_head hqueue']
    obtain ⟨hin, hout⟩ := (hi.same.popped i cls rest).flush hq₁ (hi.behind_popped hqueue')
    refine ⟨hin, ?_⟩
    rw [hout]
    show h.ackOut i cls rest = _
    rw [← hi.news_popped hqueue hm]
    have hs := hi.same.popped i cls rest
    refine congrArg₂ HAppend.hAppend (flatMap_single (Dict.nodup_sortedKeys _) i ?_ ?_).symm
      (flatMap_single (Dict.nodup_sortedKeys _) i ?_ ?_).symm
    · intro j hj
      apply news_eq_nil
      apply hi.unsent_popped fun h => hj h.2
      intro _ hin
      rw [hs.unregistered]
      rw [hi.same.unregistered] at hin
      exact mem_holdAfter hin hj
    · intro hno
      rw [Dict.mem_sortedKeys, (hs.filled i).1, not_not, ← hs.queue] at hno
      exact news_eq_nil (unsent_nil hno)
    · intro j hj
      apply news_eq_nil
      exact hi.unsent_popped (fun h => hj h.2) nofun
    · intro hno
      rw [Dict.mem_sortedKeys, (hs.filled i).2, not_not, ← hs.queue] at hno
      exact news_eq_nil (unsent_nil hno)
  · obtain ⟨h₁, h₂⟩ := hignored fun rest hqueue => hhead ⟨rest, hqueue⟩
    rw [h₁, h₂]
    exact ⟨hi, rfl⟩

end Ack

/-! ## Queueing -/

section Filing

theorem push_out {now seq : Nat} {cls : DepositClass} {clear : String → Bool} {l : List String}
    (hl : l.Nodup) (st : Dict String Nat × Dict String (List Nat)) :
    (foldEmit (push now seq cls clear) st l).2 =
      l.flatMap fun i => if queueOf st.2 i = [] ∧ clear i then [.fanout i (some seq) cls] else [] := by
  let turn (_ : Unit) (i : String) (q : List Nat) : List Nat × List Emit :=
    (q ++ [seq], if q = [] ∧ clear i then [.fanout i (some seq) cls] else [])
  have hout : ∀ (s : Dict String Nat × Dict String (List Nat)) i,
      (push now seq cls clear s i).2 = (turn () i (queueOf s.2 i)).2 := by
    intro s i
    simp only [push, turn, List.length_append, List.length_singleton]
    cases queueOf s.2 i <;> simp
  have hkeys := @foldEmit_keys _ _ _ _ _ _
    (fun (s : Dict String Nat × Dict String (List Nat)) i => queueOf s.2 i) (fun _ => ())
    (push now seq cls clear) turn (fun _ _ => rfl)
    (fun s i => (queueOf_insert ..).trans (if_pos rfl))
    (fun s i j hj => (queueOf_insert ..).trans (if_neg hj)) hout _ hl st
  exact hkeys.2.2

/-- When a clock was started that stood. -/
def startedAt (now : Nat) (l : List String) (w : Dict String Nat) (i : String) : Option Nat :=
  (w.lookup i).or (if i ∈ l then some now else none)

theorem startedAt_append (now : Nat) (l l' : List String) (w w' : Dict String Nat)
    (hw : ∀ i, w'.lookup i = startedAt now l w i) (i : String) :
    startedAt now l' w' i = startedAt now (l ++ l') w i := by
  unfold startedAt at hw ⊢
  rw [hw]
  cases w.lookup i with
  | some u => rfl
  | none =>
    by_cases hl : i ∈ l
    · simp [hl]
    · simp [hl]

theorem lookup_startClock (now : Nat) (w : Dict String Nat) (a i : String) :
    (if a ∈ w then w else w.insert a now).lookup i = startedAt now [a] w i := by
  unfold startedAt
  split
  case isTrue ha =>
    by_cases hi : i = a
    · subst hi
      obtain ⟨u, hu⟩ := Dict.mem_iff_lookup.mp ha
      rw [hu]
      rfl
    · simp [hi]
  case isFalse ha =>
    rw [Dict.lookup_insert_eq]
    by_cases hi : i = a
    · subst hi
      rw [if_pos rfl, AList.lookup_eq_none.mpr ha]
      simp
    · simp [hi]

theorem lookup_waiting_push {now seq : Nat} {cls : DepositClass} {clear : String → Bool}
    (l : List String) (st : Dict String Nat × Dict String (List Nat)) (i : String) :
    (foldEmit (push now seq cls clear) st l).1.1.lookup i = startedAt now l st.1 i := by
  induction l generalizing st with
  | nil => simp [startedAt]
  | cons a l ih =>
    rw [foldEmit_cons, ih]
    exact startedAt_append now [a] l st.1 _ (fun j => lookup_startClock now st.1 a j) i

theorem lookup_startClocks (now : Nat) (l : List String) (w : Dict String Nat) (i : String) :
    (l.foldl (Ts.Hub.startClock now) w).lookup i = startedAt now l w i := by
  induction l generalizing w with
  | nil => simp [startedAt]
  | cons a l ih =>
    rw [List.foldl_cons, ih]
    exact startedAt_append now [a] l w _ (fun j => lookup_startClock now w a j) i

theorem queueOf_enqueue {seq : Nat} {l : List String} (hl : l.Nodup)
    (queues : Dict String (List Nat)) (i : String) : queueOf (l.foldl (Ts.Hub.enqueue seq) queues) i =
      if i ∈ l then queueOf queues i ++ [seq] else queueOf queues i := by
  induction l generalizing queues with
  | nil => rfl
  | cons a l ih =>
    obtain ⟨ha, hl⟩ := List.nodup_cons.mp hl
    rw [List.foldl_cons, ih hl]
    simp only [Ts.Hub.enqueue, queueOf_insert, List.mem_cons]
    by_cases hia : i = a
    · subst hia
      simp [ha]
    · simp [hia]

theorem mem_enqueue {seq : Nat} (l : List String) (queues : Dict String (List Nat)) (i : String) :
    i ∈ l.foldl (Ts.Hub.enqueue seq) queues ↔ i ∈ queues ∨ i ∈ l := by
  induction l generalizing queues with
  | nil => simp
  | cons a l ih =>
    rw [List.foldl_cons, ih, Ts.Hub.enqueue, AList.mem_insert, List.mem_cons]
    tauto

theorem InStep.unsent_filed (hi : InStep h t) {t' : Ts.Hub} {k : Kind} {i : String} {got : Prop}
    [Decidable got] (hqueue : t'.queue k i = if got then t.queue k i ++ [t.nextSeq] else t.queue k i)
    (hsent : t'.sent = t.sent) (hu : k = .items → i ∈ t.unregistered → i ∈ t'.unregistered) :
    unsent t' k i = if got ∧ t.queue k i = [] ∧ (k = .items → i ∉ t'.unregistered) then
      some t.nextSeq else none := by
  cases hq : t.queue k i with
  | nil =>
    rw [hq] at hqueue
    by_cases hg : got
    · rw [if_pos hg] at hqueue
      replace hqueue : t'.queue k i = [t.nextSeq] := hqueue
      by_cases hclear : k = .items → i ∉ t'.unregistered
      · rw [if_pos ⟨hg, rfl, hclear⟩]
        refine unsent_eq_some.mpr ⟨⟨[], hqueue⟩, hclear, ?_⟩
        rw [hsent]
        exact fun hin => Nat.lt_irrefl _ (hi.behind.below k i _ hin)
      · rw [if_neg fun h => hclear h.2.2]
        unfold unsent
        rw [hqueue]
        rw [Classical.not_imp, not_not] at hclear
        exact if_pos (.inl hclear)
    · rw [if_neg hg] at hqueue
      rw [if_neg fun h => hg h.1]
      exact unsent_nil hqueue
  | cons head rest =>
    rw [if_neg (by simp)]
    -- the head is what it was
    have hhead : ∃ rest', t'.queue k i = head :: rest' := by
      rw [hqueue, hq]
      split <;> exact ⟨_, rfl⟩
    cases hun : unsent t' k i with
    | none => rfl
    | some head' =>
      obtain ⟨⟨rest', hrest⟩, hclear, hnot⟩ := unsent_eq_some.mp hun
      obtain ⟨rest'', hrest'⟩ := hhead
      rw [hrest] at hrest'
      obtain ⟨rfl, -⟩ := List.cons.inj hrest'
      rw [hsent] at hnot
      exact absurd (hi.told k i head' rest hq fun hk hin => hclear hk (hu hk hin)) hnot

end Filing

end Dsip.Messaging.Hub
