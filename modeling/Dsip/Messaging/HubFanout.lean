import Dsip.Messaging.HubNumbering

/-!
# The fan-out queues of a hub

Every identity has two queues, its items and its welcomes, one clock, and a
hold on its items while `unregistered` has it. `StepSpec` says what one step
does to the queues and what it sends; `Queues` is the invariant that ties the
queues, the hold and the clock together. Over a run they give that nothing is
lost, nothing goes out of order, and the head of every queue that nothing holds
is on its way (`FannedOut`).
-/

namespace Dsip.Messaging.Hub

open Dsip.Lib

/-- The two queues of an identity. -/
inductive Kind where
  | items
  | welcomes
  deriving DecidableEq, Repr

def queue (h : Hub) : Kind → String → List Nat
  | .items => h.pendingOf
  | .welcomes => h.welcomesOf

/-- The queue a fan-out of a class comes from. -/
def kindOf (cls : DepositClass) : Kind := if cls = .welcome then .welcomes else .items

def ackKind (cls : Option DepositClass) : Kind :=
  if cls = some .welcome then .welcomes else .items

/-- A seq of one of `i`'s queues is fanned out. -/
def Sends (out : List Emit) (k : Kind) (i : String) (seq : Nat) : Prop :=
  ∃ cls, kindOf cls = k ∧ .fanout i (some seq) cls ∈ out

/-- Nothing holds the queue back: a welcome is never held. -/
def Clear (h : Hub) (k : Kind) (i : String) : Prop := k = .items → i ∉ h.unregistered

/-- What a step can do to a queue. -/
inductive QueueStep (h : Hub) (ev : Event) (h' : Hub) (out : List Emit) (k : Kind) (i : String) : Prop
  | same : h'.queue k i = h.queue k i → QueueStep h ev h' out k i
  | queued (d : Deposit) : ev = .deposit d → h'.queue k i = h.queue k i ++ [h.nextSeq] →
      h'.nextSeq = h.nextSeq + 1 → QueueStep h ev h' out k i
  | acked (seq : Nat) (cls : Option DepositClass) : ev = .ack i seq cls → ackKind cls = k →
      h.queue k i = seq :: h'.queue k i → QueueStep h ev h' out k i
  | dropped : h'.queue k i = [] → .dropped i (h.queue .items i) (h.queue .welcomes i) ∈ out →
      QueueStep h ev h' out k i

/-- What one step does to the queues, and what it sends: only heads that
nothing holds, and every one of them that was not there before. -/
structure StepSpec (h : Hub) (ev : Event) (h' : Hub) (out : List Emit) : Prop where
  moves : ∀ k i, QueueStep h ev h' out k i
  sends : ∀ k i seq, Sends out k i seq → h'.Clear k i ∧ ∃ rest, h'.queue k i = seq :: rest
  heads : ∀ k i seq rest, h'.queue k i = seq :: rest → h'.Clear k i →
    Sends out k i seq ∨ (ev ≠ .restart ∧ h.Clear k i ∧ ∃ rest, h.queue k i = seq :: rest)

/-- The queues, the hold and the clock of every identity. -/
structure Queues (h : Hub) : Prop where
  increasing : ∀ k i, (h.queue k i).Pairwise (· < ·)
  below : ∀ k i, ∀ seq ∈ h.queue k i, seq < h.nextSeq
  classed : ∀ i, ∀ seq ∈ h.queue .items i, (h.classOf seq).Sequenced
  held : ∀ i ∈ h.unregistered, h.queue .welcomes i ≠ []
  clock : ∀ i, i ∈ h.waiting ↔ ∃ k, h.queue k i ≠ []

variable {h : Hub}

theorem kindOf_sequenced {cls : DepositClass} (hc : cls.Sequenced) : kindOf cls = .items := by
  rcases hc with rfl | rfl <;> rfl

theorem clear_welcomes (h : Hub) (i : String) : h.Clear .welcomes i := nofun

theorem StepSpec.of_same {ev : Event} {h' : Hub} {out : List Emit}
    (hq : ∀ k i, h'.queue k i = h.queue k i) (hu : h'.unregistered = h.unregistered)
    (hev : ev ≠ .restart) (hout : ∀ k i seq, ¬ Sends out k i seq) : StepSpec h ev h' out where
  moves k i := .same (hq k i)
  sends k i seq hs := absurd hs (hout k i seq)
  heads k i seq rest hhead hclear := by
    rw [hq] at hhead
    rw [Clear, hu] at hclear
    exact .inr ⟨hev, hclear, rest, hhead⟩

theorem Queues.of_same {h' : Hub} (hi : h.Queues) (hq : ∀ k i, h'.queue k i = h.queue k i)
    (hu : h'.unregistered = h.unregistered) (hw : h'.waiting = h.waiting)
    (hc : h'.seqClass = h.seqClass) (hn : h.nextSeq ≤ h'.nextSeq) : h'.Queues where
  increasing k i := by rw [hq]; exact hi.increasing k i
  below k i seq hmem := by
    rw [hq] at hmem
    exact lt_of_lt_of_le (hi.below k i seq hmem) hn
  classed i seq hmem := by
    rw [hq] at hmem
    have hcls := hi.classed i seq hmem
    rwa [classOf, ← hc] at hcls
  held i hmem := by
    rw [hu] at hmem
    rw [hq]
    exact hi.held i hmem
  clock i := by
    rw [hw, hi.clock]
    simp only [hq]

/-! ## Queueing a seq -/

theorem queueOf_insert (queues : Dict String (List Nat)) (i j : String) (q : List Nat) :
    queueOf (queues.insert j q) i = if i = j then q else queueOf queues i := by
  rw [queueOf, Dict.lookup_insert_eq]
  split <;> rfl

theorem queueOf_erase (queues : Dict String (List Nat)) (i j : String) :
    queueOf (queues.erase j) i = if i = j then [] else queueOf queues i := by
  rw [queueOf, Dict.lookup_erase_eq]
  split <;> rfl

section Push

variable {now seq : Nat} {cls : DepositClass} {clear : String → Bool}

theorem queueOf_push {l : List String} (hl : l.Nodup)
    (st : Dict String Nat × Dict String (List Nat)) (i : String) :
    queueOf (foldEmit (push now seq cls clear) st l).1.2 i =
      if i ∈ l then queueOf st.2 i ++ [seq] else queueOf st.2 i := by
  induction l generalizing st with
  | nil => rfl
  | cons a l ih =>
    obtain ⟨ha, hl⟩ := List.nodup_cons.mp hl
    rw [foldEmit_cons, ih hl]
    simp only [push, queueOf_insert, List.mem_cons]
    by_cases hia : i = a
    · subst hia
      simp [ha]
    · simp [hia]

theorem mem_waiting_push (l : List String) (st : Dict String Nat × Dict String (List Nat))
    (i : String) : i ∈ (foldEmit (push now seq cls clear) st l).1.1 ↔ i ∈ st.1 ∨ i ∈ l := by
  induction l generalizing st with
  | nil => simp
  | cons a l ih =>
    rw [foldEmit_cons, ih, List.mem_cons]
    simp only [push]
    split
    case isTrue ha =>
      by_cases hia : i = a
      · subst hia
        simp [ha]
      · simp [hia]
    case isFalse => rw [AList.mem_insert]; tauto

theorem mem_push_out {l : List String} (hl : l.Nodup)
    (st : Dict String Nat × Dict String (List Nat)) (e : Emit) :
    e ∈ (foldEmit (push now seq cls clear) st l).2 ↔
      ∃ i ∈ l, queueOf st.2 i = [] ∧ clear i ∧ e = .fanout i (some seq) cls := by
  induction l generalizing st with
  | nil => simp
  | cons a l ih =>
    obtain ⟨ha, hl⟩ := List.nodup_cons.mp hl
    have htail : ∀ i ∈ l, queueOf (push now seq cls clear st a).1.2 i = queueOf st.2 i := by
      intro i hi
      have hne : i ≠ a := fun he => ha (he ▸ hi)
      simp [push, queueOf_insert, hne]
    have hhead : e ∈ (push now seq cls clear st a).2 ↔
        queueOf st.2 a = [] ∧ clear a ∧ e = .fanout a (some seq) cls := by
      simp only [push, List.length_append, List.length_singleton]
      split <;> simp_all
    rw [foldEmit_cons, List.mem_append, hhead, ih hl, List.exists_mem_cons_iff]
    refine or_congr Iff.rfl (exists_congr fun i => and_congr_right fun hi => ?_)
    rw [htail i hi]

end Push

/-- The identities that get a new seq: the members, and in their welcome queue
the invited. -/
def Gets (h : Hub) (invited : Finset String) : Kind → String → Prop
  | .items, i => i ∈ h.roster
  | .welcomes, i => i ∈ invited

instance (h : Hub) (invited : Finset String) : ∀ k i, Decidable (h.Gets invited k i)
  | .items, i => inferInstanceAs (Decidable (i ∈ h.roster))
  | .welcomes, i => inferInstanceAs (Decidable (i ∈ invited))

/-- An accepted deposit, as the queues see it. -/
structure Filed (h : Hub) (d : Deposit) (invited : Finset String) (h' : Hub) (out : List Emit) : Prop where
  queue : ∀ k i, h'.queue k i =
    if h.Gets invited k i then h.queue k i ++ [h.nextSeq] else h.queue k i
  unregistered : h'.unregistered = h.unregistered ∪ invited.filter (· ∉ h.roster)
  waiting : ∀ i, i ∈ h'.waiting ↔ i ∈ h.waiting ∨ ∃ k, h.Gets invited k i
  seqClass : h'.seqClass = h.seqClass.insert h.nextSeq d.cls
  nextSeq : h'.nextSeq = h.nextSeq + 1
  sends : ∀ k i seq, Sends out k i seq ↔ h.Gets invited k i ∧ h.queue k i = [] ∧ h.Clear k i ∧ seq = h.nextSeq

theorem exists_kind {P : Kind → Prop} : (∃ k, P k) ↔ P .items ∨ P .welcomes := by
  constructor
  · rintro ⟨k, hk⟩
    cases k with
    | items => exact .inl hk
    | welcomes => exact .inr hk
  · rintro (hk | hk)
    · exact ⟨_, hk⟩
    · exact ⟨_, hk⟩

theorem sends_append {out out' : List Emit} {k : Kind} {i : String} {seq : Nat} :
    Sends (out ++ out') k i seq ↔ Sends out k i seq ∨ Sends out' k i seq := by
  simp only [Sends, List.mem_append, and_or_left, exists_or]

theorem sends_push {now seq seq' : Nat} {cls : DepositClass} {clear : String → Bool}
    {l : List String} (hl : l.Nodup) (st : Dict String Nat × Dict String (List Nat)) (k : Kind)
    (i : String) : Sends (foldEmit (push now seq cls clear) st l).2 k i seq' ↔
      k = kindOf cls ∧ i ∈ l ∧ queueOf st.2 i = [] ∧ clear i ∧ seq' = seq := by
  simp only [Sends, mem_push_out hl, Emit.fanout.injEq, Option.some.injEq]
  constructor
  · rintro ⟨cls', hk, j, hj, hq, hc, rfl, rfl, rfl⟩
    exact ⟨hk.symm, hj, hq, hc, rfl⟩
  · rintro ⟨rfl, hi, hq, hc, rfl⟩
    exact ⟨cls, rfl, i, hi, hq, hc, rfl, rfl, rfl⟩

theorem sequence_filed {d : Deposit} (hc : d.cls.Sequenced) :
    Filed h d ∅ (h.sequence d h.roster.sortedKeys).1 (h.sequence d h.roster.sortedKeys).2 where
  queue k i := by
    cases k with
    | items =>
      show queueOf (foldEmit (push h.now h.nextSeq d.cls (· ∉ h.unregistered))
        (h.waiting, h.pending) h.roster.sortedKeys).1.2 i = _
      rw [queueOf_push h.roster.nodup_sortedKeys]
      exact if_congr Dict.mem_sortedKeys rfl rfl
    | welcomes => simp [Gets, queue, sequence]
  unregistered := by simp [sequence]
  waiting i := by simp [sequence, mem_waiting_push, exists_kind, Gets]
  seqClass := rfl
  nextSeq := rfl
  sends k i seq := by
    have hcons : Sends (h.sequence d h.roster.sortedKeys).2 k i seq ↔
        Sends (foldEmit (push h.now h.nextSeq d.cls (· ∉ h.unregistered)) (h.waiting, h.pending)
          h.roster.sortedKeys).2 k i seq := by
      simp [Sends, sequence]
    rw [hcons, sends_push h.roster.nodup_sortedKeys, kindOf_sequenced hc]
    cases k <;> simp [Gets, queue, Clear]

/-- The identities a commit's welcome goes to. -/
def invited (h : Hub) (c : Commit) : Finset String :=
  if c.external then ∅ else gained h.roster c.adds

theorem applyCommit_filed {d : Deposit} (hc : d.cls.Sequenced) (c : Commit) :
    Filed h d (h.invited c) (h.applyCommit d c).1 (h.applyCommit d c).2 := by
  have hf := sequence_filed (h := h) hc
  unfold applyCommit invited
  dsimp only
  by_cases hx : c.external = true
  · rw [if_pos hx, if_pos hx]
    exact ⟨hf.queue, hf.unregistered, hf.waiting, hf.seqClass, hf.nextSeq, hf.sends⟩
  · rw [if_neg hx, if_neg hx]
    have hnodup := nodup_sorted (gained h.roster c.adds)
    constructor
    · intro k i
      cases k with
      | items => exact hf.queue .items i
      | welcomes =>
        show queueOf (foldEmit (push h.now h.nextSeq .welcome fun _ => true)
          ((h.sequence d h.roster.sortedKeys).1.waiting, h.welcomes)
          (sorted (gained h.roster c.adds))).1.2 i = _
        rw [queueOf_push hnodup]
        exact if_congr mem_sorted rfl rfl
    · rfl
    · intro i
      have hw := hf.waiting i
      simp only [exists_kind, Gets, Finset.notMem_empty, or_false] at hw
      simp [welcome, mem_waiting_push, exists_kind, Gets, hw, or_assoc]
    · exact hf.seqClass
    · exact hf.nextSeq
    · intro k i seq
      rw [sends_append, hf.sends, welcome, sends_push hnodup]
      cases k <;> simp [Gets, queue, Clear, kindOf, sequence]

section Filing

variable {d : Deposit} {new : Finset String} {h' : Hub} {out : List Emit}

theorem Filed.clear_of_clear (hf : Filed h d new h' out) {k : Kind} {i : String}
    (hc : h'.Clear k i) : h.Clear k i := by
  intro hk hmem
  refine hc hk ?_
  rw [hf.unregistered]
  exact Finset.mem_union_left _ hmem

theorem Filed.stepSpec (hf : Filed h d new h' out) : StepSpec h (.deposit d) h' out where
  moves k i := by
    by_cases hg : h.Gets new k i
    · refine .queued d rfl ?_ hf.nextSeq
      rw [hf.queue, if_pos hg]
    · refine .same ?_
      rw [hf.queue, if_neg hg]
  sends k i seq hs := by
    obtain ⟨hg, hq, hc, rfl⟩ := (hf.sends k i seq).mp hs
    constructor
    · intro hk
      subst hk
      have hmember : i ∈ h.roster := hg
      have hreg : i ∉ h.unregistered := hc rfl
      rw [hf.unregistered]
      simp [hmember, hreg]
    · exact ⟨[], by rw [hf.queue, if_pos hg, hq, List.nil_append]⟩
  heads k i seq rest hhead hclear := by
    have hc := hf.clear_of_clear hclear
    rw [hf.queue] at hhead
    by_cases hg : h.Gets new k i
    · rw [if_pos hg] at hhead
      cases hq : h.queue k i with
      | nil =>
        rw [hq] at hhead
        have hseq : seq = h.nextSeq := by simpa using (List.cons.inj hhead).1.symm
        exact .inl ((hf.sends k i seq).mpr ⟨hg, hq, hc, hseq⟩)
      | cons head tail =>
        rw [hq] at hhead
        have hseq : head = seq := (List.cons.inj hhead).1
        exact .inr ⟨nofun, hc, tail, hseq ▸ rfl⟩
    · rw [if_neg hg] at hhead
      exact .inr ⟨nofun, hc, rest, hhead⟩

theorem Filed.mem_queue (hf : Filed h d new h' out) {k : Kind} {i : String} {seq : Nat}
    (hmem : seq ∈ h'.queue k i) : seq ∈ h.queue k i ∨ seq = h.nextSeq := by
  rw [hf.queue] at hmem
  split at hmem
  · simpa using hmem
  · exact .inl hmem

theorem Filed.queue_ne_nil (hf : Filed h d new h' out) (k : Kind) (i : String) :
    h'.queue k i ≠ [] ↔ h.queue k i ≠ [] ∨ h.Gets new k i := by
  rw [hf.queue]
  by_cases hg : h.Gets new k i
  · simp [hg]
  · simp [hg]

theorem Filed.queues (hf : Filed h d new h' out) (hc : d.cls.Sequenced) (hi : h.Queues) : h'.Queues where
  increasing k i := by
    rw [hf.queue]
    split
    · rw [List.pairwise_append]
      refine ⟨hi.increasing k i, List.pairwise_singleton _ _, ?_⟩
      intro a ha b hb
      rw [List.mem_singleton.mp hb]
      exact hi.below k i a ha
    · exact hi.increasing k i
  below k i seq hmem := by
    rw [hf.nextSeq]
    rcases hf.mem_queue hmem with hold | rfl
    · exact Nat.lt_succ_of_lt (hi.below k i seq hold)
    · exact Nat.lt_succ_self _
  classed i seq hmem := by
    rw [classOf, hf.seqClass, Dict.lookup_insert_eq]
    rcases hf.mem_queue hmem with hold | rfl
    · rw [if_neg (hi.below .items i seq hold).ne]
      exact hi.classed i seq hold
    · rw [if_pos rfl]
      exact hc
  held i hmem := by
    rw [hf.unregistered, Finset.mem_union, Finset.mem_filter] at hmem
    rw [hf.queue_ne_nil]
    rcases hmem with hold | hnew
    · exact .inl (hi.held i hold)
    · exact .inr hnew.1
  clock i := by
    rw [hf.waiting, hi.clock]
    simp only [hf.queue_ne_nil, exists_or]

end Filing

/-! ## Every event -/

theorem not_sends_of_forall {out : List Emit} (ho : ∀ i seq cls, .fanout i (some seq) cls ∉ out)
    (k : Kind) (i : String) (seq : Nat) : ¬ Sends out k i seq := by
  rintro ⟨cls, -, hmem⟩
  exact ho i seq cls hmem

theorem groupInfoOut_sends (d : Deposit) (roster : Roster) (k : Kind) (i : String) (seq : Nat) :
    ¬ Sends (groupInfoOut d roster) k i seq :=
  not_sends_of_forall (by simp [groupInfoOut]) k i seq

theorem deposit_spec (d : Deposit) (hi : h.Queues) :
    StepSpec h (.deposit d) (h.deposit d).1 (h.deposit d).2 ∧ (h.deposit d).1.Queues := by
  have ho := deposit_outcome h d
  generalize h.deposit d = r at ho ⊢
  cases ho with
  | refused reason =>
    exact ⟨.of_same (fun _ _ => rfl) rfl nofun (not_sends_of_forall (by simp [refuse])), hi⟩
  | expired => exact ⟨.of_same (fun _ _ => rfl) rfl nofun (not_sends_of_forall (by simp)), hi⟩
  | relayed => exact ⟨.of_same (fun _ _ => rfl) rfl nofun (not_sends_of_forall (by simp)), hi⟩
  | duplicate seq =>
    exact ⟨.of_same (fun _ _ => rfl) rfl nofun (not_sends_of_forall (by simp)), hi⟩
  | published =>
    have hq : ∀ k i, queue { h with groupInfo := true } k i = h.queue k i := by
      intro k i
      cases k <;> rfl
    exact ⟨.of_same hq rfl nofun (groupInfoOut_sends d _), hi.of_same hq rfl rfl rfl le_rfl⟩
  | sequenced _ hc =>
    have hf := sequence_filed (h := h) hc
    exact ⟨hf.stepSpec, hf.queues hc hi⟩
  | committed c _ hc =>
    have hf := applyCommit_filed (h := h) (.inl hc) c
    exact ⟨hf.stepSpec, hf.queues (.inl hc) hi⟩
  | returned view handoverSeq _ _ _ _ _ hle =>
    -- the roster and the epoch are the view's; what was queued keeps draining
    have hq : ∀ k i, queue
        { h with
          movedTo := none
          epoch := view.epoch
          roster := view.roster
          nextSeq := handoverSeq + 1
          groupInfo := true } k i = h.queue k i := by
      intro k i
      cases k <;> rfl
    exact ⟨.of_same hq rfl nofun (groupInfoOut_sends d _), hi.of_same hq rfl rfl rfl (Nat.le_succ_of_le hle)⟩

section Ack

variable {i : String} {seq : Nat} {cls : Option DepositClass}

inductive AckOutcome (h : Hub) (i : String) (seq : Nat) (cls : Option DepositClass) : Hub × List Emit → Prop
  | ignored : AckOutcome h i seq cls (h, [])
  | next (head : Nat) (rest : List Nat) : h.queue (ackKind cls) i = seq :: head :: rest →
      h.Clear (ackKind cls) i →
      AckOutcome h i seq cls (h.popHead i cls (head :: rest),
        [.fanout i (some head) (cls.getD (h.classOf head))])
  | held (rest : List Nat) : h.queue (ackKind cls) i = seq :: rest →
      (rest = [] ∨ ¬ h.Clear (ackKind cls) i) →
      (cls = some .welcome → i ∉ h.unregistered) →
      AckOutcome h i seq cls (h.popHead i cls rest, [])
  | registered : cls = some .welcome → h.queue .welcomes i = [seq] → i ∈ h.unregistered →
      AckOutcome h i seq cls
        ({ h.popHead i cls [] with unregistered := h.unregistered.erase i },
          match h.queue .items i with
          | [] => []
          | waiting :: _ => [.fanout i (some waiting) (h.classOf waiting)])

theorem queue_ackKind (h : Hub) (cls : Option DepositClass) (i : String) :
    queueOf (h.ackedQueues cls) i = h.queue (ackKind cls) i := by
  unfold ackedQueues ackKind
  split <;> rfl

theorem queue_popHead (rest : List Nat) (k : Kind) (j : String) : (h.popHead i cls rest).queue k j =
      if k = ackKind cls ∧ j = i then rest else h.queue k j := by
  unfold popHead ackKind
  by_cases hc : cls = some .welcome
  · rw [if_pos hc, if_pos hc]
    cases k with
    | items => rfl
    | welcomes =>
      show queueOf (h.welcomes.insert i rest) j = _
      rw [queueOf_insert]
      simp [queue]
  · rw [if_neg hc, if_neg hc]
    cases k with
    | welcomes => rfl
    | items =>
      show queueOf (h.pending.insert i rest) j = _
      rw [queueOf_insert]
      simp [queue]

theorem popHead_frame (h : Hub) (i : String) (cls : Option DepositClass) (rest : List Nat) :
    (h.popHead i cls rest).unregistered = h.unregistered ∧ (h.popHead i cls rest).seqClass = h.seqClass ∧
      (h.popHead i cls rest).nextSeq = h.nextSeq := by
  unfold popHead
  split <;> exact ⟨rfl, rfl, rfl⟩

theorem mem_waiting_restartClock (h : Hub) (i j : String) : j ∈ (h.restartClock i).waiting ↔
      if j = i then ∃ k, h.queue k i ≠ [] else j ∈ h.waiting := by
  rw [exists_kind]
  unfold restartClock
  dsimp only
  split
  case isTrue hne =>
    rw [AList.mem_insert]
    by_cases hj : j = i
    · simp [hj, queue, hne]
    · simp [hj]
  case isFalse hne =>
    rw [AList.mem_erase]
    by_cases hj : j = i
    · simpa [hj, queue] using hne
    · simp [hj]

theorem mem_waiting_popHead (rest : List Nat) (j : String) : j ∈ (h.popHead i cls rest).waiting ↔
      if j = i then ∃ k, (h.popHead i cls rest).queue k i ≠ [] else j ∈ h.waiting := by
  have hw : ∀ g : Hub, g.waiting = h.waiting → (j ∈ (g.restartClock i).waiting ↔
      if j = i then ∃ k, (g.restartClock i).queue k i ≠ [] else j ∈ h.waiting) := by
    intro g hg
    rw [mem_waiting_restartClock, hg]
    rfl
  unfold popHead
  split
  · exact hw _ rfl
  · exact hw _ rfl

theorem ack_outcome (h : Hub) (i : String) (seq : Nat) (cls : Option DepositClass) :
    AckOutcome h i seq cls (h.ack i seq cls) := by
  unfold ack
  rw [queue_ackKind]
  have hclass : ∀ rest seq', (h.popHead i cls rest).classOf seq' = h.classOf seq' := by
    intro rest seq'
    rw [classOf, (popHead_frame h i cls rest).2.1, classOf]
  have hheld : ∀ rest, (h.popHead i cls rest).unregistered = h.unregistered :=
    fun rest => (popHead_frame h i cls rest).1
  split
  case h_1 => exact .ignored
  case h_2 head rest hq =>
    split
    case isTrue => exact .ignored
    case isFalse heq =>
      obtain rfl : head = seq := not_not.mp heq
      dsimp only
      split
      case h_1 next rest =>
        rw [hheld, hclass]
        split
        case isTrue hgo =>
          refine .next next rest hq ?_
          unfold Clear ackKind
          rcases hgo with hw | hu
          · simp [hw]
          · exact fun _ => hu
        case isFalse hstop =>
          push Not at hstop
          obtain ⟨hw, hu⟩ := hstop
          refine .held _ hq (.inr ?_) fun h' => absurd h' hw
          simp [Clear, ackKind, hw, hu]
      case h_2 =>
        rw [hheld]
        split
        case isTrue hreg =>
          obtain ⟨hw, hu⟩ := hreg
          have hkind : ackKind cls = .welcomes := by simp [ackKind, hw]
          rw [hkind] at hq
          have hitems : ∀ u, pendingOf { h.popHead i cls [] with unregistered := u } i =
              h.queue .items i := by
            intro u
            show (h.popHead i cls []).queue .items i = _
            rw [queue_popHead, hkind]
            rfl
          simp only [hitems]
          have hout := AckOutcome.registered hw hq hu
          cases hp : h.queue .items i with
          | nil => simpa only [hp] using hout
          | cons waiting rest =>
            simp only [hp] at hout
            rw [← hclass [] waiting] at hout
            exact hout
        case isFalse hstay =>
          refine .held [] hq (.inl rfl) fun hw hu => hstay ⟨hw, hu⟩

theorem popHead_self (rest : List Nat) :
    { h.popHead i cls rest with unregistered := h.unregistered } = h.popHead i cls rest := by
  unfold popHead
  split <;> rfl

theorem popHead_queues {rest : List Nat} {u : Finset String} (hi : h.Queues)
    (hq : h.queue (ackKind cls) i = seq :: rest)
    (held : ∀ j ∈ u, (h.popHead i cls rest).queue .welcomes j ≠ []) :
    Queues { h.popHead i cls rest with unregistered := u } := by
  obtain ⟨-, hc, hn⟩ := popHead_frame h i cls rest
  have hsub : ∀ k j, List.Sublist ((h.popHead i cls rest).queue k j) (h.queue k j) := by
    intro k j
    rw [queue_popHead]
    split
    case isTrue hkj =>
      obtain ⟨rfl, rfl⟩ := hkj
      rw [hq]
      exact List.sublist_cons_self _ _
    case isFalse => exact List.Sublist.refl _
  have hqueue : ∀ k j, queue { h.popHead i cls rest with unregistered := u } k j =
      (h.popHead i cls rest).queue k j := by
    intro k j
    cases k <;> rfl
  constructor
  · intro k j
    rw [hqueue]
    exact (hi.increasing k j).sublist (hsub k j)
  · intro k j a ha
    rw [hqueue] at ha
    exact lt_of_lt_of_le (hi.below k j a ((hsub k j).subset ha)) hn.ge
  · intro j a ha
    rw [hqueue] at ha
    have hcls := hi.classed j a ((hsub _ j).subset ha)
    rw [classOf, ← hc] at hcls
    exact hcls
  · intro j hj
    rw [hqueue]
    exact held j hj
  · intro j
    simp only [hqueue]
    show j ∈ (h.popHead i cls rest).waiting ↔ _
    rw [mem_waiting_popHead]
    split
    case isTrue hj => rw [hj]
    case isFalse hj =>
      rw [hi.clock]
      simp [queue_popHead, hj]

theorem popHead_stepSpec {rest : List Nat} {u : Finset String} {out : List Emit}
    (hq : h.queue (ackKind cls) i = seq :: rest) (hsends : ∀ k j s, Sends out k j s → (k = .items → j ∉ u) ∧
      ∃ tail, (h.popHead i cls rest).queue k j = s :: tail)
    (hhead : ∀ s tail, rest = s :: tail → (ackKind cls = .items → i ∉ u) → Sends out (ackKind cls) i s)
    (hfreed : ∀ j s tail, j ∉ u → j ∈ h.unregistered → h.queue .items j = s :: tail → Sends out .items j s) :
    StepSpec h (.ack i seq cls) { h.popHead i cls rest with unregistered := u } out := by
  have hqueue : ∀ k j, queue { h.popHead i cls rest with unregistered := u } k j =
      if k = ackKind cls ∧ j = i then rest else h.queue k j := by
    intro k j
    rw [← queue_popHead]
    cases k <;> rfl
  constructor
  · intro k j
    by_cases hkj : k = ackKind cls ∧ j = i
    · obtain ⟨rfl, rfl⟩ := hkj
      refine .acked seq cls rfl rfl ?_
      rw [hqueue, if_pos ⟨rfl, rfl⟩, hq]
    · refine .same ?_
      rw [hqueue, if_neg hkj]
  · intro k j s hs
    obtain ⟨hc, tail, ht⟩ := hsends k j s hs
    refine ⟨hc, tail, ?_⟩
    rw [hqueue, ← queue_popHead, ht]
  · intro k j s tail ht hc
    rw [hqueue] at ht
    by_cases hkj : k = ackKind cls ∧ j = i
    · obtain ⟨rfl, rfl⟩ := hkj
      rw [if_pos ⟨rfl, rfl⟩] at ht
      exact .inl (hhead s tail ht hc)
    · rw [if_neg hkj] at ht
      by_cases hold : h.Clear k j
      · exact .inr ⟨nofun, hold, tail, ht⟩
      · -- the hold on the queue ended with this ack
        unfold Clear at hold
        push Not at hold
        obtain ⟨rfl, hmem⟩ := hold
        exact .inl (hfreed j s tail (hc rfl) hmem ht)

theorem sends_singleton {j : String} {s s' : Nat} {cls' : DepositClass} {k : Kind} :
    Sends [.fanout i (some s') cls'] k j s ↔ k = kindOf cls' ∧ j = i ∧ s = s' := by
  simp only [Sends, List.mem_singleton, Emit.fanout.injEq, Option.some.injEq]
  constructor
  · rintro ⟨c, hk, rfl, rfl, rfl⟩
    exact ⟨hk.symm, rfl, rfl⟩
  · rintro ⟨rfl, rfl, rfl⟩
    exact ⟨cls', rfl, rfl, rfl, rfl⟩

theorem not_sends_nil (k : Kind) (j : String) (s : Nat) : ¬ Sends [] k j s :=
  not_sends_of_forall (fun _ _ _ => List.not_mem_nil) k j s

theorem ack_spec (i : String) (seq : Nat) (cls : Option DepositClass) (hi : h.Queues) :
    StepSpec h (.ack i seq cls) (h.ack i seq cls).1 (h.ack i seq cls).2 ∧ (h.ack i seq cls).1.Queues := by
  have ho := ack_outcome h i seq cls
  generalize h.ack i seq cls = r at ho ⊢
  cases ho with
  | ignored => exact ⟨.of_same (fun _ _ => rfl) rfl nofun not_sends_nil, hi⟩
  | next head rest hq hclear =>
    have hkind : kindOf (cls.getD (h.classOf head)) = ackKind cls := by
      cases cls with
      | some c => simp [kindOf, ackKind]
      | none =>
        have hmem : head ∈ h.queue .items i := by
          rw [show Kind.items = ackKind none from rfl, hq]
          simp
        exact kindOf_sequenced (hi.classed i head hmem)
    dsimp only
    rw [← popHead_self]
    refine ⟨popHead_stepSpec hq ?_ ?_ ?_, popHead_queues hi hq ?_⟩
    · intro k j s hs
      obtain ⟨rfl, rfl, rfl⟩ := sends_singleton.mp hs
      rw [hkind]
      exact ⟨hclear, rest, by rw [queue_popHead, if_pos ⟨rfl, rfl⟩]⟩
    · rintro s tail ht -
      exact sends_singleton.mpr ⟨hkind.symm, rfl, (List.cons.inj ht).1.symm⟩
    · intro j s tail hj hmem
      exact absurd hmem hj
    · intro j hj
      rw [queue_popHead]
      split
      · exact List.cons_ne_nil _ _
      · exact hi.held j hj
  | held rest hq hstop hreg =>
    dsimp only
    rw [← popHead_self]
    refine ⟨popHead_stepSpec hq ?_ ?_ ?_, popHead_queues hi hq ?_⟩
    · intro k j s hs
      exact absurd hs (not_sends_nil k j s)
    · intro s tail ht hc
      rcases hstop with rfl | hstop
      · cases ht
      · exact absurd hc hstop
    · intro j s tail hj hmem
      exact absurd hmem hj
    · intro j hj
      rw [queue_popHead]
      split
      case isTrue hkj =>
        obtain ⟨hk, rfl⟩ := hkj
        have hw : cls = some .welcome := by
          unfold ackKind at hk
          split at hk
          case isTrue hw => exact hw
          case isFalse => cases hk
        exact absurd hj (hreg hw)
      case isFalse => exact hi.held j hj
  | registered hw hq hmem =>
    have hkind : ackKind cls = .welcomes := by simp [ackKind, hw]
    have hitems : (h.popHead i cls []).queue .items i = h.queue .items i := by
      rw [queue_popHead, hkind]
      rfl
    rw [← hkind] at hq
    have hsent : ∀ k j s, Sends (match h.queue .items i with
        | [] => []
        | waiting :: _ => [.fanout i (some waiting) (h.classOf waiting)]) k j s ↔
        k = .items ∧ j = i ∧ ∃ tail, h.queue .items i = s :: tail := by
      intro k j s
      cases hp : h.queue .items i with
      | nil => simpa using not_sends_nil k j s
      | cons waiting tail =>
        have hcls := kindOf_sequenced (hi.classed i waiting (by rw [hp]; simp))
        rw [sends_singleton, hcls]
        simp [eq_comm]
    refine ⟨popHead_stepSpec hq ?_ ?_ ?_, popHead_queues hi hq ?_⟩
    · intro k j s hs
      obtain ⟨rfl, rfl, tail, ht⟩ := (hsent k j s).mp hs
      exact ⟨fun _ => Finset.notMem_erase _ _, tail, hitems.trans ht⟩
    · intro s tail ht
      cases ht
    · intro j s tail hj hmem' ht
      have hji : j = i := by
        by_contra hne
        exact hj (Finset.mem_erase.mpr ⟨hne, hmem'⟩)
      subst hji
      exact (hsent _ _ _).mpr ⟨rfl, rfl, tail, ht⟩
    · intro j hj
      obtain ⟨hne, hj⟩ := Finset.mem_erase.mp hj
      rw [queue_popHead, if_neg fun hkj => hne hkj.2]
      exact hi.held j hj

end Ack

/-- What a round of drops leaves, and what it says was dropped. -/
structure Drops (h : Hub) (l : List String) (h' : Hub) (out : List Emit) : Prop where
  queue : ∀ k i, h'.queue k i = if i ∈ l then [] else h.queue k i
  unregistered : ∀ i, i ∈ h'.unregistered ↔ i ∈ h.unregistered ∧ i ∉ l
  waiting : ∀ i, i ∈ h'.waiting ↔ i ∈ h.waiting ∧ i ∉ l
  seqClass : h'.seqClass = h.seqClass
  nextSeq : h'.nextSeq = h.nextSeq
  dropped : ∀ i ∈ l, .dropped i (h.queue .items i) (h.queue .welcomes i) ∈ out
  sends : ∀ k i seq, ¬ Sends out k i seq

theorem drop_queue (i : String) (k : Kind) (j : String) :
    (h.drop i).1.queue k j = if j = i then [] else h.queue k j := by
  cases k with
  | items => exact queueOf_erase h.pending j i
  | welcomes => exact queueOf_erase h.welcomes j i

theorem drops (l : List String) (h : Hub) : Drops h l (foldEmit drop h l).1 (foldEmit drop h l).2 := by
  induction l generalizing h with
  | nil => exact ⟨by simp, by simp, by simp, rfl, rfl, by simp, not_sends_nil⟩
  | cons a l ih =>
    have hr := ih (h.drop a).1
    rw [foldEmit_cons]
    refine ⟨?_, ?_, ?_, hr.seqClass, hr.nextSeq, ?_, ?_⟩
    · intro k i
      rw [hr.queue, drop_queue]
      by_cases hia : i = a
      · simp [hia]
      · simp [hia]
    · intro i
      rw [hr.unregistered]
      simp only [drop, Finset.mem_erase, List.mem_cons]
      tauto
    · intro i
      rw [hr.waiting]
      simp only [drop, AList.mem_erase, List.mem_cons]
      tauto
    · intro i hi
      rw [List.mem_append]
      by_cases hia : i = a
      · subst hia
        exact .inl (List.mem_singleton.mpr rfl)
      · have hmem := hr.dropped i ((List.mem_cons.mp hi).resolve_left hia)
        simp only [drop_queue, if_neg hia] at hmem
        exact .inr hmem
    · intro k i seq hs
      rcases sends_append.mp hs with hs | hs
      · exact not_sends_of_forall (by simp [drop]) k i seq hs
      · exact hr.sends k i seq hs

theorem advance_drops (h : Hub) (n : Nat) : ∃ l, Drops h l (h.advance n).1 (h.advance n).2 := by
  have hnow : ∀ k i, queue { h with now := h.now + n } k i = h.queue k i := by
    intro k i
    cases k <;> rfl
  obtain ⟨hq, hu, hw, hc, hn, hdropped, hsends⟩ := drops (h.waiting.sortedKeys.filter fun i =>
    (h.waiting.lookup i).any (· + h.retention ≤ h.now + n)) { h with now := h.now + n }
  simp only [hnow] at hq hdropped
  exact ⟨_, hq, hu, hw, hc, hn, hdropped, hsends⟩

theorem Drops.stepSpec {l : List String} {h' : Hub} {out : List Emit} {n : Nat}
    (hd : Drops h l h' out) : StepSpec h (.advance n) h' out where
  moves k i := by
    by_cases hl : i ∈ l
    · refine .dropped ?_ (hd.dropped i hl)
      rw [hd.queue, if_pos hl]
    · refine .same ?_
      rw [hd.queue, if_neg hl]
  sends k i seq hs := absurd hs (hd.sends k i seq)
  heads k i seq rest hhead hclear := by
    rw [hd.queue] at hhead
    by_cases hl : i ∈ l
    · simp [hl] at hhead
    · rw [if_neg hl] at hhead
      refine .inr ⟨nofun, fun hk hmem => ?_, rest, hhead⟩
      exact hclear hk ((hd.unregistered i).mpr ⟨hmem, hl⟩)

theorem Drops.queues {l : List String} {h' : Hub} {out : List Emit} (hd : Drops h l h' out)
    (hi : h.Queues) : h'.Queues where
  increasing k i := by
    rw [hd.queue]
    split
    · exact List.Pairwise.nil
    · exact hi.increasing k i
  below k i seq hmem := by
    rw [hd.queue] at hmem
    rw [hd.nextSeq]
    by_cases hl : i ∈ l
    · simp [hl] at hmem
    · rw [if_neg hl] at hmem
      exact hi.below k i seq hmem
  classed i seq hmem := by
    rw [hd.queue] at hmem
    rw [classOf, hd.seqClass]
    by_cases hl : i ∈ l
    · simp [hl] at hmem
    · rw [if_neg hl] at hmem
      exact hi.classed i seq hmem
  held i hmem := by
    obtain ⟨hmem, hl⟩ := (hd.unregistered i).mp hmem
    rw [hd.queue, if_neg hl]
    exact hi.held i hmem
  clock i := by
    rw [hd.waiting, hi.clock]
    simp only [hd.queue]
    by_cases hl : i ∈ l
    · simp [hl]
    · simp [hl]

theorem advance_spec (n : Nat) (hi : h.Queues) :
    StepSpec h (.advance n) (h.advance n).1 (h.advance n).2 ∧ (h.advance n).1.Queues := by
  obtain ⟨l, hd⟩ := advance_drops h n
  exact ⟨hd.stepSpec, hd.queues hi⟩

theorem sends_heads {queues : Dict String (List Nat)} {clear : String → Bool}
    {cls : Nat → DepositClass} {k : Kind} {i : String} {seq : Nat} : Sends (heads queues clear cls) k i seq ↔
      kindOf (cls seq) = k ∧ clear i ∧ ∃ rest, queueOf queues i = seq :: rest := by
  simp only [Sends, heads, List.mem_flatMap, Dict.mem_sortedKeys]
  constructor
  · rintro ⟨c, hk, j, -, hmem⟩
    cases hq : queueOf queues j with
    | nil => simp [hq] at hmem
    | cons head rest =>
      simp only [hq] at hmem
      split at hmem
      case isTrue hc =>
        simp only [List.mem_singleton, Emit.fanout.injEq, Option.some.injEq] at hmem
        obtain ⟨rfl, rfl, rfl⟩ := hmem
        exact ⟨hk, hc, rest, hq⟩
      case isFalse => cases hmem
  · rintro ⟨hk, hc, rest, hq⟩
    have hmem : i ∈ queues := by
      rw [Dict.mem_iff_lookup]
      cases hl : queues.lookup i with
      | none => simp [queueOf, hl] at hq
      | some q => exact ⟨q, rfl⟩
    exact ⟨cls seq, hk, i, hmem, by simp [hq, hc]⟩

theorem restart_spec (hi : h.Queues) : StepSpec h .restart h.restart.1 h.restart.2 ∧ h.restart.1.Queues := by
  have hs : ∀ k i seq, Sends h.restart.2 k i seq ↔ h.Clear k i ∧ ∃ rest, h.queue k i = seq :: rest := by
    intro k i seq
    simp only [restart, load_save, sends_append, sends_heads]
    cases k with
    | welcomes =>
      simp only [Clear, reduceCtorEq, false_implies, true_and]
      constructor
      · rintro (⟨hk, -, rest, hq⟩ | ⟨-, hq⟩)
        · rw [kindOf_sequenced (hi.classed i seq (by simp [queue, pendingOf, hq]))] at hk
          cases hk
        · exact hq
      · exact fun hq => .inr ⟨rfl, hq⟩
    | items =>
      simp only [Clear, true_implies, decide_eq_true_eq]
      constructor
      · rintro (⟨-, hc, hq⟩ | ⟨hk, -⟩)
        · exact ⟨hc, hq⟩
        · cases hk
      · rintro ⟨hc, rest, hq⟩
        refine .inl ⟨kindOf_sequenced (hi.classed i seq ?_), hc, rest, hq⟩
        rw [hq]
        exact List.mem_cons_self
  have hsame : h.restart.1 = h := load_save h
  rw [hsame]
  refine ⟨⟨fun k i => .same rfl, fun k i seq h' => (hs k i seq).mp h', ?_⟩, hi⟩
  intro k i seq rest hq hc
  exact .inl ((hs k i seq).mpr ⟨hc, rest, hq⟩)

theorem step_spec (ev : Event) (hi : h.Queues) :
    StepSpec h ev (h.step ev).1 (h.step ev).2 ∧ (h.step ev).1.Queues := by
  cases ev with
  | advance n => exact advance_spec n hi
  | ack i seq cls => exact ack_spec i seq cls hi
  | restart => exact restart_spec hi
  | deposit d => exact deposit_spec d hi

/-! ## Whole runs -/

/-- The seq has been fanned out to `i` since it was queued there and since the
last restart: some step of the run sent it, and it stayed queued from there on
with no restart. -/
inductive FannedOut (ctx : Context) (k : Kind) (i : String) (seq : Nat) :
    TSys.Trace Event (List Emit) → Hub → Prop
  | sent {tr h ev h' out} : (machine ctx).Run (Hub.init ctx) tr h → h.step ev = (h', out) →
      Sends out k i seq → seq ∈ h'.queue k i → FannedOut ctx k i seq (tr ++ [(ev, out)]) h'
  | kept {tr h ev h' out} : FannedOut ctx k i seq tr h → ev ≠ .restart → h.step ev = (h', out) →
      seq ∈ h'.queue k i → FannedOut ctx k i seq (tr ++ [(ev, out)]) h'

theorem queues_init (ctx : Context) : (Hub.init ctx).Queues := by
  have hq : ∀ k i, (Hub.init ctx).queue k i = [] := by
    intro k i
    cases k <;> rfl
  constructor
  · intro k i
    rw [hq]
    exact List.Pairwise.nil
  · simp [hq]
  · simp [hq]
  · simp [Hub.init]
  · intro i
    simp only [hq, ne_eq, not_true]
    simp [Hub.init]

theorem queues_invariant (ctx : Context) : (machine ctx).Invariant Queues := by
  refine TSys.Inductive.invariant ⟨?_, ?_⟩
  · rintro s rfl
    exact queues_init ctx
  · intro s ev out s' hi hs
    have hstep := (step_spec ev hi).2
    rwa [show s.step ev = (s', out) from hs] at hstep

theorem heads_fannedOut {ctx : Context} {tr : TSys.Trace Event (List Emit)}
    (hr : (machine ctx).Run (Hub.init ctx) tr h) :
    ∀ k i seq rest, h.queue k i = seq :: rest → h.Clear k i → FannedOut ctx k i seq tr h := by
  induction hr with
  | nil =>
    intro k i seq rest hq
    cases k <;> cases hq
  | @snoc tr s ev out s' hr _ hs ih =>
    have hs' : s.step ev = (s', out) := hs
    intro k i seq rest hq hc
    have hmem : seq ∈ s'.queue k i := by
      rw [hq]
      exact List.mem_cons_self
    have hspec := (step_spec ev (queues_invariant ctx s (TSys.Run.reachable hr (.init rfl)))).1
    rw [hs'] at hspec
    rcases hspec.heads k i seq rest hq hc with hsent | ⟨hev, hold, rest', hq'⟩
    · exact .sent hr hs' hsent hmem
    · exact .kept (ih k i seq rest' hq' hold) hev hs' hmem

/-- Over every run of a hub and for every identity: (a) a queue changes only at
its tail by a new seq, at its head by the ack of exactly that seq, or by a drop
that lists all of it; (b) it is strictly increasing; (c) no sequenced item goes
out to an identity whose welcome is unacknowledged, and such an identity has a
welcome queued; (d) the head of a queue that nothing holds has been fanned out
since it was queued and since the last restart; (e) the clock runs exactly
while something is queued. -/
theorem fan_out_complete (ctx : Context) {tr : TSys.Trace Event (List Emit)}
    (hr : (machine ctx).Run (Hub.init ctx) tr h) :
    (∀ ev k i, QueueStep h ev (h.step ev).1 (h.step ev).2 k i) ∧
    (∀ k i, (h.queue k i).Pairwise (· < ·)) ∧
    (∀ ev i seq cls, .fanout i (some seq) cls ∈ (h.step ev).2 → cls.Sequenced →
      i ∉ (h.step ev).1.unregistered) ∧
    (∀ i ∈ h.unregistered, h.queue .welcomes i ≠ []) ∧
    (∀ i seq rest, h.queue .welcomes i = seq :: rest → FannedOut ctx .welcomes i seq tr h) ∧
    (∀ i seq rest, h.queue .items i = seq :: rest → i ∉ h.unregistered → FannedOut ctx .items i seq tr h) ∧
    (∀ i, i ∈ h.waiting ↔ h.queue .items i ≠ [] ∨ h.queue .welcomes i ≠ []) := by
  have hi : h.Queues := queues_invariant ctx h (TSys.Run.reachable hr (.init rfl))
  have hheads := heads_fannedOut hr
  refine ⟨?_, hi.increasing, ?_, hi.held, ?_, ?_, ?_⟩
  · intro ev k i
    exact (step_spec ev hi).1.moves k i
  · intro ev i seq cls hmem hc
    exact ((step_spec ev hi).1.sends .items i seq ⟨cls, kindOf_sequenced hc, hmem⟩).1 rfl
  · intro i seq rest hq
    exact hheads .welcomes i seq rest hq (clear_welcomes h i)
  · intro i seq rest hq hu
    exact hheads .items i seq rest hq fun _ => hu
  · intro i
    rw [hi.clock, exists_kind]

/-- Bob is added: he is sent the welcome, and the commit waits behind it. -/
theorem fan_out_complete_added : ∃ (ctx : Context) (tr : TSys.Trace Event (List Emit)) (h : Hub),
      (machine ctx).Run (Hub.init ctx) tr h ∧ h.queue .items "alice" = [1, 2] ∧
      h.queue .items "bob" = [2] ∧ "bob" ∈ h.unregistered ∧
      FannedOut ctx .welcomes "bob" 1 tr h ∧ FannedOut ctx .items "alice" 1 tr h := by
  have hr := TSys.exec_run step (· = Hub.init { roster := Dict.ofList [("alice", {"a1"})] })
    (Hub.init { roster := Dict.ofList [("alice", {"a1"})] })
    [.deposit ⟨.handshake, "alice", "a1", "m1", "c", 0, some { adds := [⟨"bob", "b1"⟩] }, 0, none, none⟩,
     .deposit ⟨.application, "alice", "a1", "m2", "x", 1, none, 0, none, none⟩]
  have hall := fan_out_complete { roster := Dict.ofList [("alice", {"a1"})] } hr
  obtain ⟨-, -, -, -, hwelcomes, hitems, -⟩ := hall
  exact ⟨_, _, _, hr, by decide, by decide, by decide, hwelcomes "bob" 1 [] (by decide),
    hitems "alice" 1 [2] (by decide) (by decide)⟩

end Dsip.Messaging.Hub
