import Dsip.Messaging.Hub

/-!
# The numbers a hub gives

`assigned` reads off a trace which digest was given which `seq`. Over every run
the numbers grow, no digest is given two of them, and `digests` is exactly what
was assigned, so that a re-deposit is answered with the number the bytes have.
Only the group's return to the hub skips numbers.
-/

namespace Dsip.Messaging.Hub

open Dsip.Lib

/-- The digest and the seq of a non-duplicate `accepted`. -/
def given : Event → List Emit → List (String × Nat)
  | .deposit d, out => out.filterMap fun
      | .accepted _ _ (some seq) false => some (d.digest, seq)
      | _ => none
  | _, _ => []

/-- Everything assigned along a trace, oldest first. -/
def assigned (tr : TSys.Trace Event (List Emit)) : List (String × Nat) := tr.flatMap fun st => given st.1 st.2

theorem assigned_snoc (tr : TSys.Trace Event (List Emit)) (ev : Event) (out : List Emit) :
    assigned (tr ++ [(ev, out)]) = assigned tr ++ given ev out := by
  simp [assigned]

/-- The step brings the group back to the hub it had left. -/
def Returns (h : Hub) (ev : Event) : Prop := h.movedTo ≠ none ∧ (h.step ev).1.movedTo = none

instance (h : Hub) (ev : Event) : Decidable (h.Returns ev) := inferInstanceAs (Decidable (_ ∧ _))

/-! ## One step -/

/-- What a step does to the numbers: it gives none, and only a return moves
the next one; or it gives the next one to a digest that had none. -/
inductive Numbers (h : Hub) (ev : Event) (h' : Hub) : List (String × Nat) → Prop
  | none : h'.digests = h.digests → h.nextSeq ≤ h'.nextSeq →
      (¬ h.Returns ev → h'.nextSeq = h.nextSeq) → Numbers h ev h' []
  | next (digest : String) : h.digests.lookup digest = Option.none →
      h'.digests = h.digests.insert digest h.nextSeq → h'.nextSeq = h.nextSeq + 1 →
      Numbers h ev h' [(digest, h.nextSeq)]

variable {h : Hub}

theorem Numbers.of_same {ev : Event} {h' : Hub} {out : List Emit} (hg : given ev out = [])
    (hd : h'.digests = h.digests) (hn : h'.nextSeq = h.nextSeq) : Numbers h ev h' (given ev out) := by
  rw [hg]
  exact .none hd hn.ge fun _ => hn

/-- Only an `accepted` with a seq gives a number. -/
def isAssignment : Emit → Bool
  | .accepted _ _ (some _) false => true
  | _ => false

theorem given_eq_nil (ev : Event) {out : List Emit} (h : ∀ e ∈ out, isAssignment e = false) :
    given ev out = [] := by
  cases ev with
  | deposit d =>
    rw [given, List.filterMap_eq_nil_iff]
    intro e he
    have := h e he
    unfold isAssignment at this
    split at this <;> grind
  | _ => rfl

theorem push_emits {now seq : Nat} {cls : DepositClass} {clear : String → Bool}
    (l : List String) (st : Dict String Nat × Dict String (List Nat)) :
    ∀ e ∈ (foldEmit (push now seq cls clear) st l).2, isAssignment e = false := by
  refine foldEmit_forall ?_ st
  intro i _ s e he
  unfold push at he
  grind [isAssignment]

theorem groupInfoOut_emits (d : Deposit) (roster : Roster) :
    ∀ e ∈ groupInfoOut d roster, isAssignment e = false := by
  simp [groupInfoOut, isAssignment]

theorem given_sequence (d : Deposit) (targets : List String) :
    given (.deposit d) (h.sequence d targets).2 = [(d.digest, h.nextSeq)] := by
  have hnil : given (.deposit d) (foldEmit (push h.now h.nextSeq d.cls (· ∉ h.unregistered))
      (h.waiting, h.pending) targets).2 = [] :=
    given_eq_nil _ (push_emits targets _)
  exact congrArg (List.cons (d.digest, h.nextSeq)) hnil

theorem given_append (d : Deposit) (out out' : List Emit) :
    given (.deposit d) (out ++ out') = given (.deposit d) out ++ given (.deposit d) out' := by
  simp [given]

theorem given_applyCommit (d : Deposit) (c : Commit) :
    given (.deposit d) (h.applyCommit d c).2 = [(d.digest, h.nextSeq)] := by
  unfold applyCommit
  dsimp only
  split
  case isTrue => exact given_sequence d _
  case isFalse =>
    rw [given_append, given_sequence]
    exact congrArg _ (given_eq_nil _ (push_emits _ _))

theorem applyCommit_digests (d : Deposit) (c : Commit) :
    (h.applyCommit d c).1.digests = h.digests.insert d.digest h.nextSeq := by
  unfold applyCommit
  dsimp only
  split <;> rfl

theorem applyCommit_nextSeq (d : Deposit) (c : Commit) : (h.applyCommit d c).1.nextSeq = h.nextSeq + 1 := by
  unfold applyCommit
  dsimp only
  split <;> rfl

theorem deposit_numbers (d : Deposit) :
    Numbers h (.deposit d) (h.deposit d).1 (given (.deposit d) (h.deposit d).2) := by
  have hreturns : h.Returns (.deposit d) ↔ h.movedTo ≠ none ∧ (h.deposit d).1.movedTo = none := Iff.rfl
  have ho := deposit_outcome h d
  generalize h.deposit d = r at ho hreturns ⊢
  cases ho with
  | refused reason => exact .of_same rfl rfl rfl
  | expired => exact .of_same rfl rfl rfl
  | relayed =>
    refine .of_same (given_eq_nil _ fun e he => ?_) rfl rfl
    obtain ⟨i, -, rfl⟩ := List.mem_map.mp he
    rfl
  | published => exact .of_same (given_eq_nil _ (groupInfoOut_emits d _)) rfl rfl
  | duplicate seq => exact .of_same rfl rfl rfl
  | sequenced _ _ hd =>
    rw [given_sequence]
    exact .next d.digest hd rfl rfl
  | committed c _ _ hd =>
    rw [given_applyCommit]
    exact .next d.digest hd (applyCommit_digests d c) (applyCommit_nextSeq d c)
  | returned view handoverSeq hm _ _ _ _ hle =>
    rw [given_eq_nil _ (groupInfoOut_emits d _)]
    refine .none rfl (by dsimp only; omega) fun hn => ?_
    exact absurd (hreturns.mpr ⟨hm, rfl⟩) hn

theorem ack_numbers (i : String) (seq : Nat) (cls : Option DepositClass) :
    (h.ack i seq cls).1.nextSeq = h.nextSeq ∧ (h.ack i seq cls).1.digests = h.digests := by
  have hpop : ∀ rest, (h.popHead i cls rest).nextSeq = h.nextSeq ∧
      (h.popHead i cls rest).digests = h.digests := by
    intro rest
    unfold popHead
    split <;> exact ⟨rfl, rfl⟩
  unfold ack
  split
  case h_1 => exact ⟨rfl, rfl⟩
  case h_2 head rest _ =>
    split
    case isTrue => exact ⟨rfl, rfl⟩
    case isFalse =>
      dsimp only
      split <;> split
      case h_1.isTrue => exact hpop _
      case h_1.isFalse => exact hpop _
      case h_2.isTrue => split <;> exact hpop _
      case h_2.isFalse => exact hpop _

theorem advance_numbers (n : Nat) :
    (h.advance n).1.nextSeq = h.nextSeq ∧ (h.advance n).1.digests = h.digests := by
  unfold advance
  refine foldEmit_invariant (P := fun s : Hub => s.nextSeq = h.nextSeq ∧ s.digests = h.digests)
    ?_ _ ⟨rfl, rfl⟩
  exact fun _ _ s hs => hs

theorem step_numbers (ev : Event) : Numbers h ev (h.step ev).1 (given ev (h.step ev).2) := by
  cases ev with
  | advance n => exact .of_same rfl (advance_numbers n).2 (advance_numbers n).1
  | ack i seq cls => exact .of_same rfl (ack_numbers i seq cls).2 (ack_numbers i seq cls).1
  | restart =>
    refine .of_same rfl ?_ ?_
    · simp [step, restart]
    · simp [step, restart]
  | deposit d => exact deposit_numbers d

/-! ## Whole runs -/

/-- The numbers of a run: growing and below the next one, one a digest, and on
record. -/
structure Numbered (tr : TSys.Trace Event (List Emit)) (h : Hub) : Prop where
  below : ∀ a ∈ assigned tr, a.2 < h.nextSeq
  increasing : ((assigned tr).map Prod.snd).Pairwise (· < ·)
  nodup : ((assigned tr).map Prod.fst).Nodup
  recorded : ∀ digest seq, h.digests.lookup digest = some seq ↔ (digest, seq) ∈ assigned tr

theorem Numbered.init (ctx : Context) : Numbered [] (init ctx) where
  below := by simp [assigned]
  increasing := by simp [assigned]
  nodup := by simp [assigned]
  recorded digest seq := by simp [assigned, Hub.init]

theorem Numbered.step {tr : TSys.Trace Event (List Emit)} (hn : Numbered tr h) (ev : Event) :
    Numbered (tr ++ [(ev, (h.step ev).2)]) (h.step ev).1 := by
  have hstep := step_numbers (h := h) ev
  generalize h.step ev = r at hstep ⊢
  obtain ⟨h', out⟩ := r
  have hsnoc := assigned_snoc tr ev out
  dsimp only at hstep ⊢
  generalize given ev out = new at hstep hsnoc
  cases hstep with
  | none hd hle =>
    rw [List.append_nil] at hsnoc
    constructor
    · intro a ha
      rw [hsnoc] at ha
      exact lt_of_lt_of_le (hn.below a ha) hle
    · rw [hsnoc]
      exact hn.increasing
    · rw [hsnoc]
      exact hn.nodup
    · intro digest seq
      rw [hsnoc, hd]
      exact hn.recorded digest seq
  | next digest hnew hd hnext =>
    have hfresh : ∀ seq, (digest, seq) ∉ assigned tr := by
      intro seq hmem
      rw [← hn.recorded, hnew] at hmem
      cases hmem
    constructor
    · intro a ha
      rw [hsnoc, List.mem_append, List.mem_singleton] at ha
      rcases ha with ha | rfl
      · have := hn.below a ha
        omega
      · exact hnext ▸ Nat.lt_succ_self _
    · rw [hsnoc, List.map_append, List.pairwise_append]
      refine ⟨hn.increasing, List.pairwise_singleton _ _, ?_⟩
      intro s hs t ht
      obtain ⟨a, ha, rfl⟩ := List.mem_map.mp hs
      rw [List.map_singleton, List.mem_singleton] at ht
      exact ht ▸ hn.below a ha
    · rw [hsnoc, List.map_append, List.nodup_append]
      refine ⟨hn.nodup, List.nodup_singleton _, ?_⟩
      intro x hx y hy hxy
      obtain ⟨⟨dg, seq⟩, ha, rfl⟩ := List.mem_map.mp hx
      rw [List.map_singleton, List.mem_singleton] at hy
      obtain rfl : dg = digest := hxy.trans hy
      exact hfresh seq ha
    · intro dg seq
      rw [hsnoc, hd, Dict.lookup_insert_eq, List.mem_append, List.mem_singleton]
      split
      case isTrue heq =>
        subst heq
        have := hfresh seq
        grind
      case isFalse hne =>
        have := hn.recorded dg seq
        grind

theorem Numbered.of_run {ctx : Context} {tr : TSys.Trace Event (List Emit)}
    (hr : (machine ctx).Run (Hub.init ctx) tr h) : Numbered tr h := by
  refine TSys.Run.invariant (Numbered.init ctx) ?_ hr
  intro tr s ev out s' _ hn hs
  have hs' : s.step ev = (s', out) := hs
  simpa [hs'] using hn.step ev

theorem consecutive_of_run {ctx : Context} {tr : TSys.Trace Event (List Emit)} {h' : Hub}
    (hr : (machine ctx).RunWhere (fun _ s ev => ¬ s.Returns ev) h tr h') :
    (assigned tr).map Prod.snd = List.range' h.nextSeq (assigned tr).length ∧
      h'.nextSeq = h.nextSeq + (assigned tr).length := by
  refine TSys.RunWhere.invariant
    (P := fun tr s => (assigned tr).map Prod.snd = List.range' h.nextSeq (assigned tr).length ∧
      s.nextSeq = h.nextSeq + (assigned tr).length) (by simp [assigned]) ?_ hr
  rintro tr s ev out s' - ⟨hseqs, hnext⟩ hn hs
  have hs' : s.step ev = (s', out) := hs
  have hstep := step_numbers (h := s) ev
  rw [hs'] at hstep
  rw [assigned_snoc]
  dsimp only at hstep
  generalize given ev out = new at hstep
  cases hstep with
  | none _ _ hsame =>
    rw [List.append_nil]
    exact ⟨hseqs, (hsame hn).trans hnext⟩
  | next digest _ _ hnext' =>
    rw [List.map_append, hseqs, List.length_append, List.length_singleton, List.range'_concat]
    refine ⟨?_, by omega⟩
    simp [hnext]

theorem deposit_known {d : Deposit} {seq : Nat} (hc : d.cls.Sequenced) (hm : h.movedTo = none)
    (hd : h.digests.lookup d.digest = some seq) :
    h.deposit d = (h, [.accepted d.device d.id (some seq) true]) := by
  have hseq : h.depositSequenced d = (h, [.accepted d.device d.id (some seq) true]) := by
    simp [depositSequenced, hd]
  rcases hc with hc | hc
  · simpa [deposit, hm, depositHere, hc] using hseq
  · simpa [deposit, hm, depositHere, hc] using hseq

/-- Over every run of a hub: the numbers it gives strictly increase, none goes
to two digests and no digest gets two, a re-deposit is answered with the number
its digest has and changes nothing, and from any state on, as long as the group
does not return, the numbers given are consecutive. -/
theorem numbering_safe (ctx : Context) {tr : TSys.Trace Event (List Emit)}
    (hr : (machine ctx).Run (Hub.init ctx) tr h) : ((assigned tr).map Prod.snd).Pairwise (· < ·) ∧
    (∀ digest digest' seq, (digest, seq) ∈ assigned tr → (digest', seq) ∈ assigned tr → digest = digest') ∧
    ((assigned tr).map Prod.fst).Nodup ∧
    (∀ digest seq, (digest, seq) ∈ assigned tr → h.digests.lookup digest = some seq) ∧
    (∀ d seq, d.cls.Sequenced → h.movedTo = none → (d.digest, seq) ∈ assigned tr →
      h.step (.deposit d) = (h, [.accepted d.device d.id (some seq) true])) ∧
    (∀ tr' h', (machine ctx).RunWhere (fun _ s ev => ¬ s.Returns ev) h tr' h' →
      (assigned tr').map Prod.snd = List.range' h.nextSeq (assigned tr').length) := by
  have hn := Numbered.of_run hr
  refine ⟨hn.increasing, ?_, hn.nodup, ?_, ?_, ?_⟩
  · intro digest digest' seq hmem hmem'
    have hinj := List.inj_on_of_nodup_map (hn.increasing.imp ne_of_lt) hmem hmem' rfl
    exact congrArg Prod.fst hinj
  · intro digest seq hmem
    exact (hn.recorded digest seq).mpr hmem
  · intro d seq hc hm hmem
    exact deposit_known hc hm ((hn.recorded d.digest seq).mpr hmem)
  · intro tr' h' hr'
    exact (consecutive_of_run hr').1

/-- A group that leaves after its first commit and comes back eight seqs
later. -/
theorem numbering_safe_across_return : ∃ (ctx : Context) (tr : TSys.Trace Event (List Emit)) (h : Hub),
      (machine ctx).Run (Hub.init ctx) tr h ∧ assigned tr = [("c", 1), ("x", 9)] ∧
      ((assigned tr).map Prod.snd).Pairwise (· < ·) ∧
      ∀ d seq, d.cls.Sequenced → h.movedTo = none → (d.digest, seq) ∈ assigned tr →
        h.step (.deposit d) = (h, [.accepted d.device d.id (some seq) true]) := by
  let alice : Roster := Dict.ofList [("alice", {"a1"})]
  have hr := TSys.exec_run step (· = Hub.init { roster := alice }) (Hub.init { roster := alice })
    [.deposit ⟨.handshake, "alice", "a1", "m1", "c", 0, some { movesTo := some "hub2" }, 0, none, none⟩,
     .deposit ⟨.groupInfo, "alice", "a1", "m2", "g", 0, none, 0, some 8, some ⟨5, alice⟩⟩,
     .restart,
     .deposit ⟨.application, "alice", "a1", "m3", "x", 5, none, 0, none, none⟩]
  have hsafe := numbering_safe { roster := alice } hr
  exact ⟨_, _, _, hr, by decide, hsafe.1, hsafe.2.2.2.2.1⟩

end Dsip.Messaging.Hub
