import Dsip.Messaging.HubAgree

/-!
# Commits at the hub

A commit is accepted for the epoch the hub is in and takes it to the next one,
so commits are linear. What a commit does to the roster is said identity by
identity (`devices_applyCommit`); the two checks then leave every identity but
the committer's in control of its own devices (`Owned`).
-/

namespace Dsip.Messaging.Hub

open Dsip.Lib

abbrev HubMove := TSys.Move Hub Event (List Emit)

/-- The deposit a step accepted, other than as a duplicate. -/
def ordered (m : HubMove) : Option Deposit :=
  match m.input with
  | .deposit d => if given m.input m.output = [] then none else some d
  | _ => none

/-- The commit a step accepted, with its deposit. -/
def orderedCommit (m : HubMove) : Option (Deposit × Commit) :=
  match ordered m with
  | some d => if d.cls = .handshake then d.commit.map (d, ·) else none
  | none => none

/-- The commits accepted along a path, oldest first. -/
def commits (p : List HubMove) : List (Deposit × Commit) := p.filterMap orderedCommit

/-- The devices a commit adds for an identity. -/
def added (c : Commit) (i : String) : Finset String :=
  ((c.adds.filter (·.identity = i)).map (·.device)).toFinset

/-- The devices a commit removes of an identity. -/
def removed (removes : List Removal) (i : String) : Finset String :=
  ((removes.filter (·.identity = i)).map (·.device)).toFinset

/-- The devices it removes because their delegation no longer verified. -/
def lapsed (c : Commit) (i : String) : Finset String :=
  removed (c.removes.filter fun r => !r.delegationValid) i

/-- What a commit may do to the devices of an identity that did not make it. -/
inductive Owned (before after : Roster) (c : Commit) (i : String) : Prop
  | unchanged (h : devices after i = devices before i)
  | gone (h : devices after i = ∅)
  | lapsed (h : devices after i = devices before i \ lapsed c i)
  | entered (hnot : devices before i = ∅) (h : devices after i = added c i)

structure Linear (m : HubMove) : Prop where
  epoch : m.after.epoch = m.before.epoch + if (orderedCommit m).isSome then 1 else 0
  sequenced : ∀ d, ordered m = some d → d.cls.Sequenced
  handshake : ∀ d, ordered m = some d → d.cls = .handshake → d.epoch = m.before.epoch
  application : ∀ d, ordered m = some d → d.cls = .application → m.before.RecentEpoch d.epoch

/-! ## The roster under a commit -/

section Roster

theorem devices_removeLeaf (r : Roster) (x : Removal) (i : String) : devices (removeLeaf r x) i =
      if i = x.identity then (devices r i).erase x.device else devices r i := by
  unfold removeLeaf devices
  cases hx : r.lookup x.identity with
  | none =>
    dsimp only
    split
    case isTrue hi =>
      subst hi
      simp [hx]
    case isFalse => rfl
  | some devs =>
    dsimp only
    split
    case isTrue hempty =>
      rw [Dict.lookup_erase_eq]
      split
      case isTrue hi =>
        subst hi
        simp [hx, hempty]
      case isFalse => rfl
    case isFalse =>
      rw [Dict.lookup_insert_eq]
      split
      case isTrue hi =>
        subst hi
        simp [hx]
      case isFalse => rfl

theorem devices_removeLeaves (removes : List Removal) (r : Roster) (i : String) :
    devices (removes.foldl removeLeaf r) i = devices r i \ removed removes i := by
  induction removes generalizing r with
  | nil => simp [removed]
  | cons x removes ih =>
    rw [List.foldl_cons, ih, devices_removeLeaf]
    ext dev
    by_cases hi : i = x.identity
    · subst hi
      simp only [removed, if_true, Finset.mem_sdiff, Finset.mem_erase, List.mem_toFinset,
        List.filter_cons, decide_true, List.map_cons, List.mem_cons]
      tauto
    · have hi' : ¬ x.identity = i := fun h => hi h.symm
      simp [removed, hi, hi']

theorem devices_addLeaves (adds : List Leaf) (r : Roster) (i : String) : devices (adds.foldl addLeaf r) i =
      devices r i ∪ ((adds.filter (·.identity = i)).map (·.device)).toFinset := by
  induction adds generalizing r with
  | nil => simp
  | cons a adds ih =>
    rw [List.foldl_cons, ih, devices_addLeaf]
    ext dev
    by_cases hi : a.identity = i
    · subst hi
      simp
    · have hi' : ¬ i = a.identity := fun h => hi h.symm
      simp [hi, hi']

theorem devices_applyCommit (h : Hub) (d : Deposit) (c : Commit) (i : String) :
    devices (h.applyCommit d c).1.roster i = devices h.roster i \ removed c.removes i ∪ added c i := by
  rw [(applyCommit_state h d c).1, devices_addLeaves, devices_removeLeaves]
  rfl

theorem added_eq_empty {r : Roster} {committer i : String} {c : Commit}
    (hcheck : checkRosterChange committer (leaves r) c.adds c.removes = none)
    (hi : i ≠ committer) (hmember : devices r i ≠ ∅) : added c i = ∅ := by
  unfold checkRosterChange at hcheck
  split at hcheck
  case isTrue => cases hcheck
  case isFalse hadds =>
    refine Finset.eq_empty_of_forall_notMem fun dev hdev => hadds ?_
    simp only [added, List.mem_toFinset, List.mem_map, List.mem_filter, decide_eq_true_eq] at hdev
    obtain ⟨a, ⟨ha, rfl⟩, rfl⟩ := hdev
    exact List.any_eq_true.mpr ⟨a, ha, decide_eq_true ⟨mem_identities.mpr hmember, hi⟩⟩

theorem removed_of_check {r : Roster} {committer i : String} {c : Commit}
    (hcheck : checkRosterChange committer (leaves r) c.adds c.removes = none) (hi : i ≠ committer) :
    removed c.removes i = ∅ ∨ devices r i ⊆ removed c.removes i ∨ removed c.removes i = lapsed c i := by
  unfold checkRosterChange at hcheck
  split at hcheck
  case isTrue => cases hcheck
  case isFalse =>
    split at hcheck
    case isFalse => cases hcheck
    case isTrue hremoves =>
      by_cases hany : ∃ x ∈ c.removes, x.identity = i
      · obtain ⟨x, hx, rfl⟩ := hany
        have hallowed := (of_decide_eq_true (List.all_eq_true.mp hremoves x hx)).resolve_left hi
        refine .inr ?_
        rcases Bool.or_eq_true_iff.mp hallowed with hwhole | hlapsed
        · refine .inl fun device hdevice => ?_
          have := List.all_eq_true.mp hwhole device (mem_devicesOf.mpr hdevice)
          exact List.mem_toFinset.mpr (of_decide_eq_true this)
        · refine .inr ?_
          unfold lapsed removed
          rw [List.filter_filter]
          congr 2
          refine List.filter_congr fun y hy => ?_
          by_cases hid : y.identity = x.identity
          · have := List.all_eq_true.mp hlapsed y (List.mem_filter.mpr ⟨hy, decide_eq_true hid⟩)
            simp only [hid, decide_true, Bool.true_and]
            exact this.symm
          · simp [hid]
      · refine .inl (Finset.eq_empty_of_forall_notMem fun dev hdev => hany ?_)
        simp only [removed, List.mem_toFinset, List.mem_map, List.mem_filter, decide_eq_true_eq] at hdev
        obtain ⟨x, ⟨hx, hid⟩, -⟩ := hdev
        exact ⟨x, hx, hid⟩

theorem owned_of_check {h : Hub} {d : Deposit} {c : Commit} {i : String}
    (hcheck : checkRosterChange d.identity (leaves h.roster) c.adds c.removes = none)
    (hi : i ≠ d.identity) : Owned h.roster (h.applyCommit d c).1.roster c i := by
  have hafter := devices_applyCommit h d c i
  by_cases hmember : devices h.roster i = ∅
  · refine .entered hmember ?_
    rw [hafter, hmember, Finset.empty_sdiff, Finset.empty_union]
  · rw [added_eq_empty hcheck hi hmember, Finset.union_empty] at hafter
    rcases removed_of_check hcheck hi with hnone | hwhole | hlapsed
    · exact .unchanged (by rw [hafter, hnone, Finset.sdiff_empty])
    · exact .gone (by rw [hafter, Finset.sdiff_eq_empty_iff_subset.mpr hwhole])
    · exact .lapsed (by rw [hafter, hlapsed])

theorem Owned.live {before after : Roster} {c : Commit} {i : String} (h : Owned before after c i)
    (hmember : devices before i ≠ ∅) : devices after i ⊆ devices before i ∧
      (devices after i ≠ ∅ → ∀ device ∈ devices before i, device ∉ devices after i →
        device ∈ Hub.lapsed c i) := by
  cases h with
  | unchanged h =>
    rw [h]
    exact ⟨subset_rfl, fun _ device hdev hno => absurd hdev hno⟩
  | gone h =>
    rw [h]
    exact ⟨Finset.empty_subset _, fun hne => absurd rfl hne⟩
  | lapsed h =>
    rw [h]
    refine ⟨Finset.sdiff_subset, fun _ device hdev hno => ?_⟩
    by_contra hlive
    exact hno (Finset.mem_sdiff.mpr ⟨hdev, hlive⟩)
  | entered hnot => exact absurd hnot hmember

end Roster

/-! ## One step -/

section Step

variable {h : Hub} {d : Deposit}

/-- A deposit accepted anew is an application message of a recent epoch, or a
handshake of the current one. -/
theorem depositSequenced_ordered (hgiven : given (.deposit d) (h.depositSequenced d).2 ≠ []) :
    (d.cls = .application ∧ h.RecentEpoch d.epoch ∧ h.depositSequenced d = h.sequence d h.roster.sortedKeys) ∨
    (d.cls ≠ .application ∧ d.epoch = h.epoch ∧ h.depositSequenced d = h.handshake d) := by
  unfold depositSequenced at hgiven ⊢
  cases hd : h.digests.lookup d.digest with
  | some seq =>
    rw [hd] at hgiven
    exact absurd rfl hgiven
  | none =>
    rw [hd] at hgiven
    dsimp only at hgiven ⊢
    split at hgiven
    case isTrue => exact absurd rfl hgiven
    case isFalse hmay =>
      rw [if_neg hmay]
      split at hgiven
      case isTrue happ =>
        rw [if_pos happ]
        split at hgiven
        case isTrue hrecent =>
          rw [if_pos hrecent]
          exact .inl ⟨happ, hrecent, rfl⟩
        case isFalse => exact absurd rfl hgiven
      case isFalse happ =>
        rw [if_neg happ]
        split at hgiven
        case isTrue => exact absurd rfl hgiven
        case isFalse hepoch =>
          rw [if_neg hepoch]
          exact .inr ⟨happ, not_not.mp hepoch, rfl⟩

theorem deposit_ordered (hgiven : given (.deposit d) (h.deposit d).2 ≠ []) :
    d.cls.Sequenced ∧ h.deposit d = h.depositSequenced d := by
  have hsequenced : d.cls.Sequenced → h.movedTo = none → h.deposit d = h.depositSequenced d := by
    rintro (hc | hc) hm
    · simp [deposit, hm, depositHere, hc]
    · simp [deposit, hm, depositHere, hc]
  have ho := deposit_outcome h d
  generalize h.deposit d = r at ho hgiven hsequenced ⊢
  cases ho with
  | refused reason => exact absurd rfl hgiven
  | expired => exact absurd rfl hgiven
  | relayed =>
    refine absurd (given_eq_nil _ fun e he => ?_) hgiven
    obtain ⟨i, -, rfl⟩ := List.mem_map.mp he
    rfl
  | published => exact absurd (given_eq_nil _ (groupInfoOut_emits d _)) hgiven
  | duplicate seq => exact absurd rfl hgiven
  | sequenced hm hc => exact ⟨hc, hsequenced hc hm⟩
  | committed c hm hc => exact ⟨.inl hc, hsequenced (.inl hc) hm⟩
  | returned => exact absurd (given_eq_nil _ (groupInfoOut_emits d _)) hgiven

theorem handshake_ordered (hgiven : given (.deposit d) (h.handshake d).2 ≠ []) :
    (d.commit = none ∧ h.handshake d = h.sequence d h.roster.sortedKeys) ∨
    ∃ c, d.commit = some c ∧ checkRosterChange d.identity (leaves h.roster) c.adds c.removes = none ∧
      h.handshake d = h.applyCommit d c := by
  unfold handshake at hgiven ⊢
  cases hc : d.commit with
  | none => exact .inl ⟨rfl, rfl⟩
  | some c =>
    rw [hc] at hgiven
    dsimp only at hgiven ⊢
    split at hgiven
    case isTrue => exact absurd rfl hgiven
    case isFalse hvalid =>
      rw [if_neg hvalid]
      split at hgiven
      case isTrue => exact absurd rfl hgiven
      case isFalse hcheck =>
        rw [if_neg hcheck]
        exact .inr ⟨c, rfl, Option.not_isSome_iff_eq_none.mp hcheck, rfl⟩

theorem epoch_of_not_given {ev : Event} (hreturns : ¬ h.Returns ev)
    (hgiven : given ev (h.step ev).2 = []) : (h.step ev).1.epoch = h.epoch := by
  cases ev with
  | advance n =>
    refine foldEmit_invariant (P := fun s : Hub => s.epoch = h.epoch) ?_ _ rfl
    exact fun _ _ s hs => hs
  | ack i seq cls =>
    have hpop : ∀ rest, (h.popHead i cls rest).epoch = h.epoch := by
      intro rest
      unfold popHead
      split <;> rfl
    show (h.ack i seq cls).1.epoch = h.epoch
    have ho := ack_outcome h i seq cls
    generalize h.ack i seq cls = r at ho ⊢
    cases ho with
    | ignored => rfl
    | next => exact hpop _
    | held => exact hpop _
    | registered => exact hpop _
  | restart => exact congrArg Hub.epoch (load_save h)
  | deposit d =>
    have hr : ¬ (h.movedTo ≠ none ∧ (h.deposit d).1.movedTo = none) := hreturns
    have ho := deposit_outcome h d
    have hg : given (.deposit d) (h.deposit d).2 = [] := hgiven
    show (h.deposit d).1.epoch = h.epoch
    generalize h.deposit d = r at ho hr hg ⊢
    cases ho with
    | refused reason => rfl
    | expired => rfl
    | relayed => rfl
    | published => rfl
    | duplicate seq => rfl
    | sequenced => rfl
    | committed c =>
      rw [given_applyCommit] at hg
      cases hg
    | returned view handoverSeq hm => exact absurd ⟨hm, rfl⟩ hr

/-- Everything a step accepts anew. -/
inductive Ordered (h : Hub) (d : Deposit) : Hub × List Emit → Prop
  | application (hc : d.cls = .application) (he : h.RecentEpoch d.epoch) :
      Ordered h d (h.sequence d h.roster.sortedKeys)
  | proposal (hc : d.cls = .handshake) (hn : d.commit = none) (he : d.epoch = h.epoch) :
      Ordered h d (h.sequence d h.roster.sortedKeys)
  | commit (c : Commit) (hc : d.cls = .handshake) (hcommit : d.commit = some c)
      (he : d.epoch = h.epoch)
      (hcheck : checkRosterChange d.identity (leaves h.roster) c.adds c.removes = none) :
      Ordered h d (h.applyCommit d c)

theorem ordered_of_given (hgiven : given (.deposit d) (h.deposit d).2 ≠ []) : Ordered h d (h.deposit d) := by
  obtain ⟨hseq, hdep⟩ := deposit_ordered hgiven
  rw [hdep] at hgiven ⊢
  rcases depositSequenced_ordered hgiven with ⟨hc, he, hout⟩ | ⟨hc, he, hout⟩
  · exact hout ▸ .application hc he
  · have hc : d.cls = .handshake := hseq.resolve_right hc
    rw [hout] at hgiven ⊢
    rcases handshake_ordered hgiven with ⟨hn, hout⟩ | ⟨c, hcommit, hcheck, hout⟩
    · exact hout ▸ .proposal hc hn he
    · exact hout ▸ .commit c hc hcommit he hcheck

theorem ordered_eq_some {ev : Event} {d : Deposit} : ordered ⟨h, ev, (h.step ev).2, (h.step ev).1⟩ = some d ↔
      ev = .deposit d ∧ given ev (h.step ev).2 ≠ [] := by
  cases ev with
  | deposit d' =>
    simp only [ordered]
    split
    case isTrue hg => simp [hg]
    case isFalse hg => simp [hg]
  | _ => simp [ordered]

theorem orderedCommit_eq_some {m : HubMove} {d : Deposit} {c : Commit} : orderedCommit m = some (d, c) ↔
      ordered m = some d ∧ d.cls = .handshake ∧ d.commit = some c := by
  unfold orderedCommit
  cases ordered m with
  | none => simp
  | some d' =>
    dsimp only
    split
    case isTrue hc =>
      rw [Option.map_eq_some_iff]
      constructor
      · rintro ⟨c', hcommit, heq⟩
        cases heq
        exact ⟨rfl, hc, hcommit⟩
      · rintro ⟨heq, -, hcommit⟩
        cases heq
        exact ⟨c, hcommit, rfl⟩
    case isFalse hc =>
      constructor
      · intro heq
        cases heq
      · rintro ⟨heq, hc', -⟩
        cases heq
        exact absurd hc' hc

theorem step_linear {ev : Event} (hreturns : ¬ h.Returns ev) :
    Linear ⟨h, ev, (h.step ev).2, (h.step ev).1⟩ := by
  by_cases hg : given ev (h.step ev).2 = []
  · have hnone : ordered ⟨h, ev, (h.step ev).2, (h.step ev).1⟩ = none := by
      refine Option.eq_none_iff_forall_ne_some.mpr fun d hd => ?_
      exact (ordered_eq_some.mp hd).2 hg
    refine ⟨?_, ?_, ?_, ?_⟩
    · simp only [orderedCommit, hnone]
      exact epoch_of_not_given hreturns hg
    · intro d hd
      rw [hnone] at hd
      cases hd
    · intro d hd
      rw [hnone] at hd
      cases hd
    · intro d hd
      rw [hnone] at hd
      cases hd
  · cases ev with
    | deposit d =>
      have hsome : ordered ⟨h, .deposit d, (h.deposit d).2, (h.deposit d).1⟩ = some d :=
        ordered_eq_some.mpr ⟨rfl, hg⟩
      have hcommit : orderedCommit ⟨h, .deposit d, (h.deposit d).2, (h.deposit d).1⟩ =
          if d.cls = .handshake then d.commit.map (d, ·) else none := by
        simp only [orderedCommit, hsome]
      have ho := ordered_of_given hg
      have honly : ∀ d', ordered ⟨h, .deposit d, (h.deposit d).2, (h.deposit d).1⟩ = some d' →
          d = d' := fun d' hd => Option.some.inj (hsome.symm.trans hd)
      refine ⟨?_, ?_, ?_, ?_⟩
      · show (h.deposit d).1.epoch = h.epoch + _
        rw [show (h.step (.deposit d)) = h.deposit d from rfl, hcommit]
        generalize h.deposit d = r at ho
        cases ho with
        | application hc => simp [hc, sequence]
        | proposal _ hn => simp [hn, sequence]
        | commit c hc hcommit _ _ => simp [hc, hcommit, (applyCommit_state h d c).2.1]
      · intro d' hd
        obtain rfl := honly d' hd
        generalize h.deposit d = r at ho
        cases ho with
        | application hc => exact .inr hc
        | proposal hc => exact .inl hc
        | commit _ hc => exact .inl hc
      · intro d' hd hhandshake
        obtain rfl := honly d' hd
        generalize h.deposit d = r at ho
        cases ho with
        | application hc =>
          rw [hc] at hhandshake
          cases hhandshake
        | proposal _ _ he => exact he
        | commit _ _ _ he => exact he
      · intro d' hd happlication
        obtain rfl := honly d' hd
        generalize h.deposit d = r at ho
        cases ho with
        | application _ he => exact he
        | proposal _ _ he => exact .inl he
        | commit _ _ _ he => exact .inl he
    | _ => exact absurd rfl hg

theorem step_owned (ev : Event) {d : Deposit} {c : Commit} {i : String}
    (hcommit : orderedCommit ⟨h, ev, (h.step ev).2, (h.step ev).1⟩ = some (d, c))
    (hi : i ≠ d.identity) : Owned h.roster (h.step ev).1.roster c i := by
  obtain ⟨hsome, hhandshake, hc⟩ := orderedCommit_eq_some.mp hcommit
  obtain ⟨rfl, hg⟩ := ordered_eq_some.mp hsome
  have ho := ordered_of_given hg
  show Owned h.roster (h.deposit d).1.roster c i
  generalize h.deposit d = r at ho ⊢
  cases ho with
  | application hc' =>
    rw [hc'] at hhandshake
    cases hhandshake
  | proposal _ hn =>
    rw [hn] at hc
    cases hc
  | commit c' _ hcommit' _ hcheck =>
    obtain rfl : c' = c := Option.some.inj (hcommit'.symm.trans hc)
    exact owned_of_check hcheck hi

end Step

/-! ## Whole runs -/

theorem commits_snoc (p : List HubMove) (m : HubMove) :
    commits (p ++ [m]) = commits p ++ (orderedCommit m).toList := by
  unfold commits
  rw [List.filterMap_append]
  cases hm : orderedCommit m with
  | none => rw [List.filterMap_cons_none hm]; rfl
  | some dc => rw [List.filterMap_cons_some hm]; rfl

theorem move_eq {ctx : Context} {p : List HubMove} {h : Hub} (hp : (machine ctx).Path (init ctx) p h) :
    ∀ m ∈ p, m = ⟨m.before, m.input, (m.before.step m.input).2, (m.before.step m.input).1⟩ := by
  intro m hm
  obtain ⟨before, after, rfl⟩ := List.append_of_mem hm
  have hs : m.before.step m.input = (m.after, m.output) := hp.split.2.1
  rw [hs]

theorem epochs_of_path {ctx : Context} {p : List HubMove} {h : Hub}
    (hp : (machine ctx).Path (init ctx) p h) (hreturns : ∀ m ∈ p, ¬ m.before.Returns m.input) :
    h.epoch = ctx.epoch + (commits p).length ∧
      (commits p).map (·.1.epoch) = List.range' ctx.epoch (commits p).length := by
  induction hp with
  | nil => exact ⟨rfl, rfl⟩
  | @snoc p s ev out s' hp hs ih =>
    have hlast := hreturns ⟨s, ev, out, s'⟩ (by simp)
    obtain ⟨hepoch, hepochs⟩ := ih fun m hm => hreturns m (List.mem_append_left _ hm)
    have hstep : s.step ev = (s', out) := hs
    have hlinear := step_linear hlast
    rw [hstep] at hlinear
    rw [commits_snoc]
    cases hcommit : orderedCommit ⟨s, ev, out, s'⟩ with
    | none =>
      have hsame := hlinear.epoch
      rw [hcommit] at hsame
      rw [Option.toList_none, List.append_nil]
      exact ⟨hsame.trans hepoch, hepochs⟩
    | some dc =>
      obtain ⟨d, c⟩ := dc
      have hnext : s'.epoch = s.epoch + 1 := by
        have := hlinear.epoch
        rwa [hcommit] at this
      obtain ⟨hsome, hhandshake, -⟩ := orderedCommit_eq_some.mp hcommit
      have hmade : d.epoch = s.epoch := hlinear.handshake d hsome hhandshake
      rw [Option.toList_some, List.length_append, List.length_singleton, List.map_append,
        List.range'_concat, hepochs]
      refine ⟨by omega, ?_⟩
      simp [hmade, hepoch]

/-- The commits of a hub are linear and leave devices to their owners. In every
run without a return of the group: each step is linear in the epochs; the epoch
has risen once for each accepted commit, and these were made for one epoch each,
in turn; and an accepted commit leaves every other identity its devices, takes
them all, takes those whose delegation no longer verified, or brings the
identity in with the devices it adds, so that no member is given a device by
another or loses a live one while it stays. -/
theorem commits_linear (ctx : Context) {p : List HubMove} {h : Hub}
    (hp : (machine ctx).Path (init ctx) p h) (hreturns : ∀ m ∈ p, ¬ m.before.Returns m.input) :
    (∀ m ∈ p, Linear m) ∧
    h.epoch = ctx.epoch + (commits p).length ∧
    (commits p).map (·.1.epoch) = List.range' ctx.epoch (commits p).length ∧
    ((commits p).map (·.1.epoch)).Nodup ∧
    ∀ m ∈ p, ∀ d c, orderedCommit m = some (d, c) → ∀ i, i ≠ d.identity →
      Owned m.before.roster m.after.roster c i ∧ (devices m.before.roster i ≠ ∅ →
          devices m.after.roster i ⊆ devices m.before.roster i ∧
            (devices m.after.roster i ≠ ∅ → ∀ device ∈ devices m.before.roster i,
              device ∉ devices m.after.roster i → device ∈ lapsed c i)) := by
  obtain ⟨hepoch, hepochs⟩ := epochs_of_path hp hreturns
  refine ⟨?_, hepoch, hepochs, ?_, ?_⟩
  · intro m hm
    rw [move_eq hp m hm]
    exact step_linear (hreturns m hm)
  · rw [hepochs]
    exact List.nodup_range'
  · intro m hm d c hcommit i hi
    rw [move_eq hp m hm] at hcommit ⊢
    have howned := step_owned m.input hcommit hi
    exact ⟨howned, howned.live⟩

/-- Two commits, one of them bringing an identity in, and a second for the same
epoch that is refused. -/
theorem commits_linear_twice : ∃ (ctx : Context) (p : List HubMove) (h : Hub),
      (machine ctx).Path (init ctx) p h ∧ h.epoch = 2 ∧ (commits p).map (·.1.epoch) = [0, 1] ∧
        ∀ m ∈ p, Linear m := by
  let alice : Roster := Dict.ofList [("alice", {"a1"})]
  let inputs : List Event :=
    [.deposit ⟨.handshake, "alice", "a1", "m1", "c1", 0, some { adds := [⟨"bob", "b1"⟩] }, 0, none, none⟩,
     .deposit ⟨.handshake, "bob", "b1", "m2", "c2", 0, some {}, 0, none, none⟩,
     .deposit ⟨.handshake, "bob", "b1", "m3", "c3", 1, some { adds := [⟨"bob", "b2"⟩] }, 0, none, none⟩]
  have hp := TSys.moves_path step (· = init { roster := alice }) (init { roster := alice }) inputs
  have hreturns : ∀ m ∈ (TSys.moves step (init { roster := alice }) inputs).1,
      ¬ m.before.Returns m.input := by
    decide +kernel
  obtain ⟨hlinear, -⟩ := commits_linear { roster := alice } hp hreturns
  exact ⟨_, _, _, hp, by decide +kernel, by decide +kernel, hlinear⟩

end Dsip.Messaging.Hub
