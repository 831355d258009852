import Dsip.Messaging.HubParity

/-!
# The two hubs agree

The two hubs file an accepted deposit alike, whatever it did to the roster
(`InStep.filing`). What is left of a deposit is which one is accepted and who is
welcomed: `DepositMeets` says when the two answer that alike, and then they are
in step along a whole run (`hubs_agree`).
-/

namespace Dsip.Messaging.Hub

open Dsip.Lib

variable {h h' : Hub} {t : Ts.Hub} {d : Deposit} {c : Commit}

/-! ## Filing a deposit -/

/-- An accepted deposit, with its emissions in order. -/
structure Filing (h : Hub) (d : Deposit) (invited : Finset String) (h' : Hub) (out : List Emit) :
    Prop extends Filed h d invited h' out where
  kept : h'.now = h.now ∧ h'.kind = h.kind ∧ h'.owner = h.owner ∧ h'.retention = h.retention ∧
    h'.groupInfo = h.groupInfo
  digests : h'.digests = h.digests.insert d.digest h.nextSeq
  started : ∀ i, h'.waiting.lookup i = startedAt h.now (h.roster.sortedKeys ++ sorted invited) h.waiting i
  sent : out = .accepted d.device d.id (some h.nextSeq) false :: ((h.roster.sortedKeys.flatMap fun i =>
        if h.queue .items i = [] ∧ i ∉ h.unregistered then
          [.fanout i (some h.nextSeq) d.cls] else []) ++
      (sorted invited).flatMap fun i =>
        if h.queue .welcomes i = [] then [.fanout i (some h.nextSeq) .welcome] else [])

theorem sorted_empty : sorted (∅ : Finset String) = [] := by
  apply List.eq_nil_iff_forall_not_mem.mpr
  simp

theorem sequence_sent (h : Hub) (d : Deposit) :
    (h.sequence d h.roster.sortedKeys).2 = .accepted d.device d.id (some h.nextSeq) false ::
      h.roster.sortedKeys.flatMap fun i =>
        if h.queue .items i = [] ∧ i ∉ h.unregistered then
          [.fanout i (some h.nextSeq) d.cls] else [] := by
  have hout := @push_out h.now h.nextSeq d.cls (· ∉ h.unregistered) _ h.roster.nodup_sortedKeys
    (h.waiting, h.pending)
  simp only [decide_eq_true_eq] at hout
  exact congrArg _ hout

theorem sequence_filing (hc : d.cls.Sequenced) :
    Filing h d ∅ (h.sequence d h.roster.sortedKeys).1 (h.sequence d h.roster.sortedKeys).2 where
  toFiled := sequence_filed hc
  kept := ⟨rfl, rfl, rfl, rfl, rfl⟩
  digests := rfl
  started i := by
    rw [sorted_empty, List.append_nil]
    exact lookup_waiting_push ..
  sent := by
    rw [sequence_sent, sorted_empty, List.flatMap_nil, List.append_nil]

theorem applyCommit_filing (hc : d.cls.Sequenced) (c : Commit) :
    Filing h d (h.invited c) (h.applyCommit d c).1 (h.applyCommit d c).2 where
  toFiled := applyCommit_filed hc c
  kept := by
    unfold applyCommit
    dsimp only
    split <;> exact ⟨rfl, rfl, rfl, rfl, rfl⟩
  digests := by
    unfold applyCommit
    dsimp only
    split <;> rfl
  started i := by
    have hw := (sequence_filing (h := h) hc).started
    simp only [sorted_empty, List.append_nil] at hw
    unfold applyCommit invited
    dsimp only
    by_cases hx : c.external = true
    · rw [if_pos hx, if_pos hx, sorted_empty, List.append_nil]
      exact hw i
    · rw [if_neg hx, if_neg hx]
      refine (lookup_waiting_push ..).trans ?_
      exact startedAt_append h.now _ _ _ _ hw i
  sent := by
    have ho := sequence_sent h d
    unfold applyCommit invited
    dsimp only
    by_cases hx : c.external = true
    · rw [if_pos hx, if_pos hx, ho, sorted_empty, List.flatMap_nil, List.append_nil]
    · rw [if_neg hx, if_neg hx, ho, welcome, push_out (nodup_sorted _)]
      simp only [and_true]
      rfl

theorem startedAt_congr {now : Nat} {l l' : List String} {w w' : Dict String Nat} {i : String}
    (hw : w.lookup i = w'.lookup i) (hl : i ∈ l ↔ i ∈ l') : startedAt now l w i = startedAt now l' w' i := by
  unfold startedAt
  rw [hw]
  simp only [hl]

/-- The other hub, when it has filed a deposit and not yet walked its queues. -/
def filed (t : Ts.Hub) (d : Deposit) (recipients welcomed : List String) : Ts.Hub :=
  { t with
    nextSeq := t.nextSeq + 1
    digests := t.digests.insert d.digest t.nextSeq
    classes := t.classes.insert t.nextSeq d.cls
    waiting := (recipients ++ welcomed).foldl (Ts.Hub.startClock t.now) t.waiting
    pending := recipients.foldl (Ts.Hub.enqueue t.nextSeq) t.pending
    welcomes := welcomed.foldl (Ts.Hub.enqueue t.nextSeq) t.welcomes }

section Filing

variable {invited : Finset String} {out : List Emit} {r : Roster} {e : Nat} {m : Option String}
  {u : Finset String} {recipients welcomed : List String}

theorem filed_queue (ht : recipients.Nodup) (hw : welcomed.Nodup)
    (hmem : ∀ i, i ∈ recipients ↔ i ∈ h.roster) (hwel : ∀ i, i ∈ welcomed ↔ i ∈ invited)
    (k : Kind) (i : String) :
    (filed { t with roster := r, epoch := e, movedTo := m, unregistered := u } d recipients
      welcomed).queue k i = if h.Gets invited k i then t.queue k i ++ [t.nextSeq] else t.queue k i := by
  cases k with
  | items => exact (queueOf_enqueue ht ..).trans (if_congr (hmem i) rfl rfl)
  | welcomes => exact (queueOf_enqueue hw ..).trans (if_congr (hwel i) rfl rfl)

theorem InStep.behind_filed (hi : InStep h t) {t' : Ts.Hub} (hsent : t'.sent = t.sent)
    (hnext : t'.nextSeq = t.nextSeq + 1)
    (hqueue : ∀ k i, t'.queue k i = if h.Gets invited k i then t.queue k i ++ [t.nextSeq]
      else t.queue k i) : Behind t' := by
  constructor
  · intro k i n hn
    rw [hsent] at hn
    rw [hnext]
    exact Nat.lt_succ_of_lt (hi.behind.below k i n hn)
  · intro k i head rest hq n hn
    rw [hsent]
    rw [hqueue] at hq
    split at hq
    case isFalse => exact hi.behind.tail k i head rest hq n hn
    case isTrue =>
      cases hold : t.queue k i with
      | nil =>
        rw [hold] at hq
        obtain ⟨-, rfl⟩ := List.cons.inj hq
        exact absurd hn List.not_mem_nil
      | cons first tail =>
        rw [hold, List.cons_append] at hq
        obtain ⟨-, rfl⟩ := List.cons.inj hq
        rcases List.mem_append.mp hn with hn | hn
        · exact hi.behind.tail k i first tail hold n hn
        · rw [List.mem_singleton.mp hn]
          exact fun hin => Nat.lt_irrefl _ (hi.behind.below k i _ hin)

/-- **Both hubs file an accepted deposit alike.** -/
theorem InStep.filing (hi : InStep h t) (hf : Filing h d invited h' out) (hq : h'.Queues)
    (ht : recipients.Nodup) (hw : welcomed.Nodup) (hmem : ∀ i, i ∈ recipients ↔ i ∈ h.roster)
    (hwel : ∀ i, i ∈ welcomed ↔ i ∈ invited) (hroster : ∀ i, r.lookup i = h'.roster.lookup i)
    (hepoch : e = h'.epoch) (hmoved : m = h'.movedTo) (hu : u = h'.unregistered) :
    InStep h' (Ts.Hub.sequence { t with roster := r, epoch := e, movedTo := m, unregistered := u } d
        recipients welcomed).1 ∧
      out = (Ts.Hub.sequence { t with roster := r, epoch := e, movedTo := m, unregistered := u } d
        recipients welcomed).2 := by
  have hs := hi.same
  have hqueue := filed_queue (d := d) (t := t) (r := r) (e := e) (m := m) (u := u) ht hw hmem hwel
  have hsame : Same h' (filed { t with roster := r, epoch := e, movedTo := m, unregistered := u } d
      recipients welcomed) := by
    obtain ⟨hnow, hkind, howner, hretention, hinfo⟩ := hf.kept
    constructor
    · exact hs.now.trans hnow.symm
    · exact hs.kind.trans hkind.symm
    · exact hs.owner.trans howner.symm
    · exact hs.retention.trans hretention.symm
    · exact hepoch
    · rw [hf.nextSeq, ← hs.nextSeq]
      rfl
    · exact hroster
    · intro k i
      rw [hqueue, hf.queue, hs.queue, hs.nextSeq]
    · intro i
      rw [hf.queue_ne_nil, hf.queue_ne_nil, ← (hs.filled i).1, ← (hs.filled i).2]
      constructor
      · refine (mem_enqueue ..).trans (or_congr Iff.rfl ?_)
        exact hmem i
      · refine (mem_enqueue ..).trans (or_congr Iff.rfl ?_)
        exact hwel i
    · rw [hf.seqClass, ← hs.nextSeq, ← hs.classes]
      rfl
    · rw [hf.digests, ← hs.nextSeq, ← hs.digests]
      rfl
    · exact hu
    · exact hs.groupInfo.trans hinfo.symm
    · exact hmoved
    · intro i
      rw [hf.started, ← hs.now]
      refine (lookup_startClocks ..).trans (startedAt_congr (hs.waiting i) ?_)
      simp only [List.mem_append, Dict.mem_sortedKeys, mem_sorted, hmem, hwel]
  have hbehind : Behind (filed { t with roster := r, epoch := e, movedTo := m, unregistered := u } d
      recipients welcomed) := hi.behind_filed rfl rfl hqueue
  obtain ⟨hin, hout⟩ := hsame.flush hq hbehind
  refine ⟨hin, ?_⟩
  rw [hf.sent, ← hs.nextSeq]
  show _ = Emit.accepted d.device d.id (some t.nextSeq) false :: (filed _ d recipients welcomed).flush.2
  rw [hout]
  congr 1
  have hhold : ∀ i, i ∈ t.unregistered → i ∈ u := by
    intro i hin
    rw [hu, hf.unregistered, ← hs.unregistered]
    exact Finset.mem_union_left _ hin
  have hnew : ∀ k i, unsent (filed { t with roster := r, epoch := e, movedTo := m, unregistered := u }
      d recipients welcomed) k i =
      if h.Gets invited k i ∧ h.queue k i = [] ∧ (k = .items → i ∉ u) then some t.nextSeq
      else none := by
    intro k i
    rw [← hs.queue]
    exact hi.unsent_filed (hqueue k i) rfl fun _ => hhold i
  have hnone : ∀ k i, ¬ h.Gets invited k i → news (filed
      { t with roster := r, epoch := e, movedTo := m, unregistered := u } d recipients welcomed) k i =
      [] := by
    intro k i hno
    apply news_eq_nil
    rw [hnew, if_neg fun h => hno h.1]
  have hclass : Ts.Hub.classOf (filed
      { t with roster := r, epoch := e, movedTo := m, unregistered := u } d recipients welcomed)
      t.nextSeq = d.cls := by
    show ((t.classes.insert t.nextSeq d.cls).lookup t.nextSeq).getD (.other "") = d.cls
    rw [AList.lookup_insert]
    rfl
  refine congrArg₂ HAppend.hAppend ?_ ?_
  · apply flatMap_eq_of_sorted (Dict.pairwise_sortedKeys _) (Dict.pairwise_sortedKeys _)
    · intro i hin _
      have hg : i ∈ h.roster := Dict.mem_sortedKeys.mp hin
      have hclear : i ∉ u ↔ i ∉ h.unregistered := by
        rw [hu, hf.unregistered]
        simp [hg]
      by_cases hgo : h.queue .items i = [] ∧ i ∉ h.unregistered
      · have hsome : unsent (filed { t with roster := r, epoch := e, movedTo := m, unregistered := u } d
            recipients welcomed) .items i = some t.nextSeq := by
          rw [hnew, if_pos ⟨hg, hgo.1, fun _ => hclear.mpr hgo.2⟩]
        rw [if_pos hgo, news_of_unsent hsome]
        exact congrArg (fun c => [Emit.fanout i (some t.nextSeq) c]) hclass.symm
      · rw [if_neg hgo, news_eq_nil]
        rw [hnew, if_neg]
        rintro ⟨-, hempty, hno⟩
        exact hgo ⟨hempty, hclear.mp (hno rfl)⟩
    · intro i hin hno
      refine absurd (Dict.mem_sortedKeys.mpr ?_) hno
      refine (mem_enqueue ..).mpr (.inr ?_)
      exact (hmem i).mpr (Dict.mem_sortedKeys.mp hin)
    · intro i _ hno
      exact hnone .items i fun hg => hno (Dict.mem_sortedKeys.mpr hg)
  · apply flatMap_eq_of_sorted (pairwise_sorted _) (Dict.pairwise_sortedKeys _)
    · intro i hin _
      have hg : i ∈ invited := mem_sorted.mp hin
      by_cases hgo : h.queue .welcomes i = []
      · have hsome : unsent (filed { t with roster := r, epoch := e, movedTo := m, unregistered := u } d
            recipients welcomed) .welcomes i = some t.nextSeq := by
          rw [hnew, if_pos ⟨hg, hgo, fun h => by cases h⟩]
        rw [if_pos hgo, news_of_unsent hsome]
        rfl
      · rw [if_neg hgo, news_eq_nil]
        rw [hnew, if_neg fun h => hgo h.2.1]
    · intro i hin hno
      refine absurd (Dict.mem_sortedKeys.mpr ?_) hno
      exact (mem_enqueue ..).mpr (.inr ((hwel i).mpr (mem_sorted.mp hin)))
    · intro i _ hno
      exact hnone .welcomes i fun hg => hno (mem_sorted.mpr hg)

end Filing

/-! ## The roster after a commit -/

/-- The devices of an identity. -/
def devices (r : Roster) (i : String) : Finset String := (r.lookup i).getD ∅

/-- An identity is added with a device that the roster does not have. -/
def Fresh (r : Roster) (adds : List Leaf) (i : String) : Prop :=
  ∃ a ∈ adds, a.identity = i ∧ a.device ∉ devices r i

theorem mem_gained {r : Roster} {adds : List Leaf} {i : String} : i ∈ gained r adds ↔ Fresh r adds i := by
  simp only [gained, List.mem_toFinset, List.mem_map, List.mem_filter, decide_eq_true_eq]
  constructor
  · rintro ⟨a, ⟨ha, hno⟩, rfl⟩
    exact ⟨a, ha, rfl, hno⟩
  · rintro ⟨a, ha, rfl, hno⟩
    exact ⟨a, ⟨ha, hno⟩, rfl⟩

theorem devices_addLeaf (r : Roster) (a : Leaf) (i : String) : devices (addLeaf r a) i =
      if i = a.identity then insert a.device (devices r i) else devices r i := by
  unfold devices addLeaf
  rw [Dict.lookup_insert_eq]
  by_cases hi : i = a.identity
  · rw [if_pos hi, if_pos hi, hi]
    rfl
  · rw [if_neg hi, if_neg hi]

theorem fresh_cons {r : Roster} {a : Leaf} {adds : List Leaf} {i : String} : Fresh r (a :: adds) i ↔
      (a.identity = i ∧ a.device ∉ devices r i) ∨ Fresh (addLeaf r a) adds i := by
  unfold Fresh
  rw [List.exists_mem_cons_iff]
  simp only [devices_addLeaf]
  constructor
  · rintro (h | ⟨b, hb, rfl, hno⟩)
    · exact .inl h
    · by_cases hba : b.identity = a.identity ∧ b.device = a.device
      · exact .inl ⟨hba.1.symm, hba.2 ▸ hno⟩
      · refine .inr ⟨b, hb, rfl, ?_⟩
        split
        case isTrue hid =>
          rw [Finset.mem_insert, not_or]
          exact ⟨fun hd => hba ⟨hid, hd⟩, hno⟩
        case isFalse => exact hno
  · rintro (h | ⟨b, hb, rfl, hno⟩)
    · exact .inl h
    · refine .inr ⟨b, hb, rfl, ?_⟩
      split at hno
      case isTrue => exact fun hin => hno (Finset.mem_insert_of_mem hin)
      case isFalse => exact hno

theorem lookup_addLeaf_congr {r r' : Roster} (h : ∀ i, r.lookup i = r'.lookup i) (a : Leaf)
    (i : String) : (addLeaf r a).lookup i = (addLeaf r' a).lookup i := by
  unfold addLeaf
  exact Dict.lookup_insert_congr (by rw [h]) fun _ => h i

theorem lookup_addLeaves_congr {adds : List Leaf} : ∀ {r r' : Roster}, (∀ i, r.lookup i = r'.lookup i) →
      ∀ i, (adds.foldl addLeaf r).lookup i = (adds.foldl addLeaf r').lookup i := by
  induction adds with
  | nil => exact fun h => h
  | cons a adds ih => exact fun h => ih (lookup_addLeaf_congr h a)

theorem lookup_removeLeaf_congr {r r' : Roster} (h : ∀ i, r.lookup i = r'.lookup i) (x : Removal)
    (i : String) : (Ts.Hub.removeLeaf r x).lookup i = (removeLeaf r' x).lookup i := by
  unfold Ts.Hub.removeLeaf removeLeaf
  rw [h]
  cases hx : r'.lookup x.identity with
  | none =>
    dsimp only
    rw [Option.getD_none, if_pos (Finset.erase_eq_of_notMem (Finset.notMem_empty _)), Dict.lookup_erase_eq, h]
    split
    case isTrue hi => rw [hi, hx]
    case isFalse => rfl
  | some devs =>
    dsimp only
    rw [Option.getD_some]
    split
    · rw [Dict.lookup_erase_eq, Dict.lookup_erase_eq, h]
    · exact Dict.lookup_insert_congr rfl fun _ => h i

theorem lookup_removeLeaves_congr {removes : List Removal} :
    ∀ {r r' : Roster}, (∀ i, r.lookup i = r'.lookup i) →
      ∀ i, (removes.foldl Ts.Hub.removeLeaf r).lookup i = (removes.foldl removeLeaf r').lookup i := by
  induction removes with
  | nil => exact fun h => h
  | cons x removes ih => exact fun h => ih (lookup_removeLeaf_congr h x)

theorem devices_removeLeaf_subset (r : Roster) (x : Removal) (i : String) :
    devices (removeLeaf r x) i ⊆ devices r i := by
  unfold removeLeaf devices
  cases hx : r.lookup x.identity with
  | none => exact Finset.Subset.refl _
  | some devs =>
    dsimp only
    split
    · rw [Dict.lookup_erase_eq]
      split
      · exact Finset.empty_subset _
      · exact Finset.Subset.refl _
    · rw [Dict.lookup_insert_eq]
      split
      case isTrue hi =>
        rw [hi, hx]
        exact Finset.erase_subset _ _
      case isFalse => exact Finset.Subset.refl _

theorem devices_removeLeaves_subset (removes : List Removal) (r : Roster) (i : String) :
    devices (removes.foldl removeLeaf r) i ⊆ devices r i := by
  induction removes generalizing r with
  | nil => exact Finset.Subset.refl _
  | cons x removes ih => exact (ih (removeLeaf r x)).trans (devices_removeLeaf_subset r x i)

theorem addLeaves_spec (recipients : List String) (adds : List Leaf) (external : Bool)
    (t : Ts.Hub) (welcomed : List String) :
    ∃ u welcomed', adds.foldl (Ts.Hub.addLeaf recipients external) (t, welcomed) =
      ({ t with roster := adds.foldl addLeaf t.roster, unregistered := u }, welcomed') ∧
    (∀ i, i ∈ welcomed' ↔ i ∈ welcomed ∨ (external = false ∧ Fresh t.roster adds i)) ∧
    (∀ i, i ∈ u ↔ i ∈ t.unregistered ∨ (external = false ∧ i ∉ recipients ∧ Fresh t.roster adds i)) ∧
    (welcomed.Nodup → welcomed'.Nodup) := by
  induction adds generalizing t welcomed with
  | nil => exact ⟨t.unregistered, welcomed, rfl, by simp [Fresh], by simp [Fresh], fun h => h⟩
  | cons a adds ih =>
    simp only [List.foldl_cons, fresh_cons]
    unfold Ts.Hub.addLeaf
    dsimp only
    by_cases hold : a.device ∈ devices t.roster a.identity
    · have hroster : t.roster.insert a.identity (devices t.roster a.identity) = addLeaf t.roster a := by
        unfold addLeaf
        rw [Finset.insert_eq_of_mem (show a.device ∈ (t.roster.lookup a.identity).getD ∅ from hold)]
        rfl
      rw [if_pos (show a.device ∈ (t.roster.lookup a.identity).getD ∅ from hold)]
      obtain ⟨u, welcomed', hfold, hw, hu, hn⟩ := ih { t with roster := addLeaf t.roster a } welcomed
      refine ⟨u, welcomed', ?_, ?_, ?_, hn⟩
      · rw [← hroster] at hfold ⊢
        exact hfold
      · intro i
        rw [hw]
        have hno : ¬ (a.identity = i ∧ a.device ∉ devices t.roster i) := by
          rintro ⟨rfl, h⟩
          exact h hold
        simp only [hno, false_or]
      · intro i
        rw [hu]
        have hno : ¬ (a.identity = i ∧ a.device ∉ devices t.roster i) := by
          rintro ⟨rfl, h⟩
          exact h hold
        simp only [hno, false_or]
    · rw [if_neg (show a.device ∉ (t.roster.lookup a.identity).getD ∅ from hold)]
      obtain ⟨u, welcomed', hfold, hw, hu, hn⟩ := ih
        { t with
          roster := addLeaf t.roster a
          unregistered :=
            if a.identity ∉ recipients ∧ !external then insert a.identity t.unregistered
            else t.unregistered }
        (if !external ∧ a.identity ∉ welcomed then welcomed ++ [a.identity] else welcomed)
      refine ⟨u, welcomed', hfold, ?_, ?_, ?_⟩
      · intro i
        rw [hw]
        cases external with
        | true => simp
        | false =>
          by_cases hi : a.identity = i
          · subst hi
            by_cases hin : a.identity ∈ welcomed
            · simp [hin]
            · simp [hin, hold]
          · by_cases hin : a.identity ∈ welcomed
            · simp [hin, hi]
            · simp [hin, hi, Ne.symm hi]
      · intro i
        rw [hu]
        cases external with
        | true => simp
        | false =>
          by_cases hi : a.identity = i
          · subst hi
            by_cases hin : a.identity ∈ recipients
            · simp [hin]
            · simp [hin, hold]
          · by_cases hin : a.identity ∈ recipients
            · simp [hin, hi]
            · simp [hin, hi, Ne.symm hi]
      · intro hnodup
        apply hn
        split
        case isTrue h =>
          rw [List.nodup_append]
          refine ⟨hnodup, List.nodup_singleton _, ?_⟩
          intro x hx y hy
          rw [List.mem_singleton.mp hy]
          exact fun hxy => h.2 (hxy ▸ hx)
        case isFalse => exact hnodup

theorem applyCommit_state (h : Hub) (d : Deposit) (c : Commit) :
    (h.applyCommit d c).1.roster = c.adds.foldl addLeaf (c.removes.foldl removeLeaf h.roster) ∧
      (h.applyCommit d c).1.epoch = h.epoch + 1 ∧
      (h.applyCommit d c).1.movedTo = (c.movesTo.filter (· ≠ "")).or h.movedTo := by
  unfold applyCommit
  dsimp only
  split <;> exact ⟨rfl, rfl, rfl⟩

/-- A commit welcomes no identity for a device that it removes and adds again,
unless that identity gains another one. -/
def NoneBack (h : Hub) (c : Commit) : Prop :=
  c.external = false → ∀ a ∈ c.adds, a.device ∉ devices (c.removes.foldl removeLeaf h.roster) a.identity →
      a.identity ∈ gained h.roster c.adds

theorem InStep.applyCommit (hi : InStep h t) (hc : d.cls.Sequenced)
    (hq : (h.applyCommit d c).1.Queues) (hback : NoneBack h c) (hmoves : c.movesTo ≠ some "") :
    InStep (h.applyCommit d c).1 (t.applyCommit d c).1 ∧ (h.applyCommit d c).2 = (t.applyCommit d c).2 := by
  have hs := hi.same
  have hremoved : ∀ i, (c.removes.foldl Ts.Hub.removeLeaf t.roster).lookup i =
      (c.removes.foldl removeLeaf h.roster).lookup i := lookup_removeLeaves_congr hs.roster
  obtain ⟨u, welcomed, hfold, hw, hu, hn⟩ := addLeaves_spec t.roster.keys c.adds c.external
    { t with roster := c.removes.foldl Ts.Hub.removeLeaf t.roster } []
  have hrecipients : ∀ i, i ∈ t.roster.keys ↔ i ∈ h.roster := by
    intro i
    rw [← AList.mem_keys, Dict.mem_iff_lookup, Dict.mem_iff_lookup, hs.roster]
  have hfresh : ∀ i, (c.external = false ∧ Fresh (c.removes.foldl Ts.Hub.removeLeaf t.roster) c.adds i) ↔
      i ∈ h.invited c := by
    intro i
    unfold invited
    cases hx : c.external with
    | true => simp
    | false =>
      simp only [true_and, Bool.false_eq_true, if_false]
      unfold Fresh devices
      rw [hremoved]
      constructor
      · rintro ⟨a, ha, rfl, hno⟩
        exact hback hx a ha hno
      · intro hg
        obtain ⟨a, ha, rfl, hno⟩ := mem_gained.mp hg
        exact ⟨a, ha, rfl, fun hin => hno (devices_removeLeaves_subset c.removes _ _ hin)⟩
  have hwel : ∀ i, i ∈ welcomed ↔ i ∈ h.invited c := by
    intro i
    rw [hw, ← hfresh]
    simp
  have hstate := applyCommit_state h d c
  have hfiling := applyCommit_filing (h := h) hc c
  have hhold : u = (h.applyCommit d c).1.unregistered := by
    rw [hfiling.unregistered]
    ext i
    rw [hu, Finset.mem_union, Finset.mem_filter, ← hfresh, ← hrecipients]
    show i ∈ t.unregistered ∨ _ ↔ _
    rw [hs.unregistered]
    tauto
  have hmoved : c.movesTo.or t.movedTo = (h.applyCommit d c).1.movedTo := by
    rw [hstate.2.2, hs.movedTo]
    cases hm : c.movesTo with
    | none => rfl
    | some new =>
      have hne : new ≠ "" := fun he => hmoves (hm.trans (congrArg some he))
      rw [Option.filter_some, if_pos (by simpa using hne)]
  have hroster : ∀ i, (c.adds.foldl addLeaf (c.removes.foldl Ts.Hub.removeLeaf t.roster)).lookup i =
      (h.applyCommit d c).1.roster.lookup i := by
    rw [hstate.1]
    exact lookup_addLeaves_congr hremoved
  have hepoch : t.epoch + 1 = (h.applyCommit d c).1.epoch := by
    rw [hstate.2.1, hs.epoch]
  have hresult := hi.filing hfiling hq t.roster.keys_nodup (hn List.nodup_nil) hrecipients hwel hroster
    hepoch hmoved hhold
  unfold Ts.Hub.applyCommit
  dsimp only
  rw [hfold]
  exact hresult

/-! ## Who may do what -/

theorem mem_leaves {r : Roster} {a : Leaf} : a ∈ leaves r ↔ a.device ∈ devices r a.identity := by
  simp only [leaves, List.mem_flatMap, List.mem_map, Dict.mem_sortedKeys, mem_sorted]
  constructor
  · rintro ⟨i, -, device, hd, rfl⟩
    exact hd
  · intro hd
    refine ⟨a.identity, ?_, a.device, hd, rfl⟩
    rw [Dict.mem_iff_lookup]
    cases hl : r.lookup a.identity with
    | none => simp [devices, hl] at hd
    | some devs => exact ⟨devs, rfl⟩

theorem mem_devicesOf {r : Roster} {i device : String} :
    device ∈ devicesOf (leaves r) i ↔ device ∈ devices r i := by
  simp only [devicesOf, List.mem_map, List.mem_filter, decide_eq_true_eq, mem_leaves]
  constructor
  · rintro ⟨a, ⟨hd, rfl⟩, rfl⟩
    exact hd
  · intro hd
    exact ⟨⟨i, device⟩, ⟨hd, rfl⟩, rfl⟩

theorem mem_identities {r : Roster} {i : String} : i ∈ (leaves r).map (·.identity) ↔ devices r i ≠ ∅ := by
  rw [List.mem_map, ← Finset.nonempty_iff_ne_empty]
  constructor
  · rintro ⟨a, ha, rfl⟩
    exact ⟨a.device, mem_leaves.mp ha⟩
  · rintro ⟨device, hd⟩
    exact ⟨⟨i, device⟩, mem_leaves.mpr hd, rfl⟩

theorem mem_of_devices {r : Roster} {i : String} (hd : devices r i ≠ ∅) : i ∈ r := by
  rw [Dict.mem_iff_lookup]
  cases hl : r.lookup i with
  | none => simp [devices, hl] at hd
  | some devs => exact ⟨devs, rfl⟩

theorem removalAllowed_eq (hs : Same h t) (removes : List Removal) (i : String) :
    removalAllowed (leaves h.roster) removes i = t.mayRemove removes i := by
  unfold removalAllowed Ts.Hub.mayRemove
  dsimp only
  congr 1
  rw [Bool.eq_iff_iff, List.all_eq_true, decide_eq_true_eq, Finset.filter_eq_empty_iff, hs.roster]
  simp only [decide_eq_true_eq, not_not, mem_devicesOf]
  rfl

/-- No commit adds to another identity that is in the roster with no devices. -/
def NoneEmpty (h : Hub) (d : Deposit) (c : Commit) : Prop :=
  c.external = false → ∀ a ∈ c.adds, a.identity ≠ d.identity → a.identity ∈ h.roster →
    devices h.roster a.identity ≠ ∅

theorem Same.mem_roster (hs : Same h t) (i : String) : i ∈ t.roster ↔ i ∈ h.roster := by
  rw [Dict.mem_iff_lookup, Dict.mem_iff_lookup, hs.roster]

theorem removes_eq (hs : Same h t) (d : Deposit) (c : Commit) :
    c.removes.all (fun r => r.identity = d.identity ∨ removalAllowed (leaves h.roster) c.removes
      r.identity) =
    c.removes.all fun r => r.identity = d.identity ∨ t.mayRemove c.removes r.identity := by
  simp only [removalAllowed_eq hs]

theorem valid_of_authorized (ha : t.authorized d c = true) : c.valid = true := by
  unfold Ts.Hub.authorized at ha
  split at ha
  case isTrue => cases ha
  case isFalse hv => simpa using hv

theorem checkRosterChange_of_authorized (hs : Same h t) (hx : c.external = false)
    (ha : t.authorized d c = true) :
    checkRosterChange d.identity (leaves h.roster) c.adds c.removes = none := by
  unfold Ts.Hub.authorized at ha
  rw [hx] at ha
  split at ha
  case isTrue => cases ha
  case isFalse hv =>
    rw [if_neg Bool.false_ne_true] at ha
    split at ha
    case isTrue => cases ha
    case isFalse hadds =>
      unfold checkRosterChange
      rw [if_neg, removes_eq hs, ha, if_pos rfl]
      rw [List.any_eq_true] at hadds ⊢
      rintro ⟨a, hmem, hboth⟩
      rw [decide_eq_true_eq, mem_identities] at hboth
      refine hadds ⟨a, hmem, ?_⟩
      rw [decide_eq_true_eq, hs.mem_roster]
      exact ⟨hboth.2, mem_of_devices hboth.1⟩

theorem authorized_of_checkRosterChange (hs : Same h t) (hx : c.external = false)
    (hv : c.valid = true) (he : NoneEmpty h d c)
    (hr : checkRosterChange d.identity (leaves h.roster) c.adds c.removes = none) :
    t.authorized d c = true := by
  unfold checkRosterChange at hr
  split at hr
  case isTrue => cases hr
  case isFalse hadds =>
    split at hr
    case isFalse => cases hr
    case isTrue hremoves =>
      unfold Ts.Hub.authorized
      rw [hv, hx, if_neg (by simp), if_neg (by simp), if_neg, ← removes_eq hs, hremoves]
      rw [List.any_eq_true] at hadds ⊢
      rintro ⟨a, hmem, hboth⟩
      rw [decide_eq_true_eq, hs.mem_roster] at hboth
      refine hadds ⟨a, hmem, ?_⟩
      rw [decide_eq_true_eq, mem_identities]
      exact ⟨he hx a hmem hboth.1 hboth.2, hboth.1⟩

theorem checkRosterChange_external {kind : String} {owner : Option String} {roster : List String}
    {leaves' : List Leaf}
    (hj : checkExternalJoin kind owner roster ⟨d.identity, d.device⟩ c.adds c.removes = none) :
    checkRosterChange d.identity leaves' c.adds c.removes = none := by
  unfold checkExternalJoin at hj
  split at hj
  case isTrue => cases hj
  case isFalse hadds =>
    rw [ne_eq, not_not] at hadds
    split at hj
    case isTrue => cases hj
    case isFalse =>
      split at hj
      case isTrue => cases hj
      case isFalse hremoves =>
        unfold checkRosterChange
        rw [hadds, if_neg (by simp), if_pos]
        rw [List.any_eq_true, not_exists] at hremoves
        rw [List.all_eq_true]
        intro x hx
        have hid := hremoves x
        simp only [hx, true_and, decide_eq_true_eq, ne_eq, not_not] at hid
        rw [decide_eq_true_eq]
        exact .inl hid

theorem checkExternalJoin_of_externalJoin (hs : Same h t) {joiner : Leaf} {adds : List Leaf}
    {removes : List Removal} (hj : Ts.Hub.externalJoin t.kind t.owner t.roster joiner adds removes = true) :
    checkExternalJoin h.kind h.owner h.roster.sortedKeys joiner adds removes = none := by
  unfold Ts.Hub.externalJoin at hj
  rw [Bool.and_eq_true, Bool.and_eq_true, decide_eq_true_eq, List.all_eq_true] at hj
  obtain ⟨⟨hadds, hmember⟩, hremoves⟩ := hj
  unfold checkExternalJoin
  rw [if_neg (not_not.mpr hadds), if_neg, if_neg]
  · rw [List.any_eq_true]
    rintro ⟨x, hx, hne⟩
    exact of_decide_eq_true hne (of_decide_eq_true (hremoves x hx))
  · rw [not_not, Dict.mem_sortedKeys]
    rw [hs.kind, hs.owner] at hmember
    split at hmember
    case isTrue hk => exact .inr ⟨hk, (of_decide_eq_true hmember).symm⟩
    case isFalse => exact .inl ((hs.mem_roster _).mp (of_decide_eq_true hmember))

theorem externalJoin_of_checkExternalJoin (hs : Same h t) {joiner : Leaf} {adds : List Leaf}
    {removes : List Removal} (ho : h.kind = "personal" → h.owner = some joiner.identity)
    (hj : checkExternalJoin h.kind h.owner h.roster.sortedKeys joiner adds removes = none) :
    Ts.Hub.externalJoin t.kind t.owner t.roster joiner adds removes = true := by
  unfold checkExternalJoin at hj
  split at hj
  case isTrue => cases hj
  case isFalse hadds =>
    split at hj
    case isTrue => cases hj
    case isFalse hmember =>
      split at hj
      case isTrue => cases hj
      case isFalse hremoves =>
        rw [ne_eq, not_not] at hadds
        rw [not_not, Dict.mem_sortedKeys] at hmember
        unfold Ts.Hub.externalJoin
        rw [Bool.and_eq_true, Bool.and_eq_true, decide_eq_true_eq, List.all_eq_true]
        refine ⟨⟨hadds, ?_⟩, ?_⟩
        · rw [hs.kind, hs.owner]
          split
          case isTrue hk => exact decide_eq_true (ho hk).symm
          case isFalse hk =>
            rw [decide_eq_true_eq, hs.mem_roster]
            exact hmember.resolve_right fun h => hk h.1
        · rw [List.any_eq_true, not_exists] at hremoves
          intro x hx
          have hid := hremoves x
          simp only [hx, true_and, decide_eq_true_eq, ne_eq, not_not] at hid
          exact decide_eq_true hid

/-! ## A commit -/

/-- The commit is the one that is accepted. -/
def Taken (h : Hub) (d : Deposit) (c : Commit) : Prop :=
  h.mayDeposit d = true ∧ d.epoch = h.epoch ∧ c.valid = true ∧
    checkRosterChange d.identity (leaves h.roster) c.adds c.removes = none

structure CommitMeets (h : Hub) (d : Deposit) (c : Commit) : Prop where
  /-- An external commit that is not valid is made for the current epoch. -/
  order : c.external = true → h.mayDeposit d = true → c.valid = false → d.epoch = h.epoch
  /-- A valid one to a personal group is its owner's. -/
  owner : c.external = true → h.mayDeposit d = true → c.valid = true → h.kind = "personal" →
    h.owner = some d.identity
  empty : Taken h d c → NoneEmpty h d c
  back : Taken h d c → NoneBack h c

theorem mayDeposit_external (hcommit : d.commit = some c) (hx : c.external = true) :
    h.mayDeposit d = true ↔ checkExternalJoin h.kind h.owner h.roster.sortedKeys
      ⟨d.identity, d.device⟩ c.adds c.removes = none := by
  unfold mayDeposit
  rw [hcommit]
  dsimp only
  rw [if_pos hx, Option.isNone_iff_eq_none]

theorem mayDeposit_member (hx : ∀ c, d.commit = some c → c.external = false) :
    h.mayDeposit d = decide (d.identity ∈ h.roster) := by
  unfold mayDeposit
  cases hcommit : d.commit with
  | none => rfl
  | some c => exact if_neg (by simp [hx c hcommit])

theorem ts_mayDeposit_member (hs : Same h t)
    (hx : d.cls = .handshake → ∀ c, d.commit = some c → c.external = false) :
    t.mayDeposit d = decide (d.identity ∈ h.roster) := by
  have hmem : decide (d.identity ∈ t.roster) = decide (d.identity ∈ h.roster) :=
    decide_eq_decide.mpr (hs.mem_roster _)
  unfold Ts.Hub.mayDeposit
  cases hcommit : d.commit with
  | none => exact hmem
  | some c =>
    dsimp only
    rw [if_neg]
    · exact hmem
    · rintro ⟨hc, hext⟩
      rw [hx hc c hcommit] at hext
      cases hext

theorem authorized_external (hs : Same h t) (hcommit : d.commit = some c)
    (hx : c.external = true) (hm : CommitMeets h d c) : t.authorized d c = (c.valid && h.mayDeposit d) := by
  rw [Bool.eq_iff_iff, Bool.and_eq_true, mayDeposit_external hcommit hx]
  unfold Ts.Hub.authorized
  cases hv : c.valid with
  | false => simp
  | true =>
    rw [if_neg (by simp), if_pos hx]
    constructor
    · exact fun hj => ⟨rfl, checkExternalJoin_of_externalJoin hs hj⟩
    · rintro ⟨-, hj⟩
      refine externalJoin_of_checkExternalJoin hs ?_ hj
      exact hm.owner hx ((mayDeposit_external hcommit hx).mpr hj) hv

theorem depositSequenced_commit (hc : d.cls = .handshake) (hcommit : d.commit = some c)
    (hd : h.digests.lookup d.digest = none) : h.depositSequenced d =
      if !h.mayDeposit d then (h, refuse d "policy.blocked")
      else if d.epoch ≠ h.epoch then
        (h, refuse d (if d.epoch + 1 = h.epoch then "mailbox.commit-conflict"
          else "mailbox.stale-epoch"))
      else if !c.valid then (h, refuse d "policy.blocked")
      else if (checkRosterChange d.identity (leaves h.roster) c.adds c.removes).isSome then
        (h, refuse d "policy.blocked")
      else h.applyCommit d c := by
  unfold depositSequenced handshake
  rw [hd, hc, hcommit]
  simp

theorem depositOrdered_commit (hc : d.cls = .handshake) (hcommit : d.commit = some c) : t.depositOrdered d =
      if d.epoch ≠ t.epoch then
        (t, refuse d (if d.epoch + 1 = t.epoch then "mailbox.commit-conflict"
          else "mailbox.stale-epoch"))
      else if !t.authorized d c then (t, refuse d "policy.blocked")
      else t.applyCommit d c := by
  unfold Ts.Hub.depositOrdered
  rw [hc, hcommit]
  simp only [reduceCtorEq, if_false]
  by_cases hold : d.epoch + 1 = t.epoch
  · have hne : d.epoch ≠ t.epoch := by omega
    rw [if_pos hold, if_pos hne, if_pos hold]
  · rw [if_neg hold, if_neg hold]

/-- **A commit.** -/
theorem InStep.commit (hi : InStep h t) (hq : (h.depositSequenced d).1.Queues)
    (hc : d.cls = .handshake) (hcommit : d.commit = some c)
    (hd : h.digests.lookup d.digest = none) (hm : CommitMeets h d c)
    (hmoves : c.movesTo ≠ some "") : InStep (h.depositSequenced d).1
        (if !t.mayDeposit d then (t, refuse d "policy.blocked") else t.depositOrdered d).1 ∧
      (h.depositSequenced d).2 =
        (if !t.mayDeposit d then (t, refuse d "policy.blocked") else t.depositOrdered d).2 := by
  have hs := hi.same
  rw [depositSequenced_commit hc hcommit hd] at hq ⊢
  rw [depositOrdered_commit hc hcommit, hs.epoch]
  by_cases hx : c.external = true
  · have hauth := authorized_external hs hcommit hx hm
    have hmay : t.mayDeposit d = (c.valid && h.mayDeposit d) := by
      rw [← hauth]
      unfold Ts.Hub.mayDeposit
      rw [hcommit]
      exact if_pos ⟨hc, hx⟩
    rw [hmay, hauth]
    cases hp : h.mayDeposit d with
    | false =>
      rw [Bool.and_false]
      exact ⟨hi, rfl⟩
    | true =>
      have hr : checkRosterChange d.identity (leaves h.roster) c.adds c.removes = none :=
        checkRosterChange_external ((mayDeposit_external hcommit hx).mp hp)
      cases hv : c.valid with
      | false =>
        simp only [hm.order hx hp hv, ne_eq, not_true, if_false]
        exact ⟨hi, rfl⟩
      | true =>
        simp only [hp, hv, hr, Bool.not_true, Bool.and_true, Bool.false_eq_true, if_false,
          Option.isSome_none] at hq ⊢
        by_cases he : d.epoch ≠ h.epoch
        · rw [if_pos he, if_pos he]
          exact ⟨hi, rfl⟩
        · simp only [if_neg he] at hq ⊢
          exact hi.applyCommit (.inl hc) hq (fun hno => absurd (hx.symm.trans hno) (by simp))
            hmoves
  · rw [Bool.not_eq_true] at hx
    have hmember : ∀ c', d.commit = some c' → c'.external = false := by
      intro c' hc'
      rw [hcommit] at hc'
      rw [← Option.some.inj hc', hx]
    rw [ts_mayDeposit_member hs fun _ => hmember, ← mayDeposit_member hmember]
    cases hp : h.mayDeposit d with
    | false => exact ⟨hi, rfl⟩
    | true =>
      simp only [hp, Bool.not_true, Bool.false_eq_true, if_false] at hq ⊢
      by_cases he : d.epoch ≠ h.epoch
      · rw [if_pos he, if_pos he]
        exact ⟨hi, rfl⟩
      · simp only [if_neg he] at hq ⊢
        rw [not_not] at he
        cases ha : t.authorized d c with
        | true =>
          have hv := valid_of_authorized ha
          have hr := checkRosterChange_of_authorized hs hx ha
          simp only [hv, hr, Bool.not_true, Bool.false_eq_true, if_false, Option.isSome_none] at hq ⊢
          exact hi.applyCommit (.inl hc) hq (hm.back ⟨hp, he, hv, hr⟩) hmoves
        | false =>
          cases hv : c.valid with
          | false => exact ⟨hi, rfl⟩
          | true =>
            cases hr : checkRosterChange d.identity (leaves h.roster) c.adds c.removes with
            | some reason => exact ⟨hi, rfl⟩
            | none =>
              have hyes := authorized_of_checkRosterChange hs hx hv
                (hm.empty ⟨hp, he, hv, hr⟩) hr
              exact absurd (ha.symm.trans hyes) (by simp)

/-! ## Every deposit -/

/-- A deposit as depositors make it. -/
structure WellFormed (d : Deposit) : Prop where
  carried : ∀ c, d.commit = some c → d.cls = .handshake
  named : ∀ c, d.commit = some c → c.movesTo ≠ some ""

def DepositMeets (h : Hub) (d : Deposit) : Prop :=
  h.movedTo = none → d.cls = .handshake → h.digests.lookup d.digest = none →
    ∀ c, d.commit = some c → CommitMeets h d c

theorem groupInfoOut_congr {r r' : Roster} (hr : ∀ i, r.lookup i = r'.lookup i) (d : Deposit) :
    groupInfoOut d r = groupInfoOut d r' := by
  have hkeys : r.sortedKeys = r'.sortedKeys := by
    apply Dict.sortedKeys_congr
    intro i
    rw [Dict.mem_iff_lookup, Dict.mem_iff_lookup, hr]
  unfold groupInfoOut
  rw [hkeys]

theorem InStep.returned (hi : InStep h t) (d : Deposit) (handoverSeq : Nat) :
    InStep (h.returned d handoverSeq).1 (t.returned d handoverSeq).1 ∧
      (h.returned d handoverSeq).2 = (t.returned d handoverSeq).2 := by
  have hs := hi.same
  unfold Hub.returned Ts.Hub.returned
  rw [hs.nextSeq]
  cases d.view with
  | none =>
    dsimp only
    rw [Option.getD_none, if_pos (.inl (AList.notMem_empty _))]
    exact ⟨hi, rfl⟩
  | some view =>
    dsimp only
    rw [Option.getD_some]
    by_cases hmem : d.identity ∉ view.roster
    · rw [if_pos hmem, if_pos (.inl hmem)]
      exact ⟨hi, rfl⟩
    · rw [if_neg hmem]
      by_cases hlt : handoverSeq < h.nextSeq
      · rw [if_pos hlt, if_pos (.inr hlt)]
        exact ⟨hi, rfl⟩
      · rw [if_neg hlt, if_neg (not_or.mpr ⟨hmem, hlt⟩)]
        refine ⟨⟨⟨hs.now, hs.kind, hs.owner, hs.retention, rfl, rfl, fun _ => rfl, hs.queue,
          hs.filled, hs.classes, hs.digests, hs.unregistered, rfl, rfl, hs.waiting⟩,
          ⟨?_, hi.behind.tail⟩, hi.told⟩, rfl⟩
        intro k i n hn
        have hbelow := hi.behind.below k i n hn
        rw [hs.nextSeq] at hbelow
        show n < handoverSeq + 1
        omega

theorem InStep.sequence (hi : InStep h t) (hc : d.cls.Sequenced)
    (hq : (h.sequence d h.roster.sortedKeys).1.Queues) :
    InStep (h.sequence d h.roster.sortedKeys).1 (t.sequence d t.roster.keys []).1 ∧
      (h.sequence d h.roster.sortedKeys).2 = (t.sequence d t.roster.keys []).2 := by
  have hs := hi.same
  have hmem : ∀ i, i ∈ t.roster.keys ↔ i ∈ h.roster := by
    intro i
    rw [← AList.mem_keys]
    exact hs.mem_roster i
  have hf := sequence_filing (h := h) hc
  have hhold : t.unregistered = (h.sequence d h.roster.sortedKeys).1.unregistered := hs.unregistered
  exact hi.filing hf hq t.roster.keys_nodup List.nodup_nil hmem (by simp) hs.roster hs.epoch
    hs.movedTo hhold

theorem InStep.depositSequenced (hi : InStep h t) (hq : (h.depositSequenced d).1.Queues)
    (hc : d.cls.Sequenced) (hd : h.digests.lookup d.digest = none) (hwf : WellFormed d)
    (hm : d.cls = .handshake → ∀ c, d.commit = some c → CommitMeets h d c) : InStep (h.depositSequenced d).1
        (if !t.mayDeposit d then (t, refuse d "policy.blocked") else t.depositOrdered d).1 ∧
      (h.depositSequenced d).2 =
        (if !t.mayDeposit d then (t, refuse d "policy.blocked") else t.depositOrdered d).2 := by
  have hs := hi.same
  cases hcommit : d.commit with
  | some c =>
    have hhand := hwf.carried c hcommit
    exact hi.commit hq hhand hcommit hd (hm hhand c hcommit) (hwf.named c hcommit)
  | none =>
    have hnone : ∀ c, d.commit = some c → c.external = false := by
      intro c hsome
      rw [hcommit] at hsome
      cases hsome
    rw [ts_mayDeposit_member hs fun _ => hnone, ← mayDeposit_member hnone]
    unfold Hub.depositSequenced Hub.handshake at hq ⊢
    unfold Ts.Hub.depositOrdered
    simp only [hd, hcommit, hs.epoch, Option.isSome_none, Bool.false_eq_true, false_and,
      if_false] at hq ⊢
    cases hp : h.mayDeposit d with
    | false => exact ⟨hi, rfl⟩
    | true =>
      simp only [hp, Bool.not_true, Bool.false_eq_true, if_false] at hq ⊢
      by_cases happ : d.cls = .application
      · simp only [if_pos happ] at hq ⊢
        by_cases hr : h.RecentEpoch d.epoch
        · have hno : ¬ (d.epoch ≠ h.epoch ∧ d.epoch + 1 ≠ h.epoch) := by
            rintro ⟨h₁, h₂⟩
            exact hr.elim h₁ h₂
          simp only [if_pos hr, if_neg hno] at hq ⊢
          exact hi.sequence hc hq
        · have hyes : d.epoch ≠ h.epoch ∧ d.epoch + 1 ≠ h.epoch :=
            ⟨fun h₁ => hr (.inl h₁), fun h₂ => hr (.inr h₂)⟩
          rw [if_neg hr, if_pos hyes]
          exact ⟨hi, rfl⟩
      · simp only [if_neg happ] at hq ⊢
        by_cases he : d.epoch ≠ h.epoch
        · rw [if_pos he, if_pos he]
          exact ⟨hi, rfl⟩
        · simp only [if_neg he] at hq ⊢
          exact hi.sequence hc hq

theorem ts_deposit_here (hmoved : t.movedTo = none) : (d.cls.Sequenced → t.deposit d =
      (t.digests.lookup d.digest).elim
        (if !t.mayDeposit d then (t, refuse d "policy.blocked") else t.depositOrdered d)
        fun seq => (t, [.accepted d.device d.id (some seq) true])) ∧
    (d.cls = .ephemeral → t.deposit d =
      if d.expiresAt ≤ t.now then (t, [])
      else if !t.mayDeposit d then (t, refuse d "policy.blocked")
      else (t, (t.roster.sortedKeys.filter (· ≠ d.identity)).map (.forward · .ephemeral))) ∧
    (d.cls = .groupInfo → t.deposit d =
      if !t.mayDeposit d then (t, refuse d "policy.blocked")
      else ({ t with groupInfo := true }, groupInfoOut d t.roster)) ∧
    (d.cls ∉ [.handshake, .application, .ephemeral, .groupInfo] →
      t.deposit d = (t, refuse d "mailbox.unsupported-class")) := by
  unfold Ts.Hub.deposit
  simp only [hmoved, ne_eq, not_true, if_false]
  refine ⟨?_, ?_, ?_, ?_⟩
  · intro hc
    have hmem : d.cls ∈ [.handshake, .application, .ephemeral, .groupInfo] := by
      rcases hc with hc | hc <;> simp [hc]
    have hephemeral : d.cls ≠ .ephemeral := by
      rcases hc with hc | hc <;> simp [hc]
    have hinfo : d.cls ≠ .groupInfo := by
      rcases hc with hc | hc <;> simp [hc]
    simp only [hmem, not_true, if_false, hephemeral, false_and, if_pos hc, hinfo]
    cases t.digests.lookup d.digest <;> rfl
  · intro hc
    simp [hc, DepositClass.Sequenced]
  · intro hc
    simp [hc, DepositClass.Sequenced]
  · intro hc
    rw [if_pos hc]

/-- **A deposit.** -/
theorem InStep.deposit (hi : InStep h t) (hq : h.Queues) (hwf : WellFormed d) (hm : DepositMeets h d) :
    InStep (h.deposit d).1 (t.deposit d).1 ∧ (h.deposit d).2 = (t.deposit d).2 := by
  have hs := hi.same
  have hq' := (deposit_spec d hq).2
  cases hmoved : h.movedTo with
  | some new =>
    unfold Hub.deposit Ts.Hub.deposit
    rw [hs.movedTo, hmoved, if_pos (Option.some_ne_none new)]
    dsimp only
    cases d.handoverSeq with
    | none => cases d.cls <;> exact ⟨hi, rfl⟩
    | some handoverSeq =>
      cases d.cls with
      | groupInfo => exact hi.returned d handoverSeq
      | handshake | application | ephemeral | welcome | other => exact ⟨hi, rfl⟩
  | none =>
    have hhere : h.deposit d = h.depositHere d := by
      unfold Hub.deposit
      rw [hmoved]
    rw [hhere] at hq' ⊢
    obtain ⟨hsequenced, hephemeral, hinfo, hother⟩ := ts_deposit_here (d := d) (hs.movedTo.trans hmoved)
    have hmember : d.cls ≠ .handshake → t.mayDeposit d = decide (d.identity ∈ h.roster) :=
      fun hne => ts_mayDeposit_member hs fun he => absurd he hne
    have hkeys : t.roster.sortedKeys = h.roster.sortedKeys := Dict.sortedKeys_congr hs.mem_roster
    have hfiled : d.cls.Sequenced → h.depositHere d = h.depositSequenced d →
        InStep (h.depositHere d).1 (t.deposit d).1 ∧ (h.depositHere d).2 = (t.deposit d).2 := by
      intro hc he
      rw [he] at hq' ⊢
      rw [hsequenced hc, hs.digests]
      cases hd : h.digests.lookup d.digest with
      | some seq =>
        unfold Hub.depositSequenced
        rw [hd]
        exact ⟨hi, rfl⟩
      | none => exact hi.depositSequenced hq' hc hd hwf fun hh => hm hmoved hh hd
    unfold depositHere at hfiled ⊢
    cases hcls : d.cls with
    | handshake =>
      rw [hcls] at hfiled
      exact hfiled (.inl rfl) rfl
    | application =>
      rw [hcls] at hfiled
      exact hfiled (.inr rfl) rfl
    | ephemeral =>
      rw [hephemeral hcls, hmember (by simp [hcls]), hs.now, hkeys]
      dsimp only
      split
      case isTrue => exact ⟨hi, rfl⟩
      case isFalse =>
        by_cases hin : d.identity ∈ h.roster
        · simp only [hin, not_true, decide_true, Bool.not_true, Bool.false_eq_true, if_false]
          exact ⟨hi, trivial⟩
        · simp only [hin, not_false_eq_true, decide_false, Bool.not_false, if_true]
          exact ⟨hi, trivial⟩
    | groupInfo =>
      rw [hinfo hcls, hmember (by simp [hcls]), groupInfoOut_congr hs.roster]
      dsimp only
      by_cases hin : d.identity ∈ h.roster
      · simp only [hin, not_true, decide_true, Bool.not_true, Bool.false_eq_true, if_false]
        exact ⟨⟨⟨hs.now, hs.kind, hs.owner, hs.retention, hs.epoch, hs.nextSeq, hs.roster, hs.queue,
          hs.filled, hs.classes, hs.digests, hs.unregistered, rfl, hs.movedTo, hs.waiting⟩,
          ⟨hi.behind.below, hi.behind.tail⟩, hi.told⟩, trivial⟩
      · simp only [hin, not_false_eq_true, decide_false, Bool.not_false, if_true]
        exact ⟨hi, trivial⟩
    | welcome =>
      rw [hother (by simp [hcls])]
      exact ⟨hi, rfl⟩
    | other name =>
      rw [hother (by simp [hcls])]
      exact ⟨hi, rfl⟩

/-! ## Runs -/

def Meets (h : Hub) (t : Ts.Hub) : Event → Prop
  | .deposit d => DepositMeets h d
  | .ack i seq cls => AckMeets h t i seq cls
  | .advance _ | .restart => True

/-- An event as the hubs get it. -/
def Legal : Event → Prop
  | .deposit d => WellFormed d
  | .advance _ | .restart | .ack .. => True

theorem InStep.step (hi : InStep h t) (hq : h.Queues) {ev : Event} (hl : Legal ev)
    (hm : Meets h t ev) : InStep (h.step ev).1 (t.step ev).1 ∧ (h.step ev).2 = (t.step ev).2 := by
  cases ev with
  | advance n => exact hi.advance n
  | ack i seq cls => exact hi.ack hq hm
  | restart => exact hi.restart hq
  | deposit d => exact hi.deposit hq hl hm

theorem inStep_init (ctx : Context) : InStep (Hub.init ctx) (Ts.Hub.new ctx) := by
  have hqueue : ∀ k i, (Ts.Hub.new ctx).queue k i = [] := by
    intro k i
    cases k <;> rfl
  have hqueue' : ∀ k i, (Hub.init ctx).queue k i = [] := by
    intro k i
    cases k <;> rfl
  refine ⟨⟨rfl, rfl, rfl, rfl, rfl, rfl, fun _ => rfl, ?_, ?_, rfl, rfl, rfl, rfl, rfl, fun _ => rfl⟩,
    ⟨?_, ?_⟩, ?_⟩
  · intro k i
    rw [hqueue, hqueue']
  · intro i
    rw [hqueue', hqueue']
    exact ⟨iff_of_false (AList.notMem_empty i) fun h => h rfl,
      iff_of_false (AList.notMem_empty i) fun h => h rfl⟩
  · intro k i n hn
    exact absurd hn (Finset.notMem_empty _)
  · intro k i head rest hq
    rw [hqueue] at hq
    cases hq
  · intro k i head rest hq
    rw [hqueue] at hq
    cases hq

/-- Both hubs, fed the same events. -/
def pairStep (s : Hub × Ts.Hub) (ev : Event) : (Hub × Ts.Hub) × (List Emit × List Emit) :=
  (((s.1.step ev).1, (s.2.step ev).1), ((s.1.step ev).2, (s.2.step ev).2))

/-- The machine of the two hubs. -/
def pair : TSys (Hub × Ts.Hub) Event (List Emit × List Emit) :=
  .ofTotal (fun s => ∃ ctx, s = (.init ctx, .new ctx)) pairStep

def LegalPair (_ : TSys.Trace Event (List Emit × List Emit)) (_ : Hub × Ts.Hub) (ev : Event) : Prop :=
  Legal ev

/-- The events on which both agree. -/
def MeetsPair (_ : TSys.Trace Event (List Emit × List Emit)) (s : Hub × Ts.Hub) (ev : Event) : Prop :=
  Legal ev ∧ Meets s.1 s.2 ev

theorem InStep.lookup (hi : InStep h t) (i : String) :
    t.pending.lookup i = (if h.queue .items i = [] then none else some (h.queue .items i)) ∧
      t.welcomes.lookup i =
        if h.queue .welcomes i = [] then none else some (h.queue .welcomes i) := by
  have hkeep : ∀ (queues : Dict String (List Nat)) (q : List Nat), queueOf queues i = q →
      (i ∈ queues ↔ q ≠ []) → queues.lookup i = if q = [] then none else some q := by
    rintro queues q rfl hmem
    split
    case isTrue hnil =>
      rw [AList.lookup_eq_none, hmem]
      exact not_not.mpr hnil
    case isFalse hne =>
      obtain ⟨q, hq⟩ := Dict.mem_iff_lookup.mp (hmem.mpr hne)
      unfold queueOf
      rw [hq]
      rfl
  exact ⟨hkeep _ _ (hi.same.queue .items i) (hi.same.filled i).1,
    hkeep _ _ (hi.same.queue .welcomes i) (hi.same.filled i).2⟩

/-- In every run in which the two hubs are given what they agree on, they write
the same at every step, and have the same epoch, numbers, roster, queues and
flags. -/
theorem hubs_agree {ctx : Context} {tr : TSys.Trace Event (List Emit × List Emit)}
    {s : Hub × Ts.Hub} (h : pair.RunWhere MeetsPair (.init ctx, .new ctx) tr s) :
    (∀ e ∈ tr, e.2.1 = e.2.2) ∧ s.2.epoch = s.1.epoch ∧ s.2.nextSeq = s.1.nextSeq ∧
    (∀ i, s.2.roster.lookup i = s.1.roster.lookup i) ∧
    (∀ i, s.2.pending.lookup i =
      if s.1.queue .items i = [] then none else some (s.1.queue .items i)) ∧
    (∀ i, s.2.welcomes.lookup i =
      if s.1.queue .welcomes i = [] then none else some (s.1.queue .welcomes i)) ∧
    s.2.groupInfo = s.1.groupInfo ∧ s.2.movedTo = s.1.movedTo := by
  have hinv : s.1.Queues ∧ InStep s.1 s.2 ∧ ∀ e ∈ tr, e.2.1 = e.2.2 := by
    refine TSys.RunWhere.invariant
      (P := fun tr s => s.1.Queues ∧ InStep s.1 s.2 ∧ ∀ e ∈ tr, e.2.1 = e.2.2)
      ⟨queues_init ctx, inStep_init ctx, nofun⟩ ?_ h
    rintro tr s ev o s' - ⟨hq, hi, hsame⟩ ⟨hlegal, hmeets⟩ hs
    obtain ⟨rfl, rfl⟩ := Prod.ext_iff.mp (show pairStep s ev = (s', o) from hs)
    obtain ⟨hi', hout⟩ := hi.step hq hlegal hmeets
    refine ⟨(step_spec ev hq).2, hi', ?_⟩
    intro e he
    rcases List.mem_append.mp he with he | he
    · exact hsame e he
    · rw [List.mem_singleton.mp he]
      exact hout
  obtain ⟨-, hi, hsame⟩ := hinv
  exact ⟨hsame, hi.same.epoch, hi.same.nextSeq, hi.same.roster, fun i => (hi.lookup i).1,
    fun i => (hi.lookup i).2, hi.same.groupInfo, hi.same.movedTo⟩

/-! ## Two runs -/

instance (h : Hub) (t : Ts.Hub) (i : String) (seq : Nat) (cls : Option DepositClass) :
    Decidable (AckMeets h t i seq cls) :=
  decidable_of_iff
    ((∀ c ∈ cls, c ≠ .welcome → i ∉ h.unregistered → (h.queue .items i).head? = some seq →
        ∀ next ∈ (h.queue .items i).tail.head?, h.classOf next = c) ∧
      (cls = some .welcome → h.queue .welcomes i = [seq] → i ∈ h.unregistered →
        ∀ head ∈ (h.queue .items i).head?, (.items, i, head) ∉ t.sent)) <| by
    constructor
    · rintro ⟨hn, hf⟩
      constructor
      · intro c hc hne hu next rest hq
        exact hn c hc hne hu (by rw [hq]; rfl) next (by rw [hq]; rfl)
      · intro hc hq hu head rest hitems
        exact hf hc hq hu head (by rw [hitems]; rfl)
    · rintro ⟨hn, hf⟩
      constructor
      · intro c hc hne hu hhead next hnext
        obtain ⟨rest, hq⟩ := List.head?_eq_some_iff.mp hhead
        rw [hq] at hnext
        obtain ⟨rest', hrest⟩ := List.head?_eq_some_iff.mp hnext
        replace hrest : rest = next :: rest' := hrest
        exact hn c hc hne hu next rest' (hq.trans (by rw [hrest]))
      · intro hc hq hu head hhead
        obtain ⟨rest, hitems⟩ := List.head?_eq_some_iff.mp hhead
        exact hf hc hq hu head rest hitems

instance (h : Hub) (d : Deposit) (c : Commit) : Decidable (Taken h d c) := inferInstanceAs (Decidable (_ ∧ _))

instance (h : Hub) (c : Commit) : Decidable (NoneBack h c) := inferInstanceAs (Decidable (_ → ∀ _ ∈ _, _ → _))

instance (h : Hub) (d : Deposit) (c : Commit) : Decidable (NoneEmpty h d c) :=
  inferInstanceAs (Decidable (_ → ∀ _ ∈ _, _ → _ → _))

instance (h : Hub) (d : Deposit) (c : Commit) : Decidable (CommitMeets h d c) :=
  decidable_of_iff
    ((c.external = true → h.mayDeposit d = true → c.valid = false → d.epoch = h.epoch) ∧
      (c.external = true → h.mayDeposit d = true → c.valid = true → h.kind = "personal" →
        h.owner = some d.identity) ∧
      (Taken h d c → NoneEmpty h d c) ∧ (Taken h d c → NoneBack h c)) <| by
    constructor
    · rintro ⟨h₁, h₂, h₃, h₄⟩
      exact ⟨h₁, h₂, h₃, h₄⟩
    · exact fun hm => ⟨hm.order, hm.owner, hm.empty, hm.back⟩

instance (d : Deposit) : Decidable (WellFormed d) :=
  decidable_of_iff ((∀ c ∈ d.commit, d.cls = .handshake) ∧ ∀ c ∈ d.commit, c.movesTo ≠ some "") <| by
    constructor
    · rintro ⟨h₁, h₂⟩
      exact ⟨h₁, h₂⟩
    · exact fun hw => ⟨hw.carried, hw.named⟩

instance (h : Hub) (d : Deposit) : Decidable (DepositMeets h d) :=
  inferInstanceAs (Decidable (_ → _ → _ → ∀ c ∈ d.commit, CommitMeets h d c))

instance : DecidablePred Legal
  | .deposit d => inferInstanceAs (Decidable (WellFormed d))
  | .advance _ | .restart | .ack .. => isTrue trivial

instance (h : Hub) (t : Ts.Hub) : DecidablePred (Meets h t)
  | .deposit d => inferInstanceAs (Decidable (DepositMeets h d))
  | .ack i seq cls => inferInstanceAs (Decidable (AckMeets h t i seq cls))
  | .advance _ | .restart => isTrue trivial

instance (tr : TSys.Trace Event (List Emit × List Emit)) (s : Hub × Ts.Hub) (ev : Event) :
    Decidable (LegalPair tr s ev) :=
  inferInstanceAs (Decidable (Legal ev))

instance (tr : TSys.Trace Event (List Emit × List Emit)) (s : Hub × Ts.Hub) (ev : Event) :
    Decidable (MeetsPair tr s ev) :=
  inferInstanceAs (Decidable (_ ∧ _))

/-- Bob is added, an item waits behind his welcome, and he acknowledges it. -/
theorem hubs_agree_added : ∃ tr s, pair.RunWhere MeetsPair
        (.init { roster := Dict.ofList [("alice", {"a1"})] },
          .new { roster := Dict.ofList [("alice", {"a1"})] }) tr s ∧
      (tr.map fun e => e.2.1) = [[.accepted "a1" "m1" (some 1) false, .fanout "alice" (some 1) .handshake,
            .fanout "bob" (some 1) .welcome],
          [.accepted "a1" "m2" (some 2) false],
          [.fanout "bob" (some 2) .application]] ∧
      ∀ e ∈ tr, e.2.1 = e.2.2 := by
  have h := TSys.exec_runWhere pairStep MeetsPair (fun s => ∃ ctx, s = (.init ctx, .new ctx))
    (.init { roster := Dict.ofList [("alice", {"a1"})] }, .new { roster := Dict.ofList [("alice", {"a1"})] })
    [.deposit { cls := .handshake, identity := "alice", device := "a1", id := "m1", digest := "c",
                commit := some { adds := [⟨"bob", "b1"⟩] } },
     .deposit { cls := .application, identity := "alice", device := "a1", id := "m2",
                digest := "x", epoch := 1 },
     .ack "bob" 1 (some .welcome)]
    (by decide)
  exact ⟨_, _, h, by decide, (hubs_agree h).1⟩

/-- An external commit of the past epoch that is not valid: the hubs refuse it
for different reasons. -/
theorem commit_order_differs : ∃ tr s, pair.RunWhere LegalPair
        (.init { epoch := 1, roster := Dict.ofList [("bob", {"b1"})] },
          .new { epoch := 1, roster := Dict.ofList [("bob", {"b1"})] }) tr s ∧
      ∃ e ∈ tr, e.2.1 = [.error "b2" "m1" "mailbox.commit-conflict"] ∧
        e.2.2 = [.error "b2" "m1" "policy.blocked"] := by
  have h := TSys.exec_runWhere pairStep LegalPair (fun s => ∃ ctx, s = (.init ctx, .new ctx))
    (.init { epoch := 1, roster := Dict.ofList [("bob", {"b1"})] },
      .new { epoch := 1, roster := Dict.ofList [("bob", {"b1"})] })
    [.deposit { cls := .handshake, identity := "bob", device := "b2", id := "m1", digest := "c",
                commit := some { external := true, valid := false, adds := [⟨"bob", "b2"⟩] } }]
    (by decide)
  exact ⟨_, _, h, by decide⟩

end Dsip.Messaging.Hub
