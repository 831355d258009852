import Mathlib.Data.List.Sort
import Dsip.Messaging.HistoryGate

/-!
# A history in whatever order it arrives

The Python timeline has the order of `(group, seq)`. The TypeScript timeline has
the order of `seq` alone, first shown first, and takes an id once for content
and state together: it does not depend on the order of arrival exactly on the
inputs of `OneOrder`.
-/

namespace Dsip.Messaging

open Dsip.Lib

/-- In `(group, seq)` order. -/
def Obj.Before (x y : Obj) : Prop := x.group < y.group ∨ (x.group = y.group ∧ x.seq < y.seq)

theorem Obj.Before.asymm {x y : Obj} (h : x.Before y) : ¬ y.Before x := by
  rintro (hg | ⟨hg, hs⟩)
  · rcases h with hg' | ⟨hg', -⟩
    · exact lt_asymm hg hg'
    · exact absurd hg' hg.ne'
  · rcases h with hg' | ⟨-, hs'⟩
    · exact absurd hg hg'.ne'
    · omega

/-- The objects of the events, readable or not. -/
def History.Event.obj : History.Event → Option Obj
  | .archive r => some r.obj
  | .mls o _ => some o
  | .sent o => some o
  | _ => none

/-- One id carries one group and seq, and no two ids that are shown carry the
same. -/
structure Placed (shows : ObjectKind → Bool) (os : List Obj) : Prop where
  one : ∀ x ∈ os, ∀ y ∈ os, x.id = y.id → x.group = y.group ∧ x.seq = y.seq
  apart : ∀ x ∈ os, ∀ y ∈ os, shows x.kind → shows y.kind → x.group = y.group → x.seq = y.seq → x.id = y.id

/-- The ids of what is shown of the objects seen, in `(group, seq)` order, none
twice. -/
structure InOrder (shows : ObjectKind → Bool) (seen : Obj → Prop) (l : List String) : Prop where
  nodup : l.Nodup
  ids : ∀ id, id ∈ l ↔ ∃ o, seen o ∧ shows o.kind ∧ o.id = id
  order : l.Pairwise fun a b => ∀ x y, seen x → seen y → shows x.kind → shows y.kind → x.id = a →
    y.id = b → x.Before y

section Order

variable {shows : ObjectKind → Bool} {seen : Obj → Prop} {os os' : List Obj} {l l' : List String}

theorem InOrder.unique (h : InOrder shows seen l) (h' : InOrder shows seen l') : l = l' := by
  refine List.Perm.eq_of_pairwise ?_ h.order h'.order ?_
  · intro a b ha hb hab hba
    obtain ⟨x, hx, hsx, rfl⟩ := (h.ids a).mp ha
    obtain ⟨y, hy, hsy, rfl⟩ := (h'.ids b).mp hb
    exact absurd (hba y x hy hx hsy hsx rfl rfl) (hab x y hx hy hsx hsy rfl rfl).asymm
  · rw [List.perm_ext_iff_of_nodup h.nodup h'.nodup]
    intro id
    rw [h.ids, h'.ids]

theorem Placed.mono (h : Placed shows os) (hmem : ∀ o ∈ os', o ∈ os) : Placed shows os' :=
  ⟨fun x hx y hy => h.one x (hmem x hx) y (hmem y hy), fun x hx y hy => h.apart x (hmem x hx) y (hmem y hy)⟩

end Order

/-! ## The Python timeline -/

namespace History

/-- What the Python history shows: all but receipts and call events. -/
def isShown (kind : ObjectKind) : Bool := !isState kind

/-- The entries shown of some objects. -/
structure Shown (os : List Obj) (shown : List Entry) : Prop where
  nodup : (shown.map (·.id)).Nodup
  origin : ∀ e ∈ shown, ∃ o ∈ os, isShown o.kind ∧ o.entry = e
  all : ∀ o ∈ os, isShown o.kind → o.id ∈ shown.map (·.id)

theorem shown_spec (os : List Obj) : Shown os (os.foldl takeShown []) := by
  induction os using List.reverseRecOn with
  | nil => exact ⟨List.nodup_nil, fun _ h => absurd h List.not_mem_nil,
      fun _ h => absurd h List.not_mem_nil⟩
  | append_singleton os o ih =>
    rw [List.foldl_append]
    generalize os.foldl takeShown [] = shown at ih
    have hfrom : ∀ e ∈ shown, ∃ o' ∈ os ++ [o], isShown o'.kind ∧ o'.entry = e := by
      intro e he
      obtain ⟨o', ho', h⟩ := ih.origin e he
      exact ⟨o', List.mem_append_left _ ho', h⟩
    show Shown _ (takeShown shown o)
    unfold takeShown
    cases hs : isState o.kind with
    | true =>
      refine ⟨ih.nodup, hfrom, fun o' ho' hshows => ?_⟩
      rcases List.mem_append.mp ho' with ho' | ho'
      · exact ih.all o' ho' hshows
      · rw [List.mem_singleton.mp ho'] at hshows
        simp [isShown, hs] at hshows
    | false =>
      rw [if_neg Bool.false_ne_true]
      split
      case isTrue hmem =>
        refine ⟨ih.nodup, hfrom, fun o' ho' hshows => ?_⟩
        rcases List.mem_append.mp ho' with ho' | ho'
        · exact ih.all o' ho' hshows
        · rw [List.mem_singleton.mp ho']
          exact hmem
      case isFalse hno =>
        refine ⟨?_, fun e he => ?_, fun o' ho' hshows => ?_⟩
        · rw [List.map_append, List.nodup_append]
          refine ⟨ih.nodup, List.nodup_singleton _, ?_⟩
          intro a ha b hb
          rw [List.mem_singleton.mp hb]
          intro he
          have he : a = o.id := he
          exact hno (he ▸ ha)
        · rcases List.mem_append.mp he with he | he
          · exact hfrom e he
          · exact ⟨o, List.mem_append_right _ List.mem_cons_self, by simp [isShown, hs],
              (List.mem_singleton.mp he).symm⟩
        · rw [List.map_append]
          rcases List.mem_append.mp ho' with ho' | ho'
          · exact List.mem_append_left _ (ih.all o' ho' hshows)
          · rw [List.mem_singleton.mp ho']
            exact List.mem_append_right _ List.mem_cons_self

instance : Std.Total Entry.le := ⟨fun a b => by
  rcases lt_trichotomy a.group b.group with h | h | h
  · exact .inl (.inl h)
  · rcases le_total a.seq b.seq with hs | hs
    · exact .inl (.inr ⟨h, hs⟩)
    · exact .inr (.inr ⟨h.symm, hs⟩)
  · exact .inr (.inl h)⟩

instance : IsTrans Entry Entry.le := ⟨fun a b c hab hbc => by
  rcases hab with h | ⟨h, hs⟩ <;> rcases hbc with h' | ⟨h', hs'⟩
  · exact .inl (h.trans h')
  · exact .inl (h' ▸ h)
  · exact .inl (h ▸ h')
  · exact .inr ⟨h.trans h', hs.trans hs'⟩⟩

theorem timeline_inOrder {os : List Obj} (hplaced : Placed isShown os) {shown : List Entry}
    (h : Shown os shown) : InOrder isShown (· ∈ os) ((shown.insertionSort Entry.le).map (·.id)) := by
  have hperm := (List.perm_insertionSort Entry.le shown).map (·.id)
  have hnodup : ((shown.insertionSort Entry.le).map (·.id)).Nodup := hperm.nodup_iff.mpr h.nodup
  refine ⟨hnodup, fun id => ?_, ?_⟩
  · rw [hperm.mem_iff]
    constructor
    · intro hid
      obtain ⟨e, he, rfl⟩ := List.mem_map.mp hid
      obtain ⟨o, ho, hshows, rfl⟩ := h.origin e he
      exact ⟨o, ho, hshows, rfl⟩
    · rintro ⟨o, ho, hshows, rfl⟩
      exact h.all o ho hshows
  · rw [List.pairwise_map]
    have hsorted := (List.pairwise_insertionSort Entry.le shown).and
      (List.pairwise_map.mp hnodup)
    refine hsorted.imp_of_mem ?_
    rintro a b ha hb ⟨hle, hne⟩ x y hx hy hsx hsy hxa hyb
    obtain ⟨o, ho, hso, rfl⟩ := h.origin a ((List.mem_insertionSort _).mp ha)
    obtain ⟨o', ho', hso', rfl⟩ := h.origin b ((List.mem_insertionSort _).mp hb)
    obtain ⟨hg, hs⟩ := hplaced.one x hx o ho hxa
    obtain ⟨hg', hs'⟩ := hplaced.one y hy o' ho' hyb
    unfold Obj.Before
    rw [hg, hs, hg', hs']
    rcases hle with hlt | ⟨heq, hle⟩
    · exact .inl hlt
    · refine .inr ⟨heq, lt_of_le_of_ne hle fun hseq => hne ?_⟩
      exact hplaced.apart o ho o' ho' hso hso' heq hseq

end History

/-! ## The TypeScript timeline -/

namespace Ts.History

open Messaging.History (Event Context Seen opened)

/-- The ids and the timeline of some objects. -/
def shelfOf (os : List Obj) : Finset String × List Entry := os.foldl take (∅, [])

theorem shelfOf_snoc (os : List Obj) (o : Obj) : shelfOf (os ++ [o]) = take (shelfOf os) o := by
  simp [shelfOf, List.foldl_append]

instance : Std.Total fun a b : Entry => a.seq ≤ b.seq := ⟨fun a b => le_total a.seq b.seq⟩

instance : IsTrans Entry fun a b => a.seq ≤ b.seq := ⟨fun _ _ _ h h' => h.trans h'⟩

theorem mem_known (os : List Obj) (id : String) : id ∈ (shelfOf os).1 ↔ ∃ o ∈ os, o.id = id := by
  induction os using List.reverseRecOn with
  | nil => simp [shelfOf]
  | append_singleton os o ih =>
    have hstep : id ∈ (take (shelfOf os) o).1 ↔ id = o.id ∨ id ∈ (shelfOf os).1 := by
      unfold take
      split
      case isTrue hk =>
        constructor
        · exact .inr
        · rintro (rfl | h)
          · exact hk
          · exact h
      case isFalse => cases isTimeline o.kind <;> simp
    rw [shelfOf_snoc, hstep, ih]
    simp only [List.mem_append, List.mem_singleton, or_and_right, exists_or, exists_eq_left]
    rw [or_comm, eq_comm]

/-- The entries of some objects, in seq order. -/
structure Timeline (os : List Obj) (entries : List Entry) : Prop where
  sorted : entries.Pairwise fun a b => a.seq ≤ b.seq
  nodup : (entries.map (·.id)).Nodup
  origin : ∀ e ∈ entries, ∃ o ∈ os, isTimeline o.kind ∧ entry o = e

theorem timeline_spec (os : List Obj) : Timeline os (shelfOf os).2 := by
  induction os using List.reverseRecOn with
  | nil => exact ⟨.nil, List.nodup_nil, fun _ h => absurd h List.not_mem_nil⟩
  | append_singleton os o ih =>
    rw [shelfOf_snoc]
    have horigin : ∀ e ∈ (shelfOf os).2, ∃ o' ∈ os ++ [o], isTimeline o'.kind ∧ entry o' = e := by
      intro e he
      obtain ⟨o', ho', h⟩ := ih.origin e he
      exact ⟨o', List.mem_append_left _ ho', h⟩
    unfold take
    split
    case isTrue => exact ⟨ih.sorted, ih.nodup, horigin⟩
    case isFalse hno =>
      cases hk : isTimeline o.kind with
      | false => exact ⟨ih.sorted, ih.nodup, horigin⟩
      | true =>
        simp only [if_true]
        have hperm := List.perm_insertionSort (fun a b : Entry => a.seq ≤ b.seq)
          ((shelfOf os).2 ++ [entry o])
        refine ⟨List.pairwise_insertionSort _ _, ?_, fun e he => ?_⟩
        · rw [(hperm.map _).nodup_iff, List.map_append, List.nodup_append]
          refine ⟨ih.nodup, List.nodup_singleton _, ?_⟩
          intro a ha b hb he
          obtain ⟨e, hmem, rfl⟩ := List.mem_map.mp ha
          obtain ⟨o', ho', -, rfl⟩ := ih.origin e hmem
          have hid : o'.id = o.id := he.trans (List.mem_singleton.mp hb)
          exact hno ((mem_known os o.id).mpr ⟨o', ho', hid⟩)
        · rw [List.mem_insertionSort] at he
          rcases List.mem_append.mp he with he | he
          · exact horigin e he
          · exact ⟨o, List.mem_append_right _ List.mem_cons_self, hk, (List.mem_singleton.mp he).symm⟩

theorem sublist_take (os : List Obj) (o : Obj) : (shelfOf os).2.Sublist (take (shelfOf os) o).2 := by
  unfold take
  split
  case isTrue => exact List.Sublist.refl _
  case isFalse =>
    cases isTimeline o.kind with
    | false => exact List.Sublist.refl _
    | true =>
      exact List.sublist_insertionSort (timeline_spec os).sorted (List.sublist_append_left _ _)

theorem timeline_all {os : List Obj}
    (hkinds : ∀ x ∈ os, ∀ y ∈ os, isTimeline x.kind → ¬ isTimeline y.kind → x.id ≠ y.id) :
    ∀ o ∈ os, isTimeline o.kind → o.id ∈ (shelfOf os).2.map (·.id) := by
  induction os using List.reverseRecOn with
  | nil => exact fun _ h => absurd h List.not_mem_nil
  | append_singleton os o ih =>
    have hold := ih fun x hx y hy => hkinds x (List.mem_append_left _ hx) y
      (List.mem_append_left _ hy)
    rw [shelfOf_snoc]
    have hsub := (sublist_take os o).map (·.id)
    intro o' ho' hshows
    rcases List.mem_append.mp ho' with ho' | ho'
    · exact hsub.subset (hold o' ho' hshows)
    · rw [List.mem_singleton.mp ho'] at hshows ⊢
      by_cases hknown : o.id ∈ (shelfOf os).1
      · -- the id came before, so as content
        obtain ⟨x, hx, hid⟩ := (mem_known os o.id).mp hknown
        refine hsub.subset (hid ▸ hold x hx ?_)
        by_contra hstate
        exact hkinds o (List.mem_append_right _ List.mem_cons_self) x
          (List.mem_append_left _ hx) hshows hstate hid.symm
      · unfold take
        simp only [if_neg hknown, hshows, if_true]
        refine List.mem_map.mpr ⟨entry o, ?_, rfl⟩
        rw [List.mem_insertionSort]
        exact List.mem_append_right _ List.mem_cons_self

theorem not_shown_of_state {y : Obj} (hy : ¬ isTimeline y.kind) (rest : List Obj) :
    y.id ∉ (shelfOf (y :: rest)).2.map (·.id) := by
  induction rest using List.reverseRecOn with
  | nil => simp [shelfOf, take, hy]
  | append_singleton rest o ih =>
    rw [← List.cons_append, shelfOf_snoc]
    have hknown : y.id ∈ (shelfOf (y :: rest)).1 := (mem_known _ _).mpr ⟨y, List.mem_cons_self, rfl⟩
    unfold take
    split
    case isTrue => exact ih
    case isFalse hno =>
      cases isTimeline o.kind with
      | false => exact ih
      | true =>
        simp only [if_true]
        intro hmem
        obtain ⟨e, he, hid⟩ := List.mem_map.mp hmem
        rw [List.mem_insertionSort] at he
        rcases List.mem_append.mp he with he | he
        · exact ih (hid ▸ List.mem_map_of_mem he)
        · rw [List.mem_singleton.mp he] at hid
          have hid : o.id = y.id := hid
          exact hno (hid ▸ hknown)

theorem first_stays {y x : Obj} (hy : isTimeline y.kind) (rest : List Obj)
    (hx : entry x ∈ (shelfOf (y :: rest)).2) (hne : x.id ≠ y.id) (hle : y.seq ≤ x.seq) :
    [entry y, entry x].Sublist (shelfOf (y :: rest)).2 := by
  induction rest using List.reverseRecOn with
  | nil =>
    have hone : (shelfOf [y]).2 = [entry y] := by simp [shelfOf, take, hy]
    rw [hone, List.mem_singleton] at hx
    exact absurd (congrArg Entry.id hx) hne
  | append_singleton rest o ih =>
    rw [← List.cons_append, shelfOf_snoc] at hx ⊢
    by_cases hold : entry x ∈ (shelfOf (y :: rest)).2
    · exact (ih hold).trans (sublist_take _ o)
    · have hfirst : entry y ∈ (shelfOf (y :: rest)).2 := by
        have hsub : (shelfOf [y]).2.Sublist (shelfOf (y :: rest)).2 := by
          clear ih hx hold
          induction rest using List.reverseRecOn with
          | nil => exact List.Sublist.refl _
          | append_singleton rest o ih =>
            rw [← List.cons_append, shelfOf_snoc]
            exact ih.trans (sublist_take _ o)
        refine hsub.subset ?_
        simp [shelfOf, take, hy]
      unfold take at hx ⊢
      split at hx
      case isTrue => exact absurd hx hold
      case isFalse hno =>
        cases hk : isTimeline o.kind with
        | false =>
          simp only [hk, Bool.false_eq_true, if_false] at hx
          exact absurd hx hold
        | true =>
          simp only [hk, if_true, List.mem_insertionSort, List.mem_append, hold, false_or,
            List.mem_singleton] at hx
          simp only [if_neg hno, if_true]
          refine List.pair_sublist_insertionSort hle ?_
          rw [hx]
          exact (List.singleton_sublist.mpr hfirst).append (List.Sublist.refl _)

/-- Content of a lower group has a lower seq, and no id is content and state. -/
structure OneOrder (seen : Obj → Prop) : Prop where
  groups : ∀ x y, seen x → seen y → isTimeline x.kind → isTimeline y.kind → x.group < y.group → x.seq < y.seq
  kinds : ∀ x y, seen x → seen y → isTimeline x.kind → ¬ isTimeline y.kind → x.id ≠ y.id

theorem timeline_inOrder {os : List Obj} (hplaced : Placed isTimeline os)
    (hone : OneOrder (· ∈ os)) : InOrder isTimeline (· ∈ os) ((shelfOf os).2.map (·.id)) := by
  have h := timeline_spec os
  refine ⟨h.nodup, fun id => ?_, ?_⟩
  · constructor
    · intro hid
      obtain ⟨e, he, rfl⟩ := List.mem_map.mp hid
      obtain ⟨o, ho, hk, rfl⟩ := h.origin e he
      exact ⟨o, ho, hk, rfl⟩
    · rintro ⟨o, ho, hk, rfl⟩
      exact timeline_all (fun x hx y hy => hone.kinds x y hx hy) o ho hk
  · rw [List.pairwise_map]
    have hsorted := h.sorted.and (List.pairwise_map.mp h.nodup)
    refine hsorted.imp_of_mem ?_
    rintro a b ha hb ⟨hle, hne⟩ x y hx hy hsx hsy hxa hyb
    obtain ⟨o, ho, hso, rfl⟩ := h.origin a ha
    obtain ⟨o', ho', hso', rfl⟩ := h.origin b hb
    obtain ⟨hg, hs⟩ := hplaced.one x hx o ho hxa
    obtain ⟨hg', hs'⟩ := hplaced.one y hy o' ho' hyb
    have hle : o.seq ≤ o'.seq := hle
    unfold Obj.Before
    rw [hg, hs, hg', hs']
    rcases lt_trichotomy o.group o'.group with hlt | heq | hgt
    · exact .inl hlt
    · refine .inr ⟨heq, lt_of_le_of_ne hle fun hseq => hne ?_⟩
      exact hplaced.apart o ho o' ho' hso hso' heq hseq
    · have := hone.groups o' o ho' ho hso' hso hgt
      omega

theorem oneOrder_of_first {seen : Obj → Prop} {os : List Obj} (hplaced : Placed isTimeline os)
    (hseen : ∀ o, seen o ↔ o ∈ os) (hfirst : ∀ y, seen y → ∃ rest, (∀ o, o ∈ y :: rest ↔ seen o) ∧
      InOrder isTimeline seen ((shelfOf (y :: rest)).2.map (·.id))) : OneOrder seen := by
  refine ⟨fun x y hx hy hsx hsy hlt => ?_, fun x y hx hy hsx hsy hid => ?_⟩
  · by_contra hle
    rw [not_lt] at hle
    obtain ⟨rest, hmem, horder⟩ := hfirst y hy
    have hne : x.id ≠ y.id := by
      intro hid
      have hgroup := (hplaced.one x ((hseen x).mp hx) y ((hseen y).mp hy) hid).1
      exact absurd hgroup hlt.ne
    have hshown : entry x ∈ (shelfOf (y :: rest)).2 := by
      obtain ⟨e, he, hid⟩ := List.mem_map.mp ((horder.ids x.id).mpr ⟨x, hx, hsx, rfl⟩)
      obtain ⟨o, ho, hso, rfl⟩ := (timeline_spec _).origin e he
      have hseq := (hplaced.one o ((hseen o).mp ((hmem o).mp ho)) x ((hseen x).mp hx) hid).2
      have hentry : entry o = entry x := by
        unfold entry
        rw [hseq, show o.id = x.id from hid]
      exact hentry ▸ he
    -- the object opened first stands before one of a lower group
    have hpair := (first_stays hsy rest hshown hne hle).map (·.id)
    have hbefore := List.pairwise_pair.mp (horder.order.sublist hpair)
    exact (hbefore y x hy hx hsy hsx rfl rfl).asymm (.inl hlt)
  · obtain ⟨rest, -, horder⟩ := hfirst y hy
    exact not_shown_of_state hsy rest (hid ▸ (horder.ids x.id).mpr ⟨x, hx, hsx, rfl⟩)

end Ts.History

/-! ## Any order of arrival -/

namespace History

/-- The objects of some events, readable or not. -/
def objects (es : List Event) : List Obj := es.filterMap Event.obj

section Arrival

variable {ctx : Context} {es es' : List Event}

theorem Seen.mem_objects {o : Obj} (h : Seen ctx es o) : o ∈ objects es := by
  rw [objects, List.mem_filterMap]
  cases h with
  | archive hr _ => exact ⟨_, hr, rfl⟩
  | mls ho _ => exact ⟨_, ho, rfl⟩
  | sent ho => exact ⟨_, ho, rfl⟩

theorem seen_perm (hp : es'.Perm es) (hj : ∀ e ∈ es, e.isJoined = false) : Seen ctx es' = Seen ctx es := by
  funext o
  have hj' : ∀ e ∈ es', e.isJoined = false := fun e he => hj e (hp.mem_iff.mp he)
  rw [← mem_opened hj', ← mem_opened hj, (opened_perm hp hj).mem_iff]

theorem Gate.run_append (g : Gate) (es es' : List Event) :
    g.run (es ++ es') = (((g.run es).1.run es').1, (g.run es).2 ++ ((g.run es).1.run es').2) := by
  induction es generalizing g with
  | nil => rfl
  | cons e es ih =>
    rw [List.cons_append, Gate.run_cons, ih, Gate.run_cons]
    simp only [List.append_assoc]

def Event.isKey : Event → Bool
  | .archiveKey .. => true
  | _ => false

theorem Gate.run_keys (ks : List Event) {g : Gate} (hk : ∀ e ∈ ks, Event.isKey e) (hheld : g.held = []) :
    (g.run ks).2 = [] ∧ (g.run ks).1.held = [] ∧ (g.run ks).1.joined = g.joined := by
  induction ks generalizing g with
  | nil => exact ⟨rfl, hheld, rfl⟩
  | cons e ks ih =>
    cases e with
    | archiveKey akid createdAt =>
      have hheld' : (g.step (.archiveKey akid createdAt)).1.held = [] := by
        simp [Gate.step, hheld]
      obtain ⟨h₁, h₂, h₃⟩ := ih (fun e he => hk e (List.mem_cons_of_mem _ he)) hheld'
      rw [Gate.run_cons]
      refine ⟨?_, h₂, h₃⟩
      rw [h₁]
      simp [Gate.step, released, hheld]
    | joined | archive | mls | sent =>
      exact absurd (hk _ List.mem_cons_self) Bool.false_ne_true

theorem Seen.first {y : Obj} (hy : Seen ctx es y) :
    ∃ es', es'.Perm es ∧ ∃ rest, opened ctx es' = y :: rest := by
  have hkeys : ∀ e ∈ es.filter Event.isKey, Event.isKey e := fun e he => (List.mem_filter.mp he).2
  obtain ⟨hnone, hheld, hjoined⟩ := Gate.run_keys _ hkeys (g := Gate.start ctx) rfl
  have hknown : ∀ akid, KeyKnown ctx es akid →
      akid ∈ ((Gate.start ctx).run (es.filter Event.isKey)).1.keys := by
    intro akid h
    rw [mem_start_keys]
    rcases h with h | ⟨c, h⟩
    · exact .inl h
    · exact .inr ⟨c, List.mem_filter.mpr ⟨h, rfl⟩⟩
  have hfirst : ∃ e ∈ es, Event.isKey e = false ∧
      ∀ g : Gate, g.joined = ctx.joined → (∀ akid, KeyKnown ctx es akid → akid ∈ g.keys) →
        (g.step e).2 = [y] := by
    cases hy with
    | archive hr hk => exact ⟨_, hr, rfl, fun g _ hg => by simp [Gate.step, hg _ hk]⟩
    | mls ho hpre => exact ⟨_, ho, rfl, fun g hg _ => by simp [Gate.step, hg, hpre]⟩
    | sent ho => exact ⟨_, ho, rfl, fun g _ _ => rfl⟩
  obtain ⟨e, he, hno, hopen⟩ := hfirst
  have hmem : e ∈ es.filter fun e => !Event.isKey e := List.mem_filter.mpr ⟨he, by simp [hno]⟩
  refine ⟨es.filter Event.isKey ++ e :: (es.filter fun e => !Event.isKey e).erase e, ?_, ?_⟩
  · exact ((List.perm_cons_erase hmem).symm.append_left _).trans (List.filter_append_perm _ _)
  · unfold opened
    rw [Gate.run_append, Gate.run_cons, hnone, hopen _ hjoined hknown]
    exact ⟨_, rfl⟩

end Arrival

/-- What the claim of a history is: the same timeline whatever the order of
arrival, in `(group, seq)` order, nothing held under a key that is there, and
nothing on the timeline before it can be read. -/
structure Independent (shows : ObjectKind → Bool) (timeline : List Event → List String)
    (held : List Event → List Record) (ctx : Context) (es : List Event) : Prop where
  same : ∀ es', es'.Perm es → timeline es' = timeline es
  order : ∀ es', es'.Perm es → InOrder shows (Seen ctx es) (timeline es')
  held : ∀ es', es'.Perm es → ∀ r ∈ held es', ¬ KeyKnown ctx es r.akid
  early : ∀ es', es'.Perm es → ∀ es₀, es₀ <+: es' → ∀ id ∈ timeline es₀,
    ∃ o, Seen ctx es₀ o ∧ shows o.kind ∧ o.id = id

/-- The timeline after some events. -/
def timelineOf (ctx : Context) (es : List Event) : List String := (run ctx es).timeline

/-- The records held after some events. -/
def heldOf (ctx : Context) (es : List Event) : List Record := (run ctx es).held

section Independence

variable {ctx : Context} {es es' : List Event}

theorem joined_of_initial (hj : ∀ e ∈ es, e.isJoined = false) (hp : es'.Perm es) {es₀ : List Event}
    (hpre : es₀ <+: es') : ∀ e ∈ es₀, e.isJoined = false :=
  fun e he => hj e (hp.mem_iff.mp (hpre.subset he))

theorem not_known_of_held (hp : es'.Perm es) {r : Record}
    (hr : r ∈ ((Gate.start ctx).run es').1.held) : ¬ KeyKnown ctx es r.akid := by
  intro hk
  refine (Gate.start_shut ctx).run es' r hr ((mem_start_keys ctx es' r.akid).mpr ?_)
  simpa only [KeyKnown, hp.mem_iff] using hk

theorem independent (hj : ∀ e ∈ es, e.isJoined = false) (hplaced : Placed isShown (objects es)) :
    Independent isShown (timelineOf ctx) (heldOf ctx) ctx es := by
  have horder : ∀ es', es'.Perm es → InOrder isShown (Seen ctx es) (timelineOf ctx es') := by
    intro es' hp
    have hmem : (fun o => o ∈ opened ctx es') = Seen ctx es := by
      rw [← seen_perm hp hj]
      funext o
      exact propext (mem_opened (fun e he => hj e (hp.mem_iff.mp he)) o)
    have hplaced' : Placed isShown (opened ctx es') :=
      hplaced.mono fun o ho => Seen.mem_objects ((congrFun hmem o).mp ho)
    have h := timeline_inOrder hplaced' (shown_spec _)
    rw [hmem, ← shown_eq] at h
    exact h
  refine ⟨fun es' hp => (horder es' hp).unique (horder es (List.Perm.refl _)), horder, ?_, ?_⟩
  · intro es' hp r hr
    rw [heldOf, held_eq] at hr
    exact not_known_of_held hp hr
  · intro es' hp es₀ hpre id hid
    unfold timelineOf timeline at hid
    rw [shown_eq] at hid
    obtain ⟨e, he, rfl⟩ := List.mem_map.mp hid
    obtain ⟨o, ho, hs, rfl⟩ := (shown_spec _).origin e ((List.mem_insertionSort _).mp he)
    exact ⟨o, (mem_opened (joined_of_initial hj hp hpre) o).mp ho, hs, rfl⟩

end Independence

end History

namespace Ts.History

open Messaging.History (Event Context Seen opened objects Independent mem_opened seen_perm
  opened_perm joined_of_initial not_known_of_held)

/-- The timeline after some events. -/
def timelineOf (ctx : Context) (es : List Event) : List String := (run ctx es).timeline.map (·.id)

/-- The records held after some events. -/
def heldOf (ctx : Context) (es : List Event) : List Record := (run ctx es).held

section Independence

variable {ctx : Context} {es : List Event}

theorem timelineOf_eq (ctx : Context) (es : List Event) :
    timelineOf ctx es = (shelfOf (opened ctx es)).2.map (·.id) := by
  have hshelf : (run ctx es).timeline = (run ctx es).shelf.2 := rfl
  rw [timelineOf, hshelf, shelf_eq]
  rfl

theorem independent_iff (hj : ∀ e ∈ es, e.isJoined = false) (hplaced : Placed isTimeline (objects es)) :
    Independent isTimeline (timelineOf ctx) (heldOf ctx) ctx es ↔ OneOrder (Seen ctx es) := by
  have hmem : ∀ es', es'.Perm es → (fun o => o ∈ opened ctx es') = Seen ctx es := by
    intro es' hp
    rw [← seen_perm hp hj]
    funext o
    exact propext (mem_opened (fun e he => hj e (hp.mem_iff.mp he)) o)
  have hplaced' : ∀ es', es'.Perm es → Placed isTimeline (opened ctx es') :=
    fun es' hp => hplaced.mono fun o ho => Seen.mem_objects ((congrFun (hmem es' hp) o).mp ho)
  constructor
  · intro h
    refine oneOrder_of_first (hplaced' es (List.Perm.refl _))
      (fun o => by rw [← hmem es (List.Perm.refl _)]) fun y hy => ?_
    obtain ⟨es', hp, rest, hopened⟩ := hy.first
    refine ⟨rest, fun o => by rw [← hmem es' hp, hopened], ?_⟩
    rw [← hopened, ← timelineOf_eq]
    exact h.order es' hp
  · intro hone
    have horder : ∀ es', es'.Perm es → InOrder isTimeline (Seen ctx es) (timelineOf ctx es') := by
      intro es' hp
      have h := timeline_inOrder (hplaced' es' hp) (by rw [hmem es' hp]; exact hone)
      rw [hmem es' hp, ← timelineOf_eq] at h
      exact h
    refine ⟨fun es' hp => (horder es' hp).unique (horder es (List.Perm.refl _)), horder, ?_, ?_⟩
    · intro es' hp r hr
      rw [heldOf, held_eq] at hr
      exact not_known_of_held hp hr
    · intro es' hp es₀ hpre id hid
      rw [timelineOf_eq] at hid
      obtain ⟨e, he, rfl⟩ := List.mem_map.mp hid
      obtain ⟨o, ho, hs, rfl⟩ := (timeline_spec _).origin e he
      exact ⟨o, (mem_opened (joined_of_initial hj hp hpre) o).mp ho, hs, rfl⟩

end Independence

end Ts.History

open History (Event Context Seen objects Independent isShown)
open Ts.History (isTimeline OneOrder)

/-- **When a history does not depend on the order of arrival**: always for the
Python history, and for the TypeScript history when its content comes in one
order by group and by seq and no id is content and state. -/
theorem history_independent_iff {ctx : Context} {es : List Event}
    (hj : ∀ e ∈ es, e.isJoined = false) : (Placed isShown (objects es) →
      Independent isShown (History.timelineOf ctx) (History.heldOf ctx) ctx es) ∧
    (Placed isTimeline (objects es) →
      (Independent isTimeline (Ts.History.timelineOf ctx) (Ts.History.heldOf ctx) ctx es ↔
        OneOrder (Seen ctx es))) :=
  ⟨History.independent hj, Ts.History.independent_iff hj⟩

/-! ## Two groups -/

/-- The first message of a group. -/
def firstOf (group id : String) : Event := .sent { id, group, seq := 1 }

theorem firsts_placed : Placed isShown (objects [firstOf "a" "x", firstOf "b" "y"]) ∧
    Placed isTimeline (objects [firstOf "a" "x", firstOf "b" "y"]) := by
  constructor <;> constructor <;> simp [objects, firstOf, Event.obj]

/-- The first messages of two groups: the Python timeline is the same in either
order. -/
theorem history_independent_firsts : History.timelineOf {} [firstOf "b" "y", firstOf "a" "x"] =
      History.timelineOf {} [firstOf "a" "x", firstOf "b" "y"] :=
  ((history_independent_iff (by simp [firstOf, Event.isJoined])).1 firsts_placed.1).same _
    (List.Perm.swap _ _ _)

/-- The TypeScript timeline is not. -/
theorem history_order_matters : Placed isTimeline (objects [firstOf "a" "x", firstOf "b" "y"]) ∧
      [firstOf "b" "y", firstOf "a" "x"].Perm [firstOf "a" "x", firstOf "b" "y"] ∧
      Ts.History.timelineOf {} [firstOf "a" "x", firstOf "b" "y"] = ["x", "y"] ∧
      Ts.History.timelineOf {} [firstOf "b" "y", firstOf "a" "x"] = ["y", "x"] :=
  ⟨firsts_placed.2, List.Perm.swap _ _ _, by decide, by decide⟩

end Dsip.Messaging
