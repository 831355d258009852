import Dsip.Messaging.Resume

/-!
# A crash is invisible to a device's delivery state

A page is committed item by item, so that a crash leaves the state of the items
before it (`items_crash`), and the mailbox delivers the others once more. However
often that happens, the state and what is processed are those of one page without
a crash (`delivered_eq`). Items that were committed change nothing when they come
again (`redelivered`).
-/

namespace Dsip.Messaging.Resume

open Dsip.Lib

/-! ## Pages -/

section Pages

variable {r : Resume} {its its' : List Item} {c : String}

theorem items_append (its its' : List Item) (r : Resume) : items none r (its ++ its') =
      ((items none (items none r its).1 its').1,
        (items none r its).2 ++ (items none (items none r its).1 its').2) := by
  induction its generalizing r with
  | nil => rfl
  | cons it rest ih =>
    have hnone : some it.cursor ≠ none := nofun
    rw [List.cons_append, items, if_neg hnone, items, if_neg hnone, ih]
    rfl

theorem cursor_item (r : Resume) (it : Item) : (r.item it).1.cursor = some it.cursor := by
  unfold item
  split
  case isTrue => rfl
  case isFalse =>
    split
    case isTrue => rfl
    case isFalse =>
      obtain ⟨cursor, cls, group, sibling⟩ := it
      cases cls with
      | handshake seq | application seq =>
        show (position _ group seq).cursor = _
        unfold position
        split <;> rfl
      | welcome seq => cases seq <;> rfl
      | other name => rfl

theorem cursor_items (its : List Item) (it : Item) (r : Resume) :
    (items none r (its ++ [it])).1.cursor = some it.cursor := by
  rw [items_append]
  have hnone : some it.cursor ≠ none := nofun
  rw [items, if_neg hnone]
  exact cursor_item _ it

/-- The items before the one that the crash strikes. -/
def before (c : String) (its : List Item) : List Item := its.takeWhile fun it => it.cursor ≠ c

/-- The one that the crash strikes, and the rest. -/
def struck (c : String) (its : List Item) : List Item := its.dropWhile fun it => it.cursor ≠ c

theorem before_append_struck (c : String) (its : List Item) : before c its ++ struck c its = its :=
  List.takeWhile_append_dropWhile

theorem items_crash (c : String) (its : List Item) (r : Resume) : items (some c) r its =
      ((items none r (before c its)).1,
        (items none r (before c its)).2 ++ if struck c its = [] then [] else [.crash c]) := by
  induction its generalizing r with
  | nil => rfl
  | cons it rest ih =>
    unfold before struck at *
    by_cases hc : it.cursor = c
    case pos =>
      rw [items, if_pos (congrArg some hc), List.takeWhile_cons_of_neg (by simpa using hc),
        List.dropWhile_cons_of_neg (by simpa using hc), if_neg (List.cons_ne_nil _ _), hc]
      rfl
    case neg =>
      have hsome : some it.cursor ≠ some c := fun h => hc (Option.some.inj h)
      have hnone : some it.cursor ≠ none := nofun
      rw [items, if_neg hsome, List.takeWhile_cons_of_pos (by simpa using hc),
        List.dropWhile_cons_of_pos (by simpa using hc), items, if_neg hnone, ih]
      rfl

end Pages

/-! ## Deliveries -/

/-- What the mailbox delivers after a cursor, of these items. -/
def after (its : List Item) (cursor : Option String) : List Item :=
  if its.any fun it => some it.cursor = cursor then
    (its.dropWhile fun it => some it.cursor ≠ cursor).tail
  else its

/-- The items are delivered after the committed cursor; a crash strikes at each of
these cursors, and after it the device restarts. -/
def delivered (its : List Item) : List String → Resume → Resume × List Emit
  | [], r => items none r (after its r.cursor)
  | c :: crashes, r =>
    let page := items (some c) r (after its r.cursor)
    let (r', out) := delivered its crashes page.1.restart
    (r', page.2 ++ page.1.restart.sync ++ out)

/-- What was processed and committed. -/
def processed (out : List Emit) : List String :=
  out.filterMap fun
    | .process cursor => some cursor
    | _ => none

section Deliveries

variable {r : Resume} {its old rest : List Item} {c : String}

theorem processed_append (out out' : List Emit) :
    processed (out ++ out') = processed out ++ processed out' := List.filterMap_append

theorem after_cursor {it : Item} (hnodup : ((old ++ it :: rest).map (·.cursor)).Nodup) :
    after (old ++ it :: rest) (some it.cursor) = rest := by
  have hmem : (old ++ it :: rest).any (fun x => some x.cursor = some it.cursor) = true :=
    List.any_eq_true.mpr ⟨it, by simp, by simp⟩
  have hold : ∀ x ∈ old, (decide (some x.cursor ≠ some it.cursor)) = true := by
    intro x hx
    rw [List.map_append, List.nodup_append] at hnodup
    have hne := hnodup.2.2 x.cursor (List.mem_map_of_mem hx) it.cursor (by simp)
    exact decide_eq_true fun h => hne (Option.some.inj h)
  unfold after
  rw [if_pos hmem, List.dropWhile_append_of_pos hold, List.dropWhile_cons_of_neg (by simp), List.tail_cons]

theorem after_suffix (its : List Item) (cursor : Option String) : ∃ old, old ++ after its cursor = its := by
  unfold after
  split
  case isTrue => exact (List.tail_suffix _).trans (List.dropWhile_suffix _)
  case isFalse => exact ⟨[], rfl⟩

theorem after_committed (hnodup : (its.map (·.cursor)).Nodup) {done : List Item}
    (h : done ++ rest = after its r.cursor) : after its (items none r done).1.cursor = rest := by
  obtain ⟨old, hold⟩ := after_suffix its r.cursor
  rcases List.eq_nil_or_concat done with rfl | ⟨init, last, rfl⟩
  · exact h.symm
  · rw [List.concat_eq_append] at h ⊢
    rw [cursor_items]
    rw [← hold, ← h, List.append_assoc, List.singleton_append, ← List.append_assoc] at hnodup ⊢
    exact after_cursor hnodup

theorem delivered_eq (hnodup : (its.map (·.cursor)).Nodup) (crashes : List String) (r : Resume) :
    (delivered its crashes r).1 = (items none r (after its r.cursor)).1 ∧
      processed (delivered its crashes r).2 = processed (items none r (after its r.cursor)).2 := by
  induction crashes generalizing r with
  | nil => exact ⟨rfl, rfl⟩
  | cons c crashes ih =>
    have hparts := before_append_struck c (after its r.cursor)
    have hafter := after_committed hnodup hparts
    have hpage := items_append (before c (after its r.cursor)) (struck c (after its r.cursor)) r
    rw [hparts] at hpage
    have hcrash := items_crash c (after its r.cursor) r
    obtain ⟨hstate, hout⟩ := ih (items none r (before c (after its r.cursor))).1
    rw [hafter] at hstate hout
    unfold delivered
    dsimp only
    rw [hcrash, restart_eq, hstate, processed_append, processed_append, processed_append, hout,
      hpage, processed_append]
    refine ⟨rfl, ?_⟩
    have hnone : processed (if struck c (after its r.cursor) = [] then [] else [Emit.crash c]) = [] := by
      split <;> rfl
    have hsync : processed (items none r (before c (after its r.cursor))).1.sync = [] := rfl
    dsimp only
    rw [hnone, hsync, List.append_nil, List.append_nil]

end Deliveries

/-! ## Committed items that come again -/

/-- No welcome of the page is for a group that has a position when it comes. -/
def Unpositioned : Resume → List Item → Prop
  | _, [] => True
  | r, it :: rest =>
    (∀ seq, it.cls = .welcome seq → r.groups.lookup it.group = none) ∧ Unpositioned (r.item it).1 rest

/-- Only a welcome is for a sibling. -/
def Item.Fits (it : Item) : Prop := it.sibling = true → it.cls.sequenced = none

/-- The item is committed: its seq is covered, or its group joined. -/
def Committed (r : Resume) (it : Item) : Prop :=
  (∀ seq, it.cls.sequenced = some seq → r.Covers (it.group, seq)) ∧
    ∀ seq, it.cls = .welcome seq → it.sibling = false → it.group ∈ r.joined

/-- What the device knows beside its cursor. -/
def Same (r r' : Resume) : Prop := r'.groups = r.groups ∧ r'.joined = r.joined

section Committed

variable {r r' : Resume} {it : Item} {its : List Item}

theorem noRewind_of_unpositioned (h : ∀ seq, it.cls = .welcome seq → r.groups.lookup it.group = none) :
    r.NoRewind it := by
  unfold NoRewind
  split
  case h_1 seq hcls =>
    intro _ _ p hp
    rw [h _ hcls] at hp
    cases hp
  case h_2 => trivial

theorem duplicate_iff {seq : Nat} (h : it.cls.sequenced = some seq) :
    r.duplicate it = true ↔ r.Covers (it.group, seq) := by
  obtain ⟨cursor, cls, group, sibling⟩ := it
  cases cls with
  | welcome | other => cases h
  | handshake seq' | application seq' =>
    obtain rfl := Option.some.inj h
    unfold duplicate Covers
    simp only [Option.any_eq_true, decide_eq_true_eq]

theorem joined_item (h : x ∈ r.joined) : x ∈ (r.item it).1.joined := by
  unfold item
  split
  case isTrue => exact h
  case isFalse =>
    split
    case isTrue => exact h
    case isFalse =>
      obtain ⟨cursor, cls, group, sibling⟩ := it
      cases cls with
      | handshake seq | application seq =>
        show x ∈ (position _ group seq).joined
        unfold position
        split <;> exact h
      | welcome seq => cases seq <;> exact Finset.mem_insert_of_mem h
      | other name => exact h

theorem Committed.item {old : Item} (h : r.Committed old) (hn : r.NoRewind it) : (r.item it).1.Committed old :=
  ⟨fun seq hseq => covers_item hn (h.1 seq hseq), fun seq hseq hs => joined_item (h.2 seq hseq hs)⟩

theorem committed_item (hfits : it.Fits) : (r.item it).1.Committed it := by
  constructor
  · intro seq hseq
    by_cases hdup : r.duplicate it = true
    case pos =>
      have hcovers := (duplicate_iff hseq).mp hdup
      unfold Resume.item
      rw [if_pos hdup]
      exact hcovers
    case neg =>
      have hsib : ¬ it.sibling = true := fun hs => by cases (hfits hs).symm.trans hseq
      have hmark : itemMark it (r.item it).2 = some (.processed it.group seq) := by
        unfold Resume.item itemMark
        rw [if_neg hdup, if_neg hsib, hseq]
        rfl
      exact (itemMark_item hmark).2.2
  · intro seq hcls hsib
    by_cases hdup : r.duplicate it = true
    case pos =>
      refine joined_item ?_
      unfold duplicate at hdup
      rw [hcls] at hdup
      exact of_decide_eq_true hdup
    case neg =>
      unfold Resume.item
      rw [if_neg hdup, if_neg (by rw [hsib]; exact Bool.false_ne_true)]
      unfold commit
      rw [hcls]
      cases seq <;> exact Finset.mem_insert_self _ _

theorem committed_items (its : List Item) (hfits : ∀ it ∈ its, it.Fits) {olds : List Item}
    (hun : Unpositioned r its) (h : ∀ it ∈ olds, r.Committed it) :
    ∀ it ∈ olds ++ its, (items none r its).1.Committed it := by
  induction its generalizing r olds with
  | nil =>
    rw [List.append_nil]
    exact h
  | cons it rest ih =>
    have hnone : some it.cursor ≠ none := nofun
    obtain ⟨hfirst, hrest⟩ := hun
    have hnew : ∀ old ∈ olds ++ [it], (r.item it).1.Committed old := by
      intro old hold
      rcases List.mem_append.mp hold with hold | hold
      · exact (h old hold).item (noRewind_of_unpositioned hfirst)
      · rw [List.mem_singleton.mp hold]
        exact committed_item (hfits it List.mem_cons_self)
    have hall := ih (fun x hx => hfits x (List.mem_cons_of_mem _ hx)) hrest hnew
    rw [items, if_neg hnone]
    rwa [List.append_assoc, List.singleton_append] at hall

theorem Committed.again (h : r.Committed it) :
    Same r (r.item it).1 ∧ (it.cls.sequenced.isSome → (r.item it).2 = .duplicate it.cursor) := by
  unfold Resume.item
  by_cases hdup : r.duplicate it = true
  case pos =>
    rw [if_pos hdup]
    exact ⟨⟨rfl, rfl⟩, fun _ => rfl⟩
  case neg =>
    have hseq : it.cls.sequenced = none := by
      rw [Option.eq_none_iff_forall_ne_some]
      exact fun seq hseq => hdup ((duplicate_iff hseq).mpr (h.1 seq hseq))
    rw [if_neg hdup, hseq]
    refine ⟨?_, nofun⟩
    split
    case isTrue => exact ⟨rfl, rfl⟩
    case isFalse hsib =>
      unfold commit
      cases hcls : it.cls with
      | handshake seq | application seq => rw [hcls] at hseq; cases hseq
      | other name => exact ⟨rfl, rfl⟩
      | welcome seq =>
        refine absurd ?_ hdup
        unfold duplicate
        rw [hcls]
        exact decide_eq_true (h.2 seq hcls (Bool.eq_false_iff.mpr hsib))

theorem Same.committed (h : Same r r') (hc : r.Committed it) : r'.Committed it := by
  unfold Committed Covers at *
  rw [h.1, h.2]
  exact hc

theorem redelivered (old : List Item) (h : ∀ it ∈ old, r.Committed it) :
    Same r (items none r old).1 ∧ ∀ x ∈ old.zip (items none r old).2,
      x.1.cls.sequenced.isSome → x.2 = .duplicate x.1.cursor := by
  induction old generalizing r with
  | nil => exact ⟨⟨rfl, rfl⟩, nofun⟩
  | cons it rest ih =>
    have hnone : some it.cursor ≠ none := nofun
    obtain ⟨hsame, hdup⟩ := (h it List.mem_cons_self).again
    obtain ⟨hsame', hdup'⟩ := ih fun x hx => hsame.committed (h x (List.mem_cons_of_mem _ hx))
    rw [items, if_neg hnone]
    refine ⟨⟨hsame'.1.trans hsame.1, hsame'.2.trans hsame.2⟩, ?_⟩
    intro x hx
    rcases List.mem_cons.mp hx with rfl | hx
    · exact hdup
    · exact hdup' x hx

theorem Same.item (h : Same r r') (it : Item) :
    (r'.item it).2 = (r.item it).2 ∧ Same (r.item it).1 (r'.item it).1 := by
  obtain ⟨cursor, groups, joined⟩ := r
  obtain ⟨cursor', groups', joined'⟩ := r'
  obtain ⟨hgroups, hjoined⟩ := h
  dsimp only at hgroups hjoined
  subst hgroups hjoined
  obtain ⟨c, cls, group, sibling⟩ := it
  have hdup : duplicate ⟨cursor', groups', joined'⟩ ⟨c, cls, group, sibling⟩ =
      duplicate ⟨cursor, groups', joined'⟩ ⟨c, cls, group, sibling⟩ := rfl
  unfold Resume.item
  rw [hdup]
  split
  case isTrue => exact ⟨rfl, rfl, rfl⟩
  case isFalse =>
    split
    case isTrue => exact ⟨rfl, rfl, rfl⟩
    case isFalse => exact ⟨rfl, rfl, rfl⟩

theorem Same.items (h : Same r r') (its : List Item) :
    (items none r' its).2 = (items none r its).2 ∧ Same (items none r its).1 (items none r' its).1 := by
  induction its generalizing r r' with
  | nil => exact ⟨rfl, h⟩
  | cons it rest ih =>
    have hnone : some it.cursor ≠ none := nofun
    obtain ⟨hout, hsame⟩ := h.item it
    obtain ⟨houts, hsames⟩ := ih hsame
    rw [Resume.items, Resume.items, if_neg hnone, if_neg hnone]
    exact ⟨List.cons_eq_cons.mpr ⟨hout, houts⟩, hsames⟩

end Committed

/-- The list is delivered with any crashes as without one; and what of it was
committed is redelivered as duplicates, with nothing changed for the rest. -/
theorem crash_invisible (r : Resume) (its : List Item) :
    ((∀ it ∈ its, some it.cursor ≠ r.cursor) → after its r.cursor = its) ∧
      ((its.map (·.cursor)).Nodup → ∀ crashes : List String,
        (delivered its crashes r).1 = (items none r (after its r.cursor)).1 ∧
          processed (delivered its crashes r).2 = processed (items none r (after its r.cursor)).2) ∧
      ∀ done rest, done ++ rest = its → Unpositioned r done → (∀ it ∈ done, it.Fits) →
        ∀ old, (∀ it ∈ old, it ∈ done) →
          let now := (items none r done).1
          let again := items none now old
          Same now again.1 ∧ (∀ x ∈ old.zip again.2, x.1.cls.sequenced.isSome → x.2 = .duplicate x.1.cursor) ∧
            (items none again.1 rest).2 = (items none now rest).2 ∧
              Same (items none now rest).1 (items none again.1 rest).1 := by
  refine ⟨?_, fun hnodup crashes => delivered_eq hnodup crashes r, ?_⟩
  · intro hfresh
    unfold after
    rw [if_neg]
    intro hany
    obtain ⟨it, hit, heq⟩ := List.any_eq_true.mp hany
    exact hfresh it hit (of_decide_eq_true heq)
  · rintro done rest rfl hun hfits old hold
    have hcommitted := @committed_items r done hfits [] hun nofun
    obtain ⟨hsame, hdup⟩ := redelivered old fun it hit => hcommitted it (hold it hit)
    obtain ⟨hout, hrest⟩ := hsame.items rest
    exact ⟨hsame, hdup, hout, hrest⟩

/-- A device is added at seq 5 and processes 6 and 7; the page is struck three times. -/
theorem crash_invisible_page :
    let page : List Item := [⟨"c1", .welcome (some 5), "g", false⟩,
      ⟨"c2", .handshake 6, "g", false⟩, ⟨"c3", .application 7, "g", false⟩]
    processed (delivered page ["c2", "c2", "c3"] (init {})).2 = ["c1", "c2", "c3"] ∧
      (delivered page ["c2", "c2", "c3"] (init {})).1 = (items none (init {}) page).1 ∧
      Same (items none (init {}) page).1 (items none (items none (init {}) page).1 page).1 := by
  intro page
  obtain ⟨hafter, hcrash, hagain⟩ := crash_invisible (init {}) page
  have hfresh : after page (init {}).cursor = page := hafter (by decide)
  obtain ⟨hstate, hprocessed⟩ := hcrash (by decide) ["c2", "c2", "c3"]
  rw [hfresh] at hstate hprocessed
  refine ⟨hprocessed.trans (by decide), hstate, ?_⟩
  have hun : Unpositioned (init {}) page := by
    refine ⟨fun _ _ => rfl, ?_, ?_, trivial⟩
    · nofun
    · nofun
  have hfits : ∀ it ∈ page, it.Fits := by
    intro it hit hsib
    simp only [page, List.mem_cons, List.not_mem_nil, or_false] at hit
    rcases hit with rfl | rfl | rfl <;> cases hsib
  exact (hagain page [] (List.append_nil page) hun hfits page fun _ h => h).1

end Dsip.Messaging.Resume
