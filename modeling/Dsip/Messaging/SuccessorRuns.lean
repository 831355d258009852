import Dsip.Lib.TSys
import Dsip.Messaging.Successor

/-!
# Devices converge on one successor

What a run of a tracker shows is its log: the events and what it emitted for
each. From the log one reads the candidates of a group (`seen`), the groups the
device knows and their rosters (`known`), and the successors it is in
(`aboard`). Against these:

* `Acts` — all a tracker does in one step, whichever tracker it is;
* `Settled` — the choice is the lowest candidate, and the device is in no other;
* `Judged` — every welcome and request is answered by the rosters known then.

`successors_converge_iff` puts them together for both implementations.
-/

namespace Dsip.Messaging.SuccessorTracker

open Dsip.Lib

abbrev Log := TSys.Trace Event (List Emit)

/-! ## What a log shows -/

/-- The group an event brings, its predecessor, and whether the device made it. -/
def Event.names : Event → Option (String × String × Bool)
  | .create _ => none
  | .created group pred => some (group, pred, true)
  | .welcome group pred _ _ => some (group, pred, false)

/-- The candidate of `pred` in an entry: one created, or welcomed and not taken
for a first contact. -/
def candidateIn (pred : String) (entry : Event × List Emit) : Option String :=
  match entry.1.names with
  | some (group, p, _) => if p = pred ∧ .firstContact group ∉ entry.2 then some group else none
  | none => none

/-- The candidates of `pred` so far. -/
def seen (tr : Log) (pred : String) : Set String :=
  {g | ∃ entry ∈ tr, candidateIn pred entry = some g}

/-- A roster for each group known. -/
abbrev Rosters := String → Option (List String)

/-- One entry more: a successor joined is known with the roster of its welcome,
one created with that of its predecessor. -/
def learn (rosters : Rosters) (entry : Event × List Emit) : Rosters :=
  match entry.1 with
  | .create _ => rosters
  | .created group pred => Function.update rosters group (some ((rosters pred).getD []))
  | .welcome group _ _ members =>
    if .join group ∈ entry.2 then Function.update rosters group (some members) else rosters

/-- The last known roster of each group the device is or was a member of. -/
def known (groups : Dict String (List String)) (tr : Log) : Rosters := tr.foldl learn groups.lookup

/-- The same, passing over a successor created and left at once for a lower one. -/
def keep (rosters : Rosters) (entry : Event × List Emit) : Rosters :=
  match entry.1 with
  | .created group _ => if .leave group ∈ entry.2 then rosters else learn rosters entry
  | _ => learn rosters entry

def kept (groups : Dict String (List String)) (tr : Log) : Rosters := tr.foldl keep groups.lookup

/-- One entry more: the successors entered, less those left or declined. -/
def boards (inside : Set String) (entry : Event × List Emit) : Set String :=
  {g | (g ∈ inside ∨ .join g ∈ entry.2 ∨ ∃ pred, entry.1 = .created g pred) ∧
    .leave g ∉ entry.2 ∧ .decline g ∉ entry.2}

/-- The successors the device is in. -/
def aboard (tr : Log) : Set String := tr.foldl boards ∅

/-- The device left or declined `g`. -/
def GaveUp (tr : Log) (g : String) : Prop := ∃ entry ∈ tr, .leave g ∈ entry.2 ∨ .decline g ∈ entry.2

/-- No group came as a successor of two: the predecessor of a group is fixed
when it is made. -/
def OnePredecessor (tr : Log) : Prop := ∀ g p q, g ∈ seen tr p → g ∈ seen tr q → p = q

/-! ## What a run should show -/

/-- The choices are the lowest candidates, and the device is in these alone. -/
structure Settled (tr : Log) (chosen : String → Option String) : Prop where
  lowest : ∀ p g, chosen p = some g ↔ Lowest successorRank (seen tr p) g
  inside : OnePredecessor tr → ∀ p, ∀ g ∈ seen tr p, g ∈ aboard tr ↔ chosen p = some g
  gaveUp : OnePredecessor tr → ∀ p, ∀ g ∈ seen tr p, chosen p ≠ some g → GaveUp tr g

/-- A welcome is a candidate's if it is one of a known group, made by a member
of its roster and adding nobody to it. -/
def IsValid (rosters : Rosters) (pred creator : String) (members : List String) : Prop :=
  ∃ last, rosters pred = some last ∧ checkSuccessor last creator members

/-- The answer to an event by the rosters and the candidates of that time. -/
def Answered (rosters : Rosters) (cands : String → Set String) : Event → List Emit → Prop
  | .welcome group pred creator members, out =>
    .firstContact group ∉ out ↔ IsValid rosters pred creator members
  | .create pred, out => ∀ last, rosters pred = some last →
      (∀ g, Lowest successorRank (cands pred) g → out = [.use g]) ∧
        ((∀ g, ¬ Lowest successorRank (cands pred) g) → out = [.create pred (sortRoster last)])
  | .created .., _ => True

/-- Every event is answered by the rosters of its time. -/
def Judged (rosters : Log → Rosters) (tr : Log) : Prop :=
  ∀ before e out after, tr = before ++ (e, out) :: after → Answered (rosters before) (seen before) e out

/-- Rosters `ours` answer an event as `rosters` do. -/
def SameAnswer (ours rosters : Rosters) (cands : String → Set String) : Event → Prop
  | .welcome _ pred creator members =>
    IsValid ours pred creator members ↔ IsValid rosters pred creator members
  | .create pred => ∀ last, rosters pred = some last →
      (∀ g, ¬ Lowest successorRank (cands pred) g) →
        ∃ own, ours pred = some own ∧ sortRoster own = sortRoster last
  | .created .. => True

/-- `ours` know the group a successor is asked for. -/
def AlsoKnown (ours rosters : Rosters) : Event → Prop
  | .create pred => ∀ last, rosters pred = some last → ours pred ≠ none
  | _ => True

/-- What the device created and left at once makes no difference. -/
def LostUnasked (groups : Dict String (List String)) (tr : Log) : Prop :=
  ∀ before e out after, tr = before ++ (e, out) :: after →
    SameAnswer (kept groups before) (known groups before) (seen before) e

/-- What the run taught makes no difference. -/
def Unaltered (groups : Dict String (List String)) (rosters : Log → Rosters) (tr : Log) : Prop :=
  ∀ before e out after, tr = before ++ (e, out) :: after →
    SameAnswer groups.lookup (rosters before) (seen before) e ∧ AlsoKnown groups.lookup (rosters before) e

/-! ## One entry more -/

theorem mem_seen_snoc {tr : Log} {entry : Event × List Emit} {pred g : String} :
    g ∈ seen (tr ++ [entry]) pred ↔ g ∈ seen tr pred ∨ candidateIn pred entry = some g := by
  simp [seen, List.mem_append, or_and_right, exists_or]

theorem kept_snoc (groups : Dict String (List String)) (tr : Log) (entry : Event × List Emit) :
    kept groups (tr ++ [entry]) = keep (kept groups tr) entry := by
  simp [kept]

theorem aboard_snoc (tr : Log) (entry : Event × List Emit) :
    aboard (tr ++ [entry]) = boards (aboard tr) entry := by
  simp [aboard]

theorem OnePredecessor.of_snoc {tr : Log} {entry : Event × List Emit}
    (h : OnePredecessor (tr ++ [entry])) : OnePredecessor tr :=
  fun g p q hp hq => h g p q (mem_seen_snoc.mpr (.inl hp)) (mem_seen_snoc.mpr (.inl hq))

theorem GaveUp.snoc {tr : Log} {g : String} (h : GaveUp tr g) (entry : Event × List Emit) :
    GaveUp (tr ++ [entry]) g := by
  obtain ⟨x, hx, hout⟩ := h
  exact ⟨x, List.mem_append_left _ hx, hout⟩

/-! ## What one step does -/

/-- An answer to a request: nothing joined, left or declined. -/
def Emit.isAnswer : Emit → Bool
  | .use _ | .refuse _ | .create _ _ => true
  | _ => false

/-- What is emitted when a candidate is kept. -/
def keptOut (mine : Bool) (group : String) (left : List String) : List Emit :=
  (if mine then [] else [.join group]) ++ left.map .leave

/-- What is emitted when it is not. -/
def refusedOut (mine : Bool) (group : String) : List Emit := [if mine then .leave group else .decline group]

/-- All that a tracker does in one step. A candidate that is the lowest now is
kept and others left for it; if `exact`, these are the one chosen before. -/
inductive Acts (tr : Log) (exact : Prop) : Event → List Emit → Prop
  | answered {pred out} (hout : out.all Emit.isAnswer) : Acts tr exact (.create pred) out
  | stranger {group pred creator members} :
      Acts tr exact (.welcome group pred creator members) [.firstContact group]
  | kept {e group pred mine} (he : e.names = some (group, pred, mine))
      (hlow : Lowest successorRank (insert group (seen tr pred)) group) {left : List String}
      (hgroup : group ∉ left)
      (hleft : exact → ∀ g, g ∈ left ↔ Lowest successorRank (seen tr pred) g ∧ g ≠ group) :
      Acts tr exact e (keptOut mine group left)
  | refused {e group pred mine} (he : e.names = some (group, pred, mine))
      (hlow : ¬ Lowest successorRank (insert group (seen tr pred)) group) :
      Acts tr exact e (refusedOut mine group)

section Outputs

variable {group pred g : String} {mine : Bool} {left : List String} {e : Event}

theorem leave_mem_keptOut : .leave g ∈ keptOut mine group left ↔ g ∈ left := by
  cases mine <;> simp [keptOut]

theorem join_mem_keptOut : .join g ∈ keptOut mine group left ↔ mine = false ∧ g = group := by
  cases mine <;> simp [keptOut]

theorem firstContact_not_mem_keptOut : .firstContact g ∉ keptOut mine group left := by
  cases mine <;> simp [keptOut]

theorem firstContact_not_mem_refusedOut : .firstContact g ∉ refusedOut mine group := by
  cases mine <;> simp [refusedOut]

theorem gaveUp_mem_refusedOut :
    .leave group ∈ refusedOut mine group ∨ .decline group ∈ refusedOut mine group := by
  cases mine <;> simp [refusedOut]

theorem mem_boards_kept (he : e.names = some (group, pred, mine)) {inside : Set String} :
    g ∈ boards inside (e, keptOut mine group left) ↔ (g ∈ inside ∨ g = group) ∧ g ∉ left := by
  cases e with
  | create => cases he
  | created =>
    cases he
    simp [boards, keptOut, eq_comm]
  | welcome =>
    cases he
    simp [boards, keptOut]

theorem mem_boards_refused (he : e.names = some (group, pred, mine)) {inside : Set String} :
    g ∈ boards inside (e, refusedOut mine group) ↔ g ∈ inside ∧ g ≠ group := by
  cases e with
  | create => cases he
  | created =>
    cases he
    simp only [boards, refusedOut, Set.mem_ofPred_eq]
    by_cases hg : g = group
    · simp [hg]
    · have hg' : ¬ group = g := fun h => hg h.symm
      simp [hg, hg']
  | welcome =>
    cases he
    simp [boards, refusedOut]

end Outputs

/-! ## The candidates after a step -/

section Seen

variable {tr : Log}

theorem seen_snoc_of_names {e : Event} {group pred : String} {mine : Bool}
    (he : e.names = some (group, pred, mine)) {out : List Emit} (hout : .firstContact group ∉ out)
    (p : String) : seen (tr ++ [(e, out)]) p = if p = pred then insert group (seen tr p) else seen tr p := by
  ext g
  rw [mem_seen_snoc, candidateIn, he]
  by_cases hp : p = pred
  · subst hp
    simp [hout, or_comm, eq_comm]
  · have hp' : ¬ pred = p := fun h => hp h.symm
    simp [hp, hp']

theorem seen_snoc_answered {out : List Emit} (pred p : String) :
    seen (tr ++ [(.create pred, out)]) p = seen tr p := by
  ext g
  simp [mem_seen_snoc, candidateIn, Event.names]

theorem seen_snoc_stranger (group pred creator : String) (members : List String) (p : String) :
    seen (tr ++ [(.welcome group pred creator members, [.firstContact group])]) p = seen tr p := by
  ext g
  simp [mem_seen_snoc, candidateIn, Event.names]

end Seen

/-! ## One step keeps the choice settled -/

section Settled

variable {tr : Log} {e : Event} {out : List Emit} {chosen chosen' : String → Option String}

theorem Settled.of_seen (h : Settled tr chosen) (hseen : ∀ p, seen (tr ++ [(e, out)]) p = seen tr p)
    (haboard : ∀ g, g ∈ aboard (tr ++ [(e, out)]) ↔ g ∈ aboard tr) (hchosen : ∀ p g, chosen' p = some g ↔
      Lowest successorRank (seen (tr ++ [(e, out)]) p) g) : Settled (tr ++ [(e, out)]) chosen' := by
  have hsame : ∀ p g, chosen' p = some g ↔ chosen p = some g := by
    intro p g
    rw [hchosen, hseen, h.lowest]
  refine ⟨hchosen, ?_, ?_⟩
  · intro hone p g hg
    rw [haboard, hsame, h.inside hone.of_snoc p g (hseen p ▸ hg)]
  · intro hone p g hg hnot
    exact (h.gaveUp hone.of_snoc p g (hseen p ▸ hg) fun hp => hnot ((hsame p g).mpr hp)).snoc _

theorem Settled.of_kept {group pred : String} {mine : Bool} {left : List String}
    (h : Settled tr chosen) (he : e.names = some (group, pred, mine))
    (hlow : Lowest successorRank (insert group (seen tr pred)) group) (hgroup : group ∉ left)
    (hleft : OnePredecessor (tr ++ [(e, keptOut mine group left)]) →
      ∀ g, g ∈ left ↔ Lowest successorRank (seen tr pred) g ∧ g ≠ group)
    (hchosen : ∀ p g, chosen' p = some g ↔
      Lowest successorRank (seen (tr ++ [(e, keptOut mine group left)]) p) g) :
    Settled (tr ++ [(e, keptOut mine group left)]) chosen' := by
  have hseen := @seen_snoc_of_names tr _ _ _ _ he (keptOut mine group left)
    firstContact_not_mem_keptOut
  have hpred : seen (tr ++ [(e, keptOut mine group left)]) pred = insert group (seen tr pred) := by
    rw [hseen, if_pos rfl]
  have hnew : ∀ g, chosen' pred = some g ↔ g = group := by
    intro g
    rw [hchosen, hpred]
    exact hlow.eq_new successorRank_inj
  refine ⟨hchosen, ?_, ?_⟩
  · intro hone p g hg
    rw [aboard_snoc, mem_boards_kept he]
    by_cases hp : p = pred
    · subst hp
      rw [hnew]
      constructor
      · rintro ⟨hin | hg', hout⟩
        · by_contra hne
          have hmem : g ∈ seen tr p := (hpred ▸ hg).resolve_left hne
          have hlow' := (h.lowest p g).mp ((h.inside hone.of_snoc p g hmem).mp hin)
          exact hout ((hleft hone g).mpr ⟨hlow', hne⟩)
        · exact hg'
      · rintro rfl
        exact ⟨.inr rfl, hgroup⟩
    · -- a candidate of another group is neither the new one nor one left for it
      have hmem : g ∈ seen tr p := by
        have := hseen p
        rw [if_neg hp] at this
        exact this ▸ hg
      have hother : g ∉ seen (tr ++ [(e, keptOut mine group left)]) pred :=
        fun hin => hp (hone g p pred hg hin)
      have hne : g ≠ group := by
        rintro rfl
        exact hother (hpred ▸ Set.mem_insert _ _)
      have hout : g ∉ left := by
        intro hin
        exact hother (hpred ▸ Set.mem_insert_of_mem _ ((hleft hone g).mp hin).1.1)
      have hsame : chosen' p = some g ↔ chosen p = some g := by
        rw [hchosen, hseen, if_neg hp, h.lowest]
      rw [hsame, ← h.inside hone.of_snoc p g hmem]
      exact ⟨fun hin => hin.1.resolve_right hne, fun hin => ⟨.inl hin, hout⟩⟩
  · intro hone p g hg hnot
    by_cases hp : p = pred
    · subst hp
      have hne : g ≠ group := fun h => hnot ((hnew g).mpr h)
      have hmem : g ∈ seen tr p := (hpred ▸ hg).resolve_left hne
      by_cases hwas : Lowest successorRank (seen tr p) g
      · refine ⟨_, List.mem_append_right _ (List.mem_singleton.mpr rfl), .inl ?_⟩
        exact leave_mem_keptOut.mpr ((hleft hone g).mpr ⟨hwas, hne⟩)
      · exact (h.gaveUp hone.of_snoc p g hmem fun hc => hwas ((h.lowest p g).mp hc)).snoc _
    · rw [hseen, if_neg hp] at hg
      refine (h.gaveUp hone.of_snoc p g hg fun hc => hnot ?_).snoc _
      rw [hchosen, hseen, if_neg hp]
      exact (h.lowest p g).mp hc

theorem Settled.of_refused {group pred : String} {mine : Bool}
    (h : Settled tr chosen) (he : e.names = some (group, pred, mine))
    (hlow : ¬ Lowest successorRank (insert group (seen tr pred)) group) (hchosen : ∀ p g, chosen' p = some g ↔
      Lowest successorRank (seen (tr ++ [(e, refusedOut mine group)]) p) g) :
    Settled (tr ++ [(e, refusedOut mine group)]) chosen' := by
  have hseen := @seen_snoc_of_names tr _ _ _ _ he (refusedOut mine group)
    firstContact_not_mem_refusedOut
  have hpred : seen (tr ++ [(e, refusedOut mine group)]) pred = insert group (seen tr pred) := by
    rw [hseen, if_pos rfl]
  have hsame : ∀ p g, chosen' p = some g ↔ chosen p = some g := by
    intro p g
    rw [hchosen, hseen, h.lowest]
    split
    case isTrue hp =>
      subst hp
      exact lowest_insert_of_not hlow
    case isFalse => rfl
  have hnot : chosen' pred ≠ some group := by
    rw [Ne, hchosen, hpred]
    exact hlow
  have hold : ∀ p, ∀ g ∈ seen (tr ++ [(e, refusedOut mine group)]) p, g ≠ group → g ∈ seen tr p := by
    intro p g hg hne
    rw [hseen] at hg
    split at hg
    · exact hg.resolve_left hne
    · exact hg
  refine ⟨hchosen, ?_, ?_⟩
  · intro hone p g hg
    rw [aboard_snoc, mem_boards_refused he]
    by_cases hne : g = group
    · subst hne
      obtain rfl : p = pred := hone g p pred hg (hpred ▸ Set.mem_insert _ _)
      exact ⟨fun hin => absurd rfl hin.2, fun hc => absurd hc hnot⟩
    · rw [hsame, ← h.inside hone.of_snoc p g (hold p g hg hne)]
      exact ⟨And.left, fun hin => ⟨hin, hne⟩⟩
  · intro hone p g hg hc
    by_cases hne : g = group
    · subst hne
      exact ⟨_, List.mem_append_right _ (List.mem_singleton.mpr rfl), gaveUp_mem_refusedOut⟩
    · exact (h.gaveUp hone.of_snoc p g (hold p g hg hne) fun h' => hc ((hsame p g).mpr h')).snoc _

theorem Acts.settled (hacts : Acts tr (OnePredecessor (tr ++ [(e, out)])) e out)
    (h : Settled tr chosen) (hchosen : ∀ p g, chosen' p = some g ↔
      Lowest successorRank (seen (tr ++ [(e, out)]) p) g) : Settled (tr ++ [(e, out)]) chosen' := by
  cases hacts with
  | answered hout =>
    refine h.of_seen (seen_snoc_answered _) ?_ hchosen
    have hno : ∀ x : Emit, x.isAnswer = false → x ∉ out := by
      intro x hx hmem
      have := List.all_eq_true.mp hout x hmem
      rw [hx] at this
      cases this
    intro g
    simp [aboard_snoc, boards, hno (.join g) rfl, hno (.leave g) rfl, hno (.decline g) rfl]
  | stranger =>
    refine h.of_seen (seen_snoc_stranger _ _ _ _) ?_ hchosen
    intro g
    simp [aboard_snoc, boards]
  | kept he hlow hgroup hleft => exact h.of_kept he hlow hgroup hleft hchosen
  | refused he hlow => exact h.of_refused he hlow hchosen

end Settled

/-! ## What a candidate teaches -/

theorem checkSuccessor_sortRoster (last : List String) (creator : String) (members : List String) :
    checkSuccessor (sortRoster last) creator members = checkSuccessor last creator members := by
  simp [checkSuccessor, sortRoster]

theorem sortRoster_sortRoster (roster : List String) : sortRoster (sortRoster roster) = sortRoster roster :=
  (List.pairwise_insertionSort (· ≤ ·) roster).insertionSort_eq

/-- The roster a candidate comes with. -/
def Event.brings (rosters : Rosters) : Event → List String
  | .create _ => []
  | .created _ pred => (rosters pred).getD []
  | .welcome _ _ _ members => members

section Keep

variable {e : Event} {group pred : String} {mine : Bool}

theorem keep_kept (he : e.names = some (group, pred, mine)) {left : List String}
    (hgroup : group ∉ left) (rosters : Rosters) : keep rosters (e, keptOut mine group left) =
      Function.update rosters group (some (e.brings rosters)) := by
  cases e with
  | create => cases he
  | created =>
    cases he
    exact if_neg fun h => hgroup (leave_mem_keptOut.mp h)
  | welcome =>
    cases he
    exact if_pos (join_mem_keptOut.mpr ⟨rfl, rfl⟩)

theorem keep_refused (he : e.names = some (group, pred, mine)) (rosters : Rosters) :
    keep rosters (e, refusedOut mine group) = rosters := by
  cases e with
  | create => cases he
  | created =>
    cases he
    exact if_pos (List.mem_singleton.mpr rfl)
  | welcome =>
    cases he
    unfold keep learn
    exact if_neg (by simp [refusedOut])

theorem keep_stranger (group pred creator : String) (members : List String) (rosters : Rosters) :
    keep rosters (.welcome group pred creator members, [.firstContact group]) = rosters := by
  unfold keep learn
  exact if_neg (by simp)

end Keep

theorem mem_appendNew {l : List String} {g c : String} :
    c ∈ (if g ∈ l then l else l ++ [g]) ↔ c = g ∨ c ∈ l := by
  split
  case isTrue hg =>
    constructor
    · exact .inr
    · rintro (rfl | hc)
      · exact hg
      · exact hc
  case isFalse => simp [or_comm]

theorem seen_nil (p : String) : seen [] p = ∅ := by
  ext g
  simp [seen]

theorem not_lowest_empty {g : String} : ¬ Lowest successorRank (∅ : Set String) g :=
  fun h => h.1

/-! ## The Python tracker -/

section Python

/-- What the tracker holds, by its log. -/
structure Tracks (groups : Dict String (List String)) (tr : Log) (t : SuccessorTracker) : Prop where
  candidates : ∀ p g, g ∈ t.candidatesOf p ↔ g ∈ seen tr p
  winner : ∀ p g, t.winner.lookup p = some g ↔ Lowest successorRank (seen tr p) g
  groups : ∀ p, t.groups.lookup p = (kept groups tr p).map sortRoster

variable {groups : Dict String (List String)} {tr : Log} {t : SuccessorTracker}

theorem tracks_init : Tracks groups [] (init groups) where
  candidates p g := by
    rw [seen_nil]
    simp [init, candidatesOf]
  winner p g := by
    rw [seen_nil]
    simp [init, not_lowest_empty]
  groups p := Dict.lookup_map ..

theorem Tracks.of_same (h : Tracks groups tr t) {entry : Event × List Emit}
    (hseen : ∀ p, seen (tr ++ [entry]) p = seen tr p)
    (hkeep : ∀ rosters, keep rosters entry = rosters) : Tracks groups (tr ++ [entry]) t where
  candidates p g := by rw [hseen, h.candidates]
  winner p g := by rw [hseen, h.winner]
  groups p := by rw [kept_snoc, hkeep, h.groups]

theorem Tracks.left (h : Tracks groups tr t) (group pred : String) : ∃ left : List String,
      leavePrevious (t.winner.lookup pred) group = left.map .leave ∧
      ∀ g, g ∈ left ↔ Lowest successorRank (seen tr pred) g ∧ g ≠ group := by
  cases hw : t.winner.lookup pred with
  | none =>
    refine ⟨[], rfl, ?_⟩
    intro g
    rw [← h.winner, hw]
    simp
  | some prev =>
    have hprev : ∀ g, Lowest successorRank (seen tr pred) g ↔ prev = g := by
      intro g
      rw [← h.winner, hw, Option.some_inj]
    by_cases hne : prev = group
    · refine ⟨[], by simp [leavePrevious, hne], ?_⟩
      intro g
      rw [hprev]
      simp only [List.not_mem_nil, false_iff]
      rintro ⟨rfl, hg⟩
      exact hg hne
    · refine ⟨[prev], by simp [leavePrevious, hne], ?_⟩
      intro g
      rw [hprev, List.mem_singleton]
      constructor
      · rintro rfl
        exact ⟨rfl, hne⟩
      · rintro ⟨rfl, -⟩
        rfl

theorem Tracks.candidate (h : Tracks groups tr t) {e : Event} {group pred : String} {mine : Bool}
    (he : e.names = some (group, pred, mine)) {roster : List String}
    (hroster : sortRoster roster = sortRoster (e.brings (kept groups tr))) :
    Acts tr True e (t.candidate group pred roster mine).2 ∧
      Tracks groups (tr ++ [(e, (t.candidate group pred roster mine).2)])
        (t.candidate group pred roster mine).1 := by
  unfold SuccessorTracker.candidate
  generalize hcands : (if group ∈ t.candidatesOf pred then t.candidatesOf pred
    else t.candidatesOf pred ++ [group]) = cands
  have hmem : ∀ c, c ∈ cands ↔ c ∈ insert group (seen tr pred) := by
    intro c
    rw [← hcands, mem_appendNew, h.candidates]
    rfl
  have hset : {c | c ∈ cands} = insert group (seen tr pred) := Set.ext hmem
  have hselect := @selectSuccessor_eq_some cands group
  rw [hset] at hselect
  have hcandidates : ∀ (winner : Dict String String) (known' : Dict String (List String)) p g,
      g ∈ candidatesOf ⟨known', t.candidates.insert pred cands, winner⟩ p ↔
        g ∈ if p = pred then insert group (seen tr p) else seen tr p := by
    intro winner known' p g
    unfold candidatesOf
    dsimp only
    rw [Dict.lookup_insert_eq]
    split
    case isTrue hp =>
      subst hp
      exact hmem g
    case isFalse => exact h.candidates p g
  dsimp only
  split
  case isTrue hwin =>
    have hlow := hselect.mp hwin
    obtain ⟨left, hout, hleft⟩ := h.left group pred
    have hgroup : group ∉ left := fun hg => ((hleft group).mp hg).2 rfl
    have hseen := @seen_snoc_of_names tr _ _ _ _ he (keptOut mine group left)
      firstContact_not_mem_keptOut
    rw [hout]
    refine ⟨.kept he hlow hgroup fun _ => hleft, ?_, ?_, ?_⟩
    · intro p g
      rw [hcandidates]
      exact (Set.ext_iff.mp (hseen p) g).symm
    · intro p g
      have := hseen p
      rw [keptOut] at this
      rw [this, Dict.lookup_insert_eq]
      split
      case isTrue hp =>
        subst hp
        rw [hlow.eq_new successorRank_inj, Option.some_inj, eq_comm]
      case isFalse => exact h.winner p g
    · intro p
      have := keep_kept he hgroup (kept groups tr)
      rw [keptOut] at this
      rw [kept_snoc, this, Dict.lookup_insert_eq]
      split
      case isTrue hp =>
        subst hp
        rw [Function.update_self, Option.map_some, hroster]
      case isFalse hp => rw [Function.update_of_ne hp, h.groups]
  case isFalse hwin =>
    have hlow : ¬ Lowest successorRank (insert group (seen tr pred)) group :=
      fun hlow => hwin (hselect.mpr hlow)
    have hseen := @seen_snoc_of_names tr _ _ _ _ he (refusedOut mine group)
      firstContact_not_mem_refusedOut
    refine ⟨.refused he hlow, ?_, ?_, ?_⟩
    · intro p g
      rw [hcandidates]
      exact (Set.ext_iff.mp (hseen p) g).symm
    · intro p g
      have := hseen p
      rw [refusedOut] at this
      rw [this, h.winner]
      split
      case isTrue hp =>
        subst hp
        exact (lowest_insert_of_not hlow).symm
      case isFalse => rfl
    · intro p
      have := keep_refused he (kept groups tr)
      rw [refusedOut] at this
      rw [kept_snoc, this, h.groups]

theorem Tracks.step (h : Tracks groups tr t) (e : Event) :
    Acts tr True e (t.step e).2 ∧ Tracks groups (tr ++ [(e, (t.step e).2)]) (t.step e).1 := by
  cases e with
  | create pred =>
    have hout : (t.create pred).all Emit.isAnswer := by
      unfold SuccessorTracker.create
      split
      · rfl
      · split <;> rfl
    exact ⟨.answered hout, h.of_same (seen_snoc_answered pred) fun _ => rfl⟩
  | created group pred =>
    refine h.candidate rfl ?_
    rw [h.groups]
    cases hk : kept groups tr pred with
    | none => simp [Event.brings, hk]
    | some roster => simp [Event.brings, hk, sortRoster_sortRoster]
  | welcome group pred creator members =>
    have hstranger : Tracks groups
        (tr ++ [(.welcome group pred creator members, [.firstContact group])]) t :=
      h.of_same (seen_snoc_stranger _ _ _ _) (keep_stranger _ _ _ _)
    dsimp only [SuccessorTracker.step]
    unfold SuccessorTracker.welcome
    split
    · exact ⟨.stranger, hstranger⟩
    · split
      · exact h.candidate rfl rfl
      · exact ⟨.stranger, hstranger⟩

theorem firstContact_not_mem_candidate (group pred : String) (roster : List String) (mine : Bool)
    (g : String) : .firstContact g ∉ (t.candidate group pred roster mine).2 := by
  unfold SuccessorTracker.candidate leavePrevious
  dsimp only
  split <;> cases mine <;> cases t.winner.lookup pred <;> simp <;> split <;> simp

theorem Tracks.answered_iff (h : Tracks groups tr t) (rosters : Rosters) (e : Event) :
    Answered rosters (seen tr) e (t.step e).2 ↔ SameAnswer (kept groups tr) rosters (seen tr) e := by
  cases e with
  | created => exact Iff.rfl
  | create pred =>
    have hgroups := h.groups pred
    dsimp only [SuccessorTracker.step]
    unfold Answered SameAnswer SuccessorTracker.create
    dsimp only
    refine forall_congr' fun last => imp_congr_right fun _ => ?_
    cases hw : t.winner.lookup pred with
    | some g =>
      have hlow := (h.winner pred g).mp hw
      constructor
      · intro _ hno
        exact absurd hlow (hno g)
      · intro _
        refine ⟨fun g' hg' => ?_, fun hno => absurd hlow (hno g)⟩
        rw [hlow.unique successorRank_inj hg']
    | none =>
      have hno : ∀ g, ¬ Lowest successorRank (seen tr pred) g := by
        intro g hlow
        rw [← h.winner, hw] at hlow
        cases hlow
      rw [hgroups]
      cases hk : kept groups tr pred with
      | none => simp [hno]
      | some own => simp [hno]
  | welcome group pred creator members =>
    have hgroups := h.groups pred
    dsimp only [SuccessorTracker.step]
    unfold Answered SameAnswer SuccessorTracker.welcome
    dsimp only
    cases hk : kept groups tr pred with
    | none =>
      rw [hk] at hgroups
      simp [hgroups, IsValid, hk]
    | some own =>
      have hvalid : IsValid (kept groups tr) pred creator members ↔
          checkSuccessor own creator members = true := by
        simp [IsValid, hk]
      rw [hk] at hgroups
      rw [hvalid, hgroups, Option.map_some]
      dsimp only
      rw [checkSuccessor_sortRoster]
      split
      case isTrue hcheck =>
        have hout := @firstContact_not_mem_candidate t group pred members false group
        simp [hcheck, hout]
      case isFalse hcheck => simp [hcheck]

theorem sameAnswer_refl (rosters : Rosters) (cands : String → Set String) (e : Event) :
    SameAnswer rosters rosters cands e := by
  cases e with
  | create => exact fun last hlast _ => ⟨last, hlast, rfl⟩
  | created => trivial
  | welcome => exact Iff.rfl

end Python

/-! ## The TypeScript tracker -/

section Ts

/-- What the tracker holds, by its log. -/
structure TracksTs (groups : Dict String (List String)) (tr : Log) (t : Ts.SuccessorTracker) : Prop where
  groups : t.groups = groups
  inOrder : ∀ p, (t.candidatesOf p).Pairwise (· < ·)
  candidates : ∀ p g, g ∈ t.candidatesOf p ↔ g ∈ seen tr p
  chosen : ∀ p g, t.chosen.lookup p = some g ↔ Lowest successorRank (seen tr p) g
  member : OnePredecessor tr → ∀ g, g ∈ t.member ↔ ∃ p, Lowest successorRank (seen tr p) g

variable {groups : Dict String (List String)} {tr : Log} {t : Ts.SuccessorTracker}

theorem tracksTs_init : TracksTs groups [] (Ts.SuccessorTracker.init groups) where
  groups := rfl
  inOrder p := by simp [Ts.SuccessorTracker.init, Ts.SuccessorTracker.candidatesOf]
  candidates p g := by
    rw [seen_nil]
    simp [Ts.SuccessorTracker.init, Ts.SuccessorTracker.candidatesOf]
  chosen p g := by
    rw [seen_nil]
    simp [Ts.SuccessorTracker.init, not_lowest_empty]
  member _ g := by simp [Ts.SuccessorTracker.init, seen_nil, not_lowest_empty]

theorem TracksTs.of_same (h : TracksTs groups tr t) {entry : Event × List Emit}
    (hseen : ∀ p, seen (tr ++ [entry]) p = seen tr p) : TracksTs groups (tr ++ [entry]) t where
  groups := h.groups
  inOrder := h.inOrder
  candidates p g := by rw [hseen, h.candidates]
  chosen p g := by rw [hseen, h.chosen]
  member hone g := by
    simp only [hseen]
    exact h.member hone.of_snoc g

theorem pairwise_sort {l : List String} (h : l.Nodup) : (l.insertionSort (· ≤ ·)).Pairwise (· < ·) := by
  have hnodup : (l.insertionSort (· ≤ ·)).Nodup := (List.perm_insertionSort _ l).nodup_iff.mpr h
  exact (List.pairwise_insertionSort (· ≤ ·) l).imp₂ (fun _ _ => lt_of_le_of_ne) hnodup

theorem nodup_appendNew {l : List String} (h : l.Nodup) (g : String) :
    (if g ∈ l then l else l ++ [g]).Nodup := by
  split
  case isTrue => exact h
  case isFalse hg =>
    rw [← List.concat_eq_append]
    exact h.concat hg

theorem TracksTs.candidate (h : TracksTs groups tr t) {e : Event} {group pred : String}
    {mine : Bool} (he : e.names = some (group, pred, mine)) :
    Acts tr (OnePredecessor (tr ++ [(e, (t.candidate pred group !mine).2)])) e
        (t.candidate pred group !mine).2 ∧
      TracksTs groups (tr ++ [(e, (t.candidate pred group !mine).2)])
        (t.candidate pred group !mine).1 := by
  unfold Ts.SuccessorTracker.candidate
  dsimp only
  generalize hlist : (if group ∈ t.candidatesOf pred then t.candidatesOf pred
    else t.candidatesOf pred ++ [group]).insertionSort (· ≤ ·) = list
  have hmem : ∀ c, c ∈ list ↔ c ∈ insert group (seen tr pred) := by
    intro c
    rw [← hlist, List.mem_insertionSort, mem_appendNew, h.candidates]
    rfl
  have hset : {c | c ∈ list} = insert group (seen tr pred) := Set.ext hmem
  have hsorted : list.Pairwise (· < ·) := by
    have hnodup : (t.candidatesOf pred).Nodup := (h.inOrder pred).imp ne_of_lt
    exact hlist ▸ pairwise_sort (nodup_appendNew hnodup group)
  have hselect : ∀ g, (Ts.successorSelect list).1 = some g ↔
      Lowest successorRank (insert group (seen tr pred)) g :=
    fun g => hset ▸ Ts.successorSelect_eq_some hsorted
  -- what a step makes of the lists and the choices, kept or refused
  have hafter : ∀ out, .firstContact group ∉ out → ∀ chosen,
      (∀ g, (Ts.successorSelect list).1 = some g → chosen = t.chosen.insert pred g) →
      ((Ts.successorSelect list).1 = none → chosen = t.chosen) →
      ∀ member, (OnePredecessor (tr ++ [(e, out)]) →
        ∀ g, g ∈ member ↔ ∃ p, Lowest successorRank (seen (tr ++ [(e, out)]) p) g) →
      TracksTs groups (tr ++ [(e, out)])
        { t with candidates := t.candidates.insert pred list, chosen := chosen, member := member } := by
    intro out hout chosen hsome hnone member hmember
    have hseen := @seen_snoc_of_names tr _ _ _ _ he _ hout
    have hcands : ∀ p, ((t.candidates.insert pred list).lookup p).getD [] =
        if p = pred then list else t.candidatesOf p := by
      intro p
      rw [Dict.lookup_insert_eq]
      split <;> rfl
    refine ⟨h.groups, ?_, ?_, ?_, hmember⟩
    · intro p
      show (((t.candidates.insert pred list).lookup p).getD []).Pairwise (· < ·)
      rw [hcands]
      split
      · exact hsorted
      · exact h.inOrder p
    · intro p g
      show g ∈ ((t.candidates.insert pred list).lookup p).getD [] ↔ _
      rw [hcands, hseen]
      split
      case isTrue hp => exact hp ▸ hmem g
      case isFalse => exact h.candidates p g
    · intro p g
      rw [hseen]
      dsimp only
      cases hw : (Ts.successorSelect list).1 with
      | some w =>
        rw [hsome w hw, Dict.lookup_insert_eq]
        split
        case isTrue hp => rw [hp, ← hselect, hw]
        case isFalse => exact h.chosen p g
      | none =>
        rw [hnone hw, h.chosen]
        split
        case isTrue hp =>
          have hnot : ¬ Lowest successorRank (insert group (seen tr pred)) group := by
            rw [← hselect, hw]
            simp
          rw [hp]
          exact (lowest_insert_of_not hnot).symm
        case isFalse => rfl
  split
  case isTrue hwin =>
    have hlow := (hselect group).mp hwin
    have hgroup : group ∉ t.member.filter fun other => other ≠ group ∧ other ∈ list := by
      simp
    have hout : (if (!mine) = true then [Emit.join group] else []) ++
        (t.member.filter fun other => other ≠ group ∧ other ∈ list).map .leave =
          keptOut mine group (t.member.filter fun other => other ≠ group ∧ other ∈ list) := by
      cases mine <;> rfl
    rw [hout]
    generalize hleft : (t.member.filter fun other => other ≠ group ∧ other ∈ list) = left
      at hgroup ⊢
    have hseen := @seen_snoc_of_names tr _ _ _ _ he (keptOut mine group left)
      firstContact_not_mem_keptOut
    have hpred : seen (tr ++ [(e, keptOut mine group left)]) pred = insert group (seen tr pred) := by
      rw [hseen, if_pos rfl]
    refine ⟨.kept he hlow hgroup ?_, hafter _ firstContact_not_mem_keptOut _ (fun g hg => by rw [hg]) (fun hg => by rw [hg]) _ ?_⟩
    · intro hone g
      rw [← hleft, List.mem_filter, decide_eq_true_eq, h.member hone.of_snoc, hmem]
      constructor
      · rintro ⟨⟨p, hp⟩, hne, hg⟩
        obtain rfl := hone.of_snoc g p pred hp.1 (hg.resolve_left hne)
        exact ⟨hp, hne⟩
      · rintro ⟨hp, hne⟩
        exact ⟨⟨pred, hp⟩, hne, Set.mem_insert_of_mem _ hp.1⟩
    · intro hone g
      simp only [List.mem_append, List.mem_filter, List.mem_singleton, decide_eq_true_eq, hmem]
      rw [h.member hone.of_snoc]
      constructor
      · rintro (⟨⟨p, hp⟩, hg⟩ | rfl)
        · have hne : p ≠ pred := by
            rintro rfl
            exact hg (Set.mem_insert_of_mem _ hp.1)
          refine ⟨p, ?_⟩
          rw [hseen, if_neg hne]
          exact hp
        · exact ⟨pred, hpred ▸ hlow⟩
      · rintro ⟨p, hp⟩
        by_cases hne : p = pred
        · subst hne
          rw [hpred] at hp
          exact .inr (hp.unique successorRank_inj hlow)
        · have hp' := hp
          rw [hseen, if_neg hne] at hp'
          refine .inl ⟨⟨p, hp'⟩, fun hg => hne ?_⟩
          exact hone g p pred hp.1 (hpred ▸ hg)
  case isFalse hwin =>
    have hlow : ¬ Lowest successorRank (insert group (seen tr pred)) group :=
      fun hlow => hwin ((hselect group).mpr hlow)
    have hout : [if (!mine) = true then Emit.decline group else .leave group] = refusedOut mine group := by
      cases mine <;> rfl
    rw [hout]
    refine ⟨.refused he hlow, hafter _ firstContact_not_mem_refusedOut _ (fun g hg => by rw [hg]) (fun hg => by rw [hg]) _ ?_⟩
    intro hone g
    rw [h.member hone.of_snoc]
    refine exists_congr fun p => ?_
    rw [@seen_snoc_of_names tr _ _ _ _ he (refusedOut mine group) firstContact_not_mem_refusedOut]
    split
    case isTrue hp =>
      subst hp
      exact (lowest_insert_of_not hlow).symm
    case isFalse => rfl

theorem TracksTs.step (h : TracksTs groups tr t) (e : Event) :
    Acts tr (OnePredecessor (tr ++ [(e, (t.step e).2)])) e (t.step e).2 ∧
      TracksTs groups (tr ++ [(e, (t.step e).2)]) (t.step e).1 := by
  cases e with
  | create pred =>
    have hout : (t.step (.create pred)).2.all Emit.isAnswer ∧ (t.step (.create pred)).1 = t := by
      dsimp only [Ts.SuccessorTracker.step]
      split
      · exact ⟨rfl, rfl⟩
      · split <;> exact ⟨rfl, rfl⟩
    refine ⟨.answered hout.1, ?_⟩
    rw [hout.2]
    exact h.of_same (seen_snoc_answered pred)
  | created group pred =>
    have he : (Event.created group pred).names = some (group, pred, true) := rfl
    exact h.candidate he
  | welcome group pred creator members =>
    have hstranger : TracksTs groups
        (tr ++ [(.welcome group pred creator members, [.firstContact group])]) t :=
      h.of_same (seen_snoc_stranger _ _ _ _)
    dsimp only [Ts.SuccessorTracker.step]
    split
    · exact ⟨.stranger, hstranger⟩
    · split
      · have he : (Event.welcome group pred creator members).names = some (group, pred, false) := rfl
        exact h.candidate he
      · exact ⟨.stranger, hstranger⟩

theorem firstContact_not_mem_candidateTs (pred group : String) (welcomed : Bool) (g : String) :
    .firstContact g ∉ (t.candidate pred group welcomed).2 := by
  unfold Ts.SuccessorTracker.candidate
  dsimp only
  split_ifs <;> simp

theorem TracksTs.chosen_filter (h : TracksTs groups tr t) (pred : String) :
    (t.chosen.lookup pred).filter (· ≠ "") = t.chosen.lookup pred := by
  cases hw : t.chosen.lookup pred with
  | none => rfl
  | some g =>
    obtain ⟨-, k, hk, -⟩ := (h.chosen pred g).mp hw
    have hne : g ≠ "" := by
      rintro rfl
      have hnone : successorRank "" = none := by decide
      rw [hnone] at hk
      cases hk
    simp [hne]

theorem TracksTs.answered_iff (h : TracksTs groups tr t) (rosters : Rosters) (e : Event) :
    Answered rosters (seen tr) e (t.step e).2 ↔
      SameAnswer groups.lookup rosters (seen tr) e ∧ AlsoKnown groups.lookup rosters e := by
  cases e with
  | created => simp [Answered, SameAnswer, AlsoKnown]
  | create pred =>
    dsimp only [Ts.SuccessorTracker.step]
    unfold Answered SameAnswer AlsoKnown
    dsimp only
    rw [h.groups, h.chosen_filter, ← forall_and]
    refine forall_congr' fun last => ?_
    rw [← imp_and]
    refine imp_congr_right fun _ => ?_
    cases hg : groups.lookup pred with
    | none =>
      simp only [ne_eq, not_true_eq_false, and_false, iff_false]
      rintro ⟨huse, hcreate⟩
      by_cases hlow : ∃ g, Lowest successorRank (seen tr pred) g
      · obtain ⟨g, hlow⟩ := hlow
        exact absurd (huse g hlow) (by simp)
      · exact absurd (hcreate (not_exists.mp hlow)) (by simp)
    | some first =>
      cases hw : t.chosen.lookup pred with
      | some g =>
        have hlow := (h.chosen pred g).mp hw
        constructor
        · intro _
          exact ⟨fun hno => absurd hlow (hno g), by simp⟩
        · intro _
          refine ⟨fun g' hg' => ?_, fun hno => absurd hlow (hno g)⟩
          rw [hlow.unique successorRank_inj hg']
      | none =>
        have hno : ∀ g, ¬ Lowest successorRank (seen tr pred) g := by
          intro g hlow
          rw [← h.chosen, hw] at hlow
          cases hlow
        simp [hno]
  | welcome group pred creator members =>
    dsimp only [Ts.SuccessorTracker.step]
    unfold Answered SameAnswer AlsoKnown
    dsimp only
    rw [h.groups, and_true]
    cases hg : groups.lookup pred with
    | none =>
      have hnot : ¬ IsValid groups.lookup pred creator members := by
        rintro ⟨last, hlast, -⟩
        exact absurd (hg.symm.trans hlast) (by simp)
      simp [hnot]
    | some last =>
      have hvalid : IsValid groups.lookup pred creator members ↔
          checkSuccessor last creator members = true := by
        simp [IsValid, hg]
      rw [hvalid]
      dsimp only
      split
      case isTrue hcheck =>
        have hout := @firstContact_not_mem_candidateTs t pred group true group
        simp [hcheck, hout]
      case isFalse hcheck => simp [hcheck]

end Ts

/-! ## Every run -/

section Runs

def machine : TSys SuccessorTracker Event (List Emit) := .ofTotal (fun t => ∃ groups, t = init groups) step

def machineTs : TSys Ts.SuccessorTracker Event (List Emit) :=
  .ofTotal (fun t => ∃ groups, t = Ts.SuccessorTracker.init groups) Ts.SuccessorTracker.step

theorem settled_nil {chosen : String → Option String} (h : ∀ p, chosen p = none) : Settled [] chosen where
  lowest p g := by
    rw [h, seen_nil]
    simp [not_lowest_empty]
  inside _ p g hg := by simp [seen_nil] at hg
  gaveUp _ p g hg := by simp [seen_nil] at hg

theorem Settled.agree {tr tr' : Log} {chosen chosen' : String → Option String}
    (h : Settled tr chosen) (h' : Settled tr' chosen') {p : String}
    (hseen : seen tr p = seen tr' p) : chosen p = chosen' p := by
  ext g
  rw [h.lowest, h'.lowest, hseen]

variable {groups : Dict String (List String)} {tr : Log}

theorem Acts.mono {exact exact' : Prop} (hexact : exact' → exact) {e : Event} {out : List Emit}
    (h : Acts tr exact e out) : Acts tr exact' e out := by
  cases h with
  | answered hout => exact .answered hout
  | stranger => exact .stranger
  | kept he hlow hgroup hleft => exact .kept he hlow hgroup fun h => hleft (hexact h)
  | refused he hlow => exact .refused he hlow

theorem forall_split_snoc {P : Log → Event → List Emit → Prop} {e : Event} {out : List Emit} :
    (∀ before e' out' after, tr ++ [(e, out)] = before ++ (e', out') :: after → P before e' out') ↔
      (∀ before e' out' after, tr = before ++ (e', out') :: after → P before e' out') ∧ P tr e out := by
  constructor
  · intro h
    refine ⟨?_, h tr e out [] rfl⟩
    rintro before e' out' after rfl
    exact h before e' out' (after ++ [(e, out)]) (by simp)
  · rintro ⟨h, hlast⟩ before e' out' after hsplit
    rcases List.eq_nil_or_concat after with rfl | ⟨rest, last, rfl⟩
    · obtain ⟨rfl, hentry⟩ := List.append_inj' hsplit rfl
      cases hentry
      exact hlast
    · rw [List.concat_eq_append, ← List.cons_append, ← List.append_assoc] at hsplit
      obtain ⟨rfl, -⟩ := List.append_inj' hsplit rfl
      exact h before e' out' rest rfl

theorem tracks_of_run {t : SuccessorTracker} (h : machine.Run (init groups) tr t) :
    Tracks groups tr t ∧ Settled tr (t.winner.lookup ·) ∧
      ∀ rosters, Judged rosters tr ↔ ∀ before e out after, tr = before ++ (e, out) :: after →
        SameAnswer (kept groups before) (rosters before) (seen before) e := by
  induction h with
  | nil =>
    refine ⟨tracks_init, settled_nil fun _ => rfl, ?_⟩
    simp [Judged]
  | @snoc tr t e out t' _ _ hs ih =>
    obtain ⟨htracks, hsettled, hjudged⟩ := ih
    obtain ⟨rfl, rfl⟩ := Prod.mk.inj hs
    obtain ⟨hacts, htracks'⟩ := htracks.step e
    refine ⟨htracks', (hacts.mono fun _ => trivial).settled hsettled htracks'.winner, ?_⟩
    intro rosters
    unfold Judged at hjudged ⊢
    rw [forall_split_snoc, forall_split_snoc]
    exact and_congr (hjudged rosters) (htracks.answered_iff (rosters tr) e)

theorem tracksTs_of_run {t : Ts.SuccessorTracker} (h : machineTs.Run (Ts.SuccessorTracker.init groups) tr t) :
    TracksTs groups tr t ∧ Settled tr (t.chosen.lookup ·) ∧
      ∀ rosters, Judged rosters tr ↔ Unaltered groups rosters tr := by
  induction h with
  | nil =>
    refine ⟨tracksTs_init, settled_nil fun _ => rfl, ?_⟩
    simp [Judged, Unaltered]
  | @snoc tr t e out t' _ _ hs ih =>
    obtain ⟨htracks, hsettled, hjudged⟩ := ih
    obtain ⟨rfl, rfl⟩ := Prod.mk.inj hs
    obtain ⟨hacts, htracks'⟩ := htracks.step e
    refine ⟨htracks', hacts.settled hsettled htracks'.chosen, ?_⟩
    intro rosters
    unfold Judged Unaltered at hjudged ⊢
    rw [forall_split_snoc, forall_split_snoc]
    exact and_congr (hjudged rosters) (htracks.answered_iff (rosters tr) e)

/-- Devices converge on the lowest successor of each group. The Python tracker
does so along chains: a successor it joined, or created and kept, is a known
group; of one created and left at once it knows nothing. The TypeScript tracker
does so along chains exactly when the rosters of the start answer every event as
those known then would. -/
theorem successors_converge_iff (groups : Dict String (List String)) :
    (∀ tr t, machine.Run (init groups) tr t → Settled tr (t.winner.lookup ·) ∧ Judged (kept groups) tr ∧
        (Judged (known groups) tr ↔ LostUnasked groups tr)) ∧
    (∀ tr t, machineTs.Run (Ts.SuccessorTracker.init groups) tr t → Settled tr (t.chosen.lookup ·) ∧
        (Judged (kept groups) tr ↔ Unaltered groups (kept groups) tr) ∧
        (Judged (known groups) tr ↔ Unaltered groups (known groups) tr)) ∧
    ∀ tr tr' chosen chosen', Settled tr chosen → Settled tr' chosen' →
      ∀ p, seen tr p = seen tr' p → chosen p = chosen' p := by
  refine ⟨?_, ?_, ?_⟩
  · intro tr t h
    obtain ⟨-, hsettled, hjudged⟩ := tracks_of_run h
    refine ⟨hsettled, (hjudged _).mpr ?_, hjudged _⟩
    intro before e out after _
    exact sameAnswer_refl ..
  · intro tr t h
    obtain ⟨-, hsettled, hjudged⟩ := tracksTs_of_run h
    exact ⟨hsettled, hjudged _, hjudged _⟩
  · intro tr tr' chosen chosen' h h' p hseen
    exact h.agree h' hseen

/-- Two welcomes along a chain: a successor of `dead`, then a successor of that. -/
def chainOfTwo : List Event :=
  [.welcome "MDFKMDAwMDAwMDAwMDAwMDAwMDAwMDAwMEE" "dead" "bob" ["alice", "bob"],
    .welcome "MDFKMDAwMDAwMDAwMDAwMDAwMDAwMDAwMEI" "MDFKMDAwMDAwMDAwMDAwMDAwMDAwMDAwMEE" "alice"
      ["alice", "bob"]]

def deadGroup : Dict String (List String) := Dict.ofList [("dead", ["alice", "bob"])]

/-- The Python tracker joins both. -/
theorem successors_converge_chain :
    ∃ tr t, machine.Run (init deadGroup) tr t ∧ Settled tr (t.winner.lookup ·) ∧
      Judged (kept deadGroup) tr ∧ tr.map Prod.snd = [[.join "MDFKMDAwMDAwMDAwMDAwMDAwMDAwMDAwMEE"],
          [.join "MDFKMDAwMDAwMDAwMDAwMDAwMDAwMDAwMEI"]] := by
  have hrun := TSys.exec_run step (fun t => ∃ groups, t = init groups) (init deadGroup) chainOfTwo
  obtain ⟨hsettled, hjudged, -⟩ := (successors_converge_iff deadGroup).1 _ _ hrun
  exact ⟨_, _, hrun, hsettled, hjudged, by decide +kernel⟩

/-- The TypeScript tracker takes the second for a first contact. -/
theorem chain_is_first_contact : ∃ tr t, machineTs.Run (Ts.SuccessorTracker.init deadGroup) tr t ∧
      ¬ Judged (kept deadGroup) tr ∧ ¬ Judged (known deadGroup) tr := by
  have hrun := TSys.exec_run Ts.SuccessorTracker.step
    (fun t => ∃ groups, t = Ts.SuccessorTracker.init groups)
    (Ts.SuccessorTracker.init deadGroup) chainOfTwo
  have htrace : (TSys.exec Ts.SuccessorTracker.step (Ts.SuccessorTracker.init deadGroup)
      chainOfTwo).1 =
      [(chainOfTwo[0], [.join "MDFKMDAwMDAwMDAwMDAwMDAwMDAwMDAwMEE"])] ++
        (chainOfTwo[1], [.firstContact "MDFKMDAwMDAwMDAwMDAwMDAwMDAwMDAwMEI"]) :: [] := by
    decide +kernel
  refine ⟨_, _, hrun, ?_, ?_⟩
  · intro hjudged
    have hlast := hjudged _ _ _ _ htrace
    exact absurd (List.mem_singleton.mpr rfl) (hlast.mpr ⟨["alice", "bob"], by decide +kernel, by decide⟩)
  · intro hjudged
    have hlast := hjudged _ _ _ _ htrace
    exact absurd (List.mem_singleton.mpr rfl) (hlast.mpr ⟨["alice", "bob"], by decide +kernel, by decide⟩)

end Runs

end Dsip.Messaging.SuccessorTracker
