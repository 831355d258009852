import Dsip.Engine.Contacts

/-!
# What ending and rotating do to the presence keys

Each function about ending a grant, rotating a scope and re-granting has one
lemma that says everything it does: which scopes become due (`Marks`), which
scopes rotate (`rotated_spec`), and which grants are followed by new ones
(`Followed`).
-/

namespace Dsip.Engine.Contacts

open Dsip.Lib

variable {c : Contacts} {now : Nat}

/-! ## Becoming due -/

/-- The scopes of `P` are due, those that were not from now on as the rate
limit allows. -/
structure Marks (c : Contacts) (now : Nat) (P : String → Prop) (due : Dict String Nat) : Prop where
  marked : ∀ scope, P scope → due.lookup scope = some ((c.due.lookup scope).getD (c.rotatesAt now scope))
  others : ∀ scope, ¬ P scope → due.lookup scope = c.due.lookup scope

variable {P : String → Prop} {due : Dict String Nat}

theorem Marks.kept (h : Marks c now P due) {scope : String} {at' : Nat} (hd : c.due.lookup scope = some at') :
    due.lookup scope = some at' := by
  by_cases hp : P scope
  · rw [h.marked scope hp, hd]
    rfl
  · rw [h.others scope hp, hd]

theorem Marks.origin (h : Marks c now P due) {scope : String} {at' : Nat} (hd : due.lookup scope = some at') :
    c.due.lookup scope = some at' ∨ (P scope ∧ at' = c.rotatesAt now scope) := by
  by_cases hp : P scope
  · rw [h.marked scope hp] at hd
    cases hold : c.due.lookup scope with
    | some t =>
      rw [hold] at hd
      exact .inl hd
    | none =>
      rw [hold] at hd
      exact .inr ⟨hp, (Option.some.inj hd).symm⟩
  · rw [h.others scope hp] at hd
    exact .inl hd

theorem Marks.congr {Q : String → Prop} (h : Marks c now P due)
    (hpq : ∀ scope, P scope ↔ Q scope) : Marks c now Q due :=
  ⟨fun scope hq => h.marked scope ((hpq scope).mpr hq),
    fun scope hq => h.others scope fun hp => hq ((hpq scope).mp hp)⟩

theorem Marks.trans {Q : String → Prop} {due' : Dict String Nat} (h : Marks c now P due)
    (h' : Marks { c with due := due } now Q due') :
    Marks c now (fun scope => P scope ∨ Q scope) due' := by
  constructor
  · intro scope hpq
    by_cases hq : Q scope
    · refine (h'.marked scope hq).trans (congrArg some ?_)
      show (due.lookup scope).getD (c.rotatesAt now scope) = _
      by_cases hp : P scope
      · rw [h.marked scope hp]
        rfl
      · rw [h.others scope hp]
    · rw [h'.others scope hq]
      exact h.marked scope (hpq.resolve_right hq)
  · intro scope hpq
    rw [not_or] at hpq
    rw [h'.others scope hpq.2]
    exact h.others scope hpq.1

theorem makeDue_spec (now : Nat) (keep : List String) (c : Contacts) (scope : String) :
    ∃ due, makeDue now keep c scope = { c with due := due } ∧
      Marks c now (fun k => k = scope ∧ k ∉ keep) due := by
  unfold makeDue
  split
  case isTrue h =>
    refine ⟨c.due, rfl, ?_, fun _ _ => rfl⟩
    rintro k ⟨rfl, hk⟩
    obtain ⟨t, ht⟩ := Dict.mem_iff_lookup.mp (h.resolve_left hk)
    rw [ht]
    rfl
  case isFalse h =>
    rw [not_or] at h
    refine ⟨_, rfl, ?_, ?_⟩
    · rintro k ⟨rfl, -⟩
      rw [AList.lookup_insert, AList.lookup_eq_none.mpr h.2]
      rfl
    · intro k hk
      refine AList.lookup_insert_ne ?_
      rintro rfl
      exact hk ⟨rfl, h.1⟩

theorem makeDues_spec (now : Nat) (keep keys : List String) (c : Contacts) :
    ∃ due, keys.foldl (makeDue now keep) c = { c with due := due } ∧
      Marks c now (fun k => k ∈ keys ∧ k ∉ keep) due := by
  induction keys generalizing c with
  | nil => exact ⟨c.due, rfl, fun _ h => absurd h.1 List.not_mem_nil, fun _ _ => rfl⟩
  | cons scope keys ih =>
    obtain ⟨due, hdue, hm⟩ := makeDue_spec now keep c scope
    obtain ⟨due', hdue', hm'⟩ := ih { c with due := due }
    refine ⟨due', ?_, (hm.trans hm').congr fun k => ?_⟩
    · rw [List.foldl_cons, hdue, hdue']
    · rw [List.mem_cons]
      tauto

theorem endGrant_spec (c : Contacts) (now : Nat) (g : GrantIssued) (keep : List String) :
    ∃ due, c.endGrant now g keep = { c with due := due } ∧
      Marks c now (fun k => g.ended = false ∧ k ∈ g.keys ∧ k ∉ keep) due := by
  unfold endGrant
  cases hg : g.ended with
  | true => exact ⟨c.due, rfl, fun _ h => absurd h.1 (by simp), fun _ _ => rfl⟩
  | false =>
    obtain ⟨due, hdue, hm⟩ := makeDues_spec now keep g.keys c
    exact ⟨due, hdue, hm.congr fun k => by simp⟩

/-! ## Lapsing -/

/-- The grant is running and past its `valid_until`. -/
def Lapses (now : Nat) (g : GrantIssued) : Prop := GrantIssued.Running g ∧ g.validUntil ≤ now

instance (now : Nat) : DecidablePred (Lapses now) := fun _ => inferInstanceAs (Decidable (_ ∧ _))

/-- What the round of lapses makes of a grant. -/
def lapse (now : Nat) (g : GrantIssued) : GrantIssued :=
  if Lapses now g then { g with ended := true } else g

/-- A scope whose key a lapsing grant carries. -/
def LapsesWith (c : Contacts) (now : Nat) (gids : List String) (scope : String) : Prop :=
  ∃ gid ∈ gids, ∃ g, c.grantsIssued.lookup gid = some g ∧ Lapses now g ∧ scope ∈ g.keys

theorem endIfLapsed_spec (now : Nat) (c : Contacts) (gid : String) :
    ∃ due issued, endIfLapsed now c gid = { c with due := due, grantsIssued := issued } ∧
      (∀ k, issued.lookup k =
        if k = gid then (c.grantsIssued.lookup k).map (lapse now) else c.grantsIssued.lookup k) ∧
      Marks c now (LapsesWith c now [gid]) due := by
  have hnone : ∀ {P : String → Prop}, (∀ k, ¬ P k) → Marks c now P c.due :=
    fun h => ⟨fun k hk => absurd hk (h k), fun _ _ => rfl⟩
  unfold endIfLapsed
  cases hg : c.grantsIssued.lookup gid with
  | none =>
    refine ⟨c.due, c.grantsIssued, rfl, ?_, hnone ?_⟩
    · intro k
      split
      case isTrue hk => rw [hk, hg, Option.map_none]
      case isFalse => rfl
    · rintro k ⟨gid', hmem, g, hg', -⟩
      rw [List.mem_singleton.mp hmem, hg] at hg'
      cases hg'
  | some g =>
    dsimp only
    split
    case isTrue hl =>
      obtain ⟨due, hdue, hm⟩ := endGrant_spec
        { c with grantsIssued := c.grantsIssued.insert gid { g with ended := true } } now g []
      refine ⟨due, _, hdue, ?_, ?_⟩
      · intro k
        rw [Dict.lookup_insert_eq]
        split
        case isTrue hk =>
          rw [hk, hg, Option.map_some, lapse, if_pos (show Lapses now g from hl)]
        case isFalse => rfl
      · refine Marks.congr (c := c) ⟨hm.marked, hm.others⟩ fun k => ?_
        constructor
        · rintro ⟨-, hk, -⟩
          exact ⟨gid, List.mem_singleton_self gid, g, hg, hl, hk⟩
        · rintro ⟨gid', hmem, g', hg', -, hk⟩
          rw [List.mem_singleton.mp hmem, hg] at hg'
          obtain rfl := Option.some.inj hg'
          exact ⟨hl.1.2, hk, List.not_mem_nil⟩
    case isFalse hl =>
      refine ⟨c.due, c.grantsIssued, rfl, ?_, hnone ?_⟩
      · intro k
        split
        case isTrue hk => rw [hk, hg, Option.map_some, lapse, if_neg (show ¬ Lapses now g from hl)]
        case isFalse => rfl
      · rintro k ⟨gid', hmem, g', hg', hl', -⟩
        rw [List.mem_singleton.mp hmem, hg] at hg'
        obtain rfl := Option.some.inj hg'
        exact hl hl'

variable {gids : List String}

theorem endEach_spec {now : Nat} (hn : gids.Nodup) (c : Contacts) :
    ∃ due issued, gids.foldl (endIfLapsed now) c = { c with due := due, grantsIssued := issued } ∧
      (∀ k, issued.lookup k =
        if k ∈ gids then (c.grantsIssued.lookup k).map (lapse now) else c.grantsIssued.lookup k) ∧
      Marks c now (LapsesWith c now gids) due := by
  induction gids generalizing c with
  | nil =>
    refine ⟨c.due, c.grantsIssued, rfl, by simp, ?_, fun _ _ => rfl⟩
    rintro k ⟨gid, hmem, -⟩
    exact absurd hmem List.not_mem_nil
  | cons gid gids ih =>
    obtain ⟨hgid, hn⟩ := List.nodup_cons.mp hn
    obtain ⟨due, issued, hone, hissued, hm⟩ := endIfLapsed_spec now c gid
    obtain ⟨due', issued', hrest, hissued', hm'⟩ := ih hn { c with due := due, grantsIssued := issued }
    refine ⟨due', issued', ?_, ?_, ?_⟩
    · rw [List.foldl_cons, hone, hrest]
    · intro k
      rw [hissued', hissued]
      by_cases hk : k = gid
      · subst hk
        simp [hgid]
      · simp [hk]
    · have hlater : Marks { c with due := due } now (LapsesWith c now gids) due' := by
        refine Marks.congr ⟨hm'.marked, hm'.others⟩ fun k => ?_
        refine exists_congr fun gid' => and_congr_right fun hmem => exists_congr fun g => ?_
        have hne : gid' ≠ gid := fun he => hgid (he ▸ hmem)
        show issued.lookup gid' = some g ∧ _ ↔ _
        rw [hissued, if_neg hne]
      refine (hm.trans hlater).congr fun k => ?_
      constructor
      · rintro (⟨gid', hmem, h⟩ | ⟨gid', hmem, h⟩)
        · exact ⟨gid', List.mem_cons.mpr (.inl (List.mem_singleton.mp hmem)), h⟩
        · exact ⟨gid', List.mem_cons_of_mem gid hmem, h⟩
      · rintro ⟨gid', hmem, h⟩
        rcases List.mem_cons.mp hmem with rfl | hmem
        · exact .inl ⟨gid', List.mem_singleton_self gid', h⟩
        · exact .inr ⟨gid', hmem, h⟩

theorem endLapsed_spec (c : Contacts) (now : Nat) :
    ∃ due issued, c.endLapsed now = { c with due := due, grantsIssued := issued } ∧
      (∀ k, issued.lookup k = (c.grantsIssued.lookup k).map (lapse now)) ∧
      Marks c now (fun scope => ∃ gid g, c.grantsIssued.lookup gid = some g ∧ Lapses now g ∧
        scope ∈ g.keys) due := by
  obtain ⟨due, issued, he, hissued, hm⟩ := @endEach_spec _ now (Dict.nodup_sortedKeys c.grantsIssued) c
  refine ⟨due, issued, he, ?_, hm.congr fun scope => ?_⟩
  · intro k
    rw [hissued]
    split
    case isTrue => rfl
    case isFalse hk =>
      rw [Dict.mem_sortedKeys, ← AList.lookup_eq_none] at hk
      rw [hk, Option.map_none]
  · constructor
    · rintro ⟨gid, -, g, h⟩
      exact ⟨gid, g, h⟩
    · rintro ⟨gid, g, h⟩
      exact ⟨gid, Dict.mem_sortedKeys.mpr (Dict.mem_iff_lookup.mpr ⟨g, h.1⟩), g, h⟩

/-! ## Rotating -/

theorem mem_dueNow {scope : String} :
    scope ∈ c.dueNow now ↔ ∃ at', c.due.lookup scope = some at' ∧ at' ≤ now := by
  have hmem : scope ∈ c.due.sortedKeys.filter (fun k => (c.due.lookup k).any (· ≤ now)) ↔
      ∃ at', c.due.lookup scope = some at' ∧ at' ≤ now := by
    rw [List.mem_filter, Dict.mem_sortedKeys]
    constructor
    · rintro ⟨-, hany⟩
      obtain ⟨t, ht, hle⟩ := (Option.any_eq_true _ _).mp hany
      exact ⟨t, ht, of_decide_eq_true hle⟩
    · rintro ⟨t, ht, hle⟩
      exact ⟨Dict.mem_iff_lookup.mpr ⟨t, ht⟩, by simp [ht, hle]⟩
  rw [← hmem]
  unfold dueNow
  dsimp only
  rw [List.mem_append, List.mem_filter, List.mem_filter]
  by_cases hmain : scope = "main" <;> simp [hmain]

theorem nodup_dueNow (c : Contacts) (now : Nat) : (c.dueNow now).Nodup := by
  have hn := (Dict.nodup_sortedKeys c.due).filter fun k => (c.due.lookup k).any (· ≤ now)
  unfold dueNow
  dsimp only
  rw [List.nodup_append]
  refine ⟨hn.filter _, hn.filter _, ?_⟩
  rintro a ha b hb rfl
  have h₁ := (List.mem_filter.mp ha).2
  have h₂ := (List.mem_filter.mp hb).2
  simp_all

/-- The epoch a scope rotates to. -/
def nextEpoch (c : Contacts) (scope : String) : Nat := (c.epochs.lookup scope).getD 0 + 1

variable {scopes : List String}

theorem rotated_spec (c : Contacts) (now : Nat) (hn : scopes.Nodup) :
    ∃ due epochs lastRotated, (foldEmit (rotate now) c scopes).1 =
        { c with due := due, epochs := epochs, lastRotated := lastRotated } ∧
      (∀ k, due.lookup k = if k ∈ scopes then none else c.due.lookup k) ∧
      (∀ k, epochs.lookup k = if k ∈ scopes then some (c.nextEpoch k) else c.epochs.lookup k) ∧
      (∀ k, lastRotated.lookup k = if k ∈ scopes then some now else c.lastRotated.lookup k) ∧
      (foldEmit (rotate now) c scopes).2 = scopes.map fun k => .keysRotated k (c.nextEpoch k) := by
  induction scopes generalizing c with
  | nil => exact ⟨c.due, c.epochs, c.lastRotated, rfl, by simp, by simp, by simp, rfl⟩
  | cons scope scopes ih =>
    obtain ⟨hs, hn⟩ := List.nodup_cons.mp hn
    obtain ⟨due, epochs, last, he, hdue, hepochs, hlast, hout⟩ := ih (rotate now c scope).1 hn
    rw [foldEmit_cons]
    refine ⟨due, epochs, last, he, ?_, ?_, ?_, ?_⟩
    · intro k
      rw [hdue]
      simp only [rotate, Dict.lookup_erase_eq, List.mem_cons]
      by_cases hk : k = scope <;> simp [hk]
    · intro k
      rw [hepochs]
      simp only [rotate, nextEpoch, Dict.lookup_insert_eq, List.mem_cons]
      by_cases hk : k = scope
      · subst hk
        simp [hs]
      · simp [hk]
    · intro k
      rw [hlast]
      simp only [rotate, Dict.lookup_insert_eq, List.mem_cons]
      by_cases hk : k = scope
      · subst hk
        simp [hs]
      · simp [hk]
    · dsimp only
      rw [hout, List.map_cons]
      simp only [rotate, nextEpoch, List.singleton_append, List.cons.injEq, true_and]
      apply List.map_congr_left
      intro k hk
      have hne : k ≠ scope := fun h => hs (h ▸ hk)
      rw [Dict.lookup_insert_eq, if_neg hne]

/-! ## Issuing -/

/-- What holds of the grants between two calls. -/
structure Standing (c : Contacts) : Prop where
  keys : ∀ gid g, c.grantsIssued.lookup gid = some g → g.keys = c.keyScopes g.scope g.audience
  epochs : ∀ gid g, c.grantsIssued.lookup gid = some g → ∀ k ∈ g.keys, k ∈ c.epochs
  distinct : c.grantIds.Nodup
  unused : ∀ id ∈ c.grantIds, id ∉ c.grantsIssued

theorem lookup_startEpochs (keys : List String) (epochs : Dict String Nat) (k : String) :
    (keys.foldl startEpoch epochs).lookup k = (epochs.lookup k).or (if k ∈ keys then some 0 else none) := by
  induction keys generalizing epochs with
  | nil => simp
  | cons scope keys ih =>
    rw [List.foldl_cons, ih]
    unfold startEpoch
    split
    case isTrue hs =>
      by_cases hk : k = scope
      · subst hk
        obtain ⟨e, he⟩ := Dict.mem_iff_lookup.mp hs
        rw [he]
        rfl
      · simp [hk]
    case isFalse hs =>
      rw [Dict.lookup_insert_eq]
      by_cases hk : k = scope
      · subst hk
        rw [AList.lookup_eq_none.mpr hs]
        simp
      · simp [hk]

theorem startEpochs_of_mem {keys : List String} {epochs : Dict String Nat}
    (h : ∀ k ∈ keys, k ∈ epochs) : keys.foldl startEpoch epochs = epochs := by
  induction keys with
  | nil => rfl
  | cons scope keys ih =>
    rw [List.foldl_cons, startEpoch, if_pos (h scope List.mem_cons_self)]
    exact ih fun k hk => h k (List.mem_cons_of_mem scope hk)

theorem Standing.issue (hs : Standing c) {gid grantee introduction : String} {scope : List String}
    {validUntil : Nat} {audience : Option String} {chain : List String} (hnew : gid ∉ c.grantIds) :
    Standing (c.issueGrant gid grantee scope validUntil introduction audience chain).1 := by
  have hepochs : ∀ k, k ∈ c.epochs → k ∈ (c.keyScopes scope audience).foldl startEpoch c.epochs := by
    intro k hk
    obtain ⟨e, he⟩ := Dict.mem_iff_lookup.mp hk
    exact Dict.mem_iff_lookup.mpr ⟨e, by rw [lookup_startEpochs, he]; rfl⟩
  constructor
  · intro gid' g hg
    replace hg : (c.grantsIssued.insert gid _).lookup gid' = some g := hg
    rw [Dict.lookup_insert_eq] at hg
    split at hg
    case isTrue =>
      obtain rfl := Option.some.inj hg
      rfl
    case isFalse => exact hs.keys gid' g hg
  · intro gid' g hg k hk
    replace hg : (c.grantsIssued.insert gid _).lookup gid' = some g := hg
    rw [Dict.lookup_insert_eq] at hg
    split at hg
    case isTrue =>
      obtain rfl := Option.some.inj hg
      refine Dict.mem_iff_lookup.mpr ?_
      show ∃ e, ((c.keyScopes scope audience).foldl startEpoch c.epochs).lookup k = some e
      rw [lookup_startEpochs, if_pos hk]
      cases c.epochs.lookup k with
      | none => exact ⟨0, rfl⟩
      | some e => exact ⟨e, rfl⟩
    case isFalse => exact hepochs k (hs.epochs gid' g hg k hk)
  · exact hs.distinct
  · intro id hid hin
    replace hin : id ∈ c.grantsIssued.insert gid _ := hin
    rcases (AList.mem_insert _).mp hin with rfl | hin
    · exact hnew hid
    · exact hs.unused id hid hin

/-! ## Following -/

/-- A live grant carrying a key of one of the scopes. -/
def Carrying (now : Nat) (scopes : List String) (g : GrantIssued) : Prop :=
  now < g.validUntil ∧ ∃ k ∈ g.keys, k ∈ scopes

/-- The grant that follows a grant. -/
def follower (gid : String) (g : GrantIssued) : GrantIssued :=
  { g with chain := gid :: g.chain, ended := false }

/-- How it is sent: the same permission, and the keys at their epochs. -/
def followMsg (epochs : Dict String Nat) (gid id : String) (g : GrantIssued) : ContactEmit :=
  .sendGrant g.grantee gid id g.scope g.validUntil g.audience
    (some (g.keys.map (keyName epochs)))

/-- The grants of the list that carry a key of the scopes are followed, and
nothing else changes. -/
structure Followed (c : Contacts) (now : Nat) (scopes gids : List String) (c' : Contacts)
    (out : List ContactEmit) : Prop where
  frame : ∃ issued ids, c' = { c with grantsIssued := issued, grantIds := ids }
  followed : ∀ gid ∈ gids, ∀ g, c.grantsIssued.lookup gid = some g → Carrying now scopes g →
    ∃ id, c'.grantsIssued.lookup id = some (follower gid g) ∧ followMsg c.epochs gid id g ∈ out
  kept : ∀ gid g, c.grantsIssued.lookup gid = some g → (gid ∉ gids ∨ ¬ Carrying now scopes g) →
    c'.grantsIssued.lookup gid = some g
  origin : ∀ id g', c'.grantsIssued.lookup id = some g' →
    (c.grantsIssued.lookup id = some g' ∧ ¬ (id ∈ gids ∧ Carrying now scopes g')) ∨
    ∃ gid ∈ gids, ∃ g, c.grantsIssued.lookup gid = some g ∧ Carrying now scopes g ∧
      g' = follower gid g ∧ followMsg c.epochs gid id g ∈ out
  sent : ∀ x ∈ out, ∃ gid ∈ gids, ∃ g id, c.grantsIssued.lookup gid = some g ∧
    Carrying now scopes g ∧ x = followMsg c.epochs gid id g ∧
    c'.grantsIssued.lookup id = some (follower gid g)
  /-- The ids are the pool's. -/
  pooled : ∀ id g', c'.grantsIssued.lookup id = some g' → c.grantsIssued.lookup id = some g' ∨ id ∈ c.grantIds
  standing : Standing c'

theorem Followed.of_none (hs : Standing c)
    (h : ∀ gid ∈ gids, ∀ g, c.grantsIssued.lookup gid = some g → ¬ Carrying now scopes g) :
    Followed c now scopes gids c [] where
  frame := ⟨_, _, rfl⟩
  followed gid hgid g hg hc := absurd hc (h gid hgid g hg)
  kept _ _ hg _ := hg
  origin id g' hg := .inl ⟨hg, fun hc => h id hc.1 g' hg hc.2⟩
  sent _ hx := absurd hx List.not_mem_nil
  pooled _ _ hg := .inl hg
  standing := hs

theorem Followed.skip {gid : String} {c' : Contacts}
    {out : List ContactEmit} (hf : Followed c now scopes gids c' out)
    (h : ∀ g, c.grantsIssued.lookup gid = some g → ¬ Carrying now scopes g) :
    Followed c now scopes (gid :: gids) c' out where
  frame := hf.frame
  followed gid' hgid' g hg hc := by
    rcases List.mem_cons.mp hgid' with rfl | hgid'
    · exact absurd hc (h g hg)
    · exact hf.followed gid' hgid' g hg hc
  kept gid' g hg hno := by
    refine hf.kept gid' g hg (hno.imp_left fun h => ?_)
    exact fun hin => h (List.mem_cons_of_mem gid hin)
  origin id g' hg' := by
    rcases hf.origin id g' hg' with ⟨hg, hno⟩ | ⟨gid', hgid', rest⟩
    · refine .inl ⟨hg, ?_⟩
      rintro ⟨hin, hc⟩
      rcases List.mem_cons.mp hin with rfl | hin
      · exact h g' hg hc
      · exact hno ⟨hin, hc⟩
    · exact .inr ⟨gid', List.mem_cons_of_mem gid hgid', rest⟩
  sent x hx := by
    obtain ⟨gid', hgid', rest⟩ := hf.sent x hx
    exact ⟨gid', List.mem_cons_of_mem gid hgid', rest⟩
  pooled := hf.pooled
  standing := hf.standing

/-- The contacts when one grant has been followed. -/
def followOne (c : Contacts) (gid next : String) (rest : List String) (g : GrantIssued) : Contacts :=
  { c with
    grantsIssued := (c.grantsIssued.erase gid).insert next (follower gid g)
    grantIds := rest }

theorem followOne_eq (hs : Standing c) {gid next : String} {rest : List String} {g : GrantIssued}
    (hg : c.grantsIssued.lookup gid = some g) (hne : g.keys ≠ []) :
    issueGrant { c with grantsIssued := c.grantsIssued.erase gid, grantIds := rest } next g.grantee
        g.scope g.validUntil gid g.audience (gid :: g.chain) =
      (c.followOne gid next rest g, [followMsg c.epochs gid next g]) := by
  have hkeys : keyScopes { c with grantsIssued := c.grantsIssued.erase gid, grantIds := rest }
      g.scope g.audience = g.keys := (hs.keys gid g hg).symm
  unfold issueGrant followOne followMsg follower
  simp only [hkeys, startEpochs_of_mem (hs.epochs gid g hg), if_neg hne]

theorem lookup_followOne (gid next : String) (rest : List String) (g : GrantIssued) (k : String) :
    (c.followOne gid next rest g).grantsIssued.lookup k =
      if k = next then some (follower gid g) else if k = gid then none
        else c.grantsIssued.lookup k := by
  show ((c.grantsIssued.erase gid).insert next (follower gid g)).lookup k = _
  rw [Dict.lookup_insert_eq, Dict.lookup_erase_eq]

theorem Standing.followOne (hs : Standing c) {gid next : String} {rest : List String}
    {g : GrantIssued} (hids : c.grantIds = next :: rest) (hg : c.grantsIssued.lookup gid = some g) :
    Standing (c.followOne gid next rest g) := by
  have hgrant : ∀ k g', (c.followOne gid next rest g).grantsIssued.lookup k = some g' →
      g' = follower gid g ∨ c.grantsIssued.lookup k = some g' := by
    intro k g' hg'
    rw [lookup_followOne] at hg'
    split at hg'
    case isTrue => exact .inl (Option.some.inj hg').symm
    case isFalse =>
      split at hg'
      case isTrue => cases hg'
      case isFalse => exact .inr hg'
  have hdistinct := hs.distinct
  rw [hids] at hdistinct
  obtain ⟨hnext, hrest⟩ := List.nodup_cons.mp hdistinct
  constructor
  · intro k g' hg'
    rcases hgrant k g' hg' with rfl | hg'
    · exact hs.keys gid g hg
    · exact hs.keys k g' hg'
  · intro k g' hg'
    rcases hgrant k g' hg' with rfl | hg'
    · exact hs.epochs gid g hg
    · exact hs.epochs k g' hg'
  · exact hrest
  · intro id hid hin
    replace hin : id ∈ (c.grantsIssued.erase gid).insert next (follower gid g) := hin
    rcases (AList.mem_insert _).mp hin with rfl | hin
    · exact hnext hid
    · refine hs.unused id ?_ (AList.mem_erase.mp hin).2
      rw [hids]
      exact List.mem_cons_of_mem next hid

theorem Followed.cons (hs : Standing c) {gid next : String}
    {rest : List String} {g : GrantIssued} {c' : Contacts} {out : List ContactEmit}
    (hids : c.grantIds = next :: rest) (hg : c.grantsIssued.lookup gid = some g)
    (hcarrying : Carrying now scopes g) (hgid : gid ∉ gids) (hnext : next ∉ gids)
    (hf : Followed (c.followOne gid next rest g) now scopes gids c' out) :
    Followed c now scopes (gid :: gids) c' (followMsg c.epochs gid next g :: out) := by
  have hnew : next ∉ c.grantsIssued := hs.unused next (by rw [hids]; exact List.mem_cons_self)
  have hsame : ∀ k, k ≠ gid → k ≠ next →
      (c.followOne gid next rest g).grantsIssued.lookup k = c.grantsIssued.lookup k := by
    intro k h₁ h₂
    rw [lookup_followOne, if_neg h₂, if_neg h₁]
  have hother : ∀ k ∈ gids, k ≠ gid ∧ k ≠ next :=
    fun k hk => ⟨fun h => hgid (h ▸ hk), fun h => hnext (h ▸ hk)⟩
  have hown : c'.grantsIssued.lookup next = some (follower gid g) := by
    apply hf.kept next _ _ (.inl hnext)
    rw [lookup_followOne, if_pos rfl]
  constructor
  · obtain ⟨issued, ids, he⟩ := hf.frame
    exact ⟨issued, ids, he⟩
  · intro k hk g' hg' hc
    rcases List.mem_cons.mp hk with rfl | hk
    · rw [hg] at hg'
      obtain rfl := Option.some.inj hg'
      exact ⟨next, hown, List.mem_cons_self⟩
    · have hlookup := hsame k (hother k hk).1 (hother k hk).2
      obtain ⟨id, hid, hmsg⟩ := hf.followed k hk g' (hlookup.trans hg') hc
      exact ⟨id, hid, List.mem_cons_of_mem _ hmsg⟩
  · intro k g' hg' hno
    have hk : k ≠ gid := by
      rintro rfl
      rw [hg] at hg'
      obtain rfl := Option.some.inj hg'
      exact hno.elim (fun h => h List.mem_cons_self) fun h => h hcarrying
    have hk' : k ≠ next := fun h => hnew (h ▸ Dict.mem_iff_lookup.mpr ⟨g', hg'⟩)
    refine hf.kept k g' ((hsame k hk hk').trans hg') (hno.imp_left fun h => ?_)
    exact fun hin => h (List.mem_cons_of_mem gid hin)
  · intro id g' hg'
    rcases hf.origin id g' hg' with ⟨hold, hno⟩ | ⟨k, hk, g₀, hg₀, hc, he, hmsg⟩
    · rw [lookup_followOne] at hold
      split at hold
      case isTrue hid =>
        subst hid
        obtain rfl := Option.some.inj hold
        exact .inr ⟨gid, List.mem_cons_self, g, hg, hcarrying, rfl, List.mem_cons_self⟩
      case isFalse =>
        split at hold
        case isTrue => cases hold
        case isFalse hne =>
          refine .inl ⟨hold, ?_⟩
          rintro ⟨hin, hc⟩
          exact hno ⟨(List.mem_cons.mp hin).resolve_left hne, hc⟩
    · rw [hsame k (hother k hk).1 (hother k hk).2] at hg₀
      exact .inr ⟨k, List.mem_cons_of_mem gid hk, g₀, hg₀, hc, he, List.mem_cons_of_mem _ hmsg⟩
  · intro x hx
    rcases List.mem_cons.mp hx with rfl | hx
    · exact ⟨gid, List.mem_cons_self, g, next, hg, hcarrying, rfl, hown⟩
    · obtain ⟨k, hk, g₀, id, hg₀, hc, he, hid⟩ := hf.sent x hx
      rw [hsame k (hother k hk).1 (hother k hk).2] at hg₀
      exact ⟨k, List.mem_cons_of_mem gid hk, g₀, id, hg₀, hc, he, hid⟩
  · intro id g' hg'
    rw [hids]
    rcases hf.pooled id g' hg' with hold | hin
    · rw [lookup_followOne] at hold
      split at hold
      case isTrue hid => exact .inr (hid ▸ List.mem_cons_self)
      case isFalse =>
        split at hold
        case isTrue => cases hold
        case isFalse => exact .inl hold
    · exact .inr (List.mem_cons_of_mem next hin)
  · exact hf.standing

theorem regrantEach_spec (hn : gids.Nodup) {c : Contacts}
    (hs : Standing c) (hids : ∀ gid ∈ gids, gid ∉ c.grantIds) {r : Contacts × List ContactEmit}
    (h : regrantEach now scopes c gids = .ok r) : Followed c now scopes gids r.1 r.2 := by
  induction gids generalizing c r with
  | nil =>
    obtain rfl := Except.ok.inj h
    exact .of_none hs fun _ hgid => absurd hgid List.not_mem_nil
  | cons gid gids ih =>
    obtain ⟨hgid, hn⟩ := List.nodup_cons.mp hn
    have hids' : ∀ k ∈ gids, k ∉ c.grantIds := fun k hk => hids k (List.mem_cons_of_mem gid hk)
    unfold regrantEach at h
    split at h
    case h_1 hnone =>
      refine (ih hn hs hids' h).skip ?_
      intro g hg
      rw [hnone] at hg
      cases hg
    case h_2 g hg =>
      split at h
      case isTrue hskip =>
        refine (ih hn hs hids' h).skip ?_
        intro g' hg' hc
        rw [hg] at hg'
        obtain rfl := Option.some.inj hg'
        obtain ⟨hlive, k, hk, hin⟩ := hc
        rcases hskip with hdead | hnone
        · exact absurd hlive (not_lt.mpr hdead)
        · exact hnone (List.any_eq_true.mpr ⟨k, hk, decide_eq_true hin⟩)
      case isFalse hgo =>
        rw [not_or, not_le, not_not, List.any_eq_true] at hgo
        obtain ⟨hlive, k, hk, hin⟩ := hgo
        have hcarrying : Carrying now scopes g := ⟨hlive, k, hk, of_decide_eq_true hin⟩
        split at h
        case h_1 => cases h
        case h_2 next rest hpool =>
          rw [followOne_eq hs hg (List.ne_nil_of_mem hk)] at h
          dsimp only at h
          cases hrest : regrantEach now scopes (c.followOne gid next rest g) gids with
          | error fault =>
            rw [hrest] at h
            cases h
          | ok q =>
            rw [hrest] at h
            obtain rfl := Except.ok.inj h
            have hnext : next ∉ gids := by
              intro hin
              exact hids' next hin (by rw [hpool]; exact List.mem_cons_self)
            have hlater : ∀ k ∈ gids, k ∉ (c.followOne gid next rest g).grantIds := by
              intro k hk hin
              exact hids' k hk (by rw [hpool]; exact List.mem_cons_of_mem next hin)
            have htail := ih hn (hs.followOne hpool hg) hlater hrest
            exact Followed.cons hs hpool hg hcarrying hgid hnext htail

theorem regrantCarrying_spec (hs : Standing c)
    {r : Contacts × List ContactEmit} (h : c.regrantCarrying now scopes = .ok r) :
    Followed c now scopes c.grantsIssued.sortedKeys r.1 r.2 := by
  unfold regrantCarrying at h
  split at h
  case isTrue hnone =>
    obtain rfl := Except.ok.inj h
    refine .of_none hs ?_
    rintro gid - g - ⟨-, k, -, hin⟩
    rw [hnone] at hin
    exact absurd hin List.not_mem_nil
  case isFalse =>
    refine regrantEach_spec (Dict.nodup_sortedKeys _) hs ?_ h
    intro gid hgid hin
    exact hs.unused gid hin (Dict.mem_sortedKeys.mp hgid)

end Dsip.Engine.Contacts
