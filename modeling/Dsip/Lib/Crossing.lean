import Mathlib.Tactic

/-!
# Invitations that cross

Two sides invite each other over two FIFO channels, any number of times, under
names of a linear order. A side that receives an invitation while one of its own
is live compares names: if one of its own is smaller the other side's is
rejected, else each of its own is cancelled and the other side's is held. Each
side decides from what it has seen, so cancels and rejections cross too.

The fate of one invitation is a chain of `Phase`s: what either side records and
what is in flight about it. Over all invitations two more facts carry the proof.
The two sides never both hold one of the other (`Inv.apart`), and the invitation
with the smallest name so far is live (`Inv.least`).
-/

namespace Dsip.Lib.Crossing

inductive Life where
  | live
  | over
  deriving DecidableEq, Repr

inductive Note (K : Type*) where
  | invite (k : K)
  | cancel (k : K)
  | reject (k : K)
  deriving DecidableEq, Repr

variable {K : Type*}

def Note.name : Note K → K
  | .invite k | .cancel k | .reject k => k

/-- What a side records of its own invitations and of those it received. -/
@[ext] structure Side (K : Type*) where
  mine : K → Option Life
  theirs : K → Option Life

/-- Both sides, and the notes in flight from `x` (`there`) and to it (`back`),
oldest first. -/
structure Pair (K : Type*) where
  x : Side K
  y : Side K
  there : List (Note K)
  back : List (Note K)

def Pair.swap (p : Pair K) : Pair K := ⟨p.y, p.x, p.back, p.there⟩

variable {n : Note K}

section About

variable [DecidableEq K]

/-- The notes about one invitation. -/
def about (k : K) (notes : List (Note K)) : List (Note K) := notes.filter (·.name = k)

@[simp] theorem about_nil (k : K) : about k [] = [] := rfl

@[simp] theorem about_append (k : K) (l l' : List (Note K)) : about k (l ++ l') = about k l ++ about k l' :=
  List.filter_append ..

theorem about_cons_self {k : K} (h : n.name = k) (l : List (Note K)) : about k (n :: l) = n :: about k l := by
  simp [about, h]

theorem about_cons_ne {k : K} (h : n.name ≠ k) (l : List (Note K)) : about k (n :: l) = about k l := by
  simp [about, h]

theorem mem_about {k : K} {l : List (Note K)} : n ∈ about k l ↔ n ∈ l ∧ n.name = k := by
  simp [about]

theorem about_cancels {ls : List K} (h : ls.Nodup) (k : K) :
    about k (ls.map .cancel) = if k ∈ ls then [.cancel k] else [] := by
  induction ls with
  | nil => rfl
  | cons l ls ih =>
    obtain ⟨hl, hls⟩ := List.nodup_cons.mp h
    rw [List.map_cons]
    by_cases hk : l = k
    · subst hk
      have hself : (Note.cancel l).name = l := rfl
      rw [about_cons_self hself, ih hls, if_neg hl, if_pos List.mem_cons_self]
    · have hother : (Note.cancel l).name ≠ k := hk
      rw [about_cons_ne hother, ih hls]
      simp [Ne.symm hk]

end About

/-! ## The rules -/

variable [LinearOrder K]

/-- A side on a received note. -/
inductive Side.Receives (s : Side K) : Note K → Side K → List (Note K) → Prop
  /-- One of its own has the smaller name. -/
  | wins {k l : K} (hl : s.mine l = some .live) (hlt : l < k) :
      Receives s (.invite k) { s with theirs := Function.update s.theirs k (some .over) } [.reject k]
  /-- All of its own that are live are withdrawn. -/
  | yields {k : K} {ls : List K} (hmem : ∀ l, l ∈ ls ↔ s.mine l = some .live) (hnodup : ls.Nodup)
      (hleast : ∀ l ∈ ls, k < l) :
      Receives s (.invite k)
        ⟨fun l => if s.mine l = some .live then some .over else s.mine l,
          Function.update s.theirs k (some .live)⟩ (ls.map .cancel)
  | cancel {k : K} : Receives s (.cancel k) { s with theirs := Function.update s.theirs k (some .over) } []
  | reject {k : K} : Receives s (.reject k) { s with mine := Function.update s.mine k (some .over) } []

/-- One side invites under a new name, or receives the oldest note. -/
inductive Step (p : Pair K) : Pair K → Prop
  | invite {k : K} (hx : p.x.mine k = none) (hy : p.y.mine k = none) :
      Step p { p with
        x := { p.x with mine := Function.update p.x.mine k (some .live) }
        there := p.there ++ [.invite k] }
  | receive {n : Note K} {rest sent : List (Note K)} {x : Side K} (hn : p.back = n :: rest)
      (h : p.x.Receives n x sent) : Step p { p with x := x, back := rest, there := p.there ++ sent }

/-! ## The fate of an invitation -/

/-- What the inviter and the other side record of an invitation, and what is in
flight about it from the inviter and to it. -/
inductive Phase (k : K) : Option Life → Option Life → List (Note K) → List (Note K) → Prop
  | unplaced : Phase k none none [] []
  | invited : Phase k (some .live) none [.invite k] []
  | withdrawn : Phase k (some .over) none [.invite k, .cancel k] []
  | held : Phase k (some .live) (some .live) [] []
  | cancelling : Phase k (some .over) (some .live) [.cancel k] []
  | refusing : Phase k (some .live) (some .over) [] [.reject k]
  | ended {there back : List (Note K)} (ht : there = [] ∨ there = [.cancel k])
      (hb : back = [] ∨ back = [.reject k]) : Phase k (some .over) (some .over) there back

/-- The invitation `k` of the side `x`, seen from there. -/
structure Fate (p : Pair K) (k : K) : Prop where
  other : p.y.mine k = none
  own : p.x.theirs k = none
  phase : Phase k (p.x.mine k) (p.y.theirs k) (about k p.there) (about k p.back)

def Placed (p : Pair K) (k : K) : Prop := p.x.mine k ≠ none ∨ p.y.mine k ≠ none

structure Inv (p : Pair K) : Prop where
  fate : ∀ k, Fate p k ∨ Fate p.swap k
  /-- The sides do not both hold one of the other. -/
  apart : ∀ a b, p.x.mine a = some .live → p.y.theirs a = some .live → p.y.mine b = some .live →
    p.x.theirs b ≠ some .live
  /-- The smallest so far is live. -/
  least : ∀ w, Placed p w → (∀ k, Placed p k → w ≤ k) →
    (p.x.mine w = some .live ∧ p.y.theirs w ≠ some .over) ∨
      (p.y.mine w = some .live ∧ p.x.theirs w ≠ some .over)

theorem Inv.swap {p : Pair K} (h : Inv p) : Inv p.swap where
  fate k := (h.fate k).symm
  apart a b ha hb ha' hb' := h.apart b a ha' hb' ha hb
  least w hw hleast := (h.least w hw.symm fun k hk => hleast k hk.symm).symm

theorem inv_start : Inv (⟨⟨fun _ => none, fun _ => none⟩, ⟨fun _ => none, fun _ => none⟩, [], []⟩ : Pair K) where
  fate k := .inl ⟨rfl, rfl, .unplaced⟩
  apart a b ha := by cases ha
  least w hw := by rcases hw with hw | hw <;> exact absurd rfl hw

section Keeps

variable {p q : Pair K} {k : K}

/-- Nothing happened to an invitation. -/
structure Same (p q : Pair K) (k : K) : Prop where
  xMine : q.x.mine k = p.x.mine k
  xTheirs : q.x.theirs k = p.x.theirs k
  yMine : q.y.mine k = p.y.mine k
  yTheirs : q.y.theirs k = p.y.theirs k
  there : about k q.there = about k p.there
  back : about k q.back = about k p.back

theorem Same.fate (h : Same p q k) (hf : Fate p k) : Fate q k where
  other := h.yMine.trans hf.other
  own := h.xTheirs.trans hf.own
  phase := by
    rw [h.xMine, h.yTheirs, h.there, h.back]
    exact hf.phase

theorem Same.swap (h : Same p q k) : Same p.swap q.swap k :=
  ⟨h.yMine, h.yTheirs, h.xMine, h.xTheirs, h.back, h.there⟩

theorem Same.fates (h : Same p q k) (hf : Fate p k ∨ Fate p.swap k) : Fate q k ∨ Fate q.swap k :=
  hf.imp h.fate h.swap.fate

variable {rest : List (Note K)}

theorem Fate.rejected (h : Fate p k) (hback : p.back = n :: rest) (hn : n.name = k) :
    n = .reject k ∧ about k rest = [] ∧ p.x.mine k ≠ none ∧ p.y.theirs k = some .over ∧
      (about k p.there = [] ∨ about k p.there = [.cancel k]) := by
  have hphase := h.phase
  rw [hback, about_cons_self hn] at hphase
  generalize p.x.mine k = m, p.y.theirs k = t, about k p.there = there,
    hrest : n :: about k rest = back at hphase ⊢
  cases hphase with
  | refusing =>
    obtain ⟨rfl, hnil⟩ := List.cons.inj hrest
    exact ⟨rfl, hnil, by simp, rfl, .inl rfl⟩
  | ended ht hb =>
    rcases hb with rfl | rfl
    · cases hrest
    · obtain ⟨rfl, hnil⟩ := List.cons.inj hrest
      exact ⟨rfl, hnil, by simp, rfl, ht⟩
  | _ => cases hrest

theorem Fate.invited (h : Fate p k) (hthere : p.there = .invite k :: rest) :
    p.y.theirs k = none ∧ about k p.back = [] ∧ ((p.x.mine k = some .live ∧ about k rest = []) ∨
        (p.x.mine k = some .over ∧ about k rest = [.cancel k])) := by
  have hphase := h.phase
  have hself : (Note.invite k).name = k := rfl
  rw [hthere, about_cons_self hself] at hphase
  generalize p.x.mine k = m, p.y.theirs k = t, hrest : Note.invite k :: about k rest = there,
    about k p.back = back at hphase ⊢
  cases hphase with
  | invited => exact ⟨rfl, rfl, .inl ⟨rfl, (List.cons.inj hrest).2⟩⟩
  | withdrawn => exact ⟨rfl, rfl, .inr ⟨rfl, (List.cons.inj hrest).2⟩⟩
  | ended ht => rcases ht with rfl | rfl <;> cases hrest
  | _ => cases hrest

theorem Fate.cancelled (h : Fate p k) (hthere : p.there = .cancel k :: rest) :
    p.x.mine k = some .over ∧ p.y.theirs k ≠ none ∧ about k rest = [] ∧
      (about k p.back = [] ∨ about k p.back = [.reject k]) := by
  have hphase := h.phase
  have hself : (Note.cancel k).name = k := rfl
  rw [hthere, about_cons_self hself] at hphase
  generalize p.x.mine k = m, p.y.theirs k = t, hrest : Note.cancel k :: about k rest = there,
    about k p.back = back at hphase ⊢
  cases hphase with
  | cancelling => exact ⟨rfl, by simp, (List.cons.inj hrest).2, .inl rfl⟩
  | ended ht hb =>
    rcases ht with rfl | rfl
    · cases hrest
    · exact ⟨rfl, by simp, (List.cons.inj hrest).2, hb⟩
  | _ => cases hrest

theorem Inv.rejected (h : Inv p) (hback : p.back = .reject k :: rest) : Fate p k := by
  rcases h.fate k with hf | hf
  · exact hf
  · have hphase := hf.phase
    have hself : (Note.reject k).name = k := rfl
    have hthere : about k p.swap.there = .reject k :: about k rest :=
      (congrArg (about k) hback).trans (about_cons_self hself rest)
    rw [hthere] at hphase
    generalize p.swap.x.mine k = m, p.swap.y.theirs k = t, hrest : Note.reject k :: about k rest = there,
      about k p.swap.back = back at hphase
    cases hphase with
    | ended ht => rcases ht with rfl | rfl <;> cases hrest
    | _ => cases hrest

theorem Inv.addressed (h : Inv p) (hback : p.back = n :: rest)
    (hn : n.name = k) (hne : n ≠ .reject k) : Fate p.swap k :=
  (h.fate k).resolve_left fun hf => hne (hf.rejected hback hn).1

/-! ## One step -/

theorem Inv.unplaced (h : Inv p) (hx : p.x.mine k = none) (hy : p.y.mine k = none) :
    p.x.theirs k = none ∧ p.y.theirs k = none ∧ about k p.there = [] ∧ about k p.back = [] := by
  rcases h.fate k with hf | hf
  · have hphase := hf.phase
    have hown := hf.own
    rw [hx] at hphase
    generalize p.y.theirs k = t, about k p.there = there, about k p.back = back at hphase ⊢
    cases hphase
    exact ⟨hown, rfl, rfl, rfl⟩
  · have hphase : Phase k (p.y.mine k) (p.x.theirs k) (about k p.back) (about k p.there) := hf.phase
    have hown : p.y.theirs k = none := hf.own
    rw [hy] at hphase
    generalize p.x.theirs k = t, about k p.there = there, about k p.back = back at hphase ⊢
    cases hphase
    exact ⟨rfl, hown, rfl, rfl⟩

theorem Inv.invite (h : Inv p) (hx : p.x.mine k = none) (hy : p.y.mine k = none) : Inv { p with
      x := { p.x with mine := Function.update p.x.mine k (some .live) }
      there := p.there ++ [.invite k] } where
  fate l := by
    obtain ⟨hown, htheirs, hthere, hback⟩ := h.unplaced hx hy
    by_cases hl : l = k
    · subst hl
      refine .inl ⟨hy, hown, ?_⟩
      have hself : (Note.invite l).name = l := rfl
      dsimp only
      rw [Function.update_self, htheirs, about_append, hthere, hback, about_cons_self hself]
      exact .invited
    · have hother : (Note.invite k).name ≠ l := Ne.symm hl
      refine Same.fates ⟨Function.update_of_ne hl _ _, rfl, rfl, rfl, ?_, rfl⟩ (h.fate l)
      rw [about_append, about_cons_ne hother, about_nil, List.append_nil]
  apart a b ha ha' hb := by
    have htheirs := (h.unplaced hx hy).2.1
    by_cases hak : a = k
    · subst hak
      rw [htheirs] at ha'
      cases ha'
    · exact h.apart a b ((Function.update_of_ne hak _ _).symm.trans ha) ha' hb
  least w hw hleast := by
    have htheirs := (h.unplaced hx hy).2.1
    by_cases hwk : w = k
    · subst hwk
      refine .inl ⟨Function.update_self .., ?_⟩
      dsimp only
      rw [htheirs]
      simp
    · have hsame : ∀ l, l ≠ k → Function.update p.x.mine k (some .live) l = p.x.mine l :=
        fun l hl => Function.update_of_ne hl _ _
      have hplaced : Placed p w := hw.imp (fun hw => by rwa [← hsame w hwk]) id
      have hbefore := h.least w hplaced fun l hl => hleast l (hl.imp (fun hl => by
        by_cases hlk : l = k
        · subst hlk
          exact absurd hx hl
        · dsimp only
          rwa [hsame l hlk]) id)
      refine hbefore.imp (fun hlive => ⟨?_, hlive.2⟩) id
      exact (hsame w hwk).trans hlive.1

theorem same_received {sent : List (Note K)} {x : Side K} (hback : p.back = n :: rest)
    (hn : n.name ≠ k) (hmine : x.mine k = p.x.mine k) (htheirs : x.theirs k = p.x.theirs k)
    (hsent : about k sent = []) : Same p { p with x := x, back := rest, there := p.there ++ sent } k :=
  ⟨hmine, htheirs, rfl, rfl, by simp [hsent], by simp [hback, about_cons_ne hn]⟩

theorem Inv.receive_reject (h : Inv p) (hback : p.back = .reject k :: rest) :
    Inv { p with
      x := { p.x with mine := Function.update p.x.mine k (some .over) }
      back := rest
      there := p.there ++ [] } where
  fate l := by
    have hf := h.rejected hback
    obtain ⟨-, hrest, -, hover, hthere⟩ := hf.rejected hback rfl
    by_cases hl : l = k
    · subst hl
      refine .inl ⟨hf.other, hf.own, ?_⟩
      dsimp only
      rw [Function.update_self, hover, List.append_nil, hrest]
      exact .ended hthere (.inl rfl)
    · refine Same.fates (same_received hback (Ne.symm hl) ?_ rfl (about_nil l)) (h.fate l)
      exact Function.update_of_ne hl _ _
  apart a b ha := by
    by_cases hak : a = k
    · subst hak
      dsimp only at ha
      rw [Function.update_self] at ha
      cases ha
    · exact h.apart a b ((Function.update_of_ne hak _ _).symm.trans ha)
  least w hw hleast := by
    obtain ⟨-, -, hplaced, hover, -⟩ := (h.rejected hback).rejected hback rfl
    have hsame : ∀ l, Function.update p.x.mine k (some .over) l ≠ none ↔ p.x.mine l ≠ none := by
      intro l
      by_cases hl : l = k
      · subst hl
        simp [hplaced]
      · rw [Function.update_of_ne hl]
    rcases h.least w (hw.imp (hsame w).mp id) (fun l hl => hleast l (hl.imp (hsame l).mpr id)) with
      hlive | hlive
    · refine .inl ⟨?_, hlive.2⟩
      have hwk : w ≠ k := by
        rintro rfl
        exact hlive.2 hover
      exact (Function.update_of_ne hwk _ _).trans hlive.1
    · exact .inr hlive

theorem Inv.receive_cancel (h : Inv p) (hback : p.back = .cancel k :: rest) :
    Inv { p with
      x := { p.x with theirs := Function.update p.x.theirs k (some .over) }
      back := rest
      there := p.there ++ [] } where
  fate l := by
    have hf : Fate p.swap k := h.addressed hback rfl (by simp)
    obtain ⟨hover, -, hrest, hthere⟩ := hf.cancelled hback
    by_cases hl : l = k
    · subst hl
      refine .inr ⟨hf.other, hf.own, ?_⟩
      show Phase l (p.y.mine l) (Function.update p.x.theirs l (some .over) l) (about l rest)
        (about l (p.there ++ []))
      rw [Function.update_self, show p.y.mine l = _ from hover, List.append_nil, hrest]
      exact .ended (.inl rfl) hthere
    · refine Same.fates (same_received hback (Ne.symm hl) rfl ?_ (about_nil l)) (h.fate l)
      exact Function.update_of_ne hl _ _
  apart a b ha ha' hb := by
    by_cases hbk : b = k
    · subst hbk
      simp
    · dsimp only
      rw [Function.update_of_ne hbk]
      exact h.apart a b ha ha' hb
  least w hw hleast := by
    obtain ⟨hover, -⟩ := (h.addressed hback rfl (by simp)).cancelled hback
    refine (h.least w hw hleast).imp id fun hlive => ⟨hlive.1, ?_⟩
    have hwk : w ≠ k := by
      rintro rfl
      have hlost : some Life.over = some .live := hover.symm.trans hlive.1
      cases hlost
    dsimp only
    rw [Function.update_of_ne hwk]
    exact hlive.2

theorem Inv.receive_wins (h : Inv p) (hback : p.back = .invite k :: rest) {l : K}
    (hl : p.x.mine l = some .live) (hlt : l < k) :
    Inv { p with
      x := { p.x with theirs := Function.update p.x.theirs k (some .over) }
      back := rest
      there := p.there ++ [.reject k] } where
  fate m := by
    have hf : Fate p.swap k := h.addressed hback rfl (by simp)
    obtain ⟨-, hthere, hcases⟩ := hf.invited hback
    have hself : (Note.reject k).name = k := rfl
    by_cases hm : m = k
    · subst hm
      refine .inr ⟨hf.other, hf.own, ?_⟩
      show Phase m (p.y.mine m) (Function.update p.x.theirs m (some .over) m) (about m rest)
        (about m (p.there ++ [.reject m]))
      rw [Function.update_self, about_append, show about m p.there = _ from hthere, about_cons_self hself]
      rcases hcases with ⟨hlive, hrest⟩ | ⟨hover, hrest⟩
      · rw [show p.y.mine m = _ from hlive, hrest]
        exact .refusing
      · rw [show p.y.mine m = _ from hover, hrest]
        exact .ended (.inr rfl) (.inr rfl)
    · have hother : (Note.reject k).name ≠ m := Ne.symm hm
      refine Same.fates (same_received hback (Ne.symm hm) rfl ?_ (about_cons_ne hother [])) (h.fate m)
      exact Function.update_of_ne hm _ _
  apart a b ha ha' hb := by
    by_cases hbk : b = k
    · subst hbk
      simp
    · dsimp only
      rw [Function.update_of_ne hbk]
      exact h.apart a b ha ha' hb
  least w hw hleast := by
    refine (h.least w hw hleast).imp id fun hlive => ⟨hlive.1, ?_⟩
    have hwk : w ≠ k := by
      rintro rfl
      exact absurd (hleast l (.inl (by simp [hl]))) (not_le.mpr hlt)
    dsimp only
    rw [Function.update_of_ne hwk]
    exact hlive.2

theorem Inv.receive_yields (h : Inv p) (hback : p.back = .invite k :: rest)
    {ls : List K} (hmem : ∀ l, l ∈ ls ↔ p.x.mine l = some .live) (hnodup : ls.Nodup)
    (hleast : ∀ l ∈ ls, k < l) :
    Inv { p with
      x := ⟨fun l => if p.x.mine l = some .live then some .over else p.x.mine l,
        Function.update p.x.theirs k (some .live)⟩
      back := rest
      there := p.there ++ ls.map .cancel } where
  fate m := by
    have hf : Fate p.swap k := h.addressed hback rfl (by simp)
    obtain ⟨-, hthere, hcases⟩ := hf.invited hback
    have hnone : p.x.mine k = none := hf.other
    by_cases hm : m = k
    · subst hm
      have hls : m ∉ ls := by
        rw [hmem, hnone]
        simp
      refine .inr ⟨?_, hf.own, ?_⟩
      · show (if p.x.mine m = some .live then some .over else p.x.mine m) = none
        rw [hnone]
        simp
      · show Phase m (p.y.mine m) (Function.update p.x.theirs m (some .live) m) (about m rest)
          (about m (p.there ++ ls.map .cancel))
        rw [Function.update_self, about_append, show about m p.there = _ from hthere,
          about_cancels hnodup, if_neg hls]
        rcases hcases with ⟨hlive, hrest⟩ | ⟨hover, hrest⟩
        · rw [show p.y.mine m = _ from hlive, hrest]
          exact .held
        · rw [show p.y.mine m = _ from hover, hrest]
          exact .cancelling
    · by_cases hlive : p.x.mine m = some .live
      · -- an invitation of the reader that is withdrawn
        have hfm : Fate p m := (h.fate m).resolve_right fun hf => by
          have hother : p.x.mine m = none := hf.other
          rw [hother] at hlive
          cases hlive
        have hls : m ∈ ls := (hmem m).mpr hlive
        have hne : (Note.invite k).name ≠ m := Ne.symm hm
        refine .inl ⟨hfm.other, (Function.update_of_ne hm _ _).trans hfm.own, ?_⟩
        have hphase := hfm.phase
        rw [hback, about_cons_ne hne, hlive] at hphase
        dsimp only
        rw [if_pos hlive, about_append, about_cancels hnodup, if_pos hls]
        generalize p.y.theirs m = t, about m p.there = there, about m rest = back at hphase ⊢
        cases hphase with
        | invited => exact .withdrawn
        | held => exact .cancelling
        | refusing => exact .ended (.inr rfl) (.inr rfl)
      · have hls : m ∉ ls := fun hls => hlive ((hmem m).mp hls)
        refine Same.fates (same_received hback (Ne.symm hm) (if_neg hlive) ?_ ?_) (h.fate m)
        · exact Function.update_of_ne hm _ _
        · rw [about_cancels hnodup, if_neg hls]
  apart a b ha := by
    dsimp only at ha
    split at ha
    case isTrue => cases ha
    case isFalse hnot => exact absurd ha hnot
  least w hw hleast' := by
    have hplaced : ∀ l, (if p.x.mine l = some .live then some .over else p.x.mine l) ≠ none ↔
        p.x.mine l ≠ none := by
      intro l
      split
      case isTrue hlive => simp [hlive]
      case isFalse => rfl
    obtain ⟨-, -, hcases⟩ := (h.addressed hback rfl (by simp)).invited hback
    have hk : p.y.mine k ≠ none := by
      rcases hcases with ⟨hlive, -⟩ | ⟨hover, -⟩
      · rw [show p.y.mine k = _ from hlive]
        simp
      · rw [show p.y.mine k = _ from hover]
        simp
    rcases h.least w (hw.imp (hplaced w).mp id) fun l hl => hleast' l (hl.imp (hplaced l).mpr id) with
      hlive | hlive
    · -- the smallest is not withdrawn: the one received would be smaller
      exact absurd (hleast' k (.inr hk)) (not_le.mpr (hleast w ((hmem w).mpr hlive.1)))
    · refine .inr ⟨hlive.1, ?_⟩
      dsimp only
      by_cases hwk : w = k
      · subst hwk
        simp
      · rw [Function.update_of_ne hwk]
        exact hlive.2

/-- What a side can make of a note. -/
def Side.Expects (s : Side K) : Note K → Prop
  | .invite k => s.mine k = none ∧ s.theirs k = none
  | .cancel k => s.theirs k ≠ none
  | .reject k => s.mine k ≠ none

theorem Inv.expects (h : Inv p) (hback : p.back = n :: rest) : p.x.Expects n := by
  cases n with
  | invite k =>
    have hf : Fate p.swap k := h.addressed hback rfl (by simp)
    exact ⟨hf.other, (hf.invited hback).1⟩
  | cancel k =>
    have hf : Fate p.swap k := h.addressed hback rfl (by simp)
    exact (hf.cancelled hback).2.1
  | reject k => exact ((h.rejected hback).rejected hback rfl).2.2.1

theorem Side.Receives.mine_iff {s s' : Side K} {sent : List (Note K)}
    (h : s.Receives n s' sent) (he : s.Expects n) (l : K) : s'.mine l ≠ none ↔ s.mine l ≠ none := by
  cases h with
  | wins => rfl
  | yields =>
    dsimp only
    split
    case isTrue hlive => simp [hlive]
    case isFalse => rfl
  | cancel => rfl
  | @reject k =>
    dsimp only
    by_cases hl : l = k
    · subst hl
      have hmine : s.mine l ≠ none := he
      simp [hmine]
    · rw [Function.update_of_ne hl]

theorem Inv.step (h : Inv p) (hstep : Step p q) : Inv q := by
  cases hstep with
  | invite hx hy => exact h.invite hx hy
  | receive hback hrecv =>
    cases hrecv with
    | wins hl hlt => exact h.receive_wins hback hl hlt
    | yields hmem hnodup hleast => exact h.receive_yields hback hmem hnodup hleast
    | cancel => exact h.receive_cancel hback
    | reject => exact h.receive_reject hback

end Keeps

/-! ## What is left -/

section Settled

variable {p : Pair K} (h : Inv p)
include h

theorem Inv.smallest {w : K} (hw : p.x.mine w ≠ none) (hleast : ∀ k, Placed p k → w ≤ k)
    (hdelivered : ∀ k, .invite k ∉ p.there) : p.x.mine w = some .live ∧ p.y.theirs w = some .live := by
  have hf : Fate p w := (h.fate w).resolve_right fun hf => hw hf.other
  have hlive : p.x.mine w = some .live ∧ p.y.theirs w ≠ some .over := by
    rcases h.least w (.inl hw) hleast with hlive | hlive
    · exact hlive
    · rw [hf.other] at hlive
      exact absurd hlive.1 (by simp)
  have hphase := hf.phase
  have hnot : .invite w ∉ about w p.there := fun hmem => hdelivered w (mem_about.mp hmem).1
  rw [hlive.1] at hphase
  refine ⟨hlive.1, ?_⟩
  have hover := hlive.2
  generalize p.y.theirs w = t, about w p.there = there, about w p.back = back at hphase hnot hover ⊢
  cases hphase with
  | invited => exact absurd List.mem_cons_self hnot
  | held => rfl
  | refusing => exact absurd rfl hover

theorem Inv.agree {k : K} (hk : p.x.mine k ≠ none) (hthere : p.there = []) (hback : p.back = []) :
    (p.x.mine k = some .live ∧ p.y.theirs k = some .live) ∨
      (p.x.mine k = some .over ∧ p.y.theirs k = some .over) := by
  have hf : Fate p k := (h.fate k).resolve_right fun hf => hk hf.other
  have hphase := hf.phase
  rw [hthere, hback, about_nil] at hphase
  generalize p.x.mine k = m, p.y.theirs k = t at hphase hk ⊢
  cases hphase with
  | unplaced => exact absurd rfl hk
  | held => exact .inl ⟨rfl, rfl⟩
  | ended => exact .inr ⟨rfl, rfl⟩

theorem Inv.lost {w k : K} (hw : p.x.mine w = some .live) (hw' : p.y.theirs w = some .live)
    (hk : p.y.mine k ≠ none) (hthere : p.there = []) (hback : p.back = []) :
    p.y.mine k = some .over ∧ p.x.theirs k = some .over :=
  (h.swap.agree hk hback hthere).resolve_left fun hlive => h.apart w k hw hw' hlive.1 hlive.2

end Settled

end Dsip.Lib.Crossing
