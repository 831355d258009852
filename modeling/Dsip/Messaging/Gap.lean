import Mathlib.Data.Finset.Lattice.Fold
import Mathlib.Data.List.Sort
import Dsip.Lib.TSys
import Dsip.Messaging.Mailbox

/-!
# Gaps in the order of a group's items

A device reads the items of a group by their `seq`. A handshake beyond a gap is
held, and so is everything after a held item; when the gap fills, what was held
is processed in order, and when it does not fill in time the device re-joins.

Two implementations: `GapTracker` keeps the held seqs among the seen ones too and
drains in one pass, `Ts.GapTracker` keeps the two apart and drains in turns.
`Tracks` relates them.
-/

namespace Dsip.Messaging

open Dsip.Lib

def gapTimeoutS : Nat := 300

structure GapContext where
  now : Nat
  contiguous : Nat := 0
  gapTimeout : Option Nat := none

inductive GapEvent where
  | item (seq : Nat) (cls : HeldClass)
  | advance (seconds : Nat)
  deriving DecidableEq, Repr

inductive GapEmit where
  | process (seq : Nat)
  | hold (seq : Nat)
  | duplicate (seq : Nat)
  | rejoin (held : List Nat)
  deriving DecidableEq, Repr

/-- What a step emits, and the snapshot after it. -/
structure GapOutput where
  emit : List GapEmit
  contiguous : Nat
  held : List Nat
  deriving DecidableEq, Repr

structure GapTracker where
  now : Nat
  contiguous : Nat
  timeout : Nat
  /-- What was received beyond the contiguous point, the held seqs among it. -/
  seen : Finset Nat
  held : List Nat
  gapSince : Option Nat

namespace GapTracker

def init (ctx : GapContext) : GapTracker where
  now := ctx.now
  contiguous := ctx.contiguous
  timeout := ctx.gapTimeout.getD gapTimeoutS
  seen := ∅
  held := []
  gapSince := none

/-- The loop over `seen`: the contiguous point moves on. -/
def advanceSeen : Nat → Nat → Finset Nat → Nat × Finset Nat
  | 0, c, seen => (c, seen)
  | fuel + 1, c, seen =>
    if c + 1 ∈ seen then advanceSeen fuel (c + 1) (seen.erase (c + 1)) else (c, seen)

/-- The end of a step: what can be is drained. -/
def drain (g : GapTracker) : GapTracker × List GapEmit :=
  let (c, seen) := advanceSeen g.seen.card g.contiguous g.seen
  let held := g.held.dropWhile (· ≤ c)
  ({ g with
      contiguous := c
      seen := seen
      held := held
      gapSince := if held = [] then none else g.gapSince },
    (g.held.takeWhile (· ≤ c)).map .process)

def item (g : GapTracker) (seq : Nat) (cls : HeldClass) : GapTracker × List GapEmit :=
  if seq ≤ g.contiguous ∨ seq ∈ g.seen then (g, [.duplicate seq])
  else
    let g := { g with seen := insert seq g.seen }
    if (cls = .handshake ∧ g.contiguous + 1 < seq) ∨ g.held.head?.any (· < seq) then
      let (g, out) := drain { g with
        held := (g.held ++ [seq]).insertionSort (· ≤ ·)
        gapSince := some (g.gapSince.getD g.now) }
      (g, .hold seq :: out)
    else
      let (g, out) := drain g
      (g, .process seq :: out)

/-- The wait for a gap is over: every seq up to the highest seen is passed. -/
def advance (g : GapTracker) (seconds : Nat) : GapTracker × List GapEmit :=
  let g := { g with now := g.now + seconds }
  if g.held ≠ [] ∧ g.gapSince.any (· + g.timeout ≤ g.now) then
    ({ g with
        contiguous := (g.held.toFinset ∪ g.seen).sup id
        seen := ∅
        held := []
        gapSince := none },
      [.rejoin g.held])
  else (g, [])

def act (g : GapTracker) : GapEvent → GapTracker × List GapEmit
  | .item seq cls => g.item seq cls
  | .advance seconds => g.advance seconds

/-- `step`, with the snapshot. -/
def step (g : GapTracker) (e : GapEvent) : GapTracker × GapOutput :=
  let r := g.act e
  (r.1, ⟨r.2, r.1.contiguous, r.1.held⟩)

end GapTracker

namespace Ts

structure GapTracker where
  now : Nat
  contiguous : Nat
  timeout : Nat
  held : List Nat
  /-- Processed beyond the contiguous point. -/
  seen : Finset Nat
  firstHeldAt : Option Nat

namespace GapTracker

def init (ctx : GapContext) : GapTracker where
  now := ctx.now
  contiguous := ctx.contiguous
  timeout := ctx.gapTimeout.getD gapTimeoutS
  held := []
  seen := ∅
  firstHeldAt := none

/-- The loop of `drain`. -/
def drainLoop : Nat → GapTracker → GapTracker × List GapEmit
  | 0, g => (g, [])
  | fuel + 1, g =>
    let next := g.contiguous + 1
    if next ∈ g.seen then
      drainLoop fuel { g with seen := g.seen.erase next, contiguous := next }
    else if next ∈ g.held then
      let r := drainLoop fuel { g with held := g.held.filter (· ≠ next), contiguous := next }
      (r.1, .process next :: r.2)
    else (g, [])

def drain (g : GapTracker) : GapTracker × List GapEmit :=
  let r := drainLoop (g.seen.card + g.held.length) g
  ({ r.1 with firstHeldAt := if r.1.held = [] then none else r.1.firstHeldAt }, r.2)

def item (g : GapTracker) (seq : Nat) (cls : HeldClass) : GapTracker × List GapEmit :=
  if seq ≤ g.contiguous ∨ seq ∈ g.seen ∨ seq ∈ g.held then (g, [.duplicate seq])
  else if seq = g.contiguous + 1 then
    let r := drain { g with contiguous := seq }
    (r.1, .process seq :: r.2)
  else if cls = .handshake ∨ g.held.any (· < seq) then
    ({ g with
        held := (g.held ++ [seq]).insertionSort (· ≤ ·)
        firstHeldAt := some (g.firstHeldAt.getD g.now) }, [.hold seq])
  else ({ g with seen := insert seq g.seen }, [.process seq])

/-- Re-joining by external commit. -/
def advance (g : GapTracker) (seconds : Nat) : GapTracker × List GapEmit :=
  let g := { g with now := g.now + seconds }
  if g.firstHeldAt.any (· + g.timeout ≤ g.now) then
    ({ g with
        contiguous := max g.contiguous ((g.held.toFinset ∪ g.seen).sup id)
        held := []
        seen := ∅
        firstHeldAt := none },
      [.rejoin g.held])
  else (g, [])

def act (g : GapTracker) : GapEvent → GapTracker × List GapEmit
  | .item seq cls => g.item seq cls
  | .advance seconds => g.advance seconds

/-- `step`, with the state it returns. -/
def step (g : GapTracker) (e : GapEvent) : GapTracker × GapOutput :=
  let r := g.act e
  (r.1, ⟨r.2, r.1.contiguous, r.1.held⟩)

end GapTracker

end Ts

/-! ## Where a run of numbers ends -/

/-- `c'` is where the numbers of `s` that follow `c` end. -/
structure RunEnd (s : Finset Nat) (c c' : Nat) : Prop where
  le : c ≤ c'
  mem : ∀ k, c < k → k ≤ c' → k ∈ s
  stop : c' + 1 ∉ s

variable {s : Finset Nat}

theorem RunEnd.refl {c : Nat} (h : c + 1 ∉ s) : RunEnd s c c :=
  ⟨le_rfl, fun k hk hle => absurd hk (not_lt.mpr hle), h⟩

theorem RunEnd.unique {c a b : Nat} (ha : RunEnd s c a) (hb : RunEnd s c b) : a = b := by
  rcases lt_trichotomy a b with h | h | h
  · exact absurd (hb.mem (a + 1) (Nat.lt_succ_of_le ha.le) h) ha.stop
  · exact h
  · exact absurd (ha.mem (b + 1) (Nat.lt_succ_of_le hb.le) h) hb.stop

theorem RunEnd.cons {c c' : Nat} (h : RunEnd s (c + 1) c') (hc : c + 1 ∈ s) : RunEnd s c c' := by
  refine ⟨Nat.le_of_succ_le h.le, ?_, h.stop⟩
  intro k hk hle
  rcases Nat.lt_or_eq_of_le (Nat.succ_le_of_lt hk) with hlt | rfl
  · exact h.mem k hlt hle
  · exact hc

theorem RunEnd.congr {t : Finset Nat} {c c' : Nat} (h : RunEnd s c c')
    (hst : ∀ k, c < k → (k ∈ t ↔ k ∈ s)) : RunEnd t c c' :=
  ⟨h.le, fun k hk hle => (hst k hk).mpr (h.mem k hk hle),
    fun hin => h.stop ((hst _ (Nat.lt_succ_of_le h.le)).mp hin)⟩

namespace GapTracker

theorem advanceSeen_spec {fuel c : Nat} {seen : Finset Nat} (hfuel : seen.card ≤ fuel)
    (hlt : ∀ k ∈ seen, c < k) : RunEnd seen c (advanceSeen fuel c seen).1 ∧
      (advanceSeen fuel c seen).2 = seen.filter ((advanceSeen fuel c seen).1 < ·) := by
  induction fuel generalizing c seen with
  | zero =>
    obtain rfl := Finset.card_eq_zero.mp (Nat.le_zero.mp hfuel)
    exact ⟨.refl (Finset.notMem_empty _), rfl⟩
  | succ fuel ih =>
    unfold advanceSeen
    split
    case isTrue hin =>
      have hcard : (seen.erase (c + 1)).card ≤ fuel := by
        rw [Finset.card_erase_of_mem hin]
        omega
      have hlt' : ∀ k ∈ seen.erase (c + 1), c + 1 < k := by
        intro k hk
        obtain ⟨hne, hk⟩ := Finset.mem_erase.mp hk
        have := hlt k hk
        omega
      obtain ⟨hend, hseen⟩ := ih hcard hlt'
      generalize advanceSeen fuel (c + 1) (seen.erase (c + 1)) = r at hend hseen
      refine ⟨RunEnd.cons (hend.congr ?_) hin, ?_⟩
      · intro k hk
        rw [Finset.mem_erase]
        exact ⟨fun h => ⟨by omega, h⟩, And.right⟩
      · rw [hseen]
        ext k
        simp only [Finset.mem_filter, Finset.mem_erase]
        have := hend.le
        constructor
        · rintro ⟨⟨-, hk⟩, hle⟩
          exact ⟨hk, hle⟩
        · rintro ⟨hk, hle⟩
          exact ⟨⟨by omega, hk⟩, hle⟩
    case isFalse hno =>
      refine ⟨.refl hno, ?_⟩
      ext k
      simp only [Finset.mem_filter]
      exact ⟨fun h => ⟨h, hlt k h⟩, And.left⟩

end GapTracker

theorem takeWhile_le_of_sorted {l : List Nat} (h : l.Pairwise (· < ·)) (c : Nat) :
    l.takeWhile (· ≤ c) = l.filter (· ≤ c) ∧ l.dropWhile (· ≤ c) = l.filter (c < ·) := by
  induction l with
  | nil => exact ⟨rfl, rfl⟩
  | cons a l ih =>
    obtain ⟨hlt, hl⟩ := List.pairwise_cons.mp h
    obtain ⟨ht, hd⟩ := ih hl
    by_cases hac : a ≤ c
    · constructor
      · rw [List.takeWhile_cons_of_pos (by simpa using hac), List.filter_cons_of_pos (by simpa using hac), ht]
      · rw [List.dropWhile_cons_of_pos (by simpa using hac), List.filter_cons_of_neg (by simpa using hac), hd]
    · have habove : ∀ k ∈ l, c < k := fun k hk => (not_le.mp hac).trans (hlt k hk)
      constructor
      · rw [List.takeWhile_cons_of_neg (by simpa using hac),
          List.filter_cons_of_neg (by simpa using hac), eq_comm, List.filter_eq_nil_iff]
        intro k hk
        simpa using habove k hk
      · rw [List.dropWhile_cons_of_neg (by simpa using hac),
          List.filter_cons_of_pos (by simpa using hac), eq_comm]
        congr 1
        rw [List.filter_eq_self]
        intro k hk
        simpa using habove k hk

namespace Ts.GapTracker

theorem drainLoop_spec {fuel : Nat} {g : GapTracker} (hfuel : g.seen.card + g.held.length ≤ fuel)
    (hseen : ∀ k ∈ g.seen, g.contiguous < k) (hheld : ∀ k ∈ g.held, g.contiguous < k)
    (hsorted : g.held.Pairwise (· < ·)) (hdisjoint : ∀ k ∈ g.seen, k ∉ g.held) :
    ∃ c', RunEnd (g.seen ∪ g.held.toFinset) g.contiguous c' ∧ drainLoop fuel g = ({ g with
        contiguous := c'
        seen := g.seen.filter (c' < ·)
        held := g.held.filter (c' < ·) }, (g.held.filter (· ≤ c')).map .process) := by
  have hstay : ∀ {g : GapTracker}, (∀ k ∈ g.seen, g.contiguous < k) →
      (∀ k ∈ g.held, g.contiguous < k) → g.contiguous + 1 ∉ g.seen ∪ g.held.toFinset →
      ∃ c', RunEnd (g.seen ∪ g.held.toFinset) g.contiguous c' ∧ (g, ([] : List GapEmit)) = ({ g with
          contiguous := c'
          seen := g.seen.filter (c' < ·)
          held := g.held.filter (c' < ·) }, (g.held.filter (· ≤ c')).map .process) := by
    intro g hseen hheld hno
    have h₁ : g.seen.filter (g.contiguous < ·) = g.seen := Finset.filter_true_of_mem hseen
    have h₂ : g.held.filter (g.contiguous < ·) = g.held := by
      rw [List.filter_eq_self]
      intro k hk
      simpa using hheld k hk
    have h₃ : g.held.filter (· ≤ g.contiguous) = [] := by
      rw [List.filter_eq_nil_iff]
      intro k hk
      simpa using hheld k hk
    refine ⟨g.contiguous, .refl hno, ?_⟩
    rw [h₁, h₂, h₃]
    rfl
  induction fuel generalizing g with
  | zero =>
    have hnone : g.seen = ∅ ∧ g.held = [] := by
      rw [← Finset.card_eq_zero, ← List.length_eq_zero_iff]
      omega
    refine hstay hseen hheld ?_
    rw [hnone.1, hnone.2]
    exact Finset.notMem_empty _
  | succ fuel ih =>
    unfold drainLoop
    dsimp only
    split
    case isTrue hin =>
      have hnot : g.contiguous + 1 ∉ g.held := hdisjoint _ hin
      have habove : ∀ k ∈ g.held, g.contiguous + 1 < k := by
        intro k hk
        have := hheld k hk
        have : k ≠ g.contiguous + 1 := fun h => hnot (h ▸ hk)
        omega
      have hcard : (g.seen.erase (g.contiguous + 1)).card + g.held.length ≤ fuel := by
        have := Finset.card_pos.mpr ⟨_, hin⟩
        rw [Finset.card_erase_of_mem hin]
        omega
      obtain ⟨c', hend, he⟩ := @ih
        { g with seen := g.seen.erase (g.contiguous + 1), contiguous := g.contiguous + 1 } hcard
        (by
          intro k hk
          obtain ⟨hne, hk⟩ := Finset.mem_erase.mp hk
          have := hseen k hk
          show g.contiguous + 1 < k
          omega)
        habove hsorted (fun k hk => hdisjoint k (Finset.mem_of_mem_erase hk))
      refine ⟨c', RunEnd.cons (hend.congr ?_) (Finset.mem_union_left _ hin), ?_⟩
      · intro k hk
        simp only [Finset.mem_union, Finset.mem_erase]
        constructor
        · rintro (h | h)
          · exact .inl ⟨Nat.ne_of_gt hk, h⟩
          · exact .inr h
        · exact Or.imp_left And.right
      · rw [he]
        have hfilter : (g.seen.erase (g.contiguous + 1)).filter (c' < ·) = g.seen.filter (c' < ·) := by
          have hle : g.contiguous + 1 ≤ c' := hend.le
          ext k
          simp only [Finset.mem_filter, Finset.mem_erase]
          constructor
          · rintro ⟨⟨-, hk⟩, hlt⟩
            exact ⟨hk, hlt⟩
          · rintro ⟨hk, hlt⟩
            exact ⟨⟨by omega, hk⟩, hlt⟩
        dsimp only
        rw [hfilter]
    case isFalse hno =>
      split
      case isTrue hin =>
        -- held in ascending order, so the next one is the first
        obtain ⟨tail, hg⟩ : ∃ tail, g.held = (g.contiguous + 1) :: tail := by
          cases hl : g.held with
          | nil =>
            rw [hl] at hin
            exact absurd hin List.not_mem_nil
          | cons a tail =>
            rw [hl] at hin hsorted hheld
            rcases List.mem_cons.mp hin with rfl | htail
            · exact ⟨tail, rfl⟩
            · have h₁ := (List.pairwise_cons.mp hsorted).1 _ htail
              have h₂ := hheld a List.mem_cons_self
              omega
        rw [hg] at hsorted
        obtain ⟨hlt, htail⟩ := List.pairwise_cons.mp hsorted
        have hfilter : g.held.filter (· ≠ g.contiguous + 1) = tail := by
          rw [hg, List.filter_cons_of_neg (by simp), List.filter_eq_self]
          intro k hk
          simpa using (hlt k hk).ne'
        have hcard : g.seen.card + tail.length ≤ fuel := by
          rw [hg, List.length_cons] at hfuel
          omega
        rw [hfilter]
        obtain ⟨c', hend, he⟩ := @ih
          { g with held := tail, contiguous := g.contiguous + 1 } hcard
          (by
            intro k hk
            have := hseen k hk
            have : k ≠ g.contiguous + 1 := fun h => hno (h ▸ hk)
            show g.contiguous + 1 < k
            omega)
          hlt htail (fun k hk htail => hdisjoint k hk (hg ▸ List.mem_cons_of_mem _ htail))
        have hle : g.contiguous + 1 ≤ c' := hend.le
        refine ⟨c', RunEnd.cons (hend.congr ?_)
          (Finset.mem_union_right _ (List.mem_toFinset.mpr hin)), ?_⟩
        · intro k hk
          rw [hg]
          simp only [Finset.mem_union, List.mem_toFinset, List.mem_cons]
          constructor
          · rintro (h | rfl | h)
            · exact .inl h
            · exact absurd hk (lt_irrefl _)
            · exact .inr h
          · exact Or.imp_right .inr
        · rw [he, hg, List.filter_cons_of_neg (by simpa using hle),
            List.filter_cons_of_pos (by simpa using hle)]
          rfl
      case isFalse hno' =>
        refine hstay hseen hheld ?_
        rw [Finset.mem_union, List.mem_toFinset]
        exact fun h => h.elim hno hno'

end Ts.GapTracker

/-! ## The two are one -/

/-- Between two steps: what was seen is beyond the contiguous point, not next to
it, and the held seqs are among it, in order. -/
structure GapTracker.Standing (g : GapTracker) : Prop where
  beyond : ∀ k ∈ g.seen, g.contiguous + 1 < k
  held : ∀ k ∈ g.held, k ∈ g.seen
  sorted : g.held.Pairwise (· < ·)
  since : g.gapSince = none ↔ g.held = []

structure Tracks (p : GapTracker) (t : Ts.GapTracker) : Prop where
  now : t.now = p.now
  contiguous : t.contiguous = p.contiguous
  timeout : t.timeout = p.timeout
  held : t.held = p.held
  firstHeldAt : t.firstHeldAt = p.gapSince
  seen : t.seen = p.seen.filter (· ∉ p.held)

section Steps

variable {g : GapTracker} {p : GapTracker} {t : Ts.GapTracker} {seq : Nat} {cls : HeldClass}

theorem sorted_hold (h : g.held.Pairwise (· < ·)) (hnew : seq ∉ g.held) :
    ((g.held ++ [seq]).insertionSort (· ≤ ·)).Pairwise (· < ·) ∧
      ∀ k, k ∈ (g.held ++ [seq]).insertionSort (· ≤ ·) ↔ k ∈ g.held ∨ k = seq := by
  have hperm := List.perm_insertionSort (· ≤ ·) (g.held ++ [seq])
  constructor
  · have hle : ((g.held ++ [seq]).insertionSort (· ≤ ·)).Pairwise (· ≤ ·) := List.pairwise_insertionSort _ _
    have hnodup : ((g.held ++ [seq]).insertionSort (· ≤ ·)).Nodup := by
      rw [hperm.nodup_iff, List.nodup_append]
      refine ⟨h.imp fun hlt => hlt.ne, List.nodup_singleton seq, ?_⟩
      rintro a ha b hb rfl
      exact hnew (List.mem_singleton.mp hb ▸ ha)
    exact List.Pairwise.imp₂ (fun _ _ hle hne => lt_of_le_of_ne hle hne) hle hnodup
  · intro k
    rw [hperm.mem_iff, List.mem_append, List.mem_singleton]

theorem GapTracker.drain_still (h : ∀ k ∈ g.seen, g.contiguous + 1 < k)
    (hheld : ∀ k ∈ g.held, k ∈ g.seen) (hs : g.gapSince = none ↔ g.held = []) : g.drain = (g, []) := by
  have hlt : ∀ k ∈ g.seen, g.contiguous < k := fun k hk => Nat.lt_of_succ_lt (h k hk)
  obtain ⟨hend, hseen⟩ := advanceSeen_spec le_rfl hlt
  have hc : (advanceSeen g.seen.card g.contiguous g.seen).1 = g.contiguous :=
    hend.unique (.refl fun hin => lt_irrefl _ (h _ hin))
  rw [hc, Finset.filter_true_of_mem hlt] at hseen
  have hfirst : ∀ a l, g.held = a :: l → ¬ a ≤ g.contiguous := by
    intro a l he
    exact not_le.mpr (hlt a (hheld a (he ▸ List.mem_cons_self)))
  have hsplit : g.held.takeWhile (· ≤ g.contiguous) = [] ∧ g.held.dropWhile (· ≤ g.contiguous) = g.held := by
    cases he : g.held with
    | nil => exact ⟨rfl, rfl⟩
    | cons a l =>
      have hno : ¬ decide (a ≤ g.contiguous) = true := by simpa using hfirst a l he
      exact ⟨List.takeWhile_cons_of_neg hno, List.dropWhile_cons_of_neg hno⟩
  have hsince : (if g.held = [] then none else g.gapSince) = g.gapSince := by
    split
    case isTrue he => exact (hs.mpr he).symm
    case isFalse => rfl
  unfold drain
  dsimp only
  rw [hc, hseen, hsplit.1, hsplit.2, hsince]
  rfl

theorem GapTracker.drain_next (h : g.Standing) : ∃ c', RunEnd g.seen (g.contiguous + 1) c' ∧
      drain { g with seen := insert (g.contiguous + 1) g.seen } = ({ g with
            contiguous := c'
            seen := g.seen.filter (c' < ·)
            held := g.held.filter (c' < ·)
            gapSince := if g.held.filter (c' < ·) = [] then none else g.gapSince },
          (g.held.filter (· ≤ c')).map .process) := by
  have hlt : ∀ k ∈ insert (g.contiguous + 1) g.seen, g.contiguous < k := by
    intro k hk
    rcases Finset.mem_insert.mp hk with rfl | hk
    · exact Nat.lt_succ_self _
    · exact Nat.lt_of_succ_lt (h.beyond k hk)
  obtain ⟨hend, hseen⟩ := advanceSeen_spec le_rfl hlt
  unfold drain
  dsimp only
  generalize advanceSeen _ g.contiguous (insert (g.contiguous + 1) g.seen) = r at hend hseen
  have hle : g.contiguous + 1 ≤ r.1 := by
    by_contra hno
    have he : r.1 = g.contiguous := le_antisymm (by omega) hend.le
    exact hend.stop (he ▸ Finset.mem_insert_self _ _)
  refine ⟨r.1, ⟨hle, ?_, ?_⟩, ?_⟩
  · intro k hk hkr
    exact (Finset.mem_insert.mp (hend.mem k (Nat.lt_of_succ_lt hk) hkr)).resolve_left hk.ne'
  · exact fun hin => hend.stop (Finset.mem_insert_of_mem hin)
  · obtain ⟨htake, hdrop⟩ := takeWhile_le_of_sorted h.sorted r.1
    rw [htake, hdrop, hseen, Finset.filter_insert, if_neg (not_lt.mpr hle)]

/-- What a step does, by its kind. -/
inductive GapStep (g : GapTracker) : GapEvent → List GapEmit → GapTracker → Prop
  | wait (n : Nat) : GapStep g (.advance n) [] { g with now := g.now + n }
  | rejoin (n top : Nat) (hheld : g.held ≠ []) (hle : g.contiguous ≤ top)
      (htop : ∀ k ∈ g.seen, k ≤ top) :
      GapStep g (.advance n) [.rejoin g.held]
        { g with now := g.now + n, contiguous := top, seen := ∅, held := [], gapSince := none }
  | duplicate {seq : Nat} {cls : HeldClass} (h : seq ≤ g.contiguous ∨ seq ∈ g.seen) :
      GapStep g (.item seq cls) [.duplicate seq] g
  | hold {seq : Nat} {cls : HeldClass} {held : List Nat} {since : Option Nat}
      (hlt : g.contiguous + 1 < seq) (hnew : seq ∉ g.seen)
      (hmem : ∀ k, k ∈ held ↔ k ∈ g.held ∨ k = seq) :
      GapStep g (.item seq cls) [.hold seq]
        { g with seen := insert seq g.seen, held := held, gapSince := since }
  /-- Beyond a gap, with no held item before it. -/
  | jump {seq : Nat} {cls : HeldClass} (hlt : g.contiguous + 1 < seq) (hnew : seq ∉ g.seen)
      (hcls : cls ≠ .handshake) (hheld : ∀ k ∈ g.held, seq < k) :
      GapStep g (.item seq cls) [.process seq] { g with seen := insert seq g.seen }
  | next {cls : HeldClass} {c' : Nat} {since : Option Nat}
      (hend : RunEnd g.seen (g.contiguous + 1) c') :
      GapStep g (.item (g.contiguous + 1) cls)
        (.process (g.contiguous + 1) :: (g.held.filter (· ≤ c')).map .process)
        { g with
          contiguous := c'
          seen := g.seen.filter (c' < ·)
          held := g.held.filter (c' < ·)
          gapSince := since }

theorem GapTracker.Standing.head_lt (h : g.Standing) :
    g.held.head?.any (· < seq) = true ↔ ∃ k ∈ g.held, k < seq := by
  have hsorted := h.sorted
  cases he : g.held with
  | nil => simp
  | cons a l =>
    rw [he] at hsorted
    rw [List.head?_cons, Option.any_some, decide_eq_true_eq]
    constructor
    · exact fun hlt => ⟨a, List.mem_cons_self, hlt⟩
    · rintro ⟨k, hk, hlt⟩
      rcases List.mem_cons.mp hk with rfl | hk
      · exact hlt
      · exact ((List.pairwise_cons.mp hsorted).1 k hk).trans hlt

/-- What a step of both comes to. -/
structure BothStep (p : GapTracker) (e : GapEvent) (r : GapTracker × List GapEmit)
    (r' : Ts.GapTracker × List GapEmit) : Prop where
  step : GapStep p e r.2 r.1
  standing : r.1.Standing
  tracks : Tracks r.1 r'.1
  emits : r'.2 = r.2

theorem GapTracker.Standing.mem_seen (hp : p.Standing) (k : Nat) :
    k ∈ p.seen ↔ k ∈ p.seen.filter (· ∉ p.held) ∨ k ∈ p.held := by
  rw [Finset.mem_filter]
  constructor
  · intro hk
    by_cases hin : k ∈ p.held
    · exact .inr hin
    · exact .inl ⟨hk, hin⟩
  · exact fun h => h.elim And.left (hp.held k)

theorem bothStep_advance (hp : p.Standing) (n : Nat) :
    BothStep p (.advance n) (p.advance n) (Ts.GapTracker.advance ⟨p.now, p.contiguous, p.timeout,
      p.held, p.seen.filter (· ∉ p.held), p.gapSince⟩ n) := by
  by_cases hdue : p.held ≠ [] ∧ p.gapSince.any (· + p.timeout ≤ p.now + n) = true
  · have htop : p.contiguous ≤ (p.held.toFinset ∪ p.seen).sup id ∧
        ∀ k ∈ p.seen, k ≤ (p.held.toFinset ∪ p.seen).sup id := by
      have hall : ∀ k ∈ p.seen, k ≤ (p.held.toFinset ∪ p.seen).sup id :=
        fun k hk => Finset.le_sup (f := id) (Finset.mem_union_right _ hk)
      refine ⟨?_, hall⟩
      obtain ⟨a, l, he⟩ := List.exists_cons_of_ne_nil hdue.1
      have ha := hp.held a (he ▸ List.mem_cons_self)
      exact (Nat.le_of_lt (Nat.lt_of_succ_lt (hp.beyond a ha))).trans (hall a ha)
    have hsup : (p.held.toFinset ∪ p.seen.filter (· ∉ p.held)).sup id =
        (p.held.toFinset ∪ p.seen).sup id := by
      congr 1
      ext k
      rw [Finset.mem_union, Finset.mem_union, hp.mem_seen k, List.mem_toFinset]
      tauto
    have hpy : p.advance n = ({ p with
        now := p.now + n
        contiguous := (p.held.toFinset ∪ p.seen).sup id
        seen := ∅
        held := []
        gapSince := none }, [.rejoin p.held]) := if_pos hdue
    have hts : Ts.GapTracker.advance ⟨p.now, p.contiguous, p.timeout, p.held,
        p.seen.filter (· ∉ p.held), p.gapSince⟩ n = (⟨p.now + n,
          (p.held.toFinset ∪ p.seen).sup id, p.timeout, [], ∅, none⟩, [.rejoin p.held]) := by
      refine (if_pos hdue.2).trans ?_
      dsimp only
      rw [hsup, max_eq_right htop.1]
    rw [hpy, hts]
    refine ⟨.rejoin n _ hdue.1 htop.1 htop.2, ⟨?_, ?_, .nil, ?_⟩, ⟨rfl, rfl, rfl, rfl, rfl, rfl⟩, rfl⟩
    · exact fun k hk => absurd hk (Finset.notMem_empty k)
    · exact fun k hk => absurd hk List.not_mem_nil
    · exact ⟨fun _ => rfl, fun _ => rfl⟩
  · have hnot : ¬ p.gapSince.any (· + p.timeout ≤ p.now + n) = true := by
      intro hany
      refine hdue ⟨?_, hany⟩
      intro hnil
      rw [hp.since.mpr hnil] at hany
      cases hany
    have hpy : p.advance n = ({ p with now := p.now + n }, []) := if_neg hdue
    have hts : Ts.GapTracker.advance ⟨p.now, p.contiguous, p.timeout, p.held,
        p.seen.filter (· ∉ p.held), p.gapSince⟩ n = (⟨p.now + n, p.contiguous, p.timeout,
          p.held, p.seen.filter (· ∉ p.held), p.gapSince⟩, []) := if_neg hnot
    rw [hpy, hts]
    exact ⟨.wait n, ⟨hp.beyond, hp.held, hp.sorted, hp.since⟩, ⟨rfl, rfl, rfl, rfl, rfl, rfl⟩, rfl⟩

theorem bothStep_item (hp : p.Standing) (seq : Nat) (cls : HeldClass) :
    BothStep p (.item seq cls) (p.item seq cls) (Ts.GapTracker.item ⟨p.now, p.contiguous,
      p.timeout, p.held, p.seen.filter (· ∉ p.held), p.gapSince⟩ seq cls) := by
  by_cases hdup : seq ≤ p.contiguous ∨ seq ∈ p.seen
  · have hdup' : seq ≤ p.contiguous ∨ seq ∈ p.seen.filter (· ∉ p.held) ∨ seq ∈ p.held :=
      hdup.imp_right (hp.mem_seen seq).mp
    unfold GapTracker.item Ts.GapTracker.item
    rw [if_pos hdup, if_pos hdup']
    exact ⟨.duplicate hdup, hp, ⟨rfl, rfl, rfl, rfl, rfl, rfl⟩, rfl⟩
  · have hdup' : ¬ (seq ≤ p.contiguous ∨ seq ∈ p.seen.filter (· ∉ p.held) ∨ seq ∈ p.held) :=
      fun h => hdup (h.imp_right (hp.mem_seen seq).mpr)
    unfold GapTracker.item Ts.GapTracker.item
    rw [if_neg hdup, if_neg hdup']
    dsimp only
    rw [not_or, not_le] at hdup
    obtain ⟨hlt, hnew⟩ := hdup
    have hnew' : seq ∉ p.held := fun h => hnew (hp.held seq h)
    by_cases hnext : seq = p.contiguous + 1
    · subst hnext
      -- nothing held comes before the next seq
      have hgo : ¬ ((cls = .handshake ∧ p.contiguous + 1 < p.contiguous + 1) ∨
          p.held.head?.any (· < p.contiguous + 1) = true) := by
        rw [hp.head_lt]
        rintro (⟨-, h⟩ | ⟨k, hk, hkl⟩)
        · exact lt_irrefl _ h
        · exact absurd (hp.beyond k (hp.held k hk)) (by omega)
      rw [if_neg hgo, if_pos rfl]
      obtain ⟨c', hend, hdrain⟩ := GapTracker.drain_next hp
      rw [hdrain]
      obtain ⟨c'', hend', hloop⟩ := @Ts.GapTracker.drainLoop_spec _
        ⟨p.now, p.contiguous + 1, p.timeout, p.held, p.seen.filter (· ∉ p.held), p.gapSince⟩
        le_rfl (fun k hk => hp.beyond k (Finset.mem_filter.mp hk).1)
        (fun k hk => hp.beyond k (hp.held k hk)) hp.sorted
        (fun k hk => (Finset.mem_filter.mp hk).2)
      have hsame : c'' = c' := by
        refine (hend'.congr ?_).unique hend
        intro k _
        rw [Finset.mem_union, List.mem_toFinset, hp.mem_seen k]
      subst hsame
      have hts : Ts.GapTracker.drain ⟨p.now, p.contiguous + 1, p.timeout, p.held,
          p.seen.filter (· ∉ p.held), p.gapSince⟩ = (⟨p.now, c'', p.timeout,
            p.held.filter (c'' < ·), (p.seen.filter (· ∉ p.held)).filter (c'' < ·),
            if p.held.filter (c'' < ·) = [] then none else p.gapSince⟩,
          (p.held.filter (· ≤ c'')).map .process) := by
        unfold Ts.GapTracker.drain
        rw [hloop]
      rw [hts]
      refine ⟨.next hend, ⟨?_, ?_, ?_, ?_⟩, ⟨rfl, rfl, rfl, rfl, rfl, ?_⟩, rfl⟩
      · intro k hk
        obtain ⟨hin, hk⟩ := Finset.mem_filter.mp hk
        have hne : k ≠ c'' + 1 := fun he => hend.stop (he ▸ hin)
        show c'' + 1 < k
        omega
      · intro k hk
        obtain ⟨hin, hk⟩ := List.mem_filter.mp hk
        exact Finset.mem_filter.mpr ⟨hp.held k hin, of_decide_eq_true hk⟩
      · exact hp.sorted.filter _
      · dsimp only
        split
        case isTrue he => exact ⟨fun _ => he, fun _ => rfl⟩
        case isFalse hne =>
          refine ⟨fun hnone => ?_, fun he => absurd he hne⟩
          rw [hp.since.mp hnone]
          rfl
      · dsimp only
        ext k
        simp only [Finset.mem_filter, List.mem_filter, decide_eq_true_eq]
        tauto
    · have hbeyond : p.contiguous + 1 < seq := by omega
      rw [if_neg hnext]
      have hcond : ((cls = .handshake ∧ p.contiguous + 1 < seq) ∨ p.held.head?.any (· < seq) = true) ↔
          (cls = .handshake ∨ p.held.any (· < seq) = true) := by
        rw [hp.head_lt, List.any_eq_true]
        simp only [decide_eq_true_eq, hbeyond, and_true]
      have hseen : ∀ k ∈ insert seq p.seen, p.contiguous + 1 < k := by
        intro k hk
        rcases Finset.mem_insert.mp hk with rfl | hk
        · exact hbeyond
        · exact hp.beyond k hk
      by_cases hblocked : cls = .handshake ∨ p.held.any (· < seq) = true
      · rw [if_pos (hcond.mpr hblocked), if_pos hblocked]
        obtain ⟨hsorted, hmem⟩ := sorted_hold hp.sorted hnew'
        have hheld : ∀ k ∈ (p.held ++ [seq]).insertionSort (· ≤ ·), k ∈ insert seq p.seen := by
          intro k hk
          rcases (hmem k).mp hk with hk | rfl
          · exact Finset.mem_insert_of_mem (hp.held k hk)
          · exact Finset.mem_insert_self _ _
        have hsome : (p.held ++ [seq]).insertionSort (· ≤ ·) ≠ [] :=
          List.ne_nil_of_mem ((hmem seq).mpr (.inr rfl))
        have hsince : some (p.gapSince.getD p.now) = none ↔ (p.held ++ [seq]).insertionSort (· ≤ ·) = [] :=
          ⟨fun h => absurd h (Option.some_ne_none _), fun h => absurd h hsome⟩
        rw [@GapTracker.drain_still { p with
          seen := insert seq p.seen
          held := (p.held ++ [seq]).insertionSort (· ≤ ·)
          gapSince := some (p.gapSince.getD p.now) } hseen hheld hsince]
        refine ⟨.hold hbeyond hnew hmem, ⟨hseen, hheld, hsorted, hsince⟩, ⟨rfl, rfl, rfl, rfl, rfl, ?_⟩, rfl⟩
        dsimp only
        ext k
        simp only [Finset.mem_filter, Finset.mem_insert, hmem k]
        constructor
        · rintro ⟨hk, hno⟩
          refine ⟨.inr hk, ?_⟩
          rintro (h | rfl)
          · exact hno h
          · exact hnew hk
        · rintro ⟨rfl | hk, hno⟩
          · exact absurd (.inr rfl) hno
          · exact ⟨hk, fun h => hno (.inl h)⟩
      · rw [if_neg fun h => hblocked (hcond.mp h), if_neg hblocked]
        rw [@GapTracker.drain_still { p with seen := insert seq p.seen } hseen
          (fun _ hk => Finset.mem_insert_of_mem (hp.held _ hk)) hp.since]
        rw [not_or, List.any_eq_true] at hblocked
        refine ⟨.jump hbeyond hnew hblocked.1 ?_, ⟨hseen,
          fun k hk => Finset.mem_insert_of_mem (hp.held k hk), hp.sorted, hp.since⟩,
          ⟨rfl, rfl, rfl, rfl, rfl, ?_⟩, rfl⟩
        · intro k hk
          refine lt_of_le_of_ne (not_lt.mp fun h => hblocked.2 ⟨k, hk, by simpa using h⟩) ?_
          rintro rfl
          exact hnew' hk
        · dsimp only
          rw [Finset.filter_insert, if_pos hnew']

/-- **One step**, of both. -/
theorem Tracks.act (h : Tracks p t) (hp : p.Standing) (e : GapEvent) : BothStep p e (p.act e) (t.act e) := by
  obtain ⟨tnow, tcontiguous, ttimeout, theld, tseen, tfirst⟩ := t
  obtain ⟨hnow, hcontiguous, htimeout, hheld, hsince, hseen⟩ := h
  dsimp only at hnow hcontiguous htimeout hheld hsince hseen
  subst hnow hcontiguous htimeout hheld hsince hseen
  cases e with
  | item seq cls => exact bothStep_item hp seq cls
  | advance n => exact bothStep_advance hp n

end Steps

theorem bothStep_of_standing {p : GapTracker} (hp : p.Standing) (e : GapEvent) :
    BothStep p e (p.act e) (Ts.GapTracker.act ⟨p.now, p.contiguous, p.timeout, p.held,
      p.seen.filter (· ∉ p.held), p.gapSince⟩ e) :=
  Tracks.act ⟨rfl, rfl, rfl, rfl, rfl, rfl⟩ hp e

theorem GapTracker.standing_init (ctx : GapContext) : (GapTracker.init ctx).Standing :=
  ⟨fun k hk => absurd hk (Finset.notMem_empty k), fun k hk => absurd hk List.not_mem_nil, .nil,
    ⟨fun _ => rfl, fun _ => rfl⟩⟩

theorem tracks_init (ctx : GapContext) : Tracks (GapTracker.init ctx) (Ts.GapTracker.init ctx) :=
  ⟨rfl, rfl, rfl, rfl, rfl, rfl⟩

theorem Tracks.exec {p : GapTracker} {t : Ts.GapTracker} (h : Tracks p t) (hp : p.Standing)
    (events : List GapEvent) :
    (TSys.exec Ts.GapTracker.step t events).1 = (TSys.exec GapTracker.step p events).1 := by
  induction events generalizing p t with
  | nil => rfl
  | cons e events ih =>
    obtain ⟨-, hp', h', hout⟩ := h.act hp e
    have hstep : (t.step e).2 = (p.step e).2 := by
      show GapOutput.mk (t.act e).2 (t.act e).1.contiguous (t.act e).1.held = _
      rw [hout, h'.contiguous, h'.held]
      rfl
    unfold TSys.exec
    dsimp only
    rw [hstep]
    exact congrArg (_ :: ·) (ih h' hp')

end Dsip.Messaging
