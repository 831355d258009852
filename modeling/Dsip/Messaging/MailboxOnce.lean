import Dsip.Messaging.Mailbox

/-!
# A mailbox stores each sequenced item once

A seq at or below the highest stored for its group is a redelivery. Once the
wait for a previous hub is given up, what that hub still delivers is told apart
by the list of late seqs instead. `Covers` is the invariant that makes the two
rules one: everything stored is below the highest seq or on the late list.

A late item leaves the highest seq alone, so while the new hub has stored
nothing above it, its redelivery passes both rules and is stored again
(`late_item_stored_twice`). Without such a redelivery (`Resends`) every run
stores an item once and answers what comes later as a duplicate
(`stored_once`).
-/

namespace Dsip.Messaging.Mailbox

open Dsip.Lib

/-- The seq of a hub's item, for every non-duplicate `accepted`. -/
def storedBy (g : String) : Event → List Emit → List Nat
  | .hubDeposit e, out =>
    if e.group = g then
      out.filterMap fun
        | .accepted _ _ _ false => e.seq
        | _ => none
    else []
  | _, _ => []

/-- The seqs of a group stored along a trace. -/
def stored (g : String) (tr : TSys.Trace Event (List Emit)) : List Nat :=
  tr.flatMap fun st => storedBy g st.1 st.2

theorem stored_snoc (g : String) (tr : TSys.Trace Event (List Emit)) (ev : Event)
    (out : List Emit) : stored g (tr ++ [(ev, out)]) = stored g tr ++ storedBy g ev out := by
  simp [stored]

/-! ## The runs of a registration -/

/-- An entry that does not leave the group, and moves it only when it has not
moved before: `previous` remembers a move. -/
def steadyEntry (g : String) (groups : Dict String Reg) (c : GroupConfig) : Bool :=
  c.group ≠ g || (groups.lookup g).all fun reg =>
    !c.left && (c.hub.all (· = reg.hub) || reg.previous.isNone)

def steadyEntries (g : String) (now : Nat) : Dict String Reg → List GroupConfig → Bool
  | _, [] => true
  | groups, c :: cs =>
    steadyEntry g groups c && steadyEntries g now (configGroup now groups c) cs

/-- The step neither leaves nor drops the group's registration, and moves it to
a new hub only if it has not moved before. -/
def Steady (g : String) (m : Mailbox) : Event → Prop
  | .config e => e.mode.all (fun t => (MailboxMode.parse t).isSome) →
      steadyEntries g m.now m.groups e.groups = true
  | .advance n => g ∈ m.groups → g ∈ (m.advance n).groups
  | _ => True

/-- The item is one the previous hub delivered late, and it is still above the
highest seq stored. -/
def Reg.resends (reg : Reg) (e : HubDeposit) : Bool :=
  reg.previous.any fun prev => e.sender = prev.hub && reg.hub ≠ prev.hub &&
    prev.release.any fun r => e.seq.any fun s => s ∈ r.late && reg.high < s

/-- The previous hub of the group sends such an item again. -/
def Resends (g : String) (m : Mailbox) : Event → Prop
  | .hubDeposit e => e.group = g ∧ e.recipient ∈ m.serves ∧ e.cls ≠ .ephemeral ∧
      (m.groups.lookup g).any (Reg.resends · e)
  | _ => False

instance (g : String) (m : Mailbox) : DecidablePred (Steady g m)
  | .config _ => inferInstanceAs (Decidable (_ → _))
  | .advance _ => inferInstanceAs (Decidable (_ → _))
  | .firstContact _ | .welcome _ | .hubDeposit _ | .forwardFailed _ _ | .forward _ | .sync _
  | .unbind _ | .archive _ | .kpUpload _ | .kpFetch _ | .restart =>
    inferInstanceAs (Decidable True)

instance (g : String) (m : Mailbox) : DecidablePred (Resends g m)
  | .hubDeposit _ => inferInstanceAs (Decidable (_ ∧ _))
  | .config _ | .advance _ | .firstContact _ | .welcome _ | .forwardFailed _ _ | .forward _
  | .sync _ | .unbind _ | .archive _ | .kpUpload _ | .kpFetch _ | .restart =>
    inferInstanceAs (Decidable False)

/-! ## What a hub's deposit can do -/

/-- How a registration takes an item in: as the registration left by the
admission, whether it is late, and what is announced first. -/
inductive Admitted (e : HubDeposit) (reg : Reg) : Reg → Bool → List Emit → Prop
  | plain : reg.previous = none → e.sender = reg.hub → Admitted e reg reg false []
  | previous (prev : Previous) (s : Nat) : reg.previous = some prev → e.sender = prev.hub →
      reg.hub ≠ e.sender → e.seq = some s → s ≤ prev.through →
      Admitted e reg reg (Previous.isLate prev s) []
  | current (prev : Previous) : reg.previous = some prev → e.sender = reg.hub →
      (∀ s, e.seq = some s → prev.through < s) → Admitted e reg reg false []
  | expired (prev : Previous) : reg.previous = some prev → e.sender = reg.hub →
      reg.high < prev.through → prev.release = none → (∀ s, e.seq = some s → prev.through < s) →
      Admitted e reg (Reg.expire reg prev) false
        [.handoverExpired e.group prev.hub (missing reg prev)]

/-- The hubs a registration takes a seq from: its hub, past the move; and the
previous one, up to it. -/
def Reg.Takes (reg : Reg) (sender : String) (s : Nat) : Prop :=
  match reg.previous with
  | none => sender = reg.hub
  | some prev => (sender = prev.hub ∧ reg.hub ≠ sender ∧ s ≤ prev.through) ∨
      (sender = reg.hub ∧ prev.through < s)

/-- The mailbox takes the seq from the sender. -/
def Takes (m : Mailbox) (e : HubDeposit) (s : Nat) : Prop :=
  e.recipient ∈ m.serves ∧ ∃ reg, m.groups.lookup e.group = some reg ∧ Reg.Takes reg e.sender s

/-- Everything the admission of a hub's item can do. -/
inductive HubOutcome (m : Mailbox) (e : HubDeposit) : Mailbox × List Emit → Prop
  | refused (reason : String) : (∀ s, e.seq = some s → ¬ m.Takes e s) →
      HubOutcome m e (m, error e.sender e.id reason)
  | waiting (reg : Reg) (prev : Previous) : m.groups.lookup e.group = some reg →
      reg.previous = some prev → e.sender = reg.hub → reg.high < prev.through →
      prev.release = none → HubOutcome m e (m, unknownGroup e)
  | blocked (reg : Reg) (prev : Previous) : (∀ s, e.seq = some s → ¬ m.Takes e s) →
      m.groups.lookup e.group = some reg → reg.previous = some prev →
      reg.high < prev.through → prev.release = none →
      HubOutcome m e ({ m with groups := m.groups.insert e.group (Reg.expire reg prev) },
        .handoverExpired e.group prev.hub (missing reg prev) :: error e.sender e.id "policy.blocked")
  | admitted (reg : Reg) (late : Bool) : e.recipient ∈ m.serves →
      m.groups.lookup e.group = some reg → Admitted e reg reg late [] →
      HubOutcome m e (m.deliver e reg late [])
  | expired (reg : Reg) (prev : Previous) : m.groups.lookup e.group = some reg →
      e.recipient ∈ m.serves → reg.previous = some prev → e.sender = reg.hub →
      reg.high < prev.through → prev.release = none →
      (∀ s, e.seq = some s → prev.through < s) →
      HubOutcome m e
        ({ m with groups := m.groups.insert e.group (Reg.expire reg prev) }.deliver e
          (Reg.expire reg prev) false
          [.handoverExpired e.group prev.hub (missing reg prev)])

variable {prev : Previous} {s : Nat}

theorem not_takes_of_current {m : Mailbox} {e : HubDeposit} {reg : Reg}
    (hl : m.groups.lookup e.group = some reg) (hp : reg.previous = some prev)
    (hhub : e.sender = reg.hub) (hle : s ≤ prev.through) : ¬ m.Takes e s := by
  rintro ⟨-, reg', hl', ht⟩
  obtain rfl : reg = reg' := Option.some.inj (hl.symm.trans hl')
  unfold Reg.Takes at ht
  rw [hp] at ht
  rcases ht with ⟨-, hne, -⟩ | ⟨-, hlt⟩
  · exact hne hhub.symm
  · omega

theorem hubDeposit_outcome (m : Mailbox) (e : HubDeposit) : HubOutcome m e (m.hubDeposit e) := by
  have hthrough : ∀ prev : Previous, ¬ e.seq.any (· ≤ prev.through) →
      ∀ s, e.seq = some s → prev.through < s := by
    intro prev hseq s hs
    rw [hs] at hseq
    simpa using hseq
  unfold hubDeposit
  by_cases hrec : e.recipient ∈ m.serves
  case neg =>
    rw [if_pos hrec]
    exact .refused _ fun s _ ht => hrec ht.1
  rw [if_neg (not_not.mpr hrec)]
  cases hl : m.groups.lookup e.group with
  | none =>
    refine .refused _ fun s _ ht => ?_
    obtain ⟨-, reg, hl', -⟩ := ht
    rw [hl] at hl'
    cases hl'
  | some reg =>
    have htakes : ∀ s, m.Takes e s → Reg.Takes reg e.sender s := by
      rintro s ⟨-, reg', hl', ht⟩
      obtain rfl : reg = reg' := Option.some.inj (hl.symm.trans hl')
      exact ht
    unfold Reg.Takes at htakes
    dsimp only
    cases hp : reg.previous with
    | none =>
      rw [hp] at htakes
      dsimp only
      split
      case isTrue hhub => exact .refused _ fun s _ ht => hhub (htakes s ht).symm
      case isFalse hhub =>
        exact .admitted reg false hrec hl (.plain hp (not_not.mp hhub).symm)
    | some prev =>
      rw [hp] at htakes
      dsimp only
      split
      case isTrue hprev =>
        unfold fromPrevious
        split
        case h_1 hs => exact .refused _ fun s hs' => by rw [hs] at hs'; cases hs'
        case h_2 s hs =>
          split
          case isTrue hlt =>
            refine .refused _ fun s' hs' ht => ?_
            obtain rfl : s = s' := Option.some.inj (hs.symm.trans hs')
            rcases htakes s ht with ⟨-, -, hle⟩ | ⟨hhub, -⟩
            · omega
            · exact hprev.2 hhub.symm
          case isFalse hle =>
            exact .admitted reg _ hrec hl
              (.previous prev s hp hprev.1 hprev.2 hs (not_lt.mp hle))
      case isFalse hprev =>
        split
        case isTrue hne =>
          refine .refused _ fun s _ ht => ?_
          rcases htakes s ht with ⟨hhub, hne', -⟩ | ⟨hhub, -⟩
          · exact hprev ⟨hhub, hne'⟩
          · exact hne hhub.symm
        case isFalse hhub =>
          have hsender : e.sender = reg.hub := (not_not.mp hhub).symm
          have hblocked : e.seq.any (· ≤ prev.through) → ∀ s, e.seq = some s → ¬ m.Takes e s := by
            intro hseq s hs
            rw [hs] at hseq
            exact not_takes_of_current hl hp hsender (by simpa using hseq)
          split
          case isTrue hwait =>
            split
            case isTrue => exact .waiting reg prev hl hp hsender hwait.1 hwait.2
            case isFalse =>
              unfold fromCurrent
              split
              case isTrue hseq =>
                exact .blocked reg prev (hblocked hseq) hl hp hwait.1 hwait.2
              case isFalse hseq =>
                exact .expired reg prev hl hrec hp hsender hwait.1 hwait.2
                  (hthrough prev hseq)
          case isFalse =>
            unfold fromCurrent
            split
            case isTrue hseq => exact .refused _ (hblocked hseq)
            case isFalse hseq =>
              exact .admitted reg false hrec hl
                (.current prev hp hsender (hthrough prev hseq))

/-- A redelivery, by the two rules. -/
def Repeats (reg : Reg) (late : Bool) (e : HubDeposit) : Prop :=
  ∃ s, e.seq = some s ∧ s ≤ reg.high ∧ late = false

/-- Everything an admitted item can come to. -/
inductive DeliverOutcome (m : Mailbox) (e : HubDeposit) (reg : Reg) (late : Bool)
    (out : List Emit) : Mailbox × List Emit → Prop
  | dropped : e.cls = .ephemeral → DeliverOutcome m e reg late out (m, out)
  | relayed : e.cls = .ephemeral →
      DeliverOutcome m e reg late out (m, out ++ (sorted m.bound).map .pushEphemeral)
  | duplicate (s : Nat) : e.cls ≠ .ephemeral → e.seq = some s → Repeats reg late e →
      DeliverOutcome m e reg late out
        (m, [.accepted e.sender e.id ((m.retained e.group s).map (·.cursor)) true])
  | full (out' : List Emit) : e.cls ≠ .ephemeral → ¬ Repeats reg late e →
      out' = [] ∨ out' = out → DeliverOutcome m e reg late out
        (m, out' ++ error e.sender e.id "mailbox.quota-exceeded")
  | stored (m' : Mailbox) (c : String) : e.cls ≠ .ephemeral → ¬ Repeats reg late e →
      m'.groups = m.groups.insert e.group (Reg.stored reg e.seq late) →
      DeliverOutcome m e reg late out
        (m', out ++ .accepted e.sender e.id (some c) false :: m.pushes none c)

theorem deliver_outcome (m : Mailbox) (e : HubDeposit) (reg : Reg) (late : Bool)
    (out : List Emit) : DeliverOutcome m e reg late out (m.deliver e reg late out) := by
  unfold deliver
  split
  case isTrue heph =>
    split
    case isTrue => exact .dropped heph
    case isFalse => exact .relayed heph
  case isFalse heph =>
    cases hs : e.seq.filter fun s => s ≤ reg.high ∧ !late with
    | some s =>
      obtain ⟨hseq, hle⟩ := Option.filter_eq_some_iff.mp hs
      simp only [Bool.not_eq_true', decide_eq_true_eq] at hle
      exact .duplicate s heph hseq ⟨s, hseq, hle⟩
    | none =>
      have hnew : ¬ Repeats reg late e := by
        rintro ⟨s, hseq, hle, hlate⟩
        rw [hseq] at hs
        simp [hlate] at hs
        omega
      dsimp only
      split
      case isTrue => exact .full [] heph hnew (.inl rfl)
      case isFalse =>
        split
        case isTrue => exact .full out heph hnew (.inr rfl)
        case isFalse => exact .stored _ _ heph hnew rfl

/-! ## The invariant -/

/-- The late list of a registration, empty while nothing is released. -/
def Reg.late (reg : Reg) : List Nat :=
  match reg.previous.bind Previous.release with
  | none => []
  | some r => r.late

theorem Reg.late_of_release {reg : Reg} {r : Release}
    (hp : reg.previous = some prev) (hr : prev.release = some r) : Reg.late reg = r.late := by
  simp [Reg.late, hp, hr]

theorem Reg.late_of_waiting {reg : Reg} (hp : reg.previous = some prev)
    (hr : prev.release = none) : Reg.late reg = [] := by
  simp [Reg.late, hp, hr]

theorem Reg.late_of_unmoved {reg : Reg} (hp : reg.previous = none) : Reg.late reg = [] := by
  simp [Reg.late, hp]

/-- Everything stored is below the highest seq or on the late list; and between
the release and the move only the late list was stored. -/
structure Covers (seqs : List Nat) (reg : Reg) : Prop where
  covered : ∀ s ∈ seqs, s ≤ reg.high ∨ s ∈ Reg.late reg
  below : ∀ prev r, reg.previous = some prev → prev.release = some r → r.released ≤ reg.high
  through : ∀ prev, reg.previous = some prev → ∀ s ∈ Reg.late reg, s ≤ prev.through
  listed : ∀ prev r, reg.previous = some prev → prev.release = some r →
    ∀ s ∈ seqs, r.released < s → s ≤ prev.through → s ∈ r.late

variable {seqs : List Nat} {reg : Reg}

theorem covers_nil (reg : Reg) (hp : reg.previous = none) : Covers [] reg where
  covered := by simp
  below prev r h := by rw [hp] at h; cases h
  through prev h := by rw [hp] at h; cases h
  listed := by simp

theorem Covers.expire (hc : Covers seqs reg) (hp : reg.previous = some prev)
    (hr : prev.release = none) : Covers seqs (Reg.expire reg prev) where
  covered s hs := .inl ((hc.covered s hs).resolve_right (by rw [Reg.late_of_waiting hp hr]; simp))
  below prev' r hp' hr' := by
    obtain rfl : _ = prev' := Option.some.inj hp'
    obtain rfl : _ = r := Option.some.inj hr'
    exact le_rfl
  through prev' _ s hs := by simp [Reg.late, Reg.expire] at hs
  listed prev' r hp' hr' s hs hlt _ := by
    obtain rfl : _ = prev' := Option.some.inj hp'
    obtain rfl : _ = r := Option.some.inj hr'
    have hle := (hc.covered s hs).resolve_right (by rw [Reg.late_of_waiting hp hr]; simp)
    exact absurd hlt (not_lt.mpr hle)

theorem Covers.rehome {g : GroupConfig} (now : Nat) (hc : Covers seqs reg)
    (hsteady : g.hub.all (· = reg.hub) || reg.previous.isNone) :
    Covers seqs (Reg.rehome { reg with state := .joined } now g) := by
  have hjoined : Covers seqs { reg with state := .joined } := ⟨hc.covered, hc.below, hc.through, hc.listed⟩
  unfold Reg.rehome
  cases hh : g.hub with
  | none => exact hjoined
  | some hub =>
    dsimp only
    split
    case isTrue => exact hjoined
    case isFalse hne =>
      have hp : reg.previous = none := by
        rw [hh, Option.all_some, decide_eq_false hne, Bool.false_or] at hsteady
        exact Option.isNone_iff_eq_none.mp hsteady
      constructor
      · intro s hs
        exact .inl ((hc.covered s hs).resolve_right (by simp [Reg.late_of_unmoved hp]))
      · intro prev r hp' hr'
        obtain rfl : _ = prev := Option.some.inj hp'
        cases hr'
      · intro prev _ s hs
        simp [Reg.late] at hs
      · intro prev r hp' hr'
        obtain rfl : _ = prev := Option.some.inj hp'
        cases hr'

section Admission

variable {e : HubDeposit} {reg' : Reg} {late : Bool} {out : List Emit}

theorem Admitted.covers (ha : Admitted e reg reg' late out) (hc : Covers seqs reg) : Covers seqs reg' := by
  cases ha with
  | plain | previous | current => exact hc
  | expired prev hp _ _ hr => exact hc.expire hp hr

/-- An item that was stored is a redelivery when it is admitted, unless the
previous hub sends a late one again above the highest seq. -/
theorem Admitted.repeats (ha : Admitted e reg reg' late out) (hc : Covers seqs reg)
    (hseq : e.seq = some s) (hs : s ∈ seqs) (hn : Reg.resends reg e = false) : Repeats reg' late e := by
  cases ha with
  | plain hp =>
    have hle := (hc.covered s hs).resolve_right (by simp [Reg.late_of_unmoved hp])
    exact ⟨s, hseq, hle, rfl⟩
  | current prev hp hhub hthrough =>
    have hlt := hthrough s hseq
    have hle := (hc.covered s hs).resolve_right fun hl => by
      have := hc.through prev hp s hl
      omega
    exact ⟨s, hseq, hle, rfl⟩
  | expired prev hp hhub hhigh hr hthrough =>
    have hlt := hthrough s hseq
    have hle := (hc.covered s hs).resolve_right (by simp [Reg.late_of_waiting hp hr])
    omega
  | previous prev s' hp hhub hne hseq' hle =>
    obtain rfl : s = s' := Option.some.inj (hseq.symm.trans hseq')
    cases hr : prev.release with
    | none =>
      have hhigh := (hc.covered s hs).resolve_right (by simp [Reg.late_of_waiting hp hr])
      exact ⟨s, hseq, hhigh, by simp [Previous.isLate, hr]⟩
    | some r =>
      have hlate : Previous.isLate prev s = false := by
        by_contra hl
        simp only [Previous.isLate, hr, Option.any_some, Bool.not_eq_false, decide_eq_true_eq] at hl
        exact hl.2 (hc.listed prev r hp hr s hs hl.1 hle)
      refine ⟨s, hseq, ?_, hlate⟩
      rcases hc.covered s hs with hhigh | hmem
      · exact hhigh
      · -- on the late list, so above the highest seq it would be one of `Resends`
        rw [Reg.late_of_release hp hr] at hmem
        have hne' : reg.hub ≠ prev.hub := hhub ▸ hne
        simpa [Reg.resends, hp, hr, hhub, hne', hseq, hmem] using hn

theorem Admitted.late_cases (ha : Admitted e reg reg' true out) :
    ∃ prev r s, reg'.previous = some prev ∧ prev.release = some r ∧ e.seq = some s ∧ s ≤ prev.through := by
  generalize hl : true = l at ha
  cases ha with
  | plain | current | expired => cases hl
  | previous prev s hp _ _ hseq hle =>
    cases hr : prev.release with
    | none => simp [Previous.isLate, hr] at hl
    | some r => exact ⟨prev, r, s, hp, hr, hseq, hle⟩

theorem Admitted.listed_of_onTime (ha : Admitted e reg reg' false out)
    (hseq : e.seq = some s) {r : Release} (hp : reg'.previous = some prev)
    (hr : prev.release = some r) (hlt : r.released < s) (hle : s ≤ prev.through) : s ∈ r.late := by
  generalize hl : false = l at ha
  cases ha with
  | plain hp' =>
    rw [hp'] at hp
    cases hp
  | current prev' hp' _ hthrough =>
    obtain rfl : prev' = prev := Option.some.inj (hp'.symm.trans hp)
    exact absurd (hthrough s hseq) (not_lt.mpr hle)
  | expired prev' _ _ _ _ hthrough =>
    obtain rfl : _ = prev := Option.some.inj hp
    exact absurd (hthrough s hseq) (not_lt.mpr hle)
  | previous prev' s' hp' _ _ hseq' _ =>
    obtain rfl : prev' = prev := Option.some.inj (hp'.symm.trans hp)
    obtain rfl : s = s' := Option.some.inj (hseq.symm.trans hseq')
    have hon : Previous.isLate prev' s = false := hl.symm
    simpa [Previous.isLate, hr, hlt] using hon

theorem Covers.stored_late {r : Release} (hc : Covers seqs reg)
    (hp : reg.previous = some prev) (hr : prev.release = some r) (hle : s ≤ prev.through) :
    Covers (seqs ++ [s]) (Reg.stored reg (some s) true) := by
  have hp' : (Reg.stored reg (some s) true).previous =
      some { prev with release := some { r with late := r.late ++ [s] } } := by
    simp [Reg.stored, hp, hr]
  have hlate : Reg.late (Reg.stored reg (some s) true) = Reg.late reg ++ [s] := by
    rw [Reg.late_of_release hp' rfl, Reg.late_of_release hp hr]
  constructor
  · intro t ht
    rw [hlate]
    rcases List.mem_append.mp ht with ht | ht
    · exact (hc.covered t ht).imp id fun h => List.mem_append_left _ h
    · exact .inr (List.mem_append_right _ ht)
  · intro prev' r' hprev hrel
    obtain rfl : _ = prev' := Option.some.inj (hp'.symm.trans hprev)
    obtain rfl : _ = r' := Option.some.inj hrel
    exact hc.below prev r hp hr
  · intro prev' hprev t ht
    obtain rfl : _ = prev' := Option.some.inj (hp'.symm.trans hprev)
    rw [hlate] at ht
    rcases List.mem_append.mp ht with ht | ht
    · exact hc.through prev hp t ht
    · rw [List.mem_singleton.mp ht]
      exact hle
  · intro prev' r' hprev hrel t ht hlt hle'
    obtain rfl : _ = prev' := Option.some.inj (hp'.symm.trans hprev)
    obtain rfl : _ = r' := Option.some.inj hrel
    rcases List.mem_append.mp ht with ht | ht
    · exact List.mem_append_left _ (hc.listed prev r hp hr t ht hlt hle')
    · exact List.mem_append_right _ ht

theorem Covers.stored_onTime (hc : Covers seqs reg) (hs : reg.high < s)
    (hlisted : ∀ prev r, reg.previous = some prev → prev.release = some r → r.released < s →
      s ≤ prev.through → s ∈ r.late) : Covers (seqs ++ [s]) (Reg.stored reg (some s) false) := by
  have hhigh : (Reg.stored reg (some s) false).high = s := rfl
  have hlate : Reg.late (Reg.stored reg (some s) false) = Reg.late reg := rfl
  constructor
  · intro t ht
    rw [hhigh, hlate]
    rcases List.mem_append.mp ht with ht | ht
    · exact (hc.covered t ht).imp (fun h => (h.trans_lt hs).le) id
    · exact .inl (List.mem_singleton.mp ht).le
  · intro prev r hp hr
    rw [hhigh]
    exact (hc.below prev r hp hr).trans hs.le
  · intro prev hp t ht
    exact hc.through prev hp t ht
  · intro prev r hp hr t ht hlt hle
    rcases List.mem_append.mp ht with ht | ht
    · exact hc.listed prev r hp hr t ht hlt hle
    · obtain rfl : t = s := List.mem_singleton.mp ht
      exact hlisted prev r hp hr hlt hle

theorem Admitted.stored (ha : Admitted e reg reg' late out) (hc : Covers seqs reg)
    (hn : ¬ Repeats reg' late e) : Covers (seqs ++ e.seq.toList) (Reg.stored reg' e.seq late) := by
  have hc' := ha.covers hc
  cases hseq : e.seq with
  | none =>
    simp only [Option.toList_none, List.append_nil]
    exact ⟨hc'.covered, hc'.below, hc'.through, hc'.listed⟩
  | some s =>
    cases late with
    | true =>
      obtain ⟨prev, r, s', hp, hr, hseq', hle⟩ := ha.late_cases
      obtain rfl : s = s' := Option.some.inj (hseq.symm.trans hseq')
      exact hc'.stored_late hp hr hle
    | false =>
      refine hc'.stored_onTime ?_ fun prev r hp hr => ha.listed_of_onTime hseq hp hr
      by_contra hle
      exact hn ⟨s, hseq, not_lt.mp hle, rfl⟩

end Admission

/-- The seqs stored for a group, and its registration. -/
structure Once (g : String) (seqs : List Nat) (m : Mailbox) : Prop where
  nodup : seqs.Nodup
  fresh : m.groups.lookup g = none → seqs = []
  covers : ∀ reg, m.groups.lookup g = some reg → Covers seqs reg

variable {g : String} {m m' : Mailbox}

theorem Once.of_lookup (ho : Once g seqs m) (hl : m'.groups.lookup g = m.groups.lookup g) :
    Once g seqs m' where
  nodup := ho.nodup
  fresh h := ho.fresh (hl ▸ h)
  covers reg h := ho.covers reg (hl ▸ h)

theorem Once.of_insert {k : String} {reg' : Reg} (ho : Once g seqs m)
    (hgroups : ∀ j, m'.groups.lookup j = if j = k then some reg' else m.groups.lookup j)
    (hc : k = g → Covers seqs reg') : Once g seqs m' where
  nodup := ho.nodup
  fresh h := by
    rw [hgroups] at h
    split at h
    case isTrue => cases h
    case isFalse => exact ho.fresh h
  covers reg h := by
    rw [hgroups] at h
    split at h
    case isTrue hk =>
      obtain rfl : reg' = reg := Option.some.inj h
      exact hc hk.symm
    case isFalse => exact ho.covers reg h

/-! ## Every event -/

theorem storedBy_error (e : HubDeposit) (reason : String) :
    storedBy g (.hubDeposit e) (error e.sender e.id reason) = [] := by
  simp [storedBy, error]

theorem storedBy_append (e : HubDeposit) (out out' : List Emit) : storedBy g (.hubDeposit e) (out ++ out') =
      storedBy g (.hubDeposit e) out ++ storedBy g (.hubDeposit e) out' := by
  simp only [storedBy]
  split
  · exact List.filterMap_append
  · rfl

theorem Admitted.announces {e : HubDeposit} {reg reg' : Reg} {late : Bool} {out : List Emit}
    (ha : Admitted e reg reg' late out) : storedBy g (.hubDeposit e) out = [] := by
  cases ha <;> simp [storedBy]

theorem storedBy_pushes (e : HubDeposit) (c : String) :
    storedBy g (.hubDeposit e) (m.pushes none c) = [] := by
  simp [storedBy, pushes]

theorem deliver_once {e : HubDeposit} {reg reg' : Reg} {late : Bool} {out : List Emit}
    (ho : Once g seqs m) (hl : m.groups.lookup e.group = some reg) (ha : Admitted e reg reg' late out)
    (hgroups : ∀ j, m'.groups.lookup j = if j = e.group then some reg' else m.groups.lookup j)
    (hn : e.group = g → e.cls ≠ .ephemeral → Reg.resends reg e = false) :
    Once g (seqs ++ storedBy g (.hubDeposit e) (m'.deliver e reg' late out).2)
      (m'.deliver e reg' late out).1 := by
  have hcovers : e.group = g → Covers seqs reg := fun hg => ho.covers reg (hg ▸ hl)
  have hm' : Once g seqs m' := ho.of_insert hgroups fun hg => ha.covers (hcovers hg)
  have hd := deliver_outcome m' e reg' late out
  generalize m'.deliver e reg' late out = r at hd ⊢
  cases hd with
  | dropped => simpa [ha.announces] using hm'
  | relayed =>
    rw [storedBy_append, ha.announces]
    have hpush : storedBy g (.hubDeposit e) ((sorted m'.bound).map .pushEphemeral) = [] := by
      simp [storedBy]
    simpa [hpush] using hm'
  | duplicate s => simpa [storedBy] using hm'
  | full out' _ _ hout =>
    have hnil : storedBy g (.hubDeposit e) out' = [] := by
      rcases hout with rfl | rfl
      · simp [storedBy]
      · exact ha.announces
    simpa [storedBy_append, hnil, storedBy_error] using hm'
  | stored m'' c hcls hnew hg' =>
    have hlookup : ∀ j, m''.groups.lookup j =
        if j = e.group then some (Reg.stored reg' e.seq late) else m.groups.lookup j := by
      intro j
      rw [hg', Dict.lookup_insert_eq, hgroups]
      split <;> rfl
    by_cases hg : e.group = g
    · have hby : storedBy g (.hubDeposit e)
          (out ++ .accepted e.sender e.id (some c) false :: m'.pushes none c) = e.seq.toList := by
        rw [storedBy_append, ha.announces, List.nil_append, List.singleton_append.symm,
          storedBy_append, storedBy_pushes, List.append_nil]
        cases hseq : e.seq <;> simp [storedBy, hg, hseq]
      rw [hby]
      have hcov := ha.stored (hcovers hg) hnew
      constructor
      · rw [List.nodup_append]
        refine ⟨ho.nodup, by cases e.seq <;> simp, ?_⟩
        intro a hmem b hb hab
        have hseq : e.seq = some b := Option.mem_toList.mp hb
        exact hnew (ha.repeats (hcovers hg) hseq (hab ▸ hmem) (hn hg hcls))
      · intro h
        rw [hlookup, if_pos hg.symm] at h
        cases h
      · intro reg'' h
        rw [hlookup, if_pos hg.symm] at h
        obtain rfl : _ = reg'' := Option.some.inj h
        exact hcov
    · have hby : storedBy g (.hubDeposit e)
          (out ++ .accepted e.sender e.id (some c) false :: m'.pushes none c) = [] := by
        simp [storedBy, hg]
      rw [hby, List.append_nil]
      exact ho.of_insert hlookup fun h => absurd h hg

theorem hubDeposit_once (e : HubDeposit) (ho : Once g seqs m) (hn : ¬ Resends g m (.hubDeposit e)) :
    Once g (seqs ++ storedBy g (.hubDeposit e) (m.hubDeposit e).2) (m.hubDeposit e).1 := by
  have hresends : ∀ reg, e.recipient ∈ m.serves → m.groups.lookup e.group = some reg →
      e.group = g → e.cls ≠ .ephemeral → Reg.resends reg e = false := by
    intro reg hrec hl hg hcls
    by_contra hr
    rw [hg] at hl
    exact hn ⟨hg, hrec, hcls, by simpa [hl] using hr⟩
  have hout := hubDeposit_outcome m e
  generalize m.hubDeposit e = r at hout ⊢
  cases hout with
  | refused reason => simpa [storedBy_error] using ho
  | waiting => simpa [storedBy_error, unknownGroup] using ho
  | blocked reg prev _ hl hp hhigh hr =>
    have hnil : storedBy g (.hubDeposit e) (.handoverExpired e.group prev.hub (missing reg prev) ::
        error e.sender e.id "policy.blocked") = [] := by
      simp [storedBy, error]
    rw [hnil, List.append_nil]
    refine ho.of_insert (fun j => Dict.lookup_insert_eq m.groups j e.group _) fun hg => ?_
    exact (ho.covers reg (hg ▸ hl)).expire hp hr
  | admitted reg late hrec hl ha =>
    refine deliver_once ho hl ha ?_ (hresends reg hrec hl)
    intro j
    split
    case isTrue hj => rw [hj, hl]
    case isFalse => rfl
  | expired reg prev hl hrec hp hhub hhigh hr hthrough =>
    exact deliver_once ho hl (.expired prev hp hhub hhigh hr hthrough)
      (fun j => Dict.lookup_insert_eq m.groups j e.group _) (hresends reg hrec hl)

/-! ### The other events store nothing of a hub -/

theorem configGroup_once (now : Nat) {c : GroupConfig} (ho : Once g seqs m)
    (hs : steadyEntry g m.groups c = true) : Once g seqs { m with groups := configGroup now m.groups c } := by
  by_cases hg : c.group = g
  case neg =>
    refine ho.of_lookup ?_
    have hne : g ≠ c.group := fun h => hg h.symm
    unfold configGroup
    dsimp only
    split
    case isTrue => exact AList.lookup_erase_ne hne
    case isFalse =>
      split
      case h_1 => exact AList.lookup_insert_ne hne
      case h_2 =>
        split
        case h_1 => rfl
        case h_2 => exact AList.lookup_insert_ne hne
  case pos =>
    cases hl : m.groups.lookup g with
    | none =>
      have hnil : seqs = [] := ho.fresh hl
      have hnew : ∀ groups : Dict String Reg, (∀ reg, groups.lookup g = some reg →
          reg.previous = none) → Once g seqs { m with groups := groups } := by
        intro groups hgroups
        subst hnil
        exact ⟨List.nodup_nil, fun _ => rfl, fun reg h => covers_nil reg (hgroups reg h)⟩
      refine hnew _ fun reg hreg => ?_
      unfold configGroup at hreg
      rw [hg] at hreg
      split at hreg
      case isTrue => simp at hreg
      case isFalse =>
        rw [hl] at hreg
        dsimp only at hreg
        split at hreg
        case h_1 => simp [hl] at hreg
        case h_2 =>
          rw [AList.lookup_insert] at hreg
          obtain rfl : _ = reg := Option.some.inj hreg
          rfl
    | some reg =>
      have hsteady : c.left = false ∧ (c.hub.all (· = reg.hub) || reg.previous.isNone) := by
        simpa [steadyEntry, hg, hl] using hs
      refine ho.of_insert (k := g) (fun j => ?_) fun _ =>
        (ho.covers reg hl).rehome now hsteady.2
      unfold configGroup
      rw [hsteady.1, hg, hl]
      exact Dict.lookup_insert_eq m.groups j g _

theorem configGroups_once (now : Nat) (cs : List GroupConfig) (ho : Once g seqs m)
    (hs : steadyEntries g now m.groups cs = true) :
    Once g seqs { m with groups := cs.foldl (configGroup now) m.groups } := by
  induction cs generalizing m with
  | nil => exact ho
  | cons c cs ih =>
    rw [steadyEntries, Bool.and_eq_true] at hs
    exact ih (configGroup_once now ho hs.1) hs.2

theorem revokeDevices_groups (devices : List String) (m : Mailbox) :
    (foldEmit revokeDevice m devices).1.groups = m.groups :=
  foldEmit_invariant (P := fun m' => m'.groups = m.groups) (fun _ _ _ h => h) m rfl

theorem applyConfig_groups (e : Config) (mode : MailboxMode) :
    (m.applyConfig e mode).1.groups = e.groups.foldl (configGroup m.now) m.groups :=
  revokeDevices_groups _ _

theorem config_once (e : Config) (ho : Once g seqs m) (hs : Steady g m (.config e)) :
    Once g seqs (m.config e).1 := by
  have happly : ∀ mode, steadyEntries g m.now m.groups e.groups = true →
      Once g seqs (m.applyConfig e mode).1 := by
    intro mode hentries
    refine (configGroups_once m.now e.groups ho hentries).of_lookup ?_
    rw [applyConfig_groups]
  unfold config
  cases hm : e.mode with
  | none => exact happly _ (hs (by simp [hm]))
  | some text =>
    dsimp only
    cases hp : MailboxMode.parse text with
    | none => exact ho
    | some mode => exact happly mode (hs (by simp [hm, hp]))

theorem lookup_dropGroups (l : List String) (m : Mailbox) (g : String) :
    (l.foldl dropGroup m).groups.lookup g = if g ∈ l then none else m.groups.lookup g := by
  induction l generalizing m with
  | nil => rfl
  | cons a l ih =>
    rw [List.foldl_cons, ih]
    simp only [dropGroup, Dict.lookup_erase_eq, List.mem_cons]
    by_cases hga : g = a
    · simp [hga]
    · simp [hga]

theorem advance_once (n : Nat) (ho : Once g seqs m) (hs : Steady g m (.advance n)) :
    Once g seqs (m.advance n) := by
  refine ho.of_lookup ?_
  have hl := lookup_dropGroups (lapsed
    { m with
      now := m.now + n
      items := m.items.filter fun it => it.expiresAt.all (m.now + n < ·) })
    { m with
      now := m.now + n
      items := m.items.filter fun it => it.expiresAt.all (m.now + n < ·) } g
  by_cases hmem : g ∈ m.groups
  · have hkept : g ∈ (m.advance n).groups := hs hmem
    obtain ⟨reg, hreg⟩ := Dict.mem_iff_lookup.mp hkept
    split at hl
    · rw [show (m.advance n).groups.lookup g = none from hl] at hreg
      cases hreg
    · exact hl
  · have hnone : m.groups.lookup g = none := AList.lookup_eq_none.mpr hmem
    rw [hnone]
    refine hl.trans ?_
    split
    · rfl
    · exact hnone

theorem registerPending_once (e : Welcome) (ho : Once g seqs m) : Once g seqs (m.registerPending e) := by
  unfold registerPending
  split
  case isTrue => exact ho
  case isFalse hmem =>
    -- a new registration: nothing of the group was stored before
    have hnone := AList.lookup_eq_none.mpr hmem
    refine ho.of_insert (fun j => Dict.lookup_insert_eq m.groups j e.group _) fun hg => ?_
    rw [hg] at hnone
    rw [ho.fresh hnone]
    exact covers_nil _ rfl

theorem welcome_once (e : Welcome) (ho : Once g seqs m) : Once g seqs (m.welcome e).1 := by
  unfold welcome
  split
  case isTrue => exact ho
  case isFalse =>
    split
    case h_1 => exact ho
    case h_2 =>
      split
      case isTrue => exact ho
      case isFalse =>
        split
        case h_1 => exact ho
        case h_2 =>
          split
          case isTrue => exact ho
          case isFalse => exact (registerPending_once e ho).of_lookup rfl

theorem meter_groups (keys : List String) {m m' : Mailbox} {retry : Option Nat}
    (h : m.meter keys = .ok (m', retry)) : m'.groups = m.groups := by
  induction keys generalizing m with
  | nil =>
    cases h
    rfl
  | cons key keys ih =>
    unfold meter at h
    dsimp only at h
    split at h
    case isTrue =>
      split at h
      case h_1 => cases h
      case h_2 =>
        cases h
        rfl
    case isFalse => exact (ih h).trans rfl

theorem hold_groups (e : FirstContact) (m : Mailbox) : (m.hold e).1.groups = m.groups := by
  unfold hold
  split
  · rfl
  · split <;> rfl

theorem firstContact_groups {e : FirstContact} {out : List Emit}
    (h : m.firstContact e = .ok (m', out)) : m'.groups = m.groups := by
  unfold firstContact at h
  split at h
  case isTrue =>
    obtain rfl : _ = m' := congrArg Prod.fst (Except.ok.inj h)
    exact hold_groups e _
  case isFalse =>
    dsimp only at h
    split at h
    case h_1 => cases h
    case h_2 hm =>
      obtain rfl : _ = m' := congrArg Prod.fst (Except.ok.inj h)
      exact meter_groups _ hm
    case h_3 hm =>
      obtain rfl : _ = m' := congrArg Prod.fst (Except.ok.inj h)
      have hmeter := meter_groups _ hm
      exact (hold_groups e _).trans hmeter

theorem acknowledge_groups {device : String} {ack : Option Int}
    (h : m.acknowledge device ack = .ok m') : m'.groups = m.groups := by
  unfold acknowledge at h
  split at h
  case h_1 =>
    cases h
    rfl
  case h_2 =>
    dsimp only at h
    split at h
    case isTrue =>
      split at h
      case h_1 => cases h
      case h_2 =>
        cases h
        rfl
    case isFalse =>
      cases h
      rfl

theorem sync_groups {e : Sync} {out : List Emit} (h : m.sync e = .ok (m', out)) : m'.groups = m.groups := by
  unfold sync at h
  split at h
  case h_1 =>
    split at h
    case h_1 => cases h
    case h_2 m₁ hack =>
      cases hp : (m₁.goLive e).page e _ with
      | error fault =>
        rw [hp] at h
        cases h
      | ok out' =>
        rw [hp] at h
        cases h
        rw [← acknowledge_groups hack]
        unfold goLive
        split <;> rfl
  case h_2 =>
    cases h
    rfl

theorem step_once {ev : Event} {out : List Emit} (hs : m.step ev = .ok (m', out))
    (ho : Once g seqs m) (hsteady : Steady g m ev) (hn : ¬ Resends g m ev) :
    Once g (seqs ++ storedBy g ev out) m' := by
  have hsame : storedBy g ev out = [] → m'.groups = m.groups → Once g (seqs ++ storedBy g ev out) m' := by
    intro hnil hgroups
    rw [hnil, List.append_nil]
    exact ho.of_lookup (congrArg (AList.lookup g) hgroups)
  cases ev with
  | firstContact e => exact hsame rfl (firstContact_groups hs)
  | sync e => exact hsame rfl (sync_groups hs)
  | hubDeposit e =>
    obtain rfl : _ = m' := congrArg Prod.fst (Except.ok.inj hs)
    obtain rfl : _ = out := congrArg Prod.snd (Except.ok.inj hs)
    exact hubDeposit_once e ho hn
  | advance n =>
    cases hs
    simpa [storedBy] using advance_once n ho hsteady
  | welcome e =>
    obtain rfl : _ = m' := congrArg Prod.fst (Except.ok.inj hs)
    simpa [storedBy] using welcome_once e ho
  | config e =>
    obtain rfl : _ = m' := congrArg Prod.fst (Except.ok.inj hs)
    simpa [storedBy] using config_once e ho hsteady
  | forwardFailed | forward | unbind | restart =>
    cases hs
    exact hsame rfl rfl
  | archive e =>
    obtain rfl : _ = m' := congrArg Prod.fst (Except.ok.inj hs)
    refine hsame rfl ?_
    unfold archive
    split
    · rfl
    · split
      · rfl
      · split <;> rfl
  | kpUpload e =>
    obtain rfl : _ = m' := congrArg Prod.fst (Except.ok.inj hs)
    refine hsame rfl ?_
    unfold kpUpload
    split <;> rfl
  | kpFetch e =>
    obtain rfl : _ = m' := congrArg Prod.fst (Except.ok.inj hs)
    refine hsame rfl ?_
    unfold kpFetch
    split
    · rfl
    · split
      · rfl
      · dsimp only
        split <;> rfl

/-! ## Whole runs -/

theorem once_init (g : String) (ctx : Context) : Once g [] (Mailbox.init ctx) where
  nodup := List.nodup_nil
  fresh _ := rfl
  covers reg h := by
    simp only [Mailbox.init, Dict.lookup_map, Option.map_eq_some_iff] at h
    obtain ⟨r, -, rfl⟩ := h
    exact covers_nil _ rfl

/-- The runs in which the group's registration is neither left nor dropped and
moves at most once, and the previous hub resends nothing late. -/
abbrev OnceRun (g : String) (ctx : Context) :=
  (machine ctx).RunWhere (fun _ m ev => Steady g m ev ∧ ¬ Resends g m ev) (Mailbox.init ctx)

theorem once_of_run {ctx : Context} {tr : TSys.Trace Event (List Emit)}
    (hr : OnceRun g ctx tr m) : Once g (stored g tr) m := by
  refine TSys.RunWhere.invariant (P := fun tr m => Once g (stored g tr) m) (once_init g ctx) ?_ hr
  intro tr m ev out m' _ ho hc hs
  rw [stored_snoc]
  exact step_once hs ho hc.1 hc.2

theorem Admitted.takes {e : HubDeposit} {reg' : Reg} {late : Bool} {out : List Emit}
    (ha : Admitted e reg reg' late out) (hseq : e.seq = some s) : Reg.Takes reg e.sender s := by
  unfold Reg.Takes
  cases ha with
  | plain hp hhub =>
    rw [hp]
    exact hhub
  | previous prev s' hp hhub hne hseq' hle =>
    obtain rfl : s = s' := Option.some.inj (hseq.symm.trans hseq')
    rw [hp]
    exact .inl ⟨hhub, hne, hle⟩
  | current prev hp hhub hthrough =>
    rw [hp]
    exact .inr ⟨hhub, hthrough s hseq⟩
  | expired prev hp hhub _ _ hthrough =>
    rw [hp]
    exact .inr ⟨hhub, hthrough s hseq⟩

/-- A refusal: nothing is stored, nothing pushed, and the answer is an error. -/
structure Refused (m : Mailbox) (e : HubDeposit) (m' : Mailbox) (out : List Emit) : Prop where
  items : m'.items = m.items
  errors : ∀ x ∈ out, (∃ reason, x = .error e.sender e.id reason none) ∨
    ∃ hub gap, x = .handoverExpired e.group hub gap
  error : ∃ reason, .error e.sender e.id reason none ∈ out

theorem refused_error (m : Mailbox) (e : HubDeposit) (reason : String) :
    Refused m e m (error e.sender e.id reason) where
  items := rfl
  errors _ hx := .inl ⟨reason, List.mem_singleton.mp hx⟩
  error := ⟨reason, List.mem_singleton.mpr rfl⟩

/-- What comes later of a seq that was stored: a duplicate where the mailbox
takes it, else a refusal. -/
theorem redelivered {e : HubDeposit} (ho : Once g seqs m) (hg : e.group = g)
    (hseq : e.seq = some s) (hcls : e.cls ≠ .ephemeral) (hs : s ∈ seqs)
    (hn : ¬ Resends g m (.hubDeposit e)) : (m.Takes e s → m.hubDeposit e =
      (m, [.accepted e.sender e.id ((m.retained g s).map (·.cursor)) true])) ∧
    (¬ m.Takes e s → Refused m e (m.hubDeposit e).1 (m.hubDeposit e).2) := by
  have hcovers : ∀ reg, m.groups.lookup e.group = some reg → Covers seqs reg := by
    intro reg hl
    exact ho.covers reg (hg ▸ hl)
  have hout := hubDeposit_outcome m e
  generalize m.hubDeposit e = r at hout ⊢
  cases hout with
  | refused reason hnot =>
    exact ⟨fun ht => absurd ht (hnot s hseq), fun _ => refused_error m e reason⟩
  | waiting reg prev hl hp hhub hhigh hr =>
    have hle := ((hcovers reg hl).covered s hs).resolve_right
      (by simp [Reg.late_of_waiting hp hr])
    have hnot : ¬ m.Takes e s := not_takes_of_current hl hp hhub (by omega)
    exact ⟨fun ht => absurd ht hnot, fun _ => refused_error m e _⟩
  | blocked reg prev hnot hl hp =>
    refine ⟨fun ht => absurd ht (hnot s hseq), fun _ => ⟨rfl, ?_, ?_⟩⟩
    · intro x hx
      rcases List.mem_cons.mp hx with rfl | hx
      · exact .inr ⟨_, _, rfl⟩
      · exact .inl ⟨_, List.mem_singleton.mp hx⟩
    · exact ⟨_, List.mem_cons_of_mem _ (List.mem_singleton.mpr rfl)⟩
  | admitted reg late hrec hl ha =>
    have htakes : m.Takes e s := ⟨hrec, reg, hl, ha.takes hseq⟩
    have hresends : Reg.resends reg e = false := by
      by_contra hr
      rw [hg] at hl
      exact hn ⟨hg, hrec, hcls, by simpa [hl] using hr⟩
    have hrep := ha.repeats (hcovers reg hl) hseq hs hresends
    refine ⟨fun _ => ?_, fun hnot => absurd htakes hnot⟩
    have hd := deliver_outcome m e reg late []
    generalize m.deliver e reg late [] = r at hd
    cases hd with
    | dropped heph => exact absurd heph hcls
    | relayed heph => exact absurd heph hcls
    | full _ _ hnew => exact absurd hrep hnew
    | stored _ _ _ hnew => exact absurd hrep hnew
    | duplicate s' _ hseq' _ =>
      obtain rfl : s = s' := Option.some.inj (hseq.symm.trans hseq')
      rw [hg]
  | expired reg prev hl hrec hp hhub hhigh hr hthrough =>
    -- what was stored is at or below the release, which the new hub does not send
    have hle := ((hcovers reg hl).covered s hs).resolve_right
      (by simp [Reg.late_of_waiting hp hr])
    have hlt := hthrough s hseq
    omega

/-- In every such run no seq of the group is stored twice, and whatever comes
later of a stored one is answered as a duplicate where the mailbox takes it, and
refused elsewhere. -/
theorem stored_once (g : String) (ctx : Context) {tr : TSys.Trace Event (List Emit)}
    (hr : OnceRun g ctx tr m) : (stored g tr).Nodup ∧
    ∀ e s, e.group = g → e.seq = some s → e.cls ≠ .ephemeral → s ∈ stored g tr →
      ¬ Resends g m (.hubDeposit e) →
      (m.Takes e s → ∃ c, m.step (.hubDeposit e) = .ok (m, [.accepted e.sender e.id c true])) ∧
      (¬ m.Takes e s → ∃ m' out, m.step (.hubDeposit e) = .ok (m', out) ∧ Refused m e m' out) := by
  have ho := once_of_run hr
  refine ⟨ho.nodup, fun e s hg hseq hcls hs hn => ?_⟩
  obtain ⟨htaken, hrefused⟩ := redelivered ho hg hseq hcls hs hn
  refine ⟨fun ht => ⟨_, congrArg Except.ok (htaken ht)⟩, fun ht => ⟨_, _, rfl, hrefused ht⟩⟩

/-- A deposit of the old hub `a`, or of the new hub `b`, for the group `g`. -/
def item (id sender : String) (seq : Option Nat) (cls : HeldClass) : Event :=
  .hubDeposit { id, sender, recipient := "bob", group := "g", seq, cls }

/-- The group moves through seq 5; the wait runs out and the new hub's item 6 is
stored; then the old hub's items 2 and 3 come late, 2 of them twice. -/
theorem stored_once_late : ∃ tr m, OnceRun "g" { owner := "bob", devices := ["b1"] } tr m ∧
      stored "g" tr = [1, 6, 2, 3] ∧ (stored "g" tr).Nodup := by
  obtain ⟨tr, m, hr, hs⟩ := TSys.exec?_runWhere step
    (fun _ m ev => Steady "g" m ev ∧ ¬ Resends "g" m ev) _
    (Mailbox.init { owner := "bob", devices := ["b1"] })
    [.config { id := "c1", device := "b1", groups := [{ group := "g", hub := some "a" }] },
     item "m1" "a" (some 1) .application,
     .config { id := "c2", device := "b1",
               groups := [{ group := "g", hub := some "b", handoverSeq := some 5 }] },
     .advance 300, item "m6" "b" (some 6) .application, item "m2" "a" (some 2) .application,
     item "m3" "a" (some 3) .application, item "m2" "a" (some 2) .application]
    (fun r => stored "g" r.1 = [1, 6, 2, 3]) (by decide) (by decide)
  exact ⟨tr, m, hr, by simpa using hs, (stored_once "g" _ hr).1⟩

/-- The same with an ephemeral item of the new hub first: it ends the wait and
stores nothing, and the late item 2 is stored again when the old hub resends
it. -/
theorem late_item_stored_twice :
    ∃ tr m, (machine { owner := "bob", devices := ["b1"] }).RunWhere (fun _ m => Steady "g" m)
      (Mailbox.init { owner := "bob", devices := ["b1"] }) tr m ∧ ¬ (stored "g" tr).Nodup := by
  obtain ⟨tr, m, hr, hs⟩ := TSys.exec?_runWhere step (fun _ m => Steady "g" m) _
    (Mailbox.init { owner := "bob", devices := ["b1"] })
    [.config { id := "c1", device := "b1", groups := [{ group := "g", hub := some "a" }] },
     .config { id := "c2", device := "b1",
               groups := [{ group := "g", hub := some "b", handoverSeq := some 5 }] },
     .advance 300, item "m6" "b" none .ephemeral, item "m2" "a" (some 2) .application,
     item "m2" "a" (some 2) .application]
    (fun r => ¬ (stored "g" r.1).Nodup) (by decide) (by decide)
  exact ⟨tr, m, hr, by simpa using hs⟩

end Dsip.Messaging.Mailbox
