import Dsip.Lib.FoldEmit
import Mathlib.Data.Finset.Sort

/-!
# Consent to a recording

`Consent`: the client of one party to a call that the other party records. Only the recorder that
is declared last can be waited for, so one mark (`pending`) is enough. It is on just when that
recorder records and has not been accepted (`Kept.pending`).
-/

namespace Dsip.Recording

open Dsip.Lib

inductive Role where
  | caller
  | callee
  deriving DecidableEq, Repr

/-- What the client does with a recorder it has not accepted. -/
inductive Accept where
  | ask
  | always
  | never
  deriving DecidableEq, Repr

/-- A declaration on the wire. One that is not `off` names its recorder. -/
structure Declaration where
  state : String
  recorder : Option String
  purpose : Option String
  named : state ≠ "off" → recorder.isSome

/-- What is rendered of a declaration. -/
structure Rendered where
  state : String
  recorder : Option String
  purpose : Option String
  deriving DecidableEq, Repr

structure Message where
  type : String
  recording : Option Declaration

inductive Event where
  | received (m : Message)
  | accept
  | decline
  | answer

inductive Approver where
  | user
  | policy
  deriving DecidableEq, Repr

inductive Sent where
  | answer
  | reject (reason : String)
  | bye (reason : String)
  deriving DecidableEq, Repr

inductive Emit where
  | render (r : Rendered)
  | accepted (recorder : String) (sender : Approver)
  | send (m : Sent)
  | blocked (reason : String)
  deriving DecidableEq, Repr

def declined : String := "policy.recording-declined"

/-- What `snapshot` says. -/
structure View where
  disclosure : Option Rendered
  pending : Bool
  holdMedia : Bool
  accepted : List String
  ended : Option String
  deriving DecidableEq, Repr

/-- The declaration that is shown to the user. -/
structure Disclosure where
  state : String
  recorder : String
  purpose : Option String
  deriving DecidableEq, Repr

/-- What a declaration discloses, if it is not `off`. -/
def Declaration.disclosure (d : Declaration) : Option Disclosure :=
  if h : d.state = "off" then none else some ⟨d.state, d.recorder.get (d.named h), d.purpose⟩

def Disclosure.rendered (d : Disclosure) : Rendered := ⟨d.state, some d.recorder, d.purpose⟩

structure Consent where
  role : Role
  policy : Accept
  disclosure : Option Disclosure
  pending : Bool
  accepted : Finset String
  answered : Bool
  ended : Option String

namespace Consent

def init (role : Role) (policy : Accept) : Consent where
  role := role
  policy := policy
  disclosure := none
  pending := false
  accepted := ∅
  answered := false
  ended := none

def decline (c : Consent) : Consent × List Emit :=
  ({ c with ended := some declined, pending := false },
    [.send (if c.role = .callee ∧ c.answered = false then .reject declined else .bye declined)])

/-- A declaration that is not `off`, after it has been rendered. -/
def disclosed (c : Consent) (d : Disclosure) : Consent × List Emit :=
  if d.state = "paused" ∨ d.recorder ∈ c.accepted then ({ c with pending := false }, [])
  else
    match c.policy with
    | .always => ({ c with accepted := insert d.recorder c.accepted }, [.accepted d.recorder .policy])
    | .never => c.decline
    | .ask => ({ c with pending := true }, [])

def off (c : Consent) : Consent × List Emit :=
  match c.disclosure with
  | none => (c, [])
  | some d => ({ c with disclosure := none, pending := false }, [.render ⟨"off", some d.recorder, none⟩])

def received (c : Consent) (m : Message) : Consent × List Emit :=
  if c.ended.isSome then (c, [])
  else
    let c := if m.type = "answer" then { c with answered := true } else c
    match m.recording.bind (·.disclosure) with
    | none => c.off
    | some d =>
      if some d = c.disclosure then c.disclosed d
      else
        let rest := { c with disclosure := some d }.disclosed d
        (rest.1, .render d.rendered :: rest.2)

def step (c : Consent) : Event → Consent × List Emit
  | .received m => c.received m
  | .accept =>
    match c.disclosure with
    | none => (c, []) -- with nothing shown nothing is pending
    | some d =>
      if c.pending then
        ({ c with accepted := insert d.recorder c.accepted, pending := false }, [.accepted d.recorder .user])
      else (c, [])
  | .decline => if c.ended.isNone ∧ c.disclosure.isSome then c.decline else (c, [])
  | .answer =>
    if c.ended.isSome ∨ c.role ≠ .callee then (c, [])
    else if c.pending then (c, [.blocked "awaiting-acceptance"])
    else ({ c with answered := true }, [.send .answer])

def holdMedia (c : Consent) : Bool := c.pending && c.ended.isNone

def snapshot (c : Consent) : View where
  disclosure := c.disclosure.map Disclosure.rendered
  pending := c.pending
  holdMedia := c.holdMedia
  accepted := c.accepted.sort (· ≤ ·)
  ended := c.ended

/-- What is emitted, and what the client shows, event by event. -/
def observe (c : Consent) : List Event → List (List Emit × View)
  | [] => []
  | e :: es => ((c.step e).2, (c.step e).1.snapshot) :: (c.step e).1.observe es

/-- The client after some events, and what it emitted. -/
def run (c : Consent) (es : List Event) : Consent × List Emit := foldEmit step c es

end Consent

/-! ## What has happened -/

/-- The declaration in the last message. -/
def lastDeclared (es : List Event) : Option Declaration :=
  es.foldl (fun d e =>
    match e with
    | .received m => m.recording
    | _ => d) none

def lastRendered (out : List Emit) : Option Rendered :=
  out.foldl (fun r o =>
    match o with
    | .render r' => some r'
    | _ => r) none

/-- A message that ends the call. -/
def Emit.Declines : Emit → Prop
  | .send (.reject _) => True
  | .send (.bye _) => True
  | _ => False

theorem lastRendered_append {out out' : List Emit} (h : ∀ r, .render r ∉ out') :
    lastRendered (out ++ out') = lastRendered out := by
  induction out' using List.reverseRecOn with
  | nil => rw [List.append_nil]
  | append_singleton out' o ih =>
    have hrest : ∀ r, .render r ∉ out' := fun r hr => h r (List.mem_append_left _ hr)
    have hlast : ∀ r, o ≠ .render r := fun r heq => h r (by simp [heq])
    rw [← ih hrest, ← List.append_assoc]
    unfold lastRendered
    rw [List.foldl_concat]
    cases o with
    | render r => exact absurd rfl (hlast r)
    | accepted recorder sender => rfl
    | send m => rfl
    | blocked reason => rfl

namespace Consent

/-- What a client is after some events, by what it emitted. -/
structure Kept (es : List Event) (c : Consent) (out : List Emit) : Prop where
  pending : c.pending = true ↔
    c.ended = none ∧ ∃ d, c.disclosure = some d ∧ d.state ≠ "paused" ∧ d.recorder ∉ c.accepted
  asks : c.pending = true → c.policy = .ask
  current : c.ended = none → c.disclosure = (lastDeclared es).bind (·.disclosure)
  rendered : ∀ d, c.disclosure = some d → lastRendered out = some d.rendered
  accepted : ∀ r, r ∈ c.accepted ↔ ∃ sender, .accepted r sender ∈ out
  ended : c.ended.isSome = true ↔ ∃ o ∈ out, o.Declines

section Steps

variable {es : List Event} {c : Consent} {out : List Emit}

theorem kept_init (role : Role) (policy : Accept) : Kept [] (init role policy) [] where
  pending := by simp [init]
  asks := by simp [init]
  current _ := rfl
  rendered d h := by cases h
  accepted r := by simp [init]
  ended := by simp [init]

theorem Kept.idle (h : Kept es c out) {es' : List Event} (hlast : c.ended = none → lastDeclared es' = lastDeclared es) :
    Kept es' c (out ++ []) where
  pending := h.pending
  asks := h.asks
  current hended := by rw [hlast hended, h.current hended]
  rendered := by rw [List.append_nil]; exact h.rendered
  accepted := by rw [List.append_nil]; exact h.accepted
  ended := by rw [List.append_nil]; exact h.ended

theorem Kept.decline (h : Kept es c out) (es' : List Event) : Kept es' c.decline.1 (out ++ c.decline.2) where
  pending := by simp [Consent.decline]
  asks hp := by cases hp
  current hended := by cases hended
  rendered d hd := by
    rw [lastRendered_append (by simp [Consent.decline])]
    exact h.rendered d hd
  accepted r := by simpa [Consent.decline] using h.accepted r
  ended := by
    refine iff_of_true rfl ⟨_, List.mem_append_right _ (List.mem_singleton.mpr rfl), ?_⟩
    split
    · trivial
    · trivial

theorem Kept.disclosed {d : Disclosure} (hended : c.ended = none) (hasks : c.pending = true → c.policy = .ask)
    (hd : c.disclosure = some d) (hcurrent : (lastDeclared es).bind (·.disclosure) = some d)
    (hrendered : lastRendered out = some d.rendered) (haccepted : ∀ r, r ∈ c.accepted ↔ ∃ sender, .accepted r sender ∈ out)
    (hnone : ¬∃ o ∈ out, o.Declines) : Kept es (c.disclosed d).1 (out ++ (c.disclosed d).2) := by
  have hdisclosure : ∀ d', c.disclosure = some d' → d' = d := fun d' h => Option.some.inj (h.symm.trans hd)
  unfold Consent.disclosed
  split
  · rename_i hfree
    refine ⟨?_, fun hp => ?_, fun _ => hd.trans hcurrent.symm, ?_, ?_, ?_⟩
    · refine iff_of_false Bool.false_ne_true ?_
      rintro ⟨-, d', hd', hstate, hrecorder⟩
      rw [hdisclosure d' hd'] at hstate hrecorder
      exact hfree.elim hstate hrecorder
    · cases hp
    · intro d' hd'
      rw [List.append_nil, hdisclosure d' hd', hrendered]
    · rw [List.append_nil]
      exact haccepted
    · rw [List.append_nil]
      exact iff_of_false (by simp [hended]) hnone
  rename_i hheld
  obtain ⟨hstate, hrecorder⟩ := not_or.mp hheld
  split
  · -- the policy accepts it
    rename_i hpolicy
    have hpending : c.pending = false := by
      rw [Bool.eq_false_iff]
      intro hp
      have := hasks hp
      rw [hpolicy] at this
      cases this
    refine ⟨?_, fun hp => ?_, fun _ => hd.trans hcurrent.symm, ?_, ?_, ?_⟩
    · refine iff_of_false (by simp [hpending]) ?_
      rintro ⟨-, d', hd', -, hnot⟩
      rw [hdisclosure d' hd'] at hnot
      exact hnot (Finset.mem_insert_self _ _)
    · exact hasks hp
    · intro d' hd'
      rw [lastRendered_append (by simp), hdisclosure d' hd', hrendered]
    · intro r
      simp only [Finset.mem_insert, haccepted, List.mem_append, List.mem_singleton, Emit.accepted.injEq]
      constructor
      · rintro (rfl | ⟨sender, hr⟩)
        · exact ⟨.policy, .inr ⟨rfl, rfl⟩⟩
        · exact ⟨sender, .inl hr⟩
      · rintro ⟨sender, hr | ⟨rfl, -⟩⟩
        · exact .inr ⟨sender, hr⟩
        · exact .inl rfl
    · refine iff_of_false (by simp [hended]) ?_
      rintro ⟨o, ho, hdeclines⟩
      rcases List.mem_append.mp ho with ho | ho
      · exact hnone ⟨o, ho, hdeclines⟩
      · rw [List.mem_singleton.mp ho] at hdeclines
        exact hdeclines
  · -- the policy declines it
    refine ⟨by simp [Consent.decline], (fun hp => by cases hp), (fun h => by cases h), ?_, ?_, ?_⟩
    · intro d' hd'
      rw [lastRendered_append (by simp [Consent.decline]), hdisclosure d' hd', hrendered]
    · intro r
      simpa [Consent.decline] using haccepted r
    · refine iff_of_true rfl ⟨_, List.mem_append_right _ (List.mem_singleton.mpr rfl), ?_⟩
      split
      · trivial
      · trivial
  · -- the user is asked
    rename_i hpolicy
    refine ⟨?_, fun _ => hpolicy, fun _ => hd.trans hcurrent.symm, ?_, ?_, ?_⟩
    · exact iff_of_true rfl ⟨hended, d, hd, hstate, hrecorder⟩
    · intro d' hd'
      rw [List.append_nil, hdisclosure d' hd', hrendered]
    · rw [List.append_nil]
      exact haccepted
    · rw [List.append_nil]
      exact iff_of_false (by simp [hended]) hnone

theorem lastDeclared_received (es : List Event) (m : Message) : lastDeclared (es ++ [.received m]) = m.recording := by
  unfold lastDeclared
  rw [List.foldl_concat]

theorem Kept.received (h : Kept es c out) (m : Message) :
    Kept (es ++ [.received m]) (c.received m).1 (out ++ (c.received m).2) := by
  have hlast := lastDeclared_received es m
  unfold Consent.received
  by_cases hended : c.ended.isSome = true
  · rw [if_pos hended]
    refine h.idle fun hnone => ?_
    rw [hnone] at hended
    cases hended
  rw [if_neg hended]
  have hnone : c.ended = none := Option.not_isSome_iff_eq_none.mp hended
  have hdeclines : ¬∃ o ∈ out, o.Declines := fun ho => hended (h.ended.mpr ho)
  -- that the call is answered plays no part
  obtain ⟨c', hc', hpending, hpolicy, hdisclosure, haccepted, hended'⟩ : ∃ c', c' =
      (if m.type = "answer" then { c with answered := true } else c) ∧ c'.pending = c.pending ∧ c'.policy = c.policy ∧
      c'.disclosure = c.disclosure ∧ c'.accepted = c.accepted ∧ c'.ended = c.ended := by
    refine ⟨_, rfl, ?_⟩
    split
    · exact ⟨rfl, rfl, rfl, rfl, rfl⟩
    · exact ⟨rfl, rfl, rfl, rfl, rfl⟩
  rw [← hc']
  clear hc'
  have hasks : c'.pending = true → c'.policy = .ask := by
    rw [hpending, hpolicy]
    exact h.asks
  have hin : ∀ r, r ∈ c'.accepted ↔ ∃ sender, .accepted r sender ∈ out := by
    rw [haccepted]
    exact h.accepted
  cases hdecl : m.recording.bind (·.disclosure) with
  | none =>
    dsimp only
    unfold Consent.off
    cases hshown : c'.disclosure with
    | none =>
      have hnot : ¬c'.pending = true := by
        rw [hpending, h.pending]
        rintro ⟨-, d, hd, -⟩
        rw [← hdisclosure, hshown] at hd
        cases hd
      refine ⟨?_, hasks, ?_, ?_, ?_, ?_⟩
      · refine iff_of_false hnot ?_
        rintro ⟨-, d, hd, -⟩
        rw [hshown] at hd
        cases hd
      · intro _
        rw [hshown, hlast, hdecl]
      · intro d hd
        rw [hshown] at hd
        cases hd
      · rw [List.append_nil]
        exact hin
      · rw [List.append_nil, hended']
        exact h.ended
    | some d =>
      refine ⟨by simp, (fun hp => by cases hp), (fun _ => ?_), (fun d' hd' => by cases hd'), ?_, ?_⟩
      · rw [hlast, hdecl]
      · intro r
        simpa using hin r
      · refine iff_of_false ?_ ?_
        · show ¬c'.ended.isSome = true
          rw [hended']
          exact hended
        · rintro ⟨o, ho, hd⟩
          rcases List.mem_append.mp ho with ho | ho
          · exact hdeclines ⟨o, ho, hd⟩
          · rw [List.mem_singleton.mp ho] at hd
            exact hd
  | some d =>
    have hcurrent : (lastDeclared (es ++ [.received m])).bind (·.disclosure) = some d := by rw [hlast, hdecl]
    dsimp only
    split
    · rename_i hsame
      have hshown : c'.disclosure = some d := hsame.symm
      exact Kept.disclosed (hended'.trans hnone) hasks hshown hcurrent (h.rendered d (hdisclosure ▸ hshown)) hin hdeclines
    · have hlist (l : List Emit) : out ++ .render d.rendered :: l = (out ++ [.render d.rendered]) ++ l :=
        List.append_cons ..
      dsimp only
      rw [hlist]
      refine Kept.disclosed (c := { c' with disclosure := some d }) (hended'.trans hnone) hasks rfl hcurrent ?_
        (fun r => ?_) ?_
      · unfold lastRendered
        rw [List.foldl_concat]
      · show r ∈ c'.accepted ↔ _
        rw [hin r]
        simp
      · rintro ⟨o, ho, hd⟩
        rcases List.mem_append.mp ho with ho | ho
        · exact hdeclines ⟨o, ho, hd⟩
        · rw [List.mem_singleton.mp ho] at hd
          exact hd

theorem lastDeclared_other {e : Event} (he : ∀ m, e ≠ .received m) (es : List Event) :
    lastDeclared (es ++ [e]) = lastDeclared es := by
  unfold lastDeclared
  rw [List.foldl_concat]
  cases e with
  | received m => exact absurd rfl (he m)
  | accept => rfl
  | decline => rfl
  | answer => rfl

theorem Kept.step (h : Kept es c out) (e : Event) : Kept (es ++ [e]) (c.step e).1 (out ++ (c.step e).2) := by
  cases e with
  | received m => exact h.received m
  | accept =>
    have hlast := lastDeclared_other (e := .accept) (fun m => Event.noConfusion) es
    simp only [Consent.step]
    cases hd : c.disclosure with
    | none => exact h.idle fun _ => hlast
    | some d =>
      dsimp only
      split
      · rename_i hpending
        obtain ⟨hended, -⟩ := h.pending.mp hpending
        refine ⟨?_, (fun hp => by cases hp), ?_, ?_, ?_, ?_⟩
        · refine iff_of_false Bool.false_ne_true ?_
          rintro ⟨-, d', hd', -, hnot⟩
          cases hd'
          exact hnot (Finset.mem_insert_self _ _)
        · intro hnone
          rw [hlast]
          exact hd.symm.trans (h.current hnone)
        · intro d' hd'
          cases hd'
          rw [lastRendered_append (by simp)]
          exact h.rendered d hd
        · intro r
          simp only [Finset.mem_insert, h.accepted, List.mem_append, List.mem_singleton, Emit.accepted.injEq]
          constructor
          · rintro (rfl | ⟨sender, hr⟩)
            · exact ⟨.user, .inr ⟨rfl, rfl⟩⟩
            · exact ⟨sender, .inl hr⟩
          · rintro ⟨sender, hr | ⟨rfl, -⟩⟩
            · exact .inr ⟨sender, hr⟩
            · exact .inl rfl
        · refine h.ended.trans ?_
          simp [or_and_right, exists_or, Emit.Declines]
      · exact h.idle fun _ => hlast
  | decline =>
    have hlast := lastDeclared_other (e := .decline) (fun m => Event.noConfusion) es
    simp only [Consent.step]
    split
    · exact h.decline _
    · exact h.idle fun _ => hlast
  | answer =>
    have hlast := lastDeclared_other (e := .answer) (fun m => Event.noConfusion) es
    simp only [Consent.step]
    split
    · exact h.idle fun _ => hlast
    split
    · refine ⟨h.pending, h.asks, ?_, ?_, ?_, ?_⟩
      · intro hnone
        rw [hlast]
        exact h.current hnone
      · intro d hd
        rw [lastRendered_append (by simp)]
        exact h.rendered d hd
      · intro r
        simpa using h.accepted r
      · refine h.ended.trans ?_
        simp [or_and_right, exists_or, Emit.Declines]
    · refine ⟨h.pending, h.asks, ?_, ?_, ?_, ?_⟩
      · intro hnone
        rw [hlast]
        exact h.current hnone
      · intro d hd
        rw [lastRendered_append (by simp)]
        exact h.rendered d hd
      · intro r
        simpa using h.accepted r
      · refine h.ended.trans ?_
        simp [or_and_right, exists_or, Emit.Declines]

end Steps

theorem run_last (c : Consent) (es : List Event) (e : Event) :
    c.run (es ++ [e]) = (((c.run es).1.step e).1, (c.run es).2 ++ ((c.run es).1.step e).2) := by
  unfold run
  rw [foldEmit_append, foldEmit_cons, foldEmit_nil, List.append_nil]

theorem kept_run (role : Role) (policy : Accept) (es : List Event) :
    Kept es ((init role policy).run es).1 ((init role policy).run es).2 := by
  induction es using List.reverseRecOn with
  | nil => exact kept_init role policy
  | append_singleton es e ih =>
    rw [run_last]
    exact ih.step e

/-! ## What one event sends -/

/-- What a step says: an answer, an acceptance of the recorder that is shown, a declining as its last word, or no more than is shown. -/
inductive Says (c c' : Consent) : List Emit → Prop
  | quiet (out : List Emit) : (∀ o ∈ out, ∀ m, o ≠ .send m) → (∀ o ∈ out, ∀ r sender, o ≠ .accepted r sender) →
      c'.accepted = c.accepted → Says c c' out
  | answer : c.role = .callee → c.ended = none → c.pending = false → c'.pending = false → c'.accepted = c.accepted →
      Says c c' [.send .answer]
  | accepted (out : List Emit) (d : Disclosure) (sender : Approver) : (∀ o ∈ out, ∃ r, o = .render r) →
      c'.disclosure = some d → c'.ended = none → c'.accepted = insert d.recorder c.accepted →
      Says c c' (out ++ [.accepted d.recorder sender])
  | declines (out : List Emit) (o : Emit) : (∀ o ∈ out, ∃ r, o = .render r) → o.Declines → c.ended = none →
      c'.ended.isSome = true → c'.accepted = c.accepted → Says c c' (out ++ [o])

theorem says_decline {c c₀ : Consent} (hended : c.ended = none) (haccepted : c₀.accepted = c.accepted) {out : List Emit}
    (hout : ∀ o ∈ out, ∃ r, o = .render r) : Says c c₀.decline.1 (out ++ c₀.decline.2) := by
  refine .declines out _ hout ?_ hended rfl haccepted
  split
  · trivial
  · trivial

theorem says_disclosed {c c₀ : Consent} (hended : c.ended = none) (hended₀ : c₀.ended = none)
    (haccepted : c₀.accepted = c.accepted) {d : Disclosure} (hd : c₀.disclosure = some d) {out : List Emit}
    (hout : ∀ o ∈ out, ∃ r, o = .render r) : Says c (c₀.disclosed d).1 (out ++ (c₀.disclosed d).2) := by
  have hquiet {c' : Consent} (hc' : c'.accepted = c.accepted) : Says c c' (out ++ []) := by
    rw [List.append_nil]
    refine .quiet out (fun o ho m heq => ?_) (fun o ho r sender heq => ?_) hc'
    · obtain ⟨r, hr⟩ := hout o ho
      rw [heq] at hr
      cases hr
    · obtain ⟨r', hr⟩ := hout o ho
      rw [heq] at hr
      cases hr
  unfold disclosed
  split
  · exact hquiet haccepted
  split
  · exact .accepted out d .policy hout hd hended₀ (by rw [haccepted])
  · exact says_decline hended haccepted hout
  · exact hquiet haccepted

theorem says_step {c : Consent} (h : c.pending = true → c.ended = none) (e : Event) :
    Says c (c.step e).1 (c.step e).2 := by
  have hidle : Says c c [] := .quiet [] (by simp) (by simp) rfl
  cases e with
  | received m =>
    simp only [step, received]
    split
    · exact hidle
    rename_i hended
    have hnone : c.ended = none := Option.not_isSome_iff_eq_none.mp hended
    obtain ⟨c', hc', haccepted, hended'⟩ : ∃ c', c' = (if m.type = "answer" then { c with answered := true } else c) ∧
        c'.accepted = c.accepted ∧ c'.ended = c.ended := by
      refine ⟨_, rfl, ?_⟩
      split
      · exact ⟨rfl, rfl⟩
      · exact ⟨rfl, rfl⟩
    rw [← hc']
    split
    · unfold off
      split
      · exact .quiet [] (by simp) (by simp) haccepted
      · exact .quiet _ (by simp) (by simp) haccepted
    split
    · rename_i hsame
      exact @says_disclosed c c' hnone (hended'.trans hnone) haccepted _ hsame.symm [] (by simp)
    · rename_i d _ _
      exact @says_disclosed c { c' with disclosure := some d } hnone (hended'.trans hnone) haccepted d rfl
        [.render d.rendered] (by simp)
  | accept =>
    simp only [step]
    split
    · exact hidle
    split
    · rename_i d hd hpending
      exact .accepted [] d .user (by simp) hd (h hpending) rfl
    · exact hidle
  | decline =>
    simp only [step]
    split
    · rename_i h
      exact @says_decline c c (Option.isNone_iff_eq_none.mp h.1) rfl [] (by simp)
    · exact hidle
  | answer =>
    simp only [step]
    split
    · exact hidle
    rename_i h
    obtain ⟨hended, hrole⟩ := not_or.mp h
    split
    · exact .quiet _ (by simp) (by simp) rfl
    · rename_i hpending
      have hfalse : c.pending = false := Bool.eq_false_iff.mpr hpending
      exact .answer (not_not.mp hrole) (Option.not_isSome_iff_eq_none.mp hended) hfalse hfalse rfl

end Consent

end Dsip.Recording
