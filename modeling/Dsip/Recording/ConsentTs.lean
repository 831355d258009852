import Dsip.Recording.Consent
import Dsip.Events.AlarmsAgree

/-!
# The TypeScript client, and what both hold to

`ConsentClient` keeps the recorders it has accepted in the order they came in, and clears its mark
on every `off`. It is the Python client all the same (`Same`), since with nothing shown nothing is
pending.
-/

namespace Dsip.Recording

open Dsip.Lib

namespace Ts

/-- `byCodePoint`, on the code points. -/
def byCodePoint : List Char → List Char → Int
  | x :: xs, y :: ys =>
    let d := (x.toNat : Int) - y.toNat
    if d ≠ 0 then d else byCodePoint xs ys
  | xs, ys => xs.length - ys.length

structure ConsentClient where
  role : Role
  accept : Accept
  disclosure : Option Rendered
  pending : Bool
  /-- In the order they were accepted in. -/
  accepted : List String
  ended : Option String
  answered : Bool

namespace ConsentClient

def init (role : Role) (accept : Accept) : ConsentClient where
  role := role
  accept := accept
  disclosure := none
  pending := false
  accepted := []
  ended := none
  answered := false

def add (accepted : List String) (recorder : String) : List String :=
  if recorder ∈ accepted then accepted else accepted ++ [recorder]

def decline (c : ConsentClient) : ConsentClient × List Emit :=
  ({ c with ended := some declined, pending := false },
    [.send (if c.role = .callee ∧ c.answered = false then .reject declined else .bye declined)])

/-- A declaration that is not `off`, after it has been rendered. -/
def disclosed (c : ConsentClient) (decl : Rendered) : ConsentClient × List Emit :=
  if decl.state = "paused" then ({ c with pending := false }, [])
  else
    let recorder := decl.recorder.getD ""
    if recorder ∈ c.accepted then ({ c with pending := false }, [])
    else
      match c.accept with
      | .always => ({ c with accepted := add c.accepted recorder }, [.accepted recorder .policy])
      | .never => c.decline
      | .ask => ({ c with pending := true }, [])

/-- A declaration that is not `off`. -/
def declared (c : ConsentClient) (decl : Rendered) : ConsentClient × List Emit :=
  if c.disclosure.all fun d => d.state ≠ decl.state ∨ d.recorder ≠ decl.recorder ∨ d.purpose ≠ decl.purpose then
    let rest := { c with disclosure := some decl }.disclosed decl
    (rest.1, .render decl :: rest.2)
  else c.disclosed decl

def received (c : ConsentClient) (m : Message) : ConsentClient × List Emit :=
  if c.ended ≠ none then (c, [])
  else
    let c := if m.type = "answer" then { c with answered := true } else c
    let state := m.recording.elim "off" (·.state)
    if state = "off" then
      match c.disclosure with
      | none => ({ c with pending := false }, [])
      | some d => ({ c with disclosure := none, pending := false }, [.render ⟨"off", d.recorder, none⟩])
    else
      c.declared ⟨state, m.recording.bind (·.recorder), m.recording.bind (·.purpose)⟩

def localAccept (c : ConsentClient) : ConsentClient × List Emit :=
  match c.disclosure with
  | none => (c, [])
  | some d =>
    if !c.pending then (c, [])
    else
      let recorder := d.recorder.getD ""
      ({ c with accepted := add c.accepted recorder, pending := false }, [.accepted recorder .user])

def localAnswer (c : ConsentClient) : ConsentClient × List Emit :=
  if c.ended ≠ none ∨ c.role ≠ .callee then (c, [])
  else if c.pending then (c, [.blocked "awaiting-acceptance"])
  else ({ c with answered := true }, [.send .answer])

def step (c : ConsentClient) : Event → ConsentClient × List Emit
  | .received m => c.received m
  | .accept => c.localAccept
  | .decline => if c.ended = none ∧ c.disclosure ≠ none then c.decline else (c, [])
  | .answer => c.localAnswer

def snapshot (c : ConsentClient) : View where
  disclosure := c.disclosure
  pending := c.pending
  holdMedia := decide (c.ended = none) && c.pending
  accepted := c.accepted.insertionSort fun a b => byCodePoint a.toList b.toList ≤ 0
  ended := c.ended

/-- What is emitted, and what the client shows, event by event. -/
def observe (c : ConsentClient) : List Event → List (List Emit × View)
  | [] => []
  | e :: es => ((c.step e).2, (c.step e).1.snapshot) :: (c.step e).1.observe es

end ConsentClient

end Ts

/-! ## The same client -/

theorem byCodePoint_eq : ∀ xs ys : List Char, Ts.byCodePoint xs ys = Events.Ts.cmpStr xs ys
  | [], [] => rfl
  | [], _ :: _ => rfl
  | _ :: _, [] => rfl
  | x :: xs, y :: ys => by
      unfold Ts.byCodePoint Events.Ts.cmpStr
      rw [byCodePoint_eq xs ys]

theorem byCodePoint_le (a b : String) : Ts.byCodePoint a.toList b.toList ≤ 0 ↔ a ≤ b := by
  rw [byCodePoint_eq]
  exact Events.cmpStr_le a b

/-- Both clients are at the same state. -/
structure Same (c : Consent) (t : Ts.ConsentClient) : Prop where
  role : t.role = c.role
  accept : t.accept = c.policy
  disclosure : t.disclosure = c.disclosure.map Disclosure.rendered
  pending : t.pending = c.pending
  accepted : ∀ r, r ∈ t.accepted ↔ r ∈ c.accepted
  nodup : t.accepted.Nodup
  ended : t.ended = c.ended
  answered : t.answered = c.answered
  /-- With nothing shown nothing is pending. -/
  shown : c.disclosure = none → c.pending = false

namespace Same

variable {c : Consent} {t : Ts.ConsentClient}

theorem init (role : Role) (policy : Accept) : Same (.init role policy) (.init role policy) where
  role := rfl
  accept := rfl
  disclosure := rfl
  pending := rfl
  accepted r := by simp [Consent.init, Ts.ConsentClient.init]
  nodup := List.nodup_nil
  ended := rfl
  answered := rfl
  shown _ := rfl

theorem mem_add {accepted : List String} {recorder r : String} :
    r ∈ Ts.ConsentClient.add accepted recorder ↔ r = recorder ∨ r ∈ accepted := by
  unfold Ts.ConsentClient.add
  split
  · rename_i h
    constructor
    · exact .inr
    · rintro (rfl | hr)
      · exact h
      · exact hr
  · rw [List.mem_append, List.mem_singleton, or_comm]

theorem nodup_add {accepted : List String} (h : accepted.Nodup) (recorder : String) :
    (Ts.ConsentClient.add accepted recorder).Nodup := by
  unfold Ts.ConsentClient.add
  split
  · exact h
  · rename_i hnot
    exact List.nodup_append.mpr ⟨h, List.nodup_singleton recorder, fun a ha b hb heq => by
      rw [List.mem_singleton] at hb
      exact hnot (hb ▸ heq ▸ ha)⟩

theorem snapshot (h : Same c t) : t.snapshot = c.snapshot := by
  have hsort : t.accepted.insertionSort (fun a b => Ts.byCodePoint a.toList b.toList ≤ 0) = c.accepted.sort (· ≤ ·) := by
    rw [Events.insertionSort_congr byCodePoint_le]
    have hperm : (t.accepted.insertionSort (· ≤ ·)).Perm (c.accepted.sort (· ≤ ·)) := by
      refine (List.perm_insertionSort _ _).trans ((List.perm_ext_iff_of_nodup h.nodup (Finset.sort_nodup _ _)).mpr fun r => ?_)
      rw [Finset.mem_sort]
      exact h.accepted r
    exact hperm.eq_of_pairwise' (List.pairwise_insertionSort _ _) (Finset.pairwise_sort _ _)
  unfold Ts.ConsentClient.snapshot Consent.snapshot Consent.holdMedia
  rw [hsort, h.disclosure, h.pending, h.ended]
  congr 1
  cases c.ended <;> simp

theorem decline (h : Same c t) : Same c.decline.1 t.decline.1 ∧ t.decline.2 = c.decline.2 := by
  refine ⟨⟨h.role, h.accept, h.disclosure, rfl, h.accepted, h.nodup, rfl, h.answered, fun _ => rfl⟩, ?_⟩
  unfold Ts.ConsentClient.decline Consent.decline
  rw [h.role, h.answered]

theorem accepting (h : Same c t) (hshown : c.disclosure ≠ none) (recorder : String) (pending : Bool) :
    Same { c with accepted := insert recorder c.accepted, pending := pending }
      { t with accepted := Ts.ConsentClient.add t.accepted recorder, pending := pending } where
  role := h.role
  accept := h.accept
  disclosure := h.disclosure
  pending := rfl
  accepted r := by rw [mem_add, Finset.mem_insert, h.accepted]
  nodup := nodup_add h.nodup recorder
  ended := h.ended
  answered := h.answered
  shown hnone := absurd hnone hshown

theorem disclosed (h : Same c t) {d : Disclosure} (hd : c.disclosure = some d) :
    Same (c.disclosed d).1 (t.disclosed d.rendered).1 ∧ (t.disclosed d.rendered).2 = (c.disclosed d).2 := by
  have hshown : c.disclosure ≠ none := by simp [hd]
  have hcleared : Same { c with pending := false } { t with pending := false } :=
    ⟨h.role, h.accept, h.disclosure, rfl, h.accepted, h.nodup, h.ended, h.answered, fun _ => rfl⟩
  have hts : t.disclosed d.rendered =
      if d.state = "paused" then ({ t with pending := false }, [])
      else if d.recorder ∈ t.accepted then ({ t with pending := false }, [])
      else
        match t.accept with
        | .always =>
          ({ t with accepted := Ts.ConsentClient.add t.accepted d.recorder }, [.accepted d.recorder .policy])
        | .never => t.decline
        | .ask => ({ t with pending := true }, []) := rfl
  rw [hts]
  unfold Consent.disclosed
  by_cases hpaused : d.state = "paused"
  · rw [if_pos (.inl hpaused), if_pos hpaused]
    exact ⟨hcleared, rfl⟩
  rw [if_neg hpaused]
  by_cases haccepted : d.recorder ∈ c.accepted
  · rw [if_pos (.inr haccepted), if_pos ((h.accepted d.recorder).mpr haccepted)]
    exact ⟨hcleared, rfl⟩
  rw [if_neg (not_or.mpr ⟨hpaused, haccepted⟩), if_neg (fun hin => haccepted ((h.accepted d.recorder).mp hin))]
  have halways := h.accepting hshown d.recorder t.pending
  have hnever := h.decline
  have hask : Same { c with pending := true } { t with pending := true } :=
    ⟨h.role, h.accept, h.disclosure, rfl, h.accepted, h.nodup, h.ended, h.answered, fun hnone => absurd hnone hshown⟩
  have hpending := h.pending
  have haccept := h.accept
  clear h hcleared
  obtain ⟨role, policy, disclosure, pending, accepted, answered, ended⟩ := c
  obtain ⟨role', accept, disclosure', pending', accepted', ended', answered'⟩ := t
  obtain rfl : accept = policy := haccept
  obtain rfl : pending' = pending := hpending
  cases accept with
  | ask => exact ⟨hask, rfl⟩
  | always => exact ⟨halways, rfl⟩
  | never => exact hnever

theorem declared (h : Same c t) (d : Disclosure) :
    let py := if some d = c.disclosure then c.disclosed d
      else
        let rest := { c with disclosure := some d }.disclosed d
        (rest.1, .render d.rendered :: rest.2)
    Same py.1 (t.declared d.rendered).1 ∧ (t.declared d.rendered).2 = py.2 := by
  have hdiffers : (t.disclosure.all fun d' => d'.state ≠ d.rendered.state ∨ d'.recorder ≠ d.rendered.recorder ∨
      d'.purpose ≠ d.rendered.purpose) = true ↔ ¬some d = c.disclosure := by
    rw [h.disclosure]
    cases c.disclosure with
    | none => simp
    | some d' =>
      obtain ⟨state, recorder, purpose⟩ := d
      obtain ⟨state', recorder', purpose'⟩ := d'
      simp only [Disclosure.rendered, Option.map_some, Option.all_some, decide_eq_true_eq, ne_eq, Option.some.injEq,
        Disclosure.mk.injEq]
      tauto
  unfold Ts.ConsentClient.declared
  by_cases hsame : some d = c.disclosure
  · rw [if_pos hsame, if_neg (fun hne => hdiffers.mp hne hsame)]
    exact h.disclosed hsame.symm
  · rw [if_neg hsame, if_pos (hdiffers.mpr hsame)]
    have hset : Same { c with disclosure := some d } { t with disclosure := some d.rendered } :=
      ⟨h.role, h.accept, rfl, h.pending, h.accepted, h.nodup, h.ended, h.answered, fun hnone => by cases hnone⟩
    obtain ⟨hnext, hout⟩ := hset.disclosed rfl
    exact ⟨hnext, congrArg (.render d.rendered :: ·) hout⟩

theorem received (h : Same c t) (m : Message) :
    Same (c.received m).1 (t.received m).1 ∧ (t.received m).2 = (c.received m).2 := by
  unfold Ts.ConsentClient.received Consent.received
  by_cases hended : c.ended = none
  · have hts : ¬t.ended ≠ none := by
      rw [h.ended]
      exact not_not.mpr hended
    have hpy : ¬c.ended.isSome = true := by simp [hended]
    rw [if_neg hts, if_neg hpy]
    dsimp only
    obtain ⟨c', hc', t', ht', h'⟩ : ∃ c', c' = (if m.type = "answer" then { c with answered := true } else c) ∧
        ∃ t', t' = (if m.type = "answer" then { t with answered := true } else t) ∧ Same c' t' := by
      refine ⟨_, rfl, _, rfl, ?_⟩
      split
      · exact ⟨h.role, h.accept, h.disclosure, h.pending, h.accepted, h.nodup, h.ended, rfl, h.shown⟩
      · exact h
    rw [← hc', ← ht']
    have hoff (hstate : m.recording.elim "off" (·.state) = "off") : m.recording.bind (·.disclosure) = none := by
      cases hrec : m.recording with
      | none => rfl
      | some d =>
        rw [hrec] at hstate
        exact dif_pos hstate
    by_cases hstate : m.recording.elim "off" (·.state) = "off"
    · rw [if_pos hstate, hoff hstate]
      dsimp only
      unfold Consent.off
      rw [h'.disclosure]
      cases hd : c'.disclosure with
      | none =>
        have hp := h'.shown hd
        refine ⟨⟨h'.role, h'.accept, by rw [hd]; rfl, hp.symm, h'.accepted, h'.nodup, h'.ended, h'.answered, h'.shown⟩, rfl⟩
      | some d =>
        exact ⟨⟨h'.role, h'.accept, rfl, rfl, h'.accepted, h'.nodup, h'.ended, h'.answered, fun _ => rfl⟩, rfl⟩
    · rw [if_neg hstate]
      obtain ⟨decl, hdecl⟩ : ∃ decl, m.recording = some decl := by
        cases hrec : m.recording with
        | none =>
          rw [hrec] at hstate
          exact absurd rfl hstate
        | some decl => exact ⟨decl, rfl⟩
      rw [hdecl] at hstate ⊢
      have hstate : decl.state ≠ "off" := hstate
      have hdisclosure : decl.disclosure = some ⟨decl.state, decl.recorder.get (decl.named hstate), decl.purpose⟩ := dif_neg hstate
      obtain ⟨d, hd, hrendered⟩ : ∃ d : Disclosure, decl.disclosure = some d ∧
          (⟨decl.state, decl.recorder, decl.purpose⟩ : Rendered) = d.rendered := by
        refine ⟨_, hdisclosure, ?_⟩
        unfold Disclosure.rendered
        rw [Option.some_get]
      have hlit : (⟨(some decl).elim "off" (·.state), (some decl).bind (·.recorder), (some decl).bind (·.purpose)⟩ : Rendered) =
          d.rendered := hrendered
      have hbind : ((some decl).bind fun x => x.disclosure) = some d := hd
      rw [hlit, hbind]
      exact h'.declared d
  · have hts : t.ended ≠ none := by
      rw [h.ended]
      exact hended
    rw [if_pos hts, if_pos (Option.isSome_iff_ne_none.mpr hended)]
    exact ⟨h, rfl⟩

theorem step (h : Same c t) (e : Event) : Same (c.step e).1 (t.step e).1 ∧ (t.step e).2 = (c.step e).2 := by
  cases e with
  | received m => exact h.received m
  | accept =>
    simp only [Consent.step, Ts.ConsentClient.step, Ts.ConsentClient.localAccept]
    rw [h.disclosure]
    cases hd : c.disclosure with
    | none => exact ⟨h, rfl⟩
    | some d =>
      dsimp only [Option.map_some]
      by_cases hpending : c.pending = true
      · have hts : ¬(!t.pending) = true := by simp [h.pending, hpending]
        rw [if_pos hpending, if_neg hts]
        have hsame := h.accepting (by simp [hd]) d.recorder false
        exact ⟨⟨h.role, h.accept, rfl, rfl, hsame.accepted, hsame.nodup, h.ended, h.answered, fun _ => rfl⟩, rfl⟩
      · have hts : (!t.pending) = true := by simp [h.pending, hpending]
        rw [if_neg hpending, if_pos hts]
        exact ⟨h, rfl⟩
  | decline =>
    simp only [Consent.step, Ts.ConsentClient.step]
    have hiff : (t.ended = none ∧ t.disclosure ≠ none) ↔ (c.ended.isNone = true ∧ c.disclosure.isSome = true) := by
      rw [h.ended, h.disclosure, Option.isNone_iff_eq_none, Option.isSome_iff_ne_none, ne_eq, Option.map_eq_none_iff]
    by_cases hdecline : c.ended.isNone = true ∧ c.disclosure.isSome = true
    · rw [if_pos hdecline, if_pos (hiff.mpr hdecline)]
      exact h.decline
    · rw [if_neg hdecline, if_neg (fun ht => hdecline (hiff.mp ht))]
      exact ⟨h, rfl⟩
  | answer =>
    simp only [Consent.step, Ts.ConsentClient.step, Ts.ConsentClient.localAnswer]
    have hiff : (t.ended ≠ none ∨ t.role ≠ .callee) ↔ (c.ended.isSome = true ∨ c.role ≠ .callee) := by
      rw [h.ended, h.role, Option.isSome_iff_ne_none]
    by_cases hdeaf : c.ended.isSome = true ∨ c.role ≠ .callee
    · rw [if_pos hdeaf, if_pos (hiff.mpr hdeaf)]
      exact ⟨h, rfl⟩
    rw [if_neg hdeaf, if_neg (fun ht => hdeaf (hiff.mp ht))]
    by_cases hpending : c.pending = true
    · rw [if_pos hpending, if_pos (h.pending.trans hpending)]
      exact ⟨h, rfl⟩
    · have hts : ¬t.pending = true := by rwa [h.pending]
      rw [if_neg hpending, if_neg hts]
      exact ⟨⟨h.role, h.accept, h.disclosure, h.pending, h.accepted, h.nodup, h.ended, rfl, h.shown⟩, rfl⟩

theorem observe (h : Same c t) (es : List Event) : t.observe es = c.observe es := by
  induction es generalizing c t with
  | nil => rfl
  | cons e es ih =>
    obtain ⟨hstep, hout⟩ := h.step e
    simp only [Consent.observe, Ts.ConsentClient.observe, hout, hstep.snapshot, ih hstep]

end Same

/-! ## What a recorded call waits for -/

namespace Consent

theorem disclosure_bind_iff {decl : Option Declaration} {d : Disclosure} : decl.bind (·.disclosure) = some d ↔
      ∃ d', decl = some d' ∧ d'.state ≠ "off" ∧ d'.state = d.state ∧ d'.recorder = some d.recorder ∧ d'.purpose = d.purpose := by
  rw [Option.bind_eq_some_iff]
  refine exists_congr fun d' => and_congr_right fun _ => ?_
  unfold Declaration.disclosure
  split
  · rename_i hoff
    simp [hoff]
  · rename_i hoff
    obtain ⟨state, recorder, purpose⟩ := d
    simp only [Option.some.injEq, Disclosure.mk.injEq, ne_eq, hoff, not_false_eq_true, true_and]
    rw [Option.eq_some_iff_get_eq]
    simp [d'.named hoff]

theorem ended_step {c : Consent} (hended : c.ended.isSome = true) (hpending : c.pending = false) (e : Event) :
    (c.step e).1 = c ∧ ∀ m, .send m ∉ (c.step e).2 := by
  have hnone : c.ended.isNone = false := by simpa using hended
  cases e with
  | received m =>
    simp only [step, received, if_pos hended]
    exact ⟨trivial, by simp⟩
  | accept =>
    simp only [step, hpending]
    cases c.disclosure with
    | none => simp
    | some d => simp
  | decline => simp [step, hnone]
  | answer => simp [step, hended]

theorem ended_run {c : Consent} (hended : c.ended.isSome = true) (hpending : c.pending = false) (es : List Event) (m : Sent) :
    .send m ∉ (c.run es).2 := by
  induction es with
  | nil => exact List.not_mem_nil
  | cons e es ih =>
    obtain ⟨hsame, hsends⟩ := ended_step hended hpending e
    show _ ∉ (c.step e).2 ++ ((c.step e).1.run es).2
    rw [hsame]
    exact fun hm => (List.mem_append.mp hm).elim (hsends m) ih

variable {out : List Emit}

theorem not_pending_of_ended {es : List Event} {c : Consent} (h : Kept es c out)
    (hended : c.ended.isSome = true) : c.pending = false := by
  rw [Bool.eq_false_iff]
  intro hpending
  rw [(h.pending.mp hpending).1] at hended
  cases hended

theorem declines_last {c c' : Consent} {before after : List Emit} {o : Emit} (h : Says c c' out)
    (hout : out = before ++ o :: after) (ho : o.Declines) : after = [] ∧ c'.ended.isSome = true := by
  have hmem : o ∈ out := by
    rw [hout]
    simp
  have hrender {out' : List Emit} (h : ∀ o ∈ out', ∃ r, o = .render r) : o ∉ out' := by
    intro hin
    obtain ⟨r, rfl⟩ := h o hin
    exact ho
  cases h with
  | quiet out hsends haccepts haccepted =>
    cases o with
    | send m => exact absurd rfl (hsends _ hmem m)
    | render r => exact ho.elim
    | accepted r sender => exact ho.elim
    | blocked reason => exact ho.elim
  | answer hrole hended hpending hpending' haccepted =>
    rw [List.mem_singleton.mp hmem] at ho
    exact ho.elim
  | accepted out d sender hrenders hdisclosure hended haccepted =>
    rcases List.mem_append.mp hmem with hin | hin
    · exact absurd hin (hrender hrenders)
    · rw [List.mem_singleton.mp hin] at ho
      exact ho.elim
  | declines out o' hrenders ho' hended hended' haccepted =>
    refine ⟨?_, hended'⟩
    rcases List.eq_nil_or_concat after with rfl | ⟨after, last, rfl⟩
    · rfl
    · rw [List.concat_eq_append, ← List.cons_append, ← List.append_assoc] at hout
      have hin : o ∈ out := by
        rw [(List.append_inj' hout rfl).1]
        simp
      exact absurd hin (hrender hrenders)

theorem accepted_of_says {c c' : Consent} (h : Says c c' out) {r : String} {sender : Approver}
    (hr : .accepted r sender ∈ out) :
    ∃ d, c'.disclosure = some d ∧ c'.ended = none ∧ d.recorder = r ∧ c'.accepted = insert r c.accepted := by
  cases h with
  | quiet out hsends haccepts haccepted => exact absurd rfl (haccepts _ hr r sender)
  | answer hrole hended hpending hpending' haccepted => cases List.mem_singleton.mp hr
  | accepted out d sender' hrenders hdisclosure hended haccepted =>
    rcases List.mem_append.mp hr with hr | hr
    · obtain ⟨r', hr'⟩ := hrenders _ hr
      cases hr'
    · cases List.mem_singleton.mp hr
      exact ⟨d, hdisclosure, hended, rfl, haccepted⟩
  | declines out o hrenders ho hended hended' haccepted =>
    rcases List.mem_append.mp hr with hr | hr
    · obtain ⟨r', hr'⟩ := hrenders _ hr
      cases hr'
    · rw [← List.mem_singleton.mp hr] at ho
      exact ho.elim

theorem accepted_says {c c' : Consent} (h : Says c c' out) (r : String) :
    r ∈ c'.accepted ↔ r ∈ c.accepted ∨ ∃ sender, .accepted r sender ∈ out := by
  constructor
  · intro hr
    by_cases hin : r ∈ c.accepted
    · exact .inl hin
    right
    cases h with
    | quiet out hsends haccepts haccepted => exact absurd (haccepted ▸ hr) hin
    | answer hrole hended hpending hpending' haccepted => exact absurd (haccepted ▸ hr) hin
    | accepted out d sender hrenders hdisclosure hended haccepted =>
      rw [haccepted] at hr
      obtain rfl := (Finset.mem_insert.mp hr).resolve_right hin
      exact ⟨sender, by simp⟩
    | declines out o hrenders ho hended hended' haccepted => exact absurd (haccepted ▸ hr) hin
  · rintro (hr | ⟨sender, hr⟩)
    · cases h with
      | quiet out hsends haccepts haccepted => exact haccepted ▸ hr
      | answer hrole hended hpending hpending' haccepted => exact haccepted ▸ hr
      | accepted out d sender hrenders hdisclosure hended haccepted => exact haccepted ▸ Finset.mem_insert_of_mem hr
      | declines out o hrenders ho hended hended' haccepted => exact haccepted ▸ hr
    · obtain ⟨d, -, -, -, haccepted⟩ := accepted_of_says h hr
      rw [haccepted]
      exact Finset.mem_insert_self _ _

theorem role_step (c : Consent) (e : Event) : (c.step e).1.role = c.role := by
  have hdisclosed (c : Consent) (d : Disclosure) : (c.disclosed d).1.role = c.role := by
    unfold disclosed
    split
    · rfl
    split
    · rfl
    · rfl
    · rfl
  cases e with
  | received m =>
    simp only [step, received]
    obtain ⟨c', hc', hrole⟩ : ∃ c', c' = (if m.type = "answer" then { c with answered := true } else c) ∧
        c'.role = c.role := by
      refine ⟨_, rfl, ?_⟩
      split
      · rfl
      · rfl
    split
    · rfl
    rw [← hc']
    split
    · unfold off
      split
      · exact hrole
      · exact hrole
    split
    · exact (hdisclosed _ _).trans hrole
    · exact (hdisclosed _ _).trans hrole
  | accept =>
    simp only [step]
    split
    · rfl
    split
    · rfl
    · rfl
  | decline =>
    simp only [step]
    split
    · rfl
    · rfl
  | answer =>
    simp only [step]
    split
    · rfl
    split
    · rfl
    · rfl

theorem role_run (role : Role) (policy : Accept) (es : List Event) : ((init role policy).run es).1.role = role :=
  foldEmit_invariant (P := fun c => c.role = role) (fun e _ c h => (role_step c e).trans h) _ rfl

/--
A recorded call waits for consent.

Both clients do the same. After each event media is held just if the call has not ended and the
recorder of the last declaration records and has not been accepted so far. No answer is sent then.
A recorder is accepted while its declaration is the last one and is shown, and stays accepted. What
declines is the last that is sent.
-/
theorem consent_gates (role : Role) (policy : Accept) (es : List Event) :
    let c := (init role policy).run es
    (Ts.ConsentClient.init role policy).observe es = (init role policy).observe es ∧
      (c.1.holdMedia = true ↔ c.1.ended = none ∧ ∃ d, lastDeclared es = some d ∧ d.state ≠ "off" ∧ d.state ≠ "paused" ∧
        ∀ r, d.recorder = some r → ∀ sender, .accepted r sender ∉ c.2) ∧
      (∀ e, .send .answer ∈ (c.1.step e).2 → role = .callee ∧ c.1.holdMedia = false ∧ (c.1.step e).1.holdMedia = false) ∧
      (∀ e r sender, .accepted r sender ∈ (c.1.step e).2 → ∃ d, lastDeclared (es ++ [e]) = some d ∧ d.state ≠ "off" ∧
        d.recorder = some r ∧ lastRendered ((init role policy).run (es ++ [e])).2 = some ⟨d.state, d.recorder, d.purpose⟩) ∧
      (∀ e r, r ∈ (c.1.step e).1.accepted ↔ r ∈ c.1.accepted ∨ ∃ sender, .accepted r sender ∈ (c.1.step e).2) ∧
      ∀ (before after : List Emit) (o : Emit), c.2 = before ++ o :: after → o.Declines → ∀ m, .send m ∉ after := by
  intro c
  have hkept : Kept es c.1 c.2 := kept_run role policy es
  have hsaid (e : Event) : Says c.1 (c.1.step e).1 (c.1.step e).2 := says_step (fun hp => (hkept.pending.mp hp).1) e
  refine ⟨(Same.init role policy).observe es, ?_, ?_, ?_, ?_, ?_⟩
  · have hheld : c.1.holdMedia = true ↔ c.1.pending = true := by
      unfold holdMedia
      rw [Bool.and_eq_true, Option.isNone_iff_eq_none]
      exact and_iff_left_of_imp fun hp => (hkept.pending.mp hp).1
    rw [hheld, hkept.pending]
    refine and_congr_right fun hended => ?_
    rw [hkept.current hended]
    constructor
    · rintro ⟨d, hd, hpaused, hnot⟩
      obtain ⟨d', hlast, hoff, hstate, hrecorder, -⟩ := disclosure_bind_iff.mp hd
      refine ⟨d', hlast, hoff, hstate ▸ hpaused, fun r hr sender hin => hnot ?_⟩
      rw [hrecorder] at hr
      cases hr
      exact (hkept.accepted d.recorder).mpr ⟨sender, hin⟩
    · rintro ⟨d', hlast, hoff, hpaused, hnot⟩
      obtain ⟨recorder, hrecorder⟩ := Option.isSome_iff_exists.mp (d'.named hoff)
      refine ⟨⟨d'.state, recorder, d'.purpose⟩, ?_, hpaused, fun hin => ?_⟩
      · exact disclosure_bind_iff.mpr ⟨d', hlast, hoff, rfl, hrecorder, rfl⟩
      · obtain ⟨sender, hsender⟩ := (hkept.accepted recorder).mp hin
        exact hnot recorder hrecorder sender hsender
  · intro e he
    have hnot {c' : Consent} (hp : c'.pending = false) : c'.holdMedia = false := by
      unfold holdMedia
      rw [hp, Bool.false_and]
    generalize hout : (c.1.step e).2 = out at he
    have h := hsaid e
    rw [hout] at h
    cases h with
    | quiet out hsends haccepts haccepted => exact absurd rfl (hsends _ he .answer)
    | answer hrole hended hpending hpending' haccepted =>
      exact ⟨(role_run role policy es).symm.trans hrole, hnot hpending, hnot hpending'⟩
    | accepted out d sender hrenders hdisclosure hended haccepted =>
      rcases List.mem_append.mp he with he | he
      · obtain ⟨r, hr⟩ := hrenders _ he
        cases hr
      · cases List.mem_singleton.mp he
    | declines out o hrenders ho hended hended' haccepted =>
      rcases List.mem_append.mp he with he | he
      · obtain ⟨r, hr⟩ := hrenders _ he
        cases hr
      · rw [← List.mem_singleton.mp he] at ho
        exact ho.elim
  · intro e r sender he
    have hnext := kept_run role policy (es ++ [e])
    rw [run_last] at hnext ⊢
    obtain ⟨d, hd, hended, rfl, -⟩ := accepted_of_says (hsaid e) he
    have hcurrent := hnext.current hended
    obtain ⟨d', hlast, hoff, hstate, hrecorder, hpurpose⟩ := disclosure_bind_iff.mp (hcurrent.symm.trans hd)
    refine ⟨d', hlast, hoff, hrecorder, (hnext.rendered d hd).trans ?_⟩
    rw [hstate, hrecorder, hpurpose]
    rfl
  · exact fun e r => accepted_says (hsaid e) r
  · intro before after o hout ho m
    obtain ⟨pre, e, post, first, last, -, hstep, -, hrest⟩ := foldEmit_split hout
    have hkept' := kept_run role policy pre
    obtain ⟨hlast, hended⟩ := declines_last (says_step (fun hp => (hkept'.pending.mp hp).1) e) hstep ho
    rw [hrest, hlast, List.nil_append]
    have hnext := hkept'.step e
    exact ended_run hended (not_pending_of_ended hnext hended) post m

end Consent

end Dsip.Recording
