import Dsip.Lib.Duplex

/-!
# Setting up a call, in the abstract

A caller invites a callee, who rings, answers or rejects; either hangs up, and
the caller may give up before an answer has come. A cancel and an answer that
cross leave the callee talking to nobody: the cancel ends that call too, and the
answer that comes late is hung up on. `Shape` is what the states of both and the
messages under way can be together.
-/

namespace Dsip.Engine.Handshake

open Dsip.Lib

inductive Caller where
  | idle
  | calling
  | talking
  | finished
  deriving DecidableEq, Repr

/-- `spoken`: something other than a cancel came from the caller since the
answer. -/
inductive Callee where
  | idle
  | offered
  | ringing
  | talking (spoken : Bool)
  | finished
  deriving DecidableEq, Repr

inductive Down where
  | invite
  | cancel
  | bye
  | error
  deriving DecidableEq, Repr

inductive Up where
  | progress
  | answer
  | reject
  | bye
  | error
  deriving DecidableEq, Repr

inductive CallerAct where
  | place
  | giveUp
  | hangUp
  | pass
  deriving DecidableEq, Repr

inductive CalleeAct where
  | ring
  | accept
  | refuse
  | hangUp
  | pass
  deriving DecidableEq, Repr

def Caller.act : Caller → CallerAct → Caller × List Down
  | .idle, .place => (.calling, [.invite])
  | .calling, .giveUp => (.finished, [.cancel])
  | .talking, .hangUp => (.finished, [.bye])
  | c, _ => (c, [])

/-- What a timer that expires may come to. -/
def CallerAct.Lapse (i : CallerAct) : Prop := i = .giveUp ∨ i = .pass

def CalleeAct.Lapse (i : CalleeAct) : Prop := i = .refuse ∨ i = .pass

def Caller.recv : Caller → Up → Caller × List Down
  | c, .error => (c, [])
  | .calling, .progress => (.calling, [])
  | .calling, .answer => (.talking, [])
  | .calling, .reject => (.finished, [])
  | .talking, .bye => (.finished, [])
  | .finished, .answer => (.finished, [.bye])
  | .finished, _ => (.finished, [])
  | c, _ => (c, [.error])

def Callee.act : Callee → CalleeAct → Callee × List Up
  | .offered, .ring => (.ringing, [.progress])
  | .offered, .refuse => (.finished, [.reject])
  | .ringing, .accept => (.talking false, [.answer])
  | .ringing, .refuse => (.finished, [.reject])
  | .talking _, .hangUp => (.finished, [.bye])
  | r, _ => (r, [])

/-- An invite is let in or not. -/
def Callee.recv (admitted : Bool) : Callee → Down → Callee × List Up
  | r, .error => (r, [])
  | r, .invite =>
    if admitted then
      match r with
      | .idle => (.offered, [])
      | .finished => (.finished, [])
      | r => (r, [.error])
    else (.finished, [.reject])
  | .offered, .cancel => (.finished, [])
  | .ringing, .cancel => (.finished, [])
  | .talking false, .cancel => (.finished, [])
  | .talking _, .bye => (.finished, [])
  | .finished, _ => (.finished, [])
  | r, _ => (r, [.error])

theorem Caller.act_lapse (c : Caller) {i j : CallerAct} (hi : i.Lapse) (hj : j.Lapse) :
    ∃ k : CallerAct, k.Lapse ∧ c.act k = (((c.act i).1.act j).1, (c.act i).2 ++ ((c.act i).1.act j).2) := by
  rcases hi with rfl | rfl
  · refine ⟨.giveUp, .inl rfl, ?_⟩
    rcases hj with rfl | rfl <;> cases c <;> rfl
  · refine ⟨j, hj, ?_⟩
    rcases hj with rfl | rfl <;> cases c <;> rfl

theorem Callee.act_lapse (r : Callee) {i j : CalleeAct} (hi : i.Lapse) (hj : j.Lapse) :
    ∃ k : CalleeAct, k.Lapse ∧ r.act k = (((r.act i).1.act j).1, (r.act i).2 ++ ((r.act i).1.act j).2) := by
  rcases hi with rfl | rfl
  · refine ⟨.refuse, .inl rfl, ?_⟩
    rcases hj with rfl | rfl <;> cases r <;> rfl
  · refine ⟨j, hj, ?_⟩
    rcases hj with rfl | rfl <;> cases r <;> rfl

def caller : Party Caller CallerAct Bool Up Down Empty where
  act c i := .ok (c.act i)
  recv c _ up := .ok (c.recv up)

def callee : Party Callee CalleeAct Bool Down Up Empty where
  act r i := .ok (r.act i)
  recv r admitted down := .ok (r.recv admitted down)

def start : Duplex Caller Callee Up Down := ⟨.idle, .idle, [], []⟩

def system : TSys (Duplex Caller Callee Up Down) (Duplex.Input CallerAct CalleeAct Bool)
    (Duplex.Output Up Down) :=
  Duplex.system caller callee (· = start)

/-! ## The invariant -/

/-- A progress on its way, or none. -/
inductive Rung : List Up → Prop
  | no : Rung []
  | yes : Rung [.progress]

/-- What caller and callee can be, with what is on its way to the callee and
what is on its way to the caller. -/
inductive Shape : Caller → Callee → List Down → List Up → Prop
  | idle : Shape .idle .idle [] []
  | invited : Shape .calling .idle [.invite] []
  | inviteWithdrawn : Shape .finished .idle [.invite, .cancel] []
  | offered : Shape .calling .offered [] []
  | offerWithdrawn : Shape .finished .offered [.cancel] []
  | ringing {up} (h : Rung up) : Shape .calling .ringing [] up
  | ringingWithdrawn {up} (h : Rung up) : Shape .finished .ringing [.cancel] up
  | answered {up} (h : Rung up) : Shape .calling (.talking false) [] (up ++ [.answer])
  /-- The cancel crosses the answer. -/
  | crossing {up} (h : Rung up) : Shape .finished (.talking false) [.cancel] (up ++ [.answer])
  /-- The late answer was hung up on. -/
  | crossed : Shape .finished (.talking false) [.cancel, .bye] []
  | talking : Shape .talking (.talking false) [] []
  | callerLeft : Shape .finished (.talking false) [.bye] []
  | rejected {up} (h : Rung up) : Shape .calling .finished [] (up ++ [.reject])
  | answeredLeft {up} (h : Rung up) : Shape .calling .finished [] (up ++ [.answer, .bye])
  | calleeLeft : Shape .talking .finished [] [.bye]
  | finished (down up) : Shape .finished .finished down up

variable {c : Caller} {r : Callee} {down : List Down} {up : List Up}

theorem Shape.callerAct (h : Shape c r down up) (i : CallerAct) :
    Shape (c.act i).1 r (down ++ (c.act i).2) up := by
  -- an act that the state does not allow changes nothing
  have hsame : c.act i = (c, []) → Shape (c.act i).1 r (down ++ (c.act i).2) up := by
    intro hact
    rw [hact, List.append_nil]
    exact h
  cases i with
  | pass => exact hsame (by cases c <;> rfl)
  | place =>
    cases h
    case idle => exact .invited
    all_goals exact hsame rfl
  | giveUp =>
    cases h
    case invited => exact .inviteWithdrawn
    case offered => exact .offerWithdrawn
    case ringing h => exact .ringingWithdrawn h
    case answered h => exact .crossing h
    case rejected => exact .finished _ _
    case answeredLeft => exact .finished _ _
    all_goals exact hsame rfl
  | hangUp =>
    cases h
    case talking => exact .callerLeft
    case calleeLeft => exact .finished _ _
    all_goals exact hsame rfl

theorem Shape.calleeAct (h : Shape c r down up) (i : CalleeAct) :
    Shape c (r.act i).1 down (up ++ (r.act i).2) := by
  have hsame : r.act i = (r, []) → Shape c (r.act i).1 down (up ++ (r.act i).2) := by
    intro hact
    rw [hact, List.append_nil]
    exact h
  cases i with
  | pass => exact hsame (by cases r <;> rfl)
  | ring =>
    cases h
    case offered => exact .ringing .yes
    case offerWithdrawn => exact .ringingWithdrawn .yes
    all_goals exact hsame rfl
  | accept =>
    cases h
    case ringing h => exact .answered h
    case ringingWithdrawn h => exact .crossing h
    all_goals exact hsame rfl
  | refuse =>
    cases h
    case offered => exact .rejected .no
    case offerWithdrawn => exact .finished _ _
    case ringing h => exact .rejected h
    case ringingWithdrawn => exact .finished _ _
    all_goals exact hsame rfl
  | hangUp =>
    cases h
    case answered up h =>
      rw [List.append_assoc]
      exact .answeredLeft h
    case crossing => exact .finished _ _
    case crossed => exact .finished _ _
    case talking => exact .calleeLeft
    case callerLeft => exact .finished _ _
    all_goals exact hsame rfl

theorem Shape.calleeRecv {m : Down} (h : Shape c r (m :: down) up) (admitted : Bool) :
    Shape c (r.recv admitted m).1 down (up ++ (r.recv admitted m).2) := by
  cases h
  case invited =>
    cases admitted
    case false => exact .rejected .no
    case true => exact .offered
  case inviteWithdrawn =>
    cases admitted
    case false => exact .finished _ _
    case true => exact .offerWithdrawn
  case finished =>
    have hdone : (Callee.recv admitted .finished m).1 = .finished := by
      cases m <;> cases admitted <;> rfl
    rw [hdone]
    exact .finished _ _
  -- a cancel or a bye ends what is left of the call
  all_goals exact .finished _ _

theorem Shape.callerRecv {m : Up} (h : Shape c r down (m :: up)) :
    Shape (c.recv m).1 r (down ++ (c.recv m).2) up := by
  generalize hup : m :: up = ups at h
  cases h
  case ringing h =>
    cases h
    case no => cases hup
    case yes =>
      cases hup
      exact .ringing .no
  case ringingWithdrawn h =>
    cases h
    case no => cases hup
    case yes =>
      cases hup
      exact .ringingWithdrawn .no
  case answered h =>
    cases h
    case no =>
      cases hup
      exact .talking
    case yes =>
      cases hup
      exact .answered .no
  case crossing h =>
    cases h
    case no =>
      cases hup
      exact .crossed
    case yes =>
      cases hup
      exact .crossing .no
  case rejected h =>
    cases h
    case no =>
      cases hup
      exact .finished _ _
    case yes =>
      cases hup
      exact .rejected .no
  case answeredLeft h =>
    cases h
    case no =>
      cases hup
      exact .calleeLeft
    case yes =>
      cases hup
      exact .answeredLeft .no
  case calleeLeft =>
    cases hup
    exact .finished _ _
  case finished =>
    have hdone : (Caller.recv .finished m).1 = .finished := by cases m <;> rfl
    rw [hdone]
    exact .finished _ _
  all_goals cases hup

/-! ## Runs -/

/-- The caller has sent a cancel. -/
def Withdrawn (tr : TSys.Trace (Duplex.Input CallerAct CalleeAct Bool) (Duplex.Output Up Down)) : Prop :=
  ∃ i got sent, (i, Duplex.Output.left got sent) ∈ tr ∧ .cancel ∈ sent

theorem Caller.act_finished (c : Caller) (i : CallerAct) : (c = .finished → (c.act i).1 = .finished) ∧
      (.cancel ∈ (c.act i).2 → (c.act i).1 = .finished) := by
  cases c <;> cases i <;> simp [act]

theorem Caller.recv_finished (c : Caller) (m : Up) :
    (c = .finished → (c.recv m).1 = .finished) ∧ .cancel ∉ (c.recv m).2 := by
  cases c <;> cases m <;> simp [recv]

theorem withdrawn_snoc {tr : TSys.Trace (Duplex.Input CallerAct CalleeAct Bool)
    (Duplex.Output Up Down)} {i : Duplex.Input CallerAct CalleeAct Bool} {o : Duplex.Output Up Down}
    (h : Withdrawn (tr ++ [(i, o)])) : Withdrawn tr ∨ ∃ got sent, o = .left got sent ∧ .cancel ∈ sent := by
  obtain ⟨j, got, sent, hmem, hcancel⟩ := h
  rcases List.mem_append.mp hmem with hmem | hmem
  · exact .inl ⟨j, got, sent, hmem, hcancel⟩
  · rw [List.mem_singleton, Prod.mk.injEq] at hmem
    exact .inr ⟨got, sent, hmem.2.symm, hcancel⟩

/-- **The handshake.** In every run the states and the channels have a `Shape`,
and a caller that has sent a cancel is done. -/
theorem shape_of_run {tr : TSys.Trace (Duplex.Input CallerAct CalleeAct Bool)
    (Duplex.Output Up Down)} {s : Duplex Caller Callee Up Down} (h : system.Run start tr s) :
    Shape s.left s.right s.toRight s.toLeft ∧ (Withdrawn tr → s.left = .finished) := by
  apply TSys.Run.invariant (P := fun tr s =>
    Shape s.left s.right s.toRight s.toLeft ∧ (Withdrawn tr → s.left = .finished)) _ _ h
  · refine ⟨.idle, ?_⟩
    rintro ⟨_, _, _, hmem, -⟩
    cases hmem
  · rintro tr s i o t - ⟨hshape, hdone⟩ hstep
    cases Duplex.move_of_step hstep with
    | @left i _ _ hact =>
      obtain ⟨rfl, rfl⟩ := Prod.ext_iff.mp (Except.ok.inj hact)
      refine ⟨hshape.callerAct i, ?_⟩
      intro hw
      rcases withdrawn_snoc hw with hw | ⟨_, _, ho, hcancel⟩
      · exact (s.left.act_finished i).1 (hdone hw)
      · cases ho
        exact (s.left.act_finished i).2 hcancel
    | @right i _ _ hact =>
      obtain ⟨rfl, rfl⟩ := Prod.ext_iff.mp (Except.ok.inj hact)
      refine ⟨hshape.calleeAct i, ?_⟩
      intro hw
      rcases withdrawn_snoc hw with hw | ⟨_, _, ho, -⟩
      · exact hdone hw
      · cases ho
    | @deliverRight admitted m rest _ _ hm hrecv =>
      obtain ⟨rfl, rfl⟩ := Prod.ext_iff.mp (Except.ok.inj hrecv)
      rw [hm] at hshape
      refine ⟨hshape.calleeRecv admitted, ?_⟩
      intro hw
      rcases withdrawn_snoc hw with hw | ⟨_, _, ho, -⟩
      · exact hdone hw
      · cases ho
    | @deliverLeft _ m rest _ _ hm hrecv =>
      obtain ⟨rfl, rfl⟩ := Prod.ext_iff.mp (Except.ok.inj hrecv)
      rw [hm] at hshape
      refine ⟨hshape.callerRecv, ?_⟩
      intro hw
      rcases withdrawn_snoc hw with hw | ⟨_, _, ho, hcancel⟩
      · exact (s.left.recv_finished m).1 (hdone hw)
      · cases ho
        exact absurd hcancel (s.left.recv_finished m).2

theorem Shape.agree (h : Shape c r [] []) (hc : c ≠ .calling) :
    c = .talking ↔ ∃ spoken, r = .talking spoken := by
  generalize hdown : ([] : List Down) = down at h
  generalize hup : ([] : List Up) = up at h
  cases h
  case talking => simp
  case idle => simp
  case finished => simp
  case crossing h => cases hdown
  case calleeLeft => cases hup
  case invited => exact absurd rfl hc
  case offered => exact absurd rfl hc
  case ringing => exact absurd rfl hc
  case answered => exact absurd rfl hc
  case rejected => exact absurd rfl hc
  case answeredLeft => exact absurd rfl hc
  all_goals cases hdown

end Dsip.Engine.Handshake
