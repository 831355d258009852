import Dsip.Gateway.CallTs
import Dsip.Gateway.Ending

/-!
# How the calls of both controllers end

The TypeScript controller goes wrong where the Python one does, and where it
ends an active call without a release: on Timer C, on a CANCEL in either
direction, and on a final response after early media. `call_ends_once` is about
both.
-/

namespace Dsip.Gateway.Ts.Call

open Dsip.Lib

def legs (c : Call) : Legs := ⟨c.dsip, c.sip⟩

/-- What holds of a call and its account from the invite on. -/
abbrev Sound (c : Call) (a : Account) : Prop := Settled c.legs c.answered a

/-- The steps on which a call goes wrong. -/
def Astray (c : Call) (a : Account) : Event → Prop
  | .timerC | .sip .cancel => c.dsip = .active
  | .dsip .cancel => c.ctx.direction = .outbound ∧ c.dsip = .active
  | .dsip (.progress _) | .dsip (.answer _) =>
    c.ctx.direction = .inbound ∧ (c.dsip = .active ∨ c.dsip = .ended)
  | .dsip (.reject _) => c.ctx.direction = .inbound ∧ c.dsip = .active
  | .sip (.response r) =>
    c.dsip = .ended ∧ r.status ≠ 100 ∧ r.status < 200 ∧ (a.torn = false ∨ c.answersEarly r = true) ∨
      c.dsip = .active ∧ 300 ≤ r.status
  | _ => False

variable {c c' : Call} {a : Account} {ev : Event} {out : List Emit}

/-- A step goes wrong just when it is astray, and else keeps what holds. -/
def Turn (c : Call) (a : Account) (ev : Event) (c' : Call) (out : List Emit) : Prop :=
  (Orderly a c.legs out c'.legs ↔ ¬ c.Astray a ev) ∧ (¬ c.Astray a ev → Sound c' (a.add out))

theorem Turn.fine (hno : ¬ c.Astray a ev) (h : Sound c' (a.add out))
    (hends : c.dsip = .ended → c'.dsip = .ended ∧ ∀ e ∈ out, e.answers = false) : Turn c a ev c' out :=
  ⟨iff_of_true (h.orderly hends) hno, fun _ => h⟩

theorem Turn.wrong (hyes : c.Astray a ev) (h : ¬ Orderly a c.legs out c'.legs) : Turn c a ev c' out :=
  ⟨iff_of_false h (not_not_intro hyes), fun hno => absurd hyes hno⟩

theorem Turn.idle (hs : Sound c a) (hno : ¬ c.Astray a ev) (hadd : a.add out = a)
    (hquiet : ∀ e ∈ out, e.answers = false) : Turn c a ev c out := by
  refine .fine hno ?_ fun hended => ⟨hended, hquiet⟩
  rw [hadd]
  exact hs

theorem Turn.ends (hs : Sound c a) (hended : c'.dsip = .ended) (hanswered : c'.answered = c.answered)
    (hiff : c.Astray a ev ↔ c.dsip = .active) (hbridges : (a.add out).bridges = a.bridges)
    (hup : (a.add out).up = a.up) (hquiet : ∀ e ∈ out, e.answers = false)
    (hsip : c.dsip ≠ .active → c'.sip = .terminated ∨ (a.add out).torn = true) : Turn c a ev c' out := by
  by_cases hactive : c.dsip = .active
  · refine .wrong (hiff.mpr hactive) fun ho => ?_
    have hover := ho.up.mp (hup.trans (hs.up.mpr hactive))
    cases hended.symm.trans hover
  · have hno : ¬ c.Astray a ev := fun hyes => hactive (hiff.mp hyes)
    have hsound : Sound c' (a.add out) := by
      unfold Sound
      rw [hanswered]
      exact hs.finish hended hbridges (hup.trans (hs.down hactive)) (hsip hactive)
    exact .fine hno hsound fun _ => ⟨hended, hquiet⟩

theorem Turn.releases (hs : Sound c a) (hno : ¬ c.Astray a ev) (hended : c'.dsip = .ended)
    (hanswered : c'.answered = c.answered) (hbridges : (a.add out).bridges = a.bridges)
    (hup : (a.add out).up = false) (hquiet : ∀ e ∈ out, e.answers = false)
    (hsip : c'.sip = .terminated) : Turn c a ev c' out := by
  refine .fine hno ?_ fun _ => ⟨hended, hquiet⟩
  unfold Sound
  rw [hanswered]
  exact hs.finish hended hbridges hup (.inl hsip)

/-! ## DSIP messages -/

theorem fromEither_turn (hs : Sound c a) {m : DsipMessage} (hno : ¬ c.Astray a (.dsip m))
    (h : c.fromEither m = .ok (c', out)) : Turn c a (.dsip m) c' out := by
  unfold fromEither at h
  split at h
  · obtain ⟨rfl, rfl⟩ := Prod.ext_iff.mp (Except.ok.inj h)
    exact .idle hs hno rfl (by simp [Emit.answers])
  · obtain ⟨rfl, rfl⟩ := Prod.ext_iff.mp (Except.ok.inj h)
    exact .releases hs hno rfl rfl rfl rfl (by simp [Emit.answers]) rfl
  · cases h
  · cases h

theorem progress_turn (hs : Sound c a) (hdir : c.ctx.direction = .inbound) {status : String}
    (hc : c' = { c with dsip := .alerting })
    (hout : out = if status = "ringing" then [.sip (.respond 180)] else []) :
    Turn c a (.dsip (.progress status)) c' out := by
  have hadd : a.add out = a := by
    rw [hout]
    split <;> rfl
  have hquiet : ∀ e ∈ out, e.answers = false := by
    rw [hout]
    split <;> simp [Emit.answers]
  subst hc
  by_cases hgone : c.dsip = .active ∨ c.dsip = .ended
  · refine .wrong ⟨hdir, hgone⟩ fun ho => ?_
    rcases hgone with hactive | hended
    · have hup : (a.add out).up = true := by
        rw [hadd]
        exact hs.up.mpr hactive
      cases ho.up.mp hup
    · cases (ho.endsOnce hended).1
  · obtain ⟨hactive, hended⟩ := not_or.mp hgone
    refine .fine (fun hyes => hgone hyes.2) ?_ fun hover => absurd hover hended
    rw [hadd]
    refine hs.keep ?_ ?_ rfl rfl (fun h => by cases h) fun hsip => absurd (hs.dsipTold hsip) hended
    · exact iff_of_false (by simp [legs]) hactive
    · exact iff_of_false (by simp [legs]) hended

theorem answer_turn (hs : Sound c a) (hdir : c.ctx.direction = .inbound)
    {answeredBy : Option String} {direction : String}
    (hc : c' = { c with dsip := .active, sip := .confirmed, answered := true })
    (hout : out = [.sip (.answer direction), .bridge]) :
    Turn c a (.dsip (.answer answeredBy)) c' out := by
  subst hc hout
  by_cases hgone : c.dsip = .active ∨ c.dsip = .ended
  · refine .wrong ⟨hdir, hgone⟩ fun ho => ?_
    rcases hgone with hactive | hended
    · -- bridged once more
      have honce : a.bridges + 1 ≤ 1 := ho.bridgedOnce
      rw [hs.bridges, if_pos (hs.active hactive)] at honce
      omega
    · cases (ho.endsOnce hended).1
  · exact .fine (fun hyes => hgone hyes.2)
      (hs.answer (not_or.mp hgone) rfl (by simp [legs]) rfl rfl)
      fun hover => absurd (.inr hover) hgone

theorem fromDsip_turn (hs : Sound c a) {m : DsipMessage} (hno : ¬ (Event.dsip m).Invites)
    (h : c.fromDsip m = .ok (c', out)) : Turn c a (.dsip m) c' out := by
  unfold fromDsip at h
  cases m with
  | info about data =>
    dsimp only at h
    split at h
    · obtain ⟨rfl, rfl⟩ := Prod.ext_iff.mp (Except.ok.inj h)
      exact .idle hs id rfl (by simp [Emit.answers])
    split at h
    · obtain ⟨rfl, rfl⟩ := Prod.ext_iff.mp (Except.ok.inj h)
      exact .idle hs id rfl (by simp [Emit.answers])
    · obtain ⟨rfl, rfl⟩ := Prod.ext_iff.mp (Except.ok.inj h)
      exact .idle hs id rfl (by simp [Emit.answers])
  | invite => exact absurd trivial hno
  | update direction => exact fromEither_turn hs id h
  | bye reason => exact fromEither_turn hs id h
  | other type => exact fromEither_turn hs id h
  | cancel =>
    cases hdir : c.ctx.direction with
    | inbound =>
      rw [hdir] at h
      exact fromEither_turn hs (fun hyes => by cases hdir.symm.trans hyes.1) h
    | outbound =>
      rw [hdir] at h
      obtain ⟨rfl, rfl⟩ := Prod.ext_iff.mp (Except.ok.inj h)
      exact .ends hs rfl rfl ⟨fun hyes => hyes.2, fun hactive => ⟨hdir, hactive⟩⟩ rfl rfl
        (by simp [Emit.answers]) fun _ => .inr rfl
  | progress status =>
    cases hdir : c.ctx.direction with
    | outbound =>
      rw [hdir] at h
      exact fromEither_turn hs (fun hyes => by cases hdir.symm.trans hyes.1) h
    | inbound =>
      rw [hdir] at h
      obtain ⟨hc, hout⟩ := Prod.ext_iff.mp (Except.ok.inj h)
      exact progress_turn hs hdir hc.symm hout.symm
  | answer answeredBy =>
    cases hdir : c.ctx.direction with
    | outbound =>
      rw [hdir] at h
      exact fromEither_turn hs (fun hyes => by cases hdir.symm.trans hyes.1) h
    | inbound =>
      rw [hdir] at h
      obtain ⟨hc, hout⟩ := Prod.ext_iff.mp (Except.ok.inj h)
      exact answer_turn hs hdir hc.symm hout.symm
  | reject reason =>
    cases hdir : c.ctx.direction with
    | outbound =>
      rw [hdir] at h
      cases reason <;> exact fromEither_turn hs (fun hyes => by cases hdir.symm.trans hyes.1) h
    | inbound =>
      rw [hdir] at h
      cases reason with
      | none => cases h
      | some reason =>
        obtain ⟨rfl, rfl⟩ := Prod.ext_iff.mp (Except.ok.inj h)
        exact .ends hs rfl rfl ⟨fun hyes => hyes.2, fun hactive => ⟨hdir, hactive⟩⟩ rfl rfl
          (by simp [Emit.answers]) fun _ => .inl rfl

/-! ## Responses -/

/-- The state and emissions of a provisional response. -/
def ringing (c : Call) : Call × List Emit :=
  if c.dsip = .inviting then ({ c with sip := .early, dsip := .proceeding }, [.dsip .alert])
  else ({ c with sip := .early }, [])

theorem sipResponse_provisional {r : Response} (htrying : r.status ≠ 100) (hmax : r.status < 200) :
    c.sipResponse r = if c.answersEarly r then
      (c.ringing.1.answer.1, c.ringing.2 ++ c.ringing.1.answer.2) else c.ringing := by
  have hearly : c.ringing.1.answersEarly r = c.answersEarly r := by
    unfold ringing
    split <;> rfl
  unfold sipResponse
  rw [if_neg htrying, if_pos hmax]
  dsimp only
  rw [← hearly]
  rfl

theorem ringing_spec (c : Call) (a : Account) : c.ringing.1.sip = .early ∧ c.ringing.1.answered = c.answered ∧
      (c.ringing.1.dsip = .active ↔ c.dsip = .active) ∧
      (c.ringing.1.dsip = .ended ↔ c.dsip = .ended) ∧
      a.add c.ringing.2 = a ∧ ∀ e ∈ c.ringing.2, e.answers = false := by
  unfold ringing
  split
  case isTrue hinviting => simp [hinviting, Account.note, Emit.answers]
  case isFalse => simp

theorem provisional_turn (hs : Sound c a) {r : Response} (htrying : r.status ≠ 100) (hmax : r.status < 200) :
    Turn c a (.sip (.response r)) (c.sipResponse r).1 (c.sipResponse r).2 := by
  obtain ⟨hsip, hanswered, hactive, hover, hadd, hquiet⟩ := ringing_spec c a
  rw [sipResponse_provisional htrying hmax]
  by_cases hended : c.dsip = .ended ∧ (a.torn = false ∨ c.answersEarly r = true)
  · obtain ⟨hended, hwhy⟩ := hended
    refine .wrong (.inl ⟨hended, htrying, hmax, hwhy⟩) fun ho => ?_
    split at ho
    case isTrue => cases (ho.endsOnce hended).1
    case isFalse hearly =>
      -- the SIP leg is up again
      have hleft := ho.sipTold (ho.endsOnce hended).1
      rw [hadd, hwhy.resolve_right hearly] at hleft
      simp [legs, hsip] at hleft
  · have hno : ¬ c.Astray a (.sip (.response r)) := by
      rintro (⟨hdsip, -, -, hwhy⟩ | ⟨-, hge⟩)
      · exact hended ⟨hdsip, hwhy⟩
      · omega
    have hsound : Settled c.ringing.1.legs c.ringing.1.answered a := by
      rw [hanswered]
      refine hs.keep hactive hover rfl rfl (fun hdsip => .inr ?_) fun hterminated => ?_
      · exact eq_true_of_ne_false fun htorn => hended ⟨hover.mp hdsip, .inl htorn⟩
      · cases hsip.symm.trans hterminated
    split
    case isTrue hearly =>
      have hunanswered : ¬ c.answered = true := by
        simp only [answersEarly, decide_eq_true_eq] at hearly
        exact hearly.2.2.2
      have hopen : c.ringing.1.dsip ≠ .active ∧ c.ringing.1.dsip ≠ .ended := by
        rw [Ne, hactive, Ne, hover]
        exact ⟨fun hdsip => hunanswered (hs.active hdsip), fun hdsip => hended ⟨hdsip, .inr hearly⟩⟩
      refine .fine hno ?_ fun hdsip => absurd (hover.mpr hdsip) hopen.2
      rw [Account.add_append, hadd]
      refine hsound.answer hopen rfl ?_ rfl rfl
      exact fun hterminated => hopen.2 (hsound.dsipTold hterminated)
    case isFalse =>
      refine .fine hno ?_ fun hdsip => ⟨hover.mpr hdsip, hquiet⟩
      rw [hadd]
      exact hsound

theorem final_turn (hs : Sound c a) {r : Response} (hmin : 200 ≤ r.status) :
    Turn c a (.sip (.response r)) (c.sipResponse r).1 (c.sipResponse r).2 := by
  unfold sipResponse
  rw [if_neg (by omega), if_neg (by omega)]
  have hlate : ¬ r.status < 200 := by omega
  by_cases hok : r.status < 300
  · have hno : ¬ c.Astray a (.sip (.response r)) := by
      rintro (⟨-, -, hlt, -⟩ | ⟨-, hge⟩) <;> omega
    rw [if_pos hok]
    split
    case isTrue hended =>
      exact .releases hs hno hended rfl rfl (hs.down (by simp [legs, hended]))
        (by simp [Emit.answers]) rfl
    case isFalse hended =>
      split
      case isTrue hanswered =>
        refine .fine hno ?_ fun hdsip => absurd hdsip hended
        exact hs.keep Iff.rfl Iff.rfl rfl rfl (fun hdsip => absurd hdsip hended) fun h => by cases h
      case isFalse hunanswered =>
        refine .fine hno ?_ fun hdsip => absurd hdsip hended
        exact hs.answer ⟨fun hdsip => hunanswered (hs.active hdsip), hended⟩ rfl
          (by simp [legs, answer]) rfl rfl
  · rw [if_neg hok]
    split
    case isTrue hended =>
      refine .fine ?_ ?_ fun _ => ⟨hended, by simp⟩
      · rintro (⟨-, -, hlt, -⟩ | ⟨hactive, -⟩)
        · exact hlate hlt
        · cases hended.symm.trans hactive
      · exact hs.finish hended rfl (hs.down (by simp [legs, hended])) (.inl rfl)
    case isFalse hended =>
      refine .ends hs rfl rfl ⟨?_, fun hactive => .inr ⟨hactive, by omega⟩⟩ ?_ ?_ ?_ fun _ => .inl rfl
      · rintro (⟨hdsip, -⟩ | ⟨hactive, -⟩)
        · exact absurd hdsip hended
        · exact hactive
      · dsimp only
        split <;> rfl
      · dsimp only
        split <;> rfl
      · dsimp only
        split <;> simp [Emit.answers]

theorem sipResponse_turn (hs : Sound c a) (r : Response) :
    Turn c a (.sip (.response r)) (c.sipResponse r).1 (c.sipResponse r).2 := by
  by_cases htrying : r.status = 100
  · have hno : ¬ c.Astray a (.sip (.response r)) := by
      rintro (⟨-, hne, -⟩ | ⟨-, hge⟩)
      · exact hne htrying
      · omega
    have hstep : c.sipResponse r = (c, []) := if_pos htrying
    rw [hstep]
    exact .idle hs hno rfl (by simp)
  by_cases hprovisional : r.status < 200
  · exact provisional_turn hs htrying hprovisional
  · exact final_turn hs (by omega)

/-! ## Every event -/

theorem fromSip_turn (hs : Sound c a) {m : SipMessage} (hno : ¬ (Event.sip m).Invites)
    (h : c.fromSip m = .ok (c', out)) : Turn c a (.sip m) c' out := by
  unfold fromSip at h
  cases m with
  | dtmf digits durationMs =>
    dsimp only at h
    split at h
    · obtain ⟨rfl, rfl⟩ := Prod.ext_iff.mp (Except.ok.inj h)
      exact .idle hs id rfl (by simp [Emit.answers])
    · obtain ⟨rfl, rfl⟩ := Prod.ext_iff.mp (Except.ok.inj h)
      exact .idle hs id rfl (by simp [Emit.answers])
  | response r =>
    obtain ⟨rfl, rfl⟩ := Prod.ext_iff.mp (Except.ok.inj h)
    exact sipResponse_turn hs r
  | invite => exact absurd trivial hno
  | ack =>
    obtain ⟨rfl, rfl⟩ := Prod.ext_iff.mp (Except.ok.inj h)
    exact .idle hs id rfl (by simp)
  | cancel =>
    obtain ⟨rfl, rfl⟩ := Prod.ext_iff.mp (Except.ok.inj h)
    exact .ends hs rfl rfl Iff.rfl rfl rfl (by simp [Emit.answers]) fun _ => .inl rfl
  | bye q850 =>
    obtain ⟨rfl, rfl⟩ := Prod.ext_iff.mp (Except.ok.inj h)
    exact .releases hs id rfl rfl rfl rfl (by simp [Emit.answers]) rfl
  | refer =>
    obtain ⟨rfl, rfl⟩ := Prod.ext_iff.mp (Except.ok.inj h)
    exact .idle hs id rfl (by simp [Emit.answers])
  | reInvite direction =>
    obtain ⟨rfl, rfl⟩ := Prod.ext_iff.mp (Except.ok.inj h)
    exact .idle hs id rfl (by simp [Emit.answers])
  | info dtmf =>
    obtain ⟨rfl, rfl⟩ := Prod.ext_iff.mp (Except.ok.inj h)
    refine .idle hs id ?_ ?_
    · dsimp only
      split <;> rfl
    · dsimp only
      split <;> simp [Emit.answers]
  | other request => cases h

theorem step_turn (hs : Sound c a) {ev : Event} (hno : ¬ ev.Invites)
    (h : c.step ev = .ok (c', out)) : Turn c a ev c' out := by
  cases ev with
  | timerC =>
    obtain ⟨rfl, rfl⟩ := Prod.ext_iff.mp (Except.ok.inj h)
    exact .ends hs rfl rfl Iff.rfl rfl rfl (by simp [timerC, Emit.answers]) fun _ => .inl rfl
  | dsip m => exact fromDsip_turn hs hno h
  | sip m => exact fromSip_turn hs hno h

theorem opening_turn {ctx : Context} {ev : Event} (hopens : ev.Opens ctx.direction)
    (h : step { ctx := ctx } ev = .ok (c', out)) :
    Orderly {} (legs { ctx := ctx }) out c'.legs ∧ ¬ Astray { ctx := ctx } {} ev ∧
      Sound c' (Account.add {} out) := by
  cases hdir : ctx.direction with
  | outbound =>
    rw [hdir] at hopens
    unfold Event.Opens at hopens
    split at hopens
    case h_1 =>
      simp only [step, fromDsip, hdir] at h
      obtain ⟨rfl, rfl⟩ := Prod.ext_iff.mp (Except.ok.inj h)
      have hsound : Settled (⟨.inviting, .calling⟩ : Legs) false (Account.add {} [.sip .invite]) := by
        constructor <;> simp [Account.note]
      exact ⟨hsound.orderly (fun h => by cases h), id, hsound⟩
    case h_2 heq => cases heq
    case h_3 => exact hopens.elim
  | inbound =>
    rw [hdir] at hopens
    unfold Event.Opens at hopens
    split at hopens
    case h_1 heq => cases heq
    case h_2 fromTn identity cnam heq =>
      obtain ⟨rfl, rfl⟩ := Prod.ext_iff.mp (Except.ok.inj h)
      have hsound : ∀ e, e = Emit.sip (.respond 100) → ∀ claim basis,
          Settled (⟨.offered, .early⟩ : Legs) false
            (Account.add {} [.dsip (.placeCall claim basis), e]) := by
        rintro e rfl claim basis
        constructor <;> simp [Account.note]
      exact ⟨(hsound _ rfl _ _).orderly (fun h => by cases h), id, hsound _ rfl _ _⟩
    case h_3 => exact hopens.elim

end Dsip.Gateway.Ts.Call

namespace Dsip.Gateway

open Dsip.Lib

/-- From the one invite of a call on, every state of a run is one of a run in
order just when no step is astray, in both controllers. -/
theorem call_ends_once (ctx : Context) : (∀ m p c, (Call.machine ctx).Path { ctx := ctx } (m :: p) c →
      m.input.Opens ctx.direction → (∀ m' ∈ p, ¬ m'.input.Invites) →
      (ProperThroughout Call.legs (m :: p) ↔ NeverAstray Call.Astray (m :: p))) ∧
    ∀ m p c, (Ts.Call.machine ctx).Path { ctx := ctx } (m :: p) c →
      m.input.Opens ctx.direction → (∀ m' ∈ p, ¬ m'.input.Invites) →
      (ProperThroughout Ts.Call.legs (m :: p) ↔ NeverAstray Ts.Call.Astray (m :: p)) := by
  constructor
  · intro m p c hpath hopens hrest
    refine (proper_iff_of_orderly Call.Sound ?_ ?_ hpath hopens hrest).1
    · intro ev out c' hopens hs
      obtain ⟨rfl, rfl⟩ := Prod.ext_iff.mp hs
      exact Call.opening_turn hopens
    · intro c a ev out c' hsound hno hs
      obtain ⟨rfl, rfl⟩ := Prod.ext_iff.mp hs
      exact Call.step_turn hsound hno
  · intro m p c hpath hopens hrest
    refine (proper_iff_of_orderly Ts.Call.Sound ?_ ?_ hpath hopens hrest).1
    · intro ev out c' hopens hs
      exact Ts.Call.opening_turn hopens hs
    · intro c a ev out c' hsound hno hs
      exact Ts.Call.step_turn hsound hno hs

/-! ## Two calls -/

/-- An outbound call that is answered. -/
def answeredCall : List (CallMove Call Event) × Call :=
  TSys.moves Call.step { ctx := {} } [.dsip .invite, .sip (.response { status := 200 })]

theorem call_ends_once_answered : ProperThroughout Call.legs answeredCall.1 := by
  have hpath : (Call.machine {}).Path { ctx := {} } answeredCall.1 answeredCall.2 :=
    TSys.moves_path Call.step _ _ _
  refine ((call_ends_once {}).1 _ _ _ hpath trivial ?_).mpr ?_
  · intro m hm
    obtain rfl := List.mem_singleton.mp hm
    exact id
  · refine (neverAstray_snoc (p := [_])).mpr ⟨(neverAstray_snoc (p := [])).mpr ⟨?_, id⟩, ?_⟩
    · exact fun _ _ _ h => absurd h (by simp)
    · rintro ⟨-, hended, -⟩
      cases hended

def crossedCall : List (CallMove Call Event) × Call :=
  TSys.moves Call.step { ctx := {} } [.dsip .invite, .timerC, .sip (.response { status := 200 })]

/-- Timer C finds early media. -/
def silentCall : Option (List (CallMove Ts.Call Event) × Ts.Call) :=
  TSys.moves? Ts.Call.step { ctx := {} }
    [.dsip .invite, .sip (.response { status := 183, sdp := true }), .timerC]

/-- A call is answered after its end in one controller, and leaves its media up
in the other. -/
theorem call_ends_twice : (¬ ∀ ctx m p c, (Call.machine ctx).Path { ctx := ctx } (m :: p) c →
      m.input.Opens ctx.direction → (∀ m' ∈ p, ¬ m'.input.Invites) →
      ProperThroughout Call.legs (m :: p)) ∧
    ¬ ∀ ctx m p c, (Ts.Call.machine ctx).Path { ctx := ctx } (m :: p) c →
      m.input.Opens ctx.direction → (∀ m' ∈ p, ¬ m'.input.Invites) →
      ProperThroughout Ts.Call.legs (m :: p) := by
  constructor
  · intro h
    have hpath : (Call.machine {}).Path { ctx := {} } crossedCall.1 crossedCall.2 :=
      TSys.moves_path Call.step _ _ _
    have hrest : ∀ m' ∈ crossedCall.1.tail, ¬ m'.input.Invites := by
      intro m hm
      rcases List.mem_cons.mp hm with rfl | hm
      · exact id
      · obtain rfl := List.mem_singleton.mp hm
        exact id
    have hproper := h {} _ _ _ hpath trivial hrest [_, _] _ [] rfl
    cases (hproper.endsOnce _ List.mem_concat_self rfl).1
  · intro h
    obtain ⟨⟨p, c⟩, hr, m₁, m₂, m₃, rfl, hopens, hrest₂, hrest₃, hup, hended⟩ :
        ∃ r, silentCall = some r ∧ ∃ m₁ m₂ m₃, r.1 = [m₁, m₂, m₃] ∧
          m₁.input.Opens .outbound ∧ ¬ m₂.input.Invites ∧ ¬ m₃.input.Invites ∧
          (account r.1).up = true ∧ m₃.after.dsip = .ended :=
      ⟨_, rfl, _, _, _, rfl, trivial, id, id, rfl, rfl⟩
    have hpath : (Ts.Call.machine {}).Path { ctx := {} } [m₁, m₂, m₃] c := TSys.moves?_path Ts.Call.step _ hr
    have hproper := h {} m₁ [m₂, m₃] c hpath hopens (by simp [hrest₂, hrest₃]) [m₁, m₂] m₃ [] rfl
    have hactive : m₃.after.dsip = .active := hproper.up.mp hup
    cases hended.symm.trans hactive

end Dsip.Gateway
