import Dsip.Gateway.Legs

/-!
# How the calls of the Python controller end

`Astray` lists the steps on which a call goes wrong: what comes after the call
is over, or ends it while the media is up, and is taken as if it did not. Every
other step is orderly, and these are not (`step_turn`).
-/

namespace Dsip.Gateway.Call

open Dsip.Lib

def legs (c : Call) : Legs := ⟨c.dsip, c.sip⟩

/-- What holds of a call and its account from the invite on. -/
structure Sound (c : Call) (a : Account) : Prop where
  settled : Settled c.legs c.answered a
  cancelled : c.cancelled = true → c.dsip = .ended
  outbound : c.ctx.direction = .outbound →
    c.dsip = .active ∨ c.dsip = .ended ∨ c.sip = .calling ∨ c.sip = .early
  inbound : c.ctx.direction = .inbound →
    c.dsip = .offered ∨ c.dsip = .alerting ∨ c.dsip = .active ∨ c.dsip = .ended
  begun : c.sip ≠ .idle

/-- The steps on which a call goes wrong: a DSIP `cancel` or `reject` or a SIP
CANCEL while the call is up, `progress` or `answer` when it is up or over, and,
when it is over, a response that answers, or that finds nothing sent to end the
SIP leg. -/
def Astray (c : Call) (a : Account) : Event → Prop
  | .dsip .cancel => c.ctx.direction = .outbound ∧ c.dsip = .active
  | .dsip (.progress _) | .dsip (.answer _) =>
    c.ctx.direction = .inbound ∧ (c.dsip = .active ∨ c.dsip = .ended)
  | .dsip (.reject _) | .sip .cancel => c.ctx.direction = .inbound ∧ c.dsip = .active
  | .sip (.response r) =>
    c.ctx.direction = .outbound ∧ c.dsip = .ended ∧ c.cancelled = false ∧
      (180 ≤ r.status ∧ r.status < 200 ∧ (a.torn = false ∨ c.answersEarly r = true) ∨
        200 ≤ r.status ∧ r.status < 300 ∧ (a.torn = false ∨ c.answered = false))
  | _ => False

/-- A step goes wrong just when it is astray, and else keeps what holds. -/
def Turn (c : Call) (a : Account) (ev : Event) : Prop :=
  (Orderly a c.legs (c.step ev).2 (c.step ev).1.legs ↔ ¬ c.Astray a ev) ∧
    (¬ c.Astray a ev → Sound (c.step ev).1 (a.add (c.step ev).2))

variable {c : Call} {a : Account} {ev : Event}

theorem Turn.fine (hno : ¬ c.Astray a ev) (h : Sound (c.step ev).1 (a.add (c.step ev).2))
    (hends : c.dsip = .ended →
      (c.step ev).1.dsip = .ended ∧ ∀ e ∈ (c.step ev).2, e.answers = false) : c.Turn a ev :=
  ⟨iff_of_true (h.settled.orderly hends) hno, fun _ => h⟩

theorem Turn.wrong (hyes : c.Astray a ev)
    (h : ¬ Orderly a c.legs (c.step ev).2 (c.step ev).1.legs) : c.Turn a ev :=
  ⟨iff_of_false h (not_not_intro hyes), fun hno => absurd hyes hno⟩

theorem Turn.idle (hs : Sound c a) (hno : ¬ c.Astray a ev) (hsame : (c.step ev).1 = c)
    (hadd : a.add (c.step ev).2 = a) (hquiet : ∀ e ∈ (c.step ev).2, e.answers = false) : c.Turn a ev := by
  refine .fine hno ?_ fun hended => ⟨?_, hquiet⟩
  · rw [hsame, hadd]
    exact hs
  · rw [hsame]
    exact hended

/-! ## Timer C -/

theorem timerC_turn (h : Sound c a) : c.Turn a .timerC := by
  by_cases hdue : (c.sip = .calling ∨ c.sip = .early) ∧ ¬ c.answered
  · have hstep : c.step .timerC = ({ c with sip := .terminated, dsip := .ended },
        [.sip .cancel, .dsip (.autoReject "gateway.unreachable" (some "SIP Timer C"))]) :=
      if_pos hdue
    have hdown : a.up = false := h.settled.down fun hactive => hdue.2 (h.settled.active hactive)
    refine .fine id ?_ fun _ => ?_ <;> rw [hstep]
    · exact ⟨h.settled.finish rfl rfl hdown (.inl rfl), fun _ => rfl, fun _ => .inr (.inl rfl),
        fun _ => .inr (.inr (.inr rfl)), nofun⟩
    · exact ⟨rfl, by simp [Emit.answers]⟩
  · have hstep : c.step .timerC = (c, []) := if_neg hdue
    exact .idle h id (by rw [hstep]) (by rw [hstep]; rfl) (by simp [hstep])

/-! ## DSIP messages -/

theorem cancel_turn (h : Sound c a) : c.Turn a (.dsip .cancel) := by
  by_cases hdir : c.ctx.direction = .outbound
  case neg =>
    have hstep : c.step (.dsip .cancel) = (c, [.ignore ("dsip cancel in " ++ c.dsip.name)]) :=
      if_neg hdir
    exact .idle h (fun hyes => hdir hyes.1) (by rw [hstep]) (by rw [hstep]; rfl)
      (by simp [hstep, Emit.answers])
  have hstep : c.step (.dsip .cancel) = ({ c with cancelled := true, dsip := .ended },
      if c.sip = .calling ∨ c.sip = .early then [.sip .cancel] else []) := if_pos hdir
  by_cases hactive : c.dsip = .active
  · -- the media stays up
    refine .wrong ⟨hdir, hactive⟩ fun ho => ?_
    rw [hstep] at ho
    have hup : a.up = true := h.settled.up.mpr hactive
    have hnot := ho.up
    split at hnot <;> simp [Account.note, legs, hup] at hnot
  · have hdown : a.up = false := h.settled.down hactive
    refine .fine (fun hyes => hactive hyes.2) ?_ fun _ => ?_ <;> rw [hstep]
    · have hsip : c.sip = .terminated ∨
          (a.add (if c.sip = .calling ∨ c.sip = .early then [.sip .cancel] else [])).torn = true := by
        split
        case isTrue => exact .inr rfl
        case isFalse hsip =>
          rcases h.outbound hdir with hdsip | hdsip | hcalling | hearly
          · exact absurd hdsip hactive
          · exact h.settled.sipTold hdsip
          · exact absurd (.inl hcalling) hsip
          · exact absurd (.inr hearly) hsip
      refine ⟨h.settled.finish rfl ?_ ?_ hsip, fun _ => rfl, fun _ => .inr (.inl rfl),
        fun _ => .inr (.inr (.inr rfl)), h.begun⟩
      · split <;> rfl
      · split <;> exact hdown
    · refine ⟨rfl, ?_⟩
      split <;> simp [Emit.answers]

theorem progress_turn (h : Sound c a) (status : String) : c.Turn a (.dsip (.progress status)) := by
  by_cases hdir : c.ctx.direction = .inbound
  case neg =>
    have hstep : c.step (.dsip (.progress status)) =
        (c, [.ignore ("dsip progress in " ++ c.dsip.name)]) := if_neg hdir
    exact .idle h (fun hyes => hdir hyes.1) (by rw [hstep]) (by rw [hstep]; rfl)
      (by simp [hstep, Emit.answers])
  have hstep : c.step (.dsip (.progress status)) =
      ({ c with dsip := .alerting }, [.sip (.respond 180)]) := if_pos hdir
  by_cases hgone : c.dsip = .active ∨ c.dsip = .ended
  · refine .wrong ⟨hdir, hgone⟩ fun ho => ?_
    rw [hstep] at ho
    rcases hgone with hactive | hended
    · have hup : a.up = true := h.settled.up.mpr hactive
      cases ho.up.mp hup
    · cases (ho.endsOnce hended).1
  · obtain ⟨hactive, hended⟩ := not_or.mp hgone
    refine .fine (fun hyes => hgone hyes.2) ?_ fun hover => absurd hover hended
    rw [hstep]
    refine ⟨h.settled.keep ?_ ?_ rfl rfl ?_ ?_, fun hc => absurd (h.cancelled hc) hended, ?_,
      fun _ => .inr (.inl rfl), h.begun⟩
    · exact iff_of_false (by simp [legs]) hactive
    · exact iff_of_false (by simp [legs]) hended
    · simp [legs]
    · exact fun hsip => absurd (h.settled.dsipTold hsip) hended
    · intro hout
      cases hdir.symm.trans hout

theorem answer_turn (h : Sound c a) (answeredBy : Option String) : c.Turn a (.dsip (.answer answeredBy)) := by
  by_cases hdir : c.ctx.direction = .inbound
  case neg =>
    have hstep : c.step (.dsip (.answer answeredBy)) =
        (c, [.ignore ("dsip answer in " ++ c.dsip.name)]) := if_neg hdir
    exact .idle h (fun hyes => hdir hyes.1) (by rw [hstep]) (by rw [hstep]; rfl)
      (by simp [hstep, Emit.answers])
  have hstep : c.step (.dsip (.answer answeredBy)) =
      ({ c with dsip := .active, sip := .confirmed, answered := true },
        [.sip (.answer (if answeredBy = some "screening" then "sendonly" else "sendrecv")),
          .bridge]) := if_pos hdir
  by_cases hgone : c.dsip = .active ∨ c.dsip = .ended
  · refine .wrong ⟨hdir, hgone⟩ fun ho => ?_
    rw [hstep] at ho
    rcases hgone with hactive | hended
    · -- bridged once more
      have honce : a.bridges + 1 ≤ 1 := ho.bridgedOnce
      rw [h.settled.bridges, if_pos (h.settled.active hactive)] at honce
      omega
    · cases (ho.endsOnce hended).1
  · refine .fine (fun hyes => hgone hyes.2) ?_ fun hover => absurd (.inr hover) hgone
    rw [hstep]
    exact ⟨h.settled.answer (not_or.mp hgone) rfl (by simp [legs]) rfl rfl,
      fun hc => absurd (.inr (h.cancelled hc)) hgone, fun _ => .inl rfl,
      fun _ => .inr (.inr (.inl rfl)), nofun⟩

theorem reject_turn (h : Sound c a) (reason : Option String) : c.Turn a (.dsip (.reject reason)) := by
  by_cases hdir : c.ctx.direction = .inbound
  case neg =>
    have hstep : c.step (.dsip (.reject reason)) =
        (c, [.ignore ("dsip reject in " ++ c.dsip.name)]) := if_neg hdir
    exact .idle h (fun hyes => hdir hyes.1) (by rw [hstep]) (by rw [hstep]; rfl)
      (by simp [hstep, Emit.answers])
  obtain ⟨status, cause, token, hstep⟩ : ∃ status cause token, c.step (.dsip (.reject reason)) =
      ({ c with dsip := .ended, sip := .terminated }, [.sip (.refuse status cause token)]) :=
    ⟨_, _, _, if_pos hdir⟩
  by_cases hactive : c.dsip = .active
  · refine .wrong ⟨hdir, hactive⟩ fun ho => ?_
    rw [hstep] at ho
    have hup : a.up = true := h.settled.up.mpr hactive
    cases ho.up.mp hup
  · refine .fine (fun hyes => hactive hyes.2) ?_ fun _ => ?_ <;> rw [hstep]
    · exact ⟨h.settled.finish rfl rfl (h.settled.down hactive) (.inl rfl), fun _ => rfl,
        fun _ => .inr (.inl rfl), fun _ => .inr (.inr (.inr rfl)), nofun⟩
    · exact ⟨rfl, by simp [Emit.answers]⟩

theorem bye_turn (h : Sound c a) (reason : Option String) : c.Turn a (.dsip (.bye reason)) := by
  by_cases hsip : c.sip = .calling ∨ c.sip = .early ∨ c.sip = .confirmed
  · obtain ⟨cause, token, hstep⟩ : ∃ cause token, c.step (.dsip (.bye reason)) =
        ({ c with dsip := .ended, sip := .terminated }, [.sip (.bye cause token), .release]) :=
      ⟨_, _, if_pos hsip⟩
    refine .fine id ?_ fun _ => ?_ <;> rw [hstep]
    · exact ⟨h.settled.finish rfl rfl rfl (.inl rfl), fun _ => rfl, fun _ => .inr (.inl rfl),
        fun _ => .inr (.inr (.inr rfl)), nofun⟩
    · exact ⟨rfl, by simp [Emit.answers]⟩
  · have hstep : c.step (.dsip (.bye reason)) = ({ c with dsip := .ended }, [.release]) :=
      if_neg hsip
    have hterminated : c.sip = .terminated := by
      have hbegun := h.begun
      cases hc : c.sip <;> simp_all
    refine .fine id ?_ fun _ => ?_ <;> rw [hstep]
    · exact ⟨h.settled.finish rfl rfl rfl (.inl hterminated), fun _ => rfl, fun _ => .inr (.inl rfl),
        fun _ => .inr (.inr (.inr rfl)), h.begun⟩
    · exact ⟨rfl, by simp [Emit.answers]⟩

theorem info_turn (h : Sound c a) (about : String) (data : Dtmf) : c.Turn a (.dsip (.info about data)) := by
  obtain ⟨out, hstep, hadd, hquiet⟩ : ∃ out, c.step (.dsip (.info about data)) = (c, out) ∧
      a.add out = a ∧ ∀ e ∈ out, e.answers = false := by
    unfold step fromDsip
    dsimp only
    split
    · exact ⟨_, rfl, rfl, by simp [Emit.answers]⟩
    split
    · exact ⟨_, rfl, rfl, by simp [Emit.answers]⟩
    · exact ⟨_, rfl, rfl, by simp [Emit.answers]⟩
  exact .idle h id (by rw [hstep]) (by rw [hstep, hadd]) (by rw [hstep]; exact hquiet)

/-! ## SIP messages -/

theorem sipCancel_turn (h : Sound c a) : c.Turn a (.sip .cancel) := by
  by_cases hdir : c.ctx.direction = .inbound
  case neg =>
    have hstep : c.step (.sip .cancel) = (c, [.ignoreSip .cancel]) := if_neg hdir
    exact .idle h (fun hyes => hdir hyes.1) (by rw [hstep]) (by rw [hstep]; rfl)
      (by simp [hstep, Emit.answers])
  by_cases hopen : c.dsip = .offered ∨ c.dsip = .alerting
  · have hstep : c.step (.sip .cancel) = ({ c with sip := .terminated, dsip := .ended },
        [.sip (.respond 200), .dsip .cancel, .sip (.respond 487)]) :=
      (if_pos hdir).trans (if_pos hopen)
    have hactive : c.dsip ≠ .active := by
      rcases hopen with hopen | hopen <;> simp [hopen]
    refine .fine (fun hyes => hactive hyes.2) ?_ fun _ => ?_ <;> rw [hstep]
    · exact ⟨h.settled.finish rfl rfl (h.settled.down hactive) (.inl rfl), fun _ => rfl,
        fun _ => .inr (.inl rfl), fun _ => .inr (.inr (.inr rfl)), nofun⟩
    · exact ⟨rfl, by simp [Emit.answers]⟩
  · have hstep : c.step (.sip .cancel) = ({ c with sip := .terminated }, [.sip (.respond 200)]) :=
      (if_pos hdir).trans (if_neg hopen)
    by_cases hactive : c.dsip = .active
    · refine .wrong ⟨hdir, hactive⟩ fun ho => ?_
      rw [hstep] at ho
      have hended : c.dsip = .ended := ho.dsipTold rfl
      rw [hactive] at hended
      cases hended
    · have hended : c.dsip = .ended := by
        rcases h.inbound hdir with hdsip | hdsip | hdsip | hdsip
        · exact absurd (.inl hdsip) hopen
        · exact absurd (.inr hdsip) hopen
        · exact absurd hdsip hactive
        · exact hdsip
      refine .fine (fun hyes => hactive hyes.2) ?_ fun _ => ?_ <;> rw [hstep]
      · exact ⟨h.settled.finish hended rfl (h.settled.down hactive) (.inl rfl), fun _ => hended,
          fun _ => .inr (.inl hended), fun _ => .inr (.inr (.inr hended)), nofun⟩
      · exact ⟨hended, by simp [Emit.answers]⟩

theorem sipBye_turn (h : Sound c a) (q850 : Option Nat) : c.Turn a (.sip (.bye q850)) := by
  by_cases hended : c.dsip = .ended
  · have hstep : c.step (.sip (.bye q850)) = ({ c with sip := .terminated }, [.sip (.respond 200)]) :=
      if_pos hended
    refine .fine id ?_ fun _ => ?_ <;> rw [hstep]
    · exact ⟨h.settled.finish hended rfl (h.settled.down (by simp [legs, hended])) (.inl rfl),
        fun _ => hended, fun _ => .inr (.inl hended), fun _ => .inr (.inr (.inr hended)), nofun⟩
    · exact ⟨hended, by simp [Emit.answers]⟩
  · have hstep : c.step (.sip (.bye q850)) = ({ c with sip := .terminated, dsip := .ended },
        [.sip (.respond 200), .dsip (.hangup (mapInbound none q850 .active).reason), .release]) :=
      if_neg hended
    refine .fine id ?_ fun _ => ?_ <;> rw [hstep]
    · exact ⟨h.settled.finish rfl rfl rfl (.inl rfl), fun _ => rfl, fun _ => .inr (.inl rfl),
        fun _ => .inr (.inr (.inr rfl)), nofun⟩
    · exact ⟨rfl, by simp [Emit.answers]⟩

theorem dtmf_turn (h : Sound c a) {m : SipMessage}
    (hm : (∃ dtmf, m = .info dtmf) ∨ ∃ digits durationMs, m = .dtmf digits durationMs) :
    c.Turn a (.sip m) := by
  obtain ⟨out, hstep, hadd, hquiet⟩ : ∃ out, c.step (.sip m) = (c, out) ∧
      a.add out = a ∧ ∀ e ∈ out, e.answers = false := by
    rcases hm with ⟨dtmf, rfl⟩ | ⟨digits, durationMs, rfl⟩
    · unfold step fromSip
      dsimp only
      split
      · exact ⟨_, rfl, rfl, by simp [Emit.answers]⟩
      split
      · exact ⟨_, rfl, rfl, by simp [Emit.answers]⟩
      · exact ⟨_, rfl, rfl, by simp [Emit.answers]⟩
    · unfold step fromSip
      dsimp only
      split
      · exact ⟨_, rfl, rfl, by simp [Emit.answers]⟩
      · exact ⟨_, rfl, rfl, by simp [Emit.answers]⟩
  have hno : ¬ c.Astray a (.sip m) := by
    rcases hm with ⟨dtmf, rfl⟩ | ⟨digits, durationMs, rfl⟩ <;> exact id
  exact .idle h hno (by rw [hstep]) (by rw [hstep, hadd]) (by rw [hstep]; exact hquiet)

/-! ## Responses -/

theorem carry_mapInbound (sipStatus q850 : Option Nat) (phase : Phase) (movedTo : Option String) :
    (mapInbound sipStatus q850 phase movedTo).carry = phase.carry := by
  unfold mapInbound
  exact (apply_ite Inbound.carry _ _ _).trans (ite_self _)

theorem cancelled_turn (h : Sound c a) (hdir : c.ctx.direction = .outbound)
    (hcancelled : c.cancelled = true) (r : Response) : c.Turn a (.sip (.response r)) := by
  have hended := h.cancelled hcancelled
  have hdown : a.up = false := h.settled.down (by simp [legs, hended])
  have hstep : c.step (.sip (.response r)) = ({ c with sip := .terminated },
      if 200 ≤ r.status ∧ r.status < 300 then [.sip .ack, .sip (.bye 16 "session.cancelled")]
      else []) := (if_pos hdir).trans (if_pos hcancelled)
  refine .fine (fun hyes => ?_) ?_ fun _ => ?_
  · exact absurd (hcancelled.symm.trans hyes.2.2.1) (by simp)
  · rw [hstep]
    refine ⟨h.settled.finish hended ?_ ?_ (.inl rfl), fun _ => hended, fun _ => .inr (.inl hended),
      fun _ => .inr (.inr (.inr hended)), nofun⟩
    · split <;> rfl
    · split <;> exact hdown
  · rw [hstep]
    refine ⟨hended, ?_⟩
    split <;> simp [Emit.answers]

/-- The state and emissions of a provisional response that rings. -/
def ringing (c : Call) : Call × List Emit :=
  if c.dsip = .inviting then ({ c with sip := .early, dsip := .proceeding }, [.dsip .alert])
  else ({ c with sip := .early }, [])

theorem response_provisional (hcancelled : ¬ c.cancelled = true) {r : Response}
    (hmin : 180 ≤ r.status) (hmax : r.status < 200) : c.response r = if c.answersEarly r then
      (c.ringing.1.answer.1, c.ringing.2 ++ c.ringing.1.answer.2) else c.ringing := by
  have hearly : c.ringing.1.answersEarly r = c.answersEarly r := by
    unfold ringing
    split <;> rfl
  unfold response
  rw [if_neg hcancelled, if_pos ⟨by omega, hmax⟩, if_pos hmin]
  dsimp only
  rw [← hearly]
  rfl

theorem ringing_sound (h : Sound c a) (hdsip : c.dsip = .ended → a.torn = true) :
    Sound c.ringing.1 (a.add c.ringing.2) ∧ c.ringing.1.answered = c.answered ∧
      (c.ringing.1.dsip = .active ↔ c.dsip = .active) ∧
      (c.ringing.1.dsip = .ended ↔ c.dsip = .ended) := by
  have hlegs : (c.ringing.1.dsip = .active ↔ c.dsip = .active) ∧
      (c.ringing.1.dsip = .ended ↔ c.dsip = .ended) := by
    unfold ringing
    split
    case isTrue hinviting => simp [hinviting]
    case isFalse => exact ⟨Iff.rfl, Iff.rfl⟩
  have hrest : c.ringing.1.sip = .early ∧ c.ringing.1.answered = c.answered ∧
      c.ringing.1.cancelled = c.cancelled ∧ c.ringing.1.ctx = c.ctx ∧ a.add c.ringing.2 = a := by
    unfold ringing
    split <;> exact ⟨rfl, rfl, rfl, rfl, rfl⟩
  obtain ⟨hsip, hanswered, hcancelled, hctx, hadd⟩ := hrest
  refine ⟨⟨?_, ?_, ?_, ?_, ?_⟩, hanswered, hlegs⟩
  · rw [hadd, hanswered]
    refine h.settled.keep hlegs.1 hlegs.2 rfl rfl (fun hended => ?_) (fun hterminated => ?_)
    · exact .inr (hdsip (hlegs.2.mp hended))
    · cases hsip.symm.trans hterminated
  · intro hc
    exact hlegs.2.mpr (h.cancelled (hcancelled.symm.trans hc))
  · intro _
    exact .inr (.inr (.inr hsip))
  · intro hdir
    rw [hctx] at hdir
    unfold ringing
    split
    case isTrue hinviting => exact absurd (h.inbound hdir) (by simp [hinviting])
    case isFalse => exact h.inbound hdir
  · simp [hsip]

theorem provisional_turn (h : Sound c a) (hdir : c.ctx.direction = .outbound)
    (hcancelled : ¬ c.cancelled = true) {r : Response} (hmin : 180 ≤ r.status)
    (hmax : r.status < 200) : c.Turn a (.sip (.response r)) := by
  have hstep : c.step (.sip (.response r)) = if c.answersEarly r then
      (c.ringing.1.answer.1, c.ringing.2 ++ c.ringing.1.answer.2) else c.ringing :=
    (if_pos hdir).trans (response_provisional hcancelled hmin hmax)
  have hadd : a.add c.ringing.2 = a := by
    unfold ringing
    split <;> rfl
  have hquiet : ∀ e ∈ c.ringing.2, e.answers = false := by
    unfold ringing
    split <;> simp [Emit.answers]
  by_cases hended : c.dsip = .ended ∧ (a.torn = false ∨ c.answersEarly r = true)
  · obtain ⟨hended, hwhy⟩ := hended
    refine .wrong ⟨hdir, hended, eq_false_of_ne_true hcancelled, .inl ⟨hmin, hmax, hwhy⟩⟩ fun ho => ?_
    rw [hstep] at ho
    split at ho
    case isTrue hearly => cases (ho.endsOnce hended).1
    case isFalse hearly =>
      -- the SIP leg is up again
      have hleft := ho.sipTold (ho.endsOnce hended).1
      rw [hadd, hwhy.resolve_right hearly] at hleft
      have hearly' : c.ringing.1.sip = .early := by
        unfold ringing
        split <;> rfl
      simp [legs, hearly'] at hleft
  · have htold : c.dsip = .ended → a.torn = true := fun hdsip =>
      eq_true_of_ne_false fun htorn => hended ⟨hdsip, .inl htorn⟩
    obtain ⟨hsound, hanswered, hactive, hover⟩ := ringing_sound h htold
    refine .fine ?_ ?_ fun hdsip => ?_
    · rintro ⟨-, hdsip, -, ⟨-, -, hwhy⟩ | ⟨hge, -⟩⟩
      · exact hended ⟨hdsip, hwhy⟩
      · omega
    · rw [hstep]
      split
      case isTrue hearly =>
        have hopen : c.ringing.1.dsip ≠ .active ∧ c.ringing.1.dsip ≠ .ended := by
          rw [Ne, hactive, Ne, hover]
          refine ⟨fun hdsip => ?_, fun hdsip => hended ⟨hdsip, .inr hearly⟩⟩
          have hyes := h.settled.active hdsip
          simp [answersEarly, hyes] at hearly
        rw [Account.add_append]
        refine ⟨hsound.settled.answer hopen rfl ?_ rfl rfl, fun hc => ?_, fun _ => .inl rfl,
          fun _ => .inr (.inr (.inl rfl)), hsound.begun⟩
        · exact fun hsip => hopen.2 (hsound.settled.dsipTold hsip)
        · exact absurd (hsound.cancelled hc) hopen.2
      case isFalse => exact hsound
    · have hno : ¬ c.answersEarly r = true := fun hearly => hended ⟨hdsip, .inr hearly⟩
      rw [hstep, if_neg hno]
      exact ⟨hover.mpr hdsip, hquiet⟩

theorem ok_turn (h : Sound c a) (hdir : c.ctx.direction = .outbound)
    (hcancelled : ¬ c.cancelled = true) {r : Response} (hmin : 200 ≤ r.status)
    (hmax : r.status < 300) : c.Turn a (.sip (.response r)) := by
  let c₁ : Call := { c with sip := .confirmed }
  have hstep : c.step (.sip (.response r)) =
      if ¬ c.answered then (c₁.answer.1, .sip .ack :: c₁.answer.2) else (c₁, [.sip .ack]) := by
    refine (if_pos hdir).trans ?_
    unfold response
    rw [if_neg hcancelled, if_neg (by omega), if_pos ⟨hmin, hmax⟩]
  by_cases hended : c.dsip = .ended ∧ (a.torn = false ∨ c.answered = false)
  · obtain ⟨hended, hwhy⟩ := hended
    refine .wrong ⟨hdir, hended, eq_false_of_ne_true hcancelled, .inr ⟨hmin, hmax, hwhy⟩⟩ fun ho => ?_
    rw [hstep] at ho
    split at ho
    case isTrue => cases (ho.endsOnce hended).1
    case isFalse hanswered =>
      have htorn : a.torn = false := hwhy.resolve_right (by simpa using hanswered)
      have hleft : SipLeg.confirmed = .terminated ∨ a.torn = true := ho.sipTold hended
      simp [htorn] at hleft
  · refine .fine ?_ ?_ fun hdsip => ?_
    · rintro ⟨-, hdsip, -, ⟨-, hlt, -⟩ | ⟨-, -, hwhy⟩⟩
      · omega
      · exact hended ⟨hdsip, hwhy⟩
    · rw [hstep]
      split
      case isTrue hunanswered =>
        have hopen : c.dsip ≠ .active ∧ c.dsip ≠ .ended :=
          ⟨fun hdsip => hunanswered (h.settled.active hdsip),
            fun hdsip => hended ⟨hdsip, .inr (by simpa using hunanswered)⟩⟩
        exact ⟨h.settled.answer hopen rfl (by simp [legs, c₁, answer]) rfl rfl,
          fun hc => absurd (h.cancelled hc) hopen.2, fun _ => .inl rfl,
          fun _ => .inr (.inr (.inl rfl)), nofun⟩
      case isFalse hanswered =>
        refine ⟨h.settled.keep Iff.rfl Iff.rfl rfl rfl (fun hdsip => .inr ?_) nofun, h.cancelled,
          fun _ => ?_, h.inbound, nofun⟩
        · exact eq_true_of_ne_false fun htorn => hended ⟨hdsip, .inl htorn⟩
        · rcases h.settled.answered (not_not.mp hanswered) with hdsip | hdsip
          · exact .inl hdsip
          · exact .inr (.inl hdsip)
    · have hanswered : ¬ ¬ c.answered = true := fun hno =>
        hended ⟨hdsip, .inr (eq_false_of_ne_true hno)⟩
      rw [hstep, if_neg hanswered]
      exact ⟨hdsip, by simp [Emit.answers]⟩

theorem failed_turn (h : Sound c a) (hdir : c.ctx.direction = .outbound)
    (hcancelled : ¬ c.cancelled = true) {r : Response} (hmin : 300 ≤ r.status) :
    c.Turn a (.sip (.response r)) := by
  have hno : ¬ c.Astray a (.sip (.response r)) := by
    rintro ⟨-, -, -, ⟨-, hlt, -⟩ | ⟨-, hlt, -⟩⟩ <;> omega
  have hresponse : c.step (.sip (.response r)) = c.response r := if_pos hdir
  by_cases hended : c.dsip = .ended
  · have hstep : c.step (.sip (.response r)) = ({ c with sip := .terminated }, []) := by
      rw [hresponse]
      unfold response
      rw [if_neg hcancelled, if_neg (by omega), if_neg (by omega), if_pos hmin, if_pos hended]
    refine .fine hno ?_ fun _ => ?_ <;> rw [hstep]
    · exact ⟨h.settled.finish hended rfl (h.settled.down (by simp [legs, hended])) (.inl rfl),
        fun _ => hended, fun _ => .inr (.inl hended), fun _ => .inr (.inr (.inr hended)), nofun⟩
    · exact ⟨hended, by simp⟩
  · obtain ⟨out, hstep, hbridges, hup⟩ : ∃ out, c.step (.sip (.response r)) =
        ({ c with sip := .terminated, dsip := .ended }, out) ∧
        (a.add out).bridges = a.bridges ∧ (a.add out).up = false := by
      rw [hresponse]
      unfold response
      rw [if_neg hcancelled, if_neg (by omega), if_neg (by omega), if_pos hmin, if_neg hended]
      dsimp only
      rw [carry_mapInbound]
      by_cases hanswered : c.answered = true
      · rw [if_pos hanswered, if_neg (by simp [Phase.carry])]
        exact ⟨_, rfl, rfl, rfl⟩
      · rw [if_neg hanswered, if_pos (by simp [Phase.carry])]
        exact ⟨_, rfl, rfl, h.settled.down fun hactive => hanswered (h.settled.active hactive)⟩
    refine .fine hno ?_ fun hover => absurd hover hended
    rw [hstep]
    exact ⟨h.settled.finish rfl hbridges hup (.inl rfl), fun _ => rfl, fun _ => .inr (.inl rfl),
      fun _ => .inr (.inr (.inr rfl)), nofun⟩

theorem response_turn (h : Sound c a) (r : Response) : c.Turn a (.sip (.response r)) := by
  by_cases hdir : c.ctx.direction = .outbound
  case neg =>
    have hstep : c.step (.sip (.response r)) = (c, [.ignoreSip (.response r)]) := if_neg hdir
    exact .idle h (fun hyes => hdir hyes.1) (by rw [hstep]) (by rw [hstep]; rfl)
      (by simp [hstep, Emit.answers])
  by_cases hcancelled : c.cancelled = true
  · exact cancelled_turn h hdir hcancelled r
  by_cases hring : r.status < 180
  · -- no response to a call rings below 180
    have hearly : c.answersEarly r = false := by
      have : r.status ≠ 183 := by omega
      simp [answersEarly, this]
    have hno : ¬ c.Astray a (.sip (.response r)) := by
      rintro ⟨-, -, -, ⟨hge, -⟩ | ⟨hge, -⟩⟩ <;> omega
    have hstep : c.step (.sip (.response r)) = (c, []) := by
      refine (if_pos hdir).trans ?_
      unfold response
      rw [if_neg hcancelled]
      split
      · rw [if_neg (by omega)]
        dsimp only
        rw [hearly, if_neg (by simp)]
      · rw [if_neg (by omega), if_neg (by omega)]
    exact .idle h hno (by rw [hstep]) (by rw [hstep]; rfl) (by simp [hstep])
  by_cases hprovisional : r.status < 200
  · exact provisional_turn h hdir hcancelled (by omega) hprovisional
  by_cases hok : r.status < 300
  · exact ok_turn h hdir hcancelled (by omega) hok
  · exact failed_turn h hdir hcancelled (by omega)

/-! ## Every event -/

theorem step_turn (h : Sound c a) {ev : Event} (hno : ¬ ev.Invites) : c.Turn a ev := by
  have hquiet : ∀ {ev : Event} {out : List Emit}, ¬ c.Astray a ev → c.step ev = (c, out) →
      a.add out = a → (∀ e ∈ out, e.answers = false) → c.Turn a ev := by
    intro ev out hno hstep hadd hout
    exact .idle h hno (by rw [hstep]) (by rw [hstep, hadd]) (by rw [hstep]; exact hout)
  cases ev with
  | timerC => exact timerC_turn h
  | dsip m =>
    cases m with
    | invite => exact absurd trivial hno
    | cancel => exact cancel_turn h
    | progress status => exact progress_turn h status
    | answer answeredBy => exact answer_turn h answeredBy
    | reject reason => exact reject_turn h reason
    | update direction => exact hquiet id rfl rfl (by simp [Emit.answers])
    | info about data => exact info_turn h about data
    | bye reason => exact bye_turn h reason
    | other type => exact hquiet id rfl rfl (by simp [Emit.answers])
  | sip m =>
    cases m with
    | response r => exact response_turn h r
    | invite => exact absurd trivial hno
    | cancel => exact sipCancel_turn h
    | ack => exact hquiet id rfl rfl (by simp)
    | bye q850 => exact sipBye_turn h q850
    | info dtmf => exact dtmf_turn h (.inl ⟨dtmf, rfl⟩)
    | refer => exact hquiet id rfl rfl (by simp [Emit.answers])
    | reInvite direction => exact hquiet id rfl rfl (by simp [Emit.answers])
    | dtmf digits durationMs => exact dtmf_turn h (.inr ⟨digits, durationMs, rfl⟩)
    | other request => exact hquiet id rfl rfl (by simp [Emit.answers])

theorem opening_turn {ctx : Context} {ev : Event} (hopens : ev.Opens ctx.direction) :
    Orderly {} (legs { ctx := ctx }) (step { ctx := ctx } ev).2 (step { ctx := ctx } ev).1.legs ∧
      ¬ Astray { ctx := ctx } {} ev ∧
      Sound (step { ctx := ctx } ev).1 (Account.add {} (step { ctx := ctx } ev).2) := by
  cases hdir : ctx.direction with
  | outbound =>
    rw [hdir] at hopens
    unfold Event.Opens at hopens
    split at hopens
    case h_1 =>
      have hstep : step { ctx := ctx } (.dsip .invite) =
          ({ ctx := ctx, dsip := .inviting, sip := .calling }, [.sip .invite]) := if_pos hdir
      have hsettled : Settled ⟨.inviting, .calling⟩ false (Account.add {} [.sip .invite]) := by
        constructor <;> simp [Account.note]
      rw [hstep]
      refine ⟨hsettled.orderly nofun, id, hsettled, nofun, fun _ => .inr (.inr (.inl rfl)), ?_, nofun⟩
      intro hin
      cases hdir.symm.trans hin
    case h_2 heq => cases heq
    case h_3 => exact hopens.elim
  | inbound =>
    rw [hdir] at hopens
    unfold Event.Opens at hopens
    split at hopens
    case h_1 heq => cases heq
    case h_2 fromTn identity cnam heq =>
      let claim := telClaim fromTn identity cnam
      have hstep : step { ctx := ctx } (.sip (.invite fromTn identity cnam)) =
          ({ ctx := ctx, dsip := .offered, sip := .early },
            [.dsip (.placeCall claim claim.basis), .sip (.respond 100)]) := if_pos hdir
      have hsettled : Settled ⟨.offered, .early⟩ false
          (Account.add {} [.dsip (.placeCall claim claim.basis), .sip (.respond 100)]) := by
        constructor <;> simp [Account.note]
      rw [hstep]
      refine ⟨hsettled.orderly nofun, id, hsettled, nofun, ?_, fun _ => .inl rfl, nofun⟩
      intro hout
      cases hdir.symm.trans hout
    case h_3 => exact hopens.elim

end Dsip.Gateway.Call
