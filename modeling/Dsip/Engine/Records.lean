import Dsip.Engine.Table

/-!
# What an invite does to the sessions an endpoint holds

A session id is used once (§12.2, §12.9), and `placeCall` checks it. The id of
an invite is chosen by its sender. `recvInvite` looks for a session of that id
only when no attempt of the owner is live towards the sender and policy lets the
invite in: on the other ways out it stores a new record over the held one.
`Spares` is exactly when that does no harm.
-/

namespace Dsip.Engine

open Dsip.Lib

/-! ## Records are stored under their own id -/

namespace Session

variable (s : Session) (m : Msg)

theorem observe_frame (body : SessionBody) : (s.observe body).id = s.id ∧ (s.observe body).role = s.role ∧
      (s.observe body).state = s.state ∧ (s.observe body).outstanding = s.outstanding := by
  unfold observe
  split <;> exact ⟨rfl, rfl, rfl, rfl⟩

theorem observe_cancel (token : String) : s.observe (.cancel token) = s := by
  unfold observe
  split
  case h_2 h => exact absurd rfl (h token)
  all_goals rfl

theorem observe_initiator (hr : s.role = .initiator) (body : SessionBody) : s.observe body = s := by
  unfold observe
  rw [hr]

theorem observe_early (hst : s.state ≠ .active) (body : SessionBody) : s.observe body = s := by
  unfold observe
  split
  case h_3 => rfl
  all_goals exact absurd ‹s.state = .active› hst

theorem settle_id (id : String) (ms : List Media) : (s.settle id ms).record.id = s.id := by
  unfold settle
  split <;> rfl

theorem react_id (body : SessionBody) : (s.react m body).record.id = s.id := by
  unfold react
  split
  all_goals repeat' split
  all_goals first | rfl | exact settle_id s _ _

theorem recv_id (body : SessionBody) : (s.recv m body).record.id = s.id := by
  unfold recv
  split
  case isTrue => rw [(reactLate_frame s m body).1]
  case isFalse => rw [react_id, (observe_frame s body).1]

theorem act_id (now : Nat) (event : CallEvent) : (s.act now event).record.id = s.id := by
  unfold act
  split
  all_goals repeat' split
  all_goals rfl

theorem expire_id (name : TimerName) : (s.expire name).record.id = s.id := by
  unfold expire
  repeat' split
  all_goals rfl

/-- The record of an attempt that lost to a rival. -/
def lose (s : Session) : Session := { s with cancelled := true, state := .ended }

end Session

namespace Endpoint

/-- Every record is stored under its own id. -/
def Keyed (e : Endpoint) : Prop := ∀ sid s, e.sessions.lookup sid = some s → s.id = sid

variable {e e' : Endpoint}

theorem Keyed.of_put (h : e.Keyed) (s : Session) : (e.put s).Keyed := by
  intro sid t ht
  rw [(put_frame e s).1, Dict.lookup_insert_eq] at ht
  split at ht
  case isTrue hid =>
    cases ht
    exact hid.symm
  case isFalse => exact h sid t ht

theorem Keyed.congr (h : e.Keyed) (hs : e'.sessions = e.sessions) : e'.Keyed := by
  intro sid t ht
  rw [hs] at ht
  exact h sid t ht

theorem Keyed.did (h : e.Keyed) {sid : String} {eff : Effect} (hd : Did e sid eff e')
    (hid : eff.record.id = sid) : e'.Keyed := by
  intro k t ht
  by_cases hk : k = sid
  · rw [hk, hd.record] at ht
    cases ht
    rw [hk, hid]
  · rw [hd.only.sessions k hk] at ht
    exact h k t ht

theorem Keyed.of_withdraw (h : e.Keyed) (s : Session) : (e.withdraw s).Keyed := by
  have hsend : ((e.stopAll s).send (.cancel s.inviteTo s.id "session.glare")).Keyed := h.congr (by simp)
  exact hsend.of_put s.lose

theorem Keyed.of_withdrawn (rs : List Session) : ∀ {e : Endpoint}, e.Keyed → (rs.foldl withdraw e).Keyed := by
  induction rs with
  | nil => exact id
  | cons r rs ih => exact fun h => ih (h.of_withdraw r)

theorem Keyed.of_recvInvite (h : e.Keyed) (m : Msg) (dest : Option String)
    (expiresAt : Option Nat) : (e.recvInvite m dest expiresAt).Keyed := by
  unfold Endpoint.recvInvite
  split
  case isTrue => exact Keyed.of_put (e := e.send _) h _
  case isFalse =>
    split
    case h_1 =>
      split
      case h_1 => exact h.of_put _
      case h_2 => split <;> exact h
    case h_2 first rest _ =>
      split
      case isTrue => exact Keyed.of_put (e := e.send _) h _
      case isFalse =>
        dsimp only
        split
        case isTrue => exact Keyed.of_withdrawn (first :: rest) h
        case isFalse => exact (Keyed.of_withdrawn (first :: rest) h).of_put _

theorem fire_did_of_keyed (hk : e.Keyed) {t : Timer}
    (h : { e with timers := e.timers.erase t }.fire t = .ok e') :
    ∃ s, e.sessions.lookup t.session = some s ∧
      Did { e with timers := e.timers.erase t } t.session (s.expire t.name) e' := by
  cases hs : e.sessions.lookup t.session with
  | none =>
    unfold fire at h
    rw [hs] at h
    cases h
  | some s =>
    have hid := hk _ s hs
    have hd := fire_did (e := { e with timers := e.timers.erase t }) hs hid h
    exact ⟨s, rfl, hid ▸ hd⟩

theorem keeps_keyed : Keeps Keyed where
  clock _ _ h _ _ := h
  fire e t e' h _ _ hfire := by
    obtain ⟨s, hs, hd⟩ := fire_did_of_keyed h hfire
    exact Keyed.did (e := { e with timers := e.timers.erase t }) h hd
      ((s.expire_id t.name).trans (h _ s hs))
  lapse _ h := h
  rotate _ _ h _ := h

theorem Keyed.outcome (h : e.Keyed) {event : Event} (ho : Outcome e event e') : e'.Keyed := by
  cases ho
  case advance hadv => exact keeps_keyed.advance h hadv
  case invite => exact h.of_recvInvite _ _ _
  case message hm =>
    cases hm
    case introduction => exact h
    case unknown => exact h
    case held s _ _ hs hd => exact h.did (hd (h _ s hs)) ((s.recv_id _ _).trans (h _ s hs))
  case unanswered s _ hs hd => exact h.did (hd (h _ s hs)) (h _ s hs)
  case placed sid dest hnew =>
    unfold placeCall
    rw [if_neg hnew]
    let s : Session := { id := sid, role := .initiator, state := .inviting, peer := dest, inviteTo := dest }
    exact (h.of_put s).congr (by simp [s])
  case call s _ hs hd => exact h.did (hd (h _ s hs)) ((s.act_id _ _).trans (h _ s hs))
  case quiet hq => exact h.congr hq.sessions

theorem keyed : machine.Invariant Keyed := by
  apply TSys.Inductive.invariant
  refine ⟨?_, ?_⟩
  · rintro e ⟨ctx, rfl⟩ sid s hs
    cases hs
  · intro e event out e' h hstep
    exact Keyed.outcome (e := { e with out := [] }) h (step_outcome hstep).1

/-! ## The ways out of `recvInvite` -/

/-- An invite that is rejected on arrival: policy keeps it out, or an attempt of
ours with a smaller id is live. -/
def Rejects (e : Endpoint) (m : Msg) : Prop :=
  e.refuses (e.identityOf m.sender) = true ∨
    ∃ first ∈ (e.rivals (e.identityOf m.sender)).head?, first.id < m.id

inductive InviteOutcome (e : Endpoint) (m : Msg) (dest : Option String)
    (expiresAt : Option Nat) : Endpoint → Prop
  | rejected {reason : String} (h : e.Rejects m) :
      InviteOutcome e m dest expiresAt (e.refuseInvite m reason)
  | repeated {s : Session} {x : Emit} (h : ¬ e.Rejects m)
      (hr : e.rivals (e.identityOf m.sender) = []) (hs : e.sessions.lookup m.id = some s)
      (hx : medias [x] = []) : InviteOutcome e m dest expiresAt (e.emit x)
  | offered (h : ¬ e.Rejects m) (hr : e.rivals (e.identityOf m.sender) = [])
      (hs : m.id ∉ e.sessions) : InviteOutcome e m dest expiresAt (e.offer m dest expiresAt)
  | tied {first : Session} {rest : List Session} (h : ¬ e.Rejects m)
      (hr : e.rivals (e.identityOf m.sender) = first :: rest) (hid : first.id = m.id) :
      InviteOutcome e m dest expiresAt
        ((((first :: rest).foldl withdraw e).send
          (.reject m.sender m.id "session.glare" none)).emit (.ui .glareRetry))
  | lost {first : Session} {rest : List Session} (h : ¬ e.Rejects m)
      (hr : e.rivals (e.identityOf m.sender) = first :: rest) (hid : m.id < first.id) :
      InviteOutcome e m dest expiresAt (((first :: rest).foldl withdraw e).offer m dest expiresAt)

theorem recvInvite_outcome (e : Endpoint) (m : Msg) (dest : Option String) (expiresAt : Option Nat) :
    InviteOutcome e m dest expiresAt (e.recvInvite m dest expiresAt) := by
  unfold recvInvite
  split
  case isTrue href => exact .rejected (.inl href)
  case isFalse href =>
    split
    case h_1 hr =>
      have hno : ¬ e.Rejects m := by
        rintro (h | ⟨first, hfirst, -⟩)
        · exact href h
        · simp [hr] at hfirst
      split
      case h_1 hs =>
        apply InviteOutcome.offered hno hr
        rw [Dict.mem_iff_lookup, hs]
        simp
      case h_2 s hs =>
        split
        case isTrue => exact .repeated hno hr hs rfl
        case isFalse => exact .repeated hno hr hs rfl
    case h_2 first rest hr =>
      split
      case isTrue hlt => exact .rejected (.inr ⟨first, by simp [hr], hlt⟩)
      case isFalse hlt =>
        have hno : ¬ e.Rejects m := by
          rintro (h | ⟨first', hfirst, hlt'⟩)
          · exact href h
          · rw [hr, List.head?_cons, Option.mem_some_iff] at hfirst
            exact hlt (hfirst ▸ hlt')
        dsimp only
        split
        case isTrue hid => exact .tied hno hr hid
        case isFalse hid =>
          exact .lost hno hr (lt_of_le_of_ne (not_lt.mp hlt) (Ne.symm hid))

theorem mem_rivals (hk : e.Keyed) {identity : String} {s : Session} :
    s ∈ e.rivals identity ↔ e.sessions.lookup s.id = some s ∧ e.IsRival identity s := by
  rw [rivals, List.mem_insertionSort, List.mem_filter, Dict.mem_values, decide_eq_true_eq]
  refine and_congr_left fun _ => ⟨?_, fun h => ⟨s.id, h⟩⟩
  rintro ⟨sid, hs⟩
  rw [hk sid s hs]
  exact hs

theorem withdraw_sessions (e : Endpoint) (s : Session) :
    (e.withdraw s).sessions = e.sessions.insert s.id s.lose ∧ medias (e.withdraw s).out = medias e.out := by
  simp [withdraw, Session.lose]

theorem withdrawn_lookup (rs : List Session) (k : String) : ∀ e : Endpoint,
    (rs.foldl withdraw e).sessions.lookup k = e.sessions.lookup k ∨
      ∃ r ∈ rs, r.id = k ∧ (rs.foldl withdraw e).sessions.lookup k = some r.lose := by
  induction rs with
  | nil => exact fun e => .inl rfl
  | cons r rs ih =>
    intro e
    rcases ih (e.withdraw r) with h | ⟨r', hr', hid, h⟩
    · rw [(withdraw_sessions e r).1, Dict.lookup_insert_eq] at h
      by_cases hk : k = r.id
      · rw [if_pos hk] at h
        exact .inr ⟨r, List.mem_cons_self, hk.symm, h⟩
      · rw [if_neg hk] at h
        exact .inl h
    · exact .inr ⟨r', List.mem_cons_of_mem r hr', hid, h⟩

theorem withdrawn_medias (rs : List Session) : ∀ e : Endpoint,
    medias (rs.foldl withdraw e).out = medias e.out := by
  induction rs with
  | nil => exact fun _ => rfl
  | cons r rs ih => exact fun e => (ih _).trans (withdraw_sessions e r).2

theorem recvInvite_medias (e : Endpoint) (m : Msg) (dest : Option String) (expiresAt : Option Nat) :
    medias (e.recvInvite m dest expiresAt).out = medias e.out := by
  have h := recvInvite_outcome e m dest expiresAt
  generalize e.recvInvite m dest expiresAt = e' at h ⊢
  cases h
  case rejected => simp [refuseInvite]
  case repeated hx => rw [(emit_frame e _).2.2.1, medias_append, hx, List.append_nil]
  case offered => simp [offer]
  case tied first rest _ hr _ =>
    rw [← withdrawn_medias (first :: rest) e]
    simp
  case lost first rest _ hr _ =>
    rw [← withdrawn_medias (first :: rest) e]
    simp [offer]

/-! ## Overwritten records -/

/-- Every held session keeps its role and peer, and an ACTIVE one stays
ACTIVE. -/
def Intact (e e' : Endpoint) : Prop :=
  ∀ sid s, e.sessions.lookup sid = some s →
    ∃ s', e'.sessions.lookup sid = some s' ∧ s'.role = s.role ∧ s'.peer = s.peer ∧
      (s.state = .active → s'.state = .active)

/-- The invite brings a new id; or it is let in while no attempt of ours towards
its sender has another smallest id; or the record it is stored over was of the
same sender, and not ACTIVE. -/
def Spares (e : Endpoint) (m : Msg) : Prop :=
  m.id ∉ e.sessions ∨ (e.refuses (e.identityOf m.sender) = false ∧
      ∀ first ∈ (e.rivals (e.identityOf m.sender)).head?, first.id = m.id) ∨
    ∃ s, e.sessions.lookup m.id = some s ∧ s.role = .responder ∧ s.peer = m.sender ∧ s.state ≠ .active

theorem withdrawn_intact {rs : List Session}
    (hrs : ∀ r ∈ rs, e.sessions.lookup r.id = some r ∧ r.Attempting) : Intact e (rs.foldl withdraw e) := by
  intro sid s hs
  rcases withdrawn_lookup rs sid e with h | ⟨r, hr, hid, h⟩
  · exact ⟨s, h.trans hs, rfl, rfl, id⟩
  · obtain ⟨hheld, ha⟩ := hrs r hr
    rw [hid, hs] at hheld
    obtain rfl := Option.some.inj hheld
    refine ⟨s.lose, h, rfl, rfl, ?_⟩
    intro hactive
    rcases ha with ha | ha <;> rw [ha] at hactive <;> cases hactive

/-- A record stored for the invite is harmless exactly over one of the same
sender that is not ACTIVE. -/
theorem intact_store {m : Msg} (e₁ : Endpoint) {r : Session} (hr : r.role = .responder)
    (hp : r.peer = m.sender) (hst : r.state ≠ .active) (hid : r.id = m.id)
    (h₁ : Intact e e₁) (hs : e'.sessions = e₁.sessions.insert r.id r) :
    Intact e e' ↔ ∀ s, e.sessions.lookup m.id = some s →
      s.role = .responder ∧ s.peer = m.sender ∧ s.state ≠ .active := by
  have hnew : e'.sessions.lookup m.id = some r := by
    rw [hs, hid]
    exact AList.lookup_insert _
  constructor
  · intro h s hheld
    obtain ⟨s', hs', hrole, hpeer, hactive⟩ := h m.id s hheld
    rw [hnew] at hs'
    cases hs'
    exact ⟨hrole ▸ hr, hpeer ▸ hp, fun h => hst (hactive h)⟩
  · intro h sid s hheld
    by_cases hsid : sid = m.id
    · subst hsid
      obtain ⟨hrole, hpeer, hactive⟩ := h s hheld
      exact ⟨r, hnew, hr.trans hrole.symm, hp.trans hpeer.symm, fun h => absurd h hactive⟩
    · obtain ⟨s', hs', hrest⟩ := h₁ sid s hheld
      refine ⟨s', ?_, hrest⟩
      rw [hs, hid, AList.lookup_insert_ne hsid]
      exact hs'

theorem spares_of_stored {m : Msg} (h : ¬ (e.refuses (e.identityOf m.sender) = false ∧
      ∀ first ∈ (e.rivals (e.identityOf m.sender)).head?, first.id = m.id)) :
    e.Spares m ↔ ∀ s, e.sessions.lookup m.id = some s →
      s.role = .responder ∧ s.peer = m.sender ∧ s.state ≠ .active := by
  unfold Spares
  constructor
  · rintro (hnew | hlet | ⟨s, hs, hrest⟩) s' hs'
    · exact absurd (Dict.mem_iff_lookup.mpr ⟨s', hs'⟩) hnew
    · exact absurd hlet h
    · rw [hs] at hs'
      exact Option.some.inj hs' ▸ hrest
  · intro hall
    by_cases hmem : m.id ∈ e.sessions
    · obtain ⟨s, hs⟩ := Dict.mem_iff_lookup.mp hmem
      exact .inr (.inr ⟨s, hs, hall s hs⟩)
    · exact .inl hmem

theorem intact_iff_spares (hk : e.Keyed) (m : Msg) (dest : Option String)
    (expiresAt : Option Nat) : Intact e (e.recvInvite m dest expiresAt) ↔ e.Spares m := by
  have hrefl : Intact e e := fun _ s hs => ⟨s, hs, rfl, rfl, id⟩
  have hwithdrawn : ∀ {rs : List Session}, e.rivals (e.identityOf m.sender) = rs →
      Intact e (rs.foldl withdraw e) := by
    rintro _ rfl
    apply withdrawn_intact
    intro r hr
    obtain ⟨hheld, -, ha, -⟩ := (mem_rivals hk).mp hr
    exact ⟨hheld, ha⟩
  have h := recvInvite_outcome e m dest expiresAt
  generalize e.recvInvite m dest expiresAt = e' at h ⊢
  cases h
  case rejected reason hrej =>
    rw [intact_store e rfl rfl (by simp) rfl hrefl rfl, spares_of_stored]
    rintro ⟨hpolicy, hfirst⟩
    rcases hrej with hrej | ⟨first, hmem, hlt⟩
    · rw [hpolicy] at hrej
      cases hrej
    · rw [hfirst first hmem] at hlt
      exact lt_irrefl _ hlt
  case repeated hno hr hs hx =>
    refine iff_of_true hrefl (.inr (.inl ⟨?_, by simp [hr]⟩))
    exact Bool.eq_false_iff.mpr fun href => hno (.inl href)
  case offered hno hr hnew =>
    refine iff_of_true ?_ (.inl hnew)
    apply (intact_store (m := m) e rfl rfl (by simp) rfl hrefl rfl).mpr
    intro s hs
    exact absurd (Dict.mem_iff_lookup.mpr ⟨s, hs⟩) hnew
  case tied first rest hno hr hid =>
    refine iff_of_true (hwithdrawn hr) (.inr (.inl ⟨?_, by simp [hr, hid]⟩))
    exact Bool.eq_false_iff.mpr fun href => hno (.inl href)
  case lost first rest hno hr hlt =>
    rw [intact_store ((first :: rest).foldl withdraw e) rfl rfl (by simp) rfl
      (hwithdrawn hr) rfl, spares_of_stored]
    rintro ⟨-, hfirst⟩
    rw [hr] at hfirst
    rw [hfirst first rfl] at hlt
    exact lt_irrefl _ hlt

/-- **Held sessions and invites.** In every reachable state, a received invite
leaves every held session its role and peer, and every ACTIVE session ACTIVE
with its media running, exactly when `Spares` holds: the ways out of
`recv_invite` that store a record without looking for a held one do harm
whenever there is one that matters. -/
theorem invite_spares_iff {e e' : Endpoint} {out : List Emit} {m : Msg} {dest : Option String}
    {expiresAt : Option Nat} (he : machine.Reachable e) (hb : m.body = .invite dest expiresAt)
    (h : machine.step e (.recv m) out e') : (Intact e e' ∧ .stop ∉ medias out) ↔ e.Spares m := by
  have hstep : e' = { e with out := [] }.recvInvite m dest expiresAt ∧ out = e'.out := by
    obtain ⟨e₁, hperform, heq⟩ := map_ok h
    cases heq
    refine ⟨?_, rfl⟩
    replace hperform : { e with out := [] }.recv m = .ok e' := hperform
    unfold recv at hperform
    rw [hb] at hperform
    exact (Except.ok.inj hperform).symm
  obtain ⟨rfl, rfl⟩ := hstep
  have hmedias := recvInvite_medias { e with out := [] } m dest expiresAt
  rw [hmedias]
  have hiff := intact_iff_spares (e := { e with out := [] }) (keyed e he) m dest expiresAt
  exact (and_iff_left (by simp)).trans hiff

/-! ## A run that loses an ACTIVE session -/

/-- An endpoint that lets nobody in without a grant. -/
def guarded : Context := { device := "did:alice:1", identity := "did:alice", firstContactRequired := true }

def answeredCall : List Event :=
  [.placeCall "call-1" "did:bob:1", .recv ⟨"msg-1", "did:bob:1", "call-1", .session (.answer "user" none)⟩]

def strangerInvite (id : String) : Msg := ⟨id, "did:mallory:1", none, .invite "did:alice:1" (some 60)⟩

theorem exists_reachable (ctx : Context) (events : List Event) (p : Endpoint → Bool)
    (h : (TSys.exec? step (.new ctx) events).any (fun r => p r.2) = true)
    (hruns : TSys.Along? step (fun _ _ _ => True) [] (.new ctx) events) :
    ∃ e, machine.Reachable e ∧ p e = true := by
  obtain ⟨tr, e, hrun, hp⟩ := TSys.exec?_runWhere step (fun _ _ _ => True) Fresh (.new ctx) events
    (fun r => p r.2) hruns h
  exact ⟨e, TSys.Run.reachable hrun (.init ⟨ctx, rfl⟩), hp⟩

/-- A stranger who is refused takes the session id of an ACTIVE call: its record
is replaced by an ended one of the stranger's, and media keeps running. -/
theorem active_session_overwritten : ¬ ∀ (e e' : Endpoint) (out : List Emit) (m : Msg) (dest : Option String)
      (expiresAt : Option Nat), machine.Reachable e → m.body = .invite dest expiresAt →
      machine.step e (.recv m) out e' → Intact e e' ∧ .stop ∉ medias out := by
  intro hall
  let p (e : Endpoint) : Bool :=
    match e.step (.recv (strangerInvite "call-1")) with
    | .error _ => false
    | .ok (e', _) =>
      (e.sessions.lookup "call-1").any (·.state = .active) &&
        (e'.sessions.lookup "call-1").all (·.state = .ended)
  obtain ⟨e, he, hp⟩ := exists_reachable guarded answeredCall p (by decide) (by decide)
  unfold p at hp
  split at hp
  case h_1 => cases hp
  case h_2 e' out hstep =>
    obtain ⟨hintact, -⟩ := hall e e' out (strangerInvite "call-1") _ _ he rfl hstep
    rw [Bool.and_eq_true, Option.any_eq_true] at hp
    obtain ⟨⟨s, hs, hactive⟩, hended⟩ := hp
    obtain ⟨s', hs', -, -, hstays⟩ := hintact "call-1" s hs
    rw [hs', Option.all_some, decide_eq_true_eq] at hended
    rw [hstays (by simpa using hactive)] at hended
    cases hended

/-- The same stranger with an id of their own leaves the call alone. -/
theorem stranger_spared :
    ∃ e e' out, machine.Reachable e ∧ (e.sessions.lookup "call-1").any (·.state = .active) ∧
      machine.step e (.recv (strangerInvite "call-2")) out e' ∧ Intact e e' ∧
      .stop ∉ medias out := by
  let p (e : Endpoint) : Bool :=
    (e.sessions.lookup "call-1").any (·.state = .active) && "call-2" ∉ e.sessions &&
      (e.step (.recv (strangerInvite "call-2"))).isOk
  obtain ⟨e, he, hp⟩ := exists_reachable guarded answeredCall p (by decide) (by decide)
  unfold p at hp
  rw [Bool.and_eq_true, Bool.and_eq_true, decide_eq_true_eq] at hp
  obtain ⟨⟨hactive, hnew⟩, hok⟩ := hp
  cases hstep : e.step (.recv (strangerInvite "call-2")) with
  | error fault =>
    rw [hstep] at hok
    cases hok
  | ok r =>
    obtain ⟨e', out⟩ := r
    exact ⟨e, e', out, he, hactive, hstep, (invite_spares_iff he rfl hstep).mpr (.inl hnew)⟩

end Endpoint

end Dsip.Engine
