import Dsip.Engine.KeyRuns
import Dsip.Engine.Records

/-!
# An endpoint runs the machine of the presence keys

Every step of an endpoint is a path of `keyMachine` on its clock and contacts,
with the same emissions: an `advance` is a tick for every instant on the way, a
call about a grant is that call, everything else leaves grants and keys alone.
-/

namespace Dsip.Engine

open Dsip.Lib Dsip.Registry Contacts

/-- Neither a grant nor an id of the pool. -/
def Contacts.Unused (c : Contacts) (id : String) : Prop := id ∉ c.grantsIssued ∧ id ∉ c.grantIds

instance (c : Contacts) : DecidablePred c.Unused :=
  fun id => inferInstanceAs (Decidable (id ∉ c.grantsIssued ∧ id ∉ c.grantIds))

namespace Endpoint

/-- The grant an event issues has a new id. -/
def FreshEvent (e : Endpoint) : Event → Prop
  | .grant id .. => e.contacts.Unused id
  | .regrant id .. => e.contacts.Unused id
  | .recv ⟨_, _, _, .introduction (some token)⟩ =>
    ∀ gid ∈ e.contacts.tokens.lookup token, e.contacts.Unused gid
  | _ => True

instance (e : Endpoint) : DecidablePred e.FreshEvent := fun event => by
  unfold FreshEvent
  split <;> infer_instance

/-- The contacts of an endpoint and its time. -/
def clocked (e : Endpoint) : Clocked := ⟨e.now, e.contacts⟩

/-- Nothing happens to the clock or the contacts. -/
structure Apart (e e' : Endpoint) : Prop where
  now : e'.now = e.now
  contacts : e'.contacts = e.contacts
  silent : contactEmits e'.out = contactEmits e.out

theorem Apart.refl (e : Endpoint) : Apart e e := ⟨rfl, rfl, rfl⟩

theorem Apart.trans {e e' e'' : Endpoint} (h : Apart e e') (h' : Apart e' e'') : Apart e e'' :=
  ⟨h'.now.trans h.now, h'.contacts.trans h.contacts, h'.silent.trans h.silent⟩

theorem Only.apart {e e' : Endpoint} {sid : String} (h : Only e sid e') : Apart e e' :=
  ⟨h.now, h.contacts, h.silent⟩

section Apart

variable {e e' : Endpoint}

theorem apart_emit (e : Endpoint) {x : Emit} (hx : x.toContact = none) : Apart e (e.emit x) :=
  ⟨rfl, rfl, contactEmits_emit e x hx⟩

theorem apart_put (e : Endpoint) (s : Session) : Apart e (e.put s) := ⟨rfl, rfl, rfl⟩

theorem apart_withdraw (e : Endpoint) (s : Session) : Apart e (e.withdraw s) :=
  @Only.apart e (e.withdraw s) s.id (by simp [withdraw])

theorem apart_withdrawn (rs : List Session) (e : Endpoint) : Apart e (rs.foldl withdraw e) := by
  induction rs generalizing e with
  | nil => exact .refl e
  | cons r rs ih => exact (apart_withdraw e r).trans (ih _)

theorem apart_offer (e : Endpoint) (m : Msg) (dest : Option String) (expiresAt : Option Nat) :
    Apart e (e.offer m dest expiresAt) :=
  (apart_put e _).trans (apart_emit _ rfl)

theorem apart_refuseInvite (e : Endpoint) (m : Msg) (reason : String) : Apart e (e.refuseInvite m reason) :=
  (apart_emit e rfl).trans (apart_put _ _)

theorem apart_recvInvite (e : Endpoint) (m : Msg) (dest : Option String) (expiresAt : Option Nat) :
    Apart e (e.recvInvite m dest expiresAt) := by
  unfold recvInvite
  split
  case isTrue => exact apart_refuseInvite e m _
  case isFalse =>
    split
    case h_1 =>
      split
      case h_1 => exact apart_offer e m dest expiresAt
      case h_2 => split <;> exact apart_emit e rfl
    case h_2 first rest _ =>
      have hwithdrawn := apart_withdrawn (first :: rest) e
      split
      case isTrue => exact apart_refuseInvite e m _
      case isFalse =>
        dsimp only
        split
        case isTrue => exact (hwithdrawn.trans (apart_emit _ rfl)).trans (apart_emit _ rfl)
        case isFalse => exact hwithdrawn.trans (apart_offer _ m dest expiresAt)

theorem apart_recvError (e : Endpoint) (m : Msg) (reason : Option String) :
    Apart e (e.recvError m reason) := by
  unfold recvError
  split
  case h_1 => exact apart_emit e rfl
  case h_2 s hs =>
    split
    case isTrue =>
      obtain ⟨sid, -, hs⟩ := Option.bind_eq_some_iff.mp hs
      exact @Only.apart e _ s.id (by simp)
    case isFalse => exact apart_emit e rfl

theorem apart_placeCall (e : Endpoint) (sid dest : String) : Apart e (e.placeCall sid dest) := by
  unfold placeCall
  split
  case isTrue => exact apart_emit e rfl
  case isFalse => exact @Only.apart e _ sid (by simp)

theorem apart_call (hk : e.Keyed) {sid : String} {event : CallEvent}
    (h : e.call sid event = .ok e') : Apart e e' := by
  unfold call at h
  cases hs : e.sessions.lookup sid with
  | none =>
    rw [hs] at h
    cases h
    exact apart_emit e rfl
  | some s =>
    rw [hs] at h
    obtain rfl := hk sid s hs
    exact (callEvent_did hs h).only.apart

theorem apart_fireDue (hk : e.Keyed) {fuel : Nat} (h : e.fireDue fuel = .ok e') : Apart e e' ∧ e'.Keyed := by
  refine fireDue_rule (P := fun e' => Apart e e' ∧ e'.Keyed) ?_ ⟨.refl e, hk⟩ h
  rintro e₁ t e₂ ⟨happart, hkeyed⟩ hmem hdue hfire
  obtain ⟨s, -, hd⟩ := fire_did_of_keyed hkeyed hfire
  have hd' : Apart e₁ e₂ := ⟨hd.only.now, hd.only.contacts, hd.only.silent⟩
  exact ⟨happart.trans hd', keeps_keyed.fire e₁ t e₂ hkeyed hmem hdue hfire⟩

end Apart

/-! ## The moves of an event -/

/-- The calls about grants and keys that an event can be. -/
inductive ActsOf : Event → List KeyAct → Prop
  | advance (seconds target : Nat) (ticks : List Nat) :
      ActsOf (.advance seconds) (ticks.map .tick ++ [.wait target])
  | granted {id introduction grantee : String} {scope : Option (List String)} {validUntil : Nat}
      {audience : Option String} :
      ActsOf (.grant id introduction scope validUntil audience)
        [.other, .issue id grantee (scope.getD ["dsip.invite"]) validUntil introduction audience]
  | ungranted {id introduction : String} {scope : Option (List String)} {validUntil : Nat}
      {audience : Option String} :
      ActsOf (.grant id introduction scope validUntil audience) [.other]
  | regrant {id gid : String} {scope : Option (List String)} {validUntil : Nat}
      {audience : Option String} :
      ActsOf (.regrant id gid scope validUntil audience)
        [.regrant id gid (scope.getD ["dsip.invite"]) validUntil audience]
  | revoke {gid : String} : ActsOf (.revoke gid) [.revoke gid]
  | token {m : Msg} {contactToken : Option String} {gid grantee : String} {validUntil : Nat}
      (hb : m.body = .introduction contactToken) :
      ActsOf (.recv m) [.other, .issue gid grantee ["dsip.invite"] validUntil m.id none]
  | presence {m : Msg} {kid subject : Option String} {identity : String}
      (hb : m.body = .presence kid subject) : ActsOf (.recv m) [.ownRecord identity kid subject]
  | received {m : Msg} : ActsOf (.recv m) [.other]
  | introduce {id dest : String} {purpose contactToken : Option String} :
      ActsOf (.introduce id dest purpose contactToken) [.other]
  | rejectIntroduction {introduction : String} {reason : Option String} :
      ActsOf (.rejectIntroduction introduction reason) [.other]
  | issueToken {token grantId : String} : ActsOf (.issueToken token grantId) [.other]
  | placeCall {sid dest : String} : ActsOf (.placeCall sid dest) [.other]
  | call {sid : String} {event : CallEvent} : ActsOf (.call sid event) [.other]

/-- A path of the keys from one endpoint to another, with what the contacts
emitted. -/
structure KeyPath (e : Endpoint) (p : KeyMoves) (e' : Endpoint) : Prop where
  path : keyMachine.Path e.clocked p e'.clocked
  emits : contactEmits e'.out = contactEmits e.out ++ p.flatMap (·.output)
  fresh : ∀ m ∈ p, FreshAct m.before m.input

section Moves

variable {e e' e'' : Endpoint} {p q : KeyMoves}

theorem KeyPath.trans (h : KeyPath e p e') (h' : KeyPath e' q e'') : KeyPath e (p ++ q) e'' where
  path := h.path.append h'.path
  emits := by rw [h'.emits, h.emits, List.flatMap_append, List.append_assoc]
  fresh m hm := (List.mem_append.mp hm).elim (h.fresh m) (h'.fresh m)

theorem KeyPath.one (act : KeyAct) {out : List ContactEmit} (hf : FreshAct e.clocked act)
    (h : KeyStep e.clocked act out e'.clocked) (hout : contactEmits e'.out = contactEmits e.out ++ out) :
    KeyPath e [⟨e.clocked, act, out, e'.clocked⟩] e' where
  path := TSys.Path.snoc (p := []) .nil h
  emits := by simpa using hout
  fresh m hm := by
    obtain rfl := List.mem_singleton.mp hm
    exact hf

theorem KeyPath.congr {e₁ : Endpoint} (h : KeyPath e p e') (ha : Apart e' e₁) : KeyPath e p e₁ := by
  have hclocked : e₁.clocked = e'.clocked := by
    unfold clocked
    rw [ha.now, ha.contacts]
  exact ⟨hclocked ▸ h.path, ha.silent.trans h.emits, h.fresh⟩

@[simp] theorem contactEmits_map (l : List ContactEmit) : contactEmits (l.map .contact) = l := by
  induction l with
  | nil => rfl
  | cons x l ih => exact congrArg (x :: ·) ih

theorem contactEmits_withContacts (e : Endpoint) (r : Contacts × List ContactEmit) :
    contactEmits (e.withContacts r).out = contactEmits e.out ++ r.2 := by
  show contactEmits (e.out ++ r.2.map .contact) = _
  unfold contactEmits
  rw [List.filterMap_append]
  exact congrArg _ (contactEmits_map r.2)

theorem KeyPath.of_contacts (act : KeyAct) {r : Contacts × List ContactEmit}
    (hf : FreshAct e.clocked act) (h : KeyStep e.clocked act r.2 ⟨e.now, r.1⟩) :
    KeyPath e [⟨e.clocked, act, r.2, ⟨e.now, r.1⟩⟩] (e.withContacts r) :=
  @KeyPath.one e (e.withContacts r) act r.2 hf h (contactEmits_withContacts e r)

theorem KeyPath.apart (h : Apart e e') : KeyPath e [⟨e.clocked, .other, [], ⟨e.now, e.contacts⟩⟩] e' := by
  refine (KeyPath.congr ?_ h)
  refine @KeyPath.one e e .other [] trivial ?_ (List.append_nil _).symm
  exact .other ⟨_, _, _, _, _, _, rfl⟩ fun x hx => absurd hx List.not_mem_nil

theorem mem_instants {i : Nat} (h : i ∈ e.contacts.instants) : i ∈ e.instants := by
  unfold instants
  rw [List.append_assoc]
  exact List.mem_append_right _ h

theorem tick_keyPath (hk : e.Keyed) {target instant : Nat}
    (hnext : (e.instants.filter (· ≤ target)).min? = some instant) (h : e.tick instant = .ok e') :
    ∃ out, KeyPath e [⟨e.clocked, .tick (max e.now instant), out, e'.clocked⟩] e' := by
  obtain ⟨e₁, hfired, hrest⟩ := bind_ok h
  obtain ⟨r, hr, rfl⟩ := map_ok hrest
  have hkeyed : Keyed { e with now := max e.now instant } := hk
  obtain ⟨hnow, hcontacts, hsilent⟩ := (apart_fireDue hkeyed hfired).1
  replace hnow : e₁.now = max e.now instant := hnow
  replace hcontacts : e₁.contacts = e.contacts := hcontacts
  dsimp only at hr
  rw [hcontacts, hnow] at hr
  refine ⟨r.2, KeyPath.one _ trivial ?_ ?_⟩
  · have hinst : max e.now instant = e.now ∨ ∀ i ∈ e.contacts.instants, max e.now instant ≤ i := by
      rcases le_total instant e.now with hle | hle
      · exact .inl (max_eq_left hle)
      · refine .inr fun i hi => ?_
        rw [max_eq_right hle]
        by_cases hit : i ≤ target
        · exact min?_le_all hnext i (List.mem_filter.mpr ⟨mem_instants hi, by simpa using hit⟩)
        · have hmem := (List.min?_eq_some_iff.mp hnext).1
          rw [List.mem_filter, decide_eq_true_eq] at hmem
          omega
    have hstep := @KeyStep.tick e.clocked _ r (le_max_left e.now instant) hinst hr
    have hclocked : (Endpoint.withContacts
        { e₁ with contacts := e₁.contacts.endLapsed e₁.now } r).clocked = ⟨max e.now instant, r.1⟩ := by
      show (⟨e₁.now, r.1⟩ : Clocked) = _
      rw [hnow]
    rw [hclocked]
    exact hstep
  · rw [contactEmits_withContacts]
    exact congrArg (· ++ r.2) hsilent

theorem advanceUntil_keyPath {target fuel : Nat} (hk : e.Keyed) (hle : e.now ≤ target)
    (h : e.advanceUntil target fuel = .ok e') : ∃ (ticks : List Nat) (p : KeyMoves), KeyPath e p e' ∧
      p.map (·.input) = ticks.map .tick ++ [.wait target] := by
  have hdone : ∀ {e : Endpoint}, e.now ≤ target → (e.instants.filter (· ≤ target)).min? = none →
      ∃ (ticks : List Nat) (p : KeyMoves), KeyPath e p { e with now := target } ∧
        p.map (·.input) = ticks.map KeyAct.tick ++ [.wait target] := by
    intro e hle hnone
    refine ⟨[], _, @KeyPath.one e _ (.wait target) [] trivial (.wait hle ?_)
      (List.append_nil _).symm, rfl⟩
    intro i hi
    by_contra hno
    rw [List.min?_eq_none_iff, List.filter_eq_nil_iff] at hnone
    exact hnone i (mem_instants hi) (by simpa using hno)
  induction fuel generalizing e with
  | zero =>
    unfold advanceUntil at h
    split at h
    case h_1 hnone =>
      cases h
      exact hdone hle hnone
    case h_2 => cases h
  | succ fuel ih =>
    unfold advanceUntil at h
    split at h
    case h_1 hnone =>
      cases h
      exact hdone hle hnone
    case h_2 instant hnext =>
      obtain ⟨e₁, htick, hrest⟩ := bind_ok h
      obtain ⟨hinstant, hall⟩ := instant_le hnext
      have hle₁ : e₁.now ≤ target := by
        rw [tick_now htick]
        exact max_le hle hinstant
      obtain ⟨out, hone⟩ := tick_keyPath hk hnext htick
      obtain ⟨ticks, p, hp, hacts⟩ := ih (keeps_keyed.tick hk hall htick) hle₁ hrest
      exact ⟨max e.now instant :: ticks, _, hone.trans hp, congrArg (_ :: ·) hacts⟩

theorem grant_keyPath {id introduction : String} {scope : Option (List String)}
    {validUntil : Nat} {audience : Option String} (hf : e.contacts.Unused id) :
    ∃ p, KeyPath e p (e.withContacts (e.contacts.grant id introduction
        (scope.getD ["dsip.invite"]) validUntil audience)) ∧
      ActsOf (.grant id introduction scope validUntil audience) (p.map (·.input)) := by
  have hrefused : ∀ reason, ∃ p, KeyPath e p (e.withContacts (e.contacts, [.refused reason])) ∧
      ActsOf (.grant id introduction scope validUntil audience) (p.map (·.input)) := by
    intro reason
    refine ⟨_, KeyPath.of_contacts .other trivial (.other ⟨_, _, _, _, _, _, rfl⟩ ?_), .ungranted⟩
    intro x hx
    rw [List.mem_singleton.mp hx]
    exact fun h => h
  unfold Contacts.grant
  split
  case h_1 => exact hrefused _
  case h_2 req _ =>
    split
    case isTrue => exact hrefused _
    case isFalse =>
      let e₁ : Endpoint := { e with contacts :=
        { e.contacts with requests := e.contacts.requests.erase introduction } }
      have hfirst : KeyPath e [⟨e.clocked, .other, [], e₁.clocked⟩] e₁ :=
        KeyPath.one .other trivial (.other ⟨_, _, _, _, _, _, rfl⟩
          fun x hx => absurd hx List.not_mem_nil) (List.append_nil _).symm
      have hsecond := @KeyPath.of_contacts e₁ (.issue ..) _ hf (@KeyStep.issue e₁.clocked id req.identity
        introduction (scope.getD ["dsip.invite"]) validUntil audience)
      exact ⟨_, hfirst.trans hsecond, .granted⟩

theorem recvIntroduction_keyPath {m : Msg} {contactToken : Option String}
    (hb : m.body = .introduction contactToken) (hf : e.FreshEvent (.recv m)) :
    ∃ p, KeyPath e p (e.withContacts (e.contacts.recvIntroduction e.now m.id m.sender
        (e.identityOf m.sender) contactToken)) ∧ ActsOf (.recv m) (p.map (·.input)) := by
  have hnotices : ∀ x : ContactEmit, ¬ x.OfKeys → ∀ y ∈ [x], ¬ y.OfKeys := by
    intro x hx y hy
    rw [List.mem_singleton.mp hy]
    exact hx
  unfold Contacts.recvIntroduction
  split
  case isTrue =>
    exact ⟨_, KeyPath.of_contacts .other trivial (.other ⟨_, _, _, _, _, _, rfl⟩ (hnotices _ id)), .received⟩
  case isFalse =>
    dsimp only
    split
    case h_2 =>
      exact ⟨_, KeyPath.of_contacts .other trivial (.other ⟨_, _, _, _, _, _, rfl⟩ (hnotices _ id)),
        .received⟩
    case h_1 token gid htoken =>
      obtain ⟨t, ht, hgid⟩ := Option.bind_eq_some_iff.mp htoken
      obtain ⟨gid', hgid', he⟩ := Option.map_eq_some_iff.mp hgid
      simp only [Prod.mk.injEq] at he
      obtain ⟨rfl, rfl⟩ := he
      have hunused : e.contacts.Unused gid' := by
        obtain ⟨mid, sender, session, body⟩ := m
        subst hb
        subst ht
        exact hf gid' hgid'
      let e₁ : Endpoint := e.withContacts ({ e.contacts with
        seenIntroductions := insert m.id e.contacts.seenIntroductions
        tokens := e.contacts.tokens.erase t },
        [.introductionReceived (e.identityOf m.sender) true])
      have hfirst := @KeyPath.of_contacts e .other ({ e.contacts with
        seenIntroductions := insert m.id e.contacts.seenIntroductions
        tokens := e.contacts.tokens.erase t },
        [.introductionReceived (e.identityOf m.sender) true]) trivial
        (.other ⟨_, _, _, _, _, _, rfl⟩ (hnotices _ id))
      have hsecond := @KeyPath.of_contacts e₁ (.issue ..) _ hunused (@KeyStep.issue e₁.clocked gid'
        (e.identityOf m.sender) m.id ["dsip.invite"] (e.now + 31536000) none)
      refine ⟨_, (hfirst.trans hsecond).congr ⟨rfl, rfl, ?_⟩, .token hb⟩
      rw [contactEmits_withContacts, contactEmits_withContacts, contactEmits_withContacts, List.append_assoc]
      rfl

theorem recv_keyPath (hk : e.Keyed) {m : Msg} (hf : e.FreshEvent (.recv m))
    (h : e.recv m = .ok e') : ∃ p, KeyPath e p e' ∧ ActsOf (.recv m) (p.map (·.input)) := by
  have happart : ∀ {e'}, Apart e e' → ∃ p, KeyPath e p e' ∧ ActsOf (.recv m) (p.map (·.input)) :=
    fun ha => ⟨_, .apart ha, .received⟩
  unfold recv at h
  cases hb : m.body
  all_goals simp only [hb] at h
  case invite dest expiresAt =>
    cases h
    exact happart (apart_recvInvite e m dest expiresAt)
  case error reason =>
    cases h
    exact happart (apart_recvError e m reason)
  case introduction contactToken =>
    cases h
    exact recvIntroduction_keyPath hb hf
  case grant scope validUntil presenceKeys =>
    cases h
    refine ⟨_, KeyPath.of_contacts .other trivial (.other ?_ ?_), .received⟩
    · unfold Contacts.recvGrant
      dsimp only
      split
      case h_1 => exact ⟨_, _, _, _, _, _, rfl⟩
      case h_2 => split_ifs <;> exact ⟨_, _, _, _, _, _, rfl⟩
    · unfold Contacts.recvGrant
      dsimp only
      split
      case h_1 => simp [ContactEmit.OfKeys]
      case h_2 => split_ifs <;> simp [ContactEmit.OfKeys]
  case presence kid subject =>
    obtain ⟨r, hr, rfl⟩ := map_ok h
    exact ⟨_, KeyPath.of_contacts (.ownRecord _ _ _) trivial (.ownRecord hr), .presence hb⟩
  case session body =>
    cases recvSession_outcome h with
    | introduction =>
      refine ⟨_, @KeyPath.one e _ .other [] trivial (.other ⟨_, _, _, _, _, _, rfl⟩
        fun x hx => absurd hx List.not_mem_nil) ?_, .received⟩
      rw [List.append_nil]
      exact contactEmits_emit _ _ rfl
    | unknown => exact happart (apart_emit e rfl)
    | held _ _ hs hd => exact happart (hd (hk _ _ hs)).only.apart

/-- **An event is a path of the keys.** -/
theorem perform_keyPath (hk : e.Keyed) {event : Event} (hf : e.FreshEvent event)
    (h : e.perform event = .ok e') : ∃ p, KeyPath e p e' ∧ ActsOf event (p.map (·.input)) := by
  cases event
  case advance seconds =>
    obtain ⟨ticks, p, hp, hacts⟩ := advanceUntil_keyPath hk (Nat.le_add_right _ seconds) h
    exact ⟨p, hp, hacts ▸ .advance _ _ _⟩
  case recv => exact recv_keyPath hk hf h
  case placeCall sid dest =>
    cases h
    exact ⟨_, .apart (apart_placeCall e sid dest), .placeCall⟩
  case introduce =>
    cases h
    refine ⟨_, KeyPath.of_contacts .other trivial (.other ⟨_, _, _, _, _, _, rfl⟩ ?_), .introduce⟩
    simp [Contacts.introduce, ContactEmit.OfKeys]
  case grant =>
    cases h
    exact grant_keyPath hf
  case regrant =>
    obtain ⟨r, hr, rfl⟩ := map_ok h
    exact ⟨_, KeyPath.of_contacts (.regrant ..) hf (.regrant hr), .regrant⟩
  case rejectIntroduction =>
    cases h
    refine ⟨_, KeyPath.of_contacts .other trivial (.other ?_ ?_), .rejectIntroduction⟩
    · unfold Contacts.rejectIntroduction
      split <;> exact ⟨_, _, _, _, _, _, rfl⟩
    · unfold Contacts.rejectIntroduction
      split <;> simp [ContactEmit.OfKeys]
  case revoke =>
    obtain ⟨r, hr, rfl⟩ := map_ok h
    exact ⟨_, KeyPath.of_contacts (.revoke _) trivial (.revoke hr), .revoke⟩
  case issueToken =>
    cases h
    exact ⟨_, @KeyPath.one e _ .other [] trivial (.other ⟨_, _, _, _, _, _, rfl⟩
      fun x hx => absurd hx List.not_mem_nil) (List.append_nil _).symm, .issueToken⟩
  case call => exact ⟨_, .apart (apart_call hk h), .call⟩

end Moves

/-! ## Whole runs -/

/-- A step of the endpoint, and what it is to the keys. -/
structure Shows (m : TSys.Move Endpoint Event (List Emit)) (q : KeyMoves) : Prop where
  acts : ActsOf m.input (q.map (·.input))
  path : keyMachine.Path m.before.clocked q m.after.clocked
  emits : contactEmits m.output = q.flatMap (·.output)

theorem keyPath_of_path {e₀ e : Endpoint} {p : List (TSys.Move Endpoint Event (List Emit))}
    (hk : e₀.Keyed) (hp : machine.Path e₀ p e) (hf : ∀ m ∈ p, m.before.FreshEvent m.input) :
    e.Keyed ∧ ∃ ps, List.Forall₂ Shows p ps ∧ keyMachine.Path e₀.clocked ps.flatten e.clocked ∧
      ∀ m ∈ ps.flatten, FreshAct m.before m.input := by
  induction hp with
  | nil => exact ⟨hk, [], .nil, .nil, fun m hm => absurd hm List.not_mem_nil⟩
  | @snoc p e event out e' hp hs ih =>
    obtain ⟨hkeyed, ps, hshows, hpath, hfresh⟩ := ih fun m hm => hf m (List.mem_append_left _ hm)
    obtain ⟨e₁, hperform, heq⟩ := map_ok hs
    simp only [Prod.mk.injEq] at heq
    obtain ⟨rfl, rfl⟩ := heq
    have hnew := hf _ (List.mem_append_right p List.mem_cons_self)
    obtain ⟨q, hq, hacts⟩ := @perform_keyPath { e with out := [] } e₁ hkeyed event hnew hperform
    refine ⟨@Keyed.outcome { e with out := [] } e₁ hkeyed event (step_outcome hs).1, ps ++ [q],
      List.rel_append hshows (.cons ⟨hacts, hq.path, hq.emits⟩ .nil), ?_, ?_⟩
    · rw [List.flatten_append, List.flatten_singleton]
      exact hpath.append hq.path
    · intro m hm
      rw [List.flatten_append, List.flatten_singleton] at hm
      exact (List.mem_append.mp hm).elim (hfresh m) (hq.fresh m)

/-- An identity whose presence is sealed. -/
def sealedContext : Context where
  device := "did:alice:1"
  identity := "did:alice"
  presenceKeys := some { sealed := ["main"], grantIds := ["g-10", "g-11"] }

def introductionOf (id : String) : Event := .recv ⟨id, "did:bob", none, .introduction none⟩

def subscribes : Option (List String) := some ["dsip.subscribe"]

/-- A grant is taken back, and another is given. -/
def regrantedLate (validUntil : Nat) : List Event :=
  [introductionOf "i-1", .grant "g-1" "i-1" subscribes 1000 none, .revoke "g-1",
    introductionOf "i-2", .grant "g-2" "i-2" subscribes validUntil none]

end Endpoint

end Dsip.Engine
