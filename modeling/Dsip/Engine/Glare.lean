import Dsip.Lib.Crossing
import Dsip.Engine.KeyRefine
import Dsip.Engine.Solo

/-!
# Calls that cross

Two endpoints call each other any number of times, and nothing else happens to
the calls: no owner answers or cancels, no timer expires, policy lets the invites
in (§12.6). What each records of the other's identity is a side of a crossing,
and what it does with an invite, a cancel or a reject is what a side does.
-/

namespace Dsip.Engine

open Dsip.Lib Dsip.Lib.Crossing

/-! ## An endpoint as a side -/

def Session.life (s : Session) : Life := if s.state = .ended then .over else .live

/-- The life of a record of ours. -/
def lifeOf (role : Role) (r : Option Session) : Option Life :=
  r.bind fun s => if s.role = role then some s.life else none

/-- A call that was at most placed, offered, or ended. -/
def Session.Early (e : Endpoint) (peer : String) (s : Session) : Prop :=
  match s.role with
  | .initiator => (s.state = .inviting ∨ s.state = .ended) ∧ s.inviteTo.map e.identityOf = some peer
  | .responder => s.state = .offered ∨ s.state = .ended

variable {k : String}

namespace Endpoint

/-- The invites of the owner and those received, by id. -/
def side (e : Endpoint) : Side String where
  mine k := lifeOf .initiator (e.sessions.lookup k)
  theirs k := lifeOf .responder (e.sessions.lookup k)

/-- An endpoint that has only exchanged invites with the identity `peer`, which
policy lets in. -/
structure Glaring (e : Endpoint) (ctx : Context) (peer : String) : Prop where
  setting : e.toSetting = (Endpoint.new ctx).toSetting
  contacts : e.contacts = Contacts.new ctx
  keyed : e.Keyed
  early : ∀ k s, e.sessions.lookup k = some s → s.Early e peer
  admits : ctx.firstContactRequired = true → peer ∈ ctx.allow

variable {e e' : Endpoint} {ctx : Context} {peer : String}

theorem identityOf_congr (h : e'.toSetting = e.toSetting) : e'.identityOf = e.identityOf := by
  funext did
  unfold identityOf
  rw [h]

theorem Glaring.device (h : e.Glaring ctx peer) : e.device = ctx.device := congrArg Setting.device h.setting

theorem Glaring.of_apart (h : e.Glaring ctx peer) (hsetting : e'.toSetting = e.toSetting)
    (hcontacts : e'.contacts = e.contacts) (hkeyed : e'.Keyed)
    (hearly : ∀ k s, e'.sessions.lookup k = some s → s.Early e peer) : e'.Glaring ctx peer where
  setting := hsetting.trans h.setting
  contacts := hcontacts.trans h.contacts
  keyed := hkeyed
  early k s hs := by
    have hs' := hearly k s hs
    unfold Session.Early at hs' ⊢
    rw [identityOf_congr hsetting]
    exact hs'
  admits := h.admits

theorem Glaring.put (h : e.Glaring ctx peer) {s : Session} (hs : s.Early e peer) :
    (e.put s).Glaring ctx peer := by
  refine h.of_apart rfl rfl (h.keyed.of_put s) fun k t ht => ?_
  rw [(put_frame e s).1, Dict.lookup_insert_eq] at ht
  split at ht
  case isTrue =>
    cases ht
    exact hs
  case isFalse => exact h.early k t ht

theorem glaring_new (hadmits : ctx.firstContactRequired = true → peer ∈ ctx.allow) :
    (Endpoint.new ctx).Glaring ctx peer := by
  refine ⟨rfl, rfl, ?_, ?_, hadmits⟩
  · intro k s hs
    cases hs
  · intro k s hs
    cases hs

theorem side_put (e : Endpoint) (s : Session) :
    (e.put s).side = ⟨Function.update e.side.mine s.id (lifeOf .initiator (some s)),
      Function.update e.side.theirs s.id (lifeOf .responder (some s))⟩ := by
  have hlookup : ∀ k, (e.put s).sessions.lookup k = if k = s.id then some s else e.sessions.lookup k :=
    fun k => Dict.lookup_insert_eq e.sessions k s.id s
  ext k
  all_goals
    simp only [side, hlookup, Function.update_apply]
    split <;> rfl

theorem side_congr (h : e'.sessions = e.sessions) : e'.side = e.side := by
  unfold side
  rw [h]

theorem lookup_of_side (hmine : e.side.mine k = none) (htheirs : e.side.theirs k = none) :
    e.sessions.lookup k = none := by
  cases hs : e.sessions.lookup k with
  | none => rfl
  | some s =>
    cases hrole : s.role with
    | initiator => simp [side, lifeOf, hs, hrole] at hmine
    | responder => simp [side, lifeOf, hs, hrole] at htheirs

theorem mine_live (h : e.Glaring ctx peer) : e.side.mine k = some .live ↔
      ∃ s, e.sessions.lookup k = some s ∧ s.role = .initiator ∧ s.state = .inviting := by
  constructor
  · intro hlive
    obtain ⟨s, hs, hlife⟩ := Option.bind_eq_some_iff.mp hlive
    split at hlife
    case isFalse => cases hlife
    case isTrue hrole =>
      refine ⟨s, hs, hrole, ?_⟩
      have hearly := h.early k s hs
      unfold Session.Early at hearly
      rw [hrole] at hearly
      rcases hearly.1 with hst | hst
      · exact hst
      · simp [Session.life, hst] at hlife
  · rintro ⟨s, hs, hrole, hst⟩
    simp [side, lifeOf, hs, hrole, Session.life, hst]

theorem theirs_live (h : e.Glaring ctx peer) : e.side.theirs k = some .live ↔
      ∃ s, e.sessions.lookup k = some s ∧ s.role = .responder ∧ s.state = .offered := by
  constructor
  · intro hlive
    obtain ⟨s, hs, hlife⟩ := Option.bind_eq_some_iff.mp hlive
    split at hlife
    case isFalse => cases hlife
    case isTrue hrole =>
      refine ⟨s, hs, hrole, ?_⟩
      have hearly := h.early k s hs
      unfold Session.Early at hearly
      rw [hrole] at hearly
      rcases hearly with hst | hst
      · exact hst
      · simp [Session.life, hst] at hlife
  · rintro ⟨s, hs, hrole, hst⟩
    simp [side, lifeOf, hs, hrole, Session.life, hst]

theorem lifeOf_over {role : Role} {r : Option Session} :
    lifeOf role r = some .over ↔ ∃ s, r = some s ∧ s.role = role ∧ s.state = .ended := by
  constructor
  · intro hover
    obtain ⟨s, hs, hlife⟩ := Option.bind_eq_some_iff.mp hover
    split at hlife
    case isFalse => cases hlife
    case isTrue hrole =>
      refine ⟨s, hs, hrole, ?_⟩
      by_contra hst
      simp [Session.life, hst] at hlife
  · rintro ⟨s, rfl, hrole, hst⟩
    simp [lifeOf, hrole, Session.life, hst]

/-! ## Rivals -/

theorem mem_rivals_iff (h : e.Glaring ctx peer) :
    k ∈ (e.rivals peer).map (·.id) ↔ e.side.mine k = some .live := by
  rw [mine_live h, List.mem_map]
  constructor
  · rintro ⟨s, hs, rfl⟩
    obtain ⟨hheld, hrole, hattempting, -⟩ := (mem_rivals h.keyed).mp hs
    refine ⟨s, hheld, hrole, ?_⟩
    have hearly := h.early s.id s hheld
    unfold Session.Early at hearly
    rw [hrole] at hearly
    rcases hearly.1 with hst | hst
    · exact hst
    · exact absurd hattempting (by simp [Session.Attempting, hst])
  · rintro ⟨s, hs, hrole, hst⟩
    have hid := h.keyed k s hs
    have hearly := h.early k s hs
    unfold Session.Early at hearly
    rw [hrole] at hearly
    refine ⟨s, (mem_rivals h.keyed).mpr ⟨?_, hrole, .inl hst, hearly.2⟩, hid⟩
    rw [hid, hs]

theorem nodup_rivals (hk : e.Keyed) (identity : String) : ((e.rivals identity).map (·.id)).Nodup := by
  have hperm : (e.rivals identity).Perm (e.sessions.values.filter (e.IsRival identity)) :=
    List.perm_insertionSort _ _
  have hkeys : e.sessions.values.map (·.id) = e.sessions.keys := by
    unfold Dict.values AList.keys List.keys
    rw [List.map_map]
    apply List.map_congr_left
    intro entry hentry
    exact hk entry.1 entry.2 (AList.mem_lookup_iff.mpr hentry)
  rw [(hperm.map _).nodup_iff]
  apply List.Nodup.sublist (List.filter_sublist.map _)
  rw [hkeys]
  exact e.sessions.keys_nodup

theorem first_rival_least {identity : String} {first : Session} {rest : List Session}
    (h : e.rivals identity = first :: rest) : ∀ s ∈ first :: rest, first.id ≤ s.id := by
  have : Std.Total fun s t : Session => s.id ≤ t.id := ⟨fun s t => le_total s.id t.id⟩
  have : IsTrans Session fun s t => s.id ≤ t.id := ⟨fun _ _ _ h h' => h.trans h'⟩
  have hsorted : (e.rivals identity).Pairwise fun s t => s.id ≤ t.id := List.pairwise_insertionSort _ _
  rw [h] at hsorted
  intro s hs
  rcases List.mem_cons.mp hs with rfl | hs
  · exact le_rfl
  · exact (List.pairwise_cons.mp hsorted).1 s hs

/-! ## Withdrawing -/

theorem withdrawn_over (rs : List Session) (hk : k ∈ rs.map (·.id)) : ∀ e : Endpoint,
    ∃ r ∈ rs, r.id = k ∧ (rs.foldl withdraw e).sessions.lookup k = some r.lose := by
  induction rs with
  | nil => cases hk
  | cons r rs ih =>
    intro e
    rw [List.foldl_cons]
    rcases withdrawn_lookup rs k (e.withdraw r) with hsame | ⟨r', hr', hid, hlose⟩
    · by_cases hid : r.id = k
      · refine ⟨r, List.mem_cons_self, hid, ?_⟩
        rw [hsame, (withdraw_sessions e r).1, ← hid]
        exact AList.lookup_insert _
      · have hrest : k ∈ rs.map (·.id) := (List.mem_cons.mp hk).resolve_left (Ne.symm hid)
        obtain ⟨r', hr', hid', hlose⟩ := ih hrest (e.withdraw r)
        exact ⟨r', List.mem_cons_of_mem r hr', hid', hlose⟩
    · exact ⟨r', List.mem_cons_of_mem r hr', hid, hlose⟩

theorem withdraw_out (e : Endpoint) (s : Session) :
    sends (e.withdraw s).out = sends e.out ++ [.cancel s.inviteTo s.id "session.glare"] ∧
      (e.withdraw s).toSetting = e.toSetting := by
  simp [withdraw]

theorem withdrawn_out (rs : List Session) : ∀ e : Endpoint, sends (rs.foldl withdraw e).out =
        sends e.out ++ rs.map (fun r => .cancel r.inviteTo r.id "session.glare") ∧
      (rs.foldl withdraw e).toSetting = e.toSetting := by
  induction rs with
  | nil => exact fun e => ⟨by simp, rfl⟩
  | cons r rs ih =>
    intro e
    obtain ⟨hsends, hsetting⟩ := withdraw_out e r
    obtain ⟨hsends', hsetting'⟩ := ih (e.withdraw r)
    refine ⟨?_, hsetting'.trans hsetting⟩
    rw [List.foldl_cons, hsends', hsends, List.append_assoc]
    rfl

/-! ## What an endpoint sends and reads -/

end Endpoint

/-- A letter of a device as a note. -/
inductive IsNote (device : String) : Wire → Note String → Prop
  | invite {dest k : String} {grant : Option String} :
      IsNote device ⟨device, .session (.invite dest k grant)⟩ (.invite k)
  | cancel {dest : Option String} {k reason : String} :
      IsNote device ⟨device, .session (.cancel dest k reason)⟩ (.cancel k)
  | reject {dest k reason : String} :
      IsNote device ⟨device, .session (.reject dest k reason none)⟩ (.reject k)

namespace Endpoint

variable {e e' : Endpoint} {ctx : Context} {device peer : String}

/-- What one step sends, as notes. -/
def Notes (device : String) (e : Endpoint) (notes : List (Note String)) : Prop :=
  List.Forall₂ (IsNote device) ((letters e.out).map (Wire.mk device)) notes

theorem notes_of_sends {notes : List (Note String)} (hsilent : contactEmits e.out = [])
    (hsends : List.Forall₂ (fun msg n => IsNote device ⟨device, .session msg⟩ n) (sends e.out) notes) :
    Notes device e notes := by
  unfold Notes
  rw [letters_of_silent hsilent, List.map_map, List.forall₂_map_left_iff]
  exact hsends

theorem Glaring.placeCall (h : e.Glaring ctx peer) {dest : String}
    (hmine : e.side.mine k = none) (htheirs : e.side.theirs k = none)
    (hdest : e.identityOf dest = peer) (hout : e.out = []) : (e.placeCall k dest).Glaring ctx peer ∧
      (e.placeCall k dest).side = { e.side with mine := Function.update e.side.mine k (some .live) } ∧
      Notes ctx.device (e.placeCall k dest) [.invite k] := by
  have hnew : k ∉ e.sessions := by
    rw [Dict.mem_iff_lookup, lookup_of_side hmine htheirs]
    simp
  let s : Session := { id := k, role := .initiator, state := .inviting, peer := dest, inviteTo := dest }
  have hearly : s.Early e peer := ⟨.inl rfl, congrArg some hdest⟩
  have hput := h.put hearly
  unfold Endpoint.placeCall
  rw [if_neg hnew]
  obtain ⟨hsessions, -, hcontacts, hsent, hsetting⟩ := startTimer_frame
    ((e.put s).send (.invite dest k ((e.put s).contacts.heldGrantFor (e.put s).now
      ((e.put s).identityOf dest)))) s .establish e.tEstablish
  refine ⟨?_, ?_, ?_⟩
  · refine hput.of_apart hsetting hcontacts (hput.keyed.congr hsessions) fun l t ht => ?_
    exact hput.early l t (hsessions ▸ ht)
  · refine (side_congr hsessions).trans ((side_put e s).trans ?_)
    have hsame : Function.update e.side.theirs k (lifeOf .responder (some s)) = e.side.theirs := by
      rw [Function.update_eq_self_iff]
      exact htheirs.symm
    exact Side.ext rfl hsame
  · apply notes_of_sends
    · refine (congrArg contactEmits hsent).trans ?_
      simp [contactEmits, hout]
    · refine (congrArg sends hsent) ▸ ?_
      simp only [send_eq, emit_frame, put_frame, hout]
      exact .cons .invite .nil

theorem Glaring.advance (h : e.Glaring ctx peer) {seconds : Nat}
    (hidle : ∀ t ∈ e.timers, e.now + seconds < t.deadline) :
    e.advance seconds = .ok { e with now := e.now + seconds } := by
  have hnone : (e.instants.filter (· ≤ e.now + seconds)).min? = none := by
    rw [List.min?_eq_none_iff, List.filter_eq_nil_iff]
    intro n hn
    unfold instants at hn
    rw [h.contacts] at hn
    have hn' : n ∈ e.timers.map (·.deadline) := by
      rcases List.mem_append.mp hn with hn | hn
      · exact (List.mem_append.mp hn).resolve_right (fun hgrant => by cases hgrant)
      · cases hn
    obtain ⟨t, ht, rfl⟩ := List.mem_map.mp hn'
    simpa using hidle t ht
  unfold Endpoint.advance
  rw [advanceUntil.eq_def]
  dsimp only
  rw [hnone]

theorem Glaring.clock (h : e.Glaring ctx peer) (now : Nat) : { e with now := now }.Glaring ctx peer :=
  ⟨h.setting, h.contacts, h.keyed, h.early, h.admits⟩

theorem Glaring.not_refuses (h : e.Glaring ctx peer) : e.refuses peer = false := by
  unfold refuses
  rw [h.contacts]
  cases hrequired : ctx.firstContactRequired with
  | false => simp [Contacts.new, hrequired]
  | true => simp [Contacts.new, h.admits hrequired]

theorem Glaring.withdrawn (h : e.Glaring ctx peer) :
    ((e.rivals peer).foldl withdraw e).Glaring ctx peer ∧ ((e.rivals peer).foldl withdraw e).side =
        ⟨fun l => if e.side.mine l = some .live then some .over else e.side.mine l, e.side.theirs⟩ := by
  -- a live record of ours is stored anew, every other is left alone
  have hlookup : ∀ l, (∃ r, e.side.mine l = some .live ∧ r.role = .initiator ∧ e.sessions.lookup l = some r ∧
        ((e.rivals peer).foldl withdraw e).sessions.lookup l = some r.lose) ∨
      (e.side.mine l ≠ some .live ∧
        ((e.rivals peer).foldl withdraw e).sessions.lookup l = e.sessions.lookup l) := by
    intro l
    by_cases hl : e.side.mine l = some .live
    · obtain ⟨r, hr, rfl, hlose⟩ := withdrawn_over (e.rivals peer) ((mem_rivals_iff h).mpr hl) e
      obtain ⟨hheld, hrole, -⟩ := (mem_rivals h.keyed).mp hr
      exact .inl ⟨r, hl, hrole, hheld, hlose⟩
    · refine .inr ⟨hl, ?_⟩
      rcases withdrawn_lookup (e.rivals peer) l e with hsame | ⟨r, hr, hid, -⟩
      · exact hsame
      · exact absurd ((mem_rivals_iff h).mp (List.mem_map.mpr ⟨r, hr, hid⟩)) hl
  constructor
  · refine h.of_apart (withdrawn_out _ e).2 (apart_withdrawn _ e).contacts (h.keyed.of_withdrawn _)
      fun l t ht => ?_
    rcases hlookup l with ⟨r, -, hrole, hheld, hlose⟩ | ⟨-, hsame⟩
    · obtain rfl := Option.some.inj (hlose.symm.trans ht)
      have hearly := h.early l r hheld
      unfold Session.Early at hearly ⊢
      rw [hrole] at hearly
      rw [show r.lose.role = .initiator from hrole]
      exact ⟨.inr rfl, hearly.2⟩
    · exact h.early l t (hsame.symm.trans ht)
  · refine Side.ext (funext fun l => ?_) (funext fun l => ?_)
    · dsimp only
      rcases hlookup l with ⟨r, hlive, hrole, -, hlose⟩ | ⟨hlive, hsame⟩
      · rw [if_pos hlive]
        exact lifeOf_over.mpr ⟨r.lose, hlose, hrole, rfl⟩
      · rw [if_neg hlive]
        exact congrArg (lifeOf .initiator) hsame
    · rcases hlookup l with ⟨r, -, hrole, hheld, hlose⟩ | ⟨-, hsame⟩
      · simp [side, lifeOf, hheld, hlose, Session.lose, hrole]
      · exact congrArg (lifeOf .responder) hsame

variable {m : Msg}

theorem Glaring.yields (h : e.Glaring ctx peer) (dest : Option String)
    (expiresAt : Option Nat) (hmine : e.side.mine m.id = none) (hout : e.out = [])
    (hleast : ∀ r ∈ e.rivals peer, m.id < r.id) :
    (((e.rivals peer).foldl withdraw e).offer m dest expiresAt).Glaring ctx peer ∧
      e.side.Receives (.invite m.id) (((e.rivals peer).foldl withdraw e).offer m dest expiresAt).side
        (((e.rivals peer).map (·.id)).map .cancel) ∧
      Notes ctx.device (((e.rivals peer).foldl withdraw e).offer m dest expiresAt)
        (((e.rivals peer).map (·.id)).map .cancel) := by
  obtain ⟨hglaring, hside⟩ := h.withdrawn
  obtain ⟨hsends, -⟩ := withdrawn_out (e.rivals peer) e
  have hapart := (apart_withdrawn (e.rivals peer) e).trans (apart_offer _ m dest expiresAt)
  generalize (e.rivals peer).foldl withdraw e = e₁ at hglaring hside hsends hapart ⊢
  let s : Session :=
    { id := m.id, role := .responder, state := .offered, peer := m.sender, inviteTo := dest,
      inviteExpiresAt := expiresAt }
  have hput := hglaring.put (s := s) (.inl rfl)
  have hoffered : (e₁.offer m dest expiresAt).side =
      ⟨fun l => if e.side.mine l = some .live then some .over else e.side.mine l,
        Function.update e.side.theirs m.id (some .live)⟩ := by
    refine (side_put e₁ s).trans ?_
    rw [hside]
    refine Side.ext (Function.update_eq_self_iff.mpr ?_) rfl
    show none = if e.side.mine m.id = some .live then some .over else e.side.mine m.id
    rw [hmine]
    rfl
  refine ⟨hput.of_apart rfl rfl hput.keyed hput.early, ?_, ?_⟩
  · rw [hoffered]
    refine .yields (fun l => mem_rivals_iff h) (nodup_rivals h.keyed peer) fun l hl => ?_
    obtain ⟨r, hr, rfl⟩ := List.mem_map.mp hl
    exact hleast r hr
  · apply notes_of_sends
    · rw [hapart.silent, hout]
      rfl
    · simp only [offer, emit_frame, put_frame, sends_append, hsends, hout]
      simp only [List.map_map, sends_nil, List.nil_append, sends_cons, Emit.toSend, Option.toList_none,
        List.append_nil, List.forall₂_map_right_iff, List.forall₂_map_left_iff]
      exact List.forall₂_same.mpr fun r _ => .cancel

theorem Glaring.wins (h : e.Glaring ctx peer) (hmine : e.side.mine m.id = none)
    (hout : e.out = []) (reason : String) {first : Session} (hfirst : first ∈ e.rivals peer)
    (hlt : first.id < m.id) : (e.refuseInvite m reason).Glaring ctx peer ∧
      e.side.Receives (.invite m.id) (e.refuseInvite m reason).side [.reject m.id] ∧
      Notes ctx.device (e.refuseInvite m reason) [.reject m.id] := by
  let s : Session := { id := m.id, role := .responder, state := .ended, peer := m.sender }
  have hput := h.put (s := s) (.inr rfl)
  have hlive : e.side.mine first.id = some .live :=
    (mem_rivals_iff h).mp (List.mem_map.mpr ⟨first, hfirst, rfl⟩)
  have hside : (e.refuseInvite m reason).side =
      { e.side with theirs := Function.update e.side.theirs m.id (some .over) } := by
    refine (side_put (e.send _) s).trans (Side.ext ?_ rfl)
    exact Function.update_eq_self_iff.mpr hmine.symm
  refine ⟨hput.of_apart rfl rfl hput.keyed hput.early, ?_, ?_⟩
  · rw [hside]
    exact .wins hlive hlt
  · apply notes_of_sends
    · rw [(apart_refuseInvite e m reason).silent, hout]
      rfl
    · simp only [refuseInvite, send_eq, emit_frame, put_frame, hout]
      exact .cons .reject .nil

theorem Glaring.recvInvite (h : e.Glaring ctx peer) (dest : Option String)
    (expiresAt : Option Nat) (hm : e.identityOf m.sender = peer) (hmine : e.side.mine m.id = none)
    (htheirs : e.side.theirs m.id = none) (hout : e.out = []) :
    ∃ notes, (e.recvInvite m dest expiresAt).Glaring ctx peer ∧
      e.side.Receives (.invite m.id) (e.recvInvite m dest expiresAt).side notes ∧
      Notes ctx.device (e.recvInvite m dest expiresAt) notes := by
  have ho := recvInvite_outcome e m dest expiresAt
  generalize e.recvInvite m dest expiresAt = e' at ho ⊢
  cases ho with
  | @rejected reason hrejects =>
    rcases hrejects with hrefuses | ⟨first, hfirst, hlt⟩
    · rw [hm, h.not_refuses] at hrefuses
      cases hrefuses
    · rw [hm] at hfirst
      exact ⟨_, h.wins hmine hout reason (List.mem_of_mem_head? hfirst) hlt⟩
  | repeated _ _ hs =>
    rw [lookup_of_side hmine htheirs] at hs
    cases hs
  | offered _ hrivals =>
    rw [hm] at hrivals
    have hyields := h.yields dest expiresAt hmine hout (by simp [hrivals])
    rw [hrivals] at hyields
    exact ⟨_, hyields⟩
  | @tied first rest _ hrivals hid =>
    rw [hm] at hrivals
    have hlive : e.side.mine first.id = some .live :=
      (mem_rivals_iff h).mp (by rw [hrivals]; exact List.mem_cons_self)
    rw [hid, hmine] at hlive
    cases hlive
  | @lost first rest _ hrivals hlt =>
    rw [hm] at hrivals
    have hyields := h.yields dest expiresAt hmine hout (by
      rw [hrivals]
      exact fun r hr => lt_of_lt_of_le hlt (first_rival_least hrivals r hr))
    rw [hrivals] at hyields
    exact ⟨_, hyields⟩

/-- A message that ends the record it is about, if it has not ended. -/
def Ends (m : Msg) (body : SessionBody) (s : Session) : Prop :=
  (s.recv m body = { record := s } ∧ s.state = .ended) ∨ s.recv m body = { record := s.close }

theorem Glaring.recvOver (h : e.Glaring ctx peer) {body : SessionBody} {s : Session}
    (hk : m.session = some k) (hs : e.sessions.lookup k = some s) (hout : e.out = [])
    (hends : Ends m body s) (hrecv : e.recvSession m body = .ok e') :
    e'.Glaring ctx peer ∧ Notes ctx.device e' [] ∧ ∃ s', s'.role = s.role ∧ s'.state = .ended ∧
        e'.side = ⟨Function.update e.side.mine k (lifeOf .initiator (some s')),
          Function.update e.side.theirs k (lifeOf .responder (some s'))⟩ := by
  have hid := h.keyed k s hs
  obtain ⟨hrole, hended, hsends, hinvite⟩ : (s.recv m body).record.role = s.role ∧
      (s.recv m body).record.state = .ended ∧ (s.recv m body).sends = [] ∧
      (s.recv m body).record.inviteTo = s.inviteTo := by
    rcases hends with ⟨heff, hst⟩ | heff <;> rw [heff]
    · exact ⟨rfl, hst, rfl, rfl⟩
    · exact ⟨rfl, rfl, rfl, rfl⟩
  cases recvSession_outcome hrecv with
  | introduction hanswers =>
    obtain ⟨_, _, _, _, _, hmem⟩ := hanswers
    rw [h.contacts] at hmem
    cases hmem
  | unknown hno => exact absurd (Dict.mem_iff_lookup.mpr ⟨s, hs⟩) (hno k hk)
  | @held sid s' _ _ hm hs' hd =>
    obtain rfl := Option.some.inj (hk.symm.trans hm)
    obtain rfl := Option.some.inj (hs.symm.trans hs')
    have hdid := hd hid
    have hlookup : ∀ l, e'.sessions.lookup l =
        if l = k then some (s.recv m body).record else e.sessions.lookup l := by
      intro l
      by_cases hl : l = k
      · rw [if_pos hl, hl, hdid.record]
      · rw [if_neg hl, hdid.only.sessions l hl]
    refine ⟨?_, ?_, (s.recv m body).record, hrole, hended, ?_⟩
    · refine h.of_apart hdid.only.setting hdid.only.contacts
        (h.keyed.did hdid ((s.recv_id m body).trans hid)) fun l t ht => ?_
      rw [hlookup] at ht
      split at ht
      case isFalse => exact h.early l t ht
      case isTrue =>
        obtain rfl := Option.some.inj ht
        have hearly := h.early k s hs
        unfold Session.Early at hearly ⊢
        rw [hrole, hended, hinvite]
        cases hr : s.role with
        | initiator =>
          rw [hr] at hearly
          exact ⟨.inr rfl, hearly.2⟩
        | responder => exact .inr rfl
    · apply notes_of_sends
      · rw [hdid.only.silent, hout]
        rfl
      · rw [hdid.sends, hsends, hout]
        exact .nil
    · refine Side.ext (funext fun l => ?_) (funext fun l => ?_)
      all_goals
        simp only [side, hlookup, Function.update_apply]
        split <;> rfl

theorem lookup_of_life {role : Role} (h : lifeOf role (e.sessions.lookup k) ≠ none) :
    ∃ s, e.sessions.lookup k = some s ∧ s.role = role := by
  obtain ⟨life, hlife⟩ := Option.ne_none_iff_exists'.mp h
  obtain ⟨s, hs, hrole⟩ := Option.bind_eq_some_iff.mp hlife
  refine ⟨s, hs, ?_⟩
  by_contra hne
  rw [if_neg hne] at hrole
  cases hrole

theorem Glaring.recvCancel (h : e.Glaring ctx peer) {token : String}
    (hk : m.session = some k) (htheirs : e.side.theirs k ≠ none) (hout : e.out = [])
    (hrecv : e.recvSession m (.cancel token) = .ok e') :
    e'.Glaring ctx peer ∧ e.side.Receives (.cancel k) e'.side [] ∧ Notes ctx.device e' [] := by
  obtain ⟨s, hs, hrole⟩ := lookup_of_life htheirs
  have hends : Ends m (.cancel token) s := by
    have hearly := h.early k s hs
    unfold Session.Early at hearly
    rw [hrole] at hearly
    unfold Ends Session.recv
    rcases hearly with hst | hst
    · rw [if_neg (by simp [hst]), s.observe_cancel]
      right
      simp only [Session.react, hrole, hst]
    · rw [if_pos hst]
      left
      exact ⟨by simp only [Session.reactLate, hrole], hst⟩
  obtain ⟨hglaring, hnotes, s', hrole', hended, hside⟩ := h.recvOver hk hs hout hends hrecv
  refine ⟨hglaring, ?_, hnotes⟩
  have hover : lifeOf .responder (some s') = some .over := lifeOf_over.mpr ⟨s', rfl, hrole'.trans hrole, hended⟩
  have hmine : lifeOf .initiator (some s') = e.side.mine k := by
    simp [side, lifeOf, hs, hrole, hrole'.trans hrole]
  rw [hside, hover, Function.update_eq_self_iff.mpr hmine]
  exact .cancel

theorem Glaring.recvReject (h : e.Glaring ctx peer) {token : String}
    (hk : m.session = some k) (hmine : e.side.mine k ≠ none) (hout : e.out = [])
    (hrecv : e.recvSession m (.reject token none) = .ok e') :
    e'.Glaring ctx peer ∧ e.side.Receives (.reject k) e'.side [] ∧ Notes ctx.device e' [] := by
  obtain ⟨s, hs, hrole⟩ := lookup_of_life hmine
  have hends : Ends m (.reject token none) s := by
    have hearly := h.early k s hs
    unfold Session.Early at hearly
    rw [hrole] at hearly
    unfold Ends Session.recv
    rcases hearly.1 with hst | hst
    · rw [if_neg (by simp [hst]), s.observe_initiator hrole]
      right
      simp only [Session.react]
      rw [if_pos ⟨hrole, .inl hst⟩]
    · rw [if_pos hst]
      left
      exact ⟨by simp only [Session.reactLate, hrole], hst⟩
  obtain ⟨hglaring, hnotes, s', hrole', hended, hside⟩ := h.recvOver hk hs hout hends hrecv
  refine ⟨hglaring, ?_, hnotes⟩
  have hover : lifeOf .initiator (some s') = some .over := lifeOf_over.mpr ⟨s', rfl, hrole'.trans hrole, hended⟩
  have htheirs : lifeOf .responder (some s') = e.side.theirs k := by
    simp [side, lifeOf, hs, hrole, hrole'.trans hrole]
  have hsame : Function.update e.side.theirs k (lifeOf .responder (some s')) = e.side.theirs :=
    Function.update_eq_self_iff.mpr htheirs
  rw [hside, hover, hsame]
  exact .reject

theorem Glaring.receive (h : e.Glaring ctx peer) {w : Wire} {n : Note String} {stamp : Stamp}
    {sent : List Wire} (hn : IsNote w.sender w n) (hpeer : e.identityOf w.sender = peer) (hexpects : e.side.Expects n)
    (hrecv : party.recv e stamp w = .ok (e', sent)) :
    ∃ notes, e'.Glaring ctx peer ∧ e.side.Receives n e'.side notes ∧
      List.Forall₂ (IsNote ctx.device) sent notes := by
  obtain ⟨hperform, hsent⟩ := post_ok hrecv
  have hstart : { e with out := [] }.Glaring ctx peer := ⟨h.setting, h.contacts, h.keyed, h.early, h.admits⟩
  rw [hsent, h.device]
  obtain ⟨sender, letter⟩ := w
  cases hn with
  | @invite dest k grant =>
    cases hperform
    exact hstart.recvInvite (m := ⟨k, sender, none, .invite dest stamp.expiresAt⟩) dest stamp.expiresAt
      hpeer hexpects.1 hexpects.2 rfl
  | cancel => exact ⟨[], hstart.recvCancel rfl hexpects rfl hperform⟩
  | reject => exact ⟨[], hstart.recvReject rfl hexpects rfl hperform⟩

end Endpoint

end Dsip.Engine
