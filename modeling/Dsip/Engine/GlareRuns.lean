import Dsip.Engine.Glare

/-!
# Two endpoints that call each other

Both owners place any number of calls to the other side, under ids used once,
and the network delivers in order. Whatever the interleaving, the invite with the
smallest id wins. It is the smallest of all that were placed: an invite placed
later, under a smaller id, withdraws the winner of a glare that was settled.
-/

namespace Dsip.Engine

open Dsip.Lib Dsip.Lib.Crossing

namespace Endpoint

variable {e e' : Endpoint} {ctx : Context} {peer : String}

/-- What an owner may do: call the other side, or let time pass in which no timer
expires. -/
def OnlyCalls (e : Endpoint) (peer : String) : Event → Prop
  | .placeCall _ dest => e.identityOf dest = peer
  | .advance seconds => ∀ t ∈ e.timers, e.now + seconds < t.deadline
  | _ => False

instance (e : Endpoint) (peer : String) : DecidablePred (e.OnlyCalls peer)
  | .placeCall .. => inferInstanceAs (Decidable (_ = _))
  | .advance _ => inferInstanceAs (Decidable (∀ _ ∈ _, _))
  | .recv _ | .introduce .. | .grant .. | .regrant .. | .rejectIntroduction .. | .revoke _
  | .issueToken .. | .call .. => isFalse id

/-- The id of the call an event places. -/
def callOf : Event → Option String
  | .placeCall k _ => some k
  | _ => none

theorem Glaring.act (h : e.Glaring ctx peer) {event : Event} {sent : List Wire} (hc : e.OnlyCalls peer event)
    (hnew : ∀ k, callOf event = some k → e.side.mine k = none ∧ e.side.theirs k = none)
    (hact : e.post event = .ok (e', sent)) :
    e'.Glaring ctx peer ∧
      match callOf event with
      | some k => e'.side = { e.side with mine := Function.update e.side.mine k (some .live) } ∧
          List.Forall₂ (IsNote ctx.device) sent [.invite k]
      | none => e'.side = e.side ∧ sent = [] := by
  obtain ⟨hperform, hsent⟩ := post_ok hact
  have hstart : { e with out := [] }.Glaring ctx peer := ⟨h.setting, h.contacts, h.keyed, h.early, h.admits⟩
  cases event
  case placeCall k dest =>
    obtain ⟨hmine, htheirs⟩ := hnew k rfl
    obtain ⟨hglaring, hside, hnotes⟩ := hstart.placeCall hmine htheirs hc rfl
    cases hperform
    refine ⟨hglaring, hside, ?_⟩
    rw [hsent, h.device]
    exact hnotes
  case advance seconds =>
    have hadvance := hstart.advance hc
    obtain rfl := Except.ok.inj (hadvance.symm.trans hperform)
    exact ⟨hstart.clock _, rfl, hsent⟩
  all_goals cases hc

/-! ## One end of the link -/

section End

variable {y : Side String} {there back : List (Note String)} {chan sent : List Wire}

theorem Glaring.acts (h : e.Glaring ctx peer) (hinv : Inv ⟨e.side, y, there, back⟩)
    (hthere : List.Forall₂ (IsNote ctx.device) chan there) {event : Event} (hc : e.OnlyCalls peer event)
    (hnew : ∀ k, callOf event = some k → e.side.mine k = none ∧ y.mine k = none)
    (hact : e.post event = .ok (e', sent)) : e'.Glaring ctx peer ∧
      (∃ there', List.Forall₂ (IsNote ctx.device) (chan ++ sent) there' ∧ Inv ⟨e'.side, y, there', back⟩) ∧
      ∀ k, e'.side.mine k ≠ none ↔ e.side.mine k ≠ none ∨ callOf event = some k := by
  have hfree : ∀ k, callOf event = some k → e.side.mine k = none ∧ e.side.theirs k = none := by
    intro k hk
    obtain ⟨hmine, hother⟩ := hnew k hk
    exact ⟨hmine, (hinv.unplaced hmine hother).1⟩
  obtain ⟨hglaring, hside⟩ := h.act hc hfree hact
  refine ⟨hglaring, ?_⟩
  cases hk : callOf event with
  | none =>
    rw [hk] at hside
    rw [hside.1, hside.2, List.append_nil]
    exact ⟨⟨there, hthere, hinv⟩, by simp⟩
  | some k =>
    rw [hk] at hside
    obtain ⟨hmine, hother⟩ := hnew k hk
    rw [hside.1]
    refine ⟨⟨there ++ [.invite k], List.rel_append hthere hside.2, hinv.invite hmine hother⟩, fun l => ?_⟩
    by_cases hl : l = k
    · subst hl
      simp
    · simp [Function.update_of_ne hl, Ne.symm hl]

theorem Glaring.reads (h : e.Glaring ctx peer) {n : Note String} {rest : List (Note String)}
    (hinv : Inv ⟨e.side, y, there, n :: rest⟩) (hthere : List.Forall₂ (IsNote ctx.device) chan there)
    {w : Wire} {device : String} {stamp : Stamp} (hn : IsNote device w n)
    (hpeer : (Endpoint.new ctx).identityOf device = peer) (hrecv : party.recv e stamp w = .ok (e', sent)) :
    e'.Glaring ctx peer ∧
      (∃ there', List.Forall₂ (IsNote ctx.device) (chan ++ sent) there' ∧ Inv ⟨e'.side, y, there', rest⟩) ∧
      ∀ k, e'.side.mine k ≠ none ↔ e.side.mine k ≠ none := by
  have hexpects := hinv.expects rfl
  have hsender : w.sender = device := by cases hn <;> rfl
  rw [← hsender] at hn hpeer
  rw [← identityOf_congr h.setting] at hpeer
  obtain ⟨notes, hglaring, hreceives, hnotes⟩ := h.receive hn hpeer hexpects hrecv
  exact ⟨hglaring, ⟨there ++ notes, List.rel_append hthere hnotes, hinv.step (.receive rfl hreceives)⟩,
    hreceives.mine_iff hexpects⟩

end End

end Endpoint

namespace Link

/-- The invites placed by the left owner, oldest first. -/
def leftCalls (tr : Trace) : List String := tr.filterMap fun p =>
  match p.1 with
  | .left event => Endpoint.callOf event
  | _ => none

def rightCalls (tr : Trace) : List String := tr.filterMap fun p =>
  match p.1 with
  | .right event => Endpoint.callOf event
  | _ => none

/-- Either owner only calls the other, under ids that were not used. -/
def OnlyCalls (tr : Trace) (s : Link) : Input → Prop
  | .left event => s.left.OnlyCalls s.right.identity event ∧
      ∀ k ∈ Endpoint.callOf event, k ∉ leftCalls tr ∧ k ∉ rightCalls tr
  | .right event => s.right.OnlyCalls s.left.identity event ∧
      ∀ k ∈ Endpoint.callOf event, k ∉ leftCalls tr ∧ k ∉ rightCalls tr
  | .deliverLeft _ | .deliverRight _ => True

instance (tr : Trace) (s : Link) : DecidablePred (OnlyCalls tr s)
  | .left _ => inferInstanceAs (Decidable (_ ∧ _))
  | .right _ => inferInstanceAs (Decidable (_ ∧ _))
  | .deliverLeft _ | .deliverRight _ => isTrue trivial

/-- Each end takes the other's device for the other's identity, and policy lets
that identity in. -/
structure Acquainted (a b : Context) : Prop where
  knows : (Endpoint.new a).identityOf b.device = b.identity
  admits : a.firstContactRequired = true → b.identity ∈ a.allow

/-- Both ends and what is in flight, as a pair of sides. -/
structure Crossed (a b : Context) (tr : Trace) (s : Link) : Prop where
  left : s.left.Glaring a b.identity
  right : s.right.Glaring b a.identity
  notes : ∃ there back, List.Forall₂ (IsNote a.device) s.toRight there ∧
    List.Forall₂ (IsNote b.device) s.toLeft back ∧ Inv ⟨s.left.side, s.right.side, there, back⟩
  placedLeft : ∀ k, s.left.side.mine k ≠ none ↔ k ∈ leftCalls tr
  placedRight : ∀ k, s.right.side.mine k ≠ none ↔ k ∈ rightCalls tr

variable {a b : Context} {tr : Trace} {s t : Link} {i : Input} {o : Output}

theorem mem_leftCalls_snoc {k : String} : k ∈ leftCalls (tr ++ [(i, o)]) ↔
    k ∈ leftCalls tr ∨ ∃ event, i = .left event ∧ Endpoint.callOf event = some k := by
  unfold leftCalls
  rw [List.filterMap_append, List.mem_append]
  cases i <;> simp

theorem mem_rightCalls_snoc {k : String} : k ∈ rightCalls (tr ++ [(i, o)]) ↔
    k ∈ rightCalls tr ∨ ∃ event, i = .right event ∧ Endpoint.callOf event = some k := by
  unfold rightCalls
  rw [List.filterMap_append, List.mem_append]
  cases i <;> simp

theorem crossed_start (hab : Acquainted a b) (hba : Acquainted b a) :
    Crossed a b [] ⟨.new a, .new b, [], []⟩ where
  left := Endpoint.glaring_new hab.admits
  right := Endpoint.glaring_new hba.admits
  notes := ⟨[], [], .nil, .nil, inv_start⟩
  placedLeft _ := iff_of_false (fun h => h rfl) List.not_mem_nil
  placedRight _ := iff_of_false (fun h => h rfl) List.not_mem_nil

theorem Crossed.step (hab : Acquainted a b) (hba : Acquainted b a) (h : Crossed a b tr s)
    (hc : OnlyCalls tr s i) (hstep : system.step s i o t) : Crossed a b (tr ++ [(i, o)]) t := by
  obtain ⟨there, back, hthere, hback, hinv⟩ := h.notes
  have hunused : ∀ k, k ∉ leftCalls tr ∧ k ∉ rightCalls tr →
      s.left.side.mine k = none ∧ s.right.side.mine k = none := by
    rintro k ⟨hl, hr⟩
    exact ⟨not_not.mp fun hmine => hl ((h.placedLeft k).mp hmine),
      not_not.mp fun hmine => hr ((h.placedRight k).mp hmine)⟩
  cases Duplex.move_of_step hstep with
  | @left event l sent hact =>
    obtain ⟨hcalls, hnew⟩ := hc
    rw [show s.right.identity = b.identity from congrArg Setting.identity h.right.setting] at hcalls
    obtain ⟨hglaring, ⟨there', hthere', hinv'⟩, hplaced⟩ :=
      h.left.acts hinv hthere hcalls (fun k hk => hunused k (hnew k hk)) hact
    refine ⟨hglaring, h.right, ⟨there', back, hthere', hback, hinv'⟩, fun k => ?_, fun k => ?_⟩
    · rw [mem_leftCalls_snoc, hplaced, h.placedLeft k]
      simp
    · rw [mem_rightCalls_snoc, ← h.placedRight k]
      simp
  | @right event r sent hact =>
    obtain ⟨hcalls, hnew⟩ := hc
    rw [show s.left.identity = a.identity from congrArg Setting.identity h.left.setting] at hcalls
    obtain ⟨hglaring, ⟨back', hback', hinv'⟩, hplaced⟩ :=
      h.right.acts hinv.swap hback hcalls (fun k hk => (hunused k (hnew k hk)).symm) hact
    refine ⟨h.left, hglaring, ⟨there, back', hthere, hback', hinv'.swap⟩, fun k => ?_, fun k => ?_⟩
    · rw [mem_leftCalls_snoc, ← h.placedLeft k]
      simp
    · rw [mem_rightCalls_snoc, hplaced, h.placedRight k]
      simp
  | @deliverLeft d w rest l sent hw hrecv =>
    rw [hw] at hback
    cases hback with
    | cons hn hrest =>
      obtain ⟨hglaring, ⟨there', hthere', hinv'⟩, hplaced⟩ := h.left.reads hinv hthere hn hab.knows hrecv
      refine ⟨hglaring, h.right, ⟨there', _, hthere', hrest, hinv'⟩, fun k => ?_, fun k => ?_⟩
      · rw [mem_leftCalls_snoc, hplaced, h.placedLeft k]
        simp
      · rw [mem_rightCalls_snoc, ← h.placedRight k]
        simp
  | @deliverRight d w rest r sent hw hrecv =>
    rw [hw] at hthere
    cases hthere with
    | cons hn hrest =>
      obtain ⟨hglaring, ⟨back', hback', hinv'⟩, hplaced⟩ := h.right.reads hinv.swap hback hn hba.knows hrecv
      refine ⟨h.left, hglaring, ⟨_, back', hrest, hback', hinv'.swap⟩, fun k => ?_, fun k => ?_⟩
      · rw [mem_leftCalls_snoc, ← h.placedLeft k]
        simp
      · rw [mem_rightCalls_snoc, hplaced, h.placedRight k]
        simp

theorem crossed_of_run (hab : Acquainted a b) (hba : Acquainted b a)
    (h : system.RunWhere OnlyCalls ⟨.new a, .new b, [], []⟩ tr s) : Crossed a b tr s :=
  h.invariant (P := Crossed a b) (crossed_start hab hba) fun _ _ _ _ _ _ hinv hc hs =>
    hinv.step hab hba hc hs

/-! ## What is left of the calls -/

/-- The record of an id at an endpoint. -/
def At (e : Endpoint) (k : String) (role : Role) (state : SessionState) : Prop :=
  ∃ s ∈ e.sessions.lookup k, s.role = role ∧ s.state = state

instance (e : Endpoint) (k : String) (role : Role) (state : SessionState) : Decidable (At e k role state) :=
  inferInstanceAs (Decidable (∃ s ∈ _, _))

/-- INVITING at its initiator and OFFERED at the other side. -/
def Held (x y : Endpoint) (k : String) : Prop := At x k .initiator .inviting ∧ At y k .responder .offered

def Lost (x y : Endpoint) (k : String) : Prop := At x k .initiator .ended ∧ At y k .responder .ended

/-- No invite is in flight on a channel. -/
def Delivered (chan : List Wire) : Prop :=
  ∀ w ∈ chan, ∀ dest k grant, w.letter ≠ .session (.invite dest k grant)

/-- Of all invites placed so far, the smallest. -/
def Smallest (tr : Trace) (w : String) : Prop := ∀ k ∈ leftCalls tr ++ rightCalls tr, w ≤ k

theorem delivered_notes {device : String} {chan : List Wire} {notes : List (Note String)}
    (h : List.Forall₂ (IsNote device) chan notes) (hd : Delivered chan) : ∀ k, .invite k ∉ notes := by
  intro k hk
  obtain ⟨w, hw, hn⟩ := Duplex.exists_of_mem_left h.flip hk
  obtain ⟨sender, letter⟩ := w
  cases hn
  exact hd _ hw _ _ _ rfl

section Settled

variable {x y : Endpoint} {ctx ctx' : Context} {peer peer' k : String}

theorem held_of_live (hx : x.Glaring ctx peer) (hy : y.Glaring ctx' peer')
    (h : x.side.mine k = some .live ∧ y.side.theirs k = some .live) : Held x y k := by
  obtain ⟨s, hs, hrole, hst⟩ := (Endpoint.mine_live hx).mp h.1
  obtain ⟨s', hs', hrole', hst'⟩ := (Endpoint.theirs_live hy).mp h.2
  exact ⟨⟨s, hs, hrole, hst⟩, s', hs', hrole', hst'⟩

theorem live_of_held (hx : x.Glaring ctx peer) (hy : y.Glaring ctx' peer') (h : Held x y k) :
    x.side.mine k = some .live ∧ y.side.theirs k = some .live := by
  obtain ⟨⟨s, hs, hrole, hst⟩, s', hs', hrole', hst'⟩ := h
  exact ⟨(Endpoint.mine_live hx).mpr ⟨s, hs, hrole, hst⟩, (Endpoint.theirs_live hy).mpr ⟨s', hs', hrole', hst'⟩⟩

theorem lost_of_over (h : x.side.mine k = some .over ∧ y.side.theirs k = some .over) : Lost x y k := by
  obtain ⟨s, hs, hrole, hst⟩ := Endpoint.lifeOf_over.mp h.1
  obtain ⟨s', hs', hrole', hst'⟩ := Endpoint.lifeOf_over.mp h.2
  exact ⟨⟨s, hs, hrole, hst⟩, s', hs', hrole', hst'⟩

end Settled

theorem Crossed.placed (h : Crossed a b tr s) {there back : List (Note String)} {k : String} :
    Placed ⟨s.left.side, s.right.side, there, back⟩ k ↔ k ∈ leftCalls tr ++ rightCalls tr := by
  rw [List.mem_append, ← h.placedLeft, ← h.placedRight]
  rfl

/-- **Glare is settled by the smallest id.** Two endpoints whose owners only call
each other, under ids used once, while no timer expires: once every invite has
been delivered, the invite with the smallest id of all is held by both sides; and
with nothing in flight every invite is held by both sides or has ended at both,
and every invite of the side that lost has ended at both. -/
theorem glare_settled (hab : Acquainted a b) (hba : Acquainted b a)
    (h : system.RunWhere OnlyCalls ⟨.new a, .new b, [], []⟩ tr s) :
    (Delivered s.toRight → Delivered s.toLeft → ∀ w, Smallest tr w →
      (w ∈ leftCalls tr → Held s.left s.right w) ∧ (w ∈ rightCalls tr → Held s.right s.left w)) ∧
      (s.toRight = [] → s.toLeft = [] → (∀ k ∈ leftCalls tr, Held s.left s.right k ∨ Lost s.left s.right k) ∧
        (∀ k ∈ rightCalls tr, Held s.right s.left k ∨ Lost s.right s.left k) ∧
        ∀ w, Smallest tr w → (w ∈ leftCalls tr → ∀ k ∈ rightCalls tr, Lost s.right s.left k) ∧
          (w ∈ rightCalls tr → ∀ k ∈ leftCalls tr, Lost s.left s.right k)) := by
  have hcrossed := crossed_of_run hab hba h
  obtain ⟨there, back, hthere, hback, hinv⟩ := hcrossed.notes
  have hsmallest : ∀ w, Smallest tr w → ∀ k, Placed ⟨s.left.side, s.right.side, there, back⟩ k → w ≤ k :=
    fun w hw k hk => hw k (hcrossed.placed.mp hk)
  have hheld : (∀ k, .invite k ∉ there) → (∀ k, .invite k ∉ back) → ∀ w, Smallest tr w →
      (w ∈ leftCalls tr → Held s.left s.right w) ∧ (w ∈ rightCalls tr → Held s.right s.left w) := by
    intro hright hleft w hw
    refine ⟨fun hmem => ?_, fun hmem => ?_⟩
    · have hplaced := (hcrossed.placedLeft w).mpr hmem
      exact held_of_live hcrossed.left hcrossed.right (hinv.smallest hplaced (hsmallest w hw) hright)
    · have hplaced := (hcrossed.placedRight w).mpr hmem
      exact held_of_live hcrossed.right hcrossed.left
        (hinv.swap.smallest hplaced (fun k hk => hsmallest w hw k hk.symm) hleft)
  refine ⟨fun hright hleft => hheld (delivered_notes hthere hright) (delivered_notes hback hleft), ?_⟩
  intro hright hleft
  rw [hright, List.forall₂_nil_left_iff] at hthere
  rw [hleft, List.forall₂_nil_left_iff] at hback
  subst hthere hback
  have hwins := hheld (fun _ => List.not_mem_nil) (fun _ => List.not_mem_nil)
  refine ⟨fun k hk => ?_, fun k hk => ?_, fun w hw => ⟨fun hmem k hk => ?_, fun hmem k hk => ?_⟩⟩
  · have hagree := hinv.agree ((hcrossed.placedLeft k).mpr hk) rfl rfl
    exact hagree.imp (held_of_live hcrossed.left hcrossed.right) lost_of_over
  · have hagree := hinv.swap.agree ((hcrossed.placedRight k).mpr hk) rfl rfl
    exact hagree.imp (held_of_live hcrossed.right hcrossed.left) lost_of_over
  · obtain ⟨hlive, hlive'⟩ := live_of_held hcrossed.left hcrossed.right ((hwins w hw).1 hmem)
    exact lost_of_over (hinv.lost hlive hlive' ((hcrossed.placedRight k).mpr hk) rfl rfl)
  · obtain ⟨hlive, hlive'⟩ := live_of_held hcrossed.right hcrossed.left ((hwins w hw).2 hmem)
    exact lost_of_over (hinv.swap.lost hlive hlive' ((hcrossed.placedLeft k).mpr hk) rfl rfl)

/-! ## Invites that crossed -/

def ann : Context :=
  { device := "did:ann:1", identity := "did:ann", identities := [("did:ben:1", "did:ben")] }

def ben : Context :=
  { device := "did:ben:1", identity := "did:ben", identities := [("did:ann:1", "did:ann")] }

theorem acquainted : Acquainted ann ben ∧ Acquainted ben ann := by
  refine ⟨⟨?_, ?_⟩, ?_, ?_⟩ <;> decide

/-- Each owner calls once before the other's invite arrives. -/
def glare : List Input :=
  [.left (.placeCall "5" "did:ben"), .right (.placeCall "3" "did:ann"), .deliverRight ⟨"", some 60⟩,
    .deliverLeft ⟨"", some 60⟩, .deliverRight ⟨"m-1", none⟩, .deliverLeft ⟨"m-2", none⟩]

/-- The smaller one is held, and the other one has ended. -/
theorem glare_settled_once : ∃ tr s, system.RunWhere OnlyCalls ⟨.new ann, .new ben, [], []⟩ tr s ∧
      Held s.right s.left "3" ∧ Lost s.left s.right "5" := by
  obtain ⟨tr, s, hrun, hp⟩ := TSys.exec?_runWhere (Duplex.step party party) OnlyCalls system.init
    ⟨.new ann, .new ben, [], []⟩ glare
    (fun r => decide (r.2.toRight = [] ∧ r.2.toLeft = [] ∧ leftCalls r.1 = ["5"] ∧ rightCalls r.1 = ["3"]))
    (by decide +kernel) (by decide +kernel)
  obtain ⟨hright, hleft, hcalls, hcalls'⟩ := of_decide_eq_true hp
  have hsmallest : Smallest tr "3" := by
    unfold Smallest
    rw [hcalls, hcalls']
    decide
  have hmem : "3" ∈ rightCalls tr := by rw [hcalls']; decide
  have hmem' : "5" ∈ leftCalls tr := by rw [hcalls]; decide
  obtain ⟨hheld, hrest⟩ := glare_settled acquainted.1 acquainted.2 hrun
  obtain ⟨-, -, hlost⟩ := hrest hright hleft
  refine ⟨tr, s, hrun, (hheld ?_ ?_ "3" hsmallest).2 hmem, (hlost "3" hsmallest).2 hmem "5" hmem'⟩
  · rw [hright]
    exact fun _ hw => absurd hw List.not_mem_nil
  · rw [hleft]
    exact fun _ hw => absurd hw List.not_mem_nil

/-- What happened to invites at one end, oldest first. -/
def inviteOf (w : Wire) : Option String :=
  match w.letter with
  | .session (.invite _ k _) => some k
  | _ => none

def leftLog (tr : Trace) : List (Direction × String) := tr.filterMap fun p =>
  match p with
  | (.left event, _) => (Endpoint.callOf event).map (.outbound, ·)
  | (_, .left (some w) _) => (inviteOf w).map (.inbound, ·)
  | _ => none

def rightLog (tr : Trace) : List (Direction × String) := tr.filterMap fun p =>
  match p with
  | (.right event, _) => (Endpoint.callOf event).map (.outbound, ·)
  | (_, .right (some w) _) => (inviteOf w).map (.inbound, ·)
  | _ => none

/-- Both were placed before the other one arrived. -/
def Cross (tr : Trace) (k l : String) : Prop :=
  (leftLog tr).idxOf (.outbound, k) < (leftLog tr).idxOf (.inbound, l) ∧
    (rightLog tr).idxOf (.outbound, l) < (rightLog tr).idxOf (.inbound, k)

instance (tr : Trace) (k l : String) : Decidable (Cross tr k l) := inferInstanceAs (Decidable (_ ∧ _))

/-- It crossed one of the other side. -/
def HasCrossed (tr : Trace) (k : String) : Prop :=
  (k ∈ leftCalls tr ∧ ∃ l ∈ rightCalls tr, Cross tr k l) ∨
    (k ∈ rightCalls tr ∧ ∃ l ∈ leftCalls tr, Cross tr l k)

instance (tr : Trace) : DecidablePred (HasCrossed tr) := fun _ => inferInstanceAs (Decidable (_ ∨ _))

/-- The left owner calls again, under a smaller id, when the glare is settled. -/
def glareUndone : List Input :=
  glare ++ [.left (.placeCall "2" "did:ben"), .deliverRight ⟨"", some 60⟩, .deliverLeft ⟨"m-3", none⟩]

/-- **The smallest of the invites that crossed can lose.** Nothing is in flight,
the invites "5" and "3" crossed and no other did, and "3" has ended. -/
theorem smallest_crossing_ended : ∃ tr s, system.RunWhere OnlyCalls ⟨.new ann, .new ben, [], []⟩ tr s ∧
      s.toRight = [] ∧ s.toLeft = [] ∧ Cross tr "5" "3" ∧
      (∀ k ∈ leftCalls tr ++ rightCalls tr, HasCrossed tr k → "3" ≤ k) ∧ Lost s.right s.left "3" := by
  obtain ⟨tr, s, hrun, hp⟩ := TSys.exec?_runWhere (Duplex.step party party) OnlyCalls system.init
    ⟨.new ann, .new ben, [], []⟩ glareUndone
    (fun r => decide (r.2.toRight = [] ∧ r.2.toLeft = [] ∧ Cross r.1 "5" "3" ∧
      (∀ k ∈ leftCalls r.1 ++ rightCalls r.1, HasCrossed r.1 k → "3" ≤ k) ∧ At r.2.right "3" .initiator .ended ∧
      At r.2.left "3" .responder .ended))
    (by decide +kernel) (by decide +kernel)
  obtain ⟨hright, hleft, hcross, hleast, hlost⟩ := of_decide_eq_true hp
  exact ⟨tr, s, hrun, hright, hleft, hcross, hleast, hlost⟩

end Link

end Dsip.Engine
