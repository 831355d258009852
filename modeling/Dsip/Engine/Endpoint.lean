import Dsip.Lib.TSys
import Dsip.Registry
import Dsip.Engine.Contacts

/-!
# The session state engine

One endpoint holds any number of sessions, as initiator or responder, a clock,
and the timers that bound every wait. It reads three kinds of events: the clock
moves on, a message arrives, the owner does something. Each is one `step`, which
returns what the endpoint emits on the way: messages, timer notices, media
commands, and what the owner is shown.

The order inside a function is the source's. A `Session` is a mutable object
there; here a function that changes one stores the changed record again.
-/

namespace Dsip.Engine

open Dsip.Lib Dsip.Registry

/-! ## Constants -/

def clamp (v : Nat) (bounds : Nat × Nat) : Nat := max bounds.1 (min bounds.2 v)

def tEstablishDefault : Nat := 15
def tEstablishBounds : Nat × Nat := (5, 60)
def tRingDefault : Nat := 120
def tRingBounds : Nat × Nat := (30, 300)
def tQueueCap : Nat := 1800
def tRingLocalDefault : Nat := 120
def tRingLocalBounds : Nat × Nat := (30, 300)
def tPresenceRotateDefault : Nat := 60
def tPresenceRotateBounds : Nat × Nat := (0, 3600)
def maxConsecutiveRequeues : Nat := 3
def knownInfoAbout : List String := ["transport:webrtc", "media:dtmf"]

theorem clamp_le (v : Nat) {bounds : Nat × Nat} (h : bounds.1 ≤ bounds.2) : clamp v bounds ≤ bounds.2 := by
  unfold clamp
  omega

/-! ## Sessions and timers -/

inductive Role where
  | initiator
  | responder
  deriving DecidableEq, Repr

inductive SessionState where
  | inviting
  | proceeding
  | offered
  | alerting
  | active
  | ended
  deriving DecidableEq, Repr

inductive Direction where
  | outbound
  | inbound
  deriving DecidableEq, Repr

/-- The one update of a session that waits for its answer. -/
structure Outstanding where
  id : String
  direction : Direction
  deriving DecidableEq, Repr

structure Session where
  id : String
  role : Role
  state : SessionState
  peer : String
  /-- Initiator: what the invite was addressed to. -/
  inviteTo : Option String := none
  inviteExpiresAt : Option Nat := none
  answeredDevice : Option String := none
  outstanding : Option Outstanding := none
  /-- Initiator: a cancel was sent. -/
  cancelled : Bool := false
  wasActive : Bool := false
  /-- Responder: an initiator message was observed after our answer. -/
  postAnswerSeen : Bool := false
  queueCount : Nat := 0
  deriving DecidableEq, Repr

def Session.Attempting (s : Session) : Prop := s.state = .inviting ∨ s.state = .proceeding

instance : DecidablePred Session.Attempting := fun _ => inferInstanceAs (Decidable (_ ∨ _))

inductive TimerName where
  | establish
  | ring
  | queue
  | ringLocal
  deriving DecidableEq, Repr

structure Timer where
  name : TimerName
  session : String
  deadline : Nat
  seq : Nat
  deriving DecidableEq, Repr

/-- By deadline, ties by start order. -/
def Timer.Before (t u : Timer) : Prop := t.deadline < u.deadline ∨ (t.deadline = u.deadline ∧ t.seq ≤ u.seq)

instance : DecidableRel Timer.Before := fun _ _ => inferInstanceAs (Decidable (_ ∨ _))

/-! ## Messages, events and emissions -/

/-- The bodies of the messages of a session. -/
inductive SessionBody where
  | progress (status : String) (ringTimeout queueTimeout : Option Nat)
  | answer (answeredBy : String) (inReplyTo : Option String)
  | reject (reason : String) (inReplyTo : Option String)
  | cancel (reason : String)
  | update (answeredBy : Option String)
  | info (about : Option String)
  | bye (reason : String)
  | hello
  deriving DecidableEq, Repr

inductive Body where
  | invite (dest : Option String) (expiresAt : Option Nat)
  | error (reason : Option String)
  | introduction (contactToken : Option String)
  | grant (scope : List String) (validUntil : Nat) (presenceKeys : List String)
  | presence (kid subject : Option String)
  | session (body : SessionBody)
  deriving DecidableEq, Repr

/-- A received message; `sender` is its `from`. -/
structure Msg where
  id : String
  sender : String
  session : Option String
  body : Body
  deriving DecidableEq, Repr

/-- The messages an endpoint sends about a session. -/
inductive Send where
  | invite (dest session : String) (grant : Option String)
  | progress (dest session status : String) (ringTimeout : Option Nat)
  | answer (dest session answeredBy : String) (inReplyTo : Option String)
  | reject (dest session reason : String) (inReplyTo : Option String)
  | cancel (dest : Option String) (session reason : String)
  | update (dest session id : String) (answeredBy : Option String)
  | info (dest session : String)
  | bye (dest session reason : String)
  | error (dest : String) (session : Option String) (reason inReplyTo : String)
  deriving DecidableEq, Repr

inductive Media where
  | start
  | stop
  | applyUpdate
  deriving DecidableEq, Repr

inductive Ui where
  | ended (reason : String)
  | progress (status : ProgressStatus)
  | answered (answeredBy : String)
  | offered
  | missedCall
  | glareRetry
  | updateOffered
  | updateRejected (reason : String)
  | introductionRejected (reason : String)
  | error (reason : Option String)
  deriving DecidableEq, Repr

inductive Emit where
  | send (msg : Send)
  | timerStart (name : TimerName) (seconds : Nat)
  | timerStop (name : TimerName)
  | timerFire (name : TimerName)
  | media (command : Media)
  | ui (notice : Ui)
  | info (about : String)
  | refused (reason : String)
  | drop (reason : String)
  | contact (emit : ContactEmit)
  deriving DecidableEq, Repr

@[simp] def Emit.toSend : Emit → Option Send
  | .send msg => some msg
  | _ => none

@[simp] def Emit.toMedia : Emit → Option Media
  | .media command => some command
  | _ => none

@[simp, reducible] def Emit.toContact : Emit → Option ContactEmit
  | .contact emit => some emit
  | .send _ | .timerStart .. | .timerStop _ | .timerFire _ | .media _ | .ui _ => none
  | .info _ | .refused _ | .drop _ => none

/-- The messages about sessions among what is emitted. -/
def sends (out : List Emit) : List Send := out.filterMap Emit.toSend

/-- The media commands among what is emitted. -/
def medias (out : List Emit) : List Media := out.filterMap Emit.toMedia

/-- What the contacts emitted. -/
def contactEmits (out : List Emit) : List ContactEmit := out.filterMap Emit.toContact

@[simp] theorem sends_nil : sends [] = [] := rfl

@[simp] theorem medias_nil : medias [] = [] := rfl

@[simp] theorem sends_append (a b : List Emit) : sends (a ++ b) = sends a ++ sends b := List.filterMap_append

@[simp] theorem medias_append (a b : List Emit) : medias (a ++ b) = medias a ++ medias b :=
  List.filterMap_append

@[simp] theorem sends_cons (x : Emit) (out : List Emit) :
    sends (x :: out) = x.toSend.toList ++ sends out := by
  cases x <;> rfl

@[simp] theorem medias_cons (x : Emit) (out : List Emit) :
    medias (x :: out) = x.toMedia.toList ++ medias out := by
  cases x <;> rfl

@[simp] theorem sends_contact (l : List ContactEmit) : sends (l.map .contact) = [] := by
  simp [sends, List.filterMap_map, Function.comp_def]

@[simp] theorem medias_contact (l : List ContactEmit) : medias (l.map .contact) = [] := by
  simp [medias, List.filterMap_map, Function.comp_def]

/-- The local events on a held session. -/
inductive CallEvent where
  | cancel
  | hangup (reason : Option String)
  | alert (ringTimeout : Option Nat)
  | autoReject (reason : String)
  | accept (answeredBy : Option String)
  | decline (reason : Option String)
  | update (id : String) (answeredBy : Option String)
  | answerUpdate (inReplyTo : String) (answeredBy : Option String)
  | rejectUpdate (inReplyTo reason : String)
  | info
  deriving DecidableEq, Repr

inductive Event where
  | advance (seconds : Nat)
  | recv (msg : Msg)
  | placeCall (session dest : String)
  | introduce (id dest : String) (purpose contactToken : Option String)
  | grant (id introduction : String) (scope : Option (List String)) (validUntil : Nat)
      (audience : Option String)
  | regrant (id grant : String) (scope : Option (List String)) (validUntil : Nat)
      (audience : Option String)
  | rejectIntroduction (introduction : String) (reason : Option String)
  | revoke (grant : String)
  | issueToken (token grantId : String)
  | call (session : String) (event : CallEvent)
  deriving DecidableEq, Repr

/-! ## The endpoint -/

/-- What an endpoint is told when it is built and never changes. -/
structure Setting where
  device : String
  identity : String
  identities : Dict String String
  tEstablish : Nat
  tRing : Nat
  tRingLocal : Nat

structure Endpoint extends Setting where
  now : Nat
  sessions : Dict String Session
  timers : List Timer
  /-- The number of timers ever started. -/
  seq : Nat
  out : List Emit
  contacts : Contacts

/-- `context.presence_keys`. -/
structure PresenceKeysContext where
  sealed : List String := []
  tRotate : Option Nat := none
  grantIds : List String := []

/-- What an endpoint is built from. -/
structure Context where
  device : String
  identity : String
  identities : List (String × String) := []
  start : Nat := 0
  tEstablish : Option Nat := none
  tRing : Option Nat := none
  tRingLocal : Option Nat := none
  firstContactRequired : Bool := false
  allow : List String := []
  presenceKeys : Option PresenceKeysContext := none

/-- The contacts of a new endpoint. -/
def Contacts.new (ctx : Context) : Contacts where
  firstContactRequired := ctx.firstContactRequired
  allow := ctx.allow.toFinset
  grantsIssued := ∅
  grantsHeld := ∅
  requests := ∅
  pendingSent := ∅
  tokens := ∅
  seenIntroductions := ∅
  keysOn := ctx.presenceKeys.isSome
  sealed := (ctx.presenceKeys.getD {}).sealed.toFinset
  tRotate := clamp ((ctx.presenceKeys.getD {}).tRotate.getD tPresenceRotateDefault)
    tPresenceRotateBounds
  grantIds := (ctx.presenceKeys.getD {}).grantIds
  epochs :=
    match ctx.presenceKeys with
    | none => ∅
    | some pk => Dict.ofList (("main", 0) :: pk.sealed.map fun scope => (scope, 0))
  lastRotated := ∅
  due := ∅
  heldKeys := ∅

namespace Endpoint

/-- `Endpoint.__init__`. -/
def new (ctx : Context) : Endpoint where
  device := ctx.device
  identity := ctx.identity
  identities := Dict.ofList ctx.identities
  now := ctx.start
  tEstablish := clamp (ctx.tEstablish.getD tEstablishDefault) tEstablishBounds
  tRing := clamp (ctx.tRing.getD tRingDefault) tRingBounds
  tRingLocal := clamp (ctx.tRingLocal.getD tRingLocalDefault) tRingLocalBounds
  sessions := ∅
  timers := []
  seq := 0
  out := []
  contacts := Contacts.new ctx

/-! ## Helpers -/

def identityOf (e : Endpoint) (did : String) : String := (e.identities.lookup did).getD did

def emit (e : Endpoint) (x : Emit) : Endpoint := { e with out := e.out ++ [x] }

def send (e : Endpoint) (msg : Send) : Endpoint := e.emit (.send msg)

def error (e : Endpoint) (m : Msg) (reason : String) : Endpoint :=
  e.send (.error m.sender m.session reason m.id)

/-- Store a session under its id. -/
def put (e : Endpoint) (s : Session) : Endpoint := { e with sessions := e.sessions.insert s.id s }

/-- Take over what a function of the contacts did. -/
def withContacts (e : Endpoint) (r : Contacts × List ContactEmit) : Endpoint :=
  { e with contacts := r.1, out := e.out ++ r.2.map .contact }

def running (e : Endpoint) (s : Session) (name : TimerName) : Option Timer :=
  e.timers.find? fun t => t.session = s.id ∧ t.name = name

/-- `stop_timer`, with `silent`. -/
def stopSilently (e : Endpoint) (s : Session) (name : TimerName) : Endpoint :=
  match e.running s name with
  | none => e
  | some t => { e with timers := e.timers.erase t }

def stopTimer (e : Endpoint) (s : Session) (name : TimerName) : Endpoint :=
  match e.running s name with
  | none => e
  | some t => { e with timers := e.timers.erase t }.emit (.timerStop name)

def startTimer (e : Endpoint) (s : Session) (name : TimerName) (seconds : Nat) : Endpoint :=
  let e := e.stopSilently s name
  let t : Timer := ⟨name, s.id, e.now + seconds, e.seq + 1⟩
  { e with seq := e.seq + 1, timers := e.timers ++ [t] }.emit (.timerStart name seconds)

def stopAll (e : Endpoint) (s : Session) : Endpoint :=
  (((e.stopTimer s .establish).stopTimer s .ring).stopTimer s .queue).stopTimer s .ringLocal

/-- `end`: a pending update is discarded. -/
def endSession (e : Endpoint) (s : Session) (uiReason : Option String) (mediaStop : Bool) : Endpoint :=
  let e := e.stopAll s
  let e := if mediaStop then e.emit (.media .stop) else e
  let e := e.put { s with outstanding := none, state := .ended }
  match uiReason with
  | none => e
  | some reason => e.emit (.ui (.ended reason))

/-- An attempt whose wait is over: cancel with reason `session.timeout`. -/
def timeOut (e : Endpoint) (s : Session) : Endpoint :=
  let e := (e.stopAll s).send (.cancel s.inviteTo s.id "session.timeout")
  e.endSession { s with cancelled := true } (some "session.timeout") false

/-! ## What the helpers leave alone

`Only e sid e'`: from `e` to `e'` nothing changed but the record and the timers
of the session `sid`, the timer count, and what was emitted, and the contacts
emitted nothing. -/

theorem erase_find? {p : Timer → Bool} (ts : List Timer) {t : Timer} (h : ts.find? p = some t) :
    ts.erase t = ts.eraseP p := by
  induction ts with
  | nil => simp at h
  | cons u ts ih =>
    rw [List.find?_cons] at h
    cases hu : p u with
    | true =>
      simp only [hu, Option.some.injEq] at h
      subst h
      simp [hu]
    | false =>
      simp only [hu] at h
      have hne : u ≠ t := by
        intro hut
        rw [hut, List.find?_some h] at hu
        cases hu
      simp [hu, List.erase_cons_tail, hne, ih h]

theorem filter_eraseP_of_not {p q : Timer → Bool} (h : ∀ t, p t = true → q t = false)
    (ts : List Timer) : (ts.eraseP p).filter q = ts.filter q := by
  induction ts with
  | nil => rfl
  | cons u ts ih =>
    by_cases hu : p u = true
    · rw [List.eraseP_cons_of_pos hu, List.filter_cons_of_neg (by simp [h u hu])]
    · rw [List.eraseP_cons_of_neg hu]
      simp only [List.filter_cons, ih]

/-- The running timers of a session. -/
def timersOf (e : Endpoint) (sid : String) : List Timer := e.timers.filter (·.session = sid)

/-- One timer of each name goes. -/
def clear (ts : List Timer) : List Timer :=
  (((ts.eraseP (·.name = .establish)).eraseP (·.name = .ring)).eraseP (·.name = .queue)).eraseP
    (·.name = .ringLocal)

@[simp] theorem clear_nil : clear [] = [] := rfl

@[simp] theorem clear_singleton (t : Timer) : clear [t] = [] := by
  obtain ⟨name, _, _, _⟩ := t
  cases name <;> rfl

structure Only (e : Endpoint) (sid : String) (e' : Endpoint) : Prop where
  setting : e'.toSetting = e.toSetting
  now : e'.now = e.now
  contacts : e'.contacts = e.contacts
  sessions : ∀ k, k ≠ sid → e'.sessions.lookup k = e.sessions.lookup k
  timers : ∀ k, k ≠ sid → e'.timersOf k = e.timersOf k
  silent : contactEmits e'.out = contactEmits e.out

@[simp] theorem only_self (e : Endpoint) (sid : String) : Only e sid e :=
  ⟨rfl, rfl, rfl, fun _ _ => rfl, fun _ _ => rfl, rfl⟩

theorem Only.trans {e e' e'' : Endpoint} {sid : String} (h : Only e sid e') (h' : Only e' sid e'') :
    Only e sid e'' where
  setting := h'.setting.trans h.setting
  now := h'.now.trans h.now
  contacts := h'.contacts.trans h.contacts
  sessions k hk := (h'.sessions k hk).trans (h.sessions k hk)
  timers k hk := (h'.timers k hk).trans (h.timers k hk)
  silent := h'.silent.trans h.silent

theorem only_erase (e : Endpoint) (t : Timer) : Only e t.session { e with timers := e.timers.erase t } := by
  refine ⟨rfl, rfl, rfl, fun _ _ => rfl, ?_, rfl⟩
  intro k hk
  show (e.timers.erase t).filter _ = e.timers.filter _
  rw [← List.erase_filter, List.erase_of_not_mem]
  intro hmem
  rw [List.mem_filter, decide_eq_true_eq] at hmem
  exact hk hmem.2.symm

section Frame

variable (e e' : Endpoint) (s : Session) (name : TimerName) (x : Emit)

@[simp] theorem emit_frame : (e.emit x).sessions = e.sessions ∧ (e.emit x).timers = e.timers ∧
      (e.emit x).out = e.out ++ [x] ∧ (e.emit x).now = e.now ∧
      (e.emit x).contacts = e.contacts ∧ (e.emit x).toSetting = e.toSetting ∧
      (e.emit x).seq = e.seq :=
  ⟨rfl, rfl, rfl, rfl, rfl, rfl, rfl⟩

@[simp] theorem put_frame : (e.put s).sessions = e.sessions.insert s.id s ∧ (e.put s).timers = e.timers ∧
      (e.put s).out = e.out ∧ (e.put s).now = e.now ∧ (e.put s).contacts = e.contacts ∧
      (e.put s).toSetting = e.toSetting ∧ (e.put s).seq = e.seq :=
  ⟨rfl, rfl, rfl, rfl, rfl, rfl, rfl⟩

theorem stopSilently_timers :
    (e.stopSilently s name).timers = e.timers.eraseP fun t => t.session = s.id ∧ t.name = name := by
  unfold stopSilently running
  split
  case h_1 h =>
    rw [List.eraseP_of_forall_not]
    simpa using List.find?_eq_none.mp h
  case h_2 t h => exact erase_find? e.timers h

theorem stopTimer_timers :
    (e.stopTimer s name).timers = e.timers.eraseP fun t => t.session = s.id ∧ t.name = name := by
  rw [← stopSilently_timers]
  unfold stopTimer stopSilently
  split <;> rfl

theorem timersOf_eraseP (ts : List Timer) (sid : String) :
    (ts.eraseP fun t => t.session = sid ∧ t.name = name).filter (·.session = sid) =
      (ts.filter (·.session = sid)).eraseP (·.name = name) := by
  rw [List.eraseP_filter]
  congr 2
  funext t
  simp [Bool.and_comm]

@[simp] theorem timersOf_stopTimer :
    (e.stopTimer s name).timersOf s.id = (e.timersOf s.id).eraseP (·.name = name) := by
  rw [timersOf, stopTimer_timers, timersOf_eraseP, timersOf]

@[simp] theorem timersOf_stopSilently :
    (e.stopSilently s name).timersOf s.id = (e.timersOf s.id).eraseP (·.name = name) := by
  rw [timersOf, stopSilently_timers, timersOf_eraseP, timersOf]

theorem timersOf_stopTimer_ne {k : String} (h : k ≠ s.id) :
    (e.stopTimer s name).timersOf k = e.timersOf k := by
  rw [timersOf, stopTimer_timers, filter_eraseP_of_not, timersOf]
  intro t ht
  simp only [decide_eq_true_eq] at ht
  simpa [ht.1] using h.symm

theorem timersOf_stopSilently_ne {k : String} (h : k ≠ s.id) :
    (e.stopSilently s name).timersOf k = e.timersOf k := by
  rw [← timersOf_stopTimer_ne e s name h, timersOf, timersOf, stopTimer_timers, stopSilently_timers]

@[simp] theorem stopSilently_frame :
    (e.stopSilently s name).sessions = e.sessions ∧ (e.stopSilently s name).now = e.now ∧
      (e.stopSilently s name).contacts = e.contacts ∧ (e.stopSilently s name).out = e.out ∧
      (e.stopSilently s name).toSetting = e.toSetting ∧
      (e.stopSilently s name).seq = e.seq := by
  unfold stopSilently
  split <;> simp

@[simp] theorem stopTimer_frame :
    (e.stopTimer s name).sessions = e.sessions ∧ (e.stopTimer s name).now = e.now ∧
      (e.stopTimer s name).contacts = e.contacts ∧
      (e.stopTimer s name).toSetting = e.toSetting := by
  unfold stopTimer
  split <;> simp

@[simp] theorem startTimer_frame (seconds : Nat) : (e.startTimer s name seconds).sessions = e.sessions ∧
      (e.startTimer s name seconds).now = e.now ∧
      (e.startTimer s name seconds).contacts = e.contacts ∧
      (e.startTimer s name seconds).out = e.out ++ [.timerStart name seconds] ∧
      (e.startTimer s name seconds).toSetting = e.toSetting := by
  simp [startTimer]

@[simp] theorem stopAll_frame : (e.stopAll s).sessions = e.sessions ∧ (e.stopAll s).now = e.now ∧
      (e.stopAll s).contacts = e.contacts ∧ (e.stopAll s).toSetting = e.toSetting := by
  simp [stopAll]

theorem running_eq : e.running s name = (e.timersOf s.id).find? (·.name = name) := by
  rw [running, timersOf, List.find?_filter]
  congr 1
  funext t
  simp

@[simp] theorem timersOf_emit (k : String) : (e.emit x).timersOf k = e.timersOf k := rfl

@[simp] theorem timersOf_put (k : String) : (e.put s).timersOf k = e.timersOf k := rfl

@[simp] theorem timersOf_startTimer (seconds : Nat) : (e.startTimer s name seconds).timersOf s.id =
      (e.timersOf s.id).eraseP (·.name = name) ++ [⟨name, s.id, e.now + seconds, e.seq + 1⟩] := by
  rw [← timersOf_stopSilently]
  simp [startTimer, timersOf]

theorem timersOf_startTimer_ne (seconds : Nat) {k : String} (h : k ≠ s.id) :
    (e.startTimer s name seconds).timersOf k = e.timersOf k := by
  rw [← timersOf_stopSilently_ne e s name h]
  simp [startTimer, timersOf, h.symm]

@[simp] theorem timersOf_stopAll : (e.stopAll s).timersOf s.id = clear (e.timersOf s.id) := by
  simp [stopAll, clear]

@[simp] theorem send_eq (msg : Send) : e.send msg = e.emit (.send msg) := rfl

@[simp] theorem error_eq (m : Msg) (reason : String) :
    e.error m reason = e.emit (.send (.error m.sender m.session reason m.id)) := rfl

variable {sid : String}

theorem contactEmits_emit (hx : x.toContact = none) : contactEmits (e.emit x).out = contactEmits e.out := by
  rw [contactEmits, (emit_frame e x).2.2.1, List.filterMap_append, List.filterMap_cons, hx]
  simp [contactEmits]

@[simp] theorem only_emit (hx : x.toContact = none) : Only e sid (e'.emit x) ↔ Only e sid e' := by
  have hsilent := contactEmits_emit e' x hx
  exact ⟨fun h => ⟨h.1, h.2, h.3, h.4, h.5, hsilent ▸ h.6⟩,
    fun h => ⟨h.1, h.2, h.3, h.4, h.5, hsilent.trans h.6⟩⟩

@[simp] theorem only_put (hs : s.id = sid) : Only e sid (e'.put s) ↔ Only e sid e' := by
  have hk : ∀ k, k ≠ sid → (e'.put s).sessions.lookup k = e'.sessions.lookup k := by
    intro k hk
    exact AList.lookup_insert_ne (hs ▸ hk)
  constructor
  · intro h
    exact ⟨h.1, h.2, h.3, fun k hne => hk k hne ▸ h.4 k hne, h.5, h.6⟩
  · intro h
    exact ⟨h.1, h.2, h.3, fun k hne => hk k hne ▸ h.4 k hne, h.5, h.6⟩

theorem only_of_timers {f : Endpoint} (hsetting : f.toSetting = e'.toSetting)
    (hnow : f.now = e'.now) (hcontacts : f.contacts = e'.contacts)
    (hsessions : f.sessions = e'.sessions) (htimers : ∀ k, k ≠ sid → f.timersOf k = e'.timersOf k)
    (hsilent : contactEmits f.out = contactEmits e'.out) : Only e sid f ↔ Only e sid e' := by
  constructor
  · intro h
    exact ⟨hsetting ▸ h.1, hnow ▸ h.2, hcontacts ▸ h.3, hsessions ▸ h.4,
      fun k hk => htimers k hk ▸ h.5 k hk, hsilent ▸ h.6⟩
  · intro h
    exact ⟨hsetting ▸ h.1, hnow ▸ h.2, hcontacts ▸ h.3, hsessions ▸ h.4,
      fun k hk => (htimers k hk).trans (h.5 k hk), hsilent.trans h.6⟩

theorem stopTimer_silent : contactEmits (e.stopTimer s name).out = contactEmits e.out := by
  unfold stopTimer
  split
  case h_1 => rfl
  case h_2 => simp [contactEmits]

@[simp] theorem only_stopTimer (hs : s.id = sid) : Only e sid (e'.stopTimer s name) ↔ Only e sid e' := by
  subst hs
  exact only_of_timers e e' (by simp) (by simp) (by simp) (by simp)
    (fun k hk => timersOf_stopTimer_ne e' s name hk) (stopTimer_silent e' s name)

@[simp] theorem only_startTimer (hs : s.id = sid) (seconds : Nat) :
    Only e sid (e'.startTimer s name seconds) ↔ Only e sid e' := by
  subst hs
  exact only_of_timers e e' (by simp) (by simp) (by simp) (by simp)
    (fun k hk => timersOf_startTimer_ne e' s name seconds hk) (by simp [contactEmits])

@[simp] theorem only_stopAll (hs : s.id = sid) : Only e sid (e'.stopAll s) ↔ Only e sid e' := by
  simp [stopAll, hs]

/-! ## What is sent and what is commanded -/

@[simp] theorem stopTimer_out : sends (e.stopTimer s name).out = sends e.out ∧
      medias (e.stopTimer s name).out = medias e.out := by
  unfold stopTimer
  split <;> simp

@[simp] theorem stopAll_out :
    sends (e.stopAll s).out = sends e.out ∧ medias (e.stopAll s).out = medias e.out := by
  simp [stopAll]

@[simp] theorem endSession_frame (uiReason : Option String) (mediaStop : Bool) :
    (e.endSession s uiReason mediaStop).sessions =
        e.sessions.insert s.id { s with outstanding := none, state := .ended } ∧
      (e.endSession s uiReason mediaStop).timersOf s.id = clear (e.timersOf s.id) ∧
      sends (e.endSession s uiReason mediaStop).out = sends e.out ∧
      medias (e.endSession s uiReason mediaStop).out =
        medias e.out ++ (if mediaStop then [.stop] else []) := by
  cases uiReason <;> cases mediaStop <;> simp [endSession]

@[simp] theorem only_endSession (hs : s.id = sid) (uiReason : Option String) (mediaStop : Bool) :
    Only e sid (e'.endSession s uiReason mediaStop) ↔ Only e sid e' := by
  cases uiReason <;> cases mediaStop <;> simp [endSession, hs]

@[simp] theorem timeOut_frame : (e.timeOut s).sessions = (e.sessions.insert s.id
        { s with outstanding := none, cancelled := true, state := .ended }) ∧
      (e.timeOut s).timersOf s.id = clear (clear (e.timersOf s.id)) ∧
      sends (e.timeOut s).out = sends e.out ++ [.cancel s.inviteTo s.id "session.timeout"] ∧
      medias (e.timeOut s).out = medias e.out := by
  have h := timersOf_stopAll (e.stopAll s) { s with cancelled := true }
  simp_all [timeOut]

@[simp] theorem only_timeOut (hs : s.id = sid) : Only e sid (e'.timeOut s) ↔ Only e sid e' := by
  simp [timeOut, hs]

end Frame

end Endpoint

end Dsip.Engine
