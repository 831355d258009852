import Dsip.Lib.FoldEmit
import Dsip.Lib.Since

/-!
# The waker

What a relay or a mailbox keeps to wake devices: their registrations, which of them are bound, the
invites it holds, and when it last woke a device for a message. Every event carries the time; what
has expired by then is settled first, held invites and then registrations.
-/

namespace Dsip.Wake

open Dsip.Lib

/-- `W_COALESCE_S` -/
def coalesce : Int := 60

/-- `W_CALL_ENDED_S` -/
def callEndedS : Int := 60

inductive Component where
  | relay
  | mailbox
deriving DecidableEq

inductive Kind where
  | call
  | callEnded
  | message
deriving DecidableEq

def Kind.text : Kind → String
  | .call => "call"
  | .callEnded => "call-ended"
  | .message => "message"

structure Registration where
  identity : String
  expiresAt : Int
  kinds : Option (List String)
deriving DecidableEq

/-- A held invite: the unbound devices it is held for, and those woken for it. -/
structure HeldInvite where
  expiresAt : Int
  devices : Finset String
  woken : Finset String
deriving DecidableEq

inductive WakeMsg where
  | call (device session : String) (deliverBy : Int)
  | callEnded (device session : String) (deliverBy : Int)
  | message (device : String) (deliverBy : Int)
deriving DecidableEq

namespace WakeMsg

def device : WakeMsg → String
  | .call d _ _ => d
  | .callEnded d _ _ => d
  | .message d _ => d

def kind : WakeMsg → Kind
  | .call .. => .call
  | .callEnded .. => .callEnded
  | .message .. => .message

def session : WakeMsg → Option String
  | .call _ sid _ => some sid
  | .callEnded _ sid _ => some sid
  | .message .. => none

end WakeMsg

inductive Cause where
  | expired
  | removed
  | revoked
  | forgotten
  | gateway
deriving DecidableEq

inductive Output where
  | wake (x : WakeMsg)
  | ended (device : String) (cause : Cause)
deriving DecidableEq

inductive Input where
  | register (device : String) (r : Registration)
  | remove (device : String)
  | revoke (device : String)
  | forget (device : String)
  | bind (device : String)
  | unbind (device : String)
  | hold (session : String) (expiresAt : Int) (devices : List String)
  | drop (session : String)
  | store (identity : String) (cls : Option String)
  | answer (device reason : String)
  | tick
deriving DecidableEq

structure Event where
  time : Int
  input : Input

structure Waker where
  component : Component
  regs : Dict String Registration
  bound : Finset String
  held : Dict String HeldInvite
  lastMessage : Dict String Int

namespace Waker

def init (component : Component) : Waker where
  component := component
  regs := ∅
  bound := ∅
  held := ∅
  lastMessage := ∅

def live (w : Waker) (d : String) (time : Int) : Bool :=
  match w.regs.lookup d with
  | none => false
  | some r => time < r.expiresAt

/-- `_wants`, which is asked only of a device that is live. -/
def wants (w : Waker) (d : String) (kind : Kind) : Bool :=
  match w.regs.lookup d with
  | none => false
  | some r =>
    match r.kinds with
    | none => true
    | some kinds => kinds.contains kind.text

def takes (w : Waker) (d : String) (kind : Kind) (time : Int) : Bool := w.live d time && w.wants d kind

/-- `_end` -/
def finish (w : Waker) (d : String) (cause : Cause) : Waker × List Output :=
  if d ∈ w.regs then ({ w with regs := w.regs.erase d }, [.ended d cause]) else (w, [])

/-- The wakes for an invite that stopped being held at `stopped`. -/
def callEndedOut (w : Waker) (sid : String) (h : HeldInvite) (stopped : Int) : List Output :=
  ((sorted (h.woken ∩ h.devices)).filter fun d => w.takes d .callEnded stopped).map fun d =>
    .wake (.callEnded d sid (stopped + callEndedS))

def callEnded (w : Waker) (sid : String) (h : HeldInvite) (stopped : Int) : Waker × List Output :=
  ({ w with held := w.held.erase sid }, w.callEndedOut sid h stopped)

def settleHeld (time : Int) (w : Waker) (sid : String) : Waker × List Output :=
  match w.held.lookup sid with
  | none => (w, [])
  | some h => if h.expiresAt ≤ time then w.callEnded sid h h.expiresAt else (w, [])

/-- One registration, settled. -/
def settleReg (time : Int) (w : Waker) (d : String) : Waker × List Output :=
  match w.regs.lookup d with
  | none => (w, [])
  | some r => if r.expiresAt ≤ time then w.finish d .expired else (w, [])

/-- What has expired by `time`. -/
def settle (w : Waker) (time : Int) : Waker × List Output :=
  let h := foldEmit (settleHeld time) w w.held.sortedKeys
  let r := foldEmit (settleReg time) h.1 h.1.regs.sortedKeys
  (r.1, h.2 ++ r.2)

def holdFor (w : Waker) (time : Int) (session : String) (expiresAt : Int) (h : HeldInvite) (d : String) :
    HeldInvite × List Output :=
  if d ∈ w.bound then (h, [])
  else
    let h := { h with devices := insert d h.devices }
    if d ∉ h.woken ∧ w.takes d .call time then
      ({ h with woken := insert d h.woken }, [.wake (.call d session expiresAt)])
    else (h, [])

def hold (w : Waker) (time : Int) (session : String) (expiresAt : Int) (devices : List String) :
    Waker × List Output :=
  if time < expiresAt then
    let h := (w.held.lookup session).getD ⟨expiresAt, ∅, ∅⟩
    let r := foldEmit (w.holdFor time session expiresAt) h (sorted devices.toFinset)
    ({ w with held := w.held.insert session r.1 }, r.2)
  else (w, [])

/-- One registration, when an object for `identity` is stored. -/
def storeFor (identity : String) (time : Int) (w : Waker) (d : String) : Waker × List Output :=
  let wake : Waker × List Output :=
    ({ w with lastMessage := w.lastMessage.insert d time }, [.wake (.message d (time + coalesce))])
  if (w.regs.lookup d).map (·.identity) ≠ some identity ∨ d ∈ w.bound ∨ w.takes d .message time = false then (w, [])
  else
    match w.lastMessage.lookup d with
    | none => wake
    | some last => if time - last < coalesce then (w, []) else wake

/-- A bound device's invites are flushed to it: they are no longer held for it. -/
def bind (w : Waker) (d : String) : Waker :=
  { w with
    bound := insert d w.bound
    held := w.held.map fun h => { h with devices := h.devices.erase d, woken := h.woken.erase d }
    lastMessage := w.lastMessage.erase d }

/-- The event itself, once what has expired is settled; `none` where the source asserts. -/
def apply (w : Waker) (time : Int) : Input → Option (Waker × List Output)
  | .register d r => some ({ w with regs := w.regs.insert d r }, [])
  | .remove d => some (w.finish d .removed)
  | .revoke d => some (w.finish d .revoked)
  | .forget d => some (w.finish d .forgotten)
  | .bind d => some (w.bind d, [])
  | .unbind d => some ({ w with bound := w.bound.erase d }, [])
  | .hold session expiresAt devices =>
    if w.component = .relay then some (w.hold time session expiresAt devices) else none
  | .drop session =>
    if w.component = .relay then
      match w.held.lookup session with
      | none => some (w, [])
      | some h => some (w.callEnded session h time)
    else none
  | .store identity cls =>
    if w.component = .mailbox then
      if cls ≠ some "ephemeral" then some (foldEmit (storeFor identity time) w w.regs.sortedKeys)
      else some (w, [])
    else none
  | .answer d reason => if reason.startsWith "wake." then some (w.finish d .gateway) else some (w, [])
  | .tick => some (w, [])

def step (w : Waker) (e : Event) : Option (Waker × List Output) := do
  let s := w.settle e.time
  let (w', out) ← s.1.apply e.time e.input
  return (w', s.2 ++ out)

/-- The waker after a list of events, and what it sent. -/
def run (w : Waker) : List Event → Option (Waker × List Output)
  | [] => some (w, [])
  | e :: es => do
      let (w₁, out₁) ← w.step e
      let (w₂, out₂) ← run w₁ es
      return (w₂, out₁ ++ out₂)

/-! ## What the loops do -/

theorem takes_iff {w : Waker} {d : String} {kind : Kind} {time : Int} : w.takes d kind time = true ↔
      ∃ r, w.regs.lookup d = some r ∧ time < r.expiresAt ∧ ∀ kinds, r.kinds = some kinds → kind.text ∈ kinds := by
  unfold takes live wants
  cases hr : w.regs.lookup d with
  | none => simp
  | some r =>
    cases hk : r.kinds with
    | none => simp [hk]
    | some kinds => simp [hk]

theorem finish_spec (w : Waker) (d : String) (cause : Cause) :
    (w.finish d cause).1 = { w with regs := (w.finish d cause).1.regs } ∧
      ∀ x, .wake x ∉ (w.finish d cause).2 := by
  unfold finish
  split <;> simp

theorem settleHeld_loop (w : Waker) (time : Int) :
    let r := foldEmit (settleHeld time) w w.held.sortedKeys
    r.1 = { w with held := r.1.held } ∧
    (∀ sid, r.1.held.lookup sid = (w.held.lookup sid).filter fun h => time < h.expiresAt) ∧
    r.2 = w.held.sortedKeys.flatMap fun sid => (w.held.lookup sid).elim [] fun h =>
      if h.expiresAt ≤ time then w.callEndedOut sid h h.expiresAt else [] := by
  let rest (s : Waker) : Waker := { s with held := ∅ }
  let entry (s : Waker) (sid : String) (v : Option HeldInvite) : Option HeldInvite × List Output :=
    (v.filter fun h => time < h.expiresAt,
      v.elim [] fun h => if h.expiresAt ≤ time then s.callEndedOut sid h h.expiresAt else [])
  have hrest : ∀ s sid, rest (settleHeld time s sid).1 = rest s := by
    intro s sid
    unfold settleHeld
    split
    · rfl
    · split <;> rfl
  have hown : ∀ s sid, (settleHeld time s sid).1.held.lookup sid = (entry (rest s) sid (s.held.lookup sid)).1 := by
    intro s sid
    unfold settleHeld
    cases hh : s.held.lookup sid with
    | none => simpa [entry] using hh
    | some h =>
      by_cases hle : h.expiresAt ≤ time
      · simp [entry, callEnded, hle, Option.filter_some]
      · simp [entry, hle, hh, Option.filter_some]
  have hother : ∀ s sid j, j ≠ sid → (settleHeld time s sid).1.held.lookup j = s.held.lookup j := by
    intro s sid j hj
    unfold settleHeld
    split
    · rfl
    · split
      · exact AList.lookup_erase_ne hj
      · rfl
  have hout : ∀ s sid, (settleHeld time s sid).2 = (entry (rest s) sid (s.held.lookup sid)).2 := by
    intro s sid
    unfold settleHeld
    cases s.held.lookup sid with
    | none => rfl
    | some h =>
      simp only [entry, Option.elim_some]
      split <;> rfl
  obtain ⟨henv, hview, hemit⟩ := @foldEmit_keys _ _ _ _ _ _ (fun s : Waker => s.held.lookup) rest
    (settleHeld time) entry hrest hown hother hout _ (Dict.nodup_sortedKeys w.held) w
  refine ⟨?_, ?_, hemit⟩
  · exact congrArg (fun s : Waker => { s with held := (foldEmit (settleHeld time) w w.held.sortedKeys).1.held }) henv
  · intro sid
    refine (hview sid).trans ?_
    split
    case isTrue => rfl
    case isFalse hk =>
      rw [Dict.mem_sortedKeys, ← AList.lookup_eq_none] at hk
      rw [hk]
      rfl

theorem settleReg_loop (time : Int) (ds : List String) (w : Waker) :
    (foldEmit (settleReg time) w ds).1 = { w with regs := (foldEmit (settleReg time) w ds).1.regs } ∧
      ∀ x, .wake x ∉ (foldEmit (settleReg time) w ds).2 := by
  constructor
  · apply @foldEmit_invariant _ _ _ (settleReg time) (fun s => s = { w with regs := s.regs }) ds
    · intro d _ s hs
      unfold settleReg
      split
      · exact hs
      · split
        · rw [(finish_spec s d .expired).1, hs]
        · exact hs
    · rfl
  · intro x hx
    refine @foldEmit_forall _ _ _ (settleReg time) (fun o => o ≠ .wake x) ds ?_ w _ hx rfl
    intro d _ s o ho heq
    subst heq
    unfold settleReg at ho
    split at ho
    · exact List.not_mem_nil ho
    · split at ho
      · exact (finish_spec s d .expired).2 x ho
      · exact List.not_mem_nil ho

theorem settle_spec (w : Waker) (time : Int) :
    (w.settle time).1 = { w with regs := (w.settle time).1.regs, held := (w.settle time).1.held } ∧
    (∀ sid, (w.settle time).1.held.lookup sid = (w.held.lookup sid).filter fun h => time < h.expiresAt) ∧
    ∃ quiet, (w.settle time).2 = (w.held.sortedKeys.flatMap fun sid => (w.held.lookup sid).elim [] fun h =>
      if h.expiresAt ≤ time then w.callEndedOut sid h h.expiresAt else []) ++ quiet ∧ ∀ x, .wake x ∉ quiet := by
  obtain ⟨hheld, hlookup, hout⟩ := settleHeld_loop w time
  obtain ⟨hregs, hquiet⟩ := settleReg_loop time
    (foldEmit (settleHeld time) w w.held.sortedKeys).1.regs.sortedKeys (foldEmit (settleHeld time) w w.held.sortedKeys).1
  unfold settle
  refine ⟨?_, ?_, _, ?_, hquiet⟩
  · dsimp only
    rw [hregs, hheld]
  · intro sid
    dsimp only
    rw [hregs]
    exact hlookup sid
  · dsimp only
    rw [hout]

section Hold

variable {w : Waker} {time expiresAt : Int} {sid d : String} {h : HeldInvite}

theorem holdFor_bound (hb : d ∈ w.bound) : w.holdFor time sid expiresAt h d = (h, []) := by
  unfold holdFor
  rw [if_pos hb]

theorem holdFor_wakes (hb : d ∉ w.bound) (hw : d ∉ h.woken ∧ w.takes d .call time = true) :
    w.holdFor time sid expiresAt h d =
      (⟨h.expiresAt, insert d h.devices, insert d h.woken⟩, [.wake (.call d sid expiresAt)]) := by
  unfold holdFor
  rw [if_neg hb]
  exact if_pos hw

theorem holdFor_silent (hb : d ∉ w.bound) (hw : ¬ (d ∉ h.woken ∧ w.takes d .call time = true)) :
    w.holdFor time sid expiresAt h d = (⟨h.expiresAt, insert d h.devices, h.woken⟩, []) := by
  unfold holdFor
  rw [if_neg hb]
  exact if_neg hw

theorem holdFor_loop {ds : List String} (hnd : ds.Nodup) :
    let r := foldEmit (w.holdFor time sid expiresAt) h ds
    r.1.expiresAt = h.expiresAt ∧
    (∀ d, d ∈ r.1.devices ↔ d ∈ h.devices ∨ d ∈ ds ∧ d ∉ w.bound) ∧
    (∀ d, d ∈ r.1.woken ↔ d ∈ h.woken ∨ d ∈ ds ∧ d ∉ w.bound ∧ w.takes d .call time = true) ∧
    r.2 = (ds.filter fun d => d ∉ w.bound ∧ d ∉ h.woken ∧ w.takes d .call time = true).map fun d =>
      .wake (.call d sid expiresAt) := by
  induction ds generalizing h with
  | nil => simp
  | cons a ds ih =>
    obtain ⟨ha, hds⟩ := List.nodup_cons.mp hnd
    intro r
    have hr : r = foldEmit (w.holdFor time sid expiresAt) h (a :: ds) := rfl
    rw [foldEmit_cons] at hr
    by_cases hb : a ∈ w.bound
    · rw [holdFor_bound hb] at hr
      obtain ⟨hexp, hdevices, hwoken, hout⟩ := @ih h hds
      rw [hr]
      refine ⟨hexp, ?_, ?_, ?_⟩
      · intro d
        rw [hdevices d, List.mem_cons]
        by_cases hda : d = a
        · simp [hda, hb]
        · simp [hda]
      · intro d
        rw [hwoken d, List.mem_cons]
        by_cases hda : d = a
        · simp [hda, hb]
        · simp [hda]
      · rw [List.nil_append, hout, List.filter_cons_of_neg (by simp [hb])]
    · by_cases hw : a ∉ h.woken ∧ w.takes a .call time = true
      · rw [holdFor_wakes hb hw] at hr
        obtain ⟨hexp, hdevices, hwoken, hout⟩ := @ih ⟨h.expiresAt, insert a h.devices, insert a h.woken⟩ hds
        rw [hr]
        refine ⟨hexp, ?_, ?_, ?_⟩
        · intro d
          rw [hdevices d, List.mem_cons, Finset.mem_insert]
          by_cases hda : d = a
          · simp [hda, hb]
          · simp [hda]
        · intro d
          rw [hwoken d, List.mem_cons, Finset.mem_insert]
          by_cases hda : d = a
          · simp [hda, hb, hw.2]
          · simp [hda]
        · rw [List.filter_cons_of_pos (by simp [hb, hw]), List.map_cons, hout]
          -- the device just woken does not come again
          have hrest : (ds.filter fun d => d ∉ w.bound ∧ d ∉ insert a h.woken ∧ w.takes d .call time = true) =
              ds.filter fun d => d ∉ w.bound ∧ d ∉ h.woken ∧ w.takes d .call time = true := by
            apply List.filter_congr
            intro d hd
            have hne : d ≠ a := fun heq => ha (heq ▸ hd)
            simp [hne]
          rw [hrest]
          rfl
      · rw [holdFor_silent hb hw] at hr
        obtain ⟨hexp, hdevices, hwoken, hout⟩ := @ih ⟨h.expiresAt, insert a h.devices, h.woken⟩ hds
        rw [hr]
        refine ⟨hexp, ?_, ?_, ?_⟩
        · intro d
          rw [hdevices d, List.mem_cons, Finset.mem_insert]
          by_cases hda : d = a
          · simp [hda, hb]
          · simp [hda]
        · intro d
          rw [hwoken d, List.mem_cons]
          by_cases hda : d = a
          · subst hda
            by_cases hin : d ∈ h.woken
            · simp [hin]
            · have hno : w.takes d .call time = false := by
                simpa [hin] using hw
              simp [hin, hno]
          · simp [hda]
        · rw [List.nil_append, hout, List.filter_cons_of_neg (by simpa using fun _ => not_and.mp hw)]

end Hold

/-- Whether an object for `identity` stored at `time` wakes a device. -/
def messages (w : Waker) (identity : String) (time : Int) (d : String) : Prop :=
  (∃ r, w.regs.lookup d = some r ∧ r.identity = identity) ∧ d ∉ w.bound ∧ w.takes d .message time = true ∧
    ∀ last, w.lastMessage.lookup d = some last → last + coalesce ≤ time

variable {identity : String}

theorem storeFor_messages {w : Waker} {d : String} {time : Int} (h : w.messages identity time d) :
    storeFor identity time w d =
      ({ w with lastMessage := w.lastMessage.insert d time }, [.wake (.message d (time + coalesce))]) := by
  obtain ⟨⟨r, hr, hid⟩, hb, ht, hlast⟩ := h
  unfold storeFor
  rw [if_neg (by simp [hr, hid, hb, ht])]
  split
  · rfl
  next last hl =>
    have hle := hlast last hl
    rw [if_neg (by omega)]

theorem storeFor_quiet {w : Waker} {d : String} {time : Int} (h : ¬ w.messages identity time d) :
    storeFor identity time w d = (w, []) := by
  unfold storeFor
  split
  · rfl
  next hcond =>
    simp only [not_or, not_not, Bool.not_eq_false] at hcond
    obtain ⟨hid, hb, ht⟩ := hcond
    split
    next hl =>
      refine absurd ⟨?_, hb, ht, by simp [hl]⟩ h
      simpa using hid
    next last hl =>
      split
      · rfl
      next hlt =>
        refine absurd ⟨by simpa using hid, hb, ht, ?_⟩ h
        intro last' hl'
        rw [hl] at hl'
        obtain rfl := Option.some.inj hl'
        omega

theorem messages_insert {w : Waker} {d a : String} {time t : Int} (hne : d ≠ a) :
    Waker.messages { w with lastMessage := w.lastMessage.insert a t } identity time d ↔ w.messages identity time d := by
  have hl : (w.lastMessage.insert a t).lookup d = w.lastMessage.lookup d := AList.lookup_insert_ne hne
  show (_ ∧ _ ∧ _ ∧ ∀ last, (w.lastMessage.insert a t).lookup d = some last → _) ↔ _
  rw [hl]
  rfl

theorem storeFor_loop {time : Int} {ds : List String} (hnd : ds.Nodup) (w : Waker) :
    let r := foldEmit (storeFor identity time) w ds
    r.1 = { w with lastMessage := r.1.lastMessage } ∧
    ∃ ks : List String, ks.Nodup ∧ (∀ d, d ∈ ks ↔ d ∈ ds ∧ w.messages identity time d) ∧
      r.2 = (ks.map fun d => .wake (.message d (time + coalesce))) ∧
      ∀ d, r.1.lastMessage.lookup d = if d ∈ ks then some time else w.lastMessage.lookup d := by
  induction ds generalizing w with
  | nil => exact ⟨rfl, [], List.nodup_nil, by simp, rfl, by simp⟩
  | cons a ds ih =>
    obtain ⟨ha, hds⟩ := List.nodup_cons.mp hnd
    intro r
    have hr : r = foldEmit (storeFor identity time) w (a :: ds) := rfl
    rw [foldEmit_cons] at hr
    by_cases hm : w.messages identity time a
    · rw [storeFor_messages hm] at hr
      obtain ⟨hw, ks, hks, hmem, hout, hlast⟩ := ih hds { w with lastMessage := w.lastMessage.insert a time }
      have hmem' : ∀ d, d ∈ ks ↔ d ∈ ds ∧ w.messages identity time d := by
        intro d
        rw [hmem d]
        refine and_congr_right fun hd => messages_insert ?_
        exact fun heq => ha (heq ▸ hd)
      rw [hr]
      refine ⟨hw, a :: ks, ?_, ?_, ?_, ?_⟩
      · exact List.nodup_cons.mpr ⟨fun h => ha ((hmem' a).mp h).1, hks⟩
      · intro d
        rw [List.mem_cons, List.mem_cons, hmem' d]
        by_cases hda : d = a
        · simp [hda, hm]
        · simp [hda]
      · rw [hout]
        rfl
      · intro d
        rw [hlast d, Dict.lookup_insert_eq]
        by_cases hda : d = a
        · simp [hda]
        · simp [hda]
    · rw [storeFor_quiet hm] at hr
      obtain ⟨hw, ks, hks, hmem, hout, hlast⟩ := ih hds w
      rw [hr]
      refine ⟨hw, ks, hks, ?_, hout, hlast⟩
      intro d
      rw [hmem d, List.mem_cons]
      by_cases hda : d = a
      · subst hda
        simp [hm]
      · simp [hda]

end Waker

end Dsip.Wake
