import Dsip.Engine.Records
import Dsip.Lib.Duplex

/-!
# Endpoints and the network between them

What an endpoint emits for the network is a letter, and what the other side
reads of it is a message. The network adds what the engine leaves to the
envelope: the sender, the id of most messages, and when an invite expires.
-/

namespace Dsip.Engine

open Dsip.Lib

inductive Letter where
  | session (msg : Send)
  | introduction (dest id : String) (contactToken : Option String)
  | grant (dest session id : String) (scope : List String) (validUntil : Nat)
      (presenceKeys : Option (List String))
  deriving DecidableEq, Repr

def Emit.toLetter : Emit → Option Letter
  | .send msg => some (.session msg)
  | .contact (.sendIntroduction dest id _ contactToken) =>
    some (.introduction dest id contactToken)
  | .contact (.sendGrant dest session id scope validUntil _ presenceKeys) =>
    some (.grant dest session id scope validUntil presenceKeys)
  | .contact (.sendReject dest session reason) => some (.session (.reject dest session reason none))
  | _ => none

def letters (out : List Emit) : List Letter := out.filterMap Emit.toLetter

theorem letters_of_silent {out : List Emit} (h : contactEmits out = []) :
    letters out = (sends out).map .session := by
  induction out with
  | nil => rfl
  | cons x out ih =>
    cases x with
    | contact emit => cases h
    | send msg => exact congrArg (List.cons _) (ih h)
    | _ => exact ih h

/-- A letter under way, with its sender. -/
structure Wire where
  sender : String
  letter : Letter
  deriving DecidableEq, Repr

structure Stamp where
  id : String
  expiresAt : Option Nat
  deriving DecidableEq, Repr

/-- What arrives. The id of an invite is the session it starts. -/
def Wire.toMsg (w : Wire) (stamp : Stamp) : Msg :=
  match w.letter with
  | .session (.invite dest session _) => ⟨session, w.sender, none, .invite dest stamp.expiresAt⟩
  | .session (.progress _ session status ringTimeout) =>
    ⟨stamp.id, w.sender, session, .session (.progress status ringTimeout none)⟩
  | .session (.answer _ session answeredBy inReplyTo) =>
    ⟨stamp.id, w.sender, session, .session (.answer answeredBy inReplyTo)⟩
  | .session (.reject _ session reason inReplyTo) =>
    ⟨stamp.id, w.sender, session, .session (.reject reason inReplyTo)⟩
  | .session (.cancel _ session reason) =>
    ⟨stamp.id, w.sender, session, .session (.cancel reason)⟩
  | .session (.update _ session id answeredBy) =>
    ⟨id, w.sender, session, .session (.update answeredBy)⟩
  | .session (.info _ session) => ⟨stamp.id, w.sender, session, .session (.info none)⟩
  | .session (.bye _ session reason) => ⟨stamp.id, w.sender, session, .session (.bye reason)⟩
  | .session (.error _ session reason _) => ⟨stamp.id, w.sender, session, .error reason⟩
  | .introduction _ id contactToken => ⟨id, w.sender, none, .introduction contactToken⟩
  | .grant _ session id scope validUntil presenceKeys =>
    ⟨id, w.sender, session, .grant scope validUntil (presenceKeys.getD [])⟩

namespace Endpoint

/-- One step, and the letters of it under the endpoint's name. -/
def post (e : Endpoint) (event : Event) : Except Fault (Endpoint × List Wire) :=
  (e.step event).map fun r => (r.1, (letters r.2).map (Wire.mk e.device))

end Endpoint

/-- An endpoint at one end of two channels. -/
def party : Party Endpoint Event Stamp Wire Wire Fault where
  act := Endpoint.post
  recv e stamp w := e.post (.recv (w.toMsg stamp))

/-- Two endpoints and the channels between them. -/
abbrev Link := Duplex Endpoint Endpoint Wire Wire

namespace Link

abbrev Input := Duplex.Input Event Event Stamp

abbrev Output := Duplex.Output Wire Wire

abbrev Trace := TSys.Trace Input Output

/-- The runs of two linked endpoints. -/
def system : TSys Link Input Output :=
  Duplex.system party party fun s => s.left.Fresh ∧ s.right.Fresh ∧ s.toRight = [] ∧ s.toLeft = []

end Link

end Dsip.Engine
