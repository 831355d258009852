import Dsip.Engine.Clock
import Dsip.Engine.Inbound
import Dsip.Engine.Owner

/-!
# The endpoint as a machine

`step` reads one event and returns what the endpoint emits. A step that raises
is no step of the machine.
-/

namespace Dsip.Engine

open Dsip.Lib

namespace Endpoint

/-- What an event does, with what was emitted before it kept. -/
def perform (e : Endpoint) : Event → Except Fault Endpoint
  | .advance seconds => e.advance seconds
  | .recv msg => e.recv msg
  | .placeCall sid dest => .ok (e.placeCall sid dest)
  | .introduce id dest purpose contactToken =>
    .ok (e.withContacts (e.contacts.introduce id dest purpose contactToken))
  | .grant id introduction scope validUntil audience =>
    .ok (e.withContacts (e.contacts.grant id introduction (scope.getD ["dsip.invite"]) validUntil
      audience))
  | .regrant id gid scope validUntil audience =>
    (e.contacts.regrant e.now id gid (scope.getD ["dsip.invite"]) validUntil audience).map
      e.withContacts
  | .rejectIntroduction introduction reason =>
    .ok (e.withContacts (e.contacts.rejectIntroduction introduction
      (reason.getD "user.declined")))
  | .revoke gid => (e.contacts.revoke e.now gid).map e.withContacts
  | .issueToken token grantId =>
    .ok { e with contacts := e.contacts.issueToken token grantId }
  | .call sid event => e.call sid event

def step (e : Endpoint) (event : Event) : Except Fault (Endpoint × List Emit) :=
  ({ e with out := [] }.perform event).map fun e' => (e', e'.out)

/-- An endpoint as it is built. -/
def Fresh (e : Endpoint) : Prop := ∃ ctx, e = .new ctx

end Endpoint

def machine : TSys Endpoint Event (List Emit) := .ofStep Endpoint.Fresh Endpoint.step

end Dsip.Engine
