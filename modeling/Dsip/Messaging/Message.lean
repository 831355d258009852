import Dsip.Messaging.Schemas
import Dsip.Lib.Encodings

/-!
# Checking a message

`checkMessage`: what a mailbox or a hub refuses of a decoded payload.
-/

namespace Dsip.Messaging.Message

open Dsip.Lib

/-- A verdict; what it says besides depends on the check. -/
inductive Verdict where
  | accept (effective : List (String × String))
  | reject (code : String) (reason : Option String)
  deriving DecidableEq, Repr

def reject (code : String) : Verdict := .reject code none

def rejectWith (code reason : String) : Verdict := .reject code (some reason)

def maxMlsBytes : Nat := 24576

/-- `MAX_LIFETIME_S` and `MAX_EPHEMERAL_LIFETIME_S`. -/
def maxLifetime (ephemeral : Bool) : Int := if ephemeral then 10 else 60

def maxIntroductionBytes : Nat := 4096

def messageTypes : List String :=
  ["deposit", "accepted", "sync", "items", "key-packages", "key-package-fetch", "blob-put", "mailbox-config"]

def modes : List String := ["sync", "queue"]

/-- The fields of a deposit class. -/
structure ClassFields where
  required : List String
  optional : List String
  deriving DecidableEq, Repr

def classFields : List (String × ClassFields) :=
  [("handshake", ⟨["group", "mls"], ["welcome", "group_info", "ratchet_tree_blob", "grants", "seq"]⟩),
    ("application", ⟨["group", "mls"], ["seq", "blobs"]⟩),
    ("welcome", ⟨["group", "mls", "hub"], ["ratchet_tree_blob", "grants", "origin", "successor_of", "seq"]⟩),
    ("group-info", ⟨["group", "mls"], ["ratchet_tree_blob", "handover_seq"]⟩),
    ("ephemeral", ⟨["group", "sealed"], []⟩),
    ("archive", ⟨["group", "archive", "akid", "ref_group", "ref_seq"], []⟩),
    ("introduction", ⟨["recipient", "envelope"], []⟩),
    ("grant", ⟨["recipient", "envelope"], []⟩)]

def common : List String := ["dsip", "type", "id", "from", "to", "class", "recipient", "issued_at", "expires_at"]

def decodedLength (b64url : String) : Nat := JsValue.utf16Length b64url * 3 / 4

/-- A member `as string` and `as number`. -/
def asString (payload : JsMembers) (name : String) : String := (JsValue.text? (payload.lookup name)).getD ""

def asNumber (payload : JsMembers) (name : String) : Int := (JsValue.int? (payload.lookup name)).getD 0

/-- The fields of a deposit's class. A class that is not in the table is refused; the
fields of what every object inherits are `undefined`, which cannot be spread. -/
def fieldsOf (payload : JsMembers) : Js (Option ClassFields) :=
  match findMember classFields (asString payload "class") with
  | .own fields => return some fields
  | .inherited => throw .notIterable
  | .missing => return none

/-- The checks of a deposit whose class has these fields. -/
def depositRefusal (fields : ClassFields) (payload : JsMembers) : Option Verdict :=
  let allowed := common ++ fields.required ++ fields.optional
  let tooLarge (name : String) : Bool :=
    (JsValue.text? (payload.lookup name)).any fun value => maxMlsBytes < decodedLength value
  if (fields.required.any fun f => !JsValue.has f payload) || (payload.any fun (k, _) => !(k ∈ allowed)) then
    some (reject "deposit-fields")
  else if ["mls", "welcome", "group_info", "sealed", "archive"].any tooLarge then
    some (rejectWith "object-too-large" "mailbox.object-too-large")
  else if JsValue.isStr (payload.lookup "class") "introduction" &&
      (JsValue.text? (payload.lookup "envelope")).any fun e => maxIntroductionBytes < (utf8Encode e.toList).length then
    some (rejectWith "introduction-too-large" "transport.envelope-too-large")
  else none

def checkDeposit (payload : JsMembers) : Js Verdict := do
  match ← fieldsOf payload with
  | none => return rejectWith "deposit-class-unsupported" "mailbox.unsupported-class"
  | some fields => return (depositRefusal fields payload).getD (.accept [])

/-- The check of a `mailbox-config`. -/
def checkMailboxConfig (payload : JsMembers) : Verdict :=
  if JsValue.has "mode" payload ∧ ¬ modes.any (JsValue.isStr (payload.lookup "mode")) then
    rejectWith "mailbox-mode-unsupported" "mailbox.unsupported-mode"
  else .accept []

/-- The check of `key-packages`, where the length of what is not there is read. -/
def checkKeyPackages (payload : JsMembers) : Js Verdict :=
  match payload.lookup "key_packages" with
  | some (.arr vs) => return if vs.isEmpty then reject "key-packages-empty" else .accept []
  -- the schema has nothing but an array there
  | some _ => return .accept []
  | none => throw .ofUndefined

/-- The checks of `checkMessage` after the lifetime. -/
def checkFields (type : String) (payload : JsMembers) : Js Verdict :=
  if type = "deposit" then checkDeposit payload
  else if type = "mailbox-config" then return checkMailboxConfig payload
  else if type = "key-packages" then checkKeyPackages payload
  else return .accept []

def lifetime (payload : JsMembers) : Int := asNumber payload "expires_at" - asNumber payload "issued_at"

/-- The checks of a payload of a known type that passes its schema. -/
def checkLifetime (type : String) (payload : JsMembers) : Js Verdict :=
  if maxLifetime (type = "deposit" && JsValue.isStr (payload.lookup "class") "ephemeral") < lifetime payload then
    return reject "lifetime-exceeded"
  else checkFields type payload

def checkMessage (payload : JsMembers) : Js Verdict :=
  match payload.lookup "type" with
  | some (.str type) =>
    if type ∈ messageTypes then do
      if ← Schemas.valid type payload then checkLifetime type payload else return reject "schema-invalid"
    else return reject "unknown-type"
  | _ => return reject "unknown-type"

end Dsip.Messaging.Message
