import Dsip.Messaging.Message

/-!
# Checking a content object

`checkObject`: what an application message may be, and how a client reads it.
-/

namespace Dsip.Messaging.Object

open Dsip.Lib Dsip.Messaging.Message

/-- `OBJECTS`: the discriminator to the schema. -/
def objects : List (String × String) :=
  [("content", "content"), ("receipt", "receipt"), ("activity", "activity"), ("archive-key", "archive-key"),
    ("call-event", "call-event"), ("recording-acceptance", "recording-acceptance"), ("call-record", "call-record")]

def personalOnly : List String := ["archive-key", "call-event", "recording-acceptance"]

/-- `KIND_BODY`: the body members that a kind must carry. -/
def kindBody : List (String × List String) :=
  [("text", ["text"]), ("audio", ["blob", "duration_ms"]), ("video", ["blob", "duration_ms"]), ("image", ["blob"]),
    ("file", ["blob", "name"]), ("contact", ["did"]), ("location", ["lat_e7", "lon_e7"]), ("device-event", ["event"]),
    ("alarm-ack", ["alarm", "state"])]

def purposes : List String :=
  ["message", "voice-message", "video-message", "voicemail", "attachment", "reaction", "callback-request"]

def activities : List String := ["typing", "recording-audio", "recording-video", "uploading"]

/-- `ULID_TOLERANCE_S`. -/
def ulidTolerance : Nat := 300

def maxReactionBytes : Nat := 32

mutual

def hasFloat : JsValue → Bool
  | .float _ => true
  | .arr vs => anyFloat vs
  | .obj o => memberFloat o
  | _ => false

def anyFloat : List JsValue → Bool
  | [] => false
  | v :: vs => hasFloat v || anyFloat vs

def memberFloat : List (String × JsValue) → Bool
  | [] => false
  | (_, v) :: o => hasFloat v || memberFloat o

end

/-- What the receiving device knows about the group. -/
structure ObjectContext where
  conversation : String
  conversationKind : String
  leafIdentity : String
  leafDevice : Option String
  leafCapabilities : Option (List String)
  deriving Repr

/-- What the platform gives: a number as text, and the grapheme clusters of a text. -/
structure Platform where
  numberText : Int → String
  graphemes : String → Nat

/-- The digits of a ULID's time. -/
def crockford : List Char := "0123456789ABCDEFGHJKMNPQRSTVWXYZ".toList

def ulidSeconds (text : String) : Option Nat :=
  if Schemas.isUlid text.toList then
    some ((text.toList.take 10).foldl (fun ms c => ms * 32 + crockford.idxOf c) 0 / 1000)
  else none

/-- `isObject`, with the members. -/
def isObject : Option JsValue → Option JsMembers
  | some (.obj o) => some o
  | _ => none

def isText (v : Option JsValue) (nonEmpty : Bool) : Bool := (JsValue.text? v).any fun s => !nonEmpty || s ≠ ""

def optionalText (o : JsMembers) (member : String) : Bool :=
  !JsValue.has member o || isText (o.lookup member) false

/-- A `heartbeat`. -/
def heartbeatBody (v : Option JsValue) : Bool :=
  (isObject v).any fun h => (JsValue.int? (h.lookup "interval_s")).any fun n => 1 ≤ n

/-- A `source`. -/
def sourceBody (v : Option JsValue) : Bool :=
  (isObject v).any fun src => isText (src.lookup "address") true && isText (src.lookup "basis") false

/-- An `alarm`. -/
def alarmBody (v : Option JsValue) : Bool :=
  (isObject v).any fun a =>
    isText (a.lookup "resource") false && isText (a.lookup "type") true &&
      ((a.lookup "severity").any JsValue.isNull || isText (a.lookup "severity") false) &&
      (match a.lookup "cleared" with
        | some (.bool _) => true
        | _ => false) &&
      optionalText a "qualifier" && optionalText a "text"

def deviceEventBody (v : Option JsValue) : Bool :=
  (isObject v).any fun e =>
    (if JsValue.has "heartbeat" e then heartbeatBody (e.lookup "heartbeat") else JsValue.has "source" e) &&
      (!JsValue.has "source" e || sourceBody (e.lookup "source")) &&
      (!JsValue.has "alarm" e || alarmBody (e.lookup "alarm")) &&
      (["raw", "syslog_gap"].all fun m => !JsValue.has m e || (isObject (e.lookup m)).isSome)

def alarmAckBody (alarm state : Option JsValue) : Bool :=
  ((isObject alarm).any fun a =>
    isText (a.lookup "resource") false && isText (a.lookup "type") true && optionalText a "qualifier") &&
    isText state false

def isReaction (p : Platform) (o : JsMembers) (kind : String) : Bool :=
  (JsValue.text? (o.lookup "text")).any fun text =>
    kind = "text" && isText (o.lookup "reply_to") false && (utf8Encode text.toList).length ≤ maxReactionBytes &&
      p.graphemes text ≤ 1

/-- The checks of `checkContent` after the members of the body. -/
def contentRefusal (p : Platform) (o : JsMembers) (ctx : ObjectContext) (kind : String) : Option Verdict :=
  if kind = "device-event" ∧ ¬ deviceEventBody (o.lookup "event") then some (reject "content-body")
  else if kind = "alarm-ack" ∧ ¬ alarmAckBody (o.lookup "alarm") (o.lookup "state") then some (reject "content-body")
  else if kind = "device-event" ∧ ¬ "dsip.events" ∈ ctx.leafCapabilities.getD [] then
    some (reject "delegation-capability")
  else if JsValue.isStr (o.lookup "purpose") "voicemail" ∧ ¬ JsValue.has "session" o then some (reject "content-body")
  else if JsValue.isStr (o.lookup "purpose") "reaction" ∧ ¬ isReaction p o kind then some (reject "reaction-invalid")
  else none

/-- How a client reads what is accepted: by its kind, if that is known. -/
def contentEffective (o : JsMembers) (kind : String) (known : Bool) : List (String × String) :=
  let purpose := asString o "purpose"
  [("kind", if known then kind else if JsValue.has "blob" o then "file" else "unsupported"),
    ("purpose", if purpose ∈ purposes then purpose else "message")]

/-- `checkContent`, of a kind whose body has what the kind must carry. -/
def checkBody (p : Platform) (o : JsMembers) (ctx : ObjectContext) (kind : String) (known : Bool) : Verdict :=
  (contentRefusal p o ctx kind).getD (.accept (contentEffective o kind known))

/-- `checkContent`. What every object inherits has no members to loop over. -/
def checkContent (p : Platform) (o : JsMembers) (ctx : ObjectContext) : Js Verdict :=
  let kind := asString o "kind"
  match findMember kindBody kind with
  | .inherited => throw .notAFunction
  | .own body =>
    return if body.any fun member => !JsValue.has member o then reject "content-body"
    else checkBody p o ctx kind true
  | .missing => return checkBody p o ctx kind false

def checkReceipt (o : JsMembers) : Verdict :=
  let kind := asString o "kind"
  if ¬ kind ∈ ["delivered", "read", "played"] then .accept [("render", "ignore")]
  else
    let shaped :=
      if kind = "read" then JsValue.has "through" o && !JsValue.has "targets" o
      else JsValue.has "targets" o && !JsValue.has "through" o
    if shaped then .accept [("receipt", kind)] else reject "receipt-shape"

/-- The times of a call record. -/
def callTimes (record : JsMembers) : List Int :=
  [asNumber record "invited_at"] ++
    (if JsValue.has "answered_at" record then [asNumber record "answered_at"] else []) ++ [asNumber record "ended_at"]

def checkCallRecord (record : JsMembers) (ctx : ObjectContext) : Verdict :=
  if ¬ ctx.leafDevice.any (JsValue.isStr (record.lookup "device")) then reject "sender-mismatch"
  else if ctx.conversationKind ≠ "direct" then reject "recorder-conversation-only"
  else if JsValue.has "answered_at" record ≠ JsValue.isStr (record.lookup "outcome") "answered" ∨
      ¬ (callTimes record).IsChain (· ≤ ·) then reject "call-record-invalid"
  else .accept [("render", "ignore"), ("store", "call-record")]

/-- An activity, as it is shown. -/
def checkActivity (o : JsMembers) : Verdict :=
  let activity := asString o "activity"
  .accept [("activity", if activity ∈ activities then activity else "active")]

/-- The checks of any object whose schema it passed. -/
def commonRefusal (schema : String) (o : JsMembers) (ctx : ObjectContext) : Option Verdict :=
  let exempt :=
    (ctx.conversationKind = "personal" && JsValue.isStr (o.lookup "object") "receipt" &&
      JsValue.isStr (o.lookup "kind") "read") || JsValue.isStr (o.lookup "object") "recording-acceptance"
  let farFromSent : Bool :=
    (JsValue.text? (o.lookup "id")).any fun id => (JsValue.int? (o.lookup "sent_at")).any fun sent =>
      (ulidSeconds id).any fun stamp => ulidTolerance < ((stamp : Int) - sent).natAbs
  if JsValue.has "sender" o ∧ ¬ JsValue.isStr (o.lookup "sender") ctx.leafIdentity then some (reject "sender-mismatch")
  else if JsValue.has "conversation" o ∧ ¬ JsValue.isStr (o.lookup "conversation") ctx.conversation ∧ ¬ exempt then
    some (reject "conversation-mismatch")
  else if farFromSent then some (reject "ulid-sent-at-mismatch")
  else if schema ∈ personalOnly ∧ ctx.conversationKind ≠ "personal" then some (reject "personal-group-only")
  else none

/-- The checks of an object by its schema. -/
def checkBySchema (p : Platform) (schema : String) (o : JsMembers) (ctx : ObjectContext) : Js Verdict :=
  if schema = "call-record" then return checkCallRecord o ctx
  else if schema = "content" then checkContent p o ctx
  else if schema = "receipt" then return checkReceipt o
  else if schema = "activity" then return checkActivity o
  else return .accept []

/-- `object["object"]` as a name; what is missing has the name `undefined`. -/
def objectName (p : Platform) (o : JsMembers) : Option String :=
  match o.lookup "object" with
  | some v => v.name p.numberText
  | none => some "undefined"

/-- `OBJECTS[object["object"]]`. -/
def schemaOf (p : Platform) (o : JsMembers) : Js (Option String) :=
  match objectName p o with
  | none => throw .notPrimitive
  | some name =>
    match findMember objects name with
    | .own schema => return some schema
    -- what is inherited is taken for the name of a schema, which there is none of
    | .inherited => throw (.error ("no schema named " ++ inheritedText name))
    | .missing => return none

/-- The checks of an object that has a schema. -/
def checkNamed (p : Platform) (schema : String) (o : JsMembers) (ctx : ObjectContext) : Js Verdict := do
  if ← Schemas.valid schema o then
    match commonRefusal schema o ctx with
    | some refusal => return refusal
    | none => checkBySchema p schema o ctx
  else return reject "schema-invalid"

def checkObject (p : Platform) (o : JsMembers) (ctx : ObjectContext) : Js Verdict :=
  if memberFloat o then return reject "payload-float"
  else do
    match ← schemaOf p o with
    | none => return .accept [("render", "ignore")]
    | some schema => checkNamed p schema o ctx

end Dsip.Messaging.Object
