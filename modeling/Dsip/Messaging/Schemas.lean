import Dsip.Lib.JsonSchema

/-!
# The schemas of the messaging profile

The documents of the messages and of the content objects, with the definitions
that all of them share.
-/

namespace Dsip.Messaging.Schemas

open Dsip.Lib Dsip.Lib.Schema

/-! ## Patterns -/

def isLower (c : Char) : Bool := 'a' ≤ c ∧ c ≤ 'z'

def isUpper (c : Char) : Bool := 'A' ≤ c ∧ c ≤ 'Z'

def isDigit (c : Char) : Bool := '0' ≤ c ∧ c ≤ '9'

def isTokenChar (c : Char) : Bool := isLower c || isDigit c || c = '-'

/-- `^[a-z][a-z0-9-]*$` -/
def isToken : List Char → Bool
  | [] => false
  | c :: cs => isLower c && cs.all isTokenChar

def isUrlChar (c : Char) : Bool := isUpper c || isLower c || isDigit c || c = '_' || c = '-'

/-- `^[A-Za-z0-9_-]+$` -/
def isUrlText (cs : List Char) : Bool := !cs.isEmpty && cs.all isUrlChar

/-- `^[0-7][0-9A-HJKMNP-TV-Z]{25}$` -/
def isUlid : List Char → Bool
  | [] => false
  | c :: cs => ('0' ≤ c ∧ c ≤ '7') && cs.length = 25 &&
      cs.all fun c => isDigit c || (isUpper c && !(c ∈ ['I', 'L', 'O', 'U']))

/-- `^did:[a-z0-9]+:[A-Za-z0-9.%_:-]+$` -/
def isDid (cs : List Char) : Bool :=
  let rest := cs.drop 4
  let method := rest.takeWhile fun c => isLower c || isDigit c
  let specific := (rest.drop method.length).drop 1
  cs.take 4 = "did:".toList && !method.isEmpty && (rest.drop method.length).head? = some ':' &&
    !specific.isEmpty && specific.all fun c => isUrlChar c || c ∈ ['.', '%', ':']

/-- `^\d+\.\d+$` -/
def isVersion (cs : List Char) : Bool :=
  let major := cs.takeWhile isDigit
  let minor := (cs.drop major.length).drop 1
  !major.isEmpty && (cs.drop major.length).head? = some '.' && !minor.isEmpty && minor.all isDigit

/-- `^[a-z][a-z0-9-]*/\d+\.\d+$` -/
def isProfileId (cs : List Char) : Bool :=
  let name := cs.takeWhile isTokenChar
  isToken name && (cs.drop name.length).head? = some '/' && isVersion ((cs.drop name.length).drop 1)

/-- `^[0-9a-f]{64}$` -/
def isSha256 (cs : List Char) : Bool := cs.length = 64 && cs.all fun c => isDigit c || ('a' ≤ c ∧ c ≤ 'f')

/-- `^[A-Za-z0-9_-]{43}$` -/
def isKeyText (cs : List Char) : Bool := cs.length = 43 && cs.all isUrlChar

/-- `^[a-z][a-z0-9-]*\.[a-z][a-z0-9-]*$` -/
def isReason (cs : List Char) : Bool :=
  let before := cs.takeWhile isTokenChar
  isToken before && (cs.drop before.length).head? = some '.' && isToken ((cs.drop before.length).drop 1)

/-! ## `$defs` -/

def ulid : Schema := pattern isUlid

def did : Schema := pattern isDid

def timestamp : Schema := integer 0 none

def versionToken : Schema := pattern isVersion

def profileId : Schema := pattern isProfileId

def versionBlock : Schema :=
  object
    [("core", versionToken), ("min_core", versionToken), ("profiles", array profileId 0 none),
      ("extensions", array profileId 0 none), ("critical", array profileId 0 none)]
    ["core", "min_core", "profiles", "extensions", "critical"] false fun _ => true

def b64url : Schema := string 1 none isUrlText

def token : Schema := pattern isToken

def sha256 : Schema := pattern isSha256

def anyText (_ : List Char) : Bool := true

def nonEmpty : Schema := string 1 none anyText

def cursor : Schema := string 1 (some 64) anyText

def httpsUri : Schema := pattern fun cs => "https://".toList.isPrefixOf cs

def wssUri : Schema := pattern fun cs => "wss://".toList.isPrefixOf cs

def blobRef : Schema :=
  object [("uri", httpsUri), ("sha256", sha256), ("size", integer 1 none)] ["uri", "sha256", "size"] false fun _ => true

def hubRef : Schema := object [("did", did), ("uri", wssUri)] ["did"] false fun _ => true

/-! ## Messages -/

/-- The members of every message. -/
def envelope (type : String) : List (String × Schema) :=
  [("dsip", versionBlock), ("type", const type), ("id", ulid), ("from", did), ("to", did), ("issued_at", timestamp),
    ("expires_at", timestamp)]

def envelopeNames : List String := ["dsip", "type", "id", "from", "to", "issued_at", "expires_at"]

/-- A message: the members of every one and its own. -/
def message (type : String) (own : List (String × Schema)) (names : List String) (more : JsMembers → Bool) : Schema :=
  object (envelope type ++ own) (envelopeNames ++ names) false more

/-- `if` the class is that of an envelope, `then` there is no group, `else` there is. -/
def groupUnlessEnvelope (names : List String) (o : JsMembers) : Bool :=
  if JsValue.isStr (o.lookup "class") "introduction" || JsValue.isStr (o.lookup "class") "grant" then
    !JsValue.has "group" o && required names o
  else JsValue.has "group" o

def deposit : Schema :=
  message "deposit"
    [("recipient", did), ("group", b64url), ("class", token), ("seq", integer 1 none), ("mls", b64url),
      ("welcome", b64url), ("group_info", b64url), ("ratchet_tree_blob", blobRef), ("sealed", b64url),
      ("archive", b64url), ("akid", ulid), ("ref_group", b64url), ("ref_seq", integer 1 none),
      ("blobs", array blobRef 0 none), ("hub", hubRef), ("grants", array nonEmpty 0 none), ("origin", nonEmpty),
      ("successor_of", b64url), ("handover_seq", integer 1 none), ("envelope", nonEmpty)]
    ["class"] (groupUnlessEnvelope ["recipient", "envelope"])

def accepted : Schema :=
  message "accepted"
    [("in_reply_to", ulid), ("group", b64url), ("seq", integer 1 none), ("cursor", cursor), ("duplicate", boolean)]
    ["in_reply_to"] fun _ => true

def sync : Schema :=
  message "sync"
    [("since", anyOf cursor null), ("ack_through", cursor), ("limit", integer 1 (some 1000)), ("live", boolean)]
    ["since"] fun _ => true

/-- A stored item, behind a cursor. -/
def storedItem : Schema :=
  object
    [("cursor", cursor), ("stored_at", timestamp), ("class", allOf token (not (const "ephemeral"))), ("source", did),
      ("group", b64url), ("seq", integer 1 none), ("mls", b64url), ("archive", b64url), ("akid", ulid), ("hub", hubRef),
      ("blobs", array blobRef 0 none), ("envelope", nonEmpty)]
    ["cursor", "stored_at", "class"] false (groupUnlessEnvelope ["envelope"])

def pushedItem : Schema :=
  object
    [("class", const "ephemeral"), ("source", did), ("group", b64url), ("sealed", b64url), ("expires_at", timestamp)]
    ["class", "group", "sealed", "expires_at"] false fun _ => true

def items : Schema :=
  message "items"
    [("in_reply_to", ulid), ("items", array (oneOf storedItem pushedItem) 0 none), ("next", anyOf cursor null)]
    ["items", "next"] fun _ => true

def keyPackages : Schema :=
  message "key-packages"
    [("in_reply_to", ulid), ("subject", did), ("key_packages", array b64url 0 none), ("last_resort", b64url)]
    ["subject"] fun _ => true

def keyPackageFetch : Schema :=
  message "key-package-fetch" [("target", did), ("grant", nonEmpty), ("successor_of", b64url)] ["target"] fun _ => true

def blobPut : Schema :=
  message "blob-put" [("sha256", sha256), ("size", integer 1 none)] ["sha256", "size"] fun _ => true

def mailboxConfig : Schema :=
  message "mailbox-config"
    [("subject", did), ("mode", token), ("retention_s", integer 0 none), ("admit", enum ["grant", "open"]),
      ("groups", array (object
        [("group", b64url), ("hub", did), ("hub_uri", wssUri), ("handover_seq", integer 1 none),
          ("state", enum ["joined", "left"])] ["group", "state"] false fun _ => true) 0 none),
      ("revoked_grants", array ulid 0 none), ("introductions_sent", array ulid 0 (some 256)), ("release", boolean),
      ("revoked_delegations", array nonEmpty 0 none)]
    ["subject"] fun _ => true

/-! ## Objects -/

def blob : Schema :=
  object
    [("uri", httpsUri), ("sha256", sha256), ("size", integer 1 none), ("key", pattern isKeyText),
      ("alg", const "A256GCM"), ("content_type", nonEmpty), ("name", pattern anyText)]
    ["uri", "sha256", "size", "key", "alg", "content_type"] false fun _ => true

def content : Schema :=
  object
    [("object", const "content"), ("id", ulid), ("conversation", ulid), ("sender", did), ("sent_at", timestamp),
      ("kind", token), ("purpose", token), ("content_type", nonEmpty), ("text", pattern anyText),
      ("reply_to", anyOf ulid null), ("blob", blob), ("duration_ms", integer 0 none), ("width", integer 1 none),
      ("height", integer 1 none), ("thumbnail", string 0 (some 10924) fun cs => cs.all isUrlChar),
      ("name", pattern anyText), ("did", did), ("display_name", string 0 (some 256) anyText),
      ("contact_token", nonEmpty), ("lat_e7", integer (-900000000) (some 900000000)),
      ("lon_e7", integer (-1800000000) (some 1800000000)), ("accuracy_m", integer 0 none), ("session", ulid)]
    ["object", "id", "conversation", "sender", "sent_at", "kind", "purpose"] true fun _ => true

def receipt : Schema :=
  object
    [("object", const "receipt"), ("id", ulid), ("conversation", ulid), ("sender", did), ("sent_at", timestamp),
      ("kind", token), ("targets", array ulid 1 (some 256)), ("through", ulid)]
    ["object", "id", "conversation", "sender", "sent_at", "kind"] false fun _ => true

def activity : Schema :=
  object
    [("object", const "activity"), ("conversation", ulid), ("sender", did), ("activity", token),
      ("state", enum ["active", "stopped"])]
    ["object", "conversation", "sender", "activity", "state"] false fun _ => true

def archiveKey : Schema :=
  object [("object", const "archive-key"), ("akid", ulid), ("key", pattern isKeyText), ("created_at", timestamp)]
    ["object", "akid", "key", "created_at"] false fun _ => true

def callEvent : Schema :=
  object
    [("object", const "call-event"), ("session", ulid), ("peer", did), ("direction", enum ["inbound", "outbound"]),
      ("outcome", token), ("at", timestamp)]
    ["object", "session", "peer", "direction", "outcome", "at"] false fun _ => true

def recordingAcceptance : Schema :=
  object
    [("object", const "recording-acceptance"), ("conversation", ulid),
      ("recorders", allOf (array did 1 none) unique), ("accepted_at", timestamp)]
    ["object", "conversation", "recorders", "accepted_at"] false fun _ => true

def callRecord : Schema :=
  object
    [("object", const "call-record"), ("session", ulid), ("device", did), ("direction", enum ["inbound", "outbound"]),
      ("peer", did), ("relay", did), ("invited_at", timestamp), ("answered_at", timestamp), ("ended_at", timestamp),
      ("outcome", token), ("ended_by", enum ["local", "remote", "transport"]), ("reason", pattern isReason),
      ("media", array token 0 none),
      ("recording", object [("state", token), ("recorder", did), ("purpose", token)] ["state"] false fun _ => true),
      ("evidence", array sha256 0 none)]
    ["object", "session", "device", "direction", "peer", "invited_at", "ended_at", "outcome", "ended_by"] false
    fun _ => true

/-! ## The set -/

/-- The validators, by the stems of their files. -/
def validators : List (String × Schema) :=
  [("deposit", deposit), ("accepted", accepted), ("sync", sync), ("items", items), ("key-packages", keyPackages),
    ("key-package-fetch", keyPackageFetch), ("blob-put", blobPut), ("mailbox-config", mailboxConfig),
    ("content", content), ("receipt", receipt), ("activity", activity), ("archive-key", archiveKey),
    ("call-event", callEvent), ("recording-acceptance", recordingAcceptance), ("call-record", callRecord)]

def valid (name : String) (o : JsMembers) : Js Bool :=
  match validators.lookup name with
  | some schema => return schema (.obj o)
  | none => throw (.error ("no schema named " ++ name))

end Dsip.Messaging.Schemas
