import Dsip.Lib.Json
import Dsip.Lib.PyInt
import Mathlib.Data.List.ModifyLast

/-!
# Media descriptors and the SDP they come with

What the WebRTC binding checks of an offer or an answer: a tolerant reading of
the SDP, and section by section that it says what the descriptor says (B§2.1) and
carries the profile (B§2.2, B§3.3). The detail of a rejection is left out.
-/

namespace Dsip.Binding

open Dsip.Lib

abbrev Text := List Char

scoped instance lawfulText : LawfulBEq Text := inferInstance

/-! ## Payloads -/

/-- A media descriptor: its `type`, and the ids of its codecs. -/
structure Descriptor where
  kind : Option Text
  direction : Option Text
  codecs : List Text

structure Transport where
  id : Option Text
  ice : Option Json
  sdp : Option Text

structure Payload where
  media : List Descriptor
  transports : List Transport

inductive Verdict where
  | accept (binding : Option String)
  | reject (code reason : String)
  deriving DecidableEq, Repr

def Verdict.accepted : Verdict → Bool
  | .accept _ => true
  | .reject .. => false

def webrtc : Text := "transport:webrtc".toList

/-- `ice` is present and says `trickle`. -/
def isTrickle : Option Json → Bool
  | some (.str s) => s = "trickle"
  | _ => false

/-! ## Text -/

/-- What `str.strip` and `str.split` take for white space. -/
def isSpace (c : Char) : Bool :=
  PyInt.isSpace c || (0x1c ≤ c.toNat && c.toNat ≤ 0x1f) || c.toNat ∈ PyInt.wideSpaces

/-- Without the characters of a kind at either end. -/
def trim (p : Char → Bool) (text : Text) : Text := ((text.dropWhile p).reverse.dropWhile p).reverse

def strip (text : Text) : Text := trim isSpace text

/-- `str.split` without a separator. -/
def words (text : Text) : List Text := (text.splitOnP isSpace).filter (· ≠ [])

/-- The letters of ASCII in lower case. What is lowered here is only compared with
ASCII text none of whose letters is the lower case of a character outside ASCII. -/
def lower (text : Text) : Text := text.map Char.toLower

/-- `text.replace("\r\n", "\n")`. -/
def replaceCrlf : Text → Text
  | [] => []
  | '\r' :: '\n' :: rest => '\n' :: replaceCrlf rest
  | c :: rest => c :: replaceCrlf rest

def decimalDigit (c : Char) : Option Nat :=
  if '0' ≤ c ∧ c ≤ '9' then some (c.toNat - '0'.toNat) else none

/-- Digits with single underscores between them; `afterDigit` says whether the
character before was a digit. -/
def decimalDigits (acc : Nat) (afterDigit : Bool) : Text → Option Nat
  | [] => if afterDigit then some acc else none
  | c :: cs =>
    if c = '_' then
      if afterDigit then decimalDigits acc false cs else none
    else
      match decimalDigit c with
      | some d => decimalDigits (acc * 10 + d) true cs
      | none => none

/-- The most digits `int` reads. -/
def maxDigits : Nat := 4300

def magnitude (text : Text) : Option Nat :=
  if maxDigits < (text.filter (· ≠ '_')).length then none else decimalDigits 0 false text

/-- `int(text)`; `none` is the `ValueError`. -/
def int (text : Text) : Option Int :=
  let ascii := if text.all fun c => c.toNat < 128 then text else text.map PyInt.toAscii
  match trim PyInt.isSpace ascii with
  | '+' :: cs => (magnitude cs).map Int.ofNat
  | '-' :: cs => (magnitude cs).map fun n => -Int.ofNat n
  | cs => (magnitude cs).map Int.ofNat

/-! ## The SDP -/

def codecEncoding : List (Text × Text) :=
  [("codec:audio/opus".toList, "opus".toList), ("codec:audio/pcmu".toList, "PCMU".toList),
    ("codec:audio/pcma".toList, "PCMA".toList), ("codec:audio/g722".toList, "G722".toList),
    ("codec:video/h264".toList, "H264".toList), ("codec:video/vp8".toList, "VP8".toList),
    ("codec:video/vp9".toList, "VP9".toList), ("codec:video/av1".toList, "AV1".toList)]

def directions : List Text := ["sendrecv".toList, "sendonly".toList, "recvonly".toList, "inactive".toList]

def secureProtocols : List Text :=
  ["UDP/TLS/RTP/SAVPF".toList, "UDP/TLS/RTP/SAVP".toList, "TCP/TLS/RTP/SAVPF".toList,
    "RTP/SAVPF".toList, "RTP/SAVP".toList]

/-- The name of an attribute, and its value if it has one. -/
abbrev Attr := Text × Option Text

/-- `val.partition(":")`. -/
def attrOf (val : Text) : Attr :=
  (val.takeWhile (· ≠ ':'), if ':' ∈ val then some ((val.dropWhile (· ≠ ':')).drop 1) else none)

structure Section where
  kind : Text
  port : Int
  protocol : Text
  formats : List Text
  attrs : List Attr

/-- The first direction among attributes. -/
def directionOf (attrs : List Attr) : Option Text :=
  (attrs.find? fun a => a.1 ∈ directions && a.2 = none).map (·.1)

/-- The encoding name of an `rtpmap` value. -/
def encodingOf (value : Text) : Option Text :=
  if ' ' ∈ value then
    some (lower ((((value.dropWhile (· ≠ ' ')).drop 1).splitOn '/').headD []))
  else none

namespace Section

variable (s : Section)

def values (name : Text) : List Text := (s.attrs.filter (·.1 = name)).filterMap (·.2)

def has (name : Text) : Bool := s.attrs.any (·.1 = name)

def direction (default : Text) : Text := (directionOf s.attrs).getD default

def encodings : List Text := (s.values "rtpmap".toList).filterMap encodingOf

end Section

structure Sdp where
  sessionAttrs : List Attr
  sections : List Section

namespace Sdp

variable (sdp : Sdp)

def sessionValue (name : Text) : Option Text := (sdp.sessionAttrs.find? (·.1 = name)).bind (·.2)

def sessionDirection : Option Text := directionOf sdp.sessionAttrs

/-- An attribute belongs to the last section, or to the session before the
first. -/
def addAttr (a : Attr) : Sdp :=
  if sdp.sections = [] then { sdp with sessionAttrs := sdp.sessionAttrs ++ [a] }
  else { sdp with sections := sdp.sections.modifyLast fun s => { s with attrs := s.attrs ++ [a] } }

/-- The sections that are not rejected. -/
def live : List Section := sdp.sections.filter (·.port ≠ 0)

/-- An `m=` line. -/
def addSection (val : Text) : Option Sdp :=
  match words val with
  | kind :: port :: protocol :: formats =>
    (int ((port.splitOn '/').headD [])).map fun port =>
      { sdp with sections := sdp.sections ++ [⟨kind, port, protocol, formats, []⟩] }
  | _ => none

def addLine (raw : Text) : Option Sdp :=
  match strip raw with
  | 'm' :: '=' :: val => sdp.addSection val
  | 'a' :: '=' :: val => some (sdp.addAttr (attrOf val))
  | _ => some sdp

end Sdp

def parseSdp (text : Text) : Option Sdp :=
  if "v=0".toList.isPrefixOf text then
    ((replaceCrlf text).splitOn '\n').foldlM Sdp.addLine ⟨[], []⟩
  else none

/-! ## The checks -/

def attr (sdp : Sdp) (sec : Section) (name : Text) : Option Text :=
  (sec.values name).head?.or (sdp.sessionValue name)

/-- A codec of the mapping that no `rtpmap` of the section names. -/
def codecMissing (sec : Section) (codec : Text) : Bool :=
  (codecEncoding.lookup codec).any fun name => lower name ∉ sec.encodings

/-- The checks of one section, in order. -/
def checkSection (sdp : Sdp) (isAnswer : Bool) (desc : Descriptor) (sec : Section) :
    Except (String × String) Unit := do
  let bad := if isAnswer then "media.failed" else "media.unsupported"
  if some sec.kind ≠ desc.kind then throw ("binding-kind-mismatch", bad)
  if sec.protocol ∉ secureProtocols then
    throw ("binding-encryption", if isAnswer then bad else "media.encryption-required")
  if some (sec.direction (sdp.sessionDirection.getD "sendrecv".toList)) ≠ desc.direction then
    throw ("binding-direction-mismatch", bad)
  if desc.codecs.any (codecMissing sec) then throw ("binding-codec-missing", bad)
  if sec.has "rtcp-mux".toList = false then throw ("binding-rtcp-mux-missing", bad)
  if (attr sdp sec "fingerprint".toList).any (fun fp => "sha-256 ".toList.isPrefixOf (lower fp)) = false then
    throw ("binding-fingerprint-missing", bad)
  if attr sdp sec "ice-ufrag".toList = none ∨ attr sdp sec "ice-pwd".toList = none then
    throw ("binding-ice-credentials-missing", bad)
  let setup := attr sdp sec "setup".toList
  if isAnswer then
    if setup ≠ some "active".toList ∧ setup ≠ some "passive".toList then
      throw ("binding-setup-invalid", bad)
  else if setup ≠ some "actpass".toList then throw ("binding-setup-invalid", bad)

/-- The checks of a description that selects this binding. -/
def checkSdp (t : Transport) (media : List Descriptor) (isAnswer : Bool) (offerSdp : Option Sdp) :
    Except (String × String) Unit := do
  let bad := if isAnswer then "media.failed" else "media.unsupported"
  if ¬ isAnswer ∧ isTrickle t.ice = false then throw ("binding-ice-mode", bad)
  if isAnswer ∧ t.ice.isSome ∧ isTrickle t.ice = false then throw ("binding-ice-mode", bad)
  let sdpText := t.sdp.getD []
  if sdpText = [] then
    throw ("binding-sdp-missing", if isAnswer then "media.failed" else "media.offer-required")
  match parseSdp sdpText with
  | none => throw ("binding-sdp-invalid", bad)
  | some sdp =>
    if isAnswer ∧ offerSdp.any (fun offer => sdp.sections.length ≠ offer.sections.length) then
      throw ("binding-section-count", bad)
    if sdp.live.any (·.kind = "application".toList) then throw ("binding-extra-section", bad)
    if sdp.live.length ≠ media.length then throw ("binding-section-count", bad)
    (media.zip sdp.live).forM fun p => checkSection sdp isAnswer p.1 p.2

def checkDescription (payload : Payload) (isAnswer : Bool) (offerSdp : Option Sdp) : Verdict :=
  let t := payload.transports.headD ⟨none, none, none⟩
  if t.id ≠ some webrtc then .accept "not-webrtc"
  else
    match checkSdp t payload.media isAnswer offerSdp with
    | .ok () => .accept none
    | .error (code, reason) => .reject code reason

def checkOffer (payload : Payload) : Verdict := checkDescription payload false none

def checkAnswer (offer answer : Payload) : Verdict :=
  let otr := offer.transports.headD ⟨none, none, none⟩
  checkDescription answer true (otr.sdp.bind parseSdp)

end Dsip.Binding
