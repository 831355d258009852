import Dsip.Binding.Sdp

/-!
# The same in TypeScript

`binding.ts`. Its parser reads only lines of the form `x=`, takes the words of an
`m=` line between single blanks, and keeps the port and the attributes as they are
written.
-/

namespace Dsip.Binding.Ts

open Dsip.Lib

/-! ## Text -/

/-- `text.split(/\r?\n/)`. -/
def splitLines : Text → List Text
  | [] => [[]]
  | '\r' :: '\n' :: rest => [] :: splitLines rest
  | '\n' :: rest => [] :: splitLines rest
  | c :: rest => (splitLines rest).modifyHead (c :: ·)

/-- What `Number` takes for white space. -/
def numberSpace (c : Char) : Bool :=
  PyInt.isSpace c ||
    c.toNat ∈ [0xa0, 0x1680, 0x2000, 0x2001, 0x2002, 0x2003, 0x2004, 0x2005, 0x2006, 0x2007, 0x2008,
      0x2009, 0x200a, 0x2028, 0x2029, 0x202f, 0x205f, 0x3000, 0xfeff]

/-- Digits of a radix, all zero. -/
def radixZero (digit : Char → Bool) (ds : Text) : Bool := ds ≠ [] && ds.all digit && ds.all (· = '0')

def natOf (ds : Text) : Nat := ds.foldl (fun n c => n * 10 + (c.toNat - '0'.toNat)) 0

/-- The exponent of a decimal literal. -/
def exponentOf : Text → Option Int
  | [] => some 0
  | e :: rest =>
    let (negative, ds) :=
      match rest with
      | '-' :: ds => (true, ds)
      | '+' :: ds => (false, ds)
      | ds => (false, ds)
    if (e = 'e' ∨ e = 'E') ∧ ds ≠ [] ∧ ds.all Char.isDigit then
      some (if negative then -(natOf ds : Int) else natOf ds)
    else none

/-- The digits after the point of a decimal literal, and what follows them. -/
def fractionOf : Text → Text × Text
  | '.' :: rest => (rest.takeWhile Char.isDigit, rest.dropWhile Char.isDigit)
  | rest => ([], rest)

/-- What is at most one part in this many rounds to zero. -/
def underflow : Nat := 2 ^ 1075

/-- A decimal literal without sign, of value zero: no digit but zeros before the
exponent, or so small that it rounds to zero. -/
def decimalZero (text : Text) : Bool :=
  let whole := text.takeWhile Char.isDigit
  let (fraction, rest) := fractionOf (text.dropWhile Char.isDigit)
  match exponentOf rest with
  | none => false
  | some exponent =>
    let m := natOf (whole ++ fraction)
    let e := exponent - fraction.length
    whole ++ fraction ≠ [] && (m = 0 || (e < 0 && m * underflow ≤ 10 ^ e.natAbs))

/-- `Number(text) === 0`. -/
def numberIsZero (text : Text) : Bool :=
  match trim numberSpace text with
  | [] => true
  | c :: cs =>
    if c = '+' ∨ c = '-' then decimalZero cs
    else
      match c, cs with
      | '0', x :: ds =>
        if x = 'x' ∨ x = 'X' then
          radixZero (fun c => c.isDigit || ('a' ≤ c && c ≤ 'f') || ('A' ≤ c && c ≤ 'F')) ds
        else if x = 'o' ∨ x = 'O' then radixZero (fun c => '0' ≤ c && c ≤ '7') ds
        else if x = 'b' ∨ x = 'B' then radixZero (fun c => c = '0' || c = '1') ds
        else decimalZero (c :: cs)
      | _, _ => decimalZero (c :: cs)

/-! ## The SDP -/

def rtpmap : List (Text × Text) :=
  [("codec:audio/opus".toList, "opus/48000/2".toList), ("codec:video/h264".toList, "H264/90000".toList),
    ("codec:video/vp8".toList, "VP8/90000".toList), ("codec:video/av1".toList, "AV1/90000".toList)]

structure Section where
  kind : Text
  port : Text
  proto : Text
  attributes : List Text

structure Sdp where
  session : List Text
  sections : List Section

/-- `/^[a-z]=/`. -/
def wellFormed : Text → Bool
  | k :: '=' :: _ => 'a' ≤ k && k ≤ 'z'
  | _ => false

namespace Sdp

variable (sdp : Sdp)

def addAttribute (a : Text) : Sdp :=
  if sdp.sections = [] then { sdp with session := sdp.session ++ [a] }
  else { sdp with sections := sdp.sections.modifyLast fun s => { s with attributes := s.attributes ++ [a] } }

def addSection (val : Text) : Option Sdp :=
  match val.splitOn ' ' with
  | kind :: port :: proto :: _ => some { sdp with sections := sdp.sections ++ [⟨kind, port, proto, []⟩] }
  | _ => none

def addLine : Text → Option Sdp
  | 'm' :: '=' :: val => sdp.addSection val
  | 'a' :: '=' :: val => some (sdp.addAttribute val)
  | _ => some sdp

/-- The sections that are not rejected; a port that is no number is not `0`. -/
def live : List Section := sdp.sections.filter fun s => numberIsZero s.port = false

end Sdp

def parseSdp (text : Text) : Option Sdp :=
  let lines := (splitLines text).filter (· ≠ [])
  if lines.head? ≠ some "v=0".toList ∨ lines.all wellFormed = false then none
  else
    match lines.foldlM Sdp.addLine ⟨[], []⟩ with
    | none => none
    | some sdp => if sdp.sections = [] then none else some sdp

/-! ## The checks -/

/-- `a === name || a.startsWith(name + ":")`. -/
def names (name a : Text) : Bool := a = name || (name ++ [':']).isPrefixOf a

/-- `attribute`. -/
def attributeOf (sdp : Sdp) (sec : Section) (name : Text) : Option Text :=
  (sec.attributes.find? (names name)).or (sdp.session.find? (names name))

def direction (sdp : Sdp) (sec : Section) : Text :=
  ((directions.find? (· ∈ sec.attributes)).or (directions.find? (· ∈ sdp.session))).getD
    "sendrecv".toList

/-- The second word of every `rtpmap`. -/
def rtpmaps (sec : Section) : List (Option Text) :=
  (sec.attributes.filter fun a => "rtpmap:".toList.isPrefixOf a).map fun a =>
    ((a.splitOn ' ')[1]?).map lower

def codecMissing (sec : Section) (codec : Text) : Bool :=
  (rtpmap.lookup codec).any fun mapped => some (lower mapped) ∉ rtpmaps sec

/-- The descriptor against its section. -/
def checkKind (sdp : Sdp) (bad : String) (desc : Descriptor) (sec : Section) :
    Except (String × String) Unit := do
  if some sec.kind ≠ desc.kind then throw ("binding-kind-mismatch", bad)
  if direction sdp sec ≠ desc.direction.getD "sendrecv".toList then
    throw ("binding-direction-mismatch", bad)
  if desc.codecs.any (codecMissing sec) then throw ("binding-codec-missing", bad)

def checkProfile (sdp : Sdp) (isAnswer : Bool) (sec : Section) : Except (String × String) Unit := do
  let bad := if isAnswer then "media.failed" else "media.unsupported"
  if ¬ "SAVP".toList <:+: sec.proto then
    throw ("binding-encryption", if isAnswer then bad else "media.encryption-required")
  if attributeOf sdp sec "rtcp-mux".toList = none then throw ("binding-rtcp-mux-missing", bad)
  if (attributeOf sdp sec "fingerprint".toList).any
      (fun a => "fingerprint:sha-256 ".toList.isPrefixOf (lower a)) = false then
    throw ("binding-fingerprint-missing", bad)
  if attributeOf sdp sec "ice-ufrag".toList = none ∨ attributeOf sdp sec "ice-pwd".toList = none then
    throw ("binding-ice-credentials-missing", bad)
  let setup := (attributeOf sdp sec "setup".toList).map (·.drop "setup:".length)
  if isAnswer then
    if setup ≠ some "active".toList ∧ setup ≠ some "passive".toList then
      throw ("binding-setup-invalid", bad)
  else if setup ≠ some "actpass".toList then throw ("binding-setup-invalid", bad)

def checkDescription (t : Transport) (media : List Descriptor) (isAnswer : Bool) (offered : Option Sdp) :
    Except (String × String) Sdp := do
  let bad := if isAnswer then "media.failed" else "media.unsupported"
  if isAnswer then
    if t.ice.isSome ∧ isTrickle t.ice = false then throw ("binding-ice-mode", bad)
  else if isTrickle t.ice = false then throw ("binding-ice-mode", bad)
  match t.sdp with
  | none => throw ("binding-sdp-missing", if isAnswer then "media.failed" else "media.offer-required")
  | some text =>
    match parseSdp text with
    | none => throw ("binding-sdp-invalid", bad)
    | some sdp =>
      if sdp.sections.any (·.kind = "application".toList) then throw ("binding-extra-section", bad)
      if sdp.live.length ≠ media.length then throw ("binding-section-count", bad)
      if offered.any (fun offer => offer.sections.length ≠ sdp.sections.length) then
        throw ("binding-section-count", bad)
      (media.zip sdp.live).forM fun p => checkKind sdp bad p.1 p.2
      sdp.live.forM (checkProfile sdp isAnswer)
      return sdp

def webrtcTransport (payload : Payload) : Option Transport := payload.transports.find? (·.id = some webrtc)

def verdictOf : Except (String × String) Sdp → Verdict
  | .ok _ => .accept none
  | .error (code, reason) => .reject code reason

def checkOffer (payload : Payload) : Verdict :=
  match webrtcTransport payload with
  | none => .accept "not-webrtc"
  | some t => verdictOf (checkDescription t payload.media false none)

def checkAnswer (offer payload : Payload) : Verdict :=
  match webrtcTransport payload with
  | none => .accept "not-webrtc"
  | some t =>
    let offered := parseSdp (((webrtcTransport offer).bind (·.sdp)).getD [])
    verdictOf (checkDescription t payload.media true offered)

end Dsip.Binding.Ts
