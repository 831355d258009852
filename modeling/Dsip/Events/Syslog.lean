import Dsip.Events.Ber
import Dsip.Lib.Utf8Replace

/-!
# Syslog

`parse_syslog`: RFC 5424 and RFC 3164. A reader takes what it reads from the front
of the bytes that are left; a position of the source is the length of what is
before them.
-/

namespace Dsip.Events

open Dsip.Lib

/-- The bytes of an ASCII literal. -/
def ascii (s : String) : Bytes := s.toList.map fun c => UInt8.ofNat c.toNat

/-- `decode("ascii")`, of bytes that are. -/
def asciiText (b : Bytes) : String := String.ofList (b.map fun a => Char.ofNat a.toNat)

def text (b : Bytes) : String := String.ofList (Utf8Replace.decode b)

/-- `_msg`. -/
def msgText (b : Bytes) : String :=
  String.ofList ((Utf8Replace.decode b).reverse.dropWhile (fun c => c = '\r' ∨ c = '\n')).reverse

def isDigitByte (a : UInt8) : Bool := 0x30 ≤ a ∧ a ≤ 0x39

/-- A printable ASCII byte that is no space. -/
def isVisible (a : UInt8) : Bool := 33 ≤ a ∧ a ≤ 126

/-- The number that digits say. -/
def digitsValue (b : Bytes) : Nat := b.foldl (fun n a => n * 10 + (a.toNat - 0x30)) 0

structure SdParam where
  name : String
  value : String
  deriving DecidableEq, Repr

structure SdElement where
  id : String
  params : List SdParam
  deriving DecidableEq, Repr

inductive SyslogFormat where
  | rfc5424
  | rfc3164
  deriving DecidableEq, Repr

/-- `parse_syslog`'s result. -/
structure Syslog where
  format : SyslogFormat
  facility : Nat
  severity : Nat
  timestamp : Option String
  hostname : Option String
  appName : Option String
  procid : Option String
  msgid : Option String
  structuredData : List SdElement
  msg : String
  deriving DecidableEq, Repr

/-! ## RFC 5424 -/

def skip (lead : Bytes) (b : Bytes) : Option Bytes :=
  if b.take lead.length = lead then some (b.drop lead.length) else none

def token (maxlen : Option Nat) (b : Bytes) : Option (Option String × Bytes) :=
  let tok := b.takeWhile (· ≠ 0x20)
  if tok.all isVisible ∧ tok ≠ [] ∧ ∀ n ∈ maxlen, tok.length ≤ n then
    some (if tok = ascii "-" then none else some (asciiText tok), b.dropWhile (· ≠ 0x20))
  else none

/-- A byte of a name in structured data: none of `= ]"`. -/
def isNameByte (a : UInt8) : Bool := isVisible a && !(a = 0x3D ∨ a = 0x20 ∨ a = 0x5D ∨ a = 0x22)

def sdName (b : Bytes) : Option (String × Bytes) :=
  let name := b.takeWhile isNameByte
  if 1 ≤ name.length ∧ name.length ≤ 32 then some (asciiText name, b.dropWhile isNameByte) else none

/-- A value up to its quote: a backslash escapes a quote, a backslash and a `]`,
and is one of two bytes of the value before any other. -/
def sdValue : Bytes → Option (Bytes × Bytes)
  | [] => none
  | c :: rest =>
    match rest with
    | [] => if c = 0x22 then some ([], []) else none
    | d :: rest₂ =>
      if c = 0x5C then
        (sdValue rest₂).map fun (v, r) =>
          (if d = 0x22 ∨ d = 0x5C ∨ d = 0x5D then (d :: v, r) else (c :: d :: v, r))
      else if c = 0x22 then some ([], d :: rest₂)
      else (sdValue (d :: rest₂)).map fun (v, r) => (c :: v, r)

/-- One parameter, with the space before it. -/
def sdParam (b : Bytes) : Option (SdParam × Bytes) := do
  let b ← skip (ascii " ") b
  let (name, b) ← sdName b
  let b ← skip (ascii "=\"") b
  let (value, b) ← sdValue b
  return (⟨name, text value⟩, b)

/-- The parameters. Each takes a byte at least, so that `fuel` is not used up where
it is the bytes there are. -/
def sdParams : Nat → Bytes → Option (List SdParam × Bytes)
  | 0, b => some ([], b)
  | fuel + 1, b =>
    if b.head? = some 0x20 then do
      let (param, b) ← sdParam b
      let (params, b) ← sdParams fuel b
      return (param :: params, b)
    else some ([], b)

def sdElement (b : Bytes) : Option (SdElement × Bytes) := do
  let b ← skip (ascii "[") b
  let (id, b) ← sdName b
  let (params, b) ← sdParams b.length b
  let b ← skip (ascii "]") b
  return (⟨id, params⟩, b)

def sdElements : Nat → Bytes → Option (List SdElement × Bytes)
  | 0, b => some ([], b)
  | fuel + 1, b =>
    if b.head? = some 0x5B then do
      let (element, b) ← sdElement b
      let (elements, b) ← sdElements fuel b
      return (element :: elements, b)
    else some ([], b)

/-- The fields before structured data. -/
structure SyslogHeader where
  timestamp : Option String
  hostname : Option String
  appName : Option String
  procid : Option String
  msgid : Option String
  deriving DecidableEq, Repr

/-- A field, with the space before it. -/
def headerField (maxlen : Option Nat) (b : Bytes) : Option (Option String × Bytes) := do
  let b ← skip (ascii " ") b
  token maxlen b

/-- The first part of `_parse_5424`, from the space after the version up to the
sixth space. -/
def headerFields (b : Bytes) : Option (SyslogHeader × Bytes) := do
  let (timestamp, b) ← headerField none b
  let (hostname, b) ← headerField (some 255) b
  let (appName, b) ← headerField (some 48) b
  let (procid, b) ← headerField (some 128) b
  let (msgid, b) ← headerField (some 32) b
  let b ← skip (ascii " ") b
  return (⟨timestamp, hostname, appName, procid, msgid⟩, b)

def structuredData (b : Bytes) : Option (List SdElement × Bytes) :=
  if b.head? = some 0x2D then some ([], b.drop 1)
  else if b.head? = some 0x5B then sdElements b.length b
  else none

/-- The message at the end, without a byte order mark. -/
def message5424 (b : Bytes) : Option String :=
  if b = [] then some ""
  else if b.head? = some 0x20 then
    some (msgText (if (b.drop 1).take 3 = [0xEF, 0xBB, 0xBF] then b.drop 4 else b.drop 1))
  else none

/-- `_parse_5424`, from the space after the version. -/
def parse5424 (pri : Nat) (b : Bytes) : Option Syslog := do
  let (header, b) ← headerFields b
  let (elements, b) ← structuredData b
  let msg ← message5424 b
  return {
    format := .rfc5424
    facility := pri / 8
    severity := pri % 8
    timestamp := header.timestamp
    hostname := header.hostname
    appName := header.appName
    procid := header.procid
    msgid := header.msgid
    structuredData := elements
    msg := msg }

/-! ## RFC 3164 -/

def months : List Bytes :=
  ["Jan", "Feb", "Mar", "Apr", "May", "Jun", "Jul", "Aug", "Sep", "Oct", "Nov", "Dec"].map ascii

/-- `TAG_BYTES`. -/
def isTagByte (a : UInt8) : Bool :=
  0x41 ≤ a ∧ a ≤ 0x5A ∨ 0x61 ≤ a ∧ a ≤ 0x7A ∨ 0x30 ≤ a ∧ a ≤ 0x39 ∨ a ∈ ascii "_.-/"

def ts3164 (b : Bytes) : Bool :=
  let dd := slice b 4 6
  let t := slice b 7 15
  16 ≤ b.length ∧ b[15]? = some 0x20 ∧ b.take 3 ∈ months ∧ b[3]? = some 0x20 ∧ b[6]? = some 0x20 ∧
    (dd[0]? = some 0x20 ∧ (∃ d ∈ dd[1]?, 0x31 ≤ d ∧ d ≤ 0x39) ∨
      dd.all isDigitByte ∧ 10 ≤ digitsValue dd ∧ digitsValue dd ≤ 31) ∧
    ([0, 1, 3, 4, 6, 7].all fun i => (t[i]?).any isDigitByte) ∧ t[2]? = some 0x3A ∧ t[5]? = some 0x3A ∧
    digitsValue (slice t 0 2) ≤ 23 ∧ digitsValue (slice t 3 5) ≤ 59 ∧ digitsValue (slice t 6 8) ≤ 59

/-- The hostname after a timestamp, and what follows. -/
def host3164 (after : Bytes) : Option String × Bytes :=
  let host := after.takeWhile isVisible
  let rest := after.dropWhile isVisible
  if host ≠ [] ∧ rest.head? = some 0x20 then (some (asciiText host), rest.drop 1) else (none, after)

/-- `\[([0-9]{1,10})\]:`: the digits, and what follows. -/
def pid3164 (b : Bytes) : Option (Bytes × Bytes) := do
  let b ← skip (ascii "[") b
  let digits := b.takeWhile isDigitByte
  guard (1 ≤ digits.length ∧ digits.length ≤ 10)
  let b ← skip (ascii "]:") (b.dropWhile isDigitByte)
  return (digits, b)

/-- The tag at the front of the content: the application, its process, and the
message. -/
def tag3164 (content : Bytes) : Option (String × Option String × Bytes) :=
  let tag := content.takeWhile isTagByte
  let rest := content.dropWhile isTagByte
  if 1 ≤ tag.length ∧ tag.length ≤ 32 then
    if rest.head? = some 0x3A then some (asciiText tag, none, rest.drop 1)
    else (pid3164 rest).map fun (digits, rest) => (asciiText tag, some (asciiText digits), rest)
  else none

def parse3164 (pri : Nat) (rest : Bytes) : Syslog :=
  let timestamp := if ts3164 rest then some (asciiText (rest.take 15)) else none
  let (hostname, content) := if ts3164 rest then host3164 (rest.drop 16) else (none, rest)
  let (appName, procid, msg) :=
    match tag3164 content with
    | some (app, pid, msg) => (some app, pid, if msg.head? = some 0x20 then msg.drop 1 else msg)
    | none => (none, none, content)
  { format := .rfc3164
    facility := pri / 8
    severity := pri % 8
    timestamp := timestamp
    hostname := hostname
    appName := appName
    procid := procid
    msgid := none
    structuredData := []
    msg := msgText msg }

/-! ## The two together -/

/-- `<([0-9]{1,3})>`, of a priority that may be. -/
def priority (b : Bytes) : Option (Nat × Bytes) := do
  let b ← skip (ascii "<") b
  let digits := b.takeWhile isDigitByte
  guard (1 ≤ digits.length ∧ digits.length ≤ 3)
  let b ← skip (ascii ">") (b.dropWhile isDigitByte)
  guard (¬ (1 < digits.length ∧ digits.head? = some 0x30) ∧ digitsValue digits ≤ 191)
  return (digitsValue digits, b)

/-- `([1-9][0-9]{0,2}) `: the version, and what follows with the space. -/
def version (b : Bytes) : Option (Bytes × Bytes) :=
  let digits := b.takeWhile isDigitByte
  let rest := b.dropWhile isDigitByte
  if 1 ≤ digits.length ∧ digits.length ≤ 3 ∧ digits.head? ≠ some 0x30 ∧ rest.head? = some 0x20 then
    some (digits, rest)
  else none

/-- `parse_syslog`; none where the message is malformed. -/
def parseSyslog (b : Bytes) : Option Syslog := do
  let (pri, rest) ← priority b
  match version rest with
  | some (v, rest) =>
    guard (v = ascii "1")
    parse5424 pri rest
  | none => return parse3164 pri rest

end Dsip.Events
