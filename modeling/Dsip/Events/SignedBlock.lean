import Dsip.Events.Syslog
import Dsip.Lib.Encodings
import Dsip.Lib.BigEndian

/-!
# Blocks of signed syslog

What the collector reads of a block message, and the bytes that its signature is
over: the message without the `SIGN` parameter, cut out by a scanner of its own.
-/

namespace Dsip.Events

open Dsip.Lib

/-! ## Scanning -/

/-- The scan of `element_end`: outside quotes, with a backslash and what follows it
passed over inside them. -/
def scanEnd (quoted : Bool) (i : Nat) : Bytes → Option Nat
  | [] => none
  | c :: rest =>
    if quoted ∧ c = 0x5C then
      match rest with
      | [] => none
      | _ :: rest₂ => scanEnd quoted (i + 2) rest₂
    else if c = 0x22 then scanEnd (!quoted) (i + 1) rest
    else if c = 0x5D ∧ ¬ quoted then some i
    else scanEnd quoted (i + 1) rest

def elementEnd (msg : Bytes) (start : Nat) : Option Nat :=
  if msg[start]? = some 0x5B then scanEnd false (start + 1) (msg.drop (start + 1)) else none

/-- The positions of the spaces of a message. -/
def spaces (msg : Bytes) : List Nat := (msg.zipIdx.filter fun p => p.1 = 0x20).map Prod.snd

/-- `msg[start:stop]`, where a negative `start` counts from the end. -/
def sliceFrom (msg : Bytes) (start : Int) (stop : Nat) : Bytes :=
  if 0 ≤ start then slice msg start.toNat stop else slice msg (msg.length + start).toNat stop

/-- The bytes of the `SIGN` parameter. -/
def signCut (sign : String) : Bytes := ascii " SIGN=\"" ++ utf8Encode sign.toList ++ ascii "\""

/-- The signed bytes of a message, with this `SIGN`; none where the scanner finds no
such parameter at the end of the element. -/
def signedBytes (msg : Bytes) (sign : String) : Option Bytes := do
  let sixth ← (spaces msg)[5]?
  let close ← elementEnd msg (sixth + 1)
  let cut := signCut sign
  guard (sliceFrom msg ((close : Int) - cut.length) close = cut)
  -- `close` is not below the length of `cut` where that is so
  return msg.take (close - cut.length) ++ msg.drop close

/-! ## Fields -/

def base64Value (c : Char) : Option Nat :=
  if 'A' ≤ c ∧ c ≤ 'Z' then some (c.toNat - 'A'.toNat)
  else if 'a' ≤ c ∧ c ≤ 'z' then some (c.toNat - 'a'.toNat + 26)
  else if '0' ≤ c ∧ c ≤ '9' then some (c.toNat - '0'.toNat + 52)
  else if c = '+' then some 62
  else if c = '/' then some 63
  else none

/-- The padding of `n` base64 digits. -/
def padding (n : Nat) : Option (List Char) :=
  match n % 4 with
  | 0 => some []
  | 2 => some ['=', '=']
  | 3 => some ['=']
  | _ => none

/-- `b64`: padded base64. -/
def b64 (s : String) : Option Bytes := do
  let digits := s.toList.takeWhile fun c => (base64Value c).isSome
  let pad ← padding digits.length
  guard (s.toList = digits ++ pad)
  let values ← digits.mapM base64Value
  let bytes ← digitBytes values
  return bytes.map UInt8.ofNat

/-- `mpis`: each takes two bytes at least, so that `fuel` is not used up where it is
the bytes there are. -/
def mpis : Nat → Bytes → Option (List Nat)
  | 0, _ => some []
  | fuel + 1, b =>
    if b = [] then some []
    else if b.length < 2 then none
    else
      let n := (beNat (b.take 2) + 7) / 8
      if b.length < 2 + n then none
      else (mpis fuel (b.drop (2 + n))).map (beNat (slice b 2 (2 + n)) :: ·)

def dec (s : String) (digits lo : Nat) (hi : Option Nat) : Option Nat :=
  let cs := s.toList
  if cs ≠ [] ∧ cs.all (fun c => '0' ≤ c ∧ c ≤ '9') ∧ (1 < cs.length → cs.head? ≠ some '0') ∧
      cs.length ≤ digits then
    let v := cs.foldl (fun n c => n * 10 + (c.toNat - '0'.toNat)) 0
    if lo ≤ v ∧ ∀ h ∈ hi, v ≤ h then some v else none
  else none

/-- The hash of a block, by its version. -/
inductive SignHash where
  | sha1
  | sha256
  deriving DecidableEq, Repr

/-- The digest sizes of `VERSIONS`. -/
def SignHash.size : SignHash → Nat
  | .sha1 => 20
  | .sha256 => 32

/-- The keys of `VERSIONS`. -/
def signVersion (ver : String) : Option SignHash :=
  if ver = "0111" then some .sha1 else if ver = "0121" then some .sha256 else none

inductive BlockKind where
  | ssign
  | ssignCert
  deriving DecidableEq, Repr

/-- `SIG_PARAMS` and `CERT_PARAMS`. -/
def BlockKind.params : BlockKind → List String
  | .ssign => ["VER", "RSID", "SG", "SPRI", "GBC", "FMN", "CNT", "HB", "SIGN"]
  | .ssignCert => ["VER", "RSID", "SG", "SPRI", "TPBL", "INDEX", "FLEN", "FRAG", "SIGN"]

/-- What a block of either kind says. -/
inductive BlockBody where
  | hashes (gbc fmn cnt : Nat) (hb : List Bytes)
  | fragment (tpbl index flen : Nat) (frag : Bytes)
  deriving DecidableEq, Repr

structure Block where
  ver : String
  rsid : Nat
  sg : Nat
  spri : Nat
  body : BlockBody
  sign : String
  r : Nat
  s : Nat
  deriving DecidableEq, Repr

/-- The value of a parameter; a dictionary of the values keeps the last. -/
def paramValue (params : List SdParam) (name : String) : String :=
  ((params.reverse.find? fun p => p.name = name).map SdParam.value).getD ""

local instance lawfulText : LawfulBEq (List Char) := inferInstance

/-- The hashes of a Signature Block. -/
def hashesOf (v : String → String) : Option BlockBody := do
  let gbc ← dec (v "GBC") 10 0 none
  let fmn ← dec (v "FMN") 10 1 none
  let cnt ← dec (v "CNT") 2 1 (some 99)
  let toks := (v "HB").toList.splitOn ' '
  guard (toks.length = cnt ∧ [] ∉ toks)
  let hb ← toks.mapM fun t => b64 (String.ofList t)
  guard (∀ alg ∈ signVersion (v "VER"), ∀ h ∈ hb, h.length = alg.size)
  return .hashes gbc fmn cnt hb

/-- The fragment of a Certificate Block. -/
def fragmentOf (v : String → String) : Option BlockBody := do
  let tpbl ← dec (v "TPBL") 8 1 none
  let index ← dec (v "INDEX") 8 1 none
  let flen ← dec (v "FLEN") 4 1 none
  let frag := utf8Encode (v "FRAG").toList
  guard (frag.length = flen ∧ index + flen - 1 ≤ tpbl)
  return .fragment tpbl index flen frag

/-- The fields that `_block` reads, if they are well formed. -/
def blockOf (kind : BlockKind) (elements : List SdElement) : Option Block :=
  match elements with
  | [element] => do
      guard (element.params.map SdParam.name = kind.params)
      let v := paramValue element.params
      guard ((v "VER").length = 4)
      let rsid ← dec (v "RSID") 10 0 none
      let sg ← dec (v "SG") 1 0 (some 3)
      let spri ← dec (v "SPRI") 3 0 (some 191)
      let numbers ← (b64 (v "SIGN")).bind fun b => mpis b.length b
      match numbers with
      | [r, s] => do
          let body ← match kind with
            | .ssign => hashesOf v
            | .ssignCert => fragmentOf v
          return ⟨v "VER", rsid, sg, spri, body, v "SIGN", r, s⟩
      | _ => none
  | _ => none

/-! ## Opening a block -/

inductive BlockRefusal where
  | malformedBlock
  | unsupportedVersion
  | unknownSigner
  | badSignature
  | oldSession
  | noSession
  | fragmentMismatch
  | payloadMismatch
  | unsupportedKeyBlob
  deriving DecidableEq, Repr

/-- A configured signer; there is no `pub` where the configured key does not read. -/
structure Signer (Key : Type) where
  type : String
  raw : Bytes
  gaps : Bool
  pub : Option Key

/-- DSA as the collector uses it. -/
structure Dsa (Key : Type) where
  q : Key → Nat
  verify : Key → Nat → Nat → Bytes → SignHash → Bool

/-- The first part of `_block`, up to the signature. -/
def openBlock {Key : Type} (dsa : Dsa Key) (signers : String → Option (Signer Key)) (msg : Bytes) (sl : Syslog)
    (kind : BlockKind) : Except BlockRefusal (Block × SignHash × Signer Key) := do
  let some block := blockOf kind sl.structuredData | throw .malformedBlock
  let some hash := signVersion block.ver | throw .unsupportedVersion
  let some signer := signers (sl.hostname.getD "").toLower | throw .unknownSigner
  let some signed := signedBytes msg block.sign | throw .malformedBlock
  let some key := signer.pub | throw .badSignature
  if (0 < block.r ∧ block.r < dsa.q key ∧ 0 < block.s ∧ block.s < dsa.q key) ∧
      dsa.verify key block.r block.s signed hash then
    return (block, hash, signer)
  else throw .badSignature

end Dsip.Events
