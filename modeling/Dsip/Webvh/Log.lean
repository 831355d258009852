import Dsip.Lib.PyInt
import Dsip.Webvh.Jcs

/-!
# The entries of a did:webvh log

What a line of a log has to be before its place in the log is looked at: I-JSON
of the right shape, with times, keys, identifiers and parameters that can be read.
-/

namespace Dsip.Webvh

open Dsip.Lib

/-- Where resolution stops: with a reason, or at an exception that nothing
catches. -/
inductive Stop where
  | reject (reason : String)
  | raises
  deriving DecidableEq, Repr

def member (ms : List (String × Json)) (name : String) : Option Json :=
  (ms.find? fun m => m.1 = name).map (·.2)

/-! ## I-JSON -/

def maxSafe : Int := 2 ^ 53 - 1

mutual

/-- No name twice in an object, and no integer out of range. -/
def isIJson : Json → Bool
  | .int n => -maxSafe ≤ n ∧ n ≤ maxSafe
  | .arr vs => areIJson vs
  | .obj ms => (ms.map (·.1)).Nodup ∧ membersIJson ms
  | .null => true
  | .bool _ => true
  | .str _ => true

def areIJson : List Json → Bool
  | [] => true
  | v :: vs => isIJson v && areIJson vs

def membersIJson : List (String × Json) → Bool
  | [] => true
  | (_, v) :: ms => isIJson v && membersIJson ms

end

def ijson (text : List Char) : Option Json := (Json.parse text).filter isIJson

mutual

/-- The object that `json.loads` makes of repeated names: the last one counts. -/
def lastWins : Json → Json
  | .arr vs => .arr (itemsLastWin vs)
  | .obj ms => .obj (membersLastWin ms)
  | .null => .null
  | .bool b => .bool b
  | .int n => .int n
  | .str s => .str s

def itemsLastWin : List Json → List Json
  | [] => []
  | v :: vs => lastWins v :: itemsLastWin vs

def membersLastWin : List (String × Json) → List (String × Json)
  | [] => []
  | (k, v) :: ms =>
    if k ∈ ms.map (·.1) then membersLastWin ms else (k, lastWins v) :: membersLastWin ms

end

/-! ## Base 58 -/

/-- One base-58 character or more. -/
def isBase58 (text : List Char) : Bool := text ≠ [] ∧ text.all fun ch => (base58Digit ch).isSome

theorem base58Decode_some {text : List Char} (h : isBase58 text = true) : ∃ data, base58Decode text = some data := by
  unfold isBase58 at h
  have hall := (of_decide_eq_true h).2
  have hdigits : ∃ digits, text.mapM base58Digit = some digits := by
    clear h
    induction text with
    | nil => exact ⟨[], rfl⟩
    | cons ch text ih =>
      rw [List.all_cons, Bool.and_eq_true] at hall
      obtain ⟨d, hd⟩ := Option.isSome_iff_exists.mp hall.1
      obtain ⟨ds, hds⟩ := ih hall.2
      refine ⟨d :: ds, ?_⟩
      rw [List.mapM_cons, hd, hds]
      rfl
  obtain ⟨digits, hdigits⟩ := hdigits
  unfold base58Decode
  rw [hdigits]
  exact ⟨_, rfl⟩

def isMh (s : String) : Bool :=
  isBase58 s.toList ∧ (base58Decode s.toList).any fun raw => raw.take 2 = mhSha256 ∧ raw.length = 34

def multikeyPub (mk : String) : Option Bytes :=
  match mk.toList with
  | 'z' :: text =>
    if isBase58 text then
      ((base58Decode text).filter fun raw => raw.take 2 = [0xED, 0x01] ∧ raw.length = 34).map
        (·.drop 2)
    else none
  | _ => none

/-! ## Times -/

/-- The value of a decimal digit, of any script. -/
def decimal (c : Char) : Option Nat :=
  if c.isDigit then some (c.toNat - '0'.toNat)
  else (PyInt.wideZeros.find? fun base => base ≤ c.toNat ∧ c.toNat < base + 10).map (c.toNat - ·)

def decimals (text : List Char) : Option Nat := text.foldlM (fun n c => (decimal c).map (n * 10 + ·)) 0

/-- An ASCII digit in a range. -/
def digitIn (lo hi : Nat) (c : Char) : Bool := '0'.toNat + lo ≤ c.toNat ∧ c.toNat ≤ '0'.toNat + hi

def isLeap (year : Nat) : Bool := year % 4 = 0 ∧ (year % 100 ≠ 0 ∨ year % 400 = 0)

def daysIn (year month : Nat) : Nat :=
  if month = 2 then if isLeap year then 29 else 28
  else if month ∈ [4, 6, 9, 11] then 30
  else 31

def ordinal (year month day : Nat) : Int :=
  let y := year - 1
  ((y * 365 + y / 4 - y / 100 + y / 400 + ((List.range' 1 (month - 1)).map (daysIn year)).sum + day :
    Nat) : Int) - 719163

/-- A fraction of a second, in nanoseconds, and what follows it. -/
def fraction : List Char → Option (Nat × List Char)
  | '.' :: rest =>
    let digits := rest.takeWhile fun c => (decimal c).isSome
    if 1 ≤ digits.length ∧ digits.length ≤ 9 then
      (decimals (digits ++ List.replicate (9 - digits.length) '0')).map
        (·, rest.dropWhile fun c => (decimal c).isSome)
    else none
  | rest => some (0, rest)

/-- `parse_time`: nanoseconds since the epoch. The first digits of month to
second are ASCII, and so are second digits that are bounded. -/
def parseTime (s : String) : Option Int :=
  match s.toList with
  | y₁ :: y₂ :: y₃ :: y₄ :: '-' :: m₁ :: m₂ :: '-' :: d₁ :: d₂ :: 'T' :: h₁ :: h₂ :: ':' ::
      n₁ :: n₂ :: ':' :: s₁ :: s₂ :: rest => do
      let (nanos, rest) ← fraction rest
      guard (rest = ['Z'] ∨ rest = "+00:00".toList)
      guard (m₁ = '0' ∧ digitIn 1 9 m₂ ∨ m₁ = '1' ∧ digitIn 0 2 m₂)
      guard (d₁ = '0' ∧ digitIn 1 9 d₂ ∨ digitIn 1 2 d₁ ∨ d₁ = '3' ∧ digitIn 0 1 d₂)
      guard (digitIn 0 1 h₁ ∨ h₁ = '2' ∧ digitIn 0 3 h₂)
      guard (digitIn 0 5 n₁ ∧ digitIn 0 5 s₁)
      let year ← decimals [y₁, y₂, y₃, y₄]
      let month ← decimals [m₁, m₂]
      let day ← decimals [d₁, d₂]
      let hour ← decimals [h₁, h₂]
      let minute ← decimals [n₁, n₂]
      let second ← decimals [s₁, s₂]
      guard (1 ≤ year ∧ day ≤ daysIn year month)
      return (ordinal year month day * 86400 + (hour * 3600 + minute * 60 + second : Nat)) * 10 ^ 9 + nanos
  | _ => none

/-! ## Identifiers -/

/-- `str.partition("%3A")`: what is before it and after it. -/
def partitionPort : List Char → List Char × List Char
  | [] => ([], [])
  | '%' :: '3' :: 'A' :: rest => ([], rest)
  | c :: rest =>
    let (host, port) := partitionPort rest
    (c :: host, port)

def isLdh (c : Char) : Bool := c.isAlphanum || c = '-'

/-- The bytes of a path segment, percent-decoded. -/
def segmentBytes : List Char → Option (List Nat)
  | [] => some []
  | '%' :: a :: b :: rest => do
      let a ← Json.hexValue a
      let b ← Json.hexValue b
      return (a * 16 + b) :: (← segmentBytes rest)
  | c :: rest =>
    if c.isAlphanum || c ∈ ['.', '_', '~', '-'] then (segmentBytes rest).map (c.toNat :: ·) else none

def whiteSpace : List Nat :=
  [0x09, 0x0A, 0x0B, 0x0C, 0x0D, 0x20, 0x85, 0xA0, 0x1680, 0x2028, 0x2029, 0x202F, 0x205F, 0x3000] ++
    List.range' 0x2000 11

def isWhite (c : Char) : Bool := c.toNat ∈ whiteSpace

def segmentOk (text : List Char) : Bool :=
  text ≠ [] ∧ ((segmentBytes text).bind utf8Decode).any fun decoded =>
    decoded ≠ ['.'] ∧ decoded ≠ ['.', '.'] ∧ ¬ decoded.any (fun c => c = '/' ∨ c = '\\' ∨ c.toNat = 0) ∧
        ¬ decoded.head?.any isWhite ∧ ¬ decoded.getLast?.any isWhite

def portOk (port : List Char) : Bool :=
  port.length ≤ 5 ∧ port.all Char.isDigit ∧ 1 ≤ Nat.ofDigitChars 10 port 0 ∧
    Nat.ofDigitChars 10 port 0 ≤ 65535

/-- `check_did`: the SCID of a did:webvh DID. -/
def checkDid (did : String) : Option String := do
  let stem := "did:webvh:".toList
  guard (stem.isPrefixOf did.toList)
  let scid :: domain :: path := (did.toList.drop stem.length).splitOn ':' | none
  guard (scid.length = 46 ∧ isBase58 scid)
  let (host, port) := partitionPort domain
  guard (port = [] ∨ portOk port)
  let labels := host.splitOn '.'
  guard (2 ≤ labels.length ∧ labels.all fun label => 1 ≤ label.length ∧ label.length ≤ 63 ∧ label.all isLdh)
  guard ¬ (labels.all fun label => label.all Char.isDigit)
  guard (path.all segmentOk)
  return String.ofList scid

/-! ## Parameters -/

/-- A witness configuration that is not empty. -/
structure Witness where
  threshold : Int
  witnesses : List String
  deriving DecidableEq, Repr

/-- The parameters that an entry gives. Those that nothing reads are left out. -/
structure Params where
  scid : Option String
  updateKeys : Option (List String)
  nextKeyHashes : Option (List String)
  witness : Option (Option Witness)
  portable : Option Bool
  deactivated : Option Bool
  ttl : Option Int
  deriving DecidableEq, Repr

/-- `PARAMS`. -/
def paramNames : List String :=
  ["method", "scid", "updateKeys", "nextKeyHashes", "witness", "watchers", "portable", "deactivated", "ttl"]

/-- A member that may be missing, read if it is there. -/
def optional {α : Type} (ms : List (String × Json)) (name : String) (read : Json → Option α) :
    Except Stop (Option α) :=
  match member ms name with
  | none => .ok none
  | some v =>
    match read v with
    | some a => .ok (some a)
    | none => .error (.reject "parameters")

def asString : Json → Option String
  | .str s => some s
  | _ => none

def asStrings : Json → Option (List String)
  | .arr vs => vs.mapM asString
  | _ => none

def asBool : Json → Option Bool
  | .bool b => some b
  | _ => none

/-- `ttl`. -/
def asTtl : Json → Option Int
  | .int n => if 0 ≤ n ∧ n ≤ 2 ^ 31 then some n else none
  | _ => none

def asKeys (v : Json) : Option (List String) :=
  (asStrings v).filter fun keys => keys.all fun k => (multikeyPub k).isSome

/-- The id of a witness, if it is a `did:key` of an Ed25519 key. -/
def witnessId : Json → Option String
  | .str id =>
    if "did:key:".toList.isPrefixOf id.toList ∧
        (multikeyPub (String.ofList (id.toList.drop 8))).isSome then some id
    else none
  | _ => none

/-- Arrays and objects, of which a set cannot be made. -/
def isUnhashable : Json → Bool
  | .arr _ => true
  | .obj _ => true
  | _ => false

/-- The `witness` parameter. -/
def asWitness : Json → Except Stop (Option Witness)
  | .obj [] => .ok none
  | .obj ms =>
    match ms.length, member ms "threshold", member ms "witnesses" with
    | 2, some threshold, some (.arr (w :: ws)) =>
      let ids := (w :: ws).map fun
        | .obj x => (member x "id").getD .null
        | _ => .null
      if ids.any isUnhashable then .error .raises
      else
        match ids.mapM witnessId, threshold with
        | some ids, .int t =>
          if ids.Nodup ∧ 1 ≤ t ∧ t ≤ ids.length then .ok (some ⟨t, ids⟩)
          else .error (.reject "parameters")
        | _, _ => .error (.reject "parameters")
    | _, _, _ => .error (.reject "parameters")
  | _ => .error (.reject "parameters")

/-- `check_params`, of entry `n`. -/
def checkParams (p : Json) (n : Nat) : Except Stop Params := do
  let .obj ms := p | .error (.reject "parameters")
  let bad : Except Stop Unit := .error (.reject "parameters")
  if ¬ (ms.all fun m => m.1 ∈ paramNames) then bad
  let method ← optional ms "method" asString
  let scid ← optional ms "scid" fun v => (asString v).filter isMh
  let updateKeys ← optional ms "updateKeys" asKeys
  if n = 1 ∧ (method = none ∨ scid = none ∨ updateKeys = none) then bad
  if n ≠ 1 ∧ scid ≠ none then bad
  if ¬ (method = none ∨ method = some "did:webvh:1.0") then bad
  let nextKeyHashes ← optional ms "nextKeyHashes" asStrings
  let _ ← optional ms "watchers" asStrings
  let portable ← optional ms "portable" asBool
  let deactivated ← optional ms "deactivated" asBool
  let ttl ← optional ms "ttl" asTtl
  if 1 < n ∧ portable = some true then bad
  let witness ←
    match member ms "witness" with
    | none => pure none
    | some w => (asWitness w).map some
  return { scid, updateKeys, nextKeyHashes, witness, portable, deactivated, ttl }

/-! ## Entries -/

/-- An entry of the right shape. -/
structure Entry where
  versionId : String
  versionTime : Json
  parameters : Json
  state : List (String × Json)
  proof : List Json
  deriving Repr

def readEntry (line : List Char) : Option Entry :=
  match ijson line with
  | some (.obj ms) =>
    match ms.length, member ms "versionId", member ms "versionTime", member ms "parameters",
      member ms "state", member ms "proof" with
    | 5, some (.str versionId), some versionTime, some parameters, some (.obj state),
      some (.arr (p :: ps)) => some ⟨versionId, versionTime, parameters, state, p :: ps⟩
    | _, _, _, _, _, _ => none
  | _ => none

/-- An entry without its proofs, with this for its `versionId`. -/
def Entry.body (e : Entry) (versionId : String) : Json :=
  .obj [("parameters", e.parameters), ("state", .obj e.state), ("versionId", .str versionId),
    ("versionTime", e.versionTime)]

/-- How many digits `int` takes. -/
def maxDigits : Nat := 4300

/-- The number and the hash of a `versionId`, if it has their form. -/
def versionParts (versionId : String) : Option (List Char × List Char) :=
  let digits := versionId.toList.takeWhile Char.isDigit
  match versionId.toList.dropWhile Char.isDigit with
  | '-' :: rest => if digits ≠ [] ∧ digits.head? ≠ some '0' then some (digits, rest) else none
  | _ => none

/-- `int` of decimal digits. -/
def intOf (digits : List Char) : Except Stop Nat :=
  if digits.length ≤ maxDigits then .ok (Nat.ofDigitChars 10 digits 0) else .error .raises

end Dsip.Webvh
