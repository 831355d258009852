import Dsip.Lib.Substitute
import Dsip.Webvh.IJson
import Dsip.Webvh.Resolve

/-!
# A resolution as Python runs it

`_resolve` over what `json.loads` gives, where each access to a dictionary, each iteration, set,
comparison, conversion and key is made on whatever type stands there, and raises on the wrong
one. `.raises` is an exception that `resolve` does not turn into an outcome.
-/

namespace Dsip.Webvh

open Dsip.Lib

namespace Host

abbrev Val := PyJson
abbrev Members := List (PyStr × PyJson)

/-! ## Values -/

def lit (s : String) : PyStr := .ofChars s.toList

/-- The text of a string without surrogates; no pattern of the module matches another. -/
def textOf : PyStr → Option (List Char)
  | [] => some []
  | .char c :: s => (textOf s).map (c :: ·)
  | .surrogate _ :: _ => none

/-- The text of a value, if it is a string and has one. -/
def strOf : Val → Option String
  | .str s => (textOf s).map String.ofList
  | _ => none

def isStr : Val → Bool
  | .str _ => true
  | _ => false

def isBool : Val → Bool
  | .bool _ => true
  | _ => false

/-- `isinstance(v, int)`, which a boolean is too. -/
def isInt : Val → Bool
  | .int _ | .bool _ => true
  | _ => false

def isList : Val → Bool
  | .arr _ => true
  | _ => false

def isDict : Val → Bool
  | .obj _ => true
  | _ => false

def isNone : Val → Bool
  | .null => true
  | _ => false

def truthy : Val → Bool
  | .null => false
  | .bool b => b
  | .int n => n ≠ 0
  | .float => true
  | .str s => s ≠ []
  | .arr vs => !vs.isEmpty
  | .obj ms => !ms.isEmpty

/-- `v == w`, where one of them is a string. -/
def equals : Val → Val → Bool
  | .str s, .str t => s = t
  | _, _ => false

/-- `v in vs`, where `v` is a string or the items of `vs` are. -/
def among (v : Val) (vs : List Val) : Bool := vs.any (equals v ·)

/-! ## What may raise -/

def lookup (ms : Members) (name : String) : Option Val := (ms.find? fun m => m.1 = lit name).map (·.2)

/-- `v[name]`. -/
def item (v : Val) (name : String) : Except Stop Val :=
  match v with
  | .obj ms =>
    match lookup ms name with
    | some w => .ok w
    | none => .error .raises
  | _ => .error .raises

/-- `v.get(name, default)`. -/
def get (v : Val) (name : String) (default : Val) : Except Stop Val :=
  match v with
  | .obj ms => .ok ((lookup ms name).getD default)
  | _ => .error .raises

/-- The members of a dictionary. -/
def members : Val → Except Stop Members
  | .obj ms => .ok ms
  | _ => .error .raises

/-- The items of a list, to go through. -/
def iter : Val → Except Stop (List Val)
  | .arr vs => .ok vs
  | _ => .error .raises

def number : Val → Except Stop Int
  | .int n => .ok n
  | .bool b => .ok (if b then 1 else 0)
  | _ => .error .raises

/-- A string, for what takes nothing else. -/
def string : Val → Except Stop PyStr
  | .str s => .ok s
  | _ => .error .raises

/-- `str.encode()`. -/
def encode (s : PyStr) : Except Stop Bytes :=
  match IJson.utf8 s with
  | some data => .ok data
  | none => .error .raises

/-- What a set tells apart: `True` is `1`. -/
def hashKey : Val → Option (Option (Int ⊕ PyStr))
  | .null | .float => some none
  | .bool b => some (some (.inl (if b then 1 else 0)))
  | .int n => some (some (.inl n))
  | .str s => some (some (.inr s))
  | .arr _ | .obj _ => none

/-- `set(vs)`: a list and a dictionary have no hash. -/
def setOf (vs : List Val) : Except Stop (List (Option (Int ⊕ PyStr))) :=
  match vs.mapM hashKey with
  | some keys => .ok keys.dedup
  | none => .error .raises

/-- `d[name] = v`. -/
def setItem (ms : Members) (name : String) (v : Val) : Members :=
  if ms.any (·.1 = lit name) then ms.map fun m => if m.1 = lit name then (m.1, v) else m
  else ms ++ [(lit name, v)]

/-- `d.update(p)`. -/
def update (ms p : Members) : Members :=
  p.foldl (fun ms m => if ms.any (·.1 = m.1) then ms.map fun m' => if m'.1 = m.1 then m else m' else ms ++ [m]) ms

/-- `{k: v for k, v in d.items() if k != name}`. -/
def without (ms : Members) (name : String) : Members := ms.filter (·.1 ≠ lit name)

/-- `jcs`. -/
def canonical (v : Val) : Except Stop Bytes :=
  match IJson.jcs v with
  | some data => .ok data
  | none => .error .raises

def b58Decode (s : PyStr) : Except Stop Bytes :=
  match (textOf s).bind base58Decode with
  | some data => .ok data
  | none => .error .raises

/-! ## Patterns -/

/-- `is_mh`. -/
def isMhValue (v : Val) : Bool := (strOf v).any isMh

/-- `multikey_pub`. -/
def multikeyPubValue (v : Val) : Option Bytes := (strOf v).bind multikeyPub

/-- `parse_time`. -/
def parseTimeValue (v : Val) : Option Int := (strOf v).bind parseTime

/-- `check_did`. -/
def checkDidValue (v : Val) : Except Stop String := require ((strOf v).bind checkDid) "invalid-did"

/-- `vm_multikey`. -/
def vmMultikeyValue (v : Val) : Option String := vmMultikey ((strOf v).map Json.str)

/-- The number and the rest of a `versionId`: `[1-9][0-9]*-`, and what follows. -/
def numberOf (s : PyStr) : Option (List Char × PyStr) :=
  match s.dropWhile PyChar.isDigit with
  | .char '-' :: rest =>
    if PyJson.digits s ≠ [] ∧ (PyJson.digits s).head? ≠ some '0' then some (PyJson.digits s, rest) else none
  | _ => none

/-! ## Proofs -/

section Checks

variable (c : Crypto)

/-- `ed25519_verify`: the library takes no key but bytes. -/
def ed25519Verify (pub : Option Bytes) (data sig : Bytes) : Except Stop Bool :=
  match pub with
  | some pub => .ok (c.ed25519Verify pub data sig)
  | none => .error .raises

def proofInput (document : Val) (proof : Members) : Except Stop Bytes := do
  let config ← canonical (.obj (without proof "proofValue"))
  let data ← canonical document
  return c.sha256 config ++ c.sha256 data

/-- What follows the `z` of a base-58 text. -/
def multibase (v : Val) : Option PyStr :=
  match v with
  | .str (.char 'z' :: s) => if (textOf s).any isBase58 then some s else none
  | _ => none

/-- Whether the value is a proof of the kind there is, apart from its signature. -/
def isProof (proof : Members) : Bool :=
  let has name value := (lookup proof name).any (equals · (.str (lit value)))
  has "type" "DataIntegrityProof" ∧ has "cryptosuite" "eddsa-jcs-2022" ∧ has "proofPurpose" "assertionMethod"

def proofOk (document proof : Val) (pub : Option Bytes) : Except Stop Bool :=
  match proof with
  | .obj ms =>
    if !isProof ms then .ok false
    else
      match multibase ((lookup ms "proofValue").getD .null) with
      | none => .ok false
      | some text => do
          let input ← proofInput c document ms
          let sig ← b58Decode text
          ed25519Verify c pub input sig
  | _ => .ok false

/-- The key that a proof names. -/
def proofKey (pr : Val) : Except Stop (Option String) := do
  let vm ← if isDict pr then get pr "verificationMethod" .null else pure .null
  return vmMultikeyValue vm

/-! ## Parameters -/

/-- Whether a value is a list of strings. -/
def stringList (v : Val) : Except Stop Bool :=
  if !isList v then .ok false else do return (← iter v).all isStr

/-- Whether a value is an integer in this range, and no boolean. -/
def between (v : Val) (lo hi : Int) : Except Stop Bool :=
  if !isInt v ∨ isBool v then .ok false
  else do
    let n ← number v
    return lo ≤ n ∧ n ≤ hi

/-- A check of a parameter that is there. -/
def given (p : Val) (name : String) (ok : Val → Except Stop Bool) : Except Stop Unit := do
  if lit name ∈ (← members p).map (·.1) then check (← ok (← item p name)) "parameters"
  else return ()

def params : List PyStr := paramNames.map lit

/-- `check_params` up to the witnesses. -/
def checkPlain (p : Val) (n : Nat) : Except Stop Unit := do
  check (isDict p) "parameters"
  let names := (← members p).map (·.1)
  check (names.all (· ∈ params)) "parameters"
  if n = 1 then check (["method", "scid", "updateKeys"].all fun k => lit k ∈ names) "parameters"
  else check (lit "scid" ∉ names) "parameters"
  given p "method" fun v => .ok (equals v (.str (lit "did:webvh:1.0")))
  given p "scid" fun v => .ok (isMhValue v)
  given p "updateKeys" stringList
  given p "nextKeyHashes" stringList
  given p "watchers" stringList
  given p "updateKeys" fun v => do return (← iter v).all fun k => (multikeyPubValue k).isSome
  given p "portable" fun v => .ok (isBool v)
  given p "deactivated" fun v => .ok (isBool v)
  given p "ttl" fun v => between v 0 (2 ^ 31)
  check (!(1 < n && (match ← get p "portable" .null with | .bool b => b | _ => false))) "parameters"

/-- `x.get("id") if isinstance(x, dict) else None`. -/
def witnessId (x : Val) : Except Stop Val := if isDict x then get x "id" .null else .ok .null

/-- `ids`. -/
def witnessIds (w : Val) : Except Stop (List Val) := do
  if isList (← get w "witnesses" .null) then (← iter (← get w "witnesses" (.arr []))).mapM witnessId
  else return []

/-- A `did:key` of an Ed25519 key. -/
def isWitnessKey (v : Val) : Bool :=
  (strOf v).any fun id =>
    "did:key:".toList.isPrefixOf id.toList ∧ (multikeyPub (String.ofList (id.toList.drop 8))).isSome

/-- The `witness` parameter. -/
def checkWitness (w : Val) : Except Stop Unit := do
  check (isDict w) "parameters"
  if truthy w then
    let ids ← witnessIds w
    let threshold ← get w "threshold" .null
    let names := (← members w).map (·.1)
    check (names.all (· ∈ [lit "threshold", lit "witnesses"]) ∧ lit "threshold" ∈ names ∧ lit "witnesses" ∈ names)
      "parameters"
    check (ids ≠ []) "parameters"
    check ((← setOf ids).length = ids.length) "parameters"
    check (ids.all isWitnessKey) "parameters"
    check (← between threshold 1 ids.length) "parameters"
  else return ()

def checkParams (p : Val) (n : Nat) : Except Stop Unit := do
  checkPlain p n
  if lit "witness" ∈ (← members p).map (·.1) then checkWitness (← item p "witness") else return ()

/-! ## One entry -/

/-- What the entries so far leave. -/
structure State where
  entries : List Val
  active : Members
  prevVid : Val
  prevTime : Option Int
  prevId : Val
  scid : Val
  due : List (Nat × Val)

def State.init : State where
  entries := []
  active := []
  prevVid := .null
  prevTime := none
  prevId := .null
  scid := .null
  due := []

def entryKeys : List PyStr := ["versionId", "versionTime", "parameters", "state", "proof"].map lit

/-- A line as an entry: `ijson`, and step 2. -/
def readEntry (line : PyStr) : Except Stop Val := do
  let e ← require (IJson.ijson line) "log-malformed"
  check (isDict e) "log-malformed"
  let names := (← members e).map (·.1)
  check (names.all (· ∈ entryKeys) ∧ entryKeys.all (· ∈ names)) "log-malformed"
  check (isDict (← item e "state")) "log-malformed"
  check (isList (← item e "proof")) "log-malformed"
  check (truthy (← item e "proof")) "log-malformed"
  check (isStr (← item e "versionId")) "log-malformed"
  return e

/-- Step 3: the hash of entry `n`. -/
def checkVersion (n : Nat) (e : Val) : Except Stop String := do
  let vid ← string (← item e "versionId")
  let (digits, hash) ← require ((numberOf vid).bind fun r => ((textOf r.2).filter isBase58).map (r.1, ·)) "version-number"
  let number ← intOf digits
  check (number = n) "version-number"
  check (isMh (String.ofList hash)) "entry-hash"
  return String.ofList hash

/-- Step 4. -/
def checkTime (now : Int) (prev : Option Int) (e : Val) : Except Stop Int := do
  let t ← require (parseTimeValue (← item e "versionTime")) "version-time"
  check (prev.all (· < t)) "version-time"
  check (t ≤ (now + futureTolerance) * 10 ^ 9) "version-time"
  return t

mutual

/-- `json.dumps(v, ensure_ascii=False)`; the text of a float is left open. -/
def dumps : Val → Option PyStr
  | .null => some (.ofChars "null".toList)
  | .bool true => some (.ofChars "true".toList)
  | .bool false => some (.ofChars "false".toList)
  | .int n => some (.ofChars (Json.renderInt n))
  | .float => none
  | .str s => some (IJson.dumps s)
  | .arr vs => (dumpsItems vs).map fun ts => .char '[' :: ((lit ", ").intercalate ts ++ [.char ']'])
  | .obj ms =>
    (dumpsMembers ms).map fun ts =>
      .char '{' :: ((lit ", ").intercalate (ts.map fun t => IJson.dumps t.1 ++ lit ": " ++ t.2) ++ [.char '}'])

def dumpsItems : List Val → Option (List PyStr)
  | [] => some []
  | v :: vs =>
    match dumps v with
    | none => none
    | some t => (dumpsItems vs).map (t :: ·)

def dumpsMembers : Members → Option (List (PyStr × PyStr))
  | [] => some []
  | (k, v) :: ms =>
    match dumps v with
    | none => none
    | some t => (dumpsMembers ms).map ((k, t) :: ·)

end

mutual

/-- The dictionaries that `json.loads` makes: of a repeated name the last value counts. -/
def asDicts : Val → Val
  | .arr vs => .arr (itemsAsDicts vs)
  | .obj ms => .obj (membersAsDicts ms)
  | .null => .null
  | .bool b => .bool b
  | .int n => .int n
  | .float => .float
  | .str s => .str s

def itemsAsDicts : List Val → List Val
  | [] => []
  | v :: vs => asDicts v :: itemsAsDicts vs

def membersAsDicts : Members → Members
  | [] => []
  | (k, v) :: ms => if k ∈ ms.map (·.1) then membersAsDicts ms else (k, asDicts v) :: membersAsDicts ms

end

/-- Step 6. -/
def checkScid (scid e : Val) : Except Stop Unit := do
  let pre := setItem (without (← members e) "proof") "versionId" (.str (lit "\x7bSCID\x7d"))
  let word ← string scid
  match dumps (.obj pre) with
  | none => .error .raises
  | some text =>
    match PyJson.loads (substitute word (lit "\x7bSCID\x7d") 0 text) with
    | none => .error .raises
    | some v => do check (equals (.str (lit (mhB58 c (← canonical (asDicts v))))) scid) "scid"

/-- Step 8: the keys that may sign. -/
def checkKeys (first : Bool) (prev : Members) (p : Val) : Except Stop (List Val) := do
  let names := (← members p).map (·.1)
  let prerot := !first && truthy ((lookup prev "nextKeyHashes").getD .null)
  if prerot then
    check (lit "updateKeys" ∈ names ∧ lit "nextKeyHashes" ∈ names) "pre-rotation"
    let hashes ← iter (← item (.obj prev) "nextKeyHashes")
    let committed ← (← iter (← item p "updateKeys")).allM fun k => do
      let data ← encode (← string k)
      return among (.str (lit (mhB58 c data))) hashes
    check committed "pre-rotation"
    iter (← item p "updateKeys")
  else if first then iter (← item p "updateKeys")
  else iter (← item (.obj prev) "updateKeys")

/-- Step 9, one proof. -/
def checkProof (document : Val) (keys : List Val) (authorized : Bool) (pr : Val) : Except Stop Bool := do
  let mk ← require (← proofKey pr) "proof"
  if among (.str (lit mk)) keys then
    check (← proofOk c document pr (multikeyPub mk)) "proof"
    return true
  else return authorized

/-- Step 10. -/
def checkIdentity (st : State) (active : Members) (scid e : Val) : Except Stop Val := do
  let state ← item e "state"
  let sid ← get state "id" .null
  let sidScid ← require ((strOf sid).bind checkDid) "identity"
  check (equals (.str (lit sidScid)) scid) "identity"
  if !isNone st.prevId ∧ !equals sid st.prevId then
    let aka ← get state "alsoKnownAs" (.arr [])
    check (truthy (← item (.obj active) "portable")) "identity"
    check (isList aka) "identity"
    check (among st.prevId (← iter aka)) "identity"
    return sid
  else return sid

/-- What is in force before the first entry's parameters. -/
def defaults : Members :=
  [(lit "nextKeyHashes", .arr []), (lit "witness", .obj []), (lit "watchers", .arr []),
    (lit "portable", .bool false), (lit "deactivated", .bool false), (lit "ttl", .int 3600)]

def isEmptyDict : Val → Bool
  | .obj [] => true
  | _ => false

/-- Steps 6 to 10, and what the entry adds. -/
def accept (st : State) (e p : Val) (hash : String) (t : Int) : Except Stop State := do
  let first := st.entries.isEmpty
  let active := update (if first then defaults else st.active) (← members p)
  let scid ← if first then item p "scid" else pure st.scid
  if first then checkScid c scid e
  let doc := without (← members e) "proof"
  let data ← canonical (.obj (setItem doc "versionId" (if first then scid else st.prevVid)))
  check (mhB58 c data = hash) "entry-hash"
  let keys ← checkKeys c first st.active p
  let authorized ← (← iter (← item e "proof")).foldlM (checkProof c (.obj doc) keys) false
  check authorized "unauthorized-key"
  let sid ← checkIdentity st active scid e
  let config ←
    if first ∨ isEmptyDict ((lookup st.active "witness").getD (.obj [])) then item (.obj active) "witness"
    else item (.obj st.active) "witness"
  let vid ← item e "versionId"
  return {
    entries := st.entries ++ [e]
    active := active
    prevVid := vid
    prevTime := some t
    prevId := sid
    scid := scid
    due := if truthy config then st.due ++ [(st.entries.length, config)] else st.due }

/-- One line of the log; as many entries are read as there were lines before it. -/
def readLine (now : Int) (st : State) (line : PyStr) : Except Stop State := do
  let n := st.entries.length + 1
  let e ← readEntry line
  let hash ← checkVersion n e
  let t ← checkTime now st.prevTime e
  let p ← item e "parameters"
  check (!(1 < n && truthy (← get (.obj st.active) "deactivated" .null))) "after-deactivation"
  checkParams p n
  accept c st e p hash t

/-- `log.split("\n")`, without what follows the last newline if that is empty. -/
def linesOf (log : PyStr) : List PyStr :=
  let lines := log.splitOn (.char '\n')
  if lines.getLast? = some [] then lines.dropLast else lines

/-! ## The log as a whole -/

/-- Step 11. -/
def checkRequested (scidDid : String) (did : Val) (st : State) : Except Stop Unit := do
  check (equals (.str (lit scidDid)) st.scid) "identity"
  let found ← st.entries.anyM fun x => do return equals (← item (← item x "state") "id") did
  check found "identity"

/-- One proof of a witness record for version `j`. -/
def approve (vid : Val) (j : Nat) (approvals : List (Nat × String)) (pr : Val) : Except Stop (List (Nat × String)) := do
  match ← proofKey pr with
  | none => return approvals
  | some mk =>
    if ← proofOk c (.obj [(lit "versionId", vid)]) pr (multikeyPub mk) then
      return approvals ++ [(j, "did:key:" ++ mk)]
    else return approvals

def record (vids : List Val) (approvals : List (Nat × String)) (r : Val) : Except Stop (List (Nat × String)) := do
  if !isDict r then return approvals
  else if !among (← get r "versionId" .null) vids then return approvals
  else
    let vid ← item r "versionId"
    let proofs ← if isList (← get r "proof" .null) then iter (← get r "proof" (.arr [])) else pure []
    match vids.findIdx? (equals vid ·) with
    | none => .error .raises
    | some j => proofs.foldlM (approve c vid j) approvals

/-- Whether an entry has the witnesses that it needs. -/
def enough (approvals : List (Nat × String)) (i : Nat) (config : Val) : Except Stop Unit := do
  let ids ← setOf (← (← iter (← item config "witnesses")).mapM (item · "id"))
  let got := (approvals.filter fun a => decide (i ≤ a.1) && ids.contains (some (Sum.inr (lit a.2)))).map (·.2)
  let threshold ← number (← item config "threshold")
  check (threshold ≤ got.dedup.length) "witness"

/-- Step 12. -/
def checkWitnesses (st : State) (witness : Option PyStr) : Except Stop Unit := do
  if st.due.isEmpty then return ()
  else
    let text ← require witness "witness"
    let records ← require (IJson.ijson text) "witness"
    let vids ← st.entries.mapM (item · "versionId")
    let approvals ← (match records with | .arr rs => rs | _ => []).foldlM (record c vids) []
    st.due.forM fun d => enough approvals d.1 d.2

/-- Step 13. -/
def checkCache (st : State) (cache : Val) : Except Stop Unit := do
  let cvid ← if isDict cache then get cache "versionId" .null else pure .null
  match cvid with
  | .str s =>
    match (numberOf s).filter (·.2 ≠ []) with
    | none => return ()
    | some (digits, _) => do
        let k ← intOf digits
        check (k ≤ st.entries.length) "rollback"
        match st.entries[k - 1]? with
        | none => .error .raises
        | some x => check (equals (← item x "versionId") cvid) "fork"
  | _ => return ()

/-- What a resolution ends in, if not in a rejection. -/
inductive Outcome where
  | resolved (versionId versionTime document ttl : Val)
  | deactivated (versionId : Val)

/-- Step 14. -/
def outcome (st : State) : Except Stop Outcome :=
  match st.entries.getLast? with
  | none => .error .raises
  | some last => do
      if truthy (← item (.obj st.active) "deactivated") then return .deactivated (← item last "versionId")
      else
        return .resolved (← item last "versionId") (← item last "versionTime") (← item last "state")
          (← item (.obj st.active) "ttl")

/-- `resolve`: every end but `.raises` is an outcome. -/
def resolve (did : Val) (log : PyStr) (witness : Option PyStr) (cache : Val) (now : Int) : Except Stop Outcome := do
  let scidDid ← checkDidValue did
  let lines := linesOf log
  check (lines ≠ []) "log-malformed"
  let st ← lines.foldlM (readLine c now) .init
  checkRequested scidDid did st
  checkWitnesses c st witness
  checkCache st cache
  outcome st

end Checks

end Host

end Dsip.Webvh
