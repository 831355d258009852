import Dsip.Webvh.Log

/-!
# Resolving a did:webvh DID

`_resolve`: the entries of a log are checked one after the other, each against
what the ones before it have made active; then the DID, the witnesses and the
cached version. The checks of an entry are functions of their own, in the order
in which the source makes them.
-/

namespace Dsip.Webvh

open Dsip.Lib

structure Active where
  updateKeys : List String
  nextKeyHashes : List String
  witness : Option Witness
  portable : Bool
  deactivated : Bool
  ttl : Int
  deriving DecidableEq, Repr

def Active.initial : Active where
  updateKeys := []
  nextKeyHashes := []
  witness := none
  portable := false
  deactivated := false
  ttl := 3600

def Active.update (a : Active) (p : Params) : Active where
  updateKeys := p.updateKeys.getD a.updateKeys
  nextKeyHashes := p.nextKeyHashes.getD a.nextKeyHashes
  witness := p.witness.getD a.witness
  portable := p.portable.getD a.portable
  deactivated := p.deactivated.getD a.deactivated
  ttl := p.ttl.getD a.ttl

/-- An accepted entry: what it says, its time, its DID, the parameters in force
after it, and the witnesses that it has to have. -/
structure Accepted where
  entry : Entry
  time : Int
  did : String
  active : Active
  witness : Option Witness
  deriving Repr

/-- The result of a resolution; `cache` is the `versionId` of either. -/
inductive Outcome where
  | resolved (versionId : String) (versionTime : Json) (document : List (String × Json)) (ttl : Int)
  | deactivated (versionId : String)
  deriving Repr

def Outcome.versionId : Outcome → String
  | .resolved versionId .. => versionId
  | .deactivated versionId => versionId

/-- A check that gives a reason where it fails. -/
def check (ok : Bool) (reason : String) : Except Stop Unit :=
  if ok then .ok () else .error (.reject reason)

def require {α : Type} (x : Option α) (reason : String) : Except Stop α :=
  match x with
  | some a => .ok a
  | none => .error (.reject reason)

section Checks

variable (c : Crypto)

/-- Step 3: the number of the entry, and the form of its hash. -/
def checkVersion (n : Nat) (e : Entry) : Except Stop String := do
  let (digits, hash) ← require ((versionParts e.versionId).filter (isBase58 ·.2)) "version-number"
  let number ← intOf digits
  check (number = n) "version-number"
  check (isMh (String.ofList hash)) "entry-hash"
  return String.ofList hash

/-- `FUTURE_TOLERANCE_S`. -/
def futureTolerance : Int := 300

/-- Step 4. -/
def checkTime (now : Int) (prev : Option Accepted) (e : Entry) : Except Stop Int := do
  let t ← require ((asString e.versionTime).bind parseTime) "version-time"
  check (prev.all (·.time < t)) "version-time"
  check (t ≤ (now + futureTolerance) * 10 ^ 9) "version-time"
  return t

/-- `str.replace`. -/
def replaceAll (old new : List Char) : Nat → List Char → List Char
  | 0, text => text
  | _ + 1, [] => []
  | fuel + 1, ch :: text =>
    if old.isPrefixOf (ch :: text) then new ++ replaceAll old new fuel ((ch :: text).drop old.length)
    else ch :: replaceAll old new fuel text

/-- Step 6. -/
def checkScid (scid : String) (e : Entry) : Except Stop Unit := do
  let text := (e.body "{SCID}").render [' ']
  let text := replaceAll scid.toList "{SCID}".toList text.length text
  match Json.parse text with
  | none => .error .raises
  | some v => check (mhB58 c (jcs (lastWins v)) = scid) "scid"

/-- Step 8, and the keys that may sign: the entry's own, where they were
committed to before, or the ones in force before it. -/
def checkKeys (prev : Active) (p : Params) : Except Stop (List String) :=
  if prev.nextKeyHashes = [] then .ok prev.updateKeys
  else
    match p.updateKeys, p.nextKeyHashes with
    | some keys, some _ => do
        check (keys.all fun k => mhB58 c (utf8Encode k.toList) ∈ prev.nextKeyHashes) "pre-rotation"
        return keys
    | _, _ => .error (.reject "pre-rotation")

def vmMultikey (vm : Option Json) : Option String := do
  let s ← vm.bind asString
  let stem := "did:key:z".toList
  guard (stem.isPrefixOf s.toList)
  match (s.toList.drop 8).splitOn '#' with
  | [key, fragment] => do
      guard (key = fragment ∧ isBase58 (key.drop 1))
      return String.ofList key
  | _ => none

def proofInput (document : Json) (proof : List (String × Json)) : Bytes :=
  c.sha256 (jcs (.obj (proof.filter (·.1 ≠ "proofValue")))) ++ c.sha256 (jcs document)

/-- Whether a proof has the form of one, and its signature if so. -/
def signatureOf (proof : List (String × Json)) : Option Bytes := do
  let has name value := ((member proof name).bind asString).any (· = value)
  guard (has "type" "DataIntegrityProof" ∧ has "cryptosuite" "eddsa-jcs-2022" ∧
    has "proofPurpose" "assertionMethod")
  match (← (member proof "proofValue").bind asString).toList with
  | 'z' :: text => do
      guard (isBase58 text)
      base58Decode text
  | _ => none

/-- `proof_ok`. Without a public key the library raises, and only if the proof has
the form of one. -/
def proofOk (document : Json) (proof : List (String × Json)) (pub : Option Bytes) : Except Stop Bool :=
  match signatureOf proof, pub with
  | none, _ => .ok false
  | some sig, some pub => .ok (c.ed25519Verify pub (proofInput c document proof) sig)
  | some _, none => .error .raises

/-- The members of a proof, and the key it names. -/
def proofKey : Json → Option (List (String × Json) × String)
  | .obj ms => (vmMultikey (member ms "verificationMethod")).map (ms, ·)
  | _ => none

/-- Step 9: whether a key of these has signed. A proof by one that does not verify
stops the resolution. -/
def checkProofs (document : Json) (keys : List String) (authorized : Bool) : List Json → Except Stop Bool
  | [] => .ok authorized
  | pr :: rest => do
      let (proof, mk) ← require (proofKey pr) "proof"
      if mk ∈ keys then
        check (← proofOk c document proof (multikeyPub mk)) "proof"
        checkProofs document keys true rest
      else checkProofs document keys authorized rest

/-- Step 10: the entry's DID. -/
def checkIdentity (scid : String) (prev : Option Accepted) (active : Active) (e : Entry) :
    Except Stop String := do
  let did ← require ((member e.state "id").bind asString) "identity"
  check (checkDid did = some scid) "identity"
  match prev with
  | none => return did
  | some prev =>
    let alsoKnownAs : Bool :=
      match (member e.state "alsoKnownAs").getD (.arr []) with
      | .arr vs => vs.any fun v => asString v = some prev.did
      | _ => false
    check (did = prev.did ∨ active.portable ∧ alsoKnownAs) "identity"
    return did

/-- The SCID of a log, by its first entry's parameters. -/
def scidOf (e : Entry) : Option String :=
  match e.parameters with
  | .obj ms => (member ms "scid").bind asString
  | _ => none

def checkFirst (now : Int) (e : Entry) : Except Stop Accepted := do
  let hash ← checkVersion 1 e
  let time ← checkTime now none e
  let p ← checkParams e.parameters 1
  let active := Active.initial.update p
  let scid ← require p.scid "parameters"
  checkScid c scid e
  check (mhB58 c (jcs (e.body scid)) = hash) "entry-hash"
  let authorized ← checkProofs c (e.body e.versionId) active.updateKeys false e.proof
  check authorized "unauthorized-key"
  let did ← checkIdentity scid none active e
  return { entry := e, time := time, did := did, active := active, witness := active.witness }

/-- Entry `n` of a log, after `prev`. -/
def checkNext (now : Int) (scid : String) (n : Nat) (prev : Accepted) (e : Entry) : Except Stop Accepted := do
  let hash ← checkVersion n e
  let time ← checkTime now (some prev) e
  check (!prev.active.deactivated) "after-deactivation"
  let p ← checkParams e.parameters n
  let active := prev.active.update p
  check (mhB58 c (jcs (e.body prev.entry.versionId)) = hash) "entry-hash"
  let keys ← checkKeys c prev.active p
  let authorized ← checkProofs c (e.body e.versionId) keys false e.proof
  check authorized "unauthorized-key"
  let did ← checkIdentity scid (some prev) active e
  let witness := if prev.active.witness = none then active.witness else prev.active.witness
  return { entry := e, time := time, did := did, active := active, witness := witness }

/-- The entries after `prev`, the first of which is entry `n`. -/
def checkRest (now : Int) (scid : String) : Nat → Accepted → List (List Char) → Except Stop (List Accepted)
  | _, _, [] => .ok []
  | n, prev, line :: lines => do
      let e ← require (readEntry line) "log-malformed"
      let a ← checkNext c now scid n prev e
      return a :: (← checkRest now scid (n + 1) a lines)

def linesOf (log : String) : List (List Char) :=
  let lines := log.toList.splitOn '\n'
  if lines.getLast? = some [] then lines.dropLast else lines

/-- The entries of a log, the first of them apart. -/
def checkLog (now : Int) (log : String) : Except Stop (String × Accepted × List Accepted) :=
  match linesOf log with
  | [] => .error (.reject "log-malformed")
  | line :: lines => do
      let e ← require (readEntry line) "log-malformed"
      let a ← checkFirst c now e
      let scid ← require (scidOf e) "parameters"
      return (scid, a, ← checkRest c now scid 2 a lines)

/-! ## Witnesses -/

/-- The records of a witness file: for which version, and the proofs. -/
def witnessRecords (witness : String) : Option (List (String × List Json)) :=
  (ijson witness.toList).map fun
    | .arr records => records.filterMap fun
        | .obj ms =>
          ((member ms "versionId").bind asString).map fun versionId =>
            (versionId, match member ms "proof" with
              | some (.arr proofs) => proofs
              | _ => [])
        | _ => none
    | _ => []

/-- The witness of a proof that verifies for a version. -/
def witnessOf (versionId : String) (pr : Json) : Except Stop (Option String) :=
  match proofKey pr with
  | none => .ok none
  | some (proof, mk) => do
      let ok ← proofOk c (.obj [("versionId", .str versionId)]) proof (multikeyPub mk)
      return if ok then some ("did:key:" ++ mk) else none

/-- `approvals`: the witnesses of each version of the log. -/
def approvals (versionIds : List String) : List (String × List Json) →
    Except Stop (List (String × List String))
  | [] => .ok []
  | (versionId, proofs) :: records =>
    if versionId ∈ versionIds then do
      let ids ← proofs.mapM (witnessOf c versionId)
      return (versionId, ids.reduceOption) :: (← approvals versionIds records)
    else approvals versionIds records

/-- Every entry has its witnesses, in the proofs for it or for a later one. -/
def witnessesOk (approved : List (String × List String)) : List Accepted → Bool
  | [] => true
  | a :: rest =>
    a.witness.all (fun w =>
      let versionIds := (a :: rest).map (·.entry.versionId)
      let ids := (approved.filter (·.1 ∈ versionIds)).flatMap (·.2)
      w.threshold ≤ (w.witnesses.filter (· ∈ ids)).length) &&
      witnessesOk approved rest

/-- Step 12. -/
def checkWitnesses (witness : Option String) (entries : List Accepted) : Except Stop Unit :=
  if entries.all (·.witness = none) then .ok ()
  else do
    let witness ← require witness "witness"
    let records ← require (witnessRecords witness) "witness"
    let approved ← approvals c (entries.map (·.entry.versionId)) records
    check (witnessesOk approved entries) "witness"

/-! ## The resolution -/

/-- Step 13: against the cached `versionId`. -/
def checkCache (cache : Option String) (entries : List Accepted) : Except Stop Unit :=
  match cache.bind fun versionId => (versionParts versionId).filter (·.2 ≠ []) with
  | none => .ok ()
  | some (digits, _) => do
      let k ← intOf digits
      check (k ≤ entries.length) "rollback"
      check ((entries[k - 1]?).any fun a => cache = some a.entry.versionId) "fork"

/-- Steps 1 to 12: the entries, which are at least one. -/
def verify (did log : String) (witness : Option String) (now : Int) :
    Except Stop (Accepted × List Accepted) := do
  let scidDid ← require (checkDid did) "invalid-did"
  let (scid, first, rest) ← checkLog c now log
  check (scidDid = scid ∧ (first :: rest).any (·.did = did)) "identity"
  checkWitnesses c witness (first :: rest)
  return (first, rest)

def resolve (did log : String) (witness cache : Option String) (now : Int) : Except Stop Outcome := do
  let (first, rest) ← verify c did log witness now
  let last := rest.getLastD first
  checkCache cache (first :: rest)
  if last.active.deactivated then return .deactivated last.entry.versionId
  else return .resolved last.entry.versionId last.entry.versionTime last.entry.state last.active.ttl

end Checks

end Dsip.Webvh
