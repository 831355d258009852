import Mathlib.Data.List.DropRight
import Dsip.Tn.Binding

/-!
# Verifying a PASSporT

A gateway reads the `Identity` header of a call, the token in it, and then takes the certificate
steps of a binding. Both programs take the same steps (`verifyPassport_eq`).
-/

namespace Dsip.Tn

open Dsip.Lib

def isSeparator (c : Char) : Bool := c ∈ ['-', '.', '(', ')', ' ']

/-- `canonicalNumber`, `canon`. -/
def canonicalNumber (v : PyJson) : Option String := do
  let s ← textOf v
  let digits := (if s.toList.head? = some '+' then s.toList.drop 1 else s.toList).filter fun c => !isSeparator c
  guard (digits ≠ [] ∧ digits.length ≤ 15 ∧ digits.all Char.isDigit = true)
  return String.ofList digits

/-! ## The header -/

def isBlank (c : PyChar) : Bool := c = .char ' ' || c = .char '\t'

def strip (s : PyStr) : PyStr := (s.dropWhile isBlank).rdropWhile isBlank

structure Identity where
  token : PyStr
  info : PyStr
  params : List (PyStr × PyStr)

/-- Lower case, given that of texts that are not ASCII. -/
def toLowerCase (unicode : PyStr → PyStr) (s : PyStr) : PyStr :=
  if s.all fun c => c.ord < 0x80 then
    s.map fun c =>
      match c with
      | .char c => .char c.toLower
      | .surrogate n => .surrogate n
  else unicode s

/-- A part of the header after the token. -/
def addParam (unicode : PyStr → PyStr) (params : List (PyStr × PyStr)) (part : PyStr) : Option (List (PyStr × PyStr)) :=
  match part.dropWhile (· ≠ .char '=') with
  | [] => none
  | _ :: rest =>
    let name := toLowerCase unicode (strip (part.takeWhile (· ≠ .char '=')))
    let val := strip rest
    if name = [] || val = [] || (params.lookup name).isSome then none else some (params ++ [(name, val)])

/-- `readIdentityHeader`, `parse_identity`. -/
def readIdentityHeader (unicode : PyStr → PyStr) (value : PyStr) : Option Identity := do
  let parts := value.splitOn (.char ';')
  let params ← parts.tail.foldlM (addParam unicode) []
  let info ← params.lookup (.ofChars "info".toList)
  guard (2 ≤ info.length ∧ info.head? = some (.char '<') ∧ info.getLast? = some (.char '>'))
  return ⟨strip (parts.headD []), (info.drop 1).dropLast, params⟩

/-! ## The token -/

inductive Attest where
  | A
  | B
  | C
  deriving DecidableEq, Repr

def readAttest : String → Option Attest
  | "A" => some .A
  | "B" => some .B
  | "C" => some .C
  | _ => none

structure Passport where
  signingInput : List Char
  signature : List Nat
  x5u : String
  attest : Attest
  orig : String
  dest : List String
  iat : Int

/-- `readPassport`, `parse_passport`. -/
def readPassport (token : PyStr) : Option Passport := do
  let jws ← (textOf (.str token)).bind splitJws
  guard ((member jws.header "alg").bind textOf = some "ES256")
  guard ((member jws.header "typ").bind textOf = some "passport")
  guard ((member jws.header "ppt").bind textOf = some "shaken")
  let x5u ← (member jws.header "x5u").bind textOf
  guard (startsWith "https://" x5u)
  let attest ← ((member jws.payload "attest").bind textOf).bind readAttest
  match member jws.payload "orig", member jws.payload "dest" with
  | some (.obj orig), some (.obj dest) => do
      let origTn ← (member orig "tn").bind canonicalNumber
      match member dest "tn" with
      | some (.arr tns) => do
          guard (tns ≠ [])
          let dests ← tns.mapM canonicalNumber
          let iat ← (member jws.payload "iat").bind intOf
          guard (0 ≤ iat)
          return ⟨jws.signingInput, jws.signature, x5u, attest, origTn, dests, iat⟩
      | _ => none
  | _, _ => none

/-! ## The steps -/

inductive PassportOutcome where
  | verified (attest : Attest)
  | failed (attest : Option Attest) (reason : String)
  deriving DecidableEq, Repr

/-- `FRESHNESS`, `PP_FRESH`. -/
def freshness : Int := 60

/-- A parameter is missing, or has the value that is supported. -/
def supports (params : List (PyStr × PyStr)) (name value : String) : Bool :=
  (params.lookup (.ofChars name.toList)).all (· = .ofChars value.toList)

section

variable (x : X509) (ctx : Context) (unicode : PyStr → PyStr)

/-- All steps, by a way to find the path. -/
def passportSteps (find : String → Int → Option (List Certificate)) (identity fromTn toTn : PyJson) (now : Int) :
    PassportOutcome :=
  match identity with
  | .str value =>
    match readIdentityHeader unicode value with
    | none => .failed none "malformed"
    | some header =>
      if !supports header.params "alg" "ES256" || !supports header.params "ppt" "shaken" then .failed none "unsupported"
      else
        match readPassport header.token with
        | none => .failed none "malformed"
        | some pp =>
          if some pp.orig ≠ canonicalNumber fromTn then .failed none "orig-mismatch"
          else if !(canonicalNumber toTn).any pp.dest.contains then .failed (some pp.attest) "dest-mismatch"
          else if freshness < |now - pp.iat| then .failed (some pp.attest) "stale"
          else if PyStr.ofChars pp.x5u.toList ≠ header.info then .failed (some pp.attest) "x5u-mismatch"
          else
            match find pp.x5u now with
            | some (leaf :: rest) =>
              if !signatureHolds x leaf pp.signature pp.signingInput then .failed (some pp.attest) "signature"
              else if pp.attest = .A && !coverageHolds ctx (leaf :: rest) pp.orig then
                .failed (some pp.attest) "not-authorized-for-tn"
              else .verified pp.attest
            | _ => .failed (some pp.attest) "untrusted-certificate"
  | _ => .failed none "no-identity-header"

def passport (identity fromTn toTn : PyJson) (now : Int) : PassportOutcome :=
  passportSteps x ctx unicode (certPath x ctx) identity fromTn toTn now

def Ts.verifyPassport (identity fromTn toTn : PyJson) (now : Int) : PassportOutcome :=
  passportSteps x ctx unicode (Ts.certificatePath x ctx) identity fromTn toTn now

end

section

variable {x : X509} {ctx : Context} {unicode : PyStr → PyStr}

theorem verifyPassport_eq (identity fromTn toTn : PyJson) (now : Int) :
    Ts.verifyPassport x ctx unicode identity fromTn toTn now = passport x ctx unicode identity fromTn toTn now := by
  unfold Ts.verifyPassport passport
  rw [find_eq]

/-- A header and token that are read, for the number the call comes from and the number it goes to. -/
theorem passportSteps_verified {find : String → Int → Option (List Certificate)} {value : PyStr} {fromTn toTn : PyJson}
    {now : Int} {header : Identity} {pp : Passport} {leaf : Certificate} {rest : List Certificate} {d : String}
    (hheader : readIdentityHeader unicode value = some header) (halg : supports header.params "alg" "ES256" = true)
    (hppt : supports header.params "ppt" "shaken" = true) (hpp : readPassport header.token = some pp)
    (hfrom : canonicalNumber fromTn = some pp.orig) (hto : canonicalNumber toTn = some d) (hdest : d ∈ pp.dest)
    (hfresh : |now - pp.iat| ≤ freshness) (hinfo : header.info = .ofChars pp.x5u.toList)
    (hfind : find pp.x5u now = some (leaf :: rest))
    (hsignature : signatureHolds x leaf pp.signature pp.signingInput = true)
    (hcoverage : coverageHolds ctx (leaf :: rest) pp.orig = true) :
    passportSteps x ctx unicode find (.str value) fromTn toTn now = .verified pp.attest := by
  have hstale : ¬freshness < |now - pp.iat| := not_lt.mpr hfresh
  have hcontains : pp.dest.contains d = true := List.contains_iff_mem.mpr hdest
  unfold passportSteps
  dsimp only
  rw [hheader]
  dsimp only
  rw [halg, hppt, hpp]
  dsimp only
  rw [hfrom, hto, Option.any_some, hcontains, hinfo, hfind, if_neg hstale]
  dsimp only
  rw [hsignature, hcoverage]
  simp

theorem passportSteps_mismatch {find : String → Int → Option (List Certificate)} {value : PyStr} {fromTn toTn : PyJson}
    {now : Int} {header : Identity} {pp : Passport} (hheader : readIdentityHeader unicode value = some header)
    (hpp : readPassport header.token = some pp) (hfrom : canonicalNumber fromTn ≠ some pp.orig) (attest : Attest) :
    passportSteps x ctx unicode find (.str value) fromTn toTn now ≠ .verified attest := by
  unfold passportSteps
  dsimp only
  rw [hheader]
  dsimp only
  rw [hpp]
  dsimp only
  rw [if_pos (Ne.symm hfrom)]
  split <;> exact nofun

end

end Dsip.Tn
