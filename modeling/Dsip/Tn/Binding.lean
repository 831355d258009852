import Dsip.Tn.Path

/-!
# Verifying a number binding

The steps by which a binding is verified for a DID. Both programs take the same steps, and differ
in how they look for the certificate path.
-/

namespace Dsip.Tn

open Dsip.Lib

def lifetimeMax : Int := 604800

def iatTolerance : Int := 300

/-- `N_P256`. -/
def orderP256 : Nat := 0xffffffff00000000ffffffffffffffffbce6faada7179e84f3b9cac2fc632551

/-- Bytes as a number, the first one highest. -/
def bigEndian (bytes : List Nat) : Nat := bytes.foldl (fun n b => n * 256 + b) 0

/-- A number without its `+`. -/
def digitsOf (tn : String) : String := String.ofList (tn.toList.drop 1)

inductive Outcome where
  | verified (tn did : String) (expires : Int) (attestedBy : Option String)
  | rejected (reason : String)
  deriving DecidableEq, Repr

def covers (spcNumbers : List (String × List String)) (entries : List TnEntry) (d : String) : Bool :=
  entries.any fun e =>
    match e with
    | .one number => number = d
    | .range start count =>
      let value (s : String) : Int := Nat.ofDigitChars 10 s.toList 0
      start ≠ "" && start.toList.all Char.isDigit && start.length = d.length &&
        0 ≤ value d - value start && value d - value start < count
    | .spc code => ((spcNumbers.lookup code).getD []).contains d

section

variable (x : X509) (ctx : Context)

/-- `check_signature`, `signatureHolds`. -/
def signatureHolds (leaf : Certificate) (signature : List Nat) (signingInput : List Char) : Bool :=
  let r := bigEndian (signature.take 32)
  let s := bigEndian (signature.drop 32)
  signature.length = 64 && (0 < r && r < orderP256) && (0 < s && s < orderP256) &&
    leaf.key.any fun key => x.verify key signingInput signature

/-- `check_coverage`, `coverageHolds`. -/
def coverageHolds (path : List Certificate) (d : String) : Bool :=
  (path.head?.any fun leaf => leaf.tnAuthList.isSome) &&
    path.all fun c => c.tnAuthList.all fun entries => covers ctx.spcNumbers entries d

/-- Steps 1 to 5, by a way to find the path. -/
def firstSteps (find : String → Int → Option (List Certificate)) (binding : PyJson) (now : Int) :
    Except String (Parsed × Certificate) :=
  match parseBinding binding with
  | none => .error "malformed"
  | some b =>
    match find b.x5u now with
    | none => .error "untrusted-certificate"
    | some path =>
      match path with
      | [] => .error "untrusted-certificate"
      | leaf :: _ =>
        let p := b.payload
        if !signatureHolds x leaf b.signature b.signingInput then .error "signature"
        else if !coverageHolds ctx path (digitsOf p.tn) then .error "not-authorized-for-tn"
        else if lifetimeMax < p.exp - p.iat then .error "lifetime-too-long"
        else if now + iatTolerance < p.iat then .error "not-yet-valid"
        else if p.exp ≤ now then .error "expired"
        else .ok (b, leaf)

/-- A DID document claims a number. -/
def claims (did : String) (tn : String) (document : PyJson) : Bool :=
  match document with
  | .obj members =>
    (member members "id").bind textOf = some did &&
      (match member members "alsoKnownAs" with
      | some (.arr names) => names.any fun name => textOf name = some ("tel:" ++ tn)
      | _ => false)
  | _ => false

/-- Steps 6 to 8. -/
def lastSteps (did document : PyJson) (p : Payload) (leaf : Certificate) : Outcome :=
  if textOf did ≠ some p.did then .rejected "did-mismatch"
  else if !claims p.did p.tn document then .rejected "not-claimed-by-did"
  else
    let answer := p.status.bind fun url => ctx.status.lookup url
    if ctx.requireStatus && answer = some "revoked" then .rejected "revoked"
    else if ctx.requireStatus && answer ≠ some "good" then .rejected "status-unavailable"
    else .verified p.tn p.did p.exp leaf.attestedBy

/-- All steps, by a way to find the path. -/
def allSteps (find : String → Int → Option (List Certificate)) (binding did document : PyJson) (now : Int) : Outcome :=
  match firstSteps x ctx find binding now with
  | .error reason => .rejected reason
  | .ok (b, leaf) => lastSteps ctx did document b.payload leaf

def steps1To5 (binding : PyJson) (now : Int) : Except String (Parsed × Certificate) :=
  firstSteps x ctx (certPath x ctx) binding now

def verify (binding did document : PyJson) (now : Int) : Outcome := allSteps x ctx (certPath x ctx) binding did document now

def Ts.verifyFirstSteps (binding : PyJson) (now : Int) : Except String (Parsed × Certificate) :=
  firstSteps x ctx (Ts.certificatePath x ctx) binding now

def Ts.verifyTnBinding (binding did document : PyJson) (now : Int) : Outcome :=
  allSteps x ctx (Ts.certificatePath x ctx) binding did document now

variable {x ctx}

theorem find_eq : Ts.certificatePath x ctx = certPath x ctx := by
  funext url now
  exact certificatePath_eq ctx url

theorem verifyFirstSteps_eq (binding : PyJson) (now : Int) :
    Ts.verifyFirstSteps x ctx binding now = steps1To5 x ctx binding now := by
  unfold Ts.verifyFirstSteps steps1To5
  rw [find_eq]

theorem verifyTnBinding_eq (binding did document : PyJson) (now : Int) :
    Ts.verifyTnBinding x ctx binding did document now = verify x ctx binding did document now := by
  unfold Ts.verifyTnBinding verify
  rw [find_eq]

theorem firstSteps_ok {find : String → Int → Option (List Certificate)} {binding : PyJson} {now : Int} {b : Parsed}
    {leaf : Certificate} :
    firstSteps x ctx find binding now = .ok (b, leaf) ↔ parseBinding binding = some b ∧ ∃ rest,
      find b.x5u now = some (leaf :: rest) ∧ signatureHolds x leaf b.signature b.signingInput = true ∧
      coverageHolds ctx (leaf :: rest) (digitsOf b.payload.tn) = true ∧ b.payload.exp - b.payload.iat ≤ lifetimeMax ∧
      b.payload.iat ≤ now + iatTolerance ∧ now < b.payload.exp := by
  unfold firstSteps
  cases hb : parseBinding binding with
  | none => simp
  | some b' =>
    dsimp only
    cases hfind : find b'.x5u now with
    | none =>
      refine iff_of_false (fun h => by cases h) ?_
      rintro ⟨heq, rest, hrest, -⟩
      rw [← Option.some.inj heq, hfind] at hrest
      cases hrest
    | some path =>
      dsimp only
      cases path with
      | nil =>
        refine iff_of_false (fun h => by cases h) ?_
        rintro ⟨heq, rest, hrest, -⟩
        rw [← Option.some.inj heq, hfind] at hrest
        cases hrest
      | cons leaf' rest' =>
        dsimp only
        constructor
        · intro h
          split at h
          · cases h
          rename_i hsignature
          split at h
          · cases h
          rename_i hcoverage
          split at h
          · cases h
          split at h
          · cases h
          split at h
          · cases h
          cases h
          refine ⟨rfl, rest', hfind, ?_, ?_, by omega, by omega, by omega⟩
          · simpa using hsignature
          · simpa using hcoverage
        · rintro ⟨heq, rest, hrest, hsignature, hcoverage, hlife, hiat, hexp⟩
          obtain rfl := Option.some.inj heq
          rw [hfind] at hrest
          cases hrest
          rw [hsignature, hcoverage, if_neg (by simp), if_neg (by simp), if_neg (by omega), if_neg (by omega),
            if_neg (by omega)]

end

end Dsip.Tn
