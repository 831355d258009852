import Dsip.Tn.Jws

/-!
# Certificate paths

The path from the certificates that an `x5u` serves to an entry of the trust list. Reading a
certificate and checking a signature are parameters (`X509`). Both programs take the first path
that passes every check of step 2 (`certificatePath_eq`), and only then look at the numbers that
its certificates are for.
-/

namespace Dsip.Tn

open Dsip.Lib

abbrev Key := List Nat

structure BasicConstraints where
  ca : Bool
  pathLen : Option Nat
  deriving DecidableEq, Repr

structure KeyUsage where
  digitalSignature : Bool
  keyCertSign : Bool
  deriving DecidableEq, Repr

inductive TnEntry where
  | spc (code : String)
  | range (start : String) (count : Nat)
  | one (number : String)
  deriving DecidableEq, Repr

/-- What is read of a certificate. -/
structure Fields where
  subject : List Nat
  issuer : List Nat
  /-- It is signed by ECDSA with SHA-256. -/
  es256 : Bool
  /-- Its key, if that is a P-256 key. -/
  key : Option Key
  notBefore : Int
  notAfter : Int
  unknownCritical : Bool
  basicConstraints : Option BasicConstraints
  keyUsage : Option KeyUsage
  tnAuthList : Option (List TnEntry)
  attestedBy : Option String
  deriving DecidableEq, Repr

structure Certificate extends Fields where
  raw : List Nat
  deriving DecidableEq, Repr

/-- Reading certificates, and the signatures of P-256. -/
structure X509 where
  /-- Padded base64. -/
  base64 : String → Option (List Nat)
  /-- The blocks of a PEM text. -/
  blocks : String → Option (List (List Nat))
  parse : List Nat → Option Fields
  /-- A certificate is signed with a key. -/
  signed : Certificate → Key → Bool
  /-- A text is signed with a key. -/
  verify : Key → List Char → List Nat → Bool

structure Context where
  trustAnchors : List PyJson
  /-- What each URL serves. -/
  certificates : List (String × String)
  spcNumbers : List (String × List String)
  requireStatus : Bool
  status : List (String × String)

section

variable (x : X509)

/-- `parse_cert`, `parseCertificate`. -/
def parseCertificate (der : List Nat) : Option Certificate := (x.parse der).map fun f => { f with raw := der }

/-- `signed_by`, `signedBy`. -/
def signedBy (c issuer : Certificate) : Bool := issuer.key.any (x.signed c)

/-- The bytes of an entry of the trust list. -/
def anchorBytes (entry : PyJson) : Option (List Nat) :=
  match entry with
  | .str _ => (textOf entry).bind x.base64
  | _ => none

/-- The entries of the trust list that are certificates. -/
def anchorsOf (entries : List PyJson) : List Certificate :=
  entries.filterMap fun entry => (anchorBytes x entry).bind (parseCertificate x)

/-- `load_chain`, and `pemBlocks` with what is made of them. -/
def loadChain (text : String) : Option (List Certificate) :=
  (x.blocks text).bind fun blocks => if blocks = [] then none else blocks.mapM (parseCertificate x)

def buildPaths (chain anchors : List Certificate) : List (List Certificate) :=
  match chain.findIdx? fun c => anchors.any fun a => c.raw = a.raw with
  | some i => [chain.take (i + 1)]
  | none =>
    match chain.getLast? with
    | none => []
    | some last => (anchors.filter fun a => a.subject = last.issuer && signedBy x last a).map fun a => chain ++ [a]

/-- A certificate is issued by the one after it. -/
def linked : List Certificate → Bool
  | c :: next :: path => c.issuer = next.subject && signedBy x c next && linked (next :: path)
  | _ => true

/-- What every certificate on a path is. -/
def isValid (now : Int) (c : Certificate) : Bool :=
  c.es256 && c.key.isSome && (c.notBefore ≤ now && now ≤ c.notAfter) && !c.unknownCritical

/-- What an issuer is that has `p` certificates before it. -/
def isIssuer (p : Nat) (c : Certificate) : Bool :=
  c.basicConstraints.any (·.ca) && c.keyUsage.all (·.keyCertSign) &&
    c.basicConstraints.all fun b => b.pathLen.all (p - 1 ≤ ·)

/-- The certificates from a position on. -/
def checkFrom (now : Int) : Nat → List Certificate → Bool
  | _, [] => true
  | p, c :: path => isValid now c && (p = 0 || isIssuer p c) && checkFrom now (p + 1) path

def checkPath (path : List Certificate) (now : Int) : Bool :=
  linked x path && checkFrom now 0 path && path.head?.all fun leaf => leaf.keyUsage.all (·.digitalSignature)

variable (ctx : Context)

def certPath (x5u : String) (now : Int) : Option (List Certificate) := do
  let text ← ctx.certificates.lookup x5u
  let chain ← loadChain x text
  (buildPaths x chain (anchorsOf x ctx.trustAnchors)).find? fun path => checkPath x path now

end

namespace Ts

section

variable (x : X509)

/-- `pathHolds`, for the certificates from a position on. -/
def holdsFrom (now : Int) : Nat → List Certificate → Bool
  | _, [] => true
  | p, c :: path =>
    isValid now c &&
      (match path with
      | [] => true
      | next :: _ => c.issuer = next.subject && signedBy x c next) &&
      (if 1 ≤ p then isIssuer p c else c.keyUsage.all (·.digitalSignature)) && holdsFrom now (p + 1) path

def pathHolds (path : List Certificate) (now : Int) : Bool := holdsFrom x now 0 path

/-- The loop over the trust list. -/
def viaAnchors (chain : List Certificate) (last : Certificate) (now : Int) : List (List Nat) → Option (List Certificate)
  | [] => none
  | der :: rest =>
    match parseCertificate x der with
    | none => viaAnchors chain last now rest
    | some anchor =>
      if !(anchor.subject = last.issuer) || !signedBy x last anchor then viaAnchors chain last now rest
      else if pathHolds x (chain ++ [anchor]) now then some (chain ++ [anchor])
      else viaAnchors chain last now rest

variable (ctx : Context)

def certificatePath (url : String) (now : Int) : Option (List Certificate) := do
  let text ← ctx.certificates.lookup url
  let chain ← loadChain x text
  let anchorsDer := ctx.trustAnchors.filterMap (anchorBytes x)
  match chain.findIdx? fun c => anchorsDer.any fun a => a = c.raw with
  | some i => if pathHolds x (chain.take (i + 1)) now then some (chain.take (i + 1)) else none
  | none =>
    let last ← chain.getLast?
    viaAnchors x chain last now anchorsDer

end

end Ts

/-! ## One search -/

section

variable {x : X509} {now : Int}

theorem linked_cons (c : Certificate) (path : List Certificate) : linked x (c :: path) = ((match path with
      | [] => true
      | next :: _ => c.issuer = next.subject && signedBy x c next) && linked x path) := by
  cases path with
  | nil => rfl
  | cons next path => rfl

theorem holdsFrom_iff (p : Nat) (path : List Certificate) :
    Ts.holdsFrom x now p path = true ↔ linked x path = true ∧ checkFrom now p path = true ∧
      (p = 0 → path.head?.all (fun leaf => leaf.keyUsage.all (·.digitalSignature)) = true) := by
  induction path generalizing p with
  | nil => simp [Ts.holdsFrom, linked, checkFrom]
  | cons c path ih =>
    have hnext := ih (p + 1)
    simp only [Nat.add_eq_zero_iff, one_ne_zero, and_false, false_implies, and_true] at hnext
    rw [linked_cons]
    unfold Ts.holdsFrom checkFrom
    simp only [Bool.and_eq_true, hnext, List.head?_cons, Option.all_some]
    by_cases hp : p = 0
    · subst hp
      simp only [nonpos_iff_eq_zero, one_ne_zero, if_false, decide_true, Bool.true_or, forall_const]
      tauto
    · have hpos : 1 ≤ p := Nat.one_le_iff_ne_zero.mpr hp
      simp only [hpos, if_true, hp, decide_false, Bool.false_or, false_implies]
      tauto

theorem pathHolds_eq (path : List Certificate) : Ts.pathHolds x path now = checkPath x path now := by
  rw [Bool.eq_iff_iff]
  unfold Ts.pathHolds checkPath
  rw [holdsFrom_iff]
  simp only [Bool.and_eq_true, forall_const, and_assoc]

theorem findIdx?_congr {α : Type} {p q : α → Bool} {l : List α} (h : ∀ a ∈ l, p a = q a) :
    l.findIdx? p = l.findIdx? q := by
  induction l with
  | nil => rfl
  | cons a l ih =>
    rw [List.findIdx?_cons, List.findIdx?_cons, h a List.mem_cons_self,
      ih fun b hb => h b (List.mem_cons_of_mem a hb)]

theorem raw_of_parse {der : List Nat} {c : Certificate} (h : parseCertificate x der = some c) : c.raw = der := by
  obtain ⟨f, -, rfl⟩ := Option.map_eq_some_iff.mp h
  rfl

theorem parse_of_mem {ders : List (List Nat)} {chain : List Certificate} (h : ders.mapM (parseCertificate x) = some chain) :
    ∀ c ∈ chain, parseCertificate x c.raw = some c := by
  induction ders generalizing chain with
  | nil =>
    cases h
    exact fun c hc => absurd hc List.not_mem_nil
  | cons der ders ih =>
    rw [List.mapM_cons] at h
    obtain ⟨c, hc, h⟩ := bind_some.mp h
    obtain ⟨rest, hrest, h⟩ := bind_some.mp h
    cases h
    rw [List.forall_mem_cons]
    refine ⟨?_, ih hrest⟩
    rwa [raw_of_parse hc]

theorem parse_of_load {text : String} {chain : List Certificate} (h : loadChain x text = some chain) :
    ∀ c ∈ chain, parseCertificate x c.raw = some c := by
  obtain ⟨blocks, -, h⟩ := Option.bind_eq_some_iff.mp h
  split at h
  · cases h
  · exact parse_of_mem h

theorem anchorsOf_eq (entries : List PyJson) :
    anchorsOf x entries = (entries.filterMap (anchorBytes x)).filterMap (parseCertificate x) := by
  unfold anchorsOf
  rw [List.filterMap_filterMap]

theorem viaAnchors_eq (chain : List Certificate) (last : Certificate) (ders : List (List Nat)) :
    Ts.viaAnchors x chain last now ders =
      (((ders.filterMap (parseCertificate x)).filter fun a => a.subject = last.issuer && signedBy x last a).map
        fun a => chain ++ [a]).find? fun path => checkPath x path now := by
  induction ders with
  | nil => rfl
  | cons der ders ih =>
    unfold Ts.viaAnchors
    rw [List.filterMap_cons]
    cases hder : parseCertificate x der with
    | none => exact ih
    | some anchor =>
      dsimp only
      rw [List.filter_cons, pathHolds_eq]
      by_cases hissues : (decide (anchor.subject = last.issuer) && signedBy x last anchor) = true
      · have hnot : ¬((!decide (anchor.subject = last.issuer) || !signedBy x last anchor) = true) := by
          rw [← Bool.not_and, hissues]
          exact Bool.false_ne_true
        rw [if_pos hissues, if_neg hnot, List.map_cons, List.find?_cons]
        by_cases hcheck : checkPath x (chain ++ [anchor]) now = true
        · rw [if_pos hcheck, hcheck]
        · rw [if_neg hcheck, Bool.eq_false_iff.mpr hcheck]
          exact ih
      · have hyes : (!decide (anchor.subject = last.issuer) || !signedBy x last anchor) = true := by
          rw [← Bool.not_and, Bool.eq_false_iff.mpr hissues]
          rfl
        rw [if_neg hissues, if_pos hyes]
        exact ih

theorem certificatePath_eq (ctx : Context) (url : String) :
    Ts.certificatePath x ctx url now = certPath x ctx url now := by
  unfold Ts.certificatePath certPath
  cases ctx.certificates.lookup url with
  | none => rfl
  | some text =>
    dsimp only [Option.bind_eq_bind, Option.bind_some]
    cases hload : loadChain x text with
    | none => rfl
    | some chain =>
      dsimp only [Option.bind_some]
      have hsame : (chain.findIdx? fun c => (ctx.trustAnchors.filterMap (anchorBytes x)).any fun a => a = c.raw) =
          chain.findIdx? fun c => (anchorsOf x ctx.trustAnchors).any fun a => c.raw = a.raw := by
        refine findIdx?_congr fun c hc => ?_
        rw [Bool.eq_iff_iff, List.any_eq_true, List.any_eq_true, anchorsOf_eq]
        simp only [decide_eq_true_eq]
        constructor
        · rintro ⟨_, ha, rfl⟩
          exact ⟨c, List.mem_filterMap.mpr ⟨_, ha, parse_of_load hload c hc⟩, rfl⟩
        · rintro ⟨a, ha, heq⟩
          obtain ⟨der, hder, hparse⟩ := List.mem_filterMap.mp ha
          exact ⟨der, hder, (raw_of_parse hparse).symm.trans heq.symm⟩
      rw [hsame]
      unfold buildPaths
      split
      · rw [pathHolds_eq, List.find?_singleton]
      · cases chain.getLast? with
        | none => rfl
        | some last =>
          dsimp only [Option.bind_some]
          rw [viaAnchors_eq, anchorsOf_eq]

end

end Dsip.Tn
