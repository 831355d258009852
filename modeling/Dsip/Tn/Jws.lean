import Dsip.Lib.Encodings
import Dsip.Messaging.Successor
import Dsip.Webvh.IJson

/-!
# Number bindings as text

A number binding is a compact JWS: three base64url segments, the first two of them I-JSON objects.
A node that holds one reads its payload again without the rest (`heldPayload_of_parse`).
-/

namespace Dsip.Tn

open Dsip.Lib Dsip.Webvh

abbrev Object := List (PyStr × PyJson)

def member (o : Object) (name : String) : Option PyJson := o.lookup (.ofChars name.toList)

/-- A string, if it has no surrogate on its own. -/
def charsOf (s : PyStr) : Option (List Char) :=
  s.mapM fun c =>
    match c with
    | .char c => some c
    | .surrogate _ => none

def textOf : PyJson → Option String
  | .str s => (charsOf s).map String.ofList
  | _ => none

def intOf : PyJson → Option Int
  | .int n => some n
  | _ => none

def startsWith (start s : String) : Bool := start.toList.isPrefixOf s.toList

/-- `TN_RE`, `E164`. -/
def isE164 (s : String) : Bool :=
  match s.toList with
  | '+' :: d :: rest => '1' ≤ d && d ≤ '9' && 1 ≤ rest.length && rest.length ≤ 14 && rest.all Char.isDigit
  | _ => false

/-- `b64u`, `b64urlDecode`. -/
def b64u (segment : List Char) : Option (List Nat) := base64UrlDecode (String.ofList segment)

/-- `json_object`, `segmentObject`. -/
def jsonObject (bytes : List Nat) : Option Object :=
  match (utf8Decode bytes).bind fun text => IJson.ijson (.ofChars text) with
  | some (.obj members) => some members
  | _ => none

structure Jws where
  header : Object
  payload : Object
  signingInput : List Char
  signature : List Nat

/-- `splitJws`: three segments, the last one not empty, the first two objects. -/
def splitJws (text : String) : Option Jws :=
  match text.toList.splitOn '.' with
  | [h, p, s] =>
    if s = [] then none
    else do
      let header ← (b64u h).bind jsonObject
      let payload ← (b64u p).bind jsonObject
      let signature ← b64u s
      return ⟨header, payload, h ++ '.' :: p, signature⟩
  | _ => none

/-- What the payload of a binding is read for. -/
structure Payload where
  tn : String
  did : String
  iat : Int
  exp : Int
  status : Option String
  deriving DecidableEq, Repr

/-- A binding that is well formed. -/
structure Parsed where
  x5u : String
  payload : Payload
  signingInput : List Char
  signature : List Nat
  deriving DecidableEq, Repr

def parseHeader (h : Object) : Option String := do
  guard ((member h "alg").bind textOf = some "ES256")
  guard ((member h "typ").bind textOf = some "dsip-tn-binding+jwt")
  let x5u ← (member h "x5u").bind textOf
  guard (startsWith "https://" x5u)
  guard ((member h "crit").isNone)
  return x5u

def parsePayload (p : Object) : Option Payload := do
  let tn ← (member p "tn").bind textOf
  guard (isE164 tn)
  let did ← (member p "did").bind textOf
  guard (startsWith "did:" did)
  let iat ← (member p "iat").bind intOf
  guard (0 ≤ iat)
  let exp ← (member p "exp").bind intOf
  guard (iat < exp)
  let jti ← (member p "jti").bind textOf
  guard (Messaging.isUlid jti.toList)
  match member p "status" with
  | none => return ⟨tn, did, iat, exp, none⟩
  | some status => do
      let url ← textOf status
      guard (startsWith "https://" url)
      return ⟨tn, did, iat, exp, some url⟩

/-- `parse_binding`, `parseBinding`. -/
def parseBinding (binding : PyJson) : Option Parsed := do
  let jws ← (textOf binding).bind splitJws
  let x5u ← parseHeader jws.header
  let payload ← parsePayload jws.payload
  return ⟨x5u, payload, jws.signingInput, jws.signature⟩

/-- What a node reads again of a binding that it holds. -/
structure Entry where
  text : String
  did : String
  iat : Int
  exp : Int
  deriving DecidableEq, Repr

/-- `held_payload`, `readPayload`. -/
def heldPayload (text : String) : Option Entry :=
  match text.toList.splitOn '.' with
  | [_, p, _] => do
      let payload ← (b64u p).bind jsonObject
      let did ← (member payload "did").bind textOf
      let iat ← (member payload "iat").bind intOf
      let exp ← (member payload "exp").bind intOf
      return ⟨text, did, iat, exp⟩
  | _ => none

theorem guard_bind {α : Type} {p : Prop} [Decidable p] {f : Unit → Option α} {a : α} :
    (guard p >>= f) = some a ↔ p ∧ f () = some a := by
  by_cases hp : p
  · simp [guard, hp]
  · simp [guard, hp]

theorem bind_some {α β : Type} {o : Option α} {f : α → Option β} {b : β} :
    (o >>= f) = some b ↔ ∃ a, o = some a ∧ f a = some b := Option.bind_eq_some_iff

theorem parsePayload_eq {p : Object} {payload : Payload} (h : parsePayload p = some payload) :
    (member p "did").bind textOf = some payload.did ∧ (member p "iat").bind intOf = some payload.iat ∧
      (member p "exp").bind intOf = some payload.exp ∧ isE164 payload.tn = true ∧ payload.iat < payload.exp := by
  unfold parsePayload at h
  obtain ⟨tn, -, h⟩ := bind_some.mp h
  obtain ⟨htn, h⟩ := guard_bind.mp h
  obtain ⟨did, hdid, h⟩ := bind_some.mp h
  obtain ⟨-, h⟩ := guard_bind.mp h
  obtain ⟨iat, hiat, h⟩ := bind_some.mp h
  obtain ⟨-, h⟩ := guard_bind.mp h
  obtain ⟨exp, hexp, h⟩ := bind_some.mp h
  obtain ⟨hlt, h⟩ := guard_bind.mp h
  obtain ⟨jti, -, h⟩ := bind_some.mp h
  obtain ⟨-, h⟩ := guard_bind.mp h
  split at h
  · cases h
    exact ⟨hdid, hiat, hexp, htn, hlt⟩
  · obtain ⟨url, -, h⟩ := bind_some.mp h
    obtain ⟨-, h⟩ := guard_bind.mp h
    cases h
    exact ⟨hdid, hiat, hexp, htn, hlt⟩

theorem charsOf_ofChars (cs : List Char) : charsOf (.ofChars cs) = some cs := by
  induction cs with
  | nil => rfl
  | cons c cs ih =>
    show charsOf (.char c :: PyStr.ofChars cs) = _
    unfold charsOf at ih ⊢
    rw [List.mapM_cons, ih]
    rfl

@[simp] theorem textOf_str (s : String) : textOf (.str (.ofChars s.toList)) = some s := by
  show (charsOf (.ofChars s.toList)).map String.ofList = some s
  rw [charsOf_ofChars, Option.map_some, String.ofList_toList]

theorem textOf_ofChars (cs : List Char) : textOf (.str (.ofChars cs)) = some (String.ofList cs) := by
  have h := textOf_str (String.ofList cs)
  rwa [String.toList_ofList] at h

theorem ofChars_of_charsOf {s : PyStr} {cs : List Char} (h : charsOf s = some cs) : s = .ofChars cs := by
  induction s generalizing cs with
  | nil =>
    cases h
    rfl
  | cons c s ih =>
    unfold charsOf at h ih
    rw [List.mapM_cons] at h
    obtain ⟨d, hd, h⟩ := bind_some.mp h
    obtain ⟨ds, hds, h⟩ := bind_some.mp h
    cases h
    cases c with
    | surrogate n => cases hd
    | char c =>
      cases hd
      rw [ih hds]
      rfl

theorem ofChars_of_textOf {s : PyStr} {text : String} (h : textOf (.str s) = some text) : s = .ofChars text.toList := by
  obtain ⟨cs, hcs, rfl⟩ := Option.map_eq_some_iff.mp h
  rw [String.toList_ofList]
  exact ofChars_of_charsOf hcs

theorem heldPayload_of_parse {text : String} {b : Parsed} (h : parseBinding (.str (.ofChars text.toList)) = some b) :
    heldPayload text = some ⟨text, b.payload.did, b.payload.iat, b.payload.exp⟩ := by
  unfold parseBinding at h
  obtain ⟨jws, hjws, h⟩ := bind_some.mp h
  obtain ⟨x5u, -, h⟩ := bind_some.mp h
  obtain ⟨payload, hpayload, h⟩ := bind_some.mp h
  cases h
  obtain ⟨hdid, hiat, hexp, -, -⟩ := parsePayload_eq hpayload
  rw [textOf_str, Option.bind_some] at hjws
  unfold splitJws at hjws
  unfold heldPayload
  split at hjws
  · rename_i hseg p s hsplit
    split at hjws
    · cases hjws
    obtain ⟨header, -, hjws⟩ := bind_some.mp hjws
    obtain ⟨members, hmembers, hjws⟩ := bind_some.mp hjws
    obtain ⟨signature, -, hjws⟩ := bind_some.mp hjws
    cases hjws
    simp only [hmembers, hdid, hiat, hexp, Option.bind_eq_bind, Option.bind_some, Option.pure_def]
  · cases hjws

end Dsip.Tn
