import Dsip.Lib.JsValue

/-!
# Schemas

A schema is the test of a value. Each keyword that a schema document uses is one
definition, so that a document reads as it is written.
-/

namespace Dsip.Lib

abbrev Schema := JsValue → Bool

namespace Schema

/-- A string: `minLength`, `maxLength` and `pattern`. -/
def string (minLength : Nat) (maxLength : Option Nat) (pattern : List Char → Bool) : Schema
  | .str s => minLength ≤ s.length ∧ (∀ most ∈ maxLength, s.length ≤ most) ∧ pattern s.toList
  | _ => false

def pattern (p : List Char → Bool) : Schema := string 0 none p

/-- An integer: `minimum` and `maximum`. -/
def integer (minimum : Int) (maximum : Option Int) : Schema
  | .int n => minimum ≤ n ∧ ∀ most ∈ maximum, n ≤ most
  | _ => false

def boolean : Schema
  | .bool _ => true
  | _ => false

def null : Schema := JsValue.isNull

/-- `const` and `enum`, of strings. -/
def enum (values : List String) : Schema
  | .str s => s ∈ values
  | _ => false

def const (value : String) : Schema := enum [value]

/-- An array: `items`, `minItems` and `maxItems`. -/
def array (items : Schema) (minItems : Nat) (maxItems : Option Nat) : Schema
  | .arr vs => vs.all items ∧ minItems ≤ vs.length ∧ ∀ most ∈ maxItems, vs.length ≤ most
  | _ => false

/-- `uniqueItems`, of an array of strings. -/
def unique : Schema
  | .arr vs => (vs.filterMap fun v => JsValue.text? (some v)).Nodup
  | _ => true

/-- `properties` and `additionalProperties`. -/
def properties (props : List (String × Schema)) (additional : Bool) (o : JsMembers) : Bool :=
  o.all fun (name, v) => match props.lookup name with
    | some schema => schema v
    | none => additional

def required (names : List String) (o : JsMembers) : Bool := names.all fun name => JsValue.has name o

/-- An object: `properties`, `required`, `additionalProperties`, and what a document
says of the object besides. -/
def object (props : List (String × Schema)) (names : List String) (additional : Bool)
    (more : JsMembers → Bool) : Schema
  | .obj o => properties props additional o ∧ required names o ∧ more o
  | _ => false

def anyOf (a b : Schema) : Schema := fun v => a v || b v

/-- `oneOf`, of two. -/
def oneOf (a b : Schema) : Schema := fun v => xor (a v) (b v)

def allOf (a b : Schema) : Schema := fun v => a v && b v

def not (a : Schema) : Schema := fun v => !a v

section Object

variable {props : List (String × Schema)} {names : List String} {additional : Bool} {more : JsMembers → Bool}
  {o : JsMembers} {name : String} {v : JsValue} {schema : Schema}

theorem object_lookup (h : object props names additional more (.obj o) = true) (hname : o.lookup name = some v)
    (hprops : props.lookup name = some schema) : schema v = true := by
  unfold object at h
  have h := (of_decide_eq_true h).1
  unfold properties at h
  have hv := List.all_eq_true.mp h (name, v) (mem_of_lookup hname)
  dsimp only at hv
  rw [hprops] at hv
  exact hv

theorem object_required (h : object props names additional more (.obj o) = true) (hname : name ∈ names) :
    ∃ v, o.lookup name = some v := by
  unfold object at h
  have h := (of_decide_eq_true h).2.1
  unfold required at h
  exact Option.isSome_iff_exists.mp (List.all_eq_true.mp h name hname)

end Object

theorem pattern_eq_true {p : List Char → Bool} {v : JsValue} (h : pattern p v = true) :
    ∃ s, v = .str s ∧ p s.toList = true := by
  cases v with
  | str s => exact ⟨s, rfl, (of_decide_eq_true h).2.2⟩
  | _ => cases h

end Schema

end Dsip.Lib
