import Mathlib.Tactic

/-!
# Values of a script

What `JSON.parse` gives, a value as the name of a member, and the lookup of a name in
an object literal, which also finds what every object inherits.
-/

namespace Dsip.Lib

/-- A value. A number that is no integer is kept by its text. -/
inductive JsValue where
  | null
  | bool (b : Bool)
  | int (n : Int)
  | float (text : String)
  | str (s : String)
  | arr (items : List JsValue)
  | obj (members : List (String × JsValue))
  deriving Repr

abbrev JsMembers := List (String × JsValue)

inductive JsError where
  /-- An error of the program's own. -/
  | error (message : String)
  | notIterable
  | notAFunction
  /-- A member of `undefined` was read. -/
  | ofUndefined
  /-- An object cannot be converted to a primitive value. -/
  | notPrimitive
  deriving DecidableEq, Repr

abbrev Js := Except JsError

namespace JsValue

def isNull : JsValue → Bool
  | .null => true
  | _ => false

/-- `=== s`, of a member that may be missing. -/
def isStr (v : Option JsValue) (s : String) : Bool :=
  match v with
  | some (.str t) => t = s
  | _ => false

def text? : Option JsValue → Option String
  | some (.str s) => some s
  | _ => none

def int? : Option JsValue → Option Int
  | some (.int n) => some n
  | _ => none

/-- `name in object`, of a name that objects do not inherit. -/
def has (name : String) (o : JsMembers) : Bool := (o.lookup name).isSome

/-- The length of a string, in UTF-16. -/
def utf16Length (s : String) : Nat := (s.toList.map fun c => if c.toNat < 0x10000 then 1 else 2).sum

mutual

/-- A value as the name of a member; none where the conversion throws, because an
object has a `toString` of its own, which is no function. -/
def name (numberText : Int → String) : JsValue → Option String
  | .null => some "null"
  | .bool b => some (if b then "true" else "false")
  | .int n => some (numberText n)
  | .float text => some text
  | .str s => some s
  | .arr items => (names numberText items).map fun texts => ",".intercalate texts
  | .obj members => if has "toString" members then none else some "[object Object]"

/-- The items of an array, as they are joined. -/
def names (numberText : Int → String) : List JsValue → Option (List String)
  | [] => some []
  | v :: vs => do
      let text ← if v.isNull then some "" else name numberText v
      let texts ← names numberText vs
      return text :: texts

end

end JsValue

/-! ## Object literals -/

/-- The members that every object inherits. -/
def inheritedMembers : List String :=
  ["constructor", "__defineGetter__", "__defineSetter__", "hasOwnProperty", "__lookupGetter__", "__lookupSetter__",
    "isPrototypeOf", "propertyIsEnumerable", "toString", "valueOf", "__proto__", "toLocaleString"]

/-- What is inherited, as text. -/
def inheritedText (name : String) : String :=
  if name = "__proto__" then "[object Object]"
  else if name = "constructor" then "function Object() \x7b [native code] \x7d"
  else "function " ++ name ++ "() \x7b [native code] \x7d"

/-- What a lookup finds. What is inherited is an object, and so is true as a condition. -/
inductive Found (α : Type) where
  | own (value : α)
  | inherited
  | missing
  deriving DecidableEq, Repr

/-- `table[name]`, for an object literal. -/
def findMember {α : Type} (table : List (String × α)) (name : String) : Found α :=
  match table.lookup name with
  | some value => .own value
  | none => if name ∈ inheritedMembers then .inherited else .missing

variable {α : Type} {name : String}

theorem mem_of_lookup {o : List (String × α)} {v : α} (h : o.lookup name = some v) : (name, v) ∈ o := by
  induction o with
  | nil => cases h
  | cons entry o ih =>
    obtain ⟨key, w⟩ := entry
    rw [List.lookup_cons] at h
    cases hkey : name == key with
    | true =>
      rw [hkey] at h
      cases h
      rw [eq_of_beq hkey]
      exact List.mem_cons_self
    | false =>
      rw [hkey] at h
      exact List.mem_cons_of_mem _ (ih h)

theorem findMember_own {table : List (String × α)} {value : α}
    (h : findMember table name = .own value) : table.lookup name = some value := by
  unfold findMember at h
  split at h
  case h_1 hlookup =>
    cases h
    exact hlookup
  case h_2 => split at h <;> cases h

theorem findMember_inherited {table : List (String × α)}
    (h : findMember table name = .inherited) : name ∈ inheritedMembers := by
  unfold findMember at h
  split at h
  case h_1 => cases h
  case h_2 =>
    split at h
    case isTrue hmem => exact hmem
    case isFalse => cases h

theorem findMember_of_inherited {table : List (String × α)}
    (hmem : name ∈ inheritedMembers) (hnone : table.lookup name = none) : findMember table name = .inherited := by
  unfold findMember
  rw [hnone]
  exact if_pos hmem

end Dsip.Lib
