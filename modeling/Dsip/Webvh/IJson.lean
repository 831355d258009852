import Dsip.Lib.PyJson
import Dsip.Webvh.Jcs

/-!
# Canonical JSON and the reader of I-JSON

`ijson` reads what Python's `json.loads` reads, with hooks that refuse a float and a
repeated name, and then refuses a surrogate on its own and an integer that is too large.
It accepts the texts of good values, and those only (`ijson_eq`).
-/

namespace Dsip.Webvh

open Dsip.Lib

namespace IJson

/-! ## Writing -/

/-- `str.encode("utf-16-be")`, as code units. -/
def units : PyStr → Option (List Nat)
  | [] => some []
  | .char c :: rest => (units rest).map (utf16 (String.ofList [c]) ++ ·)
  | .surrogate _ :: _ => none

/-- `str.encode("utf-8")`. -/
def utf8 : PyStr → Option Bytes
  | [] => some []
  | .char c :: rest => (utf8 rest).map (String.utf8EncodeChar c ++ ·)
  | .surrogate _ :: _ => none

def escape : PyChar → PyStr
  | .char c => .ofChars (Json.escape c)
  | .surrogate n => [.surrogate n]

/-- `json.dumps` of a string, with `ensure_ascii=False`. -/
def dumps (s : PyStr) : PyStr := .char '"' :: (s.flatMap escape ++ [.char '"'])

/-- Members by the code units of their names. -/
def sorted (members : List (PyStr × PyStr)) : Option (List (PyStr × PyStr)) :=
  (members.mapM fun m => (units m.1).map fun u => (u, m)).map fun keyed =>
    (keyed.insertionSort fun a b => a.1 ≤ b.1).map (·.2)

mutual

/-- `enc`; no text where it raises. -/
def enc : PyJson → Option PyStr
  | .null => some (.ofChars "null".toList)
  | .bool true => some (.ofChars "true".toList)
  | .bool false => some (.ofChars "false".toList)
  | .int n => some (.ofChars (Json.renderInt n))
  | .float => none
  | .str s => some (dumps s)
  | .arr vs => (encItems vs).map fun ts => .char '[' :: ([PyChar.char ','].intercalate ts ++ [.char ']'])
  | .obj ms =>
    ((encMembers ms).bind sorted).map fun ts =>
      .char '{' :: ([PyChar.char ','].intercalate (ts.map fun t => dumps t.1 ++ .char ':' :: t.2) ++ [.char '}'])

def encItems : List PyJson → Option (List PyStr)
  | [] => some []
  | v :: vs =>
    match enc v with
    | none => none
    | some t => (encItems vs).map (t :: ·)

def encMembers : List (PyStr × PyJson) → Option (List (PyStr × PyStr))
  | [] => some []
  | (k, v) :: ms =>
    match enc v with
    | none => none
    | some t => (encMembers ms).map ((k, t) :: ·)

end

def jcs (v : PyJson) : Option Bytes := (enc v).bind utf8

/-! ## Reading -/

/-- `pairs`: the members of an object, unless a name is repeated. -/
def pairs (kv : List (PyStr × PyJson)) : Option (List (PyStr × PyJson)) :=
  kv.foldlM (fun d m => if m.1 ∈ d.map (·.1) then none else some (d ++ [m])) []

mutual

/-- What the hooks make of a value: `no_float` and `pairs`. -/
def hooks : PyJson → Option PyJson
  | .null => some .null
  | .bool b => some (.bool b)
  | .int n => some (.int n)
  | .float => none
  | .str s => some (.str s)
  | .arr vs => (hooksItems vs).map .arr
  | .obj ms => ((hooksMembers ms).bind pairs).map .obj

def hooksItems : List PyJson → Option (List PyJson)
  | [] => some []
  | v :: vs =>
    match hooks v with
    | none => none
    | some w => (hooksItems vs).map (w :: ·)

def hooksMembers : List (PyStr × PyJson) → Option (List (PyStr × PyJson))
  | [] => some []
  | (k, v) :: ms =>
    match hooks v with
    | none => none
    | some w => (hooksMembers ms).map ((k, w) :: ·)

end

def maxSafe : Int := 2 ^ 53 - 1

/-- A string without surrogates on their own. -/
def scalars (s : PyStr) : Bool := !s.any fun c => 0xD800 ≤ c.ord ∧ c.ord ≤ 0xDFFF

mutual

def check : PyJson → Bool
  | .null | .bool _ | .float => true
  | .int n => -maxSafe ≤ n ∧ n ≤ maxSafe
  | .str s => scalars s
  | .arr vs => checkItems vs
  | .obj ms => checkMembers ms

def checkItems : List PyJson → Bool
  | [] => true
  | v :: vs => check v && checkItems vs

def checkMembers : List (PyStr × PyJson) → Bool
  | [] => true
  | (k, v) :: ms => scalars k && check v && checkMembers ms

end

def ijson (text : PyStr) : Option PyJson :=
  match (PyJson.loads text).bind hooks with
  | none => none
  | some v => if check v then some v else none

/-! ## What is accepted -/

mutual

/-- A value of null, booleans, integers in range, strings without surrogates, arrays, and
objects without repeated names. -/
def Good : PyJson → Prop
  | .null | .bool _ => True
  | .int n => -maxSafe ≤ n ∧ n ≤ maxSafe
  | .float => False
  | .str s => ∃ cs, s = PyStr.ofChars cs
  | .arr vs => GoodItems vs
  | .obj ms => (ms.map (·.1)).Nodup ∧ GoodMembers ms

def GoodItems : List PyJson → Prop
  | [] => True
  | v :: vs => Good v ∧ GoodItems vs

def GoodMembers : List (PyStr × PyJson) → Prop
  | [] => True
  | (k, v) :: ms => (∃ cs, k = PyStr.ofChars cs) ∧ Good v ∧ GoodMembers ms

end

theorem pairs_eq {kv d : List (PyStr × PyJson)} : pairs kv = some d ↔ d = kv ∧ (kv.map (·.1)).Nodup := by
  have hfold (kv before : List (PyStr × PyJson)) (hbefore : (before.map (·.1)).Nodup) :
      kv.foldlM (fun d m => if m.1 ∈ d.map (·.1) then none else some (d ++ [m])) before = some d ↔
        d = before ++ kv ∧ ((before ++ kv).map (·.1)).Nodup := by
    induction kv generalizing before with
    | nil =>
      rw [List.append_nil]
      exact ⟨fun h => ⟨(Option.some.inj h).symm, hbefore⟩, fun h => congrArg some h.1.symm⟩
    | cons m kv ih =>
      rw [List.foldlM_cons]
      have hcons : before ++ m :: kv = (before ++ [m]) ++ kv := by rw [List.append_assoc]; rfl
      by_cases hmem : m.1 ∈ before.map (·.1)
      · rw [if_pos hmem]
        refine ⟨nofun, fun h => absurd h.2 ?_⟩
        rw [List.map_append, List.nodup_append]
        rintro ⟨-, -, hdisjoint⟩
        exact hdisjoint _ hmem _ (List.mem_map_of_mem List.mem_cons_self) rfl
      · rw [if_neg hmem, hcons]
        refine ih (before ++ [m]) ?_
        rw [List.map_append, List.nodup_append]
        refine ⟨hbefore, List.nodup_singleton _, ?_⟩
        rintro a ha b hb rfl
        rw [List.map_singleton, List.mem_singleton] at hb
        exact hmem (hb ▸ ha)
  exact hfold kv [] List.nodup_nil

theorem scalars_iff {s : PyStr} : scalars s = true ↔ ∃ cs, s = PyStr.ofChars cs := by
  induction s with
  | nil => exact ⟨fun _ => ⟨[], rfl⟩, fun _ => rfl⟩
  | cons c s ih =>
    unfold scalars at ih ⊢
    rw [List.any_cons, Bool.not_or, Bool.and_eq_true, ih]
    cases c with
    | char c =>
      have hscalar : ¬(0xD800 ≤ (PyChar.char c).ord ∧ (PyChar.char c).ord ≤ 0xDFFF) := by
        intro hrange
        have hvalid := c.valid
        change c.toNat.isValidChar at hvalid
        change 0xD800 ≤ c.toNat ∧ c.toNat ≤ 0xDFFF at hrange
        rcases hvalid with h | ⟨h, -⟩ <;> omega
      constructor
      · rintro ⟨-, cs, rfl⟩
        exact ⟨c :: cs, rfl⟩
      · rintro ⟨cs, hcs⟩
        obtain ⟨cs', -, hrest⟩ := PyJson.ofChars_cons hcs.symm
        exact ⟨by rw [decide_eq_false hscalar]; rfl, cs', hrest⟩
    | surrogate n =>
      have hrange : 0xD800 ≤ (PyChar.surrogate n).ord ∧ (PyChar.surrogate n).ord ≤ 0xDFFF := by
        have hlt := n.isLt
        change 0xD800 ≤ 0xD800 + n.val ∧ 0xD800 + n.val ≤ 0xDFFF
        omega
      refine ⟨fun h => absurd h.1 (by simpa using hrange), ?_⟩
      rintro ⟨cs, hcs⟩
      cases cs <;> cases hcs

mutual

theorem hooks_check : ∀ v w : PyJson, (hooks v = some w ∧ check w = true) ↔ (w = v ∧ Good v)
  | .null, w => by
      constructor
      · rintro ⟨h, -⟩
        exact ⟨(Option.some.inj h).symm, trivial⟩
      · rintro ⟨rfl, -⟩
        exact ⟨rfl, rfl⟩
  | .bool b, w => by
      constructor
      · rintro ⟨h, -⟩
        exact ⟨(Option.some.inj h).symm, trivial⟩
      · rintro ⟨rfl, -⟩
        exact ⟨rfl, rfl⟩
  | .int n, w => by
      constructor
      · rintro ⟨h, hcheck⟩
        obtain rfl := Option.some.inj h
        have hrange : -maxSafe ≤ n ∧ n ≤ maxSafe := decide_eq_true_iff.mp hcheck
        exact ⟨rfl, hrange⟩
      · rintro ⟨rfl, hgood⟩
        have hrange : -maxSafe ≤ n ∧ n ≤ maxSafe := hgood
        exact ⟨rfl, decide_eq_true_iff.mpr hrange⟩
  | .float, w => by
      constructor
      · rintro ⟨h, -⟩
        cases h
      · rintro ⟨-, hgood⟩
        exact hgood.elim
  | .str s, w => by
      constructor
      · rintro ⟨h, hcheck⟩
        obtain rfl := Option.some.inj h
        exact ⟨rfl, scalars_iff.mp hcheck⟩
      · rintro ⟨rfl, hgood⟩
        exact ⟨rfl, scalars_iff.mpr hgood⟩
  | .arr vs, w => by
      constructor
      · rintro ⟨h, hcheck⟩
        obtain ⟨ws, hws, rfl⟩ := Option.map_eq_some_iff.mp h
        obtain ⟨rfl, hgood⟩ := (hooks_checkItems vs ws).mp ⟨hws, hcheck⟩
        exact ⟨rfl, hgood⟩
      · rintro ⟨rfl, hgood⟩
        obtain ⟨hhooks, hcheck⟩ := (hooks_checkItems vs vs).mpr ⟨rfl, hgood⟩
        exact ⟨by rw [hooks, hhooks]; rfl, hcheck⟩
  | .obj ms, w => by
      constructor
      · rintro ⟨h, hcheck⟩
        obtain ⟨d, hd, rfl⟩ := Option.map_eq_some_iff.mp h
        obtain ⟨ns, hns, hpairs⟩ := Option.bind_eq_some_iff.mp hd
        obtain ⟨rfl, hnodup⟩ := pairs_eq.mp hpairs
        obtain ⟨rfl, hgood⟩ := (hooks_checkMembers ms d).mp ⟨hns, hcheck⟩
        exact ⟨rfl, hnodup, hgood⟩
      · rintro ⟨rfl, hnodup, hgood⟩
        obtain ⟨hhooks, hcheck⟩ := (hooks_checkMembers ms ms).mpr ⟨rfl, hgood⟩
        refine ⟨?_, hcheck⟩
        rw [hooks, hhooks, Option.bind_some, pairs_eq.mpr ⟨rfl, hnodup⟩]
        rfl

theorem hooks_checkItems : ∀ vs ws : List PyJson,
    (hooksItems vs = some ws ∧ checkItems ws = true) ↔ (ws = vs ∧ GoodItems vs)
  | [], ws => by
      constructor
      · rintro ⟨h, -⟩
        exact ⟨(Option.some.inj h).symm, trivial⟩
      · rintro ⟨rfl, -⟩
        exact ⟨rfl, rfl⟩
  | v :: vs, ws => by
      rw [hooksItems]
      constructor
      · rintro ⟨h, hcheck⟩
        split at h
        · cases h
        · rename_i w hw
          obtain ⟨ws', hws', rfl⟩ := Option.map_eq_some_iff.mp h
          obtain ⟨hcheckW, hcheckWs⟩ := Bool.and_eq_true_iff.mp hcheck
          obtain ⟨rfl, hgood⟩ := (hooks_check v w).mp ⟨hw, hcheckW⟩
          obtain ⟨rfl, hgoods⟩ := (hooks_checkItems vs ws').mp ⟨hws', hcheckWs⟩
          exact ⟨rfl, hgood, hgoods⟩
      · rintro ⟨rfl, hgood, hgoods⟩
        obtain ⟨hhooks, hcheck⟩ := (hooks_check v v).mpr ⟨rfl, hgood⟩
        obtain ⟨hhooksItems, hcheckItems⟩ := (hooks_checkItems vs vs).mpr ⟨rfl, hgoods⟩
        exact ⟨by rw [hhooks, hhooksItems]; rfl, Bool.and_eq_true_iff.mpr ⟨hcheck, hcheckItems⟩⟩

theorem hooks_checkMembers : ∀ ms ns : List (PyStr × PyJson),
    (hooksMembers ms = some ns ∧ checkMembers ns = true) ↔ (ns = ms ∧ GoodMembers ms)
  | [], ns => by
      constructor
      · rintro ⟨h, -⟩
        exact ⟨(Option.some.inj h).symm, trivial⟩
      · rintro ⟨rfl, -⟩
        exact ⟨rfl, rfl⟩
  | (k, v) :: ms, ns => by
      rw [hooksMembers]
      constructor
      · rintro ⟨h, hcheck⟩
        split at h
        · cases h
        · rename_i w hw
          obtain ⟨ns', hns', rfl⟩ := Option.map_eq_some_iff.mp h
          obtain ⟨hhead, hcheckNs⟩ := Bool.and_eq_true_iff.mp hcheck
          obtain ⟨hname, hcheckW⟩ := Bool.and_eq_true_iff.mp hhead
          obtain ⟨rfl, hgood⟩ := (hooks_check v w).mp ⟨hw, hcheckW⟩
          obtain ⟨rfl, hgoods⟩ := (hooks_checkMembers ms ns').mp ⟨hns', hcheckNs⟩
          exact ⟨rfl, scalars_iff.mp hname, hgood, hgoods⟩
      · rintro ⟨rfl, hname, hgood, hgoods⟩
        obtain ⟨hhooks, hcheck⟩ := (hooks_check v v).mpr ⟨rfl, hgood⟩
        obtain ⟨hhooksMembers, hcheckMembers⟩ := (hooks_checkMembers ms ms).mpr ⟨rfl, hgoods⟩
        exact ⟨by rw [hhooks, hhooksMembers]; rfl,
          Bool.and_eq_true_iff.mpr ⟨Bool.and_eq_true_iff.mpr ⟨scalars_iff.mpr hname, hcheck⟩, hcheckMembers⟩⟩

end

theorem ijson_eq {text : PyStr} {v : PyJson} : ijson text = some v ↔ PyJson.loads text = some v ∧ Good v := by
  unfold ijson
  constructor
  · intro h
    split at h
    · cases h
    · rename_i w hw
      split at h
      · rename_i hcheck
        obtain rfl := Option.some.inj h
        obtain ⟨u, hu, hhooks⟩ := Option.bind_eq_some_iff.mp hw
        obtain ⟨rfl, hgood⟩ := (hooks_check u w).mp ⟨hhooks, hcheck⟩
        exact ⟨hu, hgood⟩
      · cases h
  · rintro ⟨hloads, hgood⟩
    obtain ⟨hhooks, hcheck⟩ := (hooks_check v v).mpr ⟨rfl, hgood⟩
    rw [hloads, Option.bind_some, hhooks]
    exact if_pos hcheck

end IJson

end Dsip.Webvh
