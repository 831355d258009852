import Mathlib.Tactic

/-!
# JSON text

Values with integers for numbers, a parser, and two ways to write a value that
differ in the white space after a comma or a colon. What is written is read back
(`value_render`), and so a value is known by its text (`render_injective`).

A text with a fraction, an exponent or a lone surrogate does not parse.
-/

namespace Dsip.Lib

section Quantifiers

variable {p : Char → Prop} [DecidablePred p]

/-- What holds of a text's characters is decided on the text. -/
instance decidableForallChar (s : List Char) : Decidable (∀ c ∈ s, p c) := List.decidableBAll p s

instance decidableExistsChar (s : List Char) : Decidable (∃ c ∈ s, p c) := List.decidableBEx p s

instance decidableForallOption (o : Option Char) : Decidable (∀ c ∈ o, p c) := Option.decidableForallMem o

end Quantifiers

/-- A JSON value. An object's members are in the order of the text, repeated
names included. -/
inductive Json where
  | null
  | bool (b : Bool)
  | int (n : Int)
  | str (s : String)
  | arr (items : List Json)
  | obj (members : List (String × Json))
  deriving Repr

namespace Json

/-! ## Writing -/

def hexDigit (n : Nat) : Char := "0123456789abcdef".toList.getD n '0'

/-- The letter of a short escape. -/
def shortEscape (c : Char) : Option Char :=
  if c.toNat = 0x08 then some 'b'
  else if c.toNat = 0x09 then some 't'
  else if c.toNat = 0x0A then some 'n'
  else if c.toNat = 0x0C then some 'f'
  else if c.toNat = 0x0D then some 'r'
  else none

/-- A character in a string's text. -/
def escape (c : Char) : List Char :=
  if c = '"' then ['\\', '"']
  else if c = '\\' then ['\\', '\\']
  else if c.toNat < 0x20 then
    match shortEscape c with
    | some e => ['\\', e]
    | none => ['\\', 'u', '0', '0', hexDigit (c.toNat / 16), hexDigit (c.toNat % 16)]
  else [c]

def quote (s : String) : List Char := '"' :: (s.toList.flatMap escape ++ ['"'])

def renderInt (n : Int) : List Char :=
  if n < 0 then '-' :: Nat.toDigits 10 n.natAbs else Nat.toDigits 10 n.natAbs

mutual

/-- The text of a value, with `pad` after each comma and colon. -/
def render (pad : List Char) : Json → List Char
  | .null => ['n', 'u', 'l', 'l']
  | .bool true => ['t', 'r', 'u', 'e']
  | .bool false => ['f', 'a', 'l', 's', 'e']
  | .int n => renderInt n
  | .str s => quote s
  | .arr [] => ['[', ']']
  | .arr (v :: vs) => '[' :: (render pad v ++ renderItems pad vs)
  | .obj [] => ['{', '}']
  | .obj ((k, v) :: ms) => '{' :: (quote k ++ ':' :: (pad ++ (render pad v ++ renderMembers pad ms)))

/-- The other items of an array, up to its end. -/
def renderItems (pad : List Char) : List Json → List Char
  | [] => [']']
  | v :: vs => ',' :: (pad ++ (render pad v ++ renderItems pad vs))

/-- The other members of an object, up to its end. -/
def renderMembers (pad : List Char) : List (String × Json) → List Char
  | [] => ['}']
  | (k, v) :: ms =>
    ',' :: (pad ++ (quote k ++ ':' :: (pad ++ (render pad v ++ renderMembers pad ms))))

end

/-! ## Reading -/

def isSpace (c : Char) : Bool := c = ' ' || c = '\t' || c = '\n' || c = '\r'

def skip (text : List Char) : List Char := text.dropWhile isSpace

def hexValue (c : Char) : Option Nat :=
  if '0' ≤ c ∧ c ≤ '9' then some (c.toNat - '0'.toNat)
  else if 'a' ≤ c ∧ c ≤ 'f' then some (c.toNat - 'a'.toNat + 10)
  else if 'A' ≤ c ∧ c ≤ 'F' then some (c.toNat - 'A'.toNat + 10)
  else none

def hex4 : List Char → Option (Nat × List Char)
  | a :: b :: c :: d :: rest => do
      return ((((← hexValue a) * 16 + (← hexValue b)) * 16 + (← hexValue c)) * 16 + (← hexValue d), rest)
  | _ => none

/-- What follows `\u`: a scalar value, or a pair of surrogates. -/
def unicode (text : List Char) : Option (Char × List Char) := do
  let (high, rest) ← hex4 text
  if 0xD800 ≤ high ∧ high ≤ 0xDFFF then
    match rest with
    | '\\' :: 'u' :: rest => do
        let (low, rest) ← hex4 rest
        guard (high ≤ 0xDBFF ∧ 0xDC00 ≤ low ∧ low ≤ 0xDFFF)
        return (Char.ofNat (0x10000 + (high - 0xD800) * 0x400 + (low - 0xDC00)), rest)
    | _ => none
  else return (Char.ofNat high, rest)

def unescape (e : Char) : Option Char :=
  if e = '"' ∨ e = '\\' ∨ e = '/' then some e
  else if e = 'b' then some (Char.ofNat 0x08)
  else if e = 't' then some (Char.ofNat 0x09)
  else if e = 'n' then some (Char.ofNat 0x0A)
  else if e = 'f' then some (Char.ofNat 0x0C)
  else if e = 'r' then some (Char.ofNat 0x0D)
  else none

/-- A character of a string's text. -/
def nextChar : List Char → Option (Char × List Char)
  | [] => none
  | '\\' :: text =>
    match text with
    | [] => none
    | e :: rest => if e = 'u' then unicode rest else (unescape e).map (·, rest)
  | c :: rest => if c.toNat < 0x20 then none else some (c, rest)

/-- A string's text up to its end. Every character takes one at least, so that
`fuel` is not used up where it is the text there is. -/
def stringBody : Nat → List Char → Option (List Char × List Char)
  | 0, _ => none
  | fuel + 1, text =>
    match text with
    | '"' :: rest => some ([], rest)
    | _ => do
        let (c, rest) ← nextChar text
        let (cs, rest) ← stringBody fuel rest
        return (c :: cs, rest)

/-- A string after its opening quote. -/
def string (text : List Char) : Option (String × List Char) :=
  (stringBody (text.length + 1) text).map fun r => (String.ofList r.1, r.2)

def natural : List Char → Option (Nat × List Char)
  | '0' :: rest => some (0, rest)
  | text =>
    if (text.takeWhile Char.isDigit).isEmpty then none
    else some (Nat.ofDigitChars 10 (text.takeWhile Char.isDigit) 0, text.dropWhile Char.isDigit)

def integer : List Char → Option (Int × List Char)
  | '-' :: rest => (natural rest).map fun r => (-(r.1 : Int), r.2)
  | text => (natural text).map fun r => ((r.1 : Int), r.2)

mutual

/-- A value. Between two characters that it takes the parser goes two levels down
at most, so that `fuel` is not used up where it is twice the text there is. -/
def value : Nat → List Char → Option (Json × List Char)
  | 0, _ => none
  | fuel + 1, text =>
    match text with
    | 'n' :: 'u' :: 'l' :: 'l' :: rest => some (.null, rest)
    | 't' :: 'r' :: 'u' :: 'e' :: rest => some (.bool true, rest)
    | 'f' :: 'a' :: 'l' :: 's' :: 'e' :: rest => some (.bool false, rest)
    | '"' :: rest => (string rest).map fun r => (.str r.1, r.2)
    | '[' :: rest =>
      match skip rest with
      | ']' :: rest => some (.arr [], rest)
      | rest => (items fuel rest).map fun r => (.arr r.1, r.2)
    | '{' :: rest =>
      match skip rest with
      | '}' :: rest => some (.obj [], rest)
      | rest => (members fuel rest).map fun r => (.obj r.1, r.2)
    | text => (integer text).map fun r => (.int r.1, r.2)

/-- The items of an array, one at least. -/
def items : Nat → List Char → Option (List Json × List Char)
  | 0, _ => none
  | fuel + 1, text => do
      let (v, rest) ← value fuel text
      match skip rest with
      | ']' :: rest => return ([v], rest)
      | ',' :: rest => (items fuel (skip rest)).map fun r => (v :: r.1, r.2)
      | _ => none

/-- The members of an object, one at least. -/
def members : Nat → List Char → Option (List (String × Json) × List Char)
  | 0, _ => none
  | fuel + 1, text =>
    match text with
    | '"' :: rest => do
        let (k, rest) ← string rest
        match skip rest with
        | ':' :: rest => do
            let (v, rest) ← value fuel (skip rest)
            match skip rest with
            | '}' :: rest => return ([(k, v)], rest)
            | ',' :: rest => (members fuel (skip rest)).map fun r => ((k, v) :: r.1, r.2)
            | _ => none
        | _ => none
    | _ => none

end

def parse (text : List Char) : Option Json := do
  let (v, rest) ← value (2 * text.length + 2) (skip text)
  guard (skip rest = [])
  return v

/-! ## What is written is read back -/

/-- A text that a number before it ends at. -/
def Ends (rest : List Char) : Prop := ∀ c ∈ rest.head?, c.isDigit = false

theorem ends_cons {c : Char} {rest : List Char} (h : c.isDigit = false) : Ends (c :: rest) := by
  rintro _ ⟨⟩
  exact h

theorem skip_of_not_space {c : Char} {rest : List Char} (h : isSpace c = false) :
    skip (c :: rest) = c :: rest := by
  simp [skip, h]

theorem skip_append {pad rest : List Char} (hpad : ∀ c ∈ pad, isSpace c = true) :
    skip (pad ++ rest) = skip rest := by
  unfold skip
  exact List.dropWhile_append_of_pos hpad

theorem nextChar_escape (c : Char) (rest : List Char) : nextChar (escape c ++ rest) = some (c, rest) := by
  by_cases hquote : c = '"'
  case pos => subst hquote; rfl
  by_cases hslash : c = '\\'
  case pos => subst hslash; rfl
  by_cases hcontrol : c.toNat < 0x20
  case pos =>
    have hall : ∀ n < 0x20, nextChar (escape (Char.ofNat n) ++ rest) = some (Char.ofNat n, rest) := by
      intro n hn
      interval_cases n <;> rfl
    have h := hall c.toNat hcontrol
    rwa [Char.ofNat_toNat] at h
  unfold escape
  rw [if_neg hquote, if_neg hslash, if_neg hcontrol]
  unfold nextChar
  split
  case h_1 heq => cases heq
  case h_2 heq => exact absurd (List.head_eq_of_cons_eq heq) hslash
  case h_3 heq =>
    obtain ⟨rfl, rfl⟩ := List.cons.inj heq
    exact if_neg hcontrol

theorem escape_ne_quote (c : Char) : ∃ d ds, escape c = d :: ds ∧ d ≠ '"' := by
  unfold escape
  split
  case isTrue => exact ⟨_, _, rfl, by decide⟩
  case isFalse hquote =>
    split
    case isTrue => exact ⟨_, _, rfl, by decide⟩
    case isFalse =>
      split
      case isTrue =>
        cases shortEscape c with
        | none => exact ⟨_, _, rfl, by decide⟩
        | some e => exact ⟨_, _, rfl, by decide⟩
      case isFalse => exact ⟨_, _, rfl, hquote⟩

theorem stringBody_escape (s rest : List Char) {fuel : Nat} (hfuel : s.length < fuel) :
    stringBody fuel (s.flatMap escape ++ '"' :: rest) = some (s, rest) := by
  induction s generalizing fuel with
  | nil =>
    obtain ⟨fuel, rfl⟩ : ∃ n, fuel = n + 1 := ⟨fuel - 1, by simp at hfuel; omega⟩
    rfl
  | cons c s ih =>
    obtain ⟨fuel, rfl⟩ : ∃ n, fuel = n + 1 := ⟨fuel - 1, by simp at hfuel; omega⟩
    have hnext := nextChar_escape c (s.flatMap escape ++ '"' :: rest)
    obtain ⟨d, ds, hescape, hd⟩ := escape_ne_quote c
    rw [List.flatMap_cons, List.append_assoc]
    unfold stringBody
    split
    case h_1 heq =>
      rw [hescape] at heq
      exact absurd (List.head_eq_of_cons_eq heq) hd
    case h_2 =>
      rw [hnext]
      simp [ih (by simpa using hfuel)]

theorem length_le_flatMap_escape (s : List Char) : s.length ≤ (s.flatMap escape).length := by
  induction s with
  | nil => simp
  | cons c s ih =>
    obtain ⟨d, ds, hescape, -⟩ := escape_ne_quote c
    rw [List.flatMap_cons, List.length_append, List.length_cons, hescape, List.length_cons]
    omega

theorem string_quote (s : String) (rest : List Char) :
    string (s.toList.flatMap escape ++ '"' :: rest) = some (s, rest) := by
  have hlen := length_le_flatMap_escape s.toList
  unfold string
  rw [stringBody_escape _ _ (by rw [List.length_append]; omega)]
  simp

theorem toDigits_head {n : Nat} (hn : n ≠ 0) : ∃ c cs, Nat.toDigits 10 n = c :: cs ∧ c ≠ '0' := by
  induction n using Nat.strong_induction_on with
  | _ n ih =>
    rw [Nat.toDigits_eq_if (by decide)]
    split
    case isTrue hlt =>
      refine ⟨_, [], rfl, ?_⟩
      interval_cases n <;> first | exact absurd rfl hn | decide
    case isFalse hge =>
      obtain ⟨c, cs, hdigits, hc⟩ := ih (n / 10) (by omega) (by omega)
      exact ⟨c, cs ++ [(n % 10).digitChar], by rw [hdigits]; rfl, hc⟩

theorem isDigit_toDigits (n : Nat) : ∀ c ∈ Nat.toDigits 10 n, c.isDigit = true :=
  fun _ hc => Nat.isDigit_of_mem_toDigits (by decide) (by decide) hc

theorem span_digits {ds rest : List Char} (hds : ∀ c ∈ ds, c.isDigit = true) (hrest : Ends rest) :
    (ds ++ rest).takeWhile Char.isDigit = ds ∧ (ds ++ rest).dropWhile Char.isDigit = rest := by
  rw [List.takeWhile_append_of_pos hds, List.dropWhile_append_of_pos hds]
  cases rest with
  | nil => simp
  | cons c rest =>
    have hc := hrest c rfl
    simp [hc]

theorem natural_toDigits (n : Nat) {rest : List Char} (hrest : Ends rest) :
    natural (Nat.toDigits 10 n ++ rest) = some (n, rest) := by
  by_cases hn : n = 0
  case pos => subst hn; rfl
  case neg =>
    obtain ⟨c, cs, hdigits, hc⟩ := toDigits_head hn
    obtain ⟨htake, hdrop⟩ := span_digits (isDigit_toDigits n) hrest
    unfold natural
    split
    case h_1 heq =>
      rw [hdigits] at heq
      exact absurd (List.head_eq_of_cons_eq heq) hc
    case h_2 =>
      rw [htake, hdrop, if_neg (by simp [hdigits]), Nat.ofDigitChars_ten_toDigits]

theorem integer_renderInt (n : Int) {rest : List Char} (hrest : Ends rest) :
    integer (renderInt n ++ rest) = some (n, rest) := by
  unfold renderInt
  split
  case isTrue hneg =>
    have habs : -(n.natAbs : Int) = n := by omega
    rw [List.cons_append, integer, natural_toDigits _ hrest, Option.map_some, habs]
  case isFalse hpos =>
    have hdigits := isDigit_toDigits n.natAbs
    unfold integer
    split
    case h_1 heq =>
      obtain ⟨d, ds, hlist⟩ := List.exists_cons_of_ne_nil (@Nat.toDigits_ne_nil n.natAbs 10)
      rw [hlist] at heq hdigits
      have hd := hdigits d List.mem_cons_self
      rw [List.head_eq_of_cons_eq heq] at hd
      exact absurd hd (by decide)
    case h_2 =>
      rw [natural_toDigits _ hrest]
      simp
      omega

theorem render_head (pad : List Char) (v : Json) :
    ∃ c cs, render pad v = c :: cs ∧ isSpace c = false ∧ c ≠ ']' := by
  cases v with
  | null => exact ⟨_, _, rfl, by decide, by decide⟩
  | bool b => cases b <;> exact ⟨_, _, rfl, by decide, by decide⟩
  | int n =>
    unfold render renderInt
    split
    case isTrue => exact ⟨_, _, rfl, by decide, by decide⟩
    case isFalse =>
      obtain ⟨d, ds, hlist⟩ := List.exists_cons_of_ne_nil (@Nat.toDigits_ne_nil n.natAbs 10)
      have hd := isDigit_toDigits n.natAbs d (by rw [hlist]; exact List.mem_cons_self)
      refine ⟨d, ds, hlist, ?_, ?_⟩
      · unfold isSpace
        by_contra hspace
        simp only [Bool.not_eq_false, Bool.or_eq_true, decide_eq_true_eq] at hspace
        rcases hspace with ((rfl | rfl) | rfl) | rfl <;> exact absurd hd (by decide)
      · rintro rfl
        exact absurd hd (by decide)
  | str s => exact ⟨_, _, rfl, by decide, by decide⟩
  | arr vs => cases vs <;> exact ⟨_, _, by rw [render], by decide, by decide⟩
  | obj ms => cases ms <;> exact ⟨_, _, by rw [render], by decide, by decide⟩

theorem skip_render (pad : List Char) (v : Json) (rest : List Char) :
    skip (render pad v ++ rest) = render pad v ++ rest := by
  obtain ⟨c, cs, hrender, hspace, -⟩ := render_head pad v
  rw [hrender]
  exact skip_of_not_space hspace

theorem renderInt_head (n : Int) : ∃ c cs, renderInt n = c :: cs ∧ (c = '-' ∨ c.isDigit = true) := by
  unfold renderInt
  split
  case isTrue => exact ⟨_, _, rfl, .inl rfl⟩
  case isFalse =>
    obtain ⟨d, ds, hlist⟩ := List.exists_cons_of_ne_nil (@Nat.toDigits_ne_nil n.natAbs 10)
    exact ⟨d, ds, hlist, .inr (isDigit_toDigits _ d (by rw [hlist]; exact List.mem_cons_self))⟩

theorem value_renderInt (n : Int) (fuel : Nat) {rest : List Char} (hrest : Ends rest) :
    value (fuel + 1) (renderInt n ++ rest) = some (.int n, rest) := by
  obtain ⟨c, cs, hhead, hc⟩ := renderInt_head n
  have hstart {d : Char} {ds : List Char} (h : renderInt n ++ rest = d :: ds) :
      d = '-' ∨ d.isDigit = true := by
    rw [hhead] at h
    exact List.head_eq_of_cons_eq h ▸ hc
  unfold value
  split
  case h_7 => rw [integer_renderInt n hrest]; rfl
  all_goals rename_i heq; exact absurd (hstart heq) (by decide)

theorem skip_pad_render {pad : List Char} (hpad : ∀ c ∈ pad, isSpace c = true) (v : Json)
    (rest : List Char) : skip (pad ++ (render pad v ++ rest)) = render pad v ++ rest := by
  rw [skip_append hpad, skip_render]

theorem render_pos (pad : List Char) (v : Json) : 0 < (render pad v).length := by
  obtain ⟨c, cs, hrender, -⟩ := render_head pad v
  rw [hrender]
  exact Nat.succ_pos _

section Steps

variable {fuel : Nat} {text rest rest₁ rest₂ rest₃ : List Char} {v : Json}

theorem value_string (fuel : Nat) (rest : List Char) :
    value (fuel + 1) ('"' :: rest) = (string rest).map fun r => (.str r.1, r.2) := rfl

theorem value_array {c : Char} {cs : List Char} (hc : c ≠ ']') (h : skip rest = c :: cs) :
    value (fuel + 1) ('[' :: rest) = (items fuel (c :: cs)).map fun r => (.arr r.1, r.2) := by
  simp [value, h, hc]

theorem value_object {c : Char} {cs : List Char} (hc : c ≠ '}') (h : skip rest = c :: cs) :
    value (fuel + 1) ('{' :: rest) = (members fuel (c :: cs)).map fun r => (.obj r.1, r.2) := by
  simp [value, h, hc]

theorem items_last (hv : value fuel text = some (v, rest₁)) (hend : skip rest₁ = ']' :: rest) :
    items (fuel + 1) text = some ([v], rest) := by
  simp [items, hv, hend]

theorem items_comma (hv : value fuel text = some (v, rest₁)) (hcomma : skip rest₁ = ',' :: rest) :
    items (fuel + 1) text = (items fuel (skip rest)).map fun r => (v :: r.1, r.2) := by
  simp [items, hv, hcomma]

theorem members_last {k : String} (hk : string text = some (k, rest₁))
    (hcolon : skip rest₁ = ':' :: rest₂) (hv : value fuel (skip rest₂) = some (v, rest₃))
    (hend : skip rest₃ = '}' :: rest) : members (fuel + 1) ('"' :: text) = some ([(k, v)], rest) := by
  simp [members, hk, hcolon, hv, hend]

theorem members_comma {k : String} (hk : string text = some (k, rest₁))
    (hcolon : skip rest₁ = ':' :: rest₂) (hv : value fuel (skip rest₂) = some (v, rest₃))
    (hcomma : skip rest₃ = ',' :: rest) : members (fuel + 1) ('"' :: text) =
      (members fuel (skip rest)).map fun r => ((k, v) :: r.1, r.2) := by
  simp [members, hk, hcolon, hv, hcomma]

end Steps

mutual

theorem value_render {pad : List Char} (hpad : ∀ c ∈ pad, isSpace c = true) :
    ∀ (v : Json) (fuel : Nat) (rest : List Char), 2 * (render pad v).length ≤ fuel → Ends rest →
      value fuel (render pad v ++ rest) = some (v, rest)
  | .null, fuel + 1, rest, _, _ => by simp only [render]; rfl
  | .bool true, fuel + 1, rest, _, _ => by simp only [render]; rfl
  | .bool false, fuel + 1, rest, _, _ => by simp only [render]; rfl
  | .int n, fuel + 1, rest, _, hrest => by
      simp only [render]
      exact value_renderInt n fuel hrest
  | .str s, fuel + 1, rest, _, _ => by
      simp only [render, quote, List.cons_append, List.append_assoc, List.nil_append]
      rw [value_string, string_quote]
      rfl
  | .arr [], fuel + 1, rest, _, _ => by simp only [render]; rfl
  | .arr (v :: vs), fuel + 1, rest, hfuel, _ => by
      simp only [render, List.length_cons, List.length_append] at hfuel
      have hitems := items_render hpad v vs fuel rest (by omega)
      obtain ⟨c, cs, hhead, -, hc⟩ := render_head pad v
      have hskip := skip_render pad v (renderItems pad vs ++ rest)
      simp only [render, List.cons_append, List.append_assoc]
      rw [hhead, List.cons_append] at hskip hitems ⊢
      rw [value_array hc hskip, hitems]
      rfl
  | .obj [], fuel + 1, rest, _, _ => by simp only [render]; rfl
  | .obj ((k, v) :: ms), fuel + 1, rest, hfuel, _ => by
      simp only [render, List.length_cons, List.length_append] at hfuel
      have hmembers := members_render hpad k v ms fuel rest (by omega)
      simp only [render, quote, List.cons_append, List.append_assoc] at hmembers ⊢
      rw [value_object (by decide) (skip_of_not_space (by decide)), hmembers]
      rfl
  | v, 0, rest, hfuel, _ => by
      have hpos := render_pos pad v
      omega

theorem items_render {pad : List Char} (hpad : ∀ c ∈ pad, isSpace c = true) :
    ∀ (v : Json) (vs : List Json) (fuel : Nat) (rest : List Char),
      2 * ((render pad v).length + (renderItems pad vs).length) ≤ fuel + 1 →
        items fuel (render pad v ++ (renderItems pad vs ++ rest)) = some (v :: vs, rest)
  | v, [], fuel + 1, rest, hfuel => by
      simp only [renderItems, List.length_cons, List.length_nil] at hfuel
      have hvalue := value_render hpad v fuel (']' :: rest) (by omega) (ends_cons (by decide))
      exact items_last hvalue (skip_of_not_space (by decide))
  | v, w :: vs, fuel + 1, rest, hfuel => by
      simp only [renderItems, List.length_cons, List.length_append] at hfuel
      have hpos := render_pos pad v
      have hvalue := value_render hpad v fuel
        (',' :: (pad ++ (render pad w ++ (renderItems pad vs ++ rest)))) (by omega)
        (ends_cons (by decide))
      have hitems := items_render hpad w vs fuel rest (by omega)
      simp only [renderItems, List.cons_append, List.append_assoc]
      rw [items_comma hvalue (skip_of_not_space (by decide)), skip_pad_render hpad, hitems]
      rfl
  | v, vs, 0, rest, hfuel => by
      have hpos := render_pos pad v
      omega

theorem members_render {pad : List Char} (hpad : ∀ c ∈ pad, isSpace c = true) :
    ∀ (k : String) (v : Json) (ms : List (String × Json)) (fuel : Nat) (rest : List Char),
      2 * ((render pad v).length + (renderMembers pad ms).length) ≤ fuel + 1 →
        members fuel (quote k ++ ':' :: (pad ++ (render pad v ++ (renderMembers pad ms ++ rest)))) =
          some ((k, v) :: ms, rest)
  | k, v, [], fuel + 1, rest, hfuel => by
      simp only [renderMembers, List.length_cons, List.length_nil] at hfuel
      have hvalue := value_render hpad v fuel ('}' :: rest) (by omega) (ends_cons (by decide))
      rw [← skip_pad_render hpad] at hvalue
      simp only [renderMembers, quote, List.cons_append, List.append_assoc, List.nil_append]
      exact members_last (string_quote k _) (skip_of_not_space (by decide)) hvalue
        (skip_of_not_space (by decide))
  | k, v, (l, w) :: ms, fuel + 1, rest, hfuel => by
      simp only [renderMembers, List.length_cons, List.length_append] at hfuel
      have hpos := render_pos pad v
      have hvalue := value_render hpad v fuel (',' :: (pad ++ (quote l ++ ':' :: (pad ++
        (render pad w ++ (renderMembers pad ms ++ rest)))))) (by omega) (ends_cons (by decide))
      have hmembers := members_render hpad l w ms fuel rest (by omega)
      have hskip : skip (pad ++ (quote l ++ ':' :: (pad ++ (render pad w ++
          (renderMembers pad ms ++ rest))))) =
            quote l ++ ':' :: (pad ++ (render pad w ++ (renderMembers pad ms ++ rest))) := by
        rw [skip_append hpad]
        exact skip_of_not_space (by decide)
      rw [← skip_pad_render hpad] at hvalue
      rw [quote, List.cons_append]
      simp only [renderMembers, List.cons_append, List.append_assoc, List.nil_append]
      rw [members_comma (string_quote k _) (skip_of_not_space (by decide)) hvalue
        (skip_of_not_space (by decide)), hskip, hmembers]
      rfl
  | k, v, ms, 0, rest, hfuel => by
      have hpos := render_pos pad v
      omega

end

theorem render_injective {pad : List Char} (hpad : ∀ c ∈ pad, isSpace c = true) :
    Function.Injective (render pad) := by
  intro v w h
  have hends : Ends [] := nofun
  have hv := value_render hpad v (2 * (render pad v).length) [] (le_refl _) hends
  have hw := value_render hpad w (2 * (render pad w).length) [] (le_refl _) hends
  rw [h, hw] at hv
  exact (Prod.mk.inj (Option.some.inj hv)).1.symm

theorem parse_render {pad : List Char} (hpad : ∀ c ∈ pad, isSpace c = true) (v : Json) :
    parse (render pad v) = some v := by
  have hends : Ends [] := nofun
  have hv := value_render hpad v (2 * (render pad v).length + 2) [] (by omega) hends
  have hskip := skip_render pad v []
  rw [List.append_nil] at hv hskip
  unfold parse
  rw [hskip, hv]
  rfl

end Json

end Dsip.Lib
