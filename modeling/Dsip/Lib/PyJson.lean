import Dsip.Lib.Json

/-!
# JSON text as Python reads it

A Python string may hold surrogates on their own, and Python's reader takes them, takes
numbers with a fraction or an exponent, the constants `NaN` and `Infinity`, and repeated
names. Where the reader of `Lib.Json` takes a text, this one reads the same (`loads_parse`).
-/

namespace Dsip.Lib

/-- A code point: a character, or a surrogate. -/
inductive PyChar where
  | char (c : Char)
  | surrogate (n : Fin 0x800)
  deriving DecidableEq, Repr

namespace PyChar

def ord : PyChar → Nat
  | char c => c.toNat
  | surrogate n => 0xD800 + n

/-- The code point of a number below `0x10000`. -/
def ofCode (n : Nat) : PyChar :=
  if 0xD800 ≤ n ∧ n ≤ 0xDFFF then surrogate (Fin.ofNat 0x800 (n - 0xD800)) else char (Char.ofNat n)

def isDigit : PyChar → Bool
  | char c => c.isDigit
  | surrogate _ => false

def isSpace : PyChar → Bool
  | char c => Json.isSpace c
  | surrogate _ => false

end PyChar

abbrev PyStr := List PyChar

instance lawfulPyStr : LawfulBEq PyStr := inferInstance

def PyStr.ofChars (text : List Char) : PyStr := text.map .char

/-- What Python reads; a number that is not written as an integer is a float. -/
inductive PyJson where
  | null
  | bool (b : Bool)
  | int (n : Int)
  | float
  | str (s : PyStr)
  | arr (items : List PyJson)
  | obj (members : List (PyStr × PyJson))
  deriving Repr

namespace PyJson

def skip (text : PyStr) : PyStr := text.dropWhile PyChar.isSpace

/-! ## Strings -/

def hex4 : PyStr → Option (Nat × PyStr)
  | .char a :: .char b :: .char c :: .char d :: rest =>
    (Json.hex4 [a, b, c, d]).map fun r => (r.1, rest)
  | _ => none

/-- What follows `\u`: a pair of surrogates is one character. -/
def unicode (text : PyStr) : Option (PyChar × PyStr) :=
  match hex4 text with
  | none => none
  | some (high, rest) =>
    if 0xD800 ≤ high ∧ high ≤ 0xDBFF then
      match rest with
      | .char '\\' :: .char 'u' :: rest' =>
        match hex4 rest' with
        | none => none
        | some (low, rest'') =>
          if 0xDC00 ≤ low ∧ low ≤ 0xDFFF then
            some (.char (Char.ofNat (0x10000 + (high - 0xD800) * 0x400 + (low - 0xDC00))), rest'')
          else some (.ofCode high, rest)
      | _ => some (.ofCode high, rest)
    else some (.ofCode high, rest)

/-- A character of a string's text. -/
def nextChar : PyStr → Option (PyChar × PyStr)
  | [] => none
  | .char '\\' :: text =>
    match text with
    | .char e :: rest => if e = 'u' then unicode rest else (Json.unescape e).map fun c => (.char c, rest)
    | _ => none
  | c :: rest => if c.ord < 0x20 then none else some (c, rest)

/-- A string's text up to its end. -/
def stringBody : Nat → PyStr → Option (PyStr × PyStr)
  | 0, _ => none
  | fuel + 1, text =>
    match text with
    | .char '"' :: rest => some ([], rest)
    | _ =>
      match nextChar text with
      | none => none
      | some (c, rest) => (stringBody fuel rest).map fun r => (c :: r.1, r.2)

def string (text : PyStr) : Option (PyStr × PyStr) := stringBody (text.length + 1) text

/-! ## Numbers -/

def digits (text : PyStr) : List Char :=
  (text.takeWhile PyChar.isDigit).filterMap fun c =>
    match c with
    | .char c => some c
    | .surrogate _ => none

/-- What follows a fraction, where there is one. -/
def fraction : PyStr → Option PyStr
  | .char '.' :: rest => if (digits rest).isEmpty then none else some (rest.dropWhile PyChar.isDigit)
  | _ => none

/-- What follows an exponent, where there is one. -/
def exponent : PyStr → Option PyStr
  | .char e :: rest =>
    if e = 'e' ∨ e = 'E' then
      let rest :=
        match rest with
        | .char '+' :: rest => rest
        | .char '-' :: rest => rest
        | _ => rest
      if (digits rest).isEmpty then none else some (rest.dropWhile PyChar.isDigit)
    else none
  | _ => none

def natural : PyStr → Option (Nat × PyStr)
  | .char '0' :: rest => some (0, rest)
  | text =>
    if (digits text).isEmpty then none
    else some (Nat.ofDigitChars 10 (digits text) 0, text.dropWhile PyChar.isDigit)

def integer : PyStr → Option (Int × PyStr)
  | .char '-' :: rest => (natural rest).map fun r => (-(r.1 : Int), r.2)
  | text => (natural text).map fun r => ((r.1 : Int), r.2)

def number (text : PyStr) : Option (PyJson × PyStr) :=
  match integer text with
  | none => none
  | some (n, rest) =>
    match fraction rest with
    | some rest => some (.float, (exponent rest).getD rest)
    | none =>
      match exponent rest with
      | some rest => some (.float, rest)
      | none => some (.int n, rest)

/-! ## Values -/

mutual

/-- `scan_once`. -/
def value : Nat → PyStr → Option (PyJson × PyStr)
  | 0, _ => none
  | fuel + 1, text =>
    match text with
    | .char 'n' :: .char 'u' :: .char 'l' :: .char 'l' :: rest => some (.null, rest)
    | .char 't' :: .char 'r' :: .char 'u' :: .char 'e' :: rest => some (.bool true, rest)
    | .char 'f' :: .char 'a' :: .char 'l' :: .char 's' :: .char 'e' :: rest => some (.bool false, rest)
    | .char 'N' :: .char 'a' :: .char 'N' :: rest => some (.float, rest)
    | .char 'I' :: .char 'n' :: .char 'f' :: .char 'i' :: .char 'n' :: .char 'i' :: .char 't' :: .char 'y' :: rest =>
      some (.float, rest)
    | .char '-' :: .char 'I' :: .char 'n' :: .char 'f' :: .char 'i' :: .char 'n' :: .char 'i' :: .char 't' ::
        .char 'y' :: rest => some (.float, rest)
    | .char '"' :: rest => (string rest).map fun r => (.str r.1, r.2)
    | .char '[' :: rest =>
      match skip rest with
      | .char ']' :: rest => some (.arr [], rest)
      | rest => (items fuel rest).map fun r => (.arr r.1, r.2)
    | .char '{' :: rest =>
      match skip rest with
      | .char '}' :: rest => some (.obj [], rest)
      | rest => (members fuel rest).map fun r => (.obj r.1, r.2)
    | text => number text

/-- The items of an array, one at least. -/
def items : Nat → PyStr → Option (List PyJson × PyStr)
  | 0, _ => none
  | fuel + 1, text =>
    match value fuel text with
    | none => none
    | some (v, rest) =>
      match skip rest with
      | .char ']' :: rest => some ([v], rest)
      | .char ',' :: rest => (items fuel (skip rest)).map fun r => (v :: r.1, r.2)
      | _ => none

/-- The members of an object, one at least. -/
def members : Nat → PyStr → Option (List (PyStr × PyJson) × PyStr)
  | 0, _ => none
  | fuel + 1, text =>
    match text with
    | .char '"' :: rest =>
      match string rest with
      | none => none
      | some (k, rest) =>
        match skip rest with
        | .char ':' :: rest =>
          match value fuel (skip rest) with
          | none => none
          | some (v, rest) =>
            match skip rest with
            | .char '}' :: rest => some ([(k, v)], rest)
            | .char ',' :: rest => (members fuel (skip rest)).map fun r => ((k, v) :: r.1, r.2)
            | _ => none
        | _ => none
    | _ => none

end

def loads (text : PyStr) : Option PyJson :=
  match value (2 * text.length + 2) (skip text) with
  | none => none
  | some (v, rest) => if skip rest = [] then some v else none

/-! ## Where `Lib.Json` reads, this reads the same -/

mutual

def ofJson : Json → PyJson
  | .null => .null
  | .bool b => .bool b
  | .int n => .int n
  | .str s => .str (.ofChars s.toList)
  | .arr vs => .arr (ofItems vs)
  | .obj ms => .obj (ofMembers ms)

def ofItems : List Json → List PyJson
  | [] => []
  | v :: vs => ofJson v :: ofItems vs

def ofMembers : List (String × Json) → List (PyStr × PyJson)
  | [] => []
  | (k, v) :: ms => (.ofChars k.toList, ofJson v) :: ofMembers ms

end

/-- A text that an integer before it ends at. -/
def Stops (rest : List Char) : Prop := ∀ c ∈ rest.head?, c ≠ '.' ∧ c ≠ 'e' ∧ c ≠ 'E'

theorem skip_ofChars (text : List Char) : skip (.ofChars text) = .ofChars (Json.skip text) := by
  unfold skip Json.skip PyStr.ofChars
  rw [List.dropWhile_map]
  rfl

theorem digits_ofChars (text : List Char) : digits (.ofChars text) = text.takeWhile Char.isDigit := by
  unfold digits PyStr.ofChars
  rw [List.takeWhile_map, List.filterMap_map]
  exact List.filterMap_some

theorem dropWhile_ofChars (text : List Char) :
    (PyStr.ofChars text).dropWhile PyChar.isDigit = PyStr.ofChars (text.dropWhile Char.isDigit) := by
  unfold PyStr.ofChars
  rw [List.dropWhile_map]
  rfl

theorem hex4_ofChars {text rest : List Char} {n : Nat} (h : Json.hex4 text = some (n, rest)) :
    hex4 (.ofChars text) = some (n, .ofChars rest) := by
  match text with
  | [] | [_] | [_, _] | [_, _, _] => cases h
  | a :: b :: c :: d :: rest' =>
    simp only [Json.hex4, Option.bind_eq_bind, Option.bind_eq_some_iff, Option.pure_def, Option.some.injEq,
      Prod.mk.injEq] at h
    obtain ⟨x, hx, y, hy, z, hz, w, hw, rfl, rfl⟩ := h
    change (Json.hex4 [a, b, c, d]).map _ = _
    simp only [Json.hex4, hx, hy, hz, hw]
    rfl

theorem unicode_ofChars {text rest : List Char} {c : Char} (h : Json.unicode text = some (c, rest)) :
    unicode (.ofChars text) = some (.char c, .ofChars rest) := by
  unfold Json.unicode at h
  rw [Option.bind_eq_bind, Option.bind_eq_some_iff] at h
  obtain ⟨⟨high, rest₁⟩, hhigh, h⟩ := h
  rw [unicode, hex4_ofChars hhigh]
  dsimp only at h ⊢
  split at h
  · rename_i hsurrogate
    split at h
    · rename_i rest₂
      rw [Option.bind_eq_bind, Option.bind_eq_some_iff] at h
      obtain ⟨⟨low, rest₃⟩, hlow, h⟩ := h
      rw [Option.bind_eq_some_iff] at h
      obtain ⟨_, hpair, h⟩ := h
      have hpair := (Option.guard_eq_some' _).mp hpair
      simp only [Option.pure_def, Option.some.injEq, Prod.mk.injEq] at h
      obtain ⟨rfl, rfl⟩ := h
      rw [if_pos ⟨hsurrogate.1, hpair.1⟩]
      have hlow' := hex4_ofChars hlow
      unfold PyStr.ofChars at hlow' ⊢
      simp only [List.map_cons]
      rw [hlow']
      exact if_pos hpair.2
    · cases h
  · rename_i hscalar
    cases h
    rw [if_neg fun hrange => hscalar ⟨hrange.1, by omega⟩, PyChar.ofCode, if_neg hscalar]

theorem nextChar_ofChars {text rest : List Char} {c : Char} (h : Json.nextChar text = some (c, rest)) :
    nextChar (.ofChars text) = some (.char c, .ofChars rest) := by
  unfold Json.nextChar at h
  split at h
  · cases h
  · rename_i text
    split at h
    · cases h
    · rename_i e rest'
      change (if e = 'u' then unicode (.ofChars rest') else (Json.unescape e).map fun c => (.char c, .ofChars rest')) = _
      split at h
      · rename_i he
        rw [if_pos he]
        exact unicode_ofChars h
      · rename_i he
        obtain ⟨c', hc', heq⟩ := Option.map_eq_some_iff.mp h
        cases heq
        rw [if_neg he, hc']
        rfl
  · rename_i c' rest' hslash
    split at h
    · cases h
    · rename_i hcontrol
      cases h
      unfold nextChar PyStr.ofChars
      split
      · rename_i heq
        cases heq
      · rename_i heq
        rw [List.map_cons] at heq
        cases heq
        exact (hslash rfl).elim
      · rename_i c'' rest'' _ heq
        rw [List.map_cons] at heq
        cases heq
        exact if_neg hcontrol

theorem stringBody_ofChars {fuel : Nat} {text s rest : List Char} (h : Json.stringBody fuel text = some (s, rest)) :
    stringBody fuel (.ofChars text) = some (.ofChars s, .ofChars rest) := by
  induction fuel generalizing text s rest with
  | zero => cases h
  | succ fuel ih =>
    unfold Json.stringBody at h
    split at h
    · cases h
      rfl
    · rename_i hquote
      rw [Option.bind_eq_bind, Option.bind_eq_some_iff] at h
      obtain ⟨⟨c, rest₁⟩, hc, h⟩ := h
      rw [Option.bind_eq_bind, Option.bind_eq_some_iff] at h
      obtain ⟨⟨cs, rest₂⟩, hcs, h⟩ := h
      cases h
      unfold stringBody
      split
      · rename_i rest' heq
        match text, heq with
        | d :: ds, heq =>
          cases heq
          exact absurd rfl (hquote _)
      · rw [nextChar_ofChars hc]
        dsimp only
        rw [ih hcs]
        rfl

theorem string_ofChars {text rest : List Char} {s : String} (h : Json.string text = some (s, rest)) :
    string (.ofChars text) = some (.ofChars s.toList, .ofChars rest) := by
  unfold Json.string at h
  obtain ⟨⟨cs, rest'⟩, hbody, heq⟩ := Option.map_eq_some_iff.mp h
  cases heq
  rw [string, PyStr.ofChars, List.length_map, String.toList_ofList]
  exact stringBody_ofChars hbody

theorem natural_ofChars {text rest : List Char} {n : Nat} (h : Json.natural text = some (n, rest)) :
    natural (.ofChars text) = some (n, .ofChars rest) := by
  unfold Json.natural at h
  split at h
  · cases h
    rfl
  · rename_i hzero
    unfold natural
    split
    · rename_i rest' heq
      match text, heq with
      | d :: ds, heq =>
        cases heq
        exact absurd rfl (hzero _)
    · rw [digits_ofChars, dropWhile_ofChars]
      split at h
      · cases h
      · rename_i hdigits
        cases h
        exact if_neg hdigits

theorem integer_ofChars {text rest : List Char} {n : Int} (h : Json.integer text = some (n, rest)) :
    integer (.ofChars text) = some (n, .ofChars rest) := by
  unfold Json.integer at h
  split at h
  · obtain ⟨⟨m, rest'⟩, hm, heq⟩ := Option.map_eq_some_iff.mp h
    cases heq
    change (natural (.ofChars _)).map _ = _
    rw [natural_ofChars hm]
    rfl
  · rename_i hminus
    obtain ⟨⟨m, rest'⟩, hm, heq⟩ := Option.map_eq_some_iff.mp h
    cases heq
    unfold integer
    split
    · rename_i rest'' heq
      match text, heq with
      | d :: ds, heq =>
        cases heq
        exact absurd rfl (hminus _)
    · rw [natural_ofChars hm]
      rfl

theorem number_ofChars {text rest : List Char} {n : Int} (h : Json.integer text = some (n, rest)) (hstops : Stops rest) :
    number (.ofChars text) = some (.int n, .ofChars rest) := by
  have hfraction : fraction (.ofChars rest) = none := by
    match rest with
    | [] => rfl
    | c :: cs =>
      unfold fraction
      split
      · rename_i heq
        cases heq
        exact absurd rfl (hstops '.' rfl).1
      · rfl
  have hexponent : exponent (.ofChars rest) = none := by
    match rest with
    | [] => rfl
    | c :: cs =>
      have hc := hstops c rfl
      change (if c = 'e' ∨ c = 'E' then _ else none) = none
      exact if_neg (not_or.mpr hc.2)
  rw [number, integer_ofChars h]
  dsimp only
  rw [hfraction, hexponent]

theorem stops_of_skip {c : Char} {rest rest' : List Char} (h : Json.skip rest = c :: rest')
    (hc : c ≠ '.' ∧ c ≠ 'e' ∧ c ≠ 'E') : Stops rest := by
  cases rest with
  | nil => cases h
  | cons d ds =>
    rintro _ ⟨⟩
    by_cases hspace : Json.isSpace d
    · refine ⟨?_, ?_, ?_⟩ <;> (rintro rfl; cases hspace)
    · rw [Json.skip_of_not_space (by simpa using hspace)] at h
      cases h
      exact hc

theorem integer_head {text rest : List Char} {n : Int} (h : Json.integer text = some (n, rest)) :
    ∃ c cs, text = c :: cs ∧ (c.isDigit = true ∨ c = '-' ∧ ∃ d ds, cs = d :: ds ∧ d.isDigit = true) := by
  have hnatural {text rest : List Char} {m : Nat} (h : Json.natural text = some (m, rest)) :
      ∃ c cs, text = c :: cs ∧ c.isDigit = true := by
    unfold Json.natural at h
    split at h
    · exact ⟨_, _, rfl, by decide⟩
    · match text with
      | [] => cases h
      | c :: cs =>
        refine ⟨c, cs, rfl, ?_⟩
        by_contra hc
        rw [List.takeWhile_cons_of_neg (by simpa using hc)] at h
        cases h
  unfold Json.integer at h
  split at h
  · obtain ⟨⟨m, rest'⟩, hm, -⟩ := Option.map_eq_some_iff.mp h
    obtain ⟨d, ds, rfl, hd⟩ := hnatural hm
    exact ⟨'-', d :: ds, rfl, .inr ⟨rfl, d, ds, rfl, hd⟩⟩
  · obtain ⟨⟨m, rest'⟩, hm, -⟩ := Option.map_eq_some_iff.mp h
    obtain ⟨c, cs, rfl, hc⟩ := hnatural hm
    exact ⟨c, cs, rfl, .inl hc⟩

theorem value_number {fuel : Nat} {text rest : List Char} {n : Int} (h : Json.integer text = some (n, rest))
    (hstops : Stops rest) : value (fuel + 1) (.ofChars text) = some (.int n, .ofChars rest) := by
  have hnumber := number_ofChars h hstops
  obtain ⟨c, cs, rfl, hc⟩ := integer_head h
  unfold value
  split
  case h_10 => exact hnumber
  all_goals
    rename_i heq
    rw [PyStr.ofChars, List.map_cons] at heq
    obtain ⟨hhead, htail⟩ := List.cons.inj heq
    cases hhead
    rcases hc with hc | ⟨hminus, d, ds, rfl, hd⟩
    · cases hc
    · first
        | (rw [List.map_cons] at htail
           cases (List.cons.inj htail).1
           cases hd)
        | cases hminus

theorem ofChars_cons {text : List Char} {c : Char} {rest : PyStr} (h : PyStr.ofChars text = .char c :: rest) :
    ∃ rest', text = c :: rest' ∧ rest = PyStr.ofChars rest' := by
  match text with
  | [] => cases h
  | d :: ds =>
    cases h
    exact ⟨ds, rfl, rfl⟩

theorem reads_ofChars (fuel : Nat) : (∀ text v rest, Json.value fuel text = some (v, rest) → Stops rest →
      value fuel (.ofChars text) = some (ofJson v, .ofChars rest)) ∧
    (∀ text vs rest, Json.items fuel text = some (vs, rest) →
      items fuel (.ofChars text) = some (ofItems vs, .ofChars rest)) ∧
    (∀ text ms rest, Json.members fuel text = some (ms, rest) →
      members fuel (.ofChars text) = some (ofMembers ms, .ofChars rest)) := by
  induction fuel with
  | zero => exact ⟨nofun, nofun, nofun⟩
  | succ fuel ih =>
    obtain ⟨ihValue, ihItems, ihMembers⟩ := ih
    refine ⟨fun text v rest h hstops => ?_, fun text vs rest h => ?_, fun text ms rest h => ?_⟩
    · unfold Json.value at h
      split at h
      · cases h
        rfl
      · cases h
        rfl
      · cases h
        rfl
      · obtain ⟨⟨s, rest'⟩, hs, heq⟩ := Option.map_eq_some_iff.mp h
        cases heq
        change (string (.ofChars _)).map _ = _
        rw [string_ofChars hs]
        simp [ofJson]
      · rename_i rest₁
        change (match skip (.ofChars rest₁) with
          | .char ']' :: rest => some (arr [], rest)
          | rest => (items fuel rest).map fun r => (arr r.1, r.2) : Option (PyJson × PyStr)) = _
        rw [skip_ofChars]
        split at h
        · rename_i heq
          cases h
          rw [heq]
          rfl
        · rename_i hclose
          obtain ⟨⟨vs, rest'⟩, hvs, heq⟩ := Option.map_eq_some_iff.mp h
          cases heq
          split
          · rename_i heq
            obtain ⟨rest'', hskip, -⟩ := ofChars_cons heq
            exact absurd hskip (hclose _)
          · rw [ihItems _ _ _ hvs]
            rfl
      · rename_i rest₁
        change (match skip (.ofChars rest₁) with
          | .char '}' :: rest => some (obj [], rest)
          | rest => (members fuel rest).map fun r => (obj r.1, r.2) : Option (PyJson × PyStr)) = _
        rw [skip_ofChars]
        split at h
        · rename_i heq
          cases h
          rw [heq]
          rfl
        · rename_i hclose
          obtain ⟨⟨ms, rest'⟩, hms, heq⟩ := Option.map_eq_some_iff.mp h
          cases heq
          split
          · rename_i heq
            obtain ⟨rest'', hskip, -⟩ := ofChars_cons heq
            exact absurd hskip (hclose _)
          · rw [ihMembers _ _ _ hms]
            rfl
      · obtain ⟨⟨n, rest'⟩, hn, heq⟩ := Option.map_eq_some_iff.mp h
        cases heq
        rw [ofJson]
        exact value_number hn hstops
    · unfold Json.items at h
      rw [Option.bind_eq_bind, Option.bind_eq_some_iff] at h
      obtain ⟨⟨v, rest₁⟩, hv, h⟩ := h
      dsimp only at h
      unfold items
      split at h
      · rename_i rest₂ hskip
        cases h
        rw [ihValue _ _ _ hv (stops_of_skip hskip (by decide))]
        dsimp only
        rw [skip_ofChars, hskip]
        rfl
      · rename_i rest₂ hskip
        obtain ⟨⟨vs, rest'⟩, hvs, heq⟩ := Option.map_eq_some_iff.mp h
        cases heq
        rw [ihValue _ _ _ hv (stops_of_skip hskip (by decide))]
        dsimp only
        rw [skip_ofChars, hskip]
        change (items fuel (skip (.ofChars rest₂))).map _ = _
        rw [skip_ofChars, ihItems _ _ _ hvs]
        rfl
      · cases h
    · unfold Json.members at h
      split at h
      · rename_i rest₁
        rw [Option.bind_eq_bind, Option.bind_eq_some_iff] at h
        obtain ⟨⟨k, rest₂⟩, hk, h⟩ := h
        dsimp only at h
        change (match string (.ofChars rest₁) with
          | none => none
          | some (k, rest) => _) = _
        rw [string_ofChars hk]
        dsimp only
        split at h
        · rename_i rest₃ hcolon
          rw [Option.bind_eq_bind, Option.bind_eq_some_iff] at h
          obtain ⟨⟨v, rest₄⟩, hv, h⟩ := h
          dsimp only at h
          rw [skip_ofChars, hcolon]
          change (match value fuel (skip (.ofChars rest₃)) with
            | none => none
            | some (v, rest) => _) = _
          rw [skip_ofChars]
          split at h
          · rename_i rest₅ hskip
            cases h
            rw [ihValue _ _ _ hv (stops_of_skip hskip (by decide))]
            dsimp only
            rw [skip_ofChars, hskip]
            rfl
          · rename_i rest₅ hskip
            obtain ⟨⟨ms, rest'⟩, hms, heq⟩ := Option.map_eq_some_iff.mp h
            cases heq
            rw [ihValue _ _ _ hv (stops_of_skip hskip (by decide))]
            dsimp only
            rw [skip_ofChars, hskip]
            change (members fuel (skip (.ofChars rest₅))).map _ = _
            rw [skip_ofChars, ihMembers _ _ _ hms]
            rfl
          · cases h
        · cases h
      · cases h

theorem loads_parse {text : List Char} {v : Json} (h : Json.parse text = some v) :
    loads (.ofChars text) = some (ofJson v) := by
  unfold Json.parse at h
  rw [Option.bind_eq_bind, Option.bind_eq_some_iff] at h
  obtain ⟨⟨v', rest⟩, hv, h⟩ := h
  rw [Option.bind_eq_bind, Option.bind_eq_some_iff] at h
  obtain ⟨_, hrest, h⟩ := h
  have hrest := (Option.guard_eq_some' _).mp hrest
  cases h
  have hstops : Stops rest := by
    match rest with
    | [] => exact nofun
    | d :: ds =>
      rintro _ ⟨⟩
      have hspace : Json.isSpace d = true := by
        by_contra hnot
        rw [Json.skip_of_not_space (by simpa using hnot)] at hrest
        cases hrest
      refine ⟨?_, ?_, ?_⟩ <;> (rintro rfl; cases hspace)
  have hread := (reads_ofChars _).1 _ _ _ hv hstops
  rw [loads, PyStr.ofChars, List.length_map]
  change (match value (2 * text.length + 2) (skip (.ofChars text)) with
    | none => none
    | some (v, rest) => _) = _
  rw [skip_ofChars, hread]
  dsimp only
  rw [skip_ofChars, hrest]
  exact if_pos rfl

end PyJson

end Dsip.Lib
