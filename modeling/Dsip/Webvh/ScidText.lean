import Dsip.Webvh.Host
import Dsip.Webvh.JcsRead

/-!
# The SCID in the text of an entry

The first entry's SCID is replaced in the text of the entry, and what comes out is read again.
A multihash starts with a `Q`, which no escape, number or word of JSON has, and has no letter
that is escaped, so its occurrences are whole in the strings and what comes out is JSON
(`scid_reads`).
-/

namespace Dsip.Webvh

open Dsip.Lib

namespace Host

open PyJson (ofJson ofItems ofMembers)

/-! ## A multihash -/

theorem leading_digit {d : ℕ} (hpos : 0 < d) (hlt : d < 58) (k n : ℕ) (h : n / 58 ^ k = d) :
    ∃ rest, (Nat.digits 58 n).reverse = d :: rest := by
  induction k generalizing n with
  | zero =>
    rw [pow_zero, Nat.div_one] at h
    rw [h, Nat.digits_of_lt 58 d (by omega) hlt]
    exact ⟨[], rfl⟩
  | succ k ih =>
    rw [pow_succ', ← Nat.div_div_eq_div_mul] at h
    obtain ⟨rest, hrest⟩ := ih (n / 58) h
    have hn : n ≠ 0 := by
      rintro rfl
      simp at h
      omega
    rw [Nat.digits_def' (by omega) (by omega), List.reverse_cons, hrest]
    exact ⟨rest ++ [n % 58], rfl⟩

theorem quotient {p q t : ℕ} (hlow : 23 * p ≤ q * 4640) (hhigh : q * 4641 ≤ 24 * p) (ht : t < q) :
    (t + q * 4640) / p = 23 := by
  apply Nat.div_eq_of_lt_le
  · omega
  · omega

theorem isMh_head {s : String} (h : isMh s = true) : ∃ os, s.toList = 'Q' :: os := by
  unfold isMh at h
  simp only [decide_eq_true_eq] at h
  obtain ⟨raw, hraw, hform⟩ := Option.any_eq_true _ _ |>.mp h.2
  obtain ⟨htake, hlength⟩ := of_decide_eq_true hform
  obtain ⟨tail, rfl⟩ : ∃ tail, raw = 0x12 :: 0x20 :: tail := by
    match raw, htake, hlength with
    | a :: b :: tail, htake, _ =>
      obtain ⟨rfl, hb⟩ := List.cons.inj htake
      obtain ⟨rfl, -⟩ := List.cons.inj hb
      exact ⟨tail, rfl⟩
  have htail : tail.length = 32 := by simpa using hlength
  have hvalue : bytesNat (0x12 :: 0x20 :: tail) = bytesNat tail + 256 ^ 32 * 4640 := by
    unfold bytesNat
    simp only [List.reverse_cons, List.map_append, List.map_cons, List.map_nil, Nat.ofDigits_append,
      Nat.ofDigits_singleton, List.length_append, List.length_map, List.length_reverse, htail, List.length_singleton]
    rw [show (0x20 : UInt8).toNat = 32 from rfl, show (0x12 : UInt8).toNat = 18 from rfl]
    ring
  have hbound : bytesNat tail < 256 ^ 32 := by
    have hlt := Nat.ofDigits_lt_base_pow_length (b := 256) (l := tail.reverse.map (·.toNat)) (by omega) (by
      intro x hx
      obtain ⟨a, -, rfl⟩ := List.mem_map.mp hx
      exact a.toNat_lt)
    rwa [List.length_map, List.length_reverse, htail] at hlt
  have hdigit : bytesNat (0x12 :: 0x20 :: tail) / 58 ^ 45 = 23 := by
    rw [hvalue]
    exact quotient (by decide +kernel) (by decide +kernel) hbound
  obtain ⟨rest, hrest⟩ := leading_digit (by omega) (by omega) 45 _ hdigit
  refine ⟨rest.map base58Char, ?_⟩
  rw [← base58Encode_decode hraw, base58Encode, hrest]
  rfl

theorem base58_of_isMh {s : String} (h : isMh s = true) : ∀ ch ∈ s.toList, (base58Digit ch).isSome = true := by
  unfold isMh isBase58 at h
  simp only [decide_eq_true_eq] at h
  exact List.all_eq_true.mp h.1.2

theorem escape_base58 {ch : Char} (h : (base58Digit ch).isSome = true) : Json.escape ch = [ch] ∧ ch ≠ '"' := by
  obtain ⟨d, hd⟩ := Option.isSome_iff_exists.mp h
  obtain ⟨hchar, hlt⟩ := base58Char_digit hd
  have hall : ∀ d < 58, Json.escape (base58Char d) = [base58Char d] ∧ base58Char d ≠ '"' := by
    decide +kernel
  rw [← hchar]
  exact hall d hlt

/-! ## Words in the text of a string -/

section Words

variable {o : Char} {os new : List Char}

theorem prefix_escape {word : List Char} (hword : ∀ ch ∈ word, Json.escape ch = [ch] ∧ ch ≠ '"') (s : List Char) :
    word <+: s.flatMap Json.escape ↔ word <+: s := by
  induction word generalizing s with
  | nil => exact iff_of_true List.nil_prefix List.nil_prefix
  | cons w word ih =>
    have hrest := fun ch hch => hword ch (List.mem_cons_of_mem _ hch)
    have hw := (hword w List.mem_cons_self).1
    cases s with
    | nil => simp
    | cons c s =>
      rw [List.flatMap_cons, List.cons_prefix_cons]
      by_cases hplain : Json.escape c = [c]
      · rw [hplain, List.singleton_append, List.cons_prefix_cons, ih hrest]
      · have hslash : ∃ more, Json.escape c = '\\' :: more := by
          unfold Json.escape at hplain ⊢
          split
          · exact ⟨_, rfl⟩
          · split
            · exact ⟨_, rfl⟩
            · split
              · split
                · exact ⟨_, rfl⟩
                · exact ⟨_, rfl⟩
              · rename_i hquote hback hcontrol
                rw [if_neg hquote, if_neg hback, if_neg hcontrol] at hplain
                exact absurd rfl hplain
        obtain ⟨more, hmore⟩ := hslash
        rw [hmore, List.cons_append, List.cons_prefix_cons]
        constructor
        · rintro ⟨rfl, -⟩
          exact absurd hw (by decide)
        · rintro ⟨rfl, -⟩
          exact absurd hw hplain

theorem notMem_escape {c : Char} (h : Json.escape c ≠ [c]) : 'Q' ∉ Json.escape c := by
  by_cases hquote : c = '"'
  · subst hquote
    decide
  by_cases hslash : c = '\\'
  · subst hslash
    decide
  by_cases hcontrol : c.toNat < 0x20
  · have hall : ∀ n < 0x20, 'Q' ∉ Json.escape (Char.ofNat n) := by decide +kernel
    have hc := hall c.toNat hcontrol
    rwa [Char.ofNat_toNat] at hc
  · unfold Json.escape at h
    rw [if_neg hquote, if_neg hslash, if_neg hcontrol] at h
    exact absurd rfl h

theorem substitute_escape (hold : ∀ ch ∈ 'Q' :: os, Json.escape ch = [ch] ∧ ch ≠ '"')
    (hnew : ∀ ch ∈ new, Json.escape ch = [ch]) (s : List Char) :
    substitute ('Q' :: os) new 0 (s.flatMap Json.escape) = (substitute ('Q' :: os) new 0 s).flatMap Json.escape := by
  have hplain {word : List Char} (hword : ∀ ch ∈ word, Json.escape ch = [ch]) : word.flatMap Json.escape = word := by
    induction word with
    | nil => rfl
    | cons w word ih =>
      rw [List.flatMap_cons, hword w List.mem_cons_self, ih fun ch hch => hword ch (List.mem_cons_of_mem _ hch)]
      rfl
  induction hlen : s.length using Nat.strong_induction_on generalizing s with
  | _ n ih =>
    cases s with
    | nil => rfl
    | cons c s =>
      by_cases hword : 'Q' :: os <+: c :: s
      · obtain ⟨rest, hrest⟩ := hword
        have hless : rest.length < n := by
          rw [← hlen, ← hrest]
          simp
        rw [← hrest, List.flatMap_append, hplain fun ch hch => (hold ch hch).1,
          substitute_word (List.cons_ne_nil _ _), substitute_word (List.cons_ne_nil _ _), List.flatMap_append,
          hplain hnew, ih rest.length hless rest rfl]
      · rw [substitute_cons, if_neg hword, List.flatMap_cons, List.flatMap_cons]
        have hrest := ih s.length (by rw [← hlen]; simp) s rfl
        by_cases hc : Json.escape c = [c]
        · have hnot : ¬('Q' :: os) <+: c :: s.flatMap Json.escape := by
            have hiff := prefix_escape hold (c :: s)
            rw [List.flatMap_cons, hc] at hiff
            exact fun h => hword (hiff.mp h)
          rw [hc, List.singleton_append, substitute_cons, if_neg hnot, hrest]
          rfl
        · rw [substitute_append rfl (notMem_escape hc), hrest]

/-! ## Words in the text of a value -/

mutual

/-- A value with its strings changed. -/
def mapStrings (f : String → String) : Json → Json
  | .null => .null
  | .bool b => .bool b
  | .int n => .int n
  | .str s => .str (f s)
  | .arr vs => .arr (mapItems f vs)
  | .obj ms => .obj (mapMembers f ms)

def mapItems (f : String → String) : List Json → List Json
  | [] => []
  | v :: vs => mapStrings f v :: mapItems f vs

def mapMembers (f : String → String) : List (String × Json) → List (String × Json)
  | [] => []
  | (k, v) :: ms => (f k, mapStrings f v) :: mapMembers f ms

end

/-- A string with the word replaced. -/
def inString (old new : List Char) (s : String) : String := String.ofList (substitute old new 0 s.toList)

theorem substitute_quote (hold : ∀ ch ∈ 'Q' :: os, Json.escape ch = [ch] ∧ ch ≠ '"')
    (hnew : ∀ ch ∈ new, Json.escape ch = [ch]) (s : String) (rest : List Char) :
    substitute ('Q' :: os) new 0 (Json.quote s ++ rest) =
      Json.quote (inString ('Q' :: os) new s) ++ substitute ('Q' :: os) new 0 rest := by
  have hquote : '"' ∉ 'Q' :: os := fun h => (hold _ h).2 rfl
  have hopen : 'Q' ≠ '"' := by decide
  unfold Json.quote inString
  rw [String.toList_ofList, List.cons_append, substitute_letter rfl hopen, List.append_assoc,
    List.singleton_append, substitute_split hquote (List.cons_ne_nil _ _), substitute_escape hold hnew]
  simp

theorem renderInt_noQ (n : Int) : 'Q' ∉ Json.renderInt n := by
  have hdigits : 'Q' ∉ Nat.toDigits 10 n.natAbs := by
    intro h
    have hdigit := Json.isDigit_toDigits n.natAbs _ h
    revert hdigit
    decide
  unfold Json.renderInt
  split
  · rw [List.mem_cons, not_or]
    exact ⟨by decide, hdigits⟩
  · exact hdigits

mutual

theorem substitute_render (hold : ∀ ch ∈ 'Q' :: os, Json.escape ch = [ch] ∧ ch ≠ '"')
    (hnew : ∀ ch ∈ new, Json.escape ch = [ch]) : ∀ (v : Json) (rest : List Char),
    substitute ('Q' :: os) new 0 (v.render [' '] ++ rest) =
      (mapStrings (inString ('Q' :: os) new) v).render [' '] ++ substitute ('Q' :: os) new 0 rest
  | .null, rest => substitute_append rfl (by decide) rest
  | .bool true, rest => substitute_append rfl (by decide) rest
  | .bool false, rest => substitute_append rfl (by decide) rest
  | .int n, rest => substitute_append rfl (renderInt_noQ n) rest
  | .str s, rest => substitute_quote hold hnew s rest
  | .arr [], rest => by
      have hhead : 'Q' ∉ ['[', ']'] := by decide
      exact substitute_append rfl hhead rest
  | .arr (v :: vs), rest => by
      have hopen : 'Q' ≠ '[' := by decide
      rw [Json.render, mapStrings, mapItems, Json.render, List.cons_append, substitute_letter rfl hopen, List.append_assoc, substitute_render hold hnew v, substitute_renderItems hold hnew vs]
      simp
  | .obj [], rest => by
      have hhead : 'Q' ∉ ['{', '}'] := by decide
      exact substitute_append rfl hhead rest
  | .obj ((k, v) :: ms), rest => by
      have hopen : 'Q' ≠ '{' := by decide
      have hcolon : 'Q' ∉ [':', ' '] := by decide
      rw [Json.render, mapStrings, mapMembers, Json.render, List.cons_append, substitute_letter rfl hopen, List.append_assoc, substitute_quote hold hnew,
        show ':' :: ([' '] ++ (v.render [' '] ++ Json.renderMembers [' '] ms)) ++ rest =
          [':', ' '] ++ (v.render [' '] ++ (Json.renderMembers [' '] ms ++ rest)) by simp,
        substitute_append rfl hcolon, substitute_render hold hnew v, substitute_renderMembers hold hnew ms]
      simp

theorem substitute_renderItems (hold : ∀ ch ∈ 'Q' :: os, Json.escape ch = [ch] ∧ ch ≠ '"')
    (hnew : ∀ ch ∈ new, Json.escape ch = [ch]) : ∀ (vs : List Json) (rest : List Char),
    substitute ('Q' :: os) new 0 (Json.renderItems [' '] vs ++ rest) =
      Json.renderItems [' '] (mapItems (inString ('Q' :: os) new) vs) ++ substitute ('Q' :: os) new 0 rest
  | [], rest => by
      have hclose : 'Q' ∉ [']'] := by decide
      exact substitute_append rfl hclose rest
  | v :: vs, rest => by
      have hcomma : 'Q' ∉ [',', ' '] := by decide
      rw [Json.renderItems, mapItems, Json.renderItems,
        show ',' :: ([' '] ++ (v.render [' '] ++ Json.renderItems [' '] vs)) ++ rest =
          [',', ' '] ++ (v.render [' '] ++ (Json.renderItems [' '] vs ++ rest)) by simp,
        substitute_append rfl hcomma, substitute_render hold hnew v, substitute_renderItems hold hnew vs]
      simp

theorem substitute_renderMembers (hold : ∀ ch ∈ 'Q' :: os, Json.escape ch = [ch] ∧ ch ≠ '"')
    (hnew : ∀ ch ∈ new, Json.escape ch = [ch]) : ∀ (ms : List (String × Json)) (rest : List Char),
    substitute ('Q' :: os) new 0 (Json.renderMembers [' '] ms ++ rest) =
      Json.renderMembers [' '] (mapMembers (inString ('Q' :: os) new) ms) ++ substitute ('Q' :: os) new 0 rest
  | [], rest => by
      have hclose : 'Q' ∉ ['}'] := by decide
      exact substitute_append rfl hclose rest
  | (k, v) :: ms, rest => by
      have hcomma : 'Q' ∉ [',', ' '] := by decide
      have hcolon : 'Q' ∉ [':', ' '] := by decide
      rw [Json.renderMembers, mapMembers, Json.renderMembers,
        show ',' :: ([' '] ++ (Json.quote k ++ ':' :: ([' '] ++ (v.render [' '] ++ Json.renderMembers [' '] ms)))) ++
            rest = [',', ' '] ++ (Json.quote k ++ ([':', ' '] ++ (v.render [' '] ++
              (Json.renderMembers [' '] ms ++ rest)))) by simp,
        substitute_append rfl hcomma, substitute_quote hold hnew, substitute_append rfl hcolon,
        substitute_render hold hnew v, substitute_renderMembers hold hnew ms]
      simp

end

end Words

/-! ## The text of an entry, read again -/

theorem comma_ofChars : lit ", " = PyStr.ofChars [',', ' '] := rfl

mutual

theorem dumps_ofJson : ∀ v : Json, dumps (ofJson v) = some (.ofChars (v.render [' ']))
  | .null => rfl
  | .bool true => rfl
  | .bool false => rfl
  | .int n => rfl
  | .str s => by
      rw [ofJson, dumps, IJson.dumps_ofChars]
      rfl
  | .arr vs => by
      rw [ofJson, dumps, dumps_ofItems vs, IJson.render_arr, Option.map_some, comma_ofChars, IJson.intercalate_ofChars]
      simp [PyStr.ofChars]
  | .obj ms => by
      rw [ofJson, dumps, dumps_ofMembers ms, IJson.render_obj, Option.map_some, List.map_map]
      have hmember : (fun t : PyStr × PyStr => IJson.dumps t.1 ++ lit ": " ++ t.2) ∘
            (fun m : String × Json => (PyStr.ofChars m.1.toList, PyStr.ofChars (m.2.render [' ']))) =
          PyStr.ofChars ∘ IJson.member [' '] := by
        funext m
        show IJson.dumps (.ofChars m.1.toList) ++ lit ": " ++ _ = _
        rw [IJson.dumps_ofChars, show lit ": " = PyStr.ofChars [':', ' '] from rfl]
        simp [PyStr.ofChars, IJson.member]
      rw [hmember, ← List.map_map, comma_ofChars, IJson.intercalate_ofChars]
      simp [PyStr.ofChars]

theorem dumps_ofItems : ∀ vs : List Json, dumpsItems (ofItems vs) = some ((vs.map (Json.render [' '])).map PyStr.ofChars)
  | [] => rfl
  | v :: vs => by
      rw [ofItems, dumpsItems, dumps_ofJson v, dumps_ofItems vs]
      rfl

theorem dumps_ofMembers : ∀ ms : List (String × Json),
    dumpsMembers (ofMembers ms) = some (ms.map fun m => (PyStr.ofChars m.1.toList, PyStr.ofChars (m.2.render [' '])))
  | [] => rfl
  | (k, v) :: ms => by
      rw [ofMembers, dumpsMembers, dumps_ofJson v, dumps_ofMembers ms]
      rfl

end

mutual

theorem asDicts_ofJson : ∀ v : Json, asDicts (ofJson v) = ofJson (lastWins v)
  | .null | .bool _ | .int _ | .str _ => rfl
  | .arr vs => by rw [ofJson, asDicts, lastWins, ofJson, asDicts_ofItems vs]
  | .obj ms => by rw [ofJson, asDicts, lastWins, ofJson, asDicts_ofMembers ms]

theorem asDicts_ofItems : ∀ vs : List Json, itemsAsDicts (ofItems vs) = ofItems (itemsLastWin vs)
  | [] => rfl
  | v :: vs => by rw [ofItems, itemsAsDicts, itemsLastWin, ofItems, asDicts_ofJson v, asDicts_ofItems vs]

theorem asDicts_ofMembers : ∀ ms : List (String × Json), membersAsDicts (ofMembers ms) = ofMembers (membersLastWin ms)
  | [] => rfl
  | (k, v) :: ms => by
      have hmem : PyStr.ofChars k.toList ∈ (ofMembers ms).map (·.1) ↔ k ∈ ms.map (·.1) := by
        rw [IJson.ofMembers_eq, List.map_map, List.mem_map, List.mem_map]
        exact exists_congr fun m => and_congr_right fun _ =>
          ⟨fun h => String.toList_inj.mp (IJson.ofChars_injective h), fun h => congrArg (fun name : String => PyStr.ofChars name.toList) h⟩
      rw [ofMembers, membersAsDicts, membersLastWin]
      by_cases h : k ∈ ms.map (·.1)
      · rw [if_pos (hmem.mpr h), if_pos h, asDicts_ofMembers ms]
      · rw [if_neg fun h' => h (hmem.mp h'), if_neg h, ofMembers, asDicts_ofJson v, asDicts_ofMembers ms]

end

theorem scid_reads {v : Val} (hv : IJson.Good v) {s : String} (hs : isMh s = true) :
    ∃ text w data, dumps v = some text ∧ PyJson.loads (substitute (lit s) (lit "\x7bSCID\x7d") 0 text) = some w ∧
      IJson.jcs (asDicts w) = some data := by
  obtain ⟨j, rfl⟩ := IJson.exists_ofJson v hv
  obtain ⟨os, hos⟩ := isMh_head hs
  have hold : ∀ ch ∈ 'Q' :: os, Json.escape ch = [ch] ∧ ch ≠ '"' := by
    rw [← hos]
    exact fun ch hch => escape_base58 (base58_of_isMh hs ch hch)
  have hnew : ∀ ch ∈ "\x7bSCID\x7d".toList, Json.escape ch = [ch] := by decide
  have hrender := substitute_render hold hnew j []
  rw [List.append_nil, show substitute ('Q' :: os) "\x7bSCID\x7d".toList 0 [] = [] from rfl, List.append_nil] at hrender
  have hchar : Function.Injective PyChar.char := fun _ _ h => PyChar.char.inj h
  have htext : substitute (lit s) (lit "\x7bSCID\x7d") 0 (PyStr.ofChars (j.render [' '])) =
      PyStr.ofChars ((mapStrings (inString ('Q' :: os) "\x7bSCID\x7d".toList) j).render [' ']) := by
    rw [← hrender, lit, hos]
    exact substitute_map hchar 0 _
  have hparse := @Json.parse_render [' '] (by decide) (mapStrings (inString ('Q' :: os) "\x7bSCID\x7d".toList) j)
  have hloads := PyJson.loads_parse hparse
  rw [← htext] at hloads
  have hjcs (w : Json) : IJson.jcs (asDicts (ofJson w)) = some (Webvh.jcs (lastWins w)) := by
    rw [asDicts_ofJson]
    exact IJson.jcs_ofJson _
  exact ⟨_, _, _, dumps_ofJson j, hloads, hjcs _⟩

end Host

end Dsip.Webvh
