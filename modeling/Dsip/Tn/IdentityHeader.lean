import Dsip.Tn.Passport

/-!
# Writing an `Identity` header

A token, an `info` parameter with the URL of its certificate, and perhaps `alg` and `ppt`, in any
order and with blanks around them. It is read back (`readIdentityHeader_text`).
-/

namespace Dsip.Tn

open Dsip.Lib

/-- A parameter as it is written, with blanks around its name and its value. -/
structure Part where
  beforeName : PyStr
  name : String
  afterName : PyStr
  beforeValue : PyStr
  value : String
  afterValue : PyStr

def Part.text (p : Part) : PyStr :=
  (p.beforeName ++ .ofChars p.name.toList ++ p.afterName) ++
    .char '=' :: (p.beforeValue ++ .ofChars p.value.toList ++ p.afterValue)

/-- What is read of a parameter. -/
def Part.pair (p : Part) : PyStr × PyStr := (.ofChars p.name.toList, .ofChars p.value.toList)

structure Header where
  before : PyStr
  token : List Char
  after : PyStr
  parts : List Part

def Header.text (h : Header) : PyStr :=
  (h.before ++ .ofChars h.token ++ h.after) ++ h.parts.flatMap fun p => .char ';' :: p.text

def Blank (s : PyStr) : Prop := ∀ c ∈ s, isBlank c = true

/-- The header names the URL, and no algorithm or passport type but those that are supported. -/
structure Header.Written (h : Header) (x5u : String) : Prop where
  blank : Blank h.before ∧ Blank h.after
  blanks : ∀ p ∈ h.parts, Blank p.beforeName ∧ Blank p.afterName ∧ Blank p.beforeValue ∧ Blank p.afterValue
  params : ∀ p ∈ h.parts, (p.name, p.value) ∈ [("info", "<" ++ x5u ++ ">"), ("alg", "ES256"), ("ppt", "shaken")]
  names : (h.parts.map Part.name).Nodup
  info : "info" ∈ h.parts.map Part.name

/-! ## Stripping and splitting -/

theorem strip_padded {a s b : PyStr} (ha : Blank a) (hb : Blank b) (hfirst : ∀ c ∈ s.head?, isBlank c = false)
    (hlast : ∀ c ∈ s.getLast?, isBlank c = false) : strip (a ++ s ++ b) = s := by
  have hright : (s ++ b).rdropWhile isBlank = s := by
    unfold List.rdropWhile
    rw [List.reverse_append, List.dropWhile_append_of_pos fun c hc => hb c (List.mem_reverse.mp hc)]
    cases hs : s.reverse with
    | nil =>
      rw [List.reverse_eq_nil_iff.mp hs]
      rfl
    | cons c rest =>
      have hget : s.getLast? = some c := by
        rw [← List.head?_reverse, hs]
        rfl
      rw [List.dropWhile_cons_of_neg (by rw [hlast c hget]; exact Bool.false_ne_true), ← hs, List.reverse_reverse]
  unfold strip
  rw [List.append_assoc, List.dropWhile_append_of_pos ha]
  cases s with
  | nil =>
    rw [List.nil_append]
    have hnil : b.dropWhile isBlank = [] := List.dropWhile_eq_nil_iff.mpr hb
    rw [hnil]
    rfl
  | cons c s =>
    rw [List.cons_append, List.dropWhile_cons_of_neg (by rw [hfirst c rfl]; exact Bool.false_ne_true), ← List.cons_append]
    exact hright

theorem splitOn_flatMap {α β : Type} [DecidableEq α] {sep : α} {text : β → List α} {first : List α} {parts : List β}
    (hfirst : sep ∉ first) (hparts : ∀ p ∈ parts, sep ∉ text p) :
    (first ++ parts.flatMap fun p => sep :: text p).splitOn sep = first :: parts.map text := by
  induction parts generalizing first with
  | nil => rw [List.flatMap_nil, List.append_nil, List.splitOn_eq_singleton hfirst, List.map_nil]
  | cons p parts ih =>
    rw [List.flatMap_cons, List.cons_append, List.splitOn_append_cons_self_of_not_mem hfirst,
      ih (hparts p List.mem_cons_self) fun q hq => hparts q (List.mem_cons_of_mem p hq), List.map_cons]

/-! ## The parameters -/

theorem not_mem_of_blank {s : PyStr} (h : Blank s) {c : PyChar} (hc : isBlank c = false) : c ∉ s := by
  intro hmem
  rw [h c hmem] at hc
  cases hc

/-- A name and a value that the blanks, `;` and `=` around them do not disturb. -/
structure Plain (name value : String) : Prop where
  name_ne : name.toList ≠ []
  name_clear : ∀ c ∈ name.toList, isBlank (.char c) = false ∧ c ≠ '=' ∧ c ≠ ';'
  lower : ∀ c ∈ name.toList, c.toNat < 0x80 ∧ c.toLower = c
  value_ne : value.toList ≠ []
  first : ∀ c ∈ value.toList.head?, isBlank (.char c) = false
  last : ∀ c ∈ value.toList.getLast?, isBlank (.char c) = false
  value_clear : ';' ∉ value.toList

structure Part.Clear (p : Part) : Prop where
  blanks : Blank p.beforeName ∧ Blank p.afterName ∧ Blank p.beforeValue ∧ Blank p.afterValue
  plain : Plain p.name p.value

theorem mem_ofChars {s : List Char} {c : Char} : PyChar.char c ∈ PyStr.ofChars s ↔ c ∈ s := by
  unfold PyStr.ofChars
  simp

variable {unicode : PyStr → PyStr}

theorem toLowerCase_lower {s : List Char} (h : ∀ c ∈ s, c.toNat < 0x80 ∧ c.toLower = c) :
    toLowerCase unicode (.ofChars s) = .ofChars s := by
  unfold toLowerCase PyStr.ofChars
  rw [if_pos, List.map_map]
  · exact List.map_congr_left fun c hc => congrArg PyChar.char (h c hc).2
  · rw [List.all_map, List.all_eq_true]
    exact fun c hc => decide_eq_true (h c hc).1

theorem Part.Clear.addParam_text {p : Part} (h : p.Clear) {params : List (PyStr × PyStr)}
    (hnew : p.pair.1 ∉ params.map (·.1)) : addParam unicode params p.text = some (params ++ [p.pair]) := by
  obtain ⟨hbefore, hafter, hbeforeValue, hafterValue⟩ := h.blanks
  have hblank {s : PyStr} (hs : Blank s) : ∀ c ∈ s, decide (c ≠ PyChar.char '=') = true := by
    intro c hc
    refine decide_eq_true fun heq => ?_
    exact not_mem_of_blank hs (c := .char '=') (by decide) (heq ▸ hc)
  have hname : ∀ c ∈ p.beforeName ++ .ofChars p.name.toList ++ p.afterName, decide (c ≠ PyChar.char '=') = true := by
    intro c hc
    rcases List.mem_append.mp hc with hc | hc
    · rcases List.mem_append.mp hc with hc | hc
      · exact hblank hbefore c hc
      · obtain ⟨d, hd, rfl⟩ := List.mem_map.mp hc
        exact decide_eq_true fun heq => (h.plain.name_clear d hd).2.1 (PyChar.char.inj heq)
    · exact hblank hafter c hc
  have hstripName : strip (p.beforeName ++ .ofChars p.name.toList ++ p.afterName) = .ofChars p.name.toList := by
    refine strip_padded hbefore hafter (fun c hc => ?_) fun c hc => ?_
    · obtain ⟨d, hd, rfl⟩ := List.mem_map.mp (List.mem_of_mem_head? hc)
      exact (h.plain.name_clear d hd).1
    · obtain ⟨d, hd, rfl⟩ := List.mem_map.mp (List.mem_of_mem_getLast? hc)
      exact (h.plain.name_clear d hd).1
  have hstripValue : strip (p.beforeValue ++ .ofChars p.value.toList ++ p.afterValue) = .ofChars p.value.toList := by
    refine strip_padded hbeforeValue hafterValue (fun c hc => ?_) fun c hc => ?_
    · unfold PyStr.ofChars at hc
      rw [List.head?_map] at hc
      obtain ⟨d, hd, rfl⟩ := Option.map_eq_some_iff.mp hc
      exact h.plain.first d hd
    · unfold PyStr.ofChars at hc
      rw [List.getLast?_map] at hc
      obtain ⟨d, hd, rfl⟩ := Option.map_eq_some_iff.mp hc
      exact h.plain.last d hd
  have hnone : params.lookup (.ofChars p.name.toList) = none := by
    rw [List.lookup_eq_none_iff]
    intro q hq
    refine bne_iff_ne.mpr fun heq => hnew (List.mem_map.mpr ⟨q, hq, heq.symm⟩)
  have hne (s : List Char) (hs : s ≠ []) : PyStr.ofChars s ≠ [] := fun heq => hs (List.map_eq_nil_iff.mp heq)
  unfold addParam Part.text
  rw [List.dropWhile_append_of_pos hname, List.takeWhile_append_of_pos hname, List.dropWhile_cons_of_neg (by decide),
    List.takeWhile_cons_of_neg (by decide), List.append_nil]
  dsimp only
  rw [hstripName, hstripValue, toLowerCase_lower h.plain.lower, hnone, if_neg]
  · rfl
  · simp [hne _ h.plain.name_ne, hne _ h.plain.value_ne]

theorem foldlM_addParam {parts : List Part} (hclear : ∀ p ∈ parts, p.Clear) {params : List (PyStr × PyStr)}
    (hnames : (params.map (·.1) ++ parts.map fun p => p.pair.1).Nodup) :
    (parts.map Part.text).foldlM (addParam unicode) params = some (params ++ parts.map Part.pair) := by
  induction parts generalizing params with
  | nil => rw [List.map_nil, List.map_nil, List.append_nil]; rfl
  | cons p parts ih =>
    have hnew : p.pair.1 ∉ params.map (·.1) := by
      intro hmem
      exact (List.nodup_append.mp hnames).2.2 _ hmem _ (List.mem_cons_self) rfl
    rw [List.map_cons, List.foldlM_cons, (hclear p List.mem_cons_self).addParam_text hnew, Option.bind_eq_bind,
      Option.bind_some, ih (fun q hq => hclear q (List.mem_cons_of_mem p hq)), List.append_assoc]
    · rfl
    · rw [List.map_append, List.append_assoc]
      exact hnames

/-! ## The header -/

section

variable {h : Header} {x5u : String}

theorem Header.Written.clear (hw : h.Written x5u) (hurl : ';' ∉ x5u.toList) : ∀ p ∈ h.parts, p.Clear := by
  intro p hp
  refine ⟨hw.blanks p hp, ?_⟩
  have hparam := hw.params p hp
  simp only [List.mem_cons, List.not_mem_nil, or_false, Prod.mk.injEq] at hparam
  rcases hparam with ⟨hname, hvalue⟩ | ⟨hname, hvalue⟩ | ⟨hname, hvalue⟩
  · have hurl' : ("<" ++ x5u ++ ">").toList = ('<' :: x5u.toList) ++ ['>'] := by
      rw [String.toList_append, String.toList_append]
      rfl
    rw [hname, hvalue]
    refine ⟨by decide, by decide, by decide, ?_, ?_, ?_, ?_⟩ <;> rw [hurl']
    · exact fun heq => List.cons_ne_nil _ _ heq
    · rintro c ⟨⟩
      rfl
    · rw [List.getLast?_concat]
      rintro c ⟨⟩
      rfl
    · simp [hurl]
  · rw [hname, hvalue]
    exact ⟨by decide, by decide, by decide, by decide, by decide, by decide, by decide⟩
  · rw [hname, hvalue]
    exact ⟨by decide, by decide, by decide, by decide, by decide, by decide, by decide⟩

theorem semicolon_not_mem_text {p : Part} (hp : p.Clear) : PyChar.char ';' ∉ p.text := by
  obtain ⟨hbefore, hafter, hbeforeValue, hafterValue⟩ := hp.blanks
  have hblank {s : PyStr} (hs : Blank s) : PyChar.char ';' ∉ s := not_mem_of_blank hs (by decide)
  have hname : PyChar.char ';' ∉ PyStr.ofChars p.name.toList := fun hc => (hp.plain.name_clear _ (mem_ofChars.mp hc)).2.2 rfl
  have hvalue : PyChar.char ';' ∉ PyStr.ofChars p.value.toList := fun hc => hp.plain.value_clear (mem_ofChars.mp hc)
  simp [Part.text, hblank hbefore, hblank hafter, hblank hbeforeValue, hblank hafterValue, hname, hvalue]

theorem mem_of_lookup {α β : Type} [BEq α] [LawfulBEq α] {l : List (α × β)} {k : α} {v : β} (h : l.lookup k = some v) : (k, v) ∈ l := by
  obtain ⟨l₁, l₂, rfl, -⟩ := List.lookup_eq_some_iff.mp h
  exact List.mem_append_right l₁ List.mem_cons_self

theorem ofChars_inj {s t : List Char} (h : PyStr.ofChars s = PyStr.ofChars t) : s = t :=
  List.map_injective_iff.mpr (fun _ _ h => PyChar.char.inj h) h

theorem Header.Written.of_lookup (hw : h.Written x5u) {name : String} {v : PyStr}
    (hv : (h.parts.map Part.pair).lookup (.ofChars name.toList) = some v) : ∃ value,
    v = .ofChars value.toList ∧ (name, value) ∈ [("info", "<" ++ x5u ++ ">"), ("alg", "ES256"), ("ppt", "shaken")] := by
  obtain ⟨p, hp, heq⟩ := List.mem_map.mp (mem_of_lookup hv)
  obtain ⟨hname, rfl⟩ := Prod.mk.inj heq
  have hparam := hw.params p hp
  rw [String.toList_inj.mp (ofChars_inj hname)] at hparam
  exact ⟨p.value, rfl, hparam⟩

theorem readIdentityHeader_text (hw : h.Written x5u) (hurl : ';' ∉ x5u.toList)
    (htoken : ∀ c ∈ h.token, isBlank (.char c) = false ∧ c ≠ ';') :
    ∃ params, readIdentityHeader unicode h.text = some ⟨.ofChars h.token, .ofChars x5u.toList, params⟩ ∧
      supports params "alg" "ES256" = true ∧ supports params "ppt" "shaken" = true := by
  have hclear := hw.clear hurl
  have hfirst : PyChar.char ';' ∉ h.before ++ .ofChars h.token ++ h.after := by
    have hbefore : PyChar.char ';' ∉ h.before := not_mem_of_blank hw.blank.1 (by decide)
    have hafter : PyChar.char ';' ∉ h.after := not_mem_of_blank hw.blank.2 (by decide)
    have hmiddle : PyChar.char ';' ∉ PyStr.ofChars h.token := fun hc => (htoken _ (mem_ofChars.mp hc)).2 rfl
    simp [hbefore, hafter, hmiddle]
  have hsplit : h.text.splitOn (.char ';') = (h.before ++ .ofChars h.token ++ h.after) :: h.parts.map Part.text :=
    splitOn_flatMap hfirst fun p hp => semicolon_not_mem_text (hclear p hp)
  have hnames : (([] : List (PyStr × PyStr)).map (·.1) ++ h.parts.map fun p => p.pair.1).Nodup := by
    have hmap : (h.parts.map fun p => p.pair.1) = (h.parts.map Part.name).map fun n => PyStr.ofChars n.toList := by
      rw [List.map_map]
      rfl
    rw [List.map_nil, List.nil_append, hmap]
    exact (List.nodup_map_iff fun _ _ heq => String.toList_inj.mp (ofChars_inj heq)).mpr hw.names
  have hparams := @foldlM_addParam unicode h.parts hclear [] hnames
  rw [List.nil_append] at hparams
  have hstrip : strip (h.before ++ .ofChars h.token ++ h.after) = .ofChars h.token := by
    refine strip_padded hw.blank.1 hw.blank.2 (fun c hc => ?_) fun c hc => ?_
    · obtain ⟨d, hd, rfl⟩ := List.mem_map.mp (List.mem_of_mem_head? hc)
      exact (htoken d hd).1
    · obtain ⟨d, hd, rfl⟩ := List.mem_map.mp (List.mem_of_mem_getLast? hc)
      exact (htoken d hd).1
  have hinfo : (h.parts.map Part.pair).lookup (.ofChars "info".toList) = some (.ofChars ('<' :: (x5u.toList ++ ['>']))) := by
    obtain ⟨p, hp, hname⟩ := List.mem_map.mp hw.info
    cases hv : (h.parts.map Part.pair).lookup (.ofChars "info".toList) with
    | none =>
      have hne := List.lookup_eq_none_iff.mp hv _ (List.mem_map_of_mem hp)
      rw [Part.pair, hname] at hne
      simp at hne
    | some v =>
      obtain ⟨value, rfl, hvalue⟩ := hw.of_lookup hv
      simp at hvalue
      rw [hvalue]
      simp
  have hsupports (name value : String) (honly : ∀ v, (name, v) ∈ [("info", "<" ++ x5u ++ ">"), ("alg", "ES256"),
      ("ppt", "shaken")] → v = value) : supports (h.parts.map Part.pair) name value = true := by
    unfold supports
    cases hv : (h.parts.map Part.pair).lookup (.ofChars name.toList) with
    | none => rfl
    | some v =>
      obtain ⟨v', rfl, hv'⟩ := hw.of_lookup hv
      rw [honly v' hv']
      exact decide_eq_true rfl
  refine ⟨h.parts.map Part.pair, ?_, hsupports "alg" "ES256" (by simp), hsupports "ppt" "shaken" (by simp)⟩
  unfold readIdentityHeader
  rw [hsplit]
  dsimp only
  rw [List.tail_cons, hparams, Option.bind_eq_bind, Option.bind_some, hinfo, Option.bind_eq_bind, Option.bind_some,
    List.headD_cons, hstrip]
  have hshape : PyStr.ofChars ('<' :: (x5u.toList ++ ['>'])) = (.char '<' :: PyStr.ofChars x5u.toList) ++ [.char '>'] := by
    simp [PyStr.ofChars]
  rw [hshape]
  have hinner : List.dropLast (List.drop 1 ((.char '<' :: PyStr.ofChars x5u.toList) ++ [.char '>'])) = PyStr.ofChars x5u.toList := by
    rw [List.cons_append, List.drop_one, List.tail_cons, List.dropLast_concat]
  rw [hinner]
  refine guard_bind.mpr ⟨⟨by simp, rfl, List.getLast?_concat⟩, rfl⟩

end

end Dsip.Tn
