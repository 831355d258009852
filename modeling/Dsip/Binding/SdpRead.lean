import Dsip.Binding.SdpTs
import Mathlib.Tactic

/-!
# What both parsers read

The parsers differ in what they tolerate. `Regular` says which texts both read the
same way: the same sections with the same attributes, a port zero for both or for
neither. What a check then looks for among the attributes, one finds where the
other does.
-/

namespace Dsip.Binding

open Dsip.Lib

/-! ## Text -/

theorem splitOn_replaceCrlf (text : Text) : (replaceCrlf text).splitOn '\n' = Ts.splitLines text := by
  induction text using Ts.splitLines.induct with
  | case1 => rfl
  | case2 rest ih =>
    rw [Ts.splitLines, replaceCrlf, List.splitOn_cons_eq_if_modifyHead, if_pos (by rfl), ih]
  | case3 rest ih =>
    rw [Ts.splitLines, replaceCrlf, List.splitOn_cons_eq_if_modifyHead, if_pos (by rfl), ih]
    exact fun _ h => by cases h
  | case4 c rest hcrlf hlf ih =>
    have hc : c ≠ '\n' := fun h => hlf h
    rw [Ts.splitLines, replaceCrlf, List.splitOn_cons_eq_if_modifyHead, if_neg (by simpa using hc), ih]
    · exact hcrlf
    · exact hcrlf
    · exact hlf

theorem isPrefix_of_first {text l : Text} (h : (Ts.splitLines text).head? = some l) : l <+: text := by
  induction text using Ts.splitLines.induct generalizing l with
  | case1 =>
    obtain rfl := Option.some.inj h
    exact List.nil_prefix
  | case2 rest =>
    obtain rfl := Option.some.inj h
    exact List.nil_prefix
  | case3 rest =>
    obtain rfl := Option.some.inj h
    exact List.nil_prefix
  | case4 c rest hcrlf hlf ih =>
    rw [Ts.splitLines.eq_4 c rest hcrlf hlf, List.head?_modifyHead] at h
    obtain ⟨l', hl', rfl⟩ := Option.map_eq_some_iff.mp h
    exact List.cons_prefix_cons.mpr ⟨rfl, ih hl'⟩

theorem trim_append_cons {p : Char → Bool} {n : Text} {c : Char} (hn : ∀ d ∈ n, p d = false)
    (hc : p c = false) (rest : Text) : ∃ rest', trim p (n ++ c :: rest) = n ++ c :: rest' := by
  have hfirst : (n ++ c :: rest).dropWhile p = n ++ c :: rest := by
    cases n with
    | nil => rw [List.nil_append, List.dropWhile_cons_of_neg (by simp [hc])]
    | cons d n => rw [List.cons_append, List.dropWhile_cons_of_neg (by simp [hn d List.mem_cons_self])]
  unfold trim
  rw [hfirst]
  have hreverse : (n ++ c :: rest).reverse = rest.reverse ++ (c :: n.reverse) := by simp
  rw [hreverse, List.dropWhile_append]
  split
  case isTrue =>
    rw [List.dropWhile_cons_of_neg (by simp [hc])]
    exact ⟨[], by simp⟩
  case isFalse => exact ⟨(rest.reverse.dropWhile p).reverse, by simp⟩

theorem trim_of_none {p : Char → Bool} {n : Text} (hn : ∀ d ∈ n, p d = false) : trim p n = n := by
  have hall : ∀ l : Text, (∀ d ∈ l, p d = false) → l.dropWhile p = l := by
    intro l hl
    cases l with
    | nil => rfl
    | cons d l => exact List.dropWhile_cons_of_neg (by simp [hl d List.mem_cons_self])
  unfold trim
  rw [hall n hn, hall n.reverse (fun d hd => hn d (List.mem_reverse.mp hd)), List.reverse_reverse]

theorem headD_splitOn (sep : Char) (text : Text) :
    (text.splitOn sep).headD [] = text.takeWhile (· ≠ sep) := by
  induction text with
  | nil => rfl
  | cons c text ih =>
    rw [List.splitOn_cons_eq_if_modifyHead]
    by_cases hc : c = sep
    · simp [hc]
    · obtain ⟨w, ws, hws⟩ := List.exists_cons_of_ne_nil (List.splitOn_ne_nil sep text)
      rw [hws] at ih ⊢
      simp only [beq_iff_eq, hc, if_false, List.modifyHead_cons, List.headD_cons] at ih ⊢
      rw [ih, List.takeWhile_cons_of_pos (by simp [hc])]

/-! ## Ports -/

/-- A port is a decimal number, and its count of ports, if it has one, follows a
number that is not zero. -/
def PlainPort (port : Text) : Prop :=
  let n := port.takeWhile (· ≠ '/')
  n ≠ [] ∧ (∀ c ∈ n, c.isDigit = true) ∧ n.length ≤ maxDigits ∧ ('/' ∈ port → ∃ c ∈ n, c ≠ '0')

theorem isDigit_bounds {c : Char} (h : c.isDigit = true) : 48 ≤ c.toNat ∧ c.toNat ≤ 57 := by
  simp only [Char.isDigit, Bool.and_eq_true, decide_eq_true_eq] at h
  exact ⟨h.1, h.2⟩

theorem toNat_inj {c d : Char} (h : c.toNat = d.toNat) : c = d := Char.ext (UInt32.toNat_inj.mp h)

theorem digit_ne {c d : Char} (hc : c.isDigit = true) (hd : d.isDigit = false) : c ≠ d := by
  rintro rfl
  rw [hc] at hd
  cases hd

section Digits

variable {n : Text} (hn : ∀ c ∈ n, c.isDigit = true)
include hn

theorem foldl_eq_zero (acc : Nat) :
    n.foldl (fun n c => n * 10 + (c.toNat - '0'.toNat)) acc = 0 ↔ acc = 0 ∧ ∀ c ∈ n, c = '0' := by
  induction n generalizing acc with
  | nil => simp
  | cons c n ih =>
    have hc := isDigit_bounds (hn c List.mem_cons_self)
    rw [List.foldl_cons, ih (fun d hd => hn d (List.mem_cons_of_mem c hd))]
    have hzero : c.toNat = 48 ↔ c = '0' := ⟨fun h => toNat_inj h, fun h => by rw [h]; rfl⟩
    have hval : '0'.toNat = 48 := rfl
    simp only [List.forall_mem_cons, hval]
    constructor
    · rintro ⟨hsum, hrest⟩
      exact ⟨by omega, hzero.mp (by omega), hrest⟩
    · rintro ⟨hacc, hc0, hrest⟩
      have := hzero.mpr hc0
      exact ⟨by omega, hrest⟩

theorem natOf_eq_zero : Ts.natOf n = 0 ↔ ∀ c ∈ n, c = '0' := by
  rw [Ts.natOf, foldl_eq_zero hn]
  simp

theorem decimalDigits_eq (acc : Nat) (afterDigit : Bool) (h : n ≠ [] ∨ afterDigit = true) :
    decimalDigits acc afterDigit n = some (n.foldl (fun n c => n * 10 + (c.toNat - '0'.toNat)) acc) := by
  induction n generalizing acc afterDigit with
  | nil =>
    have hafter : afterDigit = true := h.resolve_left (fun hne => hne rfl)
    rw [decimalDigits, if_pos hafter]
    rfl
  | cons c n ih =>
    have hc := hn c List.mem_cons_self
    have hdigit : decimalDigit c = some (c.toNat - '0'.toNat) := by
      simp only [Char.isDigit, Bool.and_eq_true, decide_eq_true_eq] at hc
      exact if_pos ⟨hc.1, hc.2⟩
    rw [decimalDigits, if_neg (digit_ne hc rfl), hdigit]
    exact ih (fun d hd => hn d (List.mem_cons_of_mem c hd)) _ true (.inr rfl)

theorem not_space_of_digit : ∀ c ∈ n, PyInt.isSpace c = false ∧ Ts.numberSpace c = false := by
  intro c hc
  obtain ⟨hlow, hhigh⟩ := isDigit_bounds (hn c hc)
  have hblank : c ≠ ' ' := digit_ne (hn c hc) rfl
  have hspace : PyInt.isSpace c = false := by
    simp only [PyInt.isSpace, hblank, decide_false, Bool.false_or, Bool.and_eq_false_iff,
      decide_eq_false_iff_not]
    omega
  refine ⟨hspace, ?_⟩
  simp only [Ts.numberSpace, hspace, Bool.false_or, decide_eq_false_iff_not, List.mem_cons,
    List.not_mem_nil, or_false]
  omega

theorem int_digits (hne : n ≠ []) (hlength : n.length ≤ maxDigits) : int n = some (Ts.natOf n : Int) := by
  have hascii : (n.all fun c => c.toNat < 128) = true := by
    rw [List.all_eq_true]
    intro c hc
    have := isDigit_bounds (hn c hc)
    simp only [decide_eq_true_eq]
    omega
  have hmagnitude : magnitude n = some (Ts.natOf n) := by
    have hplain : n.filter (· ≠ '_') = n := by
      rw [List.filter_eq_self]
      intro c hc
      exact decide_eq_true (digit_ne (hn c hc) rfl)
    rw [magnitude, hplain, if_neg (not_lt.mpr hlength), decimalDigits_eq hn 0 false (.inl hne)]
    rfl
  unfold int
  dsimp only
  rw [if_pos hascii, trim_of_none fun c hc => (not_space_of_digit hn c hc).1]
  obtain ⟨c, cs, rfl⟩ := List.exists_cons_of_ne_nil hne
  have hc := hn c List.mem_cons_self
  split
  case h_1 h => exact absurd (List.cons.inj h).1 (digit_ne hc rfl)
  case h_2 h => exact absurd (List.cons.inj h).1 (digit_ne hc rfl)
  case h_3 => rw [hmagnitude]; rfl

theorem decimalZero_digits (rest : Text) (hrest : ∀ c ∈ rest.head?, c = '/') :
    Ts.decimalZero (n ++ rest) = (match Ts.exponentOf rest with
      | none => false
      | some e => decide (n ≠ []) && (decide (Ts.natOf n = 0) ||
          (decide (e < 0) && decide (Ts.natOf n * Ts.underflow ≤ 10 ^ e.natAbs)))) := by
  have hstop : (n ++ rest).takeWhile Char.isDigit = n ∧ (n ++ rest).dropWhile Char.isDigit = rest ∧
      Ts.fractionOf rest = ([], rest) := by
    rw [List.takeWhile_append_of_pos hn, List.dropWhile_append_of_pos hn]
    cases rest with
    | nil => simp [Ts.fractionOf]
    | cons c rest =>
      obtain rfl := hrest c rfl
      simp [Ts.fractionOf, List.takeWhile_cons_of_neg, List.dropWhile_cons_of_neg]
  obtain ⟨htake, hdrop, hfraction⟩ := hstop
  unfold Ts.decimalZero
  cases hexponent : Ts.exponentOf rest <;>
    simp only [htake, hdrop, hfraction, hexponent, List.append_nil, List.length_nil, Nat.cast_zero, sub_zero]

theorem numberIsZero_eq (hne : n ≠ []) {text rest : Text} (htrim : trim Ts.numberSpace text = n ++ rest)
    (hrest : ∀ c ∈ rest.head?, c = '/') : Ts.numberIsZero text = Ts.decimalZero (n ++ rest) := by
  unfold Ts.numberIsZero
  rw [htrim]
  obtain ⟨c, cs, rfl⟩ := List.exists_cons_of_ne_nil hne
  have hc := hn c List.mem_cons_self
  have hsign : ¬ (c = '+' ∨ c = '-') := by
    rintro (h | h) <;> exact digit_ne hc rfl h
  simp only [List.cons_append, if_neg hsign]
  split
  case h_1 _ x ds hx =>
    -- what follows a leading zero is another digit or the slash
    have hx' : ∀ d : Char, d.isDigit = false → d ≠ '/' → x ≠ d := by
      intro d hd hslash
      cases cs with
      | nil =>
        have hhead : rest.head? = some x := by
          rw [List.nil_append] at hx
          rw [hx]
          rfl
        rw [hrest x hhead]
        exact Ne.symm hslash
      | cons y cs =>
        obtain ⟨rfl, -⟩ := List.cons.inj hx
        exact digit_ne (hn y (by simp)) hd
    have hnot : ∀ d d' : Char, d.isDigit = false → d ≠ '/' → d'.isDigit = false → d' ≠ '/' →
        ¬ (x = d ∨ x = d') := by
      intro d d' hd hd' he he'
      rintro (h | h)
      · exact hx' d hd hd' h
      · exact hx' d' he he' h
    rw [if_neg (hnot 'x' 'X' rfl (by decide) rfl (by decide)), if_neg (hnot 'o' 'O' rfl (by decide) rfl (by decide)),
      if_neg (hnot 'b' 'B' rfl (by decide) rfl (by decide))]
  case h_2 => rfl

end Digits

theorem plainPort_agree {port : Text} (h : PlainPort port) :
    ∃ n : Int, int ((port.splitOn '/').headD []) = some n ∧ (Ts.numberIsZero port = true ↔ n = 0) := by
  obtain ⟨hne, hdigits, hlength, hslash⟩ := h
  rw [headD_splitOn]
  have hsplit := List.takeWhile_append_dropWhile (p := (· ≠ '/')) (l := port)
  generalize hn : port.takeWhile (· ≠ '/') = n at hne hdigits hlength hslash hsplit
  refine ⟨_, int_digits hdigits hne hlength, ?_⟩
  cases hrest : port.dropWhile (· ≠ '/') with
  | nil =>
    rw [hrest, List.append_nil] at hsplit
    have htrim : trim Ts.numberSpace port = n ++ [] := by
      rw [← hsplit, List.append_nil]
      exact trim_of_none fun c hc => (not_space_of_digit hdigits c hc).2
    rw [numberIsZero_eq hdigits hne htrim (by simp), decimalZero_digits hdigits [] (by simp)]
    simp [Ts.exponentOf, hne]
  | cons c rest =>
    have hc : c = '/' := by
      have hhead := List.head?_dropWhile_not (fun d : Char => decide (d ≠ '/')) port
      rw [hrest] at hhead
      simpa using hhead
    subst hc
    rw [hrest] at hsplit
    have hmem : '/' ∈ port := by
      rw [← hsplit]
      simp
    obtain ⟨rest', htrim⟩ := trim_append_cons (p := Ts.numberSpace) (n := n) (c := '/')
      (fun c hc => (not_space_of_digit hdigits c hc).2) rfl rest
    rw [hsplit] at htrim
    rw [numberIsZero_eq hdigits hne htrim (by simp), decimalZero_digits hdigits _ (by simp)]
    have hexponent : Ts.exponentOf ('/' :: rest') = none := by simp [Ts.exponentOf]
    rw [hexponent]
    obtain ⟨d, hd, hnonzero⟩ := hslash hmem
    have hpos : Ts.natOf n ≠ 0 := fun h0 => hnonzero ((natOf_eq_zero hdigits).mp h0 d hd)
    simpa using hpos

/-! ## Reading -/

/-- What follows `m=`. -/
def mediaOf : Text → Option Text
  | 'm' :: '=' :: val => some val
  | _ => none

theorem mediaOf_eq_some {l val : Text} : mediaOf l = some val ↔ l = 'm' :: '=' :: val := by
  unfold mediaOf
  split
  case h_1 => simp
  case h_2 hno => exact iff_of_false (fun h => by cases h) (hno val)

/-- The port of an `m=` line that has one. -/
def portOf (val : Text) : Option Text :=
  match val.splitOn ' ' with
  | _ :: port :: _ :: _ => some port
  | _ => none

/-- A text that both parsers read the same way. Its first line is `v=0`; every
line that is not empty starts `x=` and has no white space at its ends; the words of
an `m=` line stand between single blanks, and its port is plain; and there is an
`m=` line. -/
structure Regular (text : Text) : Prop where
  first : (Ts.splitLines text).head? = some "v=0".toList
  lines : ∀ l ∈ Ts.splitLines text, l ≠ [] → Ts.wellFormed l = true ∧ strip l = l
  words : ∀ l ∈ Ts.splitLines text, ∀ val ∈ mediaOf l, words val = val.splitOn ' '
  ports : ∀ l ∈ Ts.splitLines text, ∀ val ∈ mediaOf l, ∀ port ∈ portOf val, PlainPort port
  media : ∃ l ∈ Ts.splitLines text, (mediaOf l).isSome = true

instance (port : Text) : Decidable (PlainPort port) := inferInstanceAs (Decidable (_ ∧ _ ∧ _ ∧ _))

instance (text : Text) : Decidable (Regular text) :=
  decidable_of_iff (_ ∧ _ ∧ _ ∧ _ ∧ _)
    ⟨fun ⟨h₁, h₂, h₃, h₄, h₅⟩ => ⟨h₁, h₂, h₃, h₄, h₅⟩, fun ⟨h₁, h₂, h₃, h₄, h₅⟩ => ⟨h₁, h₂, h₃, h₄, h₅⟩⟩

/-- The same section, as either parser keeps it. -/
structure SameSection (p : Section) (t : Ts.Section) : Prop where
  kind : p.kind = t.kind
  protocol : p.protocol = t.proto
  attrs : p.attrs = t.attributes.map attrOf
  port : Ts.numberIsZero t.port = true ↔ p.port = 0

structure SameSdp (p : Sdp) (t : Ts.Sdp) : Prop where
  session : p.sessionAttrs = t.session.map attrOf
  sections : List.Forall₂ SameSection p.sections t.sections

section Read

variable {p : Sdp} {t : Ts.Sdp} {text : Text}

theorem forall₂_modifyLast {α β : Type} {R : α → β → Prop} {f : α → α} {g : β → β}
    (hfg : ∀ a b, R a b → R (f a) (g b)) {l : List α} {l' : List β} (h : List.Forall₂ R l l') :
    List.Forall₂ R (l.modifyLast f) (l'.modifyLast g) := by
  rcases List.eq_nil_or_concat l with rfl | ⟨init, a, rfl⟩
  · rw [List.forall₂_nil_left_iff] at h
    subst h
    exact .nil
  · rcases List.eq_nil_or_concat l' with rfl | ⟨init', b, rfl⟩
    · rw [List.forall₂_nil_right_iff] at h
      simp at h
    · rw [← List.forall₂_reverse_iff] at h
      simp only [List.concat_eq_append, List.reverse_append, List.reverse_singleton, List.singleton_append,
        List.forall₂_cons, List.forall₂_reverse_iff] at h
      simp only [List.concat_eq_append, List.modifyLast_concat]
      exact List.rel_append h.2 (.cons (hfg a b h.1) .nil)

theorem SameSdp.addAttr (h : SameSdp p t) (val : Text) :
    SameSdp (p.addAttr (attrOf val)) (t.addAttribute val) := by
  obtain ⟨hsession, hsections⟩ := h
  have hnil : p.sections = [] ↔ t.sections = [] := by
    rw [← List.length_eq_zero_iff, ← List.length_eq_zero_iff, hsections.length_eq]
  unfold Sdp.addAttr Ts.Sdp.addAttribute
  by_cases ht : t.sections = []
  · rw [if_pos ht, if_pos (hnil.mpr ht)]
    exact ⟨by simp [hsession], hsections⟩
  · rw [if_neg ht, if_neg fun hp => ht (hnil.mp hp)]
    refine ⟨hsession, forall₂_modifyLast ?_ hsections⟩
    intro a b hab
    exact ⟨hab.kind, hab.protocol, by simp [hab.attrs], hab.port⟩

/-- The lines that are read the same way. -/
structure Line (l : Text) : Prop where
  shape : l ≠ [] → Ts.wellFormed l = true
  bare : strip l = l
  words : ∀ val ∈ mediaOf l, words val = val.splitOn ' '
  ports : ∀ val ∈ mediaOf l, ∀ port ∈ portOf val, PlainPort port

theorem SameSdp.addSection (h : SameSdp p t) {val : Text} (hl : Line ('m' :: '=' :: val)) :
    Option.Rel SameSdp (p.addSection val) (t.addSection val) := by
  unfold Sdp.addSection Ts.Sdp.addSection
  rw [hl.words val rfl]
  have hports := hl.ports val rfl
  unfold portOf at hports
  generalize val.splitOn ' ' = ws at hports ⊢
  match ws with
  | [] | [_] | [_, _] => exact .none
  | kind :: port :: protocol :: rest =>
    obtain ⟨n, hint, hzero⟩ := plainPort_agree (hports port rfl)
    dsimp only
    rw [hint]
    exact .some ⟨h.session, List.rel_append h.sections (.cons ⟨rfl, rfl, rfl, hzero⟩ .nil)⟩

theorem SameSdp.addLine (h : SameSdp p t) {l : Text} (hl : Line l) :
    Option.Rel SameSdp (p.addLine l) (t.addLine l) := by
  unfold Sdp.addLine
  rw [hl.bare]
  split
  case h_1 => exact h.addSection hl
  case h_2 val => exact .some (h.addAttr val)
  case h_3 hm ha =>
    unfold Ts.Sdp.addLine
    split
    case h_1 val => exact absurd rfl (hm val)
    case h_2 val => exact absurd rfl (ha val)
    case h_3 => exact .some h

theorem SameSdp.addLines {ls : List Text} (hls : ∀ l ∈ ls, Line l) : ∀ {p : Sdp} {t : Ts.Sdp}, SameSdp p t →
      Option.Rel SameSdp (ls.foldlM Sdp.addLine p) ((ls.filter (· ≠ [])).foldlM Ts.Sdp.addLine t) := by
  induction ls with
  | nil => exact fun h => .some h
  | cons l ls ih =>
    intro p t h
    have hl := hls l List.mem_cons_self
    have hrest := @ih fun l' hl' => hls l' (List.mem_cons_of_mem l hl')
    rw [List.foldlM_cons]
    by_cases hne : l = []
    · subst hne
      rw [List.filter_cons_of_neg (by simp)]
      exact hrest h
    · rw [List.filter_cons_of_pos (by simpa using hne), List.foldlM_cons]
      have hstep := h.addLine hl
      generalize p.addLine l = p', t.addLine l = t' at hstep
      cases hstep with
      | none => exact .none
      | some hsame => exact hrest hsame

theorem addLine_sections {l : Text} {t' : Ts.Sdp} (h : t.addLine l = some t')
    (hm : t.sections ≠ [] ∨ ∃ val, l = 'm' :: '=' :: val) : t'.sections ≠ [] := by
  unfold Ts.Sdp.addLine at h
  split at h
  case h_1 val =>
    unfold Ts.Sdp.addSection at h
    split at h
    case h_1 =>
      obtain rfl := Option.some.inj h
      simp
    case h_2 => cases h
  case h_2 val =>
    obtain rfl := Option.some.inj h
    have ht : t.sections ≠ [] := hm.resolve_right (by simp)
    unfold Ts.Sdp.addAttribute
    rw [if_neg ht]
    intro hnil
    rcases List.eq_nil_or_concat t.sections with hnil' | ⟨init, last, hlast⟩
    · exact ht hnil'
    · rw [hlast, List.concat_eq_append, List.modifyLast_concat] at hnil
      simp at hnil
  case h_3 hno _ =>
    obtain rfl := Option.some.inj h
    exact hm.resolve_right fun ⟨val, hval⟩ => hno val hval

theorem addLines_sections {ls : List Text} : ∀ {t t' : Ts.Sdp}, ls.foldlM Ts.Sdp.addLine t = some t' →
    (t.sections ≠ [] ∨ ∃ val, 'm' :: '=' :: val ∈ ls) → t'.sections ≠ [] := by
  induction ls with
  | nil =>
    intro t t' h hm
    obtain rfl := Option.some.inj h
    exact hm.resolve_right fun ⟨_, hval⟩ => by cases hval
  | cons l ls ih =>
    intro t t' h hm
    rw [List.foldlM_cons] at h
    obtain ⟨t₁, ht₁, hrest⟩ := Option.bind_eq_some_iff.mp h
    by_cases hfirst : t.sections ≠ [] ∨ ∃ val, l = 'm' :: '=' :: val
    · exact ih hrest (.inl (addLine_sections ht₁ hfirst))
    · refine ih hrest (.inr ?_)
      rw [not_or] at hfirst
      obtain ⟨val, hval⟩ := hm.resolve_left hfirst.1
      refine ⟨val, (List.mem_cons.mp hval).resolve_left fun hl => hfirst.2 ⟨val, hl.symm⟩⟩

theorem Regular.line (h : Regular text) {l : Text} (hl : l ∈ Ts.splitLines text) : Line l where
  shape hne := (h.lines l hl hne).1
  bare := by
    by_cases hne : l = []
    · rw [hne]
      rfl
    · exact (h.lines l hl hne).2
  words := h.words l hl
  ports := h.ports l hl

theorem Regular.read (h : Regular text) :
    Option.Rel (fun p t => SameSdp p t) (parseSdp text) (Ts.parseSdp text) := by
  have hstart : SameSdp ⟨[], []⟩ ⟨[], []⟩ := ⟨rfl, .nil⟩
  have hlines := hstart.addLines fun l hl => h.line hl
  have hstarts : "v=0".toList.isPrefixOf text = true :=
    List.isPrefixOf_iff_prefix.mpr (isPrefix_of_first h.first)
  have hfirst : ((Ts.splitLines text).filter (· ≠ [])).head? = some "v=0".toList := by
    have hhead := h.first
    obtain ⟨l, ls, hls⟩ : ∃ l ls, Ts.splitLines text = l :: ls := by
      cases hls : Ts.splitLines text with
      | nil => rw [hls] at hhead; cases hhead
      | cons l ls => exact ⟨l, ls, rfl⟩
    rw [hls] at hhead ⊢
    obtain rfl := Option.some.inj hhead
    rw [List.filter_cons_of_pos (by decide)]
    rfl
  have hall : ((Ts.splitLines text).filter (· ≠ [])).all Ts.wellFormed = true := by
    rw [List.all_eq_true]
    intro l hl
    obtain ⟨hmem, hne⟩ := List.mem_filter.mp hl
    exact (h.line hmem).shape (by simpa using hne)
  unfold parseSdp Ts.parseSdp
  dsimp only
  have hread : ¬ (((Ts.splitLines text).filter (· ≠ [])).head? ≠ some "v=0".toList ∨
      ((Ts.splitLines text).filter (· ≠ [])).all Ts.wellFormed = false) := by
    rw [hfirst, hall]
    simp
  rw [if_pos hstarts, splitOn_replaceCrlf, if_neg hread]
  have hmedia : ∃ val, 'm' :: '=' :: val ∈ (Ts.splitLines text).filter (· ≠ []) := by
    obtain ⟨l, hl, hmedia⟩ := h.media
    obtain ⟨val, hval⟩ := Option.isSome_iff_exists.mp hmedia
    obtain rfl := mediaOf_eq_some.mp hval
    exact ⟨val, List.mem_filter.mpr ⟨hl, by simp⟩⟩
  generalize ht : ((Ts.splitLines text).filter (· ≠ [])).foldlM Ts.Sdp.addLine ⟨[], []⟩ = t at hlines ⊢
  generalize (Ts.splitLines text).foldlM Sdp.addLine ⟨[], []⟩ = p at hlines ⊢
  cases hlines with
  | none => exact .none
  | some hsame =>
    dsimp only
    rw [if_neg (addLines_sections ht (.inr hmedia))]
    exact .some hsame

end Read

/-! ## Attributes -/

section Attributes

variable {name a : Text} {l : List Text}

theorem filter_named {as : List Attr} {b : Attr} (h : b.1 = name) :
    (b :: as).filter (·.1 = name) = b :: as.filter (·.1 = name) :=
  List.filter_cons_of_pos (decide_eq_true h)

theorem filter_other {as : List Attr} {b : Attr} (h : b.1 ≠ name) :
    (b :: as).filter (·.1 = name) = as.filter (·.1 = name) :=
  List.filter_cons_of_neg fun hd => h (of_decide_eq_true hd)

theorem attrOf_eq_none_iff : (attrOf a).2 = none ↔ ':' ∉ a := by
  unfold attrOf
  by_cases h : ':' ∈ a <;> simp [h]

theorem attrOf_of_not_mem (h : ':' ∉ a) : attrOf a = (a, none) := by
  have hall : ∀ c ∈ a, decide (c ≠ ':') = true := by
    intro c hc
    rw [decide_eq_true_eq]
    rintro rfl
    exact h hc
  have hname : a.takeWhile (· ≠ ':') = a := by
    have happend : (a ++ []).takeWhile (fun c => decide (c ≠ ':')) = a ++ [].takeWhile _ :=
      List.takeWhile_append_of_pos hall
    simpa using happend
  unfold attrOf
  rw [hname, if_neg h]

theorem attrOf_append (h : ':' ∉ name) (v : Text) : attrOf (name ++ ':' :: v) = (name, some v) := by
  have hall : ∀ c ∈ name, decide (c ≠ ':') = true := by
    intro c hc
    rw [decide_eq_true_eq]
    rintro rfl
    exact h hc
  unfold attrOf
  rw [List.takeWhile_append_of_pos hall, List.dropWhile_append_of_pos hall]
  simp

theorem attr_cases (a : Text) : ':' ∉ a ∨ ∃ name v, ':' ∉ name ∧ a = name ++ ':' :: v := by
  by_cases h : ':' ∈ a
  · right
    obtain ⟨name, v, ha, hname⟩ := List.eq_append_cons_of_mem h
    exact ⟨name, v, hname, ha⟩
  · exact .inl h

theorem names_append {other : Text} (hname : ':' ∉ name) (hother : ':' ∉ other) (v : Text) :
    Ts.names name (other ++ ':' :: v) = true ↔ other = name := by
  unfold Ts.names
  rw [Bool.or_eq_true, decide_eq_true_eq, List.isPrefixOf_iff_prefix]
  constructor
  · rintro (h | h)
    · exact absurd (h ▸ hname) (by simp)
    · have hfirst := congrArg Prod.fst (attrOf_append hother v)
      obtain ⟨rest, hrest⟩ := h
      rw [← hrest, List.append_assoc, List.singleton_append, attrOf_append hname] at hfirst
      exact hfirst.symm
  · rintro rfl
    exact .inr ⟨v, by simp⟩

theorem names_of_not_mem (h : ':' ∉ a) : Ts.names name a = true ↔ a = name := by
  unfold Ts.names
  rw [Bool.or_eq_true, decide_eq_true_eq, List.isPrefixOf_iff_prefix]
  constructor
  · rintro (ha | ⟨rest, hrest⟩)
    · exact ha
    · exact absurd (hrest ▸ h) (by simp)
  · exact .inl

theorem attrOf_name_iff (hname : ':' ∉ name) : (attrOf a).1 = name ↔ Ts.names name a = true := by
  rcases attr_cases a with h | ⟨other, v, hother, rfl⟩
  · rw [attrOf_of_not_mem h, names_of_not_mem h]
  · rw [attrOf_append hother, names_append hname hother]

theorem mem_map_attrOf (hname : ':' ∉ name) : (name, none) ∈ l.map attrOf ↔ name ∈ l := by
  rw [List.mem_map]
  constructor
  · rintro ⟨a, ha, heq⟩
    have hnone : ':' ∉ a := attrOf_eq_none_iff.mp (congrArg Prod.snd heq)
    rw [attrOf_of_not_mem hnone] at heq
    obtain ⟨rfl, -⟩ := Prod.mk.inj heq
    exact ha
  · exact fun h => ⟨name, h, attrOf_of_not_mem hname⟩

theorem attrOf_value (hname : ':' ∉ name) (hvalued : name ∉ l) (ha : a ∈ l) (h : Ts.names name a = true) :
    (attrOf a).2 = some (a.drop (name.length + 1)) := by
  rcases attr_cases a with hno | ⟨other, v, hother, rfl⟩
  · rw [names_of_not_mem hno] at h
    exact absurd (h ▸ ha) hvalued
  · obtain rfl := (names_append hname hother v).mp h
    rw [attrOf_append hname]
    simp

theorem head?_values (hname : ':' ∉ name) (hvalued : name ∉ l) :
    (((l.map attrOf).filter (·.1 = name)).filterMap (·.2)).head? =
      (l.find? (Ts.names name)).map (·.drop (name.length + 1)) := by
  induction l with
  | nil => rfl
  | cons a l ih =>
    have hrest := ih fun h => hvalued (List.mem_cons_of_mem a h)
    rw [List.map_cons, List.find?_cons]
    by_cases hn : Ts.names name a = true
    · have hvalue := attrOf_value hname hvalued List.mem_cons_self hn
      rw [filter_named ((attrOf_name_iff hname).mpr hn), hn, List.filterMap_cons_some hvalue]
      rfl
    · have hno : ¬ (attrOf a).1 = name := fun h => hn ((attrOf_name_iff hname).mp h)
      rw [filter_other hno, hrest]
      simp only [Bool.not_eq_true] at hn
      rw [hn]

theorem find?_value (hname : ':' ∉ name) (hvalued : name ∉ l) :
    ((l.map attrOf).find? (·.1 = name)).bind (·.2) =
      (l.find? (Ts.names name)).map (·.drop (name.length + 1)) := by
  induction l with
  | nil => rfl
  | cons a l ih =>
    have hrest := ih fun h => hvalued (List.mem_cons_of_mem a h)
    rw [List.map_cons, List.find?_cons, List.find?_cons]
    by_cases hn : Ts.names name a = true
    · have hvalue := attrOf_value hname hvalued List.mem_cons_self hn
      rw [hn, decide_eq_true ((attrOf_name_iff hname).mpr hn)]
      exact hvalue
    · have hno : ¬ (attrOf a).1 = name := fun h => hn ((attrOf_name_iff hname).mp h)
      rw [decide_eq_false hno]
      simp only [Bool.not_eq_true] at hn
      rw [hn]
      exact hrest

/-- All directions among the attributes are the same. -/
def OneDirection (attrs : List Attr) : Prop :=
  ∀ d ∈ directions, ∀ d' ∈ directions, (d, none) ∈ attrs → (d', none) ∈ attrs → d = d'

instance (attrs : List Attr) : Decidable (OneDirection attrs) :=
  inferInstanceAs (Decidable (∀ d ∈ directions, ∀ d' ∈ directions, _))

theorem colon_not_mem_directions : ∀ d ∈ directions, ':' ∉ d := by decide

theorem directionOf_eq (h : OneDirection (l.map attrOf)) :
    directionOf (l.map attrOf) = directions.find? (· ∈ l) := by
  have hbare : ∀ a, ((attrOf a).1 ∈ directions ∧ (attrOf a).2 = none) ↔ a ∈ directions := by
    intro a
    constructor
    · rintro ⟨hd, hnone⟩
      rw [attrOf_of_not_mem (attrOf_eq_none_iff.mp hnone)] at hd
      exact hd
    · intro hd
      rw [attrOf_of_not_mem (colon_not_mem_directions a hd)]
      exact ⟨hd, rfl⟩
  have hfind : directionOf (l.map attrOf) = l.find? (· ∈ directions) := by
    unfold directionOf
    induction l with
    | nil => rfl
    | cons a l ih =>
      rw [List.map_cons, List.find?_cons, List.find?_cons]
      by_cases hd : a ∈ directions
      · obtain ⟨hmem, hnone⟩ := (hbare a).mpr hd
        simp only [hmem, hnone, hd, decide_true, Bool.and_self, Option.map_some]
        rw [attrOf_of_not_mem (attrOf_eq_none_iff.mp hnone)]
      · have hno : ¬ ((attrOf a).1 ∈ directions ∧ (attrOf a).2 = none) := fun h => hd ((hbare a).mp h)
        rw [← Bool.decide_and, decide_eq_false hno, decide_eq_false hd]
        refine ih fun d hd d' hd' hmem hmem' => h d hd d' hd' ?_ ?_
        · exact List.mem_cons_of_mem _ hmem
        · exact List.mem_cons_of_mem _ hmem'
  rw [hfind]
  cases hl : l.find? (· ∈ directions) with
  | none =>
    rw [List.find?_eq_none] at hl
    symm
    rw [List.find?_eq_none]
    intro d hd hmem
    exact hl d (by simpa using hmem) (by simpa using hd)
  | some d =>
    have hd : d ∈ directions := by simpa using List.find?_some hl
    have hdl := List.mem_of_find?_eq_some hl
    cases hdir : directions.find? (· ∈ l) with
    | none =>
      rw [List.find?_eq_none] at hdir
      exact absurd hdl (by simpa using hdir d hd)
    | some d' =>
      have hd' := List.mem_of_find?_eq_some hdir
      have hdl' : d' ∈ l := by simpa using List.find?_some hdir
      have hmem := (mem_map_attrOf (colon_not_mem_directions d hd)).mpr hdl
      have hmem' := (mem_map_attrOf (colon_not_mem_directions d' hd')).mpr hdl'
      rw [h d hd d' hd' hmem hmem']

end Attributes

/-! ## Codecs -/

/-- The second word of a value, lowered. -/
def secondWord (v : Text) : Option Text := ((v.splitOn ' ')[1]?).map lower

/-- An encoding is among the `rtpmap` lines as TypeScript maps it if it is there at
all; one it does not map is there. -/
def SpokenOf (s : Section) (name : Text) : Option Text → Prop
  | some mapped => lower name ∈ s.encodings →
      some (lower mapped) ∈ (s.values "rtpmap".toList).map secondWord
  | none => lower name ∈ s.encodings

/-- The `rtpmap` lines of a section speak of a codec as both bindings expect: one
that TypeScript maps is there with its clock rate if its encoding is there, and one
that only Python maps is there. -/
def PlainCodec (s : Section) (codec : Text) : Prop :=
  ∀ name ∈ codecEncoding.lookup codec, SpokenOf s name (Ts.rtpmap.lookup codec)

instance (s : Section) (name : Text) : ∀ mapped, Decidable (SpokenOf s name mapped)
  | some _ => inferInstanceAs (Decidable (_ → _))
  | none => inferInstanceAs (Decidable (_ ∈ _))

instance (s : Section) (codec : Text) : Decidable (PlainCodec s codec) :=
  inferInstanceAs (Decidable (∀ name ∈ _, _))

section Codecs

theorem toLower_eq_slash (c : Char) : c.toLower = '/' ↔ c = '/' := by
  constructor
  · intro h
    unfold Char.toLower at h
    split at h
    case isTrue hupper =>
      -- no letter is lowered to a slash
      obtain ⟨hlow, hhigh⟩ := hupper
      have hval := congrArg (fun c : Char => c.val.toNat) h
      simp only [UInt32.toNat_add] at hval
      have hlow' : 65 ≤ c.val.toNat := hlow
      have hhigh' : c.val.toNat ≤ 90 := hhigh
      have hshift : ('a'.val - 'A'.val).toNat = 32 := rfl
      have hslash : ('/' : Char).val.toNat = 47 := rfl
      omega
    case isFalse => exact h
  · rintro rfl
    rfl

theorem lower_takeWhile (w : Text) : lower (w.takeWhile (· ≠ '/')) = (lower w).takeWhile (· ≠ '/') := by
  induction w with
  | nil => rfl
  | cons c w ih =>
    have hc := toLower_eq_slash c
    unfold lower at ih ⊢
    by_cases hslash : c = '/'
    · subst hslash
      rfl
    · rw [List.takeWhile_cons_of_pos (by simpa using hslash), List.map_cons, List.map_cons, ih,
        List.takeWhile_cons_of_pos (by simpa using fun h => hslash (hc.mp h))]

theorem splitOn_two {v w₀ w₁ : Text} {ws : List Text} (h : v.splitOn ' ' = w₀ :: w₁ :: ws) :
    ∃ r, ' ' ∈ v ∧ (v.dropWhile (· ≠ ' ')).drop 1 = r ∧ r.splitOn ' ' = w₁ :: ws := by
  induction v generalizing w₀ with
  | nil => cases h
  | cons c v ih =>
    rw [List.splitOn_cons_eq_if_modifyHead] at h
    by_cases hc : c = ' '
    · subst hc
      rw [if_pos (by rfl)] at h
      obtain ⟨-, hrest⟩ := List.cons.inj h
      exact ⟨v, List.mem_cons_self, rfl, hrest⟩
    · rw [if_neg (by simpa using hc)] at h
      obtain ⟨u, us, hus⟩ := List.exists_cons_of_ne_nil (List.splitOn_ne_nil ' ' v)
      rw [hus, List.modifyHead_cons] at h
      obtain ⟨-, hrest⟩ := List.cons.inj h
      rw [hrest] at hus
      obtain ⟨r, hmem, hdrop, hsplit⟩ := ih hus
      refine ⟨r, List.mem_cons_of_mem c hmem, ?_, hsplit⟩
      rw [List.dropWhile_cons_of_pos (by simpa using hc)]
      exact hdrop

theorem encodingOf_secondWord {v w : Text} (h : secondWord v = some w) (hslash : '/' ∈ w) :
    encodingOf v = some (w.takeWhile (· ≠ '/')) := by
  obtain ⟨w₁, hw₁, rfl⟩ := Option.map_eq_some_iff.mp h
  obtain ⟨w₀, ws, hws⟩ : ∃ w₀ ws, v.splitOn ' ' = w₀ :: w₁ :: ws := by
    cases hv : v.splitOn ' ' with
    | nil => rw [hv] at hw₁; cases hw₁
    | cons w₀ rest =>
      rw [hv] at hw₁
      cases rest with
      | nil => cases hw₁
      | cons w' ws =>
        obtain rfl := Option.some.inj hw₁
        exact ⟨w₀, ws, rfl⟩
  obtain ⟨r, hmem, rfl, hsplit⟩ := splitOn_two hws
  have hw : w₁ = ((v.dropWhile (· ≠ ' ')).drop 1).takeWhile (· ≠ ' ') := by
    rw [← headD_splitOn, hsplit]
    rfl
  have hin : '/' ∈ w₁ := by
    obtain ⟨c, hc, hlow⟩ := List.mem_map.mp hslash
    rwa [(toLower_eq_slash c).mp hlow] at hc
  unfold encodingOf
  rw [if_pos hmem, headD_splitOn, ← lower_takeWhile]
  generalize (v.dropWhile (· ≠ ' ')).drop 1 = r at hw
  have htake : r.takeWhile (· ≠ '/') = w₁.takeWhile (· ≠ '/') := by
    conv_lhs => rw [← List.takeWhile_append_dropWhile (p := (· ≠ ' ')) (l := r), ← hw]
    rw [List.takeWhile_append, if_neg]
    intro hall
    have hself : w₁.takeWhile (· ≠ '/') = w₁ := (List.takeWhile_prefix _).eq_of_length hall
    have hno := List.all_eq_true.mp (List.all_takeWhile (p := (· ≠ '/')) (l := w₁)) '/' (hself.symm ▸ hin)
    simp at hno
  rw [htake]

theorem rtpmap_named : ∀ e ∈ Ts.rtpmap, '/' ∈ lower e.2 ∧
    ∃ name ∈ codecEncoding.lookup e.1, lower name = (lower e.2).takeWhile (· ≠ '/') := by
  decide

theorem mem_of_lookup {α β : Type} [BEq α] [LawfulBEq α] {l : List (α × β)} {a : α} {b : β}
    (h : l.lookup a = some b) : (a, b) ∈ l := by
  induction l with
  | nil => cases h
  | cons e l ih =>
    obtain ⟨a', b'⟩ := e
    rw [List.lookup_cons] at h
    split at h
    case h_1 heq =>
      obtain rfl := Option.some.inj h
      rw [eq_of_beq heq]
      exact List.mem_cons_self
    case h_2 => exact List.mem_cons_of_mem _ (ih h)

theorem mem_encodings {s : Section} {name : Text} :
    name ∈ s.encodings ↔ ∃ v ∈ s.values "rtpmap".toList, encodingOf v = some name :=
  List.mem_filterMap

theorem rtpmaps_eq {s : Section} {t : Ts.Section} (h : s.attrs = t.attributes.map attrOf) :
    Ts.rtpmaps t = (s.values "rtpmap".toList).map secondWord := by
  unfold Ts.rtpmaps Section.values
  rw [h]
  generalize t.attributes = l
  have hname : ':' ∉ "rtpmap".toList := by decide
  induction l with
  | nil => rfl
  | cons a l ih =>
    rw [List.map_cons]
    rcases attr_cases a with hno | ⟨other, v, hother, rfl⟩
    · have hstarts : "rtpmap:".toList.isPrefixOf a = false := by
        rw [Bool.eq_false_iff]
        intro hp
        obtain ⟨rest, hrest⟩ := List.isPrefixOf_iff_prefix.mp hp
        exact hno (hrest ▸ by simp)
      rw [List.filter_cons_of_neg (by rw [hstarts]; exact Bool.false_ne_true), ih, attrOf_of_not_mem hno]
      by_cases ha : a = "rtpmap".toList
      · rw [filter_named ha]
        rfl
      · rw [filter_other ha]
    · have hstarts : "rtpmap:".toList.isPrefixOf (other ++ ':' :: v) = true ↔ other = "rtpmap".toList := by
        rw [← names_append hname hother v, Ts.names, Bool.or_eq_true, decide_eq_true_eq]
        refine ⟨.inr, fun hn => hn.resolve_left fun heq => hname ?_⟩
        rw [← heq]
        simp
      rw [attrOf_append hother]
      by_cases ho : other = "rtpmap".toList
      · rw [List.filter_cons_of_pos (hstarts.mpr ho), filter_named ho, List.map_cons, ih]
        subst ho
        refine congrArg (· :: _) ?_
        -- the first word holds the name, the second is the value's
        unfold secondWord
        have hsplit : ("rtpmap".toList ++ ':' :: v).splitOn ' ' =
            (v.splitOn ' ').modifyHead ("rtpmap:".toList ++ ·) := by
          obtain ⟨w, ws, hws⟩ := List.exists_cons_of_ne_nil (List.splitOn_ne_nil ' ' v)
          simp [List.splitOn_cons_eq_if_modifyHead, hws]
        rw [hsplit]
        obtain ⟨w, ws, hws⟩ := List.exists_cons_of_ne_nil (List.splitOn_ne_nil ' ' v)
        rw [hws]
        rfl
      · rw [List.filter_cons_of_neg fun hp => ho (hstarts.mp hp), ih, filter_other ho]

theorem codecMissing_eq {s : Section} {t : Ts.Section} (h : s.attrs = t.attributes.map attrOf)
    {codec : Text} (hp : PlainCodec s codec) : codecMissing s codec = Ts.codecMissing t codec := by
  unfold codecMissing Ts.codecMissing
  rw [rtpmaps_eq h]
  cases hts : Ts.rtpmap.lookup codec with
  | none =>
    cases hpy : codecEncoding.lookup codec with
    | none => rfl
    | some name =>
      have hplain : SpokenOf s name none := hts ▸ hp name hpy
      unfold SpokenOf at hplain
      simp [hplain]
  | some mapped =>
    obtain ⟨hslash, name, hname, hlower⟩ := rtpmap_named _ (mem_of_lookup hts)
    have hplain : SpokenOf s name (some mapped) := hts ▸ hp name hname
    dsimp only at hname
    rw [hname]
    have hback : some (lower mapped) ∈ (s.values "rtpmap".toList).map secondWord →
        lower name ∈ s.encodings := by
      intro hmem
      obtain ⟨v, hv, hsecond⟩ := List.mem_map.mp hmem
      rw [mem_encodings, hlower]
      exact ⟨v, hv, encodingOf_secondWord hsecond hslash⟩
    have hiff : lower name ∈ s.encodings ↔
        some (lower mapped) ∈ (s.values "rtpmap".toList).map secondWord := ⟨hplain, hback⟩
    simp only [Option.any_some, hiff]

end Codecs

end Dsip.Binding
