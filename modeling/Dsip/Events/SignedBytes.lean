import Dsip.Events.SyslogScan

/-!
# The signed bytes of a block

`element_end` starts after the sixth space, where the parser has its first element,
and stops at the `]` where the parser ended it. What is cut out before that is the
last parameter, so the signed bytes are the message that was parsed without it.
-/

namespace Dsip.Events

open Dsip.Lib

section Header

variable {b rest v : Bytes}

/-! ## The header -/

theorem headerField_eq_some {maxlen : Option Nat} {field : Option String} (h : headerField maxlen b = some (field, rest)) :
    ∃ tok, b = 0x20 :: (tok ++ rest) ∧ 0x20 ∉ tok ∧ (∀ a ∈ rest.head?, a = 0x20) ∧
      ∀ rest', (∀ a ∈ rest'.head?, a = 0x20) → headerField maxlen (0x20 :: (tok ++ rest')) = some (field, rest') := by
  obtain ⟨b₁, hspace, htok⟩ := Option.bind_eq_some_iff.mp h
  cases skip_eq_some.mp hspace
  unfold token at htok
  dsimp only at htok
  split at htok
  case isFalse => cases htok
  case isTrue htoken =>
    cases htok
    have hall : ∀ a ∈ b₁.takeWhile (· ≠ 0x20), decide (a ≠ 0x20) = true := List.all_eq_true.mp List.all_takeWhile
    refine ⟨b₁.takeWhile (· ≠ 0x20), ?_, fun hmem => by simpa using hall _ hmem, ?_, fun rest' hstop => ?_⟩
    · rw [List.takeWhile_append_dropWhile]
      rfl
    · intro a ha
      simpa using dropWhile_head b₁ a ha
    · obtain ⟨htake, hdrop⟩ := takeWhile_append hall fun a ha => by simpa using hstop a ha
      have hskip : skip (ascii " ") (0x20 :: (b₁.takeWhile (· ≠ 0x20) ++ rest')) =
          some (b₁.takeWhile (· ≠ 0x20) ++ rest') := skip_eq_some.mpr rfl
      unfold headerField token
      rw [hskip, Option.bind_eq_bind, Option.bind_some]
      dsimp only
      rw [htake, hdrop, if_pos htoken]

theorem headerFields_eq_some {header : SyslogHeader} (h : headerFields b = some (header, rest)) :
    ∃ front, b = front ++ 0x20 :: rest ∧ front.count 0x20 = 5 ∧ front.head? = some 0x20 ∧
      ∀ rest', headerFields (front ++ 0x20 :: rest') = some (header, rest') := by
  obtain ⟨⟨timestamp, b₁⟩, h₁, h⟩ := Option.bind_eq_some_iff.mp h
  obtain ⟨⟨hostname, b₂⟩, h₂, h⟩ := Option.bind_eq_some_iff.mp h
  obtain ⟨⟨appName, b₃⟩, h₃, h⟩ := Option.bind_eq_some_iff.mp h
  obtain ⟨⟨procid, b₄⟩, h₄, h⟩ := Option.bind_eq_some_iff.mp h
  obtain ⟨⟨msgid, b₅⟩, h₅, h⟩ := Option.bind_eq_some_iff.mp h
  obtain ⟨b₆, h₆, h⟩ := Option.bind_eq_some_iff.mp h
  cases h
  obtain ⟨t₁, rfl, hn₁, -, hread₁⟩ := headerField_eq_some h₁
  obtain ⟨t₂, rfl, hn₂, -, hread₂⟩ := headerField_eq_some h₂
  obtain ⟨t₃, rfl, hn₃, -, hread₃⟩ := headerField_eq_some h₃
  obtain ⟨t₄, rfl, hn₄, -, hread₄⟩ := headerField_eq_some h₄
  obtain ⟨t₅, rfl, hn₅, -, hread₅⟩ := headerField_eq_some h₅
  cases skip_eq_some.mp h₆
  have hspace (b : Bytes) : ∀ a ∈ (0x20 :: b).head?, a = (0x20 : UInt8) := by
    rintro a ⟨⟩
    rfl
  refine ⟨0x20 :: (t₁ ++ 0x20 :: (t₂ ++ 0x20 :: (t₃ ++ 0x20 :: (t₄ ++ 0x20 :: t₅)))), by simp [ascii], ?_, rfl,
    fun rest' => ?_⟩
  · simp only [List.count_cons_self, List.count_append, List.count_eq_zero_of_not_mem hn₁,
      List.count_eq_zero_of_not_mem hn₂, List.count_eq_zero_of_not_mem hn₃, List.count_eq_zero_of_not_mem hn₄,
      List.count_eq_zero_of_not_mem hn₅]
  · have hlast : skip (ascii " ") (0x20 :: rest') = some rest' := skip_eq_some.mpr rfl
    simp only [List.cons_append, List.append_assoc]
    unfold headerFields
    simp only [Option.bind_eq_bind, hread₁ _ (hspace _), hread₂ _ (hspace _), hread₃ _ (hspace _), hread₄ _ (hspace _),
      hread₅ _ (hspace _), hlast, Option.bind_some]
    rfl

theorem priority_eq_some {pri : Nat} (h : priority b = some (pri, rest)) :
    ∃ front, b = front ++ rest ∧ 0x20 ∉ front ∧ ∀ rest', priority (front ++ rest') = some (pri, rest') := by
  obtain ⟨b₁, hopen, hdigits⟩ := Option.bind_eq_some_iff.mp h
  cases skip_eq_some.mp hopen
  obtain ⟨⟨⟩, hlength, hclose⟩ := Option.bind_eq_some_iff.mp hdigits
  obtain ⟨b₂, hskip, hvalue⟩ := Option.bind_eq_some_iff.mp hclose
  obtain ⟨⟨⟩, hguard, heq⟩ := Option.bind_eq_some_iff.mp hvalue
  cases heq
  have hall : ∀ a ∈ b₁.takeWhile isDigitByte, isDigitByte a = true := List.all_eq_true.mp List.all_takeWhile
  have hsplit : b₁ = b₁.takeWhile isDigitByte ++ (ascii ">" ++ rest) := by
    rw [← skip_eq_some.mp hskip, List.takeWhile_append_dropWhile]
  refine ⟨ascii "<" ++ (b₁.takeWhile isDigitByte ++ ascii ">"), ?_, ?_, fun rest' => ?_⟩
  · conv_lhs => rw [hsplit]
    simp
  · simp only [List.mem_append, not_or]
    exact ⟨by decide, fun hmem => absurd (hall _ hmem) (by decide), by decide⟩
  · have hopen : skip (ascii "<") (ascii "<" ++ (b₁.takeWhile isDigitByte ++ ascii ">") ++ rest') =
        some (b₁.takeWhile isDigitByte ++ (ascii ">" ++ rest')) := skip_eq_some.mpr (by simp)
    obtain ⟨htake, hdrop⟩ := @takeWhile_append (ascii ">" ++ rest') _ _ hall (by rintro a ⟨⟩; decide)
    unfold priority
    simp only [Option.bind_eq_bind, hopen, Option.bind_some, htake, hdrop, hlength, hguard]
    rfl

/-- What `_parse_5424` makes of the bytes after the sixth space. -/
def afterHeader (pri : Nat) (header : SyslogHeader) (b : Bytes) : Option Syslog := do
  let (elements, b) ← structuredData b
  let msg ← message5424 b
  return {
    format := .rfc5424
    facility := pri / 8
    severity := pri % 8
    timestamp := header.timestamp
    hostname := header.hostname
    appName := header.appName
    procid := header.procid
    msgid := header.msgid
    structuredData := elements
    msg := msg }

theorem version_eq_some (h : version b = some (v, rest)) : b = v ++ rest := by
  unfold version at h
  dsimp only at h
  split at h
  case isFalse => cases h
  case isTrue =>
    cases h
    exact List.takeWhile_append_dropWhile.symm

/-- A message of RFC 5424 has five spaces before the one that its structured data
follows, whatever that is. -/
theorem parseSyslog_eq_some {sl : Syslog} (h : parseSyslog b = some sl) (hformat : sl.format = .rfc5424) :
    ∃ front sd pri header, b = front ++ 0x20 :: sd ∧ front.count 0x20 = 5 ∧ afterHeader pri header sd = some sl ∧
      ∀ sd', parseSyslog (front ++ 0x20 :: sd') = afterHeader pri header sd' := by
  obtain ⟨⟨pri, b₁⟩, hpri, hrest⟩ := Option.bind_eq_some_iff.mp h
  obtain ⟨front₁, rfl, hn₁, hread₁⟩ := priority_eq_some hpri
  dsimp only at hrest
  cases hversion : version b₁ with
  | none =>
    rw [hversion] at hrest
    cases hrest
    cases hformat
  | some versioned =>
    obtain ⟨v, b₂⟩ := versioned
    rw [hversion] at hrest
    obtain ⟨⟨⟩, hone, hparse⟩ := Option.bind_eq_some_iff.mp hrest
    obtain rfl : v = ascii "1" := (Option.guard_eq_some' _).mp hone
    obtain ⟨⟨header, sd⟩, hheader, hafter⟩ := Option.bind_eq_some_iff.mp hparse
    obtain ⟨front₂, rfl, hcount, hhead, hread₂⟩ := headerFields_eq_some hheader
    obtain rfl := version_eq_some hversion
    refine ⟨front₁ ++ (ascii "1" ++ front₂), sd, pri, header, by simp, ?_, hafter, fun sd' => ?_⟩
    · have hascii : (ascii "1").count 0x20 = 0 := by decide
      rw [List.count_append, List.count_append, List.count_eq_zero_of_not_mem hn₁, hascii, hcount]
    · have hlaid : front₁ ++ (ascii "1" ++ front₂) ++ 0x20 :: sd' =
          front₁ ++ (ascii "1" ++ (front₂ ++ 0x20 :: sd')) := by simp
      have hversion' : version (ascii "1" ++ (front₂ ++ 0x20 :: sd')) = some (ascii "1", front₂ ++ 0x20 :: sd') := by
        have hhead' : (front₂ ++ 0x20 :: sd').head? = some 0x20 := by
          rw [List.head?_append, hhead]
          rfl
        obtain ⟨htake, hdrop⟩ := @takeWhile_append (front₂ ++ 0x20 :: sd') (ascii "1") isDigitByte
            (List.all_eq_true.mp rfl)
          (by rw [hhead']; rintro a ⟨⟩; decide)
        unfold version
        dsimp only
        rw [htake, hdrop, if_pos ⟨by decide, by decide, by decide, hhead'⟩]
      have hfields : parse5424 pri (front₂ ++ 0x20 :: sd') = afterHeader pri header sd' := by
        unfold parse5424
        rw [hread₂, Option.bind_eq_bind, Option.bind_some]
        rfl
      rw [hlaid, ← hfields]
      unfold parseSyslog
      rw [hread₁, Option.bind_eq_bind, Option.bind_some]
      dsimp only
      rw [hversion']
      rfl

/-! ## Where the spaces are -/

theorem spaces_append (front sd : Bytes) :
    (spaces (front ++ 0x20 :: sd))[front.count 0x20]? = some front.length := by
  have hfrom (k : Nat) : ((((front ++ 0x20 :: sd).zipIdx k).filter fun p => p.1 = 0x20).map Prod.snd)[front.count 0x20]? =
      some (k + front.length) := by
    induction front generalizing k with
    | nil => simp
    | cons a front ih =>
      rw [List.cons_append, List.zipIdx_cons, List.length_cons]
      by_cases ha : a = 0x20
      case pos =>
        have hsucc : k + (front.length + 1) = k + 1 + front.length := by omega
        rw [List.filter_cons_of_pos (by simpa using ha), List.map_cons, ha, List.count_cons_self,
          List.getElem?_cons_succ, ih, hsucc]
      case neg =>
        have hsucc : k + (front.length + 1) = k + 1 + front.length := by omega
        rw [List.filter_cons_of_neg (by simpa using ha), List.count_cons_of_ne ha, ih, hsucc]
  have hzero := hfrom 0
  rw [Nat.zero_add] at hzero
  exact hzero

/-! ## The scanners agree -/

variable {sl : Syslog} {e : SdElement} {es : List SdElement}

/-- A message with an element, taken apart: the bytes up to the sixth space, the
element, and what follows its `]`. Another element may stand in the place of one alone. -/
theorem firstElement_eq_some (h : parseSyslog b = some sl) (hformat : sl.format = .rfc5424)
    (hdata : sl.structuredData = e :: es) : ∃ front raw pieces rest,
      b = front ++ 0x20 :: 0x5B :: (raw ++ pieces.flatten ++ 0x5D :: rest) ∧
      front.count 0x20 = 5 ∧ IsElement e raw pieces ∧
      (es = [] → ∀ e' raw' pieces', IsElement e' raw' pieces' →
        parseSyslog (front ++ 0x20 :: 0x5B :: (raw' ++ pieces'.flatten ++ 0x5D :: rest)) =
          some { sl with structuredData := [e'] }) := by
  obtain ⟨front, sd, pri, header, rfl, hcount, hafter, hread⟩ := parseSyslog_eq_some h hformat
  obtain ⟨⟨elements, b₁⟩, helements, hmessage⟩ := Option.bind_eq_some_iff.mp hafter
  obtain ⟨msg, hmsg, heq⟩ := Option.bind_eq_some_iff.mp hmessage
  cases heq
  obtain rfl : elements = e :: es := hdata
  unfold structuredData at helements
  split at helements
  case isTrue => cases helements
  case isFalse =>
    split at helements
    case isFalse => cases helements
    case isTrue =>
      obtain ⟨fuel, rest, hfuel, helement, hmore⟩ := sdElements_cons helements
      obtain ⟨raw, pieces, hlaid, rfl⟩ := sdElement_eq_some helement
      refine ⟨front, raw, pieces, rest, rfl, hcount, hlaid, ?_⟩
      rintro rfl e' raw' pieces' hlaid'
      have hpos : fuel ≠ 0 := by
        rw [List.length_cons, List.length_append, List.length_cons] at hfuel
        omega
      obtain ⟨rfl, hstop⟩ := sdElements_nil hpos hmore
      have hdata' : structuredData (0x5B :: (raw' ++ pieces'.flatten ++ 0x5D :: b₁)) = some ([e'], b₁) := by
        unfold structuredData
        rw [if_neg (by simp), if_pos List.head?_cons, List.length_cons]
        unfold sdElements
        rw [if_pos List.head?_cons, hlaid'.read, Option.bind_eq_bind, Option.bind_some]
        dsimp only
        rw [sdElements_of_stop hstop]
        rfl
      rw [hread]
      unfold afterHeader
      rw [hdata', Option.bind_eq_bind, Option.bind_some]
      dsimp only
      rw [hmsg]
      rfl

theorem elementEnd_eq {front raw : Bytes} {pieces : List Bytes} (helement : IsElement e raw pieces) :
    elementEnd (front ++ 0x20 :: 0x5B :: (raw ++ pieces.flatten ++ 0x5D :: rest)) (front.length + 1) =
      some (front ++ 0x20 :: 0x5B :: (raw ++ pieces.flatten)).length := by
  have hopen : (front ++ 0x20 :: 0x5B :: (raw ++ pieces.flatten ++ 0x5D :: rest))[front.length + 1]? = some 0x5B := by
    rw [List.getElem?_append_right (by omega), Nat.add_sub_cancel_left]
    rfl
  have hdrop : (front ++ 0x20 :: 0x5B :: (raw ++ pieces.flatten ++ 0x5D :: rest)).drop (front.length + 1 + 1) =
      raw ++ pieces.flatten ++ 0x5D :: rest := by
    rw [show front ++ 0x20 :: 0x5B :: (raw ++ pieces.flatten ++ 0x5D :: rest) =
      (front ++ [0x20, 0x5B]) ++ (raw ++ pieces.flatten ++ 0x5D :: rest) by simp]
    exact List.drop_left' (by simp)
  unfold elementEnd
  rw [if_pos hopen, hdrop, helement.scan]
  congr 1
  simp only [List.length_append, List.length_cons]
  omega

theorem signedBytes_eq {front sd : Bytes} {sixth : Nat} {sign : String}
    (hsixth : (spaces (front ++ signCut sign ++ 0x5D :: sd))[5]? = some sixth)
    (hend : elementEnd (front ++ signCut sign ++ 0x5D :: sd) (sixth + 1) = some (front ++ signCut sign).length) :
    signedBytes (front ++ signCut sign ++ 0x5D :: sd) sign = some (front ++ 0x5D :: sd) := by
  have hstart : ((front ++ signCut sign).length : Int) - (signCut sign).length = (front.length : Int) := by
    rw [List.length_append]
    omega
  have hstart' : (front ++ signCut sign).length - (signCut sign).length = front.length := by
    rw [List.length_append, Nat.add_sub_cancel]
  have hcut : sliceFrom (front ++ signCut sign ++ 0x5D :: sd) front.length (front ++ signCut sign).length =
      signCut sign := by
    unfold sliceFrom slice
    rw [if_pos (Int.natCast_nonneg _), Int.toNat_natCast, List.append_assoc, List.drop_left,
      List.length_append, Nat.add_sub_cancel_left, List.take_left]
  unfold signedBytes
  rw [hsixth, Option.bind_eq_bind, Option.bind_some, hend, Option.bind_eq_bind, Option.bind_some]
  dsimp only
  rw [hstart, hstart', hcut, guard, if_pos rfl]
  rw [List.drop_left, List.append_assoc, List.take_left]
  rfl

/-- For a message with one element that ends in a `SIGN` of base64, the scanner cuts
out exactly that parameter, and the rest is the message without it. -/
theorem signedBytes_of_sign (h : parseSyslog b = some sl) (hformat : sl.format = .rfc5424)
    (hdata : sl.structuredData = [e]) {sign : String} (hlast : e.params.getLast? = some ⟨"SIGN", sign⟩)
    (hb64 : b64 sign ≠ none) : ∃ front rest, b = front ++ signCut sign ++ 0x5D :: rest ∧
      (∃ sixth, (spaces b)[5]? = some sixth ∧ elementEnd b (sixth + 1) = some (front ++ signCut sign).length) ∧
      signedBytes b sign = some (front ++ 0x5D :: rest) ∧
      parseSyslog (front ++ 0x5D :: rest) =
        some { sl with structuredData := [{ e with params := e.params.dropLast }] } := by
  obtain ⟨front, raw, pieces, rest, hb, hcount, helement, hreplace⟩ := firstElement_eq_some h hformat hdata
  obtain ⟨init, hpieces, hinit⟩ := helement.sign hlast hb64
  have hsixth := spaces_append front (0x5B :: (raw ++ pieces.flatten ++ 0x5D :: rest))
  have hend := @elementEnd_eq rest e front raw pieces helement
  have hlaid : b = front ++ 0x20 :: 0x5B :: (raw ++ init.flatten) ++ signCut sign ++ 0x5D :: rest := by
    rw [hb, hpieces]
    simp
  have hlength : (front ++ 0x20 :: 0x5B :: (raw ++ pieces.flatten)).length =
      (front ++ 0x20 :: 0x5B :: (raw ++ init.flatten) ++ signCut sign).length := by
    rw [hpieces]
    simp
  rw [hcount, ← hb] at hsixth
  rw [← hb, hlength] at hend
  refine ⟨front ++ 0x20 :: 0x5B :: (raw ++ init.flatten), rest, hlaid, ⟨front.length, hsixth, hend⟩, ?_, ?_⟩
  · rw [hlaid] at hsixth hend ⊢
    exact signedBytes_eq hsixth hend
  · have hread := hreplace rfl _ raw init hinit
    rwa [show front ++ 0x20 :: 0x5B :: (raw ++ init.flatten) ++ 0x5D :: rest =
      front ++ 0x20 :: 0x5B :: (raw ++ init.flatten ++ 0x5D :: rest) by simp]

theorem paramValue_concat (params : List SdParam) (name value : String) :
    paramValue (params ++ [⟨name, value⟩]) name = value := by
  unfold paramValue
  rw [List.reverse_append, List.reverse_singleton, List.singleton_append, List.find?_cons_of_pos (by simp)]
  rfl

theorem BlockKind.params_eq (kind : BlockKind) : kind.params = kind.params.dropLast ++ ["SIGN"] := by
  cases kind <;> rfl

theorem blockOf_eq_some {kind : BlockKind} {elements : List SdElement} {block : Block}
    (h : blockOf kind elements = some block) :
    ∃ e, elements = [e] ∧ e.params.getLast? = some ⟨"SIGN", block.sign⟩ ∧ b64 block.sign ≠ none := by
  unfold blockOf at h
  split at h
  case h_2 => cases h
  case h_1 element =>
    obtain ⟨⟨⟩, hnames, h⟩ := Option.bind_eq_some_iff.mp h
    have hnames := (Option.guard_eq_some' _).mp hnames
    dsimp only at h
    obtain ⟨⟨⟩, -, h⟩ := Option.bind_eq_some_iff.mp h
    obtain ⟨rsid, -, h⟩ := Option.bind_eq_some_iff.mp h
    obtain ⟨sg, -, h⟩ := Option.bind_eq_some_iff.mp h
    obtain ⟨spri, -, h⟩ := Option.bind_eq_some_iff.mp h
    obtain ⟨numbers, hnumbers, h⟩ := Option.bind_eq_some_iff.mp h
    obtain ⟨bytes, hbytes, -⟩ := Option.bind_eq_some_iff.mp hnumbers
    split at h
    case h_2 => cases h
    case h_1 r s =>
      have hsign : block.sign = paramValue element.params "SIGN" := by
        cases kind <;> (obtain ⟨body, -, h⟩ := Option.bind_eq_some_iff.mp h; cases h; rfl)
      rw [kind.params_eq] at hnames
      obtain ⟨init, last, hparams, -, hlast⟩ := List.map_eq_append_iff.mp hnames
      obtain ⟨⟨name, value⟩, tail, rfl, rfl, htail⟩ := List.map_eq_cons_iff.mp hlast
      obtain rfl := List.map_eq_nil_iff.mp htail
      rw [hparams, paramValue_concat] at hsign hbytes
      rw [hsign]
      refine ⟨element, rfl, ?_, by rw [hbytes]; nofun⟩
      rw [hparams, List.getLast?_concat]

theorem blockOf_eq_none_of_openBlock {Key : Type} {dsa : Dsa Key} {signers : String → Option (Signer Key)}
    {kind : BlockKind} (h : parseSyslog b = some sl) (hformat : sl.format = .rfc5424)
    (hopen : openBlock dsa signers b sl kind = .error .malformedBlock) : blockOf kind sl.structuredData = none := by
  cases hblock : blockOf kind sl.structuredData with
  | none => rfl
  | some block =>
    exfalso
    obtain ⟨e, hdata, hlast, hb64⟩ := blockOf_eq_some hblock
    obtain ⟨front, rest, -, -, hsigned, -⟩ := signedBytes_of_sign h hformat hdata hlast hb64
    unfold openBlock at hopen
    simp only [hblock, hsigned] at hopen
    cases hversion : signVersion block.ver with
    | none => simp [hversion, throw, throwThe, MonadExceptOf.throw] at hopen
    | some hash =>
      cases hsigner : signers (sl.hostname.getD "").toLower with
      | none => simp [hversion, hsigner, throw, throwThe, MonadExceptOf.throw] at hopen
      | some signer =>
        cases hpub : signer.pub with
        | none => simp [hversion, hsigner, hpub, throw, throwThe, MonadExceptOf.throw] at hopen
        | some key =>
          simp only [hversion, hsigner, hpub] at hopen
          split at hopen <;> cases hopen

/-- The scanner of the signed bytes and the parser of structured data agree on the
first element, and the cut is exactly its `SIGN`; the exits for a malformed block
after the signer is looked up are never taken. -/
theorem scanners_agree {Key : Type} (dsa : Dsa Key) (signers : String → Option (Signer Key))
    (h : parseSyslog b = some sl) (hformat : sl.format = .rfc5424) :
    (∀ e es, sl.structuredData = e :: es → ∃ sixth stop,
      (spaces b)[5]? = some sixth ∧ b[sixth + 1]? = some 0x5B ∧
      elementEnd b (sixth + 1) = some stop ∧ b[stop]? = some 0x5D ∧
      sdElement (b.drop (sixth + 1)) = some (e, b.drop (stop + 1)) ∧
      (es = [] → ∀ sign, e.params.getLast? = some ⟨"SIGN", sign⟩ → b64 sign ≠ none →
        ∃ front, b = front ++ signCut sign ++ b.drop stop ∧ (front ++ signCut sign).length = stop ∧
          signedBytes b sign = some (front ++ b.drop stop) ∧
          parseSyslog (front ++ b.drop stop) =
            some { sl with structuredData := [{ e with params := e.params.dropLast }] })) ∧
    ∀ kind, openBlock dsa signers b sl kind = .error .malformedBlock → blockOf kind sl.structuredData = none := by
  refine ⟨fun e es hdata => ?_, fun kind => blockOf_eq_none_of_openBlock h hformat⟩
  obtain ⟨front, raw, pieces, rest, hb, hcount, helement, -⟩ := firstElement_eq_some h hformat hdata
  have hsixth := spaces_append front (0x5B :: (raw ++ pieces.flatten ++ 0x5D :: rest))
  have hend := @elementEnd_eq rest e front raw pieces helement
  rw [hcount, ← hb] at hsixth
  rw [← hb] at hend
  have hclose : b = (front ++ 0x20 :: 0x5B :: (raw ++ pieces.flatten)) ++ 0x5D :: rest := by
    rw [hb]
    simp
  refine ⟨front.length, (front ++ 0x20 :: 0x5B :: (raw ++ pieces.flatten)).length, hsixth, ?_, hend, ?_, ?_, ?_⟩
  · rw [hb, List.getElem?_append_right (by omega), Nat.add_sub_cancel_left]
    rfl
  · rw [hclose, List.getElem?_append_right (Nat.le_refl _), Nat.sub_self]
    rfl
  · have hfrom : b.drop (front.length + 1) = 0x5B :: (raw ++ pieces.flatten ++ 0x5D :: rest) := by
      rw [hb, show front ++ 0x20 :: 0x5B :: (raw ++ pieces.flatten ++ 0x5D :: rest) =
        (front ++ [0x20]) ++ 0x5B :: (raw ++ pieces.flatten ++ 0x5D :: rest) by simp]
      exact List.drop_left' (by simp)
    have hrest : b.drop ((front ++ 0x20 :: 0x5B :: (raw ++ pieces.flatten)).length + 1) = rest := by
      rw [hclose, show (front ++ 0x20 :: 0x5B :: (raw ++ pieces.flatten)) ++ 0x5D :: rest =
        (front ++ 0x20 :: 0x5B :: (raw ++ pieces.flatten) ++ [0x5D]) ++ rest by simp]
      exact List.drop_left' (by rw [List.length_append, List.length_singleton])
    rw [hfrom, hrest]
    exact helement.read rest
  · rintro rfl sign hlast hb64
    obtain ⟨front', rest', hb', ⟨sixth, hsixth', hend'⟩, hsigned, hparse⟩ :=
      signedBytes_of_sign h hformat hdata hlast hb64
    -- the two ways to find the `]`
    rw [hsixth, Option.some.injEq] at hsixth'
    rw [← hsixth', hend, Option.some.injEq] at hend'
    have htail : b.drop (front ++ 0x20 :: 0x5B :: (raw ++ pieces.flatten)).length = 0x5D :: rest' := by
      rw [hend', hb', List.drop_left]
    rw [htail]
    exact ⟨front', hb', hend'.symm, hsigned, hparse⟩

/-- A block with an escaped quote and brackets in a value. -/
theorem scanners_agree_escaped :
    let msg := ascii "<110>1 - h a - - [s q=\"[\\\"]\" SIGN=\"AA==\"] m"
    ∃ sixth stop, (spaces msg)[5]? = some sixth ∧ elementEnd msg (sixth + 1) = some stop ∧
      ∃ front, msg = front ++ signCut "AA==" ++ msg.drop stop ∧
        signedBytes msg "AA==" = some (front ++ msg.drop stop) := by
  obtain ⟨sixth, stop, hsixth, -, hend, -, -, hsign⟩ :=
    (@scanners_agree (ascii "<110>1 - h a - - [s q=\"[\\\"]\" SIGN=\"AA==\"] m")
      ⟨.rfc5424, 13, 6, none, some "h", some "a", none, none,
        [⟨"s", [⟨"q", "[\"]"⟩, ⟨"SIGN", "AA=="⟩]⟩], "m"⟩ Unit ⟨fun _ => 0, fun _ _ _ _ _ => false⟩ (fun _ => none)
      (by decide +kernel) rfl).1 _ _ rfl
  obtain ⟨front, hlaid, -, hsigned, -⟩ := hsign rfl "AA==" rfl (by decide)
  exact ⟨sixth, stop, hsixth, hend, front, hlaid, hsigned⟩

end Header

end Dsip.Events
