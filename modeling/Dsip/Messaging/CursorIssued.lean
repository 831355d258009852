import Mathlib.Tactic
import Dsip.Lib.Radix
import Dsip.Messaging.MailboxTs

/-!
# Which cursors a mailbox honours

A sync reads a cursor with the host's `int(text, 16)`, which takes more than the
mailbox writes: capital digits, a sign, white space, underscores, a `0x`, and
zero. What is honoured was given out, unless it is such a `Foreign` spelling.
-/

namespace Dsip.Messaging

open Dsip.Lib Dsip.Lib.PyInt

/-! ## The digits as numbers -/

def hexValue (c : Char) : Nat := (hexDigit c).getD 0

theorem IsHex.value {c : Char} (h : IsHex c) :
    hexDigit c = some (hexValue c) ∧ hexValue c < 16 ∧ Nat.digitChar (hexValue c) = c := by
  obtain ⟨d, hd, rfl⟩ := h
  rw [hexValue, hexDigit_digitChar hd]
  exact ⟨rfl, hd, rfl⟩

theorem digitChar_lt : ∀ d < 16, ∀ e < 16, (Nat.digitChar d < Nat.digitChar e ↔ d < e) := by decide

theorem digits_of_hex {l : List Char} {acc : Nat} {b : Bool} (h : ∀ c ∈ l, IsHex c) (hb : b = true ∨ l ≠ []) :
    digits acc b l = some ((l.map hexValue).foldl (fun n d => n * 16 + d) acc) := by
  induction l generalizing acc b with
  | nil =>
    obtain rfl : b = true := hb.resolve_right fun h => h rfl
    rfl
  | cons c l ih =>
    have hc := h c List.mem_cons_self
    rw [digits, if_neg hc.facts.1, hc.value.1]
    exact ih (fun c' hc' => h c' (List.mem_cons_of_mem c hc')) (.inl rfl)

section

variable {l : List Char} {n : Nat} (hlength : l.length = 16) (h : ∀ c ∈ l, IsHex c)

include hlength h

theorem digits_radix : digits 0 false l = some (radix 16 (l.map hexValue)) :=
  digits_of_hex h (.inr (List.ne_nil_of_length_pos (by omega)))

theorem map_digitChar_of_hex (hn : digits 0 false l = some n) :
    n < 16 ^ 16 ∧ (radixDigits 16 16 n).map Nat.digitChar = l := by
  obtain rfl := Option.some.inj ((digits_radix hlength h).symm.trans hn)
  have hvalues : ∀ d ∈ l.map hexValue, d < 16 := by
    intro d hd
    obtain ⟨c, hc, rfl⟩ := List.mem_map.mp hd
    exact (h c hc).value.2.1
  have hlength' : (l.map hexValue).length = 16 := by rw [List.length_map, hlength]
  have hdigits := radixDigits_radix hvalues
  have hlt := radix_lt hvalues
  rw [hlength'] at hdigits hlt
  refine ⟨hlt, ?_⟩
  rw [hdigits, List.map_map]
  calc l.map (Nat.digitChar ∘ hexValue) = l.map id := List.map_congr_left fun c hc => (h c hc).value.2.2
    _ = l := List.map_id l

end

theorem cursorDigits_eq {n : Nat} (hn : n < 16 ^ 16) :
    cursorDigits n = (radixDigits 16 16 n).map Nat.digitChar := by
  have hread : digits 0 false (cursorDigits n) = some n := digits_zeros _ n false
  exact (map_digitChar_of_hex ((length_cursorDigits n).mpr hn) (isHex_cursorDigits n) hread).2.symm

theorem cursor_lt_cursor {j k : Nat} (hj : j < 16 ^ 16) (hk : k < 16 ^ 16) : cursor j < cursor k ↔ j < k := by
  have hlt : ∀ n, ∀ d ∈ radixDigits 16 16 n, d < 16 := fun n d hd => lt_of_mem_radixDigits (by norm_num) hd
  show (cursor j).toList < (cursor k).toList ↔ _
  rw [cursor_toList, cursor_toList, List.cons_lt_cons_iff, List.cons_lt_cons_iff, cursorDigits_eq hj,
    cursorDigits_eq hk, map_lt_map (fun d hd e he => digitChar_lt d (hlt j d hd) e (hlt k e he)),
    ← radix_lt_radix _ (hlt j) (hlt k), radix_radixDigits 16 hj, radix_radixDigits 16 hk]
  · simp
  · rw [length_radixDigits, length_radixDigits]
  · intro d hd e he
    constructor
    · intro heq
      have hvalue := congrArg hexDigit heq
      rw [hexDigit_digitChar (hlt j d hd), hexDigit_digitChar (hlt k e he)] at hvalue
      exact Option.some.inj hvalue
    · rintro rfl
      rfl

/-! ## Texts -/

/-- `c:` and sixteen digits as a cursor has them, not all of them zeros. -/
def Written (c : String) : Prop :=
  ∃ l, c.toList = 'c' :: ':' :: l ∧ l.length = 16 ∧ (∀ d ∈ l, IsHex d) ∧ ∃ d ∈ l, d ≠ '0'

theorem cursorNum_eq_some {c : String} {n : Int} :
    cursorNum c = some n ↔ ∃ l, c.toList = 'c' :: ':' :: l ∧ l.length = 16 ∧ ofHex l = some n := by
  unfold cursorNum
  constructor
  · intro h
    split at h
    case h_1 l hl =>
      split at h
      case isTrue hlength => exact ⟨l, hl, hlength, h⟩
      case isFalse => cases h
    case h_2 => cases h
  · intro ⟨l, hl, hlength, h⟩
    simp only [hl]
    rw [if_pos hlength, h]

theorem Written.exists_cursor {c : String} (h : Written c) :
    ∃ k, 1 ≤ k ∧ c = cursor k ∧ cursorNum c = some (k : Int) := by
  obtain ⟨l, hl, hlength, hhex, d, hd, hzero⟩ := h
  have hread := digits_radix hlength hhex
  generalize radix 16 (l.map hexValue) = k at hread
  obtain ⟨hlt, hdigits⟩ := map_digitChar_of_hex hlength hhex hread
  rw [← cursorDigits_eq hlt] at hdigits
  have hcursor : c = cursor k := String.toList_inj.mp (by rw [hl, cursor_toList, hdigits])
  refine ⟨k, Nat.one_le_iff_ne_zero.mpr fun hk => ?_, hcursor, ?_⟩
  · subst hk
    have hzeros : ∀ c ∈ cursorDigits 0, c = '0' := by decide
    exact hzero (hzeros d (hdigits ▸ hd))
  · rw [hcursor, cursorNum_cursor, if_pos hlt]

theorem written_cursor {k : Nat} (hk : 1 ≤ k) (hlt : k < 16 ^ 16) : Written (cursor k) := by
  refine ⟨cursorDigits k, cursor_toList k, (length_cursorDigits k).mpr hlt, isHex_cursorDigits k, ?_⟩
  by_contra hall
  have hzeros : cursorDigits k = List.replicate 16 '0' :=
    List.eq_replicate_iff.mpr ⟨(length_cursorDigits k).mpr hlt, fun d hd =>
      Classical.byContradiction fun hd' => hall ⟨d, hd, hd'⟩⟩
  have hread : digits 0 false (cursorDigits k) = some k := digits_zeros _ k false
  rw [hzeros] at hread
  have hzero : some 0 = some k := hread
  cases hzero
  omega

namespace Mailbox

variable (m : Mailbox)

/-- The text of a cursor this mailbox has given out. -/
def Issued (c : String) : Prop := ∃ k, 1 ≤ k ∧ k ≤ m.counter ∧ c = cursor k

/-- Another text that `int(text, 16)` reads as a number up to the counter. -/
def Foreign (c : String) : Prop :=
  ¬ Written c ∧ ∃ l n, c.toList = 'c' :: ':' :: l ∧ l.length = 16 ∧ ofHex l = some n ∧ n ≤ (m.counter : Int)

def Refuses (e : Sync) : Prop :=
  ∃ m', m.step (.sync e) = .ok (m', error e.device e.id "mailbox.cursor-invalid")

variable {m}

theorem readCursor_isSome {c : String} :
    (m.readCursor (some c)).isSome ↔ ∃ n : Int, cursorNum c = some n ∧ n ≤ m.counter := by
  unfold readCursor
  rw [Option.isSome_map, Option.isSome_iff_exists]
  simp only [Option.filter_eq_some_iff, decide_eq_true_eq]

theorem page_items {e : Sync} {since : Int} {out : List Emit} (h : m.page e since = .ok out) :
    ∃ cursors next, out = [.items e.device e.id cursors next] := by
  unfold page at h
  dsimp only at h
  split at h
  case isTrue =>
    split at h
    case h_1 => cases h
    case h_2 last _ => exact ⟨_, _, (Except.ok.inj h).symm⟩
  case isFalse => exact ⟨_, _, (Except.ok.inj h).symm⟩

theorem refuses_iff {e : Sync} :
    m.Refuses e ↔ m.readCursor e.since = none ∨ m.readCursor e.ackThrough = none := by
  constructor
  · intro ⟨m', h⟩
    cases hsince : m.readCursor e.since with
    | none => exact .inl rfl
    | some since =>
      cases hack : m.readCursor e.ackThrough with
      | none => exact .inr rfl
      | some ack =>
        change m.sync e = _ at h
        unfold sync at h
        rw [hsince, hack] at h
        dsimp only at h
        split at h
        case h_1 => cases h
        case h_2 m₁ _ =>
          cases hpage : (m₁.goLive e).page e (since.getD 0) with
          | error fault =>
            rw [hpage] at h
            cases h
          | ok out =>
            obtain ⟨cursors, next, rfl⟩ := page_items hpage
            rw [hpage] at h
            cases (Prod.mk.inj (Except.ok.inj h)).2
  · intro h
    refine ⟨m, ?_⟩
    show m.sync e = _
    unfold sync
    rcases h with h | h
    · rw [h]
    · rw [h]
      cases m.readCursor e.since <;> rfl

theorem issued_of_not_foreign {c : String} (hforeign : ¬ m.Foreign c)
    (hread : (m.readCursor (some c)).isSome) : m.Issued c := by
  obtain ⟨n, hn, hle⟩ := readCursor_isSome.mp hread
  have hwritten : Written c := by
    by_contra hnot
    obtain ⟨l, hl, hlength, hof⟩ := cursorNum_eq_some.mp hn
    exact hforeign ⟨hnot, l, n, hl, hlength, hof, hle⟩
  obtain ⟨k, hpos, rfl, hk⟩ := hwritten.exists_cursor
  obtain rfl := Option.some.inj (hn.symm.trans hk)
  exact ⟨k, hpos, by exact_mod_cast hle, rfl⟩

/-- A sync that only reads, everything at once. -/
def readAll (c : String) : Sync := { id := "", device := "", since := some c, limit := m.items.length }

theorem not_issued_of_foreign {c : String} (hforeign : m.Foreign c) :
    (m.readCursor (some c)).isSome ∧ ¬ m.Issued c := by
  obtain ⟨hwritten, l, n, hl, hlength, hof, hle⟩ := hforeign
  have hn : cursorNum c = some n := cursorNum_eq_some.mpr ⟨l, hl, hlength, hof⟩
  refine ⟨readCursor_isSome.mpr ⟨n, hn, hle⟩, ?_⟩
  intro ⟨k, hpos, _, hk⟩
  subst hk
  exact hwritten (written_cursor hpos (cursorNum_eq hn).1)

/-- **Which cursors are honoured.** A sync that gives a text is answered only for a cursor that
the mailbox has given out, unless the text is a foreign spelling; a refused sync changes nothing;
the cursors given out are ordered as their numbers. -/
theorem cursors_honoured (ctx : Context) {m : Mailbox} (hm : (machine ctx).Reachable m) : (∀ c : String,
      (∀ e : Sync, e.since = some c ∨ e.ackThrough = some c → ¬ m.Refuses e → m.Issued c) ↔ ¬ m.Foreign c) ∧
    (∀ e m', m.step (.sync e) = .ok (m', error e.device e.id "mailbox.cursor-invalid") → m' = m) ∧
    (∀ it ∈ m.items, m.Issued it.cursor) ∧
    (m.counter < 2 ^ 64 → ∀ j k, j ≤ m.counter → k ≤ m.counter → (cursor j < cursor k ↔ j < k)) := by
  refine ⟨fun c => ⟨fun h hforeign => ?_, fun hforeign e hgiven hanswered => ?_⟩, fun e m' h => ?_, ?_, ?_⟩
  · obtain ⟨hread, hissued⟩ := not_issued_of_foreign hforeign
    refine hissued (h (m.readAll c) (.inl rfl) fun hrefused => ?_)
    rcases refuses_iff.mp hrefused with hnone | hnone
    · rw [show (m.readAll c).since = some c from rfl] at hnone
      rw [hnone] at hread
      cases hread
    · cases hnone
  · refine issued_of_not_foreign hforeign (Option.isSome_iff_ne_none.mpr fun hnone => hanswered ?_)
    rcases hgiven with hc | hc
    · exact refuses_iff.mpr (.inl (hc ▸ hnone))
    · exact refuses_iff.mpr (.inr (hc ▸ hnone))
  · have hshow : m.sync e = .ok (m', error e.device e.id "mailbox.cursor-invalid") := h
    rcases sync_items hshow with ⟨hsame, -⟩ | ⟨⟨k, -, hpage⟩, -⟩
    · exact hsame
    · obtain ⟨cursors, next, hout⟩ := page_items hpage
      cases hout
  · intro it hit
    have hnumbered := numbered ctx m hm
    exact ⟨it.n, (hnumbered.bounded it hit).1, (hnumbered.bounded it hit).2, hnumbered.named it hit⟩
  · intro hlt j k hj hk
    have hpower : (16 : Nat) ^ 16 = 2 ^ 64 := by norm_num
    exact cursor_lt_cursor (by omega) (by omega)

/-! ## One item -/

/-- A mailbox in queue mode, for one device in one group. -/
def cursorContext : Context :=
  { owner := "did:bob", devices := ["d1"], mode := .queue, groups := Dict.ofList [("g", "did:hub", .joined)] }

def cursorItem : Event :=
  .hubDeposit
    { id := "h", sender := "did:hub", recipient := "did:bob", group := "g", seq := some 1, cls := .application }

/-- The number of the first cursor, another way. -/
def plusOne : String := "c:+000000000000001"

def plusSync : Sync := { id := "s", device := "d1", ackThrough := some plusOne }

/-- An acknowledgement through the foreign spelling deletes the item. -/
theorem foreign_honoured : ∃ m, (machine cursorContext).Reachable m ∧ m.items.map (·.cursor) = [cursor 1] ∧
    ¬ m.Issued plusOne ∧ ¬ m.Refuses plusSync ∧
    ∃ m', m.step (.sync plusSync) = .ok (m', [.items "d1" "s" [] none]) ∧ m'.items = [] := by
  obtain ⟨tr, m, hrun, hm⟩ := TSys.exec?_runWhere step (fun _ _ _ => True)
    (· = init cursorContext) (init cursorContext) [cursorItem]
    (fun r => r.2.items.map (·.cursor) = [cursor 1] ∧ r.2.counter = 1 ∧ (match r.2.step (.sync plusSync) with
        | .ok (m', out) => decide (out = [.items "d1" "s" [] none] ∧ m'.items = [])
        | .error _ => false) = true)
    (by decide +kernel) (by decide +kernel)
  obtain ⟨hitems, hcounter, hstep⟩ := of_decide_eq_true hm
  split at hstep
  case h_2 => cases hstep
  case h_1 m' out hsync =>
    obtain ⟨rfl, hdeleted⟩ := of_decide_eq_true hstep
    refine ⟨m, TSys.Run.reachable hrun (.init rfl), hitems, ?_, ?_, m', hsync, hdeleted⟩
    · intro ⟨k, hpos, hle, hk⟩
      rw [hcounter] at hle
      obtain rfl : k = 1 := by omega
      exact absurd hk (by decide)
    · intro ⟨m'', hrefused⟩
      rw [hsync] at hrefused
      cases (Prod.mk.inj (Except.ok.inj hrefused)).2

/-- Before anything came, the first cursor is refused. -/
theorem cursors_honoured_init : (init cursorContext).Refuses ((init cursorContext).readAll (cursor 1)) := by
  by_contra hanswered
  obtain ⟨hhonoured, -⟩ := cursors_honoured cursorContext (m := init cursorContext) (.init rfl)
  have hnot : ¬ (init cursorContext).Foreign (cursor 1) := fun h => h.1 (written_cursor le_rfl (by norm_num))
  obtain ⟨k, hpos, hle, -⟩ := (hhonoured (cursor 1)).mpr hnot _ (.inl rfl) hanswered
  have hnone : k ≤ 0 := hle
  omega

end Mailbox

/-! ## The other mailbox -/

theorem isLowerHex_iff {c : Char} : Ts.Mailbox.isLowerHex c = true ↔ IsHex c := by
  constructor
  · intro h
    have hle : c.toNat < 128 := by
      simp only [Ts.Mailbox.isLowerHex, Bool.or_eq_true, Bool.and_eq_true, decide_eq_true_eq, Char.le_def] at h
      rcases h with h | h <;> exact lt_of_le_of_lt (UInt32.le_iff_toNat_le.mp h.2) (by decide)
    -- below 128 the characters are tried one by one
    have hall : ∀ n < 128, Ts.Mailbox.isLowerHex (Char.ofNat n) = true → ∃ d < 16, Char.ofNat n = Nat.digitChar d := by
      decide
    have hchar := hall c.toNat hle
    rw [Char.ofNat_toNat] at hchar
    exact hchar h
  · rintro ⟨d, hd, rfl⟩
    have hall : ∀ d < 16, Ts.Mailbox.isLowerHex (Nat.digitChar d) = true := by decide
    exact hall d hd

theorem parseHex_eq (l : List Char) : Ts.Mailbox.parseHex l = radix 16 (l.map hexValue) := by
  rw [radix, List.foldl_map]
  rfl

theorem knownCursor_iff {t : Ts.Mailbox} (ht : t.counter < 2 ^ 53) {c : String} :
    t.knownCursor c = true ↔ ∃ k, 1 ≤ k ∧ k ≤ t.counter ∧ c = cursor k := by
  unfold Ts.Mailbox.knownCursor
  constructor
  · intro h
    split at h
    case h_2 => cases h
    case h_1 l hl =>
      simp only [Bool.and_eq_true, decide_eq_true_eq] at h
      obtain ⟨⟨⟨hlength, hall⟩, hpos⟩, hle⟩ := h
      have hhex : ∀ d ∈ l, IsHex d := fun d hd => isLowerHex_iff.mp (List.all_eq_true.mp hall d hd)
      rw [parseHex_eq] at hpos hle
      obtain ⟨hlt, hdigits⟩ := map_digitChar_of_hex hlength hhex (digits_radix hlength hhex)
      rw [← cursorDigits_eq hlt] at hdigits
      exact ⟨_, hpos, hle, String.toList_inj.mp (by rw [hl, cursor_toList, hdigits])⟩
  · rintro ⟨k, hpos, hle, rfl⟩
    have hlength := (length_cursorDigits k).mpr (show k < 16 ^ 16 by omega)
    have hhex := isHex_cursorDigits k
    have hread : digits 0 false (cursorDigits k) = some k := digits_zeros _ k false
    obtain hk := Option.some.inj ((digits_radix hlength hhex).symm.trans hread)
    rw [cursor_toList]
    simp only [Bool.and_eq_true, decide_eq_true_eq, parseHex_eq, hk]
    exact ⟨⟨⟨hlength, List.all_eq_true.mpr fun d hd => isLowerHex_iff.mpr (hhex d hd)⟩, hpos⟩, hle⟩

namespace Mailbox

variable {m : Mailbox} {t : Ts.Mailbox}

def RefusesTs (t : Ts.Mailbox) (e : Sync) : Prop :=
  ∃ t', t.step (.event (.sync e)) = .ok (t', error e.device e.id "mailbox.cursor-invalid")

theorem pageTs_items {e : Sync} {limit : Option Nat} {out : List Emit} (h : t.page e limit = .ok out) :
    ∃ cursors next, out = [.items e.device e.id cursors next] := by
  unfold Ts.Mailbox.page at h
  dsimp only at h
  split at h
  · split at h
    · cases h
    · exact ⟨_, _, (Except.ok.inj h).symm⟩
  · exact ⟨_, _, (Except.ok.inj h).symm⟩

theorem refusesTs_iff {e : Sync} : RefusesTs t e ↔ ∃ c, e.since = some c ∧ t.knownCursor c = false := by
  have hany : (e.since.any fun c => !t.knownCursor c) = true ↔ ∃ c, e.since = some c ∧ t.knownCursor c = false := by
    simp only [Option.any_eq_true, Bool.not_eq_true']
  rw [← hany]
  constructor
  · intro ⟨t', h⟩
    change t.sync e (some e.limit) = _ at h
    unfold Ts.Mailbox.sync at h
    split at h
    case isTrue hunknown => exact hunknown
    case isFalse =>
      dsimp only at h
      -- any other answer is a page of items
      generalize hpage : Ts.Mailbox.page _ e _ = page at h
      cases page with
      | error fault => cases h
      | ok out =>
        obtain ⟨cursors, next, rfl⟩ := pageTs_items hpage
        cases (Prod.mk.inj (Except.ok.inj h)).2
  · intro hunknown
    exact ⟨t, if_pos hunknown⟩

end Mailbox

end Dsip.Messaging
