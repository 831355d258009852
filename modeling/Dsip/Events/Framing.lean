import Dsip.Events.BerWrite

/-!
# Messages on a TLS stream

`tls_frames` cuts a stream into messages, and waits or closes where it cannot. Each
turn decides from a prefix of what is left; no decision to take a message or to
close is one that more bytes would change.
-/

namespace Dsip.Events

def tlsMax : Nat := 65536

/-- What to do with the rest of a stream. -/
inductive Next where
  | wait
  | close
  | message (length : Nat)
  deriving DecidableEq, Repr

/-- What a header and the length it says come to. -/
def sized (available hdr n : Nat) : Next :=
  if tlsMax < hdr + n then .close else if available < hdr + n then .wait else .message (hdr + n)

/-- One turn of `tls_frames`. -/
def nextFrame (rest : Bytes) : Next :=
  match rest with
  | tag :: first :: _ =>
    if tag ≠ 0x30 ∨ first = 0x80 ∨ 0x85 ≤ first then .close
    else if first < 0x80 then sized rest.length 2 first.toNat
    else
      let k := (first &&& 0x7F).toNat
      if rest.length < 2 + k then .wait
      else sized rest.length (2 + k) (beNat (slice rest 2 (2 + k)))
  | _ => .wait

theorem sized_message {available hdr n len : Nat} :
    sized available hdr n = .message len ↔ len = hdr + n ∧ len ≤ tlsMax ∧ len ≤ available := by
  unfold sized
  split
  case isTrue h => exact iff_of_false (fun heq => by cases heq) (fun ⟨heq, hle, _⟩ => by omega)
  case isFalse hmax =>
    split
    case isTrue h => exact iff_of_false (fun heq => by cases heq) (fun ⟨heq, _, hle⟩ => by omega)
    case isFalse h =>
      rw [Next.message.injEq]
      omega

theorem sized_of_le {available available' hdr n : Nat} (hle : available ≤ available')
    (h : sized available hdr n ≠ .wait) : sized available' hdr n = sized available hdr n := by
  unfold sized at h ⊢
  split
  case isTrue => rfl
  case isFalse hmax =>
    rw [if_neg hmax] at h
    have hroom : ¬ available < hdr + n := fun hlt => h (if_pos hlt)
    rw [if_neg hroom, if_neg (by omega)]

theorem nextFrame_message {rest : Bytes} {n : Nat} (h : nextFrame rest = .message n) :
    2 ≤ n ∧ n ≤ rest.length ∧ n ≤ tlsMax := by
  unfold nextFrame at h
  split at h
  case h_1 tag first body =>
    split at h
    case isTrue => cases h
    case isFalse =>
      split at h
      case isTrue =>
        obtain ⟨rfl, hmax, hle⟩ := sized_message.mp h
        exact ⟨by omega, hle, hmax⟩
      case isFalse =>
        dsimp only at h
        split at h
        case isTrue => cases h
        case isFalse =>
          obtain ⟨rfl, hmax, hle⟩ := sized_message.mp h
          exact ⟨by omega, hle, hmax⟩
  case h_2 => cases h

/-- The messages of a stream, the rest, and whether the stream is to be closed. -/
structure Frames where
  messages : List Bytes
  pending : Bytes
  close : Bool
  deriving DecidableEq, Repr

def tlsFrames (rest : Bytes) : Frames :=
  match _h : nextFrame rest with
  | .wait => ⟨[], rest, false⟩
  | .close => ⟨[], rest, true⟩
  | .message n =>
    let frames := tlsFrames (rest.drop n)
    { frames with messages := rest.take n :: frames.messages }
termination_by rest.length
decreasing_by
  obtain ⟨htwo, hle, -⟩ := nextFrame_message _h
  rw [List.length_drop]
  omega

def dtlsRecord (record : Bytes) : Option Bytes :=
  match tlsFrames record with
  | ⟨[m], [], false⟩ => some m
  | _ => none

section Frames

variable {rest a b s : Bytes} {n : Nat}

theorem tlsFrames_wait (h : nextFrame rest = .wait) : tlsFrames rest = ⟨[], rest, false⟩ := by
  rw [tlsFrames]
  split <;> simp_all

theorem tlsFrames_close (h : nextFrame rest = .close) : tlsFrames rest = ⟨[], rest, true⟩ := by
  rw [tlsFrames]
  split <;> simp_all

theorem tlsFrames_message (h : nextFrame rest = .message n) :
    tlsFrames rest = { tlsFrames (rest.drop n) with
      messages := rest.take n :: (tlsFrames (rest.drop n)).messages } := by
  rw [tlsFrames]
  split <;> simp_all

theorem frames_induction {motive : Bytes → Prop} (wait : ∀ rest, nextFrame rest = .wait → motive rest)
    (close : ∀ rest, nextFrame rest = .close → motive rest)
    (message : ∀ rest n, nextFrame rest = .message n → motive (rest.drop n) → motive rest) (s : Bytes) :
    motive s := by
  induction hlen : s.length using Nat.strong_induction_on generalizing s with
  | _ len ih =>
    subst hlen
    cases h : nextFrame s with
    | wait => exact wait s h
    | close => exact close s h
    | message n =>
      obtain ⟨htwo, hle, -⟩ := nextFrame_message h
      exact message s n h (ih _ (by rw [List.length_drop]; omega) _ rfl)

theorem slice_header {tag first : UInt8} {body b : Bytes} {k : Nat} (hk : k ≤ body.length) :
    slice (tag :: first :: (body ++ b)) 2 (2 + k) = slice (tag :: first :: body) 2 (2 + k) := by
  unfold slice
  simp only [List.drop_succ_cons, List.drop_zero, Nat.add_sub_cancel_left]
  exact List.take_append_of_le_length hk

theorem nextFrame_append (h : nextFrame a ≠ .wait) (b : Bytes) : nextFrame (a ++ b) = nextFrame a := by
  match a with
  | [] | [_] => exact absurd rfl h
  | tag :: first :: body =>
    unfold nextFrame at h ⊢
    dsimp only [List.cons_append] at h ⊢
    have hlength : (tag :: first :: body).length ≤ (tag :: first :: (body ++ b)).length := by simp
    split
    case isTrue => rfl
    case isFalse hopen =>
      rw [if_neg hopen] at h
      split
      case isTrue hshort =>
        rw [if_pos hshort] at h
        exact sized_of_le hlength h
      case isFalse hlong =>
        rw [if_neg hlong] at h
        have hroom : ¬ (tag :: first :: body).length < 2 + (first &&& 0x7F).toNat := fun hlt => h (if_pos hlt)
        rw [if_neg hroom] at h ⊢
        rw [if_neg (by omega), slice_header (by simp only [List.length_cons] at hroom; omega)]
        exact sized_of_le hlength h

theorem nextFrame_of_append (h : nextFrame (a ++ b) = .message a.length) :
    nextFrame a = .message a.length := by
  have htwo := (nextFrame_message h).1
  match a with
  | tag :: first :: body =>
    unfold nextFrame at h ⊢
    dsimp only [List.cons_append] at h ⊢
    split at h
    case isTrue => cases h
    case isFalse hopen =>
      rw [if_neg hopen]
      split at h
      case isTrue hshort =>
        obtain ⟨hsum, hmax, -⟩ := sized_message.mp h
        rw [if_pos hshort]
        exact sized_message.mpr ⟨hsum, hmax, le_refl _⟩
      case isFalse hlong =>
        split at h
        case isTrue => cases h
        case isFalse =>
          obtain ⟨hsum, hmax, -⟩ := sized_message.mp h
          rw [if_neg hlong, if_neg (by omega)]
          refine sized_message.mpr ⟨?_, hmax, le_refl _⟩
          rw [hsum, slice_header (by simp only [List.length_cons] at hsum; omega)]

theorem tlsFrames_append (a b : Bytes) :
    tlsFrames (a ++ b) = { tlsFrames ((tlsFrames a).pending ++ b) with
      messages := (tlsFrames a).messages ++ (tlsFrames ((tlsFrames a).pending ++ b)).messages } := by
  induction a using frames_induction with
  | wait a h => simp [tlsFrames_wait h]
  | close a h => simp [tlsFrames_close h]
  | message a n h ih =>
    have hle := (nextFrame_message h).2.1
    have hmore : nextFrame (a ++ b) = .message n := by
      rw [nextFrame_append (by simp [h]), h]
    have hdrop : (a ++ b).drop n = a.drop n ++ b := List.drop_append_of_le_length hle
    have htake : (a ++ b).take n = a.take n := List.take_append_of_le_length hle
    rw [tlsFrames_message hmore, hdrop, htake, ih, tlsFrames_message h]
    rfl

theorem tlsFrames_append_of_close (h : (tlsFrames a).close = true) (b : Bytes) :
    tlsFrames (a ++ b) = ⟨(tlsFrames a).messages, (tlsFrames a).pending ++ b, true⟩ := by
  induction a using frames_induction with
  | wait a hw => simp [tlsFrames_wait hw] at h
  | close a hc =>
    have hmore : nextFrame (a ++ b) = .close := by
      rw [nextFrame_append (by simp [hc]), hc]
    rw [tlsFrames_close hc, tlsFrames_close hmore]
  | message a n hm ih =>
    have hle := (nextFrame_message hm).2.1
    have hmore : nextFrame (a ++ b) = .message n := by
      rw [nextFrame_append (by simp [hm]), hm]
    have hdrop : (a ++ b).drop n = a.drop n ++ b := List.drop_append_of_le_length hle
    have htake : (a ++ b).take n = a.take n := List.take_append_of_le_length hle
    rw [tlsFrames_message hm] at h ⊢
    rw [tlsFrames_message hmore, hdrop, htake, ih h]

theorem flatten_append_pending (s : Bytes) : (tlsFrames s).messages.flatten ++ (tlsFrames s).pending = s := by
  induction s using frames_induction with
  | wait s h => simp [tlsFrames_wait h]
  | close s h => simp [tlsFrames_close h]
  | message s n h ih =>
    rw [tlsFrames_message h, List.flatten_cons, List.append_assoc, ih, List.take_append_drop]

/-! ## Messages -/

/-- One complete element with the tag of a sequence, of at most 65,536 bytes. -/
def IsFrame (m : Bytes) : Prop :=
  m.length ≤ tlsMax ∧ ∃ t, tlv m 0 m.length = some t ∧ t.tag = 0x30 ∧ t.stop = m.length

theorem closing_iff (x : UInt8) (hx : ¬ x < 0x80) :
    (x = 0x80 ∨ 0x85 ≤ x) ↔ ¬ ((x &&& 0x7F).toNat ≠ 0 ∧ (x &&& 0x7F).toNat ≤ 4) := by
  have hall : ∀ n : Fin 256, let x := UInt8.ofNat n.val
      ¬ x < 0x80 → ((x = 0x80 ∨ 0x85 ≤ x) ↔ ¬ ((x &&& 0x7F).toNat ≠ 0 ∧ (x &&& 0x7F).toNat ≤ 4)) := by
    decide +kernel
  have h := hall ⟨x.toNat, x.toNat_lt⟩
  dsimp only at h
  rw [UInt8.ofNat_toNat] at h
  exact h hx

theorem short_not_closing (x : UInt8) (hx : x < 0x80) : ¬ (x = 0x80 ∨ 0x85 ≤ x) := by
  rw [← UInt8.toNat_inj, UInt8.le_iff_toNat_le]
  rw [UInt8.lt_iff_toNat_lt] at hx
  have hlow : (0x80 : UInt8).toNat = 128 := rfl
  have hhigh : (0x85 : UInt8).toNat = 133 := rfl
  omega

theorem nextFrame_iff_isFrame (m : Bytes) : nextFrame m = .message m.length ↔ IsFrame m := by
  match m with
  | [] => exact iff_of_false (fun h => by cases h) (fun ⟨_, t, ht, _⟩ => by cases ht)
  | [x] => exact iff_of_false (fun h => by cases h) (fun ⟨_, t, ht, _⟩ => by cases ht)
  | tag :: first :: body =>
    unfold nextFrame IsFrame
    dsimp only
    generalize hlen : (tag :: first :: body).length = len
    have htwo : len = body.length + 2 := by simp [← hlen]
    constructor
    · intro h
      split at h
      case isTrue => cases h
      case isFalse hopen =>
        rw [not_or] at hopen
        have htag := not_not.mp hopen.1
        subst htag
        split at h
        case isTrue hshort =>
          obtain ⟨hsum, hmax, -⟩ := sized_message.mp h
          exact ⟨hmax, _, tlv_of_short rfl (by decide) rfl hshort (by omega), rfl, by dsimp only; omega⟩
        case isFalse hlong =>
          have hk := not_not.mp (hopen.2 ∘ (closing_iff first hlong).mpr)
          split at h
          case isTrue => cases h
          case isFalse =>
            obtain ⟨hsum, hmax, -⟩ := sized_message.mp h
            exact ⟨hmax, _, tlv_of_long rfl (by decide) rfl hlong rfl (Nat.pos_of_ne_zero hk.1) hk.2
              (by rw [Nat.zero_add]) (by omega), rfl, by dsimp only; omega⟩
    · rintro ⟨hmax, t, ht, htag, hstop⟩
      unfold tlv at ht
      simp only [Option.bind_eq_bind, Option.bind_eq_some_iff, Option.guard_eq_some', exists_const,
        List.getElem?_cons_zero, List.getElem?_cons_succ, Nat.zero_add, Option.some.injEq,
        exists_eq_left'] at ht
      obtain ⟨-, -, ht⟩ := ht
      split at ht
      case isTrue hshort =>
        simp only [Option.bind_eq_some_iff, Option.guard_eq_some', exists_const, Option.pure_def,
          Option.some.injEq] at ht
        obtain ⟨hle, rfl⟩ := ht
        dsimp only at htag hstop
        subst htag
        rw [if_neg (not_or.mpr ⟨not_not.mpr rfl, short_not_closing first hshort⟩), if_pos hshort]
        exact sized_message.mpr ⟨hstop.symm, hmax, le_refl _⟩
      case isFalse hlong =>
        simp only [Option.bind_eq_some_iff, Option.guard_eq_some', exists_const, Option.pure_def,
          Option.some.injEq] at ht
        obtain ⟨⟨hne, hfour, hroom⟩, hle, rfl⟩ := ht
        dsimp only at htag hstop
        subst htag
        have hopen : ¬ (first = 0x80 ∨ 0x85 ≤ first) := fun h => (closing_iff first hlong).mp h ⟨hne, hfour⟩
        rw [if_neg (not_or.mpr ⟨not_not.mpr rfl, hopen⟩), if_neg hlong, if_neg (not_lt.mpr hroom)]
        exact sized_message.mpr ⟨hstop.symm, hmax, le_refl _⟩

theorem isFrame_of_mem (s : Bytes) : ∀ m ∈ (tlsFrames s).messages, IsFrame m := by
  induction s using frames_induction with
  | wait s h => simp [tlsFrames_wait h]
  | close s h => simp [tlsFrames_close h]
  | message s n h ih =>
    obtain ⟨htwo, hle, hmax⟩ := nextFrame_message h
    have hlength : (s.take n).length = n := List.length_take_of_le hle
    have hfirst : IsFrame (s.take n) := by
      rw [← nextFrame_iff_isFrame]
      refine nextFrame_of_append (b := s.drop n) ?_
      rw [List.take_append_drop, h, hlength]
    rw [tlsFrames_message h]
    intro m hm
    rcases List.mem_cons.mp hm with rfl | hm
    · exact hfirst
    · exact ih m hm

theorem dtlsRecord_eq_some {r m : Bytes} : dtlsRecord r = some m ↔ m = r ∧ IsFrame r := by
  unfold dtlsRecord
  constructor
  · intro h
    split at h
    case h_1 m' heq =>
      obtain rfl := Option.some.inj h
      have hflat := flatten_append_pending r
      have hmem := isFrame_of_mem r
      rw [heq] at hflat hmem
      have hr : m' = r := by simpa using hflat
      exact ⟨hr, hr ▸ hmem m' List.mem_cons_self⟩
    case h_2 => cases h
  · rintro ⟨rfl, hm⟩
    have htake := (nextFrame_iff_isFrame m).mpr hm
    rw [tlsFrames_message htake, List.drop_length, List.take_length, tlsFrames_wait (by rfl)]

end Frames

/-! ## The same in TypeScript -/

namespace Ts

/-- One turn of `tlsFrames`, on what is left of the stream. -/
def nextFrame (left : Bytes) : Next :=
  match left with
  | tag :: first :: _ =>
    if tag ≠ 0x30 then .close
    else if first < 0x80 then sized left.length 2 first.toNat
    else
      let n := (first &&& 0x7F).toNat
      if n < 1 ∨ 4 < n then .close
      else if left.length < 2 + n then .wait
      else sized left.length (2 + n) (beNat (slice left 2 (2 + n)))
  | _ => .wait

theorem nextFrame_eq (left : Bytes) : nextFrame left = Events.nextFrame left := by
  match left with
  | [] | [_] => rfl
  | tag :: first :: body =>
    unfold nextFrame Events.nextFrame
    dsimp only
    by_cases htag : tag = 0x30
    · by_cases hshort : first < 0x80
      · rw [if_neg (not_not.mpr htag), if_pos hshort,
          if_neg (not_or.mpr ⟨not_not.mpr htag, short_not_closing first hshort⟩), if_pos hshort]
      · have hclosing := closing_iff first hshort
        by_cases hopen : first = 0x80 ∨ 0x85 ≤ first
        · have hk := hclosing.mp hopen
          rw [if_neg (not_not.mpr htag), if_neg hshort, if_pos (by omega), if_pos (.inr hopen)]
        · have hk : ¬ ¬ ((first &&& 0x7F).toNat ≠ 0 ∧ (first &&& 0x7F).toNat ≤ 4) := hopen ∘ hclosing.mpr
          rw [if_neg (not_not.mpr htag), if_neg hshort, if_neg (by omega),
            if_neg (not_or.mpr ⟨not_not.mpr htag, hopen⟩), if_neg hshort]
    · rw [if_pos htag, if_pos (.inl htag)]

def tlsFrames (left : Bytes) : Frames :=
  match _h : nextFrame left with
  | .wait => ⟨[], left, false⟩
  | .close => ⟨[], left, true⟩
  | .message total =>
    let frames := tlsFrames (left.drop total)
    { frames with messages := left.take total :: frames.messages }
termination_by left.length
decreasing_by
  rw [nextFrame_eq] at _h
  obtain ⟨htwo, hle, -⟩ := nextFrame_message _h
  rw [List.length_drop]
  omega

def dtlsRecord (record : Bytes) : Option Bytes :=
  match tlsFrames record with
  | ⟨[m], [], false⟩ => some m
  | _ => none

theorem tlsFrames_eq (s : Bytes) : tlsFrames s = Events.tlsFrames s := by
  induction s using frames_induction with
  | wait s h =>
    rw [tlsFrames_wait h, tlsFrames]
    split <;> simp_all [nextFrame_eq]
  | close s h =>
    rw [tlsFrames_close h, tlsFrames]
    split <;> simp_all [nextFrame_eq]
  | message s n h ih =>
    rw [tlsFrames_message h, ← ih, tlsFrames]
    split <;> simp_all [nextFrame_eq]

theorem dtlsRecord_eq (record : Bytes) : dtlsRecord record = Events.dtlsRecord record := by
  unfold dtlsRecord Events.dtlsRecord
  rw [tlsFrames_eq]

end Ts

/-- Framing does not depend on how a stream is cut, loses nothing, and takes whole
messages only; a record is accepted when it is one message. Both implementations
frame alike. -/
theorem framing_sound : (∀ a b : Bytes,
      (tlsFrames a).messages ++ (tlsFrames ((tlsFrames a).pending ++ b)).messages = (tlsFrames (a ++ b)).messages ∧
      (tlsFrames ((tlsFrames a).pending ++ b)).pending = (tlsFrames (a ++ b)).pending ∧
      (tlsFrames ((tlsFrames a).pending ++ b)).close = (tlsFrames (a ++ b)).close) ∧
    (∀ a b : Bytes, (tlsFrames a).close = true →
      tlsFrames (a ++ b) = ⟨(tlsFrames a).messages, (tlsFrames a).pending ++ b, true⟩) ∧
    (∀ s, (tlsFrames s).messages.flatten ++ (tlsFrames s).pending = s) ∧
    (∀ s, ∀ m ∈ (tlsFrames s).messages, m.length ≤ 65536 ∧
      ∃ t, tlv m 0 m.length = some t ∧ t.tag = 0x30 ∧ t.stop = m.length) ∧
    (∀ r m, dtlsRecord r = some m ↔ m = r ∧ r.length ≤ 65536 ∧
      ∃ t, tlv r 0 r.length = some t ∧ t.tag = 0x30 ∧ t.stop = r.length) ∧
    (∀ s, Ts.tlsFrames s = tlsFrames s) ∧ ∀ r, Ts.dtlsRecord r = dtlsRecord r := by
  refine ⟨fun a b => ?_, fun a b h => tlsFrames_append_of_close h b, flatten_append_pending,
    isFrame_of_mem, fun r m => dtlsRecord_eq_some, Ts.tlsFrames_eq, Ts.dtlsRecord_eq⟩
  rw [tlsFrames_append a b]
  exact ⟨rfl, rfl, rfl⟩

/-- A stream cut inside a length. -/
theorem framing_sound_cut : (tlsFrames ([0x30, 0x81] ++ [0x02, 7, 7])).messages =
      (tlsFrames [0x30, 0x81]).messages ++
        (tlsFrames ((tlsFrames [0x30, 0x81]).pending ++ [0x02, 7, 7])).messages ∧
    tlsFrames ([0x31, 0x00] ++ [5]) = ⟨(tlsFrames [0x31, 0x00]).messages,
      (tlsFrames [0x31, 0x00]).pending ++ [5], true⟩ := by
  obtain ⟨hcut, hclose, -⟩ := framing_sound
  have hclosed : nextFrame [0x31, 0x00] = .close := by decide
  exact ⟨(hcut _ _).1.symm, hclose _ _ (by rw [tlsFrames_close hclosed])⟩

end Dsip.Events
