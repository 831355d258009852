import Dsip.Lib.Der
import Dsip.Lib.Safe
import Dsip.Tn.Path

/-!
# TNAuthList

The strict DER reader of a certificate's TNAuthList. Each of its parts is read where it
stands for the bytes that DER writes for it, and nowhere else; and no part looks at a byte that
is not there (`Safe`).
-/

namespace Dsip.Tn

open Dsip.Lib Dsip.Lib.Der

/-- A `ValueError`, with its text, or an `IndexError`. -/
inductive DerFault where
  | value (text : String)
  | index
  deriving DecidableEq, Repr

abbrev Octets := List UInt8

/-! ## Elements -/

/-- `b[i]`. -/
def octet (b : Octets) (i : Nat) : Except DerFault UInt8 :=
  match b[i]? with
  | some x => .ok x
  | none => .error .index

/-- `b[i:i + n]`. -/
def octets (b : Octets) (i n : Nat) : Octets := (b.drop i).take n

/-- The length whose first byte is `l0` and whose next is at `i`, and where the content is. -/
def derLength (b : Octets) (l0 : UInt8) (i : Nat) : Except DerFault (Nat × Nat) :=
  if l0 < 0x80 then .ok (l0.toNat, i)
  else
    let k := (l0 &&& 0x7F).toNat
    if k = 0 ∨ 4 < k ∨ b.length < i + k then .error (.value "length")
    else octet b i >>= fun first =>
      if first = 0 then .error (.value "length")
      else
        let n := BigEndian.value (octets b i k)
        if n < 0x80 then .error (.value "non-minimal length") else .ok (n, i + k)

def derRead (b : Octets) (i : Nat) : Except DerFault (UInt8 × Octets × Nat) :=
  if b.length < i + 2 then .error (.value "short")
  else octet b i >>= fun tag => octet b (i + 1) >>= fun l0 =>
    derLength b l0 (i + 2) >>= fun (n, i) =>
      if b.length < i + n then .error (.value "overrun") else .ok (tag, octets b i n, i + n)

/-- The bytes at `i` are an element, up to `stop`. -/
structure ElementAt (b : Octets) (i : Nat) (tag : UInt8) (content : Octets) (stop : Nat) : Prop where
  bytes : b.drop i = element tag content ++ b.drop stop
  stop_eq : stop = i + (element tag content).length
  short : content.length < 2 ^ 32

section Elements

variable {b : Octets} {i : Nat}

theorem octet_eq (h : i < b.length) : octet b i = .ok b[i] := by
  unfold octet
  rw [List.getElem?_eq_getElem h]

theorem drop_octets (b : Octets) (i n : Nat) : b.drop i = octets b i n ++ b.drop (i + n) := by
  rw [octets, ← List.drop_drop, List.take_append_drop]

theorem length_octets {n : Nat} (h : i + n ≤ b.length) : (octets b i n).length = n := by
  rw [octets, List.length_take, List.length_drop]
  omega

theorem low_bits {x : UInt8} (h : ¬ x < 0x80) : UInt8.ofNat (0x80 + (x &&& 0x7F).toNat) = x := by
  have hlow : (x &&& 0x7F).toNat = x.toNat % 2 ^ 7 := by
    rw [UInt8.toNat_and]
    exact Nat.and_two_pow_sub_one_eq_mod x.toNat 7
  have hlt := x.toNat_lt
  rw [UInt8.lt_iff_toNat_lt, show (0x80 : UInt8).toNat = 128 from rfl] at h
  rw [hlow]
  apply UInt8.toNat_inj.mp
  rw [UInt8.toNat_ofNat']
  omega

theorem derLength_safe {l0 : UInt8} (hi : i ≤ b.length) :
    Safe (· = .index) (fun r => l0 :: b.drop i = lengthBytes r.1 ++ b.drop r.2 ∧ r.1 < 2 ^ 32 ∧
      r.2 + 1 = i + (lengthBytes r.1).length) (derLength b l0 i) := by
  unfold derLength
  split
  case isTrue hshort =>
    have hlt : l0.toNat < 0x80 := UInt8.lt_iff_toNat_lt.mp hshort
    have hbytes : lengthBytes l0.toNat = [l0] := by rw [lengthBytes, if_pos hlt, UInt8.ofNat_toNat]
    refine Safe.ok ?_
    show l0 :: b.drop i = lengthBytes l0.toNat ++ b.drop i ∧ _ ∧ _ = i + (lengthBytes l0.toNat).length
    rw [hbytes]
    exact ⟨rfl, by show l0.toNat < _; omega, rfl⟩
  case isFalse hlong =>
    dsimp only
    have hbits := low_bits hlong
    generalize (l0 &&& 0x7F).toNat = k at hbits
    split
    case isTrue => exact Safe.error (by simp)
    case isFalse hroom =>
      rw [octet_eq (show i < b.length by omega)]
      show Safe _ _ (if b[i] = 0 then _ else _)
      split
      case isTrue => exact Safe.error (by simp)
      case isFalse hzero =>
        split
        case isTrue => exact Safe.error (by simp)
        case isFalse hleast =>
          have hlength : (octets b i k).length = k := length_octets (by omega)
          have hhead : (octets b i k).head? ≠ some 0 := by
            rw [octets, List.head?_take, if_neg (by omega), List.head?_drop, List.getElem?_eq_getElem (by omega)]
            exact fun heq => hzero (Option.some.inj heq)
          have hvalue := leastBytes_value hhead
          have hlt := BigEndian.value_lt (octets b i k)
          have hfour : 256 ^ (octets b i k).length ≤ 256 ^ 4 := Nat.pow_le_pow_right (by omega) (by omega)
          have hbytes : lengthBytes (BigEndian.value (octets b i k)) = l0 :: octets b i k := by
            rw [lengthBytes, if_neg hleast, hvalue, hlength, hbits]
          refine Safe.ok ⟨?_, ?_, ?_⟩
          · rw [hbytes, List.cons_append, ← drop_octets]
          · exact hlt.trans_le hfour
          · rw [hbytes, List.length_cons, hlength]
            omega

theorem derLength_lengthBytes {l0 : UInt8} {n stop : Nat} (hbytes : l0 :: b.drop i = lengthBytes n ++ b.drop stop)
    (hstop : stop + 1 = i + (lengthBytes n).length) (hn : n < 2 ^ 32) (hi : i ≤ b.length) :
    derLength b l0 i = .ok (n, stop) := by
  unfold lengthBytes at hbytes hstop
  unfold derLength
  split at hbytes
  case isTrue hshort =>
    rw [if_pos hshort] at hstop
    obtain ⟨rfl, -⟩ := List.cons.inj hbytes
    have hfirst : (UInt8.ofNat n).toNat = n := by
      rw [UInt8.toNat_ofNat']
      omega
    have hlt : UInt8.ofNat n < 0x80 := UInt8.lt_iff_toNat_lt.mpr (hfirst.symm ▸ hshort)
    rw [if_pos hlt, hfirst]
    obtain rfl : stop = i := Nat.succ.inj hstop
    rfl
  case isFalse hlong =>
    rw [if_neg hlong, List.length_cons] at hstop
    obtain ⟨rfl, hdrop⟩ := List.cons.inj hbytes
    have hlength := length_leastBytes n
    have hfour : BigEndian.byteLength n ≤ 4 := BigEndian.byteLength_le_iff.mpr hn
    have hpos : 0 < BigEndian.byteLength n := by
      by_contra hzero
      have hlt := BigEndian.lt_byteLength n
      rw [Nat.le_zero.mp (not_lt.mp hzero)] at hlt
      omega
    have hbits : ¬ UInt8.ofNat (0x80 + BigEndian.byteLength n) < 0x80 ∧
        (UInt8.ofNat (0x80 + BigEndian.byteLength n) &&& 0x7F).toNat = BigEndian.byteLength n := by
      generalize BigEndian.byteLength n = k at hfour hpos
      interval_cases k <;> decide
    have hoctets : octets b i (BigEndian.byteLength n) = leastBytes n := by
      rw [octets, hdrop, List.append_eq, ← hlength, List.take_left]
    have hroom : i + BigEndian.byteLength n ≤ b.length := by
      have hle := congrArg List.length hdrop
      rw [List.append_eq, List.length_append, List.length_drop, hlength] at hle
      omega
    have hi' : i < b.length := by omega
    have hhead : ¬ b[i] = 0 := by
      intro hzero
      apply head_leastBytes n
      rw [← hoctets, octets, List.head?_take, if_neg (by omega), List.head?_drop,
        List.getElem?_eq_getElem (by omega), hzero]
    rw [hlength]
    rw [if_neg hbits.1]
    dsimp only
    rw [hbits.2, if_neg (by omega), octet_eq (show i < b.length by omega)]
    show (if b[i] = 0 then _ else _) = _
    rw [if_neg hhead, hoctets, value_leastBytes, if_neg hlong]
    obtain rfl : stop = i + BigEndian.byteLength n := by omega
    rfl

theorem derRead_safe : Safe (· = .index) (fun r => ElementAt b i r.1 r.2.1 r.2.2) (derRead b i) := by
  unfold derRead
  split
  case isTrue => exact Safe.error (by simp)
  case isFalse hroom =>
    rw [octet_eq (show i < b.length by omega), octet_eq (show i + 1 < b.length by omega)]
    refine (derLength_safe (show i + 2 ≤ b.length by omega)).bind fun (n, start) ⟨hbytes, hn, hstart⟩ => ?_
    dsimp only at hbytes hn hstart ⊢
    split
    case isTrue => exact Safe.error (by simp)
    case isFalse hfits =>
      have hlength : (octets b start n).length = n := length_octets (by omega)
      refine Safe.ok ⟨?_, ?_, hlength.symm ▸ hn⟩
      · rw [List.drop_eq_getElem_cons (by omega), List.drop_eq_getElem_cons (show i + 1 < b.length by omega), hbytes,
          drop_octets b start n, element, hlength, List.cons_append, List.append_assoc]
      · dsimp only
        rw [element, hlength, List.length_cons, List.length_append, hlength]
        omega

theorem ElementAt.read {tag : UInt8} {c : Octets} {stop : Nat} (h : ElementAt b i tag c stop) :
    derRead b i = .ok (tag, c, stop) := by
  obtain ⟨hbytes, rfl, hshort⟩ := h
  have hpos := length_lt_element tag c
  have hroom : i + (element tag c).length ≤ b.length := by
    have hle := congrArg List.length hbytes
    rw [List.length_append, List.length_drop] at hle
    omega
  have hi : i + 1 < b.length := by omega
  have hlength : (element tag c).length = (lengthBytes c.length).length + c.length + 1 := by
    rw [element, List.length_cons, List.length_append]
  rw [hlength] at hbytes hroom ⊢
  rw [List.drop_eq_getElem_cons (by omega), element, List.cons_append, List.append_assoc] at hbytes
  obtain ⟨htag, hrest⟩ := List.cons.inj hbytes
  have hcontent : b.drop (i + 1 + (lengthBytes c.length).length) =
      c ++ b.drop (i + ((lengthBytes c.length).length + c.length + 1)) := by
    rw [← List.drop_drop, hrest, List.drop_left]
  have hread : derLength b b[i + 1] (i + 2) = .ok (c.length, i + 1 + (lengthBytes c.length).length) := by
    refine derLength_lengthBytes ?_ (by omega) hshort (by omega)
    rw [hcontent, ← hrest, ← List.drop_eq_getElem_cons hi]
  unfold derRead
  rw [if_neg (by omega), octet_eq (show i < b.length by omega), octet_eq hi]
  show (derLength b b[i + 1] (i + 2) >>= _) = _
  rw [hread]
  show (if _ then _ else _) = _
  rw [if_neg (by omega), octets, hcontent, List.take_left, htag]
  congr 3
  omega

end Elements

/-! ## Exactly one, and a sequence -/

def derOne (b : Octets) (tag : UInt8) : Except DerFault Octets :=
  derRead b 0 >>= fun (t, c, stop) =>
    if t ≠ tag ∨ stop ≠ b.length then .error (.value "expected exactly one element") else .ok c

/-- The loop of `der_seq`, from `i` on. -/
def derSeqFrom (content : Octets) (i : Nat) : Except DerFault (List (UInt8 × Octets)) :=
  if i < content.length then
    match _hread : derRead content i with
    | .error fault => .error fault
    | .ok (t, c, next) => (derSeqFrom content next).map ((t, c) :: ·)
  else .ok []
termination_by content.length - i
decreasing_by
  have hstop : next = i + (element t c).length := (derRead_safe.value _hread).stop_eq
  have hlength := length_lt_element t c
  omega

def derSeq (content : Octets) : Except DerFault (List (UInt8 × Octets)) := derSeqFrom content 0

/-- The elements, one after the other. -/
def elements (l : List (UInt8 × Octets)) : Octets := l.flatMap fun e => element e.1 e.2

theorem derOne_safe (b : Octets) (tag : UInt8) :
    Safe (· = .index) (fun c => b = element tag c ∧ c.length < 2 ^ 32) (derOne b tag) := by
  refine derRead_safe.bind fun (t, c, stop) h => ?_
  dsimp only at h ⊢
  split
  case isTrue => exact Safe.error (by simp)
  case isFalse hone =>
    obtain ⟨rfl, rfl⟩ : t = tag ∧ stop = b.length := by simpa using hone
    refine Safe.ok ⟨?_, h.short⟩
    simpa using h.bytes

theorem element_read {tag : UInt8} {c : Octets} (hc : c.length < 2 ^ 32) :
    derRead (element tag c) 0 = .ok (tag, c, (element tag c).length) := ElementAt.read ⟨by simp, by simp, hc⟩

theorem derOne_element {c : Octets} (tag : UInt8) (hc : c.length < 2 ^ 32) : derOne (element tag c) tag = .ok c := by
  unfold derOne
  rw [element_read hc]
  simp [bind, Except.bind]

theorem derSeqFrom_safe (content : Octets) (i : Nat) : Safe (· = .index)
    (fun l => content.drop i = elements l ∧ ∀ e ∈ l, e.2.length < 2 ^ 32) (derSeqFrom content i) := by
  fun_induction derSeqFrom content i with
  | case1 i hi fault hread =>
    have hsafe := derRead_safe (b := content) (i := i)
    rw [hread] at hsafe
    exact hsafe
  | case2 i hi t c next hread ih =>
    obtain ⟨hbytes, -, hshort⟩ := derRead_safe.value hread
    cases hrest : derSeqFrom content next with
    | error fault =>
      rw [hrest] at ih
      exact ih
    | ok l =>
      obtain ⟨hdrop, hshorts⟩ := ih.value hrest
      refine Safe.ok ⟨?_, ?_⟩
      · rw [hbytes, hdrop]
        rfl
      · intro e he
        rcases List.mem_cons.mp he with rfl | he
        · exact hshort
        · exact hshorts e he
  | case3 i hi =>
    refine Safe.ok ⟨List.drop_eq_nil_of_le (by omega), ?_⟩
    intro e he
    cases he

theorem derSeqFrom_elements {content : Octets} {i : Nat} {l : List (UInt8 × Octets)}
    (hl : content.drop i = elements l) (hshort : ∀ e ∈ l, e.2.length < 2 ^ 32) :
    derSeqFrom content i = .ok l := by
  induction l generalizing i with
  | nil =>
    have hend : ¬ i < content.length := not_lt.mpr (List.drop_eq_nil_iff.mp hl)
    rw [derSeqFrom, if_neg hend]
  | cons e l ih =>
    have hdrop : content.drop i = element e.1 e.2 ++ elements l := hl
    have hrest : content.drop (i + (element e.1 e.2).length) = elements l := by
      rw [← List.drop_drop, hdrop, List.drop_left]
    have hread : derRead content i = .ok (e.1, e.2, i + (element e.1 e.2).length) :=
      ElementAt.read ⟨hrest.symm ▸ hdrop, rfl, hshort e List.mem_cons_self⟩
    have hi : i < content.length := by
      have hlength := length_lt_element e.1 e.2
      have hle := congrArg List.length hdrop
      rw [List.length_append, List.length_drop] at hle
      omega
    rw [derSeqFrom, if_pos hi]
    split
    case h_1 fault hfault =>
      rw [hread] at hfault
      cases hfault
    case h_2 t c next hnext =>
      rw [hread] at hnext
      cases hnext
      rw [ih hrest fun e he => hshort e (List.mem_cons_of_mem _ he)]
      rfl

/-! ## Entries -/

def telChars : List Char := "0123456789#*".toList

/-- `c.decode("ascii")`, of bytes below 0x80. -/
def decodeAscii (c : Octets) : String := String.ofList (c.map fun x => Char.ofNat x.toNat)

def telNumber (t : UInt8) (c : Octets) : Except DerFault String :=
  if t ≠ 0x16 ∨ ¬ (1 ≤ c.length ∧ c.length ≤ 15) ∨ (c.any fun x => Char.ofNat x.toNat ∉ telChars) then
    .error (.value "TelephoneNumber")
  else .ok (decodeAscii c)

/-- The check of an INTEGER's bytes: some, and no more of them than it takes. -/
def checkInteger (ib : Octets) : Except DerFault Unit :=
  if ib = [] then .error (.value "integer")
  else if 1 < ib.length then
    octet ib 0 >>= fun x => octet ib 1 >>= fun y =>
      if (x = 0 ∧ y < 0x80) ∨ (x = 0xFF ∧ 0x80 ≤ y) then .error (.value "integer") else .ok ()
  else .ok ()

/-- The branch of a range, of the two parts of its sequence. -/
def parseRange (first second : UInt8 × Octets) : Except DerFault TnEntry :=
  if second.1 ≠ 0x02 then .error (.value "range")
  else telNumber first.1 first.2 >>= fun start => checkInteger second.2 >>= fun _ =>
    let count := BigEndian.signedValue second.2
    if count < 2 then .error (.value "count") else .ok (.range start count.toNat)

/-- The turn of the loop of `parse_tnauth`. -/
def parseEntry (tag : UInt8) (c : Octets) : Except DerFault TnEntry :=
  if tag = 0xA0 then
    derOne c 0x16 >>= fun s =>
      if s = [] ∨ (s.any fun x => 0x80 ≤ x) then .error (.value "spc") else .ok (.spc (decodeAscii s))
  else if tag = 0xA1 then
    derOne c 0x30 >>= fun inner => derSeq inner >>= fun
      | [first, second] => parseRange first second
      | _ => .error (.value "range")
  else if tag = 0xA2 then
    derRead c 0 >>= fun (t, n, stop) =>
      if stop ≠ c.length then .error (.value "one") else (telNumber t n).map .one
  else .error (.value "entry tag")

def parseTnauth (value : Octets) : Except DerFault (List TnEntry) :=
  derOne value 0x30 >>= fun content => derSeq content >>= fun entries =>
    if entries = [] then .error (.value "empty") else entries.mapM fun e => parseEntry e.1 e.2

/-! ## The encoding of entries -/

def encodeAscii (s : String) : Octets := s.toList.map fun c => UInt8.ofNat c.toNat

/-- The tag and the content of an entry. -/
def TnEntry.part : TnEntry → UInt8 × Octets
  | .spc code => (0xA0, element 0x16 (encodeAscii code))
  | .range start count => (0xA1, element 0x30 (element 0x16 (encodeAscii start) ++ element 0x02 (integerBytes count)))
  | .one number => (0xA2, element 0x16 (encodeAscii number))

/-- The content of a TNAuthList. -/
def entryBytes (es : List TnEntry) : Octets := elements (es.map TnEntry.part)

/-- The DER encoding of a TNAuthList. -/
def encodeTnauth (es : List TnEntry) : Octets := element 0x30 (entryBytes es)

def TelephoneNumber (s : String) : Prop :=
  (1 ≤ s.toList.length ∧ s.toList.length ≤ 15) ∧ ∀ c ∈ s.toList, c ∈ telChars

def TnEntry.Valid : TnEntry → Prop
  | .spc code => code.toList ≠ [] ∧ ∀ c ∈ code.toList, c.toNat < 0x80
  | .range start count => TelephoneNumber start ∧ 2 ≤ count
  | .one number => TelephoneNumber number

section Entries

variable {tag : UInt8} {c : Octets} {s : String}

theorem telChars_ascii : ∀ c ∈ telChars, c.toNat < 0x80 := by decide

theorem toNat_ofNat_octet (x : UInt8) : (Char.ofNat x.toNat).toNat = x.toNat := by
  have hlt := x.toNat_lt
  rw [Char.ofNat, dif_pos (.inl (by omega))]
  rfl

theorem encodeAscii_decodeAscii (c : Octets) : encodeAscii (decodeAscii c) = c := by
  rw [encodeAscii, decodeAscii, String.toList_ofList, List.map_map]
  calc c.map _ = c.map id := List.map_congr_left fun x _ => by
        show UInt8.ofNat (Char.ofNat x.toNat).toNat = x
        rw [toNat_ofNat_octet, UInt8.ofNat_toNat]
    _ = c := List.map_id c

theorem decodeAscii_encodeAscii (hs : ∀ c ∈ s.toList, c.toNat < 0x80) : decodeAscii (encodeAscii s) = s := by
  rw [encodeAscii, decodeAscii, List.map_map]
  calc String.ofList (s.toList.map _) = String.ofList (s.toList.map id) :=
        congrArg String.ofList <| List.map_congr_left fun c hc => by
          show Char.ofNat (UInt8.ofNat c.toNat).toNat = c
          rw [UInt8.toNat_ofNat', Nat.mod_eq_of_lt (by have := hs c hc; omega), Char.ofNat_toNat]
    _ = s := by rw [List.map_id, String.ofList_toList]

theorem TelephoneNumber.ascii (h : TelephoneNumber s) : ∀ c ∈ s.toList, c.toNat < 0x80 :=
  fun c hc => telChars_ascii c (h.2 c hc)

theorem telNumber_safe (t : UInt8) (c : Octets) : Safe (· = .index)
    (fun s => TelephoneNumber s ∧ (t, c) = (0x16, encodeAscii s)) (telNumber t c) := by
  unfold telNumber
  split
  case isTrue => exact Safe.error (by simp)
  case isFalse h =>
    obtain ⟨rfl, hlength, hchars⟩ : t = 0x16 ∧ (1 ≤ c.length ∧ c.length ≤ 15) ∧
        ∀ x ∈ c, Char.ofNat x.toNat ∈ telChars := by simpa [List.any_eq_true] using h
    refine Safe.ok ⟨⟨?_, ?_⟩, by rw [encodeAscii_decodeAscii]⟩
    · rwa [decodeAscii, String.toList_ofList, List.length_map]
    · intro d hd
      rw [decodeAscii, String.toList_ofList] at hd
      obtain ⟨x, hx, rfl⟩ := List.mem_map.mp hd
      exact hchars x hx

theorem TelephoneNumber.read (h : TelephoneNumber s) : telNumber 0x16 (encodeAscii s) = .ok s := by
  have hback := decodeAscii_encodeAscii h.ascii
  unfold telNumber
  rw [if_neg, hback]
  have hlength : (encodeAscii s).length = s.toList.length := by rw [encodeAscii, List.length_map]
  have hchars : ∀ x ∈ encodeAscii s, Char.ofNat x.toNat ∈ telChars := by
    intro x hx
    have hmem : Char.ofNat x.toNat ∈ (decodeAscii (encodeAscii s)).toList := by
      rw [decodeAscii, String.toList_ofList]
      exact List.mem_map_of_mem hx
    rw [hback] at hmem
    exact h.2 _ hmem
  simp [hlength, h.1]
  simpa using hchars

theorem redundant_iff {x y : UInt8} {r : Octets} :
    Redundant (x :: y :: r) ↔ (x = 0 ∧ y < 0x80) ∨ (x = 0xFF ∧ 0x80 ≤ y) := by
  constructor
  · intro ⟨x', y', r', heq, h⟩
    cases heq
    exact h
  · exact fun h => ⟨x, y, r, rfl, h⟩

theorem checkInteger_safe (ib : Octets) :
    Safe (· = .index) (fun _ => ib ≠ [] ∧ ¬ Redundant ib) (checkInteger ib) := by
  match ib with
  | [] => exact Safe.error (by simp)
  | [x] => exact Safe.ok ⟨List.cons_ne_nil x [], fun ⟨_, _, _, heq, _⟩ => by cases heq⟩
  | x :: y :: r =>
    show Safe _ _ (if (x = 0 ∧ y < 0x80) ∨ (x = 0xFF ∧ 0x80 ≤ y) then _ else _)
    split
    case isTrue => exact Safe.error (by simp)
    case isFalse h => exact Safe.ok ⟨List.cons_ne_nil _ _, fun hred => h (redundant_iff.mp hred)⟩

theorem checkInteger_integerBytes (n : Nat) : checkInteger (integerBytes n) = .ok () := by
  obtain ⟨hne, hred, -⟩ := (eq_integerBytes_iff (n := n)).mp rfl
  generalize integerBytes n = ib at hne hred
  match ib with
  | [] => exact absurd rfl hne
  | [x] => rfl
  | x :: y :: r =>
    show (if (x = 0 ∧ y < 0x80) ∨ (x = 0xFF ∧ 0x80 ≤ y) then _ else _) = _
    rw [if_neg fun h => hred (redundant_iff.mpr h)]

theorem parseRange_safe (first second : UInt8 × Octets) : Safe (· = .index)
    (fun e => ∃ start count, e = .range start count ∧ e.Valid ∧ first = (0x16, encodeAscii start) ∧
      second = (0x02, integerBytes count)) (parseRange first second) := by
  obtain ⟨t, ib⟩ := second
  unfold parseRange
  split
  case isTrue => exact Safe.error (by simp)
  case isFalse htag =>
    obtain rfl : t = 0x02 := not_not.mp htag
    refine (telNumber_safe _ _).bind fun start ⟨hnumber, hfirst⟩ => ?_
    refine (checkInteger_safe _).bind fun _ ⟨hne, hred⟩ => ?_
    dsimp only at hne hred ⊢
    split
    case isTrue => exact Safe.error (by simp)
    case isFalse hcount =>
      have hbytes : ib = integerBytes (BigEndian.signedValue ib).toNat :=
        eq_integerBytes_iff.mpr ⟨hne, hred, by omega⟩
      exact Safe.ok ⟨start, _, rfl, ⟨hnumber, by omega⟩, hfirst, congrArg _ hbytes⟩

theorem parseRange_ok {start : String} {count : Nat} (h : (TnEntry.range start count).Valid) :
    parseRange (0x16, encodeAscii start) (0x02, integerBytes count) = .ok (.range start count) := by
  obtain ⟨hnumber, hcount⟩ := h
  have hvalue : BigEndian.signedValue (integerBytes count) = count := (eq_integerBytes_iff.mp rfl).2.2
  unfold parseRange
  rw [if_neg (fun h => h rfl), hnumber.read]
  show (checkInteger (integerBytes count) >>= _) = _
  rw [checkInteger_integerBytes]
  show (if BigEndian.signedValue (integerBytes count) < 2 then _ else _) = _
  rw [hvalue, if_neg (by omega), Int.toNat_natCast]

theorem parseEntry_safe (tag : UInt8) (c : Octets) :
    Safe (· = .index) (fun e => e.Valid ∧ (tag, c) = e.part) (parseEntry tag c) := by
  unfold parseEntry
  split
  case isTrue htag =>
    subst htag
    refine (derOne_safe c 0x16).bind fun s ⟨hc, _⟩ => ?_
    split
    case isTrue => exact Safe.error (by simp)
    case isFalse h =>
      obtain ⟨hne, hascii⟩ : s ≠ [] ∧ ∀ x ∈ s, x < 0x80 := by simpa [List.any_eq_true] using h
      refine Safe.ok ⟨⟨?_, ?_⟩, ?_⟩
      · simpa [decodeAscii] using hne
      · intro d hd
        rw [decodeAscii, String.toList_ofList] at hd
        obtain ⟨x, hx, rfl⟩ := List.mem_map.mp hd
        rw [toNat_ofNat_octet]
        exact UInt8.lt_iff_toNat_lt.mp (hascii x hx)
      · show _ = (_, element 0x16 (encodeAscii (decodeAscii s)))
        rw [encodeAscii_decodeAscii, hc]
  case isFalse =>
    split
    case isTrue htag =>
      subst htag
      refine (derOne_safe c 0x30).bind fun inner ⟨hc, _⟩ => ?_
      refine (derSeqFrom_safe inner 0).bind fun items ⟨hinner, _⟩ => ?_
      match items with
      | [] | [_] | _ :: _ :: _ :: _ => exact Safe.error (by simp)
      | [first, second] =>
        refine (parseRange_safe first second).mono fun e ⟨start, count, he, hvalid, hfirst, hsecond⟩ => ⟨hvalid, ?_⟩
        rw [List.drop_zero] at hinner
        rw [hc, hinner, he, hfirst, hsecond]
        simp [TnEntry.part, elements]
    case isFalse =>
      split
      case isTrue htag =>
        subst htag
        refine derRead_safe.bind fun (t, n, stop) h => ?_
        dsimp only at h ⊢
        split
        case isTrue => exact Safe.error (by simp)
        case isFalse hstop =>
          have hc : c = element t n := by
            have hbytes := h.bytes
            rw [not_not.mp hstop, List.drop_length, List.append_nil] at hbytes
            exact hbytes
          have hnumber := telNumber_safe t n
          cases hread : telNumber t n with
          | error fault =>
            rw [hread] at hnumber
            exact hnumber
          | ok s =>
            obtain ⟨hvalid, hpart⟩ := hnumber.value hread
            obtain ⟨rfl, rfl⟩ := Prod.mk.inj hpart
            exact Safe.ok ⟨hvalid, congrArg _ hc⟩
      case isFalse => exact Safe.error (by simp)

theorem element_short {t : UInt8} {c : Octets} (h : (element t c).length < 2 ^ 32) : c.length < 2 ^ 32 := by
  have hlength := length_lt_element t c
  omega

theorem parseEntry_part {e : TnEntry} (h : e.Valid) (hshort : e.part.2.length < 2 ^ 32) :
    parseEntry e.part.1 e.part.2 = .ok e := by
  cases e with
  | spc code =>
    obtain ⟨hne, hascii⟩ := h
    show (derOne (element 0x16 (encodeAscii code)) 0x16 >>= _) = _
    rw [derOne_element 0x16 (element_short hshort)]
    show (if encodeAscii code = [] ∨ _ then _ else _) = _
    rw [if_neg, decodeAscii_encodeAscii hascii]
    intro hbad
    rcases hbad with hnil | hhigh
    · exact hne (List.map_eq_nil_iff.mp hnil)
    · obtain ⟨x, hx, hhigh⟩ := List.any_eq_true.mp hhigh
      obtain ⟨c, hc, rfl⟩ := List.mem_map.mp hx
      have hlow := hascii c hc
      have hle := UInt8.le_iff_toNat_le.mp (of_decide_eq_true hhigh)
      rw [UInt8.toNat_ofNat', Nat.mod_eq_of_lt (by omega)] at hle
      exact absurd hlow (not_lt.mpr hle)
  | range start count =>
    show (derOne (element 0x30 (element 0x16 (encodeAscii start) ++ element 0x02 (integerBytes count))) 0x30 >>= _) = _
    have hinner := element_short hshort
    rw [derOne_element 0x30 hinner]
    rw [List.length_append] at hinner
    have hitems : derSeq (element 0x16 (encodeAscii start) ++ element 0x02 (integerBytes count)) =
        .ok [(0x16, encodeAscii start), (0x02, integerBytes count)] := by
      refine derSeqFrom_elements (by simp [elements]) ?_
      intro e he
      rcases List.mem_cons.mp he with rfl | he
      · exact element_short (show (element 0x16 (encodeAscii start)).length < 2 ^ 32 by omega)
      · obtain rfl := List.mem_singleton.mp he
        exact element_short (show (element 0x02 (integerBytes count)).length < 2 ^ 32 by omega)
    show (derSeq _ >>= _) = _
    rw [hitems]
    exact parseRange_ok h
  | one number =>
    show (derRead (element 0x16 (encodeAscii number)) 0 >>= _) = _
    rw [element_read (element_short hshort)]
    show (if (element 0x16 (encodeAscii number)).length ≠ _ then _ else _) = _
    rw [if_neg (fun h => h rfl), TelephoneNumber.read h]
    rfl

end Entries

/-! ## The list -/

theorem parseTnauth_safe (v : Octets) : Safe (· = .index)
    (fun es => es ≠ [] ∧ (∀ e ∈ es, e.Valid) ∧ encodeTnauth es = v) (parseTnauth v) := by
  refine (derOne_safe v 0x30).bind fun content ⟨hv, _⟩ => ?_
  refine (derSeqFrom_safe content 0).bind fun entries hentries => ?_
  have hcontent := hentries.1
  clear hentries
  split
  case isTrue => exact Safe.error (by simp)
  case isFalse hne =>
    rw [List.drop_zero] at hcontent
    have hall : Safe (· = .index) (fun es => entries = es.map TnEntry.part ∧ ∀ e ∈ es, e.Valid)
        (entries.mapM fun e => parseEntry e.1 e.2) := by
      clear hne hcontent
      induction entries with
      | nil => exact Safe.ok ⟨rfl, fun e he => by cases he⟩
      | cons e entries ih =>
        rw [List.mapM_cons]
        refine (parseEntry_safe e.1 e.2).bind fun entry ⟨hvalid, hpart⟩ => ?_
        refine ih.bind fun es ⟨hparts, hvalids⟩ => Safe.ok ⟨?_, ?_⟩
        · rw [hparts, List.map_cons, ← hpart]
        · intro e' he'
          rcases List.mem_cons.mp he' with rfl | he'
          · exact hvalid
          · exact hvalids e' he'
    refine hall.mono fun es ⟨hparts, hvalids⟩ => ⟨?_, hvalids, ?_⟩
    · rintro rfl
      exact hne hparts
    · rw [encodeTnauth, entryBytes, ← hparts, ← hcontent, hv]

theorem parseTnauth_encode {es : List TnEntry} (hne : es ≠ []) (hvalid : ∀ e ∈ es, e.Valid)
    (hshort : (entryBytes es).length < 2 ^ 32) : parseTnauth (encodeTnauth es) = .ok es := by
  have hparts : ∀ e ∈ es, e.part.2.length < 2 ^ 32 := by
    intro e he
    have hlength := length_lt_element e.part.1 e.part.2
    have hle : (element e.part.1 e.part.2).length ≤ (entryBytes es).length := by
      rw [entryBytes, elements, List.flatMap_def]
      have hmem : element e.part.1 e.part.2 ∈ (es.map TnEntry.part).map fun e => element e.1 e.2 :=
        List.mem_map.mpr ⟨e.part, List.mem_map_of_mem he, rfl⟩
      exact (List.sublist_flatten_of_mem hmem).length_le
    omega
  have hentries : derSeq (entryBytes es) = .ok (es.map TnEntry.part) := by
    refine derSeqFrom_elements rfl ?_
    intro e he
    obtain ⟨entry, hentry, rfl⟩ := List.mem_map.mp he
    exact hparts entry hentry
  have hall : (es.map TnEntry.part).mapM (fun e => parseEntry e.1 e.2) = .ok es := by
    clear hne hshort hentries
    induction es with
    | nil => rfl
    | cons e es ih =>
      rw [List.map_cons, List.mapM_cons, parseEntry_part (hvalid e List.mem_cons_self) (hparts e List.mem_cons_self),
        ih (fun e he => hvalid e (List.mem_cons_of_mem _ he)) fun e he => hparts e (List.mem_cons_of_mem _ he)]
      rfl
  unfold parseTnauth encodeTnauth
  rw [derOne_element 0x30 hshort]
  show (derSeq (entryBytes es) >>= _) = _
  rw [hentries]
  show (if es.map TnEntry.part = [] then _ else _) = _
  rw [if_neg (mt List.map_eq_nil_iff.mp hne), hall]

/-- **A TNAuthList has one encoding.** What is accepted is the DER encoding of its entries, so no
two byte strings are read alike; the encoding of valid entries is accepted as them; and nothing is
read outside the bytes. -/
theorem tnauth_canonical :
    (∀ v es, parseTnauth v = .ok es → encodeTnauth es = v ∧ es ≠ [] ∧ ∀ e ∈ es, e.Valid) ∧
    (∀ v w es, parseTnauth v = .ok es → parseTnauth w = .ok es → v = w) ∧
    (∀ es, es ≠ [] → (∀ e ∈ es, e.Valid) → (entryBytes es).length < 2 ^ 32 →
      parseTnauth (encodeTnauth es) = .ok es) ∧
    (∀ v, parseTnauth v ≠ .error .index) := by
  refine ⟨?_, ?_, fun es => parseTnauth_encode, ?_⟩
  · intro v es h
    obtain ⟨hne, hvalid, hv⟩ := (parseTnauth_safe v).value h
    exact ⟨hv, hne, hvalid⟩
  · intro v w es hv hw
    rw [← ((parseTnauth_safe v).value hv).2.2, ((parseTnauth_safe w).value hw).2.2]
  · intro v h
    exact (parseTnauth_safe v).not_fails ⟨.index, h, rfl⟩

end Dsip.Tn
