import Dsip.Binding.SdpRead
import Dsip.Events.Ber
import Dsip.Lib.BigEndian

/-!
# BER as the gateway writes it

`_len`, `_tlv`, `_int`, `_uint` and `_oid`, and that the readers take what they
write for what was written.
-/

namespace Dsip.Events

open Dsip.Lib

/-! ## Writers -/

/-- `_len`. -/
def writeLen (n : Nat) : Bytes :=
  if n < 0x80 then [UInt8.ofNat n]
  else
    let k := BigEndian.bytes (BigEndian.byteLength n) n
    UInt8.ofNat (0x80 ||| k.length) :: k

/-- `_tlv`. -/
def writeTlv (tag : UInt8) (body : Bytes) : Bytes := tag :: (writeLen body.length ++ body)

/-- The least width from `n` on that a number fits, of so many. -/
def fitFrom (v : Int) : Nat → Nat → Nat
  | 0, n => n
  | fuel + 1, n => if BigEndian.Fits n v then n else fitFrom v fuel (n + 1)

/-- The content `_int` writes; no number needs as many bytes as it has units. -/
def intContent (v : Int) : Bytes := BigEndian.signedBytes (fitFrom v v.natAbs 1) v

/-- `_int`. -/
def writeInt (v : Int) : Bytes := writeTlv 0x02 (intContent v)

/-- The content `_uint` writes: not one that reads as negative. -/
def uintContent (v : Nat) : Bytes :=
  let k := BigEndian.bytes (max 1 (BigEndian.byteLength v)) v
  if k.headD 0 &&& 0x80 ≠ 0 then 0 :: k else k

/-- `_uint`. -/
def writeUint (tag : UInt8) (v : Nat) : Bytes := writeTlv tag (uintContent v)

/-- The groups of seven bits above the last one; `fuel` is not used up where it
is the number. -/
def highGroups : Nat → Nat → Bytes
  | 0, _ => []
  | fuel + 1, sub =>
    if sub = 0 then [] else highGroups fuel (sub / 128) ++ [UInt8.ofNat (0x80 ||| sub % 128)]

def writeSub (sub : Nat) : Bytes := highGroups (sub / 128) (sub / 128) ++ [UInt8.ofNat (sub % 128)]

/-- The numbers of an OID, the first two of them in one. -/
def subsOf : List Int → Option (List Int)
  | a :: b :: rest => some ((a * 40 + b) :: rest)
  | _ => none

/-- `_oid`; there is none of a text that is no OID, nor of a number below zero,
whose groups never end. -/
def writeOid (oid : String) : Option Bytes := do
  let p ← (oid.toList.splitOn '.').mapM Binding.int
  let subs ← subsOf p
  guard (∀ sub ∈ subs, 0 ≤ sub)
  return writeTlv 0x06 (subs.flatMap fun sub => writeSub sub.toNat)

/-! ## Elements -/

section Elements

variable {tag : UInt8} {body pre rest : Bytes} {n : Nat}

theorem slice_append (pre body rest : Bytes) :
    slice (pre ++ (body ++ rest)) pre.length (pre.length + body.length) = body := by
  unfold slice
  rw [List.drop_left, Nat.add_sub_cancel_left, List.take_left]

theorem byteLength_le_four (hn : n < 2 ^ 32) : BigEndian.byteLength n ≤ 4 :=
  BigEndian.byteLength_le_iff.mpr hn

theorem byteLength_pos (hn : 0x80 ≤ n) : 0 < BigEndian.byteLength n := by
  by_contra hzero
  have hlt := BigEndian.lt_byteLength n
  rw [Nat.le_zero.mp (not_lt.mp hzero)] at hlt
  omega

theorem long_first (hn : 0x80 ≤ n) (hlt : n < 2 ^ 32) :
    ¬ UInt8.ofNat (0x80 ||| BigEndian.byteLength n) < 0x80 ∧
      (UInt8.ofNat (0x80 ||| BigEndian.byteLength n) &&& 0x7F).toNat = BigEndian.byteLength n := by
  have hfour := byteLength_le_four hlt
  have hpos := byteLength_pos hn
  generalize BigEndian.byteLength n = k at hfour hpos
  interval_cases k <;> decide

theorem tlv_of_short {b : Bytes} {pos stop : Nat} {first : UInt8} (htag? : b[pos]? = some tag)
    (htag : tag &&& 0x1F ≠ 0x1F) (hfirst? : b[pos + 1]? = some first) (hfirst : first < 0x80)
    (hstop : pos + 2 + first.toNat ≤ stop) : tlv b pos stop = some ⟨tag, pos + 2, pos + 2 + first.toNat⟩ := by
  have hroom : pos + 2 ≤ stop := by omega
  unfold tlv
  simp [guard, hroom, htag?, htag, hfirst?, hfirst, hstop]

theorem tlv_of_long {b : Bytes} {pos stop k : Nat} {first : UInt8} (htag? : b[pos]? = some tag)
    (htag : tag &&& 0x1F ≠ 0x1F) (hfirst? : b[pos + 1]? = some first) (hfirst : ¬ first < 0x80)
    (hk : (first &&& 0x7F).toNat = k) (hpos : 0 < k) (hfour : k ≤ 4)
    (hn : beNat (slice b (pos + 2) (pos + 2 + k)) = n) (hstop : pos + 2 + k + n ≤ stop) :
    tlv b pos stop = some ⟨tag, pos + 2 + k, pos + 2 + k + n⟩ := by
  have hroom : pos + 2 ≤ stop := by omega
  have hlong : k ≠ 0 ∧ k ≤ 4 ∧ pos + 2 + k ≤ stop := by omega
  unfold tlv
  rw [UInt8.toNat_and] at hk
  simp [guard, hroom, htag?, htag, hfirst?, hfirst, show first.toNat &&& 127 = k from hk, hlong, hn, hstop]

theorem tlv_writeTlv (htag : tag &&& 0x1F ≠ 0x1F) (hbody : body.length < 2 ^ 32) {stop : Nat}
    (hstop : pre.length + (writeTlv tag body).length ≤ stop) :
    tlv (pre ++ (writeTlv tag body ++ rest)) pre.length stop =
      some ⟨tag, pre.length + 1 + (writeLen body.length).length,
        pre.length + (writeTlv tag body).length⟩ := by
  have hlength : (writeTlv tag body).length = 1 + (writeLen body.length).length + body.length := by
    unfold writeTlv
    simp
    omega
  rw [hlength] at hstop ⊢
  have htag? : (pre ++ (writeTlv tag body ++ rest))[pre.length]? = some tag := by
    unfold writeTlv
    simp
  unfold writeTlv at htag? ⊢
  generalize hn : body.length = n at *
  by_cases hshort : n < 0x80
  · have hlen : writeLen n = [UInt8.ofNat n] := if_pos hshort
    have hfirst : (UInt8.ofNat n).toNat = n := by
      rw [UInt8.toNat_ofNat']
      omega
    rw [hlen] at htag? hstop ⊢
    rw [List.length_singleton] at hstop
    have hread := @tlv_of_short tag _ pre.length stop (UInt8.ofNat n) htag? htag
      (by rw [List.getElem?_append_right (by omega)]; simp)
      (by rw [UInt8.lt_iff_toNat_lt, hfirst]; exact hshort) (by rw [hfirst]; omega)
    rw [hread, hfirst]
    simp
    omega
  · have hlen : writeLen n = UInt8.ofNat (0x80 ||| BigEndian.byteLength n) ::
        BigEndian.bytes (BigEndian.byteLength n) n := by
      unfold writeLen
      rw [if_neg hshort]
      dsimp only
      rw [BigEndian.length_bytes]
    obtain ⟨hlong, hk⟩ := long_first (not_lt.mp hshort) hbody
    have hwidth : (writeLen n).length = 1 + BigEndian.byteLength n := by
      rw [hlen]
      simp
      omega
    rw [hwidth] at hstop ⊢
    rw [hlen] at htag? ⊢
    have hcount : slice (pre ++ (tag :: (UInt8.ofNat (0x80 ||| BigEndian.byteLength n) ::
        BigEndian.bytes (BigEndian.byteLength n) n ++ body) ++ rest)) (pre.length + 2)
        (pre.length + 2 + BigEndian.byteLength n) = BigEndian.bytes (BigEndian.byteLength n) n := by
      have h := slice_append (pre ++ [tag, UInt8.ofNat (0x80 ||| BigEndian.byteLength n)])
        (BigEndian.bytes (BigEndian.byteLength n) n) (body ++ rest)
      simpa using h
    have hread := @tlv_of_long tag n _ pre.length stop _ _ htag? htag
      (by rw [List.getElem?_append_right (by omega)]; simp) hlong hk (byteLength_pos (not_lt.mp hshort))
      (byteLength_le_four hbody)
      (by rw [hcount]; exact BigEndian.value_bytes (BigEndian.lt_byteLength n)) (by omega)
    rw [hread]
    simp
    omega

theorem content_writeTlv : Tlv.content (pre ++ (writeTlv tag body ++ rest))
      ⟨tag, pre.length + 1 + (writeLen body.length).length, pre.length + (writeTlv tag body).length⟩ =
      body := by
  have h := slice_append (pre ++ tag :: writeLen body.length) body rest
  have hlength : (pre ++ tag :: writeLen body.length).length =
      pre.length + 1 + (writeLen body.length).length := by
    simp
    omega
  rw [hlength] at h
  unfold Tlv.content
  convert h using 2
  · unfold writeTlv
    simp
  · unfold writeTlv
    simp
    omega

end Elements

/-! ## Integers -/

section Integers

variable {v : Int} {c : Bytes}

theorem and_high (x : UInt8) : x &&& 0x80 = 0 ↔ x.toNat < 128 := by
  have hall : ∀ n : Fin 256, n.val &&& 128 = 0 ↔ n.val < 128 := by decide +kernel
  rw [← UInt8.toNat_inj, UInt8.toNat_and]
  exact hall ⟨x.toNat, x.toNat_lt⟩

theorem beInt_eq (c : Bytes) : beInt c = BigEndian.signedValue c := by
  have hpow : (2 : Int) ^ (8 * c.length) = 256 ^ c.length := by
    rw [pow_mul]
    rfl
  unfold beInt BigEndian.signedValue BigEndian.negative
  rw [hpow]
  by_cases hlow : (c.headD 0).toNat < 128
  · rw [if_pos ((and_high _).mpr hlow), if_neg (by simpa using hlow)]
    rfl
  · rw [if_neg fun h => hlow ((and_high _).mp h), if_pos (by simpa using hlow)]
    rfl

theorem berInt_eq_some : berInt c = some v ↔ (1 ≤ c.length ∧ c.length ≤ 8) ∧ BigEndian.signedValue c = v := by
  unfold berInt
  rw [beInt_eq]
  by_cases hlength : 1 ≤ c.length ∧ c.length ≤ 8 <;> simp [hlength]

theorem fits_natAbs (v : Int) : BigEndian.Fits (v.natAbs + 1) v := by
  have hlt : v.natAbs < 2 ^ (8 * (v.natAbs + 1) - 1) :=
    (Nat.lt_two_pow_self).trans_le (Nat.pow_le_pow_right (by decide) (by omega))
  have habs : |v| < 2 ^ (8 * (v.natAbs + 1) - 1) := by
    rw [Int.abs_eq_natAbs]
    exact_mod_cast hlt
  obtain ⟨hlow, hhigh⟩ := abs_lt.mp habs
  exact ⟨hlow.le, hhigh⟩

theorem fitFrom_spec {fuel n : Nat} (hfits : BigEndian.Fits (n + fuel) v) :
    n ≤ fitFrom v fuel n ∧ BigEndian.Fits (fitFrom v fuel n) v ∧
      ∀ m, n ≤ m → BigEndian.Fits m v → fitFrom v fuel n ≤ m := by
  induction fuel generalizing n with
  | zero => exact ⟨le_refl n, hfits, fun m hm _ => hm⟩
  | succ fuel ih =>
    unfold fitFrom
    split
    case isTrue h => exact ⟨le_refl n, h, fun m hm _ => hm⟩
    case isFalse h =>
      obtain ⟨hle, hfits', hleast⟩ := ih (n := n + 1) (by rwa [Nat.add_right_comm])
      refine ⟨by omega, hfits', fun m hm hmfits => ?_⟩
      have hne : m ≠ n := fun heq => h (heq ▸ hmfits)
      exact hleast m (by omega) hmfits

theorem berInt_intContent (hlow : -2 ^ 63 ≤ v) (hhigh : v < 2 ^ 63) : berInt (intContent v) = some v ∧
      ∀ c, c ≠ [] → BigEndian.signedValue c = v → (intContent v).length ≤ c.length := by
  have hfits := fits_natAbs v
  rw [Nat.add_comm] at hfits
  obtain ⟨hpos, hwidth, hleast⟩ := fitFrom_spec hfits
  have hlength : (intContent v).length = fitFrom v v.natAbs 1 := BigEndian.length_bytes _ _
  have height : fitFrom v v.natAbs 1 ≤ 8 := hleast 8 (by decide) ⟨hlow, hhigh⟩
  refine ⟨berInt_eq_some.mpr ⟨by omega, BigEndian.signedValue_signedBytes hpos hwidth⟩, fun c hc hcv => ?_⟩
  rw [hlength]
  exact hleast _ (List.length_pos_iff.mpr hc) (hcv ▸ BigEndian.fits_signedValue hc)

theorem negative_eq (c : Bytes) : BigEndian.negative c = true ↔ c.headD 0 &&& 0x80 ≠ 0 := by
  unfold BigEndian.negative
  rw [decide_eq_true_eq, ne_eq, and_high, not_lt]

theorem berUint_of_length {n : Nat} (hpos : 1 ≤ c.length) (hlength : c.length ≤ 8 ∨ c.length = 9 ∧ c.headD 0 = 0)
    (hvalue : BigEndian.value c = n) : berUint c = some n := by
  have hok : 1 ≤ c.length ∧ c.length ≤ 9 ∧ ¬ (c.length = 9 ∧ c.headD 0 ≠ 0) := by
    refine ⟨hpos, by omega, fun ⟨hnine, hne⟩ => ?_⟩
    exact hne (hlength.resolve_left (by omega)).2
  unfold berUint
  rw [if_pos hok]
  exact congrArg some hvalue

/-- `ber_uint` takes back what `_uint` writes, and so does a reader of two's
complement; no fewer bytes say it in two's complement. -/
theorem berUint_uintContent {n : Nat} (h : n < 2 ^ 64) :
    berUint (uintContent n) = some n ∧ BigEndian.signedValue (uintContent n) = n ∧
      ∀ c, c ≠ [] → BigEndian.signedValue c = n → (uintContent n).length ≤ c.length := by
  have hwidth : max 1 (BigEndian.byteLength n) ≤ 8 := max_le (by decide) (BigEndian.byteLength_le_iff.mpr h)
  have hone : 1 ≤ max 1 (BigEndian.byteLength n) := le_max_left _ _
  have hfits : n < 256 ^ max 1 (BigEndian.byteLength n) := BigEndian.byteLength_le_iff.mp (le_max_right _ _)
  have hlength := BigEndian.length_bytes (max 1 (BigEndian.byteLength n)) n
  have hvalue := BigEndian.value_bytes hfits
  have hne : BigEndian.bytes (max 1 (BigEndian.byteLength n)) n ≠ [] := by
    rw [← List.length_pos_iff, hlength]
    exact hone
  have hhalf := BigEndian.negative_iff hne
  have hbound : ∀ c : Bytes, c ≠ [] → BigEndian.signedValue c = n →
      (n : Int) < 2 ^ (8 * c.length - 1) ∧ BigEndian.byteLength n ≤ c.length := by
    intro c hc hcv
    have hlt := (BigEndian.fits_signedValue hc).2
    rw [hcv] at hlt
    refine ⟨hlt, BigEndian.byteLength_le_iff.mpr ?_⟩
    have hpow : (256 : Nat) ^ c.length = 2 ^ (8 * c.length) := by
      rw [pow_mul]
      rfl
    rw [hpow]
    have hlt' : n < 2 ^ (8 * c.length - 1) := by exact_mod_cast hlt
    exact hlt'.trans_le (Nat.pow_le_pow_right (by decide) (Nat.sub_le _ _))
  unfold uintContent
  generalize BigEndian.bytes (max 1 (BigEndian.byteLength n)) n = k at *
  dsimp only
  rw [hlength, hvalue] at hhalf
  split
  case isTrue hneg =>
    -- the leading bit is taken: one more byte
    have hsign : BigEndian.signedValue (0 :: k) = n := by
      have hzero : BigEndian.negative (0 :: k) = false := rfl
      unfold BigEndian.signedValue
      rw [hzero, BigEndian.value_cons, hvalue]
      simp
    refine ⟨berUint_of_length (by simp) ?_ (by rw [BigEndian.value_cons, hvalue]; simp), hsign, ?_⟩
    · rw [List.length_cons, hlength]
      simp
      omega
    · intro c hc hcv
      obtain ⟨hlt, -⟩ := hbound c hc hcv
      have hle := hhalf.mp ((negative_eq k).mpr hneg)
      have hpow : (2 : Nat) ^ (8 * max 1 (BigEndian.byteLength n) - 1) < 2 ^ (8 * c.length - 1) := by
        exact_mod_cast hle.trans_lt hlt
      have hexp := (Nat.pow_lt_pow_iff_right (by decide)).mp hpow
      rw [List.length_cons, hlength]
      omega
  case isFalse hpos =>
    have hfalse : BigEndian.negative k = false := by
      rw [Bool.eq_false_iff]
      exact fun hneg => hpos ((negative_eq k).mp hneg)
    have hsign : BigEndian.signedValue k = n := by
      unfold BigEndian.signedValue
      rw [hfalse, hvalue]
      simp
    refine ⟨berUint_of_length (by omega) (.inl (by omega)) hvalue, hsign, ?_⟩
    intro c hc hcv
    have hle := (hbound c hc hcv).2
    have hcpos := List.length_pos_iff.mpr hc
    omega

end Integers

/-! ## OIDs -/

section Oids

variable {s : Nat} {rest : Bytes}

theorem high_bits : ∀ m : Fin 128, (UInt8.ofNat (0x80 ||| m.val) &&& 0x7F).toNat = m.val ∧
    UInt8.ofNat (0x80 ||| m.val) &&& 0x80 ≠ 0 ∧ (UInt8.ofNat m.val &&& 0x7F).toNat = m.val ∧
    UInt8.ofNat m.val &&& 0x80 = 0 := by
  decide +kernel

theorem byte_bits (x : UInt8) : (x &&& 0x7F).toNat < 128 ∧
    (x &&& 0x80 = 0 → UInt8.ofNat (x &&& 0x7F).toNat = x) ∧
    (x &&& 0x80 ≠ 0 → UInt8.ofNat (0x80 ||| (x &&& 0x7F).toNat) = x) ∧
    (x &&& 0x80 ≠ 0 → (x &&& 0x7F).toNat = 0 → x = 0x80) := by
  have hall : ∀ n : Fin 256, let x := UInt8.ofNat n.val
      (x &&& 0x7F).toNat < 128 ∧ (x &&& 0x80 = 0 → UInt8.ofNat (x &&& 0x7F).toNat = x) ∧
        (x &&& 0x80 ≠ 0 → UInt8.ofNat (0x80 ||| (x &&& 0x7F).toNat) = x) ∧
        (x &&& 0x80 ≠ 0 → (x &&& 0x7F).toNat = 0 → x = 0x80) := by
    decide +kernel
  have h := hall ⟨x.toNat, x.toNat_lt⟩
  rwa [UInt8.ofNat_toNat] at h

theorem highGroups_fuel {fuel fuel' : Nat} (h : s ≤ fuel) (h' : s ≤ fuel') :
    highGroups fuel s = highGroups fuel' s := by
  induction fuel generalizing fuel' s with
  | zero =>
    obtain rfl := Nat.le_zero.mp h
    cases fuel' <;> simp [highGroups]
  | succ fuel ih =>
    by_cases hs : s = 0
    · cases fuel' <;> simp [highGroups, hs]
    · obtain ⟨fuel', rfl⟩ : ∃ k, fuel' = k + 1 := ⟨fuel' - 1, by omega⟩
      rw [highGroups, highGroups, if_neg hs, if_neg hs, @ih _ fuel' (by omega) (by omega)]

theorem highGroups_step (hs : s ≠ 0) :
    highGroups s s = highGroups (s / 128) (s / 128) ++ [UInt8.ofNat (0x80 ||| s % 128)] := by
  obtain ⟨k, rfl⟩ := Nat.exists_eq_succ_of_ne_zero hs
  rw [highGroups, if_neg hs, highGroups_fuel (by omega) (le_refl _)]

theorem oidSubs_highGroups (hs : s < 2 ^ 64) : oidSubs 0 (highGroups s s ++ rest) = oidSubs s rest := by
  induction s using Nat.strong_induction_on generalizing rest with
  | _ s ih =>
    by_cases hzero : s = 0
    · subst hzero
      rfl
    · obtain ⟨hvalue, hmore, -, -⟩ := high_bits ⟨s % 128, Nat.mod_lt s (by decide)⟩
      dsimp only at hvalue hmore
      rw [highGroups_step hzero, List.append_assoc, ih (s / 128) (by omega) (by omega),
        List.singleton_append, oidSubs, hvalue, Nat.div_add_mod', if_neg (by omega), if_neg hmore]

theorem oidSubs_writeSub (hs : s < 2 ^ 64) :
    oidSubs 0 (writeSub s ++ rest) = (oidSubs 0 rest).map (s :: ·) := by
  obtain ⟨-, -, hvalue, hlast⟩ := high_bits ⟨s % 128, Nat.mod_lt s (by decide)⟩
  dsimp only at hvalue hlast
  unfold writeSub
  rw [List.append_assoc, oidSubs_highGroups (by omega), List.singleton_append, oidSubs, hvalue,
    Nat.div_add_mod', if_neg (by omega), if_pos hlast]

theorem oidSubs_flatMap {subs : List Nat} (h : ∀ s ∈ subs, s < 2 ^ 64) :
    oidSubs 0 (subs.flatMap writeSub) = some subs := by
  induction subs with
  | nil => rfl
  | cons s subs ih =>
    rw [List.flatMap_cons, oidSubs_writeSub (h s List.mem_cons_self),
      ih fun s' hs' => h s' (List.mem_cons_of_mem s hs')]
    rfl

theorem getLast?_writeSub (s : Nat) (pre : Bytes) :
    ∃ last, (pre ++ writeSub s).getLast? = some last ∧ last &&& 0x80 = 0 := by
  obtain ⟨-, -, -, hlast⟩ := high_bits ⟨s % 128, Nat.mod_lt s (by decide)⟩
  refine ⟨_, ?_, hlast⟩
  unfold writeSub
  rw [← List.append_assoc, List.getLast?_concat]

theorem berOid_flatMap {subs : List Nat} (hne : subs ≠ []) (h : ∀ s ∈ subs, s < 2 ^ 64) :
    berOid (subs.flatMap writeSub) = some (dotted subs) := by
  obtain ⟨last, hlast, hclear⟩ : ∃ last, (subs.flatMap writeSub).getLast? = some last ∧ last &&& 0x80 = 0 := by
    obtain ⟨init, s, rfl⟩ := (List.eq_nil_or_concat subs).resolve_left hne
    rw [List.concat_eq_append, List.flatMap_append, List.flatMap_singleton]
    exact getLast?_writeSub s _
  unfold berOid
  rw [hlast]
  dsimp only
  rw [if_neg (not_not.mpr hclear), oidSubs_flatMap h]
  rfl

variable {ns : List Nat}

theorem mapM_int_digits (h : ∀ n ∈ ns, n < 2 ^ 64) :
    (ns.map fun n => Nat.toDigits 10 n).mapM Binding.int = some (ns.map Int.ofNat) := by
  induction ns with
  | nil => rfl
  | cons n ns ih =>
    have hlength : (Nat.toDigits 10 n).length ≤ Binding.maxDigits := by
      have hsmall : (Nat.toDigits 10 n).length ≤ 20 :=
        (Nat.length_toDigits_le_iff (by decide) (by decide)).mpr ((h n List.mem_cons_self).trans (by decide))
      exact hsmall.trans (by decide)
    have hvalue : Binding.Ts.natOf (Nat.toDigits 10 n) = n := by
      have hfold := @Nat.ofDigitChars_ten_toDigits n
      rw [Nat.ofDigitChars_eq_foldl] at hfold
      unfold Binding.Ts.natOf
      simpa only [Nat.mul_comm 10] using hfold
    have hint := Binding.int_digits (Json.isDigit_toDigits n) Nat.toDigits_ne_nil hlength
    rw [hvalue] at hint
    rw [List.map_cons, List.mapM_cons, hint, ih fun n' hn' => h n' (List.mem_cons_of_mem n hn')]
    rfl

theorem mapM_int_dots (hne : ns ≠ []) (h : ∀ n ∈ ns, n < 2 ^ 64) :
    ((".".intercalate (ns.map toString)).toList.splitOn '.').mapM Binding.int = some (ns.map Int.ofNat) := by
  have htext : (ns.map toString).map String.toList = ns.map fun n => Nat.toDigits 10 n := by
    rw [List.map_map]
    refine List.map_congr_left fun n _ => ?_
    show (Nat.repr n).toList = _
    rw [Nat.repr_eq_ofList_toDigits, String.toList_ofList]
  have hdots : ∀ l ∈ ns.map fun n => Nat.toDigits 10 n, '.' ∉ l := by
    intro l hl hdot
    obtain ⟨n, -, rfl⟩ := List.mem_map.mp hl
    exact absurd (Json.isDigit_toDigits n _ hdot) (by decide)
  rw [String.toList_intercalate, htext]
  show (([ '.' ].intercalate _).splitOn '.').mapM _ = _
  rw [List.splitOn_intercalate '.' hdots (by simpa using hne), mapM_int_digits h]

theorem dotted_eq {x : Nat} :
    ∃ a b, a * 40 + b = x ∧ dotted (x :: ns) = ".".intercalate ((a :: b :: ns).map toString) := by
  unfold dotted
  dsimp only
  split
  · exact ⟨0, x, by omega, rfl⟩
  · split
    · exact ⟨1, x - 40, by omega, rfl⟩
    · exact ⟨2, x - 80, by omega, rfl⟩

theorem writeOid_dotted {x : Nat} (h : ∀ n ∈ x :: ns, n < 2 ^ 64) :
    writeOid (dotted (x :: ns)) = some (writeTlv 0x06 ((x :: ns).flatMap writeSub)) := by
  obtain ⟨a, b, hab, htext⟩ := @dotted_eq ns x
  have hx := h x List.mem_cons_self
  have hall : ∀ n ∈ a :: b :: ns, n < 2 ^ 64 := by
    intro n hn
    rcases List.mem_cons.mp hn with rfl | hn
    · omega
    · rcases List.mem_cons.mp hn with rfl | hn
      · omega
      · exact h n (List.mem_cons_of_mem x hn)
  have hsubs : subsOf ((a :: b :: ns).map Int.ofNat) = some ((x :: ns).map Int.ofNat) := by
    have hfirst : Int.ofNat a * 40 + Int.ofNat b = Int.ofNat x := by
      rw [← hab]
      show (a : Int) * 40 + b = ((a * 40 + b : Nat) : Int)
      push_cast
      rfl
    simp only [List.map_cons, subsOf, hfirst]
  have hpos : ∀ sub ∈ (x :: ns).map Int.ofNat, 0 ≤ sub := by
    intro sub hsub
    obtain ⟨n, -, rfl⟩ := List.mem_map.mp hsub
    exact Int.natCast_nonneg n
  unfold writeOid
  rw [htext, mapM_int_dots (by simp) hall]
  simp only [Option.bind_eq_bind, Option.bind_some, hsubs, guard, if_pos hpos, Option.pure_def,
    List.flatMap_map]
  rfl

/-- No number of an OID starts with a byte that adds nothing; `start` says whether
one starts here. -/
def noPadding (start : Bool) : Bytes → Bool
  | [] => true
  | x :: rest => ¬ (start ∧ x = 0x80) && noPadding (x &&& 0x80 = 0) rest

theorem flatMap_oidSubs {c : Bytes} {acc : Nat} {subs : List Nat} (h : oidSubs acc c = some subs)
    (hlast : ∀ last ∈ c.getLast?, last &&& 0x80 = 0) (hne : acc ≠ 0 → c ≠ [])
    (hpad : noPadding (acc = 0) c = true) (hacc : acc < 2 ^ 64) :
    subs.flatMap writeSub = highGroups acc acc ++ c ∧ ∀ n ∈ subs, n < 2 ^ 64 := by
  induction c generalizing acc subs with
  | nil =>
    have hzero : acc = 0 := by
      by_contra hacc'
      exact hne hacc' rfl
    obtain rfl := Option.some.inj h
    subst hzero
    exact ⟨rfl, by simp⟩
  | cons x rest ih =>
    unfold oidSubs at h
    dsimp only at h
    split at h
    case isTrue => cases h
    case isFalse hle =>
      have hlt : acc * 128 + (x &&& 0x7F).toNat < 2 ^ 64 := by omega
      obtain ⟨hlow, hclear, hset, hpadding⟩ := byte_bits x
      have hquotient : (acc * 128 + (x &&& 0x7F).toNat) / 128 = acc := by omega
      have hrem : (acc * 128 + (x &&& 0x7F).toNat) % 128 = (x &&& 0x7F).toNat := by omega
      unfold noPadding at hpad
      rw [Bool.and_eq_true, decide_eq_true_eq] at hpad
      split at h
      case isTrue hend =>
        -- a number ends here, and the next one starts
        obtain ⟨subs, hsubs, rfl⟩ := Option.map_eq_some_iff.mp h
        have hpad' : noPadding (decide (0 = 0)) rest = true := by
          rw [← hpad.2]
          simp [hend]
        have hlast' : ∀ last ∈ rest.getLast?, last &&& 0x80 = 0 := by
          intro last hl
          refine hlast last ?_
          rw [List.getLast?_cons, Option.mem_def.mp hl]
          rfl
        obtain ⟨hbytes, hbound⟩ := ih hsubs hlast' (fun hz => absurd rfl hz) hpad' (by decide)
        refine ⟨?_, ?_⟩
        · rw [List.flatMap_cons, hbytes, writeSub, hquotient, hrem, hclear hend]
          simp [highGroups]
        · intro n hn
          rcases List.mem_cons.mp hn with rfl | hn
          · exact hlt
          · exact hbound n hn
      case isFalse hmore =>
        have hrest : rest ≠ [] := by
          rintro rfl
          exact hmore (hlast x rfl)
        have hacc' : acc * 128 + (x &&& 0x7F).toNat ≠ 0 := by
          intro hzero
          have hx := hpadding hmore (by omega)
          exact hpad.1 ⟨by rw [decide_eq_true_eq]; omega, hx⟩
        have hpad' : noPadding (decide (acc * 128 + (x &&& 0x7F).toNat = 0)) rest = true := by
          rw [← hpad.2, decide_eq_false hacc', decide_eq_false hmore]
        have hlast' : ∀ last ∈ rest.getLast?, last &&& 0x80 = 0 := by
          intro last hl
          refine hlast last ?_
          rw [List.getLast?_cons, Option.mem_def.mp hl]
          rfl
        obtain ⟨hbytes, hbound⟩ := ih h hlast' (fun _ => hrest) hpad' hlt
        refine ⟨?_, hbound⟩
        rw [hbytes, highGroups_step hacc', hquotient, hrem, hset hmore]
        simp

theorem writeOid_berOid {c : Bytes} {o : String} (h : berOid c = some o) (hpad : noPadding true c = true) :
    writeOid o = some (writeTlv 0x06 c) := by
  unfold berOid at h
  cases hlast : c.getLast? with
  | none => rw [hlast] at h; cases h
  | some last =>
    rw [hlast] at h
    dsimp only at h
    split at h
    case isTrue => cases h
    case isFalse hclear =>
      obtain ⟨subs, hsubs, rfl⟩ := Option.map_eq_some_iff.mp h
      rw [ne_eq, not_not] at hclear
      have hend : ∀ l ∈ c.getLast?, l &&& 0x80 = 0 := by
        intro l hl
        rw [Option.mem_def, hlast] at hl
        exact Option.some.inj hl ▸ hclear
      obtain ⟨hbytes, hbound⟩ := flatMap_oidSubs hsubs hend (fun hz => absurd rfl hz)
        (by simpa using hpad) (by decide)
      have hbytes' : subs.flatMap writeSub = c := by simpa [highGroups] using hbytes
      cases subs with
      | nil =>
        rw [← hbytes'] at hlast
        cases hlast
      | cons x ns => rw [writeOid_dotted hbound, hbytes']

/-- Arcs that an OID may have. -/
def ValidArcs : List Nat → Prop
  | a :: b :: rest => a ≤ 2 ∧ (a ≠ 2 → b < 40) ∧ a * 40 + b < 2 ^ 64 ∧ ∀ n ∈ rest, n < 2 ^ 64
  | _ => False

theorem berOid_writeOid {arcs : List Nat} (h : ValidArcs arcs) :
    ∃ c, writeOid (".".intercalate (arcs.map toString)) = some (writeTlv 0x06 c) ∧
      berOid c = some (".".intercalate (arcs.map toString)) := by
  match arcs, h with
  | a :: b :: rest, ⟨ha, hb, hab, hrest⟩ =>
    have hbound : ∀ n ∈ (a * 40 + b) :: rest, n < 2 ^ 64 := by
      intro n hn
      rcases List.mem_cons.mp hn with rfl | hn
      · exact hab
      · exact hrest n hn
    have htext : dotted ((a * 40 + b) :: rest) = ".".intercalate ((a :: b :: rest).map toString) := by
      unfold dotted
      dsimp only
      interval_cases a
      · rw [if_pos (by omega)]
        simp
      · rw [if_neg (by omega), if_pos (by omega)]
        simp
      · rw [if_neg (by omega), if_neg (by omega)]
        simp
    rw [← htext]
    exact ⟨_, writeOid_dotted hbound, berOid_flatMap (by simp) hbound⟩

end Oids

/-- The writers and the readers are inverse, and the writers use the fewest bytes
there are in two's complement. -/
theorem ber_inverse : (∀ (tag : UInt8) (body rest : Bytes), tag &&& 0x1F ≠ 0x1F → body.length < 2 ^ 32 →
      ∃ t, tlv (writeTlv tag body ++ rest) 0 (writeTlv tag body ++ rest).length = some t ∧
        t.tag = tag ∧ t.content (writeTlv tag body ++ rest) = body) ∧
    (∀ v : Int, -2 ^ 63 ≤ v → v ≤ 2 ^ 63 - 1 → ∃ c, writeInt v = writeTlv 0x02 c ∧
      berInt c = some v ∧ ∀ c', c' ≠ [] → beInt c' = v → c.length ≤ c'.length) ∧
    (∀ (tag : UInt8) (v : Nat), v ≤ 2 ^ 64 - 1 → ∃ c, writeUint tag v = writeTlv tag c ∧
      berUint c = some v ∧ beInt c = v ∧ ∀ c', c' ≠ [] → beInt c' = v → c.length ≤ c'.length) ∧
    (∀ arcs, ValidArcs arcs → ∃ c, writeOid (".".intercalate (arcs.map toString)) = some (writeTlv 0x06 c) ∧
      berOid c = some (".".intercalate (arcs.map toString))) ∧
    ∀ c o, berOid c = some o → noPadding true c = true → writeOid o = some (writeTlv 0x06 c) := by
  refine ⟨fun tag body rest htag hbody => ?tlv, fun v hlow hhigh => ?int, fun tag v hv => ?uint,
    fun arcs h => berOid_writeOid h, fun c o h hpad => writeOid_berOid h hpad⟩
  case tlv =>
    have hread := @tlv_writeTlv tag body [] rest htag hbody (writeTlv tag body ++ rest).length (by simp)
    exact ⟨_, hread, rfl, @content_writeTlv tag body [] rest⟩
  case int =>
    obtain ⟨hread, hleast⟩ := berInt_intContent hlow (by omega)
    exact ⟨_, rfl, hread, fun c hc hv => hleast c hc (beInt_eq c ▸ hv)⟩
  case uint =>
    obtain ⟨hread, hsigned, hleast⟩ := berUint_uintContent (n := v) (by omega)
    exact ⟨_, rfl, hread, beInt_eq _ ▸ hsigned, fun c hc hcv => hleast c hc (beInt_eq c ▸ hcv)⟩

/-- At the edges of the encodings. -/
theorem ber_inverse_edges : (∃ t, tlv (writeTlv 0x30 (List.replicate 128 7) ++ [5]) 0
        (writeTlv 0x30 (List.replicate 128 7) ++ [5]).length = some t ∧ t.tag = 0x30 ∧
        t.content (writeTlv 0x30 (List.replicate 128 7) ++ [5]) = List.replicate 128 7) ∧
    (∃ c, writeInt (-2 ^ 63) = writeTlv 0x02 c ∧ berInt c = some (-2 ^ 63)) ∧
    (∃ c, writeUint 0x46 (2 ^ 64 - 1) = writeTlv 0x46 c ∧ berUint c = some (2 ^ 64 - 1)) ∧
    (∃ c, writeOid "2.999.3" = some (writeTlv 0x06 c) ∧ berOid c = some "2.999.3") := by
  obtain ⟨htlv, hint, huint, hoid, -⟩ := ber_inverse
  refine ⟨htlv 0x30 _ [5] (by decide) (by simp), ?_, ?_, ?_⟩
  · obtain ⟨c, hc, hread, -⟩ := hint (-2 ^ 63) (le_refl _) (by decide)
    exact ⟨c, hc, hread⟩
  · obtain ⟨c, hc, hread, -⟩ := huint 0x46 (2 ^ 64 - 1) (le_refl _)
    exact ⟨c, hc, hread⟩
  · exact hoid [2, 999, 3] ⟨le_refl _, fun h => absurd rfl h, by decide, by decide⟩

end Dsip.Events
