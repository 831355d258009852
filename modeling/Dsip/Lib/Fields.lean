import Dsip.Lib.BigEndian

/-!
# Byte strings made of fields

A string of bytes is put together of fields, one after the other. Where no field is the
beginning of another one (`Separates`), the string determines each of them. A reader that
takes a field off the front of any bytes, and of no others, is its `Field`.
-/

namespace Dsip.Lib.Fields

section Separates

variable {α : Type} {write : α → Option (List UInt8)}

/-- The field that a string starts with is known by the string. -/
def Separates (write : α → Option (List UInt8)) : Prop :=
  ∀ v w f g r s, write v = some f → write w = some g → f ++ r = g ++ s → v = w ∧ r = s

theorem Separates.inj (h : Separates write) {v w : α} {f : List UInt8} (hv : write v = some f)
    (hw : write w = some f) : v = w := (h v w f f [] [] hv hw rfl).1

/-- A text of bytes and the byte that ends it. -/
def ended (stop : UInt8) (text : List UInt8) : Option (List UInt8) :=
  if stop ∈ text then none else some (text ++ [stop])

theorem ended_eq_some {stop : UInt8} {text f : List UInt8} :
    ended stop text = some f ↔ stop ∉ text ∧ text ++ [stop] = f := by
  unfold ended
  split
  case isTrue h => simp [h]
  case isFalse h => simp [h]

theorem separates_ended (stop : UInt8) : Separates (ended stop) := by
  intro v w f g r s hv hw heq
  obtain ⟨hnot, rfl⟩ := ended_eq_some.mp hv
  obtain ⟨hnot', rfl⟩ := ended_eq_some.mp hw
  have htake : ∀ {l t : List UInt8}, stop ∉ l → (l ++ [stop] ++ t).takeWhile (· ≠ stop) = l := by
    intro l t hl
    rw [List.append_assoc, List.takeWhile_append_of_pos fun a ha => by simp; rintro rfl; exact hl ha]
    simp
  have hvw : v = w := by rw [← htake (t := r) hnot, heq, htake hnot']
  subst hvw
  exact ⟨rfl, List.append_cancel_left heq⟩

end Separates

/-! ## Readers -/

section Field

variable {ε α : Type} {read : List UInt8 → Except ε (α × List UInt8)} {write : α → Option (List UInt8)}

/-- What is read off the front of a string is a field, and the rest. -/
def Field (read : List UInt8 → Except ε (α × List UInt8)) (write : α → Option (List UInt8)) : Prop :=
  ∀ b v r, read b = .ok (v, r) ↔ ∃ f, write v = some f ∧ b = f ++ r

theorem Field.read_write (h : Field read write) {v : α} {f r : List UInt8} (hf : write v = some f) :
    read (f ++ r) = .ok (v, r) := (h _ v r).mpr ⟨f, hf, rfl⟩

theorem Field.separates (h : Field read write) : Separates write := by
  intro v w f g r s hf hg heq
  have hread := h.read_write (r := r) hf
  rw [heq, h.read_write hg] at hread
  obtain ⟨rfl, rfl⟩ := Prod.mk.inj (Except.ok.inj hread)
  exact ⟨rfl, rfl⟩

theorem bind_eq_ok {β γ : Type} {x : Except ε β} {k : β → Except ε γ} {y : γ} :
    x >>= k = .ok y ↔ ∃ a, x = .ok a ∧ k a = .ok y := by
  cases x with
  | ok a => exact ⟨fun h => ⟨a, rfl, h⟩, fun ⟨_, ha, h⟩ => by cases ha; exact h⟩
  | error e => exact ⟨fun h => (by cases h), fun ⟨_, ha, _⟩ => (by cases ha)⟩

/-- A number in so many bytes. -/
def pack (width n : Nat) : Option (List UInt8) :=
  if n < 256 ^ width then some (BigEndian.bytes width n) else none

variable (short : ε)

/-- So many bytes, or an error where there are less. -/
def take (n : Nat) (b : List UInt8) : Except ε (List UInt8 × List UInt8) :=
  if b.length < n then .error short else .ok (b.take n, b.drop n)

def takeNat (width : Nat) (b : List UInt8) : Except ε (Nat × List UInt8) :=
  (take short width b).map fun r => (BigEndian.value r.1, r.2)

variable {short}

theorem pack_eq_some {width n : Nat} {f : List UInt8} :
    pack width n = some f ↔ n < 256 ^ width ∧ BigEndian.bytes width n = f := by
  unfold pack
  split
  case isTrue h => simp [h]
  case isFalse h => simp [h]

theorem take_eq_ok {n : Nat} {b x r : List UInt8} : take short n b = .ok (x, r) ↔ b = x ++ r ∧ x.length = n := by
  unfold take
  constructor
  · intro h
    split at h
    case isTrue => cases h
    case isFalse hroom =>
      obtain ⟨rfl, rfl⟩ := Prod.mk.inj (Except.ok.inj h)
      exact ⟨(List.take_append_drop n b).symm, List.length_take_of_le (by omega)⟩
  · rintro ⟨rfl, rfl⟩
    simp

theorem field_takeNat (width : Nat) : Field (takeNat short width) (pack width) := by
  intro b n r
  unfold takeNat
  constructor
  · intro h
    cases hread : take short width b with
    | error e =>
      rw [hread] at h
      cases h
    | ok taken =>
      rw [hread] at h
      obtain ⟨rfl, rfl⟩ := Prod.mk.inj (Except.ok.inj h)
      obtain ⟨hb, hlength⟩ := take_eq_ok.mp hread
      refine ⟨taken.1, pack_eq_some.mpr ⟨?_, ?_⟩, hb⟩
      · rw [← hlength]
        exact BigEndian.value_lt _
      · rw [← hlength, BigEndian.bytes_value]
  · rintro ⟨f, hf, rfl⟩
    obtain ⟨hlt, rfl⟩ := pack_eq_some.mp hf
    rw [take_eq_ok.mpr ⟨rfl, BigEndian.length_bytes width n⟩]
    show Except.ok (BigEndian.value (BigEndian.bytes width n), r) = _
    rw [BigEndian.value_bytes hlt]

theorem field_sized (width : Nat) : Field (fun b => takeNat short width b >>= fun r => take short r.1 r.2)
    fun key => (pack width key.length).map (· ++ key) := by
  intro b key r
  constructor
  · intro h
    obtain ⟨⟨n, b'⟩, hn, hkey⟩ := bind_eq_ok.mp h
    obtain ⟨f, hf, rfl⟩ := (field_takeNat width _ _ _).mp hn
    obtain ⟨rfl, rfl⟩ := take_eq_ok.mp hkey
    exact ⟨f ++ key, Option.map_eq_some_iff.mpr ⟨f, hf, rfl⟩, (List.append_assoc ..).symm⟩
  · rintro ⟨f, hf, rfl⟩
    obtain ⟨size, hsize, rfl⟩ := Option.map_eq_some_iff.mp hf
    rw [List.append_assoc]
    exact bind_eq_ok.mpr ⟨_, (field_takeNat width).read_write hsize, take_eq_ok.mpr ⟨rfl, rfl⟩⟩

theorem separates_pack (width : Nat) : Separates (pack width) := (@field_takeNat Unit () width).separates

theorem separates_sized (width : Nat) : Separates fun key => (pack width key.length).map (· ++ key) :=
  (@field_sized Unit () width).separates

end Field

end Dsip.Lib.Fields
