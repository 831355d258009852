import Dsip.Lib.Base58
import Dsip.Lib.Encodings
import Dsip.Lib.Json

/-!
# Canonical JSON and its hashes

`jcs` (RFC 8785) and the multihash that an entry of a log names. Up to the order
of members a value is known by its canonical bytes (`jcs_inj`), and by its
multihash if SHA-256 is injective (`mhB58_inj`).
-/

namespace Dsip.Webvh

open Dsip.Lib

abbrev Bytes := List UInt8

structure Crypto where
  sha256 : Bytes → Bytes
  /-- By public key, data and signature. -/
  ed25519Verify : Bytes → Bytes → Bytes → Bool

/-- The code units of a string in UTF-16. -/
def utf16 (s : String) : List Nat :=
  s.toList.flatMap fun c =>
    if c.toNat < 0x10000 then [c.toNat]
    else [0xD800 + (c.toNat - 0x10000) / 0x400, 0xDC00 + (c.toNat - 0x10000) % 0x400]

def sortMembers (ms : List (String × Json)) : List (String × Json) :=
  ms.insertionSort fun a b => utf16 a.1 ≤ utf16 b.1

mutual

/-- A value with the members of its objects in order. -/
def canon : Json → Json
  | .arr vs => .arr (canonItems vs)
  | .obj ms => .obj (sortMembers (canonMembers ms))
  | .null => .null
  | .bool b => .bool b
  | .int n => .int n
  | .str s => .str s

def canonItems : List Json → List Json
  | [] => []
  | v :: vs => canon v :: canonItems vs

def canonMembers : List (String × Json) → List (String × Json)
  | [] => []
  | (k, v) :: ms => (k, canon v) :: canonMembers ms

end

def jcs (v : Json) : Bytes := utf8Encode ((canon v).render [])

theorem jcs_inj {v w : Json} (h : jcs v = jcs w) : canon v = canon w :=
  Json.render_injective (fun _ hc => absurd hc List.not_mem_nil) (utf8Encode_injective h)

def mhSha256 : Bytes := [0x12, 0x20]

def mhB58 (c : Crypto) (data : Bytes) : String := String.ofList (base58Encode (mhSha256 ++ c.sha256 data))

theorem mhB58_inj {c : Crypto} (hc : Function.Injective c.sha256) {x y : Bytes}
    (h : mhB58 c x = mhB58 c y) : x = y := by
  have hhead (d : Bytes) : ∀ a ∈ (mhSha256 ++ d).head?, a ≠ 0 := by
    rintro _ ⟨⟩
    decide
  have hdata := base58Encode_inj (hhead _) (hhead _) (String.ofList_injective h)
  exact hc (List.append_cancel_left hdata)

end Dsip.Webvh
