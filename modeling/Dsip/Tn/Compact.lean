import Dsip.Lib.Encoders
import Dsip.Tn.Jws
import Dsip.Webvh.JcsRead

/-!
# Writing a compact JWS

Two objects, each as the base64url of its canonical text, and a signature. `splitJws` reads the
objects back with their members in order (`splitJws_compact`).
-/

namespace Dsip.Tn

open Dsip.Lib Dsip.Webvh
open PyJson (ofJson ofItems ofMembers)

def canonicalJson (v : Json) : List Char := (canon v).render []

def segment (v : Json) : List Char := base64UrlEncode (utf8Bytes (canonicalJson v))

def signingInput (header payload : Json) : List Char := segment header ++ '.' :: segment payload

def compact (header payload : Json) (signature : List Nat) : List Char :=
  signingInput header payload ++ '.' :: base64UrlEncode signature

/-- What is read of an object that was written. -/
def written (members : List (String × Json)) : Object := ofMembers (sortMembers (canonMembers members))

theorem good_str (s : String) : IJson.Good (ofJson (.str s)) := ⟨s.toList, rfl⟩

theorem good_int {n : Int} (h : -IJson.maxSafe ≤ n ∧ n ≤ IJson.maxSafe) : IJson.Good (ofJson (.int n)) := h

variable {members : List (String × Json)}

theorem good_obj (hnames : (members.map (·.1)).Nodup)
    (hvalues : ∀ m ∈ members, IJson.Good (ofJson m.2)) : IJson.Good (ofJson (.obj members)) :=
  ⟨IJson.nodup_names.mpr hnames, IJson.goodMembers_iff.mpr hvalues⟩

theorem lookup_of_mem {α β : Type} [BEq α] [LawfulBEq α] {l : List (α × β)} (hnodup : (l.map (·.1)).Nodup) {k : α} {v : β}
    (h : (k, v) ∈ l) : l.lookup k = some v := by
  induction l with
  | nil => exact absurd h List.not_mem_nil
  | cons e l ih =>
    rw [List.map_cons, List.nodup_cons] at hnodup
    rcases List.mem_cons.mp h with rfl | h
    · exact List.lookup_cons_self
    · have hne : (k == e.1) = false := by
        rw [beq_eq_false_iff_ne]
        rintro rfl
        exact hnodup.1 (List.mem_map.mpr ⟨(e.1, v), h, rfl⟩)
      rw [List.lookup_cons, hne]
      exact ih hnodup.2 h

theorem member_written (hnames : (members.map (·.1)).Nodup) {name : String} {v : Json}
    (h : (name, v) ∈ members) : member (written members) name = some (ofJson (canon v)) := by
  have hperm : (sortMembers (canonMembers members)).Perm (canonMembers members) := List.perm_insertionSort _ _
  have hsorted : (canonMembers members).map (·.1) = members.map (·.1) := IJson.names_canonMembers members
  refine lookup_of_mem ?_ ?_
  · refine IJson.nodup_names.mpr ((hperm.map _).nodup_iff.mpr ?_)
    rwa [hsorted]
  · unfold written
    rw [IJson.ofMembers_eq]
    refine List.mem_map.mpr ⟨(name, canon v), hperm.symm.subset ?_, rfl⟩
    rw [IJson.canonMembers_eq]
    exact List.mem_map.mpr ⟨(name, v), h, rfl⟩

theorem jsonObject_canonicalJson (h : IJson.Good (ofJson (.obj members))) :
    jsonObject (utf8Bytes (canonicalJson (.obj members))) = some (written members) := by
  have hparse : Json.parse (canonicalJson (.obj members)) = some (canon (.obj members)) :=
    Json.parse_render (fun _ hc => absurd hc List.not_mem_nil) (canon (.obj members))
  have hread : IJson.ijson (.ofChars (canonicalJson (.obj members))) = some (.obj (written members)) :=
    IJson.ijson_eq.mpr ⟨PyJson.loads_parse hparse, IJson.good_canon _ h⟩
  unfold jsonObject
  rw [utf8Decode_encode, Option.bind_some, hread]

theorem b64u_encode {bytes : List Nat} (h : ∀ b ∈ bytes, b < 256) : b64u (base64UrlEncode bytes) = some bytes :=
  base64UrlDecode_encode h

theorem dot_not_mem_encode {bytes : List Nat} (h : ∀ b ∈ bytes, b < 256) : '.' ∉ base64UrlEncode bytes :=
  not_mem_base64UrlEncode h (by decide)

theorem splitOn_three {h p s : List Char} (hh : '.' ∉ h) (hp : '.' ∉ p) (hs : '.' ∉ s) :
    ((h ++ '.' :: p) ++ '.' :: s).splitOn '.' = [h, p, s] := by
  rw [List.append_assoc, List.cons_append, List.splitOn_append_cons_self_of_not_mem hh,
    List.splitOn_append_cons_self_of_not_mem hp, List.splitOn_eq_singleton hs]

theorem splitJws_compact {header payload : List (String × Json)} {signature : List Nat}
    (hheader : IJson.Good (ofJson (.obj header))) (hpayload : IJson.Good (ofJson (.obj payload)))
    (hbytes : ∀ b ∈ signature, b < 256) (hne : signature ≠ []) :
    splitJws (String.ofList (compact (.obj header) (.obj payload) signature)) =
      some ⟨written header, written payload, signingInput (.obj header) (.obj payload), signature⟩ := by
  unfold splitJws compact signingInput segment
  rw [String.toList_ofList, splitOn_three (dot_not_mem_encode (utf8Bytes_lt _)) (dot_not_mem_encode (utf8Bytes_lt _))
    (dot_not_mem_encode hbytes)]
  dsimp only
  rw [if_neg (fun h => hne (base64UrlEncode_eq_nil.mp h)), b64u_encode (utf8Bytes_lt _), b64u_encode (utf8Bytes_lt _),
    b64u_encode hbytes, Option.bind_some, Option.bind_some, jsonObject_canonicalJson hheader,
    jsonObject_canonicalJson hpayload]
  rfl

end Dsip.Tn
