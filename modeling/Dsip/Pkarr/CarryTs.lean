import Dsip.Pkarr.Carry

/-!
# Carrying a zone's other records, in TypeScript

`carry` parses the whole message first, and then expands the data of what it keeps. A
name in the data is read whole before its end is compared with that of the data. No
result stands for `Malformed` thrown.
-/

namespace Dsip.Pkarr

open Dsip.Lib

structure RR where
  labels : List Bytes
  type : Nat
  cls : Nat
  ttl : Nat
  rdata : Bytes
  rdStart : Nat
  deriving DecidableEq, Repr

/-- The loop over the questions in `parseAnswers`. -/
def parseQuestions (msg : Bytes) : Nat → Nat → Option Nat
  | 0, pos => some pos
  | n + 1, pos =>
    match readName msg pos with
    | none => none
    | some (_, stop) => if stop + 4 > msg.length then none else parseQuestions msg n (stop + 4)

/-- The loop over the records in `parseAnswers`, `left` of them from the `i`-th. -/
def parseRecords (msg : Bytes) (an : Nat) : Nat → Nat → Nat → List RR → Option (List RR × Nat)
  | 0, _, pos, answers => some (answers, pos)
  | left + 1, i, pos, answers =>
    match readName msg pos with
    | none => none
    | some (labels, stop) =>
      if stop + 10 > msg.length then none
      else
        let rdlength := uint msg (stop + 8) 2
        let rdEnd := stop + 10 + rdlength
        if rdEnd > msg.length then none
        else
          let rr : RR := ⟨labels, uint msg stop 2, uint msg (stop + 2) 2, uint msg (stop + 4) 4,
            slice msg (stop + 10) rdEnd, stop + 10⟩
          parseRecords msg an left (i + 1) rdEnd (if i < an then answers ++ [rr] else answers)

def parseAnswers (msg : Bytes) : Option (List RR) :=
  if msg.length < 12 then none
  else
    let qd := uint msg 4 2
    let an := uint msg 6 2
    let rest := uint msg 8 2 + uint msg 10 2
    match parseQuestions msg qd 12 with
    | none => none
    | some pos =>
      match parseRecords msg an (an + rest) 0 pos [] with
      | none => none
      | some (answers, pos) => if pos ≠ msg.length then none else some answers

def isZoneName (labels : List Bytes) (first zoneLower : Bytes) : Bool :=
  match labels with
  | [a, b] => lower a = first ∧ lower b = zoneLower
  | _ => false

def compressible (type : Nat) : Option (List Part) :=
  [(2, [.name]), (3, [.name]), (4, [.name]), (5, [.name]), (6, [.name, .name, .fixed 20]), (7, [.name]), (8, [.name]),
    (9, [.name]), (12, [.name]), (14, [.name, .name]), (15, [.fixed 2, .name])].lookup type

/-- The loop over the fields of a record's data that ends at `rdEnd`. -/
def expandFields (msg : Bytes) (rdEnd : Nat) : List Part → Nat → Bytes → Option (Bytes × Nat)
  | [], pos, parts => some (parts, pos)
  | .name :: fields, pos, parts =>
    match readName msg pos with
    | none => none
    | some (labels, stop) =>
      if stop > rdEnd then none else expandFields msg rdEnd fields stop (parts ++ wireName labels)
  | .fixed k :: fields, pos, parts =>
    if pos + k > rdEnd then none else expandFields msg rdEnd fields (pos + k) (parts ++ slice msg pos (pos + k))

def expandRdata (msg : Bytes) (rr : RR) : Option Bytes :=
  match compressible rr.type with
  | none => some rr.rdata
  | some layout =>
    let rdEnd := rr.rdStart + rr.rdata.length
    match expandFields msg rdEnd layout rr.rdStart [] with
    | none => none
    | some (parts, pos) => if pos ≠ rdEnd then none else some parts

/-- A record that `carry` passes over. -/
def passedOver (zone : ZoneName) (rr : RR) : Prop :=
  rr.cls ≠ 1 ∨ dsipLabels.any (fun first => isZoneName rr.labels first (lower zone.bytes))

instance (zone : ZoneName) (rr : RR) : Decidable (passedOver zone rr) := inferInstanceAs (Decidable (_ ∨ _))

/-- The loop over the answers. -/
def keepAnswers (zone : ZoneName) (msg : Bytes) : List RR → List Kept → Option (List Kept)
  | [], keep => some keep
  | rr :: answers, keep =>
    if passedOver zone rr then keepAnswers zone msg answers keep
    else
      match expandRdata msg rr with
      | none => none
      | some rdata => keepAnswers zone msg answers (keep ++ [⟨wireName rr.labels, rr.type, rr.ttl, rdata⟩])

/-- `carry`. -/
def carryTs (zone : ZoneName) (msg : Bytes) : Option (List Kept) :=
  match parseAnswers msg with
  | none => none
  | some answers => keepAnswers zone msg answers []

end Dsip.Pkarr
