import Dsip.Pkarr.NamesAgree

/-!
# Carrying a zone's other records

A publisher keeps every IN answer of its previous packet that is not DSIP's, with its
owner and the names in its data uncompressed. `carry` reads and expands record by record.
-/

namespace Dsip.Pkarr

open Dsip.Lib

structure ZoneName where
  text : List Char
  ascii : ∀ c ∈ text, c.toNat < 128
  length_le : text.length ≤ 63

/-- `zone.encode()`. -/
def ZoneName.bytes (zone : ZoneName) : Bytes := zone.text.map fun c => UInt8.ofNat c.toNat

/-- The first labels of the owners that a DSIP publisher replaces. -/
def dsipLabels : List Bytes := ["_dsip", "_dsip-devices", "_dsip-delegation"].map fun s =>
  s.toList.map fun c => UInt8.ofNat c.toNat

/-- A part of a record's data: a name, or so many bytes. -/
inductive Part where
  | name
  | fixed (k : Nat)
  deriving DecidableEq, Repr

/-- `NAME_RDATA`: the types whose data may hold compressed names, as names and bytes. -/
def nameRdata (rtype : Nat) : Option (List Part) :=
  if rtype ∈ [2, 3, 4, 5, 7, 8, 9, 12] then some [.name]
  else if rtype = 6 then some [.name, .name, .fixed 20]
  else if rtype = 14 then some [.name, .name]
  else if rtype = 15 then some [.fixed 2, .name]
  else none

structure Kept where
  name : Bytes
  type : Nat
  ttl : Nat
  rdata : Bytes
  deriving DecidableEq, Repr

def uint (pkt : Bytes) (off width : Nat) : Nat := BigEndian.value (slice pkt off (off + width))

/-- The loop over the questions. -/
def questions (dns : Bytes) : Nat → Nat → Except Stop Nat
  | 0, off => .ok off
  | n + 1, off =>
    match expand dns off dns.length with
    | .error e => .error e
    | .ok (_, off) => questions dns n (off + 4)

/-- The loop over the parts of a record's data that ends at `re`. -/
def expandParts (dns : Bytes) (re : Nat) : List Part → Nat → Bytes → Except Stop (Bytes × Nat)
  | [], p, out => .ok (out, p)
  | .name :: parts, p, out =>
    match expand dns p re with
    | .error e => .error e
    | .ok (w, p) => expandParts dns re parts p (out ++ w)
  | .fixed k :: parts, p, out =>
    if p + k > re then .error .reject else expandParts dns re parts (p + k) (out ++ slice dns p (p + k))

/-- The data of a record, between `rs` and `re`, with its names expanded. -/
def carriedRdata (dns : Bytes) (rtype rs re : Nat) : Except Stop Bytes :=
  match nameRdata rtype with
  | none => .ok (slice dns rs re)
  | some parts =>
    match expandParts dns re parts rs [] with
    | .error e => .error e
    | .ok (out, p) => if p ≠ re then .error .reject else .ok out

def owners (zone : ZoneName) : List Bytes :=
  dsipLabels.map fun label =>
    [UInt8.ofNat label.length] ++ label ++ [UInt8.ofNat zone.text.length] ++ zone.bytes ++ [0]

/-- The loop over the records, `left` of them from the `i`-th. -/
def records (zone : ZoneName) (dns : Bytes) (an : Nat) : Nat → Nat → Nat → List Kept → Except Stop (List Kept × Nat)
  | 0, _, off, keep => .ok (keep, off)
  | left + 1, i, off, keep =>
    match expand dns off dns.length with
    | .error e => .error e
    | .ok (name, off) =>
      if off + 10 > dns.length then .error .reject
      else
        let rtype := uint dns off 2
        let rclass := uint dns (off + 2) 2
        let ttl := uint dns (off + 4) 4
        let rdlen := uint dns (off + 8) 2
        let rs := off + 10
        let re := rs + rdlen
        if re > dns.length then .error .reject
        else if i ≥ an ∨ rclass ≠ 1 ∨ (owners zone).any (fun o => lower name = lower o) then
          records zone dns an left (i + 1) re keep
        else
          match carriedRdata dns rtype rs re with
          | .error e => .error e
          | .ok rdata => records zone dns an left (i + 1) re (keep ++ [⟨name, rtype, ttl, rdata⟩])

def carry (zone : ZoneName) (dns : Bytes) : Except Stop (List Kept) :=
  if dns.length < 12 then .error .reject
  else
    let qd := uint dns 4 2
    let an := uint dns 6 2
    let ns := uint dns 8 2
    let ar := uint dns 10 2
    match questions dns qd 12 with
    | .error e => .error e
    | .ok off =>
      match records zone dns an (an + ns + ar) 0 off [] with
      | .error e => .error e
      | .ok (keep, off) => if off ≠ dns.length then .error .reject else .ok keep

end Dsip.Pkarr
