import Dsip.Lib.BigEndian
import Dsip.Lib.HashTree

/-!
# The log tree

A left-balanced tree over the entries of a log. A parent marks each side as a leaf or
not; a leaf hashes 40 bytes and a parent 66, so that a root is that of one log only.
-/

namespace Dsip.Transparency

open Dsip.Lib

abbrev Bytes := List UInt8

def zero : Bytes := List.replicate 32 0

structure LogEntry where
  timestamp : Nat
  prefixRoot : Bytes
  timestamp_lt : timestamp < 2 ^ 64
  length_prefixRoot : prefixRoot.length = 32
  deriving DecidableEq, Repr

def logLeaf (sha : Bytes → Bytes) (e : LogEntry) : Bytes := sha (BigEndian.bytes 8 e.timestamp ++ e.prefixRoot)

/-- Where `go` splits. -/
def split (n : Nat) : Nat := 1 <<< (BigEndian.bitLength (n - 1) - 1)

theorem split_bounds {n : Nat} (hn : 2 ≤ n) : 1 ≤ split n ∧ split n < n := by
  have hlength : BigEndian.bitLength (n - 1) = (n - 1).log2 + 1 := if_neg (by omega)
  have hlog := Nat.log2_self_le (n := n - 1) (by omega)
  unfold split
  rw [hlength, Nat.add_sub_cancel, Nat.one_shiftLeft]
  exact ⟨Nat.one_le_two_pow, by omega⟩

/-- `go`, of the leaves between `lo` and `hi`: the value, and whether it is a leaf. -/
def logGo (sha : Bytes → Bytes) (leaves : List Bytes) : Option (Bytes × Bool) :=
  match leaves with
  | [] => none
  | [leaf] => some (leaf, true)
  | a :: b :: rest =>
    match logGo sha ((a :: b :: rest).take (split (rest.length + 2))),
      logGo sha ((a :: b :: rest).drop (split (rest.length + 2))) with
    | some (lv, ll), some (rv, rl) =>
      some (sha ((if ll then [0] else [1]) ++ lv ++ (if rl then [0] else [1]) ++ rv), false)
    | _, _ => none
termination_by leaves.length
decreasing_by
  · have hbounds := split_bounds (n := rest.length + 2) (by omega)
    simp only [List.length_take, List.length_cons]
    omega
  · have hbounds := split_bounds (n := rest.length + 2) (by omega)
    simp only [List.length_drop, List.length_cons]
    omega

/-- `log_root`; none for a log without entries. -/
def logRoot (sha : Bytes → Bytes) (leaves : List Bytes) : Option Bytes := (logGo sha leaves).map Prod.fst

/-! ## The tree that the root is of -/

def logTree {α : Type} (values : List α) : HashTree α :=
  match values with
  | [] => .empty
  | [a] => .leaf a
  | a :: b :: rest =>
    .parent (logTree ((a :: b :: rest).take (split (rest.length + 2))))
      (logTree ((a :: b :: rest).drop (split (rest.length + 2))))
termination_by values.length
decreasing_by
  · have hbounds := split_bounds (n := rest.length + 2) (by omega)
    simp only [List.length_take, List.length_cons]
    omega
  · have hbounds := split_bounds (n := rest.length + 2) (by omega)
    simp only [List.length_drop, List.length_cons]
    omega

def logHashing (sha : Bytes → Bytes) : HashTree.Hashing LogEntry where
  hash := sha
  emptyDigest := zero
  leafMessage e := BigEndian.bytes 8 e.timestamp ++ e.prefixRoot
  parentMessage l r := (if l.1 then [0] else [1]) ++ l.2 ++ (if r.1 then [0] else [1]) ++ r.2

section LogTree

variable {sha : Bytes → Bytes}

theorem values_logTree {α : Type} (values : List α) : (logTree values).values = values := by
  induction values using logTree.induct with
  | case1 =>
    rw [logTree]
    rfl
  | case2 a =>
    rw [logTree]
    rfl
  | case3 a b rest ihl ihr =>
    rw [logTree, HashTree.values, ihl, ihr, List.take_append_drop]

theorem logGo_eq (entries : List LogEntry) (hne : entries ≠ []) : logGo sha (entries.map (logLeaf sha)) =
      some ((logTree entries).digest (logHashing sha), (logTree entries).isLeaf) := by
  induction entries using logTree.induct with
  | case1 => exact absurd rfl hne
  | case2 e =>
    rw [logTree, List.map_singleton, logGo]
    rfl
  | case3 a b rest ihl ihr =>
    obtain ⟨hpos, hlt⟩ := split_bounds (n := rest.length + 2) (by omega)
    have hleft : (a :: b :: rest).take (split (rest.length + 2)) ≠ [] := by
      rw [← List.length_pos_iff, List.length_take]
      simp only [List.length_cons]
      omega
    have hright : (a :: b :: rest).drop (split (rest.length + 2)) ≠ [] := by
      rw [← List.length_pos_iff, List.length_drop]
      simp only [List.length_cons]
      omega
    have hl := ihl hleft
    have hr := ihr hright
    rw [List.map_take, List.map_cons, List.map_cons] at hl
    rw [List.map_drop, List.map_cons, List.map_cons] at hr
    rw [logTree, List.map_cons, List.map_cons, logGo, List.length_map, hl, hr]
    rfl

theorem separated_log (hlength : ∀ m, (sha m).length = 32) :
    HashTree.Separated (logHashing sha) (fun _ => True) 32 where
  length_hash := hlength
  length_empty := List.length_replicate
  leaf_inj a b _ _ h := by
    obtain ⟨htimestamp, hroot⟩ := List.append_inj h (by rw [BigEndian.length_bytes, BigEndian.length_bytes])
    have hvalue := congrArg BigEndian.value htimestamp
    rw [BigEndian.value_bytes a.timestamp_lt, BigEndian.value_bytes b.timestamp_lt] at hvalue
    cases a
    cases b
    cases hvalue
    cases hroot
    rfl
  parent_inj l r l' r' hl hr hl' hr' h := by
    have hmark (x : Bool) : (if x then [0] else [1] : Bytes).length = 1 := by cases x <;> rfl
    obtain ⟨hleft, hright⟩ := List.append_inj h (by simp only [List.length_append, hmark, hl, hl'])
    obtain ⟨hleft, -⟩ := List.append_inj hleft (by simp only [List.length_append, hmark, hl, hl'])
    exact ⟨(List.append_inj hleft (by rw [hmark, hmark])).2, hright⟩
  leaf_ne_parent a l r _ hl hr h := by
    have hmark (x : Bool) : (if x then [0] else [1] : Bytes).length = 1 := by cases x <;> rfl
    have hlengths := congrArg List.length h
    simp only [logHashing, List.length_append, BigEndian.length_bytes, a.length_prefixRoot, hmark, hl, hr] at hlengths
    omega

/-- What is hashed for the root of a log. -/
def logMessages (sha : Bytes → Bytes) (entries : List LogEntry) : List Bytes :=
  (logTree entries).messages (logHashing sha)

theorem logRoot_inj (hlength : ∀ m, (sha m).length = 32) {xs ys : List LogEntry} (hxs : xs ≠ []) (hys : ys ≠ [])
    (hsound : HashTree.SoundOn sha zero (logMessages sha xs ++ logMessages sha ys))
    (h : logRoot sha (xs.map (logLeaf sha)) = logRoot sha (ys.map (logLeaf sha))) : xs = ys := by
  unfold logRoot at h
  rw [logGo_eq xs hxs, logGo_eq ys hys, Option.map_some, Option.map_some, Option.some.injEq] at h
  have htree := HashTree.digest_inj (separated_log hlength) (fun _ _ => trivial) (fun _ _ => trivial) hsound h
  rw [← values_logTree xs, htree, values_logTree]

end LogTree

end Dsip.Transparency
