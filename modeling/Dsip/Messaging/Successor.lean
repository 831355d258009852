import Mathlib.Data.String.Basic
import Dsip.Lib.Dict
import Dsip.Lib.Encodings
import Dsip.Lib.Lowest

/-!
# Successor groups

When the hub of a group is gone, any member may create a successor of it, and
devices converge on the successor with the lowest id. Group ids are the
base64url of a ULID's text and are compared as that text, not as base64url.

The two implementations are here side by side. Both keep the candidates and the
one chosen of each predecessor. The Python tracker also records what it joins
or creates among its groups, so that a successor can itself be succeeded; the
TypeScript one keeps the groups it was made with, and a set of the successors
it is in.
-/

namespace Dsip.Messaging

open Dsip.Lib

/-! ## Group ids -/

def isCrockford (c : Char) : Bool :=
  ('0' ≤ c ∧ c ≤ '9') ∨ ('A' ≤ c ∧ c ≤ 'H') ∨ ('J' ≤ c ∧ c ≤ 'K') ∨ ('M' ≤ c ∧ c ≤ 'N') ∨
    ('P' ≤ c ∧ c ≤ 'T') ∨ ('V' ≤ c ∧ c ≤ 'Z')

/-- The text of a ULID: 26 digits, the first at most 7. -/
def isUlid : List Char → Bool
  | [] => false
  | c :: rest => '0' ≤ c && c ≤ '7' && rest.length == 25 && rest.all isCrockford

/-- `b64url_decode`: nothing for the empty text. -/
def b64urlDecode (text : String) : Option (List Nat) :=
  if text = "" then none else base64UrlDecode text

/-- The ULID in a group id, as `select_successor` reads it. -/
def groupUlid (g : String) : Option String :=
  match (b64urlDecode g).bind asciiDecode with
  | some u => if isUlid u then some (String.ofList u) else none
  | none => none

/-- The ULID in a group id, as the TypeScript `groupUlid` reads it. -/
def Ts.groupUlid (g : String) : Option String :=
  match (base64UrlDecode g).bind utf8Decode with
  | some u => if isUlid u then some (String.ofList u) else none
  | none => none

namespace SuccessorTracker

inductive Event where
  | create (predecessor : String)
  | created (group successorOf : String)
  | welcome (group successorOf creator : String) (roster : List String)
  deriving DecidableEq, Repr

inductive Emit where
  | use (group : String)
  | refuse (reason : String)
  | create (successorOf : String) (roster : List String)
  | firstContact (group : String)
  | join (group : String)
  | decline (group : String)
  | leave (group : String)
  deriving DecidableEq, Repr

/-- `sorted(roster)`. -/
def sortRoster (roster : List String) : List String := roster.insertionSort (· ≤ ·)

end SuccessorTracker

open SuccessorTracker (Event Emit sortRoster)

/-- `check_successor` and `successorCheck`: created by a member, adding nobody
from outside. -/
def checkSuccessor (predecessorRoster : List String) (creator : String) (roster : List String) : Bool :=
  creator ∈ predecessorRoster ∧ ∀ identity ∈ roster, identity ∈ predecessorRoster

/-! ## The Python tracker -/

/-- `select_successor`: the least pair of ULID and id, and what cannot win. -/
def selectSuccessor (candidates : List String) : Option String × List String :=
  let kept := candidates.filterMap fun g => (groupUlid g).map fun u => toLex (u, g)
  (kept.min?.map fun pair => (ofLex pair).2, candidates.filter fun g => (groupUlid g).isNone)

structure SuccessorTracker where
  groups : Dict String (List String)
  candidates : Dict String (List String)
  winner : Dict String String

namespace SuccessorTracker

variable (t : SuccessorTracker)

def init (groups : Dict String (List String)) : SuccessorTracker where
  groups := groups.map sortRoster
  candidates := ∅
  winner := ∅

/-- The candidates of a predecessor so far. -/
def candidatesOf (pred : String) : List String := (t.candidates.lookup pred).getD []

/-- The one chosen before, left for `group`. -/
def leavePrevious (prev : Option String) (group : String) : List Emit :=
  match prev with
  | some prev => if prev ≠ group then [.leave prev] else []
  | none => []

def candidate (group pred : String) (roster : List String) (mine : Bool) : SuccessorTracker × List Emit :=
  let cands :=
    if group ∈ t.candidatesOf pred then t.candidatesOf pred else t.candidatesOf pred ++ [group]
  let t' := { t with candidates := t.candidates.insert pred cands }
  if (selectSuccessor cands).1 = some group then
    ({ t' with
        winner := t.winner.insert pred group
        groups := t.groups.insert group (sortRoster roster) },
      (if mine then [] else [.join group]) ++ leavePrevious (t.winner.lookup pred) group)
  else (t', [if mine then .leave group else .decline group])

def create (pred : String) : List Emit :=
  match t.winner.lookup pred with
  | some g => [.use g]
  | none =>
    match t.groups.lookup pred with
    | none => [.refuse "not-a-member"]
    | some roster => [.create pred roster]

def created (group pred : String) : SuccessorTracker × List Emit :=
  t.candidate group pred ((t.groups.lookup pred).getD []) true

def welcome (group pred creator : String) (roster : List String) : SuccessorTracker × List Emit :=
  match t.groups.lookup pred with
  | none => (t, [.firstContact group])
  | some last =>
    if checkSuccessor last creator roster then t.candidate group pred roster false
    else (t, [.firstContact group])

def step : Event → SuccessorTracker × List Emit
  | .create pred => (t, t.create pred)
  | .created group pred => t.created group pred
  | .welcome group pred creator roster => t.welcome group pred creator roster

end SuccessorTracker

/-! ## The TypeScript tracker -/

namespace Ts

def successorSelect (candidates : List String) : Option String × List String :=
  let valid := candidates.filter fun g => (groupUlid g).isSome
  ((valid.insertionSort fun a b => (groupUlid a).getD "" ≤ (groupUlid b).getD "").head?,
    candidates.filter fun g => (groupUlid g).isNone)

structure SuccessorTracker where
  groups : Dict String (List String)
  candidates : Dict String (List String)
  chosen : Dict String String
  /-- The successors this device is in, in the order of entering. -/
  member : List String

namespace SuccessorTracker

variable (t : SuccessorTracker)

def init (groups : Dict String (List String)) : SuccessorTracker where
  groups := groups
  candidates := ∅
  chosen := ∅
  member := []

def candidatesOf (predecessor : String) : List String := (t.candidates.lookup predecessor).getD []

def candidate (predecessor group : String) (welcomed : Bool) : SuccessorTracker × List Emit :=
  let list := if group ∈ t.candidatesOf predecessor then t.candidatesOf predecessor
    else t.candidatesOf predecessor ++ [group]
  let list := list.insertionSort (· ≤ ·)
  let winner := (successorSelect list).1
  let t' := { t with
    candidates := t.candidates.insert predecessor list
    chosen := match winner with
      | some g => t.chosen.insert predecessor g
      | none => t.chosen }
  if winner = some group then
    let left := t.member.filter fun other => other ≠ group ∧ other ∈ list
    ({ t' with member := (t.member.filter fun other => other ∉ list) ++ [group] },
      (if welcomed then [.join group] else []) ++ left.map .leave)
  else (t', [if welcomed then .decline group else .leave group])

def step : Event → SuccessorTracker × List Emit
  | .welcome group successorOf creator roster =>
    match t.groups.lookup successorOf with
    | none => (t, [.firstContact group])
    | some last =>
      if checkSuccessor last creator roster then t.candidate successorOf group true
      else (t, [.firstContact group])
  | .create predecessor =>
    match t.groups.lookup predecessor with
    | none => (t, [.refuse "not-a-member"])
    | some roster =>
      match (t.chosen.lookup predecessor).filter (· ≠ "") with
      | some g => (t, [.use g])
      | none => (t, [.create predecessor (sortRoster roster)])
  | .created group successorOf => t.candidate successorOf group false

end SuccessorTracker

end Ts

/-! ## What selection selects -/

/-- Group ids rank by their ULID, those of one ULID by their text. -/
def successorRank (g : String) : Option (String ×ₗ String) := (groupUlid g).map fun u => toLex (u, g)

theorem successorRank_inj (g g' : String) (k : String ×ₗ String) (h : successorRank g = some k)
    (h' : successorRank g' = some k) : g = g' := by
  obtain ⟨u, -, rfl⟩ := Option.map_eq_some_iff.mp h
  obtain ⟨u', -, hk⟩ := Option.map_eq_some_iff.mp h'
  exact (congrArg Prod.snd (congrArg ofLex hk)).symm

theorem selectSuccessor_eq_some {candidates : List String} {g : String} :
    (selectSuccessor candidates).1 = some g ↔ Lowest successorRank {c | c ∈ candidates} g := by
  have hkept : ∀ k, k ∈ candidates.filterMap successorRank ↔
      ∃ c ∈ candidates, successorRank c = some k := fun k => List.mem_filterMap
  constructor
  · intro h
    obtain ⟨k, hk, hg⟩ := Option.map_eq_some_iff.mp h
    obtain ⟨hmem, hmin⟩ := List.min?_eq_some_iff.mp hk
    obtain ⟨c, hc, hrank⟩ := (hkept k).mp hmem
    obtain ⟨u, -, rfl⟩ := Option.map_eq_some_iff.mp hrank
    obtain rfl : c = g := hg
    exact ⟨hc, _, hrank, fun b hb j hj => hmin j ((hkept j).mpr ⟨b, hb, hj⟩)⟩
  · rintro ⟨hmem, k, hk, hlow⟩
    have hmin : (candidates.filterMap successorRank).min? = some k := by
      refine List.min?_eq_some_iff.mpr ⟨(hkept k).mpr ⟨g, hmem, hk⟩, ?_⟩
      intro j hj
      obtain ⟨c, hc, hj⟩ := (hkept j).mp hj
      exact hlow c hc j hj
    obtain ⟨u, -, rfl⟩ := Option.map_eq_some_iff.mp hk
    exact Option.map_eq_some_iff.mpr ⟨_, hmin, rfl⟩

theorem isUlid_ascii {u : List Char} (h : isUlid u = true) : ∀ c ∈ u, c.toNat < 0x80 := by
  have hcrockford : ∀ c : Char, isCrockford c = true → c.toNat < 0x80 := by
    intro c hc
    have hc : c ≤ 'Z' := by
      rcases of_decide_eq_true hc with h | h | h | h | h | h
      · exact h.2.trans (by decide)
      · exact h.2.trans (by decide)
      · exact h.2.trans (by decide)
      · exact h.2.trans (by decide)
      · exact h.2.trans (by decide)
      · exact h.2
    exact lt_of_le_of_lt (Char.le_def.mp hc) (by decide)
  cases u with
  | nil => cases h
  | cons a rest =>
    simp only [isUlid, Bool.and_eq_true, decide_eq_true_eq, List.all_eq_true] at h
    intro c hc
    rcases List.mem_cons.mp hc with rfl | hc
    · exact lt_of_le_of_lt (Char.le_def.mp h.1.1.2) (by decide)
    · exact hcrockford c (h.2 c hc)

theorem Ts.groupUlid_eq (g : String) : Ts.groupUlid g = Dsip.Messaging.groupUlid g := by
  unfold Ts.groupUlid Dsip.Messaging.groupUlid b64urlDecode
  by_cases h : g = ""
  · subst h
    rfl
  · rw [if_neg h]
    cases base64UrlDecode g with
    | none => rfl
    | some bytes =>
      simp only [Option.bind_some]
      cases hascii : asciiDecode bytes with
      | some u => rw [utf8Decode_of_ascii hascii]
      | none =>
        cases hutf : utf8Decode bytes with
        | none => rfl
        | some u =>
          have hu : isUlid u = false := by
            by_contra hu
            have := ascii_of_utf8Decode hutf (isUlid_ascii (Bool.not_eq_false _ ▸ hu))
            rw [hascii] at this
            cases this
          simp [hu]

theorem Ts.successorSelect_eq_some {candidates : List String} (h : candidates.Pairwise (· < ·))
    {g : String} : (Ts.successorSelect candidates).1 = some g ↔
      Lowest successorRank {c | c ∈ candidates} g := by
  have hvalid := head?_insertionSort_eq_some (fun g => (Ts.groupUlid g).getD "") (a := g)
    (h.filter fun g => (Ts.groupUlid g).isSome)
  refine hvalid.trans ?_
  have hrank : ∀ c ∈ candidates.filter (fun g => (Ts.groupUlid g).isSome),
      some (toLex ((Ts.groupUlid c).getD "", c)) = successorRank c := by
    intro c hc
    obtain ⟨u, hu⟩ := Option.isSome_iff_exists.mp (List.mem_filter.mp hc).2
    rw [successorRank, ← Ts.groupUlid_eq, hu]
    rfl
  have hmem : ∀ c, c ∈ candidates.filter (fun g => (Ts.groupUlid g).isSome) ↔
      c ∈ candidates ∧ (successorRank c).isSome := by
    intro c
    rw [List.mem_filter, Ts.groupUlid_eq, successorRank, Option.isSome_map]
  constructor
  · rintro ⟨hg, k, hk, hlow⟩
    refine ⟨((hmem g).mp hg).1, k, (hrank g hg).symm.trans hk, ?_⟩
    intro b hb j hj
    have hb' := (hmem b).mpr ⟨hb, Option.isSome_of_eq_some hj⟩
    exact hlow b hb' j ((hrank b hb').trans hj)
  · rintro ⟨hg, k, hk, hlow⟩
    have hg' := (hmem g).mpr ⟨hg, Option.isSome_of_eq_some hk⟩
    refine ⟨hg', k, (hrank g hg').trans hk, ?_⟩
    intro b hb j hj
    exact hlow b ((hmem b).mp hb).1 j ((hrank b hb).symm.trans hj)

end Dsip.Messaging
