import Mathlib.Tactic

/-!
# Trees of hashes

A binary tree is known by its digest, if the hash is injective on what is hashed in
it and never gives the digest of an empty side (`digest_inj`). The hash of all byte
strings to a fixed length cannot be injective, so it is asked of these messages only.
-/

namespace Dsip.Lib

/-- A tree with a value at each leaf; a side may be empty. -/
inductive HashTree (α : Type) where
  | empty
  | leaf (a : α)
  | parent (left right : HashTree α)
  deriving DecidableEq, Repr

namespace HashTree

variable {α : Type}

/-- The values, from the left. -/
def values : HashTree α → List α
  | empty => []
  | leaf a => [a]
  | parent left right => left.values ++ right.values

def isLeaf : HashTree α → Bool
  | leaf _ => true
  | _ => false

/-- How a tree is hashed: the message of a leaf, and of a parent by what is said of
each side, whether it is a leaf, and its digest. -/
structure Hashing (α : Type) where
  hash : List UInt8 → List UInt8
  emptyDigest : List UInt8
  leafMessage : α → List UInt8
  parentMessage : Bool × List UInt8 → Bool × List UInt8 → List UInt8

variable (H : Hashing α)

def digest : HashTree α → List UInt8
  | empty => H.emptyDigest
  | leaf a => H.hash (H.leafMessage a)
  | parent left right => H.hash (H.parentMessage (left.isLeaf, left.digest) (right.isLeaf, right.digest))

def messages : HashTree α → List (List UInt8)
  | empty => []
  | leaf a => [H.leafMessage a]
  | parent left right =>
    H.parentMessage (left.isLeaf, left.digest H) (right.isLeaf, right.digest H) ::
      (left.messages ++ right.messages)

/-- A hash that is injective on some messages, and gives no empty digest there. -/
structure SoundOn (hash : List UInt8 → List UInt8) (emptyDigest : List UInt8) (messages : List (List UInt8)) : Prop where
  inj : ∀ x ∈ messages, ∀ y ∈ messages, hash x = hash y → x = y
  ne_empty : ∀ x ∈ messages, hash x ≠ emptyDigest

theorem SoundOn.mono {hash : List UInt8 → List UInt8} {emptyDigest : List UInt8} {ms ms' : List (List UInt8)}
    (h : SoundOn hash emptyDigest ms) (hsub : ms' ⊆ ms) : SoundOn hash emptyDigest ms' where
  inj x hx y hy := h.inj x (hsub hx) y (hsub hy)
  ne_empty x hx := h.ne_empty x (hsub hx)

/-- How the messages tell what they are made of: leaves in `good`, and digests of one length. -/
structure Separated (good : α → Prop) (width : Nat) : Prop where
  length_hash : ∀ m, (H.hash m).length = width
  length_empty : H.emptyDigest.length = width
  leaf_inj : ∀ a b, good a → good b → H.leafMessage a = H.leafMessage b → a = b
  parent_inj : ∀ l r l' r' : Bool × List UInt8, l.2.length = width → r.2.length = width → l'.2.length = width →
    r'.2.length = width → H.parentMessage l r = H.parentMessage l' r' → l.2 = l'.2 ∧ r.2 = r'.2
  leaf_ne_parent : ∀ a (l r : Bool × List UInt8), good a → l.2.length = width → r.2.length = width →
    H.leafMessage a ≠ H.parentMessage l r

variable {H} {good : α → Prop} {width : Nat}

theorem length_digest (hs : Separated H good width) (t : HashTree α) : (t.digest H).length = width := by
  cases t with
  | empty => exact hs.length_empty
  | leaf a => exact hs.length_hash _
  | parent left right => exact hs.length_hash _

theorem digest_inj (hs : Separated H good width) {t u : HashTree α} (ht : ∀ a ∈ t.values, good a)
    (hu : ∀ a ∈ u.values, good a) (hsound : SoundOn H.hash H.emptyDigest (t.messages H ++ u.messages H))
    (h : t.digest H = u.digest H) : t = u := by
  induction t generalizing u with
  | empty =>
    cases u with
    | empty => rfl
    | leaf b => exact absurd h.symm (hsound.ne_empty _ (by simp [messages]))
    | parent left' right' => exact absurd h.symm (hsound.ne_empty _ (by simp [messages]))
  | leaf a =>
    cases u with
    | empty => exact absurd h (hsound.ne_empty _ (by simp [messages]))
    | leaf b =>
      have hmessage := hsound.inj _ (by simp [messages]) _ (by simp [messages]) h
      rw [hs.leaf_inj a b (ht a (by simp [values])) (hu b (by simp [values])) hmessage]
    | parent left' right' =>
      have hmessage := hsound.inj _ (by simp [messages]) _ (by simp [messages]) h
      exact absurd hmessage
        (hs.leaf_ne_parent a _ _ (ht a (by simp [values])) (length_digest hs _) (length_digest hs _))
  | parent left right ihl ihr =>
    cases u with
    | empty => exact absurd h (hsound.ne_empty _ (by simp [messages]))
    | leaf b =>
      have hmessage := hsound.inj _ (by simp [messages]) _ (by simp [messages]) h
      exact absurd hmessage.symm
        (hs.leaf_ne_parent b _ _ (hu b (by simp [values])) (length_digest hs _) (length_digest hs _))
    | parent left' right' =>
      have hmessage := hsound.inj _ (by simp [messages]) _ (by simp [messages]) h
      obtain ⟨hleft, hright⟩ := hs.parent_inj _ _ _ _ (length_digest hs _) (length_digest hs _)
        (length_digest hs _) (length_digest hs _) hmessage
      have hsubLeft : left.messages H ++ left'.messages H ⊆
          (parent left right).messages H ++ (parent left' right').messages H := by
        intro m hm
        simp only [messages, List.cons_append, List.mem_cons, List.mem_append] at hm ⊢
        tauto
      have hsubRight : right.messages H ++ right'.messages H ⊆
          (parent left right).messages H ++ (parent left' right').messages H := by
        intro m hm
        simp only [messages, List.cons_append, List.mem_cons, List.mem_append] at hm ⊢
        tauto
      rw [ihl (fun a ha => ht a (List.mem_append_left _ ha)) (fun a ha => hu a (List.mem_append_left _ ha))
          (hsound.mono hsubLeft) hleft,
        ihr (fun a ha => ht a (List.mem_append_right _ ha)) (fun a ha => hu a (List.mem_append_right _ ha))
          (hsound.mono hsubRight) hright]

end HashTree

end Dsip.Lib
