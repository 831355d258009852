import Dsip.Lib.BigEndian

/-!
# The implicit search tree

The node numbers of a transparency log and the search of its versions. A node's
level is the number of its trailing ones: `node a k` has `node (2 * a) (k - 1)` and
`node (2 * a + 1) (k - 1)` below it, so that the steps of the search never shift by
less than nothing (`frontier_eq`).
-/

namespace Dsip.Transparency

open Dsip.Lib

/-- What keeps a search from its end. -/
inductive Stuck where
  | negativeShift
  | fuel
  deriving DecidableEq, Repr

/-- `x << shift`, of a shift that may not be negative. -/
def shiftLeft (x : Nat) (shift : Int) : Except Stuck Nat :=
  if shift < 0 then .error .negativeShift else .ok (x <<< shift.toNat)

/-- The loop of `_level`. -/
def levelFrom (x k : Nat) : Nat :=
  if _h : (x >>> k) % 2 = 1 then levelFrom x (k + 1) else k
termination_by x >>> k
decreasing_by
  have hpos : x >>> k ≠ 0 := fun h0 => by
    rw [h0] at _h
    cases _h
  rw [Nat.shiftRight_succ]
  exact Nat.div_lt_self (Nat.pos_of_ne_zero hpos) (by decide)

def level (x : Nat) : Nat := levelFrom x 0

def bstRoot (n : Nat) : Except Stuck Nat := do
  let top ← shiftLeft 1 ((BigEndian.bitLength n : Int) - 1)
  return top - 1

def left (x : Nat) : Except Stuck Nat := do
  let bit ← shiftLeft 1 ((level x : Int) - 1)
  return x ^^^ bit

/-- The loop of `right`. -/
def descend (n : Nat) : Nat → Nat → Except Stuck Nat
  | 0, x => if x < n then .ok x else .error .fuel
  | fuel + 1, x => if x < n then .ok x else (left x).bind (descend n fuel)

def right (fuel n x : Nat) : Except Stuck Nat := do
  let bits ← shiftLeft 3 ((level x : Int) - 1)
  descend n fuel (x ^^^ bits)

/-- The loop of `frontier`, from a node; `budget` is for the loop of each step. -/
def frontierFrom (budget n : Nat) : Nat → Nat → Except Stuck (List Nat)
  | 0, x => if x = n - 1 then .ok [x] else .error .fuel
  | fuel + 1, x =>
    if x = n - 1 then .ok [x]
    else do
      let next ← right budget n x
      let rest ← frontierFrom budget n fuel next
      return x :: rest

def frontier (fuel n : Nat) : Except Stuck (List Nat) := do
  let root ← bstRoot n
  frontierFrom fuel n fuel root

/-! ## Nodes and levels -/

/-- The node of level `k` that has `a` before its zero. -/
def node (a k : Nat) : Nat := a * 2 ^ (k + 1) + (2 ^ k - 1)

section Nodes

variable {a k p c r s : Nat}

theorem xor_blocks (hr : r < 2 ^ k) (hs : s < 2 ^ k) :
    (p * 2 ^ k + r) ^^^ (c * 2 ^ k + s) = (p ^^^ c) * 2 ^ k + (r ^^^ s) := by
  have hpos : 0 < 2 ^ k := by positivity
  have hdiv {q t : Nat} (ht : t < 2 ^ k) : (q * 2 ^ k + t) / 2 ^ k = q := by
    rw [Nat.add_comm, Nat.add_mul_div_right _ _ hpos, Nat.div_eq_of_lt ht, Nat.zero_add]
  have hmod {q t : Nat} (ht : t < 2 ^ k) : (q * 2 ^ k + t) % 2 ^ k = t := by
    rw [Nat.add_comm, Nat.add_mul_mod_self_right, Nat.mod_eq_of_lt ht]
  rw [← Nat.div_add_mod' ((p * 2 ^ k + r) ^^^ (c * 2 ^ k + s)) (2 ^ k), Nat.xor_div_two_pow, Nat.xor_mod_two_pow,
    hdiv hr, hdiv hs, hmod hr, hmod hs]

theorem node_succ (a k : Nat) : node a (k + 1) = (4 * a + 1) * 2 ^ k + (2 ^ k - 1) := by
  have hpos : 0 < 2 ^ k := by positivity
  unfold node
  rw [pow_succ, pow_succ]
  have hexpand : (4 * a + 1) * 2 ^ k = a * (2 ^ k * 2 * 2) + 2 ^ k := by ring
  omega

theorem node_left (a k : Nat) : node a (k + 1) ^^^ (1 <<< k) = node (2 * a) k := by
  have hpos : 0 < 2 ^ k := by positivity
  have hbit : (4 * a + 1) ^^^ 1 = 4 * a := by
    have h := @xor_blocks 2 a 0 1 1 (by decide) (by decide)
    rw [Nat.xor_zero, Nat.xor_self, Nat.zero_mul, Nat.zero_add] at h
    rw [Nat.mul_comm 4 a]
    exact h
  have h := @xor_blocks k (4 * a + 1) 1 (2 ^ k - 1) 0 (by omega) hpos
  simp only [hbit, Nat.xor_zero, Nat.one_mul, Nat.add_zero] at h
  rw [node_succ, Nat.one_shiftLeft, h]
  unfold node
  rw [pow_succ]
  ring_nf

theorem node_right (a k : Nat) : node a (k + 1) ^^^ (3 <<< k) = node (2 * a + 1) k := by
  have hpos : 0 < 2 ^ k := by positivity
  have hbit : (4 * a + 1) ^^^ 3 = 4 * a + 2 := by
    have h := @xor_blocks 2 a 0 1 3 (by decide) (by decide)
    rw [Nat.xor_zero, Nat.zero_mul, Nat.zero_add] at h
    rw [Nat.mul_comm 4 a]
    exact h
  have h := @xor_blocks k (4 * a + 1) 3 (2 ^ k - 1) 0 (by omega) hpos
  simp only [hbit, Nat.xor_zero, Nat.add_zero] at h
  rw [node_succ, Nat.shiftLeft_eq, h]
  unfold node
  rw [pow_succ]
  ring_nf

theorem node_shiftRight {j : Nat} (d : Nat) : (node a (j + d)) >>> j = a * 2 ^ (d + 1) + (2 ^ d - 1) := by
  have hpos : 0 < 2 ^ j := by positivity
  have hd : 0 < 2 ^ d := by positivity
  have hsplit : node a (j + d) = (a * 2 ^ (d + 1) + (2 ^ d - 1)) * 2 ^ j + (2 ^ j - 1) := by
    have hle : 2 ^ j ≤ 2 ^ d * 2 ^ j := Nat.le_mul_of_pos_left _ hd
    have hsum : 2 ^ (j + d) = 2 ^ d * 2 ^ j := by rw [Nat.add_comm, pow_add]
    have hsucc : 2 ^ (j + d + 1) = 2 ^ (d + 1) * 2 ^ j := by rw [pow_succ, hsum, pow_succ, Nat.mul_right_comm]
    unfold node
    rw [hsum, hsucc, Nat.add_mul, Nat.sub_mul, Nat.one_mul, Nat.mul_assoc]
    omega
  rw [hsplit, Nat.shiftRight_eq_div_pow, Nat.add_comm, Nat.add_mul_div_right _ _ hpos, Nat.div_eq_of_lt (by omega),
    Nat.zero_add]

theorem levelFrom_node (j d : Nat) : levelFrom (node a (j + d)) j = j + d := by
  induction d generalizing j with
  | zero =>
    have hshift := @node_shiftRight a j 0
    rw [levelFrom, hshift, dif_neg (by omega)]
    rfl
  | succ d ih =>
    have hshift := @node_shiftRight a j (d + 1)
    have hd : 0 < 2 ^ d := by positivity
    have hodd : (a * 2 ^ (d + 1 + 1) + (2 ^ (d + 1) - 1)) % 2 = 1 := by
      have hexpand : a * 2 ^ (d + 1 + 1) = a * 2 ^ d * 2 * 2 := by ring
      rw [hexpand, pow_succ 2 d]
      omega
    have hsucc : j + (d + 1) = j + 1 + d := by omega
    rw [levelFrom, hshift, dif_pos hodd, hsucc]
    exact ih (j + 1)

@[simp] theorem level_node (a k : Nat) : level (node a k) = k := by
  have h := @levelFrom_node a 0 k
  rw [Nat.zero_add] at h
  exact h

theorem shiftLeft_level_node (x : Nat) : shiftLeft x ((level (node a (k + 1)) : Int) - 1) = .ok (x <<< k) := by
  have hcast : ((k + 1 : Nat) : Int) - 1 = k := by omega
  unfold shiftLeft
  rw [level_node, hcast, if_neg (by omega), Int.toNat_natCast]

theorem left_node : left (node a (k + 1)) = .ok (node (2 * a) k) := by
  unfold left
  rw [shiftLeft_level_node, ← node_left]
  rfl

theorem right_node (fuel n : Nat) : right fuel n (node a (k + 1)) = descend n fuel (node (2 * a + 1) k) := by
  unfold right
  rw [shiftLeft_level_node, ← node_right]
  rfl

end Nodes

/-! ## The frontier -/

section Frontier

variable {a k m n x : Nat}

theorem bstRoot_eq (hn : 1 ≤ n) : bstRoot n = .ok (2 ^ n.log2 - 1) := by
  have hlength : BigEndian.bitLength n = n.log2 + 1 := if_neg (by omega)
  have hcast : ((n.log2 + 1 : Nat) : Int) - 1 = n.log2 := by omega
  unfold bstRoot shiftLeft
  rw [hlength, hcast, if_neg (by omega), Int.toNat_natCast, Nat.one_shiftLeft]
  rfl

theorem node_eq_root (a k : Nat) : node a k = a * 2 ^ (k + 1) + (2 ^ k - 1) := rfl

theorem descend_node (hm : 1 ≤ m) (hlt : m < 2 ^ (k + 1)) : ∃ b, b * 2 ^ (m.log2 + 1) = a * 2 ^ (k + 1) ∧
      ∀ fuel, k ≤ fuel → descend (a * 2 ^ (k + 1) + m) fuel (node a k) = .ok (node b m.log2) := by
  induction k generalizing a with
  | zero =>
    obtain rfl : m = 1 := by omega
    refine ⟨a, rfl, fun fuel _ => ?_⟩
    have hin : node a 0 < a * 2 ^ (0 + 1) + 1 := by
      rw [node_eq_root]
      omega
    cases fuel <;> (unfold descend; exact if_pos hin)
  | succ k ih =>
    by_cases hle : 2 ^ (k + 1) ≤ m
    · -- the node is in the tree
      have hlog : m.log2 = k + 1 := (Nat.log2_eq_iff (by omega)).mpr ⟨hle, hlt⟩
      refine ⟨a, by rw [hlog], fun fuel _ => ?_⟩
      have hin : node a (k + 1) < a * 2 ^ (k + 1 + 1) + m := by
        have hpos : 0 < 2 ^ (k + 1) := by positivity
        rw [node_eq_root]
        omega
      rw [hlog]
      cases fuel <;> (unfold descend; exact if_pos hin)
    · -- it is not, and the next one to the left has the same start
      have hstart : 2 * a * 2 ^ (k + 1) = a * 2 ^ (k + 1 + 1) := by ring
      obtain ⟨b, hb, hdescend⟩ := @ih (2 * a) (by omega)
      refine ⟨b, hb.trans hstart, fun fuel hfuel => ?_⟩
      cases fuel with
      | zero => omega
      | succ fuel =>
        have hout : ¬ node a (k + 1) < a * 2 ^ (k + 1 + 1) + m := by
          rw [node_eq_root]
          omega
        have hnext := hdescend fuel (by omega)
        rw [hstart] at hnext
        unfold descend
        rw [if_neg hout, left_node]
        exact hnext

/-- From the root of the part that is left, the search goes on through the roots of
what is right of each, to the last node. -/
theorem frontierFrom_node (hm : 1 ≤ m) (hn : n = a * 2 ^ (m.log2 + 1) + m) :
    ∃ out, (∀ budget fuel, m ≤ budget → m ≤ fuel → frontierFrom budget n fuel (node a m.log2) = .ok out) ∧
      out.head? = some (node a m.log2) ∧ out.getLast? = some (n - 1) ∧ (∀ y ∈ out, y < n) ∧
      out.IsChain fun y z => y < z ∧ ∃ r, bstRoot (n - (y + 1)) = .ok r ∧ z = y + 1 + r := by
  induction m using Nat.strong_induction_on generalizing a with
  | _ m ih =>
    obtain ⟨hle, hlt⟩ := (Nat.log2_eq_iff (by omega)).mp (rfl : m.log2 = m.log2)
    have hroot := node_eq_root a m.log2
    by_cases hlast : node a m.log2 = n - 1
    · refine ⟨[node a m.log2], fun budget fuel _ _ => ?_, rfl, by rw [← hlast]; rfl, fun y hy => ?_, .singleton _⟩
      · cases fuel <;> (unfold frontierFrom; exact if_pos hlast)
      · rw [List.mem_singleton.mp hy]
        omega
    · -- what is right of the node
      obtain ⟨rest, hrest, hrestPos⟩ : ∃ rest, m = 2 ^ m.log2 + rest ∧ 1 ≤ rest := ⟨m - 2 ^ m.log2, by omega, by omega⟩
      have hbelow : rest < 2 ^ m.log2 := by
        rw [pow_succ] at hlt
        omega
      obtain ⟨k, hk⟩ : ∃ k, m.log2 = k + 1 := by
        cases hlog : m.log2 with
        | zero =>
          rw [hlog] at hbelow
          omega
        | succ k => exact ⟨k, rfl⟩
      rw [hk] at hbelow hrest hroot hn hlast ⊢
      have hstart : (2 * a + 1) * 2 ^ (k + 1) = a * 2 ^ (k + 1 + 1) + 2 ^ (k + 1) := by ring
      obtain ⟨b, hb, hdescend⟩ := @descend_node (2 * a + 1) k rest hrestPos hbelow
      have hn' : n = b * 2 ^ (rest.log2 + 1) + rest := by omega
      obtain ⟨out, hout, hhead, hend, hall, hchain⟩ := ih rest (by omega) hrestPos hn'
      have hpart : (2 * a + 1) * 2 ^ (k + 1) + rest = n := by omega
      have hbudget : k ≤ m := by
        have hlog := Nat.log2_le_self m
        omega
      have hnext : node b rest.log2 = node a (k + 1) + 1 + (2 ^ rest.log2 - 1) := by
        rw [node_eq_root b]
        omega
      have hright : n - (node a (k + 1) + 1) = rest := by omega
      refine ⟨node a (k + 1) :: out, fun budget fuel hb hf => ?_, rfl, ?_, fun y hy => ?_, ?_⟩
      · cases fuel with
        | zero => omega
        | succ fuel =>
          have hstep := hdescend budget (by omega)
          rw [hpart] at hstep
          unfold frontierFrom
          rw [if_neg hlast, right_node, hstep]
          exact congrArg (Except.map (node a (k + 1) :: ·)) (hout budget fuel (by omega) (by omega))
      · rw [List.getLast?_cons, hend]
        rfl
      · rcases List.mem_cons.mp hy with rfl | hy
        · omega
        · exact hall y hy
      · cases out with
        | nil => cases hhead
        | cons z out =>
          obtain rfl : z = node b rest.log2 := Option.some.inj hhead
          refine List.isChain_cons_cons.mpr ⟨⟨by omega, 2 ^ rest.log2 - 1, ?_, hnext⟩, hchain⟩
          rw [hright]
          exact bstRoot_eq hrestPos

/-- The frontier of a tree: it is found, without a negative shift, and goes from the
root to the last node through the roots of what is right of each. -/
theorem frontier_eq (hn : 1 ≤ n) : ∃ out, (∀ fuel, n ≤ fuel → frontier fuel n = .ok out) ∧
      (∃ root, bstRoot n = .ok root ∧ out.head? = some root) ∧ out.getLast? = some (n - 1) ∧ (∀ y ∈ out, y < n) ∧
      out.IsChain fun y z => y < z ∧ ∃ r, bstRoot (n - (y + 1)) = .ok r ∧ z = y + 1 + r := by
  have hzero : n = 0 * 2 ^ (n.log2 + 1) + n := by omega
  have hroot : node 0 n.log2 = 2 ^ n.log2 - 1 := by rw [node_eq_root, Nat.zero_mul, Nat.zero_add]
  obtain ⟨out, hout, hhead, hend, hall, hchain⟩ := frontierFrom_node hn hzero
  refine ⟨out, fun fuel hfuel => ?_, ⟨_, bstRoot_eq hn, by rw [hhead, hroot]⟩, hend, hall, hchain⟩
  unfold frontier
  rw [bstRoot_eq hn, ← hroot]
  exact hout fuel fuel hfuel hfuel

end Frontier

end Dsip.Transparency
