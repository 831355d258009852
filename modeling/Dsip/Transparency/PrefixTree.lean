import Dsip.Transparency.LogTree

/-!
# The prefix tree

A tree over a map from indexes to commitments: a leaf stands as high as needed to be
alone on its path, and an empty side hashes as zero. Leaves and parents begin with
different bytes, so that a root is that of one map only.
-/

namespace Dsip.Transparency

open Dsip.Lib

/-- An index and its commitment. -/
abbrev Leaf := Bytes × Bytes

/-- `_bit`; none where the key is too short. -/
def bit (key : Bytes) (i : Nat) : Option UInt8 := key[i / 8]?.map fun b => (b >>> (7 - i % 8).toUInt8) &&& 1

def prefixLeaf (sha : Bytes → Bytes) (idx comm : Bytes) : Bytes := sha (2 :: (idx ++ comm))

/-- `left or ZERO`. -/
def orZero : Option Bytes → Bytes
  | none | some [] => zero
  | some (x :: xs) => x :: xs

def prefixParent (sha : Bytes → Bytes) (left right : Option Bytes) : Bytes := sha (3 :: (orZero left ++ orZero right))

def side (b : UInt8) (depth : Nat) (leaves : List Leaf) : List Leaf :=
  leaves.filter fun leaf => bit leaf.1 depth = some b

/-- The bits that are left to look at. -/
def bitsLeft (depth : Nat) (leaves : List Leaf) : Nat := (leaves.map fun leaf => 8 * leaf.1.length - depth).sum

theorem lt_of_bit {key : Bytes} {i : Nat} (h : bit key i ≠ none) : i < 8 * key.length := by
  have hget : key[i / 8]? ≠ none := by
    intro hnone
    exact h (by rw [bit, hnone]; rfl)
  have hlt := (List.getElem?_eq_some_iff.mp (Option.ne_none_iff_exists'.mp hget).choose_spec).1
  omega

theorem bitsLeft_side {depth : Nat} {leaves : List Leaf} (hbit : ∀ leaf ∈ leaves, bit leaf.1 depth ≠ none) (b : UInt8) :
    bitsLeft (depth + 1) (side b depth leaves) + (side b depth leaves).length ≤ bitsLeft depth leaves := by
  induction leaves with
  | nil => exact Nat.le_refl _
  | cons leaf leaves ih =>
    have hlt := lt_of_bit (hbit leaf List.mem_cons_self)
    have hrest := ih fun leaf' hmem => hbit leaf' (List.mem_cons_of_mem _ hmem)
    unfold side bitsLeft at hrest ⊢
    by_cases hside : bit leaf.1 depth = some b
    · rw [List.filter_cons_of_pos (by simpa using hside), List.map_cons, List.sum_cons, List.map_cons, List.sum_cons,
        List.length_cons]
      omega
    · rw [List.filter_cons_of_neg (by simpa using hside), List.map_cons, List.sum_cons]
      omega

theorem bitsLeft_lt {depth : Nat} {leaves : List Leaf} {b : UInt8}
    (hbit : ¬∃ leaf ∈ leaves, bit leaf.1 depth = none) (hne : side b depth leaves ≠ []) :
    bitsLeft (depth + 1) (side b depth leaves) < bitsLeft depth leaves := by
  have hle := bitsLeft_side (fun leaf hmem h => hbit ⟨leaf, hmem, h⟩) b
  have hpos := List.length_pos_of_ne_nil hne
  omega

/-- `prefix_root`; none where an index has no bit to tell it from another by. -/
def prefixRoot (sha : Bytes → Bytes) (depth : Nat) (leaves : List Leaf) : Option Bytes :=
  match leaves with
  | [leaf] => some (prefixLeaf sha leaf.1 leaf.2)
  | leaves =>
    if _hshort : ∃ leaf ∈ leaves, bit leaf.1 depth = none then none
    else
      (if _hleft : side 0 depth leaves = [] then some none
        else (prefixRoot sha (depth + 1) (side 0 depth leaves)).map some).bind fun left =>
      (if _hright : side 1 depth leaves = [] then some none
        else (prefixRoot sha (depth + 1) (side 1 depth leaves)).map some).bind fun right =>
      some (prefixParent sha left right)
termination_by bitsLeft depth leaves
decreasing_by
  · exact bitsLeft_lt _hshort _hleft
  · exact bitsLeft_lt _hshort _hright

/-! ## The tree that the root is of -/

/-- The tree, with a leaf as high as it can stand. -/
def prefixTree (depth : Nat) (leaves : List Leaf) : Option (HashTree Leaf) :=
  match leaves with
  | [leaf] => some (.leaf leaf)
  | leaves =>
    if _hshort : ∃ leaf ∈ leaves, bit leaf.1 depth = none then none
    else
      (if _hleft : side 0 depth leaves = [] then some .empty
        else prefixTree (depth + 1) (side 0 depth leaves)).bind fun left =>
      (if _hright : side 1 depth leaves = [] then some .empty
        else prefixTree (depth + 1) (side 1 depth leaves)).bind fun right =>
      some (.parent left right)
termination_by bitsLeft depth leaves
decreasing_by
  · exact bitsLeft_lt _hshort _hleft
  · exact bitsLeft_lt _hshort _hright

def prefixHashing (sha : Bytes → Bytes) : HashTree.Hashing Leaf where
  hash := sha
  emptyDigest := zero
  leafMessage leaf := 2 :: (leaf.1 ++ leaf.2)
  parentMessage l r := 3 :: (l.2 ++ r.2)

section PrefixTree

variable {sha : Bytes → Bytes} {depth : Nat} {leaves leaves' : List Leaf}

theorem prefixRoot_short (hmany : ∀ leaf, leaves ≠ [leaf]) (hshort : ∃ leaf ∈ leaves, bit leaf.1 depth = none) :
    prefixRoot sha depth leaves = none := by
  rw [prefixRoot, dif_pos hshort]
  exact hmany

theorem prefixRoot_many (hmany : ∀ leaf, leaves ≠ [leaf]) (hbit : ¬∃ leaf ∈ leaves, bit leaf.1 depth = none) :
    prefixRoot sha depth leaves = (if side 0 depth leaves = [] then some none
        else (prefixRoot sha (depth + 1) (side 0 depth leaves)).map some).bind fun left =>
      (if side 1 depth leaves = [] then some none
        else (prefixRoot sha (depth + 1) (side 1 depth leaves)).map some).bind fun right =>
      some (prefixParent sha left right) := by
  rw [prefixRoot, dif_neg hbit]
  · rfl
  · exact hmany

theorem prefixTree_short (hmany : ∀ leaf, leaves ≠ [leaf]) (hshort : ∃ leaf ∈ leaves, bit leaf.1 depth = none) :
    prefixTree depth leaves = none := by
  rw [prefixTree, dif_pos hshort]
  exact hmany

theorem prefixTree_many (hmany : ∀ leaf, leaves ≠ [leaf]) (hbit : ¬∃ leaf ∈ leaves, bit leaf.1 depth = none) :
    prefixTree depth leaves =
      (if side 0 depth leaves = [] then some .empty else prefixTree (depth + 1) (side 0 depth leaves)).bind fun left =>
      (if side 1 depth leaves = [] then some .empty else prefixTree (depth + 1) (side 1 depth leaves)).bind fun right =>
      some (.parent left right) := by
  rw [prefixTree, dif_neg hbit]
  · rfl
  · exact hmany

theorem orZero_some {digest : Bytes} (h : digest.length = 32) : orZero (some digest) = digest := by
  cases digest with
  | nil => cases h
  | cons x xs => rfl

theorem prefixRoot_eq (hlength : ∀ m, (sha m).length = 32) (depth : Nat) (leaves : List Leaf) :
    prefixRoot sha depth leaves = (prefixTree depth leaves).map (HashTree.digest (prefixHashing sha)) := by
  have hdigest (t : HashTree Leaf) : (t.digest (prefixHashing sha)).length = 32 := by
    cases t with
    | empty => exact List.length_replicate
    | leaf a => exact hlength _
    | parent left right => exact hlength _
  induction depth, leaves using prefixRoot.induct with
  | case1 depth leaf =>
    rw [prefixRoot, prefixTree]
    rfl
  | case2 depth leaves hmany hshort =>
    rw [prefixRoot_short hmany hshort, prefixTree_short hmany hshort]
    rfl
  | case3 depth leaves hmany hshort ihl ihr =>
    have hside (b : UInt8)
        (ih : side b depth leaves ≠ [] → prefixRoot sha (depth + 1) (side b depth leaves) =
          (prefixTree (depth + 1) (side b depth leaves)).map (HashTree.digest (prefixHashing sha))) :
        ((if side b depth leaves = [] then some none
          else (prefixRoot sha (depth + 1) (side b depth leaves)).map some).map orZero) =
        (if side b depth leaves = [] then some .empty
          else prefixTree (depth + 1) (side b depth leaves)).map (HashTree.digest (prefixHashing sha)) := by
      by_cases hempty : side b depth leaves = []
      · rw [if_pos hempty, if_pos hempty]
        rfl
      · rw [if_neg hempty, if_neg hempty, ih hempty, Option.map_map, Option.map_map]
        congr 1
        funext t
        exact orZero_some (hdigest t)
    have hl := hside 0 ihl
    have hr := hside 1 ihr
    rw [prefixRoot_many hmany hshort, prefixTree_many hmany hshort]
    cases hleft : (if side 0 depth leaves = [] then some none
        else (prefixRoot sha (depth + 1) (side 0 depth leaves)).map some) with
    | none =>
      rw [hleft, Option.map_none, eq_comm, Option.map_eq_none_iff] at hl
      rw [hl]
      rfl
    | some left =>
      rw [hleft, Option.map_some, eq_comm, Option.map_eq_some_iff] at hl
      obtain ⟨l, hl, horZero⟩ := hl
      cases hright : (if side 1 depth leaves = [] then some none
          else (prefixRoot sha (depth + 1) (side 1 depth leaves)).map some) with
      | none =>
        rw [hright, Option.map_none, eq_comm, Option.map_eq_none_iff] at hr
        rw [hl, hr]
        rfl
      | some right =>
        rw [hright, Option.map_some, eq_comm, Option.map_eq_some_iff] at hr
        obtain ⟨r, hr, horZero'⟩ := hr
        rw [hl, hr]
        simp only [Option.bind_some, Option.map_some, HashTree.digest, prefixHashing] at horZero horZero' ⊢
        rw [horZero, horZero']
        rfl

/-! ## What is in the tree -/

theorem bit_eq {key : Bytes} {i : Nat} {b : UInt8} (h : bit key i = some b) : b = 0 ∨ b = 1 := by
  rw [bit, Option.map_eq_some_iff] at h
  obtain ⟨x, -, rfl⟩ := h
  generalize x >>> (7 - i % 8).toUInt8 = y
  have hmod : (y &&& 1).toNat = y.toNat % 2 := by
    rw [UInt8.toNat_and]
    exact Nat.and_one_is_mod _
  rcases Nat.mod_two_eq_zero_or_one y.toNat with h | h
  · exact .inl (UInt8.toNat_inj.mp (hmod.trans h))
  · exact .inr (UInt8.toNat_inj.mp (hmod.trans h))

theorem sides_perm (hbit : ¬∃ leaf ∈ leaves, bit leaf.1 depth = none) :
    (side 0 depth leaves ++ side 1 depth leaves).Perm leaves := by
  have hother : side 1 depth leaves = leaves.filter fun leaf => !decide (bit leaf.1 depth = some 0) := by
    refine List.filter_congr fun leaf hmem => ?_
    cases h : bit leaf.1 depth with
    | none => exact absurd ⟨leaf, hmem, h⟩ hbit
    | some b => rcases bit_eq h with rfl | rfl <;> rfl
  rw [hother]
  exact List.filter_append_perm _ _

theorem values_prefixTree (depth : Nat) (leaves : List Leaf) (t : HashTree Leaf) (h : prefixTree depth leaves = some t) :
    t.values.Perm leaves := by
  induction depth, leaves using prefixRoot.induct generalizing t with
  | case1 depth leaf =>
    rw [prefixTree] at h
    cases h
    exact List.Perm.refl _
  | case2 depth leaves hmany hshort =>
    rw [prefixTree_short hmany hshort] at h
    cases h
  | case3 depth leaves hmany hshort ihl ihr =>
    have hside (b : UInt8) (u : HashTree Leaf)
        (ih : side b depth leaves ≠ [] → ∀ u, prefixTree (depth + 1) (side b depth leaves) = some u →
          u.values.Perm (side b depth leaves))
        (hu : (if side b depth leaves = [] then some HashTree.empty
          else prefixTree (depth + 1) (side b depth leaves)) = some u) :
        u.values.Perm (side b depth leaves) := by
      by_cases hempty : side b depth leaves = []
      · rw [if_pos hempty] at hu
        cases hu
        rw [hempty]
        exact List.Perm.refl _
      · rw [if_neg hempty] at hu
        exact ih hempty u hu
    rw [prefixTree_many hmany hshort] at h
    simp only [Option.bind_eq_some_iff, Option.some.injEq] at h
    obtain ⟨l, hl, r, hr, rfl⟩ := h
    exact ((hside 0 l ihl hl).append (hside 1 r ihr hr)).trans (sides_perm hshort)

theorem prefixRoot_perm (hperm : leaves.Perm leaves') : prefixRoot sha depth leaves = prefixRoot sha depth leaves' := by
  induction depth, leaves using prefixRoot.induct generalizing leaves' with
  | case1 depth leaf => rw [List.singleton_perm.mp hperm]
  | case2 depth leaves hmany hshort =>
    have hmany' (leaf : Leaf) (h : leaves' = [leaf]) : False := hmany leaf (List.perm_singleton.mp (h ▸ hperm))
    have hshort' : ∃ leaf ∈ leaves', bit leaf.1 depth = none := by
      obtain ⟨leaf, hmem, h⟩ := hshort
      exact ⟨leaf, hperm.mem_iff.mp hmem, h⟩
    rw [prefixRoot_short hmany hshort, prefixRoot_short hmany' hshort']
  | case3 depth leaves hmany hshort ihl ihr =>
    have hmany' (leaf : Leaf) (h : leaves' = [leaf]) : False := hmany leaf (List.perm_singleton.mp (h ▸ hperm))
    have hshort' : ¬∃ leaf ∈ leaves', bit leaf.1 depth = none := by
      rintro ⟨leaf, hmem, h⟩
      exact hshort ⟨leaf, hperm.mem_iff.mpr hmem, h⟩
    have hside (b : UInt8) : (side b depth leaves).Perm (side b depth leaves') := hperm.filter _
    have hsame (b : UInt8)
        (ih : side b depth leaves ≠ [] → ∀ {leaves' : List Leaf}, (side b depth leaves).Perm leaves' →
          prefixRoot sha (depth + 1) (side b depth leaves) = prefixRoot sha (depth + 1) leaves') :
        (if side b depth leaves = [] then some none
          else (prefixRoot sha (depth + 1) (side b depth leaves)).map some) =
        (if side b depth leaves' = [] then some none
          else (prefixRoot sha (depth + 1) (side b depth leaves')).map some) := by
      by_cases hempty : side b depth leaves = []
      · rw [if_pos hempty, if_pos (List.nil_perm.mp (hempty ▸ hside b))]
      · rw [if_neg hempty, if_neg fun h : side b depth leaves' = [] => hempty (List.perm_nil.mp (h ▸ hside b)),
          ih hempty (hside b)]
    rw [prefixRoot_many hmany hshort, prefixRoot_many hmany' hshort', hsame 0 ihl, hsame 1 ihr]

/-! ## The maps -/

theorem byte_of_bits (x : UInt8) :
    (List.range 8).foldl (fun (acc : UInt8) k => acc + acc + ((x >>> (7 - k).toUInt8) &&& 1)) 0 = x := by
  have hall : ∀ n : Fin 256,
      (List.range 8).foldl (fun (acc : UInt8) k => acc + acc + (((UInt8.ofNat n) >>> (7 - k).toUInt8) &&& 1)) 0 =
        UInt8.ofNat n := by
    decide +kernel
  have h := hall ⟨x.toNat, x.toNat_lt⟩
  rw [UInt8.ofNat_toNat] at h
  exact h

theorem key_ext {a b : Bytes} {n : Nat} (ha : a.length = n) (hb : b.length = n)
    (h : ∀ i < 8 * n, bit a i = bit b i) : a = b := by
  refine List.ext_getElem (ha.trans hb.symm) fun j hja hjb => ?_
  rw [← byte_of_bits a[j], ← byte_of_bits b[j]]
  refine List.foldl_ext _ _ 0 fun acc k hk => ?_
  have hk := List.mem_range.mp hk
  have hbit := h (8 * j + k) (by omega)
  have hdiv : (8 * j + k) / 8 = j := by omega
  have hmod : (8 * j + k) % 8 = k := by omega
  rw [bit, bit, hdiv, hmod, List.getElem?_eq_getElem hja, List.getElem?_eq_getElem hjb] at hbit
  exact congrArg (acc + acc + ·) (Option.some.inj hbit)

/-- The leaves below one place of the tree. -/
structure Below (depth : Nat) (leaves : List Leaf) : Prop where
  nodup : (leaves.map Prod.fst).Nodup
  length_index : ∀ leaf ∈ leaves, leaf.1.length = 32
  agree : ∀ x ∈ leaves, ∀ y ∈ leaves, ∀ i < depth, bit x.1 i = bit y.1 i

theorem Below.on_side (h : Below depth leaves) (b : UInt8) : Below (depth + 1) (side b depth leaves) where
  nodup := h.nodup.sublist (List.filter_sublist.map _)
  length_index leaf hmem := h.length_index leaf (List.mem_filter.mp hmem).1
  agree x hx y hy i hi := by
    obtain ⟨hx, hxbit⟩ := List.mem_filter.mp hx
    obtain ⟨hy, hybit⟩ := List.mem_filter.mp hy
    rcases Nat.lt_succ_iff_lt_or_eq.mp hi with hi | rfl
    · exact h.agree x hx y hy i hi
    · rw [of_decide_eq_true hxbit, of_decide_eq_true hybit]

theorem Below.bit_ne_none (h : Below depth leaves) (hmany : ∀ leaf, leaves ≠ [leaf]) :
    ¬∃ leaf ∈ leaves, bit leaf.1 depth = none := by
  rintro ⟨leaf, hmem, hnone⟩
  have hdepth : 256 ≤ depth := by
    rw [bit, Option.map_eq_none_iff, List.getElem?_eq_none_iff, h.length_index leaf hmem] at hnone
    omega
  have hsame : ∀ x ∈ leaves, x.1 = leaf.1 := fun x hx =>
    key_ext (h.length_index x hx) (h.length_index leaf hmem) fun i hi => h.agree x hx leaf hmem i (by omega)
  match leaves, h.nodup with
  | [], _ => cases hmem
  | [x], _ => exact hmany x rfl
  | x :: y :: rest, hnodup =>
    have hxy : x.1 = y.1 := (hsame x (by simp)).trans (hsame y (by simp)).symm
    simp [hxy] at hnodup

theorem Below.exists_root (h : Below depth leaves) : ∃ root, prefixRoot sha depth leaves = some root := by
  induction depth, leaves using prefixRoot.induct with
  | case1 depth leaf => exact ⟨_, by rw [prefixRoot]⟩
  | case2 depth leaves hmany hshort => exact absurd hshort (h.bit_ne_none hmany)
  | case3 depth leaves hmany hshort ihl ihr =>
    have hside (b : UInt8) (ih : side b depth leaves ≠ [] → Below (depth + 1) (side b depth leaves) →
        ∃ root, prefixRoot sha (depth + 1) (side b depth leaves) = some root) :
        ∃ root, (if side b depth leaves = [] then some none
          else (prefixRoot sha (depth + 1) (side b depth leaves)).map some) = some root := by
      by_cases hempty : side b depth leaves = []
      · exact ⟨none, if_pos hempty⟩
      · obtain ⟨root, hroot⟩ := ih hempty (h.on_side b)
        exact ⟨some root, by rw [if_neg hempty, hroot]; rfl⟩
    obtain ⟨left, hleft⟩ := hside 0 ihl
    obtain ⟨right, hright⟩ := hside 1 ihr
    exact ⟨prefixParent sha left right, by rw [prefixRoot_many hmany hshort, hleft, hright]; rfl⟩

end PrefixTree

/-- A map from indexes to commitments. -/
structure PrefixMap where
  entries : List Leaf
  nodup : (entries.map Prod.fst).Nodup
  length_index : ∀ leaf ∈ entries, leaf.1.length = 32
  length_commitment : ∀ leaf ∈ entries, leaf.2.length = 32
  ne_nil : entries ≠ []

namespace PrefixMap

variable {sha : Bytes → Bytes}

theorem below (m : PrefixMap) : Below 0 m.entries := ⟨m.nodup, m.length_index, fun _ _ _ _ _ hi => absurd hi (by omega)⟩

/-- What is hashed for the root of a map. -/
def messages (sha : Bytes → Bytes) (m : PrefixMap) : List Bytes :=
  ((prefixTree 0 m.entries).getD .empty).messages (prefixHashing sha)

theorem separated (hlength : ∀ m, (sha m).length = 32) :
    HashTree.Separated (prefixHashing sha) (fun leaf => leaf.1.length = 32) 32 where
  length_hash := hlength
  length_empty := List.length_replicate
  leaf_inj a b ha hb h := by
    obtain ⟨hidx, hcomm⟩ := List.append_inj (List.cons.inj h).2 (ha.trans hb.symm)
    exact Prod.ext hidx hcomm
  parent_inj l r l' r' hl _ hl' _ h := List.append_inj (List.cons.inj h).2 (hl.trans hl'.symm)
  leaf_ne_parent a l r _ _ _ h := by cases (List.cons.inj h).1

theorem root_inj (hlength : ∀ m, (sha m).length = 32) (a b : PrefixMap)
    (hsound : HashTree.SoundOn sha zero (a.messages sha ++ b.messages sha))
    (h : prefixRoot sha 0 a.entries = prefixRoot sha 0 b.entries) : a.entries.Perm b.entries := by
  obtain ⟨root, hroot⟩ : ∃ root, prefixRoot sha 0 a.entries = some root := a.below.exists_root
  have hroot' := h ▸ hroot
  rw [prefixRoot_eq hlength, Option.map_eq_some_iff] at hroot hroot'
  obtain ⟨t, ht, rfl⟩ := hroot
  obtain ⟨u, hu, hdigest⟩ := hroot'
  have hvalues := values_prefixTree 0 a.entries t ht
  have hvalues' := values_prefixTree 0 b.entries u hu
  rw [messages, messages, ht, hu] at hsound
  have htree := HashTree.digest_inj (separated hlength)
    (fun leaf hmem => a.length_index leaf (hvalues.mem_iff.mp hmem))
    (fun leaf hmem => b.length_index leaf (hvalues'.mem_iff.mp hmem)) hsound hdigest.symm
  rw [← htree] at hvalues'
  exact hvalues.symm.trans hvalues'

end PrefixMap

end Dsip.Transparency
