import Dsip.Transparency.PrefixTree

/-!
# What the roots commit to

SHA-256 is a parameter, of digests of 32 bytes; it is asked to be injective and not zero
on what is hashed for the roots that are compared.
-/

namespace Dsip.Transparency

open Dsip.Lib

/-- A prefix root exists for every map and does not depend on the order of its entries;
maps with one prefix root are the same, and so are the entries of logs with one root. -/
theorem roots_commit (sha : Bytes → Bytes) :
    (∀ m : PrefixMap, ∃ root, prefixRoot sha 0 m.entries = some root) ∧
    (∀ a b : PrefixMap, a.entries.Perm b.entries → prefixRoot sha 0 a.entries = prefixRoot sha 0 b.entries) ∧
    ((∀ m, (sha m).length = 32) →
      (∀ a b : PrefixMap, HashTree.SoundOn sha zero (a.messages sha ++ b.messages sha) →
        prefixRoot sha 0 a.entries = prefixRoot sha 0 b.entries → a.entries.Perm b.entries) ∧
      (∀ xs ys : List LogEntry, xs ≠ [] → ys ≠ [] →
        HashTree.SoundOn sha zero (logMessages sha xs ++ logMessages sha ys) →
        logRoot sha (xs.map (logLeaf sha)) = logRoot sha (ys.map (logLeaf sha)) → xs = ys)) :=
  ⟨fun m => m.below.exists_root, fun _ _ hperm => prefixRoot_perm hperm, fun hlength =>
    ⟨fun a b hsound h => a.root_inj hlength b hsound h,
      fun _ _ hxs hys hsound h => logRoot_inj hlength hxs hys hsound h⟩⟩

/-! ## A map of two indexes and a log of two entries -/

def digest (n : Nat) : Bytes := BigEndian.bytes 32 n

def firstLeaf : Leaf := (List.replicate 32 0, List.replicate 32 17)

/-- Its index differs from the first at the first bit. -/
def secondLeaf : Leaf := (128 :: List.replicate 31 0, List.replicate 32 34)

def exampleMap : PrefixMap where
  entries := [firstLeaf, secondLeaf]
  nodup := by decide
  length_index := by decide
  length_commitment := by decide
  ne_nil := by decide

/-- The same map, with its entries in the other order. -/
def exampleSwapped : PrefixMap where
  entries := [secondLeaf, firstLeaf]
  nodup := by decide
  length_index := by decide
  length_commitment := by decide
  ne_nil := by decide

def firstLeafDigest : Bytes := digest 0xa3f1132bffd8af61b107567e3a4ce88ec015505b363b9139a512eb3182fbe968
def secondLeafDigest : Bytes := digest 0x7156549a28d7e7ba0c7bf1f96b250ebbf2097afd67926b01be72f60e0e26e816
def examplePrefixRoot : Bytes := digest 0x76ac87d94f7ceedd4aa804780d19cd25039c366ace0be09a127f6e4ed155ac11

def firstEntry : LogEntry := ⟨1767225600000, examplePrefixRoot, by decide, by decide⟩
def secondEntry : LogEntry := ⟨1767225660000, examplePrefixRoot, by decide, by decide⟩

def firstEntryDigest : Bytes := digest 0x382e3d5ef3a8dc6aa7d44f06c60a1f59fd8032b00bde2c4d4b5eb0562020c6fc
def secondEntryDigest : Bytes := digest 0x3e6c396fc3859e16469d116672e4a4a1ef6a5fc6c7f734adc293f3a11f0a0c8
def exampleLogRoot : Bytes := digest 0x2472777ade5f6d65b6d7deab88c7ef151a294a41980cdd8f0d296a8f05af38ba

def exampleMapMessages : List Bytes :=
  [3 :: (firstLeafDigest ++ secondLeafDigest), 2 :: (firstLeaf.1 ++ firstLeaf.2), 2 :: (secondLeaf.1 ++ secondLeaf.2)]

def exampleLogMessages : List Bytes :=
  [0 :: (firstEntryDigest ++ 0 :: secondEntryDigest), BigEndian.bytes 8 1767225600000 ++ examplePrefixRoot,
    BigEndian.bytes 8 1767225660000 ++ examplePrefixRoot]

/-- SHA-256 at what is hashed here. -/
def exampleSha (m : Bytes) : Bytes :=
  ((exampleMapMessages ++ exampleLogMessages).zip
    [examplePrefixRoot, firstLeafDigest, secondLeafDigest, exampleLogRoot, firstEntryDigest, secondEntryDigest]).lookup m
  |>.getD (List.replicate 32 255)

theorem length_exampleSha (m : Bytes) : (exampleSha m).length = 32 := by
  unfold exampleSha
  cases h : List.lookup m _ with
  | none => exact List.length_replicate
  | some d =>
    obtain ⟨before, after, hsplit, -⟩ := List.lookup_eq_some_iff.mp h
    have hmem : (m, d) ∈ _ := hsplit ▸ List.mem_append_right before List.mem_cons_self
    have hd := (List.of_mem_zip hmem).2
    simp only [List.mem_cons, List.not_mem_nil, or_false] at hd
    rcases hd with rfl | rfl | rfl | rfl | rfl | rfl <;> exact BigEndian.length_bytes _ _

theorem prefixTree_example (depth : Nat) (x y : Leaf) (hx : side 0 depth [x, y] = [firstLeaf])
    (hy : side 1 depth [x, y] = [secondLeaf]) (hbit : ¬∃ leaf ∈ [x, y], bit leaf.1 depth = none) :
    prefixTree depth [x, y] = some (.parent (.leaf firstLeaf) (.leaf secondLeaf)) := by
  rw [prefixTree_many (by simp) hbit, hx, hy, if_neg (by simp), if_neg (by simp), prefixTree, prefixTree]
  rfl

theorem messages_example : exampleMap.messages exampleSha = exampleMapMessages := by
  unfold PrefixMap.messages
  rw [show exampleMap.entries = [firstLeaf, secondLeaf] from rfl,
    prefixTree_example 0 firstLeaf secondLeaf (by decide) (by decide) (by decide)]
  decide +kernel

theorem messages_swapped : exampleSwapped.messages exampleSha = exampleMapMessages := by
  unfold PrefixMap.messages
  rw [show exampleSwapped.entries = [secondLeaf, firstLeaf] from rfl,
    prefixTree_example 0 secondLeaf firstLeaf (by decide) (by decide) (by decide)]
  decide +kernel

theorem logMessages_example : logMessages exampleSha [firstEntry, secondEntry] = exampleLogMessages := by
  have hsplit : split 2 = 1 := by decide
  unfold logMessages
  rw [logTree, List.length_nil, Nat.zero_add, hsplit, List.take_succ_cons, List.drop_succ_cons, List.take_zero,
    List.drop_zero, logTree, logTree]
  decide +kernel

theorem soundOn_example {messages : List Bytes} (h : messages ⊆ exampleMapMessages ++ exampleLogMessages) :
    HashTree.SoundOn exampleSha zero messages := by
  have hall : HashTree.SoundOn exampleSha zero (exampleMapMessages ++ exampleLogMessages) :=
    ⟨by decide +kernel, by decide +kernel⟩
  exact hall.mono h

theorem roots_commit_example :
    exampleMap.entries.Perm exampleSwapped.entries ∧ [firstEntry, secondEntry] = [firstEntry, secondEntry] := by
  obtain ⟨_, horder, hcommit⟩ := roots_commit exampleSha
  obtain ⟨hmaps, hlogs⟩ := hcommit length_exampleSha
  constructor
  · refine hmaps exampleMap exampleSwapped (soundOn_example ?_) (horder _ _ (List.Perm.swap _ _ _))
    rw [messages_example, messages_swapped]
    simp
  · refine hlogs _ _ (List.cons_ne_nil _ _) (List.cons_ne_nil _ _) (soundOn_example ?_) rfl
    rw [logMessages_example]
    simp

end Dsip.Transparency
