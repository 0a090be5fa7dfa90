/-
  The shape of the tree that `build` makes (`repair/merkle.py`).

  `build_shape`: there is no tree exactly of the empty map; the leaves of a tree hold the sorted
  keys in runs of the bucket size; every inner node is formed from its two children; and the
  tree is a function of the map, not of the order of its entries. The tree grows in rounds over
  a list of subtrees of unequal height, so that each part is a fact that the pairing of two
  subtrees passes on (`reduceUp_map`, `reduceUp_forall`).
-/
import MiniDb.Repair.MerkleCompare
import Mathlib.Order.Bounds.Basic

namespace MiniDb

open Lib

namespace MerkleNode

/-- The leaves, from left to right. -/
def leaves : MerkleNode → List MerkleNode
  | leaf h r ks => [leaf h r ks]
  | inner _ _ left right => left.leaves ++ right.leaves

/-- Every inner node has the hash of its children's concatenated hashes, and for its range the
    least and the greatest key below it. -/
def Formed (hash : String → String) : MerkleNode → Prop
  | leaf _ _ _ => True
  | inner h r left right =>
    h = hash (left.hashValue ++ right.hashValue) ∧
      IsLeast { k | k ∈ (inner h r left right).keys } r.1 ∧
      IsGreatest { k | k ∈ (inner h r left right).keys } r.2 ∧
      left.Formed hash ∧ right.Formed hash

end MerkleNode

namespace MerkleTree

open MerkleNode

variable {hash : String → String} {V : Type} {str : V → String}

/-- The leaves of a tree are the buckets of the sorted keys. -/
theorem leaves_build {size : Nat} {d : KeyValues V} {root : MerkleNode}
    (h : build hash str size d = some root) :
    root.leaves = (chunks size (sortedKeys d)).map (bucket hash str d) := by
  have hne : (chunks size (sortedKeys d)).map (bucket hash str d) ≠ [] := by
    intro hnil
    rw [build, hnil, reduceUp_nil] at h
    cases h
  -- the leaves of a parent are those of its children, one after the other
  have hleaves := reduceUp_map (f := parent hash)
    (g := fun ns ms : List MerkleNode => ns ++ ms) (h := leaves) (fun _ _ => rfl)
    ((chunks size (sortedKeys d)).map (bucket hash str d))
  have hsingle : ((chunks size (sortedKeys d)).map (bucket hash str d)).map leaves =
      ((chunks size (sortedKeys d)).map (bucket hash str d)).map fun n => [n] := by
    rw [List.map_map, List.map_map]
    rfl
  have hroot : reduceUp (parent hash) ((chunks size (sortedKeys d)).map (bucket hash str d)) =
      some root := h
  rw [hroot, hsingle, reduceUp_append (fun hnil => hne (List.map_eq_nil_iff.mp hnil)),
    Option.map_some, Option.some.injEq, ← List.flatMap_def, List.flatMap_singleton'] at hleaves
  exact hleaves

theorem map_keys_leaves {size : Nat} {d : KeyValues V} {root : MerkleNode}
    (h : build hash str size d = some root) :
    root.leaves.map MerkleNode.keys = chunks size (sortedKeys d) := by
  rw [leaves_build h, List.map_map]
  exact List.map_id _

/-- What is built over sorted keys is formed from the leaves up. -/
theorem Built.formed {d : KeyValues V} {n : MerkleNode} (h : Built hash str d n)
    (hsorted : n.keys.Pairwise (· < ·)) : n.Formed hash := by
  induction n with
  | leaf hv r ks => trivial
  | inner hv r left right ihl ihr =>
    have hranged := h.ranged hsorted
    obtain ⟨hl, hr, heq⟩ := h
    obtain ⟨hlsorted, hrsorted, -⟩ := List.pairwise_append.mp hsorted
    exact ⟨congrArg hashValue heq, ⟨hranged.first, fun k hk => (hranged.bounds k hk).1⟩,
      ⟨hranged.last, fun k hk => (hranged.bounds k hk).2⟩, ihl hl hlsorted, ihr hr hrsorted⟩

/-- **The shape of the tree**: absent exactly for the empty map; leaves that hold the sorted keys
    in runs of the bucket size; inner nodes formed from their children; the same for maps with
    the same entries. -/
theorem build_shape (hash : String → String) (str : V → String) {size : Nat} (hs : 0 < size)
    (d : KeyValues V) :
    (build hash str size d = none ↔ d.keys = []) ∧
      (∀ root, build hash str size d = some root →
        IsRuns size (sortedKeys d) (root.leaves.map MerkleNode.keys) ∧ root.Formed hash) ∧
      ∀ d', SameMap d d' → build hash str size d = build hash str size d' := by
  refine ⟨(build_eq_none_iff hs).trans (sortedKeys_nil_iff d), fun root hroot => ?_,
    fun d' hsame => hsame.build_eq size⟩
  obtain ⟨hbuilt, hkeys⟩ := build_built hs hroot
  have hsorted : root.keys.Pairwise (· < ·) := hkeys ▸ sortedKeys_pairwise d
  refine ⟨?_, hbuilt.formed hsorted⟩
  rw [map_keys_leaves hroot]
  exact isRuns_chunks hs (sortedKeys d)

/-- A map of three keys, in runs of two. -/
def threeKeys : KeyValues Json :=
  ((Dict.empty.set "c" (.str "x", 1)).set "a" (.str "y", 1)).set "b" (.str "z", 1)

theorem build_shape_sample :
    (build sampleHash stringText 2 threeKeys = none ↔ threeKeys.keys = []) ∧
      (∀ root, build sampleHash stringText 2 threeKeys = some root →
        IsRuns 2 (sortedKeys threeKeys) (root.leaves.map MerkleNode.keys) ∧
          root.Formed sampleHash) ∧
      ∀ d', SameMap threeKeys d' →
        build sampleHash stringText 2 threeKeys = build sampleHash stringText 2 d' :=
  build_shape sampleHash stringText Nat.two_pos threeKeys

end MerkleTree

end MiniDb
