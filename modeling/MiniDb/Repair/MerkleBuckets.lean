/-
  The comparison of two trees over the same keys (`repair/merkle.py`).

  The two maps are then cut into the same buckets, so that both trees have the same shape and
  the walk meets each bucket of the first with the same bucket of the second (`stops_eq`): the
  pairs of buckets are reduced to a pair of roots as each list of buckets is to its root.
  `compare_same_keys` says that the ranges returned are those of the buckets in which a key has
  two hashes, in key order, each once.
-/
import MiniDb.Repair.MerkleCompare

namespace MiniDb.MerkleTree

open Lib MerkleNode

variable {hash : String → String} {V : Type} {str : V → String} {size : Nat} {d d' : KeyValues V}

/-! ## Bucket opposite bucket -/

/-- The same bucket of both maps. -/
def bucketPair (hash : String → String) (str : V → String) (d d' : KeyValues V)
    (ks : List String) : MerkleNode × MerkleNode :=
  (bucket hash str d ks, bucket hash str d' ks)

/-- The parents of two pairs. -/
def parentPair (hash : String → String) (p q : MerkleNode × MerkleNode) :
    MerkleNode × MerkleNode :=
  (parent hash p.1 q.1, parent hash p.2 q.2)

/-- **Over the same keys the walk stops at the buckets**, each opposite to itself. -/
theorem stops_eq (hkeys : sortedKeys d = sortedKeys d') :
    stops hash str size d d' =
      (chunks size (sortedKeys d)).map (bucketPair hash str d d') := by
  generalize hpairs : (chunks size (sortedKeys d)).map (bucketPair hash str d d') = pairs
  have hleft : (reduceUp (parentPair hash) pairs).map Prod.fst = build hash str size d := by
    rw [reduceUp_map (g := parent hash) (fun _ _ => rfl), ← hpairs, List.map_map]
    rfl
  have hright : (reduceUp (parentPair hash) pairs).map Prod.snd = build hash str size d' := by
    rw [reduceUp_map (g := parent hash) (fun _ _ => rfl), ← hpairs, List.map_map, build, ← hkeys]
    rfl
  have hopposite : (reduceUp (parentPair hash) pairs).map (fun p => opposite p.1 p.2) =
      reduceUp (· ++ ·) (pairs.map fun p => opposite p.1 p.2) :=
    reduceUp_map (fun _ _ => rfl) pairs
  have hsingle : pairs.map (fun p => opposite p.1 p.2) = pairs.map fun p => [p] := by
    rw [← hpairs, List.map_map, List.map_map]
    rfl
  unfold stops
  rw [← hleft, ← hright]
  cases hroots : reduceUp (parentPair hash) pairs with
  | none =>
    by_contra hne
    obtain ⟨r, hr⟩ := reduceUp_isSome (f := parentPair hash) (l := pairs) (Ne.symm hne)
    rw [hroots] at hr
    cases hr
  | some roots =>
    have hne : pairs ≠ [] := by
      rintro rfl
      rw [reduceUp_nil] at hroots
      cases hroots
    rw [hroots, hsingle, reduceUp_append (by simpa using hne), Option.map_some,
      Option.some.injEq] at hopposite
    simp only [Option.map_some]
    rw [hopposite, ← List.flatMap_def, List.flatMap_singleton']

/-! ## Buckets that differ -/

theorem eq_of_filterMap_eq {α β : Type} {f g : α → Option β} {l : List α}
    (hf : ∀ a ∈ l, (f a).isSome) (hg : ∀ a ∈ l, (g a).isSome)
    (heq : l.filterMap f = l.filterMap g) : ∀ a ∈ l, f a = g a := by
  induction l with
  | nil => exact fun _ h => by cases h
  | cons a l ih =>
    obtain ⟨b, hb⟩ := Option.isSome_iff_exists.mp (hf a List.mem_cons_self)
    obtain ⟨c, hc⟩ := Option.isSome_iff_exists.mp (hg a List.mem_cons_self)
    rw [List.filterMap_cons_some hb, List.filterMap_cons_some hc, List.cons.injEq] at heq
    have hrest := ih (fun x hx => hf x (List.mem_cons_of_mem a hx))
      (fun x hx => hg x (List.mem_cons_of_mem a hx)) heq.2
    refine List.forall_mem_cons.mpr ⟨?_, hrest⟩
    rw [hb, hc, heq.1]

/-- Some key of the bucket has different hashes. -/
def BucketDiffers (hash : String → String) (str : V → String) (d d' : KeyValues V)
    (ks : List String) : Prop :=
  ∃ k ∈ ks, keyHash hash str d k ≠ keyHash hash str d' k

instance (ks : List String) : Decidable (BucketDiffers hash str d d' ks) :=
  inferInstanceAs (Decidable (∃ k ∈ ks, _ ≠ _))

/-- The ranges of these buckets, in key order. -/
def differingRanges (hash : String → String) (str : V → String) (size : Nat)
    (d d' : KeyValues V) : List (String × String) :=
  ((chunks size (sortedKeys d)).filter fun ks => BucketDiffers hash str d d' ks).map
    fun ks => (ks.headD "", ks.getLastD "")

/-- The hashes of a bucket of both maps are those of its keys. -/
theorem bucket_hash_iff (hd : HexDigest hash) (hs : 0 < size)
    (hsame : ∀ k, k ∈ d.keys ↔ k ∈ d'.keys)
    (hfree : CollisionFree hash (allTexts hash str d (build hash str size d) ++
      allTexts hash str d' (build hash str size d')))
    {ks : List String} (hks : ks ∈ chunks size (sortedKeys d)) :
    (bucket hash str d ks).hashValue ≠ (bucket hash str d' ks).hashValue ↔
      BucketDiffers hash str d d' ks := by
  have hstop : bucketPair hash str d d' ks ∈ stops hash str size d d' := by
    rw [stops_eq (sortedKeys_congr hsame)]
    exact List.mem_map_of_mem hks
  have hkey : ∀ k ∈ ks, k ∈ d.keys := fun k hk => by
    rw [← mem_sortedKeys, ← flatten_chunks hs (sortedKeys d)]
    exact List.mem_flatten.mpr ⟨ks, hks, hk⟩
  rw [← not_iff_not, ne_eq, not_not]
  constructor
  · intro heq
    rintro ⟨k, hk, hne⟩
    have htexts := ((stops_hash_iff hd hs hfree hstop).mp heq).2.2
    have hhashes : ks.filterMap (keyHash hash str d) = ks.filterMap (keyHash hash str d') := by
      rw [filterMap_keyHash, filterMap_keyHash]
      exact congrArg (List.map hash) htexts
    exact hne (eq_of_filterMap_eq (fun k hk => (keyHash_isSome_iff hash str).mpr (hkey k hk))
      (fun k hk => (keyHash_isSome_iff hash str).mpr ((hsame k).mp (hkey k hk))) hhashes k hk)
  · intro hnone
    have hhashes : ks.filterMap (keyHash hash str d) = ks.filterMap (keyHash hash str d') := by
      refine List.filterMap_congr fun k hk => ?_
      by_contra hne
      exact hnone ⟨k, hk, hne⟩
    show hash _ = hash _
    rw [hhashes]

/-- The ranges that `compare` returns are apart and in order. -/
theorem compare_apart (hd : HexDigest hash) (hs : 0 < size)
    (hfree : CollisionFree hash (allTexts hash str d (build hash str size d) ++
      allTexts hash str d' (build hash str size d'))) :
    (compare (build hash str size d) (build hash str size d')).Pairwise fun r r' => r.2 < r'.1 := by
  rw [compare_eq hd hs hfree, List.pairwise_map]
  refine List.Pairwise.filter _ ?_
  unfold stops
  cases hroot : build hash str size d with
  | none => exact List.Pairwise.nil
  | some root =>
    cases hroot' : build hash str size d' with
    | none => exact List.Pairwise.nil
    | some root' =>
      obtain ⟨hbuilt, hkeys⟩ := build_built hs hroot
      exact opposite_apart hbuilt (hkeys ▸ sortedKeys_pairwise d)

/-- A range goes from its first key on. -/
theorem le_of_mem_compare (hd : HexDigest hash) (hs : 0 < size)
    (hfree : CollisionFree hash (allTexts hash str d (build hash str size d) ++
      allTexts hash str d' (build hash str size d'))) {r : String × String}
    (hr : r ∈ compare (build hash str size d) (build hash str size d')) : r.1 ≤ r.2 := by
  obtain ⟨p, hp, -, rfl⟩ := (mem_compare hd hs hfree).mp hr
  have hranged := stops_ranged hs hp
  exact (hranged.bounds _ hranged.first).2

/-- **Over the same keys the comparison is exact**: it returns the ranges of the buckets in which
    some key has different hashes, in key order and each once, and nothing if and only if all
    key hashes agree. -/
theorem compare_same_keys (hd : HexDigest hash) (hs : 0 < size)
    (hsame : ∀ k, k ∈ d.keys ↔ k ∈ d'.keys)
    (hfree : CollisionFree hash (allTexts hash str d (build hash str size d) ++
      allTexts hash str d' (build hash str size d'))) :
    compare (build hash str size d) (build hash str size d') = differingRanges hash str size d d' ∧
      (differingRanges hash str size d d').Pairwise (fun r r' => r.2 < r'.1) ∧
      (differingRanges hash str size d d').Nodup ∧
      (compare (build hash str size d) (build hash str size d') = [] ↔
        ∀ k, keyHash hash str d k = keyHash hash str d' k) := by
  have hranges : compare (build hash str size d) (build hash str size d') =
      differingRanges hash str size d d' := by
    rw [compare_eq hd hs hfree, stops_eq (sortedKeys_congr hsame), List.filter_map, List.map_map,
      differingRanges]
    refine congrArg (List.map _) (List.filter_congr fun ks hks => ?_)
    exact decide_eq_decide.mpr (bucket_hash_iff hd hs hsame hfree hks)
  have hapart := compare_apart hd hs hfree
  have hnodup : (compare (build hash str size d) (build hash str size d')).Nodup := by
    refine hapart.imp_of_mem fun {r r'} hr _ hlt heq => ?_
    rw [← heq] at hlt
    exact absurd (le_of_mem_compare hd hs hfree hr) (not_le.mpr hlt)
  refine ⟨hranges, hranges ▸ hapart, hranges ▸ hnodup, ?_⟩
  rw [hranges, differingRanges, List.map_eq_nil_iff, List.filter_eq_nil_iff]
  constructor
  · intro hnone k
    by_contra hne
    have hk : k ∈ sortedKeys d := by
      rcases mem_of_differs hne with hk | hk
      · exact mem_sortedKeys.mpr hk
      · exact mem_sortedKeys.mpr ((hsame k).mpr hk)
    rw [← flatten_chunks hs (sortedKeys d)] at hk
    obtain ⟨ks, hks, hin⟩ := List.mem_flatten.mp hk
    exact hnone ks hks (decide_eq_true ⟨k, hin, hne⟩)
  · intro hall ks _ hdiffers
    obtain ⟨k, -, hne⟩ := of_decide_eq_true hdiffers
    exact hne (hall k)

/-! ### One value changed -/

/-- Three buckets of at most two keys. -/
def fiveKeys : KeyValues Json := sameValues ["a", "b", "c", "d", "e"]

def otherValue : KeyValues Json := fiveKeys.set "d" (.str "y", 1)

/-- The texts of both trees. -/
def valueTexts : List String :=
  ["a:x:1", "b:x:1", "c:x:1", "d:x:1", "e:x:1", "d:y:1", "00000000000000000000000000000001",
    "00000000000000020000000000000003", "0000000000000004", "00000000000000020000000000000005",
    "00000000000000060000000000000007", "000000000000000a0000000000000008",
    "00000000000000060000000000000009", "000000000000000c0000000000000008"]

theorem chunks_fiveKeys : chunks 2 (sortedKeys fiveKeys) = [["a", "b"], ["c", "d"], ["e"]] := by
  have hsorted : sortedKeys fiveKeys = ["a", "b", "c", "d", "e"] :=
    List.mergeSort_of_pairwise (by decide)
  rw [hsorted]
  simp [chunks_of_ne_nil, chunks_nil]

theorem chunks_otherValue :
    chunks 2 (sortedKeys otherValue) = [["a", "b"], ["c", "d"], ["e"]] := by
  have hsame : sortedKeys otherValue = sortedKeys fiveKeys := sortedKeys_congr fun k => Iff.rfl
  rw [hsame, chunks_fiveKeys]

theorem compare_same_keys_sample :
    compare (build (numbered valueTexts) stringText 2 fiveKeys)
          (build (numbered valueTexts) stringText 2 otherValue) =
        differingRanges (numbered valueTexts) stringText 2 fiveKeys otherValue ∧
      (differingRanges (numbered valueTexts) stringText 2 fiveKeys otherValue).Pairwise
        (fun r r' => r.2 < r'.1) ∧
      (differingRanges (numbered valueTexts) stringText 2 fiveKeys otherValue).Nodup ∧
      (compare (build (numbered valueTexts) stringText 2 fiveKeys)
          (build (numbered valueTexts) stringText 2 otherValue) = [] ↔
        ∀ k, keyHash (numbered valueTexts) stringText fiveKeys k =
          keyHash (numbered valueTexts) stringText otherValue k) := by
  refine compare_same_keys (hexDigest_numbered _) (by decide) (fun k => Iff.rfl) ?_
  rw [build_three chunks_fiveKeys, build_three chunks_otherValue]
  decide +kernel

end MiniDb.MerkleTree
