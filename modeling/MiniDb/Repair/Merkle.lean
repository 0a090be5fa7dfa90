/-
  Merkle trees (`repair/merkle.py`): building a tree from key-value pairs, its root hash, and
  the comparison of two trees.

  The hash (SHA-256, of which the source keeps 16 hexadecimal digits) and `str`, the text of a
  value in an f-string, are parameters. A bucket size of 0 raises in the source; here it builds
  no tree. `_key_hashes` is the function `keyHash`.

  `texts_of_hashes`: nodes of equal hash are built from the same key texts, whatever the shapes
  of the trees, unless two texts hashed for them collide. A key text has a colon and a text
  hashed for a node has none, so that a leaf is never taken for an inner node.
-/
import MiniDb.Lib.Dict
import MiniDb.Lib.HashTree

namespace MiniDb

open Lib

/-- `key -> (value, version)` -/
abbrev KeyValues (V : Type) := Dict String (V × Int)

inductive MerkleNode where
  | leaf (hashValue : String) (keyRange : String × String) (keys : List String)
  | inner (hashValue : String) (keyRange : String × String) (left right : MerkleNode)

namespace MerkleNode

def hashValue : MerkleNode → String
  | leaf h _ _ => h
  | inner h _ _ _ => h

def keyRange : MerkleNode → String × String
  | leaf _ r _ => r
  | inner _ r _ _ => r

def isLeaf : MerkleNode → Bool
  | leaf _ _ _ => true
  | inner _ _ _ _ => false

/-- The keys of the leaves, from left to right. -/
def keys : MerkleNode → List String
  | leaf _ _ ks => ks
  | inner _ _ left right => left.keys ++ right.keys

end MerkleNode

namespace MerkleTree

variable (hash : String → String) {V : Type} (str : V → String)

/-- `f"{key}:{value}:{version}"` -/
def keyText (key : String) (entry : V × Int) : String :=
  key ++ ":" ++ str entry.1 ++ ":" ++ toString entry.2

/-- `_key_hashes[key]` -/
def keyHash (keyValues : KeyValues V) (key : String) : Option String :=
  (keyValues.get? key).map fun entry => hash (keyText str key entry)

/-- `sorted(keys)` -/
def sortedKeys (keyValues : KeyValues V) : List String := keyValues.keys.mergeSort (· ≤ ·)

/-- The leaf of one bucket. -/
def bucket (keyValues : KeyValues V) (keys : List String) : MerkleNode :=
  .leaf (hash (String.join (keys.filterMap (keyHash hash str keyValues))))
    (keys.headD "", keys.getLastD "") keys

/-- The parent of two nodes. -/
def parent (left right : MerkleNode) : MerkleNode :=
  .inner (hash (left.hashValue ++ right.hashValue)) (left.keyRange.1, right.keyRange.2) left right

/-- `build`: the root, if there is one. -/
def build (bucketSize : Nat) (keyValues : KeyValues V) : Option MerkleNode :=
  reduceUp (parent hash)
    ((chunks bucketSize (sortedKeys keyValues)).map (bucket hash str keyValues))

def getRootHash (root : Option MerkleNode) : Option String := root.map MerkleNode.hashValue

/-- `_compare_nodes`: the ranges it appends, in order. -/
def compareNodes : MerkleNode → MerkleNode → List (String × String)
  | .inner h _ left right, .inner h' _ left' right' =>
    if h = h' then [] else compareNodes left left' ++ compareNodes right right'
  | node1, node2 => if node1.hashValue = node2.hashValue then [] else [node1.keyRange]

def compare : Option MerkleNode → Option MerkleNode → List (String × String)
  | some root1, some root2 => compareNodes root1 root2
  | _, _ => []

/-! ## What a tree is built from -/

/-- The texts hashed for some keys. -/
def keyTexts (keyValues : KeyValues V) (keys : List String) : List String :=
  keys.filterMap fun key => (keyValues.get? key).map (keyText str key)

/-- The node is built over `keyValues`: leaves are buckets with keys of it, inner nodes are
    parents. -/
def Built (keyValues : KeyValues V) : MerkleNode → Prop
  | .leaf h r ks => ks ≠ [] ∧ (∀ k ∈ ks, k ∈ keyValues.keys) ∧
      .leaf h r ks = bucket hash str keyValues ks
  | .inner h r left right => Built keyValues left ∧ Built keyValues right ∧
      .inner h r left right = parent hash left right

/-- The texts hashed for a node and below it. -/
def hashedTexts (keyValues : KeyValues V) : MerkleNode → List String
  | .leaf _ _ ks =>
    String.join (ks.filterMap (keyHash hash str keyValues)) :: keyTexts str keyValues ks
  | .inner _ _ left right =>
    (left.hashValue ++ right.hashValue) ::
      (hashedTexts keyValues left ++ hashedTexts keyValues right)

/-- The texts hashed for a tree. -/
def allTexts (keyValues : KeyValues V) (root : Option MerkleNode) : List String :=
  root.toList.flatMap (hashedTexts hash str keyValues)

/-- Digests are what the source's are: 16 characters, no colon. -/
def HexDigest (hash : String → String) : Prop := ∀ s, IsDigest 16 ':' (hash s)

variable {hash str}

theorem mem_sortedKeys {d : KeyValues V} {k : String} : k ∈ sortedKeys d ↔ k ∈ d.keys := by
  rw [sortedKeys, List.mem_mergeSort]

theorem sortedKeys_pairwise (d : KeyValues V) : (sortedKeys d).Pairwise (· < ·) := by
  have hle : (sortedKeys d).Pairwise fun a b => decide (a ≤ b) = true :=
    List.pairwise_mergeSort
      (fun a b c hab hbc => by
        simp only [decide_eq_true_eq] at hab hbc ⊢
        exact le_trans hab hbc)
      (fun a b => by
        simp only [Bool.or_eq_true, decide_eq_true_eq]
        exact le_total a b) d.keys
  have hnodup : (sortedKeys d).Nodup := (List.mergeSort_perm _ _).nodup_iff.mpr d.nodup_keys
  refine (hle.and hnodup).imp fun h => ?_
  exact lt_of_le_of_ne (of_decide_eq_true h.1) h.2

theorem filterMap_keyHash (d : KeyValues V) (ks : List String) :
    ks.filterMap (keyHash hash str d) = (keyTexts str d ks).map hash := by
  rw [keyTexts, List.map_filterMap]
  refine List.filterMap_congr fun k _ => ?_
  simp only [keyHash, Option.map_map]
  rfl

theorem keyTexts_append (d : KeyValues V) (ks ls : List String) :
    keyTexts str d (ks ++ ls) = keyTexts str d ks ++ keyTexts str d ls := List.filterMap_append

theorem colon_mem_keyText (k : String) (e : V × Int) : ':' ∈ (keyText str k e).toList := by
  simp [keyText]

theorem colon_of_mem_keyTexts {d : KeyValues V} {ks : List String} {t : String}
    (ht : t ∈ keyTexts str d ks) : ':' ∈ t.toList := by
  obtain ⟨k, -, hk⟩ := List.mem_filterMap.mp ht
  obtain ⟨e, -, rfl⟩ := Option.map_eq_some_iff.mp hk
  exact colon_mem_keyText k e

/-- The tree of a map is built over it, and its keys are those of the map in order. -/
theorem build_built {size : Nat} (hs : 0 < size) {d : KeyValues V} {root : MerkleNode}
    (h : build hash str size d = some root) :
    Built hash str d root ∧ root.keys = sortedKeys d := by
  have hne : sortedKeys d ≠ [] := by
    intro hnil
    rw [build, hnil, chunks_nil, List.map_nil, reduceUp_nil] at h
    cases h
  constructor
  · refine reduceUp_forall (fun a b ha hb => ⟨ha, hb, rfl⟩) (fun n hn => ?_) h
    obtain ⟨ks, hks, rfl⟩ := List.mem_map.mp hn
    refine ⟨ne_nil_of_mem_chunks hs hks, fun k hk => ?_, rfl⟩
    rw [← mem_sortedKeys, ← flatten_chunks hs (sortedKeys d)]
    exact List.mem_flatten.mpr ⟨ks, hks, hk⟩
  · have hkeys := reduceUp_map (f := parent hash) (g := fun ks ls : List String => ks ++ ls)
      (h := MerkleNode.keys) (fun _ _ => rfl)
      ((chunks size (sortedKeys d)).map (bucket hash str d))
    have hbuckets : ((chunks size (sortedKeys d)).map (bucket hash str d)).map MerkleNode.keys =
        chunks size (sortedKeys d) := by
      rw [List.map_map]
      exact List.map_id _
    have hchunks : chunks size (sortedKeys d) ≠ [] := by
      rw [chunks_of_ne_nil hs hne]
      exact List.cons_ne_nil _ _
    have hroot : reduceUp (parent hash) ((chunks size (sortedKeys d)).map (bucket hash str d)) =
        some root := h
    rw [hroot, hbuckets, reduceUp_append hchunks, flatten_chunks hs, Option.map_some,
      Option.some.injEq] at hkeys
    exact hkeys

/-- No tree is built of the empty map only. -/
theorem build_eq_none_iff {size : Nat} (hs : 0 < size) {d : KeyValues V} :
    build hash str size d = none ↔ sortedKeys d = [] := by
  constructor
  · intro h
    by_contra hne
    have hchunks : (chunks size (sortedKeys d)).map (bucket hash str d) ≠ [] := by
      rw [chunks_of_ne_nil hs hne]
      exact List.cons_ne_nil _ _
    obtain ⟨root, hroot⟩ := reduceUp_isSome (f := parent hash) hchunks
    exact absurd (h.symm.trans hroot) (by simp)
  · intro h
    rw [build, h, chunks_nil, List.map_nil, reduceUp_nil]

/-! ## Equal hashes, equal texts -/

theorem HexDigest.map (hd : HexDigest hash) (ts : List String) :
    ∀ s ∈ ts.map hash, IsDigest 16 ':' s := by
  intro s hs
  obtain ⟨t, -, rfl⟩ := List.mem_map.mp hs
  exact hd t

/-- A node's hash is that of a text without a colon. -/
theorem Built.hashed (hd : HexDigest hash) {d : KeyValues V} {n : MerkleNode}
    (h : Built hash str d n) :
    ∃ t ∈ hashedTexts hash str d n, n.hashValue = hash t ∧ ':' ∉ t.toList := by
  induction n with
  | leaf hv r ks =>
    refine ⟨_, List.mem_cons_self, congrArg MerkleNode.hashValue h.2.2, ?_⟩
    rw [filterMap_keyHash]
    exact IsDigest.no_sep_join (hd.map _)
  | inner hv r left right ihl ihr =>
    obtain ⟨hl, hr, heq⟩ := h
    obtain ⟨s, -, hs, -⟩ := ihl hl
    obtain ⟨t, -, ht, -⟩ := ihr hr
    refine ⟨_, List.mem_cons_self, congrArg MerkleNode.hashValue heq, ?_⟩
    rw [hs, ht]
    exact (hd s).no_sep_append (hd t)

theorem Built.isDigest (hd : HexDigest hash) {d : KeyValues V} {n : MerkleNode}
    (h : Built hash str d n) : IsDigest 16 ':' n.hashValue := by
  obtain ⟨t, -, ht, -⟩ := h.hashed hd
  exact ht ▸ hd t

/-- What is hashed for a leaf is not what is hashed for an inner node. -/
theorem leaf_ne_inner (hd : HexDigest hash) {d d' : KeyValues V} {hv hv' : String}
    {r r' : String × String} {ks : List String} {left right : MerkleNode}
    (h : Built hash str d (.leaf hv r ks)) (h' : Built hash str d' (.inner hv' r' left right))
    (hfree : CollisionFree hash
      (hashedTexts hash str d (.leaf hv r ks) ++
        hashedTexts hash str d' (.inner hv' r' left right))) : hv ≠ hv' := by
  intro heq
  obtain ⟨hl, hr, hinner⟩ := h'
  obtain ⟨s, hs, hls, hcolon⟩ := hl.hashed hd
  have hleaf : hv = hash (String.join (ks.filterMap (keyHash hash str d))) :=
    congrArg MerkleNode.hashValue h.2.2
  have hparent : hv' = hash (left.hashValue ++ right.hashValue) :=
    congrArg MerkleNode.hashValue hinner
  have hjoin := hfree _ (List.mem_append_left _ List.mem_cons_self) _
    (List.mem_append_right _ List.mem_cons_self) (hleaf.symm.trans (heq.trans hparent))
  have htwo : String.join [left.hashValue, right.hashValue] =
      left.hashValue ++ right.hashValue := by simp [String.join]
  rw [← htwo] at hjoin
  have hkeys : ∀ t ∈ ks.filterMap (keyHash hash str d), IsDigest 16 ':' t := by
    rw [filterMap_keyHash]
    exact hd.map _
  have hnodes : ∀ t ∈ [left.hashValue, right.hashValue], IsDigest 16 ':' t := by
    intro t ht
    simp only [List.mem_cons, List.not_mem_nil, or_false] at ht
    rcases ht with rfl | rfl
    · exact hl.isDigest hd
    · exact hr.isDigest hd
  -- the first key hash would be the hash of the left node
  have hlists := IsDigest.join_inj (by decide) hkeys hnodes hjoin
  have hmem : left.hashValue ∈ (keyTexts str d ks).map hash := by
    rw [← filterMap_keyHash, hlists]
    exact List.mem_cons_self
  obtain ⟨t, ht, htl⟩ := List.mem_map.mp hmem
  have hsame := hfree t (List.mem_append_left _ (List.mem_cons_of_mem _ ht)) s
    (List.mem_append_right _ (List.mem_cons_of_mem _ (List.mem_append_left _ hs)))
    (htl.trans hls)
  exact hcolon (hsame ▸ colon_of_mem_keyTexts ht)

/-- Parents of equal hash have children of equal hash. -/
theorem children_of_hashes (hd : HexDigest hash) {d d' : KeyValues V} {hv hv' : String}
    {r r' : String × String} {left right left' right' : MerkleNode}
    (h : Built hash str d (.inner hv r left right))
    (h' : Built hash str d' (.inner hv' r' left' right'))
    (hfree : CollisionFree hash
      (hashedTexts hash str d (.inner hv r left right) ++
        hashedTexts hash str d' (.inner hv' r' left' right'))) (heq : hv = hv') :
    left.hashValue = left'.hashValue ∧ right.hashValue = right'.hashValue := by
  have hparent : hv = hash (left.hashValue ++ right.hashValue) :=
    congrArg MerkleNode.hashValue h.2.2
  have hparent' : hv' = hash (left'.hashValue ++ right'.hashValue) :=
    congrArg MerkleNode.hashValue h'.2.2
  have hjoin := hfree _ (List.mem_append_left _ List.mem_cons_self) _
    (List.mem_append_right _ List.mem_cons_self) (hparent.symm.trans (heq.trans hparent'))
  exact (h.1.isDigest hd).append_inj (h'.1.isDigest hd) hjoin

/-- **Equal hashes, equal texts**: nodes of equal hash have the same key texts below them. -/
theorem texts_of_hashes (hd : HexDigest hash) {d d' : KeyValues V} {n n' : MerkleNode}
    (h : Built hash str d n) (h' : Built hash str d' n')
    (hfree : CollisionFree hash (hashedTexts hash str d n ++ hashedTexts hash str d' n'))
    (heq : n.hashValue = n'.hashValue) :
    keyTexts str d n.keys = keyTexts str d' n'.keys := by
  induction n generalizing n' with
  | leaf hv r ks =>
    cases n' with
    | leaf hv' r' ks' =>
      have hleaf : hv = hash (String.join (ks.filterMap (keyHash hash str d))) :=
        congrArg MerkleNode.hashValue h.2.2
      have hleaf' : hv' = hash (String.join (ks'.filterMap (keyHash hash str d'))) :=
        congrArg MerkleNode.hashValue h'.2.2
      have hjoin := hfree _ (List.mem_append_left _ List.mem_cons_self) _
        (List.mem_append_right _ List.mem_cons_self) (hleaf.symm.trans (heq.trans hleaf'))
      rw [filterMap_keyHash, filterMap_keyHash] at hjoin
      refine CollisionFree.map_inj (hfree.mono fun t ht => ?_)
        (IsDigest.join_inj (by decide) (hd.map _) (hd.map _) hjoin)
      rcases List.mem_append.mp ht with ht | ht
      · exact List.mem_append_left _ (List.mem_cons_of_mem _ ht)
      · exact List.mem_append_right _ (List.mem_cons_of_mem _ ht)
    | inner hv' r' left' right' => exact absurd heq (leaf_ne_inner hd h h' hfree)
  | inner hv r left right ihl ihr =>
    cases n' with
    | leaf hv' r' ks' =>
      exact absurd heq.symm (leaf_ne_inner hd h' h hfree.swap)
    | inner hv' r' left' right' =>
      obtain ⟨hleft, hright⟩ := children_of_hashes hd h h' hfree heq
      have hsub : ∀ t, t ∈ hashedTexts hash str d left ++ hashedTexts hash str d' left' ∨
          t ∈ hashedTexts hash str d right ++ hashedTexts hash str d' right' →
          t ∈ hashedTexts hash str d (.inner hv r left right) ++
            hashedTexts hash str d' (.inner hv' r' left' right') := by
        intro t ht
        simp only [hashedTexts, List.mem_append, List.mem_cons] at ht ⊢
        rcases ht with (ht | ht) | (ht | ht) <;> simp [ht]
      have hl := ihl h.1 h'.1 (hfree.mono fun t ht => hsub t (.inl ht)) hleft
      have hr := ihr h.2.1 h'.2.1 (hfree.mono fun t ht => hsub t (.inr ht)) hright
      show keyTexts str d (left.keys ++ right.keys) = keyTexts str d' (left'.keys ++ right'.keys)
      rw [keyTexts_append, keyTexts_append, hl, hr]

end MerkleTree

end MiniDb
