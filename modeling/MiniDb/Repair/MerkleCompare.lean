/-
  What the comparison of two trees finds (`repair/merkle.py`).

  `compare` walks both trees by position. It stops where the hashes agree, and where one of the
  two nodes is a leaf it reports the range of the first tree's node. Which pairs of nodes it can
  stop at depends on the shapes only (`opposite`); it reports those whose hashes differ
  (`compareNodes_eq`), and their ranges are apart (`opposite_apart`).

  `compare_complete_iff`: the ranges cover every key that differs if and only if the maps are both
  empty or both not, every key of the second map alone lies in the range of a node at which the
  walk can stop, and no differing key lies in the range of a leaf opposite to one with the same
  key texts. A key outside the ranges of the first tree is never found.
-/
import MiniDb.Repair.MerkleRoot
import Mathlib.Data.List.Pairwise

namespace MiniDb

open Lib

namespace MerkleNode

/-- The pairs of nodes at which a walk by position stops, hashes aside. -/
def opposite : MerkleNode → MerkleNode → List (MerkleNode × MerkleNode)
  | inner _ _ left right, inner _ _ left' right' => opposite left left' ++ opposite right right'
  | node1, node2 => [(node1, node2)]

/-- `key` is in the range of the node. -/
def InRange (n : MerkleNode) (key : String) : Prop := n.keyRange.1 ≤ key ∧ key ≤ n.keyRange.2

/-- The range of a node goes from its first key to its last. -/
structure Ranged (n : MerkleNode) : Prop where
  first : n.keyRange.1 ∈ n.keys
  last : n.keyRange.2 ∈ n.keys
  bounds : ∀ k ∈ n.keys, n.InRange k

theorem opposite_leaf (h : String) (r : String × String) (ks : List String) (n' : MerkleNode) :
    opposite (leaf h r ks) n' = [(leaf h r ks, n')] := by
  cases n' <;> rfl

theorem opposite_inner_leaf (h h' : String) (r r' : String × String) (left right : MerkleNode)
    (ks' : List String) :
    opposite (inner h r left right) (leaf h' r' ks') =
      [(inner h r left right, leaf h' r' ks')] := rfl

theorem opposite_keys (n n' : MerkleNode) :
    (opposite n n').flatMap (fun p => p.1.keys) = n.keys := by
  induction n generalizing n' with
  | leaf h r ks => rw [opposite_leaf, List.flatMap_singleton]
  | inner h r left right ihl ihr =>
    cases n' with
    | leaf h' r' ks' => rw [opposite_inner_leaf, List.flatMap_singleton]
    | inner h' r' left' right' => rw [opposite, List.flatMap_append, ihl, ihr, keys]

/-- What is handed down to the children of inner nodes holds where the walk stops. -/
theorem opposite_induction {P : MerkleNode → MerkleNode → Prop}
    (hdown : ∀ h r left right h' r' left' right',
      P (inner h r left right) (inner h' r' left' right') → P left left' ∧ P right right')
    {n n' : MerkleNode} (hn : P n n') {p : MerkleNode × MerkleNode} (hp : p ∈ opposite n n') :
    P p.1 p.2 := by
  induction n generalizing n' with
  | leaf h r ks =>
    rw [opposite_leaf, List.mem_singleton] at hp
    exact hp ▸ hn
  | inner h r left right ihl ihr =>
    cases n' with
    | leaf h' r' ks' =>
      rw [opposite_inner_leaf, List.mem_singleton] at hp
      exact hp ▸ hn
    | inner h' r' left' right' =>
      obtain ⟨hleft, hright⟩ := hdown _ _ _ _ _ _ _ _ hn
      rw [opposite, List.mem_append] at hp
      rcases hp with hp | hp
      · exact ihl hleft hp
      · exact ihr hright hp

/-- The walk stops at leaves. -/
theorem opposite_stops {n n' : MerkleNode} {p : MerkleNode × MerkleNode}
    (hp : p ∈ opposite n n') : p.1.isLeaf = true ∨ p.2.isLeaf = true := by
  induction n generalizing n' with
  | leaf h r ks =>
    rw [opposite_leaf, List.mem_singleton] at hp
    exact hp ▸ .inl rfl
  | inner h r left right ihl ihr =>
    cases n' with
    | leaf h' r' ks' =>
      rw [opposite_inner_leaf, List.mem_singleton] at hp
      exact hp ▸ .inr rfl
    | inner h' r' left' right' =>
      rw [opposite, List.mem_append] at hp
      rcases hp with hp | hp
      · exact ihl hp
      · exact ihr hp

end MerkleNode

namespace MerkleTree

open MerkleNode

variable {hash : String → String} {V : Type} {str : V → String}

/-- A key that one of the maps lacks, or has with another hash. -/
def Differs (hash : String → String) (str : V → String) (d d' : KeyValues V) (k : String) : Prop :=
  keyHash hash str d k ≠ keyHash hash str d' k

/-- The ranges found cover every key that differs. -/
def Complete (hash : String → String) (str : V → String) (size : Nat) (d d' : KeyValues V) :
    Prop :=
  ∀ k, Differs hash str d d' k →
    ∃ r ∈ compare (build hash str size d) (build hash str size d'), r.1 ≤ k ∧ k ≤ r.2

/-! ## Ranges -/

/-- What is built over sorted keys has the ranges of its keys. -/
theorem Built.ranged {d : KeyValues V} {n : MerkleNode} (h : Built hash str d n)
    (hsorted : n.keys.Pairwise (· < ·)) : n.Ranged := by
  induction n with
  | leaf hv r ks =>
    have hr : r = (ks.headD "", ks.getLastD "") := congrArg keyRange h.2.2
    obtain ⟨z, ks, rfl⟩ := List.exists_cons_of_ne_nil h.1
    have hbelow := (List.pairwise_cons.mp hsorted).1
    have habove : ∀ k ∈ z :: ks, k ≤ (z :: ks).getLastD "" := fun k hk =>
      (List.Pairwise.imp le_of_lt hsorted).rel_getLast hk
    have hlast : (z :: ks).getLastD "" ∈ z :: ks := List.getLast_mem (List.cons_ne_nil z ks)
    rw [hr]
    refine ⟨List.mem_cons_self, hlast, fun k hk => ⟨?_, habove k hk⟩⟩
    rcases List.mem_cons.mp hk with rfl | hk
    · exact le_refl _
    · exact le_of_lt (hbelow k hk)
  | inner hv r left right ihl ihr =>
    obtain ⟨hl, hright, heq⟩ := h
    have hr : r = (left.keyRange.1, right.keyRange.2) := congrArg keyRange heq
    have hfirst : r.1 = left.keyRange.1 := by rw [hr]
    have hlast : r.2 = right.keyRange.2 := by rw [hr]
    obtain ⟨hlsorted, hrsorted, hcross⟩ := List.pairwise_append.mp hsorted
    have hlr := ihl hl hlsorted
    have hrr := ihr hright hrsorted
    refine ⟨?_, ?_, fun k hk => ?_⟩
    · show r.1 ∈ left.keys ++ right.keys
      exact hfirst ▸ List.mem_append_left _ hlr.first
    · show r.2 ∈ left.keys ++ right.keys
      exact hlast ▸ List.mem_append_right _ hrr.last
    · show r.1 ≤ k ∧ k ≤ r.2
      rw [hfirst, hlast]
      rcases List.mem_append.mp hk with hk | hk
      · exact ⟨(hlr.bounds k hk).1, le_of_lt (hcross k hk _ hrr.last)⟩
      · exact ⟨le_of_lt (hcross _ hlr.first k hk), (hrr.bounds k hk).2⟩

/-- The first tree's nodes at which the walk stops have ranges of sorted keys. -/
theorem opposite_ranged {d : KeyValues V} {n n' : MerkleNode} (h : Built hash str d n)
    (hsorted : n.keys.Pairwise (· < ·)) {p : MerkleNode × MerkleNode} (hp : p ∈ opposite n n') :
    p.1.Ranged := by
  have hboth := opposite_induction
    (P := fun m _ => Built hash str d m ∧ m.keys.Pairwise (· < ·)) (fun _ _ _ _ _ _ _ _ hm =>
      have hkeys := List.pairwise_append.mp hm.2
      ⟨⟨hm.1.1, hkeys.1⟩, hm.1.2.1, hkeys.2.1⟩) ⟨h, hsorted⟩ hp
  exact hboth.1.ranged hboth.2

/-- These ranges are apart. -/
theorem opposite_apart {d : KeyValues V} {n n' : MerkleNode} (h : Built hash str d n)
    (hsorted : n.keys.Pairwise (· < ·)) :
    (opposite n n').Pairwise fun p q => p.1.keyRange.2 < q.1.keyRange.1 := by
  induction n generalizing n' with
  | leaf hv r ks =>
    rw [opposite_leaf]
    exact List.pairwise_singleton _ _
  | inner hv r left right ihl ihr =>
    cases n' with
    | leaf hv' r' ks' =>
      rw [opposite_inner_leaf]
      exact List.pairwise_singleton _ _
    | inner hv' r' left' right' =>
      obtain ⟨hlsorted, hrsorted, hcross⟩ := List.pairwise_append.mp hsorted
      have hin : ∀ {m m' : MerkleNode} {q : MerkleNode × MerkleNode}, q ∈ opposite m m' →
          ∀ k ∈ q.1.keys, k ∈ m.keys := by
        intro m m' q hq k hk
        rw [← opposite_keys m m']
        exact List.mem_flatMap.mpr ⟨q, hq, hk⟩
      rw [opposite]
      refine List.pairwise_append.mpr ⟨ihl h.1 hlsorted, ihr h.2.1 hrsorted, fun p hp q hq => ?_⟩
      exact hcross _ (hin hp _ (opposite_ranged h.1 hlsorted hp).last) _
        (hin hq _ (opposite_ranged h.2.1 hrsorted hq).first)

/-- So that no key is in two of them. -/
theorem opposite_unique {d : KeyValues V} {n n' : MerkleNode} (h : Built hash str d n)
    (hsorted : n.keys.Pairwise (· < ·)) {p q : MerkleNode × MerkleNode} (hp : p ∈ opposite n n')
    (hq : q ∈ opposite n n') {k : String} (hpk : p.1.InRange k) (hqk : q.1.InRange k) : p = q := by
  by_contra hne
  let R : MerkleNode × MerkleNode → MerkleNode × MerkleNode → Prop := fun p q =>
    p.1.keyRange.2 < q.1.keyRange.1 ∨ q.1.keyRange.2 < p.1.keyRange.1
  have hsymm : Std.Symm R := ⟨fun _ _ h => h.symm⟩
  have happart : (opposite n n').Pairwise R := (opposite_apart h hsorted).imp fun hlt => .inl hlt
  rcases happart.forall hp hq hne with hlt | hlt
  · exact absurd (lt_of_le_of_lt hpk.2 (lt_of_lt_of_le hlt hqk.1)) (lt_irrefl k)
  · exact absurd (lt_of_le_of_lt hqk.2 (lt_of_lt_of_le hlt hpk.1)) (lt_irrefl k)

/-! ## What is reported -/

section Hashes

variable {d d' : KeyValues V}

/-- Two nodes that the walk can come to: built over the two maps, with no texts of theirs that
    collide. -/
structure Aligned (hash : String → String) (str : V → String) (d d' : KeyValues V)
    (n n' : MerkleNode) : Prop where
  left : Built hash str d n
  right : Built hash str d' n'
  free : CollisionFree hash (hashedTexts hash str d n ++ hashedTexts hash str d' n')

theorem Aligned.children {hv hv' : String} {r r' : String × String}
    {left right left' right' : MerkleNode}
    (h : Aligned hash str d d' (.inner hv r left right) (.inner hv' r' left' right')) :
    Aligned hash str d d' left left' ∧ Aligned hash str d d' right right' := by
  constructor
  · refine ⟨h.left.1, h.right.1, h.free.mono fun t ht => ?_⟩
    simp only [hashedTexts, List.mem_append, List.mem_cons] at ht ⊢
    rcases ht with ht | ht <;> simp [ht]
  · refine ⟨h.left.2.1, h.right.2.1, h.free.mono fun t ht => ?_⟩
    simp only [hashedTexts, List.mem_append, List.mem_cons] at ht ⊢
    rcases ht with ht | ht <;> simp [ht]

theorem Aligned.opposite {n n' : MerkleNode} (h : Aligned hash str d d' n n')
    {p : MerkleNode × MerkleNode} (hp : p ∈ opposite n n') : Aligned hash str d d' p.1 p.2 :=
  opposite_induction (P := Aligned hash str d d') (fun _ _ _ _ _ _ _ _ hm => hm.children) h hp

/-- Below nodes of equal hash all hashes are equal. -/
theorem opposite_equal (hd : HexDigest hash) {n n' : MerkleNode}
    (h : Aligned hash str d d' n n') (heq : n.hashValue = n'.hashValue)
    {p : MerkleNode × MerkleNode} (hp : p ∈ MerkleNode.opposite n n') :
    p.1.hashValue = p.2.hashValue := by
  have hboth := opposite_induction
    (P := fun m m' => Aligned hash str d d' m m' ∧ m.hashValue = m'.hashValue)
    (fun _ _ _ _ _ _ _ _ hm =>
      have hchildren := children_of_hashes hd hm.1.left hm.1.right hm.1.free hm.2
      ⟨⟨hm.1.children.1, hchildren.1⟩, hm.1.children.2, hchildren.2⟩) ⟨h, heq⟩ hp
  exact hboth.2

/-- **The walk reports** the nodes at which it stops whose hashes differ. -/
theorem compareNodes_eq (hd : HexDigest hash) {n n' : MerkleNode}
    (h : Aligned hash str d d' n n') :
    compareNodes n n' =
      ((MerkleNode.opposite n n').filter fun p => p.1.hashValue ≠ p.2.hashValue).map
        fun p => p.1.keyRange := by
  induction n generalizing n' with
  | leaf hv r ks =>
    rw [opposite_leaf]
    by_cases heq : hv = n'.hashValue
    · cases n' <;> simp_all [compareNodes, hashValue]
    · cases n' <;> simp_all [compareNodes, hashValue]
  | inner hv r left right ihl ihr =>
    cases n' with
    | leaf hv' r' ks' =>
      rw [opposite_inner_leaf]
      by_cases heq : hv = hv'
      · simp [compareNodes, hashValue, heq]
      · simp [compareNodes, hashValue, heq]
    | inner hv' r' left' right' =>
      by_cases heq : hv = hv'
      · have hnone : (MerkleNode.opposite (.inner hv r left right)
            (.inner hv' r' left' right')).filter (fun p => p.1.hashValue ≠ p.2.hashValue) = [] := by
          rw [List.filter_eq_nil_iff]
          intro p hp
          simpa using opposite_equal hd h heq hp
        rw [hnone, compareNodes, if_pos heq, List.map_nil]
      · rw [compareNodes, if_neg heq, ihl h.children.1, ihr h.children.2, MerkleNode.opposite,
          List.filter_append, List.map_append]

/-- Where the walk stops, the hashes agree only at leaves with the same key texts. -/
theorem opposite_hash_iff (hd : HexDigest hash) {n n' : MerkleNode}
    (h : Aligned hash str d d' n n') {p : MerkleNode × MerkleNode}
    (hp : p ∈ MerkleNode.opposite n n') :
    p.1.hashValue = p.2.hashValue ↔ p.1.isLeaf = true ∧ p.2.isLeaf = true ∧
      keyTexts str d p.1.keys = keyTexts str d' p.2.keys := by
  have halign := h.opposite hp
  have hstop := opposite_stops hp
  obtain ⟨m, m'⟩ := p
  constructor
  · intro heq
    refine ⟨?_, ?_, texts_of_hashes hd halign.left halign.right halign.free heq⟩
    · cases m with
      | leaf hv r ks => rfl
      | inner hv r left right =>
        cases m' with
        | leaf hv' r' ks' =>
          exact absurd heq.symm (leaf_ne_inner hd halign.right halign.left halign.free.swap)
        | inner hv' r' left' right' => rcases hstop with hfalse | hfalse <;> cases hfalse
    · cases m' with
      | leaf hv' r' ks' => rfl
      | inner hv' r' left' right' =>
        cases m with
        | leaf hv r ks =>
          exact absurd heq (leaf_ne_inner hd halign.left halign.right halign.free)
        | inner hv r left right => rcases hstop with hfalse | hfalse <;> cases hfalse
  · rintro ⟨hm, hm', htexts⟩
    cases m with
    | inner hv r left right => cases hm
    | leaf hv r ks =>
      cases m' with
      | inner hv' r' left' right' => cases hm'
      | leaf hv' r' ks' =>
        have hleaf : hv = hash (String.join (ks.filterMap (keyHash hash str d))) :=
          congrArg MerkleNode.hashValue halign.left.2.2
        have hleaf' : hv' = hash (String.join (ks'.filterMap (keyHash hash str d'))) :=
          congrArg MerkleNode.hashValue halign.right.2.2
        have hsame : keyTexts str d ks = keyTexts str d' ks' := htexts
        show hv = hv'
        rw [hleaf, hleaf', filterMap_keyHash, filterMap_keyHash, hsame]

end Hashes

/-! ## Every key that differs -/

/-- The pairs of nodes at which the walk through the two trees can stop. -/
def stops (hash : String → String) (str : V → String) (size : Nat) (d d' : KeyValues V) :
    List (MerkleNode × MerkleNode) :=
  match build hash str size d, build hash str size d' with
  | some root, some root' => MerkleNode.opposite root root'
  | _, _ => []

/-- When every difference is found. -/
structure Findable (hash : String → String) (str : V → String) (size : Nat)
    (d d' : KeyValues V) : Prop where
  both : d.keys = [] ↔ d'.keys = []
  /-- A key of the second map alone is in the range of a node of the first tree at which the
      walk can stop. -/
  inside : ∀ k ∈ d'.keys, k ∉ d.keys → ∃ p ∈ stops hash str size d d', p.1.InRange k
  /-- No differing key is in the range of a leaf opposite to one with the same key texts. -/
  apart : ∀ p ∈ stops hash str size d d', p.1.isLeaf = true → p.2.isLeaf = true →
    keyTexts str d p.1.keys = keyTexts str d' p.2.keys →
    ∀ k, Differs hash str d d' k → ¬ p.1.InRange k

theorem sortedKeys_nil_iff (d : KeyValues V) : sortedKeys d = [] ↔ d.keys = [] := by
  rw [List.eq_nil_iff_forall_not_mem, List.eq_nil_iff_forall_not_mem]
  simp only [mem_sortedKeys]

variable (hash str) in
theorem keyHash_isSome_iff {d : KeyValues V} {k : String} :
    (keyHash hash str d k).isSome ↔ k ∈ d.keys := by
  rw [keyHash, Option.isSome_map, d.mem_keys_iff, Option.isSome_iff_ne_none]

/-- A key that one map has alone differs. -/
theorem differs_of_alone {d d' : KeyValues V} {k : String} (h : ¬ (k ∈ d.keys ↔ k ∈ d'.keys)) :
    Differs hash str d d' k := by
  intro heq
  refine h ?_
  rw [← keyHash_isSome_iff hash str, heq, keyHash_isSome_iff]

theorem mem_of_differs {d d' : KeyValues V} {k : String} (h : Differs hash str d d' k) :
    k ∈ d.keys ∨ k ∈ d'.keys := by
  by_contra hnone
  rw [not_or, ← keyHash_isSome_iff hash str, ← keyHash_isSome_iff hash str,
    Option.not_isSome_iff_eq_none, Option.not_isSome_iff_eq_none] at hnone
  exact h (hnone.1.trans hnone.2.symm)

section Complete

variable {size : Nat} {d d' : KeyValues V}

/-- What `compare` returns: the ranges of the stops whose hashes differ. -/
theorem compare_eq (hd : HexDigest hash) (hs : 0 < size)
    (hfree : CollisionFree hash (allTexts hash str d (build hash str size d) ++
      allTexts hash str d' (build hash str size d'))) :
    compare (build hash str size d) (build hash str size d') =
      ((stops hash str size d d').filter fun p => p.1.hashValue ≠ p.2.hashValue).map
        fun p => p.1.keyRange := by
  unfold stops
  cases hroot : build hash str size d with
  | none => simp [compare]
  | some root =>
    cases hroot' : build hash str size d' with
    | none => simp [compare]
    | some root' =>
      rw [hroot, hroot'] at hfree
      simp only [allTexts, Option.toList_some, List.flatMap_cons, List.flatMap_nil,
        List.append_nil] at hfree
      exact compareNodes_eq hd ⟨(build_built hs hroot).1, (build_built hs hroot').1, hfree⟩

/-- The ranges that `compare` returns. -/
theorem mem_compare (hd : HexDigest hash) (hs : 0 < size)
    (hfree : CollisionFree hash (allTexts hash str d (build hash str size d) ++
      allTexts hash str d' (build hash str size d'))) {r : String × String} :
    r ∈ compare (build hash str size d) (build hash str size d') ↔
      ∃ p ∈ stops hash str size d d', p.1.hashValue ≠ p.2.hashValue ∧ p.1.keyRange = r := by
  simp only [compare_eq hd hs hfree, List.mem_map, List.mem_filter, ne_eq, decide_not,
    Bool.not_eq_true', decide_eq_false_iff_not, and_assoc]

variable (hash str) in
theorem build_isSome (hs : 0 < size) {e : KeyValues V} (he : e.keys ≠ []) :
    ∃ root, build hash str size e = some root := by
  rw [← Option.ne_none_iff_exists']
  exact fun hnone => he ((sortedKeys_nil_iff e).mp ((build_eq_none_iff hs).mp hnone))

/-- Every key of the first map is in the range of a node at which the walk can stop. -/
theorem stops_cover (hs : 0 < size) (hd' : d'.keys ≠ []) {k : String} (hk : k ∈ d.keys) :
    ∃ p ∈ stops hash str size d d', p.1.InRange k := by
  obtain ⟨root, hroot⟩ := build_isSome hash str hs (List.ne_nil_of_mem hk)
  obtain ⟨root', hroot'⟩ := build_isSome hash str hs hd'
  obtain ⟨hbuilt, hkeys⟩ := build_built hs hroot
  have hin : k ∈ (MerkleNode.opposite root root').flatMap fun p => p.1.keys := by
    rw [opposite_keys, hkeys]
    exact mem_sortedKeys.mpr hk
  obtain ⟨p, hp, hkp⟩ := List.mem_flatMap.mp hin
  refine ⟨p, ?_, (opposite_ranged hbuilt (hkeys ▸ sortedKeys_pairwise d) hp).bounds k hkp⟩
  rw [stops, hroot, hroot']
  exact hp

theorem roots_of_mem_stops {p : MerkleNode × MerkleNode} (hp : p ∈ stops hash str size d d') :
    ∃ root root', build hash str size d = some root ∧ build hash str size d' = some root' ∧
      p ∈ MerkleNode.opposite root root' := by
  unfold stops at hp
  cases hroot : build hash str size d with
  | none => simp [hroot] at hp
  | some root =>
    cases hroot' : build hash str size d' with
    | none => simp [hroot, hroot'] at hp
    | some root' =>
      rw [hroot, hroot'] at hp
      exact ⟨root, root', rfl, rfl, hp⟩

theorem stops_ranged (hs : 0 < size) {p : MerkleNode × MerkleNode}
    (hp : p ∈ stops hash str size d d') : p.1.Ranged := by
  obtain ⟨root, root', hroot, -, hopp⟩ := roots_of_mem_stops hp
  obtain ⟨hbuilt, hkeys⟩ := build_built hs hroot
  exact opposite_ranged hbuilt (hkeys ▸ sortedKeys_pairwise d) hopp

/-- A key is in the range of one node at most at which the walk can stop. -/
theorem stops_unique (hs : 0 < size) {p q : MerkleNode × MerkleNode}
    (hp : p ∈ stops hash str size d d') (hq : q ∈ stops hash str size d d') {k : String}
    (hpk : p.1.InRange k) (hqk : q.1.InRange k) : p = q := by
  obtain ⟨root, root', hroot, hroot', hpopp⟩ := roots_of_mem_stops hp
  rw [stops, hroot, hroot'] at hq
  obtain ⟨hbuilt, hkeys⟩ := build_built hs hroot
  exact opposite_unique hbuilt (hkeys ▸ sortedKeys_pairwise d) hpopp hq hpk hqk

theorem stops_hash_iff (hd : HexDigest hash) (hs : 0 < size)
    (hfree : CollisionFree hash (allTexts hash str d (build hash str size d) ++
      allTexts hash str d' (build hash str size d'))) {p : MerkleNode × MerkleNode}
    (hp : p ∈ stops hash str size d d') :
    p.1.hashValue = p.2.hashValue ↔ p.1.isLeaf = true ∧ p.2.isLeaf = true ∧
      keyTexts str d p.1.keys = keyTexts str d' p.2.keys := by
  obtain ⟨root, root', hroot, hroot', hopp⟩ := roots_of_mem_stops hp
  rw [hroot, hroot'] at hfree
  simp only [allTexts, Option.toList_some, List.flatMap_cons, List.flatMap_nil,
    List.append_nil] at hfree
  exact opposite_hash_iff hd ⟨(build_built hs hroot).1, (build_built hs hroot').1, hfree⟩ hopp

theorem stops_nil (hs : 0 < size) (hnone : d.keys = [] ∨ d'.keys = []) :
    stops hash str size d d' = [] := by
  have hbuild : ∀ e : KeyValues V, e.keys = [] → build hash str size e = none := fun e he =>
    (build_eq_none_iff hs).mpr ((sortedKeys_nil_iff e).mpr he)
  unfold stops
  rcases hnone with hnone | hnone
  · rw [hbuild d hnone]
  · rw [hbuild d' hnone]
    cases build hash str size d <;> rfl

/-- **Exactly when the ranges found cover every key that differs.** -/
theorem compare_complete_iff (hd : HexDigest hash) (hs : 0 < size)
    (hfree : CollisionFree hash (allTexts hash str d (build hash str size d) ++
      allTexts hash str d' (build hash str size d'))) :
    Complete hash str size d d' ↔ Findable hash str size d d' := by
  constructor
  · intro hall
    -- a differing key lies at a stop whose hashes differ
    have hfind : ∀ k, Differs hash str d d' k → ∃ p ∈ stops hash str size d d',
        p.1.hashValue ≠ p.2.hashValue ∧ p.1.InRange k := by
      intro k hk
      obtain ⟨r, hr, hin⟩ := hall k hk
      obtain ⟨p, hp, hne, rfl⟩ := (mem_compare hd hs hfree).mp hr
      exact ⟨p, hp, hne, hin⟩
    have hnone : ¬ (d.keys = [] ∨ d'.keys = []) ∨ ∀ k, ¬ Differs hash str d d' k := by
      by_contra hcon
      rw [not_or, not_not, not_forall] at hcon
      obtain ⟨hempty, k, hk⟩ := hcon
      obtain ⟨p, hp, -⟩ := hfind k (not_not.mp hk)
      rw [stops_nil hs hempty] at hp
      cases hp
    refine ⟨?_, fun k hk hnot => ?_, fun p hp hleaf hleaf' htexts k hk hin => ?_⟩
    · rcases hnone with hfull | hsame
      · rw [not_or] at hfull
        exact ⟨fun h => absurd h hfull.1, fun h => absurd h hfull.2⟩
      · have hkeys : ∀ k, k ∈ d.keys ↔ k ∈ d'.keys := fun k =>
          not_not.mp fun hne => hsame k (differs_of_alone hne)
        simp only [List.eq_nil_iff_forall_not_mem, hkeys]
    · have hdiff : Differs hash str d d' k := differs_of_alone fun h => hnot (h.mpr hk)
      obtain ⟨p, hp, -, hin⟩ := hfind k hdiff
      exact ⟨p, hp, hin⟩
    · obtain ⟨q, hq, hne, hqin⟩ := hfind k hk
      obtain rfl := stops_unique hs hp hq hin hqin
      exact hne ((stops_hash_iff hd hs hfree hp).mpr ⟨hleaf, hleaf', htexts⟩)
  · rintro ⟨hboth, hinside, hapart⟩ k hk
    have hstop : ∃ p ∈ stops hash str size d d', p.1.InRange k := by
      by_cases hkd : k ∈ d.keys
      · exact stops_cover hs (fun h => List.ne_nil_of_mem hkd (hboth.mpr h)) hkd
      · exact hinside k ((mem_of_differs hk).resolve_left hkd) hkd
    obtain ⟨p, hp, hin⟩ := hstop
    have hne : p.1.hashValue ≠ p.2.hashValue := by
      intro heq
      obtain ⟨hleaf, hleaf', htexts⟩ := (stops_hash_iff hd hs hfree hp).mp heq
      exact hapart p hp hleaf hleaf' htexts k hk hin
    exact ⟨p.1.keyRange, (mem_compare hd hs hfree).mpr ⟨p, hp, hne, rfl⟩, hin⟩

end Complete

/-! ### Trees of different shapes -/

/-- 16 characters that number the texts of a list. -/
def numbered (texts : List String) (s : String) : String :=
  String.ofList (List.replicate 15 '0' ++ [Nat.digitChar (texts.idxOf s % 16)])

theorem hexDigest_numbered (texts : List String) : HexDigest (numbered texts) := by
  have hdigit : ∀ n < 16, String.length (String.ofList (List.replicate 15 '0' ++
      [Nat.digitChar n])) = 16 ∧ ':' ∉ (String.ofList (List.replicate 15 '0' ++
        [Nat.digitChar n])).toList := by decide
  intro s
  obtain ⟨hlength, hcolon⟩ := hdigit _ (Nat.mod_lt (texts.idxOf s) (Nat.succ_pos 15))
  exact ⟨hlength, hcolon⟩

/-- A tree of three buckets: the third is promoted. -/
theorem build_three {size : Nat} {d : KeyValues V} {ks₁ ks₂ ks₃ : List String}
    (h : chunks size (sortedKeys d) = [ks₁, ks₂, ks₃]) :
    build hash str size d = some (parent hash
      (parent hash (bucket hash str d ks₁) (bucket hash str d ks₂)) (bucket hash str d ks₃)) := by
  rw [build, h]
  simp [reduceUp_cons, pairUp]

/-- A tree of four buckets. -/
theorem build_four {size : Nat} {d : KeyValues V} {ks₁ ks₂ ks₃ ks₄ : List String}
    (h : chunks size (sortedKeys d) = [ks₁, ks₂, ks₃, ks₄]) :
    build hash str size d = some (parent hash
      (parent hash (bucket hash str d ks₁) (bucket hash str d ks₂))
      (parent hash (bucket hash str d ks₃) (bucket hash str d ks₄))) := by
  rw [build, h]
  simp [reduceUp_cons, pairUp]

/-- A map with the same value under all keys. -/
def sameValues (keys : List String) : KeyValues Json :=
  keys.foldl (fun d key => d.set key (.str "x", 1)) Dict.empty

/-- The texts of the trees over "a", "b", "d", "f" and over "a", "b", "e" in buckets of one. -/
def shapeTexts : List String :=
  ["a:x:1", "b:x:1", "d:x:1", "f:x:1", "e:x:1", "0000000000000000", "0000000000000001",
    "0000000000000002", "0000000000000003", "0000000000000004",
    "00000000000000050000000000000006", "00000000000000070000000000000008",
    "000000000000000a000000000000000b", "000000000000000a0000000000000009"]

theorem chunks_four : chunks 1 (sortedKeys (sameValues ["a", "b", "d", "f"])) =
    [["a"], ["b"], ["d"], ["f"]] := by
  have hsorted : sortedKeys (sameValues ["a", "b", "d", "f"]) = ["a", "b", "d", "f"] :=
    List.mergeSort_of_pairwise (by decide)
  rw [hsorted]
  simp [chunks_of_ne_nil, chunks_nil]

theorem chunks_three : chunks 1 (sortedKeys (sameValues ["a", "b", "e"])) =
    [["a"], ["b"], ["e"]] := by
  have hsorted : sortedKeys (sameValues ["a", "b", "e"]) = ["a", "b", "e"] :=
    List.mergeSort_of_pairwise (by decide)
  rw [hsorted]
  simp [chunks_of_ne_nil, chunks_nil]

/-- The walk ends at a leaf of the second tree, and the range of two leaves of the first. -/
theorem compare_complete_iff_sample :
    compare (build (numbered shapeTexts) stringText 1 (sameValues ["a", "b", "d", "f"]))
        (build (numbered shapeTexts) stringText 1 (sameValues ["a", "b", "e"])) = [("d", "f")] ∧
      (Complete (numbered shapeTexts) stringText 1 (sameValues ["a", "b", "d", "f"])
          (sameValues ["a", "b", "e"]) ↔
        Findable (numbered shapeTexts) stringText 1 (sameValues ["a", "b", "d", "f"])
          (sameValues ["a", "b", "e"])) := by
  constructor
  · rw [build_four chunks_four, build_three chunks_three]
    decide +kernel
  · refine compare_complete_iff (hexDigest_numbered _) (by decide) ?_
    rw [build_four chunks_four, build_three chunks_three]
    decide +kernel

/-! ### A key after the last one -/

/-- The hash of one more text is told apart. -/
def pairHash (s : String) : String :=
  if s = "a:x:1" then "0000000000000001"
  else if s = "b:x:1" then "0000000000000002"
  else if s = "0000000000000001" then "0000000000000003"
  else "0000000000000000"

def oneKey : KeyValues Json := Dict.empty.set "a" (.str "x", 1)

def twoKeys : KeyValues Json := oneKey.set "b" (.str "x", 1)

theorem sortedKeys_twoKeys : sortedKeys twoKeys = ["a", "b"] :=
  List.mergeSort_of_pairwise (by decide)

theorem build_twoKeys : build pairHash stringText 100 twoKeys =
    some (.leaf "0000000000000000" ("a", "b") ["a", "b"]) := by
  have hchunks : chunks 100 ["a", "b"] = [["a", "b"]] := by
    rw [chunks_of_ne_nil (by decide) (List.cons_ne_nil _ _)]
    exact congrArg (List.cons _) (chunks_nil 100)
  have hhash : (bucket pairHash stringText twoKeys ["a", "b"]).hashValue = "0000000000000000" := by
    decide
  rw [build, sortedKeys_twoKeys, hchunks, List.map_singleton, reduceUp_singleton, ← hhash]
  rfl

theorem allTexts_twoKeys :
    allTexts pairHash stringText twoKeys (build pairHash stringText 100 twoKeys) =
      ["00000000000000010000000000000002", "a:x:1", "b:x:1"] := by
  rw [build_twoKeys]
  decide

/-- The second map has one key more, after all keys of the first: the range found is that of
    the first tree's root. -/
theorem key_after_last :
    CollisionFree pairHash
        (allTexts pairHash stringText oneKey (build pairHash stringText 100 oneKey) ++
          allTexts pairHash stringText twoKeys (build pairHash stringText 100 twoKeys)) ∧
      "b" ∉ oneKey.keys ∧ "b" ∈ twoKeys.keys ∧
      compare (build pairHash stringText 100 oneKey) (build pairHash stringText 100 twoKeys) =
        [("a", "a")] ∧
      ¬ Complete pairHash stringText 100 oneKey twoKeys := by
  have hranges : compare (build pairHash stringText 100 oneKey)
      (build pairHash stringText 100 twoKeys) = [("a", "a")] := by
    rw [build_twoKeys, oneKey, build_single]
    decide
  have halone : ¬ ("b" ∈ oneKey.keys ↔ "b" ∈ twoKeys.keys) := by decide
  refine ⟨?_, by decide, by decide, hranges, fun h => ?_⟩
  · rw [allTexts_twoKeys, oneKey, allTexts_single]
    decide
  · obtain ⟨r, hr, -, hlast⟩ := h "b" (differs_of_alone halone)
    rw [hranges, List.mem_singleton] at hr
    rw [hr] at hlast
    exact absurd hlast (by decide)

end MerkleTree

end MiniDb
