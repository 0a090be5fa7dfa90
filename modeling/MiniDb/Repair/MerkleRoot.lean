/-
  What equal root hashes say (`repair/merkle.py`, `repair/anti_entropy.py`).

  `roots_agree_iff`: equal roots mean equal maps if and only if the two maps do not happen to have
  the same key texts without being equal. The text of an entry, `key:value:version`, separates
  its parts by a colon that keys and values may have themselves, and the text of a value does not
  say its type. Where keys have no colon and values of different text are compared,
  `sameMap_of_texts` gives the maps back.
-/
import MiniDb.Repair.Merkle
import MiniDb.Lib.Text
import MiniDb.Lib.JsonRoundTrip

namespace MiniDb.MerkleTree

open Lib

variable {hash : String → String} {V : Type} {str : V → String}

/-- The maps have the same entries. -/
def SameMap (d d' : KeyValues V) : Prop := ∀ k, d.get? k = d'.get? k

/-- The key texts of a map, in key order. -/
def textsOf (str : V → String) (d : KeyValues V) : List String := keyTexts str d (sortedKeys d)

/-! ## The root is a function of the key texts -/

/-- Maps with the same keys have them in the same order. -/
theorem sortedKeys_congr {d d' : KeyValues V} (h : ∀ k, k ∈ d.keys ↔ k ∈ d'.keys) :
    sortedKeys d = sortedKeys d' := by
  have hmem : ∀ k, k ∈ sortedKeys d ↔ k ∈ sortedKeys d' := fun k => by
    rw [mem_sortedKeys, mem_sortedKeys, h k]
  have hsorted := sortedKeys_pairwise d
  have hsorted' := sortedKeys_pairwise d'
  have hnodup : (sortedKeys d).Nodup := hsorted.imp ne_of_lt
  have hnodup' : (sortedKeys d').Nodup := hsorted'.imp ne_of_lt
  exact ((List.perm_ext_iff_of_nodup hnodup hnodup').mpr hmem).eq_of_pairwise
    (fun _ _ _ _ hab hba => absurd hba (lt_asymm hab)) hsorted hsorted'

theorem SameMap.sortedKeys_eq {d d' : KeyValues V} (h : SameMap d d') :
    sortedKeys d = sortedKeys d' :=
  sortedKeys_congr fun k => by rw [d.mem_keys_iff, d'.mem_keys_iff, h k]

/-- The tree does not depend on the order of the entries. -/
theorem SameMap.build_eq {d d' : KeyValues V} (h : SameMap d d') (size : Nat) :
    build hash str size d = build hash str size d' := by
  have hbucket : bucket hash str d = bucket hash str d' := by
    funext ks
    have hhash : keyHash hash str d = keyHash hash str d' := by
      funext k
      rw [keyHash, keyHash, h k]
    rw [bucket, bucket, hhash]
  rw [build, build, h.sortedKeys_eq, hbucket]

/-- The hash of a bucket, from its key texts. -/
def bucketHash (hash : String → String) (texts : List String) : String :=
  hash (String.join (texts.map hash))

/-- The text hashed for a key of the map. -/
def textOf (str : V → String) (d : KeyValues V) (k : String) : String :=
  ((d.get? k).map (keyText str k)).getD ""

theorem keyTexts_eq_map {d : KeyValues V} {ks : List String} (h : ∀ k ∈ ks, k ∈ d.keys) :
    keyTexts str d ks = ks.map (textOf str d) := by
  induction ks with
  | nil => rfl
  | cons k ks ih =>
    have hk := (d.mem_keys_iff k).mp (h k List.mem_cons_self)
    obtain ⟨e, he⟩ := Option.ne_none_iff_exists'.mp hk
    have ih := ih fun l hl => h l (List.mem_cons_of_mem k hl)
    rw [keyTexts] at ih ⊢
    simp only [List.filterMap_cons, he, Option.map_some, ih, List.map_cons, textOf,
      Option.getD_some]

theorem getRootHash_eq {size : Nat} (hs : 0 < size) (d : KeyValues V) :
    getRootHash (build hash str size d) =
      reduceUp (fun a b => hash (a ++ b))
        ((chunks size (textsOf str d)).map (bucketHash hash)) := by
  have hsorted : ∀ k ∈ sortedKeys d, k ∈ d.keys := fun k hk => mem_sortedKeys.mp hk
  have hhash : ∀ a b, (parent hash a b).hashValue = hash (a.hashValue ++ b.hashValue) :=
    fun _ _ => rfl
  rw [getRootHash, build, reduceUp_map (g := fun a b => hash (a ++ b)) hhash, textsOf,
    keyTexts_eq_map hsorted, chunks_map, List.map_map, List.map_map]
  congr 1
  refine List.map_congr_left fun ks hks => ?_
  have hin : ∀ k ∈ ks, k ∈ d.keys := fun k hk => hsorted k (by
    rw [← flatten_chunks hs (sortedKeys d)]
    exact List.mem_flatten.mpr ⟨ks, hks, hk⟩)
  show (bucket hash str d ks).hashValue = bucketHash hash (ks.map (textOf str d))
  rw [← keyTexts_eq_map hin, bucketHash, ← filterMap_keyHash]
  rfl

/-! ## Equal roots -/

theorem textsOf_nil_iff (d : KeyValues V) : textsOf str d = [] ↔ sortedKeys d = [] := by
  rw [textsOf, keyTexts_eq_map fun k hk => mem_sortedKeys.mp hk, List.map_eq_nil_iff]

/-- **Roots are equal exactly when the key texts are**, unless texts hashed along the way
    collide. -/
theorem rootHash_eq_iff (hd : HexDigest hash) {size : Nat} (hs : 0 < size) {d d' : KeyValues V}
    (hfree : CollisionFree hash (allTexts hash str d (build hash str size d) ++
      allTexts hash str d' (build hash str size d'))) :
    getRootHash (build hash str size d) = getRootHash (build hash str size d') ↔
      textsOf str d = textsOf str d' := by
  constructor
  · intro heq
    cases hroot : build hash str size d with
    | none =>
      cases hroot' : build hash str size d' with
      | none =>
        rw [(textsOf_nil_iff d).mpr ((build_eq_none_iff hs).mp hroot),
          (textsOf_nil_iff d').mpr ((build_eq_none_iff hs).mp hroot')]
      | some root' =>
        rw [hroot, hroot'] at heq
        cases heq
    | some root =>
      cases hroot' : build hash str size d' with
      | none =>
        rw [hroot, hroot'] at heq
        cases heq
      | some root' =>
        obtain ⟨hbuilt, hkeys⟩ := build_built hs hroot
        obtain ⟨hbuilt', hkeys'⟩ := build_built hs hroot'
        rw [hroot, hroot'] at heq hfree
        simp only [allTexts, Option.toList_some, List.flatMap_cons, List.flatMap_nil,
          List.append_nil] at hfree
        have htexts := texts_of_hashes hd hbuilt hbuilt' hfree (Option.some.inj heq)
        rw [textsOf, textsOf, ← hkeys, ← hkeys', htexts]
  · intro heq
    rw [getRootHash_eq hs, getRootHash_eq hs, heq]

/-- **Exactly when equal roots mean equal maps.** -/
theorem roots_agree_iff (hd : HexDigest hash) {size : Nat} (hs : 0 < size) {d d' : KeyValues V}
    (hfree : CollisionFree hash (allTexts hash str d (build hash str size d) ++
      allTexts hash str d' (build hash str size d'))) :
    (getRootHash (build hash str size d) = getRootHash (build hash str size d') → SameMap d d') ↔
      (SameMap d d' ∨ textsOf str d ≠ textsOf str d') := by
  rw [rootHash_eq_iff hd hs hfree]
  tauto

/-! ## Where the texts give the maps back -/

theorem repr_toList (n : Int) : n.repr.toList = Json.intText n := by
  cases n with
  | ofNat n => simp [Int.repr, Nat.repr, Json.intText]
  | negSucc n => simp [Int.repr, Nat.repr, Json.intText]

/-- A text comes apart at its first and its last colon. -/
theorem keyText_inj {k k' : String} {e e' : V × Int} (hk : ':' ∉ k.toList) (hk' : ':' ∉ k'.toList)
    (h : keyText str k e = keyText str k' e') : k = k' ∧ str e.1 = str e'.1 ∧ e.2 = e'.2 := by
  have hcolon : ∀ n, ':' ∉ (Json.intText n).reverse := by
    intro n hn
    rcases Json.mem_intText (List.mem_reverse.mp hn) with hdigit | hsign
    · exact absurd hdigit (by decide)
    · exact absurd hsign (by decide)
  have hlist : k.toList ++ ':' :: ((str e.1).toList ++ ':' :: Json.intText e.2) =
      k'.toList ++ ':' :: ((str e'.1).toList ++ ':' :: Json.intText e'.2) := by
    have hlist := congrArg String.toList h
    simpa [keyText, repr_toList] using hlist
  have hfirst := splitFirst_of_not_mem hk ((str e.1).toList ++ ':' :: Json.intText e.2)
  rw [hlist, splitFirst_of_not_mem hk', Option.some.injEq, Prod.mk.injEq] at hfirst
  have hrest := congrArg List.reverse hfirst.2
  rw [List.reverse_append, List.reverse_append, List.reverse_cons, List.reverse_cons,
    List.append_assoc, List.append_assoc, List.singleton_append, List.singleton_append] at hrest
  have hlast := splitFirst_of_not_mem (hcolon e.2) (str e.1).toList.reverse
  rw [← hrest, splitFirst_of_not_mem (hcolon e'.2), Option.some.injEq, Prod.mk.injEq] at hlast
  refine ⟨(String.toList_inj.mp hfirst.1).symm, ?_, ?_⟩
  · exact String.toList_inj.mp (List.reverse_injective hlast.2).symm
  · have hint := congrArg Json.intOfText (List.reverse_injective hlast.1)
    rw [Json.intOfText_intText, Json.intOfText_intText] at hint
    exact (Option.some.inj hint).symm

/-- Keys without a colon, and values that their texts tell apart. -/
structure Plain (str : V → String) (d d' : KeyValues V) : Prop where
  key : ∀ k ∈ d.keys, ':' ∉ k.toList
  key' : ∀ k ∈ d'.keys, ':' ∉ k.toList
  value : ∀ k k' e e', d.get? k = some e → d'.get? k' = some e' → str e.1 = str e'.1 → e.1 = e'.1

theorem mem_textsOf {d : KeyValues V} {t : String} :
    t ∈ textsOf str d ↔ ∃ k e, d.get? k = some e ∧ keyText str k e = t := by
  simp only [textsOf, keyTexts, List.mem_filterMap, mem_sortedKeys, Option.map_eq_some_iff]
  constructor
  · rintro ⟨k, -, e, he, ht⟩
    exact ⟨k, e, he, ht⟩
  · rintro ⟨k, e, he, ht⟩
    exact ⟨k, (d.mem_keys_iff k).mpr (by simp [he]), e, he, ht⟩

/-- Then the maps can be read off their texts. -/
theorem sameMap_of_texts {d d' : KeyValues V} (h : Plain str d d')
    (heq : textsOf str d = textsOf str d') : SameMap d d' := by
  have hleft : ∀ k e, d.get? k = some e → d'.get? k = some e := by
    intro k e he
    have hmem : keyText str k e ∈ textsOf str d' := heq ▸ mem_textsOf.mpr ⟨k, e, he, rfl⟩
    obtain ⟨k', e', he', ht⟩ := mem_textsOf.mp hmem
    obtain ⟨rfl, hvalue, hversion⟩ := keyText_inj
      (h.key' k' ((d'.mem_keys_iff k').mpr (by simp [he'])))
      (h.key k ((d.mem_keys_iff k).mpr (by simp [he]))) ht
    rw [he', Prod.ext (h.value k' k' e e' he he' hvalue.symm) hversion.symm]
  have hright : ∀ k e, d'.get? k = some e → d.get? k = some e := by
    intro k e' he'
    have hmem : keyText str k e' ∈ textsOf str d := heq ▸ mem_textsOf.mpr ⟨k, e', he', rfl⟩
    obtain ⟨k', e, he, ht⟩ := mem_textsOf.mp hmem
    obtain ⟨rfl, hvalue, hversion⟩ := keyText_inj
      (h.key k' ((d.mem_keys_iff k').mpr (by simp [he])))
      (h.key' k ((d'.mem_keys_iff k).mpr (by simp [he']))) ht
    rw [he, Prod.ext (h.value k' k' e e' he he' hvalue) hversion]
  intro k
  exact Option.ext fun e => ⟨hleft k e, hright k e⟩

/-! ### A separator in a key -/

/-- 16 characters for every text; three of them are told apart. -/
def sampleHash (s : String) : String :=
  if s = "a:b:c:1" then "0000000000000001"
  else if s = "0000000000000001" then "0000000000000002"
  else if s = "a:x:1" then "0000000000000003"
  else "0000000000000000"

theorem hexDigest_sampleHash : HexDigest sampleHash := by
  intro s
  unfold sampleHash
  split
  · exact ⟨by decide, by decide⟩
  · split
    · exact ⟨by decide, by decide⟩
    · split <;> exact ⟨by decide, by decide⟩

/-- The tree of a map with one entry. -/
theorem build_single {k : String} {e : V × Int} :
    build hash str 100 (Dict.empty.set k e) =
      some (.leaf (hash (hash (keyText str k e))) (k, k) [k]) := by
  have hkeys : sortedKeys (Dict.empty.set k e) = [k] := List.mergeSort_singleton k
  have hget : (Dict.empty.set k e).get? k = some e := Dict.get?_set_self _ k e
  rw [build, hkeys, chunks_of_ne_nil (by decide) (List.cons_ne_nil _ _)]
  simp [chunks_nil, bucket, keyHash, hget, String.join]

theorem allTexts_single {k : String} {e : V × Int} :
    allTexts hash str (Dict.empty.set k e) (build hash str 100 (Dict.empty.set k e)) =
      [hash (keyText str k e), keyText str k e] := by
  have hget : (Dict.empty.set k e).get? k = some e := Dict.get?_set_self _ k e
  rw [build_single]
  simp [allTexts, hashedTexts, keyTexts, keyHash, hget, String.join]

/-- The text of a string, and of no other value here. -/
def stringText : Json → String
  | .str s => s
  | _ => ""

def colonInKey : KeyValues Json := Dict.empty.set "a:b" (.str "c", 1)

def colonInValue : KeyValues Json := Dict.empty.set "a" (.str "b:c", 1)

def noColon : KeyValues Json := Dict.empty.set "a" (.str "x", 1)

theorem roots_agree_iff_sample :
    (getRootHash (build sampleHash stringText 100 noColon) =
        getRootHash (build sampleHash stringText 100 colonInKey) → SameMap noColon colonInKey) ↔
      (SameMap noColon colonInKey ∨
        textsOf stringText noColon ≠ textsOf stringText colonInKey) := by
  refine roots_agree_iff hexDigest_sampleHash (by decide) ?_
  rw [noColon, colonInKey, allTexts_single, allTexts_single]
  decide

/-- Both maps have the text "a:b:c:1" only: their roots are equal under every hash, and under
    this one no texts collide. -/
theorem separator_in_key :
    CollisionFree sampleHash
        (allTexts sampleHash stringText colonInKey (build sampleHash stringText 100 colonInKey) ++
          allTexts sampleHash stringText colonInValue
            (build sampleHash stringText 100 colonInValue)) ∧
      getRootHash (build sampleHash stringText 100 colonInKey) =
        getRootHash (build sampleHash stringText 100 colonInValue) ∧
      ¬ SameMap colonInKey colonInValue := by
  refine ⟨?_, ?_, fun h => ?_⟩
  · rw [colonInKey, colonInValue, allTexts_single, allTexts_single]
    decide
  · rw [colonInKey, colonInValue, build_single, build_single]
    rfl
  · have ha := h "a"
    simp [colonInKey, colonInValue, Dict.get?_set] at ha

end MiniDb.MerkleTree
