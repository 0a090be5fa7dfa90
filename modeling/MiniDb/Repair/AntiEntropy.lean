/-
  Anti-entropy between nodes (`repair/anti_entropy.py`, and the repair callbacks of `node.py`).

  A cycle builds the Merkle tree of the node's data and compares root hashes with each peer.
  Where they differ it asks for all data of the peer and applies what has a greater version than
  the node has, 0 for a key it lacks. Values under equal versions are never compared.

  `exchange_agrees_iff`: after each of two nodes has run a cycle against the other, both have the
  same values and versions if and only if every key `Settles` and neither comparison of root
  hashes takes different data for equal. Under hashes that do not collide, the second is a matter
  of key texts only (`rootsTell_of_plain`).

  The clock is read at several places of a cycle (`Clock`); what a cycle leaves does not depend
  on it as long as nothing expires.
-/
import MiniDb.Node.Merge
import MiniDb.Repair.MerkleRoot

namespace MiniDb

open Lib

namespace Node

/-- `_get_data_for_repair` -/
def getDataForRepair (now : Time) (n : Node) : Node × KeyValues Json :=
  let (s, data) := n.store.getAllData now
  ({ n with store := s }, data.mapVals fun i => (i.value, i.version))

end Node

namespace AntiEntropyManager

open MerkleTree Merge

/-- The callbacks that ask a peer. `get_remote_merkle` replies nothing, or the serialised tree, of
    which only the hash under "root" is read: there is none under `{"root": None}`. -/
structure Callbacks where
  getRemoteMerkle : String → Option (Option String)
  getRemoteKeys : String → List String → KeyValues Json

/-- The times at which the clock is read for a cycle: when the tree is built, when the data are
    read again for a peer, when a peer reads its own, and when a key that a peer sent is
    applied. -/
structure Clock where
  start : Time
  compared : String → Time
  answered : Time
  applied : String → String → Time

/-- The bucket size of `MerkleTree()`. -/
def bucketSize : Nat := 100

/-- One round of the loop over `remote_keys`. -/
def repairKey (applied : String → Time) (localData : KeyValues Json) (n : Node)
    (p : String × (Json × Int)) : Node :=
  let localVersion := ((localData.get? p.1).getD (.null, 0)).2
  if p.2.2 > localVersion then
    n.applyRepairData (applied p.1) p.1 p.2.1 p.2.2
      { updatedAt := none, createdAt := none, expiresAt := none, coordinatorId := none }
  else n

/-- `_repair_with_peer` -/
def repairWithPeer (clock : Clock) (cb : Callbacks) (localHash : Option String) (n : Node)
    (peerId : String) : Node :=
  match cb.getRemoteMerkle peerId with
  | none => n
  -- `None.get("hash")` raises, and `_repair_with_peer` catches it
  | some none => n
  | some (some remoteHash) =>
    if localHash = some remoteHash then n
    else
      let (n, localData) := n.getDataForRepair (clock.compared peerId)
      (cb.getRemoteKeys peerId localData.keys).items.foldl
        (repairKey (clock.applied peerId) localData) n

section Cycles

variable (hash : String → String) (str : Json → String)

/-- `_run_repair_cycle` of the node `n`, with `peers` the reply of `_get_peers`. -/
def runRepairCycle (clock : Clock) (cb : Callbacks) (peers : List String) (n : Node) : Node :=
  let (n, localData) := n.getDataForRepair clock.start
  let localHash := getRootHash (build hash str bucketSize localData)
  peers.foldl (fun m peerId =>
    if peerId = n.nodeId then m else repairWithPeer clock cb localHash m peerId) n

/-- The callbacks when they return what the peer has. -/
def callbacksOf (now : Time) (peer : Node) : Callbacks where
  getRemoteMerkle _ :=
    some (getRootHash (build hash str bucketSize (peer.getDataForRepair now).2))
  getRemoteKeys _ _ := (peer.getDataForRepair now).2

/-- A cycle of each of the two nodes against the other, the one of `a` first. -/
def exchange (clock clock' : Clock) (peers peers' : List String) (a b : Node) : Node × Node :=
  let a' := runRepairCycle hash str clock (callbacksOf hash str clock.answered b) peers a
  (a', runRepairCycle hash str clock' (callbacksOf hash str clock'.answered a') peers' b)

end Cycles

/-! ## What one pull does to a key -/

/-- A key's entry after a pull: `theirs` in place of `mine` if its version is greater. Version 0
    counts as none where it is stored, and the next one is taken. -/
def pulled {V : Type} (mine theirs : Option (V × Int)) : Option (V × Int) :=
  match theirs with
  | none => mine
  | some (v, n) =>
    if n > (mine.map Prod.snd).getD 0 then
      some (v, if n ≠ 0 then n else (mine.map fun e => e.2 + 1).getD 1)
    else mine

/-- When two copies of a key end up the same. -/
def Settles {V : Type} : Option (V × Int) → Option (V × Int) → Prop
  | none, none => True
  | some e, none => 1 ≤ e.2
  | none, some e => 1 ≤ e.2
  | some e, some e' =>
    if e.2 = e'.2 then e.1 = e'.1 else max e.2 e'.2 ≠ 0 ∨ min e.2 e'.2 = -1

section Pull

variable {V : Type}

theorem pulled_of_le {mine : Option (V × Int)} {e : V × Int}
    (h : e.2 ≤ (mine.map Prod.snd).getD 0) : pulled mine (some e) = mine :=
  if_neg (not_lt.mpr h)

theorem pulled_of_lt {mine : Option (V × Int)} {e : V × Int}
    (h : (mine.map Prod.snd).getD 0 < e.2) (hn : e.2 ≠ 0) : pulled mine (some e) = some e := by
  obtain ⟨v, n⟩ := e
  rw [pulled, if_pos h, if_pos hn]

theorem pulled_some_of_lt {e e' : V × Int} (h : e.2 < e'.2) (hn : e'.2 ≠ 0) :
    pulled (some e) (some e') = some e' :=
  have hnew : ((some e).map Prod.snd).getD 0 < e'.2 := h
  pulled_of_lt hnew hn

/-- Version 0 is above a negative one only. -/
theorem pulled_zero {e e' : V × Int} (h : e.2 < 0) (hn : e'.2 = 0) :
    pulled (some e) (some e') = some (e'.1, e.2 + 1) := by
  obtain ⟨v', n'⟩ := e'
  obtain rfl : n' = 0 := hn
  exact if_pos h

/-- What came from the other side is not newer there. -/
theorem pulled_self (x : Option (V × Int)) : pulled x x = x := by
  cases x with
  | none => rfl
  | some e => exact pulled_of_le (le_refl e.2)

/-- A copy that one side lacks is taken from version 1 on. -/
theorem settles_one_sided (e : V × Int) : pulled none (some e) = some e ↔ 1 ≤ e.2 := by
  constructor
  · intro h
    by_contra hlow
    rw [pulled_of_le (by show e.2 ≤ 0; omega)] at h
    cases h
  · intro h
    exact pulled_of_lt (by show 0 < e.2; omega) (by omega)

/-- The greater of two different versions replaces the smaller one, 0 only if it is the next. -/
theorem settles_two_sided {e e' : V × Int} (h : e.2 < e'.2) :
    pulled (some e) (some e') = some e' ↔ e'.2 ≠ 0 ∨ e.2 = -1 := by
  by_cases hzero : e'.2 = 0
  · rw [pulled_zero (hzero ▸ h) hzero, Option.some.injEq, Prod.ext_iff]
    simp only [hzero, ne_eq, not_true_eq_false, false_or, true_and]
    omega
  · rw [pulled_some_of_lt h hzero]
    simp [hzero]

/-- **Both pulls leave the same** exactly under `Settles`. -/
theorem settles_iff (x y : Option (V × Int)) :
    pulled x y = pulled y (pulled x y) ↔ Settles x y := by
  cases x with
  | none =>
    cases y with
    | none => exact iff_of_true rfl trivial
    | some e' =>
      rw [Settles, ← settles_one_sided]
      by_cases h : e'.2 ≤ 0
      · rw [pulled_of_le h]
        rfl
      · rw [pulled_of_lt (not_le.mp h) (by omega), pulled_self]
  | some e =>
    cases y with
    | none =>
      rw [Settles, ← settles_one_sided]
      exact eq_comm
    | some e' =>
      rw [Settles]
      rcases lt_trichotomy e.2 e'.2 with hlt | heq | hlt
      · have hback : pulled (some e') (pulled (some e) (some e')) = some e' := by
          by_cases hzero : e'.2 = 0
          · rw [pulled_zero (hzero ▸ hlt) hzero]
            exact pulled_of_le (by show e.2 + 1 ≤ e'.2; omega)
          · rw [pulled_some_of_lt hlt hzero, pulled_self]
        rw [hback, settles_two_sided hlt, if_neg (ne_of_lt hlt), max_eq_right (le_of_lt hlt),
          min_eq_left (le_of_lt hlt)]
      · rw [pulled_of_le (le_of_eq heq.symm), pulled_of_le (le_of_eq heq), if_pos heq,
          Option.some.injEq, Prod.ext_iff]
        exact and_iff_left heq
      · rw [pulled_of_le (le_of_lt hlt), eq_comm, settles_two_sided hlt, if_neg (ne_of_gt hlt),
          max_eq_left (le_of_lt hlt), min_eq_right (le_of_lt hlt)]

end Pull

/-! ## What a cycle leaves -/

/-- The value and version of a record. -/
def entryOf (m : KeyMetadata) : Json × Int := (m.value, m.version)

/-- The values and versions of a node. -/
def dataOf (n : Node) : KeyValues Json := n.store.store.mapVals entryOf

theorem get?_dataOf (n : Node) (k : String) :
    (dataOf n).get? k = (n.store.get? k).map entryOf := Dict.get?_mapVals _ _ k

/-- Where nothing expires, reading the data purges nothing. -/
theorem get?_getDataForRepair {n : Node} (hn : NoExpiry n) (now : Time) (k : String) :
    (n.getDataForRepair now).1.store.get? k = n.store.get? k := by
  have hclean : (n.getDataForRepair now).1.store = n.store.cleanupExpired now := rfl
  rw [hclean, KVStore.get?_cleanupExpired]
  cases hm : n.store.get? k with
  | none => rfl
  | some m => simp [Option.filter_some, hn k m hm]

theorem noExpiry_getDataForRepair {n : Node} (hn : NoExpiry n) (now : Time) :
    NoExpiry (n.getDataForRepair now).1 := by
  intro k m hm
  rw [get?_getDataForRepair hn] at hm
  exact hn k m hm

theorem sameMap_getDataForRepair {n : Node} (hn : NoExpiry n) (now : Time) :
    SameMap (n.getDataForRepair now).2 (dataOf n) := by
  intro k
  have hdata : (n.getDataForRepair now).2 =
      (n.store.getAllData now).2.mapVals fun i => (i.value, i.version) := rfl
  rw [hdata, Dict.get?_mapVals, KVStore.get?_getAllData, get?_dataOf]
  cases hm : n.store.get? k with
  | none => rfl
  | some m =>
    simp only [Option.filter_some, hn k m hm, expiredBefore_none, Bool.not_false, if_true,
      Option.map_some]
    rfl

/-- What `_apply_repair_data` stores for a key of the peer. -/
def repairRecord (id : String) (now : Time) (p : String × (Json × Int)) : Versioned :=
  { key := p.1, value := p.2.1, version := p.2.2, expiresAt := none, createdAt := now
    updatedAt := now, coordinatorId := id }

/-- A greater version is stored whatever the times say. -/
theorem map_afterStore {now : Time} {u : Versioned} {b : Option KeyMetadata}
    (hb : ∀ m, b = some m → m.expiresAt = none)
    (hnew : ((b.map entryOf).map Prod.snd).getD 0 < u.version) :
    (afterStore now u b).map entryOf = pulled (b.map entryOf) (some (u.value, u.version)) := by
  rw [pulled, if_pos hnew]
  cases b with
  | none => rfl
  | some m =>
    have hlt : m.version < u.version := hnew
    have hguard : ¬ u.sortKey < m.sortKey :=
      not_lt.mpr (le_of_lt (sortKey_lt_of_version_lt hlt _ _ _ _))
    simp only [afterStore, Option.filter_some, hb m rfl, expiredBefore_none, Bool.not_false,
      if_true, Option.any_some, hguard, decide_false, Bool.false_eq_true, if_false]
    rfl

section Loop

variable {n : Node} {applied : String → Time} {localData : KeyValues Json}

theorem repairKey_nodeId (p : String × (Json × Int)) :
    (repairKey applied localData n p).nodeId = n.nodeId := by
  unfold repairKey Node.applyRepairData Node.nodeId
  dsimp only
  split
  · rw [Node.storeUnlessOlder_config]
  · rfl

/-- One key of the peer. -/
theorem get?_repairKey (p : String × (Json × Int)) (k : String) :
    (repairKey applied localData n p).store.get? k =
      if p.1 = k then
        if ((localData.get? p.1).map Prod.snd).getD 0 < p.2.2 then
          afterStore (applied p.1) (repairRecord n.nodeId (applied p.1) p) (n.store.get? k)
        else n.store.get? k
      else n.store.get? k := by
  have hlocal : ((localData.get? p.1).getD (.null, 0)).2 =
      ((localData.get? p.1).map Prod.snd).getD 0 := by
    cases localData.get? p.1 <;> rfl
  unfold repairKey
  dsimp only
  rw [hlocal]
  by_cases hnew : ((localData.get? p.1).map Prod.snd).getD 0 < p.2.2
  · rw [if_pos hnew, if_pos hnew]
    have hstore := get?_storeUnlessOlder n (applied p.1)
      (repairRecord n.nodeId (applied p.1) p) k
    simp only [eq_comm (a := k)] at hstore
    exact hstore
  · rw [if_neg hnew, if_neg hnew, ite_self]

theorem noExpiry_repairAll (hn : NoExpiry n) (ps : List (String × (Json × Int))) :
    NoExpiry (ps.foldl (repairKey applied localData) n) := by
  induction ps generalizing n with
  | nil => exact hn
  | cons p ps ih =>
    refine ih ?_
    unfold repairKey Node.applyRepairData
    dsimp only
    split
    · exact noExpiry_storeUnlessOlder hn _ rfl
    · exact hn

variable (applied) in
/-- The loop over the data of the peer pulls every key. -/
theorem dataOf_repairAll (hn : NoExpiry n) (hlocal : SameMap localData (dataOf n))
    (theirs : KeyValues Json) (k : String) :
    (dataOf (theirs.items.foldl (repairKey applied localData) n)).get? k =
      pulled ((dataOf n).get? k) (theirs.get? k) := by
  have hfold := get?_foldl_of (fun n k => n.store.get? k) (repairKey applied localData) Prod.fst
    (fun p b => if ((localData.get? p.1).map Prod.snd).getD 0 < p.2.2 then
      afterStore (applied p.1) (repairRecord n.nodeId (applied p.1) p) b else b)
    (fun m => m.nodeId = n.nodeId) (fun m p hm => (repairKey_nodeId p).trans hm)
    (fun m p k hm => by rw [get?_repairKey, hm]) theirs.items rfl k
  rw [get?_dataOf, hfold, Dict.filter_items_key]
  cases htheirs : theirs.get? k with
  | none => exact (get?_dataOf n k).symm
  | some e =>
    simp only [Option.map_some, Option.toList_some, List.foldl_cons, List.foldl_nil]
    rw [hlocal k, get?_dataOf]
    by_cases hnew : (((n.store.get? k).map entryOf).map Prod.snd).getD 0 < e.2
    · rw [if_pos hnew]
      exact map_afterStore (hn k) hnew
    · rw [if_neg hnew, pulled_of_le (not_lt.mp hnew)]

end Loop

/-- All entries of `theirs` pulled over `mine`. -/
def merged (mine theirs : KeyValues Json) : KeyValues Json :=
  theirs.items.foldl (fun d p =>
    match pulled (d.get? p.1) (some p.2) with
    | some e => d.set p.1 e
    | none => d) mine

theorem get?_merged (mine theirs : KeyValues Json) (k : String) :
    (merged mine theirs).get? k = pulled (mine.get? k) (theirs.get? k) := by
  unfold merged
  rw [get?_foldl Dict.get? _ Prod.fst (fun p b => pulled b (some p.2)) ?_ theirs.items mine k,
    Dict.filter_items_key]
  · cases theirs.get? k with
    | none => rfl
    | some e => rfl
  · intro d p k
    by_cases hk : p.1 = k
    · rw [if_pos hk, ← hk]
      cases hp : pulled (d.get? p.1) (some p.2) with
      | some e => exact d.get?_set_self p.1 e
      | none =>
        -- nothing is pulled only where there was nothing
        unfold pulled at hp
        dsimp only at hp
        split at hp
        · cases hp
        · exact hp
    · rw [if_neg hk]
      split
      · exact d.get?_set_ne (Ne.symm hk) _
      · rfl

section Cycle

variable {hash : String → String} {str : Json → String}

variable (hash str) in
/-- The root hash that a node has for some data. -/
def rootOf (d : KeyValues Json) : Option String := getRootHash (build hash str bucketSize d)

theorem rootOf_congr {d d' : KeyValues Json} (h : SameMap d d') :
    rootOf hash str d = rootOf hash str d' := by
  rw [rootOf, rootOf, h.build_eq]

/-- Only empty data have no root hash. -/
theorem get?_of_no_root {d : KeyValues Json} (h : rootOf hash str d = none) (k : String) :
    d.get? k = none := by
  have hroot : build hash str bucketSize d = none := Option.map_eq_none_iff.mp h
  have hnil := (build_eq_none_iff (by decide)).mp hroot
  by_contra hsome
  have hmem := mem_sortedKeys.mpr ((d.mem_keys_iff k).mpr hsome)
  rw [hnil] at hmem
  cases hmem

theorem merged_of_no_root (mine : KeyValues Json) {theirs : KeyValues Json}
    (h : rootOf hash str theirs = none) :
    SameMap mine (merged mine theirs) := by
  intro k
  rw [get?_merged, get?_of_no_root h k]
  rfl

variable (hash str) in
/-- What a cycle makes of `mine` against `theirs`. -/
def afterCycle (mine theirs : KeyValues Json) : KeyValues Json :=
  if rootOf hash str mine = rootOf hash str theirs then mine else merged mine theirs

theorem afterCycle_congr {d e d' e' : KeyValues Json} (h : SameMap d e) (h' : SameMap d' e') :
    SameMap (afterCycle hash str d d') (afterCycle hash str e e') := by
  intro k
  unfold afterCycle
  rw [rootOf_congr h, rootOf_congr h']
  split
  · exact h k
  · rw [get?_merged, get?_merged, h k, h' k]

variable (hash str) in
/-- Against one peer: all is pulled, unless the roots are equal. -/
theorem repairWithPeer_pair {n peer : Node} (hn : NoExpiry n) (hpeer : NoExpiry peer)
    (clock : Clock) (now : Time) (peerId : String) :
    NoExpiry (repairWithPeer clock (callbacksOf hash str now peer)
        (rootOf hash str (dataOf n)) n peerId) ∧
      SameMap
        (dataOf (repairWithPeer clock (callbacksOf hash str now peer)
          (rootOf hash str (dataOf n)) n peerId))
        (afterCycle hash str (dataOf n) (dataOf peer)) := by
  have hdata := sameMap_getDataForRepair hpeer now
  have hremote : (callbacksOf hash str now peer).getRemoteMerkle peerId =
      some (rootOf hash str (dataOf peer)) :=
    congrArg some (rootOf_congr hdata)
  unfold repairWithPeer afterCycle
  rw [hremote]
  cases hroot : rootOf hash str (dataOf peer) with
  | none =>
    have hkept := merged_of_no_root (dataOf n) hroot
    refine ⟨hn, fun k => ?_⟩
    show (dataOf n).get? k = _
    by_cases heq : rootOf hash str (dataOf n) = none
    · rw [if_pos heq]
    · rw [if_neg heq, ← hkept k]
  | some remoteHash =>
    dsimp only
    by_cases heq : rootOf hash str (dataOf n) = some remoteHash
    · rw [if_pos heq, if_pos heq]
      exact ⟨hn, fun _ => rfl⟩
    · rw [if_neg heq, if_neg heq]
      have hread := noExpiry_getDataForRepair hn (clock.compared peerId)
      have hkept : SameMap (dataOf (n.getDataForRepair (clock.compared peerId)).1) (dataOf n) :=
        fun k => by rw [get?_dataOf, get?_dataOf, get?_getDataForRepair hn]
      have hlocal : SameMap (n.getDataForRepair (clock.compared peerId)).2
          (dataOf (n.getDataForRepair (clock.compared peerId)).1) :=
        fun k => (sameMap_getDataForRepair hn _ k).trans (hkept k).symm
      refine ⟨noExpiry_repairAll hread _, fun k => ?_⟩
      have hall := dataOf_repairAll (clock.applied peerId) hread hlocal
        (peer.getDataForRepair now).2 k
      rw [hkept k, hdata k, ← get?_merged] at hall
      exact hall

variable (hash str) in
/-- **One cycle against one peer.** -/
theorem runRepairCycle_pair {n peer : Node} (hn : NoExpiry n) (hpeer : NoExpiry peer)
    {peers : List String} {peerId : String}
    (hpeers : (peers.filter fun id => id ≠ n.nodeId) = [peerId]) (clock : Clock) (now : Time) :
    NoExpiry (runRepairCycle hash str clock (callbacksOf hash str now peer) peers n) ∧
      SameMap (dataOf (runRepairCycle hash str clock (callbacksOf hash str now peer) peers n))
        (afterCycle hash str (dataOf n) (dataOf peer)) := by
  have hskip : ∀ f : Node → String → Node,
      (fun m id => if id = n.nodeId then m else f m id) =
        fun m id => if decide (id ≠ n.nodeId) = true then f m id else m := by
    intro f
    funext m id
    by_cases hid : id = n.nodeId <;> simp [hid]
  have hself : (n.getDataForRepair clock.start).1.nodeId = n.nodeId := rfl
  have hkept : SameMap (dataOf (n.getDataForRepair clock.start).1) (dataOf n) :=
    fun k => by rw [get?_dataOf, get?_dataOf, get?_getDataForRepair hn]
  have hroot : getRootHash (build hash str bucketSize (n.getDataForRepair clock.start).2) =
      rootOf hash str (dataOf (n.getDataForRepair clock.start).1) :=
    rootOf_congr fun k => (sameMap_getDataForRepair hn _ k).trans (hkept k).symm
  have hcycle : runRepairCycle hash str clock (callbacksOf hash str now peer) peers n =
      repairWithPeer clock (callbacksOf hash str now peer)
        (rootOf hash str (dataOf (n.getDataForRepair clock.start).1))
        (n.getDataForRepair clock.start).1 peerId := by
    unfold runRepairCycle
    dsimp only
    rw [hself, hroot, hskip, ← List.foldl_filter, hpeers, List.foldl_cons, List.foldl_nil]
  rw [hcycle]
  obtain ⟨hplain, hpair⟩ := repairWithPeer_pair hash str
    (noExpiry_getDataForRepair hn clock.start) hpeer clock now peerId
  exact ⟨hplain, fun k => (hpair k).trans (afterCycle_congr hkept (fun _ => rfl) k)⟩

variable (hash str) in
/-- Equal root hashes mean equal data. -/
def RootsTell (d d' : KeyValues Json) : Prop :=
  rootOf hash str d = rootOf hash str d' → SameMap d d'

variable (hash str) in
/-- When two nodes agree after a cycle of each. -/
structure Agreeable (d d' : KeyValues Json) : Prop where
  settles : ∀ k, Settles (d.get? k) (d'.get? k)
  first : RootsTell hash str d d'
  /-- The second cycle compares what the first one has made of `d`. -/
  second : RootsTell hash str (merged d d') d'

/-- What both have, if both pulled. -/
theorem settles_merged_iff {d d' : KeyValues Json} :
    SameMap (merged d d') (merged d' (merged d d')) ↔ ∀ k, Settles (d.get? k) (d'.get? k) := by
  refine forall_congr' fun k => ?_
  rw [get?_merged, get?_merged, get?_merged, settles_iff]

/-- Equal data stay as they are. -/
theorem settles_self (x : Option (Json × Int)) : Settles x x :=
  (settles_iff x x).mp (by rw [pulled_self, pulled_self])

/-- **The condition on the data.** -/
theorem afterCycle_agree_iff (d d' : KeyValues Json) :
    SameMap (afterCycle hash str d d') (afterCycle hash str d' (afterCycle hash str d d')) ↔
      Agreeable hash str d d' := by
  unfold afterCycle
  by_cases hfirst : rootOf hash str d = rootOf hash str d'
  · -- neither of them pulls
    rw [if_pos hfirst, if_pos hfirst.symm]
    constructor
    · intro hsame
      refine ⟨fun k => hsame k ▸ settles_self _, fun _ => hsame, fun _ k => ?_⟩
      rw [get?_merged, hsame k, pulled_self]
    · exact fun h => h.first hfirst
  · rw [if_neg hfirst]
    by_cases hsecond : rootOf hash str d' = rootOf hash str (merged d d')
    · -- only the first one pulls
      rw [if_pos hsecond]
      constructor
      · intro hsame
        refine ⟨fun k => ?_, fun h => absurd h hfirst, fun _ => hsame⟩
        have hk := hsame k
        rw [get?_merged] at hk
        rw [← settles_iff, hk, pulled_self]
      · exact fun h => h.second hsecond.symm
    · rw [if_neg hsecond, settles_merged_iff]
      exact ⟨fun h => ⟨h, fun heq => absurd heq hfirst, fun heq => absurd heq.symm hsecond⟩,
        fun h => h.settles⟩

/-- **Exactly when both nodes have the same values and versions** after a cycle of each. -/
theorem exchange_agrees_iff {a b : Node} (ha : NoExpiry a) (hb : NoExpiry b)
    {peers peers' : List String} (hpeers : (peers.filter fun id => id ≠ a.nodeId) = [b.nodeId])
    (hpeers' : (peers'.filter fun id => id ≠ b.nodeId) = [a.nodeId]) (clock clock' : Clock) :
    SameMap (dataOf (exchange hash str clock clock' peers peers' a b).1)
        (dataOf (exchange hash str clock clock' peers peers' a b).2) ↔
      Agreeable hash str (dataOf a) (dataOf b) := by
  obtain ⟨ha', hfirst⟩ := runRepairCycle_pair hash str ha hb hpeers clock clock.answered
  obtain ⟨-, hsecond⟩ := runRepairCycle_pair hash str hb ha' hpeers' clock' clock'.answered
  rw [← afterCycle_agree_iff]
  have hboth : SameMap (dataOf (exchange hash str clock clock' peers peers' a b).2)
      (afterCycle hash str (dataOf b) (afterCycle hash str (dataOf a) (dataOf b))) := fun k =>
    (hsecond k).trans (afterCycle_congr (fun _ => rfl) hfirst k)
  refine forall_congr' fun k => ?_
  rw [hboth k, ← hfirst k]
  rfl

/-! ### What the condition amounts to -/

/-- With versions from 1 on, only equal versions of different values stay apart. -/
theorem settles_positive_iff {e e' : Json × Int} (he : 1 ≤ e.2) (he' : 1 ≤ e'.2) :
    Settles (some e) (some e') ↔ (e.2 = e'.2 → e.1 = e'.1) := by
  rw [Settles]
  by_cases heq : e.2 = e'.2
  · rw [if_pos heq]
    exact ⟨fun h _ => h, fun h => h heq⟩
  · have hmax : max e.2 e'.2 ≠ 0 := by omega
    rw [if_neg heq]
    exact iff_of_true (.inl hmax) fun h => absurd h heq

/-- Roots tell data apart whose key texts do, if no texts hashed for them collide. -/
theorem rootsTell_of_plain (hd : HexDigest hash) {d d' : KeyValues Json}
    (hfree : CollisionFree hash (allTexts hash str d (build hash str bucketSize d) ++
      allTexts hash str d' (build hash str bucketSize d')))
    (hplain : Plain str d d') : RootsTell hash str d d' := fun hroot =>
  sameMap_of_texts hplain ((rootHash_eq_iff hd (by decide) hfree).mp hroot)

/-- A key with a version that is not below that of the peer stays as it is. -/
theorem afterCycle_keeps {mine theirs : KeyValues Json} {k : String} {e : Json × Int}
    (hmine : mine.get? k = some e) (hle : ∀ e', theirs.get? k = some e' → e'.2 ≤ e.2) :
    (afterCycle hash str mine theirs).get? k = some e := by
  unfold afterCycle
  split
  · exact hmine
  · rw [get?_merged, hmine]
    cases htheirs : theirs.get? k with
    | none => rfl
    | some e' => exact pulled_of_le (hle e' htheirs)

/-- Under equal versions each node keeps its own value. -/
theorem exchange_keeps {a b : Node} (ha : NoExpiry a) (hb : NoExpiry b)
    {peers peers' : List String} (hpeers : (peers.filter fun id => id ≠ a.nodeId) = [b.nodeId])
    (hpeers' : (peers'.filter fun id => id ≠ b.nodeId) = [a.nodeId]) (clock clock' : Clock)
    {k : String} {e e' : Json × Int} (hae : (dataOf a).get? k = some e)
    (hbe : (dataOf b).get? k = some e') (heq : e.2 = e'.2) :
    (dataOf (exchange hash str clock clock' peers peers' a b).1).get? k = some e ∧
      (dataOf (exchange hash str clock clock' peers peers' a b).2).get? k = some e' := by
  obtain ⟨ha', hfirst⟩ := runRepairCycle_pair hash str ha hb hpeers clock clock.answered
  obtain ⟨-, hsecond⟩ := runRepairCycle_pair hash str hb ha' hpeers' clock' clock'.answered
  have hkept := (hfirst k).trans (afterCycle_keeps hae fun e'' he'' => by
    rw [hbe, Option.some.injEq] at he''
    rw [← he'', heq])
  refine ⟨hkept, (hsecond k).trans (afterCycle_keeps hbe fun e'' he'' => ?_)⟩
  rw [hkept, Option.some.injEq] at he''
  rw [← he'', heq]

end Cycle

/-! ### Two values under version 1 -/

/-- A node with one value for "a". -/
def holding (id value : String) (version : Int) : Node :=
  { Replica.sampleNode with
    config := ⟨id, 2, .quorum⟩
    store := KVStore.empty.set 1 "a" (.str value) { version := some version } }

theorem noExpiry_holding (id value : String) (version : Int) :
    NoExpiry (holding id value version) := by
  intro k m hm
  rw [holding, KVStore.get?_set] at hm
  split at hm
  · exact Option.some.inj hm ▸ rfl
  · cases hm

def sampleClock : Clock := ⟨2, fun _ => 3, 3, fun _ _ => 4⟩

/-- Tells the texts of the key apart, and their hashes. -/
def valueHash (s : String) : String :=
  if s = "a:x:1" then "0000000000000001"
  else if s = "a:y:1" then "0000000000000002"
  else if s = "0000000000000001" then "0000000000000003"
  else if s = "0000000000000002" then "0000000000000004"
  else "0000000000000000"

/-- The root of a node with one value is the hash of a hash. -/
theorem rootOf_holding (hash : String → String) (str : Json → String) (id value : String)
    {version : Int} (hversion : version ≠ 0) :
    rootOf hash str (dataOf (holding id value version)) =
      some (hash (hash (keyText str "a" (.str value, version)))) := by
  have hstored : (setRecord 1 none (.str value) { version := some version }).version = version :=
    if_pos hversion
  have hdata : dataOf (holding id value version) = Dict.empty.set "a" (.str value,
      (setRecord 1 none (.str value) { version := some version }).version) := rfl
  rw [rootOf, hdata, hstored]
  exact congrArg getRootHash build_single

theorem exchange_agrees_iff_sample :
    rootOf valueHash stringText (dataOf (holding "n1" "x" 1)) ≠
        rootOf valueHash stringText (dataOf (holding "n2" "y" 2)) ∧
      (SameMap
          (dataOf (exchange valueHash stringText sampleClock sampleClock ["n1", "n2"]
            ["n1", "n2"] (holding "n1" "x" 1) (holding "n2" "y" 2)).1)
          (dataOf (exchange valueHash stringText sampleClock sampleClock ["n1", "n2"]
            ["n1", "n2"] (holding "n1" "x" 1) (holding "n2" "y" 2)).2) ↔
        Agreeable valueHash stringText (dataOf (holding "n1" "x" 1))
          (dataOf (holding "n2" "y" 2))) := by
  constructor
  · rw [rootOf_holding _ _ _ _ (by decide), rootOf_holding _ _ _ _ (by decide)]
    decide +kernel
  · exact exchange_agrees_iff (noExpiry_holding _ _ _) (noExpiry_holding _ _ _) (by decide)
      (by decide) _ _

/-- Both have version 1 of "a", with different values: the roots differ, and neither pulls the
    other's. -/
theorem equal_versions_diverge :
    rootOf valueHash stringText (dataOf (holding "n1" "x" 1)) ≠
        rootOf valueHash stringText (dataOf (holding "n2" "y" 1)) ∧
      ¬ SameMap
        (dataOf (exchange valueHash stringText sampleClock sampleClock ["n1", "n2"] ["n1", "n2"]
          (holding "n1" "x" 1) (holding "n2" "y" 1)).1)
        (dataOf (exchange valueHash stringText sampleClock sampleClock ["n1", "n2"] ["n1", "n2"]
          (holding "n1" "x" 1) (holding "n2" "y" 1)).2) := by
  constructor
  · rw [rootOf_holding _ _ _ _ (by decide), rootOf_holding _ _ _ _ (by decide)]
    decide +kernel
  intro hsame
  have hpeers : (["n1", "n2"].filter fun id => id ≠ (holding "n1" "x" 1).nodeId) =
      [(holding "n2" "y" 1).nodeId] := by decide
  have hpeers' : (["n1", "n2"].filter fun id => id ≠ (holding "n2" "y" 1).nodeId) =
      [(holding "n1" "x" 1).nodeId] := by decide
  have ha : (dataOf (holding "n1" "x" 1)).get? "a" = some (.str "x", 1) := rfl
  have hb : (dataOf (holding "n2" "y" 1)).get? "a" = some (.str "y", 1) := rfl
  obtain ⟨hfirst, hsecond⟩ := exchange_keeps (noExpiry_holding _ _ _) (noExpiry_holding _ _ _)
    hpeers hpeers' sampleClock sampleClock ha hb rfl
  have heq := hsame "a"
  rw [hfirst, hsecond] at heq
  simp at heq

end AntiEntropyManager

end MiniDb
