/-
  The read coordinator (`cluster/read_coordinator.py`).

  Remote reads run in parallel; their results come back in some order (`finished`), and reading
  stops as soon as enough are there or the time-out strikes. A read that finds nothing counts as
  an answer, with a missing marker.

  Not modelled: statistics and read times.
-/
import MiniDb.Config
import MiniDb.Storage.KvStore
import Mathlib.Data.List.MinMax
import Mathlib.Data.List.Dedup

namespace MiniDb

open Lib

/-- What the read callbacks return: `(value, version, found, metadata)`. -/
structure ReadAnswer where
  value : Json
  version : Int
  found : Bool
  updatedAt : Time
  createdAt : Time
  expiresAt : Option Time
  coordinatorId : String

structure ReadResult where
  value : Json
  version : Int
  nodeId : String
  isStale : Bool
  updatedAt : Time
  createdAt : Time
  expiresAt : Option Time
  coordinatorId : String

/-- The answer for a key that is not there; `_get_remote_value_for_read` gives the same for a
    node that cannot be reached. -/
def missingAnswer : ReadAnswer :=
  { value := .null, version := 0, found := false, updatedAt := 0, createdAt := 0,
    expiresAt := none, coordinatorId := "" }

/-- The answer for what `get_with_metadata` found. -/
def answerOf (m : Option KeyMetadata) : ReadAnswer :=
  match m with
  | some m =>
    { value := m.value, version := m.version, found := true, updatedAt := m.updatedAt,
      createdAt := m.createdAt, expiresAt := m.expiresAt, coordinatorId := m.coordinatorId }
  | none => missingAnswer

namespace ReadCoordinator

/-- `_read_local` and `_read_remote` with `include_missing`. -/
def resultOf (nodeId : String) (a : ReadAnswer) : ReadResult :=
  { value := if a.found then a.value else .null, version := a.version, nodeId := nodeId,
    isStale := !a.found, updatedAt := a.updatedAt, createdAt := a.createdAt,
    expiresAt := a.expiresAt, coordinatorId := a.coordinatorId }

/-- The same without `include_missing`. -/
def foundOf (nodeId : String) (a : ReadAnswer) : Option ReadResult :=
  if a.found then some (resultOf nodeId a) else none

/-- `_result_sort_key` -/
def resultSortKey (r : ReadResult) : SortKey :=
  sortKey r.version r.updatedAt (if r.coordinatorId ≠ "" then r.coordinatorId else r.nodeId)

/-- `r.version == 0 and r.value is None` -/
def isMissing (r : ReadResult) : Bool :=
  r.version = 0 && match r.value with
    | .null => true
    | _ => false

/-- How many results a read needs. -/
def quorumSize (replicationFactor : Nat) : Nat := max 1 (replicationFactor / 2 + 1)

/-- The wait loop: take results as they come back until there are `need`. -/
def collect (need : Nat) : List ReadResult → List ReadResult → List ReadResult
  | results, [] => results
  | results, r :: rs =>
    if need ≤ results.length + 1 then results ++ [r] else collect need (results ++ [r]) rs

/-- What a read fixes when it starts. -/
structure ReadPlan where
  localId : String
  key : String
  level : ConsistencyLevel
  replicas : List String
  primaryOwner : Option String
  replicationFactor : Nat

/-- How many results a read at QUORUM or ALL needs. -/
def ReadPlan.needed (p : ReadPlan) : Nat :=
  if p.level = .all then p.replicationFactor else quorumSize p.replicationFactor

/-- `_read_from_replicas` -/
def readFromReplicas (localId : String) (replicas : List String) (localAnswer : ReadAnswer)
    (finished : List (String × ReadAnswer)) (need : Nat) : List ReadResult :=
  collect need ((replicas.filter fun r => r = localId).map fun _ => resultOf localId localAnswer)
    (finished.map fun p => resultOf p.1 p.2)

inductive ReadOutcome where
  /-- `quorum_failed` -/
  | failed
  /-- `key_absent` -/
  | absent
  /-- The best result, and the results to repair with it. -/
  | found (best : ReadResult) (repairs : List ReadResult)

/-- The second half of `_read_quorum` and `_read_all`. -/
def decideRead (need : Nat) (results : List ReadResult) : ReadOutcome :=
  if results.length < need then .failed
  else
    let present := results.filter fun r => !isMissing r
    match present.argmax resultSortKey with
    | none => .absent
    | some best =>
      if 1 < (present.map ReadResult.version).dedup.length ∨ present.length < results.length then
        .found best (results.filter fun r => resultSortKey r < resultSortKey best)
      else .found best []

/-- `_read_strong`; `none` is "could not reach the primary owner, or no value there". -/
def readStrong (localId : String) (primaryOwner : Option String) (localAnswer : ReadAnswer)
    (remote : String → ReadAnswer) : Option ReadResult :=
  match primaryOwner with
  | none => none
  | some p =>
    if p = "" then none
    else if p = localId then foundOf localId localAnswer
    else foundOf p (remote p)

/-- `_read_any` -/
def readAny (localId : String) (replicas : List String) (localAnswer : ReadAnswer)
    (remote : String → ReadAnswer) : Option ReadResult :=
  let local? := if localId ∈ replicas then foundOf localId localAnswer else none
  local?.or (replicas.findSome? fun r => if r = localId then none else foundOf r (remote r))

/-- The results a read at QUORUM or ALL collects; `finished` are the remote reads that complete
    in time, in the order they do. -/
def collected (p : ReadPlan) (localAnswer : ReadAnswer) (remote : String → ReadAnswer)
    (finished : List String) : List ReadResult :=
  readFromReplicas p.localId p.replicas localAnswer (finished.map fun r => (r, remote r)) p.needed

/-- `read` -/
def read (p : ReadPlan) (localAnswer : ReadAnswer) (remote : String → ReadAnswer)
    (finished : List String) : ReadOutcome :=
  match p.level with
  | .strong =>
    match readStrong p.localId p.primaryOwner localAnswer remote with
    | some r => .found r []
    | none => .failed
  | .quorum => decideRead p.needed (collected p localAnswer remote finished)
  | .all => decideRead p.needed (collected p localAnswer remote finished)
  | _ =>
    match readAny p.localId p.replicas localAnswer remote with
    | some r => .found r []
    | none => .absent

/-! ## What is collected -/

theorem collect_eq (need : Nat) (results rs : List ReadResult) :
    collect need results rs = results ++ rs.take (max 1 (need - results.length)) := by
  induction rs generalizing results with
  | nil => simp [collect]
  | cons r rs ih =>
    unfold collect
    split
    · rename_i h
      rw [show max 1 (need - results.length) = 1 by omega]
      simp
    · rename_i h
      obtain ⟨m, hm⟩ : ∃ m, max 1 (need - results.length) = m + 1 :=
        ⟨max 1 (need - results.length) - 1, by omega⟩
      rw [ih, hm, List.take_succ_cons, List.append_assoc, List.singleton_append]
      congr 3
      rw [List.length_append, List.length_singleton]
      omega

/-- 1 if the node reading is a replica of the key. -/
def localCount (p : ReadPlan) : Nat := if p.localId ∈ p.replicas then 1 else 0

theorem localCount_le (p : ReadPlan) : localCount p ≤ 1 := by
  unfold localCount
  split <;> omega

theorem filter_local {p : ReadPlan} (h : p.replicas.Nodup) :
    (p.replicas.filter fun r => r = p.localId) = List.replicate (localCount p) p.localId := by
  rw [List.filter_eq, localCount]
  split
  · rename_i hmem
    rw [List.count_eq_one_of_mem h hmem]
  · rename_i hmem
    rw [List.count_eq_zero_of_not_mem hmem]

/-- The nodes whose answers a read collects: this node, if it is a replica, and the first remote
    reads to complete. -/
def counted (p : ReadPlan) (finished : List String) : List String :=
  List.replicate (localCount p) p.localId ++ finished.take (max 1 (p.needed - localCount p))

theorem collected_eq {p : ReadPlan} (h : p.replicas.Nodup) (localAnswer : ReadAnswer)
    (remote : String → ReadAnswer) (finished : List String) :
    collected p localAnswer remote finished =
      (List.replicate (localCount p) p.localId).map (fun r => resultOf r localAnswer) ++
        (finished.take (max 1 (p.needed - localCount p))).map fun r => resultOf r (remote r) := by
  unfold collected readFromReplicas
  rw [collect_eq, filter_local h, List.length_map, List.length_replicate, List.map_map,
    ← List.map_take, List.map_replicate, List.map_replicate]
  rfl

theorem collected_nodes {p : ReadPlan} (h : p.replicas.Nodup) (localAnswer : ReadAnswer)
    (remote : String → ReadAnswer) (finished : List String) :
    (collected p localAnswer remote finished).map ReadResult.nodeId = counted p finished := by
  rw [collected_eq h, counted]
  simp [resultOf, Function.comp_def]

/-- With one answer for each node, a read collects the answers of the counted nodes. -/
theorem collected_eq_map {p : ReadPlan} (h : p.replicas.Nodup) (answer : String → ReadAnswer)
    (finished : List String) :
    collected p (answer p.localId) answer finished =
      (counted p finished).map fun r => resultOf r (answer r) := by
  rw [collected_eq h, counted, List.map_append, List.map_replicate, List.map_replicate]

/-- The counted nodes are distinct. -/
theorem nodup_counted {p : ReadPlan} {finished : List String} (hfinished : finished.Nodup)
    (hremote : p.localId ∉ finished) : (counted p finished).Nodup := by
  rw [counted, List.nodup_append]
  refine ⟨List.nodup_replicate.mpr (localCount_le p), hfinished.sublist (List.take_sublist _ _), ?_⟩
  intro a ha b hb hab
  rw [(List.mem_replicate.mp ha).2] at hab
  exact hremote (hab ▸ List.mem_of_mem_take hb)

theorem mem_counted {p : ReadPlan} {finished : List String} {r : String}
    (h : r ∈ counted p finished) : (r = p.localId ∧ r ∈ p.replicas) ∨ r ∈ finished := by
  rcases List.mem_append.mp h with h | h
  · obtain ⟨hne, rfl⟩ := List.mem_replicate.mp h
    refine .inl ⟨rfl, ?_⟩
    unfold localCount at hne
    split at hne
    · assumption
    · exact absurd rfl hne
  · exact .inr (List.mem_of_mem_take h)

/-! ## What is decided -/

theorem decideRead_failed_iff (need : Nat) (results : List ReadResult) :
    decideRead need results = .failed ↔ results.length < need := by
  unfold decideRead
  split
  · rename_i h
    exact iff_of_true rfl h
  · rename_i h
    refine iff_of_false ?_ h
    simp only
    split
    · simp
    · split
      · simp
      · simp

theorem mem_of_decideRead {need : Nat} {results : List ReadResult} {best : ReadResult}
    {repairs : List ReadResult} (h : decideRead need results = .found best repairs) :
    best ∈ results ∧ isMissing best = false := by
  unfold decideRead at h
  split at h
  · cases h
  · simp only at h
    split at h
    · cases h
    · rename_i b hb
      have hmem := List.mem_filter.mp (List.argmax_mem hb)
      have hbest : b = best := by
        split at h
        · cases h
          rfl
        · cases h
          rfl
      subst hbest
      exact ⟨hmem.1, by simpa using hmem.2⟩

/-- With enough results, one of them not missing, the read finds one that is at least as great
    in the order as every result that is not missing. -/
theorem decideRead_found {need : Nat} {results : List ReadResult} (h : need ≤ results.length)
    {r : ReadResult} (hr : r ∈ results) (hpresent : isMissing r = false) :
    ∃ best repairs, decideRead need results = .found best repairs ∧
      resultSortKey r ≤ resultSortKey best := by
  have hmem : r ∈ results.filter fun r => !isMissing r :=
    List.mem_filter.mpr ⟨hr, by simp [hpresent]⟩
  obtain ⟨best, hbest⟩ := Option.ne_none_iff_exists'.mp
    (mt (List.argmax_eq_none (f := resultSortKey)).mp (List.ne_nil_of_mem hmem))
  have hle := List.le_of_mem_argmax (f := resultSortKey) hmem hbest
  unfold decideRead
  rw [if_neg (not_lt.mpr h)]
  simp only [hbest]
  split
  · exact ⟨best, _, rfl, hle⟩
  · exact ⟨best, _, rfl, hle⟩

theorem foundOf_eq_some {nodeId : String} {a : ReadAnswer} {r : ReadResult}
    (h : foundOf nodeId a = some r) : a.found = true ∧ r = resultOf nodeId a := by
  unfold foundOf at h
  split at h
  · rename_i hfound
    rw [Option.some.injEq] at h
    exact ⟨hfound, h.symm⟩
  · cases h

/-- What a read finds is the answer of some node, and not a missing marker. -/
theorem read_found {p : ReadPlan} (hnodup : p.replicas.Nodup) {answer : String → ReadAnswer}
    {finished : List String} {best : ReadResult} {repairs : List ReadResult}
    (h : read p (answer p.localId) answer finished = .found best repairs) :
    ∃ r, best = resultOf r (answer r) ∧ answer r ≠ missingAnswer := by
  have hfound : ∀ {r : String} {b : ReadResult}, foundOf r (answer r) = some b →
      b = resultOf r (answer r) ∧ answer r ≠ missingAnswer := by
    intro r b hb
    obtain ⟨hfound, rfl⟩ := foundOf_eq_some hb
    refine ⟨rfl, fun hmissing => ?_⟩
    rw [hmissing] at hfound
    cases hfound
  have hdecide : decideRead p.needed (collected p (answer p.localId) answer finished) =
      .found best repairs → ∃ r, best = resultOf r (answer r) ∧ answer r ≠ missingAnswer := by
    intro hd
    obtain ⟨hmem, hpresent⟩ := mem_of_decideRead hd
    rw [collected_eq_map hnodup] at hmem
    obtain ⟨r, -, rfl⟩ := List.mem_map.mp hmem
    refine ⟨r, rfl, fun hmissing => ?_⟩
    rw [hmissing] at hpresent
    cases hpresent
  have hany : ∀ b, readAny p.localId p.replicas (answer p.localId) answer = some b →
      ∃ r, b = resultOf r (answer r) ∧ answer r ≠ missingAnswer := by
    intro b hb
    unfold readAny at hb
    simp only [Option.or_eq_some_iff] at hb
    rcases hb with hb | ⟨-, hb⟩
    · split at hb
      · exact ⟨_, hfound hb⟩
      · cases hb
    · obtain ⟨r, -, hb⟩ := List.exists_of_findSome?_eq_some hb
      split at hb
      · cases hb
      · exact ⟨r, hfound hb⟩
  unfold read at h
  split at h
  · split at h
    · rename_i r hr
      cases h
      unfold readStrong at hr
      split at hr
      · cases hr
      · split at hr
        · cases hr
        · split at hr
          · exact ⟨_, hfound hr⟩
          · exact ⟨_, hfound hr⟩
    · cases h
  · exact hdecide h
  · exact hdecide h
  · split at h
    · rename_i r hr
      cases h
      exact hany best hr
    · cases h

end ReadCoordinator

end MiniDb
