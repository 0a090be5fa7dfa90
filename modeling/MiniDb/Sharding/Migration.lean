/-
  Shard migration (`sharding/migration.py`): the tasks that a join or a REBALANCE creates, the
  batches a task sends, and the keys it deletes afterwards.

  `calculateRebalanceMigrations` collects, per owner, the local keys that this node should not
  have (`get?_migrations`); `onNodeJoin` collects the local keys that the new node owns, also
  those of which this node stays a replica. Either way a task lists distinct keys, all owned by
  its target (`Created`). A batch takes the next keys that are there, at most 100
  (`nextBatch_spec`).

  Not modelled: task ids, the times of a task, the history and the statistics.
-/
import MiniDb.Lib.Dict
import MiniDb.Sharding.Preference
import MiniDb.Storage.KvStore

namespace MiniDb

open Lib

inductive MigrationState where
  | pending
  | inProgress
  | completed
  | failed
  | cancelled
  deriving DecidableEq

structure MigrationTask where
  sourceNode : String
  targetNode : String
  keys : List String
  state : MigrationState := .pending
  /-- The number of keys migrated. -/
  progress : Nat := 0
  error : Option String := none

structure ShardMigrationManager where
  localNodeId : String
  ring : ConsistentHashRing
  replicationFactor : Nat

namespace ShardMigrationManager

open KVStore (Item)

variable (hash : String → Nat) (mgr : ShardMigrationManager)

def replicas (key : String) : List String := mgr.ring.getNodes hash key mgr.replicationFactor

/-- This node should have the key. -/
def IsReplica (key : String) : Prop := mgr.localNodeId ∈ mgr.replicas hash key

instance (key : String) : Decidable (mgr.IsReplica hash key) := by
  unfold IsReplica
  infer_instance

/-- The manager when `_sync_topology` has put a new node on the ring. -/
def withNode (newNodeId : String) : ShardMigrationManager :=
  { mgr with ring := mgr.ring.addNode hash newNodeId }

/-! ## Creating tasks -/

def onNodeJoin (newNodeId : String) (localKeys : Dict String Item) : Option MigrationTask :=
  let keysToMigrate := localKeys.keys.filter fun key => mgr.ring.getNode hash key = some newNodeId
  if keysToMigrate = [] then none
  else some
    { sourceNode := mgr.localNodeId, targetNode := newNodeId, keys := keysToMigrate }

/-- The owner to which a rebalance sends a key; none for a key that stays. -/
def rebalanceTarget (key : String) : Option String :=
  if mgr.IsReplica hash key then none
  else (mgr.ring.getNode hash key).filter fun owner => owner ≠ "" ∧ owner ≠ mgr.localNodeId

/-- One key of the loop of `calculate_rebalance_migrations`. -/
def addMigration (migrations : Dict String (List String)) (key : String) :
    Dict String (List String) :=
  match mgr.rebalanceTarget hash key with
  | none => migrations
  | some owner => migrations.set owner ((migrations.get? owner).getD [] ++ [key])

def calculateRebalanceMigrations (localKeys : Dict String Item) : List MigrationTask :=
  (localKeys.keys.foldl (mgr.addMigration hash) Dict.empty).items.map fun p =>
    { sourceNode := mgr.localNodeId, targetNode := p.1, keys := p.2 }

/-! ## Executing a task -/

def batchSize : Nat := 100

/-- The loop of `_execute_migration` up to its next send: the batch, and the keys after it. -/
def nextBatch (localKeys : Dict String Item) (keysData : Dict String Item) :
    List String → Dict String Item × List String
  | [] => (keysData, [])
  | key :: keys =>
    match localKeys.get? key with
    | none => nextBatch localKeys keysData keys
    | some item =>
      if batchSize ≤ (keysData.set key item).length then (keysData.set key item, keys)
      else nextBatch localKeys (keysData.set key item) keys

/-- The error of a batch that could not be sent: one of full size is sent in the loop, a
    smaller one after it. -/
def sendError (targetNode : String) (batch : Dict String Item) : String :=
  if batchSize ≤ batch.length then "Failed to send batch to " ++ targetNode
  else "Failed to send final batch to " ++ targetNode

/-- `non_replica_keys` -/
def nonReplicaKeys (keys : List String) : List String :=
  keys.filter fun key => ¬mgr.IsReplica hash key

/-! ## What tasks are created -/

/-- The task is one that a REBALANCE or a join creates on this ring, whatever the local keys
    are at that moment. -/
def CreatedBy (task : MigrationTask) : Prop :=
  (∃ localKeys, task ∈ mgr.calculateRebalanceMigrations hash localKeys) ∨
    ∃ localKeys newNodeId, mgr.onNodeJoin hash newNodeId localKeys = some task

/-- What both ways of creating a task make sure of. -/
structure Created (task : MigrationTask) : Prop where
  nodup : task.keys.Nodup
  owner : ∀ key ∈ task.keys, mgr.ring.getNode hash key = some task.targetNode

theorem getNode_of_rebalanceTarget {key owner : String}
    (h : mgr.rebalanceTarget hash key = some owner) :
    mgr.ring.getNode hash key = some owner := by
  unfold rebalanceTarget at h
  split at h
  · cases h
  · exact (Option.filter_eq_some_iff.mp h).1

/-- The keys a rebalance sends to a node are the local keys it is the target of, in order. -/
theorem get?_migrations (keys : List String) (owner : String) :
    ((keys.foldl (mgr.addMigration hash) Dict.empty).get? owner).getD [] =
      keys.filter fun key => mgr.rebalanceTarget hash key = some owner := by
  induction keys using List.reverseRecOn with
  | nil => rfl
  | append_singleton keys key ih =>
    rw [List.foldl_append, List.filter_append, ← ih, List.foldl_cons, List.foldl_nil]
    generalize keys.foldl (mgr.addMigration hash) Dict.empty = migrations
    unfold addMigration
    cases htarget : mgr.rebalanceTarget hash key with
    | none => simp [htarget]
    | some target =>
      by_cases howner : owner = target
      · subst howner
        simp [htarget]
      · simp [htarget, Dict.get?_set_ne _ howner, Ne.symm howner]

/-- A rebalance lists a key in the task of its target. -/
theorem rebalanceTarget_of_mem {localKeys : Dict String Item} {task : MigrationTask}
    (h : task ∈ mgr.calculateRebalanceMigrations hash localKeys) {key : String}
    (hkey : key ∈ task.keys) : mgr.rebalanceTarget hash key = some task.targetNode := by
  obtain ⟨⟨owner, keys⟩, hp, rfl⟩ := List.mem_map.mp h
  have hkeys := mgr.get?_migrations hash localKeys.keys owner
  rw [(Dict.mem_items_iff _ _ _).mp hp, Option.getD_some] at hkeys
  change key ∈ keys at hkey
  rw [hkeys, List.mem_filter, decide_eq_true_eq] at hkey
  exact hkey.2

theorem created_of_rebalance {localKeys : Dict String Item} {task : MigrationTask}
    (h : task ∈ mgr.calculateRebalanceMigrations hash localKeys) : mgr.Created hash task := by
  refine ⟨?_, fun key hkey =>
    mgr.getNode_of_rebalanceTarget hash (mgr.rebalanceTarget_of_mem hash h hkey)⟩
  obtain ⟨⟨owner, keys⟩, hp, rfl⟩ := List.mem_map.mp h
  have hkeys := mgr.get?_migrations hash localKeys.keys owner
  rw [(Dict.mem_items_iff _ _ _).mp hp, Option.getD_some] at hkeys
  change keys.Nodup
  rw [hkeys]
  exact localKeys.nodup_keys.filter _

theorem created_of_join {localKeys : Dict String Item} {newNodeId : String}
    {task : MigrationTask} (h : mgr.onNodeJoin hash newNodeId localKeys = some task) :
    mgr.Created hash task ∧ task.targetNode = newNodeId := by
  unfold onNodeJoin at h
  dsimp only at h
  split at h
  · cases h
  · rw [Option.some.injEq] at h
    subst h
    refine ⟨⟨localKeys.nodup_keys.filter _, fun key hkey => ?_⟩, rfl⟩
    simpa using (List.mem_filter.mp hkey).2

theorem CreatedBy.created {task : MigrationTask} (h : mgr.CreatedBy hash task) :
    mgr.Created hash task := by
  rcases h with ⟨localKeys, h⟩ | ⟨localKeys, newNodeId, h⟩
  · exact mgr.created_of_rebalance hash h
  · exact (mgr.created_of_join hash h).1

/-- The owner of a key is one of its replicas. -/
theorem mem_replicas_of_getNode {key owner : String}
    (h : mgr.ring.getNode hash key = some owner) : owner ∈ mgr.replicas hash key := by
  unfold replicas
  rw [ConsistentHashRing.getNodes_eq]
  rw [ConsistentHashRing.getNode_eq] at h
  obtain ⟨rest, hrest⟩ := List.head?_eq_some_iff.mp h
  obtain ⟨count, hcount⟩ : ∃ count, max 1 mgr.replicationFactor = count + 1 :=
    ⟨max 1 mgr.replicationFactor - 1, by omega⟩
  rw [hrest, hcount, List.take_succ_cons]
  exact List.mem_cons_self

/-- A task that sends to its own node deletes nothing. -/
theorem Created.target_ne {task : MigrationTask} (h : mgr.Created hash task) {key : String}
    (hkey : key ∈ task.keys) (hreplica : ¬mgr.IsReplica hash key) :
    task.targetNode ≠ mgr.localNodeId := by
  intro htarget
  have hmem := mgr.mem_replicas_of_getNode hash (h.owner key hkey)
  rw [htarget] at hmem
  exact hreplica hmem

/-! ## What the batches are -/

/-- The keys that are there. -/
def presentKeys (localKeys : Dict String Item) (keys : List String) : List String :=
  keys.filter fun key => (localKeys.get? key).isSome

/-- A batch has captured items only. -/
theorem nextBatch_items {localKeys keysData : Dict String Item} (keys : List String)
    (h : ∀ key item, keysData.get? key = some item → localKeys.get? key = some item) :
    ∀ key item, (nextBatch localKeys keysData keys).1.get? key = some item →
      localKeys.get? key = some item := by
  induction keys generalizing keysData with
  | nil => exact h
  | cons key keys ih =>
    unfold nextBatch
    cases hitem : localKeys.get? key with
    | none => exact ih h
    | some item =>
      have hset : ∀ k i, (keysData.set key item).get? k = some i → localKeys.get? k = some i := by
        intro k i hi
        rw [Dict.get?_set] at hi
        split at hi
        · rename_i hk
          rw [hk, hitem, hi]
        · exact h k i hi
      dsimp only
      split
      · exact hset
      · exact ih hset

/-- A batch `b` that was filled, after `keysData`, from `keys`, and left `rest`. -/
structure BatchSpec (localKeys keysData : Dict String Item) (keys : List String)
    (b : Dict String Item) (rest : List String) : Prop where
  taken : b.keys ++ presentKeys localKeys rest = keysData.keys ++ presentKeys localKeys keys
  left : rest <:+ keys
  size : b.length ≤ batchSize
  last : b.length < batchSize → rest = []

theorem nextBatch_spec {localKeys keysData : Dict String Item} {keys : List String}
    (hnodup : (keysData.keys ++ keys).Nodup) (hsize : keysData.length < batchSize) :
    BatchSpec localKeys keysData keys (nextBatch localKeys keysData keys).1
      (nextBatch localKeys keysData keys).2 := by
  induction keys generalizing keysData with
  | nil => exact ⟨rfl, List.suffix_refl _, le_of_lt hsize, fun _ => rfl⟩
  | cons key keys ih =>
    have hkey : key ∉ keysData.keys := by
      intro hmem
      exact List.disjoint_of_nodup_append hnodup hmem List.mem_cons_self
    unfold nextBatch
    cases hitem : localKeys.get? key with
    | none =>
      obtain ⟨h₁, h₂, h₃, h₄⟩ :=
        ih (hnodup.sublist ((List.sublist_cons_self key keys).append_left _)) hsize
      refine ⟨h₁.trans ?_, h₂.trans (List.suffix_cons key keys), h₃, h₄⟩
      simp [presentKeys, hitem]
    | some item =>
      have hset : (keysData.set key item).keys = keysData.keys ++ [key] :=
        Dict.keys_set_of_new hkey item
      have hlength : (keysData.set key item).length = keysData.length + 1 := by
        rw [← Dict.length_keys, hset, List.length_append, Dict.length_keys, List.length_singleton]
      have hpresent : presentKeys localKeys (key :: keys) = key :: presentKeys localKeys keys := by
        simp [presentKeys, hitem]
      dsimp only
      split
      · rename_i hfull
        refine ⟨?_, List.suffix_cons key keys, ?_, fun hlt => absurd hfull (not_le.mpr hlt)⟩
        · rw [hpresent, hset, List.append_assoc, List.singleton_append]
        · rw [hlength]
          exact hsize
      · rename_i hmore
        obtain ⟨h₁, h₂, h₃, h₄⟩ := ih
          (by rwa [hset, List.append_assoc, List.singleton_append]) (not_le.mp hmore)
        refine ⟨h₁.trans ?_, h₂.trans (List.suffix_cons key keys), h₃, h₄⟩
        rw [hpresent, hset, List.append_assoc, List.singleton_append]

/-- The next batch of a task: when it is empty, no key is left. -/
theorem nextBatch_empty_spec (localKeys : Dict String Item) {keys : List String}
    (hnodup : keys.Nodup) :
    BatchSpec localKeys Dict.empty keys (nextBatch localKeys Dict.empty keys).1
      (nextBatch localKeys Dict.empty keys).2 :=
  nextBatch_spec (by simpa [Dict.keys, Dict.empty] using hnodup) (by decide)

end ShardMigrationManager

end MiniDb
