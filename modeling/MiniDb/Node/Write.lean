/-
  Writes at the leader (`node.py`, `_apply_partition_write`), as far as they run on the node
  itself: the checks before the write lock, the entry and the choice of targets under it, and
  what is done once the followers have been asked.

  Sending the two phases is the subject of the cluster model.
-/
import MiniDb.Node.State

namespace MiniDb

open Lib

/-- The arguments of `_apply_partition_write`. -/
structure WriteCall where
  operation : Command
  key : String
  value : Json := .null
  ttl : Option Int := none

def Command.text : Command → String
  | .set => "SET"
  | .delete => "DELETE"

/-- How a list of plain ids is printed in an error. -/
def listText (ids : List String) : String :=
  "[" ++ ", ".intercalate (ids.map fun x => "'" ++ x ++ "'") ++ "]"

/-- What becomes of a write once its entry is built. -/
inductive WriteStart where
  | refused (text : String)
  /-- Prepares go out to the targets. -/
  | prepare (targets : List String)
  /-- `replicate` said yes at once. -/
  | commit (targets : List String)

/-- The error of a write that `replicate` refused. -/
def replicationFailed (operation : Command) (replicas : List String) : String :=
  "Replication failed for " ++ operation.text ++ " on replica set " ++ listText replicas

namespace Node

/-- `_apply_partition_write` up to the write lock: the replica set, or the error. -/
def admitWrite (n : Node) (w : WriteCall) : Except String (List String) :=
  if ¬ n.isLeader then .error ("This node is not the write leader for " ++ w.key)
  else if n.ring.getNodeCount < n.config.replicationFactor then
    .error ("Cluster not ready for " ++ w.operation.text ++ ": ring has " ++
      toString n.ring.getNodeCount ++ " nodes, need " ++ toString n.config.replicationFactor)
  else
    let alive := n.membership.aliveIds
    let alive := if n.nodeId ∉ alive then n.nodeId :: alive else alive
    let replicas := alive.take (max n.config.replicationFactor alive.length)
    .ok (if n.nodeId ∉ replicas then n.nodeId :: replicas.filter (fun r => r ≠ n.nodeId)
      else replicas)

/-- The entry of a write, one version after the stored record. -/
def newEntry (clock now : Time) (n : Node) (w : WriteCall) : Node × LogEntry :=
  let (store, current) := n.store.getWithMetadata clock w.key
  let (n, index) := { n with store := store }.nextWriteIndex
  (n,
    { term := n.election.currentTerm
      index := index
      command := w.operation
      key := w.key
      value := w.value
      ttl := w.ttl
      timestamp := now
      version := match current with
        | some m => m.version + 1
        | none => 1
      expiresAt := w.ttl.map fun (t : Int) => now + t
      createdAt := some (match current with
        | some m => m.createdAt
        | none => now)
      coordinatorId := n.nodeId })

/-- `remote_replicas` -/
def remoteReplicas (n : Node) (replicas : List String) : List String :=
  replicas.filter fun r => r ≠ n.nodeId

/-- The remote replicas that the membership table has alive. -/
def targets (n : Node) (replicas : List String) : List String :=
  (n.remoteReplicas replicas).filter fun r => r ∈ n.membership.aliveIds.filter (· ≠ n.nodeId)

/-- A new write up to the sending of prepares. -/
def beginWrite (clock now : Time) (n : Node) (w : WriteCall) (replicas : List String) :
    Node × LogEntry × WriteStart :=
  let (n, e) := n.newEntry clock now w
  let remote := n.remoteReplicas replicas
  let targets := n.targets replicas
  if remote ≠ [] ∧ targets.length < remote.length then
    let missing := ((remote.filter fun r => r ∉ targets).dedup).mergeSort (· ≤ ·)
    (n, e, .refused ("Replication targets unavailable for " ++ w.operation.text ++ ": missing " ++
      listText missing ++ " (replica set " ++ listText replicas ++ ")"))
  else
    let (r, answer) := n.replication.beginReplicate n.config.replicationFactor e
      n.config.defaultConsistency targets
    ({ n with replication := r }, e,
      match answer with
      | some true => .commit targets
      | some false => .refused (replicationFailed w.operation replicas)
      | none => .prepare targets)

/-- The node after the answer of one follower to a prepare. -/
def acknowledge (n : Node) (e : LogEntry) : Node :=
  { n with replication := n.replication.acknowledge e.index }

/-- The node when all prepares have been sent; the flag is what `replicate` answers. -/
def endReplicate (n : Node) (e : LogEntry) : Node × Bool :=
  let (r, success) := n.replication.endReplicate e.index
  ({ n with replication := r }, success)

/-- The end of a write, `committed` being the followers that confirmed the commit. -/
def settleWrite (clock : Time) (n : Node) (e : LogEntry) (committed : Nat) : Node × Response :=
  if committed + 1 < requiredTotal n.config.replicationFactor n.config.defaultConsistency then
    (n, .error ("Commit acknowledgements unavailable for " ++ e.command.text))
  else (n.applyLogEntry clock e, .ok (.str "OK"))

/-- What a new write changes on its node, and what it says. -/
structure BeginsWrite (clock now : Time) (n : Node) (w : WriteCall) (replicas : List String)
    (n' : Node) (e : LogEntry) (start : WriteStart) : Prop where
  config : n'.config = n.config
  store : n'.store = (n.store.getWithMetadata clock w.key).1
  aof : n'.aof = n.aof
  staged : n'.staged = n.staged
  queue : ∀ p ∈ n'.replication.asyncQueue, p ∈ n.replication.asyncQueue ∨ p.1 = e
  writeSequence : n'.writeSequence = n.writeSequence + 1
  entry : e = (n.newEntry clock now w).2
  start : (∃ text, start = .refused text) ∨ n.targets replicas = n.remoteReplicas replicas ∧
    (start = .prepare (n.targets replicas) ∨ start = .commit (n.targets replicas))

theorem beginWrite_spec (clock now : Time) (n : Node) (w : WriteCall) (replicas : List String) :
    BeginsWrite clock now n w replicas (n.beginWrite clock now w replicas).1
      (n.beginWrite clock now w replicas).2.1 (n.beginWrite clock now w replicas).2.2 := by
  unfold beginWrite
  simp only
  split
  · exact ⟨rfl, rfl, rfl, rfl, fun p hp => .inl hp, rfl, rfl, .inl ⟨_, rfl⟩⟩
  · rename_i hall
    have htargets : n.targets replicas = n.remoteReplicas replicas := by
      refine List.filter_sublist.eq_of_length_le (not_lt.mp fun hlt => hall ⟨fun hnil => ?_, hlt⟩)
      have hnone : n.remoteReplicas replicas = [] := hnil
      rw [hnone] at hlt
      exact absurd hlt (Nat.not_lt_zero _)
    refine ⟨rfl, rfl, rfl, rfl, fun p hp => ?_, rfl, rfl, ?_⟩
    · exact ReplicationManager.mem_asyncQueue_beginReplicate hp
    · simp only
      split
      · exact .inr ⟨htargets, .inr rfl⟩
      · exact .inl ⟨_, rfl⟩
      · exact .inr ⟨htargets, .inl rfl⟩

/-- A write ends with an error, or is applied and answered with success. -/
theorem settleWrite_cases (clock : Time) (n : Node) (e : LogEntry) (k : Nat) :
    (∃ text, n.settleWrite clock e k = (n, .error text)) ∨
      (requiredTotal n.config.replicationFactor n.config.defaultConsistency ≤ k + 1 ∧
        n.settleWrite clock e k = (n.applyLogEntry clock e, .ok (.str "OK"))) := by
  unfold settleWrite
  split
  · exact .inl ⟨_, rfl⟩
  · rename_i hk
    exact .inr ⟨not_lt.mp hk, rfl⟩

/-! ## Versions -/

/-- The version of the record a node has for a key, 0 when it has none. -/
def storedVersion (clock : Time) (n : Node) (key : String) : Int :=
  match (n.store.getWithMetadata clock key).2 with
  | some m => m.version
  | none => 0

theorem version_newEntry (clock now : Time) (n : Node) (w : WriteCall) :
    (n.newEntry clock now w).2.version = n.storedVersion clock w.key + 1 := by
  unfold newEntry storedVersion
  simp only
  cases (n.store.getWithMetadata clock w.key).2 <;> rfl

/-! ## What admission gives -/

/-- The replica set of an admitted write: the alive nodes, and this one. -/
theorem admitWrite_eq {n : Node} {w : WriteCall} {replicas : List String}
    (h : n.admitWrite w = .ok replicas) :
    n.isLeader ∧ n.config.replicationFactor ≤ n.ring.getNodeCount ∧
      replicas = if n.nodeId ∈ n.membership.aliveIds then n.membership.aliveIds
        else n.nodeId :: n.membership.aliveIds := by
  have htake : ∀ l : List String, l.take (max n.config.replicationFactor l.length) = l :=
    fun l => List.take_of_length_le (le_max_right _ _)
  unfold admitWrite at h
  split at h
  · cases h
  rename_i hleader
  split at h
  · cases h
  rename_i hring
  simp only [htake] at h
  refine ⟨by simpa using hleader, by omega, ?_⟩
  by_cases hself : n.nodeId ∈ n.membership.aliveIds
  · simp only [hself, not_true_eq_false, if_false, Except.ok.injEq] at h
    rw [if_pos hself, h]
  · simp only [hself, not_false_eq_true, if_true, List.mem_cons_self, not_true_eq_false, if_false,
      Except.ok.injEq] at h
    rw [if_neg hself, h]

theorem mem_admitted {n : Node} {w : WriteCall} {replicas : List String}
    (h : n.admitWrite w = .ok replicas) {r : String} :
    r ∈ replicas ↔ r = n.nodeId ∨ r ∈ n.membership.aliveIds := by
  rw [(admitWrite_eq h).2.2]
  split
  · rename_i hself
    exact ⟨.inr, fun hr => hr.elim (fun heq => heq ▸ hself) id⟩
  · exact List.mem_cons

theorem nodup_admitted {n : Node} {w : WriteCall} {replicas : List String}
    (h : n.admitWrite w = .ok replicas) : replicas.Nodup := by
  rw [(admitWrite_eq h).2.2]
  split
  · exact n.membership.nodup_aliveIds
  · rename_i hself
    exact List.nodup_cons.mpr ⟨hself, n.membership.nodup_aliveIds⟩

theorem mem_remoteReplicas {n : Node} {replicas : List String} {r : String} :
    r ∈ n.remoteReplicas replicas ↔ r ∈ replicas ∧ r ≠ n.nodeId := by
  simp [remoteReplicas]

theorem nodup_targets (n : Node) {replicas : List String} (h : replicas.Nodup) :
    (n.targets replicas).Nodup :=
  (h.filter _).filter _

theorem mem_targets {n : Node} {replicas : List String} {r : String} :
    r ∈ n.targets replicas ↔ r ∈ replicas ∧ r ≠ n.nodeId ∧ r ∈ n.membership.aliveIds := by
  simp [targets, remoteReplicas, and_comm]

end Node

end MiniDb
