/-
  Migration between nodes: the callbacks of the migration manager (`node.py`), the import
  handler with what it sends on, and the transition system in which the tasks of all nodes run.

  A task runs in steps: it captures the local data, hands batch after batch to `_send_keys`, and
  deletes key after key. Between two of its steps anything else may happen. A batch can fail
  before it is delivered, be imported with the answer lost, or be answered. The values that an
  owner imports it sends on to the replicas; these messages arrive late, repeatedly or never.

  Tasks wait until the migration loop takes one, in any order; a node runs one at a time. The
  rings change when `_sync_topology` finds a new node, the membership tables at any moment.

  Not modelled: cancelling a task (`Sharding.Cancel`), and errors of the log while keys are deleted.
-/
import MiniDb.Lib.Steps
import MiniDb.Node.Merge
import MiniDb.Sharding.Migration
import Mathlib.Logic.Function.Basic

namespace MiniDb

open Lib ShardMigrationManager

namespace Node

/-! ## The callbacks -/

def migration (n : Node) : ShardMigrationManager :=
  { localNodeId := n.nodeId, ring := n.ring, replicationFactor := n.config.replicationFactor }

/-- What `_send_migration_keys` makes of a 6-tuple. -/
def payloadItem (i : KVStore.Item) : ImportItem :=
  { value := i.value, version := i.version, updatedAt := some i.updatedAt
    createdAt := some i.createdAt, expiresAt := i.expiresAt
    coordinatorId := some i.coordinatorId }

/-- One item of the import loop; `fanout` are the records to be sent on. -/
def importAndNote (hash : String → Nat) (now : Time) (r : Node × List Versioned)
    (p : String × ImportItem) : Node × List Versioned :=
  let u := importRecord now p.1 p.2
  let (n, stored) := r.1.storeUnlessOlder now u
  if stored ∧ n.ring.getNode hash p.1 = some n.nodeId then (n, r.2 ++ [u]) else (n, r.2)

/-- The nodes to which `_handle_import_keys` sends a record on. -/
def fanoutTargets (hash : String → Nat) (n : Node) (key : String) : List String :=
  ((n.migration.replicas hash key).filter fun r => r ≠ n.nodeId).filter fun r =>
    (n.membership.getNode r).any fun i => i.state = .alive

/-- `_handle_import_keys`, with the `__REPLICA_SET` messages it sends. -/
def handleImportKeys (hash : String → Nat) (now : Time) (n : Node)
    (payload : Dict String ImportItem) : Node × List (String × Versioned) :=
  let (n, fanout) := payload.items.foldl (importAndNote hash now) (n, [])
  (n, fanout.flatMap fun u => (n.fanoutTargets hash u.key).map fun r => (r, u))

/-- One key of `_delete_migrated_keys`. -/
def deleteMigratedKey (now : Time) (n : Node) (key : String) : Node :=
  let (store, metadata) := n.store.getWithMetadata now key
  { n with
    store := (store.delete key).1
    aof := n.aof ++ [
      { timestamp := now, command := .delete, key := key
        version := match metadata with
          | some m => m.version
          | none => 1
        coordinatorId := match metadata with
          | some m => m.coordinatorId
          | none => n.nodeId }] }

end Node

/-! ## The transition system -/

inductive ExecutionPhase where
  /-- The keys the loop has not come to. -/
  | sending (keys : List String)
  /-- The keys still to be deleted. -/
  | deleting (keys : List String)
  | ended

/-- `_execute_migration` of a task. -/
structure Execution where
  task : MigrationTask
  /-- The data captured at the start. -/
  localKeys : Dict String KVStore.Item
  phase : ExecutionPhase
  /-- The batches handed to `_send_keys`, with what it returned; no step reads them. -/
  sent : List (Dict String KVStore.Item × Bool)

inductive SendOutcome where
  /-- Failed before it was delivered. -/
  | undelivered
  /-- Imported, the answer lost. -/
  | unanswered
  | answered
  deriving DecidableEq

structure Migrations where
  nodes : String → Node
  /-- The tasks created at a node that the migration loop has not taken. -/
  waiting : String → List MigrationTask
  /-- The task that runs at a node, or ran last. -/
  running : String → Option Execution
  /-- The `__REPLICA_SET` messages sent, with their receivers. -/
  fanout : List (String × Versioned)

inductive MigrationLabel where
  /-- REBALANCE at `n`. -/
  | rebalance (n : String) (now : Time)
  /-- `_sync_topology` at `n` finds `newNode`. -/
  | join (n newNode : String) (now : Time)
  /-- The membership table of `n` changes. -/
  | membership (n : String) (m : MembershipManager)
  /-- The migration loop of `n` takes a waiting task. -/
  | start (n : String) (i : Nat) (now : Time)
  | send (n : String) (now : Time) (outcome : SendOutcome)
  /-- No batch is left to send. -/
  | endLoop (n : String)
  | delete (n : String) (now : Time)
  | finish (n : String)
  /-- A `__REPLICA_SET` message arrives. -/
  | fanout (i : Nat) (now : Time)
  /-- A committed SET is applied at `n`. -/
  | set (n : String) (now : Time) (e : LogEntry)

namespace Migrations

variable (hash : String → Nat)

def setNode (s : Migrations) (n : String) (x : Node) : Migrations :=
  { s with nodes := Function.update s.nodes n x }

def setRunning (s : Migrations) (n : String) (e : Execution) : Migrations :=
  { s with running := Function.update s.running n (some e) }

def addWaiting (s : Migrations) (n : String) (tasks : List MigrationTask) : Migrations :=
  { s with waiting := Function.update s.waiting n (s.waiting n ++ tasks) }

/-- `get_local_keys` at `n`: expired records go. -/
def captureAt (s : Migrations) (n : String) (now : Time) : Migrations :=
  s.setNode n { s.nodes n with store := ((s.nodes n).store.getAllData now).1 }

def capturedAt (s : Migrations) (n : String) (now : Time) : Dict String KVStore.Item :=
  ((s.nodes n).store.getAllData now).2

def rebalance (s : Migrations) (n : String) (now : Time) : Migrations :=
  (s.captureAt n now).addWaiting n
    ((s.nodes n).migration.calculateRebalanceMigrations hash (s.capturedAt n now))

def join (s : Migrations) (n newNode : String) (now : Time) : Migrations :=
  let s := s.setNode n { s.nodes n with ring := (s.nodes n).ring.addNode hash newNode }
  (s.captureAt n now).addWaiting n
    ((s.nodes n).migration.onNodeJoin hash newNode (s.capturedAt n now)).toList

def start (s : Migrations) (n : String) (i : Nat) (task : MigrationTask) (now : Time) :
    Migrations :=
  { (s.captureAt n now).setRunning n
      { task := { task with state := .inProgress }, localKeys := s.capturedAt n now
        phase := .sending task.keys, sent := [] } with
    waiting := Function.update s.waiting n ((s.waiting n).eraseIdx i) }

/-- A batch is imported at its target. -/
def importAt (s : Migrations) (now : Time) (target : String) (batch : Dict String KVStore.Item) :
    Migrations :=
  let (x, fanout) :=
    (s.nodes target).handleImportKeys hash now (batch.mapVals Node.payloadItem)
  { s.setNode target x with fanout := s.fanout ++ fanout }

/-- The target is in the membership table of the node. -/
def knows (s : Migrations) (n target : String) : Bool :=
  ((s.nodes n).membership.getNode target).isSome

/-- `_send_keys` returns True. -/
def sends (s : Migrations) (n : String) (e : Execution) (outcome : SendOutcome) : Bool :=
  s.knows n e.task.targetNode && outcome = .answered

/-- The batch reaches its target. -/
def delivers (s : Migrations) (n : String) (e : Execution) (outcome : SendOutcome) : Bool :=
  s.knows n e.task.targetNode && outcome ≠ .undelivered

end Migrations

namespace Execution

/-- The batch was sent. -/
def advance (e : Execution) (batch : Dict String KVStore.Item) (rest : List String) : Execution :=
  { e with
    task := { e.task with progress := e.task.progress + batch.length }
    phase := .sending rest, sent := e.sent ++ [(batch, true)] }

/-- The batch could not be sent. -/
def fail (e : Execution) (batch : Dict String KVStore.Item) : Execution :=
  { e with
    task := { e.task with state := .failed, error := some (sendError e.task.targetNode batch) }
    phase := .ended, sent := e.sent ++ [(batch, false)] }

/-- All keys are deleted. -/
def complete (e : Execution) : Execution :=
  { e with task := { e.task with state := .completed }, phase := .ended }

end Execution

namespace Migrations

variable (hash : String → Nat)

def send (s : Migrations) (n : String) (e : Execution) (batch : Dict String KVStore.Item)
    (rest : List String) (now : Time) (outcome : SendOutcome) : Migrations :=
  let s' := if s.delivers n e outcome then s.importAt hash now e.task.targetNode batch else s
  s'.setRunning n (if s.sends n e outcome then e.advance batch rest else e.fail batch)

def isIdle (s : Migrations) (n : String) : Bool :=
  match s.running n with
  | some e => match e.phase with
    | .ended => true
    | _ => false
  | none => true

def step (s : Migrations) : MigrationLabel → Option Migrations
  | .rebalance n now => some (s.rebalance hash n now)
  | .join n newNode now => some (s.join hash n newNode now)
  | .membership n m => some (s.setNode n { s.nodes n with membership := m })
  | .start n i now =>
    if s.isIdle n then (s.waiting n)[i]?.map fun task => s.start n i task now else none
  | .send n now outcome => do
    let e ← s.running n
    match e.phase with
    | .sending keys =>
      let next := nextBatch e.localKeys Dict.empty keys
      if next.1.length = 0 then none else some (s.send hash n e next.1 next.2 now outcome)
    | _ => none
  | .endLoop n => do
    let e ← s.running n
    match e.phase with
    | .sending keys =>
      if (nextBatch e.localKeys Dict.empty keys).1.length = 0 then
        some (s.setRunning n
          { e with phase := .deleting ((s.nodes n).migration.nonReplicaKeys hash e.task.keys) })
      else none
    | _ => none
  | .delete n now => do
    let e ← s.running n
    match e.phase with
    | .deleting (key :: keys) =>
      some ((s.setNode n ((s.nodes n).deleteMigratedKey now key)).setRunning n
        { e with phase := .deleting keys })
    | _ => none
  | .finish n => do
    let e ← s.running n
    match e.phase with
    | .deleting [] => some (s.setRunning n e.complete)
    | _ => none
  | .fanout i now => do
    let (dest, u) ← s.fanout[i]?
    some (s.setNode dest (Merge.deliver (s.nodes dest) (now, .replicaSet u)))
  | .set n now e =>
    if e.command = .set then some (s.setNode n ((s.nodes n).applyLogEntry now e)) else none

end Migrations

end MiniDb
