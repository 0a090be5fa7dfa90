/-
  The state of one database node, and REPLICATE messages (`node.py`, and the message handler of
  `cluster/coordinator.py`).

  The node has its log enabled (the default configuration); the log is the list of entries
  appended to it. Server sockets, rate limiting, migration and statistics are not part of the
  state.
-/
import MiniDb.Cluster.Membership
import MiniDb.Cluster.ReadCoordinator
import MiniDb.Cluster.Replication
import MiniDb.Node.Recovery
import MiniDb.Sharding.ConsistentHash

namespace MiniDb

open Lib

/-- `Protocol.create_response` -/
inductive Response where
  | ok (data : Json)
  | error (text : String)

/-- The answer of `_handle_get`. -/
def getResponse (key : String) : ReadCoordinator.ReadOutcome → Response
  | .found best _ => .ok best.value
  | .failed => .error ("Quorum read failed for key " ++ key)
  | .absent => .ok .null

structure Node where
  config : NodeConfig
  store : KVStore
  aof : List AofEntry
  election : ElectionManager
  membership : MembershipManager
  ring : ConsistentHashRing
  /-- `_staged_replicates`: prepared entries by index. -/
  staged : Dict Nat LogEntry
  replication : ReplicationManager
  writeSequence : Nat

namespace Node

def nodeId (n : Node) : String := n.config.nodeId

def isLeader (n : Node) : Bool := n.election.role = .leader

/-- `_next_write_index` -/
def nextWriteIndex (n : Node) : Node × Nat :=
  ({ n with writeSequence := n.writeSequence + 1 }, n.writeSequence + 1)

/-- `_apply_log_entry` -/
def applyLogEntry (now : Time) (n : Node) (e : LogEntry) : Node :=
  { n with store := applyToStore now n.store e, aof := n.aof ++ [aofEntryOf e] }

/-! ## REPLICATE messages -/

end Node

inductive ReplicatePhase where
  | prepare
  | commit
  deriving DecidableEq

namespace Node

/-- The entry a commit applies: the one staged under its index, or else its own. -/
def toApply (n : Node) (e : LogEntry) : LogEntry := (n.staged.get? e.index).getD e

/-- The prepare branch: the entry is staged, not applied. -/
def stage (n : Node) (e : LogEntry) : Node := { n with staged := n.staged.set e.index e }

/-- The commit branch. -/
def commit (now : Time) (n : Node) (e : LogEntry) : Node :=
  applyLogEntry now { n with staged := n.staged.erase e.index } (n.toApply e)

/-- `handle_cluster_message` for REPLICATE. -/
def handleReplicate (now : Time) (n : Node) (entry : Option LogEntry) (phase : ReplicatePhase) :
    Node × Response :=
  match entry with
  | none => (n, .error "No entry in payload")
  | some e => match phase with
    | .prepare => (n.stage e, .ok (.obj [("success", .bool true)]))
    | .commit => (n.commit now e, .ok (.obj [("success", .bool true)]))

end Node

end MiniDb
