/-
  Configuration (`config.py`): consistency levels, roles, node states, and the fields of
  `NodeConfig` that the write and read paths use.

  Not modelled: ports, directories, time-outs and intervals, which no function here reads.
-/
import Mathlib.Init

namespace MiniDb

inductive ConsistencyLevel where
  | one
  | quorum
  | all
  | any
  | strong
  deriving DecidableEq

inductive NodeRole where
  | leader
  | follower
  | candidate
  deriving DecidableEq

inductive NodeState where
  | alive
  | suspect
  | dead
  deriving DecidableEq

def NodeRole.value : NodeRole → String
  | .leader => "LEADER"
  | .follower => "FOLLOWER"
  | .candidate => "CANDIDATE"

def NodeState.value : NodeState → String
  | .alive => "ALIVE"
  | .suspect => "SUSPECT"
  | .dead => "DEAD"

/-- `NodeRole(value)` -/
def NodeRole.ofValue (value : String) : Option NodeRole :=
  [NodeRole.leader, .follower, .candidate].find? fun r => r.value = value

/-- `NodeState(value)` -/
def NodeState.ofValue (value : String) : Option NodeState :=
  [NodeState.alive, .suspect, .dead].find? fun s => s.value = value

theorem NodeRole.ofValue_value (r : NodeRole) : NodeRole.ofValue r.value = some r := by
  cases r <;> rfl

theorem NodeState.ofValue_value (s : NodeState) : NodeState.ofValue s.value = some s := by
  cases s <;> rfl

structure NodeConfig where
  nodeId : String
  replicationFactor : Nat := 3
  defaultConsistency : ConsistencyLevel := .quorum

/-- `required_total` of a write: how many nodes, the leader among them, must apply it. -/
def requiredTotal (replicationFactor : Nat) (consistency : ConsistencyLevel) : Nat :=
  if consistency = .all ∨ consistency = .strong then replicationFactor
  else if consistency = .quorum then replicationFactor / 2 + 1
  else 1

end MiniDb
