/-
  The replication manager (`cluster/replication.py`): how many nodes must answer a write, and
  who has.

  `replicate` is cut where it sends: `beginReplicate` is what it does before, `acknowledge` runs
  for each follower that answers, and `endReplicate` takes the request off the table. Waiting is
  not modelled: when the last prepare has been sent, every answer that will be counted has been.
-/
import MiniDb.Cluster.Election
import MiniDb.Lib.Dict

namespace MiniDb

open Lib

structure ReplicationRequest where
  entry : LogEntry
  consistency : ConsistencyLevel
  requiredAcks : Nat
  receivedAcks : Nat := 0
  success : Bool := false

structure ReplicationManager where
  /-- `_pending`, by log index -/
  pending : Dict Nat ReplicationRequest := Dict.empty
  asyncQueue : List (LogEntry × List String) := []

namespace ReplicationManager

/-- `replicate` up to the sending: `some` is an answer given at once, `none` means that a
    request is pending and the prepares go out. -/
def beginReplicate (m : ReplicationManager) (replicationFactor : Nat) (e : LogEntry)
    (consistency : ConsistencyLevel) (followers : List String) :
    ReplicationManager × Option Bool :=
  if consistency = .one ∨ consistency = .any then
    if followers = [] then (m, some true)
    else ({ m with asyncQueue := m.asyncQueue ++ [(e, followers)] }, some true)
  else
    let requiredAcks := requiredTotal replicationFactor consistency - 1
    if requiredAcks = 0 then (m, some true)
    else if followers = [] ∨ followers.length < requiredAcks then (m, some false)
    else
      let r : ReplicationRequest :=
        { entry := e, consistency := consistency, requiredAcks := requiredAcks }
      ({ m with pending := m.pending.set e.index r }, none)

def acknowledge (m : ReplicationManager) (logIndex : Nat) : ReplicationManager :=
  match m.pending.get? logIndex with
  | none => m
  | some r =>
    let received := r.receivedAcks + 1
    let r := { r with receivedAcks := received, success := r.success || r.requiredAcks ≤ received }
    { m with pending := m.pending.set logIndex r }

/-- `replicate` after the sending. -/
def endReplicate (m : ReplicationManager) (logIndex : Nat) : ReplicationManager × Bool :=
  match m.pending.get? logIndex with
  | none => (m, false)
  | some r =>
    ({ m with pending := m.pending.erase logIndex }, r.success || r.requiredAcks ≤ r.receivedAcks)

@[simp] theorem asyncQueue_acknowledge (m : ReplicationManager) (i : Nat) :
    (m.acknowledge i).asyncQueue = m.asyncQueue := by
  unfold acknowledge
  split <;> rfl

@[simp] theorem asyncQueue_endReplicate (m : ReplicationManager) (i : Nat) :
    (m.endReplicate i).1.asyncQueue = m.asyncQueue := by
  unfold endReplicate
  split <;> rfl

/-- Only the entry of the call can be queued by it. -/
theorem mem_asyncQueue_beginReplicate {m : ReplicationManager} {replicationFactor : Nat}
    {e : LogEntry} {consistency : ConsistencyLevel} {followers : List String}
    {p : LogEntry × List String}
    (hp : p ∈ (m.beginReplicate replicationFactor e consistency followers).1.asyncQueue) :
    p ∈ m.asyncQueue ∨ p.1 = e := by
  unfold beginReplicate at hp
  split at hp
  · split at hp
    · exact .inl hp
    · rcases List.mem_append.mp hp with hp | hp
      · exact .inl hp
      · rw [List.mem_singleton] at hp
        exact .inr (congrArg Prod.fst hp)
  · simp only at hp
    split at hp
    · exact .inl hp
    · split at hp
      · exact .inl hp
      · exact .inl hp

end ReplicationManager

end MiniDb
