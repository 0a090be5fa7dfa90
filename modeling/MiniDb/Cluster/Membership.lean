/-
  The membership table (`cluster/membership.py`): which nodes are known and in what state.

  `Cluster.Gossip` says how the table changes; the cluster model lets it change to any table of
  this type at any moment. The fields that come from the wire unchecked (addresses, heartbeat,
  incarnation) are JSON values. `joined_at`, which nothing reads, is left out.
-/
import MiniDb.Config
import MiniDb.Lib.Dict
import MiniDb.Lib.Json

namespace MiniDb

open Lib

structure NodeInfo where
  nodeId : String
  host : Json
  clientPort : Json
  clusterPort : Json
  state : NodeState := .alive
  role : NodeRole := .follower
  lastHeartbeat : Json
  incarnation : Json := .int 0

/-- A table keyed by the ids of its entries. -/
structure MembershipManager where
  members : Dict String NodeInfo
  keyed : ∀ k n, members.get? k = some n → n.nodeId = k

namespace MembershipManager

def getAliveNodes (m : MembershipManager) : List NodeInfo :=
  (m.members.items.map Prod.snd).filter fun n => n.state = .alive

def getNode (m : MembershipManager) (nodeId : String) : Option NodeInfo := m.members.get? nodeId

def nodeCount (m : MembershipManager) : Nat := m.getAliveNodes.length

/-- The ids of the alive nodes, in table order. -/
def aliveIds (m : MembershipManager) : List String := m.getAliveNodes.map NodeInfo.nodeId

theorem map_nodeId_items (m : MembershipManager) :
    (m.members.items.map Prod.snd).map NodeInfo.nodeId = m.members.keys := by
  rw [List.map_map]
  unfold Dict.keys
  refine List.map_congr_left fun p hp => ?_
  obtain ⟨k, n⟩ := p
  exact m.keyed k n ((m.members.mem_items_iff k n).mp hp)

theorem nodup_aliveIds (m : MembershipManager) : m.aliveIds.Nodup := by
  have hkeys : ((m.members.items.map Prod.snd).map NodeInfo.nodeId).Nodup := by
    rw [map_nodeId_items]
    exact m.members.nodup_keys
  exact hkeys.sublist (List.filter_sublist.map _)

theorem mem_aliveIds {m : MembershipManager} {n : String} (h : n ∈ m.aliveIds) :
    ∃ i, m.getNode n = some i ∧ i.state = .alive := by
  obtain ⟨i, hi, rfl⟩ := List.mem_map.mp h
  obtain ⟨hmem, halive⟩ := List.mem_filter.mp hi
  obtain ⟨⟨k, i'⟩, hp, rfl⟩ := List.mem_map.mp hmem
  have hget := (m.members.mem_items_iff k i').mp hp
  refine ⟨i', ?_, by simpa using halive⟩
  rw [getNode, m.keyed k i' hget, hget]

/-- `self._members[node.node_id] = node` -/
def put (m : MembershipManager) (node : NodeInfo) : MembershipManager :=
  { members := m.members.set node.nodeId node
    keyed := by
      intro k n h
      rw [Dict.get?_set] at h
      split at h
      · rename_i hk
        rw [Option.some.injEq] at h
        rw [← h, hk]
      · exact m.keyed k n h }

theorem getNode_put (m : MembershipManager) (node : NodeInfo) (k : String) :
    (m.put node).getNode k = if k = node.nodeId then some node else m.getNode k :=
  Dict.get?_set m.members node.nodeId k node

/-- The table with one more node, alive. -/
def addAlive (m : MembershipManager) (nodeId : String) : MembershipManager :=
  m.put
    { nodeId := nodeId
      host := .str "localhost"
      clientPort := .int 7001
      clusterPort := .int 8001
      lastHeartbeat := .int 0 }

/-- `MembershipManager()` -/
def empty : MembershipManager := ⟨Dict.empty, fun _ _ h => by cases h⟩

/-- A table of alive nodes. -/
def ofIds (ids : List String) : MembershipManager :=
  ids.foldl addAlive empty

end MembershipManager

end MiniDb
