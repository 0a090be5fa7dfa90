/-
  A node's own entry in its membership table, under cluster messages with any contents, health
  checks, removals and role changes.

  `local_entry_iff`: the entry stays in the table, ALIVE and with the node's own address, in
  every state of a run if and only if no JOIN takes it over. Gossip, removal and health checks
  spare the local node; `add_node` does not: a JOIN that names it with a higher incarnation
  replaces the entry by what the message says.

  A HEARTBEAT may make the election manager follow a leader, which sets the node's role; what it
  answers (`ElectionAnswer`) is any.
-/
import MiniDb.Cluster.Gossip
import MiniDb.Lib.Steps

namespace MiniDb.LocalEntry

open Lib Lib.Json MembershipManager

/-! ## Messages -/

/-- The truth value of a JSON value. -/
def truthy : Json → Bool
  | .null => false
  | .bool b => b
  | .int n => n ≠ 0
  | .float x => x ≠ 0
  | .str s => s ≠ ""
  | .arr items => !items.isEmpty
  | .obj fields => !fields.isEmpty

/-- What a loop over the value meets; `none` when it raises. -/
def iterate : Json → Option (List Json)
  | .arr items => some items
  | .obj fields => some (fields.map fun f => .str f.1)
  | .str s => some (s.toList.map fun c => .str (String.singleton c))
  | _ => none

/-- What `election.receive_heartbeat` comes to. -/
inductive ElectionAnswer where
  | raised
  | ignored
  | follows
  deriving DecidableEq

variable (localId : String) (now : Time)

/-- `update_heartbeat(sender_id)`; the table has entries for strings only. -/
def heartbeatOf (m : MembershipManager) : Json → MembershipManager
  | .str senderId => m.updateHeartbeat now senderId
  | _ => m

/-- `handle_gossip(members)`, then `update_heartbeat(sender_id)` unless it raised. -/
def gossipThenHeartbeat (m : MembershipManager) (members sender : Json) : MembershipManager :=
  match iterate members with
  | none => m
  | some membersData =>
    let (m', ended) := handleGossip localId now m membersData
    if ended then heartbeatOf now m' sender else m'

/-- The table when the election manager has answered. -/
def afterElection (m : MembershipManager) : ElectionAnswer → MembershipManager
  | .follows => m.setNodeRole localId .follower
  | _ => m

/-- `handle_cluster_message` of a HEARTBEAT. -/
def handleHeartbeat (m : MembershipManager) (payload sender : Json) (answer : ElectionAnswer) :
    MembershipManager :=
  match payload with
  | .obj fields =>
    let follows := truthy ((field? (.obj fields) "leader_id").getD .null)
    if follows ∧ answer = .raised then m
    else
      let m := if follows then afterElection localId m answer else m
      let members := (field? (.obj fields) "members").getD (.arr [])
      gossipThenHeartbeat localId now m (if truthy members then members else .arr []) sender
  | _ => m

/-- `handle_cluster_message` of a GOSSIP. -/
def handleGossipMessage (m : MembershipManager) (payload sender : Json) : MembershipManager :=
  match payload with
  | .obj fields =>
    gossipThenHeartbeat localId now m ((field? (.obj fields) "members").getD (.arr [])) sender
  | _ => m

/-- `handle_cluster_message` of a JOIN. -/
def handleJoin (m : MembershipManager) (payload : Json) : MembershipManager :=
  ((NodeInfo.fromDict now payload).bind m.addNode).getD m

/-- `join_cluster` with the payload of the seed's RESPONSE. -/
def handleJoinReply (m : MembershipManager) (payload : Json) : MembershipManager :=
  match payload with
  | .obj fields =>
    match iterate ((field? (.obj fields) "members").getD (.arr [])) with
    | none => m
    | some membersData => (handleGossip localId now m membersData).1
  | _ => m

/-! ## Everything that writes the table -/

inductive MemberEvent where
  | heartbeat (now : Time) (payload sender : Json) (answer : ElectionAnswer)
  | gossip (now : Time) (payload sender : Json)
  | join (now : Time) (payload : Json)
  /-- The reply to a JOIN of this node. -/
  | joinReply (now : Time) (payload : Json)
  | checkHealth (now failureTimeout deadTimeout : Time)
  | removeNode (nodeId : String)
  | setRole (nodeId : String) (role : NodeRole)

def step (m : MembershipManager) : MemberEvent → Option MembershipManager
  | .heartbeat now payload sender answer =>
    some (handleHeartbeat localId now m payload sender answer)
  | .gossip now payload sender => some (handleGossipMessage localId now m payload sender)
  | .join now payload => some (handleJoin now m payload)
  | .joinReply now payload => some (handleJoinReply localId now m payload)
  | .checkHealth now failureTimeout deadTimeout =>
    some (checkNodeHealth localId now failureTimeout deadTimeout m)
  | .removeNode nodeId => some (m.removeNode localId nodeId)
  | .setRole nodeId role => some (m.setNodeRole nodeId role)

/-- `MembershipManager(local_node)` -/
def start (own : NodeInfo) : MembershipManager := empty.put own

/-- An entry that says of `own` what is true of it. -/
structure IsOwn (own n : NodeInfo) : Prop where
  state : n.state = .alive
  host : n.host = own.host
  clientPort : n.clientPort = own.clientPort
  clusterPort : n.clusterPort = own.clusterPort

/-- The table has a true entry for the node itself. -/
def HasOwn (own : NodeInfo) (m : MembershipManager) : Prop :=
  ∃ n, m.getNode own.nodeId = some n ∧ IsOwn own n

/-- The event is no JOIN in the node's own name, unless that is not newer than the entry or says
    the same. -/
def Spares (own : NodeInfo) (m : MembershipManager) : MemberEvent → Prop
  | .join now payload => ∀ node existing, NodeInfo.fromDict now payload = some node →
      node.nodeId = own.nodeId → m.getNode own.nodeId = some existing →
      greater node.incarnation existing.incarnation = some true → IsOwn own node
  | _ => True

/-! ## What each operation does to the entry -/

variable {localId now} {own : NodeInfo} {m : MembershipManager}

theorem hasOwn_congr {m' : MembershipManager}
    (h : m'.getNode own.nodeId = m.getNode own.nodeId) : HasOwn own m' ↔ HasOwn own m := by
  unfold HasOwn
  rw [h]

/-- An entry that is put for the node itself must be true, any other may be put. -/
theorem HasOwn.put (h : HasOwn own m) {n : NodeInfo}
    (hn : n.nodeId = own.nodeId → IsOwn own n) : HasOwn own (m.put n) := by
  unfold HasOwn
  simp only [getNode_put]
  by_cases hid : own.nodeId = n.nodeId
  · rw [if_pos hid]
    exact ⟨n, rfl, hn hid.symm⟩
  · rw [if_neg hid]
    exact h

theorem HasOwn.entry (h : HasOwn own m) {n : NodeInfo} (hn : m.getNode own.nodeId = some n) :
    IsOwn own n := by
  obtain ⟨n', hn', hown⟩ := h
  exact Option.some.inj (hn'.symm.trans hn) ▸ hown

/-- Wherever it is found, an entry of the node itself is true. -/
theorem HasOwn.entry_of_named (h : HasOwn own m) {k : String} {n : NodeInfo}
    (hn : m.getNode k = some n) (hid : n.nodeId = own.nodeId) : IsOwn own n := by
  have hkey : k = own.nodeId := (m.keyed k n hn).symm.trans hid
  exact h.entry (hkey ▸ hn)

theorem fromDict_nodeId {data : Json} {n : NodeInfo} (h : NodeInfo.fromDict now data = some n) :
    data.field? "node_id" = some (.str n.nodeId) := by
  unfold NodeInfo.fromDict at h
  simp only [Option.bind_eq_bind, Option.bind_eq_some_iff] at h
  obtain ⟨id, hid, h⟩ := h
  split at h
  · simp only [Option.bind_eq_some_iff] at h
    obtain ⟨host, -, client, -, cluster, -, state, -, role, -, h⟩ := h
    rw [hid, ← Option.some.inj h]
  · cases h

/-- Merging a record about another node leaves the entry. -/
theorem getNode_merge {m' : MembershipManager} {incoming : NodeInfo}
    (hid : incoming.nodeId ≠ localId) (h : m.merge incoming = some m') :
    m'.getNode localId = m.getNode localId := by
  have hput : (m.put incoming).getNode localId = m.getNode localId := by
    rw [getNode_put, if_neg (Ne.symm hid)]
  unfold merge at h
  split at h
  · rw [← Option.some.inj h, hput]
  · obtain ⟨isNewer, -, rfl⟩ := Option.map_eq_some_iff.mp h
    cases isNewer with
    | false => rfl
    | true => exact hput

theorem getNode_gossipItem {m' : MembershipManager} {data : Json}
    (h : gossipItem localId now m data = some m') :
    m'.getNode localId = m.getNode localId := by
  unfold gossipItem at h
  split at h
  · cases h
  · rename_i hfield
    split at h
    · split at h
      · rw [Option.some.inj h]
      · rename_i hid
        obtain ⟨incoming, hfrom, hmerge⟩ := Option.bind_eq_some_iff.mp h
        have hname := (fromDict_nodeId hfrom).symm.trans hfield
        rw [Option.some.injEq, Json.str.injEq] at hname
        exact getNode_merge (hname ▸ hid) hmerge
    · cases h

theorem getNode_handleGossip (membersData : List Json) :
    (handleGossip localId now m membersData).1.getNode localId = m.getNode localId := by
  induction membersData generalizing m with
  | nil => rfl
  | cons data membersData ih =>
    rw [handleGossip]
    split
    · rfl
    · rename_i hitem
      rw [ih, getNode_gossipItem hitem]

theorem HasOwn.updateHeartbeat (h : HasOwn own m) (nodeId : String) :
    HasOwn own (m.updateHeartbeat now nodeId) := by
  unfold MembershipManager.updateHeartbeat
  split
  · exact h
  · rename_i node hget
    refine h.put fun hid => ?_
    have hentry := h.entry_of_named hget hid
    refine ⟨?_, hentry.host, hentry.clientPort, hentry.clusterPort⟩
    show (if node.state = .suspect then NodeState.alive else node.state) = .alive
    rw [hentry.state]
    rfl

theorem HasOwn.setNodeRole (h : HasOwn own m) (nodeId : String) (role : NodeRole) :
    HasOwn own (m.setNodeRole nodeId role) := by
  unfold MembershipManager.setNodeRole
  split
  · exact h
  · rename_i node hget
    refine h.put fun hid => ?_
    have hentry := h.entry_of_named hget hid
    exact ⟨hentry.state, hentry.host, hentry.clientPort, hentry.clusterPort⟩

theorem HasOwn.removeNode (h : HasOwn own m) (nodeId : String) :
    HasOwn own (m.removeNode own.nodeId nodeId) := by
  unfold MembershipManager.removeNode
  split
  · exact h
  · rename_i hid
    refine (hasOwn_congr ?_).mpr h
    show (m.members.erase nodeId).get? own.nodeId = m.members.get? own.nodeId
    rw [Dict.get?_erase, if_neg (Ne.symm hid)]

/-- The entry of the node itself is only stamped by a health check. -/
theorem HasOwn.checkNodes {failureTimeout deadTimeout : Time} (h : HasOwn own m)
    {nodes : List NodeInfo} (hnodes : ∀ n ∈ nodes, n.nodeId = own.nodeId → IsOwn own n) :
    HasOwn own (checkNodes own.nodeId now failureTimeout deadTimeout m nodes) := by
  induction nodes generalizing m with
  | nil => exact h
  | cons node nodes ih =>
    rw [MembershipManager.checkNodes]
    split
    · exact h
    · rename_i node' hcheck
      refine ih (h.put fun hid => ?_) fun n hn => hnodes n (List.mem_cons_of_mem _ hn)
      unfold checkNode at hcheck
      split at hcheck
      · rename_i hown
        have hentry := hnodes node List.mem_cons_self hown
        rw [← Option.some.inj hcheck]
        exact ⟨hentry.state, hentry.host, hentry.clientPort, hentry.clusterPort⟩
      · rename_i hother
        -- a check changes no id, so that this is not the node itself
        obtain ⟨beat, -, rfl⟩ := Option.map_eq_some_iff.mp hcheck
        refine absurd ?_ hother
        rw [← hid]
        simp only
        split
        · split <;> rfl
        · split <;> rfl
        · rfl

theorem HasOwn.checkNodeHealth (h : HasOwn own m) (failureTimeout deadTimeout : Time) :
    HasOwn own (checkNodeHealth own.nodeId now failureTimeout deadTimeout m) := by
  refine h.checkNodes fun n hn hid => ?_
  obtain ⟨⟨k, n'⟩, hitem, rfl⟩ := List.mem_map.mp hn
  have hget := (m.members.mem_items_iff k n').mp hitem
  exact h.entry_of_named hget hid

theorem HasOwn.heartbeatOf (h : HasOwn own m) (sender : Json) :
    HasOwn own (heartbeatOf now m sender) := by
  unfold LocalEntry.heartbeatOf
  split
  · exact h.updateHeartbeat _
  · exact h

theorem HasOwn.gossipThenHeartbeat (h : HasOwn own m) (members sender : Json) :
    HasOwn own (gossipThenHeartbeat own.nodeId now m members sender) := by
  unfold LocalEntry.gossipThenHeartbeat
  split
  · exact h
  · rename_i membersData _
    have hgossip : HasOwn own (handleGossip own.nodeId now m membersData).1 :=
      (hasOwn_congr (getNode_handleGossip membersData)).mpr h
    simp only
    split
    · exact hgossip.heartbeatOf sender
    · exact hgossip

theorem HasOwn.handleJoinReply (h : HasOwn own m) (payload : Json) :
    HasOwn own (handleJoinReply own.nodeId now m payload) := by
  unfold LocalEntry.handleJoinReply
  split
  · split
    · exact h
    · exact (hasOwn_congr (getNode_handleGossip _)).mpr h
  · exact h

theorem HasOwn.afterElection (h : HasOwn own m) (answer : ElectionAnswer) :
    HasOwn own (afterElection own.nodeId m answer) := by
  unfold LocalEntry.afterElection
  split
  · exact h.setNodeRole _ _
  · exact h

theorem HasOwn.handleHeartbeat (h : HasOwn own m) (payload sender : Json)
    (answer : ElectionAnswer) :
    HasOwn own (handleHeartbeat own.nodeId now m payload sender answer) := by
  unfold LocalEntry.handleHeartbeat
  split
  · simp only
    split
    · exact h
    · refine HasOwn.gossipThenHeartbeat ?_ _ _
      split
      · exact h.afterElection answer
      · exact h
  · exact h

/-- What `add_node` does to the entry of the node itself. -/
theorem hasOwn_addNode_iff (h : HasOwn own m) (node : NodeInfo) :
    HasOwn own ((m.addNode node).getD m) ↔ (node.nodeId = own.nodeId →
      ∀ existing, m.getNode own.nodeId = some existing →
        greater node.incarnation existing.incarnation = some true → IsOwn own node) := by
  unfold MembershipManager.addNode
  by_cases hid : node.nodeId = own.nodeId
  · obtain ⟨existing, hget, hown⟩ := h
    have hentry : HasOwn own (m.put node) ↔ IsOwn own node := by
      unfold HasOwn
      simp only [getNode_put, hid, if_true, Option.some.injEq, exists_eq_left']
    have hkeep : HasOwn own m := ⟨existing, hget, hown⟩
    simp only [hid, hget, forall_const, Option.some.injEq, forall_eq']
    cases hgt : greater node.incarnation existing.incarnation with
    | none => exact iff_of_true hkeep fun hnone => by cases hnone
    | some isNewer =>
      cases isNewer with
      | false => exact iff_of_true hkeep fun hfalse => by cases hfalse
      | true =>
        show HasOwn own (m.put node) ↔ _
        rw [hentry]
        exact ⟨fun hown _ => hown, fun hown => hown rfl⟩
  · refine iff_of_true ?_ fun heq => absurd heq hid
    have hput : HasOwn own (m.put node) := h.put fun heq => absurd heq hid
    split
    · exact hput
    · cases greater node.incarnation _ with
      | none => exact h
      | some isNewer =>
        cases isNewer with
        | false => exact h
        | true => exact hput

/-- **A JOIN** keeps a true entry if and only if it spares it. -/
theorem hasOwn_handleJoin_iff (h : HasOwn own m) (payload : Json) :
    HasOwn own (handleJoin now m payload) ↔ Spares own m (.join now payload) := by
  unfold LocalEntry.handleJoin Spares
  cases hfrom : NodeInfo.fromDict now payload with
  | none =>
    refine iff_of_true h fun node existing hnode => ?_
    rw [hfrom] at hnode
    cases hnode
  | some node =>
    rw [Option.bind_some, hasOwn_addNode_iff h]
    constructor
    · intro hspares node' existing hnode hid
      obtain rfl := Option.some.inj (hfrom.symm.trans hnode)
      exact hspares hid existing
    · exact fun hspares hid existing => hspares node existing hfrom hid

/-- **One event** keeps a true entry if and only if it spares it. -/
theorem hasOwn_step_iff {m' : MembershipManager} (h : HasOwn own m) {ev : MemberEvent}
    (hs : step own.nodeId m ev = some m') : HasOwn own m' ↔ Spares own m ev := by
  cases ev with
  | heartbeat now payload sender answer =>
    obtain rfl := Option.some.inj hs
    exact iff_of_true (h.handleHeartbeat payload sender answer) trivial
  | gossip now payload sender =>
    obtain rfl := Option.some.inj hs
    refine iff_of_true ?_ trivial
    unfold handleGossipMessage
    split
    · exact h.gossipThenHeartbeat _ _
    · exact h
  | join now payload =>
    obtain rfl := Option.some.inj hs
    exact hasOwn_handleJoin_iff h payload
  | joinReply now payload =>
    obtain rfl := Option.some.inj hs
    exact iff_of_true (h.handleJoinReply payload) trivial
  | checkHealth now failureTimeout deadTimeout =>
    obtain rfl := Option.some.inj hs
    exact iff_of_true (h.checkNodeHealth failureTimeout deadTimeout) trivial
  | removeNode nodeId =>
    obtain rfl := Option.some.inj hs
    exact iff_of_true (h.removeNode nodeId) trivial
  | setRole nodeId role =>
    obtain rfl := Option.some.inj hs
    exact iff_of_true (h.setNodeRole nodeId role) trivial

/-- **Exactly when a node keeps its own entry**: from its start, in every run of cluster messages
    with any contents, health checks, removals and role changes, the table has an entry for the
    node itself that is ALIVE and carries its own host and ports, in every state that is reached,
    if and only if every JOIN spares it. -/
theorem local_entry_iff {own : NodeInfo} (halive : own.state = .alive) {t : MembershipManager}
    {evs : List MemberEvent} (he : exec (step own.nodeId) (start own) evs = some t) :
    Each (step own.nodeId) (fun _ _ m => HasOwn own m) (start own) evs ↔
      Along (step own.nodeId) (Spares own) (start own) evs := by
  have hstart : HasOwn own (start own) :=
    ⟨own, by rw [start, getNode_put, if_pos rfl], halive, rfl, rfl, rfl⟩
  exact each_inv_iff (fun m ev m' h hs => hasOwn_step_iff h hs) hstart he

/-! ### A JOIN in the node's own name -/

def ownNode : NodeInfo :=
  { nodeId := "a", host := .str "h", clientPort := .int 7001, clusterPort := .int 8001,
    lastHeartbeat := .int 0 }

/-- Another node with the same id, a higher incarnation and another host. -/
def otherNode : NodeInfo := { ownNode with host := .str "elsewhere", incarnation := .int 1 }

def takeover : MemberEvent := .join 0 otherNode.toDict

theorem local_entry_iff_sample :
    Each (step "a") (fun _ _ m => HasOwn ownNode m) (start ownNode) [takeover] ↔
      Along (step "a") (Spares ownNode) (start ownNode) [takeover] :=
  have halive : ownNode.state = .alive := rfl
  have hrun : exec (step ownNode.nodeId) (start ownNode) [takeover] =
      some (handleJoin 0 (start ownNode) otherNode.toDict) := rfl
  local_entry_iff halive hrun

/-- The node's own entry has the other host then. -/
theorem takeover_replaces_entry :
    ∃ m, exec (step "a") (start ownNode) [takeover] = some m ∧
      m.getNode ownNode.nodeId = some otherNode ∧ ¬ HasOwn ownNode m := by
  have hgreater : greater otherNode.incarnation ownNode.incarnation = some true := by
    have hnumber : ∀ n : Int, (Json.int n).number? ≠ none := fun _ => Option.some_ne_none _
    refine (NodeInfo.greater_number (hnumber 1) (hnumber 0)).trans (congrArg some ?_)
    exact decide_eq_true (by show ((0 : Int) : ℚ) < ((1 : Int) : ℚ); norm_num)
  have hjoin : handleJoin 0 (start ownNode) otherNode.toDict = (start ownNode).put otherNode := by
    have hget : (start ownNode).getNode otherNode.nodeId = some ownNode := rfl
    rw [handleJoin, NodeInfo.fromDict_toDict, Option.bind_some, addNode, hget]
    simp only [hgreater, Option.map_some, if_true, Option.getD_some]
  have hget : ((start ownNode).put otherNode).getNode ownNode.nodeId = some otherNode := rfl
  refine ⟨_, rfl, hjoin ▸ hget, ?_⟩
  rintro ⟨n, hn, hown⟩
  rw [hjoin, hget, Option.some.injEq] at hn
  have hhost := hown.host
  rw [← hn] at hhost
  exact absurd (Json.str.inj hhost) (by decide)

end MiniDb.LocalEntry
