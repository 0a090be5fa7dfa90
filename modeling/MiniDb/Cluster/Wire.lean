/-
  Cluster messages on the wire (`cluster/coordinator.py`): what coordinators send, as JSON
  messages, and `handle_cluster_message` on a message that has been decoded.

  `handle_delivers`: handling a message that a coordinator has built is, for the election, the
  store and the staged entries, what the cluster model does with its abstract message
  (`Node.handleMessage`), and the answer the sender reads from the reply is the model's. What it
  does to the membership table is a `MemberEvent`. Heartbeats and gossip are not answered.

  `wire_refines` puts this under `replies_match`: over the connections of two nodes, with chunks
  of any size and calls that give up, the receiver goes through deliveries of the sender's
  messages, each at most once, and every reply read is the answer to the message of its call.

  A field of another type than its sender writes is refused (`LineError.type`), where the source
  would go on with an ill-typed value; so is an `append_entries` message with an entry that does
  not parse, whose entries before that one the source would keep. The callback on following a
  leader runs at once.
-/
import MiniDb.Cluster.Records
import MiniDb.Cluster.System
import MiniDb.Network.Session
import MiniDb.Storage.AofText

namespace MiniDb

open Lib Lib.Json LocalEntry AofText

/-! ## Entries and nodes -/

namespace Command

def value : Command → String
  | .set => "SET"
  | .delete => "DELETE"

def ofValue (text : String) : Except LineError Command :=
  if text = "SET" then .ok .set
  else if text = "DELETE" then .ok .delete
  else .error .type

theorem ofValue_value (c : Command) : ofValue c.value = .ok c := by
  cases c <;> rfl

end Command

/-- `None` is written as `null`. -/
def orNull {α : Type} (f : α → Json) : Option α → Json
  | none => .null
  | some a => f a

def asNat : Json → Except LineError Nat
  | .int n => if 0 ≤ n then .ok n.toNat else .error .type
  | _ => .error .type

namespace LogEntry

def toDict (e : LogEntry) : Json :=
  .obj [("term", .int e.term), ("index", .int e.index), ("command", .str e.command.value),
    ("key", .str e.key), ("value", e.value), ("ttl", orNull .int e.ttl),
    ("timestamp", .float e.timestamp), ("version", .int e.version),
    ("expires_at", orNull .float e.expiresAt), ("created_at", orNull .float e.createdAt),
    ("coordinator_id", .str e.coordinatorId)]

def fromDict (data : Json) : Except LineError LogEntry := do
  let term ← asNat (← item data "term")
  let index ← asNat (← item data "index")
  let command ← Command.ofValue (← asString (← item data "command"))
  let key ← asString (← item data "key")
  let ttl ← optional asInt (data.field? "ttl")
  let timestamp ← withDefault asTime 0 (data.field? "timestamp")
  let version ← withDefault asInt 1 (data.field? "version")
  let expiresAt ← optional asTime (data.field? "expires_at")
  let createdAt ← optional asTime (data.field? "created_at")
  let coordinatorId ← withDefault asString "" (data.field? "coordinator_id")
  return { term := term, index := index, command := command, key := key,
           value := (data.field? "value").getD .null, ttl := ttl, timestamp := timestamp,
           version := version, expiresAt := expiresAt, createdAt := createdAt,
           coordinatorId := coordinatorId }

/-- The values of the entry are values JSON can hold. -/
structure Sendable (F : FloatText) (e : LogEntry) : Prop where
  value : Printable F e.value
  timestamp : F.isFloat e.timestamp
  expiresAt : ∀ x ∈ e.expiresAt, F.isFloat x
  createdAt : ∀ x ∈ e.createdAt, F.isFloat x

theorem asNat_int (n : Nat) : asNat (.int n) = .ok n := by
  rw [asNat, if_pos (Int.natCast_nonneg n), Int.toNat_natCast]

theorem optional_int (x : Option Int) : optional asInt (some (orNull .int x)) = .ok x := by
  cases x <;> rfl

theorem optional_time (x : Option Time) : optional asTime (some (orNull .float x)) = .ok x := by
  cases x <;> rfl

/-- An entry that was sent is read as it was. -/
theorem fromDict_toDict (e : LogEntry) : fromDict e.toDict = .ok e := by
  have hitem : ∀ name v, e.toDict.field? name = some v → item e.toDict name = .ok v := by
    intro name v h
    unfold toDict at h ⊢
    rw [item, h]
  have hterm := hitem "term" _ rfl
  have hindex := hitem "index" _ rfl
  have hcommand := hitem "command" _ rfl
  have hkey := hitem "key" _ rfl
  have hvalue : e.toDict.field? "value" = some e.value := rfl
  have httl : e.toDict.field? "ttl" = some (orNull .int e.ttl) := rfl
  have htimestamp : e.toDict.field? "timestamp" = some (.float e.timestamp) := rfl
  have hversion : e.toDict.field? "version" = some (.int e.version) := rfl
  have hexpires : e.toDict.field? "expires_at" = some (orNull .float e.expiresAt) := rfl
  have hcreated : e.toDict.field? "created_at" = some (orNull .float e.createdAt) := rfl
  have hcoordinator : e.toDict.field? "coordinator_id" = some (.str e.coordinatorId) := rfl
  simp only [fromDict, hterm, hindex, hcommand, hkey, hvalue, httl, htimestamp, hversion, hexpires,
    hcreated, hcoordinator, asString, asNat_int, Command.ofValue_value, optional_int, optional_time,
    withDefault, asTime, asInt, Option.getD_some, bind, Except.bind, pure, Except.pure]

theorem printable_orNull {F : FloatText} {α : Type} {f : α → Json} {x : Option α}
    (h : ∀ a ∈ x, Printable F (f a)) : Printable F (orNull f x) := by
  cases x with
  | none => trivial
  | some a => exact h a rfl

theorem Sendable.toDict {F : FloatText} {e : LogEntry} (h : Sendable F e) :
    Printable F e.toDict :=
  ⟨trivial, trivial, trivial, trivial, h.value, printable_orNull fun _ _ => trivial, h.timestamp,
    trivial, printable_orNull h.expiresAt, printable_orNull h.createdAt, trivial, trivial⟩

end LogEntry

namespace NodeInfo

/-- A record that can be sent and compared: its stamps are numbers, and its values are values JSON
    can hold. -/
structure Carried (F : FloatText) (n : NodeInfo) : Prop where
  stamped : n.Stamped
  host : Printable F n.host
  clientPort : Printable F n.clientPort
  clusterPort : Printable F n.clusterPort
  lastHeartbeat : Printable F n.lastHeartbeat
  incarnation : Printable F n.incarnation

theorem Carried.toDict {F : FloatText} {n : NodeInfo} (h : Carried F n) : Printable F n.toDict :=
  ⟨trivial, h.host, h.clientPort, h.clusterPort, trivial, trivial, h.lastHeartbeat, h.incarnation,
    trivial⟩

end NodeInfo

/-! ## The handler -/

/-- What is sent back for a response. -/
def Response.message : Response → Network.Message
  | .ok data => Network.Protocol.createResponse true data .null
  | .error text => Network.Protocol.createResponse false .null (.str text)

def ReplicatePhase.value : ReplicatePhase → String
  | .prepare => "prepare"
  | .commit => "commit"

namespace ClusterCoordinator

/-- What `receive_heartbeat` makes of the callback `_on_become_follower`. -/
def electionAnswer (m : ElectionManager) (leaderId : String) (term : Nat) : ElectionAnswer :=
  if term < m.currentTerm then .ignored
  else if m.role ≠ .follower ∨ m.leaderId ≠ some leaderId then .follows
  else .ignored

/-- `handle_gossip`, then `update_heartbeat`; the flag says whether it ended without raising. -/
def hearMembers (localId : String) (clock : Time) (m : MembershipManager)
    (members sender : Json) : MembershipManager × Bool :=
  match iterate members with
  | none => (m, false)
  | some membersData =>
    let (m', ended) := m.handleGossip localId clock membersData
    if ended then (heartbeatOf clock m' sender, true) else (m', false)

/-- The leader a HEARTBEAT names is heard. -/
def hearLeader (m : ElectionManager) (leader term : Json) :
    Except LineError (ElectionManager × ElectionAnswer) :=
  if LocalEntry.truthy leader then do
    let leaderId ← asString leader
    let term ← asNat term
    return ((m.receiveHeartbeat leaderId term).1, electionAnswer m leaderId term)
  else return (m, .ignored)

def replyOf (ended : Bool) : Except LineError (Option Network.Message) :=
  if ended then .ok none else .error .value

def handleHeartbeat (clock : Time) (n : Node) (m : Network.Message) :
    Node × Except LineError (Option Network.Message) :=
  let leader := (m.payload.field? "leader_id").getD .null
  match hearLeader n.election leader m.term with
  | .error e => (n, .error e)
  | .ok (election, answer) =>
    let members := (m.payload.field? "members").getD (.arr [])
    let (table, ended) := hearMembers n.nodeId clock (afterElection n.nodeId n.membership answer)
      (if LocalEntry.truthy members then members else .arr []) m.senderId
    ({ n with election := election, membership := table }, replyOf ended)

def handleGossip (clock : Time) (n : Node) (m : Network.Message) :
    Node × Except LineError (Option Network.Message) :=
  let (table, ended) := hearMembers n.nodeId clock n.membership
    ((m.payload.field? "members").getD (.arr [])) m.senderId
  ({ n with membership := table }, replyOf ended)

def readVoteRequest (m : Network.Message) : Except LineError VoteRequest := do
  let candidateId ← asString m.senderId
  let term ← asNat m.term
  let lastLogIndex ← withDefault asNat 0 (m.payload.field? "last_log_index")
  let lastLogTerm ← withDefault asNat 0 (m.payload.field? "last_log_term")
  return ⟨candidateId, term, lastLogIndex, lastLogTerm⟩

def handleVoteRequest (n : Node) (m : Network.Message) :
    Node × Except LineError (Option Network.Message) :=
  match readVoteRequest m with
  | .error e => (n, .error e)
  | .ok r =>
    let (election, term, granted) := n.election.handleVoteRequest r
    ({ n with election := election },
      .ok (some (Network.Protocol.createVoteResponse n.nodeId term granted)))

def handleJoin (clock : Time) (n : Node) (m : Network.Message) :
    Node × Except LineError (Option Network.Message) :=
  match (NodeInfo.fromDict clock m.payload).bind n.membership.addNode with
  | none => (n, .error .value)
  | some table =>
    let members := Revival.getMembersData table
    ({ n with membership := table },
      .ok (some (Network.Protocol.createResponse true (.obj [("members", .arr members)]) .null)))

/-- `(payload.get("phase") or "prepare").lower()`, as far as it is "prepare". -/
def readPhase (phase : Json) : Except LineError ReplicatePhase :=
  if LocalEntry.truthy phase then
    (asString phase).map fun text => if text.toLower = "prepare" then .prepare else .commit
  else .ok .prepare

def readReplicate (m : Network.Message) : Except LineError (Option LogEntry × ReplicatePhase) :=
  let entryData := (m.payload.field? "entry").getD .null
  if LocalEntry.truthy entryData then do
    let entry ← LogEntry.fromDict entryData
    let phase ← readPhase ((m.payload.field? "phase").getD .null)
    return (some entry, phase)
  else return (none, .prepare)

def handleReplicate (clock : Time) (n : Node) (m : Network.Message) :
    Node × Except LineError (Option Network.Message) :=
  match readReplicate m with
  | .error e => (n, .error e)
  | .ok (entry, phase) =>
    let (n, response) := n.handleReplicate clock entry phase
    (n, .ok (some response.message))

def readAppendEntries (m : Network.Message) : Except LineError AppendRequest := do
  let leaderId ← asString m.senderId
  let term ← asNat m.term
  let prevLogIndex ← withDefault asNat 0 (m.payload.field? "prev_log_index")
  let prevLogTerm ← withDefault asNat 0 (m.payload.field? "prev_log_term")
  let entries ← match (m.payload.field? "entries").getD (.arr []) with
    | .arr items => items.mapM LogEntry.fromDict
    | _ => .error .type
  let leaderCommit ← withDefault asNat 0 (m.payload.field? "leader_commit")
  return ⟨leaderId, term, prevLogIndex, prevLogTerm, entries, leaderCommit⟩

/-- The answer to an `append_entries` message. -/
def appendResponse (senderId : String) (answer : Nat × Bool × Nat) : Network.Message :=
  { msgType := .appendResponse
    payload := .obj [("success", .bool answer.2.1), ("match_index", .int answer.2.2)]
    senderId := .str senderId
    term := .int answer.1 }

def handleAppendEntries (clock : Time) (n : Node) (m : Network.Message) :
    Node × Except LineError (Option Network.Message) :=
  match readAppendEntries m with
  | .error e => (n, .error e)
  | .ok r =>
    let (election, applied, answer) := n.election.handleAppendEntries r
    let table := afterElection n.nodeId n.membership (electionAnswer n.election r.leaderId r.term)
    let n := applied.foldl (Node.applyLogEntry clock)
      { n with election := election, membership := table }
    match answer with
    | none => (n, .error .value)
    | some answer => (n, .ok (some (appendResponse n.nodeId answer)))

/-- `handle_cluster_message`; a payload that is no object has no `get`. -/
def handleClusterMessage (clock : Time) (n : Node) (m : Network.Message) :
    Node × Except LineError (Option Network.Message) :=
  match m.msgType, m.payload with
  | .heartbeat, .obj _ => handleHeartbeat clock n m
  | .voteRequest, .obj _ => handleVoteRequest n m
  | .gossip, .obj _ => handleGossip clock n m
  | .join, .obj _ => handleJoin clock n m
  | .replicate, .obj _ => handleReplicate clock n m
  | .appendEntries, .obj _ => handleAppendEntries clock n m
  | .heartbeat, _ => (n, .error .type)
  | .voteRequest, _ => (n, .error .type)
  | .gossip, _ => (n, .error .type)
  | .join, _ => (n, .error .type)
  | .replicate, _ => (n, .error .type)
  | .appendEntries, _ => (n, .error .type)
  | _, _ => (n, .ok none)

/-! ## What coordinators send -/

/-- The messages of a coordinator; heartbeats and gossip carry its membership table. -/
inductive Outgoing where
  /-- `_send_heartbeats` -/
  | heartbeat (term : Nat) (table : MembershipManager)
  /-- `_send_gossip` -/
  | gossip (term : Nat) (isLeader : Bool) (table : MembershipManager)
  /-- `_request_votes` -/
  | voteRequest (term lastLogIndex lastLogTerm : Nat)
  /-- `join_cluster` -/
  | join (localNode : NodeInfo)
  /-- `_send_replicate` and `commit_to_followers` -/
  | replicate (term : Nat) (e : LogEntry) (phase : ReplicatePhase)

namespace Outgoing

/-- `_send_gossip` sets the term and, at a leader, one more field. -/
def gossipMessage (nodeId : String) (term : Nat) (isLeader : Bool) (members : List Json) :
    Network.Message :=
  { Network.Protocol.createGossip nodeId members with
    payload := .obj ([("members", .arr members)] ++
      if isLeader then [("leader_id", .str nodeId)] else [])
    term := .int term }

def message (nodeId : String) : Outgoing → Network.Message
  | .heartbeat term table =>
    Network.Protocol.createHeartbeat nodeId term nodeId (Revival.getMembersData table)
  | .gossip term isLeader table =>
    gossipMessage nodeId term isLeader (Revival.getMembersData table)
  | .voteRequest term lastLogIndex lastLogTerm =>
    Network.Protocol.createVoteRequest nodeId term lastLogIndex lastLogTerm
  | .join localNode =>
    { msgType := .join, payload := localNode.toDict, senderId := .str nodeId }
  | .replicate term e phase =>
    Network.Protocol.createReplicate nodeId term e.toDict phase.value

/-- The message of the cluster model. -/
def abstract (nodeId : String) : Outgoing → Option Message
  | .heartbeat term _ => some (.heartbeat nodeId term)
  | .gossip _ _ _ => none
  | .voteRequest term lastLogIndex lastLogTerm =>
    some (.voteRequest ⟨nodeId, term, lastLogIndex, lastLogTerm⟩)
  | .join _ => none
  | .replicate _ e phase => some (.replicate e phase)

/-- What the message does to the table of a node that handles it. -/
def memberEvent (nodeId : String) (clock : Time) (n : Node) (o : Outgoing) : Option MemberEvent :=
  match o with
  | .heartbeat term _ =>
    some (.heartbeat clock (o.message nodeId).payload (.str nodeId)
      (electionAnswer n.election nodeId term))
  | .gossip _ _ _ => some (.gossip clock (o.message nodeId).payload (.str nodeId))
  | .join _ => some (.join clock (o.message nodeId).payload)
  | _ => none

/-- A message whose sender waits for the reply. -/
def waits : Outgoing → Bool
  | .heartbeat _ _ => false
  | .gossip _ _ _ => false
  | _ => true

/-- What the sender reads from the reply; a campaign reads `vote_granted`. -/
def accepted (o : Outgoing) (reply : Option Network.Message) : Bool :=
  let field := match o with
    | .voteRequest _ _ _ => "vote_granted"
    | _ => "success"
  reply.any fun r => LocalEntry.truthy ((r.payload.field? field).getD .null)

end Outgoing

/-- Every record of the table can be sent and compared. -/
abbrev AllCarried (F : FloatText) (m : MembershipManager) : Prop := m.All (NodeInfo.Carried F)

/-- The values of the message are values JSON can hold, and its records can be compared. -/
def Outgoing.WellFormed (F : FloatText) : Outgoing → Prop
  | .heartbeat _ table => AllCarried F table
  | .gossip _ _ table => AllCarried F table
  | .voteRequest _ _ _ => True
  | .join localNode => localNode.Carried F
  | .replicate _ e _ => e.Sendable F

/-- A node has handled a message of another, as the cluster model and the table say. -/
structure Delivered (clock : Time) (n n' : Node) (nodeId : String) (o : Outgoing)
    (reply : Option Network.Message) : Prop where
  node : { n' with membership := n.membership } =
    ((o.abstract nodeId).map fun m => (n.handleMessage clock m).1).getD n
  table : ((o.memberEvent nodeId clock n).bind (LocalEntry.step n.nodeId n.membership)).getD
    n.membership = n'.membership
  answer : ∀ m, o.abstract nodeId = some m → o.accepted reply = (n.handleMessage clock m).2
  silent : o.waits = false → reply = none

/-! ## The membership table -/

section Table

variable {F : FloatText} {m : MembershipManager} (localId : String)

theorem carried_heard {clock : Time} (hclock : F.isFloat clock) (n : NodeInfo)
    (hn : n.Carried F) : (Revival.heard clock n).Carried F :=
  { hn with
    stamped := ⟨hn.stamped.1, fun hnumber => by cases hnumber⟩
    lastHeartbeat := hclock }

theorem AllCarried.afterElection (h : AllCarried F m) (answer : ElectionAnswer) :
    AllCarried F (afterElection localId m answer) := by
  cases answer with
  | follows => exact h.setNodeRole fun n hn => { hn with }
  | raised => exact h
  | ignored => exact h

theorem printableItems_map {F : FloatText} {α : Type} {f : α → Json} {xs : List α}
    (h : ∀ x ∈ xs, Printable F (f x)) : PrintableItems F (xs.map f) := by
  induction xs with
  | nil => trivial
  | cons x xs ih =>
    exact ⟨h x List.mem_cons_self, ih fun y hy => h y (List.mem_cons_of_mem _ hy)⟩

theorem printable_members (h : AllCarried F m) :
    PrintableItems F (Revival.getMembersData m) :=
  printableItems_map fun _ hr => (h.mem_items hr).toDict

/-- A table that was sent is heard without raising. -/
theorem hearMembers_table (h : AllCarried F m) {clock : Time} (hclock : F.isFloat clock)
    {table : MembershipManager} (htable : AllCarried F table) (nodeId : String) :
    ∃ m', hearMembers localId clock m (.arr (Revival.getMembersData table)) (.str nodeId) =
        (m', true) ∧ AllCarried F m' ∧
      gossipThenHeartbeat localId clock m (.arr (Revival.getMembersData table)) (.str nodeId) =
        m' := by
  obtain ⟨m₁, hgossip, hm₁, -⟩ := h.handleGossip (fun n hn => hn.stamped) localId clock
    fun r hr => htable.mem_items hr
  refine ⟨m₁.updateHeartbeat clock nodeId, ?_, hm₁.updateHeartbeat (carried_heard hclock), ?_⟩
  · simp only [hearMembers, iterate, Revival.getMembersData, hgossip, if_true, heartbeatOf]
  · simp only [gossipThenHeartbeat, iterate, Revival.getMembersData, hgossip, if_true,
      heartbeatOf]

end Table

/-! ## Handling what a coordinator sent -/

section Handling

variable {F : FloatText} {clock : Time} {n : Node} {nodeId : String}

/-- What a handled message leaves: the delivery, a table as before, and a reply that can be
    sent. -/
structure Handles (F : FloatText) (clock : Time) (n : Node) (nodeId : String) (o : Outgoing)
    (result : Node × Except LineError (Option Network.Message)) (reply : Option Network.Message) :
    Prop where
  ends : result.2 = .ok reply
  delivered : Delivered clock n result.1 nodeId o reply
  carried : AllCarried F result.1.membership
  sendable : ∀ r ∈ reply, r.Sendable F

theorem ite_truthy_arr (items : List Json) :
    (if LocalEntry.truthy (.arr items) then Json.arr items else .arr []) = .arr items := by
  cases items <;> rfl

theorem handleGossip_eq {m : Network.Message} {members : Json} {m' : MembershipManager}
    (hmembers : m.payload.field? "members" = some members)
    (hhear : hearMembers n.nodeId clock n.membership members m.senderId = (m', true)) :
    handleGossip clock n m = ({ n with membership := m' }, .ok none) := by
  unfold handleGossip
  rw [hmembers, Option.getD_some, hhear]
  rfl

theorem gossipEvent_eq {m m' : MembershipManager} {fields : List (String × Json)}
    {members sender : Json} (hmembers : (Json.obj fields).field? "members" = some members)
    (hhear : gossipThenHeartbeat nodeId clock m members sender = m') :
    LocalEntry.step nodeId m (.gossip clock (.obj fields) sender) = some m' := by
  unfold LocalEntry.step LocalEntry.handleGossipMessage
  simp only
  rw [hmembers, Option.getD_some, hhear]

theorem handles_gossip (hn : AllCarried F n.membership) (hclock : F.isFloat clock) (term : Nat)
    (isLeader : Bool) {table : MembershipManager} (htable : AllCarried F table) :
    Handles F clock n nodeId (.gossip term isLeader table)
      (handleClusterMessage clock n ((Outgoing.gossip term isLeader table).message nodeId))
      none := by
  have hmembers : (Outgoing.gossipMessage nodeId term isLeader
      (Revival.getMembersData table)).payload.field? "members" =
      some (.arr (Revival.getMembersData table)) := by
    cases isLeader <;> rfl
  obtain ⟨m', hhear, hm', htold⟩ := hearMembers_table n.nodeId hn hclock htable nodeId
  have hresult : handleClusterMessage clock n
      ((Outgoing.gossip term isLeader table).message nodeId) =
        ({ n with membership := m' }, .ok none) := handleGossip_eq hmembers hhear
  have hevent := gossipEvent_eq hmembers htold
  rw [hresult]
  exact
    { ends := rfl
      delivered :=
        { node := rfl
          table := congrArg (Option.getD · n.membership) hevent
          answer := fun m hm => by cases hm
          silent := fun _ => rfl }
      carried := hm'
      sendable := fun r hr => by cases hr }

/-- What the election manager makes of a HEARTBEAT, and what it says to the table. -/
def heardFrom (m : ElectionManager) (leaderId : String) (term : Nat) :
    ElectionManager × ElectionAnswer :=
  if leaderId = "" then (m, .ignored)
  else ((m.receiveHeartbeat leaderId term).1, electionAnswer m leaderId term)

theorem hearLeader_str (m : ElectionManager) (leaderId : String) (term : Nat) :
    hearLeader m (.str leaderId) (.int term) = .ok (heardFrom m leaderId term) := by
  unfold hearLeader heardFrom LocalEntry.truthy
  by_cases hempty : leaderId = ""
  · rw [if_pos hempty, if_neg (by simpa using hempty)]
    rfl
  · rw [if_neg hempty, if_pos (by simpa using hempty)]
    simp only [asString, LogEntry.asNat_int, bind, Except.bind, pure, Except.pure]

theorem electionAnswer_ne_raised (m : ElectionManager) (leaderId : String) (term : Nat) :
    electionAnswer m leaderId term ≠ .raised := by
  unfold electionAnswer
  split_ifs <;> decide

theorem handleHeartbeat_eq {m : Network.Message} {leaderId : String} {term : Nat}
    {members : List Json} {m' : MembershipManager}
    (hleader : m.payload.field? "leader_id" = some (.str leaderId)) (hterm : m.term = .int term)
    (hmembers : m.payload.field? "members" = some (.arr members))
    (hhear : hearMembers n.nodeId clock
      (afterElection n.nodeId n.membership (heardFrom n.election leaderId term).2) (.arr members)
      m.senderId = (m', true)) :
    handleHeartbeat clock n m =
      ({ n with election := (heardFrom n.election leaderId term).1, membership := m' },
        .ok none) := by
  unfold handleHeartbeat
  rw [hleader, hterm, hmembers]
  simp only [Option.getD_some, hearLeader_str, ite_truthy_arr, hhear, replyOf, if_true]

theorem heartbeatEvent_eq {e : ElectionManager} {m m' : MembershipManager} {localId : String}
    {fields : List (String × Json)} {leaderId : String} {term : Nat} {members : List Json}
    {sender : Json} (hleader : (Json.obj fields).field? "leader_id" = some (.str leaderId))
    (hmembers : (Json.obj fields).field? "members" = some (.arr members))
    (hhear : gossipThenHeartbeat localId clock
      (afterElection localId m (heardFrom e leaderId term).2) (.arr members) sender = m') :
    LocalEntry.step localId m
      (.heartbeat clock (.obj fields) sender (electionAnswer e leaderId term)) = some m' := by
  have hraised : ¬ (LocalEntry.truthy (.str leaderId) = true ∧
      electionAnswer e leaderId term = .raised) :=
    fun h => electionAnswer_ne_raised e leaderId term h.2
  unfold LocalEntry.step LocalEntry.handleHeartbeat
  simp only
  rw [hleader, hmembers, Option.getD_some, Option.getD_some, if_neg hraised, ite_truthy_arr,
    ← hhear]
  unfold heardFrom LocalEntry.truthy
  by_cases hempty : leaderId = ""
  · simp only [hempty, ne_eq, not_true_eq_false, decide_false, if_true, Bool.false_eq_true,
      if_false, afterElection]
  · simp only [hempty, ne_eq, not_false_eq_true, decide_true, if_true, if_false]

theorem handles_heartbeat (hn : AllCarried F n.membership) (hclock : F.isFloat clock) (term : Nat)
    {table : MembershipManager} (htable : AllCarried F table) :
    Handles F clock n nodeId (.heartbeat term table)
      (handleClusterMessage clock n ((Outgoing.heartbeat term table).message nodeId)) none := by
  obtain ⟨m', hhear, hm', htold⟩ := hearMembers_table n.nodeId
    (hn.afterElection n.nodeId (heardFrom n.election nodeId term).2) hclock htable nodeId
  have hresult : handleClusterMessage clock n ((Outgoing.heartbeat term table).message nodeId) =
      ({ n with election := (heardFrom n.election nodeId term).1, membership := m' }, .ok none) :=
    handleHeartbeat_eq rfl rfl rfl hhear
  have hevent : LocalEntry.step n.nodeId n.membership
      (.heartbeat clock ((Outgoing.heartbeat term table).message nodeId).payload (.str nodeId)
        (electionAnswer n.election nodeId term)) = some m' :=
    heartbeatEvent_eq rfl rfl htold
  have hnode : n.handleMessage clock (.heartbeat nodeId term) =
      ({ n with election := (heardFrom n.election nodeId term).1 }, false) := by
    unfold Node.handleMessage heardFrom
    by_cases hempty : nodeId = ""
    · simp only [hempty, if_true]
    · simp only [hempty, if_false]
  rw [hresult]
  exact
    { ends := rfl
      delivered :=
        { node := (congrArg Prod.fst hnode).symm
          table := congrArg (Option.getD · n.membership) hevent
          answer := fun m hm => by
            obtain rfl := Option.some.inj hm
            exact (congrArg Prod.snd hnode).symm
          silent := fun _ => rfl }
      carried := hm'
      sendable := fun r hr => by cases hr }

theorem handles_voteRequest (hn : AllCarried F n.membership) (term lastLogIndex lastLogTerm : Nat) :
    ∃ reply, Handles F clock n nodeId (.voteRequest term lastLogIndex lastLogTerm)
      (handleClusterMessage clock n
        ((Outgoing.voteRequest term lastLogIndex lastLogTerm).message nodeId)) (some reply) := by
  set r : VoteRequest := ⟨nodeId, term, lastLogIndex, lastLogTerm⟩ with hr
  set m := (Outgoing.voteRequest term lastLogIndex lastLogTerm).message nodeId with hm
  have hindex : m.payload.field? "last_log_index" = some (.int lastLogIndex) := rfl
  have hterm : m.payload.field? "last_log_term" = some (.int lastLogTerm) := rfl
  have hread : readVoteRequest m = .ok r := by
    unfold readVoteRequest
    rw [hindex, hterm]
    simp only [hm, Outgoing.message, Network.Protocol.createVoteRequest, asString, withDefault,
      LogEntry.asNat_int, bind, Except.bind, pure, Except.pure, hr]
  set after := n.election.handleVoteRequest r with hafter
  set reply := Network.Protocol.createVoteResponse n.nodeId after.2.1 after.2.2 with hreply
  have hresult : handleClusterMessage clock n m =
      ({ n with election := after.1 }, .ok (some reply)) := by
    change handleVoteRequest n m = _
    unfold handleVoteRequest
    rw [hread]
  have hnode : n.handleMessage clock (.voteRequest r) =
      ({ n with election := after.1 }, after.2.2) := rfl
  refine ⟨reply, ?_⟩
  rw [hresult]
  exact
    { ends := rfl
      delivered :=
        { node := (congrArg Prod.fst hnode).symm
          table := rfl
          answer := fun m hm => by
            obtain rfl := Option.some.inj hm
            exact (congrArg Prod.snd hnode).symm
          silent := fun h => by cases h }
      carried := hn
      sendable := fun r hr => by
        obtain rfl := Option.some.inj hr
        exact ⟨⟨trivial, trivial⟩, trivial, trivial, trivial⟩ }

theorem handles_join (hn : AllCarried F n.membership) {localNode : NodeInfo}
    (hnode : localNode.Carried F) :
    ∃ reply, Handles F clock n nodeId (.join localNode)
      (handleClusterMessage clock n ((Outgoing.join localNode).message nodeId)) (some reply) := by
  obtain ⟨table, hadd, htable⟩ := hn.addNode (fun n hn => hn.stamped) hnode
  set data := Json.obj [("members", .arr (Revival.getMembersData table))] with hdata
  have hparsed : (NodeInfo.fromDict clock localNode.toDict).bind n.membership.addNode =
      some table := by
    rw [NodeInfo.fromDict_toDict, Option.bind_some, hadd]
  have hresult : handleClusterMessage clock n ((Outgoing.join localNode).message nodeId) =
      ({ n with membership := table },
        .ok (some (Network.Protocol.createResponse true data .null))) := by
    change handleJoin clock n ((Outgoing.join localNode).message nodeId) = _
    unfold handleJoin
    rw [show ((Outgoing.join localNode).message nodeId).payload = localNode.toDict from rfl,
      hparsed]
  have hevent : LocalEntry.step n.nodeId n.membership (.join clock localNode.toDict) =
      some table := by
    unfold LocalEntry.step LocalEntry.handleJoin
    simp only
    rw [hparsed, Option.getD_some]
  refine ⟨Network.Protocol.createResponse true data .null, ?_⟩
  rw [hresult]
  exact
    { ends := rfl
      delivered :=
        { node := rfl
          table := congrArg (Option.getD · n.membership) hevent
          answer := fun m hm => by cases hm
          silent := fun h => by cases h }
      carried := htable
      sendable := fun r hr => by
        obtain rfl := Option.some.inj hr
        exact ⟨⟨trivial, ⟨printable_members htable, trivial⟩, trivial, trivial⟩, trivial, trivial,
          trivial⟩ }

theorem readPhase_value (phase : ReplicatePhase) : readPhase (.str phase.value) = .ok phase := by
  cases phase <;> decide +kernel

theorem handles_replicate (hn : AllCarried F n.membership) (term : Nat) (e : LogEntry)
    (phase : ReplicatePhase) :
    ∃ reply, Handles F clock n nodeId (.replicate term e phase)
      (handleClusterMessage clock n ((Outgoing.replicate term e phase).message nodeId))
      (some reply) := by
  set m := (Outgoing.replicate term e phase).message nodeId with hm
  have hentry : m.payload.field? "entry" = some e.toDict := rfl
  have hphase : m.payload.field? "phase" = some (.str phase.value) := rfl
  have hread : readReplicate m = .ok (some e, phase) := by
    have htruthy : LocalEntry.truthy e.toDict = true := rfl
    unfold readReplicate
    rw [hentry, hphase]
    simp only [Option.getD_some, htruthy, if_true, LogEntry.fromDict_toDict, readPhase_value,
      bind, Except.bind, pure, Except.pure]
  set after := n.handleReplicate clock (some e) phase with hafter
  have hdone : after.2 = .ok (.obj [("success", .bool true)]) ∧
      after.1.membership = n.membership := by
    cases phase with
    | prepare => exact ⟨rfl, rfl⟩
    | commit => exact ⟨rfl, rfl⟩
  have hresult : handleClusterMessage clock n m = (after.1, .ok (some after.2.message)) := by
    change handleReplicate clock n m = _
    unfold handleReplicate
    rw [hread]
  refine ⟨after.2.message, ?_⟩
  rw [hresult]
  exact
    { ends := rfl
      delivered :=
        { node := by
            change { after.1 with membership := n.membership } = after.1
            rw [← hdone.2]
          table := hdone.2.symm
          answer := fun m hm => by
            obtain rfl := Option.some.inj hm
            change _ = after.2.success
            rw [hdone.1]
            rfl
          silent := fun h => by cases h }
      carried := hdone.2.symm ▸ hn
      sendable := fun r hr => by
        obtain rfl := Option.some.inj hr
        rw [hdone.1]
        exact ⟨⟨trivial, ⟨trivial, trivial⟩, trivial, trivial⟩, trivial, trivial, trivial⟩ }

/-- **A message of a coordinator is handled as the cluster model says**, whatever the node's state:
    the handler ends without raising, does to the node what `Node.handleMessage` does and to the
    table what its `MemberEvent` does, and answers what the model answers. -/
theorem handle_delivers (nodeId : String) (hn : AllCarried F n.membership)
    (hclock : F.isFloat clock) {o : Outgoing} (ho : o.WellFormed F) :
    ∃ reply, Handles F clock n nodeId o (handleClusterMessage clock n (o.message nodeId))
      reply := by
  cases o with
  | heartbeat term table => exact ⟨none, handles_heartbeat hn hclock term ho⟩
  | gossip term isLeader table => exact ⟨none, handles_gossip hn hclock term isLeader ho⟩
  | voteRequest term lastLogIndex lastLogTerm =>
    obtain ⟨reply, h⟩ := handles_voteRequest hn term
      lastLogIndex lastLogTerm
    exact ⟨some reply, h⟩
  | join localNode =>
    obtain ⟨reply, h⟩ := handles_join hn ho
    exact ⟨some reply, h⟩
  | replicate term e phase =>
    obtain ⟨reply, h⟩ := handles_replicate hn term e phase
    exact ⟨some reply, h⟩

end Handling

/-! ## Over a connection -/

theorem Outgoing.sendable {F : FloatText} {o : Outgoing} (ho : o.WellFormed F) (nodeId : String) :
    (o.message nodeId).Sendable F := by
  cases o with
  | heartbeat term table =>
    exact ⟨⟨trivial, printable_members ho, trivial⟩, trivial, trivial, trivial⟩
  | gossip term isLeader table =>
    cases isLeader with
    | false => exact ⟨⟨printable_members ho, trivial⟩, trivial, trivial, trivial⟩
    | true => exact ⟨⟨printable_members ho, trivial, trivial⟩, trivial, trivial, trivial⟩
  | voteRequest term lastLogIndex lastLogTerm =>
    exact ⟨⟨trivial, trivial, trivial⟩, trivial, trivial, trivial⟩
  | join localNode => exact ⟨NodeInfo.Carried.toDict ho, trivial, trivial, trivial⟩
  | replicate term e phase =>
    exact ⟨⟨LogEntry.Sendable.toDict ho, trivial, trivial⟩, trivial, trivial, trivial⟩

/-- The handler of a node's cluster port, with its clock: the fault injector may drop a message,
    which is not answered then, and what is not dropped goes to the coordinator. -/
structure ClusterPort {η : Type} (F : FloatText) (handler : Network.Handler η) (node : η → Node)
    (clock : η → Time) (dropped : η → Network.Message → Bool) : Prop where
  isFloat : ∀ s, F.isFloat (clock s)
  drops : ∀ s m, dropped s m = true → node (handler s m).1 = node s ∧ (handler s m).2 = .ok none
  handles : ∀ s m reply, dropped s m = false →
    (handleClusterMessage (clock s) (node s) m).2 = .ok reply →
    node (handler s m).1 = (handleClusterMessage (clock s) (node s) m).1 ∧
      (handler s m).2 = .ok reply

section Refinement

open Network Network.Session

variable {η : Type} {F : FloatText} {handler : Handler η} {node : η → Node} {clock : η → Time}
  {dropped : η → Network.Message → Bool} {errorText : DecodeError → String} {nodeId : String}

/-- A message of the coordinator `nodeId`. -/
def IsOutgoing (F : FloatText) (nodeId : String) (m : Network.Message) : Prop :=
  ∃ o : Outgoing, o.WellFormed F ∧ o.message nodeId = m

/-- A message comes to the handler in the state `s`: it is dropped, or delivered. -/
def Comes (F : FloatText) (handler : Handler η) (node : η → Node) (clock : η → Time)
    (nodeId : String) (s : η) (m : Network.Message) (replies : List Network.Message) : Prop :=
  ∃ o : Outgoing, o.WellFormed F ∧ o.message nodeId = m ∧
    ((node (handler s m).1 = node s ∧ replies = []) ∨
      ∃ reply, Delivered (clock s) (node s) (node (handler s m).1) nodeId o reply ∧
        replies = reply.toList)

theorem ClusterPort.comes (h : ClusterPort F handler node clock dropped) {s : η}
    (hs : AllCarried F (node s).membership) {m : Network.Message} (hm : IsOutgoing F nodeId m) :
    Comes F handler node clock nodeId s m (responses (handler s m).2) ∧
      AllCarried F (node (handler s m).1).membership ∧
      ∀ r ∈ responses (handler s m).2, r.Sendable F := by
  obtain ⟨o, ho, rfl⟩ := hm
  cases hdropped : dropped s (o.message nodeId) with
  | true =>
    obtain ⟨hnode, hnone⟩ := h.drops s _ hdropped
    rw [hnone]
    refine ⟨⟨o, ho, rfl, .inl ⟨hnode, rfl⟩⟩, hnode ▸ hs, fun r hr => by cases hr⟩
  | false =>
    obtain ⟨reply, hdone⟩ := handle_delivers nodeId hs (h.isFloat s) ho
    obtain ⟨hnode, hreply⟩ := h.handles s _ reply hdropped hdone.ends
    have hreplies : responses (handler s (o.message nodeId)).2 = reply.toList := by
      rw [hreply]
      cases reply <;> rfl
    rw [hreplies]
    refine ⟨⟨o, ho, rfl, .inr ⟨reply, hnode ▸ hdone.delivered, rfl⟩⟩, hnode ▸ hdone.carried,
      fun r hr => hdone.sendable r ?_⟩
    exact Option.mem_toList.mp hr

/-- A coordinator waits for replies to its requests only. -/
def Sends (F : FloatText) (nodeId : String) : Label → Prop
  | .call m _ => ∃ o : Outgoing, o.WellFormed F ∧ o.waits = true ∧ o.message nodeId = m
  | .notify m _ => ∃ o : Outgoing, o.WellFormed F ∧ o.waits = false ∧ o.message nodeId = m
  | .unsent _ k _ => k = 0
  | _ => True

theorem ClusterPort.serves (h : ClusterPort F handler node clock dropped) :
    Serves F handler (IsOutgoing F nodeId) fun s => AllCarried F (node s).membership where
  sendable m hm := by
    obtain ⟨o, ho, rfl⟩ := hm
    exact o.sendable ho nodeId
  keeps s m hs hm := (h.comes hs hm).2.1
  answers s m r hs hm hr := (h.comes hs hm).2.2 r (by rw [hr]; exact List.mem_singleton_self r)

theorem ClusterPort.proper (h : ClusterPort F handler node clock dropped) {l : Label}
    (hl : Sends F nodeId l) :
    Proper handler (IsOutgoing F nodeId) (fun s => AllCarried F (node s).membership) l := by
  cases l with
  | call m a =>
    obtain ⟨o, ho, -, hm⟩ := hl
    exact ⟨o, ho, hm⟩
  | notify m a =>
    obtain ⟨o, ho, hsilent, rfl⟩ := hl
    refine ⟨⟨o, ho, rfl⟩, fun s hs => ?_⟩
    cases hdropped : dropped s (o.message nodeId) with
    | true => exact (h.drops s _ hdropped).2
    | false =>
      obtain ⟨reply, hdone⟩ := handle_delivers nodeId hs (h.isFloat s) ho
      rw [(h.handles s _ reply hdropped hdone.ends).2, hdone.delivered.silent hsilent]
  | unsent m k a => exact hl
  | _ => trivial

/-- **The wire refines the model's messages**: in every run of the connections from one node to
    another, with chunks of any size, calls that give up and reconnects, the receiver handles
    messages of the sender's coordinator in the order in which they were written on each
    connection and none twice, every one of them is dropped or a delivery of its abstract message,
    and every reply a call returns was given to the message of this call by one of them. -/
theorem wire_refines (h : ClusterPort F handler node clock dropped) {s : η}
    (hs : AllCarried F (node s).membership) {labels : List Label}
    (hlabels : ∀ l ∈ labels, Sends F nodeId l) {t : Session η}
    (ht : exec (Session.step F handler errorText) { client := { nodeId := nodeId }, state := s }
      labels = some t) :
    CarriedOut handler (Comes F handler node clock nodeId) s t.history :=
  carriedOut h.serves hs (fun l hl => h.proper (hlabels l hl)) ht
    fun _ _ hgood hm => (h.comes hgood hm).1

/-! ### A heartbeat and a vote request -/

/-- The handler of the node, at time 0 and without faults. -/
def portHandler : Handler Node := fun n m =>
  match handleClusterMessage 0 n m with
  | (n, .ok reply) => (n, .ok reply)
  | (n, .error _) => (n, .error "")

theorem clusterPort_portHandler :
    ClusterPort wholeFloats portHandler id (fun _ => 0) fun _ _ => false where
  isFloat _ := rfl
  drops _ _ h := by cases h
  handles n m reply _ h := by
    revert h
    change (handleClusterMessage 0 n m).2 = .ok reply →
      (portHandler n m).1 = (handleClusterMessage 0 n m).1 ∧ _
    unfold portHandler
    generalize handleClusterMessage 0 n m = result
    obtain ⟨n', outcome⟩ := result
    rintro rfl
    exact ⟨rfl, rfl⟩

def heartbeatOut : Outgoing := .heartbeat 1 .empty

def voteOut : Outgoing := .voteRequest 2 0 0

def campaignRun : List Label :=
  .notify (heartbeatOut.message "a") arriving :: delivered (heartbeatOut.message "a") ++
    .call (voteOut.message "a") arriving :: delivered (voteOut.message "a") ++
    [.recv (.chunk ((Protocol.createVoteResponse "n2" 2 true).encode wholeFloats))]

/-- The last call was granted a vote. -/
def voteGranted (t : Session Node) : Bool :=
  match t.history.getLast? with
  | some (.returned _ _ r) => voteOut.accepted (some r)
  | _ => false

theorem wire_refines_sample :
    ∃ t, exec (Session.step wholeFloats portHandler fun _ => "")
        { client := { nodeId := "a" }, state := Replica.sampleNode } campaignRun = some t ∧
      voteGranted t = true ∧
      CarriedOut portHandler (Comes wholeFloats portHandler id (fun _ => 0) "a")
        Replica.sampleNode t.history := by
  have hrun : ((exec (Session.step wholeFloats portHandler fun _ => "")
      { client := { nodeId := "a" }, state := Replica.sampleNode } campaignRun).any
        voteGranted) = true := by
    decide +kernel
  obtain ⟨t, ht, hgranted⟩ := (Option.any_eq_true _ _).mp hrun
  have halone : AllCarried wholeFloats (id Replica.sampleNode).membership :=
    MembershipManager.all_empty
  refine ⟨t, ht, hgranted, wire_refines clusterPort_portHandler halone ?_ ht⟩
  intro l hl
  simp only [campaignRun, delivered, List.cons_append, List.nil_append, List.mem_cons,
    List.not_mem_nil, or_false] at hl
  rcases hl with rfl | rfl | rfl | rfl | rfl | rfl | rfl | rfl | rfl
  · exact ⟨heartbeatOut, MembershipManager.all_empty, rfl, rfl⟩
  · trivial
  · trivial
  · trivial
  · exact ⟨voteOut, trivial, rfl, rfl⟩
  all_goals trivial

end Refinement

end ClusterCoordinator

end MiniDb
