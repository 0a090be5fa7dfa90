/-
  The cluster as a transition system.

  Every node is in the state of `Node.State`. What a node does under its write lock (a write or
  a GET) is its task; a task takes one step per message, and the steps of different nodes
  interleave in any order. A message can fail to be sent, be lost, be handled with its answer
  lost, or be answered; every message sent can also be delivered later, any number of times.

  Timers, gossip and recovery are left open: an election may start, a topology change or a node
  restart with any recovered state at any moment.

  `history` records what happened, in order; no step reads it.

  Not modelled: rebalancing, clients other than those that SET, DELETE and GET, and the
  append-entries path, which no node uses.
-/
import MiniDb.Lib.Steps
import MiniDb.Node.Replica
import MiniDb.Node.Write
import Mathlib.Logic.Function.Basic

namespace MiniDb

open Lib ReadCoordinator

/-! ## Messages, tasks, events -/

inductive Message where
  | replicate (e : LogEntry) (phase : ReplicatePhase)
  | replicaSet (args : ReplicaSetArgs)
  | voteRequest (r : VoteRequest)
  | heartbeat (leaderId : String) (term : Nat)

/-- What happens to a message while its sender waits. -/
inductive Delivery where
  /-- Not sent: no connection, or an injected fault. -/
  | unsent
  /-- Sent, and lost or late. -/
  | sent
  /-- Handled, the answer lost. -/
  | handled
  | answered

/-- The message reached its node. -/
def Delivery.isHandled : Delivery → Bool
  | .handled => true
  | .answered => true
  | _ => false

/-- What a node does under its write lock. -/
inductive Task where
  /-- `replicate` sends prepares; `rest` are the targets still to be asked. -/
  | prepare (e : LogEntry) (replicas targets rest : List String)
  /-- `commit_to_followers`; `committed` followers have confirmed. -/
  | commit (e : LogEntry) (rest : List String) (committed : Nat)
  /-- A GET that waits for answers; the flag marks the answers that are the node's own. -/
  | read (p : ReadPlan) (since : Nat) (answers : Dict String (ReadAnswer × Bool))
  /-- A GET that has its outcome and repairs the replicas of `rest`. -/
  | repair (p : ReadPlan) (since : Nat) (results : List ReadResult) (outcome : ReadOutcome)
      (rest : List ReadResult)

/-- The entry of a write under way. -/
def Task.entry? : Task → Option LogEntry
  | .prepare e _ _ _ => some e
  | .commit e _ _ => some e
  | _ => none

/-- What the election thread of a node does. -/
inductive ElectionTask where
  | campaign (r : VoteRequest) (rest : List String) (votes : Nat)
  | heartbeats (rest : List String)

inductive Event where
  /-- The node built the entry of a write. -/
  | issued (n : String) (e : LogEntry)
  /-- The apply callback ran. -/
  | applied (n : String) (e : LogEntry)
  /-- A commit message was handled: the entry it carried, and the one applied. -/
  | handled (n : String) (carried applied : LogEntry)
  /-- The answer to a write whose entry was built. -/
  | replied (n : String) (e : LogEntry) (r : Response)
  /-- The answer to a write that was not admitted. -/
  | rejected (n : String) (w : WriteCall) (r : Response)
  /-- The end of a GET that began when the history had length `since`. -/
  | got (n : String) (p : ReadPlan) (since : Nat) (results : List ReadResult)
      (outcome : ReadOutcome)

structure Cluster where
  nodes : String → Node
  tasks : String → Option Task
  elections : String → Option ElectionTask
  /-- Writes that wait for the lock of their node, with their replica sets. -/
  waiting : List (String × WriteCall × List String)
  sent : List (String × Message)
  history : List Event

def Response.success : Response → Bool
  | .ok _ => true
  | .error _ => false

/-- The results of a read that are to be repaired. -/
def ReadCoordinator.ReadOutcome.repairs : ReadOutcome → List ReadResult
  | .found _ rs => rs
  | _ => []

/-- The nodes a read asks. -/
def ReadCoordinator.ReadPlan.asked (p : ReadPlan) : List String :=
  if p.level = .strong then p.primaryOwner.toList else p.replicas

namespace Node

/-- The message handlers of a node; the flag says whether the answer is a success (for a vote
    request: whether the vote is granted). -/
def handleMessage (clock : Time) (n : Node) : Message → Node × Bool
  | .replicate e phase =>
    let (n, r) := n.handleReplicate clock (some e) phase
    (n, r.success)
  | .replicaSet args =>
    let (n, r) := n.handleReplicaSet clock (some args)
    (n, r.success)
  | .voteRequest r =>
    let (m, _, granted) := n.election.handleVoteRequest r
    ({ n with election := m }, granted)
  | .heartbeat leaderId term =>
    if leaderId = "" then (n, false)
    else ({ n with election := (n.election.receiveHeartbeat leaderId term).1 }, false)

/-- `_handle_local_read` and `_get_local_value_for_read` -/
def localRead (clock : Time) (n : Node) (key : String) : Node × ReadAnswer :=
  let (store, m) := n.store.getWithMetadata clock key
  ({ n with store := store }, answerOf m)

/-- What a GET at this node fixes when it starts. -/
def readPlan (hash : String → Nat) (n : Node) (key : String) (level : ConsistencyLevel) :
    ReadPlan :=
  { localId := n.nodeId, key := key, level := level
    replicas := n.ring.getNodes hash key n.config.replicationFactor
    primaryOwner := n.election.leaderId, replicationFactor := n.config.replicationFactor }

/-- A local `_repair_value`. -/
def repairLocal (clock : Time) (n : Node) (key : String) (best : ReadResult) : Node :=
  n.applyRepairData clock key best.value best.version
    { updatedAt := some best.updatedAt, createdAt := some best.createdAt
      expiresAt := best.expiresAt, coordinatorId := some best.coordinatorId }

/-- The arguments of the `__REPLICA_SET` of a remote `_repair_value`. -/
def repairArgs (key : String) (best : ReadResult) : ReplicaSetArgs :=
  { key := key, value := best.value, version := some best.version, expiresAt := best.expiresAt
    times := some (best.updatedAt, best.createdAt), coordinatorId := some best.coordinatorId }

/-- The process starts again, with what recovery gave and an empty memory. -/
def restart (n : Node) (store : KVStore) (aof : List AofEntry) (membership : MembershipManager)
    (ring : ConsistentHashRing) : Node :=
  { config := n.config, store := store, aof := aof, election := { nodeId := n.nodeId }
    membership := membership, ring := ring, staged := Dict.empty, replication := {}
    writeSequence := 0 }

end Node

namespace Cluster

def setNode (s : Cluster) (n : String) (v : Node) : Cluster :=
  { s with nodes := Function.update s.nodes n v }

def setTask (s : Cluster) (n : String) (t : Option Task) : Cluster :=
  { s with tasks := Function.update s.tasks n t }

def setElection (s : Cluster) (n : String) (t : Option ElectionTask) : Cluster :=
  { s with elections := Function.update s.elections n t }

def log (s : Cluster) (es : List Event) : Cluster := { s with history := s.history ++ es }

/-! ## Sending and receiving -/

/-- What handling a message adds to the history. -/
def eventsOf (dest : String) (n : Node) : Message → List Event
  | .replicate e .commit => [.handled dest e (n.toApply e), .applied dest (n.toApply e)]
  | _ => []

def receive (clock : Time) (s : Cluster) (dest : String) (m : Message) : Cluster × Bool :=
  let r := (s.nodes dest).handleMessage clock m
  ((s.setNode dest r.1).log (eventsOf dest (s.nodes dest) m), r.2)

def record (s : Cluster) (dest : String) (m : Message) : Cluster :=
  { s with sent := s.sent ++ [(dest, m)] }

/-- Send a message and wait for the answer; the flag says whether a success came back. -/
def send (clock : Time) (s : Cluster) (dest : String) (m : Message) : Delivery → Cluster × Bool
  | .unsent => (s, false)
  | .sent => (s.record dest m, false)
  | .handled => ((receive clock (s.record dest m) dest m).1, false)
  | .answered => receive clock (s.record dest m) dest m

/-- A message to a node that is not in the table is not sent. -/
def deliveryTo (n : Node) (dest : String) (d : Delivery) : Delivery :=
  if (n.membership.getNode dest).isSome then d else .unsent

/-- The same for messages that also need the node to be alive. -/
def deliveryToAlive (n : Node) (dest : String) (d : Delivery) : Delivery :=
  if (n.membership.getNode dest).any (fun i => i.state = .alive) then d else .unsent

/-! ## Steps -/

inductive Label where
  /-- `_apply_partition_write` is called at `n`. -/
  | call (n : String) (w : WriteCall)
  /-- A waiting write gets the lock; `now` is its (skewed) timestamp. -/
  | begin (i : Nat) (clock now : Time)
  | prepare (n : String) (d : Delivery) (clock : Time)
  | endPrepare (n : String)
  | commit (n : String) (d : Delivery) (clock : Time)
  | settle (n : String) (clock : Time)
  /-- The async replication thread. -/
  | async (n : String) (d : Delivery) (clock : Time)
  /-- A GET gets the lock. -/
  | get (n key : String) (level : ConsistencyLevel)
  | answer (n r : String) (d : Delivery) (clock : Time)
  /-- The GET has its answers; `finished` are the remote reads that completed in time. -/
  | conclude (n : String) (finished : List String)
  | repair (n : String) (d : Delivery) (clock : Time)
  | endGet (n : String)
  | startElection (n : String)
  | requestVote (n : String) (d : Delivery) (clock : Time)
  | countVotes (n : String)
  | startHeartbeats (n : String)
  | heartbeat (n : String) (d : Delivery) (clock : Time)
  | endHeartbeats (n : String)
  | stepDown (n : String)
  /-- A message sent before is delivered. -/
  | deliver (i : Nat) (clock : Time)
  | restart (n : String) (store : KVStore) (aof : List AofEntry)
      (membership : MembershipManager) (ring : ConsistentHashRing)
  /-- Gossip, health checks and `_sync_topology`. -/
  | topology (n : String) (membership : MembershipManager) (ring : ConsistentHashRing)
  | cleanup (n : String) (clock : Time)

/-- A waiting write begins. -/
def beginTask (s : Cluster) (n : String) (e : LogEntry) (replicas : List String) :
    WriteStart → Cluster
  | .refused text => s.log [.replied n e (.error text)]
  | .prepare targets => s.setTask n (some (.prepare e replicas targets targets))
  | .commit targets => s.setTask n (some (.commit e targets 0))

/-- The answer a read collects. -/
def collectedAnswer (answers : Dict String (ReadAnswer × Bool)) (r : String) : ReadAnswer :=
  ((answers.get? r).map Prod.fst).getD missingAnswer

/-- One answer of a read: a node that cannot be reached, or whose answer is lost, counts as
    missing. -/
def readFrom (clock : Time) (s : Cluster) (r key : String) :
    Delivery → Cluster × ReadAnswer × Bool
  | .unsent => (s, missingAnswer, false)
  | .sent => (s, missingAnswer, false)
  | .handled => (s.setNode r ((s.nodes r).localRead clock key).1, missingAnswer, false)
  | .answered =>
    let (node, a) := (s.nodes r).localRead clock key
    (s.setNode r node, a, true)

/-- One repair. -/
def repairWith (clock : Time) (s : Cluster) (n key target : String) (best : ReadResult)
    (d : Delivery) : Cluster :=
  if target = "" ∨ target = (s.nodes n).nodeId then
    s.setNode n ((s.nodes n).repairLocal clock key best)
  else
    (s.send clock target (.replicaSet (Node.repairArgs key best))
      (deliveryToAlive (s.nodes n) target d)).1

/-- The alive nodes other than `n`. -/
def others (s : Cluster) (n : String) : List String :=
  (s.nodes n).membership.aliveIds.filter fun r => r ≠ (s.nodes n).nodeId

def step (hash : String → Nat) (s : Cluster) : Label → Option Cluster
  | .call n w =>
    match (s.nodes n).admitWrite w with
    | .error text => some (s.log [.rejected n w (.error text)])
    | .ok replicas => some { s with waiting := s.waiting ++ [(n, w, replicas)] }
  | .begin i clock now =>
    match s.waiting[i]? with
    | none => none
    | some (n, w, replicas) =>
      if (s.tasks n).isSome then none
      else
        let (node, e, start) := (s.nodes n).beginWrite clock now w replicas
        let s := ({ s with waiting := s.waiting.eraseIdx i }.setNode n node).log [.issued n e]
        some (s.beginTask n e replicas start)
  | .prepare n d clock =>
    match s.tasks n with
    | some (.prepare e replicas targets (f :: rest)) =>
      let (s', ok) := s.send clock f (.replicate e .prepare) (deliveryTo (s.nodes n) f d)
      let s' := if ok then s'.setNode n ((s'.nodes n).acknowledge e) else s'
      some (s'.setTask n (some (.prepare e replicas targets rest)))
    | _ => none
  | .endPrepare n =>
    match s.tasks n with
    | some (.prepare e replicas targets []) =>
      let (node, success) := (s.nodes n).endReplicate e
      if success then some ((s.setNode n node).setTask n (some (.commit e targets 0)))
      else
        some (((s.setNode n node).setTask n none).log
          [.replied n e (.error (replicationFailed e.command replicas))])
    | _ => none
  | .commit n d clock =>
    match s.tasks n with
    | some (.commit e (f :: rest) committed) =>
      let (s', ok) := s.send clock f (.replicate e .commit) (deliveryTo (s.nodes n) f d)
      some (s'.setTask n (some (.commit e rest (if ok then committed + 1 else committed))))
    | _ => none
  | .settle n clock =>
    match s.tasks n with
    | some (.commit e [] committed) =>
      let (node, r) := (s.nodes n).settleWrite clock e committed
      some (((s.setNode n node).setTask n none).log
        ((if r.success then [.applied n e] else []) ++ [.replied n e r]))
    | _ => none
  | .async n d clock =>
    match (s.nodes n).replication.asyncQueue with
    | [] => none
    | (_, []) :: queue => some (s.setNode n { s.nodes n with
        replication := { (s.nodes n).replication with asyncQueue := queue } })
    | (e, f :: rest) :: queue =>
      let s := s.setNode n { s.nodes n with
        replication := { (s.nodes n).replication with asyncQueue := (e, rest) :: queue } }
      some (s.send clock f (.replicate e .prepare) (deliveryTo (s.nodes n) f d)).1
  | .get n key level =>
    if (s.tasks n).isSome then none
    else
      some (s.setTask n
        (some (.read ((s.nodes n).readPlan hash key level) s.history.length Dict.empty)))
  | .answer n r d clock =>
    match s.tasks n with
    | some (.read p since answers) =>
      if r ∉ p.asked ∨ (answers.get? r).isSome then none
      else
        let d := if r = p.localId then .answered else deliveryTo (s.nodes n) r d
        let (s, a, real) := s.readFrom clock r p.key d
        some (s.setTask n (some (.read p since (answers.set r (a, real)))))
    | _ => none
  | .conclude n finished =>
    match s.tasks n with
    | some (.read p since answers) =>
      if finished.Nodup ∧
          (∀ r ∈ finished, r ∈ p.replicas ∧ r ≠ p.localId ∧ (answers.get? r).isSome) ∧
          (p.localId ∈ p.asked → (answers.get? p.localId).isSome) then
        let answer := collectedAnswer answers
        let outcome := ReadCoordinator.read p (answer p.localId) answer finished
        let results := collected p (answer p.localId) answer finished
        some (s.setTask n (some (.repair p since results outcome outcome.repairs)))
      else none
    | _ => none
  | .repair n d clock =>
    match s.tasks n with
    | some (.repair p since results (.found best repairs) (r :: rest)) =>
      some ((s.repairWith clock n p.key r.nodeId best d).setTask n
        (some (.repair p since results (.found best repairs) rest)))
    | _ => none
  | .endGet n =>
    match s.tasks n with
    | some (.repair p since results outcome []) =>
      some ((s.setTask n none).log [.got n p since results outcome])
    | _ => none
  | .startElection n =>
    if (s.elections n).isSome ∨ (s.nodes n).isLeader then none
    else
      let (m, r) := (s.nodes n).election.startElection
      some ((s.setNode n { s.nodes n with election := m }).setElection n
        (some (.campaign r (s.others n) 1)))
  | .requestVote n d clock =>
    match s.elections n with
    | some (.campaign r (f :: rest) votes) =>
      let (s, granted) := s.send clock f (.voteRequest r) d
      some (s.setElection n (some (.campaign r rest (if granted then votes + 1 else votes))))
    | _ => none
  | .countVotes n =>
    match s.elections n with
    | some (.campaign r [] votes) =>
      let m := (s.nodes n).election.finishElection r.term votes
        (max 1 (s.nodes n).membership.nodeCount)
      some ((s.setNode n { s.nodes n with election := m }).setElection n none)
    | _ => none
  | .startHeartbeats n =>
    if (s.elections n).isSome ∨ ¬ (s.nodes n).isLeader then none
    else some (s.setElection n (some (.heartbeats (s.others n))))
  | .heartbeat n d clock =>
    match s.elections n with
    | some (.heartbeats (f :: rest)) =>
      let (s, _) := s.send clock f
        (.heartbeat (s.nodes n).nodeId (s.nodes n).election.currentTerm) d
      some (s.setElection n (some (.heartbeats rest)))
    | _ => none
  | .endHeartbeats n =>
    match s.elections n with
    | some (.heartbeats []) => some (s.setElection n none)
    | _ => none
  | .stepDown n =>
    some (s.setNode n { s.nodes n with election := (s.nodes n).election.stepDown })
  | .deliver i clock =>
    match s.sent[i]? with
    | some (dest, m) => some (s.receive clock dest m).1
    | none => none
  | .restart n store aof membership ring =>
    some { s with
      nodes := Function.update s.nodes n ((s.nodes n).restart store aof membership ring)
      tasks := Function.update s.tasks n none
      elections := Function.update s.elections n none
      waiting := s.waiting.filter fun p => p.1 ≠ n }
  | .topology n membership ring =>
    some (s.setNode n { s.nodes n with membership := membership, ring := ring })
  | .cleanup n clock =>
    some (s.setNode n { s.nodes n with store := (s.nodes n).store.cleanupExpired clock })

/-! ## What the parts of a step leave alone -/

section Parts

variable (clock : Time) (s : Cluster) (dest : String) (m : Message) (d : Delivery)

/-- Sending changes the receiving node, if the message is handled, and nothing else. -/
theorem nodes_send :
    (s.send clock dest m d).1.nodes =
      if d.isHandled then
        Function.update s.nodes dest ((s.nodes dest).handleMessage clock m).1
      else s.nodes := by
  cases d <;> rfl

theorem history_send :
    (s.send clock dest m d).1.history =
      s.history ++ if d.isHandled then eventsOf dest (s.nodes dest) m else [] := by
  cases d
  · exact (List.append_nil _).symm
  · exact (List.append_nil _).symm
  · rfl
  · rfl

@[simp] theorem tasks_send : (s.send clock dest m d).1.tasks = s.tasks := by
  cases d <;> rfl

@[simp] theorem waiting_send : (s.send clock dest m d).1.waiting = s.waiting := by
  cases d <;> rfl

theorem mem_sent_send {p : String × Message} (h : p ∈ (s.send clock dest m d).1.sent) :
    p ∈ s.sent ∨ p = (dest, m) := by
  cases d with
  | unsent => exact .inl h
  | sent => simpa [send, record] using h
  | handled => simpa [send, record, receive, setNode, log] using h
  | answered => simpa [send, record, receive, setNode, log] using h

theorem sent_subset_send : s.sent ⊆ (s.send clock dest m d).1.sent := by
  cases d with
  | unsent => exact fun _ h => h
  | sent => exact List.subset_append_left _ _
  | handled => exact List.subset_append_left _ _
  | answered => exact List.subset_append_left _ _

/-- A handled message has been sent. -/
theorem mem_sent_of_handled (h : d.isHandled) : (dest, m) ∈ (s.send clock dest m d).1.sent := by
  cases d with
  | unsent => cases h
  | sent => cases h
  | handled => exact List.mem_append_right _ (List.mem_singleton.mpr rfl)
  | answered => exact List.mem_append_right _ (List.mem_singleton.mpr rfl)

/-- Only an answered message brings a success back. -/
theorem isHandled_of_success (h : (s.send clock dest m d).2 = true) : d.isHandled := by
  cases d with
  | unsent => cases h
  | sent => cases h
  | handled => rfl
  | answered => rfl

end Parts

/-- The commit message that a step has handled: where, and the entry it carries. -/
def commitHandled (s : Cluster) : Label → Option (String × LogEntry)
  | .commit n d _ =>
    match s.tasks n with
    | some (.commit e (f :: _) _) =>
      if (deliveryTo (s.nodes n) f d).isHandled then some (f, e) else none
    | _ => none
  | .deliver i _ =>
    match s.sent[i]? with
    | some (dest, .replicate e .commit) => some (dest, e)
    | _ => none
  | _ => none

/-- The write whose entry a step builds. -/
def entryBegun (s : Cluster) : Label → Option (String × LogEntry)
  | .begin i clock now =>
    match s.waiting[i]? with
    | some (n, w, _) =>
      if (s.tasks n).isSome then none else some (n, ((s.nodes n).newEntry clock now w).2)
    | none => none
  | _ => none

/-- The entries built so far, with the nodes that built them. -/
def issuedIn (h : List Event) : List (String × LogEntry) :=
  h.filterMap fun
    | .issued n e => some (n, e)
    | _ => none

theorem mem_issuedIn {h : List Event} {n : String} {e : LogEntry} :
    (n, e) ∈ issuedIn h ↔ Event.issued n e ∈ h := by
  unfold issuedIn
  rw [List.mem_filterMap]
  constructor
  · rintro ⟨ev, hev, heq⟩
    cases ev with
    | issued m a =>
      simp only [Option.some.injEq, Prod.mk.injEq] at heq
      obtain ⟨rfl, rfl⟩ := heq
      exact hev
    | _ => cases heq
  · exact fun hev => ⟨_, hev, rfl⟩

/-- The processes have just started: nothing staged, nothing sent, nothing under way. What the
    stores and the logs hold is open. -/
structure Fresh (s : Cluster) : Prop where
  ids : ∀ n, (s.nodes n).nodeId = n
  staged : ∀ n, (s.nodes n).staged = Dict.empty
  queue : ∀ n, (s.nodes n).replication.asyncQueue = []
  tasks : ∀ n, s.tasks n = none
  waiting : s.waiting = []
  sent : s.sent = []
  history : s.history = []

section Fresh

variable {s : Cluster} (h : Fresh s)
include h

theorem Fresh.no_task {n : String} {T : Task} : s.tasks n ≠ some T := by
  rw [h.tasks]
  exact Option.some_ne_none T |>.symm

theorem Fresh.no_message (p : String × Message) : p ∉ s.sent := by
  rw [h.sent]
  exact List.not_mem_nil

theorem Fresh.no_event (ev : Event) : ev ∉ s.history := by
  rw [h.history]
  exact List.not_mem_nil

end Fresh

/-! ### Three nodes that have just started -/

def sampleRing : ConsistentHashRing :=
  ⟨1, [(1, "a"), (2, "b"), (3, "c")], {"a", "b", "c"}, by decide⟩

def sampleNode (id : String) : Node :=
  { config := { nodeId := id }, store := KVStore.empty, aof := [], election := { nodeId := id }
    membership := .ofIds ["a", "b", "c"], ring := sampleRing, staged := Dict.empty
    replication := {}, writeSequence := 0 }

/-- Replication factor 3, writes and reads at QUORUM, nobody elected. -/
def sample : Cluster :=
  { nodes := sampleNode, tasks := fun _ => none, elections := fun _ => none, waiting := []
    sent := [], history := [] }

theorem fresh_sample : Fresh sample :=
  ⟨fun _ => rfl, fun _ => rfl, fun _ => rfl, fun _ => rfl, rfl, rfl, rfl⟩

/-- `n` is elected with the vote of `f`, its request to `lost` being lost, and tells both. -/
def electionOf (n f lost : String) : List Label :=
  [.startElection n] ++
    (if f < lost then [.requestVote n .answered 0, .requestVote n .unsent 0]
      else [.requestVote n .unsent 0, .requestVote n .answered 0]) ++
    [.countVotes n, .startHeartbeats n, .heartbeat n .handled 0, .heartbeat n .handled 0,
      .endHeartbeats n]

/-- `n` sets `k` to `i` at time `i`; both followers answer the prepare, `d` says what becomes of
    the commits. -/
def setOf (n : String) (i : Int) (d : List Delivery) : List Label :=
  [.call n { operation := .set, key := "k", value := .int i }, .begin 0 i i,
    .prepare n .answered i, .prepare n .answered i, .endPrepare n] ++
    d.map (fun d => .commit n d i) ++ [.settle n i]

end Cluster

end MiniDb
