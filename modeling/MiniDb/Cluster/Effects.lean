/-
  What a step of the cluster can do, said once (`step_effect`): the steps of the election and of
  membership, which leave data and writes alone, are one case (`Control`); every other step has
  its own.
-/
import MiniDb.Cluster.System

namespace MiniDb

open Lib ReadCoordinator

namespace Cluster

/-- Two states of a node that agree on everything but election, topology and pending
    acknowledgements. -/
structure SameData (n n' : Node) : Prop where
  config : n'.config = n.config
  store : n'.store = n.store
  aof : n'.aof = n.aof
  staged : n'.staged = n.staged
  queue : n'.replication.asyncQueue = n.replication.asyncQueue
  writeSequence : n'.writeSequence = n.writeSequence

theorem SameData.refl (n : Node) : SameData n n := ⟨rfl, rfl, rfl, rfl, rfl, rfl⟩

/-- Election messages. -/
def IsElection : Message → Prop
  | .voteRequest _ => True
  | .heartbeat _ _ => True
  | _ => False

instance (m : Message) : Decidable (IsElection m) := by
  cases m <;> unfold IsElection <;> infer_instance

/-- A step that leaves data, tasks and writes alone. -/
structure Control (s s' : Cluster) : Prop where
  nodes : ∀ n, SameData (s.nodes n) (s'.nodes n)
  tasks : s'.tasks = s.tasks
  waiting : s'.waiting = s.waiting
  sent : ∀ p ∈ s'.sent, p ∈ s.sent ∨ IsElection p.2
  kept : s.sent ⊆ s'.sent
  history : s'.history = s.history ∨ ∃ n w r, s'.history = s.history ++ [.rejected n w r]

/-- The state after a write has begun. -/
def begun (s : Cluster) (i : Nat) (clock now : Time) (n : String) (w : WriteCall)
    (replicas : List String) : Cluster :=
  let r := (s.nodes n).beginWrite clock now w replicas
  (({ s with waiting := s.waiting.eraseIdx i }.setNode n r.1).log [.issued n r.2.1]).beginTask n
    r.2.1 replicas r.2.2

/-- The state after a prepare has been sent to `f` and waited for. -/
def prepared (s : Cluster) (clock : Time) (n : String) (e : LogEntry) (f : String) (d : Delivery) :
    Cluster :=
  let r := s.send clock f (.replicate e .prepare) d
  if r.2 then r.1.setNode n ((r.1.nodes n).acknowledge e) else r.1

inductive Effect (hash : String → Nat) (s : Cluster) : Label → Cluster → Prop where
  | control {l : Label} {s' : Cluster} (hl : s.commitHandled l = none)
      (hb : s.entryBegun l = none) (h : Control s s') : Effect hash s l s'
  | admitted {n : String} {w : WriteCall} {replicas : List String}
      (h : (s.nodes n).admitWrite w = .ok replicas) :
      Effect hash s (.call n w) { s with waiting := s.waiting ++ [(n, w, replicas)] }
  | begun {i : Nat} {clock now : Time} {n : String} {w : WriteCall} {replicas : List String}
      (hi : s.waiting[i]? = some (n, w, replicas)) (hfree : s.tasks n = none) :
      Effect hash s (.begin i clock now) (s.begun i clock now n w replicas)
  | prepared {n f : String} {d : Delivery} {clock : Time} {e : LogEntry}
      {replicas targets rest : List String}
      (ht : s.tasks n = some (.prepare e replicas targets (f :: rest))) :
      Effect hash s (.prepare n d clock)
        ((s.prepared clock n e f (deliveryTo (s.nodes n) f d)).setTask n
          (some (.prepare e replicas targets rest)))
  | ready {n : String} {e : LogEntry} {replicas targets : List String}
      (ht : s.tasks n = some (.prepare e replicas targets [])) :
      Effect hash s (.endPrepare n)
        ((s.setNode n ((s.nodes n).endReplicate e).1).setTask n (some (.commit e targets 0)))
  | unready {n : String} {e : LogEntry} {replicas targets : List String}
      (ht : s.tasks n = some (.prepare e replicas targets [])) :
      Effect hash s (.endPrepare n)
        (((s.setNode n ((s.nodes n).endReplicate e).1).setTask n none).log
          [.replied n e (.error (replicationFailed e.command replicas))])
  | committed {n f : String} {d : Delivery} {clock : Time} {e : LogEntry} {rest : List String}
      {committed : Nat} (ht : s.tasks n = some (.commit e (f :: rest) committed)) :
      Effect hash s (.commit n d clock)
        ((s.send clock f (.replicate e .commit) (deliveryTo (s.nodes n) f d)).1.setTask n
          (some (.commit e rest
            (if (s.send clock f (.replicate e .commit) (deliveryTo (s.nodes n) f d)).2
              then committed + 1 else committed))))
  | settled {n : String} {clock : Time} {e : LogEntry} {committed : Nat}
      (ht : s.tasks n = some (.commit e [] committed)) :
      Effect hash s (.settle n clock)
        (((s.setNode n ((s.nodes n).settleWrite clock e committed).1).setTask n none).log
          ((if ((s.nodes n).settleWrite clock e committed).2.success then [.applied n e] else []) ++
            [.replied n e ((s.nodes n).settleWrite clock e committed).2]))
  | asyncDone {n : String} {d : Delivery} {clock : Time} {e : LogEntry}
      {queue : List (LogEntry × List String)}
      (hq : (s.nodes n).replication.asyncQueue = (e, []) :: queue) :
      Effect hash s (.async n d clock) (s.setNode n { s.nodes n with
        replication := { (s.nodes n).replication with asyncQueue := queue } })
  | asyncSent {n f : String} {d : Delivery} {clock : Time} {e : LogEntry} {rest : List String}
      {queue : List (LogEntry × List String)}
      (hq : (s.nodes n).replication.asyncQueue = (e, f :: rest) :: queue) {d' : Delivery} :
      Effect hash s (.async n d clock)
        (send clock (s.setNode n { s.nodes n with
          replication := { (s.nodes n).replication with asyncQueue := (e, rest) :: queue } }) f
          (.replicate e .prepare) d').1
  | getBegun {n key : String} {level : ConsistencyLevel} (hfree : s.tasks n = none) :
      Effect hash s (.get n key level) (s.setTask n
        (some (.read ((s.nodes n).readPlan hash key level) s.history.length Dict.empty)))
  | answered {n r : String} {d d' : Delivery} {clock : Time} {p : ReadPlan} {since : Nat}
      {answers : Dict String (ReadAnswer × Bool)} (ht : s.tasks n = some (.read p since answers))
      (hnew : answers.get? r = none) :
      Effect hash s (.answer n r d clock)
        ((s.readFrom clock r p.key d').1.setTask n
          (some (.read p since (answers.set r (s.readFrom clock r p.key d').2))))
  | concluded {n : String} {finished : List String} {p : ReadPlan} {since : Nat}
      {answers : Dict String (ReadAnswer × Bool)} (ht : s.tasks n = some (.read p since answers))
      (hnodup : finished.Nodup)
      (hfinished : ∀ r ∈ finished, r ∈ p.replicas ∧ r ≠ p.localId ∧ (answers.get? r).isSome)
      (hlocal : p.localId ∈ p.asked → (answers.get? p.localId).isSome) :
      Effect hash s (.conclude n finished)
        (s.setTask n (some (.repair p since
          (collected p (collectedAnswer answers p.localId) (collectedAnswer answers) finished)
          (ReadCoordinator.read p (collectedAnswer answers p.localId) (collectedAnswer answers)
            finished)
          (ReadCoordinator.read p (collectedAnswer answers p.localId) (collectedAnswer answers)
            finished).repairs)))
  | repaired {n : String} {d : Delivery} {clock : Time} {p : ReadPlan} {since : Nat}
      {results : List ReadResult} {best : ReadResult} {repairs rest : List ReadResult}
      {r : ReadResult}
      (ht : s.tasks n = some (.repair p since results (.found best repairs) (r :: rest))) :
      Effect hash s (.repair n d clock)
        ((s.repairWith clock n p.key r.nodeId best d).setTask n
          (some (.repair p since results (.found best repairs) rest)))
  | gotten {n : String} {p : ReadPlan} {since : Nat} {results : List ReadResult}
      {outcome : ReadOutcome} (ht : s.tasks n = some (.repair p since results outcome [])) :
      Effect hash s (.endGet n) ((s.setTask n none).log [.got n p since results outcome])
  | delivered {i : Nat} {clock : Time} {dest : String} {m : Message}
      (hm : s.sent[i]? = some (dest, m)) (hdata : ¬ IsElection m) :
      Effect hash s (.deliver i clock) (s.receive clock dest m).1
  | restarted {n : String} {store : KVStore} {aof : List AofEntry}
      {membership : MembershipManager} {ring : ConsistentHashRing} :
      Effect hash s (.restart n store aof membership ring) { s with
        nodes := Function.update s.nodes n ((s.nodes n).restart store aof membership ring)
        tasks := Function.update s.tasks n none
        elections := Function.update s.elections n none
        waiting := s.waiting.filter fun p => p.1 ≠ n }
  | cleaned {n : String} {clock : Time} :
      Effect hash s (.cleanup n clock)
        (s.setNode n { s.nodes n with store := (s.nodes n).store.cleanupExpired clock })

/-! ## The parts of a step -/

/-- What a changed node keeps, every node keeps. -/
theorem rel_update {R : Node → Node → Prop} (hrefl : ∀ v, R v v) {nodes : String → Node}
    {n : String} {v : Node} (h : R (nodes n) v) (m : String) :
    R (nodes m) (Function.update nodes n v m) := by
  by_cases hm : m = n
  · subst hm
    rwa [Function.update_self]
  · rw [Function.update_of_ne hm]
    exact hrefl _

theorem rel_send {R : Node → Node → Prop} (hrefl : ∀ v, R v v) {clock : Time} {s : Cluster}
    {dest : String} {m : Message} {d : Delivery}
    (h : R (s.nodes dest) ((s.nodes dest).handleMessage clock m).1) (n : String) :
    R (s.nodes n) ((s.send clock dest m d).1.nodes n) := by
  rw [nodes_send]
  split
  · exact rel_update hrefl h n
  · exact hrefl _

theorem nodes_send_ne (clock : Time) (s : Cluster) (m : Message) (d : Delivery) {dest n : String}
    (h : n ≠ dest) : (s.send clock dest m d).1.nodes n = s.nodes n := by
  rw [nodes_send]
  split
  · exact Function.update_of_ne h _ _
  · rfl

section Parts

variable (s : Cluster) (clock now : Time) (n : String) (e : LogEntry) (replicas : List String)
  (start : WriteStart) (f : String) (d : Delivery) (r key target : String) (best : ReadResult)

@[simp] theorem nodes_beginTask : (s.beginTask n e replicas start).nodes = s.nodes := by
  cases start <;> rfl

@[simp] theorem waiting_beginTask : (s.beginTask n e replicas start).waiting = s.waiting := by
  cases start <;> rfl

@[simp] theorem sent_beginTask : (s.beginTask n e replicas start).sent = s.sent := by
  cases start <;> rfl

@[simp] theorem history_beginTask : (s.beginTask n e replicas start).history =
    s.history ++ match start with
      | .refused text => [.replied n e (.error text)]
      | _ => [] := by
  cases start with
  | refused text => rfl
  | prepare targets => exact (List.append_nil _).symm
  | commit targets => exact (List.append_nil _).symm

theorem nodes_begun (i : Nat) (w : WriteCall) : (s.begun i clock now n w replicas).nodes =
    Function.update s.nodes n ((s.nodes n).beginWrite clock now w replicas).1 := by
  unfold begun
  rw [nodes_beginTask]
  rfl

theorem entryBegun_begin {i : Nat} {w : WriteCall} (hi : s.waiting[i]? = some (n, w, replicas))
    (hfree : s.tasks n = none) : s.entryBegun (.begin i clock now) =
      some (n, ((s.nodes n).beginWrite clock now w replicas).2.1) := by
  rw [(Node.beginWrite_spec clock now (s.nodes n) w replicas).entry]
  simp [entryBegun, hi, hfree]

@[simp] theorem tasks_prepared : (s.prepared clock n e f d).tasks = s.tasks := by
  unfold prepared
  simp only
  split <;> exact tasks_send _ _ _ _ _

@[simp] theorem waiting_prepared : (s.prepared clock n e f d).waiting = s.waiting := by
  unfold prepared
  simp only
  split <;> exact waiting_send _ _ _ _ _

theorem sent_prepared : (s.prepared clock n e f d).sent =
    (s.send clock f (.replicate e .prepare) d).1.sent := by
  unfold prepared
  simp only
  split <;> rfl

@[simp] theorem history_prepared : (s.prepared clock n e f d).history = s.history := by
  have h := history_send clock s f (.replicate e .prepare) d
  rw [show eventsOf f (s.nodes f) (.replicate e .prepare) = [] from rfl, ite_self,
    List.append_nil] at h
  unfold prepared
  simp only
  split <;> exact h

@[simp] theorem tasks_readFrom : (s.readFrom clock r key d).1.tasks = s.tasks := by
  cases d <;> rfl

@[simp] theorem waiting_readFrom : (s.readFrom clock r key d).1.waiting = s.waiting := by
  cases d <;> rfl

@[simp] theorem sent_readFrom : (s.readFrom clock r key d).1.sent = s.sent := by
  cases d <;> rfl

@[simp] theorem history_readFrom : (s.readFrom clock r key d).1.history = s.history := by
  cases d <;> rfl

@[simp] theorem tasks_repairWith :
    (s.repairWith clock n key target best d).tasks = s.tasks := by
  unfold repairWith
  split
  · rfl
  · exact tasks_send _ _ _ _ _

@[simp] theorem waiting_repairWith :
    (s.repairWith clock n key target best d).waiting = s.waiting := by
  unfold repairWith
  split
  · rfl
  · exact waiting_send _ _ _ _ _

theorem sent_subset_repairWith : s.sent ⊆ (s.repairWith clock n key target best d).sent := by
  unfold repairWith
  split
  · exact fun _ hp => hp
  · exact sent_subset_send _ _ _ _ _

@[simp] theorem history_repairWith :
    (s.repairWith clock n key target best d).history = s.history := by
  unfold repairWith
  split
  · rfl
  · rw [history_send, show ∀ v args, eventsOf target v (.replicaSet args) = [] from
      fun _ _ => rfl, ite_self, List.append_nil]

end Parts

/-! ## Control steps -/

/-- Changing a node's election state or topology is a control step. -/
theorem control_setNode {s : Cluster} {n : String} {v : Node} (h : SameData (s.nodes n) v) :
    Control s (s.setNode n v) := by
  exact ⟨rel_update SameData.refl h, rfl, rfl, fun p hp => .inl hp, fun _ hp => hp, .inl rfl⟩

theorem control_setElection {s s' : Cluster} (h : Control s s') (n : String)
    (t : Option ElectionTask) : Control s (s'.setElection n t) :=
  ⟨h.nodes, h.tasks, h.waiting, h.sent, h.kept, h.history⟩

theorem control_refl (s : Cluster) : Control s s :=
  ⟨fun _ => SameData.refl _, rfl, rfl, fun _ hp => .inl hp, fun _ hp => hp, .inl rfl⟩

/-- Handling an election message changes only the election state. -/
theorem sameData_handleMessage (clock : Time) (n : Node) {m : Message}
    (h : IsElection m) : SameData n (n.handleMessage clock m).1 := by
  cases m with
  | replicate e phase => cases h
  | replicaSet args => cases h
  | voteRequest r => exact ⟨rfl, rfl, rfl, rfl, rfl, rfl⟩
  | heartbeat leaderId term =>
    unfold Node.handleMessage
    simp only
    split
    · exact SameData.refl n
    · exact ⟨rfl, rfl, rfl, rfl, rfl, rfl⟩

theorem eventsOf_control (dest : String) (n : Node) {m : Message} (h : IsElection m) :
    eventsOf dest n m = [] := by
  cases m with
  | replicate e phase => cases h
  | replicaSet args => rfl
  | voteRequest r => rfl
  | heartbeat leaderId term => rfl

theorem control_receive (clock : Time) (s : Cluster) (dest : String) {m : Message}
    (h : IsElection m) : Control s (s.receive clock dest m).1 := by
  have hset := control_setNode (n := dest) (sameData_handleMessage clock (s.nodes dest) h)
  refine ⟨hset.nodes, hset.tasks, hset.waiting, hset.sent, hset.kept, .inl ?_⟩
  rw [receive, log, eventsOf_control dest _ h]
  exact List.append_nil _

theorem control_send (clock : Time) (s : Cluster) (dest : String) {m : Message}
    (h : IsElection m) (d : Delivery) : Control s (s.send clock dest m d).1 := by
  refine ⟨rel_send SameData.refl (sameData_handleMessage clock (s.nodes dest) h),
    tasks_send clock s dest m d, waiting_send clock s dest m d, ?_,
    sent_subset_send clock s dest m d, .inl ?_⟩
  · intro p hp
    rcases mem_sent_send clock s dest m d hp with hp | rfl
    · exact .inl hp
    · exact .inr h
  · rw [history_send, eventsOf_control dest _ h, ite_self, List.append_nil]

/-- **What a step can do.** -/
theorem step_effect {hash : String → Nat} {s s' : Cluster} {l : Label}
    (h : step hash s l = some s') : Effect hash s l s' := by
  cases l with
  | call n w =>
    simp only [step] at h
    split at h
    · cases h
      exact .control rfl rfl ⟨fun _ => SameData.refl _, rfl, rfl, fun _ hp => .inl hp,
        fun _ hp => hp, .inr ⟨n, w, _, rfl⟩⟩
    · rename_i hw
      cases h
      exact .admitted hw
  | begin i clock now =>
    simp only [step] at h
    split at h
    · cases h
    · rename_i n w replicas hi
      split at h
      · cases h
      · rename_i hfree
        cases h
        exact .begun hi (by simpa using hfree)
  | prepare n d clock =>
    simp only [step] at h
    split at h
    · rename_i ht
      cases h
      exact .prepared ht
    · cases h
  | endPrepare n =>
    simp only [step] at h
    split at h
    · rename_i ht
      split at h
      · cases h
        exact .ready ht
      · cases h
        exact .unready ht
    · cases h
  | commit n d clock =>
    simp only [step] at h
    split at h
    · rename_i ht
      cases h
      exact .committed ht
    · cases h
  | settle n clock =>
    simp only [step] at h
    split at h
    · rename_i ht
      cases h
      exact .settled ht
    · cases h
  | async n d clock =>
    simp only [step] at h
    split at h
    · cases h
    · rename_i hq
      cases h
      exact .asyncDone hq
    · rename_i hq
      cases h
      exact .asyncSent hq
  | get n key level =>
    simp only [step] at h
    split at h
    · cases h
    · rename_i hfree
      cases h
      exact .getBegun (by simpa using hfree)
  | answer n r d clock =>
    simp only [step] at h
    split at h
    · rename_i ht
      split at h
      · cases h
      · rename_i hr
        cases h
        exact .answered ht (by simpa using (not_or.mp hr).2)
    · cases h
  | conclude n finished =>
    simp only [step] at h
    split at h
    · rename_i ht
      split at h
      · rename_i hc
        cases h
        exact .concluded ht hc.1 hc.2.1 hc.2.2
      · cases h
    · cases h
  | repair n d clock =>
    simp only [step] at h
    split at h
    · rename_i ht
      cases h
      exact .repaired ht
    · cases h
  | endGet n =>
    simp only [step] at h
    split at h
    · rename_i ht
      cases h
      exact .gotten ht
    · cases h
  | startElection n =>
    simp only [step] at h
    split at h
    · cases h
    · cases h
      refine .control rfl rfl (control_setElection (control_setNode ?_) n _)
      exact ⟨rfl, rfl, rfl, rfl, rfl, rfl⟩
  | requestVote n d clock =>
    simp only [step] at h
    split at h
    · rename_i r f rest votes _
      cases h
      have hm : IsElection (.voteRequest r) := trivial
      exact .control rfl rfl (control_setElection (control_send clock s f hm d) n _)
    · cases h
  | countVotes n =>
    simp only [step] at h
    split at h
    · cases h
      refine .control rfl rfl (control_setElection (control_setNode ?_) n _)
      exact ⟨rfl, rfl, rfl, rfl, rfl, rfl⟩
    · cases h
  | startHeartbeats n =>
    simp only [step] at h
    split at h
    · cases h
    · cases h
      exact .control rfl rfl (control_setElection (control_refl s) n _)
  | heartbeat n d clock =>
    simp only [step] at h
    split at h
    · rename_i f rest _
      cases h
      have hm : IsElection (.heartbeat (s.nodes n).nodeId (s.nodes n).election.currentTerm) :=
        trivial
      exact .control rfl rfl (control_setElection (control_send clock s f hm d) n _)
    · cases h
  | endHeartbeats n =>
    simp only [step] at h
    split at h
    · cases h
      exact .control rfl rfl (control_setElection (control_refl s) n _)
    · cases h
  | stepDown n =>
    simp only [step, Option.some.injEq] at h
    subst h
    exact .control rfl rfl (control_setNode ⟨rfl, rfl, rfl, rfl, rfl, rfl⟩)
  | deliver i clock =>
    simp only [step] at h
    split at h
    · rename_i dest m hm
      cases h
      by_cases hdata : IsElection m
      · refine .control ?_ rfl (control_receive clock s dest hdata)
        rw [commitHandled, hm]
        cases m with
        | replicate e phase => cases hdata
        | _ => rfl
      · exact .delivered hm hdata
    · cases h
  | restart n store aof membership ring =>
    simp only [step, Option.some.injEq] at h
    subst h
    exact .restarted
  | topology n membership ring =>
    simp only [step, Option.some.injEq] at h
    subst h
    exact .control rfl rfl (control_setNode ⟨rfl, rfl, rfl, rfl, rfl, rfl⟩)
  | cleanup n clock =>
    simp only [step, Option.some.injEq] at h
    subst h
    exact .cleaned

/-! ## Handling a message -/

theorem staged_handleMessage (clock : Time) (n : Node) (m : Message) :
    (n.handleMessage clock m).1.staged = match m with
      | .replicate e .prepare => n.staged.set e.index e
      | .replicate e .commit => n.staged.erase e.index
      | _ => n.staged := by
  cases m with
  | replicate e phase => cases phase <;> rfl
  | replicaSet args =>
    rcases Replica.replicaSet_cases clock n (some args) with h | ⟨a, u, -, -, -, h⟩
    · exact congrArg Node.staged h
    · refine (congrArg Node.staged h).trans ?_
      simp only [Node.storeUnlessOlder]
      split <;> rfl
  | voteRequest r => rfl
  | heartbeat leaderId term =>
    have hm : IsElection (.heartbeat leaderId term) := trivial
    exact (sameData_handleMessage clock n hm).staged

/-- What no message changes. -/
structure SameWriter (n n' : Node) : Prop where
  config : n'.config = n.config
  replication : n'.replication = n.replication
  writeSequence : n'.writeSequence = n.writeSequence

theorem sameWriter_handleMessage (clock : Time) (n : Node) (m : Message) :
    SameWriter n (n.handleMessage clock m).1 := by
  cases m with
  | replicate e phase => cases phase <;> exact ⟨rfl, rfl, rfl⟩
  | replicaSet args =>
    rcases Replica.replicaSet_cases clock n (some args) with h | ⟨a, u, -, -, -, h⟩
    · exact (congrArg (SameWriter n) h).mpr ⟨rfl, rfl, rfl⟩
    · refine (congrArg (SameWriter n) h).mpr ?_
      simp only [Node.storeUnlessOlder]
      split <;> exact ⟨rfl, rfl, rfl⟩
  | voteRequest r => exact ⟨rfl, rfl, rfl⟩
  | heartbeat leaderId term =>
    unfold Node.handleMessage
    simp only
    split <;> exact ⟨rfl, rfl, rfl⟩

end Cluster

end MiniDb
