/-
  Which nodes a write at QUORUM reaches, and which a read at QUORUM asks (`node.py`,
  `_apply_partition_write` and `_setup_read_callbacks`).

  A write commits to every alive member and is answered once `RF // 2 + 1` of them, the leader
  included, have confirmed; a read asks `RF // 2 + 1` of the `RF` nodes that the ring gives for
  the key. `write_meets_reads_iff` says for which clusters the two always have a node in
  common, whatever commit messages are lost.
-/
import MiniDb.Cluster.Applied
import MiniDb.Lib.Voting
import MiniDb.Sharding.Clockwise

namespace MiniDb

open Lib ReadCoordinator

/-- The answer to the message came back. -/
def Delivery.isAnswered : Delivery → Bool
  | .answered => true
  | _ => false

theorem Delivery.isHandled_of_isAnswered {d : Delivery} (h : d.isAnswered) : d.isHandled := by
  cases d with
  | answered => rfl
  | _ => cases h

namespace Cluster

variable {hash : String → Nat}

/-! ## The commit phase -/

/-- The end of the write of `L`: `d f` becomes of the commit message to `f`. -/
def commitRun (L : String) (targets : List String) (d : String → Delivery) (clock : Time) :
    List Label :=
  targets.map (fun f => .commit L (d f) clock) ++ [.settle L clock]

/-- What the commit messages to `targets` leave in the history. -/
def commitEvents (e : LogEntry) (targets : List String) (d : String → Delivery) : List Event :=
  targets.flatMap fun f => if (d f).isHandled then [.handled f e e, .applied f e] else []

/-- The commit messages apply the entry where they are handled, -/
theorem applied_mem_commitEvents {e : LogEntry} {targets : List String} {d : String → Delivery}
    (n : String) :
    Event.applied n e ∈ commitEvents e targets d ↔ n ∈ targets ∧ (d n).isHandled := by
  unfold commitEvents
  rw [List.mem_flatMap]
  constructor
  · rintro ⟨f, hf, hmem⟩
    split at hmem
    · rename_i hd
      simp only [List.mem_cons, reduceCtorEq, Event.applied.injEq, List.not_mem_nil, or_false,
        false_or] at hmem
      obtain ⟨rfl, -⟩ := hmem
      exact ⟨hf, hd⟩
    · cases hmem
  · rintro ⟨hn, hd⟩
    exact ⟨n, hn, by simp [hd]⟩

/-- and answer nothing to the client. -/
theorem replied_not_mem_commitEvents {e : LogEntry} {targets : List String}
    {d : String → Delivery} (n : String) (r : Response) :
    Event.replied n e r ∉ commitEvents e targets d := by
  intro hmem
  unfold commitEvents at hmem
  obtain ⟨f, -, hmem⟩ := List.mem_flatMap.mp hmem
  split at hmem
  · simp at hmem
  · cases hmem

theorem deliveryTo_of_known {n : Node} {dest : String} (h : (n.membership.getNode dest).isSome)
    (d : Delivery) : deliveryTo n dest d = d :=
  if_pos h

theorem success_sendCommit (clock : Time) (s : Cluster) (f : String) (e : LogEntry) (d : Delivery) :
    (s.send clock f (.replicate e .commit) d).2 = d.isAnswered := by
  cases d <;> rfl

variable (hash) in
/-- The commit messages, one after the other. -/
theorem exec_commits {L : String} {e : LogEntry} (d : String → Delivery) (clock : Time)
    {targets : List String} {s : Cluster} {k : Nat} (hT : s.tasks L = some (.commit e targets k))
    (hL : L ∉ targets) (hnodup : targets.Nodup)
    (hknown : ∀ f ∈ targets, ((s.nodes L).membership.getNode f).isSome)
    (hstaged : ∀ f ∈ targets, (s.nodes f).toApply e = e) :
    ∃ s', exec (step hash) s (targets.map fun f => .commit L (d f) clock) = some s' ∧
      s'.tasks L = some (.commit e [] (k + (targets.filter fun f => (d f).isAnswered).length)) ∧
      s'.nodes L = s.nodes L ∧ s'.history = s.history ++ commitEvents e targets d := by
  induction targets generalizing s k with
  | nil => exact ⟨s, rfl, hT, rfl, (List.append_nil _).symm⟩
  | cons f rest ih =>
    obtain ⟨hf, hnodup⟩ := List.nodup_cons.mp hnodup
    have hLf : L ≠ f := fun h => hL (h ▸ List.mem_cons_self)
    -- the state after the message to `f`
    obtain ⟨s₁, hs₁⟩ : ∃ s₁, s₁ = (s.send clock f (.replicate e .commit) (d f)).1.setTask L
        (some (.commit e rest (if (d f).isAnswered then k + 1 else k))) := ⟨_, rfl⟩
    have hstep : step hash s (.commit L (d f) clock) = some s₁ := by
      simp only [step, hT, deliveryTo_of_known (hknown f List.mem_cons_self), success_sendCommit]
      rw [hs₁]
    have hnode : ∀ n, n ≠ f → s₁.nodes n = s.nodes n := by
      intro n hn
      rw [hs₁]
      exact nodes_send_ne clock s _ (d f) hn
    have hT₁ : s₁.tasks L = some (.commit e rest (if (d f).isAnswered then k + 1 else k)) := by
      rw [hs₁]
      exact Function.update_self _ _ _
    obtain ⟨s', hexec, htask, hnodes, hhistory⟩ := ih hT₁
      (fun h => hL (List.mem_cons_of_mem f h)) hnodup
      (fun g hg => by rw [hnode L hLf]; exact hknown g (List.mem_cons_of_mem f hg))
      (fun g hg => by
        rw [hnode g fun h => hf (h ▸ hg)]
        exact hstaged g (List.mem_cons_of_mem f hg))
    refine ⟨s', exec_cons.mpr ⟨s₁, hstep, hexec⟩, ?_, hnodes.trans (hnode L hLf), ?_⟩
    · rw [htask, List.filter_cons]
      split <;> simp [Nat.add_assoc, Nat.add_comm]
    · have hhist₁ : s₁.history = s.history ++
          if (d f).isHandled then [.handled f e e, .applied f e] else [] := by
        rw [hs₁]
        refine (history_send clock s f _ (d f)).trans ?_
        simp only [eventsOf, hstaged f List.mem_cons_self]
      rw [hhistory, hhist₁, List.append_assoc]
      rfl

/-- The commit phase of a write of `e` is about to begin at the leader `L`. -/
structure Committing (members : Finset String) (s : Cluster) (L : String) (w : WriteCall)
    (e : LogEntry) (targets : List String) : Prop where
  id : (s.nodes L).nodeId = L
  member : L ∈ members
  view : (s.nodes L).membership.aliveIds.toFinset = members
  quorum : (s.nodes L).config.defaultConsistency = .quorum
  admitted : ∃ replicas, (s.nodes L).admitWrite w = .ok replicas ∧
    targets = (s.nodes L).targets replicas
  task : s.tasks L = some (.commit e targets 0)
  /-- No other write's entry is staged under the index. -/
  staged : ∀ f ∈ targets, (s.nodes f).toApply e = e

/-- The leader answered the write with success between `s` and `t`. -/
def AckedSince (s t : Cluster) (e : LogEntry) (L : String) : Prop :=
  Event.replied L e (.ok (.str "OK")) ∈ t.history.drop s.history.length

section Commit

variable {members : Finset String} {s : Cluster} {L : String} {w : WriteCall} {e : LogEntry}
  {targets : List String}

theorem Committing.mem_targets (h : Committing members s L w e targets) {f : String} :
    f ∈ targets ↔ f ∈ members ∧ f ≠ L := by
  obtain ⟨replicas, hadmit, htargets⟩ := h.admitted
  have halive : ∀ {n}, n ∈ (s.nodes L).membership.aliveIds ↔ n ∈ members := by
    intro n
    rw [← h.view, List.mem_toFinset]
  have hself : (s.nodes L).nodeId ∈ (s.nodes L).membership.aliveIds := by
    rw [h.id]
    exact halive.mpr h.member
  rw [htargets, Node.mem_targets, (Node.admitWrite_eq hadmit).2.2, if_pos hself, h.id, halive]
  exact ⟨fun hf => ⟨hf.1, hf.2.1⟩, fun hf => ⟨hf.1, hf.2, hf.1⟩⟩

theorem Committing.nodup (h : Committing members s L w e targets) : targets.Nodup := by
  obtain ⟨replicas, hadmit, htargets⟩ := h.admitted
  rw [htargets]
  exact Node.nodup_targets _ (Node.nodup_admitted hadmit)

variable (hash) in
/-- **The commit phase**: when the write is answered with success, and who applied it. -/
theorem Committing.outcome (h : Committing members s L w e targets) (d : String → Delivery)
    (clock : Time) : ∃ t, exec (step hash) s (commitRun L targets d clock) = some t ∧
      (AckedSince s t e L ↔ (s.nodes L).config.replicationFactor / 2 + 1 ≤
        (targets.filter fun f => (d f).isAnswered).length + 1) ∧
      ∀ n, AppliedSince s t e n ↔
        (n ∈ targets ∧ (d n).isHandled) ∨ (n = L ∧ AckedSince s t e L) := by
  have hL : L ∉ targets := fun hmem => (h.mem_targets.mp hmem).2 rfl
  have hknown : ∀ f ∈ targets, ((s.nodes L).membership.getNode f).isSome := by
    intro f hf
    have halive : f ∈ (s.nodes L).membership.aliveIds := by
      rw [← List.mem_toFinset, h.view]
      exact (h.mem_targets.mp hf).1
    obtain ⟨i, hi, -⟩ := MembershipManager.mem_aliveIds halive
    rw [hi]
    rfl
  obtain ⟨s', hexec, htask, hnode, hhistory⟩ := exec_commits hash d clock h.task hL
    h.nodup hknown h.staged
  rw [Nat.zero_add] at htask
  generalize hk : (targets.filter fun f => (d f).isAnswered).length = k at htask ⊢
  have hrequired : requiredTotal (s.nodes L).config.replicationFactor
      (s.nodes L).config.defaultConsistency = (s.nodes L).config.replicationFactor / 2 + 1 := by
    simp [requiredTotal, h.quorum]
  -- nothing but the answer follows the commit messages
  have hrun : ∀ t, step hash s' (.settle L clock) = some t →
      exec (step hash) s (commitRun L targets d clock) = some t := fun t ht =>
    exec_append.mpr ⟨s', hexec, exec_cons.mpr ⟨t, ht, rfl⟩⟩
  by_cases hfew : k + 1 < (s.nodes L).config.replicationFactor / 2 + 1
  · have hsettle : (s.nodes L).settleWrite clock e k =
        (s.nodes L, .error ("Commit acknowledgements unavailable for " ++ e.command.text)) := by
      unfold Node.settleWrite
      rw [hrequired, if_pos hfew]
    refine ⟨_, hrun _ (by simp only [step, htask, hnode, hsettle]; rfl), ?_, fun n => ?_⟩
    · simp only [AckedSince, log, setTask, setNode, hhistory, List.append_assoc,
        List.drop_left, List.mem_append, replied_not_mem_commitEvents, Response.success]
      simp
      omega
    · simp only [AppliedSince, AckedSince, log, setTask, setNode, hhistory, List.append_assoc,
        List.drop_left, List.mem_append, applied_mem_commitEvents,
        replied_not_mem_commitEvents, Response.success]
      simp
  · have hsettle : (s.nodes L).settleWrite clock e k =
        ((s.nodes L).applyLogEntry clock e, .ok (.str "OK")) := by
      unfold Node.settleWrite
      rw [hrequired, if_neg hfew]
    refine ⟨_, hrun _ (by simp only [step, htask, hnode, hsettle]; rfl), ?_, fun n => ?_⟩
    · simp only [AckedSince, log, setTask, setNode, hhistory, List.append_assoc,
        List.drop_left, List.mem_append, Response.success]
      simp
      omega
    · simp only [AppliedSince, AckedSince, log, setTask, setNode, hhistory, List.append_assoc,
        List.drop_left, List.mem_append, applied_mem_commitEvents, Response.success]
      simp

end Commit

/-! ## Writes and reads -/

/-- Whatever commit messages are lost, if the write is answered with success then every set of as
    many of the replicas as a QUORUM read needs has a node where the apply callback ran on the
    write. -/
def WriteMeetsReads (hash : String → Nat) (s : Cluster) (L : String) (e : LogEntry)
    (targets replicas : List String) (needed : Nat) : Prop :=
  ∀ d clock t, exec (step hash) s (commitRun L targets d clock) = some t → AckedSince s t e L →
    ∀ asked ⊆ replicas.toFinset, asked.card = needed →
      ∃ n, Ran hash s (commitRun L targets d clock) n e ∧ n ∈ asked

/-- The applied sets of acknowledged writes are all sets of enough members around the leader. -/
theorem writeMeetsReads_iff_sets {members : Finset String} {s : Cluster} {L : String}
    {w : WriteCall} {e : LogEntry} {targets : List String} (h : Committing members s L w e targets)
    (replicas : List String) (needed : Nat) :
    WriteMeetsReads hash s L e targets replicas needed ↔
      ∀ applied ⊆ members, L ∈ applied →
        (s.nodes L).config.replicationFactor / 2 + 1 ≤ applied.card →
        ∀ asked ⊆ replicas.toFinset, asked.card = needed → ∃ n, n ∈ applied ∧ n ∈ asked := by
  constructor
  · intro hmeets applied hsub hL hcard asked hasked haskedcard
    -- the messages to `applied` are answered, the others lost
    obtain ⟨t, hexec, hacked, happlied⟩ := h.outcome hash
      (fun f => if f ∈ applied then .answered else .unsent) 0
    have hanswered : targets.filter (fun f =>
        (if f ∈ applied then Delivery.answered else .unsent).isAnswered) =
          targets.filter fun f => f ∈ applied := by
      refine List.filter_congr fun f _ => ?_
      by_cases hf : f ∈ applied <;> simp [hf, Delivery.isAnswered]
    have hlength : (targets.filter fun f => f ∈ applied).length + 1 = applied.card := by
      rw [← List.toFinset_card_of_nodup (h.nodup.filter _), ← Finset.card_erase_add_one hL]
      congr 2
      ext f
      simp only [List.mem_toFinset, List.mem_filter, decide_eq_true_eq, h.mem_targets,
        Finset.mem_erase]
      exact ⟨fun hf => ⟨hf.1.2, hf.2⟩, fun hf => ⟨⟨hsub hf.2, hf.1⟩, hf.2⟩⟩
    rw [hanswered, hlength] at hacked
    obtain ⟨n, hn, hnasked⟩ := hmeets _ 0 t hexec (hacked.mpr hcard) asked hasked haskedcard
    refine ⟨n, ?_, hnasked⟩
    rw [ran_iff hexec] at hn
    rcases (happlied n).mp hn with ⟨-, hd⟩ | ⟨rfl, -⟩
    · by_contra hnot
      simp [hnot, Delivery.isHandled] at hd
    · exact hL
  · intro hmeets d clock t hexec hacked asked hasked haskedcard
    obtain ⟨t', hexec', hacked', happlied⟩ := h.outcome hash d clock
    obtain rfl : t' = t := Option.some.inj (hexec'.symm.trans hexec)
    have hL : L ∉ (targets.filter fun f => (d f).isHandled).toFinset := by
      rw [List.mem_toFinset, List.mem_filter, h.mem_targets]
      exact fun hmem => hmem.1.2 rfl
    have hcard : (s.nodes L).config.replicationFactor / 2 + 1 ≤
        (insert L (targets.filter fun f => (d f).isHandled).toFinset).card := by
      rw [Finset.card_insert_of_notMem hL, List.toFinset_card_of_nodup (h.nodup.filter _)]
      refine le_trans (hacked'.mp hacked) (Nat.succ_le_succ ?_)
      exact (List.monotone_filter_right targets fun f =>
        Delivery.isHandled_of_isAnswered).length_le
    have hsub : insert L (targets.filter fun f => (d f).isHandled).toFinset ⊆ members := by
      refine Finset.insert_subset h.member fun f hf => ?_
      exact (h.mem_targets.mp (List.mem_filter.mp (List.mem_toFinset.mp hf)).1).1
    obtain ⟨n, hn, hnasked⟩ := hmeets _ hsub (Finset.mem_insert_self _ _) hcard asked hasked
      haskedcard
    refine ⟨n, (ran_iff hexec n e).mpr ((happlied n).mpr ?_), hnasked⟩
    rcases Finset.mem_insert.mp hn with rfl | hn
    · exact .inr ⟨rfl, hacked⟩
    · exact .inl (List.mem_filter.mp (List.mem_toFinset.mp hn))

/-- **When QUORUM writes and QUORUM reads meet**: all members are alive and on the ring of the
    reader `r`, and at least as many as the replication factor. A write of the leader `L`
    that is answered with success then meets every quorum of the key's replicas, whatever
    commit messages are lost, if and only if there are fewer than `2 * (RF // 2 + 1)` members,
    or the leader is a replica of the key and the replication factor is at most 2. -/
theorem write_meets_reads_iff {members : Finset String} {s : Cluster} {L : String} {w : WriteCall}
    {e : LogEntry} {targets : List String} (h : Committing members s L w e targets) {r : String}
    (hring : (s.nodes r).ring.Built hash) (hvirtual : 1 ≤ (s.nodes r).ring.virtualNodes)
    (hnodes : (s.nodes r).ring.nodes = members)
    (hfactor : (s.nodes r).config.replicationFactor = (s.nodes L).config.replicationFactor)
    (hsize : (s.nodes L).config.replicationFactor ≤ members.card) :
    WriteMeetsReads hash s L e targets ((s.nodes r).readPlan hash e.key .quorum).replicas
        ((s.nodes r).readPlan hash e.key .quorum).needed ↔
      members.card < 2 * ((s.nodes L).config.replicationFactor / 2 + 1) ∨
        (L ∈ ((s.nodes r).readPlan hash e.key .quorum).replicas ∧
          (s.nodes L).config.replicationFactor ≤ 2) := by
  have hneeded : ((s.nodes r).readPlan hash e.key .quorum).needed =
      (s.nodes L).config.replicationFactor / 2 + 1 := by
    rw [← hfactor]
    exact max_eq_right (Nat.le_add_left 1 _)
  have hreplicas : ((s.nodes r).readPlan hash e.key .quorum).replicas =
      (s.nodes r).ring.getNodes hash e.key (s.nodes L).config.replicationFactor := by
    rw [← hfactor]
    rfl
  rw [hneeded, hreplicas, writeMeetsReads_iff_sets h]
  have hpos : 0 < members.card := Finset.card_pos.mpr ⟨L, h.member⟩
  have hcard : ((s.nodes r).ring.getNodes hash e.key
      (s.nodes L).config.replicationFactor).toFinset.card =
        max 1 (s.nodes L).config.replicationFactor := by
    rw [List.toFinset_card_of_nodup (ConsistentHashRing.nodup_getNodes _ _ _ _),
      hring.length_getNodes hvirtual, ConsistentHashRing.getNodeCount, hnodes]
    omega
  have hsub : ((s.nodes r).ring.getNodes hash e.key
      (s.nodes L).config.replicationFactor).toFinset ⊆ members := by
    intro n hn
    rw [← hnodes]
    exact ConsistentHashRing.mem_getNodes (List.mem_toFinset.mp hn)
  rw [quorums_meet_iff hsub h.member (by omega), hcard, List.mem_toFinset]
  refine or_congr Iff.rfl (and_congr Iff.rfl ?_)
  omega

/-! ### Four nodes -/

/-- Places "b", "c" and "d" before "a" for the key "k". -/
def fourHash (x : String) : Nat := if x = "a:0" then 1 else 0

def fourNode (id : String) : Node :=
  { sampleNode id with
    membership := .ofIds ["a", "b", "c", "d"]
    ring := ConsistentHashRing.build fourHash 1 [.add "a", .add "b", .add "c", .add "d"] }

/-- Replication factor 3, as in `sample`. -/
def fourNodes : Cluster := { sample with nodes := fourNode }

/-- "a" is elected and prepares its write at all other nodes. -/
def fourSetup : List Label :=
  [.startElection "a", .requestVote "a" .answered 0, .requestVote "a" .answered 0,
    .requestVote "a" .answered 0, .countVotes "a",
    .call "a" { operation := .set, key := "k", value := .int 1 }, .begin 0 1 1,
    .prepare "a" .answered 1, .prepare "a" .answered 1, .prepare "a" .answered 1, .endPrepare "a"]

def fourEntry : LogEntry :=
  { term := 1, index := 1, command := .set, key := "k", value := .int 1, timestamp := 1
    version := 1, createdAt := some 1, coordinatorId := "a" }

/-- The state after `fourSetup`. -/
def fourPrepared : Cluster := (exec (step fourHash) fourNodes fourSetup).getD fourNodes

theorem committing_fourPrepared :
    Committing {"a", "b", "c", "d"} fourPrepared "a"
      { operation := .set, key := "k", value := .int 1 } fourEntry ["b", "c", "d"] := by
  refine ⟨rfl, by decide, ?_, rfl, ⟨["a", "b", "c", "d"], rfl, rfl⟩, rfl, fun f hf => ?_⟩
  · exact (by decide : (MembershipManager.ofIds ["a", "b", "c", "d"]).aliveIds.toFinset =
      {"a", "b", "c", "d"})
  · simp only [List.mem_cons, List.not_mem_nil, or_false] at hf
    rcases hf with rfl | rfl | rfl <;> rfl

theorem write_meets_reads_iff_sample :
    WriteMeetsReads fourHash fourPrepared "a" fourEntry ["b", "c", "d"]
        ((fourPrepared.nodes "c").readPlan fourHash "k" .quorum).replicas
        ((fourPrepared.nodes "c").readPlan fourHash "k" .quorum).needed ↔
      ({"a", "b", "c", "d"} : Finset String).card <
          2 * ((fourPrepared.nodes "a").config.replicationFactor / 2 + 1) ∨
        ("a" ∈ ((fourPrepared.nodes "c").readPlan fourHash "k" .quorum).replicas ∧
          (fourPrepared.nodes "a").config.replicationFactor ≤ 2) :=
  write_meets_reads_iff committing_fourPrepared (r := "c")
    (ConsistentHashRing.built_build fourHash 1 [.add "a", .add "b", .add "c", .add "d"])
    (by decide) (by decide) rfl (by decide)

/-- Four nodes, replication factor 3, and the leader "a" is not a replica of "k": the commit
    messages to "c" and "d" are lost, the write is answered with success, and a QUORUM read
    may ask "c" and "d". -/
theorem quorum_write_missed :
    ∃ t, exec (step fourHash) fourPrepared
        (commitRun "a" ["b", "c", "d"] (fun f => if f = "b" then .answered else .unsent) 1) =
          some t ∧
      AckedSince fourPrepared t fourEntry "a" ∧
      {"c", "d"} ⊆ ((fourPrepared.nodes "c").readPlan fourHash "k" .quorum).replicas.toFinset ∧
      ({"c", "d"} : Finset String).card =
        ((fourPrepared.nodes "c").readPlan fourHash "k" .quorum).needed ∧
      (¬ ∃ n, AppliedSince fourPrepared t fourEntry n ∧ n ∈ ({"c", "d"} : Finset String)) ∧
      ∀ n ∈ ({"c", "d"} : Finset String), (t.nodes n).store.get? "k" = none := by
  have hrun : (exec (step fourHash) fourPrepared (commitRun "a" ["b", "c", "d"]
      (fun f => if f = "b" then .answered else .unsent) 1)).map
        (fun t => (t.history.drop fourPrepared.history.length,
          (t.nodes "c").store.get? "k", (t.nodes "d").store.get? "k")) =
      some ([.handled "b" fourEntry fourEntry, .applied "b" fourEntry, .applied "a" fourEntry,
        .replied "a" fourEntry (.ok (.str "OK"))], none, none) := rfl
  obtain ⟨t, ht, hobs⟩ := Option.map_eq_some_iff.mp hrun
  obtain ⟨hevents, hc, hd⟩ : t.history.drop fourPrepared.history.length = _ ∧
      (t.nodes "c").store.get? "k" = none ∧ (t.nodes "d").store.get? "k" = none := by
    simpa only [Prod.mk.injEq] using hobs
  refine ⟨t, ht, ?_, by decide, by decide, ?_, fun n hn => ?_⟩
  · rw [AckedSince, hevents]
    simp
  · rintro ⟨n, hn, hasked⟩
    rw [AppliedSince, hevents] at hn
    simp only [List.mem_cons, reduceCtorEq, Event.applied.injEq, List.not_mem_nil, or_false,
      false_or, and_true] at hn
    rcases hn with rfl | rfl <;> exact absurd hasked (by decide)
  · rcases Finset.mem_insert.mp hn with rfl | hn
    · exact hc
    · rw [Finset.mem_singleton.mp hn]
      exact hd

end Cluster

end MiniDb
