/-
  What a migration task comes to.

  `Course` is what an execution has done so far: batches of 1 to 100 keys that list, in order,
  the keys found locally, all of them sent but perhaps the last, at which the execution failed.
  `Running` adds the stores: until keys are deleted the source is as it was, every imported
  batch is at the target, and a record that comes back to the source is the one it has.

  `task_outcome` puts this together for a task that a join or a REBALANCE created, whatever
  happens to its batches: it ends, completed if and only if every batch was sent; a failed one
  leaves the source as it was; and what has gone from the source is at the target.
-/
import MiniDb.Node.MigrationSteps
import MiniDb.Node.Read

namespace MiniDb

open Lib ShardMigrationManager

/-! ## The course of an execution -/

namespace Execution

/-- The keys of the batches, in the order in which they were handed over. -/
def batchKeys (sent : List (Dict String KVStore.Item × Bool)) : List String :=
  sent.flatMap fun b => b.1.keys

def AllSent (sent : List (Dict String KVStore.Item × Bool)) : Prop := ∀ b ∈ sent, b.2 = true

/-- A batch of the captured data. -/
structure IsBatch (localKeys b : Dict String KVStore.Item) : Prop where
  pos : 1 ≤ b.length
  le : b.length ≤ 100
  items : ∀ key i, b.get? key = some i → localKeys.get? key = some i

variable (hash : String → Nat) (mgr : ShardMigrationManager) (keys : List String)
  (localKeys : Dict String KVStore.Item)

/-- What an execution of a task with these keys has done. -/
inductive Course (e : Execution) : Prop
  | sending {rest : List String} (phase : e.phase = .sending rest) (left : rest <:+ keys)
      (sent : AllSent e.sent) (state : e.task.state = .inProgress)
      (listed : batchKeys e.sent ++ presentKeys localKeys rest = presentKeys localKeys keys)
  | deleting {rest : List String} (phase : e.phase = .deleting rest)
      (left : rest <:+ mgr.nonReplicaKeys hash keys) (sent : AllSent e.sent)
      (state : e.task.state = .inProgress)
      (listed : batchKeys e.sent = presentKeys localKeys keys)
  | completed (phase : e.phase = .ended) (sent : AllSent e.sent)
      (state : e.task.state = .completed)
      (listed : batchKeys e.sent = presentKeys localKeys keys)
  | failed (phase : e.phase = .ended) (sent : AllSent e.sent.dropLast) (last : ¬AllSent e.sent)
      (state : e.task.state = .failed)
      (listed : batchKeys e.sent <+: presentKeys localKeys keys)

/-- The steps that are left to an execution, at most. -/
def remaining (e : Execution) : Nat :=
  match e.phase with
  | .sending rest => rest.length + e.task.keys.length + 2
  | .deleting rest => rest.length + 1
  | .ended => 0

variable {hash mgr keys localKeys} {e : Execution}

theorem batchKeys_append (sent : List (Dict String KVStore.Item × Bool))
    (b : Dict String KVStore.Item × Bool) :
    batchKeys (sent ++ [b]) = batchKeys sent ++ b.1.keys := by
  simp [batchKeys]

theorem AllSent.append {sent : List (Dict String KVStore.Item × Bool)} (h : AllSent sent)
    (b : Dict String KVStore.Item) : AllSent (sent ++ [(b, true)]) := by
  intro c hc
  rcases List.mem_append.mp hc with hc | hc
  · exact h c hc
  · rw [List.mem_singleton.mp hc]

/-- The next batch of a course. -/
theorem nextBatch_course (hnodup : keys.Nodup) {rest : List String} (left : rest <:+ keys)
    (hbatch : (nextBatch localKeys Dict.empty rest).1.length ≠ 0) :
    IsBatch localKeys (nextBatch localKeys Dict.empty rest).1 ∧
      (nextBatch localKeys Dict.empty rest).2 <:+ rest ∧
      (nextBatch localKeys Dict.empty rest).2.length < rest.length ∧
      (nextBatch localKeys Dict.empty rest).1.keys ++
        presentKeys localKeys (nextBatch localKeys Dict.empty rest).2 =
          presentKeys localKeys rest := by
  have hspec := nextBatch_empty_spec localKeys (hnodup.sublist left.sublist)
  refine ⟨⟨by omega, hspec.size, nextBatch_items rest fun _ _ h => by cases h⟩, hspec.left, ?_,
    hspec.taken⟩
  have htaken := congrArg List.length hspec.taken
  rw [List.length_append, Dict.length_keys] at htaken
  change _ = (presentKeys localKeys rest).length at htaken
  refine lt_of_le_of_ne hspec.left.length_le fun heq => ?_
  rw [hspec.left.eq_of_length heq] at htaken
  omega

/-- The next batch has the captured entries of the keys that are not left after it. -/
theorem get?_nextBatch_iff (hnodup : keys.Nodup) {rest : List String} (left : rest <:+ keys)
    (hbatch : (nextBatch localKeys Dict.empty rest).1.length ≠ 0) (key : String)
    (i : KVStore.Item) :
    (nextBatch localKeys Dict.empty rest).1.get? key = some i ↔
      localKeys.get? key = some i ∧ key ∈ rest ∧
        key ∉ (nextBatch localKeys Dict.empty rest).2 := by
  obtain ⟨hitems, -, -, htaken⟩ := nextBatch_course hnodup left hbatch
  generalize (nextBatch localKeys Dict.empty rest).1 = batch at *
  generalize (nextBatch localKeys Dict.empty rest).2 = rest' at *
  have hrest : (batch.keys ++ presentKeys localKeys rest').Nodup :=
    htaken ▸ (hnodup.sublist left.sublist).filter _
  constructor
  · intro hi
    have hin : key ∈ batch.keys := (Dict.mem_keys_iff batch key).mpr (by rw [hi]; simp)
    have hpresent : key ∈ presentKeys localKeys rest := htaken ▸ List.mem_append_left _ hin
    obtain ⟨hkey, hsome⟩ := List.mem_filter.mp hpresent
    refine ⟨hitems.items key i hi, hkey, fun hlater => ?_⟩
    exact List.disjoint_of_nodup_append hrest hin (List.mem_filter.mpr ⟨hlater, hsome⟩)
  · rintro ⟨hi, hkey, hnot⟩
    have hpresent : key ∈ batch.keys ++ presentKeys localKeys rest' := by
      rw [htaken]
      exact List.mem_filter.mpr ⟨hkey, by rw [hi]; rfl⟩
    have hin := (List.mem_append.mp hpresent).resolve_right fun hin =>
      hnot (List.mem_filter.mp hin).1
    obtain ⟨i', hi'⟩ := Option.ne_none_iff_exists'.mp ((Dict.mem_keys_iff batch key).mp hin)
    rw [hi', ← hi, hitems.items key i' hi']

/-- What a course is while batches are sent. -/
theorem Course.of_sending {rest : List String} (hphase : e.phase = .sending rest)
    (h : Course hash mgr keys localKeys e) :
    rest <:+ keys ∧ AllSent e.sent ∧ e.task.state = .inProgress ∧
      batchKeys e.sent ++ presentKeys localKeys rest = presentKeys localKeys keys := by
  cases h with
  | sending phase left sent state listed =>
    obtain rfl := ExecutionPhase.sending.inj (hphase.symm.trans phase)
    exact ⟨left, sent, state, listed⟩
  | deleting phase => cases hphase.symm.trans phase
  | completed phase => cases hphase.symm.trans phase
  | failed phase => cases hphase.symm.trans phase

/-- And while keys are deleted. -/
theorem Course.of_deleting {rest : List String} (hphase : e.phase = .deleting rest)
    (h : Course hash mgr keys localKeys e) :
    rest <:+ mgr.nonReplicaKeys hash keys ∧ AllSent e.sent ∧ e.task.state = .inProgress ∧
      batchKeys e.sent = presentKeys localKeys keys := by
  cases h with
  | deleting phase left sent state listed =>
    obtain rfl := ExecutionPhase.deleting.inj (hphase.symm.trans phase)
    exact ⟨left, sent, state, listed⟩
  | sending phase => cases hphase.symm.trans phase
  | completed phase => cases hphase.symm.trans phase
  | failed phase => cases hphase.symm.trans phase

/-- An ended course was completed with all batches sent, or failed at the last one. -/
theorem Course.of_ended (hphase : e.phase = .ended) (h : Course hash mgr keys localKeys e) :
    (AllSent e.sent ∧ e.task.state = .completed ∧
        batchKeys e.sent = presentKeys localKeys keys) ∨
      (¬AllSent e.sent ∧ e.task.state = .failed) := by
  cases h with
  | sending phase => cases hphase.symm.trans phase
  | deleting phase => cases hphase.symm.trans phase
  | completed phase sent state listed => exact .inl ⟨sent, state, listed⟩
  | failed phase sent last state => exact .inr ⟨last, state⟩

/-- The batches list present keys, in order. -/
theorem Course.listed_prefix (h : Course hash mgr keys localKeys e) :
    batchKeys e.sent <+: presentKeys localKeys keys := by
  cases h with
  | sending phase left sent state listed => exact ⟨_, listed⟩
  | deleting phase left sent state listed => exact listed ▸ List.prefix_refl _
  | completed phase sent state listed => exact listed ▸ List.prefix_refl _
  | failed phase sent last state listed => exact listed

/-- Only the last batch can have failed. -/
theorem Course.allSent_dropLast (h : Course hash mgr keys localKeys e) :
    AllSent e.sent.dropLast := by
  have hdropLast : AllSent e.sent → AllSent e.sent.dropLast := fun hall b hb =>
    hall b (List.mem_of_mem_dropLast hb)
  cases h with
  | sending phase left sent => exact hdropLast sent
  | deleting phase left sent => exact hdropLast sent
  | completed phase sent => exact hdropLast sent
  | failed phase sent => exact sent

theorem Course.advance {rest : List String} (hphase : e.phase = .sending rest)
    (h : Course hash mgr keys localKeys e) (hnodup : keys.Nodup)
    (hbatch : (nextBatch localKeys Dict.empty rest).1.length ≠ 0) :
    Course hash mgr keys localKeys (e.advance (nextBatch localKeys Dict.empty rest).1
      (nextBatch localKeys Dict.empty rest).2) := by
  obtain ⟨left, sent, state, listed⟩ := h.of_sending hphase
  obtain ⟨-, hleft, -, htaken⟩ := nextBatch_course hnodup left hbatch
  refine .sending rfl (hleft.trans left) (sent.append _) state ?_
  change batchKeys (e.sent ++ [_]) ++ _ = _
  rw [batchKeys_append, List.append_assoc, htaken, listed]

theorem Course.fail {rest : List String} (hphase : e.phase = .sending rest)
    (h : Course hash mgr keys localKeys e) (hnodup : keys.Nodup)
    (hbatch : (nextBatch localKeys Dict.empty rest).1.length ≠ 0) :
    Course hash mgr keys localKeys (e.fail (nextBatch localKeys Dict.empty rest).1) := by
  obtain ⟨left, sent, state, listed⟩ := h.of_sending hphase
  obtain ⟨-, -, -, htaken⟩ := nextBatch_course hnodup left hbatch
  refine .failed rfl ?_ ?_ rfl ?_
  · change AllSent (e.sent ++ [_]).dropLast
    rwa [List.dropLast_concat]
  · intro hall
    cases hall _ (List.mem_append_right _ (List.mem_singleton_self _))
  · change batchKeys (e.sent ++ [_]) <+: _
    rw [batchKeys_append, ← listed, ← htaken, ← List.append_assoc]
    exact List.prefix_append _ _

theorem Course.endLoop {rest : List String} (hphase : e.phase = .sending rest)
    (h : Course hash mgr keys localKeys e) (hnodup : keys.Nodup)
    (hbatch : (nextBatch localKeys Dict.empty rest).1.length = 0) :
    Course hash mgr keys localKeys
      { e with phase := .deleting (mgr.nonReplicaKeys hash keys) } := by
  obtain ⟨left, sent, state, listed⟩ := h.of_sending hphase
  have hspec := nextBatch_empty_spec localKeys (hnodup.sublist left.sublist)
  have hrest := hspec.last (by rw [hbatch]; decide)
  have htaken := hspec.taken
  rw [hrest, List.length_eq_zero_iff.mp ((Dict.length_keys _).trans hbatch)] at htaken
  change [] = presentKeys localKeys rest at htaken
  refine .deleting rfl (List.suffix_refl _) sent state ?_
  rw [← htaken, List.append_nil] at listed
  exact listed

theorem Course.delete {key : String} {rest : List String}
    (hphase : e.phase = .deleting (key :: rest)) (h : Course hash mgr keys localKeys e) :
    key ∈ mgr.nonReplicaKeys hash keys ∧
      Course hash mgr keys localKeys { e with phase := .deleting rest } := by
  obtain ⟨left, sent, state, listed⟩ := h.of_deleting hphase
  exact ⟨left.subset List.mem_cons_self,
    .deleting rfl ((List.suffix_cons key rest).trans left) sent state listed⟩

theorem Course.complete (hphase : e.phase = .deleting []) (h : Course hash mgr keys localKeys e) :
    Course hash mgr keys localKeys e.complete := by
  obtain ⟨-, sent, -, listed⟩ := h.of_deleting hphase
  exact .completed rfl sent rfl listed

/-- The execution has begun to delete. -/
def Deletes (e : Execution) : Prop := (∃ rest, e.phase = .deleting rest) ∨ e.task.state = .completed

/-- Then all that was found has been sent. -/
theorem Course.of_deletes (h : Course hash mgr keys localKeys e) (hdel : e.Deletes) :
    AllSent e.sent ∧ batchKeys e.sent = presentKeys localKeys keys := by
  cases h with
  | deleting phase left sent state listed => exact ⟨sent, listed⟩
  | completed phase sent state listed => exact ⟨sent, listed⟩
  | sending phase left sent state listed =>
    rcases hdel with ⟨rest, hphase⟩ | hstate
    · cases hphase.symm.trans phase
    · cases hstate.symm.trans state
  | failed phase sent last state listed =>
    rcases hdel with ⟨rest, hphase⟩ | hstate
    · cases hphase.symm.trans phase
    · cases hstate.symm.trans state

theorem not_deletes_of_sending {rest : List String} (hphase : e.phase = .sending rest)
    (h : Course hash mgr keys localKeys e) : ¬e.Deletes := by
  obtain ⟨-, -, state, -⟩ := h.of_sending hphase
  rintro (⟨rest', hphase'⟩ | hstate)
  · cases hphase'.symm.trans hphase
  · cases hstate.symm.trans state

end Execution

/-! ## The stores -/

namespace Migrations

open Execution

/-- The steps of the task at `source`. -/
def TaskStep (source : String) : MigrationLabel → Bool
  | .send n _ _ => n = source
  | .endLoop n => n = source
  | .delete n _ => n = source
  | .finish n => n = source
  | _ => false

/-- What its imports set off, and what no store depends on. -/
def Background : MigrationLabel → Bool
  | .fanout _ _ => true
  | .membership _ _ => true
  | _ => false

variable (hash : String → Nat)

/-- A task and the data captured for it, when the cluster is in the state `s`. -/
structure Starts (s : Migrations) (source : String) (task : MigrationTask)
    (localKeys : Dict String KVStore.Item) : Prop where
  created : (s.manager source).Created hash task
  id : (s.manager source).localNodeId = source
  plain : ∀ k m, s.record source k = some m → m.expiresAt = none ∧ m.Dated
  captured : ∀ k, localKeys.get? k = (s.record source k).map KVStore.itemOf

/-- The target has a record of the key that is not older than the captured one. -/
def AtTarget (t : Migrations) (target key : String) (i : KVStore.Item) : Prop :=
  ∃ m, t.record target key = some m ∧ (KVStore.recordOf i).sortKey ≤ m.sortKey

/-- The state `t` of the cluster while the execution `e` of a task that started in `s` runs, or
    after it. -/
structure Running (s : Migrations) (source : String) (task : MigrationTask)
    (localKeys : Dict String KVStore.Item) (t : Migrations) (e : Execution) : Prop where
  run : t.running source = some e
  keys : e.task.keys = task.keys
  target : e.task.targetNode = task.targetNode
  data : e.localKeys = localKeys
  manager : t.manager source = s.manager source
  course : Course hash (s.manager source) task.keys localKeys e
  batches : ∀ b ∈ e.sent, IsBatch localKeys b.1
  imported : ∀ b ∈ e.sent, b.2 = true → ∀ key i, b.1.get? key = some i →
    t.AtTarget task.targetNode key i
  fanout : ∀ p ∈ t.fanout, s.record source p.2.key = some (Merge.recordOf p.2)
  unchanged : ¬e.Deletes → (t.nodes source).store = (s.nodes source).store
  deleted : ∀ key, t.record source key ≠ s.record source key →
    t.record source key = none ∧ key ∈ (s.manager source).nonReplicaKeys hash task.keys

section Steps

variable {hash} {s t : Migrations} {source : String} {task : MigrationTask}
  {localKeys : Dict String KVStore.Item} {e : Execution}

theorem Starts.record (hs : Starts hash s source task localKeys) {key : String}
    {i : KVStore.Item} (h : localKeys.get? key = some i) :
    s.record source key = some (KVStore.recordOf i) ∧
      (KVStore.recordOf i).expiresAt = none ∧ (KVStore.recordOf i).Dated := by
  rw [hs.captured] at h
  obtain ⟨m, hm, rfl⟩ := Option.map_eq_some_iff.mp h
  exact ⟨hm, hs.plain key m hm⟩

/-- A batch of the captured data brings the target its records, and takes none from it. -/
theorem atTarget_import (hs : Starts hash s source task localKeys)
    {batch : Dict String KVStore.Item} (hbatch : IsBatch localKeys batch) (now : Time)
    {key : String} {i : KVStore.Item} (hi : localKeys.get? key = some i)
    (h : batch.get? key = some i ∨ t.AtTarget task.targetNode key i) :
    (t.importAt hash now task.targetNode batch).AtTarget task.targetNode key i := by
  unfold AtTarget at h ⊢
  rw [record_importAt, if_pos rfl]
  cases hget : batch.get? key with
  | none =>
    rw [hget] at h
    exact h.resolve_left fun h => by cases h
  | some i' =>
    obtain rfl := Option.some.inj (hi.symm.trans (hbatch.items key i' hget))
    dsimp only
    rw [Merge.afterStore_import (hs.record hi).2.2]
    exact le_keepNewer _ _ _

/-- The source keeps its store when a batch is imported, be it at the source itself. -/
theorem store_import (hs : Starts hash s source task localKeys)
    {batch : Dict String KVStore.Item} (hbatch : IsBatch localKeys batch) (now : Time)
    (hstore : (t.nodes source).store = (s.nodes source).store) :
    ((t.importAt hash now task.targetNode batch).nodes source).store =
      (s.nodes source).store := by
  rw [store_importAt]
  split
  · rw [Node.importKeys_same, hstore]
    intro key item hitem
    rw [Dict.get?_mapVals] at hitem
    obtain ⟨i, hi, rfl⟩ := Option.map_eq_some_iff.mp hitem
    obtain ⟨hrecord, hx, hdated⟩ := hs.record (hbatch.items key i hi)
    refine ⟨?_, hx, ?_⟩
    · have : 1 ≤ i.version := hdated.version
      show i.version ≠ 0
      omega
    · rw [Node.recordOf_importRecord hdated, hstore]
      exact hrecord
  · exact hstore

theorem record_of_store (hstore : (t.nodes source).store = (s.nodes source).store) (key : String) :
    t.record source key = s.record source key :=
  congrArg (fun store => KVStore.get? store key) hstore

theorem Running.send (hs : Starts hash s source task localKeys)
    (h : Running hash s source task localKeys t e) {rest : List String}
    (hphase : e.phase = .sending rest)
    (hnext : (nextBatch e.localKeys Dict.empty rest).1.length ≠ 0) (now : Time)
    (outcome : SendOutcome) :
    ∃ e', Running hash s source task localKeys
        (t.send hash source e (nextBatch e.localKeys Dict.empty rest).1
          (nextBatch e.localKeys Dict.empty rest).2 now outcome) e' ∧
      e'.remaining < e.remaining := by
  have hnodup := hs.created.nodup
  rw [h.data] at hnext ⊢
  obtain ⟨hbatch, -, hshorter, -⟩ := nextBatch_course hnodup (h.course.of_sending hphase).1 hnext
  have hadvance := h.course.advance hphase hnodup hnext
  have hfail := h.course.fail hphase hnodup hnext
  generalize (nextBatch localKeys Dict.empty rest).1 = batch at *
  generalize (nextBatch localKeys Dict.empty rest).2 = rest' at *
  have hdeletes := not_deletes_of_sending hphase h.course
  have hstore : ((t.send hash source e batch rest' now outcome).nodes source).store =
      (s.nodes source).store := by
    rw [store_send]
    split
    · rw [h.target]
      exact store_import hs hbatch now (h.unchanged hdeletes)
    · exact h.unchanged hdeletes
  have hkeep : ∀ key i, localKeys.get? key = some i → t.AtTarget task.targetNode key i →
      (t.send hash source e batch rest' now outcome).AtTarget task.targetNode key i := by
    intro key i hi hat
    unfold AtTarget
    rw [record_send]
    split
    · rw [h.target]
      exact atTarget_import hs hbatch now hi (.inr hat)
    · exact hat
  have hbrings : t.sends source e outcome = true → ∀ key i, batch.get? key = some i →
      (t.send hash source e batch rest' now outcome).AtTarget task.targetNode key i := by
    intro hsends key i hi
    unfold AtTarget
    rw [record_send, if_pos (delivers_of_sends hsends), h.target]
    exact atTarget_import hs hbatch now (hbatch.items key i hi) (.inl hi)
  have hfanout : ∀ p ∈ (t.send hash source e batch rest' now outcome).fanout,
      s.record source p.2.key = some (Merge.recordOf p.2) := by
    intro p hp
    rcases mem_fanout_send hp with hp | ⟨-, -, i, hi, hu⟩
    · exact h.fanout p hp
    · obtain ⟨hrecord, -, hdated⟩ := hs.record (hbatch.items _ i hi)
      rw [hu, Node.recordOf_importRecord hdated]
      exact hrecord
  have hmanager := manager_send hash t source e batch rest' now outcome source
  have hrun : (t.send hash source e batch rest' now outcome).running source =
      some (if t.sends source e outcome then e.advance batch rest' else e.fail batch) :=
    Function.update_self ..
  have hbatches : ∀ ok, ∀ b ∈ e.sent ++ [(batch, ok)], IsBatch localKeys b.1 := by
    intro ok b hb
    rcases List.mem_append.mp hb with hb | hb
    · exact h.batches b hb
    · rw [List.mem_singleton.mp hb]
      exact hbatch
  have himported : ∀ ok, (ok = true → t.sends source e outcome = true) →
      ∀ b ∈ e.sent ++ [(batch, ok)], b.2 = true → ∀ key i, b.1.get? key = some i →
        (t.send hash source e batch rest' now outcome).AtTarget task.targetNode key i := by
    intro ok hok b hb htrue key i hi
    rcases List.mem_append.mp hb with hb | hb
    · exact hkeep key i ((h.batches b hb).items key i hi) (h.imported b hb htrue key i hi)
    · rw [List.mem_singleton.mp hb] at htrue hi
      exact hbrings (hok htrue) key i hi
  by_cases hsends : t.sends source e outcome = true
  · rw [if_pos hsends] at hrun
    refine ⟨e.advance batch rest', ⟨hrun, h.keys, h.target, h.data, hmanager.trans h.manager,
      hadvance, hbatches true, himported true fun _ => hsends, hfanout, fun _ => hstore,
      fun key hne => absurd (record_of_store hstore key) hne⟩, ?_⟩
    simp only [remaining, Execution.advance, hphase]
    omega
  · rw [if_neg hsends] at hrun
    refine ⟨e.fail batch, ⟨hrun, h.keys, h.target, h.data, hmanager.trans h.manager,
      hfail, hbatches false, himported false (fun hfalse => by cases hfalse), hfanout,
      fun _ => hstore, fun key hne => absurd (record_of_store hstore key) hne⟩, ?_⟩
    simp only [remaining, Execution.fail, hphase]
    omega

theorem Running.endLoop (hs : Starts hash s source task localKeys)
    (h : Running hash s source task localKeys t e) {rest : List String}
    (hphase : e.phase = .sending rest)
    (hnext : (nextBatch e.localKeys Dict.empty rest).1.length = 0) :
    ∃ e', Running hash s source task localKeys (t.setRunning source
        { e with phase := .deleting ((t.manager source).nonReplicaKeys hash e.task.keys) }) e' ∧
      e'.remaining < e.remaining := by
  rw [h.data] at hnext
  rw [h.manager, h.keys]
  refine ⟨_, ⟨Function.update_self .., h.keys, h.target, h.data, h.manager,
    h.course.endLoop hphase hs.created.nodup hnext, h.batches, h.imported, h.fanout,
    fun hdel => absurd (.inl ⟨_, rfl⟩) hdel, h.deleted⟩, ?_⟩
  have hle : ((s.manager source).nonReplicaKeys hash task.keys).length ≤ task.keys.length :=
    List.length_filter_le _ _
  simp only [remaining, hphase, h.keys]
  omega

theorem Running.delete (hs : Starts hash s source task localKeys)
    (h : Running hash s source task localKeys t e) {key : String} {rest : List String}
    (hphase : e.phase = .deleting (key :: rest)) (now : Time) :
    ∃ e', Running hash s source task localKeys ((t.setNode source
        ((t.nodes source).deleteMigratedKey now key)).setRunning source
          { e with phase := .deleting rest }) e' ∧
      e'.remaining < e.remaining := by
  obtain ⟨hkey, hcourse⟩ := h.course.delete hphase
  have htarget : task.targetNode ≠ source := by
    have hne := List.mem_filter.mp hkey
    exact hs.id ▸ hs.created.target_ne hash _ hne.1 (by simpa using hne.2)
  have hrecord := record_setNode t source ((t.nodes source).deleteMigratedKey now key)
  have hmanager : (t.setNode source ((t.nodes source).deleteMigratedKey now key)).manager source =
      t.manager source := manager_setNode (by rfl) source
  refine ⟨_, ⟨Function.update_self .., h.keys, h.target, h.data, hmanager.trans h.manager, hcourse,
    h.batches, ?_, h.fanout, fun hdel => absurd (.inl ⟨_, rfl⟩) hdel, ?_⟩, ?_⟩
  · intro b hb htrue k i hi
    unfold AtTarget
    rw [record_setRunning, hrecord, if_neg htarget]
    exact h.imported b hb htrue k i hi
  · intro k hne
    rw [record_setRunning, hrecord, if_pos rfl, Node.get?_deleteMigratedKey] at hne ⊢
    by_cases hk : k = key
    · rw [if_pos hk]
      exact ⟨rfl, hk ▸ hkey⟩
    · rw [if_neg hk] at hne ⊢
      exact h.deleted k hne
  · simp only [remaining, hphase, List.length_cons]
    omega

theorem Running.finish (h : Running hash s source task localKeys t e)
    (hphase : e.phase = .deleting []) :
    ∃ e', Running hash s source task localKeys (t.setRunning source e.complete) e' ∧
      e'.remaining < e.remaining := by
  refine ⟨e.complete, ⟨Function.update_self .., h.keys, h.target, h.data, h.manager,
    h.course.complete hphase, h.batches, h.imported, h.fanout,
    fun hdel => absurd (.inr rfl) hdel, h.deleted⟩, ?_⟩
  simp only [remaining, Execution.complete, hphase, List.length_nil]
  omega

/-- A record that an import sent on arrives: at the source it is the record that is or was there. -/
theorem Running.fanout_step (hs : Starts hash s source task localKeys)
    (h : Running hash s source task localKeys t e) {dest : String} {u : Versioned}
    (hmem : (dest, u) ∈ t.fanout) (now : Time) :
    Running hash s source task localKeys
      (t.setNode dest (Merge.deliver (t.nodes dest) (now, .replicaSet u))) e := by
  have hu : s.record source u.key = some (Merge.recordOf u) := h.fanout _ hmem
  obtain ⟨hx, hdated⟩ := hs.plain _ _ hu
  have hversion : u.version ≠ 0 := by
    have : 1 ≤ u.version := hdated.version
    omega
  have hrecord := record_setNode t dest (Merge.deliver (t.nodes dest) (now, .replicaSet u))
  refine ⟨h.run, h.keys, h.target, h.data, (manager_deliver t dest now u source).trans h.manager,
    h.course, h.batches, ?_, h.fanout, ?_, ?_⟩
  · intro b hb htrue key i hi
    have hat := h.imported b hb htrue key i hi
    unfold AtTarget at hat ⊢
    rw [hrecord]
    by_cases hdest : task.targetNode = dest
    · rw [if_pos hdest, Node.get?_deliver_replicaSet]
      by_cases hk : key = u.key
      · have hi' := (hs.record ((h.batches b hb).items key i hi)).1
        rw [hk, hu, Option.some.injEq] at hi'
        rw [if_pos hk, Merge.afterStore_eq now hversion, ← hi']
        exact le_keepNewer _ _ _
      · rw [if_neg hk, ← hdest]
        exact hat
    · rw [if_neg hdest]
      exact hat
  · intro hdel
    have hstore := h.unchanged hdel
    unfold setNode
    by_cases hdest : source = dest
    · subst hdest
      rw [← hstore]
      simp only [Function.update_self]
      refine Node.storeUnlessOlder_same now hversion hx ?_
      rw [hstore]
      exact hu
    · simp only [Function.update_of_ne hdest]
      exact hstore
  · intro key hne
    rw [hrecord] at hne ⊢
    by_cases hdest : source = dest
    · subst hdest
      rw [if_pos rfl, Node.get?_deliver_replicaSet] at hne ⊢
      by_cases hk : key = u.key
      · -- what arrives is the record that was there at the start
        refine absurd ?_ hne
        rw [if_pos hk, hk, hu, Merge.afterStore_eq now hversion]
        refine (keepNewer_cases _ _ _).elim (fun hkept => ?_) id
        rw [hkept]
        obtain ⟨m, hm, -⟩ := le_keepNewer KeyMetadata.sortKey
          (unexpired now (t.record source u.key)) (Merge.recordOf u)
        have hthere : t.record source u.key = some m := of_unexpired (hkept.symm.trans hm)
        have hsame : t.record source u.key = s.record source u.key := by
          by_contra hdiff
          rw [(h.deleted u.key hdiff).1] at hthere
          cases hthere
        exact (hkept.symm.trans hm).trans (hthere.symm.trans (hsame.trans hu))
      · rw [if_neg hk] at hne ⊢
        exact h.deleted key hne
    · rw [if_neg hdest] at hne ⊢
      exact h.deleted key hne

theorem Running.membership (h : Running hash s source task localKeys t e) (n : String)
    (m : MembershipManager) :
    Running hash s source task localKeys (t.setNode n { t.nodes n with membership := m }) e := by
  have hstore : ∀ x, ((t.setNode n { t.nodes n with membership := m }).nodes x).store =
      (t.nodes x).store := by
    intro x
    unfold setNode
    by_cases hx : x = n
    · subst hx
      simp
    · simp [hx]
  have hrecord : ∀ x k, (t.setNode n { t.nodes n with membership := m }).record x k =
      t.record x k := fun x k => congrArg (fun store => KVStore.get? store k) (hstore x)
  refine ⟨h.run, h.keys, h.target, h.data, (manager_setNode (by rfl) source).trans h.manager,
    h.course, h.batches, ?_, h.fanout, fun hdel => (hstore source).trans (h.unchanged hdel), ?_⟩
  · intro b hb htrue key i hi
    unfold AtTarget
    rw [hrecord]
    exact h.imported b hb htrue key i hi
  · intro key hne
    rw [hrecord] at hne ⊢
    exact h.deleted key hne

/-- Each step of the task brings it closer to its end, the background leaves it as it is. -/
theorem Running.step (hs : Starts hash s source task localKeys)
    (h : Running hash s source task localKeys t e) {l : MigrationLabel} {t' : Migrations}
    (hl : TaskStep source l = true ∨ Background l = true) (hstep : t.step hash l = some t') :
    ∃ e', Running hash s source task localKeys t' e' ∧
      e'.remaining + (if TaskStep source l then 1 else 0) ≤ e.remaining := by
  have hrun : ∀ {n e₁}, n = source → t.running n = some e₁ → e₁ = e := by
    rintro n e₁ rfl hn
    exact Option.some.inj (hn.symm.trans h.run)
  cases effect_of_step hstep with
  | @send n e₁ rest now outcome hn hphase hbatch =>
    have hsource : n = source := by simpa [TaskStep, Background] using hl
    obtain rfl := hrun hsource hn
    subst hsource
    obtain ⟨e', h', hlt⟩ := h.send hs hphase hbatch now outcome
    exact ⟨e', h', by simpa [TaskStep] using Nat.succ_le_of_lt hlt⟩
  | @endLoop n e₁ rest hn hphase hbatch =>
    have hsource : n = source := by simpa [TaskStep, Background] using hl
    obtain rfl := hrun hsource hn
    subst hsource
    obtain ⟨e', h', hlt⟩ := h.endLoop hs hphase hbatch
    exact ⟨e', h', by simpa [TaskStep] using Nat.succ_le_of_lt hlt⟩
  | @delete n key e₁ rest now hn hphase =>
    have hsource : n = source := by simpa [TaskStep, Background] using hl
    obtain rfl := hrun hsource hn
    subst hsource
    obtain ⟨e', h', hlt⟩ := h.delete hs hphase now
    exact ⟨e', h', by simpa [TaskStep] using Nat.succ_le_of_lt hlt⟩
  | @finish n e₁ hn hphase =>
    have hsource : n = source := by simpa [TaskStep, Background] using hl
    obtain rfl := hrun hsource hn
    subst hsource
    obtain ⟨e', h', hlt⟩ := h.finish hphase
    exact ⟨e', h', by simpa [TaskStep] using Nat.succ_le_of_lt hlt⟩
  | fanout now hmem => exact ⟨e, h.fanout_step hs hmem now, by simp [TaskStep]⟩
  | membership n m => exact ⟨e, h.membership n m, by simp [TaskStep]⟩
  | rebalance n now => simp [TaskStep, Background] at hl
  | join n newNode now => simp [TaskStep, Background] at hl
  | start now hidle htask => simp [TaskStep, Background] at hl
  | set n now hset => simp [TaskStep, Background] at hl

theorem Running.run_of_exec (hs : Starts hash s source task localKeys)
    (h : Running hash s source task localKeys t e) {ls : List MigrationLabel} {t' : Migrations}
    (hls : ∀ l ∈ ls, TaskStep source l = true ∨ Background l = true)
    (hexec : exec (Migrations.step hash) t ls = some t') :
    ∃ e', Running hash s source task localKeys t' e' ∧
      e'.remaining + ls.countP (TaskStep source) ≤ e.remaining := by
  induction ls generalizing t e with
  | nil =>
    obtain rfl := Option.some.inj hexec
    exact ⟨e, h, by simp⟩
  | cons l ls ih =>
    obtain ⟨t₁, hstep, hrest⟩ := exec_cons.mp hexec
    obtain ⟨e₁, h₁, hle₁⟩ := h.step hs (hls l List.mem_cons_self) hstep
    obtain ⟨e', h', hle⟩ := ih h₁ (fun m hm => hls m (List.mem_cons_of_mem l hm)) hrest
    refine ⟨e', h', ?_⟩
    rw [List.countP_cons]
    omega

/-- The start of a task: nothing is sent, and the source has nothing that has expired. -/
theorem running_start (hs : Starts hash s source task localKeys) {now : Time}
    (hdata : localKeys = s.capturedAt source now) (hfanout : s.fanout = []) (i : Nat) :
    ∃ e, Running hash s source task localKeys (s.start source i task now) e ∧
      e.remaining = 2 * task.keys.length + 2 := by
  have hstore : ((s.start source i task now).nodes source).store = (s.nodes source).store := by
    have hcleanup : (s.nodes source).store.cleanupExpired now = (s.nodes source).store := by
      unfold KVStore.cleanupExpired Dict.filter
      have hall : (s.nodes source).store.store.items.filter
          (fun p => !expiredBefore p.2.expiresAt now) = (s.nodes source).store.store.items := by
        refine List.filter_eq_self.mpr fun p hp => ?_
        rw [(hs.plain p.1 p.2 ((Dict.mem_items_iff _ _ _).mp hp)).1]
        rfl
      simp only [hall]
    refine Eq.trans ?_ hcleanup
    unfold start captureAt setNode setRunning
    simp only [Function.update_self]
    rfl
  refine ⟨_, ⟨Function.update_self .., rfl, rfl, hdata.symm, ?_, .sending rfl (List.suffix_refl _)
    ?_ rfl rfl, ?_, ?_, ?_, fun _ => hstore, fun key hne =>
      absurd (record_of_store hstore key) hne⟩, ?_⟩
  · exact manager_setNode (by rfl) source
  · intro b hb
    cases hb
  · intro b hb
    cases hb
  · intro b hb
    cases hb
  · intro p hp
    rw [show (s.start source i task now).fanout = s.fanout from rfl, hfanout] at hp
    cases hp
  · simp only [remaining]
    omega

/-- An execution that has not ended can go on. -/
theorem Running.goes_on (h : Running hash s source task localKeys t e) (hphase : e.phase ≠ .ended) :
    ∃ l, TaskStep source l = true ∧ t.step hash l ≠ none := by
  cases hcases : e.phase with
  | sending rest =>
    by_cases hbatch : (nextBatch e.localKeys Dict.empty rest).1.length = 0
    · exact ⟨.endLoop source, by simp [TaskStep],
        by simp [Migrations.step, h.run, hcases, hbatch]⟩
    · exact ⟨.send source 0 .answered, by simp [TaskStep],
        by simp [Migrations.step, h.run, hcases, hbatch]⟩
  | deleting rest =>
    cases rest with
    | nil => exact ⟨.finish source, by simp [TaskStep], by simp [Migrations.step, h.run, hcases]⟩
    | cons key rest =>
      exact ⟨.delete source 0, by simp [TaskStep], by simp [Migrations.step, h.run, hcases]⟩
  | ended => exact absurd hcases hphase

/-- What is gone from the source has been imported at the target. -/
theorem Running.removed (hs : Starts hash s source task localKeys)
    (h : Running hash s source task localKeys t e) {key : String} {m : KeyMetadata}
    (hm : s.record source key = some m) (hgone : t.record source key = none) :
    ¬(s.manager source).IsReplica hash key ∧
      ∃ m', t.record task.targetNode key = some m' ∧ m.sortKey ≤ m'.sortKey := by
  have hne : t.record source key ≠ s.record source key := by
    rw [hm, hgone]
    exact Option.some_ne_none m ∘ Eq.symm
  obtain ⟨hkey, hreplica⟩ := List.mem_filter.mp (h.deleted key hne).2
  have hdel : e.Deletes := by
    by_contra hnot
    exact hne (record_of_store (h.unchanged hnot) key)
  obtain ⟨hall, hlisted⟩ := h.course.of_deletes hdel
  have hitem : localKeys.get? key = some (KVStore.itemOf m) := by
    rw [hs.captured, hm]
    rfl
  have hpresent : key ∈ batchKeys e.sent := by
    rw [hlisted]
    exact List.mem_filter.mpr ⟨hkey, by rw [hitem]; rfl⟩
  obtain ⟨b, hb, hin⟩ := List.mem_flatMap.mp hpresent
  obtain ⟨i, hi⟩ := Option.ne_none_iff_exists'.mp ((Dict.mem_keys_iff b.1 key).mp hin)
  obtain rfl := Option.some.inj (hitem.symm.trans ((h.batches b hb).items key i hi))
  exact ⟨by simpa using hreplica, h.imported b hb (hall b hb) key _ hi⟩

end Steps

/-! ## The outcome -/

/-- What a task that started in `s` has come to in `t`, after the steps `ls`. -/
structure Outcome (s t : Migrations) (source : String) (task : MigrationTask)
    (ls : List MigrationLabel) (e : Execution) : Prop where
  /-- A batch has 1 to 100 keys, with their records. -/
  batches : ∀ b ∈ e.sent, 1 ≤ b.1.length ∧ b.1.length ≤ 100 ∧
    ∀ key i, b.1.get? key = some i → s.record source key = some (KVStore.recordOf i)
  /-- The batches list the keys that are there, once each and in order, … -/
  once : (batchKeys e.sent).Nodup
  listed : batchKeys e.sent <+: task.keys.filter fun key => (s.record source key).isSome
  /-- … all of them, or up to the first failure. -/
  untilFailure : AllSent e.sent.dropLast
  listedAll : e.phase = .ended → AllSent e.sent →
    batchKeys e.sent = task.keys.filter fun key => (s.record source key).isSome
  /-- The task ends, … -/
  ends : 2 * task.keys.length + 2 ≤ ls.countP (TaskStep source) → e.phase = .ended
  goesOn : e.phase ≠ .ended → ∃ l, TaskStep source l = true ∧ t.step hash l ≠ none
  /-- … completed exactly when every send returned True, … -/
  completed : e.phase = .ended → (e.task.state = .completed ↔ AllSent e.sent)
  /-- … and otherwise failed, with the source as it was. -/
  failed : e.phase = .ended → ¬AllSent e.sent →
    e.task.state = .failed ∧ (t.nodes source).store = (s.nodes source).store
  /-- What is removed is owned by others and at the target, as new as it was. -/
  removed : ∀ key m, s.record source key = some m → t.record source key = none →
    ¬(s.manager source).IsReplica hash key ∧
      ∃ m', t.record task.targetNode key = some m' ∧ m.sortKey ≤ m'.sortKey

/-- **What a migration comes to**: for every task that a join or a REBALANCE creates, every
    stores (the source's records dated and without expiry), every ring and every outcome of the
    sends, and with no other writes while the task runs. -/
theorem task_outcome {s t : Migrations} {source : String} {task : MigrationTask} {i : Nat}
    {now : Time} {ls : List MigrationLabel}
    (hid : (s.nodes source).nodeId = source)
    (htask : (s.waiting source)[i]? = some task)
    (hcreated : (s.nodes source).migration.CreatedBy hash task)
    (hplain : ∀ key m, s.record source key = some m → m.expiresAt = none ∧ m.Dated)
    (hfanout : s.fanout = [])
    (hls : ∀ l ∈ ls, TaskStep source l = true ∨ Background l = true)
    (hexec : exec (Migrations.step hash) s (.start source i now :: ls) = some t) :
    ∃ e, t.running source = some e ∧ Outcome hash s t source task ls e := by
  obtain ⟨t₀, hstart, hrest⟩ := exec_cons.mp hexec
  have hs : Starts hash s source task (s.capturedAt source now) := by
    refine ⟨hcreated.created, hid, hplain, fun k => ?_⟩
    rw [get?_capturedAt, unexpired_of_noExpiry fun m hm => (hplain k m hm).1]
  obtain rfl := start_of_step htask hstart
  obtain ⟨e₀, h₀, hremaining⟩ := running_start hs rfl hfanout i
  obtain ⟨e, h, hle⟩ := h₀.run_of_exec hs hls hrest
  have hpresent : presentKeys (s.capturedAt source now) task.keys =
      task.keys.filter fun key => (s.record source key).isSome := by
    unfold presentKeys
    refine List.filter_congr fun key _ => ?_
    rw [hs.captured, Option.isSome_map]
  have hlisted := h.course.listed_prefix
  refine ⟨e, h.run, ?_, ?_, hpresent ▸ hlisted, h.course.allSent_dropLast, ?_, ?_, h.goes_on, ?_,
    ?_, fun key m hm hgone => h.removed hs hm hgone⟩
  · intro b hb
    have hbatch := h.batches b hb
    exact ⟨hbatch.pos, hbatch.le,
      fun key item hitem => (hs.record (hbatch.items key item hitem)).1⟩
  · exact (hs.created.nodup.filter _).sublist hlisted.sublist
  · intro hended hall
    rw [← hpresent]
    rcases h.course.of_ended hended with ⟨-, -, listed⟩ | ⟨last, -⟩
    · exact listed
    · exact absurd hall last
  · intro hsteps
    have hzero : e.remaining = 0 := by omega
    cases hphase : e.phase with
    | sending rest => simp [remaining, hphase] at hzero
    | deleting rest => simp [remaining, hphase] at hzero
    | ended => rfl
  · intro hended
    rcases h.course.of_ended hended with ⟨sent, state, -⟩ | ⟨last, state⟩
    · exact iff_of_true state sent
    · refine iff_of_false (fun hstate => ?_) last
      cases hstate.symm.trans state
  · intro hended hfailed
    rcases h.course.of_ended hended with ⟨sent, -, -⟩ | ⟨-, state⟩
    · exact absurd sent hfailed
    · refine ⟨state, h.unchanged ?_⟩
      rintro (⟨rest, hphase⟩ | hstate)
      · cases hphase.symm.trans hended
      · cases hstate.symm.trans state

/-! ### One key moves to its owner -/

/-- The only replica of every key is "n2". -/
def sampleHash : String → Nat := fun _ => 2

def sampleRecord (version : Int) : KeyMetadata :=
  { value := .int version, createdAt := 1, updatedAt := 1, expiresAt := none, version := version
    coordinatorId := "n1" }

def sampleTask : MigrationTask := { sourceNode := "n1", targetNode := "n2", keys := ["k"] }

/-- "n1" has the key and a task to move it; with one replica for each key. -/
def sampleMigrations : Migrations :=
  { nodes := fun n =>
      { Replica.sampleNode with
        config := ⟨n, 1, .quorum⟩
        store := if n = "n1" then ⟨⟨[("k", sampleRecord 1)], by simp⟩⟩ else KVStore.empty
        membership := .ofIds ["n1", "n2"], ring := Read.threeNodeRing }
    waiting := fun n => if n = "n1" then [sampleTask] else []
    running := fun _ => none
    fanout := [] }

/-- The run with the outcome of the only send. -/
def sampleRun (outcome : SendOutcome) : List MigrationLabel :=
  [.send "n1" 2 outcome, .endLoop "n1", .delete "n1" 3, .finish "n1"]

theorem plain_sampleMigrations (key : String) (m : KeyMetadata)
    (h : sampleMigrations.record "n1" key = some m) : m.expiresAt = none ∧ m.Dated := by
  have hmem := ((sampleMigrations.nodes "n1").store.store.mem_items_iff key m).mpr h
  obtain ⟨-, rfl⟩ := Prod.mk.inj (List.mem_singleton.mp hmem)
  exact ⟨rfl, le_refl 1, one_ne_zero, one_ne_zero⟩

theorem createdBy_sampleTask :
    (sampleMigrations.nodes "n1").migration.CreatedBy sampleHash sampleTask :=
  .inl ⟨sampleMigrations.capturedAt "n1" 1, List.mem_singleton.mpr rfl⟩

theorem task_outcome_sample :
    ∃ t e, t.running "n1" = some e ∧
      Outcome sampleHash sampleMigrations t "n1" sampleTask (sampleRun .answered) e := by
  obtain ⟨t, ht⟩ : ∃ t, exec (step sampleHash) sampleMigrations
      (.start "n1" 0 1 :: sampleRun .answered) = some t := Option.isSome_iff_exists.mp rfl
  refine ⟨t, task_outcome sampleHash rfl rfl createdBy_sampleTask plain_sampleMigrations rfl ?_ ht⟩
  intro l hl
  simp only [sampleRun, List.mem_cons, List.not_mem_nil, or_false] at hl
  rcases hl with rfl | rfl | rfl | rfl
  · exact .inl rfl
  · exact .inl rfl
  · exact .inl rfl
  · exact .inl rfl

end Migrations

end MiniDb
