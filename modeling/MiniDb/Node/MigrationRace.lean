/-
  Writes during a migration.

  A task sends a copy that it took at its start, and later deletes whatever the source has then.
  A SET applied at the source in between is deleted without having been sent, unless the target
  gets the record otherwise (`migration_loses_write`).

  `deleted_is_at_target` says for which SETs the copy is enough: those of keys the task does not
  delete, those that are not newer than a copy still to be sent, and those that are not newer
  than the record the target already has. The invariant is `Covered`: for each key that the task
  will delete, one of the latter two holds of the record at the source.
-/
import MiniDb.Node.MigrationOutcome

namespace MiniDb

open Lib ShardMigrationManager

namespace Migrations

open Execution

variable (hash : String → Nat)

/-- The batch with the key is still to be sent. -/
def Pending (e : Execution) (key : String) : Prop := ∃ rest, e.phase = .sending rest ∧ key ∈ rest

/-- The key will be deleted, if all batches can be sent. -/
def WillDelete (mgr : ShardMigrationManager) (e : Execution) (key : String) : Prop :=
  match e.phase with
  | .sending _ => key ∈ mgr.nonReplicaKeys hash e.task.keys
  | .deleting rest => key ∈ rest
  | .ended => False

/-- The record `m` under the key is not newer than a copy that is still to be sent, or than the
    record at the target (which must not expire while the batch is pending). -/
def Matched (t : Migrations) (e : Execution) (key : String) (m : KeyMetadata) : Prop :=
  (Pending e key ∧ ∃ i, e.localKeys.get? key = some i ∧
      m.sortKey ≤ (KVStore.recordOf i).sortKey) ∨
    ∃ m', t.record e.task.targetNode key = some m' ∧ m.sortKey ≤ m'.sortKey ∧
      (Pending e key → m'.expiresAt = none)

/-- A SET at the source is of a key that the running task does not delete, or stores a record
    that is matched. -/
def SafeSet (source : String) (t : Migrations) : MigrationLabel → Prop
  | .set n now a => n = source → ∀ e, t.running source = some e →
      WillDelete hash (t.manager source) e a.key →
        Matched t e a.key (setRecord now (t.record source a.key) a.value (storeArgs a))
  | _ => True

/-- What the step deletes is at the target, as new as it is. -/
def DeletedAtTarget (source : String) (t : Migrations) : MigrationLabel → Prop
  | .delete n _ => n = source → ∀ e key rest, t.running source = some e →
      e.phase = .deleting (key :: rest) → ∀ m, t.record source key = some m →
        ∃ m', t.record e.task.targetNode key = some m' ∧ m.sortKey ≤ m'.sortKey
  | _ => True

/-- The steps of the task at `source`, their background, and SETs at `source`. -/
def WithSets (source : String) : MigrationLabel → Prop
  | .set n _ _ => n = source
  | l => TaskStep source l = true ∨ Background l = true

/-- The state `t` while the execution `e` of a task that started in `s` runs among SETs. -/
structure Covered (s : Migrations) (source : String) (task : MigrationTask)
    (localKeys : Dict String KVStore.Item) (t : Migrations) (e : Execution) : Prop where
  run : t.running source = some e
  keys : e.task.keys = task.keys
  target : e.task.targetNode = task.targetNode
  data : e.localKeys = localKeys
  manager : ∀ n, t.manager n = s.manager n
  course : Course hash (s.manager source) task.keys localKeys e
  others : ∀ p ∈ t.fanout, p.1 ≠ task.targetNode
  fanout : ∀ p ∈ t.fanout, WillDelete hash (s.manager source) e p.2.key →
    p.2.version ≠ 0 ∧ ¬Pending e p.2.key ∧
      ∃ m', t.record task.targetNode p.2.key = some m' ∧ p.2.sortKey ≤ m'.sortKey
  matched : ∀ key, WillDelete hash (s.manager source) e key →
    ∀ m, t.record source key = some m → Matched t e key m

/-- A task among SETs: the captured records are dated, each node has its name. -/
structure StartsAmongSets (s : Migrations) (source : String) (task : MigrationTask)
    (localKeys : Dict String KVStore.Item) : Prop where
  created : (s.manager source).Created hash task
  ids : ∀ n, (s.manager n).localNodeId = n
  dated : ∀ key i, localKeys.get? key = some i → (KVStore.recordOf i).Dated

variable {hash}

section Steps

variable {s t : Migrations} {source : String} {task : MigrationTask}
  {localKeys : Dict String KVStore.Item} {e : Execution}

theorem not_pending_of_ne_sending (h : ∀ rest, e.phase ≠ .sending rest) (key : String) :
    ¬Pending e key := fun ⟨rest, hphase, _⟩ => h rest hphase

theorem mem_nonReplicaKeys {mgr : ShardMigrationManager} {keys : List String} {key : String} :
    key ∈ mgr.nonReplicaKeys hash keys ↔ key ∈ keys ∧ ¬mgr.IsReplica hash key := by
  unfold nonReplicaKeys
  rw [List.mem_filter, decide_eq_true_eq]

theorem Covered.mem_nonReplicaKeys (h : Covered hash s source task localKeys t e) {key : String}
    (hdel : WillDelete hash (s.manager source) e key) :
    key ∈ (s.manager source).nonReplicaKeys hash task.keys := by
  unfold WillDelete at hdel
  cases hphase : e.phase with
  | sending rest =>
    rw [hphase] at hdel
    exact h.keys ▸ hdel
  | deleting rest =>
    rw [hphase] at hdel
    exact (h.course.of_deleting hphase).1.subset hdel
  | ended =>
    rw [hphase] at hdel
    cases hdel

/-- Where keys are to be deleted, source and target are two nodes. -/
theorem Covered.target_ne (hs : StartsAmongSets hash s source task localKeys)
    (h : Covered hash s source task localKeys t e) {key : String}
    (hdel : WillDelete hash (s.manager source) e key) : task.targetNode ≠ source := by
  obtain ⟨hkey, hreplica⟩ := Migrations.mem_nonReplicaKeys.mp (h.mem_nonReplicaKeys hdel)
  exact hs.ids source ▸ hs.created.target_ne hash _ hkey hreplica

/-- The invariant after a step that leaves the execution and the target's records alone. -/
theorem Covered.of_same (h : Covered hash s source task localKeys t e) {t' : Migrations}
    (hrun : t'.running source = t.running source) (hfanout : t'.fanout = t.fanout)
    (hmanager : ∀ n, t'.manager n = t.manager n)
    (htarget : ∀ key, WillDelete hash (s.manager source) e key →
      t'.record task.targetNode key = t.record task.targetNode key)
    (hsource : ∀ key, WillDelete hash (s.manager source) e key → ∀ m,
      t'.record source key = some m → t.record source key = some m ∨ Matched t e key m) :
    Covered hash s source task localKeys t' e := by
  refine ⟨hrun.trans h.run, h.keys, h.target, h.data, fun n => (hmanager n).trans (h.manager n),
    h.course, hfanout ▸ h.others, ?_, ?_⟩
  · intro p hp hdel
    rw [hfanout] at hp
    rw [htarget _ hdel]
    exact h.fanout p hp hdel
  · intro key hdel m hm
    have hmatched : Matched t e key m := (hsource key hdel m hm).elim (h.matched key hdel m) id
    unfold Matched at hmatched ⊢
    rw [h.target, htarget key hdel]
    rwa [h.target] at hmatched

/-! ## The steps of the task -/

section Send

variable {rest rest' : List String} {batch : Dict String KVStore.Item}

theorem pending_advance {key : String} :
    Pending (e.advance batch rest') key ↔ key ∈ rest' := by
  constructor
  · rintro ⟨rest₁, hphase₁, hkey⟩
    obtain rfl := ExecutionPhase.sending.inj hphase₁
    exact hkey
  · exact fun hkey => ⟨rest', rfl, hkey⟩

theorem pending_iff (hphase : e.phase = .sending rest) {key : String} :
    Pending e key ↔ key ∈ rest := by
  constructor
  · rintro ⟨rest₁, hphase₁, hkey⟩
    obtain rfl := ExecutionPhase.sending.inj (hphase.symm.trans hphase₁)
    exact hkey
  · exact fun hkey => ⟨rest, hphase, hkey⟩

theorem willDelete_of_advance (hphase : e.phase = .sending rest) {mgr : ShardMigrationManager}
    {key : String} (hdel : WillDelete hash mgr (e.advance batch rest') key) :
    WillDelete hash mgr e key := by
  unfold WillDelete
  rw [hphase]
  exact hdel

/-- The target's records after a batch has arrived there. -/
theorem record_sent (htarget : e.task.targetNode = task.targetNode) {now : Time}
    {outcome : SendOutcome} (hsends : t.sends source e outcome = true) (x key : String) :
    (t.send hash source e batch rest' now outcome).record x key =
      (t.importAt hash now task.targetNode batch).record x key := by
  rw [record_send, if_pos (delivers_of_sends hsends), htarget]

/-- What the target passes on is there, and was in this batch or in an earlier one. -/
theorem Covered.fanout_sent (hs : StartsAmongSets hash s source task localKeys)
    (h : Covered hash s source task localKeys t e) (hphase : e.phase = .sending rest)
    (hleft : rest' ⊆ rest) (hbatch : ∀ key i, batch.get? key = some i ↔
      localKeys.get? key = some i ∧ key ∈ rest ∧ key ∉ rest') {now : Time}
    {outcome : SendOutcome} (hsends : t.sends source e outcome = true)
    {p : String × Versioned}
    (hp : p ∈ (t.send hash source e batch rest' now outcome).fanout)
    (hdel : WillDelete hash (s.manager source) (e.advance batch rest') p.2.key) :
    p.2.version ≠ 0 ∧ ¬Pending (e.advance batch rest') p.2.key ∧
      ∃ m', (t.send hash source e batch rest' now outcome).record task.targetNode p.2.key =
        some m' ∧ p.2.sortKey ≤ m'.sortKey := by
  rw [record_sent h.target hsends, record_importAt, if_pos rfl, pending_advance]
  rcases mem_fanout_send hp with hp | ⟨-, -, i, hi, hu⟩
  · obtain ⟨hversion, hnot, hmatch⟩ := h.fanout p hp (willDelete_of_advance hphase hdel)
    rw [pending_iff hphase] at hnot
    have hnone : batch.get? p.2.key = none := by
      by_contra hsome
      obtain ⟨i, hi⟩ := Option.ne_none_iff_exists'.mp hsome
      exact hnot ((hbatch _ i).mp hi).2.1
    refine ⟨hversion, fun hlater => hnot (hleft hlater), ?_⟩
    rw [hnone]
    exact hmatch
  · obtain ⟨hcaptured, -, hnot⟩ := (hbatch _ i).mp hi
    have hdated := hs.dated _ i hcaptured
    have hrank : p.2.sortKey = (KVStore.recordOf i).sortKey := by
      rw [← Node.recordOf_importRecord hdated now p.2.key, ← hu]
      rfl
    refine ⟨?_, hnot, ?_⟩
    · rw [hu]
      have : 1 ≤ i.version := hdated.version
      show i.version ≠ 0
      omega
    · rw [hi]
      dsimp only
      rw [Merge.afterStore_import hdated, hrank]
      exact le_keepNewer _ _ _

/-- A record that was matched is matched after the batch: its copy is still to be sent, or has
    arrived with the batch. -/
theorem Covered.matched_sent (hs : StartsAmongSets hash s source task localKeys)
    (h : Covered hash s source task localKeys t e) (hphase : e.phase = .sending rest)
    (hleft : rest' ⊆ rest) (hbatch : ∀ key i, batch.get? key = some i ↔
      localKeys.get? key = some i ∧ key ∈ rest ∧ key ∉ rest') {now : Time}
    {outcome : SendOutcome} (hsends : t.sends source e outcome = true) {key : String}
    (hdel : WillDelete hash (s.manager source) (e.advance batch rest') key) {m : KeyMetadata}
    (hm : (t.send hash source e batch rest' now outcome).record source key = some m) :
    Matched (t.send hash source e batch rest' now outcome) (e.advance batch rest') key m := by
  have hdel := willDelete_of_advance hphase hdel
  rw [record_sent h.target hsends, record_importAt, if_neg (h.target_ne hs hdel).symm] at hm
  have htarget : (e.advance batch rest').task.targetNode = task.targetNode := h.target
  have hdata : (e.advance batch rest').localKeys = localKeys := h.data
  unfold Matched
  rw [htarget, hdata, record_sent h.target hsends, record_importAt, if_pos rfl, pending_advance]
  have hmatched := h.matched key hdel m hm
  rw [Matched, h.target, h.data, pending_iff hphase] at hmatched
  rcases hmatched with ⟨hkey, i, hi, hle⟩ | ⟨m', hm', hle, hx⟩
  · by_cases hlater : key ∈ rest'
    · exact .inl ⟨hlater, i, hi, hle⟩
    · rw [(hbatch key i).mpr ⟨hi, hkey, hlater⟩]
      dsimp only
      rw [Merge.afterStore_import (hs.dated key i hi)]
      obtain ⟨m', hm', hle'⟩ := le_keepNewer KeyMetadata.sortKey
        (unexpired now (t.record task.targetNode key)) (KVStore.recordOf i)
      exact .inr ⟨m', hm', le_trans hle hle', fun hpending => absurd hpending hlater⟩
  · rw [hm']
    cases hi : batch.get? key with
    | none => exact .inr ⟨m', rfl, hle, fun hlater => hx (hleft hlater)⟩
    | some i =>
      obtain ⟨hcaptured, hkey, hnot⟩ := (hbatch key i).mp hi
      have hkept : unexpired now (some m') = some m' :=
        unexpired_of_noExpiry fun m₁ hm₁ => Option.some.inj hm₁ ▸ hx hkey
      dsimp only
      rw [Merge.afterStore_import (hs.dated key i hcaptured), hkept]
      obtain ⟨m₁, hm₁, hle₁⟩ := keepNewer_keeps KeyMetadata.sortKey
        (rfl : some m' = some m') (KVStore.recordOf i)
      exact .inr ⟨m₁, hm₁, le_trans hle hle₁, fun hlater => absurd hlater hnot⟩

end Send

theorem Covered.send (hs : StartsAmongSets hash s source task localKeys)
    (h : Covered hash s source task localKeys t e) {rest : List String}
    (hphase : e.phase = .sending rest)
    (hnext : (nextBatch e.localKeys Dict.empty rest).1.length ≠ 0) (now : Time)
    (outcome : SendOutcome) :
    ∃ e', Covered hash s source task localKeys
      (t.send hash source e (nextBatch e.localKeys Dict.empty rest).1
        (nextBatch e.localKeys Dict.empty rest).2 now outcome) e' := by
  have hnodup := hs.created.nodup
  rw [h.data] at hnext ⊢
  have hsuffix := (h.course.of_sending hphase).1
  obtain ⟨-, hleft, -, -⟩ := nextBatch_course hnodup hsuffix hnext
  have hbatch := get?_nextBatch_iff hnodup hsuffix hnext
  have hadvance := h.course.advance hphase hnodup hnext
  have hfail := h.course.fail hphase hnodup hnext
  generalize (nextBatch localKeys Dict.empty rest).1 = batch at *
  generalize (nextBatch localKeys Dict.empty rest).2 = rest' at *
  have hrun : (t.send hash source e batch rest' now outcome).running source =
      some (if t.sends source e outcome then e.advance batch rest' else e.fail batch) :=
    Function.update_self ..
  have hmanager : ∀ n, (t.send hash source e batch rest' now outcome).manager n = s.manager n :=
    fun n => (manager_send hash t source e batch rest' now outcome n).trans (h.manager n)
  have hothers : ∀ p ∈ (t.send hash source e batch rest' now outcome).fanout,
      p.1 ≠ task.targetNode := by
    intro p hp
    rcases mem_fanout_send hp with hp | ⟨-, hne, -⟩
    · exact h.others p hp
    · have hid : (t.nodes e.task.targetNode).nodeId = e.task.targetNode :=
        (congrArg ShardMigrationManager.localNodeId (h.manager _)).trans (hs.ids _)
      rw [hid, h.target] at hne
      exact hne
  by_cases hsends : t.sends source e outcome = true
  · rw [if_pos hsends] at hrun
    exact ⟨e.advance batch rest', hrun, h.keys, h.target, h.data, hmanager, hadvance, hothers,
      fun p hp hdel => h.fanout_sent hs hphase hleft.subset hbatch hsends hp hdel,
      fun key hdel m hm => h.matched_sent hs hphase hleft.subset hbatch hsends hdel hm⟩
  · rw [if_neg hsends] at hrun
    exact ⟨e.fail batch, hrun, h.keys, h.target, h.data, hmanager, hfail, hothers,
      fun _ _ hdel => hdel.elim, fun _ hdel => hdel.elim⟩

theorem Covered.endLoop (hs : StartsAmongSets hash s source task localKeys)
    (h : Covered hash s source task localKeys t e) {rest : List String}
    (hphase : e.phase = .sending rest)
    (hnext : (nextBatch e.localKeys Dict.empty rest).1.length = 0) :
    ∃ e', Covered hash s source task localKeys (t.setRunning source
      { e with phase := .deleting ((t.manager source).nonReplicaKeys hash e.task.keys) }) e' := by
  rw [h.data] at hnext
  rw [h.manager, h.keys]
  have hwill : ∀ key, WillDelete hash (s.manager source) { e with
        phase := .deleting ((s.manager source).nonReplicaKeys hash task.keys) } key →
      WillDelete hash (s.manager source) e key := by
    intro key hdel
    unfold WillDelete
    rw [hphase, h.keys]
    exact hdel
  -- nothing that was captured is still to be sent
  have hnone : ∀ key i, key ∈ rest → localKeys.get? key ≠ some i := by
    intro key i hkey hi
    have hspec := nextBatch_empty_spec localKeys
      (hs.created.nodup.sublist (h.course.of_sending hphase).1.sublist)
    have hempty := hspec.last (by rw [hnext]; decide)
    have htaken := hspec.taken
    rw [hempty, List.length_eq_zero_iff.mp ((Dict.length_keys _).trans hnext)] at htaken
    have hpresent : key ∈ presentKeys localKeys rest :=
      List.mem_filter.mpr ⟨hkey, by rw [hi]; rfl⟩
    change [] = presentKeys localKeys rest at htaken
    rw [← htaken] at hpresent
    cases hpresent
  refine ⟨_, Function.update_self .., h.keys, h.target, h.data, h.manager,
    h.course.endLoop hphase hs.created.nodup hnext, h.others, ?_, ?_⟩
  · intro p hp hdel
    obtain ⟨hversion, -, hmatch⟩ := h.fanout p hp (hwill _ hdel)
    exact ⟨hversion, not_pending_of_ne_sending (fun _ hp' => by cases hp') _, hmatch⟩
  · intro key hdel m hm
    rcases h.matched key (hwill key hdel) m hm with ⟨⟨rest₁, hphase₁, hkey⟩, i, hi, -⟩ | hat
    · obtain rfl := ExecutionPhase.sending.inj (hphase.symm.trans hphase₁)
      exact absurd (h.data ▸ hi) (hnone key i hkey)
    · obtain ⟨m', hm', hle, -⟩ := hat
      exact .inr ⟨m', hm', hle,
        fun hp' => absurd hp' (not_pending_of_ne_sending (fun _ hp' => by cases hp') _)⟩

theorem Covered.delete (hs : StartsAmongSets hash s source task localKeys)
    (h : Covered hash s source task localKeys t e) {key : String} {rest : List String}
    (hphase : e.phase = .deleting (key :: rest)) (now : Time) :
    ∃ e', Covered hash s source task localKeys ((t.setNode source
      ((t.nodes source).deleteMigratedKey now key)).setRunning source
        { e with phase := .deleting rest }) e' := by
  obtain ⟨hkey, hcourse⟩ := h.course.delete hphase
  have hwill : ∀ k, WillDelete hash (s.manager source) { e with phase := .deleting rest } k →
      WillDelete hash (s.manager source) e k := by
    intro k hdel
    unfold WillDelete
    rw [hphase]
    exact List.mem_cons_of_mem key hdel
  have hnext : WillDelete hash (s.manager source) e key := by
    unfold WillDelete
    rw [hphase]
    exact List.mem_cons_self
  have hne : task.targetNode ≠ source := h.target_ne hs hnext
  have hrecord := record_setNode t source ((t.nodes source).deleteMigratedKey now key)
  have hnot : ∀ k, ¬Pending { e with phase := ExecutionPhase.deleting rest } k :=
    not_pending_of_ne_sending fun _ hp' => by cases hp'
  have hnot' : ∀ k, ¬Pending e k := not_pending_of_ne_sending fun _ hp' => by
    cases hphase.symm.trans hp'
  refine ⟨_, Function.update_self .., h.keys, h.target, h.data,
    fun n => (manager_setNode (by rfl) n).trans (h.manager n), hcourse, h.others, ?_, ?_⟩
  · intro p hp hdel
    obtain ⟨hversion, -, hmatch⟩ := h.fanout p hp (hwill _ hdel)
    refine ⟨hversion, hnot _, ?_⟩
    rw [record_setRunning, hrecord, if_neg hne]
    exact hmatch
  · intro k hdel m hm
    rw [record_setRunning, hrecord, if_pos rfl, Node.get?_deleteMigratedKey] at hm
    by_cases hk : k = key
    · rw [if_pos hk] at hm
      cases hm
    · rw [if_neg hk] at hm
      rcases h.matched k (hwill k hdel) m hm with ⟨hpend, -⟩ | ⟨m', hm', hle, -⟩
      · exact absurd hpend (hnot' k)
      · refine .inr ⟨m', ?_, hle, fun hpend => absurd hpend (hnot k)⟩
        rw [record_setRunning, hrecord]
        change (if e.task.targetNode = source then _ else _) = _
        rw [if_neg (h.target.symm ▸ hne)]
        exact hm'

theorem Covered.finish (h : Covered hash s source task localKeys t e)
    (hphase : e.phase = .deleting []) :
    ∃ e', Covered hash s source task localKeys (t.setRunning source e.complete) e' :=
  ⟨e.complete, Function.update_self .., h.keys, h.target, h.data, h.manager,
    h.course.complete hphase, h.others, fun _ _ hdel => hdel.elim, fun _ hdel => hdel.elim⟩

/-! ## The other steps -/

/-- What the target sent on is not newer than what it has. -/
theorem Covered.fanout_step (h : Covered hash s source task localKeys t e) {dest : String}
    {u : Versioned} (hmem : (dest, u) ∈ t.fanout) (now : Time) :
    Covered hash s source task localKeys
      (t.setNode dest (Merge.deliver (t.nodes dest) (now, .replicaSet u))) e := by
  have hrecord := record_setNode t dest (Merge.deliver (t.nodes dest) (now, .replicaSet u))
  refine h.of_same rfl rfl (manager_deliver t dest now u) ?_ ?_
  · intro key hdel
    rw [hrecord, if_neg (Ne.symm (h.others _ hmem))]
  · intro key hdel m hm
    rw [hrecord] at hm
    by_cases hdest : source = dest
    · subst hdest
      rw [if_pos rfl, Node.get?_deliver_replicaSet] at hm
      by_cases hk : key = u.key
      · subst hk
        obtain ⟨hversion, hnot, m', hm', hle⟩ := h.fanout _ hmem hdel
        rw [if_pos rfl, Merge.afterStore_eq now hversion] at hm
        rcases keepNewer_cases KeyMetadata.sortKey
          (unexpired now (t.record source u.key)) (Merge.recordOf u) with hkept | hkept
        · exact .inl (of_unexpired (hkept.symm.trans hm))
        · obtain rfl := Option.some.inj (hkept.symm.trans hm)
          exact .inr (.inr ⟨m', h.target.symm ▸ hm', hle, fun hp => absurd hp hnot⟩)
      · rw [if_neg hk] at hm
        exact .inl hm
    · rw [if_neg hdest] at hm
      exact .inl hm

theorem Covered.set (hs : StartsAmongSets hash s source task localKeys)
    (h : Covered hash s source task localKeys t e) {a : LogEntry} (hset : a.command = .set)
    (now : Time) (hsafe : SafeSet hash source t (.set source now a)) :
    Covered hash s source task localKeys
      (t.setNode source ((t.nodes source).applyLogEntry now a)) e := by
  have hrecord := record_setNode t source ((t.nodes source).applyLogEntry now a)
  refine h.of_same rfl rfl (manager_setNode (by rfl)) ?_ ?_
  · intro key hdel
    rw [hrecord, if_neg (h.target_ne hs hdel)]
  · intro key hdel m hm
    rw [hrecord, if_pos rfl, Replica.get?_applyLogEntry hset] at hm
    by_cases hk : a.key = key
    · subst hk
      rw [if_pos rfl, Option.some.injEq] at hm
      subst hm
      exact .inr (hsafe rfl e h.run (h.manager source ▸ hdel))
    · rw [if_neg hk] at hm
      exact .inl hm

theorem record_membership (t : Migrations) (n : String) (m : MembershipManager) (x key : String) :
    (t.setNode n { t.nodes n with membership := m }).record x key = t.record x key := by
  rw [record_setNode]
  by_cases hx : x = n
  · rw [if_pos hx, hx]
    rfl
  · rw [if_neg hx]

theorem Covered.step (hs : StartsAmongSets hash s source task localKeys)
    (h : Covered hash s source task localKeys t e) {l : MigrationLabel} {t' : Migrations}
    (hl : WithSets source l) (hsafe : SafeSet hash source t l)
    (hstep : Migrations.step hash t l = some t') :
    ∃ e', Covered hash s source task localKeys t' e' := by
  cases effect_of_step hstep with
  | @send n e₁ rest now outcome hn hphase hbatch =>
    have hsource : n = source := by simpa [WithSets, TaskStep, Background] using hl
    subst hsource
    obtain rfl := Option.some.inj (hn.symm.trans h.run)
    exact h.send hs hphase hbatch now outcome
  | @endLoop n e₁ rest hn hphase hbatch =>
    have hsource : n = source := by simpa [WithSets, TaskStep, Background] using hl
    subst hsource
    obtain rfl := Option.some.inj (hn.symm.trans h.run)
    exact h.endLoop hs hphase hbatch
  | @delete n key e₁ rest now hn hphase =>
    have hsource : n = source := by simpa [WithSets, TaskStep, Background] using hl
    subst hsource
    obtain rfl := Option.some.inj (hn.symm.trans h.run)
    exact h.delete hs hphase now
  | @finish n e₁ hn hphase =>
    have hsource : n = source := by simpa [WithSets, TaskStep, Background] using hl
    subst hsource
    obtain rfl := Option.some.inj (hn.symm.trans h.run)
    exact h.finish hphase
  | fanout now hmem => exact ⟨e, h.fanout_step hmem now⟩
  | membership n m =>
    exact ⟨e, h.of_same rfl rfl (manager_setNode (by rfl))
      (fun key _ => record_membership t n m _ key)
      fun key _ m' hm' => .inl ((record_membership t n m source key).symm.trans hm')⟩
  | @set n now a hset =>
    have hsource : n = source := hl
    subst hsource
    exact ⟨e, h.set hs hset now hsafe⟩
  | rebalance n now => simp [WithSets, TaskStep, Background] at hl
  | join n newNode now => simp [WithSets, TaskStep, Background] at hl
  | start now hidle htask => simp [WithSets, TaskStep, Background] at hl

theorem covered_start (hfanout : s.fanout = []) (i : Nat) (now : Time) :
    ∃ e, Covered hash s source task (s.capturedAt source now) (s.start source i task now) e := by
  have hempty : (s.start source i task now).fanout = [] := hfanout
  have hrecord : ∀ x key, (s.start source i task now).record x key =
      (s.captureAt source now).record x key := fun _ _ => rfl
  refine ⟨_, Function.update_self .., rfl, rfl, rfl, manager_setNode (by rfl),
    .sending rfl (List.suffix_refl _) ?_ rfl rfl, ?_, ?_, ?_⟩
  · intro b hb
    cases hb
  · intro p hp
    rw [hempty] at hp
    cases hp
  · intro p hp
    rw [hempty] at hp
    cases hp
  · intro key hdel m hm
    rw [hrecord, record_captureAt, if_pos rfl] at hm
    refine .inl ⟨⟨task.keys, rfl, (Migrations.mem_nonReplicaKeys.mp hdel).1⟩,
      KVStore.itemOf m, ?_, le_refl _⟩
    change (s.capturedAt source now).get? key = _
    rw [get?_capturedAt, hm]
    rfl

/-- A covered state deletes nothing that the target has not. -/
theorem Covered.deletedAtTarget (h : Covered hash s source task localKeys t e)
    (l : MigrationLabel) : DeletedAtTarget source t l := by
  cases l with
  | delete n now =>
    rintro rfl e₁ key rest hrun hphase m hm
    obtain rfl := Option.some.inj (hrun.symm.trans h.run)
    have hdel : WillDelete hash (s.manager n) e₁ key := by
      unfold WillDelete
      rw [hphase]
      exact List.mem_cons_self
    rcases h.matched key hdel m hm with ⟨⟨rest', hphase', -⟩, -⟩ | ⟨m', hm', hle, -⟩
    · cases hphase.symm.trans hphase'
    · exact ⟨m', hm', hle⟩
  | _ => trivial

end Steps

/-- **When writes survive a migration**: in every interleaving of a task with SETs at its source,
    in which each SET of a key that the task is to delete is matched by a copy still to be sent
    or by the record at the target, whatever the task deletes is at the target at that moment,
    as new as it is. -/
theorem deleted_is_at_target {s : Migrations} {source : String} {task : MigrationTask} {i : Nat}
    {now : Time} {ls : List MigrationLabel}
    (hids : ∀ n, (s.nodes n).nodeId = n)
    (htask : (s.waiting source)[i]? = some task)
    (hcreated : (s.nodes source).migration.CreatedBy hash task)
    (hdated : ∀ key m, s.record source key = some m → m.Dated)
    (hfanout : s.fanout = [])
    (hls : ∀ l ∈ ls, WithSets source l)
    (hsafe : Along (Migrations.step hash) (SafeSet hash source) s (.start source i now :: ls)) :
    Along (Migrations.step hash) (DeletedAtTarget source) s (.start source i now :: ls) := by
  refine ⟨trivial, fun t₀ hstart => ?_⟩
  have hs : StartsAmongSets hash s source task (s.capturedAt source now) := by
    refine ⟨hcreated.created, hids, fun key item hi => ?_⟩
    rw [get?_capturedAt] at hi
    obtain ⟨m, hm, rfl⟩ := Option.map_eq_some_iff.mp hi
    exact hdated key m (of_unexpired hm)
  obtain rfl := start_of_step htask hstart
  refine along_inv (P := fun t l => WithSets source l ∧ SafeSet hash source t l)
    (I := fun t => ∃ e, Covered hash s source task (s.capturedAt source now) t e)
    (fun t l t' ⟨e, h⟩ hl hstep => h.step hs hl.1 hl.2 hstep)
    (fun t l ⟨e, h⟩ _ => h.deletedAtTarget l) (covered_start hfanout i now) ?_
  exact (along_of_forall (fun _ l hl => hls l hl) _).and (hsafe.2 _ hstart)

/-! ### A SET between the copy and the deletion -/

def sampleSet (version : Int) : LogEntry :=
  { term := 1, index := 1, command := .set, key := "k", value := .int version, timestamp := 1
    version := version, createdAt := some 1, coordinatorId := "n1" }

/-- The new version is stored before the copy of the old one is sent. -/
def racingRun : List MigrationLabel :=
  [.start "n1" 0 1, .set "n1" 3 (sampleSet 2), .send "n1" 4 .answered, .endLoop "n1"]

/-- SETs of what was captured, before and after it is sent, and of a new version when the key has
    been deleted. -/
def matchedRun : List MigrationLabel :=
  [.set "n1" 2 (sampleSet 1), .send "n1" 3 .answered, .set "n1" 4 (sampleSet 1), .endLoop "n1",
    .delete "n1" 5, .set "n1" 6 (sampleSet 2), .finish "n1"]

theorem safeSet_matchedRun :
    Along (step sampleHash) (SafeSet sampleHash "n1") sampleMigrations
      (.start "n1" 0 1 :: matchedRun) := by
  refine ⟨trivial, fun t₁ h₁ => ⟨?_, fun t₂ h₂ => ⟨trivial, fun t₃ h₃ => ⟨?_, fun t₄ h₄ =>
    ⟨trivial, fun t₅ h₅ => ⟨trivial, fun t₆ h₆ => ⟨?_, fun t₇ h₇ => ⟨trivial, fun _ _ =>
      trivial⟩⟩⟩⟩⟩⟩⟩⟩
  · -- the batch is pending, and the record is the captured one
    have hphase : ((step sampleHash sampleMigrations (.start "n1" 0 1)).bind
        (fun t => t.running "n1")).map (fun e => (e.phase, e.localKeys.get? "k")) =
          some (.sending ["k"], some (KVStore.itemOf (sampleRecord 1))) := rfl
    intro _ e he _
    rw [h₁, Option.bind_some, he] at hphase
    obtain ⟨hsending, hdata⟩ := Prod.mk.inj (Option.some.inj hphase)
    exact .inl ⟨⟨["k"], hsending, List.mem_cons_self⟩, _, hdata, le_refl _⟩
  · -- the target has got the record
    have he₃ : exec (step sampleHash) sampleMigrations
        [.start "n1" 0 1, .set "n1" 2 (sampleSet 1), .send "n1" 3 .answered] = some t₃ :=
      exec_cons.mpr ⟨t₁, h₁, exec_cons.mpr ⟨t₂, h₂, exec_cons.mpr ⟨t₃, h₃, rfl⟩⟩⟩
    have htarget : (exec (step sampleHash) sampleMigrations
        [.start "n1" 0 1, .set "n1" 2 (sampleSet 1), .send "n1" 3 .answered]).bind
          (fun t => t.record "n2" "k") = some (sampleRecord 1) := rfl
    have htask : ((exec (step sampleHash) sampleMigrations
        [.start "n1" 0 1, .set "n1" 2 (sampleSet 1), .send "n1" 3 .answered]).bind
          (fun t => t.running "n1")).map (fun e => e.task.targetNode) = some "n2" := rfl
    intro _ e he _
    rw [he₃] at htarget htask
    rw [Option.bind_some, he] at htask
    refine .inr ⟨sampleRecord 1, ?_, le_refl _, fun _ => rfl⟩
    rw [show e.task.targetNode = "n2" from Option.some.inj htask]
    exact htarget
  · -- nothing is left to delete
    have he₆ : exec (step sampleHash) sampleMigrations
        [.start "n1" 0 1, .set "n1" 2 (sampleSet 1), .send "n1" 3 .answered,
          .set "n1" 4 (sampleSet 1), .endLoop "n1", .delete "n1" 5] = some t₆ :=
      exec_cons.mpr ⟨t₁, h₁, exec_cons.mpr ⟨t₂, h₂, exec_cons.mpr ⟨t₃, h₃, exec_cons.mpr ⟨t₄, h₄,
        exec_cons.mpr ⟨t₅, h₅, exec_cons.mpr ⟨t₆, h₆, rfl⟩⟩⟩⟩⟩⟩
    have hphase : ((exec (step sampleHash) sampleMigrations
        [.start "n1" 0 1, .set "n1" 2 (sampleSet 1), .send "n1" 3 .answered,
          .set "n1" 4 (sampleSet 1), .endLoop "n1", .delete "n1" 5]).bind
            (fun t => t.running "n1")).map (fun e => e.phase) = some (.deleting []) := rfl
    intro _ e he hdel
    rw [he₆, Option.bind_some, he] at hphase
    rw [WillDelete, show e.phase = .deleting [] from Option.some.inj hphase] at hdel
    cases hdel

theorem deleted_is_at_target_sample :
    ∃ t, exec (step sampleHash) sampleMigrations (.start "n1" 0 1 :: matchedRun) = some t ∧
      Along (step sampleHash) (DeletedAtTarget "n1") sampleMigrations
        (.start "n1" 0 1 :: matchedRun) := by
  obtain ⟨t, ht⟩ : ∃ t, exec (step sampleHash) sampleMigrations
      (.start "n1" 0 1 :: matchedRun) = some t := Option.isSome_iff_exists.mp rfl
  refine ⟨t, ht, deleted_is_at_target (fun _ => rfl) rfl createdBy_sampleTask
    (fun key m h => (plain_sampleMigrations key m h).2) rfl ?_ safeSet_matchedRun⟩
  intro l hl
  simp only [matchedRun, List.mem_cons, List.not_mem_nil, or_false] at hl
  rcases hl with rfl | rfl | rfl | rfl | rfl | rfl | rfl
  · rfl
  · exact .inl rfl
  · rfl
  · exact .inl rfl
  · exact .inl rfl
  · rfl
  · exact .inl rfl

/-- Version 2 is stored at the source after version 1 was copied. The task then deletes version
    2, while the target has version 1. -/
theorem migration_loses_write :
    ∃ t, exec (step sampleHash) sampleMigrations racingRun = some t ∧
      t.record "n1" "k" = some (sampleRecord 2) ∧ t.record "n2" "k" = some (sampleRecord 1) ∧
      ¬Along (step sampleHash) (DeletedAtTarget "n1") sampleMigrations
        (racingRun ++ [.delete "n1" 5]) := by
  obtain ⟨t, ht⟩ : ∃ t, exec (step sampleHash) sampleMigrations racingRun = some t :=
    Option.isSome_iff_exists.mp rfl
  have hsource : (exec (step sampleHash) sampleMigrations racingRun).bind
      (fun t => t.record "n1" "k") = some (sampleRecord 2) := rfl
  have htarget : (exec (step sampleHash) sampleMigrations racingRun).bind
      (fun t => t.record "n2" "k") = some (sampleRecord 1) := rfl
  have hrunning : ((exec (step sampleHash) sampleMigrations racingRun).bind
      (fun t => t.running "n1")).map (fun e => (e.phase, e.task.targetNode)) =
        some (.deleting ["k"], "n2") := rfl
  rw [ht] at hsource htarget hrunning
  refine ⟨t, ht, hsource, htarget, fun h => ?_⟩
  obtain ⟨e, he, hphase⟩ := Option.map_eq_some_iff.mp hrunning
  obtain ⟨hphase, htask⟩ := Prod.mk.inj hphase
  obtain ⟨m, hm, hle⟩ := ((along_append ht).mp h).2.1 rfl e "k" [] he hphase _ hsource
  rw [htask] at hm
  obtain rfl := Option.some.inj (htarget.symm.trans hm)
  have hversion : (2 : Int) ≤ 1 := version_le_of_sortKey_le hle
  exact absurd hversion (by decide)

end Migrations

end MiniDb
