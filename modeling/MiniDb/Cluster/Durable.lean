/-
  Restarts (`node.py`, `_recover_data`, `_maintenance_loop`): what a healthy cluster has
  acknowledged survives restarts of the followers, at any moment and any number of times.

  Every node has its files: the last snapshot, and the log since the last compaction. What a node
  appends goes to its log; maintenance saves a snapshot and may compact the log; a restart
  replaces the memory of a node by what it recovers from its files.

  The files say what the store holds (`Faithful`): replayed onto the snapshot, the log gives every
  record exactly, since an entry leaves the same record whatever it replaces (`Leaves`). So a
  restart changes no record, and `acknowledged_survives` extends the reads of a healthy cluster to
  runs with restarts.

  The leader is not restarted: its write sequence starts again from 0. Saving and compacting are
  one step each here (`Node.Maintenance` has their file operations), and a log is complete.
-/
import MiniDb.Cluster.ReadAfterWrite

namespace MiniDb

open Lib ReadCoordinator

namespace Durable

open Cluster SingleLeader Replica Healthy ReadAfterWrite

/-! ## Clusters with files -/

structure Disk where
  snapshot : Option (Dict String KVStore.Item) := none
  log : List AofEntry := []

/-- `_recover_data` -/
def Disk.recover (d : Disk) (now : Time) : KVStore := recoverData d.snapshot d.log now

structure State where
  cluster : Cluster
  disks : String → Disk

inductive Label where
  /-- A step of the cluster that is no restart. -/
  | run (l : Cluster.Label)
  /-- A snapshot is saved, and the log compacted at `compacted`. -/
  | maintain (n : String) (now : Time) (compacted : Option Time)
  | restart (n : String) (now : Time) (membership : MembershipManager) (ring : ConsistentHashRing)

/-- What `n` appends to its log. -/
def appended (c c' : Cluster) (n : String) : List AofEntry :=
  (c'.nodes n).aof.drop (c.nodes n).aof.length

def isRestart : Cluster.Label → Bool
  | .restart _ _ _ _ _ => true
  | _ => false

/-- The snapshot branch of `_maintenance_loop`. -/
def maintain (s : State) (n : String) (now : Time) (compacted : Option Time) : State :=
  let (store, data) := (s.cluster.nodes n).store.getAllData now
  { cluster := s.cluster.setNode n { s.cluster.nodes n with store := store }
    disks := Function.update s.disks n
      { snapshot := some data
        log := match compacted with
          | some t => compactEntries data t
          | none => (s.disks n).log } }

def step (hash : String → Nat) (s : State) : Label → Option State
  | .run l =>
    if isRestart l then none
    else (s.cluster.step hash l).map fun c =>
      { cluster := c
        disks := fun n => { s.disks n with log := (s.disks n).log ++ appended s.cluster c n } }
  | .maintain n now compacted => some (maintain s n now compacted)
  | .restart n now membership ring =>
    (s.cluster.step hash
      (.restart n ((s.disks n).recover now) (s.disks n).log membership ring)).map fun c =>
        { s with cluster := c }

/-- What is assumed of a step; `L` is the leader. -/
def CalmRun (L : String) (members : Finset String) (s : State) : Label → Prop
  | .run l => CalmStep L members s.cluster l
  | .maintain _ _ _ => True
  | .restart n _ _ _ => n ≠ L

instance (L : String) (members : Finset String) (s : State) :
    (l : Label) → Decidable (CalmRun L members s l)
  | .run l => inferInstanceAs (Decidable (CalmStep L members s.cluster l))
  | .maintain _ _ _ => isTrue trivial
  | .restart n _ _ _ => inferInstanceAs (Decidable (n ≠ L))

/-! ## What the log says -/

/-- Replayed, the entry leaves the record, whatever it replaces. -/
def Leaves (a : AofEntry) (m : KeyMetadata) : Prop := ∀ now b, replayEffect now a b = some m

/-- The files say what the node's store holds. -/
structure Faithful (d : Disk) (n : Node) : Prop where
  leaves : ∀ a ∈ d.log, ∃ m, Leaves a m
  recovered : ∀ now k, (d.recover now).get? k = n.store.get? k

/-- Nothing is stored, and nothing logged. -/
structure Unwritten (n n' : Node) : Prop where
  aof : n'.aof = n.aof
  records : SameRecords n n'

theorem Unwritten.refl (n : Node) : Unwritten n n := ⟨rfl, .refl n⟩

theorem Unwritten.trans {n n' n'' : Node} (h : Unwritten n n') (h' : Unwritten n' n'') :
    Unwritten n n'' := ⟨h'.aof.trans h.aof, fun k => (h'.records k).trans (h.records k)⟩

/-- A step of a node that appends to its log what it stores, or does neither. -/
inductive Logs (n n' : Node) : Prop where
  | same (h : Unwritten n n')
  | stored {a : AofEntry} {m : KeyMetadata} (haof : n'.aof = n.aof ++ [a]) (hleaves : Leaves a m)
      (h : ∀ k, n'.store.get? k = if k = a.key then some m else n.store.get? k)

theorem Logs.refl (n : Node) : Logs n n := .same (.refl n)

section Logging

variable {L : String}

theorem logs_applyLogEntry {e : LogEntry} (hgood : GoodEntry L e) (hbuilt : LeaderBuilt e)
    (n : Node) (clock : Time) : Logs n (n.applyLogEntry clock e) := by
  have hset : e.command = .set := hgood.plain.1
  obtain ⟨m, hm⟩ : ∃ m, writtenBy e = some m := by
    unfold writtenBy
    rw [hset]
    exact ⟨_, rfl⟩
  refine .stored (a := aofEntryOf e) (m := m) rfl (fun now b => ?_) fun k => ?_
  · rw [replayEffect_aofEntryOf hbuilt, hgood.plain.2, hm]
    simp
  · have hstore : (n.applyLogEntry clock e).store = applyToStore clock n.store e := rfl
    rw [hstore, get?_applyToStore, writeEffect_eq hbuilt, hm, aofEntryOf_key]
    simp only [eq_comm]

theorem leaves_aofEntry {u : Versioned} (hversion : u.version ≠ 0) (hexpiry : u.expiresAt = none) :
    Leaves u.aofEntry (setRecord 0 none u.value u.setArgs) := by
  intro now b
  have hnone : replayExpiry u.aofEntry = none := by
    simp [replayExpiry, Versioned.aofEntry, hexpiry]
  have hreplayed : ∀ now b, setRecord now b u.value u.setArgs =
      setRecord 0 none u.value u.setArgs := by
    intro now b
    unfold Versioned.setArgs
    rw [setRecord_of_given _ _ _ hversion, setRecord_of_given _ _ _ hversion]
  unfold replayEffect
  rw [hnone]
  have hargs := hreplayed now b
  unfold Versioned.setArgs at hargs
  rw [hexpiry] at hargs
  simpa [Versioned.aofEntry, Versioned.setArgs, hexpiry] using hargs

theorem logs_storeUnlessOlder {n : Node} (hn : Plain n) {u : Versioned} (hversion : u.version ≠ 0)
    (hexpiry : u.expiresAt = none) (clock : Time) : Logs n (n.storeUnlessOlder clock u).1 := by
  simp only [Node.storeUnlessOlder, getWithMetadata_plain hn]
  split
  · exact .refl n
  · refine .stored (a := u.aofEntry) rfl (leaves_aofEntry hversion hexpiry) fun k => ?_
    simp only [KVStore.get?_set]
    have hrecord : setRecord clock (n.store.get? u.key) u.value u.setArgs =
        setRecord 0 none u.value u.setArgs := by
      unfold Versioned.setArgs
      rw [setRecord_of_given _ _ _ hversion, setRecord_of_given _ _ _ hversion]
    rw [hrecord]
    rfl

end Logging

/-! ## What the files keep -/

section Files

variable {d : Disk} {n n' : Node}

theorem recover_append (d : Disk) (a : AofEntry) (now : Time) (k : String) :
    (Disk.recover { d with log := d.log ++ [a] } now).get? k =
      if a.key = k then replayEffect now a ((d.recover now).get? k)
      else (d.recover now).get? k := by
  unfold Disk.recover recoverData replayLog
  rw [List.foldl_append]
  exact get?_applyAofEntry now _ a k

theorem Faithful.of_records (h : Faithful d n) (hsame : SameRecords n n') : Faithful d n' :=
  ⟨h.leaves, fun now k => (h.recovered now k).trans (hsame k).symm⟩

/-- What is appended is on disk. -/
theorem Faithful.append (h : Faithful d n) (hlogs : Logs n n') :
    Faithful { d with log := d.log ++ n'.aof.drop n.aof.length } n' := by
  cases hlogs with
  | same hsame =>
    rw [hsame.aof, List.drop_length, List.append_nil]
    exact h.of_records hsame.records
  | @stored a m haof hleaves hstore =>
    rw [haof, List.drop_left]
    refine ⟨fun a' ha' => ?_, fun now k => ?_⟩
    · rcases List.mem_append.mp ha' with ha' | ha'
      · exact h.leaves a' ha'
      · rw [List.mem_singleton.mp ha']
        exact ⟨m, hleaves⟩
    · rw [recover_append, hstore k, hleaves now, h.recovered now k]
      simp only [eq_comm]

/-- Entries that leave records forget what they are replayed onto. -/
theorem foldl_leaves {as : List AofEntry} (h : ∀ a ∈ as, ∃ m, Leaves a m) (hne : as ≠ [])
    (now : Time) (b b' : Option KeyMetadata) :
    as.foldl (fun b a => replayEffect now a b) b =
      as.foldl (fun b a => replayEffect now a b) b' := by
  cases as with
  | nil => exact absurd rfl hne
  | cons a as =>
    obtain ⟨m, hm⟩ := h a List.mem_cons_self
    rw [List.foldl_cons, List.foldl_cons, hm, hm]

theorem get?_recover (d : Disk) (now : Time) (k : String) :
    (d.recover now).get? k = (d.log.filter fun a => a.key = k).foldl
      (fun b a => replayEffect now a b)
      (((d.snapshot.bind fun data => data.get? k).filter
        fun i => !expiredBefore i.expiresAt now).map KVStore.recordOf) := by
  unfold Disk.recover recoverData
  rw [get?_replayLog]
  cases hsnap : d.snapshot with
  | none => rfl
  | some data =>
    simp only [KVStore.get?_loadData, Option.bind_some]
    cases (data.get? k).filter fun i => !expiredBefore i.expiresAt now <;> rfl

theorem get?_data (hn : Plain n) (now : Time) (k : String) :
    (n.store.getAllData now).2.get? k = (n.store.get? k).map KVStore.itemOf := by
  rw [KVStore.get?_getAllData]
  cases hm : n.store.get? k with
  | none => rfl
  | some m => simp [hn.store k m hm]

/-- The record that a snapshot of the store has. -/
theorem recordOf_data (hn : Plain n) (now clock : Time) (k : String) :
    (((some (n.store.getAllData now).2).bind fun data => data.get? k).filter
      fun i => !expiredBefore i.expiresAt clock).map KVStore.recordOf = n.store.get? k := by
  rw [Option.bind_some, get?_data hn]
  cases hm : n.store.get? k with
  | none => rfl
  | some m => simp [Option.filter_some, hn.store k m hm]

/-- A snapshot is saved, and the log left as it is. -/
theorem Faithful.saved (h : Faithful d n) (hn : Plain n) (now : Time) :
    Faithful { d with snapshot := some (n.store.getAllData now).2 } n := by
  refine ⟨h.leaves, fun clock k => ?_⟩
  have hold := h.recovered clock k
  rw [get?_recover] at hold ⊢
  dsimp only
  rw [recordOf_data hn now clock k]
  by_cases hnone : (d.log.filter fun a => a.key = k) = []
  · rw [hnone]
    rfl
  · rw [← hold]
    exact foldl_leaves (fun a ha => h.leaves a (List.mem_of_mem_filter ha)) hnone clock _ _

/-- The log is compacted to what the snapshot has. -/
theorem faithful_compacted (hn : Plain n)
    (hversion : ∀ k m, n.store.get? k = some m → m.version ≠ 0) (now compacted : Time) :
    Faithful { snapshot := some (n.store.getAllData now).2
               log := compactEntries (n.store.getAllData now).2 compacted } n := by
  have hentry : ∀ k m, n.store.get? k = some m → Leaves (compactEntry (k, KVStore.itemOf m)) m := by
    intro k m hm clock b
    rw [replayEffect_compactEntry clock k (hversion k m hm), hn.store k m hm]
    rfl
  refine ⟨fun a ha => ?_, fun clock k => ?_⟩
  · obtain ⟨⟨k, i⟩, hp, rfl⟩ := List.mem_map.mp ha
    rw [Dict.mem_items_iff, Dict.get?_filter, get?_data hn] at hp
    obtain ⟨hi, -⟩ := Option.filter_eq_some_iff.mp hp
    obtain ⟨m, hm, rfl⟩ := Option.map_eq_some_iff.mp hi
    exact ⟨m, hentry k m hm⟩
  · rw [get?_recover]
    dsimp only
    rw [recordOf_data hn now clock k, compactEntries_filter_key, get?_data hn]
    cases hm : n.store.get? k with
    | none => rfl
    | some m =>
      simp only [Option.map_some, Option.filter_some, KVStore.itemOf_expiresAt, hn.store k m hm,
        expiredBefore_none, Bool.not_false, if_true, Option.toList_some, List.foldl_cons,
        List.foldl_nil]
      exact hentry k m hm clock _

end Files

/-! ## What a step writes -/

section Steps

variable {hash : String → Nat} {L : String} {members : Finset String} {c c' : Cluster}

/-- Every entry is as `_apply_partition_write` builds it. -/
def Built (L : String) (c : Cluster) : Prop := ∀ e, Event.issued L e ∈ c.history → LeaderBuilt e

theorem built_step {l : Cluster.Label} (h : Calm L members c) (hbuilt : Built L c)
    (hl : CalmStep L members c l) (hs : c.step hash l = some c') : Built L c' := by
  intro e he
  rcases (issued_step hs L e).mp he with he | he
  · exact hbuilt e he
  · have hgood := (begun_after h hl he).2.2.1
    cases l with
    | begin i clock now =>
      obtain ⟨w, replicas, -, -, rfl⟩ := entryBegun_eq he
      exact ⟨hgood.version_pos, rfl, rfl⟩
    | _ => cases he

/-- A commit that is handled is logged. -/
theorem logs_commit {e : LogEntry} (hgood : GoodEntry L e) (hbuilt : LeaderBuilt e) {n : Node}
    (happly : n.toApply e = e) (clock : Time) : Logs n (n.commit clock e) := by
  have hlogs := logs_applyLogEntry hgood hbuilt { n with staged := n.staged.erase e.index } clock
  unfold Node.commit
  rw [happly]
  cases hlogs with
  | same hsame => exact .same ⟨hsame.aof, hsame.records⟩
  | stored haof hleaves hstore => exact .stored haof hleaves hstore

theorem logs_repairWith {a : ReadAnswer} {e : LogEntry} (hplain : ∀ n, Plain (c.nodes n))
    (hgood : GoodEntry L e) (htells : Tells a e) (m key target id : String) (d : Delivery)
    (clock : Time) (n : String) :
    Logs (c.nodes n) ((c.repairWith clock m key target (resultOf id a) d).nodes n) := by
  have hversion : a.version ≠ 0 := by
    have := hgood.version_pos
    have := htells.version
    omega
  unfold repairWith
  split
  · exact rel_update Logs.refl (logs_storeUnlessOlder (hplain m) hversion htells.expiresAt clock) n
  · exact rel_send (m := .replicaSet (Node.repairArgs key (resultOf id a))) Logs.refl
      (logs_storeUnlessOlder (hplain target) hversion htells.expiresAt clock) n

theorem unwritten_cleanup {n : Node} (hn : Plain n) (clock : Time) :
    Unwritten n { n with store := n.store.cleanupExpired clock } := by
  refine ⟨rfl, fun k => ?_⟩
  rw [KVStore.get?_cleanupExpired]
  cases hm : n.store.get? k with
  | none => rfl
  | some r => simp [hn.store k r hm]

/-- **What a step stores, it logs.** -/
theorem logs_step {l : Cluster.Label} (h : Calm L members c) (hbuilt : Built L c)
    (hl : CalmStep L members c l) (hs : c.step hash l = some c') (n : String) :
    Logs (c.nodes n) (c'.nodes n) := by
  cases step_effect hs with
  | control hl hb hc =>
    exact .same ⟨(hc.nodes n).aof, fun k => by rw [(hc.nodes n).store]⟩
  | @begun i clock now m w replicas hi hfree =>
    have hspec := Node.beginWrite_spec clock now (c.nodes m) w replicas
    rw [nodes_begun]
    refine rel_update Logs.refl (.same ⟨hspec.aof, fun k => ?_⟩) n
    rw [hspec.store, getWithMetadata_plain (h.plain m)]
  | @prepared m f d clock e replicas targets rest ht =>
    have hsend : ∀ n, Unwritten (c.nodes n) ((c.send clock f (.replicate e .prepare)
        (deliveryTo (c.nodes m) f d)).1.nodes n) :=
      rel_send Unwritten.refl (by exact ⟨rfl, fun _ => rfl⟩)
    simp only [setTask, Cluster.prepared]
    split
    · exact .same ((hsend n).trans
        (rel_update Unwritten.refl (by exact ⟨rfl, fun _ => rfl⟩) n))
    · exact .same (hsend n)
  | ready ht => exact .same (rel_update Unwritten.refl (by exact ⟨rfl, fun _ => rfl⟩) n)
  | unready ht => exact .same (rel_update Unwritten.refl (by exact ⟨rfl, fun _ => rfl⟩) n)
  | @committed m f d clock e rest k ht =>
    obtain ⟨-, hissued, hgood, -⟩ := h.current ht rfl
    exact rel_send (m := .replicate e .commit) Logs.refl
      (logs_commit hgood (hbuilt e hissued) (h.sole.toApply f ⟨L, hissued⟩) clock) n
  | @settled m clock e k ht =>
    obtain ⟨-, hissued, hgood, -⟩ := h.current ht rfl
    rcases Node.settleWrite_cases clock (c.nodes m) e k with ⟨text, hsettle⟩ | ⟨-, hsettle⟩
    · rw [hsettle]
      exact rel_update Logs.refl (.refl _) n
    · rw [hsettle]
      exact rel_update Logs.refl (logs_applyLogEntry hgood (hbuilt e hissued) _ clock) n
  | asyncDone hq => exact .same (rel_update Unwritten.refl (by exact ⟨rfl, fun _ => rfl⟩) n)
  | @asyncSent m f d clock e rest queue hq d' =>
    have hqueue : ∀ n, Unwritten (c.nodes n) ((c.setNode m { c.nodes m with
        replication := { (c.nodes m).replication with asyncQueue := (e, rest) :: queue } }).nodes
          n) := rel_update Unwritten.refl (by exact ⟨rfl, fun _ => rfl⟩)
    exact .same ((hqueue n).trans (rel_send Unwritten.refl (by exact ⟨rfl, fun _ => rfl⟩) n))
  | @answered m r d d' clock p since answers ht hnew =>
    have hread : Unwritten (c.nodes r) ((c.nodes r).localRead clock p.key).1 := by
      refine ⟨rfl, fun k => ?_⟩
      simp only [Node.localRead, getWithMetadata_plain (h.plain r)]
    cases d' with
    | unsent => exact .refl _
    | sent => exact .refl _
    | handled => exact .same (rel_update Unwritten.refl hread n)
    | answered => exact .same (rel_update Unwritten.refl hread n)
  | @repaired m d clock p since results best repairs rest r ht =>
    obtain ⟨e, id, a, hissued, -, htells, rfl⟩ := h.repairing m p since results best _ _ ht
    exact logs_repairWith h.plain (h.records.good e hissued) htells m p.key r.nodeId id d clock n
  | @delivered i clock dest m hm hdata =>
    simp only [CalmStep, hm, MayBeLate] at hl
    exact absurd hl hdata
  | restarted => cases hl
  | @cleaned m clock =>
    exact .same (rel_update Unwritten.refl (unwritten_cleanup (h.plain m) clock) n)
  | _ => exact .refl _

/-! ## Restarts -/

section Restart

variable {n : String} {store : KVStore} {aof : List AofEntry} {membership : MembershipManager}
  {ring : ConsistentHashRing}

/-- A restart that recovers the same records. -/
theorem records_restart (hsame : ∀ k, store.get? k = (c.nodes n).store.get? k)
    (hs : c.step hash (.restart n store aof membership ring) = some c') (m : String) :
    SameRecords (c.nodes m) (c'.nodes m) := by
  obtain rfl := Option.some.inj hs
  have hrestarted : SameRecords (c.nodes n) ((c.nodes n).restart store aof membership ring) := hsame
  exact rel_update SameRecords.refl hrestarted m

theorem history_restart (hs : c.step hash (.restart n store aof membership ring) = some c') :
    c'.history = c.history := by
  obtain rfl := Option.some.inj hs
  rfl

theorem progress_restart (hsame : ∀ k, store.get? k = (c.nodes n).store.get? k)
    (hs : c.step hash (.restart n store aof membership ring) = some c') : Progress L members c c' :=
  .same (records_restart hsame hs) fun _ _ he => history_restart hs ▸ he

theorem tasks_restart (hs : c.step hash (.restart n store aof membership ring) = some c')
    {m : String} {T : Task} (hT : c'.tasks m = some T) : c.tasks m = some T := by
  obtain rfl := Option.some.inj hs
  have hT : Function.update c.tasks n none m = some T := hT
  by_cases hm : m = n
  · subst hm
    rw [Function.update_self] at hT
    cases hT
  · rwa [Function.update_of_ne hm] at hT

theorem calm_restart (h : Calm L members c) (hn : n ≠ L)
    (hsame : ∀ k, store.get? k = (c.nodes n).store.get? k)
    (hs : c.step hash (.restart n store aof membership ring) = some c') : Calm L members c' := by
  have hrecords := records_restart hsame hs
  have hprogress : Progress L members c c' := progress_restart hsame hs
  have hhistory := history_restart hs
  have hwaiting : ∀ p ∈ c'.waiting, p ∈ c.waiting := by
    obtain rfl := Option.some.inj hs
    exact fun p hp => List.mem_of_mem_filter hp
  have hleader : c'.nodes L = c.nodes L := by
    obtain rfl := Option.some.inj hs
    exact Function.update_of_ne (Ne.symm hn) _ _
  have hold : ∀ {m T}, c'.tasks m = some T → c.tasks m = some T := tasks_restart hs
  have hgrows : c.history ⊆ c'.history := history_step hs
  have hl : SoleLeader L c (.restart n store aof membership ring) := hn
  exact
    { sole := sole_step h.sole hl hs
      counted := h.sole.counted_step h.counted hs
      leader := h.leader
      factor := fun m => by rw [config_step hs, h.factor]
      level := by rw [config_step hs]; exact h.level
      waiting := fun p hp => h.waiting p (hwaiting p hp)
      records := ⟨fun e he => h.records.good e (hhistory ▸ he), fun m k r hr =>
        (h.records.backed m k r ((hrecords m k).symm.trans hr)).mono hgrows⟩
      order := by rw [hhistory]; exact h.order
      bound := fun e he => by rw [hleader]; exact h.bound e (hhistory ▸ he)
      newest := fun m T e hT he e' he' => h.newest m T e (hold hT) he e' (hhistory ▸ he')
      preparing := fun m e replicas targets rest hT => h.preparing m e _ _ _ (hold hT)
      committing := fun m e rest k hT => h.committing m e rest k (hold hT)
      held := fun m e he => by
        obtain ⟨hm, hholds⟩ := h.held m e (hhistory ▸ he)
        exact ⟨hm, le_trans hholds ((hprogress.advance m).rank_le e.key)⟩
      reading := fun m p since answers hT => by
        obtain ⟨hasks, hgood⟩ := h.reading m p since answers (hold hT)
        exact ⟨hasks, fun r a ha => (hgood r a ha).mono hgrows⟩
      repairing := fun m p since results best repairs rest hT =>
        (h.repairing m p since results best repairs rest (hold hT)).mono hgrows }

theorem reads_restart (h : Reads L members c) (hn : n ≠ L)
    (hsame : ∀ k, store.get? k = (c.nodes n).store.get? k)
    (hs : c.step hash (.restart n store aof membership ring) = some c') : Reads L members c' where
  calm := calm_restart h.calm hn hsame hs
  reading m p since answers hT := by
    obtain ⟨hsince, hcovered⟩ := h.reading m p since answers (tasks_restart hs hT)
    obtain ⟨hsince', htake⟩ := take_step hs hsince
    refine ⟨hsince', fun w hw hkey => ?_⟩
    rw [htake] at hw
    exact (hcovered w hw hkey).mono (progress_restart hsame hs) (history_step hs)
  repairing m p since results outcome rest hT :=
    (h.repairing m p since results outcome rest (tasks_restart hs hT)).step hs
  got m p since results outcome hgot :=
    (h.got m p since results outcome (history_restart hs ▸ hgot)).step hs

end Restart

/-! ## The invariant -/

structure Inv (L : String) (members : Finset String) (s : State) : Prop where
  reads : Reads L members s.cluster
  built : Built L s.cluster
  faithful : ∀ n, Faithful (s.disks n) (s.cluster.nodes n)

theorem inv_run {s s' : State} (h : Inv L members s) {l : Cluster.Label}
    (hl : CalmStep L members s.cluster l) (hs : step hash s (.run l) = some s') :
    Inv L members s' := by
  simp only [step, Option.ite_none_left_eq_some, Option.map_eq_some_iff] at hs
  obtain ⟨-, c', hc, rfl⟩ := hs
  exact ⟨reads_step h.reads hl hc, built_step h.reads.calm h.built hl hc, fun n =>
    (h.faithful n).append (logs_step h.reads.calm h.built hl hc n)⟩

/-- Maintenance is a cleanup, and the files still say the same. -/
theorem inv_maintain {s : State} (h : Inv L members s) (n : String) (now : Time)
    (compacted : Option Time) : Inv L members (maintain s n now compacted) := by
  have hcalm := h.reads.calm
  have hs : s.cluster.step (fun _ => 0) (.cleanup n now) =
      some (maintain s n now compacted).cluster := rfl
  have hstep : CalmStep L members s.cluster (.cleanup n now) := trivial
  refine ⟨reads_step h.reads hstep hs, built_step hcalm h.built hstep hs, fun m => ?_⟩
  have hplain := hcalm.plain n
  have hrecords : SameRecords (s.cluster.nodes m) ((maintain s n now compacted).cluster.nodes m) :=
    rel_update SameRecords.refl (unwritten_cleanup hplain now).records m
  refine Faithful.of_records ?_ hrecords
  simp only [maintain]
  by_cases hm : m = n
  · subst hm
    rw [Function.update_self]
    cases compacted with
    | none => exact (h.faithful m).saved hplain now
    | some t =>
      refine faithful_compacted hplain (fun k r hr => ?_) now t
      have hversion := (hcalm.records.of_get? hr).1
      omega
  · rw [Function.update_of_ne hm]
    exact h.faithful m

theorem inv_restart {s s' : State} (h : Inv L members s) {n : String} {now : Time}
    {membership : MembershipManager} {ring : ConsistentHashRing} (hn : n ≠ L)
    (hs : step hash s (.restart n now membership ring) = some s') : Inv L members s' := by
  simp only [step, Option.map_eq_some_iff] at hs
  obtain ⟨c', hc, rfl⟩ := hs
  have hsame := (h.faithful n).recovered now
  have hrecords := records_restart hsame hc
  exact ⟨reads_restart h.reads hn hsame hc, fun e he => h.built e (history_restart hc ▸ he),
    fun m => (h.faithful m).of_records (hrecords m)⟩

theorem inv_step {s s' : State} {l : Label} (h : Inv L members s) (hl : CalmRun L members s l)
    (hs : step hash s l = some s') : Inv L members s' := by
  cases l with
  | run l => exact inv_run h hl hs
  | maintain n now compacted =>
    obtain rfl := Option.some.inj hs
    exact inv_maintain h n now compacted
  | restart n now membership ring => exact inv_restart h hl hs

/-! ## Runs -/

/-- Empty stores, and empty files. -/
structure Starts (L : String) (members : Finset String) (s : State) : Prop where
  cluster : CalmStart L members s.cluster
  disks : ∀ n, s.disks n = {}

theorem Starts.inv {s : State} (h : Starts L members s) : Inv L members s where
  reads := reads_start h.cluster
  built e he := absurd he (h.cluster.fresh.no_event _)
  faithful n := by
    rw [h.disks n]
    exact ⟨fun a ha => absurd ha List.not_mem_nil, fun now k => (h.cluster.empty n k).symm⟩

/-- **Acknowledged writes survive restarts**: in every run of a healthy cluster with maintenance
    and with restarts of followers, a write that is acknowledged is held by a majority from then
    on; a GET at QUORUM that begins after it reads back at least that write, or fails with too few
    answers; and the files of every node say what its store holds. -/
theorem acknowledged_survives {s t : State} {ls : List Label} (h : Starts L members s)
    (hl : Along (step hash) (CalmRun L members) s ls) (he : exec (step hash) s ls = some t) :
    (∀ w, Acked t.cluster.history w → ∃ Q, Held members t.cluster w Q) ∧
      (∀ n p since results outcome,
        Event.got n p since results outcome ∈ t.cluster.history → p.level = .quorum →
          ∀ w, Acked (t.cluster.history.take since) w → w.key = p.key →
            ReadsBack L members t.cluster p results outcome w) ∧
      ∀ n now k, ((t.disks n).recover now).get? k = (t.cluster.nodes n).store.get? k := by
  have ht : Inv L members t :=
    exec_inv_along (fun _ _ _ h hl hs => inv_step h hl hs) h.inv hl he
  refine ⟨fun w hw => acked_held ht.reads.calm hw, fun n p since results outcome hgot => ?_,
    fun n => (ht.faithful n).recovered⟩
  exact (ht.reads.got n p since results outcome hgot).2

end Steps

/-! ### The only follower that has the write restarts -/

def emptyDisks : State := { cluster := sample, disks := fun _ => {} }

/-- `a` writes with `b`, which saves a snapshot and restarts; then `c` reads. -/
def restartThenRead : List Label :=
  (electionOf "a" "b" "c" ++ setOf "a" 1 [.answered, .unsent]).map .run ++
    [.maintain "b" 2 (some 2),
      .restart "b" 3 (sample.nodes "b").membership (sample.nodes "b").ring] ++
    ([.get "c" "k" .quorum, .answer "c" "c" .answered 4, .answer "c" "b" .answered 4,
      .conclude "c" ["b"], .repair "c" .answered 4, .endGet "c"] : List Cluster.Label).map .run

theorem acknowledged_survives_sample :
    ∃ t, exec (step fun _ => 0) emptyDisks restartThenRead = some t ∧
      t.cluster.history[5]? = some (.got "c" planOfC 5 resultsOfC outcomeOfC) ∧
      ReadsBack "a" {"a", "b", "c"} t.cluster planOfC resultsOfC outcomeOfC setOfA := by
  have hrun : (exec (step fun _ => 0) emptyDisks restartThenRead).map
      (fun t => (t.cluster.history[4]?, t.cluster.history[5]?)) =
      some (some (.replied "a" setOfA (.ok (.str "OK"))),
        some (.got "c" planOfC 5 resultsOfC outcomeOfC)) := rfl
  obtain ⟨t, ht, hobs⟩ := Option.map_eq_some_iff.mp hrun
  obtain ⟨hreplied, hgot⟩ := Prod.mk.inj hobs
  have hcalm : Along (step fun _ => 0) (CalmRun "a" {"a", "b", "c"}) emptyDisks
      restartThenRead := by decide
  have hacked : Acked (t.cluster.history.take 5) setOfA := by
    refine ⟨"a", .ok (.str "OK"), List.mem_of_getElem? (i := 4) ?_, rfl⟩
    rw [List.getElem?_take_of_lt (by decide), hreplied]
  have hstart : Starts "a" {"a", "b", "c"} emptyDisks := ⟨calmStart_sample, fun _ => rfl⟩
  exact ⟨t, ht, hgot, (acknowledged_survives hstart hcalm ht).2.1 "c" planOfC 5 resultsOfC
    outcomeOfC (List.mem_of_getElem? hgot) rfl setOfA hacked rfl⟩

end Durable

end MiniDb
