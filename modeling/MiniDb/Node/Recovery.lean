/-
  Applying committed entries and recovering from disk (`node.py`: `_apply_log_entry`,
  `_recover_data`).

  Both are folds of steps that touch one key each, so both are read key by key
  (`get?_applyToStore`, `get?_replayLog`). For entries as the leader builds them the record
  left by an entry does not depend on what it replaces: `writtenBy` is that record.
-/
import MiniDb.Storage.Snapshot
import MiniDb.Cluster.Election

namespace MiniDb

open Lib

/-! ## Applying an entry -/

/-- The keyword arguments with which `_apply_log_entry` stores a SET. -/
def storeArgs (e : LogEntry) : SetArgs :=
  { version := some e.version, expiresAt := e.expiresAt, createdAt := e.createdAt,
    updatedAt := some e.timestamp, coordinatorId := some e.coordinatorId }

/-- `_apply_log_entry` on the store. -/
def applyToStore (now : Time) (s : KVStore) (e : LogEntry) : KVStore :=
  match e.command with
  | .set => s.set now e.key e.value (storeArgs e)
  | .delete => (s.delete e.key).1

/-- The entry `_apply_log_entry` appends to the log. -/
def aofEntryOf (e : LogEntry) : AofEntry :=
  match e.command with
  | .set =>
    { timestamp := e.timestamp, command := .set, key := e.key, value := e.value, ttl := e.ttl,
      expiresAt := e.expiresAt, version := e.version, createdAt := e.createdAt,
      coordinatorId := e.coordinatorId }
  | .delete =>
    { timestamp := e.timestamp, command := .delete, key := e.key, version := e.version,
      coordinatorId := e.coordinatorId }

/-- What applying an entry makes of the record of its key. -/
def writeEffect (now : Time) (e : LogEntry) (b : Option KeyMetadata) : Option KeyMetadata :=
  match e.command with
  | .set => some (setRecord now b e.value (storeArgs e))
  | .delete => none

theorem get?_applyToStore (now : Time) (s : KVStore) (e : LogEntry) (k : String) :
    (applyToStore now s e).get? k =
      if e.key = k then writeEffect now e (s.get? k) else s.get? k := by
  unfold applyToStore writeEffect
  cases e.command with
  | set =>
    by_cases h : e.key = k
    · subst h
      simp only [KVStore.get?_set, if_true]
    · simp only [KVStore.get?_set, if_neg h, if_neg (Ne.symm h)]
  | delete =>
    by_cases h : e.key = k
    · subst h
      simp only [KVStore.get?_delete, if_true]
    · simp only [KVStore.get?_delete, if_neg h, if_neg (Ne.symm h)]

@[simp] theorem aofEntryOf_key (e : LogEntry) : (aofEntryOf e).key = e.key := by
  unfold aofEntryOf
  cases e.command <;> rfl

/-! ## Entries as the leader builds them -/

/-- What `_apply_partition_write` puts into every entry. -/
structure LeaderBuilt (e : LogEntry) : Prop where
  version_pos : 1 ≤ e.version
  created : e.createdAt.isSome
  expiry : e.expiresAt = e.ttl.map fun (t : Int) => e.timestamp + t

/-- The record a leader-built entry leaves, whatever it replaces. -/
def writtenBy (e : LogEntry) : Option KeyMetadata :=
  match e.command with
  | .set => some
      { value := e.value, createdAt := e.createdAt.getD e.timestamp, updatedAt := e.timestamp,
        expiresAt := e.expiresAt, version := e.version, coordinatorId := e.coordinatorId }
  | .delete => none

theorem setRecord_storeArgs {e : LogEntry} (h : LeaderBuilt e) (now : Time)
    (b : Option KeyMetadata) :
    setRecord now b e.value (storeArgs e) =
      { value := e.value, createdAt := e.createdAt.getD e.timestamp, updatedAt := e.timestamp,
        expiresAt := e.expiresAt, version := e.version, coordinatorId := e.coordinatorId } := by
  have hv : e.version ≠ 0 := by
    have := h.version_pos
    omega
  obtain ⟨c, hc⟩ := Option.isSome_iff_exists.mp h.created
  rw [storeArgs, hc]
  exact setRecord_of_given now b e.value hv _ c e.timestamp e.coordinatorId

theorem writeEffect_eq {e : LogEntry} (h : LeaderBuilt e) (now : Time) (b : Option KeyMetadata) :
    writeEffect now e b = writtenBy e := by
  unfold writeEffect writtenBy
  cases e.command with
  | set => simp only [setRecord_storeArgs h]
  | delete => rfl

theorem version_of_writtenBy {e : LogEntry} (h : LeaderBuilt e) {m : KeyMetadata}
    (hm : writtenBy e = some m) : m.version ≠ 0 := by
  have := h.version_pos
  unfold writtenBy at hm
  cases hc : e.command with
  | set =>
    rw [hc] at hm
    cases hm
    simp only
    omega
  | delete =>
    rw [hc] at hm
    cases hm

theorem expiresAt_of_writtenBy {e : LogEntry} {m : KeyMetadata} (hm : writtenBy e = some m) :
    m.expiresAt = e.expiresAt := by
  unfold writtenBy at hm
  cases hc : e.command with
  | set =>
    rw [hc] at hm
    cases hm
    rfl
  | delete =>
    rw [hc] at hm
    cases hm

/-! ## The last write of a key -/

def lastWrite (h : List LogEntry) (k : String) : Option LogEntry :=
  (h.filter fun e => e.key = k).getLast?

theorem lastWrite_append (h : List LogEntry) (e : LogEntry) (k : String) :
    lastWrite (h ++ [e]) k = if e.key = k then some e else lastWrite h k := by
  unfold lastWrite
  rw [List.filter_append]
  by_cases hk : e.key = k
  · simp [hk]
  · simp [hk]

theorem mem_of_lastWrite {h : List LogEntry} {k : String} {e : LogEntry}
    (he : lastWrite h k = some e) : e ∈ h ∧ e.key = k := by
  have hm := List.mem_of_getLast? he
  rw [List.mem_filter] at hm
  exact ⟨hm.1, by simpa using hm.2⟩

/-! ## Recovery -/

/-- The expiry time replay gives to a logged SET. -/
def replayExpiry (a : AofEntry) : Option Time :=
  match a.expiresAt with
  | some x => some x
  | none => match a.ttl with
    | some t => if t ≠ 0 then some (a.timestamp + t) else none
    | none => none

/-- `apply_aof_entry` -/
def applyAofEntry (now : Time) (s : KVStore) (a : AofEntry) : KVStore :=
  match a.command with
  | .set =>
    if expiredBy (replayExpiry a) now then s
    else s.set now a.key a.value
      { version := some a.version, expiresAt := replayExpiry a, createdAt := a.createdAt,
        updatedAt := some a.timestamp, coordinatorId := some a.coordinatorId }
  | .delete => (s.delete a.key).1
  | .expire => s

def replayLog (now : Time) (s : KVStore) (es : List AofEntry) : KVStore :=
  es.foldl (applyAofEntry now) s

/-- `_recover_data` from the loaded snapshot and the entries of the log. -/
def recoverData (snapshotData : Option (Dict String KVStore.Item)) (es : List AofEntry)
    (now : Time) : KVStore :=
  let s := match snapshotData with
    | some data => KVStore.empty.loadData now data
    | none => KVStore.empty
  replayLog now s es

/-- A restart on the files of `d`: the log is opened, then the data recovered. -/
def recoverDir (d : DataDir) (now : Time) : KVStore :=
  recoverData (load (openAof d) now) (readAof (openAof d)) now

/-- A key of the snapshot is loaded unless it has expired. -/
theorem get?_loaded (data : Dict String KVStore.Item) (now : Time) (k : String) :
    (KVStore.empty.loadData now
        (data.filter fun p => !expiredBefore p.2.expiresAt now)).get? k =
      ((data.get? k).filter fun i => !expiredBefore i.expiresAt now).map KVStore.recordOf := by
  rw [KVStore.get?_loadData, Dict.get?_filter, Option.filter_filter]
  simp only [Bool.and_self]
  cases (data.get? k).filter fun i => !expiredBefore i.expiresAt now with
  | none => rfl
  | some i => rfl

/-- What replaying an entry makes of the record of its key. -/
def replayEffect (now : Time) (a : AofEntry) (b : Option KeyMetadata) : Option KeyMetadata :=
  match a.command with
  | .set =>
    if expiredBy (replayExpiry a) now then b
    else some (setRecord now b a.value
      { version := some a.version, expiresAt := replayExpiry a, createdAt := a.createdAt,
        updatedAt := some a.timestamp, coordinatorId := some a.coordinatorId })
  | .delete => none
  | .expire => b

theorem get?_applyAofEntry (now : Time) (s : KVStore) (a : AofEntry) (k : String) :
    (applyAofEntry now s a).get? k =
      if a.key = k then replayEffect now a (s.get? k) else s.get? k := by
  unfold applyAofEntry replayEffect
  cases a.command with
  | set =>
    simp only
    by_cases hx : expiredBy (replayExpiry a) now
    · simp only [hx, if_true, ite_self]
    · by_cases h : a.key = k
      · subst h
        simp only [hx, Bool.false_eq_true, if_false, KVStore.get?_set, if_true]
      · simp only [hx, Bool.false_eq_true, if_false, KVStore.get?_set, if_neg h,
          if_neg (Ne.symm h)]
  | delete =>
    by_cases h : a.key = k
    · subst h
      simp only [KVStore.get?_delete, if_true]
    · simp only [KVStore.get?_delete, if_neg h, if_neg (Ne.symm h)]
  | expire => simp only [ite_self]

theorem get?_replayLog (now : Time) (s : KVStore) (es : List AofEntry) (k : String) :
    (replayLog now s es).get? k =
      (es.filter fun a => a.key = k).foldl (fun b a => replayEffect now a b) (s.get? k) :=
  get?_foldl KVStore.get? (applyAofEntry now) AofEntry.key (replayEffect now)
    (fun s a k => get?_applyAofEntry now s a k) es s k

/-- A SET with a TTL has its expiry time. -/
def Stamped (e : LogEntry) : Prop := e.expiresAt = none → e.ttl = none

theorem LeaderBuilt.stamped {e : LogEntry} (h : LeaderBuilt e) : Stamped e := by
  intro hx
  have hexp := h.expiry
  rw [hx] at hexp
  exact Option.map_eq_none_iff.mp hexp.symm

/-- A stamped SET is replayed with its own expiry time. -/
theorem replayExpiry_aofEntryOf {e : LogEntry} (h : Stamped e) (hc : e.command = .set) :
    replayExpiry (aofEntryOf e) = e.expiresAt := by
  cases hx : e.expiresAt with
  | some x => simp [replayExpiry, aofEntryOf, hc, hx]
  | none => simp [replayExpiry, aofEntryOf, hc, hx, h hx]

/-- A leader-built entry is replayed to what it wrote, unless it is an expired SET. -/
theorem replayEffect_aofEntryOf {e : LogEntry} (h : LeaderBuilt e) (now : Time)
    (b : Option KeyMetadata) :
    replayEffect now (aofEntryOf e) b =
      if e.command = .set ∧ expiredBy e.expiresAt now then b else writtenBy e := by
  cases hc : e.command with
  | delete => simp [replayEffect, aofEntryOf, writtenBy, hc]
  | set =>
    have hx := replayExpiry_aofEntryOf h.stamped hc
    have hset := setRecord_storeArgs h now b
    unfold storeArgs at hset
    simp only [replayEffect, hx, true_and]
    simp only [aofEntryOf, hc, writtenBy, hset]

/-- A compacted entry is replayed to the captured record, unless that has expired. -/
theorem replayEffect_compactEntry (now : Time) (k : String) {m : KeyMetadata}
    (hv : m.version ≠ 0) (b : Option KeyMetadata) :
    replayEffect now (compactEntry (k, KVStore.itemOf m)) b =
      if expiredBy m.expiresAt now then b else some m := by
  have hx : replayExpiry (compactEntry (k, KVStore.itemOf m)) = m.expiresAt := by
    cases h : m.expiresAt with
    | none => simp [replayExpiry, compactEntry, KVStore.itemOf, h]
    | some x => simp [replayExpiry, compactEntry, KVStore.itemOf, h]
  have hset := setRecord_of_given now b m.value hv m.expiresAt m.createdAt m.updatedAt
    m.coordinatorId
  simp only [replayEffect, hx]
  simp only [compactEntry, KVStore.itemOf, hset]

end MiniDb
