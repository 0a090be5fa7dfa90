/-
  The JSON object in a snapshot file (`storage/snapshot.py`, `save` and `load`), between the
  dict that `get_all_data` gives and the one that `load_data` takes.

  `loadJson_snapshotJson`: what `load` makes of the object that `save` wrote is the dict again, less
  what has expired. `snapshot_round_trip` takes this through the stores on both ends. The JSON
  text and the compression of the file count as lossless.

  As in `Storage.AofText`, a field of another type than `save` writes is refused, where the
  source would build an ill-typed record.
-/
import MiniDb.Storage.SnapshotFiles
import MiniDb.Storage.AofText
import Mathlib.Tactic.NormNum

namespace MiniDb.SnapshotJson

open Lib Lib.Json Lib.Dict AofText SnapshotFiles

/-! ## Writing -/

/-- The fields of a record. -/
def itemJson (i : KVStore.Item) : Json :=
  .obj [("v", i.value), ("e", (i.expiresAt.map .float).getD .null), ("ver", .int i.version),
    ("created_at", .float i.createdAt), ("updated_at", .float i.updatedAt),
    ("coordinator_id", .str i.coordinatorId)]

/-- `snapshot_data` of `save`. -/
def snapshotJson (timestamp : Time) (data : Dict String KVStore.Item) : Json :=
  .obj [("version", .int 1), ("timestamp", .float timestamp),
    ("data", .obj (data.items.map fun p => (p.1, itemJson p.2)))]

/-! ## Reading -/

/-- One item of the loop in `load`; `none` is an expired one. -/
def itemOfJson (timestamp now : Time) (data : Json) : Except LineError (Option KVStore.Item) := do
  let e ← optional asTime (data.field? "e")
  if expiredBefore e now then
    return none
  let v ← item data "v"
  let ver ← withDefault asInt 1 (data.field? "ver")
  let cts ← withDefault asTime timestamp (data.field? "created_at")
  let uts ← withDefault asTime timestamp (data.field? "updated_at")
  let coord ← withDefault asString "" (data.field? "coordinator_id")
  return some { value := v, expiresAt := e, version := ver, createdAt := cts, updatedAt := uts,
                coordinatorId := coord }

/-- The loop over the items. -/
def loadItems (timestamp now : Time) :
    List (String × Json) → Dict String KVStore.Item → Except LineError (Dict String KVStore.Item)
  | [], result => .ok result
  | (key, data) :: rest, result => do
    match ← itemOfJson timestamp now data with
    | none => loadItems timestamp now rest result
    | some i => loadItems timestamp now rest (result.set key i)

/-- `load`, from the object on; an error sends it to the backup. -/
def loadJson (now : Time) (json : Json) : Except LineError (Dict String KVStore.Item) := do
  let timestamp ← withDefault asTime now (json.field? "timestamp")
  match ← item json "data" with
  | .obj fields => loadItems timestamp now (Dict.empty.setAll fields).items Dict.empty
  | _ => .error .type

/-! ## The object reads back as the dict -/

theorem itemOfJson_itemJson (timestamp now : Time) (i : KVStore.Item) :
    itemOfJson timestamp now (itemJson i) =
      .ok (if expiredBefore i.expiresAt now then none else some i) := by
  have hexp : optional asTime ((itemJson i).field? "e") = .ok i.expiresAt := by
    rw [show (itemJson i).field? "e" = some ((i.expiresAt.map .float).getD .null) from rfl]
    cases i.expiresAt <;> rfl
  unfold itemOfJson
  rw [hexp, ok_bind]
  cases h : expiredBefore i.expiresAt now
  · rfl
  · rfl

theorem loadItems_itemJson (timestamp now : Time) (l : List (String × KVStore.Item))
    (result : Dict String KVStore.Item) :
    loadItems timestamp now (l.map fun p => (p.1, itemJson p.2)) result =
      .ok (result.setAll (l.filter fun p => !expiredBefore p.2.expiresAt now)) := by
  induction l generalizing result with
  | nil => rfl
  | cons p l ih =>
    rw [List.map_cons, loadItems, itemOfJson_itemJson, ok_bind, List.filter_cons]
    cases h : expiredBefore p.2.expiresAt now
    · exact ih (result.set p.1 p.2)
    · exact ih result

/-- **A snapshot reads back as what was saved**, less what has expired. -/
theorem loadJson_snapshotJson (timestamp now : Time) (data : Dict String KVStore.Item) :
    loadJson now (snapshotJson timestamp data) = .ok (unexpiredItems data now) := by
  have hnodup : ((data.items.map fun p => (p.1, itemJson p.2)).map Prod.fst).Nodup := by
    rw [List.map_map]
    exact data.nodup
  have hfields : (empty.setAll (data.items.map fun p => (p.1, itemJson p.2))).items =
      data.items.map fun p => (p.1, itemJson p.2) := items_setAll hnodup
  have hdata : item (snapshotJson timestamp data) "data" =
      .ok (.obj (data.items.map fun p => (p.1, itemJson p.2))) := rfl
  have hresult : empty.setAll (data.items.filter fun p => !expiredBefore p.2.expiresAt now) =
      unexpiredItems data now := setAll_empty (unexpiredItems data now)
  unfold loadJson
  rw [show withDefault asTime now ((snapshotJson timestamp data).field? "timestamp") =
    .ok timestamp from rfl, ok_bind, hdata, ok_bind]
  simp only
  rw [hfields, loadItems_itemJson, hresult]

/-- What `loadJson` makes of the object is what `load` makes of the file that holds it. -/
theorem loadJson_eq_load {d : DataDir} {data : Dict String KVStore.Item}
    (h : d .snapshot = some (.closed (.snapshot data))) (timestamp now : Time) :
    (loadJson now (snapshotJson timestamp data)).toOption = load d now := by
  rw [loadJson_snapshotJson, load_readable (by rw [h]; rfl)]
  rfl

/-! ## From store to store -/

/-- The store after a restart from a snapshot: `get_all_data` and `save` at `t1`, `load` and
    `load_data` into an empty store at `t2`. -/
def restored (s : KVStore) (timestamp t1 t2 : Time) : Except LineError KVStore :=
  (loadJson t2 (snapshotJson timestamp (s.getAllData t1).2)).map (KVStore.empty.loadData t2)

/-- The two stores answer `get` and `get_with_metadata` alike at `t`. -/
def ReadsAlike (t : Time) (s s' : KVStore) : Prop :=
  ∀ key, (s'.get t key).2 = (s.get t key).2 ∧
    (s'.getWithMetadata t key).2 = (s.getWithMetadata t key).2

theorem readsAlike_of_get? {t : Time} {s s' : KVStore}
    (h : ∀ key, ((s'.get? key).filter fun m => !expiredBefore m.expiresAt t) =
      (s.get? key).filter fun m => !expiredBefore m.expiresAt t) : ReadsAlike t s s' := by
  intro key
  rw [KVStore.get_snd, KVStore.get_snd, KVStore.getWithMetadata_snd, KVStore.getWithMetadata_snd, h]
  exact ⟨rfl, rfl⟩

/-- What had expired before a time has expired before a later one. -/
theorem filter_unexpired {t t' : Time} (h : t ≤ t') (m : Option KeyMetadata) :
    ((m.filter fun m => !expiredBefore m.expiresAt t).filter fun m =>
        !expiredBefore m.expiresAt t') = m.filter fun m => !expiredBefore m.expiresAt t' := by
  cases m with
  | none => rfl
  | some m =>
    cases ht : expiredBefore m.expiresAt t with
    | false => simp [Option.filter_some, ht]
    | true => simp [Option.filter_some, ht, expiredBefore_mono h ht]

/-- What a restored store holds: the records unexpired at both times. -/
theorem get?_loadData_unexpired (s : KVStore) (t1 t2 : Time) (key : String) :
    (KVStore.empty.loadData t2 (unexpiredItems (s.getAllData t1).2 t2)).get? key =
      (((s.get? key).filter fun m => !expiredBefore m.expiresAt t1).filter fun m =>
        !expiredBefore m.expiresAt t2) := by
  rw [KVStore.get?_loadData, unexpiredItems, get?_filter, KVStore.get?_getAllData]
  cases ((s.get? key).filter fun m => !expiredBefore m.expiresAt t1) with
  | none => rfl
  | some m =>
    cases h : expiredBefore m.expiresAt t2 with
    | false => simp [Option.filter_some, h]
    | true => simp [Option.filter_some, h]

/-- **A restart from a snapshot changes no answer**: for every store and all times
    `t1 ≤ t2 ≤ t`, what is restored at `t2` from the snapshot taken at `t1` reads at `t` like the
    store itself, before and after `get_all_data` purged it. -/
theorem snapshot_round_trip (s : KVStore) (timestamp : Time) {t1 t2 t : Time} (h1 : t1 ≤ t2)
    (h2 : t2 ≤ t) :
    ∃ s', restored s timestamp t1 t2 = .ok s' ∧ ReadsAlike t s s' ∧
      ReadsAlike t (s.getAllData t1).1 s' := by
  have hload := loadJson_snapshotJson timestamp t2 (s.getAllData t1).2
  refine ⟨KVStore.empty.loadData t2 (unexpiredItems (s.getAllData t1).2 t2), ?_, ?_, ?_⟩
  · rw [restored, hload]
    rfl
  · refine readsAlike_of_get? fun key => ?_
    rw [get?_loadData_unexpired, filter_unexpired h2, filter_unexpired (le_trans h1 h2)]
  · refine readsAlike_of_get? fun key => ?_
    rw [get?_loadData_unexpired, filter_unexpired h2]
    exact congrArg _ (KVStore.get?_cleanupExpired s t1 key).symm

/-- A store with a lasting and a passing key. -/
def twoKeys : KVStore :=
  (KVStore.empty.set 1 "a" (.int 1)).set 1 "b" (.str "x") { ttl := some 5 }

theorem snapshot_round_trip_sample :
    (2 : Time) ≤ 3 ∧ (3 : Time) ≤ 7 ∧
      ∃ s', restored twoKeys 2 2 3 = .ok s' ∧ ReadsAlike 7 twoKeys s' ∧
        ReadsAlike 7 (twoKeys.getAllData 2).1 s' :=
  ⟨by norm_num, by norm_num, snapshot_round_trip twoKeys 2 (by norm_num) (by norm_num)⟩

end MiniDb.SnapshotJson
