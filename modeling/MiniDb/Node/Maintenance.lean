/-
  The maintenance cycle (`node.py`, `_maintenance_loop`) interleaved with committed writes, and
  what a restart finds on disk.

  A run applies entries and performs the cycle one file operation at a time: capture of
  `get_all_data`, `snapshot.save`, then, when due, `aof.compact`. A crash is the end of a run
  at any state; only the directory survives it. An append waits for the log's lock, so no
  entry is applied while a compaction runs; at every other point of the cycle one may be.

  The argument is key by key. A key is settled when its last write has no TTL, and then the
  store holds `settledRecord` of the history. On disk, at every point between two operations,
  either the log is complete (`LogOk`: its last entry of a settled key gives that record) and
  the snapshot says nothing the log does not overwrite (`SnapOk`), or the log is between its
  two names and the snapshot is the captured state. The second case is where a write between
  the capture and the compaction is lost; `CaptureCurrent` says that there is none.

  An exception inside `save` or `compact` is not modelled (a file operation that fails ends
  the run).
-/
import MiniDb.Lib.Steps
import MiniDb.Node.Recovery

namespace MiniDb

open Lib

namespace Maintenance

/-! ## The transition system -/

/-- Where the maintenance thread is; `rest` are the file operations still to do. -/
inductive Phase where
  | idle
  | captured (data : Dict String KVStore.Item)
  | saving (data : Dict String KVStore.Item) (rest : List (FileOp Path Content))
  | compacting (data : Dict String KVStore.Item) (rest : List (FileOp Path Content))

structure State where
  store : KVStore
  aof : AofPersistence
  dir : DataDir
  phase : Phase
  /-- Every entry applied so far. -/
  history : List LogEntry

/-- An empty data directory, with the log opened. -/
def start : State :=
  { store := KVStore.empty, aof := {}, dir := openAof fun _ => none, phase := .idle, history := [] }

inductive Event where
  | apply (now : Time) (e : LogEntry)
  | cleanup (now : Time)
  | capture (now : Time)
  | save
  | fileOp
  | compact (now : Time)
  | finish

/-- `_apply_log_entry` -/
def applyLogEntry (now : Time) (s : State) (e : LogEntry) : State :=
  { s with
    store := applyToStore now s.store e
    dir := appendAof s.dir (aofEntryOf e)
    aof := { s.aof with entriesSinceCompact := s.aof.entriesSinceCompact + 1 }
    history := s.history ++ [e] }

def step (s : State) : Event → Option State
  | .apply now e =>
    match s.phase with
    | .compacting _ _ => none
    | _ => some (applyLogEntry now s e)
  | .cleanup now =>
    match s.phase with
    | .idle => some { s with store := s.store.cleanupExpired now }
    | _ => none
  | .capture now =>
    match s.phase with
    | .idle => some
        { s with
          store := (s.store.getAllData now).1
          phase := .captured (s.store.getAllData now).2 }
    | _ => none
  | .save =>
    match s.phase with
    | .captured data => some { s with phase := .saving data (saveOps data) }
    | _ => none
  | .fileOp =>
    match s.phase with
    | .saving data (op :: rest) =>
      (perform op s.dir).map fun d => { s with dir := d, phase := .saving data rest }
    | .compacting data (op :: rest) =>
      (perform op s.dir).map fun d => { s with dir := d, phase := .compacting data rest }
    | _ => none
  | .compact now =>
    match s.phase with
    | .saving data [] =>
      if s.aof.shouldCompact then some { s with phase := .compacting data (compactOps data now) }
      else none
    | _ => none
  | .finish =>
    match s.phase with
    | .saving _ [] => if s.aof.shouldCompact then none else some { s with phase := .idle }
    | .compacting _ [] => some
        { s with
          dir := openAof s.dir
          aof := { s.aof with entriesSinceCompact := 0 }
          phase := .idle }
    | _ => none

/-- What a step can do. -/
inductive Effect (s : State) : Event → State → Prop where
  | applied {now : Time} {e : LogEntry} (hp : ∀ data rest, s.phase ≠ .compacting data rest) :
      Effect s (.apply now e) (applyLogEntry now s e)
  | cleaned {now : Time} (hp : s.phase = .idle) :
      Effect s (.cleanup now) { s with store := s.store.cleanupExpired now }
  | captured {now : Time} (hp : s.phase = .idle) :
      Effect s (.capture now)
        { s with
          store := (s.store.getAllData now).1
          phase := .captured (s.store.getAllData now).2 }
  | saving {data : Dict String KVStore.Item} (hp : s.phase = .captured data) :
      Effect s .save { s with phase := .saving data (saveOps data) }
  | saveOp {data : Dict String KVStore.Item} {op : FileOp Path Content}
      {rest : List (FileOp Path Content)} {d : DataDir} (hp : s.phase = .saving data (op :: rest))
      (hd : perform op s.dir = some d) :
      Effect s .fileOp { s with dir := d, phase := .saving data rest }
  | compactOp {data : Dict String KVStore.Item} {op : FileOp Path Content}
      {rest : List (FileOp Path Content)} {d : DataDir}
      (hp : s.phase = .compacting data (op :: rest)) (hd : perform op s.dir = some d) :
      Effect s .fileOp { s with dir := d, phase := .compacting data rest }
  | compacting {now : Time} {data : Dict String KVStore.Item} (hp : s.phase = .saving data []) :
      Effect s (.compact now) { s with phase := .compacting data (compactOps data now) }
  | saved {data : Dict String KVStore.Item} (hp : s.phase = .saving data []) :
      Effect s .finish { s with phase := .idle }
  | compacted {data : Dict String KVStore.Item} (hp : s.phase = .compacting data []) :
      Effect s .finish
        { s with dir := openAof s.dir, aof := { s.aof with entriesSinceCompact := 0 }
                 phase := .idle }

theorem step_effect {s s' : State} {ev : Event} (h : step s ev = some s') : Effect s ev s' := by
  cases ev with
  | apply now e =>
    simp only [step] at h
    split at h
    · cases h
    · rename_i hp
      cases h
      exact .applied hp
  | cleanup now =>
    simp only [step] at h
    split at h
    · rename_i hp
      cases h
      exact .cleaned hp
    · cases h
  | capture now =>
    simp only [step] at h
    split at h
    · rename_i hp
      cases h
      exact .captured hp
    · cases h
  | save =>
    simp only [step] at h
    split at h
    · rename_i hp
      cases h
      exact .saving hp
    · cases h
  | fileOp =>
    simp only [step] at h
    split at h
    · rename_i hp
      obtain ⟨d, hd, rfl⟩ := Option.map_eq_some_iff.mp h
      exact .saveOp hp hd
    · rename_i hp
      obtain ⟨d, hd, rfl⟩ := Option.map_eq_some_iff.mp h
      exact .compactOp hp hd
    · cases h
  | compact now =>
    simp only [step] at h
    split at h
    · rename_i hp
      obtain ⟨-, h⟩ := Option.ite_none_right_eq_some.mp h
      cases h
      exact .compacting hp
    · cases h
  | finish =>
    simp only [step] at h
    split at h
    · rename_i hp
      obtain ⟨-, h⟩ := Option.ite_none_left_eq_some.mp h
      cases h
      exact .saved hp
    · rename_i hp
      cases h
      exact .compacted hp
    · cases h

/-! ## Settled keys -/

def TtlFree (e : LogEntry) : Prop := e.ttl = none ∧ e.expiresAt = none

/-- The last write of the key, if any, has no TTL. -/
def Settled (h : List LogEntry) (k : String) : Prop := ∀ e, lastWrite h k = some e → TtlFree e

/-- The record the last write of the key left. -/
def settledRecord (h : List LogEntry) (k : String) : Option KeyMetadata :=
  (lastWrite h k).bind writtenBy

theorem settled_append_ne {h : List LogEntry} {e : LogEntry} {k : String} (hk : e.key ≠ k) :
    Settled (h ++ [e]) k ↔ Settled h k := by
  unfold Settled
  rw [lastWrite_append, if_neg hk]

theorem settledRecord_append_ne {h : List LogEntry} {e : LogEntry} {k : String}
    (hk : e.key ≠ k) : settledRecord (h ++ [e]) k = settledRecord h k := by
  unfold settledRecord
  rw [lastWrite_append, if_neg hk]

theorem settledRecord_append_self (h : List LogEntry) (e : LogEntry) :
    settledRecord (h ++ [e]) e.key = writtenBy e := by
  unfold settledRecord
  rw [lastWrite_append, if_pos rfl, Option.bind_some]

/-- A settled record never expires. -/
theorem expiresAt_of_settled {h : List LogEntry} {k : String} (hs : Settled h k)
    {m : KeyMetadata} (hm : settledRecord h k = some m) : m.expiresAt = none := by
  obtain ⟨e, he, hw⟩ := Option.bind_eq_some_iff.mp hm
  rw [expiresAt_of_writtenBy hw]
  exact (hs e he).2

/-- Dropping expired records does not touch a settled one. -/
theorem filter_settled {h : List LogEntry} {k : String} (hs : Settled h k) (now : Time) :
    ((settledRecord h k).filter fun m => !expiredBefore m.expiresAt now) = settledRecord h k := by
  cases hm : settledRecord h k with
  | none => rfl
  | some m => simp [Option.filter_some, expiresAt_of_settled hs hm]

/-! ## What is on disk -/

def Silent (es : List AofEntry) (k : String) : Prop := (es.filter fun a => a.key = k) = []

/-- Replaying `es` ends with record `r` at `k`, whatever it starts from. -/
def Gives (es : List AofEntry) (k : String) (r : Option KeyMetadata) : Prop :=
  ∃ a, (es.filter fun a => a.key = k).getLast? = some a ∧ ∀ now b, replayEffect now a b = r

/-- The log has every settled key, or the key was never written or is deleted. -/
def LogOk (h : List LogEntry) (es : List AofEntry) : Prop :=
  ∀ k, Settled h k → Gives es k (settledRecord h k) ∨ (Silent es k ∧ settledRecord h k = none)

/-- The captured state has no settled key on which the log is silent. -/
def DataOk (h : List LogEntry) (es : List AofEntry) (data : Dict String KVStore.Item) : Prop :=
  ∀ k, Settled h k → Silent es k → data.get? k = none

/-- The snapshot file is missing, or readable and without a settled key on which the log is
    silent. -/
def SnapOk (h : List LogEntry) (es : List AofEntry) (f : Option (File Content)) : Prop :=
  f = none ∨ ∃ data, f = some (.closed (.snapshot data)) ∧ DataOk h es data

/-- The captured state is what the last writes of the settled keys left. -/
def Agrees (h : List LogEntry) (data : Dict String KVStore.Item) : Prop :=
  ∀ k, Settled h k → data.get? k = (settledRecord h k).map KVStore.itemOf

theorem replay_gives {es : List AofEntry} {k : String} {r : Option KeyMetadata}
    (hg : Gives es k r) (now : Time) (s : KVStore) : (replayLog now s es).get? k = r := by
  obtain ⟨a, ha, hr⟩ := hg
  obtain ⟨init, hinit⟩ := List.getLast?_eq_some_iff.mp ha
  rw [get?_replayLog, hinit, List.foldl_append, List.foldl_cons, List.foldl_nil, hr]

theorem replay_silent {es : List AofEntry} {k : String} (hs : Silent es k) (now : Time)
    (s : KVStore) : (replayLog now s es).get? k = s.get? k := by
  rw [get?_replayLog, hs, List.foldl_nil]

/-- A key on which both the log and the snapshot are silent is not recovered. -/
theorem recover_silent {es : List AofEntry} {d : DataDir} {k : String}
    (hlog : d .aof = some (.closed (.log es))) (hsil : Silent es k)
    (hsnap : d .snapshot = none ∨
      ∃ data, d .snapshot = some (.closed (.snapshot data)) ∧ data.get? k = none)
    (now : Time) : (recoverDir d now).get? k = none := by
  have hread : readAof d = es := by simp only [readAof, hlog]
  rw [recoverDir, openAof_of_log hlog, hread]
  unfold recoverData
  rw [replay_silent hsil]
  rcases hsnap with hmiss | ⟨data, hdata, hnone⟩
  · simp only [load, hmiss, KVStore.get?_empty]
  · simp only [load, hdata, readSnapshot, Option.map_some, get?_loaded, hnone]
    rfl

/-- Recovery from a complete log. -/
theorem recover_log {h : List LogEntry} {es : List AofEntry} {d : DataDir}
    (hlog : d .aof = some (.closed (.log es))) (hes : LogOk h es)
    (hsnap : SnapOk h es (d .snapshot)) (now : Time) {k : String} (hk : Settled h k) :
    (recoverDir d now).get? k = settledRecord h k := by
  rcases hes k hk with hg | ⟨hsil, hnone⟩
  · have hread : readAof d = es := by simp only [readAof, hlog]
    rw [recoverDir, openAof_of_log hlog, hread]
    exact replay_gives hg now _
  · rw [hnone]
    refine recover_silent hlog hsil ?_ now
    rcases hsnap with hmiss | ⟨data, hdata, hok⟩
    · exact .inl hmiss
    · exact .inr ⟨data, hdata, hok k hk hsil⟩

/-- Recovery from the captured state alone, while the log has no name. -/
theorem recover_snapshot {h : List LogEntry} {data : Dict String KVStore.Item} {d : DataDir}
    (hlog : d .aof = none) (hsnap : d .snapshot = some (.closed (.snapshot data)))
    (hdata : Agrees h data) (now : Time) {k : String} (hk : Settled h k) :
    (recoverDir d now).get? k = settledRecord h k := by
  have hload : load (openAof d) now =
      some (data.filter fun p => !expiredBefore p.2.expiresAt now) := by
    simp [openAof, hlog, load, hsnap, readSnapshot]
  have hread : readAof (openAof d) = [] := by simp [openAof, hlog, readAof]
  rw [recoverDir, hload, hread]
  simp only [recoverData, replayLog, List.foldl_nil, get?_loaded, hdata k hk]
  cases hm : settledRecord h k with
  | none => rfl
  | some m => simp [Option.filter_some, expiresAt_of_settled hk hm]

/-! ## A compacted log is complete -/

theorem logOk_compactEntries {h : List LogEntry} (hb : ∀ e ∈ h, LeaderBuilt e)
    {data : Dict String KVStore.Item} (hdata : Agrees h data) (now : Time) :
    LogOk h (compactEntries data now) := by
  intro k hk
  have hfilter := compactEntries_filter_key data now k
  rw [hdata k hk] at hfilter
  cases hm : settledRecord h k with
  | none =>
    right
    rw [hm] at hfilter
    exact ⟨hfilter, rfl⟩
  | some m =>
    left
    have hx := expiresAt_of_settled hk hm
    have hv : m.version ≠ 0 := by
      obtain ⟨e, he, hw⟩ := Option.bind_eq_some_iff.mp hm
      exact version_of_writtenBy (hb e (mem_of_lastWrite he).1) hw
    rw [hm] at hfilter
    refine ⟨compactEntry (k, KVStore.itemOf m), ?_, fun now' b => ?_⟩
    · rw [hfilter]
      simp [Option.filter_some, hx]
    · rw [replayEffect_compactEntry now' k hv, hx]
      simp

theorem dataOk_compactEntries {h : List LogEntry} {data : Dict String KVStore.Item}
    (hdata : Agrees h data) (now : Time) : DataOk h (compactEntries data now) data := by
  intro k hk hsil
  rw [Silent, compactEntries_filter_key, hdata k hk] at hsil
  rw [hdata k hk]
  cases hm : settledRecord h k with
  | none => rfl
  | some m =>
    rw [hm] at hsil
    simp [Option.filter_some, expiresAt_of_settled hk hm] at hsil

/-! ## Appending to the log -/

theorem silent_append {es : List AofEntry} {a : AofEntry} {k : String} :
    Silent (es ++ [a]) k ↔ Silent es k ∧ a.key ≠ k := by
  unfold Silent
  rw [List.filter_append, List.append_eq_nil_iff]
  by_cases h : a.key = k
  · simp [h]
  · simp [h]

theorem logOk_append {h : List LogEntry} {es : List AofEntry} {e : LogEntry}
    (hb : LeaderBuilt e) (hes : LogOk h es) : LogOk (h ++ [e]) (es ++ [aofEntryOf e]) := by
  intro k hk
  by_cases hek : e.key = k
  · left
    subst hek
    rw [settledRecord_append_self]
    have hfree : TtlFree e := hk e (by rw [lastWrite_append, if_pos rfl])
    refine ⟨aofEntryOf e, ?_, fun now b => ?_⟩
    · simp [List.filter_append]
    · rw [replayEffect_aofEntryOf hb, hfree.2]
      simp
  · have hne : ((es ++ [aofEntryOf e]).filter fun a => a.key = k) =
        es.filter fun a => a.key = k := by
      simp [List.filter_append, hek]
    rw [settled_append_ne hek] at hk
    rw [settledRecord_append_ne hek]
    simpa only [Gives, Silent, hne] using hes k hk

theorem dataOk_append {h : List LogEntry} {es : List AofEntry} {e : LogEntry}
    {data : Dict String KVStore.Item} (hd : DataOk h es data) :
    DataOk (h ++ [e]) (es ++ [aofEntryOf e]) data := by
  intro k hk hsil
  obtain ⟨hsil, hek⟩ := silent_append.mp hsil
  rw [aofEntryOf_key] at hek
  exact hd k ((settled_append_ne hek).mp hk) hsil

theorem snapOk_append {h : List LogEntry} {es : List AofEntry} {e : LogEntry}
    {f : Option (File Content)} (hf : SnapOk h es f) :
    SnapOk (h ++ [e]) (es ++ [aofEntryOf e]) f := by
  rcases hf with hf | ⟨data, hf, hd⟩
  · exact .inl hf
  · exact .inr ⟨data, hf, dataOk_append hd⟩

/-! ## The two programs -/

/-- During `save` the snapshot is the old one, missing, or the new one. -/
def SaveCrash (old : Option (File Content)) (data : Dict String KVStore.Item) (d : DataDir) :
    Prop :=
  d .snapshot = old ∨ d .snapshot = none ∨ d .snapshot = some (.closed (.snapshot data))

def Saved (data : Dict String KVStore.Item) (d : DataDir) : Prop :=
  d .snapshot = some (.closed (.snapshot data))

theorem crash_saveOps (d : DataDir) (data : Dict String KVStore.Item) :
    Crash (SaveCrash (d .snapshot) data) (Saved data) (saveOps data) d := by
  cases hsnap : d .snapshot with
  | none => simp [saveOps, Crash, perform, SaveCrash, Saved, hsnap]
  | some f =>
    cases hbak : d .snapshotBak with
    | none => simp [saveOps, Crash, perform, SaveCrash, Saved, hsnap, hbak]
    | some g => simp [saveOps, Crash, perform, SaveCrash, Saved, hsnap, hbak]

theorem saveOps_avoid (data : Dict String KVStore.Item) :
    ∀ op ∈ saveOps data, op.Avoids .aof := by
  simp [saveOps, FileOp.Avoids]

/-- During `compact` the snapshot is the captured state, and the log the old one, missing, or
    the compacted one. -/
def CompactCrash (es : List AofEntry) (data : Dict String KVStore.Item) (now : Time)
    (d : DataDir) : Prop :=
  d .snapshot = some (.closed (.snapshot data)) ∧
    (d .aof = some (.closed (.log es)) ∨ d .aof = none ∨
      d .aof = some (.closed (.log (compactEntries data now))))

def Compacted (data : Dict String KVStore.Item) (now : Time) (d : DataDir) : Prop :=
  d .snapshot = some (.closed (.snapshot data)) ∧
    d .aof = some (.closed (.log (compactEntries data now)))

theorem crash_compactOps {d : DataDir} {es : List AofEntry} {data : Dict String KVStore.Item}
    (hsnap : d .snapshot = some (.closed (.snapshot data)))
    (hlog : d .aof = some (.closed (.log es))) (now : Time) :
    Crash (CompactCrash es data now) (Compacted data now) (compactOps data now) d := by
  cases hbak : d .aofBak with
  | none => simp [compactOps, Crash, perform, CompactCrash, Compacted, hsnap, hlog, hbak]
  | some g => simp [compactOps, Crash, perform, CompactCrash, Compacted, hsnap, hlog, hbak]

end Maintenance

end MiniDb
