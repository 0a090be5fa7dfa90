/-
  Restarts in the middle of maintenance (`node.py`, `_maintenance_loop`, `_recover_data`), any
  number of them.

  `Node.CrashRecovery` says what a crash leaves. The next process goes on from there, and after a
  crash between the renames of `compact` its log starts empty: what was written before is in the
  snapshot alone. When a second crash then comes between the renames of `save`, nothing is left,
  since `load` does not look at the backup of a missing snapshot.

  `restarts_recover_iff`: the restarts of a run all find the last writes of the settled keys if and
  only if none comes while the snapshot is missing and the log lacks one of these keys; and with no
  restart in the one gap after a restart in the other, all of them do. A run with both loses a write
  (`second_crash_loses`). The invariant is that log and snapshot have every settled key between
  them, the log its last write if it has any.

  Compactions start from a current capture here (`CaptureCurrent`), and a crash comes between two
  operations: a line of the log is there or not.
-/
import MiniDb.Node.CrashRecovery

namespace MiniDb

open Lib

namespace Crashes

open Maintenance

/-! ## A node that is restarted -/

structure State where
  node : Maintenance.State
  /-- The log has been there at every restart since the last compaction; no step reads it. -/
  whole : Bool

inductive Event where
  | run (ev : Maintenance.Event)
  | restart (now : Time)

def start : State := ⟨Maintenance.start, true⟩

/-- A new process on the files that are there. -/
def restarted (now : Time) (s : Maintenance.State) : Maintenance.State :=
  { store := recoverDir s.dir now, aof := {}, dir := openAof s.dir, phase := .idle
    history := s.history }

/-- `compact` returns. -/
def endsCompact (s : Maintenance.State) : Maintenance.Event → Bool
  | .finish =>
    match s.phase with
    | .compacting _ _ => true
    | _ => false
  | _ => false

def step (s : State) : Event → Option State
  | .run ev => (Maintenance.step s.node ev).map fun n => ⟨n, s.whole || endsCompact s.node ev⟩
  | .restart now => some ⟨restarted now s.node, s.whole && (s.node.dir .aof).isSome⟩

/-! ## What is on disk -/

/-- The log has every settled key that has a record. -/
def InLog (h : List LogEntry) (es : List AofEntry) : Prop :=
  ∀ k, Settled h k → Silent es k → settledRecord h k = none

/-- The data has the settled keys on which the log is silent. -/
def DataHas (h : List LogEntry) (es : List AofEntry) (data : Dict String KVStore.Item) : Prop :=
  ∀ k, Settled h k → Silent es k → data.get? k = (settledRecord h k).map KVStore.itemOf

/-- The snapshot has what the log lacks. -/
def SnapHas (h : List LogEntry) (es : List AofEntry) (f : Option (File Content)) : Prop :=
  f = none ∧ InLog h es ∨ ∃ data, f = some (.closed (.snapshot data)) ∧ DataHas h es data

structure LogHas (whole : Bool) (h : List LogEntry) (es : List AofEntry) : Prop where
  /-- The last entry of a settled key is its last write. -/
  last : ∀ k, Settled h k → Gives es k (settledRecord h k) ∨ Silent es k
  whole : whole = true → InLog h es

/-- The files, at every operation of a cycle that is still to come. -/
def DiskHas (whole : Bool) (h : List LogEntry) (d : DataDir) : Phase → Prop
  | .idle =>
    ∃ es, d .aof = some (.closed (.log es)) ∧ LogHas whole h es ∧ SnapHas h es (d .snapshot)
  | .captured data =>
    ∃ es, d .aof = some (.closed (.log es)) ∧ LogHas whole h es ∧ SnapHas h es (d .snapshot) ∧
      DataHas h es data
  | .saving data rest =>
    ∃ es old, d .aof = some (.closed (.log es)) ∧ LogHas whole h es ∧ SnapHas h es old ∧
      DataHas h es data ∧ (∀ op ∈ rest, op.Avoids .aof) ∧
      Crash (SaveCrash old data) (Saved data) rest d
  | .compacting data rest =>
    Agrees h data ∧ ∃ es now, LogHas whole h es ∧
      Crash (CompactCrash es data now) (Compacted data now) rest d

structure Inv (s : State) : Prop where
  built : ∀ e ∈ s.node.history, LeaderBuilt e
  store : StoreOk s.node.history s.node.store
  disk : DiskHas s.whole s.node.history s.node.dir s.node.phase

/-! ## Restarts -/

/-- A restart finds the last write of every settled key. -/
def Recovers (s : State) : Event → State → Prop
  | .restart _, s' => ∀ k, Settled s.node.history k →
      s'.node.store.get? k = settledRecord s.node.history k
  | .run _, _ => True

/-- No restart without a snapshot, unless the log has all keys. -/
def Safe (s : State) : Event → Prop
  | .restart _ => s.node.dir .snapshot ≠ none ∨ InLog s.node.history (readAof s.node.dir)
  | .run _ => True

/-- No restart between the renames of `save`, after one between those of `compact`. -/
def OneGap (s : State) : Event → Prop
  | .restart _ => s.node.dir .snapshot ≠ none ∨ s.whole = true
  | .run _ => True

/-- Entries are as the leader builds them, and a compaction starts from a current capture. -/
def Current (s : State) : Event → Prop
  | .run ev => Built ev ∧ CaptureCurrent s.node ev
  | .restart _ => True

section

variable {h : List LogEntry} {es : List AofEntry} {d : DataDir} {whole : Bool}

theorem readAof_openAof (d : DataDir) : readAof (openAof d) = readAof d := by
  cases hlog : d .aof with
  | none => simp [openAof, readAof, hlog]
  | some f => rw [openAof_of_log hlog]

theorem openAof_snapshot (d : DataDir) : openAof d .snapshot = d .snapshot := by
  cases hlog : d .aof with
  | none => simp [openAof, hlog]
  | some f => rw [openAof_of_log hlog]

theorem openAof_openAof (d : DataDir) : openAof (openAof d) = openAof d := by
  cases hlog : d .aof with
  | none => exact openAof_of_log (f := .closed (.log [])) (by simp [openAof, hlog])
  | some f => rw [openAof_of_log hlog, openAof_of_log hlog]

/-- The settled keys, from the log and the snapshot. -/
theorem recover_files (hlog : d .aof = some (.closed (.log es))) (hes : LogHas whole h es)
    (hsnap : SnapHas h es (d .snapshot)) (now : Time) {k : String} (hk : Settled h k) :
    (recoverDir d now).get? k = settledRecord h k := by
  have hread : readAof d = es := by simp only [readAof, hlog]
  rcases hes.last k hk with hgives | hsilent
  · rw [recoverDir, openAof_of_log hlog, hread]
    exact replay_gives hgives now _
  · rcases hsnap with ⟨hnone, hall⟩ | ⟨data, hdata, hhas⟩
    · rw [hall k hk hsilent]
      exact recover_silent hlog hsilent (.inl hnone) now
    · rw [recoverDir, openAof_of_log hlog, hread]
      unfold recoverData
      rw [replay_silent hsilent]
      simp only [load, hdata, readSnapshot, Option.map_some, get?_loaded, hhas k hk hsilent]
      cases hm : settledRecord h k with
      | none => rfl
      | some m => simp [Option.filter_some, expiresAt_of_settled hk hm]

/-- Without a snapshot there is the log alone. -/
theorem recover_missing (hnone : d .snapshot = none) (now : Time) {k : String}
    (hsilent : Silent (readAof d) k) : (recoverDir d now).get? k = none := by
  have hload : load (openAof d) now = none := by
    simp only [load, openAof_snapshot, hnone]
  rw [recoverDir, hload, readAof_openAof]
  exact (replay_silent hsilent now _).trans (KVStore.get?_empty k)

theorem dataHas_of_agrees {data : Dict String KVStore.Item} (hag : Agrees h data)
    (es : List AofEntry) : DataHas h es data := fun k hk _ => hag k hk

/-- What a crash in `save` leaves. -/
theorem snapHas_of_saveCrash {old : Option (File Content)} {data : Dict String KVStore.Item}
    (hold : SnapHas h es old) (hdata : DataHas h es data) (hd : SaveCrash old data d)
    (hsafe : d .snapshot ≠ none ∨ InLog h es) : SnapHas h es (d .snapshot) := by
  rcases hd with hd | hd | hd
  · rw [hd]
    exact hold
  · exact .inl ⟨hd, hsafe.resolve_left (not_not.mpr hd)⟩
  · exact .inr ⟨data, hd, hdata⟩

theorem logHas_compactEntries (hb : ∀ e ∈ h, LeaderBuilt e) {data : Dict String KVStore.Item}
    (hag : Agrees h data) (now : Time) (whole : Bool) :
    LogHas whole h (compactEntries data now) where
  last := fun k hk => (logOk_compactEntries hb hag now k hk).imp_right And.left
  whole := fun _ k hk hsilent => by
    rcases logOk_compactEntries hb hag now k hk with ⟨a, ha, -⟩ | ⟨-, hnone⟩
    · rw [hsilent] at ha
      cases ha
    · exact hnone

/-- The files that the next process opens. -/
theorem disk_restart {s : State} {now : Time} (hs : Inv s) (hsafe : Safe s (.restart now)) :
    DiskHas (s.whole && (s.node.dir .aof).isSome) s.node.history (openAof s.node.dir) .idle := by
  have hdisk := hs.disk
  have hopen : ∀ es, s.node.dir .aof = some (.closed (.log es)) → LogHas s.whole s.node.history es →
      SnapHas s.node.history es (s.node.dir .snapshot) →
      DiskHas (s.whole && (s.node.dir .aof).isSome) s.node.history (openAof s.node.dir) .idle := by
    intro es hlog hes hsnap
    rw [openAof_of_log hlog, hlog]
    exact ⟨es, hlog, ⟨hes.last, fun hwhole => hes.whole (by simpa using hwhole)⟩, hsnap⟩
  cases hp : s.node.phase with
  | idle =>
    rw [hp] at hdisk
    obtain ⟨es, hlog, hes, hsnap⟩ := hdisk
    exact hopen es hlog hes hsnap
  | captured data =>
    rw [hp] at hdisk
    obtain ⟨es, hlog, hes, hsnap, -⟩ := hdisk
    exact hopen es hlog hes hsnap
  | saving data rest =>
    rw [hp] at hdisk
    obtain ⟨es, old, hlog, hes, hold, hdata, -, hcrash⟩ := hdisk
    have hread : readAof s.node.dir = es := by simp only [readAof, hlog]
    refine hopen es hlog hes (snapHas_of_saveCrash hold hdata hcrash.now ?_)
    exact hread ▸ hsafe
  | compacting data rest =>
    rw [hp] at hdisk
    obtain ⟨hag, es, now', hes, hcrash⟩ := hdisk
    obtain ⟨hsnap, hlog | hlog | hlog⟩ := hcrash.now
    · exact hopen es hlog hes (.inr ⟨data, hsnap, dataHas_of_agrees hag es⟩)
    · -- the log starts again, and the snapshot has everything
      refine ⟨[], by simp [openAof, hlog], ⟨fun k _ => .inr rfl, fun hwhole => ?_⟩, .inr ⟨data, ?_,
        dataHas_of_agrees hag []⟩⟩
      · simp [hlog] at hwhole
      · rw [openAof_snapshot]
        exact hsnap
    · exact hopen _ hlog (logHas_compactEntries hs.built hag now' s.whole)
        (.inr ⟨data, hsnap, dataHas_of_agrees hag _⟩)

/-- **One restart**: exactly when it finds the last writes. -/
theorem restart_iff {s : State} (hs : Inv s) (now : Time) :
    Recovers s (.restart now) ⟨restarted now s.node, s.whole && (s.node.dir .aof).isSome⟩ ↔
      Safe s (.restart now) := by
  constructor
  · intro hfound
    by_cases hnone : s.node.dir .snapshot = none
    · refine .inr fun k hk hsilent => ?_
      rw [← hfound k hk]
      exact recover_missing hnone now hsilent
    · exact .inl hnone
  · intro hsafe k hk
    obtain ⟨es, hlog, hes, hsnap⟩ := disk_restart hs hsafe
    have hrecover := recover_files hlog hes hsnap now hk
    rw [recoverDir, openAof_openAof] at hrecover
    exact hrecover

/-! ## Steps of the node -/

theorem inLog_append {e : LogEntry} (hall : InLog h es) :
    InLog (h ++ [e]) (es ++ [aofEntryOf e]) := by
  intro k hk hsilent
  obtain ⟨hsilent, hek⟩ := silent_append.mp hsilent
  rw [aofEntryOf_key] at hek
  rw [settledRecord_append_ne hek]
  exact hall k ((settled_append_ne hek).mp hk) hsilent

theorem dataHas_append {e : LogEntry} {data : Dict String KVStore.Item} (hd : DataHas h es data) :
    DataHas (h ++ [e]) (es ++ [aofEntryOf e]) data := by
  intro k hk hsilent
  obtain ⟨hsilent, hek⟩ := silent_append.mp hsilent
  rw [aofEntryOf_key] at hek
  rw [settledRecord_append_ne hek]
  exact hd k ((settled_append_ne hek).mp hk) hsilent

theorem snapHas_append {e : LogEntry} {f : Option (File Content)} (hf : SnapHas h es f) :
    SnapHas (h ++ [e]) (es ++ [aofEntryOf e]) f := by
  rcases hf with ⟨hnone, hall⟩ | ⟨data, hdata, hhas⟩
  · exact .inl ⟨hnone, inLog_append hall⟩
  · exact .inr ⟨data, hdata, dataHas_append hhas⟩

theorem logHas_append {e : LogEntry} (hb : LeaderBuilt e) (hes : LogHas whole h es) :
    LogHas whole (h ++ [e]) (es ++ [aofEntryOf e]) := by
  refine ⟨fun k hk => ?_, fun hwhole => inLog_append (hes.whole hwhole)⟩
  by_cases hek : e.key = k
  · left
    subst hek
    rw [settledRecord_append_self]
    have hfree : TtlFree e := hk e (by rw [lastWrite_append, if_pos rfl])
    refine ⟨aofEntryOf e, ?_, fun now b => ?_⟩
    · simp [List.filter_append]
    · rw [replayEffect_aofEntryOf hb, hfree.2]
      simp
  · have hne : ((es ++ [aofEntryOf e]).filter fun a => a.key = k) =
        es.filter fun a => a.key = k := by
      simp [List.filter_append, hek]
    rw [settled_append_ne hek] at hk
    rw [settledRecord_append_ne hek]
    simpa only [Gives, Silent, hne] using hes.last k hk

theorem diskHas_apply {p : Phase} {e : LogEntry} (hb : LeaderBuilt e) (hd : DiskHas whole h d p)
    (hp : ∀ data rest, p ≠ .compacting data rest) :
    DiskHas whole (h ++ [e]) (appendAof d (aofEntryOf e)) p := by
  cases p with
  | idle =>
    obtain ⟨es, hlog, hes, hsnap⟩ := hd
    refine ⟨_, appendAof_aof hlog _, logHas_append hb hes, ?_⟩
    rw [appendAof_snapshot hlog]
    exact snapHas_append hsnap
  | captured data =>
    obtain ⟨es, hlog, hes, hsnap, hdata⟩ := hd
    refine ⟨_, appendAof_aof hlog _, logHas_append hb hes, ?_, dataHas_append hdata⟩
    rw [appendAof_snapshot hlog]
    exact snapHas_append hsnap
  | saving data rest =>
    obtain ⟨es, old, hlog, hes, hold, hdata, hav, hcrash⟩ := hd
    refine ⟨_, old, appendAof_aof hlog _, logHas_append hb hes, snapHas_append hold,
      dataHas_append hdata, hav, ?_⟩
    have hne : Path.snapshot ≠ Path.aof := by decide
    rw [appendAof_of_log hlog]
    refine crash_update (fun d f hd => ?_) (fun d f hd => ?_) hav _ hcrash
    · simpa only [SaveCrash, Function.update_of_ne hne] using hd
    · simpa only [Saved, Function.update_of_ne hne] using hd
  | compacting data rest => exact absurd rfl (hp data rest)

/-- What `get_all_data` captures has the settled keys. -/
theorem dataHas_getAllData {s : KVStore} (hs : StoreOk h s) (es : List AofEntry) (now : Time) :
    DataHas h es (s.getAllData now).2 := by
  intro k hk _
  rw [KVStore.get?_getAllData, hs k hk, filter_settled hk]

theorem inv_run {s : State} {n : Maintenance.State} {ev : Maintenance.Event} (hs : Inv s)
    (hcur : Current s (.run ev)) (hstep : Maintenance.step s.node ev = some n) :
    Inv ⟨n, s.whole || endsCompact s.node ev⟩ := by
  obtain ⟨hbuilt, hstore, hdisk⟩ := hs
  obtain ⟨hb, hcapture⟩ := hcur
  cases step_effect hstep with
  | @applied now e hp =>
    refine ⟨?_, storeOk_apply hb hstore now, ?_⟩
    · intro e' he'
      rcases List.mem_append.mp he' with he' | he'
      · exact hbuilt e' he'
      · rw [List.mem_singleton.mp he']
        exact hb
    · simp only [endsCompact, Bool.or_false]
      exact diskHas_apply hb hdisk hp
  | @cleaned now hp =>
    simp only [endsCompact, Bool.or_false]
    exact ⟨hbuilt, storeOk_cleanup hstore now, hdisk⟩
  | @captured now hp =>
    rw [hp] at hdisk
    obtain ⟨es, hlog, hes, hsnap⟩ := hdisk
    simp only [endsCompact, Bool.or_false]
    exact ⟨hbuilt, storeOk_cleanup hstore now,
      ⟨es, hlog, hes, hsnap, dataHas_getAllData hstore es now⟩⟩
  | @saving data hp =>
    rw [hp] at hdisk
    obtain ⟨es, hlog, hes, hsnap, hdata⟩ := hdisk
    simp only [endsCompact, Bool.or_false]
    exact ⟨hbuilt, hstore, ⟨es, s.node.dir .snapshot, hlog, hes, hsnap, hdata, saveOps_avoid data,
      crash_saveOps s.node.dir data⟩⟩
  | @saveOp data op rest d hp hd =>
    rw [hp] at hdisk
    obtain ⟨es, old, hlog, hes, hold, hdata, hav, hcrash⟩ := hdisk
    have hlog' := (perform_avoids (hav op List.mem_cons_self) hd).trans hlog
    simp only [endsCompact, Bool.or_false]
    exact ⟨hbuilt, hstore, ⟨es, old, hlog', hes, hold, hdata,
      fun o ho => hav o (List.mem_cons_of_mem op ho), hcrash.step hd⟩⟩
  | @compactOp data op rest d hp hd =>
    rw [hp] at hdisk
    obtain ⟨hag, es, now, hes, hcrash⟩ := hdisk
    simp only [endsCompact, Bool.or_false]
    exact ⟨hbuilt, hstore, ⟨hag, es, now, hes, hcrash.step hd⟩⟩
  | @compacting now data hp =>
    rw [hp] at hdisk
    obtain ⟨es, old, hlog, hes, -, hdata, -, hcrash⟩ := hdisk
    simp only [endsCompact, Bool.or_false]
    exact ⟨hbuilt, hstore,
      ⟨hcapture data [] hp, es, now, hes, crash_compactOps hcrash.2 hlog now⟩⟩
  | @saved data hp =>
    rw [hp] at hdisk
    obtain ⟨es, old, hlog, hes, -, hdata, -, hcrash⟩ := hdisk
    simp only [endsCompact, hp, Bool.or_false]
    exact ⟨hbuilt, hstore, ⟨es, hlog, hes, .inr ⟨data, hcrash.2, hdata⟩⟩⟩
  | @compacted data hp =>
    rw [hp] at hdisk
    obtain ⟨hag, es, now, -, hcrash⟩ := hdisk
    obtain ⟨hsnap, hlog⟩ := hcrash.2
    have hopen : openAof s.node.dir = s.node.dir := openAof_of_log hlog
    refine ⟨hbuilt, hstore, compactEntries data now, ?_, logHas_compactEntries hbuilt hag now _, ?_⟩
    · exact (congrFun hopen .aof).trans hlog
    · exact .inr ⟨data, (congrFun hopen .snapshot).trans hsnap, dataHas_of_agrees hag _⟩

theorem inv_start : Inv start := by
  refine ⟨Maintenance.inv_start.built, Maintenance.inv_start.store, [], ?_, ?_, .inl ⟨?_, ?_⟩⟩
  · simp [start, Maintenance.start, openAof]
  · exact ⟨fun k _ => .inr rfl, fun _ k _ _ => rfl⟩
  · simp [start, Maintenance.start, openAof]
  · exact fun k _ _ => rfl

/-! ## Runs -/

theorem inv_step {s s' : State} {ev : Event} (hs : Inv s) (hcur : Current s ev)
    (hstep : step s ev = some s') (hfound : Recovers s ev s') : Inv s' := by
  cases ev with
  | run ev =>
    obtain ⟨n, hn, rfl⟩ := Option.map_eq_some_iff.mp hstep
    exact inv_run hs hcur hn
  | restart now =>
    obtain rfl := Option.some.inj hstep
    exact ⟨hs.built, hfound, disk_restart hs ((restart_iff hs now).mp hfound)⟩

theorem recovers_step_iff {s s' : State} {ev : Event} (hs : Inv s)
    (hstep : step s ev = some s') : Recovers s ev s' ↔ Safe s ev := by
  cases ev with
  | run ev => exact Iff.rfl
  | restart now =>
    obtain rfl := Option.some.inj hstep
    exact restart_iff hs now

/-- A log that has been there since the last compaction has every key. -/
theorem safe_of_oneGap {s : State} {ev : Event} (hs : Inv s) (hgap : OneGap s ev) : Safe s ev := by
  cases ev with
  | run ev => trivial
  | restart now =>
    have hdisk := hs.disk
    have hall : ∀ es, s.node.dir .aof = some (.closed (.log es)) →
        LogHas s.whole s.node.history es → Safe s (.restart now) := by
      intro es hlog hes
      have hread : readAof s.node.dir = es := by simp only [readAof, hlog]
      exact hgap.imp_right fun hwhole => hread ▸ hes.whole hwhole
    cases hp : s.node.phase with
    | idle =>
      rw [hp] at hdisk
      obtain ⟨es, hlog, hes, -⟩ := hdisk
      exact hall es hlog hes
    | captured data =>
      rw [hp] at hdisk
      obtain ⟨es, hlog, hes, -⟩ := hdisk
      exact hall es hlog hes
    | saving data rest =>
      rw [hp] at hdisk
      obtain ⟨es, old, hlog, hes, -⟩ := hdisk
      exact hall es hlog hes
    | compacting data rest =>
      rw [hp] at hdisk
      obtain ⟨-, es, now', -, hcrash⟩ := hdisk
      refine .inl ?_
      rw [hcrash.now.1]
      exact Option.some_ne_none _

theorem safe_along {s : State} {evs : List Event} (hs : Inv s) (hgap : Along step OneGap s evs)
    (hcur : Along step Current s evs) : Along step Safe s evs := by
  have hsafe : ∀ s ev, Inv s → OneGap s ev ∧ Current s ev → Safe s ev :=
    fun s ev hs hP => safe_of_oneGap hs hP.1
  have hkeep : ∀ s ev s', Inv s → OneGap s ev ∧ Current s ev → step s ev = some s' → Inv s' :=
    fun s ev s' hs hP hstep =>
      inv_step hs hP.2 hstep ((recovers_step_iff hs hstep).mpr (hsafe s ev hs hP))
  exact along_inv hkeep hsafe hs (hgap.and hcur)

/-- **Restarts at any moments**: from an empty data directory, where each compaction starts from a
    current capture, all restarts of a run find the last write of every key whose last write has no
    TTL if and only if none comes while the snapshot is missing and the log lacks such a key. None
    does if none comes between the renames of `save` after one between those of `compact`. -/
theorem restarts_recover_iff {evs : List Event} {t : State} (hrun : exec step start evs = some t)
    (hcur : Along step Current start evs) :
    (Each step Recovers start evs ↔ Along step Safe start evs) ∧
      (Along step OneGap start evs → Each step Recovers start evs) := by
  have hiff : Each step Recovers start evs ↔ Along step Safe start evs :=
    each_step_iff_along (fun s ev s' hs hQ hstep hfound => inv_step hs hQ hstep hfound)
      (fun s ev s' hs _ hstep => recovers_step_iff hs hstep) inv_start hcur hrun
  exact ⟨hiff, fun hgap => hiff.mpr (safe_along inv_start hgap hcur)⟩

end

/-! ### Two crashes -/

/-- A run without restarts. -/
theorem exec_run {s n : Maintenance.State} {evs : List Maintenance.Event}
    (h : exec Maintenance.step s evs = some n) (whole : Bool) :
    ∃ whole', exec step ⟨s, whole⟩ (evs.map .run) = some ⟨n, whole'⟩ := by
  induction evs generalizing s whole with
  | nil => exact ⟨whole, by rw [Option.some.inj h]; rfl⟩
  | cons ev evs ih =>
    obtain ⟨s₁, h₁, h₂⟩ := exec_cons.mp h
    obtain ⟨whole', hw⟩ := ih h₂ (whole || endsCompact s ev)
    exact ⟨whole', exec_cons.mpr ⟨_, by simp only [step, h₁, Option.map_some], hw⟩⟩

/-- Its conditions are those of `Node.CrashRecovery`. -/
theorem current_run {s : Maintenance.State} {evs : List Maintenance.Event}
    (hbuilt : ∀ ev ∈ evs, Built ev) (h : Along Maintenance.step CaptureCurrent s evs)
    (whole : Bool) : Along step Current ⟨s, whole⟩ (evs.map .run) := by
  induction evs generalizing s whole with
  | nil => trivial
  | cons ev evs ih =>
    refine ⟨⟨hbuilt ev List.mem_cons_self, h.1⟩, fun s' hs => ?_⟩
    obtain ⟨n, hn, rfl⟩ := Option.map_eq_some_iff.mp hs
    exact ih (fun ev' hev => hbuilt ev' (List.mem_cons_of_mem ev hev)) (h.2 n hn) _

/-- The cycle of `keptRun` up to the first of the renames of `compact`. -/
def firstRename : List Maintenance.Event := keptSave ++ keptCompact.take 5

/-- A crash between the renames of `compact`, a write, and another crash. -/
def oneGapRun : List Event :=
  (dueRun ++ firstRename).map .run ++
    [.restart 5, .run (.apply 6 (sampleSet "c" 6)), .restart 7]

theorem keptRun_eq : keptRun = (dueRun ++ firstRename) ++ keptCompact.drop 5 := by
  simp only [keptRun, firstRename, List.append_assoc, List.take_append_drop]

/-- Both crashes find a snapshot. -/
theorem exec_oneGapRun :
    ∃ v, exec step start ((dueRun ++ firstRename).map .run) = some v ∧
      (∃ f, v.node.dir .snapshot = some f) ∧
      ∃ w, exec step v [.restart 5, .run (.apply 6 (sampleSet "c" 6))] = some w ∧
        (∃ f, w.node.dir .snapshot = some f) ∧ ∃ t, exec step w [.restart 7] = some t := by
  obtain ⟨s, hrun, hp, hn, ht, hd, -⟩ := exec_applies (sampleSet "a" 1) 10000
  obtain ⟨whole, hwhole⟩ := exec_run hrun true
  obtain ⟨store, ⟨count, threshold⟩, dir, phase, history⟩ := s
  simp only at hp hn ht hd
  subst hp hn ht hd
  rw [List.map_append]
  exact ⟨_, exec_append.mpr ⟨_, hwhole, rfl⟩, ⟨_, rfl⟩, _, rfl, ⟨_, rfl⟩, _, rfl⟩

/-- The restarts of a run with a compaction, where both find the last writes. -/
theorem restarts_recover_iff_sample :
    ∃ t, exec step start oneGapRun = some t ∧
      (Each step Recovers start oneGapRun ↔ Along step Safe start oneGapRun) ∧
        Each step Recovers start oneGapRun := by
  obtain ⟨v, hv, ⟨f, hf⟩, w, hw, ⟨f', hf'⟩, t, ht⟩ := exec_oneGapRun
  have hlater : exec step v ([.restart 5, .run (.apply 6 (sampleSet "c" 6))] ++ [.restart 7]) =
      some t := exec_append.mpr ⟨w, hw, ht⟩
  have hrun : exec step start oneGapRun = some t := exec_append.mpr ⟨v, hv, hlater⟩
  have hcycle : Along step Current start ((dueRun ++ firstRename).map .run) := by
    refine current_run (fun ev hev => built_keptRun ev ?_) ?_ true
    · rw [keptRun_eq]
      exact List.mem_append_left _ hev
    · exact Along.of_append (keptRun_eq ▸ captureCurrent_keptRun)
  have hcur : Along step Current start oneGapRun := by
    refine (along_append hv).mpr ⟨hcycle, trivial, fun v' _ => ?_⟩
    exact ⟨⟨leaderBuilt_sampleSet "c" 6, trivial⟩, fun w' _ => ⟨trivial, fun _ _ => trivial⟩⟩
  have hgaps : Along step OneGap v
      ([.restart 5, .run (.apply 6 (sampleSet "c" 6))] ++ [.restart 7]) := by
    refine (along_append hw).mpr ⟨⟨.inl (by simp [hf]), fun v' _ => ⟨trivial, ?_⟩⟩,
      .inl (by simp [hf']), fun _ _ => trivial⟩
    exact fun _ _ => trivial
  have hgap : Along step OneGap start oneGapRun := by
    refine (along_append hv).mpr ⟨along_of_forall (fun _ ev hev => ?_) _, hgaps⟩
    obtain ⟨ev', -, rfl⟩ := List.mem_map.mp hev
    trivial
  have hboth := restarts_recover_iff hrun hcur
  exact ⟨t, hrun, hboth.1, hboth.2 hgap⟩

/-- From a log that is due to be compacted: a write, a crash between the renames of `compact`, and
    one between those of the next `save`. -/
def twoGaps : List Event :=
  [ .run (.apply 1 (sampleSet "b" 1)), .run (.capture 2), .run .save,
    .run .fileOp, .run .fileOp, .run .fileOp, .run .fileOp, .run .fileOp, .run .fileOp,
    .run .fileOp, .run (.compact 3), .run .fileOp, .run .fileOp, .run .fileOp, .run .fileOp,
    .restart 4, .run (.capture 5), .run .save, .run .fileOp, .run .fileOp, .run .fileOp,
    .run .fileOp, .restart 6 ]

/-- The second crash leaves nothing of the write. -/
theorem second_crash_loses :
    ∃ t, exec step start
        (dueRun.map .run ++ twoGaps) = some t ∧
      lastWrite t.node.history "b" = some (sampleSet "b" 1) ∧ TtlFree (sampleSet "b" 1) ∧
      t.node.store.get? "b" = none := by
  obtain ⟨s, hrun, hp, hn, ht, hd, -⟩ := exec_applies (sampleSet "a" 1) 10000
  obtain ⟨whole, hwhole⟩ := exec_run hrun true
  obtain ⟨store, ⟨count, threshold⟩, dir, phase, history⟩ := s
  simp only at hp hn ht hd
  subst hp hn ht hd
  refine ⟨_, exec_append.mpr ⟨_, hwhole, rfl⟩, ?_, ttlFree_sampleSet "b" 1, ?_⟩
  · exact (lastWrite_append history (sampleSet "b" 1) "b").trans (if_pos rfl)
  · exact recover_missing rfl 6 rfl

end Crashes

end MiniDb
