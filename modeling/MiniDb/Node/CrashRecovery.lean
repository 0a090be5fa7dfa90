/-
  What survives a crash, in every run of the maintenance system.

  `inv_step` is the invariant: the store and the disk both hold the last write of every settled
  key, whatever file operation comes next, provided that a compaction starts from a capture
  that is still current (`CaptureCurrent`). Two results follow.

  * With no write inside a cycle the capture is always current, and recovery rebuilds the store
    exactly (`recovery_exact`).
  * With writes anywhere, every TTL-free write that is the last to its key survives, as long as
    each compaction finds its capture current (`writes_survive`). Without that a write is lost:
    `compact` rewrites the log from the captured state, and the lines appended since the
    capture are in neither file (`stale_capture_loses_write`).
-/
import MiniDb.Node.Maintenance

namespace MiniDb

open Lib

namespace Maintenance

/-! ## The invariant -/

/-- The store holds the last write of every settled key. -/
def StoreOk (h : List LogEntry) (s : KVStore) : Prop :=
  ∀ k, Settled h k → s.get? k = settledRecord h k

/-- The log and the snapshot together hold the last write of every settled key, and do so
    after every file operation still to come. -/
def DiskOk (h : List LogEntry) (d : DataDir) : Phase → Prop
  | .idle => ∃ es, d .aof = some (.closed (.log es)) ∧ LogOk h es ∧ SnapOk h es (d .snapshot)
  | .captured data =>
    ∃ es, d .aof = some (.closed (.log es)) ∧ LogOk h es ∧ SnapOk h es (d .snapshot) ∧
      DataOk h es data
  | .saving data rest =>
    ∃ es old, d .aof = some (.closed (.log es)) ∧ LogOk h es ∧ SnapOk h es old ∧
      DataOk h es data ∧ (∀ op ∈ rest, op.Avoids .aof) ∧
      Crash (SaveCrash old data) (Saved data) rest d
  | .compacting data rest =>
    Agrees h data ∧ ∃ es now, LogOk h es ∧ DataOk h es data ∧
      Crash (CompactCrash es data now) (Compacted data now) rest d

structure Inv (s : State) : Prop where
  built : ∀ e ∈ s.history, LeaderBuilt e
  store : StoreOk s.history s.store
  disk : DiskOk s.history s.dir s.phase

/-- A compaction starts from a capture that is still what the settled keys hold. -/
def CaptureCurrent (s : State) : Event → Prop
  | .compact _ => ∀ data rest, s.phase = .saving data rest → Agrees s.history data
  | _ => True

/-- Entries are as the leader builds them. -/
def Built : Event → Prop
  | .apply _ e => LeaderBuilt e
  | _ => True

theorem snapOk_of_saveCrash {h : List LogEntry} {es : List AofEntry}
    {old : Option (File Content)} {data : Dict String KVStore.Item} {d : DataDir}
    (hold : SnapOk h es old) (hdata : DataOk h es data) (hd : SaveCrash old data d) :
    SnapOk h es (d .snapshot) := by
  rcases hd with hd | hd | hd
  · rw [hd]
    exact hold
  · exact .inl hd
  · exact .inr ⟨data, hd, hdata⟩

/-- Wherever the crash comes, recovery finds the last write of every settled key. -/
theorem recover_inv {s : State} (hs : Inv s) (now : Time) {k : String}
    (hk : Settled s.history k) : (recoverDir s.dir now).get? k = settledRecord s.history k := by
  have hdisk := hs.disk
  cases hp : s.phase with
  | idle =>
    rw [hp] at hdisk
    obtain ⟨es, hlog, hes, hsnap⟩ := hdisk
    exact recover_log hlog hes hsnap now hk
  | captured data =>
    rw [hp] at hdisk
    obtain ⟨es, hlog, hes, hsnap, _⟩ := hdisk
    exact recover_log hlog hes hsnap now hk
  | saving data rest =>
    rw [hp] at hdisk
    obtain ⟨es, old, hlog, hes, hold, hdata, _, hcrash⟩ := hdisk
    exact recover_log hlog hes (snapOk_of_saveCrash hold hdata hcrash.now) now hk
  | compacting data rest =>
    rw [hp] at hdisk
    obtain ⟨hag, es, now', hes, hdata, hcrash⟩ := hdisk
    obtain ⟨hsnap, hlog | hlog | hlog⟩ := hcrash.now
    · exact recover_log hlog hes (.inr ⟨data, hsnap, hdata⟩) now hk
    · exact recover_snapshot hlog hsnap hag now hk
    · exact recover_log hlog (logOk_compactEntries hs.built hag now')
        (.inr ⟨data, hsnap, dataOk_compactEntries hag now'⟩) now hk

/-! ## Steps keep the invariant -/

theorem storeOk_apply {h : List LogEntry} {s : KVStore} {e : LogEntry} (hb : LeaderBuilt e)
    (hs : StoreOk h s) (now : Time) : StoreOk (h ++ [e]) (applyToStore now s e) := by
  intro k hk
  rw [get?_applyToStore]
  by_cases hek : e.key = k
  · subst hek
    rw [if_pos rfl, settledRecord_append_self, writeEffect_eq hb]
  · rw [if_neg hek, settledRecord_append_ne hek]
    exact hs k ((settled_append_ne hek).mp hk)

theorem storeOk_cleanup {h : List LogEntry} {s : KVStore} (hs : StoreOk h s) (now : Time) :
    StoreOk h (s.cleanupExpired now) := by
  intro k hk
  rw [KVStore.get?_cleanupExpired, hs k hk, filter_settled hk]

theorem appendAof_of_log {d : DataDir} {es : List AofEntry}
    (h : d .aof = some (.closed (.log es))) (a : AofEntry) :
    appendAof d a = Function.update d .aof (some (.closed (.log (es ++ [a])))) := by
  simp only [appendAof, h]

theorem appendAof_aof {d : DataDir} {es : List AofEntry}
    (h : d .aof = some (.closed (.log es))) (a : AofEntry) :
    appendAof d a .aof = some (.closed (.log (es ++ [a]))) := by
  rw [appendAof_of_log h, Function.update_self]

theorem appendAof_snapshot {d : DataDir} {es : List AofEntry}
    (h : d .aof = some (.closed (.log es))) (a : AofEntry) :
    appendAof d a .snapshot = d .snapshot := by
  rw [appendAof_of_log h, Function.update_of_ne (by decide)]

/-- An applied entry reaches the log whatever the maintenance thread is doing outside
    `compact`. -/
theorem diskOk_apply {h : List LogEntry} {d : DataDir} {p : Phase} {e : LogEntry}
    (hb : LeaderBuilt e) (hd : DiskOk h d p) (hp : ∀ data rest, p ≠ .compacting data rest) :
    DiskOk (h ++ [e]) (appendAof d (aofEntryOf e)) p := by
  cases p with
  | idle =>
    obtain ⟨es, hlog, hes, hsnap⟩ := hd
    refine ⟨_, appendAof_aof hlog _, logOk_append hb hes, ?_⟩
    rw [appendAof_snapshot hlog]
    exact snapOk_append hsnap
  | captured data =>
    obtain ⟨es, hlog, hes, hsnap, hdata⟩ := hd
    refine ⟨_, appendAof_aof hlog _, logOk_append hb hes, ?_, dataOk_append hdata⟩
    rw [appendAof_snapshot hlog]
    exact snapOk_append hsnap
  | saving data rest =>
    obtain ⟨es, old, hlog, hes, hold, hdata, hav, hcrash⟩ := hd
    refine ⟨_, old, appendAof_aof hlog _, logOk_append hb hes, snapOk_append hold,
      dataOk_append hdata, hav, ?_⟩
    rw [appendAof_of_log hlog]
    refine crash_update ?_ ?_ hav _ hcrash
    · intro d f hd
      have hne : Path.snapshot ≠ Path.aof := by decide
      simpa only [SaveCrash, Function.update_of_ne hne] using hd
    · intro d f hd
      simpa only [Saved, Function.update_of_ne (show Path.snapshot ≠ Path.aof by decide)] using hd
  | compacting data rest => exact absurd rfl (hp data rest)

/-- What `get_all_data` captures has no settled key on which the log is silent. -/
theorem dataOk_getAllData {h : List LogEntry} {es : List AofEntry} {s : KVStore}
    (hs : StoreOk h s) (hes : LogOk h es) (now : Time) : DataOk h es (s.getAllData now).2 := by
  intro k hk hsil
  rw [KVStore.get?_getAllData, hs k hk]
  rcases hes k hk with ⟨a, ha, _⟩ | ⟨_, hnone⟩
  · rw [hsil] at ha
    cases ha
  · rw [hnone]
    rfl

/-- A capture is current when it is taken, -/
theorem agrees_getAllData {h : List LogEntry} {s : KVStore} (hs : StoreOk h s) (now : Time) :
    Agrees h (s.getAllData now).2 := by
  intro k hk
  rw [KVStore.get?_getAllData, hs k hk, filter_settled hk]

/-- and stays so through a write with TTL, or one that leaves what was captured. -/
theorem agrees_append {h : List LogEntry} {e : LogEntry} {data : Dict String KVStore.Item}
    (hdata : Agrees h data)
    (he : TtlFree e → data.get? e.key = (writtenBy e).map KVStore.itemOf) :
    Agrees (h ++ [e]) data := by
  intro k hk
  by_cases hek : e.key = k
  · subst hek
    rw [settledRecord_append_self]
    exact he (hk e (by rw [lastWrite_append, if_pos rfl]))
  · rw [settledRecord_append_ne hek]
    exact hdata k ((settled_append_ne hek).mp hk)

theorem inv_step {s s' : State} {ev : Event} (hs : Inv s) (hb : Built ev)
    (hcur : CaptureCurrent s ev) (hstep : step s ev = some s') : Inv s' := by
  obtain ⟨hbuilt, hstore, hdisk⟩ := hs
  cases step_effect hstep with
  | @applied now e hp =>
    refine ⟨?_, storeOk_apply hb hstore now, diskOk_apply hb hdisk hp⟩
    intro e' he'
    rcases List.mem_append.mp he' with he' | he'
    · exact hbuilt e' he'
    · rw [List.mem_singleton.mp he']
      exact hb
  | @cleaned now hp => exact ⟨hbuilt, storeOk_cleanup hstore now, hdisk⟩
  | @captured now hp =>
    rw [hp] at hdisk
    obtain ⟨es, hlog, hes, hsnap⟩ := hdisk
    exact ⟨hbuilt, storeOk_cleanup hstore now,
      ⟨es, hlog, hes, hsnap, dataOk_getAllData hstore hes now⟩⟩
  | @saving data hp =>
    rw [hp] at hdisk
    obtain ⟨es, hlog, hes, hsnap, hdata⟩ := hdisk
    exact ⟨hbuilt, hstore,
      ⟨es, s.dir .snapshot, hlog, hes, hsnap, hdata, saveOps_avoid data,
        crash_saveOps s.dir data⟩⟩
  | @saveOp data op rest d hp hd =>
    rw [hp] at hdisk
    obtain ⟨es, old, hlog, hes, hold, hdata, hav, hcrash⟩ := hdisk
    have hlog' := (perform_avoids (hav op List.mem_cons_self) hd).trans hlog
    exact ⟨hbuilt, hstore, ⟨es, old, hlog', hes, hold, hdata,
      fun o ho => hav o (List.mem_cons_of_mem op ho), hcrash.step hd⟩⟩
  | @compactOp data op rest d hp hd =>
    rw [hp] at hdisk
    obtain ⟨hag, es, now, hes, hdata, hcrash⟩ := hdisk
    exact ⟨hbuilt, hstore, ⟨hag, es, now, hes, hdata, hcrash.step hd⟩⟩
  | @compacting now data hp =>
    rw [hp] at hdisk
    obtain ⟨es, old, hlog, hes, _, hdata, _, hcrash⟩ := hdisk
    exact ⟨hbuilt, hstore,
      ⟨hcur data [] hp, es, now, hes, hdata, crash_compactOps hcrash.2 hlog now⟩⟩
  | @saved data hp =>
    rw [hp] at hdisk
    obtain ⟨es, old, hlog, hes, _, hdata, _, hcrash⟩ := hdisk
    exact ⟨hbuilt, hstore, ⟨es, hlog, hes, .inr ⟨data, hcrash.2, hdata⟩⟩⟩
  | @compacted data hp =>
    rw [hp] at hdisk
    obtain ⟨hag, es, now, _, _, hcrash⟩ := hdisk
    obtain ⟨hsnap, hlog⟩ := hcrash.2
    have hopen : openAof s.dir = s.dir := openAof_of_log hlog
    refine ⟨hbuilt, hstore, ⟨compactEntries data now, ?_, logOk_compactEntries hbuilt hag now, ?_⟩⟩
    · exact (congrFun hopen .aof).trans hlog
    · exact .inr ⟨data, (congrFun hopen .snapshot).trans hsnap, dataOk_compactEntries hag now⟩

/-- No file operation of a cycle fails. -/
theorem fileOp_enabled {s : State} (hs : Inv s) {data : Dict String KVStore.Item}
    {op : FileOp Path Content} {rest : List (FileOp Path Content)}
    (hp : s.phase = .saving data (op :: rest) ∨ s.phase = .compacting data (op :: rest)) :
    ∃ s', step s .fileOp = some s' := by
  have hdisk := hs.disk
  rcases hp with hp | hp
  · rw [hp] at hdisk
    obtain ⟨_, _, _, _, _, _, _, _, d, hd, _⟩ := hdisk
    exact ⟨{ s with dir := d, phase := .saving data rest },
      by simp only [step, hp, hd, Option.map_some]⟩
  · rw [hp] at hdisk
    obtain ⟨_, _, _, _, _, _, d, hd, _⟩ := hdisk
    exact ⟨{ s with dir := d, phase := .compacting data rest },
      by simp only [step, hp, hd, Option.map_some]⟩

theorem inv_start : Inv start := by
  refine ⟨fun e he => absurd he (List.not_mem_nil), fun k _ => rfl, [], ?_, fun k _ => ?_, .inl ?_⟩
  · simp [start, openAof]
  · exact .inr ⟨rfl, rfl⟩
  · simp [start, openAof]

/-! ## Runs -/

theorem inv_run {evs : List Event} {s : State} (hrun : exec step start evs = some s)
    (hbuilt : ∀ ev ∈ evs, Built ev) (hcur : Along step CaptureCurrent start evs) : Inv s :=
  exec_inv_along (P := fun s ev => Built ev ∧ CaptureCurrent s ev)
    (fun _ _ _ hs hP hst => inv_step hs hP.1 hP.2 hst) inv_start
    ((along_of_forall (fun _ ev hev => hbuilt ev hev) start).and hcur) hrun

/-- **Acknowledged writes survive**, in every run each of whose compactions starts from a
    current capture: after a crash at any state, recovery finds what the last write of a key
    left, when that write has no TTL. -/
theorem writes_survive {evs : List Event} {s : State} (hrun : exec step start evs = some s)
    (hbuilt : ∀ ev ∈ evs, Built ev) (hcur : Along step CaptureCurrent start evs) (now : Time)
    {k : String} {e : LogEntry} (hlast : lastWrite s.history k = some e) (hfree : TtlFree e) :
    (recoverDir s.dir now).get? k = writtenBy e := by
  have hk : Settled s.history k := by
    intro e' he'
    rw [hlast, Option.some.injEq] at he'
    exact he' ▸ hfree
  rw [recover_inv (inv_run hrun hbuilt hcur) now hk, settledRecord, hlast, Option.bind_some]

/-! ## Cycles without writes inside -/

/-- Entries have no TTL and are applied between cycles only. -/
def Calm (s : State) : Event → Prop
  | .apply _ e => s.phase = .idle ∧ LeaderBuilt e ∧ TtlFree e
  | _ => True

/-- What the current cycle has captured. -/
def Phase.data? : Phase → Option (Dict String KVStore.Item)
  | .idle => none
  | .captured data => some data
  | .saving data _ => some data
  | .compacting data _ => some data

/-- Nothing has changed since the capture. -/
structure CalmInv (s : State) : Prop where
  inv : Inv s
  free : ∀ e ∈ s.history, TtlFree e
  same : ∀ data, s.phase.data? = some data →
    ∀ k, data.get? k = (s.store.get? k).map KVStore.itemOf

theorem settled_of_free {h : List LogEntry} (hfree : ∀ e ∈ h, TtlFree e) (k : String) :
    Settled h k := fun e he => hfree e (mem_of_lastWrite he).1

theorem captureCurrent_of_calm {s : State} (hs : CalmInv s) (ev : Event) :
    CaptureCurrent s ev := by
  cases ev with
  | compact now =>
    intro data rest hp k hk
    rw [hs.same data (by rw [hp]; rfl) k, hs.inv.store k hk]
  | _ => trivial

theorem built_of_calm {s : State} {ev : Event} (h : Calm s ev) : Built ev := by
  cases ev with
  | apply now e => exact h.2.1
  | _ => trivial

/-- The captured data is the store that the capture leaves. -/
theorem getAllData_same (s : KVStore) (now : Time) (k : String) :
    (s.getAllData now).2.get? k = ((s.getAllData now).1.get? k).map KVStore.itemOf := by
  rw [KVStore.get?_getAllData, ← KVStore.get?_cleanupExpired]
  rfl

theorem calmInv_step {s s' : State} {ev : Event} (hs : CalmInv s) (hc : Calm s ev)
    (hstep : step s ev = some s') : CalmInv s' := by
  have hinv := inv_step hs.inv (built_of_calm hc) (captureCurrent_of_calm hs ev) hstep
  have hsame := hs.same
  cases step_effect hstep with
  | @applied now e hp =>
    obtain ⟨hidle, -, he⟩ := hc
    refine ⟨hinv, fun e' he' => ?_, fun data hd => ?_⟩
    · rcases List.mem_append.mp he' with he' | he'
      · exact hs.free e' he'
      · rw [List.mem_singleton.mp he']
        exact he
    · simp only [applyLogEntry, hidle, Phase.data?, reduceCtorEq] at hd
  | cleaned hp =>
    refine ⟨hinv, hs.free, fun data hd => ?_⟩
    simp only [hp, Phase.data?, reduceCtorEq] at hd
  | @captured now hp =>
    refine ⟨hinv, hs.free, fun data hd k => ?_⟩
    cases hd
    exact getAllData_same s.store now k
  | saving hp =>
    rw [hp] at hsame
    exact ⟨hinv, hs.free, hsame⟩
  | saveOp hp hd =>
    rw [hp] at hsame
    exact ⟨hinv, hs.free, hsame⟩
  | compactOp hp hd =>
    rw [hp] at hsame
    exact ⟨hinv, hs.free, hsame⟩
  | compacting hp =>
    rw [hp] at hsame
    exact ⟨hinv, hs.free, hsame⟩
  | saved hp => exact ⟨hinv, hs.free, fun data hd => by cases hd⟩
  | compacted hp => exact ⟨hinv, hs.free, fun data hd => by cases hd⟩

/-- **Recovery is exact**: in every run of TTL-free entries with whole cycles between them, a
    crash at any state (also between two file operations) leaves files from which recovery
    rebuilds the store as it was. -/
theorem recovery_exact {evs : List Event} {s : State} (hrun : exec step start evs = some s)
    (hcalm : Along step Calm start evs) (now : Time) (k : String) :
    (recoverDir s.dir now).get? k = s.store.get? k := by
  have hstart : CalmInv start :=
    ⟨inv_start, fun e he => absurd he List.not_mem_nil, fun data hd => by cases hd⟩
  have hs : CalmInv s :=
    exec_inv_along (fun s ev s' hs hc hst => calmInv_step hs hc hst) hstart hcalm hrun
  have hk := settled_of_free hs.free k
  rw [recover_inv hs.inv now hk, hs.inv.store k hk]

/-! ### Sample runs -/

/-- A SET as the leader builds it. -/
def sampleSet (key : String) (t : Time) : LogEntry :=
  { term := 1, index := 1, command := .set, key := key, value := .str "x", timestamp := t,
    version := 1, createdAt := some t, coordinatorId := "n1" }

theorem leaderBuilt_sampleSet (key : String) (t : Time) : LeaderBuilt (sampleSet key t) :=
  ⟨le_refl (1 : Int), rfl, rfl⟩

theorem ttlFree_sampleSet (key : String) (t : Time) : TtlFree (sampleSet key t) := ⟨rfl, rfl⟩

/-- A write, a capture and the first four file operations of `save`. -/
def calmRun : List Event :=
  [.apply 1 (sampleSet "a" 1), .capture 2, .save, .fileOp, .fileOp, .fileOp, .fileOp]

theorem recovery_exact_sample :
    ∃ s, exec step start calmRun = some s ∧
      (recoverDir s.dir 3).get? "a" = s.store.get? "a" := by
  have hcalm : Along step Calm start calmRun := by
    refine ⟨⟨rfl, leaderBuilt_sampleSet "a" 1, ttlFree_sampleSet "a" 1⟩, fun s _ => ?_⟩
    exact along_of_forall (fun _ ev hev => by
      simp only [List.mem_cons, List.not_mem_nil, or_false] at hev
      rcases hev with rfl | rfl | rfl | rfl | rfl | rfl <;> trivial) s
  refine ⟨_, rfl, ?_⟩
  exact recovery_exact (show exec step start calmRun = some _ from rfl) hcalm 3 "a"

/-! ## Writes inside a cycle -/

/-- `n` applications of one entry, outside any cycle. -/
theorem exec_applies (e : LogEntry) (n : Nat) :
    ∃ s, exec step start (List.replicate n (.apply 1 e)) = some s ∧ s.phase = .idle ∧
      s.aof.entriesSinceCompact = n ∧ s.aof.compactThreshold = 10000 ∧
      s.dir = Function.update start.dir .aof
        (some (.closed (.log (List.replicate n (aofEntryOf e))))) ∧
      s.history = List.replicate n e ∧ ∀ k, k ≠ e.key → s.store.get? k = none := by
  induction n with
  | zero => exact ⟨start, rfl, rfl, rfl, rfl, by simp [start, openAof], rfl, fun _ _ => rfl⟩
  | succ n ih =>
    obtain ⟨s, hrun, hp, hn, ht, hd, hh, hk⟩ := ih
    have hlog : s.dir .aof = some (.closed (.log (List.replicate n (aofEntryOf e)))) := by
      rw [hd, Function.update_self]
    refine ⟨applyLogEntry 1 s e, ?_, hp, ?_, ht, ?_, ?_, fun k hne => ?_⟩
    · rw [List.replicate_succ', exec_append]
      exact ⟨s, hrun, by simp [exec, step, hp]⟩
    · simp only [applyLogEntry, hn]
    · simp only [applyLogEntry]
      rw [appendAof_of_log hlog, hd, Function.update_idem, List.replicate_succ']
    · simp only [applyLogEntry, hh, List.replicate_succ']
    · simp only [applyLogEntry, get?_applyToStore, if_neg (Ne.symm hne), hk k hne]

/-- Ten thousand writes of "a", so that a compaction is due. -/
def dueRun : List Event := List.replicate 10000 (.apply 1 (sampleSet "a" 1))

/-- A SET with a TTL of 60 seconds. -/
def sampleTtl (key : String) (t : Time) : LogEntry :=
  { sampleSet key t with ttl := some 60, expiresAt := some (t + 60) }

theorem leaderBuilt_sampleTtl (key : String) (t : Time) : LeaderBuilt (sampleTtl key t) :=
  ⟨le_refl (1 : Int), rfl, rfl⟩

/-- What follows: a capture, then a write of "b" with TTL and one more of "a" inside the cycle,
    and `save`. -/
def keptSave : List Event :=
  [ .capture 2, .apply 3 (sampleTtl "b" 3), .apply 3 (sampleSet "a" 1), .save,
    .fileOp, .fileOp, .fileOp, .fileOp, .fileOp, .fileOp, .fileOp ]

/-- Then `compact`, the end of the cycle and a write of "c". -/
def keptCompact : List Event :=
  [ .compact 4, .fileOp, .fileOp, .fileOp, .fileOp, .fileOp, .finish, .apply 5 (sampleSet "c" 5) ]

def keptRun : List Event := dueRun ++ (keptSave ++ keptCompact)

theorem built_keptRun : ∀ ev ∈ keptRun, Built ev := by
  intro ev hev
  rcases List.mem_append.mp hev with hdue | hcycle
  · rw [List.eq_of_mem_replicate hdue]
    exact leaderBuilt_sampleSet "a" 1
  · simp only [keptSave, keptCompact, List.cons_append, List.nil_append, List.mem_cons,
      List.not_mem_nil, or_false] at hcycle
    rcases hcycle with rfl | rfl | rfl | rfl | rfl | rfl | rfl | rfl | rfl | rfl | rfl | rfl | rfl |
      rfl | rfl | rfl | rfl | rfl | rfl
    all_goals first
      | trivial
      | exact leaderBuilt_sampleSet _ _
      | exact leaderBuilt_sampleTtl _ _

/-- The capture misses no settled key when the compaction starts: "b" has a TTL, and "a" is set to
    what it was. -/
theorem agrees_kept {h : List LogEntry} {s : KVStore} (hs : StoreOk h s)
    (ha : lastWrite h "a" = some (sampleSet "a" 1)) :
    Agrees (h ++ [sampleTtl "b" 3] ++ [sampleSet "a" 1]) (s.getAllData 2).2 := by
  have hcaptured : Agrees h (s.getAllData 2).2 := agrees_getAllData hs 2
  have hsettled : Settled h "a" := by
    intro e he
    rw [ha, Option.some.injEq] at he
    exact he ▸ ttlFree_sampleSet "a" 1
  have hdata : (s.getAllData 2).2.get? "a" = (writtenBy (sampleSet "a" 1)).map KVStore.itemOf := by
    rw [hcaptured "a" hsettled, settledRecord, ha, Option.bind_some]
  exact agrees_append (agrees_append hcaptured fun hfree => by cases hfree.1) fun _ => hdata

/-- Where `save` ends, and that the run goes on to the end of the cycle. -/
theorem exec_kept {s : State} {es : List AofEntry} (hp : s.phase = .idle)
    (hn : s.aof.entriesSinceCompact = 10000) (ht : s.aof.compactThreshold = 10000)
    (hd : s.dir = Function.update start.dir .aof (some (.closed (.log es)))) :
    (∃ u, exec step s keptSave = some u ∧ u.phase = .saving (s.store.getAllData 2).2 [] ∧
      u.history = s.history ++ [sampleTtl "b" 3] ++ [sampleSet "a" 1]) ∧
    ∃ t, exec step s (keptSave ++ keptCompact) = some t ∧ t.phase = .idle ∧
      t.history = s.history ++ [sampleTtl "b" 3] ++ [sampleSet "a" 1] ++ [sampleSet "c" 5] := by
  obtain ⟨store, ⟨count, threshold⟩, dir, phase, history⟩ := s
  simp only at hp hn ht hd
  subst hp hn ht hd
  exact ⟨⟨_, rfl, rfl, rfl⟩, _, rfl, rfl, rfl⟩

theorem captureCurrent_keptRun : Along step CaptureCurrent start keptRun := by
  obtain ⟨s, hrun, hp, hn, ht, hd, hh, -⟩ := exec_applies (sampleSet "a" 1) 10000
  obtain ⟨⟨u, hu, hphase, hsaved⟩, -⟩ := exec_kept hp hn ht hd
  have hdue : Along step CaptureCurrent start dueRun :=
    along_of_forall (fun _ ev hev => by rw [List.eq_of_mem_replicate hev]; trivial) start
  have hinv : Inv s := inv_run hrun (fun ev hev => by
    rw [List.eq_of_mem_replicate hev]
    exact leaderBuilt_sampleSet "a" 1) hdue
  have ha : lastWrite s.history "a" = some (sampleSet "a" 1) := by
    rw [hh, List.replicate_succ', lastWrite_append]
    rfl
  refine (along_append hrun).mpr ⟨hdue, (along_append hu).mpr ⟨?_, fun data rest hsaving => ?_,
    fun v _ => ?_⟩⟩
  · refine along_of_forall (fun _ ev hev => ?_) s
    simp only [keptSave, List.mem_cons, List.not_mem_nil, or_false] at hev
    rcases hev with rfl | rfl | rfl | rfl | rfl | rfl | rfl | rfl | rfl | rfl | rfl <;> trivial
  · rw [hphase, Phase.saving.injEq] at hsaving
    rw [← hsaving.1, hsaved]
    exact agrees_kept hinv.store ha
  · refine along_of_forall (fun _ ev hev => ?_) v
    simp only [List.mem_cons, List.not_mem_nil, or_false] at hev
    rcases hev with rfl | rfl | rfl | rfl | rfl | rfl | rfl <;> trivial

/-- With a compaction and two writes inside its cycle, "a" and "c" are recovered. -/
theorem writes_survive_sample :
    ∃ s, exec step start keptRun = some s ∧ s.phase = .idle ∧
      (recoverDir s.dir 6).get? "a" = writtenBy (sampleSet "a" 1) ∧
      (recoverDir s.dir 6).get? "c" = writtenBy (sampleSet "c" 5) := by
  obtain ⟨s, hrun, hp, hn, ht, hd, hh, -⟩ := exec_applies (sampleSet "a" 1) 10000
  obtain ⟨-, t, htail, hidle, hend⟩ := exec_kept hp hn ht hd
  have hwhole : exec step start keptRun = some t := exec_append.mpr ⟨s, hrun, htail⟩
  have hlastA : lastWrite t.history "a" = some (sampleSet "a" 1) := by
    rw [hend, lastWrite_append, if_neg (by decide), lastWrite_append]
    rfl
  have hlastC : lastWrite t.history "c" = some (sampleSet "c" 5) := by
    rw [hend, lastWrite_append]
    rfl
  exact ⟨t, hwhole, hidle,
    writes_survive hwhole built_keptRun captureCurrent_keptRun 6 hlastA (ttlFree_sampleSet "a" 1),
    writes_survive hwhole built_keptRun captureCurrent_keptRun 6 hlastC (ttlFree_sampleSet "c" 5)⟩

/-! ## A lost write -/

/-- With a compaction due, a write of "b" between the capture and the rest of the cycle. -/
def lostRun : List Event :=
  dueRun ++
    [ .capture 2, .apply 3 (sampleSet "b" 3), .save,
      .fileOp, .fileOp, .fileOp, .fileOp, .fileOp, .fileOp, .fileOp,
      .compact 4, .fileOp, .fileOp, .fileOp, .fileOp, .fileOp, .finish ]

/-- The write of "b" is gone after the cycle. -/
theorem stale_capture_loses_write :
    ∃ s, exec step start lostRun = some s ∧ s.phase = .idle ∧
      lastWrite s.history "b" = some (sampleSet "b" 3) ∧ TtlFree (sampleSet "b" 3) ∧
      (recoverDir s.dir 5).get? "b" ≠ writtenBy (sampleSet "b" 3) := by
  obtain ⟨s, hrun, hp, hn, ht, hd, -, hk⟩ := exec_applies (sampleSet "a" 1) 10000
  have hb : s.store.get? "b" = none := hk "b" (by decide)
  obtain ⟨store, ⟨count, threshold⟩, dir, phase, history⟩ := s
  simp only at hp hn ht hd hb
  subst hp hn ht hd
  refine ⟨_, exec_append.mpr ⟨_, hrun, rfl⟩, rfl, ?_, ttlFree_sampleSet "b" 3, ?_⟩
  · exact (lastWrite_append history (sampleSet "b" 3) "b").trans (if_pos rfl)
  · -- neither file the cycle leaves has "b", which was not in the captured state
    have hdata : (store.getAllData 2).2.get? "b" = none := by
      rw [KVStore.get?_getAllData, hb]
      rfl
    have hsil : Silent (compactEntries (store.getAllData 2).2 4) "b" := by
      rw [Silent, compactEntries_filter_key, hdata]
      rfl
    refine ne_of_eq_of_ne (recover_silent ?_ hsil ?_ 5) ?_
    · rfl
    · exact .inr ⟨(store.getAllData 2).2, rfl, hdata⟩
    · exact fun h => by cases h

end Maintenance

end MiniDb
