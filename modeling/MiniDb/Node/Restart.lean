/-
  A restarted store against the store that kept running, with expiry.

  The running store keeps an expired record until it is read or purged, and then it is gone.
  Replay instead leaves out every logged SET that has expired at the restart, so that an
  earlier value of the key, which the expired SET had replaced, comes back.
  `restart_agrees_iff` says that this is the only difference: after a restart at `T`, reads at
  later times find what they would have found on the running store, exactly when no key is
  `Resurrected`.

  Entries carry the expiry time their TTL gives (`Stamped`), as `_apply_partition_write` builds
  them. Compaction of the log is not part of these runs (`Node.Maintenance` has it).
-/
import MiniDb.Node.Recovery
import Mathlib.Data.List.Induction

namespace MiniDb

open Lib

namespace Restart

/-! ## Runs -/

structure Session where
  store : KVStore
  log : List AofEntry
  snapshot : Option (Dict String KVStore.Item)
  /-- Every entry applied so far. -/
  history : List LogEntry

inductive Event where
  | apply (now : Time) (e : LogEntry)
  | snapshot (now : Time)

def start : Session := { store := KVStore.empty, log := [], snapshot := none, history := [] }

def step (s : Session) : Event → Session
  | .apply now e =>
    { s with
      store := applyToStore now s.store e
      log := s.log ++ [aofEntryOf e]
      history := s.history ++ [e] }
  | .snapshot now =>
    { s with store := (s.store.getAllData now).1, snapshot := some (s.store.getAllData now).2 }

def run (evs : List Event) : Session := evs.foldl step start

/-- The files at the end of a run. -/
def dirOf (s : Session) : DataDir
  | .aof => some (.closed (.log s.log))
  | .snapshot => s.snapshot.map fun data => .closed (.snapshot data)
  | _ => none

/-- The store that `_recover_data` builds at `T`. -/
def restarted (s : Session) (T : Time) : KVStore := recoverDir (dirOf s) T

/-! ## What a read sees -/

/-- The part of a record that a read depends on. -/
def content (m : Option KeyMetadata) : Option (Json × Option Time) :=
  m.map fun m => (m.value, m.expiresAt)

/-- What `get` at time `t` answers. -/
def seen (t : Time) : Option (Json × Option Time) → Json × Bool
  | some (v, x) => if expiredBefore x t then (.null, false) else (v, true)
  | none => (.null, false)

theorem get_seen (s : KVStore) (t : Time) (k : String) :
    (s.get t k).2 = seen t (content (s.get? k)) := by
  rw [KVStore.get_snd]
  cases s.get? k with
  | none => rfl
  | some m =>
    by_cases h : expiredBefore m.expiresAt t
    · simp [content, seen, Option.filter_some, h]
    · simp [content, seen, Option.filter_some, h]

theorem seen_of_expired {x : Option Time} {T t : Time} (hx : expiredBy x T = true) (ht : T < t)
    (v : Json) : seen t (some (v, x)) = (.null, false) := by
  simp only [seen, expiredBefore_of_expiredBy ht hx, if_true]

/-- What has not expired by `T` is seen at some later time. -/
theorem seen_of_not_expired {x : Option Time} {T : Time} (hx : expiredBy x T = false) (v : Json) :
    ∃ t, T < t ∧ seen t (some (v, x)) = (v, true) := by
  cases x with
  | none => exact ⟨T + 1, lt_add_one T, by simp [seen]⟩
  | some x =>
    by_cases h0 : x = 0
    · exact ⟨T + 1, lt_add_one T, by simp [seen, expiredBefore, h0]⟩
    · refine ⟨x, ?_, by simp [seen, expiredBefore]⟩
      by_contra hle
      simp [expiredBy, h0, not_lt.mp hle] at hx

/-- What an entry makes a read see. -/
def wrote (e : LogEntry) : Option (Json × Option Time) :=
  match e.command with
  | .set => some (e.value, e.expiresAt)
  | .delete => none

theorem content_writeEffect (e : LogEntry) (now : Time) (b : Option KeyMetadata) :
    content (writeEffect now e b) = wrote e := by
  unfold writeEffect wrote
  cases e.command with
  | delete => rfl
  | set =>
    cases hx : e.expiresAt with
    | some x => simp [content, setRecord, storeArgs, hx]
    | none => simp [content, setRecord, storeArgs, hx]

/-- A logged SET that replay leaves out at `T`. -/
def Skipped (T : Time) (e : LogEntry) : Prop := e.command = .set ∧ expiredBy e.expiresAt T = true

instance (T : Time) (e : LogEntry) : Decidable (Skipped T e) := by
  unfold Skipped
  infer_instance

theorem content_replayEffect {e : LogEntry} (h : Stamped e) (T : Time) (b : Option KeyMetadata) :
    content (replayEffect T (aofEntryOf e) b) = if Skipped T e then content b else wrote e := by
  cases hc : e.command with
  | delete => simp [replayEffect, aofEntryOf, wrote, Skipped, hc, content]
  | set =>
    have hx := replayExpiry_aofEntryOf h hc
    have hcmd : (aofEntryOf e).command = .set := by simp [aofEntryOf, hc]
    have hval : (aofEntryOf e).value = e.value := by simp [aofEntryOf, hc]
    simp only [replayEffect, hcmd, hx]
    by_cases hs : expiredBy e.expiresAt T
    · simp [Skipped, hc, hs]
    · cases hx' : e.expiresAt with
      | none => simp [Skipped, content, setRecord, wrote, hc, hval, hx']
      | some x =>
        rw [hx'] at hs
        simp [Skipped, content, setRecord, wrote, hc, hval, hx', hs]

/-! ## What a run leaves -/

/-- The last entry of the key that replay at `T` does not leave out. -/
def lastReplayed (h : List LogEntry) (T : Time) (k : String) : Option LogEntry :=
  ((h.filter fun e => e.key = k).filter fun e => ¬ Skipped T e).getLast?

/-- The key's last write has expired by `T`, and replay at `T` ends with an earlier SET. -/
def Resurrected (h : List LogEntry) (T : Time) (k : String) : Prop :=
  ∃ e e', lastWrite h k = some e ∧ Skipped T e ∧ lastReplayed h T k = some e' ∧ e'.command = .set

structure Inv (T : Time) (s : Session) : Prop where
  stamped : ∀ e ∈ s.history, Stamped e
  log : s.log = s.history.map aofEntryOf
  /-- The store has the last write, or has purged it. -/
  store : ∀ k, content (s.store.get? k) = (lastWrite s.history k).bind wrote ∨
    (s.store.get? k = none ∧ ∃ e, lastWrite s.history k = some e ∧ Skipped T e)
  /-- What the snapshot has, some SET wrote. -/
  snapshot : ∀ data, s.snapshot = some data → ∀ k i, data.get? k = some i →
    ∃ e ∈ s.history, e.key = k ∧ e.command = .set ∧ e.expiresAt = i.expiresAt

/-- Entries are stamped; snapshots are taken no later than `T`. -/
def Allowed (T : Time) : Event → Prop
  | .apply _ e => Stamped e
  | .snapshot now => now ≤ T

theorem wrote_of_get? {T : Time} {s : Session} (hs : Inv T s) {k : String} {m : KeyMetadata}
    (hm : s.store.get? k = some m) :
    ∃ e, lastWrite s.history k = some e ∧ e.command = .set ∧ e.value = m.value ∧
      e.expiresAt = m.expiresAt := by
  rcases hs.store k with h | ⟨h, _⟩
  · rw [hm] at h
    obtain ⟨e, he, hw⟩ := Option.bind_eq_some_iff.mp h.symm
    refine ⟨e, he, ?_⟩
    unfold wrote at hw
    cases hc : e.command with
    | set =>
      rw [hc] at hw
      simp only [Option.some.injEq, Prod.mk.injEq] at hw
      exact ⟨rfl, hw.1, hw.2⟩
    | delete =>
      rw [hc] at hw
      cases hw
  · rw [hm] at h
    cases h

theorem inv_step {T : Time} {s : Session} {ev : Event} (hs : Inv T s) (hev : Allowed T ev) :
    Inv T (step s ev) := by
  cases ev with
  | apply now e =>
    refine ⟨?_, ?_, fun k => ?_, fun data hd k i hi => ?_⟩
    · intro e' he'
      rcases List.mem_append.mp he' with he' | he'
      · exact hs.stamped e' he'
      · rw [List.mem_singleton.mp he']
        exact hev
    · simp only [step, hs.log, List.map_append, List.map_cons, List.map_nil]
    · simp only [step]
      rw [get?_applyToStore, lastWrite_append]
      by_cases hk : e.key = k
      · left
        rw [if_pos hk, if_pos hk, content_writeEffect, Option.bind_some]
      · rw [if_neg hk, if_neg hk]
        exact hs.store k
    · obtain ⟨e', he', h⟩ := hs.snapshot data hd k i hi
      exact ⟨e', List.mem_append_left _ he', h⟩
  | snapshot now =>
    refine ⟨hs.stamped, hs.log, fun k => ?_, fun data hd k i hi => ?_⟩
    · simp only [step, KVStore.getAllData]
      rw [KVStore.get?_cleanupExpired]
      cases hm : s.store.get? k with
      | none =>
        have := hs.store k
        rw [hm] at this
        exact this
      | some m =>
        by_cases hx : expiredBefore m.expiresAt now
        · -- the purged record is the last write's, expired by `T`
          right
          obtain ⟨e, he, hc, _, hexp⟩ := wrote_of_get? hs hm
          refine ⟨by simp [Option.filter_some, hx], e, he, hc, ?_⟩
          rw [hexp]
          exact expiredBy_of_expiredBefore hev hx
        · have := hs.store k
          rw [hm] at this
          simpa [Option.filter_some, hx] using this
    · cases hd
      rw [KVStore.get?_getAllData] at hi
      obtain ⟨m, hm, rfl⟩ := Option.map_eq_some_iff.mp hi
      rw [Option.filter_eq_some_iff] at hm
      obtain ⟨e, he, hc, _, hexp⟩ := wrote_of_get? hs hm.1
      obtain ⟨hmem, hkey⟩ := mem_of_lastWrite he
      exact ⟨e, hmem, hkey, hc, hexp⟩

theorem inv_run {T : Time} {evs : List Event} (hevs : ∀ ev ∈ evs, Allowed T ev) :
    Inv T (run evs) := by
  have hstart : Inv T start := ⟨fun e he => absurd he List.not_mem_nil, rfl, fun k => .inl rfl,
    fun data hd => by cases hd⟩
  unfold run
  generalize start = s at hstart ⊢
  induction evs generalizing s with
  | nil => exact hstart
  | cons ev evs ih =>
    exact ih (fun e he => hevs e (List.mem_cons_of_mem ev he)) (step s ev)
      (inv_step hstart (hevs ev List.mem_cons_self))

/-! ## The restarted store -/

/-- A fold that skips some steps ends with the last step it did not skip. -/
theorem foldl_content (T : Time) (es : List LogEntry) (hes : ∀ e ∈ es, Stamped e)
    (b : Option KeyMetadata) :
    content ((es.map aofEntryOf).foldl (fun b a => replayEffect T a b) b) =
      (((es.filter fun e => ¬ Skipped T e).getLast?).map wrote).getD (content b) := by
  induction es using List.reverseRecOn with
  | nil => rfl
  | append_singleton es e ih =>
    rw [List.map_append, List.foldl_append, List.filter_append]
    simp only [List.map_cons, List.map_nil, List.foldl_cons, List.foldl_nil]
    rw [content_replayEffect (hes e (by simp))]
    by_cases hs : Skipped T e
    · rw [if_pos hs, ih fun e' he' => hes e' (List.mem_append_left _ he')]
      simp [hs]
    · rw [if_neg hs]
      simp [hs]

theorem restarted_eq (s : Session) (T : Time) :
    restarted s T = recoverData
      (s.snapshot.map fun data => data.filter fun p => !expiredBefore p.2.expiresAt T) s.log T := by
  have hopen : openAof (dirOf s) = dirOf s := openAof_of_log rfl
  rw [restarted, recoverDir, hopen]
  cases h : s.snapshot with
  | none => simp [load, dirOf, h, readAof]
  | some data => simp [load, dirOf, h, readAof, readSnapshot]

/-- A snapshot record of a key all of whose entries replay leaves out has expired by `T`. -/
theorem snapshot_expired {T : Time} {s : Session} (hs : Inv T s) {k : String}
    (hnone : lastReplayed s.history T k = none) {data : Dict String KVStore.Item}
    (hd : s.snapshot = some data) {i : KVStore.Item} (hi : data.get? k = some i) :
    expiredBy i.expiresAt T = true := by
  obtain ⟨e, he, hk, _, hexp⟩ := hs.snapshot data hd k i hi
  have hskip : Skipped T e := by
    rw [lastReplayed, List.getLast?_eq_none_iff, List.filter_eq_nil_iff] at hnone
    have := hnone e (by simp [he, hk])
    simpa using this
  rw [← hexp]
  exact hskip.2

/-- The restarted store at `k`: the last entry replayed there, or else what a SET that has
    expired by `T` left in the snapshot. -/
theorem content_restarted {T : Time} {s : Session} (hs : Inv T s) (k : String) :
    ∃ c, content ((restarted s T).get? k) = ((lastReplayed s.history T k).map wrote).getD c ∧
      (lastReplayed s.history T k = none → ∀ t, T < t → seen t c = (.null, false)) := by
  have hlog : (s.log.filter fun a => a.key = k) =
      (s.history.filter fun e => e.key = k).map aofEntryOf := by
    rw [hs.log, List.filter_map]
    simp only [Function.comp_def, aofEntryOf_key]
  have hst : ∀ e ∈ s.history.filter fun e => e.key = k, Stamped e :=
    fun e he => hs.stamped e (List.mem_filter.mp he).1
  rw [restarted_eq]
  unfold recoverData
  cases hd : s.snapshot with
  | none =>
    refine ⟨none, ?_, fun _ _ _ => rfl⟩
    simp only [Option.map_none]
    rw [get?_replayLog, hlog, foldl_content T _ hst]
    rfl
  | some data =>
    refine ⟨content (((data.get? k).filter fun i => !expiredBefore i.expiresAt T).map
      KVStore.recordOf), ?_, fun hnone t ht => ?_⟩
    · simp only [Option.map_some]
      rw [get?_replayLog, hlog, foldl_content T _ hst, get?_loaded]
      rfl
    · cases hi : data.get? k with
      | none => rfl
      | some i =>
        by_cases hx : expiredBefore i.expiresAt T
        · simp [Option.filter_some, hx, content, seen]
        · have hexp := snapshot_expired hs hnone hd hi
          simpa [Option.filter_some, hx, content] using
            seen_of_expired hexp ht (KVStore.recordOf i).value

/-- The key's last write, when replay does not leave it out, is the last entry replayed. -/
theorem lastReplayed_of_lastWrite {h : List LogEntry} {T : Time} {k : String} {e : LogEntry}
    (he : lastWrite h k = some e) (hs : ¬ Skipped T e) : lastReplayed h T k = some e := by
  obtain ⟨init, hinit⟩ := List.getLast?_eq_some_iff.mp he
  rw [lastReplayed, hinit, List.filter_append]
  simp [hs]

theorem lastReplayed_of_none {h : List LogEntry} {T : Time} {k : String}
    (he : lastWrite h k = none) : lastReplayed h T k = none := by
  rw [lastWrite, List.getLast?_eq_none_iff] at he
  rw [lastReplayed, he]
  rfl

theorem not_skipped_of_lastReplayed {h : List LogEntry} {T : Time} {k : String} {e : LogEntry}
    (he : lastReplayed h T k = some e) : ¬ Skipped T e := by
  have hm := List.mem_of_getLast? he
  rw [List.mem_filter] at hm
  simpa using hm.2

/-- No write of the key: neither store shows it. -/
theorem agree_of_none {T : Time} {s : Session} (hs : Inv T s) {k : String}
    (hlast : lastWrite s.history k = none) {t : Time} (ht : T < t) :
    seen t (content ((restarted s T).get? k)) = seen t (content (s.store.get? k)) := by
  obtain ⟨c, hc, hbase⟩ := content_restarted hs k
  have hlive : content (s.store.get? k) = none := by
    rcases hs.store k with h | ⟨_, e, he, _⟩
    · rw [h, hlast]
      rfl
    · rw [hlast] at he
      cases he
  rw [hc, lastReplayed_of_none hlast, hlive]
  exact hbase (lastReplayed_of_none hlast) t ht

/-- A last write that replay does not leave out is in both stores. -/
theorem agree_of_not_skipped {T : Time} {s : Session} (hs : Inv T s) {k : String} {e : LogEntry}
    (hlast : lastWrite s.history k = some e) (hskip : ¬ Skipped T e) :
    content ((restarted s T).get? k) = content (s.store.get? k) := by
  obtain ⟨c, hc, -⟩ := content_restarted hs k
  have hlive : content (s.store.get? k) = wrote e := by
    rcases hs.store k with h | ⟨_, e', he', hsk⟩
    · rw [h, hlast]
      rfl
    · rw [hlast, Option.some.injEq] at he'
      exact absurd (he' ▸ hsk) hskip
  rw [hc, lastReplayed_of_lastWrite hlast hskip, hlive]
  rfl

/-- A last write that has expired by `T` is not shown by the running store. -/
theorem seen_of_skipped {T : Time} {s : Session} (hs : Inv T s) {k : String} {e : LogEntry}
    (hlast : lastWrite s.history k = some e) (hskip : Skipped T e) {t : Time} (ht : T < t) :
    seen t (content (s.store.get? k)) = (.null, false) := by
  rcases hs.store k with h | ⟨h, _⟩
  · rw [h, hlast]
    simpa [wrote, hskip.1] using seen_of_expired hskip.2 ht e.value
  · rw [h]
    rfl

/-- Then the restarted store must not show the key either: replay must not end with a SET. -/
theorem agree_iff_of_skipped {T : Time} {s : Session} (hs : Inv T s) {k : String} {e : LogEntry}
    (hlast : lastWrite s.history k = some e) (hskip : Skipped T e) :
    (∀ t, T < t → seen t (content ((restarted s T).get? k)) =
        seen t (content (s.store.get? k))) ↔
      ∀ e', lastReplayed s.history T k = some e' → e'.command ≠ .set := by
  obtain ⟨c, hc, hbase⟩ := content_restarted hs k
  rw [hc]
  cases hr : lastReplayed s.history T k with
  | none =>
    refine iff_of_true (fun t ht => ?_) fun e' he' => by cases he'
    rw [seen_of_skipped hs hlast hskip ht]
    exact hbase hr t ht
  | some e' =>
    cases hcmd : e'.command with
    | delete =>
      refine iff_of_true (fun t ht => ?_) fun e₂ he₂ => ?_
      · rw [seen_of_skipped hs hlast hskip ht]
        simp [wrote, hcmd, seen]
      · rw [← Option.some.inj he₂, hcmd]
        exact fun h => by cases h
    | set =>
      refine iff_of_false (fun h => ?_) fun h => h e' rfl hcmd
      have hx : expiredBy e'.expiresAt T = false := by
        have hns := not_skipped_of_lastReplayed hr
        cases hx : expiredBy e'.expiresAt T with
        | false => rfl
        | true => exact absurd ⟨hcmd, hx⟩ hns
      obtain ⟨t, ht, hseen⟩ := seen_of_not_expired hx e'.value
      have hagree := h t ht
      rw [seen_of_skipped hs hlast hskip ht] at hagree
      simp [wrote, hcmd, hseen] at hagree

/-- One key: later reads agree exactly when it is not resurrected. -/
theorem agree_iff {T : Time} {s : Session} (hs : Inv T s) (k : String) :
    (∀ t, T < t → ((restarted s T).get t k).2 = (s.store.get t k).2) ↔
      ¬ Resurrected s.history T k := by
  simp only [get_seen]
  cases hlast : lastWrite s.history k with
  | none =>
    refine iff_of_true (fun t ht => agree_of_none hs hlast ht) ?_
    rintro ⟨e, _, he, _⟩
    rw [hlast] at he
    cases he
  | some e =>
    by_cases hskip : Skipped T e
    · rw [agree_iff_of_skipped hs hlast hskip]
      constructor
      · rintro h ⟨_, e', _, _, he', hset⟩
        exact h e' he' hset
      · exact fun h e' he' hset => h ⟨e, e', hlast, hskip, he', hset⟩
    · refine iff_of_true (fun t _ => ?_) ?_
      · rw [agree_of_not_skipped hs hlast hskip]
      · rintro ⟨e₁, _, he₁, hsk, _⟩
        rw [hlast, Option.some.injEq] at he₁
        exact hskip (he₁ ▸ hsk)

/-- **Exactly when a restart goes unnoticed**: for every history, every snapshots taken along
    it and every restart time `T`, all reads at later times agree with the store that kept
    running if and only if no key is resurrected. -/
theorem restart_agrees_iff (evs : List Event) (T : Time) (hevs : ∀ ev ∈ evs, Allowed T ev) :
    (∀ k t, T < t → ((restarted (run evs) T).get t k).2 = ((run evs).store.get t k).2) ↔
      ∀ k, ¬ Resurrected (run evs).history T k :=
  forall_congr' fun k => agree_iff (inv_run hevs) k

/-! ### A resurrected value -/

def firstSet : LogEntry :=
  { term := 1, index := 1, command := .set, key := "a", value := .str "x", timestamp := 1,
    version := 1, createdAt := some 1, coordinatorId := "n1" }

/-- The same key, with a TTL of one second. -/
def secondSet : LogEntry :=
  { term := 1, index := 2, command := .set, key := "a", value := .str "y", ttl := some 1,
    timestamp := 2, version := 2, expiresAt := some 3, createdAt := some 1,
    coordinatorId := "n1" }

def expiringRun : List Event := [.apply 1 firstSet, .apply 2 secondSet]

theorem restart_agrees_iff_sample :
    (∀ k t, (2 : Time) < t →
        ((restarted (run expiringRun) 2).get t k).2 = ((run expiringRun).store.get t k).2) ↔
      ∀ k, ¬ Resurrected (run expiringRun).history 2 k := by
  refine restart_agrees_iff expiringRun 2 ?_
  intro ev hev
  simp only [expiringRun, List.mem_cons, List.not_mem_nil, or_false] at hev
  rcases hev with rfl | rfl
  · exact fun _ => rfl
  · exact fun h => by cases h

/-- Restarted at 4, after the second SET has expired, the first value is back. -/
theorem restart_resurrects_value :
    ((restarted (run expiringRun) 4).get 5 "a").2.2 = true ∧
      ((run expiringRun).store.get 5 "a").2.2 = false := by
  decide +kernel

end Restart

end MiniDb
