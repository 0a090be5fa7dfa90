/-
  Updates that reach a node as a replica (`node.py`): committed REPLICATE messages,
  `__REPLICA_SET`, `__IMPORT_KEYS` and repair data.

  The last three store a record only if it is not older than the one they find
  (`storeUnlessOlder`). A commit has no such guard: `_apply_log_entry` stores whatever it is
  given. `never_decreases_iff` says that the order of the stored records is kept by a run of
  updates exactly when every commit in it brings an entry that is not older than the record it
  replaces.

  Arguments come parsed: `none` stands for an argument that is missing or does not parse.
-/
import MiniDb.Lib.Steps
import MiniDb.Node.State
import Mathlib.Order.WithBot

namespace MiniDb

open Lib

/-! ## The guarded paths -/

/-- A value with the metadata it is to be stored with. -/
structure Versioned where
  key : String
  value : Json
  version : Int
  expiresAt : Option Time
  createdAt : Time
  updatedAt : Time
  coordinatorId : String

namespace Versioned

def sortKey (u : Versioned) : SortKey := MiniDb.sortKey u.version u.updatedAt u.coordinatorId

def setArgs (u : Versioned) : SetArgs :=
  { version := some u.version, expiresAt := u.expiresAt, createdAt := some u.createdAt,
    updatedAt := some u.updatedAt, coordinatorId := some u.coordinatorId }

def aofEntry (u : Versioned) : AofEntry :=
  { timestamp := u.updatedAt, command := .set, key := u.key, value := u.value,
    expiresAt := u.expiresAt, version := u.version, createdAt := some u.createdAt,
    coordinatorId := u.coordinatorId }

end Versioned

namespace Node

/-- Store `u` and log it, unless the stored record comes after it; the flag says whether it was
    stored. -/
def storeUnlessOlder (now : Time) (n : Node) (u : Versioned) : Node × Bool :=
  let (s, current) := n.store.getWithMetadata now u.key
  if current.any fun m => u.sortKey < m.sortKey then ({ n with store := s }, false)
  else ({ n with store := s.set now u.key u.value u.setArgs, aof := n.aof ++ [u.aofEntry] }, true)

theorem storeUnlessOlder_config (n : Node) (now : Time) (u : Versioned) :
    (n.storeUnlessOlder now u).1.config = n.config := by
  unfold storeUnlessOlder
  dsimp only
  split <;> rfl

end Node

/-- `x or default` on a number that may be missing. -/
def orElse (x : Option Time) (default : Time) : Time :=
  match x with
  | some x => if x ≠ 0 then x else default
  | none => default

structure ReplicaSetArgs where
  key : String
  value : Json
  version : Option Int
  expiresAt : Option Time
  /-- `updated_at` and `created_at`. -/
  times : Option (Time × Time)
  coordinatorId : Option String

structure ImportItem where
  value : Json
  version : Int
  updatedAt : Option Time
  createdAt : Option Time
  expiresAt : Option Time
  coordinatorId : Option String

structure RepairMetadata where
  updatedAt : Option Time
  createdAt : Option Time
  expiresAt : Option Time
  coordinatorId : Option String

namespace Node

/-- `_handle_replica_set`; `none` stands for fewer than six arguments. -/
def handleReplicaSet (now : Time) (n : Node) (args : Option ReplicaSetArgs) : Node × Response :=
  match args with
  | none => (n, .error
      "__REPLICA_SET requires key, value, version, updated_at, created_at, and coordinator_id")
  | some a => match a.version with
    | none => (n, .error "Version must be an integer")
    | some v => match a.times with
      | none => (n, .error "Timestamps must be numeric")
      | some (updatedAt, createdAt) =>
        let (n, stored) := n.storeUnlessOlder now
          ⟨a.key, a.value, v, a.expiresAt, createdAt, updatedAt, a.coordinatorId.getD ""⟩
        (n, .ok (.str (if stored then "OK" else "IGNORED")))

/-- The record `_handle_import_keys` stores for an item. -/
def importRecord (now : Time) (key : String) (i : ImportItem) : Versioned :=
  { key := key, value := i.value, version := i.version, expiresAt := i.expiresAt
    createdAt := orElse i.createdAt (orElse i.updatedAt now)
    updatedAt := orElse i.updatedAt now
    coordinatorId := i.coordinatorId.getD "" }

/-- One item of the import loop. -/
def importItem (now : Time) (n : Node) (p : String × ImportItem) : Node :=
  (n.storeUnlessOlder now (importRecord now p.1 p.2)).1

/-- The import loop of `_handle_import_keys`, as far as it changes this node (afterwards the
    items it owns are sent on with `__REPLICA_SET`). -/
def importKeys (now : Time) (n : Node) (payload : Dict String ImportItem) : Node :=
  payload.items.foldl (importItem now) n

/-- `_apply_repair_data` -/
def applyRepairData (now : Time) (n : Node) (key : String) (value : Json) (version : Int)
    (metadata : RepairMetadata) : Node :=
  (n.storeUnlessOlder now
    { key := key, value := value, version := version, expiresAt := metadata.expiresAt
      createdAt := orElse metadata.createdAt (orElse metadata.updatedAt now)
      updatedAt := orElse metadata.updatedAt now
      coordinatorId := metadata.coordinatorId.getD n.nodeId }).1

end Node

/-! ## Runs of updates -/

namespace Replica

inductive Update where
  | prepare (e : LogEntry)
  | commit (now : Time) (e : LogEntry)
  | replicaSet (now : Time) (args : Option ReplicaSetArgs)
  | importKeys (now : Time) (payload : Dict String ImportItem)
  | repair (now : Time) (key : String) (value : Json) (version : Int) (metadata : RepairMetadata)

def update (n : Node) : Update → Node
  | .prepare e => (n.handleReplicate 0 (some e) .prepare).1
  | .commit now e => (n.handleReplicate now (some e) .commit).1
  | .replicaSet now args => (n.handleReplicaSet now args).1
  | .importKeys now payload => n.importKeys now payload
  | .repair now key value version metadata => n.applyRepairData now key value version metadata

def step (n : Node) (u : Update) : Option Node := some (update n u)

/-- The stored `(version, updated_at, coordinator_id)` of a key; nothing stored comes first. -/
def rank (n : Node) (k : String) : WithBot SortKey :=
  match n.store.get? k with
  | some m => (m.sortKey : WithBot SortKey)
  | none => ⊥

/-- A SET without TTL. -/
def PlainSet (e : LogEntry) : Prop := e.command = .set ∧ e.expiresAt = none

/-- Neither DELETE nor TTL. -/
def PlainUpdate : Update → Prop
  | .prepare e => PlainSet e
  | .commit _ e => PlainSet e
  | .replicaSet _ args => ∀ a, args = some a → a.expiresAt = none
  | .importKeys _ payload => ∀ p ∈ payload.items, p.2.expiresAt = none
  | .repair _ _ _ _ metadata => metadata.expiresAt = none

/-- No record has a TTL, and what is staged are plain SETs. -/
structure Plain (n : Node) : Prop where
  store : ∀ k m, n.store.get? k = some m → m.expiresAt = none
  staged : ∀ i e, n.staged.get? i = some e → PlainSet e

/-- The update makes no stored record come earlier in the order. -/
def KeepsOrder (n : Node) (u : Update) : Prop := ∀ k, rank n k ≤ rank (update n u) k

def entryKey (e : LogEntry) : SortKey := sortKey e.version e.timestamp e.coordinatorId

/-- A commit brings an entry that is not older than the stored record (an entry of version 0
    takes the version after the stored one). -/
def CommitCurrent (n : Node) : Update → Prop
  | .commit _ e => (n.toApply e).version = 0 ∨
      ∀ m, n.store.get? (n.toApply e).key = some m → m.sortKey ≤ entryKey (n.toApply e)
  | _ => True

/-! ### The order of what is stored -/

theorem rank_of_some {n : Node} {k : String} {m : KeyMetadata} (h : n.store.get? k = some m) :
    rank n k = (m.sortKey : WithBot SortKey) := by
  simp only [rank, h]

theorem rank_of_none {n : Node} {k : String} (h : n.store.get? k = none) : rank n k = ⊥ := by
  simp only [rank, h]

/-- The order key of the record that a versioned `set` leaves. -/
theorem sortKey_setRecord (now : Time) (b : Option KeyMetadata) (value : Json) (v : Int)
    (x : Option Time) (c : Option Time) (u : Time) (i : String) :
    (setRecord now b value
        { version := some v, expiresAt := x, createdAt := c, updatedAt := some u,
          coordinatorId := some i }).sortKey =
      sortKey (if v ≠ 0 then v else setRecord.nextVersion b) u i := rfl

/-- A version 0 becomes the version after the stored one. -/
theorem sortKey_lt_next (m : KeyMetadata) (u : Time) (i : String) :
    m.sortKey < sortKey (setRecord.nextVersion (some m)) u i :=
  sortKey_lt_of_version_lt (Int.lt_succ m.version) _ _ _ _

/-- Of two entries with increasing timestamps the later one is greater unless its version is
    smaller. -/
theorem entryKey_lt_iff {e e' : LogEntry} (h : e.timestamp < e'.timestamp) :
    entryKey e < entryKey e' ↔ e.version ≤ e'.version := by
  unfold entryKey sortKey
  rw [Prod.Lex.toLex_lt_toLex, Prod.Lex.toLex_lt_toLex]
  constructor
  · rintro (hv | ⟨hv, -⟩)
    · exact le_of_lt hv
    · exact le_of_eq hv
  · intro hv
    rcases lt_or_eq_of_le hv with hv | hv
    · exact .inl hv
    · exact .inr ⟨hv, .inl h⟩

/-- Without TTL a read purges nothing. -/
theorem getWithMetadata_plain {n : Node} (hn : Plain n) (now : Time) (k : String) :
    n.store.getWithMetadata now k = (n.store, n.store.get? k) := by
  unfold KVStore.getWithMetadata
  cases h : n.store.get? k with
  | none => rfl
  | some m => simp [hn.store k m h]

/-- The guard keeps the order. -/
theorem storeUnlessOlder_keeps {n : Node} (hn : Plain n) (now : Time) (u : Versioned)
    (k : String) : rank n k ≤ rank (n.storeUnlessOlder now u).1 k := by
  simp only [Node.storeUnlessOlder, getWithMetadata_plain hn]
  split
  · exact le_rfl
  · rename_i hguard
    by_cases hk : k = u.key
    · subst hk
      cases hm : n.store.get? u.key with
      | none =>
        rw [rank_of_none hm]
        exact bot_le
      | some m =>
        have hle : m.sortKey ≤ u.sortKey := by
          simpa [hm] using hguard
        rw [rank_of_some hm]
        unfold rank
        simp only [KVStore.get?_set, if_true, hm, Versioned.setArgs, sortKey_setRecord,
          WithBot.coe_le_coe]
        by_cases hv : u.version = 0
        · simp only [hv, ne_eq, not_true_eq_false, if_false]
          exact le_of_lt (sortKey_lt_next m _ _)
        · simp only [ne_eq, hv, not_false_eq_true, if_true]
          exact hle
    · unfold rank
      simp only [KVStore.get?_set, if_neg hk]
      exact le_rfl

theorem storeUnlessOlder_plain {n : Node} (hn : Plain n) (now : Time) {u : Versioned}
    (hu : u.expiresAt = none) : Plain (n.storeUnlessOlder now u).1 := by
  simp only [Node.storeUnlessOlder, getWithMetadata_plain hn]
  split
  · exact hn
  · refine ⟨fun k m hm => ?_, hn.staged⟩
    simp only [KVStore.get?_set] at hm
    by_cases hk : k = u.key
    · rw [if_pos hk, Option.some.injEq] at hm
      rw [← hm]
      simp [setRecord, Versioned.setArgs, hu]
    · rw [if_neg hk] at hm
      exact hn.store k m hm

/-- The import loop stores item after item. -/
theorem importKeys_keeps {n : Node} (hn : Plain n) (now : Time)
    (items : List (String × ImportItem)) (hitems : ∀ p ∈ items, p.2.expiresAt = none) :
    Plain (items.foldl (Node.importItem now) n) ∧
      ∀ k, rank n k ≤ rank (items.foldl (Node.importItem now) n) k := by
  induction items generalizing n with
  | nil => exact ⟨hn, fun k => le_rfl⟩
  | cons p items ih =>
    have hp := hitems p List.mem_cons_self
    have hrest := fun q hq => hitems q (List.mem_cons_of_mem p hq)
    have hplain : Plain (Node.importItem now n p) := storeUnlessOlder_plain hn now hp
    obtain ⟨h₁, h₂⟩ := ih hplain hrest
    exact ⟨h₁, fun k => le_trans (storeUnlessOlder_keeps hn now _ k) (h₂ k)⟩

/-! ### Commits -/

theorem plainSet_toApply {n : Node} (hn : Plain n) {e : LogEntry} (he : PlainSet e) :
    PlainSet (n.toApply e) := by
  unfold Node.toApply
  cases h : n.staged.get? e.index with
  | none => exact he
  | some a => exact hn.staged _ a h

theorem get?_applyLogEntry {n : Node} {a : LogEntry} (ha : a.command = .set) (now : Time)
    (k : String) :
    (n.applyLogEntry now a).store.get? k =
      if a.key = k then some (setRecord now (n.store.get? k) a.value (storeArgs a))
      else n.store.get? k := by
  simp only [Node.applyLogEntry, get?_applyToStore, writeEffect, ha]

/-- Applying an entry keeps the order exactly when it is not older than the stored record. -/
theorem applyLogEntry_keeps_iff {n : Node} {a : LogEntry} (ha : a.command = .set) (now : Time) :
    (∀ k, rank n k ≤ rank (n.applyLogEntry now a) k) ↔
      (a.version = 0 ∨ ∀ m, n.store.get? a.key = some m → m.sortKey ≤ entryKey a) := by
  have hother : ∀ k, a.key ≠ k → rank n k ≤ rank (n.applyLogEntry now a) k := by
    intro k hk
    unfold rank
    rw [get?_applyLogEntry ha now k, if_neg hk]
  have hself : rank (n.applyLogEntry now a) a.key =
      (sortKey (if a.version ≠ 0 then a.version else setRecord.nextVersion (n.store.get? a.key))
        a.timestamp a.coordinatorId : WithBot SortKey) := by
    rw [rank_of_some ((get?_applyLogEntry ha now a.key).trans (if_pos rfl))]
    rfl
  constructor
  · intro h
    by_cases hv : a.version = 0
    · exact .inl hv
    · refine .inr fun m hm => ?_
      have hk := h a.key
      rw [rank_of_some hm, hself, WithBot.coe_le_coe, if_pos hv] at hk
      exact hk
  · intro h k
    by_cases hk : a.key = k
    · subst hk
      cases hm : n.store.get? a.key with
      | none =>
        rw [rank_of_none hm]
        exact bot_le
      | some m =>
        rw [rank_of_some hm, hself, WithBot.coe_le_coe, hm]
        by_cases hv : a.version = 0
        · rw [if_neg (not_not.mpr hv)]
          exact le_of_lt (sortKey_lt_next m _ _)
        · rw [if_pos hv]
          exact (h.resolve_left hv) m hm
    · exact hother k hk

/-- A commit keeps the order exactly when its entry is not older than the stored record. -/
theorem commit_keeps_iff {n : Node} (hn : Plain n) {e : LogEntry} (he : PlainSet e) (now : Time) :
    (∀ k, rank n k ≤ rank (n.commit now e) k) ↔
      ((n.toApply e).version = 0 ∨
        ∀ m, n.store.get? (n.toApply e).key = some m → m.sortKey ≤ entryKey (n.toApply e)) :=
  applyLogEntry_keeps_iff (plainSet_toApply hn he).1 now

theorem commit_plain {n : Node} (hn : Plain n) {e : LogEntry} (he : PlainSet e) (now : Time) :
    Plain (n.commit now e) := by
  obtain ⟨ha, hx⟩ := plainSet_toApply hn he
  refine ⟨fun k m hm => ?_, fun i e' he' => ?_⟩
  · have hm : (n.applyLogEntry now (n.toApply e)).store.get? k = some m := hm
    rw [get?_applyLogEntry ha] at hm
    by_cases hk : (n.toApply e).key = k
    · rw [if_pos hk, Option.some.injEq] at hm
      rw [← hm]
      simp [setRecord, storeArgs, hx]
    · rw [if_neg hk] at hm
      exact hn.store k m hm
  · have herase : (n.staged.erase e.index).get? i = some e' := he'
    rw [Dict.get?_erase] at herase
    by_cases hi : i = e.index
    · rw [if_pos hi] at herase
      cases herase
    · rw [if_neg hi] at herase
      exact hn.staged i e' herase

theorem stage_plain {n : Node} (hn : Plain n) {e : LogEntry} (he : PlainSet e) :
    Plain (n.stage e) := by
  refine ⟨hn.store, fun i e' he' => ?_⟩
  have hset : (n.staged.set e.index e).get? i = some e' := he'
  rw [Dict.get?_set] at hset
  by_cases hi : i = e.index
  · rw [if_pos hi, Option.some.injEq] at hset
    exact hset ▸ he
  · rw [if_neg hi] at hset
    exact hn.staged i e' hset

/-! ### Every update -/

theorem replicaSet_cases (now : Time) (n : Node) (args : Option ReplicaSetArgs) :
    (n.handleReplicaSet now args).1 = n ∨
      ∃ a u, args = some a ∧ u.key = a.key ∧ u.expiresAt = a.expiresAt ∧
        (n.handleReplicaSet now args).1 = (n.storeUnlessOlder now u).1 := by
  cases args with
  | none => exact .inl rfl
  | some a =>
    cases hv : a.version with
    | none => exact .inl (by simp [Node.handleReplicaSet, hv])
    | some v =>
      cases ht : a.times with
      | none => exact .inl (by simp [Node.handleReplicaSet, hv, ht])
      | some t =>
        exact .inr ⟨a, ⟨a.key, a.value, v, a.expiresAt, t.2, t.1, a.coordinatorId.getD ""⟩, rfl,
          rfl, rfl, by simp [Node.handleReplicaSet, hv, ht]⟩

theorem update_plain {n : Node} (hn : Plain n) {u : Update} (hu : PlainUpdate u) :
    Plain (update n u) := by
  cases u with
  | prepare e => exact stage_plain hn hu
  | commit now e => exact commit_plain hn hu now
  | replicaSet now args =>
    rcases replicaSet_cases now n args with h | ⟨a, u, ha, -, hx, h⟩
    · exact (congrArg Plain h).mpr hn
    · exact (congrArg Plain h).mpr (storeUnlessOlder_plain hn now (hx.trans (hu a ha)))
  | importKeys now payload => exact (importKeys_keeps hn now payload.items hu).1
  | repair now key value version metadata => exact storeUnlessOlder_plain hn now hu

/-- One update keeps the order exactly when it is no commit of an older entry. -/
theorem keepsOrder_iff {n : Node} (hn : Plain n) {u : Update} (hu : PlainUpdate u) :
    KeepsOrder n u ↔ CommitCurrent n u := by
  cases u with
  | prepare e => exact iff_of_true (fun k => le_rfl) trivial
  | commit now e => exact commit_keeps_iff hn hu now
  | replicaSet now args =>
    refine iff_of_true (fun k => ?_) trivial
    rcases replicaSet_cases now n args with h | ⟨a, u, ha, -, hx, h⟩
    · exact le_of_eq (congrArg (rank · k) h.symm)
    · exact le_of_le_of_eq (storeUnlessOlder_keeps hn now u k) (congrArg (rank · k) h.symm)
  | importKeys now payload =>
    exact iff_of_true (importKeys_keeps hn now payload.items hu).2 trivial
  | repair now key value version metadata =>
    exact iff_of_true (fun k => storeUnlessOlder_keeps hn now _ k) trivial

/-- **Exactly when the stored order never decreases**: along every run of replica updates
    without DELETE and TTL, in any order and any number of times, the stored
    `(version, updated_at, coordinator_id)` of no key decreases at any step if and only if
    every commit in the run brings an entry that is not older than what it replaces. -/
theorem never_decreases_iff {n : Node} {us : List Update} (hn : Plain n)
    (hus : ∀ u ∈ us, PlainUpdate u) :
    Along step KeepsOrder n us ↔ Along step CommitCurrent n us := by
  induction us generalizing n with
  | nil => exact Iff.rfl
  | cons u us ih =>
    have hu := hus u List.mem_cons_self
    have hrest := fun v hv => hus v (List.mem_cons_of_mem u hv)
    simp only [Along, step, Option.some.injEq, forall_eq', keepsOrder_iff hn hu,
      ih (update_plain hn hu) hrest]

/-! ### An older commit -/

def sampleNode : Node :=
  { config := ⟨"n2", 3, .quorum⟩
    store := KVStore.empty
    aof := []
    election := { nodeId := "n2" }
    membership := .empty
    ring := .new 150
    staged := Dict.empty
    replication := {}
    writeSequence := 0 }

def sampleEntry (index : Nat) (version : Int) (t : Time) : LogEntry :=
  { term := 1, index := index, command := .set, key := "a", value := .int version,
    timestamp := t, version := version, createdAt := some 1, coordinatorId := "n1" }

theorem plain_sampleNode : Plain sampleNode :=
  ⟨fun _ _ h => (by cases h), fun _ _ h => (by cases h)⟩

theorem never_decreases_iff_sample :
    Along step KeepsOrder sampleNode
        [.commit 1 (sampleEntry 1 1 1), .commit 2 (sampleEntry 2 2 2)] ↔
      Along step CommitCurrent sampleNode
        [.commit 1 (sampleEntry 1 1 1), .commit 2 (sampleEntry 2 2 2)] := by
  refine never_decreases_iff plain_sampleNode ?_
  intro u hu
  simp only [List.mem_cons, List.not_mem_nil, or_false] at hu
  rcases hu with rfl | rfl
  · exact ⟨rfl, rfl⟩
  · exact ⟨rfl, rfl⟩

/-- The commit of version 1 arrives after that of version 2 and replaces it. -/
theorem late_commit_decreases :
    rank (update (update sampleNode (.commit 2 (sampleEntry 2 2 2)))
        (.commit 3 (sampleEntry 1 1 1))) "a" <
      rank (update sampleNode (.commit 2 (sampleEntry 2 2 2))) "a" := by
  rw [rank_of_some rfl, rank_of_some rfl, WithBot.coe_lt_coe]
  exact sortKey_lt_of_version_lt (by decide) _ _ _ _

end Replica

end MiniDb
