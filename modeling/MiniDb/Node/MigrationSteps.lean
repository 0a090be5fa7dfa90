/-
  What the steps of a migration do.

  `Effect` says what each label does, and to which executions; the other lemmas say, action by
  action, what happens to the record of a key at a node. An import keeps the newer of the record
  it finds and the one it brings (`get?_importAt`), and what it brings of a captured record is
  that record (`recordOf_importRecord`).
-/
import MiniDb.Node.Migration

namespace MiniDb

open Lib ShardMigrationManager

/-- A record with a version and times that count as given. -/
structure KeyMetadata.Dated (m : KeyMetadata) : Prop where
  version : 1 ≤ m.version
  updatedAt : m.updatedAt ≠ 0
  createdAt : m.createdAt ≠ 0

/-- The record, unless it has expired. -/
def unexpired (now : Time) (b : Option KeyMetadata) : Option KeyMetadata :=
  b.filter fun m => !expiredBefore m.expiresAt now

theorem unexpired_of_noExpiry {now : Time} {b : Option KeyMetadata}
    (h : ∀ m, b = some m → m.expiresAt = none) : unexpired now b = b := by
  cases b with
  | none => rfl
  | some m => simp [unexpired, Option.filter_some, h m rfl]

theorem of_unexpired {now : Time} {b : Option KeyMetadata} {m : KeyMetadata}
    (h : unexpired now b = some m) : b = some m :=
  (Option.filter_eq_some_iff.mp h).1

namespace Node

/-! ## Imports -/

theorem storeUnlessOlder_ring (n : Node) (now : Time) (u : Versioned) :
    (n.storeUnlessOlder now u).1.ring = n.ring := by
  unfold storeUnlessOlder
  dsimp only
  split <;> rfl

theorem storeUnlessOlder_migration (n : Node) (now : Time) (u : Versioned) :
    (n.storeUnlessOlder now u).1.migration = n.migration := by
  unfold migration nodeId
  rw [storeUnlessOlder_config, storeUnlessOlder_ring]

theorem fst_importAndNote (hash : String → Nat) (now : Time) (r : Node × List Versioned)
    (p : String × ImportItem) : (importAndNote hash now r p).1 = importItem now r.1 p := by
  unfold importAndNote
  dsimp only
  split <;> rfl

theorem mem_importAndNote {hash : String → Nat} {now : Time} {r : Node × List Versioned}
    {p : String × ImportItem} {u : Versioned} (h : u ∈ (importAndNote hash now r p).2) :
    u ∈ r.2 ∨ u = importRecord now p.1 p.2 := by
  unfold importAndNote at h
  dsimp only at h
  split at h
  · exact (List.mem_append.mp h).imp_right List.mem_singleton.mp
  · exact .inl h

theorem foldl_importAndNote (hash : String → Nat) (now : Time) (r : Node × List Versioned)
    (items : List (String × ImportItem)) :
    (items.foldl (importAndNote hash now) r).1 = items.foldl (importItem now) r.1 ∧
      ∀ u ∈ (items.foldl (importAndNote hash now) r).2,
        u ∈ r.2 ∨ ∃ p ∈ items, u = importRecord now p.1 p.2 := by
  induction items generalizing r with
  | nil => exact ⟨rfl, fun u hu => .inl hu⟩
  | cons p items ih =>
    obtain ⟨hnode, hmem⟩ := ih (importAndNote hash now r p)
    refine ⟨by rw [List.foldl_cons, hnode, fst_importAndNote]; rfl, fun u hu => ?_⟩
    rcases hmem u hu with h | ⟨q, hq, rfl⟩
    · rcases mem_importAndNote h with h | rfl
      · exact .inl h
      · exact .inr ⟨p, List.mem_cons_self, rfl⟩
    · exact .inr ⟨q, List.mem_cons_of_mem p hq, rfl⟩

theorem importKeys_migration (n : Node) (now : Time) (payload : Dict String ImportItem) :
    (n.importKeys now payload).migration = n.migration := by
  unfold importKeys
  generalize payload.items = items
  induction items generalizing n with
  | nil => rfl
  | cons p items ih => exact (ih _).trans (storeUnlessOlder_migration n now _)

/-- The node after an import. -/
theorem fst_handleImportKeys (hash : String → Nat) (now : Time) (n : Node)
    (payload : Dict String ImportItem) :
    (n.handleImportKeys hash now payload).1 = n.importKeys now payload :=
  (foldl_importAndNote hash now (n, []) payload.items).1

/-- What an import sends on: records it brought, to other nodes. -/
theorem mem_fanout {hash : String → Nat} {now : Time} {n : Node}
    {payload : Dict String ImportItem} {dest : String} {u : Versioned}
    (h : (dest, u) ∈ (n.handleImportKeys hash now payload).2) :
    dest ≠ n.nodeId ∧ ∃ i, payload.get? u.key = some i ∧ u = importRecord now u.key i := by
  obtain ⟨v, hv, hdest⟩ := List.mem_flatMap.mp h
  obtain ⟨r, hr, heq⟩ := List.mem_map.mp hdest
  obtain ⟨rfl, rfl⟩ := Prod.mk.inj heq
  obtain ⟨hnode, hmem⟩ := foldl_importAndNote hash now (n, []) payload.items
  constructor
  · have hne := (List.mem_filter.mp (List.mem_filter.mp hr).1).2
    rw [decide_eq_true_eq, nodeId, hnode] at hne
    have hconfig := congrArg ShardMigrationManager.localNodeId (importKeys_migration n now payload)
    exact fun hd => hne (hd.trans hconfig.symm)
  · rcases hmem v hv with hv | ⟨⟨key, i⟩, hp, rfl⟩
    · cases hv
    · exact ⟨i, (Dict.mem_items_iff payload key i).mp hp, rfl⟩

theorem get?_importKeys (n : Node) (now : Time) (payload : Dict String ImportItem) (k : String) :
    (n.importKeys now payload).store.get? k =
      match payload.get? k with
      | none => n.store.get? k
      | some i => Merge.afterStore now (importRecord now k i) (n.store.get? k) := by
  unfold importKeys
  rw [get?_foldl (fun (n : Node) k => n.store.get? k) (importItem now) Prod.fst
    (fun p b => Merge.afterStore now (importRecord now p.1 p.2) b) ?_, Dict.filter_items_key]
  · cases payload.get? k with
    | none => rfl
    | some i => rfl
  · intro s p k
    have hkey : (importRecord now p.1 p.2).key = p.1 := rfl
    rw [importItem, Merge.get?_storeUnlessOlder, hkey]
    by_cases hk : p.1 = k
    · rw [if_pos hk, if_pos hk.symm]
    · rw [if_neg hk, if_neg (Ne.symm hk)]

/-- An imported item is the record it was made from. -/
theorem recordOf_importRecord {i : KVStore.Item} (h : (KVStore.recordOf i).Dated) (now : Time)
    (key : String) :
    Merge.recordOf (importRecord now key (payloadItem i)) = KVStore.recordOf i := by
  have hupdated : i.updatedAt ≠ 0 := h.updatedAt
  have hcreated : i.createdAt ≠ 0 := h.createdAt
  simp [Merge.recordOf, importRecord, payloadItem, orElse, hupdated, hcreated, KVStore.recordOf]

/-- Storing a record again where it is changes nothing. -/
theorem storeUnlessOlder_same {n : Node} {u : Versioned} (now : Time) (hu : u.version ≠ 0)
    (hx : u.expiresAt = none) (h : n.store.get? u.key = some (Merge.recordOf u)) :
    (n.storeUnlessOlder now u).1.store = n.store := by
  have hread : n.store.getWithMetadata now u.key = (n.store, some (Merge.recordOf u)) := by
    unfold KVStore.getWithMetadata
    simp [h, Merge.recordOf, hx]
  have hrecord : setRecord now (n.store.get? u.key) u.value u.setArgs = Merge.recordOf u :=
    setRecord_of_given now _ u.value hu _ _ _ _
  unfold storeUnlessOlder
  rw [hread]
  dsimp only
  split
  · rfl
  · show KVStore.set _ _ _ _ _ = _
    unfold KVStore.set
    rw [hrecord, Dict.set_of_get? h]

theorem importKeys_same {n : Node} (now : Time) {payload : Dict String ImportItem}
    (h : ∀ key i, payload.get? key = some i → (importRecord now key i).version ≠ 0 ∧
      (importRecord now key i).expiresAt = none ∧
      n.store.get? key = some (Merge.recordOf (importRecord now key i))) :
    (n.importKeys now payload).store = n.store := by
  have hitems : ∀ p ∈ payload.items, (importRecord now p.1 p.2).version ≠ 0 ∧
      (importRecord now p.1 p.2).expiresAt = none ∧
      n.store.get? p.1 = some (Merge.recordOf (importRecord now p.1 p.2)) :=
    fun p hp => h p.1 p.2 ((Dict.mem_items_iff payload p.1 p.2).mp hp)
  unfold importKeys
  generalize payload.items = items at hitems ⊢
  clear h
  induction items generalizing n with
  | nil => rfl
  | cons p items ih =>
    obtain ⟨hv, hx, hp⟩ := hitems p List.mem_cons_self
    have hsame : (importItem now n p).store = n.store :=
      storeUnlessOlder_same now hv hx hp
    rw [List.foldl_cons, ih, hsame]
    intro q hq
    rw [hsame]
    exact hitems q (List.mem_cons_of_mem p hq)

theorem get?_deleteMigratedKey (n : Node) (now : Time) (key k : String) :
    (n.deleteMigratedKey now key).store.get? k = if k = key then none else n.store.get? k := by
  unfold deleteMigratedKey
  dsimp only
  rw [KVStore.get?_delete]
  by_cases hk : k = key
  · rw [if_pos hk, if_pos hk]
  · rw [if_neg hk, if_neg hk, KVStore.get?_getWithMetadata, if_neg hk]

theorem get?_deliver_replicaSet (n : Node) (now : Time) (u : Versioned) (k : String) :
    (Merge.deliver n (now, .replicaSet u)).store.get? k =
      if k = u.key then Merge.afterStore now u (n.store.get? k) else n.store.get? k :=
  Merge.get?_storeUnlessOlder n now u k

end Node

/-- What is left of a dated item that is imported over `b`. -/
theorem Merge.afterStore_import {i : KVStore.Item} (h : (KVStore.recordOf i).Dated) (now : Time)
    (key : String) (b : Option KeyMetadata) :
    afterStore now (Node.importRecord now key (Node.payloadItem i)) b =
      keepNewer KeyMetadata.sortKey (unexpired now b) (KVStore.recordOf i) := by
  have hversion : (Node.importRecord now key (Node.payloadItem i)).version ≠ 0 := by
    have : 1 ≤ i.version := h.version
    show i.version ≠ 0
    omega
  rw [afterStore_eq now hversion, Node.recordOf_importRecord h]
  rfl

namespace Migrations

variable {hash : String → Nat}

/-! ## The record of a key at a node -/

/-- The record that a node stores under a key. -/
def record (s : Migrations) (n k : String) : Option KeyMetadata := (s.nodes n).store.get? k

@[simp] theorem record_setRunning (s : Migrations) (n : String) (e : Execution) (x k : String) :
    (s.setRunning n e).record x k = s.record x k := rfl

theorem record_setNode (s : Migrations) (n : String) (v : Node) (x k : String) :
    (s.setNode n v).record x k = if x = n then v.store.get? k else s.record x k := by
  unfold record setNode
  by_cases hx : x = n
  · subst hx
    simp
  · simp [hx]

theorem record_captureAt (s : Migrations) (n : String) (now : Time) (x k : String) :
    (s.captureAt n now).record x k =
      if x = n then unexpired now (s.record x k) else s.record x k := by
  unfold captureAt
  rw [record_setNode]
  by_cases hx : x = n
  · subst hx
    rw [if_pos rfl, if_pos rfl]
    exact KVStore.get?_cleanupExpired _ now k
  · rw [if_neg hx, if_neg hx]

theorem get?_capturedAt (s : Migrations) (n : String) (now : Time) (k : String) :
    (s.capturedAt n now).get? k = (unexpired now (s.record n k)).map KVStore.itemOf :=
  KVStore.get?_getAllData _ now k

theorem record_importAt (s : Migrations) (now : Time) (target : String)
    (batch : Dict String KVStore.Item) (x k : String) :
    (s.importAt hash now target batch).record x k =
      if x = target then
        match batch.get? k with
        | none => s.record x k
        | some i =>
          Merge.afterStore now (Node.importRecord now k (Node.payloadItem i)) (s.record x k)
      else s.record x k := by
  unfold importAt
  dsimp only
  refine (record_setNode s target _ x k).trans ?_
  by_cases hx : x = target
  · subst hx
    rw [if_pos rfl, if_pos rfl, Node.fst_handleImportKeys, Node.get?_importKeys,
      Dict.get?_mapVals]
    cases batch.get? k with
    | none => rfl
    | some i => rfl
  · rw [if_neg hx, if_neg hx]

theorem store_importAt (s : Migrations) (now : Time) (target : String)
    (batch : Dict String KVStore.Item) (x : String) :
    ((s.importAt hash now target batch).nodes x).store =
      if x = target then ((s.nodes x).importKeys now (batch.mapVals Node.payloadItem)).store
      else (s.nodes x).store := by
  have hnode := Node.fst_handleImportKeys hash now (s.nodes target) (batch.mapVals Node.payloadItem)
  unfold importAt setNode
  by_cases hx : x = target
  · subst hx
    rw [if_pos rfl, ← hnode]
    simp
  · simp [hx]

theorem store_send (s : Migrations) (n : String) (e : Execution)
    (batch : Dict String KVStore.Item) (rest : List String) (now : Time) (outcome : SendOutcome)
    (x : String) :
    ((s.send hash n e batch rest now outcome).nodes x).store =
      if s.delivers n e outcome then
        ((s.importAt hash now e.task.targetNode batch).nodes x).store
      else (s.nodes x).store := by
  unfold send
  split <;> rfl

/-- What a send does to a record. -/
theorem record_send (s : Migrations) (n : String) (e : Execution)
    (batch : Dict String KVStore.Item) (rest : List String) (now : Time) (outcome : SendOutcome)
    (x k : String) :
    (s.send hash n e batch rest now outcome).record x k =
      if s.delivers n e outcome then
        (s.importAt hash now e.task.targetNode batch).record x k
      else s.record x k := by
  unfold send
  dsimp only
  rw [record_setRunning]
  split <;> rfl

theorem delivers_of_sends {s : Migrations} {n : String} {e : Execution} {outcome : SendOutcome}
    (h : s.sends n e outcome = true) : s.delivers n e outcome = true := by
  unfold sends at h
  unfold delivers
  simp only [Bool.and_eq_true, decide_eq_true_eq] at h ⊢
  refine ⟨h.1, ?_⟩
  rw [h.2]
  intro hne
  cases hne

/-! ## What does not change -/

/-- The migration manager of a node. -/
def manager (s : Migrations) (n : String) : ShardMigrationManager := (s.nodes n).migration

@[simp] theorem manager_setRunning (s : Migrations) (n : String) (e : Execution) (x : String) :
    (s.setRunning n e).manager x = s.manager x := rfl

theorem manager_setNode_self (s : Migrations) (n : String) (v : Node) :
    (s.setNode n v).manager n = v.migration := by
  unfold manager setNode
  simp

theorem manager_setNode {s : Migrations} {n : String} {v : Node} (h : v.migration = s.manager n)
    (x : String) : (s.setNode n v).manager x = s.manager x := by
  unfold manager at h ⊢
  unfold setNode
  by_cases hx : x = n
  · subst hx
    simpa using h
  · simp [hx]

theorem manager_importAt (s : Migrations) (now : Time) (target : String)
    (batch : Dict String KVStore.Item) (x : String) :
    (s.importAt hash now target batch).manager x = s.manager x := by
  have hnode := Node.fst_handleImportKeys hash now (s.nodes target) (batch.mapVals Node.payloadItem)
  refine manager_setNode ?_ x
  exact (congrArg Node.migration hnode).trans (Node.importKeys_migration _ now _)

variable (hash) in
theorem manager_send (s : Migrations) (n : String) (e : Execution)
    (batch : Dict String KVStore.Item) (rest : List String) (now : Time) (outcome : SendOutcome)
    (x : String) : (s.send hash n e batch rest now outcome).manager x = s.manager x := by
  unfold send
  dsimp only
  rw [manager_setRunning]
  split
  · exact manager_importAt s now _ batch x
  · rfl

theorem manager_deliver (s : Migrations) (dest : String) (now : Time) (u : Versioned)
    (x : String) :
    (s.setNode dest (Merge.deliver (s.nodes dest) (now, .replicaSet u))).manager x =
      s.manager x :=
  manager_setNode (Node.storeUnlessOlder_migration _ now u) x

theorem mem_fanout_send {s : Migrations} {n : String} {e : Execution}
    {batch : Dict String KVStore.Item} {rest : List String} {now : Time} {outcome : SendOutcome}
    {p : String × Versioned} (h : p ∈ (s.send hash n e batch rest now outcome).fanout) :
    p ∈ s.fanout ∨
      (s.delivers n e outcome = true ∧ p.1 ≠ (s.nodes e.task.targetNode).nodeId ∧
        ∃ i, batch.get? p.2.key = some i ∧
          p.2 = Node.importRecord now p.2.key (Node.payloadItem i)) := by
  unfold send at h
  dsimp only at h
  by_cases hdelivers : s.delivers n e outcome = true
  · rw [if_pos hdelivers] at h
    rcases List.mem_append.mp h with h | h
    · exact .inl h
    · obtain ⟨hne, i, hi, hu⟩ := Node.mem_fanout h
      rw [Dict.get?_mapVals] at hi
      obtain ⟨item, hitem, rfl⟩ := Option.map_eq_some_iff.mp hi
      exact .inr ⟨hdelivers, hne, item, hitem, hu⟩
  · rw [if_neg hdelivers] at h
    exact .inl h

/-! ## What each label does -/

variable (hash) in
inductive Effect (s : Migrations) : MigrationLabel → Migrations → Prop
  | rebalance (n : String) (now : Time) : Effect s (.rebalance n now) (s.rebalance hash n now)
  | join (n newNode : String) (now : Time) :
      Effect s (.join n newNode now) (s.join hash n newNode now)
  | membership (n : String) (m : MembershipManager) :
      Effect s (.membership n m) (s.setNode n { s.nodes n with membership := m })
  | start {n : String} {i : Nat} {task : MigrationTask} (now : Time) (hidle : s.isIdle n = true)
      (htask : (s.waiting n)[i]? = some task) : Effect s (.start n i now) (s.start n i task now)
  | send {n : String} {e : Execution} {keys : List String} (now : Time) (outcome : SendOutcome)
      (hrun : s.running n = some e) (hphase : e.phase = .sending keys)
      (hbatch : (nextBatch e.localKeys Dict.empty keys).1.length ≠ 0) :
      Effect s (.send n now outcome)
        (s.send hash n e (nextBatch e.localKeys Dict.empty keys).1
          (nextBatch e.localKeys Dict.empty keys).2 now outcome)
  | endLoop {n : String} {e : Execution} {keys : List String}
      (hrun : s.running n = some e) (hphase : e.phase = .sending keys)
      (hbatch : (nextBatch e.localKeys Dict.empty keys).1.length = 0) :
      Effect s (.endLoop n) (s.setRunning n
        { e with phase := .deleting ((s.nodes n).migration.nonReplicaKeys hash e.task.keys) })
  | delete {n key : String} {e : Execution} {keys : List String} (now : Time)
      (hrun : s.running n = some e) (hphase : e.phase = .deleting (key :: keys)) :
      Effect s (.delete n now) ((s.setNode n ((s.nodes n).deleteMigratedKey now key)).setRunning n
        { e with phase := .deleting keys })
  | finish {n : String} {e : Execution} (hrun : s.running n = some e)
      (hphase : e.phase = .deleting []) : Effect s (.finish n) (s.setRunning n e.complete)
  | fanout {i : Nat} {dest : String} {u : Versioned} (now : Time)
      (hmem : (dest, u) ∈ s.fanout) :
      Effect s (.fanout i now) (s.setNode dest (Merge.deliver (s.nodes dest) (now, .replicaSet u)))
  | set (n : String) (now : Time) {e : LogEntry} (hset : e.command = .set) :
      Effect s (.set n now e) (s.setNode n ((s.nodes n).applyLogEntry now e))

theorem effect_of_step {s s' : Migrations} {l : MigrationLabel} (h : s.step hash l = some s') :
    Effect hash s l s' := by
  cases l with
  | rebalance n now =>
    obtain rfl := Option.some.inj h
    exact .rebalance n now
  | join n newNode now =>
    obtain rfl := Option.some.inj h
    exact .join n newNode now
  | membership n m =>
    obtain rfl := Option.some.inj h
    exact .membership n m
  | start n i now =>
    simp only [step] at h
    split at h
    · rename_i hidle
      obtain ⟨task, htask, rfl⟩ := Option.map_eq_some_iff.mp h
      exact .start now hidle htask
    · cases h
  | send n now outcome =>
    obtain ⟨e, hrun, h⟩ := Option.bind_eq_some_iff.mp h
    split at h
    · rename_i keys hphase
      dsimp only at h
      split at h
      · cases h
      · rename_i hbatch
        obtain rfl := Option.some.inj h
        exact .send now outcome hrun hphase hbatch
    · cases h
  | endLoop n =>
    obtain ⟨e, hrun, h⟩ := Option.bind_eq_some_iff.mp h
    split at h
    · rename_i keys hphase
      split at h
      · rename_i hbatch
        obtain rfl := Option.some.inj h
        exact .endLoop hrun hphase hbatch
      · cases h
    · cases h
  | delete n now =>
    obtain ⟨e, hrun, h⟩ := Option.bind_eq_some_iff.mp h
    split at h
    · rename_i key keys hphase
      obtain rfl := Option.some.inj h
      exact .delete now hrun hphase
    · cases h
  | finish n =>
    obtain ⟨e, hrun, h⟩ := Option.bind_eq_some_iff.mp h
    split at h
    · rename_i hphase
      obtain rfl := Option.some.inj h
      exact .finish hrun hphase
    · cases h
  | fanout i now =>
    obtain ⟨⟨dest, u⟩, hget, h⟩ := Option.bind_eq_some_iff.mp h
    obtain rfl := Option.some.inj h
    exact .fanout now (List.mem_of_getElem? hget)
  | set n now e =>
    simp only [step] at h
    split at h
    · rename_i hset
      obtain rfl := Option.some.inj h
      exact .set n now hset
    · cases h

theorem start_of_step {s t : Migrations} {source : String} {task : MigrationTask} {i : Nat}
    {now : Time} (htask : (s.waiting source)[i]? = some task)
    (h : s.step hash (.start source i now) = some t) : t = s.start source i task now := by
  cases effect_of_step h with
  | start _ _ htask' => rw [Option.some.inj (htask.symm.trans htask')]

/-! ## What a step does to a record -/

/-- A record may be on its way to `n`: sent on by an import, or captured by a task that sends. -/
inductive Arrives (s : Migrations) (n : String) (now : Time) : Versioned → Prop
  | sentOn {u : Versioned} (h : (n, u) ∈ s.fanout) : Arrives s n now u
  | captured {source key : String} {e : Execution} {rest : List String} {i : KVStore.Item}
      (hrun : s.running source = some e) (hphase : e.phase = .sending rest)
      (hi : e.localKeys.get? key = some i) :
      Arrives s n now (Node.importRecord now key (Node.payloadItem i))

/-- All that can happen to the record of a key at a node. -/
inductive RecordStep (s : Migrations) (l : MigrationLabel) (n k : String) :
    Option KeyMetadata → Prop
  | same : RecordStep s l n k (s.record n k)
  | expired (now : Time) : RecordStep s l n k (unexpired now (s.record n k))
  | arrived {now : Time} {u : Versioned} (harrives : s.Arrives n now u) (hkey : u.key = k) :
      RecordStep s l n k (Merge.afterStore now u (s.record n k))
  | deleted {now : Time} {e : Execution} {rest : List String} (hl : l = .delete n now)
      (hrun : s.running n = some e) (hphase : e.phase = .deleting (k :: rest)) :
      RecordStep s l n k none
  | written {now : Time} {e : LogEntry} (hl : l = .set n now e) (hkey : e.key = k)
      (m : KeyMetadata) : RecordStep s l n k (some m)

theorem recordStep_captureAt (s : Migrations) (l : MigrationLabel) (x : String) (now : Time)
    (n k : String) : RecordStep s l n k ((s.captureAt x now).record n k) := by
  rw [record_captureAt]
  split
  · exact .expired now
  · exact .same

theorem recordStep {s s' : Migrations} {l : MigrationLabel} (h : s.step hash l = some s')
    (n k : String) : RecordStep s l n k (s'.record n k) := by
  cases effect_of_step h with
  | rebalance x now => exact recordStep_captureAt s _ x now n k
  | join x newNode now =>
    have hrecord : (s.setNode x { s.nodes x with
        ring := (s.nodes x).ring.addNode hash newNode }).record n k = s.record n k := by
      rw [record_setNode]
      by_cases hx : n = x
      · rw [if_pos hx, hx]
        rfl
      · rw [if_neg hx]
    change RecordStep s _ n k ((captureAt _ x now).record n k)
    rw [record_captureAt, hrecord]
    split
    · exact .expired now
    · exact .same
  | membership x m =>
    rw [record_setNode]
    by_cases hx : n = x
    · subst hx
      rw [if_pos rfl]
      exact .same
    · rw [if_neg hx]
      exact .same
  | @start x i task now hidle htask => exact recordStep_captureAt s _ x now n k
  | @send x e rest now outcome hrun hphase hbatch =>
    rw [record_send]
    split
    · rw [record_importAt]
      split
      · cases hget : (nextBatch e.localKeys Dict.empty rest).1.get? k with
        | none => exact .same
        | some i =>
          have hi := nextBatch_items rest (fun _ _ h => by cases h) k i hget
          exact .arrived (.captured hrun hphase hi) rfl
      · exact .same
    · exact .same
  | endLoop hrun hphase hbatch => exact .same
  | @delete x key e rest now hrun hphase =>
    rw [record_setRunning, record_setNode]
    by_cases hx : n = x
    · subst hx
      rw [if_pos rfl, Node.get?_deleteMigratedKey]
      by_cases hk : k = key
      · subst hk
        rw [if_pos rfl]
        exact .deleted rfl hrun hphase
      · rw [if_neg hk]
        exact .same
    · rw [if_neg hx]
      exact .same
  | finish hrun hphase => exact .same
  | @fanout i dest u now hmem =>
    rw [record_setNode]
    by_cases hx : n = dest
    · subst hx
      rw [if_pos rfl, Node.get?_deliver_replicaSet]
      by_cases hk : k = u.key
      · rw [if_pos hk]
        exact .arrived (.sentOn hmem) hk.symm
      · rw [if_neg hk]
        exact .same
    · rw [if_neg hx]
      exact .same
  | @set x now e hset =>
    rw [record_setNode]
    by_cases hx : n = x
    · subst hx
      rw [if_pos rfl, Replica.get?_applyLogEntry hset]
      by_cases hk : e.key = k
      · rw [if_pos hk]
        exact .written rfl hk _
      · rw [if_neg hk]
        exact .same
    · rw [if_neg hx]
      exact .same

end Migrations

end MiniDb
