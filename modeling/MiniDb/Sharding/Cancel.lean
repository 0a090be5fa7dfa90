/-
  Cancelling a migration (`sharding/migration.py`): `cancel_migration` against the migration loop
  and the steps of `_execute_migration`, in any interleaving.

  `cancel_migration` only writes the state of the task object. The loop reads it once, when it
  collects the pending tasks, and `_execute_migration` writes states without reading them. Hence
  `cancelled_for_good_iff`: a cancellation lasts exactly if it falls on a task that the loop has
  not collected.

  Task objects are known by a number, not by their id: ids are made of node names and whole
  seconds, so that a new task can take the place of an older one under its id.

  One loop runs at a time. Not modelled: the times of a task, the history and the statistics.
-/
import MiniDb.Lib.Steps
import MiniDb.Sharding.Migration
import Mathlib.Logic.Function.Basic

namespace MiniDb

open Lib ShardMigrationManager

namespace MigrationCancel

/-! ## The manager and its loop -/

structure IdentifiedTask extends MigrationTask where
  taskId : String

/-- Where `_execute_migration` stands. -/
inductive Phase where
  /-- IN_PROGRESS; the local keys are not captured yet. -/
  | capturing
  /-- The keys the loop has not come to. -/
  | sending (keys : List String)
  /-- A batch is with `_send_keys`. -/
  | awaiting (batch : Dict String KVStore.Item) (keys : List String)
  /-- All is sent. -/
  | removing
  /-- The keys are with `_delete_keys`, or there was nothing to delete. -/
  | removed
  /-- An exception is on its way. -/
  | failing (error : String)
  /-- The last state is written. -/
  | archiving

structure Execution where
  task : Nat
  localKeys : Dict String KVStore.Item := .empty
  phase : Phase := .capturing

/-- Which callbacks are set. -/
structure Callbacks where
  getLocalKeys : Bool := false
  sendKeys : Bool := false
  deleteKeys : Bool := false

structure State where
  mgr : ShardMigrationManager
  callbacks : Callbacks := {}
  /-- The task objects; `created` of them are there. -/
  tasks : Nat → IdentifiedTask
  created : Nat := 0
  activeMigrations : Dict String Nat := .empty
  /-- What is left of `pending`, the list that the loop works through. -/
  pending : List Nat := []
  executing : Option Execution := none

namespace State

def setTask (s : State) (i : Nat) (task : IdentifiedTask) : State :=
  { s with tasks := Function.update s.tasks i task }

@[simp] theorem tasks_setTask_self (s : State) (i : Nat) (task : IdentifiedTask) :
    (s.setTask i task).tasks i = task := Function.update_self ..

theorem tasks_setTask_ne (s : State) {i j : Nat} (task : IdentifiedTask) (h : j ≠ i) :
    (s.setTask i task).tasks j = s.tasks j := Function.update_of_ne h ..

/-- `_active_migrations[task_id] = task`, for a new task. -/
def create (s : State) (taskId targetNode : String) (keys : List String) : State :=
  { s.setTask s.created
      { taskId := taskId, sourceNode := s.mgr.localNodeId, targetNode := targetNode, keys := keys }
    with
    created := s.created + 1
    activeMigrations := s.activeMigrations.set taskId s.created }

/-- `cancel_migration` -/
def cancelMigration (s : State) (taskId : String) : State × Bool :=
  match s.activeMigrations.get? taskId with
  | some i =>
    if (s.tasks i).state = .pending ∨ (s.tasks i).state = .inProgress then
      (s.setTask i { s.tasks i with state := .cancelled }, true)
    else (s, false)
  | none => (s, false)

/-- The loop collects the pending tasks. -/
def collect (s : State) : State :=
  { s with
    pending := (s.activeMigrations.items.map Prod.snd).filter fun i =>
      (s.tasks i).state = .pending }

/-- The first lines of `_execute_migration`. -/
def begin (s : State) (i : Nat) (rest : List Nat) : State :=
  if !s.callbacks.getLocalKeys || !s.callbacks.sendKeys then
    { s.setTask i { s.tasks i with state := .failed, error := some "Missing callbacks" } with
      pending := rest }
  else
    { s.setTask i { s.tasks i with state := .inProgress } with
      pending := rest
      executing := some { task := i } }

end State

/-! ## The steps of an execution -/

inductive Work where
  /-- `_get_local_keys()` returns. -/
  | capture (localKeys : Dict String KVStore.Item)
  /-- Up to the next call of `_send_keys`. -/
  | send
  /-- `_send_keys` returns. -/
  | answer (ok : Bool)
  /-- The call of `_delete_keys`. -/
  | delete
  | complete
  /-- A callback raises. -/
  | raise (error : String)
  | fail
  | archive

variable (hash : String → Nat)

def work (s : State) (e : Execution) : Work → Option State
  | .capture localKeys =>
    match e.phase with
    | .capturing => some { s with
        executing := some ⟨e.task, localKeys, .sending (s.tasks e.task).keys⟩ }
    | _ => none
  | .send =>
    match e.phase with
    | .sending keys =>
      let (batch, rest) := nextBatch e.localKeys .empty keys
      if batch.length = 0 then some { s with executing := some { e with phase := .removing } }
      else some { s with executing := some { e with phase := .awaiting batch rest } }
    | _ => none
  | .answer ok =>
    match e.phase with
    | .awaiting batch rest =>
      let task := s.tasks e.task
      if ok then
        some { s.setTask e.task { task with progress := task.progress + batch.length } with
          executing := some { e with phase := .sending rest } }
      else some { s with
        executing := some { e with phase := .failing (sendError task.targetNode batch) } }
    | _ => none
  | .delete =>
    match e.phase with
    | .removing => some { s with executing := some { e with phase := .removed } }
    | _ => none
  | .complete =>
    match e.phase with
    | .removed => some { s.setTask e.task { s.tasks e.task with state := .completed } with
        executing := some { e with phase := .archiving } }
    | _ => none
  | .raise error =>
    match e.phase with
    | .capturing | .awaiting _ _ | .removed =>
      some { s with executing := some { e with phase := .failing error } }
    | _ => none
  | .fail =>
    match e.phase with
    | .failing error =>
      some { s.setTask e.task { s.tasks e.task with state := .failed, error := some error } with
        executing := some { e with phase := .archiving } }
    | _ => none
  | .archive =>
    match e.phase with
    | .archiving => some { s with
        activeMigrations := s.activeMigrations.erase (s.tasks e.task).taskId
        executing := none }
    | _ => none

inductive Event where
  | setCallbacks (callbacks : Callbacks)
  /-- The topology changes. -/
  | setRing (ring : ConsistentHashRing)
  /-- A join or a rebalance registers a task. -/
  | create (taskId targetNode : String) (keys : List String)
  | cancel (taskId : String)
  | collect
  /-- The loop takes the next task it has collected. -/
  | start
  | work (w : Work)

def step (s : State) : Event → Option State
  | .setCallbacks callbacks => some { s with callbacks := callbacks }
  | .setRing ring => some { s with mgr := { s.mgr with ring := ring } }
  | .create taskId targetNode keys => some (s.create taskId targetNode keys)
  | .cancel taskId => some (s.cancelMigration taskId).1
  | .collect =>
    match s.executing, s.pending with
    | none, [] => some s.collect
    | _, _ => none
  | .start =>
    match s.executing, s.pending with
    | none, i :: rest => some (s.begin i rest)
    | _, _ => none
  | .work w => s.executing.bind fun e => work s e w

/-- A new manager; what stands for the task objects that are not there does not matter. -/
def start (mgr : ShardMigrationManager) (noTask : IdentifiedTask) : State :=
  { mgr := mgr, tasks := fun _ => noTask }

/-! ## What a cancellation owes -/

/-- The batch that an event hands to `_send_keys`, and the task it is of. -/
def batchSent (s : State) : Event → Option (Nat × Dict String KVStore.Item)
  | .work .send =>
    match s.executing with
    | some ⟨i, localKeys, .sending keys⟩ =>
      let batch := (nextBatch localKeys .empty keys).1
      if batch.length = 0 then none else some (i, batch)
    | _ => none
  | _ => none

/-- The keys that an event hands to `_delete_keys`, and the task they are of. -/
def keysDeleted (s : State) : Event → Option (Nat × List String)
  | .work .delete =>
    match s.executing with
    | some ⟨i, _, .removing⟩ =>
      let keys := s.mgr.nonReplicaKeys hash (s.tasks i).keys
      if s.callbacks.deleteKeys ∧ keys ≠ [] then some (i, keys) else none
    | _ => none
  | _ => none

/-- The event sends and deletes nothing for the task. -/
def LeavesAlone (i : Nat) (s : State) (ev : Event) : Prop :=
  (∀ batch, batchSent s ev ≠ some (i, batch)) ∧ ∀ keys, keysDeleted hash s ev ≠ some (i, keys)

/-- Whatever happens from here on, the task stays cancelled, and nothing is sent or deleted for
    it. -/
def StaysCancelled (s : State) (i : Nat) : Prop :=
  ∀ evs t, exec step s evs = some t →
    (t.tasks i).state = .cancelled ∧ Along step (LeavesAlone hash i) s evs

/-! ## A task that was not collected -/

/-- The task is cancelled, and the loop does not have it. -/
structure OutOfReach (s : State) (i : Nat) : Prop where
  state : (s.tasks i).state = .cancelled
  pending : i ∉ s.pending
  executing : ∀ e, s.executing = some e → e.task ≠ i
  created : i < s.created

theorem OutOfReach.leavesAlone {s : State} {i : Nat} (h : OutOfReach s i) (ev : Event) :
    LeavesAlone hash i s ev := by
  constructor
  · intro batch hbatch
    unfold batchSent at hbatch
    split at hbatch
    · split at hbatch
      · rename_i he
        dsimp only at hbatch
        split at hbatch
        · cases hbatch
        · exact h.executing _ he (Prod.mk.inj (Option.some.inj hbatch)).1
      · cases hbatch
    · cases hbatch
  · intro keys hkeys
    unfold keysDeleted at hkeys
    split at hkeys
    · split at hkeys
      · rename_i he
        dsimp only at hkeys
        split at hkeys
        · exact h.executing _ he (Prod.mk.inj (Option.some.inj hkeys)).1
        · cases hkeys
      · cases hkeys
    · cases hkeys

/-- The last state of a task. -/
def Finished (st : MigrationState) : Prop := st = .completed ∨ st = .failed

/-- What a step of an execution can change: its own task, and where it stands. -/
structure WorkEffect (e : Execution) (s s' : State) : Prop where
  pending : s'.pending = s.pending
  created : s'.created = s.created
  active : ∀ taskId i, s'.activeMigrations.get? taskId = some i →
    s.activeMigrations.get? taskId = some i
  tasks : ∀ j, j ≠ e.task → s'.tasks j = s.tasks j
  executing : ∀ e', s'.executing = some e' →
    e'.task = e.task ∧ (e'.phase = .archiving → Finished (s'.tasks e.task).state)

theorem WorkEffect.of_moved {s : State} {e e' : Execution} (htask : e'.task = e.task)
    (hphase : e'.phase ≠ .archiving) : WorkEffect e s { s with executing := some e' } := by
  refine ⟨rfl, rfl, fun _ _ h => h, fun _ _ => rfl, fun e'' h => ?_⟩
  cases h
  exact ⟨htask, fun h => absurd h hphase⟩

theorem WorkEffect.of_written {s : State} {e e' : Execution} (task : IdentifiedTask)
    (htask : e'.task = e.task) (hphase : e'.phase = .archiving → Finished task.state) :
    WorkEffect e s { s.setTask e.task task with executing := some e' } := by
  refine ⟨rfl, rfl, fun _ _ h => h, fun j hj => Function.update_of_ne hj _ _, fun e'' h => ?_⟩
  cases h
  refine ⟨htask, fun h => ?_⟩
  show Finished (Function.update s.tasks e.task task e.task).state
  rw [Function.update_self]
  exact hphase h

theorem work_effect {s s' : State} {e : Execution} {w : Work} (hs : work s e w = some s') :
    WorkEffect e s s' := by
  cases w with
  | capture localKeys =>
    simp only [work] at hs
    split at hs
    · cases hs
      exact .of_moved rfl nofun
    · cases hs
  | send =>
    simp only [work] at hs
    split at hs
    · split at hs <;> cases hs
      · exact .of_moved rfl nofun
      · exact .of_moved rfl nofun
    · cases hs
  | answer ok =>
    simp only [work] at hs
    split at hs
    · split at hs <;> cases hs
      · exact .of_written _ rfl nofun
      · exact .of_moved rfl nofun
    · cases hs
  | delete =>
    simp only [work] at hs
    split at hs
    · cases hs
      exact .of_moved rfl nofun
    · cases hs
  | complete =>
    simp only [work] at hs
    split at hs
    · cases hs
      exact .of_written _ rfl fun _ => .inl rfl
    · cases hs
  | raise error =>
    simp only [work] at hs
    split at hs
    · cases hs
      exact .of_moved rfl nofun
    · cases hs
      exact .of_moved rfl nofun
    · cases hs
      exact .of_moved rfl nofun
    · cases hs
  | fail =>
    simp only [work] at hs
    split at hs
    · cases hs
      exact .of_written _ rfl fun _ => .inr rfl
    · cases hs
  | archive =>
    simp only [work] at hs
    split at hs
    · cases hs
      refine ⟨rfl, rfl, fun taskId i h => ?_, fun _ _ => rfl, nofun⟩
      rw [Dict.get?_erase] at h
      split at h
      · cases h
      · exact h
    · cases hs

/-- A step of the loop itself. -/
theorem step_start {s s' : State} (hs : step s .start = some s') :
    s.executing = none ∧ ∃ i rest, s.pending = i :: rest ∧ s' = s.begin i rest := by
  simp only [step] at hs
  split at hs
  · rename_i hexec hpending
    exact ⟨hexec, _, _, hpending, (Option.some.inj hs).symm⟩
  · cases hs

theorem step_collect {s s' : State} (hs : step s .collect = some s') :
    s.executing = none ∧ s.pending = [] ∧ s' = s.collect := by
  simp only [step] at hs
  split at hs
  · rename_i hexec hpending
    exact ⟨hexec, hpending, (Option.some.inj hs).symm⟩
  · cases hs

theorem step_work {s s' : State} {w : Work} (hs : step s (.work w) = some s') :
    ∃ e, s.executing = some e ∧ WorkEffect e s s' := by
  obtain ⟨e, he, hw⟩ := Option.bind_eq_some_iff.mp hs
  exact ⟨e, he, work_effect hw⟩

theorem mem_collect {s : State} {i : Nat} (h : i ∈ s.collect.pending) :
    (∃ taskId, s.activeMigrations.get? taskId = some i) ∧ (s.tasks i).state = .pending := by
  obtain ⟨hmem, hstate⟩ := List.mem_filter.mp h
  obtain ⟨⟨taskId, j⟩, hitem, rfl⟩ := List.mem_map.mp hmem
  exact ⟨⟨taskId, (Dict.mem_items_iff _ _ _).mp hitem⟩, of_decide_eq_true hstate⟩

/-- Writing another task keeps this one out of reach. -/
theorem OutOfReach.setTask {s : State} {i j : Nat} (h : OutOfReach s i) (task : IdentifiedTask)
    (hne : i ≠ j) : OutOfReach (s.setTask j task) i := by
  refine ⟨?_, h.pending, h.executing, h.created⟩
  rw [State.tasks_setTask_ne _ _ hne]
  exact h.state

theorem outOfReach_step {s s' : State} {i : Nat} {ev : Event} (h : OutOfReach s i)
    (hs : step s ev = some s') : OutOfReach s' i := by
  cases ev with
  | setCallbacks callbacks =>
    cases hs
    exact ⟨h.state, h.pending, h.executing, h.created⟩
  | setRing ring =>
    cases hs
    exact ⟨h.state, h.pending, h.executing, h.created⟩
  | create taskId targetNode keys =>
    cases hs
    exact ⟨(h.setTask _ (Nat.ne_of_lt h.created)).state, h.pending, h.executing,
      Nat.lt_succ_of_lt h.created⟩
  | cancel taskId =>
    cases hs
    unfold State.cancelMigration
    split
    · rename_i j hj
      split
      · rename_i hstate
        have hne : i ≠ j := by
          rintro rfl
          rw [h.state] at hstate
          simp at hstate
        exact h.setTask _ hne
      · exact h
    · exact h
  | collect =>
    obtain ⟨hexec, -, rfl⟩ := step_collect hs
    refine ⟨h.state, fun hmem => ?_, h.executing, h.created⟩
    have := (mem_collect hmem).2
    rw [h.state] at this
    cases this
  | start =>
    obtain ⟨hexec, j, rest, hpending, rfl⟩ := step_start hs
    have hmem := h.pending
    rw [hpending, List.mem_cons, not_or] at hmem
    unfold State.begin
    split
    · exact ⟨(h.setTask _ hmem.1).state, hmem.2, h.executing, h.created⟩
    · refine ⟨(h.setTask _ hmem.1).state, hmem.2, fun e he => ?_, h.created⟩
      cases he
      exact fun heq => hmem.1 heq.symm
  | work w =>
    obtain ⟨e, he, heffect⟩ := step_work hs
    refine ⟨?_, heffect.pending ▸ h.pending, fun e' he' => ?_, heffect.created ▸ h.created⟩
    · rw [heffect.tasks i (h.executing e he).symm]
      exact h.state
    · rw [(heffect.executing e' he').1]
      exact h.executing e he

theorem OutOfReach.staysCancelled {s : State} {i : Nat} (h : OutOfReach s i) :
    StaysCancelled hash s i := by
  intro evs t ht
  refine ⟨(exec_inv (I := fun s => OutOfReach s i) (fun _ _ _ => outOfReach_step) h ht).state, ?_⟩
  exact along_inv (P := fun _ _ => True) (I := fun s => OutOfReach s i)
    (fun _ _ _ h _ => outOfReach_step h) (fun _ ev h _ => h.leavesAlone hash ev) h
    (along_of_forall (fun _ _ _ => trivial) s)

/-! ## A task that was collected -/

/-- The references are to objects that are there, and an execution ends with a last state. -/
structure Known (s : State) : Prop where
  active : ∀ taskId i, s.activeMigrations.get? taskId = some i → i < s.created
  pending : ∀ i ∈ s.pending, i < s.created
  executing : ∀ e, s.executing = some e → e.task < s.created
  archiving : ∀ e, s.executing = some e → e.phase = .archiving → Finished (s.tasks e.task).state

/-- Writing a task whose execution has not ended keeps all known. -/
theorem Known.setTask {s : State} {j : Nat} (h : Known s) (task : IdentifiedTask)
    (hj : ∀ e, s.executing = some e → e.phase = .archiving → e.task ≠ j) :
    Known (s.setTask j task) := by
  refine ⟨h.active, h.pending, h.executing, fun e he hphase => ?_⟩
  rw [State.tasks_setTask_ne _ _ (hj e he hphase)]
  exact h.archiving e he hphase

theorem known_step {s s' : State} {ev : Event} (h : Known s) (hs : step s ev = some s') :
    Known s' := by
  cases ev with
  | setCallbacks callbacks =>
    cases hs
    exact ⟨h.active, h.pending, h.executing, h.archiving⟩
  | setRing ring =>
    cases hs
    exact ⟨h.active, h.pending, h.executing, h.archiving⟩
  | create taskId targetNode keys =>
    cases hs
    refine ⟨fun id i hi => ?_, fun i hi => Nat.lt_succ_of_lt (h.pending i hi),
      fun e he => Nat.lt_succ_of_lt (h.executing e he),
      (h.setTask _ fun e he _ => Nat.ne_of_lt (h.executing e he)).archiving⟩
    change (s.activeMigrations.set taskId s.created).get? id = some i at hi
    show i < s.created + 1
    rw [Dict.get?_set] at hi
    split at hi
    · cases hi
      exact Nat.lt_succ_self _
    · exact Nat.lt_succ_of_lt (h.active id i hi)
  | cancel taskId =>
    cases hs
    unfold State.cancelMigration
    split
    · rename_i j hj
      split
      · rename_i hstate
        refine h.setTask _ fun e he hphase => ?_
        rintro rfl
        rcases h.archiving e he hphase with hf | hf <;> simp [hf] at hstate
      · exact h
    · exact h
  | collect =>
    obtain ⟨hexec, -, rfl⟩ := step_collect hs
    refine ⟨h.active, fun i hi => ?_, h.executing, h.archiving⟩
    obtain ⟨⟨taskId, hi⟩, -⟩ := mem_collect hi
    exact h.active taskId i hi
  | start =>
    obtain ⟨hexec, j, rest, hpending, rfl⟩ := step_start hs
    have hmem : ∀ i ∈ rest, i < s.created := fun i hi =>
      h.pending i (hpending ▸ List.mem_cons_of_mem j hi)
    unfold State.begin
    split
    · refine ⟨h.active, hmem, h.executing, fun e he => ?_⟩
      cases hexec.symm.trans he
    · refine ⟨h.active, hmem, fun e he => ?_, fun e he hphase => ?_⟩
      · cases he
        exact h.pending j (hpending ▸ List.mem_cons_self)
      · cases he
        cases hphase
  | work w =>
    obtain ⟨e, he, heffect⟩ := step_work hs
    refine ⟨fun id i hi => ?_, fun i hi => ?_, fun e' he' => ?_, fun e' he' hphase => ?_⟩
    · rw [heffect.created]
      exact h.active id i (heffect.active id i hi)
    · rw [heffect.created]
      exact h.pending i (heffect.pending ▸ hi)
    · rw [heffect.created, (heffect.executing e' he').1]
      exact h.executing e he
    · rw [(heffect.executing e' he').1]
      exact (heffect.executing e' he').2 hphase

theorem known_start (mgr : ShardMigrationManager) (noTask : IdentifiedTask) :
    Known (start mgr noTask) :=
  ⟨nofun, nofun, nofun, nofun⟩

/-- From here the execution of the task can end, and the loop goes on. -/
def Ends (s : State) (i : Nat) : Prop :=
  ∃ evs t, exec step s evs = some t ∧ t.executing = none ∧ t.pending = s.pending ∧
    Finished (t.tasks i).state

theorem Ends.of_step {s s' : State} {i : Nat} {ev : Event} (hs : step s ev = some s')
    (hpending : s'.pending = s.pending) (h : Ends s' i) : Ends s i := by
  obtain ⟨evs, t, ht, hexec, hrest, hfinished⟩ := h
  exact ⟨ev :: evs, t, exec_cons.mpr ⟨s', hs, ht⟩, hexec, hrest.trans hpending, hfinished⟩

theorem step_of_work {s : State} {e : Execution} (he : s.executing = some e) (w : Work) :
    step s (.work w) = work s e w := by
  unfold step
  rw [he]
  rfl

section Ends

variable {s : State} {i : Nat} {localKeys : Dict String KVStore.Item}

theorem ends_archiving (he : s.executing = some ⟨i, localKeys, .archiving⟩)
    (hfinished : Finished (s.tasks i).state) : Ends s i :=
  ⟨[.work .archive], _, exec_cons.mpr ⟨_, step_of_work he _, rfl⟩, rfl, rfl, hfinished⟩

theorem ends_failing {error : String} (he : s.executing = some ⟨i, localKeys, .failing error⟩) :
    Ends s i := by
  refine .of_step (step_of_work he .fail) rfl (ends_archiving rfl ?_)
  rw [State.tasks_setTask_self]
  exact .inr rfl

theorem ends_removed (he : s.executing = some ⟨i, localKeys, .removed⟩) : Ends s i := by
  refine .of_step (step_of_work he .complete) rfl (ends_archiving rfl ?_)
  rw [State.tasks_setTask_self]
  exact .inl rfl

theorem ends_removing (he : s.executing = some ⟨i, localKeys, .removing⟩) : Ends s i :=
  .of_step (step_of_work he .delete) rfl (ends_removed rfl)

theorem ends_awaiting {batch : Dict String KVStore.Item} {keys : List String}
    (he : s.executing = some ⟨i, localKeys, .awaiting batch keys⟩) : Ends s i :=
  .of_step (step_of_work he (.answer false)) rfl (ends_failing rfl)

theorem ends_sending {keys : List String}
    (he : s.executing = some ⟨i, localKeys, .sending keys⟩) : Ends s i := by
  have hsend := step_of_work he .send
  by_cases hbatch : (nextBatch localKeys .empty keys).1.length = 0
  · have hs : step s (.work .send) =
        some { s with executing := some ⟨i, localKeys, .removing⟩ } := by
      rw [hsend]
      simp only [work, if_pos hbatch]
    exact .of_step hs rfl (ends_removing rfl)
  · have hs : step s (.work .send) = some { s with executing := some ⟨i, localKeys,
        .awaiting (nextBatch localKeys .empty keys).1 (nextBatch localKeys .empty keys).2⟩ } := by
      rw [hsend]
      simp only [work, if_neg hbatch]
    exact .of_step hs rfl (ends_awaiting rfl)

theorem ends_capturing (he : s.executing = some ⟨i, localKeys, .capturing⟩) : Ends s i :=
  .of_step (step_of_work he (.capture .empty)) rfl (ends_sending rfl)

/-- Every execution can end. -/
theorem ends_of_executing {e : Execution} (h : Known s) (he : s.executing = some e) :
    Ends s e.task := by
  have hfinished := h.archiving e he
  obtain ⟨i, localKeys, phase⟩ := e
  cases phase with
  | capturing => exact ends_capturing he
  | sending keys => exact ends_sending he
  | awaiting batch keys => exact ends_awaiting he
  | removing => exact ends_removing he
  | removed => exact ends_removed he
  | failing error => exact ends_failing he
  | archiving => exact ends_archiving he (hfinished rfl)

end Ends

/-- A cancelled task does not stay so if some run gives it another state. -/
theorem not_staysCancelled {s t : State} {i : Nat} {evs : List Event}
    (ht : exec step s evs = some t) (hstate : (t.tasks i).state ≠ .cancelled) :
    ¬StaysCancelled hash s i := fun h => hstate (h evs t ht).1

theorem Finished.ne {st : MigrationState} (h : Finished st) : st ≠ .cancelled := by
  rintro rfl
  rcases h with h | h <;> cases h

/-- The loop can come to every task that it has collected, and then writes its state. -/
theorem reaches_pending {before rest : List Nat} {i : Nat} {s : State}
    (hexec : s.executing = none) (hpending : s.pending = before ++ i :: rest) :
    ∃ evs t, exec step s evs = some t ∧ (t.tasks i).state ≠ .cancelled := by
  induction before generalizing s with
  | nil =>
    have hs : step s .start = some (s.begin i rest) := by
      simp only [step, hexec, hpending, List.nil_append]
    refine ⟨[.start], _, exec_cons.mpr ⟨_, hs, rfl⟩, ?_⟩
    unfold State.begin
    split <;> simp
  | cons j before ih =>
    have hs : step s .start = some (s.begin j (before ++ i :: rest)) := by
      simp only [step, hexec, hpending, List.cons_append]
    by_cases hcallbacks : (!s.callbacks.getLocalKeys || !s.callbacks.sendKeys) = true
    · obtain ⟨evs, t, ht, hstate⟩ := ih (s := s.begin j (before ++ i :: rest))
        (by rw [State.begin, if_pos hcallbacks]; exact hexec)
        (by rw [State.begin, if_pos hcallbacks])
      exact ⟨.start :: evs, t, exec_cons.mpr ⟨_, hs, ht⟩, hstate⟩
    · have hbegun : (s.begin j (before ++ i :: rest)).executing = some { task := j } ∧
          (s.begin j (before ++ i :: rest)).pending = before ++ i :: rest := by
        rw [State.begin, if_neg hcallbacks]
        exact ⟨rfl, rfl⟩
      obtain ⟨evs₁, s₁, h₁, hexec₁, hpending₁, -⟩ := ends_capturing hbegun.1
      obtain ⟨evs₂, t, h₂, hstate⟩ := ih hexec₁ (hpending₁.trans hbegun.2)
      exact ⟨.start :: (evs₁ ++ evs₂), t,
        exec_cons.mpr ⟨_, hs, exec_append.mpr ⟨s₁, h₁, h₂⟩⟩, hstate⟩

theorem reaches_of_mem {s : State} {i : Nat} (h : Known s) (hi : i ∈ s.pending) :
    ∃ evs t, exec step s evs = some t ∧ (t.tasks i).state ≠ .cancelled := by
  obtain ⟨before, rest, hpending⟩ := List.append_of_mem hi
  cases hexec : s.executing with
  | none => exact reaches_pending hexec hpending
  | some e =>
    obtain ⟨evs₁, s₁, h₁, hexec₁, hpending₁, -⟩ := ends_of_executing h hexec
    obtain ⟨evs₂, t, h₂, hstate⟩ := reaches_pending hexec₁ (hpending₁.trans hpending)
    exact ⟨evs₁ ++ evs₂, t, exec_append.mpr ⟨s₁, h₁, h₂⟩, hstate⟩

/-- **A cancellation lasts exactly if the loop has not collected the task.** -/
theorem cancelled_for_good_iff (mgr : ShardMigrationManager) (noTask : IdentifiedTask)
    {evs : List Event} {s : State} (hs : exec step (start mgr noTask) evs = some s)
    {taskId : String} {i : Nat} (hi : s.activeMigrations.get? taskId = some i)
    (hcancel : (s.cancelMigration taskId).2 = true) :
    StaysCancelled hash (s.cancelMigration taskId).1 i ↔
      i ∉ s.pending ∧ ∀ e, s.executing = some e → e.task ≠ i := by
  have hknown : Known s := exec_inv (fun _ _ _ => known_step) (known_start mgr noTask) hs
  have hstep : step s (.cancel taskId) = some (s.cancelMigration taskId).1 := rfl
  have hknown' := known_step hknown hstep
  have hafter : (s.cancelMigration taskId).1 =
      s.setTask i { s.tasks i with state := .cancelled } := by
    unfold State.cancelMigration at hcancel ⊢
    simp only [hi] at hcancel ⊢
    split at hcancel
    · rename_i hstate
      rw [if_pos hstate]
    · cases hcancel
  rw [hafter] at hknown' ⊢
  constructor
  · intro hstays
    by_contra hnot
    rw [not_and_or, not_not, not_forall] at hnot
    rcases hnot with hmem | ⟨e, he⟩
    · obtain ⟨evs', t, ht, hstate⟩ := reaches_of_mem hknown' hmem
      exact not_staysCancelled hash ht hstate hstays
    · rw [Classical.not_imp, not_not] at he
      obtain ⟨he, rfl⟩ := he
      obtain ⟨evs', t, ht, -, -, hfinished⟩ := ends_of_executing hknown' he
      exact not_staysCancelled hash ht hfinished.ne hstays
  · rintro ⟨hpending, hexec⟩
    refine OutOfReach.staysCancelled hash ⟨?_, hpending, hexec, hknown.active taskId i hi⟩
    rw [State.tasks_setTask_self]

/-! ### A cancellation while the task runs -/

/-- A manager of `n1` on a ring where `n2` has every key. -/
def sampleManager : ShardMigrationManager :=
  { localNodeId := "n1", ring := (ConsistentHashRing.new 1).addNode (fun _ => 0) "n2"
    replicationFactor := 3 }

def sampleTask : IdentifiedTask :=
  { taskId := "", sourceNode := "n1", targetNode := "n2", keys := [] }

def sampleKeys : Dict String KVStore.Item :=
  Dict.empty.set "k" ⟨.int 1, none, 1, 1, 1, "n1"⟩

/-- All callbacks are set, and a task for one key is registered. -/
def createdRun : List Event := [.setCallbacks ⟨true, true, true⟩, .create "t" "n2" ["k"]]

theorem cancelled_for_good_iff_sample :
    ∃ s, exec step (start sampleManager sampleTask) createdRun = some s ∧
      (StaysCancelled (fun _ => 0) (s.cancelMigration "t").1 0 ↔
        0 ∉ s.pending ∧ ∀ e, s.executing = some e → e.task ≠ 0) :=
  have hs : exec step (start sampleManager sampleTask) createdRun = some _ := rfl
  ⟨_, hs, cancelled_for_good_iff (fun _ => 0) sampleManager sampleTask hs rfl rfl⟩

/-- What the loop does before the cancellation. -/
def capturedRun : List Event := createdRun ++ [.collect, .start, .work (.capture sampleKeys)]

/-- What it does after the cancellation. -/
def finishingRun : List Event :=
  [.work .send, .work (.answer true), .work .send, .work .delete, .work .complete]

/-- Cancelled between the capture and the first batch, the task sends its batch, deletes its key
    and ends as completed. -/
theorem cancelled_task_completes :
    ∃ s t, exec step (start sampleManager sampleTask) capturedRun = some s ∧
      s.activeMigrations.get? "t" = some 0 ∧ (s.cancelMigration "t").2 = true ∧
      exec step (s.cancelMigration "t").1 finishingRun = some t ∧
      (t.tasks 0).state = .completed ∧
      batchSent (s.cancelMigration "t").1 (.work .send) = some (0, sampleKeys) ∧
      ¬StaysCancelled (fun _ => 0) (s.cancelMigration "t").1 0 := by
  refine ⟨_, _, rfl, rfl, rfl, rfl, rfl, rfl, fun h => ?_⟩
  have := (h finishingRun _ rfl).1
  cases this

/-- Its key is handed to `_delete_keys`. -/
example : ∃ s t, exec step (start sampleManager sampleTask) capturedRun = some s ∧
    exec step (s.cancelMigration "t").1 (finishingRun.take 3) = some t ∧
    keysDeleted (fun _ => 0) t (.work .delete) = some (0, ["k"]) :=
  ⟨_, _, rfl, rfl, rfl⟩

end MigrationCancel

end MiniDb
