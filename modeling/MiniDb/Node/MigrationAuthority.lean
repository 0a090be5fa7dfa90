/-
  Migration and the leader.

  STRONG reads ask the leader; migration lets the ring decide who keeps a key. A leader that is
  not a replica of the key hands it over and deletes it, and STRONG reads no longer find it
  (`strong_get_fails`).

  `strong_get_survives` says when that does not happen: when no REBALANCE and no join makes the
  leader list the key in a task while the leader is not one of its replicas. Two invariants carry
  it: records are only moved, so that every record of the key was there at the start (`Known`),
  and the leader's record is never replaced by an older one (`Kept`).
-/
import MiniDb.Node.MigrationOutcome

namespace MiniDb

open Lib ShardMigrationManager

namespace Migrations

variable (hash : String → Nat)

/-! ## Records are only moved -/

/-- Every record of the key that is stored, captured or on its way satisfies `P`. -/
structure Known (P : KeyMetadata → Prop) (key : String) (t : Migrations) : Prop where
  stored : ∀ n r, t.record n key = some r → P r
  captured : ∀ n e rest, t.running n = some e → e.phase = .sending rest →
    ∀ i, e.localKeys.get? key = some i → P (KVStore.recordOf i)
  sentOn : ∀ p ∈ t.fanout, p.2.key = key → P (Merge.recordOf p.2)

/-- The label sets no other key than `key`, or nothing. -/
def Spares (key : String) : MigrationLabel → Prop
  | .set _ _ e => e.key ≠ key
  | _ => True

/-- How an execution after a step came about. -/
inductive ExecutionStep (s : Migrations) (n : String) (e' : Execution) : Prop
  | same (h : s.running n = some e')
  | started {task : MigrationTask} {now : Time} (hmem : task ∈ s.waiting n)
      (hphase : e'.phase = .sending task.keys) (hkeys : e'.task.keys = task.keys)
      (hdata : e'.localKeys = s.capturedAt n now)
  | sent {e : Execution} {rest rest' : List String} (h : s.running n = some e)
      (hphase : e.phase = .sending rest) (hphase' : e'.phase = .sending rest')
      (hkeys : e'.task.keys = e.task.keys) (hdata : e'.localKeys = e.localKeys)
  | looped {e : Execution} {rest : List String} (h : s.running n = some e)
      (hphase : e.phase = .sending rest)
      (hphase' : e'.phase = .deleting ((s.manager n).nonReplicaKeys hash e.task.keys))
  | deleted {e : Execution} {key : String} {rest : List String} (h : s.running n = some e)
      (hphase : e.phase = .deleting (key :: rest)) (hphase' : e'.phase = .deleting rest)
  | ended (hphase' : e'.phase = .ended)

variable {hash}

theorem running_setRunning (s : Migrations) (n x : String) (e : Execution) :
    (s.setRunning n e).running x = if x = n then some e else s.running x := by
  unfold setRunning
  by_cases hx : x = n
  · subst hx
    simp
  · simp [hx]

/-- What runs after the change of one task: this one, or what ran before. -/
theorem of_running_setRunning {s : Migrations} {n x : String} {e e' : Execution}
    (h : (s.setRunning n e).running x = some e') : x = n ∧ e = e' ∨ s.running x = some e' := by
  rw [running_setRunning] at h
  split at h
  · exact .inl ⟨‹x = n›, Option.some.inj h⟩
  · exact .inr h

theorem running_send (s : Migrations) (n : String) (e : Execution)
    (batch : Dict String KVStore.Item) (rest : List String) (now : Time) (outcome : SendOutcome)
    (x : String) :
    (s.send hash n e batch rest now outcome).running x =
      if x = n then some (if s.sends n e outcome then e.advance batch rest else e.fail batch)
      else s.running x := by
  unfold send
  rw [running_setRunning]
  congr 1
  split <;> rfl

theorem executionStep {s s' : Migrations} {l : MigrationLabel} (h : s.step hash l = some s')
    {n : String} {e' : Execution} (he : s'.running n = some e') : ExecutionStep hash s n e' := by
  cases effect_of_step h with
  | rebalance x now => exact .same he
  | join x newNode now => exact .same he
  | membership x m => exact .same he
  | fanout now hmem => exact .same he
  | set x now hset => exact .same he
  | @start x i task now hidle htask =>
    rcases of_running_setRunning he with ⟨rfl, rfl⟩ | he
    · exact .started (List.mem_of_getElem? htask) rfl rfl rfl
    · exact .same he
  | @send x e rest now outcome hrun hphase hbatch =>
    rw [running_send] at he
    split at he
    · rename_i hx
      subst hx
      obtain rfl := Option.some.inj he
      split
      · exact .sent hrun hphase rfl rfl rfl
      · exact .ended rfl
    · exact .same he
  | @endLoop x e rest hrun hphase hbatch =>
    rcases of_running_setRunning he with ⟨rfl, rfl⟩ | he
    · exact .looped hrun hphase rfl
    · exact .same he
  | @delete x key e rest now hrun hphase =>
    rcases of_running_setRunning he with ⟨rfl, rfl⟩ | he
    · exact .deleted hrun hphase rfl
    · exact .same he
  | @finish x e hrun hphase =>
    rcases of_running_setRunning he with ⟨-, rfl⟩ | he
    · exact .ended rfl
    · exact .same he

/-- The messages after a step: those before, and records of a task that sends. -/
theorem fanout_step {s s' : Migrations} {l : MigrationLabel} (h : s.step hash l = some s')
    {p : String × Versioned} (hp : p ∈ s'.fanout) :
    p ∈ s.fanout ∨ ∃ now, s.Arrives p.1 now p.2 := by
  cases effect_of_step h with
  | @send x e rest now outcome hrun hphase hbatch =>
    rcases mem_fanout_send hp with hp | ⟨-, -, i, hi, hu⟩
    · exact .inl hp
    · have hi' := nextBatch_items rest (fun _ _ h => by cases h) _ i hi
      exact .inr ⟨now, hu ▸ .captured hrun hphase hi'⟩
  | _ => exact .inl hp

section Provenance

variable {P : KeyMetadata → Prop} {key : String} {s s' : Migrations}

theorem Known.arrives (hP : ∀ r, P r → r.Dated) (h : Known P key s) {n : String} {now : Time}
    {u : Versioned} (hu : s.Arrives n now u) (hkey : u.key = key) : P (Merge.recordOf u) := by
  cases hu with
  | sentOn hmem => exact h.sentOn _ hmem hkey
  | @captured source k e rest i hrun hphase hi =>
    obtain rfl : k = key := hkey
    have hknown := h.captured _ _ _ hrun hphase i hi
    rw [Node.recordOf_importRecord (hP _ hknown)]
    exact hknown

/-- The record that stays when one arrives. -/
theorem Known.afterStore (hP : ∀ r, P r → r.Dated) (h : Known P key s) {n : String} {now : Time}
    {u : Versioned} (hu : s.Arrives n now u) (hkey : u.key = key) (b : Option KeyMetadata) :
    Merge.afterStore now u b =
      keepNewer KeyMetadata.sortKey (unexpired now b) (Merge.recordOf u) := by
  have hdated := hP _ (h.arrives hP hu hkey)
  refine Merge.afterStore_eq now ?_ b
  have : 1 ≤ u.version := hdated.version
  omega

/-- **Migration makes no records**: what holds of every record of the key goes on to hold. -/
theorem Known.step (hP : ∀ r, P r → r.Dated) (h : Known P key s) {l : MigrationLabel}
    (hl : Spares key l) (hstep : s.step hash l = some s') : Known P key s' := by
  have hstored : ∀ n r, s'.record n key = some r → P r := by
    intro n r hr
    generalize hb : s'.record n key = b at hr
    have hcases := recordStep hstep n key
    rw [hb] at hcases
    cases hcases with
    | same => exact h.stored n r hr
    | expired now => exact h.stored n r (of_unexpired hr)
    | @arrived now u harrives hkey =>
      rw [h.afterStore hP harrives hkey] at hr
      rcases keepNewer_cases KeyMetadata.sortKey (unexpired now (s.record n key))
        (Merge.recordOf u) with hkept | hkept
      · exact h.stored n r (of_unexpired (hkept.symm.trans hr))
      · obtain rfl := Option.some.inj (hkept.symm.trans hr)
        exact h.arrives hP harrives hkey
    | deleted => cases hr
    | written hset hkey m =>
      subst hset
      exact absurd hkey hl
  refine ⟨hstored, fun n e' rest he hphase i hi => ?_, fun p hp hkey => ?_⟩
  · cases executionStep hstep he with
    | same hrun => exact h.captured n e' rest hrun hphase i hi
    | started hmem hphase' hkeys hdata =>
      rw [hdata, get?_capturedAt] at hi
      obtain ⟨m, hm, rfl⟩ := Option.map_eq_some_iff.mp hi
      exact h.stored n m (of_unexpired hm)
    | sent hrun hphase₀ hphase' hkeys hdata =>
      exact h.captured n _ _ hrun hphase₀ i (hdata ▸ hi)
    | looped hrun hphase₀ hphase' => cases hphase.symm.trans hphase'
    | deleted hrun hphase₀ hphase' => cases hphase.symm.trans hphase'
    | ended hphase' => cases hphase.symm.trans hphase'
  · rcases fanout_step hstep hp with hp | ⟨now, harrives⟩
    · exact h.sentOn p hp hkey
    · exact h.arrives hP harrives hkey

end Provenance

/-! ## The record of the leader -/

variable (hash) in
/-- The leader is a replica of the key, or no task that a REBALANCE or a join creates at the
    leader can list the key. -/
def KeepsAtLeader (leader key : String) (t : Migrations) : MigrationLabel → Prop
  | .rebalance n _ => n = leader → (t.manager leader).rebalanceTarget hash key = none
  | .join n newNode _ => n = leader →
      ((t.manager leader).withNode hash newNode).IsReplica hash key ∨
        (((t.manager leader).withNode hash newNode).ring.getNode hash key ≠ some newNode ∧
          (∀ task ∈ t.waiting leader, key ∉ task.keys) ∧
          ∀ e rest, t.running leader = some e → e.phase = .sending rest → key ∉ e.task.keys)
  | _ => True

/-- A task of the leader that waits or sends lists the key. -/
def Lists (t : Migrations) (leader key : String) : Prop :=
  (∃ task ∈ t.waiting leader, key ∈ task.keys) ∨
    ∃ e rest, t.running leader = some e ∧ e.phase = .sending rest ∧ key ∈ e.task.keys

variable (hash) in
/-- The leader lists the key only if it is one of its replicas, and does not delete it. -/
structure Unlisted (leader key : String) (t : Migrations) : Prop where
  replica : t.Lists leader key → (t.manager leader).IsReplica hash key
  notDeleted : ∀ e rest, t.running leader = some e → e.phase = .deleting rest → key ∉ rest

section Leader

variable {leader key : String} {s s' : Migrations}

theorem waiting_addWaiting (s : Migrations) (n x : String) (ts : List MigrationTask) :
    (s.addWaiting n ts).waiting x = if x = n then s.waiting n ++ ts else s.waiting x := by
  unfold addWaiting
  by_cases hx : x = n
  · subst hx
    simp
  · simp [hx]

/-- The tasks that wait after a step. -/
theorem waiting_step {l : MigrationLabel} (h : s.step hash l = some s') {n : String}
    {task : MigrationTask} (htask : task ∈ s'.waiting n) :
    task ∈ s.waiting n ∨
      (∃ now, l = .rebalance n now ∧
        task ∈ (s.manager n).calculateRebalanceMigrations hash (s.capturedAt n now)) ∨
      ∃ newNode now localKeys, l = .join n newNode now ∧
        ((s.manager n).withNode hash newNode).onNodeJoin hash newNode localKeys = some task := by
  cases effect_of_step h with
  | rebalance x now =>
    change task ∈ (addWaiting _ x _).waiting n at htask
    rw [waiting_addWaiting] at htask
    split at htask
    · rename_i hx
      subst hx
      exact (List.mem_append.mp htask).imp_right fun hnew => .inl ⟨now, rfl, hnew⟩
    · exact .inl htask
  | join x newNode now =>
    change task ∈ (addWaiting _ x _).waiting n at htask
    rw [waiting_addWaiting] at htask
    split at htask
    · rename_i hx
      subst hx
      rcases List.mem_append.mp htask with hold | hnew
      · exact .inl hold
      · have hjoin := Option.mem_toList.mp hnew
        change ShardMigrationManager.onNodeJoin hash (Migrations.manager _ n) _ _ = _ at hjoin
        rw [manager_setNode_self] at hjoin
        exact .inr (.inr ⟨newNode, now, _, rfl, hjoin⟩)
    · exact .inl htask
  | @start x i task' now hidle htask' =>
    refine .inl ?_
    change task ∈ Function.update s.waiting x _ n at htask
    by_cases hx : n = x
    · subst hx
      rw [Function.update_self] at htask
      exact List.mem_of_mem_eraseIdx htask
    · rwa [Function.update_of_ne hx] at htask
  | @send x e rest now outcome hrun hphase hbatch =>
    refine .inl ?_
    unfold send at htask
    dsimp only at htask
    split at htask
    · exact htask
    · exact htask
  | _ => exact .inl htask

/-- The ring of a node changes when it finds a new one. -/
theorem manager_step {l : MigrationLabel} (h : s.step hash l = some s') (n : String) :
    ((∀ newNode now, l ≠ .join n newNode now) ∧ s'.manager n = s.manager n) ∨
      ∃ newNode now, l = .join n newNode now ∧
        s'.manager n = (s.manager n).withNode hash newNode ∧ s'.running = s.running := by
  cases effect_of_step h with
  | rebalance x now => exact .inl ⟨fun _ _ h => (by cases h), manager_setNode (by rfl) n⟩
  | join x newNode now =>
    by_cases hx : n = x
    · subst hx
      refine .inr ⟨newNode, now, rfl, ?_, rfl⟩
      change (captureAt _ n now).manager n = _
      unfold captureAt
      rw [manager_setNode (by rfl), manager_setNode_self]
      rfl
    · refine .inl ⟨fun _ _ h => hx (by cases h; rfl), ?_⟩
      unfold join captureAt setNode manager
      simp only [addWaiting, Function.update_of_ne hx]
  | membership x m => exact .inl ⟨fun _ _ h => (by cases h), manager_setNode (by rfl) n⟩
  | start now hidle htask => exact .inl ⟨fun _ _ h => (by cases h), manager_setNode (by rfl) n⟩
  | send now outcome hrun hphase hbatch =>
    exact .inl ⟨fun _ _ h => (by cases h), manager_send hash s _ _ _ _ now outcome n⟩
  | endLoop hrun hphase hbatch => exact .inl ⟨fun _ _ h => (by cases h), rfl⟩
  | delete now hrun hphase => exact .inl ⟨fun _ _ h => (by cases h), manager_setNode (by rfl) n⟩
  | finish hrun hphase => exact .inl ⟨fun _ _ h => (by cases h), rfl⟩
  | fanout now hmem => exact .inl ⟨fun _ _ h => (by cases h), manager_deliver s _ now _ n⟩
  | set x now hset => exact .inl ⟨fun _ _ h => (by cases h), manager_setNode (by rfl) n⟩

theorem Unlisted.step (h : Unlisted hash leader key s) {l : MigrationLabel}
    (hl : KeepsAtLeader hash leader key s l) (hstep : s.step hash l = some s') :
    Unlisted hash leader key s' := by
  constructor
  · intro hlists
    rcases manager_step hstep leader with ⟨hnojoin, hmanager⟩ |
      ⟨newNode, now, rfl, hmanager, hrunning⟩
    · rw [hmanager]
      rcases hlists with ⟨task, htask, hkey⟩ | ⟨e, rest, hrun, hphase, hkey⟩
      · rcases waiting_step hstep htask with hold | ⟨now, rfl, hnew⟩ | ⟨x, now, data, rfl, hnew⟩
        · exact h.replica (.inl ⟨task, hold, hkey⟩)
        · have htarget := (s.manager leader).rebalanceTarget_of_mem hash hnew hkey
          rw [hl rfl] at htarget
          cases htarget
        · exact absurd rfl (hnojoin x now)
      · cases executionStep hstep hrun with
        | same hrun' => exact h.replica (.inr ⟨e, rest, hrun', hphase, hkey⟩)
        | @started task now hmem hphase' hkeys hdata =>
          exact h.replica (.inl ⟨task, hmem, hkeys ▸ hkey⟩)
        | @sent e₀ rest₀ rest' hrun' hphase₀ hphase' hkeys hdata =>
          exact h.replica (.inr ⟨e₀, rest₀, hrun', hphase₀, hkeys ▸ hkey⟩)
        | looped hrun' hphase₀ hphase' => cases hphase.symm.trans hphase'
        | deleted hrun' hphase₀ hphase' => cases hphase.symm.trans hphase'
        | ended hphase' => cases hphase.symm.trans hphase'
    · rw [hmanager]
      rcases hl rfl with hreplica | ⟨howner, hwaiting, hsending⟩
      · exact hreplica
      · exfalso
        rcases hlists with ⟨task, htask, hkey⟩ | ⟨e, rest, hrun, hphase, hkey⟩
        · rcases waiting_step hstep htask with hold | ⟨now', hl', -⟩ | ⟨x, now', data, hl', hnew⟩
          · exact hwaiting task hold hkey
          · cases hl'
          · obtain ⟨-, rfl, rfl⟩ := MigrationLabel.join.inj hl'
            obtain ⟨hcreated, htarget⟩ := created_of_join hash _ hnew
            exact howner (htarget ▸ hcreated.owner key hkey)
        · rw [hrunning] at hrun
          exact hsending e rest hrun hphase hkey
  · intro e' rest' hrun hphase
    cases executionStep hstep hrun with
    | same hrun' => exact h.notDeleted e' rest' hrun' hphase
    | started hmem hphase' hkeys hdata => cases hphase.symm.trans hphase'
    | sent hrun' hphase₀ hphase' hkeys hdata => cases hphase.symm.trans hphase'
    | @looped e rest hrun' hphase₀ hphase' =>
      obtain rfl := ExecutionPhase.deleting.inj (hphase.symm.trans hphase')
      intro hkey
      obtain ⟨hin, hreplica⟩ := List.mem_filter.mp hkey
      have := h.replica (.inr ⟨e, rest, hrun', hphase₀, hin⟩)
      simp [this] at hreplica
    | @deleted e k rest hrun' hphase₀ hphase' =>
      obtain rfl := ExecutionPhase.deleting.inj (hphase.symm.trans hphase')
      exact fun hkey => h.notDeleted e _ hrun' hphase₀ (List.mem_cons_of_mem k hkey)
    | ended hphase' => cases hphase.symm.trans hphase'

/-- The record at the leader is not replaced by an older one. -/
theorem record_step {P : KeyMetadata → Prop} {m : KeyMetadata}
    (hP : ∀ r, P r → r.Dated ∧ (m.sortKey ≤ r.sortKey → r.expiresAt = none))
    (hknown : Known P key s) (hunlisted : Unlisted hash leader key s) {l : MigrationLabel}
    (hl : Spares key l) (hstep : s.step hash l = some s') {r : KeyMetadata}
    (hr : s.record leader key = some r) (hle : m.sortKey ≤ r.sortKey) :
    ∃ r', s'.record leader key = some r' ∧ m.sortKey ≤ r'.sortKey := by
  have hkept : ∀ now, unexpired now (s.record leader key) = some r := by
    intro now
    rw [hr]
    refine unexpired_of_noExpiry fun r' hr' => ?_
    exact Option.some.inj hr' ▸ (hP r (hknown.stored leader r hr)).2 hle
  generalize hb : s'.record leader key = b
  have hcases := recordStep hstep leader key
  rw [hb] at hcases
  cases hcases with
  | same => exact ⟨r, hr, hle⟩
  | expired now => exact ⟨r, hkept now, hle⟩
  | @arrived now u harrives hkey =>
    rw [hknown.afterStore (fun r hr => (hP r hr).1) harrives hkey]
    obtain ⟨r', hr', hle'⟩ := keepNewer_keeps KeyMetadata.sortKey (hkept now)
      (Merge.recordOf u)
    exact ⟨r', hr', le_trans hle hle'⟩
  | deleted hdelete hrun hphase =>
    exact absurd List.mem_cons_self (hunlisted.notDeleted _ _ hrun hphase)
  | written hset hkey m =>
    subst hset
    exact absurd hkey hl

end Leader

/-! ## STRONG reads -/

variable (hash) in
/-- A GET at STRONG at `reader`, in a cluster with this leader. -/
def strongGet (t : Migrations) (leader reader : String) (reachable : String → Bool) (now : Time)
    (key : String) (finished : List String) : Response :=
  Read.handleGet
    { hash := hash, ring := (t.nodes reader).ring
      replicationFactor := (t.nodes reader).config.replicationFactor, localId := reader
      leaderId := some leader, stores := fun n => (t.nodes n).store, reachable := reachable
      now := now } key .strong finished

/-- It returns what the leader has. -/
theorem strongGet_eq {t : Migrations} {leader key : String} (hleader : leader ≠ "")
    {r : KeyMetadata} (hr : t.record leader key = some r) (hx : r.expiresAt = none)
    {reachable : String → Bool} (hreach : reachable leader = true) (reader : String) (now : Time)
    (finished : List String) :
    t.strongGet hash leader reader reachable now key finished = .ok r.value := by
  have hread : ((t.nodes leader).store.getWithMetadata now key).2 = some r := by
    rw [KVStore.getWithMetadata_snd]
    exact (unexpired_of_noExpiry fun r' hr' => Option.some.inj (hr.symm.trans hr') ▸ hx).trans hr
  unfold strongGet Read.handleGet ReadCoordinator.read
  simp only [Read.plan, ReadCoordinator.readStrong, if_neg hleader]
  by_cases hreader : leader = reader
  · subst hreader
    simp [Read.localValue, hread, answerOf, ReadCoordinator.foundOf, ReadCoordinator.resultOf,
      getResponse]
  · simp [hreader, Read.remoteValue, hreach, Read.localValue, hread, answerOf,
      ReadCoordinator.foundOf, ReadCoordinator.resultOf, getResponse]

/-- **When STRONG reads survive migration**: with a stable leader that can be reached, in every
    run of REBALANCEs, joins and their tasks (with no SET of the key) in which no step makes the
    leader list the key in a task while it is not one of its replicas, every state that is
    reached answers a STRONG GET of a key the leader has, at every node, with the leader's
    record or one that another node had and that is not older. -/
theorem strong_get_survives {s t : Migrations} {leader key : String} {m : KeyMetadata}
    {ls : List MigrationLabel} (hleader : leader ≠ "") (hm : s.record leader key = some m)
    (hwaiting : s.waiting leader = []) (hidle : ∀ n, s.isIdle n = true) (hfanout : s.fanout = [])
    (hdated : ∀ n r, s.record n key = some r → r.Dated)
    (hplain : ∀ n r, s.record n key = some r → m.sortKey ≤ r.sortKey → r.expiresAt = none)
    (hls : ∀ l ∈ ls, Spares key l)
    (hkeeps : Along (step hash) (KeepsAtLeader hash leader key) s ls)
    (hexec : exec (step hash) s ls = some t) :
    ∃ r, (∃ n, s.record n key = some r) ∧ m.sortKey ≤ r.sortKey ∧
      ∀ reader reachable now finished, reachable leader = true →
        t.strongGet hash leader reader reachable now key finished = .ok r.value := by
  let P : KeyMetadata → Prop := fun r => (∃ n, s.record n key = some r) ∧ r.Dated ∧
    (m.sortKey ≤ r.sortKey → r.expiresAt = none)
  have hended : ∀ n e, s.running n = some e → e.phase = .ended := by
    intro n e he
    have hphase := hidle n
    rw [isIdle, he] at hphase
    cases hcases : e.phase with
    | ended => rfl
    | sending rest => simp [hcases] at hphase
    | deleting rest => simp [hcases] at hphase
  have hinit : Known P key s ∧ Unlisted hash leader key s ∧
      ∃ r, s.record leader key = some r ∧ m.sortKey ≤ r.sortKey := by
    refine ⟨⟨fun n r hr => ⟨⟨n, hr⟩, hdated n r hr, hplain n r hr⟩, ?_, ?_⟩, ⟨?_, ?_⟩,
      m, hm, le_refl _⟩
    · intro n e rest he hphase
      cases (hended n e he).symm.trans hphase
    · intro p hp
      rw [hfanout] at hp
      cases hp
    · rintro (⟨task, htask, -⟩ | ⟨e, rest, he, hphase, -⟩)
      · rw [hwaiting] at htask
        cases htask
      · cases (hended leader e he).symm.trans hphase
    · intro e rest he hphase
      cases (hended leader e he).symm.trans hphase
  obtain ⟨hknown, -, r, hr, hle⟩ := exec_inv_along
    (P := fun t l => Spares key l ∧ KeepsAtLeader hash leader key t l)
    (I := fun t => Known P key t ∧ Unlisted hash leader key t ∧
      ∃ r, t.record leader key = some r ∧ m.sortKey ≤ r.sortKey)
    (fun t l t' ⟨hknown, hunlisted, r, hr, hle⟩ hl hstep =>
      ⟨hknown.step (fun r hr => hr.2.1) hl.1 hstep, hunlisted.step hl.2 hstep,
        record_step (fun r hr => hr.2) hknown hunlisted hl.1 hstep hr hle⟩)
    hinit ((along_of_forall (fun _ l hl => hls l hl) s).and hkeeps) hexec
  obtain ⟨hheld, -, hx⟩ := hknown.stored leader r hr
  exact ⟨r, hheld, hle, fun reader reachable now finished hreach =>
    strongGet_eq hleader hr (hx hle) hreach reader now finished⟩

/-! ### A leader that keeps the key and hands over another -/

/-- "k" belongs to "n1", "j" to "n2". -/
def keepingHash : String → Nat := fun key => if key = "k" then 1 else if key = "j" then 2 else 4

/-- "n1", the leader, has both keys; "n2" has a newer record of "k". -/
def sampleKeeping : Migrations :=
  { sampleMigrations with
    nodes := fun n =>
      { sampleMigrations.nodes n with
        store :=
          if n = "n1" then ⟨⟨[("k", sampleRecord 1), ("j", sampleRecord 1)], by decide⟩⟩
          else if n = "n2" then ⟨⟨[("k", sampleRecord 2)], by decide⟩⟩
          else KVStore.empty }
    waiting := fun _ => [] }

/-- A join at the leader, and a REBALANCE there and at "n2". -/
def keepingSteps : List MigrationLabel :=
  [.join "n1" "n4" 1, .rebalance "n1" 2, .rebalance "n2" 2]

/-- The task of the leader, for "j", and the task of "n2", for "k". -/
def keepingTasks : List MigrationLabel :=
  [.start "n1" 0 3, .send "n1" 4 .answered, .endLoop "n1", .delete "n1" 5, .finish "n1",
    .start "n2" 0 6, .send "n2" 7 .answered, .endLoop "n2", .delete "n2" 8, .finish "n2"]

theorem record_sampleKeeping {n : String} {r : KeyMetadata}
    (h : sampleKeeping.record n "k" = some r) : ∃ version : Int, 1 ≤ version ∧
      r = sampleRecord version := by
  by_cases h₁ : n = "n1"
  · subst h₁
    exact ⟨1, le_refl 1, (Option.some.inj h).symm⟩
  by_cases h₂ : n = "n2"
  · subst h₂
    exact ⟨2, by decide, (Option.some.inj h).symm⟩
  · have hnone : sampleKeeping.record n "k" = none := by
      unfold record sampleKeeping
      simp only [if_neg h₁, if_neg h₂]
      rfl
    cases h.symm.trans hnone

theorem keepsAtLeader_keeping :
    Along (step keepingHash) (KeepsAtLeader keepingHash "n1" "k") sampleKeeping
      (keepingSteps ++ keepingTasks) := by
  have htasks : ∀ t, Along (step keepingHash) (KeepsAtLeader keepingHash "n1" "k") t
      keepingTasks := by
    refine along_of_forall fun t l hl => ?_
    simp only [keepingTasks, List.mem_cons, List.not_mem_nil, or_false] at hl
    rcases hl with rfl | rfl | rfl | rfl | rfl | rfl | rfl | rfl | rfl | rfl <;> trivial
  refine ⟨fun _ => .inl (by decide), fun t₁ h₁ => ⟨fun _ => ?_, fun t₂ _ =>
    ⟨fun h => absurd h (by decide), fun t₃ _ => htasks t₃⟩⟩⟩
  have htarget : (step keepingHash sampleKeeping (.join "n1" "n4" 1)).map
      (fun t => (t.manager "n1").rebalanceTarget keepingHash "k") = some none := rfl
  rw [h₁] at htarget
  exact Option.some.inj htarget

theorem strong_get_survives_sample :
    ∃ t r, exec (step keepingHash) sampleKeeping (keepingSteps ++ keepingTasks) = some t ∧
      (∀ n ∈ ["n1", "n2"], (t.running n).map (fun e => e.task.state) = some .completed) ∧
      (∃ n, sampleKeeping.record n "k" = some r) ∧ (sampleRecord 1).sortKey ≤ r.sortKey ∧
      ∀ reader reachable now finished, reachable "n1" = true →
        t.strongGet keepingHash "n1" reader reachable now "k" finished = .ok r.value := by
  obtain ⟨t, ht⟩ : ∃ t, exec (step keepingHash) sampleKeeping (keepingSteps ++ keepingTasks) =
      some t := Option.isSome_iff_exists.mp rfl
  have hleader : ("n1" : String) ≠ "" := by decide
  have hm : sampleKeeping.record "n1" "k" = some (sampleRecord 1) := rfl
  have hdated : ∀ n r, sampleKeeping.record n "k" = some r → r.Dated := by
    intro n r hr
    obtain ⟨version, hversion, rfl⟩ := record_sampleKeeping hr
    exact ⟨hversion, one_ne_zero, one_ne_zero⟩
  have hplain : ∀ n r, sampleKeeping.record n "k" = some r →
      (sampleRecord 1).sortKey ≤ r.sortKey → r.expiresAt = none := by
    intro n r hr _
    obtain ⟨version, -, rfl⟩ := record_sampleKeeping hr
    rfl
  have hspares : ∀ l ∈ keepingSteps ++ keepingTasks, Spares "k" l := by
    intro l hl
    simp only [keepingSteps, keepingTasks, List.cons_append, List.nil_append, List.mem_cons,
      List.not_mem_nil, or_false] at hl
    rcases hl with rfl | rfl | rfl | rfl | rfl | rfl | rfl | rfl | rfl | rfl | rfl | rfl | rfl <;>
      trivial
  obtain ⟨r, h⟩ := strong_get_survives hleader hm rfl (fun _ => rfl) rfl hdated hplain hspares
    keepsAtLeader_keeping ht
  have hcompleted : ∀ n ∈ ["n1", "n2"], ((exec (step keepingHash) sampleKeeping
      (keepingSteps ++ keepingTasks)).bind (fun t => t.running n)).map (fun e => e.task.state) =
        some .completed := by
    intro n hn
    simp only [List.mem_cons, List.not_mem_nil, or_false] at hn
    rcases hn with rfl | rfl
    · rfl
    · rfl
  rw [ht] at hcompleted
  exact ⟨t, r, ht, hcompleted, h⟩

/-! ### A leader that is not a replica -/

/-- Before the REBALANCE: "n1", the leader, has the key, which belongs to "n2". -/
def sampleBefore : Migrations := { sampleMigrations with waiting := fun _ => [] }

/-- REBALANCE at the leader, and its only task. -/
def sampleRebalance : List MigrationLabel :=
  [.rebalance "n1" 1, .start "n1" 0 1, .send "n1" 2 .answered, .endLoop "n1", .delete "n1" 3,
    .finish "n1"]

/-- After the REBALANCE has run its task the leader has lost the key, and STRONG reads fail. -/
theorem strong_get_fails :
    ∃ t, exec (step sampleHash) sampleBefore sampleRebalance = some t ∧
      sampleBefore.strongGet sampleHash "n1" "n3" (fun _ => true) 4 "k" [] = .ok (.int 1) ∧
      (t.running "n1").map (fun e => e.task.state) = some .completed ∧ t.waiting "n1" = [] ∧
      t.strongGet sampleHash "n1" "n3" (fun _ => true) 4 "k" [] =
        .error "Quorum read failed for key k" := by
  obtain ⟨t, ht⟩ : ∃ t, exec (step sampleHash) sampleBefore sampleRebalance = some t :=
    Option.isSome_iff_exists.mp rfl
  have hrunning : ((exec (step sampleHash) sampleBefore sampleRebalance).bind
      (fun t => t.running "n1")).map (fun e => e.task.state) = some .completed := rfl
  have hwaiting : (exec (step sampleHash) sampleBefore sampleRebalance).map
      (fun t => t.waiting "n1") = some [] := rfl
  have hget : (exec (step sampleHash) sampleBefore sampleRebalance).map
      (fun t => t.strongGet sampleHash "n1" "n3" (fun _ => true) 4 "k" []) =
        some (.error "Quorum read failed for key k") := rfl
  rw [ht] at hrunning hwaiting hget
  exact ⟨t, ht, rfl, hrunning, Option.some.inj hwaiting, Option.some.inj hget⟩

end Migrations

end MiniDb
