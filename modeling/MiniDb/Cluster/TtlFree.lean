/-
  Runs that write and recover only values without TTL and delete nothing, with any leaders,
  restarts and losses.

  In such runs no record expires (`Lasting`). So the version that a node stores for a key goes
  down only where the node applies an older entry, which no guard prevents, or starts again from
  an older store (`forward_step`).
-/
import MiniDb.Cluster.Applied
import MiniDb.Cluster.Tasks

namespace MiniDb

open Lib ReadCoordinator

namespace TtlFree

open Cluster Replica

variable {hash : String → Nat}

/-- No record has a TTL, and all have a version. -/
def NoTtl (store : KVStore) : Prop :=
  ∀ k m, store.get? k = some m → m.expiresAt = none ∧ 1 ≤ m.version

instance (store : KVStore) : Decidable (NoTtl store) :=
  decidable_of_iff (∀ p ∈ store.store.items, p.2.expiresAt = none ∧ 1 ≤ p.2.version)
    ⟨fun h k m hm => h (k, m) ((Dict.mem_items_iff _ _ _).mpr hm),
      fun h p hp => h p.1 p.2 ((Dict.mem_items_iff _ _ _).mp hp)⟩

/-- Writes are SETs without TTL, and a restart recovers nothing else. -/
def SetsOnly : Label → Prop
  | .call _ w => w.operation = .set ∧ w.ttl = none
  | .restart _ store _ _ _ => NoTtl store
  | _ => True

instance : (l : Label) → Decidable (SetsOnly l)
  | .call _ w => inferInstanceAs (Decidable (w.operation = .set ∧ w.ttl = none))
  | .restart _ store _ _ _ => inferInstanceAs (Decidable (NoTtl store))
  | .begin _ _ _ | .prepare _ _ _ | .endPrepare _ | .commit _ _ _ | .settle _ _ | .async _ _ _
  | .get _ _ _ | .answer _ _ _ _ | .conclude _ _ | .repair _ _ _ | .endGet _ | .startElection _
  | .requestVote _ _ _ | .countVotes _ | .startHeartbeats _ | .heartbeat _ _ _
  | .endHeartbeats _ | .stepDown _ | .deliver _ _ | .topology _ _ _ | .cleanup _ _ =>
    isTrue trivial

/-- What a node can answer to a read. -/
def LastingAnswer (a : ReadAnswer) : Prop :=
  a = missingAnswer ∨ (a.expiresAt = none ∧ 1 ≤ a.version)

structure Lasting (s : Cluster) : Prop where
  known : Known s
  waiting : ∀ p ∈ s.waiting, p.2.1.operation = .set ∧ p.2.1.ttl = none
  issued : ∀ n e, Event.issued n e ∈ s.history → PlainSet e ∧ 1 ≤ e.version
  stores : ∀ n, NoTtl (s.nodes n).store
  messages : ∀ dest args, (dest, Message.replicaSet args) ∈ s.sent →
    args.expiresAt = none ∧ ∀ v, args.version = some v → 1 ≤ v
  reading : ∀ n p since answers, s.tasks n = some (.read p since answers) →
    p.replicas.Nodup ∧ ∀ r a, answers.get? r = some a → LastingAnswer a.1
  repairing : ∀ n p since results best repairs rest,
    s.tasks n = some (.repair p since results (.found best repairs) rest) →
      best.expiresAt = none ∧ 1 ≤ best.version

theorem Lasting.wasIssued {s : Cluster} (h : Lasting s) {e : LogEntry} (he : WasIssued s e) :
    PlainSet e ∧ 1 ≤ e.version := by
  obtain ⟨n, hn⟩ := he
  exact h.issued n e hn

theorem Lasting.plain {s : Cluster} (h : Lasting s) (n : String) : Plain (s.nodes n) :=
  ⟨fun k m hm => (h.stores n k m hm).1,
    fun i e he => (h.wasIssued (h.known.staged n i e he).2).1⟩

/-- What a step applies is an entry of some write. -/
theorem applied_issued {s : Cluster} (h : Lasting s) {l : Label} {n : String} {e : LogEntry}
    (he : s.entryApplied l = some (n, e)) : PlainSet e ∧ 1 ≤ e.version := by
  refine h.wasIssued ?_
  unfold entryApplied at he
  split at he
  · rename_i m c hc
    obtain ⟨rfl, rfl⟩ := Prod.mk.inj (Option.some.inj he)
    exact h.known.toApply m (h.known.commitHandled hc)
  · obtain ⟨clock, k, -, ht⟩ := entryAcked_eq he
    exact ⟨n, h.known.task n _ e ht rfl⟩

/-! ## Stores -/

/-- The record that an applied entry leaves. -/
theorem get?_applied {n n' : Node} {e : LogEntry} (h : AppliesEntry n n' e)
    (he : PlainSet e ∧ 1 ≤ e.version) (k : String) :
    ∃ m, m.expiresAt = none ∧ m.version = e.version ∧
      n'.store.get? k = if e.key = k then some m else n.store.get? k := by
  obtain ⟨staged, clock, rfl⟩ := h
  have hv : e.version ≠ 0 := by
    have := he.2
    omega
  refine ⟨setRecord clock (n.store.get? k) e.value (storeArgs e), ?_, if_pos hv,
    get?_applyLogEntry he.1.1 clock k⟩
  simp [setRecord, storeArgs, he.1.2]

theorem noTtl_applied {n n' : Node} {e : LogEntry} (h : AppliesEntry n n' e)
    (he : PlainSet e ∧ 1 ≤ e.version) (hn : NoTtl n.store) : NoTtl n'.store := by
  intro k m hm
  obtain ⟨m', hexpiry, hversion, hget⟩ := get?_applied h he k
  rw [hget] at hm
  split at hm
  · obtain rfl := Option.some.inj hm
    exact ⟨hexpiry, hversion ▸ he.2⟩
  · exact hn k m hm

theorem noTtl_storeUnlessOlder {n : Node} (hn : Plain n) (hstore : NoTtl n.store) (clock : Time)
    {u : Versioned} (hu : u.expiresAt = none ∧ 1 ≤ u.version) :
    NoTtl (n.storeUnlessOlder clock u).1.store := by
  intro k m hm
  refine ⟨(storeUnlessOlder_plain hn clock hu.1).store k m hm, ?_⟩
  simp only [Node.storeUnlessOlder, getWithMetadata_plain hn] at hm
  split at hm
  · exact (hstore k m hm).2
  · simp only [KVStore.get?_set] at hm
    split at hm
    · obtain rfl := Option.some.inj hm
      have hv : u.version ≠ 0 := by
        have := hu.2
        omega
      exact le_of_le_of_eq hu.2 (if_pos hv).symm
    · exact (hstore k m hm).2

theorem noTtl_purged {n n' : Node} (h : Purged n n') (hn : NoTtl n.store) : NoTtl n'.store := by
  intro k m hm
  rcases h k with hk | ⟨hk, -⟩
  · exact hn k m (hk ▸ hm)
  · rw [hk] at hm
    cases hm

/-- A `__REPLICA_SET` that brings a value without TTL. -/
theorem noTtl_replicaSet {n : Node} (hn : Plain n) (hstore : NoTtl n.store) (clock : Time)
    {args : ReplicaSetArgs}
    (hargs : args.expiresAt = none ∧ ∀ v, args.version = some v → 1 ≤ v) :
    NoTtl (n.handleMessage clock (.replicaSet args)).1.store := by
  unfold Node.handleMessage Node.handleReplicaSet
  dsimp only
  split
  · exact hstore
  · rename_i v hv
    split
    · exact hstore
    · exact noTtl_storeUnlessOlder hn hstore clock ⟨hargs.1, hargs.2 v hv⟩

theorem noTtl_repairWith {s : Cluster} (h : Lasting s) (clock : Time) (m key target : String)
    {best : ReadResult} (hbest : best.expiresAt = none ∧ 1 ≤ best.version) (d : Delivery)
    (n : String) : NoTtl ((s.repairWith clock m key target best d).nodes n).store := by
  have hrel : ∀ v : Node, NoTtl v.store → NoTtl v.store := fun _ hv => hv
  unfold repairWith
  split
  · exact rel_update (R := fun n n' => NoTtl n.store → NoTtl n'.store) hrel
      (fun hstore => noTtl_storeUnlessOlder (h.plain m) hstore clock hbest) n (h.stores n)
  · refine rel_send (m := .replicaSet (Node.repairArgs key best))
      (R := fun n n' => NoTtl n.store → NoTtl n'.store) hrel (fun hstore => ?_) n (h.stores n)
    refine noTtl_replicaSet (h.plain target) hstore clock ⟨hbest.1, fun v hv => ?_⟩
    obtain rfl := Option.some.inj hv
    exact hbest.2

theorem stores_step {s s' : Cluster} {l : Label} (h : Lasting s) (hl : SetsOnly l)
    (hs : step hash s l = some s') (n : String) : NoTtl (s'.nodes n).store := by
  cases store_step hs n with
  | purged hnot hpurged => exact noTtl_purged hpurged (h.stores n)
  | committed hc _ =>
    have he := entryApplied_commit hc
    exact noTtl_applied (appliesEntry_step hs he) (applied_issued h he) (h.stores n)
  | settled clock hacked _ =>
    obtain ⟨clock', k, rfl, -⟩ := entryAcked_eq hacked
    have he := (entryApplied_settle s n clock').trans hacked
    exact noTtl_applied (appliesEntry_step hs he) (applied_issued h he) (h.stores n)
  | merged hu _ =>
    cases hu with
    | @repair m d clock p since results best repairs rest r ht hkey =>
      simp only [Cluster.step, ht, Option.some.injEq] at hs
      subst hs
      exact noTtl_repairWith h clock m p.key r.nodeId
        (h.repairing m p since results best repairs _ ht) d n
    | @delivered i clock args hm hkey =>
      simp only [Cluster.step, hm, Option.some.injEq] at hs
      subst hs
      simp only [receive, log, setNode, Function.update_self]
      exact noTtl_replicaSet (h.plain n) (h.stores n) clock
        (h.messages n args (List.mem_of_getElem? hm))
  | restarted hlabel hstore =>
    subst hlabel
    rw [hstore]
    exact hl

/-- No version of a key goes down. -/
def Forward (n n' : Node) : Prop :=
  ∀ k m, n.store.get? k = some m → ∃ m', n'.store.get? k = some m' ∧ m.version ≤ m'.version

theorem forward_of_rank {n n' : Node} (h : ∀ k, rank n k ≤ rank n' k) : Forward n n' := by
  intro k m hm
  have hle := h k
  rw [rank_of_some hm] at hle
  cases hm' : n'.store.get? k with
  | none =>
    rw [rank_of_none hm', le_bot_iff] at hle
    cases hle
  | some m' =>
    rw [rank_of_some hm', WithBot.coe_le_coe] at hle
    exact ⟨m', rfl, version_le_of_sortKey_le hle⟩

/-- **When a store can go back**: only where an entry is applied, or the node starts again. -/
theorem forward_step {s s' : Cluster} {l : Label} (h : Lasting s)
    (hs : step hash s l = some s') (n : String) :
    Forward (s.nodes n) (s'.nodes n) ∨ (∃ e, s.entryApplied l = some (n, e)) ∨
      ∃ store aof membership ring, l = .restart n store aof membership ring ∧
        (s'.nodes n).store = store := by
  cases store_step hs n with
  | purged hnot hpurged =>
    refine .inl fun k m hm => ?_
    rcases hpurged k with hk | ⟨-, m', clock, hm', hexpired⟩
    · exact ⟨m, hk.trans hm, le_rfl⟩
    · rw [(h.stores n k m' hm').1] at hexpired
      cases hexpired
  | committed hc _ => exact .inr (.inl ⟨_, entryApplied_commit hc⟩)
  | settled clock hacked _ =>
    obtain ⟨clock', k, rfl, -⟩ := entryAcked_eq hacked
    exact .inr (.inl ⟨_, hacked⟩)
  | @merged u clock hu hstore =>
    refine .inl (forward_of_rank fun k => ?_)
    have hle := storeUnlessOlder_keeps (h.plain n) clock u k
    unfold rank at hle ⊢
    rwa [hstore]
  | restarted hlabel hstore => exact .inr (.inr ⟨_, _, _, _, hlabel, hstore⟩)

/-! ## The invariant -/

theorem answer_lasting {s : Cluster} (h : Lasting s) (r key : String) (clock : Time)
    (d : Delivery) : LastingAnswer (s.readFrom clock r key d).2.1 := by
  rcases readFrom_answer clock s r key d with heq | heq
  · exact .inl (congrArg Prod.fst heq)
  · rw [heq]
    simp only [Node.localRead, getWithMetadata_plain (h.plain r)]
    cases hm : (s.nodes r).store.get? key with
    | none => exact .inl rfl
    | some m => exact .inr (h.stores r key m hm)

theorem collected_lasting {answers : Dict String (ReadAnswer × Bool)}
    (h : ∀ r a, answers.get? r = some a → LastingAnswer a.1) (r : String) :
    LastingAnswer (collectedAnswer answers r) := by
  unfold collectedAnswer
  cases ha : answers.get? r with
  | none => exact .inl rfl
  | some a => exact h r a ha

section Step

variable {s s' : Cluster} {l : Label}

/-- A new entry is a SET without TTL that has a version. -/
theorem issued_kept (h : Lasting s) (hs : step hash s l = some s') {n : String} {e : LogEntry}
    (he : Event.issued n e ∈ s'.history) : PlainSet e ∧ 1 ≤ e.version := by
  rcases (issued_step hs n e).mp he with hold | hnew
  · exact h.issued n e hold
  · cases l with
    | begin i clock now =>
      obtain ⟨w, replicas, hi, -, rfl⟩ := entryBegun_eq hnew
      obtain ⟨hset, httl⟩ := h.waiting _ (List.mem_of_getElem? hi)
      refine ⟨⟨hset, ?_⟩, ?_⟩
      · show Option.map (fun t : Int => now + t) w.ttl = none
        rw [httl, Option.map_none]
      · rw [Node.version_newEntry, Node.storedVersion, getWithMetadata_plain (h.plain n)]
        cases hm : (s.nodes n).store.get? w.key with
        | none => exact le_rfl
        | some m =>
          have := (h.stores n w.key m hm).2
          simp only
          omega
    | _ => cases hnew

theorem waiting_kept (h : Lasting s) (hl : SetsOnly l) (hs : step hash s l = some s')
    {p : String × WriteCall × List String} (hp : p ∈ s'.waiting) :
    p.2.1.operation = .set ∧ p.2.1.ttl = none := by
  rcases waiting_step hs hp with hold | ⟨rfl, -⟩
  · exact h.waiting p hold
  · exact hl

theorem messages_kept (h : Lasting s) (hs : step hash s l = some s') {dest : String}
    {args : ReplicaSetArgs} (hmem : (dest, Message.replicaSet args) ∈ s'.sent) :
    args.expiresAt = none ∧ ∀ v, args.version = some v → 1 ≤ v := by
  rcases sends_of_mem_sent hs hmem with hold | hnew
  · exact h.messages dest args hold
  · cases hnew with
    | election hm => cases hm
    | @repair n dest d clock p since results best repairs rest r ht =>
      obtain ⟨hexpiry, hversion⟩ := h.repairing n p since results best repairs _ ht
      refine ⟨hexpiry, fun v hv => ?_⟩
      obtain rfl := Option.some.inj hv
      exact hversion

theorem reading_kept (h : Lasting s) (hs : step hash s l = some s') {n : String} {p : ReadPlan}
    {since : Nat} {answers : Dict String (ReadAnswer × Bool)}
    (hT : s'.tasks n = some (.read p since answers)) :
    p.replicas.Nodup ∧ ∀ r a, answers.get? r = some a → LastingAnswer a.1 := by
  rcases task_step hs hT with hold | hnew
  · exact h.reading n p since answers hold
  · cases hnew with
    | getBegun hlabel =>
      exact ⟨ConsistentHashRing.nodup_getNodes _ _ _ _, fun r a ha => by cases ha⟩
    | @answered p since answers ht r clock d =>
      obtain ⟨hnodup, hlasting⟩ := h.reading n p since answers ht
      refine ⟨hnodup, fun r' a ha => ?_⟩
      rw [Dict.get?_set] at ha
      split at ha
      · rw [Option.some.injEq] at ha
        subst ha
        exact answer_lasting h r p.key clock d
      · exact hlasting r' a ha

theorem repairing_kept (h : Lasting s) (hs : step hash s l = some s') {n : String}
    {p : ReadPlan} {since : Nat} {results : List ReadResult} {best : ReadResult}
    {repairs rest : List ReadResult}
    (hT : s'.tasks n = some (.repair p since results (.found best repairs) rest)) :
    best.expiresAt = none ∧ 1 ≤ best.version := by
  rcases task_step hs hT with hold | hnew
  · exact h.repairing n p since results best repairs rest hold
  · generalize hT' : Task.repair p since results (.found best repairs) rest = T at hnew
    cases hnew with
    | @concluded finished p' since' answers hlabel ht hnodup hfinished =>
      injection hT' with hplan _ _ houtcome _
      subst hplan
      obtain ⟨hreplicas, hlasting⟩ := h.reading n p since' answers ht
      obtain ⟨r, rfl, hanswer⟩ := read_found hreplicas houtcome.symm
      exact (collected_lasting hlasting r).resolve_left hanswer
    | @repaired p' since' results' best' repairs' rest' r ht =>
      injection hT' with hplan _ _ houtcome _
      injection houtcome with hbest _
      subst hplan hbest
      exact h.repairing n p since' results' best repairs' _ ht
    | _ => cases hT'

end Step

theorem lasting_step {s s' : Cluster} {l : Label} (h : Lasting s) (hl : SetsOnly l)
    (hs : step hash s l = some s') : Lasting s' where
  known := known_step h.known hs
  waiting _ hp := waiting_kept h hl hs hp
  issued _ _ he := issued_kept h hs he
  stores n := stores_step h hl hs n
  messages _ _ hmem := messages_kept h hs hmem
  reading _ _ _ _ hT := reading_kept h hs hT
  repairing _ _ _ _ _ _ _ hT := repairing_kept h hs hT

theorem lasting_fresh {s : Cluster} (h : Fresh s) (hstores : ∀ n, NoTtl (s.nodes n).store) :
    Lasting s where
  known := h.known
  waiting p hp := by rw [h.waiting] at hp; cases hp
  issued _ _ he := absurd he (h.no_event _)
  stores := hstores
  messages _ _ hmem := absurd hmem (h.no_message _)
  reading _ _ _ _ hT := absurd hT h.no_task
  repairing _ _ _ _ _ _ _ hT := absurd hT h.no_task

end TtlFree

end MiniDb
