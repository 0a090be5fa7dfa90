/-
  Runs of a healthy cluster: one leader, all members in every table and ring, only SETs without
  TTL at QUORUM or ALL, increasing timestamps, no restart, and no message handled after its
  sender has stopped waiting for it.

  In such runs every record is what an entry of the leader left, and no entry is older than what
  it replaces. So the stores never go back (`Advance`), and a node that has applied an entry
  holds at least that entry from then on (`Calm.held`).
-/
import MiniDb.Cluster.SingleLeader

namespace MiniDb

open Lib ReadCoordinator

namespace Healthy

open Cluster SingleLeader Replica

variable {hash : String → Nat} {L : String} {members : Finset String}

/-- Every answer that a QUORUM read counts is the replica's own. -/
def RealAnswers (finished : List String) : Option Task → Prop
  | some (.read p _ answers) =>
    p.level = .quorum → ∀ r ∈ counted p finished, (answers.get? r).any Prod.snd
  | _ => True

instance (finished : List String) (t : Option Task) : Decidable (RealAnswers finished t) := by
  unfold RealAnswers
  split <;> infer_instance

/-- A message that may come late. -/
def MayBeLate : Option (String × Message) → Prop
  | some (_, m) => IsElection m
  | none => True

instance (p : Option (String × Message)) : Decidable (MayBeLate p) := by
  unfold MayBeLate
  split <;> infer_instance

/-- What is assumed of a step; `L` is the leader. -/
def CalmStep (L : String) (members : Finset String) (s : Cluster) : Label → Prop
  | .call n w =>
    ((s.nodes n).isLeader → n = L) ∧ w.operation = .set ∧ w.ttl = none ∧
      (s.nodes n).membership.aliveIds.toFinset = members
  | .begin _ _ now => now ≠ 0 ∧ ∀ p ∈ issuedIn s.history, p.2.timestamp < now
  | .get n _ _ => (s.nodes n).ring.nodes = members
  | .conclude n finished => RealAnswers finished (s.tasks n)
  | .deliver i _ => MayBeLate s.sent[i]?
  | .restart _ _ _ _ _ => False
  | _ => True

instance (s : Cluster) : (l : Label) → Decidable (CalmStep L members s l)
  | .call n w => inferInstanceAs (Decidable (((s.nodes n).isLeader → n = L) ∧
      w.operation = .set ∧ w.ttl = none ∧ (s.nodes n).membership.aliveIds.toFinset = members))
  | .begin _ _ now => inferInstanceAs (Decidable (now ≠ 0 ∧
      ∀ p ∈ issuedIn s.history, p.2.timestamp < now))
  | .get n _ _ => inferInstanceAs (Decidable ((s.nodes n).ring.nodes = members))
  | .conclude n finished => inferInstanceAs (Decidable (RealAnswers finished (s.tasks n)))
  | .deliver i _ => inferInstanceAs (Decidable (MayBeLate s.sent[i]?))
  | .restart _ _ _ _ _ => isFalse id
  | .prepare _ _ _ | .endPrepare _ | .commit _ _ _ | .settle _ _ | .async _ _ _ | .answer _ _ _ _
  | .repair _ _ _ | .endGet _ | .startElection _ | .requestVote _ _ _ | .countVotes _
  | .startHeartbeats _ | .heartbeat _ _ _ | .endHeartbeats _ | .stepDown _ | .topology _ _ _
  | .cleanup _ _ => isTrue trivial

theorem soleLeader_of_calmStep {s : Cluster} {l : Label} (h : CalmStep L members s l) :
    SoleLeader L s l := by
  cases l with
  | call n w => exact h.1
  | restart n store aof membership ring => cases h
  | _ => trivial

/-! ## Records and entries -/

/-- The record an entry leaves (the creation time apart, which no comparison reads). -/
structure Matches (e : LogEntry) (m : KeyMetadata) : Prop where
  value : m.value = e.value
  version : m.version = e.version
  updatedAt : m.updatedAt = e.timestamp
  coordinatorId : m.coordinatorId = e.coordinatorId
  expiresAt : m.expiresAt = none

theorem Matches.sortKey_eq {e : LogEntry} {m : KeyMetadata} (h : Matches e m) :
    m.sortKey = entryKey e := by
  unfold KeyMetadata.sortKey entryKey
  rw [h.version, h.updatedAt, h.coordinatorId]

/-- The record comes from an entry of the leader. -/
def Backed (L : String) (s : Cluster) (k : String) (m : KeyMetadata) : Prop :=
  ∃ e, Event.issued L e ∈ s.history ∧ e.key = k ∧ Matches e m

theorem Backed.mono {s s' : Cluster} {k : String} {m : KeyMetadata} (h : Backed L s k m)
    (hs : s.history ⊆ s'.history) : Backed L s' k m :=
  h.imp fun _ he => ⟨hs he.1, he.2⟩

/-- The node's record of the entry's key is at least as great as the entry. -/
def Holds (s : Cluster) (n : String) (e : LogEntry) : Prop :=
  (entryKey e : WithBot SortKey) ≤ rank (s.nodes n) e.key

/-- The same records under every key. -/
def SameRecords (n n' : Node) : Prop := ∀ k, n'.store.get? k = n.store.get? k

theorem SameRecords.refl (n : Node) : SameRecords n n := fun _ => rfl

/-- A store that goes forward: its records become no smaller, and new ones are backed. -/
structure Advance (L : String) (s' : Cluster) (n n' : Node) : Prop where
  rank_le : ∀ k, rank n k ≤ rank n' k
  record : ∀ k m, n'.store.get? k = some m → n.store.get? k = some m ∨ Backed L s' k m

theorem Advance.same {s' : Cluster} {n n' : Node} (h : SameRecords n n') : Advance L s' n n' := by
  refine ⟨fun k => ?_, fun k m hm => .inl (h k ▸ hm)⟩
  unfold rank
  rw [h k]

/-- Entries as the leader of a healthy run builds them. -/
structure GoodEntry (L : String) (e : LogEntry) : Prop where
  plain : PlainSet e
  version_pos : 1 ≤ e.version
  timestamp_ne : e.timestamp ≠ 0
  coordinatorId : e.coordinatorId = L

theorem matches_setRecord {e : LogEntry} (h : GoodEntry L e) (clock : Time)
    (b : Option KeyMetadata) : Matches e (setRecord clock b e.value (storeArgs e)) := by
  have hv : e.version ≠ 0 := by
    have := h.version_pos
    omega
  refine ⟨rfl, if_pos hv, rfl, rfl, ?_⟩
  simp [setRecord, storeArgs, h.plain.2]

/-- Applying an entry that is not older than what it replaces. -/
theorem advance_apply {s' : Cluster} {n : Node} {e : LogEntry} (he : GoodEntry L e)
    (hissued : Event.issued L e ∈ s'.history)
    (hle : ∀ m, n.store.get? e.key = some m → m.sortKey ≤ entryKey e) (clock : Time) :
    Advance L s' n (n.applyLogEntry clock e) ∧
      (entryKey e : WithBot SortKey) ≤ rank (n.applyLogEntry clock e) e.key := by
  have hget := get?_applyLogEntry (n := n) he.plain.1 clock
  refine ⟨⟨(applyLogEntry_keeps_iff he.plain.1 clock).mpr (.inr hle), fun k m hm => ?_⟩, ?_⟩
  · rw [hget] at hm
    split at hm
    · rename_i hk
      rw [Option.some.injEq] at hm
      exact .inr ⟨e, hissued, hk, hm ▸ matches_setRecord he clock _⟩
    · exact .inl hm
  · rw [rank_of_some ((hget e.key).trans (if_pos rfl)), (matches_setRecord he clock _).sortKey_eq]

/-- An update that carries an entry. -/
structure Carries (u : Versioned) (e : LogEntry) : Prop where
  key : u.key = e.key
  value : u.value = e.value
  version : u.version = e.version
  expiresAt : u.expiresAt = none
  updatedAt : u.updatedAt = e.timestamp
  coordinatorId : u.coordinatorId = e.coordinatorId

theorem advance_storeUnlessOlder {s' : Cluster} {n : Node} (hn : Plain n) {u : Versioned}
    {e : LogEntry} (he : GoodEntry L e) (hu : Carries u e)
    (hissued : Event.issued L e ∈ s'.history) (clock : Time) :
    Advance L s' n (n.storeUnlessOlder clock u).1 := by
  refine ⟨storeUnlessOlder_keeps hn clock u, fun k m hm => ?_⟩
  simp only [Node.storeUnlessOlder, getWithMetadata_plain hn] at hm
  split at hm
  · exact .inl hm
  · simp only [KVStore.get?_set] at hm
    split at hm
    · rename_i hk
      rw [Option.some.injEq] at hm
      have hv : u.version ≠ 0 := by
        have := he.version_pos
        have := hu.version
        omega
      refine .inr ⟨e, hissued, hu.key.symm.trans hk.symm, ?_⟩
      subst hm
      refine ⟨hu.value, (if_pos hv).trans hu.version, hu.updatedAt, hu.coordinatorId, ?_⟩
      simp [setRecord, Versioned.setArgs, hu.expiresAt]
    · exact .inl hm

/-! ## The invariant -/

/-- The entry of `q` comes after that of `p`. -/
def Before (p q : String × LogEntry) : Prop :=
  p.2.timestamp < q.2.timestamp ∧ (p.2.key = q.2.key → p.2.version ≤ q.2.version)

/-- The answer tells of an entry. -/
structure Tells (a : ReadAnswer) (e : LogEntry) : Prop where
  found : a.found = true
  value : a.value = e.value
  version : a.version = e.version
  updatedAt : a.updatedAt = e.timestamp
  expiresAt : a.expiresAt = none
  coordinatorId : a.coordinatorId = e.coordinatorId

/-- What a node can answer to a read of the key. -/
def GoodAnswer (L : String) (s : Cluster) (key : String) (a : ReadAnswer) : Prop :=
  a = missingAnswer ∨ ∃ e, Event.issued L e ∈ s.history ∧ e.key = key ∧ Tells a e

theorem GoodAnswer.mono {s s' : Cluster} {key : String} {a : ReadAnswer}
    (h : GoodAnswer L s key a) (hs : s.history ⊆ s'.history) : GoodAnswer L s' key a :=
  h.imp id fun ⟨e, he, h⟩ => ⟨e, hs he, h⟩

/-- The read result comes from an entry of the leader. -/
def GoodResult (L : String) (s : Cluster) (key : String) (r : ReadResult) : Prop :=
  ∃ e id a, Event.issued L e ∈ s.history ∧ e.key = key ∧ Tells a e ∧ r = resultOf id a

theorem GoodResult.mono {s s' : Cluster} {key : String} {r : ReadResult}
    (h : GoodResult L s key r) (hs : s.history ⊆ s'.history) : GoodResult L s' key r :=
  h.imp fun _ ⟨id, a, he, h⟩ => ⟨id, a, hs he, h⟩

/-- Every record comes from an entry of the leader. -/
structure Records (L : String) (s : Cluster) : Prop where
  good : ∀ e, Event.issued L e ∈ s.history → GoodEntry L e
  backed : ∀ n k m, (s.nodes n).store.get? k = some m → Backed L s k m

/-- The read asks members only. -/
structure Asks (members : Finset String) (p : ReadPlan) : Prop where
  nodup : p.replicas.Nodup
  replicas : ∀ r ∈ p.replicas, r ∈ members
  factor : p.replicationFactor = members.card

structure Calm (L : String) (members : Finset String) (s : Cluster) : Prop where
  sole : Sole L s
  counted : Counted s
  leader : L ∈ members
  factor : ∀ n, (s.nodes n).config.replicationFactor = members.card
  level : (s.nodes L).config.defaultConsistency = .quorum ∨
    (s.nodes L).config.defaultConsistency = .all
  waiting : ∀ p ∈ s.waiting, p.2.1.operation = .set ∧ p.2.1.ttl = none ∧ ∀ r ∈ p.2.2, r ∈ members
  records : Records L s
  order : (issuedIn s.history).Pairwise Before
  /-- A failed write leaves the leader's version as it was, and the next write uses it again. -/
  bound : ∀ e, Event.issued L e ∈ s.history →
    e.version ≤ (s.nodes L).storedVersion 0 e.key + 1
  newest : ∀ n T e, s.tasks n = some T → T.entry? = some e →
    ∀ e', Event.issued L e' ∈ s.history → e'.key = e.key → entryKey e' ≤ entryKey e
  preparing : ∀ n e replicas targets rest, s.tasks n = some (.prepare e replicas targets rest) →
    ∀ r ∈ targets, r ∈ members
  committing : ∀ n e rest k, s.tasks n = some (.commit e rest k) → ∀ r ∈ rest, r ∈ members
  held : ∀ n e, Event.applied n e ∈ s.history → n ∈ members ∧ Holds s n e
  reading : ∀ n p since answers, s.tasks n = some (.read p since answers) → Asks members p ∧
    ∀ r a, answers.get? r = some a → GoodAnswer L s p.key a.1
  repairing : ∀ n p since results best repairs rest,
    s.tasks n = some (.repair p since results (.found best repairs) rest) →
      GoodResult L s p.key best

namespace Records

variable {s : Cluster}

/-- Every record has a version of at least 1 and no TTL. -/
theorem of_get? (h : Records L s) {n k : String} {m : KeyMetadata}
    (hm : (s.nodes n).store.get? k = some m) : 1 ≤ m.version ∧ m.expiresAt = none := by
  obtain ⟨e, hissued, -, hmatch⟩ := h.backed n k m hm
  exact ⟨hmatch.version ▸ (h.good e hissued).version_pos, hmatch.expiresAt⟩

theorem storedVersion_eq (h : Records L s) (clock : Time) (n k : String) :
    (s.nodes n).storedVersion clock k = ((s.nodes n).store.get? k).elim 0 KeyMetadata.version := by
  unfold Node.storedVersion KVStore.getWithMetadata
  cases hm : (s.nodes n).store.get? k with
  | none => rfl
  | some m => simp [(h.of_get? hm).2]

theorem storedVersion_nonneg (h : Records L s) (clock : Time) (n k : String) :
    0 ≤ (s.nodes n).storedVersion clock k := by
  rw [h.storedVersion_eq]
  cases hm : (s.nodes n).store.get? k with
  | none => exact le_rfl
  | some m =>
    have := (h.of_get? hm).1
    rw [Option.elim_some]
    omega

/-- A store that goes forward keeps its versions at least. -/
theorem storedVersion_mono {s' : Cluster} (h : Records L s) (h' : Records L s') {n k : String}
    (hrank : rank (s.nodes n) k ≤ rank (s'.nodes n) k) (clock : Time) :
    (s.nodes n).storedVersion clock k ≤ (s'.nodes n).storedVersion clock k := by
  cases hm : (s.nodes n).store.get? k with
  | none =>
    rw [h.storedVersion_eq, hm]
    exact h'.storedVersion_nonneg clock n k
  | some m =>
    rw [h.storedVersion_eq, h'.storedVersion_eq, hm]
    rw [rank_of_some hm] at hrank
    cases hm' : (s'.nodes n).store.get? k with
    | none =>
      rw [rank_of_none hm', le_bot_iff] at hrank
      cases hrank
    | some m' =>
      rw [rank_of_some hm', WithBot.coe_le_coe] at hrank
      exact version_le_of_sortKey_le hrank

end Records

namespace Calm

variable {s : Cluster}

theorem plain (h : Calm L members s) (n : String) : Plain (s.nodes n) :=
  ⟨fun _ _ hm => (h.records.of_get? hm).2,
    fun i e he => (h.records.good e (h.sole.issued (h.sole.known.staged n i e he).2)).plain⟩

/-- The entry of a write under way is at least as great as every stored record. -/
theorem current (h : Calm L members s) {n : String} {T : Task} {e : LogEntry}
    (hT : s.tasks n = some T) (he : T.entry? = some e) :
    n = L ∧ Event.issued L e ∈ s.history ∧ GoodEntry L e ∧
      ∀ f m, (s.nodes f).store.get? e.key = some m → m.sortKey ≤ entryKey e := by
  have hissued := h.sole.known.task n T e hT he
  obtain rfl := h.sole.issuer n e hissued
  refine ⟨rfl, hissued, h.records.good e hissued, fun f m hm => ?_⟩
  obtain ⟨e', hissued', hkey, hmatch⟩ := h.records.backed f e.key m hm
  rw [hmatch.sortKey_eq]
  exact h.newest n T e hT he e' hissued' hkey

end Calm

/-! ## Stores go forward -/

/-- No store goes back, and what is applied is held by members. -/
structure Progress (L : String) (members : Finset String) (s s' : Cluster) : Prop where
  advance : ∀ n, Advance L s' (s.nodes n) (s'.nodes n)
  applied : ∀ n e, Event.applied n e ∈ s'.history →
    Event.applied n e ∈ s.history ∨ (n ∈ members ∧ Holds s' n e)

theorem Advance.refl {s' : Cluster} (n : Node) : Advance L s' n n := .same (.refl n)

/-- A step that changes no record and applies nothing. -/
theorem Progress.same {s s' : Cluster} (hnodes : ∀ n, SameRecords (s.nodes n) (s'.nodes n))
    (happlied : ∀ n e, Event.applied n e ∈ s'.history → Event.applied n e ∈ s.history) :
    Progress L members s s' :=
  ⟨fun n => .same (hnodes n), fun n e he => .inl (happlied n e he)⟩

/-- A prepare stages the entry and touches no record. -/
theorem sameRecords_sendPrepare (s : Cluster) (clock : Time) (dest : String) (e : LogEntry)
    (d : Delivery) (n : String) :
    SameRecords (s.nodes n) ((s.send clock dest (.replicate e .prepare) d).1.nodes n) :=
  rel_send SameRecords.refl (by exact fun _ => rfl) n

/-- An entry that is handled in a commit, and is not older than what it meets. -/
theorem advance_commit {s' : Cluster} {n : Node} {e : LogEntry} (he : GoodEntry L e)
    (hissued : Event.issued L e ∈ s'.history) (happly : n.toApply e = e)
    (hle : ∀ m, n.store.get? e.key = some m → m.sortKey ≤ entryKey e) (clock : Time) :
    Advance L s' n (n.commit clock e) ∧
      (entryKey e : WithBot SortKey) ≤ rank (n.commit clock e) e.key := by
  have h := advance_apply (n := { n with staged := n.staged.erase e.index }) he hissued hle clock
  unfold Node.commit
  rw [happly]
  exact ⟨⟨h.1.rank_le, h.1.record⟩, h.2⟩

/-- Repairs store what an entry leaves. -/
theorem carries_repair {a : ReadAnswer} {e : LogEntry} (htells : Tells a e) (id : String)
    {updatedAt createdAt : Time} (hupdated : updatedAt = a.updatedAt) :
    Carries { key := e.key, value := (resultOf id a).value, version := a.version
              expiresAt := a.expiresAt, createdAt := createdAt, updatedAt := updatedAt
              coordinatorId := a.coordinatorId } e :=
  ⟨rfl, (if_pos htells.found).trans htells.value, htells.version, htells.expiresAt,
    hupdated.trans htells.updatedAt, htells.coordinatorId⟩

theorem advance_repairWith {s s' : Cluster} (hplain : ∀ n, Plain (s.nodes n)) {a : ReadAnswer}
    {e : LogEntry} (he : GoodEntry L e) (htells : Tells a e)
    (hissued : Event.issued L e ∈ s'.history) (m target id : String) (d : Delivery)
    (clock : Time) (n : String) :
    Advance L s' (s.nodes n)
      ((s.repairWith clock m e.key target (resultOf id a) d).nodes n) := by
  have htime : orElse (some a.updatedAt) clock = a.updatedAt :=
    if_pos (htells.updatedAt ▸ he.timestamp_ne)
  unfold repairWith
  split
  · exact rel_update Advance.refl (advance_storeUnlessOlder (hplain m) he
      (carries_repair htells id htime) hissued clock) n
  · exact rel_send (m := .replicaSet (Node.repairArgs e.key (resultOf id a))) Advance.refl
      (advance_storeUnlessOlder (hplain target) he (carries_repair htells id rfl) hissued clock) n

theorem progress_step {s s' : Cluster} {l : Label} (h : Calm L members s)
    (hl : CalmStep L members s l) (hs : step hash s l = some s') : Progress L members s s' := by
  have hgrows : s.history ⊆ s'.history := history_step hs
  cases step_effect hs with
  | control hl hb hc =>
    refine .same (fun n k => by rw [(hc.nodes n).store]) fun n e he => ?_
    rcases hc.history with hh | ⟨m, w, r, hh⟩
    · exact hh ▸ he
    · simpa [hh] using he
  | @begun i clock now m w replicas hi hfree =>
    refine .same (fun n => ?_) fun n e he => ?_
    · rw [nodes_begun]
      refine rel_update SameRecords.refl (fun k => ?_) n
      rw [(Node.beginWrite_spec clock now (s.nodes m) w replicas).store,
        getWithMetadata_plain (h.plain m)]
    · simp only [Cluster.begun, history_beginTask] at he
      revert he
      cases ((s.nodes m).beginWrite clock now w replicas).2.2 <;> simp [log, setNode]
  | @prepared m f d clock e replicas targets rest ht =>
    refine .same (fun n k => ?_) fun n e' he => by simpa [setTask] using he
    have hsend := fun n => sameRecords_sendPrepare s clock f e (deliveryTo (s.nodes m) f d) n k
    simp only [setTask, Cluster.prepared]
    split
    · rw [← hsend n]
      exact rel_update SameRecords.refl (by exact fun _ => rfl) n k
    · exact hsend n
  | ready ht => exact .same (rel_update SameRecords.refl (by exact fun _ => rfl)) fun n e he => he
  | unready ht =>
    refine .same (rel_update SameRecords.refl (by exact fun _ => rfl)) fun n e he => ?_
    simpa [setTask, setNode, log] using he
  | @committed m f d clock e rest k ht =>
    obtain ⟨-, hissued, hgood, hle⟩ := h.current ht rfl
    have happly := h.sole.toApply f ⟨L, hissued⟩
    have hstep := advance_commit hgood (hgrows hissued) happly (hle f) clock
    refine ⟨rel_send (m := .replicate e .commit) Advance.refl hstep.1, fun n e' he => ?_⟩
    simp only [setTask, history_send, List.mem_append] at he
    rcases he with he | he
    · exact .inl he
    · split at he
      · rename_i hd
        simp only [eventsOf, happly, List.mem_cons, reduceCtorEq, Event.applied.injEq,
          List.not_mem_nil, or_false, false_or] at he
        obtain ⟨rfl, rfl⟩ := he
        refine .inr ⟨h.committing m e' _ _ ht n List.mem_cons_self, ?_⟩
        unfold Holds
        simp only [setTask, nodes_send, hd, if_true, Function.update_self]
        exact hstep.2
      · cases he
  | @settled m clock e k ht =>
    obtain ⟨rfl, hissued, hgood, hle⟩ := h.current ht rfl
    rcases Node.settleWrite_cases clock (s.nodes m) e k with ⟨text, hsettle⟩ | ⟨-, hsettle⟩
    · rw [hsettle]
      refine .same (rel_update SameRecords.refl (by exact fun _ => rfl)) fun n e' he => ?_
      simpa [Response.success, setTask, setNode, log] using he
    · rw [hsettle] at hgrows ⊢
      have hstep := advance_apply hgood (hgrows hissued) (hle m) clock
      refine ⟨rel_update Advance.refl hstep.1, fun n e' he => ?_⟩
      simp only [log, setTask, setNode, Response.success, if_true, List.mem_append,
        List.mem_singleton, Event.applied.injEq, reduceCtorEq, or_false] at he
      rcases he with he | ⟨rfl, rfl⟩
      · exact .inl he
      · refine .inr ⟨h.leader, ?_⟩
        unfold Holds
        simp only [log, setTask, setNode, Function.update_self]
        exact hstep.2
  | asyncDone hq =>
    exact .same (rel_update SameRecords.refl (by exact fun _ => rfl)) fun n e he => he
  | @asyncSent m f d clock e rest queue hq d' =>
    refine .same (fun n k => ?_) fun n e' he => ?_
    · rw [sameRecords_sendPrepare]
      exact rel_update SameRecords.refl (by exact fun _ => rfl) n k
    · rw [history_send, show ∀ v, eventsOf f v (.replicate e .prepare) = [] from fun _ => rfl]
        at he
      simpa [setNode] using he
  | @answered m r d d' clock p since answers ht hnew =>
    refine .same (fun n => ?_) fun n e' he => by simpa [setTask] using he
    have hread : SameRecords (s.nodes r) ((s.nodes r).localRead clock p.key).1 := by
      intro k
      simp only [Node.localRead, getWithMetadata_plain (h.plain r)]
    cases d' with
    | unsent => exact .refl _
    | sent => exact .refl _
    | handled => exact rel_update SameRecords.refl hread n
    | answered => exact rel_update SameRecords.refl hread n
  | @repaired m d clock p since results best repairs rest r ht =>
    obtain ⟨e, id, a, hissued, hkey, htells, rfl⟩ := h.repairing m p since results best _ _ ht
    rw [← hkey] at hgrows ⊢
    have hgood := h.records.good e hissued
    refine ⟨fun n => ?_, fun n e' he => .inl (by simpa [setTask] using he)⟩
    exact advance_repairWith h.plain hgood htells (hgrows hissued) m r.nodeId id d clock n
  | gotten ht => exact .same (fun n => .refl _) fun n e he => by simpa [setTask, log] using he
  | @delivered i clock dest m hm hdata =>
    simp only [CalmStep, hm, MayBeLate] at hl
    exact absurd hl hdata
  | restarted => cases hl
  | @cleaned m clock =>
    refine .same (rel_update SameRecords.refl fun k => ?_) fun n e he => he
    rw [KVStore.get?_cleanupExpired]
    cases hm : (s.nodes m).store.get? k with
    | none => rfl
    | some r => simp [(h.plain m).store k r hm]
  | _ => exact .same (fun n => .refl _) fun n e he => he

/-! ## The invariant is kept -/

theorem entryKey_le_of_before {p q : String × LogEntry} (h : Before p q)
    (hkey : p.2.key = q.2.key) : entryKey p.2 ≤ entryKey q.2 :=
  le_of_lt ((entryKey_lt_iff h.1).mpr (h.2 hkey))

/-- The entry of a write that begins comes after all others. -/
theorem begun_after {s : Cluster} {l : Label} (h : Calm L members s) (hl : CalmStep L members s l)
    {n : String} {e : LogEntry} (he : s.entryBegun l = some (n, e)) :
    n = L ∧ s.tasks n = none ∧ GoodEntry L e ∧
      e.version = (s.nodes L).storedVersion 0 e.key + 1 ∧
      ∀ p ∈ issuedIn s.history, Before p (n, e) := by
  cases l with
  | begin i clock now =>
    obtain ⟨w, replicas, hi, hfree, rfl⟩ := entryBegun_eq he
    obtain ⟨hset, httl, -⟩ := h.waiting _ (List.mem_of_getElem? hi)
    obtain rfl := (h.sole.waiting _ (List.mem_of_getElem? hi)).1
    have hversion : ((s.nodes n).newEntry clock now w).2.version =
        (s.nodes n).storedVersion 0 w.key + 1 := by
      rw [Node.version_newEntry, h.records.storedVersion_eq, h.records.storedVersion_eq]
    have hnonneg := h.records.storedVersion_nonneg 0 n w.key
    refine ⟨rfl, hfree, ⟨⟨hset, ?_⟩, by omega, hl.1, h.sole.ids n⟩, hversion,
      fun p hp => ⟨hl.2 p hp, ?_⟩⟩
    · exact congrArg (Option.map _) httl
    · intro hkey
      obtain rfl := h.sole.issuer p.1 p.2 (mem_issuedIn.mp hp)
      have := h.bound p.2 (mem_issuedIn.mp hp)
      rw [hkey] at this
      exact le_of_le_of_eq this hversion.symm
  | _ => cases he

theorem tells_answerOf {e : LogEntry} {m : KeyMetadata} (h : Matches e m) :
    Tells (answerOf (some m)) e :=
  ⟨rfl, h.value, h.version, h.updatedAt, h.expiresAt, h.coordinatorId⟩

/-- What a node has to say about a key. -/
theorem localRead_eq {s : Cluster} (h : Calm L members s) (clock : Time) (r key : String) :
    ((s.nodes r).localRead clock key).2 = answerOf ((s.nodes r).store.get? key) := by
  simp only [Node.localRead, getWithMetadata_plain (h.plain r)]

theorem answer_good {s : Cluster} (h : Calm L members s) (r key : String) (clock : Time)
    (d : Delivery) : GoodAnswer L s key (s.readFrom clock r key d).2.1 := by
  rcases readFrom_answer clock s r key d with heq | heq
  · exact .inl (congrArg Prod.fst heq)
  · rw [heq, localRead_eq h]
    cases hm : (s.nodes r).store.get? key with
    | none => exact .inl rfl
    | some m =>
      obtain ⟨e, hissued, hkey, hmatch⟩ := h.records.backed r key m hm
      exact .inr ⟨e, hissued, hkey, tells_answerOf hmatch⟩

theorem collected_good {s : Cluster} {key : String} {answers : Dict String (ReadAnswer × Bool)}
    (h : ∀ r a, answers.get? r = some a → GoodAnswer L s key a.1) (r : String) :
    GoodAnswer L s key (collectedAnswer answers r) := by
  unfold collectedAnswer
  cases ha : answers.get? r with
  | none => exact .inl rfl
  | some a => exact h r a ha

namespace Calm

variable {s s' : Cluster} {l : Label}

theorem records_step (h : Calm L members s) (hl : CalmStep L members s l)
    (hs : step hash s l = some s') : Records L s' := by
  refine ⟨fun e he => ?_, fun n k m hm => ?_⟩
  · rcases (issued_step hs L e).mp he with he | he
    · exact h.records.good e he
    · exact (begun_after h hl he).2.2.1
  · rcases ((progress_step h hl hs).advance n).record k m hm with hold | hnew
    · exact (h.records.backed n k m hold).mono (history_step hs)
    · exact hnew

theorem waiting_kept (h : Calm L members s) (hl : CalmStep L members s l)
    (hs : step hash s l = some s') {p : String × WriteCall × List String} (hp : p ∈ s'.waiting) :
    p.2.1.operation = .set ∧ p.2.1.ttl = none ∧ ∀ r ∈ p.2.2, r ∈ members := by
  rcases waiting_step hs hp with hold | ⟨rfl, hadmit⟩
  · exact h.waiting p hold
  · obtain ⟨hleads, hset, httl, halive⟩ := hl
    refine ⟨hset, httl, fun r hr => ?_⟩
    rcases (Node.mem_admitted hadmit).mp hr with rfl | hr
    · rw [h.sole.ids, hleads (Node.admitWrite_eq hadmit).1]
      exact h.leader
    · rw [← halive]
      exact List.mem_toFinset.mpr hr

theorem order_step (h : Calm L members s) (hl : CalmStep L members s l)
    (hs : step hash s l = some s') : (issuedIn s'.history).Pairwise Before := by
  rw [issuedIn_step hs, List.pairwise_append]
  refine ⟨h.order, ?_, fun p hp q hq => ?_⟩
  · cases s.entryBegun l <;> simp
  · rw [Option.mem_toList] at hq
    exact (begun_after h hl hq).2.2.2.2 p hp

theorem bound_step (h : Calm L members s) (hl : CalmStep L members s l)
    (hs : step hash s l = some s') {e : LogEntry} (he : Event.issued L e ∈ s'.history) :
    e.version ≤ (s'.nodes L).storedVersion 0 e.key + 1 := by
  have hmono := h.records.storedVersion_mono (h.records_step hl hs)
    (((progress_step h hl hs).advance L).rank_le e.key) 0
  rcases (issued_step hs L e).mp he with he | he
  · have := h.bound e he
    omega
  · have := (begun_after h hl he).2.2.2.1
    omega

/-- No write begins while another one is under way. -/
theorem newest_kept (h : Calm L members s) (hl : CalmStep L members s l)
    (hs : step hash s l = some s') {n : String} {T : Task} {e : LogEntry}
    (hT : s.tasks n = some T) (he : T.entry? = some e) {e' : LogEntry}
    (he' : Event.issued L e' ∈ s'.history) (hkey : e'.key = e.key) : entryKey e' ≤ entryKey e := by
  rcases (issued_step hs L e').mp he' with hold | hnew
  · exact h.newest n T e hT he e' hold hkey
  · obtain ⟨rfl, -⟩ := h.current hT he
    rw [(begun_after h hl hnew).2.1] at hT
    cases hT

theorem newest_begun (h : Calm L members s) (hl : CalmStep L members s l)
    (hs : step hash s l = some s') {n : String} {e : LogEntry} (he : s.entryBegun l = some (n, e))
    {e' : LogEntry} (he' : Event.issued L e' ∈ s'.history) (hkey : e'.key = e.key) :
    entryKey e' ≤ entryKey e := by
  rcases (issued_step hs L e').mp he' with hold | hnew
  · exact entryKey_le_of_before ((begun_after h hl he).2.2.2.2 _ (mem_issuedIn.mpr hold)) hkey
  · rw [he, Option.some.injEq, Prod.mk.injEq] at hnew
    exact hnew.2 ▸ le_rfl

theorem newest_step (h : Calm L members s) (hl : CalmStep L members s l)
    (hs : step hash s l = some s') {n : String} {T : Task} {e : LogEntry}
    (hT : s'.tasks n = some T) (he : T.entry? = some e) {e' : LogEntry}
    (he' : Event.issued L e' ∈ s'.history) (hkey : e'.key = e.key) : entryKey e' ≤ entryKey e := by
  rcases task_step hs hT with hold | hnew
  · exact h.newest_kept hl hs hold he he' hkey
  · cases hnew with
    | begunPrepare hw hb =>
      obtain rfl := Option.some.inj he
      exact h.newest_begun hl hs hb he' hkey
    | begunCommit hw hb =>
      obtain rfl := Option.some.inj he
      exact h.newest_begun hl hs hb he' hkey
    | prepared ht => exact h.newest_kept hl hs ht he he' hkey
    | ready ht => exact h.newest_kept hl hs ht he he' hkey
    | unconfirmed ht => exact h.newest_kept hl hs ht he he' hkey
    | confirmed ht hc => exact h.newest_kept hl hs ht he he' hkey
    | _ => cases he

/-- A write that waits has members as targets. -/
theorem targets_mem (h : Calm L members s) {n : String} {w : WriteCall} {replicas : List String}
    (hw : (n, w, replicas) ∈ s.waiting) : ∀ r ∈ (s.nodes n).targets replicas, r ∈ members :=
  fun r hr => (h.waiting _ hw).2.2 r (Node.mem_targets.mp hr).1

theorem preparing_step (h : Calm L members s) (hs : step hash s l = some s') {n : String}
    {e : LogEntry} {replicas targets rest : List String}
    (hT : s'.tasks n = some (.prepare e replicas targets rest)) : ∀ r ∈ targets, r ∈ members := by
  rcases task_step hs hT with hold | hnew
  · exact h.preparing n e replicas targets rest hold
  · cases hnew with
    | begunPrepare hw hb => exact h.targets_mem hw
    | prepared ht => exact h.preparing n e replicas targets _ ht

theorem committing_step (h : Calm L members s) (hs : step hash s l = some s') {n : String}
    {e : LogEntry} {rest : List String} {k : Nat} (hT : s'.tasks n = some (.commit e rest k)) :
    ∀ r ∈ rest, r ∈ members := by
  rcases task_step hs hT with hold | hnew
  · exact h.committing n e rest k hold
  · cases hnew with
    | begunCommit hw hb => exact h.targets_mem hw
    | ready ht => exact h.preparing n e _ _ _ ht
    | unconfirmed ht => exact fun r hr => h.committing n e _ _ ht r (List.mem_cons_of_mem _ hr)
    | confirmed ht hc =>
      exact fun r hr => h.committing n e _ _ ht r (List.mem_cons_of_mem _ hr)

theorem reading_step (h : Calm L members s) (hl : CalmStep L members s l)
    (hs : step hash s l = some s') {n : String} {p : ReadPlan} {since : Nat}
    {answers : Dict String (ReadAnswer × Bool)} (hT : s'.tasks n = some (.read p since answers)) :
    Asks members p ∧ ∀ r a, answers.get? r = some a → GoodAnswer L s' p.key a.1 := by
  have hgrows : s.history ⊆ s'.history := history_step hs
  rcases task_step hs hT with hold | hnew
  · obtain ⟨hasks, hgood⟩ := h.reading n p since answers hold
    exact ⟨hasks, fun r a ha => (hgood r a ha).mono hgrows⟩
  · cases hnew with
    | @getBegun key level hlabel =>
      subst hlabel
      refine ⟨⟨ConsistentHashRing.nodup_getNodes _ _ _ _, fun r hr => ?_, h.factor n⟩,
        fun r a ha => by cases ha⟩
      exact hl ▸ ConsistentHashRing.mem_getNodes hr
    | @answered p since answers ht r clock d =>
      obtain ⟨hasks, hgood⟩ := h.reading n p since answers ht
      refine ⟨hasks, fun r' a ha => ?_⟩
      rw [Dict.get?_set] at ha
      split at ha
      · rw [Option.some.injEq] at ha
        subst ha
        exact (answer_good h r p.key clock d).mono hgrows
      · exact (hgood r' a ha).mono hgrows

theorem repairing_step (h : Calm L members s) (hs : step hash s l = some s') {n : String}
    {p : ReadPlan} {since : Nat} {results : List ReadResult} {best : ReadResult}
    {repairs rest : List ReadResult}
    (hT : s'.tasks n = some (.repair p since results (.found best repairs) rest)) :
    GoodResult L s' p.key best := by
  have hgrows : s.history ⊆ s'.history := history_step hs
  rcases task_step hs hT with hold | hnew
  · exact (h.repairing n p since results best repairs rest hold).mono hgrows
  · generalize hT' : Task.repair p since results (.found best repairs) rest = T at hnew
    cases hnew with
    | @concluded finished p' since' answers hlabel ht hnodup hfinished =>
      injection hT' with hplan _ _ houtcome _
      subst hplan
      obtain ⟨hasks, hgood⟩ := h.reading n p since' answers ht
      obtain ⟨r, rfl, hanswer⟩ := read_found hasks.nodup houtcome.symm
      obtain ⟨e, he, hkey, htells⟩ := (collected_good hgood r).resolve_left hanswer
      exact ⟨e, r, _, hgrows he, hkey, htells, rfl⟩
    | @repaired p' since' results' best' repairs' rest' r ht =>
      injection hT' with hplan _ _ houtcome _
      injection houtcome with hbest _
      subst hplan hbest
      exact (h.repairing n p since' results' best repairs' _ ht).mono hgrows
    | _ => cases hT'

end Calm

theorem calm_step {s s' : Cluster} {l : Label} (h : Calm L members s)
    (hl : CalmStep L members s l) (hs : step hash s l = some s') : Calm L members s' where
  sole := sole_step h.sole (soleLeader_of_calmStep hl) hs
  counted := h.sole.counted_step h.counted hs
  leader := h.leader
  factor n := by rw [config_step hs, h.factor]
  level := by rw [config_step hs]; exact h.level
  waiting _ hp := h.waiting_kept hl hs hp
  records := h.records_step hl hs
  order := h.order_step hl hs
  bound _ he := h.bound_step hl hs he
  newest _ _ _ hT he _ he' hkey := h.newest_step hl hs hT he he' hkey
  preparing _ _ _ _ _ hT := h.preparing_step hs hT
  committing _ _ _ _ hT := h.committing_step hs hT
  held n e he := by
    have hp := progress_step h hl hs
    rcases hp.applied n e he with hold | hnew
    · exact ⟨(h.held n e hold).1, le_trans (h.held n e hold).2 ((hp.advance n).rank_le e.key)⟩
    · exact hnew
  reading _ _ _ _ hT := h.reading_step hl hs hT
  repairing _ _ _ _ _ _ _ hT := h.repairing_step hs hT

/-! ## Healthy runs -/

/-- `members.card` is the replication factor, `L` writes at QUORUM or ALL, and nothing is stored
    yet. -/
structure CalmStart (L : String) (members : Finset String) (s : Cluster) : Prop where
  fresh : Fresh s
  leader : L ∈ members
  factor : ∀ n, (s.nodes n).config.replicationFactor = members.card
  level : (s.nodes L).config.defaultConsistency = .quorum ∨
    (s.nodes L).config.defaultConsistency = .all
  empty : ∀ n k, (s.nodes n).store.get? k = none

theorem CalmStart.calm {s : Cluster} (h : CalmStart L members s) : Calm L members s where
  sole := sole_fresh h.fresh
  counted := counted_fresh h.fresh
  leader := h.leader
  factor := h.factor
  level := h.level
  waiting p hp := by rw [h.fresh.waiting] at hp; cases hp
  records := ⟨fun e he => absurd he (h.fresh.no_event _),
    fun n k m hm => by rw [h.empty] at hm; cases hm⟩
  order := by rw [h.fresh.history]; exact List.Pairwise.nil
  bound _ he := absurd he (h.fresh.no_event _)
  newest _ _ _ hT := absurd hT h.fresh.no_task
  preparing _ _ _ _ _ hT := absurd hT h.fresh.no_task
  committing _ _ _ _ hT := absurd hT h.fresh.no_task
  held _ _ he := absurd he (h.fresh.no_event _)
  reading _ _ _ _ hT := absurd hT h.fresh.no_task
  repairing _ _ _ _ _ _ _ hT := absurd hT h.fresh.no_task

end Healthy

end MiniDb
