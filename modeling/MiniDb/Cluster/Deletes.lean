/-
  DELETEs (`node.py`, `_apply_log_entry`; `read_coordinator.py`, `_read_quorum` and
  `_trigger_read_repair`), in a cluster of as many members as there are replicas.

  A DELETE leaves nothing behind. A read takes a record where it finds one for newer than a
  record that is not there, answers with it, and repairs the nodes that do not have it. So a
  DELETE that was acknowledged can be undone: by a member that has missed its commit message, by
  a GET that was under way meanwhile, by a late commit message of an older SET
  (`delete_undone`). Nothing else undoes it (`deleted_stays_absent`): when none of these happens
  no member has a record of the key, and no read finds one, until a newer SET is issued.
-/
import MiniDb.Cluster.Healthy
import MiniDb.Cluster.Stores
import MiniDb.Node.Merge

namespace MiniDb

open Lib ReadCoordinator

namespace Deletes

open Cluster SingleLeader

variable {hash : String → Nat} {L : String} {members : Finset String} {d : LogEntry}

/-- What is assumed of a step: `L` leads, writes go to the members and reads ask them, every
    counted answer is a replica's own, and no process is restarted. -/
def StableStep (L : String) (members : Finset String) (s : Cluster) : Label → Prop
  | .call n _ => ((s.nodes n).isLeader → n = L) ∧ (s.nodes n).membership.aliveIds.toFinset = members
  | .get n _ _ => (s.nodes n).ring.nodes = members
  | .conclude n finished => Healthy.RealAnswers finished (s.tasks n)
  | .restart _ _ _ _ _ => False
  | _ => True

instance (s : Cluster) : (l : Label) → Decidable (StableStep L members s l)
  | .call n _ => inferInstanceAs (Decidable (((s.nodes n).isLeader → n = L) ∧
      (s.nodes n).membership.aliveIds.toFinset = members))
  | .get n _ _ => inferInstanceAs (Decidable ((s.nodes n).ring.nodes = members))
  | .conclude n finished =>
    inferInstanceAs (Decidable (Healthy.RealAnswers finished (s.tasks n)))
  | .restart _ _ _ _ _ => isFalse id
  | .begin _ _ _ | .prepare _ _ _ | .endPrepare _ | .commit _ _ _ | .settle _ _ | .async _ _ _
  | .answer _ _ _ _ | .repair _ _ _ | .endGet _ | .startElection _ | .requestVote _ _ _
  | .countVotes _ | .startHeartbeats _ | .heartbeat _ _ _ | .endHeartbeats _ | .stepDown _
  | .deliver _ _ | .topology _ _ _ | .cleanup _ _ => isTrue trivial

theorem StableStep.soleLeader {s : Cluster} {l : Label} (h : StableStep L members s l) :
    SoleLeader L s l := by
  cases l with
  | call n w => exact h.1
  | restart n store aof membership ring => cases h
  | _ => trivial

/-! ## What undoes a DELETE -/

/-- A SET of the key has been issued after `d`: the leader counts its writes. -/
def Renewed (h : List Event) (d : LogEntry) : Prop :=
  ∃ p ∈ issuedIn h, p.2.command = .set ∧ p.2.key = d.key ∧ d.index < p.2.index

/-- The write of this number has been answered with success. -/
def Acked (h : List Event) (index : Nat) : Prop := ∃ e ∈ acknowledged h, e.index = index

/-- The write of this number is under way at the leader. -/
def UnderWay (L : String) (s : Cluster) (index : Nat) : Prop :=
  ∃ e ∈ (s.tasks L).bind Task.entry?, e.index = index

/-- From the beginning of the DELETE until a newer SET is issued. -/
def Deleting (L : String) (d : LogEntry) (s : Cluster) : Prop :=
  (UnderWay L s d.index ∨ Acked s.history d.index) ∧ ¬ Renewed s.history d

instance (h : List Event) : Decidable (Renewed h d) := by
  unfold Renewed
  infer_instance

instance (h : List Event) (index : Nat) : Decidable (Acked h index) := by
  unfold Acked
  infer_instance

instance (s : Cluster) (index : Nat) : Decidable (UnderWay L s index) := by
  unfold UnderWay
  infer_instance

instance (s : Cluster) : Decidable (Deleting L d s) := by
  unfold Deleting
  infer_instance

/-- A commit message of the DELETE is handled, or finds no record. -/
def Reaches (d : LogEntry) (s : Cluster) (n : String) (delivery : Delivery) : Option Task → Prop
  | some (.commit e (f :: _) _) => e.index = d.index →
      (deliveryTo (s.nodes n) f delivery).isHandled ∨ ((s.nodes f).store.get? d.key).isNone
  | _ => True

/-- The GET repairs another key, or began after the acknowledgement. -/
def RepairsLater (d : LogEntry) (h : List Event) : Option Task → Prop
  | some (.repair p since _ _ _) => p.key = d.key → Acked (h.take since) d.index
  | _ => True

/-- The message stores no record of the key. -/
def StoresNone (d : LogEntry) : Option (String × Message) → Prop
  | some (_, .replicate e .commit) => e.key = d.key → e.command = .delete
  | some (_, .replicaSet args) => args.key ≠ d.key
  | _ => True

instance (s : Cluster) (n : String) (delivery : Delivery) :
    (t : Option Task) → Decidable (Reaches d s n delivery t)
  | some (.commit e (f :: _) _) => inferInstanceAs (Decidable (e.index = d.index →
      (deliveryTo (s.nodes n) f delivery).isHandled ∨ ((s.nodes f).store.get? d.key).isNone))
  | some (.commit _ [] _) | some (.prepare _ _ _ _) | some (.read _ _ _)
  | some (.repair _ _ _ _ _) | none => isTrue trivial

instance (h : List Event) : (t : Option Task) → Decidable (RepairsLater d h t)
  | some (.repair p since _ _ _) =>
    inferInstanceAs (Decidable (p.key = d.key → Acked (h.take since) d.index))
  | some (.commit _ _ _) | some (.prepare _ _ _ _) | some (.read _ _ _) | none => isTrue trivial

instance : (m : Option (String × Message)) → Decidable (StoresNone d m)
  | some (_, .replicate e .commit) =>
    inferInstanceAs (Decidable (e.key = d.key → e.command = .delete))
  | some (_, .replicaSet args) => inferInstanceAs (Decidable (args.key ≠ d.key))
  | some (_, .replicate _ .prepare) | some (_, .voteRequest _) | some (_, .heartbeat _ _)
  | none => isTrue trivial

/-- The step does not undo the DELETE: its commit messages are handled, or find no record; what
    is repaired under the key is repaired by a GET that began after the acknowledgement; no late
    message stores a record of the key. -/
def Spares (L : String) (d : LogEntry) (s : Cluster) (l : Label) : Prop :=
  Deleting L d s →
    match l with
    | .commit n delivery _ => Reaches d s n delivery (s.tasks n)
    | .repair n _ _ => RepairsLater d s.history (s.tasks n)
    | .deliver i _ => StoresNone d s.sent[i]?
    | _ => True

instance (s : Cluster) : (l : Label) → Decidable (Spares L d s l)
  | .commit n delivery _ =>
    inferInstanceAs (Decidable (Deleting L d s → Reaches d s n delivery (s.tasks n)))
  | .repair n _ _ =>
    inferInstanceAs (Decidable (Deleting L d s → RepairsLater d s.history (s.tasks n)))
  | .deliver i _ => inferInstanceAs (Decidable (Deleting L d s → StoresNone d s.sent[i]?))
  | .call _ _ | .begin _ _ _ | .prepare _ _ _ | .endPrepare _ | .settle _ _ | .async _ _ _
  | .get _ _ _ | .answer _ _ _ _ | .conclude _ _ | .endGet _ | .startElection _
  | .requestVote _ _ _ | .countVotes _ | .startHeartbeats _ | .heartbeat _ _ _
  | .endHeartbeats _ | .stepDown _ | .restart _ _ _ _ _ | .topology _ _ _ | .cleanup _ _ =>
    isTrue fun _ => trivial

/-! ## The invariant -/

/-- A read whose answers are counted. -/
def Counts (p : ReadPlan) : Prop := p.level = .quorum ∨ p.level = .all

/-- The DELETE had been acknowledged when the GET began, and no newer SET has been issued. -/
def Settled (d : LogEntry) (h : List Event) (since : Nat) : Prop :=
  d ∈ acknowledged (h.take since) ∧ ¬ Renewed h d

/-- No record of the key at the node. -/
def Absent (d : LogEntry) (s : Cluster) (r : String) : Prop := (s.nodes r).store.get? d.key = none

structure Deleted (L : String) (members : Finset String) (d : LogEntry) (s : Cluster) : Prop where
  sole : Sole L s
  waiting : ∀ p ∈ s.waiting, ∀ r ∈ members, r ∈ p.2.2
  /-- The write under way is the last one that was issued. -/
  current : ∀ T e, s.tasks L = some T → T.entry? = some e → e.index = (s.nodes L).writeSequence
  preparing : ∀ e replicas targets rest, s.tasks L = some (.prepare e replicas targets rest) →
    ∀ r ∈ members, r ≠ L → r ∈ targets
  committing : ∀ rest k, s.tasks L = some (.commit d rest k) →
    ∀ r ∈ members, r ≠ L → r ∈ rest ∨ Absent d s r
  acked : d ∈ acknowledged s.history → ¬ Renewed s.history d → ∀ r ∈ members, Absent d s r
  reading : ∀ n p since answers, s.tasks n = some (.read p since answers) →
    p.replicas.Nodup ∧ (∀ r ∈ p.replicas, r ∈ members) ∧ since ≤ s.history.length ∧
      (p.key = d.key → Settled d s.history since →
        ∀ r ∈ members, ∀ a, answers.get? r = some a → a.1 = missingAnswer)
  repairing : ∀ n p since results outcome rest,
    s.tasks n = some (.repair p since results outcome rest) →
      since ≤ s.history.length ∧ (rest ≠ [] → Counts p) ∧
        (Counts p → p.key = d.key → Settled d s.history since →
          outcome = .failed ∨ outcome = .absent)
  got : ∀ i n p since results outcome,
    s.history[i]? = some (.got n p since results outcome) → since ≤ i ∧
      (Counts p → p.key = d.key → Settled d (s.history.take i) since →
        outcome = .failed ∨ outcome = .absent)

/-! ## Nothing brings the key back -/

theorem Renewed.step {s s' : Cluster} {l : Label} (hs : step hash s l = some s')
    (h : Renewed s.history d) : Renewed s'.history d := by
  obtain ⟨p, hp, hset⟩ := h
  rw [Renewed, issuedIn_step hs]
  exact ⟨p, List.mem_append_left _ hp, hset⟩

namespace Deleted

variable {s s' : Cluster} {l : Label}

/-- Under way or acknowledged, the DELETE has been issued, and no number is greater yet. -/
theorem deleting_of_task (h : Deleted L members d s) {T : Task} (hT : s.tasks L = some T)
    (he : T.entry? = some d) : Event.issued L d ∈ s.history ∧ Deleting L d s := by
  refine ⟨h.sole.known.task L T d hT he, .inl ⟨d, ?_, rfl⟩, ?_⟩
  · rw [hT]
    exact he
  · rintro ⟨p, hp, -, -, hlt⟩
    have hissuer := h.sole.issuer p.1 p.2 (mem_issuedIn.mp hp)
    have hle := h.sole.index_le p.2 (hissuer ▸ mem_issuedIn.mp hp)
    have hcurrent := h.current T d hT he
    omega

theorem deleting_of_acked (h : Deleted L members d s) (hd : d ∈ acknowledged s.history)
    (hfresh : ¬ Renewed s.history d) : Event.issued L d ∈ s.history ∧ Deleting L d s :=
  ⟨h.sole.issued (h.sole.known.acknowledged hd), .inr ⟨d, hd, rfl⟩, hfresh⟩

/-- A write of the key that is under way meanwhile is a DELETE. -/
theorem command_of_task (h : Deleted L members d s) (hd : d.command = .delete)
    (hissued : Event.issued L d ∈ s.history) (hfresh : ¬ Renewed s.history d) {n : String}
    {T : Task} {e : LogEntry} (hT : s.tasks n = some T) (he : T.entry? = some e)
    (hkey : e.key = d.key) : e.command = .delete := by
  have he' := h.sole.known.task n T e hT he
  obtain rfl := h.sole.issuer n e he'
  cases hc : e.command with
  | delete => rfl
  | set =>
    have hle := h.sole.index_le d hissued
    rw [← h.current T e hT he] at hle
    rcases Nat.lt_or_eq_of_le hle with hlt | heq
    · exact absurd ⟨(n, e), mem_issuedIn.mpr he', hc, hkey, hlt⟩ hfresh
    · rw [h.sole.unique d e hissued he' heq, hc] at hd
      cases hd

/-- Applying a DELETE, or a write of another key, leaves the key absent. -/
theorem absent_apply {n n' : Node} {clock : Time} {e : LogEntry}
    (hstore : n'.store = applyToStore clock n.store e) (hnone : n.store.get? d.key = none)
    (he : e.key = d.key → e.command = .delete) : n'.store.get? d.key = none := by
  rw [hstore, get?_applyToStore]
  split
  · rename_i hkey
    simp only [writeEffect, he hkey]
  · exact hnone

/-- **Where the key is absent it stays absent.** -/
theorem absent_step (h : Deleted L members d s) (hd : d.command = .delete)
    (hdel : Event.issued L d ∈ s.history ∧ Deleting L d s) (hl : StableStep L members s l)
    (hc : Spares L d s l) (hs : step hash s l = some s') {r : String} (hnone : Absent d s r) :
    Absent d s' r := by
  obtain ⟨hissued, hdeleting⟩ := hdel
  have hspares := hc hdeleting
  cases store_step hs r with
  | purged hnot hpurged =>
    rcases hpurged d.key with heq | ⟨hgone, -⟩
    · exact heq.trans hnone
    · exact hgone
  | @committed c clock hcommit hstore =>
    rcases commitHandled_cases hcommit with ⟨n, delivery, _, rest, k, rfl, ht, -⟩ | ⟨i, _, rfl, hi⟩
    · rw [h.sole.toApply r ⟨n, h.sole.known.task n _ c ht rfl⟩] at hstore
      exact absent_apply hstore hnone (h.command_of_task hd hissued hdeleting.2 ht rfl)
    · rw [h.sole.toApply r (h.sole.known.sent r c _ (List.mem_of_getElem? hi))] at hstore
      simp only [hi, StoresNone] at hspares
      exact absent_apply hstore hnone hspares
  | @settled e clock he hstore =>
    obtain ⟨-, k, -, ht⟩ := entryAcked_eq he
    exact absent_apply hstore hnone (h.command_of_task hd hissued hdeleting.2 ht rfl)
  | @merged u clock hu hstore =>
    have hkey : u.key ≠ d.key := by
      intro hkey
      cases hu with
      | @repair m delivery clock p since results best repairs rest r' ht hp =>
        obtain ⟨-, hcounts, hnever⟩ := h.repairing m p since results _ _ ht
        simp only [ht, RepairsLater] at hspares
        obtain ⟨e, he, hindex⟩ := hspares (hp.symm.trans hkey)
        have hmem := h.sole.known.acknowledged (mem_acknowledged_of_take he)
        obtain rfl := h.sole.unique e d (h.sole.issued hmem) hissued hindex
        rcases hnever (hcounts (List.cons_ne_nil _ _)) (hp.symm.trans hkey) ⟨he, hdeleting.2⟩ with
          hfailed | habsent
        · cases hfailed
        · cases habsent
      | delivered hm hargs =>
        simp only [hm, StoresNone] at hspares
        exact hspares (hargs.symm.trans hkey)
    unfold Absent
    rw [hstore, Merge.get?_storeUnlessOlder, if_neg (Ne.symm hkey)]
    exact hnone
  | restarted hlabel _ =>
    subst hlabel
    cases hl

end Deleted

/-! ## What reads find -/

/-- With nothing but missing markers a read finds nothing. -/
theorem read_absent {p : ReadPlan} (hcounts : Counts p) (hnodup : p.replicas.Nodup)
    (hmembers : ∀ r ∈ p.replicas, r ∈ members) {answers : Dict String (ReadAnswer × Bool)}
    (hmissing : ∀ r ∈ members, ∀ a, answers.get? r = some a → a.1 = missingAnswer)
    {finished : List String} (hfinished : ∀ r ∈ finished, r ∈ p.replicas) :
    ReadCoordinator.read p (collectedAnswer answers p.localId) (collectedAnswer answers) finished =
        .failed ∨
      ReadCoordinator.read p (collectedAnswer answers p.localId) (collectedAnswer answers)
        finished = .absent := by
  have hread : ReadCoordinator.read p (collectedAnswer answers p.localId)
      (collectedAnswer answers) finished = decideRead p.needed
        (collected p (collectedAnswer answers p.localId) (collectedAnswer answers) finished) := by
    rcases hcounts with hlevel | hlevel <;> simp only [ReadCoordinator.read, hlevel]
  rw [hread]
  cases hdecide : decideRead p.needed
      (collected p (collectedAnswer answers p.localId) (collectedAnswer answers) finished) with
  | failed => exact .inl rfl
  | absent => exact .inr rfl
  | found best repairs =>
    obtain ⟨hmem, hpresent⟩ := mem_of_decideRead hdecide
    rw [collected_eq_map hnodup] at hmem
    obtain ⟨r, hr, rfl⟩ := List.mem_map.mp hmem
    have hreplica : r ∈ p.replicas := by
      rcases mem_counted hr with ⟨-, hr⟩ | hr
      · exact hr
      · exact hfinished r hr
    have hanswer : collectedAnswer answers r = missingAnswer := by
      unfold collectedAnswer
      cases ha : answers.get? r with
      | none => rfl
      | some a => exact hmissing r (hmembers r hreplica) a ha
    rw [hanswer] at hpresent
    cases hpresent

/-- Only reads that count answers repair. -/
theorem counts_of_repairs {p : ReadPlan} {localAnswer : ReadAnswer} {remote : String → ReadAnswer}
    {finished : List String}
    (h : (ReadCoordinator.read p localAnswer remote finished).repairs ≠ []) : Counts p := by
  unfold ReadCoordinator.read at h
  split at h
  · split at h <;> exact absurd rfl h
  · rename_i hlevel
    exact .inl hlevel
  · rename_i hlevel
    exact .inr hlevel
  · split at h <;> exact absurd rfl h

/-- A node without the key has nothing to say. -/
theorem answer_absent {s : Cluster} {r : String} (hnone : Absent d s r) (clock : Time)
    (delivery : Delivery) : (s.readFrom clock r d.key delivery).2.1 = missingAnswer := by
  rcases readFrom_answer clock s r d.key delivery with heq | heq
  · rw [heq]
  · rw [heq]
    have hread : ((s.nodes r).store.getWithMetadata clock d.key).2 = none := by
      rw [KVStore.getWithMetadata_snd, show (s.nodes r).store.get? d.key = none from hnone]
      rfl
    simp only [Node.localRead, hread]
    rfl

theorem Settled.of_step {s s' : Cluster} {l : Label} (hs : step hash s l = some s') {since : Nat}
    (hsince : since ≤ s.history.length) (h : Settled d s'.history since) :
    Settled d s.history since :=
  ⟨(take_step hs hsince).2 ▸ h.1, fun hr => h.2 (hr.step hs)⟩

theorem Settled.acked {h : List Event} {since : Nat} (hsettled : Settled d h since) :
    d ∈ acknowledged h :=
  mem_acknowledged_of_take hsettled.1

/-! ## The invariant is kept -/

namespace Deleted

variable {s s' : Cluster} {l : Label}

theorem current_step (h : Deleted L members d s) (hl : StableStep L members s l)
    (hs : step hash s l = some s') {T : Task} {e : LogEntry} (hT : s'.tasks L = some T)
    (he : T.entry? = some e) : e.index = (s'.nodes L).writeSequence := by
  have hold : ∀ T, s.tasks L = some T → T.entry? = some e →
      e.index = (s'.nodes L).writeSequence := by
    intro T hT he
    rw [h.current T e hT he]
    rcases counter_step hs L with hc | ⟨-, ⟨e', hb⟩ | ⟨store, aof, membership, ring, rfl⟩⟩
    · exact hc.writeSequence.symm
    · -- a write begins only when none is under way
      cases l with
      | begin i clock now =>
        obtain ⟨w, replicas, -, hfree, -⟩ := entryBegun_eq hb
        rw [hT] at hfree
        cases hfree
      | _ => cases hb
    · cases hl
  rcases task_step hs hT with hsame | hnew
  · exact hold T hsame he
  · cases hnew with
    | begunPrepare hw hb => exact Option.some.inj he ▸ (counter_begun hs hb).2.symm
    | begunCommit hw hb => exact Option.some.inj he ▸ (counter_begun hs hb).2.symm
    | prepared ht => exact hold _ ht he
    | ready ht => exact hold _ ht he
    | unconfirmed ht => exact hold _ ht he
    | confirmed ht => exact hold _ ht he
    | _ => cases he

/-- The targets of a write are the other members. -/
theorem mem_targets (h : Deleted L members d s) {w : WriteCall} {replicas : List String}
    (hw : (L, w, replicas) ∈ s.waiting)
    (hall : (s.nodes L).targets replicas = (s.nodes L).remoteReplicas replicas) {r : String}
    (hr : r ∈ members) (hne : r ≠ L) : r ∈ (s.nodes L).targets replicas := by
  rw [hall, Node.mem_remoteReplicas, h.sole.ids]
  exact ⟨h.waiting _ hw r hr, hne⟩

/-- One commit message of the DELETE. -/
theorem committing_one (h : Deleted L members d s) (hd : d.command = .delete)
    (hl : StableStep L members s l) (hc : Spares L d s l) (hs : step hash s l = some s')
    {f : String} {rest : List String} {k : Nat}
    (ht : s.tasks L = some (.commit d (f :: rest) k)) {delivery : Delivery} {clock : Time}
    (hlabel : l = .commit L delivery clock) {r : String} (hr : r ∈ members) (hne : r ≠ L) :
    r ∈ rest ∨ Absent d s' r := by
  have hdel := h.deleting_of_task ht rfl
  rcases h.committing _ _ ht r hr hne with hmem | hnone
  · rcases List.mem_cons.mp hmem with rfl | hmem
    · subst hlabel
      have hreaches := hc hdel.2
      simp only [ht, Reaches, Option.isNone_iff_eq_none, true_imp_iff] at hreaches
      rcases hreaches with hhandled | hnone
      · refine .inr ?_
        unfold Absent
        rw [store_commit ht hs hhandled, h.sole.toApply r ⟨L, hdel.1⟩, get?_applyToStore,
          if_pos rfl]
        simp only [writeEffect, hd]
      · exact .inr (h.absent_step hd hdel hl hc hs hnone)
    · exact .inl hmem
  · exact .inr (h.absent_step hd hdel hl hc hs hnone)

theorem committing_step (h : Deleted L members d s) (hd : d.command = .delete)
    (hl : StableStep L members s l) (hc : Spares L d s l) (hs : step hash s l = some s')
    {rest : List String} {k : Nat} (hT : s'.tasks L = some (.commit d rest k)) {r : String}
    (hr : r ∈ members) (hne : r ≠ L) : r ∈ rest ∨ Absent d s' r := by
  rcases task_step hs hT with hold | hnew
  · exact (h.committing rest k hold r hr hne).imp id
      (h.absent_step hd (h.deleting_of_task hold rfl) hl hc hs)
  · cases hnew with
    | begunCommit hw hb hall => exact .inl (h.mem_targets hw hall hr hne)
    | ready ht => exact .inl (h.preparing d _ _ _ ht r hr hne)
    | unconfirmed ht hlabel => exact h.committing_one hd hl hc hs ht hlabel hr hne
    | confirmed ht hhandled hlabel => exact h.committing_one hd hl hc hs ht hlabel hr hne

/-- When the DELETE is acknowledged, no member has the key. -/
theorem absent_of_entryAcked (h : Deleted L members d s) (hd : d.command = .delete)
    (hl : StableStep L members s l) (hc : Spares L d s l) (hs : step hash s l = some s')
    {n : String} (he : s.entryAcked l = some (n, d)) {r : String} (hr : r ∈ members) :
    Absent d s' r := by
  obtain ⟨clock, k, rfl, ht⟩ := entryAcked_eq he
  obtain rfl := h.sole.issuer n d (h.sole.known.task n _ d ht rfl)
  by_cases hne : r = n
  · subst hne
    cases store_step hs r with
    | purged hnot hpurged => exact absurd he (hnot d)
    | committed hcommit hstore => cases hcommit
    | @settled e clock' he' hstore =>
      obtain ⟨-, rfl⟩ := Prod.mk.inj (Option.some.inj (he.symm.trans he'))
      unfold Absent
      rw [hstore, get?_applyToStore, if_pos rfl]
      simp only [writeEffect, hd]
    | merged hu hstore => cases hu
    | restarted hlabel hstore => cases hlabel
  · refine h.absent_step hd (h.deleting_of_task ht rfl) hl hc hs ?_
    exact (h.committing [] k ht r hr hne).resolve_left List.not_mem_nil

theorem acked_step (h : Deleted L members d s) (hd : d.command = .delete)
    (hl : StableStep L members s l) (hc : Spares L d s l) (hs : step hash s l = some s')
    (hacked : d ∈ acknowledged s'.history) (hfresh : ¬ Renewed s'.history d) {r : String}
    (hr : r ∈ members) : Absent d s' r := by
  rw [acknowledged_step hs, List.mem_append, Option.mem_toList] at hacked
  have hfresh' : ¬ Renewed s.history d := fun hr => hfresh (hr.step hs)
  rcases hacked with hold | hnew
  · exact h.absent_step hd (h.deleting_of_acked hold hfresh') hl hc hs (h.acked hold hfresh' r hr)
  · obtain ⟨⟨n, e⟩, he, rfl⟩ := Option.map_eq_some_iff.mp hnew
    exact h.absent_of_entryAcked hd hl hc hs he hr

theorem preparing_step (h : Deleted L members d s) (hs : step hash s l = some s') {e : LogEntry}
    {replicas targets rest : List String}
    (hT : s'.tasks L = some (.prepare e replicas targets rest)) {r : String} (hr : r ∈ members)
    (hne : r ≠ L) : r ∈ targets := by
  rcases task_step hs hT with hold | hnew
  · exact h.preparing e replicas targets rest hold r hr hne
  · cases hnew with
    | begunPrepare hw hb hall => exact h.mem_targets hw hall hr hne
    | prepared ht => exact h.preparing e replicas targets _ ht r hr hne

theorem reading_step (h : Deleted L members d s) (hl : StableStep L members s l)
    (hs : step hash s l = some s') {n : String} {p : ReadPlan} {since : Nat}
    {answers : Dict String (ReadAnswer × Bool)} (hT : s'.tasks n = some (.read p since answers)) :
    p.replicas.Nodup ∧ (∀ r ∈ p.replicas, r ∈ members) ∧ since ≤ s'.history.length ∧
      (p.key = d.key → Settled d s'.history since →
        ∀ r ∈ members, ∀ a, answers.get? r = some a → a.1 = missingAnswer) := by
  rcases task_step hs hT with hold | hnew
  · obtain ⟨hnodup, hreplicas, hsince, hmissing⟩ := h.reading n p since answers hold
    exact ⟨hnodup, hreplicas, (take_step hs hsince).1,
      fun hkey hsettled => hmissing hkey (hsettled.of_step hs hsince)⟩
  · cases hnew with
    | @getBegun key level hlabel =>
      subst hlabel
      refine ⟨ConsistentHashRing.nodup_getNodes _ _ _ _, fun r hr => ?_,
        (take_step hs (le_refl _)).1, fun hkey hsettled r hr a ha => by cases ha⟩
      exact hl ▸ ConsistentHashRing.mem_getNodes hr
    | @answered p since answers ht r' clock delivery =>
      obtain ⟨hnodup, hreplicas, hsince, hmissing⟩ := h.reading n p since answers ht
      refine ⟨hnodup, hreplicas, (take_step hs hsince).1, fun hkey hsettled r hr a ha => ?_⟩
      have hbefore := hsettled.of_step hs hsince
      rw [Dict.get?_set] at ha
      split at ha
      · rename_i heq
        subst heq
        obtain rfl := Option.some.inj ha
        rw [hkey]
        exact answer_absent (h.acked hbefore.acked hbefore.2 r hr) clock delivery
      · exact hmissing hkey hbefore r hr a ha

theorem repairing_step (h : Deleted L members d s) (hs : step hash s l = some s') {n : String}
    {p : ReadPlan} {since : Nat} {results : List ReadResult} {outcome : ReadOutcome}
    {rest : List ReadResult}
    (hT : s'.tasks n = some (.repair p since results outcome rest)) :
    since ≤ s'.history.length ∧ (rest ≠ [] → Counts p) ∧
      (Counts p → p.key = d.key → Settled d s'.history since →
        outcome = .failed ∨ outcome = .absent) := by
  rcases task_step hs hT with hold | hnew
  · obtain ⟨hsince, hcounts, hnever⟩ := h.repairing n p since results outcome rest hold
    exact ⟨(take_step hs hsince).1, hcounts,
      fun hcounts hkey hsettled => hnever hcounts hkey (hsettled.of_step hs hsince)⟩
  · cases hnew with
    | @concluded finished p since answers hlabel ht hnodup' hfinished =>
      obtain ⟨hnodup, hreplicas, hsince, hmissing⟩ := h.reading n p since answers ht
      refine ⟨(take_step hs hsince).1, counts_of_repairs, fun hcounts hkey hsettled => ?_⟩
      exact read_absent hcounts hnodup hreplicas (hmissing hkey (hsettled.of_step hs hsince))
        fun r hr => (hfinished r hr).1
    | @repaired p since results best repairs rest r ht =>
      obtain ⟨hsince, hcounts, hnever⟩ := h.repairing n p since results _ _ ht
      exact ⟨(take_step hs hsince).1, fun _ => hcounts (List.cons_ne_nil _ _),
        fun hcounts hkey hsettled => hnever hcounts hkey (hsettled.of_step hs hsince)⟩

/-- The end of a GET has the outcome of its repairs. -/
theorem got_kept (h : Deleted L members d s) (hs : step hash s l = some s') {i : Nat} {n : String}
    {p : ReadPlan} {since : Nat} {results : List ReadResult} {outcome : ReadOutcome}
    (hi : s'.history[i]? = some (.got n p since results outcome)) : since ≤ i ∧
      (Counts p → p.key = d.key → Settled d (s'.history.take i) since →
        outcome = .failed ∨ outcome = .absent) := by
  rcases got_step hs hi with hold | ⟨rfl, ht⟩
  · have hlt : i < s.history.length := (List.getElem?_eq_some_iff.mp hold).1
    rw [(take_step hs (le_of_lt hlt)).2]
    exact h.got i n p since results outcome hold
  · obtain ⟨hsince, -, hnever⟩ := h.repairing n p since results outcome [] ht
    rw [(take_step hs (le_refl _)).2, List.take_length]
    exact ⟨hsince, hnever⟩

end Deleted

theorem deleted_step {s s' : Cluster} {l : Label} (h : Deleted L members d s)
    (hd : d.command = .delete) (hl : StableStep L members s l) (hc : Spares L d s l)
    (hs : step hash s l = some s') : Deleted L members d s' where
  sole := sole_step h.sole hl.soleLeader hs
  waiting p hp r hr := by
    rcases waiting_step hs hp with hold | ⟨rfl, hadmit⟩
    · exact h.waiting p hold r hr
    · rw [← hl.2, List.mem_toFinset] at hr
      exact (Node.mem_admitted hadmit).mpr (.inr hr)
  current _ _ hT he := h.current_step hl hs hT he
  preparing _ _ _ _ hT _ hr hne := h.preparing_step hs hT hr hne
  committing _ _ hT _ hr hne := h.committing_step hd hl hc hs hT hr hne
  acked hacked hfresh _ hr := h.acked_step hd hl hc hs hacked hfresh hr
  reading _ _ _ _ hT := h.reading_step hl hs hT
  repairing _ _ _ _ _ _ hT := h.repairing_step hs hT
  got _ _ _ _ _ _ hi := h.got_kept hs hi

theorem deleted_fresh {s : Cluster} (h : Fresh s) : Deleted L members d s where
  sole := sole_fresh h
  waiting p hp := by rw [h.waiting] at hp; cases hp
  current _ _ hT := absurd hT h.no_task
  preparing _ _ _ _ hT := absurd hT h.no_task
  committing _ _ hT := absurd hT h.no_task
  acked hacked := by rw [h.history] at hacked; cases hacked
  reading _ _ _ _ hT := absurd hT h.no_task
  repairing _ _ _ _ _ _ hT := absurd hT h.no_task
  got _ _ _ _ _ _ hi := absurd (List.mem_of_getElem? hi) (h.no_event _)

/-- **When a DELETE stays**: in every run with the members as replicas of every write and read,
    one leader and no restart, in which no step undoes the DELETE `d` (`Spares`), whatever other
    messages are lost, late or repeated: after `d` was acknowledged and until a newer SET of its
    key is issued no member has a record of the key, and no GET at QUORUM or ALL that began after
    the acknowledgement finds a value. -/
theorem deleted_stays_absent {s t : Cluster} {ls : List Label} (h : Fresh s)
    (hd : d.command = .delete) (hl : Along (step hash) (StableStep L members) s ls)
    (hc : Along (step hash) (Spares L d) s ls) (he : exec (step hash) s ls = some t) :
    (d ∈ acknowledged t.history → ¬ Renewed t.history d →
        ∀ r ∈ members, (t.nodes r).store.get? d.key = none) ∧
      ∀ i n p since results outcome, t.history[i]? = some (.got n p since results outcome) →
        p.level = .quorum ∨ p.level = .all → p.key = d.key →
        d ∈ acknowledged (t.history.take since) → ¬ Renewed (t.history.take i) d →
        outcome = .failed ∨ outcome = .absent := by
  have hdeleted : Deleted L members d t :=
    exec_inv_along (fun _ _ _ h hl hs => deleted_step h hd hl.1 hl.2 hs) (deleted_fresh h)
      (hl.and hc) he
  refine ⟨hdeleted.acked, fun i n p since results outcome hi hcounts hkey hacked hfresh => ?_⟩
  obtain ⟨hsince, hnever⟩ := hdeleted.got i n p since results outcome hi
  refine hnever hcounts hkey ⟨?_, hfresh⟩
  rwa [List.take_take, min_eq_left hsince]

/-- `a` deletes `k` at time 2; `ds` says what becomes of the commits. -/
def deleteOf (ds : List Delivery) : List Label :=
  [.call "a" { operation := .delete, key := "k" }, .begin 0 2 2,
    .prepare "a" .answered 2, .prepare "a" .answered 2, .endPrepare "a"] ++
    ds.map (fun x => .commit "a" x 2) ++ [.settle "a" 2]

/-- `n` reads `k` at QUORUM, from itself and from `r`. -/
def readOf (n r : String) : List Label :=
  [.get n "k" .quorum, .answer n n .answered 3, .answer n r .answered 3, .conclude n [r]]

/-- The DELETE of `a`. -/
def deletion : LogEntry :=
  { term := 1, index := 2, command := .delete, key := "k", timestamp := 2, version := 2
    createdAt := some 1, coordinatorId := "a" }

/-- The read of `n`. -/
def planOf (n : String) : ReadPlan :=
  { localId := n, key := "k", level := .quorum, replicas := ["a", "b", "c"]
    primaryOwner := some "a", replicationFactor := 3 }

/-- The commit of the SET is lost at `c`, those of the DELETE reach everybody. -/
def deletedEverywhere : List Label :=
  electionOf "a" "b" "c" ++ setOf "a" 1 [.answered, .unsent] ++ deleteOf [.answered, .handled] ++
    readOf "c" "b" ++ [.endGet "c"]

theorem deleted_stays_absent_sample :
    ∃ t, exec (step fun _ => 0) sample deletedEverywhere = some t ∧
      deletion ∈ acknowledged t.history ∧
      (∀ r ∈ ({"a", "b", "c"} : Finset String), (t.nodes r).store.get? "k" = none) ∧
      ∃ p results outcome, t.history[12]? = some (.got "c" p 12 results outcome) ∧
        (outcome = .failed ∨ outcome = .absent) := by
  have hrun : (exec (step fun _ => 0) sample deletedEverywhere).map
      (fun t => (t.history[11]?, t.history[12]?, decide (Renewed t.history deletion),
        decide (Renewed (t.history.take 12) deletion))) =
      some (some (.replied "a" deletion (.ok (.str "OK"))),
        some (.got "c" (planOf "c") 12
          [resultOf "c" missingAnswer, resultOf "b" missingAnswer] .absent),
        false, false) := rfl
  obtain ⟨t, ht, hobs⟩ := Option.map_eq_some_iff.mp hrun
  simp only [Prod.mk.injEq, decide_eq_false_iff_not] at hobs
  obtain ⟨hreplied, hgot, hfresh, hfresh'⟩ := hobs
  have hstable : Along (step fun _ => 0) (StableStep "a" {"a", "b", "c"}) sample
      deletedEverywhere := by decide
  have hspares : Along (step fun _ => 0) (Spares "a" deletion) sample deletedEverywhere := by decide
  have hacked : deletion ∈ acknowledged (t.history.take 12) := by
    refine mem_acknowledged.mpr ⟨"a", .ok (.str "OK"), List.mem_of_getElem? (i := 11) ?_, rfl⟩
    rw [List.getElem?_take_of_lt (by decide), hreplied]
  have hacked' : deletion ∈ acknowledged t.history :=
    mem_acknowledged.mpr ⟨"a", .ok (.str "OK"), List.mem_of_getElem? hreplied, rfl⟩
  obtain ⟨habsent, hreads⟩ := deleted_stays_absent fresh_sample rfl hstable hspares ht
  exact ⟨t, ht, hacked', habsent hacked' hfresh, (planOf "c"), _, _, hgot,
    hreads 12 "c" (planOf "c") 12 _ _ hgot (.inl rfl) rfl hacked hfresh'⟩

/-! ### Three ways to undo a DELETE -/

/-- In the run the DELETE is acknowledged and no newer SET is issued; a GET of `b` at QUORUM that
    begins later finds the value of the SET, and `b`, which has applied the DELETE, holds it
    again. -/
def Undone (ls : List Label) : Prop :=
  Along (step fun _ => 0) (StableStep "a" {"a", "b", "c"}) sample ls ∧
    ∃ t, exec (step fun _ => 0) sample ls = some t ∧ ¬ Renewed t.history deletion ∧
      (∃ (i since : Nat) (results repairs : List ReadResult) (best : ReadResult),
        t.history[i]? = some (.got "b" (planOf "b") since results (.found best repairs)) ∧
          best.value = .int 1 ∧ deletion ∈ acknowledged (t.history.take since)) ∧
      Event.applied "b" deletion ∈ t.history ∧
      ((t.nodes "b").store.get? "k").map KeyMetadata.value = some (.int 1)

/-- What a node with the SET answers. -/
def answerOfSet : ReadAnswer :=
  { value := .int 1, version := 1, found := true, updatedAt := 1, createdAt := 1
    expiresAt := none, coordinatorId := "a" }

/-- The run is seen to be undone: a read of `b` finds the SET at `x` and nothing at `y`. -/
theorem Undone.of_run {ls : List Label} (x y : String) (since replied applied : Nat)
    {results : List ReadResult}
    (hstable : Along (step fun _ => 0) (StableStep "a" {"a", "b", "c"}) sample ls)
    (hlt : replied < since)
    (hrun : (exec (step fun _ => 0) sample ls).map (fun t =>
        (decide (Renewed t.history deletion), t.history.getLast?, t.history[replied]?,
          t.history[applied]?, ((t.nodes "b").store.get? "k").map KeyMetadata.value)) =
      some (false, some (.got "b" (planOf "b") since results
          (.found (resultOf x answerOfSet) [resultOf y missingAnswer])),
        some (.replied "a" deletion (.ok (.str "OK"))), some (.applied "b" deletion),
        some (.int 1))) : Undone ls := by
  obtain ⟨t, ht, hobs⟩ := Option.map_eq_some_iff.mp hrun
  simp only [Prod.mk.injEq, decide_eq_false_iff_not] at hobs
  obtain ⟨hfresh, hgot, hreplied, happlied, hstore⟩ := hobs
  rw [List.getLast?_eq_getElem?] at hgot
  refine ⟨hstable, t, ht, hfresh, ⟨_, since, results, _, _, hgot, rfl, ?_⟩,
    List.mem_of_getElem? happlied, hstore⟩
  refine mem_acknowledged.mpr ⟨"a", .ok (.str "OK"), List.mem_of_getElem? (i := replied) ?_, rfl⟩
  rw [List.getElem?_take_of_lt hlt, hreplied]

/-- The commit of the DELETE is lost at `c`. -/
def lostCommit : List Label :=
  electionOf "a" "b" "c" ++ setOf "a" 1 [.answered, .answered] ++ deleteOf [.answered, .unsent] ++
    readOf "b" "c" ++ [.repair "b" .answered 3, .endGet "b"]

/-- `c` has read its own record before the DELETE, finds nothing at `b` after it, and repairs
    `b`. -/
def overlappingRead : List Label :=
  electionOf "a" "b" "c" ++ setOf "a" 1 [.answered, .answered] ++
    [.get "c" "k" .quorum, .answer "c" "c" .answered 2] ++ deleteOf [.answered, .answered] ++
    [.answer "c" "b" .answered 3, .conclude "c" ["b"], .repair "c" .answered 3, .endGet "c"] ++
    readOf "b" "a" ++ [.repair "b" .answered 3, .endGet "b"]

/-- The commit of the SET reaches `c` after the DELETE. -/
def lateCommit : List Label :=
  electionOf "a" "b" "c" ++ setOf "a" 1 [.answered, .sent] ++ deleteOf [.answered, .answered] ++
    [.deliver 6 3] ++ readOf "b" "c" ++ [.repair "b" .answered 3, .endGet "b"]

/-- Each of the three undoes the DELETE. -/
theorem delete_undone : Undone lostCommit ∧ Undone overlappingRead ∧ Undone lateCommit := by
  refine ⟨?_, ?_, ?_⟩
  · exact .of_run "c" "b" 12 11 9 (by decide) (by decide) rfl
  · exact .of_run "b" "a" 15 13 9 (by decide) (by decide) rfl
  · exact .of_run "c" "b" 14 11 7 (by decide) (by decide) rfl

end Deletes

end MiniDb
