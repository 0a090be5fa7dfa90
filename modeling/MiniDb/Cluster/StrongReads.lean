/-
  STRONG reads (`node.py`, `_apply_partition_write`, and `read_coordinator.py`, `_read_strong`),
  in runs with one leader that every node knows, without TTL and without read repair.

  A write changes the leader's store only when it is answered with success, and then as one step
  of a sequential map (`recordAfter`) would; nothing else reaches that store. So the store of the
  leader is at every moment the map of the acknowledged writes (`Sequential`), and a STRONG read
  returns what the map had at some moment between its beginning and its end.
-/
import MiniDb.Cluster.SingleLeader
import MiniDb.Cluster.Stores
import Mathlib.Data.List.DropRight

namespace MiniDb

open Lib ReadCoordinator

namespace StrongReads

open Cluster SingleLeader

/-! ## The sequential map -/

/-- The record of a key after the writes of `h`. -/
def recordAfter (h : List LogEntry) (k : String) : Option KeyMetadata :=
  (lastWrite h k).bind writtenBy

/-- The SETs of a key since its last DELETE. -/
def setsSince (h : List LogEntry) (k : String) : List LogEntry :=
  (h.filter fun e => e.key = k).rtakeWhile fun e => e.command = .set

/-- Every write has the version after the SETs since the last DELETE of its key. -/
inductive Serial : List LogEntry → Prop where
  | nil : Serial []
  | snoc {h : List LogEntry} {e : LogEntry} (hh : Serial h)
      (he : e.version = (setsSince h e.key).length + 1) : Serial (h ++ [e])

theorem recordAfter_append (h : List LogEntry) (e : LogEntry) (k : String) :
    recordAfter (h ++ [e]) k = if e.key = k then writtenBy e else recordAfter h k := by
  unfold recordAfter
  rw [lastWrite_append]
  split
  · rfl
  · rfl

theorem setsSince_append (h : List LogEntry) (e : LogEntry) (k : String) :
    setsSince (h ++ [e]) k =
      if e.key = k then (if e.command = .set then setsSince h k ++ [e] else [])
      else setsSince h k := by
  unfold setsSince
  by_cases hk : e.key = k
  · simp [hk, List.rtakeWhile_concat]
  · simp [hk]

/-- The record comes from a SET, the last write of its key. -/
theorem recordAfter_eq_some {h : List LogEntry} {k : String} {m : KeyMetadata}
    (hm : recordAfter h k = some m) : ∃ e, lastWrite h k = some e ∧ writtenBy e = some m ∧
      e.command = .set ∧ e.value = m.value := by
  obtain ⟨e, he, hw⟩ := Option.bind_eq_some_iff.mp hm
  refine ⟨e, he, hw, ?_⟩
  unfold writtenBy at hw
  split at hw
  · rename_i hset
    rw [Option.some.injEq] at hw
    exact ⟨hset, hw ▸ rfl⟩
  · cases hw

/-- The SETs since the last DELETE have the versions 1, 2, 3 and so on. -/
theorem Serial.versions {h : List LogEntry} (hh : Serial h) (k : String) :
    (setsSince h k).map LogEntry.version =
      (List.range (setsSince h k).length).map fun (i : Nat) => (i : Int) + 1 := by
  induction hh with
  | nil => rfl
  | @snoc h e hh he ih =>
    rw [setsSince_append]
    split
    · rename_i hk
      split
      · rw [List.map_append, ih, List.length_append, List.length_singleton, List.range_succ,
          List.map_append, List.map_singleton, List.map_singleton, he, hk]
      · rfl
    · exact ih

/-- The version of the record is the number of these SETs. -/
theorem Serial.version_recordAfter {h : List LogEntry} (hh : Serial h) (k : String) :
    (recordAfter h k).elim 0 KeyMetadata.version = (setsSince h k).length := by
  induction hh with
  | nil => rfl
  | @snoc h e hh he ih =>
    rw [recordAfter_append, setsSince_append]
    by_cases hk : e.key = k
    · rw [if_pos hk, if_pos hk]
      unfold writtenBy
      cases hc : e.command with
      | set => simp [he, hk]
      | delete => simp
    · rw [if_neg hk, if_neg hk]
      exact ih

/-! ## The leader's store is the map -/

variable {hash : String → Nat} {L : String}

/-- What is assumed of a step: `L` leads and is known, writes have no TTL, nothing is
    repaired. -/
def StrongStep (L : String) (s : Cluster) : Label → Prop
  | .call n w => ((s.nodes n).isLeader → n = L) ∧ w.ttl = none
  | .get n _ level => level = .strong → (s.nodes n).election.leaderId = some L
  | .repair _ _ _ => False
  | .restart n _ _ _ _ => n ≠ L
  | _ => True

instance (s : Cluster) : (l : Label) → Decidable (StrongStep L s l)
  | .call n w => inferInstanceAs (Decidable (((s.nodes n).isLeader → n = L) ∧ w.ttl = none))
  | .get n _ level => inferInstanceAs (Decidable (level = .strong →
      (s.nodes n).election.leaderId = some L))
  | .repair _ _ _ => isFalse id
  | .restart n _ _ _ _ => inferInstanceAs (Decidable (n ≠ L))
  | .begin _ _ _ | .prepare _ _ _ | .endPrepare _ | .commit _ _ _ | .settle _ _ | .async _ _ _
  | .answer _ _ _ _ | .conclude _ _ | .endGet _ | .startElection _ | .requestVote _ _ _
  | .countVotes _ | .startHeartbeats _ | .heartbeat _ _ _ | .endHeartbeats _ | .stepDown _
  | .deliver _ _ | .topology _ _ _ | .cleanup _ _ => isTrue trivial

theorem StrongStep.soleLeader {s : Cluster} {l : Label} (h : StrongStep L s l) :
    SoleLeader L s l := by
  cases l with
  | call n w => exact h.1
  | restart n store aof membership ring => exact h
  | _ => trivial

structure Sequential (L : String) (s : Cluster) : Prop where
  sole : Sole L s
  counted : Counted s
  waiting : ∀ p ∈ s.waiting, p.2.1.ttl = none
  commits : ∀ e, (L, Message.replicate e .commit) ∉ s.sent
  updates : ∀ args, (L, Message.replicaSet args) ∉ s.sent
  built : ∀ e, Event.issued L e ∈ s.history → LeaderBuilt e ∧ e.expiresAt = none
  store : ∀ k, (s.nodes L).store.get? k = recordAfter (acknowledged s.history) k
  serial : Serial (acknowledged s.history)
  next : ∀ T e, s.tasks L = some T → T.entry? = some e →
    e.version = (setsSince (acknowledged s.history) e.key).length + 1

namespace Sequential

variable {s s' : Cluster} {l : Label}

theorem acked_built (h : Sequential L s) {e : LogEntry} (he : e ∈ acknowledged s.history) :
    LeaderBuilt e ∧ e.expiresAt = none :=
  h.built e (h.sole.issued (h.sole.known.acknowledged he))

/-- No record of the leader expires. -/
theorem expiresAt_none (h : Sequential L s) {k : String} {m : KeyMetadata}
    (hm : (s.nodes L).store.get? k = some m) : m.expiresAt = none := by
  rw [h.store] at hm
  obtain ⟨e, he, hw, -⟩ := recordAfter_eq_some hm
  exact (expiresAt_of_writtenBy hw).trans (h.acked_built (mem_of_lastWrite he).1).2

theorem getWithMetadata_snd (h : Sequential L s) (clock : Time) (k : String) :
    ((s.nodes L).store.getWithMetadata clock k).2 = recordAfter (acknowledged s.history) k := by
  rw [KVStore.getWithMetadata_snd, ← h.store]
  cases hm : (s.nodes L).store.get? k with
  | none => rfl
  | some m => simp [Option.filter_some, h.expiresAt_none hm]

theorem storedVersion_eq (h : Sequential L s) (clock : Time) (k : String) :
    (s.nodes L).storedVersion clock k = (setsSince (acknowledged s.history) k).length := by
  rw [← h.serial.version_recordAfter]
  unfold Node.storedVersion
  rw [h.getWithMetadata_snd]
  cases recordAfter (acknowledged s.history) k <;> rfl

/-- The entry of a write that begins. -/
theorem begun (h : Sequential L s) {n : String} {e : LogEntry}
    (he : s.entryBegun l = some (n, e)) :
    n = L ∧ (LeaderBuilt e ∧ e.expiresAt = none) ∧
      e.version = (setsSince (acknowledged s.history) e.key).length + 1 := by
  cases l with
  | begin i clock now =>
    obtain ⟨w, replicas, hi, -, rfl⟩ := entryBegun_eq he
    have hw := List.mem_of_getElem? hi
    obtain rfl := (h.sole.waiting _ hw).1
    have hversion := (Node.version_newEntry clock now (s.nodes n) w).trans
      (congrArg (· + 1) (h.storedVersion_eq clock w.key))
    have hexpiry : ((s.nodes n).newEntry clock now w).2.expiresAt = none :=
      congrArg (Option.map _) (h.waiting _ hw)
    exact ⟨rfl, ⟨⟨by omega, rfl, rfl⟩, hexpiry⟩, hversion⟩
  | _ => cases he

/-- No commit message is handled by the leader. -/
theorem not_commitHandled (h : Sequential L s) (c : LogEntry) :
    s.commitHandled l ≠ some (L, c) := by
  intro hc
  rcases commitHandled_cases hc with ⟨n, d, clock, rest, k, rfl, ht, -⟩ | ⟨i, clock, rfl, hi⟩
  · obtain rfl := h.sole.issuer n c (h.sole.known.task n _ c ht rfl)
    exact (h.counted.committing n c _ k ht).2.1 List.mem_cons_self
  · exact h.commits c (List.mem_of_getElem? hi)

/-- **What a step does to the leader's store**: nothing, or it answers a write with success and
    does what this write says. -/
theorem leader_step (h : Sequential L s) (hl : StrongStep L s l) (hs : step hash s l = some s') :
    (s.entryAcked l = none ∧ ∀ k, (s'.nodes L).store.get? k = (s.nodes L).store.get? k) ∨
      ∃ e, s.entryAcked l = some (L, e) ∧ ∀ k, (s'.nodes L).store.get? k =
        if e.key = k then writtenBy e else (s.nodes L).store.get? k := by
  cases store_step hs L with
  | purged hnot hpurged =>
    refine .inl ⟨?_, fun k => ?_⟩
    · cases he : s.entryAcked l with
      | none => rfl
      | some p =>
        obtain ⟨clock, k, -, ht⟩ := entryAcked_eq he
        have hn := h.sole.issuer p.1 p.2 (h.sole.known.task p.1 _ p.2 ht rfl)
        exact absurd (he.trans (congrArg (fun n => some (n, p.2)) hn)) (hnot p.2)
    · rcases hpurged k with hk | ⟨-, m, clock, hm, hx⟩
      · exact hk
      · rw [h.expiresAt_none hm] at hx
        cases hx
  | committed hc _ => exact absurd hc (h.not_commitHandled _)
  | @settled e clock he hstore =>
    obtain ⟨-, k, -, ht⟩ := entryAcked_eq he
    have hbuilt := (h.built e (h.sole.known.task L _ e ht rfl)).1
    refine .inr ⟨e, he, fun k => ?_⟩
    rw [hstore, get?_applyToStore, writeEffect_eq hbuilt]
  | merged hu _ =>
    cases hu with
    | repair ht hkey => cases hl
    | delivered hm hkey => exact absurd (List.mem_of_getElem? hm) (h.updates _)
  | restarted hlabel _ =>
    subst hlabel
    exact absurd rfl hl

/-- While a write of the leader is under way, none is acknowledged. -/
theorem acknowledged_of_task (h : Sequential L s) (hl : StrongStep L s l)
    (hs : step hash s l = some s') {T : Task} (hT : s'.tasks L = some T) :
    acknowledged s'.history = acknowledged s.history := by
  rw [acknowledged_step hs]
  rcases h.leader_step hl hs with ⟨hnone, -⟩ | ⟨e, he, -⟩
  · rw [hnone]
    exact List.append_nil _
  · obtain ⟨clock, k, rfl, -⟩ := entryAcked_eq he
    rw [tasks_settle hs] at hT
    cases hT

theorem step (h : Sequential L s) (hl : StrongStep L s l) (hs : step hash s l = some s') :
    Sequential L s' := by
  have hacked := acknowledged_step hs
  refine ⟨sole_step h.sole hl.soleLeader hs, h.sole.counted_step h.counted hs, fun p hp => ?_,
    fun e he => ?_, fun args hargs => ?_, fun e he => ?_, fun k => ?_, ?_, fun T e hT he => ?_⟩
  · rcases waiting_step hs hp with hp | ⟨rfl, -⟩
    · exact h.waiting p hp
    · exact hl.2
  · rcases sends_of_mem_sent hs he with hold | hnew
    · exact h.commits e hold
    · cases hnew with
      | election hm => cases hm
      | commit ht =>
        obtain rfl := h.sole.issuer _ e (h.sole.known.task _ _ e ht rfl)
        exact (h.counted.committing _ e _ _ ht).2.1 List.mem_cons_self
  · rcases sends_of_mem_sent hs hargs with hold | hnew
    · exact h.updates args hold
    · cases hnew with
      | election hm => cases hm
      | repair => cases hl
  · rcases (issued_step hs L e).mp he with he | he
    · exact h.built e he
    · exact (h.begun he).2.1
  · rw [hacked]
    rcases h.leader_step hl hs with ⟨hnone, hstore⟩ | ⟨e, he, hstore⟩
    · rw [hstore, h.store, hnone]
      exact congrArg (recordAfter · k) (List.append_nil _).symm
    · rw [hstore, h.store, he, Option.map_some, Option.toList_some, recordAfter_append]
  · rw [hacked]
    rcases h.leader_step hl hs with ⟨hnone, -⟩ | ⟨e, he, -⟩
    · rw [hnone]
      exact (List.append_nil _).symm ▸ h.serial
    · obtain ⟨-, k, -, ht⟩ := entryAcked_eq he
      rw [he]
      exact h.serial.snoc (h.next _ e ht rfl)
  · rw [h.acknowledged_of_task hl hs hT]
    rcases task_step hs hT with hold | hnew
    · exact h.next T e hold he
    · cases hnew with
      | begunPrepare hw hb => exact Option.some.inj he ▸ (h.begun hb).2.2
      | begunCommit hw hb => exact Option.some.inj he ▸ (h.begun hb).2.2
      | prepared ht => exact h.next _ e ht he
      | ready ht => exact h.next _ e ht he
      | unconfirmed ht => exact h.next _ e ht he
      | confirmed ht hc => exact h.next _ e ht he
      | _ => cases he

end Sequential

/-! ## Reads -/

/-- At some moment of the history since `since`, the last write of the key that had been
    acknowledged was a SET of this value. -/
def LastWritten (h : List Event) (since : Nat) (key : String) (v : Json) : Prop :=
  ∃ j e, since ≤ j ∧ j ≤ h.length ∧ lastWrite (acknowledged (h.take j)) key = some e ∧
    e.command = .set ∧ e.value = v

theorem LastWritten.append {h : List Event} {since : Nat} {key : String} {v : Json}
    (hv : LastWritten h since key v) (es : List Event) : LastWritten (h ++ es) since key v := by
  obtain ⟨j, e, hsince, hj, he⟩ := hv
  refine ⟨j, e, hsince, ?_, ?_⟩
  · rw [List.length_append]
    omega
  · rw [List.take_append_of_le_length hj]
    exact he

theorem LastWritten.step {s s' : Cluster} {l : Label} (hs : step hash s l = some s')
    {since : Nat} {key : String} {v : Json} (hv : LastWritten s.history since key v) :
    LastWritten s'.history since key v := by
  obtain ⟨es, hes⟩ := history_append hs
  exact hes ▸ hv.append es

/-- What holds of the STRONG reads under way and of those that have ended. -/
structure Reads (L : String) (s : Cluster) : Prop where
  sequential : Sequential L s
  reading : ∀ n p since answers, s.tasks n = some (.read p since answers) →
    since ≤ s.history.length ∧ (p.level = .strong → p.primaryOwner = some L ∧
      ∀ a, answers.get? L = some a → a.1.found = true →
        LastWritten s.history since p.key a.1.value)
  repairing : ∀ n p since results outcome rest,
    s.tasks n = some (.repair p since results outcome rest) → p.level = .strong →
      ∀ v, getResponse p.key outcome = .ok v → LastWritten s.history since p.key v
  got : ∀ i n p since results outcome,
    s.history[i]? = some (.got n p since results outcome) → p.level = .strong →
      ∀ v, getResponse p.key outcome = .ok v → LastWritten (s.history.take i) since p.key v

/-- A STRONG read answers with what the leader answered. -/
theorem strong_value {p : ReadPlan} (hlevel : p.level = .strong) (howner : p.primaryOwner = some L)
    {answers : Dict String (ReadAnswer × Bool)} {finished : List String} {v : Json}
    (hv : getResponse p.key (ReadCoordinator.read p (collectedAnswer answers p.localId)
      (collectedAnswer answers) finished) = .ok v) :
    ∃ a, answers.get? L = some a ∧ a.1.found = true ∧ a.1.value = v := by
  have hread : readStrong p.localId (some L) (collectedAnswer answers p.localId)
      (collectedAnswer answers) =
        if L = "" then none else foundOf L (collectedAnswer answers L) := by
    unfold readStrong
    simp only
    by_cases hself : L = p.localId
    · simp only [hself, if_true]
    · simp only [if_neg hself]
  simp only [ReadCoordinator.read, hlevel, howner, hread] at hv
  split at hv
  · rename_i best hbest
    split at hbest
    · cases hbest
    · obtain ⟨hfound, rfl⟩ := foundOf_eq_some hbest
      unfold collectedAnswer at hfound hv
      cases ha : answers.get? L with
      | none =>
        rw [ha] at hfound
        cases hfound
      | some a =>
        rw [ha] at hfound hv
        refine ⟨a, rfl, hfound, ?_⟩
        have hvalue : (resultOf L a.1).value = v := Response.ok.inj hv
        rw [← hvalue]
        exact (if_pos hfound).symm
  · cases hv

/-- What the leader answers to a read now. -/
theorem lastWritten_answer {s : Cluster} (h : Sequential L s) {since : Nat}
    (hsince : since ≤ s.history.length) (clock : Time) (key : String) (d : Delivery)
    (hfound : (s.readFrom clock L key d).2.1.found = true) :
    LastWritten s.history since key (s.readFrom clock L key d).2.1.value := by
  rcases readFrom_answer clock s L key d with heq | heq
  · rw [heq] at hfound
    cases hfound
  · rw [heq] at hfound ⊢
    have hlocal : ((s.nodes L).localRead clock key).2 =
        answerOf (recordAfter (acknowledged s.history) key) :=
      congrArg answerOf (h.getWithMetadata_snd clock key)
    rw [hlocal] at hfound ⊢
    cases hm : recordAfter (acknowledged s.history) key with
    | none =>
      rw [hm] at hfound
      cases hfound
    | some m =>
      obtain ⟨e, he, -, hset, hvalue⟩ := recordAfter_eq_some hm
      exact ⟨s.history.length, e, hsince, le_refl _, by rwa [List.take_length], hset, hvalue⟩

namespace Reads

variable {s s' : Cluster} {l : Label}

theorem reading_step (h : Reads L s) (hl : StrongStep L s l) (hs : step hash s l = some s')
    {n : String} {p : ReadPlan} {since : Nat} {answers : Dict String (ReadAnswer × Bool)}
    (hT : s'.tasks n = some (.read p since answers)) :
    since ≤ s'.history.length ∧ (p.level = .strong → p.primaryOwner = some L ∧
      ∀ a, answers.get? L = some a → a.1.found = true →
        LastWritten s'.history since p.key a.1.value) := by
  have hlength := (take_step hs (le_refl s.history.length)).1
  rcases task_step hs hT with hold | hnew
  · obtain ⟨hsince, hstrong⟩ := h.reading n p since answers hold
    refine ⟨le_trans hsince hlength, fun hlevel => ?_⟩
    obtain ⟨howner, hanswer⟩ := hstrong hlevel
    exact ⟨howner, fun a ha hfound => (hanswer a ha hfound).step hs⟩
  · cases hnew with
    | getBegun hlabel =>
      subst hlabel
      exact ⟨hlength, fun hlevel => ⟨hl hlevel, fun a ha => by cases ha⟩⟩
    | @answered p since answers ht r clock d =>
      obtain ⟨hsince, hstrong⟩ := h.reading n p since answers ht
      refine ⟨le_trans hsince hlength, fun hlevel => ?_⟩
      obtain ⟨howner, hanswer⟩ := hstrong hlevel
      refine ⟨howner, fun a ha hfound => LastWritten.step hs ?_⟩
      rw [Dict.get?_set] at ha
      split at ha
      · rename_i hr
        subst hr
        obtain rfl := Option.some.inj ha
        exact lastWritten_answer h.sequential hsince clock p.key d hfound
      · exact hanswer a ha hfound

theorem repairing_step (h : Reads L s) (hs : step hash s l = some s') {n : String} {p : ReadPlan}
    {since : Nat} {results : List ReadResult} {outcome : ReadOutcome} {rest : List ReadResult}
    (hT : s'.tasks n = some (.repair p since results outcome rest)) (hlevel : p.level = .strong)
    {v : Json} (hv : getResponse p.key outcome = .ok v) :
    LastWritten s'.history since p.key v := by
  rcases task_step hs hT with hold | hnew
  · exact (h.repairing n p since results outcome rest hold hlevel v hv).step hs
  · cases hnew with
    | concluded hlabel ht hnodup hfinished =>
      obtain ⟨howner, hanswer⟩ := (h.reading n p since _ ht).2 hlevel
      obtain ⟨a, ha, hfound, rfl⟩ := strong_value hlevel howner hv
      exact (hanswer a ha hfound).step hs
    | repaired ht => exact (h.repairing n p since results _ _ ht hlevel v hv).step hs

/-- The end of a GET has the outcome of its repairs. -/
theorem got_kept (h : Reads L s) (hs : step hash s l = some s') {i : Nat} {n : String}
    {p : ReadPlan} {since : Nat} {results : List ReadResult} {outcome : ReadOutcome}
    (hi : s'.history[i]? = some (.got n p since results outcome)) (hlevel : p.level = .strong)
    {v : Json} (hv : getResponse p.key outcome = .ok v) :
    LastWritten (s'.history.take i) since p.key v := by
  rcases got_step hs hi with hold | ⟨rfl, ht⟩
  · have hlt : i < s.history.length := (List.getElem?_eq_some_iff.mp hold).1
    rw [(take_step hs (le_of_lt hlt)).2]
    exact h.got i n p since results outcome hold hlevel v hv
  · rw [(take_step hs (le_refl _)).2, List.take_length]
    exact h.repairing n p since results outcome [] ht hlevel v hv

end Reads

theorem reads_step {s s' : Cluster} {l : Label} (h : Reads L s) (hl : StrongStep L s l)
    (hs : step hash s l = some s') : Reads L s' where
  sequential := h.sequential.step hl hs
  reading _ _ _ _ hT := h.reading_step hl hs hT
  repairing _ _ _ _ _ _ hT hlevel _ hv := h.repairing_step hs hT hlevel hv
  got _ _ _ _ _ _ hi hlevel _ hv := h.got_kept hs hi hlevel hv

theorem reads_fresh {s : Cluster} (h : Fresh s) (hempty : ∀ k, (s.nodes L).store.get? k = none) :
    Reads L s := by
  have hacked : acknowledged s.history = [] := by rw [h.history]; rfl
  have hsequential : Sequential L s := {
    sole := sole_fresh h
    counted := counted_fresh h
    waiting := fun p hp => by rw [h.waiting] at hp; cases hp
    commits := fun e => h.no_message _
    updates := fun args => h.no_message _
    built := fun e he => absurd he (h.no_event _)
    store := fun k => by rw [hempty, hacked]; rfl
    serial := hacked ▸ .nil
    next := fun T e hT => absurd hT h.no_task }
  exact ⟨hsequential, fun n p since answers hT => absurd hT h.no_task,
    fun n p since results outcome rest hT => absurd hT h.no_task,
    fun i n p since results outcome hi => absurd (List.mem_of_getElem? hi) (h.no_event _)⟩

/-- **STRONG reads are sequential**: in every run in which only `L` leads, is not restarted and
    is known to the nodes that read, with SETs and DELETEs without TTL at any nodes, any outcome
    of their prepares and commits, any late messages, and no read repair:

    - a STRONG GET that answers with a value returns that of the last write of its key that had
      been acknowledged at some moment of the GET, and that write was a SET;
    - the acknowledged SETs of a key since its last acknowledged DELETE have the versions
      1, 2, 3 and so on;
    - the leader's store is what the acknowledged writes, in order, leave of a map: a write
      answered with an error leaves no trace in it. -/
theorem strong_reads_sequential {s t : Cluster} {ls : List Label} (h : Fresh s)
    (hempty : ∀ k, (s.nodes L).store.get? k = none)
    (hl : Along (step hash) (StrongStep L) s ls) (he : exec (step hash) s ls = some t) :
    (∀ i n p since results outcome v,
      t.history[i]? = some (.got n p since results outcome) → p.level = .strong →
        getResponse p.key outcome = .ok v →
        ∃ j e, since ≤ j ∧ j ≤ i ∧ lastWrite (acknowledged (t.history.take j)) p.key = some e ∧
          e.command = .set ∧ e.value = v) ∧
      (∀ k, (setsSince (acknowledged t.history) k).map LogEntry.version =
        (List.range (setsSince (acknowledged t.history) k).length).map
          fun (i : Nat) => (i : Int) + 1) ∧
      ∀ k, (t.nodes L).store.get? k = recordAfter (acknowledged t.history) k := by
  have hreads : Reads L t :=
    exec_inv_along (fun _ _ _ h hl hs => reads_step h hl hs) (reads_fresh h hempty) hl he
  refine ⟨fun i n p since results outcome v hi hlevel hv => ?_, hreads.sequential.serial.versions,
    hreads.sequential.store⟩
  obtain ⟨j, e, hsince, hj, hlast, hset⟩ := hreads.got i n p since results outcome hi hlevel v hv
  have hji : j ≤ i := le_trans hj (List.length_take_le i t.history)
  refine ⟨j, e, hsince, hji, ?_, hset⟩
  rwa [List.take_take, min_eq_left hji] at hlast

/-- `a` is elected; its first write is answered with success, its second one fails, and `c` reads
    at STRONG. -/
def writesThenRead : List Label :=
  electionOf "a" "b" "c" ++ setOf "a" 1 [.answered, .unsent] ++ setOf "a" 2 [.handled, .unsent] ++
    [.get "c" "k" .strong, .answer "c" "a" .answered 3, .conclude "c" [], .endGet "c"]

/-- The read of `c`: its plan, and the result it takes from `a`. -/
def planOfC : ReadPlan :=
  { localId := "c", key := "k", level := .strong, replicas := ["a", "b", "c"]
    primaryOwner := some "a", replicationFactor := 3 }

def resultOfA : ReadResult :=
  { value := .int 1, version := 1, nodeId := "a", isStale := false, updatedAt := 1, createdAt := 1
    expiresAt := none, coordinatorId := "a" }

theorem strong_reads_sequential_sample :
    ∃ t, exec (step fun _ => 0) sample writesThenRead = some t ∧
      (∃ j e, 9 ≤ j ∧ j ≤ 9 ∧ lastWrite (acknowledged (t.history.take j)) "k" = some e ∧
        e.command = .set ∧ e.value = .int 1) ∧
      (∀ k, (setsSince (acknowledged t.history) k).map LogEntry.version =
        (List.range (setsSince (acknowledged t.history) k).length).map
          fun (i : Nat) => (i : Int) + 1) ∧
      ∀ k, (t.nodes "a").store.get? k = recordAfter (acknowledged t.history) k := by
  have hrun : (exec (step fun _ => 0) sample writesThenRead).map (fun t => t.history[9]?) =
      some (some (.got "c" planOfC 9 [resultOf "c" missingAnswer] (.found resultOfA []))) := rfl
  obtain ⟨t, ht, hgot⟩ := Option.map_eq_some_iff.mp hrun
  have hstrong : Along (step fun _ => 0) (StrongStep "a") sample writesThenRead := by decide
  obtain ⟨hread, hrest⟩ := strong_reads_sequential fresh_sample (fun _ => rfl) hstrong ht
  exact ⟨t, ht, hread 9 "c" planOfC 9 _ _ (.int 1) hgot rfl rfl, hrest⟩

end StrongReads

end MiniDb
