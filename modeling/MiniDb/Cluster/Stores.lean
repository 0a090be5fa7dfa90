/-
  What a step does to the records of a node (`store_step`), and which writes it answers with
  success (`acknowledged_step`), said once for the developments that follow single records.
-/
import MiniDb.Cluster.Issued

namespace MiniDb

open Lib ReadCoordinator

namespace Cluster

variable {hash : String → Nat}

/-! ## Writes answered with success -/

/-- The entries of the writes answered with success, in the order of the answers. -/
def acknowledged (h : List Event) : List LogEntry :=
  h.filterMap fun
    | .replied _ e (.ok _) => some e
    | _ => none

/-- The write that a step answers with success. -/
def entryAcked (s : Cluster) : Label → Option (String × LogEntry)
  | .settle n _ =>
    match s.tasks n with
    | some (.commit e [] k) =>
      if requiredTotal (s.nodes n).config.replicationFactor
          (s.nodes n).config.defaultConsistency ≤ k + 1 then some (n, e)
      else none
    | _ => none
  | _ => none

@[simp] theorem acknowledged_append (h h' : List Event) :
    acknowledged (h ++ h') = acknowledged h ++ acknowledged h' := List.filterMap_append

theorem mem_acknowledged {h : List Event} {e : LogEntry} :
    e ∈ acknowledged h ↔ ∃ n r, Event.replied n e r ∈ h ∧ r.success = true := by
  unfold acknowledged
  rw [List.mem_filterMap]
  constructor
  · rintro ⟨ev, hev, heq⟩
    split at heq
    · rename_i n e' data
      rw [Option.some.injEq] at heq
      exact ⟨n, .ok data, heq ▸ hev, rfl⟩
    · cases heq
  · rintro ⟨n, r, hev, hr⟩
    cases r with
    | ok data => exact ⟨_, hev, rfl⟩
    | error text => cases hr

/-- What had been answered is answered. -/
theorem mem_acknowledged_of_take {h : List Event} {since : Nat} {e : LogEntry}
    (he : e ∈ acknowledged (h.take since)) : e ∈ acknowledged h := by
  obtain ⟨n, r, hr, hsuccess⟩ := mem_acknowledged.mp he
  exact mem_acknowledged.mpr ⟨n, r, List.mem_of_mem_take hr, hsuccess⟩

theorem Known.acknowledged {s : Cluster} (h : Known s) {e : LogEntry}
    (he : e ∈ acknowledged s.history) : WasIssued s e := by
  obtain ⟨n, r, hr, -⟩ := mem_acknowledged.mp he
  exact ⟨n, h.replied n e r hr⟩

theorem acknowledged_eventsOf (dest : String) (n : Node) (m : Message) :
    acknowledged (eventsOf dest n m) = [] := by
  unfold eventsOf
  split <;> rfl

theorem acknowledged_send (clock : Time) (s : Cluster) (dest : String) (m : Message)
    (d : Delivery) :
    acknowledged (s.send clock dest m d).1.history = acknowledged s.history := by
  rw [history_send, acknowledged_append]
  split
  · rw [acknowledged_eventsOf, List.append_nil]
  · exact List.append_nil _

theorem entryAcked_settle {s : Cluster} {n : String} {e : LogEntry} {k : Nat}
    (ht : s.tasks n = some (.commit e [] k)) (clock : Time) :
    s.entryAcked (.settle n clock) =
      if requiredTotal (s.nodes n).config.replicationFactor
        (s.nodes n).config.defaultConsistency ≤ k + 1 then some (n, e) else none := by
  simp only [entryAcked, ht]

/-- A write that is answered with success is under way at its node. -/
theorem entryAcked_eq {s : Cluster} {l : Label} {n : String} {e : LogEntry}
    (h : s.entryAcked l = some (n, e)) :
    ∃ clock k, l = .settle n clock ∧ s.tasks n = some (.commit e [] k) := by
  cases l with
  | settle m clock =>
    simp only [entryAcked] at h
    split at h
    · rename_i e' k ht
      split at h
      · rw [Option.some.injEq, Prod.mk.injEq] at h
        obtain ⟨rfl, rfl⟩ := h
        exact ⟨clock, k, rfl, ht⟩
      · cases h
    · cases h
  | _ => cases h

/-- A write that ends leaves its node free. -/
theorem tasks_settle {s s' : Cluster} {n : String} {clock : Time}
    (h : step hash s (.settle n clock) = some s') : s'.tasks n = none := by
  simp only [step] at h
  split at h
  · rw [Option.some.injEq] at h
    subst h
    simp [log, setTask]
  · cases h

/-- A step that does not end a write answers none with success. -/
theorem acknowledged_other {s s' : Cluster} {l : Label} (h : step hash s l = some s')
    (hl : ∀ n clock, l ≠ .settle n clock) : acknowledged s'.history = acknowledged s.history := by
  have hsame : ∀ {es : List Event}, acknowledged es = [] →
      acknowledged (s.history ++ es) = acknowledged s.history := by
    intro es hes
    rw [acknowledged_append, hes, List.append_nil]
  cases step_effect h with
  | control hc hb hcontrol =>
    rcases hcontrol.history with hh | ⟨n, w, r, hh⟩
    · rw [hh]
    · rw [hh]
      exact hsame rfl
  | begun hi hfree =>
    simp only [begun, history_beginTask, log, setNode, List.append_assoc]
    refine hsame ?_
    split <;> rfl
  | prepared ht => rw [setTask, history_prepared]
  | unready ht => exact hsame rfl
  | committed ht => exact acknowledged_send _ s _ _ _
  | settled ht => exact absurd rfl (hl _ _)
  | asyncSent hq => exact acknowledged_send _ (setNode _ _ _) _ _ _
  | answered ht hnew => rw [setTask, history_readFrom]
  | repaired ht => rw [setTask, history_repairWith]
  | gotten ht => exact hsame rfl
  | delivered hm hdata => exact hsame (acknowledged_eventsOf _ _ _)
  | _ => rfl

/-- A step answers the write it acknowledges, and no other, with success. -/
theorem acknowledged_step {s s' : Cluster} {l : Label} (h : step hash s l = some s') :
    acknowledged s'.history =
      acknowledged s.history ++ ((s.entryAcked l).map Prod.snd).toList := by
  by_cases hl : ∃ n clock, l = .settle n clock
  · obtain ⟨n, clock, rfl⟩ := hl
    simp only [step] at h
    split at h
    · rename_i e k ht
      rw [Option.some.injEq] at h
      subst h
      rw [entryAcked_settle ht]
      simp only [log, setTask, setNode, acknowledged_append]
      unfold Node.settleWrite
      by_cases hk : k + 1 < requiredTotal (s.nodes n).config.replicationFactor
          (s.nodes n).config.defaultConsistency
      · rw [if_pos hk, if_neg (not_le.mpr hk)]
        rfl
      · rw [if_neg hk, if_pos (not_lt.mp hk)]
        rfl
    · cases h
  · have hnone : s.entryAcked l = none := by
      cases l with
      | settle n clock => exact absurd ⟨n, clock, rfl⟩ hl
      | _ => rfl
    rw [acknowledged_other h fun n clock heq => hl ⟨n, clock, heq⟩, hnone]
    exact (List.append_nil _).symm

/-! ## The records of a node -/

/-- The same records, except that expired ones may be gone. -/
def Purged (n n' : Node) : Prop := ∀ k, n'.store.get? k = n.store.get? k ∨
  n'.store.get? k = none ∧ ∃ m clock, n.store.get? k = some m ∧ expiredBefore m.expiresAt clock

theorem Purged.refl (n : Node) : Purged n n := fun _ => .inl rfl

theorem Purged.of_eq {n n' : Node} (h : n'.store = n.store) : Purged n n' :=
  fun k => .inl (by rw [h])

/-- A read purges at most the record it looks for. -/
theorem purged_getWithMetadata {n n' : Node} {clock : Time} {key : String}
    (h : n'.store = (n.store.getWithMetadata clock key).1) : Purged n n' := by
  intro k
  rw [h]
  rcases KVStore.getWithMetadata_store n.store clock key with hs | ⟨hs, m, hm, hx⟩
  · exact .inl (by rw [hs])
  · rw [hs, KVStore.get?_deleteInternal]
    split
    · rename_i hk
      subst hk
      exact .inr ⟨rfl, m, clock, hm, hx⟩
    · exact .inl rfl

theorem purged_cleanupExpired {n n' : Node} {clock : Time}
    (h : n'.store = n.store.cleanupExpired clock) : Purged n n' := by
  intro k
  rw [h, KVStore.get?_cleanupExpired]
  cases hm : n.store.get? k with
  | none => exact .inl rfl
  | some m =>
    by_cases hx : expiredBefore m.expiresAt clock
    · exact .inr ⟨by simp [Option.filter_some, hx], m, clock, rfl, hx⟩
    · exact .inl (by simp [Option.filter_some, hx])

/-- What a message does to the store of its node. -/
theorem store_handleMessage (clock : Time) (n : Node) (m : Message) :
    (n.handleMessage clock m).1.store = n.store ∨
      (∃ e, m = .replicate e .commit ∧
        (n.handleMessage clock m).1.store = applyToStore clock n.store (n.toApply e)) ∨
      ∃ args u, m = .replicaSet args ∧ u.key = args.key ∧
        (n.handleMessage clock m).1.store = (n.storeUnlessOlder clock u).1.store := by
  cases m with
  | replicate e phase =>
    cases phase with
    | prepare => exact .inl rfl
    | commit => exact .inr (.inl ⟨e, rfl, rfl⟩)
  | replicaSet args =>
    rcases Replica.replicaSet_cases clock n (some args) with h | ⟨a, u, ha, hkey, -, h⟩
    · exact .inl (congrArg Node.store h)
    · obtain rfl := Option.some.inj ha
      exact .inr (.inr ⟨args, u, rfl, hkey, congrArg Node.store h⟩)
  | voteRequest r => exact .inl rfl
  | heartbeat leaderId term =>
    have hm : IsElection (.heartbeat leaderId term) := trivial
    exact .inl (sameData_handleMessage clock n hm).store

/-- Where a versioned update that reaches `n` comes from. -/
inductive Merges (s : Cluster) (n key : String) : Label → Prop where
  | repair {m : String} {d : Delivery} {clock : Time} {p : ReadPlan} {since : Nat}
      {results : List ReadResult} {best : ReadResult} {repairs rest : List ReadResult}
      {r : ReadResult}
      (ht : s.tasks m = some (.repair p since results (.found best repairs) (r :: rest)))
      (hkey : key = p.key) : Merges s n key (.repair m d clock)
  | delivered {i : Nat} {clock : Time} {args : ReplicaSetArgs}
      (hm : s.sent[i]? = some (n, .replicaSet args)) (hkey : key = args.key) :
      Merges s n key (.deliver i clock)

/-- What becomes of the store of `n`. -/
inductive StoreStep (s : Cluster) (l : Label) (s' : Cluster) (n : String) : Prop where
  | purged (hnot : ∀ e, s.entryAcked l ≠ some (n, e)) (h : Purged (s.nodes n) (s'.nodes n))
  | committed {c : LogEntry} {clock : Time} (hc : s.commitHandled l = some (n, c))
      (h : (s'.nodes n).store = applyToStore clock (s.nodes n).store ((s.nodes n).toApply c))
  | settled {e : LogEntry} (clock : Time) (he : s.entryAcked l = some (n, e))
      (h : (s'.nodes n).store = applyToStore clock (s.nodes n).store e)
  | merged {u : Versioned} {clock : Time} (hu : Merges s n u.key l)
      (h : (s'.nodes n).store = ((s.nodes n).storeUnlessOlder clock u).1.store)
  | restarted {store : KVStore} {aof : List AofEntry} {membership : MembershipManager}
      {ring : ConsistentHashRing} (hl : l = .restart n store aof membership ring)
      (h : (s'.nodes n).store = store)

/-- A node that the step leaves alone. -/
theorem StoreStep.same {s s' : Cluster} {l : Label} {n : String}
    (hnot : ∀ e, s.entryAcked l ≠ some (n, e)) (h : (s'.nodes n).store = (s.nodes n).store) :
    StoreStep s l s' n :=
  .purged hnot (.of_eq h)

/-- A message that is sent and perhaps handled. -/
theorem storeStep_send {s s' : Cluster} {l : Label} {n : String} (dest : String) (clock : Time)
    (m : Message) (d : Delivery) (hnot : ∀ e, s.entryAcked l ≠ some (n, e))
    (hs' : (s'.nodes n).store = ((s.send clock dest m d).1.nodes n).store)
    (hcommit : ∀ e, m = .replicate e .commit → d.isHandled → s.commitHandled l = some (dest, e))
    (hmerge : ∀ args, m = .replicaSet args → Merges s dest args.key l) : StoreStep s l s' n := by
  rw [nodes_send] at hs'
  by_cases hd : d.isHandled
  · rw [if_pos hd] at hs'
    by_cases hn : n = dest
    · subst hn
      rw [Function.update_self] at hs'
      rcases store_handleMessage clock (s.nodes n) m with h | ⟨e, hm, h⟩ | ⟨args, u, hm, hkey, h⟩
      · exact .same hnot (hs'.trans h)
      · exact .committed (hcommit e hm hd) (hs'.trans h)
      · exact .merged (hkey ▸ hmerge args hm) (hs'.trans h)
    · rw [Function.update_of_ne hn] at hs'
      exact .same hnot hs'
  · rw [if_neg hd] at hs'
    exact .same hnot hs'

theorem storeStep_settle {s s' : Cluster} {m : String} {clock : Time}
    (h : step hash s (.settle m clock) = some s') (n : String) :
    StoreStep s (.settle m clock) s' n := by
  simp only [step] at h
  split at h
  · rename_i e k ht
    rw [Option.some.injEq] at h
    subst h
    have hacked := entryAcked_settle ht clock
    by_cases hn : n = m
    · subst hn
      simp only [Node.settleWrite]
      by_cases hk : k + 1 < requiredTotal (s.nodes n).config.replicationFactor
          (s.nodes n).config.defaultConsistency
      · refine .same (fun e' he => ?_) ?_
        · rw [hacked, if_neg (not_le.mpr hk)] at he
          cases he
        · simp [log, setTask, setNode, hk]
      · refine .settled clock (hacked.trans (if_pos (not_lt.mp hk))) ?_
        simp [log, setTask, setNode, hk, Node.applyLogEntry]
    · refine .same (fun e' he => ?_) ?_
      · obtain ⟨-, k', -, ht'⟩ := entryAcked_eq he
        rw [hacked] at he
        split at he
        · exact hn (Prod.mk.inj (Option.some.inj he)).1.symm
        · cases he
      · simp only [log, setTask, setNode, Function.update_of_ne hn]
  · cases h

/-- **What a step does to the store of a node.** -/
theorem store_step {s s' : Cluster} {l : Label} (h : step hash s l = some s') (n : String) :
    StoreStep s l s' n := by
  by_cases hl : ∃ m clock, l = .settle m clock
  · obtain ⟨m, clock, rfl⟩ := hl
    exact storeStep_settle h n
  have hnot : ∀ e, s.entryAcked l ≠ some (n, e) := by
    intro e he
    obtain ⟨clock, k, rfl, -⟩ := entryAcked_eq he
    exact hl ⟨n, clock, rfl⟩
  cases step_effect h with
  | control hc hb hcontrol => exact .same hnot (hcontrol.nodes n).store
  | @begun i clock now m w replicas hi hfree =>
    refine .purged hnot ?_
    rw [nodes_begun]
    exact rel_update Purged.refl
      (purged_getWithMetadata (Node.beginWrite_spec clock now (s.nodes m) w replicas).store) n
  | @prepared m f d clock e replicas targets rest ht =>
    refine storeStep_send f clock (.replicate e .prepare) (deliveryTo (s.nodes m) f d) hnot ?_
      (fun e' he => by cases he) fun args he => by cases he
    simp only [setTask, prepared]
    split
    · simp only [setNode, Function.update_apply]
      split
      · rename_i hn
        subst hn
        rfl
      · rfl
    · rfl
  | ready ht => exact .purged hnot (rel_update Purged.refl (.of_eq (by rfl)) n)
  | unready ht => exact .purged hnot (rel_update Purged.refl (.of_eq (by rfl)) n)
  | @committed m f d clock e rest k ht =>
    refine storeStep_send f clock (.replicate e .commit) (deliveryTo (s.nodes m) f d) hnot rfl
      (fun e' he hd => ?_) fun args he => by cases he
    cases he
    simp [commitHandled, ht, hd]
  | settled ht => exact absurd ⟨_, _, rfl⟩ hl
  | asyncDone hq => exact .purged hnot (rel_update Purged.refl (.of_eq (by rfl)) n)
  | @asyncSent m f d clock e rest queue hq d' =>
    -- the queue and what is staged change, no store does
    have hqueue : ∀ v, (Function.update s.nodes m { s.nodes m with
        replication :=
          { (s.nodes m).replication with asyncQueue := (e, rest) :: queue } } v).store =
        (s.nodes v).store :=
      fun v => (rel_update (R := fun n n' => n'.store = n.store) (fun _ => rfl) (by rfl) v)
    refine .same hnot (Eq.trans ?_ (hqueue n))
    exact rel_send (R := fun n n' => n'.store = n.store) (fun _ => rfl) (by rfl) n
  | @answered m r d d' clock p since answers ht hnew =>
    refine .purged hnot ?_
    have hread : Purged (s.nodes r) ((s.nodes r).localRead clock p.key).1 :=
      purged_getWithMetadata rfl
    cases d' with
    | unsent => exact .refl _
    | sent => exact .refl _
    | handled => exact rel_update Purged.refl hread n
    | answered => exact rel_update Purged.refl hread n
  | @repaired m d clock p since results best repairs rest r ht =>
    unfold repairWith
    simp only [setTask]
    split
    · by_cases hn : n = m
      · subst hn
        exact .merged (.repair ht rfl) (by simp only [setNode, Function.update_self]; rfl)
      · exact .same hnot (by simp only [setNode, Function.update_of_ne hn])
    · refine storeStep_send r.nodeId clock (.replicaSet (Node.repairArgs p.key best)) _ hnot rfl
        (fun e he => by cases he) fun args he => ?_
      cases he
      exact .repair ht rfl
  | @delivered i clock dest m hm hdata =>
    by_cases hn : n = dest
    · subst hn
      have hstore : (((s.receive clock n m).1).nodes n).store =
          ((s.nodes n).handleMessage clock m).1.store := by
        simp only [receive, log, setNode, Function.update_self]
      rcases store_handleMessage clock (s.nodes n) m with h | ⟨e, rfl, h⟩ | ⟨args, u, rfl, hkey, h⟩
      · exact .same hnot (hstore.trans h)
      · exact .committed (by simp [commitHandled, hm]) (hstore.trans h)
      · exact .merged (.delivered hm hkey) (hstore.trans h)
    · exact .same hnot (by simp only [receive, log, setNode, Function.update_of_ne hn])
  | @restarted m store aof membership ring =>
    by_cases hn : n = m
    · subst hn
      exact .restarted rfl (by simp only [Function.update_self]; rfl)
    · exact .same hnot (by simp only [Function.update_of_ne hn])
  | cleaned => exact .purged hnot (rel_update Purged.refl (purged_cleanupExpired (by rfl)) n)
  | _ => exact .same hnot rfl

/-- A commit message that is handled is applied. -/
theorem store_commit {s s' : Cluster} {n f : String} {d : Delivery} {clock : Time} {e : LogEntry}
    {rest : List String} {k : Nat} (ht : s.tasks n = some (.commit e (f :: rest) k))
    (h : step hash s (.commit n d clock) = some s')
    (hd : (deliveryTo (s.nodes n) f d).isHandled) :
    (s'.nodes f).store = applyToStore clock (s.nodes f).store ((s.nodes f).toApply e) := by
  simp only [step, ht, Option.some.injEq] at h
  subst h
  simp only [setTask, nodes_send, hd, if_true, Function.update_self]
  rfl

end Cluster

end MiniDb
