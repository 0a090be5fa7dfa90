/-
  What is under way: the writes that wait, the write counters and the tasks of the nodes, and how
  a step can change them.
-/
import MiniDb.Cluster.Effects

namespace MiniDb

open Lib ReadCoordinator

namespace Cluster

variable {hash : String → Nat}

/-! ## Waiting writes and write counters -/

/-- A write that waits has been admitted. -/
theorem waiting_step {s s' : Cluster} {l : Label} (h : step hash s l = some s')
    {p : String × WriteCall × List String} (hp : p ∈ s'.waiting) :
    p ∈ s.waiting ∨ (l = .call p.1 p.2.1 ∧ (s.nodes p.1).admitWrite p.2.1 = .ok p.2.2) := by
  cases step_effect h with
  | control hl hb hc => exact .inl (hc.waiting ▸ hp)
  | admitted hw =>
    rcases List.mem_append.mp hp with hp | hp
    · exact .inl hp
    · rw [List.mem_singleton] at hp
      subst hp
      exact .inr ⟨rfl, hw⟩
  | begun hi hfree =>
    unfold Cluster.begun at hp
    rw [waiting_beginTask] at hp
    exact .inl (List.mem_of_mem_eraseIdx hp)
  | prepared ht => exact .inl (by simpa [setTask] using hp)
  | committed ht => exact .inl (by simpa [setTask] using hp)
  | asyncSent hq => exact .inl (by simpa [setNode] using hp)
  | answered ht hnew => exact .inl (by simpa [setTask] using hp)
  | repaired ht => exact .inl (by simpa [setTask] using hp)
  | restarted => exact .inl (List.mem_of_mem_filter hp)
  | _ => exact .inl hp

/-- The configuration and the write counter. -/
structure SameCounter (n n' : Node) : Prop where
  config : n'.config = n.config
  writeSequence : n'.writeSequence = n.writeSequence

theorem SameCounter.refl (n : Node) : SameCounter n n := ⟨rfl, rfl⟩

theorem SameCounter.trans {n₁ n₂ n₃ : Node} (h : SameCounter n₁ n₂) (h' : SameCounter n₂ n₃) :
    SameCounter n₁ n₃ :=
  ⟨h'.config.trans h.config, h'.writeSequence.trans h.writeSequence⟩

theorem counter_setNode {s : Cluster} {n : String} {v : Node} (h : SameCounter (s.nodes n) v)
    (m : String) : SameCounter (s.nodes m) ((s.setNode n v).nodes m) :=
  rel_update SameCounter.refl h m

theorem counter_handleMessage (clock : Time) (n : Node) (m : Message) :
    SameCounter n (n.handleMessage clock m).1 :=
  ⟨(sameWriter_handleMessage clock n m).config, (sameWriter_handleMessage clock n m).writeSequence⟩

theorem counter_send (clock : Time) (s : Cluster) (dest : String) (m : Message) (d : Delivery)
    (n : String) : SameCounter (s.nodes n) ((s.send clock dest m d).1.nodes n) :=
  rel_send SameCounter.refl (counter_handleMessage clock (s.nodes dest) m) n

theorem counter_storeUnlessOlder (now : Time) (n : Node) (u : Versioned) :
    SameCounter n (n.storeUnlessOlder now u).1 := by
  unfold Node.storeUnlessOlder
  simp only
  split <;> exact ⟨rfl, rfl⟩

/-- Only its own writes and restarts touch the counter of a node. -/
theorem counter_step {s s' : Cluster} {l : Label} (h : step hash s l = some s') (m : String) :
    SameCounter (s.nodes m) (s'.nodes m) ∨
      ((s'.nodes m).config = (s.nodes m).config ∧
        ((∃ e, s.entryBegun l = some (m, e)) ∨
          ∃ store aof membership ring, l = .restart m store aof membership ring)) := by
  cases step_effect h with
  | control hl hb hc => exact .inl ⟨(hc.nodes m).config, (hc.nodes m).writeSequence⟩
  | @begun i clock now n w replicas hi hfree =>
    have hspec := Node.beginWrite_spec clock now (s.nodes n) w replicas
    rw [nodes_begun]
    by_cases hm : m = n
    · subst hm
      rw [Function.update_self]
      exact .inr ⟨hspec.config, .inl ⟨_, entryBegun_begin s clock now m replicas hi hfree⟩⟩
    · rw [Function.update_of_ne hm]
      exact .inl (SameCounter.refl _)
  | @prepared n f d clock e replicas targets rest ht =>
    refine .inl ((counter_send clock s f (.replicate e .prepare)
      (deliveryTo (s.nodes n) f d) m).trans ?_)
    unfold Cluster.prepared
    simp only [setTask]
    split
    · exact counter_setNode (by exact ⟨rfl, rfl⟩) m
    · exact SameCounter.refl _
  | ready ht => exact .inl (counter_setNode (by exact ⟨rfl, rfl⟩) m)
  | unready ht => exact .inl (counter_setNode (by exact ⟨rfl, rfl⟩) m)
  | committed ht => exact .inl (counter_send _ _ _ _ _ m)
  | @settled n clock e committed ht =>
    refine .inl (counter_setNode ?_ m)
    unfold Node.settleWrite
    split <;> exact ⟨rfl, rfl⟩
  | asyncDone hq => exact .inl (counter_setNode (by exact ⟨rfl, rfl⟩) m)
  | asyncSent hq =>
    refine .inl (.trans ?_ (counter_send _ _ _ _ _ m))
    exact counter_setNode (by exact ⟨rfl, rfl⟩) m
  | @answered n r d d' clock q since answers ht hnew =>
    cases d' with
    | unsent => exact .inl (SameCounter.refl _)
    | sent => exact .inl (SameCounter.refl _)
    | handled => exact .inl (counter_setNode (by exact ⟨rfl, rfl⟩) m)
    | answered => exact .inl (counter_setNode (by exact ⟨rfl, rfl⟩) m)
  | repaired ht =>
    refine .inl ?_
    simp only [setTask, repairWith]
    split
    · exact counter_setNode (counter_storeUnlessOlder _ _ _) m
    · exact counter_send _ _ _ _ _ m
  | delivered hm hdata => exact .inl (counter_setNode (counter_handleMessage _ _ _) m)
  | @restarted n store aof membership ring =>
    by_cases hm : m = n
    · subst hm
      refine .inr ⟨?_, .inr ⟨_, _, _, _, rfl⟩⟩
      simp only [Function.update_self]
      rfl
    · refine .inl ?_
      simp only [Function.update_of_ne hm]
      exact SameCounter.refl _
  | cleaned => exact .inl (counter_setNode (by exact ⟨rfl, rfl⟩) m)
  | _ => exact .inl (SameCounter.refl _)

/-- A new entry has the next index. -/
theorem counter_begun {s s' : Cluster} {l : Label} (h : step hash s l = some s') {m : String}
    {e : LogEntry} (he : s.entryBegun l = some (m, e)) :
    e.index = (s.nodes m).writeSequence + 1 ∧ (s'.nodes m).writeSequence = e.index := by
  cases step_effect h with
  | control hl hb hc =>
    rw [hb] at he
    cases he
  | @begun i clock now n w replicas hi hfree =>
    have hspec := Node.beginWrite_spec clock now (s.nodes n) w replicas
    rw [entryBegun_begin s clock now n replicas hi hfree, Option.some.injEq, Prod.mk.injEq] at he
    obtain ⟨rfl, rfl⟩ := he
    rw [nodes_begun, Function.update_self, hspec.writeSequence, hspec.entry]
    exact ⟨rfl, rfl⟩
  | _ => cases he

theorem config_step {s s' : Cluster} {l : Label} (h : step hash s l = some s') (m : String) :
    (s'.nodes m).config = (s.nodes m).config := by
  rcases counter_step h m with h | ⟨h, -⟩
  · exact h.config
  · exact h

theorem nodeId_step {s s' : Cluster} {l : Label} (h : step hash s l = some s') (m : String) :
    (s'.nodes m).nodeId = (s.nodes m).nodeId := by
  unfold Node.nodeId
  rw [config_step h]

/-! ## Tasks -/

theorem task_setTask {s : Cluster} {m n : String} {T' T : Task}
    (h : (s.setTask m (some T')).tasks n = some T) : s.tasks n = some T ∨ (n = m ∧ T' = T) := by
  simp only [setTask, Function.update_apply] at h
  split at h
  · rename_i hn
    exact .inr ⟨hn, Option.some.inj h⟩
  · exact .inl h

theorem task_clearTask {s : Cluster} {m n : String} {T : Task}
    (h : (s.setTask m none).tasks n = some T) : s.tasks n = some T := by
  simp only [setTask, Function.update_apply] at h
  split at h
  · cases h
  · exact h

/-- How a write or a GET comes to the point where it is. -/
inductive TaskStep (hash : String → Nat) (s : Cluster) (l : Label) (s' : Cluster) (n : String) :
    Task → Prop where
  | begunPrepare {w : WriteCall} {replicas : List String} {e : LogEntry}
      (hw : (n, w, replicas) ∈ s.waiting) (he : s.entryBegun l = some (n, e))
      (hall : (s.nodes n).targets replicas = (s.nodes n).remoteReplicas replicas) :
      TaskStep hash s l s' n (.prepare e replicas ((s.nodes n).targets replicas)
        ((s.nodes n).targets replicas))
  | begunCommit {w : WriteCall} {replicas : List String} {e : LogEntry}
      (hw : (n, w, replicas) ∈ s.waiting) (he : s.entryBegun l = some (n, e))
      (hall : (s.nodes n).targets replicas = (s.nodes n).remoteReplicas replicas) :
      TaskStep hash s l s' n (.commit e ((s.nodes n).targets replicas) 0)
  | prepared {e : LogEntry} {replicas targets rest : List String} {f : String}
      (ht : s.tasks n = some (.prepare e replicas targets (f :: rest))) :
      TaskStep hash s l s' n (.prepare e replicas targets rest)
  | ready {e : LogEntry} {replicas targets : List String}
      (ht : s.tasks n = some (.prepare e replicas targets [])) :
      TaskStep hash s l s' n (.commit e targets 0)
  | unconfirmed {e : LogEntry} {rest : List String} {f : String} {k : Nat}
      (ht : s.tasks n = some (.commit e (f :: rest) k)) {d : Delivery} {clock : Time}
      (hl : l = .commit n d clock) : TaskStep hash s l s' n (.commit e rest k)
  | confirmed {e : LogEntry} {rest : List String} {f : String} {k : Nat}
      (ht : s.tasks n = some (.commit e (f :: rest) k))
      (hc : s.commitHandled l = some (f, e)) {d : Delivery} {clock : Time}
      (hl : l = .commit n d clock) : TaskStep hash s l s' n (.commit e rest (k + 1))
  | getBegun {key : String} {level : ConsistencyLevel} (hl : l = .get n key level) :
      TaskStep hash s l s' n
        (.read ((s.nodes n).readPlan hash key level) s.history.length Dict.empty)
  | answered {p : ReadPlan} {since : Nat} {answers : Dict String (ReadAnswer × Bool)}
      (ht : s.tasks n = some (.read p since answers)) (r : String) (clock : Time) (d : Delivery) :
      TaskStep hash s l s' n (.read p since (answers.set r (s.readFrom clock r p.key d).2))
  | concluded {finished : List String} {p : ReadPlan} {since : Nat}
      {answers : Dict String (ReadAnswer × Bool)} (hl : l = .conclude n finished)
      (ht : s.tasks n = some (.read p since answers)) (hnodup : finished.Nodup)
      (hfinished : ∀ r ∈ finished, r ∈ p.replicas ∧ r ≠ p.localId) :
      TaskStep hash s l s' n (.repair p since
        (collected p (collectedAnswer answers p.localId) (collectedAnswer answers) finished)
        (ReadCoordinator.read p (collectedAnswer answers p.localId) (collectedAnswer answers)
          finished)
        (ReadCoordinator.read p (collectedAnswer answers p.localId) (collectedAnswer answers)
          finished).repairs)
  | repaired {p : ReadPlan} {since : Nat} {results : List ReadResult} {best : ReadResult}
      {repairs rest : List ReadResult} {r : ReadResult}
      (ht : s.tasks n = some (.repair p since results (.found best repairs) (r :: rest))) :
      TaskStep hash s l s' n (.repair p since results (.found best repairs) rest)

/-- What is under way was there before, or has come one step further. -/
theorem task_step {s s' : Cluster} {l : Label} (h : step hash s l = some s') {n : String}
    {T : Task} (hT : s'.tasks n = some T) : s.tasks n = some T ∨ TaskStep hash s l s' n T := by
  cases step_effect h with
  | control hl hb hc => exact .inl (hc.tasks ▸ hT)
  | @begun i clock now m w replicas hi hfree =>
    have hw := List.mem_of_getElem? hi
    have he := entryBegun_begin s clock now m replicas hi hfree
    unfold Cluster.begun at hT
    simp only [beginTask] at hT
    rcases (Node.beginWrite_spec clock now (s.nodes m) w replicas).start with
      ⟨text, hstart⟩ | ⟨hall, hstart | hstart⟩
    · rw [hstart] at hT
      exact .inl hT
    · rw [hstart] at hT
      rcases task_setTask hT with hT | ⟨rfl, rfl⟩
      · exact .inl hT
      · exact .inr (.begunPrepare hw he hall)
    · rw [hstart] at hT
      rcases task_setTask hT with hT | ⟨rfl, rfl⟩
      · exact .inl hT
      · exact .inr (.begunCommit hw he hall)
  | prepared ht =>
    rcases task_setTask hT with hT | ⟨rfl, rfl⟩
    · exact .inl (by simpa using hT)
    · exact .inr (.prepared ht)
  | ready ht =>
    rcases task_setTask hT with hT | ⟨rfl, rfl⟩
    · exact .inl hT
    · exact .inr (.ready ht)
  | unready ht => exact .inl (task_clearTask hT)
  | @committed m f d clock e rest k ht =>
    rcases task_setTask hT with hT | ⟨rfl, rfl⟩
    · exact .inl (by simpa using hT)
    · split
      · rename_i hok
        have hd := isHandled_of_success _ _ _ _ _ hok
        exact .inr (.confirmed ht (by simp only [commitHandled, ht, hd, if_true]) rfl)
      · exact .inr (.unconfirmed ht rfl)
  | settled ht => exact .inl (task_clearTask hT)
  | asyncSent hq => exact .inl (by simpa [setNode] using hT)
  | getBegun hfree =>
    rcases task_setTask hT with hT | ⟨rfl, rfl⟩
    · exact .inl hT
    · exact .inr (.getBegun rfl)
  | @answered m r d d' clock p since answers ht hnew =>
    rcases task_setTask hT with hT | ⟨rfl, rfl⟩
    · exact .inl (by simpa using hT)
    · exact .inr (.answered ht r clock d')
  | concluded ht hnodup hfinished hlocal =>
    rcases task_setTask hT with hT | ⟨rfl, rfl⟩
    · exact .inl hT
    · exact .inr (.concluded rfl ht hnodup
        fun r hr => ⟨(hfinished r hr).1, (hfinished r hr).2.1⟩)
  | repaired ht =>
    rcases task_setTask hT with hT | ⟨rfl, rfl⟩
    · exact .inl (by simpa using hT)
    · exact .inr (.repaired ht)
  | gotten ht => exact .inl (task_clearTask hT)
  | @restarted m store aof membership ring =>
    simp only [Function.update_apply] at hT
    split at hT
    · cases hT
    · exact .inl hT
  | _ => exact .inl hT

/-- An answer of a read is a missing marker, or what the node has. -/
theorem readFrom_answer (clock : Time) (s : Cluster) (r key : String) (d : Delivery) :
    (s.readFrom clock r key d).2 = (missingAnswer, false) ∨
      (s.readFrom clock r key d).2 = (((s.nodes r).localRead clock key).2, true) := by
  cases d
  · exact .inl rfl
  · exact .inl rfl
  · exact .inl rfl
  · exact .inr rfl

end Cluster

end MiniDb
