/-
  Every entry comes from a write: whatever is under way, sent, staged, queued, applied or
  answered was built by `_apply_partition_write` at some node (`known_run`), over runs with any
  leaders, restarts and losses. A staged entry is found under its own index.
-/
import MiniDb.Cluster.History

namespace MiniDb

open Lib ReadCoordinator

namespace Cluster

variable {hash : String → Nat}

def WasIssued (s : Cluster) (e : LogEntry) : Prop := ∃ n, Event.issued n e ∈ s.history

structure Known (s : Cluster) : Prop where
  task : ∀ n T e, s.tasks n = some T → T.entry? = some e → Event.issued n e ∈ s.history
  sent : ∀ dest e phase, (dest, Message.replicate e phase) ∈ s.sent → WasIssued s e
  staged : ∀ n i e, (s.nodes n).staged.get? i = some e → e.index = i ∧ WasIssued s e
  queue : ∀ n, ∀ p ∈ (s.nodes n).replication.asyncQueue, Event.issued n p.1 ∈ s.history
  replied : ∀ n e r, Event.replied n e r ∈ s.history → Event.issued n e ∈ s.history
  applied : ∀ n e, Event.applied n e ∈ s.history → WasIssued s e

theorem WasIssued.mono {s s' : Cluster} {e : LogEntry} (h : WasIssued s e)
    (hs : s.history ⊆ s'.history) : WasIssued s' e :=
  h.imp fun _ hn => hs hn

/-! ## The parts of a step -/

theorem Known.setTask {s : Cluster} (h : Known s) (n : String) {t : Option Task}
    (ht : ∀ T e, t = some T → T.entry? = some e → Event.issued n e ∈ s.history) :
    Known (s.setTask n t) := by
  refine ⟨fun m T e hT he => ?_, h.sent, h.staged, h.queue, h.replied, h.applied⟩
  simp only [Cluster.setTask, Function.update_apply] at hT
  split at hT
  · rename_i hm
    exact hm ▸ ht T e hT he
  · exact h.task m T e hT he

/-- A task that works on an entry of this node. -/
theorem Known.setWrite {s : Cluster} (h : Known s) {n : String} {e : LogEntry} {T : Task}
    (hT : T.entry? = some e) (he : Event.issued n e ∈ s.history) :
    Known (s.setTask n (some T)) := by
  refine h.setTask n fun T' e' hT' he' => ?_
  rw [Option.some.injEq] at hT'
  rw [← hT', hT, Option.some.injEq] at he'
  exact he' ▸ he

/-- A task that is no write. -/
theorem Known.setRead {s : Cluster} (h : Known s) (n : String) {T : Task}
    (hT : T.entry? = none) : Known (s.setTask n (some T)) := by
  refine h.setTask n fun T' e hT' he => ?_
  rw [Option.some.injEq] at hT'
  subst hT'
  rw [hT] at he
  cases he

theorem Known.clearTask {s : Cluster} (h : Known s) (n : String) : Known (s.setTask n none) :=
  h.setTask n fun _ _ hT => by cases hT

theorem Known.setNode {s : Cluster} (h : Known s) (n : String) {v : Node}
    (hstaged : ∀ i e, v.staged.get? i = some e → e.index = i ∧ WasIssued s e)
    (hqueue : ∀ p ∈ v.replication.asyncQueue, Event.issued n p.1 ∈ s.history) :
    Known (s.setNode n v) := by
  refine ⟨h.task, h.sent, fun m i e he => ?_, fun m p hp => ?_, h.replied, h.applied⟩
  · simp only [Cluster.setNode, Function.update_apply] at he
    split at he
    · exact hstaged i e he
    · exact h.staged m i e he
  · simp only [Cluster.setNode, Function.update_apply] at hp
    split at hp
    · rename_i hm
      exact hm ▸ hqueue p hp
    · exact h.queue m p hp

/-- A node that keeps what it has staged and queued. -/
theorem Known.setNode_same {s : Cluster} (h : Known s) (n : String) {v : Node}
    (hstaged : v.staged = (s.nodes n).staged)
    (hqueue : v.replication.asyncQueue = (s.nodes n).replication.asyncQueue) :
    Known (s.setNode n v) := by
  refine h.setNode n (fun i e he => h.staged n i e ?_) (fun p hp => h.queue n p ?_)
  · rw [← hstaged]
    exact he
  · rw [← hqueue]
    exact hp

theorem Known.log {s : Cluster} (h : Known s) {es : List Event}
    (hreplied : ∀ n e r, Event.replied n e r ∈ es → Event.issued n e ∈ s.history ++ es)
    (happlied : ∀ n e, Event.applied n e ∈ es → WasIssued (s.log es) e) : Known (s.log es) := by
  have hgrows : s.history ⊆ (s.log es).history := List.subset_append_left _ _
  refine ⟨fun n T e hT he => hgrows (h.task n T e hT he),
    fun d e p hp => (h.sent d e p hp).mono hgrows,
    fun n i e he => ⟨(h.staged n i e he).1, (h.staged n i e he).2.mono hgrows⟩,
    fun n p hp => hgrows (h.queue n p hp), fun n e r hmem => ?_, fun n e hmem => ?_⟩
  · rcases List.mem_append.mp hmem with hold | hnew
    · exact hgrows (h.replied n e r hold)
    · exact hreplied n e r hnew
  · rcases List.mem_append.mp hmem with hold | hnew
    · exact (h.applied n e hold).mono hgrows
    · exact happlied n e hnew

/-- The answer of a write. -/
theorem Known.logReply {s : Cluster} (h : Known s) {n : String} {e : LogEntry}
    (he : Event.issued n e ∈ s.history) (r : Response) : Known (s.log [.replied n e r]) := by
  refine h.log (fun m e' r hr => ?_) (fun m e' hr => by simp at hr)
  simp only [List.mem_singleton, Event.replied.injEq] at hr
  obtain ⟨rfl, rfl, rfl⟩ := hr
  exact List.mem_append_left _ he

theorem Known.record {s : Cluster} (h : Known s) (dest : String) {m : Message}
    (hm : ∀ e phase, m = .replicate e phase → WasIssued s e) : Known (s.record dest m) := by
  refine ⟨h.task, fun d e p hp => ?_, h.staged, h.queue, h.replied, h.applied⟩
  rcases List.mem_append.mp hp with hp | hp
  · exact h.sent d e p hp
  · rw [List.mem_singleton, Prod.mk.injEq] at hp
    exact hm e p hp.2.symm

/-- What a commit message carries is an entry of some write. -/
theorem Known.commitHandled {s : Cluster} (h : Known s) {l : Label} {n : String} {c : LogEntry}
    (hc : s.commitHandled l = some (n, c)) : WasIssued s c := by
  rcases commitHandled_cases hc with ⟨m, d, clock, rest, k, -, ht, -⟩ | ⟨i, clock, -, hm⟩
  · exact ⟨m, h.task m _ c ht rfl⟩
  · exact h.sent n c .commit (List.mem_of_getElem? hm)

/-- What a commit applies is an entry of some write. -/
theorem Known.toApply {s : Cluster} (h : Known s) (n : String) {e : LogEntry}
    (he : WasIssued s e) : WasIssued s ((s.nodes n).toApply e) := by
  unfold Node.toApply
  cases ha : (s.nodes n).staged.get? e.index with
  | none => exact he
  | some a => exact (h.staged n _ a ha).2

theorem Known.receive {s : Cluster} (h : Known s) (clock : Time) (dest : String) {m : Message}
    (hm : ∀ e phase, m = .replicate e phase → WasIssued s e) :
    Known (s.receive clock dest m).1 := by
  have hnode : Known (s.setNode dest ((s.nodes dest).handleMessage clock m).1) := by
    refine h.setNode dest (fun i a ha => ?_) (fun p hp => h.queue dest p ?_)
    · rw [staged_handleMessage] at ha
      split at ha
      · rename_i e
        rw [Dict.get?_set] at ha
        split at ha
        · rename_i hi
          rw [Option.some.injEq] at ha
          subst ha
          exact ⟨hi.symm, hm _ _ rfl⟩
        · exact h.staged dest i a ha
      · rw [Dict.get?_erase] at ha
        split at ha
        · cases ha
        · exact h.staged dest i a ha
      · exact h.staged dest i a ha
    · rw [(sameWriter_handleMessage clock (s.nodes dest) m).replication] at hp
      exact hp
  refine hnode.log (fun n e r hr => ?_) (fun n e hr => ?_)
  · unfold eventsOf at hr
    split at hr <;> simp at hr
  · unfold eventsOf at hr ⊢
    split at hr
    · simp only [List.mem_cons, reduceCtorEq, Event.applied.injEq, List.not_mem_nil, or_false,
        false_or] at hr
      obtain ⟨rfl, rfl⟩ := hr
      exact (h.toApply _ (hm _ _ rfl)).mono (List.subset_append_left _ _)
    · cases hr

theorem Known.send {s : Cluster} (h : Known s) (clock : Time) (dest : String) {m : Message}
    (d : Delivery) (hm : ∀ e phase, m = .replicate e phase → WasIssued s e) :
    Known (s.send clock dest m d).1 := by
  cases d with
  | unsent => exact h
  | sent => exact h.record dest hm
  | handled => exact (h.record dest hm).receive clock dest hm
  | answered => exact (h.record dest hm).receive clock dest hm

theorem Known.sendReplicate {s : Cluster} (h : Known s) {n : String} {e : LogEntry}
    (he : Event.issued n e ∈ s.history) (clock : Time) (dest : String)
    (phase : ReplicatePhase) (d : Delivery) :
    Known (s.send clock dest (.replicate e phase) d).1 :=
  h.send clock dest d fun e' phase' heq => by
    cases heq
    exact ⟨n, he⟩

theorem Known.control {s s' : Cluster} (h : Known s) (hc : Control s s') : Known s' := by
  have hgrows : s.history ⊆ s'.history := by
    rcases hc.history with hh | ⟨n, w, r, hh⟩
    · exact hh ▸ List.Subset.refl _
    · exact hh ▸ List.subset_append_left _ _
  refine ⟨fun n T e hT he => hgrows (h.task n T e (hc.tasks ▸ hT) he), fun d e p hp => ?_,
    fun n i e he => ?_, fun n p hp => ?_, fun n e r hmem => ?_, fun n e hmem => ?_⟩
  · rcases hc.sent _ hp with hp | hp
    · exact (h.sent d e p hp).mono hgrows
    · cases hp
  · rw [(hc.nodes n).staged] at he
    exact ⟨(h.staged n i e he).1, (h.staged n i e he).2.mono hgrows⟩
  · rw [(hc.nodes n).queue] at hp
    exact hgrows (h.queue n p hp)
  · refine hgrows (h.replied n e r ?_)
    rcases hc.history with hh | ⟨n, w, r, hh⟩
    · exact hh ▸ hmem
    · simpa [hh] using hmem
  · refine (h.applied n e ?_).mono hgrows
    rcases hc.history with hh | ⟨n, w, r, hh⟩
    · exact hh ▸ hmem
    · simpa [hh] using hmem

/-! ## Steps and runs -/

theorem Known.beginTask {s : Cluster} (h : Known s) {n : String} {e : LogEntry}
    (he : Event.issued n e ∈ s.history) (replicas : List String) (start : WriteStart) :
    Known (s.beginTask n e replicas start) := by
  cases start with
  | refused text => exact h.logReply he _
  | prepare targets => exact h.setWrite rfl he
  | commit targets => exact h.setWrite rfl he

theorem Known.begun {s : Cluster} (h : Known s) (i : Nat) (clock now : Time) (n : String)
    (w : WriteCall) (replicas : List String) : Known (s.begun i clock now n w replicas) := by
  have hmem : Event.issued n ((s.nodes n).beginWrite clock now w replicas).2.1 ∈
      s.history ++ [Event.issued n ((s.nodes n).beginWrite clock now w replicas).2.1] :=
    List.mem_append_right _ (List.mem_singleton.mpr rfl)
  have hlog : Known ({ s with waiting := s.waiting.eraseIdx i }.log
      [.issued n ((s.nodes n).beginWrite clock now w replicas).2.1]) :=
    Known.log (s := { s with waiting := s.waiting.eraseIdx i })
      ⟨h.task, h.sent, h.staged, h.queue, h.replied, h.applied⟩ (by simp) (by simp)
  have hspec := Node.beginWrite_spec clock now (s.nodes n) w replicas
  refine Known.beginTask (hlog.setNode n (fun j e he => ?_) (fun p hp => ?_)) hmem replicas _
  · rw [hspec.staged] at he
    exact hlog.staged n j e he
  · rcases hspec.queue p hp with hp | hp
    · exact hlog.queue n p hp
    · exact hp ▸ hmem

theorem known_step {s s' : Cluster} {l : Label} (h : Known s) (hs : step hash s l = some s') :
    Known s' := by
  cases step_effect hs with
  | control hl hb hc => exact h.control hc
  | admitted hw => exact ⟨h.task, h.sent, h.staged, h.queue, h.replied, h.applied⟩
  | begun hi hfree => exact h.begun _ _ _ _ _ _
  | @prepared n f d clock e replicas targets rest ht =>
    have he := h.task n _ e ht rfl
    have hsent := h.sendReplicate he clock f .prepare (deliveryTo (s.nodes n) f d)
    have hack : Known (s.prepared clock n e f (deliveryTo (s.nodes n) f d)) := by
      unfold Cluster.prepared
      simp only
      split
      · exact hsent.setNode_same n rfl (ReplicationManager.asyncQueue_acknowledge _ _)
      · exact hsent
    refine hack.setWrite rfl ?_
    rw [history_prepared]
    exact he
  | @ready n e replicas targets ht =>
    have hnode := h.setNode_same n (v := ((s.nodes n).endReplicate e).1) rfl
      (ReplicationManager.asyncQueue_endReplicate _ _)
    exact hnode.setWrite rfl (h.task n _ e ht rfl)
  | @unready n e replicas targets ht =>
    have hnode := h.setNode_same n (v := ((s.nodes n).endReplicate e).1) rfl
      (ReplicationManager.asyncQueue_endReplicate _ _)
    exact (hnode.clearTask n).logReply (h.task n _ e ht rfl) _
  | @committed n f d clock e rest committed ht =>
    have he := h.task n _ e ht rfl
    refine (h.sendReplicate he clock f .commit (deliveryTo (s.nodes n) f d)).setWrite rfl ?_
    rw [history_send]
    exact List.mem_append_left _ he
  | @settled n clock e committed ht =>
    have he := h.task n _ e ht rfl
    have hnode : Known (s.setNode n ((s.nodes n).settleWrite clock e committed).1) := by
      unfold Node.settleWrite
      split
      · exact h.setNode_same n rfl rfl
      · exact h.setNode_same n rfl rfl
    refine (hnode.clearTask n).log (fun m e' r hr => ?_) (fun m e' hr => ?_)
    · refine List.mem_append_left _ ?_
      rcases List.mem_append.mp hr with hr | hr
      · split at hr <;> simp at hr
      · simp only [List.mem_singleton, Event.replied.injEq] at hr
        obtain ⟨rfl, rfl, rfl⟩ := hr
        exact he
    · rcases List.mem_append.mp hr with hr | hr
      · split at hr
        · simp only [List.mem_singleton, Event.applied.injEq] at hr
          obtain ⟨rfl, rfl⟩ := hr
          exact ⟨m, List.mem_append_left _ he⟩
        · cases hr
      · simp at hr
  | @asyncDone n d clock e queue hq =>
    refine h.setNode n (h.staged n) fun p hp => h.queue n p ?_
    rw [hq]
    exact List.mem_cons_of_mem _ hp
  | @asyncSent n f d clock e rest queue hq d' =>
    have he : Event.issued n e ∈ s.history := h.queue n (e, f :: rest) (hq ▸ List.mem_cons_self)
    have hnode : Known (s.setNode n { s.nodes n with
        replication := { (s.nodes n).replication with asyncQueue := (e, rest) :: queue } }) := by
      refine h.setNode n (h.staged n) fun p hp => ?_
      rcases List.mem_cons.mp hp with rfl | hp
      · exact he
      · exact h.queue n p (hq ▸ List.mem_cons_of_mem _ hp)
    exact hnode.sendReplicate he clock f .prepare d'
  | getBegun hfree => exact h.setRead _ rfl
  | @answered n r d d' clock p since answers ht hnew =>
    have hread : Known (s.readFrom clock r p.key d').1 := by
      cases d' with
      | unsent => exact h
      | sent => exact h
      | handled => exact h.setNode_same r rfl rfl
      | answered => exact h.setNode_same r rfl rfl
    exact hread.setRead n rfl
  | concluded ht hnodup hfinished hlocal => exact h.setRead _ rfl
  | @repaired n d clock p since results best repairs rest r ht =>
    have hrepair : Known (s.repairWith clock n p.key r.nodeId best d) := by
      unfold repairWith
      split
      · refine h.setNode_same n ?_ ?_ <;>
          · simp only [Node.repairLocal, Node.applyRepairData, Node.storeUnlessOlder]
            split <;> rfl
      · exact h.send clock r.nodeId _ (m := .replicaSet (Node.repairArgs p.key best))
          fun e phase heq => by cases heq
    exact hrepair.setRead n rfl
  | gotten ht => exact (h.clearTask _).log (by simp) (by simp)
  | @delivered i clock dest m hm hdata =>
    refine h.receive clock dest fun e phase heq => ?_
    subst heq
    exact h.sent dest e phase (List.mem_of_getElem? hm)
  | @restarted n store aof membership ring =>
    have hnode : Known (s.setNode n ((s.nodes n).restart store aof membership ring)) :=
      h.setNode n (fun i e he => by cases he) (fun p hp => by cases hp)
    have hclear := hnode.clearTask n
    exact ⟨hclear.task, hclear.sent, hclear.staged, hclear.queue, hclear.replied, hclear.applied⟩
  | cleaned => exact h.setNode_same _ rfl rfl

theorem Fresh.known {s : Cluster} (h : Fresh s) : Known s := by
  refine ⟨fun n T e hT => absurd hT h.no_task, fun d e p hp => absurd hp (h.no_message _),
    fun n i e he => ?_, fun n p hp => ?_, fun n e r hr => absurd hr (h.no_event _),
    fun n e hr => absurd hr (h.no_event _)⟩
  · rw [h.staged] at he
    cases he
  · rw [h.queue] at hp
    cases hp

/-- **Every entry comes from a write**, in every run. -/
theorem known_run {s t : Cluster} {ls : List Label} (h : Fresh s)
    (he : exec (step hash) s ls = some t) : Known t :=
  exec_inv (fun _ _ _ h hs => known_step h hs) h.known he

end Cluster

end MiniDb
