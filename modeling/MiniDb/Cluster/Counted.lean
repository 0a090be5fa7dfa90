/-
  Who is counted for a write.

  `commit_to_followers` counts the followers that answer the commit with a success. They are
  distinct, none is the writer, and each has handled the commit. Where commits apply the entry
  they carry, each has thus applied the entry of the write (`counted_step`), with any number of
  leaders and restarts and whatever messages are lost.
-/
import MiniDb.Cluster.CommitExact
import MiniDb.Cluster.Tasks

namespace MiniDb

open Lib ReadCoordinator

namespace Cluster

variable {hash : String → Nat}

/-- The number of nodes that must apply a write of `n`. -/
def required (n : Node) : Nat :=
  requiredTotal n.config.replicationFactor n.config.defaultConsistency

/-- A success is answered by a write that ends with enough confirmations. -/
theorem replied_step {s s' : Cluster} {l : Label} (h : step hash s l = some s') {n : String}
    {e : LogEntry} {r : Response} (hr : Event.replied n e r ∈ s'.history) (hsuccess : r.success) :
    Event.replied n e r ∈ s.history ∨ (Event.applied n e ∈ s'.history ∧
      ∃ k, s.tasks n = some (.commit e [] k) ∧ required (s.nodes n) ≤ k + 1) := by
  rcases recorded_step h hr with hold | hnew
  · exact .inl hold
  · cases hnew with
    | failed => cases hsuccess
    | @succeeded n e k ht hk happlied => exact .inr ⟨happlied, k, ht, hk⟩

/-! ## Counted followers have applied -/

/-- Nodes other than `n` that have applied `e`. -/
def AppliedBy (s : Cluster) (n : String) (e : LogEntry) (fs : Finset String) : Prop :=
  n ∉ fs ∧ ∀ f ∈ fs, Event.applied f e ∈ s.history

theorem AppliedBy.mono {s s' : Cluster} {n : String} {e : LogEntry} {fs : Finset String}
    (h : AppliedBy s n e fs) (hs : s.history ⊆ s'.history) : AppliedBy s' n e fs :=
  ⟨h.1, fun f hf => hs (h.2 f hf)⟩

structure Counted (s : Cluster) : Prop where
  preparing : ∀ n e replicas targets rest,
    s.tasks n = some (.prepare e replicas targets rest) →
      targets.Nodup ∧ n ∉ targets ∧ rest ⊆ targets
  committing : ∀ n e rest k, s.tasks n = some (.commit e rest k) →
    rest.Nodup ∧ n ∉ rest ∧ ∃ fs, AppliedBy s n e fs ∧ fs.card = k ∧ ∀ f ∈ fs, f ∉ rest
  acked : ∀ n e r, Event.replied n e r ∈ s.history → r.success →
    Event.applied n e ∈ s.history ∧ ∃ fs, AppliedBy s n e fs ∧ required (s.nodes n) ≤ fs.card + 1

theorem required_step {s s' : Cluster} {l : Label} (hs : step hash s l = some s') (n : String) :
    required (s'.nodes n) = required (s.nodes n) := by
  unfold required
  rw [config_step hs]

/-- The node knows its own id, and no waiting write lists a replica twice. -/
structure Distinct (s : Cluster) : Prop where
  ids : ∀ n, (s.nodes n).nodeId = n
  waiting : ∀ p ∈ s.waiting, p.2.2.Nodup

theorem distinct_step {s s' : Cluster} {l : Label} (h : Distinct s)
    (hs : step hash s l = some s') : Distinct s' := by
  refine ⟨fun n => by rw [nodeId_step hs, h.ids], fun p hp => ?_⟩
  rcases waiting_step hs hp with hold | ⟨-, hadmit⟩
  · exact h.waiting p hold
  · exact Node.nodup_admitted hadmit

theorem Fresh.distinct {s : Cluster} (h : Fresh s) : Distinct s := by
  refine ⟨h.ids, fun p hp => ?_⟩
  rw [h.waiting] at hp
  cases hp

theorem Distinct.targets_spec {s : Cluster} (h : Distinct s) {n : String} {w : WriteCall}
    {replicas : List String} (hw : (n, w, replicas) ∈ s.waiting) :
    ((s.nodes n).targets replicas).Nodup ∧ n ∉ (s.nodes n).targets replicas := by
  refine ⟨Node.nodup_targets _ (h.waiting _ hw), fun hn => ?_⟩
  exact (Node.mem_targets.mp hn).2.1 (h.ids n).symm

theorem counted_step {s s' : Cluster} {l : Label} (h : Counted s) (hdistinct : Distinct s)
    (hexact : CommitExact.ExactCommit s l) (hs : step hash s l = some s') : Counted s' := by
  have hgrows : s.history ⊆ s'.history := history_step hs
  refine ⟨fun n e replicas targets rest hT => ?_, fun n e rest k hT => ?_,
    fun n e r hr hsuccess => ?_⟩
  · rcases task_step hs hT with hold | hnew
    · exact h.preparing n e replicas targets rest hold
    · cases hnew with
      | begunPrepare hw he =>
        obtain ⟨hnodup, hself⟩ := hdistinct.targets_spec hw
        exact ⟨hnodup, hself, fun _ hf => hf⟩
      | prepared ht =>
        obtain ⟨hnodup, hself, hsub⟩ := h.preparing n e replicas targets _ ht
        exact ⟨hnodup, hself, fun _ hf => hsub (List.mem_cons_of_mem _ hf)⟩
  · rcases task_step hs hT with hold | hnew
    · obtain ⟨hnodup, hself, fs, hfs, hcard, hrest⟩ := h.committing n e rest k hold
      exact ⟨hnodup, hself, fs, hfs.mono hgrows, hcard, hrest⟩
    · have hnone : AppliedBy s' n e ∅ := ⟨by simp, by simp⟩
      cases hnew with
      | begunCommit hw he =>
        obtain ⟨hnodup, hself⟩ := hdistinct.targets_spec hw
        exact ⟨hnodup, hself, ∅, hnone, rfl, by simp⟩
      | ready ht =>
        obtain ⟨hnodup, hself, -⟩ := h.preparing n e _ _ _ ht
        exact ⟨hnodup, hself, ∅, hnone, rfl, by simp⟩
      | @unconfirmed e rest f k ht =>
        obtain ⟨hnodup, hself, fs, hfs, hcard, hrest⟩ := h.committing n e _ k ht
        exact ⟨(List.nodup_cons.mp hnodup).2, fun hn => hself (List.mem_cons_of_mem _ hn), fs,
          hfs.mono hgrows, hcard, fun g hg hgr => hrest g hg (List.mem_cons_of_mem _ hgr)⟩
      | @confirmed e rest f k ht hc =>
        obtain ⟨hnodup, hself, fs, hfs, hcard, hrest⟩ := h.committing n e _ k ht
        obtain ⟨hf, hnodup⟩ := List.nodup_cons.mp hnodup
        have happlied : Event.applied f e ∈ s'.history := by
          have happly := (CommitExact.toApply_eq_iff _ _).mpr (hexact f e hc)
          have hnew : AppliedSince s s' e f :=
            (appliedSince_step hs).mpr (by rw [entryApplied_commit hc, happly])
          exact List.mem_of_mem_drop hnew
        have hfnew : f ∉ fs := fun hmem => hrest f hmem List.mem_cons_self
        refine ⟨hnodup, fun hn => hself (List.mem_cons_of_mem _ hn), insert f fs, ⟨?_, ?_⟩, ?_, ?_⟩
        · rw [Finset.mem_insert, not_or]
          exact ⟨fun hn => hself (hn ▸ List.mem_cons_self), hfs.1⟩
        · intro g hg
          rcases Finset.mem_insert.mp hg with rfl | hg
          · exact happlied
          · exact hgrows (hfs.2 g hg)
        · rw [Finset.card_insert_of_notMem hfnew, hcard]
        · intro g hg hgr
          rcases Finset.mem_insert.mp hg with rfl | hg
          · exact hf hgr
          · exact hrest g hg (List.mem_cons_of_mem _ hgr)
  · rw [required_step hs]
    rcases replied_step hs hr hsuccess with hold | ⟨happlied, k, ht, hk⟩
    · obtain ⟨happlied, fs, hfs, hcard⟩ := h.acked n e r hold hsuccess
      exact ⟨hgrows happlied, fs, hfs.mono hgrows, hcard⟩
    · obtain ⟨-, -, fs, hfs, hcard, -⟩ := h.committing n e [] k ht
      exact ⟨happlied, fs, hfs.mono hgrows, hcard ▸ hk⟩

theorem counted_fresh {s : Cluster} (h : Fresh s) : Counted s where
  preparing _ _ _ _ _ hT := absurd hT h.no_task
  committing _ _ _ _ hT := absurd hT h.no_task
  acked _ _ _ hr := absurd hr (h.no_event _)

end Cluster

end MiniDb
