/-
  Runs with one write leader whose process is not restarted.

  Such a leader gives every write an index of its own, so that what is staged under an index is
  the entry a commit carries (`Sole.toApply`), and the followers counted for a write are
  distinct nodes that ran the apply callback on its entry. `acknowledged_applied` concludes for
  whole runs.
-/
import MiniDb.Cluster.Counted

namespace MiniDb

open Lib ReadCoordinator

namespace SingleLeader

open Cluster

variable {hash : String → Nat} {L : String}

/-- No node but `L` leads when it is asked to write, and `L` is not restarted. -/
def SoleLeader (L : String) (s : Cluster) : Label → Prop
  | .call n _ => (s.nodes n).isLeader → n = L
  | .restart n _ _ _ _ => n ≠ L
  | _ => True

instance (s : Cluster) (l : Label) : Decidable (SoleLeader L s l) := by
  cases l <;> unfold SoleLeader <;> infer_instance

/-! ## One index, one entry -/

structure Sole (L : String) (s : Cluster) : Prop where
  known : Known s
  ids : ∀ n, (s.nodes n).nodeId = n
  waiting : ∀ p ∈ s.waiting, p.1 = L ∧ p.2.2.Nodup
  issuer : ∀ n e, Event.issued n e ∈ s.history → n = L
  index_le : ∀ e, Event.issued L e ∈ s.history → e.index ≤ (s.nodes L).writeSequence
  unique : ∀ e e', Event.issued L e ∈ s.history → Event.issued L e' ∈ s.history →
    e.index = e'.index → e = e'

theorem Sole.issued {s : Cluster} (h : Sole L s) {e : LogEntry} (he : WasIssued s e) :
    Event.issued L e ∈ s.history := by
  obtain ⟨n, hn⟩ := he
  exact h.issuer n e hn ▸ hn

/-- A commit applies the entry it carries. -/
theorem Sole.toApply {s : Cluster} (h : Sole L s) (n : String) {e : LogEntry}
    (he : WasIssued s e) : (s.nodes n).toApply e = e := by
  unfold Node.toApply
  cases ha : (s.nodes n).staged.get? e.index with
  | none => rfl
  | some a =>
    obtain ⟨hindex, hissued⟩ := h.known.staged n _ a ha
    exact h.unique a e (h.issued hissued) (h.issued he) hindex

theorem Sole.exact {s : Cluster} (h : Sole L s) (l : Label) : CommitExact.ExactCommit s l :=
  fun n _ hc => (CommitExact.toApply_eq_iff _ _).mp (h.toApply n (h.known.commitHandled hc))

theorem Sole.distinct {s : Cluster} (h : Sole L s) : Distinct s :=
  ⟨h.ids, fun p hp => (h.waiting p hp).2⟩

theorem entryBegun_waiting {s : Cluster} {l : Label} {n : String} {e : LogEntry}
    (h : s.entryBegun l = some (n, e)) : ∃ p ∈ s.waiting, p.1 = n := by
  cases l with
  | begin i clock now =>
    obtain ⟨w, replicas, hi, -, -⟩ := entryBegun_eq h
    exact ⟨_, List.mem_of_getElem? hi, rfl⟩
  | _ => cases h

theorem sole_step {s s' : Cluster} {l : Label} (h : Sole L s) (hl : SoleLeader L s l)
    (hs : step hash s l = some s') : Sole L s' := by
  have hbegun : ∀ {n e}, s.entryBegun l = some (n, e) → n = L := by
    intro n e he
    obtain ⟨p, hp, rfl⟩ := entryBegun_waiting he
    exact (h.waiting p hp).1
  -- the counter of `L` and the index of an entry that is built now
  have hcount : (s.nodes L).writeSequence ≤ (s'.nodes L).writeSequence ∧
      ∀ e, s.entryBegun l = some (L, e) →
        e.index = (s.nodes L).writeSequence + 1 ∧ (s'.nodes L).writeSequence = e.index := by
    refine ⟨?_, fun e he => counter_begun hs he⟩
    rcases counter_step hs L with hc | ⟨-, ⟨e, he⟩ | ⟨store, aof, membership, ring, rfl⟩⟩
    · exact le_of_eq hc.writeSequence.symm
    · have := counter_begun hs he
      omega
    · exact absurd rfl hl
  refine ⟨known_step h.known hs, fun n => ?_, fun p hp => ?_, fun n e he => ?_, fun e he => ?_,
    fun e e' he he' hi => ?_⟩
  · rw [nodeId_step hs]
    exact h.ids n
  · rcases waiting_step hs hp with hp | ⟨rfl, hp⟩
    · exact h.waiting p hp
    · exact ⟨hl (Node.admitWrite_eq hp).1, Node.nodup_admitted hp⟩
  · rcases (issued_step hs n e).mp he with he | he
    · exact h.issuer n e he
    · exact hbegun he
  · rcases (issued_step hs L e).mp he with he | he
    · exact le_trans (h.index_le e he) hcount.1
    · exact le_of_eq (hcount.2 e he).2.symm
  · rcases (issued_step hs L e).mp he with he | he <;>
      rcases (issued_step hs L e').mp he' with he' | he'
    · exact h.unique e e' he he' hi
    · have := h.index_le e he
      have := (hcount.2 e' he').1
      omega
    · have := h.index_le e' he'
      have := (hcount.2 e he).1
      omega
    · rw [he, Option.some.injEq, Prod.mk.injEq] at he'
      exact he'.2

theorem sole_fresh {s : Cluster} (h : Fresh s) : Sole L s := by
  refine ⟨h.known, h.ids, fun p hp => ?_, fun n e he => absurd he (h.no_event _),
    fun e he => absurd he (h.no_event _), fun e e' he => absurd he (h.no_event _)⟩
  rw [h.waiting] at hp
  cases hp

/-- So the followers counted have applied the entry. -/
theorem Sole.counted_step {s s' : Cluster} {l : Label} (h : Sole L s) (hcounted : Counted s)
    (hs : step hash s l = some s') : Counted s' :=
  Cluster.counted_step hcounted h.distinct (h.exact l) hs

/-! ## The leader's own data -/

/-- The node whose write a step advances. -/
def coordinator? (s : Cluster) : Label → Option String
  | .begin i _ _ => s.waiting[i]?.map Prod.fst
  | .prepare n _ _ => some n
  | .endPrepare n => some n
  | .commit n _ _ => some n
  | .settle n _ => some n
  | _ => none

/-- The store of `n` is as before, or a write of a key has found its record expired. -/
def SameStore (s : Cluster) (l : Label) (s' : Cluster) (n : String) : Prop :=
  (s'.nodes n).store = (s.nodes n).store ∨
    ∃ i clock now w replicas, l = .begin i clock now ∧ s.waiting[i]? = some (n, w, replicas) ∧
      (s'.nodes n).store = ((s.nodes n).store.getWithMetadata clock w.key).1

/-- A step of a write leaves the log and the store of its coordinator alone, unless it ends the
    write with a success. -/
def KeepsOwnData (hash : String → Nat) (s : Cluster) (l : Label) : Prop :=
  ∀ n s', coordinator? s l = some n → step hash s l = some s' →
    (∃ e r, s'.history.getLast? = some (.replied n e r) ∧ r.success) ∨
      ((s'.nodes n).aof = (s.nodes n).aof ∧ SameStore s l s' n)

theorem keepsOwnData {s : Cluster} (h : Counted s) (l : Label) : KeepsOwnData hash s l := by
  intro n s' hown hs
  cases step_effect hs with
  | control hl hb hc => exact .inr ⟨(hc.nodes n).aof, .inl (hc.nodes n).store⟩
  | @begun i clock now m w replicas hi hfree =>
    obtain rfl : m = n := by simpa [coordinator?, hi] using hown
    have hspec := Node.beginWrite_spec clock now (s.nodes m) w replicas
    refine .inr ⟨?_, .inr ⟨i, clock, now, w, replicas, rfl, hi, ?_⟩⟩
    · rw [nodes_begun, Function.update_self, hspec.aof]
    · rw [nodes_begun, Function.update_self, hspec.store]
  | @prepared m f d clock e replicas targets rest ht =>
    obtain rfl := Option.some.inj hown
    obtain ⟨-, hself, hrest⟩ := h.preparing _ _ _ _ _ ht
    have hne : m ≠ f := fun hm => hself (hm ▸ hrest List.mem_cons_self)
    have hnode := nodes_send_ne clock s (.replicate e .prepare) (deliveryTo (s.nodes m) f d) hne
    refine .inr ⟨?_, .inl ?_⟩
    all_goals
      simp only [setTask, Cluster.prepared]
      split
      · simp only [setNode, Function.update_self, Node.acknowledge, hnode]
      · rw [hnode]
  | ready ht =>
    obtain rfl := Option.some.inj hown
    refine .inr ⟨?_, .inl ?_⟩ <;> simp [setTask, setNode, Node.endReplicate]
  | unready ht =>
    obtain rfl := Option.some.inj hown
    refine .inr ⟨?_, .inl ?_⟩ <;> simp [setTask, setNode, log, Node.endReplicate]
  | @committed m f d clock e rest k ht =>
    obtain rfl := Option.some.inj hown
    obtain ⟨-, hself, -⟩ := h.committing _ _ _ _ ht
    have hne : m ≠ f := fun hm => hself (hm ▸ List.mem_cons_self)
    have hnode := nodes_send_ne clock s (.replicate e .commit) (deliveryTo (s.nodes m) f d) hne
    refine .inr ⟨?_, .inl ?_⟩ <;> simp only [setTask, hnode]
  | @settled m clock e k ht =>
    obtain rfl := Option.some.inj hown
    rcases Node.settleWrite_cases clock (s.nodes m) e k with ⟨text, hr⟩ | ⟨-, hr⟩
    · refine .inr ⟨?_, .inl ?_⟩ <;> simp [log, setTask, setNode, hr]
    · exact .inl ⟨e, ((s.nodes m).settleWrite clock e k).2, by simp [log], by rw [hr]; rfl⟩
  | _ => cases hown

/-- **Acknowledged writes are applied, failed ones leave the leader alone**: in every run in
    which only `L` leads and is not restarted, whatever messages and answers are lost or late,
    for every write answered with success the apply callback has run on exactly its entry at its
    leader and at `required_total - 1` or more distinct other nodes; and every step of a write
    that does not answer a success leaves the log of its leader as it was, and the store too, up
    to an expired record of the key. -/
theorem acknowledged_applied {s t : Cluster} {ls : List Label} (h : Fresh s)
    (hl : Along (step hash) (SoleLeader L) s ls) (he : exec (step hash) s ls = some t) :
    (∀ n e r, Event.replied n e r ∈ t.history → r.success →
      Ran hash s ls n e ∧ ∃ fs : Finset String, n ∉ fs ∧ (∀ f ∈ fs, Ran hash s ls f e) ∧
        required (t.nodes n) ≤ fs.card + 1) ∧
      Along (step hash) (KeepsOwnData hash) s ls := by
  have hstep : ∀ s l s', Sole L s ∧ Counted s → SoleLeader L s l → step hash s l = some s' →
      Sole L s' ∧ Counted s' :=
    fun s l s' hinv hl hs => ⟨sole_step hinv.1 hl hs, hinv.1.counted_step hinv.2 hs⟩
  have hstart : Sole L s ∧ Counted s := ⟨sole_fresh h, counted_fresh h⟩
  refine ⟨fun n e r hr hsuccess => ?_, ?_⟩
  · obtain ⟨happlied, fs, ⟨hn, hfs⟩, hcard⟩ :=
      (exec_inv_along hstep hstart hl he).2.acked n e r hr hsuccess
    exact ⟨ran_of_applied h he happlied, fs, hn, fun f hf => ran_of_applied h he (hfs f hf), hcard⟩
  · exact along_inv hstep (fun s l hinv _ => keepsOwnData hinv.2 l) hstart hl

/-- `a` is elected; its first write is answered with success, its second one fails. -/
def twoWrites : List Label :=
  electionOf "a" "b" "c" ++ setOf "a" 1 [.answered, .unsent] ++ setOf "a" 2 [.handled, .unsent]

theorem acknowledged_applied_sample :
    ∃ t, exec (step fun _ => 0) sample twoWrites = some t ∧
      (∀ n e r, Event.replied n e r ∈ t.history → r.success →
        Ran (fun _ => 0) sample twoWrites n e ∧ ∃ fs : Finset String, n ∉ fs ∧
          (∀ f ∈ fs, Ran (fun _ => 0) sample twoWrites f e) ∧
            required (t.nodes n) ≤ fs.card + 1) ∧
      Along (step fun _ => 0) (KeepsOwnData fun _ => 0) sample twoWrites := by
  have hrun : (exec (step fun _ => 0) sample twoWrites).isSome := rfl
  obtain ⟨t, ht⟩ := Option.isSome_iff_exists.mp hrun
  have hsole : Along (step fun _ => 0) (SoleLeader "a") sample twoWrites := by decide
  exact ⟨t, ht, acknowledged_applied fresh_sample hsole ht⟩

end SingleLeader

end MiniDb
