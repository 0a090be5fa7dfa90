/-
  What nodes apply when they handle commit messages, over runs with any number of leaders,
  restarts, and lost, late or repeated messages.

  A commit applies the entry staged under its index, and the index is counted by each process
  from 1 (`_next_write_index`). So another write's entry can be staged there: `exact_iff` says
  that a run applies what its commits carry exactly when no commit meets such an entry.
-/
import MiniDb.Cluster.Applied

namespace MiniDb

open Lib

namespace CommitExact

open Cluster

variable {hash : String → Nat}

/-- A commit message finds nothing else staged under its index. -/
def ExactCommit (s : Cluster) (l : Label) : Prop :=
  ∀ n c, s.commitHandled l = some (n, c) →
    ∀ a, (s.nodes n).staged.get? c.index = some a → a = c

theorem toApply_eq_iff (n : Node) (c : LogEntry) :
    n.toApply c = c ↔ ∀ a, n.staged.get? c.index = some a → a = c := by
  unfold Node.toApply
  cases n.staged.get? c.index <;> simp

theorem handled_of_commitHandled {s s' : Cluster} {l : Label} (h : step hash s l = some s')
    {n : String} {c : LogEntry} (hc : s.commitHandled l = some (n, c)) :
    Event.handled n c ((s.nodes n).toApply c) ∈ s'.history := by
  rcases commitHandled_cases hc with ⟨m, d, clock, rest, k, rfl, ht, hd⟩ | ⟨i, clock, rfl, hm⟩
  · simp only [step, ht, Option.some.injEq] at h
    subst h
    simp [setTask, history_send, hd, eventsOf]
  · simp only [step, hm, Option.some.injEq] at h
    subst h
    simp [receive, log, eventsOf]

/-- A step records the commit message it has handled, and no other. -/
theorem handled_step {s s' : Cluster} {l : Label} (h : step hash s l = some s') (n : String)
    (c a : LogEntry) :
    Event.handled n c a ∈ s'.history ↔
      Event.handled n c a ∈ s.history ∨
        (s.commitHandled l = some (n, c) ∧ a = (s.nodes n).toApply c) := by
  constructor
  · intro hmem
    rcases recorded_step h hmem with hold | hnew
    · exact .inl hold
    · cases hnew with
      | handled hc => exact .inr ⟨hc, rfl⟩
  · rintro (hold | ⟨hc, rfl⟩)
    · exact history_step h hold
    · exact handled_of_commitHandled h hc

/-- What is applied at a step is applied for a commit message or by a write that ends. -/
theorem applied_step {s s' : Cluster} {l : Label} (h : step hash s l = some s') {n : String}
    {e : LogEntry} (happlied : Event.applied n e ∈ s'.history) :
    Event.applied n e ∈ s.history ∨ (∃ c, Event.handled n c e ∈ s'.history) ∨
      ∃ r : Response, Event.replied n e r ∈ s'.history ∧ r.success := by
  rcases recorded_step h happlied with hold | hnew
  · exact .inl hold
  · cases hnew with
    | @applied n c hc hhandled => exact .inr (.inl ⟨c, hhandled⟩)
    | settled ht hreplied => exact .inr (.inr ⟨_, hreplied, rfl⟩)

/-- Where what was applied came from. -/
structure Traced (s : Cluster) : Prop where
  sent : ∀ n c a, Event.handled n c a ∈ s.history → (n, .replicate c .commit) ∈ s.sent
  applied : ∀ n e, Event.applied n e ∈ s.history →
    (∃ c, Event.handled n c e ∈ s.history) ∨
      ∃ r : Response, Event.replied n e r ∈ s.history ∧ r.success
  handled : ∀ n c a, Event.handled n c a ∈ s.history → Event.applied n a ∈ s.history

/-- A commit message that is handled has been sent. -/
theorem sent_of_commitHandled {s s' : Cluster} {l : Label} (h : step hash s l = some s')
    {n : String} {c : LogEntry} (hc : s.commitHandled l = some (n, c)) :
    (n, .replicate c .commit) ∈ s'.sent := by
  rcases commitHandled_cases hc with ⟨m, d, clock, rest, k, rfl, ht, hd⟩ | ⟨i, clock, rfl, hm⟩
  · simp only [step, ht, Option.some.injEq] at h
    subst h
    exact mem_sent_of_handled _ _ _ _ _ hd
  · exact sent_step h (List.mem_of_getElem? hm)

theorem traced_step {s s' : Cluster} {l : Label} (h : Traced s) (hs : step hash s l = some s') :
    Traced s' := by
  have hgrows : s.history ⊆ s'.history := history_step hs
  refine ⟨fun n c a hmem => ?_, fun n e hmem => ?_, fun n c a hmem => ?_⟩
  · rcases (handled_step hs n c a).mp hmem with hold | ⟨hnew, _⟩
    · exact sent_step hs (h.sent n c a hold)
    · exact sent_of_commitHandled hs hnew
  · rcases applied_step hs hmem with hold | hnew
    · rcases h.applied n e hold with ⟨c, hc⟩ | ⟨r, hr, hsuccess⟩
      · exact .inl ⟨c, hgrows hc⟩
      · exact .inr ⟨r, hgrows hr, hsuccess⟩
    · exact hnew
  · rcases (handled_step hs n c a).mp hmem with hold | ⟨hnew, rfl⟩
    · exact hgrows (h.handled n c a hold)
    · have hadded : AppliedSince s s' ((s.nodes n).toApply c) n :=
        (appliedSince_step hs).mpr (entryApplied_commit hnew)
      exact List.mem_of_mem_drop hadded

/-- What a run handles is applied as carried, if what was handled before is and no commit of the
    run meets another entry. -/
theorem handled_exec {s t : Cluster} {ls : List Label} (he : exec (step hash) s ls = some t) :
    (∀ n c a, Event.handled n c a ∈ t.history → a = c) ↔
      (∀ n c a, Event.handled n c a ∈ s.history → a = c) ∧
        Along (step hash) ExactCommit s ls := by
  induction ls generalizing s with
  | nil =>
    rw [exec_nil, Option.some.injEq] at he
    subst he
    simp [Along]
  | cons l ls ih =>
    obtain ⟨s₁, h₁, h₂⟩ := exec_cons.mp he
    rw [ih h₂]
    simp only [Along, h₁, Option.some.injEq, forall_eq', handled_step h₁]
    constructor
    · rintro ⟨hall, hrest⟩
      refine ⟨fun n c a hmem => hall n c a (.inl hmem), fun n c hc => ?_, hrest⟩
      exact (toApply_eq_iff _ _).mp (hall n c _ (.inr ⟨hc, rfl⟩))
    · rintro ⟨hold, hexact, hrest⟩
      refine ⟨fun n c a hmem => ?_, hrest⟩
      rcases hmem with hmem | ⟨hc, rfl⟩
      · exact hold n c a hmem
      · exact (toApply_eq_iff _ _).mpr (hexact n c hc)

/-- **Exactly when commits apply what they carry**: in every run of the cluster, with any
    number of leaders and restarts and any loss, delay and repetition of messages, every entry
    applied for a commit message is the one it carries if and only if no commit message meets
    another entry staged under its index. In such a run whatever a node applies was sent to it
    in a commit, or is an own write that it has answered with success. And what is recorded as
    applied, for a commit or for an own write, the apply callback has run on. -/
theorem exact_iff {s t : Cluster} {ls : List Label} (h₀ : Fresh s)
    (he : exec (step hash) s ls = some t) :
    ((∀ n c a, Event.handled n c a ∈ t.history → a = c) ↔ Along (step hash) ExactCommit s ls) ∧
      (Along (step hash) ExactCommit s ls → ∀ n e, Event.applied n e ∈ t.history →
        (n, .replicate e .commit) ∈ t.sent ∨
          ∃ r : Response, Event.replied n e r ∈ t.history ∧ r.success) ∧
      (∀ n c a, Event.handled n c a ∈ t.history → Ran hash s ls n a) ∧
        ∀ n e, Event.applied n e ∈ t.history → Ran hash s ls n e := by
  have hexact := (handled_exec he).trans
    (and_iff_right fun n c a hmem => absurd hmem (h₀.no_event _))
  have htraced : Traced t := exec_inv (fun s l s' h hs => traced_step h hs)
    ⟨fun n c a hmem => absurd hmem (h₀.no_event _), fun n e hmem => absurd hmem (h₀.no_event _),
      fun n c a hmem => absurd hmem (h₀.no_event _)⟩ he
  refine ⟨hexact, fun hrun n e happlied => ?_,
    fun n c a hmem => ran_of_applied h₀ he (htraced.handled n c a hmem),
    fun n e hmem => ran_of_applied h₀ he hmem⟩
  rcases htraced.applied n e happlied with ⟨c, hc⟩ | hr
  · obtain rfl := hexact.mpr hrun n c e hc
    exact .inl (htraced.sent n e e hc)
  · exact .inr hr

/-! ### A commit that applies another leader's entry -/

/-- `a` prepares its first write at `b` and `c` and then reaches nobody; `b` is elected, and its
    first write reaches `c` only with the commit. -/
def twoLeaders : List Label :=
  electionOf "a" "b" "c" ++
    [.call "a" { operation := .set, key := "k", value := .int 1 }, .begin 0 1 1,
      .prepare "a" .answered 1, .prepare "a" .answered 1, .endPrepare "a",
      .commit "a" .unsent 1, .commit "a" .unsent 1, .settle "a" 1] ++
    electionOf "b" "a" "c" ++
    [.call "b" { operation := .set, key := "k", value := .int 2 }, .begin 0 2 2,
      .prepare "b" .answered 2, .prepare "b" .unsent 2, .endPrepare "b",
      .commit "b" .answered 2, .commit "b" .answered 2, .settle "b" 2]

/-- The entry of the first write of `n`. -/
def firstEntry (n : String) (term : Nat) (i : Int) : LogEntry :=
  { term := term, index := 1, command := .set, key := "k", value := .int i, timestamp := i
    createdAt := some i, coordinatorId := n }

/-- A commit message for an entry of `n`. -/
def commitsOf (n : String) : Message → Bool
  | .replicate e .commit => e.coordinatorId = n
  | _ => false

/-- `c` applies the entry of `a`, which was only ever prepared, when `b` commits its own. -/
theorem commit_applies_other :
    ∃ t, exec (step fun _ => 0) sample twoLeaders = some t ∧
      Event.handled "c" (firstEntry "b" 2 2) (firstEntry "a" 1 1) ∈ t.history ∧
      firstEntry "a" 1 1 ≠ firstEntry "b" 2 2 ∧ ∀ p ∈ t.sent, commitsOf "a" p.2 = false := by
  have hrun : (exec (step fun _ => 0) sample twoLeaders).map
      (fun t => (t.history[5]?, t.sent.map fun p => commitsOf "a" p.2)) =
      some (some (.handled "c" (firstEntry "b" 2 2) (firstEntry "a" 1 1)),
        List.replicate 11 false) := rfl
  obtain ⟨t, ht, hobs⟩ := Option.map_eq_some_iff.mp hrun
  rw [Prod.mk.injEq] at hobs
  refine ⟨t, ht, List.mem_of_getElem? hobs.1, fun h => ?_, fun p hp => ?_⟩
  · exact absurd (congrArg LogEntry.coordinatorId h) (by decide)
  · have hmem := List.mem_map_of_mem (f := fun p => commitsOf "a" p.2) hp
    rw [hobs.2] at hmem
    exact (List.mem_replicate.mp hmem).2

theorem exact_iff_sample :
    ∃ t, exec (step fun _ => 0) sample twoLeaders = some t ∧
      ((∀ n c a, Event.handled n c a ∈ t.history → a = c) ↔
          Along (step fun _ => 0) ExactCommit sample twoLeaders) ∧
        (Along (step fun _ => 0) ExactCommit sample twoLeaders → ∀ n e,
          Event.applied n e ∈ t.history →
            (n, .replicate e .commit) ∈ t.sent ∨
              ∃ r : Response, Event.replied n e r ∈ t.history ∧ r.success) ∧
        (∀ n c a, Event.handled n c a ∈ t.history → Ran (fun _ => 0) sample twoLeaders n a) ∧
          ∀ n e, Event.applied n e ∈ t.history → Ran (fun _ => 0) sample twoLeaders n e := by
  have hrun : (exec (step fun _ => 0) sample twoLeaders).isSome := rfl
  obtain ⟨t, ht⟩ := Option.isSome_iff_exists.mp hrun
  exact ⟨t, ht, exact_iff fresh_sample ht⟩

end CommitExact

end MiniDb
