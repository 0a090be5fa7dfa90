/-
  What a step applies.

  No step reads `Event.applied`. What stands behind it: a step records the entry that it applies
  and no other (`appliedSince_step`), and leaves the node as `_apply_log_entry` of that entry
  does (`appliesEntry_step`). So an entry is recorded in a run exactly if some step of the run
  has run the apply callback on it (`ran_iff`).
-/
import MiniDb.Cluster.Stores

namespace MiniDb

open Lib

namespace Cluster

variable {hash : String → Nat}

/-- The entry that a step applies, and where. -/
def entryApplied (s : Cluster) (l : Label) : Option (String × LogEntry) :=
  match s.commitHandled l with
  | some (n, c) => some (n, (s.nodes n).toApply c)
  | none => s.entryAcked l

/-- The node recorded `e` as applied between `s` and `t`. -/
def AppliedSince (s t : Cluster) (e : LogEntry) (n : String) : Prop :=
  Event.applied n e ∈ t.history.drop s.history.length

/-- The node is left as `_apply_log_entry` of `e` leaves it (a commit has taken what was staged
    before). -/
def AppliesEntry (n n' : Node) (e : LogEntry) : Prop :=
  ∃ staged clock, n' = ({ n with staged := staged } : Node).applyLogEntry clock e

/-- Some step of the run applies `e` at `n`, and records it. -/
def Ran (hash : String → Nat) (s : Cluster) (ls : List Label) (n : String) (e : LogEntry) :
    Prop :=
  Occurs (step hash)
    (fun s _ s' => AppliedSince s s' e n ∧ AppliesEntry (s.nodes n) (s'.nodes n) e) s ls

/-! ## What is recorded -/

/-- The entries applied so far, with the nodes that applied them. -/
def appliedIn (h : List Event) : List (String × LogEntry) :=
  h.filterMap fun
    | .applied n e => some (n, e)
    | _ => none

theorem mem_appliedIn {h : List Event} {n : String} {e : LogEntry} :
    (n, e) ∈ appliedIn h ↔ Event.applied n e ∈ h := by
  unfold appliedIn
  rw [List.mem_filterMap]
  constructor
  · rintro ⟨ev, hev, heq⟩
    cases ev with
    | applied m a =>
      simp only [Option.some.injEq, Prod.mk.injEq] at heq
      obtain ⟨rfl, rfl⟩ := heq
      exact hev
    | _ => cases heq
  · exact fun hev => ⟨_, hev, rfl⟩

@[simp] theorem appliedIn_append (h h' : List Event) :
    appliedIn (h ++ h') = appliedIn h ++ appliedIn h' := List.filterMap_append

/-- What handling a message has the receiver apply. -/
theorem appliedIn_eventsOf (dest : String) (n : Node) (m : Message) :
    appliedIn (eventsOf dest n m) =
      match m with
      | .replicate e .commit => [(dest, n.toApply e)]
      | _ => [] := by
  cases m with
  | replicate e phase => cases phase <;> rfl
  | _ => rfl

theorem entryApplied_commit {s : Cluster} {l : Label} {n : String} {c : LogEntry}
    (hc : s.commitHandled l = some (n, c)) :
    s.entryApplied l = some (n, (s.nodes n).toApply c) := by
  simp only [entryApplied, hc]

theorem entryApplied_settle (s : Cluster) (n : String) (clock : Time) :
    s.entryApplied (.settle n clock) = s.entryAcked (.settle n clock) := rfl

/-- A step that ends no write applies what a commit message brings. -/
theorem entryApplied_other (s : Cluster) {l : Label} (hl : ∀ n clock, l ≠ .settle n clock) :
    s.entryApplied l = (s.commitHandled l).map fun p => (p.1, (s.nodes p.1).toApply p.2) := by
  have hnone : s.entryAcked l = none := by
    cases l with
    | settle n clock => exact absurd rfl (hl n clock)
    | _ => rfl
  unfold entryApplied
  rw [hnone]
  cases s.commitHandled l <;> rfl

/-- The end of a write. -/
theorem appliedIn_settle {s s' : Cluster} {n : String} {clock : Time}
    (h : step hash s (.settle n clock) = some s') :
    appliedIn s'.history = appliedIn s.history ++ (s.entryAcked (.settle n clock)).toList := by
  simp only [step] at h
  split at h
  · rename_i e k ht
    rw [Option.some.injEq] at h
    subst h
    rw [entryAcked_settle ht]
    simp only [log, setTask, setNode, appliedIn_append]
    by_cases hk : k + 1 < requiredTotal (s.nodes n).config.replicationFactor
        (s.nodes n).config.defaultConsistency
    · have hfew : (s.nodes n).settleWrite clock e k = (s.nodes n, .error
          ("Commit acknowledgements unavailable for " ++ e.command.text)) := if_pos hk
      rw [hfew, if_neg (not_le.mpr hk)]
      rfl
    · have hdone : (s.nodes n).settleWrite clock e k =
          ((s.nodes n).applyLogEntry clock e, .ok (.str "OK")) := if_neg hk
      rw [hdone, if_pos (not_lt.mp hk)]
      rfl
  · cases h

/-- A step records the entry it applies, and no other. -/
theorem appliedIn_step {s s' : Cluster} {l : Label} (h : step hash s l = some s') :
    appliedIn s'.history = appliedIn s.history ++ (s.entryApplied l).toList := by
  by_cases hsettle : ∃ n clock, l = .settle n clock
  · obtain ⟨n, clock, rfl⟩ := hsettle
    exact appliedIn_settle h
  rw [entryApplied_other s fun n clock hl => hsettle ⟨n, clock, hl⟩]
  cases step_effect h with
  | control hl hb hc =>
    rw [hl]
    rcases hc.history with hh | ⟨m, w, r, hh⟩
    · simp [hh]
    · rw [hh, appliedIn_append]
      rfl
  | begun hi hfree =>
    simp only [begun, history_beginTask, log, setNode, appliedIn_append]
    split <;> simp [appliedIn, commitHandled]
  | unready ht =>
    rw [log, appliedIn_append]
    rfl
  | committed ht =>
    simp only [setTask, history_send, appliedIn_append, commitHandled, ht]
    split
    · rw [appliedIn_eventsOf]
      rfl
    · rfl
  | settled ht => exact absurd ⟨_, _, rfl⟩ hsettle
  | asyncSent hq =>
    simp only [history_send, appliedIn_append, commitHandled]
    split
    · rw [appliedIn_eventsOf]
      rfl
    · rfl
  | gotten ht =>
    rw [log, appliedIn_append]
    rfl
  | @delivered i clock dest m hm hdata =>
    simp only [receive, log, appliedIn_append, appliedIn_eventsOf, commitHandled, hm]
    cases m with
    | replicate e phase => cases phase <;> rfl
    | _ => rfl
  | _ => simp [commitHandled, setTask, setNode]

/-- **What a step records as applied.** -/
theorem appliedSince_step {s s' : Cluster} {l : Label} (h : step hash s l = some s') {n : String}
    {e : LogEntry} : AppliedSince s s' e n ↔ s.entryApplied l = some (n, e) := by
  obtain ⟨es, hes⟩ := history_append h
  have hnew := appliedIn_step h
  rw [hes, appliedIn_append, List.append_cancel_left_eq] at hnew
  unfold AppliedSince
  rw [hes, List.drop_left, ← mem_appliedIn, hnew, Option.mem_toList]

/-- **What a step applies**: the node is left as the apply callback leaves it. -/
theorem appliesEntry_step {s s' : Cluster} {l : Label} (h : step hash s l = some s') {n : String}
    {e : LogEntry} (he : s.entryApplied l = some (n, e)) :
    AppliesEntry (s.nodes n) (s'.nodes n) e := by
  by_cases hsettle : ∃ m clock, l = .settle m clock
  · obtain ⟨m, clock, rfl⟩ := hsettle
    rw [entryApplied_settle] at he
    obtain ⟨clock', k, hl, ht⟩ := entryAcked_eq he
    obtain ⟨rfl, rfl⟩ := Label.settle.inj hl
    rw [entryAcked_settle ht] at he
    split at he
    · rename_i hk
      simp only [step, ht, Option.some.injEq] at h
      subst h
      refine ⟨(s.nodes m).staged, clock, ?_⟩
      simp [log, setTask, setNode, Node.settleWrite, not_lt.mpr hk]
    · cases he
  rw [entryApplied_other s fun m clock hl => hsettle ⟨m, clock, hl⟩, Option.map_eq_some_iff] at he
  obtain ⟨⟨m, c⟩, hc, heq⟩ := he
  obtain ⟨rfl, rfl⟩ := Prod.mk.inj heq
  -- a commit message, handled when it is sent or later
  rcases commitHandled_cases hc with ⟨f, d, clock, rest, k, rfl, ht, hd⟩ | ⟨i, clock, rfl, hm⟩
  · simp only [step, ht, Option.some.injEq] at h
    subst h
    refine ⟨(s.nodes m).staged.erase c.index, clock, ?_⟩
    simp only [setTask, nodes_send, hd, if_true, Function.update_self]
    rfl
  · simp only [step, hm, Option.some.injEq] at h
    subst h
    refine ⟨(s.nodes m).staged.erase c.index, clock, ?_⟩
    simp only [receive, log, setNode, Function.update_self]
    rfl

/-! ## Runs -/

theorem not_appliedSince_self (s : Cluster) (e : LogEntry) (n : String) :
    ¬ AppliedSince s s e n := by
  unfold AppliedSince
  rw [List.drop_length]
  exact List.not_mem_nil

/-- What is recorded between two states is recorded before or after one between them. -/
theorem appliedSince_split {s u t : Cluster} {es es' : List Event}
    (hes : u.history = s.history ++ es) (hes' : t.history = u.history ++ es') (e : LogEntry)
    (n : String) : AppliedSince s t e n ↔ AppliedSince s u e n ∨ AppliedSince u t e n := by
  unfold AppliedSince
  rw [hes', List.drop_left, hes, List.append_assoc, List.drop_left, List.drop_left,
    List.mem_append]

theorem history_exec {s t : Cluster} {ls : List Label} (he : exec (step hash) s ls = some t) :
    ∃ es, t.history = s.history ++ es := by
  refine exec_inv (I := fun u => ∃ es, u.history = s.history ++ es) (fun u l u' h hs => ?_)
    ⟨[], (List.append_nil _).symm⟩ he
  obtain ⟨es, hes⟩ := h
  obtain ⟨es', hes'⟩ := history_append hs
  exact ⟨es ++ es', by rw [hes', hes, List.append_assoc]⟩

/-- **What a run has applied**: exactly the entries it has recorded. -/
theorem ran_iff {s t : Cluster} {ls : List Label} (he : exec (step hash) s ls = some t)
    (n : String) (e : LogEntry) : Ran hash s ls n e ↔ AppliedSince s t e n := by
  induction ls generalizing s with
  | nil =>
    rw [exec_nil, Option.some.injEq] at he
    subst he
    exact iff_of_false id (not_appliedSince_self s e n)
  | cons l ls ih =>
    obtain ⟨s₁, h₁, h₂⟩ := exec_cons.mp he
    obtain ⟨es, hes⟩ := history_append h₁
    obtain ⟨es', hes'⟩ := history_exec h₂
    rw [appliedSince_split hes hes', ← ih h₂]
    constructor
    · rintro ⟨s', hs', hnow | hlater⟩
      · obtain rfl : s₁ = s' := Option.some.inj (h₁.symm.trans hs')
        exact .inl hnow.1
      · obtain rfl : s₁ = s' := Option.some.inj (h₁.symm.trans hs')
        exact .inr hlater
    · rintro (hnow | hlater)
      · exact ⟨s₁, h₁, .inl ⟨hnow, appliesEntry_step h₁ ((appliedSince_step h₁).mp hnow)⟩⟩
      · exact ⟨s₁, h₁, .inr hlater⟩

/-- From processes that have just started. -/
theorem ran_of_applied {s t : Cluster} {ls : List Label} (h : Fresh s)
    (he : exec (step hash) s ls = some t) {n : String} {e : LogEntry}
    (happlied : Event.applied n e ∈ t.history) : Ran hash s ls n e := by
  rw [ran_iff he]
  unfold AppliedSince
  rwa [h.history]

end Cluster

end MiniDb
