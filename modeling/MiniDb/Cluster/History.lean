/-
  What a step adds to the history and to the sent messages, said once for all events
  (`recorded_step`) and exactly for the entries that are built (`issuedIn_step`).
-/
import MiniDb.Cluster.Effects

namespace MiniDb

open Lib ReadCoordinator

namespace Cluster

/-! ## The history -/

theorem got_notMem_eventsOf {dest n : String} {v : Node} {m : Message} {p : ReadPlan} {since : Nat}
    {results : List ReadResult} {outcome : ReadOutcome} :
    Event.got n p since results outcome ∉ eventsOf dest v m := by
  unfold eventsOf
  split <;> simp

/-- What a message adds at its receiver is not the end of a GET. -/
theorem got_notMem_handled {dest n : String} {v : Node} {m : Message} {p : ReadPlan}
    {since : Nat} {results : List ReadResult} {outcome : ReadOutcome} {handled : Bool} :
    Event.got n p since results outcome ∉ if handled then eventsOf dest v m else [] := by
  cases handled with
  | false => exact List.not_mem_nil
  | true => exact got_notMem_eventsOf

/-- A step adds to the history, and a GET to which it adds the end has its outcome. -/
theorem history_new {hash : String → Nat} {s s' : Cluster} {l : Label}
    (h : step hash s l = some s') : ∃ es, s'.history = s.history ++ es ∧
      ∀ n p since results outcome, Event.got n p since results outcome ∈ es →
        es = [.got n p since results outcome] ∧
          s.tasks n = some (.repair p since results outcome []) := by
  cases step_effect h with
  | control hl hb hc =>
    rcases hc.history with hh | ⟨n, w, r, hh⟩
    · exact ⟨[], by rw [hh, List.append_nil], by simp⟩
    · exact ⟨_, hh, by simp⟩
  | begun hi hfree =>
    simp only [begun, history_beginTask, log, List.append_assoc]
    refine ⟨_, rfl, fun n p since results outcome hev => ?_⟩
    split at hev <;> simp at hev
  | prepared ht => exact ⟨[], by simp [setTask], by simp⟩
  | unready ht => exact ⟨_, rfl, by simp⟩
  | committed ht =>
    exact ⟨_, history_send _ _ _ _ _, fun n p since results outcome hev =>
      absurd hev got_notMem_handled⟩
  | settled ht =>
    refine ⟨_, rfl, fun n p since results outcome hev => ?_⟩
    split at hev <;> simp at hev
  | asyncSent hq =>
    exact ⟨_, history_send _ _ _ _ _, fun n p since results outcome hev =>
      absurd hev got_notMem_handled⟩
  | answered ht hnew => exact ⟨[], by simp [setTask], by simp⟩
  | repaired ht => exact ⟨[], by simp [setTask], by simp⟩
  | gotten ht =>
    refine ⟨_, rfl, fun n p since results outcome hev => ?_⟩
    obtain ⟨rfl, rfl, rfl, rfl, rfl⟩ := Event.got.inj (List.mem_singleton.mp hev)
    exact ⟨rfl, ht⟩
  | delivered hm hdata => exact ⟨_, rfl, fun n p since results outcome hev =>
      absurd hev got_notMem_eventsOf⟩
  | _ => exact ⟨[], (List.append_nil _).symm, by simp⟩

/-- What happened stays on record. -/
theorem history_append {hash : String → Nat} {s s' : Cluster} {l : Label}
    (h : step hash s l = some s') : ∃ es, s'.history = s.history ++ es := by
  obtain ⟨es, hes, -⟩ := history_new h
  exact ⟨es, hes⟩

/-- The beginning of the history stays. -/
theorem take_step {hash : String → Nat} {s s' : Cluster} {l : Label}
    (h : step hash s l = some s') {since : Nat}
    (hsince : since ≤ s.history.length) :
    since ≤ s'.history.length ∧ s'.history.take since = s.history.take since := by
  obtain ⟨es, hes⟩ := history_append h
  rw [hes, List.take_append_of_le_length hsince, List.length_append]
  exact ⟨by omega, rfl⟩

/-- Where the end of a GET is on record. -/
theorem got_step {hash : String → Nat} {s s' : Cluster} {l : Label} (h : step hash s l = some s')
    {i : Nat} {n : String} {p : ReadPlan} {since : Nat} {results : List ReadResult}
    {outcome : ReadOutcome} (hi : s'.history[i]? = some (.got n p since results outcome)) :
    s.history[i]? = some (.got n p since results outcome) ∨
      (i = s.history.length ∧ s.tasks n = some (.repair p since results outcome [])) := by
  obtain ⟨es, hes, hgot⟩ := history_new h
  rw [hes] at hi
  by_cases hlt : i < s.history.length
  · rw [List.getElem?_append_left hlt] at hi
    exact .inl hi
  · rw [List.getElem?_append_right (not_lt.mp hlt)] at hi
    obtain ⟨rfl, ht⟩ := hgot n p since results outcome (List.mem_of_getElem? hi)
    have hzero := (List.getElem?_eq_some_iff.mp hi).1
    rw [List.length_singleton] at hzero
    exact .inr ⟨by omega, ht⟩

theorem history_step {hash : String → Nat} {s s' : Cluster} {l : Label}
    (h : step hash s l = some s') : s.history ⊆ s'.history := by
  obtain ⟨es, hes⟩ := history_append h
  exact hes ▸ List.subset_append_left _ _

theorem entryBegun_eq {s : Cluster} {i : Nat} {clock now : Time} {n : String} {e : LogEntry}
    (h : s.entryBegun (.begin i clock now) = some (n, e)) :
    ∃ w replicas, s.waiting[i]? = some (n, w, replicas) ∧ s.tasks n = none ∧
      e = ((s.nodes n).newEntry clock now w).2 := by
  simp only [entryBegun] at h
  split at h
  · rename_i m w replicas hi
    split at h
    · cases h
    · rename_i hfree
      simp only [Option.some.injEq, Prod.mk.injEq] at h
      obtain ⟨rfl, rfl⟩ := h
      exact ⟨w, replicas, hi, by simpa using hfree, rfl⟩
  · cases h

/-- A commit message that is handled is sent now, or was sent before. -/
theorem commitHandled_cases {s : Cluster} {l : Label} {n : String} {c : LogEntry}
    (h : s.commitHandled l = some (n, c)) :
    (∃ m d clock rest k, l = .commit m d clock ∧ s.tasks m = some (.commit c (n :: rest) k) ∧
        (deliveryTo (s.nodes m) n d).isHandled) ∨
      ∃ i clock, l = .deliver i clock ∧ s.sent[i]? = some (n, .replicate c .commit) := by
  unfold commitHandled at h
  split at h
  · rename_i m d clock
    split at h
    · rename_i e f rest k ht
      split at h
      · rename_i hd
        rw [Option.some.injEq, Prod.mk.injEq] at h
        obtain ⟨rfl, rfl⟩ := h
        exact .inl ⟨m, d, clock, rest, k, rfl, ht, hd⟩
      · cases h
    · cases h
  · rename_i i clock
    split at h
    · rename_i dest e hi
      rw [Option.some.injEq, Prod.mk.injEq] at h
      obtain ⟨rfl, rfl⟩ := h
      exact .inr ⟨i, clock, rfl, hi⟩
    · cases h
  · cases h

/-- What a step can record; `h'` is the history after it. -/
inductive Recorded (s : Cluster) (l : Label) (h' : List Event) : Event → Prop where
  | issued {n : String} {e : LogEntry} (h : s.entryBegun l = some (n, e)) :
      Recorded s l h' (.issued n e)
  | rejected {n : String} {w : WriteCall} {r : Response} : Recorded s l h' (.rejected n w r)
  | failed {n : String} {e : LogEntry} {text : String} :
      Recorded s l h' (.replied n e (.error text))
  | handled {n : String} {c : LogEntry} (h : s.commitHandled l = some (n, c)) :
      Recorded s l h' (.handled n c ((s.nodes n).toApply c))
  | applied {n : String} {c : LogEntry} (h : s.commitHandled l = some (n, c))
      (hhandled : .handled n c ((s.nodes n).toApply c) ∈ h') :
      Recorded s l h' (.applied n ((s.nodes n).toApply c))
  | settled {n : String} {e : LogEntry} {k : Nat} (ht : s.tasks n = some (.commit e [] k))
      (hreplied : .replied n e (.ok (.str "OK")) ∈ h') : Recorded s l h' (.applied n e)
  | succeeded {n : String} {e : LogEntry} {k : Nat} (ht : s.tasks n = some (.commit e [] k))
      (hk : requiredTotal (s.nodes n).config.replicationFactor
        (s.nodes n).config.defaultConsistency ≤ k + 1) (happlied : .applied n e ∈ h') :
      Recorded s l h' (.replied n e (.ok (.str "OK")))
  | got {n : String} {p : ReadPlan} {since : Nat} {results : List ReadResult}
      {outcome : ReadOutcome} (ht : s.tasks n = some (.repair p since results outcome [])) :
      Recorded s l h' (.got n p since results outcome)

/-- What handling a commit message records. -/
theorem recorded_eventsOf {s : Cluster} {l : Label} {h' : List Event} {dest : String} {m : Message}
    (hcommit : ∀ c, m = .replicate c .commit → s.commitHandled l = some (dest, c))
    (hsub : eventsOf dest (s.nodes dest) m ⊆ h') {ev : Event}
    (hev : ev ∈ eventsOf dest (s.nodes dest) m) : Recorded s l h' ev := by
  unfold eventsOf at hev hsub
  split at hev
  · have hc := hcommit _ rfl
    simp only [List.mem_cons, List.not_mem_nil, or_false] at hev
    rcases hev with rfl | rfl
    · exact .handled hc
    · exact .applied hc (hsub List.mem_cons_self)
  · cases hev

/-- **What a step records.** -/
theorem recorded_step {hash : String → Nat} {s s' : Cluster} {l : Label}
    (h : step hash s l = some s') {ev : Event} (hev : ev ∈ s'.history) :
    ev ∈ s.history ∨ Recorded s l s'.history ev := by
  cases step_effect h with
  | control hl hb hc =>
    rcases hc.history with hh | ⟨n, w, r, hh⟩
    · exact .inl (hh ▸ hev)
    · rw [hh, List.mem_append, List.mem_singleton] at hev
      rcases hev with hev | rfl
      · exact .inl hev
      · exact .inr .rejected
  | @begun i clock now n w replicas hi hfree =>
    have he := entryBegun_begin s clock now n replicas hi hfree
    simp only [begun, history_beginTask, log, setNode, List.mem_append, List.mem_singleton] at hev
    rcases hev with (hev | rfl) | hev
    · exact .inl hev
    · exact .inr (.issued he)
    · split at hev
      · rw [List.mem_singleton] at hev
        subst hev
        exact .inr .failed
      · cases hev
  | prepared ht => exact .inl (by simpa [setTask] using hev)
  | unready ht =>
    simp only [log, List.mem_append, List.mem_singleton] at hev
    rcases hev with hev | rfl
    · exact .inl hev
    · exact .inr .failed
  | @committed n f d clock e rest k ht =>
    simp only [setTask, history_send, List.mem_append] at hev ⊢
    refine hev.imp id fun hnew => ?_
    split at hnew
    · rename_i hd
      refine recorded_eventsOf (m := .replicate e .commit) (fun c hm => ?_) ?_ hnew
      · cases hm
        simp [commitHandled, ht, hd]
      · rw [if_pos hd]
        exact List.subset_append_right _ _
    · cases hnew
  | @settled n clock e k ht =>
    rcases Node.settleWrite_cases clock (s.nodes n) e k with ⟨text, hr⟩ | ⟨hk, hr⟩
    · rw [hr] at hev
      simp only [log, setTask, setNode, Response.success, Bool.false_eq_true, if_false,
        List.nil_append, List.mem_append, List.mem_singleton] at hev
      rcases hev with hev | rfl
      · exact .inl hev
      · exact .inr .failed
    · rw [hr] at hev ⊢
      simp only [log, setTask, setNode, Response.success, if_true, List.mem_append,
        List.mem_singleton] at hev
      rcases hev with hev | rfl | rfl
      · exact .inl hev
      · exact .inr (.settled ht (by simp [log]))
      · exact .inr (.succeeded ht hk (by simp [log, Response.success]))
  | @asyncSent n f d clock e rest queue hq d' =>
    rw [history_send, show ∀ v, eventsOf f v (.replicate e .prepare) = [] from fun _ => rfl]
      at hev
    exact .inl (by simpa [setNode] using hev)
  | answered ht hnew => exact .inl (by simpa [setTask] using hev)
  | repaired ht => exact .inl (by simpa [setTask] using hev)
  | gotten ht =>
    simp only [log, List.mem_append, List.mem_singleton] at hev
    rcases hev with hev | rfl
    · exact .inl hev
    · exact .inr (.got ht)
  | @delivered i clock dest m hm hdata =>
    refine (List.mem_append.mp hev).imp id fun hnew => ?_
    refine recorded_eventsOf (m := m) (fun c hc => ?_) (List.subset_append_right _ _) hnew
    subst hc
    simp [commitHandled, hm]
  | _ => exact .inl hev

@[simp] theorem issuedIn_nil : issuedIn [] = [] := rfl

@[simp] theorem issuedIn_append (h h' : List Event) :
    issuedIn (h ++ h') = issuedIn h ++ issuedIn h' := List.filterMap_append

theorem issuedIn_eventsOf (dest : String) (n : Node) (m : Message) :
    issuedIn (eventsOf dest n m) = [] := by
  unfold eventsOf
  split <;> rfl

/-- A step issues the entry it builds, and no other. -/
theorem issuedIn_step {hash : String → Nat} {s s' : Cluster} {l : Label}
    (h : step hash s l = some s') :
    issuedIn s'.history = issuedIn s.history ++ (s.entryBegun l).toList := by
  cases step_effect h with
  | control hl hb hc =>
    rw [hb]
    rcases hc.history with hh | ⟨m, w, r, hh⟩
    · simp [hh]
    · rw [hh, issuedIn_append]
      rfl
  | @begun i clock now m w replicas hi hfree =>
    rw [entryBegun_begin s clock now m replicas hi hfree]
    simp only [begun, history_beginTask, log, setNode, issuedIn_append]
    cases ((s.nodes m).beginWrite clock now w replicas).2.2 <;> simp [issuedIn]
  | unready ht =>
    rw [log, issuedIn_append]
    rfl
  | committed ht =>
    simp only [setTask, history_send, issuedIn_append, entryBegun]
    split <;> simp [issuedIn_eventsOf]
  | settled ht =>
    simp only [log, issuedIn_append, entryBegun]
    split <;> simp [issuedIn, setTask, setNode]
  | asyncSent hq =>
    simp only [history_send, issuedIn_append, entryBegun]
    split <;> simp [issuedIn_eventsOf, setNode]
  | gotten ht =>
    rw [log, issuedIn_append]
    rfl
  | delivered hm hdata =>
    simp only [receive, log, issuedIn_append, issuedIn_eventsOf, entryBegun]
    rfl
  | _ => simp [entryBegun, setTask, setNode]

theorem issued_step {hash : String → Nat} {s s' : Cluster} {l : Label}
    (h : step hash s l = some s') (n : String) (e : LogEntry) :
    Event.issued n e ∈ s'.history ↔
      Event.issued n e ∈ s.history ∨ s.entryBegun l = some (n, e) := by
  rw [← mem_issuedIn, issuedIn_step h, List.mem_append, mem_issuedIn, Option.mem_toList]

/-! ## Messages -/

/-- A message once sent stays on record. -/
theorem sent_step {hash : String → Nat} {s s' : Cluster} {l : Label}
    (h : step hash s l = some s') : s.sent ⊆ s'.sent := by
  cases step_effect h with
  | control hl hb hc => exact hc.kept
  | begun hi hfree =>
    unfold begun
    rw [sent_beginTask]
    exact fun _ hp => hp
  | prepared ht =>
    simp only [setTask, sent_prepared]
    exact sent_subset_send _ _ _ _ _
  | committed ht => exact sent_subset_send _ _ _ _ _
  | asyncSent hq => exact sent_subset_send _ (setNode _ _ _) _ _ _
  | answered ht hnew =>
    simp only [setTask, sent_readFrom]
    exact fun _ hp => hp
  | repaired ht => exact sent_subset_repairWith _ _ _ _ _ _ _
  | _ => exact fun _ hp => hp

/-- What a step can send. -/
inductive Sends (s : Cluster) : Label → String × Message → Prop where
  | election {l : Label} {dest : String} {m : Message} (h : IsElection m) : Sends s l (dest, m)
  | prepare {l : Label} {dest : String} {e : LogEntry} : Sends s l (dest, .replicate e .prepare)
  | commit {n f : String} {d : Delivery} {clock : Time} {e : LogEntry} {rest : List String}
      {k : Nat} (ht : s.tasks n = some (.commit e (f :: rest) k)) :
      Sends s (.commit n d clock) (f, .replicate e .commit)
  | repair {n dest : String} {d : Delivery} {clock : Time} {p : ReadPlan} {since : Nat}
      {results : List ReadResult} {best : ReadResult} {repairs rest : List ReadResult}
      {r : ReadResult}
      (ht : s.tasks n = some (.repair p since results (.found best repairs) (r :: rest))) :
      Sends s (.repair n d clock) (dest, .replicaSet (Node.repairArgs p.key best))

/-- What is on record was there before, or is sent now. -/
theorem sends_of_mem_sent {hash : String → Nat} {s s' : Cluster} {l : Label}
    (h : step hash s l = some s') {p : String × Message} (hp : p ∈ s'.sent) :
    p ∈ s.sent ∨ Sends s l p := by
  cases step_effect h with
  | control hl hb hc => exact (hc.sent p hp).imp id fun hm => .election hm
  | begun hi hfree =>
    unfold begun at hp
    rw [sent_beginTask] at hp
    exact .inl hp
  | prepared ht =>
    simp only [setTask, sent_prepared] at hp
    rcases mem_sent_send _ _ _ _ _ hp with hp | rfl
    · exact .inl hp
    · exact .inr .prepare
  | committed ht =>
    rcases mem_sent_send _ _ _ _ _ hp with hp | rfl
    · exact .inl hp
    · exact .inr (.commit ht)
  | asyncSent hq =>
    rcases mem_sent_send _ (setNode _ _ _) _ _ _ hp with hp | rfl
    · exact .inl hp
    · exact .inr .prepare
  | answered ht hnew =>
    simp only [setTask, sent_readFrom] at hp
    exact .inl hp
  | repaired ht =>
    simp only [setTask, repairWith] at hp
    split at hp
    · exact .inl hp
    · rcases mem_sent_send _ _ _ _ _ hp with hp | rfl
      · exact .inl hp
      · exact .inr (.repair ht)
  | _ => exact .inl hp

end Cluster

end MiniDb
