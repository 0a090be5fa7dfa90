/-
  The order of acknowledged writes over leader changes.

  A leader takes the version of a write from its own store, and a node can be elected whatever
  its store has missed (the election compares logs that nothing writes). So a later write can
  come before an earlier one in the order of quorum reads.

  A node that has applied the earlier write stays caught up with it (`CaughtUp`) until it applies
  an older entry of the key or recovers an older store (`caughtUp_run`). `later_write_greater`
  concludes: whoever leads then, a node that has kept up gives its write a greater key, and the
  nodes that applied the earlier write are at least as many as its acknowledgement asked for,
  where commits apply the entries they carry.
-/
import MiniDb.Cluster.Counted
import MiniDb.Cluster.TtlFree

namespace MiniDb

open Lib

namespace LeaderOrder

open Cluster TtlFree

variable {hash : String → Nat}

/-- A new entry is later than all entries built before. -/
def TimestampsIncrease (s : Cluster) (l : Label) : Prop :=
  ∀ n e, entryBegun s l = some (n, e) →
    ∀ m e', Event.issued m e' ∈ s.history → e'.timestamp < e.timestamp

/-- The stored version of the key is at most one behind that of `w`. -/
def CaughtUp (w : LogEntry) (store : KVStore) : Prop :=
  ∃ m ∈ store.get? w.key, w.version ≤ m.version + 1

instance (w : LogEntry) (store : KVStore) : Decidable (CaughtUp w store) :=
  inferInstanceAs (Decidable (∃ m ∈ store.get? w.key, w.version ≤ m.version + 1))

/-- `n` recovers no store that is not caught up. -/
def RecoversCaughtUp (w : LogEntry) (n : String) : Label → Prop
  | .restart m store _ _ _ => m = n → CaughtUp w store
  | _ => True

instance (w : LogEntry) (n : String) : (l : Label) → Decidable (RecoversCaughtUp w n l)
  | .restart m store _ _ _ => inferInstanceAs (Decidable (m = n → CaughtUp w store))
  | .call _ _ | .begin _ _ _ | .prepare _ _ _ | .endPrepare _ | .commit _ _ _ | .settle _ _
  | .async _ _ _ | .get _ _ _ | .answer _ _ _ _ | .conclude _ _ | .repair _ _ _ | .endGet _
  | .startElection _ | .requestVote _ _ _ | .countVotes _ | .startHeartbeats _
  | .heartbeat _ _ _ | .endHeartbeats _ | .stepDown _ | .deliver _ _ | .topology _ _ _
  | .cleanup _ _ => isTrue trivial

/-- `n` applies no entry of the key that is more than one version behind `w`, and recovers no
    store that is. -/
def KeepsUp (w : LogEntry) (n : String) (s : Cluster) (l : Label) : Prop :=
  (∀ p ∈ s.entryApplied l, p.1 = n → p.2.key = w.key → w.version ≤ p.2.version + 1) ∧
    RecoversCaughtUp w n l

instance (w : LogEntry) (n : String) (s : Cluster) (l : Label) : Decidable (KeepsUp w n s l) :=
  inferInstanceAs (Decidable (_ ∧ _))

/-- `n` has applied `w` in the run, and has kept up with it since. -/
def KeptUp (hash : String → Nat) (s : Cluster) (ls : List Label) (n : String) (w : LogEntry) :
    Prop :=
  Since (step hash) (fun s l => s.entryApplied l = some (n, w)) (KeepsUp w n) s ls

/-! ## Keeping up -/

/-- Applying an entry of another key, or one that is not too old, keeps up. -/
theorem CaughtUp.applied {w e : LogEntry} {n n' : Node} (h : CaughtUp w n.store)
    (happlies : AppliesEntry n n' e) (he : Replica.PlainSet e ∧ 1 ≤ e.version)
    (hnew : e.key = w.key → w.version ≤ e.version + 1) : CaughtUp w n'.store := by
  obtain ⟨m, hm, hle⟩ := h
  obtain ⟨m', -, hversion, hget⟩ := get?_applied happlies he w.key
  by_cases hkey : e.key = w.key
  · rw [if_pos hkey] at hget
    exact ⟨m', hget, hversion ▸ hnew hkey⟩
  · rw [if_neg hkey] at hget
    exact ⟨m, hget.trans hm, hle⟩

/-- A node that applies the write has caught up with it. -/
theorem caughtUp_applied {w : LogEntry} {n n' : Node} (happlies : AppliesEntry n n' w)
    (hw : Replica.PlainSet w ∧ 1 ≤ w.version) : CaughtUp w n'.store := by
  obtain ⟨m, -, hversion, hget⟩ := get?_applied happlies hw w.key
  rw [if_pos rfl] at hget
  exact ⟨m, hget, by omega⟩

/-- A step that keeps up. -/
theorem caughtUp_step {s s' : Cluster} {l : Label} {w : LogEntry} {n : String} (h : Lasting s)
    (hs : step hash s l = some s') (hcaught : CaughtUp w (s.nodes n).store)
    (hl : KeepsUp w n s l) : CaughtUp w (s'.nodes n).store := by
  rcases forward_step h hs n with hforward | ⟨e, he⟩ | ⟨store, aof, membership, ring, rfl, hstore⟩
  · obtain ⟨m, hm, hle⟩ := hcaught
    obtain ⟨m', hm', hversion⟩ := hforward w.key m hm
    exact ⟨m', hm', by omega⟩
  · exact hcaught.applied (appliesEntry_step hs he) (applied_issued h he)
      fun hkey => hl.1 (n, e) he rfl hkey
  · rw [hstore]
    exact hl.2 rfl

/-- Who has kept up with a write is caught up with it at the end of the run, whatever leaders
    there were. -/
theorem caughtUp_run {s t : Cluster} {ls : List Label} {w : LogEntry} {n : String}
    (h : Lasting s) (hsets : ∀ l ∈ ls, SetsOnly l) (he : exec (step hash) s ls = some t)
    (hkept : KeptUp hash s ls n w) : CaughtUp w (t.nodes n).store := by
  refine exec_since (I := fun u => CaughtUp w (u.nodes n).store) (J := Lasting)
    (Q := fun _ l => SetsOnly l) (fun u l u' hu hl hs => lasting_step hu hl hs)
    (fun u l u' hu hl hs hnow => ?_) (fun u l u' hu hl hs hcaught => caughtUp_step hu hs hcaught)
    h (along_of_forall (fun _ l hl => hsets l hl) s) hkept he
  exact caughtUp_applied (appliesEntry_step hs hnow) (applied_issued hu hnow)

/-- When a write that is begun later is greater than one of the same key. -/
theorem begun_greater_iff {t : Cluster} {i : Nat} {clock now : Time} {n : String}
    {w w' : LogEntry} (hbegins : entryBegun t (.begin i clock now) = some (n, w'))
    (hkey : w'.key = w.key) (hlater : w.timestamp < w'.timestamp) :
    Replica.entryKey w < Replica.entryKey w' ↔
      w.version ≤ (t.nodes n).storedVersion clock w.key + 1 := by
  obtain ⟨call, replicas, -, -, rfl⟩ := entryBegun_eq hbegins
  have hcall : call.key = w.key := hkey
  rw [Replica.entryKey_lt_iff hlater, Node.version_newEntry, hcall]

/-- A node that is caught up with a write has at most one version less. -/
theorem CaughtUp.le_storedVersion {w : LogEntry} {n : Node} (hplain : Replica.Plain n)
    (h : CaughtUp w n.store) (clock : Time) : w.version ≤ n.storedVersion clock w.key + 1 := by
  obtain ⟨m, hm, hle⟩ := h
  rw [Node.storedVersion, Replica.getWithMetadata_plain hplain, Option.mem_def.mp hm]
  exact hle

/-! ## Acknowledged writes -/

/-- **When a later write is greater**: in every run that writes and recovers only values without
    TTL and deletes nothing, with any leaders, restarts and losses, let `w₁` be acknowledged.
    A write of the same key that the then leader begins later, with a timestamp after all earlier
    ones, is greater in the order of `(version, updated_at, coordinator_id)` if and only if the
    version in that leader's store is at most one behind; and it is if the leader has applied `w₁`
    and has since neither applied an entry of the key that is more than one version behind `w₁`
    nor recovered a store that is. And if the commits of the run apply what they carry,
    `required_total` or more distinct nodes have applied `w₁`. -/
theorem later_write_greater {s t : Cluster} {ls : List Label} (h : Fresh s)
    (hstores : ∀ n, NoTtl (s.nodes n).store) (hsets : ∀ l ∈ ls, SetsOnly l)
    (he : exec (step hash) s ls = some t) {n₁ : String} {w₁ : LogEntry} {r : Response}
    (hacked : Event.replied n₁ w₁ r ∈ t.history) (hsuccess : r.success) :
    (∀ i clock now n₂ w₂, TimestampsIncrease t (.begin i clock now) →
      entryBegun t (.begin i clock now) = some (n₂, w₂) → w₂.key = w₁.key →
        (Replica.entryKey w₁ < Replica.entryKey w₂ ↔
            w₁.version ≤ (t.nodes n₂).storedVersion clock w₁.key + 1) ∧
          (KeptUp hash s ls n₂ w₁ → Replica.entryKey w₁ < Replica.entryKey w₂)) ∧
      (Along (step hash) CommitExact.ExactCommit s ls → Ran hash s ls n₁ w₁ ∧
        ∃ fs : Finset String, n₁ ∉ fs ∧ (∀ f ∈ fs, Ran hash s ls f w₁) ∧
          required (t.nodes n₁) ≤ fs.card + 1) := by
  have hstart := lasting_fresh h hstores
  refine ⟨fun i clock now n₂ w₂ htime hbegins hkey => ?_, fun hexact => ?_⟩
  · have hlasting : Lasting t := exec_inv_along (P := fun _ l => SetsOnly l)
      (fun _ _ _ hu hl hs => lasting_step hu hl hs) hstart
      (along_of_forall (fun _ l hl => hsets l hl) s) he
    have hissued := (known_run h he).replied n₁ w₁ r hacked
    have hgreater := begun_greater_iff hbegins hkey (htime n₂ w₂ hbegins n₁ w₁ hissued)
    refine ⟨hgreater, fun hkept => hgreater.mpr ?_⟩
    exact (caughtUp_run hstart hsets he hkept).le_storedVersion (hlasting.plain n₂) clock
  · have hcounted := exec_inv_along (I := fun u => Distinct u ∧ Counted u)
      (fun _ _ _ hu hl hs => ⟨distinct_step hu.1 hs, counted_step hu.2 hu.1 hl hs⟩)
      ⟨h.distinct, counted_fresh h⟩ hexact he
    obtain ⟨happlied, fs, ⟨hself, hfs⟩, hcard⟩ := hcounted.2.acked n₁ w₁ r hacked hsuccess
    exact ⟨ran_of_applied h he happlied, fs, hself, fun f hf => ran_of_applied h he (hfs f hf),
      hcard⟩

/-! ### A new leader that starts behind -/

/-- `a` writes twice with `b`, then `c`, which has seen neither, is elected and writes. -/
def leaderChange : List Label :=
  electionOf "a" "b" "c" ++ setOf "a" 1 [.answered, .unsent] ++
    setOf "a" 2 [.answered, .unsent] ++ electionOf "c" "b" "a" ++
    setOf "c" 3 [.unsent, .answered]

def issuedTimestamps (h : List Event) : List Time :=
  (issuedIn h).map fun p => p.2.timestamp

/-- The second write of `a` and the first of `c`, as they are issued. -/
def lastOfA : LogEntry :=
  { term := 1, index := 2, command := .set, key := "k", value := .int 2, timestamp := 2
    version := 2, createdAt := some 1, coordinatorId := "a" }

def firstOfC : LogEntry :=
  { term := 2, index := 1, command := .set, key := "k", value := .int 3, timestamp := 3
    version := 1, createdAt := some 3, coordinatorId := "c" }

/-- The write of `a` is acknowledged before that of `c` is issued, which is acknowledged too and
    comes before it in the order. -/
theorem acknowledged_write_smaller :
    ∃ t, exec (step fun _ => 0) sample leaderChange = some t ∧
      t.history[9]? = some (.replied "a" lastOfA (.ok (.str "OK"))) ∧
      t.history[10]? = some (.issued "c" firstOfC) ∧
      t.history[14]? = some (.replied "c" firstOfC (.ok (.str "OK"))) ∧
      issuedTimestamps t.history = [1, 2, 3] ∧
      Replica.entryKey firstOfC < Replica.entryKey lastOfA := by
  have hrun : (exec (step fun _ => 0) sample leaderChange).map
      (fun t => (t.history[9]?, t.history[10]?, t.history[14]?, issuedTimestamps t.history)) =
      some (some (.replied "a" lastOfA (.ok (.str "OK"))), some (.issued "c" firstOfC),
        some (.replied "c" firstOfC (.ok (.str "OK"))), [1, 2, 3]) := rfl
  obtain ⟨t, ht, hobs⟩ := Option.map_eq_some_iff.mp hrun
  simp only [Prod.mk.injEq] at hobs
  exact ⟨t, ht, hobs.1, hobs.2.1, hobs.2.2.1, hobs.2.2.2,
    sortKey_lt_of_version_lt (by decide) _ _ _ _⟩

/-- `a` writes twice with `b`; the second commit is about to be sent. -/
def untilCommit : List Label :=
  electionOf "a" "b" "c" ++ setOf "a" 1 [.answered, .unsent] ++ (setOf "a" 2 []).dropLast

/-- Then `b` is elected and asked to write. -/
def afterCommit : List Label :=
  [.commit "a" .unsent 2, .settle "a" 2] ++ electionOf "b" "a" "c" ++
    [.call "b" { operation := .set, key := "k", value := .int 3 }]

def nextLeader : List Label := untilCommit ++ .commit "a" .answered 2 :: afterCommit

/-- The states before and after the commit. -/
def committing : Cluster := (exec (step fun _ => 0) sample untilCommit).getD sample

def committed : Cluster := (step (fun _ => 0) committing (.commit "a" .answered 2)).getD sample

def firstOfA : LogEntry :=
  { term := 1, index := 1, command := .set, key := "k", value := .int 1, timestamp := 1
    version := 1, createdAt := some 1, coordinatorId := "a" }

def firstOfB : LogEntry :=
  { term := 2, index := 1, command := .set, key := "k", value := .int 3, timestamp := 3
    version := 3, createdAt := some 1, coordinatorId := "b" }

/-- What a write of `a` records. -/
def eventsOfA (e : LogEntry) : List Event :=
  [.issued "a" e, .handled "b" e e, .applied "b" e, .applied "a" e,
    .replied "a" e (.ok (.str "OK"))]

theorem keptUp_nextLeader : KeptUp (fun _ => 0) sample nextLeader "b" lastOfA := by
  have hbefore : exec (step fun _ => 0) sample untilCommit = some committing := rfl
  have hcommit : step (fun _ => 0) committing (.commit "a" .answered 2) = some committed := rfl
  exact since_append hbefore hcommit rfl (by decide)

/-- `b` has kept up with the second write of `a`, and its own comes after it. -/
theorem later_write_greater_sample :
    ∃ t, exec (step fun _ => 0) sample nextLeader = some t ∧
      Replica.entryKey lastOfA < Replica.entryKey firstOfB ∧
      Ran (fun _ => 0) sample nextLeader "a" lastOfA ∧
        ∃ fs : Finset String, "a" ∉ fs ∧
          (∀ f ∈ fs, Ran (fun _ => 0) sample nextLeader f lastOfA) ∧
            required (t.nodes "a") ≤ fs.card + 1 := by
  have hrun : (exec (step fun _ => 0) sample nextLeader).map
      (fun t => (t.history, entryBegun t (.begin 0 3 3))) =
      some (eventsOfA firstOfA ++ eventsOfA lastOfA, some ("b", firstOfB)) := rfl
  obtain ⟨t, ht, hobs⟩ := Option.map_eq_some_iff.mp hrun
  obtain ⟨hhistory, hbegins⟩ := Prod.mk.inj hobs
  have hacked : Event.replied "a" lastOfA (.ok (.str "OK")) ∈ t.history := by
    rw [hhistory]
    simp [eventsOfA]
  have htime : TimestampsIncrease t (.begin 0 3 3) := by
    intro n e he m e' hissued
    rw [hbegins, Option.some.injEq, Prod.mk.injEq] at he
    obtain ⟨rfl, rfl⟩ := he
    simp only [hhistory, eventsOfA, List.mem_append, List.mem_cons, Event.issued.injEq,
      reduceCtorEq, List.not_mem_nil, or_false] at hissued
    rcases hissued with ⟨-, rfl⟩ | ⟨-, rfl⟩ <;> decide
  have hexact : Along (step fun _ => 0) CommitExact.ExactCommit sample nextLeader := by
    refine ((CommitExact.handled_exec ht).mp fun n c a hmem => ?_).2
    simp only [hhistory, eventsOfA, List.mem_append, List.mem_cons, Event.handled.injEq,
      reduceCtorEq, List.not_mem_nil, or_false, false_or] at hmem
    rcases hmem with ⟨-, rfl, rfl⟩ | ⟨-, rfl, rfl⟩ <;> rfl
  have hempty : ∀ n, NoTtl (sample.nodes n).store := fun n k m hm => by cases hm
  have hlaw := later_write_greater fresh_sample hempty (by decide) ht hacked rfl
  have hgreater := (hlaw.1 0 3 3 "b" firstOfB htime hbegins rfl).2 keptUp_nextLeader
  exact ⟨t, ht, hgreater, hlaw.2 hexact⟩

end LeaderOrder

end MiniDb
