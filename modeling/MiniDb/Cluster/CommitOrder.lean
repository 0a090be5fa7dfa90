/-
  The commit index and the applied entries of one election manager, over all orders of events
  (`cluster/election.py`: `append_entry`, `commit_entries`, `handle_append_entries`, and what
  changes the role).

  Only `handle_append_entries` can spoil them: a message that disagrees with a committed entry
  takes it away with all behind it, and then `min(leader_commit, len(log))` can lie below the old
  commit index. `commit_order_iff`: nothing is spoilt exactly as long as no message that is
  accepted so far names or brings another term for a committed position (`KeepsCommitted`).
-/
import MiniDb.Cluster.AppendEntries
import MiniDb.Cluster.ElectionRole
import MiniDb.Cluster.LeaderLog

namespace MiniDb

open Lib ElectionManager

namespace CommitOrder

/-! ## Runs -/

inductive LogEvent where
  /-- An election event; an AppendEntries message carries consecutive indices. -/
  | election (ev : ElectionRole.ElectionEvent)
      (h : ∀ r, ev = .appendEntries r → Consecutive r)
  | appendEntry (now : Time) (command : Command) (key : String) (value : Json)
      (ttl : Option Int)
  | commitEntries (matchIndices : Dict String Int) (clusterSize : Nat)

def step (s : ElectionRole.State) : LogEvent → Option ElectionRole.State
  | .election ev _ => ElectionRole.step s ev
  | .appendEntry now command key value ttl =>
    some { s with manager := (s.manager.appendEntry now command key value ttl).1 }
  | .commitEntries matchIndices clusterSize =>
    some { s with manager := (s.manager.commitEntries matchIndices clusterSize).1 }

/-- A new manager. -/
def start (nodeId : String) : ElectionRole.State := { manager := { nodeId := nodeId } }

/-! ## The law -/

/-- What a step owes: the indices are in order, the commit index does not fall, and the entries
    applied so far stay as they are. -/
structure InOrder (m m' : ElectionManager) : Prop where
  applied : m'.lastApplied ≤ m'.commitIndex
  committed : m'.commitIndex ≤ m'.log.length
  grows : m.commitIndex ≤ m'.commitIndex
  keeps : m'.log.take m.lastApplied = m.log.take m.lastApplied

/-- All that is committed is there, and applied. -/
structure Settled (m : ElectionManager) : Prop where
  applied : m.lastApplied = m.commitIndex
  committed : m.commitIndex ≤ m.log.length

instance (log : List LogEntry) (index term : Nat) : Decidable (Conflicts log index term) :=
  decidable_of_iff _ (conflicts_iff log index term)

/-- The message is turned away, or it agrees with the terms of what is committed. -/
def AgreesWithCommitted (m : ElectionManager) (r : AppendRequest) : Prop :=
  m.currentTerm ≤ r.term → r.prevLogIndex ≤ m.log.length →
    if Conflicts m.log r.prevLogIndex r.prevLogTerm then m.commitIndex < r.prevLogIndex
    else ∀ e ∈ r.entries, e.index ≤ m.commitIndex → ¬Conflicts m.log e.index e.term

instance (m : ElectionManager) (r : AppendRequest) : Decidable (AgreesWithCommitted m r) := by
  unfold AgreesWithCommitted
  infer_instance

/-- The condition on a step. -/
def KeepsCommitted (s : ElectionRole.State) : LogEvent → Prop
  | .election (.appendEntries r) _ => AgreesWithCommitted s.manager r
  | _ => True

theorem Settled.inOrder {m m' : ElectionManager} (h : Settled m) (hlog : m'.log = m.log)
    (hcommit : m'.commitIndex = m.commitIndex) (happlied : m'.lastApplied = m.lastApplied) :
    InOrder m m' := by
  refine ⟨?_, ?_, ?_, ?_⟩
  · rw [happlied, hcommit, h.applied]
  · rw [hcommit, hlog]
    exact h.committed
  · exact le_of_eq hcommit.symm
  · rw [hlog]

/-! ## The handlers -/

/-- A longer log that keeps what is committed, with its commit index raised, is in order. -/
theorem inOrder_advanceCommit {m m' : ElectionManager} (h : Settled m)
    (hcommit : m'.commitIndex = m.commitIndex) (happlied : m'.lastApplied = m.lastApplied)
    (hkeeps : m'.log.take m.commitIndex = m.log.take m.commitIndex) (leaderCommit : Nat) :
    InOrder m (m'.advanceCommit leaderCommit).1 := by
  have hlen : m.commitIndex ≤ m'.log.length := by
    have := congrArg List.length hkeeps
    rw [List.length_take_of_le h.committed, List.length_take] at this
    omega
  unfold advanceCommit
  split
  · rename_i hlt
    refine ⟨?_, Nat.min_le_right _ _, ?_, ?_⟩
    · show max m'.lastApplied (min leaderCommit m'.log.length) ≤ min leaderCommit m'.log.length
      have := h.applied
      omega
    · show m.commitIndex ≤ min leaderCommit m'.log.length
      omega
    · rw [h.applied]
      exact hkeeps
  · refine ⟨?_, ?_, le_of_eq hcommit.symm, ?_⟩
    · rw [happlied, hcommit, h.applied]
    · rwa [hcommit]
    · rw [h.applied]
      exact hkeeps

/-- The merge keeps the front of the log if no entry of the message conflicts with one there. -/
theorem take_merged_iff {m : ElectionManager} {r : AppendRequest} (hidx : Consecutive r)
    (hlen : r.prevLogIndex ≤ m.log.length) {c : Nat} (hc : c ≤ m.log.length) :
    (mergeAt LogEntry.term m.log r.prevLogIndex r.entries).take c = m.log.take c ↔
      ∀ e ∈ r.entries, e.index ≤ c → ¬Conflicts m.log e.index e.term := by
  rw [take_mergeAt_iff hlen hc]
  constructor
  · intro hall e hmem hle hconflict
    obtain ⟨j, hj⟩ := List.getElem?_of_mem hmem
    have hindex := hidx j e hj
    obtain ⟨-, own, hown, hne⟩ := hconflict
    rw [hindex, Nat.add_sub_cancel] at hown
    exact hne (hall j e own hj hown (by omega))
  · intro hall j e own he hown hj
    by_contra hne
    have hindex := hidx j e he
    refine hall e (List.mem_of_getElem? he) (by omega) ⟨by omega, own, ?_, hne⟩
    rw [hindex, Nat.add_sub_cancel]
    exact hown

theorem inOrder_appendEntries_iff {m : ElectionManager} (h : Settled m) {r : AppendRequest}
    (hidx : Consecutive r) :
    InOrder m (m.handleAppendEntries r).1 ↔ AgreesWithCommitted m r := by
  unfold AgreesWithCommitted
  have heffect := append_effect m hidx
  generalize m.handleAppendEntries r = out at heffect
  cases heffect with
  | stale hterm =>
    exact iff_of_true (h.inOrder rfl rfl rfl) fun hle => absurd hle (not_le.mpr hterm)
  | missing hterm hlen =>
    refine iff_of_true ?_ fun _ hle => absurd hle (not_le.mpr hlen)
    exact h.inOrder (heard_log m r) (heard_commitIndex m r) (heard_lastApplied m r)
  | conflict hterm hlen hc =>
    rw [if_pos hc]
    constructor
    · intro hin _ _
      have hcommit := hin.committed
      have hpos := hc.1
      simp only [heard_commitIndex, List.length_take] at hcommit
      omega
    · intro hlt
      have hpos := hlt hterm hlen
      refine ⟨?_, ?_, ?_, ?_⟩
      · simp only [heard_commitIndex, heard_lastApplied]
        exact le_of_eq h.applied
      · simp only [heard_commitIndex, List.length_take]
        have := h.committed
        omega
      · simp only [heard_commitIndex, le_refl]
      · rw [List.take_take, h.applied, Nat.min_eq_left (by omega)]
  | @appended hterm hlen hc log hlog m' applied hcommit =>
    have hfront := take_merged_iff hidx hlen h.committed
    rw [← hlog] at hfront
    rw [if_neg hc]
    constructor
    · intro hin _ _
      have hkeeps := hin.keeps
      rw [h.applied, show m'.log = log from log_of_advanceCommit hcommit] at hkeeps
      exact hfront.mp hkeeps
    · intro hagrees
      have hkeeps := hfront.mpr (hagrees hterm hlen)
      have hin : InOrder m (advanceCommit { m.heard r with log := log } r.leaderCommit).1 := by
        refine inOrder_advanceCommit h ?_ ?_ hkeeps _
        · exact heard_commitIndex m r
        · exact heard_lastApplied m r
      rwa [hcommit] at hin

theorem inOrder_appendEntry {m : ElectionManager} (h : Settled m) (now : Time)
    (command : Command) (key : String) (value : Json) (ttl : Option Int) :
    InOrder m (m.appendEntry now command key value ttl).1 := by
  unfold appendEntry
  split
  · exact h.inOrder rfl rfl rfl
  · refine ⟨le_of_eq h.applied, ?_, le_refl _, ?_⟩
    · rw [List.length_append]
      exact le_trans h.committed (Nat.le_add_right _ _)
    · rw [List.take_append_of_le_length (by rw [h.applied]; exact h.committed)]

theorem inOrder_commitEntries {m : ElectionManager} (h : Settled m)
    (matchIndices : Dict String Int) (clusterSize : Nat) :
    InOrder m (m.commitEntries matchIndices clusterSize).1 := by
  unfold commitEntries
  split
  · exact h.inOrder rfl rfl rfl
  · split
    · exact h.inOrder rfl rfl rfl
    · rename_i idx hfound
      split
      · rename_i hin
        obtain ⟨hlt, -, -⟩ := reached_iff_of_some hfound
        have := h.applied
        refine ⟨?_, ?_, ?_, rfl⟩
        · show max m.lastApplied idx.toNat ≤ idx.toNat
          omega
        · show idx.toNat ≤ m.log.length
          omega
        · show m.commitIndex ≤ idx.toNat
          omega
      · exact h.inOrder rfl rfl rfl

/-! ## Runs in order -/

/-- The other events leave the log alone. -/
theorem election_log {s s' : ElectionRole.State} {ev : ElectionRole.ElectionEvent}
    (he : ElectionRole.step s ev = some s') (hne : ∀ r, ev ≠ .appendEntries r) :
    s'.manager.log = s.manager.log ∧ s'.manager.commitIndex = s.manager.commitIndex ∧
      s'.manager.lastApplied = s.manager.lastApplied := by
  cases ev with
  | startElection =>
    simp only [ElectionRole.step] at he
    split at he
    · cases he
    · cases he
      exact ⟨rfl, rfl, rfl⟩
  | finishElection votesReceived clusterSize =>
    simp only [ElectionRole.step] at he
    split at he
    · cases he
      dsimp only
      unfold finishElection becomeLeader
      split_ifs <;> exact ⟨rfl, rfl, rfl⟩
    · cases he
  | heartbeat leaderId term =>
    simp only [ElectionRole.step] at he
    split at he
    · cases he
      exact ⟨rfl, rfl, rfl⟩
    · cases he
      exact receiveHeartbeat_keeps s.manager leaderId term
  | voteRequest r =>
    cases he
    dsimp only
    unfold handleVoteRequest
    dsimp only
    split_ifs <;> exact ⟨rfl, rfl, rfl⟩
  | appendEntries r => exact absurd rfl (hne r)
  | stepDown =>
    cases he
    dsimp only
    unfold stepDown
    split_ifs <;> exact ⟨rfl, rfl, rfl⟩

theorem inOrder_iff {s s' : ElectionRole.State} {ev : LogEvent} (h : Settled s.manager)
    (he : step s ev = some s') : InOrder s.manager s'.manager ↔ KeepsCommitted s ev := by
  cases ev with
  | appendEntry now command key value ttl =>
    cases he
    exact iff_of_true (inOrder_appendEntry h now command key value ttl) trivial
  | commitEntries matchIndices clusterSize =>
    cases he
    exact iff_of_true (inOrder_commitEntries h matchIndices clusterSize) trivial
  | election ev hidx =>
    by_cases hev : ∃ r, ev = .appendEntries r
    · obtain ⟨r, rfl⟩ := hev
      cases he
      exact inOrder_appendEntries_iff h (hidx r rfl)
    · rw [not_exists] at hev
      obtain ⟨hlog, hcommit, happlied⟩ := election_log he hev
      refine iff_of_true (h.inOrder hlog hcommit happlied) ?_
      cases ev with
      | appendEntries r => exact absurd rfl (hev r)
      | _ => trivial

theorem applied_advanceCommit {m : ElectionManager} (h : m.lastApplied = m.commitIndex)
    (leaderCommit : Nat) :
    (m.advanceCommit leaderCommit).1.lastApplied =
      max m.lastApplied (m.advanceCommit leaderCommit).1.commitIndex := by
  unfold advanceCommit
  split
  · rfl
  · rw [h, max_self]

/-- Every step applies what it finds committed. -/
theorem applied_max {s s' : ElectionRole.State} {ev : LogEvent}
    (h : s.manager.lastApplied = s.manager.commitIndex) (he : step s ev = some s') :
    s'.manager.lastApplied = max s.manager.lastApplied s'.manager.commitIndex := by
  cases ev with
  | appendEntry now command key value ttl =>
    cases he
    dsimp only
    unfold appendEntry
    split <;> simp [h]
  | commitEntries matchIndices clusterSize =>
    cases he
    dsimp only
    unfold commitEntries
    split_ifs
    · simp [h]
    · split
      · simp [h]
      · split_ifs
        · rfl
        · simp [h]
  | election ev hidx =>
    by_cases hev : ∃ r, ev = .appendEntries r
    · obtain ⟨r, rfl⟩ := hev
      cases he
      have heffect := append_effect s.manager (hidx r rfl)
      dsimp only
      generalize s.manager.handleAppendEntries r = out at heffect
      cases heffect with
      | stale hterm => simp [h]
      | missing hterm hlen => simp [h]
      | conflict hterm hlen hc => simp [h]
      | @appended hterm hlen hc log hlog m' applied hcommit =>
        have hheard : ({ s.manager.heard r with log := log } : ElectionManager).lastApplied =
            ({ s.manager.heard r with log := log } : ElectionManager).commitIndex := by
          simp [h]
        have := applied_advanceCommit hheard r.leaderCommit
        rw [hcommit] at this
        simpa using this
    · rw [not_exists] at hev
      obtain ⟨hlog, hcommit, happlied⟩ := election_log he hev
      rw [happlied, hcommit, h, max_self]

theorem settled_step {s s' : ElectionRole.State} {ev : LogEvent} (h : Settled s.manager)
    (he : step s ev = some s') (hin : InOrder s.manager s'.manager) : Settled s'.manager := by
  refine ⟨?_, hin.committed⟩
  have hgrows := hin.grows
  rw [applied_max h.applied he, h.applied, max_eq_right hgrows]

/-- **The indices stay in order and no applied entry goes, exactly as long as no message that is
    accepted disagrees with a committed entry.** -/
theorem commit_order_iff (nodeId : String) {evs : List LogEvent} {t : ElectionRole.State}
    (he : exec step (start nodeId) evs = some t) :
    Each step (fun s _ s' => InOrder s.manager s'.manager) (start nodeId) evs ↔
      Along step KeepsCommitted (start nodeId) evs :=
  each_step_iff (I := fun s => Settled s.manager)
    (fun _ _ _ h hs hin => settled_step h hs hin) (fun _ _ _ h hs => inOrder_iff h hs)
    ⟨rfl, le_refl _⟩ he

/-! ### A message against a committed entry -/

/-- An event that is no AppendEntries message. -/
def other (ev : ElectionRole.ElectionEvent) (h : ∀ r, ev ≠ .appendEntries r) : LogEvent :=
  .election ev fun r hr => absurd hr (h r)

/-- A message of term 2 without entries. -/
def emptyMessage (prevLogIndex prevLogTerm : Nat) : LogEvent :=
  .election (.appendEntries ⟨"n2", 2, prevLogIndex, prevLogTerm, [], 1⟩) fun r hr => by
    cases hr
    exact fun _ _ h => nomatch h

/-- The leader of a cluster of one, in term 1, commits its first entry. -/
def committedRun : List LogEvent :=
  [other .startElection (fun _ h => nomatch h), other (.finishElection 1 1) (fun _ h => nomatch h),
    .appendEntry 10 .set "a" .null none, .commitEntries .empty 1]

/-- A message that names the committed entry keeps it. -/
theorem commit_order_iff_sample :
    ∃ t, exec step (start "n1") (committedRun ++ [emptyMessage 1 1]) = some t ∧
      (Each step (fun s _ s' => InOrder s.manager s'.manager) (start "n1")
          (committedRun ++ [emptyMessage 1 1]) ↔
        Along step KeepsCommitted (start "n1") (committedRun ++ [emptyMessage 1 1])) :=
  ⟨_, rfl, commit_order_iff "n1" rfl⟩

/-- A message that names another term for it takes it away. -/
theorem committed_entry_removed :
    ∃ t, exec step (start "n1") (committedRun ++ [emptyMessage 1 2]) = some t ∧
      t.manager.log = [] ∧ t.manager.commitIndex = 1 ∧
      ¬Each step (fun s _ s' => InOrder s.manager s'.manager) (start "n1")
        (committedRun ++ [emptyMessage 1 2]) := by
  refine ⟨_, rfl, rfl, rfl, fun h => ?_⟩
  have hlast := (((h _ rfl).2 _ rfl).2 _ rfl).2 _ rfl |>.2 _ rfl
  exact absurd hlast.1.committed (by decide)

end CommitOrder

end MiniDb
