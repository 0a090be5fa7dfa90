/-
  The role of a node and its `leader_id` (`cluster/election.py`), over all orders of events at the
  node, and what a STRONG read makes of them: it goes to `leader_id`, and to the node's own store
  when that is the node itself.

  Six handlers write the role, four of them write `leader_id` too. `handle_vote_request` deposes a
  leader without forgetting that it was the leader; `role_iff_leaderId` says that the two agree
  in all states of a run exactly when no event of it does this, and none claims that the node
  leads (`Keeps`).
-/
import MiniDb.Cluster.Election
import MiniDb.Cluster.ReadCoordinator
import MiniDb.Lib.Steps

namespace MiniDb

open Lib ReadCoordinator

namespace ElectionRole

/-! ## Runs -/

/-- The election state of a node. -/
structure State where
  manager : ElectionManager
  /-- The term of the campaign whose votes are still out. -/
  campaign : Option Nat := none

inductive ElectionEvent where
  | startElection
  /-- The votes are in. -/
  | finishElection (votesReceived clusterSize : Nat)
  /-- A HEARTBEAT message. -/
  | heartbeat (leaderId : String) (term : Nat)
  | voteRequest (r : VoteRequest)
  | appendEntries (r : AppendRequest)
  | stepDown

def step (s : State) : ElectionEvent → Option State
  | .startElection =>
    if s.campaign.isSome ∨ s.manager.role = .leader then none
    else
      let (m, r) := s.manager.startElection
      some ⟨m, some r.term⟩
  | .finishElection votesReceived clusterSize =>
    match s.campaign with
    | some term => some ⟨s.manager.finishElection term votesReceived clusterSize, none⟩
    | none => none
  | .heartbeat leaderId term =>
    if leaderId = "" then some s
    else some { s with manager := (s.manager.receiveHeartbeat leaderId term).1 }
  | .voteRequest r => some { s with manager := (s.manager.handleVoteRequest r).1 }
  | .appendEntries r => some { s with manager := (s.manager.handleAppendEntries r).1 }
  | .stepDown => some { s with manager := s.manager.stepDown }

/-! ## Role and leader -/

/-- The node is the leader exactly if it takes itself for the leader. -/
def Agrees (m : ElectionManager) : Prop := m.role = .leader ↔ m.leaderId = some m.nodeId

/-- The node's own store decides what a STRONG read answers. -/
def ReadsOwn (m : ElectionManager) : Prop :=
  ∃ remote own own', readStrong m.nodeId m.leaderId own remote ≠
    readStrong m.nodeId m.leaderId own' remote

/-- The event neither deposes the leader by a vote request, nor tells the node, by a message that
    it takes, that it leads. -/
def Keeps (s : State) : ElectionEvent → Prop
  | .heartbeat leaderId term =>
    leaderId = s.manager.nodeId → leaderId = "" ∨ term < s.manager.currentTerm
  | .voteRequest r => s.manager.role = .leader → r.term ≤ s.manager.currentTerm
  | .appendEntries r => r.leaderId = s.manager.nodeId → r.term < s.manager.currentTerm
  | _ => True

instance (s : State) : (ev : ElectionEvent) → Decidable (Keeps s ev)
  | .heartbeat leaderId term => inferInstanceAs (Decidable
      (leaderId = s.manager.nodeId → leaderId = "" ∨ term < s.manager.currentTerm))
  | .voteRequest r =>
    inferInstanceAs (Decidable (s.manager.role = .leader → r.term ≤ s.manager.currentTerm))
  | .appendEntries r => inferInstanceAs (Decidable
      (r.leaderId = s.manager.nodeId → r.term < s.manager.currentTerm))
  | .startElection | .finishElection _ _ | .stepDown => isTrue trivial

theorem readsOwn_iff (m : ElectionManager) :
    ReadsOwn m ↔ m.leaderId = some m.nodeId ∧ m.nodeId ≠ "" := by
  constructor
  · rintro ⟨remote, own, own', hne⟩
    unfold readStrong at hne
    cases hleader : m.leaderId with
    | none => simp [hleader] at hne
    | some p =>
      by_cases hp : p = ""
      · simp [hleader, hp] at hne
      · by_cases hself : p = m.nodeId
        · exact ⟨by rw [hself], hself ▸ hp⟩
        · simp [hleader, hp, hself] at hne
  · rintro ⟨hleader, hne⟩
    refine ⟨fun _ => missingAnswer, missingAnswer, { missingAnswer with found := true }, ?_⟩
    simp [readStrong, hleader, hne, foundOf, missingAnswer]

/-! ## What the handlers do to both -/

/-- What an event leaves of the role and of `leader_id`. -/
structure Kept (m m' : ElectionManager) : Prop where
  nodeId : m'.nodeId = m.nodeId
  role : m'.role = m.role
  leaderId : m'.leaderId = m.leaderId

theorem Kept.agrees_iff {m m' : ElectionManager} (h : Kept m m') : Agrees m' ↔ Agrees m := by
  unfold Agrees
  rw [h.nodeId, h.role, h.leaderId]

/-- The node follows `leaderId`. -/
structure Follows (leaderId : String) (m m' : ElectionManager) : Prop where
  nodeId : m'.nodeId = m.nodeId
  role : m'.role = .follower
  leaderId : m'.leaderId = some leaderId

theorem Follows.agrees_iff {leaderId : String} {m m' : ElectionManager}
    (h : Follows leaderId m m') : Agrees m' ↔ leaderId ≠ m.nodeId := by
  unfold Agrees
  rw [h.nodeId, h.role, h.leaderId]
  simp

theorem receiveHeartbeat_cases (m : ElectionManager) (leaderId : String) (term : Nat) :
    (term < m.currentTerm ∧ (m.receiveHeartbeat leaderId term).1 = m) ∨
      (m.currentTerm ≤ term ∧ Follows leaderId m (m.receiveHeartbeat leaderId term).1) := by
  unfold ElectionManager.receiveHeartbeat
  by_cases hterm : term < m.currentTerm
  · exact .inl ⟨hterm, by rw [if_pos hterm]⟩
  · rw [if_neg hterm]
    refine .inr ⟨not_lt.mp hterm, ?_⟩
    have hid : ∀ m₁ : ElectionManager, m₁ = (if m.currentTerm < term then
        { m with currentTerm := term, votedFor := none } else m) → m₁.nodeId = m.nodeId := by
      rintro m₁ rfl
      split <;> rfl
    simp only
    generalize (if m.currentTerm < term then
      { m with currentTerm := term, votedFor := none } else m) = m₁ at hid ⊢
    by_cases hnew : m₁.role ≠ .follower ∨ m₁.leaderId ≠ some leaderId
    · rw [if_pos hnew]
      exact ⟨hid m₁ rfl, rfl, rfl⟩
    · rw [if_neg hnew]
      rw [not_or, not_not, not_not] at hnew
      exact ⟨hid m₁ rfl, hnew.1, hnew.2⟩

theorem handleVoteRequest_cases (m : ElectionManager) (r : VoteRequest) :
    (r.term ≤ m.currentTerm ∧ Kept m (m.handleVoteRequest r).1) ∨
      (m.currentTerm < r.term ∧ (m.handleVoteRequest r).1.nodeId = m.nodeId ∧
        (m.handleVoteRequest r).1.role = .follower ∧
        (m.handleVoteRequest r).1.leaderId = m.leaderId) := by
  unfold ElectionManager.handleVoteRequest
  by_cases hold : r.term < m.currentTerm
  · rw [if_pos hold]
    exact .inl ⟨le_of_lt hold, rfl, rfl, rfl⟩
  · rw [if_neg hold]
    by_cases hnew : m.currentTerm < r.term
    · simp only [if_pos hnew]
      refine .inr ⟨hnew, ?_⟩
      split <;> exact ⟨rfl, rfl, rfl⟩
    · simp only [if_neg hnew]
      refine .inl ⟨not_lt.mp hnew, ?_⟩
      split <;> exact ⟨rfl, rfl, rfl⟩

/-- The log apart, an AppendEntries message is a heartbeat. -/
theorem kept_handleAppendEntries (m : ElectionManager) (r : AppendRequest) :
    Kept (m.receiveHeartbeat r.leaderId r.term).1 (m.handleAppendEntries r).1 := by
  unfold ElectionManager.handleAppendEntries
  by_cases hold : r.term < m.currentTerm
  · have hsame : (m.receiveHeartbeat r.leaderId r.term).1 = m := by
      unfold ElectionManager.receiveHeartbeat
      rw [if_pos hold]
    rw [if_pos hold, hsame]
    exact ⟨rfl, rfl, rfl⟩
  · rw [if_neg hold]
    simp only
    generalize (m.receiveHeartbeat r.leaderId r.term).1 = m₁
    split
    · exact ⟨rfl, rfl, rfl⟩
    · split
      · exact ⟨rfl, rfl, rfl⟩
      · split
        · unfold ElectionManager.advanceCommit
          split <;> exact ⟨rfl, rfl, rfl⟩
        · exact ⟨rfl, rfl, rfl⟩

theorem agrees_finishElection {m : ElectionManager} (h : Agrees m)
    (term votesReceived clusterSize : Nat) :
    Agrees (m.finishElection term votesReceived clusterSize) := by
  unfold ElectionManager.finishElection
  split
  · exact h
  · split
    · exact iff_of_true rfl rfl
    · exact h

theorem agrees_stepDown {m : ElectionManager} (h : Agrees m) : Agrees m.stepDown := by
  unfold ElectionManager.stepDown
  split
  · simp [Agrees]
  · exact h

/-- A message that makes the node follow `leaderId`, unless it is out of date. -/
theorem agrees_receiveHeartbeat_iff {m : ElectionManager} (h : Agrees m) (leaderId : String)
    (term : Nat) : Agrees (m.receiveHeartbeat leaderId term).1 ↔
      (leaderId = m.nodeId → term < m.currentTerm) := by
  rcases receiveHeartbeat_cases m leaderId term with ⟨hterm, hsame⟩ | ⟨hterm, hfollows⟩
  · rw [hsame]
    exact iff_of_true h fun _ => hterm
  · rw [hfollows.agrees_iff, ← not_le]
    exact ⟨fun hne heq => absurd heq hne, fun hkeeps heq => hkeeps heq hterm⟩

/-- **One event**: role and leader still agree exactly if the event keeps them. -/
theorem agrees_step_iff {s s' : State} {ev : ElectionEvent} (h : Agrees s.manager)
    (hs : step s ev = some s') : Agrees s'.manager ↔ Keeps s ev := by
  cases ev with
  | startElection =>
    simp only [step] at hs
    split at hs
    · cases hs
    · rename_i hfree
      rw [not_or] at hfree
      obtain rfl := Option.some.inj hs
      refine iff_of_true ?_ trivial
      simp only [Agrees, ElectionManager.startElection, reduceCtorEq, false_iff]
      exact mt h.mpr hfree.2
  | finishElection votesReceived clusterSize =>
    simp only [step] at hs
    split at hs
    · obtain rfl := Option.some.inj hs
      exact iff_of_true (agrees_finishElection h _ _ _) trivial
    · cases hs
  | heartbeat leaderId term =>
    simp only [step] at hs
    split at hs
    · rename_i hempty
      obtain rfl := Option.some.inj hs
      exact iff_of_true h fun _ => .inl hempty
    · rename_i hne
      obtain rfl := Option.some.inj hs
      rw [agrees_receiveHeartbeat_iff h]
      simp only [Keeps, hne, false_or]
  | voteRequest r =>
    obtain rfl := Option.some.inj hs
    rcases handleVoteRequest_cases s.manager r with ⟨hterm, hkept⟩ | ⟨hterm, hid, hrole, hleader⟩
    · exact iff_of_true (hkept.agrees_iff.mpr h) fun _ => hterm
    · simp only [Agrees, Keeps, hid, hrole, hleader, reduceCtorEq, false_iff]
      exact ⟨fun hnot hleads => absurd (h.mp hleads) hnot,
        fun hkeeps hleads => absurd (hkeeps (h.mpr hleads)) (not_le.mpr hterm)⟩
  | appendEntries r =>
    obtain rfl := Option.some.inj hs
    exact (kept_handleAppendEntries s.manager r).agrees_iff.trans
      (agrees_receiveHeartbeat_iff h r.leaderId r.term)
  | stepDown =>
    obtain rfl := Option.some.inj hs
    exact iff_of_true (agrees_stepDown h) trivial

/-- **Exactly when a node's role and its leader agree**: from the start of a node, in every
    sequence of election events, the node is LEADER if and only if its `leader_id` is its own id,
    and its own store decides a STRONG read only while it is LEADER, in all states that are
    reached, if and only if no event deposes it by a vote request or tells it that it leads. -/
theorem role_iff_leaderId {nodeId : String} {t : State} {evs : List ElectionEvent}
    (he : exec step ⟨{ nodeId := nodeId }, none⟩ evs = some t) :
    Each step (fun _ _ s =>
        (s.manager.role = .leader ↔ s.manager.leaderId = some s.manager.nodeId) ∧
          (ReadsOwn s.manager → s.manager.role = .leader)) ⟨{ nodeId := nodeId }, none⟩ evs ↔
      Along step Keeps ⟨{ nodeId := nodeId }, none⟩ evs := by
  have hstart : Agrees ({ nodeId := nodeId } : ElectionManager) := by simp [Agrees]
  rw [← each_inv_iff (I := fun s => Agrees s.manager) (fun s ev s' h hs => agrees_step_iff h hs)
    hstart he]
  constructor
  · exact Each.mono fun s ev s' h => h.1
  · exact Each.mono fun s ev s' h => ⟨h, fun hown => h.mpr ((readsOwn_iff _).mp hown).1⟩

/-! ### A deposed leader that reads its own store -/

/-- The node wins an election; a candidate with a greater term asks for its vote. -/
def deposed : List ElectionEvent :=
  [.startElection, .finishElection 2 3, .voteRequest ⟨"b", 2, 0, 0⟩]

theorem role_iff_leaderId_sample :
    Each step (fun _ _ s =>
        (s.manager.role = .leader ↔ s.manager.leaderId = some s.manager.nodeId) ∧
          (ReadsOwn s.manager → s.manager.role = .leader)) ⟨{ nodeId := "a" }, none⟩ deposed ↔
      Along step Keeps ⟨{ nodeId := "a" }, none⟩ deposed :=
  role_iff_leaderId (t := ⟨_, none⟩) rfl

/-- It is a follower then, and its STRONG reads come from its own store. -/
theorem deposed_reads_own :
    ∃ t, exec step ⟨{ nodeId := "a" }, none⟩ deposed = some t ∧
      t.manager.role = .follower ∧ t.manager.leaderId = some t.manager.nodeId ∧
      ReadsOwn t.manager := by
  refine ⟨_, rfl, rfl, rfl, (readsOwn_iff _).mpr ⟨rfl, ?_⟩⟩
  exact (by decide : "a" ≠ "")

end ElectionRole

end MiniDb
