/-
  One leader per term, in a cluster whose members all see each other and do not restart.

  The ballots are a history variable: who voted for whom in which term. A node's `votedFor` is its
  ballot in its current term, a campaign counts ballots of that term, and a leader was elected by
  a majority of ballots in its current term; ballots are only added.
-/
import MiniDb.Lib.Voting
import MiniDb.Cluster.Effects

namespace MiniDb

open Lib

namespace Cluster

variable {hash : String → Nat}

/-! ## What a step does to the election -/

/-- Two states of a node that agree on election and membership. -/
structure SameControl (n n' : Node) : Prop where
  config : n'.config = n.config
  election : n'.election = n.election
  membership : n'.membership = n.membership

theorem SameControl.refl (n : Node) : SameControl n n := ⟨rfl, rfl, rfl⟩

theorem SameControl.trans {n₁ n₂ n₃ : Node} (h : SameControl n₁ n₂) (h' : SameControl n₂ n₃) :
    SameControl n₁ n₃ :=
  ⟨h'.config.trans h.config, h'.election.trans h.election, h'.membership.trans h.membership⟩

/-- A step of the data path. -/
structure Data (s s' : Cluster) : Prop where
  nodes : ∀ n, SameControl (s.nodes n) (s'.nodes n)
  elections : s'.elections = s.elections
  sent : ∀ p ∈ s'.sent, IsElection p.2 → p ∈ s.sent

theorem Data.refl (s : Cluster) : Data s s := ⟨fun _ => SameControl.refl _, rfl, fun _ h _ => h⟩

theorem Data.trans {s₁ s₂ s₃ : Cluster} (h : Data s₁ s₂) (h' : Data s₂ s₃) : Data s₁ s₃ :=
  ⟨fun n => (h.nodes n).trans (h'.nodes n), h'.elections.trans h.elections,
    fun p hp he => h.sent p (h'.sent p hp he) he⟩

theorem data_setNode {s : Cluster} {n : String} {v : Node} (h : SameControl (s.nodes n) v) :
    Data s (s.setNode n v) :=
  ⟨rel_update SameControl.refl h, rfl, fun _ hp _ => hp⟩

theorem sameControl_storeUnlessOlder (now : Time) (n : Node) (u : Versioned) :
    SameControl n (n.storeUnlessOlder now u).1 := by
  unfold Node.storeUnlessOlder
  simp only
  split <;> exact ⟨rfl, rfl, rfl⟩

/-- Messages of the data path leave the election alone. -/
theorem sameControl_handleMessage (clock : Time) (n : Node) {m : Message} (h : ¬ IsElection m) :
    SameControl n (n.handleMessage clock m).1 := by
  cases m with
  | replicate e phase => cases phase <;> exact ⟨rfl, rfl, rfl⟩
  | replicaSet args =>
    rcases Replica.replicaSet_cases clock n (some args) with h | ⟨a, u, -, -, -, h⟩
    · exact (congrArg (SameControl n) h).mpr ⟨rfl, rfl, rfl⟩
    · exact (congrArg (SameControl n) h).mpr (sameControl_storeUnlessOlder clock n u)
  | voteRequest r => exact absurd trivial h
  | heartbeat leaderId term => exact absurd trivial h

theorem elections_send (clock : Time) (s : Cluster) (dest : String) (m : Message) (d : Delivery) :
    (s.send clock dest m d).1.elections = s.elections := by
  cases d <;> rfl

theorem data_send (clock : Time) (s : Cluster) (dest : String) {m : Message} (h : ¬ IsElection m)
    (d : Delivery) : Data s (s.send clock dest m d).1 := by
  refine ⟨rel_send SameControl.refl (sameControl_handleMessage clock _ h),
    elections_send clock s dest m d, fun p hp he => ?_⟩
  rcases mem_sent_send clock s dest m d hp with hp | rfl
  · exact hp
  · exact absurd he h

theorem data_replicate (clock : Time) (s : Cluster) (dest : String) (e : LogEntry)
    (phase : ReplicatePhase) (d : Delivery) :
    Data s (s.send clock dest (.replicate e phase) d).1 :=
  data_send clock s dest (by exact fun he => he) d

theorem data_setTask {s s' : Cluster} (h : Data s s') (n : String) (T : Option Task) :
    Data s (s'.setTask n T) :=
  ⟨h.nodes, h.elections, h.sent⟩

theorem data_log {s s' : Cluster} (h : Data s s') (es : List Event) : Data s (s'.log es) :=
  ⟨h.nodes, h.elections, h.sent⟩

theorem data_readFrom (clock : Time) (s : Cluster) (r key : String) (d : Delivery) :
    Data s (s.readFrom clock r key d).1 := by
  cases d with
  | unsent => exact Data.refl s
  | sent => exact Data.refl s
  | handled => exact data_setNode ⟨rfl, rfl, rfl⟩
  | answered => exact data_setNode ⟨rfl, rfl, rfl⟩

theorem data_repairWith (clock : Time) (s : Cluster) (n key target : String) (best : ReadResult)
    (d : Delivery) : Data s (s.repairWith clock n key target best d) := by
  unfold repairWith
  split
  · exact data_setNode (sameControl_storeUnlessOlder _ _ _)
  · exact data_send clock s target (by exact fun he => he) _

theorem elections_beginTask (s : Cluster) (n : String) (e : LogEntry) (replicas : List String)
    (start : WriteStart) : (s.beginTask n e replicas start).elections = s.elections := by
  cases start <;> rfl

theorem data_begun (s : Cluster) (i : Nat) (clock now : Time) (n : String) (w : WriteCall)
    (replicas : List String) : Data s (s.begun i clock now n w replicas) := by
  refine ⟨fun m => ?_, ?_, fun p hp _ => ?_⟩
  · rw [nodes_begun]
    refine rel_update SameControl.refl ?_ m
    unfold Node.beginWrite
    simp only
    split <;> exact ⟨rfl, rfl, rfl⟩
  · exact elections_beginTask _ n _ replicas _
  · unfold begun at hp
    rw [sent_beginTask] at hp
    exact hp

theorem data_prepared (s : Cluster) (clock : Time) (n : String) (e : LogEntry) (f : String)
    (d : Delivery) : Data s (s.prepared clock n e f d) := by
  have hsend := data_replicate clock s f e .prepare d
  unfold prepared
  simp only
  split
  · exact hsend.trans (data_setNode ⟨rfl, rfl, rfl⟩)
  · exact hsend

inductive ElectionStep (s : Cluster) : Label → Cluster → Prop where
  | data {l : Label} {s' : Cluster} (h : Data s s') : ElectionStep s l s'
  | campaigned {n : String} :
      ElectionStep s (.startElection n)
        ((s.setNode n
            { s.nodes n with election := (s.nodes n).election.startElection.1 }).setElection
          n (some (.campaign (s.nodes n).election.startElection.2 (s.others n) 1)))
  | polled {n f : String} {d : Delivery} {clock : Time} {r : VoteRequest} {rest : List String}
      {votes : Nat} (hc : s.elections n = some (.campaign r (f :: rest) votes)) :
      ElectionStep s (.requestVote n d clock)
        ((s.send clock f (.voteRequest r) d).1.setElection n (some (.campaign r rest
          (if (s.send clock f (.voteRequest r) d).2 then votes + 1 else votes))))
  | counted {n : String} {r : VoteRequest} {votes : Nat}
      (hc : s.elections n = some (.campaign r [] votes)) :
      ElectionStep s (.countVotes n)
        ((s.setNode n { s.nodes n with
          election := (s.nodes n).election.finishElection r.term votes
            (max 1 (s.nodes n).membership.nodeCount) }).setElection n none)
  | announcing {n : String} (T : Option ElectionTask)
      (hT : ∀ r rest votes, T ≠ some (.campaign r rest votes)) {l : Label} :
      ElectionStep s l (s.setElection n T)
  | announced {n f : String} {d : Delivery} {clock : Time} {rest : List String} :
      ElectionStep s (.heartbeat n d clock)
        ((s.send clock f (.heartbeat (s.nodes n).nodeId (s.nodes n).election.currentTerm)
          d).1.setElection n (some (.heartbeats rest)))
  | received {i : Nat} {clock : Time} {dest : String} {m : Message} (hm : IsElection m) :
      ElectionStep s (.deliver i clock) (s.receive clock dest m).1
  | steppedDown {n : String} : ElectionStep s (.stepDown n)
      (s.setNode n { s.nodes n with election := (s.nodes n).election.stepDown })
  | restarted {n : String} {store : KVStore} {aof : List AofEntry} {membership : MembershipManager}
      {ring : ConsistentHashRing} {s' : Cluster} :
      ElectionStep s (.restart n store aof membership ring) s'
  | moved {n : String} {membership : MembershipManager} {ring : ConsistentHashRing} :
      ElectionStep s (.topology n membership ring)
        (s.setNode n { s.nodes n with membership := membership, ring := ring })

/-- **What a step can do to the election.** -/
theorem election_step {s s' : Cluster} {l : Label} (h : step hash s l = some s') :
    ElectionStep s l s' := by
  cases l with
  | startElection n =>
    simp only [step] at h
    split at h
    · cases h
    · cases h
      exact .campaigned
  | requestVote n d clock =>
    simp only [step] at h
    split at h
    · rename_i hc
      cases h
      exact .polled hc
    · cases h
  | countVotes n =>
    simp only [step] at h
    split at h
    · rename_i hc
      cases h
      exact .counted hc
    · cases h
  | startHeartbeats n =>
    simp only [step] at h
    split at h
    · cases h
    · cases h
      exact .announcing _ fun _ _ _ hT => by cases hT
  | heartbeat n d clock =>
    simp only [step] at h
    split at h
    · cases h
      exact .announced
    · cases h
  | endHeartbeats n =>
    simp only [step] at h
    split at h
    · cases h
      exact .announcing _ fun _ _ _ hT => by cases hT
    · cases h
  | stepDown n =>
    simp only [step, Option.some.injEq] at h
    subst h
    exact .steppedDown
  | topology n membership ring =>
    simp only [step, Option.some.injEq] at h
    subst h
    exact .moved
  | restart n store aof membership ring => exact .restarted
  | deliver i clock =>
    simp only [step] at h
    split at h
    · rename_i dest m hm
      cases h
      by_cases he : IsElection m
      · exact .received he
      · exact .data (data_log (data_setNode (sameControl_handleMessage clock _ he)) _)
    · cases h
  | call n w =>
    simp only [step] at h
    split at h
    · cases h
      exact .data (data_log (Data.refl s) _)
    · cases h
      exact .data ⟨fun _ => SameControl.refl _, rfl, fun _ hp _ => hp⟩
  | begin i clock now =>
    simp only [step] at h
    split at h
    · cases h
    · split at h
      · cases h
      · cases h
        exact .data (data_begun s i clock now _ _ _)
  | prepare n d clock =>
    simp only [step] at h
    split at h
    · cases h
      exact .data (data_setTask (data_prepared s clock n _ _ _) n _)
    · cases h
  | endPrepare n =>
    simp only [step] at h
    split at h
    · split at h
      · cases h
        exact .data (data_setTask (data_setNode (by exact ⟨rfl, rfl, rfl⟩)) n _)
      · cases h
        exact .data (data_log (data_setTask (data_setNode (by exact ⟨rfl, rfl, rfl⟩)) n _) _)
    · cases h
  | commit n d clock =>
    simp only [step] at h
    split at h
    · cases h
      exact .data (data_setTask (data_replicate clock s _ _ _ _) n _)
    · cases h
  | settle n clock =>
    simp only [step] at h
    split at h
    · cases h
      refine .data (data_log (data_setTask (data_setNode ?_) n _) _)
      unfold Node.settleWrite
      split <;> exact ⟨rfl, rfl, rfl⟩
    · cases h
  | async n d clock =>
    simp only [step] at h
    split at h
    · cases h
    · cases h
      exact .data (data_setNode ⟨rfl, rfl, rfl⟩)
    · cases h
      exact .data ((data_setNode (by exact ⟨rfl, rfl, rfl⟩)).trans
        (data_replicate clock _ _ _ _ _))
  | get n key level =>
    simp only [step] at h
    split at h
    · cases h
    · cases h
      exact .data (data_setTask (Data.refl s) n _)
  | answer n r d clock =>
    simp only [step] at h
    split at h
    · split at h
      · cases h
      · cases h
        exact .data (data_setTask (data_readFrom clock s r _ _) n _)
    · cases h
  | conclude n finished =>
    simp only [step] at h
    split at h
    · split at h
      · cases h
        exact .data (data_setTask (Data.refl s) n _)
      · cases h
    · cases h
  | repair n d clock =>
    simp only [step] at h
    split at h
    · cases h
      exact .data (data_setTask (data_repairWith clock s n _ _ _ d) n _)
    · cases h
  | endGet n =>
    simp only [step] at h
    split at h
    · cases h
      exact .data (data_log (data_setTask (Data.refl s) n _) _)
    · cases h
  | cleanup n clock =>
    simp only [step, Option.some.injEq] at h
    subst h
    exact .data (data_setNode ⟨rfl, rfl, rfl⟩)

/-! ## Votes -/

/-- The votes of a node are its ballots, up to its current term. -/
structure Votes (b : Ballots String) (v : String) (m : ElectionManager) : Prop where
  voted : m.votedFor = b.vote v m.currentTerm
  above : ∀ t, m.currentTerm < t → b.vote v t = none

/-- A campaign of `n` counts ballots of members, each once. -/
structure Polls (b : Ballots String) (members : Finset String) (n : String) (r : VoteRequest)
    (rest : List String) (votes : Nat) : Prop where
  member : n ∈ members
  candidate : r.candidateId = n
  restNodup : rest.Nodup
  restMember : ∀ v ∈ rest, v ∈ members
  counted : ∃ voters ⊆ members, voters.card = votes ∧ (∀ v ∈ rest, v ∉ voters) ∧
    ∀ v ∈ voters, b.vote v r.term = some n

/-- What the members' elections look like at any moment. -/
structure Electing (members : Finset String) (b : Ballots String) (s : Cluster) : Prop where
  ids : ∀ n, (s.nodes n).nodeId = n ∧ (s.nodes n).election.nodeId = n
  views : ∀ n ∈ members, (s.nodes n).membership.aliveIds.toFinset = members
  votes : ∀ n, Votes b n (s.nodes n).election
  polls : ∀ n r rest k, s.elections n = some (.campaign r rest k) → Polls b members n r rest k
  leaders : ∀ n, (s.nodes n).election.role = .leader →
    Elected b members (s.nodes n).election.currentTerm n

theorem Polls.mono {b b' : Ballots String} {members : Finset String} {n : String} {r : VoteRequest}
    {rest : List String} {k : Nat} (hb : b ≤ b') (h : Polls b members n r rest k) :
    Polls b' members n r rest k := by
  obtain ⟨voters, hsub, hcard, hrest, hvote⟩ := h.counted
  exact ⟨h.member, h.candidate, h.restNodup, h.restMember,
    voters, hsub, hcard, hrest, fun v hv => hb v _ _ (hvote v hv)⟩

/-- A ballot of another node does not matter. -/
theorem Votes.cast {b : Ballots String} {u v : String} {m : ElectionManager} (h : Votes b u m)
    (hne : u ≠ v) (t : Nat) (c : String) : Votes (b.cast v t c) u m :=
  ⟨h.voted.trans (b.vote_cast_of_ne c (.inl hne)).symm,
    fun t' ht => (b.vote_cast_of_ne c (.inl hne)).trans (h.above t' ht)⟩

/-- A node votes in the term it is in. -/
theorem votes_cast {b : Ballots String} {v c : String} {t : Nat} {m : ElectionManager}
    (ht : m.currentTerm = t) (hm : m.votedFor = some c)
    (habove : ∀ t', t < t' → b.vote v t' = none) : Votes (b.cast v t c) v m := by
  subst ht
  exact ⟨hm.trans (b.vote_cast_self v _ c).symm,
    fun t ht => (b.vote_cast_of_ne c (.inr (Nat.ne_of_gt ht))).trans (habove t ht)⟩

/-! ### The handlers -/

/-- What a handler at `v` may do: add ballots of `v`, and make it a leader only when elected. -/
structure Moves (members : Finset String) (b b' : Ballots String) (v : String)
    (m m' : ElectionManager) : Prop where
  grows : b ≤ b'
  others : ∀ u, u ≠ v → b'.vote u = b.vote u
  votes : Votes b' v m'
  nodeId : m'.nodeId = m.nodeId
  leads : m'.role = .leader → m.role = .leader ∨ Elected b' members m'.currentTerm v
  kept : m.role = .leader → m'.role = .leader → m'.currentTerm = m.currentTerm

section Handlers

variable {members : Finset String} {b : Ballots String} {v : String} {m : ElectionManager}

theorem others_cast (b : Ballots String) (v : String) (t : Nat) (c : String) (u : String)
    (h : u ≠ v) : (b.cast v t c).vote u = b.vote u :=
  funext fun _ => b.vote_cast_of_ne c (.inl h)

/-- A handler that changes neither vote nor term, nor makes a leader. -/
theorem moves_same (h : Votes b v m) {m' : ElectionManager} (hid : m'.nodeId = m.nodeId)
    (hvote : m'.votedFor = m.votedFor) (hterm : m'.currentTerm = m.currentTerm)
    (hrole : m'.role = .leader → m.role = .leader) : Moves members b b v m m' :=
  ⟨le_refl b, fun _ _ => rfl,
    ⟨by rw [hvote, hterm]; exact h.voted, by rw [hterm]; exact h.above⟩, hid,
    fun hl => .inl (hrole hl), fun _ _ => hterm⟩

variable (members) in
theorem moves_startElection (h : Votes b v m) (hid : m.nodeId = v) :
    Moves members b (b.cast v (m.currentTerm + 1) v) v m m.startElection.1 := by
  have hnew := h.above (m.currentTerm + 1) (Nat.lt_succ_self _)
  refine ⟨Ballots.le_cast (.inl hnew), others_cast b v _ v, ?_, rfl, fun hl => ?_, fun _ hl => ?_⟩
  · have hvote : m.startElection.1.votedFor = some v := congrArg some hid
    exact votes_cast rfl hvote fun t ht => h.above t ((Nat.lt_succ_self _).trans ht)
  · cases hl
  · cases hl

theorem moves_stepDown (h : Votes b v m) : Moves members b b v m m.stepDown := by
  unfold ElectionManager.stepDown
  split
  · exact moves_same h rfl rfl rfl fun hl => by cases hl
  · exact moves_same h rfl rfl rfl id

/-- Entering a later term without a vote in it. -/
theorem votes_later (h : Votes b v m) {m' : ElectionManager} (hvote : m'.votedFor = none)
    (hterm : m.currentTerm < m'.currentTerm) : Votes b v m' :=
  ⟨hvote.trans (h.above _ hterm).symm, fun t ht => h.above t (hterm.trans ht)⟩

theorem moves_receiveHeartbeat (h : Votes b v m) (leaderId : String) (term : Nat) :
    Moves members b b v m (m.receiveHeartbeat leaderId term).1 := by
  unfold ElectionManager.receiveHeartbeat
  split
  · exact moves_same h rfl rfl rfl id
  rename_i hterm
  by_cases hlater : m.currentTerm < term
  · simp only [hlater, if_true]
    split
    · exact ⟨le_refl b, fun _ _ => rfl, votes_later h rfl hlater, rfl,
        fun hl => (by cases hl), fun _ hl => by cases hl⟩
    · rename_i hrole
      have hfollower : m.role = .follower := by
        by_contra hne
        exact hrole (.inl hne)
      refine ⟨le_refl b, fun _ _ => rfl, votes_later h rfl hlater, rfl, .inl, fun hl => ?_⟩
      rw [hfollower] at hl
      cases hl
  · simp only [hlater, if_false]
    split
    · exact moves_same h rfl rfl rfl fun hl => by cases hl
    · exact moves_same h rfl rfl rfl id

/-- A granted vote is a ballot. -/
theorem moves_handleVoteRequest (h : Votes b v m) (r : VoteRequest) :
    ∃ b', Moves members b b' v m (m.handleVoteRequest r).1 ∧
      ((m.handleVoteRequest r).2.2 = true → b'.vote v r.term = some r.candidateId) := by
  unfold ElectionManager.handleVoteRequest
  split
  · exact ⟨b, moves_same h rfl rfl rfl id, fun hg => by cases hg⟩
  rename_i hterm
  by_cases hlater : m.currentTerm < r.term
  · simp only [hlater, if_true]
    split
    · have hnew := h.above _ hlater
      refine ⟨b.cast v r.term r.candidateId, ⟨Ballots.le_cast (.inl hnew),
        others_cast b v _ _, votes_cast rfl rfl fun t ht => h.above t (hlater.trans ht), rfl,
        fun hl => (by cases hl), fun _ hl => by cases hl⟩, fun _ => b.vote_cast_self v _ _⟩
    · exact ⟨b, ⟨le_refl b, fun _ _ => rfl, votes_later h rfl hlater, rfl,
        fun hl => (by cases hl), fun _ hl => by cases hl⟩, fun hg => by cases hg⟩
  · simp only [hlater, if_false]
    have hsame : m.currentTerm = r.term := by omega
    split
    · rename_i hc
      have hvote : b.vote v m.currentTerm = none ∨
          b.vote v m.currentTerm = some r.candidateId := h.voted ▸ hc.1
      refine ⟨b.cast v m.currentTerm r.candidateId, ⟨Ballots.le_cast hvote,
        others_cast b v _ _, votes_cast rfl rfl h.above, rfl, .inl, fun _ _ => rfl⟩, fun _ => ?_⟩
      rw [← hsame]
      exact b.vote_cast_self v _ _
    · exact ⟨b, moves_same h rfl rfl rfl id, fun hg => by cases hg⟩

/-- A campaign that has counted a majority elects its candidate. -/
theorem moves_finishElection (h : Votes b v m) {r : VoteRequest} {rest : List String} {k size : Nat}
    (hp : Polls b members v r rest k) (hsize : members.card ≤ size) :
    Moves members b b v m (m.finishElection r.term k size) := by
  unfold ElectionManager.finishElection
  split
  · exact moves_same h rfl rfl rfl id
  rename_i hcurrent
  rw [not_or, not_not, not_not] at hcurrent
  split
  · rename_i hk
    refine ⟨le_refl b, fun _ _ => rfl, ⟨h.voted, h.above⟩, rfl, fun _ => .inr ?_, fun _ _ => rfl⟩
    obtain ⟨voters, hsub, hcard, -, hvote⟩ := hp.counted
    refine ⟨voters, hsub, by omega, fun u hu => ?_⟩
    rw [show m.becomeLeader.currentTerm = r.term from hcurrent.2]
    exact hvote u hu
  · exact moves_same h rfl rfl rfl id

end Handlers

/-! ### The steps -/

/-- A node that stays leader stays in its term. -/
def KeepsTerms (s s' : Cluster) : Prop :=
  ∀ n, (s.nodes n).election.role = .leader → (s'.nodes n).election.role = .leader →
    (s'.nodes n).election.currentTerm = (s.nodes n).election.currentTerm

section Run

variable {members : Finset String} {b : Ballots String} {s : Cluster}

/-- Only the election states, the views and the campaigns matter. -/
theorem Electing.of_same {s' : Cluster} (h : Electing members b s)
    (hn : ∀ n, (s'.nodes n).config = (s.nodes n).config ∧
      (s'.nodes n).election = (s.nodes n).election)
    (hv : ∀ n ∈ members, (s'.nodes n).membership.aliveIds.toFinset = members)
    (he : s'.elections = s.elections) : Electing members b s' := by
  have hid : ∀ n, (s'.nodes n).nodeId = (s.nodes n).nodeId := fun n =>
    congrArg NodeConfig.nodeId (hn n).1
  refine ⟨fun n => ?_, hv, fun n => ?_, fun n r rest k hc => ?_, fun n hl => ?_⟩
  · rw [hid, (hn n).2]
    exact h.ids n
  · rw [(hn n).2]
    exact h.votes n
  · rw [he] at hc
    exact h.polls n r rest k hc
  · rw [(hn n).2] at hl ⊢
    exact h.leaders n hl

theorem Electing.data {s' : Cluster} (h : Electing members b s) (hd : Data s s') :
    Electing members b s' :=
  h.of_same (fun n => ⟨(hd.nodes n).config, (hd.nodes n).election⟩)
    (fun n hn => (congrArg (fun m => m.aliveIds.toFinset) (hd.nodes n).membership).trans
      (h.views n hn)) hd.elections

theorem Data.keepsTerms {s' : Cluster} (hd : Data s s') : KeepsTerms s s' := fun n _ _ =>
  congrArg ElectionManager.currentTerm (hd.nodes n).election

/-- A handler runs at `v`. -/
theorem Electing.setElection {v : String} {m : ElectionManager} {b' : Ballots String}
    (h : Electing members b s) (hm : Moves members b b' v (s.nodes v).election m) :
    Electing members b' (s.setNode v { s.nodes v with election := m }) ∧
      KeepsTerms s (s.setNode v { s.nodes v with election := m }) := by
  have hself : (s.setNode v { s.nodes v with election := m }).nodes v =
      { s.nodes v with election := m } := Function.update_self _ _ _
  have hother : ∀ n, n ≠ v → (s.setNode v { s.nodes v with election := m }).nodes n =
      s.nodes n := fun n hn => Function.update_of_ne hn _ _
  constructor
  · refine ⟨fun n => ?_, fun n hn => ?_, fun n => ?_, fun n r rest k hc => ?_, fun n hl => ?_⟩
    · by_cases hn : n = v
      · subst hn
        rw [hself]
        exact ⟨(h.ids n).1, hm.nodeId.trans (h.ids n).2⟩
      · rw [hother n hn]
        exact h.ids n
    · by_cases hv : n = v
      · subst hv
        rw [hself]
        exact h.views n hn
      · rw [hother n hv]
        exact h.views n hn
    · by_cases hn : n = v
      · subst hn
        rw [hself]
        exact hm.votes
      · rw [hother n hn]
        exact ⟨by rw [hm.others n hn]; exact (h.votes n).voted,
          by rw [hm.others n hn]; exact (h.votes n).above⟩
    · exact (h.polls n r rest k hc).mono hm.grows
    · by_cases hn : n = v
      · subst hn
        rw [hself] at hl ⊢
        by_cases hlead : (s.nodes n).election.role = .leader
        · rw [show ({ s.nodes n with election := m } : Node).election = m from rfl,
            hm.kept hlead hl]
          exact (h.leaders n hlead).mono hm.grows
        · rcases hm.leads hl with hl | hl
          · exact absurd hl hlead
          · exact hl
      · rw [hother n hn] at hl ⊢
        exact (h.leaders n hl).mono hm.grows
  · intro n hl hl'
    by_cases hn : n = v
    · subst hn
      rw [hself] at hl' ⊢
      exact hm.kept hl hl'
    · rw [hother n hn]

/-- What one step does: ballots are added, and the leaders were elected. -/
def Advances (members : Finset String) (b : Ballots String) (s s' : Cluster) : Prop :=
  ∃ b', b ≤ b' ∧ Electing members b' s' ∧ KeepsTerms s s'

theorem Electing.advances_data {s' : Cluster} (h : Electing members b s) (hd : Data s s') :
    Advances members b s s' :=
  ⟨b, le_refl b, h.data hd, hd.keepsTerms⟩

theorem Electing.advances_setElection {v : String} {m : ElectionManager} {b' : Ballots String}
    (h : Electing members b s) (hm : Moves members b b' v (s.nodes v).election m) :
    Advances members b s (s.setNode v { s.nodes v with election := m }) :=
  ⟨b', hm.grows, (h.setElection hm).1, (h.setElection hm).2⟩

/-- What the election thread of a node does next. -/
theorem Electing.setTask (h : Electing members b s) (n : String) {T : Option ElectionTask}
    (hT : ∀ r rest k, T = some (.campaign r rest k) → Polls b members n r rest k) :
    Electing members b (s.setElection n T) := by
  refine ⟨h.ids, h.views, h.votes, fun m r rest k hc => ?_, h.leaders⟩
  simp only [Cluster.setElection, Function.update_apply] at hc
  split at hc
  · rename_i hm
    subst hm
    exact hT r rest k hc
  · exact h.polls m r rest k hc

/-- An election message is handled; if it is a vote request and granted, the vote is cast. -/
theorem Electing.receive (h : Electing members b s) (clock : Time) (dest : String) {m : Message}
    (hm : IsElection m) : ∃ b', b ≤ b' ∧ Electing members b' (s.receive clock dest m).1 ∧
      KeepsTerms s (s.receive clock dest m).1 ∧
      ∀ r, m = .voteRequest r → (s.receive clock dest m).2 = true →
        b'.vote dest r.term = some r.candidateId := by
  cases m with
  | replicate e phase => exact absurd hm fun he => he
  | replicaSet args => exact absurd hm fun he => he
  | voteRequest r =>
    obtain ⟨b', hmoves, hgranted⟩ := moves_handleVoteRequest (h.votes dest) r
    obtain ⟨helect, hkept⟩ := h.setElection hmoves
    refine ⟨b', hmoves.grows, ⟨helect.ids, helect.views, helect.votes, helect.polls,
      helect.leaders⟩, hkept, fun r' hr => ?_⟩
    cases hr
    exact hgranted
  | heartbeat leaderId term =>
    by_cases hid : leaderId = ""
    · have hsame : Data s (s.receive clock dest (.heartbeat leaderId term)).1 := by
        refine data_log (data_setNode ?_) _
        simp only [Node.handleMessage, hid, if_true]
        exact SameControl.refl _
      exact ⟨b, le_refl b, h.data hsame, hsame.keepsTerms, fun r hr => by cases hr⟩
    · have hnode : ((s.nodes dest).handleMessage clock (.heartbeat leaderId term)).1 =
          { s.nodes dest with
            election := ((s.nodes dest).election.receiveHeartbeat leaderId term).1 } := by
        simp only [Node.handleMessage, hid, if_false]
      obtain ⟨helect, hkept⟩ :=
        h.setElection (moves_receiveHeartbeat (h.votes dest) leaderId term)
      rw [← hnode] at helect hkept
      exact ⟨b, le_refl b, ⟨helect.ids, helect.views, helect.votes, helect.polls,
        helect.leaders⟩, hkept, fun r hr => by cases hr⟩

/-- The same for a message that is sent. -/
theorem Electing.send (h : Electing members b s) (clock : Time) (dest : String) {m : Message}
    (hm : IsElection m) (d : Delivery) : ∃ b', b ≤ b' ∧
      Electing members b' (s.send clock dest m d).1 ∧ KeepsTerms s (s.send clock dest m d).1 ∧
      ∀ r, m = .voteRequest r → (s.send clock dest m d).2 = true →
        b'.vote dest r.term = some r.candidateId := by
  have hrecord : Electing members b (s.record dest m) :=
    ⟨h.ids, h.views, h.votes, h.polls, h.leaders⟩
  cases d with
  | unsent => exact ⟨b, le_refl b, h, fun _ _ _ => rfl, fun r _ hs => by cases hs⟩
  | sent => exact ⟨b, le_refl b, hrecord, fun _ _ _ => rfl, fun r _ hs => by cases hs⟩
  | handled =>
    obtain ⟨b', hb, helect, hkept, -⟩ := hrecord.receive clock dest hm
    exact ⟨b', hb, helect, hkept, fun r _ hs => by cases hs⟩
  | answered => exact hrecord.receive clock dest hm

/-- The alive nodes other than the candidate. -/
theorem mem_others {n v : String} : v ∈ s.others n ↔
    v ∈ (s.nodes n).membership.aliveIds ∧ v ≠ (s.nodes n).nodeId := by
  unfold others
  rw [List.mem_filter, decide_eq_true_eq]

theorem card_view (h : Electing members b s) {n : String} (hn : n ∈ members) :
    (s.nodes n).membership.nodeCount = members.card := by
  rw [← h.views n hn, List.toFinset_card_of_nodup (s.nodes n).membership.nodup_aliveIds]
  exact (List.length_map _).symm

end Run

/-- The members see each other, nobody restarts, and only members stand for election. -/
def Stable (members : Finset String) (_ : Cluster) : Label → Prop
  | .restart .. => False
  | .startElection n => n ∈ members
  | .topology n membership _ => n ∈ members → membership.aliveIds.toFinset = members
  | _ => True

/-- **The step lemma.** -/
theorem electing_step {members : Finset String} {b : Ballots String} {s s' : Cluster} {l : Label}
    (h : Electing members b s) (hl : Stable members s l) (hs : step hash s l = some s') :
    Advances members b s s' := by
  cases election_step hs with
  | data hd => exact h.advances_data hd
  | @campaigned n =>
    have hmoves := moves_startElection members (h.votes n) (h.ids n).2
    obtain ⟨helect, hkept⟩ := h.setElection hmoves
    refine ⟨_, hmoves.grows, helect.setTask n fun r rest k hT => ?_, hkept⟩
    simp only [ElectionManager.startElection, Option.some.injEq, ElectionTask.campaign.injEq] at hT
    obtain ⟨rfl, rfl, rfl⟩ := hT
    refine ⟨hl, (h.ids n).2, (s.nodes n).membership.nodup_aliveIds.filter _, fun v hv => ?_, {n},
      Finset.singleton_subset_iff.mpr hl, Finset.card_singleton n, fun v hv => ?_, fun v hv => ?_⟩
    · rw [← h.views n hl]
      exact List.mem_toFinset.mpr (mem_others.mp hv).1
    · rw [Finset.mem_singleton]
      exact fun hvn => (mem_others.mp hv).2 (hvn.trans (h.ids n).1.symm)
    · rw [Finset.mem_singleton.mp hv]
      exact b.vote_cast_self n _ n
  | @polled n f d clock r rest k hc =>
    have hpolls := h.polls n r _ k hc
    have hm : IsElection (.voteRequest r) := trivial
    obtain ⟨b', hb, helect, hkept, hgranted⟩ := h.send clock f hm d
    refine ⟨b', hb, helect.setTask n fun r' rest' k' hT => ?_, hkept⟩
    rw [Option.some.injEq, ElectionTask.campaign.injEq] at hT
    obtain ⟨rfl, rfl, rfl⟩ := hT
    have hnodup := List.nodup_cons.mp hpolls.restNodup
    obtain ⟨voters, hsub, hcard, hrest, hvote⟩ := hpolls.counted
    refine ⟨hpolls.member, hpolls.candidate, hnodup.2,
      fun v hv => hpolls.restMember v (List.mem_cons_of_mem f hv), ?_⟩
    split
    · rename_i hok
      have hf := hrest f List.mem_cons_self
      refine ⟨insert f voters, Finset.insert_subset (hpolls.restMember f List.mem_cons_self) hsub,
        by rw [Finset.card_insert_of_notMem hf, hcard], fun v hv => ?_, fun v hv => ?_⟩
      · rw [Finset.mem_insert, not_or]
        exact ⟨fun hvf => hnodup.1 (hvf ▸ hv), hrest v (List.mem_cons_of_mem f hv)⟩
      · rcases Finset.mem_insert.mp hv with rfl | hv
        · rw [hgranted r rfl hok, hpolls.candidate]
        · exact hb v _ _ (hvote v hv)
    · exact ⟨voters, hsub, hcard, fun v hv => hrest v (List.mem_cons_of_mem f hv),
        fun v hv => hb v _ _ (hvote v hv)⟩
  | @counted n r k hc =>
    have hpolls := h.polls n r _ k hc
    have hsize : members.card ≤ max 1 (s.nodes n).membership.nodeCount := by
      rw [card_view h hpolls.member]
      exact le_max_right _ _
    obtain ⟨helect, hkept⟩ := h.setElection (moves_finishElection (h.votes n) hpolls hsize)
    exact ⟨b, le_refl b, helect.setTask n fun r rest k hT => (by cases hT), hkept⟩
  | announcing T hT =>
    exact ⟨b, le_refl b, h.setTask _ fun r rest k hc => absurd hc (hT r rest k), fun _ _ _ => rfl⟩
  | @announced n f d clock rest =>
    have hm : IsElection (.heartbeat (s.nodes n).nodeId (s.nodes n).election.currentTerm) := trivial
    obtain ⟨b', hb, helect, hkept, -⟩ := h.send clock f hm d
    exact ⟨b', hb, helect.setTask n fun r rest k hT => (by cases hT), hkept⟩
  | received hm =>
    obtain ⟨b', hb, helect, hkept, -⟩ := h.receive _ _ hm
    exact ⟨b', hb, helect, hkept⟩
  | steppedDown => exact h.advances_setElection (moves_stepDown (h.votes _))
  | restarted => exact absurd hl fun hl => hl
  | @moved n membership ring =>
    have hn : ∀ m, ((s.setNode n { s.nodes n with membership := membership, ring := ring }).nodes
        m).config = (s.nodes m).config ∧ ((s.setNode n { s.nodes n with
          membership := membership, ring := ring }).nodes m).election = (s.nodes m).election :=
      rel_update (R := fun v v' => v'.config = v.config ∧ v'.election = v.election)
        (fun _ => ⟨rfl, rfl⟩) ⟨rfl, rfl⟩
    refine ⟨b, le_refl b, h.of_same hn (fun m hm => ?_) rfl, fun m _ _ =>
      congrArg ElectionManager.currentTerm (hn m).2⟩
    by_cases hmn : m = n
    · subst hmn
      simp only [setNode, Function.update_self]
      exact hl hm
    · simp only [setNode, Function.update_of_ne hmn]
      exact h.views m hm

/-! ## Runs -/

/-- Processes that have just started and see each other. -/
structure Assembled (members : Finset String) (s : Cluster) : Prop where
  ids : ∀ n, (s.nodes n).nodeId = n
  elections : ∀ n, (s.nodes n).election = { nodeId := n }
  idle : ∀ n, s.elections n = none
  views : ∀ n ∈ members, (s.nodes n).membership.aliveIds.toFinset = members

/-- The step makes `n` leader of term `t`. -/
def BecomesLeader (n : String) (t : Nat) (s : Cluster) (_ : Label) (s' : Cluster) : Prop :=
  (s.nodes n).election.role ≠ .leader ∧ (s'.nodes n).election.role = .leader ∧
    (s'.nodes n).election.currentTerm = t

theorem electing_assembled {members : Finset String} {s : Cluster} (h : Assembled members s) :
    Electing members Ballots.empty s := by
  refine ⟨fun n => ⟨h.ids n, ?_⟩, h.views, fun n => ?_, fun n r rest k hc => ?_, fun n hl => ?_⟩
  · rw [h.elections]
  · rw [h.elections]
    exact ⟨rfl, fun _ _ => rfl⟩
  · rw [h.idle n] at hc
    cases hc
  · rw [h.elections] at hl
    cases hl

/-- The ballots of a whole run: all of its leaders were elected by them. -/
theorem ballots_of_run {members : Finset String} {s t : Cluster} {ls : List Label}
    (h : Assembled members s) (hl : Along (step hash) (Stable members) s ls)
    (he : exec (step hash) s ls = some t) :
    ∃ b, Each (step hash) (fun s _ s' => KeepsTerms s s' ∧ ∀ n,
      (s'.nodes n).election.role = .leader →
        Elected b members (s'.nodes n).election.currentTerm n) s ls := by
  obtain ⟨b, -, -, heach⟩ := exec_history (I := Electing members)
    (Q := fun s _ s' b => KeepsTerms s s' ∧ ∀ n, (s'.nodes n).election.role = .leader →
      Elected b members (s'.nodes n).election.currentTerm n)
    (fun b s l s' hinv hP hs => by
      obtain ⟨b', hb, hinv', hkept⟩ := electing_step hinv hP hs
      exact ⟨b', hb, hinv', hkept, hinv'.leaders⟩)
    (fun _ _ _ _ _ hb hQ => ⟨hQ.1, fun n hn => (hQ.2 n hn).mono hb⟩)
    (electing_assembled h) hl he
  exact ⟨b, heach⟩

/-- A leader became one in its current term, unless it was one from the start. -/
theorem leader_became {s t : Cluster} {ls : List Label}
    (hkeep : Each (step hash) (fun s _ s' => KeepsTerms s s') s ls)
    (he : exec (step hash) s ls = some t) {n : String} (hn : (t.nodes n).election.role = .leader) :
    ((s.nodes n).election.role = .leader ∧
        (t.nodes n).election.currentTerm = (s.nodes n).election.currentTerm) ∨
      Occurs (step hash) (BecomesLeader n (t.nodes n).election.currentTerm) s ls := by
  induction ls generalizing s with
  | nil =>
    rw [exec_nil, Option.some.injEq] at he
    subst he
    exact .inl ⟨hn, rfl⟩
  | cons l ls ih =>
    obtain ⟨s₁, h₁, h₂⟩ := exec_cons.mp he
    obtain ⟨hstep, hrest⟩ := hkeep s₁ h₁
    rcases ih hrest h₂ with ⟨hlead, hterm⟩ | ho
    · by_cases hs : (s.nodes n).election.role = .leader
      · exact .inl ⟨hs, hterm.trans (hstep n hs hlead)⟩
      · exact .inr ⟨s₁, h₁, .inl ⟨hs, hlead, hterm.symm⟩⟩
    · exact .inr ⟨s₁, h₁, .inr ho⟩

/-- **One leader per term.** In every run, two nodes that become leader in one term are the same,
    a node that stays leader stays in its term, and a leader became one in its current term. -/
theorem one_leader_per_term {members : Finset String} {s t : Cluster} {ls : List Label}
    (h : Assembled members s) (hl : Along (step hash) (Stable members) s ls)
    (he : exec (step hash) s ls = some t) :
    (∀ T n n', Occurs (step hash) (BecomesLeader n T) s ls →
      Occurs (step hash) (BecomesLeader n' T) s ls → n = n') ∧
    Each (step hash) (fun s _ s' => KeepsTerms s s') s ls ∧
    ∀ n, (t.nodes n).election.role = .leader →
      Occurs (step hash) (BecomesLeader n (t.nodes n).election.currentTerm) s ls := by
  obtain ⟨b, heach⟩ := ballots_of_run h hl he
  have hkeep := heach.mono fun _ _ _ hQ => hQ.1
  refine ⟨fun T n n' ho ho' => ?_, hkeep, fun n hn => ?_⟩
  · obtain ⟨_, _, s₁, ⟨-, hlead, hterm⟩, hQ⟩ := heach.of_occurs ho
    obtain ⟨_, _, s₂, ⟨-, hlead', hterm'⟩, hQ'⟩ := heach.of_occurs ho'
    have hn := hQ.2 n hlead
    have hn' := hQ'.2 n' hlead'
    rw [hterm] at hn
    rw [hterm'] at hn'
    exact hn.unique hn'
  · rcases leader_became hkeep he hn with ⟨hlead, -⟩ | ho
    · rw [h.elections] at hlead
      cases hlead
    · exact ho

/-- Two elections among the nodes of `sample`: "a" wins the first, "b" the second. -/
def sampleElections : List Label := electionOf "a" "b" "c" ++ electionOf "b" "c" "a"

theorem stable_electionOf {members : Finset String} {n : String} (hn : n ∈ members)
    {f lost : String} (s : Cluster) {l : Label} (hl : l ∈ electionOf n f lost) :
    Stable members s l := by
  unfold electionOf at hl
  split at hl
  all_goals
    simp only [List.cons_append, List.nil_append, List.mem_cons, List.not_mem_nil, or_false] at hl
    rcases hl with rfl | rfl | rfl | rfl | rfl | rfl | rfl | rfl
    · exact hn
    all_goals trivial

theorem one_leader_per_term_sample :
    ∃ t, exec (step fun _ => 0) sample sampleElections = some t ∧
      (t.nodes "b").election.role = .leader ∧ (t.nodes "b").election.currentTerm = 2 ∧
      Occurs (step fun _ => 0) (BecomesLeader "b" 2) sample sampleElections ∧
      ∀ n, Occurs (step fun _ => 0) (BecomesLeader n 2) sample sampleElections → n = "b" := by
  have hstart : Assembled {"a", "b", "c"} sample :=
    ⟨fun _ => rfl, fun _ => rfl, fun _ => rfl, fun _ _ => (by decide : (MembershipManager.ofIds
      ["a", "b", "c"]).aliveIds.toFinset = {"a", "b", "c"})⟩
  have hstable : Along (step fun _ => 0) (Stable {"a", "b", "c"}) sample sampleElections := by
    refine along_of_forall (fun s l hm => ?_) _
    rcases List.mem_append.mp hm with hm | hm
    · exact stable_electionOf (by decide) s hm
    · exact stable_electionOf (by decide) s hm
  obtain ⟨hunique, -, hlead⟩ := one_leader_per_term hstart hstable rfl
  have hb := hlead "b" (by decide)
  exact ⟨_, rfl, by decide, by decide, hb, fun n hn => hunique 2 n "b" hn hb⟩

end Cluster

end MiniDb
