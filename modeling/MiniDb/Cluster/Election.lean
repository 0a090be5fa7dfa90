/-
  Leader election (`cluster/election.py`): log entries, terms, votes and heartbeats.

  A campaign is several events: `startElection` votes for itself and asks the others,
  `handleVoteRequest` runs at each node asked, and `finishElection` counts what came back, if
  the campaign is still the current one.

  Not modelled: the timers (an election may start at any moment outside leadership, whatever
  the clock says). The leader's side of the log is in `Cluster.LeaderLog`; no function builds an
  append-entries message, and the write path does not use the log, so that it stays empty
  unless such a message or an `append_entry` comes from elsewhere.
-/
import MiniDb.Config
import MiniDb.Storage.KvStore

namespace MiniDb

open Lib

inductive Command where
  | set
  | delete
  deriving DecidableEq

structure LogEntry where
  term : Nat
  index : Nat
  command : Command
  key : String
  value : Json := .null
  ttl : Option Int := none
  timestamp : Time := 0
  version : Int := 1
  expiresAt : Option Time := none
  createdAt : Option Time := none
  coordinatorId : String := ""

structure ElectionManager where
  nodeId : String
  currentTerm : Nat := 0
  votedFor : Option String := none
  role : NodeRole := .follower
  leaderId : Option String := none
  log : List LogEntry := []
  commitIndex : Nat := 0
  lastApplied : Nat := 0

/-- What a candidate sends with its request. -/
structure VoteRequest where
  candidateId : String
  term : Nat
  lastLogIndex : Nat
  lastLogTerm : Nat

/-- An AppendEntries message. -/
structure AppendRequest where
  leaderId : String
  term : Nat
  prevLogIndex : Nat
  prevLogTerm : Nat
  entries : List LogEntry
  leaderCommit : Nat

namespace ElectionManager

/-- The term of the last log entry, 0 when there is none. -/
def lastLogTerm (m : ElectionManager) : Nat :=
  match m.log.getLast? with
  | some e => e.term
  | none => 0

/-- The first half of `_start_election`: a new term, a vote for itself, and the request. -/
def startElection (m : ElectionManager) : ElectionManager × VoteRequest :=
  let term := m.currentTerm + 1
  ({ m with currentTerm := term, role := .candidate, votedFor := some m.nodeId },
    ⟨m.nodeId, term, m.log.length, m.lastLogTerm⟩)

def becomeLeader (m : ElectionManager) : ElectionManager :=
  { m with role := .leader, leaderId := some m.nodeId }

/-- The second half of `_start_election`: count the votes, if still a candidate of `term`. -/
def finishElection (m : ElectionManager) (term votesReceived clusterSize : Nat) :
    ElectionManager :=
  if m.role ≠ .candidate ∨ m.currentTerm ≠ term then m
  else if max 1 (clusterSize / 2 + 1) ≤ votesReceived then m.becomeLeader
  else m

def isLogUpToDate (m : ElectionManager) (lastLogIndex lastLogTerm : Nat) : Bool :=
  if m.log = [] then true
  else if lastLogTerm ≠ m.lastLogTerm then m.lastLogTerm < lastLogTerm
  else m.log.length ≤ lastLogIndex

/-- `handle_vote_request`: the manager afterwards, its term and whether it granted the vote. -/
def handleVoteRequest (m : ElectionManager) (r : VoteRequest) : ElectionManager × Nat × Bool :=
  if r.term < m.currentTerm then (m, m.currentTerm, false)
  else
    let m := if m.currentTerm < r.term then
        { m with currentTerm := r.term, votedFor := none, role := .follower }
      else m
    if (m.votedFor = none ∨ m.votedFor = some r.candidateId) ∧
        m.isLogUpToDate r.lastLogIndex r.lastLogTerm then
      ({ m with votedFor := some r.candidateId }, m.currentTerm, true)
    else (m, m.currentTerm, false)

/-- `receive_heartbeat`; the flag says whether it was accepted. -/
def receiveHeartbeat (m : ElectionManager) (leaderId : String) (term : Nat) :
    ElectionManager × Bool :=
  if term < m.currentTerm then (m, false)
  else
    let m := if m.currentTerm < term then
        { m with currentTerm := term, votedFor := none }
      else m
    if m.role ≠ .follower ∨ m.leaderId ≠ some leaderId then
      ({ m with role := .follower, leaderId := some leaderId }, true)
    else (m, true)

/-- The entry at place `index` of a log that counts from 1; 0 is the last place, as `log[-1]`. -/
def entryAt (log : List LogEntry) (index : Nat) : Option LogEntry :=
  if index = 0 then log.getLast? else log[index - 1]?

/-- `log[:index - 1]` -/
def takeBefore (log : List LogEntry) (index : Nat) : List LogEntry :=
  if index = 0 then log.dropLast else log.take (index - 1)

/-- The loop over the new entries; the flag is false when it raises. -/
def appendEntries : List LogEntry → List LogEntry → List LogEntry × Bool
  | log, [] => (log, true)
  | log, e :: es =>
    if e.index ≤ log.length then
      match entryAt log e.index with
      | none => (log, false)
      | some own =>
        if own.term ≠ e.term then appendEntries (takeBefore log e.index ++ [e]) es
        else appendEntries log es
    else appendEntries (log ++ [e]) es

/-- The end of `handle_append_entries` and `_apply_committed_entries`: what is committed, and the
    entries that are applied now. -/
def advanceCommit (m : ElectionManager) (leaderCommit : Nat) :
    ElectionManager × List LogEntry :=
  if m.commitIndex < leaderCommit then
    let commitIndex := min leaderCommit m.log.length
    ({ m with commitIndex := commitIndex, lastApplied := max m.lastApplied commitIndex },
      (m.log.take commitIndex).drop m.lastApplied)
  else (m, [])

/-- `handle_append_entries`: the manager afterwards, the entries applied, and the answer
    `(term, success, match_index)`, if none of the entries raises. -/
def handleAppendEntries (m : ElectionManager) (r : AppendRequest) :
    ElectionManager × List LogEntry × Option (Nat × Bool × Nat) :=
  if r.term < m.currentTerm then (m, [], some (m.currentTerm, false, 0))
  else
    let m := (m.receiveHeartbeat r.leaderId r.term).1
    if 0 < r.prevLogIndex ∧ m.log.length < r.prevLogIndex then
      (m, [], some (m.currentTerm, false, m.log.length))
    else if 0 < r.prevLogIndex ∧
        (entryAt m.log r.prevLogIndex).any (fun e => e.term ≠ r.prevLogTerm) then
      let m := { m with log := takeBefore m.log r.prevLogIndex }
      (m, [], some (m.currentTerm, false, m.log.length))
    else
      let (log, ok) := appendEntries m.log r.entries
      let m := { m with log := log }
      if ok then
        let (m, applied) := m.advanceCommit r.leaderCommit
        (m, applied, some (m.currentTerm, true, m.log.length))
      else (m, [], none)

def stepDown (m : ElectionManager) : ElectionManager :=
  if m.role = .leader then { m with role := .follower, leaderId := none } else m

end ElectionManager

end MiniDb
