/-
  The election timers (`cluster/election.py`: `_election_loop`, `_should_start_election`): how
  long a leader stays.

  Each node remembers when it last heard a leader or gave its vote, and draws a new timeout then.
  The loop of a leader sends heartbeats to the others in turn; that of any other node starts an
  election when the timeout has passed. Messages take any time; one that is lost is never delivered.

  `leader_stays_iff`: let each member be sent a heartbeat at least every `H`, and let no node look
  at its timer while a heartbeat to it is overdue by `D`. A leader that everyone follows stays the
  leader in every such run if and only if `H + D` is at most the least timeout: beyond that, two
  late rounds depose a leader that all have followed (`late_rounds_depose`). What old leaders and
  candidates have sent before may arrive at any moment, and other nodes may restart.

  The clocks of the nodes agree here. The answers to vote requests are left open: a candidate may
  count any number of votes.
-/
import MiniDb.Cluster.Election
import MiniDb.Lib.Steps
import Mathlib.Logic.Function.Basic
import Mathlib.Tactic.Linarith

namespace MiniDb

open Lib

namespace ElectionTimer

/-- The bounds of `_random_timeout`. -/
structure Timers where
  timeoutMin : Time
  timeoutMax : Time
  le : timeoutMin ≤ timeoutMax

/-- A value that `_random_timeout` may give. -/
def Timers.Draws (timers : Timers) (timeout : Time) : Prop :=
  timers.timeoutMin ≤ timeout ∧ timeout ≤ timers.timeoutMax

instance (timers : Timers) (timeout : Time) : Decidable (timers.Draws timeout) :=
  inferInstanceAs (Decidable (_ ∧ _))

/-- An `ElectionManager` with its timer. -/
structure Timed where
  election : ElectionManager
  lastHeartbeat : Time
  electionTimeout : Time

namespace Timed

/-- `_should_start_election` -/
def shouldStartElection (now : Time) (t : Timed) : Bool :=
  if t.election.role = .leader then false else t.electionTimeout < now - t.lastHeartbeat

/-- The first half of `_start_election`; the time of the last heartbeat stays. -/
def startElection (timeout : Time) (t : Timed) : Timed × VoteRequest :=
  let (m, r) := t.election.startElection
  ({ t with election := m, electionTimeout := timeout }, r)

def receiveHeartbeat (now timeout : Time) (leaderId : String) (term : Nat) (t : Timed) : Timed :=
  let (m, accepted) := t.election.receiveHeartbeat leaderId term
  if accepted then { election := m, lastHeartbeat := now, electionTimeout := timeout } else t

def handleVoteRequest (now : Time) (r : VoteRequest) (t : Timed) : Timed :=
  let (m, _, granted) := t.election.handleVoteRequest r
  { t with election := m, lastHeartbeat := if granted then now else t.lastHeartbeat }

/-- The next election of its own is held off. -/
def stepDown (timers : Timers) (now timeout : Time) (t : Timed) : Timed :=
  if t.election.role = .leader then
    { election := t.election.stepDown, lastHeartbeat := now + timers.timeoutMax
      electionTimeout := timeout }
  else t

end Timed

/-! ## Nodes with timers -/

inductive Message where
  | voteRequest (r : VoteRequest)
  | heartbeat (leaderId : String) (term : Nat)

/-- A message under way. -/
structure Sent where
  dest : String
  message : Message
  since : Time

/-- Where the loop of a node is. -/
inductive Loop where
  | idle
  /-- In `_send_heartbeats`, with the members that are left. -/
  | beating (rest : List String)
  /-- The timeout has passed; `_start_election` is next. -/
  | due
  /-- The votes of this term are out. -/
  | campaign (term : Nat)

structure State where
  nodes : String → Timed
  loops : String → Loop
  sent : List Sent
  clock : Time
  /-- When the first node last sent the second one a heartbeat; no step reads it. -/
  lastSend : String → String → Time

inductive Label where
  /-- The head of the loop. -/
  | wake (i : String) (now : Time)
  /-- The next heartbeat; it may fail to go out. -/
  | beat (i : String) (now : Time) (ok : Bool)
  | startElection (i : String) (now timeout : Time)
  | countVotes (i : String) (now : Time) (votes : Nat)
  | deliver (k : Nat) (now timeout : Time)
  | stepDown (i : String) (now timeout : Time)
  | restart (i : String) (now timeout : Time)

def Label.now : Label → Time
  | .wake _ now => now
  | .beat _ now _ => now
  | .startElection _ now _ => now
  | .countVotes _ now _ => now
  | .deliver _ now _ => now
  | .stepDown _ now _ => now
  | .restart _ now _ => now

/-- The timeout that is drawn, if one is. -/
def Label.timeout? : Label → Option Time
  | .startElection _ _ timeout => some timeout
  | .deliver _ _ timeout => some timeout
  | .stepDown _ _ timeout => some timeout
  | .restart _ _ timeout => some timeout
  | _ => none

namespace State

def setNode (s : State) (i : String) (t : Timed) : State :=
  { s with nodes := Function.update s.nodes i t }

def setLoop (s : State) (i : String) (l : Loop) : State :=
  { s with loops := Function.update s.loops i l }

theorem nodes_setNode_self (s : State) (i : String) (t : Timed) : (s.setNode i t).nodes i = t := by
  simp [setNode]

theorem nodes_setNode_of_ne (s : State) {i j : String} (h : j ≠ i) (t : Timed) :
    (s.setNode i t).nodes j = s.nodes j := by
  simp [setNode, h]

theorem loops_setLoop_self (s : State) (i : String) (l : Loop) : (s.setLoop i l).loops i = l := by
  simp [setLoop]

theorem loops_setLoop_of_ne (s : State) {i j : String} (h : j ≠ i) (l : Loop) :
    (s.setLoop i l).loops j = s.loops j := by
  simp [setLoop, h]

end State

def others (members : List String) (i : String) : List String := members.filter (· ≠ i)

/-- A heartbeat from `i` to `j`, with the term `i` has at that moment. -/
def sendHeartbeat (s : State) (i j : String) (now : Time) : State :=
  let m := (s.nodes i).election
  { s with
    sent := s.sent ++ [{ dest := j, message := .heartbeat m.nodeId m.currentTerm, since := now }]
    lastSend := Function.update s.lastSend i (Function.update (s.lastSend i) j now) }

/-- `handle_cluster_message` for the messages of elections. -/
def handle (now timeout : Time) (t : Timed) : Message → Timed
  | .voteRequest r => t.handleVoteRequest now r
  | .heartbeat leaderId term =>
    if leaderId = "" then t else t.receiveHeartbeat now timeout leaderId term

def act (timers : Timers) (members : List String) (s : State) : Label → Option State
  | .wake i now =>
    match s.loops i with
    | .idle =>
      if i ∉ members then none
      else if (s.nodes i).election.role = .leader then
        some (s.setLoop i (.beating (others members i)))
      else if (s.nodes i).shouldStartElection now then some (s.setLoop i .due)
      else some s
    | _ => none
  | .beat i now ok =>
    match s.loops i with
    | .beating [] => some (s.setLoop i .idle)
    | .beating (j :: rest) =>
      some ((if ok then sendHeartbeat s i j now else s).setLoop i (.beating rest))
    | _ => none
  | .startElection i now timeout =>
    match s.loops i with
    | .due =>
      let (t, r) := (s.nodes i).startElection timeout
      let requests := (others members i).map fun j =>
        { dest := j, message := .voteRequest r, since := now }
      some { (s.setNode i t).setLoop i (.campaign r.term) with sent := s.sent ++ requests }
    | _ => none
  | .countVotes i _ votes =>
    match s.loops i with
    | .campaign term =>
      let t := s.nodes i
      let m := t.election.finishElection term votes (max 1 members.length)
      some ((s.setNode i { t with election := m }).setLoop i .idle)
    | _ => none
  | .deliver k now timeout =>
    match s.sent[k]? with
    | none => none
    | some p =>
      some { s.setNode p.dest (handle now timeout (s.nodes p.dest) p.message) with
        sent := s.sent.eraseIdx k }
  | .stepDown i now timeout => some (s.setNode i ((s.nodes i).stepDown timers now timeout))
  | .restart i now timeout =>
    some ((s.setNode i { election := { nodeId := (s.nodes i).election.nodeId }
                         lastHeartbeat := now, electionTimeout := timeout }).setLoop i .idle)

/-- Time goes on, and timeouts are drawn between their bounds. -/
def step (timers : Timers) (members : List String) (s : State) (l : Label) : Option State :=
  if l.now < s.clock ∨ ∃ timeout ∈ l.timeout?, ¬ timers.Draws timeout then none
  else act timers members { s with clock := l.now } l

/-! ## A leader that everyone follows -/

/-- A heartbeat of the leader to `i`. -/
def IsBeat (L : String) (T : Nat) (i : String) (p : Sent) : Prop :=
  p.dest = i ∧ p.message = .heartbeat L T

/-- The leader sends each member a heartbeat at least every `H`; no timer is looked at while a
    heartbeat is overdue by `D`. The leader does not step down and is not restarted. -/
def OnTime (members : List String) (L : String) (T : Nat) (H D : Time) (s : State) (l : Label) :
    Prop :=
  (∀ i ∈ members, i ≠ L → l.now ≤ s.lastSend L i + H) ∧
    match l with
    | .wake i now => ∀ p ∈ s.sent, IsBeat L T i p → now ≤ p.since + D
    | .stepDown i _ _ => i ≠ L
    | .restart i _ _ => i ≠ L
    | _ => True

/-- A message that neither brings the leader down nor makes a node follow another. -/
def Harmless (L : String) (T : Nat) (p : Sent) : Prop :=
  match p.message with
  | .voteRequest r => r.term ≤ T
  | .heartbeat leaderId term => term < T ∨ term = T ∧ leaderId = L ∧ p.dest ≠ L

/-- What the loop of `i` may be doing: only the leader sends, and no election is due. -/
def Calm (L : String) (i : String) : Loop → Prop
  | .beating rest => i = L ∧ L ∉ rest
  | .due => False
  | _ => True

/-- `L` leads in term `T`; nobody else leads or campaigns, and nobody is beyond that term. -/
structure Leads (L : String) (T : Nat) (s : State) : Prop where
  leads : (s.nodes L).election.role = .leader
  term : (s.nodes L).election.currentTerm = T
  followers : ∀ i, i ≠ L → (s.nodes i).election.role = .follower
  terms : ∀ i, (s.nodes i).election.currentTerm ≤ T

/-- What node `i` is while `L` leads in term `T`. -/
structure InPlace (timers : Timers) (L : String) (T : Nat) (i : String) (t : Timed) : Prop where
  leader : i = L → t.election.role = .leader ∧ t.election.currentTerm = T ∧ t.election.nodeId = L
  follower : i ≠ L → t.election.role = .follower
  term : t.election.currentTerm ≤ T
  timeout : timers.timeoutMin ≤ t.electionTimeout

/-- The timer of `i`: it has heard the last heartbeat, or one is under way that was sent at most `H`
    after what it has heard. -/
def InTime (L : String) (T : Nat) (H : Time) (s : State) (i : String) : Prop :=
  s.lastSend L i ≤ (s.nodes i).lastHeartbeat ∨
    ∃ p ∈ s.sent, IsBeat L T i p ∧ p.since ≤ (s.nodes i).lastHeartbeat + H

/-- Everyone follows `L`, which is heard in time. -/
structure Stable (timers : Timers) (members : List String) (L : String) (T : Nat) (H : Time)
    (s : State) : Prop where
  named : L ≠ ""
  nodes : ∀ i, InPlace timers L T i (s.nodes i)
  loops : ∀ i, Calm L i (s.loops i)
  sent : ∀ p ∈ s.sent, Harmless L T p
  lastSend : ∀ i, s.lastSend L i ≤ s.clock
  inTime : ∀ i ∈ members, i ≠ L → InTime L T H s i

section

variable {timers : Timers} {members : List String} {L : String} {T : Nat} {H D : Time}

theorem Stable.leads {s : State} (h : Stable timers members L T H s) : Leads L T s where
  leads := ((h.nodes L).leader rfl).1
  term := ((h.nodes L).leader rfl).2.1
  followers := fun i => (h.nodes i).follower
  terms := fun i => (h.nodes i).term

/-! ## What the handlers do -/

namespace Timed

theorem receiveHeartbeat_old {now timeout : Time} {leaderId : String} {term : Nat} {t : Timed}
    (h : term < t.election.currentTerm) : t.receiveHeartbeat now timeout leaderId term = t := by
  unfold receiveHeartbeat ElectionManager.receiveHeartbeat
  rw [if_pos h]
  rfl

/-- A heartbeat that is accepted. -/
structure Heard (now timeout : Time) (term : Nat) (t' : Timed) : Prop where
  role : t'.election.role = .follower
  term : t'.election.currentTerm = term
  lastHeartbeat : t'.lastHeartbeat = now
  electionTimeout : t'.electionTimeout = timeout

theorem receiveHeartbeat_heard {now timeout : Time} {leaderId : String} {term : Nat} {t : Timed}
    (h : t.election.currentTerm ≤ term) :
    Heard now timeout term (t.receiveHeartbeat now timeout leaderId term) := by
  have hterm : ∀ m : ElectionManager, m = (if t.election.currentTerm < term then
      { t.election with currentTerm := term, votedFor := none } else t.election) →
      m.currentTerm = term := by
    rintro m rfl
    split
    · rfl
    · rename_i hle
      exact le_antisymm h (not_lt.mp hle)
  unfold receiveHeartbeat ElectionManager.receiveHeartbeat
  rw [if_neg (not_lt.mpr h)]
  simp only
  generalize (if t.election.currentTerm < term then
      { t.election with currentTerm := term, votedFor := none } else t.election) = m at hterm ⊢
  by_cases hnew : m.role ≠ .follower ∨ m.leaderId ≠ some leaderId
  · rw [if_pos hnew]
    exact ⟨rfl, hterm m rfl, rfl, rfl⟩
  · rw [if_neg hnew]
    rw [not_or, not_not] at hnew
    exact ⟨hnew.1, hterm m rfl, rfl, rfl⟩

/-- A vote request; a vote that is granted counts as a heartbeat. -/
structure Asked (now : Time) (r : VoteRequest) (t t' : Timed) : Prop where
  nodeId : t'.election.nodeId = t.election.nodeId
  role : t'.election.role = if t.election.currentTerm < r.term then .follower else t.election.role
  term : t'.election.currentTerm = max t.election.currentTerm r.term
  lastHeartbeat : t'.lastHeartbeat = t.lastHeartbeat ∨ t'.lastHeartbeat = now
  electionTimeout : t'.electionTimeout = t.electionTimeout

theorem handleVoteRequest_asked (now : Time) (r : VoteRequest) (t : Timed) :
    Asked now r t (t.handleVoteRequest now r) := by
  unfold handleVoteRequest ElectionManager.handleVoteRequest
  by_cases hold : r.term < t.election.currentTerm
  · have hnot : ¬ t.election.currentTerm < r.term := not_lt.mpr hold.le
    rw [if_pos hold]
    exact ⟨rfl, by rw [if_neg hnot], (max_eq_left hold.le).symm, .inl rfl, rfl⟩
  · rw [if_neg hold]
    by_cases hnew : t.election.currentTerm < r.term
    · simp only [if_pos hnew]
      split
      · exact ⟨rfl, (if_pos hnew).symm, (max_eq_right hnew.le).symm, .inr rfl, rfl⟩
      · exact ⟨rfl, (if_pos hnew).symm, (max_eq_right hnew.le).symm, .inl rfl, rfl⟩
    · have hmax : max t.election.currentTerm r.term = t.election.currentTerm :=
        max_eq_left (not_lt.mp hnew)
      simp only [if_neg hnew]
      split
      · exact ⟨rfl, (if_neg hnew).symm, hmax.symm, .inr rfl, rfl⟩
      · exact ⟨rfl, (if_neg hnew).symm, hmax.symm, .inl rfl, rfl⟩

end Timed

/-- A message that is delivered while `L` leads. -/
structure Delivered (timers : Timers) (L : String) (T : Nat) (now : Time) (p : Sent)
    (t t' : Timed) : Prop where
  place : InPlace timers L T p.dest t'
  lastHeartbeat : t'.lastHeartbeat = t.lastHeartbeat ∨ t'.lastHeartbeat = now
  beat : IsBeat L T p.dest p → t'.lastHeartbeat = now

theorem delivered_voteRequest {t : Timed} {p : Sent} {now timeout : Time} {r : VoteRequest}
    (ht : InPlace timers L T p.dest t) (hm : p.message = .voteRequest r) (hr : r.term ≤ T) :
    Delivered timers L T now p t (handle now timeout t p.message) := by
  have hasked := Timed.handleVoteRequest_asked now r t
  rw [hm]
  refine ⟨⟨fun hL => ?_, fun hL => ?_, ?_, ?_⟩, hasked.lastHeartbeat, fun hbeat => ?_⟩
  · obtain ⟨hrole, hterm, hid⟩ := ht.leader hL
    have hnot : ¬ t.election.currentTerm < r.term := by rw [hterm]; exact not_lt.mpr hr
    refine ⟨?_, ?_, hasked.nodeId.trans hid⟩
    · exact hasked.role.trans (by rw [if_neg hnot, hrole])
    · exact hasked.term.trans (by rw [max_eq_left (not_lt.mp hnot), hterm])
  · refine hasked.role.trans ?_
    split
    · rfl
    · exact ht.follower hL
  · exact hasked.term.trans_le (max_le ht.term hr)
  · exact ht.timeout.trans_eq hasked.electionTimeout.symm
  · exact absurd (hm.symm.trans hbeat.2) (by simp)

theorem delivered_heartbeat {t : Timed} {p : Sent} {now timeout : Time} {leaderId : String}
    {term : Nat} (hnamed : L ≠ "") (ht : InPlace timers L T p.dest t)
    (hm : p.message = .heartbeat leaderId term)
    (hp : term < T ∨ term = T ∧ leaderId = L ∧ p.dest ≠ L) (hdraw : timers.Draws timeout) :
    Delivered timers L T now p t (handle now timeout t p.message) := by
  have hself : ∀ t', t' = t → (term < t.election.currentTerm ∨ leaderId = "") →
      Delivered timers L T now p t t' := by
    rintro t' rfl hold
    refine ⟨ht, .inl rfl, fun hbeat => ?_⟩
    obtain ⟨rfl, rfl⟩ := Message.heartbeat.inj (hm.symm.trans hbeat.2)
    rcases hold with hold | hempty
    · exact absurd ht.term (not_le.mpr hold)
    · exact absurd hempty hnamed
  rw [hm]
  simp only [handle]
  split
  · rename_i hempty
    exact hself t rfl (.inr hempty)
  · rcases lt_or_ge term t.election.currentTerm with hold | hnew
    · exact hself _ (Timed.receiveHeartbeat_old hold) (.inl hold)
    · have hheard : Timed.Heard now timeout term (t.receiveHeartbeat now timeout leaderId term) :=
        Timed.receiveHeartbeat_heard hnew
      -- the leader hears no term as great as its own
      have hother : p.dest ≠ L := by
        intro hL
        rcases hp with hlt | ⟨-, -, hne⟩
        · exact absurd hlt (not_lt.mpr ((ht.leader hL).2.1 ▸ hnew))
        · exact hne hL
      refine ⟨⟨fun hL => absurd hL hother, fun _ => hheard.role, ?_, ?_⟩,
        .inr hheard.lastHeartbeat, fun _ => hheard.lastHeartbeat⟩
      · rw [hheard.term]
        rcases hp with hlt | ⟨heq, -⟩
        · exact hlt.le
        · exact heq.le
      · rw [hheard.electionTimeout]
        exact hdraw.1

theorem delivered {t : Timed} {p : Sent} {now timeout : Time} (hnamed : L ≠ "")
    (ht : InPlace timers L T p.dest t) (hp : Harmless L T p) (hdraw : timers.Draws timeout) :
    Delivered timers L T now p t (handle now timeout t p.message) := by
  unfold Harmless at hp
  cases hm : p.message with
  | voteRequest r =>
    rw [hm] at hp
    exact hm ▸ delivered_voteRequest ht hm hp
  | heartbeat leaderId term =>
    rw [hm] at hp
    exact hm ▸ delivered_heartbeat hnamed ht hm hp hdraw

/-! ## One step -/

theorem mem_eraseIdx {sent : List Sent} {k : Nat} {p q : Sent} (hp : sent[k]? = some p)
    (hq : q ∈ sent) (hne : q ≠ p) : q ∈ sent.eraseIdx k := by
  obtain ⟨i, hi⟩ := List.mem_iff_getElem?.mp hq
  refine List.mem_eraseIdx_iff_getElem?.mpr ⟨i, fun hik => ?_, hi⟩
  rw [hik, hp] at hi
  exact hne (Option.some.inj hi).symm

theorem InTime.keep {s s' : State} {i : String} (h : InTime L T H s i)
    (hsend : s'.lastSend L i = s.lastSend L i)
    (hheard : (s'.nodes i).lastHeartbeat = (s.nodes i).lastHeartbeat)
    (hsent : ∀ p ∈ s.sent, IsBeat L T i p → p ∈ s'.sent) : InTime L T H s' i := by
  unfold InTime
  rw [hsend, hheard]
  rcases h with h | ⟨p, hp, hbeat, hle⟩
  · exact .inl h
  · exact .inr ⟨p, hsent p hp hbeat, hbeat, hle⟩

theorem Stable.not_candidate {s : State} (h : Stable timers members L T H s) (i : String) :
    (s.nodes i).election.role ≠ .candidate := by
  by_cases hL : i = L
  · rw [((h.nodes i).leader hL).1]
    decide
  · rw [(h.nodes i).follower hL]
    decide

/-- The timer of a member has not run out. -/
theorem Stable.not_due {s : State} {i : String} {now : Time}
    (h : Stable timers members L T H s) (hmargin : H + D ≤ timers.timeoutMin) (hD : 0 ≤ D)
    (hi : i ∈ members) (hL : i ≠ L) (hon : OnTime members L T H D s (.wake i now)) :
    (s.nodes i).shouldStartElection now = false := by
  have hsend : now ≤ s.lastSend L i + H := hon.1 i hi hL
  have htimeout := (h.nodes i).timeout
  have hle : now - (s.nodes i).lastHeartbeat ≤ (s.nodes i).electionTimeout := by
    rcases h.inTime i hi hL with hheard | ⟨p, hp, hbeat, hsince⟩
    · linarith
    · have hdue : now ≤ p.since + D := hon.2 p hp hbeat
      linarith
  unfold Timed.shouldStartElection
  split
  · rfl
  · exact decide_eq_false (not_lt.mpr hle)

/-- A step of the loop that leaves the nodes alone. -/
theorem Stable.setLoop {s : State} {i : String} {l : Loop} (h : Stable timers members L T H s)
    (hl : Calm L i l) : Stable timers members L T H (s.setLoop i l) where
  named := h.named
  nodes := h.nodes
  loops := fun j => by
    by_cases hj : j = i
    · subst hj
      rw [State.loops_setLoop_self]
      exact hl
    · rw [State.loops_setLoop_of_ne s hj]
      exact h.loops j
  sent := h.sent
  lastSend := h.lastSend
  inTime := h.inTime

/-- What becomes of one node. -/
theorem Stable.setNode {s : State} {i : String} {t : Timed} (h : Stable timers members L T H s)
    (ht : InPlace timers L T i t)
    (hheard : t.lastHeartbeat = (s.nodes i).lastHeartbeat ∨ s.clock ≤ t.lastHeartbeat) :
    Stable timers members L T H (s.setNode i t) where
  named := h.named
  nodes := fun j => by
    by_cases hj : j = i
    · subst hj
      rw [State.nodes_setNode_self]
      exact ht
    · rw [State.nodes_setNode_of_ne s hj]
      exact h.nodes j
  loops := h.loops
  sent := h.sent
  lastSend := h.lastSend
  inTime := fun j hj hL => by
    have hin := h.inTime j hj hL
    by_cases hji : j = i
    · subst hji
      have hself := s.nodes_setNode_self j t
      rcases hheard with heq | hle
      · exact hin.keep rfl (by rw [hself, heq]) fun _ hp _ => hp
      · refine .inl (le_trans (h.lastSend j) ?_)
        rw [hself]
        exact hle
    · exact hin.keep rfl (by rw [s.nodes_setNode_of_ne hji]) fun _ hp _ => hp

theorem Stable.setClock {s : State} {now : Time} (h : Stable timers members L T H s)
    (hnow : s.clock ≤ now) : Stable timers members L T H { s with clock := now } where
  named := h.named
  nodes := h.nodes
  loops := h.loops
  sent := h.sent
  lastSend := fun i => (h.lastSend i).trans hnow
  inTime := h.inTime

theorem Stable.sendHeartbeat {s : State} {j : String} (h : Stable timers members L T H s)
    (hj : j ≠ L) (hon : j ∈ members → s.clock ≤ s.lastSend L j + H) :
    Stable timers members L T H (sendHeartbeat s L j s.clock) := by
  obtain ⟨-, hterm, hid⟩ := (h.nodes L).leader rfl
  have hsent : (ElectionTimer.sendHeartbeat s L j s.clock).sent =
      s.sent ++ [⟨j, .heartbeat L T, s.clock⟩] := by
    simp only [ElectionTimer.sendHeartbeat, hterm, hid]
  have hsend : (ElectionTimer.sendHeartbeat s L j s.clock).lastSend L =
      Function.update (s.lastSend L) j s.clock := Function.update_self L _ s.lastSend
  refine ⟨h.named, h.nodes, h.loops, fun p hp => ?_, fun i => ?_, fun i hi hL => ?_⟩
  · rw [hsent, List.mem_append, List.mem_singleton] at hp
    rcases hp with hp | rfl
    · exact h.sent p hp
    · exact .inr ⟨rfl, rfl, hj⟩
  · rw [hsend]
    by_cases hij : i = j
    · subst hij
      rw [Function.update_self]
      exact le_rfl
    · rw [Function.update_of_ne hij]
      exact h.lastSend i
  · by_cases hij : i = j
    · subst hij
      -- the new heartbeat is in time, or an earlier one is still under way
      rcases h.inTime i hi hL with hheard | ⟨p, hp, hbeat, hle⟩
      · refine .inr ⟨⟨i, .heartbeat L T, s.clock⟩, ?_, ⟨rfl, rfl⟩, ?_⟩
        · rw [hsent]
          exact List.mem_append_right _ (List.mem_singleton.mpr rfl)
        · have hnow := hon hi
          have hle : s.clock ≤ (s.nodes i).lastHeartbeat + H := by linarith
          exact hle
      · refine .inr ⟨p, ?_, hbeat, hle⟩
        rw [hsent]
        exact List.mem_append_left _ hp
    · refine (h.inTime i hi hL).keep ?_ rfl fun p hp _ => ?_
      · rw [hsend, Function.update_of_ne hij]
      · rw [hsent]
        exact List.mem_append_left _ hp

theorem Stable.deliver {s : State} {k : Nat} {p : Sent} {timeout : Time}
    (h : Stable timers members L T H s) (hp : s.sent[k]? = some p) (hdraw : timers.Draws timeout) :
    Stable timers members L T H
      { s.setNode p.dest (handle s.clock timeout (s.nodes p.dest) p.message) with
        sent := s.sent.eraseIdx k } := by
  have hd : Delivered timers L T s.clock p (s.nodes p.dest)
      (handle s.clock timeout (s.nodes p.dest) p.message) :=
    delivered h.named (h.nodes p.dest) (h.sent p (List.mem_of_getElem? hp)) hdraw
  have hset := h.setNode hd.place (hd.lastHeartbeat.imp_right fun heq => heq.ge)
  refine ⟨h.named, hset.nodes, h.loops, fun q hq => h.sent q (List.mem_of_mem_eraseIdx hq),
    h.lastSend, fun i hi hL => ?_⟩
  by_cases hbeat : IsBeat L T i p
  · obtain rfl := hbeat.1
    refine .inl ((h.lastSend p.dest).trans ?_)
    have hself := s.nodes_setNode_self p.dest (handle s.clock timeout (s.nodes p.dest) p.message)
    simp only [hself]
    exact (hd.beat hbeat).ge
  · refine (hset.inTime i hi hL).keep rfl rfl fun q hq hqbeat => mem_eraseIdx hp hq ?_
    rintro rfl
    exact hbeat hqbeat

/-- What one of the nodes does on its own. -/
theorem Stable.act {s s' : State} {l : Label} (h : Stable timers members L T H s)
    (hmargin : H + D ≤ timers.timeoutMin) (hD : 0 ≤ D) (hnow : l.now = s.clock)
    (hdraw : ∀ timeout ∈ l.timeout?, timers.Draws timeout) (hon : OnTime members L T H D s l)
    (hs : act timers members s l = some s') : Stable timers members L T H s' := by
  cases l with
  | wake i now =>
    simp only [ElectionTimer.act] at hs
    split at hs
    · split at hs
      · cases hs
      · rename_i hi
        rw [not_not] at hi
        by_cases hL : i = L
        · subst hL
          rw [if_pos ((h.nodes i).leader rfl).1] at hs
          obtain rfl := Option.some.inj hs
          exact h.setLoop ⟨rfl, by simp [others]⟩
        · rw [if_neg (by rw [(h.nodes i).follower hL]; decide),
            if_neg (by rw [h.not_due hmargin hD hi hL hon]; decide)] at hs
          exact Option.some.inj hs ▸ h
    · cases hs
  | beat i now ok =>
    simp only [ElectionTimer.act] at hs
    have hcalm := h.loops i
    split at hs
    · obtain rfl := Option.some.inj hs
      exact h.setLoop trivial
    · rename_i j rest hloop
      rw [hloop] at hcalm
      obtain ⟨rfl, hrest⟩ := hcalm
      rw [List.mem_cons, not_or] at hrest
      obtain rfl := Option.some.inj hs
      refine Stable.setLoop ?_ ⟨rfl, hrest.2⟩
      cases ok with
      | true =>
        have hnow' : now = s.clock := hnow
        rw [if_pos rfl, hnow']
        exact h.sendHeartbeat (Ne.symm hrest.1) fun hj => hnow' ▸ hon.1 j hj (Ne.symm hrest.1)
      | false => exact h
    · cases hs
  | startElection i now timeout =>
    simp only [ElectionTimer.act] at hs
    have hcalm := h.loops i
    split at hs
    · rename_i hloop
      rw [hloop] at hcalm
      exact hcalm.elim
    · cases hs
  | countVotes i now votes =>
    simp only [ElectionTimer.act] at hs
    split at hs
    · rename_i term _
      have hsame : (s.nodes i).election.finishElection term votes (max 1 members.length) =
          (s.nodes i).election := by
        unfold ElectionManager.finishElection
        rw [if_pos (.inl (h.not_candidate i))]
      obtain rfl := Option.some.inj hs
      rw [hsame]
      exact (h.setNode (h.nodes i) (.inl rfl)).setLoop trivial
    · cases hs
  | deliver k now timeout =>
    simp only [ElectionTimer.act] at hs
    split at hs
    · cases hs
    · rename_i p hp
      obtain rfl := Option.some.inj hs
      have hnow' : now = s.clock := hnow
      rw [hnow']
      exact h.deliver hp (hdraw timeout rfl)
  | stepDown i now timeout =>
    obtain rfl := Option.some.inj hs
    have hsame : (s.nodes i).stepDown timers now timeout = s.nodes i := by
      unfold Timed.stepDown
      rw [if_neg (by rw [(h.nodes i).follower hon.2]; decide)]
    rw [hsame]
    exact h.setNode (h.nodes i) (.inl rfl)
  | restart i now timeout =>
    obtain rfl := Option.some.inj hs
    refine Stable.setLoop (h.setNode ⟨fun hL => absurd hL hon.2, fun _ => rfl, ?_, ?_⟩ ?_) trivial
    · exact Nat.zero_le T
    · exact (hdraw timeout rfl).1
    · exact .inr hnow.ge

/-- **One step** keeps it so. -/
theorem stable_step {s s' : State} {l : Label} (h : Stable timers members L T H s)
    (hmargin : H + D ≤ timers.timeoutMin) (hD : 0 ≤ D) (hon : OnTime members L T H D s l)
    (hs : step timers members s l = some s') : Stable timers members L T H s' := by
  unfold step at hs
  split at hs
  · cases hs
  · rename_i hmay
    rw [not_or, not_lt, not_exists] at hmay
    refine (h.setClock hmay.1).act hmargin hD rfl (fun timeout ht => ?_) hon hs
    exact not_not.mp fun hdraw => hmay.2 timeout ⟨ht, hdraw⟩

/-! ## Runs -/

/-- The timer of `L` has run out; all have voted for it and heard its first heartbeat, at 0. -/
def followed (timers : Timers) (L : String) (T : Nat) : State where
  nodes := fun j =>
    { election := { nodeId := j, currentTerm := T, votedFor := some L, leaderId := some L
                    role := if j = L then .leader else .follower }
      lastHeartbeat := if j = L then -(timers.timeoutMax + 1) else 0
      electionTimeout := timers.timeoutMin }
  loops := fun _ => .idle
  sent := []
  clock := 0
  lastSend := fun _ _ => 0

/-- After heartbeats of `L` to these nodes at `now`; none of them has arrived. -/
def afterBeats (L : String) (T : Nat) (now : Time) (rest : List String) (s : State) : State :=
  { s with
    sent := s.sent ++ rest.map fun j => ⟨j, .heartbeat L T, now⟩
    clock := now
    lastSend := fun i j => if i = L ∧ j ∈ rest then now else s.lastSend i j }

/-- Two rounds of heartbeats are under way. -/
def overdue (timers : Timers) (members : List String) (L : String) (T : Nat) (H D : Time) :
    State :=
  afterBeats L T (H + D) (others members L)
    (afterBeats L T H (others members L) (followed timers L T))

/-- A round of the leader: its loop wakes, and sends to the others. -/
def round (members : List String) (L : String) (now : Time) : List Label :=
  .wake L now :: ((others members L).map fun _ => .beat L now true) ++ [.beat L now true]

theorem step_now {s : State} {l : Label} (hclock : s.clock ≤ l.now)
    (hdraw : ∀ timeout ∈ l.timeout?, timers.Draws timeout) :
    step timers members s l = act timers members { s with clock := l.now } l := by
  unfold step
  rw [if_neg]
  rintro (hlt | ⟨timeout, ht, hnot⟩)
  · exact absurd hclock (not_le.mpr hlt)
  · exact hnot (hdraw timeout ht)

theorem no_timeout {l : Label} (h : l.timeout? = none) :
    ∀ timeout ∈ l.timeout?, timers.Draws timeout := by
  intro timeout ht
  rw [h] at ht
  cases ht

theorem mem_others {j : String} : j ∈ others members L ↔ j ∈ members ∧ j ≠ L := by
  simp [others]

theorem exec_beats {s : State} {now : Time} {rest : List String} (hclock : s.clock ≤ now)
    (hid : (s.nodes L).election.nodeId = L) (hterm : (s.nodes L).election.currentTerm = T)
    (hloop : s.loops L = .beating rest) :
    exec (step timers members) s ((rest.map fun _ => .beat L now true) ++ [.beat L now true]) =
      some ((afterBeats L T now rest s).setLoop L .idle) := by
  induction rest generalizing s with
  | nil =>
    refine exec_cons.mpr ⟨_, ?_, exec_nil _⟩
    rw [step_now hclock (no_timeout rfl)]
    simp [act, hloop, afterBeats, State.setLoop, Label.now]
  | cons j rest ih =>
    have hstep : step timers members s (.beat L now true) =
        some ((sendHeartbeat { s with clock := now } L j now).setLoop L (.beating rest)) := by
      rw [step_now hclock (no_timeout rfl)]
      simp only [act, hloop, if_true, Label.now]
    have hrest := ih (s := (sendHeartbeat { s with clock := now } L j now).setLoop L
      (.beating rest)) (le_refl now) hid hterm (State.loops_setLoop_self ..)
    refine exec_cons.mpr ⟨_, hstep, hrest.trans ?_⟩
    simp only [afterBeats, sendHeartbeat, State.setLoop, State.mk.injEq, Option.some.injEq, hid,
      hterm, List.append_assoc, List.singleton_append, List.map_cons, Function.update_idem,
      true_and]
    refine funext fun i => funext fun k => ?_
    by_cases hi : i = L
    · subst hi
      by_cases hk : k = j
      · simp [hk]
      · simp [hk]
    · simp [hi]

theorem exec_round {s : State} {now : Time} (hL : L ∈ members) (hclock : s.clock ≤ now)
    (hid : (s.nodes L).election.nodeId = L) (hterm : (s.nodes L).election.currentTerm = T)
    (hrole : (s.nodes L).election.role = .leader) (hloops : s.loops = fun _ => .idle) :
    exec (step timers members) s (round members L now) =
      some (afterBeats L T now (others members L) s) := by
  have hwake : step timers members s (.wake L now) =
      some (State.setLoop { s with clock := now } L (.beating (others members L))) := by
    rw [step_now hclock (no_timeout rfl)]
    simp [act, hloops, hL, hrole, Label.now]
  refine exec_cons.mpr ⟨_, hwake, ?_⟩
  refine (exec_beats (T := T) (s := State.setLoop { s with clock := now } L
    (.beating (others members L))) (le_refl now) hid hterm (State.loops_setLoop_self ..)).trans ?_
  simp [afterBeats, State.setLoop, hloops]

/-- The leader brings it about in two rounds. -/
theorem exec_overdue (hL : L ∈ members) (hH : 0 ≤ H) (hD : 0 ≤ D) :
    exec (step timers members) (followed timers L T)
        (round members L H ++ round members L (H + D)) =
      some (overdue timers members L T H D) := by
  refine exec_append.mpr ⟨_, exec_round hL hH rfl rfl (if_pos rfl) rfl, ?_⟩
  exact exec_round hL (le_add_of_nonneg_right hD) rfl rfl (if_pos rfl) rfl

theorem sent_overdue {p : Sent} (hp : p ∈ (overdue timers members L T H D).sent) :
    ∃ j ∈ others members L, p = ⟨j, .heartbeat L T, H⟩ ∨ p = ⟨j, .heartbeat L T, H + D⟩ := by
  simp only [overdue, afterBeats, followed, List.nil_append, List.mem_append, List.mem_map] at hp
  rcases hp with ⟨j, hj, rfl⟩ | ⟨j, hj, rfl⟩
  · exact ⟨j, hj, .inl rfl⟩
  · exact ⟨j, hj, .inr rfl⟩

theorem lastSend_overdue {j : String} (hj : j ∈ members) (hL : j ≠ L) :
    (overdue timers members L T H D).lastSend L j = H + D :=
  if_pos ⟨rfl, mem_others.mpr ⟨hj, hL⟩⟩

theorem stable_overdue (hnamed : L ≠ "") (hH : 0 ≤ H) (hD : 0 ≤ D) :
    Stable timers members L T H (overdue timers members L T H D) where
  named := hnamed
  nodes := fun j => ⟨fun hj => ⟨if_pos hj, rfl, hj⟩, fun hj => if_neg hj, le_rfl, le_rfl⟩
  loops := fun _ => trivial
  sent := fun p hp => by
    obtain ⟨j, hj, rfl | rfl⟩ := sent_overdue hp
    · exact .inr ⟨rfl, rfl, (mem_others.mp hj).2⟩
    · exact .inr ⟨rfl, rfl, (mem_others.mp hj).2⟩
  lastSend := fun j => by
    simp only [overdue, afterBeats, followed]
    split
    · exact le_rfl
    · exact add_nonneg hH hD
  inTime := fun j hj hL => by
    have hheard : ((overdue timers members L T H D).nodes j).lastHeartbeat = 0 := if_neg hL
    refine .inr ⟨⟨j, .heartbeat L T, H⟩, ?_, ⟨rfl, rfl⟩, by rw [hheard, zero_add]⟩
    have hfirst : (⟨j, .heartbeat L T, H⟩ : Sent) ∈
        (others members L).map fun k => ⟨k, .heartbeat L T, H⟩ :=
      List.mem_map.mpr ⟨j, mem_others.mpr ⟨hj, hL⟩, rfl⟩
    exact List.mem_append_left _ (List.mem_append_right _ hfirst)

/-- The loop of another node goes round, and it starts an election. -/
def overdueRun (timers : Timers) (i : String) (H D : Time) : List Label :=
  [.wake i (H + D), .startElection i (H + D) timers.timeoutMin]

theorem overdue_wakes {i : String} (hi : i ∈ members) (hL : i ≠ L)
    (hmargin : timers.timeoutMin < H + D) :
    step timers members (overdue timers members L T H D) (.wake i (H + D)) =
      some ((overdue timers members L T H D).setLoop i .due) := by
  have hrole : ((overdue timers members L T H D).nodes i).election.role = .follower := if_neg hL
  have hheard : ((overdue timers members L T H D).nodes i).lastHeartbeat = 0 := if_neg hL
  have hdue : ((overdue timers members L T H D).nodes i).shouldStartElection (H + D) = true := by
    unfold Timed.shouldStartElection
    rw [if_neg (by rw [hrole]; decide), hheard, sub_zero]
    exact decide_eq_true hmargin
  have hclock : { overdue timers members L T H D with clock := (Label.wake i (H + D)).now } =
      overdue timers members L T H D := rfl
  have hloop : (overdue timers members L T H D).loops i = .idle := rfl
  rw [step_now le_rfl (no_timeout rfl), hclock]
  simp only [act, hloop]
  rw [if_neg (not_not.mpr hi), if_neg (by rw [hrole]; decide), if_pos hdue]

theorem overdue_starts (timers : Timers) (members : List String) (L i : String) (T : Nat)
    (H D : Time) :
    ∃ t, step timers members ((overdue timers members L T H D).setLoop i .due)
        (.startElection i (H + D) timers.timeoutMin) = some t ∧
      (t.nodes i).election.role = .candidate := by
  have hdraw : ∀ timeout ∈ (Label.startElection i (H + D) timers.timeoutMin).timeout?,
      timers.Draws timeout := by
    intro timeout ht
    obtain rfl := Option.some.inj ht
    exact ⟨le_rfl, timers.le⟩
  rw [step_now le_rfl hdraw]
  simp only [act, State.loops_setLoop_self]
  refine ⟨_, rfl, ?_⟩
  simp [State.setNode, State.setLoop, Timed.startElection, ElectionManager.startElection]

theorem overdue_deposes {i : String} (hi : i ∈ members) (hL : i ≠ L) (hH : 0 ≤ H) (hD : 0 ≤ D)
    (hmargin : timers.timeoutMin < H + D) :
    Along (step timers members) (OnTime members L T H D) (overdue timers members L T H D)
        (overdueRun timers i H D) ∧
      ∃ t, exec (step timers members) (overdue timers members L T H D)
          (overdueRun timers i H D) = some t ∧ ¬ Leads L T t := by
  have hwake := overdue_wakes (T := T) hi hL hmargin
  obtain ⟨t, hstart, hrole⟩ := overdue_starts timers members L i T H D
  have hsends : ∀ j ∈ members, j ≠ L →
      H + D ≤ (overdue timers members L T H D).lastSend L j + H := by
    intro j hj hjL
    rw [lastSend_overdue hj hjL]
    exact le_add_of_nonneg_right hH
  refine ⟨⟨⟨hsends, fun p hp _ => ?_⟩, fun s' hs => ?_⟩, t, ?_, fun hleads => ?_⟩
  · obtain ⟨j, -, rfl | rfl⟩ := sent_overdue hp
    · exact le_rfl
    · exact le_add_of_nonneg_right hD
  · obtain rfl := Option.some.inj (hwake.symm.trans hs)
    exact ⟨⟨hsends, trivial⟩, fun _ _ => trivial⟩
  · exact exec_cons.mpr ⟨_, hwake, exec_cons.mpr ⟨t, hstart, rfl⟩⟩
  · have hfollower := hleads.followers i hL
    rw [hrole] at hfollower
    cases hfollower

/-- A leader that all have followed is deposed when two rounds are late. -/
theorem late_rounds_depose {i : String} (hi : i ∈ members) (hL : i ≠ L) (hleader : L ∈ members)
    (hH : 0 ≤ H) (hD : 0 ≤ D) (hmargin : timers.timeoutMin < H + D) :
    ∃ t, exec (step timers members) (followed timers L T)
        (round members L H ++ round members L (H + D) ++ overdueRun timers i H D) = some t ∧
      ¬ Leads L T t := by
  obtain ⟨-, t, hrun, hnot⟩ := overdue_deposes (T := T) hi hL hH hD hmargin
  exact ⟨t, exec_append.mpr ⟨_, exec_overdue hleader hH hD, hrun⟩, hnot⟩

/-- **How late heartbeats may be**: where each member is sent a heartbeat at least every
    `H` and none is overdue by `D` when a timer is looked at, a leader that all follow stays the
    only leader, without a candidate, in all runs if and only if `H + D` is at most the least
    timeout. -/
theorem leader_stays_iff {i : String} (hi : i ∈ members) (hnamed : L ≠ "") (hL : i ≠ L)
    (hH : 0 ≤ H) (hD : 0 ≤ D) :
    (∀ s ls t, Stable timers members L T H s →
        Along (step timers members) (OnTime members L T H D) s ls →
        exec (step timers members) s ls = some t → Leads L T t) ↔
      H + D ≤ timers.timeoutMin := by
  constructor
  · intro hstays
    by_contra hmargin
    obtain ⟨hon, t, hrun, hnot⟩ := overdue_deposes (T := T) hi hL hH hD (not_le.mp hmargin)
    exact hnot (hstays _ _ t (stable_overdue hnamed hH hD) hon hrun)
  · intro hmargin s ls t hs hon hrun
    have hstable := exec_inv_along
      (fun s l s' h hP hstep => stable_step h hmargin hD hP hstep) hs hon hrun
    exact hstable.leads

end

/-- The timeouts of the default configuration. A heartbeat each second may come half a second late;
    when one of them is left out, the next one comes too late. -/
def defaultTimers : Timers := ⟨3 / 2, 3, by norm_num⟩

theorem leader_stays_iff_sample :
    (∀ s ls t, Stable defaultTimers ["a", "b", "c"] "a" 1 1 s →
        Along (step defaultTimers ["a", "b", "c"]) (OnTime ["a", "b", "c"] "a" 1 1 (1 / 2)) s ls →
        exec (step defaultTimers ["a", "b", "c"]) s ls = some t → Leads "a" 1 t) ↔
      (1 : Time) + 1 / 2 ≤ defaultTimers.timeoutMin :=
  leader_stays_iff (i := "b") (by decide) (by decide) (by decide) zero_le_one (by norm_num)

end ElectionTimer

end MiniDb
