/-
  `handle_append_entries` at a follower (`cluster/election.py`), for messages whose entries carry
  the indices that follow `prev_log_index`.

  The loop over the entries merges them into the log (`appendEntries_eq_mergeAt`), and
  `append_effect` says all that a call can do. `append_entries_matching`: an accepted message of a
  leader leaves the follower with the leader's log up to the last entry sent, and log matching
  holds as before. `match_index_exact_iff` is about the answer: the match index and the commit
  index are taken from the length of the log, also where the follower has entries behind those
  that were sent and compared.
-/
import MiniDb.Cluster.Election
import MiniDb.Lib.LogMatching

namespace MiniDb

open Lib

namespace ElectionManager

/-! ## What a call does -/

/-- A heartbeat leaves the log alone. -/
theorem receiveHeartbeat_keeps (m : ElectionManager) (leaderId : String) (term : Nat) :
    (m.receiveHeartbeat leaderId term).1.log = m.log ∧
      (m.receiveHeartbeat leaderId term).1.commitIndex = m.commitIndex ∧
      (m.receiveHeartbeat leaderId term).1.lastApplied = m.lastApplied := by
  unfold receiveHeartbeat
  dsimp only
  split_ifs <;> exact ⟨rfl, rfl, rfl⟩

/-- The manager when it has taken the sender for its leader. -/
def heard (m : ElectionManager) (r : AppendRequest) : ElectionManager :=
  (m.receiveHeartbeat r.leaderId r.term).1

section Heard

variable (m : ElectionManager) (r : AppendRequest)

@[simp] theorem heard_log : (m.heard r).log = m.log :=
  (receiveHeartbeat_keeps m r.leaderId r.term).1

@[simp] theorem heard_commitIndex : (m.heard r).commitIndex = m.commitIndex :=
  (receiveHeartbeat_keeps m r.leaderId r.term).2.1

@[simp] theorem heard_lastApplied : (m.heard r).lastApplied = m.lastApplied :=
  (receiveHeartbeat_keeps m r.leaderId r.term).2.2

end Heard

/-- The entry at place `index` of the log has another term. -/
def Conflicts (log : List LogEntry) (index term : Nat) : Prop :=
  0 < index ∧ ∃ own, log[index - 1]? = some own ∧ own.term ≠ term

/-- The entries carry the indices that follow `prev_log_index`. -/
def Consecutive (r : AppendRequest) : Prop :=
  ∀ j e, r.entries[j]? = some e → e.index = r.prevLogIndex + j + 1

theorem entryAt_succ (log : List LogEntry) (i : Nat) : entryAt log (i + 1) = log[i]? :=
  if_neg (Nat.succ_ne_zero i)

theorem takeBefore_succ (log : List LogEntry) (i : Nat) : takeBefore log (i + 1) = log.take i :=
  if_neg (Nat.succ_ne_zero i)

/-- **The loop merges**, and raises nothing. -/
theorem appendEntries_eq_mergeAt {log es : List LogEntry} {p : Nat} (hp : p ≤ log.length)
    (hidx : ∀ j e, es[j]? = some e → e.index = p + j + 1) :
    appendEntries log es = (mergeAt LogEntry.term log p es, true) := by
  induction es generalizing log p with
  | nil => rfl
  | cons e es ih =>
    have he : e.index = p + 1 := hidx 0 e rfl
    have hrest : ∀ j e', es[j]? = some e' → e'.index = p + 1 + j + 1 := by
      intro j e' he'
      rw [hidx (j + 1) e' he']
      omega
    unfold appendEntries
    rw [he]
    by_cases hlen : p + 1 ≤ log.length
    · rw [if_pos hlen, entryAt_succ, takeBefore_succ, List.getElem?_eq_getElem hlen]
      dsimp only
      by_cases hterm : log[p].term = e.term
      · rw [if_neg (not_not.mpr hterm), ih hlen hrest,
          mergeAt_kept (List.getElem?_eq_getElem hlen) hterm]
      · have hlength : (log.take p ++ [e]).length = p + 1 := by
          rw [List.length_append, List.length_take_of_le hp, List.length_singleton]
        have hother : ∀ own, log[p]? = some own → own.term ≠ e.term := by
          intro own hown
          rw [List.getElem?_eq_getElem hlen, Option.some.injEq] at hown
          exact hown ▸ hterm
        rw [if_pos hterm, ih (le_of_eq hlength.symm) hrest, ← hlength, mergeAt_length,
          mergeAt_replaced hother, List.append_assoc, List.singleton_append]
    · have hend : p = log.length := by omega
      subst hend
      have hlength : (log ++ [e]).length = log.length + 1 := List.length_append
      rw [if_neg hlen, ih (le_of_eq hlength.symm) hrest, ← hlength, mergeAt_length, mergeAt_length,
        List.append_assoc, List.singleton_append]

/-- All that a call can do: the manager afterwards, the entries applied, and the answer. -/
inductive AppendEffect (m : ElectionManager) (r : AppendRequest) :
    ElectionManager × List LogEntry × Option (Nat × Bool × Nat) → Prop where
  | stale (hterm : r.term < m.currentTerm) :
      AppendEffect m r (m, [], some (m.currentTerm, false, 0))
  | missing (hterm : m.currentTerm ≤ r.term) (hlen : m.log.length < r.prevLogIndex) :
      AppendEffect m r (m.heard r, [], some ((m.heard r).currentTerm, false, m.log.length))
  | conflict (hterm : m.currentTerm ≤ r.term) (hlen : r.prevLogIndex ≤ m.log.length)
      (h : Conflicts m.log r.prevLogIndex r.prevLogTerm) :
      AppendEffect m r ({ m.heard r with log := m.log.take (r.prevLogIndex - 1) }, [],
        some ((m.heard r).currentTerm, false, (m.log.take (r.prevLogIndex - 1)).length))
  | appended (hterm : m.currentTerm ≤ r.term) (hlen : r.prevLogIndex ≤ m.log.length)
      (h : ¬Conflicts m.log r.prevLogIndex r.prevLogTerm) {log : List LogEntry}
      (hlog : log = mergeAt LogEntry.term m.log r.prevLogIndex r.entries)
      {m' : ElectionManager} {applied : List LogEntry}
      (hcommit : advanceCommit { m.heard r with log := log } r.leaderCommit = (m', applied)) :
      AppendEffect m r (m', applied, some (m'.currentTerm, true, m'.log.length))

theorem conflicts_iff (log : List LogEntry) (index term : Nat) :
    0 < index ∧ (entryAt log index).any (fun e => e.term ≠ term) ↔ Conflicts log index term := by
  refine and_congr_right fun hpos => ?_
  obtain ⟨i, rfl⟩ : ∃ i, index = i + 1 := ⟨index - 1, by omega⟩
  rw [entryAt_succ, Nat.add_sub_cancel]
  cases log[i]? with
  | none => simp
  | some own => simp

theorem append_effect (m : ElectionManager) {r : AppendRequest} (hidx : Consecutive r) :
    AppendEffect m r (m.handleAppendEntries r) := by
  have hheard : (m.receiveHeartbeat r.leaderId r.term).1 = m.heard r := rfl
  unfold handleAppendEntries
  by_cases hterm : r.term < m.currentTerm
  · rw [if_pos hterm]
    exact .stale hterm
  rw [if_neg hterm]
  have hle := not_lt.mp hterm
  simp only [hheard, heard_log]
  by_cases hlen : m.log.length < r.prevLogIndex
  · rw [if_pos ⟨Nat.zero_lt_of_lt hlen, hlen⟩]
    exact .missing hle hlen
  have hlen' := not_lt.mp hlen
  rw [if_neg fun h => hlen h.2]
  by_cases hc : Conflicts m.log r.prevLogIndex r.prevLogTerm
  · obtain ⟨i, hi⟩ : ∃ i, r.prevLogIndex = i + 1 :=
      ⟨r.prevLogIndex - 1, (Nat.sub_add_cancel hc.1).symm⟩
    have htake : takeBefore m.log r.prevLogIndex = m.log.take (r.prevLogIndex - 1) := by
      rw [hi, takeBefore_succ, Nat.add_sub_cancel]
    rw [if_pos ((conflicts_iff _ _ _).mpr hc), htake]
    exact .conflict hle hlen' hc
  · rw [if_neg fun h => hc ((conflicts_iff _ _ _).mp h), appendEntries_eq_mergeAt hlen' hidx]
    exact .appended hle hlen' hc rfl rfl

/-! ## The commit index -/

theorem log_of_advanceCommit {m m' : ElectionManager} {leaderCommit : Nat}
    {applied : List LogEntry} (h : m.advanceCommit leaderCommit = (m', applied)) :
    m'.log = m.log := by
  have hlog : (m.advanceCommit leaderCommit).1.log = m.log := by
    unfold advanceCommit
    split <;> rfl
  rwa [h] at hlog

/-- What is applied are entries of the log, from the first that was not applied on. -/
theorem getElem?_applied (m : ElectionManager) (leaderCommit : Nat) {j : Nat} {e : LogEntry}
    (h : (m.advanceCommit leaderCommit).2[j]? = some e) : m.log[m.lastApplied + j]? = some e := by
  unfold advanceCommit at h
  split at h
  · rw [List.getElem?_drop, List.getElem?_take] at h
    split at h
    · exact h
    · cases h
  · cases h

/-! ## Messages of a leader -/

/-- The entry at position `i`, counted from 1, has index `i`. -/
def Indexed (log : List LogEntry) : Prop :=
  ∀ i e, log[i]? = some e → e.index = i + 1

/-- The message is one that a leader with this log sends: some entries, and the index and the term
    of the one before them. -/
structure SentFrom (leader : List LogEntry) (r : AppendRequest) : Prop where
  prev : r.prevLogIndex ≤ leader.length
  prevTerm : ∀ e, 0 < r.prevLogIndex → leader[r.prevLogIndex - 1]? = some e →
    r.prevLogTerm = e.term
  entries : r.entries <+: leader.drop r.prevLogIndex

/-- The position of the last entry sent. -/
def lastSent (r : AppendRequest) : Nat := r.prevLogIndex + r.entries.length

section FromLeader

variable {m : ElectionManager} {r : AppendRequest} {leader : List LogEntry}

theorem SentFrom.consecutive (hindexed : Indexed leader) (hsent : SentFrom leader r) :
    Consecutive r := by
  intro j e he
  refine hindexed (r.prevLogIndex + j) e ?_
  obtain ⟨rest, hrest⟩ := hsent.entries
  obtain ⟨hj, -⟩ := List.getElem?_eq_some_iff.mp he
  rw [← List.getElem?_drop, ← hrest, List.getElem?_append_left hj, he]

theorem SentFrom.lastSent_le (hsent : SentFrom leader r) : lastSent r ≤ leader.length := by
  have hlen := hsent.entries.length_le
  rw [List.length_drop] at hlen
  have hprev := hsent.prev
  unfold lastSent
  omega

/-- What the follower compares says that it has the leader's log so far. -/
theorem take_prev (hsent : SentFrom leader r) (hmatch : LogMatch LogEntry.term m.log leader)
    (hlen : r.prevLogIndex ≤ m.log.length)
    (h : ¬Conflicts m.log r.prevLogIndex r.prevLogTerm) :
    m.log.take r.prevLogIndex = leader.take r.prevLogIndex := by
  cases hp : r.prevLogIndex with
  | zero => rfl
  | succ i =>
    have hown : i < m.log.length := by omega
    have he : i < leader.length := by
      have := hsent.prev
      omega
    have hpos : 0 < r.prevLogIndex := by omega
    have hterm := hsent.prevTerm leader[i] hpos (by rw [hp]; exact List.getElem?_eq_getElem he)
    refine hmatch i m.log[i] leader[i] (List.getElem?_eq_getElem hown)
      (List.getElem?_eq_getElem he) ?_
    by_contra hne
    refine h ⟨hpos, m.log[i], ?_, hterm ▸ hne⟩
    rw [hp]
    exact List.getElem?_eq_getElem hown

/-- What a call that answers success has done. -/
theorem of_success (hindexed : Indexed leader) (hsent : SentFrom leader r)
    (hmatch : LogMatch LogEntry.term m.log leader) {term matchIndex : Nat}
    (hanswer : (m.handleAppendEntries r).2.2 = some (term, true, matchIndex)) :
    m.currentTerm ≤ r.term ∧ matchIndex = (m.handleAppendEntries r).1.log.length ∧
      (∀ j e, (m.handleAppendEntries r).2.1[j]? = some e →
        (m.handleAppendEntries r).1.log[m.lastApplied + j]? = some e) ∧
      (m.log.take (lastSent r) = leader.take (lastSent r) ∧
          (m.handleAppendEntries r).1.log = m.log ∨
        (m.handleAppendEntries r).1.log = leader.take (lastSent r)) := by
  have heffect := append_effect m (hsent.consecutive hindexed)
  generalize m.handleAppendEntries r = out at hanswer heffect
  cases heffect with
  | stale => cases hanswer
  | missing => cases hanswer
  | conflict => cases hanswer
  | @appended hterm hlen h log hlog m' applied hcommit =>
    have hkept : m'.log = log := log_of_advanceCommit hcommit
    refine ⟨hterm, (Prod.mk.inj (Prod.mk.inj (Option.some.inj hanswer)).2).2.symm, ?_, ?_⟩
    · intro j e he
      have hmem : (advanceCommit { m.heard r with log := log } r.leaderCommit).2[j]? = some e := by
        rw [hcommit]
        exact he
      have happlied := getElem?_applied { m.heard r with log := log } r.leaderCommit hmem
      rw [heard_lastApplied] at happlied
      exact hkept ▸ happlied
    · show _ ∧ m'.log = _ ∨ m'.log = _
      rw [hkept, hlog]
      rcases mergeAt_of_match hmatch (take_prev hsent hmatch hlen h) hsent.entries with
        ⟨hfront, hmerge⟩ | ⟨-, hmerge⟩
      · exact .inl ⟨hfront, hmerge⟩
      · exact .inr hmerge

/-- **Log matching**: a call that answers success leaves the leader's log up to the last entry
    sent, and the logs still match. -/
theorem append_entries_matching (hindexed : Indexed leader) (hsent : SentFrom leader r)
    (hmatch : LogMatch LogEntry.term m.log leader) {term matchIndex : Nat}
    (hanswer : (m.handleAppendEntries r).2.2 = some (term, true, matchIndex)) :
    (m.handleAppendEntries r).1.log.take (lastSent r) = leader.take (lastSent r) ∧
      LogMatch LogEntry.term (m.handleAppendEntries r).1.log leader := by
  obtain ⟨-, -, -, ⟨hfront, hlog⟩ | hlog⟩ := of_success hindexed hsent hmatch hanswer
  · rw [hlog]
    exact ⟨hfront, hmatch⟩
  · rw [hlog, List.take_take, Nat.min_self]
    exact ⟨rfl, LogMatch.take LogEntry.term leader _⟩

/-! ## The answer -/

/-- What an answer of success owes: the follower's log is the leader's up to the match index, and
    every entry applied is the leader's at its position. -/
structure AnswersExactly (m : ElectionManager) (r : AppendRequest) (leader : List LogEntry) :
    Prop where
  log : ∀ term matchIndex, (m.handleAppendEntries r).2.2 = some (term, true, matchIndex) →
    (m.handleAppendEntries r).1.log.take matchIndex = leader.take matchIndex
  applied : ∀ term matchIndex, (m.handleAppendEntries r).2.2 = some (term, true, matchIndex) →
    ∀ j e, (m.handleAppendEntries r).2.1[j]? = some e → leader[m.lastApplied + j]? = some e

/-- The follower has all that was sent already: the call answers success and changes nothing. -/
theorem success_of_take (hindexed : Indexed leader) (hsent : SentFrom leader r)
    (hmatch : LogMatch LogEntry.term m.log leader) (hterm : m.currentTerm ≤ r.term)
    (hfront : m.log.take (lastSent r) = leader.take (lastSent r)) :
    (m.handleAppendEntries r).1.log = m.log ∧
      ∃ term, (m.handleAppendEntries r).2.2 = some (term, true, m.log.length) := by
  have hsame : ∀ i, i < lastSent r → m.log[i]? = leader[i]? := fun i hi =>
    getElem?_of_take hfront hi
  have hlong : lastSent r ≤ m.log.length := by
    have hlen := congrArg List.length hfront
    rw [List.length_take, List.length_take_of_le hsent.lastSent_le] at hlen
    omega
  have hprev : r.prevLogIndex ≤ m.log.length := le_trans (Nat.le_add_right _ _) hlong
  have heffect := append_effect m (hsent.consecutive hindexed)
  generalize m.handleAppendEntries r = out at heffect
  cases heffect with
  | stale hlt => exact absurd hterm (not_le.mpr hlt)
  | missing _ hlen => exact absurd hprev (not_le.mpr hlen)
  | conflict _ _ h =>
    obtain ⟨hpos, own, hown, hne⟩ := h
    have hbefore : r.prevLogIndex - 1 < lastSent r := by
      unfold lastSent
      omega
    exact absurd (hsent.prevTerm own hpos (hsame _ hbefore ▸ hown)).symm hne
  | @appended _ hlen h log hlog m' applied hcommit =>
    have hkept : m'.log = log := log_of_advanceCommit hcommit
    rcases mergeAt_of_match hmatch (take_prev hsent hmatch hlen h) hsent.entries with
      ⟨-, hmerge⟩ | ⟨hne, -⟩
    · have hsame : m'.log = m.log := by rw [hkept, hlog, hmerge]
      exact ⟨hsame, m'.currentTerm, by rw [hsame]⟩
    · exact absurd hfront hne

/-- **Exactly when the answer is right**: the message is stale; or the follower's log is the front
    of the leader's; or it differs from it at or before the last entry sent. Where the follower
    has what was sent and something else behind it, that is answered for and applied too. -/
theorem match_index_exact_iff (hindexed : Indexed leader) (hsent : SentFrom leader r)
    (hmatch : LogMatch LogEntry.term m.log leader) :
    AnswersExactly m r leader ↔
      r.term < m.currentTerm ∨ m.log <+: leader ∨
        m.log.take (lastSent r) ≠ leader.take (lastSent r) := by
  constructor
  · intro h
    by_contra hnot
    simp only [not_or, not_lt, ne_eq, not_not] at hnot
    obtain ⟨hterm, hinitial, hfront⟩ := hnot
    obtain ⟨hlog, term, hanswer⟩ := success_of_take hindexed hsent hmatch hterm hfront
    have hexact := h.log term _ hanswer
    rw [hlog, List.take_length] at hexact
    exact hinitial (hexact ▸ List.take_prefix _ leader)
  · intro h
    have hinitial : ∀ term matchIndex,
        (m.handleAppendEntries r).2.2 = some (term, true, matchIndex) →
        (m.handleAppendEntries r).1.log <+: leader := by
      intro term matchIndex hanswer
      obtain ⟨hterm, -, -, ⟨hfront, hlog⟩ | hlog⟩ := of_success hindexed hsent hmatch hanswer
      · rcases h with hstale | hpre | hne
        · exact absurd hterm (not_le.mpr hstale)
        · exact hlog ▸ hpre
        · exact absurd hfront hne
      · exact hlog ▸ List.take_prefix _ leader
    constructor
    · intro term matchIndex hanswer
      obtain ⟨-, hlen, -⟩ := of_success hindexed hsent hmatch hanswer
      rw [hlen, List.take_length]
      exact List.prefix_iff_eq_take.mp (hinitial term matchIndex hanswer)
    · intro term matchIndex hanswer j e he
      obtain ⟨-, -, happlied, -⟩ := of_success hindexed hsent hmatch hanswer
      have hown := happlied j e he
      obtain ⟨rest, hrest⟩ := hinitial term matchIndex hanswer
      obtain ⟨hj, -⟩ := List.getElem?_eq_some_iff.mp hown
      rw [← hrest, List.getElem?_append_left hj, hown]

end FromLeader

/-! ### An entry behind what was sent -/

def firstEntry : LogEntry := { term := 1, index := 1, command := .set, key := "a" }

/-- Written by the leader of term 2. -/
def leaderEntry : LogEntry := { term := 2, index := 2, command := .set, key := "b" }

/-- Left from a leader of term 1. -/
def staleEntry : LogEntry := { term := 1, index := 2, command := .set, key := "c" }

/-- A follower that has the first entry and the stale one. -/
def staleFollower : ElectionManager :=
  { nodeId := "n2", currentTerm := 2, log := [firstEntry, staleEntry] }

/-- A message from the log of the two entries of the leader, after the first. -/
def messageAfterFirst (entries : List LogEntry) : AppendRequest :=
  { leaderId := "n1", term := 2, prevLogIndex := 1, prevLogTerm := 1, entries := entries
    leaderCommit := 2 }

theorem indexed_leader : Indexed [firstEntry, leaderEntry] := by
  intro i e he
  match i with
  | 0 => cases he; rfl
  | 1 => cases he; rfl
  | i + 2 => cases he

theorem match_staleFollower :
    LogMatch LogEntry.term staleFollower.log [firstEntry, leaderEntry] := by
  intro i x y hx hy hterm
  match i with
  | 0 => rfl
  | 1 =>
    cases hx
    cases hy
    cases hterm
  | i + 2 => cases hx

theorem sentFrom_messageAfterFirst {entries : List LogEntry} (h : entries <+: [leaderEntry]) :
    SentFrom [firstEntry, leaderEntry] (messageAfterFirst entries) := by
  refine ⟨Nat.le_succ 1, fun e _ he => ?_, h⟩
  cases he
  rfl

theorem append_entries_matching_sample :
    (staleFollower.handleAppendEntries (messageAfterFirst [leaderEntry])).2.2 =
        some (2, true, 2) ∧
      (staleFollower.handleAppendEntries (messageAfterFirst [leaderEntry])).1.log.take 2 =
        [firstEntry, leaderEntry] ∧
      LogMatch LogEntry.term
        (staleFollower.handleAppendEntries (messageAfterFirst [leaderEntry])).1.log
        [firstEntry, leaderEntry] :=
  ⟨rfl, append_entries_matching indexed_leader
    (sentFrom_messageAfterFirst (List.prefix_refl _)) match_staleFollower rfl⟩

theorem match_index_exact_iff_sample :
    AnswersExactly staleFollower (messageAfterFirst [leaderEntry]) [firstEntry, leaderEntry] ↔
      2 < 2 ∨ staleFollower.log <+: [firstEntry, leaderEntry] ∨
        staleFollower.log.take 2 ≠ [firstEntry, leaderEntry].take 2 :=
  match_index_exact_iff indexed_leader (sentFrom_messageAfterFirst (List.prefix_refl _))
    match_staleFollower

/-- A heartbeat with the leader's commit index 2 meets the stale entry at position 2: it is
    answered for, committed and applied. -/
theorem stale_entry_applied :
    SentFrom [firstEntry, leaderEntry] (messageAfterFirst []) ∧
      LogMatch LogEntry.term staleFollower.log [firstEntry, leaderEntry] ∧
      (staleFollower.handleAppendEntries (messageAfterFirst [])).2 =
        ([firstEntry, staleEntry], some (2, true, 2)) ∧
      ¬AnswersExactly staleFollower (messageAfterFirst []) [firstEntry, leaderEntry] := by
  refine ⟨sentFrom_messageAfterFirst (List.nil_prefix), match_staleFollower, rfl, fun h => ?_⟩
  have happlied := h.applied 2 2 rfl 1 staleEntry rfl
  cases happlied

end ElectionManager

end MiniDb
