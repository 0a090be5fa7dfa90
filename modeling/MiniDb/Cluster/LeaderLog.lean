/-
  The leader's side of the election log (`cluster/election.py`): `append_entry`, `commit_entries`
  and `_apply_committed_entries`.

  `commit_entries` takes the indices that the followers match, and its own log's length, in
  descending order, stops at the first that a majority reaches, and commits it if the entry there
  is of the current term. `commit_entries_greatest` says that this is the greatest position that can
  be committed at all, among those that are no follower's index too: a majority reaches just the
  positions up to the index found (`Lib.reached_iff_le`), and terms do not fall along the log.
-/
import MiniDb.Cluster.Election
import MiniDb.Lib.Majority

namespace MiniDb

open Lib

namespace ElectionManager

/-- `append_entry`; `none` when this node does not lead. -/
def appendEntry (m : ElectionManager) (now : Time) (command : Command) (key : String)
    (value : Json) (ttl : Option Int) : ElectionManager × Option LogEntry :=
  if m.role ≠ .leader then (m, none)
  else
    let entry : LogEntry :=
      { term := m.currentTerm, index := m.log.length + 1, command := command, key := key
        value := value, ttl := ttl, timestamp := now }
    ({ m with log := m.log ++ [entry] }, some entry)

/-- The loop of `_apply_committed_entries`, with so many rounds to go: the entries it hands to
    `_apply_entry`. -/
def applyEntries (log : List LogEntry) : Nat → Nat → List LogEntry
  | 0, _ => []
  | rounds + 1, lastApplied =>
    match log[lastApplied]? with
    | some entry => entry :: applyEntries log rounds (lastApplied + 1)
    | none => []

/-- `_apply_committed_entries` -/
def applyCommittedEntries (m : ElectionManager) : ElectionManager × List LogEntry :=
  ({ m with lastApplied := max m.lastApplied m.commitIndex },
    applyEntries m.log (m.commitIndex - m.lastApplied) m.lastApplied)

/-- `all_indices`, before it is sorted. -/
def allIndices (m : ElectionManager) (matchIndices : Dict String Int) : List Int :=
  matchIndices.items.map Prod.snd ++ [(m.log.length : Int)]

/-- The loop of `commit_entries` over the sorted indices: the index at which it finds a majority. -/
def majorityIndex (commitIndex majority : Nat) (allIndices : List Int) : List Int → Option Int
  | [] => none
  | idx :: rest =>
    if idx ≤ commitIndex then none
    else if majority ≤ allIndices.countP fun i => idx ≤ i then some idx
    else majorityIndex commitIndex majority allIndices rest

/-- The loop over all indices in descending order. -/
def foundIndex (m : ElectionManager) (matchIndices : Dict String Int) (clusterSize : Nat) :
    Option Int :=
  let indices := (m.allIndices matchIndices).insertionSort (· ≥ ·)
  majorityIndex m.commitIndex (clusterSize / 2 + 1) indices indices

/-- `commit_entries`: the manager afterwards, and the entries applied. -/
def commitEntries (m : ElectionManager) (matchIndices : Dict String Int) (clusterSize : Nat) :
    ElectionManager × List LogEntry :=
  if m.role ≠ .leader then (m, [])
  else
    match m.foundIndex matchIndices clusterSize with
    | none => (m, [])
    | some idx =>
      if 0 < idx ∧ idx ≤ m.log.length ∧
          (m.log[(idx - 1).toNat]?).any (fun e => e.term = m.currentTerm) then
        { m with commitIndex := idx.toNat }.applyCommittedEntries
      else (m, [])

/-! ## What is applied -/

theorem applyEntries_eq {log : List LogEntry} {rounds lastApplied : Nat}
    (h : lastApplied + rounds ≤ log.length) :
    applyEntries log rounds lastApplied = (log.drop lastApplied).take rounds := by
  induction rounds generalizing lastApplied with
  | zero => exact (List.take_zero ..).symm
  | succ rounds ih =>
    have hlt : lastApplied < log.length := by omega
    unfold applyEntries
    rw [List.getElem?_eq_getElem hlt]
    dsimp only
    rw [ih (by omega), List.drop_eq_getElem_cons hlt, List.take_succ_cons]

/-! ## The index found -/

theorem majorityIndex_eq {commitIndex majority : Nat} {indices l : List Int}
    (hl : l.Pairwise (· ≥ ·)) :
    majorityIndex commitIndex majority indices l =
      (l.find? fun i => majority ≤ reached indices i).filter fun i => (commitIndex : Int) < i := by
  induction l with
  | nil => rfl
  | cons idx l ih =>
    rw [List.pairwise_cons] at hl
    unfold majorityIndex
    by_cases hle : idx ≤ commitIndex
    · -- no index from here on is above the commit index
      rw [if_pos hle, eq_comm, Option.filter_eq_none_iff]
      intro i hi
      have hmem := List.mem_of_find?_eq_some hi
      have hidx : i ≤ idx := by
        rcases List.mem_cons.mp hmem with rfl | hmem
        · exact le_refl i
        · exact hl.1 i hmem
      simpa using le_trans hidx hle
    · rw [if_neg hle]
      change (if majority ≤ reached indices idx then some idx else _) = _
      by_cases hreached : majority ≤ reached indices idx
      · simp [hreached, Option.filter_some, not_le.mp hle]
      · rw [if_neg hreached, ih hl.2]
        simp [hreached]

section Commit

variable (m : ElectionManager) (matchIndices : Dict String Int) (clusterSize : Nat)

/-- A majority, the leader among them, reaches the position, and its entry is of the current
    term. -/
def Committable (n : Nat) : Prop :=
  (∃ e, m.log[n - 1]? = some e ∧ e.term = m.currentTerm) ∧
    clusterSize / 2 + 1 ≤ reached (m.allIndices matchIndices) n

/-- The leader's log and indices are in order, and no follower matches more than there is. -/
structure LeaderSound : Prop where
  leads : m.role = .leader
  terms : m.log.Pairwise fun e e' => e.term ≤ e'.term
  current : ∀ e ∈ m.log, e.term ≤ m.currentTerm
  applied : m.lastApplied ≤ m.commitIndex
  committed : m.commitIndex ≤ m.log.length
  matched : ∀ i ∈ matchIndices.items.map Prod.snd, 0 ≤ i ∧ i ≤ m.log.length

variable {m matchIndices clusterSize}

/-- With an entry of the current term, all that follow are of the current term. -/
theorem LeaderSound.current_of_le (h : LeaderSound m matchIndices) {n i : Nat} (hpos : 0 < n)
    (hn : ∃ e, m.log[n - 1]? = some e ∧ e.term = m.currentTerm) (hle : n ≤ i)
    (hi : i ≤ m.log.length) : ∃ e, m.log[i - 1]? = some e ∧ e.term = m.currentTerm := by
  obtain ⟨e, he, hterm⟩ := hn
  rcases eq_or_lt_of_le hle with rfl | hlt
  · exact ⟨e, he, hterm⟩
  · have hi' : i - 1 < m.log.length := by omega
    have hn' : n - 1 < m.log.length := by omega
    refine ⟨m.log[i - 1], List.getElem?_eq_getElem hi', le_antisymm ?_ ?_⟩
    · exact h.current _ (List.getElem_mem hi')
    · rw [List.getElem?_eq_getElem hn', Option.some.injEq] at he
      rw [← hterm, ← he]
      exact List.pairwise_iff_getElem.mp h.terms (n - 1) (i - 1) hn' hi' (by omega)

theorem foundIndex_eq : m.foundIndex matchIndices clusterSize =
    (((m.allIndices matchIndices).insertionSort (· ≥ ·)).find? fun i =>
      clusterSize / 2 + 1 ≤ reached (m.allIndices matchIndices) i).filter fun i =>
        (m.commitIndex : Int) < i := by
  unfold foundIndex
  rw [majorityIndex_eq (List.pairwise_insertionSort _ _)]
  simp only [reached_perm (List.perm_insertionSort (· ≥ ·) (m.allIndices matchIndices))]

/-- If the loop finds no majority, none reaches a position above the commit index. -/
theorem not_reached_of_none (h : m.foundIndex matchIndices clusterSize = none) {n : Nat}
    (hn : m.commitIndex < n) : ¬clusterSize / 2 + 1 ≤ reached (m.allIndices matchIndices) n := by
  rw [foundIndex_eq, Option.filter_eq_none_iff] at h
  intro hreached
  cases hfind : ((m.allIndices matchIndices).insertionSort (· ≥ ·)).find? fun i =>
      clusterSize / 2 + 1 ≤ reached (m.allIndices matchIndices) i with
  | none =>
    refine reached_lt_of_forall (Nat.succ_pos _) (fun j hj => ?_) _ hreached
    simpa using List.find?_eq_none.mp hfind j (List.mem_insertionSort _ |>.mpr hj)
  | some idx =>
    have hgreatest := isGreatest_find? (List.pairwise_insertionSort _ _) hfind
    simp only [decide_eq_true_eq, List.mem_insertionSort] at hgreatest
    have hle := (reached_iff_le (Nat.succ_pos _) hgreatest (n : Int)).mp hreached
    have hidx : ¬(m.commitIndex : Int) < idx := by simpa using h idx hfind
    omega

/-- The index that the loop finds is the greatest that a majority reaches. -/
theorem reached_iff_of_some {idx : Int} (h : m.foundIndex matchIndices clusterSize = some idx) :
    (m.commitIndex : Int) < idx ∧ idx ∈ m.allIndices matchIndices ∧
      ∀ n : Int, clusterSize / 2 + 1 ≤ reached (m.allIndices matchIndices) n ↔ n ≤ idx := by
  rw [foundIndex_eq, Option.filter_eq_some_iff] at h
  have hgreatest := isGreatest_find? (List.pairwise_insertionSort _ _) h.1
  simp only [decide_eq_true_eq, List.mem_insertionSort] at hgreatest
  exact ⟨of_decide_eq_true h.2, hgreatest.1.1, reached_iff_le (Nat.succ_pos _) hgreatest⟩

/-- **What is committed**: the greatest position above the commit index that can be, or none if
    there is none, and then the entries not applied so far are applied, up to it. -/
theorem commit_entries_greatest (h : LeaderSound m matchIndices) (clusterSize : Nat) :
    (IsGreatest {n | m.commitIndex < n ∧ Committable m matchIndices clusterSize n}
          (m.commitEntries matchIndices clusterSize).1.commitIndex ∨
        (∀ n, m.commitIndex < n → ¬Committable m matchIndices clusterSize n) ∧
          (m.commitEntries matchIndices clusterSize).1.commitIndex = m.commitIndex) ∧
      (m.commitIndex < (m.commitEntries matchIndices clusterSize).1.commitIndex →
        (m.commitEntries matchIndices clusterSize).2 =
          (m.log.take (m.commitEntries matchIndices clusterSize).1.commitIndex).drop
            m.lastApplied) := by
  unfold commitEntries
  rw [if_neg (not_not.mpr h.leads)]
  cases hfound : m.foundIndex matchIndices clusterSize with
  | none =>
    refine ⟨.inr ⟨fun n hn hc => not_reached_of_none hfound hn hc.2, rfl⟩, ?_⟩
    exact fun hlt => absurd hlt (lt_irrefl _)
  | some idx =>
    obtain ⟨hlt, hmem, hreached⟩ := reached_iff_of_some hfound
    have hrange : 0 ≤ idx ∧ idx ≤ m.log.length := by
      rcases List.mem_append.mp hmem with hmem | hmem
      · exact h.matched idx hmem
      · rw [List.mem_singleton.mp hmem]
        exact ⟨Int.natCast_nonneg _, le_refl _⟩
    obtain ⟨i, rfl⟩ := Int.eq_ofNat_of_zero_le hrange.1
    have hi : m.commitIndex < i := by omega
    have hpos : (i : Int) - 1 = (i - 1 : Nat) := by omega
    dsimp only
    rw [hpos, Int.toNat_natCast, Int.toNat_natCast]
    by_cases hterm : (m.log[i - 1]?).any (fun e => e.term = m.currentTerm)
    · rw [if_pos ⟨by omega, hrange.2, hterm⟩]
      have hentry : ∃ e, m.log[i - 1]? = some e ∧ e.term = m.currentTerm := by
        cases he : m.log[i - 1]? with
        | none =>
          rw [he] at hterm
          cases hterm
        | some e =>
          rw [he] at hterm
          exact ⟨e, rfl, of_decide_eq_true hterm⟩
      have hend : m.lastApplied + (i - m.lastApplied) ≤ m.log.length := by
        have := h.applied
        omega
      refine ⟨.inl ⟨⟨hi, hentry, (hreached i).mpr (le_refl _)⟩, fun n hn => ?_⟩, fun _ => ?_⟩
      · exact Int.ofNat_le.mp ((hreached n).mp hn.2.2)
      · show applyEntries m.log (i - m.lastApplied) m.lastApplied =
          (m.log.take i).drop m.lastApplied
        rw [applyEntries_eq hend, List.drop_take]
    · rw [if_neg fun hc => hterm hc.2.2]
      refine ⟨.inr ⟨fun n hn hc => hterm ?_, rfl⟩, fun hlt => absurd hlt (lt_irrefl _)⟩
      have hle := (hreached n).mp hc.2
      obtain ⟨e, he, hcurrent⟩ := h.current_of_le (i := i) (by omega) hc.1 (by omega) (by omega)
      rw [he, Option.any_some, decide_eq_true hcurrent]

end Commit

/-! ### A leader with two followers -/

/-- The leader of term 2 with an entry of term 1 and one of term 2. -/
def twoTermLeader : ElectionManager :=
  { nodeId := "n1", currentTerm := 2, role := .leader
    log := [{ term := 1, index := 1, command := .set, key := "a" },
      { term := 2, index := 2, command := .set, key := "b" }] }

/-- What the followers match. -/
def followersAt (i j : Int) : Dict String Int := (Dict.empty.set "n2" i).set "n3" j

theorem leaderSound_twoTermLeader {i j : Int} (hi : 0 ≤ i ∧ i ≤ 2) (hj : 0 ≤ j ∧ j ≤ 2) :
    LeaderSound twoTermLeader (followersAt i j) := by
  refine ⟨rfl, by decide, by decide, by decide, by decide, ?_⟩
  intro k hk
  change k ∈ [i, j] at hk
  rcases List.mem_cons.mp hk with rfl | hk
  · exact hi
  · rw [List.mem_singleton.mp hk]
    exact hj

theorem commit_entries_greatest_sample :
    (IsGreatest {n | 0 < n ∧ Committable twoTermLeader (followersAt 2 0) 3 n}
          (twoTermLeader.commitEntries (followersAt 2 0) 3).1.commitIndex ∨
        (∀ n, 0 < n → ¬Committable twoTermLeader (followersAt 2 0) 3 n) ∧
          (twoTermLeader.commitEntries (followersAt 2 0) 3).1.commitIndex = 0) ∧
      (0 < (twoTermLeader.commitEntries (followersAt 2 0) 3).1.commitIndex →
        (twoTermLeader.commitEntries (followersAt 2 0) 3).2 =
          (twoTermLeader.log.take
            (twoTermLeader.commitEntries (followersAt 2 0) 3).1.commitIndex).drop 0) :=
  commit_entries_greatest (leaderSound_twoTermLeader (by decide) (by decide)) 3

end ElectionManager

end MiniDb
