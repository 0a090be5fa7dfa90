/-
  What holds of every record of a membership table, through everything that writes the table
  (`cluster/membership.py`).

  `All.handleGossip` says what gossip of whole tables does when all records are stamped: it does
  not raise, it keeps the property, and every record of another node is offered to the register
  of its node, while those of the node itself are skipped.
-/
import MiniDb.Cluster.Revival

namespace MiniDb.MembershipManager

open Lib Lib.Json NodeInfo EitherNewer LocalEntry

/-- Every record of the table is one of `P`. -/
def All (P : NodeInfo → Prop) (m : MembershipManager) : Prop := ∀ k n, m.getNode k = some n → P n

variable {P : NodeInfo → Prop} {m : MembershipManager}

theorem all_empty : All P .empty := fun _ _ h => by cases h

theorem All.put (h : All P m) {n : NodeInfo} (hn : P n) : All P (m.put n) := by
  intro k n' hn'
  rw [getNode_put] at hn'
  split at hn'
  · exact Option.some.inj hn' ▸ hn
  · exact h k n' hn'

theorem All.stamped (h : All P m) (hP : ∀ n, P n → n.Stamped) : m.AllStamped :=
  fun k n hn => hP n (h k n hn)

theorem All.mem_items (h : All P m) {n : NodeInfo} (hn : n ∈ m.members.items.map Prod.snd) :
    P n := by
  obtain ⟨⟨k, n'⟩, hmem, rfl⟩ := List.mem_map.mp hn
  exact h k n' ((m.members.mem_items_iff k n').mp hmem)

/-- A merged table has the record, or is the table. -/
theorem All.merge (h : All P m) {r : NodeInfo} (hr : P r) {m' : MembershipManager}
    (hm' : m.merge r = some m') : All P m' := by
  unfold MembershipManager.merge at hm'
  split at hm'
  · exact Option.some.inj hm' ▸ h.put hr
  · obtain ⟨isNewer, -, rfl⟩ := Option.map_eq_some_iff.mp hm'
    cases isNewer with
    | false => exact h
    | true => exact h.put hr

/-- Records of the node itself are skipped. -/
theorem handleGossip_skips (localId : String) (now : Time) (m : MembershipManager)
    (rs : List NodeInfo) :
    handleGossip localId now m (rs.map toDict) =
      handleGossip localId now m ((rs.filter fun r => r.nodeId ≠ localId).map toDict) := by
  induction rs generalizing m with
  | nil => rfl
  | cons r rs ih =>
    have hitem : gossipItem localId now m r.toDict =
        if r.nodeId = localId then some m else m.merge r := gossipItem_toDict m r
    by_cases hlocal : r.nodeId = localId
    · rw [if_pos hlocal] at hitem
      rw [List.map_cons, MembershipManager.handleGossip, hitem,
        List.filter_cons_of_neg (by simpa using hlocal)]
      exact ih m
    · rw [List.filter_cons_of_pos (by simpa using hlocal), List.map_cons, List.map_cons,
        MembershipManager.handleGossip, MembershipManager.handleGossip]
      cases gossipItem localId now m r.toDict with
      | none => rfl
      | some m' => exact ih m'

theorem All.handleGossip_keeps (h : All P m) (localId : String) (now : Time)
    {rs : List NodeInfo} (hrs : ∀ r ∈ rs, P r) :
    All P (m.handleGossip localId now (rs.map toDict)).1 := by
  induction rs generalizing m with
  | nil => exact h
  | cons r rs ih =>
    have hrest := fun r hr => hrs r (List.mem_cons_of_mem _ hr)
    have hitem : gossipItem localId now m r.toDict =
        if r.nodeId = localId then some m else m.merge r := gossipItem_toDict m r
    rw [List.map_cons, MembershipManager.handleGossip, hitem]
    by_cases hlocal : r.nodeId = localId
    · rw [if_pos hlocal]
      exact ih h hrest
    · rw [if_neg hlocal]
      cases hmerge : m.merge r with
      | none => exact h
      | some m' => exact ih (h.merge (hrs r List.mem_cons_self) hmerge) hrest

/-- Gossip of stamped records to a table of stamped records. -/
theorem All.handleGossip (h : All P m) (hP : ∀ n, P n → n.Stamped) (localId : String)
    (now : Time) {rs : List NodeInfo} (hrs : ∀ r ∈ rs, P r) :
    ∃ m', m.handleGossip localId now (rs.map toDict) = (m', true) ∧ All P m' ∧
      ∀ k, k ≠ localId → m'.getNode k =
        offerAll incarnationNumber heartbeatNumber (m.getNode k)
          (rs.filter fun r => r.nodeId = k) := by
  have hothers : ∀ r ∈ rs.filter (fun r => r.nodeId ≠ localId),
      r.nodeId ≠ localId ∧ r.Stamped := by
    intro r hr
    obtain ⟨hmem, hid⟩ := List.mem_filter.mp hr
    exact ⟨by simpa using hid, hP r (hrs r hmem)⟩
  obtain ⟨m', hgossip, -, hget⟩ := handleGossip_stamped now (h.stamped hP) hothers
  rw [← handleGossip_skips] at hgossip
  refine ⟨m', hgossip, ?_, fun k hk => ?_⟩
  · have hkeeps := h.handleGossip_keeps localId now hrs
    rwa [hgossip] at hkeeps
  · rw [hget, List.filter_filter]
    congr 1
    refine List.filter_congr fun r _ => ?_
    by_cases hid : r.nodeId = k
    · simp [hid, hk]
    · simp [hid]

theorem All.updateHeartbeat (h : All P m) {now : Time} {nodeId : String}
    (hP : ∀ n, P n → P (Revival.heard now n)) : All P (m.updateHeartbeat now nodeId) := by
  unfold MembershipManager.updateHeartbeat
  cases hget : m.getNode nodeId with
  | none => exact h
  | some n => exact h.put (hP n (h _ n hget))

theorem All.setNodeRole (h : All P m) {nodeId : String} {role : NodeRole}
    (hP : ∀ n, P n → P { n with role := role }) : All P (m.setNodeRole nodeId role) := by
  unfold MembershipManager.setNodeRole
  cases hget : m.getNode nodeId with
  | none => exact h
  | some n => exact h.put (hP n (h _ n hget))

/-- Adding a stamped record does not raise. -/
theorem All.addNode (h : All P m) (hP : ∀ n, P n → n.Stamped) {r : NodeInfo} (hr : P r) :
    ∃ m', m.addNode r = some m' ∧ All P m' := by
  unfold MembershipManager.addNode
  cases hget : m.getNode r.nodeId with
  | none => exact ⟨m.put r, rfl, h.put hr⟩
  | some existing =>
    simp only [greater_number (hP r hr).1 (hP _ (h _ _ hget)).1, Option.map_some]
    split
    · exact ⟨m.put r, rfl, h.put hr⟩
    · exact ⟨m, rfl, h⟩

end MiniDb.MembershipManager
