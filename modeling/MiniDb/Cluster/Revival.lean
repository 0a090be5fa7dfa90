/-
  Revival: what a receiver holds of a node that it has just heard from.

  A GOSSIP or HEARTBEAT from `s` carries the sender's table, with the sender's own record stamped
  by its own clock. `alive_after_message_iff`: after the receiver has processed it, its record of
  `s` is ALIVE if and only if it was not DEAD before, or the carried record beats the held one.
  A SUSPECT is revived by `update_heartbeat` whatever the clocks say; a DEAD one only by the
  merge, which compares the sender's time with a time the receiver may have stamped.

  A handler that raises has not processed its message.
-/
import MiniDb.Cluster.LocalEntry

namespace MiniDb.Revival

open Lib Lib.Json MembershipManager LocalEntry NodeInfo

/-! ## Messages that carry a table -/

/-- `get_members_data` -/
def getMembersData (m : MembershipManager) : List Json :=
  (m.members.items.map Prod.snd).map toDict

/-- The messages with members; a HEARTBEAT with what the election manager answers. -/
inductive Carrier where
  | gossip
  | heartbeat (answer : ElectionAnswer)

/-- `handle_cluster_message` of a message from `s`. -/
def receive (localId : String) (now : Time) (m : MembershipManager)
    (fields : List (String × Json)) (s : String) : Carrier → MembershipManager
  | .gossip => handleGossipMessage localId now m (.obj fields) (.str s)
  | .heartbeat answer => handleHeartbeat localId now m (.obj fields) (.str s) answer

/-- The message names a leader. -/
def NamesLeader (fields : List (String × Json)) : Prop :=
  LocalEntry.truthy ((field? (.obj fields) "leader_id").getD .null) = true

instance (fields : List (String × Json)) : Decidable (NamesLeader fields) :=
  inferInstanceAs (Decidable (_ = true))

/-- The table when the handler comes to the members. -/
def atMembers (localId : String) (m : MembershipManager) (fields : List (String × Json)) :
    Carrier → MembershipManager
  | .gossip => m
  | .heartbeat answer => if NamesLeader fields then afterElection localId m answer else m

/-- The handler does not raise before the members. -/
def ReachesMembers (fields : List (String × Json)) : Carrier → Prop
  | .gossip => True
  | .heartbeat answer => ¬ (NamesLeader fields ∧ answer = .raised)

/-- The handler ends without raising. -/
def Processed (localId : String) (now : Time) (m : MembershipManager)
    (fields : List (String × Json)) (members : List Json) (carrier : Carrier) : Prop :=
  ReachesMembers fields carrier ∧
    (handleGossip localId now (atMembers localId m fields carrier) members).2 = true

/-- The table has an ALIVE record of `s`. -/
def AliveAt (m : MembershipManager) (s : String) : Prop :=
  ∃ n, m.getNode s = some n ∧ n.state = .alive

/-! ## What each operation does to one record -/

variable {localId s : String} {now : Time} {m m' : MembershipManager}

/-- `update_heartbeat` on one record. -/
def heard (now : Time) (n : NodeInfo) : NodeInfo :=
  { n with
    lastHeartbeat := .float now
    state := if n.state = .suspect then .alive else n.state }

theorem heard_alive_iff (n : NodeInfo) : (heard now n).state = .alive ↔ n.state ≠ .dead := by
  show (if n.state = .suspect then NodeState.alive else n.state) = .alive ↔ _
  cases n.state <;> decide

/-- A merged record is new, or newer than the held one, or the held one stays. -/
theorem merge_cases {r : NodeInfo} (h : m.merge r = some m') :
    (m.getNode r.nodeId = none ∧ m'.getNode r.nodeId = some r) ∨
      ∃ held, m.getNode r.nodeId = some held ∧
        (r.newer held = some true ∧ m'.getNode r.nodeId = some r ∨
          r.newer held = some false ∧ m'.getNode r.nodeId = some held) := by
  have hput : (m.put r).getNode r.nodeId = some r := by rw [getNode_put, if_pos rfl]
  unfold merge at h
  cases hheld : m.getNode r.nodeId with
  | none =>
    rw [hheld] at h
    exact .inl ⟨rfl, Option.some.inj h ▸ hput⟩
  | some held =>
    rw [hheld] at h
    obtain ⟨isNewer, hnewer, rfl⟩ := Option.map_eq_some_iff.mp h
    cases isNewer with
    | false => exact .inr ⟨held, rfl, .inr ⟨hnewer, hheld⟩⟩
    | true => exact .inr ⟨held, rfl, .inl ⟨hnewer, hput⟩⟩

/-- Records of other nodes leave the record of `s`. -/
theorem getNode_gossipItem_other {r : NodeInfo} (hid : r.nodeId ≠ s)
    (h : gossipItem localId now m r.toDict = some m') : m'.getNode s = m.getNode s := by
  rw [gossipItem_toDict] at h
  split at h
  · rw [Option.some.inj h]
  · exact getNode_merge hid h

theorem getNode_handleGossip_others {rs : List NodeInfo} (hrs : ∀ r ∈ rs, r.nodeId ≠ s) :
    (handleGossip localId now m (rs.map toDict)).1.getNode s = m.getNode s := by
  induction rs generalizing m with
  | nil => rfl
  | cons r rs ih =>
    rw [List.map_cons, handleGossip]
    split
    · rfl
    · rename_i hitem
      rw [ih fun r hr => hrs r (List.mem_cons_of_mem _ hr),
        getNode_gossipItem_other (hrs r List.mem_cons_self) hitem]

/-- Members with one record of each node merge that of `s` once. -/
theorem handleGossip_merges {rs : List NodeInfo} {r : NodeInfo}
    (hnodup : (rs.map NodeInfo.nodeId).Nodup) (hr : r ∈ rs) (hlocal : r.nodeId ≠ localId)
    (hended : (handleGossip localId now m (rs.map toDict)).2 = true) :
    ∃ m₁ m₂ : MembershipManager, m₁.getNode r.nodeId = m.getNode r.nodeId ∧
      m₁.merge r = some m₂ ∧
      (handleGossip localId now m (rs.map toDict)).1.getNode r.nodeId = m₂.getNode r.nodeId := by
  induction rs generalizing m with
  | nil => cases hr
  | cons r' rs ih =>
    rw [List.map_cons, List.nodup_cons] at hnodup
    rw [List.map_cons, handleGossip] at hended ⊢
    cases hitem : gossipItem localId now m r'.toDict with
    | none =>
      rw [hitem] at hended
      cases hended
    | some m' =>
      rw [hitem] at hended
      rcases List.mem_cons.mp hr with rfl | hr
      · have hothers : ∀ r' ∈ rs, r'.nodeId ≠ r.nodeId := fun r' hr' heq =>
          hnodup.1 (List.mem_map.mpr ⟨r', hr', heq⟩)
        rw [gossipItem_toDict, if_neg hlocal] at hitem
        exact ⟨m, m', rfl, hitem, getNode_handleGossip_others hothers⟩
      · have hother : r'.nodeId ≠ r.nodeId := fun heq =>
          hnodup.1 (List.mem_map.mpr ⟨r, hr, heq.symm⟩)
        rw [← getNode_gossipItem_other hother hitem]
        exact ih hnodup.2 hr hended

theorem getNode_updateHeartbeat (m : MembershipManager) (s : String) :
    (m.updateHeartbeat now s).getNode s = (m.getNode s).map (heard now) := by
  unfold updateHeartbeat
  cases hget : m.getNode s with
  | none => exact hget
  | some n =>
    have hid : n.nodeId = s := m.keyed s n hget
    simp only [getNode_put]
    exact if_pos hid.symm

theorem getNode_afterElection (hs : s ≠ localId) (answer : ElectionAnswer) :
    (afterElection localId m answer).getNode s = m.getNode s := by
  unfold afterElection
  split
  · unfold setNodeRole
    split
    · rfl
    · rename_i n hget
      rw [getNode_put, if_neg]
      show s ≠ n.nodeId
      rw [m.keyed _ _ hget]
      exact hs
  · rfl

theorem getNode_atMembers (hs : s ≠ localId) (fields : List (String × Json))
    (carrier : Carrier) : (atMembers localId m fields carrier).getNode s = m.getNode s := by
  cases carrier with
  | gossip => rfl
  | heartbeat answer =>
    by_cases hnames : NamesLeader fields
    · rw [atMembers, if_pos hnames, getNode_afterElection hs]
    · rw [atMembers, if_neg hnames]

/-! ## The whole message -/

/-- The two messages do the same once they come to the members. -/
theorem receive_eq {fields : List (String × Json)} {members : List Json} {carrier : Carrier}
    (hmembers : field? (.obj fields) "members" = some (.arr members)) (hne : members ≠ [])
    (hreaches : ReachesMembers fields carrier) :
    receive localId now m fields s carrier =
      gossipThenHeartbeat localId now (atMembers localId m fields carrier) (.arr members)
        (.str s) := by
  cases carrier with
  | gossip => simp only [receive, handleGossipMessage, hmembers, Option.getD_some, atMembers]
  | heartbeat answer =>
    have htruthy : LocalEntry.truthy (.arr members) = true := by
      cases members with
      | nil => exact absurd rfl hne
      | cons _ _ => rfl
    simp only [receive, handleHeartbeat, hmembers, Option.getD_some, htruthy, if_true, atMembers]
    exact if_neg hreaches

theorem mem_getMembersData {sent : MembershipManager} {r : NodeInfo}
    (hr : sent.getNode s = some r) : r ∈ sent.members.items.map Prod.snd :=
  List.mem_map.mpr ⟨(s, r), (sent.members.mem_items_iff s r).mpr hr, rfl⟩

/-- A message that was processed has merged the sender's record, and heard from the sender. -/
theorem receive_merges (hs : s ≠ localId) {sent : MembershipManager} {r : NodeInfo}
    (hr : sent.getNode s = some r) {fields : List (String × Json)}
    (hmembers : field? (.obj fields) "members" = some (.arr (getMembersData sent)))
    {carrier : Carrier}
    (hprocessed : Processed localId now m fields (getMembersData sent) carrier) :
    ∃ m₁ m₂ : MembershipManager, m₁.getNode s = m.getNode s ∧ m₁.merge r = some m₂ ∧
      (receive localId now m fields s carrier).getNode s = (m₂.getNode s).map (heard now) := by
  have hid : r.nodeId = s := sent.keyed s r hr
  have hmem := mem_getMembersData hr
  have hne : getMembersData sent ≠ [] := by
    intro hnil
    rw [getMembersData, List.map_eq_nil_iff] at hnil
    rw [hnil] at hmem
    cases hmem
  have hnodup : ((sent.members.items.map Prod.snd).map NodeInfo.nodeId).Nodup := by
    rw [map_nodeId_items]
    exact sent.members.nodup_keys
  obtain ⟨hreaches, hended⟩ := hprocessed
  obtain ⟨m₁, m₂, hfirst, hmerge, hlast⟩ :=
    handleGossip_merges hnodup hmem (hid.symm ▸ hs) hended
  rw [hid] at hfirst hlast
  rw [getNode_atMembers hs] at hfirst
  refine ⟨m₁, m₂, hfirst, hmerge, ?_⟩
  rw [receive_eq hmembers hne hreaches, ← hlast]
  simp only [gossipThenHeartbeat, iterate, hended, if_true, heartbeatOf]
  exact getNode_updateHeartbeat _ s

/-- The carried record, stamped `clock`, replaces the held one. -/
def Beats (clock : Time) (carried held : NodeInfo) : Prop :=
  greater carried.incarnation held.incarnation = some true ∨
    greater (.float clock) held.lastHeartbeat = some true

theorem newer_iff_beats {r held : NodeInfo} {clock : Time}
    (hclock : r.lastHeartbeat = .float clock) {isNewer : Bool}
    (hnewer : r.newer held = some isNewer) : isNewer = true ↔ Beats clock r held := by
  unfold newer at hnewer
  obtain ⟨byIncarnation, hinc, hnewer⟩ := Option.bind_eq_some_iff.mp hnewer
  unfold Beats
  rw [← hclock, hinc]
  cases byIncarnation with
  | true => exact iff_of_true (Option.some.inj hnewer).symm (.inl rfl)
  | false =>
    have hbeat : greater r.lastHeartbeat held.lastHeartbeat = some isNewer := hnewer
    rw [hbeat, Option.some.injEq, Option.some.injEq]
    exact (or_iff_right Bool.false_ne_true).symm

/-- **Exactly when hearing from a node leaves it ALIVE**: whatever the receiver's table and the
    two clocks are, once a GOSSIP or HEARTBEAT with the sender's ALIVE record, stamped with the
    sender's time, has been processed, the receiver's record of the sender is ALIVE if and only
    if it was not a DEAD one that the carried record does not beat. -/
theorem alive_after_message_iff (hs : s ≠ localId) {sent : MembershipManager} {r : NodeInfo}
    (hr : sent.getNode s = some r) (halive : r.state = .alive) {clock : Time}
    (hclock : r.lastHeartbeat = .float clock) {fields : List (String × Json)}
    (hmembers : field? (.obj fields) "members" = some (.arr (getMembersData sent)))
    {carrier : Carrier}
    (hprocessed : Processed localId now m fields (getMembersData sent) carrier) :
    AliveAt (receive localId now m fields s carrier) s ↔
      ∀ held, m.getNode s = some held → held.state = .dead → Beats clock r held := by
  obtain ⟨m₁, m₂, hfirst, hmerge, hlast⟩ := receive_merges hs hr hmembers hprocessed
  have hstate : ∀ n, m₂.getNode s = some n →
      (AliveAt (receive localId now m fields s carrier) s ↔ n.state ≠ .dead) := by
    intro n hn
    unfold AliveAt
    rw [hlast, hn]
    simp only [Option.map_some, Option.some.injEq, exists_eq_left', heard_alive_iff]
  have hcarried : r.state ≠ .dead := by
    rw [halive]
    decide
  have hcases := merge_cases hmerge
  rw [sent.keyed s r hr, hfirst] at hcases
  obtain ⟨hnone, hn⟩ | ⟨held, hheld, ⟨hnewer, hn⟩ | ⟨hnewer, hn⟩⟩ := hcases
  · refine iff_of_true ((hstate r hn).mpr hcarried) fun held hheld => ?_
    rw [hnone] at hheld
    cases hheld
  · have hbeats := (newer_iff_beats hclock hnewer).mp rfl
    refine iff_of_true ((hstate r hn).mpr hcarried) fun held' hheld' _ => ?_
    rw [← Option.some.inj (hheld.symm.trans hheld')]
    exact hbeats
  · have hnot : ¬ Beats clock r held := fun hbeats =>
      Bool.false_ne_true ((newer_iff_beats hclock hnewer).mpr hbeats)
    rw [hstate held hn, hheld]
    constructor
    · intro hlives held' hheld' hdead
      rw [← Option.some.inj hheld'] at hdead
      exact absurd hdead hlives
    · exact fun hbeats hdead => hnot (hbeats held rfl hdead)

/-! ### A receiver whose clock is ahead -/

/-- Node `b` as its own table has it at its time `clock`. -/
def peerAt (clock : Time) : NodeInfo :=
  { nodeId := "b", host := .str "h", clientPort := .int 7002, clusterPort := .int 8002,
    lastHeartbeat := .float clock }

/-- The payload of its message then. -/
def membersOf (clock : Time) : List (String × Json) :=
  [("members", .arr (getMembersData (start (peerAt clock))))]

/-- The receiver's clock is 95 ahead of `b`'s. It hears from `b` once, then misses it for as long
    as it takes to hold it for dead. -/
def missed : List MemberEvent :=
  [.gossip 100 (.obj (membersOf 5)) (.str "b"), .checkHealth 106 5 15, .checkHealth 116 5 15]

/-- Heard again when its own clock has passed the receiver's time of the first message, `b` is
    ALIVE. -/
theorem alive_after_message_iff_sample :
    ∃ m, exec (step "a") (start ownNode) missed = some m ∧
      (m.getNode "b").map NodeInfo.state = some .dead ∧
      AliveAt (receive "a" 200 m (membersOf 105) "b" .gossip) "b" := by
  obtain ⟨m, hrun⟩ : ∃ m, exec (step "a") (start ownNode) missed = some m := ⟨_, rfl⟩
  have hdead : (m.getNode "b").map NodeInfo.state = some .dead := by
    rw [← Option.some.inj hrun]
    decide +kernel
  have hlater : (m.getNode "b").map (fun held => greater (.float 105) held.lastHeartbeat) =
      some (some true) := by
    rw [← Option.some.inj hrun]
    decide +kernel
  have hprocessed : Processed "a" 200 m (membersOf 105) (getMembersData (start (peerAt 105)))
      .gossip := by
    rw [← Option.some.inj hrun]
    exact ⟨trivial, by decide +kernel⟩
  refine ⟨m, hrun, hdead, ?_⟩
  refine (alive_after_message_iff (by decide) (r := peerAt 105) rfl rfl rfl rfl hprocessed).mpr ?_
  intro held hheld _
  rw [hheld] at hlater
  exact .inr (Option.some.inj hlater)

/-- When `b` is heard again, 17 seconds after the first time, it stays DEAD. -/
theorem heard_but_dead :
    (start (peerAt 22)).getNode "b" = some (peerAt 22) ∧ (peerAt 22).state = .alive ∧
      (peerAt 22).lastHeartbeat = .float 22 ∧
    ∃ m, exec (step "a") (start ownNode) missed = some m ∧
      Processed "a" 117 m (membersOf 22) (getMembersData (start (peerAt 22))) .gossip ∧
      (m.getNode "b").map NodeInfo.state = some .dead ∧
      ¬ AliveAt (receive "a" 117 m (membersOf 22) "b" .gossip) "b" := by
  obtain ⟨m, hrun⟩ : ∃ m, exec (step "a") (start ownNode) missed = some m := ⟨_, rfl⟩
  have hdead : (m.getNode "b").map NodeInfo.state = some .dead := by
    rw [← Option.some.inj hrun]
    decide +kernel
  have hended : Processed "a" 117 m (membersOf 22) (getMembersData (start (peerAt 22)))
      .gossip := by
    rw [← Option.some.inj hrun]
    exact ⟨trivial, by decide +kernel⟩
  have hstays : ((receive "a" 117 m (membersOf 22) "b" .gossip).getNode "b").map NodeInfo.state =
      some .dead := by
    rw [← Option.some.inj hrun]
    decide +kernel
  refine ⟨rfl, rfl, rfl, m, hrun, hended, hdead, ?_⟩
  rintro ⟨n, hn, halive⟩
  rw [hn, Option.map_some, halive] at hstays
  cases hstays

end MiniDb.Revival
