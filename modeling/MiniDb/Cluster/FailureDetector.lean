/-
  Failure detection in a cluster (`cluster/membership.py`): health checks, gossip and heartbeats
  between any number of nodes, with messages that are lost, late or repeated.

  `never_suspected`: while every health check finds that its node has heard from `q` within the
  failure timeout (or, not having heard from it yet, holds a record that fresh), no table and no
  message in flight has a record of `q` that is not ALIVE: nobody spreads a suspicion that no
  check has raised, and merging never makes a record look older.

  `silent_is_dead`: when `q` sends nothing any more, a node that holds its latest record declares
  it DEAD with the second of two checks after the timeouts, and it stays DEAD there.

  Nobody calls `increment_incarnation`: all incarnations are 0, and records compare by their
  heartbeats. Clocks are local, and the stamps of a record may come from any of them. Removing a
  node, which nothing does, is left out.

  A seed answers a JOIN with its table, under "data"; `join_cluster` reads the members one level
  above, so that it merges nothing (`handleJoinReply_seed`), and a joiner hears of the others by
  gossip and heartbeats only.
-/
import MiniDb.Cluster.Records
import MiniDb.Network.Protocol

namespace MiniDb.FailureDetector

open Lib Lib.Json MembershipManager NodeInfo

/-- A GOSSIP or HEARTBEAT on its way. -/
structure Gossip where
  dest : String
  sender : String
  members : List NodeInfo

/-- A RESPONSE to a JOIN on its way. -/
structure JoinReply where
  dest : String
  payload : Json

structure State where
  tables : String → MembershipManager
  sent : List Gossip := []
  replies : List JoinReply := []
  /-- When the first node last heard from the second, by its own clock. -/
  heard : String → String → Option Time := fun _ _ => none

inductive Label where
  | checkHealth (i : String) (now : Time)
  | send (i dest : String)
  /-- A message that was sent is handled; it may have been before. -/
  | deliver (k : Nat) (now : Time)
  /-- The seed `i` handles a JOIN. -/
  | join (i : String) (now : Time) (localNode : NodeInfo)
  /-- The joiner gets the reply. -/
  | joined (k : Nat) (now : Time)
  | setRole (i nodeId : String) (role : NodeRole)
  | restart (i : String) (localNode : NodeInfo)

def setTable (s : State) (i : String) (m : MembershipManager) : State :=
  { s with tables := Function.update s.tables i m }

/-- `i` has heard from `sender`, if it knows it. -/
def hear (s : State) (i sender : String) (now : Time) : State :=
  if ((s.tables i).getNode sender).isSome then
    { s with heard := Function.update s.heard i (Function.update (s.heard i) sender (some now)) }
  else s

/-- The payload of the reply of a seed with this table. -/
def joinReply (m : MembershipManager) : Json :=
  (Network.Protocol.createResponse true
    (.obj [("members", .arr (Revival.getMembersData m))]) .null).payload

def reply (s : State) (dest : String) (payload : Json) : State :=
  { s with replies := s.replies ++ [⟨dest, payload⟩] }

/-- `get_members_data`, as the records it writes. -/
def recordsOf (m : MembershipManager) : List NodeInfo := m.members.items.map Prod.snd

variable (failureTimeout deadTimeout : Time)

def step (s : State) : Label → Option State
  | .checkHealth i now =>
    some (setTable s i (checkNodeHealth i now failureTimeout deadTimeout (s.tables i)))
  | .send i dest => some { s with sent := s.sent ++ [⟨dest, i, recordsOf (s.tables i)⟩] }
  | .deliver k now =>
    (s.sent[k]?).map fun g =>
      hear (setTable s g.dest (LocalEntry.gossipThenHeartbeat g.dest now (s.tables g.dest)
        (.arr (g.members.map toDict)) (.str g.sender))) g.dest g.sender now
  | .join i now localNode =>
    let m := LocalEntry.handleJoin now (s.tables i) localNode.toDict
    some (reply (setTable s i m) localNode.nodeId (joinReply m))
  | .joined k now =>
    (s.replies[k]?).map fun r =>
      setTable s r.dest (LocalEntry.handleJoinReply r.dest now (s.tables r.dest) r.payload)
  | .setRole i nodeId role => some (setTable s i ((s.tables i).setNodeRole nodeId role))
  | .restart i localNode =>
    some { setTable s i (LocalEntry.start localNode) with
      heard := Function.update s.heard i fun _ => none }

/-! ## Plain records -/

/-- A record as nodes write it: incarnation 0, and a number for its heartbeat. -/
structure Plain (n : NodeInfo) : Prop where
  incarnation : n.incarnation = .int 0
  heartbeat : n.lastHeartbeat.number? ≠ none

/-- A record with which a node starts. -/
structure Starts (i : String) (n : NodeInfo) : Prop extends Plain n where
  nodeId : n.nodeId = i
  alive : n.state = .alive

/-- Nodes start and join with such records. -/
def WellFormed : Label → Prop
  | .join _ _ localNode => Starts localNode.nodeId localNode
  | .restart i localNode => Starts i localNode
  | _ => True

theorem wellFormed_check (i : String) (now : Time) : WellFormed (.checkHealth i now) := trivial

structure Clean (s : State) : Prop where
  tables : ∀ i, (s.tables i).All Plain
  sent : ∀ g ∈ s.sent, ∀ n ∈ g.members, Plain n
  replies : ∀ r ∈ s.replies, ∃ m, r.payload = joinReply m

/-- The record after a check: what `checkNode` makes of it. -/
def checked (now : Time) (n : NodeInfo) : NodeInfo :=
  { n with
    state := match n.state with
      | .alive => if failureTimeout < now - n.heartbeatNumber then .suspect else .alive
      | .suspect => if deadTimeout < now - n.heartbeatNumber then .dead else .suspect
      | .dead => .dead }

/-- What a step can do to the record that `i` holds of another node `q`. -/
inductive Effect (s : State) (i q : String) (old : Option NodeInfo) :
    Label → Option NodeInfo → Prop where
  | same {l : Label} : Effect s i q old l old
  | role {l : Label} {n : NodeInfo} (role : NodeRole) (hold : old = some n) :
      Effect s i q old l (some { n with role := role })
  | check {now : Time} {n : NodeInfo} (hold : old = some n) :
      Effect s i q old (.checkHealth i now) (some (checked failureTimeout deadTimeout now n))
  | gossip {k : Nat} {now : Time} {g : Gossip} (hg : s.sent[k]? = some g) (hdest : g.dest = i)
      (hsender : g.sender ≠ q) :
      Effect s i q old (.deliver k now) (EitherNewer.offerAll incarnationNumber heartbeatNumber old
        (g.members.filter fun r => r.nodeId = q))
  | heard {k : Nat} {now : Time} {g : Gossip} (hg : s.sent[k]? = some g) (hdest : g.dest = i)
      (hsender : g.sender = q) :
      Effect s i q old (.deliver k now)
        ((EitherNewer.offerAll incarnationNumber heartbeatNumber old
          (g.members.filter fun r => r.nodeId = q)).map (Revival.heard now))
  | join {now : Time} {localNode : NodeInfo} (hid : localNode.nodeId = q) (hold : old = none) :
      Effect s i q old (.join i now localNode) (some localNode)
  | restart {localNode : NodeInfo} : Effect s i q old (.restart i localNode) none

variable {failureTimeout deadTimeout}

theorem Plain.stamped (n : NodeInfo) (h : Plain n) : n.Stamped :=
  ⟨by rw [h.incarnation]; exact fun hnone => (by cases hnone), h.heartbeat⟩

theorem Plain.incarnationNumber {n : NodeInfo} (h : Plain n) : n.incarnationNumber = 0 := by
  rw [NodeInfo.incarnationNumber, h.incarnation]
  rfl

theorem Plain.heard {now : Time} (n : NodeInfo) (h : Plain n) : Plain (Revival.heard now n) where
  incarnation := h.incarnation
  heartbeat hnone := by cases hnone

theorem Plain.checked {now : Time} {n : NodeInfo} (h : Plain n) :
    Plain (checked failureTimeout deadTimeout now n) where
  incarnation := h.incarnation
  heartbeat := h.heartbeat

/-! ## Health checks -/

section Checks

variable {i : String} {now : Time} {m : MembershipManager}

theorem checkNode_other {n : NodeInfo} (h : Plain n) (hid : n.nodeId ≠ i) :
    checkNode i now failureTimeout deadTimeout n =
      some (checked failureTimeout deadTimeout now n) := by
  obtain ⟨beat, hbeat⟩ := Option.ne_none_iff_exists'.mp h.heartbeat
  have hnumber : n.heartbeatNumber = beat := by
    rw [heartbeatNumber, hbeat]
    rfl
  unfold checkNode FailureDetector.checked
  rw [if_neg hid, hbeat, Option.map_some, hnumber, Option.some.injEq]
  cases hstate : n.state with
  | alive =>
    simp only
    split
    · rfl
    · rw [← hstate]
  | suspect =>
    simp only
    split
    · rfl
    · rw [← hstate]
  | dead =>
    simp only
    rw [← hstate]

theorem checkNode_own {n : NodeInfo} (hid : n.nodeId = i) :
    checkNode i now failureTimeout deadTimeout n = some { n with lastHeartbeat := .float now } :=
  if_pos hid

/-- A check does not raise on a plain record, and gives a plain record of the same node. -/
theorem checkNode_plain {n : NodeInfo} (h : Plain n) :
    ∃ n', checkNode i now failureTimeout deadTimeout n = some n' ∧ Plain n' ∧
      n'.nodeId = n.nodeId := by
  by_cases hid : n.nodeId = i
  · exact ⟨_, checkNode_own hid, ⟨h.incarnation, fun hnone => by cases hnone⟩, rfl⟩
  · exact ⟨_, checkNode_other h hid, h.checked, rfl⟩

theorem plain_checkNodes (h : m.All Plain) {nodes : List NodeInfo}
    (hnodes : ∀ n ∈ nodes, Plain n) :
    (checkNodes i now failureTimeout deadTimeout m nodes).All Plain := by
  induction nodes generalizing m with
  | nil => exact h
  | cons n nodes ih =>
    obtain ⟨n', hcheck, hn', -⟩ := checkNode_plain (hnodes n List.mem_cons_self)
    rw [checkNodes, hcheck]
    exact ih (h.put hn') fun k hk => hnodes k (List.mem_cons_of_mem _ hk)

theorem getNode_checkNodes_others {q : String} {nodes : List NodeInfo}
    (hnodes : ∀ n ∈ nodes, Plain n) (hq : ∀ n ∈ nodes, n.nodeId ≠ q) :
    (checkNodes i now failureTimeout deadTimeout m nodes).getNode q = m.getNode q := by
  induction nodes generalizing m with
  | nil => rfl
  | cons n nodes ih =>
    obtain ⟨n', hcheck, -, hid⟩ := checkNode_plain (hnodes n List.mem_cons_self)
    rw [checkNodes, hcheck]
    simp only
    rw [ih (fun k hk => hnodes k (List.mem_cons_of_mem _ hk))
      (fun k hk => hq k (List.mem_cons_of_mem _ hk)), getNode_put, if_neg]
    rw [hid]
    exact fun heq => hq n List.mem_cons_self heq.symm

/-- Every record is checked once. -/
theorem getNode_checkNodes {nodes : List NodeInfo} (hnodes : ∀ n ∈ nodes, Plain n)
    (hnodup : (nodes.map NodeInfo.nodeId).Nodup) {n : NodeInfo} (hn : n ∈ nodes) :
    (checkNodes i now failureTimeout deadTimeout m nodes).getNode n.nodeId =
      checkNode i now failureTimeout deadTimeout n := by
  induction nodes generalizing m with
  | nil => cases hn
  | cons n₁ nodes ih =>
    rw [List.map_cons, List.nodup_cons] at hnodup
    have hrest := fun k hk => hnodes k (List.mem_cons_of_mem _ hk)
    obtain ⟨n', hcheck, -, hid⟩ := checkNode_plain (hnodes n₁ List.mem_cons_self)
    rw [checkNodes, hcheck]
    rcases List.mem_cons.mp hn with rfl | hn
    · simp only
      rw [getNode_checkNodes_others hrest, getNode_put, hcheck]
      · exact if_pos hid.symm
      · exact fun k hk heq => hnodup.1 (List.mem_map.mpr ⟨k, hk, heq⟩)
    · exact ih hrest hnodup.2 hn

/-- `_check_node_health` on one record. -/
theorem getNode_checkNodeHealth (h : m.All Plain) (q : String) :
    (checkNodeHealth i now failureTimeout deadTimeout m).getNode q =
      (m.getNode q).bind (checkNode i now failureTimeout deadTimeout) := by
  have hplain : ∀ n ∈ m.members.items.map Prod.snd, Plain n := fun n hn => h.mem_items hn
  unfold checkNodeHealth
  cases hget : m.getNode q with
  | none =>
    rw [getNode_checkNodes_others hplain, hget]
    · rfl
    · intro n hn heq
      obtain ⟨⟨k, n'⟩, hmem, rfl⟩ := List.mem_map.mp hn
      have hitem := (m.members.mem_items_iff k n').mp hmem
      have hkey : k = q := (m.keyed k n' hitem).symm.trans heq
      rw [hkey] at hitem
      exact absurd (hitem.symm.trans hget) (by simp)
  | some n =>
    have hid : n.nodeId = q := m.keyed q n hget
    have hmem : n ∈ m.members.items.map Prod.snd :=
      List.mem_map.mpr ⟨(q, n), (m.members.mem_items_iff q n).mpr hget, rfl⟩
    have hnodup : ((m.members.items.map Prod.snd).map NodeInfo.nodeId).Nodup := by
      rw [map_nodeId_items]
      exact m.members.nodup_keys
    rw [← hid]
    exact getNode_checkNodes hplain hnodup hmem

end Checks

/-! ## What a step does -/

section Steps

variable {s s' : State} {l : Label}

@[simp] theorem setTable_same (s : State) (i : String) (m : MembershipManager) :
    (setTable s i m).tables i = m := Function.update_self _ _ _

theorem setTable_other (s : State) {i j : String} (hj : j ≠ i) (m : MembershipManager) :
    (setTable s i m).tables j = s.tables j := Function.update_of_ne hj _ _

@[simp] theorem hear_tables (s : State) (i sender : String) (now : Time) :
    (hear s i sender now).tables = s.tables := by
  unfold hear
  split <;> rfl

@[simp] theorem hear_sent (s : State) (i sender : String) (now : Time) :
    (hear s i sender now).sent = s.sent := by
  unfold hear
  split <;> rfl

@[simp] theorem hear_replies (s : State) (i sender : String) (now : Time) :
    (hear s i sender now).replies = s.replies := by
  unfold hear
  split <;> rfl

theorem getNode_updateHeartbeat_any (m : MembershipManager) (now : Time) (sender q : String) :
    (m.updateHeartbeat now sender).getNode q =
      if sender = q then (m.getNode q).map (Revival.heard now) else m.getNode q := by
  by_cases hsender : sender = q
  · rw [if_pos hsender, hsender, Revival.getNode_updateHeartbeat]
  · rw [if_neg hsender]
    unfold updateHeartbeat
    cases hother : m.getNode sender with
    | none => rfl
    | some n =>
      simp only [getNode_put]
      rw [if_neg]
      show q ≠ n.nodeId
      rw [m.keyed _ n hother]
      exact Ne.symm hsender

@[simp] theorem reply_tables (s : State) (dest : String) (payload : Json) :
    (reply s dest payload).tables = s.tables := rfl

/-- The joiner finds no members in what a seed replies. -/
theorem handleJoinReply_seed (localId : String) (now : Time) (m seed : MembershipManager) :
    LocalEntry.handleJoinReply localId now m (joinReply seed) = m := rfl

theorem joined_step (h : Clean s) {k : Nat} {now : Time}
    (hs : step failureTimeout deadTimeout s (.joined k now) = some s') : s' = s := by
  obtain ⟨r, hr, rfl⟩ := Option.map_eq_some_iff.mp hs
  obtain ⟨seed, hseed⟩ := h.replies r (List.mem_of_getElem? hr)
  rw [hseed, handleJoinReply_seed, setTable, Function.update_eq_self]

/-- The table of a node that handles a message. -/
theorem gossiped (h : Clean s) {g : Gossip} (hg : g ∈ s.sent) (now : Time) :
    ∃ m', LocalEntry.gossipThenHeartbeat g.dest now (s.tables g.dest)
        (.arr (g.members.map toDict)) (.str g.sender) = m' ∧ m'.All Plain ∧
      ∀ q, q ≠ g.dest → m'.getNode q =
        let offered := EitherNewer.offerAll incarnationNumber heartbeatNumber
          ((s.tables g.dest).getNode q) (g.members.filter fun r => r.nodeId = q)
        if g.sender = q then offered.map (Revival.heard now) else offered := by
  obtain ⟨m₁, hgossip, hm₁, hget⟩ := (h.tables g.dest).handleGossip Plain.stamped g.dest now
    (h.sent g hg)
  refine ⟨m₁.updateHeartbeat now g.sender, ?_, hm₁.updateHeartbeat Plain.heard, fun q hq => ?_⟩
  · simp only [LocalEntry.gossipThenHeartbeat, LocalEntry.iterate, hgossip, if_true,
      LocalEntry.heartbeatOf]
  · rw [getNode_updateHeartbeat_any, hget q hq]

theorem mem_of_getElem? {k : Nat} {g : Gossip} (h : s.sent[k]? = some g) : g ∈ s.sent :=
  List.mem_of_getElem? h

theorem handleJoin_eq {m : MembershipManager} (h : m.All Plain) (now : Time) {n : NodeInfo}
    (hn : Plain n) : (LocalEntry.handleJoin now m n.toDict).All Plain ∧
      ∀ q, (LocalEntry.handleJoin now m n.toDict).getNode q =
        if n.nodeId = q then some ((m.getNode q).getD n) else m.getNode q := by
  have hadd : LocalEntry.handleJoin now m n.toDict = (m.addNode n).getD m := by
    unfold LocalEntry.handleJoin
    rw [fromDict_toDict, Option.bind_some]
  rw [hadd]
  unfold addNode
  cases hget : m.getNode n.nodeId with
  | none =>
    refine ⟨h.put hn, fun q => ?_⟩
    simp only [Option.getD_some, getNode_put]
    by_cases hq : n.nodeId = q
    · rw [if_pos hq.symm, if_pos hq, ← hq, hget, Option.getD_none]
    · rw [if_neg (Ne.symm hq), if_neg hq]
  | some existing =>
    -- no incarnation is greater than another one
    have hgreater : greater n.incarnation existing.incarnation = some false := by
      rw [hn.incarnation, (h _ _ hget).incarnation]
      rfl
    simp only [hgreater, Option.map_some, Bool.false_eq_true, if_false, Option.getD_some]
    refine ⟨h, fun q => ?_⟩
    by_cases hq : n.nodeId = q
    · rw [if_pos hq, ← hq, hget, Option.getD_some]
    · rw [if_neg hq]

theorem clean_step (h : Clean s) (hl : WellFormed l)
    (hs : step failureTimeout deadTimeout s l = some s') : Clean s' := by
  have htables : ∀ {i m}, m.All Plain → ∀ j, ((setTable s i m).tables j).All Plain := by
    intro i m hm j
    by_cases hj : j = i
    · rw [hj, setTable_same]
      exact hm
    · rw [setTable_other s hj]
      exact h.tables j
  cases l with
  | checkHealth i now =>
    obtain rfl := Option.some.inj hs
    exact ⟨htables (plain_checkNodes (h.tables i) fun n hn => (h.tables i).mem_items hn), h.sent,
      h.replies⟩
  | send i dest =>
    obtain rfl := Option.some.inj hs
    refine ⟨h.tables, fun g hg n hn => ?_, h.replies⟩
    rcases List.mem_append.mp hg with hg | hg
    · exact h.sent g hg n hn
    · rw [List.mem_singleton.mp hg] at hn
      exact (h.tables i).mem_items hn
  | deliver k now =>
    obtain ⟨g, hg, rfl⟩ := Option.map_eq_some_iff.mp hs
    obtain ⟨m', hm', hplain, -⟩ := gossiped h (mem_of_getElem? hg) now
    refine ⟨fun j => ?_, ?_, ?_⟩
    · rw [hear_tables, hm']
      exact htables hplain j
    · rw [hear_sent]
      exact h.sent
    · rw [hear_replies]
      exact h.replies
  | join i now localNode =>
    obtain rfl := Option.some.inj hs
    refine ⟨htables (handleJoin_eq (h.tables i) now hl.toPlain).1, h.sent, fun r hr => ?_⟩
    rcases List.mem_append.mp hr with hr | hr
    · exact h.replies r hr
    · rw [List.mem_singleton.mp hr]
      exact ⟨_, rfl⟩
  | joined k now =>
    rw [joined_step h hs]
    exact h
  | setRole i nodeId role =>
    obtain rfl := Option.some.inj hs
    exact ⟨htables ((h.tables i).setNodeRole fun n hn => ⟨hn.incarnation, hn.heartbeat⟩), h.sent,
      h.replies⟩
  | restart i localNode =>
    obtain rfl := Option.some.inj hs
    exact ⟨htables (all_empty.put hl.toPlain), h.sent, h.replies⟩

/-- A check sees every record of another node. -/
theorem check_step (h : Clean s) {i q : String} {now : Time}
    (hs : step failureTimeout deadTimeout s (.checkHealth i now) = some s') (hq : q ≠ i) :
    (s'.tables i).getNode q =
      ((s.tables i).getNode q).map (checked failureTimeout deadTimeout now) := by
  obtain rfl := Option.some.inj hs
  rw [setTable_same, getNode_checkNodeHealth (h.tables i)]
  cases hold : (s.tables i).getNode q with
  | none => rfl
  | some n =>
    have hid : n.nodeId ≠ i := (s.tables i).keyed q n hold ▸ hq
    rw [Option.bind_some, checkNode_other (h.tables i q n hold) hid, Option.map_some]

/-- What a step does to the record that `i` holds of another node. -/
theorem effect_step (h : Clean s) (hl : WellFormed l)
    (hs : step failureTimeout deadTimeout s l = some s') {i q : String} (hq : q ≠ i) :
    Effect failureTimeout deadTimeout s i q ((s.tables i).getNode q) l
      ((s'.tables i).getNode q) := by
  cases l with
  | checkHealth j now =>
    by_cases hj : i = j
    · subst hj
      rw [check_step h hs hq]
      cases (s.tables i).getNode q with
      | none => exact .same
      | some n => exact .check rfl
    · obtain rfl := Option.some.inj hs
      rw [setTable_other s hj]
      exact .same
  | send j dest =>
    obtain rfl := Option.some.inj hs
    exact .same
  | deliver k now =>
    obtain ⟨g, hg, rfl⟩ := Option.map_eq_some_iff.mp hs
    obtain ⟨m', hm', -, hget⟩ := gossiped h (mem_of_getElem? hg) now
    rw [hear_tables, hm']
    by_cases hdest : g.dest = i
    · subst hdest
      rw [setTable_same, hget q hq]
      by_cases hsender : g.sender = q
      · simp only [if_pos hsender]
        exact .heard hg rfl hsender
      · simp only [if_neg hsender]
        exact .gossip hg rfl hsender
    · rw [setTable_other s (Ne.symm hdest)]
      exact .same
  | join j now localNode =>
    obtain rfl := Option.some.inj hs
    rw [reply_tables]
    by_cases hj : i = j
    · subst hj
      rw [setTable_same, (handleJoin_eq (h.tables i) now hl.toPlain).2 q]
      by_cases hid : localNode.nodeId = q
      · rw [if_pos hid]
        cases hold : (s.tables i).getNode q with
        | none => exact .join hid rfl
        | some n => exact .same
      · rw [if_neg hid]
        exact .same
    · rw [setTable_other s hj]
      exact .same
  | joined k now =>
    rw [joined_step h hs]
    exact .same
  | setRole j nodeId role =>
    obtain rfl := Option.some.inj hs
    by_cases hj : i = j
    · subst hj
      rw [setTable_same]
      unfold setNodeRole
      cases hget : (s.tables i).getNode nodeId with
      | none => exact .same
      | some n =>
        simp only [getNode_put]
        have hid := (s.tables i).keyed nodeId n hget
        by_cases hqn : q = n.nodeId
        · rw [if_pos hqn]
          refine .role role ?_
          rw [hqn, hid]
          exact hget
        · rw [if_neg hqn]
          exact .same
    · rw [setTable_other s hj]
      exact .same
  | restart j localNode =>
    obtain rfl := Option.some.inj hs
    by_cases hj : i = j
    · subst hj
      have hnone : ((setTable s i (LocalEntry.start localNode)).tables i).getNode q = none := by
        rw [setTable_same, LocalEntry.start, getNode_put, hl.nodeId, if_neg hq]
        rfl
      exact hnone ▸ .restart
    · have hsame := setTable_other s hj (LocalEntry.start localNode)
      exact (congrArg (MembershipManager.getNode · q) hsame) ▸ .same

end Steps

/-! ## Accuracy -/

/-- `q` is ALIVE wherever it is known, and no record of it is older than what was heard. -/
structure Trusted (q : String) (s : State) : Prop where
  tables : ∀ i n, (s.tables i).getNode q = some n → n.state = .alive
  sent : ∀ g ∈ s.sent, ∀ n ∈ g.members, n.nodeId = q → n.state = .alive
  heard : ∀ i h, i ≠ q → s.heard i q = some h →
    ∃ n, (s.tables i).getNode q = some n ∧ h ≤ n.heartbeatNumber

/-- A check of another node finds that it has heard from `q` within the failure timeout; a node
    that has not heard from `q` yet goes by the stamp of its record. -/
def Timely (failureTimeout : Time) (q : String) (s : State) : Label → Prop
  | .checkHealth i now => i ≠ q → ∀ n, (s.tables i).getNode q = some n →
      now - (s.heard i q).getD n.heartbeatNumber ≤ failureTimeout
  | _ => True

instance (s : State) (l : Label) : Decidable (Timely failureTimeout q s l) :=
  match l with
  | .checkHealth i now =>
    match h : (s.tables i).getNode q with
    | none => .isTrue fun _ n hn => by simp [h] at hn
    | some n =>
      decidable_of_iff (i ≠ q → now - (s.heard i q).getD n.heartbeatNumber ≤ failureTimeout)
        ⟨fun hle hi m hm => Option.some.inj (h.symm.trans hm) ▸ hle hi, fun hall hi => hall hi n h⟩
  | .send .. => .isTrue trivial
  | .deliver .. => .isTrue trivial
  | .join .. => .isTrue trivial
  | .joined .. => .isTrue trivial
  | .setRole .. => .isTrue trivial
  | .restart .. => .isTrue trivial

section Accuracy

variable {s s' : State} {l : Label} {q : String}

theorem checked_alive {now : Time} {n : NodeInfo} (halive : n.state = .alive)
    (hrecent : now - n.heartbeatNumber ≤ failureTimeout) :
    (checked failureTimeout deadTimeout now n).state = .alive := by
  unfold checked
  simp only [halive]
  rw [if_neg (not_lt.mpr hrecent)]

/-- The record of the node itself is ALIVE. -/
theorem own_alive_step (h : Clean s) (hl : WellFormed l)
    (hs : step failureTimeout deadTimeout s l = some s')
    (halive : ∀ n, (s.tables q).getNode q = some n → n.state = .alive) :
    ∀ n, (s'.tables q).getNode q = some n → n.state = .alive := by
  have hother : ∀ {i m}, i ≠ q → ∀ n, ((setTable s i m).tables q).getNode q = some n →
      n.state = .alive := fun hi n hn => halive n (by rwa [setTable_other s (Ne.symm hi)] at hn)
  cases l with
  | checkHealth i now =>
    obtain rfl := Option.some.inj hs
    by_cases hi : i = q
    · subst hi
      intro n hn
      rw [setTable_same, getNode_checkNodeHealth (h.tables i)] at hn
      obtain ⟨n', hget, hcheck⟩ := Option.bind_eq_some_iff.mp hn
      rw [checkNode_own ((s.tables i).keyed i n' hget)] at hcheck
      exact Option.some.inj hcheck ▸ halive n' hget
    · exact hother hi
  | send i dest =>
    obtain rfl := Option.some.inj hs
    exact halive
  | deliver k now =>
    obtain ⟨g, hg, rfl⟩ := Option.map_eq_some_iff.mp hs
    rw [hear_tables]
    by_cases hdest : g.dest = q
    · subst hdest
      intro n hn
      obtain ⟨m₁, hgossip, -, -⟩ := (h.tables g.dest).handleGossip Plain.stamped g.dest now
        (h.sent g (mem_of_getElem? hg))
      have hown : m₁.getNode g.dest = (s.tables g.dest).getNode g.dest := by
        have hsame : ((s.tables g.dest).handleGossip g.dest now
            (g.members.map toDict)).1.getNode g.dest = (s.tables g.dest).getNode g.dest :=
          LocalEntry.getNode_handleGossip _
        rwa [hgossip] at hsame
      rw [setTable_same, LocalEntry.gossipThenHeartbeat, LocalEntry.iterate] at hn
      simp only [hgossip, if_true, LocalEntry.heartbeatOf, getNode_updateHeartbeat_any, hown] at hn
      split at hn
      · obtain ⟨n', hget, rfl⟩ := Option.map_eq_some_iff.mp hn
        rw [Revival.heard_alive_iff, halive n' hget]
        decide
      · exact halive n hn
    · exact hother hdest
  | join i now localNode =>
    obtain rfl := Option.some.inj hs
    rw [reply_tables]
    by_cases hi : i = q
    · subst hi
      intro n hn
      rw [setTable_same, (handleJoin_eq (h.tables i) now hl.toPlain).2 i] at hn
      split at hn
      · cases hget : (s.tables i).getNode i with
        | none =>
          rw [hget] at hn
          exact Option.some.inj hn ▸ hl.alive
        | some n' =>
          rw [hget] at hn
          exact Option.some.inj hn ▸ halive n' hget
      · exact halive n hn
    · exact hother hi
  | joined k now =>
    rw [joined_step h hs]
    exact halive
  | setRole i nodeId role =>
    obtain rfl := Option.some.inj hs
    by_cases hi : i = q
    · subst hi
      intro n hn
      rw [setTable_same] at hn
      unfold setNodeRole at hn
      split at hn
      · exact halive n hn
      · rename_i n' hget
        rw [getNode_put] at hn
        split at hn
        · rename_i hid
          have hkey : i = nodeId := hid.trans ((s.tables i).keyed nodeId n' hget)
          exact Option.some.inj hn ▸ halive n' (hkey ▸ hget)
        · exact halive n hn
    · exact hother hi
  | restart i localNode =>
    obtain rfl := Option.some.inj hs
    by_cases hi : i = q
    · subst hi
      intro n hn
      have hn : ((setTable s i (LocalEntry.start localNode)).tables i).getNode i = some n := hn
      rw [setTable_same, LocalEntry.start, getNode_put, hl.nodeId, if_pos rfl] at hn
      exact Option.some.inj hn ▸ hl.alive
    · exact hother hi

/-- Offers of plain records keep the latest heartbeat. -/
theorem offered_plain {old : Option NodeInfo} (hold : ∀ n, old = some n → Plain n)
    {rs : List NodeInfo} (hrs : ∀ r ∈ rs, Plain r) {n' : NodeInfo}
    (hn' : EitherNewer.offerAll incarnationNumber heartbeatNumber old rs = some n') :
    (old = some n' ∨ n' ∈ rs) ∧ ∀ n, old = some n → n.heartbeatNumber ≤ n'.heartbeatNumber := by
  have hranks := fun r hr => (hrs r hr).incarnationNumber
  cases old with
  | none =>
    cases rs with
    | nil => cases hn'
    | cons r rs =>
      rw [EitherNewer.offerAll_none] at hn'
      obtain ⟨n, hall, hmem, -, -⟩ := EitherNewer.offerAll_flat (q := heartbeatNumber)
        (hranks r List.mem_cons_self) fun x hx => hranks x (List.mem_cons_of_mem _ hx)
      obtain rfl := Option.some.inj (hall.symm.trans hn')
      exact ⟨.inr (List.mem_cons.mpr hmem), fun n h => by cases h⟩
  | some m =>
    obtain ⟨n, hall, hmem, hle, -⟩ := EitherNewer.offerAll_flat (q := heartbeatNumber)
      (hold m rfl).incarnationNumber hranks
    obtain rfl := Option.some.inj (hall.symm.trans hn')
    refine ⟨hmem.imp_left fun heq => congrArg some heq.symm, fun k hk => ?_⟩
    exact Option.some.inj hk ▸ hle

theorem mem_members {g : Gossip} {q : String} {n : NodeInfo}
    (h : n ∈ g.members.filter fun r => r.nodeId = q) : n ∈ g.members ∧ n.nodeId = q := by
  obtain ⟨hmem, hid⟩ := List.mem_filter.mp h
  exact ⟨hmem, by simpa using hid⟩

/-- A step leaves the record of another node ALIVE. -/
theorem Trusted.effect (h : Trusted q s) (hclean : Clean s) (hl : WellFormed l)
    (ht : Timely failureTimeout q s l) {i : String} (hi : i ≠ q) {new : Option NodeInfo}
    (he : Effect failureTimeout deadTimeout s i q ((s.tables i).getNode q) l new) {n : NodeInfo}
    (hn : new = some n) : n.state = .alive := by
  have hplain := fun n hn => (hclean.tables i) q n hn
  have hoffer : ∀ {g : Gossip} {n : NodeInfo}, g ∈ s.sent →
      EitherNewer.offerAll incarnationNumber heartbeatNumber ((s.tables i).getNode q)
        (g.members.filter fun r => r.nodeId = q) = some n → n.state = .alive := by
    intro g n hg hall
    have hmembers : ∀ r ∈ g.members.filter (fun r => r.nodeId = q), Plain r :=
      fun r hr => hclean.sent g hg r (mem_members hr).1
    rcases (offered_plain hplain hmembers hall).1 with hold | hmem
    · exact h.tables i n hold
    · exact h.sent g hg n (mem_members hmem).1 (mem_members hmem).2
  cases he with
  | same => exact h.tables i n hn
  | role r hold =>
    have halive := h.tables i _ hold
    obtain rfl := Option.some.inj hn
    exact halive
  | check hold =>
    rename_i now old
    obtain rfl := Option.some.inj hn
    refine checked_alive (h.tables i old hold) (le_trans ?_ (ht hi old hold))
    cases hheard : s.heard i q with
    | none => exact le_refl _
    | some t =>
      obtain ⟨m, hm, hle⟩ := h.heard i t hi hheard
      obtain rfl := Option.some.inj (hm.symm.trans hold)
      exact sub_le_sub_left hle now
  | gossip hg hdest hsender => exact hoffer (mem_of_getElem? hg) hn
  | heard hg hdest hsender =>
    obtain ⟨m, hall, rfl⟩ := Option.map_eq_some_iff.mp hn
    rw [Revival.heard_alive_iff, hoffer (mem_of_getElem? hg) hall]
    decide
  | join hid hold => exact Option.some.inj hn ▸ hl.alive
  | restart => cases hn

theorem heard_update (s : State) (i j sender q : String) (now : Time) :
    (hear s j sender now).heard i q =
      if i = j ∧ sender = q ∧ ((s.tables j).getNode sender).isSome then some now
      else s.heard i q := by
  unfold hear
  by_cases hknown : ((s.tables j).getNode sender).isSome
  · rw [if_pos hknown]
    by_cases hi : i = j
    · subst hi
      by_cases hq : sender = q
      · subst hq
        simp only [hknown, and_self, if_true, Function.update_self]
      · rw [if_neg fun h => hq h.2.1]
        simp only [Function.update_self]
        exact Function.update_of_ne (Ne.symm hq) _ _
    · rw [if_neg fun h => hi h.1]
      exact congrFun (Function.update_of_ne hi _ _) q
  · rw [if_neg hknown, if_neg fun h => hknown h.2.2]

/-- The step is no restart of `i`, and brings it no message from `q`. -/
def Unheard (s : State) (i q : String) : Label → Prop
  | .deliver k _ => ∀ g, s.sent[k]? = some g → g.dest = i → g.sender ≠ q
  | .restart j _ => i ≠ j
  | _ => True

/-- Without hearing from `q`, a node keeps a record of it, with as late a heartbeat. -/
theorem Effect.keeps {i : String} {m : NodeInfo} {new : Option NodeInfo}
    (he : Effect failureTimeout deadTimeout s i q (some m) l new) (hclean : Clean s)
    (hm : Plain m) (hu : Unheard s i q l) :
    ∃ n, new = some n ∧ m.heartbeatNumber ≤ n.heartbeatNumber := by
  cases he with
  | same => exact ⟨m, rfl, le_refl _⟩
  | role r hold => exact ⟨_, rfl, Option.some.inj hold ▸ le_refl _⟩
  | check hold => exact ⟨_, rfl, Option.some.inj hold ▸ le_refl _⟩
  | gossip hg hdest hsender =>
    obtain ⟨n, hall, -, hle, -⟩ := EitherNewer.offerAll_flat (q := heartbeatNumber)
      hm.incarnationNumber fun r hr =>
        (hclean.sent _ (mem_of_getElem? hg) r (mem_members hr).1).incarnationNumber
    exact ⟨n, hall, hle⟩
  | heard hg hdest hsender => exact absurd hsender (hu _ hg hdest)
  | join hid hold => cases hold
  | restart => exact absurd rfl hu

/-- The record of a node that was heard is not older than that. -/
theorem Trusted.heard_step (h : Trusted q s) (hclean : Clean s) (hl : WellFormed l)
    (hs : step failureTimeout deadTimeout s l = some s') {i : String} (hi : i ≠ q) {t : Time}
    (ht : s'.heard i q = some t) :
    ∃ n, (s'.tables i).getNode q = some n ∧ t ≤ n.heartbeatNumber := by
  -- what was heard before stands, if the record was not replaced
  have hkeeps : Unheard s i q l → s.heard i q = some t →
      ∃ n, (s'.tables i).getNode q = some n ∧ t ≤ n.heartbeatNumber := by
    intro hu hbefore
    obtain ⟨m, hm, hle⟩ := h.heard i t hi hbefore
    have he := effect_step hclean hl hs (Ne.symm hi)
    rw [hm] at he
    obtain ⟨n, hn, hlater⟩ := he.keeps hclean ((hclean.tables i) q m hm) hu
    exact ⟨n, hn, hle.trans hlater⟩
  cases l with
  | deliver k now =>
    have hs₀ := hs
    obtain ⟨g, hg, rfl⟩ := Option.map_eq_some_iff.mp hs
    by_cases hfrom : g.dest = i ∧ g.sender = q
    · obtain ⟨rfl, rfl⟩ := hfrom
      obtain ⟨m', hm', -, hget⟩ := gossiped hclean (mem_of_getElem? hg) now
      have hget := hget g.sender (Ne.symm hi)
      rw [if_pos rfl] at hget
      rw [heard_update, setTable_same, hm', hget] at ht
      rw [hear_tables, setTable_same, hm', hget]
      cases hoffered : EitherNewer.offerAll incarnationNumber heartbeatNumber
          ((s.tables g.dest).getNode g.sender)
          (g.members.filter fun r => r.nodeId = g.sender) with
      | none =>
        rw [hoffered, if_neg (by simp)] at ht
        obtain ⟨m, hm, -⟩ := h.heard g.dest t hi ht
        obtain ⟨n, hall, -⟩ := EitherNewer.offerAll_flat (q := heartbeatNumber)
          ((hclean.tables g.dest) _ m hm).incarnationNumber fun r hr =>
            (hclean.sent g (mem_of_getElem? hg) r
              (mem_members (q := g.sender) hr).1).incarnationNumber
        rw [hm, hall] at hoffered
        cases hoffered
      | some n =>
        rw [hoffered, if_pos (by simp)] at ht
        obtain rfl := Option.some.inj ht
        exact ⟨_, rfl, le_refl _⟩
    · refine hkeeps (fun g' hg' hdest hsender => ?_) ?_
      · obtain rfl := Option.some.inj (hg.symm.trans hg')
        exact hfrom ⟨hdest, hsender⟩
      · rwa [heard_update, if_neg fun hheard => hfrom ⟨hheard.1.symm, hheard.2.1⟩] at ht
  | restart j localNode =>
    obtain rfl := Option.some.inj hs
    have ht : (Function.update s.heard j fun _ => none) i q = some t := ht
    by_cases hj : i = j
    · subst hj
      rw [Function.update_self] at ht
      cases ht
    · rw [Function.update_of_ne hj] at ht
      exact hkeeps hj ht
  | checkHealth j now =>
    obtain rfl := Option.some.inj hs
    exact hkeeps trivial ht
  | send j dest =>
    obtain rfl := Option.some.inj hs
    exact hkeeps trivial ht
  | join j now localNode =>
    obtain rfl := Option.some.inj hs
    exact hkeeps trivial ht
  | joined k now =>
    rw [joined_step hclean hs] at ht
    exact hkeeps trivial ht
  | setRole j nodeId role =>
    obtain rfl := Option.some.inj hs
    exact hkeeps trivial ht

theorem Trusted.step (h : Trusted q s) (hclean : Clean s) (hl : WellFormed l)
    (ht : Timely failureTimeout q s l) (hs : step failureTimeout deadTimeout s l = some s') :
    Trusted q s' where
  tables i n hn := by
    by_cases hi : i = q
    · subst hi
      exact own_alive_step hclean hl hs (h.tables i) n hn
    · exact h.effect hclean hl ht hi (effect_step hclean hl hs (Ne.symm hi)) hn
  heard i t hi := h.heard_step hclean hl hs hi
  sent := by
    cases l with
    | send i dest =>
      obtain rfl := Option.some.inj hs
      intro g hg n hn hid
      rcases List.mem_append.mp hg with hg | hg
      · exact h.sent g hg n hn hid
      · rw [List.mem_singleton.mp hg] at hn
        obtain ⟨⟨k, n'⟩, hmem, rfl⟩ := List.mem_map.mp hn
        have hget := ((s.tables i).members.mem_items_iff k n').mp hmem
        have hkey : k = q := ((s.tables i).keyed k n' hget).symm.trans hid
        exact h.tables i n' (hkey ▸ hget)
    | deliver k now =>
      obtain ⟨g, -, rfl⟩ := Option.map_eq_some_iff.mp hs
      rw [hear_sent]
      exact h.sent
    | checkHealth i now =>
      obtain rfl := Option.some.inj hs
      exact h.sent
    | join i now localNode =>
      obtain rfl := Option.some.inj hs
      exact h.sent
    | joined k now =>
      rw [joined_step hclean hs]
      exact h.sent
    | setRole i nodeId role =>
      obtain rfl := Option.some.inj hs
      exact h.sent
    | restart i localNode =>
      obtain rfl := Option.some.inj hs
      exact h.sent

/-- Every node with its own record only. -/
def start (own : String → NodeInfo) : State := { tables := fun i => LocalEntry.start (own i) }

theorem clean_start {own : String → NodeInfo} (hown : ∀ i, Starts i (own i)) :
    Clean (start own) where
  tables i := all_empty.put (hown i).toPlain
  sent g hg := by cases hg
  replies r hr := by cases hr

theorem trusted_start {own : String → NodeInfo} (hown : ∀ i, Starts i (own i)) :
    Trusted q (start own) where
  tables i n hn := by
    have hn : (MembershipManager.empty.put (own i)).getNode q = some n := hn
    rw [getNode_put] at hn
    split at hn
    · exact Option.some.inj hn ▸ (hown i).alive
    · cases hn
  sent g hg := by cases hg
  heard i h hi hh := by cases hh

/-- **A node that is heard in time is never suspected**: in every run in which each health check of
    another node finds that it has heard from `q` within the failure timeout, no table and no
    message in flight has a record of `q` that is not ALIVE, whatever becomes of other nodes and
    of messages. -/
theorem never_suspected {own : String → NodeInfo} (hown : ∀ i, Starts i (own i))
    {labels : List Label} (hlabels : ∀ l ∈ labels, WellFormed l)
    (htimely : Along (FailureDetector.step failureTimeout deadTimeout) (Timely failureTimeout q)
      (start own) labels) {t : State}
    (ht : exec (FailureDetector.step failureTimeout deadTimeout) (start own) labels = some t) :
    (∀ i n, (t.tables i).getNode q = some n → n.state = .alive) ∧
      ∀ g ∈ t.sent, ∀ n ∈ g.members, n.nodeId = q → n.state = .alive := by
  have hboth := htimely.and (along_of_forall (fun _ l hl => hlabels l hl) _)
  have hrun : Clean t ∧ Trusted q t :=
    exec_inv_along (I := fun s => Clean s ∧ Trusted q s)
      (fun _ _ _ h hl hs => ⟨clean_step h.1 hl.2 hs, h.2.step h.1 hl.2 hl.1 hs⟩)
      ⟨clean_start hown, trusted_start hown⟩ hboth ht
  exact ⟨hrun.2.tables, hrun.2.sent⟩

/-- A node that starts at time 0. -/
def node (i : String) : NodeInfo := ⟨i, .null, .null, .null, .alive, .follower, .float 0, .int 0⟩

theorem node_starts (i : String) : Starts i (node i) where
  incarnation := rfl
  heartbeat hnone := by cases hnone
  nodeId := rfl
  alive := rfl

theorem never_suspected_sample : ∃ t,
    exec (FailureDetector.step 5 10) (start node)
      [.join "a" 1 (node "b"), .joined 0 2, .checkHealth "a" 3, .checkHealth "b" 4, .send "b" "a",
        .deliver 0 6, .checkHealth "a" 11] = some t ∧
    ∀ i n, (t.tables i).getNode "b" = some n → n.state = .alive := by
  have hsome : (exec (FailureDetector.step 5 10) (start node)
      [.join "a" 1 (node "b"), .joined 0 2, .checkHealth "a" 3, .checkHealth "b" 4, .send "b" "a",
        .deliver 0 6, .checkHealth "a" 11]).isSome := by decide +kernel
  obtain ⟨t, ht⟩ := Option.isSome_iff_exists.mp hsome
  refine ⟨t, ht, (never_suspected (q := "b") node_starts ?_ (by decide +kernel) ht).1⟩
  simp only [List.forall_mem_cons]
  exact ⟨node_starts "b", trivial, trivial, trivial, trivial, trivial, trivial,
    fun l hl => by cases hl⟩

end Accuracy

/-! ## Completeness -/

/-- How far a node has come in giving another one up. -/
def rank : NodeState → Nat
  | .alive => 0
  | .suspect => 1
  | .dead => 2

/-- `q` sends nothing, nothing from it arrives, and it does not join again; `i` does not
    restart. -/
def Silent (q i : String) (s : State) : Label → Prop
  | .send j _ => j ≠ q
  | .deliver k _ => ∀ g, s.sent[k]? = some g → g.sender ≠ q
  | .join _ _ localNode => localNode.nodeId ≠ q
  | .restart j _ => j ≠ i
  | _ => True

instance (q i : String) (s : State) (l : Label) : Decidable (Silent q i s l) :=
  match l with
  | .deliver k _ =>
    match h : s.sent[k]? with
    | none => .isTrue fun g hg => by simp [h] at hg
    | some g =>
      decidable_of_iff (g.sender ≠ q)
        ⟨fun hne g' hg' => Option.some.inj (h.symm.trans hg') ▸ hne, fun hall => hall g h⟩
  | .send j _ => inferInstanceAs (Decidable (j ≠ q))
  | .join _ _ localNode => inferInstanceAs (Decidable (localNode.nodeId ≠ q))
  | .joined .. => .isTrue trivial
  | .restart j _ => inferInstanceAs (Decidable (j ≠ i))
  | .checkHealth .. => .isTrue trivial
  | .setRole .. => .isTrue trivial

/-- No other node has a later record of `q` than `i`, whose record is stamped `latest` and has come
    to `level`. -/
structure GivenUp (q i : String) (latest : Time) (level : Nat) (s : State) : Prop where
  tables : ∀ j, j ≠ q → ∀ n, (s.tables j).getNode q = some n → n.heartbeatNumber ≤ latest
  sent : ∀ g ∈ s.sent, g.sender ≠ q → ∀ n ∈ g.members, n.nodeId = q → n.heartbeatNumber ≤ latest
  held : ∃ n, (s.tables i).getNode q = some n ∧ n.heartbeatNumber = latest ∧ level ≤ rank n.state

section Completeness

variable {s s' : State} {l : Label} {q i : String} {latest : Time} {level : Nat}

theorem rank_checked (now : Time) (n : NodeInfo) :
    rank n.state ≤ rank (checked failureTimeout deadTimeout now n).state := by
  unfold checked
  cases hstate : n.state with
  | alive => exact Nat.zero_le _
  | suspect =>
    simp only
    split <;> decide
  | dead => exact le_refl _

/-- A check after the failure timeout suspects at least. -/
theorem suspect_checked {now : Time} {n : NodeInfo}
    (hlate : failureTimeout < now - n.heartbeatNumber) :
    1 ≤ rank (checked failureTimeout deadTimeout now n).state := by
  unfold checked
  cases hstate : n.state with
  | alive =>
    simp only
    rw [if_pos hlate]
    decide
  | suspect =>
    simp only
    split <;> decide
  | dead => exact Nat.le_succ 1

/-- A check after the dead timeout gives up what is suspected. -/
theorem dead_checked {now : Time} {n : NodeInfo} (hlate : deadTimeout < now - n.heartbeatNumber)
    (hn : 1 ≤ rank n.state) :
    2 ≤ rank (checked failureTimeout deadTimeout now n).state := by
  unfold checked
  cases hstate : n.state with
  | alive =>
    rw [hstate] at hn
    cases hn
  | suspect =>
    simp only
    rw [if_pos hlate]
    decide
  | dead => exact le_refl 2

/-- Records of `q` get no later while it is silent. -/
theorem GivenUp.effect (h : GivenUp q i latest level s) (hclean : Clean s) (hl : Silent q i s l)
    {j : String} (hj : j ≠ q) {new : Option NodeInfo}
    (he : Effect failureTimeout deadTimeout s j q ((s.tables j).getNode q) l new) {n : NodeInfo}
    (hn : new = some n) : n.heartbeatNumber ≤ latest := by
  cases he with
  | same => exact h.tables j hj n hn
  | role r hold =>
    have hle := h.tables j hj _ hold
    obtain rfl := Option.some.inj hn
    exact hle
  | check hold =>
    have hle := h.tables j hj _ hold
    obtain rfl := Option.some.inj hn
    exact hle
  | gossip hg hdest hsender =>
    have hmem := mem_of_getElem? hg
    rcases (offered_plain (fun m hm => (hclean.tables j) q m hm)
      (fun r hr => hclean.sent _ hmem r (mem_members hr).1) hn).1 with hold | hr
    · exact h.tables j hj n hold
    · exact h.sent _ hmem hsender n (mem_members hr).1 (mem_members hr).2
  | heard hg hdest hsender => exact absurd hsender (hl _ hg)
  | join hid hold => exact absurd hid hl
  | restart => cases hn

/-- What becomes of the record that is given up. -/
theorem GivenUp.held_step (h : GivenUp q i latest level s) (hclean : Clean s)
    (hl : Silent q i s l) {new : Option NodeInfo}
    (he : Effect failureTimeout deadTimeout s i q ((s.tables i).getNode q) l new) :
    ∃ n n', (s.tables i).getNode q = some n ∧ n.heartbeatNumber = latest ∧
      level ≤ rank n.state ∧ new = some n' ∧ n'.heartbeatNumber = latest ∧
      (n'.state = n.state ∨ ∃ now, l = .checkHealth i now ∧
        n'.state = (checked failureTimeout deadTimeout now n).state) := by
  obtain ⟨n, hn, hbeat, hlevel⟩ := h.held
  refine ⟨n, ?_⟩
  cases he with
  | same => exact ⟨n, hn, hbeat, hlevel, hn, hbeat, .inl rfl⟩
  | role r hold =>
    obtain rfl := Option.some.inj (hn.symm.trans hold)
    exact ⟨_, hn, hbeat, hlevel, rfl, hbeat, .inl rfl⟩
  | check hold =>
    obtain rfl := Option.some.inj (hn.symm.trans hold)
    exact ⟨_, hn, hbeat, hlevel, rfl, hbeat, .inr ⟨_, rfl, rfl⟩⟩
  | gossip hg hdest hsender =>
    -- no offer is later than the latest record
    have hmem := mem_of_getElem? hg
    have hplain := (hclean.tables i) q n hn
    refine ⟨n, hn, hbeat, hlevel, ?_, hbeat, .inl rfl⟩
    rw [hn]
    refine EitherNewer.offerAll_stays fun r hr hnewer => ?_
    have hr := mem_members hr
    have hrplain := hclean.sent _ hmem r hr.1
    rcases hnewer with hlt | hlt
    · rw [hplain.incarnationNumber, hrplain.incarnationNumber] at hlt
      exact lt_irrefl _ hlt
    · exact absurd (h.sent _ hmem hsender r hr.1 hr.2) (not_le.mpr (hbeat ▸ hlt))
  | heard hg hdest hsender => exact absurd hsender (hl _ hg)
  | join hid hold => exact absurd hid hl
  | restart => exact absurd rfl hl

theorem GivenUp.sent_step (h : GivenUp q i latest level s) (hclean : Clean s)
    (hl : Silent q i s l)
    (hs : step failureTimeout deadTimeout s l = some s') :
    ∀ g ∈ s'.sent, g.sender ≠ q → ∀ n ∈ g.members, n.nodeId = q →
      n.heartbeatNumber ≤ latest := by
  cases l with
  | send j dest =>
    obtain rfl := Option.some.inj hs
    intro g hg hsender n hn hid
    rcases List.mem_append.mp hg with hg | hg
    · exact h.sent g hg hsender n hn hid
    · rw [List.mem_singleton.mp hg] at hn
      obtain ⟨⟨k, n'⟩, hmem, rfl⟩ := List.mem_map.mp hn
      have hget := ((s.tables j).members.mem_items_iff k n').mp hmem
      have hkey : k = q := ((s.tables j).keyed k n' hget).symm.trans hid
      exact h.tables j hl n' (hkey ▸ hget)
  | deliver k now =>
    obtain ⟨g, -, rfl⟩ := Option.map_eq_some_iff.mp hs
    rw [hear_sent]
    exact h.sent
  | checkHealth j now =>
    obtain rfl := Option.some.inj hs
    exact h.sent
  | join j now localNode =>
    obtain rfl := Option.some.inj hs
    exact h.sent
  | joined k now =>
    rw [joined_step hclean hs]
    exact h.sent
  | setRole j nodeId role =>
    obtain rfl := Option.some.inj hs
    exact h.sent
  | restart j localNode =>
    obtain rfl := Option.some.inj hs
    exact h.sent

/-- A step does not take back how far `i` has come. -/
theorem GivenUp.step (h : GivenUp q i latest level s) (hclean : Clean s) (hi : i ≠ q)
    (hwell : WellFormed l) (hl : Silent q i s l)
    (hs : FailureDetector.step failureTimeout deadTimeout s l = some s') :
    GivenUp q i latest level s' where
  tables j hj n hn := h.effect hclean hl hj (effect_step hclean hwell hs (Ne.symm hj)) hn
  sent := h.sent_step hclean hl hs
  held := by
    obtain ⟨n, n', -, -, hlevel, hn', hbeat', hstate⟩ :=
      h.held_step hclean hl (effect_step hclean hwell hs (Ne.symm hi))
    refine ⟨n', hn', hbeat', ?_⟩
    rcases hstate with hsame | ⟨now, -, hchecked⟩
    · rw [hsame]
      exact hlevel
    · rw [hchecked]
      exact hlevel.trans (rank_checked now n)

/-- A check after a timeout brings `i` further. -/
theorem GivenUp.check (h : GivenUp q i latest level s) (hclean : Clean s) (hi : i ≠ q)
    {now : Time} (hsilent : Silent q i s (.checkHealth i now))
    (hs : FailureDetector.step failureTimeout deadTimeout s (.checkHealth i now) = some s')
    {reached : Nat} (hreach : ∀ n : NodeInfo, n.heartbeatNumber = latest → level ≤ rank n.state →
      reached ≤ rank (checked failureTimeout deadTimeout now n).state) :
    GivenUp q i latest reached s' where
  tables := (h.step hclean hi (wellFormed_check i now) hsilent hs).tables
  sent := (h.step hclean hi (wellFormed_check i now) hsilent hs).sent
  held := by
    obtain ⟨n, hn, hbeat, hlevel⟩ := h.held
    refine ⟨checked failureTimeout deadTimeout now n, ?_, hbeat, hreach n hbeat hlevel⟩
    rw [check_step hclean hs (Ne.symm hi), hn, Option.map_some]

theorem GivenUp.run (h : GivenUp q i latest level s) (hclean : Clean s) (hi : i ≠ q)
    {labels : List Label} (hlabels : ∀ l ∈ labels, WellFormed l)
    (hsilent : Along (FailureDetector.step failureTimeout deadTimeout) (Silent q i) s labels)
    {t : State}
    (ht : exec (FailureDetector.step failureTimeout deadTimeout) s labels = some t) :
    Clean t ∧ GivenUp q i latest level t :=
  exec_inv_along (I := fun s => Clean s ∧ GivenUp q i latest level s)
    (fun _ _ _ h hl hs => ⟨clean_step h.1 hl.2 hs, h.2.step h.1 hi hl.2 hl.1 hs⟩)
    ⟨hclean, h⟩ (hsilent.and (along_of_forall (fun _ l hl => hlabels l hl) _)) ht

/-- **A silent node is given up**: when nothing arrives from `q` any more and `i` has the latest
    record of it, then after a check past the failure timeout and a later one past the dead
    timeout `i` holds `q` to be DEAD, whatever else happens before, between and after them. -/
theorem silent_is_dead (hclean : Clean s) (h : GivenUp q i latest 0 s) (hi : i ≠ q)
    {before between after : List Label} {suspectedAt deadAt : Time}
    (hlabels : ∀ l ∈ before ++ .checkHealth i suspectedAt ::
      (between ++ .checkHealth i deadAt :: after), WellFormed l)
    (hsilent : Along (FailureDetector.step failureTimeout deadTimeout) (Silent q i) s
      (before ++ .checkHealth i suspectedAt :: (between ++ .checkHealth i deadAt :: after)))
    (hsuspected : latest + failureTimeout < suspectedAt) (hdead : latest + deadTimeout < deadAt)
    {t : State} (ht : exec (FailureDetector.step failureTimeout deadTimeout) s
      (before ++ .checkHealth i suspectedAt :: (between ++ .checkHealth i deadAt :: after)) =
        some t) :
    ∃ n, (t.tables i).getNode q = some n ∧ n.state = .dead := by
  have hbefore := fun l hl => hlabels l (List.mem_append_left _ hl)
  have hlater := fun l hl => hlabels l (List.mem_append_right _ (List.mem_cons_of_mem _ hl))
  have hbetween := fun l hl => hlater l (List.mem_append_left _ hl)
  have hafter := fun l hl => hlater l (List.mem_append_right _ (List.mem_cons_of_mem _ hl))
  obtain ⟨s₁, hs₁, ht⟩ := exec_append.mp ht
  obtain ⟨hsilent₁, hsilent⟩ := (along_append hs₁).mp hsilent
  obtain ⟨s₂, hs₂, ht⟩ := exec_cons.mp ht
  have hsilent₂ := hsilent.2 s₂ hs₂
  obtain ⟨s₃, hs₃, ht⟩ := exec_append.mp ht
  obtain ⟨hsilent₃, hsilent₄⟩ := (along_append hs₃).mp hsilent₂
  obtain ⟨s₄, hs₄, ht⟩ := exec_cons.mp ht
  have hsilent₅ := hsilent₄.2 s₄ hs₄
  -- up to the first check, which suspects
  obtain ⟨hclean₁, h₁⟩ := h.run hclean hi hbefore hsilent₁ hs₁
  have h₂ : GivenUp q i latest 1 s₂ := h₁.check hclean₁ hi hsilent.1 hs₂ fun n hn _ =>
    suspect_checked (by rw [hn]; exact lt_sub_iff_add_lt'.mpr hsuspected)
  have hclean₂ := clean_step hclean₁ (wellFormed_check i suspectedAt) hs₂
  -- up to the second one, which gives up
  obtain ⟨hclean₃, h₃⟩ := h₂.run hclean₂ hi hbetween hsilent₃ hs₃
  have h₄ : GivenUp q i latest 2 s₄ := h₃.check hclean₃ hi hsilent₄.1 hs₄ fun n hn hlevel =>
    dead_checked (by rw [hn]; exact lt_sub_iff_add_lt'.mpr hdead) hlevel
  have hclean₄ := clean_step hclean₃ (wellFormed_check i deadAt) hs₄
  obtain ⟨-, h₅⟩ := h₄.run hclean₄ hi hafter hsilent₅ ht
  obtain ⟨n, hn, -, hlevel⟩ := h₅.held
  refine ⟨n, hn, ?_⟩
  cases hstate : n.state with
  | alive =>
    rw [hstate] at hlevel
    cases hlevel
  | suspect =>
    rw [hstate] at hlevel
    exact absurd hlevel (by decide)
  | dead => rfl

/-- Every node knows `b`, and nothing is in flight. -/
def acquainted : State := { tables := fun j => (LocalEntry.start (node j)).put (node "b") }

theorem acquainted_clean : Clean acquainted where
  tables j := (all_empty.put (node_starts j).toPlain).put (node_starts _).toPlain
  sent g hg := by cases hg
  replies r hr := by cases hr

theorem acquainted_givenUp : GivenUp "b" "a" 0 0 acquainted where
  tables j hj n hn := by
    have hn : ((LocalEntry.start (node j)).put (node "b")).getNode "b" = some n := hn
    rw [getNode_put, if_pos (show "b" = (node "b").nodeId from rfl)] at hn
    exact Option.some.inj hn ▸ le_refl _
  sent g hg := by cases hg
  held := ⟨node "b", getNode_put .., rfl, Nat.zero_le _⟩

theorem silent_is_dead_sample : ∃ t,
    exec (FailureDetector.step 5 10) acquainted
      ([.send "a" "c"] ++ .checkHealth "a" 6 :: ([.deliver 0 7] ++ .checkHealth "a" 11 :: [])) =
        some t ∧
    ∃ n, (t.tables "a").getNode "b" = some n ∧ n.state = .dead := by
  have hsome : (exec (FailureDetector.step 5 10) acquainted
      ([.send "a" "c"] ++ .checkHealth "a" 6 ::
        ([.deliver 0 7] ++ .checkHealth "a" 11 :: []))).isSome := by decide +kernel
  obtain ⟨t, ht⟩ := Option.isSome_iff_exists.mp hsome
  refine ⟨t, ht, silent_is_dead acquainted_clean acquainted_givenUp (by decide) ?_ ?_
    (by norm_num) (by norm_num) ht⟩
  · simp only [List.singleton_append, List.forall_mem_cons]
    exact ⟨trivial, trivial, trivial, trivial, fun l hl => by cases hl⟩
  · decide +kernel

end Completeness

end MiniDb.FailureDetector
