/-
  How the membership table changes (`cluster/membership.py`): gossip, joins, heartbeats, health
  checks, removal and roles.

  `gossip_agrees_iff`: all ways to deliver a set of records (in any order, repeated, grouped into
  messages in any way) end with the same table and never lower a stored incarnation, if and only
  if the records are consistent: none has an older incarnation and a later heartbeat than a
  record that is held. The accept rule takes a record for either reason, so it follows no order.

  An operation that raises leaves what it did before: its result is the table then. The table is
  keyed by strings; a record whose id is none is refused here, where the source would keep it
  beside the others. `localId` is `self.local_node.node_id`. The callbacks on joins and leaves
  are not modelled.
-/
import MiniDb.Cluster.Membership
import MiniDb.Lib.EitherNewer
import MiniDb.Storage.KvStore
import Mathlib.Tactic.NormNum

namespace MiniDb

open Lib Lib.Json

namespace NodeInfo

/-- The fields that go over the wire. -/
def toDict (n : NodeInfo) : Json :=
  .obj [("node_id", .str n.nodeId), ("host", n.host), ("client_port", n.clientPort),
    ("cluster_port", n.clusterPort), ("state", .str n.state.value), ("role", .str n.role.value),
    ("last_heartbeat", n.lastHeartbeat), ("incarnation", n.incarnation)]

/-- `Enum(data.get(name, default))` -/
def enumField {α : Type} (ofValue : String → Option α) (default : String) :
    Option Json → Option α
  | none => ofValue default
  | some (.str text) => ofValue text
  | some _ => none

/-- `NodeInfo.from_dict`; `none` when it raises. -/
def fromDict (now : Time) (data : Json) : Option NodeInfo := do
  let .str nodeId ← data.field? "node_id" | none
  let host ← data.field? "host"
  let clientPort ← data.field? "client_port"
  let clusterPort ← data.field? "cluster_port"
  let state ← enumField NodeState.ofValue "ALIVE" (data.field? "state")
  let role ← enumField NodeRole.ofValue "FOLLOWER" (data.field? "role")
  return { nodeId := nodeId, host := host, clientPort := clientPort, clusterPort := clusterPort,
           state := state, role := role
           lastHeartbeat := (data.field? "last_heartbeat").getD (.float now)
           incarnation := (data.field? "incarnation").getD (.int 0) }

theorem fromDict_toDict (now : Time) (n : NodeInfo) : fromDict now n.toDict = some n := by
  have hid : n.toDict.field? "node_id" = some (.str n.nodeId) := rfl
  have hhost : n.toDict.field? "host" = some n.host := rfl
  have hclient : n.toDict.field? "client_port" = some n.clientPort := rfl
  have hcluster : n.toDict.field? "cluster_port" = some n.clusterPort := rfl
  have hstate : n.toDict.field? "state" = some (.str n.state.value) := rfl
  have hrole : n.toDict.field? "role" = some (.str n.role.value) := rfl
  have hbeat : n.toDict.field? "last_heartbeat" = some n.lastHeartbeat := rfl
  have hinc : n.toDict.field? "incarnation" = some n.incarnation := rfl
  simp [fromDict, hid, hhost, hclient, hcluster, hstate, hrole, hbeat, hinc, enumField,
    NodeState.ofValue_value, NodeRole.ofValue_value]

/-- Newer incarnation or more recent heartbeat; `none` when a comparison raises. -/
def newer (incoming existing : NodeInfo) : Option Bool :=
  (greater incoming.incarnation existing.incarnation).bind fun byIncarnation =>
    if byIncarnation then some true
    else greater incoming.lastHeartbeat existing.lastHeartbeat

end NodeInfo

namespace MembershipManager

variable (localId : String) (now : Time)

/-- One record of a gossip message, about another node. -/
def merge (m : MembershipManager) (incoming : NodeInfo) : Option MembershipManager :=
  match m.getNode incoming.nodeId with
  | none => some (m.put incoming)
  | some existing =>
    (incoming.newer existing).map fun isNewer => if isNewer then m.put incoming else m

/-- One item of a gossip message; `none` when it raises. -/
def gossipItem (m : MembershipManager) (memberData : Json) : Option MembershipManager :=
  match memberData.field? "node_id" with
  | none => none
  | some nodeId =>
    match nodeId with
    | .str id =>
      if id = localId then some m else (NodeInfo.fromDict now memberData).bind m.merge
    | _ => none

/-- `handle_gossip`: the table, and whether it ended without raising. -/
def handleGossip (m : MembershipManager) : List Json → MembershipManager × Bool
  | [] => (m, true)
  | memberData :: membersData =>
    match gossipItem localId now m memberData with
    | none => (m, false)
    | some m' => handleGossip m' membersData

/-- `add_node` -/
def addNode (m : MembershipManager) (node : NodeInfo) : Option MembershipManager :=
  match m.getNode node.nodeId with
  | none => some (m.put node)
  | some existing =>
    (greater node.incarnation existing.incarnation).map fun isNewer =>
      if isNewer then m.put node else m

/-- `update_heartbeat` -/
def updateHeartbeat (m : MembershipManager) (nodeId : String) : MembershipManager :=
  match m.getNode nodeId with
  | none => m
  | some node =>
    m.put { node with
      lastHeartbeat := .float now
      state := if node.state = .suspect then .alive else node.state }

/-- The health of one entry at `now`; `none` when its heartbeat is no number. -/
def checkNode (failureTimeout deadTimeout : Time) (node : NodeInfo) : Option NodeInfo :=
  if node.nodeId = localId then some { node with lastHeartbeat := .float now }
  else node.lastHeartbeat.number?.map fun lastHeartbeat =>
    let timeSinceHeartbeat := now - lastHeartbeat
    match node.state with
    | .alive =>
      if failureTimeout < timeSinceHeartbeat then { node with state := .suspect } else node
    | .suspect =>
      if deadTimeout < timeSinceHeartbeat then { node with state := .dead } else node
    | .dead => node

/-- `_check_node_health`, over the entries still to be checked. -/
def checkNodes (failureTimeout deadTimeout : Time) (m : MembershipManager) :
    List NodeInfo → MembershipManager
  | [] => m
  | node :: nodes =>
    match checkNode localId now failureTimeout deadTimeout node with
    | none => m
    | some node' => checkNodes failureTimeout deadTimeout (m.put node') nodes

def checkNodeHealth (failureTimeout deadTimeout : Time) (m : MembershipManager) :
    MembershipManager :=
  checkNodes localId now failureTimeout deadTimeout m (m.members.items.map Prod.snd)

/-- `remove_node` -/
def removeNode (m : MembershipManager) (nodeId : String) : MembershipManager :=
  if nodeId = localId then m
  else
    { members := m.members.erase nodeId
      keyed := fun k n h => by
        rw [Dict.get?_erase] at h
        split at h
        · cases h
        · exact m.keyed k n h }

/-- `set_node_role` -/
def setNodeRole (m : MembershipManager) (nodeId : String) (role : NodeRole) : MembershipManager :=
  match m.getNode nodeId with
  | none => m
  | some node => m.put { node with role := role }

end MembershipManager

/-! ## Gossip about other nodes -/

namespace NodeInfo

/-- Incarnation and heartbeat are numbers, as `to_dict` of a node has them. -/
def Stamped (n : NodeInfo) : Prop :=
  n.incarnation.number? ≠ none ∧ n.lastHeartbeat.number? ≠ none

def incarnationNumber (n : NodeInfo) : ℚ := n.incarnation.number?.getD 0

def heartbeatNumber (n : NodeInfo) : ℚ := n.lastHeartbeat.number?.getD 0

theorem greater_number {v w : Json} (hv : v.number? ≠ none) (hw : w.number? ≠ none) :
    greater v w = some (decide (w.number?.getD 0 < v.number?.getD 0)) := by
  obtain ⟨x, hx⟩ := Option.ne_none_iff_exists'.mp hv
  obtain ⟨y, hy⟩ := Option.ne_none_iff_exists'.mp hw
  have hstr : ∀ s t, v = .str s → w = .str t → False := by
    rintro s t rfl -
    cases hx
  rw [greater.eq_2 v w hstr, hx, hy]
  rfl

/-- The accept rule of gossip is newness in either stamp. -/
theorem newer_stamped {incoming existing : NodeInfo} (hi : incoming.Stamped)
    (he : existing.Stamped) :
    incoming.newer existing =
      some (decide (EitherNewer.Newer incarnationNumber heartbeatNumber incoming existing)) := by
  rw [newer, greater_number hi.1 he.1, Option.bind_some, greater_number hi.2 he.2]
  by_cases h : existing.incarnationNumber < incoming.incarnationNumber
  · have hnew : EitherNewer.Newer incarnationNumber heartbeatNumber incoming existing := .inl h
    rw [decide_eq_true hnew]
    exact if_pos (decide_eq_true h)
  · have hnew : EitherNewer.Newer incarnationNumber heartbeatNumber incoming existing ↔
        existing.heartbeatNumber < incoming.heartbeatNumber := or_iff_right h
    rw [decide_eq_decide.mpr hnew]
    exact if_neg fun hlt => h (of_decide_eq_true hlt)

end NodeInfo

namespace MembershipManager

open NodeInfo EitherNewer

/-- All entries are stamped. -/
def AllStamped (m : MembershipManager) : Prop := ∀ k n, m.getNode k = some n → n.Stamped

/-- Merging a record offers it to the register of its node. -/
theorem merge_stamped {m : MembershipManager} (hm : m.AllStamped) {r : NodeInfo}
    (hr : r.Stamped) :
    ∃ m', m.merge r = some m' ∧ m'.AllStamped ∧ ∀ k, m'.getNode k =
      if r.nodeId = k then offer incarnationNumber heartbeatNumber (m.getNode k) r
      else m.getNode k := by
  have hput : (m.put r).AllStamped := by
    intro k n hn
    rw [getNode_put] at hn
    split at hn
    · exact Option.some.inj hn ▸ hr
    · exact hm k n hn
  have hget : ∀ k, (m.put r).getNode k = if r.nodeId = k then some r else m.getNode k := by
    intro k
    rw [getNode_put]
    simp only [eq_comm]
  unfold merge
  cases hcur : m.getNode r.nodeId with
  | none =>
    refine ⟨m.put r, rfl, hput, fun k => ?_⟩
    rw [hget]
    by_cases hk : r.nodeId = k
    · rw [if_pos hk, if_pos hk, ← hk, hcur]
      rfl
    · rw [if_neg hk, if_neg hk]
  | some existing =>
    simp only [newer_stamped hr (hm _ _ hcur), Option.map_some]
    by_cases hnew : Newer incarnationNumber heartbeatNumber r existing
    · refine ⟨m.put r, by simp [hnew], hput, fun k => ?_⟩
      rw [hget]
      by_cases hk : r.nodeId = k
      · rw [if_pos hk, if_pos hk, ← hk, hcur, offer_newer hnew]
      · rw [if_neg hk, if_neg hk]
    · refine ⟨m, by simp [hnew], hm, fun k => ?_⟩
      by_cases hk : r.nodeId = k
      · rw [if_pos hk, ← hk, hcur, offer_not_newer hnew]
      · rw [if_neg hk]

variable {localId : String}

/-- A record that was sent comes back as it was. -/
theorem gossipItem_toDict {now : Time} (m : MembershipManager) (r : NodeInfo) :
    gossipItem localId now m r.toDict = if r.nodeId = localId then some m else m.merge r := by
  have hid : r.toDict.field? "node_id" = some (.str r.nodeId) := rfl
  simp only [gossipItem, hid, fromDict_toDict, Option.bind_some]

/-- A message of stamped records offers each of them to the register of its node. -/
theorem handleGossip_stamped (now : Time) {m : MembershipManager} (hm : m.AllStamped)
    {rs : List NodeInfo} (hrs : ∀ r ∈ rs, r.nodeId ≠ localId ∧ r.Stamped) :
    ∃ m', handleGossip localId now m (rs.map toDict) = (m', true) ∧ m'.AllStamped ∧
      ∀ k, m'.getNode k = offerAll incarnationNumber heartbeatNumber (m.getNode k)
        (rs.filter fun r => r.nodeId = k) := by
  induction rs generalizing m with
  | nil => exact ⟨m, rfl, hm, fun k => rfl⟩
  | cons r rs ih =>
    obtain ⟨hlocal, hr⟩ := hrs r List.mem_cons_self
    obtain ⟨m₁, hmerge, hm₁, hget⟩ := merge_stamped hm hr
    obtain ⟨m', hrest, hm', hget'⟩ := ih hm₁ fun r hr => hrs r (List.mem_cons_of_mem _ hr)
    have hitem : gossipItem localId now m r.toDict = some m₁ := by
      rw [gossipItem_toDict, if_neg hlocal, hmerge]
    refine ⟨m', by rw [List.map_cons, handleGossip, hitem]; exact hrest, hm', fun k => ?_⟩
    rw [hget', hget]
    by_cases hk : r.nodeId = k
    · rw [if_pos hk, List.filter_cons_of_pos (by simpa using hk)]
      rfl
    · rw [if_neg hk, List.filter_cons_of_neg (by simpa using hk)]

/-- Gossip messages, each with the time of its arrival and its records. -/
abbrev Messages := List (Time × List NodeInfo)

def deliver (localId : String) (m : MembershipManager) (messages : Messages) :
    MembershipManager :=
  messages.foldl (fun m g => (handleGossip localId g.1 m (g.2.map toDict)).1) m

def records (messages : Messages) : List NodeInfo := messages.flatMap Prod.snd

theorem deliver_stamped {m : MembershipManager} (hm : m.AllStamped) {messages : Messages}
    (hrs : ∀ r ∈ records messages, r.nodeId ≠ localId ∧ r.Stamped) (k : String) :
    (deliver localId m messages).getNode k =
      offerAll incarnationNumber heartbeatNumber (m.getNode k)
        ((records messages).filter fun r => r.nodeId = k) := by
  induction messages generalizing m with
  | nil => rfl
  | cons g messages ih =>
    have hg : ∀ r ∈ g.2, r.nodeId ≠ localId ∧ r.Stamped := fun r hr =>
      hrs r (by simp [records, hr])
    obtain ⟨m₁, hgossip, hm₁, hget⟩ := handleGossip_stamped g.1 hm hg
    have ih := ih hm₁ fun r hr => hrs r (by
      rw [records, List.flatMap_cons]
      exact List.mem_append_right _ hr)
    rw [deliver, List.foldl_cons, hgossip, records, List.flatMap_cons, List.filter_append,
      offerAll_append, ← hget]
    exact ih

/-- The messages deliver the records of `S`, all of them and no others. -/
def Delivers (S : List NodeInfo) (messages : Messages) : Prop := Covers S (records messages)

/-- All ways to deliver the records end with the same table. -/
def SameTable (localId : String) (m : MembershipManager) (S : List NodeInfo) : Prop :=
  ∀ g₁ g₂, Delivers S g₁ → Delivers S g₂ →
    ∀ k, (deliver localId m g₁).getNode k = (deliver localId m g₂).getNode k

/-- While the records are delivered, no stored incarnation falls. -/
def IncarnationsRise (localId : String) (m : MembershipManager) (S : List NodeInfo) : Prop :=
  ∀ g₁ g₂ g₃, Delivers S (g₁ ++ g₂ ++ g₃) → ∀ k n, (deliver localId m g₁).getNode k = some n →
    ∃ n', (deliver localId m (g₁ ++ g₂)).getNode k = some n' ∧
      n.incarnationNumber ≤ n'.incarnationNumber

/-- The records of one node. -/
def about (S : List NodeInfo) (k : String) : List NodeInfo := S.filter fun r => r.nodeId = k

/-- The records of a table's nodes are consistent, each with what the table has of its node. -/
def ConsistentRecords (m : MembershipManager) (S : List NodeInfo) : Prop :=
  ∀ k, Consistent incarnationNumber heartbeatNumber (m.getNode k) (about S k)

theorem records_append (g g' : Messages) : records (g ++ g') = records g ++ records g' :=
  List.flatMap_append

theorem covers_about {S : List NodeInfo} {g : Messages} (h : Delivers S g) (k : String) :
    Covers (about S k) ((records g).filter fun r => r.nodeId = k) := by
  intro r
  rw [about, List.mem_filter, List.mem_filter, h r]

/-- Records of one node, offered first, leave the others to be delivered after them. -/
theorem delivers_first {S xs : List NodeInfo} {k : String} (h : Covers (about S k) xs) :
    Delivers S [(0, xs), (0, S.filter fun r => r.nodeId ≠ k)] := by
  intro r
  simp only [records, List.flatMap_cons, List.flatMap_nil, List.append_nil, List.mem_append, h r,
    about, List.mem_filter, decide_eq_true_eq]
  by_cases hk : r.nodeId = k <;> simp [hk]

theorem filter_about {S xs : List NodeInfo} {k : String} (h : ∀ x ∈ xs, x ∈ about S k) :
    xs.filter (fun r => r.nodeId = k) = xs := by
  rw [List.filter_eq_self]
  exact fun x hx => (List.mem_filter.mp (h x hx)).2

variable {m : MembershipManager} {S : List NodeInfo}

/-- The agreement of a table is that of its registers. -/
theorem agrees_of_registers (hm : m.AllStamped) (hS : ∀ r ∈ S, r.nodeId ≠ localId ∧ r.Stamped)
    (h : ∀ k, Converges incarnationNumber heartbeatNumber (m.getNode k) (about S k) ∧
      Rises incarnationNumber heartbeatNumber (m.getNode k) (about S k)) :
    SameTable localId m S ∧ IncarnationsRise localId m S := by
  have hrecords : ∀ {g : Messages}, (∀ r ∈ records g, r ∈ S) →
      ∀ r ∈ records g, r.nodeId ≠ localId ∧ r.Stamped := fun hg r hr => hS r (hg r hr)
  constructor
  · intro g₁ g₂ h₁ h₂ k
    rw [deliver_stamped hm (hrecords fun r hr => (h₁ r).mp hr),
      deliver_stamped hm (hrecords fun r hr => (h₂ r).mp hr)]
    exact (h k).1 _ _ (covers_about h₁ k) (covers_about h₂ k)
  · intro g₁ g₂ g₃ hg k n hn
    have hcovers := covers_about hg k
    rw [records_append, records_append, List.filter_append, List.filter_append] at hcovers
    have hsub : ∀ r ∈ records (g₁ ++ g₂), r ∈ S := fun r hr =>
      (hg r).mp (by rw [records_append]; exact List.mem_append_left _ hr)
    have hsub₁ : ∀ r ∈ records g₁, r ∈ S := fun r hr =>
      hsub r (by rw [records_append]; exact List.mem_append_left _ hr)
    rw [deliver_stamped hm (hrecords hsub₁)] at hn
    rw [deliver_stamped hm (hrecords hsub), records_append, List.filter_append]
    exact (h k).2 _ _ _ hcovers n hn

theorem registers_of_agrees (hm : m.AllStamped)
    (hS : ∀ r ∈ S, r.nodeId ≠ localId ∧ r.Stamped) (hsame : SameTable localId m S)
    (hrise : IncarnationsRise localId m S) (k : String) :
    Converges incarnationNumber heartbeatNumber (m.getNode k) (about S k) ∧
      Rises incarnationNumber heartbeatNumber (m.getNode k) (about S k) := by
  have hrecords : ∀ {g : Messages}, (∀ r ∈ records g, r ∈ S) →
      ∀ r ∈ records g, r.nodeId ≠ localId ∧ r.Stamped := fun hg r hr => hS r (hg r hr)
  have hothers : (S.filter fun r => r.nodeId ≠ k).filter (fun r => r.nodeId = k) = [] := by
    rw [List.filter_eq_nil_iff]
    intro r hr
    simpa using (List.mem_filter.mp hr).2
  have hin : ∀ {xs : List NodeInfo}, Covers (about S k) xs → ∀ x ∈ xs, x ∈ about S k :=
    fun hxs x hx => (hxs x).mp hx
  constructor
  · intro xs ys hxs hys
    have hend := hsame _ _ (delivers_first hxs) (delivers_first hys) k
    rw [deliver_stamped hm (hrecords fun r hr => (delivers_first hxs r).mp hr),
      deliver_stamped hm (hrecords fun r hr => (delivers_first hys r).mp hr)] at hend
    simpa only [records, List.flatMap_cons, List.flatMap_nil, List.append_nil,
      List.filter_append, hothers, filter_about (hin hxs), filter_about (hin hys)] using hend
  · intro xs ys zs hcovers e he
    have hxs : ∀ x ∈ xs, x ∈ about S k := fun x hx => (hcovers x).mp (by simp [hx])
    have hys : ∀ y ∈ ys, y ∈ about S k := fun y hy => (hcovers y).mp (by simp [hy])
    have hall : Delivers S
        ([(0, xs)] ++ [(0, ys)] ++ [(0, zs), (0, S.filter fun r => r.nodeId ≠ k)]) := by
      have hfirst := delivers_first hcovers
      intro r
      rw [← hfirst r]
      simp only [records, List.flatMap_append, List.flatMap_cons, List.flatMap_nil,
        List.append_nil, List.append_assoc]
    have hsub : ∀ r ∈ records ([(0, xs)] ++ [(0, ys)] : Messages), r ∈ S := fun r hr =>
      (hall r).mp (by rw [records_append]; exact List.mem_append_left _ hr)
    have hsub₁ : ∀ r ∈ records ([(0, xs)] : Messages), r ∈ S := fun r hr =>
      hsub r (by rw [records_append]; exact List.mem_append_left _ hr)
    have hrun := hrise _ _ _ hall k e (by
      rw [deliver_stamped hm (hrecords hsub₁)]
      simpa only [records, List.flatMap_cons, List.flatMap_nil, List.append_nil,
        filter_about hxs] using he)
    rw [deliver_stamped hm (hrecords hsub)] at hrun
    simpa only [records, List.flatMap_append, List.flatMap_cons, List.flatMap_nil,
      List.append_nil, List.filter_append, filter_about hxs, filter_about hys] using hrun

/-- **Exactly when gossip agrees**: all orders, repetitions and groupings in which the records can
    be delivered end with the same table and never lower a stored incarnation, if and only if for
    each node the records are consistent. -/
theorem gossip_agrees_iff (hm : m.AllStamped) (hS : ∀ r ∈ S, r.nodeId ≠ localId ∧ r.Stamped) :
    SameTable localId m S ∧ IncarnationsRise localId m S ↔ ConsistentRecords m S := by
  have hregisters : ConsistentRecords m S ↔
      ∀ k, Converges incarnationNumber heartbeatNumber (m.getNode k) (about S k) ∧
        Rises incarnationNumber heartbeatNumber (m.getNode k) (about S k) :=
    forall_congr' fun k => (agree_iff (m.getNode k) (about S k)).symm
  rw [hregisters]
  exact ⟨fun h => registers_of_agrees hm hS h.1 h.2, agrees_of_registers hm hS⟩

/-! ### Records that rise, and two that no order relates -/

def peerRecord (incarnation : Int) (lastHeartbeat : ℚ) : NodeInfo :=
  { nodeId := "b", host := .str "h", clientPort := .int 7002, clusterPort := .int 8002,
    lastHeartbeat := .float lastHeartbeat, incarnation := .int incarnation }

theorem stamped_peerRecord (incarnation : Int) (lastHeartbeat : ℚ) :
    (peerRecord incarnation lastHeartbeat).Stamped :=
  ⟨Option.some_ne_none _, Option.some_ne_none _⟩

/-- A table that knows `b`. -/
def heardBefore : MembershipManager := empty.put (peerRecord 1 10)

/-- Records of `b`, older and newer than the known one, and of `c`, which is not known. -/
def rising : List NodeInfo :=
  [peerRecord 1 8, peerRecord 2 15, peerRecord 1 12, { peerRecord 1 4 with nodeId := "c" },
    { peerRecord 1 3 with nodeId := "c" }]

theorem consistent_rising : ConsistentRecords heardBefore rising := by
  intro k
  by_cases hb : k = "b"
  · subst hb
    exact .of_chain (by decide +kernel) (by decide +kernel)
  by_cases hc : k = "c"
  · subst hc
    exact .of_chain (by decide +kernel) (by decide +kernel)
  · have habout : about rising k = [] := by
      simp [about, rising, peerRecord, Ne.symm hb, Ne.symm hc]
    rw [habout]
    exact .of_chain (fun _ _ c h => by cases h) List.nodup_nil

theorem gossip_agrees_iff_sample :
    SameTable "a" heardBefore rising ∧ IncarnationsRise "a" heardBefore rising := by
  have hheard : heardBefore.AllStamped := by
    intro k n hn
    rw [heardBefore, getNode_put] at hn
    split at hn
    · rw [← Option.some.inj hn]
      exact stamped_peerRecord 1 10
    · cases hn
  have hrising : ∀ r ∈ rising, r.nodeId ≠ "a" ∧ r.Stamped := by
    intro r hr
    simp only [rising, List.mem_cons, List.not_mem_nil, or_false] at hr
    rcases hr with rfl | rfl | rfl | rfl | rfl
    · exact ⟨by decide, stamped_peerRecord 1 8⟩
    · exact ⟨by decide, stamped_peerRecord 2 15⟩
    · exact ⟨by decide, stamped_peerRecord 1 12⟩
    · exact ⟨by decide, stamped_peerRecord 1 4⟩
    · exact ⟨by decide, stamped_peerRecord 1 3⟩
  exact (gossip_agrees_iff hheard hrising).mpr consistent_rising

/-- An older incarnation with a later heartbeat. -/
def traded : List NodeInfo := [peerRecord 1 10, peerRecord 2 5]

/-- Delivered in this order and in the other one, they leave different incarnations, and in the
    other order the stored incarnation falls. -/
theorem gossip_order_matters :
    Delivers traded [(0, traded)] ∧ Delivers traded [(0, traded.reverse)] ∧
      ((deliver "a" empty [(0, traded)]).getNode "b").map incarnationNumber = some 2 ∧
      ((deliver "a" empty [(0, traded.reverse)]).getNode "b").map incarnationNumber = some 1 := by
  have hstamped : ∀ r ∈ traded, r.nodeId ≠ "a" ∧ r.Stamped := by
    intro r hr
    simp only [traded, List.mem_cons, List.not_mem_nil, or_false] at hr
    rcases hr with rfl | rfl
    · exact ⟨by decide, stamped_peerRecord 1 10⟩
    · exact ⟨by decide, stamped_peerRecord 2 5⟩
  have hempty : empty.AllStamped := fun _ _ h => by cases h
  have hforth : ∀ r ∈ records [(0, traded)], r.nodeId ≠ "a" ∧ r.Stamped := by
    simpa [records] using hstamped
  have hback : ∀ r ∈ records [(0, traded.reverse)], r.nodeId ≠ "a" ∧ r.Stamped := by
    simpa [records] using hstamped
  have hincarnation : Newer incarnationNumber heartbeatNumber (peerRecord 2 5) (peerRecord 1 10) :=
    .inl (by show ((1 : Int) : ℚ) < ((2 : Int) : ℚ); norm_num)
  have hheartbeat : Newer incarnationNumber heartbeatNumber (peerRecord 1 10) (peerRecord 2 5) :=
    .inr (by show (5 : ℚ) < 10; norm_num)
  refine ⟨fun r => by simp [records], fun r => by simp [records], ?_, ?_⟩
  · rw [deliver_stamped hempty hforth]
    show (offer incarnationNumber heartbeatNumber (some (peerRecord 1 10)) (peerRecord 2 5)).map
      incarnationNumber = some 2
    rw [offer_newer hincarnation]
    rfl
  · rw [deliver_stamped hempty hback]
    show (offer incarnationNumber heartbeatNumber (some (peerRecord 2 5)) (peerRecord 1 10)).map
      incarnationNumber = some 1
    rw [offer_newer hheartbeat]
    rfl

end MembershipManager

end MiniDb
