/-
  `_sync_topology` (`node.py`): the ring follows the membership table.

  The node remembers the members it saw last (`_known_ring_nodes`) and adds and removes the
  differences; it never removes itself. The table may change in any way between two calls.

  Not modelled: the addresses and health flags of the router, and the migrations that a join
  starts (`Sharding.Migration`), none of which the ring depends on.
-/
import MiniDb.Cluster.Membership
import MiniDb.Sharding.Preference
import Mathlib.Data.Finset.Sort

namespace MiniDb

namespace MembershipManager

def getAllNodes (m : MembershipManager) : List NodeInfo := m.members.items.map Prod.snd

/-- `active_node_ids`: the members that are not DEAD. -/
def activeNodeIds (m : MembershipManager) : Finset String :=
  ((m.getAllNodes.filter fun n => n.state ≠ .dead).map NodeInfo.nodeId).toFinset

end MembershipManager

open ConsistentHashRing

/-- What `_sync_topology` reads and writes. -/
structure Topology where
  nodeId : String
  membership : MembershipManager
  ring : ConsistentHashRing
  knownRingNodes : Finset String

namespace Topology

/-- A node that has just started: it is the only one on its ring. -/
def start (hash : String → Nat) (virtualNodes : Nat) (nodeId : String)
    (membership : MembershipManager) : Topology :=
  { nodeId := nodeId, membership := membership
    ring := (new virtualNodes).addNode hash nodeId, knownRingNodes := {nodeId} }

/-- `sorted(s)` -/
def sorted (s : Finset String) : List String := s.sort (· ≤ ·)

/-- `_sync_topology` -/
def syncTopology (hash : String → Nat) (t : Topology) : Topology :=
  let active := t.membership.activeNodeIds
  let newNodes := active \ t.knownRingNodes
  let removedNodes := t.knownRingNodes \ active
  let ring := (sorted newNodes).foldl (addNode hash) t.ring
  let ring := ((sorted removedNodes).filter fun n => n ≠ t.nodeId).foldl removeNode ring
  { t with ring := ring, knownRingNodes := active }

inductive Step where
  /-- The table changes: joins, leaves, deaths, revivals. -/
  | membership (m : MembershipManager)
  | sync

def step (hash : String → Nat) (t : Topology) : Step → Topology
  | .membership m => { t with membership := m }
  | .sync => t.syncTopology hash

/-- The members that the last call of `_sync_topology` saw, in a run from the table `m`. -/
def seen : MembershipManager → Option (Finset String) → List Step → Option (Finset String)
  | _, last, [] => last
  | _, last, .membership m :: ls => seen m last ls
  | m, _, .sync :: ls => seen m (some m.activeNodeIds) ls

variable {hash : String → Nat}

/-! ## Folds of ring operations -/

theorem addNodes_spec {r : ConsistentHashRing} (h : Built hash r) (ns : List String) :
    Built hash (ns.foldl (addNode hash) r) ∧
      (ns.foldl (addNode hash) r).nodes = r.nodes ∪ ns.toFinset ∧
      (ns.foldl (addNode hash) r).virtualNodes = r.virtualNodes := by
  induction ns generalizing r with
  | nil => exact ⟨h, by simp, rfl⟩
  | cons n ns ih =>
    obtain ⟨hbuilt, hnodes, hvirtual⟩ := ih (h.addNode n)
    refine ⟨hbuilt, ?_, hvirtual.trans (virtualNodes_addNode r n)⟩
    rw [List.foldl_cons, hnodes, nodes_addNode, List.toFinset_cons, Finset.union_insert,
      Finset.insert_union]

theorem removeNodes_spec {r : ConsistentHashRing} (h : Built hash r) (ns : List String) :
    Built hash (ns.foldl removeNode r) ∧
      (ns.foldl removeNode r).nodes = r.nodes \ ns.toFinset ∧
      (ns.foldl removeNode r).virtualNodes = r.virtualNodes := by
  induction ns generalizing r with
  | nil => exact ⟨h, by simp, rfl⟩
  | cons n ns ih =>
    obtain ⟨hbuilt, hnodes, hvirtual⟩ := ih (h.removeNode n)
    refine ⟨hbuilt, ?_, hvirtual.trans (virtualNodes_removeNode r n)⟩
    rw [List.foldl_cons, hnodes, nodes_removeNode]
    ext m
    simp only [Finset.mem_sdiff, Finset.mem_erase, List.toFinset_cons, Finset.mem_insert, not_or]
    exact ⟨fun h => ⟨h.1.2, h.1.1, h.2⟩, fun h => ⟨⟨h.2.1, h.1⟩, h.2.2⟩⟩

@[simp] theorem mem_sorted {s : Finset String} {n : String} : n ∈ sorted s ↔ n ∈ s :=
  Finset.mem_sort _

/-! ## The invariant -/

/-- The ring has the known nodes and the node itself. -/
structure Synced (hash : String → Nat) (virtualNodes : Nat) (t : Topology) : Prop where
  built : Built hash t.ring
  virtualNodes : t.ring.virtualNodes = virtualNodes
  nodes : t.ring.nodes = insert t.nodeId t.knownRingNodes

variable (hash) in
theorem synced_start (virtualNodes : Nat) (nodeId : String) (m : MembershipManager) :
    Synced hash virtualNodes (start hash virtualNodes nodeId m) := by
  refine ⟨(built_new virtualNodes).addNode nodeId, virtualNodes_addNode _ _, ?_⟩
  refine (nodes_addNode hash (new virtualNodes) nodeId).trans ?_
  ext n
  simp [start, new]

theorem Synced.syncTopology {virtualNodes : Nat} {t : Topology} (h : Synced hash virtualNodes t) :
    Synced hash virtualNodes (t.syncTopology hash) := by
  have hadd := addNodes_spec h.built (sorted (t.membership.activeNodeIds \ t.knownRingNodes))
  have hremove := removeNodes_spec hadd.1
    ((sorted (t.knownRingNodes \ t.membership.activeNodeIds)).filter fun n => n ≠ t.nodeId)
  refine ⟨hremove.1, (hremove.2.2.trans hadd.2.2).trans h.virtualNodes, ?_⟩
  refine hremove.2.1.trans ?_
  rw [hadd.2.1, h.nodes]
  ext n
  by_cases hself : n = t.nodeId
  · simp [hself, Topology.syncTopology]
  · by_cases hactive : n ∈ t.membership.activeNodeIds
    · simp [hself, hactive, Topology.syncTopology, em]
    · simp [hself, hactive, Topology.syncTopology]

theorem synced_run {virtualNodes : Nat} {t : Topology} (h : Synced hash virtualNodes t)
    (ls : List Step) : Synced hash virtualNodes (ls.foldl (step hash) t) := by
  induction ls generalizing t with
  | nil => exact h
  | cons l ls ih =>
    rw [List.foldl_cons]
    cases l with
    | membership m => exact ih ⟨h.built, h.virtualNodes, h.nodes⟩
    | sync => exact ih h.syncTopology

@[simp] theorem nodeId_start (virtualNodes : Nat) (nodeId : String) (m : MembershipManager) :
    (start hash virtualNodes nodeId m).nodeId = nodeId := rfl

theorem nodeId_run (t : Topology) (ls : List Step) :
    (ls.foldl (step hash) t).nodeId = t.nodeId := by
  induction ls generalizing t with
  | nil => rfl
  | cons l ls ih =>
    rw [List.foldl_cons, ih]
    cases l <;> rfl

variable (hash) in
/-- What a node knows is what it saw last. -/
theorem known_run {t : Topology} {last : Option (Finset String)} {ls : List Step}
    (h : ∀ s, last = some s → t.knownRingNodes = s) {s : Finset String}
    (hs : seen t.membership last ls = some s) :
    (ls.foldl (step hash) t).knownRingNodes = s := by
  induction ls generalizing t last with
  | nil => exact h s hs
  | cons l ls ih =>
    rw [List.foldl_cons]
    cases l with
    | membership m => exact ih (t := { t with membership := m }) h hs
    | sync =>
      refine ih (t := t.syncTopology hash) (fun s' hs' => ?_) hs
      rw [Option.some.injEq] at hs'
      exact hs'

/-- The rings give the same answers. -/
structure SameRing (hash : String → Nat) (r r' : ConsistentHashRing) : Prop where
  ring : r.ring = r'.ring
  getNode : ∀ key, getNode hash r key = getNode hash r' key
  getNodes : ∀ key count, getNodes hash r key count = getNodes hash r' key count

theorem sameRing_of_eq {r r' : ConsistentHashRing} (h : r.ring = r'.ring) : SameRing hash r r' := by
  refine ⟨h, fun key => ?_, fun key count => ?_⟩
  · unfold ConsistentHashRing.getNode
    rw [h]
  · unfold ConsistentHashRing.getNodes
    rw [h]

/-- **Rings agree**: two nodes whose last `_sync_topology` saw the same members, both among them,
    have the same ring, whatever they saw before; and after each `_sync_topology` the ring has
    the members it saw and the node itself. -/
theorem rings_agree (hash : String → Nat) (virtualNodes : Nat) (a b : String)
    (m m' : MembershipManager) (ls ls' : List Step) :
    (∀ s, seen m none ls = some s → seen m' none ls' = some s → a ∈ s → b ∈ s →
      SameRing hash (ls.foldl (step hash) (start hash virtualNodes a m)).ring
        (ls'.foldl (step hash) (start hash virtualNodes b m')).ring) ∧
    ((ls ++ [Step.sync]).foldl (step hash) (start hash virtualNodes a m)).ring.nodes =
      insert a (ls.foldl (step hash)
        (start hash virtualNodes a m)).membership.activeNodeIds := by
  have hstart := synced_start hash virtualNodes
  constructor
  · intro s hs hs' ha hb
    have hsynced := synced_run (hstart a m) ls
    have hsynced' := synced_run (hstart b m') ls'
    have hknown := known_run hash (t := start hash virtualNodes a m)
      (fun _ h => by cases h) hs
    have hknown' := known_run hash (t := start hash virtualNodes b m')
      (fun _ h => by cases h) hs'
    have hnodes := hsynced.nodes
    have hnodes' := hsynced'.nodes
    rw [hknown, nodeId_run, nodeId_start, Finset.insert_eq_of_mem ha] at hnodes
    rw [hknown', nodeId_run, nodeId_start, Finset.insert_eq_of_mem hb] at hnodes'
    exact sameRing_of_eq (hsynced.built.ring_eq hsynced'.built (hnodes.trans hnodes'.symm)
      (hsynced.virtualNodes.trans hsynced'.virtualNodes.symm))
  · have hsynced := synced_run (hstart a m) (ls ++ [.sync])
    rw [hsynced.nodes, nodeId_run, List.foldl_append]
    rfl

/-- "a" has seen "c" come and die, "b" has not; both then see "a" and "b". -/
theorem rings_agree_sample :
    SameRing (fun _ => 0)
      ([.sync, .membership (.ofIds ["b", "a"]), .sync].foldl (step fun _ => 0)
        (start (fun _ => 0) 2 "a" (.ofIds ["a", "b", "c"]))).ring
      ([.sync].foldl (step fun _ => 0) (start (fun _ => 0) 2 "b" (.ofIds ["a", "b"]))).ring :=
  (rings_agree (fun _ => 0) 2 "a" "b" (.ofIds ["a", "b", "c"]) (.ofIds ["a", "b"])
    [.sync, .membership (.ofIds ["b", "a"]), .sync] [.sync]).1 {"a", "b"} (by decide) (by decide)
    (by decide) (by decide)

end Topology

end MiniDb
