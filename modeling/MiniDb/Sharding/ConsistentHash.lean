/-
  The consistent hashing ring (`sharding/consistent_hash.py`).

  The hash (SHA-256 in the source) is a parameter. The ring is the sorted list of (hash, node)
  pairs; that every pair's node is a member of the ring is part of the structure.
-/
import Mathlib.Data.List.Rotate
import Mathlib.Data.Finset.Basic
import Mathlib.Data.Finset.Card

namespace MiniDb

structure ConsistentHashRing where
  virtualNodes : Nat := 150
  ring : List (Nat × String)
  nodes : Finset String
  mem_nodes : ∀ p ∈ ring, p.2 ∈ nodes

namespace ConsistentHashRing

/-- `ConsistentHashRing(virtual_nodes)` -/
def new (virtualNodes : Nat) : ConsistentHashRing := ⟨virtualNodes, [], ∅, List.forall_mem_nil _⟩

/-- The order of tuples `(hash, node_id)`. -/
def before (p q : Nat × String) : Bool := p.1 < q.1 || (p.1 = q.1 && p.2 < q.2)

/-- `bisect.insort` on a sorted list. -/
def insort (p : Nat × String) : List (Nat × String) → List (Nat × String)
  | [] => [p]
  | q :: qs => if before p q then p :: q :: qs else q :: insort p qs

/-- `bisect.bisect_left` on a sorted list. -/
def bisectLeft (ring : List (Nat × String)) (p : Nat × String) : Nat :=
  (ring.takeWhile fun q => before q p).length

theorem mem_insort {p q : Nat × String} {ring : List (Nat × String)} :
    q ∈ insort p ring ↔ q = p ∨ q ∈ ring := by
  induction ring with
  | nil => simp [insort]
  | cons r rs ih =>
    unfold insort
    split
    · simp
    · rw [List.mem_cons, ih, List.mem_cons]
      exact or_left_comm

/-- The ring with the virtual nodes `i`, `i + 1`, … of `nodeId`, `count` of them. -/
def insertVirtual (hash : String → Nat) (nodeId : String) : Nat → Nat → List (Nat × String) →
    List (Nat × String)
  | _, 0, ring => ring
  | i, count + 1, ring =>
    insertVirtual hash nodeId (i + 1) count
      (insort (hash (nodeId ++ ":" ++ toString i), nodeId) ring)

theorem mem_insertVirtual {hash : String → Nat} {nodeId : String} {count i : Nat}
    {ring : List (Nat × String)} {q : Nat × String}
    (h : q ∈ insertVirtual hash nodeId i count ring) : q.2 = nodeId ∨ q ∈ ring := by
  induction count generalizing i ring with
  | zero => exact .inr h
  | succ count ih =>
    rcases ih h with h | h
    · exact .inl h
    · rcases mem_insort.mp h with rfl | h
      · exact .inl rfl
      · exact .inr h

def addNode (hash : String → Nat) (r : ConsistentHashRing) (nodeId : String) :
    ConsistentHashRing :=
  if nodeId ∈ r.nodes then r
  else
    { virtualNodes := r.virtualNodes
      ring := insertVirtual hash nodeId 0 r.virtualNodes r.ring
      nodes := insert nodeId r.nodes
      mem_nodes := by
        intro p hp
        rcases mem_insertVirtual hp with h | h
        · rw [h]
          exact Finset.mem_insert_self _ _
        · exact Finset.mem_insert_of_mem (r.mem_nodes p h) }

def removeNode (r : ConsistentHashRing) (nodeId : String) : ConsistentHashRing :=
  if nodeId ∉ r.nodes then r
  else
    { virtualNodes := r.virtualNodes
      ring := r.ring.filter fun p => p.2 ≠ nodeId
      nodes := r.nodes.erase nodeId
      mem_nodes := by
        intro p hp
        rw [List.mem_filter, decide_eq_true_eq] at hp
        exact Finset.mem_erase.mpr ⟨hp.2, r.mem_nodes p hp.1⟩ }

/-- The loop of `get_nodes`: `nodes` are those found so far. -/
def walk (count : Nat) : List String → List (Nat × String) → List String
  | nodes, [] => nodes
  | nodes, p :: ps =>
    if p.2 ∈ nodes then walk count nodes ps
    else if count ≤ nodes.length + 1 then nodes ++ [p.2]
    else walk count (nodes ++ [p.2]) ps

def getNodes (hash : String → Nat) (r : ConsistentHashRing) (key : String) (count : Nat) :
    List String :=
  walk count [] (r.ring.rotate (bisectLeft r.ring (hash key, "")))

/-- `get_node`: the first node at or after the key's hash, around the ring. -/
def getNode (hash : String → Nat) (r : ConsistentHashRing) (key : String) : Option String :=
  ((r.ring.rotate (bisectLeft r.ring (hash key, ""))).head?).map Prod.snd

def getNodeCount (r : ConsistentHashRing) : Nat := r.nodes.card

/-! ## The nodes of a key -/

theorem nodup_walk (count : Nat) {nodes : List String} (ps : List (Nat × String))
    (h : nodes.Nodup) : (walk count nodes ps).Nodup := by
  induction ps generalizing nodes with
  | nil => exact h
  | cons p ps ih =>
    have happ (hp : p.2 ∉ nodes) : (nodes ++ [p.2]).Nodup := by
      rw [List.nodup_append]
      refine ⟨h, List.nodup_singleton _, ?_⟩
      intro a ha b hb hab
      rw [List.mem_singleton] at hb
      exact hp (hb ▸ hab ▸ ha)
    unfold walk
    split
    · exact ih h
    · rename_i hp
      split
      · exact happ hp
      · exact ih (happ hp)

theorem mem_walk {count : Nat} {nodes : List String} {ps : List (Nat × String)} {n : String}
    (h : n ∈ walk count nodes ps) : n ∈ nodes ∨ ∃ p ∈ ps, p.2 = n := by
  induction ps generalizing nodes with
  | nil => exact .inl h
  | cons p ps ih =>
    have hcons : (∃ q ∈ ps, q.2 = n) → ∃ q ∈ p :: ps, q.2 = n := by
      rintro ⟨q, hq, hn⟩
      exact ⟨q, List.mem_cons_of_mem p hq, hn⟩
    have happ : n ∈ nodes ++ [p.2] → n ∈ nodes ∨ ∃ q ∈ p :: ps, q.2 = n := by
      intro hn
      rcases List.mem_append.mp hn with hn | hn
      · exact .inl hn
      · exact .inr ⟨p, List.mem_cons_self, (List.mem_singleton.mp hn).symm⟩
    unfold walk at h
    split at h
    · exact (ih h).imp id hcons
    · split at h
      · exact happ h
      · rcases ih h with hn | hn
        · exact happ hn
        · exact .inr (hcons hn)

/-- The replicas of a key are distinct. -/
theorem nodup_getNodes (hash : String → Nat) (r : ConsistentHashRing) (key : String)
    (count : Nat) : (getNodes hash r key count).Nodup :=
  nodup_walk count _ List.nodup_nil

/-- The replicas of a key are nodes of the ring. -/
theorem mem_getNodes {hash : String → Nat} {r : ConsistentHashRing} {key : String} {count : Nat}
    {n : String} (h : n ∈ getNodes hash r key count) : n ∈ r.nodes := by
  rcases mem_walk h with h | ⟨p, hp, rfl⟩
  · cases h
  · exact r.mem_nodes p (List.mem_rotate.mp hp)

end ConsistentHashRing

end MiniDb
