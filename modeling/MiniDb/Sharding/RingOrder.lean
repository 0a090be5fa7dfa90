/-
  What the operations of the ring keep: its list is sorted, and the pairs of each node are its
  virtual nodes (`Built`). So the list is determined by the set of nodes, in whatever order they
  came and went (`Built.ring_eq`).

  Two virtual nodes with one hash are told apart by their node ids; those of one node are equal,
  and the list has both.
-/
import MiniDb.Sharding.ConsistentHash
import Mathlib.Data.List.Sort
import Mathlib.Data.Prod.Lex
import Mathlib.Data.String.Basic

namespace MiniDb

namespace ConsistentHashRing

/-- The position of a pair on the ring. -/
def place (p : Nat × String) : Nat ×ₗ String := toLex p

theorem before_iff (p q : Nat × String) : before p q = true ↔ place p < place q := by
  unfold before place
  rw [Prod.Lex.toLex_lt_toLex]
  simp

theorem place_injective : Function.Injective place := toLex.injective

def Sorted (ring : List (Nat × String)) : Prop := ring.Pairwise fun p q => place p ≤ place q

/-- The virtual nodes `i`, `i + 1`, … of a node, `count` of them. -/
def virtualPairs (hash : String → Nat) (nodeId : String) (i count : Nat) : List (Nat × String) :=
  (List.range' i count).map fun j => (hash (nodeId ++ ":" ++ toString j), nodeId)

/-- The list of a ring that `add_node` and `remove_node` have built. -/
structure Built (hash : String → Nat) (r : ConsistentHashRing) : Prop where
  sorted : Sorted r.ring
  pairs : ∀ n ∈ r.nodes,
    (r.ring.filter fun p => p.2 = n).Perm (virtualPairs hash n 0 r.virtualNodes)

variable {hash : String → Nat}

/-! ## Insertion -/

theorem insort_perm (p : Nat × String) (ring : List (Nat × String)) :
    (insort p ring).Perm (p :: ring) := by
  induction ring with
  | nil => exact .refl _
  | cons q qs ih =>
    unfold insort
    split
    · exact .refl _
    · exact (ih.cons q).trans (.swap p q qs)

theorem sorted_insort {ring : List (Nat × String)} (h : Sorted ring) (p : Nat × String) :
    Sorted (insort p ring) := by
  induction ring with
  | nil => exact List.pairwise_singleton _ _
  | cons q qs ih =>
    obtain ⟨hq, hqs⟩ := List.pairwise_cons.mp h
    unfold insort
    split
    · rename_i hp
      have hlt := (before_iff p q).mp hp
      refine List.pairwise_cons.mpr ⟨fun a ha => ?_, h⟩
      rcases List.mem_cons.mp ha with rfl | ha
      · exact le_of_lt hlt
      · exact le_trans (le_of_lt hlt) (hq a ha)
    · rename_i hp
      rw [before_iff, not_lt] at hp
      refine List.pairwise_cons.mpr ⟨fun a ha => ?_, ih hqs⟩
      rcases mem_insort.mp ha with rfl | ha
      · exact hp
      · exact hq a ha

variable (hash) in
theorem insertVirtual_perm (nodeId : String) (count i : Nat) (ring : List (Nat × String)) :
    (insertVirtual hash nodeId i count ring).Perm (virtualPairs hash nodeId i count ++ ring) := by
  induction count generalizing i ring with
  | zero => exact .refl _
  | succ count ih =>
    unfold insertVirtual
    refine (ih (i + 1) _).trans ?_
    refine ((insort_perm _ ring).append_left _).trans ?_
    rw [show virtualPairs hash nodeId i (count + 1) =
      (hash (nodeId ++ ":" ++ toString i), nodeId) :: virtualPairs hash nodeId (i + 1) count
      from rfl]
    exact List.perm_middle

theorem sorted_insertVirtual {ring : List (Nat × String)} (h : Sorted ring) (nodeId : String)
    (count i : Nat) : Sorted (insertVirtual hash nodeId i count ring) := by
  induction count generalizing i ring with
  | zero => exact h
  | succ count ih => exact ih (sorted_insort h _) (i + 1)

/-! ## The operations -/

theorem built_new (virtualNodes : Nat) : Built hash (new virtualNodes) :=
  ⟨List.Pairwise.nil, fun n hn => absurd hn (Finset.notMem_empty n)⟩

variable (hash) in
theorem nodes_addNode (r : ConsistentHashRing) (n : String) :
    (r.addNode hash n).nodes = insert n r.nodes := by
  unfold addNode
  split
  · rename_i hn
    exact (Finset.insert_eq_of_mem hn).symm
  · rfl

theorem nodes_removeNode (r : ConsistentHashRing) (n : String) :
    (r.removeNode n).nodes = r.nodes.erase n := by
  unfold removeNode
  split
  · rename_i hn
    exact (Finset.erase_eq_of_notMem hn).symm
  · rfl

theorem virtualNodes_addNode (r : ConsistentHashRing) (n : String) :
    (r.addNode hash n).virtualNodes = r.virtualNodes := by
  unfold addNode
  split <;> rfl

theorem virtualNodes_removeNode (r : ConsistentHashRing) (n : String) :
    (r.removeNode n).virtualNodes = r.virtualNodes := by
  unfold removeNode
  split <;> rfl

/-- Removing a node takes its pairs out of the list. -/
theorem ring_removeNode (r : ConsistentHashRing) (n : String) :
    (r.removeNode n).ring = r.ring.filter fun p => p.2 ≠ n := by
  unfold removeNode
  split
  · rename_i hn
    symm
    rw [List.filter_eq_self]
    intro p hp
    rw [decide_eq_true_eq]
    exact fun hpn => hn (hpn ▸ r.mem_nodes p hp)
  · rfl

theorem filter_virtualPairs (n m : String) (i count : Nat) :
    (virtualPairs hash n i count).filter (fun p => p.2 = m) =
      if n = m then virtualPairs hash n i count else [] := by
  unfold virtualPairs
  split
  · rename_i h
    rw [List.filter_eq_self]
    intro p hp
    obtain ⟨j, -, rfl⟩ := List.mem_map.mp hp
    simpa using h
  · rename_i h
    rw [List.filter_eq_nil_iff]
    intro p hp
    obtain ⟨j, -, rfl⟩ := List.mem_map.mp hp
    simpa using h

theorem Built.addNode {r : ConsistentHashRing} (h : Built hash r) (n : String) :
    Built hash (r.addNode hash n) := by
  unfold ConsistentHashRing.addNode
  split
  · exact h
  rename_i hn
  refine ⟨sorted_insertVirtual h.sorted n _ 0, fun m hm => ?_⟩
  have hperm := (insertVirtual_perm hash n r.virtualNodes 0 r.ring).filter
    (fun p => decide (p.2 = m))
  rw [List.filter_append, filter_virtualPairs] at hperm
  refine hperm.trans ?_
  split
  · rename_i hnm
    subst hnm
    have hnone : (r.ring.filter fun p => decide (p.2 = n)) = [] := by
      rw [List.filter_eq_nil_iff]
      intro p hp
      rw [decide_eq_true_eq]
      exact fun hpn => hn (hpn ▸ r.mem_nodes p hp)
    rw [hnone, List.append_nil]
  · rename_i hnm
    exact h.pairs m (Finset.mem_of_mem_insert_of_ne hm (Ne.symm hnm))

theorem Built.removeNode {r : ConsistentHashRing} (h : Built hash r) (n : String) :
    Built hash (r.removeNode n) := by
  refine ⟨?_, fun m hm => ?_⟩
  · rw [ring_removeNode]
    exact h.sorted.sublist List.filter_sublist
  · rw [nodes_removeNode, Finset.mem_erase] at hm
    rw [ring_removeNode, virtualNodes_removeNode, List.filter_filter]
    refine .trans (.of_eq (List.filter_congr fun p _ => ?_)) (h.pairs m hm.2)
    by_cases hp : p.2 = m
    · simp [hp, hm.1]
    · simp [hp]

/-- **The nodes determine the ring**, equal hashes or not. -/
theorem Built.ring_eq {r r' : ConsistentHashRing} (h : Built hash r) (h' : Built hash r')
    (hnodes : r.nodes = r'.nodes) (hvirtual : r.virtualNodes = r'.virtualNodes) :
    r.ring = r'.ring := by
  have hcount : ∀ p, r.ring.count p = r'.ring.count p := by
    intro p
    by_cases hp : p.2 ∈ r.nodes
    · have hself : ∀ ring : List (Nat × String),
          ring.count p = (ring.filter fun q => q.2 = p.2).count p := fun ring =>
        (List.count_filter (by simp)).symm
      have hpairs' := h'.pairs p.2 (hnodes ▸ hp)
      rw [← hvirtual] at hpairs'
      rw [hself r.ring, hself r'.ring, (h.pairs p.2 hp).count_eq, hpairs'.count_eq]
    · rw [List.count_eq_zero_of_not_mem fun hmem => hp (r.mem_nodes p hmem),
        List.count_eq_zero_of_not_mem fun hmem => hp (hnodes ▸ r'.mem_nodes p hmem)]
  refine (List.perm_iff_count.mpr hcount).eq_of_pairwise (fun p q _ _ hpq hqp => ?_) h.sorted
    h'.sorted
  exact place_injective (le_antisymm hpq hqp)

end ConsistentHashRing

end MiniDb
