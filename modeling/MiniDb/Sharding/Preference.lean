/-
  The preference list of a key: all nodes of the ring, in the order in which the walk from the
  key's position meets them. `get_nodes` is an initial part of it, `get_node` its head.

  Taking a node off the ring takes it out of every preference list and changes nothing else in
  them (`preference_removeNode`); what adding and removing does to replica sets and owners
  follows.
-/
import MiniDb.Lib.Scan
import MiniDb.Sharding.RingOrder

namespace MiniDb

open Lib

namespace ConsistentHashRing

variable (hash : String → Nat)

/-- The pair stands before the key's position. -/
def beforeKey (key : String) (q : Nat × String) : Bool := before q (hash key, "")

def preference (r : ConsistentHashRing) (key : String) : List String :=
  ((around (beforeKey hash key) r.ring).map Prod.snd).eraseDups

/-- The walk collects the nodes in the order of their first occurrences. -/
theorem walk_eq (count : Nat) (nodes : List String) (ps : List (Nat × String)) :
    walk count nodes ps = nodes ++
      (((ps.map Prod.snd).filter (fun n => n ∉ nodes)).eraseDups).take
        (max 1 (count - nodes.length)) := by
  induction ps generalizing nodes with
  | nil => simp [walk]
  | cons p ps ih =>
    unfold walk
    rw [List.map_cons]
    split
    · rename_i hp
      rw [ih, List.filter_cons_of_neg (by simpa using hp)]
    rename_i hp
    rw [List.filter_cons_of_pos (by simpa using hp), List.eraseDups_cons]
    split
    · rename_i hcount
      rw [show max 1 (count - nodes.length) = 1 by omega]
      simp
    · rename_i hcount
      obtain ⟨m, hm⟩ : ∃ m, max 1 (count - nodes.length) = m + 1 :=
        ⟨count - nodes.length - 1, by omega⟩
      have hrest : max 1 (count - (nodes ++ [p.2]).length) = m := by
        rw [List.length_append, List.length_singleton]
        omega
      rw [ih, hrest, hm, List.take_succ_cons, List.append_assoc, List.singleton_append,
        List.filter_filter]
      congr 4
      refine List.filter_congr fun n _ => ?_
      simp [and_comm, not_or, beq_eq_decide]

theorem getNodes_eq (r : ConsistentHashRing) (key : String) (count : Nat) :
    getNodes hash r key count = (preference hash r key).take (max 1 count) := by
  unfold getNodes preference around beforeKey bisectLeft
  rw [walk_eq]
  simp

theorem getNode_eq (r : ConsistentHashRing) (key : String) :
    getNode hash r key = (preference hash r key).head? := by
  unfold getNode preference
  change ((around (beforeKey hash key) r.ring).head?).map Prod.snd = _
  cases around (beforeKey hash key) r.ring with
  | nil => rfl
  | cons p ps =>
    rw [List.map_cons, List.eraseDups_cons]
    rfl

theorem nodup_preference (r : ConsistentHashRing) (key : String) :
    (preference hash r key).Nodup :=
  nodup_eraseDups _

theorem mem_preference {r : ConsistentHashRing} {key n : String} :
    n ∈ preference hash r key ↔ ∃ h, (h, n) ∈ r.ring := by
  unfold preference
  rw [List.mem_eraseDups, List.mem_map]
  constructor
  · rintro ⟨⟨h, m⟩, hp, rfl⟩
    exact ⟨h, (around_perm _ _).mem_iff.mp hp⟩
  · rintro ⟨h, hp⟩
    exact ⟨(h, n), (around_perm _ _).mem_iff.mpr hp, rfl⟩

theorem length_preference_le (r : ConsistentHashRing) (key : String) :
    (preference hash r key).length ≤ r.getNodeCount := by
  rw [← List.toFinset_card_of_nodup (nodup_preference hash r key)]
  refine Finset.card_le_card fun n hn => ?_
  obtain ⟨h, hp⟩ := (mem_preference hash).mp (List.mem_toFinset.mp hn)
  exact r.mem_nodes _ hp

/-- The full list. -/
theorem getNodes_count (r : ConsistentHashRing) (key : String) :
    getNodes hash r key r.getNodeCount = preference hash r key := by
  rw [getNodes_eq, List.take_of_length_le]
  exact le_trans (length_preference_le hash r key) (le_max_right _ _)

/-! ## Removing and adding a node -/

theorem initial_beforeKey {ring : List (Nat × String)} (h : Sorted ring) (key : String) :
    Initial (beforeKey hash key) ring := by
  refine h.imp fun {p q} hpq hq => ?_
  unfold beforeKey at hq ⊢
  rw [before_iff] at hq ⊢
  exact lt_of_le_of_lt hpq hq

theorem preference_removeNode {r : ConsistentHashRing} (h : Sorted r.ring) (key n : String) :
    preference hash (r.removeNode n) key = (preference hash r key).filter fun m => m ≠ n := by
  unfold preference
  rw [ring_removeNode, (initial_beforeKey hash h key).around_filter, ← eraseDups_filter,
    List.filter_map]
  rfl

/-- Adding a node and removing it gives the ring back. -/
theorem preference_addNode {r : ConsistentHashRing} (h : Built hash r) {n : String}
    (hn : n ∉ r.nodes) (key : String) :
    preference hash r key = (preference hash (r.addNode hash n) key).filter fun m => m ≠ n := by
  rw [← preference_removeNode hash (h.addNode n).sorted]
  unfold preference
  rw [h.ring_eq ((h.addNode n).removeNode n)]
  · rw [nodes_removeNode, nodes_addNode, Finset.erase_insert hn]
  · rw [virtualNodes_removeNode, virtualNodes_addNode]

/-- What is not in an initial part can be left out of the list. -/
theorem take_filter_ne {l : List String} {n : String} {k : Nat} (h : n ∉ l.take k) :
    (l.filter fun m => m ≠ n).take k = l.take k := by
  induction l generalizing k with
  | nil => rfl
  | cons a l ih =>
    cases k with
    | zero => rfl
    | succ k =>
      rw [List.take_succ_cons, List.mem_cons, not_or] at h
      rw [List.filter_cons_of_pos (by simpa using Ne.symm h.1), List.take_succ_cons, ih h.2,
        List.take_succ_cons]

theorem head?_filter_ne {l : List String} {n : String}
    (h : (l.filter fun m => m ≠ n).head? ≠ l.head?) : l.head? = some n := by
  cases l with
  | nil => exact absurd rfl h
  | cons a l =>
    by_cases ha : a = n
    · rw [ha]
      rfl
    · rw [List.filter_cons_of_pos (by simpa using ha)] at h
      exact absurd rfl h

/-! ## Rings that the program builds -/

inductive RingOp where
  | add (n : String)
  | remove (n : String)

def applyOp (r : ConsistentHashRing) : RingOp → ConsistentHashRing
  | .add n => r.addNode hash n
  | .remove n => r.removeNode n

/-- A new ring after some joins and leaves. -/
def build (virtualNodes : Nat) (ops : List RingOp) : ConsistentHashRing :=
  ops.foldl (applyOp hash) (new virtualNodes)

theorem built_foldl {r : ConsistentHashRing} (h : Built hash r) (ops : List RingOp) :
    Built hash (ops.foldl (applyOp hash) r) := by
  induction ops generalizing r with
  | nil => exact h
  | cons op ops ih =>
    rw [List.foldl_cons]
    cases op with
    | add n => exact ih (h.addNode n)
    | remove n => exact ih (h.removeNode n)

theorem built_build (virtualNodes : Nat) (ops : List RingOp) :
    Built hash (build hash virtualNodes ops) :=
  built_foldl hash (built_new virtualNodes) ops

/-- For the key, `r'` is `r` without `n`: the same order of the others, and replica sets and
    owners that are the same unless `n` is in them. -/
structure Lacks (r r' : ConsistentHashRing) (key n : String) : Prop where
  order : getNodes hash r' key r'.getNodeCount =
    (getNodes hash r key r.getNodeCount).erase n
  replicas : ∀ c, n ∉ getNodes hash r key c → getNodes hash r' key c = getNodes hash r key c
  owner : getNode hash r' key ≠ getNode hash r key → getNode hash r key = some n

theorem lacks_of_preference {r r' : ConsistentHashRing} {key n : String}
    (h : preference hash r' key = (preference hash r key).filter fun m => m ≠ n) :
    Lacks hash r r' key n := by
  refine ⟨?_, fun c hc => ?_, fun hne => ?_⟩
  · rw [getNodes_count, getNodes_count, h, (nodup_preference hash r key).erase_eq_filter n]
    refine List.filter_congr fun m _ => ?_
    rw [bne, beq_eq_decide, decide_not]
  · rw [getNodes_eq] at hc ⊢
    rw [getNodes_eq, h, take_filter_ne hc]
  · rw [getNode_eq, getNode_eq, h] at hne
    rw [getNode_eq]
    exact head?_filter_ne hne

/-- **Minimal disruption**: of a node that is added or removed, the ring with it and the ring
    without it differ by this node only, in every preference list, replica set and owner. -/
theorem lacks_removed_and_added (virtualNodes : Nat) (ops : List RingOp) (key n : String) :
    Lacks hash (build hash virtualNodes ops) ((build hash virtualNodes ops).removeNode n) key n ∧
      (n ∉ (build hash virtualNodes ops).nodes →
        Lacks hash ((build hash virtualNodes ops).addNode hash n) (build hash virtualNodes ops)
          key n) := by
  have hbuilt := built_build hash virtualNodes ops
  constructor
  · exact lacks_of_preference hash (preference_removeNode hash hbuilt.sorted key n)
  · exact fun hn => lacks_of_preference hash (preference_addNode hash hbuilt hn key)

/-- Three nodes with two virtual nodes each, all hashes equal; "b" leaves, "d" joins. -/
theorem lacks_removed_and_added_sample :
    Lacks (fun _ => 7) (build (fun _ => 7) 2 [.add "a", .add "b", .add "c"])
        ((build (fun _ => 7) 2 [.add "a", .add "b", .add "c"]).removeNode "b") "k" "b" ∧
      Lacks (fun _ => 7) ((build (fun _ => 7) 2 [.add "a", .add "b", .add "c"]).addNode
        (fun _ => 7) "d") (build (fun _ => 7) 2 [.add "a", .add "b", .add "c"]) "k" "d" :=
  ⟨(lacks_removed_and_added (fun _ => 7) 2 [.add "a", .add "b", .add "c"] "k" "b").1,
    (lacks_removed_and_added (fun _ => 7) 2 [.add "a", .add "b", .add "c"] "k" "d").2 (by decide)⟩

end ConsistentHashRing

end MiniDb
