/-
  Version vectors (`repair/version_vector.py`).

  What a vector stands for is the counter of each node, 0 where it has no entry; the order is the
  pointwise one (`instPreorder`), in which an entry of 0 and no entry are the same.
  `version_vector_laws`: `compare` decides that order, `merge` is its least upper bound, and
  `increment` goes strictly up.
-/
import MiniDb.Lib.Dict
import Mathlib.Data.List.Lattice
import Mathlib.Order.Bounds.Basic
import Mathlib.Order.Lattice

namespace MiniDb

open Lib

structure VersionVector where
  versions : Dict String Nat

inductive Causality where
  | before
  | after
  | concurrent
  | equal
  deriving DecidableEq

/-- What the arguments in the other order give. -/
def Causality.swap : Causality → Causality
  | .before => .after
  | .after => .before
  | .concurrent => .concurrent
  | .equal => .equal

namespace VersionVector

def get (v : VersionVector) (nodeId : String) : Nat := (v.versions.get? nodeId).getD 0

def increment (v : VersionVector) (nodeId : String) : VersionVector :=
  ⟨v.versions.set nodeId (v.get nodeId + 1)⟩

/-- One entry of the loop of `merge`. -/
def mergeEntry (result : VersionVector) (p : String × Nat) : VersionVector :=
  ⟨result.versions.set p.1 (max (result.get p.1) p.2)⟩

def merge (v other : VersionVector) : VersionVector := other.versions.items.foldl mergeEntry v

/-- One node of the loop of `compare`: `self_newer` and `other_newer`. -/
def compareNode (v other : VersionVector) (newer : Bool × Bool) (nodeId : String) : Bool × Bool :=
  if other.get nodeId < v.get nodeId then (true, newer.2)
  else if v.get nodeId < other.get nodeId then (newer.1, true)
  else newer

/-- `compare`, with the nodes in the order in which the loop comes to them. -/
def compareOver (v other : VersionVector) (allNodes : List String) : Causality :=
  match allNodes.foldl (compareNode v other) (false, false) with
  | (true, true) => .concurrent
  | (true, false) => .after
  | (false, true) => .before
  | (false, false) => .equal

def compare (v other : VersionVector) : Causality :=
  compareOver v other (v.versions.keys ∪ other.versions.keys)

/-! ## The order -/

instance instPreorder : Preorder VersionVector := Preorder.lift get

theorem le_def {v w : VersionVector} : v ≤ w ↔ ∀ nodeId, v.get nodeId ≤ w.get nodeId := Iff.rfl

/-- Whether a node is newer here. -/
theorem not_le_iff {v w : VersionVector} : ¬v ≤ w ↔ ∃ nodeId, w.get nodeId < v.get nodeId := by
  rw [le_def, not_forall]
  exact exists_congr fun _ => not_le

theorem get_eq_zero {v : VersionVector} {nodeId : String} (h : nodeId ∉ v.versions.keys) :
    v.get nodeId = 0 := by
  rw [Dict.mem_keys_iff, not_not] at h
  rw [get, h, Option.getD_none]

/-- The flags of the loop. -/
theorem foldl_compareNode (v w : VersionVector) (nodes : List String) (newer : Bool × Bool) :
    nodes.foldl (compareNode v w) newer =
      (newer.1 || nodes.any fun n => w.get n < v.get n,
        newer.2 || nodes.any fun n => v.get n < w.get n) := by
  induction nodes generalizing newer with
  | nil => simp
  | cons n nodes ih =>
    rw [List.foldl_cons, ih, List.any_cons, List.any_cons]
    unfold compareNode
    split
    · rename_i h
      simp [h, not_lt.mpr (le_of_lt h)]
    · rename_i h
      split
      · rename_i h'
        simp [h, h']
      · rename_i h'
        simp [h, h']

/-- A loop over all nodes that have an entry notices whether one is newer. -/
theorem any_newer_iff {v w : VersionVector} {nodes : List String}
    (hall : ∀ n ∈ v.versions.keys, n ∈ nodes) :
    (nodes.any fun n => w.get n < v.get n) = true ↔ ¬v ≤ w := by
  rw [not_le_iff, List.any_eq_true]
  constructor
  · rintro ⟨n, -, hn⟩
    exact ⟨n, of_decide_eq_true hn⟩
  · rintro ⟨n, hn⟩
    refine ⟨n, hall n ?_, decide_eq_true hn⟩
    by_contra hnot
    rw [get_eq_zero hnot] at hn
    exact absurd hn (Nat.not_lt_zero _)

/-- What `compare` is to answer. -/
structure Decides (v w : VersionVector) (c : Causality) : Prop where
  before : c = .before ↔ v < w
  after : c = .after ↔ w < v
  equal : c = .equal ↔ v ≤ w ∧ w ≤ v
  concurrent : c = .concurrent ↔ ¬v ≤ w ∧ ¬w ≤ v

/-- In whatever order the loop comes to the nodes. -/
theorem compareOver_decides {v w : VersionVector} {nodes : List String}
    (hv : ∀ n ∈ v.versions.keys, n ∈ nodes) (hw : ∀ n ∈ w.versions.keys, n ∈ nodes) :
    Decides v w (compareOver v w nodes) := by
  have hself := any_newer_iff (w := w) hv
  have hother := any_newer_iff (w := v) hw
  unfold compareOver
  rw [foldl_compareNode, Bool.false_or, Bool.false_or]
  generalize (nodes.any fun n => decide (w.get n < v.get n)) = selfNewer at hself ⊢
  generalize (nodes.any fun n => decide (v.get n < w.get n)) = otherNewer at hother ⊢
  cases selfNewer <;> cases otherNewer <;> constructor <;>
    simp_all [lt_iff_le_not_ge]

theorem compare_decides (v w : VersionVector) : Decides v w (v.compare w) :=
  compareOver_decides (fun _ h => List.mem_union_left h _) fun _ h => List.mem_union_right _ h

/-- One answer only is right. -/
theorem Decides.unique {v w : VersionVector} {c c' : Causality} (h : Decides v w c)
    (h' : Decides v w c') : c' = c := by
  cases c with
  | before => exact h'.before.mpr (h.before.mp rfl)
  | after => exact h'.after.mpr (h.after.mp rfl)
  | concurrent => exact h'.concurrent.mpr (h.concurrent.mp rfl)
  | equal => exact h'.equal.mpr (h.equal.mp rfl)

theorem Decides.swap {v w : VersionVector} {c : Causality} (h : Decides v w c) :
    Decides w v c.swap := by
  obtain ⟨hbefore, hafter, hequal, hconcurrent⟩ := h
  cases c <;> constructor <;> simp_all [Causality.swap, and_comm]

/-! ## Merging -/

theorem get_merge (v w : VersionVector) (nodeId : String) :
    (v.merge w).get nodeId = max (v.get nodeId) (w.get nodeId) := by
  have hfold := get?_foldl (fun r : VersionVector => r.versions.get?) mergeEntry Prod.fst
    (fun p b => some (max (b.getD 0) p.2)) (fun r p k => ?_) w.versions.items v nodeId
  · unfold merge
    rw [get, hfold, Dict.filter_items_key]
    cases hw : w.versions.get? nodeId with
    | none => simp [get, hw]
    | some n => simp [get, hw]
  · unfold mergeEntry
    rw [Dict.get?_set]
    by_cases hk : k = p.1
    · rw [if_pos hk, if_pos hk.symm, get, hk]
    · rw [if_neg hk, if_neg (Ne.symm hk)]

theorem isLUB_merge (v w : VersionVector) : IsLUB {v, w} (v.merge w) := by
  constructor
  · rintro u (rfl | rfl) n
    · rw [get_merge]
      exact le_max_left _ _
    · rw [get_merge]
      exact le_max_right _ _
  · intro u hu n
    rw [get_merge]
    exact max_le (hu (Set.mem_insert v _) n) (hu (Set.mem_insert_of_mem v rfl) n)

theorem get_increment (v : VersionVector) (nodeId n : String) :
    (v.increment nodeId).get n = if n = nodeId then v.get nodeId + 1 else v.get n := by
  unfold increment
  rw [get, Dict.get?_set]
  split <;> rfl

theorem lt_increment (v : VersionVector) (nodeId : String) : v < v.increment nodeId := by
  rw [lt_iff_le_not_ge, not_le_iff]
  constructor
  · intro n
    rw [get_increment]
    split
    · rename_i h
      rw [h]
      exact Nat.le_succ _
    · exact le_refl _
  · refine ⟨nodeId, ?_⟩
    rw [get_increment, if_pos rfl]
    exact Nat.lt_succ_self _

/-- Vectors that stand for the same are equal for `compare`. -/
theorem compare_eq_equal {v w : VersionVector} (h : ∀ n, v.get n = w.get n) :
    v.compare w = .equal :=
  (compare_decides v w).equal.mpr ⟨fun n => le_of_eq (h n), fun n => le_of_eq (h n).symm⟩

/-- **`compare` decides the pointwise order, `merge` is its least upper bound, and `increment` goes
    strictly up.** -/
theorem version_vector_laws (u v w : VersionVector) (nodeId : String) :
    Decides v w (v.compare w) ∧ w.compare v = (v.compare w).swap ∧
      (v.merge w).compare (w.merge v) = .equal ∧
      ((u.merge v).merge w).compare (u.merge (v.merge w)) = .equal ∧
      (v.merge v).compare v = .equal ∧
      v ≤ v.merge w ∧ w ≤ v.merge w ∧ (∀ b, v ≤ b → w ≤ b → v.merge w ≤ b) ∧
      v.compare (v.increment nodeId) = .before := by
  have hlub := isLUB_merge v w
  refine ⟨compare_decides v w, ?_, compare_eq_equal fun n => ?_, compare_eq_equal fun n => ?_,
    compare_eq_equal fun n => ?_, hlub.1 (Set.mem_insert v _),
    hlub.1 (Set.mem_insert_of_mem v rfl), fun b hv hw => hlub.2 ?_, ?_⟩
  · exact (compare_decides v w).swap.unique (compare_decides w v)
  · rw [get_merge, get_merge, max_comm]
  · rw [get_merge, get_merge, get_merge, get_merge, max_assoc]
  · rw [get_merge, max_self]
  · rintro x (rfl | rfl)
    · exact hv
    · exact hw
  · exact (compare_decides v _).before.mpr (lt_increment v nodeId)

end VersionVector

end MiniDb
