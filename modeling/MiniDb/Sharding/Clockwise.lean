/-
  The order in which `get_nodes` finds the nodes of a key.

  `clockwise` is the place of a virtual node on the way round from the key's hash: those at the
  hash or after it first, then those before it. `getNodes_clockwise` says what `get_nodes` gives
  on every ring that joins and leaves build: as many nodes as there are, at most `count`, in the
  order in which the way round first meets one of their virtual nodes (`MetBefore`), and no node
  left out that is met earlier. It does not mention the list that `bisect.insort` keeps.
-/
import MiniDb.Sharding.Preference
import Mathlib.Data.Bool.Basic

namespace MiniDb

open Lib

namespace ConsistentHashRing

variable (hash : String → Nat)

/-! ## The way round -/

/-- The place of a (hash, node) pair on the way from the key's hash, with wrap-around. -/
def clockwise (key : String) (p : Nat × String) : Bool ×ₗ (Nat ×ₗ String) :=
  toLex (decide (p.1 < hash key), toLex p)

/-- The pair of a virtual node. -/
def virtualPair (n : String) (i : Nat) : Nat × String := (hash (n ++ ":" ++ toString i), n)

/-- A virtual node of `m` is met before all those of `n`. -/
def MetBefore (virtualNodes : Nat) (key m n : String) : Prop :=
  ∃ i < virtualNodes, ∀ j < virtualNodes,
    clockwise hash key (virtualPair hash m i) < clockwise hash key (virtualPair hash n j)

variable {hash}

theorem beforeKey_eq (key : String) (p : Nat × String) :
    beforeKey hash key p = decide (p.1 < hash key) := by
  have hempty : ¬ p.2 < "" := fun h => absurd (String.lt_iff_toList_lt.mp h) (List.not_lt_nil _)
  simp [beforeKey, before, hempty]

theorem Built.mem_ring {r : ConsistentHashRing} (h : Built hash r) (p : Nat × String) :
    p ∈ r.ring ↔ p.2 ∈ r.nodes ∧ ∃ i < r.virtualNodes, p = virtualPair hash p.2 i := by
  have hpairs : p.2 ∈ r.nodes →
      (p ∈ r.ring ↔ ∃ i < r.virtualNodes, p = virtualPair hash p.2 i) := by
    intro hn
    have hmem := (h.pairs p.2 hn).mem_iff (a := p)
    rw [List.mem_filter, decide_eq_true_eq, and_iff_left rfl] at hmem
    rw [hmem, virtualPairs, List.mem_map]
    constructor
    · rintro ⟨i, hi, hp⟩
      exact ⟨i, by simpa using hi, hp.symm⟩
    · rintro ⟨i, hi, hp⟩
      exact ⟨i, by simpa using hi, hp.symm⟩
  constructor
  · intro hp
    have hn := r.mem_nodes p hp
    exact ⟨hn, (hpairs hn).mp hp⟩
  · rintro ⟨hn, hp⟩
    exact (hpairs hn).mpr hp

/-! ## Preference lists -/

/-- Every node of the ring is in every preference list. -/
theorem Built.preference_toFinset {r : ConsistentHashRing} (h : Built hash r)
    (hv : 1 ≤ r.virtualNodes) (key : String) : (preference hash r key).toFinset = r.nodes := by
  ext n
  rw [List.mem_toFinset, mem_preference]
  constructor
  · rintro ⟨x, hx⟩
    exact r.mem_nodes _ hx
  · intro hn
    exact ⟨_, (h.mem_ring (virtualPair hash n 0)).mpr ⟨hn, 0, hv, rfl⟩⟩

/-- A key has as many replicas as asked for, if there are as many nodes. -/
theorem Built.length_getNodes {r : ConsistentHashRing} (h : Built hash r) (hv : 1 ≤ r.virtualNodes)
    (key : String) (count : Nat) :
    (getNodes hash r key count).length = min (max 1 count) r.getNodeCount := by
  rw [getNodes_eq, List.length_take, getNodeCount, ← h.preference_toFinset hv key,
    List.toFinset_card_of_nodup (nodup_preference hash r key)]

/-- The ring, from the key's position around, is sorted by the way round. -/
theorem Built.pairwise_clockwise {r : ConsistentHashRing} (h : Built hash r) (key : String) :
    (around (beforeKey hash key) r.ring).Pairwise fun p q =>
      clockwise hash key p ≤ clockwise hash key q := by
  refine (pairwise_around h.sorted (initial_beforeKey hash h.sorted key)).imp fun {p q} hpq => ?_
  simp only [beforeKey_eq] at hpq
  rcases hpq with ⟨hside, hle⟩ | ⟨hp, hq⟩
  · exact Prod.Lex.toLex_le_toLex.mpr (.inr ⟨hside, hle⟩)
  · refine Prod.Lex.toLex_le_toLex.mpr (.inl ?_)
    rw [hp, hq]
    exact Bool.false_lt_true

/-- Preference lists have the nodes in the order in which they are met. -/
theorem Built.preference_metBefore {r : ConsistentHashRing} (h : Built hash r) (key : String) :
    (preference hash r key).Pairwise (MetBefore hash r.virtualNodes key) := by
  have hmem : ∀ p, p ∈ around (beforeKey hash key) r.ring ↔ p ∈ r.ring := fun p =>
    (around_perm _ _).mem_iff
  have hfirst := eraseDups_map_pairwise Prod.snd (h.pairwise_clockwise key)
  refine (hfirst.and (nodup_preference hash r key)).imp_of_mem fun {m n} _ hn hmn => ?_
  obtain ⟨⟨p, hp, rfl, hall⟩, hne⟩ := hmn
  obtain ⟨-, i, hi, hpair⟩ := (h.mem_ring p).mp ((hmem p).mp hp)
  obtain ⟨x, hx⟩ := (mem_preference hash).mp hn
  refine ⟨i, hi, fun j hj => ?_⟩
  have hq : virtualPair hash n j ∈ r.ring := 
    (h.mem_ring _).mpr ⟨r.mem_nodes (x, n) hx, j, hj, rfl⟩
  rw [← hpair]
  refine lt_of_le_of_ne (hall _ ((hmem _).mpr hq) rfl) fun heq => hne ?_
  -- two pairs at one place are the same pair
  have hpq := congrArg (fun c => (ofLex (ofLex c).2).2) heq
  exact hpq

/-! ## The nodes of a key -/

/-- What `get_nodes` gives for a key and a count. -/
structure ClockwiseNodes (hash : String → Nat) (r : ConsistentHashRing) (key : String)
    (count : Nat) : Prop where
  length : (getNodes hash r key count).length = min count r.getNodeCount
  distinct : (getNodes hash r key count).Nodup
  onRing : ∀ n ∈ getNodes hash r key count, n ∈ r.nodes
  extended : getNodes hash r key count <+: getNodes hash r key (count + 1)
  first : (getNodes hash r key count).head? = getNode hash r key
  ordered : (getNodes hash r key count).Pairwise (MetBefore hash r.virtualNodes key)
  /-- The nodes left out are met later. -/
  later : ∀ m ∈ getNodes hash r key count, ∀ n ∈ r.nodes, n ∉ getNodes hash r key count →
    MetBefore hash r.virtualNodes key m n

theorem Built.clockwiseNodes {r : ConsistentHashRing} (h : Built hash r)
    (hvirtual : 1 ≤ r.virtualNodes) (key : String) {count : Nat} (hcount : 1 ≤ count) :
    ClockwiseNodes hash r key count := by
  have hnodes : ∀ c, 1 ≤ c → getNodes hash r key c = (preference hash r key).take c := by
    intro c hc
    rw [getNodes_eq, max_eq_right hc]
  have hordered := h.preference_metBefore key
  rw [← List.take_append_drop count (preference hash r key), List.pairwise_append,
    ← hnodes count hcount] at hordered
  obtain ⟨hbefore, -, hlater⟩ := hordered
  refine ⟨?_, nodup_getNodes hash r key count, fun n hn => mem_getNodes hn, ?_, ?_, hbefore,
    fun m hm n hn hnot => hlater m hm n ?_⟩
  · rw [h.length_getNodes hvirtual, max_eq_right hcount]
  · rw [hnodes count hcount, hnodes (count + 1) (by omega)]
    exact List.take_prefix_take_left (Nat.le_succ count)
  · rw [hnodes count hcount, getNode_eq, List.head?_take, if_neg (by omega)]
  · have hpref : n ∈ preference hash r key := by
      rw [← List.mem_toFinset, h.preference_toFinset hvirtual]
      exact hn
    rw [← List.take_append_drop count (preference hash r key), ← hnodes count hcount,
      List.mem_append] at hpref
    exact hpref.resolve_left hnot

theorem virtualNodes_build (virtualNodes : Nat) (ops : List RingOp) :
    (build hash virtualNodes ops).virtualNodes = virtualNodes := by
  have hfold : ∀ r : ConsistentHashRing,
      (ops.foldl (applyOp hash) r).virtualNodes = r.virtualNodes := by
    induction ops with
    | nil => exact fun r => rfl
    | cons op ops ih =>
      intro r
      rw [List.foldl_cons, ih]
      cases op with
      | add n => exact virtualNodes_addNode r n
      | remove n => exact virtualNodes_removeNode r n
  exact hfold (new virtualNodes)

variable (hash) in
/-- **The nodes of a key**, on every ring that joins and leaves build. -/
theorem getNodes_clockwise {virtualNodes : Nat} (hvirtual : 1 ≤ virtualNodes)
    (ops : List RingOp) (key : String) {count : Nat} (hcount : 1 ≤ count) :
    ClockwiseNodes hash (build hash virtualNodes ops) key count := by
  have hbuilt := built_build hash virtualNodes ops
  refine hbuilt.clockwiseNodes ?_ key hcount
  rw [virtualNodes_build]
  exact hvirtual

/-- Three nodes whose virtual nodes all hash to the key's position. -/
theorem getNodes_clockwise_sample :
    ClockwiseNodes (fun _ => 7) (build (fun _ => 7) 2 [.add "c", .add "a", .add "b"]) "k" 2 :=
  getNodes_clockwise (fun _ => 7) (by decide) [.add "c", .add "a", .add "b"] "k" (by decide)

example : getNodes (fun _ => 7) (build (fun _ => 7) 2 [.add "c", .add "a", .add "b"]) "k" 2 =
    ["a", "b"] := by decide

end ConsistentHashRing

end MiniDb
