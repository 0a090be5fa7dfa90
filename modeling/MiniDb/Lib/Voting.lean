/-
  Voting in terms: each voter has at most one vote in each term, and a candidate is elected when
  a majority of the members voted for it. And when quorums of a given size meet.

  Ballots are ordered by extension: votes are added, none is changed. What was once elected stays
  elected, and two candidates elected in one term are the same.
-/
import Mathlib.Data.Finset.Card
import Mathlib.Logic.Function.Basic
import Mathlib.Order.Basic

namespace Lib

variable {V : Type}

/-- The vote of each voter in each term. -/
structure Ballots (V : Type) where
  vote : V → Nat → Option V

namespace Ballots

instance : Preorder (Ballots V) where
  le b b' := ∀ v t c, b.vote v t = some c → b'.vote v t = some c
  le_refl _ _ _ _ h := h
  le_trans _ _ _ h h' v t c hv := h' v t c (h v t c hv)

/-- Nobody has voted. -/
def empty : Ballots V := ⟨fun _ _ => none⟩

variable [DecidableEq V]

/-- The ballots with the vote of `v` for `c` in term `t`. -/
def cast (b : Ballots V) (v : V) (t : Nat) (c : V) : Ballots V :=
  ⟨Function.update b.vote v (Function.update (b.vote v) t (some c))⟩

theorem vote_cast (b : Ballots V) (v : V) (t : Nat) (c : V) (u : V) (t' : Nat) :
    (b.cast v t c).vote u t' = if u = v ∧ t' = t then some c else b.vote u t' := by
  unfold cast
  by_cases hu : u = v
  · subst hu
    simp only [Function.update_self, Function.update_apply, true_and]
  · simp only [Function.update_of_ne hu, hu, false_and, if_false]

@[simp] theorem vote_cast_self (b : Ballots V) (v : V) (t : Nat) (c : V) :
    (b.cast v t c).vote v t = some c := by
  rw [vote_cast, if_pos ⟨rfl, rfl⟩]

theorem vote_cast_of_ne (b : Ballots V) {v : V} {t : Nat} (c : V) {u : V} {t' : Nat}
    (h : u ≠ v ∨ t' ≠ t) : (b.cast v t c).vote u t' = b.vote u t' := by
  rw [vote_cast, if_neg]
  rintro ⟨rfl, rfl⟩
  rcases h with h | h <;> exact h rfl

/-- A voter that has not voted for another in the term may vote. -/
theorem le_cast {b : Ballots V} {v : V} {t : Nat} {c : V}
    (h : b.vote v t = none ∨ b.vote v t = some c) : b ≤ b.cast v t c := by
  intro u t' d hd
  rw [vote_cast]
  split
  · rename_i hut
    obtain ⟨rfl, rfl⟩ := hut
    rcases h with h | h
    · rw [h] at hd
      cases hd
    · rw [h] at hd
      exact hd
  · exact hd

end Ballots

/-- A majority of the members voted for `c` in term `t`. -/
def Elected (b : Ballots V) (members : Finset V) (t : Nat) (c : V) : Prop :=
  ∃ voters ⊆ members, members.card < 2 * voters.card ∧ ∀ v ∈ voters, b.vote v t = some c

theorem Elected.mono {b b' : Ballots V} {members : Finset V} {t : Nat} {c : V} (hb : b ≤ b')
    (h : Elected b members t c) : Elected b' members t c := by
  obtain ⟨voters, hsub, hcard, hvote⟩ := h
  exact ⟨voters, hsub, hcard, fun v hv => hb v t c (hvote v hv)⟩

/-- Two majorities have a member in common. -/
theorem majorities_meet [DecidableEq V] {members p q : Finset V} (hp : p ⊆ members)
    (hq : q ⊆ members) (hpcard : members.card < 2 * p.card) (hqcard : members.card < 2 * q.card) :
    ∃ v, v ∈ p ∧ v ∈ q := by
  have hcard : members.card < p.card + q.card := by omega
  obtain ⟨v, hv⟩ := Finset.inter_nonempty_of_card_lt_card_add_card hp hq hcard
  exact ⟨v, Finset.mem_inter.mp hv⟩

/-- When `q` members around `l` meet any `q` of the replicas: exactly when the members are too few
    for both, or no `q` replicas can leave `l` out. -/
theorem quorums_meet_iff [DecidableEq V] {members replicas : Finset V} {l : V} {q : Nat}
    (hr : replicas ⊆ members) (hl : l ∈ members) (hq : q ≤ replicas.card) :
    (∀ a ⊆ members, l ∈ a → q ≤ a.card → ∀ b ⊆ replicas, b.card = q → ∃ v, v ∈ a ∧ v ∈ b) ↔
      members.card < 2 * q ∨ (l ∈ replicas ∧ replicas.card ≤ q) := by
  constructor
  · intro h
    by_contra hnot
    rw [not_or, not_lt, not_and, not_le] at hnot
    -- `q` replicas without `l`
    have hcard : q ≤ (replicas.erase l).card := by
      by_cases hlr : l ∈ replicas
      · rw [Finset.card_erase_of_mem hlr]
        have := hnot.2 hlr
        omega
      · rw [Finset.erase_eq_of_notMem hlr]
        exact hq
    obtain ⟨b, hb, hbcard⟩ := Finset.exists_subset_card_eq hcard
    have hbr : b ⊆ replicas := hb.trans (Finset.erase_subset l replicas)
    have hlb : l ∉ b := fun hlb => Finset.notMem_erase l replicas (hb hlb)
    have hrest : q ≤ (members \ b).card := by
      rw [Finset.card_sdiff_of_subset (hbr.trans hr)]
      omega
    obtain ⟨v, hva, hvb⟩ := h (members \ b) Finset.sdiff_subset
      (Finset.mem_sdiff.mpr ⟨hl, hlb⟩) hrest b hbr hbcard
    exact (Finset.mem_sdiff.mp hva).2 hvb
  · rintro (hfew | ⟨hlr, hall⟩) a ha hla hacard b hb hbcard
    · have hmeet : members.card < a.card + b.card := by omega
      obtain ⟨v, hv⟩ := Finset.inter_nonempty_of_card_lt_card_add_card ha (hb.trans hr) hmeet
      exact ⟨v, Finset.mem_inter.mp hv⟩
    · have hbr : b = replicas := Finset.eq_of_subset_of_card_le hb (hall.trans hbcard.ge)
      exact ⟨l, hla, hbr ▸ hlr⟩

/-- **One winner per term.** -/
theorem Elected.unique {b : Ballots V} {members : Finset V} {t : Nat} {c d : V}
    (hc : Elected b members t c) (hd : Elected b members t d) : c = d := by
  classical
  obtain ⟨p, hp, hpcard, hpvote⟩ := hc
  obtain ⟨q, hq, hqcard, hqvote⟩ := hd
  obtain ⟨v, hvp, hvq⟩ := majorities_meet hp hq hpcard hqcard
  exact Option.some.inj ((hpvote v hvp).symm.trans (hqvote v hvq))

end Lib
