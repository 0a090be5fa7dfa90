/-
  How often something can happen in a window of time.

  `Metered`: what happens is paid for out of a level that rises with time, at a rate, and never
  above a capacity. Then a window costs at most the capacity and what flows in while it lasts
  (`spent_le`). `Spaced`: something happens only when fewer than `m` earlier times lie at most a
  width back. Then no window of that width has more than `m` (`countP_window_le`).
-/
import Mathlib.Algebra.BigOperators.Group.List.Basic
import Mathlib.Algebra.Order.Field.Basic
import Mathlib.Algebra.Order.BigOperators.Group.List
import Mathlib.Tactic.Linarith
import Mathlib.Tactic.Ring

namespace Lib

/-! ## A metered level -/

section Metered

variable {K : Type} [Field K] [LinearOrder K]

/-- The cost of the events in the closed interval; an event is a time and a cost. -/
def spent (s e : K) (events : List (K × K)) : K :=
  ((events.filter fun p => s ≤ p.1 ∧ p.1 ≤ e).map Prod.snd).sum

/-- From this level at this time the events are paid for, in this order. -/
inductive Metered (cap rate : K) : K → K → List (K × K) → Prop where
  | nil {level t : K} (hlevel : 0 ≤ level) : Metered cap rate level t []
  | cons {level t level' t' cost : K} {events : List (K × K)} (hlevel : 0 ≤ level)
      (htime : t ≤ t') (hcap : level' + cost ≤ cap)
      (hpaid : level' + cost ≤ level + rate * (t' - t))
      (hrest : Metered cap rate level' t' events) :
      Metered cap rate level t ((t', cost) :: events)

variable {cap rate level t : K} {events : List (K × K)}

@[simp] theorem spent_nil (s e : K) : spent s e ([] : List (K × K)) = 0 := rfl

theorem spent_cons (s e : K) (p : K × K) (events : List (K × K)) :
    spent s e (p :: events) = (if s ≤ p.1 ∧ p.1 ≤ e then p.2 else 0) + spent s e events := by
  unfold spent
  by_cases h : s ≤ p.1 ∧ p.1 ≤ e
  · rw [List.filter_cons_of_pos (by simpa using h), List.map_cons, List.sum_cons, if_pos h]
  · rw [List.filter_cons_of_neg (by simpa using h), if_neg h, zero_add]

/-- Nothing happens before the time of the level. -/
theorem Metered.spent_eq_zero (h : Metered cap rate level t events) {s e : K} (he : e < t) :
    spent s e events = 0 := by
  induction h with
  | nil => rfl
  | cons hlevel htime hcap hpaid hrest ih =>
    rw [spent_cons, if_neg (fun hin => absurd (lt_of_lt_of_le he htime) (not_lt.mpr hin.2)),
      ih (lt_of_lt_of_le he htime), zero_add]

variable [IsStrictOrderedRing K]

/-- What a level pays for later, it pays for when more has flown in. -/
theorem Metered.of_later {t₀ : K} (h : Metered cap rate level t events) (hrate : 0 ≤ rate)
    (ht : t₀ ≤ t) : Metered cap rate level t₀ events := by
  cases h with
  | nil hlevel => exact .nil hlevel
  | cons hlevel htime hcap hpaid hrest =>
    refine .cons hlevel (le_trans ht htime) hcap (le_trans hpaid ?_) hrest
    exact add_le_add_right (mul_le_mul_of_nonneg_left (sub_le_sub_left ht _) hrate) _

/-- Up to `e`, the level and what flows in pay for all. -/
theorem Metered.spent_le_level (h : Metered cap rate level t events) (hrate : 0 ≤ rate) {s e : K}
    (he : t ≤ e) (hcost : ∀ p ∈ events, 0 ≤ p.2) :
    spent s e events ≤ level + rate * (e - t) := by
  induction h with
  | nil hlevel =>
    rw [spent_nil]
    exact add_nonneg hlevel (mul_nonneg hrate (sub_nonneg.mpr he))
  | @cons level t level' t' cost events hlevel htime hcap hpaid hrest ih =>
    have hcost' := hcost _ List.mem_cons_self
    rw [spent_cons]
    by_cases ht' : t' ≤ e
    · have hrest' := ih ht' fun p hp => hcost p (List.mem_cons_of_mem _ hp)
      have hsplit : rate * (t' - t) + rate * (e - t') = rate * (e - t) := by ring
      have hpart : (if s ≤ t' ∧ t' ≤ e then cost else 0) ≤ cost := by
        split
        · exact le_refl cost
        · exact hcost'
      dsimp only
      linarith
    · rw [if_neg fun hin => ht' hin.2, zero_add, hrest.spent_eq_zero (not_le.mp ht')]
      exact add_nonneg hlevel (mul_nonneg hrate (sub_nonneg.mpr he))

/-- **A window costs at most the capacity and what flows in while it lasts.** -/
theorem Metered.spent_le (h : Metered cap rate level t events) (hcap : 0 ≤ cap)
    (hrate : 0 ≤ rate) (hcost : ∀ p ∈ events, 0 ≤ p.2) {s e : K} (hse : s ≤ e) :
    spent s e events ≤ cap + rate * (e - s) := by
  have hwindow : 0 ≤ rate * (e - s) := mul_nonneg hrate (sub_nonneg.mpr hse)
  induction h with
  | nil =>
    rw [spent_nil]
    exact add_nonneg hcap hwindow
  | @cons level t level' t' cost events hlevel htime hcap' hpaid hrest ih =>
    have hrestCost : ∀ p ∈ events, 0 ≤ p.2 := fun p hp => hcost p (List.mem_cons_of_mem _ hp)
    rw [spent_cons]
    by_cases hin : s ≤ t' ∧ t' ≤ e
    · -- from the first event in the window on, its own level pays
      have hpays := hrest.spent_le_level hrate (s := s) hin.2 hrestCost
      have hshrink : rate * (e - t') ≤ rate * (e - s) :=
        mul_le_mul_of_nonneg_left (sub_le_sub_left hin.1 e) hrate
      rw [if_pos hin]
      dsimp only
      linarith
    · rw [if_neg hin, zero_add]
      exact ih hrestCost

end Metered

/-! ## Spaced times -/

section Spaced

variable {T : Type} [AddCommGroup T] [LinearOrder T]

/-- The times came one after the other, each when fewer than `m` of those before it were at most
    `width` back. -/
inductive Spaced (width : T) (m : Nat) : List T → Prop where
  | nil : Spaced width m []
  | snoc {times : List T} {a : T} (h : Spaced width m times) (hlast : ∀ x ∈ times, x ≤ a)
      (hfew : (times.countP fun x => a - width ≤ x) < m) : Spaced width m (times ++ [a])

variable {width : T} {m : Nat} {times : List T}

theorem Spaced.pairwise (h : Spaced width m times) : times.Pairwise (· ≤ ·) := by
  induction h with
  | nil => exact List.Pairwise.nil
  | @snoc times a h hlast hfew ih =>
    rw [List.pairwise_append]
    exact ⟨ih, List.pairwise_singleton _ _, fun x hx y hy => by
      rw [List.mem_singleton] at hy
      exact hy ▸ hlast x hx⟩

variable [IsOrderedAddMonoid T]

/-- **No closed window of the width has more than `m`.** -/
theorem Spaced.countP_window_le (h : Spaced width m times) (x : T) :
    (times.countP fun a => x ≤ a ∧ a ≤ x + width) ≤ m := by
  induction h with
  | nil => exact Nat.zero_le m
  | @snoc times a h hlast hfew ih =>
    rw [List.countP_append, List.countP_singleton]
    by_cases hin : x ≤ a ∧ a ≤ x + width
    · -- the window reaches back from `a` by at most the width
      have hle : (times.countP fun b => x ≤ b ∧ b ≤ x + width) ≤
          times.countP fun b => a - width ≤ b := by
        refine List.countP_mono_left fun b _ hb => ?_
        simp only [decide_eq_true_eq] at hb ⊢
        exact le_trans (sub_le_iff_le_add.mpr hin.2) hb.1
      simp only [hin, and_self, decide_true, if_true]
      omega
    · simp only [hin, decide_false, Bool.false_eq_true, if_false, add_zero]
      exact ih

end Spaced

end Lib
