/-
  The value that so many members of a list reach. `reached l i` counts the members at `i` or
  above; it falls as `i` grows, and it changes at members only (`exists_mem_reached`). So if `i`
  is the greatest member that `k` members reach, `k` members reach just the values up to `i`
  (`reached_iff_le`). In a descending list the first such member is the greatest
  (`isGreatest_find?`).
-/
import Mathlib.Data.List.Sort
import Mathlib.Data.Finset.Max

namespace Lib

variable {α : Type} [LinearOrder α]

/-- The number of members at `i` or above. -/
def reached (l : List α) (i : α) : Nat := l.countP fun x => i ≤ x

theorem reached_anti (l : List α) {i j : α} (h : i ≤ j) : reached l j ≤ reached l i :=
  List.countP_mono_left fun _ _ hj => decide_eq_true (le_trans h (of_decide_eq_true hj))

theorem reached_perm {l l' : List α} (h : l.Perm l') (i : α) : reached l i = reached l' i :=
  h.countP_eq _

/-- The next member reaches as many. -/
theorem exists_mem_reached {l : List α} {i : α} (h : 0 < reached l i) :
    ∃ j ∈ l, i ≤ j ∧ reached l j = reached l i := by
  obtain ⟨x, hx, hix⟩ := List.countP_pos_iff.mp h
  have hne : (l.toFinset.filter fun x => i ≤ x).Nonempty :=
    ⟨x, Finset.mem_filter.mpr ⟨List.mem_toFinset.mpr hx, of_decide_eq_true hix⟩⟩
  obtain ⟨j, hj, hmin⟩ := Finset.exists_min_image _ id hne
  obtain ⟨hmem, hij⟩ := Finset.mem_filter.mp hj
  refine ⟨j, List.mem_toFinset.mp hmem, hij, List.countP_congr fun y hy => ?_⟩
  simp only [decide_eq_true_eq]
  constructor
  · exact fun hjy => le_trans hij hjy
  · exact fun hiy => hmin y (Finset.mem_filter.mpr ⟨List.mem_toFinset.mpr hy, hiy⟩)

/-- The values that `k` members reach are those up to the greatest member that they reach. -/
theorem reached_iff_le {l : List α} {k : Nat} (hk : 0 < k) {i : α}
    (hi : IsGreatest {j | j ∈ l ∧ k ≤ reached l j} i) (n : α) : k ≤ reached l n ↔ n ≤ i := by
  constructor
  · intro hn
    obtain ⟨j, hj, hle, heq⟩ := exists_mem_reached (lt_of_lt_of_le hk hn)
    exact le_trans hle (hi.2 ⟨hj, heq ▸ hn⟩)
  · exact fun hle => le_trans hi.1.2 (reached_anti l hle)

/-- If no member is reached by `k`, no value is. -/
theorem reached_lt_of_forall {l : List α} {k : Nat} (hk : 0 < k)
    (h : ∀ j ∈ l, ¬k ≤ reached l j) (n : α) : ¬k ≤ reached l n := by
  intro hn
  obtain ⟨j, hj, -, heq⟩ := exists_mem_reached (lt_of_lt_of_le hk hn)
  exact h j hj (heq ▸ hn)

/-- The first member of a descending list with a property is the greatest with it. -/
theorem isGreatest_find? {l : List α} (hl : l.Pairwise (· ≥ ·)) {p : α → Bool} {i : α}
    (h : l.find? p = some i) : IsGreatest {j | j ∈ l ∧ p j = true} i := by
  obtain ⟨hp, before, rest, rfl, hbefore⟩ := List.find?_eq_some_iff_append.mp h
  refine ⟨⟨List.mem_append_right _ List.mem_cons_self, hp⟩, fun j ⟨hj, hpj⟩ => ?_⟩
  rcases List.mem_append.mp hj with hj | hj
  · have := hbefore j hj
    rw [hpj] at this
    cases this
  · rcases List.mem_cons.mp hj with rfl | hj
    · exact le_refl j
    · exact List.rel_of_pairwise_cons (List.pairwise_append.mp hl).2.1 hj

end Lib
