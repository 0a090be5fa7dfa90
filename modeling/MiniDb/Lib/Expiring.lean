/-
  Maps whose entries expire.

  `ExpiringMap` is the meaning: each key has what was last set, until it is deleted, and `view`
  hides an entry exactly when the clock is past its expiry time. An implementation may also
  remove hidden entries, at any moment: `Simulates now c m` says that `c` is `m` without some of
  the entries hidden by `now`. The operations keep it, and what both show is the same.
-/
import Mathlib.Logic.Function.Basic
import Mathlib.Order.Lattice

namespace Lib

variable {K V T : Type}

/-- A value with its expiry time. -/
abbrev Expiring (V T : Type) := V × Option T

abbrev ExpiringMap (K V T : Type) := K → Option (Expiring V T)

namespace ExpiringMap

variable [LinearOrder T]

/-- The clock is not past the expiry time. -/
def Live (now : T) (e : Expiring V T) : Prop := ∀ x, e.2 = some x → now ≤ x

instance (now : T) : (e : Expiring V T) → Decidable (Live now e)
  | (_, none) => isTrue fun _ h => by cases h
  | (_, some x) =>
    decidable_of_iff (now ≤ x) ⟨fun h _ hx => Option.some.inj hx ▸ h, fun h => h x rfl⟩

theorem Live.anti {now now' : T} {e : Expiring V T} (h : Live now' e) (hle : now ≤ now') :
    Live now e :=
  fun x hx => le_trans hle (h x hx)

/-- What the map shows under a key. -/
def view (now : T) (m : ExpiringMap K V T) (k : K) : Option V :=
  ((m k).filter fun e => decide (Live now e)).map Prod.fst

/-- `c` is `m` without some of the entries that are hidden at `now`. -/
def Simulates (now : T) (c m : ExpiringMap K V T) : Prop :=
  ∀ k, c k = m k ∨ (c k = none ∧ ∃ e, m k = some e ∧ ¬ Live now e)

theorem Simulates.refl (now : T) (m : ExpiringMap K V T) : Simulates now m m := fun _ => .inl rfl

theorem Simulates.mono {now now' : T} {c m : ExpiringMap K V T} (h : Simulates now c m)
    (hle : now ≤ now') : Simulates now' c m := by
  intro k
  rcases h k with h | ⟨hc, e, he, hdead⟩
  · exact .inl h
  · exact .inr ⟨hc, e, he, fun hlive => hdead (hlive.anti hle)⟩

/-- Both show the same. -/
theorem Simulates.view_eq {now : T} {c m : ExpiringMap K V T} (h : Simulates now c m) (k : K) :
    view now c k = view now m k := by
  unfold view
  rcases h k with h | ⟨hc, e, he, hdead⟩
  · rw [h]
  · simp [hc, he, Option.filter_some, hdead]

/-- Removing an entry that is hidden. -/
theorem Simulates.purge {now : T} {c c' m : ExpiringMap K V T} (h : Simulates now c m)
    (hc : ∀ k, c' k = c k ∨ (c' k = none ∧ ∃ e, c k = some e ∧ ¬ Live now e)) :
    Simulates now c' m := by
  intro k
  rcases hc k with hsame | ⟨hnone, e, he, hdead⟩
  · rw [hsame]
    exact h k
  · rcases h k with hk | ⟨hk, -⟩
    · exact .inr ⟨hnone, e, hk ▸ he, hdead⟩
    · rw [hk] at he
      cases he

/-- Writing the same under one key, whatever was there. -/
theorem Simulates.update [DecidableEq K] {now : T} {c m : ExpiringMap K V T}
    (h : Simulates now c m) (k : K) (e : Option (Expiring V T)) :
    Simulates now (Function.update c k e) (Function.update m k e) := by
  intro x
  by_cases hx : x = k
  · subst hx
    rw [Function.update_self, Function.update_self]
    exact .inl rfl
  · rw [Function.update_of_ne hx, Function.update_of_ne hx]
    exact h x

end ExpiringMap

end Lib
