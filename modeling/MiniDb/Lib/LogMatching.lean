/-
  Logs that a leader writes and followers copy. Every entry has a term; `LogMatch` is the
  log-matching condition: where both logs have an entry of the same term, they agree up to it
  and including it.

  `mergeAt` writes entries into a log from a position on, as a follower does: an entry that is
  there already, by its term, stays with all behind it; the first one that differs goes with
  all behind it. Merging a piece of a matching log either finds the piece there and changes
  nothing, or leaves the matching log up to the end of the piece (`mergeAt_of_match`).
  `take_mergeAt_iff` says when the front of a log survives.
-/
import Mathlib.Data.List.Basic

namespace Lib

variable {α τ : Type} (term : α → τ)

/-- Where both logs have an entry of the same term, they agree up to it and including it. -/
def LogMatch (l l' : List α) : Prop :=
  ∀ i x y, l[i]? = some x → l'[i]? = some y → term x = term y →
    l.take (i + 1) = l'.take (i + 1)

theorem LogMatch.take (l : List α) (n : Nat) : LogMatch term (l.take n) l := by
  intro i x y hx _ _
  have hi : i < n := by
    by_contra hle
    rw [List.getElem?_take, if_neg hle] at hx
    cases hx
  rw [List.take_take, Nat.min_eq_left hi]

/-- Two logs that are the same up to `n` have the same entry at any position below. -/
theorem getElem?_of_take {l l' : List α} {n i : Nat} (h : l.take n = l'.take n) (hi : i < n) :
    l[i]? = l'[i]? := by
  rw [← List.getElem?_take_of_lt hi, h, List.getElem?_take_of_lt hi]

variable [DecidableEq τ]

/-- Write entries into a log, from position `p` on. -/
def mergeAt (l : List α) : Nat → List α → List α
  | _, [] => l
  | p, e :: es =>
    if l[p]?.any fun own => term own = term e then mergeAt l (p + 1) es
    else l.take p ++ e :: es

variable {term} {l : List α}

theorem any_term_iff {p : Nat} {e : α} :
    (l[p]?.any fun own => decide (term own = term e)) = true ↔
      ∃ own, l[p]? = some own ∧ term own = term e := by
  cases l[p]? with
  | none => simp
  | some own => simp

theorem mergeAt_kept {p : Nat} {e own : α} (h : l[p]? = some own) (hterm : term own = term e)
    (es : List α) : mergeAt term l p (e :: es) = mergeAt term l (p + 1) es :=
  if_pos (any_term_iff.mpr ⟨own, h, hterm⟩)

theorem mergeAt_replaced {p : Nat} {e : α} (h : ∀ own, l[p]? = some own → term own ≠ term e)
    (es : List α) : mergeAt term l p (e :: es) = l.take p ++ e :: es := by
  refine if_neg fun hany => ?_
  obtain ⟨own, hown, hterm⟩ := any_term_iff.mp hany
  exact h own hown hterm

/-- Nothing is there yet. -/
theorem mergeAt_length (l es : List α) : mergeAt term l l.length es = l ++ es := by
  cases es with
  | nil => exact (List.append_nil l).symm
  | cons e es =>
    rw [mergeAt_replaced (fun own h => ?_), List.take_length]
    rw [List.getElem?_eq_none (Nat.le_refl _)] at h
    cases h

/-- **Merging a piece of a matching log**: it is there already, and nothing changes, or the
    matching log is what there is up to the end of the piece. -/
theorem mergeAt_of_match {l' : List α} (h : LogMatch term l l') {p : Nat}
    (hp : l.take p = l'.take p) {es : List α} (hes : es <+: l'.drop p) :
    l.take (p + es.length) = l'.take (p + es.length) ∧ mergeAt term l p es = l ∨
      l.take (p + es.length) ≠ l'.take (p + es.length) ∧
        mergeAt term l p es = l'.take (p + es.length) := by
  induction es generalizing p with
  | nil => exact .inl ⟨hp, rfl⟩
  | cons e es ih =>
    obtain ⟨rest, hrest⟩ := hes
    have he : l'[p]? = some e := by
      rw [← Nat.add_zero p, ← List.getElem?_drop, ← hrest]
      rfl
    by_cases hown : ∃ own, l[p]? = some own ∧ term own = term e
    · obtain ⟨own, hown, hterm⟩ := hown
      have hrest' : es <+: l'.drop (p + 1) := by
        refine ⟨rest, ?_⟩
        rw [← List.drop_drop, ← hrest]
        rfl
      rw [mergeAt_kept hown hterm, List.length_cons, ← Nat.add_assoc, Nat.add_right_comm]
      exact ih (h p own e hown he hterm) hrest'
    · refine .inr ⟨fun heq => ?_, ?_⟩
      · have hget := getElem?_of_take heq (show p < p + (e :: es).length by simp)
        exact hown ⟨e, hget.trans he, rfl⟩
      · rw [mergeAt_replaced fun own h hterm => hown ⟨own, h, hterm⟩, hp, List.take_add,
          ← hrest, List.take_left]

/-- **When the front of a log survives**: no entry written there has another term than the one
    it meets. -/
theorem take_mergeAt_iff {p c : Nat} (hp : p ≤ l.length) (hc : c ≤ l.length) (es : List α) :
    (mergeAt term l p es).take c = l.take c ↔
      ∀ j e own, es[j]? = some e → l[p + j]? = some own → p + j < c → term own = term e := by
  induction es generalizing p with
  | nil => exact iff_of_true rfl fun j e own he => by cases he
  | cons e es ih =>
    by_cases hkept : ∃ own, l[p]? = some own ∧ term own = term e
    · obtain ⟨own, hown, hterm⟩ := hkept
      have hlt : p + 1 ≤ l.length := (List.getElem?_eq_some_iff.mp hown).1
      rw [mergeAt_kept hown hterm, ih hlt]
      constructor
      · intro hall j e' own' he' hown' hj
        cases j with
        | zero =>
          obtain rfl : e = e' := Option.some.inj he'
          obtain rfl : own = own' := Option.some.inj (hown.symm.trans hown')
          exact hterm
        | succ j =>
          rw [Nat.add_comm j 1, ← Nat.add_assoc] at hown' hj
          exact hall j e' own' he' hown' hj
      · intro hall j e' own' he' hown' hj
        rw [Nat.add_assoc, Nat.add_comm 1 j] at hown' hj
        exact hall (j + 1) e' own' he' hown' hj
    · rw [mergeAt_replaced fun own h hterm => hkept ⟨own, h, hterm⟩]
      by_cases hcp : c ≤ p
      · refine iff_of_true ?_ fun j e' own' _ _ hj => absurd hj (by omega)
        rw [List.take_append_of_le_length (by rwa [List.length_take_of_le hp]), List.take_take,
          Nat.min_eq_left hcp]
      · -- the entry at `p` is replaced
        have hlt : p < l.length := by omega
        have hown : l[p]? = some l[p] := List.getElem?_eq_getElem hlt
        refine iff_of_false (fun heq => ?_) fun hall => ?_
        · have hget := getElem?_of_take heq (Nat.lt_of_not_le hcp)
          rw [List.getElem?_append_right (List.length_take_le p l), List.length_take_of_le hp,
            Nat.sub_self, hown] at hget
          exact hkept ⟨l[p], hown, congrArg term (Option.some.inj hget).symm⟩
        · exact hkept ⟨l[p], hown, hall 0 e l[p] rfl hown (Nat.lt_of_not_le hcp)⟩

end Lib
