/-
  Scanning a sorted list around a position, and the first occurrences met.

  A position in a sorted list is given by a predicate that holds of an initial part
  (`Initial`); the scan from there around the list is `around`. Filtering commutes with both:
  what is left after filtering is met in the same order. Of a sorted list, first occurrences are
  met in the order of their first elements (`eraseDups_map_pairwise`).
-/
import Mathlib.Data.List.Rotate
import Mathlib.Data.List.Nodup
import Mathlib.Data.List.TakeWhile

namespace Lib

variable {α : Type}

/-! ## First occurrences -/

section Firsts

variable [DecidableEq α]

theorem nodup_eraseDups (l : List α) : l.eraseDups.Nodup := by
  induction hn : l.length using Nat.strong_induction_on generalizing l with
  | _ n ih =>
    cases l with
    | nil => exact List.nodup_nil
    | cons a l =>
      rw [List.eraseDups_cons, List.nodup_cons, List.mem_eraseDups, List.mem_filter]
      refine ⟨fun h => by simpa using h.2, ?_⟩
      refine ih _ ?_ _ rfl
      rw [← hn, List.length_cons]
      exact Nat.lt_succ_of_le (List.length_filter_le _ l)

/-- What is left is first met in the same order. -/
theorem eraseDups_filter (p : α → Bool) (l : List α) :
    (l.filter p).eraseDups = l.eraseDups.filter p := by
  induction hn : l.length using Nat.strong_induction_on generalizing l with
  | _ n ih =>
    cases l with
    | nil => rfl
    | cons a l =>
      have hlen : (l.filter fun b => !b == a).length < n := by
        rw [← hn, List.length_cons]
        exact Nat.lt_succ_of_le (List.length_filter_le _ l)
      have hrest := ih _ hlen (l.filter fun b => !b == a) rfl
      rw [List.filter_filter] at hrest
      by_cases ha : p a
      · rw [List.filter_cons_of_pos ha, List.eraseDups_cons, List.eraseDups_cons,
          List.filter_cons_of_pos ha, List.filter_filter, ← hrest]
        simp only [Bool.and_comm]
      · rw [List.filter_cons_of_neg ha, List.eraseDups_cons, List.filter_cons_of_neg ha, ← hrest]
        refine congrArg List.eraseDups (List.filter_congr fun b _ => ?_)
        by_cases hb : b = a
        · subst hb
          simp [ha]
        · simp [hb]

/-- First occurrences are met in the order of the list: each comes from an element that stands
    before all those of every later one. -/
theorem eraseDups_map_pairwise {β : Type} (f : β → α) {R : β → β → Prop} {l : List β}
    (h : l.Pairwise R) :
    (l.map f).eraseDups.Pairwise fun a b => ∃ x ∈ l, f x = a ∧ ∀ y ∈ l, f y = b → R x y := by
  induction hn : l.length using Nat.strong_induction_on generalizing l with
  | _ n ih =>
    cases l with
    | nil => exact List.Pairwise.nil
    | cons x l =>
      obtain ⟨hx, hl⟩ := List.pairwise_cons.mp h
      have hrest : (l.map f).filter (fun b => !b == f x) =
          (l.filter fun y => !f y == f x).map f := by
        rw [List.filter_map]
        rfl
      have hlen : (l.filter fun y => !f y == f x).length < n := by
        rw [← hn, List.length_cons]
        exact Nat.lt_succ_of_le (List.length_filter_le _ l)
      have ih := ih _ hlen (hl.sublist List.filter_sublist) rfl
      rw [List.map_cons, List.eraseDups_cons, hrest, List.pairwise_cons]
      have hne : ∀ b ∈ ((l.filter fun y => !f y == f x).map f).eraseDups, b ≠ f x := by
        intro b hb
        rw [List.mem_eraseDups] at hb
        obtain ⟨y, hy, rfl⟩ := List.mem_map.mp hb
        simpa using (List.mem_filter.mp hy).2
      constructor
      · intro b hb
        refine ⟨x, List.mem_cons_self, rfl, fun y hy hyb => ?_⟩
        rcases List.mem_cons.mp hy with rfl | hy
        · exact absurd hyb.symm (hne b hb)
        · exact hx y hy
      · refine ih.imp_of_mem fun {a b} _ hb ⟨y, hy, hya, hall⟩ => ?_
        refine ⟨y, List.mem_cons_of_mem x (List.mem_filter.mp hy).1, hya, fun z hz hzb => ?_⟩
        rcases List.mem_cons.mp hz with rfl | hz
        · exact absurd hzb.symm (hne b hb)
        · exact hall z (List.mem_filter.mpr ⟨hz, by simpa [hzb] using hne b hb⟩) hzb

end Firsts

/-! ## Positions in a sorted list -/

/-- `p` holds of an initial part of `l`. -/
def Initial (p : α → Bool) (l : List α) : Prop := l.Pairwise fun a b => p b → p a

theorem Initial.filter {p : α → Bool} {l : List α} (h : Initial p l) (q : α → Bool) :
    Initial p (l.filter q) :=
  h.sublist List.filter_sublist

theorem Initial.takeWhile_eq {p : α → Bool} {l : List α} (h : Initial p l) :
    l.takeWhile p = l.filter p := by
  induction l with
  | nil => rfl
  | cons a l ih =>
    obtain ⟨ha, hl⟩ := List.pairwise_cons.mp h
    by_cases hp : p a
    · rw [List.takeWhile_cons_of_pos hp, List.filter_cons_of_pos hp, ih hl]
    · rw [List.takeWhile_cons_of_neg hp, List.filter_cons_of_neg hp]
      symm
      rw [List.filter_eq_nil_iff]
      exact fun b hb hpb => hp (ha b hb hpb)

theorem Initial.dropWhile_eq {p : α → Bool} {l : List α} (h : Initial p l) :
    l.dropWhile p = l.filter fun a => !p a := by
  induction l with
  | nil => rfl
  | cons a l ih =>
    obtain ⟨ha, hl⟩ := List.pairwise_cons.mp h
    by_cases hp : p a
    · rw [List.dropWhile_cons_of_pos hp, List.filter_cons_of_neg (by simp [hp]), ih hl]
    · rw [List.dropWhile_cons_of_neg hp, List.filter_cons_of_pos (by simp [hp])]
      congr 1
      symm
      rw [List.filter_eq_self]
      intro b hb
      simpa using fun hpb => hp (ha b hb hpb)

/-- The list from the first element on that is not in the initial part, and around. -/
def around (p : α → Bool) (l : List α) : List α := l.rotate (l.takeWhile p).length

theorem around_eq (p : α → Bool) (l : List α) : around p l = l.dropWhile p ++ l.takeWhile p := by
  have hrotate := List.rotate_append_length_eq (l.takeWhile p) (l.dropWhile p)
  rwa [List.takeWhile_append_dropWhile] at hrotate

theorem around_perm (p : α → Bool) (l : List α) : (around p l).Perm l :=
  List.rotate_perm l _

/-- Around a sorted list, what is not in the initial part comes first, and each part is sorted. -/
theorem pairwise_around {p : α → Bool} {l : List α} {R : α → α → Prop} (h : l.Pairwise R)
    (hp : Initial p l) :
    (around p l).Pairwise fun a b => (p a = p b ∧ R a b) ∨ (p a = false ∧ p b = true) := by
  rw [around_eq, hp.dropWhile_eq, hp.takeWhile_eq, List.pairwise_append]
  refine ⟨?_, ?_, fun a ha b hb => ?_⟩
  · refine (h.sublist List.filter_sublist).imp_of_mem fun {a b} ha hb hab => .inl ⟨?_, hab⟩
    have hpa : p a = false := by simpa using (List.mem_filter.mp ha).2
    have hpb : p b = false := by simpa using (List.mem_filter.mp hb).2
    rw [hpa, hpb]
  · refine (h.sublist List.filter_sublist).imp_of_mem fun {a b} ha hb hab => .inl ⟨?_, hab⟩
    rw [(List.mem_filter.mp ha).2, (List.mem_filter.mp hb).2]
  · exact .inr ⟨by simpa using (List.mem_filter.mp ha).2, (List.mem_filter.mp hb).2⟩

/-- What is left is met in the same order. -/
theorem Initial.around_filter {p : α → Bool} {l : List α} (h : Initial p l) (q : α → Bool) :
    around p (l.filter q) = (around p l).filter q := by
  rw [around_eq, around_eq, (h.filter q).dropWhile_eq, (h.filter q).takeWhile_eq, h.dropWhile_eq,
    h.takeWhile_eq, List.filter_append]
  simp only [List.filter_filter, Bool.and_comm]

end Lib
