/-
  What hash trees are made of: runs of a list (`chunks`), a list reduced by pairing neighbours
  up (`reduceUp`), and digests of a fixed length (`Digest`).

  `reduceUp_map`: a map that respects the pairing respects the whole reduction, so that the root
  of a tree says of its leaves what each parent says of its two children. `reduceUp_append` is
  the case of lists that are joined.

  Digests have one length and no separator in them, so that joined digests come apart again
  (`Digest.join_inj`). That a hash has no collisions is only ever asked for a set of texts.
-/
import Mathlib.Data.List.Basic
import Mathlib.Data.String.Basic

namespace Lib

/-! ## Runs of a list -/

/-- The list cut into runs of `size`; the last may be shorter. -/
def chunks {α : Type} (size : Nat) (l : List α) : List (List α) :=
  if h : size = 0 ∨ l = [] then []
  else
    have : (l.drop size).length < l.length := by
      have := List.length_pos_iff.mpr (not_or.mp h).2
      rw [List.length_drop]
      omega
    l.take size :: chunks size (l.drop size)
termination_by l.length

theorem chunks_nil {α : Type} (size : Nat) : chunks size ([] : List α) = [] := by
  rw [chunks, dif_pos (.inr rfl)]

theorem chunks_of_ne_nil {α : Type} {size : Nat} (hs : 0 < size) {l : List α} (hl : l ≠ []) :
    chunks size l = l.take size :: chunks size (l.drop size) := by
  rw [chunks, dif_neg (not_or.mpr ⟨by omega, hl⟩)]

/-- The lists are runs of `l`, of `size` items each; only the last may be shorter. -/
structure IsRuns {α : Type} (size : Nat) (l : List α) (runs : List (List α)) : Prop where
  flatten : runs.flatten = l
  full : ∀ run ∈ runs.dropLast, run.length = size
  bounds : ∀ run ∈ runs, run ≠ [] ∧ run.length ≤ size

theorem isRuns_nil {α : Type} (size : Nat) : IsRuns size ([] : List α) [] :=
  ⟨rfl, fun _ h => absurd h List.not_mem_nil, fun _ h => absurd h List.not_mem_nil⟩

/-- A run in front must be full, unless it is the only one. -/
theorem IsRuns.cons {α : Type} {size : Nat} {l run : List α} {runs : List (List α)}
    (h : IsRuns size l runs) (hne : run ≠ []) (hle : run.length ≤ size)
    (hfull : runs ≠ [] → run.length = size) : IsRuns size (run ++ l) (run :: runs) where
  flatten := by rw [List.flatten_cons, h.flatten]
  full := by
    by_cases hruns : runs = []
    · rw [hruns]
      exact fun _ h => absurd h List.not_mem_nil
    · rw [List.dropLast_cons_of_ne_nil hruns]
      intro run' hrun'
      rcases List.mem_cons.mp hrun' with rfl | hrun'
      · exact hfull hruns
      · exact h.full run' hrun'
  bounds := by
    intro run' hrun'
    rcases List.mem_cons.mp hrun' with rfl | hrun'
    · exact ⟨hne, hle⟩
    · exact h.bounds run' hrun'

theorem isRuns_chunks {α : Type} {size : Nat} (hs : 0 < size) (l : List α) :
    IsRuns size l (chunks size l) := by
  induction hn : l.length using Nat.strong_induction_on generalizing l with
  | _ n ih =>
    by_cases hl : l = []
    · rw [hl, chunks_nil]
      exact isRuns_nil size
    · have hpos := List.length_pos_iff.mpr hl
      have ih := ih (l.drop size).length (by rw [List.length_drop]; omega) (l.drop size) rfl
      have hne : l.take size ≠ [] := by
        rw [ne_eq, List.take_eq_nil_iff, not_or]
        exact ⟨by omega, hl⟩
      have hfull : chunks size (l.drop size) ≠ [] → (l.take size).length = size := by
        intro hruns
        have hrest : l.drop size ≠ [] := by
          intro hnil
          rw [hnil, chunks_nil] at hruns
          exact hruns rfl
        have hmore := List.length_pos_iff.mpr hrest
        rw [List.length_drop] at hmore
        rw [List.length_take]
        omega
      have hcons := ih.cons hne (List.length_take_le size l) hfull
      rwa [List.take_append_drop, ← chunks_of_ne_nil hs hl] at hcons

theorem flatten_chunks {α : Type} {size : Nat} (hs : 0 < size) (l : List α) :
    (chunks size l).flatten = l := (isRuns_chunks hs l).flatten

theorem ne_nil_of_mem_chunks {α : Type} {size : Nat} (hs : 0 < size) {l c : List α}
    (hc : c ∈ chunks size l) : c ≠ [] := ((isRuns_chunks hs l).bounds c hc).1

/-- A map of the items is a map of the runs. -/
theorem chunks_map {α β : Type} {size : Nat} (f : α → β) (l : List α) :
    chunks size (l.map f) = (chunks size l).map (List.map f) := by
  by_cases hs : size = 0
  · rw [chunks, dif_pos (.inl hs), chunks, dif_pos (.inl hs)]
    rfl
  · have hs : 0 < size := Nat.pos_of_ne_zero hs
    induction hn : l.length using Nat.strong_induction_on generalizing l with
    | _ n ih =>
      by_cases hl : l = []
      · rw [hl, List.map_nil, chunks_nil, chunks_nil]
        rfl
      · have hpos := List.length_pos_iff.mpr hl
        have ih := ih (l.drop size).length (by rw [List.length_drop]; omega) (l.drop size) rfl
        rw [chunks_of_ne_nil hs hl, chunks_of_ne_nil hs (by simpa using hl), ← List.map_take,
          ← List.map_drop, ih, List.map_cons]

/-! ## Pairing up -/

section PairUp

variable {α β : Type} (f : α → α → α)

/-- One level up: neighbours are paired, an odd last one stays. -/
def pairUp : List α → List α
  | a :: b :: l => f a b :: pairUp l
  | l => l

variable {f} in
theorem length_pairUp_le (l : List α) : (pairUp f l).length ≤ l.length := by
  induction l using pairUp.induct with
  | case1 a b l ih =>
    rw [pairUp]
    simp only [List.length_cons]
    omega
  | case2 l h => rw [pairUp.eq_2 f l h]

variable {f} in
theorem length_pairUp_lt (a b : α) (l : List α) :
    (pairUp f (a :: b :: l)).length < (a :: b :: l).length :=
  Nat.succ_lt_succ (Nat.lt_succ_of_le (length_pairUp_le l))

/-- The list paired up until one is left. -/
def reduceUp : List α → Option α
  | [] => none
  | [a] => some a
  | a :: b :: l => reduceUp (pairUp f (a :: b :: l))
termination_by l => l.length
decreasing_by exact length_pairUp_lt a b l

variable {f}

@[simp] theorem reduceUp_nil : reduceUp f [] = none := by
  rw [reduceUp]

@[simp] theorem reduceUp_singleton (a : α) : reduceUp f [a] = some a := by
  rw [reduceUp]

theorem reduceUp_cons (a b : α) (l : List α) :
    reduceUp f (a :: b :: l) = reduceUp f (pairUp f (a :: b :: l)) := by
  rw [reduceUp]

/-- What two neighbours pass on, one level passes on. -/
theorem pairUp_map {g : β → β → β} {h : α → β} (hh : ∀ a b, h (f a b) = g (h a) (h b))
    (l : List α) : (pairUp f l).map h = pairUp g (l.map h) := by
  induction l using pairUp.induct with
  | case1 a b l ih => simp only [pairUp, List.map_cons, hh, ih]
  | case2 l hl =>
    cases l with
    | nil => rfl
    | cons a l =>
      cases l with
      | nil => rfl
      | cons b l => exact absurd rfl (hl a b l)

/-- And so does the whole reduction. -/
theorem reduceUp_map {g : β → β → β} {h : α → β} (hh : ∀ a b, h (f a b) = g (h a) (h b))
    (l : List α) : (reduceUp f l).map h = reduceUp g (l.map h) := by
  induction l using reduceUp.induct (f := f) with
  | case1 => simp
  | case2 a => simp
  | case3 a b l ih =>
    rw [reduceUp_cons, ih, pairUp_map hh, List.map_cons, List.map_cons, reduceUp_cons]

/-- What holds of all and is passed on holds of the result. -/
theorem reduceUp_forall {P : α → Prop} (hf : ∀ a b, P a → P b → P (f a b)) {l : List α}
    (hl : ∀ a ∈ l, P a) {r : α} (hr : reduceUp f l = some r) : P r := by
  have hpair : ∀ l : List α, (∀ a ∈ l, P a) → ∀ a ∈ pairUp f l, P a := by
    intro l
    induction l using pairUp.induct with
    | case1 a b l ih =>
      intro hl c hc
      rw [pairUp, List.mem_cons] at hc
      rcases hc with rfl | hc
      · exact hf a b (hl a (by simp)) (hl b (by simp))
      · exact ih (fun d hd => hl d (by simp [hd])) c hc
    | case2 l h =>
      rw [pairUp.eq_2 f l h]
      exact id
  induction l using reduceUp.induct (f := f) with
  | case1 => simp at hr
  | case2 a =>
    rw [reduceUp_singleton, Option.some.injEq] at hr
    exact hr ▸ hl a List.mem_cons_self
  | case3 a b l ih =>
    rw [reduceUp_cons] at hr
    exact ih (hpair _ hl) hr

theorem flatten_pairUp (ls : List (List α)) :
    (pairUp (· ++ ·) ls).flatten = ls.flatten := by
  induction ls using pairUp.induct with
  | case1 a b l ih => simp [pairUp, ih]
  | case2 l h => rw [pairUp.eq_2 _ l h]

/-- Lists that are joined level by level are joined. -/
theorem reduceUp_append {ls : List (List α)} (h : ls ≠ []) :
    reduceUp (· ++ ·) ls = some ls.flatten := by
  induction ls using reduceUp.induct (f := fun a b : List α => a ++ b) with
  | case1 => exact absurd rfl h
  | case2 a => simp
  | case3 a b l ih =>
    rw [reduceUp_cons, ih (by simp [pairUp]), flatten_pairUp]

/-- Something is left of a list that is not empty. -/
theorem reduceUp_isSome {l : List α} (h : l ≠ []) : ∃ r, reduceUp f l = some r := by
  induction l using reduceUp.induct (f := f) with
  | case1 => exact absurd rfl h
  | case2 a => exact ⟨a, reduceUp_singleton a⟩
  | case3 a b l ih =>
    obtain ⟨r, hr⟩ := ih (by simp [pairUp])
    exact ⟨r, by rw [reduceUp_cons, hr]⟩

end PairUp

/-! ## Digests -/

/-- A text of `width` characters, none of them `sep`. -/
structure IsDigest (width : Nat) (sep : Char) (s : String) : Prop where
  length : s.length = width
  no_sep : sep ∉ s.toList

/-- No two of the texts have the same hash. -/
def CollisionFree (hash : String → String) (texts : List String) : Prop :=
  ∀ s ∈ texts, ∀ t ∈ texts, hash s = hash t → s = t

instance (hash : String → String) (texts : List String) : Decidable (CollisionFree hash texts) :=
  inferInstanceAs (Decidable (∀ s ∈ texts, ∀ t ∈ texts, hash s = hash t → s = t))

theorem CollisionFree.mono {hash : String → String} {texts texts' : List String}
    (h : CollisionFree hash texts) (hsub : ∀ s ∈ texts', s ∈ texts) :
    CollisionFree hash texts' :=
  fun s hs t ht => h s (hsub s hs) t (hsub t ht)

theorem CollisionFree.swap {hash : String → String} {ss ts : List String}
    (h : CollisionFree hash (ss ++ ts)) : CollisionFree hash (ts ++ ss) :=
  h.mono fun _ hu => List.mem_append.mpr (List.mem_append.mp hu).symm

/-- Lists of such texts are told apart by their hashes. -/
theorem CollisionFree.map_inj {hash : String → String} {ss ts : List String}
    (h : CollisionFree hash (ss ++ ts)) (heq : ss.map hash = ts.map hash) : ss = ts := by
  induction ss generalizing ts with
  | nil => exact (List.map_eq_nil_iff.mp heq.symm).symm
  | cons s ss ih =>
    cases ts with
    | nil => cases heq
    | cons t ts =>
      rw [List.map_cons, List.map_cons, List.cons.injEq] at heq
      have hhead : s = t := h s (by simp) t (by simp) heq.1
      have htail : ss = ts := ih (h.mono fun u hu => by
        rcases List.mem_append.mp hu with hu | hu <;> simp [hu]) heq.2
      rw [hhead, htail]

namespace IsDigest

variable {width : Nat} {sep : Char}

/-- Two digests that are joined come apart again. -/
theorem append_inj {a b c d : String} (ha : IsDigest width sep a) (hc : IsDigest width sep c)
    (heq : a ++ b = c ++ d) : a = c ∧ b = d := by
  have hlist := congrArg String.toList heq
  rw [String.toList_append, String.toList_append] at hlist
  have hlen : a.toList.length = c.toList.length := by
    rw [String.length_toList, String.length_toList, ha.length, hc.length]
  obtain ⟨hl, hr⟩ := List.append_inj hlist hlen
  exact ⟨String.toList_inj.mp hl, String.toList_inj.mp hr⟩

theorem map_length {as : List String} (has : ∀ s ∈ as, IsDigest width sep s) :
    (as.map String.toList).map List.length = List.replicate as.length width := by
  rw [List.map_map]
  refine List.eq_replicate_iff.mpr ⟨List.length_map _, fun n hn => ?_⟩
  obtain ⟨s, hs, rfl⟩ := List.mem_map.mp hn
  exact String.length_toList.trans (has s hs).length

/-- And so does a list of them. -/
theorem join_inj (hw : 0 < width) {as bs : List String} (has : ∀ s ∈ as, IsDigest width sep s)
    (hbs : ∀ s ∈ bs, IsDigest width sep s) (heq : String.join as = String.join bs) : as = bs := by
  have hflat : (as.map String.toList).flatten = (bs.map String.toList).flatten := by
    have hlist := congrArg String.toList heq
    rwa [String.toList_join, String.toList_join, List.flatMap_def, List.flatMap_def] at hlist
  have hcount : as.length = bs.length := by
    have hlen := congrArg List.length hflat
    rw [List.length_flatten, List.length_flatten, map_length has, map_length hbs,
      List.sum_replicate_nat, List.sum_replicate_nat] at hlen
    exact Nat.eq_of_mul_eq_mul_right hw hlen
  have hlists := List.eq_iff_flatten_eq.mpr
    ⟨hflat, by rw [map_length has, map_length hbs, hcount]⟩
  exact List.map_injective_iff.mpr (fun s t h => String.toList_inj.mp h) hlists

theorem no_sep_append {a b : String} (ha : IsDigest width sep a) (hb : IsDigest width sep b) :
    sep ∉ (a ++ b).toList := by
  rw [String.toList_append, List.mem_append, not_or]
  exact ⟨ha.no_sep, hb.no_sep⟩

theorem no_sep_join {as : List String} (has : ∀ s ∈ as, IsDigest width sep s) :
    sep ∉ (String.join as).toList := by
  rw [String.toList_join, List.mem_flatMap]
  rintro ⟨s, hs, hsep⟩
  exact (has s hs).no_sep hsep

end IsDigest

end Lib
