/-
  A register that takes a value when it is greater in either of two ranks.

  Such a rule follows no order: a value may win by the second rank and lose by the first, and
  what is kept then depends on the order of the offers. `agree_iff` says exactly when it does
  not: all orders in which a list of values may be offered, with repetitions, end with the same
  value, and the first rank never falls, if and only if the offers are `Consistent`.
-/
import Mathlib.Order.Lattice
import Mathlib.Data.List.Nodup

namespace Lib.EitherNewer

variable {α κ ι : Type} [LinearOrder κ] [LinearOrder ι] (p : α → κ) (q : α → ι)

/-- `x` is greater than `y` in one of the ranks. -/
def Newer (x y : α) : Prop := p y < p x ∨ q y < q x

instance (x y : α) : Decidable (Newer p q x y) := inferInstanceAs (Decidable (_ ∨ _))

def offer (current : Option α) (x : α) : Option α :=
  match current with
  | none => some x
  | some m => if Newer p q x m then some x else some m

def offerAll (current : Option α) (xs : List α) : Option α := xs.foldl (offer p q) current

/-- The list offers exactly the values of `S`. -/
def Covers (S xs : List α) : Prop := ∀ x, x ∈ xs ↔ x ∈ S

/-- All ways to offer the values of `S` end with the same value. -/
def Converges (current : Option α) (S : List α) : Prop :=
  ∀ xs ys, Covers S xs → Covers S ys → offerAll p q current xs = offerAll p q current ys

/-- While the values of `S` are offered, the first rank never falls. -/
def Rises (current : Option α) (S : List α) : Prop :=
  ∀ xs ys zs, Covers S (xs ++ ys ++ zs) → ∀ m, offerAll p q current xs = some m →
    ∃ m', offerAll p q current (xs ++ ys) = some m' ∧ p m ≤ p m'

/-- `x` is one of the values and replaces what was there first. -/
def Accepted (current : Option α) (S : List α) (x : α) : Prop :=
  x ∈ S ∧ ∀ e, current = some e → Newer p q x e

def Held (current : Option α) (S : List α) (m : α) : Prop :=
  current = some m ∨ Accepted p q current S m

/-- No offer trades the first rank of what is held for the second one, and of the accepted
    values only one has none newer than it. -/
structure Consistent (current : Option α) (S : List α) : Prop where
  no_trade : ∀ m, Held p q current S m → ∀ c ∈ S, p c < p m → q c ≤ q m
  one_newest : ∀ x y, Accepted p q current S x → Accepted p q current S y →
    (∀ c ∈ S, ¬ Newer p q c x) → (∀ c ∈ S, ¬ Newer p q c y) → x = y

variable {p q}

theorem offer_newer {m x : α} (h : Newer p q x m) : offer p q (some m) x = some x := if_pos h

theorem offer_not_newer {m x : α} (h : ¬ Newer p q x m) : offer p q (some m) x = some m :=
  if_neg h

theorem offerAll_append (current : Option α) (xs ys : List α) :
    offerAll p q current (xs ++ ys) = offerAll p q (offerAll p q current xs) ys :=
  List.foldl_append

/-- What no offer is newer than stays. -/
theorem offerAll_stays {m : α} {xs : List α} (h : ∀ c ∈ xs, ¬ Newer p q c m) :
    offerAll p q (some m) xs = some m := by
  induction xs with
  | nil => rfl
  | cons x xs ih =>
    have hx := offer_not_newer (h x List.mem_cons_self)
    have ih := ih fun c hc => h c (List.mem_cons_of_mem x hc)
    rw [offerAll, List.foldl_cons, hx]
    exact ih

/-- Where all first ranks are equal, the result is the greatest by the second rank of what is
    held and offered. -/
theorem offerAll_flat {c : κ} {m : α} {xs : List α} (hm : p m = c) (hxs : ∀ x ∈ xs, p x = c) :
    ∃ m', offerAll p q (some m) xs = some m' ∧ (m' = m ∨ m' ∈ xs) ∧ q m ≤ q m' ∧
      ∀ x ∈ xs, q x ≤ q m' := by
  induction xs generalizing m with
  | nil => exact ⟨m, rfl, .inl rfl, le_rfl, fun x hx => by cases hx⟩
  | cons x xs ih =>
    have hx := hxs x List.mem_cons_self
    have hrest := fun y hy => hxs y (List.mem_cons_of_mem x hy)
    by_cases hnew : Newer p q x m
    · have hrank : ¬ p m < p x := by
        rw [hm, hx]
        exact lt_irrefl c
      have hlt : q m < q x := hnew.resolve_left hrank
      obtain ⟨m', hall, hmem, hle, hmax⟩ := ih hx hrest
      refine ⟨m', ?_, .inr ?_, hlt.le.trans hle, ?_⟩
      · rw [offerAll, List.foldl_cons, offer_newer hnew]
        exact hall
      · rcases hmem with rfl | hmem
        · exact List.mem_cons_self
        · exact List.mem_cons_of_mem x hmem
      · exact List.forall_mem_cons.mpr ⟨hle, hmax⟩
    · have hxm : q x ≤ q m := not_lt.mp fun hlt => hnew (.inr hlt)
      obtain ⟨m', hall, hmem, hle, hmax⟩ := ih hm hrest
      refine ⟨m', ?_, hmem.imp_right (List.mem_cons_of_mem x), hle, ?_⟩
      · rw [offerAll, List.foldl_cons, offer_not_newer hnew]
        exact hall
      · exact List.forall_mem_cons.mpr ⟨hxm.trans hle, hmax⟩

/-- The first offer is taken when nothing is held. -/
theorem offerAll_none (x : α) (xs : List α) :
    offerAll p q none (x :: xs) = offerAll p q (some x) xs := rfl

theorem offer_accepted {current : Option α} {S : List α} {x : α}
    (h : Accepted p q current S x) : offer p q current x = some x := by
  cases current with
  | none => rfl
  | some e => exact offer_newer (h.2 e rfl)

/-! ## Consistent offers -/

/-- Values whose ranks rise together, and tell them apart, are consistent. -/
theorem Consistent.of_chain {current : Option α} {S : List α}
    (hchain : ∀ m ∈ current.toList ++ S, ∀ c ∈ S, p c < p m → q c ≤ q m)
    (hnodup : (S.map fun x => (p x, q x)).Nodup) : Consistent p q current S := by
  refine ⟨fun m hm c hc => hchain m ?_ c hc, fun x y hx hy hnewX hnewY => ?_⟩
  · rw [List.mem_append, Option.mem_toList]
    exact hm.imp_right fun hacc => hacc.1
  · have hle : p y ≤ p x ∧ q y ≤ q x := by
      simpa only [Newer, not_or, not_lt] using hnewX y hy.1
    have hge : p x ≤ p y ∧ q x ≤ q y := by
      simpa only [Newer, not_or, not_lt] using hnewY x hx.1
    refine List.inj_on_of_nodup_map hnodup hx.1 hy.1 ?_
    exact Prod.ext (le_antisymm hge.1 hle.1) (le_antisymm hge.2 hle.2)

/-- Among consistent offers a newer value is not below in the first rank. -/
theorem Consistent.le_of_newer {current : Option α} {S : List α} (h : Consistent p q current S)
    {m x : α} (hm : Held p q current S m) (hx : x ∈ S) (hnew : Newer p q x m) : p m ≤ p x := by
  by_contra hlt
  have hlt := not_le.mp hlt
  rcases hnew with hp | hq
  · exact absurd hlt (lt_asymm hp)
  · exact absurd (h.no_trade m hm x hx hlt) (not_le.mpr hq)

/-- A newer value than the one held is accepted itself. -/
theorem Consistent.accepted {current : Option α} {S : List α} (h : Consistent p q current S)
    {m x : α} (hm : Held p q current S m) (hx : x ∈ S) (hnew : Newer p q x m) :
    Accepted p q current S x := by
  refine ⟨hx, fun e he => ?_⟩
  have hmx := h.le_of_newer hm hx hnew
  rcases hm with hcur | hacc
  · rw [Option.some.inj (he.symm.trans hcur)]
    exact hnew
  · have hme := hacc.2 e he
    have hem := h.le_of_newer (.inl he) hacc.1 hme
    rcases lt_or_eq_of_le (le_trans hem hmx) with hlt | heq
    · exact .inl hlt
    · -- the first ranks agree, so that both steps were by the second
      have hq₁ : q m < q x := hnew.resolve_left (not_lt.mpr (heq ▸ hem))
      have hq₂ : q e < q m := hme.resolve_left (not_lt.mpr (heq ▸ hmx))
      exact .inr (lt_trans hq₂ hq₁)

/-- What the held value was not older than, the newer one is not older than either. -/
theorem Consistent.not_newer {current : Option α} {S : List α} (h : Consistent p q current S)
    {m x c : α} (hm : Held p q current S m) (hx : x ∈ S) (hnew : Newer p q x m) (hc : c ∈ S)
    (hcm : ¬ Newer p q c m) : ¬ Newer p q c x := by
  have hmx := h.le_of_newer hm hx hnew
  have hheld : Held p q current S x := .inr (h.accepted hm hx hnew)
  rw [Newer, not_or, not_lt, not_lt] at hcm ⊢
  refine ⟨le_trans hcm.1 hmx, ?_⟩
  rcases lt_or_eq_of_le hmx with hlt | heq
  · exact h.no_trade x hheld c hc (lt_of_le_of_lt hcm.1 hlt)
  · exact le_trans hcm.2 (le_of_lt (hnew.resolve_left (not_lt.mpr (le_of_eq heq.symm))))

/-- **After any offers** of consistent values something is held that none of them is newer than,
    and the first rank has not fallen. -/
theorem Consistent.offerAll {current : Option α} {S : List α} (h : Consistent p q current S)
    {m : α} (hm : Held p q current S m) {xs : List α} (hxs : ∀ x ∈ xs, x ∈ S) :
    ∃ m', offerAll p q (some m) xs = some m' ∧ Held p q current S m' ∧ p m ≤ p m' ∧
      (∀ c ∈ xs, ¬ Newer p q c m') ∧ ∀ c ∈ S, ¬ Newer p q c m → ¬ Newer p q c m' := by
  induction xs generalizing m with
  | nil => exact ⟨m, rfl, hm, le_refl _, by simp, fun c _ hc => hc⟩
  | cons x xs ih =>
    have hx := hxs x List.mem_cons_self
    have hxs := fun y hy => hxs y (List.mem_cons_of_mem x hy)
    by_cases hnew : Newer p q x m
    · obtain ⟨m', hend, hheld, hle, hlast, hkeep⟩ := ih (.inr (h.accepted hm hx hnew)) hxs
      have hself : ¬ Newer p q x x := fun hxx => hxx.elim (lt_irrefl _) (lt_irrefl _)
      refine ⟨m', ?_, hheld, le_trans (h.le_of_newer hm hx hnew) hle, ?_, ?_⟩
      · rw [EitherNewer.offerAll, List.foldl_cons, offer_newer hnew]
        exact hend
      · intro c hc
        rcases List.mem_cons.mp hc with rfl | hc
        · exact hkeep c hx hself
        · exact hlast c hc
      · intro c hc hcm
        exact hkeep c hc (h.not_newer hm hx hnew hc hcm)
    · obtain ⟨m', hend, hheld, hle, hlast, hkeep⟩ := ih hm hxs
      refine ⟨m', ?_, hheld, hle, ?_, hkeep⟩
      · rw [EitherNewer.offerAll, List.foldl_cons, offer_not_newer hnew]
        exact hend
      · intro c hc
        rcases List.mem_cons.mp hc with rfl | hc
        · exact hkeep c hx hnew
        · exact hlast c hc

/-- The same from the start, where nothing may be held yet. -/
theorem Consistent.offerAll_start {current : Option α} {S : List α}
    (h : Consistent p q current S) {xs : List α} (hxs : ∀ x ∈ xs, x ∈ S)
    (hstart : current ≠ none ∨ xs ≠ []) :
    ∃ m, EitherNewer.offerAll p q current xs = some m ∧ Held p q current S m ∧
      ∀ c ∈ xs, ¬ Newer p q c m := by
  cases current with
  | some e =>
    obtain ⟨m, hend, hheld, -, hlast, -⟩ := h.offerAll (.inl rfl) hxs
    exact ⟨m, hend, hheld, hlast⟩
  | none =>
    cases xs with
    | nil => exact absurd hstart (by simp)
    | cons x xs =>
      have hacc : Accepted p q none S x := ⟨hxs x List.mem_cons_self, fun e he => by cases he⟩
      obtain ⟨m, hend, hheld, -, hlast, hkeep⟩ :=
        h.offerAll (.inr hacc) fun y hy => hxs y (List.mem_cons_of_mem x hy)
      refine ⟨m, hend, hheld, fun c hc => ?_⟩
      rcases List.mem_cons.mp hc with rfl | hc
      · exact hkeep c hacc.1 fun hcc => hcc.elim (lt_irrefl _) (lt_irrefl _)
      · exact hlast c hc

theorem Consistent.converges {current : Option α} {S : List α} (h : Consistent p q current S) :
    Converges p q current S := by
  intro xs ys hxs hys
  by_cases hstart : current = none ∧ S = []
  · obtain ⟨rfl, rfl⟩ := hstart
    have hx : xs = [] := List.eq_nil_iff_forall_not_mem.mpr fun x hx => by
      simpa using (hxs x).mp hx
    have hy : ys = [] := List.eq_nil_iff_forall_not_mem.mpr fun y hy => by
      simpa using (hys y).mp hy
    rw [hx, hy]
  · have hne : ∀ {l : List α}, Covers S l → current ≠ none ∨ l ≠ [] := by
      intro l hl
      by_contra hnone
      rw [not_or, not_not, not_not] at hnone
      refine hstart ⟨hnone.1, List.eq_nil_iff_forall_not_mem.mpr fun x hx => ?_⟩
      have hx := (hl x).mpr hx
      rw [hnone.2] at hx
      cases hx
    obtain ⟨m, hm, hheld, hlast⟩ := h.offerAll_start (fun x hx => (hxs x).mp hx) (hne hxs)
    obtain ⟨m', hm', hheld', hlast'⟩ := h.offerAll_start (fun y hy => (hys y).mp hy) (hne hys)
    have hlast : ∀ c ∈ S, ¬ Newer p q c m := fun c hc => hlast c ((hxs c).mpr hc)
    have hlast' : ∀ c ∈ S, ¬ Newer p q c m' := fun c hc => hlast' c ((hys c).mpr hc)
    rw [hm, hm', Option.some.injEq]
    rcases hheld with he | hacc
    · rcases hheld' with he' | hacc'
      · exact Option.some.inj (he.symm.trans he')
      · exact absurd (hacc'.2 m he) (hlast m' hacc'.1)
    · rcases hheld' with he' | hacc'
      · exact absurd (hacc.2 m' he') (hlast' m hacc.1)
      · exact h.one_newest m m' hacc hacc' hlast hlast'

theorem Consistent.rises {current : Option α} {S : List α} (h : Consistent p q current S) :
    Rises p q current S := by
  intro xs ys zs hcovers m hm
  have hxs : ∀ x ∈ xs, x ∈ S := fun x hx => (hcovers x).mp (by simp [hx])
  have hys : ∀ y ∈ ys, y ∈ S := fun y hy => (hcovers y).mp (by simp [hy])
  have hstart : current ≠ none ∨ xs ≠ [] := by
    by_contra hnone
    rw [not_or, not_not, not_not] at hnone
    rw [hnone.1, hnone.2] at hm
    cases hm
  obtain ⟨m₁, hm₁, hheld, -⟩ := h.offerAll_start hxs hstart
  obtain rfl := Option.some.inj (hm.symm.trans hm₁)
  obtain ⟨m', hend, -, hle, -⟩ := h.offerAll hheld hys
  exact ⟨m', by rw [offerAll_append, hm, hend], hle⟩

/-! ## Nothing else will do -/

theorem covers_cons {S : List α} {x : α} (hx : x ∈ S) : Covers S (x :: S) := by
  intro y
  rw [List.mem_cons]
  exact ⟨fun h => h.elim (fun h => h ▸ hx) id, .inr⟩

theorem consistent_of {current : Option α} {S : List α} (hconv : Converges p q current S)
    (hrise : Rises p q current S) : Consistent p q current S := by
  constructor
  · intro m hm c hc hlt
    by_contra hq
    have hnew : Newer p q c m := .inr (not_le.mp hq)
    have hfall : ∀ m', offer p q (some m) c = some m' → ¬ p m ≤ p m' := by
      intro m' hm' hle
      rw [offer_newer hnew, Option.some.injEq] at hm'
      rw [← hm'] at hle
      exact absurd hlt (not_lt.mpr hle)
    rcases hm with hcur | hacc
    · obtain ⟨m', hm', hle⟩ := hrise [] [c] S (covers_cons hc) m hcur
      rw [hcur] at hm'
      exact hfall m' hm' hle
    · have hcovers : Covers S ([m] ++ [c] ++ S) := by
        intro y
        simp only [List.cons_append, List.nil_append, List.mem_cons]
        exact ⟨fun h => h.elim (fun h => h ▸ hacc.1) fun h => h.elim (fun h => h ▸ hc) id,
          fun h => .inr (.inr h)⟩
      have hfirst : offerAll p q current [m] = some m := offer_accepted hacc
      obtain ⟨m', hm', hle⟩ := hrise [m] [c] S hcovers m hfirst
      rw [offerAll_append, hfirst] at hm'
      exact hfall m' hm' hle
  · intro x y hx hy hxlast hylast
    have hend := hconv (x :: S) (y :: S) (covers_cons hx.1) (covers_cons hy.1)
    rw [offerAll, offerAll, List.foldl_cons, List.foldl_cons, offer_accepted hx,
      offer_accepted hy] at hend
    have hxs := offerAll_stays hxlast
    have hys := offerAll_stays hylast
    exact Option.some.inj (hxs.symm.trans (hend.trans hys))

/-- **Exactly when the order of the offers does not matter.** -/
theorem agree_iff (current : Option α) (S : List α) :
    Converges p q current S ∧ Rises p q current S ↔ Consistent p q current S :=
  ⟨fun h => consistent_of h.1 h.2, fun h => ⟨h.converges, h.rises⟩⟩

end Lib.EitherNewer
