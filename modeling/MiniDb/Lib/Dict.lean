/-
  Insertion-ordered dictionaries: a list of pairs whose keys are pairwise distinct (the
  distinctness is a field, so a dictionary with a repeated key cannot be built).

  `set` replaces a present key in place and puts a new key last; `erase` and `filter` keep the
  order of the rest. The lemmas say what each operation does to a lookup, so that later
  proofs never look at the list.

  `get?_foldl`: a fold of steps that each touch one key is, key by key, the fold of the steps
  at that key.
-/
import Mathlib.Data.List.Nodup

namespace Lib

/-- The value of the first pair with key `k`. -/
def lookupItems {α β : Type} [DecidableEq α] (k : α) : List (α × β) → Option β
  | [] => none
  | (k', v) :: rest => if k' = k then some v else lookupItems k rest

/-- Replace the value of `k` in place, or append the pair at the end. -/
def setItems {α β : Type} [DecidableEq α] (k : α) (v : β) : List (α × β) → List (α × β)
  | [] => [(k, v)]
  | (k', v') :: rest => if k' = k then (k, v) :: rest else (k', v') :: setItems k v rest

section Items

variable {α β : Type} [DecidableEq α]

theorem mem_map_fst_setItems (k : α) (v : β) (l : List (α × β)) (x : α) :
    x ∈ (setItems k v l).map Prod.fst ↔ x = k ∨ x ∈ l.map Prod.fst := by
  induction l with
  | nil => simp [setItems]
  | cons p l ih =>
    obtain ⟨k', v'⟩ := p
    by_cases h : k' = k
    · subst h
      simp [setItems]
    · simp only [setItems, if_neg h, List.map_cons, List.mem_cons, ih]
      exact or_left_comm

theorem nodup_setItems (k : α) (v : β) {l : List (α × β)} (h : (l.map Prod.fst).Nodup) :
    ((setItems k v l).map Prod.fst).Nodup := by
  induction l with
  | nil => simp [setItems]
  | cons p l ih =>
    obtain ⟨k', v'⟩ := p
    rw [List.map_cons, List.nodup_cons] at h
    by_cases hk : k' = k
    · subst hk
      simpa [setItems] using h
    · simp only [setItems, if_neg hk, List.map_cons, List.nodup_cons]
      refine ⟨?_, ih h.2⟩
      rw [mem_map_fst_setItems]
      rintro (h' | h')
      · exact hk h'
      · exact h.1 h'

theorem setItems_of_new {k : α} {l : List (α × β)} (h : k ∉ l.map Prod.fst) (v : β) :
    setItems k v l = l ++ [(k, v)] := by
  induction l with
  | nil => rfl
  | cons p l ih =>
    obtain ⟨k', v'⟩ := p
    rw [List.map_cons, List.mem_cons, not_or] at h
    rw [setItems, if_neg (Ne.symm h.1), ih h.2, List.cons_append]

theorem map_fst_setItems_of_new {k : α} {l : List (α × β)} (h : k ∉ l.map Prod.fst) (v : β) :
    (setItems k v l).map Prod.fst = l.map Prod.fst ++ [k] := by
  rw [setItems_of_new h, List.map_append]
  rfl

/-- Setting a key to the value it has changes nothing. -/
theorem setItems_of_lookup {k : α} {v : β} {l : List (α × β)} (h : lookupItems k l = some v) :
    setItems k v l = l := by
  induction l with
  | nil => cases h
  | cons p l ih =>
    obtain ⟨k', v'⟩ := p
    by_cases hk : k' = k
    · rw [lookupItems, if_pos hk, Option.some.injEq] at h
      rw [setItems, if_pos hk, hk, h]
    · rw [lookupItems, if_neg hk] at h
      rw [setItems, if_neg hk, ih h]

theorem setItems_setItems (k : α) (v w : β) (l : List (α × β)) :
    setItems k w (setItems k v l) = setItems k w l := by
  induction l with
  | nil => exact if_pos rfl
  | cons p l ih =>
    obtain ⟨k', v'⟩ := p
    by_cases h : k' = k
    · rw [setItems, if_pos h, setItems, if_pos rfl, setItems, if_pos h]
    · rw [setItems, if_neg h, setItems, if_neg h, setItems, if_neg h, ih]

theorem lookupItems_setItems (k x : α) (v : β) (l : List (α × β)) :
    lookupItems x (setItems k v l) = if x = k then some v else lookupItems x l := by
  induction l with
  | nil => simp [setItems, lookupItems, eq_comm]
  | cons p l ih =>
    obtain ⟨k', v'⟩ := p
    by_cases hk : k' = k
    · subst hk
      by_cases hx : x = k'
      · subst hx; simp [setItems, lookupItems]
      · simp [setItems, lookupItems, hx, Ne.symm hx]
    · by_cases hx : x = k
      · subst hx; simp [setItems, lookupItems, hk, ih]
      · simp [setItems, lookupItems, hk, ih, hx]

theorem lookupItems_eq_none_iff (k : α) (l : List (α × β)) :
    lookupItems k l = none ↔ k ∉ l.map Prod.fst := by
  induction l with
  | nil => simp [lookupItems]
  | cons p l ih =>
    obtain ⟨k', v'⟩ := p
    by_cases hk : k' = k
    · subst hk; simp [lookupItems]
    · simp only [lookupItems, if_neg hk, ih, List.map_cons, List.mem_cons, not_or]
      exact ⟨fun h => ⟨Ne.symm hk, h⟩, fun h => h.2⟩

theorem lookupItems_eq_some_iff {l : List (α × β)} (h : (l.map Prod.fst).Nodup) (k : α) (v : β) :
    lookupItems k l = some v ↔ (k, v) ∈ l := by
  induction l with
  | nil => simp [lookupItems]
  | cons p l ih =>
    obtain ⟨k', v'⟩ := p
    rw [List.map_cons, List.nodup_cons] at h
    by_cases hk : k' = k
    · subst hk
      have hnot : (k', v) ∉ l := fun hm => h.1 (List.mem_map.mpr ⟨(k', v), hm, rfl⟩)
      simp [lookupItems, hnot, eq_comm]
    · simp [lookupItems, if_neg hk, ih h.2, Ne.symm hk]

theorem lookupItems_filter {l : List (α × β)} (h : (l.map Prod.fst).Nodup)
    (p : α × β → Bool) (k : α) :
    lookupItems k (l.filter p) = (lookupItems k l).filter fun v => p (k, v) := by
  have hn : ((l.filter p).map Prod.fst).Nodup := h.sublist (List.filter_sublist.map _)
  ext v
  rw [lookupItems_eq_some_iff hn, List.mem_filter, Option.filter_eq_some_iff,
    lookupItems_eq_some_iff h]

end Items

/-- An insertion-ordered dictionary. -/
structure Dict (α β : Type) where
  items : List (α × β)
  nodup : (items.map Prod.fst).Nodup

namespace Dict

variable {α β : Type} [DecidableEq α]

/-- `{}` -/
def empty : Dict α β := ⟨[], by simp⟩

/-- `d.get(k)` -/
def get? (d : Dict α β) (k : α) : Option β := lookupItems k d.items

/-- `d[k] = v` -/
def set (d : Dict α β) (k : α) (v : β) : Dict α β :=
  ⟨setItems k v d.items, nodup_setItems k v d.nodup⟩

/-- The pairs that satisfy `p`, in order. -/
def filter (d : Dict α β) (p : α × β → Bool) : Dict α β :=
  ⟨d.items.filter p, d.nodup.sublist (List.filter_sublist.map _)⟩

/-- `d.pop(k, None)`, without the value. -/
def erase (d : Dict α β) (k : α) : Dict α β := d.filter fun p => p.1 ≠ k

/-- `d.keys()` -/
def keys (d : Dict α β) : List α := d.items.map Prod.fst

/-- `len(d)` -/
def length (d : Dict α β) : Nat := d.items.length

/-- Same keys in the same order, every value mapped. -/
def mapVals {γ : Type} (d : Dict α β) (f : β → γ) : Dict α γ :=
  ⟨d.items.map fun p => (p.1, f p.2), by simpa [Function.comp_def] using d.nodup⟩

/-- Keys renamed one to one, and every value mapped. -/
def mapItems {γ δ : Type} (d : Dict α β) (f : α → γ) (hf : f.Injective) (g : β → δ) : Dict γ δ :=
  ⟨d.items.map fun p => (f p.1, g p.2), by
    have h := d.nodup.map hf
    rwa [List.map_map] at h ⊢⟩

@[simp] theorem get?_empty (k : α) : (empty : Dict α β).get? k = none := rfl

theorem get?_set (d : Dict α β) (k x : α) (v : β) :
    (d.set k v).get? x = if x = k then some v else d.get? x :=
  lookupItems_setItems k x v d.items

@[simp] theorem get?_set_self (d : Dict α β) (k : α) (v : β) : (d.set k v).get? k = some v := by
  rw [get?_set, if_pos rfl]

theorem get?_set_ne (d : Dict α β) {k x : α} (h : x ≠ k) (v : β) :
    (d.set k v).get? x = d.get? x := by
  rw [get?_set, if_neg h]

theorem get?_filter (d : Dict α β) (p : α × β → Bool) (k : α) :
    (d.filter p).get? k = (d.get? k).filter fun v => p (k, v) :=
  lookupItems_filter d.nodup p k

theorem get?_erase (d : Dict α β) (k x : α) :
    (d.erase k).get? x = if x = k then none else d.get? x := by
  unfold erase
  rw [get?_filter]
  by_cases h : x = k
  · cases hd : d.get? x <;> simp [h]
  · cases hd : d.get? x <;> simp [h]

theorem mem_items_iff (d : Dict α β) (k : α) (v : β) : (k, v) ∈ d.items ↔ d.get? k = some v :=
  (lookupItems_eq_some_iff d.nodup k v).symm

theorem get?_mapItems {γ δ : Type} [DecidableEq γ] (d : Dict α β) {f : α → γ} (hf : f.Injective)
    (g : β → δ) (k : α) : (d.mapItems f hf g).get? (f k) = (d.get? k).map g := by
  obtain ⟨l, hl⟩ := d
  unfold get? mapItems
  simp only
  clear hl
  induction l with
  | nil => rfl
  | cons p l ih =>
    obtain ⟨k', v⟩ := p
    rw [List.map_cons, lookupItems, lookupItems]
    by_cases h : k' = k
    · rw [if_pos h, if_pos (congrArg f h), Option.map_some]
    · rw [if_neg h, if_neg (fun hfk => h (hf hfk)), ih]

theorem get?_mapVals {γ : Type} (d : Dict α β) (f : β → γ) (k : α) :
    (d.mapVals f).get? k = (d.get? k).map f :=
  get?_mapItems d Function.injective_id f k

theorem mem_keys_iff (d : Dict α β) (k : α) : k ∈ d.keys ↔ d.get? k ≠ none := by
  have h := lookupItems_eq_none_iff k d.items
  unfold keys get?
  rw [ne_eq, h, not_not]

omit [DecidableEq α] in
@[simp] theorem length_keys (d : Dict α β) : d.keys.length = d.length := List.length_map _

theorem set_of_get? {d : Dict α β} {k : α} {v : β} (h : d.get? k = some v) : d.set k v = d := by
  obtain ⟨l, hl⟩ := d
  simp only [set, setItems_of_lookup h]

omit [DecidableEq α] in
theorem ext_items {d d' : Dict α β} (h : d.items = d'.items) : d = d' := by
  cases d
  cases d'
  cases h
  rfl

theorem set_set (d : Dict α β) (k : α) (v w : β) : (d.set k v).set k w = d.set k w :=
  ext_items (setItems_setItems k v w d.items)

/-- A key that was new is taken out again. -/
theorem erase_set_of_new {d : Dict α β} {k : α} (h : d.get? k = none) (v : β) :
    (d.set k v).erase k = d := by
  have hnew : k ∉ d.items.map Prod.fst := (lookupItems_eq_none_iff k d.items).mp h
  have hkeep : ∀ p ∈ d.items, decide (p.1 ≠ k) = true := by
    intro p hp
    refine decide_eq_true fun hk => hnew ?_
    exact List.mem_map.mpr ⟨p, hp, hk⟩
  refine ext_items ?_
  show (setItems k v d.items).filter (fun p => p.1 ≠ k) = d.items
  rw [setItems_of_new hnew, List.filter_append, List.filter_eq_self.mpr hkeep]
  simp

theorem keys_set_of_new {d : Dict α β} {k : α} (h : k ∉ d.keys) (v : β) :
    (d.set k v).keys = d.keys ++ [k] :=
  map_fst_setItems_of_new h v

/-- The pairs set one after the other, from `d` on. -/
def setAll (d : Dict α β) (l : List (α × β)) : Dict α β := l.foldl (fun d p => d.set p.1 p.2) d

/-- Pairs with new and distinct keys are appended as they are. -/
theorem items_setAll {d : Dict α β} {l : List (α × β)}
    (h : ((d.items ++ l).map Prod.fst).Nodup) : (d.setAll l).items = d.items ++ l := by
  induction l generalizing d with
  | nil => exact (List.append_nil _).symm
  | cons p l ih =>
    obtain ⟨k, v⟩ := p
    have hnew : k ∉ d.items.map Prod.fst := by
      rw [List.map_append, List.map_cons, List.nodup_append] at h
      exact fun hk => h.2.2 k hk k List.mem_cons_self rfl
    have hset : (d.set k v).items = d.items ++ [(k, v)] := setItems_of_new hnew v
    have hrest : (((d.set k v).items ++ l).map Prod.fst).Nodup := by
      rwa [hset, List.append_assoc, List.singleton_append]
    rw [setAll, List.foldl_cons]
    change ((d.set k v).setAll l).items = _
    rw [ih hrest, hset, List.append_assoc, List.singleton_append]

theorem setAll_empty (d : Dict α β) : empty.setAll d.items = d :=
  ext_items (items_setAll d.nodup)

/-- The pairs with key `k`: none or one. -/
theorem filter_items_key (d : Dict α β) (k : α) :
    (d.items.filter fun p => p.1 = k) = ((d.get? k).map fun v => (k, v)).toList := by
  obtain ⟨l, hl⟩ := d
  simp only [Dict.get?]
  induction l with
  | nil => rfl
  | cons p l ih =>
    obtain ⟨k', v⟩ := p
    rw [List.map_cons, List.nodup_cons] at hl
    by_cases hk : k' = k
    · subst hk
      have hrest : lookupItems k' l = none := (lookupItems_eq_none_iff k' l).mpr hl.1
      have hnil := ih hl.2
      rw [hrest] at hnil
      simp [lookupItems, hnil]
    · simpa [lookupItems, hk] using ih hl.2

omit [DecidableEq α] in
theorem nodup_keys (d : Dict α β) : d.keys.Nodup := d.nodup

end Dict

/-! ## Folds of steps that each touch one key -/

section Fold

variable {α β ε σ : Type} [DecidableEq α]

/-- If every step changes the entry of its own key only, and that as `upd` says, then a fold
    of steps is at each key the fold of the steps at that key. The steps may ask for an invariant
    of theirs. -/
theorem get?_foldl_of (get : σ → α → Option β) (step : σ → ε → σ) (key : ε → α)
    (upd : ε → Option β → Option β) (I : σ → Prop) (hinv : ∀ s e, I s → I (step s e))
    (hstep : ∀ s e k, I s → get (step s e) k = if key e = k then upd e (get s k) else get s k)
    (es : List ε) {s : σ} (hs : I s) (k : α) :
    get (es.foldl step s) k =
      (es.filter fun e => key e = k).foldl (fun b e => upd e b) (get s k) := by
  induction es generalizing s with
  | nil => rfl
  | cons e es ih =>
    rw [List.foldl_cons, ih (hinv s e hs), hstep s e k hs]
    by_cases hk : key e = k
    · simp [hk]
    · simp [hk]

theorem get?_foldl (get : σ → α → Option β) (step : σ → ε → σ) (key : ε → α)
    (upd : ε → Option β → Option β)
    (hstep : ∀ s e k, get (step s e) k = if key e = k then upd e (get s k) else get s k)
    (es : List ε) (s : σ) (k : α) :
    get (es.foldl step s) k =
      (es.filter fun e => key e = k).foldl (fun b e => upd e b) (get s k) :=
  get?_foldl_of get step key upd (fun _ => True) (fun _ _ h => h)
    (fun s e k _ => hstep s e k) es trivial k

end Fold

end Lib
