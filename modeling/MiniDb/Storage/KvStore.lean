/-
  The in-memory store (`storage/kv_store.py`): keys with their metadata, expiry on access.

  The clock is an argument of every operation that reads it. Times are rationals; an expiry
  time of 0 counts as none, as in the source, where `expires_at` is tested for truth.

  Not modelled: the statistics and the TTL index, which no operation here reads.
-/
import MiniDb.Lib.Dict
import MiniDb.Lib.Json
import Mathlib.Algebra.Order.Ring.Rat
import Mathlib.Data.Prod.Lex
import Mathlib.Data.String.Basic

namespace MiniDb

open Lib

/-- `time.time()` -/
abbrev Time := ℚ

/-! ## Records -/

structure KeyMetadata where
  value : Json
  createdAt : Time
  updatedAt : Time
  expiresAt : Option Time
  version : Int
  coordinatorId : String

/-- `expires_at and expires_at < now` -/
def expiredBefore (expiresAt : Option Time) (now : Time) : Bool :=
  match expiresAt with
  | some x => decide (x ≠ 0) && decide (x < now)
  | none => false

/-- `expires_at and expires_at <= now` -/
def expiredBy (expiresAt : Option Time) (now : Time) : Bool :=
  match expiresAt with
  | some x => decide (x ≠ 0) && decide (x ≤ now)
  | none => false

@[simp] theorem expiredBefore_none (now : Time) : expiredBefore none now = false := rfl

@[simp] theorem expiredBy_none (now : Time) : expiredBy none now = false := rfl

theorem expiredBefore_mono {x : Option Time} {t t' : Time} (h : t ≤ t')
    (hx : expiredBefore x t = true) : expiredBefore x t' = true := by
  cases x with
  | none => cases hx
  | some x =>
    simp only [expiredBefore, Bool.and_eq_true, decide_eq_true_eq] at hx ⊢
    exact ⟨hx.1, lt_of_lt_of_le hx.2 h⟩

/-- What has expired by `t` is expired before every later time. -/
theorem expiredBefore_of_expiredBy {x : Option Time} {t t' : Time} (h : t < t')
    (hx : expiredBy x t = true) : expiredBefore x t' = true := by
  cases x with
  | none => cases hx
  | some x =>
    simp only [expiredBy, expiredBefore, Bool.and_eq_true, decide_eq_true_eq] at hx ⊢
    exact ⟨hx.1, lt_of_le_of_lt hx.2 h⟩

theorem expiredBy_of_expiredBefore {x : Option Time} {t t' : Time} (h : t ≤ t')
    (hx : expiredBefore x t = true) : expiredBy x t' = true := by
  cases x with
  | none => cases hx
  | some x =>
    simp only [expiredBy, expiredBefore, Bool.and_eq_true, decide_eq_true_eq] at hx ⊢
    exact ⟨hx.1, le_of_lt (lt_of_lt_of_le hx.2 h)⟩

/-- The keyword arguments of `set`. -/
structure SetArgs where
  ttl : Option Int := none
  version : Option Int := none
  expiresAt : Option Time := none
  createdAt : Option Time := none
  updatedAt : Option Time := none
  coordinatorId : Option String := none

/-- The record that `set` stores over `existing`. -/
def setRecord (now : Time) (existing : Option KeyMetadata) (value : Json) (a : SetArgs) :
    KeyMetadata :=
  let updatedAt := a.updatedAt.getD now
  { value := value
    createdAt :=
      match a.createdAt with
      | some x => x
      | none => match existing with
        | some m => m.createdAt
        | none => updatedAt
    updatedAt := updatedAt
    expiresAt :=
      match a.expiresAt with
      | some x => some x
      | none => a.ttl.map fun (t : Int) => updatedAt + t
    version :=
      match a.version with
      | some v => if v ≠ 0 then v else nextVersion
      | none => nextVersion
    coordinatorId :=
      match a.coordinatorId with
      | some c => c
      | none => match existing with
        | some m => m.coordinatorId
        | none => "" }
where
  /-- `existing.version + 1 if existing else 1` -/
  nextVersion : Int := match existing with
    | some m => m.version + 1
    | none => 1

theorem setRecord_createdAt (now : Time) (existing : Option KeyMetadata) (value : Json)
    (a : SetArgs) : (setRecord now existing value a).createdAt =
      a.createdAt.getD (existing.elim (a.updatedAt.getD now) KeyMetadata.createdAt) := by
  unfold setRecord
  cases a.createdAt <;> cases existing <;> rfl

/-- With a version, a creation time and a coordinator given, nothing is taken from `existing`. -/
theorem setRecord_of_given (now : Time) (existing : Option KeyMetadata) (value : Json)
    {v : Int} (hv : v ≠ 0) (x : Option Time) (c u : Time) (i : String) :
    setRecord now existing value
        { version := some v, expiresAt := x, createdAt := some c, updatedAt := some u,
          coordinatorId := some i } =
      { value := value, createdAt := c, updatedAt := u, expiresAt := x, version := v,
        coordinatorId := i } := by
  cases x <;> simp [setRecord, hv]

/-! ## The order of versions -/

/-- The tuples `(version, updated_at, coordinator_id)`, in lexicographic order. -/
abbrev SortKey := Int ×ₗ Time ×ₗ String

/-- Named, so that what computes with the order does not pick a noncomputable instance. -/
instance : Preorder SortKey := (inferInstance : LinearOrder SortKey).toPartialOrder.toPreorder

def sortKey (version : Int) (updatedAt : Time) (coordinatorId : String) : SortKey :=
  toLex (version, toLex (updatedAt, coordinatorId))

/-- `_metadata_sort_key` -/
def KeyMetadata.sortKey (m : KeyMetadata) : SortKey :=
  MiniDb.sortKey m.version m.updatedAt m.coordinatorId

theorem sortKey_lt_of_version_lt {v v' : Int} (h : v < v') (u u' : Time) (c c' : String) :
    sortKey v u c < sortKey v' u' c' :=
  Prod.Lex.toLex_lt_toLex.mpr (.inl h)

theorem version_le_of_sortKey_le {v v' : Int} {u u' : Time} {c c' : String}
    (h : sortKey v u c ≤ sortKey v' u' c') : v ≤ v' := by
  rcases Prod.Lex.toLex_le_toLex.mp h with h | h
  · exact le_of_lt h
  · exact le_of_eq h.1

/-! ## The store -/

structure KVStore where
  store : Dict String KeyMetadata

namespace KVStore

/-- What `_store.get(key)` finds, expired or not. -/
def get? (s : KVStore) (key : String) : Option KeyMetadata := s.store.get? key

def empty : KVStore := ⟨Dict.empty⟩

def set (s : KVStore) (now : Time) (key : String) (value : Json) (a : SetArgs := {}) : KVStore :=
  ⟨s.store.set key (setRecord now (s.get? key) value a)⟩

/-- `_delete_internal` -/
def deleteInternal (s : KVStore) (key : String) : KVStore := ⟨s.store.erase key⟩

/-- `get`: the value (`null` when there is none) and whether it was found. -/
def get (s : KVStore) (now : Time) (key : String) : KVStore × (Json × Bool) :=
  match s.get? key with
  | none => (s, (.null, false))
  | some m =>
    if expiredBefore m.expiresAt now then (s.deleteInternal key, (.null, false))
    else (s, (m.value, true))

def getWithMetadata (s : KVStore) (now : Time) (key : String) : KVStore × Option KeyMetadata :=
  match s.get? key with
  | none => (s, none)
  | some m =>
    if expiredBefore m.expiresAt now then (s.deleteInternal key, none)
    else (s, some m)

def delete (s : KVStore) (key : String) : KVStore × Bool :=
  match s.get? key with
  | some _ => (s.deleteInternal key, true)
  | none => (s, false)

/-- `exists` -/
def keyExists (s : KVStore) (now : Time) (key : String) : KVStore × Bool :=
  match s.get? key with
  | none => (s, false)
  | some m =>
    if expiredBefore m.expiresAt now then (s.deleteInternal key, false)
    else (s, true)

/-- `_cleanup_expired` and `cleanup_expired_keys` -/
def cleanupExpired (s : KVStore) (now : Time) : KVStore :=
  ⟨s.store.filter fun p => !expiredBefore p.2.expiresAt now⟩

/-- The test of `keys`: `*` matches everything, `prefix*` what starts so. -/
def matchesPattern (pattern key : String) : Bool :=
  pattern = "*" ||
    if pattern.toList.getLast? = some '*' then pattern.toList.dropLast.isPrefixOf key.toList
    else key = pattern

def keys (s : KVStore) (now : Time) (pattern : String := "*") : KVStore × List String :=
  (s.cleanupExpired now, (s.cleanupExpired now).store.keys.filter (matchesPattern pattern))

/-- The 6-tuple of a record in `get_all_data`, in snapshots and in `load_data`. -/
structure Item where
  value : Json
  expiresAt : Option Time
  version : Int
  createdAt : Time
  updatedAt : Time
  coordinatorId : String

def itemOf (m : KeyMetadata) : Item :=
  ⟨m.value, m.expiresAt, m.version, m.createdAt, m.updatedAt, m.coordinatorId⟩

def recordOf (i : Item) : KeyMetadata :=
  ⟨i.value, i.createdAt, i.updatedAt, i.expiresAt, i.version, i.coordinatorId⟩

@[simp] theorem recordOf_itemOf (m : KeyMetadata) : recordOf (itemOf m) = m := rfl

@[simp] theorem itemOf_expiresAt (m : KeyMetadata) : (itemOf m).expiresAt = m.expiresAt := rfl

@[simp] theorem recordOf_expiresAt (i : Item) : (recordOf i).expiresAt = i.expiresAt := rfl

def getAllData (s : KVStore) (now : Time) : KVStore × Dict String Item :=
  (s.cleanupExpired now, (s.cleanupExpired now).store.mapVals itemOf)

/-- One item of `load_data`; an expired one is skipped. -/
def loadItem (now : Time) (s : KVStore) (p : String × Item) : KVStore :=
  if expiredBefore p.2.expiresAt now then s else ⟨s.store.set p.1 (recordOf p.2)⟩

def loadData (s : KVStore) (now : Time) (data : Dict String Item) : KVStore :=
  data.items.foldl (loadItem now) s

/-! ## What each operation does to a lookup -/

@[simp] theorem get?_empty (k : String) : empty.get? k = none := rfl

theorem get?_set (s : KVStore) (now : Time) (key : String) (value : Json) (a : SetArgs)
    (k : String) :
    (s.set now key value a).get? k =
      if k = key then some (setRecord now (s.get? key) value a) else s.get? k :=
  Dict.get?_set s.store key k _

theorem get?_deleteInternal (s : KVStore) (key k : String) :
    (s.deleteInternal key).get? k = if k = key then none else s.get? k :=
  Dict.get?_erase s.store key k

theorem get?_delete (s : KVStore) (key k : String) :
    (s.delete key).1.get? k = if k = key then none else s.get? k := by
  unfold delete
  cases h : s.get? key with
  | some m => exact get?_deleteInternal s key k
  | none =>
    by_cases hk : k = key
    · rw [if_pos hk, hk, h]
    · rw [if_neg hk]

theorem get?_cleanupExpired (s : KVStore) (now : Time) (k : String) :
    (s.cleanupExpired now).get? k =
      (s.get? k).filter fun m => !expiredBefore m.expiresAt now :=
  Dict.get?_filter s.store _ k

theorem get?_getAllData (s : KVStore) (now : Time) (k : String) :
    (s.getAllData now).2.get? k =
      ((s.get? k).filter fun m => !expiredBefore m.expiresAt now).map itemOf := by
  rw [← get?_cleanupExpired]
  exact Dict.get?_mapVals _ itemOf k

/-- Purging the record of `key` is all that a read does to the store. -/
theorem getWithMetadata_store (s : KVStore) (now : Time) (key : String) :
    (s.getWithMetadata now key).1 = s ∨
      (s.getWithMetadata now key).1 = s.deleteInternal key ∧
        ∃ m, s.get? key = some m ∧ expiredBefore m.expiresAt now = true := by
  unfold getWithMetadata
  split
  · exact .inl rfl
  · rename_i m hm
    split
    · rename_i hx
      exact .inr ⟨rfl, m, hm, hx⟩
    · exact .inl rfl

theorem getWithMetadata_snd (s : KVStore) (now : Time) (key : String) :
    (s.getWithMetadata now key).2 =
      (s.get? key).filter fun m => !expiredBefore m.expiresAt now := by
  unfold getWithMetadata
  cases s.get? key with
  | none => rfl
  | some m =>
    by_cases h : expiredBefore m.expiresAt now
    · simp [Option.filter_some, h]
    · simp [Option.filter_some, h]

/-- A read leaves what it finds. -/
theorem get?_getWithMetadata (s : KVStore) (now : Time) (key k : String) :
    (s.getWithMetadata now key).1.get? k =
      if k = key then (s.getWithMetadata now key).2 else s.get? k := by
  unfold getWithMetadata
  cases hm : s.get? key with
  | none =>
    by_cases hk : k = key
    · rw [if_pos hk, hk, hm]
    · rw [if_neg hk]
  | some m =>
    by_cases h : expiredBefore m.expiresAt now
    · simp only [h, if_true, get?_deleteInternal]
    · by_cases hk : k = key
      · subst hk
        simp only [h, Bool.false_eq_true, if_false, if_true, hm]
      · simp only [h, Bool.false_eq_true, if_false, if_neg hk]

/-- `get` reads as `get_with_metadata` does, and purges what that purges. -/
theorem get_eq (s : KVStore) (now : Time) (key : String) :
    s.get now key = ((s.getWithMetadata now key).1,
      match (s.getWithMetadata now key).2 with
      | some m => (m.value, true)
      | none => (.null, false)) := by
  unfold get getWithMetadata
  cases s.get? key with
  | none => rfl
  | some m =>
    by_cases h : expiredBefore m.expiresAt now
    · simp only [h, if_true]
    · simp only [h, Bool.false_eq_true, if_false]

/-- So does `exists`. -/
theorem keyExists_eq (s : KVStore) (now : Time) (key : String) :
    s.keyExists now key =
      ((s.getWithMetadata now key).1, (s.getWithMetadata now key).2.isSome) := by
  unfold keyExists getWithMetadata
  cases s.get? key with
  | none => rfl
  | some m =>
    by_cases h : expiredBefore m.expiresAt now
    · simp only [h, if_true, Option.isSome_none]
    · simp only [h, Bool.false_eq_true, if_false, Option.isSome_some]

/-- The value and flag of `get` are those of the unexpired record. -/
theorem get_snd (s : KVStore) (now : Time) (key : String) :
    (s.get now key).2 =
      match (s.get? key).filter fun m => !expiredBefore m.expiresAt now with
      | some m => (m.value, true)
      | none => (.null, false) := by
  rw [get_eq, getWithMetadata_snd]

theorem mem_keys (s : KVStore) (now : Time) (k : String) :
    k ∈ (s.keys now).2 ↔ ((s.get? k).filter fun m => !expiredBefore m.expiresAt now).isSome := by
  have hall : (s.keys now).2 = (s.cleanupExpired now).store.keys :=
    List.filter_eq_self.mpr fun _ _ => rfl
  rw [hall, Dict.mem_keys_iff, ← get?_cleanupExpired, Option.isSome_iff_ne_none]
  rfl

theorem get?_loadItem (now : Time) (s : KVStore) (p : String × Item) (k : String) :
    (loadItem now s p).get? k =
      if p.1 = k then (if expiredBefore p.2.expiresAt now then s.get? k else some (recordOf p.2))
      else s.get? k := by
  unfold loadItem
  by_cases hx : expiredBefore p.2.expiresAt now
  · simp [hx]
  · simp only [hx, Bool.false_eq_true, if_false]
    by_cases hk : p.1 = k
    · rw [if_pos hk, get?, hk, Dict.get?_set_self]
    · rw [if_neg hk, get?, Dict.get?_set_ne _ (Ne.symm hk), get?]

/-- A loaded item replaces the record, an expired or missing one leaves it. -/
theorem get?_loadData (s : KVStore) (now : Time) (data : Dict String Item) (k : String) :
    (s.loadData now data).get? k =
      match (data.get? k).filter fun i => !expiredBefore i.expiresAt now with
      | some i => some (recordOf i)
      | none => s.get? k := by
  unfold loadData
  rw [get?_foldl get? (loadItem now) Prod.fst
    (fun p b => if expiredBefore p.2.expiresAt now then b else some (recordOf p.2))
    (fun s p k => get?_loadItem now s p k), Dict.filter_items_key]
  cases data.get? k with
  | none => rfl
  | some i =>
    by_cases h : expiredBefore i.expiresAt now
    · simp [Option.filter_some, h]
    · simp [Option.filter_some, h]

end KVStore

end MiniDb
