/-
  The store and the map it stands for.

  `MapCall.meaning` says what each call does to a map that keeps each key's last SET until it is
  deleted, and what it answers there. The store also removes expired records, one key on
  access and all of them in a cleanup; `run_answers` says that nothing it answers tells.

  What the calls answer is compared as far as it is about values: the found flags, the values and
  the key sets. A version may differ, which the next SET of an expired key shows: it counts on
  from a record that is still there.
-/
import MiniDb.Lib.Expiring
import MiniDb.Storage.KvStore
import Mathlib.Algebra.Order.Ring.Cast
import Mathlib.Data.Finset.Basic

namespace MiniDb

open Lib

namespace StoreMap

/-! ## Calls -/

inductive MapCall where
  | set (key : String) (value : Json) (args : SetArgs)
  | delete (key : String)
  | get (key : String)
  | getWithMetadata (key : String)
  | keyExists (key : String)
  | keys
  | cleanupExpired
  | getAllData

/-- What a call lets be known of values. -/
inductive MapAnswer where
  | done
  | value (value : Json) (found : Bool)
  | record (value : Option Json)
  | found (found : Bool)
  | keys (keys : Finset String)
  | data (value : String → Option Json)

/-- The call on the store, at time `now`. -/
def perform (now : Time) (s : KVStore) : MapCall → KVStore × MapAnswer
  | .set key value args => (s.set now key value args, .done)
  | .delete key => ((s.delete key).1, .done)
  | .get key =>
    let (s, value, found) := s.get now key
    (s, .value value found)
  | .getWithMetadata key =>
    let (s, m) := s.getWithMetadata now key
    (s, .record (m.map KeyMetadata.value))
  | .keyExists key =>
    let (s, found) := s.keyExists now key
    (s, .found found)
  | .keys =>
    let (s, keys) := s.keys now
    (s, .keys keys.toFinset)
  | .cleanupExpired => (s.cleanupExpired now, .done)
  | .getAllData =>
    let (s, data) := s.getAllData now
    (s, .data fun k => (data.get? k).map KVStore.Item.value)

/-- The answers to calls, each with its time. -/
def answers : KVStore → List (Time × MapCall) → List MapAnswer
  | _, [] => []
  | s, (now, c) :: cs => (perform now s c).2 :: answers (perform now s c).1 cs

/-! ## The map -/

/-- The expiry time that `set` gives. -/
def expiryOf (now : Time) (a : SetArgs) : Option Time :=
  match a.expiresAt with
  | some x => some x
  | none => a.ttl.map fun (t : Int) => a.updatedAt.getD now + t

abbrev Entries := ExpiringMap String Json Time

/-- What the call does to the map. -/
def MapCall.apply (now : Time) (m : Entries) : MapCall → Entries
  | .set key value args => Function.update m key (some (value, expiryOf now args))
  | .delete key => Function.update m key none
  | _ => m

/-- What it answers there. -/
inductive MapCall.Meaning (now : Time) (m : Entries) : MapCall → MapAnswer → Prop where
  | set {key : String} {value : Json} {args : SetArgs} : Meaning now m (.set key value args) .done
  | delete {key : String} : Meaning now m (.delete key) .done
  | get {key : String} :
      Meaning now m (.get key) (.value ((m.view now key).getD .null) (m.view now key).isSome)
  | getWithMetadata {key : String} : Meaning now m (.getWithMetadata key) (.record (m.view now key))
  | keyExists {key : String} : Meaning now m (.keyExists key) (.found (m.view now key).isSome)
  | keys {keys : Finset String} (h : ∀ k, k ∈ keys ↔ (m.view now k).isSome) :
      Meaning now m .keys (.keys keys)
  | cleanupExpired : Meaning now m .cleanupExpired .done
  | getAllData : Meaning now m .getAllData (.data (m.view now))

/-- The answers are those of the map. -/
def Meant : Entries → List (Time × MapCall) → List MapAnswer → Prop
  | _, [], as => as = []
  | m, (now, c) :: cs, as =>
    ∃ a rest, as = a :: rest ∧ c.Meaning now m a ∧ Meant (c.apply now m) cs rest

/-- The call sets no expiry time that is not positive. -/
def PositiveExpiry (now : Time) : MapCall → Prop
  | .set _ _ args => ∀ x, expiryOf now args = some x → 0 < x
  | _ => True

/-! ## The simulation -/

/-- The entries of the store. -/
def entries (s : KVStore) : Entries := fun k => (s.get? k).map fun m => (m.value, m.expiresAt)

/-- The store holds the map, without some of what is hidden; no expiry time is 0, which would
    count as none. -/
structure Holds (now : Time) (s : KVStore) (m : Entries) : Prop where
  simulates : ExpiringMap.Simulates now (entries s) m
  positive : ∀ k r x, s.get? k = some r → r.expiresAt = some x → 0 < x

namespace Holds

variable {now : Time} {s : KVStore} {m : Entries}

/-- Expired is hidden. -/
theorem expiredBefore_iff (h : Holds now s m) {k : String} {r : KeyMetadata}
    (hr : s.get? k = some r) (now' : Time) :
    expiredBefore r.expiresAt now' = true ↔ ¬ ExpiringMap.Live now' (r.value, r.expiresAt) := by
  cases hx : r.expiresAt with
  | none => simp [ExpiringMap.Live]
  | some x =>
    have := h.positive k r x hr hx
    simp [expiredBefore, ExpiringMap.Live, this.ne']

/-- The unexpired record of a key is what the map shows. -/
theorem view_eq (h : Holds now s m) (k : String) :
    ((s.get? k).filter fun r => !expiredBefore r.expiresAt now).map KeyMetadata.value =
      m.view now k := by
  rw [← h.simulates.view_eq k]
  unfold ExpiringMap.view entries
  cases hr : s.get? k with
  | none => rfl
  | some r =>
    by_cases hx : expiredBefore r.expiresAt now = true
    · have hdead := (h.expiredBefore_iff hr now).mp hx
      simp [Option.filter_some, hx, hdead]
    · have hlive := not_not.mp (mt (h.expiredBefore_iff hr now).mpr hx)
      simp [Option.filter_some, hx, hlive]

/-- A store that lost records which are expired. -/
theorem purge (h : Holds now s m) {s' : KVStore}
    (hs : ∀ k, s'.get? k = s.get? k ∨
      (s'.get? k = none ∧ ∃ r, s.get? k = some r ∧ expiredBefore r.expiresAt now = true)) :
    Holds now s' m := by
  refine ⟨h.simulates.purge fun k => ?_, fun k r x hr hx => ?_⟩
  · unfold entries
    rcases hs k with heq | ⟨hnone, r, hr, hx⟩
    · exact .inl (by rw [heq])
    · exact .inr ⟨by rw [hnone]; rfl, _, by rw [hr]; rfl, (h.expiredBefore_iff hr now).mp hx⟩
  · rcases hs k with heq | ⟨hnone, -⟩
    · exact h.positive k r x (heq ▸ hr) hx
    · rw [hnone] at hr
      cases hr

theorem mono (h : Holds now s m) {now' : Time} (hle : now ≤ now') : Holds now' s m :=
  ⟨h.simulates.mono hle, h.positive⟩

theorem getWithMetadata (h : Holds now s m) (key : String) :
    Holds now (s.getWithMetadata now key).1 m := by
  refine h.purge fun k => ?_
  rcases KVStore.getWithMetadata_store s now key with heq | ⟨heq, r, hr, hx⟩
  · exact .inl (by rw [heq])
  · rw [heq, KVStore.get?_deleteInternal]
    by_cases hk : k = key
    · exact .inr ⟨if_pos hk, r, hk ▸ hr, hx⟩
    · exact .inl (if_neg hk)

theorem cleanupExpired (h : Holds now s m) : Holds now (s.cleanupExpired now) m := by
  refine h.purge fun k => ?_
  rw [KVStore.get?_cleanupExpired]
  cases hr : s.get? k with
  | none => exact .inl rfl
  | some r =>
    by_cases hx : expiredBefore r.expiresAt now = true
    · exact .inr ⟨by simp [Option.filter_some, hx], r, rfl, hx⟩
    · exact .inl (by simp [Option.filter_some, hx])

theorem entries_set (s : KVStore) (now : Time) (key : String) (value : Json) (a : SetArgs) :
    entries (s.set now key value a) =
      Function.update (entries s) key (some (value, expiryOf now a)) := by
  funext k
  unfold entries
  rw [KVStore.get?_set, Function.update_apply]
  split
  · rfl
  · rfl

theorem entries_delete (s : KVStore) (key : String) :
    entries (s.delete key).1 = Function.update (entries s) key none := by
  funext k
  unfold entries
  rw [KVStore.get?_delete, Function.update_apply]
  split
  · rfl
  · rfl

theorem set (h : Holds now s m) (key : String) (value : Json) {a : SetArgs}
    (ha : ∀ x, expiryOf now a = some x → 0 < x) :
    Holds now (s.set now key value a) (Function.update m key (some (value, expiryOf now a))) := by
  refine ⟨?_, fun k r x hr hx => ?_⟩
  · rw [entries_set]
    exact h.simulates.update key _
  · rw [KVStore.get?_set] at hr
    split at hr
    · rw [Option.some.injEq] at hr
      subst hr
      exact ha x hx
    · exact h.positive k r x hr hx

theorem delete (h : Holds now s m) (key : String) :
    Holds now (s.delete key).1 (Function.update m key none) := by
  refine ⟨?_, fun k r x hr hx => ?_⟩
  · rw [entries_delete]
    exact h.simulates.update key _
  · rw [KVStore.get?_delete] at hr
    split at hr
    · cases hr
    · exact h.positive k r x hr hx

end Holds

/-- **One call**: the store answers what the map answers, and holds the map after it. -/
theorem perform_meant {now : Time} {s : KVStore} {m : Entries} (h : Holds now s m) (c : MapCall)
    (hc : PositiveExpiry now c) :
    c.Meaning now m (perform now s c).2 ∧ Holds now (perform now s c).1 (c.apply now m) := by
  cases c with
  | set key value args => exact ⟨.set, h.set key value hc⟩
  | delete key => exact ⟨.delete, h.delete key⟩
  | get key =>
    refine ⟨?_, ?_⟩
    · have hanswer : (perform now s (.get key)).2 =
          .value ((m.view now key).getD .null) (m.view now key).isSome := by
        rw [← h.view_eq key]
        simp only [perform, KVStore.get_snd]
        cases (s.get? key).filter fun r => !expiredBefore r.expiresAt now <;> rfl
      rw [hanswer]
      exact .get
    · simp only [perform, KVStore.get_eq]
      exact h.getWithMetadata key
  | getWithMetadata key =>
    refine ⟨?_, h.getWithMetadata key⟩
    simp only [perform, KVStore.getWithMetadata_snd, h.view_eq key]
    exact .getWithMetadata
  | keyExists key =>
    refine ⟨?_, ?_⟩
    · simp only [perform, KVStore.keyExists_eq, KVStore.getWithMetadata_snd]
      rw [← Option.isSome_map (f := KeyMetadata.value), h.view_eq key]
      exact .keyExists
    · simp only [perform, KVStore.keyExists_eq]
      exact h.getWithMetadata key
  | keys =>
    refine ⟨.keys fun k => ?_, h.cleanupExpired⟩
    rw [← h.view_eq k, Option.isSome_map]
    exact List.mem_toFinset.trans (s.mem_keys now k)
  | cleanupExpired => exact ⟨.cleanupExpired, h.cleanupExpired⟩
  | getAllData =>
    refine ⟨?_, h.cleanupExpired⟩
    have hdata : (fun k => ((s.getAllData now).2.get? k).map KVStore.Item.value) = m.view now := by
      funext k
      rw [KVStore.get?_getAllData, ← h.view_eq k, Option.map_map]
      rfl
    simp only [perform, hdata]
    exact .getAllData

theorem answers_meant {now : Time} {s : KVStore} {m : Entries} {cs : List (Time × MapCall)}
    (h : Holds now s m) (hclock : ((now :: cs.map Prod.fst)).Pairwise (· ≤ ·))
    (hpositive : ∀ p ∈ cs, PositiveExpiry p.1 p.2) : Meant m cs (answers s cs) := by
  induction cs generalizing now s m with
  | nil => rfl
  | cons p cs ih =>
    obtain ⟨now', c⟩ := p
    rw [List.map_cons, List.pairwise_cons] at hclock
    have hle : now ≤ now' := hclock.1 now' List.mem_cons_self
    obtain ⟨hmeaning, hholds⟩ :=
      perform_meant (h.mono hle) c (hpositive (now', c) List.mem_cons_self)
    exact ⟨_, _, rfl, hmeaning,
      ih hholds hclock.2 fun p hp => hpositive p (List.mem_cons_of_mem _ hp)⟩

/-- **The store is the map**: for every sequence of calls at times that do not go back, with
    positive expiry times, the found flags, values and key sets answered are those of the map
    that keeps each key's last SET until it is deleted and hides it exactly when the clock is
    past its expiry time. -/
theorem run_answers {cs : List (Time × MapCall)} (hclock : (cs.map Prod.fst).Pairwise (· ≤ ·))
    (hpositive : ∀ p ∈ cs, PositiveExpiry p.1 p.2) :
    Meant (fun _ => none) cs (answers KVStore.empty cs) := by
  cases cs with
  | nil => rfl
  | cons p cs =>
    have hholds : Holds p.1 KVStore.empty fun _ => none :=
      ⟨.refl _ _, fun k r x hr hx => by cases hr⟩
    refine answers_meant hholds ?_ hpositive
    rw [List.map_cons, List.pairwise_cons] at hclock ⊢
    refine ⟨fun t ht => ?_, List.pairwise_cons.mpr hclock⟩
    rcases List.mem_cons.mp ht with rfl | ht
    · exact le_rfl
    · exact hclock.1 t ht

/-- A key is read before and after its expiry time, at which a cleanup removes it. -/
def expiringCalls : List (Time × MapCall) :=
  [(1, .set "a" (.int 1) { ttl := some 5 }), (2, .get "a"), (7, .cleanupExpired), (7, .get "a"),
    (8, .keys)]

theorem run_answers_sample :
    Meant (fun _ => none) expiringCalls (answers KVStore.empty expiringCalls) := by
  refine run_answers (by decide) fun p hp => ?_
  simp only [expiringCalls, List.mem_cons, List.not_mem_nil, or_false] at hp
  rcases hp with rfl | rfl | rfl | rfl | rfl
  · intro x hx
    obtain rfl := Option.some.inj hx
    show (0 : Time) < 1 + ((5 : Int) : Time)
    exact add_pos one_pos (Int.cast_pos.mpr (by decide))
  all_goals trivial

end StoreMap

end MiniDb
