/-
  `__REPLICA_SET`, `__IMPORT_KEYS` and repair data as one merge.

  Each of the three parses its own arguments, with its own defaults, and then stores a record
  unless the one it finds comes after it. For updates that name all their fields, with a
  version and times that count as given (not 0), the three do the same thing to a record
  (`deliver_eq`): they keep the newest. So a collection of such updates leaves the newest of
  each key, whatever the order, the grouping and the repetitions in which they arrive.
-/
import MiniDb.Lib.Newest
import MiniDb.Node.Replica

namespace MiniDb

open Lib

namespace Merge

open Replica

/-- The three ways in which an update arrives; an import brings several. -/
inductive Delivery where
  | replicaSet (u : Versioned)
  | importKeys (payload : Dict String Versioned)
  | repair (u : Versioned)

namespace Delivery

/-- The arguments of the handlers. -/
def toUpdate (now : Time) : Delivery → Update
  | .replicaSet u => .replicaSet now (some
      { key := u.key, value := u.value, version := some u.version, expiresAt := u.expiresAt
        times := some (u.updatedAt, u.createdAt), coordinatorId := some u.coordinatorId })
  | .importKeys payload => .importKeys now (payload.mapVals fun u =>
      { value := u.value, version := u.version, updatedAt := some u.updatedAt
        createdAt := some u.createdAt, expiresAt := u.expiresAt
        coordinatorId := some u.coordinatorId })
  | .repair u => .repair now u.key u.value u.version
      { updatedAt := some u.updatedAt, createdAt := some u.createdAt, expiresAt := u.expiresAt
        coordinatorId := some u.coordinatorId }

/-- The updates that a delivery brings. -/
def carries : Delivery → List Versioned
  | .replicaSet u => [u]
  | .importKeys payload => payload.items.map fun p => { p.2 with key := p.1 }
  | .repair u => [u]

end Delivery

/-- An update with all fields given and no expiry. -/
structure Given (u : Versioned) : Prop where
  version : 1 ≤ u.version
  updatedAt : u.updatedAt ≠ 0
  createdAt : u.createdAt ≠ 0
  expiresAt : u.expiresAt = none

/-- The record of an update. -/
def recordOf (u : Versioned) : KeyMetadata :=
  { value := u.value, createdAt := u.createdAt, updatedAt := u.updatedAt, expiresAt := u.expiresAt
    version := u.version, coordinatorId := u.coordinatorId }

/-- No stored record has an expiry. -/
def NoExpiry (n : Node) : Prop := ∀ k m, n.store.get? k = some m → m.expiresAt = none

/-- The existing record of the key, and those of the updates. -/
def candidates (n : Node) (us : List Versioned) (k : String) : Set KeyMetadata :=
  {m | n.store.get? k = some m ∨ ∃ u ∈ us, u.key = k ∧ m = recordOf u}

def deliver (n : Node) (d : Time × Delivery) : Node := update n (d.2.toUpdate d.1)

/-! ## One update -/

/-- What storing an update makes of the record of its key. -/
def afterStore (now : Time) (u : Versioned) (b : Option KeyMetadata) : Option KeyMetadata :=
  let current := b.filter fun m => !expiredBefore m.expiresAt now
  if current.any fun m => u.sortKey < m.sortKey then current
  else some (setRecord now current u.value u.setArgs)

theorem get?_storeUnlessOlder (n : Node) (now : Time) (u : Versioned) (k : String) :
    (n.storeUnlessOlder now u).1.store.get? k =
      if k = u.key then afterStore now u (n.store.get? k) else n.store.get? k := by
  have hread := n.store.get?_getWithMetadata now u.key
  have hfound := n.store.getWithMetadata_snd now u.key
  unfold Node.storeUnlessOlder afterStore
  generalize n.store.getWithMetadata now u.key = read at hread hfound ⊢
  obtain ⟨s, current⟩ := read
  dsimp only at hread hfound ⊢
  by_cases holder : current.any fun m => u.sortKey < m.sortKey
  · rw [if_pos holder]
    by_cases hk : k = u.key
    · subst hk
      rw [if_pos rfl, ← hfound, if_pos holder, hread, if_pos rfl]
    · rw [if_neg hk, hread, if_neg hk]
  · rw [if_neg holder]
    by_cases hk : k = u.key
    · subst hk
      rw [if_pos rfl, ← hfound, if_neg holder, KVStore.get?_set, if_pos rfl, hread, if_pos rfl]
    · rw [if_neg hk, KVStore.get?_set, if_neg hk, hread, if_neg hk]

/-- Storing an update with a version keeps the newer record. -/
theorem afterStore_eq (now : Time) {u : Versioned} (hu : u.version ≠ 0) (b : Option KeyMetadata) :
    afterStore now u b =
      keepNewer KeyMetadata.sortKey (b.filter fun m => !expiredBefore m.expiresAt now)
        (recordOf u) := by
  unfold afterStore
  dsimp only
  generalize b.filter (fun m => !expiredBefore m.expiresAt now) = current
  have hrecord : setRecord now current u.value u.setArgs = recordOf u :=
    setRecord_of_given now current u.value hu _ _ _ _
  by_cases holder : ∃ m, current = some m ∧ u.sortKey < m.sortKey
  · obtain ⟨m, hm, hlt⟩ := holder
    rw [keepNewer_of_older hm hlt, if_pos (by simpa [hm] using hlt)]
  · rw [if_neg (by simpa [Option.any_eq_true] using holder), hrecord,
      keepNewer_of_current fun m hm hlt => holder ⟨m, hm, hlt⟩]

theorem afterStore_of_noExpiry (now : Time) {u : Versioned} (hu : u.version ≠ 0)
    {b : Option KeyMetadata} (hb : ∀ m, b = some m → m.expiresAt = none) :
    afterStore now u b = keepNewer KeyMetadata.sortKey b (recordOf u) := by
  rw [afterStore_eq now hu]
  cases b with
  | none => rfl
  | some m => rw [Option.filter_some, hb m rfl, expiredBefore, Bool.not_false, if_pos rfl]

theorem Given.version_ne {u : Versioned} (hu : Given u) : u.version ≠ 0 := by
  have := hu.version
  omega

theorem noExpiry_storeUnlessOlder {n : Node} (hn : NoExpiry n) (now : Time) {u : Versioned}
    (hu : u.expiresAt = none) : NoExpiry (n.storeUnlessOlder now u).1 := by
  intro k m hm
  rw [get?_storeUnlessOlder] at hm
  split at hm
  · unfold afterStore at hm
    dsimp only at hm
    split at hm
    · exact hn k m (Option.filter_eq_some_iff.mp hm).1
    · obtain rfl := Option.some.inj hm
      simp [setRecord, Versioned.setArgs, hu]
  · exact hn k m hm

/-! ## Deliveries -/

/-- What each of the handlers does with the updates it is given. -/
theorem deliver_eq (n : Node) (now : Time) {d : Delivery} (hd : ∀ u ∈ d.carries, Given u) :
    deliver n (now, d) = d.carries.foldl (fun n u => (n.storeUnlessOlder now u).1) n := by
  cases d with
  | replicaSet u => rfl
  | importKeys payload =>
    simp only [deliver, Delivery.toUpdate, update, Node.importKeys, Dict.mapVals, Delivery.carries,
      List.foldl_map]
    refine List.foldl_ext _ _ n fun n' p hp => ?_
    have hgiven := hd { p.2 with key := p.1 } (List.mem_map.mpr ⟨p, hp, rfl⟩)
    have hupdated : p.2.updatedAt ≠ 0 := hgiven.updatedAt
    have hcreated : p.2.createdAt ≠ 0 := hgiven.createdAt
    simp [Node.importItem, Node.importRecord, orElse, hupdated, hcreated]
  | repair u =>
    have hgiven := hd u (List.mem_singleton.mpr rfl)
    simp only [deliver, Delivery.toUpdate, update, Node.applyRepairData, orElse, hgiven.updatedAt,
      hgiven.createdAt, ne_eq, not_false_eq_true, if_true, Delivery.carries, List.foldl_cons,
      List.foldl_nil, Option.getD_some]

/-- The updates one after the other. -/
theorem isNewest_foldl {n : Node} (hn : NoExpiry n) (now : Time) (us : List Versioned)
    (hus : ∀ u ∈ us, Given u) {p : String → Set KeyMetadata}
    (hp : ∀ k, IsNewest KeyMetadata.sortKey (p k) (n.store.get? k)) :
    NoExpiry (us.foldl (fun n u => (n.storeUnlessOlder now u).1) n) ∧
      ∀ k, IsNewest KeyMetadata.sortKey {m | m ∈ p k ∨ ∃ u ∈ us, u.key = k ∧ m = recordOf u}
        ((us.foldl (fun n u => (n.storeUnlessOlder now u).1) n).store.get? k) := by
  induction us generalizing n p with
  | nil =>
    refine ⟨hn, fun k => (hp k).congr fun c => ?_⟩
    simp
  | cons u us ih =>
    have hu := hus u List.mem_cons_self
    have hnext : ∀ k, IsNewest KeyMetadata.sortKey {m | m ∈ p k ∨ (u.key = k ∧ m = recordOf u)}
        ((n.storeUnlessOlder now u).1.store.get? k) := by
      intro k
      rw [get?_storeUnlessOlder, afterStore_of_noExpiry now hu.version_ne (hn k)]
      by_cases hk : k = u.key
      · rw [if_pos hk]
        refine ((hp k).keepNewer (recordOf u)).congr fun c => ?_
        simp [hk.symm]
      · rw [if_neg hk]
        refine (hp k).congr fun c => ?_
        simp [Ne.symm hk]
    obtain ⟨hplain, hnewest⟩ := ih (noExpiry_storeUnlessOlder hn now hu.expiresAt)
      (fun v hv => hus v (List.mem_cons_of_mem u hv)) hnext
    refine ⟨hplain, fun k => (hnewest k).congr fun c => ?_⟩
    simp only [Set.mem_ofPred_eq, List.mem_cons, or_and_right, exists_or, exists_eq_left, or_assoc]

/-- The deliveries one after the other. -/
theorem isNewest_deliveries {n : Node} (hn : NoExpiry n) (ds : List (Time × Delivery))
    (hds : ∀ d ∈ ds, ∀ u ∈ d.2.carries, Given u) {p : String → Set KeyMetadata}
    (hp : ∀ k, IsNewest KeyMetadata.sortKey (p k) (n.store.get? k)) (k : String) :
    IsNewest KeyMetadata.sortKey
      {m | m ∈ p k ∨ ∃ d ∈ ds, ∃ u ∈ d.2.carries, u.key = k ∧ m = recordOf u}
      ((ds.foldl deliver n).store.get? k) := by
  induction ds generalizing n p with
  | nil =>
    refine (hp k).congr fun c => ?_
    simp
  | cons d ds ih =>
    have hd := hds d List.mem_cons_self
    obtain ⟨hplain, hnewest⟩ := isNewest_foldl hn d.1 d.2.carries hd hp
    rw [← deliver_eq n d.1 hd] at hplain hnewest
    refine (ih hplain (fun e he => hds e (List.mem_cons_of_mem d he)) hnewest).congr fun c => ?_
    simp only [Set.mem_ofPred_eq, List.mem_cons, or_and_right, exists_or, exists_eq_left, or_assoc]

/-- **The three paths are one merge**: a collection of updates, each delivered at least once, in
    any order, by any of the paths and in any batches, leaves under each key exactly the newest
    of the existing record and the updates. -/
theorem deliveries_keep_newest {n : Node} {us : List Versioned} {ds : List (Time × Delivery)}
    (hn : NoExpiry n) (hus : ∀ u ∈ us, Given u)
    (hsame : ∀ k, Set.InjOn KeyMetadata.sortKey (candidates n us k))
    (hds : ∀ u, u ∈ us ↔ ∃ d ∈ ds, u ∈ d.2.carries) (k : String) (m : KeyMetadata) :
    (ds.foldl deliver n).store.get? k = some m ↔
      m ∈ candidates n us k ∧ ∀ c ∈ candidates n us k, c.sortKey ≤ m.sortKey := by
  have hgiven : ∀ d ∈ ds, ∀ u ∈ d.2.carries, Given u := fun d hd u hu =>
    hus u ((hds u).mpr ⟨d, hd, hu⟩)
  have hnewest := isNewest_deliveries hn ds hgiven (p := fun k => {m | n.store.get? k = some m})
    (fun k => isNewest_self _) k
  refine (hnewest.congr (q := candidates n us k) fun c => ?_).eq_some_iff (hsame k) m
  simp only [candidates, Set.mem_ofPred_eq, hds]
  refine or_congr Iff.rfl ⟨?_, ?_⟩
  · rintro ⟨d, hd, u, hu, h⟩
    exact ⟨u, ⟨d, hd, hu⟩, h⟩
  · rintro ⟨u, ⟨d, hd, hu⟩, h⟩
    exact ⟨d, hd, u, hu, h⟩

/-! ### Two updates of one key, the newer one first -/

def sampleUpdate (version : Int) : Versioned :=
  { key := "a", value := .int version, version := version, expiresAt := none, createdAt := 1
    updatedAt := 5, coordinatorId := "n1" }

theorem given_sampleUpdate {version : Int} (h : 1 ≤ version) : Given (sampleUpdate version) :=
  ⟨h, OfNat.ofNat_ne_zero 5, one_ne_zero, rfl⟩

def sampleDeliveries : List (Time × Delivery) :=
  [(1, .repair (sampleUpdate 2)), (2, .replicaSet (sampleUpdate 1)),
    (3, .importKeys ⟨[("a", sampleUpdate 2)], by simp⟩)]

theorem deliveries_keep_newest_sample :
    (sampleDeliveries.foldl deliver sampleNode).store.get? "a" = some (recordOf (sampleUpdate 2)) ↔
      recordOf (sampleUpdate 2) ∈ candidates sampleNode [sampleUpdate 1, sampleUpdate 2] "a" ∧
        ∀ c ∈ candidates sampleNode [sampleUpdate 1, sampleUpdate 2] "a",
          c.sortKey ≤ (recordOf (sampleUpdate 2)).sortKey := by
  refine deliveries_keep_newest (fun k m h => by cases h) ?_ ?_ ?_ "a" _
  · intro u hu
    simp only [List.mem_cons, List.not_mem_nil, or_false] at hu
    rcases hu with rfl | rfl
    · exact given_sampleUpdate (le_refl 1)
    · exact given_sampleUpdate one_le_two
  · have hversion : ∀ k, ∀ c ∈ candidates sampleNode [sampleUpdate 1, sampleUpdate 2] k,
        c = recordOf (sampleUpdate c.version) := by
      rintro k c (h | ⟨u, hu, -, rfl⟩)
      · cases h
      · simp only [List.mem_cons, List.not_mem_nil, or_false] at hu
        rcases hu with rfl | rfl
        · rfl
        · rfl
    intro k c hc d hd hrank
    have heq : c.version = d.version := congrArg (fun x => (ofLex x).1) hrank
    rw [hversion k c hc, hversion k d hd, heq]
  · intro u
    simp only [sampleDeliveries, List.mem_cons, List.not_mem_nil, or_false, exists_eq_or_imp,
      exists_eq_left, Delivery.carries, List.map_cons, List.map_nil]
    constructor
    · rintro (rfl | rfl)
      · exact .inr (.inl rfl)
      · exact .inl rfl
    · rintro (rfl | rfl | rfl)
      · exact .inr rfl
      · exact .inl rfl
      · exact .inr rfl

end Merge

end MiniDb
