/-
  Recovery from any log file (`node.py`, `_recover_data` with `apply_aof_entry`).

  A damaged line can parse. The entry then carries values of any type into the store, so the
  store of this module holds records of JSON values (`RawStore`) under any hashable key. On
  entries of the declared types it does what `applyAofEntry` does to a typed store
  (`rawApply_typed`), but for one exception: a TTL that no float can hold, added to a float.

  `replay_exact_iff`: recovery applies the well-formed lines and skips the others exactly when no
  line takes another way through: a JSON value that is no object, too deep a nesting, an entry
  with a mistyped field, or such a TTL.
-/
import MiniDb.Node.Recovery
import MiniDb.Storage.AofReplay

namespace MiniDb.ReplayLines

open Lib Lib.Json AofText

/-! ## The store with untyped records -/

/-- A `KeyMetadata` whose fields are what was read. -/
structure RawRecord where
  value : Json
  createdAt : Json
  updatedAt : Json
  expiresAt : Json
  version : Json
  coordinatorId : Json

abbrev RawStore := Dict HashKey RawRecord

/-- `v if v is not None else w` -/
def orElse (v w : Json) : Json :=
  match v with
  | .null => w
  | v => v

/-- `version if version else (existing.version + 1 if existing else 1)` -/
def rawVersion (version : Json) (existing : Option RawRecord) : Except PyError Json :=
  if truthy version then .ok version
  else match existing with
    | some m => m.version.add (.int 1)
    | none => .ok (.int 1)

/-- `KVStore.set`, without a `ttl`. The index by expiry time takes `expires_at` too, which is a
    number here if it is not false. -/
def rawSet (now : Time) (s : RawStore) (r : RawEntry) (expiresAt : Json) :
    Except PyError RawStore := do
  let key ← hashKey r.key
  let existing := s.get? key
  let updated := orElse r.timestamp (.float now)
  let version ← rawVersion r.version existing
  return s.set key
    { value := r.value
      createdAt := orElse r.createdAt ((existing.map RawRecord.createdAt).getD updated)
      updatedAt := updated
      expiresAt := expiresAt
      version := version
      coordinatorId :=
        orElse r.coordinatorId ((existing.map RawRecord.coordinatorId).getD (.str "")) }

/-- The expiry time `apply_aof_entry` gives to a SET. -/
def rawExpiry (r : RawEntry) : Except PyError Json :=
  match r.expiresAt with
  | .null => if truthy r.ttl then r.timestamp.add r.ttl else .ok .null
  | v => .ok v

/-- `expires_at and expires_at <= time.time()` -/
def rawExpired (expiresAt : Json) (now : Time) : Except PyError Bool :=
  if truthy expiresAt then expiresAt.atMost now else .ok false

/-- `apply_aof_entry`; what raises does so before it changes the store. -/
def rawApply (now : Time) (s : RawStore) (r : RawEntry) : Except PyError RawStore :=
  match r.command with
  | .set => do
    let expiresAt ← rawExpiry r
    let expired ← rawExpired expiresAt now
    if expired then .ok s else rawSet now s r expiresAt
  | .delete => do
    let key ← hashKey r.key
    return s.erase key
  | .expire => .ok s

/-- The same as `replay` calls it. -/
def applyRaw (now : Time) (s : RawStore) (r : RawEntry) : RawStore × Option PyError :=
  match rawApply now s r with
  | .ok s' => (s', none)
  | .error x => (s, some x)

/-- Nothing that is raised here is caught by `replay`. -/
def Uncaught {α : Type} (e : Except PyError α) : Prop := ∀ x, e = .error x → caught x = false

theorem uncaught_ok {α : Type} (a : α) : Uncaught (.ok a) := fun _ h => by cases h

theorem uncaught_error {α : Type} {x : PyError} (h : caught x = false) :
    Uncaught (.error x : Except PyError α) := by
  intro y hy
  cases hy
  exact h

theorem Uncaught.bind {α β : Type} {e : Except PyError α} {f : α → Except PyError β}
    (he : Uncaught e) (hf : ∀ a, Uncaught (f a)) : Uncaught (e >>= f) := by
  cases e with
  | ok a => exact hf a
  | error x => exact uncaught_error (he x rfl)

theorem Uncaught.map {α β : Type} {e : Except PyError α} (he : Uncaught e) (f : α → β) :
    Uncaught (e.map f) := by
  cases e with
  | ok a => exact uncaught_ok (f a)
  | error x => exact uncaught_error (he x rfl)

theorem uncaught_asFloat (v : Json) : Uncaught (asFloat v) := by
  unfold asFloat
  split
  · exact uncaught_ok _
  · split
    · split
      · exact uncaught_ok _
      · exact uncaught_error rfl
    · exact uncaught_error rfl

theorem uncaught_add (v w : Json) : Uncaught (v.add w) := by
  unfold add
  split
  · exact uncaught_ok _
  · exact uncaught_ok _
  · exact (uncaught_asFloat _).map _
  · exact (uncaught_asFloat _).map _
  · split
    · exact uncaught_ok _
    · exact uncaught_error rfl

theorem uncaught_atMost (v : Json) (now : Time) : Uncaught (v.atMost now) := by
  unfold atMost
  split
  · exact uncaught_ok _
  · exact uncaught_error rfl

theorem uncaught_hashKey (v : Json) : Uncaught (hashKey v) := by
  cases v <;> first | exact uncaught_ok _ | exact uncaught_error rfl

theorem uncaught_rawExpiry (r : RawEntry) : Uncaught (rawExpiry r) := by
  unfold rawExpiry
  split
  · split
    · exact uncaught_add _ _
    · exact uncaught_ok _
  · exact uncaught_ok _

theorem uncaught_rawVersion (version : Json) (existing : Option RawRecord) :
    Uncaught (rawVersion version existing) := by
  unfold rawVersion
  split
  · exact uncaught_ok _
  · split
    · exact uncaught_add _ _
    · exact uncaught_ok _

theorem uncaught_rawExpired (expiresAt : Json) (now : Time) :
    Uncaught (rawExpired expiresAt now) := by
  unfold rawExpired
  split
  · exact uncaught_atMost _ _
  · exact uncaught_ok _

theorem uncaught_rawSet (now : Time) (s : RawStore) (r : RawEntry) (expiresAt : Json) :
    Uncaught (rawSet now s r expiresAt) := by
  unfold rawSet
  exact (uncaught_hashKey _).bind fun _ => (uncaught_rawVersion _ _).bind fun _ => uncaught_ok _

/-- None of the exceptions of `apply_aof_entry` is caught. -/
theorem uncaught_rawApply (now : Time) (s : RawStore) (r : RawEntry) :
    Uncaught (rawApply now s r) := by
  unfold rawApply
  split
  · refine (uncaught_rawExpiry r).bind fun _ => (uncaught_rawExpired _ _).bind fun _ => ?_
    split
    · exact uncaught_ok _
    · exact uncaught_rawSet _ _ _ _
  · exact (uncaught_hashKey _).bind fun _ => uncaught_ok _
  · exact uncaught_ok _

/-! ## Typed stores -/

/-- The field holds an optional time. -/
def IsTime? (v : Json) (t : Option Time) : Prop :=
  match t with
  | some t => IsNumber v t
  | none => v = .null

/-- The record has the types of `KeyMetadata` and these values. -/
structure RecordOf (m : RawRecord) (k : KeyMetadata) : Prop where
  value : m.value = k.value
  createdAt : IsNumber m.createdAt k.createdAt
  updatedAt : IsNumber m.updatedAt k.updatedAt
  expiresAt : IsTime? m.expiresAt k.expiresAt
  version : m.version = .int k.version
  coordinatorId : m.coordinatorId = .str k.coordinatorId

/-- The untyped store holds what the typed one does. -/
def StoreOf (raw : RawStore) (s : KVStore) : Prop :=
  ∀ key : String, Option.Rel RecordOf (raw.get? (.str key)) (s.get? key)

def rawRecordOf (k : KeyMetadata) : RawRecord :=
  { value := k.value, createdAt := .float k.createdAt, updatedAt := .float k.updatedAt,
    expiresAt := (k.expiresAt.map .float).getD .null, version := .int k.version,
    coordinatorId := .str k.coordinatorId }

theorem str_injective : Function.Injective HashKey.str := fun _ _ h => HashKey.str.inj h

/-- A typed store, as the untyped one it is. -/
def rawStore (s : KVStore) : RawStore :=
  s.store.mapItems .str str_injective rawRecordOf

theorem recordOf_rawRecordOf (k : KeyMetadata) : RecordOf (rawRecordOf k) k := by
  refine ⟨rfl, .inl rfl, .inl rfl, ?_, rfl, rfl⟩
  unfold rawRecordOf IsTime?
  cases k.expiresAt with
  | none => rfl
  | some t => exact .inl rfl

theorem storeOf_rawStore (s : KVStore) : StoreOf (rawStore s) s := by
  intro key
  rw [rawStore, Dict.get?_mapItems]
  cases h : s.get? key with
  | none =>
    rw [KVStore.get?] at h
    rw [h]
    exact .none
  | some k =>
    rw [KVStore.get?] at h
    rw [h]
    exact .some (recordOf_rawRecordOf k)

/-! ## Typed entries -/

/-- The entry has the declared types and these values. -/
structure EntryOf (r : RawEntry) (e : AofEntry) : Prop where
  timestamp : IsNumber r.timestamp e.timestamp
  command : r.command = e.command
  key : r.key = .str e.key
  value : r.value = e.value
  ttl : r.ttl = (e.ttl.map .int).getD .null
  expiresAt : IsTime? r.expiresAt e.expiresAt
  version : r.version = .int e.version
  createdAt : IsTime? r.createdAt e.createdAt
  coordinatorId : r.coordinatorId = .str e.coordinatorId

theorem asTime_ok {v : Json} {t : Time} (h : asTime v = .ok t) : IsNumber v t := by
  cases v <;> cases h
  · exact .inr ⟨_, rfl, rfl⟩
  · exact .inl rfl

theorem asInt_ok {v : Json} {n : Int} (h : asInt v = .ok n) : v = .int n := by
  cases v <;> cases h
  rfl

theorem asString_ok {v : Json} {s : String} (h : asString v = .ok s) : v = .str s := by
  cases v <;> cases h
  rfl

theorem optional_ok {α : Type} {as : Json → Except LineError α} {v : Json} {x : Option α}
    (h : optional as (some v) = .ok x) : v = .null ∧ x = none ∨ ∃ a, as v = .ok a ∧ x = some a := by
  rw [AofText.optional.eq_def] at h
  split at h
  · contradiction
  · rename_i hv
    cases h
    exact .inl ⟨Option.some.inj hv, rfl⟩
  · rename_i w hv
    cases Option.some.inj hv
    cases hw : as v with
    | error err =>
      rw [hw] at h
      cases h
    | ok a =>
      rw [hw] at h
      cases h
      exact .inr ⟨a, rfl, rfl⟩

theorem optional_asTime_ok {v : Json} {t : Option Time} (h : optional asTime (some v) = .ok t) :
    IsTime? v t := by
  rcases optional_ok h with ⟨rfl, rfl⟩ | ⟨a, ha, rfl⟩
  · rfl
  · exact asTime_ok ha

theorem entryOf_typed {r : RawEntry} {e : AofEntry} (h : typed r = .ok e) : EntryOf r e := by
  unfold typed at h
  obtain ⟨ts, hts, h⟩ := of_bind_ok h
  obtain ⟨key, hkey, h⟩ := of_bind_ok h
  obtain ⟨ttl, httl, h⟩ := of_bind_ok h
  obtain ⟨exp, hexp, h⟩ := of_bind_ok h
  obtain ⟨ver, hver, h⟩ := of_bind_ok h
  obtain ⟨cts, hcts, h⟩ := of_bind_ok h
  obtain ⟨coord, hcoord, h⟩ := of_bind_ok h
  cases h
  refine ⟨asTime_ok hts, rfl, asString_ok hkey, rfl, ?_, optional_asTime_ok hexp, asInt_ok hver,
    optional_asTime_ok hcts, asString_ok hcoord⟩
  rcases optional_ok httl with ⟨hnull, rfl⟩ | ⟨n, hn, rfl⟩
  · exact hnull
  · exact asInt_ok hn

/-! ## What a typed entry does -/

/-- The sum of time stamp and TTL, which a SET without expiry time is given, overflows. -/
def Overflows (r : RawEntry) : Prop :=
  r.command = .set ∧ r.expiresAt = .null ∧
    ∃ x n, r.timestamp = .float x ∧ r.ttl = .int n ∧ fitsFloat n = false

theorem rawApply_overflow {r : RawEntry} (h : Overflows r) (now : Time) (s : RawStore) :
    rawApply now s r = .error .overflowError := by
  obtain ⟨hc, hexp, x, n, hts, httl, hn⟩ := h
  have hne : n ≠ 0 := by
    rintro rfl
    rw [fitsFloat_zero] at hn
    cases hn
  have hexpiry : rawExpiry r = .error .overflowError := by
    unfold rawExpiry
    rw [hexp, hts, httl]
    simp only [truthy, ne_eq, hne, not_false_eq_true, decide_true, if_true]
    exact add_int_overflow x hn
  unfold rawApply
  rw [hc]
  simp only
  rw [hexpiry]
  rfl

theorem rawExpiry_typed {r : RawEntry} {e : AofEntry} (h : EntryOf r e) (hc : e.command = .set)
    (hfits : ¬Overflows r) : ∃ v, rawExpiry r = .ok v ∧ IsTime? v (replayExpiry e) := by
  have hexp := h.expiresAt
  unfold replayExpiry
  cases hx : e.expiresAt with
  | some t =>
    rw [hx] at hexp
    refine ⟨r.expiresAt, ?_, hexp⟩
    unfold rawExpiry
    split
    · rename_i hnull
      exact absurd hnull hexp.ne_null
    · rfl
  | none =>
    rw [hx] at hexp
    have hnull : r.expiresAt = .null := hexp
    have httl := h.ttl
    unfold rawExpiry
    rw [hnull]
    simp only
    cases ht : e.ttl with
    | none =>
      rw [ht] at httl
      rw [httl]
      exact ⟨.null, rfl, rfl⟩
    | some n =>
      rw [ht] at httl
      simp only [Option.map_some, Option.getD_some] at httl
      rw [httl]
      by_cases hn : n = 0
      · subst hn
        exact ⟨.null, rfl, rfl⟩
      · obtain ⟨w, hw, hnumber⟩ := h.timestamp.add_int (n := n) fun ⟨x, hfloat⟩ => by
          by_contra hover
          exact hfits ⟨h.command.trans hc, hnull, x, n, hfloat, httl, Bool.eq_false_iff.mpr hover⟩
        refine ⟨w, ?_, ?_⟩
        · rw [if_pos (show (Json.int n).truthy = true from decide_eq_true hn)]
          exact hw
        · simp only [if_pos hn]
          exact hnumber

theorem rawExpired_typed {v : Json} {t : Option Time} (h : IsTime? v t) (now : Time) :
    rawExpired v now = .ok (expiredBy t now) := by
  cases t with
  | none =>
    rw [show v = .null from h]
    rfl
  | some t =>
    have hnumber : IsNumber v t := h
    rw [rawExpired, hnumber.truthy, hnumber.atMost, expiredBy]
    by_cases ht : t = 0
    · simp [ht]
    · simp [ht]

theorem orElse_of_ne {v : Json} (h : v ≠ .null) (w : Json) : orElse v w = v := by
  cases v <;> first | rfl | exact absurd rfl h

theorem rawVersion_typed {n : Int} {m : Option RawRecord} {k : Option KeyMetadata}
    (h : Option.Rel RecordOf m k) :
    rawVersion (.int n) m = .ok (.int (if n ≠ 0 then n else setRecord.nextVersion k)) := by
  unfold rawVersion setRecord.nextVersion
  by_cases hn : n = 0
  · rw [if_neg (by simp [truthy, hn]), if_neg (not_not.mpr hn)]
    cases h with
    | none => rfl
    | some h =>
      simp only
      rw [h.version]
      rfl
  · rw [if_pos (by simp [truthy, hn]), if_pos hn]

theorem created_typed {v : Json} {c : Option Time} (hv : IsTime? v c) {m : Option RawRecord}
    {k : Option KeyMetadata} (h : Option.Rel RecordOf m k) {u : Json} {t : Time}
    (hu : IsNumber u t) :
    IsNumber (orElse v ((m.map RawRecord.createdAt).getD u))
      (c.getD (k.elim t KeyMetadata.createdAt)) := by
  cases c with
  | some x =>
    rw [orElse_of_ne (IsNumber.ne_null hv)]
    exact hv
  | none =>
    rw [show v = .null from hv]
    cases h with
    | none => exact hu
    | some h => exact h.createdAt

/-- **The untyped SET refines `KVStore.set`.** -/
theorem rawSet_typed {raw : RawStore} {s : KVStore} (hs : StoreOf raw s) {r : RawEntry}
    {e : AofEntry} (h : EntryOf r e) {v : Json} {t : Option Time} (hv : IsTime? v t) (now : Time) :
    ∃ raw', rawSet now raw r v = .ok raw' ∧ StoreOf raw' (s.set now e.key e.value
      { version := some e.version, expiresAt := t, createdAt := e.createdAt,
        updatedAt := some e.timestamp, coordinatorId := some e.coordinatorId }) := by
  have hkey : hashKey r.key = .ok (.str e.key) := by
    rw [h.key]
    rfl
  have hversion : rawVersion r.version (raw.get? (.str e.key)) =
      .ok (.int (if e.version ≠ 0 then e.version else setRecord.nextVersion (s.get? e.key))) := by
    rw [h.version, rawVersion_typed (hs e.key)]
  unfold rawSet
  rw [hkey]
  change ∃ raw', (rawVersion r.version (raw.get? (.str e.key)) >>= _) = _ ∧ _
  rw [hversion]
  refine ⟨_, rfl, fun key => ?_⟩
  rw [KVStore.get?_set, Dict.get?_set]
  by_cases hk : key = e.key
  · rw [if_pos hk, if_pos (congrArg HashKey.str hk)]
    refine .some ⟨h.value, ?_, ?_, ?_, rfl, ?_⟩
    · rw [orElse_of_ne h.timestamp.ne_null, setRecord_createdAt]
      exact created_typed h.createdAt (hs e.key) h.timestamp
    · rw [orElse_of_ne h.timestamp.ne_null]
      exact h.timestamp
    · cases t <;> exact hv
    · show orElse r.coordinatorId _ = .str e.coordinatorId
      rw [h.coordinatorId]
      rfl
  · rw [if_neg hk, if_neg fun heq => hk (str_injective heq)]
    exact hs key

/-- **On typed entries the untyped store does what the typed one does.** -/
theorem rawApply_typed {raw : RawStore} {s : KVStore} (hs : StoreOf raw s) {r : RawEntry}
    {e : AofEntry} (h : EntryOf r e) (hfits : ¬Overflows r) (now : Time) :
    ∃ raw', rawApply now raw r = .ok raw' ∧ StoreOf raw' (applyAofEntry now s e) := by
  unfold rawApply applyAofEntry
  rw [h.command]
  cases hc : e.command with
  | set =>
    obtain ⟨v, hexpiry, hv⟩ := rawExpiry_typed h hc hfits
    simp only
    rw [hexpiry]
    change ∃ raw', (rawExpired v now >>= _) = _ ∧ _
    rw [rawExpired_typed hv]
    cases hx : expiredBy (replayExpiry e) now with
    | true => exact ⟨raw, rfl, hs⟩
    | false => exact rawSet_typed hs h hv now
  | delete =>
    simp only
    rw [h.key]
    refine ⟨raw.erase (.str e.key), rfl, fun key => ?_⟩
    rw [Dict.get?_erase, KVStore.get?_delete]
    by_cases hk : key = e.key
    · rw [if_pos hk, if_pos (congrArg HashKey.str hk)]
      exact .none
    · rw [if_neg hk, if_neg fun heq => hk (str_injective heq)]
      exact hs key
  | expire => exact ⟨raw, rfl, hs⟩

/-! ## Which files are replayed exactly -/

/-- The entry of a line that parses. -/
def lineEntry (loads : List Char → Loaded) (line : List Char) : Option RawEntry :=
  if strip line = [] then none else (rawFromLine loads (strip line)).toOption

/-- Every field has its declared type. -/
def WellTyped (r : RawEntry) : Prop := (typed r).isOk = true

instance (r : RawEntry) : Decidable (WellTyped r) := inferInstanceAs (Decidable (_ = _))

/-- The lines of the file. -/
def linesOf (file : Option (List Char)) : List (List Char) :=
  match file with
  | none => []
  | some text => text.splitOnP isNewline

/-- The entries of the lines that parse to a well-formed one. -/
def wellFormed (loads : List Char → Loaded) (file : Option (List Char)) : List RawEntry :=
  ((linesOf file).filterMap (lineEntry loads)).filter fun r => WellTyped r

/-- What recovery owes: it does not raise, and calls the function with the entries of the
    well-formed lines and no others, in their order. -/
def ReplaysExactly (loads : List Char → Loaded) (now : Time) (s : KVStore)
    (file : Option (List Char)) : Prop :=
  ∃ run, replayFile loads (applyRaw now) (rawStore s) file = .ok run ∧
    run.calls = wellFormed loads file

/-- A line that is not JSON, an object that is no entry, or a typed entry whose TTL fits. -/
def Regular (loads : List Char → Loaded) (line : List Char) : Prop :=
  strip line = [] ∨
    match loads (strip (strip line)) with
    | .malformed => True
    | .tooDeep => False
    | .value (.obj fields) => ∀ r, rawOfJson (.obj fields) = .ok r → WellTyped r ∧ ¬Overflows r
    | .value _ => False

theorem rawItem_obj (fields : List (String × Json)) (name : String) :
    (∃ v, rawItem (.obj fields) name = .ok v) ∨ rawItem (.obj fields) name = .error .keyError := by
  unfold rawItem
  simp only
  cases field? (.obj fields) name with
  | none => exact .inr rfl
  | some v => exact .inl ⟨v, rfl⟩

theorem commandOfJson_error {v : Json} {x : PyError} (h : commandOfJson v = .error x) :
    x = .valueError := by
  unfold commandOfJson at h
  split at h <;> cases h
  rfl

/-- What an object raises that is no entry is caught. -/
theorem caught_rawOfJson {fields : List (String × Json)} {x : PyError}
    (h : rawOfJson (.obj fields) = .error x) : caught x = true := by
  unfold rawOfJson at h
  rcases rawItem_obj fields "ts" with ⟨ts, hts⟩ | hts
  · rcases rawItem_obj fields "cmd" with ⟨cmd, hcmd⟩ | hcmd
    · rw [hts, hcmd] at h
      change (commandOfJson cmd >>= _) = _ at h
      cases hc : commandOfJson cmd with
      | error y =>
        rw [hc] at h
        cases h
        rw [commandOfJson_error hc]
        rfl
      | ok c =>
        rcases rawItem_obj fields "key" with ⟨key, hkey⟩ | hkey
        · rw [hc, hkey] at h
          cases h
        · rw [hc, hkey] at h
          cases h
          rfl
    · rw [hts, hcmd] at h
      cases h
      rfl
  · rw [hts] at h
    cases h
    rfl

/-- What a line that ends the replay raises is no entry and not caught. -/
theorem not_regular_of_uncaught {e : Except PyError RawEntry} {x : PyError} (he : e = .error x)
    (hx : caught x = false) :
    ¬((∃ x, e = .error x ∧ caught x = true) ∨ ∃ r, e = .ok r ∧ WellTyped r ∧ ¬Overflows r) := by
  subst he
  rintro (⟨y, hy, hcaught⟩ | ⟨r, hr, -⟩)
  · cases hy
    rw [hx] at hcaught
    cases hcaught
  · cases hr

/-- A regular line is blank, raises what is caught, or gives a typed entry whose TTL fits. -/
theorem regular_iff (loads : List Char → Loaded) (line : List Char) :
    Regular loads line ↔ strip line = [] ∨
      (∃ x, rawFromLine loads (strip line) = .error x ∧ caught x = true) ∨
      ∃ r, rawFromLine loads (strip line) = .ok r ∧ WellTyped r ∧ ¬Overflows r := by
  unfold Regular rawFromLine
  refine or_congr_right ?_
  cases loads (strip (strip line)) with
  | malformed => exact iff_of_true trivial (.inl ⟨_, rfl, rfl⟩)
  | tooDeep => exact iff_of_false id (not_regular_of_uncaught rfl rfl)
  | value v =>
    cases v with
    | obj fields =>
      simp only
      constructor
      · intro h
        cases hr : rawOfJson (.obj fields) with
        | error x => exact .inl ⟨x, rfl, caught_rawOfJson hr⟩
        | ok r => exact .inr ⟨r, rfl, h r hr⟩
      · rintro (⟨x, hx, -⟩ | ⟨r, hr, hregular⟩) r' hr'
        · rw [hx] at hr'
          cases hr'
        · rw [hr] at hr'
          cases hr'
          exact hregular
    | null => exact iff_of_false id (not_regular_of_uncaught rfl rfl)
    | bool b => exact iff_of_false id (not_regular_of_uncaught rfl rfl)
    | int n => exact iff_of_false id (not_regular_of_uncaught rfl rfl)
    | float x => exact iff_of_false id (not_regular_of_uncaught rfl rfl)
    | str s => exact iff_of_false id (not_regular_of_uncaught rfl rfl)
    | arr vs => exact iff_of_false id (not_regular_of_uncaught rfl rfl)

section Replay

variable {loads : List Char → Loaded} {now : Time}

/-- Nothing in the line raises, but what is caught. -/
def Passes (loads : List Char → Loaded) (line : List Char) : Prop :=
  strip line = [] ∨ (∃ x, rawFromLine loads (strip line) = .error x ∧ caught x = true) ∨
    ∃ r, rawFromLine loads (strip line) = .ok r ∧ ¬Overflows r

/-- A line that does not end the replay passes, and its entry is handed over. -/
theorem replayLine_ok {line : List Char} {run run' : ReplayRun RawStore}
    (h : replayLine loads (applyRaw now) run line = .ok run') :
    run'.calls = run.calls ++ (lineEntry loads line).toList ∧ Passes loads line := by
  unfold replayLine at h
  unfold lineEntry Passes
  by_cases hblank : strip line = []
  · rw [if_pos hblank] at h ⊢
    cases h
    exact ⟨(List.append_nil _).symm, .inl hblank⟩
  · rw [if_neg hblank] at h ⊢
    cases hr : rawFromLine loads (strip line) with
    | error x =>
      rw [hr] at h
      cases hx : caught x with
      | false =>
        simp only [hx, Bool.false_eq_true, if_false] at h
        cases h
      | true =>
        simp only [hx, if_true] at h
        cases h
        exact ⟨(List.append_nil _).symm, .inr (.inl ⟨x, rfl, hx⟩)⟩
    | ok r =>
      rw [hr] at h
      simp only [applyRaw] at h
      cases happly : rawApply now run.store r with
      | ok s =>
        rw [happly] at h
        cases h
        refine ⟨rfl, .inr (.inr ⟨r, rfl, fun hover => ?_⟩)⟩
        rw [rawApply_overflow hover] at happly
        cases happly
      | error x =>
        rw [happly] at h
        simp only [uncaught_rawApply now run.store r x happly, Bool.false_eq_true, if_false] at h
        cases h

/-- A replay that goes through has handed over every entry. -/
theorem replayRawLines_ok {lines : List (List Char)} {run run' : ReplayRun RawStore}
    (h : replayRawLines loads (applyRaw now) lines run = .ok run') :
    run'.calls = run.calls ++ lines.filterMap (lineEntry loads) ∧
      ∀ line ∈ lines, Passes loads line := by
  induction lines generalizing run with
  | nil =>
    cases h
    exact ⟨(List.append_nil _).symm, fun _ h => by cases h⟩
  | cons line lines ih =>
    unfold replayRawLines at h
    obtain ⟨run₁, hline, hrest⟩ := of_bind_ok h
    obtain ⟨hcalls, hregular⟩ := replayLine_ok hline
    obtain ⟨hcalls', hregular'⟩ := ih hrest
    refine ⟨?_, List.forall_mem_cons.mpr ⟨hregular, hregular'⟩⟩
    rw [hcalls', hcalls, List.append_assoc, List.filterMap_cons]
    cases lineEntry loads line <;> rfl

theorem exists_of_isOk {α ε : Type} {e : Except ε α} (h : e.isOk = true) : ∃ a, e = .ok a := by
  cases e with
  | ok a => exact ⟨a, rfl⟩
  | error x => cases h

theorem lineEntry_eq_some {line : List Char} {r : RawEntry} :
    lineEntry loads line = some r ↔
      strip line ≠ [] ∧ rawFromLine loads (strip line) = .ok r := by
  unfold lineEntry
  by_cases hblank : strip line = []
  · simp [hblank]
  · rw [if_neg hblank]
    cases rawFromLine loads (strip line) with
    | ok r' => simp [Except.toOption, hblank]
    | error x => simp [Except.toOption]

/-- The typed entry of a line. -/
def typedEntry (loads : List Char → Loaded) (line : List Char) : Option AofEntry :=
  (lineEntry loads line).bind fun r => (typed r).toOption

theorem typedEntry_of_none {line : List Char} (h : lineEntry loads line = none) :
    typedEntry loads line = none := by
  rw [typedEntry, h]
  rfl

/-- A regular line does to the store what its typed entry does, if it has one. -/
theorem replayLine_regular (now : Time) {line : List Char} (h : Regular loads line)
    {run : ReplayRun RawStore} {s : KVStore} (hs : StoreOf run.store s) :
    ∃ run', replayLine loads (applyRaw now) run line = .ok run' ∧
      StoreOf run'.store (replayLog now s (typedEntry loads line).toList) := by
  by_cases hblank : strip line = []
  · refine ⟨run, replayLine_blank hblank run, ?_⟩
    rwa [typedEntry_of_none (if_pos hblank)]
  · rcases (regular_iff loads line).mp h with h | ⟨x, hx, hcaught⟩ | ⟨r, hr, htyped, hfits⟩
    · exact absurd h hblank
    · refine ⟨run, ?_, ?_⟩
      · rw [replayLine_error hblank hx, if_pos hcaught]
      · rwa [typedEntry_of_none (by rw [lineEntry, if_neg hblank, hx]; rfl)]
    · obtain ⟨e, he⟩ := exists_of_isOk htyped
      obtain ⟨raw, hraw, hs'⟩ := rawApply_typed hs (entryOf_typed he) hfits now
      have happly : applyRaw now run.store r = (raw, none) := by rw [applyRaw, hraw]
      have hnone : ∀ x, (applyRaw now run.store r).2 = some x → caught x = true := by
        rw [happly]
        exact fun x hx => by cases hx
      obtain ⟨n, hline⟩ := replayLine_entry hblank hr run hnone
      rw [happly] at hline
      have hentry : typedEntry loads line = some e := by
        rw [typedEntry, lineEntry_eq_some.mpr ⟨hblank, hr⟩, Option.bind_some, he]
        rfl
      refine ⟨_, hline, ?_⟩
      rw [hentry]
      exact hs'

/-- **Regular lines are replayed to the end**, to the store that the typed recovery makes of
    their entries. -/
theorem replayRawLines_regular (now : Time) {lines : List (List Char)}
    (h : ∀ line ∈ lines, Regular loads line) {run : ReplayRun RawStore} {s : KVStore}
    (hs : StoreOf run.store s) :
    ∃ run', replayRawLines loads (applyRaw now) lines run = .ok run' ∧
      StoreOf run'.store (replayLog now s (lines.filterMap (typedEntry loads))) := by
  induction lines generalizing run s with
  | nil => exact ⟨run, rfl, hs⟩
  | cons line lines ih =>
    obtain ⟨run₁, hline, hs₁⟩ := replayLine_regular now (h line List.mem_cons_self) hs
    obtain ⟨run', hrest, hs'⟩ := ih (fun l hl => h l (List.mem_cons_of_mem line hl)) hs₁
    refine ⟨run', ?_, ?_⟩
    · rw [replayRawLines, hline]
      exact hrest
    · rw [List.filterMap_cons]
      cases hentry : typedEntry loads line with
      | none =>
        rw [hentry] at hs'
        exact hs'
      | some e =>
        rw [hentry] at hs'
        exact hs'

end Replay

/-- **Exactly when recovery replays a file exactly**: for every content of the log, every typed
    store and every `json.loads`, if and only if all lines are regular. -/
theorem replay_exact_iff (loads : List Char → Loaded) (now : Time) (s : KVStore)
    (file : Option (List Char)) :
    ReplaysExactly loads now s file ↔ ∀ line ∈ linesOf file, Regular loads line := by
  have hfile : replayFile loads (applyRaw now) (rawStore s) file =
      replayRawLines loads (applyRaw now) (linesOf file) ⟨rawStore s, [], 0⟩ := by
    cases file <;> rfl
  unfold ReplaysExactly wellFormed
  rw [hfile]
  constructor
  · rintro ⟨run, hrun, hcalls⟩ line hline
    obtain ⟨hall, hlines⟩ := replayRawLines_ok hrun
    rw [List.nil_append] at hall
    rw [regular_iff]
    rcases hlines line hline with hblank | hcaught | ⟨r, hr, hfits⟩
    · exact .inl hblank
    · exact .inr (.inl hcaught)
    · by_cases hblank : strip line = []
      · exact .inl hblank
      · have hmem : r ∈ (linesOf file).filterMap (lineEntry loads) :=
          List.mem_filterMap.mpr ⟨line, hline, lineEntry_eq_some.mpr ⟨hblank, hr⟩⟩
        have htyped := List.filter_eq_self.mp (hcalls.symm.trans hall) r hmem
        exact .inr (.inr ⟨r, hr, of_decide_eq_true htyped, hfits⟩)
  · intro h
    have hstart : StoreOf (⟨rawStore s, [], 0⟩ : ReplayRun RawStore).store s := storeOf_rawStore s
    obtain ⟨run, hrun, -⟩ := replayRawLines_regular now h hstart
    refine ⟨run, hrun, ?_⟩
    rw [(replayRawLines_ok hrun).1, List.nil_append, eq_comm, List.filter_eq_self]
    intro r hr
    obtain ⟨line, hline, hentry⟩ := List.mem_filterMap.mp hr
    obtain ⟨hne, hfrom⟩ := lineEntry_eq_some.mp hentry
    rcases (regular_iff loads line).mp (h line hline) with
      hblank | ⟨x, hx, -⟩ | ⟨r', hr', htyped, -⟩
    · exact absurd hblank hne
    · rw [hfrom] at hx
      cases hx
    · rw [hfrom] at hr'
      cases hr'
      exact decide_eq_true htyped

/-- The line `[]` is JSON, and asking it for "ts" raises what is not caught: the SET logged after
    it is not applied, and neither is anything else. -/
theorem array_line_aborts :
    replayFile (jsonLoads wholeFloats) (applyRaw 1) (rawStore KVStore.empty)
        (some ('[' :: ']' :: '\n' :: render wholeFloats [firstEntry])) = .error .typeError ∧
      ¬ReplaysExactly (jsonLoads wholeFloats) 1 KVStore.empty
        (some ('[' :: ']' :: '\n' :: render wholeFloats [firstEntry])) := by
  have hraise : replayFile (jsonLoads wholeFloats) (applyRaw 1) (rawStore KVStore.empty)
      (some ('[' :: ']' :: '\n' :: render wholeFloats [firstEntry])) = .error .typeError := rfl
  refine ⟨hraise, ?_⟩
  rintro ⟨run, hrun, -⟩
  rw [hraise] at hrun
  cases hrun

end MiniDb.ReplayLines
