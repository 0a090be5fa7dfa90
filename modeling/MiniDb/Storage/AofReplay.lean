/-
  `replay` with the function it hands the entries to (`storage/aof.py`, `from_line`, `replay`,
  `append`).

  `from_line` checks no types: an entry is the JSON values of its fields (`RawEntry`), of which
  `typed` says whether they are what the dataclass declares. `replay` catches three kinds of
  exception, of `from_line` and of the function alike; all others end it.

  `json.loads` is a parameter: a text can be too deep for it, and which numbers it takes
  depends on the interpreter. For the reader of `Lib.Json`, `replay_appended` says that a file made
  by appending is replayed as the entries appended.
-/
import MiniDb.Lib.PyJson
import MiniDb.Storage.TornLog

namespace MiniDb.AofText

open Lib Lib.Json

/-! ## Raw entries -/

/-- The outcome of `json.loads`: a value, a `JSONDecodeError` or other `ValueError`, or a
    `RecursionError`. -/
inductive Loaded where
  | value (v : Json)
  | malformed
  | tooDeep

/-- An `AOFEntry` as `from_line` builds it. -/
structure RawEntry where
  timestamp : Json
  command : AofCommand
  key : Json
  value : Json
  ttl : Json
  expiresAt : Json
  version : Json
  createdAt : Json
  coordinatorId : Json

/-- `data[name]` -/
def rawItem (data : Json) (name : String) : Except PyError Json :=
  match data with
  | .obj fields => match field? (.obj fields) name with
    | some v => .ok v
    | none => .error .keyError
  | _ => .error .typeError

/-- `AOFCommand(v)` -/
def commandOfJson (v : Json) : Except PyError AofCommand :=
  match v with
  | .str "SET" => .ok .set
  | .str "DELETE" => .ok .delete
  | .str "EXPIRE" => .ok .expire
  | _ => .error .valueError

/-- `data.get(name, default)` -/
def rawGet (data : Json) (name : String) (default : Json) : Json :=
  (data.field? name).getD default

def rawOfJson (data : Json) : Except PyError RawEntry := do
  let ts ← rawItem data "ts"
  let cmd ← commandOfJson (← rawItem data "cmd")
  let key ← rawItem data "key"
  return { timestamp := ts, command := cmd, key := key, value := rawGet data "val" .null,
           ttl := rawGet data "ttl" .null, expiresAt := rawGet data "exp" .null,
           version := rawGet data "ver" (.int 1), createdAt := rawGet data "cts" .null,
           coordinatorId := rawGet data "coord" (.str "") }

/-- `from_line` -/
def rawFromLine (loads : List Char → Loaded) (line : List Char) : Except PyError RawEntry :=
  match loads (strip line) with
  | .value data => rawOfJson data
  | .malformed => .error .jsonDecodeError
  | .tooDeep => .error .recursionError

/-- The entry, if every field has its declared type. -/
def typed (r : RawEntry) : Except LineError AofEntry := do
  let ts ← asTime r.timestamp
  let key ← asString r.key
  let ttl ← optional asInt (some r.ttl)
  let exp ← optional asTime (some r.expiresAt)
  let ver ← asInt r.version
  let cts ← optional asTime (some r.createdAt)
  let coord ← asString r.coordinatorId
  return { timestamp := ts, command := r.command, key := key, value := r.value, ttl := ttl,
           expiresAt := exp, version := ver, createdAt := cts, coordinatorId := coord }

/-- The fields of an entry as JSON values. -/
def rawEntryOf (e : AofEntry) : RawEntry :=
  { timestamp := .float e.timestamp, command := e.command, key := .str e.key, value := e.value,
    ttl := (e.ttl.map .int).getD .null, expiresAt := (e.expiresAt.map .float).getD .null,
    version := .int e.version, createdAt := (e.createdAt.map .float).getD .null,
    coordinatorId := .str e.coordinatorId }

theorem item_eq {fields : List (String × Json)} {name : String} {v : Json}
    (h : rawItem (.obj fields) name = .ok v) : item (.obj fields) name = .ok v := by
  unfold rawItem at h
  unfold item
  simp only at h ⊢
  cases hf : field? (.obj fields) name with
  | none =>
    rw [hf] at h
    cases h
  | some w =>
    rw [hf] at h
    cases h
    rfl

theorem commandOfJson_ok {v : Json} {c : AofCommand} (h : commandOfJson v = .ok c) :
    v = .str c.text := by
  unfold commandOfJson at h
  split at h <;> cases h <;> rfl

theorem optional_getD {α : Type} (as : Json → Except LineError α) (v : Option Json) :
    optional as v = optional as (some (v.getD .null)) := by
  cases v <;> rfl

theorem withDefault_getD {α : Type} (as : Json → Except LineError α) {v : Json} {a : α}
    (h : as v = .ok a) (w : Option Json) : withDefault as a w = as (w.getD v) := by
  cases w with
  | none => exact h.symm
  | some w => rfl

theorem of_bind_ok {α β ε : Type} {x : Except ε α} {f : α → Except ε β} {b : β}
    (h : (x >>= f) = .ok b) : ∃ a, x = .ok a ∧ f a = .ok b := by
  cases x with
  | error e => cases h
  | ok a => exact ⟨a, rfl, h⟩

/-- **Reading with and without types agree**: of an entry that parses, `ofJson` is the typed
    one. -/
theorem ofJson_eq_typed {fields : List (String × Json)} {r : RawEntry}
    (h : rawOfJson (.obj fields) = .ok r) : ofJson (.obj fields) = typed r := by
  unfold rawOfJson at h
  obtain ⟨ts, hts, h⟩ := of_bind_ok h
  obtain ⟨cmd, hcmd, h⟩ := of_bind_ok h
  obtain ⟨c, hc, h⟩ := of_bind_ok h
  obtain ⟨key, hkey, h⟩ := of_bind_ok h
  cases h
  have htext : asString (.str c.text) = .ok c.text := rfl
  unfold ofJson typed rawGet
  rw [item_eq hts, item_eq hcmd, item_eq hkey, commandOfJson_ok hc]
  simp only [ok_bind, htext, commandOfText_text]
  rw [optional_getD asInt, optional_getD asTime, withDefault_getD asInt (v := .int 1) rfl,
    optional_getD asTime (field? _ "cts"), withDefault_getD asString (v := .str "") rfl]

/-! ## The loop -/

/-- What `replay` catches. -/
def caught : PyError → Bool
  | .jsonDecodeError => true
  | .keyError => true
  | .valueError => true
  | _ => false

/-- A replay so far: the state of the function's store, the entries it was called with, and how
    many it applied. -/
structure ReplayRun (σ : Type) where
  store : σ
  calls : List RawEntry
  count : Nat

/-- The body of the loop. The function gives the store it leaves and what it raises. -/
def replayLine {σ : Type} (loads : List Char → Loaded) (apply : σ → RawEntry → σ × Option PyError)
    (run : ReplayRun σ) (line : List Char) : Except PyError (ReplayRun σ) :=
  if strip line = [] then .ok run
  else match rawFromLine loads (strip line) with
    | .error x => if caught x then .ok run else .error x
    | .ok r =>
      match (apply run.store r).2 with
      | none => .ok ⟨(apply run.store r).1, run.calls ++ [r], run.count + 1⟩
      | some x =>
        if caught x then .ok ⟨(apply run.store r).1, run.calls ++ [r], run.count⟩ else .error x

def replayRawLines {σ : Type} (loads : List Char → Loaded)
    (apply : σ → RawEntry → σ × Option PyError) :
    List (List Char) → ReplayRun σ → Except PyError (ReplayRun σ)
  | [], run => .ok run
  | line :: lines, run => (replayLine loads apply run line).bind (replayRawLines loads apply lines)

/-- `replay` on the text of the file; `none` is a missing file. -/
def replayFile {σ : Type} (loads : List Char → Loaded) (apply : σ → RawEntry → σ × Option PyError)
    (store : σ) (file : Option (List Char)) : Except PyError (ReplayRun σ) :=
  match file with
  | none => .ok ⟨store, [], 0⟩
  | some text => replayRawLines loads apply (text.splitOnP isNewline) ⟨store, [], 0⟩

section Loop

variable {σ : Type} {loads : List Char → Loaded} {apply : σ → RawEntry → σ × Option PyError}

theorem replayLine_blank {line : List Char} (h : strip line = []) (run : ReplayRun σ) :
    replayLine loads apply run line = .ok run := if_pos h

theorem replayLine_error {line : List Char} (hne : strip line ≠ []) {x : PyError}
    (h : rawFromLine loads (strip line) = .error x) (run : ReplayRun σ) :
    replayLine loads apply run line = if caught x then .ok run else .error x := by
  rw [replayLine, if_neg hne, h]

/-- A line that gives an entry is handed over, whether or not the function raises what is
    caught. -/
theorem replayLine_entry {line : List Char} (hne : strip line ≠ []) {r : RawEntry}
    (h : rawFromLine loads (strip line) = .ok r) (run : ReplayRun σ)
    (hcaught : ∀ x, (apply run.store r).2 = some x → caught x = true) :
    ∃ n, replayLine loads apply run line = .ok ⟨(apply run.store r).1, run.calls ++ [r], n⟩ := by
  rw [replayLine, if_neg hne, h]
  cases ha : (apply run.store r).2 with
  | none =>
    refine ⟨run.count + 1, ?_⟩
    simp only [ha]
  | some x =>
    refine ⟨run.count, ?_⟩
    simp only [ha, hcaught x ha, if_true]

end Loop

/-! ## A file made by appending -/

/-- `Lib.Json`'s reader as `json.loads`. -/
def jsonLoads (F : FloatText) (text : List Char) : Loaded :=
  match loads F text with
  | some v => .value v
  | none => .malformed

/-- The arguments of `append`, `sync` apart. -/
structure AppendArgs where
  command : AofCommand
  key : String
  value : Json := .null
  ttl : Option Int := none
  version : Int := 1
  expiresAt : Option Time := none
  createdAt : Option Time := none
  updatedAt : Option Time := none
  coordinatorId : String := ""

/-- The entry that `append` writes at `now`. -/
def appendEntry (now : Time) (a : AppendArgs) : AofEntry :=
  { timestamp := a.updatedAt.getD now, command := a.command, key := a.key, value := a.value,
    ttl := a.ttl, expiresAt := a.expiresAt, version := a.version, createdAt := a.createdAt,
    coordinatorId := a.coordinatorId }

/-- The log after these calls of `append`, each with its time, on an empty file. -/
def appended (F : FloatText) (calls : List (Time × AppendArgs)) : List Char :=
  reopened F [] (calls.map fun c => appendEntry c.1 c.2)

/-- The fields of an entry say all of it. -/
theorem typed_rawEntryOf (e : AofEntry) : typed (rawEntryOf e) = .ok e := by
  have ht : optional asInt (some (rawEntryOf e).ttl) = .ok e.ttl := by
    unfold rawEntryOf
    cases e.ttl <;> rfl
  have hx : optional asTime (some (rawEntryOf e).expiresAt) = .ok e.expiresAt := by
    unfold rawEntryOf
    cases e.expiresAt <;> rfl
  have hc : optional asTime (some (rawEntryOf e).createdAt) = .ok e.createdAt := by
    unfold rawEntryOf
    cases e.createdAt <;> rfl
  unfold typed
  rw [ht, hx, hc]
  rfl

/-- Absent fields are filled in from the defaults they were left out for. -/
theorem rawOfJson_toJson (e : AofEntry) : rawOfJson (toJson e) = .ok (rawEntryOf e) := by
  have hitem : ∀ {n : String} {v : Json}, field? (toJson e) n = some v →
      rawItem (toJson e) n = .ok v := by
    intro n v h
    rw [toJson] at h ⊢
    simp only [rawItem, h]
  have hts := hitem (n := "ts") (v := .float e.timestamp)
    (by rw [field?_toJson e (by decide)]; simp)
  have hcmd := hitem (n := "cmd") (v := .str e.command.text)
    (by rw [field?_toJson e (by decide)]; simp)
  have hkey := hitem (n := "key") (v := .str e.key)
    (by rw [field?_toJson e (by decide)]; simp)
  have hcommand : commandOfJson (.str e.command.text) = .ok e.command := by
    cases e.command <;> rfl
  have hval : rawGet (toJson e) "val" .null = e.value := field?_toJson_val e
  have httl : rawGet (toJson e) "ttl" .null = (e.ttl.map .int).getD .null := by
    rw [rawGet, field?_toJson e (by decide)]; simp
  have hexp : rawGet (toJson e) "exp" .null = (e.expiresAt.map .float).getD .null := by
    rw [rawGet, field?_toJson e (by decide)]; simp
  have hver : rawGet (toJson e) "ver" (.int 1) = .int e.version := by
    rw [rawGet, field?_toJson e (by decide)]; simp
  have hcts : rawGet (toJson e) "cts" .null = (e.createdAt.map .float).getD .null := by
    rw [rawGet, field?_toJson e (by decide)]; simp
  have hcoord : rawGet (toJson e) "coord" (.str "") = .str e.coordinatorId := by
    rw [rawGet, field?_toJson e (by decide)]
    by_cases h : e.coordinatorId = ""
    · simp [h]
    · simp [h]
  unfold rawOfJson
  rw [hts, hcmd, hkey, hval, httl, hexp, hver, hcts, hcoord]
  change (commandOfJson (.str e.command.text)).bind _ = _
  rw [hcommand]
  rfl

theorem rawFromLine_toLine {F : FloatText} {e : AofEntry} (h : Loggable F e) :
    rawFromLine (jsonLoads F) (toLine F e) = .ok (rawEntryOf e) := by
  have hloads : loads F (toLine F e) = some (toJson e) := loads_dumps F (printable_toJson h)
  rw [rawFromLine, strip_toLine, jsonLoads, hloads]
  exact rawOfJson_toJson e

/-- The typed reader of a line gives the typed entry. -/
theorem fromLine_eq_typed {F : FloatText} {line : List Char} {r : RawEntry}
    (h : rawFromLine (jsonLoads F) line = .ok r) : fromLine F line = typed r := by
  unfold rawFromLine jsonLoads at h
  unfold fromLine
  cases hl : loads F (strip line) with
  | none =>
    rw [hl] at h
    cases h
  | some data =>
    rw [hl] at h
    cases data <;> first | exact ofJson_eq_typed h | cases h

theorem splitOnP_render {F : FloatText} {es : List AofEntry} (h : ∀ e ∈ es, Loggable F e) :
    (render F es).splitOnP isNewline = es.map (toLine F) ++ [[]] := by
  induction es with
  | nil => rfl
  | cons e es ih =>
    have hline : ∀ c ∈ toLine F e, isNewline c = false := fun c hc =>
      not_isNewline (printable_toLine (h e List.mem_cons_self) c hc)
    rw [render, List.flatMap_cons, ← render, lineText, List.append_assoc, List.singleton_append,
      List.splitOnP_append_cons_of_forall_mem hline '\n' (by decide),
      ih fun e he => h e (List.mem_cons_of_mem _ he), List.map_cons, List.cons_append]

/-- The lines of these entries are handed over in turn, whatever lines follow them. -/
theorem replayRawLines_toLine {σ : Type} {F : FloatText}
    {apply : σ → RawEntry → σ × Option PyError}
    (hcaught : ∀ s r x, (apply s r).2 = some x → caught x = true) {es : List AofEntry}
    (h : ∀ e ∈ es, Loggable F e) (lines : List (List Char)) (run : ReplayRun σ) :
    ∃ n, replayRawLines (jsonLoads F) apply (es.map (toLine F) ++ lines) run =
      replayRawLines (jsonLoads F) apply lines
        ⟨es.foldl (fun s e => (apply s (rawEntryOf e)).1) run.store,
          run.calls ++ es.map rawEntryOf, n⟩ := by
  induction es generalizing run with
  | nil =>
    refine ⟨run.count, ?_⟩
    rw [List.map_nil, List.map_nil, List.append_nil]
    rfl
  | cons e es ih =>
    have he := h e List.mem_cons_self
    have hne : strip (toLine F e) ≠ [] := by
      rw [strip_toLine]
      exact toLine_ne_nil F e
    have hraw : rawFromLine (jsonLoads F) (strip (toLine F e)) = .ok (rawEntryOf e) := by
      rw [strip_toLine]
      exact rawFromLine_toLine he
    obtain ⟨n, hline⟩ := replayLine_entry hne hraw run (hcaught run.store (rawEntryOf e))
    obtain ⟨m, hrest⟩ := ih (fun e he => h e (List.mem_cons_of_mem _ he))
      ⟨(apply run.store (rawEntryOf e)).1, run.calls ++ [rawEntryOf e], n⟩
    refine ⟨m, ?_⟩
    rw [List.map_cons, List.cons_append, replayRawLines, hline, List.map_cons, List.foldl_cons]
    rw [List.append_assoc, List.singleton_append] at hrest
    exact hrest

/-- **Appending and replaying**: for all calls of `append` on a new log, and every function that
    raises only what is caught, replay calls the function with exactly the entries of the
    calls, once each and in their order. -/
theorem replay_appended {σ : Type} {F : FloatText} {apply : σ → RawEntry → σ × Option PyError}
    (hcaught : ∀ s r x, (apply s r).2 = some x → caught x = true) (store : σ)
    {calls : List (Time × AppendArgs)} (h : ∀ c ∈ calls, Loggable F (appendEntry c.1 c.2)) :
    ∃ run, replayFile (jsonLoads F) apply store (some (appended F calls)) = .ok run ∧
      run.calls = calls.map (fun c => rawEntryOf (appendEntry c.1 c.2)) ∧
      run.store = calls.foldl
        (fun s c => (apply s (rawEntryOf (appendEntry c.1 c.2))).1) store := by
  have hes : ∀ e ∈ calls.map (fun c => appendEntry c.1 c.2), Loggable F e := by
    intro e he
    obtain ⟨c, hc, rfl⟩ := List.mem_map.mp he
    exact h c hc
  obtain ⟨n, hn⟩ := replayRawLines_toLine hcaught hes [[]] ⟨store, [], 0⟩
  refine ⟨⟨_, _, n⟩, ?_, rfl, rfl⟩
  rw [replayFile, appended, reopened_eq, List.nil_append, splitOnP_render hes, hn, List.foldl_map,
    List.map_map]
  rfl

/-- A SET with a TTL and a DELETE with a given time. -/
def sampleCalls : List (Time × AppendArgs) :=
  [(1, { command := .set, key := "a", value := .int 5, ttl := some 3 }),
    (2, { command := .delete, key := "a", updatedAt := some 3 })]

theorem replay_appended_sample :
    ∃ run, replayFile (jsonLoads wholeFloats) (fun n _ => (n + 1, none)) 0
        (some (appended wholeFloats sampleCalls)) = .ok run ∧
      run.calls = sampleCalls.map (fun c => rawEntryOf (appendEntry c.1 c.2)) ∧
      run.store = 2 := by
  have hlog : ∀ c ∈ sampleCalls, Loggable wholeFloats (appendEntry c.1 c.2) := by
    intro c hc
    simp only [sampleCalls, List.mem_cons, List.not_mem_nil, or_false] at hc
    rcases hc with rfl | rfl
    · exact ⟨rfl, trivial, by simp [appendEntry], by simp [appendEntry]⟩
    · exact ⟨rfl, trivial, by simp [appendEntry], by simp [appendEntry]⟩
  have hcaught : ∀ (n : Nat) (r : RawEntry) (x : PyError),
      ((fun n _ => (n + 1, none) : Nat → RawEntry → Nat × Option PyError) n r).2 = some x →
        caught x = true := fun _ _ _ h => by cases h
  exact replay_appended hcaught 0 hlog

end MiniDb.AofText
