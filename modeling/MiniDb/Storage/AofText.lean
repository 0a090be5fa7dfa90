/-
  The append-only file as text: `to_line`, `from_line`, and `replay` over a file that may end
  in a torn line.

  A file is its list of characters. Every line is printable ASCII (`printable_toLine`), so that
  characters are bytes and a cut at any byte is a cut of this list. Reopening the file for
  appending (`_open_file`, mode "a") leaves the text as it is, and an appended entry is its
  line and a newline at the end of the text.

  A line whose fields have other types than `to_line` writes is refused here (`LineError.type`),
  where the source would build an ill-typed entry; no text below reaches that case.
-/
import MiniDb.Lib.JsonRoundTrip
import MiniDb.Storage.Aof
import MiniDb.Lib.Text

namespace MiniDb.AofText

open Lib Lib.Json

/-! ## Writing -/

def valueField (v : Json) : List (String × Json) :=
  match v with
  | .null => []
  | v => [("val", v)]

def coordinatorField (c : String) : List (String × Json) :=
  if c = "" then [] else [("coord", .str c)]

/-- A field that is written when it is there. -/
def optionalField {α : Type} (name : String) (f : α → Json) (x : Option α) :
    List (String × Json) :=
  (x.map fun a => (name, f a)).toList

/-- The fields of a line after the time stamp. -/
def laterFields (e : AofEntry) : List (String × Json) :=
  [("cmd", .str e.command.text), ("key", .str e.key), ("ver", .int e.version)]
    ++ valueField e.value
    ++ optionalField "ttl" .int e.ttl
    ++ optionalField "exp" .float e.expiresAt
    ++ optionalField "cts" .float e.createdAt
    ++ coordinatorField e.coordinatorId

def toJson (e : AofEntry) : Json := .obj (("ts", .float e.timestamp) :: laterFields e)

def toLine (F : FloatText) (e : AofEntry) : List Char := dumps F (toJson e)

/-- What `append` writes. -/
def lineText (F : FloatText) (e : AofEntry) : List Char := toLine F e ++ ['\n']

/-- The text of a log. -/
def render (F : FloatText) (es : List AofEntry) : List Char := es.flatMap (lineText F)

/-! ## Reading -/

/-- Why a line is not an entry. `replay` catches all but the last. -/
inductive LineError where
  | decode
  | key (name : String)
  | value
  | type
  deriving DecidableEq

/-- `data[name]` -/
def item (data : Json) (name : String) : Except LineError Json :=
  match data with
  | .obj fields => match field? (.obj fields) name with
    | some v => .ok v
    | none => .error (.key name)
  | _ => .error .type

/-- `AOFCommand(text)` -/
def commandOfText (text : String) : Except LineError AofCommand :=
  if text = "SET" then .ok .set
  else if text = "DELETE" then .ok .delete
  else if text = "EXPIRE" then .ok .expire
  else .error .value

def asTime : Json → Except LineError Time
  | .float x => .ok x
  | .int n => .ok n
  | _ => .error .type

def asInt : Json → Except LineError Int
  | .int n => .ok n
  | _ => .error .type

def asString : Json → Except LineError String
  | .str s => .ok s
  | _ => .error .type

/-- `data.get(name)`, where an absent field and `null` are both `None`. -/
def optional {α : Type} (as : Json → Except LineError α) :
    Option Json → Except LineError (Option α)
  | none => .ok none
  | some .null => .ok none
  | some v => (as v).map some

/-- `data.get(name, default)` -/
def withDefault {α : Type} (as : Json → Except LineError α) (default : α) :
    Option Json → Except LineError α
  | none => .ok default
  | some v => as v

def ofJson (data : Json) : Except LineError AofEntry := do
  let ts ← asTime (← item data "ts")
  let cmd ← commandOfText (← asString (← item data "cmd"))
  let key ← asString (← item data "key")
  let ttl ← optional asInt (data.field? "ttl")
  let exp ← optional asTime (data.field? "exp")
  let ver ← withDefault asInt 1 (data.field? "ver")
  let cts ← optional asTime (data.field? "cts")
  let coord ← withDefault asString "" (data.field? "coord")
  return { timestamp := ts, command := cmd, key := key,
           value := (data.field? "val").getD .null, ttl := ttl, expiresAt := exp,
           version := ver, createdAt := cts, coordinatorId := coord }

def fromLine (F : FloatText) (line : List Char) : Except LineError AofEntry :=
  match loads F (strip line) with
  | some data => ofJson data
  | none => .error .decode

/-- The entries that `replay` hands over, in order: blank lines and corrupted lines are
    skipped; an error it does not catch ends it. -/
def replayLines (F : FloatText) : List (List Char) → Except LineError (List AofEntry)
  | [] => .ok []
  | line :: lines =>
    if strip line = [] then replayLines F lines
    else match fromLine F (strip line) with
      | .ok e => (replayLines F lines).map (e :: ·)
      | .error .type => .error .type
      | .error _ => replayLines F lines

/-- A line ends at a newline; reading as text makes a carriage return one. -/
def isNewline (c : Char) : Bool := c = '\n' || c = '\r'

def replay (F : FloatText) (text : List Char) : Except LineError (List AofEntry) :=
  replayLines F (text.splitOnP isNewline)

/-! ## A line reads back as its entry -/

/-- The numbers of the entry are numbers its line can hold. -/
def Loggable (F : FloatText) (e : AofEntry) : Prop :=
  F.isFloat e.timestamp ∧ Printable F e.value ∧ (∀ x ∈ e.expiresAt, F.isFloat x) ∧
    ∀ x ∈ e.createdAt, F.isFloat x

theorem printableFields_append (F : FloatText) (fs gs : List (String × Json)) :
    PrintableFields F (fs ++ gs) ↔ PrintableFields F fs ∧ PrintableFields F gs := by
  induction fs with
  | nil => simp [PrintableFields]
  | cons f fs ih =>
    obtain ⟨k, v⟩ := f
    simp only [List.cons_append, PrintableFields, ih, and_assoc]

theorem printableFields_optional (F : FloatText) {α : Type} (name : String) (f : α → Json)
    (x : Option α) : PrintableFields F (optionalField name f x) ↔ ∀ a ∈ x, Printable F (f a) := by
  cases x <;> simp [optionalField, PrintableFields]

theorem printable_toJson {F : FloatText} {e : AofEntry} (h : Loggable F e) :
    Printable F (toJson e) := by
  obtain ⟨hts, hv, hx, hc⟩ := h
  have hval : PrintableFields F (valueField e.value) := by
    unfold valueField
    split
    · trivial
    · exact ⟨hv, trivial⟩
  have hcoord : PrintableFields F (coordinatorField e.coordinatorId) := by
    unfold coordinatorField
    split
    · trivial
    · exact ⟨trivial, trivial⟩
  simp only [toJson, laterFields, Printable, PrintableFields, printableFields_append,
    printableFields_optional]
  exact ⟨hts, ⟨⟨⟨⟨⟨trivial, trivial, trivial, trivial⟩, hval⟩, fun _ _ => trivial⟩, hx⟩, hc⟩,
    hcoord⟩

theorem field?_append (fs gs : List (String × Json)) (n : String) :
    field? (.obj (fs ++ gs)) n = (field? (.obj gs) n).or (field? (.obj fs) n) := by
  simp only [field?, List.reverse_append, List.find?_append, Option.map_or]

theorem field?_cons (m : String) (v : Json) (fs : List (String × Json)) (n : String) :
    field? (.obj ((m, v) :: fs)) n =
      (field? (.obj fs) n).or (if m = n then some v else none) := by
  rw [← List.singleton_append, field?_append]
  congr 1
  by_cases h : m = n
  · simp [field?, h]
  · simp [field?, h]

theorem field?_nil (n : String) : field? (.obj []) n = none := rfl

theorem field?_optional {α : Type} (m : String) (f : α → Json) (x : Option α) (n : String) :
    field? (.obj (optionalField m f x)) n = if m = n then x.map f else none := by
  cases x with
  | none => simp [optionalField, field?_nil]
  | some a => simp [optionalField, field?_cons, field?_nil]

theorem field?_valueField (v : Json) (n : String) :
    (field? (.obj (valueField v)) n).getD .null = if "val" = n then v else .null := by
  unfold valueField
  split
  · simp [field?_nil]
  · by_cases h : "val" = n
    · simp [field?_cons, field?_nil, h]
    · simp [field?_cons, field?_nil, h]

theorem field?_valueField_ne (v : Json) {n : String} (h : "val" ≠ n) :
    field? (.obj (valueField v)) n = none := by
  unfold valueField
  split
  · rfl
  · simp [field?_cons, field?_nil, h]

theorem field?_coordinatorField (c : String) (n : String) :
    field? (.obj (coordinatorField c)) n =
      if "coord" = n ∧ c ≠ "" then some (.str c) else none := by
  unfold coordinatorField
  by_cases hc : c = ""
  · simp [hc, field?_nil]
  · by_cases h : "coord" = n
    · simp [hc, field?_cons, field?_nil, h]
    · simp [hc, field?_cons, field?_nil, h]

theorem commandOfText_text (c : AofCommand) : commandOfText c.text = .ok c := by
  cases c <;> rfl

/-- Every field but "val" is found under its own name only. -/
theorem field?_toJson (e : AofEntry) {n : String} (h : "val" ≠ n) :
    field? (toJson e) n =
      (if "coord" = n ∧ e.coordinatorId ≠ "" then some (.str e.coordinatorId) else none).or
      ((if "cts" = n then e.createdAt.map .float else none).or
      ((if "exp" = n then e.expiresAt.map .float else none).or
      ((if "ttl" = n then e.ttl.map .int else none).or
      ((if "ver" = n then some (.int e.version) else none).or
      ((if "key" = n then some (.str e.key) else none).or
      ((if "cmd" = n then some (.str e.command.text) else none).or
      (if "ts" = n then some (.float e.timestamp) else none))))))) := by
  simp only [toJson, laterFields, field?_cons, field?_append, field?_nil, field?_optional,
    field?_coordinatorField, field?_valueField_ne e.value h, Option.none_or, Option.or_assoc]

theorem field?_toJson_val (e : AofEntry) : ((toJson e).field? "val").getD .null = e.value := by
  have h := field?_valueField e.value "val"
  rw [if_pos rfl] at h
  simpa [toJson, laterFields, field?_cons, field?_append, field?_nil, field?_optional,
    field?_coordinatorField] using h

theorem item_toJson (e : AofEntry) {n : String} {v : Json} (h : field? (toJson e) n = some v) :
    item (toJson e) n = .ok v := by
  rw [toJson] at h ⊢
  simp only [item, h]

theorem optional_map {α β : Type} (as : Json → Except LineError α) (f : β → Json) (g : β → α)
    (has : ∀ b, as (f b) = .ok (g b)) (hf : ∀ b, f b ≠ .null) (x : Option β) :
    optional as (x.map f) = .ok (x.map g) := by
  cases x with
  | none => rfl
  | some b =>
    have h : optional as (some (f b)) = (as (f b)).map some := by
      rw [optional.eq_def]
      split
      · contradiction
      · rename_i he
        exact absurd (Option.some.inj he) (hf b)
      · rename_i he
        rw [Option.some.inj he]
    rw [Option.map_some, h, has b]
    rfl

theorem ok_bind {α β : Type} (a : α) (f : α → Except LineError β) :
    (Except.ok a >>= f : Except LineError β) = f a := rfl

theorem ofJson_toJson (e : AofEntry) : ofJson (toJson e) = .ok e := by
  have hts := item_toJson e (n := "ts") (v := .float e.timestamp)
    (by rw [field?_toJson e (by decide)]; simp)
  have hcmd := item_toJson e (n := "cmd") (v := .str e.command.text)
    (by rw [field?_toJson e (by decide)]; simp)
  have hkey := item_toJson e (n := "key") (v := .str e.key)
    (by rw [field?_toJson e (by decide)]; simp)
  have httl : (toJson e).field? "ttl" = e.ttl.map .int := by
    rw [field?_toJson e (by decide)]; simp
  have hexp : (toJson e).field? "exp" = e.expiresAt.map .float := by
    rw [field?_toJson e (by decide)]; simp
  have hver : (toJson e).field? "ver" = some (.int e.version) := by
    rw [field?_toJson e (by decide)]; simp
  have hcts : (toJson e).field? "cts" = e.createdAt.map .float := by
    rw [field?_toJson e (by decide)]; simp
  have hcoord : withDefault asString "" ((toJson e).field? "coord") = .ok e.coordinatorId := by
    rw [field?_toJson e (by decide)]
    by_cases h : e.coordinatorId = ""
    · simp [h, withDefault]
    · simp [h, withDefault, asString]
  have ht := optional_map asInt Json.int id (fun _ => rfl) (fun _ => by simp) e.ttl
  have hx := optional_map asTime Json.float id (fun _ => rfl) (fun _ => by simp) e.expiresAt
  have hc := optional_map asTime Json.float id (fun _ => rfl) (fun _ => by simp) e.createdAt
  rw [Option.map_id, id] at ht hx hc
  unfold ofJson
  rw [hts, hcmd, hkey, httl, ht, hexp, hx, hver, hcts, hc, hcoord, field?_toJson_val]
  simp only [ok_bind, asTime, asString, asInt, commandOfText_text, withDefault]
  rfl

/-! ## Stripping a line -/

theorem toLine_eq (F : FloatText) (e : AofEntry) :
    ∃ cs, toLine F e = '{' :: (cs ++ ['}']) := by
  obtain ⟨cs, hcs⟩ := dumps_obj_head F (("ts", .float e.timestamp) :: laterFields e)
  obtain ⟨ds, hds⟩ := dumps_obj_last F (("ts", .float e.timestamp) :: laterFields e)
  have h := hcs.symm.trans hds
  cases ds with
  | nil => exact absurd (List.cons.inj h).1 (by decide)
  | cons d ds =>
    rw [List.cons_append, List.cons.injEq] at h
    exact ⟨ds, by rw [toLine, toJson, hcs, h.2]⟩

theorem strip_braces (cs : List Char) : strip ('{' :: (cs ++ ['}'])) = '{' :: (cs ++ ['}']) :=
  strip_of_ends (by decide) (by decide) cs

/-- Stripping what starts with a brace takes nothing from its start. -/
theorem strip_cut {q cs : List Char} (hq : q ≠ []) (hp : q <+: '{' :: cs) :
    strip q <+: q ∧ strip q ≠ [] := by
  obtain ⟨q', rfl⟩ : ∃ q', q = '{' :: q' := by
    cases q with
    | nil => exact absurd rfl hq
    | cons c q' => exact ⟨q', by rw [(List.cons_prefix_cons.mp hp).1]⟩
  have hl : ('{' :: q').dropWhile isStripped = '{' :: q' :=
    List.dropWhile_cons_of_neg (by decide)
  rw [strip, hl]
  refine ⟨List.rdropWhile_prefix _ _, ?_⟩
  rw [ne_eq, List.rdropWhile_eq_nil_iff]
  exact fun h => absurd (h '{' List.mem_cons_self) (by decide)

/-! ## One line of a file -/

theorem fromLine_toLine {F : FloatText} {e : AofEntry} (h : Loggable F e) :
    fromLine F (toLine F e) = .ok e := by
  obtain ⟨cs, hcs⟩ := toLine_eq F e
  have hs : strip (toLine F e) = dumps F (toJson e) := by
    rw [hcs, strip_braces, ← hcs, toLine]
  rw [fromLine, hs, loads_dumps F (printable_toJson h)]
  exact ofJson_toJson e

theorem plainName_ts (F : FloatText) : PlainName F "ts" := by
  refine ⟨by decide, List.all_eq_true.mp rfl, ?_⟩
  have h1 : ¬ ('.' ∈ "ts".toList ∨ 'e' ∈ "ts".toList ∨ 'E' ∈ "ts".toList) := by decide
  rw [atomValue, if_neg (by decide), if_neg (by decide), if_neg (by decide), if_neg h1]
  decide

/-- A torn line is not read. -/
theorem fromLine_torn {F : FloatText} {e : AofEntry} (h : Loggable F e) {q r : List Char}
    (hqr : toLine F e = q ++ r) (hq : q ≠ []) (hr : r ≠ []) :
    strip q ≠ [] ∧ fromLine F (strip q) = .error .decode := by
  obtain ⟨cs, hcs⟩ := toLine_eq F e
  have hp : q <+: '{' :: (cs ++ ['}']) := ⟨r, by rw [← hcs, hqr]⟩
  obtain ⟨h₁, hne₁⟩ := strip_cut hq hp
  obtain ⟨h₂, hne₂⟩ := strip_cut hne₁ (h₁.trans hp)
  refine ⟨hne₁, ?_⟩
  -- what is left of the torn line is a proper prefix of the whole one
  obtain ⟨r', hr'⟩ := h₂.trans h₁
  have hloads : loads F (strip (strip q)) = none := by
    refine loads_proper_prefix F (r := r' ++ r) (printable_toJson h) ?_ hne₂ (by simp [hr])
    rw [← List.append_assoc, hr', ← hqr, toLine, toJson]
  rw [fromLine, hloads]

/-- A torn line with a whole line glued to it is not read. -/
theorem fromLine_glued {F : FloatText} {e a : AofEntry} (he : Loggable F e) (ha : Loggable F a)
    {q r : List Char} (hqr : toLine F e = q ++ r) (hq : q ≠ []) :
    strip (q ++ toLine F a) = q ++ toLine F a ∧
      fromLine F (q ++ toLine F a) = .error .decode := by
  obtain ⟨cs, hcs⟩ := toLine_eq F e
  obtain ⟨ds, hds⟩ := toLine_eq F a
  have hstrip : strip (q ++ toLine F a) = q ++ toLine F a := by
    cases q with
    | nil => exact absurd rfl hq
    | cons c q =>
      have hc : c = '{' := by
        rw [hcs, List.cons_append] at hqr
        exact (List.cons.inj hqr).1.symm
      have hbraces := strip_braces (q ++ '{' :: ds)
      rw [hc, hds]
      simpa using hbraces
  refine ⟨hstrip, ?_⟩
  have hloads := loads_glued F (plainName_ts F) (printable_toJson he) (printable_toJson ha) hqr hq
  rw [fromLine, hstrip, toLine, toJson, hloads]

/-! ## A whole file -/

theorem printable_toLine {F : FloatText} {e : AofEntry} (h : Loggable F e) :
    ∀ c ∈ toLine F e, PrintableChar c :=
  printableChar_dumps F _ (printable_toJson h)

theorem not_isNewline {c : Char} (h : PrintableChar c) : isNewline c = false := by
  have hn : c ≠ '\n' := by rintro rfl; exact absurd h (by decide)
  have hr : c ≠ '\r' := by rintro rfl; exact absurd h (by decide)
  simp [isNewline, hn, hr]

theorem toLine_ne_nil (F : FloatText) (e : AofEntry) : toLine F e ≠ [] := by
  obtain ⟨cs, hcs⟩ := toLine_eq F e
  simp [hcs]

theorem strip_toLine (F : FloatText) (e : AofEntry) : strip (toLine F e) = toLine F e := by
  obtain ⟨cs, hcs⟩ := toLine_eq F e
  rw [hcs, strip_braces]

theorem replay_line (F : FloatText) {line : List Char} (hl : ∀ c ∈ line, PrintableChar c)
    (rest : List Char) :
    replay F (line ++ '\n' :: rest) = replayLines F (line :: rest.splitOnP isNewline) := by
  rw [replay, List.splitOnP_append_cons_of_forall_mem
    (fun c hc => not_isNewline (hl c hc)) '\n' (by decide)]

theorem replay_last_line (F : FloatText) {line : List Char} (hl : ∀ c ∈ line, PrintableChar c) :
    replay F line = replayLines F [line] := by
  rw [replay, List.splitOnP_eq_singleton fun c hc => not_isNewline (hl c hc)]

theorem replay_nil (F : FloatText) : replay F [] = .ok [] := by
  rw [replay_last_line F (by simp)]
  rfl

theorem replay_lineText {F : FloatText} {e : AofEntry} (h : Loggable F e) (rest : List Char) :
    replay F (lineText F e ++ rest) = (replay F rest).map (e :: ·) := by
  rw [lineText, List.append_assoc, List.singleton_append, replay_line F (printable_toLine h),
    replayLines, strip_toLine, if_neg (toLine_ne_nil F e), fromLine_toLine h, replay]

/-- A complete log before any text is replayed entry by entry. -/
theorem replay_render_append {F : FloatText} {es : List AofEntry} (h : ∀ e ∈ es, Loggable F e)
    (rest : List Char) :
    replay F (render F es ++ rest) = (replay F rest).map (es ++ ·) := by
  induction es with
  | nil =>
    cases hrest : replay F rest with
    | error err => simp [render, hrest, Except.map]
    | ok fs => simp [render, hrest, Except.map]
  | cons e es ih =>
    have ih := ih fun e he => h e (List.mem_cons_of_mem _ he)
    rw [render, List.flatMap_cons, ← render, List.append_assoc,
      replay_lineText (h e List.mem_cons_self), ih]
    cases replay F rest with
    | error err => rfl
    | ok fs => rfl

/-- **The log loses nothing**: a whole file is replayed as the entries it was written from. -/
theorem replay_render {F : FloatText} {es : List AofEntry} (h : ∀ e ∈ es, Loggable F e) :
    replay F (render F es) = .ok es := by
  have hr := replay_render_append h []
  rw [List.append_nil, replay_nil] at hr
  rw [hr, Except.map, List.append_nil]

theorem printable_cut {F : FloatText} {e : AofEntry} (h : Loggable F e) {q r : List Char}
    (hqr : toLine F e = q ++ r) : ∀ c ∈ q, PrintableChar c := fun c hc =>
  printable_toLine h c (by rw [hqr]; exact List.mem_append_left r hc)

theorem replay_torn {F : FloatText} {e : AofEntry} (h : Loggable F e) {q r : List Char}
    (hqr : toLine F e = q ++ r) (hq : q ≠ []) (hr : r ≠ []) : replay F q = .ok [] := by
  obtain ⟨hne, hfrom⟩ := fromLine_torn h hqr hq hr
  rw [replay_last_line F (printable_cut h hqr), replayLines, if_neg hne, hfrom]
  rfl

theorem replay_unended {F : FloatText} {e : AofEntry} (h : Loggable F e) :
    replay F (toLine F e) = .ok [e] := by
  rw [replay_last_line F (printable_toLine h), replayLines, strip_toLine,
    if_neg (toLine_ne_nil F e), fromLine_toLine h]
  rfl

/-- Appending after a torn (or unended) line loses that line and the appended one. -/
theorem replay_glued {F : FloatText} {e a : AofEntry} (he : Loggable F e) (ha : Loggable F a)
    {q r : List Char} (hqr : toLine F e = q ++ r) (hq : q ≠ []) (rest : List Char) :
    replay F (q ++ (lineText F a ++ rest)) = replay F rest := by
  obtain ⟨hstrip, hfrom⟩ := fromLine_glued he ha hqr hq
  have hl : ∀ c ∈ q ++ toLine F a, PrintableChar c := by
    intro c hc
    rcases List.mem_append.mp hc with hc | hc
    · exact printable_cut he hqr c hc
    · exact printable_toLine ha c hc
  have hne : strip (q ++ toLine F a) ≠ [] := by
    rw [hstrip]
    simp [hq]
  have htext : q ++ (lineText F a ++ rest) = (q ++ toLine F a) ++ '\n' :: rest := by
    simp [lineText]
  rw [htext, replay_line F hl, replayLines, if_neg hne, hstrip, hfrom, replay]

end MiniDb.AofText
