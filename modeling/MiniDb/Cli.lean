/-
  The command line of the client (`cli.py`, `_parse_line`): splitting a line at spaces outside
  of quotes.

  `parseLine_quoted_iff`: arguments written between double quotes, with inner double quotes
  after a backslash as the documentation writes a JSON value, are read back if and only if none
  is empty and none has a double quote. The parser knows no escapes: a backslash is kept
  (`count_parseLine`) and the quote after it ends the quotation; a part that is empty when it
  ends is dropped.
-/
import Mathlib.Data.List.Basic

namespace MiniDb.DatabaseCLI

/-- What may open a quotation. -/
abbrev Quote := { char : Char // char = '"' ∨ char = '\'' }

/-- The parser between two characters; `quoteChar` is there while it is in quotes. -/
structure LineParser where
  parts : List (List Char) := []
  current : List Char := []
  quoteChar : Option Quote := none

/-- One character. -/
def step (s : LineParser) (char : Char) : LineParser :=
  if h : (char = '"' ∨ char = '\'') ∧ s.quoteChar = none then
    { s with quoteChar := some ⟨char, h.1⟩ }
  else if s.quoteChar.map Subtype.val = some char then { s with quoteChar := none }
  else if char = ' ' ∧ s.quoteChar = none then
    if s.current = [] then s else { s with parts := s.parts ++ [s.current], current := [] }
  else { s with current := s.current ++ [char] }

/-- The parts, with the one the line ends in. -/
def finish (s : LineParser) : List (List Char) :=
  if s.current = [] then s.parts else s.parts ++ [s.current]

/-- `_parse_line` -/
def parseLine (line : String) : List String :=
  (finish (line.toList.foldl step {})).map String.ofList

/-- Inner double quotes get a backslash. -/
def escaped (arg : List Char) : List Char :=
  arg.flatMap fun char => if char = '"' then ['\\', '"'] else [char]

/-- An argument between double quotes. -/
def quoted (arg : List Char) : List Char := '"' :: (escaped arg ++ ['"'])

/-- The quoted arguments, joined with spaces. -/
def lineOf (args : List String) : String :=
  String.ofList ([' '].intercalate (args.map fun arg => quoted arg.toList))

/-! ## Characters that are kept -/

/-- How often a character is in what was read. -/
def occurrences (char : Char) (s : LineParser) : Nat :=
  s.parts.flatten.count char + s.current.count char

/-- A character that is neither a quote nor a space is never dropped. -/
theorem occurrences_step {char : Char} (hquote : ¬ (char = '"' ∨ char = '\''))
    (hspace : char ≠ ' ') (s : LineParser) (c : Char) :
    occurrences char (step s c) = occurrences char s + [c].count char := by
  have hother : c ≠ char → [c].count char = 0 := by
    intro hc
    rw [List.count_eq_zero, List.mem_singleton]
    exact Ne.symm hc
  unfold step
  split
  · rename_i hopen
    have hc : c ≠ char := fun heq => hquote (heq ▸ hopen.1)
    rw [hother hc]
    rfl
  split
  · rename_i hclose
    obtain ⟨q, -, hq⟩ := Option.map_eq_some_iff.mp hclose
    have hc : c ≠ char := fun heq => hquote (heq ▸ hq ▸ q.property)
    rw [hother hc]
    rfl
  split
  · rename_i hgap
    have hc : c ≠ char := fun heq => hspace (heq ▸ hgap.1)
    rw [hother hc]
    split
    · rfl
    · simp [occurrences]
  · simp only [occurrences, List.count_append]
    omega

theorem occurrences_foldl {char : Char} (hquote : ¬ (char = '"' ∨ char = '\''))
    (hspace : char ≠ ' ') (s : LineParser) (cs : List Char) :
    occurrences char (cs.foldl step s) = occurrences char s + cs.count char := by
  induction cs generalizing s with
  | nil => rfl
  | cons c cs ih =>
    have hcons : (c :: cs).count char = [c].count char + cs.count char := by
      rw [← List.singleton_append, List.count_append]
    rw [List.foldl_cons, ih, occurrences_step hquote hspace, hcons, Nat.add_assoc]

theorem count_finish (char : Char) (s : LineParser) :
    (finish s).flatten.count char = occurrences char s := by
  unfold finish
  split
  · rename_i hcurrent
    rw [occurrences, hcurrent]
    rfl
  · simp [occurrences]

/-- The characters of the arguments, one after the other. -/
def charsOf (args : List String) : List Char := (args.map String.toList).flatten

/-- The parts of a line hold a character as often as the line does. -/
theorem count_parseLine {char : Char} (hquote : ¬ (char = '"' ∨ char = '\''))
    (hspace : char ≠ ' ') (line : String) :
    (charsOf (parseLine line)).count char = line.toList.count char := by
  have hpart : String.toList ∘ String.ofList = id := funext fun cs => String.toList_ofList
  rw [charsOf, parseLine, List.map_map, hpart, List.map_id, count_finish,
    occurrences_foldl hquote hspace]
  exact Nat.zero_add _

/-! ## Quoted arguments -/

/-- The line of some arguments after the first. -/
def restOf (args : List String) : List Char := args.flatMap fun arg => ' ' :: quoted arg.toList

theorem toList_lineOf_cons (arg : String) (args : List String) :
    (lineOf (arg :: args)).toList = quoted arg.toList ++ restOf args := by
  rw [lineOf, String.toList_ofList, List.map_cons]
  induction args generalizing arg with
  | nil => simp [restOf, List.intercalate]
  | cons arg' args ih =>
    rw [List.map_cons, List.intercalate_cons_cons, ih, List.append_assoc]
    rfl

theorem count_escaped (arg : List Char) :
    (escaped arg).count '\\' = arg.count '\\' + arg.count '"' := by
  induction arg with
  | nil => rfl
  | cons c cs ih =>
    rw [escaped] at ih
    rw [escaped, List.flatMap_cons, List.count_append, ih, List.count_cons, List.count_cons]
    by_cases hc : c = '"'
    · rw [if_pos hc, hc]
      have hpair : ['\\', '"'].count '\\' = 1 := by decide
      rw [hpair]
      show _ = cs.count '\\' + 0 + (cs.count '"' + 1)
      omega
    · have hne : ¬ (c == '"') = true := by simpa using hc
      rw [if_neg hc, if_neg hne, List.count_singleton]
      omega

theorem count_quoted (arg : List Char) :
    (quoted arg).count '\\' = arg.count '\\' + arg.count '"' := by
  rw [quoted, List.count_cons_of_ne (by decide), List.count_append, count_escaped]
  rfl

/-- Each inner double quote puts one more backslash into the line. -/
theorem count_lineOf (args : List String) :
    (lineOf args).toList.count '\\' =
      (charsOf args).count '\\' + (charsOf args).count '"' := by
  cases args with
  | nil => rfl
  | cons arg args =>
    have hchars : ∀ (arg : String) (args : List String),
        charsOf (arg :: args) = arg.toList ++ charsOf args := fun _ _ => rfl
    have hrest : (restOf args).count '\\' =
        (charsOf args).count '\\' + (charsOf args).count '"' := by
      induction args with
      | nil => rfl
      | cons arg' args ih =>
        have hcons : restOf (arg' :: args) = ' ' :: (quoted arg'.toList ++ restOf args) := rfl
        rw [hcons, List.count_cons_of_ne (by decide), List.count_append, ih, count_quoted, hchars,
          List.count_append, List.count_append]
        omega
    rw [toList_lineOf_cons, List.count_append, hrest, count_quoted, hchars, List.count_append,
      List.count_append]
    omega

theorem escaped_plain {arg : List Char} (h : '"' ∉ arg) : escaped arg = arg := by
  induction arg with
  | nil => rfl
  | cons c cs ih =>
    rw [List.mem_cons, not_or] at h
    rw [escaped, List.flatMap_cons, if_neg (Ne.symm h.1)]
    exact congrArg (c :: ·) (ih h.2)

theorem step_open (q : Quote) {s : LineParser} (hs : s.quoteChar = none) :
    step s q.val = { s with quoteChar := some q } := by
  rw [step, dif_pos ⟨q.property, hs⟩]

theorem step_close {q : Quote} {s : LineParser} (hs : s.quoteChar = some q) :
    step s q.val = { s with quoteChar := none } := by
  have hopen : ¬ ((q.val = '"' ∨ q.val = '\'') ∧ s.quoteChar = none) := by
    rw [hs]
    exact fun h => Option.some_ne_none q h.2
  have hclose : s.quoteChar.map Subtype.val = some q.val := by rw [hs, Option.map_some]
  rw [step, dif_neg hopen, if_pos hclose]

/-- In quotes everything but the closing quote is collected. -/
theorem step_inside {q : Quote} {c : Char} (hc : q.val ≠ c) {s : LineParser}
    (hs : s.quoteChar = some q) : step s c = { s with current := s.current ++ [c] } := by
  have hin : s.quoteChar ≠ none := by
    rw [hs]
    exact Option.some_ne_none q
  have hclose : ¬ s.quoteChar.map Subtype.val = some c := by
    rw [hs, Option.map_some, Option.some.injEq]
    exact hc
  rw [step, dif_neg (fun hopen => hin hopen.2), if_neg hclose, if_neg fun hgap => hin hgap.2]

theorem foldl_inside {cs : List Char} {q : Quote} (h : q.val ∉ cs) {s : LineParser}
    (hs : s.quoteChar = some q) :
    cs.foldl step s = { s with current := s.current ++ cs } := by
  induction cs generalizing s with
  | nil => rw [List.append_nil]; rfl
  | cons c cs ih =>
    rw [List.mem_cons, not_or] at h
    have hrest := ih h.2 (s := { s with current := s.current ++ [c] }) hs
    rw [List.foldl_cons, step_inside h.1 hs, hrest, List.append_assoc]
    rfl

/-- A plain argument between quotes is added to what is current. -/
theorem foldl_quoted {arg : List Char} (h : '"' ∉ arg) {s : LineParser}
    (hs : s.quoteChar = none) :
    (quoted arg).foldl step s = { s with current := s.current ++ arg } := by
  obtain ⟨parts, current, quoteChar⟩ := s
  obtain rfl : quoteChar = none := hs
  let q : Quote := ⟨'"', .inl rfl⟩
  have hopen : step ⟨parts, current, none⟩ '"' = ⟨parts, current, some q⟩ := step_open q rfl
  have hinside : arg.foldl step ⟨parts, current, some q⟩ = ⟨parts, current ++ arg, some q⟩ :=
    foldl_inside (q := q) h rfl
  have hclose : step ⟨parts, current ++ arg, some q⟩ '"' = ⟨parts, current ++ arg, none⟩ :=
    step_close (q := q) rfl
  rw [quoted, escaped_plain h, List.foldl_cons, hopen, List.foldl_append, hinside,
    List.foldl_cons, List.foldl_nil, hclose]

/-- What a part counts for when it ends. -/
def kept (current : List Char) : List (List Char) := if current = [] then [] else [current]

theorem finish_eq (s : LineParser) : finish s = s.parts ++ kept s.current := by
  unfold finish kept
  split
  · exact (List.append_nil _).symm
  · rfl

theorem step_space (s : LineParser) (hs : s.quoteChar = none) :
    step s ' ' = { s with parts := s.parts ++ kept s.current, current := [] } := by
  have hquote : ¬ (' ' = '"' ∨ ' ' = '\'') := by decide
  have hclose : ¬ s.quoteChar.map Subtype.val = some ' ' := by
    rw [hs]
    exact Option.some_ne_none ' ' ∘ Eq.symm
  rw [step, dif_neg fun hopen => hquote hopen.1, if_neg hclose, if_pos ⟨rfl, hs⟩]
  unfold kept
  split
  · rename_i hcurrent
    rw [List.append_nil, ← hcurrent]
  · rfl

/-- After the current part come the plain arguments that are not empty. -/
theorem finish_restOf {args : List String} (h : ∀ arg ∈ args, '"' ∉ arg.toList) (s : LineParser)
    (hs : s.quoteChar = none) :
    finish ((restOf args).foldl step s) =
      s.parts ++ kept s.current ++ (args.map String.toList).flatMap kept := by
  induction args generalizing s with
  | nil =>
    rw [List.map_nil, List.flatMap_nil, List.append_nil]
    exact finish_eq s
  | cons arg args ih =>
    have hcons : restOf (arg :: args) = ' ' :: (quoted arg.toList ++ restOf args) := rfl
    have harg := h arg List.mem_cons_self
    have hquoted := foldl_quoted harg
      (s := { s with parts := s.parts ++ kept s.current, current := [] }) hs
    have hrest := ih (fun arg' harg' => h arg' (List.mem_cons_of_mem _ harg'))
      { s with parts := s.parts ++ kept s.current, current := arg.toList } hs
    rw [hcons, List.foldl_cons, step_space s hs, List.foldl_append, hquoted, List.nil_append,
      hrest, List.map_cons, List.flatMap_cons, ← List.append_assoc]

theorem map_ofList_kept (args : List String) :
    ((args.map String.toList).flatMap kept).map String.ofList =
      args.filter fun arg => arg ≠ "" := by
  induction args with
  | nil => rfl
  | cons arg args ih =>
    rw [List.map_cons, List.flatMap_cons, List.map_append, ih, kept]
    by_cases harg : arg = ""
    · have hempty : arg.toList = [] := by rw [harg]; rfl
      rw [if_pos hempty, List.filter_cons_of_neg (by simpa using harg)]
      rfl
    · have hne : arg.toList ≠ [] := fun hnil => harg (String.toList_inj.mp hnil)
      rw [if_neg hne, List.filter_cons_of_pos (by simpa using harg), List.map_singleton,
        String.ofList_toList]
      rfl

/-- Plain arguments are read back without the empty ones. -/
theorem parseLine_plain {args : List String} (h : ∀ arg ∈ args, '"' ∉ arg.toList) :
    parseLine (lineOf args) = args.filter fun arg => arg ≠ "" := by
  rw [← map_ofList_kept]
  cases args with
  | nil => rfl
  | cons arg args =>
    have hquoted := foldl_quoted (h arg List.mem_cons_self) (s := {}) rfl
    have hrest := finish_restOf (fun arg' harg' => h arg' (List.mem_cons_of_mem _ harg'))
      { current := arg.toList } rfl
    rw [parseLine, toList_lineOf_cons, List.foldl_append, hquoted, List.nil_append, hrest]
    rfl

/-- **Exactly when quoted arguments are read back**: if and only if none of them is empty and
    none has a double quote. -/
theorem parseLine_quoted_iff (args : List String) :
    parseLine (lineOf args) = args ↔ ∀ arg ∈ args, arg ≠ "" ∧ '"' ∉ arg.toList := by
  constructor
  · intro hargs
    have hcount : (charsOf (parseLine (lineOf args))).count '\\' =
        (lineOf args).toList.count '\\' :=
      count_parseLine (by decide) (by decide) (lineOf args)
    rw [hargs, count_lineOf] at hcount
    have hnone : (charsOf args).count '"' = 0 := by omega
    have hplain : ∀ arg ∈ args, '"' ∉ arg.toList := by
      intro arg harg hmem
      rw [List.count_eq_zero] at hnone
      exact hnone (List.mem_flatten.mpr ⟨_, List.mem_map.mpr ⟨arg, harg, rfl⟩, hmem⟩)
    rw [parseLine_plain hplain, List.filter_eq_self] at hargs
    exact fun arg harg => ⟨of_decide_eq_true (hargs arg harg), hplain arg harg⟩
  · intro h
    rw [parseLine_plain fun arg harg => (h arg harg).2, List.filter_eq_self]
    exact fun arg harg => decide_eq_true (h arg harg).1

/-! ### The documented command -/

/-- `SETEX cache:user 60 "{\"name\":\"Alice\"}"` -/
def documented : List String := ["SETEX", "cache:user", "60", "\x7b\"name\":\"Alice\"\x7d"]

/-- The value arrives with backslashes for its quotes. -/
theorem documented_misread :
    lineOf documented =
        "\"SETEX\" \"cache:user\" \"60\" \"\x7b\\\"name\\\":\\\"Alice\\\"\x7d\"" ∧
      parseLine (lineOf documented) =
        ["SETEX", "cache:user", "60", "\x7b\\name\\:\\Alice\\\x7d"] ∧
      parseLine (lineOf documented) ≠ documented := by
  decide +kernel

end MiniDb.DatabaseCLI
