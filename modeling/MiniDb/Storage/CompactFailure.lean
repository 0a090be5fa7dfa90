/-
  An operation of `AOFPersistence.compact` that raises (`storage/aof.py`; `node.py`,
  `_maintenance_loop`, catches the exception and goes on).

  `compact` closes the log before it writes the temporary file, and opens it again as its last
  step. Whatever raises in between leaves the handle closed: `compact_raise_iff`. Nothing opens
  it later, since the next `compact` starts by syncing the closed handle (`closed_for_good`).
  `readAof_after_raise` says what a replay would still find.
-/
import MiniDb.Storage.Snapshot
import Mathlib.Tactic.IntervalCases

namespace MiniDb.CompactFailure

open Lib

/-! ## The steps of `compact` -/

/-- `AOFPersistence`: whether its file is open, and the directory. -/
structure AofFile where
  isOpen : Bool
  dir : DataDir

inductive CompactStep where
  /-- `_do_fsync` -/
  | sync
  | close
  | file (op : FileOp Path Content)
  /-- `_open_file` -/
  | reopen

/-- A step that nothing hinders; `none` is the exception of syncing a closed file, or of an
    operation on a missing one. -/
def performStep : CompactStep → AofFile → Option AofFile
  | .sync, a => if a.isOpen then some a else none
  | .close, a => some { a with isOpen := false }
  | .file op, a => (perform op a.dir).map fun d => { a with dir := d }
  | .reopen, a => some ⟨true, openAof a.dir⟩

def performSteps : List CompactStep → AofFile → Option AofFile
  | [], a => some a
  | s :: steps, a => (performStep s a).bind (performSteps steps)

/-- `compact` -/
def compactSteps (currentState : Dict String KVStore.Item) (now : Time) : List CompactStep :=
  .sync :: .close :: ((compactOps currentState now).map .file ++ [.reopen])

/-- The step comes to a system call. -/
def Attempted : CompactStep → AofFile → Prop
  | .file (.ifExists p _), a => a.dir p ≠ none
  | _, _ => True

/-- What a step that raises leaves: a file whose closing raises is closed. -/
def afterRaise : CompactStep → AofFile → AofFile
  | .close, a => { a with isOpen := false }
  | _, a => a

/-- Step `k` of `compact` (from 0) is attempted and raises, the ones before it do not. -/
def Raises (currentState : Dict String KVStore.Item) (now : Time) (k : Nat) (a b : AofFile) :
    Prop :=
  ∃ a' s, performSteps ((compactSteps currentState now).take k) a = some a' ∧
    (compactSteps currentState now)[k]? = some s ∧ Attempted s a' ∧ b = afterRaise s a'

/-- `append`; `none` is the exception of writing to a closed file. -/
def append (a : AofFile) (e : AofEntry) : Option AofFile :=
  if a.isOpen then some { a with dir := appendAof a.dir e } else none

def appendAll : List AofEntry → AofFile → Option AofFile
  | [], a => some a
  | e :: es, a => (append a e).bind (appendAll es)

/-! ## The handle -/

theorem appendAll_open {a : AofFile} (hopen : a.isOpen = true) {logged : List AofEntry}
    (hlog : a.dir .aof = some (.closed (.log logged))) (es : List AofEntry) :
    ∃ b, appendAll es a = some b ∧ readAof b.dir = logged ++ es := by
  induction es generalizing a logged with
  | nil =>
    refine ⟨a, rfl, ?_⟩
    rw [readAof, hlog, List.append_nil]
  | cons e es ih =>
    have hdir : appendAof a.dir e .aof = some (.closed (.log (logged ++ [e]))) := by
      simp only [appendAof, hlog, Function.update_self]
    obtain ⟨b, hb, hread⟩ := ih (a := { a with dir := appendAof a.dir e }) hopen hdir
    refine ⟨b, ?_, ?_⟩
    · rw [appendAll, append, if_pos hopen]
      exact hb
    · rw [hread, List.append_assoc, List.singleton_append]

theorem performSteps_append (steps steps' : List CompactStep) (a : AofFile) :
    performSteps (steps ++ steps') a = (performSteps steps a).bind (performSteps steps') := by
  induction steps generalizing a with
  | nil => rfl
  | cons s steps ih =>
    rw [List.cons_append, performSteps, performSteps, Option.bind_assoc]
    exact congrArg _ (funext ih)

/-- File operations do not open the log. -/
theorem performSteps_files {ops : List (FileOp Path Content)} {a b : AofFile}
    (h : performSteps (ops.map .file) a = some b) : b.isOpen = a.isOpen := by
  induction ops generalizing a with
  | nil =>
    cases h
    rfl
  | cons op ops ih =>
    rw [List.map_cons, performSteps, performStep] at h
    cases hd : perform op a.dir with
    | none =>
      rw [hd] at h
      cases h
    | some d =>
      rw [hd] at h
      exact ih (a := { a with dir := d }) h

theorem afterRaise_closed {a : AofFile} (h : a.isOpen = false) (s : CompactStep) :
    (afterRaise s a).isOpen = false := by
  cases s <;> first | exact h | rfl

/-- Only the sync of an open log lets `compact` go on. -/
theorem isOpen_of_performSteps {currentState : Dict String KVStore.Item} {now : Time} {k : Nat}
    {a b : AofFile} (h : performSteps ((compactSteps currentState now).take (k + 1)) a = some b) :
    a.isOpen = true := by
  by_contra hclosed
  rw [compactSteps, List.take_succ_cons, performSteps, performStep, if_neg hclosed] at h
  cases h

/-- Whatever raises after the first step leaves the handle closed. -/
theorem closed_of_raises {currentState : Dict String KVStore.Item} {now : Time} {k : Nat}
    {a b : AofFile} (h : Raises currentState now (k + 1) a b) : b.isOpen = false := by
  obtain ⟨a', s, hsteps, hs, -, rfl⟩ := h
  cases k with
  | zero =>
    cases hs
    rfl
  | succ j =>
    refine afterRaise_closed ?_ s
    have hopen := isOpen_of_performSteps hsteps
    have hlength : j ≤ (compactOps currentState now).length := by
      obtain ⟨hj, -⟩ := List.getElem?_eq_some_iff.mp hs
      simp [compactSteps] at hj
      omega
    -- before the last step, only file operations have followed the close
    have htake : (compactSteps currentState now).take (j + 1 + 1) =
        [.sync, .close] ++ ((compactOps currentState now).take j).map .file := by
      rw [compactSteps, List.take_succ_cons, List.take_succ_cons,
        List.take_append_of_le_length (by rwa [List.length_map]), List.map_take]
      rfl
    rw [htake, performSteps_append] at hsteps
    obtain ⟨c, hc, hfiles⟩ := Option.bind_eq_some_iff.mp hsteps
    rw [performSteps_files hfiles]
    rw [performSteps, performStep, if_pos hopen] at hc
    cases hc
    rfl

/-- Nothing opens a closed handle: neither `append` nor `compact` gets past it. -/
theorem closed_for_good {a : AofFile} (h : a.isOpen = false) (e : AofEntry)
    (currentState : Dict String KVStore.Item) (now : Time) :
    append a e = none ∧ performSteps (compactSteps currentState now) a = none := by
  constructor
  · rw [append, h]
    rfl
  · show (if a.isOpen = true then some a else none).bind _ = none
    rw [h]
    rfl

/-! ## After the exception -/

/-- What the log owes after an exception in `compact`: later appends are accepted, and a replay
    finds them after all that was logged before. -/
def KeepsLogging (a b : AofFile) : Prop :=
  ∀ es, ∃ c, appendAll es b = some c ∧ readAof c.dir = readAof a.dir ++ es

/-- **Exactly when the log goes on**: for every log, every captured state and every step of
    `compact` that can raise, if and only if it is the first one, the sync before the log is
    closed. -/
theorem compact_raise_iff {a : AofFile} (hopen : a.isOpen = true) {logged : List AofEntry}
    (hlog : a.dir .aof = some (.closed (.log logged))) {currentState : Dict String KVStore.Item}
    {now : Time} {k : Nat} {b : AofFile} (h : Raises currentState now k a b) :
    KeepsLogging a b ↔ k = 0 := by
  constructor
  · intro hkeeps
    cases k with
    | zero => rfl
    | succ k =>
      obtain ⟨c, hc, -⟩ := hkeeps [{ timestamp := 0, command := .delete, key := "" }]
      rw [appendAll, (closed_for_good (closed_of_raises h) _ currentState now).1] at hc
      cases hc
  · rintro rfl es
    obtain ⟨a', s, hsteps, hs, -, rfl⟩ := h
    cases hsteps
    cases hs
    obtain ⟨c, hc, hread⟩ := appendAll_open hopen hlog es
    refine ⟨c, hc, ?_⟩
    rw [hread, readAof, hlog]

/-- An open log with one DELETE, and no other file. -/
def openLog : AofFile :=
  ⟨true, fun
    | .aof => some (.closed (.log [{ timestamp := 1, command := .delete, key := "a" }]))
    | _ => none⟩

theorem openLog_raises : Raises Dict.empty 2 2 openLog ⟨false, openLog.dir⟩ :=
  ⟨⟨false, openLog.dir⟩, .file (.create .aofTmp), rfl, rfl, trivial, rfl⟩

theorem compact_raise_iff_sample :
    Raises Dict.empty 2 2 openLog ⟨false, openLog.dir⟩ ∧
      (KeepsLogging openLog ⟨false, openLog.dir⟩ ↔ 2 = 0) :=
  ⟨openLog_raises, compact_raise_iff rfl rfl openLog_raises⟩

/-- The temporary file cannot be opened, say because the disk is full: the log takes no more
    entries. -/
theorem append_raises_after_compact :
    Raises Dict.empty 2 2 openLog ⟨false, openLog.dir⟩ ∧
      append ⟨false, openLog.dir⟩ { timestamp := 3, command := .delete, key := "b" } = none ∧
      ¬KeepsLogging openLog ⟨false, openLog.dir⟩ := by
  refine ⟨openLog_raises, rfl, fun hkeeps => ?_⟩
  obtain ⟨c, hc, -⟩ := hkeeps [{ timestamp := 3, command := .delete, key := "b" }]
  cases hc

/-- What a replay finds after the exception: the whole log, nothing once the log is moved away,
    and the compacted log once that is in its place. -/
theorem readAof_after_raise {a : AofFile} {logged : List AofEntry}
    (hlog : a.dir .aof = some (.closed (.log logged))) {currentState : Dict String KVStore.Item}
    {now : Time} {k : Nat} {b : AofFile} (h : Raises currentState now k a b) :
    readAof b.dir = if k < 6 then logged
      else if k = 6 then [] else compactEntries currentState now := by
  obtain ⟨a', s, hsteps, hs, -, rfl⟩ := h
  have hk : k < 8 := by
    obtain ⟨hk, -⟩ := List.getElem?_eq_some_iff.mp hs
    exact hk
  have hdir : (afterRaise s a').dir = a'.dir := by cases s <;> rfl
  rw [hdir]
  have hopen : k = 0 ∨ a.isOpen = true := by
    cases k with
    | zero => exact .inl rfl
    | succ k => exact .inr (isOpen_of_performSteps hsteps)
  rcases hopen with rfl | hopen
  · cases hsteps
    rw [readAof, hlog]
    rfl
  · cases hbak : a.dir .aofBak <;> interval_cases k <;>
      simp [compactSteps, compactOps, performSteps, performStep, perform, hopen, hlog, hbak]
        at hsteps <;>
      simp [readAof, ← hsteps, hlog]

end MiniDb.CompactFailure
