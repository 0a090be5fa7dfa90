/-
  Reopening a log torn by a crash.

  `_open_file` opens the file for appending and does not look at its end. When the crash left
  a line without its newline, the first entry appended afterwards ends up on that line, and the
  two are skipped together as one corrupted line: the appended entry is lost, and so is an
  entry that only lacked its newline. `replay_reopened_iff` says that this is exactly when the
  next replay goes wrong.

  The file is any prefix of a complete log (`take n` of its text); `completeEntries` are the
  entries whose whole line is in it.
-/
import MiniDb.Storage.AofText
import Mathlib.Data.Rat.Lemmas

namespace MiniDb.AofText

open Lib Lib.Json

/-! ## Reopening and appending -/

/-- `_open_file`: mode "a" keeps the text. -/
def openFile (text : List Char) : List Char := text

/-- `append` with `sync=True`: the line is on disk when it returns. -/
def append (F : FloatText) (text : List Char) (e : AofEntry) : List Char :=
  text ++ lineText F e

/-- The file after a restart and the appends of `added`. -/
def reopened (F : FloatText) (text : List Char) (added : List AofEntry) : List Char :=
  added.foldl (append F) (openFile text)

theorem reopened_eq (F : FloatText) (text : List Char) (added : List AofEntry) :
    reopened F text added = text ++ render F added := by
  unfold reopened openFile
  induction added generalizing text with
  | nil => simp [render]
  | cons e es ih =>
    rw [List.foldl_cons, ih, append, render, render, List.flatMap_cons, List.append_assoc]

/-! ## Cutting a log -/

/-- The entries whose line lies within the first `n` characters of the log. -/
def completeEntries (F : FloatText) : List AofEntry → Nat → List AofEntry
  | [], _ => []
  | e :: es, n =>
    if n < (toLine F e).length then []
    else e :: completeEntries F es (n - (lineText F e).length)

/-- The text is empty or ends with a newline. -/
def EndsLine (text : List Char) : Prop := text = [] ∨ text.getLast? = some '\n'

/-- How a cut of a log looks: whole lines, or whole lines and a non-empty part of the next
    line (all of it, when only the newline is missing). -/
inductive Cut (F : FloatText) (es : List AofEntry) : List Char → List AofEntry → Prop where
  | clean (done : List AofEntry) (hd : ∀ e ∈ done, e ∈ es) : Cut F es (render F done) done
  | torn (done : List AofEntry) (e : AofEntry) (q r : List Char) (hd : ∀ e ∈ done, e ∈ es)
      (he : e ∈ es) (hqr : toLine F e = q ++ r) (hq : q ≠ []) (hr : r ≠ []) :
      Cut F es (render F done ++ q) done
  | unended (done : List AofEntry) (e : AofEntry) (hd : ∀ e ∈ done, e ∈ es) (he : e ∈ es) :
      Cut F es (render F done ++ toLine F e) (done ++ [e])

theorem render_cons (F : FloatText) (e : AofEntry) (es : List AofEntry) :
    render F (e :: es) = lineText F e ++ render F es := rfl

/-- A cut of the later lines, with the first line in front. -/
theorem Cut.cons {F : FloatText} {es : List AofEntry} {text : List Char} {done : List AofEntry}
    (e : AofEntry) (h : Cut F es text done) :
    Cut F (e :: es) (lineText F e ++ text) (e :: done) := by
  have hmem : ∀ ds : List AofEntry, (∀ d ∈ ds, d ∈ es) → ∀ d ∈ e :: ds, d ∈ e :: es := by
    intro ds hds d hd
    rcases List.mem_cons.mp hd with rfl | hd
    · exact List.mem_cons_self
    · exact List.mem_cons_of_mem e (hds d hd)
  cases h with
  | clean _ hd =>
    rw [← render_cons]
    exact .clean (e :: done) (hmem done hd)
  | torn done d q r hd he hqr hq hr =>
    rw [← List.append_assoc, ← render_cons]
    exact .torn (e :: done) d q r (hmem done hd) (List.mem_cons_of_mem e he) hqr hq hr
  | unended done d hd he =>
    rw [← List.append_assoc, ← render_cons]
    exact .unended (e :: done) d (hmem done hd) (List.mem_cons_of_mem e he)

theorem cut_take (F : FloatText) (es : List AofEntry) (n : Nat) :
    Cut F es ((render F es).take n) (completeEntries F es n) := by
  induction es generalizing n with
  | nil =>
    have hnil : Cut F [] (render F []) [] := .clean [] (by simp)
    simpa [render, completeEntries] using hnil
  | cons e es ih =>
    rw [render_cons, completeEntries]
    have hlen : (lineText F e).length = (toLine F e).length + 1 := by simp [lineText]
    by_cases hn : n < (toLine F e).length
    · -- the cut is inside the first line
      rw [if_pos hn, List.take_append_of_le_length (by omega), lineText,
        List.take_append_of_le_length (by omega)]
      by_cases h0 : n = 0
      · subst h0
        exact .clean [] (by simp)
      · refine .torn [] e _ ((toLine F e).drop n) (by simp) List.mem_cons_self
          (List.take_append_drop n _).symm ?_ ?_
        · intro h
          have := congrArg List.length h
          rw [List.length_take, List.length_nil] at this
          omega
        · intro h
          have := congrArg List.length h
          rw [List.length_drop, List.length_nil] at this
          omega
    · rw [if_neg hn]
      by_cases heq : n = (toLine F e).length
      · -- only the newline of the first line is missing
        have htake : (lineText F e ++ render F es).take n = toLine F e := by
          rw [lineText, heq, List.append_assoc, List.take_left]
        have hdone : completeEntries F es (n - (lineText F e).length) = [] := by
          rw [show n - (lineText F e).length = 0 by omega]
          cases es with
          | nil => rfl
          | cons d ds =>
            rw [completeEntries, if_pos (List.length_pos_iff.mpr (toLine_ne_nil F d))]
        rw [htake, hdone]
        exact .unended [] e (by simp) List.mem_cons_self
      · have htake : (lineText F e ++ render F es).take n =
            lineText F e ++ (render F es).take (n - (lineText F e).length) := by
          rw [List.take_append, List.take_of_length_le (by omega)]
        rw [htake]
        exact (ih _).cons e

/-! ## Replay after a restart -/

theorem endsLine_render (F : FloatText) (es : List AofEntry) : EndsLine (render F es) := by
  induction es using List.reverseRecOn with
  | nil => exact Or.inl rfl
  | append_singleton es e _ => exact Or.inr (by simp [render, lineText])

theorem not_endsLine_of_printable {text q : List Char} (hq : q ≠ [])
    (h : ∀ c ∈ q, PrintableChar c) : ¬ EndsLine (text ++ q) := by
  rintro (h0 | hlast)
  · exact hq (List.append_eq_nil_iff.mp h0).2
  · rw [List.getLast?_append_of_ne_nil _ hq] at hlast
    exact absurd (h _ (List.mem_of_getLast? hlast)) (by decide)

/-- Entries appended to a line that was not ended: the first is lost with the line. -/
theorem replay_reopened_unended {F : FloatText} {done added : List AofEntry} {a : AofEntry}
    {e : AofEntry} {q r : List Char} (hd : ∀ e ∈ done, Loggable F e) (he : Loggable F e)
    (ha : ∀ e ∈ a :: added, Loggable F e) (hqr : toLine F e = q ++ r) (hq : q ≠ []) :
    replay F (reopened F (render F done ++ q) (a :: added)) = .ok (done ++ added) := by
  rw [reopened_eq, List.append_assoc, replay_render_append hd, render_cons,
    replay_glued he (ha a List.mem_cons_self) hqr hq,
    replay_render fun d h => ha d (List.mem_cons_of_mem a h)]
  rfl

/-- So one entry too few comes back. -/
theorem replay_reopened_ne {F : FloatText} {done expected added : List AofEntry} {a : AofEntry}
    {e : AofEntry} {q r : List Char} (hd : ∀ e ∈ done, Loggable F e) (he : Loggable F e)
    (ha : ∀ e ∈ a :: added, Loggable F e) (hqr : toLine F e = q ++ r) (hq : q ≠ [])
    (hlen : done.length ≤ expected.length) :
    replay F (reopened F (render F done ++ q) (a :: added)) ≠ .ok (expected ++ a :: added) := by
  rw [replay_reopened_unended hd he ha hqr hq]
  intro h
  have hcount := congrArg List.length (Except.ok.inj h)
  rw [List.length_append, List.length_append, List.length_cons] at hcount
  omega

/-- **Exactly when a reopened log replays in full**: for every log, every cut of it and every
    list of entries appended after the restart, the next replay hands over the complete entries
    and then the appended ones if and only if the crash left the file at the end of a line or
    nothing was appended. -/
theorem replay_reopened_iff (F : FloatText) (es added : List AofEntry)
    (hes : ∀ e ∈ es, Loggable F e) (hadded : ∀ e ∈ added, Loggable F e) (n : Nat) :
    replay F (reopened F ((render F es).take n) added) =
        .ok (completeEntries F es n ++ added) ↔
      EndsLine ((render F es).take n) ∨ added = [] := by
  have hcut := cut_take F es n
  generalize (render F es).take n = text at hcut ⊢
  generalize completeEntries F es n = done at hcut ⊢
  -- with nothing appended, a torn or unended last line does no harm
  have hnone : ∀ t, reopened F t [] = t := fun t => by rw [reopened_eq]; simp [render]
  cases hcut with
  | clean _ hd =>
    have hd' : ∀ e ∈ done, Loggable F e := fun e he => hes e (hd e he)
    refine ⟨fun _ => .inl (endsLine_render F done), fun _ => ?_⟩
    rw [reopened_eq, replay_render_append hd', replay_render hadded]
    rfl
  | torn _ e q r hd he hqr hq hr =>
    have hd' : ∀ e ∈ done, Loggable F e := fun e he => hes e (hd e he)
    have hnot : ¬ EndsLine (render F done ++ q) :=
      not_endsLine_of_printable hq (printable_cut (hes e he) hqr)
    cases added with
    | nil =>
      refine ⟨fun _ => .inr rfl, fun _ => ?_⟩
      rw [hnone, replay_render_append hd', replay_torn (hes e he) hqr hq hr]
      rfl
    | cons a added =>
      exact iff_of_false (replay_reopened_ne hd' (hes e he) hadded hqr hq (le_refl _))
        (not_or.mpr ⟨hnot, List.cons_ne_nil a added⟩)
  | unended done e hd he =>
    have hd' : ∀ e ∈ done, Loggable F e := fun e he => hes e (hd e he)
    have hnot : ¬ EndsLine (render F done ++ toLine F e) :=
      not_endsLine_of_printable (toLine_ne_nil F e) (printable_toLine (hes e he))
    cases added with
    | nil =>
      refine ⟨fun _ => .inr rfl, fun _ => ?_⟩
      rw [hnone, replay_render_append hd', replay_unended (hes e he), List.append_nil]
      rfl
    | cons a added =>
      have hlen : done.length ≤ (done ++ [e]).length := by
        rw [List.length_append]
        omega
      exact iff_of_false (replay_reopened_ne hd' (hes e he) hadded (List.append_nil _).symm
        (toLine_ne_nil F e) hlen) (not_or.mpr ⟨hnot, List.cons_ne_nil a added⟩)

/-! ### A lost append -/

def firstEntry : AofEntry :=
  { timestamp := 1, command := .set, key := "a", value := .str "x", createdAt := some 1,
    coordinatorId := "n1" }

def secondEntry : AofEntry :=
  { timestamp := 2, command := .set, key := "b", value := .str "y", createdAt := some 2,
    coordinatorId := "n1" }

theorem loggable_firstEntry : Loggable wholeFloats firstEntry := by
  refine ⟨rfl, trivial, by simp [firstEntry], ?_⟩
  intro x hx
  cases hx
  rfl

theorem loggable_secondEntry : Loggable wholeFloats secondEntry := by
  refine ⟨rfl, trivial, by simp [secondEntry], ?_⟩
  intro x hx
  cases hx
  rfl

theorem replay_reopened_iff_sample :
    replay wholeFloats (reopened wholeFloats ((render wholeFloats [firstEntry]).take 5)
        [secondEntry]) = .ok (completeEntries wholeFloats [firstEntry] 5 ++ [secondEntry]) ↔
      EndsLine ((render wholeFloats [firstEntry]).take 5) ∨ [secondEntry] = [] :=
  replay_reopened_iff wholeFloats [firstEntry] [secondEntry]
    (by simpa using loggable_firstEntry) (by simpa using loggable_secondEntry) 5

set_option maxRecDepth 100000 in
/-- The log of one entry cut after `{"ts"`, reopened, and one entry appended: the next replay
    hands over nothing. -/
theorem reopened_torn_log_loses_append :
    replay wholeFloats (reopened wholeFloats ((render wholeFloats [firstEntry]).take 5)
        [secondEntry]) = .ok [] ∧
      (.ok [] : Except LineError (List AofEntry)) ≠
        .ok (completeEntries wholeFloats [firstEntry] 5 ++ [secondEntry]) :=
  ⟨rfl, by simp⟩

end MiniDb.AofText
