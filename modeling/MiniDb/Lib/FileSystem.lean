/-
  Programs of file operations, stopped by a crash at any point.

  A directory maps paths to files. A file is complete once it is closed (its content is then
  a value of the content type); before that it is there but cannot be read. Removing and
  renaming are atomic. `perform` is one operation; it is `none` where the operating system
  reports an error.

  `Crash C Q ops d` is the weakest precondition of the program `ops` for crash condition `C`
  and postcondition `Q`: from `d`, no operation fails, every directory a crash can leave behind
  meets `C`, and the one at the end meets `Q`. Its rules: one operation (`Crash.step`), stopping
  now (`Crash.now`), and the frame rule (`crash_update`: a path the program does not touch, and
  `C` and `Q` do not read, may change under it).
-/
import Mathlib.Logic.Function.Basic

namespace Lib

inductive File (γ : Type) where
  | writing
  | closed (c : γ)

/-- The files of a directory by path. -/
abbrev Directory (π γ : Type) := π → Option (File γ)

inductive FileOp (π γ : Type) where
  | create (p : π)
  | close (p : π) (c : γ)
  | remove (p : π)
  | rename (p q : π)
  /-- `if os.path.exists(p): op` -/
  | ifExists (p : π) (op : FileOp π γ)

section

variable {π γ : Type} [DecidableEq π]

def perform : FileOp π γ → Directory π γ → Option (Directory π γ)
  | .create p, d => some (Function.update d p (some .writing))
  | .close p c, d => some (Function.update d p (some (.closed c)))
  | .remove p, d =>
    match d p with
    | some _ => some (Function.update d p none)
    | none => none
  | .rename p q, d =>
    match d p with
    | some f => some (Function.update (Function.update d p none) q (some f))
    | none => none
  | .ifExists p op, d =>
    match d p with
    | some _ => perform op d
    | none => some d

/-- The operations one after the other. -/
def performAll : List (FileOp π γ) → Directory π γ → Option (Directory π γ)
  | [], d => some d
  | op :: ops, d => (perform op d).bind (performAll ops)

/-- From `d`, the program meets `C` at every point and `Q` at its end. -/
def Crash (C Q : Directory π γ → Prop) : List (FileOp π γ) → Directory π γ → Prop
  | [], d => C d ∧ Q d
  | op :: ops, d => C d ∧ ∃ d', perform op d = some d' ∧ Crash C Q ops d'

variable {C Q : Directory π γ → Prop}

/-- Where a program can be stopped now, it meets its crash condition. -/
theorem Crash.now {ops : List (FileOp π γ)} {d : Directory π γ} (h : Crash C Q ops d) : C d := by
  cases ops with
  | nil => exact h.1
  | cons op ops => exact h.1

/-- One operation of the program. -/
theorem Crash.step {op : FileOp π γ} {ops : List (FileOp π γ)} {d d' : Directory π γ}
    (h : Crash C Q (op :: ops) d) (hd : perform op d = some d') : Crash C Q ops d' := by
  obtain ⟨_, d₁, h₁, hrest⟩ := h
  rw [hd, Option.some.injEq] at h₁
  exact h₁ ▸ hrest

/-! ## The frame rule -/

/-- The operation reads and writes no path but those of `p ≠ ·`. -/
def FileOp.Avoids (p : π) : FileOp π γ → Prop
  | .create q => q ≠ p
  | .close q _ => q ≠ p
  | .remove q => q ≠ p
  | .rename q r => q ≠ p ∧ r ≠ p
  | .ifExists q op => q ≠ p ∧ op.Avoids p

theorem perform_update {p : π} {op : FileOp π γ} (h : op.Avoids p) (d : Directory π γ)
    (f : Option (File γ)) :
    perform op (Function.update d p f) =
      (perform op d).map fun d' => Function.update d' p f := by
  induction op with
  | create q =>
    simp only [perform, Option.map_some]
    rw [Function.update_comm (Ne.symm h)]
  | close q c =>
    simp only [perform, Option.map_some]
    rw [Function.update_comm (Ne.symm h)]
  | remove q =>
    simp only [perform, Function.update_of_ne h]
    cases d q with
    | none => rfl
    | some g => rw [Option.map_some, Function.update_comm (Ne.symm h)]
  | rename q r =>
    simp only [perform, Function.update_of_ne h.1]
    cases d q with
    | none => rfl
    | some g =>
      simp only [Option.map_some]
      rw [Function.update_comm (Ne.symm h.1), Function.update_comm (Ne.symm h.2)]
  | ifExists q op ih =>
    simp only [perform, Function.update_of_ne h.1]
    cases d q with
    | none => rfl
    | some g => exact ih h.2

/-- An operation leaves the path it avoids as it was. -/
theorem perform_avoids {p : π} {op : FileOp π γ} (h : op.Avoids p) {d d' : Directory π γ}
    (hd : perform op d = some d') : d' p = d p := by
  have hup := perform_update h d (d p)
  rw [Function.update_eq_self, hd, Option.map_some, Option.some.injEq] at hup
  rw [hup, Function.update_self]

/-- **Frame rule.** -/
theorem crash_update {p : π} (hC : ∀ d f, C d → C (Function.update d p f))
    (hQ : ∀ d f, Q d → Q (Function.update d p f)) {ops : List (FileOp π γ)}
    (hops : ∀ op ∈ ops, op.Avoids p) {d : Directory π γ} (f : Option (File γ))
    (h : Crash C Q ops d) : Crash C Q ops (Function.update d p f) := by
  induction ops generalizing d with
  | nil => exact ⟨hC d f h.1, hQ d f h.2⟩
  | cons op ops ih =>
    obtain ⟨hd, d', hd', hrest⟩ := h
    refine ⟨hC d f hd, Function.update d' p f, ?_, ?_⟩
    · rw [perform_update (hops op List.mem_cons_self), hd', Option.map_some]
    · exact ih (fun o ho => hops o (List.mem_cons_of_mem op ho)) hrest

end

end Lib
