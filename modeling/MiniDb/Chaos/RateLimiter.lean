/-
  Rate limiters (`chaos/rate_limiter.py`): runs of calls for any keys.

  A call reads the clock up to twice; both readings are part of the call (where it reads once,
  that is the late one), and the clock does not run back (`Clocked`). A limiter keeps its state
  key by key: `LocalTo.filter` says that then the outcomes for a key are those of its own calls
  alone.

  Not modelled: the statistics of a limiter.
-/
import MiniDb.Lib.RateBound
import MiniDb.Storage.KvStore

namespace MiniDb

open Lib

namespace RateLimiter

inductive CallKind where
  | tryAcquire
  /-- `get_available_tokens`, `get_current_count` -/
  | query
  deriving DecidableEq

structure Call where
  key : String
  kind : CallKind
  early : Time
  late : Time

/-- All readings of the clock, in order, do not fall. -/
def Clocked (cs : List Call) : Prop := (cs.flatMap fun c => [c.early, c.late]).Pairwise (· ≤ ·)

instance (cs : List Call) : Decidable (Clocked cs) := by
  unfold Clocked
  infer_instance

/-- The clock has not run back since `t`. -/
def ClockedFrom (t : Time) (cs : List Call) : Prop := (∀ c ∈ cs, t ≤ c.early) ∧ Clocked cs

theorem ClockedFrom.cons {t : Time} {c : Call} {cs : List Call} (h : ClockedFrom t (c :: cs)) :
    t ≤ c.early ∧ c.early ≤ c.late ∧ ClockedFrom c.late cs := by
  obtain ⟨hfrom, hclock⟩ := h
  unfold Clocked at hclock
  rw [List.flatMap_cons, List.cons_append, List.pairwise_cons, List.singleton_append,
    List.pairwise_cons] at hclock
  obtain ⟨hearly, hlate, hrest⟩ := hclock
  refine ⟨hfrom c List.mem_cons_self, hearly _ List.mem_cons_self, fun d hd => ?_, hrest⟩
  exact hlate _ (List.mem_flatMap.mpr ⟨d, hd, List.mem_cons_self⟩)

/-- There is a time before all. -/
theorem Clocked.exists_from {cs : List Call} (h : Clocked cs) : ∃ t, ClockedFrom t cs := by
  cases cs with
  | nil => exact ⟨0, nofun, h⟩
  | cons c cs =>
    refine ⟨c.early, fun d hd => ?_, h⟩
    rcases List.mem_cons.mp hd with rfl | hd
    · exact le_refl _
    · unfold Clocked at h
      rw [List.flatMap_cons, List.cons_append, List.pairwise_cons] at h
      exact h.1 _ (List.mem_append_right _ (List.mem_flatMap.mpr ⟨d, hd, List.mem_cons_self⟩))

section Runs

variable {L : Type} (call : L → Call → L × Bool)

/-- The limiter after the calls. -/
def runCalls (l : L) (cs : List Call) : L := cs.foldl (fun l c => (call l c).1) l

/-- The calls for a key: their late readings, and whether they were given a permit. -/
def outcomes (key : String) : L → List Call → List (Time × Bool)
  | _, [] => []
  | l, c :: cs =>
    if c.key = key then (c.late, (call l c).2) :: outcomes key (call l c).1 cs
    else outcomes key (call l c).1 cs

/-- The calls at `key` see, and change, only what `view` shows; no other call changes it. -/
structure LocalTo {β : Type} (key : String) (view : L → β) : Prop where
  other : ∀ l c, c.key ≠ key → view (call l c).1 = view l
  same : ∀ l l' c, c.key = key → view l = view l' →
    view (call l c).1 = view (call l' c).1 ∧ (call l c).2 = (call l' c).2

variable {call}

/-- The outcomes for a key, and what the limiter has of it, are those of its own calls. -/
theorem LocalTo.filter {β : Type} {key : String} {view : L → β} (h : LocalTo call key view)
    (cs : List Call) {l l' : L} (hview : view l = view l') :
    outcomes call key l cs = outcomes call key l' (cs.filter fun c => c.key = key) ∧
      view (runCalls call l cs) = view (runCalls call l' (cs.filter fun c => c.key = key)) := by
  induction cs generalizing l l' with
  | nil => exact ⟨rfl, hview⟩
  | cons c cs ih =>
    by_cases hc : c.key = key
    · obtain ⟨hnext, hflag⟩ := h.same l l' c hc hview
      obtain ⟨hout, hrun⟩ := ih hnext
      rw [List.filter_cons_of_pos (by simpa using hc)]
      refine ⟨?_, hrun⟩
      unfold outcomes
      rw [if_pos hc, if_pos hc, hflag, hout]
    · obtain ⟨hout, hrun⟩ := ih ((h.other l c hc).trans hview)
      rw [List.filter_cons_of_neg (by simpa using hc)]
      refine ⟨?_, hrun⟩
      rw [outcomes, if_neg hc, hout]

end Runs

/-- The permits given in the closed interval. -/
def permits (s t : Time) (os : List (Time × Bool)) : Nat :=
  os.countP fun o => o.2 ∧ s ≤ o.1 ∧ o.1 ≤ t

/-- A permit costs one. -/
def costs (os : List (Time × Bool)) : List (Time × ℚ) :=
  os.map fun o => (o.1, if o.2 then 1 else 0)

theorem spent_costs (s t : Time) (os : List (Time × Bool)) :
    spent s t (costs os) = permits s t os := by
  induction os with
  | nil => rfl
  | cons o os ih =>
    obtain ⟨x, ok⟩ := o
    have hcons : costs ((x, ok) :: os) = (x, if ok then 1 else 0) :: costs os := rfl
    unfold permits at ih ⊢
    rw [hcons, spent_cons, ih, List.countP_cons]
    cases ok
    · simp
    · by_cases hin : s ≤ x ∧ x ≤ t
      · simp [hin, add_comm]
      · simp [hin]

theorem costs_nonneg {os : List (Time × Bool)} : ∀ p ∈ costs os, 0 ≤ p.2 := by
  intro p hp
  obtain ⟨⟨x, ok⟩, -, rfl⟩ := List.mem_map.mp hp
  cases ok <;> simp

end RateLimiter

end MiniDb
