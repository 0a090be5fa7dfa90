/-
  `SlidingWindowLimiter` (`chaos/rate_limiter.py`).

  The early reading of a call is that of `_cleanup_window`, the late one the time that is
  appended. What was cleaned away lies before the last cutoff (`Kept`), so that a deque that is
  not full says that few permits lie within a window's length; the permits are spaced
  (`spaced_appended`).
-/
import MiniDb.Chaos.RateLimiter
import Mathlib.Data.List.TakeWhile

namespace MiniDb

open Lib RateLimiter

structure SlidingWindowLimiter where
  maxRequests : Nat
  windowSeconds : Time
  windows : Dict String (List Time)

namespace SlidingWindowLimiter

/-- `SlidingWindowLimiter(max_requests, window_seconds)` -/
def new (maxRequests : Nat) (windowSeconds : Time) : SlidingWindowLimiter :=
  ⟨maxRequests, windowSeconds, .empty⟩

def getWindow (l : SlidingWindowLimiter) (key : String) : List Time :=
  (l.windows.get? key).getD []

def cleanupWindow (l : SlidingWindowLimiter) (window : List Time) (now : Time) : List Time :=
  window.dropWhile fun x => x < now - l.windowSeconds

def tryAcquire (l : SlidingWindowLimiter) (key : String) (early late : Time) :
    SlidingWindowLimiter × Bool :=
  let window := l.cleanupWindow (l.getWindow key) early
  if window.length < l.maxRequests then
    ({ l with windows := l.windows.set key (window ++ [late]) }, true)
  else ({ l with windows := l.windows.set key window }, false)

def getCurrentCount (l : SlidingWindowLimiter) (key : String) (now : Time) :
    SlidingWindowLimiter × Nat :=
  let window := l.cleanupWindow (l.getWindow key) now
  ({ l with windows := l.windows.set key window }, window.length)

def call (l : SlidingWindowLimiter) (c : Call) : SlidingWindowLimiter × Bool :=
  match c.kind with
  | .tryAcquire => l.tryAcquire c.key c.early c.late
  | .query => ((l.getCurrentCount c.key c.early).1, false)

/-! ## What a call does -/

/-- All that a call does. -/
structure CallEffect (l : SlidingWindowLimiter) (c : Call) (out : SlidingWindowLimiter × Bool) :
    Prop where
  maxRequests : out.1.maxRequests = l.maxRequests
  windowSeconds : out.1.windowSeconds = l.windowSeconds
  windows : ∀ key, out.1.getWindow key =
    if key = c.key then
      l.cleanupWindow (l.getWindow key) c.early ++ if out.2 then [c.late] else []
    else l.getWindow key
  permit : out.2 = true →
    (l.cleanupWindow (l.getWindow c.key) c.early).length < l.maxRequests

theorem call_effect (l : SlidingWindowLimiter) (c : Call) : CallEffect l c (l.call c) := by
  have hset : ∀ window key, ({ l with windows := l.windows.set c.key window } :
      SlidingWindowLimiter).getWindow key = if key = c.key then window else l.getWindow key := by
    intro window key
    unfold getWindow
    rw [Dict.get?_set]
    split <;> rfl
  have hsame : ∀ window key, (if key = c.key then
      l.cleanupWindow (l.getWindow c.key) c.early ++ window else l.getWindow key) =
      if key = c.key then l.cleanupWindow (l.getWindow key) c.early ++ window
      else l.getWindow key := by
    intro window key
    split
    · rename_i hkey
      rw [hkey]
    · rfl
  unfold call
  cases c.kind with
  | tryAcquire =>
    unfold tryAcquire
    dsimp only
    split
    · rename_i hfree
      exact ⟨rfl, rfl, fun key => (hset _ key).trans (hsame _ key), fun _ => hfree⟩
    · refine ⟨rfl, rfl, fun key => (hset _ key).trans ?_, fun h => absurd h Bool.false_ne_true⟩
      rw [← hsame, if_neg Bool.false_ne_true, List.append_nil]
  | query =>
    refine ⟨rfl, rfl, fun key => (hset _ key).trans ?_, fun h => absurd h Bool.false_ne_true⟩
    rw [← hsame, if_neg Bool.false_ne_true, List.append_nil]

/-! ## The permits of a key -/

/-- The times of the permits given. -/
def granted (os : List (Time × Bool)) : List Time := (os.filter Prod.snd).map Prod.fst

theorem permits_eq_countP (s t : Time) (os : List (Time × Bool)) :
    permits s t os = (granted os).countP fun x => s ≤ x ∧ x ≤ t := by
  unfold permits granted
  rw [List.countP_map, List.countP_filter]
  refine List.countP_congr fun o _ => ?_
  simp only [Function.comp_apply, Bool.decide_and, Bool.decide_eq_true, Bool.and_eq_true,
    decide_eq_true_eq]
  exact and_comm

/-- Of the times appended so far, the deque has all but some from before the last cutoff. -/
structure Kept (l : SlidingWindowLimiter) (key : String) (times : List Time) (t : Time) :
    Prop where
  kept : ∃ gone, times = gone ++ l.getWindow key ∧ ∀ x ∈ gone, x < t - l.windowSeconds
  past : ∀ x ∈ times, x ≤ t

theorem Kept.later {l : SlidingWindowLimiter} {key : String} {times : List Time} {t t' : Time}
    (h : Kept l key times t) (ht : t ≤ t') : Kept l key times t' := by
  obtain ⟨⟨gone, hgone, hbefore⟩, hpast⟩ := h
  exact ⟨⟨gone, hgone, fun x hx => lt_of_lt_of_le (hbefore x hx) (sub_le_sub_right ht _)⟩,
    fun x hx => le_trans (hpast x hx) ht⟩

/-- The cleanup takes away what lies before its cutoff. -/
theorem Kept.cleanup {l : SlidingWindowLimiter} {key : String} {times : List Time} {t : Time}
    (h : Kept l key times t) :
    ∃ gone, times = gone ++ l.cleanupWindow (l.getWindow key) t ∧
      ∀ x ∈ gone, x < t - l.windowSeconds := by
  obtain ⟨⟨gone, hgone, hbefore⟩, -⟩ := h
  refine ⟨gone ++ (l.getWindow key).takeWhile fun x => x < t - l.windowSeconds, ?_, ?_⟩
  · rw [cleanupWindow, List.append_assoc, List.takeWhile_append_dropWhile, hgone]
  · intro x hx
    rcases List.mem_append.mp hx with hx | hx
    · exact hbefore x hx
    · have hexpired := List.mem_takeWhile_imp hx
      rwa [decide_eq_true_eq] at hexpired

section Call

variable {l : SlidingWindowLimiter} {c : Call} {times : List Time} {t : Time}

theorem kept_call (h : Kept l c.key times t) (hearly : t ≤ c.early) (hlate : c.early ≤ c.late) :
    Kept (l.call c).1 c.key (times ++ if (l.call c).2 then [c.late] else []) c.late := by
  have heffect := l.call_effect c
  obtain ⟨gone, hgone, hbefore⟩ := (h.later hearly).cleanup
  constructor
  · refine ⟨gone, ?_, fun x hx => ?_⟩
    · rw [heffect.windows, if_pos rfl, ← List.append_assoc, ← hgone]
    · rw [heffect.windowSeconds]
      exact lt_of_lt_of_le (hbefore x hx) (sub_le_sub_right hlate _)
  · intro x hx
    rcases List.mem_append.mp hx with hx | hx
    · exact le_trans (h.past x hx) (le_trans hearly hlate)
    · split at hx
      · rw [List.mem_singleton] at hx
        exact le_of_eq hx
      · cases hx

/-- A permit is given when few were given within a window's length. -/
theorem spaced_call (h : Kept l c.key times t) (hearly : t ≤ c.early) (hlate : c.early ≤ c.late)
    (hspaced : Spaced l.windowSeconds l.maxRequests times) :
    Spaced l.windowSeconds l.maxRequests (times ++ if (l.call c).2 then [c.late] else []) := by
  split
  · rename_i hpermit
    refine .snoc hspaced (fun x hx => le_trans (h.past x hx) (le_trans hearly hlate)) ?_
    obtain ⟨gone, hgone, hbefore⟩ := (h.later hearly).cleanup
    have hnone : (gone.countP fun x => c.late - l.windowSeconds ≤ x) = 0 := by
      rw [List.countP_eq_zero]
      intro x hx
      rw [decide_eq_true_eq, not_le]
      exact lt_of_lt_of_le (hbefore x hx) (sub_le_sub_right hlate _)
    rw [hgone, List.countP_append, hnone, zero_add]
    exact lt_of_le_of_lt List.countP_le_length ((l.call_effect c).permit hpermit)
  · rwa [List.append_nil]

end Call

/-- The permits of a key are spaced, and its deque has the last of them. -/
theorem spaced_granted (key : String) (cs : List Call) {l : SlidingWindowLimiter}
    {times : List Time} {t : Time} (h : Kept l key times t) (hclock : ClockedFrom t cs)
    (hspaced : Spaced l.windowSeconds l.maxRequests times) :
    Spaced l.windowSeconds l.maxRequests (times ++ granted (outcomes call key l cs)) ∧
      (runCalls call l cs).getWindow key <:+ times ++ granted (outcomes call key l cs) := by
  induction cs generalizing l times t with
  | nil =>
    obtain ⟨⟨gone, hgone, -⟩, -⟩ := h
    have hnil : granted (outcomes call key l []) = [] := rfl
    rw [hnil, List.append_nil]
    exact ⟨hspaced, gone, hgone.symm⟩
  | cons c cs ih =>
    obtain ⟨hearly, hlate, hrest⟩ := hclock.cons
    have heffect := l.call_effect c
    by_cases hkey : c.key = key
    · subst hkey
      have hsp := spaced_call h hearly hlate hspaced
      rw [← heffect.windowSeconds, ← heffect.maxRequests] at hsp
      have hrun := ih (kept_call h hearly hlate) hrest hsp
      have hgranted : granted (outcomes call c.key l (c :: cs)) =
          (if (l.call c).2 then [c.late] else []) ++
            granted (outcomes call c.key (l.call c).1 cs) := by
        unfold granted
        rw [outcomes, if_pos rfl, List.filter_cons]
        dsimp only
        split <;> simp
      rw [hgranted, ← List.append_assoc, ← heffect.windowSeconds, ← heffect.maxRequests]
      exact hrun
    · have hother : Kept (l.call c).1 key times c.late := by
        obtain ⟨hkept, hpast⟩ := h.later (le_trans hearly hlate)
        refine ⟨?_, hpast⟩
        rw [heffect.windows, if_neg (Ne.symm hkey), heffect.windowSeconds]
        exact hkept
      rw [← heffect.windowSeconds, ← heffect.maxRequests] at hspaced
      have hrun := ih hother hrest hspaced
      have hsame : outcomes call key l (c :: cs) = outcomes call key (l.call c).1 cs :=
        if_neg hkey
      rw [hsame, ← heffect.windowSeconds, ← heffect.maxRequests]
      exact hrun

/-- **Every closed interval of the window's length has at most `max_requests` permits of a key, and
    its deque is sorted.** -/
theorem sliding_window (maxRequests : Nat) (windowSeconds : Time) (key : String) {cs : List Call}
    (hclock : Clocked cs) :
    (∀ x, permits x (x + windowSeconds)
      (outcomes call key (new maxRequests windowSeconds) cs) ≤ maxRequests) ∧
    ((runCalls call (new maxRequests windowSeconds) cs).getWindow key).Pairwise (· ≤ ·) := by
  obtain ⟨t, hfrom⟩ := hclock.exists_from
  obtain ⟨hspaced, hsuffix⟩ := spaced_granted key cs (l := new maxRequests windowSeconds)
    ⟨⟨[], rfl, List.forall_mem_nil _⟩, List.forall_mem_nil _⟩ hfrom .nil
  rw [List.nil_append] at hspaced hsuffix
  refine ⟨fun x => ?_, hspaced.pairwise.sublist hsuffix.sublist⟩
  rw [permits_eq_countP]
  exact hspaced.countP_window_le x

/-- The fourth call comes when the first has left the window. -/
def fourCalls : List Call :=
  [⟨"default", .tryAcquire, 0, 0⟩, ⟨"default", .tryAcquire, 1/2, 1/2⟩,
    ⟨"default", .tryAcquire, 1, 1⟩, ⟨"default", .tryAcquire, 5/4, 5/4⟩]

theorem sliding_window_sample :
    (outcomes call "default" (new 2 1) fourCalls).map Prod.snd = [true, true, false, true] ∧
      permits 0 (0 + 1) (outcomes call "default" (new 2 1) fourCalls) ≤ 2 :=
  ⟨by decide +kernel, (sliding_window 2 1 "default" (by decide +kernel)).1 0⟩

end SlidingWindowLimiter

end MiniDb
