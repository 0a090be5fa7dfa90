/-
  `AdaptiveRateLimiter` (`chaos/rate_limiter.py`): what a reduced rate means for one key.

  `_update_rate` puts a new token bucket limiter in the place of the old one, and with it a full
  bucket for every key. `not_more_iff`: a reduction admits no more requests at once than before
  exactly if the new burst is not more than the tokens the key had left.
-/
import MiniDb.Chaos.TokenBucket
import Mathlib.Data.Rat.Floor

namespace MiniDb

open Lib RateLimiter

/-- `int(x)` -/
def toInt (x : ℚ) : Int := if 0 ≤ x then ⌊x⌋ else ⌈x⌉

theorem toInt_mono {x y : ℚ} (h : x ≤ y) : toInt x ≤ toInt y := by
  unfold toInt
  split
  · rename_i hx
    rw [if_pos (le_trans hx h)]
    exact Int.floor_le_floor h
  · rename_i hx
    split
    · rename_i hy
      exact le_trans (Int.ceil_nonpos.mpr (le_of_lt (not_le.mp hx))) (Int.floor_nonneg.mpr hy)
    · exact Int.ceil_le_ceil h

structure AdaptiveRateLimiter where
  minRate : ℚ
  maxRate : ℚ
  adjustmentInterval : ℚ
  currentRate : ℚ
  limiter : TokenBucketLimiter
  lastAdjustment : Time
  recentLatencies : List ℚ := []
  /-- The limiter is one of the current rate. -/
  inForce : limiter.rate = currentRate ∧ limiter.burst = toInt currentRate

namespace TokenBucketLimiter

/-- So many calls for the key, one after the other at one moment, all get a permit. -/
def admits (l : TokenBucketLimiter) (key : String) (now : Time) : Nat → Bool
  | 0 => true
  | n + 1 => (l.tryAcquire key now now).2 && (l.tryAcquire key now now).1.admits key now n

/-- The tokens for the key at a moment. -/
def available (l : TokenBucketLimiter) (key : String) (now : Time) : ℚ :=
  (l.getAvailableTokens key now now).2

theorem tryAcquire_effect (l : TokenBucketLimiter) (key : String) (now : Time) :
    CallEffect l ⟨key, .tryAcquire, now, now⟩ (l.tryAcquire key now now) :=
  l.call_effect ⟨key, .tryAcquire, now, now⟩

theorem available_eq (l : TokenBucketLimiter) (key : String) (now : Time) :
    l.available key now = (l.refill (l.bucketOf key now) now).tokens := by
  obtain ⟨hbucket, hrate, hburst, -⟩ := l.getBucket_spec key now
  unfold available getAvailableTokens
  dsimp only
  unfold refill
  rw [hbucket, hrate, hburst]

theorem permit_iff (l : TokenBucketLimiter) (key : String) (now : Time) :
    (l.tryAcquire key now now).2 = true ↔ 1 ≤ l.available key now := by
  rw [(l.tryAcquire_effect key now).permit, available_eq]
  exact and_iff_right rfl

/-- A permit takes one token; at the same moment nothing flows in. -/
theorem available_tryAcquire {l : TokenBucketLimiter} {key : String} {now : Time}
    (h : 1 ≤ l.available key now) :
    (l.tryAcquire key now now).1.available key now = l.available key now - 1 := by
  have heffect := l.tryAcquire_effect key now
  rw [available_eq] at h
  have hafter : l.bucketAfter ⟨key, .tryAcquire, now, now⟩ =
      ⟨(l.refill (l.bucketOf key now) now).tokens - 1, now⟩ := if_pos ⟨rfl, h⟩
  have hbucket : (l.tryAcquire key now now).1.bucketOf key now =
      ⟨(l.refill (l.bucketOf key now) now).tokens - 1, now⟩ := by
    rw [bucketOf, heffect.buckets, if_pos rfl, hafter]
    rfl
  have hle : (l.refill (l.bucketOf key now) now).tokens ≤ l.burst := min_le_left _ _
  rw [available_eq, available_eq, hbucket]
  show min (l.tryAcquire key now now).1.burst (_ - 1 + (now - now) * _) = _
  rw [heffect.burst, sub_self, zero_mul, add_zero, min_eq_right]
  linarith

/-- At one moment a key is given as many permits as it has whole tokens. -/
theorem admits_iff (l : TokenBucketLimiter) (key : String) (now : Time) (n : Nat) :
    l.admits key now n = true ↔ n = 0 ∨ (n : ℚ) ≤ l.available key now := by
  induction n generalizing l with
  | zero => simp [admits]
  | succ n ih =>
    rw [admits, Bool.and_eq_true, permit_iff, ih]
    have hone : (0 : ℚ) ≤ n := Nat.cast_nonneg n
    constructor
    · rintro ⟨h, hrest⟩
      rw [available_tryAcquire h] at hrest
      right
      rw [Nat.cast_succ]
      rcases hrest with rfl | hrest
      · rw [Nat.cast_zero, zero_add]
        exact h
      · linarith
    · rintro (h | h)
      · cases h
      · rw [Nat.cast_succ] at h
        have hfirst : 1 ≤ l.available key now := by linarith
        refine ⟨hfirst, .inr ?_⟩
        rw [available_tryAcquire hfirst]
        linarith

/-- A new limiter has a full bucket for every key. -/
theorem available_new (rate burst : ℚ) (key : String) (now : Time) :
    (new rate burst).available key now = burst := by
  rw [available_eq]
  show min burst (burst + (now - now) * rate) = burst
  rw [sub_self, zero_mul, add_zero, min_self]

end TokenBucketLimiter

namespace AdaptiveRateLimiter

def latencyThresholdHigh : ℚ := 1 / 10

def latencyThresholdLow : ℚ := 1 / 100

/-- `AdaptiveRateLimiter(initial_rate, min_rate, max_rate, adjustment_interval)` -/
def new (initialRate minRate maxRate adjustmentInterval : ℚ) (now : Time) :
    AdaptiveRateLimiter :=
  { minRate := minRate, maxRate := maxRate, adjustmentInterval := adjustmentInterval
    currentRate := initialRate, limiter := .new initialRate (toInt initialRate)
    lastAdjustment := now, inForce := ⟨rfl, rfl⟩ }

def updateRate (a : AdaptiveRateLimiter) (newRate : ℚ) : AdaptiveRateLimiter :=
  { a with
    currentRate := newRate
    limiter := .new newRate (toInt newRate)
    inForce := ⟨rfl, rfl⟩ }

def applyBackpressure (a : AdaptiveRateLimiter) (factor : ℚ) : AdaptiveRateLimiter :=
  a.updateRate (max a.minRate (a.currentRate * factor))

def avgLatency (a : AdaptiveRateLimiter) : ℚ := a.recentLatencies.sum / a.recentLatencies.length

def maybeAdjustRate (a : AdaptiveRateLimiter) (now : Time) : AdaptiveRateLimiter :=
  if now - a.lastAdjustment < a.adjustmentInterval then a
  else
    let a := { a with lastAdjustment := now }
    if a.recentLatencies = [] then a
    else if latencyThresholdHigh < a.avgLatency then
      a.updateRate (max a.minRate (a.currentRate * (4 / 5)))
    else if a.avgLatency < latencyThresholdLow then
      a.updateRate (min a.maxRate (a.currentRate * (11 / 10)))
    else a

/-- `try_acquire`; the clock is read for the adjustment, and by the limiter in force. -/
def tryAcquire (a : AdaptiveRateLimiter) (key : String) (now early late : Time) :
    AdaptiveRateLimiter × Bool :=
  let a := a.maybeAdjustRate now
  let r := a.limiter.tryAcquire key early late
  have heffect := a.limiter.call_effect ⟨key, .tryAcquire, early, late⟩
  ({ a with
      limiter := r.1
      inForce := ⟨heffect.rate.trans a.inForce.1, heffect.burst.trans a.inForce.2⟩ }, r.2)

/-! ## Requests at one moment -/

/-- So many requests for the key, one after the other at one moment, are all admitted. -/
def admits (a : AdaptiveRateLimiter) (key : String) (now : Time) : Nat → Bool
  | 0 => true
  | n + 1 =>
    (a.tryAcquire key now now now).2 && (a.tryAcquire key now now now).1.admits key now n

/-- While no adjustment is due, the limiter in force decides. -/
theorem admits_eq_limiter {a : AdaptiveRateLimiter} {now : Time}
    (h : now - a.lastAdjustment < a.adjustmentInterval) (key : String) (n : Nat) :
    a.admits key now n = a.limiter.admits key now n := by
  induction n generalizing a with
  | zero => rfl
  | succ n ih =>
    have hkeep : a.maybeAdjustRate now = a := if_pos h
    have hpermit : (a.tryAcquire key now now now).2 = (a.limiter.tryAcquire key now now).2 :=
      congrArg (fun b : AdaptiveRateLimiter => (b.limiter.tryAcquire key now now).2) hkeep
    have hlimiter : (a.tryAcquire key now now now).1.limiter =
        (a.limiter.tryAcquire key now now).1 :=
      congrArg (fun b : AdaptiveRateLimiter => (b.limiter.tryAcquire key now now).1) hkeep
    have hdue : now - (a.tryAcquire key now now now).1.lastAdjustment <
        (a.tryAcquire key now now now).1.adjustmentInterval := by
      change now - (a.maybeAdjustRate now).lastAdjustment <
        (a.maybeAdjustRate now).adjustmentInterval
      rwa [hkeep]
    rw [admits, TokenBucketLimiter.admits, hpermit, ih hdue, hlimiter]

/-! ## Reductions -/

/-- As many requests as the limiter in force would admit afterwards, all for the key at that
    moment, it would have admitted before. -/
def NotMore (before after : AdaptiveRateLimiter) (key : String) (now : Time) : Prop :=
  ∀ n, after.limiter.admits key now n = true → before.limiter.admits key now n = true

theorem notMore_updateRate_iff (a : AdaptiveRateLimiter) (newRate : ℚ) (key : String)
    (now : Time) : NotMore a (a.updateRate newRate) key now ↔
      toInt newRate ≤ 0 ∨ (toInt newRate : ℚ) ≤ a.limiter.available key now := by
  have hafter : ∀ n : Nat, (a.updateRate newRate).limiter.admits key now n = true ↔
      n = 0 ∨ (n : ℚ) ≤ toInt newRate := by
    intro n
    rw [TokenBucketLimiter.admits_iff, updateRate, TokenBucketLimiter.available_new]
  unfold NotMore
  simp only [hafter, TokenBucketLimiter.admits_iff]
  constructor
  · intro h
    by_cases hpos : 0 < toInt newRate
    · -- the whole new burst at once
      obtain ⟨n, hn⟩ := Int.eq_ofNat_of_zero_le (le_of_lt hpos)
      have hcast : (n : ℚ) = toInt newRate := by rw [hn, Int.cast_natCast]
      rcases h n (.inr (le_of_eq hcast)) with hzero | hle
      · rw [hn, hzero] at hpos
        exact absurd hpos (lt_irrefl _)
      · exact .inr (hcast ▸ hle)
    · exact .inl (not_lt.mp hpos)
  · rintro (hnone | hle) n (hn | hn)
    · exact .inl hn
    · have hcast : (n : ℚ) ≤ 0 := le_trans hn (by exact_mod_cast hnone)
      exact .inl (Nat.le_zero.mp (by exact_mod_cast hcast))
    · exact .inl hn
    · exact .inr (le_trans hn hle)

/-- A key that has no bucket is admitted no more after a reduction. -/
theorem not_more_of_fresh {a : AdaptiveRateLimiter} {key : String} {factor : ℚ}
    (hmin : a.minRate ≤ a.currentRate) (hnonneg : 0 ≤ factor) (hle : factor ≤ 1)
    (hkey : a.limiter.buckets.get? key = none) (now : Time) :
    NotMore a (a.applyBackpressure factor) key now := by
  rw [applyBackpressure, notMore_updateRate_iff]
  have hfull : a.limiter.available key now = toInt a.currentRate := by
    rw [TokenBucketLimiter.available_eq, TokenBucketLimiter.bucketOf, hkey]
    show min a.limiter.burst (a.limiter.burst + (now - now) * a.limiter.rate) = _
    rw [sub_self, zero_mul, add_zero, min_self, a.inForce.2]
  rcases le_total 0 a.currentRate with hpos | hneg
  · right
    rw [hfull, Int.cast_le]
    exact toInt_mono (max_le hmin (mul_le_of_le_one_right hpos hle))
  · left
    have hzero : max a.minRate (a.currentRate * factor) ≤ 0 :=
      max_le (le_trans hmin hneg) (mul_nonpos_of_nonpos_of_nonneg hneg hnonneg)
    exact le_of_le_of_eq (toInt_mono hzero) (by simp [toInt])

/-- The requests themselves, while no adjustment is due. -/
theorem requests_not_more_iff {a : AdaptiveRateLimiter} {now : Time}
    (h : now - a.lastAdjustment < a.adjustmentInterval) (factor : ℚ) (key : String) :
    (∀ n, (a.applyBackpressure factor).admits key now n = true → a.admits key now n = true) ↔
      NotMore a (a.applyBackpressure factor) key now := by
  have hafter : now - (a.applyBackpressure factor).lastAdjustment <
      (a.applyBackpressure factor).adjustmentInterval := h
  simp only [admits_eq_limiter h, admits_eq_limiter hafter, NotMore]

end AdaptiveRateLimiter

end MiniDb
