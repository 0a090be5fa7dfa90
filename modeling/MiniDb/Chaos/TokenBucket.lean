/-
  `TokenBucketLimiter` (`chaos/rate_limiter.py`), in exact arithmetic.

  A bucket that is not there yet stands for a full one at any earlier time (`bucketOf`): what a
  call makes of both is the same. `permit_effect` says what a call does to the bucket of its key;
  from it the outcomes for a key are metered by the tokens (`metered_outcomes`), and
  `token_bucket_window` follows.
-/
import MiniDb.Chaos.RateLimiter

namespace MiniDb

open Lib RateLimiter

structure Bucket where
  tokens : ℚ
  lastUpdate : Time
  deriving DecidableEq

structure TokenBucketLimiter where
  rate : ℚ
  burst : ℚ
  buckets : Dict String Bucket

namespace TokenBucketLimiter

/-- `TokenBucketLimiter(rate, burst)` -/
def new (rate burst : ℚ) : TokenBucketLimiter := ⟨rate, burst, .empty⟩

def getBucket (l : TokenBucketLimiter) (key : String) (now : Time) :
    TokenBucketLimiter × Bucket :=
  match l.buckets.get? key with
  | some b => (l, b)
  | none => ({ l with buckets := l.buckets.set key ⟨l.burst, now⟩ }, ⟨l.burst, now⟩)

def refill (l : TokenBucketLimiter) (b : Bucket) (now : Time) : Bucket :=
  ⟨min l.burst (b.tokens + (now - b.lastUpdate) * l.rate), now⟩

def tryAcquire (l : TokenBucketLimiter) (key : String) (early late : Time) :
    TokenBucketLimiter × Bool :=
  let (l, b) := l.getBucket key early
  let b := l.refill b late
  if 1 ≤ b.tokens then
    ({ l with buckets := l.buckets.set key { b with tokens := b.tokens - 1 } }, true)
  else ({ l with buckets := l.buckets.set key b }, false)

def getAvailableTokens (l : TokenBucketLimiter) (key : String) (early late : Time) :
    TokenBucketLimiter × ℚ :=
  let (l, b) := l.getBucket key early
  let b := l.refill b late
  ({ l with buckets := l.buckets.set key b }, b.tokens)

def call (l : TokenBucketLimiter) (c : Call) : TokenBucketLimiter × Bool :=
  match c.kind with
  | .tryAcquire => l.tryAcquire c.key c.early c.late
  | .query => ((l.getAvailableTokens c.key c.early c.late).1, false)

/-! ## What a call does -/

/-- The bucket of a key; a full one of that time when there is none. -/
def bucketOf (l : TokenBucketLimiter) (key : String) (now : Time) : Bucket :=
  (l.buckets.get? key).getD ⟨l.burst, now⟩

/-- The bucket that a call leaves. -/
def bucketAfter (l : TokenBucketLimiter) (c : Call) : Bucket :=
  let b := l.refill (l.bucketOf c.key c.early) c.late
  if c.kind = .tryAcquire ∧ 1 ≤ b.tokens then { b with tokens := b.tokens - 1 } else b

/-- All that a call does. -/
structure CallEffect (l : TokenBucketLimiter) (c : Call) (out : TokenBucketLimiter × Bool) :
    Prop where
  rate : out.1.rate = l.rate
  burst : out.1.burst = l.burst
  buckets : ∀ key, out.1.buckets.get? key =
    if key = c.key then some (l.bucketAfter c) else l.buckets.get? key
  permit : out.2 = true ↔
    c.kind = .tryAcquire ∧ 1 ≤ (l.refill (l.bucketOf c.key c.early) c.late).tokens

theorem getBucket_spec (l : TokenBucketLimiter) (key : String) (now : Time) :
    (l.getBucket key now).2 = l.bucketOf key now ∧ (l.getBucket key now).1.rate = l.rate ∧
      (l.getBucket key now).1.burst = l.burst ∧
      ∀ k, k ≠ key → (l.getBucket key now).1.buckets.get? k = l.buckets.get? k := by
  unfold getBucket bucketOf
  cases l.buckets.get? key with
  | some b => exact ⟨rfl, rfl, rfl, fun _ _ => rfl⟩
  | none => exact ⟨rfl, rfl, rfl, fun k hk => Dict.get?_set_ne _ hk _⟩

theorem call_effect (l : TokenBucketLimiter) (c : Call) : CallEffect l c (l.call c) := by
  obtain ⟨hbucket, hrate, hburst, hother⟩ := l.getBucket_spec c.key c.early
  have hrefill : (l.getBucket c.key c.early).1.refill (l.getBucket c.key c.early).2 c.late =
      l.refill (l.bucketOf c.key c.early) c.late := by
    unfold refill
    rw [hbucket, hrate, hburst]
  have hset : ∀ b key, ((l.getBucket c.key c.early).1.buckets.set c.key b).get? key =
      if key = c.key then some b else l.buckets.get? key := by
    intro b key
    rw [Dict.get?_set]
    by_cases hkey : key = c.key
    · rw [if_pos hkey, if_pos hkey]
    · rw [if_neg hkey, if_neg hkey, hother key hkey]
  unfold call
  cases hkind : c.kind with
  | tryAcquire =>
    unfold tryAcquire
    simp only [hrefill]
    by_cases hone : 1 ≤ (l.refill (l.bucketOf c.key c.early) c.late).tokens
    · have hafter : l.bucketAfter c = _ := if_pos ⟨hkind, hone⟩
      rw [if_pos hone]
      exact ⟨hrate, hburst, fun key => hafter ▸ hset _ key, iff_of_true rfl ⟨hkind, hone⟩⟩
    · have hafter : l.bucketAfter c = _ := if_neg fun h => hone h.2
      rw [if_neg hone]
      exact ⟨hrate, hburst, fun key => hafter ▸ hset _ key,
        iff_of_false Bool.false_ne_true fun h => hone h.2⟩
  | query =>
    have hquery : ¬c.kind = .tryAcquire := by simp [hkind]
    have hafter : l.bucketAfter c = _ := if_neg fun h => hquery h.1
    unfold getAvailableTokens
    simp only [hrefill]
    exact ⟨hrate, hburst, fun key => hafter ▸ hset _ key,
      iff_of_false Bool.false_ne_true fun h => hquery h.1⟩

/-- What a limiter has of a key. -/
def view (key : String) (l : TokenBucketLimiter) : ℚ × ℚ × Option Bucket :=
  (l.rate, l.burst, l.buckets.get? key)

theorem localTo_call (key : String) : LocalTo call key (view key) := by
  constructor
  · intro l c hc
    have heffect := l.call_effect c
    unfold view
    rw [heffect.rate, heffect.burst, heffect.buckets, if_neg (Ne.symm hc)]
  · rintro l l' c rfl hview
    obtain ⟨hrate, hburst, hget⟩ : l.rate = l'.rate ∧ l.burst = l'.burst ∧
        l.buckets.get? c.key = l'.buckets.get? c.key := by
      simpa [view] using hview
    have hrefill : l.refill (l.bucketOf c.key c.early) c.late =
        l'.refill (l'.bucketOf c.key c.early) c.late := by
      unfold refill bucketOf
      rw [hrate, hburst, hget]
    have hafter : l.bucketAfter c = l'.bucketAfter c := by
      unfold bucketAfter
      rw [hrefill]
    have heffect := l.call_effect c
    have heffect' := l'.call_effect c
    constructor
    · unfold view
      rw [heffect.rate, heffect.burst, heffect.buckets, heffect'.rate, heffect'.burst,
        heffect'.buckets, if_pos rfl, if_pos rfl, hrate, hburst, hafter]
    · rw [Bool.eq_iff_iff, heffect.permit, heffect'.permit, hrefill]

/-! ## The bucket of a key -/

/-- The bucket holds between 0 and `burst` tokens, and was last touched before `t`. -/
structure Filled (l : TokenBucketLimiter) (key : String) (t : Time) : Prop where
  nonneg : 0 ≤ (l.bucketOf key t).tokens
  le_burst : (l.bucketOf key t).tokens ≤ l.burst
  touched : (l.bucketOf key t).lastUpdate ≤ t

/-- A bucket that is not there counts as a later one. -/
theorem bucketOf_later (l : TokenBucketLimiter) (key : String) {t t' : Time} (ht : t ≤ t') :
    (l.bucketOf key t').tokens = (l.bucketOf key t).tokens ∧
      (l.bucketOf key t).lastUpdate ≤ (l.bucketOf key t').lastUpdate ∧
      ((l.bucketOf key t).lastUpdate ≤ t → (l.bucketOf key t').lastUpdate ≤ t') := by
  unfold bucketOf
  cases l.buckets.get? key with
  | some b => exact ⟨rfl, le_refl _, fun h => le_trans h ht⟩
  | none => exact ⟨rfl, ht, fun _ => le_refl t'⟩

theorem Filled.later {l : TokenBucketLimiter} {key : String} {t t' : Time} (h : l.Filled key t)
    (ht : t ≤ t') : l.Filled key t' := by
  obtain ⟨htokens, -, htouched⟩ := l.bucketOf_later key ht
  exact ⟨htokens ▸ h.nonneg, htokens ▸ h.le_burst, htouched h.touched⟩

section Filled

variable {l : TokenBucketLimiter} {c : Call} {t : Time}

/-- A refill keeps the bucket within its bounds, and adds what flows in since it was touched. -/
theorem refill_bounds (hrate : 0 ≤ l.rate) (h : l.Filled c.key t) (hearly : t ≤ c.early)
    (hlate : c.early ≤ c.late) :
    0 ≤ (l.refill (l.bucketOf c.key c.early) c.late).tokens ∧
      (l.refill (l.bucketOf c.key c.early) c.late).tokens ≤ l.burst ∧
      (l.refill (l.bucketOf c.key c.early) c.late).tokens ≤
        (l.bucketOf c.key t).tokens + l.rate * (c.late - (l.bucketOf c.key t).lastUpdate) := by
  have hnow := h.later hearly
  have hflow : 0 ≤ (c.late - (l.bucketOf c.key c.early).lastUpdate) * l.rate :=
    mul_nonneg (sub_nonneg.mpr (le_trans hnow.touched hlate)) hrate
  refine ⟨le_min (le_trans hnow.nonneg hnow.le_burst) (add_nonneg hnow.nonneg hflow),
    min_le_left _ _, ?_⟩
  cases hget : l.buckets.get? c.key with
  | some b =>
    have hsame : ∀ now, l.bucketOf c.key now = b := fun now => by rw [bucketOf, hget]; rfl
    unfold refill
    rw [hsame, hsame, mul_comm l.rate]
    exact min_le_right _ _
  | none =>
    have hnew : l.bucketOf c.key t = ⟨l.burst, t⟩ := by rw [bucketOf, hget]; rfl
    rw [hnew]
    refine le_trans (min_le_left _ _) (le_add_of_nonneg_right ?_)
    exact mul_nonneg hrate (sub_nonneg.mpr (le_trans hearly hlate))

/-- The bucket that a call leaves pays for its permit. -/
theorem bucketAfter_bounds (hrate : 0 ≤ l.rate) (h : l.Filled c.key t) (hearly : t ≤ c.early)
    (hlate : c.early ≤ c.late) {cost : ℚ} (hcost : cost = if (l.call c).2 then 1 else 0) :
    0 ≤ (l.bucketAfter c).tokens ∧ (l.bucketAfter c).lastUpdate = c.late ∧
      (l.bucketAfter c).tokens + cost ≤ l.burst ∧
      (l.bucketAfter c).tokens + cost ≤
        (l.bucketOf c.key t).tokens + l.rate * (c.late - (l.bucketOf c.key t).lastUpdate) := by
  obtain ⟨hnonneg, hle, hflow⟩ := refill_bounds hrate h hearly hlate
  have hpermit := (l.call_effect c).permit
  by_cases hgiven : c.kind = .tryAcquire ∧
      1 ≤ (l.refill (l.bucketOf c.key c.early) c.late).tokens
  · have hafter : l.bucketAfter c = _ := if_pos hgiven
    rw [hpermit.mpr hgiven, if_pos rfl] at hcost
    rw [hafter, hcost]
    refine ⟨sub_nonneg.mpr hgiven.2, rfl, ?_, ?_⟩
    · rwa [sub_add_cancel]
    · rwa [sub_add_cancel]
  · have hafter : l.bucketAfter c = _ := if_neg hgiven
    rw [Bool.eq_false_iff.mpr fun h => hgiven (hpermit.mp h), if_neg Bool.false_ne_true] at hcost
    rw [hafter, hcost, add_zero]
    exact ⟨hnonneg, rfl, hle, hflow⟩

end Filled

/-- The bucket of a key after a call. -/
theorem bucketOf_call (l : TokenBucketLimiter) (c : Call) (key : String) (now : Time) :
    (l.call c).1.bucketOf key now =
      if key = c.key then l.bucketAfter c else l.bucketOf key now := by
  have heffect := l.call_effect c
  unfold bucketOf
  rw [heffect.buckets, heffect.burst]
  split <;> rfl

theorem filled_call {l : TokenBucketLimiter} {c : Call} {key : String} {t : Time}
    (hrate : 0 ≤ l.rate) (h : l.Filled key t) (hearly : t ≤ c.early) (hlate : c.early ≤ c.late) :
    (l.call c).1.Filled key c.late := by
  have heffect := l.call_effect c
  by_cases hkey : key = c.key
  · subst hkey
    obtain ⟨hnonneg, htouched, hle, -⟩ := bucketAfter_bounds hrate h hearly hlate rfl
    have hcost : (0 : ℚ) ≤ if (l.call c).2 then 1 else 0 := by split <;> norm_num
    refine ⟨?_, ?_, ?_⟩ <;> rw [bucketOf_call, if_pos rfl]
    · exact hnonneg
    · rw [heffect.burst]
      exact le_trans (le_add_of_nonneg_right hcost) hle
    · exact le_of_eq htouched
  · obtain ⟨hnonneg, hle, htouched⟩ := h.later (le_trans hearly hlate)
    refine ⟨?_, ?_, ?_⟩ <;> rw [bucketOf_call, if_neg hkey]
    · exact hnonneg
    · rw [heffect.burst]
      exact hle
    · exact htouched

/-- The permits of a key are paid for with its tokens. -/
theorem metered_outcomes (key : String) (cs : List Call) {l : TokenBucketLimiter} {t : Time}
    (hrate : 0 ≤ l.rate) (h : l.Filled key t) (hclock : ClockedFrom t cs) :
    Metered l.burst l.rate (l.bucketOf key t).tokens (l.bucketOf key t).lastUpdate
      (costs (outcomes call key l cs)) := by
  induction cs generalizing l t with
  | nil => exact .nil h.nonneg
  | cons c cs ih =>
    obtain ⟨hearly, hlate, hrest⟩ := hclock.cons
    have heffect := l.call_effect c
    have hmetered := ih (heffect.rate ▸ hrate) (filled_call hrate h hearly hlate) hrest
    rw [heffect.rate, heffect.burst, bucketOf_call] at hmetered
    unfold outcomes
    by_cases hkey : c.key = key
    · subst hkey
      obtain ⟨-, htouched, hcap, hpaid⟩ := bucketAfter_bounds hrate h hearly hlate rfl
      rw [if_pos rfl] at hmetered ⊢
      rw [htouched] at hmetered
      exact .cons h.nonneg (le_trans h.touched (le_trans hearly hlate)) hcap hpaid hmetered
    · rw [if_neg (Ne.symm hkey)] at hmetered
      rw [if_neg hkey]
      obtain ⟨htokens, htouched, -⟩ := l.bucketOf_later key (le_trans hearly hlate)
      rw [htokens] at hmetered
      exact hmetered.of_later hrate htouched

theorem filled_run (key : String) (cs : List Call) {l : TokenBucketLimiter} {t : Time}
    (hrate : 0 ≤ l.rate) (h : l.Filled key t) (hclock : ClockedFrom t cs) :
    (runCalls call l cs).burst = l.burst ∧ ∃ t', (runCalls call l cs).Filled key t' := by
  induction cs generalizing l t with
  | nil => exact ⟨rfl, t, h⟩
  | cons c cs ih =>
    obtain ⟨hearly, hlate, hrest⟩ := hclock.cons
    have heffect := l.call_effect c
    have hrun := ih (heffect.rate ▸ hrate) (filled_call hrate h hearly hlate) hrest
    rwa [heffect.burst] at hrun

/-- **The bucket of a key holds between 0 and `burst` tokens; in a window from `s` to `t` its calls
    get at most `burst` permits and what flows in; and no other key's calls matter.** -/
theorem token_bucket_window {rate burst : ℚ} (hrate : 0 ≤ rate) (hburst : 0 ≤ burst) (key : String)
    {cs : List Call} (hclock : Clocked cs) :
    (∀ b, (runCalls call (new rate burst) cs).buckets.get? key = some b →
      0 ≤ b.tokens ∧ b.tokens ≤ burst) ∧
    (∀ s t, s ≤ t →
      permits s t (outcomes call key (new rate burst) cs) ≤ burst + rate * (t - s)) ∧
    outcomes call key (new rate burst) cs =
      outcomes call key (new rate burst) (cs.filter fun c => c.key = key) ∧
    (runCalls call (new rate burst) cs).buckets.get? key =
      (runCalls call (new rate burst) (cs.filter fun c => c.key = key)).buckets.get? key := by
  obtain ⟨t₀, hfrom⟩ := hclock.exists_from
  have hfilled : (new rate burst).Filled key t₀ := ⟨hburst, le_refl _, le_refl _⟩
  obtain ⟨hlocal, hview⟩ := (localTo_call key).filter cs (rfl : view key (new rate burst) = _)
  refine ⟨fun b hb => ?_, fun s t hst => ?_, hlocal, congrArg (fun v => v.2.2) hview⟩
  · obtain ⟨hsame, t', hnonneg, hle, -⟩ := filled_run key cs hrate hfilled hfrom
    rw [bucketOf, hb] at hnonneg hle
    rw [hsame] at hle
    exact ⟨hnonneg, hle⟩
  · have hmetered := metered_outcomes key cs hrate hfilled hfrom
    rw [← spent_costs]
    exact hmetered.spent_le hburst hrate costs_nonneg hst

/-- Ten calls at once, of which five get a permit. -/
def tenCalls : List Call := List.replicate 10 ⟨"default", .tryAcquire, 3, 3⟩

theorem token_bucket_window_sample :
    permits 3 3 (outcomes call "default" (new 10 5) tenCalls) = 5 ∧
      (permits 3 4 (outcomes call "default" (new 10 5) tenCalls) : ℚ) ≤ 5 + 10 * (4 - 3) :=
  ⟨by decide +kernel, (token_bucket_window (by norm_num) (by norm_num) "default"
    (by decide)).2.1 3 4 (by norm_num)⟩

end TokenBucketLimiter

end MiniDb
