/-
  Which requests a node accepts (`chaos/rate_limiter.py`, `BackpressureManager`; `node.py`,
  `_handle_client_message` and the end of `_maintenance_loop`).

  Each request is first held against the backpressure level, by a random draw, and then takes a
  token of its sender. The level follows the number of pending writes, as maintenance reports it.

  `port_admits`, for runs of requests from any senders, with any draws, and reports of any depths:
  a sender's requests are carried out at most at the rate of its bucket, the node is what the
  accepted requests make of it, and a sender that has had nothing accepted for the time of one token
  gets through, unless the level is high and the draw low.

  The manager has the limiter that a node gives it, a token bucket; that it slows an adaptive one
  down is not modelled. The clock does not run back, and the draws are part of the requests.
-/
import MiniDb.Chaos.TokenBucket
import MiniDb.Node.ClientPort
import Mathlib.Data.List.Flatten

namespace MiniDb

open Lib Lib.Json AofText RateLimiter

structure BackpressureManager where
  rateLimiter : TokenBucketLimiter
  queueDepths : Dict String Int := .empty
  backpressureLevel : ℚ := 0
  lowThreshold : Int := 100
  highThreshold : Int := 1000

namespace BackpressureManager

def calculateBackpressure (b : BackpressureManager) : BackpressureManager :=
  match (b.queueDepths.items.map Prod.snd).max? with
  | none => { b with backpressureLevel := 0 }
  | some maxDepth =>
    { b with backpressureLevel :=
        if maxDepth ≤ b.lowThreshold then 0
        else if b.highThreshold ≤ maxDepth then 1
        else ((maxDepth - b.lowThreshold : Int) : ℚ) /
          ((b.highThreshold - b.lowThreshold : Int) : ℚ) }

def updateQueueDepth (b : BackpressureManager) (queueName : String) (depth : Int) :
    BackpressureManager :=
  { b with queueDepths := b.queueDepths.set queueName depth }.calculateBackpressure

/-- The request is turned away before it asks for a token. -/
def turnsAway (b : BackpressureManager) (draw : ℚ) : Prop :=
  4 / 5 < b.backpressureLevel ∧ draw < b.backpressureLevel - 1 / 2

instance (b : BackpressureManager) (draw : ℚ) : Decidable (b.turnsAway draw) :=
  inferInstanceAs (Decidable (_ ∧ _))

def shouldAcceptRequest (b : BackpressureManager) (draw : ℚ) (key : String) (early late : Time) :
    BackpressureManager × Bool :=
  if b.turnsAway draw then (b, false)
  else
    let (l, ok) := b.rateLimiter.tryAcquire key early late
    ({ b with rateLimiter := l }, ok)

/-- `_backpressure_level` is between 0 and 1. -/
structure Scaled (b : BackpressureManager) : Prop where
  thresholds : b.lowThreshold < b.highThreshold
  nonneg : 0 ≤ b.backpressureLevel
  le_one : b.backpressureLevel ≤ 1

theorem scaled_calculateBackpressure {b : BackpressureManager}
    (h : b.lowThreshold < b.highThreshold) : b.calculateBackpressure.Scaled := by
  unfold calculateBackpressure
  split
  · exact ⟨h, le_rfl, zero_le_one⟩
  · rename_i maxDepth _
    have hwidth : (0 : ℚ) < ((b.highThreshold - b.lowThreshold : Int) : ℚ) :=
      Int.cast_pos.mpr (sub_pos.mpr h)
    refine ⟨h, ?_, ?_⟩
    · dsimp only
      split
      · exact le_rfl
      · rename_i hlow
        split
        · exact zero_le_one
        · exact div_nonneg (Int.cast_nonneg (sub_nonneg.mpr (not_le.mp hlow).le)) hwidth.le
    · dsimp only
      split
      · exact zero_le_one
      · split
        · exact le_rfl
        · rename_i hhigh
          refine (div_le_one hwidth).mpr (Int.cast_le.mpr ?_)
          exact sub_le_sub_right (not_le.mp hhigh).le _

/-- With a draw of one half or more, nothing is turned away. -/
theorem Scaled.not_turnsAway {b : BackpressureManager} (h : b.Scaled) {draw : ℚ}
    (hdraw : 1 / 2 ≤ draw) : ¬ b.turnsAway draw := by
  rintro ⟨-, hlow⟩
  have hle := h.le_one
  linarith

end BackpressureManager

/-! ## The bucket of a sender that waits -/

namespace TokenBucketLimiter

/-- The bucket of the key holds what has flown in since `x`. -/
def Earned (l : TokenBucketLimiter) (key : String) (x : Time) : Prop :=
  ∀ b, l.buckets.get? key = some b → min l.burst (l.rate * (b.lastUpdate - x)) ≤ b.tokens

section Earned

variable {l : TokenBucketLimiter} {key : String} {t x : Time}

theorem earned_refill {c : Call} (hrate : 0 ≤ l.rate) (h : l.Filled c.key t)
    (hearned : l.Earned c.key x) (hearly : t ≤ c.early) (hlate : c.early ≤ c.late) :
    min l.burst (l.rate * (c.late - x)) ≤
      (l.refill (l.bucketOf c.key c.early) c.late).tokens := by
  have htouched := le_trans (h.later hearly).touched hlate
  unfold refill
  cases hget : l.buckets.get? c.key with
  | none =>
    have hnew : l.bucketOf c.key c.early = ⟨l.burst, c.early⟩ := by rw [bucketOf, hget]; rfl
    have hflow : 0 ≤ (c.late - c.early) * l.rate := mul_nonneg (sub_nonneg.mpr hlate) hrate
    rw [hnew]
    exact le_min (min_le_left _ _) (le_trans (min_le_left _ _) (le_add_of_nonneg_right hflow))
  | some b =>
    have hsame : l.bucketOf c.key c.early = b := by rw [bucketOf, hget]; rfl
    rw [hsame] at htouched ⊢
    have hflow : 0 ≤ (c.late - b.lastUpdate) * l.rate :=
      mul_nonneg (sub_nonneg.mpr htouched) hrate
    refine le_min (min_le_left _ _) ?_
    rcases min_le_iff.mp (hearned b hget) with hfull | hpart
    · exact le_trans (min_le_left _ _) (by linarith)
    · refine le_trans (min_le_right _ _) ?_
      have hsplit : l.rate * (c.late - x) =
          l.rate * (b.lastUpdate - x) + (c.late - b.lastUpdate) * l.rate := by ring
      linarith

/-- A call keeps what is earned since `x`, if it has no permit after `x`. -/
theorem Earned.call {c : Call} (hrate : 0 ≤ l.rate) (hfilled : ∀ key, l.Filled key t)
    (h : l.Earned key x) (hearly : t ≤ c.early) (hlate : c.early ≤ c.late)
    (hlast : c.key = key → (l.call c).2 = true → c.late ≤ x) : (l.call c).1.Earned key x := by
  have heffect := l.call_effect c
  intro b hb
  rw [heffect.burst, heffect.rate]
  rw [heffect.buckets] at hb
  by_cases hkey : key = c.key
  · subst hkey
    rw [if_pos rfl] at hb
    obtain rfl := Option.some.inj hb
    obtain ⟨hnonneg, htime, -⟩ := bucketAfter_bounds hrate (hfilled c.key) hearly hlate rfl
    cases hpermit : (l.call c).2 with
    | true =>
      -- a permit that is given at `x` or before
      have hle := hlast rfl hpermit
      rw [htime]
      refine le_trans (min_le_right _ _) (le_trans ?_ hnonneg)
      exact mul_nonpos_of_nonneg_of_nonpos hrate (sub_nonpos.mpr hle)
    | false =>
      have hafter : l.bucketAfter c = l.refill (l.bucketOf c.key c.early) c.late :=
        if_neg fun hgiven => by rw [heffect.permit.mpr hgiven] at hpermit; cases hpermit
      rw [htime, hafter]
      exact earned_refill hrate (hfilled c.key) h hearly hlate
  · rw [if_neg hkey] at hb
    exact h b hb

/-- A call gets its permit when its key has had none for the time of a token. -/
theorem permit_of_rested {cs : List Call} {c : Call} (hrate : 0 < l.rate) (hburst : 1 ≤ l.burst)
    (hfilled : ∀ key, l.Filled key t) (hearned : l.Earned c.key x) (hkind : c.kind = .tryAcquire)
    (hclock : ClockedFrom t (cs ++ [c])) (hrest : x + 1 / l.rate ≤ c.late)
    (hlast : ∀ o ∈ outcomes call c.key l cs, o.2 = true → o.1 ≤ x) :
    ((runCalls call l cs).call c).2 = true := by
  induction cs generalizing l t with
  | nil =>
    obtain ⟨hearly, hlate, -⟩ := hclock.cons
    have hearned' := earned_refill hrate.le (hfilled c.key) hearned hearly hlate
    refine (l.call_effect c).permit.mpr ⟨hkind, le_trans (le_min hburst ?_) hearned'⟩
    have hone : l.rate * (1 / l.rate) = 1 := mul_one_div_cancel hrate.ne'
    calc (1 : ℚ) = l.rate * (1 / l.rate) := hone.symm
      _ ≤ l.rate * (c.late - x) := mul_le_mul_of_nonneg_left (by linarith) hrate.le
  | cons d cs ih =>
    obtain ⟨hearly, hlate, hnext⟩ := hclock.cons
    have heffect := l.call_effect d
    have hd : d.key = c.key → (l.call d).2 = true → d.late ≤ x := by
      intro hkey hpermit
      refine hlast (d.late, (l.call d).2) ?_ hpermit
      unfold outcomes
      rw [if_pos hkey]
      exact List.mem_cons_self
    refine ih (heffect.rate ▸ hrate) (heffect.burst ▸ hburst)
      (fun key => filled_call hrate.le (hfilled key) hearly hlate)
      (hearned.call hrate.le hfilled hearly hlate hd) hnext (heffect.rate.symm ▸ hrest) ?_
    intro o ho
    refine hlast o ?_
    unfold outcomes
    split
    · exact List.mem_cons_of_mem _ ho
    · exact ho

end Earned

end TokenBucketLimiter

namespace Admission

/-! ## The client port -/

/-- A request of a sender that is a text, with the draw it is held against. -/
structure Request where
  message : Network.Message
  sender : String
  text : message.senderId = .str sender
  draw : ℚ
  early : Time
  late : Time

/-- `message.sender_id or "default"` -/
def Request.key (r : Request) : String := if r.sender = "" then "default" else r.sender

def Request.call (r : Request) : Call := ⟨r.key, .tryAcquire, r.early, r.late⟩

structure State where
  manager : BackpressureManager
  node : Node

inductive Event where
  | request (r : Request)
  /-- The end of a round of `_maintenance_loop`. -/
  | pendingWrites (depth : Int)

/-- A node that has just been made. -/
def start (rate burst : ℚ) (node : Node) : State := ⟨{ rateLimiter := .new rate burst }, node⟩

def accepts (s : State) (r : Request) : BackpressureManager × Bool :=
  s.manager.shouldAcceptRequest r.draw r.key r.early r.late

section

variable {F : FloatText} (T : TextFunctions F) (hash : String → Nat)

/-- `_handle_client_message` -/
def handle (s : State) (r : Request) : State × Except LineError ClientPort.Outcome :=
  let (manager, ok) := accepts s r
  if ok then
    let (node, outcome) := ClientPort.handleClientMessage T hash r.late s.node r.message
    (⟨manager, node⟩, outcome)
  else (⟨manager, s.node⟩, .ok (.reply (.error "Rate limited - try again later")))

def step (s : State) : Event → State
  | .request r => (handle T hash s r).1
  | .pendingWrites depth =>
    { s with manager := s.manager.updateQueueDepth "pending_writes" depth }

def run (s : State) (evs : List Event) : State := evs.foldl (step T hash) s

/-- The requests that are carried out. -/
def accepted : State → List Event → List Request
  | _, [] => []
  | s, .request r :: evs =>
    if (accepts s r).2 then r :: accepted (step T hash s (.request r)) evs
    else accepted (step T hash s (.request r)) evs
  | s, .pendingWrites depth :: evs => accepted (step T hash s (.pendingWrites depth)) evs

/-- The calls of the limiter. -/
def asked : State → List Event → List Call
  | _, [] => []
  | s, .request r :: evs =>
    if s.manager.turnsAway r.draw then asked (step T hash s (.request r)) evs
    else r.call :: asked (step T hash s (.request r)) evs
  | s, .pendingWrites depth :: evs => asked (step T hash s (.pendingWrites depth)) evs

/-- The requests of a run, as calls. -/
def calls (evs : List Event) : List Call :=
  evs.filterMap fun
    | .request r => some r.call
    | .pendingWrites _ => none

variable {T hash}

theorem accepted_request (s : State) (r : Request) (evs : List Event) :
    accepted T hash s (.request r :: evs) =
      if (accepts s r).2 then r :: accepted T hash (step T hash s (.request r)) evs
      else accepted T hash (step T hash s (.request r)) evs := rfl

theorem asked_request (s : State) (r : Request) (evs : List Event) :
    asked T hash s (.request r :: evs) =
      if s.manager.turnsAway r.draw then asked T hash (step T hash s (.request r)) evs
      else r.call :: asked T hash (step T hash s (.request r)) evs := rfl

/-! ## What a step does to the limiter -/

theorem accepts_turned {s : State} {r : Request} (h : s.manager.turnsAway r.draw) :
    accepts s r = (s.manager, false) := if_pos h

theorem accepts_asked {s : State} {r : Request} (h : ¬ s.manager.turnsAway r.draw) :
    accepts s r = ({ s.manager with rateLimiter := (s.manager.rateLimiter.call r.call).1 },
      (s.manager.rateLimiter.call r.call).2) := if_neg h

theorem manager_request (s : State) (r : Request) :
    (step T hash s (.request r)).manager = (accepts s r).1 := by
  simp only [step, handle]
  split <;> rfl

theorem node_request (s : State) (r : Request) :
    (step T hash s (.request r)).node =
      if (accepts s r).2 then (ClientPort.handleClientMessage T hash r.late s.node r.message).1
      else s.node := by
  simp only [step, handle]
  split <;> rfl

theorem rateLimiter_pendingWrites (s : State) (depth : Int) :
    (step T hash s (.pendingWrites depth)).manager.rateLimiter = s.manager.rateLimiter := by
  simp only [step, BackpressureManager.updateQueueDepth, BackpressureManager.calculateBackpressure]
  split <;> rfl

theorem scaled_step {s : State} (h : s.manager.Scaled) (ev : Event) :
    (step T hash s ev).manager.Scaled := by
  cases ev with
  | request r =>
    rw [manager_request]
    by_cases hturned : s.manager.turnsAway r.draw
    · rw [accepts_turned hturned]
      exact h
    · rw [accepts_asked hturned]
      exact ⟨h.thresholds, h.nonneg, h.le_one⟩
  | pendingWrites depth =>
    exact BackpressureManager.scaled_calculateBackpressure h.thresholds

/-! ## Runs -/

theorem scaled_run {s : State} (h : s.manager.Scaled) (evs : List Event) :
    (run T hash s evs).manager.Scaled := by
  induction evs generalizing s with
  | nil => exact h
  | cons ev evs ih => exact ih (scaled_step h ev)

/-- Requests that are refused leave no trace at the node. -/
theorem node_run (s : State) (evs : List Event) :
    (run T hash s evs).node = (accepted T hash s evs).foldl
      (fun n r => (ClientPort.handleClientMessage T hash r.late n r.message).1) s.node := by
  induction evs generalizing s with
  | nil => rfl
  | cons ev evs ih =>
    refine (ih _).trans ?_
    cases ev with
    | request r =>
      rw [node_request, accepted_request]
      cases (accepts s r).2 with
      | true => rw [if_pos rfl, if_pos rfl, List.foldl_cons]
      | false => rw [if_neg Bool.false_ne_true, if_neg Bool.false_ne_true]
    | pendingWrites depth => rfl

theorem rateLimiter_run (s : State) (evs : List Event) :
    (run T hash s evs).manager.rateLimiter =
      runCalls TokenBucketLimiter.call s.manager.rateLimiter (asked T hash s evs) := by
  induction evs generalizing s with
  | nil => rfl
  | cons ev evs ih =>
    refine (ih _).trans ?_
    cases ev with
    | request r =>
      rw [asked_request, manager_request]
      by_cases hturned : s.manager.turnsAway r.draw
      · rw [if_pos hturned, accepts_turned hturned]
      · rw [if_neg hturned, accepts_asked hturned]
        rfl
    | pendingWrites depth =>
      rw [rateLimiter_pendingWrites]
      rfl

theorem asked_sublist (s : State) (evs : List Event) :
    (asked T hash s evs).Sublist (calls evs) := by
  induction evs generalizing s with
  | nil => exact List.Sublist.refl _
  | cons ev evs ih =>
    cases ev with
    | request r =>
      rw [asked_request]
      split
      · exact (ih _).cons _
      · exact (ih _).cons_cons _
    | pendingWrites depth => exact ih _

variable (T hash) in
/-- The requests that are carried out are those with a permit. -/
theorem permits_eq_accepted (s : State) (evs : List Event) (key : String) :
    ((outcomes TokenBucketLimiter.call key s.manager.rateLimiter (asked T hash s evs)).filter
        Prod.snd).map Prod.fst =
      ((accepted T hash s evs).filter fun r => r.key = key).map Request.late := by
  induction evs generalizing s with
  | nil => rfl
  | cons ev evs ih =>
    cases ev with
    | request r =>
      have hnext := ih (step T hash s (.request r))
      rw [manager_request] at hnext
      rw [accepted_request, asked_request]
      by_cases hturned : s.manager.turnsAway r.draw
      · rw [accepts_turned hturned] at hnext ⊢
        rw [if_pos hturned]
        exact hnext
      · rw [accepts_asked hturned] at hnext ⊢
        rw [if_neg hturned]
        dsimp only at hnext ⊢
        unfold outcomes
        have hkey : r.call.key = r.key := rfl
        rw [hkey]
        by_cases hr : r.key = key
        · cases hpermit : (s.manager.rateLimiter.call r.call).2 with
          | true =>
            rw [if_pos hr, if_pos rfl, List.filter_cons_of_pos rfl,
              List.filter_cons_of_pos (by simpa using hr), List.map_cons, List.map_cons, hnext]
            rfl
          | false =>
            rw [if_pos hr, if_neg Bool.false_ne_true, List.filter_cons_of_neg Bool.false_ne_true]
            exact hnext
        · rw [if_neg hr]
          split
          · rw [List.filter_cons_of_neg (by simpa using hr)]
            exact hnext
          · exact hnext
    | pendingWrites depth =>
      have hnext := ih (step T hash s (.pendingWrites depth))
      rw [rateLimiter_pendingWrites] at hnext
      exact hnext

variable (T hash) in
/-- How often a key gets a permit in a window. -/
theorem permits_accepted (s : State) (evs : List Event) (key : String) (x y : Time) :
    permits x y (outcomes TokenBucketLimiter.call key s.manager.rateLimiter (asked T hash s evs)) =
      (accepted T hash s evs).countP fun r => r.key = key ∧ x ≤ r.late ∧ r.late ≤ y := by
  have hcount := congrArg (List.countP fun u => x ≤ u ∧ u ≤ y)
    (permits_eq_accepted T hash s evs key)
  rw [List.countP_map, List.countP_filter, List.countP_map, List.countP_filter] at hcount
  unfold permits
  refine Eq.trans (List.countP_congr fun o _ => ?_) (hcount.trans (List.countP_congr fun r _ => ?_))
  · simp [and_comm]
  · simp [and_comm]

theorem filled_new {rate burst : ℚ} (hburst : 0 ≤ burst) (key : String) (t : Time) :
    (TokenBucketLimiter.new rate burst).Filled key t := ⟨hburst, le_refl _, le_refl _⟩

theorem clockedFrom_sublist {t : Time} {cs cs' : List Call} (h : ClockedFrom t cs)
    (hs : cs'.Sublist cs) : ClockedFrom t cs' :=
  ⟨fun c hc => h.1 c (hs.subset hc), List.Pairwise.sublist (hs.flatMap _) h.2⟩

variable {rate burst : ℚ} {node : Node} {evs : List Event}

/-- A sender that has rested gets through. -/
theorem accepts_rested (hrate : 0 < rate) (hburst : 1 ≤ burst) {r : Request}
    (hclock : Clocked (calls evs ++ [r.call]))
    (hturned : ¬ (run T hash (start rate burst node) evs).manager.turnsAway r.draw)
    (hrest : ∀ r' ∈ accepted T hash (start rate burst node) evs, r'.key = r.key →
      r'.late + 1 / rate ≤ r.late) :
    (accepts (run T hash (start rate burst node) evs) r).2 = true := by
  obtain ⟨t, hfrom⟩ := hclock.exists_from
  have hsub : (asked T hash (start rate burst node) evs ++ [r.call]).Sublist
      (calls evs ++ [r.call]) := (asked_sublist _ evs).append (List.Sublist.refl _)
  have hzero : 0 ≤ burst := le_trans zero_le_one hburst
  rw [accepts_asked hturned, rateLimiter_run]
  refine TokenBucketLimiter.permit_of_rested (x := r.late - 1 / rate) hrate hburst
    (fun key => filled_new hzero key t) (fun b hb => ?_) rfl (clockedFrom_sublist hfrom hsub)
    (sub_add_cancel r.late (1 / rate)).le fun o ho hpermit => ?_
  · cases hb
  · have hmem : o.1 ∈ ((accepted T hash (start rate burst node) evs).filter
        fun r' => r'.key = r.key).map Request.late := by
      rw [← permits_eq_accepted]
      exact List.mem_map_of_mem (List.mem_filter.mpr ⟨ho, hpermit⟩)
    obtain ⟨r', hr', hlate⟩ := List.mem_map.mp hmem
    obtain ⟨haccepted, hkey⟩ := List.mem_filter.mp hr'
    rw [← hlate]
    exact le_sub_iff_add_le.mpr (hrest r' haccepted (by simpa using hkey))

/-- **What a client port lets through**, over runs of requests and of reports of its queue. In a
    window of time a sender has at most `burst` requests carried out, and what its bucket is filled
    with meanwhile; the node is what they make of it; the level stays between 0 and 1; and a sender
    that has had nothing carried out for the time of a token gets through when the draw is at least
    one half or the level at most 4/5. -/
theorem port_admits (hrate : 0 < rate) (hburst : 1 ≤ burst) (hclock : Clocked (calls evs)) :
    (∀ key x y, x ≤ y →
      ((accepted T hash (start rate burst node) evs).countP
        (fun r => r.key = key ∧ x ≤ r.late ∧ r.late ≤ y) : ℚ) ≤ burst + rate * (y - x)) ∧
    (run T hash (start rate burst node) evs).node =
      (accepted T hash (start rate burst node) evs).foldl
        (fun n r => (ClientPort.handleClientMessage T hash r.late n r.message).1) node ∧
    (0 ≤ (run T hash (start rate burst node) evs).manager.backpressureLevel ∧
      (run T hash (start rate burst node) evs).manager.backpressureLevel ≤ 1) ∧
    ∀ r : Request, Clocked (calls evs ++ [r.call]) →
      (∀ r' ∈ accepted T hash (start rate burst node) evs, r'.key = r.key →
        r'.late + 1 / rate ≤ r.late) →
      1 / 2 ≤ r.draw ∨
        (run T hash (start rate burst node) evs).manager.backpressureLevel ≤ 4 / 5 →
      (accepts (run T hash (start rate burst node) evs) r).2 = true := by
  have hzero : 0 ≤ burst := le_trans zero_le_one hburst
  have hscaled : (run T hash (start rate burst node) evs).manager.Scaled :=
    scaled_run ⟨(by decide : (100 : Int) < 1000), le_rfl, zero_le_one⟩ evs
  refine ⟨fun key x y hxy => ?_, node_run _ evs, ⟨hscaled.nonneg, hscaled.le_one⟩,
    fun r hr hrest hdraw => accepts_rested hrate hburst hr ?_ hrest⟩
  · obtain ⟨t, hfrom⟩ := hclock.exists_from
    have hmetered := TokenBucketLimiter.metered_outcomes key
      (asked T hash (start rate burst node) evs) hrate.le
      (filled_new hzero key t) (clockedFrom_sublist hfrom (asked_sublist _ evs))
    have hspent := hmetered.spent_le hzero hrate.le costs_nonneg hxy
    rw [spent_costs] at hspent
    have hpermits := permits_accepted T hash (start rate burst node) evs key x y
    exact hpermits ▸ hspent
  · rcases hdraw with hdraw | hlevel
    · exact hscaled.not_turnsAway hdraw
    · exact fun hturned => absurd hturned.1 (not_lt.mpr hlevel)

end

/-! ### A port under load -/

/-- A request for the keys of a node. -/
def askKeys (sender : String) (draw : ℚ) (now : Time) : Request :=
  { message := Network.Protocol.createCommand id "__LOCAL_KEYS" [.str "*"] sender, sender := sender
    text := rfl, draw := draw, early := now, late := now }

def loaded : List Event :=
  [.request (askKeys "a" 0 1), .pendingWrites 1000, .request (askKeys "a" 0 2),
    .request (askKeys "a" (1 / 2) 2), .request (askKeys "" 1 3)]

theorem port_admits_sample :
    (accepted ClientPort.wholeTexts (fun _ => 0) (start 1000 100 Replica.sampleNode)
        loaded).map Request.late = [1, 2, 3] ∧
      ((accepted ClientPort.wholeTexts (fun _ => 0) (start 1000 100 Replica.sampleNode)
        loaded).countP (fun r => r.key = "a" ∧ 1 ≤ r.late ∧ r.late ≤ 2) : ℚ) ≤
        100 + 1000 * (2 - 1) :=
  ⟨by decide +kernel,
    (port_admits (by norm_num) (by norm_num) (by decide)).1 "a" 1 2 (by norm_num)⟩

end Admission

end MiniDb
