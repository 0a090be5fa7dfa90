/-
  What a read at QUORUM or ALL decides to repair (`cluster/read_coordinator.py`).

  Three comparisons meet here. A difference is noticed when an answer is missing or two versions
  differ (`Detected`). The best answer, and those below it, are found by `_result_sort_key`, in
  which the name of a node stands for an empty coordinator. And a replica takes a record, or
  keeps its own, by the order of the records.

  `endsNewest_iff`: when the repairs are stored as they are sent, the nodes that answered end with
  the newest record of the answers if and only if all answers were the same already, or one of
  them is newest, the difference is noticed, and every other answer is the same record or below
  it in the order of the results (`Repairable`).
-/
import MiniDb.Cluster.System
import MiniDb.Lib.Newest
import Mathlib.Data.Finset.Card

namespace MiniDb

open Lib

/-- The record that a result tells of. -/
def ReadResult.record? (r : ReadResult) : Option KeyMetadata :=
  if r.isStale then none
  else some
    { value := r.value, createdAt := r.createdAt, updatedAt := r.updatedAt
      expiresAt := r.expiresAt, version := r.version, coordinatorId := r.coordinatorId }

namespace ReadCoordinator

/-! ## Genuine results -/

/-- The result is what its node answers with some record, or without one. -/
def Genuine (r : ReadResult) : Prop := r = resultOf r.nodeId (answerOf r.record?)

@[simp] theorem record?_resultOf (nodeId : String) (m : Option KeyMetadata) :
    (resultOf nodeId (answerOf m)).record? = m := by
  cases m with
  | none => rfl
  | some m => rfl

theorem genuine_resultOf (nodeId : String) (m : Option KeyMetadata) :
    Genuine (resultOf nodeId (answerOf m)) := by
  rw [Genuine, record?_resultOf]
  rfl

/-- Whether a result counts as missing, and its version, depend on its record only. -/
theorem Genuine.congr {r r' : ReadResult} (h : Genuine r) (h' : Genuine r')
    (heq : r.record? = r'.record?) : isMissing r = isMissing r' ∧ r.version = r'.version := by
  rw [Genuine] at h h'
  rw [h, h', heq]
  exact ⟨rfl, rfl⟩

theorem Genuine.missing {r : ReadResult} (h : Genuine r) (hnone : r.record? = none) :
    isMissing r = true := by
  rw [Genuine, hnone] at h
  rw [h]
  rfl

/-! ## What is noticed -/

/-- An answer is missing, or two that are not have different versions. -/
def Detected (results : List ReadResult) : Prop :=
  (∃ r ∈ results, isMissing r = true) ∨
    ∃ r ∈ results, ∃ r' ∈ results, isMissing r = false ∧ isMissing r' = false ∧
      r.version ≠ r'.version

theorem detected_iff (results : List ReadResult) :
    1 < ((results.filter fun r => !isMissing r).map ReadResult.version).dedup.length ∨
        (results.filter fun r => !isMissing r).length < results.length ↔
      Detected results := by
  rw [← List.card_toFinset, Finset.one_lt_card, List.length_filter_lt_length_iff_exists, Detected,
    or_comm]
  refine or_congr ?_ ?_
  · simp only [Bool.not_eq_true', Bool.not_eq_false]
  · simp only [List.mem_toFinset, List.mem_map, List.mem_filter, Bool.not_eq_true']
    constructor
    · rintro ⟨_, ⟨r, ⟨hr, hp⟩, rfl⟩, _, ⟨r', ⟨hr', hp'⟩, rfl⟩, hne⟩
      exact ⟨r, hr, r', hr', hp, hp', hne⟩
    · rintro ⟨r, hr, r', hr', hp, hp', hne⟩
      exact ⟨_, ⟨r, ⟨hr, hp⟩, rfl⟩, _, ⟨r', ⟨hr', hp'⟩, rfl⟩, hne⟩

/-- Nothing is repaired, or the best result is there and all below it are repaired. -/
theorem decideRead_cases (need : Nat) (results : List ReadResult) :
    ((decideRead need results).repairs = [] ∧
        ¬ (need ≤ results.length ∧ Detected results ∧ ∃ r ∈ results, isMissing r = false)) ∨
      ∃ best, decideRead need results =
          .found best (results.filter fun r => resultSortKey r < resultSortKey best) ∧
        need ≤ results.length ∧ Detected results ∧ best ∈ results ∧ isMissing best = false ∧
        ∀ r ∈ results, isMissing r = false → resultSortKey r ≤ resultSortKey best := by
  unfold decideRead
  by_cases hneed : results.length < need
  · rw [if_pos hneed]
    exact .inl ⟨rfl, fun h => absurd h.1 (not_le.mpr hneed)⟩
  rw [if_neg hneed]
  dsimp only
  cases hbest : (results.filter fun r => !isMissing r).argmax resultSortKey with
  | none =>
    refine .inl ⟨rfl, fun ⟨_, _, r, hr, hp⟩ => ?_⟩
    have hmem : r ∈ results.filter fun r => !isMissing r :=
      List.mem_filter.mpr ⟨hr, by rw [hp]; rfl⟩
    rw [List.argmax_eq_none.mp hbest] at hmem
    cases hmem
  | some best =>
    obtain ⟨hmem, hpresent⟩ := List.mem_filter.mp (List.argmax_mem hbest)
    dsimp only
    by_cases hd : Detected results
    · rw [if_pos ((detected_iff results).mpr hd)]
      refine .inr ⟨best, rfl, not_lt.mp hneed, hd, hmem, by simpa using hpresent, ?_⟩
      intro r hr hp
      exact List.le_of_mem_argmax (List.mem_filter.mpr ⟨hr, by rw [hp]; rfl⟩) hbest
    · rw [if_neg (mt (detected_iff results).mp hd)]
      exact .inl ⟨rfl, fun h => hd h.2.1⟩

/-! ## What the nodes end with -/

/-- The records of the answers. -/
def told (results : List ReadResult) : Set KeyMetadata :=
  {m | ∃ r ∈ results, r.record? = some m}

/-- The nodes that answered all have the newest record of the answers, or none if there is
    none; `after` says what each has. -/
def EndsNewest (results : List ReadResult) (after : String → Option KeyMetadata) : Prop :=
  ∃ m, IsNewest KeyMetadata.sortKey (told results) m ∧ ∀ r ∈ results, after r.nodeId = m

def SameRecords (results : List ReadResult) : Prop :=
  ∀ r ∈ results, ∀ r' ∈ results, r.record? = r'.record?

/-- `best` is to be repaired with, and all that differ from it are. -/
structure Repairable (need : Nat) (results : List ReadResult) (best : ReadResult) : Prop where
  enough : need ≤ results.length
  detected : Detected results
  mem : best ∈ results
  present : isMissing best = false
  /-- No answer is after it in the order of the records, -/
  newest : ∀ r ∈ results, ∀ m, r.record? = some m →
    ∃ m', best.record? = some m' ∧ m.sortKey ≤ m'.sortKey
  /-- and all that are not the same are before it in the order of the results. -/
  below : ∀ r ∈ results, r.record? = best.record? ∨ resultSortKey r < resultSortKey best

theorem SameRecords.not_detected {results : List ReadResult} (h : SameRecords results)
    (hgenuine : ∀ r ∈ results, Genuine r) {best : ReadResult} (hmem : best ∈ results)
    (hpresent : isMissing best = false) : ¬ Detected results := by
  rintro (⟨r, hr, hmissing⟩ | ⟨r, hr, r', hr', -, -, hne⟩)
  · have hsame := ((hgenuine r hr).congr (hgenuine best hmem) (h r hr best hmem)).1
    rw [hmissing, hpresent] at hsame
    cases hsame
  · exact hne ((hgenuine r hr).congr (hgenuine r' hr') (h r hr r' hr')).2

theorem SameRecords.endsNewest {results : List ReadResult} (h : SameRecords results)
    {after : String → Option KeyMetadata} (hkept : ∀ r ∈ results, after r.nodeId = r.record?) :
    EndsNewest results after := by
  cases results with
  | nil => exact ⟨none, ⟨fun m hm => (by cases hm), fun c hc => (by simp [told] at hc)⟩,
      fun r hr => (by cases hr)⟩
  | cons r results =>
    have hr : r ∈ r :: results := List.mem_cons_self
    refine ⟨r.record?, ⟨fun m hm => ⟨r, hr, hm⟩, fun c ⟨r', hr', hc⟩ => ?_⟩, fun r' hr' => ?_⟩
    · exact ⟨c, (h r hr r' hr').trans hc, le_refl _⟩
    · exact (hkept r' hr').trans (h r' hr' r hr)

/-- Where nothing is repaired, only answers that are the same already are. -/
theorem EndsNewest.sameRecords {results : List ReadResult} {after : String → Option KeyMetadata}
    (h : EndsNewest results after) (hkept : ∀ r ∈ results, after r.nodeId = r.record?) :
    SameRecords results := by
  obtain ⟨m, -, hall⟩ := h
  intro r hr r' hr'
  rw [← hkept r hr, ← hkept r' hr', hall r hr, hall r' hr']

/-- Repairs with the best result bring the newest record about if and only if `Repairable`. -/
theorem endsNewest_best_iff {need : Nat} {results : List ReadResult}
    {after : String → Option KeyMetadata} {fits : Prop} {best : ReadResult}
    (henough : need ≤ results.length) (hdetected : Detected results)
    (hmem : best ∈ results) (hpresent : isMissing best = false)
    (hmax : ∀ r ∈ results, isMissing r = false → resultSortKey r ≤ resultSortKey best)
    (hkept : ∀ r ∈ results, ¬ resultSortKey r < resultSortKey best → after r.nodeId = r.record?)
    (hstored : (∀ r ∈ results, ∀ m, r.record? = some m →
        ∃ m', best.record? = some m' ∧ m.sortKey ≤ m'.sortKey) →
      ((∀ r ∈ results, resultSortKey r < resultSortKey best → after r.nodeId = best.record?) ↔
        fits)) :
    EndsNewest results after ↔ (∃ b, Repairable need results b) ∧ fits := by
  constructor
  · rintro ⟨m, hnewest, hall⟩
    have hm : best.record? = m := (hkept best hmem (lt_irrefl _)).symm.trans (hall best hmem)
    have hbest : ∀ r ∈ results, ∀ c, r.record? = some c →
        ∃ m', best.record? = some m' ∧ c.sortKey ≤ m'.sortKey := by
      intro r hr c hc
      obtain ⟨m', hm', hle⟩ := hnewest.le c ⟨r, hr, hc⟩
      exact ⟨m', hm.trans hm', hle⟩
    refine ⟨⟨best, henough, hdetected, hmem, hpresent, hbest, fun r hr => ?_⟩,
      (hstored hbest).mp fun r hr _ => (hall r hr).trans hm.symm⟩
    by_cases hlt : resultSortKey r < resultSortKey best
    · exact .inr hlt
    · exact .inl ((hkept r hr hlt).symm.trans ((hall r hr).trans hm.symm))
  · rintro ⟨⟨b, hb⟩, hfits⟩
    -- the best result tells of the same record
    have hsame : best.record? = b.record? :=
      (hb.below best hmem).resolve_right (not_lt.mpr (hmax b hb.mem hb.present))
    have hbest := hsame ▸ hb.newest
    have hrepaired := (hstored hbest).mpr hfits
    have hall : ∀ r ∈ results, after r.nodeId = best.record? := by
      intro r hr
      by_cases hlt : resultSortKey r < resultSortKey best
      · exact hrepaired r hr hlt
      · rcases hb.below r hr with heq | hbelow
        · rw [hkept r hr hlt, heq, hsame]
        · exact absurd (lt_of_lt_of_le hbelow (hmax b hb.mem hb.present)) hlt
    exact ⟨best.record?, ⟨fun m hm => ⟨best, hmem, hm⟩, fun c ⟨r, hr, hc⟩ => hbest r hr c hc⟩, hall⟩

/-- **When the nodes end with the newest record.** `fits` says that every repair was stored as it
    was sent. -/
theorem endsNewest_iff {need : Nat} {results : List ReadResult}
    (hgenuine : ∀ r ∈ results, Genuine r) {after : String → Option KeyMetadata} {fits : Prop}
    (hkept : ∀ r ∈ results, r ∉ (decideRead need results).repairs → after r.nodeId = r.record?)
    (hnothing : (decideRead need results).repairs = [] → fits)
    (hstored : ∀ best repairs, decideRead need results = .found best repairs →
      (∀ r ∈ results, ∀ m, r.record? = some m →
        ∃ m', best.record? = some m' ∧ m.sortKey ≤ m'.sortKey) →
      ((∀ r ∈ repairs, after r.nodeId = best.record?) ↔ fits)) :
    EndsNewest results after ↔
      (SameRecords results ∨ ∃ best, Repairable need results best) ∧ fits := by
  rcases decideRead_cases need results with ⟨hnone, hnot⟩ |
    ⟨best, hfound, henough, hdetected, hmem, hpresent, hmax⟩
  · have hkept : ∀ r ∈ results, after r.nodeId = r.record? := fun r hr =>
      hkept r hr (hnone ▸ List.not_mem_nil)
    constructor
    · exact fun h => ⟨.inl (h.sameRecords hkept), hnothing hnone⟩
    · rintro ⟨hsame | ⟨b, hb⟩, -⟩
      · exact hsame.endsNewest hkept
      · exact absurd ⟨hb.enough, hb.detected, b, hb.mem, hb.present⟩ hnot
  · have hrepairs : (decideRead need results).repairs =
        results.filter fun r => resultSortKey r < resultSortKey best := by rw [hfound]; rfl
    have hmem_iff : ∀ r, r ∈ (decideRead need results).repairs ↔
        r ∈ results ∧ resultSortKey r < resultSortKey best := by
      intro r
      rw [hrepairs, List.mem_filter, decide_eq_true_eq]
    rw [endsNewest_best_iff henough hdetected hmem hpresent hmax
      (fun r hr hlt => hkept r hr fun h => hlt ((hmem_iff r).mp h).2) fun hguard => ?_]
    · refine and_congr_left fun _ => (or_iff_right fun hsame => ?_).symm
      exact hsame.not_detected hgenuine hmem hpresent hdetected
    · rw [← hstored best _ hfound hguard, ← hrepairs]
      simp only [hmem_iff, and_imp]

end ReadCoordinator

end MiniDb
