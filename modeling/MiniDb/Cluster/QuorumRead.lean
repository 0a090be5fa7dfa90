/-
  Reads at QUORUM and ALL through callbacks that can fail (`cluster/read_coordinator.py`, `read`,
  `_read_quorum`, `_read_all` and `_read_from_replicas`).

  A callback answers or raises. `_read_remote` catches what it raises and gives no result;
  `_read_local` does not, so that the read raises itself. The remote reads complete in some
  order, or not before the time-out, and the loop that waits for them ends as soon as there are
  enough results.

  `quorum_read_reports` says what is reported: `quorum_failed` exactly when too few replicas
  answered, `key_absent` exactly when enough did and all that is collected is missing, and else an
  answer that no collected one comes after. Missing markers take no part in this comparison: a
  record of version 0 or less can come before one (`missing_marker_above`).
-/
import MiniDb.Cluster.ReadCoordinator

namespace MiniDb

open Lib

namespace ReadCoordinator

/-! ## Reading through callbacks -/

/-- What the callbacks of a read do; `none` is an exception. -/
structure Callbacks where
  getLocalValue : Option ReadAnswer
  getRemoteValue : String → Option ReadAnswer

/-- `_read_local`; `none` is an exception. -/
def readLocal (c : Callbacks) (localId : String) : Option ReadResult :=
  c.getLocalValue.map (resultOf localId)

/-- `_read_remote`; `none` is no result. -/
def readRemote (c : Callbacks) (nodeId : String) : Option ReadResult :=
  (c.getRemoteValue nodeId).map (resultOf nodeId)

/-- The loop over `as_completed`, up to the last future or the time-out. -/
def awaitResults (need : Nat) : List ReadResult → List (Option ReadResult) → List ReadResult
  | results, [] => results
  | results, none :: rs => awaitResults need results rs
  | results, some r :: rs =>
    if need ≤ results.length + 1 then results ++ [r] else awaitResults need (results ++ [r]) rs

/-- `_read_from_replicas`; `completed` are the remote reads that complete in time. -/
def gather (p : ReadPlan) (c : Callbacks) (completed : List String) : Option (List ReadResult) :=
  ((p.replicas.filter fun r => r = p.localId).mapM fun _ => readLocal c p.localId).map
    fun results => awaitResults p.needed results (completed.map (readRemote c))

/-- What `read` returns: the value found with its metadata, and two flags. -/
structure ReadReport where
  result : Option ReadResult
  quorumFailed : Bool
  keyAbsent : Bool

def reportOf : ReadOutcome → ReadReport
  | .failed => ⟨none, true, false⟩
  | .absent => ⟨none, false, true⟩
  | .found best _ => ⟨some best, false, false⟩

/-- `read` at QUORUM or ALL; `none` is an exception. -/
def readReport (p : ReadPlan) (c : Callbacks) (completed : List String) : Option ReadReport :=
  (gather p c completed).map fun results => reportOf (decideRead p.needed results)

/-! ## What is gathered -/

/-- The replica's callback answers, and in time. -/
def Answers (p : ReadPlan) (c : Callbacks) (completed : List String) (r : String) : Prop :=
  (r = p.localId ∧ c.getLocalValue.isSome) ∨ (r ∈ completed ∧ (c.getRemoteValue r).isSome)

instance (p : ReadPlan) (c : Callbacks) (completed : List String) (r : String) :
    Decidable (Answers p c completed r) :=
  inferInstanceAs (Decidable (_ ∨ _))

theorem awaitResults_eq (need : Nat) (results : List ReadResult) (rs : List (Option ReadResult)) :
    awaitResults need results rs = collect need results (rs.filterMap id) := by
  induction rs generalizing results with
  | nil => rfl
  | cons r rs ih =>
    cases r with
    | none => exact ih results
    | some r =>
      show awaitResults need results (some r :: rs) = collect need results (r :: rs.filterMap id)
      unfold awaitResults collect
      split
      · rfl
      · exact ih (results ++ [r])

/-- The replicas whose answers can be gathered, in the order of their answers. -/
def answered (p : ReadPlan) (c : Callbacks) (completed : List String) : List String :=
  List.replicate (localCount p) p.localId ++ completed.filter fun r => (c.getRemoteValue r).isSome

/-- The result a replica's callback gives. -/
def answerResult (p : ReadPlan) (c : Callbacks) (r : String) : Option ReadResult :=
  if r = p.localId then readLocal c r else readRemote c r

theorem filterMap_readRemote (c : Callbacks) (completed : List String) :
    (completed.filterMap (readRemote c)).map some =
      (completed.filter fun r => (c.getRemoteValue r).isSome).map (readRemote c) := by
  induction completed with
  | nil => rfl
  | cons r rs ih =>
    rw [List.filterMap_cons, List.filter_cons]
    unfold readRemote at *
    cases h : c.getRemoteValue r with
    | none => exact ih
    | some a => simp [h, ih]

/-- A read raises only what this node's own callback does. -/
theorem gather_eq_none {p : ReadPlan} (hnodup : p.replicas.Nodup) (c : Callbacks)
    (completed : List String) :
    gather p c completed = none ↔ p.localId ∈ p.replicas ∧ c.getLocalValue = none := by
  unfold gather
  rw [filter_local hnodup, Option.map_eq_none_iff]
  by_cases hmem : p.localId ∈ p.replicas
  · rw [show localCount p = 1 from if_pos hmem]
    cases h : c.getLocalValue <;> simp [readLocal, h, hmem]
  · rw [show localCount p = 0 from if_neg hmem]
    simp [hmem]

/-- Of the other replicas the first that answer are waited for. -/
theorem awaitResults_remote {p : ReadPlan} {c : Callbacks} {completed : List String}
    (hremote : p.localId ∉ completed) (results : List ReadResult) :
    (awaitResults p.needed results (completed.map (readRemote c))).map some =
      results.map some ++
        ((completed.filter fun r => (c.getRemoteValue r).isSome).take
          (max 1 (p.needed - results.length))).map (answerResult p c) := by
  have hfilterMap : (completed.map (readRemote c)).filterMap id =
      completed.filterMap (readRemote c) := by
    rw [List.filterMap_map]
    rfl
  rw [awaitResults_eq, hfilterMap, collect_eq, List.map_append, List.map_take,
    filterMap_readRemote, ← List.map_take]
  refine congrArg _ (List.map_congr_left fun r hr => ?_)
  have hne : r ≠ p.localId :=
    ne_of_mem_of_not_mem (List.mem_of_mem_filter (List.mem_of_mem_take hr)) hremote
  rw [answerResult, if_neg hne]

/-- Else it gathers its own answer, if it is a replica, and the first remote ones. -/
theorem gather_eq_some {p : ReadPlan} (hnodup : p.replicas.Nodup) {c : Callbacks}
    {completed : List String} (hremote : p.localId ∉ completed) {results : List ReadResult}
    (h : gather p c completed = some results) :
    results.map some =
      ((answered p c completed).take (localCount p + max 1 (p.needed - localCount p))).map
        (answerResult p c) := by
  unfold gather at h
  rw [filter_local hnodup] at h
  unfold answered
  by_cases hmem : p.localId ∈ p.replicas
  · rw [show localCount p = 1 from if_pos hmem] at h ⊢
    cases hlocal : readLocal c p.localId with
    | none =>
      rw [List.replicate_one, List.mapM_cons, hlocal] at h
      cases h
    | some r =>
      have hself : answerResult p c p.localId = some r := by rw [answerResult, if_pos rfl, hlocal]
      rw [List.replicate_one, List.mapM_cons, hlocal] at h
      simp only [List.mapM_nil, Option.pure_def, Option.bind_eq_bind, Option.bind_some,
        Option.map_some, Option.some.injEq] at h
      rw [← h, awaitResults_remote hremote, List.replicate_one, List.singleton_append,
        Nat.add_comm 1 (max _ _), List.take_succ_cons, List.map_cons, List.map_cons, hself]
      rfl
  · rw [show localCount p = 0 from if_neg hmem] at h ⊢
    simp only [List.replicate_zero, List.mapM_nil, Option.pure_def, Option.map_some,
      Option.some.injEq] at h
    rw [← h, awaitResults_remote hremote, List.map_nil, List.nil_append, Nat.zero_add,
      List.replicate_zero, List.nil_append]
    rfl

/-- The replicas that answer, listed once each. -/
theorem answered_perm {p : ReadPlan} (hnodup : p.replicas.Nodup) {c : Callbacks}
    {completed : List String} (hcompleted : completed.Nodup)
    (hremote : ∀ r ∈ completed, r ∈ p.replicas ∧ r ≠ p.localId)
    (hlocal : p.localId ∈ p.replicas → c.getLocalValue ≠ none) :
    (answered p c completed).Perm (p.replicas.filter fun r => Answers p c completed r) := by
  have hnot : p.localId ∉ completed := fun h => (hremote _ h).2 rfl
  have hdistinct : (answered p c completed).Nodup := by
    rw [answered, List.nodup_append]
    refine ⟨List.nodup_replicate.mpr (localCount_le p), hcompleted.filter _, ?_⟩
    intro a ha b hb hab
    rw [(List.mem_replicate.mp ha).2] at hab
    exact hnot (hab ▸ List.mem_of_mem_filter hb)
  rw [List.perm_ext_iff_of_nodup hdistinct (hnodup.filter _)]
  intro r
  rw [answered, List.mem_append, List.mem_filter, List.mem_filter, decide_eq_true_iff]
  constructor
  · rintro (h | ⟨hr, hanswer⟩)
    · obtain ⟨hcount, rfl⟩ := List.mem_replicate.mp h
      have hmem : p.localId ∈ p.replicas := by
        by_contra hmem
        exact hcount (if_neg hmem)
      exact ⟨hmem, .inl ⟨rfl, Option.isSome_iff_ne_none.mpr (hlocal hmem)⟩⟩
    · exact ⟨(hremote r hr).1, .inr ⟨hr, hanswer⟩⟩
  · rintro ⟨hr, ⟨rfl, -⟩ | hanswer⟩
    · refine .inl (List.mem_replicate.mpr ⟨?_, rfl⟩)
      rw [localCount, if_pos hr]
      exact one_ne_zero
    · exact .inr hanswer

/-! ## What is reported -/

/-- What a read at QUORUM or ALL owes its caller when it has gathered `results`. -/
structure Reports (p : ReadPlan) (c : Callbacks) (completed : List String)
    (results : List ReadResult) (report : ReadReport) : Prop where
  failed_iff : report.quorumFailed = true ↔
    (p.replicas.filter fun r => Answers p c completed r).length < p.needed
  enough : report.quorumFailed = false → p.needed ≤ results.length
  absent_iff : report.keyAbsent = true ↔
    report.quorumFailed = false ∧ ∀ r ∈ results, isMissing r = true
  nothing : report.quorumFailed = true ∨ report.keyAbsent = true → report.result = none
  newest : report.quorumFailed = false → report.keyAbsent = false →
    ∃ best ∈ results, report.result = some best ∧ isMissing best = false ∧
      ∀ r ∈ results, isMissing r = false → resultSortKey r ≤ resultSortKey best
  answers : ∃ nodes : List String, nodes.Nodup ∧
    (∀ r ∈ nodes, r ∈ p.replicas ∧ Answers p c completed r) ∧
    results.map some = nodes.map (answerResult p c)

theorem reportOf_failed (o : ReadOutcome) : (reportOf o).quorumFailed = true ↔ o = .failed := by
  cases o <;> simp [reportOf]

theorem reportOf_absent (o : ReadOutcome) : (reportOf o).keyAbsent = true ↔ o = .absent := by
  cases o <;> simp [reportOf]

theorem decideRead_absent_iff (need : Nat) (results : List ReadResult) :
    decideRead need results = .absent ↔
      need ≤ results.length ∧ ∀ r ∈ results, isMissing r = true := by
  constructor
  · intro h
    have henough : need ≤ results.length := by
      by_contra hlt
      rw [(decideRead_failed_iff need results).mpr (not_le.mp hlt)] at h
      cases h
    refine ⟨henough, fun r hr => ?_⟩
    by_contra hpresent
    obtain ⟨best, repairs, hfound, -⟩ :=
      decideRead_found henough hr (Bool.not_eq_true _ ▸ hpresent)
    rw [hfound] at h
    cases h
  · rintro ⟨henough, hmissing⟩
    cases h : decideRead need results with
    | failed => exact absurd ((decideRead_failed_iff need results).mp h) (not_lt.mpr henough)
    | absent => rfl
    | found best repairs =>
      obtain ⟨hmem, hpresent⟩ := mem_of_decideRead h
      rw [hmissing best hmem] at hpresent
      cases hpresent

/-- Without the flag for it, there are enough results. -/
theorem reportOf_enough {need : Nat} {results : List ReadResult} :
    (reportOf (decideRead need results)).quorumFailed = false ↔ need ≤ results.length := by
  rw [Bool.eq_false_iff, Ne, reportOf_failed, decideRead_failed_iff, not_lt]

/-- With neither flag, the newest result that is no missing marker is reported. -/
theorem reportOf_newest {need : Nat} {results : List ReadResult} (henough : need ≤ results.length)
    (hpresent : (reportOf (decideRead need results)).keyAbsent = false) :
    ∃ best ∈ results, (reportOf (decideRead need results)).result = some best ∧
      isMissing best = false ∧
      ∀ r ∈ results, isMissing r = false → resultSortKey r ≤ resultSortKey best := by
  cases h : decideRead need results with
  | failed => exact absurd ((decideRead_failed_iff need results).mp h) (not_lt.mpr henough)
  | absent =>
    rw [h] at hpresent
    cases hpresent
  | found best repairs =>
    obtain ⟨hmem, hbest⟩ := mem_of_decideRead h
    refine ⟨best, hmem, rfl, hbest, fun r hr hr' => ?_⟩
    obtain ⟨best', repairs', h', hle⟩ := decideRead_found henough hr hr'
    rw [h] at h'
    cases h'
    exact hle

/-- A read at QUORUM or ALL raises exactly when this node is a replica and its own callback
    raises; else its report is right. -/
theorem quorum_read_reports {p : ReadPlan} (hnodup : p.replicas.Nodup) {c : Callbacks}
    {completed : List String} (hcompleted : completed.Nodup)
    (hremote : ∀ r ∈ completed, r ∈ p.replicas ∧ r ≠ p.localId) :
    (readReport p c completed = none ↔ p.localId ∈ p.replicas ∧ c.getLocalValue = none) ∧
      ∀ report, readReport p c completed = some report →
        ∃ results, gather p c completed = some results ∧ Reports p c completed results report := by
  have hnot : p.localId ∉ completed := fun h => (hremote _ h).2 rfl
  have hraise := gather_eq_none hnodup c completed
  refine ⟨by rw [readReport, Option.map_eq_none_iff, hraise], fun report hreport => ?_⟩
  obtain ⟨results, hgather, rfl⟩ := Option.map_eq_some_iff.mp hreport
  refine ⟨results, hgather, ?_⟩
  have hlocal : p.localId ∈ p.replicas → c.getLocalValue ≠ none := by
    intro hmem hnone
    rw [hraise.mpr ⟨hmem, hnone⟩] at hgather
    cases hgather
  have hperm := answered_perm hnodup hcompleted hremote hlocal
  have hresults := gather_eq_some hnodup hnot hgather
  have hlength : results.length = min (localCount p + max 1 (p.needed - localCount p))
      (p.replicas.filter fun r => Answers p c completed r).length := by
    have h := congrArg List.length hresults
    rwa [List.length_map, List.length_map, List.length_take, hperm.length_eq] at h
  have hneeded : p.needed ≤ localCount p + max 1 (p.needed - localCount p) := by omega
  have hfailed : results.length < p.needed ↔
      (p.replicas.filter fun r => Answers p c completed r).length < p.needed := by omega
  refine ⟨?_, reportOf_enough.mp, ?_, ?_, ?_, ?_⟩
  · rw [reportOf_failed, decideRead_failed_iff, hfailed]
  · rw [reportOf_absent, decideRead_absent_iff, reportOf_enough]
  · rintro (h | h)
    · rw [(reportOf_failed _).mp h]
      rfl
    · rw [(reportOf_absent _).mp h]
      rfl
  · exact fun hok hpresent => reportOf_newest (reportOf_enough.mp hok) hpresent
  · refine ⟨_, (hperm.nodup_iff.mpr (hnodup.filter _)).sublist (List.take_sublist _ _), ?_,
      hresults⟩
    intro r hr
    obtain ⟨hmem, hanswers⟩ := List.mem_filter.mp (hperm.subset (List.mem_of_mem_take hr))
    exact ⟨hmem, of_decide_eq_true hanswers⟩

/-- Where every callback answers, this is the read of `ReadCoordinator.read`. -/
theorem readReport_of_answers {p : ReadPlan} (hlevel : p.level = .quorum ∨ p.level = .all)
    (localAnswer : ReadAnswer) (remote : String → ReadAnswer) (completed : List String) :
    readReport p ⟨some localAnswer, fun r => some (remote r)⟩ completed =
      some (reportOf (read p localAnswer remote completed)) := by
  have hgather : gather p ⟨some localAnswer, fun r => some (remote r)⟩ completed =
      some (collected p localAnswer remote completed) := by
    have hlocal : ((p.replicas.filter fun r => r = p.localId).mapM fun _ =>
          readLocal ⟨some localAnswer, fun r => some (remote r)⟩ p.localId) =
        some ((p.replicas.filter fun r => r = p.localId).map fun _ =>
          resultOf p.localId localAnswer) :=
      List.mapM_pure
    have hremote :
        (completed.map (readRemote ⟨some localAnswer, fun r => some (remote r)⟩)).filterMap id =
          (completed.map fun r => (r, remote r)).map fun q => resultOf q.1 q.2 := by
      rw [List.filterMap_map, List.map_map]
      exact congrFun List.filterMap_eq_map completed
    rw [gather, hlocal, Option.map_some, awaitResults_eq, hremote]
    rfl
  have hread : read p localAnswer remote completed =
      decideRead p.needed (collected p localAnswer remote completed) := by
    unfold read
    rcases hlevel with h | h
    · rw [h]
    · rw [h]
  rw [readReport, hgather, hread, Option.map_some]

/-- Three nodes, of which `n2` and `n3` answer, in this order, and `n1` reads. -/
def threeNodePlan : ReadPlan :=
  { localId := "n1", key := "k", level := .quorum, replicas := ["n1", "n2", "n3"],
    primaryOwner := none, replicationFactor := 3 }

/-- A record of version -1, as a `__REPLICA_SET` can leave it. -/
def negativeAnswer : ReadAnswer :=
  { missingAnswer with value := .str "x", version := -1, found := true }

theorem quorum_read_reports_sample :
    ["n1", "n2", "n3"].Nodup ∧ ["n3", "n2"].Nodup ∧
      (∀ r ∈ ["n3", "n2"], r ∈ ["n1", "n2", "n3"] ∧ r ≠ "n1") ∧
      ((readReport threeNodePlan ⟨some missingAnswer, fun _ => some missingAnswer⟩ ["n3", "n2"] =
          none ↔ "n1" ∈ ["n1", "n2", "n3"] ∧ some missingAnswer = none) ∧
        ∀ report, readReport threeNodePlan ⟨some missingAnswer, fun _ => some missingAnswer⟩
            ["n3", "n2"] = some report →
          ∃ results,
            gather threeNodePlan ⟨some missingAnswer, fun _ => some missingAnswer⟩ ["n3", "n2"] =
              some results ∧
            Reports threeNodePlan ⟨some missingAnswer, fun _ => some missingAnswer⟩ ["n3", "n2"]
              results report) :=
  ⟨by decide, by decide, by decide, quorum_read_reports (by decide) (by decide) (by decide)⟩

/-- Two of three replicas answer, which is a quorum, and the read raises because the callback of
    the third, this node, does. And a record of version -1 is what a quorum read returns although
    the missing marker it collected beside it comes after it in the order. -/
theorem missing_marker_above :
    ((threeNodePlan.replicas.filter fun r =>
        Answers threeNodePlan ⟨none, fun _ => some missingAnswer⟩ ["n2", "n3"] r).length =
          threeNodePlan.needed ∧
      readReport threeNodePlan ⟨none, fun _ => some missingAnswer⟩ ["n2", "n3"] = none) ∧
    (gather threeNodePlan ⟨some negativeAnswer, fun _ => some missingAnswer⟩ ["n2", "n3"] =
        some [resultOf "n1" negativeAnswer, resultOf "n2" missingAnswer] ∧
      (readReport threeNodePlan ⟨some negativeAnswer, fun _ => some missingAnswer⟩
        ["n2", "n3"]).map ReadReport.result = some (some (resultOf "n1" negativeAnswer)) ∧
      resultSortKey (resultOf "n1" negativeAnswer) <
        resultSortKey (resultOf "n2" missingAnswer)) := by
  refine ⟨by decide, rfl, rfl, ?_⟩
  exact sortKey_lt_of_version_lt (by decide) _ _ _ _

end ReadCoordinator

end MiniDb
