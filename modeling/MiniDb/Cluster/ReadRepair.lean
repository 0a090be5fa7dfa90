/-
  A GET at QUORUM or ALL and its repairs, without concurrent writes (`cluster/read_coordinator.py`,
  `_repair_value`, `_apply_repair_data` and `_handle_replica_set` of `node.py`).

  `read_repair_iff`: the nodes that answered end with the newest record of the answers if and only
  if the answers are the same already or one of them is `Repairable`, and every repair stores the
  record as it was sent (`StoredAsIs`): a version 0 is replaced by the next one, and a local
  repair replaces times of 0.

  Other steps may come in between as long as they leave the records of the key alone (`Quiet`).
-/
import MiniDb.Cluster.RepairDecision
import MiniDb.Cluster.Tasks
import MiniDb.Node.Merge

namespace MiniDb

open Lib ReadCoordinator

namespace Cluster

variable {hash : String → Nat}

/-- The record of a key at a node. -/
def recordAt (s : Cluster) (key r : String) : Option KeyMetadata := (s.nodes r).store.get? key

/-- The record, unless it has expired. -/
def liveAt (t : Time) (m : Option KeyMetadata) : Option KeyMetadata :=
  m.filter fun m => !expiredBefore m.expiresAt t

/-! ## Undisturbed reads -/

/-- The step leaves the records of the key and the task of `n` alone. -/
structure Quiet (n key : String) (s s' : Cluster) : Prop where
  records : ∀ r, recordAt s' key r = recordAt s key r
  task : s'.tasks n = s.tasks n

/-- A step of the GET of `n`: an answer; the end of the reading, with a real answer of every node
    that counts; a repair that arrives. -/
inductive OwnStep (n : String) (s : Cluster) : Label → Prop where
  | answer (r : String) (d : Delivery) (clock : Time) : OwnStep n s (.answer n r d clock)
  | conclude {p : ReadPlan} {since : Nat} {answers : Dict String (ReadAnswer × Bool)}
      {finished : List String} (ht : s.tasks n = some (.read p since answers))
      (hreal : ∀ r ∈ counted p finished, ∃ a, answers.get? r = some (a, true)) :
      OwnStep n s (.conclude n finished)
  | repair {p : ReadPlan} {since : Nat} {results : List ReadResult} {outcome : ReadOutcome}
      {r : ReadResult} {rest : List ReadResult} {d : Delivery} {clock : Time}
      (ht : s.tasks n = some (.repair p since results outcome (r :: rest)))
      (harrives : r.nodeId = n ∨
        r.nodeId ≠ "" ∧ (deliveryToAlive (s.nodes n) r.nodeId d).isHandled = true)
      (hclock : 0 < clock) : OwnStep n s (.repair n d clock)

/-- No step but those of the GET writes the key. -/
def Undisturbed (n key : String) (s : Cluster) (l : Label) (s' : Cluster) : Prop :=
  OwnStep n s l ∨ Quiet n key s s'

/-- A GET of `key` at `n`, from `s` to `s'`. -/
structure GetRun (hash : String → Nat) (n key : String) (level : ConsistencyLevel) (s s₁ : Cluster)
    (ls : List Label) (s₂ s' : Cluster) : Prop where
  reads : level = .all ∨ level = .quorum
  name : (s.nodes n).nodeId = n
  started : step hash s (.get n key level) = some s₁
  run : exec (step hash) s₁ ls = some s₂
  undisturbed : Each (step hash) (Undisturbed n key) s₁ ls
  ended : step hash s₂ (.endGet n) = some s'

/-! ## Repairs -/

/-- `best` is stored as it was sent, over what is there. -/
structure StoredAsIs (clock : Time) (best : ReadResult) (current : Option KeyMetadata)
    (isLocal : Prop) : Prop where
  /-- Version 0 is stored as the next one, which is 0 only after -1. -/
  version : best.version ≠ 0 ∨ ∃ m, liveAt clock current = some m ∧ m.version = -1
  /-- A local repair takes the clock for a time of 0. -/
  times : isLocal → best.updatedAt ≠ 0 ∧ best.createdAt ≠ 0

/-- The repairs of `n` store the best result as it was sent. -/
def RepairFits (n : String) (s : Cluster) : Label → Prop
  | .repair m _ clock =>
    match s.tasks m with
    | some (.repair p _ _ (.found best _) (r :: _)) =>
      m = n → StoredAsIs clock best (recordAt s p.key r.nodeId) (r.nodeId = n)
    | _ => True
  | _ => True

/-- What a repair at `r` stores. -/
def repairOf (clock : Time) (key : String) (best : ReadResult) (isLocal : Prop)
    [Decidable isLocal] : Versioned :=
  { key := key, value := best.value, version := best.version, expiresAt := best.expiresAt
    createdAt := if isLocal then orElse (some best.createdAt) (orElse (some best.updatedAt) clock)
      else best.createdAt
    updatedAt := if isLocal then orElse (some best.updatedAt) clock else best.updatedAt
    coordinatorId := best.coordinatorId }

theorem orElse_ne_zero (x : Option Time) {d : Time} (hd : d ≠ 0) : orElse x d ≠ 0 := by
  unfold orElse
  split
  · split
    · assumption
    · exact hd
  · exact hd

theorem orElse_some_eq_iff (x : Time) {d : Time} (hd : d ≠ 0) : orElse (some x) d = x ↔ x ≠ 0 := by
  unfold orElse
  dsimp only
  split
  · rename_i hx
    exact iff_of_true rfl hx
  · rename_i hx
    rw [not_not] at hx
    exact iff_of_false (hx ▸ hd) (not_not.mpr hx)

/-- The version stored is the one sent, unless that is 0. -/
theorem storedVersion_iff (v : Int) (current : Option KeyMetadata) :
    (if v ≠ 0 then v else setRecord.nextVersion current) = v ↔
      v ≠ 0 ∨ ∃ m, current = some m ∧ m.version = -1 := by
  by_cases hv : v = 0
  · rw [if_neg (not_not.mpr hv), hv, or_iff_right (not_not.mpr rfl)]
    cases current with
    | none => simp [setRecord.nextVersion]
    | some m =>
      simp only [setRecord.nextVersion, Option.some.injEq, exists_eq_left']
      omega
  · rw [if_pos hv]
    exact iff_of_true rfl (.inl hv)

/-- What is stored of an update, but for its version, is what was sent. -/
theorem setRecord_setArgs (now : Time) (existing : Option KeyMetadata) (u : Versioned) :
    setRecord now existing u.value u.setArgs =
      { value := u.value, createdAt := u.createdAt, updatedAt := u.updatedAt
        expiresAt := u.expiresAt, coordinatorId := u.coordinatorId
        version := if u.version ≠ 0 then u.version else setRecord.nextVersion existing } := by
  cases hx : u.expiresAt with
  | none => simp [setRecord, Versioned.setArgs, hx]
  | some x => simp [setRecord, Versioned.setArgs, hx]

/-- What is sent does not come before the best record. -/
theorem sortKey_le_repairOf {clock : Time} (hclock : 0 < clock) (key : String) (best : ReadResult)
    (isLocal : Prop) [Decidable isLocal] :
    sortKey best.version best.updatedAt best.coordinatorId ≤
      (repairOf clock key best isLocal).sortKey := by
  have htime : best.updatedAt ≤ (repairOf clock key best isLocal).updatedAt := by
    unfold repairOf orElse
    dsimp only
    split
    · split
      · exact le_refl _
      · rename_i hzero
        rw [not_not] at hzero
        exact hzero ▸ le_of_lt hclock
    · exact le_refl _
  refine Prod.Lex.toLex_le_toLex.mpr (.inr ⟨rfl, ?_⟩)
  rcases lt_or_eq_of_le htime with hlt | heq
  · exact Prod.Lex.toLex_le_toLex.mpr (.inl hlt)
  · exact Prod.Lex.toLex_le_toLex.mpr (.inr ⟨heq, le_refl _⟩)

/-- **A repair leaves the best record** if and only if it is stored as it was sent. -/
theorem afterStore_repairOf {clock : Time} (hclock : 0 < clock) {key : String} {best : ReadResult}
    {record : KeyMetadata} (hbest : best.record? = some record) {current : Option KeyMetadata}
    (hguard : ∀ m, current = some m → m.sortKey ≤ record.sortKey) (isLocal : Prop)
    [Decidable isLocal] :
    Merge.afterStore clock (repairOf clock key best isLocal) current = some record ↔
      StoredAsIs clock best current isLocal := by
  have hrecord : record =
      { value := best.value, createdAt := best.createdAt, updatedAt := best.updatedAt
        expiresAt := best.expiresAt, version := best.version
        coordinatorId := best.coordinatorId } := by
    unfold ReadResult.record? at hbest
    split at hbest
    · cases hbest
    · exact (Option.some.inj hbest).symm
  have hguard : ¬ (liveAt clock current).any
      (fun m => (repairOf clock key best isLocal).sortKey < m.sortKey) = true := by
    rw [Option.any_eq_true]
    rintro ⟨m, hm, hlt⟩
    have hle := hguard m (Option.filter_eq_some_iff.mp hm).1
    rw [hrecord] at hle
    exact absurd (le_trans hle (sortKey_le_repairOf hclock key best isLocal))
      (not_le.mpr (of_decide_eq_true hlt))
  have hstored : Merge.afterStore clock (repairOf clock key best isLocal) current =
      some (setRecord clock (liveAt clock current) (repairOf clock key best isLocal).value
        (repairOf clock key best isLocal).setArgs) := if_neg hguard
  have hclock0 : clock ≠ 0 := ne_of_gt hclock
  have hversion := storedVersion_iff best.version (liveAt clock current)
  rw [hstored, Option.some.injEq, hrecord, setRecord_setArgs, KeyMetadata.mk.injEq]
  by_cases hlocal : isLocal
  · simp only [repairOf, if_pos hlocal, orElse_some_eq_iff _ hclock0,
      orElse_some_eq_iff _ (orElse_ne_zero (some best.updatedAt) hclock0), true_and, and_true,
      hversion]
    exact ⟨fun ⟨hc, hu, hv⟩ => ⟨hv, fun _ => ⟨hu, hc⟩⟩,
      fun h => ⟨(h.times hlocal).2, (h.times hlocal).1, h.version⟩⟩
  · simp only [repairOf, if_neg hlocal, true_and, and_true, hversion]
    exact ⟨fun hv => ⟨hv, fun h => absurd h hlocal⟩, fun h => h.version⟩

/-! ## What the steps of a GET do to the records -/

theorem recordAt_setNode (s : Cluster) (r : String) (v : Node) (key r' : String) :
    recordAt (s.setNode r v) key r' = if r' = r then v.store.get? key else recordAt s key r' := by
  show (Function.update s.nodes r v r').store.get? key = _
  rw [Function.update_apply]
  split <;> rfl

/-- A read leaves the record that it answers with. -/
theorem recordAt_readFrom (clock : Time) (s : Cluster) (r key : String) (d : Delivery) :
    (∀ r', r' ≠ r → recordAt (s.readFrom clock r key d).1 key r' = recordAt s key r') ∧
      ∀ a, (s.readFrom clock r key d).2 = (a, true) →
        recordAt (s.readFrom clock r key d).1 key r = liveAt clock (recordAt s key r) ∧
          a = answerOf (liveAt clock (recordAt s key r)) := by
  have hread : ((s.nodes r).localRead clock key).1.store.get? key =
      liveAt clock (recordAt s key r) := by
    have hstore := KVStore.get?_getWithMetadata (s.nodes r).store clock key key
    rw [if_pos rfl, KVStore.getWithMetadata_snd] at hstore
    exact hstore
  have hset : ∀ r', recordAt (s.setNode r ((s.nodes r).localRead clock key).1) key r' =
      if r' = r then liveAt clock (recordAt s key r) else recordAt s key r' := by
    intro r'
    rw [recordAt_setNode, hread]
  cases d with
  | unsent => exact ⟨fun _ _ => rfl, fun a ha => by cases ha⟩
  | sent => exact ⟨fun _ _ => rfl, fun a ha => by cases ha⟩
  | handled => exact ⟨fun r' hr' => (hset r').trans (if_neg hr'), fun a ha => by cases ha⟩
  | answered =>
    refine ⟨fun r' hr' => (hset r').trans (if_neg hr'), fun a ha => ?_⟩
    have hanswer : a = answerOf ((s.nodes r).store.getWithMetadata clock key).2 :=
      (Prod.mk.inj ha).1.symm
    rw [KVStore.getWithMetadata_snd] at hanswer
    exact ⟨(hset r).trans (if_pos rfl), hanswer⟩

theorem repairLocal_eq (clock : Time) (v : Node) (key : String) (best : ReadResult)
    {isLocal : Prop} [Decidable isLocal] (h : isLocal) :
    v.repairLocal clock key best =
      (v.storeUnlessOlder clock (repairOf clock key best isLocal)).1 := by
  unfold repairOf
  rw [if_pos h, if_pos h]
  rfl

theorem replicaSet_eq (clock : Time) (v : Node) (key : String) (best : ReadResult)
    {isLocal : Prop} [Decidable isLocal] (h : ¬ isLocal) :
    (v.handleMessage clock (.replicaSet (Node.repairArgs key best))).1 =
      (v.storeUnlessOlder clock (repairOf clock key best isLocal)).1 := by
  unfold repairOf
  rw [if_neg h, if_neg h]
  rfl

/-- A repair that arrives stores the best result at its node, if that is not newer. -/
theorem recordAt_repairWith {s : Cluster} {n r : String} {d : Delivery}
    (hname : (s.nodes n).nodeId = n)
    (harrives : r = n ∨ r ≠ "" ∧ (deliveryToAlive (s.nodes n) r d).isHandled = true) (clock : Time)
    (key : String) (best : ReadResult) (r' : String) :
    recordAt (s.repairWith clock n key r best d) key r' =
      if r' = r then Merge.afterStore clock (repairOf clock key best (r = n)) (recordAt s key r)
      else recordAt s key r' := by
  have hstore : ((s.nodes r).storeUnlessOlder clock
        (repairOf clock key best (r = n))).1.store.get? key =
      Merge.afterStore clock (repairOf clock key best (r = n)) (recordAt s key r) :=
    (Merge.get?_storeUnlessOlder (s.nodes r) clock _ key).trans (if_pos rfl)
  unfold repairWith
  by_cases hr : r = n
  · subst hr
    rw [if_pos (.inr hname.symm), recordAt_setNode,
      repairLocal_eq clock _ key best (rfl : r = r), hstore]
  · obtain ⟨hr0, hd⟩ := harrives.resolve_left hr
    rw [if_neg (not_or.mpr ⟨hr0, fun h => hr (h.trans hname)⟩)]
    show ((s.send _ _ _ _).1.nodes r').store.get? key = _
    rw [nodes_send, if_pos hd, Function.update_apply]
    split
    · rw [replicaSet_eq _ _ _ _ hr, hstore]
    · rfl

/-! ## The repairs of a GET -/

section Repairs

variable {n : String} {p : ReadPlan} {since : Nat} {results : List ReadResult}

/-- A step that repairs leaves one repair less to do. -/
theorem step_repair {s s' : Cluster} {outcome : ReadOutcome} {r : ReadResult}
    {rest : List ReadResult} {d : Delivery} {clock : Time}
    (ht : s.tasks n = some (.repair p since results outcome (r :: rest)))
    (h : step hash s (.repair n d clock) = some s') :
    ∃ best repairs, outcome = .found best repairs ∧
      s'.tasks n = some (.repair p since results outcome rest) ∧
      ∀ r', recordAt s' p.key r' =
        recordAt (s.repairWith clock n p.key r.nodeId best d) p.key r' := by
  cases outcome with
  | failed =>
    simp only [step, ht] at h
    cases h
  | absent =>
    simp only [step, ht] at h
    cases h
  | found best repairs =>
    simp only [step, ht, Option.some.injEq] at h
    subst h
    exact ⟨best, repairs, rfl, by simp [setTask], fun _ => rfl⟩

/-- No quiet step is a repair of `n`. -/
theorem Quiet.repairFits {s s' : Cluster} {l : Label} {key : String}
    (h : step hash s l = some s') (hq : Quiet n key s s') : RepairFits n s l := by
  cases l with
  | repair m d clock =>
    unfold RepairFits
    dsimp only
    split
    · rename_i q since' results' best repairs r rest' hm
      intro heq
      subst heq
      obtain ⟨-, -, -, htask, -⟩ := step_repair hm h
      have hsame := htask.symm.trans (hq.task.trans hm)
      simp at hsame
    · trivial
  | _ => trivial

/-- While `n` repairs, a step leaves the records alone or is the next repair. -/
theorem repairing_step {s s' : Cluster} {l : Label} {outcome : ReadOutcome}
    {rest : List ReadResult} (hname : (s.nodes n).nodeId = n)
    (ht : s.tasks n = some (.repair p since results outcome rest))
    (h : step hash s l = some s') (hu : Undisturbed n p.key s l s') :
    (Quiet n p.key s s' ∧ RepairFits n s l) ∨
      ∃ best repairs r rest' clock, outcome = .found best repairs ∧ rest = r :: rest' ∧
        0 < clock ∧ s'.tasks n = some (.repair p since results outcome rest') ∧
        (RepairFits n s l ↔ StoredAsIs clock best (recordAt s p.key r.nodeId) (r.nodeId = n)) ∧
        ∀ r', recordAt s' p.key r' =
          if r' = r.nodeId then
            Merge.afterStore clock (repairOf clock p.key best (r.nodeId = n))
              (recordAt s p.key r.nodeId)
          else recordAt s p.key r' := by
  rcases hu with hown | hquiet
  · refine .inr ?_
    cases hown with
    | answer r d clock =>
      simp only [step, ht] at h
      cases h
    | conclude ht' =>
      rw [ht] at ht'
      cases ht'
    | @repair p' since' results' outcome' r rest' d clock ht' harrives hclock =>
      obtain ⟨rfl, rfl, rfl, rfl, rfl⟩ := by simpa using ht.symm.trans ht'
      obtain ⟨best, repairs, rfl, htask, hrecord⟩ := step_repair ht h
      refine ⟨best, repairs, r, rest', clock, rfl, rfl, hclock, htask, ?_, fun r' => ?_⟩
      · unfold RepairFits
        dsimp only
        rw [ht]
        exact forall_prop_of_true rfl
      · rw [hrecord, recordAt_repairWith hname harrives]
  · exact .inl ⟨hquiet, hquiet.repairFits h⟩

/-- What a run leaves that does the repairs of `rest`. -/
structure Repaired (hash : String → Nat) (n : String) (p : ReadPlan) (since : Nat)
    (results : List ReadResult) (outcome : ReadOutcome) (rest : List ReadResult) (s : Cluster)
    (ls : List Label) (s₂ : Cluster) : Prop where
  task : s₂.tasks n = some (.repair p since results outcome [])
  others : ∀ r, r ∉ rest.map ReadResult.nodeId → recordAt s₂ p.key r = recordAt s p.key r
  nothing : rest = [] → Along (step hash) (RepairFits n) s ls
  stored : ∀ best repairs record, outcome = .found best repairs → best.record? = some record →
    (∀ r ∈ rest, ∀ m, recordAt s p.key r.nodeId = some m → m.sortKey ≤ record.sortKey) →
    ((∀ r ∈ rest, recordAt s₂ p.key r.nodeId = some record) ↔
      Along (step hash) (RepairFits n) s ls)

theorem Repaired.quiet {s s₁ s₂ : Cluster} {l : Label} {ls : List Label} {outcome : ReadOutcome}
    {rest : List ReadResult} (hr : Repaired hash n p since results outcome rest s₁ ls s₂)
    (h : step hash s l = some s₁) (hquiet : Quiet n p.key s s₁) (hfits : RepairFits n s l) :
    Repaired hash n p since results outcome rest s (l :: ls) s₂ := by
  have halong : Along (step hash) (RepairFits n) s (l :: ls) ↔
      Along (step hash) (RepairFits n) s₁ ls := by
    simp only [Along, h, Option.some.injEq, forall_eq', hfits, true_and]
  refine ⟨hr.task, fun r hr' => (hr.others r hr').trans (hquiet.records r),
    fun hnil => halong.mpr (hr.nothing hnil), fun best repairs record ho hb hguard => ?_⟩
  rw [halong]
  refine hr.stored best repairs record ho hb fun r hmem m hm => hguard r hmem m ?_
  rw [← hquiet.records]
  exact hm

theorem Repaired.repair {s s₁ s₂ : Cluster} {l : Label} {ls : List Label} {best r : ReadResult}
    {repairs rest : List ReadResult} {clock : Time}
    (hr : Repaired hash n p since results (.found best repairs) rest s₁ ls s₂)
    (h : step hash s l = some s₁) (hclock : 0 < clock)
    (hnodup : ((r :: rest).map ReadResult.nodeId).Nodup)
    (hfits : RepairFits n s l ↔
      StoredAsIs clock best (recordAt s p.key r.nodeId) (r.nodeId = n))
    (hrecord : ∀ r', recordAt s₁ p.key r' =
      if r' = r.nodeId then
        Merge.afterStore clock (repairOf clock p.key best (r.nodeId = n))
          (recordAt s p.key r.nodeId)
      else recordAt s p.key r') :
    Repaired hash n p since results (.found best repairs) (r :: rest) s (l :: ls) s₂ := by
  rw [List.map_cons, List.nodup_cons] at hnodup
  refine ⟨hr.task, fun r' hr' => ?_, fun hnil => (by cases hnil), ?_⟩
  · rw [List.map_cons, List.mem_cons, not_or] at hr'
    rw [hr.others r' hr'.2, hrecord, if_neg hr'.1]
  · rintro best' repairs' record ho hb hguard
    obtain ⟨rfl, rfl⟩ := ReadOutcome.found.inj ho
    -- this repair is the last that the node gets
    have hlast : recordAt s₂ p.key r.nodeId = some record ↔ RepairFits n s l := by
      rw [hr.others _ hnodup.1, hrecord, if_pos rfl, hfits]
      exact afterStore_repairOf hclock hb (hguard r List.mem_cons_self) (r.nodeId = n)
    have hrest := hr.stored best repairs record rfl hb fun r' hmem m hm => by
      have hne : r'.nodeId ≠ r.nodeId := fun heq =>
        hnodup.1 (List.mem_map.mpr ⟨r', hmem, heq⟩)
      rw [hrecord, if_neg hne] at hm
      exact hguard r' (List.mem_cons_of_mem _ hmem) m hm
    simp only [List.forall_mem_cons, hlast, hrest, Along, h, Option.some.injEq, forall_eq']

/-- The repairs still to do are done one after the other. -/
theorem repairing_run {s s₂ : Cluster} {ls : List Label} {outcome : ReadOutcome}
    {rest : List ReadResult} (hname : (s.nodes n).nodeId = n)
    (ht : s.tasks n = some (.repair p since results outcome rest))
    (he : exec (step hash) s ls = some s₂)
    (hu : Each (step hash) (Undisturbed n p.key) s ls) {p' : ReadPlan} {since' : Nat}
    {results' : List ReadResult} {outcome' : ReadOutcome}
    (hend : s₂.tasks n = some (.repair p' since' results' outcome' []))
    (hnodup : (rest.map ReadResult.nodeId).Nodup) :
    Repaired hash n p since results outcome rest s ls s₂ := by
  induction ls generalizing s rest with
  | nil =>
    obtain rfl := Option.some.inj he
    obtain ⟨rfl, rfl, rfl, rfl, rfl⟩ := by simpa using ht.symm.trans hend
    exact ⟨ht, fun _ _ => rfl, fun _ => trivial,
      fun _ _ _ _ _ _ => iff_of_true (fun r hr => by cases hr) trivial⟩
  | cons l ls ih =>
    obtain ⟨s₁, h₁, h₂⟩ := exec_cons.mp he
    obtain ⟨hu₁, hu₂⟩ := hu s₁ h₁
    have hname₁ : (s₁.nodes n).nodeId = n := (nodeId_step h₁ n).trans hname
    rcases repairing_step hname ht h₁ hu₁ with ⟨hquiet, hfits⟩ |
      ⟨best, repairs, r, rest', clock, rfl, rfl, hclock, ht₁, hfits, hrecord⟩
    · exact (ih hname₁ (hquiet.task.trans ht) h₂ hu₂ hnodup).quiet h₁ hquiet hfits
    · have hrest := ih hname₁ ht₁ h₂ hu₂ (List.nodup_cons.mp hnodup).2
      exact hrest.repair h₁ hclock hnodup hfits hrecord

end Repairs

/-! ## From the answers to the end -/

section Reads

variable {n : String} {p : ReadPlan} {since : Nat}

/-- The results of genuine answers of the nodes `rs`. -/
def answersOf (s : Cluster) (key : String) (rs : List String) : List ReadResult :=
  rs.map fun r => resultOf r (answerOf (recordAt s key r))

theorem genuine_answersOf {s : Cluster} {key : String} {rs : List String} {r : ReadResult}
    (hr : r ∈ answersOf s key rs) : Genuine r ∧ r.record? = recordAt s key r.nodeId := by
  obtain ⟨id, -, rfl⟩ := List.mem_map.mp hr
  exact ⟨genuine_resultOf _ _, record?_resultOf _ _⟩

theorem map_nodeId_answersOf (s : Cluster) (key : String) (rs : List String) :
    (answersOf s key rs).map ReadResult.nodeId = rs := by
  rw [answersOf, List.map_map]
  exact List.map_id _

/-- What is repaired are some of the results. -/
theorem repairs_sublist (need : Nat) (results : List ReadResult) :
    (decideRead need results).repairs.Sublist results := by
  rcases decideRead_cases need results with ⟨hnone, -⟩ | ⟨best, hfound, -⟩
  · rw [hnone]
    exact List.nil_sublist _
  · rw [hfound]
    exact List.filter_sublist

/-- **After the answers.** -/
theorem concluded_run {s s₂ : Cluster} {ls : List Label} {rs : List String} (hrs : rs.Nodup)
    (hname : (s.nodes n).nodeId = n) (need : Nat)
    (ht : s.tasks n = some (.repair p since (answersOf s p.key rs)
      (decideRead need (answersOf s p.key rs)) (decideRead need (answersOf s p.key rs)).repairs))
    (he : exec (step hash) s ls = some s₂)
    (hu : Each (step hash) (Undisturbed n p.key) s ls) {p' : ReadPlan} {since' : Nat}
    {results' : List ReadResult} {outcome' : ReadOutcome}
    (hend : s₂.tasks n = some (.repair p' since' results' outcome' [])) :
    s₂.tasks n = some (.repair p since (answersOf s p.key rs)
        (decideRead need (answersOf s p.key rs)) []) ∧
      (EndsNewest (answersOf s p.key rs) (recordAt s₂ p.key) ↔
        (SameRecords (answersOf s p.key rs) ∨
          ∃ best, Repairable need (answersOf s p.key rs) best) ∧
        Along (step hash) (RepairFits n) s ls) := by
  have hsub := repairs_sublist need (answersOf s p.key rs)
  have hnodup : ((answersOf s p.key rs).map ReadResult.nodeId).Nodup := by
    rw [map_nodeId_answersOf]
    exact hrs
  obtain ⟨htask, hothers, hnothing, hstored⟩ :=
    repairing_run hname ht he hu hend (hnodup.sublist (hsub.map _))
  refine ⟨htask, endsNewest_iff (fun r hr => (genuine_answersOf hr).1) (fun r hr hnot => ?_)
    hnothing fun best repairs hfound hguard => ?_⟩
  · rw [(genuine_answersOf hr).2]
    refine hothers _ fun hmem => hnot ?_
    obtain ⟨r', hr', heq⟩ := List.mem_map.mp hmem
    rwa [← List.inj_on_of_nodup_map hnodup (hsub.subset hr') hr heq]
  · obtain ⟨hmem, hpresent⟩ := mem_of_decideRead hfound
    obtain ⟨record, hrecord⟩ : ∃ record, best.record? = some record := by
      rw [← Option.ne_none_iff_exists']
      intro hnone
      rw [(genuine_answersOf hmem).1.missing hnone] at hpresent
      cases hpresent
    have hrest := hstored best repairs record hfound hrecord fun r hr m hm => by
      have hres := hsub.subset hr
      obtain ⟨m', hm', hle⟩ := hguard r hres m ((genuine_answersOf hres).2.trans hm)
      rw [hrecord, Option.some.injEq] at hm'
      exact hm' ▸ hle
    rw [hfound] at hrest
    rw [hrecord]
    exact hrest

/-- `n` is reading: a node that has not been asked has the record it had at the start, and one
    that has answered still has the record it answered with. -/
structure Reading (n : String) (s₀ s : Cluster) (p : ReadPlan) (since : Nat)
    (answers : Dict String (ReadAnswer × Bool)) : Prop where
  name : (s.nodes n).nodeId = n
  task : s.tasks n = some (.read p since answers)
  unasked : ∀ r, answers.get? r = none → recordAt s p.key r = recordAt s₀ p.key r
  answered : ∀ r a, answers.get? r = some (a, true) → a = answerOf (recordAt s p.key r) ∧
    ∃ t, recordAt s p.key r = liveAt t (recordAt s₀ p.key r)

theorem Reading.quiet {s₀ s s' : Cluster} {answers : Dict String (ReadAnswer × Bool)}
    (h : Reading n s₀ s p since answers) (hname : (s'.nodes n).nodeId = n)
    (hq : Quiet n p.key s s') : Reading n s₀ s' p since answers := by
  refine ⟨hname, hq.task.trans h.task, fun r hr => (hq.records r).trans (h.unasked r hr), ?_⟩
  intro r a hr
  rw [hq.records r]
  exact h.answered r a hr

/-- An answer comes in. -/
theorem Reading.answer {s₀ s s' : Cluster} {answers : Dict String (ReadAnswer × Bool)}
    (h : Reading n s₀ s p since answers) (hname : (s'.nodes n).nodeId = n) {r : String}
    {d : Delivery} {clock : Time} (hs : step hash s (.answer n r d clock) = some s') :
    ∃ answers', Reading n s₀ s' p since answers' := by
  simp only [step, h.task] at hs
  split at hs
  · cases hs
  · rename_i hnew
    rw [not_or, Option.not_isSome_iff_eq_none] at hnew
    generalize (if r = p.localId then Delivery.answered else deliveryTo (s.nodes n) r d) = d' at hs
    obtain ⟨hothers, hread⟩ := recordAt_readFrom clock s r p.key d'
    obtain rfl := Option.some.inj hs
    refine ⟨answers.set r (s.readFrom clock r p.key d').2, hname, by simp [setTask], ?_, ?_⟩
    · intro r' hr'
      rw [Dict.get?_set] at hr'
      split at hr'
      · cases hr'
      · rename_i hne
        exact (hothers r' hne).trans (h.unasked r' hr')
    · intro r' a hr'
      rw [Dict.get?_set] at hr'
      split at hr'
      · rename_i heq
        subst heq
        obtain ⟨hrecord, hanswer⟩ := hread a (Option.some.inj hr')
        have hrec : recordAt (setTask (s.readFrom clock r' p.key d').1 n
            (some (.read p since (answers.set r' (s.readFrom clock r' p.key d').2)))) p.key r' =
            liveAt clock (recordAt s p.key r') := hrecord
        rw [hrec, ← h.unasked r' hnew.2]
        exact ⟨hanswer, clock, rfl⟩
      · rename_i hne
        have hrec := hothers r' hne
        obtain ⟨ha, t, ht⟩ := h.answered r' a hr'
        exact ⟨ha.trans (congrArg answerOf hrec.symm), t, hrec.trans ht⟩

/-- The answers are in. -/
theorem Reading.conclude {s₀ s s' : Cluster} {answers : Dict String (ReadAnswer × Bool)}
    (h : Reading n s₀ s p since answers) (hlevel : p.level = .all ∨ p.level = .quorum)
    (hreplicas : p.replicas.Nodup) {finished : List String}
    (hreal : ∀ r ∈ counted p finished, ∃ a, answers.get? r = some (a, true))
    (hs : step hash s (.conclude n finished) = some s') :
    ∃ rs : List String, rs.Nodup ∧
      s'.tasks n = some (.repair p since (answersOf s' p.key rs)
        (decideRead p.needed (answersOf s' p.key rs))
        (decideRead p.needed (answersOf s' p.key rs)).repairs) ∧
      ∀ r ∈ rs, ∃ t, recordAt s' p.key r = liveAt t (recordAt s₀ p.key r) := by
  simp only [step, h.task] at hs
  split at hs
  · rename_i hfinished
    obtain rfl := Option.some.inj hs
    have hread : ReadCoordinator.read p (collectedAnswer answers p.localId)
        (collectedAnswer answers) finished =
        decideRead p.needed
          (collected p (collectedAnswer answers p.localId) (collectedAnswer answers) finished) := by
      unfold ReadCoordinator.read
      rcases hlevel with hlevel | hlevel <;> rw [hlevel]
    have hcollected : collected p (collectedAnswer answers p.localId) (collectedAnswer answers)
        finished = answersOf s p.key (counted p finished) := by
      rw [collected_eq_map hreplicas]
      refine List.map_congr_left fun r hr => ?_
      obtain ⟨a, ha⟩ := hreal r hr
      rw [collectedAnswer, ha, ← (h.answered r a ha).1]
      rfl
    refine ⟨counted p finished, nodup_counted hfinished.1 fun hlocal =>
      (hfinished.2.1 p.localId hlocal).2.1 rfl, ?_, fun r hr => ?_⟩
    · rw [hread, hcollected]
      simp only [setTask, Function.update_self]
      rfl
    · obtain ⟨a, ha⟩ := hreal r hr
      exact (h.answered r a ha).2
  · cases hs

/-- How a GET that has begun in `s₀` ends: its results, which tell what their nodes had in `s₀`,
    and when these nodes end with the newest of them. -/
structure ReadEnds (hash : String → Nat) (n : String) (p : ReadPlan) (since : Nat)
    (s₀ s : Cluster) (ls : List Label) (s₂ : Cluster) (results : List ReadResult) : Prop where
  task : s₂.tasks n = some (.repair p since results (decideRead p.needed results) [])
  held : ∀ r ∈ results, ∃ t, r.record? = liveAt t (recordAt s₀ p.key r.nodeId)
  newest_iff : EndsNewest results (recordAt s₂ p.key) ↔
    (SameRecords results ∨ ∃ best, Repairable p.needed results best) ∧
      Along (step hash) (RepairFits n) s ls

theorem ReadEnds.cons {s₀ s s₁ s₂ : Cluster} {l : Label} {ls : List Label}
    {results : List ReadResult} (h : ReadEnds hash n p since s₀ s₁ ls s₂ results)
    (hs : step hash s l = some s₁) (hfits : RepairFits n s l) :
    ReadEnds hash n p since s₀ s (l :: ls) s₂ results := by
  refine ⟨h.task, h.held, h.newest_iff.trans (and_congr_right fun _ => ?_)⟩
  simp only [Along, hs, Option.some.injEq, forall_eq', hfits, true_and]

/-- **From the first question on.** -/
theorem reading_run {s₀ s s₂ : Cluster} {ls : List Label}
    {answers : Dict String (ReadAnswer × Bool)} (h : Reading n s₀ s p since answers)
    (hlevel : p.level = .all ∨ p.level = .quorum) (hreplicas : p.replicas.Nodup)
    (he : exec (step hash) s ls = some s₂)
    (hu : Each (step hash) (Undisturbed n p.key) s ls) {p' : ReadPlan} {since' : Nat}
    {results' : List ReadResult} {outcome' : ReadOutcome}
    (hend : s₂.tasks n = some (.repair p' since' results' outcome' [])) :
    ∃ results, ReadEnds hash n p since s₀ s ls s₂ results := by
  induction ls generalizing s answers with
  | nil =>
    obtain rfl := Option.some.inj he
    have hcontra := h.task.symm.trans hend
    cases hcontra
  | cons l ls ih =>
    obtain ⟨s₁, h₁, h₂⟩ := exec_cons.mp he
    obtain ⟨hu₁, hu₂⟩ := hu s₁ h₁
    have hname₁ : (s₁.nodes n).nodeId = n := (nodeId_step h₁ n).trans h.name
    rcases hu₁ with hown | hquiet
    · cases hown with
      | answer r d clock =>
        obtain ⟨answers', hreading⟩ := h.answer hname₁ h₁
        obtain ⟨results, hends⟩ := ih hreading h₂ hu₂
        exact ⟨results, hends.cons h₁ trivial⟩
      | conclude ht hreal =>
        obtain ⟨rfl, rfl, rfl⟩ := by simpa using h.task.symm.trans ht
        obtain ⟨rs, hrs, htask, hheld⟩ := h.conclude hlevel hreplicas hreal h₁
        obtain ⟨hdone, hiff⟩ := concluded_run hrs hname₁ p.needed htask h₂ hu₂ hend
        refine ⟨answersOf s₁ p.key rs, .cons ⟨hdone, fun r hr => ?_, hiff⟩ h₁ trivial⟩
        have hmem : r.nodeId ∈ rs := by
          rw [← map_nodeId_answersOf s₁ p.key rs]
          exact List.mem_map_of_mem hr
        rw [(genuine_answersOf hr).2]
        exact hheld r.nodeId hmem
      | repair ht =>
        have hcontra := h.task.symm.trans ht
        cases hcontra
    · obtain ⟨results, hends⟩ := ih (h.quiet hname₁ hquiet) h₂ hu₂
      exact ⟨results, hends.cons h₁ (hquiet.repairFits h₁)⟩

end Reads

/-- **Exactly when the nodes that answered a GET end with the newest record of the answers.** -/
theorem read_repair_iff {n key : String} {level : ConsistencyLevel} {s s₁ s₂ s' : Cluster}
    {ls : List Label} (h : GetRun hash n key level s s₁ ls s₂ s') :
    ∃ results outcome, s'.history = s₂.history ++
        [.got n ((s.nodes n).readPlan hash key level) s.history.length results outcome] ∧
      (∀ r ∈ results, ∃ t, r.record? = liveAt t (recordAt s key r.nodeId)) ∧
      (EndsNewest results (recordAt s' key) ↔
        (SameRecords results ∨
          ∃ best, Repairable ((s.nodes n).readPlan hash key level).needed results best) ∧
        Along (step hash) (RepairFits n) s₁ ls) := by
  obtain ⟨hreads, hname, hstarted, hrun, hundisturbed, hended⟩ := h
  simp only [step] at hstarted
  split at hstarted
  · cases hstarted
  obtain rfl := Option.some.inj hstarted
  simp only [step] at hended
  split at hended
  · rename_i p' since' results' outcome' hend
    obtain rfl := Option.some.inj hended
    have hreading : Reading n s (s.setTask n (some (.read ((s.nodes n).readPlan hash key level)
        s.history.length Dict.empty))) ((s.nodes n).readPlan hash key level) s.history.length
        Dict.empty :=
      ⟨hname, by simp [setTask], fun _ _ => rfl, fun r a hr => by cases hr⟩
    obtain ⟨results, htask, hheld, hiff⟩ :=
      reading_run hreading hreads (ConsistentHashRing.nodup_getNodes hash _ key _) hrun
        hundisturbed hend
    obtain ⟨rfl, rfl, rfl, rfl⟩ := by simpa using hend.symm.trans htask
    exact ⟨_, _, rfl, hheld, hiff⟩
  · cases hended

/-- A node with a record of "k" under version `version`, written at `t`. -/
def holding (id value : String) (version : Int) (t : Time) : Node :=
  { sampleNode id with
    store := KVStore.empty.set t "k" (.str value)
      { version := some version, coordinatorId := some "c" } }

/-- "a" and "b" hold two records of "k", "c" holds none. -/
def holdingTwo (version version' : Int) : Cluster :=
  { sample with
    nodes := fun id =>
      if id = "a" then holding "a" "x" version 1
      else if id = "b" then holding "b" "y" version' 2
      else sampleNode id }

/-- The GET at "a" asks "a" and "b". -/
def askTwo : List Label :=
  [.answer "a" "a" .answered 3, .answer "a" "b" .answered 3, .conclude "a" ["b"]]

theorem undisturbed_askTwo (v v' : Int) {s₁ : Cluster} {ls : List Label}
    (hstart : step (fun _ => 0) (holdingTwo v v') (.get "a" "k" .quorum) = some s₁)
    (hcounted : counted (((holdingTwo v v').nodes "a").readPlan (fun _ => 0) "k" .quorum) ["b"] =
      ["a", "b"])
    (hrest : ∀ s₂, exec (step fun _ => 0) s₁ askTwo = some s₂ →
      Each (step fun _ => 0) (Undisturbed "a" "k") s₂ ls) :
    Each (step fun _ => 0) (Undisturbed "a" "k") s₁ (askTwo ++ ls) := by
  obtain rfl := Option.some.inj hstart
  intro s₂ h₂
  obtain rfl := Option.some.inj h₂
  refine ⟨.inl (.answer _ _ _), fun s₃ h₃ => ?_⟩
  obtain rfl := Option.some.inj h₃
  refine ⟨.inl (.answer _ _ _), fun s₄ h₄ => ⟨.inl (.conclude rfl ?_), ?_⟩⟩
  · intro r hr
    rw [hcounted] at hr
    simp only [List.mem_cons, List.not_mem_nil, or_false] at hr
    rcases hr with rfl | rfl
    · exact ⟨_, rfl⟩
    · exact ⟨_, rfl⟩
  · exact hrest s₄ h₄

theorem read_repair_iff_sample : ∃ s₁ s₂ s' results outcome,
    GetRun (fun _ => 0) "a" "k" .quorum (holdingTwo 1 2) s₁
      (askTwo ++ [.repair "a" .answered 4]) s₂ s' ∧
    s'.history = s₂.history ++ [.got "a"
      (((holdingTwo 1 2).nodes "a").readPlan (fun _ => 0) "k" .quorum) 0 results outcome] ∧
    (EndsNewest results (recordAt s' "k") ↔
      (SameRecords results ∨ ∃ best, Repairable
        (((holdingTwo 1 2).nodes "a").readPlan (fun _ => 0) "k" .quorum).needed results best) ∧
      Along (step fun _ => 0) (RepairFits "a") s₁ (askTwo ++ [.repair "a" .answered 4])) := by
  have hrepair : ∀ s₁ s₂, step (fun _ => 0) (holdingTwo 1 2) (.get "a" "k" .quorum) = some s₁ →
      exec (step fun _ => 0) s₁ askTwo = some s₂ →
      Each (step fun _ => 0) (Undisturbed "a" "k") s₂ [.repair "a" .answered 4] := by
    intro s₁ s₂ h₁ h₂
    obtain rfl := Option.some.inj h₁
    obtain rfl := Option.some.inj h₂
    exact fun s₃ _ => ⟨.inl (.repair rfl (.inl rfl) four_pos), trivial⟩
  have hrun : GetRun (fun _ => 0) "a" "k" .quorum (holdingTwo 1 2) _ _ _ _ :=
    ⟨.inr rfl, rfl, rfl, rfl, undisturbed_askTwo 1 2 rfl rfl fun s₂ => hrepair _ s₂ rfl, rfl⟩
  obtain ⟨results, outcome, hhistory, -, hiff⟩ := read_repair_iff hrun
  exact ⟨_, _, _, results, outcome, hrun, hhistory, hiff⟩

/-- Both records have version 1: the answers differ and are left as they are. -/
theorem equal_versions_unrepaired :
    ∃ s₁ s₂ s', GetRun (fun _ => 0) "a" "k" .quorum (holdingTwo 1 1) s₁ askTwo s₂ s' ∧
      ∃ p results outcome, s'.history = s₂.history ++ [.got "a" p 0 results outcome] ∧
        results.map ReadResult.nodeId = ["a", "b"] ∧
        ¬ EndsNewest results (recordAt s' "k") := by
  refine ⟨_, _, _, ⟨.inr rfl, rfl, rfl, rfl,
    (undisturbed_askTwo 1 1 rfl rfl fun _ _ => trivial :
      Each _ _ _ (askTwo ++ [])), rfl⟩,
    _, _, _, rfl, rfl, ?_⟩
  rintro ⟨m, -, hall⟩
  have ha := congrArg (Option.map KeyMetadata.value) (hall _ List.mem_cons_self)
  have hb := congrArg (Option.map KeyMetadata.value)
    (hall _ (List.mem_cons_of_mem _ List.mem_cons_self))
  have hsame : some (Json.str "x") = some (Json.str "y") := ha.trans hb.symm
  simp at hsame

end Cluster

end MiniDb
