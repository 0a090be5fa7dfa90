/-
  Network faults of the fault injector (`chaos/fault_injection.py`).

  Partitions are kept twice: as faults in `_faults`, and as one set of targets. `_faults` has just
  the faults that were injected and neither cleared nor replaced (`get?_faults_iff`); the set
  follows it as long as no step takes a target away that another fault names, or leaves one that
  none names any more (`views_agree_iff`), and it knows nothing of durations.
  `should_fail_network_iff` puts both together.

  Not modelled: the callbacks, the statistics, and the faults of disk, clock and process beyond
  their place in the table.
-/
import MiniDb.Lib.Dict
import MiniDb.Lib.Steps
import MiniDb.Storage.KvStore
import Mathlib.Data.Finset.Basic

namespace MiniDb

open Lib

inductive FaultType where
  | networkDelay
  | networkDrop
  | networkPartition
  | diskSlow
  | diskFail
  | processPause
  | memoryPressure
  | clockSkew
  | leaderKill
  | randomCrash
  deriving DecidableEq

structure Fault where
  faultId : String
  faultType : FaultType
  targetNodes : List String := []
  probability : ℚ := 1
  /-- 0 means until cleared. -/
  durationSeconds : ℚ := 0
  /-- The parameter "partition_from", empty when it is not given. -/
  partitionFrom : List String := []
  startTime : Option Time := none
  active : Bool := true

structure FaultInjector where
  enabled : Bool
  faults : Dict String Fault := .empty
  partitionedFrom : Finset String := ∅

namespace Fault

/-- The partition that the fault asks for. -/
def partition (fault : Fault) : Finset String :=
  if fault.faultType = .networkPartition then fault.partitionFrom.toFinset else ∅

/-- `_is_expired` -/
def isExpired (fault : Fault) (now : Time) : Bool :=
  if fault.durationSeconds ≤ 0 then false
  else
    match fault.startTime with
    | none => false
    | some start => fault.durationSeconds < now - start

/-- `_targets_node` -/
def targetsNode (fault : Fault) (nodeId : String) : Bool :=
  if fault.targetNodes = [] then true else nodeId ∈ fault.targetNodes

end Fault

namespace FaultInjector

def injectFault (s : FaultInjector) (fault : Fault) (now : Time) : FaultInjector × Bool :=
  if !s.enabled then (s, false)
  else
    ({ s with
        faults := s.faults.set fault.faultId { fault with startTime := some now }
        partitionedFrom := s.partitionedFrom ∪ fault.partition }, true)

def clearFault (s : FaultInjector) (faultId : String) : FaultInjector × Bool :=
  match s.faults.get? faultId with
  | some fault =>
    ({ s with
        faults := s.faults.erase faultId
        partitionedFrom := s.partitionedFrom \ fault.partition }, true)
  | none => (s, false)

def clearAllFaults (s : FaultInjector) : FaultInjector :=
  { s with faults := .empty, partitionedFrom := ∅ }

/-- `should_fail_network`; `random` is what `random.random()` gives for a fault. -/
def shouldFailNetwork (s : FaultInjector) (targetNode : String) (now : Time)
    (random : String → ℚ) : Bool :=
  if !s.enabled then false
  else if targetNode ∈ s.partitionedFrom then true
  else s.faults.items.any fun p =>
    p.2.active && !p.2.isExpired now && p.2.faultType = .networkDrop &&
      p.2.targetsNode targetNode && random p.1 < p.2.probability

/-! ## Runs -/

inductive FaultEvent where
  | enable
  | disable
  | inject (fault : Fault) (now : Time)
  | clear (faultId : String)
  | clearAll

def handle (s : FaultInjector) : FaultEvent → FaultInjector
  | .enable => { s with enabled := true }
  | .disable => { s with enabled := false }
  | .inject fault now => (s.injectFault fault now).1
  | .clear faultId => (s.clearFault faultId).1
  | .clearAll => s.clearAllFaults

def step (s : FaultInjector) (ev : FaultEvent) : Option FaultInjector := some (s.handle ev)

/-- A new injector after the events. -/
def after (enabled : Bool) (evs : List FaultEvent) : FaultInjector :=
  evs.foldl handle { enabled := enabled }

theorem exec_step (s : FaultInjector) (evs : List FaultEvent) :
    exec step s evs = some (evs.foldl handle s) := by
  induction evs generalizing s with
  | nil => rfl
  | cons ev evs ih => exact exec_cons.mpr ⟨s.handle ev, rfl, ih _⟩

/-! ## What stands of a history -/

/-- The event clears the fault of this id, or puts another in its place. -/
def Removes (s : FaultInjector) (faultId : String) : FaultEvent → Prop
  | .inject fault _ => s.enabled = true ∧ fault.faultId = faultId
  | .clear id => id = faultId
  | .clearAll => True
  | _ => False

/-- The fault was injected at `start`, while enabled, and neither cleared nor replaced since. -/
inductive Standing (enabled : Bool) (fault : Fault) (start : Time) : List FaultEvent → Prop where
  | injected {evs : List FaultEvent} (h : (after enabled evs).enabled = true) :
      Standing enabled fault start (evs ++ [.inject fault start])
  | kept {evs : List FaultEvent} {ev : FaultEvent} (h : Standing enabled fault start evs)
      (hev : ¬Removes (after enabled evs) fault.faultId ev) :
      Standing enabled fault start (evs ++ [ev])

/-- Some partition fault that stands, and has not run past its duration, names the target. -/
def ShouldFail (enabled : Bool) (evs : List FaultEvent) (targetNode : String) (now : Time) :
    Prop :=
  ∃ fault start, Standing enabled fault start evs ∧ targetNode ∈ fault.partition ∧
    ¬(0 < fault.durationSeconds ∧ fault.durationSeconds < now - start)

section Standing

variable {enabled : Bool} {fault : Fault} {start : Time} {evs : List FaultEvent} {ev : FaultEvent}

theorem after_snoc (enabled : Bool) (evs : List FaultEvent) (ev : FaultEvent) :
    after enabled (evs ++ [ev]) = (after enabled evs).handle ev := by
  unfold after
  rw [List.foldl_append, List.foldl_cons, List.foldl_nil]

theorem not_standing_nil : ¬Standing enabled fault start [] := by
  intro h
  generalize hevs : ([] : List FaultEvent) = evs at h
  cases h with
  | injected => exact absurd hevs (by simp)
  | kept => exact absurd hevs (by simp)

theorem standing_snoc_iff : Standing enabled fault start (evs ++ [ev]) ↔
    (ev = .inject fault start ∧ (after enabled evs).enabled = true) ∨
      (Standing enabled fault start evs ∧ ¬Removes (after enabled evs) fault.faultId ev) := by
  constructor
  · intro h
    generalize hevs : evs ++ [ev] = evs' at h
    cases h with
    | injected h =>
      obtain ⟨rfl, hev⟩ := List.append_inj' hevs rfl
      exact .inl ⟨List.singleton_inj.mp hev, h⟩
    | kept h hkept =>
      obtain ⟨rfl, hev⟩ := List.append_inj' hevs rfl
      rw [List.singleton_inj] at hev
      exact .inr ⟨h, hev ▸ hkept⟩
  · rintro (⟨rfl, h⟩ | ⟨h, hev⟩)
    · exact .injected h
    · exact .kept h hev

theorem injectFault_disabled {s : FaultInjector} (h : s.enabled = false) (fault : Fault)
    (now : Time) : (s.injectFault fault now).1 = s := by
  unfold injectFault
  rw [h]
  rfl

theorem injectFault_enabled {s : FaultInjector} (h : s.enabled = true) (fault : Fault)
    (now : Time) : (s.injectFault fault now).1 =
      { s with
        faults := s.faults.set fault.faultId { fault with startTime := some now }
        partitionedFrom := s.partitionedFrom ∪ fault.partition } := by
  unfold injectFault
  rw [h]
  rfl

theorem get?_clearFault (s : FaultInjector) (faultId id : String) :
    (s.clearFault faultId).1.faults.get? id =
      if id = faultId then none else s.faults.get? id := by
  unfold clearFault
  cases hget : s.faults.get? faultId with
  | some fault => exact Dict.get?_erase _ _ _
  | none =>
    by_cases hid : id = faultId
    · rw [if_pos hid, hid]
      exact hget
    · rw [if_neg hid]

theorem get?_injectFault_iff {s : FaultInjector} (henabled : s.enabled = true) (fault : Fault)
    (now : Time) (faultId : String) (f : Fault) :
    (s.injectFault fault now).1.faults.get? faultId = some f ↔
      (fault.faultId = faultId ∧ f = { fault with startTime := some now }) ∨
      (s.faults.get? faultId = some f ∧ fault.faultId ≠ faultId) := by
  rw [injectFault_enabled henabled]
  dsimp only
  rw [Dict.get?_set]
  by_cases hid : faultId = fault.faultId
  · rw [if_pos hid, Option.some.injEq]
    constructor
    · intro h
      exact .inl ⟨hid.symm, h.symm⟩
    · rintro (⟨-, hf⟩ | ⟨-, hne⟩)
      · exact hf.symm
      · exact absurd hid.symm hne
  · rw [if_neg hid]
    constructor
    · intro h
      exact .inr ⟨h, Ne.symm hid⟩
    · rintro (⟨hid', -⟩ | ⟨h, -⟩)
      · exact absurd hid'.symm hid
      · exact h

/-- The faults in the table after an event: the one it injects, and those it does not remove. -/
theorem get?_handle (s : FaultInjector) (ev : FaultEvent) (faultId : String) (f : Fault) :
    (s.handle ev).faults.get? faultId = some f ↔
      (∃ fault start, ev = .inject fault start ∧ s.enabled = true ∧ fault.faultId = faultId ∧
        f = { fault with startTime := some start }) ∨
      (s.faults.get? faultId = some f ∧ ¬Removes s faultId ev) := by
  cases ev with
  | enable => simp [handle, Removes]
  | disable => simp [handle, Removes]
  | inject fault now =>
    unfold handle
    dsimp only
    cases henabled : s.enabled with
    | false => simp [injectFault_disabled henabled, Removes, henabled]
    | true =>
      rw [get?_injectFault_iff henabled]
      refine or_congr ⟨fun h => ⟨fault, now, rfl, rfl, h⟩, ?_⟩
        (and_congr_right fun _ => not_congr (and_iff_right henabled).symm)
      rintro ⟨fault', now', hev, -, h⟩
      cases hev
      exact h
  | clear id =>
    have hnone : ¬∃ fault start, FaultEvent.clear id = .inject fault start ∧ s.enabled = true ∧
        fault.faultId = faultId ∧ f = { fault with startTime := some start } := by
      rintro ⟨fault, start, hev, -⟩
      cases hev
    unfold handle
    dsimp only
    rw [get?_clearFault, or_iff_right hnone]
    by_cases hid : faultId = id
    · rw [if_pos hid]
      exact iff_of_false (Option.some_ne_none f).symm fun h => h.2 hid.symm
    · rw [if_neg hid]
      exact ⟨fun h => ⟨h, fun hremoves => hid hremoves.symm⟩, fun h => h.1⟩
  | clearAll => simp [handle, clearAllFaults, Removes]

/-- **The table has the faults that stand.** -/
theorem get?_faults_iff {faultId : String} {f : Fault} :
    (after enabled evs).faults.get? faultId = some f ↔
      ∃ fault start, Standing enabled fault start evs ∧ fault.faultId = faultId ∧
        f = { fault with startTime := some start } := by
  induction evs using List.reverseRecOn generalizing faultId f with
  | nil =>
    constructor
    · intro h
      cases h
    · rintro ⟨fault, start, h, -⟩
      exact absurd h not_standing_nil
  | append_singleton evs ev ih =>
    rw [after_snoc, get?_handle, ih]
    constructor
    · rintro (⟨fault, start, rfl, henabled, hid, hf⟩ | ⟨⟨fault, start, h, rfl, hf⟩, hkept⟩)
      · exact ⟨fault, start, .injected henabled, hid, hf⟩
      · exact ⟨fault, start, .kept h hkept, rfl, hf⟩
    · rintro ⟨fault, start, h, rfl, hf⟩
      rcases standing_snoc_iff.mp h with ⟨hev, henabled⟩ | ⟨h, hkept⟩
      · exact .inl ⟨fault, start, hev, henabled, rfl, hf⟩
      · exact .inr ⟨⟨fault, start, h, rfl, hf⟩, hkept⟩

theorem Standing.mem (h : Standing enabled fault start evs) : .inject fault start ∈ evs := by
  induction h with
  | injected => exact List.mem_append_right _ List.mem_cons_self
  | kept _ _ ih => exact List.mem_append_left _ ih

end Standing

/-! ## The set and the table -/

/-- A fault of the table, other than that of this id, names the target. -/
def NamedBut (s : FaultInjector) (faultId targetNode : String) : Prop :=
  ∃ id f, id ≠ faultId ∧ s.faults.get? id = some f ∧ targetNode ∈ f.partition

/-- The fault of this id names the target. -/
def NamedBy (s : FaultInjector) (faultId targetNode : String) : Prop :=
  ∃ f, s.faults.get? faultId = some f ∧ targetNode ∈ f.partition

def Named (s : FaultInjector) (targetNode : String) : Prop := ∃ id, s.NamedBy id targetNode

/-- The set has the targets that faults of the table name. -/
def ViewsAgree (s : FaultInjector) : Prop := ∀ t, t ∈ s.partitionedFrom ↔ s.Named t

/-- The step leaves no target behind that only a replaced fault named, and takes none away that
    another fault names. -/
def KeepsViews (s : FaultInjector) : FaultEvent → Prop
  | .inject fault _ => s.enabled = true → ∀ t, s.NamedBy fault.faultId t →
      t ∈ fault.partition ∨ s.NamedBut fault.faultId t
  | .clear faultId => ∀ t, s.NamedBy faultId t → ¬s.NamedBut faultId t
  | _ => True

theorem named_iff (s : FaultInjector) (faultId t : String) :
    s.Named t ↔ s.NamedBy faultId t ∨ s.NamedBut faultId t := by
  constructor
  · rintro ⟨id, f, hf, ht⟩
    by_cases hid : id = faultId
    · exact .inl ⟨f, hid ▸ hf, ht⟩
    · exact .inr ⟨id, f, hid, hf, ht⟩
  · rintro (h | ⟨id, f, -, hf, ht⟩)
    · exact ⟨faultId, h⟩
    · exact ⟨id, f, hf, ht⟩

theorem viewsAgree_inject_iff {s : FaultInjector} (h : s.ViewsAgree) (fault : Fault)
    (now : Time) : (s.injectFault fault now).1.ViewsAgree ↔ KeepsViews s (.inject fault now) := by
  unfold KeepsViews
  cases henabled : s.enabled with
  | false =>
    rw [injectFault_disabled henabled]
    exact iff_of_true h fun henabled' => absurd henabled' Bool.false_ne_true
  | true =>
    rw [injectFault_enabled henabled]
    unfold ViewsAgree
    simp only [Finset.mem_union, forall_const]
    refine forall_congr' fun t => ?_
    have hnamed : Named { s with
        faults := s.faults.set fault.faultId { fault with startTime := some now }
        partitionedFrom := s.partitionedFrom ∪ fault.partition } t ↔
        t ∈ fault.partition ∨ s.NamedBut fault.faultId t := by
      rw [named_iff _ fault.faultId, NamedBy, NamedBut, NamedBut]
      refine or_congr ?_ (exists_congr fun id => exists_congr fun f =>
        and_congr_right fun hid => ?_)
      · rw [Dict.get?_set_self]
        constructor
        · rintro ⟨f, hf, ht⟩
          cases hf
          exact ht
        · intro ht
          exact ⟨_, rfl, ht⟩
      · rw [Dict.get?_set_ne _ hid]
    rw [hnamed, h t, named_iff s fault.faultId]
    tauto

/-- The set after a fault was cleared. -/
theorem mem_clearFault {s : FaultInjector} {faultId t : String} :
    t ∈ (s.clearFault faultId).1.partitionedFrom ↔
      t ∈ s.partitionedFrom ∧ ¬s.NamedBy faultId t := by
  unfold clearFault NamedBy
  cases s.faults.get? faultId with
  | some fault => simp
  | none => simp

theorem viewsAgree_clear_iff {s : FaultInjector} (h : s.ViewsAgree) (faultId : String) :
    (s.clearFault faultId).1.ViewsAgree ↔ KeepsViews s (.clear faultId) := by
  refine forall_congr' fun t => ?_
  have hnamed : (s.clearFault faultId).1.Named t ↔ s.NamedBut faultId t := by
    unfold Named NamedBy NamedBut
    simp only [get?_clearFault]
    refine exists_congr fun id => ?_
    by_cases hid : id = faultId
    · simp [hid]
    · simp [hid]
  rw [mem_clearFault, hnamed, h t, named_iff s faultId]
  tauto

theorem viewsAgree_iff {s : FaultInjector} (h : s.ViewsAgree) (ev : FaultEvent) :
    (s.handle ev).ViewsAgree ↔ KeepsViews s ev := by
  cases ev with
  | enable => exact iff_of_true h trivial
  | disable => exact iff_of_true h trivial
  | inject fault now => exact viewsAgree_inject_iff h fault now
  | clear faultId => exact viewsAgree_clear_iff h faultId
  | clearAll =>
    refine iff_of_true (fun t => iff_of_false (Finset.notMem_empty t) ?_) trivial
    rintro ⟨id, f, hf, -⟩
    cases hf

theorem viewsAgree_new (enabled : Bool) : ({ enabled := enabled } : FaultInjector).ViewsAgree := by
  refine fun t => iff_of_false (Finset.notMem_empty t) ?_
  rintro ⟨id, f, hf, -⟩
  cases hf

/-- The views agree all along exactly if every step keeps them. -/
theorem views_agree_iff (enabled : Bool) (evs : List FaultEvent) :
    Each step (fun _ _ s' => s'.ViewsAgree) { enabled := enabled } evs ↔
      Along step KeepsViews { enabled := enabled } evs :=
  each_inv_iff (fun _ ev _ h hs => Option.some.inj hs ▸ viewsAgree_iff h ev)
    (viewsAgree_new enabled) (exec_step _ evs)

/-! ## The answer -/

/-- No packet-drop fault was injected. -/
def NoDrops (evs : List FaultEvent) : Prop :=
  ∀ fault now, .inject fault now ∈ evs → fault.faultType ≠ .networkDrop

theorem shouldFail_of_noDrops {enabled : Bool} {evs : List FaultEvent} (h : NoDrops evs)
    (henabled : (after enabled evs).enabled = true) (t : String) (now : Time)
    (random : String → ℚ) :
    (after enabled evs).shouldFailNetwork t now random = true ↔
      t ∈ (after enabled evs).partitionedFrom := by
  have hdrops : ((after enabled evs).faults.items.any fun p =>
      p.2.active && !p.2.isExpired now && p.2.faultType = .networkDrop &&
        p.2.targetsNode t && random p.1 < p.2.probability) = false := by
    rw [List.any_eq_false]
    rintro ⟨id, f⟩ hp
    obtain ⟨fault, start, hstanding, -, rfl⟩ :=
      get?_faults_iff.mp ((Dict.mem_items_iff _ _ _).mp hp)
    have hdrop := h fault start hstanding.mem
    simp [hdrop]
  unfold shouldFailNetwork
  rw [henabled, hdrops]
  simp

/-- Some fault that stands names the target. -/
theorem named_after_iff {enabled : Bool} {evs : List FaultEvent} {t : String} :
    (after enabled evs).Named t ↔
      ∃ fault start, Standing enabled fault start evs ∧ t ∈ fault.partition := by
  constructor
  · rintro ⟨id, f, hf, ht⟩
    obtain ⟨fault, start, h, -, rfl⟩ := get?_faults_iff.mp hf
    exact ⟨fault, start, h, ht⟩
  · rintro ⟨fault, start, h, ht⟩
    exact ⟨fault.faultId, _, get?_faults_iff.mpr ⟨fault, start, h, rfl, rfl⟩, ht⟩

theorem viewsAgree_after {enabled : Bool} {evs : List FaultEvent}
    (h : Along step KeepsViews { enabled := enabled } evs) : (after enabled evs).ViewsAgree :=
  exec_inv_along (fun _ ev _ hs hkeeps hstep =>
      Option.some.inj hstep ▸ (viewsAgree_iff hs ev).mpr hkeeps)
    (viewsAgree_new enabled) h (exec_step _ evs)

/-- **The answer is right exactly if the partition faults that name the target have not all run out,
    in every run whose steps keep the set and the table together**; and they stay together exactly
    in these runs. -/
theorem should_fail_network_iff (enabled : Bool) {evs : List FaultEvent} (hdrops : NoDrops evs) :
    (Each step (fun _ _ s' => s'.ViewsAgree) { enabled := enabled } evs ↔
      Along step KeepsViews { enabled := enabled } evs) ∧
    (Along step KeepsViews { enabled := enabled } evs → (after enabled evs).enabled = true →
      ∀ t now random,
        (((after enabled evs).shouldFailNetwork t now random = true ↔
            ShouldFail enabled evs t now) ↔
          ((∃ fault start, Standing enabled fault start evs ∧ t ∈ fault.partition) →
            ShouldFail enabled evs t now))) := by
  refine ⟨views_agree_iff enabled evs, fun hkeeps henabled t now random => ?_⟩
  rw [shouldFail_of_noDrops hdrops henabled, viewsAgree_after hkeeps t, named_after_iff]
  constructor
  · exact fun h => h.mp
  · rintro h
    refine ⟨h, ?_⟩
    rintro ⟨fault, start, hstanding, ht, -⟩
    exact ⟨fault, start, hstanding, ht⟩

/-! ### Two partitions with one target -/

/-- A partition from `n2`. -/
def partitionFault (faultId : String) : Fault :=
  { faultId := faultId, faultType := .networkPartition, partitionFrom := ["n2"] }

/-- Two partitions from `n2`, injected at 1 and 2. -/
def overlapping : List FaultEvent :=
  [.enable, .inject (partitionFault "a") 1, .inject (partitionFault "b") 2]

theorem standing_overlapping : Standing false (partitionFault "b") 2 overlapping :=
  have henabled : (after false [.enable, .inject (partitionFault "a") 1]).enabled = true := rfl
  .injected henabled

theorem noDrops_overlapping : NoDrops overlapping := by
  intro fault now hmem
  simp only [overlapping, List.mem_cons, List.not_mem_nil, or_false, reduceCtorEq, false_or,
    FaultEvent.inject.injEq] at hmem
  rcases hmem with ⟨rfl, -⟩ | ⟨rfl, -⟩ <;> decide

theorem keeps_overlapping : Along step KeepsViews { enabled := false } overlapping := by
  refine ⟨trivial, fun s hs => ⟨?_, fun s' hs' => ⟨?_, fun _ _ => trivial⟩⟩⟩
  · cases hs
    rintro - t ⟨f, hf, -⟩
    cases hf
  · cases hs
    cases hs'
    rintro - t ⟨f, hf, -⟩
    cases hf

theorem should_fail_network_iff_sample :
    (after false overlapping).shouldFailNetwork "n2" 3 (fun _ => 0) = true ↔
      ShouldFail false overlapping "n2" 3 :=
  ((should_fail_network_iff false noDrops_overlapping).2 keeps_overlapping rfl "n2" 3
    (fun _ => 0)).mpr fun _ =>
      ⟨partitionFault "b", 2, standing_overlapping, by decide, fun h => lt_irrefl _ h.1⟩

/-- When the first is cleared, the second stands, and the calls do not fail. -/
theorem cleared_partition_overlaps :
    (after false (overlapping ++ [.clear "a"])).enabled = true ∧
      ShouldFail false (overlapping ++ [.clear "a"]) "n2" 3 ∧
      (after false (overlapping ++ [.clear "a"])).shouldFailNetwork "n2" 3 (fun _ => 0) =
        false := by
  refine ⟨rfl, ⟨partitionFault "b", 2, .kept standing_overlapping ?_, by decide,
    fun h => lt_irrefl _ h.1⟩, by decide +kernel⟩
  exact fun h => absurd (show "a" = "b" from h) (by decide)

/-- A fault that takes the place of another under its id leaves the targets of that one behind. -/
example : (after true [.inject (partitionFault "a") 1,
    .inject { partitionFault "a" with partitionFrom := ["n3"] } 2]).shouldFailNetwork "n2" 3
      (fun _ => 0) = true := by decide +kernel

/-- A fault that has run out goes on. -/
example : (after true
    [.inject { partitionFault "a" with durationSeconds := 1 } 1]).shouldFailNetwork "n2" 3
      (fun _ => 0) = true := by decide +kernel

end FaultInjector

end MiniDb
