/-
  KEYS (`node.py`, `_handle_keys` and `_collect_cluster_keys`): a node lists its own keys and then
  asks the nodes it has alive, one after the other, while writes, repairs, maintenance and
  restarts go on around it.

  No store is ever read as a whole, so the list belongs to no single moment. `keys_listed` says
  what it is worth in a healthy cluster: a key written before the KEYS began is in the list if a
  majority has been heard, and nothing is in it that was not written.
-/
import MiniDb.Cluster.Durable

namespace MiniDb

open Lib

namespace Listing

open Cluster Replica Healthy ReadAfterWrite Durable

/-! ## Listings under way -/

/-- A KEYS under way. -/
structure KeysTask where
  node : String
  pattern : String
  /-- The nodes still to be asked. -/
  rest : List String
  keys : List String
  /-- The nodes it has the keys of; no step reads it. -/
  heard : List String
  /-- The length of the history when it began; no step reads it. -/
  since : Nat

/-- The sorted set that is answered. -/
def KeysTask.listed (x : KeysTask) : List String := x.keys.dedup.mergeSort (· ≤ ·)

/-- `_handle_keys` -/
def KeysTask.reply (x : KeysTask) : Response := .ok (.arr (x.listed.map .str))

structure State where
  base : Durable.State
  /-- By the thread that handles the command. -/
  listings : String → Option KeysTask
  /-- The listings that have been answered. -/
  answered : List KeysTask

inductive Label where
  | run (l : Durable.Label)
  | begin (thread n pattern : String) (clock : Time)
  /-- `__LOCAL_KEYS` to the next node. -/
  | ask (thread : String) (d : Delivery) (clock : Time)
  | finish (thread : String)

/-- The keys of a node; what has expired is purged. -/
def keysAt (s : Durable.State) (n pattern : String) (clock : Time) :
    Durable.State × List String :=
  let (store, keys) := (s.cluster.nodes n).store.keys clock pattern
  ({ s with cluster := s.cluster.setNode n { s.cluster.nodes n with store := store } }, keys)

/-- A restart ends what its node was listing. -/
def surviving (listings : String → Option KeysTask) : Durable.Label → String → Option KeysTask
  | .restart n _ _ _ => fun thread => (listings thread).filter fun x => x.node ≠ n
  | _ => listings

def setListing (s : State) (thread : String) (x : Option KeysTask) : State :=
  { s with listings := Function.update s.listings thread x }

def step (hash : String → Nat) (s : State) : Label → Option State
  | .run l => (Durable.step hash s.base l).map fun base =>
      { s with base := base, listings := surviving s.listings l }
  | .begin thread n pattern clock =>
    if (s.listings thread).isSome then none
    else
      let (base, keys) := keysAt s.base n pattern clock
      some (setListing { s with base := base } thread
        (some { node := n, pattern := pattern, rest := base.cluster.others n, keys := keys
                heard := [n], since := base.cluster.history.length }))
  | .ask thread d clock =>
    match s.listings thread with
    | some x =>
      match x.rest with
      | [] => none
      | r :: rest =>
        let (base, keys) := keysAt s.base r x.pattern clock
        match d with
        | .unsent | .sent => some (setListing s thread (some { x with rest := rest }))
        | .handled =>
          some (setListing { s with base := base } thread (some { x with rest := rest }))
        | .answered => some (setListing { s with base := base } thread
            (some { x with rest := rest, keys := x.keys ++ keys, heard := x.heard ++ [r] }))
    | none => none
  | .finish thread =>
    match s.listings thread with
    | some x =>
      if x.rest = [] then
        some (setListing { s with answered := s.answered ++ [x] } thread none)
      else none
    | none => none

/-- What is assumed of a step; `L` is the leader. -/
def CalmListing (L : String) (members : Finset String) (s : State) : Label → Prop
  | .run l => CalmRun L members s.base l
  | _ => True

instance (L : String) (members : Finset String) (s : State) :
    (l : Label) → Decidable (CalmListing L members s l)
  | .run l => inferInstanceAs (Decidable (CalmRun L members s.base l))
  | .begin _ _ _ _ | .ask _ _ _ | .finish _ => isTrue trivial

/-! ## What a listing has -/

/-- What the list of `x` is worth when the cluster is `c`. -/
structure Worth (L : String) (members : Finset String) (c : Cluster) (x : KeysTask) : Prop where
  since : x.since ≤ c.history.length
  complete : ∀ w, Acked (c.history.take x.since) w → KVStore.matchesPattern x.pattern w.key →
    ∃ Q, Held members c w Q ∧ ∀ r ∈ x.heard, r ∈ Q → w.key ∈ x.keys
  sound : ∀ k ∈ x.keys, KVStore.matchesPattern x.pattern k ∧
    ∃ e, Event.issued L e ∈ c.history ∧ e.key = k

structure Inv (L : String) (members : Finset String) (s : State) : Prop where
  base : Durable.Inv L members s.base
  listings : ∀ thread x, s.listings thread = some x → Worth L members s.base.cluster x
  answered : ∀ x ∈ s.answered, Worth L members s.base.cluster x

section Steps

variable {hash : String → Nat} {L : String} {members : Finset String}

/-- A cluster that goes on: no store goes back, and the history grows. -/
structure Onward (L : String) (members : Finset String) (c c' : Cluster) : Prop where
  progress : Progress L members c c'
  history : ∃ es, c'.history = c.history ++ es

theorem Worth.onward {c c' : Cluster} {x : KeysTask} (h : Worth L members c x)
    (hc : Onward L members c c') : Worth L members c' x := by
  obtain ⟨es, hes⟩ := hc.history
  have hgrows : c.history ⊆ c'.history := hes ▸ List.subset_append_left _ _
  refine ⟨?_, fun w hw hmatch => ?_, fun k hk => ?_⟩
  · rw [hes, List.length_append]
    exact le_trans h.since (Nat.le_add_right _ _)
  · rw [hes, List.take_append_of_le_length h.since] at hw
    obtain ⟨Q, ⟨hQ, hcard, hholds⟩, hkeys⟩ := h.complete w hw hmatch
    exact ⟨Q, ⟨hQ, hcard, fun r hr =>
      le_trans (hholds r hr) ((hc.progress.advance r).rank_le w.key)⟩, hkeys⟩
  · obtain ⟨hmatch, e, he, hkey⟩ := h.sound k hk
    exact ⟨hmatch, e, hgrows he, hkey⟩

theorem onward_run {s s' : Durable.State} {l : Durable.Label} (h : Durable.Inv L members s)
    (hl : CalmRun L members s l) (hs : Durable.step hash s l = some s') :
    Onward L members s.cluster s'.cluster := by
  have hcalm := h.reads.calm
  cases l with
  | run l =>
    simp only [Durable.step, Option.ite_none_left_eq_some, Option.map_eq_some_iff] at hs
    obtain ⟨-, c', hc, rfl⟩ := hs
    exact ⟨progress_step hcalm hl hc, history_append hc⟩
  | maintain n now compacted =>
    obtain rfl := Option.some.inj hs
    have hc : s.cluster.step (fun _ => 0) (.cleanup n now) =
        some (maintain s n now compacted).cluster := rfl
    have hcleanup : CalmStep L members s.cluster (.cleanup n now) := trivial
    exact ⟨progress_step hcalm hcleanup hc, history_append hc⟩
  | restart n now membership ring =>
    simp only [Durable.step, Option.map_eq_some_iff] at hs
    obtain ⟨c', hc, rfl⟩ := hs
    exact ⟨progress_restart ((h.faithful n).recovered now) hc, history_append hc⟩

/-- Reading the keys of a node changes no record. -/
theorem inv_keysAt {s : Durable.State} (h : Durable.Inv L members s) (n pattern : String)
    (clock : Time) : Durable.Inv L members (keysAt s n pattern clock).1 ∧
      Onward L members s.cluster (keysAt s n pattern clock).1.cluster := by
  have hcalm := h.reads.calm
  have hc : s.cluster.step (fun _ => 0) (.cleanup n clock) =
      some (keysAt s n pattern clock).1.cluster := rfl
  have hl : CalmStep L members s.cluster (.cleanup n clock) := trivial
  have hrecords : ∀ m, SameRecords (s.cluster.nodes m)
      ((keysAt s n pattern clock).1.cluster.nodes m) :=
    rel_update SameRecords.refl (unwritten_cleanup (hcalm.plain n) clock).records
  exact ⟨⟨reads_step h.reads hl hc, built_step hcalm h.built hl hc, fun m =>
    (h.faithful m).of_records (hrecords m)⟩, progress_step hcalm hl hc, history_append hc⟩

/-- The keys of a node are those it has records of. -/
theorem mem_keysAt {s : Durable.State} (h : Calm L members s.cluster) (n pattern : String)
    (clock : Time) (k : String) : k ∈ (keysAt s n pattern clock).2 ↔
      KVStore.matchesPattern pattern k ∧ ∃ m, (s.cluster.nodes n).store.get? k = some m := by
  have hkeys : (keysAt s n pattern clock).2 =
      ((s.cluster.nodes n).store.cleanupExpired clock).store.keys.filter
        (KVStore.matchesPattern pattern) := rfl
  have hclean := (unwritten_cleanup (h.plain n) clock).records k
  have hget : ((s.cluster.nodes n).store.cleanupExpired clock).store.get? k =
      (s.cluster.nodes n).store.get? k := hclean
  rw [hkeys, List.mem_filter, Dict.mem_keys_iff, hget, and_comm, Option.ne_none_iff_exists']

/-- A node that holds `w` lists its key. -/
theorem mem_keysAt_of_holds {s : Durable.State} (h : Calm L members s.cluster) {r : String}
    {w : LogEntry} (hr : Holds s.cluster r w) {pattern : String}
    (hmatch : KVStore.matchesPattern pattern w.key) (clock : Time) :
    w.key ∈ (keysAt s r pattern clock).2 := by
  refine (mem_keysAt h r pattern clock w.key).mpr ⟨hmatch, ?_⟩
  unfold Holds at hr
  cases hm : (s.cluster.nodes r).store.get? w.key with
  | some m => exact ⟨m, rfl⟩
  | none =>
    rw [rank_of_none hm, le_bot_iff] at hr
    cases hr

/-- A key that is listed was written. -/
theorem sound_keysAt {s : Durable.State} (h : Calm L members s.cluster) {r pattern k : String}
    {clock : Time} (hk : k ∈ (keysAt s r pattern clock).2) : KVStore.matchesPattern pattern k ∧
      ∃ e, Event.issued L e ∈ s.cluster.history ∧ e.key = k := by
  obtain ⟨hmatch, m, hm⟩ := (mem_keysAt h r pattern clock k).mp hk
  obtain ⟨e, he, hkey, -⟩ := h.records.backed r k m hm
  exact ⟨hmatch, e, he, hkey⟩

/-- The answer of one more node. -/
theorem Worth.heard {s : Durable.State} (h : Calm L members s.cluster) {x : KeysTask}
    (hx : Worth L members s.cluster x) (r : String) (rest : List String) (clock : Time) :
    Worth L members s.cluster { x with
      rest := rest, keys := x.keys ++ (keysAt s r x.pattern clock).2
      heard := x.heard ++ [r] } := by
  refine ⟨hx.since, fun w hw hmatch => ?_, fun k hk => ?_⟩
  · obtain ⟨Q, hQ, hkeys⟩ := hx.complete w hw hmatch
    refine ⟨Q, hQ, fun q hq hqQ => ?_⟩
    rcases List.mem_append.mp hq with hq | hq
    · exact List.mem_append_left _ (hkeys q hq hqQ)
    · obtain rfl := List.mem_singleton.mp hq
      exact List.mem_append_right _ (mem_keysAt_of_holds h (hQ.2.2 q hqQ) hmatch clock)
  · rcases List.mem_append.mp hk with hk | hk
    · exact hx.sound k hk
    · exact sound_keysAt h hk

/-- A listing that begins. -/
theorem worth_begin {s : Durable.State} (h : Calm L members s.cluster) (n pattern : String)
    (rest : List String) (clock : Time) : Worth L members s.cluster
      { node := n, pattern := pattern, rest := rest, keys := (keysAt s n pattern clock).2
        heard := [n], since := s.cluster.history.length } := by
  refine ⟨le_refl _, fun w hw hmatch => ?_, fun k hk => sound_keysAt h hk⟩
  rw [List.take_length] at hw
  obtain ⟨Q, hQ⟩ := acked_held h hw
  refine ⟨Q, hQ, fun q hq hqQ => ?_⟩
  obtain rfl := List.mem_singleton.mp hq
  exact mem_keysAt_of_holds h (hQ.2.2 q hqQ) hmatch clock

/-- The cluster goes on, and one listing changes. -/
theorem Inv.changed {s : State} (h : Inv L members s) {base : Durable.State}
    (hbase : Durable.Inv L members base) (honward : Onward L members s.base.cluster base.cluster)
    (thread : String) {y : Option KeysTask}
    (hy : ∀ x, y = some x → Worth L members base.cluster x) :
    Inv L members (setListing { s with base := base } thread y) := by
  refine ⟨hbase, fun thread' x hx => ?_, fun x hx => (h.answered x hx).onward honward⟩
  have hx : Function.update s.listings thread y thread' = some x := hx
  by_cases hthread : thread' = thread
  · subst hthread
    rw [Function.update_self] at hx
    exact hy x hx
  · rw [Function.update_of_ne hthread] at hx
    exact (h.listings thread' x hx).onward honward

theorem Onward.refl (c : Cluster) : Onward L members c c :=
  ⟨.same (fun _ => .refl _) fun _ _ he => he, [], (List.append_nil _).symm⟩

theorem mem_surviving {listings : String → Option KeysTask} {l : Durable.Label} {thread : String}
    {x : KeysTask} (hx : surviving listings l thread = some x) : listings thread = some x := by
  cases l with
  | restart n now membership ring => exact (Option.filter_eq_some_iff.mp hx).1
  | _ => exact hx

theorem Worth.dropped {c : Cluster} {x : KeysTask} (h : Worth L members c x) (rest : List String) :
    Worth L members c { x with rest := rest } := ⟨h.since, h.complete, h.sound⟩

theorem pairwise_listed (x : KeysTask) : x.listed.Pairwise (· < ·) := by
  have hsorted : x.listed.Pairwise fun a b => decide (a ≤ b) = true :=
    List.pairwise_mergeSort
      (fun a b c hab hbc => by
        simp only [decide_eq_true_eq] at hab hbc ⊢
        exact le_trans hab hbc)
      (fun a b => by
        simp only [Bool.or_eq_true, decide_eq_true_eq]
        exact le_total a b) x.keys.dedup
  have hnodup : x.listed.Nodup :=
    (List.mergeSort_perm _ _).nodup_iff.mpr (List.nodup_dedup x.keys)
  refine (hsorted.and hnodup).imp fun h => ?_
  exact lt_of_le_of_ne (of_decide_eq_true h.1) h.2

theorem inv_step {s s' : State} {l : Label} (h : Inv L members s) (hl : CalmListing L members s l)
    (hs : step hash s l = some s') : Inv L members s' := by
  cases l with
  | run l =>
    simp only [step, Option.map_eq_some_iff] at hs
    obtain ⟨base, hbase, rfl⟩ := hs
    have honward := onward_run h.base hl hbase
    exact ⟨Durable.inv_step h.base hl hbase, fun thread x hx =>
      (h.listings thread x (mem_surviving hx)).onward honward, fun x hx =>
      (h.answered x hx).onward honward⟩
  | begin thread n pattern clock =>
    simp only [step, Option.ite_none_left_eq_some, Option.some.injEq] at hs
    obtain ⟨-, rfl⟩ := hs
    obtain ⟨hbase, honward⟩ := inv_keysAt h.base n pattern clock
    refine h.changed hbase honward thread fun x hx => ?_
    obtain rfl := Option.some.inj hx
    exact (worth_begin h.base.reads.calm n pattern _ clock).onward honward
  | ask thread d clock =>
    simp only [step] at hs
    split at hs
    · rename_i x hx
      have hworth := h.listings thread x hx
      split at hs
      · cases hs
      · rename_i r rest hrest
        obtain ⟨hbase, honward⟩ := inv_keysAt h.base r x.pattern clock
        have hdropped := hworth.dropped rest
        cases d with
        | unsent =>
          obtain rfl := Option.some.inj hs
          exact h.changed h.base (.refl _) thread fun y hy => Option.some.inj hy ▸ hdropped
        | sent =>
          obtain rfl := Option.some.inj hs
          exact h.changed h.base (.refl _) thread fun y hy => Option.some.inj hy ▸ hdropped
        | handled =>
          obtain rfl := Option.some.inj hs
          exact h.changed hbase honward thread fun y hy =>
            Option.some.inj hy ▸ hdropped.onward honward
        | answered =>
          obtain rfl := Option.some.inj hs
          exact h.changed hbase honward thread fun y hy =>
            Option.some.inj hy ▸ (hworth.heard h.base.reads.calm r rest clock).onward honward
    · cases hs
  | finish thread =>
    simp only [step] at hs
    split at hs
    · rename_i x hx
      simp only [Option.ite_none_right_eq_some, Option.some.injEq] at hs
      obtain ⟨-, rfl⟩ := hs
      have hworth := h.listings thread x hx
      have hended : Inv L members { s with answered := s.answered ++ [x] } := by
        refine ⟨h.base, h.listings, fun y hy => ?_⟩
        rcases List.mem_append.mp hy with hy | hy
        · exact h.answered y hy
        · exact List.mem_singleton.mp hy ▸ hworth
      exact hended.changed h.base (.refl _) thread fun y hy => by cases hy
    · cases hs

/-! ## Runs -/

/-- **What KEYS answers**: in every run of a healthy cluster with maintenance and restarts of
    followers, a KEYS that has heard a majority of the members lists every matching key of which a
    write had been acknowledged when it began; it lists no key but those that match and were
    written; and its answer has each of them once, in order. -/
theorem keys_listed {s t : State} {ls : List Label} (h : Starts L members s.base)
    (hidle : ∀ thread, s.listings thread = none) (hnone : s.answered = [])
    (hl : Along (step hash) (CalmListing L members) s ls) (he : exec (step hash) s ls = some t)
    {x : KeysTask} (hx : x ∈ t.answered) :
    (∀ w, Acked (t.base.cluster.history.take x.since) w →
        KVStore.matchesPattern x.pattern w.key →
          members.card / 2 + 1 ≤ (x.heard.toFinset ∩ members).card → w.key ∈ x.listed) ∧
      (∀ k ∈ x.listed, KVStore.matchesPattern x.pattern k ∧
        ∃ e, Event.issued L e ∈ t.base.cluster.history ∧ e.key = k) ∧
      x.listed.Pairwise (· < ·) := by
  have hstart : Inv L members s := by
    refine ⟨h.inv, fun thread y hy => ?_, fun y hy => ?_⟩
    · rw [hidle] at hy
      cases hy
    · rw [hnone] at hy
      cases hy
  have ht : Inv L members t := exec_inv_along (fun _ _ _ h hl hs => inv_step h hl hs) hstart hl he
  have hworth := ht.answered x hx
  have hmem : ∀ {k}, k ∈ x.listed ↔ k ∈ x.keys := by
    intro k
    rw [KeysTask.listed, List.mem_mergeSort, List.mem_dedup]
  refine ⟨fun w hw hmatch hheard => ?_, fun k hk => hworth.sound k (hmem.mp hk),
    pairwise_listed x⟩
  obtain ⟨Q, ⟨hQ, hcard, -⟩, hkeys⟩ := hworth.complete w hw hmatch
  have hsubset : x.heard.toFinset ∩ members ⊆ members := Finset.inter_subset_right
  obtain ⟨r, hrQ, hr⟩ := majorities_meet hQ hsubset (by omega) (by omega)
  exact hmem.mpr (hkeys r (List.mem_toFinset.mp (Finset.mem_inter.mp hr).1) hrQ)

end Steps

/-! ### A list from two of three nodes -/

def noListings : State :=
  { base := emptyDisks, listings := fun _ => none, answered := [] }

/-- `a` writes with `b`; then `c` lists its keys and those of `b`, and cannot reach `a`. -/
def writeThenList : List Label :=
  (electionOf "a" "b" "c" ++ setOf "a" 1 [.answered, .unsent]).map (fun l => .run (.run l)) ++
    [.begin "t" "c" "k*" 4, .ask "t" .unsent 4, .run (.restart "b" 5 (sample.nodes "b").membership
      (sample.nodes "b").ring), .ask "t" .answered 6, .finish "t"]

def taskOfC : KeysTask :=
  { node := "c", pattern := "k*", rest := [], keys := ["k"], heard := ["c", "b"], since := 5 }

theorem keys_listed_sample :
    ∃ t, exec (step fun _ => 0) noListings writeThenList = some t ∧
      t.answered = [taskOfC] ∧ "k" ∈ taskOfC.listed := by
  have hrun : (exec (step fun _ => 0) noListings writeThenList).map
      (fun t => (t.base.cluster.history[4]?, t.answered)) =
      some (some (.replied "a" setOfA (.ok (.str "OK"))), [taskOfC]) := rfl
  obtain ⟨t, ht, hobs⟩ := Option.map_eq_some_iff.mp hrun
  obtain ⟨hreplied, hanswered⟩ := Prod.mk.inj hobs
  have hcalm : Along (step fun _ => 0) (CalmListing "a" {"a", "b", "c"}) noListings
      writeThenList := by decide
  have hacked : Acked (t.base.cluster.history.take taskOfC.since) setOfA := by
    refine ⟨"a", .ok (.str "OK"), List.mem_of_getElem? (i := 4) ?_, rfl⟩
    rw [List.getElem?_take_of_lt (by decide), hreplied]
  have hstart : Starts "a" {"a", "b", "c"} noListings.base := ⟨calmStart_sample, fun _ => rfl⟩
  have hx : taskOfC ∈ t.answered := by
    rw [hanswered]
    exact List.mem_singleton_self _
  exact ⟨t, ht, hanswered, (keys_listed hstart (fun _ => rfl) rfl hcalm ht hx).1 setOfA hacked
    (by decide) (by decide)⟩

end Listing

end MiniDb
