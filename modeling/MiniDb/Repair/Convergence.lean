/-
  Anti-entropy between any number of nodes (`repair/anti_entropy.py`): the repair threads of all
  nodes, step by step and in any interleaving.

  A cycle compares the root hash of the tree it built when it began with each peer in turn; where
  they differ it reads its own data, asks the peer for everything, and applies what is newer than
  the data it read. All of this may be out of date by then: other cycles run, and updates that are
  on their way still arrive. A peer may not answer, and a pull may break off.

  `cycles_converge`: a node that has pulled from all others holds the newest version of every key,
  whatever the interleaving; so all such nodes agree. A hash of the own tree that is out of date
  does no harm, since versions never decrease.

  As in `Repair.AntiEntropy`, the callbacks that ask a peer answer with its root hash and its data.
-/
import MiniDb.Lib.Steps
import MiniDb.Repair.AntiEntropy
import Mathlib.Logic.Function.Basic

namespace MiniDb.RepairCycles

open Lib MerkleTree Merge AntiEntropyManager

/-- Where a cycle is. -/
inductive Phase where
  /-- It comes to the next peer. -/
  | next
  /-- The hashes differ; the peer's data are to be asked for. -/
  | differs (peer : String)
  /-- The items still to be applied, with the data read before they were asked for. -/
  | applying (peer : String) (localData : KeyValues Json) (items : List (String × (Json × Int)))

/-- `_run_repair_cycle` at one node. -/
structure Cycle where
  localHash : Option String
  /-- What the tree was built from; no step reads it. -/
  built : KeyValues Json
  peers : List String
  phase : Phase

structure State where
  nodes : String → Node
  cycles : String → Option Cycle := fun _ => none
  /-- The peers a node has found equal or pulled from; no step reads it. -/
  pulledFrom : String → List String := fun _ => []

inductive Label where
  | begin (i : String) (now : Time) (peers : List String)
  /-- The next peer is the node itself. -/
  | skip (i : String)
  /-- The hash of the next peer is asked for. -/
  | compare (i : String) (now : Time)
  /-- The own data are read at `now`, those of the peer at `answered`. -/
  | fetch (i : String) (now answered : Time)
  | apply (i : String) (now : Time)
  | endPull (i : String)
  /-- The next peer does not answer, or the pull raises. -/
  | fail (i : String)
  | endCycle (i : String)
  /-- An update arrives that was on its way. -/
  | arrive (i : String) (now : Time) (u : Versioned)

def setNode (s : State) (i : String) (n : Node) : State :=
  { s with nodes := Function.update s.nodes i n }

def setCycle (s : State) (i : String) (c : Option Cycle) : State :=
  { s with cycles := Function.update s.cycles i c }

def notePulled (s : State) (i peer : String) : State :=
  { s with pulledFrom := Function.update s.pulledFrom i (s.pulledFrom i ++ [peer]) }

variable (hash : String → String) (str : Json → String)

def beginCycle (s : State) (i : String) (now : Time) (peers : List String) : State :=
  let (n, data) := (s.nodes i).getDataForRepair now
  setCycle (setNode s i n) i
    (some { localHash := rootOf hash str data, built := data, peers := peers, phase := .next })

/-- The peer is compared with, and `rest` come after it. -/
def compareWith (s : State) (i : String) (c : Cycle) (peer : String) (rest : List String)
    (now : Time) : State :=
  let (n, data) := (s.nodes peer).getDataForRepair now
  let s := setNode s peer n
  match rootOf hash str data with
  | none => notePulled (setCycle s i (some { c with peers := rest })) i peer
  | some remoteHash =>
    if c.localHash = some remoteHash then
      notePulled (setCycle s i (some { c with peers := rest })) i peer
    else setCycle s i (some { c with peers := rest, phase := .differs peer })

def fetchFrom (s : State) (i : String) (c : Cycle) (peer : String) (now answered : Time) : State :=
  let (n, localData) := (s.nodes i).getDataForRepair now
  let s := setNode s i n
  let (n, data) := (s.nodes peer).getDataForRepair answered
  setCycle (setNode s peer n) i (some { c with phase := .applying peer localData data.items })

/-- What becomes of the cycle `c` at `i`. -/
def cycleStep (s : State) (i : String) (c : Cycle) : Label → Option State
  | .skip _ =>
    match c.phase, c.peers with
    | .next, peer :: rest =>
      if peer = (s.nodes i).nodeId then some (setCycle s i (some { c with peers := rest }))
      else none
    | _, _ => none
  | .compare _ now =>
    match c.phase, c.peers with
    | .next, peer :: rest =>
      if peer = (s.nodes i).nodeId then none
      else some (compareWith hash str s i c peer rest now)
    | _, _ => none
  | .fetch _ now answered =>
    match c.phase with
    | .differs peer => some (fetchFrom s i c peer now answered)
    | _ => none
  | .apply _ now =>
    match c.phase with
    | .applying peer localData (item :: items) =>
      some (setCycle (setNode s i (repairKey (fun _ => now) localData (s.nodes i) item)) i
        (some { c with phase := .applying peer localData items }))
    | _ => none
  | .endPull _ =>
    match c.phase with
    | .applying peer _ [] => some (notePulled (setCycle s i (some { c with phase := .next })) i peer)
    | _ => none
  | .fail _ =>
    match c.phase with
    | .next => some (setCycle s i (some { c with peers := c.peers.tail }))
    | _ => some (setCycle s i (some { c with phase := .next }))
  | .endCycle _ =>
    match c.phase, c.peers with
    | .next, [] => some (setCycle s i none)
    | _, _ => none
  | _ => none

def Label.node : Label → String
  | .begin i _ _ => i
  | .skip i => i
  | .compare i _ => i
  | .fetch i _ _ => i
  | .apply i _ => i
  | .endPull i => i
  | .fail i => i
  | .endCycle i => i
  | .arrive i _ _ => i

def step (s : State) (l : Label) : Option State :=
  match l with
  | .begin i now peers =>
    if (s.cycles i).isSome then none else some (beginCycle hash str s i now peers)
  | .arrive i now u => some (setNode s i ((s.nodes i).storeUnlessOlder now u).1)
  | l => (s.cycles l.node).bind fun c => cycleStep hash str s l.node c l

/-! ## Versions -/

/-- The value and version of a key at a node. -/
def entry (s : State) (i k : String) : Option (Json × Int) := (dataOf (s.nodes i)).get? k

/-- The version; 0 where there is none. -/
def version (e : Option (Json × Int)) : Int := (e.map Prod.snd).getD 0

/-- The entry was at some node at the start. -/
def Origin (s₀ : State) (k : String) (e : Json × Int) : Prop := ∃ p, entry s₀ p k = some e

/-- Nothing that `p` had at the start is newer. -/
def Covers (s₀ : State) (p : String) (d : KeyValues Json) : Prop :=
  ∀ k, version (entry s₀ p k) ≤ version (d.get? k)

/-- No key is older in `d'`. -/
def Older (d d' : KeyValues Json) : Prop := ∀ k, version (d.get? k) ≤ version (d'.get? k)

/-- What a step may do to a node: some keys get entries that are not older. -/
structure Grows (s₀ : State) (n n' : Node) : Prop where
  noExpiry : NoExpiry n'
  entries : ∀ k, (dataOf n').get? k = (dataOf n).get? k ∨
    ∃ e, (dataOf n').get? k = some e ∧ Origin s₀ k e ∧ version ((dataOf n).get? k) ≤ e.2

def GoodPhase (s₀ : State) (d : KeyValues Json) : Phase → Prop
  | .applying p localData items =>
    Older localData d ∧ (∀ x ∈ items, Origin s₀ x.1 x.2) ∧
      ∀ k, version (entry s₀ p k) ≤ version (d.get? k) ∨
        ∃ e, (k, e) ∈ items ∧ version (entry s₀ p k) ≤ e.2
  | _ => True

/-- A cycle of a node with the data `d`. -/
structure Good (s₀ : State) (d : KeyValues Json) (c : Cycle) : Prop where
  localHash : c.localHash = rootOf hash str c.built
  built : Older c.built d
  phase : GoodPhase s₀ d c.phase

structure Converging (s₀ s : State) : Prop where
  noExpiry : ∀ i, NoExpiry (s.nodes i)
  origin : ∀ i k e, entry s i k = some e → Origin s₀ k e
  later : ∀ i, Covers s₀ i (dataOf (s.nodes i))
  cycles : ∀ i c, s.cycles i = some c → Good hash str s₀ (dataOf (s.nodes i)) c
  pulled : ∀ i, ∀ p ∈ s.pulledFrom i, Covers s₀ p (dataOf (s.nodes i))

/-- The updates that arrive were stored somewhere, and do not expire. -/
def WellFormed (s₀ : State) : Label → Prop
  | .arrive _ _ u => Origin s₀ u.key (u.value, u.version) ∧ u.expiresAt = none
  | _ => True

/-- A comparison does not take different data for equal. -/
def Tells (s : State) : Label → Prop
  | .compare i _ => ∀ c peer rest, s.cycles i = some c → c.peers = peer :: rest →
      RootsTell hash str c.built (dataOf (s.nodes peer))
  | _ => True

/-- Versions count from 1. -/
def Positive (s₀ : State) : Prop := ∀ p k e, entry s₀ p k = some e → 1 ≤ e.2

/-! ## What a step does to a node -/

section Nodes

variable {s₀ : State} {n n' n'' : Node}

theorem Grows.refl (h : NoExpiry n) : Grows s₀ n n := ⟨h, fun _ => .inl rfl⟩

theorem Grows.older (h : Grows s₀ n n') : Older (dataOf n) (dataOf n') := by
  intro k
  rcases h.entries k with heq | ⟨e, he, -, hle⟩
  · rw [heq]
  · rw [he]
    exact hle

theorem Grows.read (h : NoExpiry n) (now : Time) : Grows s₀ n (n.getDataForRepair now).1 where
  noExpiry := noExpiry_getDataForRepair h now
  entries k := .inl (by rw [get?_dataOf, get?_dataOf, get?_getDataForRepair h])

/-- An update keeps what comes after it. -/
theorem afterStore_cases {now : Time} {u : Versioned} {b : Option KeyMetadata}
    (hb : ∀ m, b = some m → m.expiresAt = none) (hu : 1 ≤ u.version) :
    (afterStore now u b = b ∧ u.version ≤ version (b.map entryOf)) ∨
      ((afterStore now u b).map entryOf = some (u.value, u.version) ∧
        version (b.map entryOf) ≤ u.version) := by
  have hnew : ∀ c : Option KeyMetadata, (some (setRecord now c u.value u.setArgs)).map entryOf =
      some (u.value, u.version) := by
    intro c
    have hversion : u.version ≠ 0 := by omega
    simp [entryOf, setRecord, Versioned.setArgs, hversion]
  cases b with
  | none => exact .inr ⟨hnew none, le_trans zero_le_one hu⟩
  | some m =>
    have hcurrent : (some m).filter (fun m => !expiredBefore m.expiresAt now) = some m := by
      simp [Option.filter_some, hb m rfl]
    unfold afterStore
    rw [hcurrent]
    by_cases holder : u.sortKey < m.sortKey
    · simp only [Option.any_some, holder, decide_true, if_true]
      exact .inl ⟨trivial, version_le_of_sortKey_le (le_of_lt holder)⟩
    · simp only [Option.any_some, holder, decide_false, Bool.false_eq_true, if_false]
      exact .inr ⟨hnew (some m), version_le_of_sortKey_le (not_lt.mp holder)⟩

/-- An update that was stored somewhere. -/
theorem Grows.store (hn : NoExpiry n) (now : Time) {u : Versioned}
    (hu : Origin s₀ u.key (u.value, u.version)) (hexpiry : u.expiresAt = none)
    (hversion : 1 ≤ u.version) :
    Grows s₀ n (n.storeUnlessOlder now u).1 ∧
      u.version ≤ version ((dataOf (n.storeUnlessOlder now u).1).get? u.key) := by
  have hcases := @afterStore_cases now u _ (hn u.key) hversion
  refine ⟨⟨noExpiry_storeUnlessOlder hn now hexpiry, fun k => ?_⟩, ?_⟩
  · rw [get?_dataOf, get?_dataOf, get?_storeUnlessOlder]
    by_cases hk : k = u.key
    · subst hk
      rw [if_pos rfl]
      rcases hcases with ⟨hkept, -⟩ | ⟨hnew, hle⟩
      · exact .inl (congrArg (Option.map entryOf) hkept)
      · exact .inr ⟨_, hnew, hu, hle⟩
    · rw [if_neg hk]
      exact .inl rfl
  · rw [get?_dataOf, get?_storeUnlessOlder, if_pos rfl]
    rcases hcases with ⟨hkept, hle⟩ | ⟨hnew, -⟩
    · rw [hkept]
      exact hle
    · rw [hnew]
      exact le_refl _

/-- An item that is applied. -/
theorem Grows.repair (hn : NoExpiry n) (hpositive : Positive s₀) (now : Time)
    {localData : KeyValues Json} (hlocal : Older localData (dataOf n))
    {item : String × (Json × Int)} (hitem : Origin s₀ item.1 item.2) :
    Grows s₀ n (repairKey (fun _ => now) localData n item) ∧
      item.2.2 ≤ version ((dataOf (repairKey (fun _ => now) localData n item)).get? item.1) := by
  have hversion : 1 ≤ item.2.2 := by
    obtain ⟨p, hp⟩ := hitem
    exact hpositive p item.1 item.2 hp
  have hread : ((localData.get? item.1).getD (.null, 0)).2 = version (localData.get? item.1) := by
    cases localData.get? item.1 <;> rfl
  unfold repairKey
  dsimp only
  rw [hread]
  split
  · exact Grows.store hn now (u := repairRecord n.nodeId now item) hitem rfl hversion
  · rename_i hnew
    exact ⟨.refl hn, (not_lt.mp hnew).trans (hlocal item.1)⟩

end Nodes

/-! ## What a step keeps -/

section Steps

variable {hash : String → String} {str : Json → String} {s₀ s s' : State}

theorem Older.trans {d d' d'' : KeyValues Json} (h : Older d d') (h' : Older d' d'') :
    Older d d'' := fun k => (h k).trans (h' k)

theorem Covers.mono {p : String} {d d' : KeyValues Json} (h : Covers s₀ p d) (hd : Older d d') :
    Covers s₀ p d' := fun k => (h k).trans (hd k)

theorem Good.mono {c : Cycle} {d d' : KeyValues Json} (h : Good hash str s₀ d c)
    (hd : Older d d') : Good hash str s₀ d' c where
  localHash := h.localHash
  built := h.built.trans hd
  phase := by
    have hphase := h.phase
    cases hc : c.phase with
    | applying peer localData items =>
      rw [hc] at hphase
      obtain ⟨hlocal, horigin, hcovers⟩ := hphase
      refine ⟨hlocal.trans hd, horigin, fun k => ?_⟩
      exact (hcovers k).imp_left fun hle => hle.trans (hd k)
    | next => trivial
    | differs peer => trivial

/-- A step in which nodes grow, one cycle changes, and what is noted as pulled from is covered. -/
theorem Converging.changed (h : Converging hash str s₀ s)
    (hgrows : ∀ j, Grows s₀ (s.nodes j) (s'.nodes j)) {i : String}
    (hcycles : ∀ j, j ≠ i → s'.cycles j = s.cycles j)
    (hgood : ∀ c, s'.cycles i = some c → Good hash str s₀ (dataOf (s'.nodes i)) c)
    (hpulled : ∀ j, ∀ p ∈ s'.pulledFrom j,
      p ∈ s.pulledFrom j ∨ Covers s₀ p (dataOf (s'.nodes j))) :
    Converging hash str s₀ s' where
  noExpiry j := (hgrows j).noExpiry
  origin j k e he := by
    rcases (hgrows j).entries k with heq | ⟨e', he', horigin, -⟩
    · exact h.origin j k e (heq.symm.trans he)
    · obtain rfl := Option.some.inj (he'.symm.trans he)
      exact horigin
  later j := (h.later j).mono (hgrows j).older
  cycles j c hc := by
    by_cases hj : j = i
    · subst hj
      exact hgood c hc
    · rw [hcycles j hj] at hc
      exact (h.cycles j c hc).mono (hgrows j).older
  pulled j p hp := by
    rcases hpulled j p hp with hp | hp
    · exact (h.pulled j p hp).mono (hgrows j).older
    · exact hp

theorem Grows.trans {n n' n'' : Node} (h : Grows s₀ n n') (h' : Grows s₀ n' n'') :
    Grows s₀ n n'' where
  noExpiry := h'.noExpiry
  entries k := by
    rcases h'.entries k with heq | ⟨e, he, horigin, hle⟩
    · rw [heq]
      exact h.entries k
    · exact .inr ⟨e, he, horigin, (h.older k).trans hle⟩

theorem grows_setNode (h : ∀ j, NoExpiry (s.nodes j)) {i : String} {n : Node}
    (hn : Grows s₀ (s.nodes i) n) (j : String) : Grows s₀ (s.nodes j) ((setNode s i n).nodes j) := by
  by_cases hj : j = i
  · subst hj
    have hsame : (setNode s j n).nodes j = n := Function.update_self _ _ _
    rw [hsame]
    exact hn
  · have hother : (setNode s i n).nodes j = s.nodes j := Function.update_of_ne hj _ _
    rw [hother]
    exact .refl (h j)

theorem setNode_same (s : State) (i : String) (n : Node) : (setNode s i n).nodes i = n :=
  Function.update_self _ _ _

theorem setCycle_other (s : State) {i j : String} (hj : j ≠ i) (c : Option Cycle) :
    (setCycle s i c).cycles j = s.cycles j := Function.update_of_ne hj _ _

theorem setCycle_same (s : State) (i : String) (c : Option Cycle) :
    (setCycle s i c).cycles i = c := Function.update_self _ _ _

theorem mem_notePulled {i j peer p : String} (hp : p ∈ (notePulled s i peer).pulledFrom j) :
    p ∈ s.pulledFrom j ∨ (j = i ∧ p = peer) := by
  by_cases hj : j = i
  · subst hj
    have hsame : (notePulled s j peer).pulledFrom j = s.pulledFrom j ++ [peer] :=
      Function.update_self _ _ _
    rw [hsame, List.mem_append, List.mem_singleton] at hp
    exact hp.imp_right fun heq => ⟨rfl, heq⟩
  · have hother : (notePulled s i peer).pulledFrom j = s.pulledFrom j :=
      Function.update_of_ne hj _ _
    rw [hother] at hp
    exact .inl hp

theorem Converging.version_nonneg (h : Converging hash str s₀ s) (hpositive : Positive s₀)
    (i k : String) : 0 ≤ version ((dataOf (s.nodes i)).get? k) := by
  cases hentry : (dataOf (s.nodes i)).get? k with
  | none => exact le_refl _
  | some e =>
    obtain ⟨p, hp⟩ := h.origin i k e hentry
    exact le_trans zero_le_one (hpositive p k e hp)

theorem Converging.grows_read (h : Converging hash str s₀ s) (i : String) (now : Time) :
    Grows s₀ (s.nodes i) ((s.nodes i).getDataForRepair now).1 := .read (h.noExpiry i) now

/-- What a node reads is what it has. -/
theorem Converging.read (h : Converging hash str s₀ s) (i : String) (now : Time) :
    SameMap ((s.nodes i).getDataForRepair now).2 (dataOf (s.nodes i)) :=
  sameMap_getDataForRepair (h.noExpiry i) now

theorem older_of_sameMap {d d' : KeyValues Json} (h : SameMap d d') : Older d d' := fun k => by
  rw [h k]

theorem converging_begin (h : Converging hash str s₀ s) (i : String) (now : Time)
    (peers : List String) : Converging hash str s₀ (beginCycle hash str s i now peers) := by
  have hgrows := h.grows_read i now
  refine h.changed (grows_setNode h.noExpiry hgrows) (i := i)
    (fun j hj => setCycle_other _ hj _) (fun c hc => ?_) fun j p hp => .inl hp
  unfold beginCycle at hc
  rw [setCycle_same] at hc
  obtain rfl := Option.some.inj hc
  have hnode : (beginCycle hash str s i now peers).nodes i =
      ((s.nodes i).getDataForRepair now).1 := setNode_same _ _ _
  rw [hnode]
  exact ⟨rfl, (older_of_sameMap (h.read i now)).trans hgrows.older, trivial⟩

theorem converging_compare (h : Converging hash str s₀ s) (hpositive : Positive s₀) {i : String}
    {c : Cycle} (hc : s.cycles i = some c) (hphase : c.phase = .next) {peer : String}
    (rest : List String) (htells : RootsTell hash str c.built (dataOf (s.nodes peer)))
    (now : Time) : Converging hash str s₀ (compareWith hash str s i c peer rest now) := by
  have hgrows := grows_setNode h.noExpiry (h.grows_read peer now)
  have hgood := h.cycles i c hc
  have hdata := h.read peer now
  have hroot : rootOf hash str ((s.nodes peer).getDataForRepair now).2 =
      rootOf hash str (dataOf (s.nodes peer)) := rootOf_congr hdata
  have hkeeps : ∀ c' : Cycle, c'.localHash = c.localHash → c'.built = c.built →
      (c'.phase = .next ∨ c'.phase = .differs peer) →
      Good hash str s₀ (dataOf ((setNode s peer ((s.nodes peer).getDataForRepair now).1).nodes i))
        c' := by
    intro c' hhash hbuilt hc'
    refine ⟨?_, ?_, ?_⟩
    · rw [hhash, hbuilt]
      exact hgood.localHash
    · rw [hbuilt]
      exact hgood.built.trans (hgrows i).older
    · rcases hc' with hc' | hc' <;> rw [hc'] <;> trivial
  -- the peer counts as pulled from when it has nothing, or the same as the tree was built from
  have hcovers : rootOf hash str ((s.nodes peer).getDataForRepair now).2 = none ∨
      c.localHash = rootOf hash str ((s.nodes peer).getDataForRepair now).2 →
      Covers s₀ peer (dataOf (s.nodes i)) := by
    rintro (hnone | hequal) k
    · have hnothing := get?_of_no_root (hroot ▸ hnone) k
      have hlater := h.later peer k
      rw [hnothing] at hlater
      exact hlater.trans (h.version_nonneg hpositive i k)
    · rw [hgood.localHash, hroot] at hequal
      have hsame := htells hequal k
      have hlater := h.later peer k
      rw [← hsame] at hlater
      exact hlater.trans (hgood.built k)
  have hnoted : ∀ {s₁ : State}, s₁.pulledFrom = s.pulledFrom →
      (∀ j, Grows s₀ (s.nodes j) (s₁.nodes j)) → Covers s₀ peer (dataOf (s.nodes i)) →
      ∀ j, ∀ p ∈ (notePulled s₁ i peer).pulledFrom j,
        p ∈ s.pulledFrom j ∨ Covers s₀ p (dataOf ((notePulled s₁ i peer).nodes j)) := by
    intro s₁ hsame hs₁ hcovered j p hp
    rcases mem_notePulled hp with hp | ⟨rfl, rfl⟩
    · exact .inl (hsame ▸ hp)
    · exact .inr (hcovered.mono (hs₁ j).older)
  unfold compareWith
  dsimp only
  cases hremote : rootOf hash str ((s.nodes peer).getDataForRepair now).2 with
  | none =>
    refine h.changed hgrows (i := i) (fun j hj => setCycle_other _ hj _) (fun c' hc' => ?_)
      (hnoted rfl hgrows (hcovers (.inl hremote)))
    obtain rfl := Option.some.inj ((setCycle_same _ i _).symm.trans hc')
    exact hkeeps _ rfl rfl (.inl hphase)
  | some remoteHash =>
    dsimp only
    split
    · rename_i hequal
      refine h.changed hgrows (i := i) (fun j hj => setCycle_other _ hj _) (fun c' hc' => ?_)
        (hnoted rfl hgrows (hcovers (.inr (hequal.trans hremote.symm))))
      obtain rfl := Option.some.inj ((setCycle_same _ i _).symm.trans hc')
      exact hkeeps _ rfl rfl (.inl hphase)
    · refine h.changed hgrows (i := i) (fun j hj => setCycle_other _ hj _) (fun c' hc' => ?_)
        fun j p hp => .inl hp
      obtain rfl := Option.some.inj ((setCycle_same _ i _).symm.trans hc')
      exact hkeeps _ rfl rfl (.inr rfl)

theorem converging_fetch (h : Converging hash str s₀ s) (hpositive : Positive s₀) {i : String}
    {c : Cycle} (hc : s.cycles i = some c) (peer : String) (now answered : Time) :
    Converging hash str s₀ (fetchFrom s i c peer now answered) := by
  have hgrows₁ := grows_setNode h.noExpiry (h.grows_read i now)
  have h₁ : Converging hash str s₀ (setNode s i ((s.nodes i).getDataForRepair now).1) :=
    h.changed hgrows₁ (i := i) (fun _ _ => rfl)
      (fun c' hc' => (h.cycles i c' hc').mono (hgrows₁ i).older) fun _ _ hp => .inl hp
  generalize hs₁ : setNode s i ((s.nodes i).getDataForRepair now).1 = s₁ at h₁ hgrows₁
  have hgrows₂ := grows_setNode h₁.noExpiry (h₁.grows_read peer answered)
  have hgrows := fun j => (hgrows₁ j).trans (hgrows₂ j)
  have hdata := h₁.read peer answered
  unfold fetchFrom
  dsimp only
  rw [hs₁]
  refine h.changed hgrows (i := i) (fun j hj => ?_) (fun c' hc' => ?_) fun j p hp => ?_
  · rw [setCycle_other _ hj, ← hs₁]
    rfl
  · obtain rfl := Option.some.inj ((setCycle_same _ i _).symm.trans hc')
    have hgood := (h.cycles i c hc).mono (hgrows i).older
    refine ⟨hgood.localHash, hgood.built, ?_, fun x hx => ?_, fun k => ?_⟩
    · exact (older_of_sameMap (h.read i now)).trans (hgrows i).older
    · have hget := (hdata x.1).symm.trans ((Dict.mem_items_iff _ x.1 x.2).mp hx)
      exact h₁.origin peer x.1 x.2 hget
    · have hlater := h₁.later peer k
      cases hpeer : (dataOf (s₁.nodes peer)).get? k with
      | none =>
        rw [hpeer] at hlater
        refine .inl (hlater.trans ((h.version_nonneg hpositive i k).trans ?_))
        exact (hgrows i).older k
      | some e =>
        rw [hpeer] at hlater
        exact .inr ⟨e, (Dict.mem_items_iff _ k e).mpr ((hdata k).trans hpeer), hlater⟩
  · rw [← hs₁] at hp
    exact .inl hp

theorem converging_apply (h : Converging hash str s₀ s) (hpositive : Positive s₀) {i : String}
    {c : Cycle} (hc : s.cycles i = some c) {peer : String} {localData : KeyValues Json}
    {item : String × (Json × Int)} {items : List (String × (Json × Int))}
    (hphase : c.phase = .applying peer localData (item :: items)) (now : Time) :
    Converging hash str s₀
      (setCycle (setNode s i (repairKey (fun _ => now) localData (s.nodes i) item)) i
        (some { c with phase := .applying peer localData items })) := by
  have hgood := h.cycles i c hc
  have hitems := hgood.phase
  rw [hphase] at hitems
  obtain ⟨hlocal, horigin, hcovers⟩ := hitems
  obtain ⟨hrepair, happlied⟩ := Grows.repair (h.noExpiry i) hpositive now hlocal
    (horigin item List.mem_cons_self)
  have hgrows := grows_setNode h.noExpiry hrepair
  refine h.changed hgrows (i := i) (fun j hj => setCycle_other _ hj _) (fun c' hc' => ?_)
    fun j p hp => .inl hp
  obtain rfl := Option.some.inj ((setCycle_same _ i _).symm.trans hc')
  have hnode : (setCycle (setNode s i (repairKey (fun _ => now) localData (s.nodes i) item)) i
      (some { c with phase := .applying peer localData items })).nodes i =
        repairKey (fun _ => now) localData (s.nodes i) item := setNode_same _ _ _
  rw [hnode]
  refine ⟨hgood.localHash, hgood.built.trans hrepair.older, hlocal.trans hrepair.older,
    fun x hx => horigin x (List.mem_cons_of_mem _ hx), fun k => ?_⟩
  rcases hcovers k with hle | ⟨e, hmem, hle⟩
  · exact .inl (hle.trans (hrepair.older k))
  · rcases List.mem_cons.mp hmem with rfl | hmem
    · exact .inl (hle.trans happlied)
    · exact .inr ⟨e, hmem, hle⟩

/-- A step that changes the cycle of `i` only. -/
theorem Converging.setCycle (h : Converging hash str s₀ s) (i : String) (c' : Option Cycle)
    (hgood : ∀ c, c' = some c → Good hash str s₀ (dataOf (s.nodes i)) c) :
    Converging hash str s₀ (setCycle s i c') :=
  h.changed (fun j => .refl (h.noExpiry j)) (fun _ hj => setCycle_other s hj c')
    (fun c hc => hgood c ((setCycle_same s i c').symm.trans hc)) fun _ _ hp => .inl hp

theorem converging_endPull (h : Converging hash str s₀ s) {i : String} {c : Cycle}
    (hc : s.cycles i = some c) {peer : String} {localData : KeyValues Json}
    (hphase : c.phase = .applying peer localData []) :
    Converging hash str s₀
      (notePulled (setCycle s i (some { c with phase := .next })) i peer) := by
  have hgood := h.cycles i c hc
  have hitems := hgood.phase
  rw [hphase] at hitems
  have hcovers : Covers s₀ peer (dataOf (s.nodes i)) := fun k =>
    (hitems.2.2 k).resolve_right fun ⟨_, hmem, _⟩ => by cases hmem
  refine h.changed (fun j => .refl (h.noExpiry j)) (i := i)
    (fun j hj => setCycle_other _ hj _) (fun c' hc' => ?_) fun j p hp => ?_
  · obtain rfl := Option.some.inj ((setCycle_same _ i _).symm.trans hc')
    exact ⟨hgood.localHash, hgood.built, trivial⟩
  · rcases mem_notePulled hp with hp | ⟨rfl, rfl⟩
    · exact .inl hp
    · exact .inr hcovers

/-- A step of the cycle at `i`. -/
theorem converging_cycleStep (h : Converging hash str s₀ s) (hpositive : Positive s₀)
    {l : Label} {c : Cycle} (hc : s.cycles l.node = some c) (htells : Tells hash str s l)
    (hs : cycleStep hash str s l.node c l = some s') : Converging hash str s₀ s' := by
  have hgood := h.cycles l.node c hc
  cases l with
  | begin i now peers => cases hs
  | arrive i now u => cases hs
  | skip i =>
    obtain ⟨localHash, built, peers, phase⟩ := c
    cases phase with
    | next =>
      cases peers with
      | nil => cases hs
      | cons peer rest =>
        simp only [cycleStep, Option.ite_none_right_eq_some, Option.some.injEq] at hs
        rw [← hs.2]
        exact h.setCycle i _ fun c' hc' => Option.some.inj hc' ▸ ⟨hgood.localHash, hgood.built,
          trivial⟩
    | differs peer => cases hs
    | applying peer localData items => cases hs
  | compare i now =>
    obtain ⟨localHash, built, peers, phase⟩ := c
    cases phase with
    | next =>
      cases peers with
      | nil => cases hs
      | cons peer rest =>
        simp only [cycleStep, Option.ite_none_left_eq_some, Option.some.injEq] at hs
        rw [← hs.2]
        exact converging_compare h hpositive hc rfl rest (htells _ peer rest hc rfl) now
    | differs peer => cases hs
    | applying peer localData items => cases hs
  | fetch i now answered =>
    obtain ⟨localHash, built, peers, phase⟩ := c
    cases phase with
    | differs peer =>
      obtain rfl := Option.some.inj hs
      exact converging_fetch h hpositive hc peer now answered
    | next => cases hs
    | applying peer localData items => cases hs
  | apply i now =>
    obtain ⟨localHash, built, peers, phase⟩ := c
    cases phase with
    | applying peer localData items =>
      cases items with
      | nil => cases hs
      | cons item items =>
        obtain rfl := Option.some.inj hs
        exact converging_apply h hpositive hc rfl now
    | next => cases hs
    | differs peer => cases hs
  | endPull i =>
    obtain ⟨localHash, built, peers, phase⟩ := c
    cases phase with
    | applying peer localData items =>
      cases items with
      | nil =>
        obtain rfl := Option.some.inj hs
        exact converging_endPull h hc rfl
      | cons item items => cases hs
    | next => cases hs
    | differs peer => cases hs
  | fail i =>
    obtain ⟨localHash, built, peers, phase⟩ := c
    have hfailed : ∀ ps, Converging hash str s₀
        (RepairCycles.setCycle s i (some ⟨localHash, built, ps, .next⟩)) := fun ps =>
      h.setCycle i _ fun c' hc' => Option.some.inj hc' ▸ ⟨hgood.localHash, hgood.built, trivial⟩
    cases phase with
    | next =>
      obtain rfl := Option.some.inj hs
      exact hfailed _
    | differs peer =>
      obtain rfl := Option.some.inj hs
      exact hfailed _
    | applying peer localData items =>
      obtain rfl := Option.some.inj hs
      exact hfailed _
  | endCycle i =>
    obtain ⟨localHash, built, peers, phase⟩ := c
    cases phase with
    | next =>
      cases peers with
      | nil =>
        obtain rfl := Option.some.inj hs
        exact h.setCycle i none fun c' hc' => by cases hc'
      | cons peer rest => cases hs
    | differs peer => cases hs
    | applying peer localData items => cases hs

theorem converging_step (h : Converging hash str s₀ s) (hpositive : Positive s₀) {l : Label}
    (hl : WellFormed s₀ l) (htells : Tells hash str s l) (hs : step hash str s l = some s') :
    Converging hash str s₀ s' := by
  have hcycle : (s.cycles l.node).bind (fun c => cycleStep hash str s l.node c l) = some s' →
      Converging hash str s₀ s' := by
    intro hs
    obtain ⟨c, hc, hs⟩ := Option.bind_eq_some_iff.mp hs
    exact converging_cycleStep h hpositive hc htells hs
  cases l with
  | begin i now peers =>
    simp only [step, Option.ite_none_left_eq_some, Option.some.injEq] at hs
    rw [← hs.2]
    exact converging_begin h i now peers
  | arrive i now u =>
    obtain rfl := Option.some.inj hs
    obtain ⟨p, hp⟩ := hl.1
    have hstored := (Grows.store (h.noExpiry i) now hl.1 hl.2 (hpositive p _ _ hp)).1
    have hgrows := grows_setNode h.noExpiry hstored
    exact h.changed hgrows (i := i) (fun _ _ => rfl)
      (fun c hc => (h.cycles i c hc).mono (hgrows i).older) fun _ _ hp => .inl hp
  | skip i => exact hcycle hs
  | compare i now => exact hcycle hs
  | fetch i now answered => exact hcycle hs
  | apply i now => exact hcycle hs
  | endPull i => exact hcycle hs
  | fail i => exact hcycle hs
  | endCycle i => exact hcycle hs

end Steps

/-! ## Runs -/

section Runs

variable {hash : String → String} {str : Json → String} {s₀ : State}

/-- Every node with the data of `s₀`, before any cycle. -/
structure Starts (s₀ : State) : Prop where
  noExpiry : ∀ i, NoExpiry (s₀.nodes i)
  idle : ∀ i, s₀.cycles i = none
  noted : ∀ i, s₀.pulledFrom i = []
  positive : Positive s₀
  /-- A version of a key has one value. -/
  consistent : ∀ p q k e e', entry s₀ p k = some e → entry s₀ q k = some e' → e.2 = e'.2 →
    e.1 = e'.1

theorem Starts.converging (h : Starts s₀) : Converging hash str s₀ s₀ where
  noExpiry := h.noExpiry
  origin i k e he := ⟨i, he⟩
  later _ _ := le_refl _
  cycles i c hc := by rw [h.idle i] at hc; cases hc
  pulled i p hp := by rw [h.noted i] at hp; cases hp

/-- The node has every key of the nodes of `members` as one of them had it at the start, in its
    newest version. -/
def Newest (s₀ : State) (members : List String) (s : State) (i : String) : Prop :=
  ∀ k, (∀ e, entry s i k = some e → Origin s₀ k e) ∧
    ∀ p ∈ members, version (entry s₀ p k) ≤ version (entry s i k)

/-- The node has pulled from all other members. -/
def PulledFromAll (members : List String) (s : State) (i : String) : Prop :=
  ∀ p ∈ members, p ≠ i → p ∈ s.pulledFrom i

theorem Converging.newest {s : State} (h : Converging hash str s₀ s) {members : List String}
    {i : String} (hpulled : PulledFromAll members s i) : Newest s₀ members s i := by
  intro k
  refine ⟨fun e he => h.origin i k e he, fun p hp => ?_⟩
  by_cases hown : p = i
  · subst hown
    exact h.later p k
  · exact h.pulled i p (hpulled p hp hown) k

/-- What a node with the newest versions has is not older elsewhere. -/
theorem Newest.version_le {s : State} {members : List String} {i j : String}
    (hmembers : ∀ p k e, entry s₀ p k = some e → p ∈ members) (hi : Newest s₀ members s i)
    (hj : Newest s₀ members s j) {k : String} {e : Json × Int} (he : entry s i k = some e) :
    e.2 ≤ version (entry s j k) := by
  obtain ⟨p, hp⟩ := (hi k).1 e he
  have hle := (hj k).2 p (hmembers p k e hp)
  rw [hp] at hle
  exact hle

/-- Two nodes with the newest versions have the same. -/
theorem Newest.same {s : State} {members : List String} {i j : String} (hs : Starts s₀)
    (hmembers : ∀ p k e, entry s₀ p k = some e → p ∈ members) (hi : Newest s₀ members s i)
    (hj : Newest s₀ members s j) : SameMap (dataOf (s.nodes i)) (dataOf (s.nodes j)) := by
  -- An entry that one of them has, with a version from 1 on, is not older at the other.
  have hget : ∀ {i j : String}, Newest s₀ members s i → Newest s₀ members s j → ∀ {k e},
      entry s i k = some e → ∃ e', entry s j k = some e' ∧ e.2 ≤ e'.2 := by
    intro i j hi hj k e he
    have hle := hi.version_le hmembers hj he
    obtain ⟨p, hp⟩ := (hi k).1 e he
    have hone := hs.positive p k e hp
    cases hentry : entry s j k with
    | none =>
      rw [hentry] at hle
      have hzero : version (none : Option (Json × Int)) = 0 := rfl
      omega
    | some e' =>
      rw [hentry] at hle
      exact ⟨e', rfl, hle⟩
  have hsame : ∀ {i j : String}, Newest s₀ members s i → Newest s₀ members s j → ∀ {k e},
      entry s i k = some e → entry s j k = some e := by
    intro i j hi hj k e he
    obtain ⟨e', he', hle⟩ := hget hi hj he
    obtain ⟨e'', he'', hle'⟩ := hget hj hi he'
    obtain rfl := Option.some.inj (he''.symm.trans he)
    have hversion : e''.2 = e'.2 := le_antisymm hle hle'
    obtain ⟨p, hp⟩ := (hi k).1 e'' he
    obtain ⟨q, hq⟩ := (hj k).1 e' he'
    have hvalue := hs.consistent p q k e'' e' hp hq hversion
    rw [he', Prod.ext hvalue hversion]
  intro k
  cases hentry : entry s i k with
  | some e => exact hentry.trans (hsame hi hj hentry).symm
  | none =>
    cases hentry' : entry s j k with
    | none => exact hentry.trans hentry'.symm
    | some e =>
      have hback := hsame hj hi hentry'
      rw [hentry] at hback
      cases hback

/-- **Repair cycles converge**: a node that has pulled from all other members holds the newest
    version of every key, and two such nodes hold the same. -/
theorem cycles_converge {members : List String} {labels : List Label} {t : State}
    (hs : Starts s₀) (hmembers : ∀ p k e, entry s₀ p k = some e → p ∈ members)
    (hlabels : ∀ l ∈ labels, WellFormed s₀ l)
    (htells : Along (step hash str) (Tells hash str) s₀ labels)
    (he : exec (step hash str) s₀ labels = some t) :
    (∀ i, PulledFromAll members t i → Newest s₀ members t i) ∧
      ∀ i j, PulledFromAll members t i → PulledFromAll members t j →
        SameMap (dataOf (t.nodes i)) (dataOf (t.nodes j)) := by
  have halong : Along (step hash str) (fun s l => Tells hash str s l ∧ WellFormed s₀ l) s₀ labels :=
    htells.and (along_of_forall (fun _ => hlabels) s₀)
  have ht : Converging hash str s₀ t :=
    exec_inv_along (fun _ _ _ h hl hstep => converging_step h hs.positive hl.2 hl.1 hstep)
      hs.converging halong he
  refine ⟨fun i hi => ht.newest hi, fun i j hi hj => ?_⟩
  exact (ht.newest hi).same hs hmembers (ht.newest hj)

end Runs

/-! ### Two cycles at the same time -/

/-- The hash of the next peer is another one. -/
def Differs (hash : String → String) (str : Json → String) (s : State) : Label → Prop
  | .compare i _ => ∀ c ∈ s.cycles i, ∀ peer ∈ c.peers.head?,
      rootOf hash str c.built ≠ rootOf hash str (dataOf (s.nodes peer))
  | _ => True

instance (hash : String → String) (str : Json → String) (s : State) (l : Label) :
    Decidable (Differs hash str s l) := by
  cases l <;> unfold Differs <;> infer_instance

theorem tells_of_differs {hash : String → String} {str : Json → String} {s : State} {l : Label}
    (h : Differs hash str s l) : Tells hash str s l := by
  cases l with
  | compare i now =>
    intro c peer rest hc hpeers hroots
    have hhead : peer ∈ c.peers.head? := by rw [hpeers]; rfl
    exact absurd hroots (h c hc peer hhead)
  | _ => trivial

def twoNodes (i : String) : Node :=
  if i = "n1" then holding "n1" "x" 1
  else if i = "n2" then holding "n2" "y" 2
  else Replica.sampleNode

/-- Both cycles begin before either of them has applied anything. -/
def twoCycles : List Label :=
  [.begin "n1" 2 ["n1", "n2"], .begin "n2" 2 ["n1", "n2"], .skip "n1", .compare "n2" 3,
    .fetch "n2" 3 3, .compare "n1" 4, .fetch "n1" 4 4, .apply "n1" 5, .apply "n2" 5,
    .endPull "n1", .endPull "n2"]

theorem entry_twoNodes {p k : String} {e : Json × Int}
    (h : entry { nodes := twoNodes } p k = some e) :
    k = "a" ∧ (p = "n1" ∧ e = (.str "x", 1) ∨ p = "n2" ∧ e = (.str "y", 2)) := by
  have hholding : ∀ {id value version}, (dataOf (holding id value version)).get? k = some e →
      k = "a" ∧ e = (.str value, (setRecord 1 none (.str value)
        { version := some version }).version) := by
    intro id value version hget
    rw [get?_dataOf, holding, KVStore.get?_set] at hget
    split at hget
    · rename_i hk
      exact ⟨hk, (Option.some.inj hget).symm⟩
    · cases hget
  simp only [entry, twoNodes] at h
  split at h
  · rename_i hp
    obtain ⟨hk, rfl⟩ := hholding h
    exact ⟨hk, .inl ⟨hp, rfl⟩⟩
  · split at h
    · rename_i hp
      obtain ⟨hk, rfl⟩ := hholding h
      exact ⟨hk, .inr ⟨hp, rfl⟩⟩
    · cases h

theorem starts_twoNodes : Starts { nodes := twoNodes } where
  noExpiry i := by
    simp only [twoNodes]
    split
    · exact noExpiry_holding _ _ _
    · split
      · exact noExpiry_holding _ _ _
      · intro k m hm
        cases hm
  idle _ := rfl
  noted _ := rfl
  positive p k e he := by
    obtain ⟨-, ⟨-, rfl⟩ | ⟨-, rfl⟩⟩ := entry_twoNodes he
    · exact le_refl 1
    · exact one_le_two
  consistent p q k e e' he he' hversion := by
    obtain ⟨-, ⟨-, rfl⟩ | ⟨-, rfl⟩⟩ := entry_twoNodes he <;>
      obtain ⟨-, ⟨-, rfl⟩ | ⟨-, rfl⟩⟩ := entry_twoNodes he' <;> cases hversion <;> rfl

theorem cycles_converge_sample : ∃ t,
    exec (step valueHash stringText) { nodes := twoNodes } twoCycles = some t ∧
      SameMap (dataOf (t.nodes "n1")) (dataOf (t.nodes "n2")) := by
  have hrun : (exec (step valueHash stringText) { nodes := twoNodes } twoCycles).isSome := by
    decide +kernel
  obtain ⟨t, ht⟩ := Option.isSome_iff_exists.mp hrun
  have hpulled : (exec (step valueHash stringText) { nodes := twoNodes } twoCycles).map
      (fun t => (t.pulledFrom "n1", t.pulledFrom "n2")) = some (["n2"], ["n1"]) := by
    decide +kernel
  rw [ht] at hpulled
  obtain ⟨hfirst, hsecond⟩ := Prod.ext_iff.mp (Option.some.inj hpulled)
  dsimp only at hfirst hsecond
  have hdiffers : Along (step valueHash stringText) (Differs valueHash stringText)
      { nodes := twoNodes } twoCycles := by decide +kernel
  have htells : Along (step valueHash stringText) (Tells valueHash stringText)
      { nodes := twoNodes } twoCycles :=
    along_inv (I := fun _ => True) (fun _ _ _ _ _ _ => trivial)
      (fun _ _ _ h => tells_of_differs h) trivial hdiffers
  have hmembers : ∀ p k e, entry { nodes := twoNodes } p k = some e → p ∈ ["n1", "n2"] := by
    intro p k e he
    obtain ⟨-, ⟨rfl, -⟩ | ⟨rfl, -⟩⟩ := entry_twoNodes he
    · exact List.mem_cons_self
    · exact List.mem_cons_of_mem _ List.mem_cons_self
  refine ⟨t, ht, (cycles_converge starts_twoNodes hmembers ?_ htells ht).2 "n1" "n2" ?_ ?_⟩
  · intro l hl
    simp only [twoCycles, List.mem_cons, List.not_mem_nil, or_false] at hl
    rcases hl with rfl | rfl | rfl | rfl | rfl | rfl | rfl | rfl | rfl | rfl | rfl <;> trivial
  · intro p hp hother
    rw [hfirst]
    simpa [hother] using hp
  · intro p hp hother
    rw [hsecond]
    simpa [hother] using hp

end MiniDb.RepairCycles
