/-
  GET (`node.py`, `_handle_get` and the read callbacks), over stores that stand still while the
  read runs.

  The callback for remote reads answers for a node it cannot reach as for a node that does not
  have the key, and the read coordinator counts that answer. `enough_real_answers_iff` says for
  which reads the threshold of QUORUM and ALL is nevertheless met by replicas that really
  answered.

  At STRONG the answer of a leader that lacks the key comes out as no answer at all:
  `strong_get_iff`.
-/
import MiniDb.Cluster.ReadCoordinator
import MiniDb.Node.State

namespace MiniDb

open Lib ReadCoordinator

namespace Read

/-- A cluster while a GET runs at one of its nodes. -/
structure Setting where
  hash : String → Nat
  ring : ConsistentHashRing
  replicationFactor : Nat
  localId : String
  leaderId : Option String
  stores : String → KVStore
  /-- The node is in the membership table, takes the connection and answers. -/
  reachable : String → Bool
  now : Time

/-- `_get_local_value_for_read`, and what `_handle_local_read` answers. -/
def localValue (c : Setting) (nodeId key : String) : ReadAnswer :=
  answerOf ((c.stores nodeId).getWithMetadata c.now key).2

/-- `_get_remote_value_for_read` -/
def remoteValue (c : Setting) (key nodeId : String) : ReadAnswer :=
  if c.reachable nodeId then localValue c nodeId key else missingAnswer

/-- `get_replicas` -/
def replicas (c : Setting) (key : String) : List String :=
  c.ring.getNodes c.hash key c.replicationFactor

/-- What a GET at this node fixes when it starts. -/
def plan (c : Setting) (key : String) (level : ConsistencyLevel) : ReadPlan :=
  { localId := c.localId, key := key, level := level, replicas := replicas c key
    primaryOwner := c.leaderId, replicationFactor := c.replicationFactor }

/-- `_handle_get`; `finished` are the remote reads that complete in time, in the order they
    do. -/
def handleGet (c : Setting) (key : String) (level : ConsistencyLevel) (finished : List String) :
    Response :=
  getResponse key
    (ReadCoordinator.read (plan c key level) (localValue c c.localId key) (remoteValue c key)
      finished)

/-! ## Who really answered -/

/-- The node answered the read with its own state. -/
def Real (c : Setting) (nodeId : String) : Prop := nodeId = c.localId ∨ c.reachable nodeId

instance (c : Setting) (nodeId : String) : Decidable (Real c nodeId) := by
  unfold Real
  infer_instance

/-- The replicas whose own answers the read collected. -/
def realAnswers (c : Setting) (key : String) (level : ConsistencyLevel) (finished : List String) :
    Finset String :=
  (((collected (plan c key level) (localValue c c.localId key) (remoteValue c key)
    finished).map ReadResult.nodeId).filter fun n => Real c n).toFinset

def Success : Response → Prop
  | .ok _ => True
  | .error _ => False

theorem success_iff (key : String) (o : ReadOutcome) :
    Success (getResponse key o) ↔ o ≠ .failed := by
  cases o <;> simp [getResponse, Success]

/-- As many distinct elements of a duplicate-free list satisfy `p` as it has if and only if all
    of them do. -/
theorem length_le_card_filter_iff {l : List String} (hl : l.Nodup) (p : String → Prop)
    [DecidablePred p] : l.length ≤ (l.filter p).toFinset.card ↔ ∀ x ∈ l, p x := by
  rw [List.toFinset_card_of_nodup (hl.filter _)]
  constructor
  · intro h x hx
    rw [← List.filter_sublist.eq_of_length_le h, List.mem_filter, decide_eq_true_eq] at hx
    exact hx.2
  · intro h
    rw [List.filter_eq_self.mpr fun x hx => decide_eq_true (h x hx)]

/-- The node's own answers are real. -/
theorem real_replicate {c : Setting} {key : String} {level : ConsistencyLevel} {own : Nat} :
    ∀ n ∈ List.replicate own (plan c key level).localId, Real c n :=
  fun _ hn => .inl (List.mem_replicate.mp hn).2

/-- **Exactly when success means enough real answers**: for every key, replication factor,
    reachability, stores and order of completion, a GET at QUORUM or ALL that answers success
    has collected the answers of enough distinct replicas that really answered if and only if
    too few reads complete in time, or the first remote reads to complete, as many as are
    needed besides the local one, all come from replicas that can be reached. -/
theorem enough_real_answers_iff (c : Setting) (key : String) {level : ConsistencyLevel}
    (hlevel : level = .quorum ∨ level = .all) {finished : List String} (hnodup : finished.Nodup)
    (hremote : ∀ r ∈ finished, r ∈ replicas c key ∧ r ≠ c.localId) :
    (Success (handleGet c key level finished) →
        (plan c key level).needed ≤ (realAnswers c key level finished).card) ↔
      (localCount (plan c key level) + finished.length < (plan c key level).needed ∨
        ∀ r ∈ finished.take ((plan c key level).needed - localCount (plan c key level)),
          c.reachable r) := by
  have hread : ∀ a remote, ReadCoordinator.read (plan c key level) a remote finished =
      decideRead (plan c key level).needed (collected (plan c key level) a remote finished) := by
    intro a remote
    rcases hlevel with rfl | rfl <;> rfl
  have hreplicas : (plan c key level).replicas.Nodup :=
    ConsistentHashRing.nodup_getNodes c.hash c.ring key c.replicationFactor
  have hself : (plan c key level).localId ∉ finished := fun h => (hremote _ h).2 rfl
  have hle := localCount_le (plan c key level)
  have hnodes := collected_nodes hreplicas (localValue c c.localId key) (remoteValue c key) finished
  have hdistinct := nodup_counted hnodup hself
  have hlen := congrArg List.length hnodes
  rw [List.length_map, counted, List.length_append, List.length_replicate, List.length_take] at hlen
  rw [handleGet, success_iff, hread, ne_eq, decideRead_failed_iff, hlen, realAnswers]
  rw [hnodes, counted]
  rw [counted] at hdistinct
  generalize (plan c key level).needed = need at *
  generalize hlocalCount : localCount (plan c key level) = own at *
  by_cases hfew : own + finished.length < need
  · refine iff_of_true (fun h => absurd ?_ h) (.inl hfew)
    omega
  by_cases hlocal : need ≤ own
  · -- the local read alone is enough
    refine iff_of_true (fun _ => ?_) (.inr fun r hr => ?_)
    · refine le_trans hlocal ?_
      rw [List.toFinset_card_of_nodup (hdistinct.filter _), List.filter_append, List.length_append,
        List.filter_eq_self.mpr fun n hn => decide_eq_true (real_replicate n hn),
        List.length_replicate]
      omega
    · rw [show need - own = 0 by omega, List.take_zero] at hr
      cases hr
  · -- exactly `need` results are collected
    have htake : max 1 (need - own) = need - own := by omega
    rw [htake] at hdistinct ⊢
    have hall : (List.replicate own (plan c key level).localId ++
        finished.take (need - own)).length = need := by
      rw [List.length_append, List.length_replicate, List.length_take]
      omega
    have hreal := length_le_card_filter_iff hdistinct (Real c)
    rw [hall] at hreal
    rw [hreal, or_iff_right hfew]
    constructor
    · intro h r hr
      refine (h (by omega) r (List.mem_append_right _ hr)).resolve_left fun hown => ?_
      exact (hremote r (List.mem_of_mem_take hr)).2 hown
    · intro h _ n hn
      rcases List.mem_append.mp hn with hn | hn
      · exact real_replicate n hn
      · exact .inr (h n hn)

/-! ## STRONG reads -/

/-- The leader is known and answers. -/
def LeaderAnswers (c : Setting) (leader : String) : Prop :=
  c.leaderId = some leader ∧ leader ≠ "" ∧ Real c leader

/-- What a node holds of a key, unexpired. -/
def heldRecord (c : Setting) (nodeId key : String) : Option KeyMetadata :=
  ((c.stores nodeId).get? key).filter fun m => !expiredBefore m.expiresAt c.now

theorem localValue_eq (c : Setting) (nodeId key : String) :
    localValue c nodeId key = answerOf (heldRecord c nodeId key) := by
  rw [localValue, KVStore.getWithMetadata_snd, heldRecord]

/-- A STRONG GET reads at a leader that answers, and does not tell a key it lacks from a leader it
    cannot reach. -/
theorem handleGet_strong {c : Setting} {leader : String} (h : LeaderAnswers c leader)
    (key : String) (finished : List String) :
    handleGet c key .strong finished = match heldRecord c leader key with
      | some m => .ok m.value
      | none => .error ("Quorum read failed for key " ++ key) := by
  obtain ⟨hleader, hne, hreal⟩ := h
  have hread : readStrong c.localId c.leaderId (localValue c c.localId key) (remoteValue c key) =
      foundOf leader (answerOf (heldRecord c leader key)) := by
    unfold readStrong
    rw [hleader]
    simp only
    rw [if_neg hne]
    split
    · rename_i hself
      rw [localValue_eq, hself]
    · rename_i hself
      rw [remoteValue, if_pos (hreal.resolve_left hself), localValue_eq]
  unfold handleGet ReadCoordinator.read plan
  simp only
  rw [hread]
  cases heldRecord c leader key <;> rfl

/-- With no leader that answers, a STRONG GET is an error. -/
theorem handleGet_strong_none {c : Setting} (h : ∀ leader, ¬LeaderAnswers c leader) (key : String)
    (finished : List String) :
    handleGet c key .strong finished = .error ("Quorum read failed for key " ++ key) := by
  have hread : readStrong c.localId c.leaderId (localValue c c.localId key) (remoteValue c key) =
      none := by
    unfold readStrong
    split
    · rfl
    · rename_i leader hleader
      by_cases hne : leader = ""
      · rw [if_pos hne]
      · have hnot := h leader
        rw [LeaderAnswers] at hnot
        have hself : leader ≠ c.localId := fun hself => hnot ⟨hleader, hne, .inl hself⟩
        have hdown : ¬c.reachable leader := fun hup => hnot ⟨hleader, hne, .inr hup⟩
        rw [if_neg hne, if_neg hself, remoteValue, if_neg hdown]
        rfl
  unfold handleGet ReadCoordinator.read plan
  simp only
  rw [hread]
  rfl

/-- What a STRONG GET owes its client: the leader's value, null where the leader has none, and an
    error only where no leader answers. -/
structure StrongGetRight (c : Setting) (key : String) (finished : List String) : Prop where
  held : ∀ leader m, LeaderAnswers c leader → heldRecord c leader key = some m →
    handleGet c key .strong finished = .ok m.value
  missing : ∀ leader, LeaderAnswers c leader → heldRecord c leader key = none →
    handleGet c key .strong finished = .ok .null
  failed : ∀ e, handleGet c key .strong finished = .error e → ∀ leader, ¬LeaderAnswers c leader

/-- **Exactly when a STRONG GET is right**: for every key and node, and all stores, if and only if
    a leader that answers holds the key unexpired. A miss at the leader is answered as an
    unreachable leader is. -/
theorem strong_get_iff (c : Setting) (key : String) (finished : List String) :
    StrongGetRight c key finished ↔
      ∀ leader, LeaderAnswers c leader → heldRecord c leader key ≠ none := by
  constructor
  · intro h leader hleader hmiss
    have hnull := h.missing leader hleader hmiss
    rw [handleGet_strong hleader, hmiss] at hnull
    cases hnull
  · intro h
    refine ⟨?_, ?_, ?_⟩
    · intro leader m hleader hm
      rw [handleGet_strong hleader, hm]
    · intro leader hleader hmiss
      exact absurd hmiss (h leader hleader)
    · intro e he leader hleader
      obtain ⟨m, hm⟩ := Option.ne_none_iff_exists'.mp (h leader hleader)
      rw [handleGet_strong hleader, hm] at he
      cases he

/-! ### A null answer without a quorum -/

def threeNodeRing : ConsistentHashRing :=
  ⟨1, [(1, "n1"), (2, "n2"), (3, "n3")], {"n1", "n2", "n3"}, by decide⟩

/-- Three replicas, read at `n1`; only the nodes of `up` can be reached. -/
def threeNodes (up : List String) : Setting :=
  { hash := fun _ => 0, ring := threeNodeRing, replicationFactor := 3, localId := "n1"
    leaderId := some "n1", stores := fun _ => KVStore.empty, reachable := fun n => up.contains n
    now := 1 }

theorem enough_real_answers_iff_sample :
    (Success (handleGet (threeNodes ["n2"]) "a" .quorum ["n2", "n3"]) →
        (plan (threeNodes ["n2"]) "a" .quorum).needed ≤
          (realAnswers (threeNodes ["n2"]) "a" .quorum ["n2", "n3"]).card) ↔
      (localCount (plan (threeNodes ["n2"]) "a" .quorum) + ["n2", "n3"].length <
          (plan (threeNodes ["n2"]) "a" .quorum).needed ∨
        ∀ r ∈ ["n2", "n3"].take ((plan (threeNodes ["n2"]) "a" .quorum).needed -
          localCount (plan (threeNodes ["n2"]) "a" .quorum)), (threeNodes ["n2"]).reachable r) :=
  enough_real_answers_iff (threeNodes ["n2"]) "a" (.inl rfl) (by decide) (by decide)

/-- With both other replicas down, a QUORUM read succeeds with a null on one real answer. -/
theorem quorum_null_without_quorum :
    handleGet (threeNodes []) "a" .quorum ["n2", "n3"] = .ok .null ∧
      (plan (threeNodes []) "a" .quorum).needed = 2 ∧
      (realAnswers (threeNodes []) "a" .quorum ["n2", "n3"]).card = 1 := by
  refine ⟨rfl, rfl, ?_⟩
  decide

/-- The leader reads its own empty store and answers an error. -/
theorem strong_miss_is_error :
    LeaderAnswers (threeNodes ["n2", "n3"]) "n1" ∧
      heldRecord (threeNodes ["n2", "n3"]) "n1" "a" = none ∧
      handleGet (threeNodes ["n2", "n3"]) "a" .strong [] =
        .error "Quorum read failed for key a" ∧
      ¬StrongGetRight (threeNodes ["n2", "n3"]) "a" [] := by
  have hleader : LeaderAnswers (threeNodes ["n2", "n3"]) "n1" := ⟨rfl, by decide, .inl rfl⟩
  refine ⟨hleader, rfl, rfl, fun h => ?_⟩
  have hnull := h.missing "n1" hleader rfl
  cases hnull

end Read

end MiniDb
