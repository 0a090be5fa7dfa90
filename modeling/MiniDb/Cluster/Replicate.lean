/-
  A whole call of `replicate` (`cluster/replication.py`): what it answers, to whom it sends, and
  what it leaves on the table of pending requests.

  `replicate_spec`: the shared table and the counter that the sending loop updates come to plain
  counting of the followers that said yes. The loop keeps the invariant `Honest`: a request that
  is marked successful has its acknowledgements.

  The request that `replicate` holds is the one on its table, which nothing else touches during
  the call. The event is set when the request is marked successful; what waiting for it returns
  is not used.
-/
import MiniDb.Cluster.Replication

namespace MiniDb

open Lib

/-- What `_send_replicate` does for one follower. -/
inductive FollowerAnswer where
  | returned (success : Bool)
  | raised
  deriving DecidableEq

namespace ReplicationManager

variable (send : String → FollowerAnswer)

/-- `_replicate_to_followers`, not asynchronous: the manager, and to whom it has sent. -/
def replicateToFollowers (m : ReplicationManager) (logIndex : Nat) :
    List String → ReplicationManager × List String
  | [] => (m, [])
  | followerId :: followers =>
    let m := match send followerId with
      | .returned true => m.acknowledge logIndex
      | .returned false | .raised => m
    let (m, sent) := replicateToFollowers m logIndex followers
    (m, followerId :: sent)

/-- What a call leaves, answers, and to whom it has sent. -/
structure Replicated where
  manager : ReplicationManager
  answer : Bool
  sent : List String := []

/-- `replicate` -/
def replicate (m : ReplicationManager) (replicationFactor : Nat) (e : LogEntry)
    (consistency : ConsistencyLevel) (followers : List String) : Replicated :=
  match m.beginReplicate replicationFactor e consistency followers with
  | (m, some answer) => { manager := m, answer := answer }
  | (m, none) =>
    let (m, sent) := replicateToFollowers send m e.index followers
    let (m, answer) := m.endReplicate e.index
    { manager := m, answer := answer, sent := sent }

/-- `required_acks`: the local copy counts as one. -/
def requiredAcks (replicationFactor : Nat) (consistency : ConsistencyLevel) : Nat :=
  requiredTotal replicationFactor consistency - 1

/-- How many followers said yes. -/
def yesCount (followers : List String) : Nat :=
  followers.countP fun f => send f = .returned true

/-! ## The sending loop -/

/-- A request that is marked successful has its acknowledgements. -/
def Honest (r : ReplicationRequest) : Prop := r.success = true → r.requiredAcks ≤ r.receivedAcks

variable {send}

/-- An acknowledgement counts one up on the request of its index. -/
theorem acknowledge_pending {m : ReplicationManager} {pending : Dict Nat ReplicationRequest}
    {i : Nat} {r : ReplicationRequest} (hm : m.pending = pending.set i r) (hr : Honest r) :
    ∃ r', (m.acknowledge i).pending = pending.set i r' ∧ Honest r' ∧
      r'.requiredAcks = r.requiredAcks ∧ r'.receivedAcks = r.receivedAcks + 1 := by
  let r' : ReplicationRequest :=
    { r with
      receivedAcks := r.receivedAcks + 1
      success := r.success || r.requiredAcks ≤ r.receivedAcks + 1 }
  have hget : m.pending.get? i = some r := by rw [hm, Dict.get?_set_self]
  have hack : m.acknowledge i = { m with pending := m.pending.set i r' } := by
    simp only [acknowledge, hget]
    rfl
  refine ⟨r', by rw [hack, hm, Dict.set_set], fun hsuccess => ?_, rfl, rfl⟩
  rcases Bool.or_eq_true_iff.mp hsuccess with hbefore | hnow
  · exact Nat.le_succ_of_le (hr hbefore)
  · exact of_decide_eq_true hnow

/-- The loop sends to each follower in turn and counts those that say yes. -/
theorem replicateToFollowers_spec {m : ReplicationManager}
    {pending : Dict Nat ReplicationRequest} {i : Nat} {r : ReplicationRequest}
    (hm : m.pending = pending.set i r) (hr : Honest r) (followers : List String) :
    (replicateToFollowers send m i followers).2 = followers ∧
      ∃ r', (replicateToFollowers send m i followers).1.pending = pending.set i r' ∧ Honest r' ∧
        r'.requiredAcks = r.requiredAcks ∧
        r'.receivedAcks = r.receivedAcks + yesCount send followers := by
  induction followers generalizing m r with
  | nil => exact ⟨rfl, r, hm, hr, rfl, rfl⟩
  | cons f followers ih =>
    by_cases hyes : send f = .returned true
    · obtain ⟨r₁, hm₁, hr₁, hrequired, hreceived⟩ := acknowledge_pending hm hr
      obtain ⟨hsent, r', hm', hr', hrequired', hreceived'⟩ := ih hm₁ hr₁
      have hcount : yesCount send (f :: followers) = yesCount send followers + 1 :=
        List.countP_cons_of_pos (decide_eq_true hyes)
      simp only [replicateToFollowers, hyes]
      refine ⟨congrArg (f :: ·) hsent, r', hm', hr', hrequired'.trans hrequired, ?_⟩
      rw [hreceived', hreceived, hcount]
      omega
    · obtain ⟨hsent, r', hm', hr', hrequired', hreceived'⟩ := ih hm hr
      have hcount : yesCount send (f :: followers) = yesCount send followers :=
        List.countP_cons_of_neg (by simpa using hyes)
      have hskip : replicateToFollowers send m i (f :: followers) =
          ((replicateToFollowers send m i followers).1,
            f :: (replicateToFollowers send m i followers).2) := by
        rw [replicateToFollowers]
        cases hf : send f with
        | raised => rfl
        | returned success =>
          cases success with
          | true => exact absurd hf hyes
          | false => rfl
      rw [hskip, hcount]
      exact ⟨congrArg (f :: ·) hsent, r', hm', hr', hrequired', hreceived'⟩

theorem endReplicate_pending {m : ReplicationManager} {pending : Dict Nat ReplicationRequest}
    {i : Nat} {r : ReplicationRequest} (hm : m.pending = pending.set i r) (hr : Honest r)
    (hnew : pending.get? i = none) :
    (m.endReplicate i).1.pending = pending ∧
      ((m.endReplicate i).2 = true ↔ r.requiredAcks ≤ r.receivedAcks) := by
  have hget : m.pending.get? i = some r := by rw [hm, Dict.get?_set_self]
  unfold endReplicate
  rw [hget]
  constructor
  · show m.pending.erase i = pending
    rw [hm, Dict.erase_set_of_new hnew]
  · rw [Bool.or_eq_true, decide_eq_true_iff]
    exact or_iff_right_of_imp hr

/-! ## The call -/

/-- The levels at which nothing is waited for. -/
def IsAsync (consistency : ConsistencyLevel) : Prop := consistency = .one ∨ consistency = .any

/-- What the call does before it sends. -/
theorem beginReplicate_cases (m : ReplicationManager) (replicationFactor : Nat) (e : LogEntry)
    (consistency : ConsistencyLevel) (followers : List String) :
    let required := requiredAcks replicationFactor consistency
    let started := m.beginReplicate replicationFactor e consistency followers
    (IsAsync consistency ∧ ∃ m', started = (m', some true) ∧ m'.pending = m.pending) ∨
      (¬ IsAsync consistency ∧ required = 0 ∧ started = (m, some true)) ∨
      (¬ IsAsync consistency ∧ 0 < required ∧ followers.length < required ∧
        started = (m, some false)) ∨
      (¬ IsAsync consistency ∧ 0 < required ∧ required ≤ followers.length ∧
        ∃ r, started = ({ m with pending := m.pending.set e.index r }, none) ∧ Honest r ∧
          r.requiredAcks = required ∧ r.receivedAcks = 0) := by
  intro required started
  have hstarted : started = m.beginReplicate replicationFactor e consistency followers := rfl
  unfold beginReplicate at hstarted
  by_cases hasync : IsAsync consistency
  · replace hstarted := hstarted.trans (if_pos hasync)
    refine .inl ⟨hasync, ?_⟩
    split at hstarted
    · exact ⟨m, hstarted, rfl⟩
    · exact ⟨_, hstarted, rfl⟩
  · replace hstarted := hstarted.trans (if_neg hasync)
    by_cases hnone : required = 0
    · exact .inr (.inl ⟨hasync, hnone, hstarted.trans (if_pos hnone)⟩)
    · have hpos : 0 < required := Nat.pos_of_ne_zero hnone
      replace hstarted := hstarted.trans (if_neg hnone)
      by_cases hfew : followers.length < required
      · exact .inr (.inr (.inl ⟨hasync, hpos, hfew, hstarted.trans (if_pos (.inr hfew))⟩))
      · have hmany : required ≤ followers.length := Nat.le_of_not_lt hfew
        have henough : ¬ (followers = [] ∨ followers.length < required) := by
          rintro (rfl | hlt)
          · exact absurd hmany (Nat.not_le.mpr hpos)
          · exact hfew hlt
        replace hstarted := hstarted.trans (if_neg henough)
        refine .inr (.inr (.inr ⟨hasync, hpos, hmany, _, hstarted, ?_, rfl, rfl⟩))
        intro hsuccess
        cases hsuccess

/-- **A call of `replicate` counts**: it says yes exactly at level ONE or ANY, or when no
    acknowledgement is required, or when as many followers as are required have said yes. At the
    other levels it sends to no follower when there are too few, and to each in turn otherwise.
    The table of pending requests is what it was. -/
theorem replicate_spec {m : ReplicationManager} {e : LogEntry}
    (hnew : m.pending.get? e.index = none) (replicationFactor : Nat)
    (consistency : ConsistencyLevel) (followers : List String) :
    let required := requiredAcks replicationFactor consistency
    let result := m.replicate send replicationFactor e consistency followers
    (result.answer = true ↔ IsAsync consistency ∨ required = 0 ∨
        required ≤ yesCount send followers) ∧
      (¬ IsAsync consistency → 0 < required →
        result.sent = if followers.length < required then [] else followers) ∧
      result.manager.pending = m.pending := by
  intro required result
  have hresult : result = m.replicate send replicationFactor e consistency followers := rfl
  unfold replicate at hresult
  obtain ⟨hasync, m', hstarted, hpending⟩ | ⟨hsync, hnone, hstarted⟩ |
    ⟨hsync, hpos, hfew, hstarted⟩ | ⟨hsync, hpos, hmany, r, hstarted, hr, hrequired, hreceived⟩ :=
      beginReplicate_cases m replicationFactor e consistency followers
  · rw [hstarted] at hresult
    rw [hresult]
    exact ⟨iff_of_true rfl (.inl hasync), fun hsync => absurd hasync hsync, hpending⟩
  · rw [hstarted] at hresult
    rw [hresult]
    exact ⟨iff_of_true rfl (.inr (.inl hnone)),
      fun _ hpos => absurd hnone (Nat.pos_iff_ne_zero.mp hpos), rfl⟩
  · rw [hstarted] at hresult
    rw [hresult]
    have htoo : yesCount send followers < required := lt_of_le_of_lt List.countP_le_length hfew
    refine ⟨iff_of_false Bool.false_ne_true ?_, fun _ _ => (if_pos hfew).symm, rfl⟩
    rintro (hasync | hnone | hyes)
    · exact hsync hasync
    · exact absurd hnone (Nat.pos_iff_ne_zero.mp hpos)
    · exact absurd hyes (Nat.not_le.mpr htoo)
  · let m₁ : ReplicationManager := { m with pending := m.pending.set e.index r }
    have hm₁ : m₁.pending = m.pending.set e.index r := rfl
    obtain ⟨hsent, r', hm', hr', hrequired', hreceived'⟩ :=
      @replicateToFollowers_spec send _ _ _ _ hm₁ hr followers
    obtain ⟨hpending, hanswer⟩ := endReplicate_pending hm' hr' hnew
    rw [hstarted] at hresult
    rw [hrequired', hrequired, hreceived', hreceived, Nat.zero_add] at hanswer
    rw [hresult]
    refine ⟨hanswer.trans ⟨fun hyes => .inr (.inr hyes), ?_⟩, fun _ _ => ?_, hpending⟩
    · rintro (hasync | hnone | hyes)
      · exact absurd hasync hsync
      · exact absurd hnone (Nat.pos_iff_ne_zero.mp hpos)
      · exact hyes
    · rw [if_neg (Nat.not_lt.mpr hmany)]
      exact hsent

def sampleEntry : LogEntry := { term := 1, index := 1, command := .set, key := "k" }

/-- Of two followers one says yes and the other raises. -/
def sampleSend (followerId : String) : FollowerAnswer :=
  if followerId = "b" then .returned true else .raised

theorem replicate_spec_sample :
    let required := requiredAcks 3 .quorum
    let result := replicate sampleSend {} 3 sampleEntry .quorum ["b", "c"]
    (result.answer = true ↔ IsAsync .quorum ∨ required = 0 ∨
        required ≤ yesCount sampleSend ["b", "c"]) ∧
      (¬ IsAsync .quorum → 0 < required →
        result.sent = if ["b", "c"].length < required then [] else ["b", "c"]) ∧
      result.manager.pending = Dict.empty :=
  replicate_spec (m := {}) rfl 3 .quorum ["b", "c"]

end ReplicationManager

end MiniDb
