/-
  Reading what has been written (`node.py`, `_handle_get` and `_apply_partition_write`), in runs
  of a healthy cluster (`Healthy.CalmStep`).

  When a write is answered with success, a majority of the members holds at least its entry, and
  goes on to. A QUORUM read collects the answers of a majority; a node in both gives the read a
  record that is at least as great as the entry (`read_after_write`), whatever failed writes and
  repairs have left elsewhere.
-/
import MiniDb.Cluster.Healthy
import MiniDb.Lib.Voting

namespace MiniDb

open Lib ReadCoordinator

namespace ReadAfterWrite

open Cluster SingleLeader Replica Healthy

variable {hash : String → Nat} {L : String} {members : Finset String}

/-- The write has been answered with success. -/
def Acked (h : List Event) (w : LogEntry) : Prop :=
  ∃ n r, Event.replied n w r ∈ h ∧ r.success = true

/-- A majority holds at least `w`. -/
def Held (members : Finset String) (s : Cluster) (w : LogEntry) (Q : Finset String) : Prop :=
  Q ⊆ members ∧ members.card / 2 + 1 ≤ Q.card ∧ ∀ r ∈ Q, Holds s r w

theorem acked_held {s : Cluster} (h : Calm L members s) {w : LogEntry} (hw : Acked s.history w) :
    ∃ Q, Held members s w Q := by
  obtain ⟨n, r, hr, hsuccess⟩ := hw
  obtain rfl := h.sole.issuer n w (h.sole.known.replied n w r hr)
  obtain ⟨happlied, fs, ⟨hn, hfs⟩, hcard⟩ := h.counted.acked n w r hr hsuccess
  have hall : ∀ f ∈ insert n fs, f ∈ members ∧ Holds s f w := by
    intro f hf
    rcases Finset.mem_insert.mp hf with rfl | hf
    · exact h.held f w happlied
    · exact h.held f w (hfs f hf)
  refine ⟨insert n fs, fun f hf => (hall f hf).1, ?_, fun f hf => (hall f hf).2⟩
  have hmembers : 0 < members.card := Finset.card_pos.mpr ⟨n, h.leader⟩
  rw [Finset.card_insert_of_notMem hn]
  refine le_trans ?_ hcard
  unfold required requiredTotal
  rw [h.factor]
  rcases h.level with hlevel | hlevel
  · simp [hlevel]
  · simp only [hlevel, true_or, if_true]
    omega

/-- The majority of a write, and what it has answered to a read. -/
def Covered (L : String) (members : Finset String) (s : Cluster)
    (answers : Dict String (ReadAnswer × Bool)) (w : LogEntry) : Prop :=
  ∃ Q, Held members s w Q ∧ ∀ r ∈ Q, ∀ a, answers.get? r = some (a, true) →
    ∃ e, Event.issued L e ∈ s.history ∧ Tells a e ∧ entryKey w ≤ entryKey e

/-- The read has failed, with too few results, or has found a record that is at least `w`. -/
def ReadsBack (L : String) (members : Finset String) (s : Cluster) (p : ReadPlan)
    (results : List ReadResult) (outcome : ReadOutcome) (w : LogEntry) : Prop :=
  (results.length < quorumSize members.card ∧ outcome = .failed) ∨
    ∃ best repairs e, outcome = .found best repairs ∧ Event.issued L e ∈ s.history ∧
      e.key = p.key ∧ best.value = e.value ∧
      sortKey best.version best.updatedAt best.coordinatorId = entryKey e ∧
      entryKey w ≤ entryKey e

theorem Covered.mono {s s' : Cluster} {answers : Dict String (ReadAnswer × Bool)} {w : LogEntry}
    (h : Covered L members s answers w) (hp : Progress L members s s')
    (hs : s.history ⊆ s'.history) : Covered L members s' answers w := by
  obtain ⟨Q, ⟨hQ, hcard, hholds⟩, hanswers⟩ := h
  refine ⟨Q, ⟨hQ, hcard, fun r hr => ?_⟩, fun r hr a ha => ?_⟩
  · exact le_trans (hholds r hr) ((hp.advance r).rank_le w.key)
  · obtain ⟨e, he, h⟩ := hanswers r hr a ha
    exact ⟨e, hs he, h⟩

theorem ReadsBack.mono {s s' : Cluster} {p : ReadPlan} {results : List ReadResult}
    {outcome : ReadOutcome} {w : LogEntry} (h : ReadsBack L members s p results outcome w)
    (hs : s.history ⊆ s'.history) : ReadsBack L members s' p results outcome w :=
  h.imp id fun ⟨best, repairs, e, houtcome, he, h⟩ => ⟨best, repairs, e, houtcome, hs he, h⟩

/-! ## What an answer says -/

/-- A node that holds at least `w` answers with at least `w`. -/
theorem answer_holds {s : Cluster} (h : Calm L members s) {r : String} {w : LogEntry}
    (hr : Holds s r w) (clock : Time) (d : Delivery) {a : ReadAnswer}
    (ha : (s.readFrom clock r w.key d).2 = (a, true)) :
    ∃ e, Event.issued L e ∈ s.history ∧ Tells a e ∧ entryKey w ≤ entryKey e := by
  rcases readFrom_answer clock s r w.key d with heq | heq
  · rw [heq] at ha
    cases ha
  · rw [heq, localRead_eq h, Prod.mk.injEq] at ha
    obtain ⟨rfl, -⟩ := ha
    unfold Holds at hr
    cases hm : (s.nodes r).store.get? w.key with
    | none =>
      rw [rank_of_none hm, le_bot_iff] at hr
      cases hr
    | some m =>
      obtain ⟨e, he, -, hmatch⟩ := h.records.backed r w.key m hm
      rw [rank_of_some hm, WithBot.coe_le_coe, hmatch.sortKey_eq] at hr
      exact ⟨e, he, tells_answerOf hmatch, hr⟩

theorem covered_answered {s : Cluster} (h : Calm L members s)
    {answers : Dict String (ReadAnswer × Bool)} {w : LogEntry} (hw : Covered L members s answers w)
    (r : String) (clock : Time) (d : Delivery) :
    Covered L members s (answers.set r (s.readFrom clock r w.key d).2) w := by
  obtain ⟨Q, hheld, hanswers⟩ := hw
  refine ⟨Q, hheld, fun q hq a ha => ?_⟩
  rw [Dict.get?_set] at ha
  split at ha
  · rename_i hqr
    subst hqr
    rw [Option.some.injEq] at ha
    exact answer_holds h (hheld.2.2 q hq) clock d ha
  · exact hanswers q hq a ha

/-! ## What a read concludes -/

/-- The third component apart, the order does not depend on the identifiers. -/
theorem sortKey_le_of_le {v v' : Int} {u u' : Time} {c c' : String}
    (h : sortKey v u c ≤ sortKey v' u' c') (d : String) : sortKey v u d ≤ sortKey v' u' d := by
  unfold sortKey at h ⊢
  rw [Prod.Lex.toLex_le_toLex] at h ⊢
  rcases h with h | ⟨hv, h⟩
  · exact .inl h
  · refine .inr ⟨hv, ?_⟩
    rw [Prod.Lex.toLex_le_toLex] at h ⊢
    rcases h with h | ⟨hu, -⟩
    · exact .inl h
    · exact .inr ⟨hu, le_rfl⟩

theorem isMissing_resultOf {a : ReadAnswer} {e : LogEntry} (he : GoodEntry L e) (h : Tells a e)
    (r : String) : isMissing (resultOf r a) = false := by
  have hversion : a.version ≠ 0 := by
    have := he.version_pos
    have := h.version
    omega
  simp [isMissing, resultOf, hversion]

/-- Results in the order of a read are in the order of their entries. -/
theorem entryKey_le_of_result {e e' : LogEntry} {a a' : ReadAnswer} (he : GoodEntry L e)
    (he' : GoodEntry L e') (h : Tells a e) (h' : Tells a' e') {r r' : String}
    (hle : resultSortKey (resultOf r a) ≤ resultSortKey (resultOf r' a')) :
    entryKey e ≤ entryKey e' := by
  have hle := sortKey_le_of_le hle L
  unfold entryKey
  rw [he.coordinatorId, he'.coordinatorId, ← h.version, ← h.updatedAt, ← h'.version,
    ← h'.updatedAt]
  exact hle

/-- Of the nodes that a read with enough answers has counted, one belongs to the majority. -/
theorem counted_meets {Q : Finset String} (hQ : Q ⊆ members) (hcard : members.card / 2 + 1 ≤ Q.card)
    {p : ReadPlan} (hasks : Asks members p) {finished : List String} (hnodup : finished.Nodup)
    (hfinished : ∀ r ∈ finished, r ∈ p.replicas ∧ r ≠ p.localId)
    (henough : members.card / 2 + 1 ≤ (counted p finished).length) :
    ∃ r ∈ Q, r ∈ counted p finished := by
  have hcounted : (counted p finished).Nodup :=
    nodup_counted hnodup fun hl => (hfinished _ hl).2 rfl
  have hmembers : (counted p finished).toFinset ⊆ members := by
    intro r hr
    rcases mem_counted (List.mem_toFinset.mp hr) with ⟨-, hr⟩ | hr
    · exact hasks.replicas r hr
    · exact hasks.replicas r (hfinished r hr).1
  rw [← List.toFinset_card_of_nodup hcounted] at henough
  obtain ⟨r, hrQ, hrc⟩ := majorities_meet hQ hmembers (by omega) (by omega)
  exact ⟨r, hrQ, List.mem_toFinset.mp hrc⟩

/-- A read at QUORUM that counts real answers only. -/
theorem readsBack_concluded {s : Cluster} (h : Calm L members s) {p : ReadPlan}
    (hlevel : p.level = .quorum) (hasks : Asks members p)
    {answers : Dict String (ReadAnswer × Bool)}
    (hgood : ∀ r a, answers.get? r = some a → GoodAnswer L s p.key a.1) {finished : List String}
    (hnodup : finished.Nodup) (hfinished : ∀ r ∈ finished, r ∈ p.replicas ∧ r ≠ p.localId)
    (hreal : ∀ r ∈ counted p finished, (answers.get? r).any Prod.snd) {w : LogEntry}
    (hw : Covered L members s answers w) :
    ReadsBack L members s p
      (collected p (collectedAnswer answers p.localId) (collectedAnswer answers) finished)
      (ReadCoordinator.read p (collectedAnswer answers p.localId) (collectedAnswer answers)
        finished) w := by
  have hneeded : p.needed = quorumSize members.card := by
    simp [ReadPlan.needed, hlevel, hasks.factor]
  have hread : ReadCoordinator.read p (collectedAnswer answers p.localId)
      (collectedAnswer answers) finished = decideRead p.needed
        (collected p (collectedAnswer answers p.localId) (collectedAnswer answers) finished) := by
    simp only [ReadCoordinator.read, hlevel]
  rw [hread]
  have hcollected := collected_eq_map hasks.nodup (collectedAnswer answers) finished
  by_cases hfew : (collected p (collectedAnswer answers p.localId) (collectedAnswer answers)
      finished).length < p.needed
  · exact .inl ⟨hneeded ▸ hfew, (decideRead_failed_iff _ _).mpr hfew⟩
  obtain ⟨Q, ⟨hQ, hcard, -⟩, hanswers⟩ := hw
  have henough : members.card / 2 + 1 ≤ (counted p finished).length := by
    have hle := not_lt.mp hfew
    rw [hcollected, List.length_map, hneeded] at hle
    exact le_trans (le_max_right _ _) hle
  obtain ⟨r, hrQ, hrc⟩ := counted_meets hQ hcard hasks hnodup hfinished henough
  obtain ⟨⟨a, real⟩, ha, hflag⟩ := (Option.any_eq_true _ _).mp (hreal r hrc)
  simp only at hflag
  subst hflag
  obtain ⟨e, he, htells, hle⟩ := hanswers r hrQ a ha
  -- the best result is at least what this node has answered
  have hmem : resultOf r a ∈ collected p (collectedAnswer answers p.localId)
      (collectedAnswer answers) finished := by
    rw [hcollected]
    refine List.mem_map.mpr ⟨r, hrc, ?_⟩
    simp [collectedAnswer, ha]
  obtain ⟨best, repairs, hfound, hbest⟩ := decideRead_found (not_lt.mp hfew) hmem
    (isMissing_resultOf (h.records.good e he) htells r)
  obtain ⟨r', rfl, hanswer⟩ := read_found hasks.nodup (hread.trans hfound)
  obtain ⟨e', he', hkey', htells'⟩ := (collected_good hgood r').resolve_left hanswer
  refine .inr ⟨_, repairs, e', hfound, he', hkey', ?_, ?_, ?_⟩
  · exact (if_pos htells'.found).trans htells'.value
  · unfold entryKey
    rw [← htells'.version, ← htells'.updatedAt, ← htells'.coordinatorId]
    rfl
  · exact le_trans hle (entryKey_le_of_result (h.records.good e he) (h.records.good e' he') htells
      htells' hbest)

/-! ## Runs -/

/-- The read began within the history, and reads back what had been acknowledged then. -/
def Justified (L : String) (members : Finset String) (s : Cluster) (p : ReadPlan) (since : Nat)
    (results : List ReadResult) (outcome : ReadOutcome) : Prop :=
  since ≤ s.history.length ∧ (p.level = .quorum →
    ∀ w, Acked (s.history.take since) w → w.key = p.key → ReadsBack L members s p results outcome w)

/-- What holds of the GETs under way and of those that have ended. -/
structure Reads (L : String) (members : Finset String) (s : Cluster) : Prop where
  calm : Calm L members s
  reading : ∀ n p since answers, s.tasks n = some (.read p since answers) →
    since ≤ s.history.length ∧
      ∀ w, Acked (s.history.take since) w → w.key = p.key → Covered L members s answers w
  repairing : ∀ n p since results outcome rest,
    s.tasks n = some (.repair p since results outcome rest) →
      Justified L members s p since results outcome
  got : ∀ n p since results outcome, Event.got n p since results outcome ∈ s.history →
    Justified L members s p since results outcome

theorem Justified.step {s s' : Cluster} {l : Label} {p : ReadPlan} {since : Nat}
    {results : List ReadResult} {outcome : ReadOutcome}
    (h : Justified L members s p since results outcome) (hs : step hash s l = some s') :
    Justified L members s' p since results outcome := by
  obtain ⟨hsince, htake⟩ := take_step hs h.1
  refine ⟨hsince, fun hlevel w hw hkey => ?_⟩
  rw [htake] at hw
  exact (h.2 hlevel w hw hkey).mono (history_step hs)

namespace Reads

variable {s s' : Cluster} {l : Label}

theorem reading_step (h : Reads L members s) (hl : CalmStep L members s l)
    (hs : step hash s l = some s') {n : String} {p : ReadPlan} {since : Nat}
    {answers : Dict String (ReadAnswer × Bool)} (hT : s'.tasks n = some (.read p since answers)) :
    since ≤ s'.history.length ∧
      ∀ w, Acked (s'.history.take since) w → w.key = p.key → Covered L members s' answers w := by
  have hgrows : s.history ⊆ s'.history := history_step hs
  have hp := progress_step h.calm hl hs
  rcases task_step hs hT with hold | hnew
  · obtain ⟨hsince, hcovered⟩ := h.reading n p since answers hold
    obtain ⟨hsince', htake⟩ := take_step hs hsince
    refine ⟨hsince', fun w hw hkey => ?_⟩
    rw [htake] at hw
    exact (hcovered w hw hkey).mono hp hgrows
  · cases hnew with
    | getBegun hlabel =>
      obtain ⟨hsince', htake⟩ := take_step hs (le_refl s.history.length)
      refine ⟨hsince', fun w hw hkey => ?_⟩
      rw [htake, List.take_length] at hw
      obtain ⟨Q, hQ⟩ := acked_held h.calm hw
      exact Covered.mono ⟨Q, hQ, fun r hr a ha => by cases ha⟩ hp hgrows
    | @answered p since answers ht r clock d =>
      obtain ⟨hsince, hcovered⟩ := h.reading n p since answers ht
      obtain ⟨hsince', htake⟩ := take_step hs hsince
      refine ⟨hsince', fun w hw hkey => ?_⟩
      rw [htake] at hw
      rw [← hkey]
      exact (covered_answered h.calm (hcovered w hw hkey) r clock d).mono hp hgrows

theorem repairing_step (h : Reads L members s) (hl : CalmStep L members s l)
    (hs : step hash s l = some s') {n : String} {p : ReadPlan} {since : Nat}
    {results : List ReadResult} {outcome : ReadOutcome} {rest : List ReadResult}
    (hT : s'.tasks n = some (.repair p since results outcome rest)) :
    Justified L members s' p since results outcome := by
  rcases task_step hs hT with hold | hnew
  · exact (h.repairing n p since results outcome rest hold).step hs
  · cases hnew with
    | @concluded finished p since answers hlabel ht hnodup hfinished =>
      subst hlabel
      obtain ⟨hsince, hcovered⟩ := h.reading n p since answers ht
      obtain ⟨hasks, hgood⟩ := h.calm.reading n p since answers ht
      simp only [CalmStep, ht, RealAnswers] at hl
      have hnow : Justified L members s p since _ _ := ⟨hsince, fun hlevel w hw hkey =>
        readsBack_concluded h.calm hlevel hasks hgood hnodup hfinished (hl hlevel)
          (hcovered w hw hkey)⟩
      exact hnow.step hs
    | @repaired p since results best repairs rest r ht =>
      exact (h.repairing n p since results _ _ ht).step hs

/-- The end of a GET has the outcome of its repairs. -/
theorem got_kept (h : Reads L members s) (hs : step hash s l = some s') {n : String} {p : ReadPlan}
    {since : Nat} {results : List ReadResult} {outcome : ReadOutcome}
    (hgot : Event.got n p since results outcome ∈ s'.history) :
    Justified L members s' p since results outcome := by
  rcases recorded_step hs hgot with hold | hnew
  · exact (h.got n p since results outcome hold).step hs
  · cases hnew with
    | got ht => exact (h.repairing n p since results outcome [] ht).step hs

end Reads

theorem reads_step {s s' : Cluster} {l : Label} (h : Reads L members s)
    (hl : CalmStep L members s l) (hs : step hash s l = some s') : Reads L members s' where
  calm := calm_step h.calm hl hs
  reading _ _ _ _ hT := h.reading_step hl hs hT
  repairing _ _ _ _ _ _ hT := h.repairing_step hl hs hT
  got _ _ _ _ _ hgot := h.got_kept hs hgot

theorem reads_start {s : Cluster} (h : CalmStart L members s) : Reads L members s := by
  exact ⟨h.calm, fun n p since answers hT => absurd hT h.fresh.no_task,
    fun n p since results outcome rest hT => absurd hT h.fresh.no_task,
    fun n p since results outcome hgot => absurd hgot (h.fresh.no_event _)⟩

/-! ## Issued after -/

/-- Two elements of a list occur in one order or the other. -/
theorem pair_sublist {α : Type} {l : List α} {a b : α} (ha : a ∈ l) (hb : b ∈ l) (hne : a ≠ b) :
    [a, b].Sublist l ∨ [b, a].Sublist l := by
  induction l with
  | nil => cases ha
  | cons x l ih =>
    rcases List.mem_cons.mp ha with rfl | hal
    · have hbl := (List.mem_cons.mp hb).resolve_left (Ne.symm hne)
      exact .inl ((List.singleton_sublist.mpr hbl).cons_cons a)
    · rcases List.mem_cons.mp hb with rfl | hbl
      · exact .inr ((List.singleton_sublist.mpr hal).cons_cons b)
      · exact (ih hal hbl).imp (fun h => h.cons x) fun h => h.cons x

/-- An entry that is not smaller is the same or was issued after. -/
theorem issued_after {s : Cluster} (h : Calm L members s) {w e : LogEntry}
    (hw : Event.issued L w ∈ s.history) (he : Event.issued L e ∈ s.history) (hkey : e.key = w.key)
    (hle : entryKey w ≤ entryKey e) :
    e = w ∨ [Event.issued L w, Event.issued L e].Sublist s.history := by
  by_cases heq : e = w
  · exact .inl heq
  · have hne : Event.issued L w ≠ Event.issued L e := fun h => heq (Event.issued.inj h).2.symm
    refine .inr ((pair_sublist hw he hne).resolve_right fun hbefore => ?_)
    have hpair : (issuedIn [.issued L e, .issued L w]).Sublist (issuedIn s.history) :=
      hbefore.filterMap _
    have horder : Before (L, e) (L, w) := by
      simpa [issuedIn] using h.order.sublist hpair
    exact absurd hle (not_le.mpr ((entryKey_lt_iff horder.1).mpr (horder.2 hkey)))

/-- **Reading what was written**: in every run of a healthy cluster, a GET at QUORUM, at any
    node, that begins when the write `w` of its key has been acknowledged ends in one of two
    ways. It fails, with fewer results than a quorum; or it answers with the value of `w` or of
    an entry for that key issued after `w`, from a record that is at least `w` in the order of
    `(version, updated_at, coordinator_id)`. -/
theorem read_after_write {s t : Cluster} {ls : List Label} (h : CalmStart L members s)
    (hl : Along (step hash) (CalmStep L members) s ls) (he : exec (step hash) s ls = some t)
    {n : String} {p : ReadPlan} {since : Nat} {results : List ReadResult} {outcome : ReadOutcome}
    (hgot : Event.got n p since results outcome ∈ t.history) (hlevel : p.level = .quorum)
    {w : LogEntry} (hw : Acked (t.history.take since) w) (hkey : w.key = p.key) :
    (results.length < quorumSize members.card ∧ outcome = .failed) ∨
      ∃ best repairs e, outcome = .found best repairs ∧
        entryKey w ≤ sortKey best.version best.updatedAt best.coordinatorId ∧
        sortKey best.version best.updatedAt best.coordinatorId = entryKey e ∧
        getResponse p.key outcome = .ok e.value ∧ e.key = w.key ∧
        (e = w ∨ [Event.issued L w, Event.issued L e].Sublist t.history) := by
  have hreads : Reads L members t :=
    exec_inv_along (fun _ _ _ h hl hs => reads_step h hl hs) (reads_start h) hl he
  have hissued : Event.issued L w ∈ t.history := by
    obtain ⟨m, r, hr, -⟩ := hw
    have hm := hreads.calm.sole.known.replied m w r (List.mem_of_mem_take hr)
    exact hreads.calm.sole.issuer m w hm ▸ hm
  rcases (hreads.got n p since results outcome hgot).2 hlevel w hw hkey with hfew |
    ⟨best, repairs, e, rfl, heissued, hekey, hvalue, hbest, hle⟩
  · exact .inl hfew
  · refine .inr ⟨best, repairs, e, rfl, hbest ▸ hle, hbest, congrArg Response.ok hvalue,
      hekey.trans hkey.symm, ?_⟩
    exact issued_after hreads.calm hissued heissued (hekey.trans hkey.symm) hle

/-! ### A read from a node that has missed the write -/

/-- `a` is elected and writes with `b`; `c` reads, finds the write at `b` and repairs itself. -/
def writeThenRead : List Label :=
  electionOf "a" "b" "c" ++ setOf "a" 1 [.answered, .unsent] ++
    [.get "c" "k" .quorum, .answer "c" "c" .answered 2, .answer "c" "b" .answered 2,
      .conclude "c" ["b"], .repair "c" .answered 2, .endGet "c"]

def setOfA : LogEntry :=
  { term := 1, index := 1, command := .set, key := "k", value := .int 1, timestamp := 1
    version := 1, createdAt := some 1, coordinatorId := "a" }

/-- The read of `c`: its plan, what `b` answers, what it collects and concludes. -/
def planOfC : ReadPlan :=
  { localId := "c", key := "k", level := .quorum, replicas := ["a", "b", "c"]
    primaryOwner := some "a", replicationFactor := 3 }

def answerOfB : ReadAnswer :=
  { value := .int 1, version := 1, found := true, updatedAt := 1, createdAt := 1
    expiresAt := none, coordinatorId := "a" }

def resultsOfC : List ReadResult := [resultOf "c" missingAnswer, resultOf "b" answerOfB]

def outcomeOfC : ReadOutcome := .found (resultOf "b" answerOfB) [resultOf "c" missingAnswer]

theorem calmStart_sample : CalmStart "a" {"a", "b", "c"} sample :=
  ⟨fresh_sample, by decide, fun _ => rfl, .inl rfl, fun _ _ => rfl⟩

theorem read_after_write_sample :
    ∃ t, exec (step fun _ => 0) sample writeThenRead = some t ∧
      t.history[5]? = some (.got "c" planOfC 5 resultsOfC outcomeOfC) ∧
      ((resultsOfC.length < quorumSize ({"a", "b", "c"} : Finset String).card ∧
          outcomeOfC = .failed) ∨
        ∃ best repairs e, outcomeOfC = .found best repairs ∧
          entryKey setOfA ≤ sortKey best.version best.updatedAt best.coordinatorId ∧
          sortKey best.version best.updatedAt best.coordinatorId = entryKey e ∧
          getResponse planOfC.key outcomeOfC = .ok e.value ∧ e.key = setOfA.key ∧
          (e = setOfA ∨ [Event.issued "a" setOfA, Event.issued "a" e].Sublist t.history)) := by
  have hrun : (exec (step fun _ => 0) sample writeThenRead).map
      (fun t => (t.history[4]?, t.history[5]?)) =
      some (some (.replied "a" setOfA (.ok (.str "OK"))),
        some (.got "c" planOfC 5 resultsOfC outcomeOfC)) := rfl
  obtain ⟨t, ht, hobs⟩ := Option.map_eq_some_iff.mp hrun
  obtain ⟨hreplied, hgot⟩ := Prod.mk.inj hobs
  have hcalm : Along (step fun _ => 0) (CalmStep "a" {"a", "b", "c"}) sample writeThenRead := by
    decide
  have hacked : Acked (t.history.take 5) setOfA := by
    refine ⟨"a", .ok (.str "OK"), List.mem_of_getElem? (i := 4) ?_, rfl⟩
    rw [List.getElem?_take_of_lt (by decide), hreplied]
  exact ⟨t, ht, hgot, read_after_write calmStart_sample hcalm ht (List.mem_of_getElem? hgot) rfl
    hacked rfl⟩

end ReadAfterWrite

end MiniDb
