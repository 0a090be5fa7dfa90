/-
  Forwarding a write to the leader (`node.py`, `_forward_write` and `_handle_leader_write`).

  `at_most_two_iff`: a forwarded write contacts at most two coordinators and ends with a reply if
  and only if no third one is to be contacted. The comment promises one retry, but the retry is
  the same function again: it compares the new leader with the node tried last and counts
  nothing, so that two nodes that each name the other go on for ever (`changing_never_ends`).

  What the node meets is a sequence: at its `i`-th attempt the membership table, what comes of
  the contact, and the leader it holds afterwards. The interpreter's recursion limit, which ends
  a run of about a thousand contacts with a failure, is not modelled.
-/
import MiniDb.Lib.PyJson
import MiniDb.Network.Protocol
import MiniDb.Node.Write

namespace MiniDb.Forward

open Lib Lib.Json Network

/-! ## The coordinator's side -/

/-- The answer of a node that is not the leader. -/
def leaderMismatch (key : String) : String :=
  "Leader mismatch for key " ++ key ++ ": this node is not the write leader"

/-- The ttl of `__LEADER_WRITE`; `none` when it is no integer. -/
def ttlOf (parseInt : String → Option Int) : List String → Option (Option Int)
  | [] => some none
  | text :: _ => if text ∈ ["", "None", "null"] then some none else (parseInt text).map some

/-- `_handle_leader_write`: the error, or the write that is applied. `parseInt` is `int`. -/
def handleLeaderWrite (F : FloatText) (upper : String → String) (parseInt : String → Option Int)
    (isLeader : Bool) : List String → Except String WriteCall
  | operation :: key :: rest =>
    let admitted (w : WriteCall) : Except String WriteCall :=
      if isLeader then .ok w else .error (leaderMismatch key)
    if upper operation = "SET" then
      match rest with
      | [] => .error "SET requires value"
      | text :: rest =>
        match ttlOf parseInt rest with
        | none => .error "TTL must be an integer"
        | some ttl =>
          admitted
            { operation := .set, key := key, value := (loads F text.toList).getD (.str text)
              ttl := ttl }
    else if upper operation = "DELETE" then admitted { operation := .delete, key := key }
    else .error ("Unsupported leader write: " ++ upper operation)
  | _ => .error "__LEADER_WRITE requires command and key"

/-! ## The forwarding side -/

/-- What comes of contacting a coordinator. -/
inductive Contacted where
  /-- `connect` fails. -/
  | unreached
  | raised
  /-- `send_command` gives no response. -/
  | noReply
  | reply (response : Network.Message)

/-- What the node meets at each of its attempts. -/
structure Surroundings where
  getNode : Nat → String → Option NodeInfo
  contact : Nat → NodeInfo → List String → Contacted
  leaderId : Nat → Option String

/-- The arguments of `__LEADER_WRITE`. -/
def leaderWriteArgs (F : FloatText) (w : WriteCall) : List String :=
  match w.operation with
  | .set => ["SET", w.key, String.ofList (dumps F w.value),
      match w.ttl with
      | none => ""
      | some ttl => String.ofList (intText ttl)]
  | .delete => ["DELETE", w.key]

def isMismatchText : Json → Bool
  | .str text => text = "Leader mismatch"
  | _ => false

/-- `"Leader mismatch" in err`; `none` when it raises. -/
def containsMismatch : Json → Option Bool
  | .str text => some ("Leader mismatch".toList <:+: text.toList)
  | .arr items => some (items.any isMismatchText)
  | .obj fields => some (fields.any fun f => f.1 = "Leader mismatch")
  | _ => none

/-- The response is a failure with a leader mismatch; `none` when looking raises. -/
def isMismatch (response : Network.Message) : Option Bool :=
  match response.payload with
  | .obj fields =>
    let error := ((Json.obj fields).field? "error").getD .null
    let error := if error.truthy then error else .str ""
    if (((Json.obj fields).field? "success").getD .null).truthy then some false
    else containsMismatch error
  | _ => none

def unavailable (key : String) : Network.Message :=
  Protocol.errorResponse ("Write coordinator unavailable for key: " ++ key)

def unreachable (nodeId : String) : Network.Message :=
  Protocol.errorResponse ("Failed to reach write coordinator " ++ nodeId)

def failed (key : String) : Network.Message :=
  Protocol.errorResponse ("Failed to forward write for key: " ++ key)

/-- How one call goes on: it returns, or it calls itself. -/
inductive Attempted where
  | reply (response : Network.Message)
  | retry (leaderId : String)

variable (F : FloatText) (E : Surroundings) (w : WriteCall)

/-- One call of `_forward_write`, the `i`-th: whom it contacts, and how it goes on. -/
def attempt (i : Nat) (nodeId : String) : List String × Attempted :=
  match E.getNode i nodeId with
  | none => ([], .reply (unavailable w.key))
  | some node =>
    if node.state ≠ .alive then ([], .reply (unavailable w.key))
    else ([nodeId],
      match E.contact i node (leaderWriteArgs F w) with
      | .unreached => .reply (unreachable nodeId)
      | .raised | .noReply => .reply (failed w.key)
      | .reply response =>
        match isMismatch response with
        | none => .reply (failed w.key)
        | some false => .reply response
        | some true =>
          match E.leaderId i with
          | none => .reply response
          | some leaderId =>
            if leaderId ≠ "" ∧ leaderId ≠ nodeId then .retry leaderId else .reply response)

/-- `_forward_write`: the coordinators contacted, and the reply; `none` while it is calling
    itself. -/
def forwardWrite : Nat → Nat → String → Option (List String × Network.Message)
  | 0, _, _ => none
  | fuel + 1, i, nodeId =>
    match attempt F E w i nodeId with
    | (contacted, .reply response) => some (contacted, response)
    | (contacted, .retry leaderId) =>
      (forwardWrite fuel (i + 1) leaderId).map fun r => (contacted ++ r.1, r.2)

/-- The node is ALIVE in the table at the `i`-th attempt. -/
def Contactable (i : Nat) (nodeId : String) : Prop :=
  ∃ node, E.getNode i nodeId = some node ∧ node.state = .alive

/-- The `i`-th contact answers with a leader mismatch, and the leader held then is another. -/
def Redirected (i : Nat) (nodeId leaderId : String) : Prop :=
  ∃ node response, E.getNode i nodeId = some node ∧ node.state = .alive ∧
    E.contact i node (leaderWriteArgs F w) = .reply response ∧
    isMismatch response = some true ∧ E.leaderId i = some leaderId ∧
    leaderId ≠ "" ∧ leaderId ≠ nodeId

/-! ## One attempt -/

/-- A forwarded write arrives as it was: the leader applies it, another node refuses it. -/
theorem handleLeaderWrite_leaderWriteArgs {F : FloatText} {upper : String → String}
    {parseInt : String → Option Int} (hset : upper "SET" = "SET")
    (hdelete : upper "DELETE" = "DELETE")
    (hint : ∀ n, parseInt (String.ofList (intText n)) = some n) {w : WriteCall}
    (hvalue : Printable F w.value) (hw : w.operation = .delete → w.value = .null ∧ w.ttl = none)
    (isLeader : Bool) :
    handleLeaderWrite F upper parseInt isLeader (leaderWriteArgs F w) =
      if isLeader then .ok w else .error (leaderMismatch w.key) := by
  obtain ⟨operation, key, value, ttl⟩ := w
  cases operation with
  | set =>
    have hload : loads F (String.ofList (dumps F value)).toList = some value := by
      rw [String.toList_ofList]
      exact loads_dumps F hvalue
    cases ttl with
    | none =>
      simp only [leaderWriteArgs, handleLeaderWrite, hset, if_true, hload]
      rfl
    | some ttl =>
      have hnumber : String.ofList (intText ttl) ∉ ["", "None", "null"] := by
        intro hmem
        have hnone : ∀ text ∈ ["", "None", "null"], intOfText text.toList = none := by
          decide +kernel
        have hparsed := hnone _ hmem
        rw [String.toList_ofList, intOfText_intText] at hparsed
        cases hparsed
      have httl : ttlOf parseInt [String.ofList (intText ttl)] = some (some ttl) := by
        rw [ttlOf, if_neg hnumber, hint]
        rfl
      simp only [leaderWriteArgs, handleLeaderWrite, hset, if_true, hload, httl]
      rfl
  | delete =>
    obtain ⟨rfl, rfl⟩ := hw rfl
    have hne : ¬ "DELETE" = "SET" := by decide
    simp only [leaderWriteArgs, handleLeaderWrite, hdelete, if_true, if_neg hne]

variable {F E w} {i : Nat} {nodeId leaderId : String}

theorem attempt_redirected (h : Redirected F E w i nodeId leaderId) :
    attempt F E w i nodeId = ([nodeId], .retry leaderId) := by
  obtain ⟨node, response, hnode, halive, hcontact, hmismatch, hleader, hne⟩ := h
  simp only [attempt, hnode, halive, hcontact, hmismatch, hleader]
  rw [if_neg (not_not.mpr rfl), if_pos hne]

theorem redirected_of_retry {contacted : List String}
    (h : attempt F E w i nodeId = (contacted, .retry leaderId)) :
    contacted = [nodeId] ∧ Redirected F E w i nodeId leaderId := by
  unfold attempt at h
  split at h
  · cases h
  · rename_i node hnode
    split at h
    · cases h
    · rename_i halive
      rw [Prod.mk.injEq] at h
      obtain ⟨hcontacted, h⟩ := h
      refine ⟨hcontacted.symm, ?_⟩
      split at h
      · cases h
      · cases h
      · cases h
      · rename_i response hcontact
        split at h
        · cases h
        · cases h
        · rename_i hmismatch
          split at h
          · cases h
          · rename_i held hleader
            split at h
            · rename_i hne
              rw [Attempted.retry.injEq] at h
              subst h
              exact ⟨node, response, hnode, not_not.mp halive, hcontact, hmismatch, hleader,
                hne⟩
            · cases h

theorem Redirected.contactable (h : Redirected F E w i nodeId leaderId) :
    Contactable E i nodeId := by
  obtain ⟨node, response, hnode, halive, -⟩ := h
  exact ⟨node, hnode, halive⟩

theorem contacted_of_contactable (h : Contactable E i nodeId) :
    (attempt F E w i nodeId).1 = [nodeId] := by
  obtain ⟨node, hnode, halive⟩ := h
  simp only [attempt, hnode]
  rw [if_neg (not_not.mpr halive)]

theorem contacted_of_not_contactable (h : ¬ Contactable E i nodeId) :
    attempt F E w i nodeId = ([], .reply (unavailable w.key)) := by
  unfold attempt
  split
  · rfl
  · rename_i node hnode
    exact if_pos fun halive => h ⟨node, hnode, halive⟩

/-- An attempt that replies contacts its node at most. -/
theorem contacted_length_le (i : Nat) (nodeId : String) :
    (attempt F E w i nodeId).1.length ≤ 1 := by
  by_cases h : Contactable E i nodeId
  · exact le_of_eq (by rw [contacted_of_contactable h]; rfl)
  · rw [contacted_of_not_contactable h]
    exact Nat.zero_le 1

/-! ## Runs -/

theorem forwardWrite_redirected (h : Redirected F E w i nodeId leaderId) (fuel : Nat) :
    forwardWrite F E w (fuel + 1) i nodeId =
      (forwardWrite F E w fuel (i + 1) leaderId).map fun r => (nodeId :: r.1, r.2) := by
  rw [forwardWrite, attempt_redirected h]
  rfl

/-- Without a redirection the attempt is the last. -/
theorem forwardWrite_last (h : ∀ leaderId, ¬ Redirected F E w i nodeId leaderId) (fuel : Nat) :
    ∃ response, forwardWrite F E w (fuel + 1) i nodeId =
      some ((attempt F E w i nodeId).1, response) := by
  rw [forwardWrite]
  cases hattempt : attempt F E w i nodeId with
  | mk contacted rest =>
    cases rest with
    | reply response => exact ⟨response, rfl⟩
    | retry leaderId => exact absurd (redirected_of_retry hattempt).2 (h leaderId)

/-- A node that can be contacted is contacted, whatever comes after. -/
theorem one_le_contacted {fuel : Nat} {r : List String × Network.Message}
    (h : forwardWrite F E w fuel i nodeId = some r) (hcontactable : Contactable E i nodeId) :
    1 ≤ r.1.length := by
  cases fuel with
  | zero => cases h
  | succ fuel =>
    by_cases hredirected : ∃ leaderId, Redirected F E w i nodeId leaderId
    · obtain ⟨leaderId, hredirected⟩ := hredirected
      rw [forwardWrite_redirected hredirected] at h
      obtain ⟨r', -, rfl⟩ := Option.map_eq_some_iff.mp h
      exact Nat.le_add_left 1 _
    · rw [not_exists] at hredirected
      obtain ⟨response, hlast⟩ := forwardWrite_last hredirected fuel
      rw [hlast, contacted_of_contactable hcontactable] at h
      rw [← Option.some.inj h]
      rfl

/-- The forwarded write ends with a reply, after at most two contacts. -/
def AtMostTwo (F : FloatText) (E : Surroundings) (w : WriteCall) (nodeId : String) : Prop :=
  ∃ fuel contacted response,
    forwardWrite F E w fuel 0 nodeId = some (contacted, response) ∧ contacted.length ≤ 2

theorem three_le_contacted {fuel : Nat} {r : List String × Network.Message}
    {first second third : String} (hfirst : Redirected F E w i first second)
    (hsecond : Redirected F E w (i + 1) second third)
    (hthird : Contactable E (i + 2) third) (h : forwardWrite F E w fuel i first = some r) :
    3 ≤ r.1.length := by
  cases fuel with
  | zero => cases h
  | succ fuel =>
    rw [forwardWrite_redirected hfirst] at h
    obtain ⟨r₁, h₁, rfl⟩ := Option.map_eq_some_iff.mp h
    cases fuel with
    | zero => cases h₁
    | succ fuel =>
      rw [forwardWrite_redirected hsecond] at h₁
      obtain ⟨r₂, h₂, rfl⟩ := Option.map_eq_some_iff.mp h₁
      exact Nat.succ_le_succ (Nat.succ_le_succ (one_le_contacted h₂ hthird))

/-- **Exactly when a forwarded write is retried once at most**: it contacts at most two
    coordinators and ends with a reply if and only if, when both the first and the second answer
    with a leader mismatch and each time another leader is held, this third one cannot be
    contacted. -/
theorem at_most_two_iff (F : FloatText) (E : Surroundings) (w : WriteCall) (first : String) :
    AtMostTwo F E w first ↔ ∀ second third, Redirected F E w 0 first second →
      Redirected F E w 1 second third → ¬ Contactable E 2 third := by
  constructor
  · rintro ⟨fuel, contacted, response, hrun, htwo⟩ second third hfirst hsecond hthird
    exact absurd htwo (Nat.not_le.mpr (three_le_contacted hfirst hsecond hthird hrun))
  · intro h
    by_cases hfirst : ∃ second, Redirected F E w 0 first second
    · obtain ⟨second, hfirst⟩ := hfirst
      by_cases hsecond : ∃ third, Redirected F E w 1 second third
      · obtain ⟨third, hsecond⟩ := hsecond
        have hthird := h second third hfirst hsecond
        obtain ⟨response, hlast⟩ :=
          forwardWrite_last (fun fourth hnext => hthird (Redirected.contactable hnext)) 0
        rw [contacted_of_not_contactable hthird] at hlast
        refine ⟨3, [first, second], response, ?_, le_refl 2⟩
        rw [forwardWrite_redirected hfirst, forwardWrite_redirected hsecond, hlast]
        rfl
      · rw [not_exists] at hsecond
        obtain ⟨response, hlast⟩ := forwardWrite_last hsecond 0
        refine ⟨2, first :: (attempt F E w 1 second).1, response, ?_, ?_⟩
        · rw [forwardWrite_redirected hfirst, hlast]
          rfl
        · exact Nat.succ_le_succ (contacted_length_le 1 second)
    · rw [not_exists] at hfirst
      obtain ⟨response, hlast⟩ := forwardWrite_last hfirst 0
      exact ⟨1, _, response, hlast, le_trans (contacted_length_le 0 first) one_le_two⟩

/-! ### Two nodes that each name the other -/

/-- The response to a write that was applied. -/
def okResponse : Network.Message :=
  { msgType := .response
    payload := .obj [("success", .bool true), ("data", .str "OK"), ("error", .null)] }

def peer (nodeId : String) : NodeInfo :=
  { nodeId := nodeId, host := .str "h", clientPort := .int 7002, clusterPort := .int 8002,
    lastHeartbeat := .int 0 }

/-- The leader that is held after the `i`-th attempt. -/
def heldAt (i : Nat) : String := if i % 2 = 0 then "c" else "b"

/-- All nodes are ALIVE, the contacted ones are the leader when `leads` says so, and the leader
    that is held changes between `c` and `b`. -/
def changing (leads : Nat → Bool) (key : String) : Surroundings :=
  { getNode := fun _ nodeId => some (peer nodeId)
    contact := fun i _ _ =>
      .reply (if leads i then okResponse else Protocol.errorResponse (leaderMismatch key))
    leaderId := fun i => some (heldAt i) }

theorem infix_of_head {word : List Char} {head : String} (h : word <+: head.toList)
    (s t : String) : word <:+: (head ++ s ++ t).toList := by
  rw [String.toList_append, String.toList_append, List.append_assoc]
  exact (h.trans (List.prefix_append _ _)).isInfix

/-- The answer of a node that is not the leader is taken for a mismatch. -/
theorem isMismatch_leaderMismatch (key : String) :
    isMismatch (Protocol.errorResponse (leaderMismatch key)) = some true := by
  have hhead : "Leader mismatch".toList <+: "Leader mismatch for key ".toList := by
    decide +kernel
  have hinfix : "Leader mismatch".toList <:+: (leaderMismatch key).toList :=
    infix_of_head hhead key _
  have hne : leaderMismatch key ≠ "" := by
    intro hempty
    rw [hempty] at hinfix
    exact absurd hinfix (by decide +kernel)
  have htruthy : (Json.str (leaderMismatch key)).truthy = true := decide_eq_true hne
  show containsMismatch (if (Json.str (leaderMismatch key)).truthy then
    .str (leaderMismatch key) else .str "") = some true
  rw [if_pos htruthy, containsMismatch, decide_eq_true hinfix]

theorem redirected_changing {leads : Nat → Bool} (hi : leads i = false)
    (hne : heldAt i ≠ nodeId) : Redirected F (changing leads w.key) w i nodeId (heldAt i) := by
  have hname : heldAt i ≠ "" := by
    unfold heldAt
    split <;> decide
  refine ⟨_, _, rfl, rfl, rfl, ?_, rfl, hname, hne⟩
  rw [hi]
  exact isMismatch_leaderMismatch w.key

theorem heldAt_succ_ne (i : Nat) : heldAt (i + 1) ≠ heldAt i := by
  unfold heldAt
  by_cases h : i % 2 = 0
  · have hodd : (i + 1) % 2 ≠ 0 := by omega
    rw [if_pos h, if_neg hodd]
    decide
  · have heven : (i + 1) % 2 = 0 := by omega
    rw [if_neg h, if_pos heven]
    decide

/-- As long as neither of the two is the leader, the call does not return. -/
theorem changing_never_ends (fuel i : Nat) :
    forwardWrite F (changing (fun _ => false) w.key) w fuel (i + 1) (heldAt i) = none := by
  induction fuel generalizing i with
  | zero => rfl
  | succ fuel ih =>
    rw [forwardWrite_redirected (redirected_changing rfl (heldAt_succ_ne i)), ih, Option.map_none]

theorem forwardWrite_leader {leads : Nat → Bool} (hi : leads i = true) (fuel : Nat) :
    forwardWrite F (changing leads w.key) w (fuel + 1) i nodeId =
      some ([nodeId], okResponse) := by
  have hok : isMismatch okResponse = some false := rfl
  have halive : ¬ (peer nodeId).state ≠ .alive := not_not.mpr rfl
  have hattempt : attempt F (changing leads w.key) w i nodeId =
      ([nodeId], .reply okResponse) := by
    simp only [attempt, changing, if_neg halive, hi, if_true, hok]
  rw [forwardWrite, hattempt]

def deleteKey : WriteCall := { operation := .delete, key := "k" }

def thirdLeads (i : Nat) : Bool := i = 2

/-- The third contact is the leader at last. -/
theorem third_contacted :
    forwardWrite wholeFloats (changing thirdLeads "k") deleteKey 3 0 "b" =
        some (["b", "c", "b"], okResponse) ∧
      ¬ AtMostTwo wholeFloats (changing thirdLeads "k") deleteKey "b" := by
  have hheld : heldAt 0 = "c" ∧ heldAt 1 = "b" := by decide
  have hfirst : Redirected wholeFloats (changing thirdLeads "k") deleteKey 0 "b" (heldAt 0) :=
    redirected_changing (w := deleteKey) rfl (by decide)
  have hsecond : Redirected wholeFloats (changing thirdLeads "k") deleteKey 1 "c" (heldAt 1) :=
    redirected_changing (w := deleteKey) rfl (by decide)
  rw [hheld.1] at hfirst
  rw [hheld.2] at hsecond
  constructor
  · have hleads : thirdLeads 2 = true := rfl
    have hlast : forwardWrite wholeFloats (changing thirdLeads "k") deleteKey 1 2 "b" =
        some (["b"], okResponse) := forwardWrite_leader (w := deleteKey) hleads 0
    have hretry := forwardWrite_redirected hsecond 1
    have hrun := forwardWrite_redirected hfirst 2
    rw [hlast, Option.map_some] at hretry
    rw [hretry, Option.map_some] at hrun
    exact hrun
  · rintro ⟨fuel, contacted, response, hrun, htwo⟩
    have hthree := three_le_contacted hfirst hsecond ⟨peer "b", rfl, rfl⟩ hrun
    exact absurd htwo (Nat.not_le.mpr hthree)

end MiniDb.Forward
