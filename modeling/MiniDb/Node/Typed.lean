/-
  From the command line of the client to the write that is applied (`cli.py`, `node.py`).

  `typed_is_applied`: a SET, SETEX or DELETE that is typed with its arguments in double quotes is
  split, sent, decoded and parsed as the write it stands for, at whatever node it arrives; if this
  node forwards it, the node that takes the forwarded command applies the same write, or answers
  that it is not the leader. The command may be typed in any case.

  Values that are typed are strings. Only what `execute` sends is modelled: the commands that it
  answers itself, its printing, and the one resending after a lost reply are left out.
-/
import MiniDb.Cli
import MiniDb.Node.ClientPort

namespace MiniDb.DatabaseCLI

open Lib Lib.Json AofText ClientPort

/-- What `execute` comes to. -/
inductive Executed where
  | empty
  | exit
  /-- Answered without the server. -/
  | local (cmd : String) (args : List String)
  | send (cmd : String) (args : List String)
  | error (text : String)
  deriving DecidableEq

section Execute

variable {F : FloatText} (T : TextFunctions F)

/-- The `_cmd_` methods, and sending for all other commands. -/
def executeCommand (defaultConsistency cmd : String) (args : List String) : Executed :=
  if cmd ∈ ["QUIT", "EXIT"] then .exit
  else if cmd ∈ ["HELP", "DEBUG", "CONSISTENCY"] then .local cmd args
  else if cmd = "GET" then
    match args with
    | [] => .error "GET requires key"
    | key :: rest => .send "GET" [key, (rest.head?.map T.upper).getD defaultConsistency]
  else if cmd ∈ ["NODES", "LEADER"] then .send "CLUSTER" []
  else if cmd ∈ ["SHARDS", "STATS", "REBALANCE", "FAILOVER"] then .send cmd []
  else if cmd ∈ ["REPLICAS", "ROUTE"] then
    if args = [] then .error (cmd ++ " requires key") else .send cmd args
  else .send cmd args

/-- `execute` -/
def execute (defaultConsistency line : String) : Executed :=
  match parseLine line with
  | [] => .empty
  | word :: args => executeCommand T defaultConsistency (T.upper word) args

/-- The message of `_send_command`. -/
def commandMessage (cmd : String) (args : List String) : Network.Message :=
  Network.Protocol.createCommand T.upper cmd (args.map .str) "cli"

end Execute

/-! ## Typed writes -/

/-- A write as it is typed. -/
inductive TypedWrite where
  | set (key value : String) (ttl : Option Int)
  | setex (key : String) (ttl : Int) (value : String)
  | delete (key : String)

namespace TypedWrite

def command : TypedWrite → String
  | .set _ _ _ => "SET"
  | .setex _ _ _ => "SETEX"
  | .delete _ => "DELETE"

def args : TypedWrite → List String
  | .set key value ttl => [key, value] ++ ttl.toList.map fun t => String.ofList (intText t)
  | .setex key ttl value => [key, String.ofList (intText ttl), value]
  | .delete key => [key]

/-- The write it stands for. -/
def call : TypedWrite → WriteCall
  | .set key value ttl => { operation := .set, key := key, value := .str value, ttl := ttl }
  | .setex key ttl value => { operation := .set, key := key, value := .str value, ttl := some ttl }
  | .delete key => { operation := .delete, key := key }

end TypedWrite

/-- A word that the command line takes between double quotes as it is. -/
def Quotable (word : String) : Prop := word ≠ "" ∧ '"' ∉ word.toList

instance (word : String) : Decidable (Quotable word) := inferInstanceAs (Decidable (_ ∧ _))

section Applied

variable {F : FloatText} {T : TextFunctions F}

theorem parseLine_quotable {words : List String} (h : ∀ word ∈ words, Quotable word) :
    parseLine (lineOf words) = words := by
  rw [parseLine_plain fun word hword => (h word hword).2, List.filter_eq_self]
  exact fun word hword => decide_eq_true (h word hword).1

theorem execute_typed {c : TypedWrite} {word : String} (hword : T.upper word = c.command)
    (h : ∀ w ∈ word :: c.args, Quotable w) (defaultConsistency : String) :
    execute T defaultConsistency (lineOf (word :: c.args)) = .send c.command c.args := by
  unfold execute
  rw [parseLine_quotable h]
  simp only [hword]
  cases c <;> simp [executeCommand, TypedWrite.command]

theorem upper_command (c : TypedWrite) : T.upper c.command = c.command := by
  refine T.upper_of_all ?_
  cases c <;> simp only [TypedWrite.command] <;> decide

variable (hash : String → Nat) (clock : Time) (n : Node)

/-- The handler of a typed write. -/
theorem handle_typed (c : TypedWrite) :
    handleCommand T hash clock n c.command c.args =
      (n, .ok (coordinateOrForwardWrite n c.call)) := by
  cases c with
  | set key value ttl =>
    cases ttl with
    | none => rfl
    | some ttl =>
      have hset : handleSet T n [key, value, String.ofList (intText ttl)] =
          coordinateOrForwardWrite n (TypedWrite.call (.set key value (some ttl))) := by
        simp only [handleSet, List.head?_cons, readTtl, T.parseInt_text, Option.map_some]
        rfl
      exact congrArg (fun o => (n, Except.ok o)) hset
  | setex key ttl value =>
    have hset : handleSetex T n [key, String.ofList (intText ttl), value] =
        coordinateOrForwardWrite n (TypedWrite.call (.setex key ttl value)) := by
      simp only [handleSetex, T.parseInt_text]
      rfl
    exact congrArg (fun o => (n, Except.ok o)) hset
  | delete key => rfl

/-- `__LEADER_WRITE` as `_forward_write` sends it. -/
def forwardMessage (T : TextFunctions F) (w : WriteCall) (senderId : String) : Network.Message :=
  Network.Protocol.createCommand T.upper "__LEADER_WRITE" ((Forward.leaderWriteArgs F w).map .str)
    senderId

/-- A line that `m` is sent as, and what it is read back as. -/
def Arrives (F : FloatText) (m received : Network.Message) : Prop :=
  ∃ line, m.encode F = line ++ [Network.Message.newline] ∧ Network.Message.newline ∉ line ∧
    Network.Message.decode F line = .ok received

theorem arrives_iff {m received : Network.Message} (hm : m.Sendable F) :
    Arrives F m received ↔ received = m := by
  obtain ⟨bytes, hbytes, hnewline, -, hdecode⟩ := Network.Message.encode_frame hm
  constructor
  · rintro ⟨line, hline, -, hread⟩
    rw [hbytes, List.append_left_inj] at hline
    rw [hline, hread] at hdecode
    exact Except.ok.inj hdecode
  · rintro rfl
    exact ⟨bytes, hbytes, hnewline, hdecode⟩

/-- The forwarded command at the node that takes it. -/
theorem handle_forwarded {w : WriteCall} (hvalue : Printable F w.value)
    (hw : w.operation = .delete → w.value = .null ∧ w.ttl = none) (senderId : String) :
    handleClientMessage T hash clock n (forwardMessage T w senderId) =
      (n, .ok (if n.isLeader then .write w else .reply (.error (Forward.leaderMismatch w.key)))) := by
  have hleader := Forward.handleLeaderWrite_leaderWriteArgs (F := F) 
    (T.upper_of_all (by decide)) (T.upper_of_all (by decide)) T.parseInt_text hvalue hw n.isLeader
  have hcommand : handleCommand T hash clock n "__LEADER_WRITE" (Forward.leaderWriteArgs F w) =
      (n, .ok (handleLeaderWrite T n (Forward.leaderWriteArgs F w))) := by
    simp [handleCommand, reports]
  rw [forwardMessage, handleClientMessage_createCommand hash clock n
    (T.upper_of_all (by decide)), hcommand, handleLeaderWrite, hleader]
  cases n.isLeader <;> rfl

theorem TypedWrite.printable_call (c : TypedWrite) : Printable F c.call.value := by
  cases c <;> trivial

theorem TypedWrite.call_delete {c : TypedWrite} (hc : c.call.operation = .delete) :
    c.call.value = .null ∧ c.call.ttl = none := by
  cases c with
  | delete key => exact ⟨rfl, rfl⟩
  | set key value ttl => cases hc
  | setex key ttl value => cases hc

/-- **A typed write is the write that is applied**: the command line splits it as it was meant, its
    message arrives, and whatever node handles it applies or forwards this very write, or knows no
    leader; a node that handles the forwarded command applies it, if it is the leader. -/
theorem typed_is_applied {c : TypedWrite} {word : String} (hword : T.upper word = c.command)
    (hquotable : ∀ w ∈ word :: c.args, Quotable w) (defaultConsistency : String) :
    execute T defaultConsistency (lineOf (word :: c.args)) = .send c.command c.args ∧
      (∃ m, Arrives F (commandMessage T c.command c.args) m) ∧
      (∀ m, Arrives F (commandMessage T c.command c.args) m → ∀ hash clock n,
        handleClientMessage T hash clock n m = (n, .ok (coordinateOrForwardWrite n c.call))) ∧
      ∀ senderId m, Arrives F (forwardMessage T c.call senderId) m → ∀ hash clock n,
        handleClientMessage T hash clock n m =
          (n, .ok (if n.isLeader then .write c.call
            else .reply (.error (Forward.leaderMismatch c.call.key)))) := by
  have hsent := sendable_createCommand (F := F) (T := T) c.command c.args "cli"
  refine ⟨execute_typed hword hquotable defaultConsistency, ⟨_, (arrives_iff hsent).mpr rfl⟩,
    fun m hm hash clock n => ?_, fun senderId m hm hash clock n => ?_⟩
  · have hm := (arrives_iff hsent).mp hm
    rw [hm, handleClientMessage_createCommand hash clock n (upper_command c), handle_typed]
  · obtain rfl := (arrives_iff (sendable_createCommand _ _ senderId)).mp hm
    exact handle_forwarded hash clock n c.printable_call TypedWrite.call_delete senderId

theorem typed_is_applied_sample :
    execute wholeTexts "ANY" (lineOf ["SET", "k", "a b", "5"]) =
        .send "SET" ["k", "a b", "5"] ∧
      (∃ m, Arrives wholeFloats (commandMessage wholeTexts "SET" ["k", "a b", "5"]) m) ∧
      (∀ m, Arrives wholeFloats (commandMessage wholeTexts "SET" ["k", "a b", "5"]) m →
        ∀ hash clock n, handleClientMessage wholeTexts hash clock n m =
          (n, .ok (coordinateOrForwardWrite n ⟨.set, "k", .str "a b", some 5⟩))) ∧
      ∀ senderId m, Arrives wholeFloats
          (forwardMessage wholeTexts ⟨.set, "k", .str "a b", some 5⟩ senderId) m →
        ∀ hash clock n, handleClientMessage wholeTexts hash clock n m =
          (n, .ok (if n.isLeader then .write ⟨.set, "k", .str "a b", some 5⟩
            else .reply (.error (Forward.leaderMismatch "k")))) := by
  have hquotable : ∀ w ∈ ["SET", "k", "a b", "5"], Quotable w := by
    simp only [List.forall_mem_cons]
    exact ⟨by decide, by decide, by decide, by decide, fun w hw => by cases hw⟩
  have hword : wholeTexts.upper "SET" = (TypedWrite.set "k" "a b" (some 5)).command := rfl
  exact typed_is_applied hword hquotable "ANY"

end Applied

end MiniDb.DatabaseCLI
