/-
  The client port of a node (`node.py`): `_handle_client_message` and the handlers of its commands,
  and the commands that nodes send each other on it.

  A handler answers at once, or it goes on with something that is modelled elsewhere: a write that
  is applied or forwarded, a read, a collection of keys (`Outcome`).

  `commands_carried_out`: over the connections of two nodes, `__REPLICA_SET`, `__LOCAL_READ`,
  `__LOCAL_KEYS` and `__IMPORT_KEYS` do what the models of replication, reading and migration say
  of their abstract messages, each at most once, and what the sender makes of a reply is the
  model's answer. Texts carry the numbers: `int(str(n))` and `float(str(x))` give them back
  (`TextFunctions`).

  A command or an argument that is no text is refused, where the source may go on, and so is a
  batch with an item that lacks a field or has one of another type, whose items before it the
  source would keep. The commands that only report are left out (`Outcome.report`).
-/
import MiniDb.Cluster.System
import MiniDb.Cluster.Wire
import MiniDb.Node.Forward
import MiniDb.Node.Migration

namespace MiniDb

open Lib Lib.Json AofText

/-- `ConsistencyLevel(value)` -/
def ConsistencyLevel.ofValue : String → Option ConsistencyLevel
  | "ONE" => some .one
  | "QUORUM" => some .quorum
  | "ALL" => some .all
  | "ANY" => some .any
  | "STRONG" => some .strong
  | _ => none

/-- `str.upper`, `int` and `float` on texts. -/
structure TextFunctions (F : FloatText) where
  upper : String → String
  parseInt : String → Option Int
  parseFloat : String → Option Time
  upper_upper : ∀ text, (∀ c ∈ text.toList, c.isUpper ∨ c = '_') → upper text = text
  parseInt_text : ∀ n, parseInt (String.ofList (intText n)) = some n
  parseFloat_text : ∀ x, F.isFloat x → parseFloat (String.ofList (F.repr x)) = some x

theorem TextFunctions.upper_of_all {F : FloatText} (T : TextFunctions F) {text : String}
    (h : text.toList.all fun c => c.isUpper || c == '_') : T.upper text = text := by
  refine T.upper_upper text fun c hc => ?_
  have hall := List.all_eq_true.mp h c hc
  simpa using hall

namespace ClientPort

/-- How a handler goes on. -/
inductive Outcome where
  | reply (r : Response)
  /-- `_apply_partition_write` -/
  | write (w : WriteCall)
  /-- `_forward_write` -/
  | forward (leaderId : String) (w : WriteCall)
  /-- The read of GET, under the write lock. -/
  | get (key : String) (level : ConsistencyLevel)
  /-- The read of EXISTS. -/
  | exists (key : String)
  /-- `_collect_cluster_keys` -/
  | keys (pattern : String)
  /-- The import loop is done; `fanout` is sent on with `__REPLICA_SET`. -/
  | imported (imported skipped : Nat) (fanout : List (String × Versioned))
  /-- Reports and the commands of operators. -/
  | report (command : String) (args : List String)

/-- The names of the commands that `Outcome.report` stands for. -/
def reports : List String :=
  ["INFO", "CLUSTER", "NODES", "LEADER", "RING", "SHARDS", "REPLICAS", "ROUTE", "STATS",
    "REBALANCE", "MIGRATE", "FAILOVER", "FAULT", "RATELIMIT"]

/-! ## Handlers -/

section Handlers

variable {F : FloatText} (T : TextFunctions F)

/-- `_coordinate_or_forward_write` -/
def coordinateOrForwardWrite (n : Node) (w : WriteCall) : Outcome :=
  if n.isLeader then .write w
  else
    match n.election.leaderId with
    | none => .reply (.error "No cluster leader for write")
    | some leaderId =>
      if leaderId = "" then .reply (.error "No cluster leader for write")
      else .forward leaderId w

/-- `int(text)` of an argument that may be missing; `none` when it raises. -/
def readTtl : Option String → Option (Option Int)
  | none => some none
  | some text => (T.parseInt text).map some

def handleSet (n : Node) : List String → Outcome
  | key :: value :: rest =>
    match readTtl T rest.head? with
    | none => .reply (.error "TTL must be an integer")
    | some ttl =>
      coordinateOrForwardWrite n { operation := .set, key := key, value := .str value, ttl := ttl }
  | _ => .reply (.error "SET requires key and value")

def handleSetex (n : Node) : List String → Outcome
  | key :: ttl :: value :: _ =>
    match T.parseInt ttl with
    | none => .reply (.error "TTL must be an integer")
    | some ttl =>
      coordinateOrForwardWrite n
        { operation := .set, key := key, value := .str value, ttl := some ttl }
  | _ => .reply (.error "SETEX requires key, ttl, and value")

/-- A level that is no level is ignored. -/
def handleGet (n : Node) : List String → Outcome
  | key :: rest =>
    .get key ((rest.head?.bind fun level => ConsistencyLevel.ofValue (T.upper level)).getD
      n.config.defaultConsistency)
  | [] => .reply (.error "GET requires key")

def handleDelete (n : Node) : List String → Outcome
  | key :: _ => coordinateOrForwardWrite n { operation := .delete, key := key }
  | [] => .reply (.error "DELETE requires key")

def handleExists : List String → Outcome
  | key :: _ => .exists key
  | [] => .reply (.error "EXISTS requires key")

def handleLeaderWrite (n : Node) (args : List String) : Outcome :=
  match Forward.handleLeaderWrite F T.upper T.parseInt n.isLeader args with
  | .error text => .reply (.error text)
  | .ok w => .write w

/-- `_handle_owner_write`; `None` is the text of an owner that is not there. -/
def handleOwnerWrite (hash : String → Nat) (n : Node) : List String → Outcome
  | operation :: key :: rest =>
    let owned (w : WriteCall) : Outcome :=
      if n.ring.getNode hash key = some n.nodeId then .write w
      else .reply (.error (ownerMismatch n key ((n.ring.getNode hash key).getD "None")))
    if T.upper operation = "SET" then
      match rest with
      | [] => .reply (.error "SET requires value")
      | text :: rest =>
        match Forward.ttlOf T.parseInt rest with
        | none => .reply (.error "TTL must be an integer")
        | some ttl =>
          owned
            { operation := .set, key := key, value := (loads F text.toList).getD (.str text)
              ttl := ttl }
    else if T.upper operation = "DELETE" then owned { operation := .delete, key := key }
    else .reply (.error ("Unsupported owner write: " ++ T.upper operation))
  | _ => .reply (.error "__OWNER_WRITE requires command and key")
where
  ownerMismatch (n : Node) (key expected : String) : String :=
    "Owner mismatch for key " ++ key ++ ": expected " ++ expected ++ ", got " ++ n.nodeId

/-- The data of a `__LOCAL_READ` reply. -/
def readData (a : ReadAnswer) : Json :=
  .obj [("found", .bool a.found), ("value", a.value), ("version", .int a.version),
    ("expires_at", orNull .float a.expiresAt), ("updated_at", .float a.updatedAt),
    ("created_at", .float a.createdAt), ("coordinator_id", .str a.coordinatorId)]

def handleLocalRead (clock : Time) (n : Node) : List String → Node × Outcome
  | key :: _ =>
    let (n, a) := n.localRead clock key
    (n, .reply (.ok (readData a)))
  | [] => (n, .reply (.error "__LOCAL_READ requires key"))

def handleLocalKeys (clock : Time) (n : Node) (args : List String) : Node × Outcome :=
  let (store, keys) := n.store.keys clock (args.head?.getD "*")
  ({ n with store := store }, .reply (.ok (.arr (keys.map .str))))

/-- An expiry that does not parse counts as none. -/
def readExpiry (text : String) : Option Time :=
  if text ∈ ["", "None", "null"] then none else T.parseFloat text

/-- The arguments of `__REPLICA_SET`; `none` stands for fewer than six. -/
def readReplicaSet : List String → Option ReplicaSetArgs
  | key :: value :: version :: expiresAt :: updatedAt :: createdAt :: rest =>
    some
      { key := key, value := (loads F value.toList).getD (.str value)
        version := T.parseInt version
        expiresAt := readExpiry T expiresAt
        times := (T.parseFloat updatedAt).bind fun u => (T.parseFloat createdAt).map fun c => (u, c)
        coordinatorId := rest.head? }
  | _ => none

def handleReplicaSet (clock : Time) (n : Node) (args : List String) : Node × Outcome :=
  let (n, r) := n.handleReplicaSet clock (readReplicaSet T args)
  (n, .reply r)

/-- One item of the payload of `__IMPORT_KEYS`. -/
def readImportItem (data : Json) : Except LineError ImportItem := do
  let version ← asInt (← item data "version")
  let updatedAt ← optional asTime (data.field? "updated_at")
  let createdAt ← optional asTime (data.field? "created_at")
  let expiresAt ← optional asTime (data.field? "expires_at")
  let coordinatorId ← withDefault asString "" (data.field? "coordinator_id")
  let value ← item data "value"
  return { value := value, version := version, updatedAt := updatedAt, createdAt := createdAt
           expiresAt := expiresAt, coordinatorId := some coordinatorId }

/-- The items in their order; of a repeated key the last one. -/
def readPayload (fields : List (String × Json)) : Except LineError (Dict String ImportItem) := do
  let items ← fields.mapM fun p => (readImportItem p.2).map fun i => (p.1, i)
  return Dict.empty.setAll items

/-- The loop of `_handle_import_keys`, counting the items it stores. -/
def countImported (clock : Time) (n : Node) (payload : Dict String ImportItem) : Nat :=
  (payload.items.foldl (fun (r : Node × Nat) p =>
    let (n, stored) := r.1.storeUnlessOlder clock (Node.importRecord clock p.1 p.2)
    (n, if stored then r.2 + 1 else r.2)) (n, 0)).2

def handleImportKeys (hash : String → Nat) (clock : Time) (n : Node) :
    List String → Node × Except LineError Outcome
  | text :: _ =>
    match loads F text.toList with
    | none => (n, .ok (.reply (.error "Invalid import payload")))
    | some (.obj fields) =>
      match readPayload fields with
      | .error e => (n, .error e)
      | .ok payload =>
        let imported := countImported clock n payload
        let (n, fanout) := n.handleImportKeys hash clock payload
        (n, .ok (.imported imported (payload.items.length - imported) fanout))
    | some _ => (n, .error .type)
  | [] => (n, .ok (.reply (.error "__IMPORT_KEYS requires a payload")))

/-- `_handle_client_message` on a command and its arguments. -/
def handleCommand (hash : String → Nat) (clock : Time) (n : Node) (cmd : String)
    (args : List String) : Node × Except LineError Outcome :=
  if cmd = "SET" then (n, .ok (handleSet T n args))
  else if cmd = "SETEX" then (n, .ok (handleSetex T n args))
  else if cmd = "GET" then (n, .ok (handleGet T n args))
  else if cmd = "DELETE" ∨ cmd = "DEL" then (n, .ok (handleDelete n args))
  else if cmd = "EXISTS" then (n, .ok (handleExists args))
  else if cmd = "KEYS" then (n, .ok (.keys (args.head?.getD "*")))
  else if cmd = "PING" then (n, .ok (.reply (.ok (.str "PONG"))))
  else if cmd ∈ reports then (n, .ok (.report cmd args))
  else if cmd = "__LEADER_WRITE" then (n, .ok (handleLeaderWrite T n args))
  else if cmd = "__OWNER_WRITE" then (n, .ok (handleOwnerWrite T hash n args))
  else if cmd = "__LOCAL_READ" then (handleLocalRead clock n args).map id .ok
  else if cmd = "__LOCAL_KEYS" then (handleLocalKeys clock n args).map id .ok
  else if cmd = "__REPLICA_SET" then (handleReplicaSet T clock n args).map id .ok
  else if cmd = "__IMPORT_KEYS" then handleImportKeys (F := F) hash clock n args
  else (n, .ok (.reply (.error ("Unknown command: " ++ cmd))))

/-- `parse_command` -/
def parseCommand (payload : Json) : Except LineError (String × List String) := do
  let cmd ← withDefault asString "" (payload.field? "cmd")
  let args ← match (payload.field? "args").getD (.arr []) with
    | .arr items => items.mapM asString
    | _ => .error .type
  return (cmd, args)

/-- `_handle_client_message` of a request that is accepted. -/
def handleClientMessage (hash : String → Nat) (clock : Time) (n : Node) (m : Network.Message) :
    Node × Except LineError Outcome :=
  match parseCommand m.payload with
  | .error e => (n, .error e)
  | .ok (cmd, args) => handleCommand T hash clock n cmd args

/-! ## What nodes send -/

/-- `str(x)` -/
def floatText (F : FloatText) (x : Time) : String := String.ofList (F.repr x)

/-- `"" if x is None else str(x)` -/
def expiryText (F : FloatText) : Option Time → String
  | none => ""
  | some x => floatText F x

/-- The arguments of `__REPLICA_SET` in `_replicate_value_to_nodes`. -/
def replicaSetTexts (F : FloatText) (u : Versioned) : List String :=
  [u.key, String.ofList (dumps F u.value), String.ofList (intText u.version),
    expiryText F u.expiresAt, floatText F u.updatedAt, floatText F u.createdAt, u.coordinatorId]

/-- An item of the payload in `_send_migration_keys`. -/
def importJson (i : KVStore.Item) : Json :=
  .obj [("value", i.value), ("expires_at", orNull .float i.expiresAt), ("version", .int i.version),
    ("created_at", .float i.createdAt), ("updated_at", .float i.updatedAt),
    ("coordinator_id", .str i.coordinatorId)]

def payloadJson (batch : Dict String KVStore.Item) : Json := .obj (batch.mapVals importJson).items

/-- The commands of one node for another. -/
inductive Command where
  | replicaSet (u : Versioned)
  | localRead (key : String)
  | localKeys (pattern : String)
  | importKeys (batch : Dict String KVStore.Item)

namespace Command

def name : Command → String
  | .replicaSet _ => "__REPLICA_SET"
  | .localRead _ => "__LOCAL_READ"
  | .localKeys _ => "__LOCAL_KEYS"
  | .importKeys _ => "__IMPORT_KEYS"

def args (F : FloatText) : Command → List String
  | .replicaSet u => replicaSetTexts F u
  | .localRead key => [key]
  | .localKeys pattern => [pattern]
  | .importKeys batch => [String.ofList (dumps F (payloadJson batch))]

/-- What `send_command` sends. -/
def message (c : Command) (senderId : String) : Network.Message :=
  Network.Protocol.createCommand T.upper c.name ((c.args F).map .str) senderId

end Command

/-- `response and response.payload.get("success")` -/
def succeeded (reply : Option Network.Message) : Bool :=
  reply.any fun r => LocalEntry.truthy ((r.payload.field? "success").getD .null)

/-- What `_get_remote_value_for_read` makes of the data of a reply. -/
def readAnswer (data : Json) : Except LineError ReadAnswer := do
  let version ← withDefault asInt 0 (data.field? "version")
  let updatedAt ← withDefault asTime 0 (data.field? "updated_at")
  let coordinatorId ← withDefault asString "" (data.field? "coordinator_id")
  let expiresAt ← optional asTime (data.field? "expires_at")
  let createdAt ← withDefault asTime 0 (data.field? "created_at")
  return { value := (data.field? "value").getD .null, version := version
           found := LocalEntry.truthy ((data.field? "found").getD .null), updatedAt := updatedAt
           createdAt := createdAt, expiresAt := expiresAt, coordinatorId := coordinatorId }

/-- `_get_remote_value_for_read` with the reply it gets; what raises counts as missing. -/
def remoteAnswer (reply : Option Network.Message) : ReadAnswer :=
  match reply with
  | none => missingAnswer
  | some r =>
    if succeeded (some r) then
      match readAnswer ((r.payload.field? "data").getD (.obj [])) with
      | .ok a => a
      | .error _ => missingAnswer
    else missingAnswer

/-- The keys that `_collect_cluster_keys` takes from a reply. -/
def remoteKeys (reply : Option Network.Message) : List String :=
  match reply with
  | none => []
  | some r =>
    if succeeded (some r) then
      match (r.payload.field? "data").getD (.arr []) with
      | .arr items =>
        match items.mapM asString with
        | .ok keys => keys
        | .error _ => []
      | _ => []
    else []

end Handlers

/-! ## Texts that are read back -/

section Texts

variable {F : FloatText} {T : TextFunctions F}

/-- The values of the update are values JSON can hold. -/
structure Sendable (F : FloatText) (u : Versioned) : Prop where
  value : Printable F u.value
  createdAt : F.isFloat u.createdAt
  updatedAt : F.isFloat u.updatedAt
  expiresAt : ∀ x ∈ u.expiresAt, F.isFloat x

/-- The abstract message of an update. -/
def argsOf (u : Versioned) : ReplicaSetArgs :=
  { key := u.key, value := u.value, version := some u.version, expiresAt := u.expiresAt
    times := some (u.updatedAt, u.createdAt), coordinatorId := some u.coordinatorId }

/-- A float is written in none of the ways in which no expiry is written. -/
theorem floatText_given {x : Time} (hx : F.isFloat x) :
    floatText F x ∉ ["", "None", "null"] := by
  have hchars := F.repr_chars x hx
  intro hmem
  have hnone : ∀ text : String, text = "None" ∨ text = "null" → F.repr x ≠ text.toList := by
    rintro text (rfl | rfl) heq
    · exact absurd (hchars 'N' (by rw [heq]; decide)) (by decide)
    · exact absurd (hchars 'n' (by rw [heq]; decide)) (by decide)
  have hlist : F.repr x = (floatText F x).toList := (String.toList_ofList).symm
  simp only [List.mem_cons, List.not_mem_nil, or_false] at hmem
  rcases hmem with h | h | h
  · have hmark := F.repr_mark x hx
    rw [hlist, h] at hmark
    simp at hmark
  · exact hnone _ (.inl rfl) (hlist.trans (congrArg String.toList h))
  · exact hnone _ (.inr rfl) (hlist.trans (congrArg String.toList h))

theorem loads_text {v : Json} (hv : Printable F v) :
    loads F (String.ofList (dumps F v)).toList = some v := by
  rw [String.toList_ofList]
  exact loads_dumps F hv

theorem readExpiry_text {x : Option Time} (hx : ∀ y ∈ x, F.isFloat y) :
    readExpiry T (expiryText F x) = x := by
  cases x with
  | none => rfl
  | some x =>
    have hfloat := hx x rfl
    rw [readExpiry, expiryText, if_neg (floatText_given hfloat), floatText, T.parseFloat_text x hfloat]

/-- **An update is read back from the texts of its fields.** -/
theorem readReplicaSet_texts {u : Versioned} (hu : Sendable F u) :
    readReplicaSet T (replicaSetTexts F u) = some (argsOf u) := by
  have hupdated := T.parseFloat_text u.updatedAt hu.updatedAt
  have hcreated := T.parseFloat_text u.createdAt hu.createdAt
  unfold readReplicaSet replicaSetTexts argsOf
  simp only [loads_text hu.value, Option.getD_some, T.parseInt_text, readExpiry_text hu.expiresAt,
    floatText, hupdated, hcreated, Option.bind_some, Option.map_some, List.head?_cons]

theorem readAnswer_readData (a : ReadAnswer) : readAnswer (readData a) = .ok a := by
  obtain ⟨value, version, found, updatedAt, createdAt, expiresAt, coordinatorId⟩ := a
  cases expiresAt <;> cases found <;> rfl

theorem readImportItem_importJson (i : KVStore.Item) :
    readImportItem (importJson i) = .ok (Node.payloadItem i) := by
  obtain ⟨value, expiresAt, version, createdAt, updatedAt, coordinatorId⟩ := i
  cases expiresAt <;> rfl

/-- Items that are read one by one. -/
theorem mapM_map_ok {α β γ ε : Type} {f : β → Except ε γ} {g : α → β} {k : α → γ}
    (h : ∀ x, f (g x) = .ok (k x)) (xs : List α) : (xs.map g).mapM f = .ok (xs.map k) := by
  induction xs with
  | nil => rfl
  | cons x xs ih =>
    rw [List.map_cons, List.mapM_cons, h x, ih]
    rfl

theorem mapM_asString (texts : List String) : (texts.map Json.str).mapM asString = .ok texts := by
  have h := mapM_map_ok (f := asString) (g := Json.str) (k := id) (fun _ => rfl) texts
  rwa [List.map_id] at h

/-- **A batch is read back from its payload.** -/
theorem readPayload_payloadJson (batch : Dict String KVStore.Item) :
    readPayload (batch.mapVals importJson).items = .ok (batch.mapVals Node.payloadItem) := by
  have hitems : ((batch.mapVals importJson).items.mapM fun p =>
      (readImportItem p.2).map fun i => (p.1, i)) =
        .ok (batch.mapVals Node.payloadItem).items :=
    mapM_map_ok (fun p => by rw [readImportItem_importJson]; rfl) batch.items
  unfold readPayload
  rw [hitems]
  exact congrArg Except.ok (Dict.setAll_empty _)

end Texts

/-! ## Handling what a node sent -/

/-- The record is one JSON can hold. -/
structure Storable (F : FloatText) (m : KeyMetadata) : Prop where
  value : Printable F m.value
  createdAt : F.isFloat m.createdAt
  updatedAt : F.isFloat m.updatedAt
  expiresAt : ∀ x ∈ m.expiresAt, F.isFloat x

def AllStorable (F : FloatText) (n : Node) : Prop :=
  ∀ k m, n.store.get? k = some m → Storable F m

section Stores

variable {F : FloatText} {clock : Time} {n : Node}

theorem AllStorable.of_store (h : AllStorable F n) {n' : Node}
    (hsub : ∀ k m, n'.store.get? k = some m → n.store.get? k = some m) : AllStorable F n' :=
  fun k m hm => h k m (hsub k m hm)

theorem Storable.setRecord {u : Versioned} (hu : Sendable F u) (current : Option KeyMetadata) :
    Storable F (MiniDb.setRecord clock current u.value u.setArgs) where
  value := hu.value
  createdAt := hu.createdAt
  updatedAt := hu.updatedAt
  expiresAt x hx := by
    obtain ⟨_, _, _, expiresAt, _, _, _⟩ := u
    cases expiresAt with
    | none => cases hx
    | some y => exact hu.expiresAt x hx

theorem AllStorable.storeUnlessOlder (h : AllStorable F n) {u : Versioned} (hu : Sendable F u) :
    AllStorable F (n.storeUnlessOlder clock u).1 := by
  intro k m hm
  rw [Merge.get?_storeUnlessOlder] at hm
  split at hm
  · unfold Merge.afterStore at hm
    dsimp only at hm
    split at hm
    · exact h k m (Option.filter_eq_some_iff.mp hm).1
    · exact Option.some.inj hm ▸ Storable.setRecord hu _
  · exact h k m hm

theorem AllStorable.localRead (h : AllStorable F n) (key : String) :
    AllStorable F (n.localRead clock key).1 := by
  refine h.of_store fun k m hm => ?_
  have hget := n.store.get?_getWithMetadata clock key k
  have hstore : (n.localRead clock key).1.store = (n.store.getWithMetadata clock key).1 := rfl
  rw [hstore, hget, KVStore.getWithMetadata_snd] at hm
  split at hm
  · rename_i hk
    rw [hk]
    exact (Option.filter_eq_some_iff.mp hm).1
  · exact hm

theorem AllStorable.keys (h : AllStorable F n) (pattern : String) :
    AllStorable F { n with store := (n.store.keys clock pattern).1 } := by
  refine h.of_store fun k m hm => ?_
  have hget : (n.store.cleanupExpired clock).get? k = some m := hm
  rw [KVStore.get?_cleanupExpired] at hget
  exact (Option.filter_eq_some_iff.mp hget).1

/-- The answer to a read is one JSON can hold. -/
theorem AllStorable.readData (h : AllStorable F n) (hzero : F.isFloat 0) (key : String) :
    Printable F (readData (n.localRead clock key).2) := by
  have hfound : (n.localRead clock key).2 = answerOf ((n.store.get? key).filter fun m =>
      !expiredBefore m.expiresAt clock) :=
    congrArg answerOf (n.store.getWithMetadata_snd clock key)
  rw [hfound]
  cases hm : (n.store.get? key).filter fun m => !expiredBefore m.expiresAt clock with
  | none => exact ⟨trivial, trivial, trivial, trivial, hzero, hzero, trivial, trivial⟩
  | some m =>
    have hm := h key m (Option.filter_eq_some_iff.mp hm).1
    exact ⟨trivial, hm.value, trivial, LogEntry.printable_orNull hm.expiresAt, hm.updatedAt, hm.createdAt,
      trivial, trivial⟩

end Stores

/-- An item of a batch is one JSON can hold. -/
structure ItemSendable (F : FloatText) (i : KVStore.Item) : Prop where
  value : Printable F i.value
  createdAt : F.isFloat i.createdAt
  updatedAt : F.isFloat i.updatedAt
  expiresAt : ∀ x ∈ i.expiresAt, F.isFloat x

def Command.WellFormed (F : FloatText) : Command → Prop
  | .replicaSet u => Sendable F u
  | .localRead _ => True
  | .localKeys _ => True
  | .importKeys batch => ∀ p ∈ batch.items, ItemSendable F p.2

/-- The reply to an import; `replicated` confirmations came for what was sent on. -/
def importReply (imported skipped replicated : Nat) : Response :=
  .ok (.obj [("imported", .int imported), ("skipped", .int skipped),
    ("replicated", .int replicated)])

/-- The reply of a handler that answers at once, and what it sends on. -/
inductive Ends : Outcome → Network.Message → List (String × Versioned) → Prop where
  | reply (r : Response) : Ends (.reply r) r.message []
  | imported (imported skipped : Nat) (fanout : List (String × Versioned)) (replicated : Nat) :
      Ends (.imported imported skipped fanout) (importReply imported skipped replicated).message
        fanout

def Outcome.answers : Outcome → Bool
  | .reply _ => true
  | .imported _ _ _ => true
  | _ => false

/-- What a command does by the models: the node after it, what its sender reads from the reply,
    and the records that are sent on. -/
def Effect (hash : String → Nat) (clock : Time) (n : Node) :
    Command → Node → Network.Message → List (String × Versioned) → Prop
  | .replicaSet u, n', r, sent =>
    (n', succeeded (some r)) = n.handleMessage clock (.replicaSet (argsOf u)) ∧ sent = []
  | .localRead key, n', r, sent => (n', remoteAnswer (some r)) = n.localRead clock key ∧ sent = []
  | .localKeys pattern, n', r, sent =>
    n' = { n with store := (n.store.keys clock pattern).1 } ∧
      remoteKeys (some r) = (n.store.keys clock pattern).2 ∧ sent = []
  | .importKeys batch, n', r, sent =>
    (n', sent) = n.handleImportKeys hash clock (batch.mapVals Node.payloadItem) ∧
      succeeded (some r) = true

section Batches

variable {F : FloatText} {clock : Time} {n : Node} {batch : Dict String KVStore.Item}

theorem printable_payload (h : ∀ p ∈ batch.items, ItemSendable F p.2) :
    Printable F (payloadJson batch) := by
  have hfields : ∀ ps : List (String × KVStore.Item), (∀ p ∈ ps, ItemSendable F p.2) →
      PrintableFields F (ps.map fun p => (p.1, importJson p.2)) := by
    intro ps
    induction ps with
    | nil => exact fun _ => trivial
    | cons p ps ih =>
      intro hps
      have hp := hps p List.mem_cons_self
      exact ⟨⟨hp.value, LogEntry.printable_orNull hp.expiresAt, trivial, hp.createdAt, hp.updatedAt,
        trivial, trivial⟩, ih fun q hq => hps q (List.mem_cons_of_mem _ hq)⟩
  exact hfields batch.items h

theorem isFloat_orElse {x default : Time} (hx : F.isFloat x) (hdefault : F.isFloat default) :
    F.isFloat (MiniDb.orElse (some x) default) := by
  unfold MiniDb.orElse
  split
  · rename_i heq
    obtain rfl := Option.some.inj heq
    split
    · exact hx
    · exact hdefault
  · exact hdefault

theorem ItemSendable.importRecord (hclock : F.isFloat clock) {i : KVStore.Item}
    (hi : ItemSendable F i) (key : String) :
    Sendable F (Node.importRecord clock key (Node.payloadItem i)) where
  value := hi.value
  createdAt := isFloat_orElse hi.createdAt (isFloat_orElse hi.updatedAt hclock)
  updatedAt := isFloat_orElse hi.updatedAt hclock
  expiresAt := hi.expiresAt

theorem AllStorable.importKeys (h : AllStorable F n) (hclock : F.isFloat clock)
    (hbatch : ∀ p ∈ batch.items, ItemSendable F p.2) (hash : String → Nat) :
    AllStorable F (n.handleImportKeys hash clock (batch.mapVals Node.payloadItem)).1 := by
  have hloop : ∀ (ps : List (String × KVStore.Item)) (r : Node × List Versioned),
      (∀ p ∈ ps, ItemSendable F p.2) → AllStorable F r.1 →
        AllStorable F ((ps.map fun p => (p.1, Node.payloadItem p.2)).foldl
          (Node.importAndNote hash clock) r).1 := by
    intro ps
    induction ps with
    | nil => exact fun r _ hr => hr
    | cons p ps ih =>
      intro r hps hr
      refine ih _ (fun q hq => hps q (List.mem_cons_of_mem _ hq)) ?_
      have hstored : AllStorable F (r.1.storeUnlessOlder clock _).1 := hr.storeUnlessOlder
        ((hps p List.mem_cons_self).importRecord hclock p.1)
      unfold Node.importAndNote
      dsimp only
      split
      · exact hstored
      · exact hstored
  exact hloop batch.items (n, []) hbatch h

end Batches

section Handling

variable {F : FloatText} {T : TextFunctions F} {hash : String → Nat} {clock : Time} {n : Node}

theorem printableItems_strings (texts : List String) :
    PrintableItems F (texts.map Json.str) := by
  induction texts with
  | nil => trivial
  | cons text texts ih => exact ⟨trivial, ih⟩

theorem upper_name (c : Command) : T.upper c.name = c.name := by
  refine T.upper_of_all ?_
  cases c <;> simp only [Command.name] <;> decide

theorem sendable_createCommand (cmd : String) (args : List String) (senderId : String) :
    (Network.Protocol.createCommand T.upper cmd (args.map .str) senderId).Sendable F :=
  ⟨⟨trivial, printableItems_strings _, trivial⟩, trivial, trivial, trivial⟩

/-- What `send_command` sends is read back as the command and its arguments. -/
theorem parseCommand_createCommand {cmd : String} (hcmd : T.upper cmd = cmd) (args : List String)
    (senderId : String) :
    parseCommand (Network.Protocol.createCommand T.upper cmd (args.map .str) senderId).payload =
      .ok (cmd, args) := by
  have hargs : (args.map Json.str).mapM asString = .ok args := mapM_asString args
  have hname : (Network.Protocol.createCommand T.upper cmd (args.map .str)
      senderId).payload.field? "cmd" = some (.str (T.upper cmd)) := rfl
  have hitems : (Network.Protocol.createCommand T.upper cmd (args.map .str)
      senderId).payload.field? "args" = some (.arr (args.map Json.str)) := rfl
  unfold parseCommand
  rw [hname, hitems, hcmd]
  simp only [Option.getD_some, hargs]
  rfl

variable (hash clock n) in
theorem handleClientMessage_createCommand {cmd : String} (hcmd : T.upper cmd = cmd)
    (args : List String) (senderId : String) :
    handleClientMessage T hash clock n
        (Network.Protocol.createCommand T.upper cmd (args.map .str) senderId) =
      handleCommand T hash clock n cmd args := by
  rw [handleClientMessage, parseCommand_createCommand hcmd]

theorem sendable_response {r : Response} (h : ∀ data, r = .ok data → Printable F data) :
    r.message.Sendable F := by
  cases r with
  | ok data => exact ⟨⟨trivial, h data rfl, trivial, trivial⟩, trivial, trivial, trivial⟩
  | error text => exact ⟨⟨trivial, trivial, trivial, trivial⟩, trivial, trivial, trivial⟩

/-- What a handled command leaves. -/
structure Handles (F : FloatText) (hash : String → Nat) (clock : Time) (n : Node) (c : Command)
    (result : Node × Except LineError Outcome) : Prop where
  ends : ∃ o, result.2 = .ok o ∧ o.answers = true
  effect : ∀ o reply sent, result.2 = .ok o → Ends o reply sent →
    Effect hash clock n c result.1 reply sent ∧ reply.Sendable F
  storable : AllStorable F result.1

theorem Handles.of_reply {c : Command} {n' : Node} {r : Response}
    (heffect : Effect hash clock n c n' r.message []) (hsendable : r.message.Sendable F)
    (hstorable : AllStorable F n') :
    Handles F hash clock n c (n', .ok (.reply r)) where
  ends := ⟨_, rfl, rfl⟩
  effect o reply sent ho hends := by
    obtain rfl := Except.ok.inj ho
    cases hends
    exact ⟨heffect, hsendable⟩
  storable := hstorable

variable (hn : AllStorable F n)
include hn

theorem handles_replicaSet {u : Versioned} (hu : Sendable F u) :
    Handles F hash clock n (.replicaSet u)
      (handleCommand T hash clock n "__REPLICA_SET" (replicaSetTexts F u)) := by
  have hcommand : handleCommand T hash clock n "__REPLICA_SET" (replicaSetTexts F u) =
      (handleReplicaSet T clock n (replicaSetTexts F u)).map id .ok := by
    simp [handleCommand, reports]
  have hreplica : n.handleReplicaSet clock (some (argsOf u)) =
      ((n.storeUnlessOlder clock u).1,
        .ok (.str (if (n.storeUnlessOlder clock u).2 then "OK" else "IGNORED"))) := rfl
  rw [hcommand, handleReplicaSet, readReplicaSet_texts hu, hreplica]
  refine Handles.of_reply ⟨rfl, rfl⟩ (sendable_response fun data hdata => ?_)
    (hn.storeUnlessOlder hu)
  obtain rfl := Response.ok.inj hdata
  trivial

theorem handles_localRead (hzero : F.isFloat 0) (key : String) :
    Handles F hash clock n (.localRead key)
      (handleCommand T hash clock n "__LOCAL_READ" [key]) := by
  have hcommand : handleCommand T hash clock n "__LOCAL_READ" [key] =
      (handleLocalRead clock n [key]).map id .ok := by
    simp [handleCommand, reports]
  have hread : remoteAnswer (some (Response.ok (readData (n.localRead clock key).2)).message) =
      (n.localRead clock key).2 := by
    have hdata : readAnswer (readData (n.localRead clock key).2) = .ok (n.localRead clock key).2 :=
      readAnswer_readData _
    show (match readAnswer (readData (n.localRead clock key).2) with
      | .ok a => a
      | .error _ => missingAnswer) = _
    rw [hdata]
  rw [hcommand]
  refine Handles.of_reply ⟨Prod.ext rfl hread, rfl⟩ (sendable_response fun data hdata => ?_)
    (hn.localRead key)
  exact Response.ok.inj hdata ▸ hn.readData hzero key

theorem handles_localKeys (pattern : String) :
    Handles F hash clock n (.localKeys pattern)
      (handleCommand T hash clock n "__LOCAL_KEYS" [pattern]) := by
  have hcommand : handleCommand T hash clock n "__LOCAL_KEYS" [pattern] =
      (handleLocalKeys clock n [pattern]).map id .ok := by
    simp [handleCommand, reports]
  have hkeys : remoteKeys (some (Response.ok
      (.arr ((n.store.keys clock pattern).2.map Json.str))).message) =
        (n.store.keys clock pattern).2 := by
    show (match ((n.store.keys clock pattern).2.map Json.str).mapM asString with
      | .ok keys => keys
      | .error _ => []) = _
    rw [mapM_asString]
  rw [hcommand]
  refine Handles.of_reply ⟨rfl, hkeys, rfl⟩ (sendable_response fun data hdata => ?_)
    (hn.keys pattern)
  obtain rfl := Response.ok.inj hdata
  exact printableItems_strings _

theorem handles_importKeys (hclock : F.isFloat clock) {batch : Dict String KVStore.Item}
    (hbatch : ∀ p ∈ batch.items, ItemSendable F p.2) :
    Handles F hash clock n (.importKeys batch)
      (handleCommand T hash clock n "__IMPORT_KEYS"
        [String.ofList (dumps F (payloadJson batch))]) := by
  have hcommand : handleCommand T hash clock n "__IMPORT_KEYS"
      [String.ofList (dumps F (payloadJson batch))] =
        handleImportKeys (F := F) hash clock n [String.ofList (dumps F (payloadJson batch))] := by
    simp [handleCommand, reports]
  have hloads : loads F (String.ofList (dumps F (payloadJson batch))).toList =
      some (.obj (batch.mapVals importJson).items) := loads_text (printable_payload hbatch)
  rw [hcommand, handleImportKeys, hloads]
  simp only [readPayload_payloadJson]
  exact
    { ends := ⟨_, rfl, rfl⟩
      effect := fun o reply sent ho hends => by
        obtain rfl := Except.ok.inj ho
        cases hends
        exact ⟨⟨rfl, rfl⟩, ⟨⟨trivial, ⟨trivial, trivial, trivial, trivial⟩, trivial, trivial⟩,
          trivial, trivial, trivial⟩⟩
      storable := hn.importKeys hclock hbatch hash }

/-- **A command of another node does what the models say**, whatever the node's state. -/
theorem handles (hzero : F.isFloat 0) (hclock : F.isFloat clock) {c : Command}
    (hc : c.WellFormed F) (senderId : String) :
    Handles F hash clock n c (handleClientMessage T hash clock n (c.message T senderId)) := by
  rw [Command.message, handleClientMessage_createCommand hash clock n (upper_name c)]
  cases c with
  | replicaSet u => exact handles_replicaSet hn hc
  | localRead key => exact handles_localRead hn hzero key
  | localKeys pattern => exact handles_localKeys hn pattern
  | importKeys batch => exact handles_importKeys hn hclock hc

end Handling

/-! ## Over a connection -/

/-- The handler of a node's client port. A request may be limited; `outbox` is what the node has
    sent on. -/
structure Port {η : Type} {F : FloatText} (T : TextFunctions F) (hash : String → Nat)
    (handler : Network.Handler η) (node : η → Node) (clock : η → Time)
    (outbox : η → List (String × Versioned)) (accepts : η → Network.Message → Bool) : Prop where
  zero : F.isFloat 0
  isFloat : ∀ s, F.isFloat (clock s)
  limits : ∀ s m, accepts s m = false →
    node (handler s m).1 = node s ∧ outbox (handler s m).1 = outbox s ∧
      (handler s m).2 =
        .ok (some (Network.Protocol.errorResponse "Rate limited - try again later"))
  handles : ∀ s m o, accepts s m = true →
    (handleClientMessage T hash (clock s) (node s) m).2 = .ok o → o.answers = true →
    ∃ reply sent, Ends o reply sent ∧
      node (handler s m).1 = (handleClientMessage T hash (clock s) (node s) m).1 ∧
      outbox (handler s m).1 = outbox s ++ sent ∧ (handler s m).2 = .ok (some reply)

section Refinement

open Network Network.Session

variable {η : Type} {F : FloatText} {T : TextFunctions F} {hash : String → Nat}
  {handler : Handler η} {node : η → Node} {clock : η → Time}
  {outbox : η → List (String × Versioned)} {accepts : η → Network.Message → Bool}
  {errorText : DecodeError → String} {nodeId : String}

/-- A command of the node `nodeId`. -/
def IsCommand (T : TextFunctions F) (nodeId : String) (m : Network.Message) : Prop :=
  ∃ c : Command, c.WellFormed F ∧ c.message T nodeId = m

/-- A command comes to the handler in the state `s`: it is refused, or done. -/
def Comes (T : TextFunctions F) (hash : String → Nat) (handler : Handler η) (node : η → Node)
    (clock : η → Time) (outbox : η → List (String × Versioned)) (nodeId : String) (s : η)
    (m : Network.Message) (replies : List Network.Message) : Prop :=
  ∃ c : Command, c.WellFormed F ∧ c.message T nodeId = m ∧ ∃ reply, replies = [reply] ∧
    ((node (handler s m).1 = node s ∧ outbox (handler s m).1 = outbox s ∧
        succeeded (some reply) = false) ∨
      ∃ sent, Effect hash (clock s) (node s) c (node (handler s m).1) reply sent ∧
        outbox (handler s m).1 = outbox s ++ sent)

theorem Port.comes (h : Port T hash handler node clock outbox accepts) {s : η}
    (hs : AllStorable F (node s)) {m : Network.Message} (hm : IsCommand T nodeId m) :
    Comes T hash handler node clock outbox nodeId s m (responses (handler s m).2) ∧
      AllStorable F (node (handler s m).1) ∧
      ∀ r ∈ responses (handler s m).2, r.Sendable F := by
  obtain ⟨c, hc, rfl⟩ := hm
  cases haccepts : accepts s (c.message T nodeId) with
  | false =>
    obtain ⟨hnode, hsent, hreply⟩ := h.limits s _ haccepts
    rw [hreply]
    refine ⟨⟨c, hc, rfl, _, rfl, .inl ⟨hnode, hsent, rfl⟩⟩, hnode ▸ hs, fun r hr => ?_⟩
    rw [List.mem_singleton.mp hr]
    exact ⟨⟨trivial, trivial, trivial, trivial⟩, trivial, trivial, trivial⟩
  | true =>
    have hdone : Handles F hash (clock s) (node s) c
        (handleClientMessage T hash (clock s) (node s) (c.message T nodeId)) :=
      ClientPort.handles hs h.zero (h.isFloat s) hc nodeId
    obtain ⟨o, ho, hanswers⟩ := hdone.ends
    obtain ⟨reply, sent, hends, hnode, hsent, hreply⟩ := h.handles s _ o haccepts ho hanswers
    obtain ⟨heffect, hsendable⟩ := hdone.effect o reply sent ho hends
    rw [hreply]
    refine ⟨⟨c, hc, rfl, reply, rfl, .inr ⟨sent, hnode ▸ heffect, hsent⟩⟩, hnode ▸ hdone.storable,
      fun r hr => ?_⟩
    rw [List.mem_singleton.mp hr]
    exact hsendable

/-- A node waits for the reply to each of its commands. -/
def Sends (T : TextFunctions F) (nodeId : String) : Label → Prop
  | .call m _ => IsCommand T nodeId m
  | .notify _ _ => False
  | .unsent _ k _ => k = 0
  | _ => True

theorem Port.serves (h : Port T hash handler node clock outbox accepts) :
    Serves F handler (IsCommand T nodeId) fun s => AllStorable F (node s) where
  sendable m hm := by
    obtain ⟨c, -, rfl⟩ := hm
    exact sendable_createCommand c.name (c.args F) nodeId
  keeps s m hs hm := (h.comes hs hm).2.1
  answers s m r hs hm hr := (h.comes hs hm).2.2 r (by rw [hr]; exact List.mem_singleton_self r)

theorem proper_of_sends {l : Label} (hl : Sends T nodeId l) :
    Proper handler (IsCommand T nodeId) (fun s => AllStorable F (node s)) l := by
  cases l with
  | call m a => exact hl
  | notify m a => exact absurd hl not_false
  | unsent m k a => exact hl
  | _ => trivial

/-- **Commands between nodes are carried out**: in every run of the connections from one node to the
    client port of another, with chunks of any size, calls that give up and reconnects, every
    command is handled at most once, in the order of its connection; it is refused by the rate
    limiter, or it does what the models say of its abstract message; and what the sender reads
    from a reply is the model's answer to this very command. -/
theorem commands_carried_out (h : Port T hash handler node clock outbox accepts) {s : η}
    (hs : AllStorable F (node s)) {labels : List Label}
    (hlabels : ∀ l ∈ labels, Sends T nodeId l) {t : Session η}
    (ht : exec (Session.step F handler errorText) { client := { nodeId := nodeId }, state := s }
      labels = some t) :
    CarriedOut handler (Comes T hash handler node clock outbox nodeId) s t.history :=
  carriedOut h.serves hs (fun l hl => proper_of_sends (hlabels l hl)) ht
    fun _ _ hgood hm => (h.comes hgood hm).1

/-! ### A record is stored and read back -/

/-- Upper-case texts, and numbers as `wholeFloats` writes them. -/
def wholeTexts : TextFunctions wholeFloats where
  upper := id
  parseInt text := intOfText text.toList
  parseFloat text := wholeFloats.parse text.toList
  upper_upper _ _ := rfl
  parseInt_text n := by rw [String.toList_ofList, intOfText_intText]
  parseFloat_text x hx := by rw [String.toList_ofList, wholeFloats.parse_repr x hx]

/-- The handler of the node at time 0, without a limiter and without peers. -/
def portHandler : Handler (Node × List (String × Versioned)) := fun s m =>
  match handleClientMessage wholeTexts (fun _ => 0) 0 s.1 m with
  | (n, .ok (.reply r)) => ((n, s.2), .ok (some r.message))
  | (n, .ok (.imported i k fanout)) => ((n, s.2 ++ fanout), .ok (some (importReply i k 0).message))
  | (n, _) => ((n, s.2), .error "")

theorem port_portHandler :
    Port wholeTexts (fun _ => 0) portHandler Prod.fst (fun _ => 0) Prod.snd fun _ _ => true where
  zero := rfl
  isFloat _ := rfl
  limits _ _ h := by cases h
  handles s m o _ ho hanswers := by
    unfold portHandler
    revert ho
    generalize handleClientMessage wholeTexts (fun _ => 0) 0 s.1 m = result
    obtain ⟨n', outcome⟩ := result
    rintro rfl
    cases o with
    | reply r => exact ⟨_, [], .reply r, rfl, (List.append_nil _).symm, rfl⟩
    | imported i k fanout => exact ⟨_, fanout, .imported i k fanout 0, rfl, rfl, rfl⟩
    | _ => cases hanswers

def storeSample : Command :=
  .replicaSet ⟨"k", .str "v", 2, none, 1, 1, "a"⟩

def readSample : Command := .localRead "k"

def answerSample : ReadAnswer := ⟨.str "v", 2, true, 1, 1, none, "a"⟩

/-- A call of the command, whose reply comes in one chunk. -/
def exchanged (c : Command) (reply : Response) : List Label :=
  .call (c.message wholeTexts "a") arriving :: delivered (c.message wholeTexts "a") ++
    [.recv (.chunk (reply.message.encode wholeFloats))]

def storedRun : List Label :=
  exchanged storeSample (.ok (.str "OK")) ++ exchanged readSample (.ok (readData answerSample))

/-- The version in the last reply. -/
def lastVersion {η : Type} (t : Session η) : Option Int :=
  match t.history.getLast? with
  | some (.returned _ _ r) => some (remoteAnswer (some r)).version
  | _ => none

theorem commands_carried_out_sample :
    ∃ t, exec (Session.step wholeFloats portHandler fun _ => "")
        { client := { nodeId := "a" }, state := (Replica.sampleNode, []) } storedRun = some t ∧
      lastVersion t = some 2 ∧
      CarriedOut portHandler (Comes wholeTexts (fun _ => 0) portHandler Prod.fst (fun _ => 0)
        Prod.snd "a") (Replica.sampleNode, []) t.history := by
  have hrun : ((exec (Session.step wholeFloats portHandler fun _ => "")
      { client := { nodeId := "a" }, state := (Replica.sampleNode, []) } storedRun).bind
        lastVersion) = some 2 := by
    decide +kernel
  obtain ⟨t, ht, hlast⟩ := Option.bind_eq_some_iff.mp hrun
  have hnone : AllStorable wholeFloats (Replica.sampleNode, ([] : List (String × Versioned))).1 :=
    fun k m hm => by cases hm
  refine ⟨t, ht, hlast, commands_carried_out port_portHandler hnone ?_ ht⟩
  intro l hl
  simp only [storedRun, exchanged, delivered, List.cons_append, List.nil_append, List.mem_cons,
    List.not_mem_nil, or_false] at hl
  rcases hl with rfl | rfl | rfl | rfl | rfl | rfl | rfl | rfl | rfl | rfl
  · exact ⟨storeSample, ⟨trivial, rfl, rfl, fun x hx => by cases hx⟩, rfl⟩
  · trivial
  · trivial
  · trivial
  · trivial
  · exact ⟨readSample, trivial, rfl⟩
  · trivial
  · trivial
  · trivial
  · trivial

end Refinement

end ClientPort

end MiniDb
