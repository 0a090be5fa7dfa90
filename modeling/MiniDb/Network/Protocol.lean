/-
  The wire protocol (`network/protocol.py`): messages, their frames `LENGTH:JSON\n`, and
  reading a frame back.

  `encode_frame`: a frame is one line, without a newline inside, and `decode` of that line is
  the message. The receiver never uses the length; it cuts at newlines and drops what stands
  before the first colon.

  `decode` checks the type of no field but "type", so a message keeps JSON values where the
  source's own constructors put a string (`sender_id`) or an integer (`term`, `sequence`).
-/
import MiniDb.Lib.JsonRoundTrip
import MiniDb.Lib.Text

namespace MiniDb.Network

open Lib Lib.Json

inductive MessageType where
  | command
  | response
  | error
  | heartbeat
  | voteRequest
  | voteResponse
  | appendEntries
  | appendResponse
  | join
  | leave
  | gossip
  | replicate
  | replicateAck
  | syncRequest
  | syncResponse
  | merkleRequest
  | merkleResponse
  | repairData
  deriving DecidableEq

namespace MessageType

def value : MessageType → String
  | .command => "CMD"
  | .response => "RSP"
  | .error => "ERR"
  | .heartbeat => "HB"
  | .voteRequest => "VRQ"
  | .voteResponse => "VRS"
  | .appendEntries => "AE"
  | .appendResponse => "AR"
  | .join => "JOIN"
  | .leave => "LEAVE"
  | .gossip => "GSP"
  | .replicate => "REP"
  | .replicateAck => "RACK"
  | .syncRequest => "SRQ"
  | .syncResponse => "SRS"
  | .merkleRequest => "MRQ"
  | .merkleResponse => "MRS"
  | .repairData => "RPD"

def all : List MessageType :=
  [.command, .response, .error, .heartbeat, .voteRequest, .voteResponse, .appendEntries,
    .appendResponse, .join, .leave, .gossip, .replicate, .replicateAck, .syncRequest,
    .syncResponse, .merkleRequest, .merkleResponse, .repairData]

/-- `MessageType(value)` -/
def ofValue (value : String) : Option MessageType := all.find? fun t => t.value = value

theorem ofValue_value (t : MessageType) : ofValue t.value = some t := by
  cases t <;> rfl

end MessageType

structure Message where
  msgType : MessageType
  payload : Json := .obj []
  senderId : Json := .str ""
  term : Json := .int 0
  sequence : Json := .int 0

/-- Why `decode` raises. -/
inductive DecodeError where
  | unicode
  | json
  | key (name : String)
  | type
  | value
  deriving DecidableEq

namespace Message

def toJson (m : Message) : Json :=
  .obj [("type", .str m.msgType.value), ("sender", m.senderId), ("term", m.term),
    ("seq", m.sequence), ("payload", m.payload)]

/-- The frame without its newline. -/
def line (F : FloatText) (m : Message) : List Char :=
  let jsonStr := dumps F m.toJson
  Nat.toDigits 10 jsonStr.length ++ ':' :: jsonStr

def encode (F : FloatText) (m : Message) : List UInt8 := encodeUtf8 (m.line F ++ ['\n'])

/-- `MessageType(parsed["type"])` -/
def typeOf (fields : List (String × Json)) : Except DecodeError MessageType :=
  match field? (.obj fields) "type" with
  | none => .error (.key "type")
  | some (.str text) =>
    match MessageType.ofValue text with
    | some t => .ok t
    | none => .error .value
  | some _ => .error .value

/-- `parsed["type"]` of a value that is no object is a `TypeError`. -/
def ofJson : Json → Except DecodeError Message
  | .obj fields =>
    (typeOf fields).map fun t =>
      { msgType := t
        payload := (field? (.obj fields) "payload").getD (.obj [])
        senderId := (field? (.obj fields) "sender").getD (.str "")
        term := (field? (.obj fields) "term").getD (.int 0)
        sequence := (field? (.obj fields) "seq").getD (.int 0) }
  | _ => .error .type

/-- What stands after the first colon; the whole text where there is none. -/
def afterColon (text : List Char) : List Char :=
  match splitFirst ':' text with
  | some (_, rest) => rest
  | none => text

def decode (F : FloatText) (data : List UInt8) : Except DecodeError Message :=
  match decodeUtf8 data with
  | none => .error .unicode
  | some text =>
    match loads F (afterColon (strip text)) with
    | none => .error .json
    | some parsed => ofJson parsed

end Message

namespace Protocol

/-- `Protocol.create_command`; `upper` is `str.upper`. -/
def createCommand (upper : String → String) (command : String) (args : List Json)
    (senderId : String) : Message :=
  { msgType := .command
    payload := .obj [("cmd", .str (upper command)), ("args", .arr args)]
    senderId := .str senderId }

/-- `Protocol.create_response(False, error=text)` -/
def errorResponse (text : String) : Message :=
  { msgType := .error
    payload := .obj [("success", .bool false), ("data", .null), ("error", .str text)] }

/-- `Protocol.create_response` -/
def createResponse (success : Bool) (data error : Json) : Message :=
  { msgType := if success then .response else .error
    payload := .obj [("success", .bool success), ("data", data), ("error", error)] }

def createHeartbeat (senderId : String) (term : Nat) (leaderId : String) (members : List Json) :
    Message :=
  { msgType := .heartbeat
    payload := .obj [("leader_id", .str leaderId), ("members", .arr members)]
    senderId := .str senderId
    term := .int term }

def createVoteRequest (senderId : String) (term lastLogIndex lastLogTerm : Nat) : Message :=
  { msgType := .voteRequest
    payload := .obj [("last_log_index", .int lastLogIndex), ("last_log_term", .int lastLogTerm)]
    senderId := .str senderId
    term := .int term }

def createVoteResponse (senderId : String) (term : Nat) (voteGranted : Bool) : Message :=
  { msgType := .voteResponse
    payload := .obj [("vote_granted", .bool voteGranted)]
    senderId := .str senderId
    term := .int term }

def createReplicate (senderId : String) (term : Nat) (entry : Json) (phase : String) : Message :=
  { msgType := .replicate
    payload := .obj [("entry", entry), ("phase", .str phase)]
    senderId := .str senderId
    term := .int term }

def createGossip (senderId : String) (members : List Json) : Message :=
  { msgType := .gossip
    payload := .obj [("members", .arr members)]
    senderId := .str senderId }

/-- Whether a message was sent: `sendall` is the socket's, false when it raises. -/
def sendMessage (F : FloatText) (sendall : List UInt8 → Bool) (message : Message) : Bool :=
  sendall (message.encode F)

end Protocol

namespace Message

/-! ## A frame is read back as its message -/

/-- The values of the message are values JSON can hold. -/
structure Sendable (F : FloatText) (m : Message) : Prop where
  payload : Printable F m.payload
  senderId : Printable F m.senderId
  term : Printable F m.term
  sequence : Printable F m.sequence

theorem Sendable.toJson {F : FloatText} {m : Message} (h : Sendable F m) :
    Printable F m.toJson :=
  ⟨trivial, h.senderId, h.term, h.sequence, h.payload, trivial⟩

theorem ofJson_toJson (m : Message) : ofJson m.toJson = .ok m := by
  have htype : typeOf [("type", .str m.msgType.value), ("sender", m.senderId),
      ("term", m.term), ("seq", m.sequence), ("payload", m.payload)] = .ok m.msgType := by
    have hfield : field? (.obj [("type", .str m.msgType.value), ("sender", m.senderId),
        ("term", m.term), ("seq", m.sequence), ("payload", m.payload)]) "type" =
        some (.str m.msgType.value) := rfl
    simp only [typeOf, hfield, MessageType.ofValue_value]
  rw [toJson, ofJson, htype]
  rfl

theorem printable_line {F : FloatText} {m : Message} (h : Sendable F m) :
    ∀ c ∈ m.line F, PrintableChar c := by
  intro c hc
  rw [line, List.mem_append, List.mem_cons] at hc
  obtain hc | rfl | hc := hc
  · exact printableChar_of_isAlphanum (by
      rw [Char.isAlphanum, isDigit_of_mem_toDigits hc, Bool.or_true])
  · decide
  · exact printableChar_dumps F _ h.toJson c hc

/-- A line begins with a digit and ends with a brace. -/
theorem strip_line {F : FloatText} {m : Message} (h : Sendable F m) :
    strip (m.line F) = m.line F := by
  obtain ⟨cs, hcs⟩ := dumps_obj_last F [("type", .str m.msgType.value), ("sender", m.senderId),
    ("term", m.term), ("seq", m.sequence), ("payload", m.payload)]
  have hjson : dumps F m.toJson = cs ++ ['}'] := hcs
  cases hd : Nat.toDigits 10 (dumps F m.toJson).length with
  | nil => exact absurd hd Nat.toDigits_ne_nil
  | cons d ds =>
    have hline : m.line F = d :: ((ds ++ ':' :: cs) ++ ['}']) := by
      rw [line]
      simp only [hd]
      simp only [hjson, List.cons_append, List.append_assoc]
    have hdigit : d.isDigit := isDigit_of_mem_toDigits (by rw [hd]; exact List.mem_cons_self)
    have hspace : d ≠ ' ' := by
      rintro rfl
      exact absurd hdigit (by decide)
    obtain ⟨hlo, hhi⟩ := printable_line h d (by rw [hline]; exact List.mem_cons_self)
    have hlo : 0x20 < d.toNat :=
      lt_of_le_of_ne hlo fun heq => hspace (Char.toNat_inj.mp heq.symm)
    rw [hline]
    exact strip_of_ends (isStripped_of_range hlo (by omega)) (by decide) _

theorem afterColon_line (F : FloatText) (m : Message) :
    afterColon (m.line F) = dumps F m.toJson := by
  have hcolon : ':' ∉ Nat.toDigits 10 (dumps F m.toJson).length := fun hc =>
    absurd (isDigit_of_mem_toDigits hc) (by decide)
  simp only [afterColon, line, splitFirst_of_not_mem hcolon]

theorem decode_line {F : FloatText} {m : Message} (h : Sendable F m) :
    decode F (encodeUtf8 (m.line F)) = .ok m := by
  have hloads : loads F (dumps F m.toJson) = some m.toJson := loads_dumps F h.toJson
  rw [decode, decodeUtf8_encodeUtf8]
  simp only [strip_line h, afterColon_line, hloads]
  exact ofJson_toJson m

/-- The newline as a byte. -/
def newline : UInt8 := 0x0a

theorem newline_not_mem_line {F : FloatText} {m : Message} (h : Sendable F m) :
    newline ∉ encodeUtf8 (m.line F) := by
  intro hmem
  have hprint := printable_line h
  obtain ⟨c, hc, hcode⟩ :=
    mem_encodeUtf8_ascii (fun c hc => lt_trans (hprint c hc).2 (by decide)) hmem
  have hlo := (hprint c hc).1
  rw [hcode] at hlo
  exact absurd hlo (by decide)

/-- **A frame is one line that is read back**: a message is encoded as a line without a newline
    inside and the newline, and decoding the line gives the message. -/
theorem encode_frame {F : FloatText} {m : Message} (h : Sendable F m) :
    ∃ bytes, m.encode F = bytes ++ [newline] ∧ newline ∉ bytes ∧ bytes ≠ [] ∧
      decode F bytes = .ok m := by
  refine ⟨encodeUtf8 (m.line F), ?_, newline_not_mem_line h, ?_, decode_line h⟩
  · rw [encode, encodeUtf8_append]
    rfl
  · intro hnil
    have hdecode := decodeUtf8_encodeUtf8 (m.line F)
    rw [hnil, show decodeUtf8 [] = some [] from decodeUtf8_encodeUtf8 [], Option.some.injEq,
      line] at hdecode
    simp at hdecode

end Message

end MiniDb.Network
