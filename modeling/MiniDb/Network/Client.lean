/-
  The TCP client and the connection pool (`network/client.py`): when the client notices that
  its connection is dead.

  A call meets what its socket operations do (`Attempt`): the answers of the failure proxy, of
  `connect` and of `sendall`, and what `recv` gives, one by one. A list of receptions that ends
  before the call does is a call that has not returned (`none`).

  `notices_iff` says which calls leave a broken connection marked as connected: those in which
  sending fails (`Protocol.send_message` swallows the exception and the client returns before
  its own handler) and those that read an empty chunk. Only an exception of `recv`, or of
  decoding the reply, reaches the handler that clears the flag.

  Not modelled: the lock (calls are one after the other) and the proxy's delays.
-/
import MiniDb.Network.Protocol
import MiniDb.Lib.Dict
import MiniDb.Lib.Steps

namespace MiniDb.Network

open Lib Lib.Json

/-! ## What the environment does -/

/-- What making a socket and connecting it comes to. -/
inductive Connecting where
  /-- No socket was made. -/
  | noSocket
  | refused
  | accepted
  deriving DecidableEq

/-- One `connect`: whether the proxy lets it through, and what comes of it. -/
structure Dial where
  allowed : Bool
  connecting : Connecting

/-- One `recv`: a chunk, empty when the peer closed the stream, or an exception. -/
inductive Reception where
  | chunk (bytes : List UInt8)
  | raised

/-- What a call meets that sends something. -/
structure Attempt where
  allowed : Bool
  dial : Dial
  sendall : List UInt8 → Bool
  replies : List Reception

/-- How a call ended; only an answer and a message sent count as success to the caller. -/
inductive Outcome where
  /-- Blocked by the proxy, or not connected. -/
  | unconnected
  | unsent
  | closed
  | raised
  | sent
  | answered (m : Message)

/-! ## The client -/

/-- Sockets are numbered in the order in which they were made. -/
structure TCPClient where
  nodeId : String
  socket : Option Nat := none
  made : Nat := 0
  connected : Bool := false

namespace TCPClient

def connect (c : TCPClient) (dial : Dial) : TCPClient × Bool :=
  if dial.allowed then
    match dial.connecting with
    | .noSocket => ({ c with connected := false }, false)
    | .refused => ({ c with socket := some c.made, made := c.made + 1, connected := false }, false)
    | .accepted => ({ c with socket := some c.made, made := c.made + 1, connected := true }, true)
  else ({ c with connected := false }, false)

def disconnect (c : TCPClient) : TCPClient := { c with connected := false, socket := none }

variable (F : FloatText) (upper : String → String)

/-- The loop that reads a reply, with what is in its buffer. -/
def readReply (buffer : List UInt8) : List Reception → Option Outcome
  | [] => none
  | .raised :: _ => some .raised
  | .chunk bytes :: rs =>
    if bytes = [] then some .closed
    else match splitFirst Message.newline (buffer ++ bytes) with
      | some (line, _) =>
        match Message.decode F line with
        | .ok m => some (.answered m)
        | .error _ => some .raised
      | none => readReply (buffer ++ bytes) rs

/-- The checks before anything is sent: the client, and whether it is connected then. -/
def ready (c : TCPClient) (a : Attempt) : TCPClient × Bool :=
  if a.allowed then
    if c.connected then (c, true) else c.connect a.dial
  else (c.disconnect, false)

/-- `self._socket` is there, and `Protocol.send_message` succeeds. -/
def send (c : TCPClient) (a : Attempt) (message : Message) : Bool :=
  c.socket.isSome && Protocol.sendMessage F a.sendall message

/-- An exception clears the flag; the other outcomes leave it. -/
def after (c : TCPClient) : Outcome → TCPClient × Outcome
  | .raised => ({ c with connected := false }, .raised)
  | outcome => (c, outcome)

/-- `send_message` -/
def sendMessage (c : TCPClient) (message : Message) (a : Attempt) :
    Option (TCPClient × Outcome) :=
  let (c, isReady) := c.ready a
  if isReady then
    if send F c a message then (readReply F [] a.replies).map c.after
    else some (c, .unsent)
  else some (c, .unconnected)

/-- `send_command`: `send_message` with the command's message. -/
def sendCommand (c : TCPClient) (command : String) (args : List Json) (a : Attempt) :
    Option (TCPClient × Outcome) :=
  c.sendMessage F (Protocol.createCommand upper command args c.nodeId) a

/-- `send_message_no_response` -/
def sendMessageNoResponse (c : TCPClient) (message : Message) (a : Attempt) :
    TCPClient × Outcome :=
  let (c, isReady) := c.ready a
  if isReady then
    if send F c a message then (c, .sent) else (c, .unsent)
  else (c, .unconnected)

end TCPClient

/-- The connections of one thread. -/
structure ConnectionPool where
  nodeId : String
  connections : Dict String TCPClient

namespace ConnectionPool

def key (host : String) (port : Nat) : String := host ++ ":" ++ toString port

def getConnection (p : ConnectionPool) (host : String) (port : Nat) (dial : Dial) :
    ConnectionPool × TCPClient :=
  let client := (p.connections.get? (key host port)).getD { nodeId := p.nodeId }
  let client := if client.connected then client else (client.connect dial).1
  ({ p with connections := p.connections.set (key host port) client }, client)

end ConnectionPool

namespace TCPClient

variable (F : FloatText) (upper : String → String)

/-! ## Calls one after the other -/

inductive Call where
  | connect (dial : Dial)
  | disconnect
  | sendCommand (command : String) (args : List Json) (a : Attempt)
  | sendMessage (message : Message) (a : Attempt)
  | sendMessageNoResponse (message : Message) (a : Attempt)

/-- One call; `none` when it has not returned. -/
def step (c : TCPClient) : Call → Option TCPClient
  | .connect dial => some (c.connect dial).1
  | .disconnect => some c.disconnect
  | .sendCommand command args a => (c.sendCommand F upper command args a).map Prod.fst
  | .sendMessage message a => (c.sendMessage F message a).map Prod.fst
  | .sendMessageNoResponse message a => some (c.sendMessageNoResponse F message a).1

/-- The message that a call sends, and what it meets. -/
def Call.sends (c : TCPClient) : Call → Option (Message × Attempt)
  | .sendCommand command args a =>
    some (Protocol.createCommand upper command args c.nodeId, a)
  | .sendMessage message a => some (message, a)
  | .sendMessageNoResponse message a => some (message, a)
  | _ => none

/-- What a call can receive. -/
def Call.replies : Call → List Reception
  | .sendCommand _ _ a => a.replies
  | .sendMessage _ a => a.replies
  | _ => []

/-- A call with this attempt gets as far as sending. -/
def Reaches (c : TCPClient) (a : Attempt) : Prop :=
  a.allowed = true ∧ (c.connected = true ∨ a.dial.allowed = true ∧ a.dial.connecting = .accepted)

/-- The call gets as far as sending, with this result. -/
def Sends (c : TCPClient) (call : Call) (sent : Bool) : Prop :=
  ∃ message a, call.sends upper c = some (message, a) ∧ c.Reaches a ∧
    a.sendall (message.encode F) = sent

def Reception.bytes : Reception → List UInt8
  | .chunk bytes => bytes
  | .raised => []

/-- Receptions that leave a call waiting: chunks, and no newline in them. -/
def Waiting (rs : List Reception) : Prop :=
  (∀ r ∈ rs, ∃ bytes, r = .chunk bytes ∧ bytes ≠ []) ∧
    Message.newline ∉ rs.flatMap Reception.bytes

/-- The call sends its message and meets `r` while it waits for the reply. -/
def Meets (c : TCPClient) (call : Call) (r : Reception) : Prop :=
  c.Sends F upper call true ∧
    ∃ before later, call.replies = before ++ r :: later ∧ Waiting before

/-- The connection breaks in this call: sending fails, the peer closes the stream, or receiving
    raises. -/
def Breaks (c : TCPClient) (call : Call) : Prop :=
  c.Sends F upper call false ∨ c.Meets F upper call (.chunk []) ∨ c.Meets F upper call .raised

/-- The client is not connected, and the next use through a pool makes a new connection. -/
def Forgotten (c : TCPClient) : Prop :=
  c.connected = false ∧
    ∀ (p : ConnectionPool) (host : String) (port : Nat) (dial : Dial),
      p.connections.get? (ConnectionPool.key host port) = some c →
      dial.allowed = true → dial.connecting = .accepted →
      (p.getConnection host port dial).2.connected = true ∧
        (p.getConnection host port dial).2.socket ≠ c.socket

/-- Sending does not fail in the call, and it does not read the end of the stream. -/
def Noticed (c : TCPClient) (call : Call) : Prop :=
  ¬ c.Sends F upper call false ∧ ¬ c.Meets F upper call (.chunk [])

/-! ## What one call does -/

/-- The socket is one of those made, and a connected client has one. -/
structure Valid (c : TCPClient) : Prop where
  made : ∀ n ∈ c.socket, n < c.made
  socket : c.connected = true → c.socket.isSome

variable {F upper}

theorem valid_new (nodeId : String) : Valid { nodeId := nodeId } where
  made _ hn := by cases hn
  socket hc := by cases hc

theorem valid_connect {c : TCPClient} (h : Valid c) (dial : Dial) : Valid (c.connect dial).1 := by
  have hnew : ∀ n ∈ some c.made, n < c.made + 1 := by
    intro n hn
    rw [← Option.some.inj hn]
    exact Nat.lt_succ_self _
  unfold connect
  split
  · split
    · exact ⟨h.made, fun hc => absurd hc (by simp)⟩
    · exact ⟨hnew, fun _ => rfl⟩
    · exact ⟨hnew, fun _ => rfl⟩
  · exact ⟨h.made, fun hc => absurd hc (by simp)⟩

theorem valid_disconnect (c : TCPClient) : Valid c.disconnect where
  made _ hn := by cases hn
  socket hc := by cases hc

/-- Where the proxy and the peer let it, connecting makes a new socket. -/
theorem connect_accepted (c : TCPClient) {dial : Dial}
    (h : dial.allowed = true ∧ dial.connecting = .accepted) :
    c.connect dial =
      ({ c with socket := some c.made, made := c.made + 1, connected := true }, true) := by
  simp only [connect, h.1, h.2, if_true]

theorem forgotten_of_not_connected {c : TCPClient} (h : Valid c) (hc : c.connected = false) :
    Forgotten c := by
  refine ⟨hc, fun p host port dial hget ha hacc => ?_⟩
  have hclient : (p.getConnection host port dial).2 = (c.connect dial).1 := by
    simp only [ConnectionPool.getConnection, hget, Option.getD_some, hc, Bool.false_eq_true,
      if_false]
  rw [hclient, connect_accepted c ⟨ha, hacc⟩]
  refine ⟨rfl, fun hsame => ?_⟩
  exact absurd (h.made c.made hsame.symm) (lt_irrefl _)

theorem valid_ready {c : TCPClient} (h : Valid c) (a : Attempt) : Valid (c.ready a).1 := by
  unfold ready
  split
  · split
    · exact h
    · exact valid_connect h a.dial
  · exact valid_disconnect c

/-- A call that reaches sending is connected then. -/
theorem ready_reaches {c : TCPClient} {a : Attempt} (h : c.Reaches a) :
    ∃ c', c.ready a = (c', true) ∧ c'.connected = true := by
  unfold ready
  rw [if_pos h.1]
  by_cases hc : c.connected = true
  · exact ⟨c, if_pos hc, hc⟩
  · rw [if_neg hc, connect_accepted c (h.2.resolve_left hc)]
    exact ⟨_, rfl, rfl⟩

/-- While it waits, the client collects what it receives. -/
theorem readReply_waiting {buffer : List UInt8} {before : List Reception} (hw : Waiting before)
    (hb : Message.newline ∉ buffer) (later : List Reception) :
    readReply F buffer (before ++ later) =
      readReply F (buffer ++ before.flatMap Reception.bytes) later := by
  induction before generalizing buffer with
  | nil => rw [List.flatMap_nil, List.append_nil, List.nil_append]
  | cons r before ih =>
    obtain ⟨bytes, rfl, hne⟩ := hw.1 r List.mem_cons_self
    obtain ⟨hchunks, hfree⟩ := hw
    rw [List.flatMap_cons, Reception.bytes, List.mem_append, not_or] at hfree
    have hbuffer : Message.newline ∉ buffer ++ bytes := by
      rw [List.mem_append, not_or]
      exact ⟨hb, hfree.1⟩
    rw [List.cons_append, readReply, if_neg hne, splitFirst_eq_none hbuffer, List.flatMap_cons,
      Reception.bytes, ← List.append_assoc]
    exact ih ⟨fun r hr => hchunks r (List.mem_cons_of_mem _ hr), hfree.2⟩ hbuffer

/-- What the two ways of sending come to, once the call reaches sending. -/
theorem sendMessage_reaches {c : TCPClient} (h : Valid c) {a : Attempt} (hr : c.Reaches a)
    (message : Message) :
    ∃ c', c'.connected = true ∧
      c.sendMessage F message a =
        (if a.sendall (message.encode F) then (readReply F [] a.replies).map c'.after
          else some (c', .unsent)) ∧
      c.sendMessageNoResponse F message a =
        (if a.sendall (message.encode F) then (c', .sent) else (c', .unsent)) := by
  obtain ⟨c', hready, hc'⟩ := ready_reaches hr
  have hvalid := valid_ready h a
  rw [hready] at hvalid
  refine ⟨c', hc', ?_, ?_⟩
  · simp only [sendMessage, hready, send, hvalid.socket hc', Protocol.sendMessage, Bool.true_and,
      if_true]
  · simp only [sendMessageNoResponse, hready, send, hvalid.socket hc', Protocol.sendMessage,
      Bool.true_and, if_true]

/-- A call with a message waits for its reply, or does not. -/
theorem step_of_sends {c : TCPClient} {call : Call} {message : Message} {a : Attempt}
    (h : call.sends upper c = some (message, a)) :
    call.replies = a.replies ∧
        c.step F upper call = (c.sendMessage F message a).map Prod.fst ∨
      call.replies = [] ∧
        c.step F upper call = some (c.sendMessageNoResponse F message a).1 := by
  cases call with
  | connect dial => cases h
  | disconnect => cases h
  | sendCommand command args a' =>
    obtain ⟨rfl, rfl⟩ := Prod.mk.inj (Option.some.inj h)
    exact .inl ⟨rfl, rfl⟩
  | sendMessage message' a' =>
    obtain ⟨rfl, rfl⟩ := Prod.mk.inj (Option.some.inj h)
    exact .inl ⟨rfl, rfl⟩
  | sendMessageNoResponse message' a' =>
    obtain ⟨rfl, rfl⟩ := Prod.mk.inj (Option.some.inj h)
    exact .inr ⟨rfl, rfl⟩

/-- The flag after a call whose sending failed. -/
theorem connected_unsent {c c' : TCPClient} (h : Valid c) {call : Call}
    (hs : c.Sends F upper call false) (hstep : c.step F upper call = some c') :
    c'.connected = true := by
  obtain ⟨message, a, hsends, hr, hsend⟩ := hs
  obtain ⟨d, hd, hwith, hwithout⟩ := sendMessage_reaches (F := F) h hr message
  rw [hsend] at hwith hwithout
  rcases step_of_sends (F := F) hsends with ⟨-, hcall⟩ | ⟨-, hcall⟩
  · rw [hcall, hwith] at hstep
    exact Option.some.inj hstep ▸ hd
  · rw [hcall, hwithout] at hstep
    exact Option.some.inj hstep ▸ hd

/-- After a call that waits for a reply and meets `r`: what `r` makes of it. -/
theorem step_meets {c : TCPClient} (h : Valid c) {call : Call} {r : Reception}
    (hm : c.Meets F upper call r) :
    ∃ (c' : TCPClient) (buffer : List UInt8) (later : List Reception), c'.connected = true ∧
      c.step F upper call = ((readReply F buffer (r :: later)).map c'.after).map Prod.fst := by
  obtain ⟨⟨message, a, hsends, hr, hsend⟩, before, later, hreplies, hw⟩ := hm
  obtain ⟨d, hd, hwith, -⟩ := sendMessage_reaches (F := F) h hr message
  have hread : readReply F [] (before ++ r :: later) =
      readReply F (before.flatMap Reception.bytes) (r :: later) :=
    readReply_waiting hw (List.not_mem_nil) (r :: later)
  rw [hsend, if_pos rfl] at hwith
  refine ⟨d, before.flatMap Reception.bytes, later, hd, ?_⟩
  rcases step_of_sends (F := F) hsends with ⟨hanswered, hcall⟩ | ⟨hsilent, -⟩
  · rw [hcall, hwith, ← hread, ← hreplies, hanswered]
  · rw [hsilent] at hreplies
    exact absurd hreplies.symm (List.append_ne_nil_of_right_ne_nil _ (List.cons_ne_nil _ _))

theorem connected_closed {c c' : TCPClient} (h : Valid c) {call : Call}
    (hm : c.Meets F upper call (.chunk [])) (hstep : c.step F upper call = some c') :
    c'.connected = true := by
  obtain ⟨d, buffer, later, hd, hmeets⟩ := step_meets h hm
  rw [hmeets, readReply, if_pos rfl] at hstep
  exact Option.some.inj hstep ▸ hd

theorem connected_raised {c c' : TCPClient} (h : Valid c) {call : Call}
    (hm : c.Meets F upper call .raised) (hstep : c.step F upper call = some c') :
    c'.connected = false := by
  obtain ⟨d, buffer, later, -, hmeets⟩ := step_meets h hm
  rw [hmeets, readReply] at hstep
  rw [← Option.some.inj hstep]
  rfl

theorem valid_after {c : TCPClient} (h : Valid c) (outcome : Outcome) :
    Valid (c.after outcome).1 := by
  unfold after
  split
  · exact ⟨h.made, fun hc => by cases hc⟩
  · exact h

theorem valid_sendMessage {c : TCPClient} (h : Valid c) {message : Message} {a : Attempt}
    {p : TCPClient × Outcome} (hs : c.sendMessage F message a = some p) : Valid p.1 := by
  have hready := valid_ready h a
  unfold sendMessage at hs
  simp only at hs
  split at hs
  · split at hs
    · obtain ⟨outcome, -, rfl⟩ := Option.map_eq_some_iff.mp hs
      exact valid_after hready outcome
    · obtain rfl := Option.some.inj hs
      exact hready
  · obtain rfl := Option.some.inj hs
    exact hready

theorem valid_step {c c' : TCPClient} (h : Valid c) {call : Call}
    (hs : c.step F upper call = some c') : Valid c' := by
  cases call with
  | connect dial =>
    obtain rfl := Option.some.inj hs
    exact valid_connect h dial
  | disconnect =>
    obtain rfl := Option.some.inj hs
    exact valid_disconnect c
  | sendCommand command args a =>
    obtain ⟨p, hp, rfl⟩ := Option.map_eq_some_iff.mp hs
    exact valid_sendMessage h hp
  | sendMessage message a =>
    obtain ⟨p, hp, rfl⟩ := Option.map_eq_some_iff.mp hs
    exact valid_sendMessage h hp
  | sendMessageNoResponse message a =>
    obtain rfl := Option.some.inj hs
    have hready := valid_ready h a
    unfold sendMessageNoResponse
    simp only
    split
    · split <;> exact hready
    · exact hready

/-- **One call**: what breaks in it is forgotten if and only if it is noticed. -/
theorem forgotten_iff {c c' : TCPClient} (h : Valid c) {call : Call}
    (hs : c.step F upper call = some c') :
    (c.Breaks F upper call → Forgotten c') ↔ c.Noticed F upper call := by
  constructor
  · intro hforget
    constructor
    · intro hunsent
      have hfalse := (hforget (.inl hunsent)).1
      rw [connected_unsent h hunsent hs] at hfalse
      cases hfalse
    · intro hclosed
      have hfalse := (hforget (.inr (.inl hclosed))).1
      rw [connected_closed h hclosed hs] at hfalse
      cases hfalse
  · rintro ⟨hsent, hopen⟩ (hunsent | hclosed | hraised)
    · exact absurd hunsent hsent
    · exact absurd hclosed hopen
    · exact forgotten_of_not_connected (valid_step h hs) (connected_raised h hraised hs)

/-- **Exactly when a client notices that its connection broke**: in every run of calls on a new
    client, after every call in which sending failed, the peer closed the stream or receiving
    raised, the client is not connected and a pool makes a new connection, if and only if in no
    call sending fails or the end of the stream is read. -/
theorem notices_iff {nodeId : String} {t : TCPClient} {calls : List Call}
    (he : exec (step F upper) { nodeId := nodeId } calls = some t) :
    Each (step F upper) (fun c call c' => c.Breaks F upper call → Forgotten c')
        { nodeId := nodeId } calls ↔
      Along (step F upper) (fun c call => c.Noticed F upper call) { nodeId := nodeId } calls := by
  have hinv : ∀ c call c', Valid c → step F upper c call = some c' → Valid c' :=
    fun c call c' h hs => valid_step h hs
  have hone : ∀ c call c', Valid c → step F upper c call = some c' →
      ((c.Breaks F upper call → Forgotten c') ↔ c.Noticed F upper call) :=
    fun c call c' h hs => forgotten_iff h hs
  exact each_step_iff (fun s l s' h hs _ => hinv s l s' h hs) hone (valid_new nodeId) he

/-! ### A heartbeat to a peer that went away -/

def accepted : Call := .connect ⟨true, .accepted⟩

/-- A heartbeat whose `sendall` raises. -/
def brokenPipe : Call :=
  .sendMessageNoResponse { msgType := .heartbeat } ⟨true, ⟨true, .accepted⟩, fun _ => false, []⟩

theorem notices_iff_sample :
    Each (step wholeFloats id) (fun c call c' => c.Breaks wholeFloats id call → Forgotten c')
        { nodeId := "n1" } [accepted, brokenPipe] ↔
      Along (step wholeFloats id) (fun c call => c.Noticed wholeFloats id call)
        { nodeId := "n1" } [accepted, brokenPipe] :=
  notices_iff (t := ⟨"n1", some 0, 1, true⟩) rfl

/-- The client still counts as connected, and the pool hands its dead socket out again. -/
theorem broken_pipe_reused :
    ∃ c c', exec (step wholeFloats id) { nodeId := "n1" } [accepted] = some c ∧
      c.Breaks wholeFloats id brokenPipe ∧ c.step wholeFloats id brokenPipe = some c' ∧
      c'.connected = true ∧
      ((⟨"n1", Dict.empty.set "h:7001" c'⟩ : ConnectionPool).getConnection "h" 7001
        ⟨true, .accepted⟩).2.socket = c'.socket := by
  refine ⟨⟨"n1", some 0, 1, true⟩, ⟨"n1", some 0, 1, true⟩, rfl, .inl ?_, rfl, rfl, rfl⟩
  exact ⟨_, _, rfl, ⟨rfl, .inl rfl⟩, rfl⟩

end TCPClient

end MiniDb.Network
