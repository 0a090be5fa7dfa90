/-
  The receive loop of the server (`network/server.py`): chunks are collected in a buffer, and
  every complete line of it is decoded and handed to the handler.

  `receives_exactly`: however the frames of a list of messages are cut into chunks, with
  receive timeouts between them, the handler is called on these messages, once each and in
  order, and on nothing else. A chunk may end inside a length prefix, and one chunk may hold
  several frames: `takeLines_append` says that only the concatenation matters.

  `calls` and `sent` record what the loop did and do not influence it: a failed send is
  swallowed by `Protocol.send_message`. The table of open connections is not modelled.
-/
import MiniDb.Network.Protocol

namespace MiniDb.Network

open Lib Lib.Json

/-- What one round of the loop meets. -/
inductive Received where
  /-- The bytes received; none when the peer closed the stream. -/
  | chunk (bytes : List UInt8)
  | timeout
  | failure
  /-- `_running` is false. -/
  | stopped

def Received.bytes : Received → List UInt8
  | .chunk bytes => bytes
  | _ => []

/-- The handler, with its own state: an exception, or the response if there is one. -/
abbrev Handler (η : Type) := η → Message → η × Except String (Option Message)

/-- One connection: the buffer and the handler's state, the messages the handler was called on
    and the messages sent back. -/
structure Connection (η : Type) where
  buffer : List UInt8 := []
  state : η
  calls : List Message := []
  sent : List Message := []

namespace TCPServer

variable {η : Type} (F : FloatText) (handler : Handler η) (errorText : DecodeError → String)

/-- A decoded message is handed to the handler, and its response is sent back. -/
def handle (c : Connection η) (message : Message) : Connection η :=
  let (state, outcome) := handler c.state message
  let c := { c with state := state, calls := c.calls ++ [message] }
  match outcome with
  | .ok (some response) => { c with sent := c.sent ++ [response] }
  | .ok none => c
  | .error text => { c with sent := c.sent ++ [Protocol.errorResponse text] }

/-- One line of the buffer. -/
def handleLine (c : Connection η) (line : List UInt8) : Connection η :=
  if line = [] then c
  else match Message.decode F line with
    | .ok message => handle handler c message
    | .error e => { c with sent := c.sent ++ [Protocol.errorResponse (errorText e)] }

/-- A chunk was received: the complete lines are processed, the rest stays in the buffer. -/
def receive (c : Connection η) (chunk : List UInt8) : Connection η :=
  let (lines, rest) := takeLines Message.newline (c.buffer ++ chunk)
  { lines.foldl (handleLine F handler errorText) c with buffer := rest }

/-- `_handle_client`, over what its rounds meet. -/
def handleClient (c : Connection η) : List Received → Connection η
  | [] => c
  | .stopped :: _ => c
  | .failure :: _ => c
  | .timeout :: rs => handleClient c rs
  | .chunk bytes :: rs =>
    if bytes = [] then c
    else handleClient (receive F handler errorText c bytes) rs

/-! ## One line, one chunk -/

variable {F handler errorText}

@[simp] theorem handle_calls (c : Connection η) (message : Message) :
    (handle handler c message).calls = c.calls ++ [message] := by
  unfold handle
  simp only
  split <;> rfl

/-- The messages of the lines that can be decoded. -/
def messages (F : FloatText) (lines : List (List UInt8)) : List Message :=
  (lines.filter (· ≠ [])).filterMap fun line => (Message.decode F line).toOption

theorem handleLine_calls (c : Connection η) (line : List UInt8) :
    (handleLine F handler errorText c line).calls = c.calls ++ messages F [line] := by
  unfold handleLine
  by_cases hnil : line = []
  · simp [hnil, messages]
  · rw [if_neg hnil]
    cases hdecode : Message.decode F line with
    | ok message => simp [messages, hnil, hdecode, Except.toOption]
    | error e => simp [messages, hnil, hdecode, Except.toOption]

theorem messages_append (lines lines' : List (List UInt8)) :
    messages F (lines ++ lines') = messages F lines ++ messages F lines' := by
  simp only [messages, List.filter_append, List.filterMap_append]

theorem foldl_handleLine_calls (c : Connection η) (lines : List (List UInt8)) :
    (lines.foldl (handleLine F handler errorText) c).calls = c.calls ++ messages F lines := by
  induction lines generalizing c with
  | nil => simp [messages]
  | cons line lines ih =>
    rw [List.foldl_cons, ih, handleLine_calls, List.append_assoc, ← messages_append]
    rfl

/-! ## The whole stream -/

/-- Rounds that leave the loop running: timeouts and non-empty chunks. -/
def Open (rs : List Received) : Prop :=
  ∀ r ∈ rs, r = .timeout ∨ ∃ bytes, r = .chunk bytes ∧ bytes ≠ []

/-- **The loop sees the stream only**: it calls the handler on the messages of the complete lines
    of all that was received. -/
theorem handleClient_calls {rs : List Received} (h : Open rs) {c : Connection η}
    (hc : (takeLines Message.newline c.buffer).1 = []) :
    (handleClient F handler errorText c rs).calls =
      c.calls ++ messages F (takeLines Message.newline (c.buffer ++ rs.flatMap (·.bytes))).1 := by
  induction rs generalizing c with
  | nil =>
    rw [List.flatMap_nil, List.append_nil, hc]
    simp [handleClient, messages]
  | cons r rs ih =>
    have ih := fun {c} => ih (c := c) fun r hr => h r (List.mem_cons_of_mem _ hr)
    obtain rfl | ⟨bytes, rfl, hne⟩ := h r List.mem_cons_self
    · exact ih hc
    · have hcalls : (receive F handler errorText c bytes).calls =
          c.calls ++ messages F (takeLines Message.newline (c.buffer ++ bytes)).1 :=
        foldl_handleLine_calls c _
      have hbuffer : (receive F handler errorText c bytes).buffer =
          (takeLines Message.newline (c.buffer ++ bytes)).2 := rfl
      rw [handleClient, if_neg hne, ih (takeLines_rest _ _), hcalls, hbuffer, List.flatMap_cons,
        Received.bytes, ← List.append_assoc, takeLines_append _ (c.buffer ++ bytes),
        messages_append, ← List.append_assoc]

/-- The lines of frames are read as the messages that were framed. -/
theorem messages_frames {ms : List Message} (h : ∀ m ∈ ms, m.Sendable F) :
    messages F (takeLines Message.newline (ms.flatMap (·.encode F))).1 = ms := by
  induction ms with
  | nil => rfl
  | cons m ms ih =>
    obtain ⟨bytes, hencode, hfree, hne, hdecode⟩ := Message.encode_frame (h m List.mem_cons_self)
    have hcut := splitFirst_of_not_mem hfree (ms.flatMap (·.encode F))
    have ih := ih fun m hm => h m (List.mem_cons_of_mem _ hm)
    rw [List.flatMap_cons, hencode, List.append_assoc, List.singleton_append, takeLines_cut hcut,
      ← List.singleton_append, messages_append, ih]
    simp [messages, hne, hdecode, Except.toOption]

/-- **Every message is received exactly once**: when the frames of a list of messages arrive on a
    new connection, cut into chunks in any way, the handler is called on exactly these messages,
    in order. -/
theorem receives_exactly {rs : List Received} (hrs : Open rs) {ms : List Message}
    (hms : ∀ m ∈ ms, m.Sendable F) (hcut : rs.flatMap (·.bytes) = ms.flatMap (·.encode F))
    (state : η) :
    (handleClient F handler errorText { state := state } rs).calls = ms := by
  rw [handleClient_calls hrs rfl, hcut]
  exact messages_frames hms

/-- A payload with the separators of the protocol in it, and a second message. -/
def twoMessages : List Message :=
  [{ msgType := .command, payload := .obj [("cmd:", .str "a\nb:c")] },
    { msgType := .heartbeat, senderId := .str "n1", term := .int 12 }]

/-- Cut inside the length prefix; the rest of the stream comes in one chunk. -/
def cutStream : List Received :=
  let stream := twoMessages.flatMap (·.encode wholeFloats)
  [.chunk (stream.take 1), .timeout, .chunk (stream.drop 1)]

theorem receives_exactly_sample :
    (handleClient wholeFloats (fun n _ => (n + 1, .ok none)) (fun _ => "")
      { state := 0 } cutStream).calls = twoMessages := by
  refine receives_exactly (F := wholeFloats) ?_ ?_ ?_ 0
  · intro r hr
    simp only [cutStream, List.mem_cons, List.not_mem_nil, or_false] at hr
    obtain rfl | rfl | rfl := hr
    · exact .inr ⟨_, rfl, by decide⟩
    · exact .inl rfl
    · exact .inr ⟨_, rfl, by decide⟩
  · intro m hm
    simp only [twoMessages, List.mem_cons, List.not_mem_nil, or_false] at hm
    obtain rfl | rfl := hm
    · exact ⟨⟨trivial, trivial⟩, trivial, trivial, trivial⟩
    · exact ⟨trivial, trivial, trivial, trivial⟩
  · simp only [cutStream, List.flatMap_cons, Received.bytes, List.nil_append, List.flatMap_nil,
      List.append_nil, List.take_append_drop]

end TCPServer

end MiniDb.Network
