/-
  A client and the server over their connections (`network/client.py`, `network/server.py`).

  The client writes one call at a time and waits for its reply; the server has one receive loop
  for each connection, and all of them share the handler. Bytes travel in both directions, in
  chunks of any size. A call that gives up leaves its connection behind, with a request that may
  still be handled later; the next call makes a new connection.

  `replies_match`: a reply that a call returns is what the handler answered to the message of
  this call, after it was sent and before the reply was returned. The client takes the first
  line that arrives for the reply, so that this rests on the invariant `Current`: when a call
  begins, no line is on its way. A message that is sent without waiting must not be answered.
-/
import MiniDb.Network.Client
import MiniDb.Network.Server

namespace MiniDb.Network

open Lib Lib.Json

/-- The bytes of one connection that are on their way, or in the buffer of the server's loop. -/
structure Channel where
  toServer : List UInt8 := []
  buffer : List UInt8 := []
  toClient : List UInt8 := []
  /-- The server has not closed it. -/
  isOpen : Bool := true

namespace Session

/-- What happened on the connection `n`. -/
inductive Event where
  /-- A call wrote its message. -/
  | called (n : Nat) (m : Message)
  /-- A message was written without waiting for a reply. -/
  | notified (n : Nat) (m : Message)
  | handled (n : Nat) (m : Message) (responses : List Message)
  | returned (n : Nat) (m reply : Message)

end Session

/-- One client, its connections by the number of their socket, and the state of the handler. -/
structure Session (η : Type) where
  client : TCPClient
  /-- The message of the call that waits, and what it has received. -/
  waiting : Option (Message × List UInt8) := none
  channels : Nat → Channel := fun _ => {}
  state : η
  history : List Session.Event := []

namespace Session

variable {η : Type}

/-- A call meets what `Attempt` says about the proxy and the dialling; its replies are steps. -/
inductive Label where
  | connect (dial : Dial)
  | disconnect
  | call (m : Message) (a : Attempt)
  | notify (m : Message) (a : Attempt)
  /-- Sending raises after `k` bytes. -/
  | unsent (m : Message) (k : Nat) (a : Attempt)
  | recv (r : Reception)
  | serverRecv (n k : Nat)
  | serverLine (n : Nat)
  | serverClose (n : Nat)

def setChannel (s : Session η) (n : Nat) (c : Channel) : Session η :=
  { s with channels := Function.update s.channels n c }

def log (s : Session η) (events : List Event) : Session η :=
  { s with history := s.history ++ events }

/-- `sendall` on the socket `n`. -/
def write (s : Session η) (n : Nat) (bytes : List UInt8) : Session η :=
  s.setChannel n { s.channels n with toServer := (s.channels n).toServer ++ bytes }

/-- The socket on which a call sends, if it gets as far. -/
def sendingOn (c : TCPClient) (a : Attempt) : Option Nat :=
  if (c.ready a).2 then (c.ready a).1.socket else none

/-- What `recv` can give: bytes that have arrived, the end of a closed stream, an exception. -/
def Receivable (c : Channel) : Reception → Prop
  | .chunk [] => c.isOpen = false ∧ c.toClient = []
  | .chunk bytes => bytes <+: c.toClient
  | .raised => True

instance (c : Channel) (r : Reception) : Decidable (Receivable c r) := by
  unfold Receivable
  split <;> infer_instance

/-- A call that ended with a reply. -/
def returnedEvents (n : Nat) (m : Message) : Outcome → List Event
  | .answered reply => [.returned n m reply]
  | _ => []

variable (F : FloatText) (handler : Handler η) (errorText : DecodeError → String)

def step (s : Session η) : Label → Option (Session η)
  | .connect dial =>
    if s.waiting.isNone then some { s with client := (s.client.connect dial).1 } else none
  | .disconnect => if s.waiting.isNone then some { s with client := s.client.disconnect } else none
  | .call m a =>
    if s.waiting.isNone then
      let ready := { s with client := (s.client.ready a).1 }
      match sendingOn s.client a with
      | some n =>
        some (({ ready with waiting := some (m, []) }.write n (m.encode F)).log [.called n m])
      | none => some ready
    else none
  | .notify m a =>
    if s.waiting.isNone then
      let ready := { s with client := (s.client.ready a).1 }
      match sendingOn s.client a with
      | some n => some ((ready.write n (m.encode F)).log [.notified n m])
      | none => some ready
    else none
  | .unsent m k a =>
    if s.waiting.isNone then
      let ready := { s with client := (s.client.ready a).1 }
      match sendingOn s.client a with
      | some n => some (ready.write n ((m.encode F).take k))
      | none => some ready
    else none
  | .recv r =>
    match s.waiting, s.client.socket with
    | some (m, buffer), some n =>
      if Receivable (s.channels n) r then
        let c := s.channels n
        let bytes := TCPClient.Reception.bytes r
        let s := s.setChannel n { c with toClient := c.toClient.drop bytes.length }
        match TCPClient.readReply F buffer [r] with
        | none => some { s with waiting := some (m, buffer ++ bytes) }
        | some outcome =>
          some ({ s with client := (s.client.after outcome).1, waiting := none }.log
            (returnedEvents n m outcome))
      else none
    | _, _ => none
  | .serverRecv n k =>
    let c := s.channels n
    if c.isOpen ∧ Message.newline ∉ c.buffer ∧ 0 < k ∧ k ≤ c.toServer.length then
      some (s.setChannel n
        { c with buffer := c.buffer ++ c.toServer.take k, toServer := c.toServer.drop k })
    else none
  | .serverLine n =>
    let c := s.channels n
    if c.isOpen then
      (splitFirst Message.newline c.buffer).map fun p =>
        let done := TCPServer.handleLine F handler errorText { state := s.state } p.1
        (({ s with state := done.state }.setChannel n
          { c with
            buffer := p.2
            toClient := c.toClient ++ done.sent.flatMap (Message.encode F) })).log
          (done.calls.map fun m => .handled n m done.sent)
    else none
  | .serverClose n =>
    if n < s.client.made then some (s.setChannel n { s.channels n with isOpen := false }) else none

/-! ## What the history says -/

/-- The message that was written on `n`. -/
def Event.written (n : Nat) : Event → Option Message
  | .called k m => if k = n then some m else none
  | .notified k m => if k = n then some m else none
  | _ => none

def Event.received (n : Nat) : Event → Option Message
  | .handled k m _ => if k = n then some m else none
  | _ => none

def writtenOn (n : Nat) (h : List Event) : List Message := h.filterMap (Event.written n)

def handledOn (n : Nat) (h : List Event) : List Message := h.filterMap (Event.received n)

def Event.IsCall : Event → Prop
  | .called _ _ => True
  | _ => False

/-- The last call wrote `m` on `n`. -/
def Called (h : List Event) (n : Nat) (m : Message) : Prop :=
  ∃ before since, h = before ++ .called n m :: since ∧ ∀ e ∈ since, ¬ e.IsCall

/-- The last call wrote `m` on `n`, and the handler has answered `r` to it since. -/
def Answered (h : List Event) (n : Nat) (m r : Message) : Prop :=
  ∃ before since, h = before ++ .called n m :: since ∧ (∀ e ∈ since, ¬ e.IsCall) ∧
    .handled n m [r] ∈ since

/-- Every reply that was returned is the answer to the message of its call. -/
def Matched (h : List Event) : Prop :=
  ∀ before n m r after, h = before ++ .returned n m r :: after → Answered before n m r

/-- The state of the handler after the messages that were handled. -/
def replay (handler : Handler η) : η → List Event → η
  | state, [] => state
  | state, .handled _ m _ :: es => replay handler (handler state m).1 es
  | state, _ :: es => replay handler state es

/-- What is sent back for what the handler gave. -/
def responses : Except String (Option Message) → List Message
  | .ok (some response) => [response]
  | .ok none => []
  | .error text => [Protocol.errorResponse text]

/-- Every message was one of the peer's, and answered by what the handler gives for it after
    those before, on whatever connections. -/
def Serial (handler : Handler η) (allowed : Message → Prop) (good : η → Prop) (state : η)
    (h : List Event) : Prop :=
  ∀ before n m rs after, h = before ++ .handled n m rs :: after →
    allowed m ∧ good (replay handler state before) ∧
      rs = responses (handler (replay handler state before) m).2

theorem Called.append {h : List Event} {n : Nat} {m : Message} (hc : Called h n m)
    {es : List Event} (hes : ∀ e ∈ es, ¬ e.IsCall) : Called (h ++ es) n m := by
  obtain ⟨before, since, rfl, hsince⟩ := hc
  refine ⟨before, since ++ es, by rw [List.append_assoc, List.cons_append], fun e he => ?_⟩
  exact (List.mem_append.mp he).elim (hsince e) (hes e)

theorem Answered.append {h : List Event} {n : Nat} {m r : Message} (ha : Answered h n m r)
    {es : List Event} (hes : ∀ e ∈ es, ¬ e.IsCall) : Answered (h ++ es) n m r := by
  obtain ⟨before, since, rfl, hsince, hmem⟩ := ha
  refine ⟨before, since ++ es, by rw [List.append_assoc, List.cons_append], fun e he => ?_,
    List.mem_append_left _ hmem⟩
  exact (List.mem_append.mp he).elim (hsince e) (hes e)

/-- An answer to the message of the last call. -/
theorem Called.answered {h : List Event} {n : Nat} {m : Message} (hc : Called h n m)
    (r : Message) : Answered (h ++ [.handled n m [r]]) n m r := by
  obtain ⟨before, since, rfl, hsince⟩ := hc
  refine ⟨before, since ++ [.handled n m [r]], by rw [List.append_assoc, List.cons_append],
    fun e he => ?_, List.mem_append_right _ (List.mem_singleton.mpr rfl)⟩
  rcases List.mem_append.mp he with he | he
  · exact hsince e he
  · rw [List.mem_singleton.mp he]
    exact id

/-- Only a reply that is returned has to be matched. -/
theorem Matched.append {h : List Event} (hm : Matched h) {e : Event}
    (he : ∀ n m r, e = .returned n m r → Answered h n m r) : Matched (h ++ [e]) := by
  intro before n m r after heq
  rcases List.eq_nil_or_concat after with rfl | ⟨after, last, rfl⟩
  · obtain ⟨rfl, hlast⟩ := List.append_inj' heq rfl
    exact he n m r (List.cons.inj hlast).1
  · have hsplit : h ++ [e] = (before ++ .returned n m r :: after) ++ [last] := by
      rw [heq, List.append_assoc, List.cons_append, List.concat_eq_append]
    obtain ⟨hfirst, -⟩ := List.append_inj' hsplit rfl
    exact hm before n m r after hfirst

@[simp] theorem writtenOn_append (n : Nat) (h h' : List Event) :
    writtenOn n (h ++ h') = writtenOn n h ++ writtenOn n h' := List.filterMap_append

@[simp] theorem handledOn_append (n : Nat) (h h' : List Event) :
    handledOn n (h ++ h') = handledOn n h ++ handledOn n h' := List.filterMap_append

/-! ## What is on its way -/

def frames (F : FloatText) (ms : List Message) : List UInt8 := ms.flatMap (Message.encode F)

/-- The handler never answers to the message. -/
def Silent (handler : Handler η) (good : η → Prop) (m : Message) : Prop :=
  ∀ state, good state → (handler state m).2 = .ok none

/-- What the matching asks of the handler, for the messages of its peer and the states that they
    lead to. -/
structure Serves (F : FloatText) (handler : Handler η) (allowed : Message → Prop)
    (good : η → Prop) : Prop where
  sendable : ∀ m, allowed m → m.Sendable F
  keeps : ∀ state m, good state → allowed m → good (handler state m).1
  answers : ∀ state m r, good state → allowed m → (handler state m).2 = .ok (some r) →
    r.Sendable F

variable {F handler errorText} {allowed : Message → Prop} {good : η → Prop}

/-- The messages `ps` are on their way to the handler, on the connection `n`. -/
structure Underway (F : FloatText) (allowed : Message → Prop) (s : Session η) (n : Nat)
    (ps : List Message) : Prop where
  sent : ∀ p ∈ ps, allowed p
  bytes : (s.channels n).buffer ++ (s.channels n).toServer = frames F ps
  written : writtenOn n s.history = handledOn n s.history ++ ps

/-- No call waits: nothing is on its way to the client, and nothing will be answered. -/
def Resting (handler : Handler η) (good : η → Prop) (c : Channel) (ps : List Message) : Prop :=
  c.toClient = [] ∧ (c.isOpen = true → ∀ p ∈ ps, Silent handler good p)

/-- The call of `m` waits and has received `received`: either it is not answered yet, and only
    its own message can be, or its answer is all that is on its way. -/
def Expecting (F : FloatText) (handler : Handler η) (good : η → Prop) (h : List Event) (n : Nat)
    (c : Channel) (ps : List Message) (m : Message) (received : List UInt8) : Prop :=
  (received = [] ∧ c.toClient = [] ∧ (c.isOpen = true → ps = [] ∨
      Called h n m ∧ ∃ ns, ps = ns ++ [m] ∧ ∀ p ∈ ns, Silent handler good p)) ∨
    (ps = [] ∧ Message.newline ∉ received ∧ ∃ r, r.Sendable F ∧
      received ++ c.toClient = r.encode F ∧ Answered h n m r)

/-- The state of the connection in use. -/
def Current (F : FloatText) (handler : Handler η) (good : η → Prop) (s : Session η) (n : Nat)
    (ps : List Message) : Prop :=
  match s.waiting with
  | none => Resting handler good (s.channels n) ps
  | some (m, received) => Expecting F handler good s.history n (s.channels n) ps m received

structure Inv (F : FloatText) (handler : Handler η) (allowed : Message → Prop) (good : η → Prop)
    (s : Session η) : Prop where
  kept : good s.state
  valid : s.client.Valid
  waiting : s.waiting.isSome → s.client.connected = true
  fresh : ∀ n, s.client.made ≤ n → s.channels n = {} ∧ writtenOn n s.history = []
  underway : ∀ n, ∃ ps, Underway F allowed s n ps ∧
    (s.client.connected = true → s.client.socket = some n → Current F handler good s n ps)
  matched : Matched s.history

/-! ## The server's side -/

theorem handle_result (handler : Handler η) (m : Message) (state : η) :
    (TCPServer.handle handler { state := state } m).state = (handler state m).1 ∧
      (TCPServer.handle handler { state := state } m).sent = responses (handler state m).2 := by
  unfold TCPServer.handle responses
  simp only
  cases (handler state m).2 with
  | ok response =>
    cases response with
    | none => exact ⟨rfl, rfl⟩
    | some r => exact ⟨rfl, rfl⟩
  | error text => exact ⟨rfl, rfl⟩

theorem handleLine_message (handler : Handler η) (errorText : DecodeError → String)
    {line : List UInt8} (hne : line ≠ []) {m : Message}
    (hdecode : Message.decode F line = .ok m) (state : η) :
    (TCPServer.handleLine F handler errorText { state := state } line).calls = [m] ∧
      (TCPServer.handleLine F handler errorText { state := state } line).state =
          (handler state m).1 ∧
      (TCPServer.handleLine F handler errorText { state := state } line).sent =
        responses (handler state m).2 := by
  unfold TCPServer.handleLine
  rw [if_neg hne, hdecode]
  exact ⟨TCPServer.handle_calls _ m, handle_result handler m state⟩

theorem sendable_errorResponse (text : String) : (Protocol.errorResponse text).Sendable F :=
  ⟨⟨trivial, trivial, trivial, trivial⟩, trivial, trivial, trivial⟩

/-- The first line in the server's buffer is the first message that is underway. -/
theorem Underway.first (hserves : Serves F handler allowed good) {s : Session η} {n : Nat}
    {ps : List Message} (h : Underway F allowed s n ps)
    {line rest : List UInt8}
    (hcut : splitFirst Message.newline (s.channels n).buffer = some (line, rest)) :
    ∃ p ps', ps = p :: ps' ∧ line ≠ [] ∧ Message.decode F line = .ok p ∧
      rest ++ (s.channels n).toServer = frames F ps' := by
  obtain ⟨hbuffer, hfree⟩ := eq_of_splitFirst hcut
  have hbytes := h.bytes
  rw [hbuffer, List.append_assoc, List.cons_append] at hbytes
  cases ps with
  | nil => exact absurd hbytes (List.append_ne_nil_of_right_ne_nil _ (List.cons_ne_nil _ _))
  | cons p ps' =>
    obtain ⟨bytes, hencode, hfree', hne, hdecode⟩ :=
      Message.encode_frame (hserves.sendable p (h.sent p List.mem_cons_self))
    have hframes : frames F (p :: ps') = bytes ++ Message.newline :: frames F ps' := by
      rw [frames, List.flatMap_cons, hencode, List.append_assoc, List.singleton_append]
      rfl
    rw [hframes] at hbytes
    obtain ⟨rfl, hrest⟩ := cut_inj hfree hfree' hbytes
    exact ⟨p, ps', rfl, hne, hdecode, hrest⟩

/-- The connection `n` and what is known of it stay. -/
theorem Underway.congr {s s' : Session η} {n : Nat} {ps : List Message}
    (h : Underway F allowed s n ps)
    (hbytes : (s'.channels n).buffer ++ (s'.channels n).toServer =
      (s.channels n).buffer ++ (s.channels n).toServer)
    (hwritten : writtenOn n s'.history = writtenOn n s.history)
    (hhandled : handledOn n s'.history = handledOn n s.history) : Underway F allowed s' n ps where
  sent := h.sent
  bytes := hbytes.trans h.bytes
  written := by rw [hwritten, hhandled, h.written]

/-! ## Dialling -/

/-- Between calls the client has hung up, or made a new connection. -/
structure Redialled (c c' : TCPClient) : Prop where
  valid : c'.Valid
  made : c.made ≤ c'.made
  current : c'.connected = true → c' = c ∨ c'.socket = some c.made ∧ c.made < c'.made

theorem redialled_disconnect (c : TCPClient) : Redialled c c.disconnect where
  valid := TCPClient.valid_disconnect c
  made := le_refl _
  current h := by cases h

theorem redialled_connect {c : TCPClient} (h : c.Valid) (dial : Dial) :
    Redialled c (c.connect dial).1 := by
  have hvalid := TCPClient.valid_connect h dial
  refine ⟨hvalid, ?_, ?_⟩
  · unfold TCPClient.connect
    split
    · split
      · exact le_refl _
      · exact Nat.le_succ _
      · exact Nat.le_succ _
    · exact le_refl _
  · unfold TCPClient.connect
    split
    · split
      · intro hc
        cases hc
      · intro hc
        cases hc
      · exact fun _ => .inr ⟨rfl, Nat.lt_succ_self _⟩
    · intro hc
      cases hc

theorem redialled_ready {c : TCPClient} (h : c.Valid) (a : Attempt) :
    Redialled c (c.ready a).1 := by
  unfold TCPClient.ready
  split
  · split
    · exact ⟨h, le_refl _, fun _ => .inl rfl⟩
    · exact redialled_connect h a.dial
  · exact redialled_disconnect c

/-- A call that sends is connected. -/
theorem sendingOn_eq_some {c : TCPClient} {a : Attempt} {n : Nat} (h : sendingOn c a = some n) :
    (c.ready a).1.connected = true ∧ (c.ready a).1.socket = some n := by
  unfold sendingOn at h
  split at h
  · rename_i hready
    refine ⟨?_, h⟩
    unfold TCPClient.ready TCPClient.connect at hready ⊢
    split at hready
    · split at hready
      · rename_i hallowed hconnected
        rw [if_pos hallowed, if_pos hconnected]
        exact hconnected
      · rename_i hallowed hconnected
        rw [if_pos hallowed, if_neg hconnected]
        split at hready
        · rename_i hdial
          rw [if_pos hdial]
          split at hready
          · cases hready
          · cases hready
          · rfl
        · cases hready
    · cases hready
  · cases h

/-- What may be sent for the matching: whole messages, and without waiting only those that are
    not answered. -/
def Proper (handler : Handler η) (allowed : Message → Prop) (good : η → Prop) : Label → Prop
  | .call m _ => allowed m
  | .notify m _ => allowed m ∧ Silent handler good m
  | .unsent _ k _ => k = 0
  | _ => True

/-! ## One connection changes -/

/-- The connection on which the event happened. -/
def Event.on : Event → Nat
  | .called n _ => n
  | .notified n _ => n
  | .handled n _ _ => n
  | .returned n _ _ => n

theorem writtenOn_other {n k : Nat} (hk : k ≠ n) {es : List Event} (hes : ∀ e ∈ es, e.on = n) :
    writtenOn k es = [] := by
  refine List.filterMap_eq_nil_iff.mpr fun e he => ?_
  have hon := hes e he
  cases e with
  | called j m => exact if_neg fun hj => hk (hj.symm.trans hon)
  | notified j m => exact if_neg fun hj => hk (hj.symm.trans hon)
  | handled j m rs => rfl
  | returned j m r => rfl

theorem handledOn_other {n k : Nat} (hk : k ≠ n) {es : List Event} (hes : ∀ e ∈ es, e.on = n) :
    handledOn k es = [] := by
  refine List.filterMap_eq_nil_iff.mpr fun e he => ?_
  have hon := hes e he
  cases e with
  | called j m => rfl
  | notified j m => rfl
  | handled j m rs => exact if_neg fun hj => hk (hj.symm.trans hon)
  | returned j m r => rfl

/-- What has to be shown of a step in which something happens on the connection `n` only. -/
structure Touches (F : FloatText) (handler : Handler η) (allowed : Message → Prop)
    (good : η → Prop) (s s' : Session η) (n : Nat) (es : List Event) : Prop where
  kept : good s'.state
  made : n < s.client.made
  valid : s'.client.Valid
  same : s'.client.made = s.client.made
  waiting : s'.waiting.isSome → s'.client.connected = true
  channels : ∀ k, k ≠ n → s'.channels k = s.channels k
  history : s'.history = s.history ++ es
  events : ∀ e ∈ es, e.on = n
  matched : Matched s'.history
  /-- Another connection is not in use, or what is known of it stays. -/
  other : ∀ k ps, k ≠ n → s'.client.connected = true → s'.client.socket = some k →
    s.client.connected = true ∧ s.client.socket = some k ∧
      (Current F handler good s k ps → Current F handler good s' k ps)
  changed : ∃ ps, Underway F allowed s' n ps ∧
    (s'.client.connected = true → s'.client.socket = some n → Current F handler good s' n ps)

theorem Inv.of_touches {s s' : Session η} (h : Inv F handler allowed good s) (n : Nat)
    (es : List Event) (ht : Touches F handler allowed good s s' n es) :
    Inv F handler allowed good s' where
  kept := ht.kept
  valid := ht.valid
  waiting := ht.waiting
  matched := ht.matched
  fresh k hk := by
    have hle : s.client.made ≤ k := ht.same ▸ hk
    have hkn : k ≠ n := fun heq => absurd ht.made (by omega)
    obtain ⟨hchannel, hwritten⟩ := h.fresh k hle
    refine ⟨(ht.channels k hkn).trans hchannel, ?_⟩
    rw [ht.history, writtenOn_append, hwritten, writtenOn_other hkn ht.events, List.nil_append]
  underway k := by
    by_cases hkn : k = n
    · exact hkn ▸ ht.changed
    · obtain ⟨ps, hps, hcurrent⟩ := h.underway k
      refine ⟨ps, hps.congr ?_ ?_ ?_, fun hc hk => ?_⟩
      · rw [ht.channels k hkn]
      · rw [ht.history, writtenOn_append, writtenOn_other hkn ht.events, List.append_nil]
      · rw [ht.history, handledOn_append, handledOn_other hkn ht.events, List.append_nil]
      · obtain ⟨hc', hk', hstays⟩ := ht.other k ps hkn hc hk
        exact hstays (hcurrent hc' hk')

/-- Nothing is known of a connection that has not been made. -/
theorem Inv.underway_fresh {s : Session η} (h : Inv F handler allowed good s) {n : Nat}
    (hn : s.client.made ≤ n) {ps : List Message} (hps : Underway F allowed s n ps) : ps = [] := by
  have hwritten := hps.written
  rw [(h.fresh n hn).2] at hwritten
  exact (List.append_eq_nil_iff.mp hwritten.symm).2

/-! ## The steps -/

theorem inv_redialled {s : Session η} (h : Inv F handler allowed good s) (hidle : s.waiting = none)
    {c : TCPClient} (hc : Redialled s.client c) :
    Inv F handler allowed good { s with client := c } where
  kept := h.kept
  valid := hc.valid
  waiting hw := by
    rw [show ({ s with client := c } : Session η).waiting = none from hidle] at hw
    cases hw
  matched := h.matched
  fresh n hn := h.fresh n (hc.made.trans hn)
  underway n := by
    obtain ⟨ps, hps, hcurrent⟩ := h.underway n
    refine ⟨ps, hps.congr rfl rfl rfl, fun hconnected hn => ?_⟩
    rcases hc.current hconnected with rfl | ⟨hnew, hmade⟩
    · exact hcurrent hconnected hn
    · obtain rfl : n = s.client.made := Option.some.inj (hn.symm.trans hnew)
      have hnil := h.underway_fresh le_rfl hps
      unfold Current
      rw [show ({ s with client := c } : Session η).waiting = none from hidle]
      refine ⟨?_, fun _ p hp => ?_⟩
      · exact congrArg Channel.toClient (h.fresh s.client.made le_rfl).1
      · rw [hnil] at hp
        cases hp

theorem frames_append (ps qs : List Message) : frames F (ps ++ qs) = frames F ps ++ frames F qs :=
  List.flatMap_append

theorem frames_singleton (m : Message) : frames F [m] = m.encode F := by
  rw [frames, List.flatMap_cons, List.flatMap_nil, List.append_nil]

@[simp] theorem setChannel_same (s : Session η) (n : Nat) (c : Channel) :
    (s.setChannel n c).channels n = c := Function.update_self _ _ _

theorem setChannel_other (s : Session η) {n k : Nat} (hk : k ≠ n) (c : Channel) :
    (s.setChannel n c).channels k = s.channels k := Function.update_of_ne hk _ _

theorem write_same (s : Session η) (n : Nat) (bytes : List UInt8) :
    (s.write n bytes).channels n =
      { s.channels n with toServer := (s.channels n).toServer ++ bytes } := setChannel_same _ _ _

/-- Another message is on its way to the handler. -/
theorem Underway.write {s s' : Session η} {n : Nat} {ps : List Message}
    (h : Underway F allowed s n ps) {m : Message} (hm : allowed m)
    (hchannel : s'.channels n =
      { s.channels n with toServer := (s.channels n).toServer ++ m.encode F })
    {e : Event} (hhistory : s'.history = s.history ++ [e])
    (hwritten : e.written n = some m) (hreceived : e.received n = none) :
    Underway F allowed s' n (ps ++ [m]) where
  sent p hp := by
    rcases List.mem_append.mp hp with hp | hp
    · exact h.sent p hp
    · exact List.mem_singleton.mp hp ▸ hm
  bytes := by
    rw [hchannel, frames_append, frames_singleton, ← h.bytes, List.append_assoc]
  written := by
    have hw : writtenOn n [e] = [m] := by
      rw [writtenOn, List.filterMap_cons, hwritten, List.filterMap_nil]
    have hr : handledOn n [e] = [] := by
      rw [handledOn, List.filterMap_cons, hreceived, List.filterMap_nil]
    rw [hhistory, writtenOn_append, handledOn_append, hw, hr, h.written, List.append_nil,
      List.append_assoc]

/-- A call writes its message. -/
theorem inv_called {s : Session η} (h : Inv F handler allowed good s) (hidle : s.waiting = none)
    (hconnected : s.client.connected = true) {n : Nat} (hn : s.client.socket = some n)
    {m : Message} (hm : allowed m) :
    Inv F handler allowed good
      ((({ s with waiting := some (m, []) } : Session η).write n (m.encode F)).log
        [.called n m]) := by
  obtain ⟨ps, hps, hcurrent⟩ := h.underway n
  have hresting : Resting handler good (s.channels n) ps := by
    have hcurrent := hcurrent hconnected hn
    unfold Current at hcurrent
    rwa [hidle] at hcurrent
  refine h.of_touches n [.called n m]
    { kept := h.kept
      made := h.valid.made n hn
      valid := h.valid
      same := rfl
      waiting := fun _ => hconnected
      channels := fun k hk => setChannel_other _ hk _
      history := rfl
      events := fun e he => by rw [List.mem_singleton.mp he]; rfl
      matched := h.matched.append fun _ _ _ he => by cases he
      other := fun k _ hk _ hsocket => absurd (Option.some.inj (hsocket.symm.trans hn)) hk
      changed := ?_ }
  have hchannel := write_same { s with waiting := some (m, []) } n (m.encode F)
  refine ⟨ps ++ [m], hps.write hm hchannel rfl (if_pos rfl) rfl, fun _ _ => ?_⟩
  refine .inl ⟨rfl, ?_, fun hopen => .inr ⟨?_, ps, rfl, hresting.2 ?_⟩⟩
  · exact (congrArg Channel.toClient hchannel).trans hresting.1
  · exact ⟨s.history, [], rfl, fun e he => by cases he⟩
  · exact (congrArg Channel.isOpen hchannel).symm.trans hopen

/-- A message is written that is not waited for. -/
theorem inv_notified {s : Session η} (h : Inv F handler allowed good s) (hidle : s.waiting = none)
    (hconnected : s.client.connected = true) {n : Nat} (hn : s.client.socket = some n)
    {m : Message} (hm : allowed m) (hsilent : Silent handler good m) :
    Inv F handler allowed good ((s.write n (m.encode F)).log [.notified n m]) := by
  obtain ⟨ps, hps, hcurrent⟩ := h.underway n
  have hresting : Resting handler good (s.channels n) ps := by
    have hcurrent := hcurrent hconnected hn
    unfold Current at hcurrent
    rwa [hidle] at hcurrent
  refine h.of_touches n [.notified n m]
    { kept := h.kept
      made := h.valid.made n hn
      valid := h.valid
      same := rfl
      waiting := h.waiting
      channels := fun k hk => setChannel_other _ hk _
      history := rfl
      events := fun e he => by rw [List.mem_singleton.mp he]; rfl
      matched := h.matched.append fun _ _ _ he => by cases he
      other := fun k _ hk _ hsocket => absurd (Option.some.inj (hsocket.symm.trans hn)) hk
      changed := ?_ }
  have hchannel := write_same s n (m.encode F)
  refine ⟨ps ++ [m], hps.write hm hchannel rfl (if_pos rfl) rfl, fun _ _ => ?_⟩
  unfold Current
  rw [show ((s.write n (m.encode F)).log [.notified n m]).waiting = none from hidle]
  refine ⟨(congrArg Channel.toClient hchannel).trans hresting.1, fun hopen p hp => ?_⟩
  rcases List.mem_append.mp hp with hp | hp
  · exact hresting.2 ((congrArg Channel.isOpen hchannel).symm.trans hopen) p hp
  · exact List.mem_singleton.mp hp ▸ hsilent

/-- Writing nothing changes nothing. -/
theorem write_nil (s : Session η) (n : Nat) : s.write n [] = s := by
  unfold write setChannel
  rw [List.append_nil, Function.update_eq_self]

theorem Current.congr {s s' : Session η} {n : Nat} {ps : List Message}
    (h : Current F handler good s n ps) (hwaiting : s'.waiting = s.waiting)
    (hclient : (s'.channels n).toClient = (s.channels n).toClient)
    (hopen : (s'.channels n).isOpen = true → (s.channels n).isOpen = true)
    (hhistory : s'.history = s.history) : Current F handler good s' n ps := by
  unfold Current at h ⊢
  rw [hwaiting, hhistory]
  cases hw : s.waiting with
  | none =>
    rw [hw] at h
    exact ⟨hclient.trans h.1, fun ho => h.2 (hopen ho)⟩
  | some w =>
    rw [hw] at h
    rcases h with ⟨hreceived, hnil, hps⟩ | ⟨hps, hfree, r, hr, hbytes, hanswered⟩
    · exact .inl ⟨hreceived, hclient.trans hnil, fun ho => hps (hopen ho)⟩
    · exact .inr ⟨hps, hfree, r, hr, by rw [hclient]; exact hbytes, hanswered⟩

/-- The bytes on their way to the server are regrouped, or the server closes the connection. -/
theorem inv_regrouped {s : Session η} (h : Inv F handler allowed good s) {n : Nat}
    (hn : n < s.client.made) {c : Channel}
    (hbytes : c.buffer ++ c.toServer = (s.channels n).buffer ++ (s.channels n).toServer)
    (hclient : c.toClient = (s.channels n).toClient)
    (hopen : c.isOpen = true → (s.channels n).isOpen = true) :
    Inv F handler allowed good (s.setChannel n c) := by
  obtain ⟨ps, hps, hcurrent⟩ := h.underway n
  refine h.of_touches n []
    { kept := h.kept
      made := hn
      valid := h.valid
      same := rfl
      waiting := h.waiting
      channels := fun k hk => setChannel_other _ hk _
      history := (List.append_nil _).symm
      events := fun e he => by cases he
      matched := h.matched
      other := fun k _ hk hc hsocket => ⟨hc, hsocket, fun hcur => ?_⟩
      changed := ⟨ps, hps.congr ?_ rfl rfl, fun hc hsocket => ?_⟩ }
  · have hsame := setChannel_other s hk c
    exact hcur.congr rfl (congrArg Channel.toClient hsame)
      (fun ho => (congrArg Channel.isOpen hsame).symm.trans ho) rfl
  · rw [setChannel_same]
    exact hbytes
  · refine (hcurrent hc hsocket).congr rfl ?_ ?_ rfl
    · rw [setChannel_same]
      exact hclient
    · rw [setChannel_same]
      exact hopen

/-- What is in a connection's buffer has been written on a connection that was made. -/
theorem Inv.made_of_buffer {s : Session η} (h : Inv F handler allowed good s) {n : Nat}
    (hne : (s.channels n).buffer ++ (s.channels n).toServer ≠ []) : n < s.client.made := by
  by_contra hn
  rw [(h.fresh n (by omega)).1] at hne
  exact hne rfl

/-- An event of the handler does not end a call. -/
theorem Current.handled {s s' : Session η} {n : Nat} {ps : List Message}
    (h : Current F handler good s n ps) (hwaiting : s'.waiting = s.waiting)
    (hchannel : s'.channels n = s.channels n) {es : List Event}
    (hes : ∀ e ∈ es, ¬ e.IsCall) (hhistory : s'.history = s.history ++ es) :
    Current F handler good s' n ps := by
  unfold Current at h ⊢
  rw [hwaiting, hhistory, hchannel]
  cases hw : s.waiting with
  | none =>
    rw [hw] at h
    exact h
  | some w =>
    rw [hw] at h
    rcases h with ⟨hreceived, hnil, hps⟩ | ⟨hps, hfree, r, hr, hbytes, hanswered⟩
    · refine .inl ⟨hreceived, hnil, fun ho => ?_⟩
      exact (hps ho).imp_right fun hcalled => ⟨hcalled.1.append hes, hcalled.2⟩
    · exact .inr ⟨hps, hfree, r, hr, hbytes, hanswered.append hes⟩

theorem responses_silent {m : Message} (h : Silent handler good m) {state : η}
    (hstate : good state) :
    responses (handler state m).2 = [] := by
  rw [h state hstate]
  rfl

/-- What the handler gives is no answer, or one message. -/
theorem responses_cases (outcome : Except String (Option Message)) :
    responses outcome = [] ∨ ∃ r, responses outcome = [r] := by
  cases outcome with
  | ok response =>
    cases response with
    | none => exact .inl rfl
    | some r => exact .inr ⟨r, rfl⟩
  | error text => exact .inr ⟨_, rfl⟩

theorem Serves.sendable_responses (h : Serves F handler allowed good) {state : η}
    (hstate : good state) {m r : Message} (hm : allowed m)
    (hr : r ∈ responses (handler state m).2) : r.Sendable F := by
  cases houtcome : (handler state m).2 with
  | ok response =>
    rw [houtcome] at hr
    cases response with
    | none => cases hr
    | some r' =>
      rw [List.mem_singleton.mp hr]
      exact h.answers state m r' hstate hm houtcome
  | error text =>
    rw [houtcome] at hr
    rw [List.mem_singleton.mp hr]
    exact sendable_errorResponse text

/-- The first message on its way is handled: the call that waits for it is answered, and a
    message before it is not answered. -/
theorem Expecting.handled {h : List Event} {n : Nat} {c : Channel} {p m : Message}
    {ps : List Message} {received : List UInt8}
    (he : Expecting F handler good h n c (p :: ps) m received) (hopen : c.isOpen = true)
    (hserves : Serves F handler allowed good) (hp : allowed p) {state : η} (hstate : good state)
    {c' : Channel} (hclient : c'.toClient = c.toClient ++
      (responses (handler state p).2).flatMap (Message.encode F)) :
    Expecting F handler good (h ++ [.handled n p (responses (handler state p).2)]) n c' ps m
      received := by
  have hnot : ∀ e ∈ [Event.handled n p (responses (handler state p).2)], ¬ e.IsCall := by
    intro e hmem
    rw [List.mem_singleton.mp hmem]
    exact id
  rcases he with ⟨hreceived, hnil, hps⟩ | ⟨hps, -⟩
  · rcases hps hopen with hps | ⟨hcalled, ns, hns, hsilent⟩
    · cases hps
    · cases ns with
      | nil =>
        obtain ⟨rfl, rfl⟩ := List.cons.inj hns
        rcases responses_cases (handler state p).2 with hnone | ⟨r, hone⟩
        · refine .inl ⟨hreceived, ?_, fun _ => .inl rfl⟩
          rw [hclient, hnone, hnil]
          rfl
        · have hmem : r ∈ responses (handler state p).2 := hone ▸ List.mem_singleton_self r
          have hr := hserves.sendable_responses hstate hp hmem
          refine .inr ⟨rfl, ?_, r, hr, ?_, ?_⟩
          · rw [hreceived]
            exact List.not_mem_nil
          · rw [hreceived, hclient, hone, hnil, List.nil_append, List.nil_append,
              List.flatMap_cons, List.flatMap_nil, List.append_nil]
          · rw [hone]
            exact hcalled.answered r
      | cons q ns =>
        obtain ⟨rfl, rfl⟩ := List.cons.inj hns
        have hnone := responses_silent (hsilent p List.mem_cons_self) hstate
        refine .inl ⟨hreceived, ?_, fun _ => .inr ⟨?_, ns, rfl, ?_⟩⟩
        · rw [hclient, hnone, hnil]
          rfl
        · exact hcalled.append hnot
        · exact fun q hq => hsilent q (List.mem_cons_of_mem _ hq)
  · cases hps

/-- One line is handled. -/
theorem inv_line {s : Session η} (h : Inv F handler allowed good s)
    (hserves : Serves F handler allowed good) {n : Nat}
    (hopen : (s.channels n).isOpen = true) {line rest : List UInt8}
    (hcut : splitFirst Message.newline (s.channels n).buffer = some (line, rest)) :
    Inv F handler allowed good
      (let done := TCPServer.handleLine F handler errorText { state := s.state } line
      (({ s with state := done.state }.setChannel n
        { s.channels n with
          buffer := rest
          toClient := (s.channels n).toClient ++ done.sent.flatMap (Message.encode F) })).log
        (done.calls.map fun m => .handled n m done.sent)) := by
  obtain ⟨ps, hps, hcurrent⟩ := h.underway n
  obtain ⟨p, ps', rfl, hne, hdecode, hrest⟩ := hps.first hserves hcut
  obtain ⟨hcalls, hstate, hsent⟩ :=
    handleLine_message handler errorText hne hdecode s.state
  have hmade : n < s.client.made := by
    refine h.made_of_buffer fun hnil => ?_
    rw [(List.append_eq_nil_iff.mp hnil).1] at hcut
    cases hcut
  simp only [hcalls, hsent, List.map_cons, List.map_nil]
  set responded := responses (handler s.state p).2 with hresponded
  have hnot : ∀ e ∈ [Event.handled n p responded], ¬ e.IsCall := by
    intro e hmem
    rw [List.mem_singleton.mp hmem]
    exact id
  refine h.of_touches n [.handled n p responded]
    { kept := ?_
      made := hmade
      valid := h.valid
      same := rfl
      waiting := h.waiting
      channels := fun k hk => setChannel_other _ hk _
      history := rfl
      events := fun e he => by rw [List.mem_singleton.mp he]; rfl
      matched := h.matched.append fun _ _ _ he => by cases he
      other := fun k _ hk hc hsocket => ⟨hc, hsocket, fun hcur => ?_⟩
      changed := ⟨ps', ?_, fun hc hsocket => ?_⟩ }
  · exact hstate.symm ▸ hserves.keeps s.state p h.kept (hps.sent p List.mem_cons_self)
  · exact hcur.handled rfl (setChannel_other _ hk _) hnot rfl
  · refine ⟨fun q hq => hps.sent q (List.mem_cons_of_mem _ hq), ?_, ?_⟩
    · refine Eq.trans ?_ hrest
      exact congrArg (fun c : Channel => c.buffer ++ c.toServer) (setChannel_same _ _ _)
    · have hwritten : writtenOn n [Event.handled n p responded] = [] := rfl
      have hhandled : handledOn n [Event.handled n p responded] = [p] := by
        rw [handledOn, List.filterMap_cons, Event.received, if_pos rfl, List.filterMap_nil]
      refine Eq.trans (writtenOn_append n s.history [Event.handled n p responded]) ?_
      rw [hwritten, List.append_nil, hps.written]
      refine Eq.trans ?_ (congrArg (· ++ ps')
        (handledOn_append n s.history [Event.handled n p responded]).symm)
      rw [hhandled, List.append_assoc]
      rfl
  · have hcurrent := hcurrent hc hsocket
    unfold Current at hcurrent ⊢
    have htoClient := congrArg Channel.toClient (setChannel_same
      { s with state := (TCPServer.handleLine F handler errorText { state := s.state } line).state }
      n { s.channels n with
          buffer := rest
          toClient := (s.channels n).toClient ++ responded.flatMap (Message.encode F) })
    cases hw : s.waiting with
    | none =>
      rw [hw] at hcurrent
      have hsilent := hcurrent.2 hopen
      have hnone : responded = [] := responses_silent (hsilent p List.mem_cons_self) h.kept
      simp only [log, setChannel]
      refine ⟨htoClient.trans ?_, fun _ q hq => hsilent q (List.mem_cons_of_mem _ hq)⟩
      rw [hnone, hcurrent.1]
      rfl
    | some w =>
      rw [hw] at hcurrent
      simp only [log, setChannel]
      exact Expecting.handled hcurrent hopen hserves (hps.sent p List.mem_cons_self) h.kept
        htoClient

/-- Without a newline the client waits on. -/
theorem readReply_waits {buffer bytes : List UInt8} (hne : bytes ≠ [])
    (hfree : Message.newline ∉ buffer ++ bytes) :
    TCPClient.readReply F buffer [.chunk bytes] = none := by
  rw [TCPClient.readReply, if_neg hne, splitFirst_eq_none hfree]
  rfl

/-- With the frame of a message the call returns it. -/
theorem readReply_frame {buffer bytes : List UInt8} (hne : bytes ≠ []) {r : Message}
    (hr : r.Sendable F) (hframe : buffer ++ bytes = r.encode F) :
    TCPClient.readReply F buffer [.chunk bytes] = some (.answered r) := by
  obtain ⟨line, hencode, hfree, -, hdecode⟩ := Message.encode_frame hr
  rw [TCPClient.readReply, if_neg hne, hframe, hencode, splitFirst_of_not_mem hfree]
  simp only [hdecode]

/-- A prefix of a frame has no newline, or is the frame. -/
theorem frame_prefix {r : Message} (hr : r.Sendable F) {bytes rest : List UInt8}
    (h : bytes ++ rest = r.encode F) :
    (rest = [] ∧ bytes = r.encode F) ∨ Message.newline ∉ bytes := by
  obtain ⟨line, hencode, hfree, -, -⟩ := Message.encode_frame hr
  rcases List.eq_nil_or_concat rest with rfl | ⟨rest, last, rfl⟩
  · exact .inl ⟨rfl, by rw [← h, List.append_nil]⟩
  · rw [hencode, List.concat_eq_append, ← List.append_assoc] at h
    obtain ⟨hline, -⟩ := List.append_inj' h rfl
    refine .inr fun hmem => hfree ?_
    rw [← hline]
    exact List.mem_append_left _ hmem

/-- What stays when a call receives something on its connection. -/
theorem Inv.touches_recv {s s' : Session η} (h : Inv F handler allowed good s) {n : Nat}
    (hn : s.client.socket = some n) {ps : List Message} (hps : Underway F allowed s n ps)
    (es : List Event) (hstate : s'.state = s.state) (hvalid : s'.client.Valid)
    (hmade : s'.client.made = s.client.made) (hsocket : s'.client.socket = some n)
    (hwaiting : s'.waiting.isSome → s'.client.connected = true)
    {c : Channel} (hchannels : s'.channels = Function.update s.channels n c)
    (hbytes : c.buffer ++ c.toServer = (s.channels n).buffer ++ (s.channels n).toServer)
    (hhistory : s'.history = s.history ++ es) (hes : ∀ e ∈ es, ∃ m r, e = .returned n m r)
    (hmatched : Matched s'.history)
    (hcurrent : s'.client.connected = true → Current F handler good s' n ps) :
    Inv F handler allowed good s' := by
  have hwritten : writtenOn n es = [] := by
    refine List.filterMap_eq_nil_iff.mpr fun e he => ?_
    obtain ⟨m, r, rfl⟩ := hes e he
    rfl
  have hhandled : handledOn n es = [] := by
    refine List.filterMap_eq_nil_iff.mpr fun e he => ?_
    obtain ⟨m, r, rfl⟩ := hes e he
    rfl
  refine h.of_touches n es
    { kept := hstate ▸ h.kept
      made := h.valid.made n hn
      valid := hvalid
      same := hmade
      waiting := hwaiting
      channels := fun k hk => by rw [hchannels, Function.update_of_ne hk]
      history := hhistory
      events := fun e he => ?_
      matched := hmatched
      other := fun k _ hk _ hk' => absurd (Option.some.inj (hk'.symm.trans hsocket)) hk
      changed := ⟨ps, hps.congr ?_ ?_ ?_, fun hc _ => hcurrent hc⟩ }
  · obtain ⟨m, r, rfl⟩ := hes e he
    rfl
  · rw [hchannels, Function.update_self]
    exact hbytes
  · rw [hhistory, writtenOn_append, hwritten, List.append_nil]
  · rw [hhistory, handledOn_append, hhandled, List.append_nil]

/-- The call that waits receives something. -/
theorem inv_recv {s s' : Session η} (h : Inv F handler allowed good s) {r : Reception}
    (hs : step F handler errorText s (.recv r) = some s') : Inv F handler allowed good s' := by
  cases hw : s.waiting with
  | none =>
    simp only [step, hw] at hs
    cases hs
  | some w =>
    obtain ⟨m, received⟩ := w
    have hconnected := h.waiting (by rw [hw]; rfl)
    obtain ⟨n, hn⟩ := Option.isSome_iff_exists.mp (h.valid.socket hconnected)
    obtain ⟨ps, hps, hcurrent⟩ := h.underway n
    have hexpecting := hcurrent hconnected hn
    unfold Current at hexpecting
    rw [hw] at hexpecting
    simp only [step, hw, hn] at hs
    split at hs
    · rename_i hreceivable
      have hmatched : Matched (s.history ++ []) := by
        rw [List.append_nil]
        exact h.matched
      cases r with
      | raised =>
        obtain rfl := Option.some.inj hs
        refine h.touches_recv hn hps [] rfl ?_ rfl hn (fun hsome => by cases hsome) rfl rfl rfl
          (fun e he => by cases he) hmatched (fun hc => by cases hc)
        exact ⟨h.valid.made, fun hc => by cases hc⟩
      | chunk bytes =>
        by_cases hbytes : bytes = []
        · subst hbytes
          obtain ⟨hclosed, hnil⟩ := hreceivable
          obtain rfl := Option.some.inj hs
          refine h.touches_recv hn hps [] rfl h.valid rfl hn (fun hsome => by cases hsome) rfl
            rfl rfl (fun e he => by cases he) hmatched (fun _ => ⟨?_, fun hopen => ?_⟩)
          · exact (congrArg Channel.toClient (setChannel_same s n _)).trans hnil
          · have hopen := (congrArg Channel.isOpen (setChannel_same s n _)).symm.trans hopen
            rw [hclosed] at hopen
            cases hopen
        · have hprefix : bytes <+: (s.channels n).toClient := by
            cases bytes with
            | nil => exact absurd rfl hbytes
            | cons b bytes => exact hreceivable
          obtain ⟨rest, hrest⟩ := hprefix
          rcases hexpecting with ⟨-, hnil, -⟩ | ⟨hps', hfree, reply, hreply, hframe, hanswered⟩
          · rw [hnil] at hrest
            exact absurd (List.append_eq_nil_iff.mp hrest).1 hbytes
          · subst hps'
            have hdrop : (s.channels n).toClient.drop bytes.length = rest := by
              rw [← hrest, List.drop_left]
            rw [← hrest, ← List.append_assoc] at hframe
            rcases frame_prefix hreply hframe with ⟨rfl, hwhole⟩ | hfree'
            · rw [readReply_frame hbytes hreply hwhole] at hs
              obtain rfl := Option.some.inj hs
              refine h.touches_recv hn hps [.returned n m reply] rfl h.valid rfl hn
                (fun hsome => by cases hsome) rfl rfl rfl ?_ ?_ (fun _ => ⟨?_, fun _ p hp => ?_⟩)
              · exact fun e he => ⟨m, reply, List.mem_singleton.mp he⟩
              · refine h.matched.append fun _ _ _ he => ?_
                obtain ⟨rfl, rfl, rfl⟩ := Event.returned.inj he
                exact hanswered
              · exact (congrArg Channel.toClient (setChannel_same s n _)).trans hdrop
              · cases hp
            · rw [readReply_waits hbytes hfree'] at hs
              obtain rfl := Option.some.inj hs
              refine h.touches_recv hn hps [] rfl h.valid rfl hn (fun _ => hconnected) rfl
                rfl (List.append_nil s.history).symm (fun e he => by cases he) h.matched
                (fun _ => .inr ⟨rfl, hfree', reply, hreply, ?_, hanswered⟩)
              rw [← hframe]
              exact congrArg (received ++ bytes ++ ·)
                ((congrArg Channel.toClient (setChannel_same s n _)).trans hdrop)
    · cases hs

/-- One step of the client, the server or the network. -/
theorem inv_step {s s' : Session η} (h : Inv F handler allowed good s)
    (hserves : Serves F handler allowed good) {l : Label} (hl : Proper handler allowed good l)
    (hs : step F handler errorText s l = some s') :
    Inv F handler allowed good s' := by
  cases l with
  | connect dial =>
    simp only [step, Option.ite_none_right_eq_some, Option.isNone_iff_eq_none] at hs
    obtain ⟨hidle, hs⟩ := hs
    obtain rfl := Option.some.inj hs
    exact inv_redialled h hidle (redialled_connect h.valid dial)
  | disconnect =>
    simp only [step, Option.ite_none_right_eq_some, Option.isNone_iff_eq_none] at hs
    obtain ⟨hidle, hs⟩ := hs
    obtain rfl := Option.some.inj hs
    exact inv_redialled h hidle (redialled_disconnect s.client)
  | call m a =>
    simp only [step, Option.ite_none_right_eq_some, Option.isNone_iff_eq_none] at hs
    obtain ⟨hidle, hs⟩ := hs
    have hready := inv_redialled h hidle (redialled_ready h.valid a)
    split at hs
    · rename_i n hn
      obtain ⟨hconnected, hsocket⟩ := sendingOn_eq_some hn
      obtain rfl := Option.some.inj hs
      exact inv_called hready hidle hconnected hsocket hl
    · obtain rfl := Option.some.inj hs
      exact hready
  | notify m a =>
    simp only [step, Option.ite_none_right_eq_some, Option.isNone_iff_eq_none] at hs
    obtain ⟨hidle, hs⟩ := hs
    have hready := inv_redialled h hidle (redialled_ready h.valid a)
    split at hs
    · rename_i n hn
      obtain ⟨hconnected, hsocket⟩ := sendingOn_eq_some hn
      obtain rfl := Option.some.inj hs
      exact inv_notified hready hidle hconnected hsocket hl.1 hl.2
    · obtain rfl := Option.some.inj hs
      exact hready
  | unsent m k a =>
    simp only [step, Option.ite_none_right_eq_some, Option.isNone_iff_eq_none] at hs
    obtain ⟨hidle, hs⟩ := hs
    have hready := inv_redialled h hidle (redialled_ready h.valid a)
    obtain rfl : k = 0 := hl
    split at hs
    · obtain rfl := Option.some.inj hs
      rw [List.take_zero, write_nil]
      exact hready
    · obtain rfl := Option.some.inj hs
      exact hready
  | recv r => exact inv_recv h hs
  | serverRecv n k =>
    simp only [step, Option.ite_none_right_eq_some] at hs
    obtain ⟨⟨-, -, hpos, hk⟩, hs⟩ := hs
    obtain rfl := Option.some.inj hs
    refine inv_regrouped h (h.made_of_buffer fun hnil => ?_) ?_ rfl id
    · rw [(List.append_eq_nil_iff.mp hnil).2, List.length_nil] at hk
      omega
    · rw [List.append_assoc, List.take_append_drop]
  | serverLine n =>
    simp only [step, Option.ite_none_right_eq_some] at hs
    obtain ⟨hopen, hs⟩ := hs
    obtain ⟨⟨line, rest⟩, hcut, rfl⟩ := Option.map_eq_some_iff.mp hs
    exact inv_line h hserves hopen hcut
  | serverClose n =>
    simp only [step, Option.ite_none_right_eq_some] at hs
    obtain ⟨hmade, hs⟩ := hs
    obtain rfl := Option.some.inj hs
    exact inv_regrouped h hmade rfl rfl fun hopen => by cases hopen

theorem inv_start (nodeId : String) {state : η} (hstate : good state) :
    Inv F handler allowed good { client := { nodeId := nodeId }, state := state } where
  kept := hstate
  valid := TCPClient.valid_new nodeId
  waiting hw := by cases hw
  fresh _ _ := ⟨rfl, rfl⟩
  underway _ := ⟨[], ⟨fun _ hp => (List.not_mem_nil hp).elim, rfl, rfl⟩, fun hc => by cases hc⟩
  matched before _ _ _ _ heq := by cases before <;> cases heq

/-! ## One message after the other -/

theorem replay_append (state : η) (h h' : List Event) :
    replay handler state (h ++ h') = replay handler (replay handler state h) h' := by
  induction h generalizing state with
  | nil => rfl
  | cons e h ih =>
    cases e with
    | called n m => exact ih state
    | notified n m => exact ih state
    | handled n m rs => exact ih (handler state m).1
    | returned n m r => exact ih state

def Event.IsHandled : Event → Prop
  | .handled _ _ _ => True
  | _ => False

theorem replay_other {es : List Event} (hes : ∀ e ∈ es, ¬ e.IsHandled) (state : η) :
    replay handler state es = state := by
  induction es with
  | nil => rfl
  | cons e es ih =>
    have ih := ih fun e' he' => hes e' (List.mem_cons_of_mem _ he')
    cases e with
    | called n m => exact ih
    | notified n m => exact ih
    | handled n m rs => exact absurd trivial (hes _ List.mem_cons_self)
    | returned n m r => exact ih

/-- The handler has run on the messages of the history, one after the other. -/
structure Replayed (handler : Handler η) (allowed : Message → Prop) (good : η → Prop) (init : η)
    (s : Session η) : Prop where
  state : s.state = replay handler init s.history
  serial : Serial handler allowed good init s.history

/-- A step that calls no handler. -/
theorem Replayed.quiet {state : η} {s s' : Session η} (h : Replayed handler allowed good state s)
    (hstate : s'.state = s.state) (es : List Event) (hhistory : s'.history = s.history ++ es)
    (hes : ∀ e ∈ es, ¬ e.IsHandled) : Replayed handler allowed good state s' where
  state := by rw [hstate, h.state, hhistory, replay_append, replay_other hes]
  serial before n m rs after heq := by
    rw [hhistory, List.append_eq_append_iff] at heq
    obtain ⟨mid, hbefore, hmid⟩ | ⟨mid, hbefore, hmid⟩ := heq
    · exact absurd trivial (hes (.handled n m rs) (hmid ▸ List.mem_append_right _
        List.mem_cons_self))
    · cases mid with
      | nil =>
        exact absurd trivial (hes (.handled n m rs) (by
          rw [List.nil_append] at hmid
          exact hmid ▸ List.mem_cons_self))
      | cons e mid =>
        obtain ⟨rfl, -⟩ := List.cons.inj hmid
        exact h.serial before n m rs mid hbefore

/-- A step in which the handler is called. -/
theorem Replayed.handled {state : η} {s s' : Session η}
    (h : Replayed handler allowed good state s) {n : Nat} {m : Message} (hm : allowed m)
    (hgood : good s.state) (hstate : s'.state = (handler s.state m).1)
    (hhistory : s'.history = s.history ++ [.handled n m (responses (handler s.state m).2)]) :
    Replayed handler allowed good state s' where
  state := by
    rw [hstate, hhistory, replay_append, ← h.state]
    rfl
  serial before k m' rs after heq := by
    rcases List.eq_nil_or_concat after with rfl | ⟨after, last, rfl⟩
    · obtain ⟨rfl, hlast⟩ := List.append_inj' (hhistory.symm.trans heq) rfl
      obtain ⟨-, rfl, rfl⟩ := Event.handled.inj (List.cons.inj hlast).1
      rw [← h.state]
      exact ⟨hm, hgood, rfl⟩
    · have hsplit : s.history ++ [.handled n m (responses (handler s.state m).2)] =
          (before ++ .handled k m' rs :: after) ++ [last] := by
        rw [← hhistory, heq, List.append_assoc, List.cons_append, List.concat_eq_append]
      obtain ⟨hfirst, -⟩ := List.append_inj' hsplit rfl
      exact h.serial before k m' rs after hfirst

theorem replayed_step (hserves : Serves F handler allowed good) {state : η} {s s' : Session η}
    (hinv : Inv F handler allowed good s) (h : Replayed handler allowed good state s) {l : Label}
    (hs : step F handler errorText s l = some s') : Replayed handler allowed good state s' := by
  have hnone : s.history = s.history ++ [] := (List.append_nil _).symm
  have hnil : ∀ e ∈ ([] : List Event), ¬ e.IsHandled := fun e he => by cases he
  cases l with
  | connect dial =>
    simp only [step, Option.ite_none_right_eq_some, Option.some.injEq] at hs
    obtain ⟨-, rfl⟩ := hs
    exact h.quiet rfl [] hnone hnil
  | disconnect =>
    simp only [step, Option.ite_none_right_eq_some, Option.some.injEq] at hs
    obtain ⟨-, rfl⟩ := hs
    exact h.quiet rfl [] hnone hnil
  | call m a =>
    simp only [step, Option.ite_none_right_eq_some] at hs
    obtain ⟨-, hs⟩ := hs
    split at hs
    · rename_i n _
      obtain rfl := Option.some.inj hs
      refine h.quiet rfl [.called n m] rfl fun e he => ?_
      rw [List.mem_singleton.mp he]
      exact id
    · obtain rfl := Option.some.inj hs
      exact h.quiet rfl [] hnone hnil
  | notify m a =>
    simp only [step, Option.ite_none_right_eq_some] at hs
    obtain ⟨-, hs⟩ := hs
    split at hs
    · rename_i n _
      obtain rfl := Option.some.inj hs
      refine h.quiet rfl [.notified n m] rfl fun e he => ?_
      rw [List.mem_singleton.mp he]
      exact id
    · obtain rfl := Option.some.inj hs
      exact h.quiet rfl [] hnone hnil
  | unsent m k a =>
    simp only [step, Option.ite_none_right_eq_some] at hs
    obtain ⟨-, hs⟩ := hs
    split at hs
    · obtain rfl := Option.some.inj hs
      exact h.quiet rfl [] hnone hnil
    · obtain rfl := Option.some.inj hs
      exact h.quiet rfl [] hnone hnil
  | recv r =>
    simp only [step] at hs
    split at hs
    · rename_i m received n _ _
      split at hs
      · split at hs
        · obtain rfl := Option.some.inj hs
          exact h.quiet rfl [] hnone hnil
        · rename_i outcome _
          obtain rfl := Option.some.inj hs
          refine h.quiet rfl (returnedEvents n m outcome) rfl fun e he => ?_
          cases outcome with
          | answered reply =>
            rw [List.mem_singleton.mp he]
            exact id
          | _ => cases he
      · cases hs
    · cases hs
  | serverRecv n k =>
    simp only [step, Option.ite_none_right_eq_some, Option.some.injEq] at hs
    obtain ⟨-, rfl⟩ := hs
    exact h.quiet rfl [] hnone hnil
  | serverLine n =>
    simp only [step, Option.ite_none_right_eq_some] at hs
    obtain ⟨-, hs⟩ := hs
    obtain ⟨⟨line, rest⟩, hcut, rfl⟩ := Option.map_eq_some_iff.mp hs
    obtain ⟨ps, hps, -⟩ := hinv.underway n
    obtain ⟨p, ps', rfl, hne, hdecode, -⟩ := hps.first hserves hcut
    obtain ⟨hcalls, hstate, hsent⟩ := handleLine_message handler errorText hne hdecode s.state
    refine h.handled (n := n) (hps.sent p List.mem_cons_self) hinv.kept hstate ?_
    simp only [hcalls, hsent]
    rfl
  | serverClose n =>
    simp only [step, Option.ite_none_right_eq_some, Option.some.injEq] at hs
    obtain ⟨-, rfl⟩ := hs
    exact h.quiet rfl [] hnone hnil

theorem replayed_start (nodeId : String) (state : η) :
    Replayed handler allowed good state { client := { nodeId := nodeId }, state := state } where
  state := rfl
  serial before _ _ _ _ heq := by cases before <;> cases heq

theorem run_inv (hserves : Serves F handler allowed good) {nodeId : String} {state : η}
    (hstate : good state) {labels : List Label}
    (hproper : ∀ l ∈ labels, Proper handler allowed good l) {t : Session η}
    (ht : exec (step F handler errorText) { client := { nodeId := nodeId }, state := state }
      labels = some t) :
    Inv F handler allowed good t ∧ Replayed handler allowed good state t :=
  exec_inv_along (I := fun s => Inv F handler allowed good s ∧
      Replayed handler allowed good state s)
    (fun _ _ _ h hl hs => ⟨inv_step h.1 hserves hl hs, replayed_step hserves h.1 h.2 hs⟩)
    ⟨inv_start nodeId hstate, replayed_start nodeId state⟩
    (along_of_forall (fun _ l hl => hproper l hl) _) ht

theorem Inv.in_order {t : Session η} (h : Inv F handler allowed good t) (n : Nat) :
    handledOn n t.history <+: writtenOn n t.history := by
  obtain ⟨ps, hps, -⟩ := h.underway n
  exact ⟨ps, hps.written.symm⟩

/-- **Replies match calls**: in every run of a new client and the server, with any number of
    connections, chunks of any size and calls that give up, the handler is called on the messages
    that were written on a connection, in order and none twice, and every reply that a call
    returns is what the handler answered to the message of this call after it was sent, in the
    state in which the messages handled before had left it. -/
theorem replies_match (hserves : Serves F handler allowed good) {nodeId : String} {state : η}
    (hstate : good state) {labels : List Label}
    (hproper : ∀ l ∈ labels, Proper handler allowed good l) {t : Session η}
    (ht : exec (step F handler errorText) { client := { nodeId := nodeId }, state := state }
      labels = some t) :
    (∀ n, handledOn n t.history <+: writtenOn n t.history) ∧ Matched t.history ∧
      Serial handler allowed good state t.history := by
  obtain ⟨hinv, hreplayed⟩ := run_inv hserves hstate hproper ht
  exact ⟨hinv.in_order, hinv.matched, hreplayed.serial⟩

/-- The messages of a connection are handled in order and none twice, each as `Comes` says in the
    state that the ones before have left, and a reply that a call returns was given to its message
    after it was sent. -/
structure CarriedOut (handler : Handler η) (Comes : η → Message → List Message → Prop) (state : η)
    (history : List Event) : Prop where
  inOrder : ∀ n, handledOn n history <+: writtenOn n history
  comes : ∀ before n m rs after, history = before ++ .handled n m rs :: after →
    Comes (replay handler state before) m rs
  returned : ∀ before n m r after, history = before ++ .returned n m r :: after →
    ∃ earlier between later, before = earlier ++ .called n m :: between ++
        .handled n m [r] :: later ∧ (∀ e ∈ between ++ later, ¬ e.IsCall) ∧
      Comes (replay handler state (earlier ++ .called n m :: between)) m [r]

/-- What the handler does with single messages it does with them over the connections. -/
theorem carriedOut (hserves : Serves F handler allowed good) {nodeId : String} {state : η}
    (hstate : good state) {labels : List Label}
    (hproper : ∀ l ∈ labels, Proper handler allowed good l) {t : Session η}
    (ht : exec (step F handler errorText) { client := { nodeId := nodeId }, state := state }
      labels = some t)
    {Comes : η → Message → List Message → Prop}
    (hcomes : ∀ s m, good s → allowed m → Comes s m (responses (handler s m).2)) :
    CarriedOut handler Comes state t.history := by
  obtain ⟨hinv, hreplayed⟩ := run_inv hserves hstate hproper ht
  have hall : ∀ before n m rs after, t.history = before ++ .handled n m rs :: after →
      Comes (replay handler state before) m rs := by
    intro before n m rs after heq
    obtain ⟨hm, hgood, rfl⟩ := hreplayed.serial before n m rs after heq
    exact hcomes _ m hgood hm
  refine ⟨hinv.in_order, hall, fun before n m r after heq => ?_⟩
  obtain ⟨earlier, since, rfl, hsince, hmem⟩ := hinv.matched before n m r after heq
  obtain ⟨between, later, rfl⟩ := List.append_of_mem hmem
  refine ⟨earlier, between, later, by simp, fun e he => hsince e ?_, ?_⟩
  · rcases List.mem_append.mp he with he | he
    · exact List.mem_append_left _ he
    · exact List.mem_append_right _ (List.mem_cons_of_mem _ he)
  · refine hall _ n m [r] (later ++ .returned n m r :: after) ?_
    rw [heq]
    simp

/-! ### A call whose reply comes in two chunks, and a notification that is answered -/

/-- Every message is sent back as a response. -/
def echo : Handler Nat := fun k m => (k + 1, .ok (some { m with msgType := .response }))

def ping (name : String) : Message := { msgType := .command, payload := .str name }

def pong (name : String) : Message := { ping name with msgType := .response }

def arriving : Attempt := ⟨true, ⟨true, .accepted⟩, fun _ => true, []⟩

/-- The frame of a message goes to the handler. -/
def delivered (m : Message) : List Label :=
  [.serverRecv 0 1, .serverRecv 0 ((m.encode wholeFloats).length - 1), .serverLine 0]

def pingRun : List Label :=
  .call (ping "a") arriving :: delivered (ping "a") ++
    [.recv (.chunk (((pong "a").encode wholeFloats).take 3)),
      .recv (.chunk (((pong "a").encode wholeFloats).drop 3))]

def misread : List Label :=
  .notify (ping "a") arriving :: delivered (ping "a") ++
    [.call (ping "b") arriving, .recv (.chunk ((pong "a").encode wholeFloats))]

/-- The names in the last reply and in its call. -/
def lastReply (s : Session Nat) : Option (String × String) :=
  match s.history.getLast? with
  | some (.returned _ ⟨_, .str sent, _, _, _⟩ ⟨_, .str received, _, _, _⟩) => some (sent, received)
  | _ => none

theorem replies_match_sample :
    ∃ t, exec (step wholeFloats echo fun _ => "") { client := { nodeId := "n1" }, state := 0 }
        pingRun = some t ∧ lastReply t = some ("a", "a") ∧
      ((∀ n, handledOn n t.history <+: writtenOn n t.history) ∧ Matched t.history ∧
        Serial echo (fun m => m.Sendable wholeFloats) (fun _ => True) 0 t.history) := by
  have hrun : ((exec (step wholeFloats echo fun _ => "")
      { client := { nodeId := "n1" }, state := 0 } pingRun).bind lastReply) =
      some ("a", "a") := by decide +kernel
  obtain ⟨t, ht, hlast⟩ := Option.bind_eq_some_iff.mp hrun
  have hserves : Serves wholeFloats echo (fun m => m.Sendable wholeFloats) fun _ => True :=
    { sendable := fun _ hm => hm
      keeps := fun _ _ _ _ => trivial
      answers := fun _ m r _ hm hr => by
        obtain rfl := Option.some.inj (Except.ok.inj hr)
        exact ⟨hm.payload, hm.senderId, hm.term, hm.sequence⟩ }
  refine ⟨t, ht, hlast, replies_match hserves trivial ?_ ht⟩
  · intro l hl
    simp only [pingRun, delivered, List.cons_append, List.nil_append, List.mem_cons,
      List.not_mem_nil, or_false] at hl
    rcases hl with rfl | rfl | rfl | rfl | rfl | rfl
    · exact ⟨trivial, trivial, trivial, trivial⟩
    all_goals exact trivial

/-- Nobody waits for the answer to the first message; it is taken for the reply to the second. -/
theorem misread_reply :
    ((exec (step wholeFloats echo fun _ => "") { client := { nodeId := "n1" }, state := 0 }
      misread).bind lastReply) = some ("b", "a") := by
  decide +kernel

end Session

end MiniDb.Network
