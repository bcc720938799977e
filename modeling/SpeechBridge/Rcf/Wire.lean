import SpeechBridge.Rcf.Transport

set_option autoImplicit false

/-! # Requests and responses over a connection

Both directions of a connection are pipes: what one side sends, the other side gets, each
message whole and in the order sent, whatever the pieces in which the operating system
transfers the bytes (`upstream_delivers`, `downstream_delivers`). With the encoding of the messages:
the server decodes the calls of the client (`requests_over_connection`), and the client decodes the
results of the sessions (`responses_over_connection`).
-/

namespace SpeechBridge.Rcf

open Framing (Pipe Move)

/-- From a client to its server. -/
abbrev Upstream := Pipe (List ByteBuffer) ClientWriter SessionReader

/-- From a server to its client. -/
abbrev Downstream := Pipe (List ByteBuffer) SessionWriter ClientReader

def Upstream.step (maxSendSize maxMessageLength : Nat) : Upstream → Move → Option Upstream :=
  Pipe.step (ClientWriter.writer maxSendSize) (SessionReader.reader maxMessageLength)

def Downstream.step (maxMessageLength : Nat) : Downstream → Move → Option Downstream :=
  Pipe.step SessionWriter.writer (ClientReader.reader maxMessageLength)

def Upstream.start (maxMessageLength : Nat) (messages : List (List ByteBuffer)) : Upstream :=
  Pipe.start (SessionReader.reader maxMessageLength) messages

def Downstream.start (maxMessageLength : Nat) (messages : List (List ByteBuffer)) : Downstream :=
  Pipe.start (ClientReader.reader maxMessageLength) messages

/-- The moves that are enough for the messages: every byte is written and read at most once, and
for every message there are two moves more. -/
def movesFor (messages : List (List ByteBuffer)) : Nat :=
  2 * (Framing.frames (messages.map messageBytes)).length + 2 * messages.length

theorem work_start {ω ρ : Type} {rest : ω → List UInt8} {R : Framing.Reader ρ}
    (messages : List (List ByteBuffer)) :
    Pipe.work messageBytes rest (messages.map messageBytes)
      (Pipe.start R messages : Pipe (List ByteBuffer) ω ρ) = movesFor messages := by
  unfold Pipe.work Pipe.start Pipe.left movesFor
  simp only [Option.map_none, Option.getD_none, List.length_nil, List.length_map]
  omega

section

variable {maxSendSize maxMessageLength : Nat} {messages : List (List ByteBuffer)} {as : List Move}

theorem upstream_delivers (hsize : 0 < maxSendSize)
    (h : ∀ m ∈ messages,
      Framable m ∧ SessionReader.Accepts maxMessageLength (messageBytes m)) {p : Upstream}
    (hrun : StateMachine.run (Upstream.step maxSendSize maxMessageLength)
      (Upstream.start maxMessageLength messages) as = some p) :
    p.delivered <+: messages.map messageBytes ∧
      (StateMachine.Stuck (Upstream.step maxSendSize maxMessageLength) p →
        p.delivered = messages.map messageBytes) ∧
      as.length ≤ movesFor messages := by
  have hpipe := Pipe.run_delivers (ClientWriter.lawful hsize)
    (SessionReader.lawful maxMessageLength) h hrun
  rw [work_start] at hpipe
  exact hpipe

theorem downstream_delivers
    (h : ∀ m ∈ messages,
      Framable m ∧ ClientReader.Accepts maxMessageLength (messageBytes m)) {p : Downstream}
    (hrun : StateMachine.run (Downstream.step maxMessageLength)
      (Downstream.start maxMessageLength messages) as = some p) :
    p.delivered <+: messages.map messageBytes ∧
      (StateMachine.Stuck (Downstream.step maxMessageLength) p →
        p.delivered = messages.map messageBytes) ∧
      as.length ≤ movesFor messages := by
  have hpipe := Pipe.run_delivers SessionWriter.lawful (ClientReader.lawful maxMessageLength) h hrun
  rw [work_start] at hpipe
  exact hpipe

end

/-- What was delivered is what the first messages decode to. -/
theorem delivered_map {ι α : Type} {content : ι → List UInt8} {sent : List ι}
    {delivered : List (List UInt8)} {decode : List UInt8 → α} {value : ι → α}
    (hdelivered : delivered <+: sent.map content)
    (hdecode : ∀ c ∈ sent, decode (content c) = value c) :
    delivered.map decode = (sent.take delivered.length).map value := by
  have htake := List.prefix_iff_eq_take.mp hdelivered
  rw [← List.map_take] at htake
  calc delivered.map decode
      = ((sent.take delivered.length).map content).map decode := by rw [← htake]
    _ = (sent.take delivered.length).map value := by
        rw [List.map_map]
        apply List.map_congr_left
        intro c hc
        exact hdecode c (List.mem_of_mem_take hc)

/-! ## Requests -/

/-- A call that is to be sent. -/
structure Outgoing where
  request : MethodInvocationRequest
  out : SerializationProtocolOut
  parameters : List Output
  filters : List Filter

/-- The message of the call. -/
def Outgoing.message (c : Outgoing) : List ByteBuffer :=
  match sendRequest c.request c.out c.parameters c.filters with
  | .ok (message, _, _) => message
  | .error _ => []

/-- The call can be sent to the server, which accepts messages of some length. -/
structure Outgoing.Fits (c : Outgoing) (rcfServer : RcfServer) (maxMessageLength : Nat) :
    Prop where
  sendable : Sendable c.request
  protocol : Bindable c.request.serializationProtocol
  out : c.out.Ready
  chain : Chain c.filters
  creates : Creates rcfServer.createFilter c.filters
  length : (headerBytes c.request ++ c.parameters.flatMap Output.bytes).length < 2 ^ 31
  framed : lengthByteBuffers c.message < 2 ^ 32
  accepted : lengthByteBuffers c.message ≤ maxMessageLength

/-- The message of a call has room for its length, and the session decodes it. -/
theorem Outgoing.Fits.message {c : Outgoing} {rcfServer : RcfServer} {maxMessageLength : Nat}
    (h : c.Fits rcfServer maxMessageLength) :
    Framable c.message ∧ SessionReader.Accepts maxMessageLength (messageBytes c.message) ∧
      ∀ session : RcfSession, session.Ready rcfServer →
        decodeRequest rcfServer session (messageBytes c.message)
          = .ok (received rcfServer session c.request c.filters
            (c.parameters.flatMap Output.bytes)) := by
  have hsent : ∀ session : RcfSession, session.Ready rcfServer →
      4 ≤ frontMargin c.message ∧ decodeRequest rcfServer session (messageBytes c.message)
        = .ok (received rcfServer session c.request c.filters
          (c.parameters.flatMap Output.bytes)) := by
    intro session hsession
    obtain ⟨message, out', hsend, -, hmargin, -, hdecode⟩ := request_received h.sendable
      h.protocol h.out h.chain h.creates hsession h.length
    have hmessage : c.message = message := by
      rw [Outgoing.message, hsend]
    rw [hmessage]
    exact ⟨hmargin, hdecode⟩
  have hmargin := (hsent (.initial 0) (RcfSession.initial_ready rcfServer 0)).1
  refine ⟨⟨hmargin, h.framed⟩, ⟨?_, ?_⟩, fun session hsession => (hsent session hsession).2⟩
  · rw [← lengthByteBuffers_eq]
    exact h.accepted
  · rw [← lengthByteBuffers_eq]
    exact h.framed

/-- A ping that is to be sent. -/
def outgoingPing : Outgoing := ⟨.ping, .initial, [], []⟩

/-- The results of a call that are to be sent. -/
structure Reply where
  session : RcfSession
  exception : Bool
  results : List Output

/-- The message of the results. -/
def Reply.message (r : Reply) : List ByteBuffer :=
  match sendResponse r.session r.exception r.results with
  | .ok (message, _) => message
  | .error _ => []

/-- The results can be sent to a client with these filters, which accepts messages of some
length. -/
structure Reply.Fits (r : Reply) (filters : List Filter) (maxMessageLength : Nat) : Prop where
  out : r.session.spOut.Holds 32 [] []
  filters : (if r.session.filtered then r.session.filters else []) = filters
  length : 3 + (r.results.flatMap Output.bytes).length < 2 ^ 31
  nonempty : 0 < lengthByteBuffers r.message
  framed : 4 + lengthByteBuffers r.message < 2 ^ 32
  accepted : lengthByteBuffers r.message ≤ maxMessageLength

theorem Reply.Fits.message {r : Reply} {filters : List Filter} {maxMessageLength : Nat}
    (h : r.Fits filters maxMessageLength) (hchain : Chain filters) :
    Framable r.message ∧ ClientReader.Accepts maxMessageLength (messageBytes r.message) ∧
      decodeResponse filters (messageBytes r.message)
        = .ok (⟨r.exception, false, 0, 0⟩, r.results.flatMap Output.bytes) := by
  obtain ⟨message, out', hsend, -, -, hmargin, -, hdecode⟩ :=
    response_received h.out hchain h.filters r.exception h.length
  have hmessage : r.message = message := by
    rw [Reply.message, hsend]
  have hframed := h.framed
  rw [← hmessage] at hmargin hdecode
  refine ⟨⟨hmargin, by omega⟩, ⟨?_, ?_, ?_⟩, hdecode⟩
  · rw [← lengthByteBuffers_eq]
    exact h.nonempty
  · rw [← lengthByteBuffers_eq]
    exact h.accepted
  · rw [← lengthByteBuffers_eq]
    exact hframed

/-- A result of one byte. -/
def byteReply : Reply where
  session := { RcfSession.initial 5 with
    spOut := SerializationProtocolOut.initial.restart SfBinary 32 [] }
  exception := false
  results := [.write [7]]

end SpeechBridge.Rcf
