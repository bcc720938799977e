import SpeechBridge.Rcf.MethodInvocation

set_option autoImplicit false

/-! # Requests and responses on the wire

A client resets its output to the header of the request, puts the parameters of the call behind
it, and sends what it extracts (`ClientStub::init` and `ClientStub::send` of
`src/RCF/src/RCF/Marshal.cpp`). A session puts its results into an output that `decodeRequest`
has reset, and the header of the response goes into the margin (`sendSessionResponse` of
`src/RCF/src/RCF/RcfServer.cpp`). `exchange` is the whole way there and back.
-/

namespace SpeechBridge.Rcf

/-- The message of a call, and the request and the output after it was sent. -/
def sendRequest (r : MethodInvocationRequest) (out : SerializationProtocolOut)
    (parameters : List Output) (filters : List Filter) :
    Except Failure (List ByteBuffer × MethodInvocationRequest × SerializationProtocolOut) := do
  let (header, r) ← asserted (encodeRequestHeader r)
  let out ← out.reset r.serializationProtocol 32 header
  let (byteBuffers, out) ← (parameters.foldl SerializationProtocolOut.put out).extractByteBuffers
  let message ← encodeRequest byteBuffers filters
  .ok (message, r, out)

/-- The message that answers the request of a session, and the session after it was sent. -/
def sendResponse (session : RcfSession) (exception : Bool) (results : List Output) :
    Except Failure (List ByteBuffer × RcfSession) := do
  let request := { session.request with exception := exception }
  let (byteBuffers, out) ← (results.foldl SerializationProtocolOut.put
    session.spOut).extractByteBuffers
  let message ← encodeResponse request byteBuffers
    (if session.filtered then session.filters else [])
  .ok (message, { session with request := request, spOut := out })

/-! ## The request -/

/-- A session between two requests: its streams can be reset, and the filters that it has are
filters of the server. -/
structure RcfSession.Ready (session : RcfSession) (rcfServer : RcfServer) : Prop where
  spIn : Bindable session.spIn.protocol
  spOut : session.spOut.Ready
  filters : Creates rcfServer.createFilter session.filters

theorem RcfSession.initial_ready (rcfServer : RcfServer) (runtimeVersion : Int32) :
    (RcfSession.initial runtimeVersion).Ready rcfServer :=
  ⟨Or.inl rfl, ⟨Or.inl rfl, rfl⟩, Creates.nil _⟩

/-- What a session makes of the request `r`. -/
def received (rcfServer : RcfServer) (session : RcfSession) (r : MethodInvocationRequest)
    (filters : List Filter) (parameters : List UInt8) : Bool × RcfSession :=
  let filled := { session with
    filtered := !filters.isEmpty
    filters := sessionFilters session.filters filters
    request := fillIn session.request r }
  if announced r.rcfRuntimeVersion > rcfServer.rcfRuntimeVersion then (false, filled)
  else (true, { filled with
    rcfRuntimeVersion := announced r.rcfRuntimeVersion
    spIn := ⟨r.serializationProtocol, parameters⟩
    spOut := session.spOut.restart r.serializationProtocol 32 [] })

section

variable {r : MethodInvocationRequest} {rcfServer : RcfServer} {session : RcfSession}
  {filters : List Filter}

/-- A header starts with the byte of a request. -/
theorem headerBytes_head (r : MethodInvocationRequest) :
    ∃ tail, headerBytes r = 1 :: tail := by
  have hone : intBytes Descriptor.request = [1] := rfl
  refine ⟨intBytes (requestHeaderVersion r.rcfRuntimeVersion) ++ fieldsBytes r, ?_⟩
  rw [headerBytes, hone, List.singleton_append]

theorem head_of_prefix {ch : UInt8} {tail bytes : List UInt8} (h : ch :: tail <+: bytes) :
    bytes ≠ [] ∧ bytes.head? = some ch := by
  obtain ⟨rest, rfl⟩ := h
  exact ⟨List.cons_ne_nil _ _, rfl⟩

/-- The session decodes a message once its envelope is off. -/
theorem decodeRequest_of_unfiltered (h : Sendable r) (hprotocol : Bindable r.serializationProtocol)
    (hsession : session.Ready rcfServer) {byteBuffer parameters : List UInt8}
    (hb : decodeFilteredServer rcfServer.createFilter session.filters byteBuffer
      = .ok (!filters.isEmpty, sessionFilters session.filters filters,
        headerBytes r ++ parameters)) :
    decodeRequest rcfServer session byteBuffer
      = .ok (received rcfServer session r filters parameters) := by
  have hrun := (reads_decodeHeader h session.request).at_start parameters
  rw [decodeRequest_of_header hb hrun, received]
  by_cases hv : announced r.rcfRuntimeVersion > rcfServer.rcfRuntimeVersion
  · simp only [if_pos hv]
  · have hprotocol' : Bindable (fillIn session.request r).serializationProtocol := hprotocol
    simp only [if_neg hv, List.drop_left]
    rw [SerializationProtocolIn.reset_eq hsession.spIn parameters hprotocol',
      hsession.spOut.reset_eq hprotocol' 32 []]
    rfl

/-- What a client sends, and what a session makes of it. Without filters the message is the header
and the parameters. -/
theorem request_received (h : Sendable r) (hprotocol : Bindable r.serializationProtocol)
    {out : SerializationProtocolOut} (hout : out.Ready) (hchain : Chain filters)
    (hcreate : Creates rcfServer.createFilter filters) (hsession : session.Ready rcfServer)
    {parameters : List Output}
    (hlen : (headerBytes r ++ parameters.flatMap Output.bytes).length < 2 ^ 31) :
    ∃ message out', sendRequest r out parameters filters
        = .ok (message, { r with vec := some (headerBytes r) }, out') ∧
      out'.Ready ∧ 4 ≤ frontMargin message ∧
      (filters = [] → messageBytes message = headerBytes r ++ parameters.flatMap Output.bytes) ∧
      decodeRequest rcfServer session (messageBytes message)
        = .ok (received rcfServer session r filters (parameters.flatMap Output.bytes)) := by
  have hholds := (SerializationProtocolOut.holds_restart hout r.serializationProtocol 32
    (headerBytes r)).run parameters
  rw [List.nil_append] at hholds
  obtain ⟨front, rest, hextract, hbytes, hmargin, hprefix⟩ := hholds.extract (by decide)
  obtain ⟨tail, htail⟩ := headerBytes_head r
  rw [htail] at hprefix
  obtain ⟨hfront, hhead⟩ := head_of_prefix hprefix
  have h3 : front.bytes.head? ≠ some 3 := by
    rw [hhead]
    decide
  have hroom : front.getLeftMargin = 32 := by
    unfold ByteBuffer.getLeftMargin
    rw [hmargin, List.length_replicate]
  have hshort : lengthByteBuffers (front :: rest) < 2 ^ 31 := by
    rw [lengthByteBuffers_eq, hbytes]
    exact hlen
  obtain ⟨message, hrun, hm, hdecode⟩ := decodeFilteredServer_encodeFiltered hchain hcreate
    hsession.filters hfront h3 hshort (by rw [hroom]; decide)
  rw [hbytes] at hdecode
  refine ⟨message, { parameters.foldl SerializationProtocolOut.put
      (out.restart r.serializationProtocol 32 (headerBytes r)) with byteBuffers := [] },
    ?_, ⟨?_, rfl⟩, ?_, ?_, decodeRequest_of_unfiltered h hprotocol hsession hdecode⟩
  · unfold sendRequest
    rw [encodeRequestHeader_eq]
    show (do
      let out ← out.reset r.serializationProtocol 32 (headerBytes r)
      let (byteBuffers, out) ← (parameters.foldl SerializationProtocolOut.put
        out).extractByteBuffers
      let message ← encodeRequest byteBuffers filters
      Except.ok (message, { r with vec := some (headerBytes r) }, out)) = _
    rw [hout.reset_eq hprotocol]
    show (do
      let (byteBuffers, out) ← (parameters.foldl SerializationProtocolOut.put
        (out.restart r.serializationProtocol 32 (headerBytes r))).extractByteBuffers
      let message ← encodeRequest byteBuffers filters
      Except.ok (message, { r with vec := some (headerBytes r) }, out)) = _
    rw [hextract]
    show (do
      let message ← encodeFiltered (front :: rest) filters
      Except.ok (message, _, _)) = _
    rw [hrun]
    rfl
  · show Bindable (parameters.foldl SerializationProtocolOut.put _).protocol
    rw [SerializationProtocolOut.foldl_put_protocol]
    exact hout.restart_protocol hprotocol 32 (headerBytes r)
  · rw [hroom] at hm
    exact Nat.le_trans (by decide) hm
  · intro hnil
    rw [hnil, encodeFiltered_nil, Except.ok.injEq] at hrun
    rw [← hrun, hbytes]

end

/-! ## The response -/

/-- The bytes of the header of a response. -/
def responseHeaderBytes (exception : Bool) : List UInt8 :=
  intBytes Descriptor.response ++ (intBytes 0 ++ boolBytes exception)

theorem stores_encodeResponseHeader (exception : Bool) :
    Filling.Stores (encodeResponseHeader exception) (responseHeaderBytes exception) :=
  (stores_encodeIntAt _).seq ((stores_encodeIntAt _).seq (stores_encodeBoolAt _))

theorem reads_decodeResponseHeader (exception : Bool) :
    decodeResponseHeader.Reads (responseHeaderBytes exception) ⟨exception, false, 0, 0⟩ := by
  refine (reads_decodeInt _).bind ?_
  refine (reads_decodeInt _).bind ?_
  rw [if_neg (by decide)]
  refine (Decoder.Reads.verify rfl _).nil_bind ?_
  refine (Decoder.Reads.verify rfl _).nil_bind ?_
  exact (reads_decodeBool _).bind_nil (Decoder.Reads.pure _)

/-- The client decodes a message once its envelope is off. -/
theorem decodeResponse_of_unfiltered {filters : List Filter} {byteBuffer results : List UInt8}
    {exception : Bool}
    (hb : decodeFilteredClient filters byteBuffer = .ok (responseHeaderBytes exception ++ results)) :
    decodeResponse filters byteBuffer = .ok (⟨exception, false, 0, 0⟩, results) := by
  have hrun := (reads_decodeResponseHeader exception).at_start results
  rw [decodeResponse_of_header hb hrun, List.drop_left]

theorem response_received {session : RcfSession} (hout : session.spOut.Holds 32 [] [])
    {filters : List Filter} (hchain : Chain filters)
    (hfilters : (if session.filtered then session.filters else []) = filters) (exception : Bool)
    {results : List Output} (hlen : 3 + (results.flatMap Output.bytes).length < 2 ^ 31) :
    ∃ message out', sendResponse session exception results
        = .ok (message, { session with
            request := { session.request with exception := exception }
            spOut := out' }) ∧
      out'.protocol = session.spOut.protocol ∧ out'.byteBuffers = [] ∧
      4 ≤ frontMargin message ∧
      (filters = [] →
        messageBytes message = responseHeaderBytes exception ++ results.flatMap Output.bytes) ∧
      decodeResponse filters (messageBytes message)
        = .ok (⟨exception, false, 0, 0⟩, results.flatMap Output.bytes) := by
  obtain ⟨front, rest, hextract, hbytes, hmargin, -⟩ := (hout.run results).extract (by decide)
  rw [List.nil_append, List.nil_append] at hbytes
  have hroom : front.getLeftMargin = 32 := by
    unfold ByteBuffer.getLeftMargin
    rw [hmargin, List.length_replicate]
  have hprepend := ByteBuffer.prepend_eq (b := front) (stores_encodeResponseHeader exception)
    (by rw [hroom]; cases exception <;> decide)
  have hthree : (responseHeaderBytes exception).length = 3 := by cases exception <;> rfl
  rw [hthree] at hprepend
  have hfront : responseHeaderBytes exception ++ front.bytes ≠ [] := by
    intro h
    have := congrArg List.length h
    rw [List.length_append, hthree] at this
    simp at this
  have h3 : (responseHeaderBytes exception ++ front.bytes).head? ≠ some 3 := by
    show some 2 ≠ some 3
    decide
  have hmessage : messageBytes (⟨front.margin.take (front.getLeftMargin - 3),
      responseHeaderBytes exception ++ front.bytes⟩ :: rest)
      = responseHeaderBytes exception ++ results.flatMap Output.bytes := by
    rw [messageBytes_cons, List.append_assoc, ← messageBytes_cons, hbytes]
  have hleft : (⟨front.margin.take (front.getLeftMargin - 3),
      responseHeaderBytes exception ++ front.bytes⟩ : ByteBuffer).getLeftMargin = 29 := by
    show (front.margin.take (front.getLeftMargin - 3)).length = 29
    unfold ByteBuffer.getLeftMargin at hroom ⊢
    rw [List.length_take, hroom]
    rfl
  obtain ⟨message, hrun, hm, hdecode⟩ := @decodeFilteredClient_encodeFiltered filters hchain
    ⟨front.margin.take (front.getLeftMargin - 3), responseHeaderBytes exception ++ front.bytes⟩
    rest hfront h3
    (by rw [lengthByteBuffers_eq, hmessage, List.length_append, hthree]; exact hlen)
    (by rw [hleft]; decide)
  rw [hmessage] at hdecode
  have hencode : encodeResponse { session.request with exception := exception } (front :: rest)
      filters = .ok message := by
    show (do
      let front ← asserted (front.prepend 3 (encodeResponseHeader exception))
      encodeFiltered (front :: rest) filters) = _
    rw [hprepend]
    exact hrun
  refine ⟨message, { results.foldl SerializationProtocolOut.put session.spOut with
      byteBuffers := [] }, ?_, SerializationProtocolOut.foldl_put_protocol results _, rfl, ?_, ?_,
      decodeResponse_of_unfiltered hdecode⟩
  · unfold sendResponse
    rw [hextract, hfilters]
    show (do
      let message ← encodeResponse { session.request with exception := exception }
        (front :: rest) filters
      Except.ok (message, _)) = _
    rw [hencode]
    rfl
  · rw [hleft] at hm
    exact Nat.le_trans (by decide) hm
  · intro hnil
    rw [hnil, encodeFiltered_nil, Except.ok.injEq] at hrun
    rw [← hrun, hmessage]

/-! ## Error messages -/

/-- The bytes of an error message. -/
def errorBytes (error : Int32) (arg0 : Option Int32) : List UInt8 :=
  intBytes Descriptor.error ++ (intBytes 0 ++ (intBytes error ++ (arg0.map intBytes).getD []))

theorem stores_encodeErrorFields (error : Int32) (arg0 : Option Int32) :
    Filling.Stores (encodeErrorFields error arg0) (errorBytes error arg0) := by
  refine (stores_encodeIntAt _).seq ((stores_encodeIntAt _).seq ((stores_encodeIntAt _).seq ?_))
  cases arg0 with
  | none =>
      intro s _
      show some s = some (s.overwrite [])
      unfold Filling.overwrite
      simp
  | some arg0 => exact stores_encodeIntAt arg0

theorem reads_decodeResponseHeader_error {error : Int32} {arg0 : Option Int32}
    (harg : arg0.isSome ↔ hasArg0 error) :
    decodeResponseHeader.Reads (errorBytes error arg0) ⟨false, true, error, arg0.getD 0⟩ := by
  refine (reads_decodeInt _).bind ?_
  refine (reads_decodeInt _).bind ?_
  rw [if_pos rfl]
  refine (Decoder.Reads.verify rfl _).nil_bind ?_
  refine (reads_decodeInt _).bind ?_
  cases arg0 with
  | none =>
      have hno : ¬ hasArg0 error := fun h => by simpa using harg.mpr h
      rw [if_neg hno]
      exact Decoder.Reads.pure _
  | some arg0 =>
      rw [if_pos (harg.mp rfl)]
      exact (reads_decodeInt _).bind_nil (Decoder.Reads.pure _)

/-- A client without filters decodes an error; a client with filters rejects the message. -/
theorem decodeResponse_errorBytes {error : Int32} {arg0 : Option Int32}
    (harg : arg0.isSome ↔ hasArg0 error) (filters : List Filter) (leftover : List UInt8) :
    decodeResponse filters (errorBytes error arg0 ++ leftover)
      = if filters = [] then .ok (⟨false, true, error, arg0.getD 0⟩, leftover)
        else .error (.exception RcfError.payloadFilterMismatch) := by
  have hread := (reads_decodeResponseHeader_error harg).at_start leftover
  have hne : errorBytes error arg0 ++ leftover ≠ [] := List.cons_ne_nil _ _
  have h3 : (errorBytes error arg0 ++ leftover).head? ≠ some 3 := by
    show some (0 : UInt8) ≠ some 3
    decide
  by_cases hnil : filters = []
  · subst hnil
    have hclient : decodeFilteredClient [] (errorBytes error arg0 ++ leftover)
        = .ok (errorBytes error arg0 ++ leftover) := by
      unfold decodeFilteredClient
      rw [openEnvelope_unfiltered hne h3]
      rfl
    rw [decodeResponse_of_header hclient hread, if_pos rfl, List.drop_left]
  · unfold decodeResponse
    rw [decodeFilteredClient_mismatch hnil hne h3, if_neg hnil]
    rfl

theorem reuse_length (byteBuffer : ByteBuffer) (len : Nat) :
    len ≤ ((reuse byteBuffer len).margin ++ (reuse byteBuffer len).bytes).length := by
  unfold reuse ByteBuffer.getLength ByteBuffer.getLeftMargin
  split
  · show len ≤ ([] ++ List.replicate len (0 : UInt8)).length
    rw [List.nil_append, List.length_replicate]
  · rw [List.length_append]
    omega

/-- An error of one byte fits behind the margin. -/
theorem errorBytes_length_le {error : Int32} (hsmall : 0 ≤ error ∧ error < 255)
    (arg0 : Option Int32) : 4 + (errorBytes error arg0).length ≤ serverErrorLen arg0 := by
  have hone : (intBytes error).length = 1 := by
    unfold intBytes
    rw [if_pos hsmall]
    rfl
  have hd : (intBytes Descriptor.error).length = 1 := rfl
  have hz : (intBytes 0).length = 1 := rfl
  unfold errorBytes serverErrorLen
  cases arg0 with
  | none =>
      simp only [List.length_append, hone, hd, hz, Option.map_none, Option.getD_none,
        List.length_nil]
      omega
  | some arg0 =>
      have hle := intBytes_length_le arg0
      simp only [List.length_append, hone, hd, hz, Option.map_some, Option.getD_some]
      omega

/-- The buffer that an error is encoded into. -/
theorem encodeServerError_eq (byteBuffer : ByteBuffer) {error : Int32}
    (hsmall : 0 ≤ error ∧ error < 255) (arg0 : Option Int32) :
    ∃ b leftover, encodeServerError byteBuffer error arg0 = .ok b ∧ b.getLeftMargin = 4 ∧
      b.bytes = errorBytes error arg0 ++ leftover ∧
      4 + b.bytes.length = ((reuse byteBuffer (serverErrorLen arg0)).margin
        ++ (reuse byteBuffer (serverErrorLen arg0)).bytes).length := by
  have hlen := errorBytes_length_le hsmall arg0
  have hroom := reuse_length byteBuffer (serverErrorLen arg0)
  unfold encodeServerError
  generalize reuse byteBuffer (serverErrorLen arg0) = b at hroom ⊢
  have hset : b.setLeftMargin 4
      = some ⟨(b.margin ++ b.bytes).take 4, (b.margin ++ b.bytes).drop 4⟩ := by
    unfold ByteBuffer.setLeftMargin
    exact if_pos (by omega)
  have hfront := (stores_encodeErrorFields error arg0).from_front ((b.margin ++ b.bytes).drop 4)
    (by rw [List.length_drop]; omega)
  rw [Option.map_eq_some_iff] at hfront
  obtain ⟨s, hs, hbuf⟩ := hfront
  refine ⟨⟨(b.margin ++ b.bytes).take 4, s.buf⟩, _, ?_, ?_, hbuf, ?_⟩
  · rw [hset]
    show asserted (Option.map _ (encodeErrorFields error arg0 _)) = _
    rw [hs]
    rfl
  · show ((b.margin ++ b.bytes).take 4).length = 4
    rw [List.length_take]
    omega
  · show 4 + s.buf.length = _
    rw [hbuf, List.length_append, List.length_drop, List.length_drop]
    omega

/-! ## A whole exchange -/

theorem not_gt_of_le {v w : Int32} (h : v ≤ w) : ¬ v > w := by
  rw [gt_iff_lt, Int32.lt_iff_toInt_lt]
  rw [Int32.le_iff_toInt_le] at h
  omega

/-- The session after a request that the server supports: the parameters can be read, the output
is empty, and the session answers with the filters of the request. -/
theorem received_supported {rcfServer : RcfServer} {session : RcfSession}
    {r : MethodInvocationRequest} (hsession : session.Ready rcfServer)
    (hprotocol : Bindable r.serializationProtocol)
    (hversion : announced r.rcfRuntimeVersion ≤ rcfServer.rcfRuntimeVersion)
    (filters : List Filter) (parameters : List UInt8) :
    ∃ session', received rcfServer session r filters parameters = (true, session') ∧
      session'.request = fillIn session.request r ∧
      session'.spIn = ⟨r.serializationProtocol, parameters⟩ ∧
      session'.rcfRuntimeVersion = announced r.rcfRuntimeVersion ∧
      session'.filters = sessionFilters session.filters filters ∧
      session'.stranded = session.stranded ∧
      (if session'.filtered then session'.filters else []) = filters ∧
      Bindable session'.spOut.protocol ∧ session'.spOut.Holds 32 [] [] := by
  unfold received
  rw [if_neg (not_gt_of_le hversion)]
  refine ⟨_, rfl, rfl, rfl, rfl, rfl, rfl, ?_,
    hsession.spOut.restart_protocol hprotocol 32 [],
    SerializationProtocolOut.holds_restart hsession.spOut r.serializationProtocol 32 []⟩
  show (if (!filters.isEmpty) = true then sessionFilters session.filters filters else []) = filters
  unfold sessionFilters
  cases filters with
  | nil => rfl
  | cons f filters => rfl

/-- The session after a request that the server does not support. -/
theorem received_unsupported {rcfServer : RcfServer} {session : RcfSession}
    {r : MethodInvocationRequest}
    (hversion : announced r.rcfRuntimeVersion > rcfServer.rcfRuntimeVersion)
    (filters : List Filter) (parameters : List UInt8) :
    ∃ session', received rcfServer session r filters parameters = (false, session') ∧
      session'.request = fillIn session.request r ∧
      session'.rcfRuntimeVersion = session.rcfRuntimeVersion ∧
      session'.filters = sessionFilters session.filters filters ∧
      session'.stranded = session.stranded ∧
      session'.spIn = session.spIn ∧ session'.spOut = session.spOut := by
  unfold received
  rw [if_pos hversion]
  exact ⟨_, rfl, rfl, rfl, rfl, rfl, rfl, rfl⟩

/-- A server that creates `xorFilter`. -/
def xorServer : RcfServer :=
  { RcfServer.plain 5 with createFilter := fun id => if id = 101 then some xorFilter else none }

/-- **Truncated requests.** A session never serves a request whose header is cut off, wherever
the cut is. -/
theorem truncated_request {r : MethodInvocationRequest} (h : Sendable r) (rcfServer : RcfServer)
    (session : RcfSession) {k : Nat} (hk : k < (headerBytes r).length) :
    ∃ e, decodeRequest rcfServer session ((headerBytes r).take k) = .error e := by
  obtain ⟨e, he⟩ := Decoder.error_of_take (sound_decodeHeader session.request)
    (reads_decodeHeader h session.request) hk
  obtain ⟨tail, htail⟩ := headerBytes_head r
  cases k with
  | zero => exact ⟨.assertion, rfl⟩
  | succ k =>
      refine ⟨e, ?_⟩
      have hopen : openEnvelope ((headerBytes r).take (k + 1))
          = .ok ([], 0, (headerBytes r).take (k + 1)) := by
        refine openEnvelope_unfiltered ?_ ?_
        · rw [htail]
          exact List.cons_ne_nil _ _
        · rw [htail]
          show some (1 : UInt8) ≠ some 3
          decide
      have hserver : decodeFilteredServer rcfServer.createFilter session.filters
          ((headerBytes r).take (k + 1))
          = .ok (false, session.filters, (headerBytes r).take (k + 1)) := by
        unfold decodeFilteredServer
        rw [hopen]
        rfl
      exact decodeRequest_of_error hserver he

theorem truncated_request_ping :
    ∃ e, decodeRequest (.plain 5) (.initial 5) ((headerBytes .ping).take 7) = .error e :=
  truncated_request ⟨by decide, by decide⟩ (.plain 5) (.initial 5) (by decide)

/-- **Error messages.** An error of one byte, with an argument if and only if it is one of the two
errors that carry one, is decoded as this error and its argument, whichever buffer it was encoded
into. A client with filters does not get to know the error: it rejects the message. -/
theorem error_received (byteBuffer : ByteBuffer) {error : Int32}
    (hsmall : 0 ≤ error ∧ error < 255) {arg0 : Option Int32}
    (harg : arg0.isSome ↔ hasArg0 error) (filters : List Filter) :
    ∃ b, encodeServerError byteBuffer error arg0 = .ok b ∧ b.getLeftMargin = 4 ∧
      (decodeResponse filters b.bytes).map Prod.fst
        = if filters = [] then .ok ⟨false, true, error, arg0.getD 0⟩
          else .error (.exception RcfError.payloadFilterMismatch) := by
  obtain ⟨b, leftover, hrun, hmargin, hbytes, -⟩ := encodeServerError_eq byteBuffer hsmall arg0
  refine ⟨b, hrun, hmargin, ?_⟩
  rw [hbytes, decodeResponse_errorBytes harg]
  split <;> rfl

theorem error_received_mismatch :
    ∃ b, encodeServerError (.ofBytes []) RcfError.versionMismatch (some 5) = .ok b ∧
      b.getLeftMargin = 4 ∧
      (decodeResponse [] b.bytes).map Prod.fst
        = if ([] : List Filter) = [] then .ok ⟨false, true, RcfError.versionMismatch, 5⟩
          else .error (.exception RcfError.payloadFilterMismatch) :=
  error_received (.ofBytes []) (by decide) (by decide) []

end SpeechBridge.Rcf
