import SpeechBridge.Rcf.ClientStub

set_option autoImplicit false

/-! # Calls between runtime versions

What becomes of the calls of a client when the runtime versions of the client and the server
differ. `send_served` and `send_mismatch` say what one request does, `react_response`,
`react_pingBack` and `react_mismatch` what one message does.
-/

namespace SpeechBridge.Rcf

/-! ## Error messages of a session -/

/-- The bytes report an error to a client without filters, and are rejected by others. -/
structure Reports (error arg0 : Int32) (message : List UInt8) : Prop where
  length : message.length ≤ 10
  decodes : ∀ filters, ∃ leftover, decodeResponse filters message
    = if filters = [] then .ok (⟨false, true, error, arg0⟩, leftover)
      else .error (.exception RcfError.payloadFilterMismatch)

theorem serverErrorLen_le (arg0 : Option Int32) : serverErrorLen arg0 ≤ 14 := by
  cases arg0 with
  | none => decide
  | some arg0 => exact Nat.le_refl 14

theorem serverError_reports {error : Int32} (hsmall : 0 ≤ error ∧ error < 255)
    {arg0 : Option Int32} (harg : arg0.isSome ↔ hasArg0 error) :
    ∃ message, serverError error arg0 = .ok message ∧ Reports error (arg0.getD 0) message := by
  obtain ⟨b, leftover, hrun, -, hbytes, hlength⟩ :=
    encodeServerError_eq (.ofBytes []) hsmall arg0
  have hfresh : reuse (.ofBytes []) (serverErrorLen arg0)
      = .ofBytes (List.replicate (serverErrorLen arg0) 0) := by
    cases arg0 <;> rfl
  have hle := serverErrorLen_le arg0
  refine ⟨b.bytes, ?_, ?_, fun filters => ⟨leftover, ?_⟩⟩
  · unfold serverError
    rw [hrun]
    rfl
  · rw [hfresh] at hlength
    simp only [ByteBuffer.ofBytes, List.nil_append, List.length_replicate] at hlength
    omega
  · rw [hbytes]
    exact decodeResponse_errorBytes harg filters leftover

theorem versionMismatch_reports (version : Int32) :
    ∃ message, serverError RcfError.versionMismatch (some version) = .ok message ∧
      Reports RcfError.versionMismatch version message :=
  serverError_reports (by decide) (iff_of_true rfl (Or.inl rfl))

theorem serverMessageLength_reports :
    ∃ message, serverError RcfError.serverMessageLength none = .ok message ∧
      Reports RcfError.serverMessageLength 0 message :=
  serverError_reports (by decide) (by decide)

theorem pingBackMessages_report (pingBacks : List Int32) :
    ∃ messages, pingBackMessages pingBacks = .ok messages ∧
      List.Forall₂ (Reports RcfError.pingBack) pingBacks messages := by
  induction pingBacks with
  | nil => exact ⟨[], rfl, List.Forall₂.nil⟩
  | cons interval pingBacks ih =>
      obtain ⟨messages, hrun, hall⟩ := ih
      obtain ⟨message, herror, hreports⟩ : ∃ message,
          serverError RcfError.pingBack (some interval) = .ok message ∧
          Reports RcfError.pingBack interval message :=
        serverError_reports (by decide) (iff_of_true rfl (Or.inr rfl))
      refine ⟨message :: messages, ?_, List.Forall₂.cons hreports hall⟩
      rw [pingBackMessages, herror, hrun]
      rfl

namespace Connection

/-! ## One request -/

/-- The connection is open, the session reads, the streams of both sides can be reset with nothing
left in them, and the filters are known to both sides. -/
structure Ready (rcfServer : RcfServer) (k : Connection) : Prop where
  opened : k.closed = false
  protocol : Bindable k.client.serializationProtocol
  out : k.client.out.Ready
  chain : Chain k.client.messageFilters
  creates : Creates rcfServer.createFilter k.client.messageFilters
  session : k.session.Ready rcfServer
  awake : k.session.stranded = false

section

variable {rcfServer : RcfServer} {service : Service} {parameters : List Output} {k : Connection}

theorem Ready.sessionFilters (h : k.Ready rcfServer) :
    Creates rcfServer.createFilter
      (sessionFilters k.session.filters k.client.messageFilters) := by
  unfold Rcf.sessionFilters
  split
  · exact h.session.filters
  · exact h.creates

/-- The service is invoked, and answers. -/
theorem serve_twoway {session session' session'' : RcfSession} {history : List Invocation}
    {message : List UInt8} {pings : List (List UInt8)} {response : List ByteBuffer}
    {answer : Answer} (hdecode : decodeRequest rcfServer session message = .ok (true, session'))
    (hclose : session'.request.close = false) (htwoway : session'.request.oneway = false)
    (hanswer : service history (session'.request, session'.spIn.byteBuffer) = some answer)
    (hpings : pingBackMessages (pingBacksFor rcfServer session'.request answer) = .ok pings)
    (hrespond : sendResponse session' answer.exception answer.results
      = .ok (response, session'')) :
    session.serve rcfServer service history message
      = .ok ⟨{ session'' with stranded := answer.losesFor rcfServer session'.request },
          pings ++ (if answer.losesFor rcfServer session'.request then []
            else [messageBytes response]),
          some (session'.request, session'.spIn.byteBuffer)⟩ := by
  unfold RcfSession.serve
  rw [hdecode]
  simp only [bind, Except.bind, if_true, hclose, htwoway, hanswer, asserted, hpings, hrespond]
  rfl

/-- The service is not invoked: the session reports its version. -/
theorem serve_mismatch {session session' : RcfSession} {message reply : List UInt8}
    (hdecode : decodeRequest rcfServer session message = .ok (false, session'))
    (hreply : serverError RcfError.versionMismatch (some rcfServer.rcfRuntimeVersion) = .ok reply)
    (history : List Invocation) :
    session.serve rcfServer service history message = .ok ⟨session', [reply], none⟩ := by
  unfold RcfSession.serve
  rw [hdecode]
  simp only [bind, Except.bind, hreply]
  rfl

/-- What becomes of a message that the session serves. -/
theorem deliver_of_serve {message : List UInt8} {served : Served}
    (hawake : k.session.stranded = false) (hroom : message.length ≤ rcfServer.maxMessageLength)
    (hserve : k.session.serve rcfServer service k.invocations message = .ok served) :
    k.deliver rcfServer service message = { k with
      session := served.session
      inbox := k.inbox ++ served.replies
      invocations := k.invocations ++ served.invocation.toList } := by
  unfold deliver
  rw [hawake, if_neg Bool.false_ne_true, if_neg (Nat.not_lt.mpr hroom), hserve]

/-- The message of a client that sends its request is not too long for the server. -/
def Accepted (rcfServer : RcfServer) (parameters : List Output) (k : Connection) : Prop :=
  ∀ message request out, sendRequest k.client.request k.client.out parameters
      k.client.messageFilters = .ok (message, request, out) →
    (messageBytes message).length ≤ rcfServer.maxMessageLength

/-- A request that the server supports: the service is invoked, and its ping backs and, if it is
not lost, the response are on their way. -/
theorem send_served (h : k.Ready rcfServer) (hr : Sendable k.client.request)
    (hprotocol : Bindable k.client.request.serializationProtocol)
    (hclose : k.client.request.close = false) (htwoway : k.client.request.oneway = false)
    (hlen : (headerBytes k.client.request ++ parameters.flatMap Output.bytes).length < 2 ^ 31)
    (haccepted : k.Accepted rcfServer parameters)
    (hversion : announced k.client.request.rcfRuntimeVersion ≤ rcfServer.rcfRuntimeVersion)
    {invocation : Invocation}
    (hinv : invocation
      = (fillIn k.session.request k.client.request, parameters.flatMap Output.bytes))
    {answer : Answer} (hanswer : service k.invocations invocation = some answer)
    (hresults : 3 + (answer.results.flatMap Output.bytes).length < 2 ^ 31) :
    ∃ k' pings response, k.send rcfServer service parameters = .ok k' ∧
      k'.session.stranded = answer.losesFor rcfServer invocation.1 ∧
      (answer.losesFor rcfServer invocation.1 = false → k'.Ready rcfServer) ∧
      k'.closed = false ∧
      (∃ vec out, k'.client = { k.client with
        request := { k.client.request with vec := vec }, out := out } ∧ out.Ready) ∧
      k'.session.rcfRuntimeVersion = announced k.client.request.rcfRuntimeVersion ∧
      k'.session.request.pingBackIntervalMs = invocation.1.pingBackIntervalMs ∧
      k'.inbox = k.inbox ++ (pings ++ (if answer.losesFor rcfServer invocation.1 then []
        else [response])) ∧
      k'.invocations = k.invocations ++ [invocation] ∧
      List.Forall₂ (Reports RcfError.pingBack) (pingBacksFor rcfServer invocation.1 answer) pings ∧
      (k.client.messageFilters = [] →
        response.length = 3 + (answer.results.flatMap Output.bytes).length) ∧
      decodeResponse k.client.messageFilters response
        = .ok (⟨answer.exception, false, 0, 0⟩, answer.results.flatMap Output.bytes) := by
  obtain ⟨message, out', hsend, hout', -, -, hdecode⟩ :=
    request_received hr hprotocol h.out h.chain h.creates h.session hlen
  obtain ⟨session', hreceived, hrequest, hspIn, hruntime, hsfilters, -, hfilters, hbound,
    hholds⟩ := received_supported h.session hprotocol hversion k.client.messageFilters
      (parameters.flatMap Output.bytes)
  rw [hreceived] at hdecode
  obtain ⟨pings, hpings, hreport⟩ :=
    pingBackMessages_report (pingBacksFor rcfServer invocation.1 answer)
  obtain ⟨response, out'', hrespond, hprotocol'', hout'', -, hbytes, hresponse⟩ :=
    response_received hholds h.chain hfilters answer.exception hresults
  have hinv' : invocation = (session'.request, session'.spIn.byteBuffer) := by
    rw [hinv, hrequest, hspIn]
  rw [hinv'] at hanswer hpings
  have hserve := serve_twoway hdecode (by rw [hrequest]; exact hclose)
    (by rw [hrequest]; exact htwoway) hanswer hpings hrespond
  have hdelivered := deliver_of_serve (k := { k with
    client := { k.client with
      request := { k.client.request with vec := some (headerBytes k.client.request) }
      out := out' } }) h.awake (haccepted _ _ _ hsend) hserve
  have hsent : k.send rcfServer service parameters = _ := send_eq h.opened hsend
  rw [hdelivered] at hsent
  rw [hinv']
  refine ⟨_, pings, messageBytes response, hsent, rfl, fun hkept => ?_, h.opened, ⟨_, _, rfl, hout'⟩,
    hruntime, rfl, rfl, rfl, ?_, ?_, hresponse⟩
  · refine ⟨h.opened, h.protocol, hout', h.chain, h.creates, ⟨?_, ⟨?_, hout''⟩, ?_⟩, hkept⟩
    · show Bindable session'.spIn.protocol
      rw [hspIn]
      exact hprotocol
    · show Bindable out''.protocol
      rw [hprotocol'']
      exact hbound
    · show Creates rcfServer.createFilter session'.filters
      rw [hsfilters]
      exact h.sessionFilters
  · rw [← hinv']
    exact hreport
  · intro hnil
    have hthree : (responseHeaderBytes answer.exception).length = 3 := by
      cases answer.exception <;> rfl
    rw [hbytes hnil, List.length_append, hthree]

/-- A request that the server does not support: the server's version is on its way. -/
theorem send_mismatch (h : k.Ready rcfServer) (hr : Sendable k.client.request)
    (hprotocol : Bindable k.client.request.serializationProtocol)
    (hlen : (headerBytes k.client.request ++ parameters.flatMap Output.bytes).length < 2 ^ 31)
    (haccepted : k.Accepted rcfServer parameters)
    (hversion : announced k.client.request.rcfRuntimeVersion > rcfServer.rcfRuntimeVersion) :
    ∃ k' reply, k.send rcfServer service parameters = .ok k' ∧ k'.Ready rcfServer ∧
      (∃ vec out, k'.client = { k.client with
        request := { k.client.request with vec := vec }, out := out }) ∧
      k'.session.request = fillIn k.session.request k.client.request ∧
      k'.inbox = k.inbox ++ [reply] ∧ k'.invocations = k.invocations ∧
      Reports RcfError.versionMismatch rcfServer.rcfRuntimeVersion reply := by
  obtain ⟨message, out', hsend, hout', -, -, hdecode⟩ :=
    request_received hr hprotocol h.out h.chain h.creates h.session hlen
  obtain ⟨session', hreceived, hrequest, -, hsfilters, hawake, hspIn, hspOut⟩ :=
    received_unsupported hversion k.client.messageFilters (parameters.flatMap Output.bytes)
  rw [hreceived] at hdecode
  obtain ⟨reply, hreply, hreports⟩ := versionMismatch_reports rcfServer.rcfRuntimeVersion
  have hserve : k.session.serve rcfServer service k.invocations (messageBytes message)
      = .ok ⟨session', [reply], none⟩ := serve_mismatch hdecode hreply k.invocations
  have hdelivered := deliver_of_serve (k := { k with
    client := { k.client with
      request := { k.client.request with vec := some (headerBytes k.client.request) }
      out := out' } }) h.awake (haccepted _ _ _ hsend) hserve
  have hsent : k.send rcfServer service parameters = _ := send_eq h.opened hsend
  rw [hdelivered] at hsent
  refine ⟨_, reply, hsent, ⟨h.opened, h.protocol, hout', h.chain, h.creates, ⟨?_, ?_, ?_⟩, ?_⟩,
    ⟨_, _, rfl⟩, hrequest, rfl, List.append_nil _, hreports⟩
  · show Bindable session'.spIn.protocol
    rw [hspIn]
    exact h.session.spIn
  · show session'.spOut.Ready
    rw [hspOut]
    exact h.session.spOut
  · show Creates rcfServer.createFilter session'.filters
    rw [hsfilters]
    exact h.sessionFilters
  · show session'.stranded = false
    rw [hawake]
    exact h.awake

/-- A request that the server does not support, whether it is too long or not: an error is on its
way. -/
theorem send_refused (h : k.Ready rcfServer) (hr : Sendable k.client.request)
    (hprotocol : Bindable k.client.request.serializationProtocol)
    (hlen : (headerBytes k.client.request ++ parameters.flatMap Output.bytes).length < 2 ^ 31)
    (hversion : announced k.client.request.rcfRuntimeVersion > rcfServer.rcfRuntimeVersion) :
    ∃ k' error arg0 reply, k.send rcfServer service parameters = .ok k' ∧
      k'.client.messageFilters = k.client.messageFilters ∧
      k'.client.maxMessageLength = k.client.maxMessageLength ∧
      k'.inbox = k.inbox ++ [reply] ∧ k'.invocations = k.invocations ∧
      Reports error arg0 reply := by
  obtain ⟨message, out', hsend, hout', -, -, hdecode⟩ :=
    request_received hr hprotocol h.out h.chain h.creates h.session hlen
  by_cases hroom : (messageBytes message).length ≤ rcfServer.maxMessageLength
  · have haccepted : k.Accepted rcfServer parameters := by
      intro message' request out hsend'
      rw [hsend, Except.ok.injEq] at hsend'
      rw [← (Prod.mk.inj hsend').1]
      exact hroom
    obtain ⟨k', reply, hsent, -, ⟨vec, out, hclient⟩, -, hinbox, hinv, hreports⟩ :
        ∃ k' reply, k.send rcfServer service parameters = .ok k' ∧ _ :=
      send_mismatch h hr hprotocol hlen haccepted hversion
    refine ⟨k', _, _, reply, hsent, ?_, ?_, hinbox, hinv, hreports⟩
    · rw [hclient]
    · rw [hclient]
  · -- the transport of the server refuses the message
    obtain ⟨reply, hreply, hreports⟩ := serverMessageLength_reports
    have hsent : k.send rcfServer service parameters = _ := send_eq h.opened hsend
    unfold deliver at hsent
    simp only [h.awake, Bool.false_eq_true, if_false, if_pos (Nat.not_le.mp hroom), hreply] at hsent
    exact ⟨_, _, _, reply, hsent, rfl, rfl, rfl, rfl, hreports⟩

end

end Connection

/-! ## One message -/

/-- The client after some ping backs. -/
def ClientStub.pinged (c : ClientStub) (pingBacks : List Int32) : ClientStub :=
  { c with
    pingBackIntervalMs := pingBacks.getLastD c.pingBackIntervalMs
    pingBackCount := c.pingBackCount + pingBacks.length }

theorem pinged_cons (c : ClientStub) (interval : Int32) (pingBacks : List Int32) :
    c.pinged (interval :: pingBacks) = (c.pinged [interval]).pinged pingBacks := by
  have hcount : c.pingBackCount + (interval :: pingBacks).length
      = c.pingBackCount + [interval].length + pingBacks.length := by
    simp only [List.length_cons, List.length_nil]
    omega
  unfold ClientStub.pinged
  rw [hcount, List.getLastD_cons, List.getLastD_cons, List.getLastD_nil]

/-- What a call ends with when the service has answered. -/
def Answer.result (answer : Answer) : CallResult :=
  if answer.exception then .exception (answer.results.flatMap Output.bytes)
  else .returned (answer.results.flatMap Output.bytes)

section

variable {c : ClientStub} {message : List UInt8}

theorem react_response {answer : Answer}
    (h : decodeResponse c.messageFilters message
      = .ok (⟨answer.exception, false, 0, 0⟩, answer.results.flatMap Output.bytes)) :
    c.onReceiveCompleted message = .done answer.result := by
  unfold ClientStub.onReceiveCompleted Answer.result
  rw [h]
  cases answer.exception <;> rfl

theorem react_pingBack (hfilters : c.messageFilters = []) {interval : Int32}
    (h : Reports RcfError.pingBack interval message) :
    c.onReceiveCompleted message = .receive (c.pinged [interval]) := by
  obtain ⟨leftover, hdecode⟩ := h.decodes c.messageFilters
  rw [if_pos hfilters] at hdecode
  unfold ClientStub.onReceiveCompleted
  rw [hdecode]
  rfl

theorem react_mismatch (hfilters : c.messageFilters = []) {version : Int32}
    (h : Reports RcfError.versionMismatch version message) :
    c.onReceiveCompleted message
      = if version < c.rcfRuntimeVersion then
          if c.autoVersioning ∧ c.tries = 0 then .resend (c.retry version)
          else .done (.versioning version)
        else .done (.failed (.exception RcfError.encoding)) := by
  obtain ⟨leftover, hdecode⟩ := h.decodes c.messageFilters
  rw [if_pos hfilters] at hdecode
  unfold ClientStub.onReceiveCompleted
  rw [hdecode]
  rfl

theorem react_filtered (hfilters : c.messageFilters ≠ []) {error arg0 : Int32}
    (h : Reports error arg0 message) :
    c.onReceiveCompleted message
      = .done (.failed (.exception RcfError.payloadFilterMismatch)) := by
  obtain ⟨leftover, hdecode⟩ := h.decodes c.messageFilters
  rw [if_neg hfilters] at hdecode
  unfold ClientStub.onReceiveCompleted
  rw [hdecode]

end

namespace Connection

section

variable {rcfServer : RcfServer} {service : Service} {parameters : List Output}

theorem receive_of_done {k : Connection} {message : List UInt8} {inbox : List (List UInt8)}
    {result : CallResult} (hinbox : k.inbox = message :: inbox)
    (hroom : message.length ≤ k.client.maxMessageLength)
    (h : k.client.onReceiveCompleted message = .done result) :
    k.receive rcfServer service parameters = (result, { k with inbox := inbox }) := by
  refine receive_done ?_
  unfold receiveOne
  simp only [hinbox, if_neg (Nat.not_lt.mpr hroom), h]

theorem receive_of_receive {k : Connection} {message : List UInt8} {inbox : List (List UInt8)}
    {client : ClientStub} (hinbox : k.inbox = message :: inbox)
    (hroom : message.length ≤ k.client.maxMessageLength)
    (h : k.client.onReceiveCompleted message = .receive client) :
    k.receive rcfServer service parameters
      = receive rcfServer service parameters { k with client := client, inbox := inbox } := by
  refine receive_more ?_
  unfold receiveOne
  simp only [hinbox, if_neg (Nat.not_lt.mpr hroom), h]

theorem receive_of_resend {k k' : Connection} {message : List UInt8}
    {inbox : List (List UInt8)} {client : ClientStub} (hinbox : k.inbox = message :: inbox)
    (hroom : message.length ≤ k.client.maxMessageLength)
    (h : k.client.onReceiveCompleted message = .resend client)
    (hsend : send rcfServer service parameters { k with client := client, inbox := inbox }
      = .ok k') :
    k.receive rcfServer service parameters = k'.receive rcfServer service parameters := by
  refine receive_more ?_
  unfold receiveOne
  simp only [hinbox, if_neg (Nat.not_lt.mpr hroom), h, hsend]

/-- The client notes the ping backs and goes on receiving. -/
theorem receive_pingBacks {k : Connection} (hfilters : k.client.messageFilters = [])
    (hroom : 10 ≤ k.client.maxMessageLength) {pingBacks : List Int32} {pings rest : List (List UInt8)}
    (h : List.Forall₂ (Reports RcfError.pingBack) pingBacks pings)
    (hinbox : k.inbox = pings ++ rest) :
    k.receive rcfServer service parameters
      = receive rcfServer service parameters
          { k with client := k.client.pinged pingBacks, inbox := rest } := by
  induction h generalizing k with
  | nil =>
      have hk : k = { k with client := k.client.pinged [], inbox := rest } := by
        rw [List.nil_append] at hinbox
        rw [← hinbox]
        rfl
      rw [← hk]
  | @cons interval message pingBacks pings hreports _ ih =>
      have hstep := ih (k := { k with
        client := k.client.pinged [interval], inbox := pings ++ rest }) hfilters hroom rfl
      have hinbox' : k.inbox = message :: (pings ++ rest) := hinbox
      have hfirst : k.receive rcfServer service parameters = _ :=
        receive_of_receive hinbox' (hreports.length.trans hroom)
          (react_pingBack hfilters hreports)
      rw [pinged_cons k.client interval pingBacks]
      exact hfirst.trans hstep

end

end Connection

/-! ## Calls -/

/-- The request of the client is a call of a function. -/
structure ClientStub.Prepared (c : ClientStub) (subInterface : StdString) (fnId : Int32)
    (oneway : Bool) : Prop where
  token : c.request.token = c.targetToken
  service : c.request.service = c.targetName
  subInterface : c.request.subInterface = subInterface
  fnId : c.request.fnId = fnId
  oneway : c.request.oneway = oneway
  close : c.request.close = false
  version : c.request.rcfRuntimeVersion = c.rcfRuntimeVersion
  protocol : c.request.serializationProtocol = c.serializationProtocol
  pingBack : c.request.pingBackIntervalMs = c.pingBackIntervalMs

/-- What a call does not change. -/
structure ClientStub.SameTarget (c c' : ClientStub) : Prop where
  token : c'.targetToken = c.targetToken
  name : c'.targetName = c.targetName
  filters : c'.messageFilters = c.messageFilters
  auto : c'.autoVersioning = c.autoVersioning
  protocol : c'.serializationProtocol = c.serializationProtocol
  limit : c'.maxMessageLength = c.maxMessageLength

theorem ClientStub.SameTarget.trans {c c' c'' : ClientStub} (h : c.SameTarget c')
    (h' : c'.SameTarget c'') : c.SameTarget c'' :=
  ⟨h'.token.trans h.token, h'.name.trans h.name, h'.filters.trans h.filters,
    h'.auto.trans h.auto, h'.protocol.trans h.protocol, h'.limit.trans h.limit⟩

/-- The invocation is a call that the client made. -/
structure ClientStub.Made (c : ClientStub) (subInterface : StdString) (fnId : Int32)
    (parameters : List Output) (invocation : Invocation) : Prop where
  token : invocation.1.token = c.targetToken
  service : invocation.1.service = c.targetName
  subInterface : invocation.1.subInterface
    = if subInterface.bytes = [] then c.targetName else subInterface
  fnId : invocation.1.fnId = fnId
  protocol : invocation.1.serializationProtocol = c.serializationProtocol
  parameters : invocation.2 = parameters.flatMap Output.bytes

/-- The request of a call is not too long for the `int`s in it, nor, without filters, for the
server, and the client receives error messages. -/
structure ClientStub.Fits (c : ClientStub) (rcfServer : RcfServer) (subInterface : StdString)
    (parameters : List Output) : Prop where
  request : c.targetName.bytes.length + subInterface.bytes.length
    + (parameters.flatMap Output.bytes).length + 64 < 2 ^ 31
  accepted : c.messageFilters = [] → c.targetName.bytes.length + subInterface.bytes.length
    + (parameters.flatMap Output.bytes).length + 64 ≤ rcfServer.maxMessageLength
  errors : 10 ≤ c.maxMessageLength

/-- The answer reaches a client without filters that accepts messages of some length. -/
structure Answer.Arrives (answer : Answer) (rcfServer : RcfServer) (r : MethodInvocationRequest)
    (maxMessageLength : Nat) : Prop where
  kept : answer.losesFor rcfServer r = false
  request : 3 + (answer.results.flatMap Output.bytes).length < 2 ^ 31
  accepted : 3 + (answer.results.flatMap Output.bytes).length ≤ maxMessageLength

/-- The service answers a call of the client, whatever it has been invoked with before, and the
answer arrives. -/
def ClientStub.Answered (c : ClientStub) (rcfServer : RcfServer) (service : Service)
    (subInterface : StdString) (fnId : Int32) (parameters : List Output) : Prop :=
  ∀ history invocation, c.Made subInterface fnId parameters invocation →
    ∃ answer, service history invocation = some answer ∧
      answer.Arrives rcfServer invocation.1 c.maxMessageLength

theorem ClientStub.SameTarget.retry {c c' : ClientStub} (h : c.SameTarget c') {version : Int32} :
    c.SameTarget (c'.retry version) :=
  ⟨h.token, h.name, h.filters, h.auto, h.protocol, h.limit⟩

theorem ClientStub.Made.of_same {c c' : ClientStub} {subInterface : StdString} {fnId : Int32}
    {parameters : List Output} {invocation : Invocation}
    (h : c'.Made subInterface fnId parameters invocation) (hsame : c.SameTarget c') :
    c.Made subInterface fnId parameters invocation := by
  refine ⟨h.token.trans hsame.token, h.service.trans hsame.name, ?_, h.fnId,
    h.protocol.trans hsame.protocol, h.parameters⟩
  rw [h.subInterface, hsame.name]

theorem ClientStub.Fits.of_same {c c' : ClientStub} {rcfServer : RcfServer}
    {subInterface : StdString} {parameters : List Output}
    (h : c.Fits rcfServer subInterface parameters) (hsame : c.SameTarget c') :
    c'.Fits rcfServer subInterface parameters := by
  constructor
  · rw [hsame.name]
    exact h.request
  · rw [hsame.name, hsame.filters]
    exact h.accepted
  · rw [hsame.limit]
    exact h.errors

theorem ClientStub.Answered.of_same {c c' : ClientStub} {rcfServer : RcfServer}
    {service : Service} {subInterface : StdString} {fnId : Int32} {parameters : List Output}
    (h : c.Answered rcfServer service subInterface fnId parameters) (hsame : c.SameTarget c') :
    c'.Answered rcfServer service subInterface fnId parameters := by
  intro history invocation hmade
  rw [hsame.limit]
  exact h history invocation (hmade.of_same hsame)

theorem stringBytes_length_le (value : StdString) :
    (stringBytes value).length ≤ value.bytes.length + 5 := by
  have h := intBytes_length_le (Int32.ofNat value.bytes.length)
  rw [stringBytes, List.length_append]
  omega

theorem headerBytes_length_le (r : MethodInvocationRequest) :
    (headerBytes r).length ≤ r.service.bytes.length + r.subInterface.bytes.length + 64 := by
  have hservice := stringBytes_length_le r.service
  have hsub : (stringBytes (sentSubInterface r)).length ≤ r.subInterface.bytes.length + 5 := by
    refine (stringBytes_length_le _).trans ?_
    unfold sentSubInterface
    split
    · exact Nat.le_add_left 5 _
    · exact le_rfl
  have hversion : (versionFieldsBytes r).length ≤ 11 := by
    have h₁ := intBytes_length_le r.rcfRuntimeVersion
    have h₂ := intBytes_length_le r.pingBackIntervalMs
    have h₃ : (boolBytes r.ignoreRcfRuntimeVersion).length = 1 := rfl
    unfold versionFieldsBytes
    split
    · exact Nat.zero_le _
    · split
      · rw [List.length_append]
        omega
      · rw [List.length_append, List.length_append]
        omega
  have h₁ := intBytes_length_le Descriptor.request
  have h₂ := intBytes_length_le (requestHeaderVersion r.rcfRuntimeVersion)
  have h₃ := intBytes_length_le r.token
  have h₄ := intBytes_length_le r.fnId
  have h₅ := intBytes_length_le r.serializationProtocol
  have h₆ : (boolBytes r.oneway).length = 1 := rfl
  have h₇ : (boolBytes r.close).length = 1 := rfl
  simp only [headerBytes, fieldsBytes, List.length_append]
  omega

namespace Connection

section

variable {rcfServer : RcfServer} {service : Service} {parameters : List Output}
  {subInterface : StdString} {fnId : Int32} {oneway : Bool}

theorem sendable_of_fits {c : ClientStub} (hp : c.Prepared subInterface fnId oneway)
    (hfits : c.Fits rcfServer subInterface parameters) :
    Sendable c.request ∧
      (headerBytes c.request ++ parameters.flatMap Output.bytes).length < 2 ^ 31 := by
  have hle := headerBytes_length_le c.request
  have hlen := hfits.request
  rw [hp.service, hp.subInterface] at hle
  refine ⟨⟨?_, ?_⟩, ?_⟩
  · rw [hp.service]
    omega
  · rw [hp.subInterface]
    omega
  · rw [List.length_append]
    omega

/-- Without filters the server accepts the message. -/
theorem accepted_of_fits {k : Connection} (h : k.Ready rcfServer)
    (hfilters : k.client.messageFilters = []) (hp : k.client.Prepared subInterface fnId oneway)
    (hfits : k.client.Fits rcfServer subInterface parameters) :
    k.Accepted rcfServer parameters := by
  obtain ⟨hr, hlen⟩ := sendable_of_fits hp hfits
  have hprotocol : Bindable k.client.request.serializationProtocol := by
    rw [hp.protocol]
    exact h.protocol
  obtain ⟨message, out, hsend, -, -, hbytes, -⟩ :=
    request_received hr hprotocol h.out h.chain h.creates h.session hlen
  have hle := headerBytes_length_le k.client.request
  have haccepted := hfits.accepted hfilters
  rw [hp.service, hp.subInterface] at hle
  intro message' request' out' hsend'
  rw [hsend, Except.ok.injEq] at hsend'
  rw [← (Prod.mk.inj hsend').1, hbytes hfilters, List.length_append]
  omega

/-- Nobody on the connection asks for ping backs. -/
structure Silent (k : Connection) : Prop where
  client : k.client.pingBackIntervalMs ≤ 0
  session : k.session.request.pingBackIntervalMs ≤ 0

/-- A request of a client that does not ask for ping backs does not either, as the session fills
it in. -/
theorem Silent.fillIn {k : Connection} (h : k.Silent)
    (hp : k.client.Prepared subInterface fnId oneway) :
    (fillIn k.session.request k.client.request).pingBackIntervalMs ≤ 0 := by
  show (if k.client.request.rcfRuntimeVersion < 2 then k.session.request.pingBackIntervalMs
    else if k.client.request.rcfRuntimeVersion < 5 then 0
    else k.client.request.pingBackIntervalMs) ≤ 0
  split
  · exact h.session
  · split
    · exact Int32.le_refl _
    · rw [hp.pingBack]
      exact h.client

theorem pingBacksFor_eq_nil {r : MethodInvocationRequest} (h : r.pingBackIntervalMs ≤ 0)
    (answer : Answer) : pingBacksFor rcfServer r answer = [] := by
  unfold pingBacksFor
  rw [if_neg]
  rintro ⟨-, hpos⟩
  exact not_gt_of_le h hpos

/-- A request whose version the server supports is answered. -/
theorem answered {k : Connection} (h : k.Ready rcfServer) (hinbox : k.inbox = [])
    (hfilters : k.client.messageFilters = []) (hp : k.client.Prepared subInterface fnId false)
    (hfits : k.client.Fits rcfServer subInterface parameters)
    (hanswered : k.client.Answered rcfServer service subInterface fnId parameters)
    (hversion : announced k.client.rcfRuntimeVersion ≤ rcfServer.rcfRuntimeVersion) :
    ∃ k' k'' invocation answer, k.send rcfServer service parameters = .ok k' ∧
      service k.invocations invocation = some answer ∧
      k'.receive rcfServer service parameters = (answer.result, k'') ∧
      k''.Ready rcfServer ∧ k''.inbox = [] ∧ k.client.SameTarget k''.client ∧
      k.client.Made subInterface fnId parameters invocation ∧
      k''.invocations = k.invocations ++ [invocation] ∧
      k''.session.rcfRuntimeVersion = announced k.client.rcfRuntimeVersion ∧
      k''.client.rcfRuntimeVersion = k.client.rcfRuntimeVersion ∧
      k''.client.pingBackCount = k.client.pingBackCount
        + (pingBacksFor rcfServer invocation.1 answer).length ∧
      (k.Silent → k''.Silent ∧ invocation.1.pingBackIntervalMs ≤ 0) := by
  obtain ⟨hr, hlen⟩ := sendable_of_fits hp hfits
  have hprotocol : Bindable k.client.request.serializationProtocol := by
    rw [hp.protocol]
    exact h.protocol
  have haccepted := accepted_of_fits h hfilters hp hfits
  have hmade : k.client.Made subInterface fnId parameters
      (fillIn k.session.request k.client.request, parameters.flatMap Output.bytes) := by
    refine ⟨hp.token, hp.service, ?_, hp.fnId, hp.protocol, rfl⟩
    show (if k.client.request.subInterface.bytes = [] then k.client.request.service
      else k.client.request.subInterface) = _
    rw [hp.subInterface, hp.service]
  obtain ⟨answer, hanswer, harrives⟩ := hanswered k.invocations _ hmade
  rw [← hp.version] at hversion
  obtain ⟨k', pings, response, hsend, -, hready, -, ⟨vec, out, hclient, -⟩, hruntime, hinterval, hin,
    hinvocations, hpings, hshort, hresponse⟩ := send_served h hr hprotocol hp.close hp.oneway hlen
      haccepted hversion rfl hanswer harrives.request
  rw [hinbox, List.nil_append, harrives.kept, if_neg Bool.false_ne_true] at hin
  have hready' := hready harrives.kept
  have hfilters' : k'.client.messageFilters = [] := by
    rw [hclient]
    exact hfilters
  have hroom : k'.client.maxMessageLength = k.client.maxMessageLength := by
    rw [hclient]
  have hpinged : k'.receive rcfServer service parameters = _ :=
    receive_pingBacks hfilters' (by rw [hroom]; exact hfits.errors) hpings hin
  refine ⟨k', _, _, answer, hsend, hanswer,
    hpinged.trans (receive_of_done rfl ?_ (react_response ?_)),
    ⟨hready'.opened, hready'.protocol, hready'.out, hready'.chain, hready'.creates,
      hready'.session, hready'.awake⟩, rfl, ?_, hmade, hinvocations, ?_, ?_, ?_, fun hsilent => ?_⟩
  · show response.length ≤ k'.client.maxMessageLength
    rw [hroom, hshort hfilters]
    exact harrives.accepted
  · show decodeResponse k'.client.messageFilters response = _
    rw [hclient]
    exact hresponse
  · show k.client.SameTarget (k'.client.pinged _)
    rw [hclient]
    exact ⟨rfl, rfl, rfl, rfl, rfl, rfl⟩
  · rw [← hp.version]
    exact hruntime
  · show (k'.client.pinged _).rcfRuntimeVersion = _
    rw [hclient]
    rfl
  · show (k'.client.pinged _).pingBackCount = _
    rw [hclient]
    rfl
  · have hle := hsilent.fillIn hp
    refine ⟨⟨?_, ?_⟩, hle⟩
    · show (k'.client.pinged (pingBacksFor rcfServer _ answer)).pingBackIntervalMs ≤ 0
      rw [pingBacksFor_eq_nil hle, hclient]
      exact hsilent.client
    · show k'.session.request.pingBackIntervalMs ≤ 0
      rw [hinterval]
      exact hle

theorem start_prepared (c : ClientStub) :
    (c.start subInterface fnId oneway).Prepared subInterface fnId oneway :=
  ⟨rfl, rfl, rfl, rfl, rfl, rfl, rfl, rfl, rfl⟩

theorem retry_prepared {c : ClientStub} (hp : c.Prepared subInterface fnId oneway)
    (version : Int32) : (c.retry version).Prepared subInterface fnId oneway :=
  ⟨rfl, rfl, hp.subInterface, hp.fnId, hp.oneway, rfl, rfl, rfl, rfl⟩

theorem gt_of_not_le {v w : Int32} (h : ¬ v ≤ w) : v > w := by
  rw [Int32.le_iff_toInt_le] at h
  rw [gt_iff_lt, Int32.lt_iff_toInt_lt]
  omega

/-- The client is ready to send the request of a call. -/
theorem Ready.start {k : Connection} (h : k.Ready rcfServer) (subInterface : StdString)
    (fnId : Int32) (oneway : Bool) :
    Ready rcfServer { k with client := k.client.start subInterface fnId oneway } :=
  ⟨h.opened, h.protocol, h.out, h.chain, h.creates, h.session, h.awake⟩

/-- The client is ready to send its request again. -/
theorem Ready.retry {k : Connection} (h : k.Ready rcfServer) (version : Int32)
    (inbox : List (List UInt8)) :
    Ready rcfServer { k with client := k.client.retry version, inbox := inbox } :=
  ⟨h.opened, h.protocol, h.out, h.chain, h.creates, h.session, h.awake⟩

theorem start_same (c : ClientStub) (subInterface : StdString) (fnId : Int32) (oneway : Bool) :
    c.SameTarget (c.start subInterface fnId oneway) := ⟨rfl, rfl, rfl, rfl, rfl, rfl⟩

theorem announced_gt {v : Int32} (h : ¬ 1 ≤ v) : announced v > v := by
  have hv : v < 1 := gt_of_not_le h
  have hone : announced v = 1 := by
    unfold announced
    rw [if_pos]
    rw [Int32.lt_iff_toInt_lt] at hv ⊢
    exact hv.trans (by decide)
  rw [hone]
  exact hv

/-- From version 1 on, a version is announced as it is. -/
theorem announced_of_pos {v : Int32} (h : 1 ≤ v) : announced v = v := by
  unfold announced
  split
  · next hlt =>
    rw [Int32.lt_iff_toInt_lt] at hlt
    rw [Int32.le_iff_toInt_le] at h
    have h₁ : (1 : Int32).toInt = 1 := rfl
    have h₂ : (2 : Int32).toInt = 2 := rfl
    refine Int32.toInt_inj.mp ?_
    omega
  · rfl

/-- A version that is announced too high is too high. -/
theorem lt_of_announced_gt {v w : Int32} (hw : 1 ≤ w) (h : announced v > w) : w < v := by
  unfold announced at h
  split at h
  · exact absurd h (not_gt_of_le hw)
  · exact h

/-- The connection of a client that takes the version of the server, between two calls. -/
structure Steady (rcfServer : RcfServer) (k : Connection) : Prop extends k.Ready rcfServer where
  inbox : k.inbox = []
  filters : k.client.messageFilters = []
  auto : k.client.autoVersioning = true

theorem call_eq {k k' : Connection}
    (hsend : send rcfServer service parameters
      { k with client := k.client.start subInterface fnId oneway } = .ok k') :
    k.call rcfServer service parameters subInterface fnId oneway
      = if oneway then (.returned [], k') else k'.receive rcfServer service parameters := by
  unfold call
  simp only [hsend]

/-- The version that a client ends up with. -/
def agreed (client server : Int32) : Int32 :=
  if announced client ≤ server then client else server

/-- A request that the server does not support, sent by a client without filters that has made its
request ready. -/
theorem send_unsupported {k : Connection} (h : k.Ready rcfServer)
    (hfilters : k.client.messageFilters = [])
    (hp : k.client.Prepared subInterface fnId oneway)
    (hfits : k.client.Fits rcfServer subInterface parameters)
    (hgt : announced k.client.rcfRuntimeVersion > rcfServer.rcfRuntimeVersion) :
    ∃ k' reply, k.send rcfServer service parameters = .ok k' ∧ k'.Ready rcfServer ∧
      k.client.SameTarget k'.client ∧ k'.client.Prepared subInterface fnId oneway ∧
      k'.client.rcfRuntimeVersion = k.client.rcfRuntimeVersion ∧
      k'.client.tries = k.client.tries ∧ k'.client.pingBackCount = k.client.pingBackCount ∧
      k'.inbox = k.inbox ++ [reply] ∧ k'.invocations = k.invocations ∧
      (k.Silent → k'.Silent) ∧
      Reports RcfError.versionMismatch rcfServer.rcfRuntimeVersion reply := by
  obtain ⟨hr, hlen⟩ := sendable_of_fits hp hfits
  have hprotocol : Bindable k.client.request.serializationProtocol := by
    rw [hp.protocol]
    exact h.protocol
  have haccepted := accepted_of_fits h hfilters hp hfits
  rw [← hp.version] at hgt
  obtain ⟨k', reply, hsend, hready, ⟨vec, out, hclient⟩, hrequest, hinbox, hinv, hreports⟩ :
      ∃ k' reply, k.send rcfServer service parameters = .ok k' ∧ _ :=
    send_mismatch h hr hprotocol hlen haccepted hgt
  refine ⟨k', reply, hsend, hready, ?_, ?_, ?_, ?_, ?_, hinbox, hinv, fun hsilent => ⟨?_, ?_⟩,
    hreports⟩
  · rw [hclient]
    exact ⟨rfl, rfl, rfl, rfl, rfl, rfl⟩
  · rw [hclient]
    exact ⟨hp.token, hp.service, hp.subInterface, hp.fnId, hp.oneway, hp.close, hp.version,
      hp.protocol, hp.pingBack⟩
  · rw [hclient]
  · rw [hclient]
  · rw [hclient]
  · rw [hclient]
    exact hsilent.client
  · rw [hrequest]
    exact hsilent.fillIn hp

/-- A call of a client that takes the version of the server. -/
theorem call_steady {k : Connection} (h : k.Steady rcfServer)
    (hserver : 1 ≤ rcfServer.rcfRuntimeVersion)
    (hfits : k.client.Fits rcfServer subInterface parameters)
    (hanswered : k.client.Answered rcfServer service subInterface fnId parameters) :
    ∃ k' invocation answer, k.call rcfServer service parameters subInterface fnId false
        = (answer.result, k') ∧
      service k.invocations invocation = some answer ∧
      k'.Steady rcfServer ∧ k.client.SameTarget k'.client ∧
      k.client.Made subInterface fnId parameters invocation ∧
      k'.invocations = k.invocations ++ [invocation] ∧
      k'.client.rcfRuntimeVersion
        = agreed k.client.rcfRuntimeVersion rcfServer.rcfRuntimeVersion ∧
      k'.session.rcfRuntimeVersion
        = announced (agreed k.client.rcfRuntimeVersion rcfServer.rcfRuntimeVersion) ∧
      k'.client.pingBackCount = (pingBacksFor rcfServer invocation.1 answer).length ∧
      (k.Silent → k'.Silent ∧ invocation.1.pingBackIntervalMs ≤ 0) := by
  have hstart := start_same k.client subInterface fnId false
  have hready := h.toReady.start subInterface fnId false
  have hsilent : k.Silent →
      Silent { k with client := k.client.start subInterface fnId false } :=
    fun hs => ⟨hs.client, hs.session⟩
  unfold agreed
  by_cases hversion : announced k.client.rcfRuntimeVersion ≤ rcfServer.rcfRuntimeVersion
  · -- the first request is served
    obtain ⟨k₁, k₂, invocation, answer, hsend, hanswer, hreceive, hready₂, hinbox₂, hsame, hmade,
      hinv, hruntime, hclient, hcount, hsilent₂⟩ := answered hready h.inbox h.filters
        (start_prepared k.client) (hfits.of_same hstart) (hanswered.of_same hstart) hversion
    have hsame' := hstart.trans hsame
    refine ⟨k₂, invocation, answer, ?_, hanswer,
      ⟨hready₂, hinbox₂, hsame'.filters.trans h.filters, hsame'.auto.trans h.auto⟩, hsame',
      hmade.of_same hstart, hinv, ?_, ?_, ?_, fun hs => hsilent₂ (hsilent hs)⟩
    · rw [call_eq hsend, if_neg Bool.false_ne_true]
      exact hreceive
    · rw [if_pos hversion]
      exact hclient
    · rw [if_pos hversion]
      exact hruntime
    · rw [hcount]
      exact Nat.zero_add _
  · -- the first request is rejected, the second one is served
    have hgt := gt_of_not_le hversion
    obtain ⟨k₁, reply, hsend₁, hready₁, hsame₁, hprepared, hversion₁, htries, hcount₁, hinbox₁, hinv₁,
      hsilent₁, hreports⟩ := send_unsupported hready h.filters (start_prepared k.client)
        (hfits.of_same hstart) hgt
    have hinbox₁' : k₁.inbox = [reply] := by
      rw [hinbox₁]
      show k.inbox ++ [reply] = _
      rw [h.inbox, List.nil_append]
    have hsame₁' := hstart.trans hsame₁
    have hretry : k.client.SameTarget (k₁.client.retry rcfServer.rcfRuntimeVersion) :=
      hsame₁'.retry
    have hreact : k₁.client.onReceiveCompleted reply
        = .resend (k₁.client.retry rcfServer.rcfRuntimeVersion) := by
      have hlower : rcfServer.rcfRuntimeVersion < k₁.client.rcfRuntimeVersion := by
        rw [hversion₁]
        exact lt_of_announced_gt hserver hgt
      rw [react_mismatch (hsame₁'.filters.trans h.filters) hreports, if_pos hlower,
        if_pos ⟨hsame₁'.auto.trans h.auto, htries⟩]
    have hroom : reply.length ≤ k₁.client.maxMessageLength := by
      rw [hsame₁'.limit]
      exact hreports.length.trans hfits.errors
    have hsupported : announced rcfServer.rcfRuntimeVersion ≤ rcfServer.rcfRuntimeVersion := by
      rw [announced_of_pos hserver]
      exact Int32.le_refl _
    obtain ⟨k₂, k₃, invocation, answer, hsend₂, hanswer, hreceive, hready₃, hinbox₃, hsame₃, hmade,
      hinv₃, hruntime, hclient₃, hcount, hsilent₃⟩ := answered (hready₁.retry _ _) rfl
        (hretry.filters.trans h.filters) (retry_prepared hprepared _) (hfits.of_same hretry)
        (hanswered.of_same hretry) hsupported
    have hsame := hretry.trans hsame₃
    have hinvocations : k₁.invocations = k.invocations := hinv₁
    simp only [hinvocations] at hanswer hinv₃
    refine ⟨k₃, invocation, answer, ?_, hanswer, ⟨hready₃, hinbox₃, hsame.filters.trans h.filters,
      hsame.auto.trans h.auto⟩, hsame, hmade.of_same hretry, hinv₃, ?_, ?_, ?_, fun hs => ?_⟩
    · rw [call_eq hsend₁, if_neg Bool.false_ne_true,
        receive_of_resend hinbox₁' hroom hreact hsend₂]
      exact hreceive
    · rw [if_neg hversion]
      exact hclient₃
    · rw [if_neg hversion]
      exact hruntime
    · rw [hcount]
      show k₁.client.pingBackCount + _ = _
      rw [hcount₁]
      exact Nat.zero_add _
    · have hs₁ := hsilent₁ (hsilent hs)
      exact hsilent₃ ⟨hs₁.client, hs₁.session⟩

/-! ### Runs of calls -/

theorem agreed_agreed (client server : Int32) :
    agreed (agreed client server) server = agreed client server := by
  unfold agreed
  by_cases h : announced client ≤ server
  · rw [if_pos h, if_pos h]
  · rw [if_neg h]
    split <;> rfl

end

end Connection

/-- A call of a function with its parameters. -/
structure Call where
  subInterface : StdString
  fnId : Int32
  parameters : List Output

/-- What a service answers to some invocations, one after the other. -/
def answersFrom (service : Service) : List Invocation → List Invocation → List (Option CallResult)
  | _, [] => []
  | history, invocation :: invocations =>
      (service history invocation).map Answer.result
        :: answersFrom service (history ++ [invocation]) invocations

namespace Connection

/-- Some calls, one after the other. -/
def calls (rcfServer : RcfServer) (service : Service) :
    Connection → List Call → List CallResult × Connection
  | k, [] => ([], k)
  | k, c :: cs =>
      let (result, k') := k.call rcfServer service c.parameters c.subInterface c.fnId false
      let (results, k'') := calls rcfServer service k' cs
      (result :: results, k'')

section

variable {rcfServer : RcfServer} {service : Service}

end

/-- A service that returns nothing. -/
def voidService : Service := fun _ _ => some ⟨[], false, false, []⟩

theorem voidService_arrives {rcfServer : RcfServer} {r : MethodInvocationRequest} :
    Answer.Arrives ⟨[], false, false, []⟩ rcfServer r defaultMaxMessageLength :=
  ⟨rfl, by decide, by decide⟩

/-- A new client of the service `"I"` on a server of version 3. -/
def olderServer : Connection := .initial (.initial ⟨[73]⟩ 5) 3

theorem olderServer_steady : olderServer.Steady (.plain 3) :=
  ⟨⟨rfl, by decide, ⟨by decide, rfl⟩, Chain.nil, Creates.nil _, RcfSession.initial_ready _ 3, rfl⟩,
    rfl, rfl, rfl⟩

section

variable {rcfServer : RcfServer} {service : Service} {parameters : List Output}
  {subInterface : StdString} {fnId : Int32} {oneway : Bool}

/-- What a call ends with when the client cannot come to the version of the server. -/
def rejection (c : ClientStub) (version : Int32) : CallResult :=
  if c.messageFilters ≠ [] then .failed (.exception RcfError.payloadFilterMismatch)
  else if version < c.rcfRuntimeVersion ∧ c.autoVersioning = false then .versioning version
  else .failed (.exception RcfError.encoding)

/-- Some oneway calls, one after the other. -/
def onewayCalls (rcfServer : RcfServer) (service : Service) (k : Connection)
    (cs : List Call) : Connection :=
  cs.foldl (fun k c => (k.call rcfServer service c.parameters c.subInterface c.fnId true).2) k

theorem oneway_unsupported {k : Connection} (h : k.Ready rcfServer)
    (hfilters : k.client.messageFilters = [])
    (hgt : announced k.client.rcfRuntimeVersion > rcfServer.rcfRuntimeVersion)
    (hfits : k.client.Fits rcfServer subInterface parameters) :
    ∃ k' reply, k.call rcfServer service parameters subInterface fnId true
        = (.returned [], k') ∧
      k'.Ready rcfServer ∧ k.client.SameTarget k'.client ∧
      k'.client.rcfRuntimeVersion = k.client.rcfRuntimeVersion ∧
      k'.inbox = k.inbox ++ [reply] ∧ k'.invocations = k.invocations ∧
      Reports RcfError.versionMismatch rcfServer.rcfRuntimeVersion reply := by
  have hstart := start_same k.client subInterface fnId true
  obtain ⟨k', reply, hsend, hready', hsame, -, hversion, -, -, hin, hinv, -, hreports⟩ :=
    send_unsupported (h.start subInterface fnId true) hfilters (start_prepared k.client)
      (hfits.of_same hstart) hgt
  exact ⟨k', reply, by rw [call_eq hsend, if_pos rfl], hready', hstart.trans hsame, hversion, hin,
    hinv, hreports⟩

theorem onewayCalls_unsupported {k : Connection} (h : k.Ready rcfServer)
    (hfilters : k.client.messageFilters = [])
    (hgt : announced k.client.rcfRuntimeVersion > rcfServer.rcfRuntimeVersion) {cs : List Call}
    (hfits : ∀ c ∈ cs, k.client.Fits rcfServer c.subInterface c.parameters) :
    ∃ replies, (k.onewayCalls rcfServer service cs).Ready rcfServer ∧
      k.client.SameTarget (k.onewayCalls rcfServer service cs).client ∧
      (k.onewayCalls rcfServer service cs).client.rcfRuntimeVersion
        = k.client.rcfRuntimeVersion ∧
      (k.onewayCalls rcfServer service cs).inbox = k.inbox ++ replies ∧
      (k.onewayCalls rcfServer service cs).invocations = k.invocations ∧
      replies.length = cs.length ∧
      ∀ reply ∈ replies, Reports RcfError.versionMismatch rcfServer.rcfRuntimeVersion reply := by
  induction cs generalizing k with
  | nil =>
      exact ⟨[], h, ⟨rfl, rfl, rfl, rfl, rfl, rfl⟩, rfl, (List.append_nil _).symm, rfl, rfl,
        fun _ hr => absurd hr List.not_mem_nil⟩
  | cons c cs ih =>
      obtain ⟨k₁, reply, hcall, hready, hsame, hversion, hin, hinv, hreports⟩ :
          ∃ k' reply, k.call rcfServer service c.parameters c.subInterface c.fnId true
            = (.returned [], k') ∧ _ :=
        oneway_unsupported h hfilters hgt (hfits c List.mem_cons_self)
      have hgt₁ : announced k₁.client.rcfRuntimeVersion > rcfServer.rcfRuntimeVersion := by
        rw [hversion]
        exact hgt
      obtain ⟨replies, hready₂, hsame₂, hversion₂, hin₂, hinv₂, hlen, hall⟩ :=
        ih hready (hsame.filters.trans hfilters) hgt₁
          fun c' hc' => (hfits c' (List.mem_cons_of_mem c hc')).of_same hsame
      have hstep : k.onewayCalls rcfServer service (c :: cs)
          = k₁.onewayCalls rcfServer service cs := by
        unfold onewayCalls
        rw [List.foldl_cons, hcall]
      rw [hstep]
      refine ⟨reply :: replies, hready₂, hsame.trans hsame₂, hversion₂.trans hversion, ?_,
        hinv₂.trans hinv, by rw [List.length_cons, List.length_cons, hlen], ?_⟩
      · rw [hin₂, hin, List.append_assoc]
        rfl
      · intro m hm
        rcases List.mem_cons.mp hm with rfl | hm
        · exact hreports
        · exact hall m hm

/-- The request that a client sends again is served, whatever is on its way to the client, and
whatever becomes of the answer. -/
theorem send_retry {k : Connection} (h : k.Ready rcfServer)
    (hfilters : k.client.messageFilters = []) (hp : k.client.Prepared subInterface fnId false)
    (hfits : k.client.Fits rcfServer subInterface parameters)
    (hserver : 1 ≤ rcfServer.rcfRuntimeVersion) (inbox : List (List UInt8))
    (hanswered : ∀ history invocation, k.client.Made subInterface fnId parameters invocation →
      ∃ answer, service history invocation = some answer ∧
        3 + (answer.results.flatMap Output.bytes).length < 2 ^ 31) :
    ∃ k' answers invocation, send rcfServer service parameters
        { k with client := k.client.retry rcfServer.rcfRuntimeVersion, inbox := inbox } = .ok k' ∧
      k'.client.messageFilters = k.client.messageFilters ∧
      k'.client.maxMessageLength = k.client.maxMessageLength ∧
      k'.client.rcfRuntimeVersion = rcfServer.rcfRuntimeVersion ∧
      k'.inbox = inbox ++ answers ∧ k.client.Made subInterface fnId parameters invocation ∧
      k'.invocations = k.invocations ++ [invocation] := by
  have hready := h.retry rcfServer.rcfRuntimeVersion inbox
  have hprepared := retry_prepared hp rcfServer.rcfRuntimeVersion
  have hfits' : (k.client.retry rcfServer.rcfRuntimeVersion).Fits rcfServer subInterface
      parameters := ⟨hfits.request, hfits.accepted, hfits.errors⟩
  obtain ⟨hr, hlen⟩ := sendable_of_fits hprepared hfits'
  have haccepted := accepted_of_fits hready hfilters hprepared hfits'
  have hsupported : announced rcfServer.rcfRuntimeVersion ≤ rcfServer.rcfRuntimeVersion := by
    rw [announced_of_pos hserver]
    exact Int32.le_refl _
  have hmade : k.client.Made subInterface fnId parameters
      (fillIn k.session.request (k.client.retry rcfServer.rcfRuntimeVersion).request,
        parameters.flatMap Output.bytes) := by
    refine ⟨rfl, rfl, ?_, hprepared.fnId, rfl, rfl⟩
    show (if (k.client.retry _).request.subInterface.bytes = [] then _ else _) = _
    rw [hprepared.subInterface, hprepared.service]
    rfl
  obtain ⟨answer, hanswer, hresults⟩ := hanswered k.invocations _ hmade
  obtain ⟨k', pings, response, hsend, -, -, -, ⟨vec, out, hclient, -⟩, -, -, hin, hinv, -, -, -⟩ :=
    send_served hready hr h.protocol hprepared.close hprepared.oneway hlen haccepted hsupported
      rfl hanswer hresults
  refine ⟨k', _, _, hsend, ?_, ?_, ?_, hin, hmade, hinv⟩
  · rw [hclient]
    rfl
  · rw [hclient]
    rfl
  · rw [hclient]
    rfl

end

end Connection

end SpeechBridge.Rcf
