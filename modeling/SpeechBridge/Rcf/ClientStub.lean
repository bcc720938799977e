import SpeechBridge.Rcf.Messages

set_option autoImplicit false

/-! # A client and its session

`ClientStub` of `src/RCF/src/RCF/Marshal.cpp`, and the way a session of
`src/RCF/src/RCF/RcfServer.cpp` takes from the bytes of a request to the bytes it answers with.
The messages that the session has sent and the client has not received yet stand in a queue. A
client whose runtime version the server does not support is told the server's; it takes this
version and sends the request once more.

What a request does on the server is a parameter, the service. Both transports refuse messages that
are too long: the server's answers with an error and closes the connection, the client's throws.

A request reaches a session at rest. Which ping backs the session sends before the answer, and
whether the answer is left behind in the queue, comes with the answer of the service;
`src/RCF/src/RCF/RcfServer.cpp` decides it in the threads of the session, which `SessionIo`
models.
-/

namespace SpeechBridge.Rcf

/-! ## The client -/

structure ClientStub where
  targetToken : Int32
  targetName : StdString
  serializationProtocol : Int32
  messageFilters : List Filter
  rcfRuntimeVersion : Int32
  autoVersioning : Bool
  tries : Nat
  pingBackIntervalMs : Int32
  pingBackCount : Nat
  request : MethodInvocationRequest
  out : SerializationProtocolOut
  /-- Of the transport. -/
  maxMessageLength : Nat

/-- What a call ends with: the bytes of its results or of an exception of the servant, a remote
exception with an error of the server, a `VersioningException`, or a failure of the client's. -/
inductive CallResult
  | returned (results : List UInt8)
  | exception (bytes : List UInt8)
  | remoteError (error : Int32)
  | versioning (version : Int32)
  | failed (failure : Failure)
  deriving DecidableEq, Repr

/-- What a client does when it has received a message. -/
inductive Reaction
  | done (result : CallResult)
  | receive (client : ClientStub)
  | resend (client : ClientStub)

namespace ClientStub

/-- A new client of a server object. -/
def initial (targetName : StdString) (runtimeVersion : Int32) : ClientStub :=
  ⟨0, targetName, SfBinary, [], runtimeVersion, true, 0, 0, 0, .initial, .initial,
    defaultMaxMessageLength⟩

/-- `init`, the part that fills in the request. -/
def init (c : ClientStub) (subInterface : StdString) (fnId : Int32) (oneway : Bool) :
    ClientStub :=
  { c with request := { c.request with
      token := c.targetToken
      service := c.targetName
      subInterface := subInterface
      fnId := fnId
      serializationProtocol := c.serializationProtocol
      oneway := oneway
      close := false
      rcfRuntimeVersion := c.rcfRuntimeVersion
      ignoreRcfRuntimeVersion := false
      pingBackIntervalMs := c.pingBackIntervalMs
      exception := false } }

/-- The client at the start of a call. -/
def start (c : ClientStub) (subInterface : StdString) (fnId : Int32) (oneway : Bool) :
    ClientStub :=
  { c.init subInterface fnId oneway with tries := 0, pingBackCount := 0 }

/-- The client takes the version of the server and fills in the request again. -/
def retry (c : ClientStub) (version : Int32) : ClientStub :=
  { c with rcfRuntimeVersion := version, tries := 1 }.init
    c.request.subInterface c.request.fnId c.request.oneway

def onReceiveCompleted (c : ClientStub) (message : List UInt8) : Reaction :=
  match decodeResponse c.messageFilters message with
  | .error e => .done (.failed e)
  | .ok (response, payload) =>
      if response.exception then .done (.exception payload)
      else if response.error then
        if response.errorCode = RcfError.versionMismatch then
          if response.arg0 < c.rcfRuntimeVersion then
            if c.autoVersioning ∧ c.tries = 0 then .resend (c.retry response.arg0)
            else .done (.versioning response.arg0)
          else .done (.failed (.exception RcfError.encoding))
        else if response.errorCode = RcfError.pingBack then
          .receive { c with
            pingBackIntervalMs := response.arg0
            pingBackCount := c.pingBackCount + 1 }
        else .done (.remoteError response.errorCode)
      else .done (.returned payload)

end ClientStub

/-! ## The session -/

/-- What a service makes of a request: whether it throws, and what is put into the output. Besides,
what the ping back service does meanwhile: the intervals of the ping backs that are sent while
the service is at work, and whether the last of them lets the answer be lost. -/
structure Answer where
  pingBacks : List Int32
  lost : Bool
  exception : Bool
  results : List Output

/-- The request and the parameters that a service is invoked with. -/
abbrev Invocation := MethodInvocationRequest × List UInt8

/-- A service: what it answers depends on its invocations so far. There is no answer when an
assertion fails on the way. -/
abbrev Service := List Invocation → Invocation → Option Answer

/-- What a session does on a request: the session afterwards, the messages it sends, and the
invocation of the service if there was one. -/
structure Served where
  session : RcfSession
  replies : List (List UInt8)
  invocation : Option Invocation

/-- An error message in a buffer of its own. -/
def serverError (error : Int32) (arg0 : Option Int32) : Except Failure (List UInt8) := do
  let b ← encodeServerError (.ofBytes []) error arg0
  .ok b.bytes

def pingBackMessages : List Int32 → Except Failure (List (List UInt8))
  | [] => .ok []
  | interval :: pingBacks => do
      let message ← serverError RcfError.pingBack (some interval)
      let messages ← pingBackMessages pingBacks
      .ok (message :: messages)

/-- The ping backs that are sent, if the client has asked for any and somebody can send them. -/
def pingBacksFor (rcfServer : RcfServer) (r : MethodInvocationRequest) (answer : Answer) :
    List Int32 :=
  if rcfServer.pingBackService ∧ 0 < r.pingBackIntervalMs then answer.pingBacks else []

/-- The answer is lost: it was queued while the completion of a ping back had looked at the queue
already. -/
def Answer.losesFor (answer : Answer) (rcfServer : RcfServer) (r : MethodInvocationRequest) :
    Bool :=
  answer.lost && !(pingBacksFor rcfServer r answer).isEmpty

/-- `RcfSession::onReadCompleted`, and the response of the service. -/
def RcfSession.serve (session : RcfSession) (rcfServer : RcfServer) (service : Service)
    (history : List Invocation) (message : List UInt8) : Except Failure Served := do
  let (ok, session) ← decodeRequest rcfServer session message
  if ok then
    if session.request.close then
      .error (.exception RcfError.peerDisconnect)
    else
      let invocation := (session.request, session.spIn.byteBuffer)
      let answer ← asserted (service history invocation)
      if session.request.oneway then
        -- the results are dropped
        let out := answer.results.foldl SerializationProtocolOut.put session.spOut
        .ok ⟨{ session with spOut := { out with byteBuffers := [] } }, [], some invocation⟩
      else
        let pings ← pingBackMessages (pingBacksFor rcfServer session.request answer)
        let stranded := answer.losesFor rcfServer session.request
        let (response, session) ← sendResponse session answer.exception answer.results
        .ok ⟨{ session with stranded := stranded },
          pings ++ (if stranded then [] else [messageBytes response]), some invocation⟩
  else
    let reply ← serverError RcfError.versionMismatch (some rcfServer.rcfRuntimeVersion)
    .ok ⟨session, [reply], none⟩

/-! ## The connection -/

/-- A client, its session, the messages on the way to the client, and what the service has been
invoked with. A connection that the session has closed is not used again. -/
structure Connection where
  client : ClientStub
  session : RcfSession
  closed : Bool
  inbox : List (List UInt8)
  invocations : List Invocation

/-- A new client, and the session it has connected to. -/
def Connection.initial (client : ClientStub) (sessionVersion : Int32) : Connection :=
  ⟨client, .initial sessionVersion, false, [], []⟩

/-- A call goes on, or is done. -/
inductive Progress
  | done (result : CallResult) (k : Connection)
  | more (k : Connection)

namespace Connection

section

variable (rcfServer : RcfServer) (service : Service) (parameters : List Output)

/-- A message reaches the session, whose messages are then on their way. A session that fails
closes the connection, and so does one that gets a message which is too long. A stranded session
does not read the message. -/
def deliver (k : Connection) (message : List UInt8) : Connection :=
  if k.session.stranded then k
  else if rcfServer.maxMessageLength < message.length then
    match serverError RcfError.serverMessageLength none with
    | .error _ => { k with closed := true }
    | .ok reply => { k with closed := true, inbox := k.inbox ++ [reply] }
  else
    match k.session.serve rcfServer service k.invocations message with
    | .error _ => { k with closed := true }
    | .ok served => { k with
        session := served.session
        inbox := k.inbox ++ served.replies
        invocations := k.invocations ++ served.invocation.toList }

/-- `ClientStub::send`. -/
def send (k : Connection) : Except Failure Connection :=
  if k.closed then .error (.exception RcfError.peerDisconnect)
  else do
    let (message, request, out) ←
      sendRequest k.client.request k.client.out parameters k.client.messageFilters
    .ok (deliver rcfServer service
      { k with client := { k.client with request := request, out := out } }
      (messageBytes message))

/-- The client receives one message. It throws when the message is announced too long, and what
follows on the connection cannot be read any more. Time is left out: the client waits for what is
on its way, and gives up when nothing is. -/
def receiveOne (k : Connection) : Progress :=
  match k.inbox with
  | [] => .done (.failed (.exception
      (if k.closed then RcfError.peerDisconnect else RcfError.clientReadTimeout))) k
  | message :: inbox =>
      if k.client.maxMessageLength < message.length then
        .done (.failed (.exception RcfError.clientMessageLength))
          { k with closed := true, inbox := [] }
      else
        match k.client.onReceiveCompleted message with
        | .done result => .done result { k with inbox := inbox }
        | .receive client => .more { k with client := client, inbox := inbox }
        | .resend client =>
            match send rcfServer service parameters
              { k with client := client, inbox := inbox } with
            | .error e => .done (.failed e) { k with client := client, inbox := inbox }
            | .ok k' => .more k'

end

/-! A client sends a request again at most once, and otherwise the queue gets shorter. -/

section

variable {rcfServer : RcfServer} {service : Service} {parameters : List Output}

theorem deliver_client (k : Connection) (message : List UInt8) :
    (k.deliver rcfServer service message).client = k.client := by
  unfold deliver
  split
  · rfl
  · split
    · split <;> rfl
    · split <;> rfl

/-- What is sent reaches the session. -/
theorem send_eq {k : Connection} {message : List ByteBuffer} {request : MethodInvocationRequest}
    {out : SerializationProtocolOut} (hopened : k.closed = false)
    (hsend : sendRequest k.client.request k.client.out parameters k.client.messageFilters
      = .ok (message, request, out)) :
    k.send rcfServer service parameters
      = .ok (deliver rcfServer service
        { k with client := { k.client with request := request, out := out } }
        (messageBytes message)) := by
  unfold send
  rw [hopened, hsend]
  rfl

theorem send_tries {k k' : Connection} (h : k.send rcfServer service parameters = .ok k') :
    k'.client.tries = k.client.tries := by
  cases hopened : k.closed with
  | true =>
      unfold send at h
      rw [hopened] at h
      cases h
  | false =>
      cases hsend : sendRequest k.client.request k.client.out parameters
          k.client.messageFilters with
      | error e =>
          unfold send at h
          rw [hopened, hsend] at h
          cases h
      | ok sent =>
          obtain ⟨message, request, out⟩ := sent
          rw [send_eq hopened hsend, Except.ok.injEq] at h
          rw [← h, deliver_client]

theorem onReceiveCompleted_receive {c c' : ClientStub} {message : List UInt8}
    (h : c.onReceiveCompleted message = .receive c') : c'.tries = c.tries := by
  unfold ClientStub.onReceiveCompleted at h
  split at h
  · cases h
  · split_ifs at h
    cases h
    rfl

theorem onReceiveCompleted_resend {c c' : ClientStub} {message : List UInt8}
    (h : c.onReceiveCompleted message = .resend c') : c.tries = 0 ∧ c'.tries = 1 := by
  unfold ClientStub.onReceiveCompleted at h
  split at h
  · cases h
  · split_ifs at h with _ _ _ _ htries
    cases h
    exact ⟨htries.2, rfl⟩

theorem receiveOne_more {k k' : Connection}
    (h : k.receiveOne rcfServer service parameters = .more k') :
    (k.client.tries = 0 ∧ k'.client.tries = 1) ∨
      (k'.client.tries = k.client.tries ∧ k'.inbox.length < k.inbox.length) := by
  unfold receiveOne at h
  cases hinbox : k.inbox with
  | nil =>
      rw [hinbox] at h
      cases h
  | cons message inbox =>
      simp only [hinbox] at h
      split at h
      · cases h
      cases hreact : k.client.onReceiveCompleted message with
      | done result =>
          rw [hreact] at h
          cases h
      | receive client =>
          rw [hreact] at h
          cases h
          exact Or.inr ⟨onReceiveCompleted_receive hreact, Nat.lt_succ_self _⟩
      | resend client =>
          obtain ⟨hzero, hone⟩ := onReceiveCompleted_resend hreact
          simp only [hreact] at h
          split at h
          · cases h
          · next k'' hsend =>
            cases h
            exact Or.inl ⟨hzero, (send_tries hsend).trans hone⟩

end

section

variable (rcfServer : RcfServer) (service : Service) (parameters : List Output)

/-- The client receives until the call is done. -/
def receive (k : Connection) : CallResult × Connection :=
  match _h : k.receiveOne rcfServer service parameters with
  | .done result k' => (result, k')
  | .more k' => receive k'
termination_by (1 - k.client.tries, k.inbox.length)
decreasing_by
  rcases receiveOne_more _h with ⟨hzero, hone⟩ | ⟨htries, hlt⟩
  · exact Prod.Lex.left _ _ (by omega)
  · rw [htries]
    exact Prod.Lex.right _ hlt

/-- A call of the function `fnId`. -/
def call (k : Connection) (subInterface : StdString) (fnId : Int32) (oneway : Bool) :
    CallResult × Connection :=
  let client := k.client.start subInterface fnId oneway
  match send rcfServer service parameters { k with client := client } with
  | .error e => (.failed e, { k with client := client })
  | .ok k' => if oneway then (.returned [], k') else receive rcfServer service parameters k'

end

section

variable {rcfServer : RcfServer} {service : Service} {parameters : List Output}
  {k k' : Connection}

theorem receive_done {result : CallResult}
    (h : k.receiveOne rcfServer service parameters = .done result k') :
    k.receive rcfServer service parameters = (result, k') := by
  rw [receive]
  split
  · next result' k'' heq =>
    rw [h] at heq
    cases heq
    rfl
  · next k'' heq =>
    rw [h] at heq
    cases heq

theorem receive_more (h : k.receiveOne rcfServer service parameters = .more k') :
    k.receive rcfServer service parameters = k'.receive rcfServer service parameters := by
  rw [receive]
  split
  · next result' k'' heq =>
    rw [h] at heq
    cases heq
  · next k'' heq =>
    rw [h] at heq
    cases heq
    rfl

end

end Connection

end SpeechBridge.Rcf
