import SpeechBridge.Rcf.Idl
import SpeechBridge.Rcf.Versioning

set_option autoImplicit false

/-! # Servants and their stubs

The two sides of a call of a function. The client writes the parameters, calls, and reads the
result (`FutureImpl` of `src/RCF/include/RCF/Marshal.hpp`). On the server
`RcfSession::processRequest` of `src/RCF/src/RCF/RcfServer.cpp` finds the server object of the
request, and its stub invokes the function with that id. What is sent when an exception is thrown
is the archive of a `RemoteException`, which is not looked into. A connection then does what the
servant would do without one (`remote_calls`).
-/

namespace SpeechBridge.Rcf

open SpeechBridge.Sf

/-! ## The servant and its stub -/

/-- An implementation of the functions over a state, which may throw. -/
structure Servant (S E : Type) (I : Interface) where
  call : (fn : I.Fn) → S → Parameters (I.method fn).parameters →
    S × Except E (Parameters (I.method fn).results)
  counted : ∀ {fn s ps s' r}, call fn s ps = (s', .ok r) →
    ∀ a ∈ Codec.Values.toList r, a.1.Counted a.2

/-- What is thrown while a request is processed: an exception of the library or of the servant. -/
inductive Thrown (E : Type)
  | failure (failure : Failure)
  | servant (e : E)

/-- A servant that is bound to a name. -/
structure ServerObject (S E : Type) where
  service : StdString
  interface : Interface
  servant : Servant S E interface
  bound : service.bytes ≠ []

/-- `registerForPingBacks` throws: ping backs are asked for, and nobody can send them. -/
def RcfServer.refusesPingBacks (rcfServer : RcfServer) (request : MethodInvocationRequest) :
    Bool :=
  0 < request.pingBackIntervalMs && !request.oneway && !rcfServer.pingBackService

namespace ServerObject

variable {S E : Type} (o : ServerObject S E)

/-- The function of the stub: parameters are read, the servant is called, the result is written. -/
def invokeFunction (s : S) (protocol : Int32) (fn : o.interface.Fn) (parameters : List UInt8) :
    S × Except (Thrown E) (List Output) :=
  match readParameters protocol (o.interface.method fn).parameters parameters 0 with
  | .error failure => (s, .error (.failure failure))
  | .ok (ps, _) =>
      match o.servant.call fn s ps with
      | (s', .error e) => (s', .error (.servant e))
      | (s', .ok r) =>
          (s', (writeParameters protocol (Codec.Values.toList r)).mapError Thrown.failure)

/-- `ServerStub::invoke`. -/
def invoke (s : S) (request : MethodInvocationRequest) (parameters : List UInt8) :
    S × Except (Thrown E) (List Output) :=
  if request.subInterface = o.interface.name then
    match o.interface.function request.fnId with
    | some fn => o.invokeFunction s request.serializationProtocol fn parameters
    | none => (s, .error (.failure (.exception RcfError.fnId)))
  else (s, .error (.failure (.exception RcfError.unknownInterface)))

/-- `locateStubEntryPtr` on a server without an object factory, whose sessions have no default
stub: a request with a token, or without a name, finds nothing. -/
def Located (request : MethodInvocationRequest) : Prop :=
  request.token = 0 ∧ request.service.bytes ≠ [] ∧ request.service = o.service

instance (request : MethodInvocationRequest) : Decidable (o.Located request) := by
  unfold Located
  infer_instance

variable (rcfServer : RcfServer)

/-- `RcfSession::processRequest`: the state of the servant afterwards, and what is put into the
output or thrown. The function `-1` is a ping. `registerForPingBacks` comes before anything else is
looked at. -/
def processRequest (s : S) (invocation : Invocation) : S × Except (Thrown E) (List Output) :=
  if o.Located invocation.1 then
    if invocation.1.fnId = -1 then (s, .ok [])
    else if rcfServer.refusesPingBacks invocation.1 then
      (s, .error (.failure (.exception RcfError.noPingBackService)))
    else o.invoke s invocation.1 invocation.2
  else (s, .error (.failure (.exception RcfError.noServerStub)))

/-- The state of the servant after some invocations. -/
def stateAfter (s : S) (history : List Invocation) : S :=
  history.foldl (fun s invocation => (o.processRequest rcfServer s invocation).1) s

theorem stateAfter_concat (s : S) (history : List Invocation) (invocation : Invocation) :
    o.stateAfter rcfServer s (history ++ [invocation])
      = (o.processRequest rcfServer (o.stateAfter rcfServer s history) invocation).1 := by
  simp [stateAfter]

variable (remoteException : Thrown E → List UInt8)

/-- What is sent: the output, or the archive of a `RemoteException`. Nothing is sent when an assertion
has failed. -/
def response : Except (Thrown E) (List Output) → Option (Bool × List Output)
  | .ok outs => some (false, outs)
  | .error (.failure .assertion) => none
  | .error e => some (true, [.write (remoteException e)])

/-- The service is the server object: it answers with what processing the request gives in the
state that the earlier invocations have left, whatever becomes of ping backs and answers. In the
other protocols not even an exception can be sent. -/
def Serves (s : S) (service : Service) : Prop :=
  ∀ history invocation, invocation.1.serializationProtocol = SfBinary →
    (service history invocation).map (fun answer => (answer.exception, answer.results))
      = response remoteException
        (o.processRequest rcfServer (o.stateAfter rcfServer s history) invocation).2

end ServerObject

/-! ## Calls of functions -/

/-- A call of a function of the interface. -/
structure TypedCall (I : Interface) where
  fn : I.Fn
  args : Parameters (I.method fn).parameters
  counted : ∀ a ∈ Codec.Values.toList args, a.1.Counted a.2

/-- What a call of a function ends with. -/
inductive Outcome
  | returned (results : List Parameter)
  | thrown (archive : List UInt8)
  | rejected (result : CallResult)

namespace Connection

section

variable (rcfServer : RcfServer) (service : Service) {I : Interface}

/-- `FutureImpl::callSync`: the parameters are written, the call is made and the result is read.
The connection is kept after a `RemoteException`, and reset after any other exception. -/
def callSync (k : Connection) (c : TypedCall I) : Outcome × Connection :=
  match writeParameters k.client.serializationProtocol (Codec.Values.toList c.args) with
  | .error failure => (.rejected (.failed failure), { k with closed := true })
  | .ok outs =>
      match k.call rcfServer service outs I.name (I.fnId c.fn) false with
      | (.returned results, k') =>
          match readParameters k'.client.serializationProtocol (I.method c.fn).results results 0 with
          | .ok (r, _) => (.returned (Codec.Values.toList r), k')
          | .error failure => (.rejected (.failed failure), { k' with closed := true })
      | (.exception archive, k') => (.thrown archive, k')
      | (.failed failure, k') => (.rejected (.failed failure), { k' with closed := true })
      | (result, k') => (.rejected result, k')

/-- Some calls, one after the other. -/
def remoteCalls : Connection → List (TypedCall I) → List Outcome × Connection
  | k, [] => ([], k)
  | k, c :: cs =>
      let (outcome, k') := k.callSync rcfServer service c
      let (outcomes, k'') := remoteCalls k' cs
      (outcome :: outcomes, k'')

end

end Connection

namespace ServerObject

variable {S E : Type} (o : ServerObject S E) (remoteException : Thrown E → List UInt8)

/-- The call on the servant itself. -/
def localCall (s : S) (c : TypedCall o.interface) : Outcome × S :=
  match o.servant.call c.fn s c.args with
  | (s', .ok r) => (.returned (Codec.Values.toList r), s')
  | (s', .error e) => (.thrown (remoteException (.servant e)), s')

def localCalls : S → List (TypedCall o.interface) → List Outcome × S
  | s, [] => ([], s)
  | s, c :: cs =>
      let (outcome, s') := o.localCall remoteException s c
      let (outcomes, s'') := localCalls s' cs
      (outcome :: outcomes, s'')

end ServerObject

/-! ### The service of a server object -/

section

variable {S E : Type} (o : ServerObject S E) (remoteException : Thrown E → List UInt8)

/-- The service of a server object, with the ping backs that are sent and no answer lost. -/
def ServerObject.toService (rcfServer : RcfServer) (pingBacks : List Int32) (s : S) : Service :=
  fun history invocation =>
    (ServerObject.response remoteException
      (o.processRequest rcfServer (o.stateAfter rcfServer s history) invocation).2).map
        fun r => ⟨pingBacks, false, r.1, r.2⟩

theorem ServerObject.toService_serves (rcfServer : RcfServer) (pingBacks : List Int32) (s : S) :
    o.Serves rcfServer remoteException s (o.toService remoteException rcfServer pingBacks s) := by
  intro history invocation _
  unfold ServerObject.toService
  rw [Option.map_map]
  exact Option.map_id'

/-- What is sent is not longer than the results of the servant and the exceptions. -/
theorem ServerObject.response_length_le {rcfServer : RcfServer} {n : Nat}
    (hresults : ∀ {fn s ps s' r}, o.servant.call fn s ps = (s', .ok r) →
      (archiveBytes (Codec.Values.toList r)).length ≤ n)
    (hexceptions : ∀ e, (remoteException e).length ≤ n) (s : S) (invocation : Invocation)
    {r : Bool × List Output}
    (h : response remoteException (o.processRequest rcfServer s invocation).2 = some r) :
    (r.2.flatMap Output.bytes).length ≤ n := by
  -- either nothing is written, or the results of the servant, or an exception
  have hthrown : ∀ e : Thrown E, response remoteException (.error e) = some r →
      (r.2.flatMap Output.bytes).length ≤ n := by
    intro e he
    have hr : r = (true, [.write (remoteException e)]) := by
      rcases e with (_ | _ | _) | _
      all_goals
        first
        | exact (Option.some.inj he).symm
        | cases he
    rw [hr]
    simpa [Output.bytes] using hexceptions e
  have hwritten : ∀ outs, response remoteException (.ok outs : Except (Thrown E) _) = some r →
      (outs.flatMap Output.bytes).length ≤ n → (r.2.flatMap Output.bytes).length ≤ n := by
    intro outs he hle
    rw [← Option.some.inj he]
    exact hle
  revert h
  unfold ServerObject.processRequest ServerObject.invoke ServerObject.invokeFunction
  split
  · split
    · exact fun h => hwritten _ h (Nat.zero_le n)
    · split
      · exact hthrown _
      · split
        · split
          · split
            · exact hthrown _
            · split
              · exact hthrown _
              · next hcall =>
                cases hwrite : writeParameters invocation.1.serializationProtocol _ with
                | error e => exact hthrown _
                | ok outs =>
                    rw [writeParameters_eq_ok hwrite]
                    refine fun h => hwritten _ h ?_
                    rw [outputs_bytes]
                    exact hresults hcall
          · exact hthrown _
        · exact hthrown _
  · exact hthrown _

end

/-! ## Remote calls are local calls -/

/-- What a client must know to call the server object. -/
structure ClientStub.Targets {S E : Type} (c : ClientStub) (o : ServerObject S E) : Prop where
  token : c.targetToken = 0
  name : c.targetName = o.service
  protocol : c.serializationProtocol = SfBinary

theorem ClientStub.Targets.of_same {S E : Type} {o : ServerObject S E} {c c' : ClientStub}
    (h : c.Targets o) (hsame : c.SameTarget c') : c'.Targets o :=
  ⟨hsame.token.trans h.token, hsame.name.trans h.name, hsame.protocol.trans h.protocol⟩

section

variable {S E : Type} {o : ServerObject S E} {remoteException : Thrown E → List UInt8}

/-- What the servant makes of a call, as the session puts it into the output. -/
def ServerObject.written (r : Except E (List Parameter)) : Except (Thrown E) (List Output) :=
  match r with
  | .ok r => .ok (outputs r)
  | .error e => .error (.servant e)

/-- What a call ends with when this was thrown or put into the output. -/
def ServerObject.sent (remoteException : Thrown E → List UInt8) :
    Except (Thrown E) (List Output) → CallResult
  | .ok outs => .returned (outs.flatMap Output.bytes)
  | .error e => .exception (remoteException e)

/-- The request of a client finds the object. -/
theorem located_of_made {c : ClientStub} {subInterface : StdString} {fnId : Int32}
    {parameters : List Output} {invocation : Invocation} (htarget : c.Targets o)
    (hmade : c.Made subInterface fnId parameters invocation) : o.Located invocation.1 := by
  have hservice := hmade.service.trans htarget.name
  refine ⟨hmade.token.trans htarget.token, ?_, hservice⟩
  rw [hservice]
  exact o.bound

variable {rcfServer : RcfServer}

/-- The function that the client means is invoked, with the parameters that the client gave. -/
theorem processRequest_made {c : ClientStub} {call : TypedCall o.interface}
    {invocation : Invocation} (htarget : c.Targets o)
    (hmade : c.Made o.interface.name (o.interface.fnId call.fn)
      (outputs (Codec.Values.toList call.args)) invocation)
    (hserved : rcfServer.refusesPingBacks invocation.1 = false) (s : S) :
    o.processRequest rcfServer s invocation
      = ((o.servant.call call.fn s call.args).1, ServerObject.written
          ((o.servant.call call.fn s call.args).2.map Codec.Values.toList)) := by
  have hlocated := located_of_made htarget hmade
  have hping : invocation.1.fnId ≠ -1 := by
    rw [hmade.fnId]
    exact o.interface.fnId_ne call.fn
  have hname : invocation.1.subInterface = o.interface.name := by
    rw [hmade.subInterface, if_neg o.interface.named]
  have hfunction : o.interface.function invocation.1.fnId = some call.fn := by
    rw [hmade.fnId]
    exact o.interface.function_fnId call.fn
  obtain ⟨pos, hread⟩ := readParameters_toList call.args call.counted
  rw [ServerObject.processRequest, if_pos hlocated, if_neg hping, hserved,
    if_neg Bool.false_ne_true, ServerObject.invoke, if_pos hname, hfunction, hmade.parameters,
    outputs_bytes, hmade.protocol, htarget.protocol]
  simp only [ServerObject.invokeFunction, hread]
  cases hcall : o.servant.call call.fn s call.args with
  | mk s' r =>
      cases r with
      | error e => rfl
      | ok r =>
          simp only [writeParameters_binary]
          rfl

theorem ServerObject.response_error {e : Thrown E} (he : e ≠ .failure .assertion) :
    ServerObject.response remoteException (.error e) = some (true, [.write (remoteException e)]) := by
  rcases e with (_ | _ | _) | _
  · rfl
  · rfl
  · exact absurd rfl he
  · rfl

/-- The session sends what was put into the output or thrown, and the call ends with it. -/
theorem result_of_serves {service : Service} {s : S}
    (hserves : o.Serves rcfServer remoteException s service) {history : List Invocation}
    {invocation : Invocation} (hprotocol : invocation.1.serializationProtocol = SfBinary) {s' : S}
    {r : Except (Thrown E) (List Output)}
    (h : o.processRequest rcfServer (o.stateAfter rcfServer s history) invocation = (s', r))
    (hsound : r ≠ .error (.failure .assertion)) :
    ∃ answer, service history invocation = some answer ∧
      answer.result = ServerObject.sent remoteException r := by
  have hanswer := hserves history invocation hprotocol
  rw [h] at hanswer
  cases r with
  | ok outs =>
      obtain ⟨answer, hsome, hpair⟩ := Option.map_eq_some_iff.mp hanswer
      obtain ⟨hexception, hresults⟩ := Prod.mk.inj hpair
      refine ⟨answer, hsome, ?_⟩
      unfold Answer.result
      rw [hexception, hresults]
      rfl
  | error e =>
      rw [ServerObject.response_error fun he => hsound (by rw [he])] at hanswer
      obtain ⟨answer, hsome, hpair⟩ := Option.map_eq_some_iff.mp hanswer
      obtain ⟨hexception, hresults⟩ := Prod.mk.inj hpair
      refine ⟨answer, hsome, ?_⟩
      unfold Answer.result
      rw [hexception, hresults]
      simp [ServerObject.sent, Output.bytes]

/-- Every answer of the service reaches a client that accepts messages of some length. -/
def Arrive (rcfServer : RcfServer) (service : Service) (maxMessageLength : Nat) : Prop :=
  ∀ history invocation answer, service history invocation = some answer →
    answer.Arrives rcfServer invocation.1 maxMessageLength

/-- A call on which no assertion fails is answered. -/
theorem answered_of_serves {service : Service} {s : S} {c : ClientStub}
    {subInterface : StdString} {fnId : Int32} {parameters : List Output}
    (hserves : o.Serves rcfServer remoteException s service)
    (harrive : Arrive rcfServer service c.maxMessageLength) (htarget : c.Targets o)
    (hsound : ∀ invocation, c.Made subInterface fnId parameters invocation → ∀ s,
      (o.processRequest rcfServer s invocation).2 ≠ .error (.failure .assertion)) :
    c.Answered rcfServer service subInterface fnId parameters := by
  intro history invocation hmade
  obtain ⟨answer, hanswer, -⟩ := result_of_serves hserves
    (hmade.protocol.trans htarget.protocol) rfl (hsound invocation hmade _)
  exact ⟨answer, hanswer, harrive history invocation answer hanswer⟩

/-- No call is refused for want of a ping back service: there is one, or nobody asks for ping
backs. -/
def Connection.Unrefused (rcfServer : RcfServer) (k : Connection) : Prop :=
  rcfServer.pingBackService = true ∨ k.Silent

theorem refusesPingBacks_eq_false {r : MethodInvocationRequest}
    (h : rcfServer.pingBackService = true ∨ r.pingBackIntervalMs ≤ 0) :
    rcfServer.refusesPingBacks r = false := by
  unfold RcfServer.refusesPingBacks
  rcases h with h | h
  · rw [h, Bool.not_true, Bool.and_false]
  · have hno : ¬ 0 < r.pingBackIntervalMs := not_gt_of_le h
    rw [decide_eq_false hno, Bool.false_and, Bool.false_and]

/-- A refused call is answered too, without the servant. -/
theorem processRequest_refused {invocation : Invocation} (hlocated : o.Located invocation.1)
    (hping : invocation.1.fnId ≠ -1) (hrefused : rcfServer.refusesPingBacks invocation.1 = true)
    (s : S) :
    o.processRequest rcfServer s invocation
      = (s, .error (.failure (.exception RcfError.noPingBackService))) := by
  rw [ServerObject.processRequest, if_pos hlocated, if_neg hping, if_pos hrefused]

/-- No assertion fails in a call of a function. -/
theorem processRequest_sound {c : ClientStub} (call : TypedCall o.interface)
    {invocation : Invocation} (htarget : c.Targets o)
    (hmade : c.Made o.interface.name (o.interface.fnId call.fn)
      (outputs (Codec.Values.toList call.args)) invocation) (s : S) :
    (o.processRequest rcfServer s invocation).2 ≠ .error (.failure .assertion) := by
  cases hserved : rcfServer.refusesPingBacks invocation.1 with
  | true =>
      have hping : invocation.1.fnId ≠ -1 := by
        rw [hmade.fnId]
        exact o.interface.fnId_ne call.fn
      rw [processRequest_refused (located_of_made htarget hmade) hping hserved]
      intro h
      cases h
  | false =>
      rw [processRequest_made htarget hmade hserved]
      rcases (o.servant.call call.fn s call.args).2 with e | r
      all_goals
        intro h
        cases h

variable {service : Service}

/-- **A remote call is a local call.** -/
theorem callSync_local {k : Connection} (h : k.Steady rcfServer)
    (hserver : 1 ≤ rcfServer.rcfRuntimeVersion) (hunrefused : k.Unrefused rcfServer) {s : S}
    (hserves : o.Serves rcfServer remoteException s service)
    (harrive : Arrive rcfServer service k.client.maxMessageLength) (htarget : k.client.Targets o)
    {c : TypedCall o.interface}
    (hfits : k.client.Fits rcfServer o.interface.name (outputs (Codec.Values.toList c.args))) :
    ∃ k', k.callSync rcfServer service c
        = ((o.localCall remoteException (o.stateAfter rcfServer s k.invocations) c).1, k') ∧
      o.stateAfter rcfServer s k'.invocations
        = (o.localCall remoteException (o.stateAfter rcfServer s k.invocations) c).2 ∧
      k'.invocations.length = k.invocations.length + 1 ∧
      k'.Steady rcfServer ∧ k'.Unrefused rcfServer ∧ k.client.SameTarget k'.client := by
  have hanswered := answered_of_serves hserves harrive htarget
    fun invocation hmade => processRequest_sound c htarget hmade
  obtain ⟨k', invocation, answer, hcall, hanswer, hsteady, hsame, hmade, hinv, -, -, -, hsilent⟩ :
      ∃ k' invocation, ∃ answer : Answer, k.call rcfServer service
        (outputs (Codec.Values.toList c.args)) o.interface.name (o.interface.fnId c.fn) false
          = (answer.result, k') ∧ _ :=
    Connection.call_steady h hserver hfits hanswered
  have hserved : rcfServer.refusesPingBacks invocation.1 = false :=
    refusesPingBacks_eq_false (hunrefused.imp_right fun hs => (hsilent hs).2)
  have hprocess := processRequest_made htarget hmade hserved
    (o.stateAfter rcfServer s k.invocations)
  have hsound : (o.processRequest rcfServer (o.stateAfter rcfServer s k.invocations) invocation).2
      ≠ .error (.failure .assertion) := processRequest_sound c htarget hmade _
  rw [hprocess] at hsound
  obtain ⟨answer', hanswer', hresult⟩ := result_of_serves hserves
    (hmade.protocol.trans htarget.protocol) hprocess hsound
  have hsame' : answer' = answer := Option.some.inj (hanswer'.symm.trans hanswer)
  rw [hsame'] at hresult
  have hprotocol' : k'.client.serializationProtocol = SfBinary :=
    hsame.protocol.trans htarget.protocol
  have hlength : k'.invocations.length = k.invocations.length + 1 := by
    rw [hinv, List.length_append, List.length_singleton]
  refine ⟨k', ?_, ?_, hlength, hsteady, hunrefused.imp_right fun hs => (hsilent hs).1, hsame⟩
  · rw [Connection.callSync, htarget.protocol, writeParameters_binary]
    simp only [hcall, hresult, ServerObject.localCall]
    rcases hlocal : o.servant.call c.fn (o.stateAfter rcfServer s k.invocations) c.args
      with ⟨s', e | r⟩
    · rfl
    · obtain ⟨pos, hread⟩ := readParameters_toList r (o.servant.counted hlocal)
      simp only [Except.map, ServerObject.written, ServerObject.sent, outputs_bytes, hprotocol',
        hread]
  · rw [hinv, ServerObject.stateAfter_concat, hprocess, ServerObject.localCall]
    rcases o.servant.call c.fn (o.stateAfter rcfServer s k.invocations) c.args with ⟨s', e | r⟩
    · rfl
    · rfl

end

/-- A servant that knows whether an artist has been played. -/
def playedCall : (fn : I_ITSB.Fn) → Bool → Parameters (I_ITSB.method fn).parameters →
    Bool × Except Unit (Parameters (I_ITSB.method fn).results)
  | ⟨2, _⟩ => fun _ _ => (true, .ok ())
  | ⟨3, _⟩ => fun s _ => (s, .ok ((if s then [⟨[65]⟩] else [] : List StdString), ()))
  | _ => fun s _ => (s, .error ())

/-- It returns nothing, no artist, or one. -/
theorem playedCall_returns {fn : I_ITSB.Fn} {s : Bool}
    {ps : Parameters (I_ITSB.method fn).parameters} {s' : Bool}
    {r : Parameters (I_ITSB.method fn).results} (h : playedCall fn s ps = (s', .ok r)) :
    Codec.Values.toList r ∈ ([[], [⟨.vector .string, ([] : List StdString)⟩],
      [⟨.vector .string, ([⟨[65]⟩] : List StdString)⟩]] : List (List Parameter)) := by
  rcases fn with ⟨_ | _ | _ | _ | n, hn⟩
  · cases h
  · cases h
  · cases h
    exact List.mem_cons_self
  · cases h
    cases s
    · exact List.mem_cons_of_mem _ List.mem_cons_self
    · exact List.mem_cons_of_mem _ (List.mem_cons_of_mem _ List.mem_cons_self)
  · cases h

def played : Servant Bool Unit I_ITSB where
  call := playedCall
  counted h a ha := by
    have hreturns := playedCall_returns h
    simp only [List.mem_cons, List.not_mem_nil, or_false] at hreturns
    rcases hreturns with hr | hr | hr
    · rw [hr] at ha
      exact absurd ha List.not_mem_nil
    · rw [hr] at ha
      rw [List.mem_singleton.mp ha]
      exact ⟨by decide, fun b hb => absurd hb List.not_mem_nil⟩
    · rw [hr] at ha
      rw [List.mem_singleton.mp ha]
      refine ⟨by decide, ?_⟩
      intro b hb
      rw [List.mem_singleton.mp hb]
      show [(65 : UInt8)].length < 2 ^ 32
      decide

def playedObject : ServerObject Bool Unit := ⟨I_ITSB.name, I_ITSB, played, by decide⟩

def getArtists : TypedCall I_ITSB := ⟨⟨3, by decide⟩, (), fun _ ha => absurd ha List.not_mem_nil⟩

def playArtist : TypedCall I_ITSB where
  fn := ⟨2, by decide⟩
  args := ((⟨[65]⟩ : StdString), ())
  counted a ha := by
    rw [List.mem_singleton.mp ha]
    exact letterA_counted

/-- The error of an exception of the library. -/
def playedException : Thrown Unit → List UInt8
  | .failure (.exception error) => intBytes error
  | _ => []

/-- A server of version 3 with a ping back service. -/
def pingingServer : RcfServer := { RcfServer.plain 3 with pingBackService := true }

def playedService : Service := playedObject.toService playedException pingingServer [1000] false

/-- What the object sends is short. -/
theorem playedService_arrive :
    Arrive pingingServer playedService defaultMaxMessageLength := by
  intro history invocation answer h
  obtain ⟨r, hresponse, rfl⟩ := Option.map_eq_some_iff.mp h
  have hexceptions : ∀ e, (playedException e).length ≤ 100 := by
    rintro ((error | _ | _) | e)
    · have hlength := intBytes_length_le error
      show (intBytes error).length ≤ 100
      omega
    all_goals exact Nat.zero_le _
  have hle := playedObject.response_length_le playedException ?_ hexceptions
    (playedObject.stateAfter pingingServer false history) invocation hresponse
  · refine ⟨rfl, ?_, ?_⟩
    · exact lt_of_le_of_lt (Nat.add_le_add_left hle 3) (by decide)
    · exact (Nat.add_le_add_left hle 3).trans (by decide)
  · intro fn s ps s' r h
    have hreturns := playedCall_returns h
    simp only [List.mem_cons, List.not_mem_nil, or_false] at hreturns
    have hbound : ∀ l, Codec.Values.toList r = l → (archiveBytes l).length ≤ 100 →
        (archiveBytes (Codec.Values.toList r)).length ≤ 100 := by
      rintro l rfl hle
      exact hle
    rcases hreturns with hr | hr | hr
    all_goals exact hbound _ hr (by decide +kernel)

/-- A new client of a server of an older version, which asks for ping backs. -/
def newClient : Connection :=
  .initial { ClientStub.initial I_ITSB.name 5 with pingBackIntervalMs := 1000 } 3

theorem newClient_steady : newClient.Steady pingingServer :=
  ⟨⟨rfl, by decide, ⟨by decide, rfl⟩, Chain.nil, Creates.nil _, RcfSession.initial_ready _ 3, rfl⟩,
    rfl, rfl, rfl⟩

section

variable {S E : Type} (o : ServerObject S E)

/-- The interface that a call means: without a name, the one that has the name of the service. -/
def ServerObject.meant (c : Call) : StdString :=
  if c.subInterface.bytes = [] then o.service else c.subInterface

/-- What is thrown before the servant is called, when a function is called by its id. -/
def ServerObject.rejection (c : Call) : Option Failure :=
  if o.meant c = o.interface.name then
    match o.interface.function c.fnId with
    | none => some (.exception RcfError.fnId)
    | some fn =>
        match readParameters SfBinary (o.interface.method fn).parameters
            (c.parameters.flatMap Output.bytes) 0 with
        | .error failure => some failure
        | .ok _ => none
  else some (.exception RcfError.unknownInterface)

/-- The call is not a ping, and an exception is thrown on the server: it names another interface,
there is no function with that id, or the parameters cannot be read. Nothing is said of calls on
which an assertion fails. -/
structure ServerObject.Rejects (c : Call) (failure : Failure) : Prop where
  notPing : c.fnId ≠ -1
  rejection : o.rejection c = some failure
  thrown : failure ≠ .assertion

end

section

variable {S E : Type} {o : ServerObject S E} {remoteException : Thrown E → List UInt8}

variable {rcfServer : RcfServer}

theorem processRequest_rejected {client : ClientStub} {c : Call} {failure : Failure}
    {invocation : Invocation} (htarget : client.Targets o)
    (hmade : client.Made c.subInterface c.fnId c.parameters invocation)
    (hserved : rcfServer.refusesPingBacks invocation.1 = false) (h : o.Rejects c failure) (s : S) :
    o.processRequest rcfServer s invocation = (s, .error (.failure failure)) := by
  obtain ⟨hping, hrejection, -⟩ := h
  have hlocated := located_of_made htarget hmade
  have hname : invocation.1.subInterface = o.meant c := by
    rw [hmade.subInterface, htarget.name]
    rfl
  rw [ServerObject.processRequest, if_pos hlocated, hmade.fnId, if_neg hping, hserved,
    if_neg Bool.false_ne_true, ServerObject.invoke, hname, hmade.fnId, hmade.parameters,
    hmade.protocol, htarget.protocol]
  unfold ServerObject.rejection at hrejection
  by_cases hinterface : o.meant c = o.interface.name
  · rw [if_pos hinterface] at hrejection ⊢
    rcases hfunction : o.interface.function c.fnId with _ | fn
    · simp only [hfunction, Option.some.injEq] at hrejection
      rw [← hrejection]
    · rcases hread : readParameters SfBinary (o.interface.method fn).parameters
          (c.parameters.flatMap Output.bytes) 0 with e | r
      · simp only [hfunction, hread, Option.some.injEq] at hrejection
        simp only [ServerObject.invokeFunction, hread, hrejection]
      · simp only [hfunction, hread] at hrejection
        cases hrejection
  · rw [if_neg hinterface] at hrejection ⊢
    rw [← Option.some.inj hrejection]

/-- The exception of a rejected call is sent. -/
theorem processRequest_rejected_sound {client : ClientStub} {c : Call} {failure : Failure}
    {invocation : Invocation} (htarget : client.Targets o)
    (hmade : client.Made c.subInterface c.fnId c.parameters invocation) (h : o.Rejects c failure)
    (s : S) : (o.processRequest rcfServer s invocation).2 ≠ .error (.failure .assertion) := by
  cases hserved : rcfServer.refusesPingBacks invocation.1 with
  | true =>
      rw [processRequest_refused (located_of_made htarget hmade)
        (by rw [hmade.fnId]; exact h.notPing) hserved]
      intro h
      cases h
  | false =>
      rw [processRequest_rejected htarget hmade hserved h]
      intro heq
      exact h.thrown (by simpa using heq)

variable {service : Service}

end

end SpeechBridge.Rcf
