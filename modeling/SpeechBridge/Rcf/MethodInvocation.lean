import SpeechBridge.Rcf.Envelope
import SpeechBridge.Rcf.SerializationProtocol

set_option autoImplicit false

/-! # Requests and responses

`MethodInvocationRequest`, `MethodInvocationResponse` and `encodeServerError` of
`src/RCF/src/RCF/MethodInvocation.cpp`. The header of a request has one of three versions, which
the runtime version of the client selects; only two of them carry the runtime version. The
server fills in the request object of its session, field by field, so that a field which a
header does not carry keeps the value of the request before.
-/

namespace SpeechBridge.Rcf

/-- `MethodInvocationRequest`; `vec` is the vector the header is built in, kept from one header
to the next. -/
structure MethodInvocationRequest where
  token : Int32
  subInterface : StdString
  fnId : Int32
  serializationProtocol : Int32
  oneway : Bool
  close : Bool
  service : StdString
  rcfRuntimeVersion : Int32
  ignoreRcfRuntimeVersion : Bool
  pingBackIntervalMs : Int32
  exception : Bool
  vec : Option (List UInt8)

/-- The constructor. -/
def MethodInvocationRequest.initial : MethodInvocationRequest :=
  ⟨0, ⟨[]⟩, 0, 0, false, false, ⟨[]⟩, 0, false, 0, false, none⟩

/-- A ping: the function `-1`, which has no parameters. -/
def MethodInvocationRequest.ping : MethodInvocationRequest :=
  { MethodInvocationRequest.initial with
    fnId := -1, serializationProtocol := 1, rcfRuntimeVersion := 5 }

structure MethodInvocationResponse where
  exception : Bool
  error : Bool
  errorCode : Int32
  arg0 : Int32
  deriving DecidableEq, Repr

/-- `gDefaultMaxMessageLength`, for both transports. -/
def defaultMaxMessageLength : Nat := 10 * 1024

/-- `RcfServer`, as far as requests are concerned: its runtime version, its filter factories,
whether it has a ping back service, and the longest message that its transport accepts. -/
structure RcfServer where
  rcfRuntimeVersion : Int32
  createFilter : Int32 → Option Filter
  pingBackService : Bool
  maxMessageLength : Nat

/-- A server without services, with the defaults. -/
def RcfServer.plain (runtimeVersion : Int32) : RcfServer :=
  ⟨runtimeVersion, fun _ => none, false, defaultMaxMessageLength⟩

/-- `RcfSession`, as far as requests are concerned. It is stranded when its last answer has been
left in `mQueuedSendBuffers` and it does not read any more. -/
structure RcfSession where
  request : MethodInvocationRequest
  rcfRuntimeVersion : Int32
  filtered : Bool
  filters : List Filter
  spIn : SerializationProtocolIn
  spOut : SerializationProtocolOut
  stranded : Bool

/-- The constructor, in a server of some runtime version. -/
def RcfSession.initial (runtimeVersion : Int32) : RcfSession :=
  ⟨.initial, runtimeVersion, false, [], .initial, .initial, false⟩

/-! ## The header of a request -/

def requestHeaderVersion (runtimeVersion : Int32) : Int32 :=
  if runtimeVersion < 2 then 0 else if runtimeVersion < 5 then 1 else 2

/-- The fields at the end, which depend on the version of the header. -/
def encodeVersionFields (r : MethodInvocationRequest) (version : Int32) (s : Filling UInt8) :
    Option (Filling UInt8) :=
  if version = 1 then do
    let s ← encodeInt r.rcfRuntimeVersion s
    encodeBool r.ignoreRcfRuntimeVersion s
  else if version = 2 then do
    let s ← encodeInt r.rcfRuntimeVersion s
    let s ← encodeBool r.ignoreRcfRuntimeVersion s
    encodeInt r.pingBackIntervalMs s
  else some s

def encodeFields (r : MethodInvocationRequest) (s : Filling UInt8) : Option (Filling UInt8) := do
  let version := requestHeaderVersion r.rcfRuntimeVersion
  let s ← encodeInt Descriptor.request s
  let s ← encodeInt version s
  let s ← encodeString r.service s
  let s ← encodeInt r.token s
  let s ← encodeString (if r.subInterface = r.service then ⟨[]⟩ else r.subInterface) s
  let s ← encodeInt r.fnId s
  let s ← encodeInt r.serializationProtocol s
  let s ← encodeBool r.oneway s
  let s ← encodeBool r.close s
  encodeVersionFields r version s

/-- The header, and the request with the vector resized to it. -/
def encodeRequestHeader (r : MethodInvocationRequest) :
    Option (List UInt8 × MethodInvocationRequest) := do
  let s ← encodeFields r ⟨r.vec.getD (List.replicate 50 0), 0⟩
  some (s.written, { r with vec := some s.written })

/-- The runtime version and the ping back interval of a header of some version. -/
def decodeVersionFields (version pingBackIntervalMs : Int32) :
    Decoder UInt8 Failure (Int32 × Int32) :=
  if version = 1 then do
    let runtimeVersion ← decodeInt
    let _ignoreRuntimeVersion ← decodeBool
    pure (runtimeVersion, 0)
  else if version = 2 then do
    let runtimeVersion ← decodeInt
    let _ignoreRuntimeVersion ← decodeBool
    let pingBackIntervalMs ← decodeInt
    pure (runtimeVersion, pingBackIntervalMs)
  else pure (1, pingBackIntervalMs)

/-- The fields that follow the version, and the runtime version. -/
def decodeFields (r : MethodInvocationRequest) (version : Int32) :
    Decoder UInt8 Failure (MethodInvocationRequest × Int32) := do
  let service ← decodeString
  let tokenId ← decodeInt
  let subInterface ← decodeString
  let fnId ← decodeInt
  let serializationProtocol ← decodeInt
  let oneway ← decodeBool
  let close ← decodeBool
  let (runtimeVersion, pingBackIntervalMs) ← decodeVersionFields version r.pingBackIntervalMs
  pure ({ r with
    token := tokenId
    service := service
    subInterface := if subInterface.bytes = [] then service else subInterface
    fnId := fnId
    serializationProtocol := serializationProtocol
    oneway := oneway
    close := close
    pingBackIntervalMs := pingBackIntervalMs }, runtimeVersion)

/-- The header part of `decodeRequest`: nothing when the version of the header is too high. -/
def decodeHeader (r : MethodInvocationRequest) :
    Decoder UInt8 Failure (Option (MethodInvocationRequest × Int32)) := do
  let msgId ← decodeInt
  Decoder.verify (msgId = Descriptor.request) (.exception RcfError.decoding)
  let messageVersion ← decodeInt
  if messageVersion > 3 then
    pure none
  else
    let fields ← decodeFields r messageVersion
    pure (some fields)

/-- `decodeRequest`: whether the request can be served, and the session. -/
def decodeRequest (rcfServer : RcfServer) (session : RcfSession) (byteBufferIn : List UInt8) :
    Except Failure (Bool × RcfSession) := do
  let (filtered, filters, b) ←
    decodeFilteredServer rcfServer.createFilter session.filters byteBufferIn
  let session := { session with filtered := filtered, filters := filters }
  let (header, pos) ← decodeHeader session.request b 0
  match header with
  | none => .ok (false, session)
  | some (request, runtimeVersion) =>
      if runtimeVersion > rcfServer.rcfRuntimeVersion then
        .ok (false, { session with request := request })
      else do
        let spIn ← session.spIn.reset (b.drop pos) request.serializationProtocol
        let spOut ← session.spOut.reset request.serializationProtocol 32 []
        .ok (true, { session with
          request := request
          rcfRuntimeVersion := runtimeVersion
          spIn := spIn
          spOut := spOut })

/-- A request whose header can be decoded. -/
theorem decodeRequest_of_header {rcfServer : RcfServer} {session : RcfSession}
    {byteBufferIn b : List UInt8} {filtered : Bool} {filters : List Filter}
    (hb : decodeFilteredServer rcfServer.createFilter session.filters byteBufferIn
      = .ok (filtered, filters, b))
    {request : MethodInvocationRequest} {runtimeVersion : Int32} {pos : Nat}
    (hheader : decodeHeader session.request b 0 = .ok (some (request, runtimeVersion), pos)) :
    decodeRequest rcfServer session byteBufferIn
      = if runtimeVersion > rcfServer.rcfRuntimeVersion then
          .ok (false, { session with filtered := filtered, filters := filters, request := request })
        else (do
          let spIn ← session.spIn.reset (b.drop pos) request.serializationProtocol
          let spOut ← session.spOut.reset request.serializationProtocol 32 []
          .ok (true, { session with
            filtered := filtered
            filters := filters
            request := request
            rcfRuntimeVersion := runtimeVersion
            spIn := spIn
            spOut := spOut })) := by
  unfold decodeRequest
  rw [hb]
  show Except.bind (decodeHeader session.request b 0) _ = _
  rw [hheader]
  rfl

/-- A request whose header cannot be decoded. -/
theorem decodeRequest_of_error {rcfServer : RcfServer} {session : RcfSession}
    {byteBufferIn b : List UInt8} {filtered : Bool} {filters : List Filter}
    (hb : decodeFilteredServer rcfServer.createFilter session.filters byteBufferIn
      = .ok (filtered, filters, b)) {e : Failure}
    (hheader : decodeHeader session.request b 0 = .error e) :
    decodeRequest rcfServer session byteBufferIn = .error e := by
  unfold decodeRequest
  rw [hb]
  show Except.bind (decodeHeader session.request b 0) _ = _
  rw [hheader]
  rfl

/-- `encodeRequest`. -/
def encodeRequest (byteBuffersIn : List ByteBuffer) (filters : List Filter) :
    Except Failure (List ByteBuffer) :=
  encodeFiltered byteBuffersIn filters

/-! ## The header of a response -/

/-- The bytes of the header, which go into the left margin of the first buffer. -/
def encodeResponseHeader (exception : Bool) (s : Filling UInt8) : Option (Filling UInt8) := do
  let s ← encodeIntAt Descriptor.response s
  let s ← encodeIntAt 0 s
  encodeBoolAt exception s

def encodeResponse (r : MethodInvocationRequest) (byteBuffersIn : List ByteBuffer)
    (filters : List Filter) : Except Failure (List ByteBuffer) :=
  match byteBuffersIn with
  | [] => .error .assertion
  | front :: rest => do
      let front ← asserted (front.prepend 3 (encodeResponseHeader r.exception))
      encodeFiltered (front :: rest) filters

/-- The message that reports an error, with its argument if it has one. -/
def encodeErrorFields (error : Int32) (arg0 : Option Int32) (s : Filling UInt8) :
    Option (Filling UInt8) := do
  let s ← encodeIntAt Descriptor.error s
  let s ← encodeIntAt 0 s
  let s ← encodeIntAt error s
  match arg0 with
  | none => some s
  | some arg0 => encodeIntAt arg0 s

/-- The constant `Len` of `encodeServerError`. -/
def serverErrorLen : Option Int32 → Nat
  | none => 4 + 1 + 1 + 4
  | some _ => 4 + 1 + 1 + 4 + 4

/-- A buffer that is long enough is used again, with what it holds. -/
def reuse (byteBuffer : ByteBuffer) (len : Nat) : ByteBuffer :=
  if byteBuffer.getLength + byteBuffer.getLeftMargin < len then .ofBytes (List.replicate len 0)
  else byteBuffer

def encodeServerError (byteBuffer : ByteBuffer) (error : Int32) (arg0 : Option Int32) :
    Except Failure ByteBuffer := do
  let byteBuffer ← asserted ((reuse byteBuffer (serverErrorLen arg0)).setLeftMargin 4)
  asserted (byteBuffer.fill (encodeErrorFields error arg0))

/-- The errors that carry an argument. -/
def hasArg0 (error : Int32) : Prop :=
  error = RcfError.versionMismatch ∨ error = RcfError.pingBack

instance (error : Int32) : Decidable (hasArg0 error) :=
  inferInstanceAs (Decidable (_ ∨ _))

def decodeResponseHeader : Decoder UInt8 Failure MethodInvocationResponse := do
  let msgId ← decodeInt
  let ver ← decodeInt
  if msgId = Descriptor.error then
    Decoder.verify (ver = 0) (.exception RcfError.decoding)
    let error ← decodeInt
    if hasArg0 error then
      let arg0 ← decodeInt
      pure ⟨false, true, error, arg0⟩
    else
      pure ⟨false, true, error, 0⟩
  else
    Decoder.verify (msgId = Descriptor.response) (.exception RcfError.decoding)
    Decoder.verify (ver = 0) (.exception RcfError.decoding)
    let exception ← decodeBool
    pure ⟨exception, false, 0, 0⟩

/-- `decodeResponse`: the response, and what follows its header. -/
def decodeResponse (filters : List Filter) (byteBufferIn : List UInt8) :
    Except Failure (MethodInvocationResponse × List UInt8) := do
  let b ← decodeFilteredClient filters byteBufferIn
  let (response, pos) ← decodeResponseHeader b 0
  .ok (response, b.drop pos)

/-- A message whose header can be decoded. -/
theorem decodeResponse_of_header {filters : List Filter} {byteBufferIn b : List UInt8}
    (hb : decodeFilteredClient filters byteBufferIn = .ok b)
    {response : MethodInvocationResponse} {pos : Nat}
    (hheader : decodeResponseHeader b 0 = .ok (response, pos)) :
    decodeResponse filters byteBufferIn = .ok (response, b.drop pos) := by
  unfold decodeResponse
  rw [hb]
  show Except.bind (decodeResponseHeader b 0) _ = _
  rw [hheader]
  rfl

/-! ## What the header of a request says -/

/-- The runtime version that a request announces. Headers of version 0 do not carry it. -/
def announced (runtimeVersion : Int32) : Int32 :=
  if runtimeVersion < 2 then 1 else runtimeVersion

/-- The bytes of the fields at the end. -/
def versionFieldsBytes (r : MethodInvocationRequest) : List UInt8 :=
  if r.rcfRuntimeVersion < 2 then []
  else if r.rcfRuntimeVersion < 5 then
    intBytes r.rcfRuntimeVersion ++ boolBytes r.ignoreRcfRuntimeVersion
  else
    intBytes r.rcfRuntimeVersion ++ (boolBytes r.ignoreRcfRuntimeVersion ++
      intBytes r.pingBackIntervalMs)

/-- The sub-interface as it is sent. -/
def sentSubInterface (r : MethodInvocationRequest) : StdString :=
  if r.subInterface = r.service then ⟨[]⟩ else r.subInterface

/-- The bytes of the fields that follow the version. -/
def fieldsBytes (r : MethodInvocationRequest) : List UInt8 :=
  stringBytes r.service ++ (intBytes r.token ++ (stringBytes (sentSubInterface r) ++
    (intBytes r.fnId ++ (intBytes r.serializationProtocol ++ (boolBytes r.oneway ++
      (boolBytes r.close ++ versionFieldsBytes r))))))

/-- The bytes of the header. -/
def headerBytes (r : MethodInvocationRequest) : List UInt8 :=
  intBytes Descriptor.request ++ (intBytes (requestHeaderVersion r.rcfRuntimeVersion) ++
    fieldsBytes r)

/-- What becomes of the request object of a session when it is filled in from the header of
`r`. -/
def fillIn (session r : MethodInvocationRequest) : MethodInvocationRequest :=
  { session with
    token := r.token
    service := r.service
    subInterface := if r.subInterface.bytes = [] then r.service else r.subInterface
    fnId := r.fnId
    serializationProtocol := r.serializationProtocol
    oneway := r.oneway
    close := r.close
    pingBackIntervalMs :=
      if r.rcfRuntimeVersion < 2 then session.pingBackIntervalMs
      else if r.rcfRuntimeVersion < 5 then 0
      else r.pingBackIntervalMs }

/-- The three cases of a runtime version. -/
theorem version_cases (v : Int32) :
    (v < 2 ∧ requestHeaderVersion v = 0) ∨
    (¬ v < 2 ∧ v < 5 ∧ requestHeaderVersion v = 1) ∨
    (¬ v < 2 ∧ ¬ v < 5 ∧ requestHeaderVersion v = 2) := by
  unfold requestHeaderVersion
  by_cases h₂ : v < 2
  · exact Or.inl ⟨h₂, if_pos h₂⟩
  · by_cases h₅ : v < 5
    · exact Or.inr (Or.inl ⟨h₂, h₅, by rw [if_neg h₂, if_pos h₅]⟩)
    · exact Or.inr (Or.inr ⟨h₂, h₅, by rw [if_neg h₂, if_neg h₅]⟩)

/-! ### The header is written -/

theorem writes_nothing : Filling.Writes (some : Filling UInt8 → Option (Filling UInt8)) [] :=
  fun s hs => ⟨s, rfl, hs, (List.append_nil _).symm⟩

theorem writes_encodeVersionFields (r : MethodInvocationRequest) :
    Filling.Writes (encodeVersionFields r (requestHeaderVersion r.rcfRuntimeVersion))
      (versionFieldsBytes r) := by
  unfold versionFieldsBytes
  rcases version_cases r.rcfRuntimeVersion with ⟨h₂, hv⟩ | ⟨h₂, h₅, hv⟩ | ⟨h₂, h₅, hv⟩
  · rw [hv, if_pos h₂]
    exact writes_nothing
  · rw [hv, if_neg h₂, if_pos h₅]
    exact (writes_encodeInt _).seq (writes_encodeBool _)
  · rw [hv, if_neg h₂, if_neg h₅]
    exact (writes_encodeInt _).seq ((writes_encodeBool _).seq (writes_encodeInt _))

theorem writes_encodeFields (r : MethodInvocationRequest) :
    Filling.Writes (encodeFields r) (headerBytes r) :=
  (writes_encodeInt _).seq ((writes_encodeInt _).seq ((writes_encodeString _).seq
    ((writes_encodeInt _).seq ((writes_encodeString _).seq ((writes_encodeInt _).seq
      ((writes_encodeInt _).seq ((writes_encodeBool _).seq ((writes_encodeBool _).seq
        (writes_encodeVersionFields r)))))))))

/-- The header does not depend on what the vector held. -/
theorem encodeRequestHeader_eq (r : MethodInvocationRequest) :
    encodeRequestHeader r = some (headerBytes r, { r with vec := some (headerBytes r) }) := by
  have hrun := (writes_encodeFields r).from_front (r.vec.getD (List.replicate 50 0))
  have hmap : encodeRequestHeader r
      = ((encodeFields r ⟨r.vec.getD (List.replicate 50 0), 0⟩).map Filling.written).map
          fun header => (header, { r with vec := some header }) := by
    unfold encodeRequestHeader
    cases encodeFields r ⟨r.vec.getD (List.replicate 50 0), 0⟩ <;> rfl
  rw [hmap, hrun, Option.map_some]

/-! ### The header is read -/

/-- The strings of a request are short enough for their lengths to be sent. -/
structure Sendable (r : MethodInvocationRequest) : Prop where
  service : r.service.bytes.length < 2 ^ 31
  subInterface : r.subInterface.bytes.length < 2 ^ 31

theorem reads_decodeVersionFields (r : MethodInvocationRequest) (pingBackIntervalMs : Int32) :
    (decodeVersionFields (requestHeaderVersion r.rcfRuntimeVersion) pingBackIntervalMs).Reads
      (versionFieldsBytes r)
      (announced r.rcfRuntimeVersion,
        if r.rcfRuntimeVersion < 2 then pingBackIntervalMs
        else if r.rcfRuntimeVersion < 5 then 0 else r.pingBackIntervalMs) := by
  unfold versionFieldsBytes announced
  rcases version_cases r.rcfRuntimeVersion with ⟨h₂, hv⟩ | ⟨h₂, h₅, hv⟩ | ⟨h₂, h₅, hv⟩
  · rw [hv]
    simp only [if_pos h₂]
    exact Decoder.Reads.pure _
  · rw [hv]
    simp only [if_neg h₂, if_pos h₅]
    exact (reads_decodeInt _).bind ((reads_decodeBool _).bind_nil (Decoder.Reads.pure _))
  · rw [hv]
    simp only [if_neg h₂, if_neg h₅]
    exact (reads_decodeInt _).bind ((reads_decodeBool _).bind
      ((reads_decodeInt _).bind_nil (Decoder.Reads.pure _)))

theorem sentSubInterface_length {r : MethodInvocationRequest} (h : Sendable r) :
    (sentSubInterface r).bytes.length < 2 ^ 31 := by
  unfold sentSubInterface
  split
  · exact Nat.two_pow_pos 31
  · exact h.subInterface

/-- An empty sub-interface stands for the service. -/
theorem subInterface_received (r : MethodInvocationRequest) :
    (if (sentSubInterface r).bytes = [] then r.service else sentSubInterface r)
      = if r.subInterface.bytes = [] then r.service else r.subInterface := by
  unfold sentSubInterface
  by_cases h : r.subInterface = r.service
  · rw [if_pos h, if_pos rfl, h]
    split <;> rfl
  · rw [if_neg h]

theorem reads_decodeFields {r : MethodInvocationRequest} (h : Sendable r)
    (session : MethodInvocationRequest) :
    (decodeFields session (requestHeaderVersion r.rcfRuntimeVersion)).Reads (fieldsBytes r)
      (fillIn session r, announced r.rcfRuntimeVersion) := by
  refine (reads_decodeString h.service).bind ?_
  refine (reads_decodeInt _).bind ?_
  refine (reads_decodeString (sentSubInterface_length h)).bind ?_
  refine (reads_decodeInt _).bind ?_
  refine (reads_decodeInt _).bind ?_
  refine (reads_decodeBool _).bind ?_
  refine (reads_decodeBool _).bind ?_
  refine (reads_decodeVersionFields r session.pingBackIntervalMs).bind_nil ?_
  refine Decoder.Reads.pure_of ?_
  rw [subInterface_received]
  rfl

theorem reads_decodeHeader {r : MethodInvocationRequest} (h : Sendable r)
    (session : MethodInvocationRequest) :
    (decodeHeader session).Reads (headerBytes r)
      (some (fillIn session r, announced r.rcfRuntimeVersion)) := by
  have hversion : ¬ requestHeaderVersion r.rcfRuntimeVersion > 3 := by
    rcases version_cases r.rcfRuntimeVersion with ⟨-, hv⟩ | ⟨-, -, hv⟩ | ⟨-, -, hv⟩
    all_goals
      rw [hv]
      decide
  refine (reads_decodeInt _).bind ?_
  refine (Decoder.Reads.verify rfl _).nil_bind ?_
  refine (reads_decodeInt _).bind ?_
  rw [if_neg hversion]
  exact (reads_decodeFields h session).bind_nil (Decoder.Reads.pure _)

theorem sound_decodeVersionFields (version pingBackIntervalMs : Int32) :
    (decodeVersionFields version pingBackIntervalMs).Sound := by
  unfold decodeVersionFields
  split
  · exact sound_decodeInt.bind fun _ => sound_decodeBool.bind fun _ => Decoder.Sound.pure _
  · split
    · exact sound_decodeInt.bind fun _ => sound_decodeBool.bind fun _ =>
        sound_decodeInt.bind fun _ => Decoder.Sound.pure _
    · exact Decoder.Sound.pure _

theorem sound_decodeHeader (session : MethodInvocationRequest) : (decodeHeader session).Sound := by
  refine sound_decodeInt.bind fun _ => (Decoder.Sound.verify _ _).bind fun _ =>
    sound_decodeInt.bind fun messageVersion => ?_
  split
  · exact Decoder.Sound.pure _
  · refine Decoder.Sound.bind ?_ fun _ => Decoder.Sound.pure _
    exact sound_decodeString.bind fun _ => sound_decodeInt.bind fun _ =>
      sound_decodeString.bind fun _ => sound_decodeInt.bind fun _ =>
        sound_decodeInt.bind fun _ => sound_decodeBool.bind fun _ =>
          sound_decodeBool.bind fun _ => (sound_decodeVersionFields _ _).bind fun _ =>
            Decoder.Sound.pure _

end SpeechBridge.Rcf
