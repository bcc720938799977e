import SpeechBridge.Rcf.Encoding
import SpeechBridge.Rcf.ByteBuffer

set_option autoImplicit false

/-! # The two sides of a serialization protocol

`SerializationProtocolIn` and `SerializationProtocolOut` of
`src/RCF/src/RCF/SerializationProtocol.cpp`. Archives write to a stream whose first bytes are a
margin for the headers of the message. Byte buffers are not copied into the stream: `insert` notes
them with the position of the stream. `extractByteBuffers` cuts the stream at these positions.
`Holds.extract`: the message is what was written and inserted, in this order, and its first buffer
has the margin.

`reset` asserts that it knows the protocols, the old and the new one. It forgets the stream, but
not the inserted buffers; the statements ask for none (`SerializationProtocolOut.Ready`).
-/

namespace SpeechBridge.Rcf

/-! ## Protocols -/

def SfBinary : Int32 := 1
def SfText : Int32 := 2
def BsBinary : Int32 := 3
def BsText : Int32 := 4
def BsXml : Int32 := 5

/-- The protocols that a stream can be bound to. -/
def Bindable (protocol : Int32) : Prop :=
  protocol = SfBinary ∨ protocol = SfText ∨ protocol = BsBinary ∨ protocol = BsText ∨
    protocol = BsXml

instance (protocol : Int32) : Decidable (Bindable protocol) := by
  unfold Bindable
  infer_instance

/-- `bindProtocol`, and just so `unbindProtocol`: a switch over the protocols with an assertion at
the end. -/
def bindProtocol (protocol : Int32) : Except Failure Unit :=
  if Bindable protocol then .ok () else .error .assertion

theorem bindProtocol_eq {protocol : Int32} (h : Bindable protocol) :
    bindProtocol protocol = .ok () := if_pos h

/-! ## The input -/

structure SerializationProtocolIn where
  protocol : Int32
  byteBuffer : List UInt8

namespace SerializationProtocolIn

/-- The constructor. -/
def initial : SerializationProtocolIn := ⟨SfBinary, []⟩

def reset (spIn : SerializationProtocolIn) (data : List UInt8) (protocol : Int32) :
    Except Failure SerializationProtocolIn := do
  bindProtocol spIn.protocol
  bindProtocol protocol
  .ok ⟨protocol, data⟩

theorem reset_eq {spIn : SerializationProtocolIn} (h : Bindable spIn.protocol)
    (data : List UInt8) {protocol : Int32} (hprotocol : Bindable protocol) :
    spIn.reset data protocol = .ok ⟨protocol, data⟩ := by
  unfold reset
  rw [bindProtocol_eq h, bindProtocol_eq hprotocol]
  rfl

end SerializationProtocolIn

/-! ## The output -/

structure SerializationProtocolOut where
  protocol : Int32
  margin : Nat
  os : List UInt8
  byteBuffers : List (Nat × ByteBuffer)

/-- What is put into the output: bytes that an archive writes, or a byte buffer. -/
inductive Output
  | write (bytes : List UInt8)
  | insert (byteBuffer : ByteBuffer)

def Output.bytes : Output → List UInt8
  | .write bytes => bytes
  | .insert byteBuffer => byteBuffer.bytes

namespace SerializationProtocolOut

/-- The constructor. -/
def initial : SerializationProtocolOut := ⟨SfBinary, 0, [], []⟩

/-- The byte that fills the margin. -/
def percent : UInt8 := 37

/-- The stream starts again, with a margin and some bytes. -/
def restart (out : SerializationProtocolOut) (protocol : Int32) (margin : Nat)
    (byteBuffer : List UInt8) : SerializationProtocolOut :=
  { out with
    protocol := if protocol = 0 then out.protocol else protocol
    margin := margin
    os := List.replicate margin percent ++ byteBuffer }

def reset (out : SerializationProtocolOut) (protocol : Int32) (margin : Nat)
    (byteBuffer : List UInt8) : Except Failure SerializationProtocolOut := do
  bindProtocol out.protocol
  let out := out.restart protocol margin byteBuffer
  bindProtocol out.protocol
  .ok out

def write (out : SerializationProtocolOut) (bytes : List UInt8) : SerializationProtocolOut :=
  { out with os := out.os ++ bytes }

def insert (out : SerializationProtocolOut) (byteBuffer : ByteBuffer) :
    SerializationProtocolOut :=
  { out with byteBuffers := out.byteBuffers ++ [(out.os.length, byteBuffer)] }

def put (out : SerializationProtocolOut) : Output → SerializationProtocolOut
  | .write bytes => out.write bytes
  | .insert byteBuffer => out.insert byteBuffer

/-- The bytes of the stream between two positions, if there are any. -/
def chunk (margin : Nat) (os : List UInt8) (offsetPrev offset : Nat) : List ByteBuffer :=
  if 0 < offset - offsetPrev then
    if offsetPrev = 0 then [⟨os.take margin, (os.drop margin).take (offset - margin)⟩]
    else [.ofBytes ((os.drop offsetPrev).take (offset - offsetPrev))]
  else []

/-- The loop of `extractByteBuffers`. -/
def extractLoop (margin : Nat) (os : List UInt8) :
    Nat → List (Nat × ByteBuffer) → Except Failure (List ByteBuffer)
  | offsetPrev, [] => .ok (chunk margin os offsetPrev os.length)
  | offsetPrev, (offset, byteBuffer) :: byteBuffers =>
      if offsetPrev ≤ offset ∧ offset ≤ os.length then do
        let rest ← extractLoop margin os offset byteBuffers
        .ok (chunk margin os offsetPrev offset ++ byteBuffer :: rest)
      else .error .assertion

def extractByteBuffers (out : SerializationProtocolOut) :
    Except Failure (List ByteBuffer × SerializationProtocolOut) := do
  let byteBuffers ← extractLoop out.margin out.os 0 out.byteBuffers
  .ok (byteBuffers, { out with byteBuffers := [] })

/-- The output between two messages. -/
structure Ready (out : SerializationProtocolOut) : Prop where
  protocol : Bindable out.protocol
  extracted : out.byteBuffers = []

/-- The protocol 0 stands for the one that the output has. -/
theorem Ready.restart_protocol {out : SerializationProtocolOut} (h : out.Ready)
    {protocol : Int32} (hprotocol : Bindable protocol) (margin : Nat) (byteBuffer : List UInt8) :
    Bindable (out.restart protocol margin byteBuffer).protocol := by
  unfold restart
  show Bindable (if protocol = 0 then out.protocol else protocol)
  split
  · exact h.protocol
  · exact hprotocol

theorem Ready.reset_eq {out : SerializationProtocolOut} (h : out.Ready) {protocol : Int32}
    (hprotocol : Bindable protocol) (margin : Nat) (byteBuffer : List UInt8) :
    out.reset protocol margin byteBuffer = .ok (out.restart protocol margin byteBuffer) := by
  unfold reset
  rw [bindProtocol_eq h.protocol]
  show (do
    bindProtocol (out.restart protocol margin byteBuffer).protocol
    Except.ok (out.restart protocol margin byteBuffer)) = _
  rw [bindProtocol_eq (h.restart_protocol hprotocol margin byteBuffer)]
  rfl

/-! ## Positions in the stream -/

/-- The positions ascend from `pos` to `len`. -/
def Ascending (len : Nat) : Nat → List (Nat × ByteBuffer) → Prop
  | pos, [] => pos ≤ len
  | pos, (offset, _) :: byteBuffers => pos ≤ offset ∧ Ascending len offset byteBuffers

/-- The stream from `pos` on, with the buffers inserted. -/
def interleave (os : List UInt8) : Nat → List (Nat × ByteBuffer) → List UInt8
  | pos, [] => os.drop pos
  | pos, (offset, byteBuffer) :: byteBuffers =>
      (os.drop pos).take (offset - pos) ++ (byteBuffer.bytes ++ interleave os offset byteBuffers)

section

variable {len pos : Nat} {byteBuffers : List (Nat × ByteBuffer)} {os : List UInt8}

theorem Ascending.le (h : Ascending len pos byteBuffers) : pos ≤ len := by
  induction byteBuffers generalizing pos with
  | nil => exact h
  | cons p byteBuffers ih => exact h.1.trans (ih h.2)

theorem Ascending.mono {len' : Nat} (h : Ascending len pos byteBuffers) (hle : len ≤ len') :
    Ascending len' pos byteBuffers := by
  induction byteBuffers generalizing pos with
  | nil => exact Nat.le_trans h hle
  | cons p byteBuffers ih => exact ⟨h.1, ih h.2⟩

theorem Ascending.concat (h : Ascending len pos byteBuffers) (b : ByteBuffer) :
    Ascending len pos (byteBuffers ++ [(len, b)]) := by
  induction byteBuffers generalizing pos with
  | nil => exact ⟨h, Nat.le_refl len⟩
  | cons p byteBuffers ih => exact ⟨h.1, ih h.2⟩

/-- Writing to the end of the stream. -/
theorem interleave_write (h : Ascending os.length pos byteBuffers) (x : List UInt8) :
    interleave (os ++ x) pos byteBuffers = interleave os pos byteBuffers ++ x := by
  induction byteBuffers generalizing pos with
  | nil => exact List.drop_append_of_le_length h
  | cons p byteBuffers ih =>
      obtain ⟨offset, b⟩ := p
      have hpos : pos ≤ offset := h.1
      have hlen : offset ≤ os.length := Ascending.le h.2
      have htake : ((os ++ x).drop pos).take (offset - pos)
          = (os.drop pos).take (offset - pos) := by
        rw [List.drop_append_of_le_length (by omega),
          List.take_append_of_le_length (by rw [List.length_drop]; omega)]
      calc interleave (os ++ x) pos ((offset, b) :: byteBuffers)
          = ((os ++ x).drop pos).take (offset - pos)
              ++ (b.bytes ++ interleave (os ++ x) offset byteBuffers) := rfl
        _ = (os.drop pos).take (offset - pos)
              ++ (b.bytes ++ (interleave os offset byteBuffers ++ x)) := by rw [htake, ih h.2]
        _ = interleave os pos ((offset, b) :: byteBuffers) ++ x := by
            rw [interleave, List.append_assoc, List.append_assoc]

/-- Inserting at the end of the stream. -/
theorem interleave_insert (h : Ascending os.length pos byteBuffers) (b : ByteBuffer) :
    interleave os pos (byteBuffers ++ [(os.length, b)])
      = interleave os pos byteBuffers ++ b.bytes := by
  induction byteBuffers generalizing pos with
  | nil =>
      have htake : (os.drop pos).take (os.length - pos) = os.drop pos :=
        List.take_of_length_le (by rw [List.length_drop])
      show (os.drop pos).take (os.length - pos) ++ (b.bytes ++ os.drop os.length) = _
      rw [htake, List.drop_length, List.append_nil]
      rfl
  | cons p byteBuffers ih =>
      rw [List.cons_append, interleave, ih h.2, interleave, List.append_assoc, List.append_assoc]

end

/-! ## What is extracted -/

section

variable {margin : Nat} {os : List UInt8}

/-- A chunk behind the margin. -/
theorem messageBytes_chunk {offsetPrev : Nat} (h : 0 < offsetPrev ∨ margin = 0) (offset : Nat) :
    messageBytes (chunk margin os offsetPrev offset)
      = (os.drop offsetPrev).take (offset - offsetPrev) := by
  unfold chunk
  by_cases hlt : 0 < offset - offsetPrev
  · rw [if_pos hlt]
    by_cases h0 : offsetPrev = 0
    · have hm : margin = 0 := by omega
      rw [if_pos h0, h0, hm, messageBytes_cons, messageBytes_nil, List.append_nil]
    · rw [if_neg h0, messageBytes_cons, messageBytes_nil, List.append_nil]
      rfl
  · have hzero : offset - offsetPrev = 0 := by omega
    rw [if_neg hlt, hzero, List.take_zero, messageBytes_nil]

/-- The first chunk: the margin is cut off. -/
theorem chunk_zero {offset : Nat} (hmargin : 0 < margin) (h : margin ≤ offset) :
    chunk margin os 0 offset = [⟨os.take margin, (os.drop margin).take (offset - margin)⟩] := by
  unfold chunk
  rw [if_pos (by omega), if_pos rfl]

theorem extractLoop_behind {offsetPrev : Nat} (h : 0 < offsetPrev ∨ margin = 0)
    {byteBuffers : List (Nat × ByteBuffer)} (hasc : Ascending os.length offsetPrev byteBuffers) :
    ∃ message, extractLoop margin os offsetPrev byteBuffers = .ok message ∧
      messageBytes message = interleave os offsetPrev byteBuffers := by
  induction byteBuffers generalizing offsetPrev with
  | nil =>
      refine ⟨_, rfl, ?_⟩
      rw [messageBytes_chunk h, interleave]
      exact List.take_of_length_le (by rw [List.length_drop])
  | cons p byteBuffers ih =>
      obtain ⟨offset, b⟩ := p
      have hle : offsetPrev ≤ offset := hasc.1
      have hoffset : 0 < offset ∨ margin = 0 := by omega
      obtain ⟨rest, hrest, hbytes⟩ := ih hoffset hasc.2
      refine ⟨chunk margin os offsetPrev offset ++ b :: rest, ?_, ?_⟩
      · rw [extractLoop, if_pos ⟨hle, Ascending.le hasc.2⟩, hrest]
        rfl
      · rw [messageBytes, List.flatMap_append]
        show messageBytes (chunk margin os offsetPrev offset) ++ (b.bytes ++ messageBytes rest) = _
        rw [messageBytes_chunk h, hbytes, interleave]

/-- From the front of a stream with a margin. -/
theorem extractLoop_front (hmargin : 0 < margin) {byteBuffers : List (Nat × ByteBuffer)}
    (hasc : Ascending os.length margin byteBuffers) :
    ∃ front rest, extractLoop margin os 0 byteBuffers = .ok (front :: rest) ∧
      messageBytes (front :: rest) = interleave os margin byteBuffers ∧
      front.margin = os.take margin ∧
      front.bytes = (os.drop margin).take
        ((byteBuffers.head?.map Prod.fst).getD os.length - margin) := by
  cases byteBuffers with
  | nil =>
      refine ⟨⟨os.take margin, (os.drop margin).take (os.length - margin)⟩, [], ?_, ?_, rfl, rfl⟩
      · rw [extractLoop, chunk_zero hmargin hasc]
      · rw [messageBytes_cons, messageBytes_nil, List.append_nil, interleave]
        exact List.take_of_length_le (by rw [List.length_drop])
  | cons p byteBuffers =>
      obtain ⟨offset, b⟩ := p
      have hle : margin ≤ offset := hasc.1
      have hoffset : 0 < offset ∨ margin = 0 := by omega
      obtain ⟨rest, hrest, hbytes⟩ := extractLoop_behind hoffset hasc.2
      refine ⟨⟨os.take margin, (os.drop margin).take (offset - margin)⟩, b :: rest, ?_, ?_,
        rfl, rfl⟩
      · rw [extractLoop, if_pos ⟨Nat.zero_le _, Ascending.le hasc.2⟩, hrest,
          chunk_zero hmargin hle]
        rfl
      · rw [messageBytes_cons, messageBytes_cons, hbytes, interleave]

end

/-! ## Runs -/

/-- What a run of writes and insertions leaves in the output. -/
structure Holds (out : SerializationProtocolOut) (margin : Nat) (header body : List UInt8) :
    Prop where
  margin_eq : out.margin = margin
  margin_bytes : out.os.take margin = List.replicate margin percent
  ascending : Ascending out.os.length margin out.byteBuffers
  bytes : interleave out.os margin out.byteBuffers = header ++ body
  /-- The header stands at the front, before the first insertion. -/
  header_first : header <+: (out.os.drop margin).take
    ((out.byteBuffers.head?.map Prod.fst).getD out.os.length - margin)

theorem holds_restart {out : SerializationProtocolOut} (hout : out.Ready) (protocol : Int32)
    (margin : Nat) (header : List UInt8) :
    (out.restart protocol margin header).Holds margin header [] := by
  have hlen : (List.replicate margin percent).length = margin := List.length_replicate
  have hos : (out.restart protocol margin header).os = List.replicate margin percent ++ header :=
    rfl
  have hbuf : (out.restart protocol margin header).byteBuffers = [] := hout.extracted
  refine ⟨rfl, ?_, ?_, ?_, ?_⟩
  · rw [hos]
    exact List.take_left' hlen
  · rw [hbuf, hos]
    show margin ≤ _
    rw [List.length_append, hlen]
    omega
  · rw [hbuf, hos, List.append_nil]
    exact List.drop_left' hlen
  · rw [hbuf, hos, List.drop_left' hlen]
    show header <+: header.take (_ - margin)
    rw [List.take_of_length_le]
    show header.length ≤ (List.replicate margin percent ++ header).length - margin
    rw [List.length_append, hlen]
    omega

theorem Holds.put {out : SerializationProtocolOut} {margin : Nat} {header body : List UInt8}
    (h : out.Holds margin header body) (o : Output) :
    (out.put o).Holds margin header (body ++ o.bytes) := by
  have hle : margin ≤ out.os.length := h.ascending.le
  cases o with
  | write x =>
      refine ⟨h.margin_eq, ?_, ?_, ?_, ?_⟩
      · show (out.os ++ x).take margin = _
        rw [List.take_append_of_le_length hle, h.margin_bytes]
      · show Ascending (out.os ++ x).length margin out.byteBuffers
        exact h.ascending.mono (by rw [List.length_append]; omega)
      · show interleave (out.os ++ x) margin out.byteBuffers = _
        rw [interleave_write h.ascending, h.bytes, List.append_assoc]
        rfl
      · refine h.header_first.trans ?_
        show _ <+: ((out.os ++ x).drop margin).take
          ((out.byteBuffers.head?.map Prod.fst).getD (out.os ++ x).length - margin)
        rw [List.drop_append_of_le_length hle]
        cases hbuf : out.byteBuffers with
        | nil =>
            show (out.os.drop margin).take (out.os.length - margin) <+:
              (out.os.drop margin ++ x).take ((out.os ++ x).length - margin)
            rw [List.take_of_length_le (by rw [List.length_drop]),
              List.take_of_length_le (by simp only [List.length_append, List.length_drop]; omega)]
            exact List.prefix_append _ x
        | cons p byteBuffers =>
            exact (List.prefix_append _ x).take _
  | insert b =>
      refine ⟨h.margin_eq, h.margin_bytes, h.ascending.concat b, ?_, ?_⟩
      · show interleave out.os margin (out.byteBuffers ++ [(out.os.length, b)]) = _
        rw [interleave_insert h.ascending, h.bytes, List.append_assoc]
        rfl
      · have hfirst := h.header_first
        show header <+: (out.os.drop margin).take
          (((out.byteBuffers ++ [(out.os.length, b)]).head?.map Prod.fst).getD out.os.length
            - margin)
        cases hbuf : out.byteBuffers with
        | nil =>
            rw [hbuf] at hfirst
            exact hfirst
        | cons p byteBuffers =>
            rw [hbuf] at hfirst
            exact hfirst

/-- Nothing that is put into the output changes the protocol. -/
theorem foldl_put_protocol (outputs : List Output) (out : SerializationProtocolOut) :
    (outputs.foldl SerializationProtocolOut.put out).protocol = out.protocol := by
  induction outputs generalizing out with
  | nil => rfl
  | cons o outputs ih =>
      rw [List.foldl_cons, ih]
      cases o <;> rfl

theorem Holds.run {out : SerializationProtocolOut} {margin : Nat} {header body : List UInt8}
    (h : out.Holds margin header body) (outputs : List Output) :
    (outputs.foldl SerializationProtocolOut.put out).Holds margin header
      (body ++ outputs.flatMap Output.bytes) := by
  induction outputs generalizing out body with
  | nil => simpa using h
  | cons o outputs ih =>
      have hrest := ih (h.put o)
      rwa [List.append_assoc] at hrest

/-- The message that a run of writes and insertions makes. -/
theorem Holds.extract {out : SerializationProtocolOut} {margin : Nat} {header body : List UInt8}
    (h : out.Holds margin header body) (hmargin : 0 < margin) :
    ∃ front rest, out.extractByteBuffers
        = .ok (front :: rest, { out with byteBuffers := [] }) ∧
      messageBytes (front :: rest) = header ++ body ∧
      front.margin = List.replicate margin percent ∧ header <+: front.bytes := by
  obtain ⟨front, rest, hrun, hbytes, hm, hf⟩ := extractLoop_front hmargin h.ascending
  refine ⟨front, rest, ?_, by rw [hbytes, h.bytes], by rw [hm, h.margin_bytes], ?_⟩
  · unfold extractByteBuffers
    rw [h.margin_eq, hrun]
    rfl
  · rw [hf]
    exact h.header_first

end SerializationProtocolOut

end SpeechBridge.Rcf
