import SpeechBridge.Basic.Framing
import SpeechBridge.Rcf.Messages

set_option autoImplicit false

/-! # Transports

A message travels over a stream connection behind its length, in pieces whose sizes nobody
controls. The server's side of a connection is `AsioSessionState` of
`src/RCF/src/RCF/AsioServerTransport.cpp`, the client's side is `ConnectionOrientedClientTransport`.
They do the same in different ways: the server counts the bytes that remain and writes the first
byte buffer of what is left, the client counts the bytes that are done and writes all of it up to
its maximal send size. Both are readers and writers in the sense of `Framing`, so
`Framing.Pipe.run_delivers` holds of both directions.

The client reads the length and the message into one buffer, and takes the read of an empty
message for the end of the connection: it accepts nonempty messages only.
-/

namespace SpeechBridge.Rcf

open Framing (frame frame_length Arrival Reader)

/-- `vector::resize`. -/
def resize (readBuffer : List UInt8) (n : Nat) : List UInt8 :=
  readBuffer.take n ++ List.replicate (n - readBuffer.length) 0

/-- The bytes that have been read, behind the bytes that were read before. -/
def store (readBuffer : List UInt8) (pos : Nat) (bytes : List UInt8) : List UInt8 :=
  (Filling.overwrite bytes ⟨readBuffer, pos⟩).buf

/-- The default of the length of a slice, `-1`. -/
def noLength : Nat := 2 ^ 64 - 1

theorem resize_length (readBuffer : List UInt8) (n : Nat) : (resize readBuffer n).length = n := by
  rw [resize, List.length_append, List.length_take, List.length_replicate]
  omega

theorem resize_take {readBuffer : List UInt8} {k n : Nat} (hk : k ≤ readBuffer.length)
    (hn : k ≤ n) : (resize readBuffer n).take k = readBuffer.take k := by
  have hlen : k ≤ (readBuffer.take n).length := by
    rw [List.length_take]
    omega
  rw [resize, List.take_append_of_le_length hlen, List.take_take, Nat.min_eq_left hn]

section

variable {readBuffer bytes : List UInt8} {pos : Nat}

theorem store_length (h : pos + bytes.length ≤ readBuffer.length) :
    (store readBuffer pos bytes).length = readBuffer.length := Filling.overwrite_length h

theorem store_take (h : pos + bytes.length ≤ readBuffer.length) :
    (store readBuffer pos bytes).take (pos + bytes.length) = readBuffer.take pos ++ bytes :=
  Filling.overwrite_written (s := ⟨readBuffer, pos⟩) h

/-- What was in front of the position stays. -/
theorem store_take_front {k : Nat} (h : pos + bytes.length ≤ readBuffer.length) (hk : k ≤ pos) :
    (store readBuffer pos bytes).take k = readBuffer.take k := by
  have hpos : k ≤ (readBuffer.take pos).length := by
    rw [List.length_take]
    omega
  calc (store readBuffer pos bytes).take k
      = ((store readBuffer pos bytes).take (pos + bytes.length)).take k := by
        rw [List.take_take, Nat.min_eq_left (by omega)]
    _ = (readBuffer.take pos).take k := by
        rw [store_take h, List.take_append_of_le_length hpos]
    _ = readBuffer.take k := by rw [List.take_take, Nat.min_eq_left hk]

end

/-- The length of a message in front of its first buffer, in the left margin: the start of
`AsioSessionState::postWrite` and of `ConnectionOrientedClientTransport::send`. -/
def prependLength : List ByteBuffer → Option (List ByteBuffer)
  | [] => none
  | byteBuffer :: byteBuffers =>
      (byteBuffer.prepend 4 (Filling.copy
        (LittleEndian.bytes 4 (lengthByteBuffers (byteBuffer :: byteBuffers))))).map
        (· :: byteBuffers)

/-- A message that has room for its length, and whose length is one. -/
def Framable (byteBuffers : List ByteBuffer) : Prop :=
  4 ≤ frontMargin byteBuffers ∧ lengthByteBuffers byteBuffers < 2 ^ 32

instance (byteBuffers : List ByteBuffer) : Decidable (Framable byteBuffers) :=
  inferInstanceAs (Decidable (_ ∧ _))

theorem prependLength_eq {byteBuffers : List ByteBuffer} (h : Framable byteBuffers) :
    ∃ framed, prependLength byteBuffers = some framed ∧
      messageBytes framed = frame (messageBytes byteBuffers) := by
  obtain ⟨hmargin, -⟩ := h
  cases byteBuffers with
  | nil => exact absurd hmargin (by decide)
  | cons byteBuffer byteBuffers =>
      have hprepend := ByteBuffer.prepend_eq (b := byteBuffer)
        (Filling.Stores.copy
          (LittleEndian.bytes 4 (lengthByteBuffers (byteBuffer :: byteBuffers))))
        (by rw [LittleEndian.bytes_length]; exact hmargin)
      rw [LittleEndian.bytes_length] at hprepend
      refine ⟨_, by rw [prependLength, hprepend, Option.map_some], ?_⟩
      rw [messageBytes_cons, frame, lengthByteBuffers_eq, messageBytes_cons, List.append_assoc]

/-! ## Writers -/

/-- While something is left, the first buffer of a slice is not empty. -/
theorem forEachLoop_head {offset pos0 remaining : Nat} {byteBuffers : List ByteBuffer}
    (h : pos0 ≤ offset) (hoffset : offset < pos0 + (messageBytes byteBuffers).length)
    (hremaining : 0 < remaining) :
    ∃ b bs, forEachLoop offset pos0 remaining byteBuffers = b :: bs ∧ b.bytes ≠ [] := by
  induction byteBuffers generalizing pos0 with
  | nil =>
      simp only [messageBytes_nil, List.length_nil] at hoffset
      omega
  | cons b byteBuffers ih =>
      rw [messageBytes_cons, List.length_append] at hoffset
      rw [forEachLoop]
      unfold ByteBuffer.getLength
      by_cases h₁ : pos0 + b.bytes.length ≤ offset
      · simp only [if_pos h₁]
        exact ih h₁ (by omega)
      · have h₂ : pos0 ≤ offset ∧ offset < pos0 + b.bytes.length := by omega
        simp only [if_neg h₁, if_pos h₂]
        refine ⟨_, _, rfl, ?_⟩
        show (b.bytes.drop (offset - pos0)).take _ ≠ []
        apply List.ne_nil_of_length_pos
        rw [List.length_take, List.length_drop]
        omega

/-- The server's side while it writes. -/
structure SessionWriter where
  writeByteBuffers : List ByteBuffer
  writeBufferRemaining : Nat
  deriving DecidableEq, Repr

namespace SessionWriter

/-- `AsioSessionState::postWrite`. -/
def postWrite (byteBuffers : List ByteBuffer) : Option SessionWriter :=
  (prependLength byteBuffers).map fun framed => ⟨framed, lengthByteBuffers framed⟩

/-- The first of the sliced buffers: `invokeAsyncWrite` and `write`. -/
def offered (w : SessionWriter) : List UInt8 :=
  (sliceByteBuffer w.writeByteBuffers
    (lengthByteBuffers w.writeByteBuffers - w.writeBufferRemaining) noLength).bytes

/-- The case `WritingData` of `AsioSessionState::onReadWrite`. -/
def onReadWrite (w : SessionWriter) (bytesTransferred : Nat) : SessionWriter :=
  { w with writeBufferRemaining := w.writeBufferRemaining - bytesTransferred }

def writer : Framing.Writer (List ByteBuffer) SessionWriter := ⟨postWrite, offered, onReadWrite⟩

/-- What remains fits into a slice. -/
structure Valid (w : SessionWriter) : Prop where
  remaining : w.writeBufferRemaining ≤ lengthByteBuffers w.writeByteBuffers
  short : lengthByteBuffers w.writeByteBuffers ≤ noLength

def rest (w : SessionWriter) : List UInt8 :=
  (messageBytes w.writeByteBuffers).drop
    (lengthByteBuffers w.writeByteBuffers - w.writeBufferRemaining)

theorem rest_length {w : SessionWriter} (h : w.Valid) : w.rest.length = w.writeBufferRemaining := by
  have := h.remaining
  rw [rest, List.length_drop, ← lengthByteBuffers_eq]
  omega

/-- The slice is what remains. -/
theorem slice_eq {w : SessionWriter} (h : w.Valid) :
    messageBytes (sliceByteBuffers w.writeByteBuffers
      (lengthByteBuffers w.writeByteBuffers - w.writeBufferRemaining) noLength) = w.rest := by
  rw [messageBytes_slice]
  apply List.take_of_length_le
  show w.rest.length ≤ _
  rw [rest_length h]
  exact h.remaining.trans h.short

theorem offered_front {w : SessionWriter} (h : w.Valid) : w.offered <+: w.rest := by
  rw [← slice_eq h, offered, sliceByteBuffer]
  cases sliceByteBuffers w.writeByteBuffers
      (lengthByteBuffers w.writeByteBuffers - w.writeBufferRemaining) noLength with
  | nil => exact List.nil_prefix
  | cons b bs =>
      rw [messageBytes_cons]
      exact List.prefix_append _ _

theorem offered_ne {w : SessionWriter} (h : w.Valid) (hrest : w.rest ≠ []) : w.offered ≠ [] := by
  have hpos := List.length_pos_iff.mpr hrest
  rw [rest_length h] at hpos
  have hle := h.remaining
  obtain ⟨b, bs, hslice, hb⟩ : ∃ b bs, sliceByteBuffers w.writeByteBuffers
      (lengthByteBuffers w.writeByteBuffers - w.writeBufferRemaining) noLength = b :: bs ∧ _ :=
    forEachLoop_head (Nat.zero_le _) (by rw [← lengthByteBuffers_eq]; omega) (by decide)
  rw [offered, sliceByteBuffer, hslice]
  exact hb

theorem lawful : writer.Lawful messageBytes Framable Valid rest where
  start := by
    intro byteBuffers h
    obtain ⟨framed, hframed, hbytes⟩ := prependLength_eq h
    have hlen : lengthByteBuffers framed = 4 + lengthByteBuffers byteBuffers := by
      rw [lengthByteBuffers_eq, hbytes, frame_length, lengthByteBuffers_eq]
    refine ⟨⟨framed, lengthByteBuffers framed⟩, ?_, ⟨Nat.le_refl _, ?_⟩, ?_⟩
    · show (prependLength byteBuffers).map _ = _
      rw [hframed, Option.map_some]
    · have hshort := h.2
      show lengthByteBuffers framed ≤ 2 ^ 64 - 1
      omega
    · show (messageBytes framed).drop (lengthByteBuffers framed - lengthByteBuffers framed) = _
      rw [Nat.sub_self, List.drop_zero, hbytes]
  offer := offered_front
  offer_ne := offered_ne
  wrote := by
    intro w k h hk
    have hle := (offered_front h).length_le
    rw [rest_length h] at hle
    have hoffer : k ≤ w.offered.length := hk
    have hremaining := h.remaining
    refine ⟨⟨?_, h.short⟩, ?_⟩
    · show w.writeBufferRemaining - k ≤ lengthByteBuffers w.writeByteBuffers
      omega
    · show (messageBytes w.writeByteBuffers).drop
        (lengthByteBuffers w.writeByteBuffers - (w.writeBufferRemaining - k)) = _
      rw [rest, List.drop_drop]
      congr 1
      omega

end SessionWriter

/-- The client's side while it writes. -/
structure ClientWriter where
  byteBuffers : List ByteBuffer
  writeBufferPos : Nat
  deriving DecidableEq, Repr

namespace ClientWriter

/-- `ConnectionOrientedClientTransport::send`. -/
def send (data : List ByteBuffer) : Option ClientWriter :=
  (prependLength data).map fun framed => ⟨framed, 0⟩

/-- The case `Writing` of `transition`, and `timedSend`: the sliced buffers, up to the maximal
send size. -/
def offered (maxSendSize : Nat) (w : ClientWriter) : List UInt8 :=
  if w.writeBufferPos < lengthByteBuffers w.byteBuffers then
    let slicedByteBuffers := sliceByteBuffers w.byteBuffers w.writeBufferPos noLength
    messageBytes (sliceByteBuffers slicedByteBuffers 0
      (min (lengthByteBuffers slicedByteBuffers) maxSendSize))
  else []

/-- `onTransitionCompleted_` while writing. -/
def onTransitionCompleted (w : ClientWriter) (bytesTransferred : Nat) : ClientWriter :=
  { w with writeBufferPos := w.writeBufferPos + bytesTransferred }

def writer (maxSendSize : Nat) : Framing.Writer (List ByteBuffer) ClientWriter :=
  ⟨send, offered maxSendSize, onTransitionCompleted⟩

structure Valid (w : ClientWriter) : Prop where
  short : lengthByteBuffers w.byteBuffers ≤ noLength

def rest (w : ClientWriter) : List UInt8 := (messageBytes w.byteBuffers).drop w.writeBufferPos

/-- The bytes offered are the front of what is left. -/
theorem offered_eq {w : ClientWriter} (h : w.Valid) (maxSendSize : Nat) :
    w.offered maxSendSize = w.rest.take maxSendSize := by
  have hslice : messageBytes (sliceByteBuffers w.byteBuffers w.writeBufferPos noLength)
      = w.rest := by
    rw [messageBytes_slice]
    apply List.take_of_length_le
    have hshort := h.short
    rw [lengthByteBuffers_eq] at hshort
    rw [List.length_drop]
    omega
  unfold offered
  by_cases hpos : w.writeBufferPos < lengthByteBuffers w.byteBuffers
  · rw [if_pos hpos, messageBytes_slice, List.drop_zero, lengthByteBuffers_eq, hslice,
      List.take_eq_take_iff]
    omega
  · rw [lengthByteBuffers_eq] at hpos
    have hnil : w.rest = [] := List.drop_eq_nil_of_le (by omega)
    rw [if_neg (by rw [lengthByteBuffers_eq]; exact hpos), hnil, List.take_nil]

theorem lawful {maxSendSize : Nat} (hmax : 0 < maxSendSize) :
    (writer maxSendSize).Lawful messageBytes Framable Valid rest where
  start := by
    intro byteBuffers h
    obtain ⟨framed, hframed, hbytes⟩ := prependLength_eq h
    have hlen : lengthByteBuffers framed = 4 + lengthByteBuffers byteBuffers := by
      rw [lengthByteBuffers_eq, hbytes, frame_length, lengthByteBuffers_eq]
    refine ⟨⟨framed, 0⟩, ?_, ⟨?_⟩, hbytes⟩
    · show (prependLength byteBuffers).map _ = _
      rw [hframed, Option.map_some]
    · have hshort := h.2
      show lengthByteBuffers framed ≤ 2 ^ 64 - 1
      omega
  offer := by
    intro w h
    show w.offered maxSendSize <+: w.rest
    rw [offered_eq h]
    exact List.take_prefix _ _
  offer_ne := by
    intro w h hrest
    have hpos := List.length_pos_iff.mpr hrest
    show w.offered maxSendSize ≠ []
    rw [offered_eq h]
    apply List.ne_nil_of_length_pos
    rw [List.length_take]
    omega
  wrote := by
    intro w k h _
    refine ⟨⟨h.short⟩, ?_⟩
    show (messageBytes w.byteBuffers).drop (w.writeBufferPos + k) = _
    rw [rest, List.drop_drop]

end ClientWriter

/-! ## Readers -/

/-- A frame whose front is a length has this length. -/
theorem length_of_front {n : Nat} {m tail : List UInt8} (hn : n < 2 ^ 32)
    (hm : m.length < 2 ^ 32) (h : LittleEndian.bytes 4 n ++ tail <+: frame m) : n = m.length := by
  obtain ⟨behind, hbehind⟩ := h
  rw [List.append_assoc, frame] at hbehind
  have hword := (List.append_inj hbehind (by
    rw [LittleEndian.bytes_length, LittleEndian.bytes_length])).1
  have hvalue := congrArg LittleEndian.value hword
  rw [LittleEndian.value_bytes hn, LittleEndian.value_bytes hm] at hvalue
  exact hvalue

/-- The states of `AsioSessionState` while it reads. -/
inductive ReadState
  | ReadingDataCount
  | ReadingData
  deriving DecidableEq, Repr

/-- The server's side while it reads. -/
structure SessionReader where
  state : ReadState
  readBuffer : List UInt8
  readBufferRemaining : Nat
  deriving DecidableEq, Repr

namespace SessionReader

/-- `AsioSessionState::postRead`. -/
def postRead (readBuffer : List UInt8) : SessionReader :=
  ⟨.ReadingDataCount, resize readBuffer 4, 4⟩

/-- The cases `ReadingDataCount` and `ReadingData` of `AsioSessionState::onReadWrite`. A message that
is too long is answered with an error and the connection is closed; when a message is complete,
the session manager gets it, and the session reads the next one later. -/
def onReadWrite (maxMessageLength : Nat) (r : SessionReader) (bytes : List UInt8) :
    Arrival SessionReader :=
  let readBuffer := store r.readBuffer (r.readBuffer.length - r.readBufferRemaining) bytes
  let readBufferRemaining := r.readBufferRemaining - bytes.length
  if readBufferRemaining > 0 then .more ⟨r.state, readBuffer, readBufferRemaining⟩
  else
    match r.state with
    | .ReadingDataCount =>
        let packetLength := LittleEndian.value readBuffer
        if packetLength ≤ maxMessageLength then
          .more ⟨.ReadingData, resize readBuffer packetLength, packetLength⟩
        else .reject
    | .ReadingData => .message readBuffer (postRead readBuffer)

def reader (maxMessageLength : Nat) : Reader SessionReader :=
  ⟨postRead [], readBufferRemaining, onReadWrite maxMessageLength⟩

/-- The messages that the server accepts. -/
def Accepts (maxMessageLength : Nat) (m : List UInt8) : Prop :=
  m.length ≤ maxMessageLength ∧ m.length < 2 ^ 32

/-- Something remains, except of an empty message. -/
structure Valid (r : SessionReader) : Prop where
  remaining : r.readBufferRemaining ≤ r.readBuffer.length
  count : r.state = .ReadingDataCount → r.readBuffer.length = 4
  short : r.readBuffer.length < 2 ^ 32
  left : r.readBufferRemaining = 0 → r.state = .ReadingData ∧ r.readBuffer = []

/-- The part of a frame that has been read. -/
def held (r : SessionReader) : List UInt8 :=
  (match r.state with
    | .ReadingDataCount => []
    | .ReadingData => LittleEndian.bytes 4 r.readBuffer.length)
  ++ r.readBuffer.take (r.readBuffer.length - r.readBufferRemaining)

theorem postRead_valid (readBuffer : List UInt8) : (postRead readBuffer).Valid := by
  have hlen : (postRead readBuffer).readBuffer.length = 4 := resize_length readBuffer 4
  constructor
  · rw [hlen]
    exact Nat.le_refl 4
  · exact fun _ => hlen
  · rw [hlen]
    decide
  · intro h
    cases h

theorem postRead_held (readBuffer : List UInt8) : (postRead readBuffer).held = [] := by
  show (resize readBuffer 4).take ((resize readBuffer 4).length - 4) = []
  rw [resize_length, List.take_zero]

section

variable {maxMessageLength : Nat} {r : SessionReader} {c : List UInt8}

/-- While bytes remain, they are put behind what is held. -/
theorem store_held (h : r.Valid) (hc : c.length ≤ r.readBufferRemaining) :
    (store r.readBuffer (r.readBuffer.length - r.readBufferRemaining) c).length
        = r.readBuffer.length ∧
      (store r.readBuffer (r.readBuffer.length - r.readBufferRemaining) c).take
          (r.readBuffer.length - (r.readBufferRemaining - c.length))
        = r.readBuffer.take (r.readBuffer.length - r.readBufferRemaining) ++ c := by
  have hle := h.remaining
  have hfit : r.readBuffer.length - r.readBufferRemaining + c.length ≤ r.readBuffer.length := by
    omega
  have hpos : r.readBuffer.length - (r.readBufferRemaining - c.length)
      = r.readBuffer.length - r.readBufferRemaining + c.length := by omega
  refine ⟨store_length hfit, ?_⟩
  rw [hpos, store_take hfit]

/-- The whole buffer is there when nothing remains. -/
theorem store_complete (h : r.Valid) (hc : c.length ≤ r.readBufferRemaining)
    (hzero : r.readBufferRemaining - c.length = 0) :
    store r.readBuffer (r.readBuffer.length - r.readBufferRemaining) c
      = r.readBuffer.take (r.readBuffer.length - r.readBufferRemaining) ++ c := by
  obtain ⟨hlen, htake⟩ := store_held h hc
  rw [hzero, Nat.sub_zero] at htake
  rw [← htake]
  exact (List.take_of_length_le (Nat.le_of_eq hlen)).symm

theorem stays (h : r.Valid) {m : List UInt8} (hm : Accepts maxMessageLength m)
    (hheld : r.held <+: frame m) : r.held.length + r.readBufferRemaining ≤ (frame m).length := by
  have hle := h.remaining
  have hlen := h.short
  have hcount := h.count
  unfold held at hheld ⊢
  rw [Framing.frame_length]
  cases hs : r.state with
  | ReadingDataCount =>
      have hfour := hcount hs
      simp only [List.nil_append, List.length_take]
      omega
  | ReadingData =>
      rw [hs] at hheld
      have hsame := length_of_front hlen hm.2 hheld
      simp only [List.length_append, LittleEndian.bytes_length, List.length_take]
      omega

theorem more (h : r.Valid) (hfits : (reader maxMessageLength).Fits r c) {r' : SessionReader}
    (harrive : onReadWrite maxMessageLength r c = .more r') :
    r'.Valid ∧ r'.held = r.held ++ c ∧ c ≠ [] := by
  have hle : c.length ≤ r.readBufferRemaining := hfits.1
  obtain ⟨hlen, htake⟩ := store_held h hle
  unfold onReadWrite at harrive
  by_cases hpos : r.readBufferRemaining - c.length > 0
  · -- a part of what remained
    simp only [if_pos hpos] at harrive
    cases harrive
    refine ⟨⟨?_, ?_, ?_, ?_⟩, ?_, ?_⟩
    · show r.readBufferRemaining - c.length ≤ (store r.readBuffer _ c).length
      rw [hlen]
      have := h.remaining
      omega
    · intro hs
      show (store r.readBuffer _ c).length = 4
      rw [hlen, h.count hs]
    · show (store r.readBuffer _ c).length < 2 ^ 32
      rw [hlen]
      exact h.short
    · intro hzero
      have : r.readBufferRemaining - c.length = 0 := hzero
      omega
    · unfold held
      simp only [hlen, htake]
      rw [List.append_assoc]
    · intro hnil
      have hzero : r.readBufferRemaining = 0 := hfits.2 hnil
      omega
  · simp only [if_neg hpos] at harrive
    have hcomplete := store_complete h hle (by omega)
    cases hs : r.state with
    | ReadingDataCount =>
        -- the length is complete
        simp only [hs] at harrive
        have hfour := h.count hs
        generalize store r.readBuffer (r.readBuffer.length - r.readBufferRemaining) c = count
          at harrive hlen hcomplete
        have hvalue := LittleEndian.value_lt count
        rw [hlen, hfour] at hvalue
        by_cases hmax : LittleEndian.value count ≤ maxMessageLength
        · rw [if_pos hmax] at harrive
          cases harrive
          refine ⟨⟨?_, ?_, ?_, ?_⟩, ?_, ?_⟩
          · show LittleEndian.value count ≤ (resize count _).length
            rw [resize_length]
          · intro hdata
            cases hdata
          · show (resize count (LittleEndian.value count)).length < 2 ^ 32
            rw [resize_length]
            exact hvalue
          · intro hzero
            refine ⟨rfl, List.length_eq_zero_iff.mp ?_⟩
            show (resize count (LittleEndian.value count)).length = 0
            rw [resize_length]
            exact hzero
          · unfold held
            simp only [hs, resize_length, Nat.sub_self, List.take_zero, List.append_nil,
              List.nil_append]
            rw [← hcomplete, ← hfour, ← hlen, LittleEndian.bytes_value]
          · intro hnil
            have hzero : r.readBufferRemaining = 0 := hfits.2 hnil
            have hdata := (h.left hzero).1
            rw [hs] at hdata
            cases hdata
        · rw [if_neg hmax] at harrive
          cases harrive
    | ReadingData =>
        simp only [hs] at harrive
        cases harrive

theorem message (h : r.Valid) (hfits : (reader maxMessageLength).Fits r c) {m : List UInt8}
    {r' : SessionReader} (harrive : onReadWrite maxMessageLength r c = .message m r') :
    r.held ++ c = frame m ∧ r'.Valid ∧ r'.held = [] := by
  have hle : c.length ≤ r.readBufferRemaining := hfits.1
  obtain ⟨hlen, -⟩ := store_held h hle
  unfold onReadWrite at harrive
  by_cases hpos : r.readBufferRemaining - c.length > 0
  · simp only [if_pos hpos] at harrive
    cases harrive
  · simp only [if_neg hpos] at harrive
    have hcomplete := store_complete h hle (by omega)
    cases hs : r.state with
    | ReadingDataCount =>
        simp only [hs] at harrive
        split at harrive <;> cases harrive
    | ReadingData =>
        simp only [hs] at harrive
        cases harrive
        refine ⟨?_, postRead_valid _, postRead_held _⟩
        rw [frame, hlen, hcomplete, held, hs, List.append_assoc]

theorem accepts (h : r.Valid) (hfits : (reader maxMessageLength).Fits r c) {m : List UInt8}
    (hm : Accepts maxMessageLength m) (hheld : r.held ++ c <+: frame m) :
    onReadWrite maxMessageLength r c ≠ .reject := by
  have hle : c.length ≤ r.readBufferRemaining := hfits.1
  unfold onReadWrite
  by_cases hpos : r.readBufferRemaining - c.length > 0
  · simp only [if_pos hpos]
    intro hreject
    cases hreject
  · simp only [if_neg hpos]
    have hcomplete := store_complete h hle (by omega)
    obtain ⟨hlen, -⟩ := store_held h hle
    cases hs : r.state with
    | ReadingDataCount =>
        have hfour := h.count hs
        have hcount : r.held ++ c
            = store r.readBuffer (r.readBuffer.length - r.readBufferRemaining) c := by
          rw [held, hs, hcomplete, List.nil_append]
        rw [hcount] at hheld
        generalize store r.readBuffer (r.readBuffer.length - r.readBufferRemaining) c = count
          at hheld hlen
        have hvalue := LittleEndian.value_lt count
        rw [hlen, hfour] at hvalue
        have hbytes := LittleEndian.bytes_value count
        rw [hlen, hfour] at hbytes
        have hsame : LittleEndian.value count = m.length :=
          length_of_front hvalue hm.2 (by rw [hbytes, List.append_nil]; exact hheld)
        simp only [hsame, if_pos hm.1]
        intro hreject
        cases hreject
    | ReadingData =>
        intro hreject
        cases hreject

end

theorem lawful (maxMessageLength : Nat) :
    (reader maxMessageLength).Lawful (Accepts maxMessageLength) Valid held where
  short := fun h => h.2
  start_valid := postRead_valid []
  start_held := postRead_held []
  wants := by
    intro r h hheld
    by_contra hzero
    have hnone : r.readBufferRemaining = 0 := by
      have : ¬ 0 < r.readBufferRemaining := hzero
      omega
    rw [held, (h.left hnone).1] at hheld
    have := congrArg List.length hheld
    simp only [List.length_append, LittleEndian.bytes_length, List.length_nil] at this
    omega
  stays := fun h hm hheld => stays h hm hheld
  more := fun h hfits harrive => more h hfits harrive
  message := fun h hfits harrive => message h hfits harrive
  accepts := fun h hfits hm hheld => accepts h hfits hm hheld

end SessionReader

/-- The client's side while it reads. The length of a message stays in front of it. -/
structure ClientReader where
  readBuffer : List UInt8
  readBufferPos : Nat
  bytesRequested : Nat
  deriving DecidableEq, Repr

namespace ClientReader

/-- The case `Reading` of `ConnectionOrientedClientTransport::transition` at the position 0, where
`receive` starts. -/
def receive (readBuffer : List UInt8) : ClientReader := ⟨resize readBuffer 4, 0, 4⟩

/-- The case `Reading` of `ConnectionOrientedClientTransport::transition`. The size of the buffer is
computed in 32 bits; a buffer too small for the length cannot be split behind it. -/
def transition (maxMessageLength : Nat) (readBuffer : List UInt8) (readBufferPos : Nat) :
    Arrival ClientReader :=
  if readBufferPos = 0 then .more (receive readBuffer)
  else if readBufferPos < 4 then .more ⟨readBuffer, readBufferPos, 4 - readBufferPos⟩
  else if readBufferPos = 4 then
    let length := LittleEndian.value (readBuffer.take 4)
    if length ≤ maxMessageLength ∧ 4 ≤ (4 + length) % 2 ^ 32 then
      .more ⟨resize readBuffer ((4 + length) % 2 ^ 32), 4, length⟩
    else .reject
  else if readBufferPos < readBuffer.length then
    .more ⟨readBuffer, readBufferPos, readBuffer.length - readBufferPos⟩
  else .message (readBuffer.drop 4) (receive readBuffer)

/-- `onTimedRecvCompleted` and `onTransitionCompleted_` while reading: to read nothing is the
end of the connection. -/
def onTimedRecvCompleted (maxMessageLength : Nat) (r : ClientReader) (bytes : List UInt8) :
    Arrival ClientReader :=
  if bytes = [] then .reject
  else transition maxMessageLength (store r.readBuffer r.readBufferPos bytes)
    (r.readBufferPos + bytes.length)

def reader (maxMessageLength : Nat) : Reader ClientReader :=
  ⟨receive [], bytesRequested, onTimedRecvCompleted maxMessageLength⟩

/-- The messages that the client accepts. -/
def Accepts (maxMessageLength : Nat) (m : List UInt8) : Prop :=
  0 < m.length ∧ m.length ≤ maxMessageLength ∧ 4 + m.length < 2 ^ 32

/-- The client requests the rest of its buffer, and behind the length the buffer is as long as
the length says. -/
structure Valid (r : ClientReader) : Prop where
  requested : r.readBufferPos + r.bytesRequested = r.readBuffer.length
  count : r.readBufferPos < 4 → r.readBuffer.length = 4
  long : 4 ≤ r.readBuffer.length
  short : r.readBuffer.length < 2 ^ 32
  length : 4 ≤ r.readBufferPos →
    r.readBuffer.take 4 = LittleEndian.bytes 4 (r.readBuffer.length - 4)
  left : r.bytesRequested = 0 → r.readBufferPos = 4

/-- The part of a frame that has been read. -/
def held (r : ClientReader) : List UInt8 := r.readBuffer.take r.readBufferPos

theorem receive_valid (readBuffer : List UInt8) : (receive readBuffer).Valid := by
  have hlen : (receive readBuffer).readBuffer.length = 4 := resize_length readBuffer 4
  constructor
  · rw [hlen]
    rfl
  · exact fun _ => hlen
  · exact Nat.le_of_eq hlen.symm
  · rw [hlen]
    decide
  · intro h
    have : 4 ≤ 0 := h
    omega
  · intro h
    cases h

theorem receive_held (readBuffer : List UInt8) : (receive readBuffer).held = [] :=
  List.take_zero

section

variable {maxMessageLength : Nat} {r : ClientReader} {c : List UInt8}

/-- The length of the message is the length of the buffer behind it. -/
theorem length_eq (h : r.Valid) (hpos : 4 ≤ r.readBufferPos) {m : List UInt8}
    (hm : Accepts maxMessageLength m) (tail : List UInt8) (hheld : r.held ++ tail <+: frame m) :
    r.readBuffer.length = 4 + m.length := by
  have hlong := h.long
  have hshort := h.short
  have hsplit : r.held
      = LittleEndian.bytes 4 (r.readBuffer.length - 4)
        ++ (r.readBuffer.take r.readBufferPos).drop 4 := by
    rw [← h.length hpos, held]
    conv_lhs => rw [← List.take_append_drop 4 (r.readBuffer.take r.readBufferPos)]
    rw [List.take_take, Nat.min_eq_left hpos]
  rw [hsplit, List.append_assoc] at hheld
  have hm' := hm.2.2
  have := length_of_front (by omega) (by omega) hheld
  omega

theorem stays (h : r.Valid) {m : List UInt8} (hm : Accepts maxMessageLength m)
    (hheld : r.held <+: frame m) : r.held.length + r.bytesRequested ≤ (frame m).length := by
  have hreq := h.requested
  have hlen : r.held.length = r.readBufferPos := by
    rw [held, List.length_take]
    omega
  rw [Framing.frame_length, hlen]
  by_cases hpos : r.readBufferPos < 4
  · have := h.count hpos
    omega
  · have := length_eq h (by omega) hm [] (by rw [List.append_nil]; exact hheld)
    omega

/-- The bytes that arrive stand behind what is held. -/
theorem store_facts (h : r.Valid) (hc : c.length ≤ r.bytesRequested) :
    (store r.readBuffer r.readBufferPos c).length = r.readBuffer.length ∧
      (store r.readBuffer r.readBufferPos c).take (r.readBufferPos + c.length) = r.held ++ c := by
  have hreq := h.requested
  exact ⟨store_length (by omega), store_take (by omega)⟩

/-- The length stays in front. -/
theorem store_front (h : r.Valid) (hc : c.length ≤ r.bytesRequested) (hpos : 4 ≤ r.readBufferPos) :
    (store r.readBuffer r.readBufferPos c).take 4
      = LittleEndian.bytes 4 (r.readBuffer.length - 4) := by
  have hreq := h.requested
  rw [store_take_front (by omega) hpos]
  exact h.length hpos

theorem more (h : r.Valid) (hfits : (reader maxMessageLength).Fits r c) {r' : ClientReader}
    (harrive : onTimedRecvCompleted maxMessageLength r c = .more r') :
    r'.Valid ∧ r'.held = r.held ++ c ∧ c ≠ [] := by
  have hle : c.length ≤ r.bytesRequested := hfits.1
  obtain ⟨hlen, htake⟩ := store_facts h hle
  have hreq := h.requested
  have hlong := h.long
  have hshort := h.short
  unfold onTimedRecvCompleted transition at harrive
  by_cases hc : c = []
  · rw [if_pos hc] at harrive
    cases harrive
  have hne : 0 < c.length := List.length_pos_iff.mpr hc
  rw [if_neg hc, if_neg (by omega)] at harrive
  refine (fun ⟨h₁, h₂⟩ => ⟨h₁, h₂, hc⟩ : _ ∧ _ → _) ?_
  by_cases hcount : r.readBufferPos + c.length < 4
  · -- a part of the length
    rw [if_pos hcount] at harrive
    cases harrive
    have hfour := h.count (by omega)
    refine ⟨⟨?_, ?_, ?_, ?_, ?_, ?_⟩, htake⟩
    · show r.readBufferPos + c.length + (4 - (r.readBufferPos + c.length)) = _
      rw [hlen]
      omega
    · intro _
      show (store r.readBuffer r.readBufferPos c).length = 4
      rw [hlen, hfour]
    · show 4 ≤ (store r.readBuffer r.readBufferPos c).length
      omega
    · show (store r.readBuffer r.readBufferPos c).length < 2 ^ 32
      omega
    · intro hfar
      have : 4 ≤ r.readBufferPos + c.length := hfar
      omega
    · intro hzero
      have : 4 - (r.readBufferPos + c.length) = 0 := hzero
      omega
  rw [if_neg hcount] at harrive
  by_cases hfour : r.readBufferPos + c.length = 4
  · -- the length is complete
    rw [if_pos hfour] at harrive
    have hfull := h.count (by omega)
    rw [hfour] at htake
    generalize store r.readBuffer r.readBufferPos c = buffer at harrive hlen htake
    have hbuffer : buffer.take 4 = buffer := List.take_of_length_le (by omega)
    have hvalue := LittleEndian.value_lt buffer
    rw [hlen, hfull] at hvalue
    rw [hbuffer] at harrive
    by_cases hmax : LittleEndian.value buffer ≤ maxMessageLength
        ∧ 4 ≤ (4 + LittleEndian.value buffer) % 2 ^ 32
    · -- the size of the buffer has not wrapped around
      have hsize : (4 + LittleEndian.value buffer) % 2 ^ 32 = 4 + LittleEndian.value buffer := by
        have := hmax.2
        omega
      have hroom : 4 + LittleEndian.value buffer < 2 ^ 32 := by
        rw [← hsize]
        exact Nat.mod_lt _ (by decide)
      simp only [if_pos hmax] at harrive
      rw [hsize] at harrive
      cases harrive
      have hfront : (resize buffer (4 + LittleEndian.value buffer)).take 4 = buffer := by
        rw [resize_take (by omega) (by omega), hbuffer]
      refine ⟨⟨?_, ?_, ?_, ?_, ?_, fun _ => rfl⟩, ?_⟩
      · show 4 + LittleEndian.value buffer = (resize buffer _).length
        rw [resize_length]
      · intro hnear
        have : 4 < 4 := hnear
        omega
      · show 4 ≤ (resize buffer (4 + LittleEndian.value buffer)).length
        rw [resize_length]
        omega
      · show (resize buffer (4 + LittleEndian.value buffer)).length < 2 ^ 32
        rw [resize_length]
        exact hroom
      · intro _
        show (resize buffer (4 + LittleEndian.value buffer)).take 4
          = LittleEndian.bytes 4 ((resize buffer (4 + LittleEndian.value buffer)).length - 4)
        have hbytes := LittleEndian.bytes_value buffer
        rw [hlen, hfull] at hbytes
        rw [hfront, resize_length, Nat.add_sub_cancel_left, hbytes]
      · show (resize buffer (4 + LittleEndian.value buffer)).take 4 = _
        rw [hfront, ← hbuffer, htake]
    · simp only [if_neg hmax] at harrive
      cases harrive
  rw [if_neg hfour] at harrive
  by_cases hpart : r.readBufferPos + c.length < (store r.readBuffer r.readBufferPos c).length
  · -- a part of the message
    rw [if_pos hpart] at harrive
    cases harrive
    have hbehind : 4 ≤ r.readBufferPos := by
      by_contra hnear
      have := h.count (by omega)
      omega
    refine ⟨⟨?_, ?_, ?_, ?_, ?_, ?_⟩, htake⟩
    · show r.readBufferPos + c.length
        + ((store r.readBuffer r.readBufferPos c).length - (r.readBufferPos + c.length))
          = (store r.readBuffer r.readBufferPos c).length
      omega
    · intro hnear
      have : r.readBufferPos + c.length < 4 := hnear
      omega
    · show 4 ≤ (store r.readBuffer r.readBufferPos c).length
      omega
    · show (store r.readBuffer r.readBufferPos c).length < 2 ^ 32
      omega
    · intro _
      show (store r.readBuffer r.readBufferPos c).take 4 = LittleEndian.bytes 4
        ((store r.readBuffer r.readBufferPos c).length - 4)
      rw [hlen]
      exact store_front h hle hbehind
    · intro hzero
      have : (store r.readBuffer r.readBufferPos c).length - (r.readBufferPos + c.length) = 0 :=
        hzero
      omega
  · rw [if_neg hpart] at harrive
    cases harrive

theorem message (h : r.Valid) (hfits : (reader maxMessageLength).Fits r c) {m : List UInt8}
    {r' : ClientReader} (harrive : onTimedRecvCompleted maxMessageLength r c = .message m r') :
    r.held ++ c = frame m ∧ r'.Valid ∧ r'.held = [] := by
  have hle : c.length ≤ r.bytesRequested := hfits.1
  obtain ⟨hlen, htake⟩ := store_facts h hle
  have hreq := h.requested
  unfold onTimedRecvCompleted transition at harrive
  by_cases hc : c = []
  · rw [if_pos hc] at harrive
    cases harrive
  have hne : 0 < c.length := List.length_pos_iff.mpr hc
  rw [if_neg hc, if_neg (by omega)] at harrive
  by_cases hcount : r.readBufferPos + c.length < 4
  · rw [if_pos hcount] at harrive
    cases harrive
  rw [if_neg hcount] at harrive
  by_cases hfour : r.readBufferPos + c.length = 4
  · simp only [if_pos hfour] at harrive
    split at harrive <;> cases harrive
  rw [if_neg hfour] at harrive
  by_cases hpart : r.readBufferPos + c.length < (store r.readBuffer r.readBufferPos c).length
  · rw [if_pos hpart] at harrive
    cases harrive
  · -- the buffer is full
    rw [if_neg hpart] at harrive
    cases harrive
    have hbehind : 4 ≤ r.readBufferPos := by
      by_contra hnear
      have := h.count (by omega)
      omega
    refine ⟨?_, receive_valid _, receive_held _⟩
    rw [List.take_of_length_le (by omega)] at htake
    rw [frame, ← htake, List.length_drop, hlen, ← store_front h hle hbehind,
      List.take_append_drop]

theorem accepts (h : r.Valid) (hfits : (reader maxMessageLength).Fits r c) {m : List UInt8}
    (hm : Accepts maxMessageLength m) (hheld : r.held ++ c <+: frame m) :
    onTimedRecvCompleted maxMessageLength r c ≠ .reject := by
  have hle : c.length ≤ r.bytesRequested := hfits.1
  obtain ⟨hlen, htake⟩ := store_facts h hle
  have hreq := h.requested
  have hm' := hm.2.2
  have hc : c ≠ [] := by
    -- nothing is requested only when the length is complete and the message is empty
    intro hnil
    have hzero : r.bytesRequested = 0 := hfits.2 hnil
    have hfour := h.left hzero
    have hsame := length_eq h (by omega) hm c hheld
    have hpos := hm.1
    omega
  have hne : 0 < c.length := List.length_pos_iff.mpr hc
  unfold onTimedRecvCompleted transition
  rw [if_neg hc, if_neg (by omega)]
  by_cases hcount : r.readBufferPos + c.length < 4
  · rw [if_pos hcount]
    intro hreject
    cases hreject
  rw [if_neg hcount]
  by_cases hfour : r.readBufferPos + c.length = 4
  · have hfull := h.count (by omega)
    rw [hfour] at htake
    rw [← htake] at hheld
    generalize store r.readBuffer r.readBufferPos c = buffer at hheld hlen
    have hbuffer : buffer.take 4 = buffer := List.take_of_length_le (by omega)
    have hvalue := LittleEndian.value_lt buffer
    have hbytes := LittleEndian.bytes_value buffer
    rw [hlen, hfull] at hvalue hbytes
    have hsame : LittleEndian.value buffer = m.length :=
      length_of_front hvalue (by omega) (by rw [hbytes, List.append_nil, ← hbuffer]; exact hheld)
    have hsize : (4 + m.length) % 2 ^ 32 = 4 + m.length := Nat.mod_eq_of_lt hm'
    have hmax : m.length ≤ maxMessageLength ∧ 4 ≤ (4 + m.length) % 2 ^ 32 :=
      ⟨hm.2.1, by omega⟩
    simp only [if_pos hfour, hbuffer, hsame, if_pos hmax]
    intro hreject
    cases hreject
  rw [if_neg hfour]
  split <;> (intro hreject; cases hreject)

end

theorem lawful (maxMessageLength : Nat) :
    (reader maxMessageLength).Lawful (Accepts maxMessageLength) Valid held where
  short := fun h => by have := h.2.2; omega
  start_valid := receive_valid []
  start_held := receive_held []
  wants := by
    intro r h hheld
    have hreq := h.requested
    have hlong := h.long
    have hlen := congrArg List.length hheld
    rw [held, List.length_take, List.length_nil] at hlen
    show 0 < r.bytesRequested
    omega
  stays := fun h hm hheld => stays h hm hheld
  more := fun h hfits harrive => more h hfits harrive
  message := fun h hfits harrive => message h hfits harrive
  accepts := fun h hfits hm hheld => accepts h hfits hm hheld

end ClientReader

end SpeechBridge.Rcf
