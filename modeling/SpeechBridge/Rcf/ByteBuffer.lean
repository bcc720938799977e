import SpeechBridge.Basic.Filling

set_option autoImplicit false

/-! # Byte buffers

`src/RCF/include/RCF/ByteBuffer.hpp`. A byte buffer is a window on a piece of memory: the bytes
it shows, and the bytes in front of them that it may still grow into. A message is a sequence
of byte buffers; headers are put in front of its first buffer by growing it into its left
margin, and a transport that has written a part of a message goes on with a slice of it.

`messageBytes_slice`: a slice is the same slice of the concatenated bytes. The loop behind it assigns
`pos1 = pos0` where it means `pos0 = pos1`; the branch is reached only behind the offset, where
the positions do not matter any more.
-/

namespace SpeechBridge.Rcf

/-- A byte buffer: the bytes of its left margin, and its own. -/
structure ByteBuffer where
  margin : List UInt8
  bytes : List UInt8
  deriving DecidableEq, Repr

namespace ByteBuffer

def getLength (b : ByteBuffer) : Nat := b.bytes.length
def getLeftMargin (b : ByteBuffer) : Nat := b.margin.length

/-- A buffer of its own, without a margin. -/
def ofBytes (bytes : List UInt8) : ByteBuffer := ⟨[], bytes⟩

/-- Move the start of the buffer, so that the margin has `len` bytes. -/
def setLeftMargin (b : ByteBuffer) (len : Nat) : Option ByteBuffer :=
  let all := b.margin ++ b.bytes
  if len ≤ all.length then some ⟨all.take len, all.drop len⟩ else none

/-- Move the start of the buffer `len` bytes into the margin. -/
def expandIntoLeftMargin (b : ByteBuffer) (len : Nat) : Option ByteBuffer :=
  if len ≤ b.getLeftMargin then b.setLeftMargin (b.getLeftMargin - len) else none

/-- Write to the front of the buffer. -/
def fill (b : ByteBuffer) (w : Filling UInt8 → Option (Filling UInt8)) : Option ByteBuffer :=
  (w ⟨b.bytes, 0⟩).map fun s => ⟨b.margin, s.buf⟩

/-- Grow into the margin by `len` bytes and write there. -/
def prepend (b : ByteBuffer) (len : Nat) (w : Filling UInt8 → Option (Filling UInt8)) :
    Option ByteBuffer :=
  (b.expandIntoLeftMargin len).bind fun b => b.fill w

/-- The constructor `ByteBuffer(byteBuffer, offset, len)`. -/
def sub (b : ByteBuffer) (offset len : Nat) : ByteBuffer :=
  ⟨if offset = 0 then b.margin else [], (b.bytes.drop offset).take len⟩

/-- Growing into the margin and overwriting the new bytes puts them in front. -/
theorem prepend_eq {b : ByteBuffer} {w : Filling UInt8 → Option (Filling UInt8)}
    {x : List UInt8} (hw : Filling.Stores w x) (h : x.length ≤ b.getLeftMargin) :
    b.prepend x.length w
      = some ⟨b.margin.take (b.getLeftMargin - x.length), x ++ b.bytes⟩ := by
  unfold getLeftMargin at h
  have hlen : b.margin.length - x.length ≤ (b.margin ++ b.bytes).length := by
    rw [List.length_append]
    omega
  have htake : (b.margin ++ b.bytes).take (b.margin.length - x.length)
      = b.margin.take (b.margin.length - x.length) :=
    List.take_append_of_le_length (by omega)
  have hdrop : (b.margin ++ b.bytes).drop (b.margin.length - x.length)
      = b.margin.drop (b.margin.length - x.length) ++ b.bytes :=
    List.drop_append_of_le_length (by omega)
  have hgrown : (b.margin.drop (b.margin.length - x.length)).length = x.length := by
    rw [List.length_drop]
    omega
  have hfill := hw.from_front (b.margin.drop (b.margin.length - x.length) ++ b.bytes)
    (by rw [List.length_append]; omega)
  rw [List.drop_left' hgrown] at hfill
  unfold prepend expandIntoLeftMargin setLeftMargin getLeftMargin
  simp only [if_pos h, if_pos hlen, Option.bind_some, htake, hdrop]
  unfold fill
  cases hrun : w ⟨b.margin.drop (b.margin.length - x.length) ++ b.bytes, 0⟩ with
  | none =>
      rw [hrun] at hfill
      cases hfill
  | some s =>
      rw [hrun, Option.map_some, Option.some.injEq] at hfill
      rw [Option.map_some, hfill]

end ByteBuffer

/-! ## Sequences of byte buffers -/

/-- The bytes of a message. -/
def messageBytes (byteBuffers : List ByteBuffer) : List UInt8 :=
  byteBuffers.flatMap ByteBuffer.bytes

def lengthByteBuffers (byteBuffers : List ByteBuffer) : Nat :=
  (byteBuffers.map ByteBuffer.getLength).sum

/-- The loop of `forEachByteBuffer`: the buffers it calls the functor on, from `pos0` on with
`remaining` bytes to go. -/
def forEachLoop (offset : Nat) : Nat → Nat → List ByteBuffer → List ByteBuffer
  | _, _, [] => []
  | pos0, remaining, b :: byteBuffers =>
      let pos1 := pos0 + b.getLength
      if pos1 ≤ offset then
        forEachLoop offset pos1 remaining byteBuffers
      else if pos0 ≤ offset ∧ offset < pos1 then
        let len := min (pos1 - offset) remaining
        b.sub (offset - pos0) len :: forEachLoop offset pos1 (remaining - len) byteBuffers
      else if 0 < remaining then
        let len := min (pos1 - pos0) remaining
        -- `pos1 = pos0`: the next round computes `pos1` again, `pos0` stays
        b.sub 0 len :: forEachLoop offset pos0 (remaining - len) byteBuffers
      else
        forEachLoop offset pos0 remaining byteBuffers

def sliceByteBuffers (byteBuffers : List ByteBuffer) (offset length : Nat) : List ByteBuffer :=
  forEachLoop offset 0 length byteBuffers

/-- The first buffer of a slice, or an empty one. -/
def sliceByteBuffer (byteBuffers : List ByteBuffer) (offset length : Nat) : ByteBuffer :=
  (sliceByteBuffers byteBuffers offset length).headD (.ofBytes [])

@[simp] theorem messageBytes_nil : messageBytes [] = [] := rfl

@[simp] theorem messageBytes_cons (b : ByteBuffer) (byteBuffers : List ByteBuffer) :
    messageBytes (b :: byteBuffers) = b.bytes ++ messageBytes byteBuffers := rfl

theorem lengthByteBuffers_eq (byteBuffers : List ByteBuffer) :
    lengthByteBuffers byteBuffers = (messageBytes byteBuffers).length := by
  induction byteBuffers with
  | nil => rfl
  | cons b byteBuffers ih =>
      rw [messageBytes_cons, List.length_append, ← ih]
      rfl

/-- Behind the offset the loop takes bytes until none remain. -/
theorem forEachLoop_behind {offset pos0 : Nat} (h : offset < pos0) (remaining : Nat)
    (byteBuffers : List ByteBuffer) :
    messageBytes (forEachLoop offset pos0 remaining byteBuffers)
      = (messageBytes byteBuffers).take remaining := by
  induction byteBuffers generalizing remaining with
  | nil => simp [forEachLoop]
  | cons b byteBuffers ih =>
      have h₁ : ¬ pos0 + b.getLength ≤ offset := by omega
      have h₂ : ¬ (pos0 ≤ offset ∧ offset < pos0 + b.getLength) := by omega
      rw [forEachLoop]
      simp only [if_neg h₁, if_neg h₂]
      by_cases hr : 0 < remaining
      · have hlen : pos0 + b.getLength - pos0 = b.bytes.length := Nat.add_sub_cancel_left _ _
        have hsub : (b.sub 0 (min b.bytes.length remaining)).bytes = b.bytes.take remaining := by
          show (b.bytes.drop 0).take (min b.bytes.length remaining) = _
          rw [List.drop_zero, List.take_eq_take_iff]
          omega
        have hrest : remaining - min b.bytes.length remaining = remaining - b.bytes.length := by
          omega
        rw [if_pos hr, messageBytes_cons, hlen, hsub, hrest, ih, messageBytes_cons,
          List.take_append]
      · have h0 : remaining = 0 := by omega
        rw [if_neg hr, ih, h0, List.take_zero, List.take_zero]

/-- Up to the offset the loop drops bytes. -/
theorem forEachLoop_before {offset pos0 : Nat} (h : pos0 ≤ offset) (remaining : Nat)
    (byteBuffers : List ByteBuffer) :
    messageBytes (forEachLoop offset pos0 remaining byteBuffers)
      = ((messageBytes byteBuffers).drop (offset - pos0)).take remaining := by
  induction byteBuffers generalizing pos0 with
  | nil => simp [forEachLoop]
  | cons b byteBuffers ih =>
      rw [forEachLoop]
      unfold ByteBuffer.getLength
      by_cases h₁ : pos0 + b.bytes.length ≤ offset
      · -- the whole buffer is dropped
        have hskip : offset - pos0 - b.bytes.length = offset - (pos0 + b.bytes.length) := by omega
        have hgone : b.bytes.drop (offset - pos0) = [] := List.drop_eq_nil_of_le (by omega)
        simp only [if_pos h₁]
        rw [ih h₁, messageBytes_cons, List.drop_append, hgone, List.nil_append, hskip]
      · -- the slice starts in this buffer
        have h₂ : pos0 ≤ offset ∧ offset < pos0 + b.bytes.length := by omega
        have hleft : (b.bytes.drop (offset - pos0)).length
            = pos0 + b.bytes.length - offset := by
          rw [List.length_drop]
          omega
        have hsub : (b.sub (offset - pos0) (min (pos0 + b.bytes.length - offset) remaining)).bytes
            = (b.bytes.drop (offset - pos0)).take remaining := by
          show (b.bytes.drop (offset - pos0)).take _ = _
          rw [List.take_eq_take_iff, hleft]
          omega
        have hrest : remaining - min (pos0 + b.bytes.length - offset) remaining
            = remaining - (pos0 + b.bytes.length - offset) := by omega
        simp only [if_neg h₁, if_pos h₂]
        rw [messageBytes_cons, hsub, hrest, forEachLoop_behind h₂.2, messageBytes_cons,
          List.drop_append_of_le_length (by omega), List.take_append, hleft]

/-- **A slice of a message.** -/
theorem messageBytes_slice (byteBuffers : List ByteBuffer) (offset length : Nat) :
    messageBytes (sliceByteBuffers byteBuffers offset length)
      = ((messageBytes byteBuffers).drop offset).take length :=
  forEachLoop_before (Nat.zero_le offset) length byteBuffers

end SpeechBridge.Rcf
