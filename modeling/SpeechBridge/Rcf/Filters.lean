import SpeechBridge.Rcf.Encoding
import SpeechBridge.Rcf.ByteBuffer

set_option autoImplicit false

/-! # Message filters

`src/RCF/src/RCF/AsyncFilter.cpp`, and `encodeFiltered` and `decodeFiltered` of
`src/RCF/src/RCF/MethodInvocation.cpp`. A filtered message is an envelope: the ids of the
filters, and the length of the message before filtering. The server builds the filters that the
ids name; the client accepts its own filters only.
-/

namespace SpeechBridge.Rcf

/-! ## Filters -/

/-- A filter: what `write` makes of the buffers of a message, and what `onReadCompleted` makes
of bytes. -/
structure Filter where
  id : Int32
  write : List ByteBuffer → List ByteBuffer
  read : List UInt8 → List UInt8

/-- The mask `'U'`. -/
def xorMask : UInt8 := 85

/-- `XorFilter`: `createNonReadOnlyByteBuffers` leaves out the empty buffers. -/
def xorFilter : Filter where
  id := 101
  write byteBuffers := (byteBuffers.filter fun b => 0 < b.getLength).map fun b =>
    ⟨b.margin, b.bytes.map (· ^^^ xorMask)⟩
  read bytes := bytes.map (· ^^^ xorMask)

/-- What a filter must do: keep the length, undo on reading what it did on writing, and leave
the left margin of the first buffer alone. Filters that compress, or put headers of their own into
the message, are not lawful. -/
structure Filter.Lawful (f : Filter) : Prop where
  write_length : ∀ byteBuffers,
    (messageBytes (f.write byteBuffers)).length = (messageBytes byteBuffers).length
  read_length : ∀ bytes, (f.read bytes).length = bytes.length
  read_write : ∀ byteBuffers, f.read (messageBytes (f.write byteBuffers)) = messageBytes byteBuffers
  write_front : ∀ b byteBuffers, b.bytes ≠ [] → ∃ b' byteBuffers',
    f.write (b :: byteBuffers) = b' :: byteBuffers' ∧ b'.margin = b.margin ∧ b'.bytes ≠ []

theorem xor_xorMask (b : UInt8) : b ^^^ xorMask ^^^ xorMask = b := by
  rw [UInt8.xor_assoc, UInt8.xor_self, UInt8.xor_zero]

theorem xorFilter_write_cons (b : ByteBuffer) (byteBuffers : List ByteBuffer) :
    xorFilter.write (b :: byteBuffers)
      = if b.bytes = [] then xorFilter.write byteBuffers
        else ⟨b.margin, b.bytes.map (· ^^^ xorMask)⟩ :: xorFilter.write byteBuffers := by
  unfold xorFilter ByteBuffer.getLength
  simp only [List.filter_cons, List.length_pos_iff, decide_eq_true_eq]
  by_cases h : b.bytes = []
  · simp [h]
  · simp [h]

/-- The bytes of a message masked by `xorFilter`. -/
theorem xorFilter_write_bytes (byteBuffers : List ByteBuffer) :
    messageBytes (xorFilter.write byteBuffers)
      = (messageBytes byteBuffers).map (· ^^^ xorMask) := by
  induction byteBuffers with
  | nil => rfl
  | cons b byteBuffers ih =>
      rw [messageBytes_cons, List.map_append, ← ih, xorFilter_write_cons]
      by_cases h : b.bytes = []
      · rw [if_pos h, h]
        rfl
      · rw [if_neg h, messageBytes_cons]

theorem xorFilter_lawful : xorFilter.Lawful where
  write_length byteBuffers := by rw [xorFilter_write_bytes, List.length_map]
  read_length bytes := List.length_map _
  read_write byteBuffers := by
    rw [xorFilter_write_bytes]
    show ((messageBytes byteBuffers).map (· ^^^ xorMask)).map (· ^^^ xorMask) = _
    rw [List.map_map]
    exact (List.map_congr_left fun b _ => xor_xorMask b).trans (List.map_id _)
  write_front b byteBuffers h := by
    refine ⟨_, _, (xorFilter_write_cons b byteBuffers).trans (if_neg h), rfl, ?_⟩
    simpa using h

/-! ## Chains of filters

`connectFilters` links the filters: a message passes them from the front to the back, and the
bytes read pass them from the back to the front. -/

def writeChain (filters : List Filter) (byteBuffers : List ByteBuffer) : List ByteBuffer :=
  filters.foldl (fun byteBuffers f => f.write byteBuffers) byteBuffers

def readChain (filters : List Filter) (bytes : List UInt8) : List UInt8 :=
  filters.foldr (fun f bytes => f.read bytes) bytes

section

variable {filters : List Filter} (h : ∀ f ∈ filters, f.Lawful)

include h

theorem writeChain_length (byteBuffers : List ByteBuffer) :
    (messageBytes (writeChain filters byteBuffers)).length = (messageBytes byteBuffers).length := by
  induction filters generalizing byteBuffers with
  | nil => rfl
  | cons f filters ih =>
      have hf := h f List.mem_cons_self
      have hrest := ih (fun g hg => h g (List.mem_cons_of_mem f hg)) (f.write byteBuffers)
      exact hrest.trans (hf.write_length byteBuffers)

theorem readChain_length (bytes : List UInt8) : (readChain filters bytes).length = bytes.length := by
  induction filters with
  | nil => rfl
  | cons f filters ih =>
      have hrest := ih fun g hg => h g (List.mem_cons_of_mem f hg)
      exact ((h f List.mem_cons_self).read_length _).trans hrest

theorem readChain_writeChain (byteBuffers : List ByteBuffer) :
    readChain filters (messageBytes (writeChain filters byteBuffers))
      = messageBytes byteBuffers := by
  induction filters generalizing byteBuffers with
  | nil => rfl
  | cons f filters ih =>
      have hrest := ih (fun g hg => h g (List.mem_cons_of_mem f hg)) (f.write byteBuffers)
      calc readChain (f :: filters) (messageBytes (writeChain (f :: filters) byteBuffers))
          = f.read (readChain filters (messageBytes (writeChain filters (f.write byteBuffers)))) :=
            rfl
        _ = f.read (messageBytes (f.write byteBuffers)) := by rw [hrest]
        _ = messageBytes byteBuffers := (h f List.mem_cons_self).read_write byteBuffers

theorem writeChain_front (b : ByteBuffer) (byteBuffers : List ByteBuffer) (hb : b.bytes ≠ []) :
    ∃ b' byteBuffers', writeChain filters (b :: byteBuffers) = b' :: byteBuffers' ∧
      b'.margin = b.margin ∧ b'.bytes ≠ [] := by
  induction filters generalizing b byteBuffers with
  | nil => exact ⟨b, byteBuffers, rfl, rfl, hb⟩
  | cons f filters ih =>
      obtain ⟨b₁, bs₁, hw, hm, hne⟩ := (h f List.mem_cons_self).write_front b byteBuffers hb
      obtain ⟨b₂, bs₂, hw₂, hm₂, hne₂⟩ :=
        ih (fun g hg => h g (List.mem_cons_of_mem f hg)) b₁ bs₁ hne
      refine ⟨b₂, bs₂, ?_, hm₂.trans hm, hne₂⟩
      rw [← hw₂, ← hw]
      rfl

end

end SpeechBridge.Rcf
