import SpeechBridge.Rcf.Filters

set_option autoImplicit false

/-! # The envelope of a filtered message

`filterData` and `unfilterData` of `src/RCF/src/RCF/AsyncFilter.cpp` push a message through a
chain of filters. `encodeFiltered` and `decodeFiltered` of
`src/RCF/src/RCF/MethodInvocation.cpp` put the envelope around the result and take it off.
`decodeFiltered` verifies that `unfilteredLen` is not negative before it is assigned, where it
means the length it has just decoded. A length that is larger than the payload, or negative, is
therefore not noticed, and `unfilterData` never gets as many bytes.
-/

namespace SpeechBridge.Rcf

/-! ## Message types -/

namespace Descriptor

def error : Int32 := 0
def request : Int32 := 1
def response : Int32 := 2
def filteredPayload : Int32 := 3

end Descriptor

/-- A step that an assertion guards. -/
def asserted {α : Type} : Option α → Except Failure α
  | some a => .ok a
  | none => .error .assertion

/-! ## Filtering a message -/

/-- A slice of the default length, the largest `size_t`, which cuts nothing off. -/
def sliceFrom (byteBuffers : List ByteBuffer) (offset : Nat) : List ByteBuffer :=
  sliceByteBuffers byteBuffers offset (lengthByteBuffers byteBuffers)

/-- The loop of `filterData`: the front filter is given what has not been acknowledged yet; the
write proxy behind the last filter acknowledges what it receives. -/
def filterLoop (filters : List Filter) (unfilteredData : List ByteBuffer)
    (bytesTransferredTotal : Nat) : Except Failure (List ByteBuffer) :=
  if bytesTransferredTotal < lengthByteBuffers unfilteredData then
    let out := writeChain filters (sliceFrom unfilteredData bytesTransferredTotal)
    if 0 < lengthByteBuffers out then do
      let rest ← filterLoop filters unfilteredData (bytesTransferredTotal + lengthByteBuffers out)
      .ok (out ++ rest)
    else
      -- nothing is acknowledged, now and in every further round
      .error .assertion
  else if bytesTransferredTotal = lengthByteBuffers unfilteredData then .ok []
  else .error (.exception RcfError.filterMessage)
termination_by lengthByteBuffers unfilteredData - bytesTransferredTotal
decreasing_by
  have hout : 0 < lengthByteBuffers
      (writeChain filters (sliceFrom unfilteredData bytesTransferredTotal)) := by assumption
  omega

def filterData (unfilteredData : List ByteBuffer) (filters : List Filter) :
    Except Failure (List ByteBuffer) :=
  filterLoop filters unfilteredData 0

/-- The loop of `unfilterData`: the read proxy hands out what is left of the payload, up to the
number of bytes requested, and asserts that something is left. The flag says whether the
number of bytes is the one announced. -/
def unfilterLoop (filters : List Filter) (payload : List UInt8) (unfilteredDataLen : Nat)
    (bytesTransferredTotal pos : Nat) : Except Failure (List UInt8 × Bool) :=
  if bytesTransferredTotal < unfilteredDataLen then
    if pos < payload.length then do
      let bytesToRead := min (payload.length - pos) (unfilteredDataLen - bytesTransferredTotal)
      let out := readChain filters ((payload.drop pos).take bytesToRead)
      let (rest, ret) ← unfilterLoop filters payload unfilteredDataLen
        (bytesTransferredTotal + out.length) (pos + bytesToRead)
      .ok (out ++ rest, ret)
    else
      .error .assertion
  else .ok ([], bytesTransferredTotal == unfilteredDataLen)
termination_by payload.length - pos

def unfilterData (payload : List UInt8) (unfilteredDataLen : Nat) (filters : List Filter) :
    Except Failure (List UInt8 × Bool) :=
  unfilterLoop filters payload unfilteredDataLen 0 0

/-! ## The envelope -/

/-- The ids of the filters, one after the other. -/
def encodeFilterIds : List Filter → Filling UInt8 → Option (Filling UInt8)
  | [], s => some s
  | f :: filters, s => (encodeIntAt f.id s).bind (encodeFilterIds filters)

/-- The header of the envelope; the leading portion without filters is always empty. -/
def encodeEnvelope (filters : List Filter) (unfilteredLen : Int32) (s : Filling UInt8) :
    Option (Filling UInt8) := do
  let s ← encodeIntAt Descriptor.filteredPayload s
  let s ← encodeIntAt 0 s
  let s ← encodeIntAt (Int32.ofNat filters.length) s
  let s ← encodeFilterIds filters s
  let s ← encodeIntAt 0 s
  encodeIntAt unfilteredLen s

/-- The length of the buffer the header is built in. -/
def vecLen : Nat := (5 + 10) * 4

/-- The end of `encodeFiltered`: the header goes into the left margin of the first buffer. -/
def prependEnvelope (filters : List Filter) (unfilteredLen : Int32) (message : List ByteBuffer) :
    Except Failure (List ByteBuffer) := do
  let vec ← asserted (encodeEnvelope filters unfilteredLen ⟨List.replicate vecLen 0, 0⟩)
  match message with
  | [] => .error .assertion
  | front :: rest => do
      let front ← asserted (front.prepend vec.pos (Filling.copy vec.written))
      .ok (front :: rest)

def encodeFiltered (unfilteredData : List ByteBuffer) (filters : List Filter) :
    Except Failure (List ByteBuffer) :=
  if filters.isEmpty then .ok unfilteredData
  else do
    let filteredData ← filterData unfilteredData filters
    let message := if filteredData.isEmpty then unfilteredData.take 1 else filteredData
    if 10 < filters.length then
      .error (.exception RcfError.filterCount)
    else
      prependEnvelope filters (Int32.ofNat (lengthByteBuffers unfilteredData)) message

/-- What the header of an envelope says: the ids, the length of the leading portion, the
unfiltered length. -/
def decodeEnvelope : Decoder UInt8 Failure (List Int32 × Int32 × Int32) := do
  let descriptor ← decodeInt
  Decoder.verify (descriptor = Descriptor.filteredPayload) (.exception RcfError.decoding)
  let version ← decodeInt
  Decoder.verify (version = 0) (.exception RcfError.decoding)
  let filterCount ← decodeInt
  Decoder.verify (0 < filterCount ∧ filterCount ≤ 10) (.exception RcfError.decoding)
  let filterIds ← Decoder.times decodeInt filterCount.toInt.toNat
  let clearLen ← decodeInt
  Decoder.verify (0 ≤ clearLen) (.exception RcfError.decoding)
  let unfilteredLen ← decodeInt
  pure (filterIds, clearLen, unfilteredLen)

/-- An `int` as a `size_t`. -/
def toSize (n : Int32) : Nat := (n.toInt % 2 ^ 64).toNat

/-- The first part of `decodeFiltered`: the ids, the unfiltered length as a `size_t`, and the
payload. It reads the first byte without asking whether there is one; for an empty buffer the
behaviour is undefined, and stands with the assertions. -/
def openEnvelope (byteBuffer : List UInt8) : Except Failure (List Int32 × Nat × List UInt8) :=
  match byteBuffer with
  | [] => .error .assertion
  | ch :: _ =>
      if ch = 3 then do
        let ((filterIds, clearLen, unfilteredLen), pos1) ← decodeEnvelope byteBuffer 0
        let pos2 := pos1 + clearLen.toInt.toNat
        if pos2 ≤ byteBuffer.length then
          .ok (filterIds, toSize unfilteredLen, byteBuffer.drop pos2)
        else
          .error .assertion
      else .ok ([], 0, byteBuffer)

/-- `decodeFiltered` on the client: the filters are the client's own. -/
def decodeFilteredClient (filters : List Filter) (byteBuffer : List UInt8) :
    Except Failure (List UInt8) := do
  let (filterIds, unfilteredLen, payload) ← openEnvelope byteBuffer
  if filters.map Filter.id = filterIds then
    if filters.isEmpty then .ok payload
    else do
      let (bytes, ret) ← unfilterData payload unfilteredLen filters
      if ret then .ok bytes else .error (.exception RcfError.unfilterMessage)
  else .error (.exception RcfError.payloadFilterMismatch)

/-- `decodeFiltered` on the server: the filters of the session, built anew when the ids differ.
The result is whether the message was filtered, the filters of the session, and the message. -/
def decodeFilteredServer (createFilter : Int32 → Option Filter) (filters : List Filter)
    (byteBuffer : List UInt8) : Except Failure (Bool × List Filter × List UInt8) := do
  let (filterIds, unfilteredLen, payload) ← openEnvelope byteBuffer
  if filterIds.isEmpty then .ok (false, filters, payload)
  else
    let created := if filters.map Filter.id = filterIds then some filters
      else filterIds.mapM createFilter
    match created with
    | none => .error (.exception RcfError.unknownFilter)
    | some filters => do
        let (bytes, _) ← unfilterData payload unfilteredLen filters
        .ok (true, filters, bytes)

/-! ## What the two loops compute -/

section Lawful

variable {filters : List Filter} (h : ∀ f ∈ filters, f.Lawful)

/-- A slice from the front of a message whose first buffer is not empty keeps that buffer. -/
theorem sliceFrom_zero {b : ByteBuffer} (hb : b.bytes ≠ []) (byteBuffers : List ByteBuffer) :
    ∃ rest, sliceFrom (b :: byteBuffers) 0 = b :: rest ∧
      messageBytes rest = messageBytes byteBuffers := by
  have hpos : 0 < b.bytes.length := List.length_pos_iff.mpr hb
  have htotal : lengthByteBuffers (b :: byteBuffers)
      = b.bytes.length + (messageBytes byteBuffers).length := by
    rw [lengthByteBuffers_eq, messageBytes_cons, List.length_append]
  have h₁ : ¬ 0 + b.getLength ≤ 0 := by
    unfold ByteBuffer.getLength
    omega
  have h₂ : 0 ≤ 0 ∧ 0 < 0 + b.getLength := by
    unfold ByteBuffer.getLength
    omega
  have hmin : min (0 + b.getLength - 0) (lengthByteBuffers (b :: byteBuffers))
      = b.bytes.length := by
    unfold ByteBuffer.getLength
    omega
  have hsub : b.sub (0 - 0) b.bytes.length = b := by
    unfold ByteBuffer.sub
    simp
  refine ⟨forEachLoop 0 (0 + b.getLength)
    (lengthByteBuffers (b :: byteBuffers) - b.bytes.length) byteBuffers, ?_, ?_⟩
  · unfold sliceFrom sliceByteBuffers
    rw [forEachLoop]
    simp only [if_neg h₁, if_pos h₂, hmin, hsub]
  · rw [forEachLoop_behind h₂.2, List.take_of_length_le (by omega)]

theorem messageBytes_sliceFrom_zero (byteBuffers : List ByteBuffer) :
    messageBytes (sliceFrom byteBuffers 0) = messageBytes byteBuffers := by
  unfold sliceFrom
  rw [messageBytes_slice, List.drop_zero, lengthByteBuffers_eq, List.take_length]

include h

/-- One round suffices: the write proxy acknowledges everything. -/
theorem filterData_eq {unfilteredData : List ByteBuffer}
    (hne : 0 < lengthByteBuffers unfilteredData) :
    filterData unfilteredData filters = .ok (writeChain filters (sliceFrom unfilteredData 0)) := by
  have hout : lengthByteBuffers (writeChain filters (sliceFrom unfilteredData 0))
      = lengthByteBuffers unfilteredData := by
    rw [lengthByteBuffers_eq, writeChain_length h, messageBytes_sliceFrom_zero,
      lengthByteBuffers_eq]
  have hlast : filterLoop filters unfilteredData (0 + lengthByteBuffers unfilteredData)
      = .ok [] := by
    rw [filterLoop, if_neg (by omega), if_pos (by omega)]
  unfold filterData
  rw [filterLoop, if_pos hne]
  simp only [hout, if_pos hne, hlast]
  show Except.ok (_ ++ []) = _
  rw [List.append_nil]

/-- A payload that is long enough. -/
theorem unfilterData_eq {payload : List UInt8} {len : Nat} (hlen : len ≤ payload.length) :
    unfilterData payload len filters = .ok (readChain filters (payload.take len), true) := by
  unfold unfilterData
  have hout : (readChain filters (payload.take len)).length = len := by
    rw [readChain_length h, List.length_take]
    omega
  by_cases h0 : 0 < len
  · have hmin : min (payload.length - 0) (len - 0) = len := by omega
    have hlast : ∀ pos, unfilterLoop filters payload len (0 + len) pos = .ok ([], true) := by
      intro pos
      rw [unfilterLoop, if_neg (by omega), Nat.zero_add, beq_self_eq_true]
    rw [unfilterLoop, if_pos h0, if_pos (by omega)]
    simp only [hmin, List.drop_zero, hout, hlast]
    show Except.ok (_ ++ [], true) = _
    rw [List.append_nil]
  · have hzero : len = 0 := by omega
    subst hzero
    rw [unfilterLoop, if_neg h0, List.length_eq_zero_iff.mp hout]
    rfl

/-- A payload that is too short: after it has been read nothing is left to read, and the loop
goes on. -/
theorem unfilterData_short {payload : List UInt8} {len : Nat} (hlen : payload.length < len) :
    unfilterData payload len filters = .error .assertion := by
  have hend : ∀ total, total < len →
      unfilterLoop filters payload len total payload.length = .error .assertion := by
    intro total ht
    rw [unfilterLoop, if_pos ht, if_neg (lt_irrefl _)]
  unfold unfilterData
  by_cases h0 : 0 < payload.length
  · have hmin : min (payload.length - 0) (len - 0) = payload.length := by omega
    have hout : (readChain filters (payload.take payload.length)).length = payload.length := by
      rw [readChain_length h, List.take_length]
    have hnext := hend (0 + payload.length) (by omega)
    rw [unfilterLoop, if_pos (by omega), if_pos h0]
    simp only [hmin, List.drop_zero, hout]
    rw [Nat.zero_add] at hnext ⊢
    rw [hnext]
    rfl
  · have hz := hend 0 (by omega)
    have hzero : payload.length = 0 := by omega
    rwa [hzero] at hz

end Lawful

/-! ## The header of the envelope -/

/-- The bytes of the header. -/
def envelopeBytes (filters : List Filter) (unfilteredLen : Int32) : List UInt8 :=
  intBytes Descriptor.filteredPayload ++ (intBytes 0 ++ (intBytes (Int32.ofNat filters.length) ++
    (filters.flatMap (fun f => intBytes f.id) ++ (intBytes 0 ++ intBytes unfilteredLen))))

theorem stores_encodeFilterIds (filters : List Filter) :
    Filling.Stores (encodeFilterIds filters) (filters.flatMap fun f => intBytes f.id) := by
  induction filters with
  | nil =>
      intro s _
      show some s = some (s.overwrite [])
      unfold Filling.overwrite
      simp
  | cons f filters ih =>
      rw [List.flatMap_cons]
      exact (stores_encodeIntAt f.id).seq ih

theorem stores_encodeEnvelope (filters : List Filter) (unfilteredLen : Int32) :
    Filling.Stores (encodeEnvelope filters unfilteredLen) (envelopeBytes filters unfilteredLen) :=
  (stores_encodeIntAt _).seq ((stores_encodeIntAt _).seq ((stores_encodeIntAt _).seq
    ((stores_encodeFilterIds filters).seq ((stores_encodeIntAt _).seq (stores_encodeIntAt _)))))

/-- The header fits into the buffer it is built in. -/
theorem envelopeBytes_length_le {filters : List Filter} (hcount : filters.length ≤ 10)
    (unfilteredLen : Int32) : (envelopeBytes filters unfilteredLen).length ≤ vecLen := by
  have hids : (filters.flatMap fun f => intBytes f.id).length ≤ 5 * filters.length := by
    clear hcount
    induction filters with
    | nil => simp
    | cons f filters ih =>
        have hf := intBytes_length_le f.id
        simp only [List.flatMap_cons, List.length_append, List.length_cons]
        omega
  have h₁ : (intBytes Descriptor.filteredPayload).length = 1 := rfl
  have h₂ : (intBytes 0).length = 1 := rfl
  have h₃ : (intBytes (Int32.ofNat filters.length)).length = 1 := by
    rw [intBytes_ofNat (by omega)]
    rfl
  have h₄ := intBytes_length_le unfilteredLen
  simp only [envelopeBytes, List.length_append, vecLen]
  omega

/-- Filters that a message can be sent through: there are at most ten of them, they are lawful,
and each id is one byte. -/
structure Chain (filters : List Filter) : Prop where
  lawful : ∀ f ∈ filters, f.Lawful
  count : filters.length ≤ 10
  small : ∀ f ∈ filters, 0 ≤ f.id ∧ f.id < 255

theorem Chain.nil : Chain [] where
  lawful _ h := absurd h List.not_mem_nil
  count := Nat.zero_le _
  small _ h := absurd h List.not_mem_nil

theorem xorFilter_chain : Chain [xorFilter] where
  lawful f hf := by
    rw [List.mem_singleton.mp hf]
    exact xorFilter_lawful
  count := by decide
  small f hf := by
    rw [List.mem_singleton.mp hf]
    decide

/-- The longest header of an envelope with ids of one byte. -/
def envelopeMax : Nat := 19

theorem Chain.envelope_le {filters : List Filter} (h : Chain filters) (unfilteredLen : Int32) :
    (envelopeBytes filters unfilteredLen).length ≤ envelopeMax := by
  have hids : (filters.flatMap fun f => intBytes f.id).length = filters.length := by
    have hsmall := h.small
    clear h
    induction filters with
    | nil => rfl
    | cons f filters ih =>
        have hf : (intBytes f.id).length = 1 := by
          unfold intBytes
          rw [if_pos (hsmall f List.mem_cons_self)]
          rfl
        have hrest := ih fun g hg => hsmall g (List.mem_cons_of_mem f hg)
        rw [List.flatMap_cons, List.length_append, List.length_cons, hf, hrest]
        omega
  have hcount := h.count
  have h₁ : (intBytes Descriptor.filteredPayload).length = 1 := rfl
  have h₂ : (intBytes 0).length = 1 := rfl
  have h₃ : (intBytes (Int32.ofNat filters.length)).length = 1 := by
    rw [intBytes_ofNat (by omega)]
    rfl
  have h₄ := intBytes_length_le unfilteredLen
  simp only [envelopeBytes, List.length_append, envelopeMax]
  omega

theorem reads_decodeEnvelope {filters : List Filter} (hne : filters ≠ [])
    (hcount : filters.length ≤ 10) (unfilteredLen : Int32) :
    decodeEnvelope.Reads (envelopeBytes filters unfilteredLen)
      (filters.map Filter.id, 0, unfilteredLen) := by
  have hpos : 0 < filters.length := List.length_pos_iff.mpr hne
  have hn : (Int32.ofNat filters.length).toInt = filters.length :=
    Int32.toInt_ofNat_of_lt (by omega)
  have h0 : (0 : Int32).toInt = 0 := rfl
  have h10 : (10 : Int32).toInt = 10 := rfl
  have hrange : 0 < Int32.ofNat filters.length ∧ Int32.ofNat filters.length ≤ 10 := by
    rw [Int32.lt_iff_toInt_lt, Int32.le_iff_toInt_le, hn, h0, h10]
    exact ⟨by exact_mod_cast hpos, by exact_mod_cast hcount⟩
  have hids : (Decoder.times decodeInt filters.length).Reads
      (filters.flatMap fun f => intBytes f.id) (filters.map Filter.id) := by
    have htimes := Decoder.Reads.times (l := filters.map Filter.id)
      fun id _ => reads_decodeInt id
    rwa [List.length_map, List.flatMap_map] at htimes
  refine (reads_decodeInt _).bind ?_
  refine (Decoder.Reads.verify rfl _).nil_bind ?_
  refine (reads_decodeInt _).bind ?_
  refine (Decoder.Reads.verify rfl _).nil_bind ?_
  refine (reads_decodeInt _).bind ?_
  refine (Decoder.Reads.verify hrange _).nil_bind ?_
  rw [hn, Int.toNat_natCast]
  refine hids.bind ?_
  refine (reads_decodeInt _).bind ?_
  refine (Decoder.Reads.verify (by decide) _).nil_bind ?_
  exact (reads_decodeInt _).bind_nil (Decoder.Reads.pure _)

/-! ## Opening what was enveloped -/

theorem openEnvelope_unfiltered {byteBuffer : List UInt8} (hne : byteBuffer ≠ [])
    (h3 : byteBuffer.head? ≠ some 3) : openEnvelope byteBuffer = .ok ([], 0, byteBuffer) := by
  cases byteBuffer with
  | nil => exact absurd rfl hne
  | cons ch rest =>
      have hch : ch ≠ 3 := fun h => h3 (by rw [h]; rfl)
      unfold openEnvelope
      simp only [if_neg hch]

theorem openEnvelope_envelope {filters : List Filter} (hne : filters ≠ [])
    (hcount : filters.length ≤ 10) (unfilteredLen : Int32) (payload : List UInt8) :
    openEnvelope (envelopeBytes filters unfilteredLen ++ payload)
      = .ok (filters.map Filter.id, toSize unfilteredLen, payload) := by
  have hstart : envelopeBytes filters unfilteredLen ++ payload
      = 3 :: ((envelopeBytes filters unfilteredLen).tail ++ payload) := rfl
  have hrun := (reads_decodeEnvelope hne hcount unfilteredLen).at_start payload
  have hlen : (envelopeBytes filters unfilteredLen).length + (0 : Int32).toInt.toNat
      = (envelopeBytes filters unfilteredLen).length := rfl
  unfold openEnvelope
  rw [hstart]
  simp only [if_true]
  rw [← hstart, hrun]
  show (if _ then _ else _) = _
  rw [hlen, if_pos (by rw [List.length_append]; omega), List.drop_left]

/-- The length of a message of less than 2^31 bytes survives the envelope. -/
theorem toSize_ofNat {n : Nat} (h : n < 2 ^ 31) : toSize (Int32.ofNat n) = n := by
  unfold toSize
  rw [Int32.toInt_ofNat_of_lt h]
  omega

theorem prependEnvelope_eq {filters : List Filter} (hcount : filters.length ≤ 10)
    (unfilteredLen : Int32) {front : ByteBuffer}
    (hmargin : (envelopeBytes filters unfilteredLen).length ≤ front.getLeftMargin)
    (rest : List ByteBuffer) :
    prependEnvelope filters unfilteredLen (front :: rest)
      = .ok (⟨front.margin.take
          (front.getLeftMargin - (envelopeBytes filters unfilteredLen).length),
        envelopeBytes filters unfilteredLen ++ front.bytes⟩ :: rest) := by
  have hroom : (envelopeBytes filters unfilteredLen).length
      ≤ (List.replicate vecLen (0 : UInt8)).length := by
    rw [List.length_replicate]
    exact envelopeBytes_length_le hcount unfilteredLen
  have hfit : (⟨List.replicate vecLen 0, 0⟩ : Filling UInt8).pos
      + (envelopeBytes filters unfilteredLen).length
        ≤ (⟨List.replicate vecLen 0, 0⟩ : Filling UInt8).buf.length := by
    show 0 + _ ≤ _
    rwa [Nat.zero_add]
  have hvec := stores_encodeEnvelope filters unfilteredLen _ hfit
  have hwritten := Filling.overwrite_written hfit
  have hprepend := ByteBuffer.prepend_eq
    (Filling.Stores.copy (envelopeBytes filters unfilteredLen)) hmargin
  unfold prependEnvelope
  rw [hvec]
  show (do
    let front ← asserted (front.prepend (0 + (envelopeBytes filters unfilteredLen).length)
      (Filling.copy (Filling.overwrite (envelopeBytes filters unfilteredLen)
        ⟨List.replicate vecLen 0, 0⟩).written))
    Except.ok (front :: rest)) = _
  rw [hwritten, Nat.zero_add]
  show (do
    let front ← asserted (front.prepend (envelopeBytes filters unfilteredLen).length
      (Filling.copy (envelopeBytes filters unfilteredLen)))
    Except.ok (front :: rest)) = _
  rw [hprepend]
  rfl

/-- The left margin of the first buffer of a message. -/
def frontMargin (message : List ByteBuffer) : Nat :=
  (message.head?.map ByteBuffer.getLeftMargin).getD 0

/-- What `encodeFiltered` produces: the envelope in front of the filtered message, in the left
margin of its first buffer. -/
theorem encodeFiltered_eq {filters : List Filter} (h : Chain filters) (hne : filters ≠ [])
    {front : ByteBuffer} {rest : List ByteBuffer} (hfront : front.bytes ≠ [])
    (hmargin : envelopeMax ≤ front.getLeftMargin) :
    ∃ message, encodeFiltered (front :: rest) filters = .ok message ∧
      front.getLeftMargin - envelopeMax ≤ frontMargin message ∧
      messageBytes message
        = envelopeBytes filters (Int32.ofNat (lengthByteBuffers (front :: rest)))
          ++ messageBytes (writeChain filters (sliceFrom (front :: rest) 0)) := by
  have hpos : 0 < lengthByteBuffers (front :: rest) := by
    rw [lengthByteBuffers_eq, messageBytes_cons, List.length_append]
    have := List.length_pos_iff.mpr hfront
    omega
  obtain ⟨tail, hslice, -⟩ := sliceFrom_zero hfront rest
  obtain ⟨b, bs, hchain, hbm, -⟩ := writeChain_front h.lawful front tail hfront
  have hdata : filterData (front :: rest) filters = .ok (b :: bs) := by
    rw [filterData_eq h.lawful hpos, hslice, hchain]
  have hb : b.getLeftMargin = front.getLeftMargin := by
    unfold ByteBuffer.getLeftMargin
    rw [hbm]
  have hle := h.envelope_le (Int32.ofNat (lengthByteBuffers (front :: rest)))
  have hroom : (envelopeBytes filters
      (Int32.ofNat (lengthByteBuffers (front :: rest)))).length ≤ b.getLeftMargin := by omega
  have hnone : ¬ filters.isEmpty = true := by simpa using hne
  have hcount := h.count
  have hrun : encodeFiltered (front :: rest) filters
      = prependEnvelope filters (Int32.ofNat (lengthByteBuffers (front :: rest))) (b :: bs) := by
    unfold encodeFiltered
    rw [if_neg hnone, hdata]
    exact if_neg (by omega)
  rw [hrun, prependEnvelope_eq hcount _ hroom bs]
  refine ⟨_, rfl, ?_, ?_⟩
  · show _ ≤ (b.margin.take _).length
    unfold ByteBuffer.getLeftMargin at hb hroom ⊢
    rw [List.length_take]
    omega
  · rw [messageBytes_cons, List.append_assoc, hslice, hchain, messageBytes_cons]

/-! ## Round trips -/

/-- Without filters nothing is put around a message, and nothing taken off. -/
theorem encodeFiltered_nil (message : List ByteBuffer) : encodeFiltered message [] = .ok message :=
  rfl

theorem openEnvelope_message {front : ByteBuffer} (hfront : front.bytes ≠ [])
    (h3 : front.bytes.head? ≠ some 3) (rest : List ByteBuffer) :
    openEnvelope (messageBytes (front :: rest)) = .ok ([], 0, messageBytes (front :: rest)) :=
  openEnvelope_unfiltered (by simp [hfront])
    (by rwa [messageBytes_cons, List.head?_append_of_ne_nil _ hfront])

/-- What a receiver of a filtered message finds when it opens the envelope. -/
theorem openEnvelope_encodeFiltered {filters : List Filter} (h : Chain filters) (hne : filters ≠ [])
    {front : ByteBuffer} {rest : List ByteBuffer} (hfront : front.bytes ≠ [])
    (hlen : lengthByteBuffers (front :: rest) < 2 ^ 31)
    (hmargin : envelopeMax ≤ front.getLeftMargin) :
    ∃ message payload, encodeFiltered (front :: rest) filters = .ok message ∧
      front.getLeftMargin - envelopeMax ≤ frontMargin message ∧
      openEnvelope (messageBytes message)
        = .ok (filters.map Filter.id, lengthByteBuffers (front :: rest), payload) ∧
      unfilterData payload (lengthByteBuffers (front :: rest)) filters
        = .ok (messageBytes (front :: rest), true) := by
  obtain ⟨message, hrun, hm, hbytes⟩ := @encodeFiltered_eq filters h hne front rest hfront hmargin
  have hpayload : (messageBytes (writeChain filters (sliceFrom (front :: rest) 0))).length
      = lengthByteBuffers (front :: rest) := by
    rw [writeChain_length h.lawful, messageBytes_sliceFrom_zero, lengthByteBuffers_eq]
  refine ⟨message, messageBytes (writeChain filters (sliceFrom (front :: rest) 0)), hrun, hm,
    ?_, ?_⟩
  · rw [hbytes, openEnvelope_envelope hne h.count, toSize_ofNat hlen]
  · rw [unfilterData_eq h.lawful (by omega), List.take_of_length_le (by omega),
      readChain_writeChain h.lawful, messageBytes_sliceFrom_zero]

/-- The client takes off what a server with the same filters put around a message. -/
theorem decodeFilteredClient_encodeFiltered {filters : List Filter} (h : Chain filters)
    {front : ByteBuffer} {rest : List ByteBuffer} (hfront : front.bytes ≠ [])
    (h3 : front.bytes.head? ≠ some 3) (hlen : lengthByteBuffers (front :: rest) < 2 ^ 31)
    (hmargin : envelopeMax ≤ front.getLeftMargin) :
    ∃ message, encodeFiltered (front :: rest) filters = .ok message ∧
      front.getLeftMargin - envelopeMax ≤ frontMargin message ∧
      decodeFilteredClient filters (messageBytes message)
        = .ok (messageBytes (front :: rest)) := by
  by_cases hne : filters = []
  · subst hne
    refine ⟨_, encodeFiltered_nil _, Nat.sub_le _ _, ?_⟩
    unfold decodeFilteredClient
    rw [openEnvelope_message hfront h3]
    rfl
  · obtain ⟨message, payload, hrun, hm, hopen, hdata⟩ :=
      openEnvelope_encodeFiltered h hne hfront hlen hmargin
    have hnone : ¬ filters.isEmpty = true := by simpa using hne
    refine ⟨message, hrun, hm, ?_⟩
    unfold decodeFilteredClient
    rw [hopen]
    show (if filters.map Filter.id = filters.map Filter.id then _ else _) = _
    rw [if_pos rfl, if_neg hnone, hdata]
    rfl

/-- A client with filters rejects a message without an envelope. -/
theorem decodeFilteredClient_mismatch {filters : List Filter} (hne : filters ≠ [])
    {byteBuffer : List UInt8} (hbytes : byteBuffer ≠ []) (h3 : byteBuffer.head? ≠ some 3) :
    decodeFilteredClient filters byteBuffer
      = .error (.exception RcfError.payloadFilterMismatch) := by
  have hids : ¬ filters.map Filter.id = [] := by simpa using hne
  unfold decodeFilteredClient
  rw [openEnvelope_unfiltered hbytes h3]
  exact if_neg hids

/-- A filter factory that gives every filter of a list back for its id. -/
def Creates (createFilter : Int32 → Option Filter) (filters : List Filter) : Prop :=
  ∀ f ∈ filters, createFilter f.id = some f

theorem Creates.nil (createFilter : Int32 → Option Filter) : Creates createFilter [] :=
  fun _ h => absurd h List.not_mem_nil

theorem Creates.mapM {createFilter : Int32 → Option Filter} {filters : List Filter}
    (h : Creates createFilter filters) :
    (filters.map Filter.id).mapM createFilter = some filters := by
  induction filters with
  | nil => rfl
  | cons f filters ih =>
      have hf := h f List.mem_cons_self
      have hrest := ih fun g hg => h g (List.mem_cons_of_mem f hg)
      rw [List.map_cons, List.mapM_cons, hf, hrest]
      rfl

/-- Filters with the same ids are the same filters. -/
theorem Creates.created {createFilter : Int32 → Option Filter} {session filters : List Filter}
    (hsession : Creates createFilter session) (hcreate : Creates createFilter filters) :
    (if session.map Filter.id = filters.map Filter.id then some session
      else (filters.map Filter.id).mapM createFilter) = some filters := by
  split
  · next heq =>
    have hmap := hsession.mapM
    rw [heq, hcreate.mapM] at hmap
    exact hmap.symm
  · exact hcreate.mapM

/-- The filters of a session after a message of a client with some filters. -/
def sessionFilters (session filters : List Filter) : List Filter :=
  if filters.isEmpty then session else filters

/-- The server takes off what a client put around a message. It has the client's filters
afterwards, whatever filters the session had before, when the ids of the session's filters stand
for the filters that the factory creates. -/
theorem decodeFilteredServer_encodeFiltered {createFilter : Int32 → Option Filter}
    {filters session : List Filter} (h : Chain filters) (hcreate : Creates createFilter filters)
    (hsession : Creates createFilter session) {front : ByteBuffer} {rest : List ByteBuffer}
    (hfront : front.bytes ≠ []) (h3 : front.bytes.head? ≠ some 3)
    (hlen : lengthByteBuffers (front :: rest) < 2 ^ 31)
    (hmargin : envelopeMax ≤ front.getLeftMargin) :
    ∃ message, encodeFiltered (front :: rest) filters = .ok message ∧
      front.getLeftMargin - envelopeMax ≤ frontMargin message ∧
      decodeFilteredServer createFilter session (messageBytes message)
        = .ok (!filters.isEmpty, sessionFilters session filters,
          messageBytes (front :: rest)) := by
  by_cases hne : filters = []
  · subst hne
    refine ⟨_, encodeFiltered_nil _, Nat.sub_le _ _, ?_⟩
    unfold decodeFilteredServer
    rw [openEnvelope_message hfront h3]
    rfl
  · obtain ⟨message, payload, hrun, hm, hopen, hdata⟩ :=
      openEnvelope_encodeFiltered h hne hfront hlen hmargin
    have hids : ¬ (filters.map Filter.id).isEmpty = true := by simpa using hne
    have hnone : filters.isEmpty = false := by simpa using hne
    have hcreated := hsession.created hcreate
    refine ⟨message, hrun, hm, ?_⟩
    unfold decodeFilteredServer sessionFilters
    rw [hopen, hnone]
    show (if (filters.map Filter.id).isEmpty then _ else _) = _
    rw [if_neg hids]
    simp only [hcreated, hdata]
    rfl

/-! ## Announced lengths -/

/-- A chain of at least one filter and at most ten, which the server has factories for. The server
gets the bytes of an enveloped message exactly when the payload is as long as announced. Otherwise
it reads on when nothing is left. -/
theorem decodeFilteredServer_announced {createFilter : Int32 → Option Filter}
    {filters session : List Filter} (h : Chain filters) (hne : filters ≠ [])
    (hcreate : Creates createFilter filters) (hsession : Creates createFilter session)
    (unfilteredLen : Int32) (payload : List UInt8) :
    decodeFilteredServer createFilter session (envelopeBytes filters unfilteredLen ++ payload)
      = if toSize unfilteredLen ≤ payload.length
        then .ok (true, filters, readChain filters (payload.take (toSize unfilteredLen)))
        else .error .assertion := by
  have hids : ¬ (filters.map Filter.id).isEmpty = true := by simpa using hne
  have hcreated := hsession.created hcreate
  unfold decodeFilteredServer
  rw [openEnvelope_envelope hne h.count]
  show (if (filters.map Filter.id).isEmpty then _ else _) = _
  rw [if_neg hids]
  simp only [hcreated]
  by_cases hle : toSize unfilteredLen ≤ payload.length
  · rw [if_pos hle, unfilterData_eq h.lawful hle]
    rfl
  · rw [if_neg hle, unfilterData_short h.lawful (by omega)]
    rfl

/-- The only filter is `xorFilter`. -/
theorem xorFilter_creates :
    Creates (fun id => if id = 101 then some xorFilter else none) [xorFilter] := by
  intro f hf
  rw [List.mem_singleton.mp hf]
  rfl

/-- Two bytes instead of the three that the envelope announces. -/
theorem decodeFilteredServer_announced_xor :
    decodeFilteredServer (fun id => if id = 101 then some xorFilter else none) []
        (envelopeBytes [xorFilter] 3 ++ [85, 84])
      = if toSize 3 ≤ [85, 84].length
        then .ok (true, [xorFilter], readChain [xorFilter] ([85, 84].take (toSize 3)))
        else .error .assertion :=
  decodeFilteredServer_announced xorFilter_chain (List.cons_ne_nil _ _) xorFilter_creates
    (Creates.nil _) 3 [85, 84]

end SpeechBridge.Rcf
