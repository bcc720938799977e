import SpeechBridge.Sf.Stream

set_option autoImplicit false

/-! # Serializers

`SerializerBase` of `src/RCF/src/SF/Serializer.cpp` for values (neither pointers nor derived
types), with the contents of 32-bit integers (`SerializeFundamental.hpp` with the portable
encoding of `Encoding.hpp`), strings (`string.hpp`) and vectors (`vector.hpp` and
`SerializeStl.hpp`). Every value is a node, and so is every count inside it. Writers do not track
pointers: no node has an id.
-/

namespace SpeechBridge.Sf

open SpeechBridge.Rcf

/-! ## Nodes of values -/

def invokeWrite (contents : List UInt8) : List UInt8 :=
  OStream.beginNode .plain ++ (contents ++ OStream.endNode)

/-- A node may have an id, which only pointers refer to. A reference is not a value. -/
def invokeRead {α : Type} (serializeContents : Decoder UInt8 Failure α) :
    Decoder UInt8 Failure α := do
  let node ← IStream.beginNode .plain
  Decoder.verify (node.ref = 0) (.exception
    (if node.id ≠ 0 then SfError.refMismatch else RcfError.deserializationNullPointer))
  let t ← serializeContents
  IStream.endNode
  pure t

section

variable {α : Type} {serializeContents : Decoder UInt8 Failure α}

theorem plain_fits : Node.plain.Fits := by
  constructor
  all_goals
    rintro bytes ⟨⟩
    decide

theorem reads_invokeRead {contents : List UInt8} {t : α}
    (h : serializeContents.Reads contents t) :
    (invokeRead serializeContents).Reads (invokeWrite contents) t := by
  refine (reads_beginNode plain_fits .plain).bind ?_
  refine (Decoder.Reads.verify (by rfl) _).nil_bind ?_
  exact h.bind (reads_endNode.bind_nil (Decoder.Reads.pure t))

theorem sound_invokeRead (h : serializeContents.Sound) : (invokeRead serializeContents).Sound := by
  refine (sound_beginNode .plain).bind fun node => ?_
  refine (Decoder.Sound.verify (node.ref = 0) _).bind fun _ => ?_
  exact h.bind fun t => sound_endNode.bind fun _ => Decoder.Sound.pure t

theorem invokeWrite_ne (contents : List UInt8) : invokeWrite contents ≠ [] := by
  intro h
  simp [invokeWrite, OStream.beginNode, OStream.writeByte] at h

end

/-! ## Integers -/

/-- The data of a 32-bit integer are four bytes. -/
def readInt32 : Decoder UInt8 Failure UInt32 := do
  let data ← IStream.get
  Decoder.verify (data.length = 4) (.exception SfError.dataFormat)
  pure (UInt32.ofNat (LittleEndian.value data))

def writeUInt32 (n : UInt32) : List UInt8 :=
  invokeWrite (OStream.put (LittleEndian.bytes 4 n.toNat))

def readUInt32 : Decoder UInt8 Failure UInt32 := invokeRead readInt32

theorem reads_readInt32 (n : UInt32) :
    readInt32.Reads (OStream.put (LittleEndian.bytes 4 n.toNat)) n := by
  have hlen : (LittleEndian.bytes 4 n.toNat).length = 4 := LittleEndian.bytes_length 4 _
  have hvalue : UInt32.ofNat (LittleEndian.value (LittleEndian.bytes 4 n.toNat)) = n := by
    rw [LittleEndian.value_bytes n.toNat_lt, UInt32.ofNat_toNat]
  refine (reads_get (by rw [hlen]; decide)).bind_nil ?_
  exact (Decoder.Reads.verify hlen _).bind_nil (Decoder.Reads.pure_of hvalue)

theorem reads_readUInt32 (n : UInt32) : readUInt32.Reads (writeUInt32 n) n :=
  reads_invokeRead (reads_readInt32 n)

theorem sound_readUInt32 : readUInt32.Sound := by
  refine sound_invokeRead (sound_get.bind fun data => ?_)
  exact (Decoder.Sound.verify (data.length = 4) _).bind fun _ => Decoder.Sound.pure _

/-- A count that fits is read back. -/
theorem toNat_count {n : Nat} (h : n < 2 ^ 32) : (UInt32.ofNat n).toNat = n :=
  UInt32.toNat_ofNat_of_lt (show n < UInt32.size from h)

/-! ## Strings -/

/-- The length of the buffer that strings are read through. -/
def BufferSize : Nat := 512

def writeString (t : StdString) : List UInt8 :=
  let count := UInt32.ofNat t.bytes.length
  invokeWrite (writeUInt32 count ++ t.bytes.take count.toNat)

def readString : Decoder UInt8 Failure StdString := invokeRead do
  let count ← readUInt32
  let bytes ← Decoder.pieces BufferSize (.exception SfError.readFailure) count.toNat count.toNat
  pure ⟨bytes⟩

theorem reads_readString {t : StdString} (h : t.bytes.length < 2 ^ 32) :
    readString.Reads (writeString t) t := by
  have hcount := toNat_count h
  have hpieces := Decoder.Reads.pieces (b := BufferSize) (by decide) t.bytes le_rfl
    (Failure.exception SfError.readFailure)
  refine reads_invokeRead ((reads_readUInt32 _).bind ?_)
  rw [hcount, List.take_length]
  exact hpieces.bind_nil (Decoder.Reads.pure t)

theorem sound_readString : readString.Sound := by
  refine sound_invokeRead (sound_readUInt32.bind fun count => ?_)
  exact (Decoder.Sound.pieces _ _ _ _).bind fun bytes => Decoder.Sound.pure _

/-! ## Vectors -/

section

variable {α : Type}

def writeVector (write : α → List UInt8) (t : List α) : List UInt8 :=
  let count := UInt32.ofNat t.length
  invokeWrite (writeUInt32 count ++ (t.take count.toNat).flatMap write)

def readVector (read : Decoder UInt8 Failure α) : Decoder UInt8 Failure (List α) := invokeRead do
  let count ← readUInt32
  Decoder.times read count.toNat

variable {write : α → List UInt8} {read : Decoder UInt8 Failure α}

theorem reads_readVector {t : List α} (h : t.length < 2 ^ 32)
    (hread : ∀ a ∈ t, read.Reads (write a) a) :
    (readVector read).Reads (writeVector write t) t := by
  have hcount := toNat_count h
  refine reads_invokeRead ((reads_readUInt32 _).bind ?_)
  rw [hcount, List.take_length]
  exact Decoder.Reads.times hread

theorem sound_readVector (hread : read.Sound) : (readVector read).Sound :=
  sound_invokeRead (sound_readUInt32.bind fun count => hread.times count.toNat)

end

/-! ## Types of values -/

/-- The types that the functions of the interface take and return: strings, and vectors that are
not of a fundamental type. -/
inductive SfType
  | string
  | vector (t : SfType)
  deriving DecidableEq, Repr

namespace SfType

def Value : SfType → Type
  | string => StdString
  | vector t => List t.Value

/-- What an object of the type is before something is assigned: `T()`. -/
def initial : (t : SfType) → t.Value
  | string => (⟨[]⟩ : StdString)
  | vector t => ([] : List t.Value)

def write : (t : SfType) → t.Value → List UInt8
  | string => writeString
  | vector t => writeVector t.write

def read : (t : SfType) → Decoder UInt8 Failure t.Value
  | string => readString
  | vector t => readVector t.read

/-- The counts inside the value have 32 bits. -/
def Counted : (t : SfType) → t.Value → Prop
  | string => fun s : StdString => s.bytes.length < 2 ^ 32
  | vector t => fun l : List t.Value => l.length < 2 ^ 32 ∧ ∀ a ∈ l, t.Counted a

def codec (t : SfType) : Codec UInt8 Failure t.Value := ⟨t.write, t.read⟩

theorem write_ne (t : SfType) (a : t.Value) : t.write a ≠ [] := by
  cases t with
  | string => exact invokeWrite_ne _
  | vector t => exact invokeWrite_ne _

theorem reads (t : SfType) (a : t.Value) (h : t.Counted a) : t.read.Reads (t.write a) a := by
  induction t with
  | string => exact reads_readString h
  | vector t ih => exact reads_readVector h.1 fun b hb => ih b (h.2 b hb)

theorem sound (t : SfType) : t.read.Sound := by
  induction t with
  | string => exact sound_readString
  | vector t ih => exact sound_readVector ih

/-- Values of every type are read back. -/
theorem lawful (t : SfType) : t.codec.Lawful t.Counted := ⟨t.write_ne, t.reads, t.sound⟩

end SfType

end SpeechBridge.Sf
