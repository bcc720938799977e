import SpeechBridge.Basic.LittleEndian
import SpeechBridge.Basic.Filling
import SpeechBridge.Model.Tracks

set_option autoImplicit false

/-! # Integers, flags and strings in message headers

The encoding functions of `src/RCF/src/RCF/MethodInvocation.cpp`. An integer below 255 is one
byte; any other integer is the byte 255 and four bytes. The encoders store into a vector that
they lengthen when it is too short, or into a byte buffer of fixed length; the decoders read a
byte buffer at a position.
-/

namespace SpeechBridge.Rcf

/-! ## Errors -/

namespace RcfError

def serverMessageLength : Int32 := 2
def clientMessageLength : Int32 := 3
def deserialization : Int32 := 5
def peerDisconnect : Int32 := 17
def payloadFilterMismatch : Int32 := 20
def unknownFilter : Int32 := 24
def noServerStub : Int32 := 25
def clientReadTimeout : Int32 := 30
def fnId : Int32 := 37
def unknownInterface : Int32 := 38
def filterCount : Int32 := 41
def filterMessage : Int32 := 42
def unfilterMessage : Int32 := 43
def decoding : Int32 := 64
def encoding : Int32 := 65
def versionMismatch : Int32 := 70
def deserializationNullPointer : Int32 := 78
def pingBack : Int32 := 80
def noPingBackService : Int32 := 81

end RcfError

/-- How an operation fails: it throws an `RCF::Exception` with its error or the
`std::length_error` of a container, or an assertion of the code does not hold (without
assertions the behaviour is then undefined, or the operation never returns). -/
inductive Failure
  | exception (error : Int32)
  | lengthError
  | assertion
  deriving DecidableEq, Repr

/-! ## Encoding -/

/-- The bytes of an integer. -/
def intBytes (value : Int32) : List UInt8 :=
  if 0 ≤ value ∧ value < 255 then [value.toUInt32.toUInt8]
  else 255 :: LittleEndian.bytes 4 value.toUInt32.toNat

/-- The byte of a flag. -/
def boolBytes (value : Bool) : List UInt8 := [if value then 1 else 0]

/-- The bytes of a string: its length and its characters. -/
def stringBytes (value : StdString) : List UInt8 :=
  intBytes (Int32.ofNat value.bytes.length) ++ value.bytes

/-- `encodeInt` into a byte buffer. -/
def encodeIntAt (value : Int32) (s : Filling UInt8) : Option (Filling UInt8) :=
  if 0 ≤ value ∧ value < 255 then s.store value.toUInt32.toUInt8
  else (s.store 255).bind (Filling.copy (LittleEndian.bytes 4 value.toUInt32.toNat))

/-- `encodeBool` into a byte buffer. -/
def encodeBoolAt (value : Bool) (s : Filling UInt8) : Option (Filling UInt8) :=
  s.store (if value then 1 else 0)

/-- `encodeInt` into a vector. -/
def encodeInt (value : Int32) (s : Filling UInt8) : Option (Filling UInt8) :=
  encodeIntAt value (s.reserve 0 5 5)

/-- `encodeBool` into a vector. -/
def encodeBool (value : Bool) (s : Filling UInt8) : Option (Filling UInt8) :=
  encodeBoolAt value (s.reserve 0 1 1)

/-- `encodeString` into a vector. -/
def encodeString (value : StdString) (s : Filling UInt8) : Option (Filling UInt8) :=
  (encodeInt (Int32.ofNat value.bytes.length) s).bind fun s =>
    Filling.copy value.bytes (s.reserve 0 value.bytes.length value.bytes.length)

theorem intBytes_length_le (value : Int32) : (intBytes value).length ≤ 5 := by
  unfold intBytes
  split
  · simp
  · simp

/-- A natural number below 255 is one byte. -/
theorem intBytes_ofNat {n : Nat} (h : n < 255) : intBytes (Int32.ofNat n) = [UInt8.ofNat n] := by
  have hn : (Int32.ofNat n).toInt = n := Int32.toInt_ofNat_of_lt (by omega)
  have hsmall : 0 ≤ Int32.ofNat n ∧ Int32.ofNat n < 255 := by
    have h255 : (255 : Int32).toInt = 255 := rfl
    rw [Int32.le_iff_toInt_le, Int32.lt_iff_toInt_lt, hn, h255]
    exact ⟨Int.natCast_nonneg _, by exact_mod_cast h⟩
  have hbyte : (Int32.ofNat n).toUInt32.toUInt8 = UInt8.ofNat n := by
    rw [Int32.toUInt32_ofNat', UInt32.toUInt8_ofNat']
  unfold intBytes
  rw [if_pos hsmall, hbyte]

theorem stores_encodeIntAt (value : Int32) :
    Filling.Stores (encodeIntAt value) (intBytes value) := by
  unfold intBytes encodeIntAt
  split
  · exact Filling.Stores.store _
  · exact (Filling.Stores.store 255).seq (Filling.Stores.copy _)

theorem stores_encodeBoolAt (value : Bool) :
    Filling.Stores (encodeBoolAt value) (boolBytes value) := Filling.Stores.store _

theorem writes_encodeInt (value : Int32) : Filling.Writes (encodeInt value) (intBytes value) :=
  Filling.Writes.of_reserve (stores_encodeIntAt value) 0 (intBytes_length_le value) le_rfl

theorem writes_encodeBool (value : Bool) :
    Filling.Writes (encodeBool value) (boolBytes value) :=
  Filling.Writes.of_reserve (stores_encodeBoolAt value) 0 le_rfl le_rfl

theorem writes_encodeString (value : StdString) :
    Filling.Writes (encodeString value) (stringBytes value) :=
  (writes_encodeInt _).seq
    (Filling.Writes.of_reserve (Filling.Stores.copy value.bytes) 0 le_rfl le_rfl)

/-! ## Decoding -/

def decodeBool : Decoder UInt8 Failure Bool := do
  let ch ← Decoder.item (.exception RcfError.decoding)
  Decoder.verify (ch = 0 ∨ ch = 1) (.exception RcfError.decoding)
  pure (ch = 1)

def decodeInt : Decoder UInt8 Failure Int32 := do
  let ch ← Decoder.item (.exception RcfError.decoding)
  if ch < 255 then
    pure (Int32.ofNat ch.toNat)
  else
    let n ← LittleEndian.word 4 (.exception RcfError.decoding)
    pure (UInt32.ofNat n).toInt32

/-- A negative length: `pos + len` is the position before `pos` or wraps around. In the first
case the check lets it pass, and `assign` rejects the length, which is huge as a `size_t`. -/
def decodeNegativeLength (len : Int32) : Decoder UInt8 Failure StdString := fun _ pos =>
  if len.toInt.natAbs ≤ pos then .error .lengthError
  else .error (.exception RcfError.decoding)

def decodeString : Decoder UInt8 Failure StdString := do
  let len ← decodeInt
  if len < 0 then
    decodeNegativeLength len
  else
    let l ← Decoder.items len.toInt.toNat (.exception RcfError.decoding)
    pure ⟨l⟩

/-! ### What they read -/

theorem reads_decodeBool (value : Bool) : decodeBool.Reads (boolBytes value) value := by
  refine (Decoder.Reads.item _ _).bind_nil ?_
  refine (Decoder.Reads.verify (by cases value <;> simp) _).nil_bind ?_
  exact Decoder.Reads.pure_of (by cases value <;> rfl)

theorem small_iff (value : Int32) :
    (0 ≤ value ∧ value < 255) ↔ 0 ≤ value.toInt ∧ value.toInt < 255 := by
  rw [Int32.le_iff_toInt_le, Int32.lt_iff_toInt_lt]
  exact Iff.rfl

/-- A small integer is the number of its byte. -/
theorem toNat_small {value : Int32} (h : 0 ≤ value ∧ value < 255) :
    value.toUInt32.toUInt8.toNat = value.toInt.toNat ∧ value.toInt.toNat < 255 := by
  have hnat := Int32.toNat_toUInt32_of_le h.1
  rw [← Int32.toNat_toInt] at hnat
  rw [small_iff] at h
  rw [UInt32.toNat_toUInt8, hnat]
  omega

theorem reads_decodeInt (value : Int32) : decodeInt.Reads (intBytes value) value := by
  unfold intBytes
  split
  · next h =>
    obtain ⟨hbyte, hlt⟩ := toNat_small h
    have hch : value.toUInt32.toUInt8 < 255 := by
      rw [UInt8.lt_iff_toNat_lt, hbyte]
      exact hlt
    refine (Decoder.Reads.item _ _).bind_nil ?_
    rw [if_pos hch]
    refine Decoder.Reads.pure_of ?_
    rw [hbyte, Int32.toNat_toInt, Int32.ofNat_toNatClampNeg value h.1]
  · have hlt : value.toUInt32.toNat < 256 ^ 4 := value.toUInt32.toNat_lt
    refine (Decoder.Reads.item (255 : UInt8) _).bind ?_
    rw [if_neg (by decide)]
    refine (LittleEndian.reads_word hlt _).bind_nil (Decoder.Reads.pure_of ?_)
    rw [UInt32.ofNat_toNat, Int32.toInt32_toUInt32]

/-- Strings of less than 2^31 characters. -/
theorem reads_decodeString {value : StdString} (h : value.bytes.length < 2 ^ 31) :
    decodeString.Reads (stringBytes value) value := by
  have hlen : (Int32.ofNat value.bytes.length).toInt = value.bytes.length :=
    Int32.toInt_ofNat_of_lt h
  have hnonneg : ¬ Int32.ofNat value.bytes.length < 0 := by
    rw [Int32.lt_iff_toInt_lt, hlen]
    exact not_lt.mpr (Int.natCast_nonneg _)
  refine (reads_decodeInt _).bind ?_
  rw [if_neg hnonneg, hlen, Int.toNat_natCast]
  exact (Decoder.Reads.items value.bytes _).bind_nil (Decoder.Reads.pure value)

theorem sound_decodeBool : decodeBool.Sound :=
  (Decoder.Sound.item _).bind fun _ => (Decoder.Sound.verify _ _).bind fun _ => Decoder.Sound.pure _

theorem sound_decodeInt : decodeInt.Sound := by
  refine (Decoder.Sound.item _).bind fun ch => ?_
  split
  · exact Decoder.Sound.pure _
  · exact (LittleEndian.sound_word 4 _).bind fun _ => Decoder.Sound.pure _

theorem sound_decodeNegativeLength (len : Int32) : (decodeNegativeLength len).Sound := by
  have hne : ∀ {buf : List UInt8} {pos : Nat} {r : StdString × Nat},
      decodeNegativeLength len buf pos ≠ .ok r := by
    intro buf pos r h
    unfold decodeNegativeLength at h
    split at h <;> cases h
  exact ⟨fun h => absurd h hne, fun h _ => absurd h hne, fun _ h => absurd h hne⟩

theorem sound_decodeString : decodeString.Sound := by
  refine sound_decodeInt.bind fun len => ?_
  split
  · exact sound_decodeNegativeLength len
  · exact (Decoder.Sound.items _ _).bind fun _ => Decoder.Sound.pure _

end SpeechBridge.Rcf
