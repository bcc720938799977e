import SpeechBridge.Basic.Codec
import SpeechBridge.Rcf.Encoding

set_option autoImplicit false

/-! # Streams of nodes

`OStream` and `IStream` of `src/RCF/src/SF/Stream.cpp`, the format of archives. A node is
bracketed by the symbols `BEGIN` and `END` and has attributes; data is a symbol, a length and the
bytes. Between the nodes a reader skips blanks, which no writer writes. What is read may be put
back.
-/

namespace SpeechBridge.Sf

open SpeechBridge.Rcf

namespace SfError

def refMismatch : Int32 := 56
def dataFormat : Int32 := 57
def readFailure : Int32 := 58

end SfError

/-! ## Symbols and nodes -/

def BEGIN : UInt8 := 0
def DATA : UInt8 := 1
def END : UInt8 := 2
def BLANK : UInt8 := 3

/-- The attributes of a node; a text may be null. -/
structure Node where
  type : Option (List UInt8)
  label : Option (List UInt8)
  id : UInt32
  ref : UInt32
  deriving DecidableEq, Repr

/-- The node that values are written with: `Node in("", "", 0, false)`. -/
def Node.plain : Node := ⟨some [], some [], 0, 0⟩

/-! ## Writing -/

namespace OStream

def writeByte (byte : UInt8) : List UInt8 := [byte]

def writeInt (n : UInt32) : List UInt8 := LittleEndian.bytes 4 n.toNat

/-- Bytes behind their length. -/
def write (bytes : List UInt8) : List UInt8 :=
  writeInt (UInt32.ofNat bytes.length) ++ bytes

/-- Which attributes follow. -/
def attributeBits (id ref type label : Bool) : UInt8 :=
  (if id then 1 else 0) ||| (if ref then 2 else 0) ||| (if type then 4 else 0)
    ||| (if label then 8 else 0)

def attrSpec (node : Node) : UInt8 :=
  attributeBits (node.id != 0) (node.ref != 0) node.type.isSome node.label.isSome

def beginNode (node : Node) : List UInt8 :=
  writeByte BEGIN ++ (writeByte (attrSpec node)
    ++ ((if node.id ≠ 0 then writeInt node.id else [])
      ++ ((node.type.map write).getD [] ++ (node.label.map write).getD [])))

def put (value : List UInt8) : List UInt8 := writeByte DATA ++ write value

def endNode : List UInt8 := writeByte END

end OStream

/-! ## Reading -/

namespace IStream

def readByte : Decoder UInt8 Failure UInt8 := Decoder.item (.exception SfError.readFailure)

def readInt : Decoder UInt8 Failure UInt32 := do
  let n ← LittleEndian.word 4 (.exception SfError.readFailure)
  pure (UInt32.ofNat n)

/-- A length, and as many bytes. `DataPtr::allocate` makes room for one byte more, computed with
32 bits. -/
def readData : Decoder UInt8 Failure (List UInt8) := do
  let length ← readInt
  Decoder.verify (length + 1 ≠ 0) .assertion
  Decoder.items length.toNat (.exception SfError.readFailure)

/-- A text, where there is one. -/
def readText (c : Prop) [Decidable c] (text : Option (List UInt8)) :
    Decoder UInt8 Failure (Option (List UInt8)) :=
  if c then do
    let bytes ← readData
    pure (some bytes)
  else pure text

/-- The attributes of a node, over those it has. -/
def readAttributes (attrSpec : UInt8) (node : Node) : Decoder UInt8 Failure Node := do
  let id ← (if attrSpec &&& 1 ≠ 0 then readInt else pure node.id)
  let type ← readText (attrSpec &&& 4 ≠ 0) node.type
  let label ← readText (attrSpec &&& 8 ≠ 0) node.label
  pure ⟨type, label, id, if attrSpec &&& 2 ≠ 0 then 1 else node.ref⟩

/-- The bytes of a blank. A `char` is signed: a vector of negative length is refused. -/
def skipBlank (count : UInt8) : Decoder UInt8 Failure Unit := do
  Decoder.verify (count < 128) .lengthError
  let _ ← Decoder.items count.toNat (.exception SfError.readFailure)
  pure ()

/-- `begin` behind its first byte: nothing is returned when a blank was skipped. -/
def beginWith (node : Node) (byte : UInt8) : Decoder UInt8 Failure (Option Node) :=
  if byte = BEGIN then do
    let attrSpec ← readByte
    let node ← readAttributes attrSpec node
    pure (some node)
  else if byte = BLANK then do
    let count ← readByte
    skipBlank count
    pure none
  else Decoder.fail (.exception SfError.dataFormat)

/-- `begin`, up to its recursion. A node that ends before it begins is left to `end`. -/
def beginOnce (node : Node) : Decoder UInt8 Failure (Option Node) := do
  match ← Decoder.itemIf (fun byte => byte ≠ END) (.exception SfError.readFailure) with
  | none => pure (some node)
  | some byte => beginWith node byte

def beginNode (node : Node) : Decoder UInt8 Failure Node :=
  Decoder.untilSome (beginOnce node) .assertion

/-- The data of a node, or no bytes when something else stands there. -/
def get : Decoder UInt8 Failure (List UInt8) := do
  match ← Decoder.itemIf (fun byte => byte = DATA) (.exception SfError.readFailure) with
  | some _ => readData
  | none => pure []

def endNode : Decoder UInt8 Failure Unit := do
  let byte ← readByte
  Decoder.verify (byte = END) (.exception SfError.dataFormat)

end IStream

/-! ## What they read -/

section

open IStream

theorem reads_readInt (n : UInt32) : readInt.Reads (OStream.writeInt n) n := by
  have hlt : n.toNat < 256 ^ 4 := n.toNat_lt
  refine (LittleEndian.reads_word hlt _).bind_nil (Decoder.Reads.pure_of ?_)
  rw [UInt32.ofNat_toNat]

theorem reads_readData {bytes : List UInt8} (h : bytes.length + 1 < 2 ^ 32) :
    readData.Reads (OStream.write bytes) bytes := by
  have hsize : bytes.length < UInt32.size := by
    show bytes.length < 2 ^ 32
    omega
  have hnat : (UInt32.ofNat bytes.length).toNat = bytes.length := UInt32.toNat_ofNat_of_lt hsize
  have hne : UInt32.ofNat bytes.length + 1 ≠ 0 := by
    intro h0
    have := congrArg UInt32.toNat h0
    rw [UInt32.toNat_add, hnat] at this
    have hone : (1 : UInt32).toNat = 1 := rfl
    have hzero : (0 : UInt32).toNat = 0 := rfl
    omega
  refine (reads_readInt _).bind ((Decoder.Reads.verify hne _).nil_bind ?_)
  rw [hnat]
  exact Decoder.Reads.items bytes _

theorem attributeBits_and : ∀ id ref type label : Bool,
    (OStream.attributeBits id ref type label &&& 1 ≠ 0 ↔ id = true) ∧
      (OStream.attributeBits id ref type label &&& 2 ≠ 0 ↔ ref = true) ∧
      (OStream.attributeBits id ref type label &&& 4 ≠ 0 ↔ type = true) ∧
      (OStream.attributeBits id ref type label &&& 8 ≠ 0 ↔ label = true) := by
  decide

/-- The node that is read, over the attributes of another. -/
def Node.over (node default : Node) : Node where
  type := node.type.or default.type
  label := node.label.or default.label
  id := if node.id ≠ 0 then node.id else default.id
  ref := if node.ref ≠ 0 then 1 else default.ref

/-- The texts of a node are data. -/
structure Node.Fits (node : Node) : Prop where
  type : ∀ bytes ∈ node.type, bytes.length + 1 < 2 ^ 32
  label : ∀ bytes ∈ node.label, bytes.length + 1 < 2 ^ 32

/-- A text of a node, if it is there. -/
theorem reads_readText {c : Prop} [Decidable c] {text : Option (List UInt8)}
    (hc : c ↔ text.isSome) (h : ∀ bytes ∈ text, bytes.length + 1 < 2 ^ 32)
    (default : Option (List UInt8)) :
    (readText c default).Reads ((text.map OStream.write).getD []) (text.or default) := by
  unfold readText
  cases text with
  | none =>
      rw [if_neg (fun hcond => by simpa using hc.mp hcond)]
      exact Decoder.Reads.pure default
  | some bytes =>
      rw [if_pos (hc.mpr rfl)]
      exact (reads_readData (h bytes rfl)).bind_nil (Decoder.Reads.pure (some bytes))

theorem reads_readAttributes {node : Node} (h : node.Fits) (default : Node) :
    (readAttributes (OStream.attrSpec node) default).Reads
      ((if node.id ≠ 0 then OStream.writeInt node.id else [])
        ++ ((node.type.map OStream.write).getD [] ++ (node.label.map OStream.write).getD []))
      (node.over default) := by
  obtain ⟨hid, href, htype, hlabel⟩ : _ ∧ _ := attributeBits_and (node.id != 0) (node.ref != 0)
    node.type.isSome node.label.isSome
  rw [bne_iff_ne] at hid href
  have hreadId : (if OStream.attrSpec node &&& 1 ≠ 0 then readInt else pure default.id).Reads
      (if node.id ≠ 0 then OStream.writeInt node.id else []) (node.over default).id := by
    unfold Node.over OStream.attrSpec
    by_cases h0 : node.id ≠ 0
    · rw [if_pos (hid.mpr h0), if_pos h0, if_pos h0]
      exact reads_readInt node.id
    · rw [if_neg (mt hid.mp h0), if_neg h0, if_neg h0]
      exact Decoder.Reads.pure default.id
  have href' : (if OStream.attrSpec node &&& 2 ≠ 0 then 1 else default.ref)
      = (node.over default).ref := if_congr href rfl rfl
  refine hreadId.bind ?_
  refine (reads_readText htype h.type default.type).bind ?_
  refine (reads_readText hlabel h.label default.label).bind_nil ?_
  rw [href']
  exact Decoder.Reads.pure (node.over default)

theorem reads_beginOnce {node : Node} (h : node.Fits) (default : Node) :
    (beginOnce default).Reads (OStream.beginNode node) (some (node.over default)) := by
  refine (Decoder.Reads.itemIf (by decide) _).bind ?_
  exact (Decoder.Reads.item _ _).bind ((reads_readAttributes h default).bind_nil
    (Decoder.Reads.pure _))

theorem reads_beginNode {node : Node} (h : node.Fits) (default : Node) :
    (beginNode default).Reads (OStream.beginNode node) (node.over default) :=
  (reads_beginOnce h default).untilSome _

theorem reads_get {bytes : List UInt8} (h : bytes.length + 1 < 2 ^ 32) :
    get.Reads (OStream.put bytes) bytes :=
  (Decoder.Reads.itemIf (by decide) _).bind (reads_readData h)

theorem reads_endNode : IStream.endNode.Reads OStream.endNode () :=
  (Decoder.Reads.item END _).bind_nil (Decoder.Reads.verify rfl _)

/-! ### They are sound -/

theorem sound_readInt : readInt.Sound :=
  (LittleEndian.sound_word 4 _).bind fun _ => Decoder.Sound.pure _

theorem sound_readData : readData.Sound :=
  sound_readInt.bind fun length => (Decoder.Sound.verify (length + 1 ≠ 0) _).bind fun _ =>
    Decoder.Sound.items _ _

theorem sound_readText (c : Prop) [Decidable c] (text : Option (List UInt8)) :
    (readText c text).Sound := by
  unfold readText
  split
  · exact sound_readData.bind fun _ => Decoder.Sound.pure _
  · exact Decoder.Sound.pure _

theorem sound_readAttributes (attrSpec : UInt8) (node : Node) :
    (readAttributes attrSpec node).Sound := by
  refine Decoder.Sound.bind ?_ fun _ => (sound_readText _ _).bind fun _ =>
    (sound_readText _ _).bind fun _ => Decoder.Sound.pure _
  split
  · exact sound_readInt
  · exact Decoder.Sound.pure _

theorem sound_skipBlank (count : UInt8) : (skipBlank count).Sound :=
  (Decoder.Sound.verify (count < 128) _).bind fun _ => (Decoder.Sound.items _ _).bind fun _ =>
    Decoder.Sound.pure _

theorem sound_beginWith (node : Node) (byte : UInt8) : (beginWith node byte).Sound := by
  unfold beginWith
  split
  · exact (Decoder.Sound.item _).bind fun _ => (sound_readAttributes _ _).bind fun _ =>
      Decoder.Sound.pure _
  · split
    · exact (Decoder.Sound.item _).bind fun _ => (sound_skipBlank _).bind fun _ =>
        Decoder.Sound.pure _
    · exact Decoder.Sound.fail _

theorem sound_beginOnce (node : Node) : (beginOnce node).Sound := by
  refine (Decoder.Sound.itemIf _ _).bind fun o => ?_
  cases o with
  | none => exact Decoder.Sound.pure _
  | some byte => exact sound_beginWith node byte

theorem sound_beginNode (node : Node) : (beginNode node).Sound :=
  (sound_beginOnce node).untilSome _

theorem sound_get : get.Sound := by
  refine (Decoder.Sound.itemIf _ _).bind fun o => ?_
  cases o with
  | none => exact Decoder.Sound.pure _
  | some byte => exact sound_readData

theorem sound_endNode : IStream.endNode.Sound :=
  (Decoder.Sound.item _).bind fun byte => Decoder.Sound.verify (byte = END) _

end

end SpeechBridge.Sf
