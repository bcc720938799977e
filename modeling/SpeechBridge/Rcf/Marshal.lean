import SpeechBridge.Rcf.SerializationProtocol
import SpeechBridge.Sf.Serializer

set_option autoImplicit false

/-! # Parameters and results

What `ClientParameters` and `ServerParameters` of `src/RCF/include/RCF/Marshal.hpp` write and read
through the serialization protocols of `src/RCF/include/RCF/SerializationProtocol.hpp`. The
parameters of a call are values that stand one after the other in an archive. A reader that finds
nothing left in the archive keeps an initial value, and does not look behind the last value.
-/

namespace SpeechBridge.Rcf

open SpeechBridge.Sf

/-! ## Serialization protocols -/

/-- The protocols that are declared but not part of the program. -/
def Undefined (protocol : Int32) : Prop :=
  protocol = SfText ∨ protocol = BsBinary ∨ protocol = BsText ∨ protocol = BsXml

instance (protocol : Int32) : Decidable (Undefined protocol) := by
  unfold Undefined
  infer_instance

namespace RcfError

def serialization : Int32 := 4
def unknownSerializationProtocol : Int32 := 53

end RcfError

/-- Errors of the library are thrown again, others become a `SerializationException`. -/
def Failure.thrownAgain : Failure → Failure
  | .exception error => .exception error
  | .lengthError => .exception RcfError.deserialization
  | .assertion => .assertion

/-- `SerializationProtocolOut::write`: every exception becomes a `SerializationException`. -/
def serialize (protocol : Int32) (t : SfType) (a : t.Value) : Except Failure Output :=
  if protocol = SfBinary then .ok (.write (t.write a))
  else if Undefined protocol then .error (.exception RcfError.serialization)
  else .error .assertion

/-- `SerializationProtocolIn::read`. -/
def deserialize (protocol : Int32) (t : SfType) : Decoder UInt8 Failure t.Value :=
  if protocol = SfBinary then t.read.mapError Failure.thrownAgain
  else if Undefined protocol then
    Decoder.fail (.exception RcfError.unknownSerializationProtocol)
  else Decoder.fail .assertion

/-! ## Parameters -/

/-- A value and its type. -/
abbrev Parameter : Type := Σ t : SfType, t.Value

/-- The parameters of a function. -/
abbrev Parameters (types : List SfType) : Type := Codec.Values SfType.Value types

/-- `ClientParameters::write`, or the results of `ServerParameters::write`. -/
def writeParameters (protocol : Int32) : List Parameter → Except Failure (List Output)
  | [] => .ok []
  | a :: args => do
      let output ← serialize protocol a.1 a.2
      let outputs ← writeParameters protocol args
      .ok (output :: outputs)

/-- The values of an archive. -/
def archive (protocol : Int32) (t : SfType) : Codec UInt8 Failure t.Value :=
  ⟨t.write, deserialize protocol t⟩

/-- `ServerParameters::read`, or the results of `ClientParameters::read`: a `Local_Value` is read
unless nothing is left in the archive. -/
def readParameters (protocol : Int32) (types : List SfType) :
    Decoder UInt8 Failure (Parameters types) :=
  Codec.readAll (archive protocol) SfType.initial types

theorem lawful_archive (t : SfType) : (archive SfBinary t).Lawful t.Counted where
  nonempty := t.lawful.nonempty
  reads a h := (t.lawful.reads a h).mapError _
  sound := t.lawful.sound.mapError _

/-- What is put into the output for some parameters. -/
def outputs (args : List Parameter) : List Output := args.map fun a => .write (a.1.write a.2)

/-- The archive of some parameters. -/
def archiveBytes (args : List Parameter) : List UInt8 := Codec.writeAll (archive SfBinary) args

/-- Only the binary protocol writes anything. -/
theorem writeParameters_eq_ok {protocol : Int32} {args : List Parameter} {outs : List Output}
    (h : writeParameters protocol args = .ok outs) : outs = outputs args := by
  induction args generalizing outs with
  | nil =>
      injection h with h
      exact h.symm
  | cons a args ih =>
      rw [writeParameters, serialize] at h
      split at h
      · cases hrest : writeParameters protocol args with
        | error e =>
            rw [hrest] at h
            cases h
        | ok rest =>
            rw [hrest] at h
            cases h
            rw [ih hrest]
            rfl
      · split at h <;> cases h

theorem writeParameters_binary (args : List Parameter) :
    writeParameters SfBinary args = .ok (outputs args) := by
  induction args with
  | nil => rfl
  | cons a args ih =>
      rw [writeParameters, ih]
      rfl

theorem outputs_bytes (args : List Parameter) :
    (outputs args).flatMap Output.bytes = archiveBytes args := by
  induction args with
  | nil => rfl
  | cons a args ih =>
      calc (outputs (a :: args)).flatMap Output.bytes
          = a.1.write a.2 ++ (outputs args).flatMap Output.bytes := List.flatMap_cons
        _ = a.1.write a.2 ++ archiveBytes args := by rw [ih]
        _ = archiveBytes (a :: args) := by
          unfold archiveBytes
          rw [Codec.writeAll_cons]
          rfl

/-! ## What is received -/

/-- What the callee reads when the caller has written `args`. -/
theorem readParameters_archive {types : List SfType} {args : List Parameter}
    (hagree : Codec.Agree types args) (hargs : ∀ a ∈ args, a.1.Counted a.2) :
    ∃ ps, readParameters SfBinary types (archiveBytes args) 0
        = .ok (ps, (archiveBytes (args.take types.length)).length) ∧
      Codec.Values.toList ps = Codec.complete SfType.initial types args := by
  have hnil : args.length < types.length → ([] : List UInt8) = [] := fun _ => rfl
  obtain ⟨ps, hread, hps⟩ := Codec.readAll_writeAll (V := SfType.Value) lawful_archive
    hagree hargs [] hnil
  refine ⟨ps, ?_, hps⟩
  simpa [readParameters, archiveBytes] using hread

/-- Parameters of the expected types are read back. -/
theorem readParameters_toList {types : List SfType} (ps : Parameters types)
    (hps : ∀ a ∈ Codec.Values.toList ps, a.1.Counted a.2) :
    ∃ pos, readParameters SfBinary types (archiveBytes (Codec.Values.toList ps)) 0
      = .ok (ps, pos) := by
  have hagree := Codec.agree_of_eq (Codec.Values.toList_types ps)
  obtain ⟨ps', hread, heq⟩ := readParameters_archive hagree hps
  rw [Codec.complete_toList] at heq
  rw [Codec.Values.toList_injective heq] at hread
  exact ⟨_, hread⟩

/-- **Interfaces may differ.** Caller and callee agree on the types of the parameters that both
know. Whatever number of parameters the caller writes, the callee gets those that it knows, and
initial values for those that the caller does not know. -/
theorem parameters_received {types : List SfType} {args : List Parameter}
    (hagree : Codec.Agree types args) (hargs : ∀ a ∈ args, a.1.Counted a.2) :
    ∃ outs ps, writeParameters SfBinary args = .ok outs ∧
      readParameters SfBinary types (outs.flatMap Output.bytes) 0
        = .ok (ps, (archiveBytes (args.take types.length)).length) ∧
      Codec.Values.toList ps = Codec.complete SfType.initial types args := by
  obtain ⟨ps, hread, hps⟩ := readParameters_archive hagree hargs
  refine ⟨outputs args, ps, writeParameters_binary args, ?_, hps⟩
  rw [outputs_bytes]
  exact hread

/-- The string `"A"`. -/
def letterA : Parameter := ⟨.string, (⟨[65]⟩ : StdString)⟩

theorem letterA_counted : letterA.1.Counted letterA.2 := by
  show [(65 : UInt8)].length < 2 ^ 32
  decide

/-- The caller knows one parameter, the callee two. -/
theorem parameters_received_fewer :
    ∃ outs ps, writeParameters SfBinary [letterA] = .ok outs ∧
      readParameters SfBinary [.string, .string] (outs.flatMap Output.bytes) 0
        = .ok (ps, (archiveBytes [letterA]).length) ∧
      Codec.Values.toList ps = Codec.complete SfType.initial [.string, .string] [letterA] := by
  have hagree : Codec.Agree [SfType.string, SfType.string] [letterA] := rfl
  refine parameters_received hagree ?_
  intro a ha
  rw [List.mem_singleton.mp ha]
  exact letterA_counted

/-- **Archives that are cut off.** An archive of parameters that is cut off inside a value is
rejected. One that is cut off behind a value is read, with initial values for what is missing. -/
theorem parameters_cut {args : List Parameter} (hargs : ∀ a ∈ args, a.1.Counted a.2) {n : Nat}
    (hn : n < (archiveBytes args).length) :
    (∃ m ps, n = (archiveBytes (args.take m)).length ∧
        readParameters SfBinary (args.map Sigma.fst) ((archiveBytes args).take n) 0 = .ok (ps, n) ∧
        Codec.Values.toList ps
          = Codec.complete SfType.initial (args.map Sigma.fst) (args.take m)) ∨
      ((∀ m, n ≠ (archiveBytes (args.take m)).length) ∧
        ∃ e, readParameters SfBinary (args.map Sigma.fst) ((archiveBytes args).take n) 0
          = .error e) := by
  rcases Codec.readAll_cut (V := SfType.Value) lawful_archive hargs [] hn with
    ⟨m, ps, hm, hread, hps⟩ | ⟨hno, e, he⟩
  · left
    rw [List.length_nil, Nat.zero_add] at hread
    exact ⟨m, ps, hm, hread, hps⟩
  · right
    exact ⟨hno, e, he⟩

/-- A string that is cut off inside its count. -/
theorem parameters_cut_count :
    (∃ m ps, 24 = (archiveBytes ([letterA].take m)).length ∧
        readParameters SfBinary ([letterA].map Sigma.fst) ((archiveBytes [letterA]).take 24) 0
          = .ok (ps, 24) ∧
        Codec.Values.toList ps
          = Codec.complete SfType.initial ([letterA].map Sigma.fst) ([letterA].take m)) ∨
      ((∀ m, 24 ≠ (archiveBytes ([letterA].take m)).length) ∧
        ∃ e, readParameters SfBinary ([letterA].map Sigma.fst) ((archiveBytes [letterA]).take 24) 0
          = .error e) := by
  refine parameters_cut ?_ (by decide +kernel)
  intro a ha
  rw [List.mem_singleton.mp ha]
  exact letterA_counted

end SpeechBridge.Rcf
