import SpeechBridge.Basic.Decoder

set_option autoImplicit false

/-! # Little-endian words

A word of `w` bytes, the byte of least significance first.
-/

namespace LittleEndian

/-- The `w` low bytes of `n`. -/
def bytes : Nat → Nat → List UInt8
  | 0, _ => []
  | w + 1, n => UInt8.ofNat n :: bytes w (n / 256)

/-- The number whose bytes these are. -/
def value : List UInt8 → Nat
  | [] => 0
  | b :: l => b.toNat + 256 * value l

@[simp] theorem bytes_length (w n : Nat) : (bytes w n).length = w := by
  induction w generalizing n with
  | zero => rfl
  | succ w ih => rw [bytes, List.length_cons, ih]

theorem value_bytes {w n : Nat} (h : n < 256 ^ w) : value (bytes w n) = n := by
  induction w generalizing n with
  | zero =>
      rw [pow_zero] at h
      rw [bytes, value]
      omega
  | succ w ih =>
      have hdiv : n / 256 < 256 ^ w := by
        rw [Nat.div_lt_iff_lt_mul (by decide), ← pow_succ]
        exact h
      rw [bytes, value, ih hdiv, UInt8.toNat_ofNat']
      omega

theorem value_lt (l : List UInt8) : value l < 256 ^ l.length := by
  induction l with
  | nil => exact Nat.one_pos
  | cons b l ih =>
      have hb := b.toNat_lt
      rw [value, List.length_cons, pow_succ]
      omega

/-- The bytes of the value are the bytes. -/
theorem bytes_value (l : List UInt8) : bytes l.length (value l) = l := by
  induction l with
  | nil => rfl
  | cons b l ih =>
      have hb := b.toNat_lt
      have hdiv : (b.toNat + 256 * value l) / 256 = value l := by omega
      have hlow : UInt8.ofNat (b.toNat + 256 * value l) = b := by
        apply UInt8.toNat_inj.mp
        rw [UInt8.toNat_ofNat']
        omega
      rw [List.length_cons, value, bytes, hdiv, ih, hlow]

variable {ε : Type}

/-- Read a word of `w` bytes. -/
def word (w : Nat) (e : ε) : Decoder UInt8 ε Nat := do
  let l ← Decoder.items w e
  pure (value l)

theorem reads_word {w n : Nat} (h : n < 256 ^ w) (e : ε) :
    (word w e).Reads (bytes w n) n := by
  have hitems := Decoder.Reads.items (bytes w n) e
  rw [bytes_length] at hitems
  exact hitems.bind_nil (Decoder.Reads.pure_of (value_bytes h))

theorem sound_word (w : Nat) (e : ε) : (word w e).Sound :=
  (Decoder.Sound.items w e).bind fun l => Decoder.Sound.pure (value l)

end LittleEndian
