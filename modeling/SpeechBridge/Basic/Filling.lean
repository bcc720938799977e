import Mathlib

set_option autoImplicit false

/-! # Filling a buffer from the front

A writer stores symbols at a position of a buffer. Storing outside the buffer is not possible:
the writer then has no result. `Stores w x` says that `w` overwrites the symbols at the position
with `x` when there is room for it, in a buffer of fixed length. `Writes w x` says that `w` puts
`x` behind what is written, in every buffer, because it lengthens the buffer first. Both
compose, and a writer that `Writes` gives the same result whatever the buffer held
(`Writes.from_front`).
-/

/-- A buffer and the position up to which it is filled. -/
structure Filling (σ : Type) where
  buf : List σ
  pos : Nat

namespace Filling

variable {σ : Type}

/-- What has been written so far. -/
def written (s : Filling σ) : List σ := s.buf.take s.pos

/-- The symbols at the position overwritten with `x`. -/
def overwrite (x : List σ) (s : Filling σ) : Filling σ :=
  ⟨s.buf.take s.pos ++ (x ++ s.buf.drop (s.pos + x.length)), s.pos + x.length⟩

/-- Store one symbol. -/
def store (x : σ) (s : Filling σ) : Option (Filling σ) :=
  if s.pos < s.buf.length then some ⟨s.buf.set s.pos x, s.pos + 1⟩ else none

/-- Copy symbols. -/
def copy (x : List σ) (s : Filling σ) : Option (Filling σ) :=
  if s.pos + x.length ≤ s.buf.length then some (s.overwrite x) else none

/-- Lengthen the buffer by `k` symbols `z` when fewer than `n` symbols are left. -/
def reserve (z : σ) (n k : Nat) (s : Filling σ) : Filling σ :=
  if s.pos + n > s.buf.length then ⟨s.buf ++ List.replicate k z, s.pos⟩ else s

/-- `w` overwrites the symbols at the position with `x`. -/
def Stores (w : Filling σ → Option (Filling σ)) (x : List σ) : Prop :=
  ∀ s : Filling σ, s.pos + x.length ≤ s.buf.length → w s = some (s.overwrite x)

/-- `w` puts `x` behind what is written. -/
def Writes (w : Filling σ → Option (Filling σ)) (x : List σ) : Prop :=
  ∀ s : Filling σ, s.pos ≤ s.buf.length →
    ∃ s', w s = some s' ∧ s'.pos ≤ s'.buf.length ∧ s'.written = s.written ++ x

/-! ## Overwriting -/

section

variable {x y : List σ} {s : Filling σ}

theorem take_pos_length (h : s.pos + x.length ≤ s.buf.length) :
    (s.buf.take s.pos).length = s.pos := by
  rw [List.length_take]
  omega

theorem overwrite_length (h : s.pos + x.length ≤ s.buf.length) :
    (s.overwrite x).buf.length = s.buf.length := by
  have htake := take_pos_length h
  simp only [overwrite, List.length_append, List.length_drop, htake]
  omega

theorem overwrite_written (h : s.pos + x.length ≤ s.buf.length) :
    (s.overwrite x).written = s.written ++ x := by
  have hlen : (s.buf.take s.pos ++ x).length = s.pos + x.length := by
    rw [List.length_append, take_pos_length h]
  show (s.buf.take s.pos ++ (x ++ s.buf.drop (s.pos + x.length))).take (s.pos + x.length) = _
  rw [← List.append_assoc]
  exact List.take_left' hlen

theorem overwrite_overwrite (h : s.pos + (x ++ y).length ≤ s.buf.length) :
    (s.overwrite x).overwrite y = s.overwrite (x ++ y) := by
  rw [List.length_append] at h
  have hx : s.pos + x.length ≤ s.buf.length := by omega
  have hfront : (s.overwrite x).buf.take (s.pos + x.length) = s.buf.take s.pos ++ x :=
    overwrite_written hx
  have hlen : (s.buf.take s.pos ++ x).length = s.pos + x.length := by
    rw [List.length_append, take_pos_length hx]
  have hback : (s.overwrite x).buf.drop (s.pos + x.length + y.length)
      = s.buf.drop (s.pos + x.length + y.length) := by
    show (s.buf.take s.pos ++ (x ++ s.buf.drop (s.pos + x.length))).drop _ = _
    rw [← List.append_assoc, ← hlen, List.drop_append, List.drop_eq_nil_of_le (by omega), hlen,
      List.nil_append, List.drop_drop]
    congr 1
    omega
  show (⟨(s.overwrite x).buf.take (s.pos + x.length)
      ++ (y ++ (s.overwrite x).buf.drop (s.pos + x.length + y.length)),
    s.pos + x.length + y.length⟩ : Filling σ) = _
  rw [hfront, hback, overwrite, List.length_append, List.append_assoc, List.append_assoc,
    Nat.add_assoc]

end

/-! ## Buffers of fixed length -/

namespace Stores

protected theorem store (x : σ) : Stores (store x) [x] := by
  intro s h
  have hlt : s.pos < s.buf.length := by simp at h; omega
  unfold store overwrite
  rw [if_pos hlt, List.set_eq_take_append_cons_drop, if_pos hlt]
  rfl

protected theorem copy (x : List σ) : Stores (copy x) x := fun _ h => if_pos h

/-- Two writers in sequence. -/
theorem seq {w w' : Filling σ → Option (Filling σ)} {x y : List σ} (h : Stores w x)
    (h' : Stores w' y) : Stores (fun s => (w s).bind w') (x ++ y) := by
  intro s hs
  have hs' := hs
  rw [List.length_append] at hs'
  have hx : s.pos + x.length ≤ s.buf.length := by omega
  have hy : (s.overwrite x).pos + y.length ≤ (s.overwrite x).buf.length := by
    rw [overwrite_length hx]
    show s.pos + x.length + y.length ≤ s.buf.length
    omega
  show (w s).bind w' = _
  rw [h s hx, Option.bind_some, h' _ hy, overwrite_overwrite hs]

/-- Started at the front of a buffer that is long enough. -/
theorem from_front {w : Filling σ → Option (Filling σ)} {x : List σ} (h : Stores w x)
    (buf : List σ) (hlen : x.length ≤ buf.length) :
    (w ⟨buf, 0⟩).map Filling.buf = some (x ++ buf.drop x.length) := by
  rw [h ⟨buf, 0⟩ (by simpa using hlen), Option.map_some]
  simp [overwrite]

end Stores

/-! ## Buffers that grow -/

namespace Writes

/-- A writer that makes room first. -/
theorem of_reserve {w : Filling σ → Option (Filling σ)} {x : List σ} (hw : Stores w x) (z : σ)
    {n k : Nat} (hx : x.length ≤ n) (hk : n ≤ k) : Writes (fun s => w (reserve z n k s)) x := by
  intro s hs
  have hpos : (reserve z n k s).pos = s.pos := by
    unfold reserve
    split <;> rfl
  have hroom : s.pos + n ≤ (reserve z n k s).buf.length := by
    unfold reserve
    split
    · simp only [List.length_append, List.length_replicate]
      omega
    · omega
  have hkeep : (reserve z n k s).written = s.written := by
    unfold reserve
    split
    · exact List.take_append_of_le_length hs
    · rfl
  have hfit : (reserve z n k s).pos + x.length ≤ (reserve z n k s).buf.length := by omega
  refine ⟨_, hw _ hfit, ?_, by rw [overwrite_written hfit, hkeep]⟩
  rw [overwrite_length hfit]
  exact hfit

/-- Two writers in sequence. -/
theorem seq {w w' : Filling σ → Option (Filling σ)} {x y : List σ} (h : Writes w x)
    (h' : Writes w' y) : Writes (fun s => (w s).bind w') (x ++ y) := by
  intro s hs
  obtain ⟨s₁, h₁, hin₁, hw₁⟩ := h s hs
  obtain ⟨s₂, h₂, hin₂, hw₂⟩ := h' s₁ hin₁
  refine ⟨s₂, ?_, hin₂, by rw [hw₂, hw₁, List.append_assoc]⟩
  show (w s).bind w' = some s₂
  rw [h₁, Option.bind_some, h₂]

/-- Started at the front of a buffer, cut off at the end: whatever the buffer held. -/
theorem from_front {w : Filling σ → Option (Filling σ)} {x : List σ} (h : Writes w x)
    (buf : List σ) : (w ⟨buf, 0⟩).map written = some x := by
  obtain ⟨s', h₁, -, hw⟩ := h ⟨buf, 0⟩ (Nat.zero_le _)
  rw [h₁, Option.map_some, hw]
  rfl

end Writes

end Filling
