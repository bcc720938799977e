import Mathlib

set_option autoImplicit false

/-! # Decoders at a position of a buffer

A decoder reads a buffer from a position on: it fails with an error, or returns a value and the
position behind what it read. Two notions carry the proofs about formats. `Reads d x a` says
that `d` turns the symbols `x` into `a`, wherever in a buffer they stand; it composes along
`bind`. `Sound d` says that a successful run moves forward, stays inside the buffer, and does
not depend on what is appended to the buffer. Together they show that a decoder rejects every
proper prefix of what it reads (`error_of_cut`).
-/

/-- A decoder of values `α` from symbols `σ`, with errors `ε`. -/
def Decoder (σ ε α : Type) : Type := List σ → Nat → Except ε (α × Nat)

namespace Decoder

variable {σ ε α β : Type}

instance : Monad (Decoder σ ε) where
  pure a := fun _ pos => .ok (a, pos)
  bind d f := fun buf pos =>
    match d buf pos with
    | .error e => .error e
    | .ok (a, pos') => f a buf pos'

theorem bind_apply_ok {d : Decoder σ ε α} {buf : List σ} {pos pos' : Nat} {a : α}
    (h : d buf pos = .ok (a, pos')) (f : α → Decoder σ ε β) :
    (d >>= f) buf pos = f a buf pos' := by
  show (match d buf pos with
    | .error e => Except.error e
    | .ok (a, pos') => f a buf pos') = _
  rw [h]

theorem bind_apply_error {d : Decoder σ ε α} {buf : List σ} {pos : Nat} {e : ε}
    (h : d buf pos = .error e) (f : α → Decoder σ ε β) :
    (d >>= f) buf pos = .error e := by
  show (match d buf pos with
    | .error e => Except.error e
    | .ok (a, pos') => f a buf pos') = _
  rw [h]

/-- The inversion rule for a sequence that succeeds. -/
theorem bind_eq_ok {d : Decoder σ ε α} {f : α → Decoder σ ε β} {buf : List σ} {pos : Nat}
    {r : β × Nat} (h : (d >>= f) buf pos = .ok r) :
    ∃ a pos', d buf pos = .ok (a, pos') ∧ f a buf pos' = .ok r := by
  cases hd : d buf pos with
  | error e =>
      rw [bind_apply_error hd f] at h
      cases h
  | ok p => exact ⟨p.1, p.2, rfl, by rwa [bind_apply_ok hd f] at h⟩

/-! ## Elementary decoders -/

/-- Fail. -/
def fail (e : ε) : Decoder σ ε α := fun _ _ => .error e

/-- Go on when the condition holds, and fail otherwise. -/
def verify (c : Prop) [Decidable c] (e : ε) : Decoder σ ε Unit :=
  fun _ pos => if c then .ok ((), pos) else .error e

/-- The next symbol. -/
def item (e : ε) : Decoder σ ε σ := fun buf pos =>
  match buf[pos]? with
  | some x => .ok (x, pos + 1)
  | none => .error e

/-- The next `n` symbols. -/
def items (n : Nat) (e : ε) : Decoder σ ε (List σ) := fun buf pos =>
  if pos + n ≤ buf.length then .ok ((buf.drop pos).take n, pos + n) else .error e

/-- `n` values, one after the other. -/
def times (d : Decoder σ ε α) : Nat → Decoder σ ε (List α)
  | 0 => pure []
  | n + 1 => do
      let a ← d
      let l ← times d n
      pure (a :: l)

/-- The next symbol, which is put back when it is not accepted. -/
def itemIf (accept : σ → Bool) (e : ε) : Decoder σ ε (Option σ) := fun buf pos =>
  match buf[pos]? with
  | some x => if accept x then .ok (some x, pos + 1) else .ok (none, pos)
  | none => .error e

/-- `n` symbols, at most `b` at a time. -/
def pieces (b : Nat) (e : ε) : Nat → Nat → Decoder σ ε (List σ)
  | 0, _ => pure []
  | fuel + 1, n =>
      if n = 0 then pure []
      else do
        let l ← items (min b n) e
        let rest ← pieces b e fuel (n - min b n)
        pure (l ++ rest)

/-- Repeat a decoder until it gives a value. -/
def repeatFuel (d : Decoder σ ε (Option α)) (e : ε) : Nat → Decoder σ ε α
  | 0 => fail e
  | fuel + 1 => do
      match ← d with
      | some a => pure a
      | none => repeatFuel d e fuel

/-- Repeat a decoder that moves forward; every symbol is fuel for one round. -/
def untilSome (d : Decoder σ ε (Option α)) (e : ε) : Decoder σ ε α := fun buf pos =>
  repeatFuel d e (buf.length - pos + 1) buf pos

/-- The errors of a decoder, changed. -/
def mapError {ε' : Type} (f : ε → ε') (d : Decoder σ ε α) : Decoder σ ε' α := fun buf pos =>
  (d buf pos).mapError f

theorem mapError_eq_ok {ε' : Type} {f : ε → ε'} {d : Decoder σ ε α} {buf : List σ} {pos : Nat}
    {r : α × Nat} : mapError f d buf pos = .ok r ↔ d buf pos = .ok r := by
  unfold mapError
  cases d buf pos with
  | error e => simp [Except.mapError]
  | ok r' => simp [Except.mapError]

/-! ## What a decoder reads -/

/-- `d` reads `x` as `a`, wherever in a buffer `x` stands. -/
def Reads (d : Decoder σ ε α) (x : List σ) (a : α) : Prop :=
  ∀ pre post, d (pre ++ (x ++ post)) pre.length = .ok (a, pre.length + x.length)

namespace Reads

protected theorem pure (a : α) : Reads (pure a : Decoder σ ε α) [] a :=
  fun _ _ => rfl

theorem pure_of {a b : α} (h : a = b) : Reads (pure a : Decoder σ ε α) [] b := by
  rw [h]
  exact Reads.pure b

protected theorem bind {d : Decoder σ ε α} {f : α → Decoder σ ε β} {x y : List σ} {a : α} {b : β}
    (hd : Reads d x a) (hf : Reads (f a) y b) : Reads (d >>= f) (x ++ y) b := by
  intro pre post
  have h₁ : d (pre ++ (x ++ y ++ post)) pre.length = .ok (a, pre.length + x.length) := by
    rw [List.append_assoc x y post]
    exact hd pre (y ++ post)
  have h₂ := hf (pre ++ x) post
  rw [List.length_append, List.append_assoc, ← List.append_assoc x y post] at h₂
  rw [bind_apply_ok h₁, h₂, List.length_append, Nat.add_assoc]

/-- A last step that reads nothing. -/
theorem bind_nil {d : Decoder σ ε α} {f : α → Decoder σ ε β} {x : List σ} {a : α} {b : β}
    (hd : Reads d x a) (hf : Reads (f a) [] b) : Reads (d >>= f) x b := by
  have h := hd.bind hf
  rwa [List.append_nil] at h

/-- A first step that reads nothing. -/
theorem nil_bind {d : Decoder σ ε α} {f : α → Decoder σ ε β} {y : List σ} {a : α} {b : β}
    (hd : Reads d [] a) (hf : Reads (f a) y b) : Reads (d >>= f) y b := hd.bind hf

theorem verify {c : Prop} [Decidable c] (hc : c) (e : ε) :
    Reads (Decoder.verify c e : Decoder σ ε Unit) [] () := by
  intro pre post
  rw [Decoder.verify, if_pos hc]
  rfl

theorem item (x : σ) (e : ε) : Reads (Decoder.item e) [x] x := by
  intro pre post
  rw [Decoder.item, List.getElem?_append_right le_rfl, Nat.sub_self]
  rfl

theorem items (x : List σ) (e : ε) : Reads (Decoder.items x.length e) x x := by
  intro pre post
  have hlen : pre.length + x.length ≤ (pre ++ (x ++ post)).length := by
    simp only [List.length_append]
    omega
  rw [Decoder.items, if_pos hlen, List.drop_left, List.take_left]

/-- A decoder that reads every piece reads their sequence. -/
theorem times_flatten {d : Decoder σ ε α} {l : List α} {xs : List (List σ)}
    (h : List.Forall₂ (fun a x => Reads d x a) l xs) :
    Reads (Decoder.times d l.length) xs.flatten l := by
  induction h with
  | nil => exact Reads.pure []
  | @cons a x l xs ha _ ih => exact ha.bind (ih.bind_nil (Reads.pure (a :: l)))

theorem times {d : Decoder σ ε α} {enc : α → List σ} {l : List α}
    (h : ∀ a ∈ l, Reads d (enc a) a) : Reads (Decoder.times d l.length) (l.flatMap enc) l := by
  rw [List.flatMap_def]
  exact times_flatten (List.forall₂_map_right_iff.mpr (List.forall₂_same.mpr h))

/-- From the start of a buffer. -/
theorem at_start {d : Decoder σ ε α} {x : List σ} {a : α} (h : Reads d x a) (post : List σ) :
    d (x ++ post) 0 = .ok (a, x.length) := by
  have := h [] post
  rwa [List.nil_append, List.length_nil, Nat.zero_add] at this

/-- What is read determines the value, and where it ends. -/
theorem unique {d : Decoder σ ε α} {x y s t : List σ} {a b : α} (hx : Reads d x a)
    (hy : Reads d y b) (h : x ++ s = y ++ t) : a = b ∧ x = y ∧ s = t := by
  have hxs := hx.at_start s
  rw [h, hy.at_start t] at hxs
  obtain ⟨hba, hlen⟩ := Prod.mk.inj (Except.ok.inj hxs)
  obtain ⟨hxy, hst⟩ := List.append_inj h hlen.symm
  exact ⟨hba.symm, hxy, hst⟩

end Reads

/-! ## Sound decoders -/

/-- A successful run moves forward inside the buffer, and appending symbols to the buffer does
not change it. -/
structure Sound (d : Decoder σ ε α) : Prop where
  forward : ∀ {buf : List σ} {pos : Nat} {a : α} {pos' : Nat},
    d buf pos = .ok (a, pos') → pos ≤ pos'
  inside : ∀ {buf : List σ} {pos : Nat} {a : α} {pos' : Nat},
    d buf pos = .ok (a, pos') → pos ≤ buf.length → pos' ≤ buf.length
  stable : ∀ {buf : List σ} {pos : Nat} {a : α} {pos' : Nat} (more : List σ),
    d buf pos = .ok (a, pos') → d (buf ++ more) pos = .ok (a, pos')

namespace Sound

protected theorem pure (a : α) : Sound (pure a : Decoder σ ε α) where
  forward h := by cases h; exact le_rfl
  inside h hpos := by cases h; exact hpos
  stable more h := by cases h; rfl

protected theorem bind {d : Decoder σ ε α} {f : α → Decoder σ ε β} (hd : Sound d)
    (hf : ∀ a, Sound (f a)) : Sound (d >>= f) where
  forward h := by
    obtain ⟨a, pos', h₁, h₂⟩ := bind_eq_ok h
    exact (hd.forward h₁).trans ((hf a).forward h₂)
  inside h hpos := by
    obtain ⟨a, pos', h₁, h₂⟩ := bind_eq_ok h
    exact (hf a).inside h₂ (hd.inside h₁ hpos)
  stable more h := by
    obtain ⟨a, pos', h₁, h₂⟩ := bind_eq_ok h
    rw [bind_apply_ok (hd.stable more h₁)]
    exact (hf a).stable more h₂

theorem fail (e : ε) : Sound (Decoder.fail e : Decoder σ ε α) where
  forward h := by cases h
  inside h := by cases h
  stable _ h := by cases h

theorem verify (c : Prop) [Decidable c] (e : ε) :
    Sound (Decoder.verify c e : Decoder σ ε Unit) := by
  by_cases hc : c
  · have h : (Decoder.verify c e : Decoder σ ε Unit) = pure () := by
      funext buf pos
      rw [Decoder.verify, if_pos hc]
      rfl
    rw [h]
    exact Sound.pure ()
  · have h : (Decoder.verify c e : Decoder σ ε Unit) = Decoder.fail e := by
      funext buf pos
      rw [Decoder.verify, if_neg hc]
      rfl
    rw [h]
    exact Sound.fail e

theorem items (n : Nat) (e : ε) : Sound (Decoder.items n e : Decoder σ ε (List σ)) := by
  -- a successful run found the `n` symbols inside the buffer
  have hinv : ∀ {buf : List σ} {pos : Nat} {a : List σ} {pos' : Nat},
      Decoder.items n e buf pos = .ok (a, pos') →
        pos + n ≤ buf.length ∧ a = (buf.drop pos).take n ∧ pos' = pos + n := by
    intro buf pos a pos' h
    rw [Decoder.items] at h
    split at h
    · next hle =>
      obtain ⟨ha, hpos⟩ := Prod.mk.inj (Except.ok.inj h)
      exact ⟨hle, ha.symm, hpos.symm⟩
    · cases h
  refine ⟨fun h => ?_, fun h _ => ?_, fun {buf pos a pos'} more h => ?_⟩
  · obtain ⟨-, -, rfl⟩ := hinv h
    exact Nat.le_add_right _ _
  · obtain ⟨hle, -, rfl⟩ := hinv h
    exact hle
  · obtain ⟨hle, rfl, rfl⟩ := hinv h
    have hlen : pos + n ≤ (buf ++ more).length := by
      rw [List.length_append]
      omega
    rw [Decoder.items, if_pos hlen, List.drop_append_of_le_length (by omega),
      List.take_append_of_le_length (by rw [List.length_drop]; omega)]

theorem item (e : ε) : Sound (Decoder.item e : Decoder σ ε σ) := by
  have hinv : ∀ {buf : List σ} {pos : Nat} {a : σ} {pos' : Nat},
      Decoder.item e buf pos = .ok (a, pos') → buf[pos]? = some a ∧ pos' = pos + 1 := by
    intro buf pos a pos' h
    rw [Decoder.item] at h
    split at h
    · next x hx =>
      obtain ⟨rfl, hpos⟩ := Prod.mk.inj (Except.ok.inj h)
      exact ⟨hx, hpos.symm⟩
    · cases h
  refine ⟨fun h => ?_, fun h _ => ?_, fun more h => ?_⟩
  · obtain ⟨-, rfl⟩ := hinv h
    exact Nat.le_succ _
  · obtain ⟨hx, rfl⟩ := hinv h
    exact (List.getElem?_eq_some_iff.mp hx).1
  · obtain ⟨hx, rfl⟩ := hinv h
    have hlt := (List.getElem?_eq_some_iff.mp hx).1
    rw [Decoder.item, List.getElem?_append_left hlt, hx]

theorem times {d : Decoder σ ε α} (hd : Sound d) (n : Nat) : Sound (Decoder.times d n) := by
  induction n with
  | zero => exact Sound.pure []
  | succ n ih => exact hd.bind fun a => ih.bind fun l => Sound.pure (a :: l)

end Sound

/-- **Truncation is noticed.** A sound decoder fails on every proper prefix of what it reads. -/
theorem error_of_cut {d : Decoder σ ε α} (hd : Sound d) {x : List σ} {a : α} (h : Reads d x a)
    (pre : List σ) {k : Nat} (hk : k < x.length) :
    ∃ e, d (pre ++ x.take k) pre.length = .error e := by
  cases hrun : d (pre ++ x.take k) pre.length with
  | error e => exact ⟨e, rfl⟩
  | ok r =>
      -- the run on the prefix is the run on all of `x`, but it ends too early
      exfalso
      obtain ⟨b, pos'⟩ := r
      have hfull := hd.stable (x.drop k) hrun
      rw [List.append_assoc, List.take_append_drop] at hfull
      have hx := h pre []
      rw [List.append_nil, hfull] at hx
      obtain ⟨-, hpos⟩ := Prod.mk.inj (Except.ok.inj hx)
      have hle := hd.inside hrun (by rw [List.length_append]; omega)
      rw [List.length_append, List.length_take] at hle
      omega

theorem error_of_take {d : Decoder σ ε α} (hd : Sound d) {x : List σ} {a : α} (h : Reads d x a)
    {k : Nat} (hk : k < x.length) : ∃ e, d (x.take k) 0 = .error e :=
  error_of_cut hd h [] hk

/-! ## Putting back, pieces, and repetition -/

theorem itemIf_of_getElem? {accept : σ → Bool} {e : ε} {buf : List σ} {pos : Nat} {x : σ}
    (h : buf[pos]? = some x) :
    itemIf accept e buf pos = if accept x then .ok (some x, pos + 1) else .ok (none, pos) := by
  rw [itemIf, h]

/-- A symbol that is accepted is read. -/
theorem itemIf_some {accept : σ → Bool} {e : ε} {buf : List σ} {pos pos' : Nat} {x : σ}
    (h : itemIf accept e buf pos = .ok (some x, pos')) : pos' = pos + 1 := by
  cases hx : buf[pos]? with
  | none =>
      rw [itemIf, hx] at h
      cases h
  | some y =>
      rw [itemIf_of_getElem? hx] at h
      split at h
      · cases h
        rfl
      · cases h

/-! More fuel changes nothing when there is enough. -/

theorem repeatFuel_succ_ok {d : Decoder σ ε (Option α)} {e : ε} {fuel : Nat} {buf : List σ}
    {pos : Nat} {r : α × Nat} (h : repeatFuel d e (fuel + 1) buf pos = .ok r) :
    (∃ a pos', d buf pos = .ok (some a, pos') ∧ r = (a, pos')) ∨
      ∃ pos', d buf pos = .ok (none, pos') ∧ repeatFuel d e fuel buf pos' = .ok r := by
  obtain ⟨o, pos', hd, hrest⟩ := bind_eq_ok h
  cases o with
  | some a =>
      cases hrest
      exact Or.inl ⟨a, pos', hd, rfl⟩
  | none => exact Or.inr ⟨pos', hd, hrest⟩

theorem repeatFuel_mono {d : Decoder σ ε (Option α)} {e : ε} {fuel fuel' : Nat} {buf : List σ}
    {pos : Nat} {r : α × Nat} (h : repeatFuel d e fuel buf pos = .ok r) (hle : fuel ≤ fuel') :
    repeatFuel d e fuel' buf pos = .ok r := by
  induction fuel generalizing pos fuel' with
  | zero => cases h
  | succ fuel ih =>
      obtain ⟨fuel', rfl⟩ := Nat.exists_eq_succ_of_ne_zero (by omega : fuel' ≠ 0)
      rcases repeatFuel_succ_ok h with ⟨a, pos', hd, rfl⟩ | ⟨pos', hd, hrest⟩
      · exact bind_apply_ok hd _
      · exact (bind_apply_ok hd _).trans (ih hrest (by omega))

theorem repeatFuel_eq {d : Decoder σ ε (Option α)} (hd : Sound d)
    (hprogress : ∀ {buf : List σ} {pos pos' : Nat}, d buf pos = .ok (none, pos') → pos < pos')
    {e : ε} {fuel fuel' : Nat} {buf : List σ} {pos : Nat} (hpos : pos ≤ buf.length)
    (h : buf.length - pos < fuel) (h' : buf.length - pos < fuel') :
    repeatFuel d e fuel buf pos = repeatFuel d e fuel' buf pos := by
  induction fuel generalizing pos fuel' with
  | zero => omega
  | succ fuel ih =>
      obtain ⟨fuel', rfl⟩ := Nat.exists_eq_succ_of_ne_zero (by omega : fuel' ≠ 0)
      cases hrun : d buf pos with
      | error e' =>
          exact (bind_apply_error hrun _).trans (bind_apply_error hrun _).symm
      | ok r =>
          obtain ⟨o, pos'⟩ := r
          refine (bind_apply_ok hrun _).trans (Eq.trans ?_ (bind_apply_ok hrun _).symm)
          cases o with
          | some a => rfl
          | none =>
              have hlt := hprogress hrun
              have hin := hd.inside hrun hpos
              exact ih hin (by omega) (by omega)

/-- A round without a value is skipped. -/
theorem untilSome_none {d : Decoder σ ε (Option α)} (hd : Sound d)
    (hprogress : ∀ {buf : List σ} {pos pos' : Nat}, d buf pos = .ok (none, pos') → pos < pos')
    {e : ε} {buf : List σ} {pos pos' : Nat} (hpos : pos ≤ buf.length)
    (h : d buf pos = .ok (none, pos')) :
    untilSome d e buf pos = untilSome d e buf pos' := by
  have hlt := hprogress h
  have hin := hd.inside h hpos
  exact (bind_apply_ok h _).trans (repeatFuel_eq hd hprogress hin (by omega) (by omega))

namespace Reads

theorem itemIf {x : σ} {accept : σ → Bool} (h : accept x = true) (e : ε) :
    Reads (Decoder.itemIf accept e) [x] (some x) := by
  intro pre post
  have hx : (pre ++ ([x] ++ post))[pre.length]? = some x := by
    rw [List.getElem?_append_right le_rfl, Nat.sub_self]
    rfl
  rw [itemIf_of_getElem? hx, if_pos h]
  rfl

/-- Reading in pieces is reading at once. -/
theorem pieces {b fuel : Nat} (hb : 0 < b) (x : List σ) (h : x.length ≤ fuel) (e : ε) :
    Reads (Decoder.pieces b e fuel x.length) x x := by
  induction fuel generalizing x with
  | zero =>
      have hnil : x = [] := List.length_eq_zero_iff.mp (Nat.le_zero.mp h)
      rw [hnil]
      exact Reads.pure []
  | succ fuel ih =>
      rw [Decoder.pieces]
      by_cases h0 : x.length = 0
      · rw [if_pos h0, List.length_eq_zero_iff.mp h0]
        exact Reads.pure []
      · rw [if_neg h0]
        -- the first piece, and the rest
        have htake : (x.take b).length = min b x.length := List.length_take
        have hdrop : (x.drop b).length = x.length - min b x.length := by
          rw [List.length_drop]
          omega
        have hrest := ih (x.drop b) (by omega)
        rw [hdrop] at hrest
        have hfirst := Reads.items (x.take b) e
        rw [htake] at hfirst
        have hall := hfirst.bind (f := fun l => Decoder.pieces b e fuel (x.length - min b x.length)
          >>= fun rest => Pure.pure (l ++ rest)) (hrest.bind_nil (Reads.pure (x.take b ++ x.drop b)))
        rwa [List.take_append_drop] at hall

theorem mapError {ε' : Type} {d : Decoder σ ε α} {x : List σ} {a : α} (h : Reads d x a)
    (f : ε → ε') : Reads (Decoder.mapError f d) x a :=
  fun pre post => mapError_eq_ok.mpr (h pre post)

theorem untilSome {d : Decoder σ ε (Option α)} {x : List σ} {a : α} (h : Reads d x (some a))
    (e : ε) : Reads (Decoder.untilSome d e) x a := by
  intro pre post
  exact bind_apply_ok (h pre post) _

/-- Rounds without a value are skipped. -/
theorem untilSome_skip {d : Decoder σ ε (Option α)} (hd : Sound d)
    (hprogress : ∀ {buf : List σ} {pos pos' : Nat}, d buf pos = .ok (none, pos') → pos < pos')
    {x y : List σ} {a : α} {e : ε} (hx : Reads d x none) (hy : Reads (Decoder.untilSome d e) y a) :
    Reads (Decoder.untilSome d e) (x ++ y) a := by
  intro pre post
  have hskip := hx pre (y ++ post)
  have hrest := hy (pre ++ x) post
  have hpos : pre.length ≤ (pre ++ (x ++ (y ++ post))).length := by simp
  rw [List.append_assoc x y post, untilSome_none hd hprogress hpos hskip]
  rw [List.length_append, List.append_assoc] at hrest
  rw [hrest, List.length_append, Nat.add_assoc]

end Reads

namespace Sound

theorem itemIf (accept : σ → Bool) (e : ε) : Sound (Decoder.itemIf accept e) := by
  have hinv : ∀ {buf : List σ} {pos : Nat} {a : Option σ} {pos' : Nat},
      Decoder.itemIf accept e buf pos = .ok (a, pos') →
        ∃ x, buf[pos]? = some x ∧ pos ≤ pos' ∧ pos' ≤ pos + 1 := by
    intro buf pos a pos' h
    cases hx : buf[pos]? with
    | none =>
        rw [Decoder.itemIf, hx] at h
        cases h
    | some x =>
        rw [itemIf_of_getElem? hx] at h
        refine ⟨x, rfl, ?_⟩
        split at h
        all_goals
          cases h
          omega
  refine ⟨fun h => ?_, fun h _ => ?_, fun more h => ?_⟩
  · obtain ⟨x, -, hle, -⟩ := hinv h
    exact hle
  · obtain ⟨x, hx, -, hle⟩ := hinv h
    have hlt := (List.getElem?_eq_some_iff.mp hx).1
    omega
  · obtain ⟨x, hx, -⟩ := hinv h
    have hlt := (List.getElem?_eq_some_iff.mp hx).1
    rw [itemIf_of_getElem? hx] at h
    rw [itemIf_of_getElem? (by rw [List.getElem?_append_left hlt, hx])]
    exact h

theorem pieces (b : Nat) (e : ε) (fuel n : Nat) :
    Sound (Decoder.pieces b e fuel n : Decoder σ ε (List σ)) := by
  induction fuel generalizing n with
  | zero => exact Sound.pure []
  | succ fuel ih =>
      rw [Decoder.pieces]
      by_cases h0 : n = 0
      · rw [if_pos h0]
        exact Sound.pure []
      · rw [if_neg h0]
        exact (Sound.items _ e).bind fun l => (ih _).bind fun rest => Sound.pure (l ++ rest)

theorem mapError {ε' : Type} {d : Decoder σ ε α} (hd : Sound d) (f : ε → ε') :
    Sound (Decoder.mapError f d) where
  forward h := hd.forward (mapError_eq_ok.mp h)
  inside h := hd.inside (mapError_eq_ok.mp h)
  stable more h := mapError_eq_ok.mpr (hd.stable more (mapError_eq_ok.mp h))

/-- The rounds of a repetition. -/
theorem round {d : Decoder σ ε (Option α)} (hd : Sound d) {k : Decoder σ ε α} (hk : Sound k) :
    Sound (d >>= fun o => match o with
      | some a => Pure.pure a
      | none => k) := by
  refine hd.bind fun o => ?_
  cases o with
  | some a => exact Sound.pure a
  | none => exact hk

theorem repeatFuel {d : Decoder σ ε (Option α)} (hd : Sound d) (e : ε) (fuel : Nat) :
    Sound (Decoder.repeatFuel d e fuel) := by
  induction fuel with
  | zero => exact Sound.fail e
  | succ fuel ih => exact hd.round ih

theorem untilSome {d : Decoder σ ε (Option α)} (hd : Sound d) (e : ε) :
    Sound (Decoder.untilSome d e) where
  forward h := (Sound.repeatFuel hd e _).forward h
  inside h := (Sound.repeatFuel hd e _).inside h
  stable more h := by
    -- the longer buffer has more fuel
    refine repeatFuel_mono ((Sound.repeatFuel hd e _).stable more h) ?_
    rw [List.length_append]
    omega

end Sound

end Decoder
