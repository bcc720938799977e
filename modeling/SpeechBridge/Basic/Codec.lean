import SpeechBridge.Basic.Decoder

set_option autoImplicit false

/-! # Codecs, and sequences of values with missing ends

A codec is a writer of values, and a decoder for what it writes. A sequence of values of several
types is written one after the other. Its reader expects certain types: for a value that is
missing at the end of the buffer it takes an initial value, and what follows the expected values
it leaves alone. So writers and readers may know different numbers of values
(`readAll_writeAll`), and a sequence that is cut off is either rejected or read as a shorter one
(`readAll_cut`).
-/

/-- A writer and a decoder of values `α` as symbols `σ`, with errors `ε`. -/
structure Codec (σ ε α : Type) where
  write : α → List σ
  read : Decoder σ ε α

namespace Codec

variable {σ ε : Type}

/-- The decoder is sound, and reads what is written of valid values, which is never empty. -/
structure Lawful {α : Type} (c : Codec σ ε α) (Valid : α → Prop) : Prop where
  nonempty : ∀ a, c.write a ≠ []
  reads : ∀ a, Valid a → c.read.Reads (c.write a) a
  sound : c.read.Sound

/-! ## Sequences -/

section

variable {ι : Type} {V : ι → Type}

/-- Values of the types. -/
def Values (V : ι → Type) : List ι → Type
  | [] => Unit
  | i :: is => V i × Values V is

def Values.toList : {is : List ι} → Values V is → List (Σ i, V i)
  | [], _ => []
  | i :: _, (a, as) => ⟨i, a⟩ :: Values.toList as

/-- The values have the expected types, as far as both go. -/
def Agree (is : List ι) (args : List (Σ i, V i)) : Prop :=
  is.take args.length = (args.map Sigma.fst).take is.length

/-- The expected values, when `args` were sent. -/
def complete (initial : ∀ i, V i) (is : List ι) (args : List (Σ i, V i)) : List (Σ i, V i) :=
  args.take is.length ++ (is.drop args.length).map fun i => ⟨i, initial i⟩

variable (codec : ∀ i, Codec σ ε (V i)) (initial : ∀ i, V i)

def writeAll (args : List (Σ i, V i)) : List σ := args.flatMap fun a => (codec a.1).write a.2

/-- A value, or the initial one when nothing is left. -/
def readOptional (i : ι) : Decoder σ ε (V i) := fun buf pos =>
  if buf.length - pos ≠ 0 then (codec i).read buf pos else .ok (initial i, pos)

def readAll : (is : List ι) → Decoder σ ε (Values V is)
  | [] => pure ()
  | i :: is => do
      let a ← readOptional codec initial i
      let as ← readAll is
      pure (a, as)

end

section

variable {ι : Type} {V : ι → Type} {codec : ∀ i, Codec σ ε (V i)} {initial : ∀ i, V i}

theorem writeAll_cons (a : Σ i, V i) (args : List (Σ i, V i)) :
    writeAll codec (a :: args) = (codec a.1).write a.2 ++ writeAll codec args := List.flatMap_cons

theorem agree_cons {i : ι} {is : List ι} {a : Σ i, V i} {args : List (Σ i, V i)}
    (h : Agree (i :: is) (a :: args)) : i = a.1 ∧ Agree is args := by
  unfold Agree at h
  rw [List.map_cons, List.length_cons, List.length_cons, List.take_succ_cons,
    List.take_succ_cons] at h
  exact List.cons.inj h

theorem agree_of_eq {is : List ι} {args : List (Σ i, V i)} (h : args.map Sigma.fst = is) :
    Agree is args := by
  subst h
  unfold Agree
  rw [List.length_map]

theorem Values.toList_types {is : List ι} (vs : Values V is) :
    vs.toList.map Sigma.fst = is := by
  induction is with
  | nil => rfl
  | cons i is ih => exact congrArg (List.cons i) (ih vs.2)

theorem Values.toList_injective {is : List ι} :
    Function.Injective (Values.toList : Values V is → List (Σ i, V i)) := by
  induction is with
  | nil =>
      intro vs vs' _
      rfl
  | cons i is ih =>
      rintro ⟨a, as⟩ ⟨b, bs⟩ h
      obtain ⟨hab, has⟩ := List.cons.inj h
      rw [eq_of_heq (Sigma.mk.inj hab).2, ih has]

/-- Values of the expected types are complete. -/
theorem complete_toList {is : List ι} (vs : Values V is) :
    complete initial is vs.toList = vs.toList := by
  have hlen : vs.toList.length = is.length := by
    rw [← List.length_map (f := Sigma.fst), Values.toList_types]
  simp [complete, ← hlen]

theorem readAll_cons_ok {i : ι} {is : List ι} {buf : List σ} {pos pos' pos'' : Nat} {a : V i}
    {as : Values V is} (h : readOptional codec initial i buf pos = .ok (a, pos'))
    (has : readAll codec initial is buf pos' = .ok (as, pos'')) :
    readAll codec initial (i :: is) buf pos = .ok ((a, as), pos'') :=
  (Decoder.bind_apply_ok h _).trans (Decoder.bind_apply_ok has _)

theorem readAll_cons_error {i : ι} {is : List ι} {buf : List σ} {pos pos' : Nat} {a : V i} {e : ε}
    (h : readOptional codec initial i buf pos = .ok (a, pos'))
    (has : readAll codec initial is buf pos' = .error e) :
    readAll codec initial (i :: is) buf pos = .error e :=
  (Decoder.bind_apply_ok h _).trans (Decoder.bind_apply_error has _)

theorem readOptional_of_lt {i : ι} {buf : List σ} {pos : Nat} (h : pos < buf.length) :
    readOptional codec initial i buf pos = (codec i).read buf pos :=
  if_pos (by omega)

variable (codec initial) in
/-- Nothing is left: every value is the initial one. -/
theorem readAll_end (is : List ι) {buf : List σ} {pos : Nat} (h : buf.length ≤ pos) :
    ∃ vs : Values V is, readAll codec initial is buf pos = .ok (vs, pos) ∧
      vs.toList = is.map fun i => ⟨i, initial i⟩ := by
  induction is with
  | nil => exact ⟨(), rfl, rfl⟩
  | cons i is ih =>
      obtain ⟨vs, hvs, hlist⟩ := ih
      have hi : readOptional codec initial i buf pos = .ok (initial i, pos) := if_neg (by omega)
      exact ⟨(initial i, vs), readAll_cons_ok hi hvs, congrArg (List.cons _) hlist⟩

variable {Valid : ∀ i, V i → Prop} (hcodec : ∀ i, (codec i).Lawful (Valid i))

include hcodec

variable (initial) in
/-- The first value of a sequence. -/
theorem readOptional_write {i : ι} {a : V i} (h : Valid i a) (pre post : List σ) :
    readOptional codec initial i (pre ++ ((codec i).write a ++ post)) pre.length
      = .ok (a, pre.length + ((codec i).write a).length) := by
  have hpos := List.length_pos_of_ne_nil ((hcodec i).nonempty a)
  rw [readOptional_of_lt (by simp only [List.length_append]; omega)]
  exact (hcodec i).reads a h pre post

/-- **Sequences of different lengths.** The reader gets the values that were written, as many as
it expects, and initial values for the others. -/
theorem readAll_writeAll {is : List ι} {args : List (Σ i, V i)} (hagree : Agree is args)
    (hargs : ∀ a ∈ args, Valid a.1 a.2) (pre : List σ) {post : List σ}
    (hpost : args.length < is.length → post = []) :
    ∃ vs : Values V is, readAll codec initial is (pre ++ (writeAll codec args ++ post)) pre.length
        = .ok (vs, pre.length + (writeAll codec (args.take is.length)).length) ∧
      vs.toList = complete initial is args := by
  induction is generalizing args pre with
  | nil => exact ⟨(), rfl, by simp [complete, Values.toList]⟩
  | cons i is ih =>
      cases args with
      | nil =>
          rw [hpost (Nat.succ_pos _)]
          exact readAll_end codec initial (i :: is) (by simp [writeAll])
      | cons a args =>
          obtain ⟨rfl, hagree'⟩ := agree_cons hagree
          have hfirst := readOptional_write initial hcodec
            (hargs a List.mem_cons_self) pre (writeAll codec args ++ post)
          obtain ⟨vs, hvs, hlist⟩ := ih hagree' (fun b hb => hargs b (List.mem_cons_of_mem a hb))
            (pre ++ (codec a.1).write a.2) (fun hlt => hpost (Nat.succ_lt_succ hlt))
          rw [List.length_append, List.append_assoc] at hvs
          refine ⟨(a.2, vs), ?_, congrArg (List.cons a) hlist⟩
          rw [writeAll_cons, List.append_assoc, readAll_cons_ok hfirst hvs, List.length_cons,
            List.take_succ_cons, writeAll_cons, List.length_append, Nat.add_assoc]

/-- **Sequences that are cut off.** A proper prefix of what was written ends either behind one of
the values, and is read as the values before, or inside a value, and is rejected. -/
theorem readAll_cut {args : List (Σ i, V i)} (hargs : ∀ a ∈ args, Valid a.1 a.2) (pre : List σ)
    {k : Nat} (hk : k < (writeAll codec args).length) :
    (∃ n, ∃ vs : Values V (args.map Sigma.fst), k = (writeAll codec (args.take n)).length ∧
        readAll codec initial (args.map Sigma.fst) (pre ++ (writeAll codec args).take k) pre.length
          = .ok (vs, pre.length + k) ∧
        vs.toList = complete initial (args.map Sigma.fst) (args.take n)) ∨
      ((∀ n, k ≠ (writeAll codec (args.take n)).length) ∧
        ∃ e, readAll codec initial (args.map Sigma.fst) (pre ++ (writeAll codec args).take k)
          pre.length = .error e) := by
  induction args generalizing pre k with
  | nil => exact absurd hk (Nat.not_lt_zero k)
  | cons a args ih =>
      have ha := hargs a List.mem_cons_self
      rw [writeAll_cons] at hk ⊢
      rw [List.length_append] at hk
      by_cases h0 : k = 0
      · -- nothing is left of the sequence
        subst h0
        obtain ⟨vs, hvs, hlist⟩ := readAll_end codec initial
          ((a :: args).map Sigma.fst)
          (show (pre ++ []).length ≤ pre.length by rw [List.append_nil])
        exact Or.inl ⟨0, vs, rfl, hvs, by simp [hlist, complete]⟩
      · by_cases hlt : k < ((codec a.1).write a.2).length
        · -- the cut is inside the first value
          right
          rw [List.take_append_of_le_length hlt.le]
          constructor
          · intro n
            cases n with
            | zero => exact h0
            | succ n =>
                rw [List.take_succ_cons, writeAll_cons, List.length_append]
                omega
          · obtain ⟨e, he⟩ := Decoder.error_of_cut (hcodec a.1).sound ((hcodec a.1).reads a.2 ha)
              pre hlt
            refine ⟨e, Decoder.bind_apply_error ?_ _⟩
            rw [readOptional_of_lt (by rw [List.length_append, List.length_take]; omega)]
            exact he
        · -- the cut is behind the first value
          have htake : ((codec a.1).write a.2 ++ writeAll codec args).take k
              = (codec a.1).write a.2
                ++ (writeAll codec args).take (k - ((codec a.1).write a.2).length) := by
            rw [List.take_append, List.take_of_length_le (Nat.le_of_not_lt hlt)]
          have hfirst := readOptional_write initial hcodec ha pre
            ((writeAll codec args).take (k - ((codec a.1).write a.2).length))
          have hrest := ih (fun b hb => hargs b (List.mem_cons_of_mem a hb))
            (pre ++ (codec a.1).write a.2) (k := k - ((codec a.1).write a.2).length) (by omega)
          rw [List.length_append, List.append_assoc, ← htake] at hrest
          rw [← htake] at hfirst
          rcases hrest with ⟨n, vs, hn, hvs, hlist⟩ | ⟨hno, e, he⟩
          · have hpos : pre.length + ((codec a.1).write a.2).length
                + (k - ((codec a.1).write a.2).length) = pre.length + k := by omega
            rw [hpos] at hvs
            refine Or.inl ⟨n + 1, (a.2, vs), ?_, readAll_cons_ok hfirst hvs,
              congrArg (List.cons a) hlist⟩
            rw [List.take_succ_cons, writeAll_cons, List.length_append]
            omega
          · refine Or.inr ⟨fun n => ?_, e, readAll_cons_error hfirst he⟩
            cases n with
            | zero => exact h0
            | succ n =>
                have := hno n
                rw [List.take_succ_cons, writeAll_cons, List.length_append]
                omega

end

end Codec
