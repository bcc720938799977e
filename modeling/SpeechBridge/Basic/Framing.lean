import SpeechBridge.Basic.LittleEndian
import SpeechBridge.Basic.Runs

set_option autoImplicit false

/-! # Messages over a stream of bytes

A frame is a message behind its length. A writer offers bytes, of which any number may be
written; a reader wants a number of bytes, of which any number may arrive. `Writer.Lawful` and
`Reader.Lawful` say what they must do. In a pipe the two take turns in any order
(`Pipe.step`); `Pipe.run_delivers`: whatever the order and the sizes of the pieces, the messages
delivered are the messages sent, in their order, and a pipe that is stuck has delivered all of
them.
-/

namespace Framing

/-- A message behind its length. -/
def frame (m : List UInt8) : List UInt8 := LittleEndian.bytes 4 m.length ++ m

def frames (ms : List (List UInt8)) : List UInt8 := ms.flatMap frame

theorem frame_length (m : List UInt8) : (frame m).length = 4 + m.length := by
  rw [frame, List.length_append, LittleEndian.bytes_length]

/-- A frame that starts another frame is that frame. -/
theorem frame_prefix {m m' : List UInt8} (hm : m.length < 2 ^ 32) (hm' : m'.length < 2 ^ 32)
    (h : frame m <+: frame m') : m = m' := by
  obtain ⟨rest, hrest⟩ := h
  have hlen : (LittleEndian.bytes 4 m.length).length
      = (LittleEndian.bytes 4 m'.length).length := by
    rw [LittleEndian.bytes_length, LittleEndian.bytes_length]
  rw [frame, frame, List.append_assoc] at hrest
  obtain ⟨hword, hbody⟩ := List.append_inj hrest hlen
  have hvalue := congrArg LittleEndian.value hword
  rw [LittleEndian.value_bytes hm, LittleEndian.value_bytes hm'] at hvalue
  have hnil : rest = [] := by
    have := congrArg List.length hbody
    rw [List.length_append] at this
    exact List.length_eq_zero_iff.mp (by omega)
  rw [hnil, List.append_nil] at hbody
  exact hbody

/-! ## Readers and writers -/

/-- What becomes of a reader when some bytes have arrived. -/
inductive Arrival (ρ : Type)
  | more (r : ρ)
  | message (m : List UInt8) (r : ρ)
  | reject

/-- A reader: how many bytes it wants, and what it makes of them. -/
structure Reader (ρ : Type) where
  start : ρ
  wanted : ρ → Nat
  arrive : ρ → List UInt8 → Arrival ρ

/-- Some bytes that can arrive at a reader: not more than it wants, and none only if it wants
none. -/
def Reader.Fits {ρ : Type} (R : Reader ρ) (r : ρ) (c : List UInt8) : Prop :=
  c.length ≤ R.wanted r ∧ (c = [] → R.wanted r = 0)

instance {ρ : Type} (R : Reader ρ) (r : ρ) (c : List UInt8) : Decidable (R.Fits r c) :=
  inferInstanceAs (Decidable (_ ∧ (_ → _)))

/-- The reader holds a part of a frame. It wants no more than the rest of the frame of an accepted
message, does not reject such a message, and delivers it when the frame is complete. -/
structure Reader.Lawful {ρ : Type} (R : Reader ρ) (Accepts : List UInt8 → Prop)
    (Valid : ρ → Prop) (held : ρ → List UInt8) : Prop where
  short : ∀ {m}, Accepts m → m.length < 2 ^ 32
  start_valid : Valid R.start
  start_held : held R.start = []
  wants : ∀ {r}, Valid r → held r = [] → 0 < R.wanted r
  stays : ∀ {r m}, Valid r → Accepts m → held r <+: frame m →
    (held r).length + R.wanted r ≤ (frame m).length
  more : ∀ {r c r'}, Valid r → R.Fits r c → R.arrive r c = .more r' →
    Valid r' ∧ held r' = held r ++ c ∧ c ≠ []
  message : ∀ {r c m r'}, Valid r → R.Fits r c → R.arrive r c = .message m r' →
    held r ++ c = frame m ∧ Valid r' ∧ held r' = []
  accepts : ∀ {r c m}, Valid r → R.Fits r c → Accepts m → held r ++ c <+: frame m →
    R.arrive r c ≠ .reject

/-- A writer: what it makes of a message, the bytes it offers, and what is left when some of them
have been written. -/
structure Writer (μ ω : Type) where
  start : μ → Option ω
  offer : ω → List UInt8
  wrote : ω → Nat → ω

/-- What is left of a frame. The writer offers the front of it, and some of it if there is any. -/
structure Writer.Lawful {μ ω : Type} (W : Writer μ ω) (content : μ → List UInt8)
    (Sendable : μ → Prop) (Valid : ω → Prop) (rest : ω → List UInt8) : Prop where
  start : ∀ {m}, Sendable m → ∃ w, W.start m = some w ∧ Valid w ∧ rest w = frame (content m)
  offer : ∀ {w}, Valid w → W.offer w <+: rest w
  offer_ne : ∀ {w}, Valid w → rest w ≠ [] → W.offer w ≠ []
  wrote : ∀ {w k}, Valid w → k ≤ (W.offer w).length →
    Valid (W.wrote w k) ∧ rest (W.wrote w k) = (rest w).drop k

/-! ## Pipes -/

/-- The messages to be sent, the writer while it is at work, the bytes on the wire, the reader,
and the messages delivered. -/
structure Pipe (μ ω ρ : Type) where
  queue : List μ
  writer : Option ω
  wire : List UInt8
  reader : ρ
  delivered : List (List UInt8)

/-- A piece of a given size is written or read, or the writer turns to the next message. -/
inductive Move
  | next
  | write (k : Nat)
  | read (k : Nat)
  deriving DecidableEq, Repr

namespace Pipe

variable {μ ω ρ : Type}

/-- The next message is sent when the writer has written the one before. -/
def step (W : Writer μ ω) (R : Reader ρ) (p : Pipe μ ω ρ) : Move → Option (Pipe μ ω ρ)
  | .next =>
      match p.queue with
      | [] => none
      | m :: queue =>
          if (p.writer.map W.offer).getD [] = [] then
            (W.start m).map fun w => { p with queue := queue, writer := some w }
          else none
  | .write k =>
      match p.writer with
      | none => none
      | some w =>
          if 0 < k ∧ k ≤ (W.offer w).length then
            some { p with
              writer := some (W.wrote w k)
              wire := p.wire ++ (W.offer w).take k }
          else none
  | .read k =>
      if k ≤ p.wire.length ∧ R.Fits p.reader (p.wire.take k) then
        match R.arrive p.reader (p.wire.take k) with
        | .more r => some { p with reader := r, wire := p.wire.drop k }
        | .message m r => some { p with
            reader := r
            wire := p.wire.drop k
            delivered := p.delivered ++ [m] }
        | .reject => none
      else none

/-- The pipe at the start. -/
def start (R : Reader ρ) (ms : List μ) : Pipe μ ω ρ := ⟨ms, none, [], R.start, []⟩

section

variable {W : Writer μ ω} {R : Reader ρ} {content : μ → List UInt8} {Sendable : μ → Prop}
  {WValid : ω → Prop} {rest : ω → List UInt8} {Accepts : List UInt8 → Prop} {RValid : ρ → Prop}
  {held : ρ → List UInt8}

/-- What a writer has left, if there is one. -/
def left (rest : ω → List UInt8) (w : Option ω) : List UInt8 := (w.map rest).getD []

/-- The bytes that the reader holds, the wire, the writer and the queue are the frames of the
messages that have not been delivered. -/
structure Inv (content : μ → List UInt8) (Sendable : μ → Prop) (WValid : ω → Prop)
    (rest : ω → List UInt8) (Accepts : List UInt8 → Prop) (RValid : ρ → Prop)
    (held : ρ → List UInt8) (sent : List (List UInt8)) (p : Pipe μ ω ρ) : Prop where
  sendable : ∀ m ∈ p.queue, Sendable m
  writer : ∀ w ∈ p.writer, WValid w
  reader : RValid p.reader
  bytes : ∃ undelivered, sent = p.delivered ++ undelivered ∧
    (∀ m ∈ undelivered, Accepts m) ∧
    held p.reader ++ (p.wire ++ (left rest p.writer ++ frames (p.queue.map content)))
      = frames undelivered ∧
    held p.reader <+: (undelivered.head?.map frame).getD []

variable {sent : List (List UInt8)} {p q : Pipe μ ω ρ}

theorem next_inv (hW : W.Lawful content Sendable WValid rest)
    (h : p.Inv content Sendable WValid rest Accepts RValid held sent)
    (hstep : p.step W R .next = some q) :
    q.Inv content Sendable WValid rest Accepts RValid held sent := by
  unfold step at hstep
  cases hqueue : p.queue with
  | nil =>
      simp only [hqueue] at hstep
      cases hstep
  | cons m queue =>
      simp only [hqueue] at hstep
      by_cases hoffer : (p.writer.map W.offer).getD [] = []
      · have hm : Sendable m := h.sendable m (by rw [hqueue]; exact List.mem_cons_self)
        obtain ⟨w, hw, hvalid, hrest⟩ := hW.start hm
        rw [if_pos hoffer, hw] at hstep
        cases hstep
        have hleft : left rest p.writer = [] := by
          cases hw' : p.writer with
          | none => rfl
          | some w' =>
              rw [hw'] at hoffer
              by_contra hne
              exact hW.offer_ne (h.writer w' hw') hne hoffer
        obtain ⟨undelivered, hsent, hacc, hbytes, hprefix⟩ := h.bytes
        refine ⟨?_, ?_, h.reader, undelivered, hsent, hacc, ?_, hprefix⟩
        · intro m' hm'
          exact h.sendable m' (by rw [hqueue]; exact List.mem_cons_of_mem m hm')
        · intro w' hw'
          cases hw'
          exact hvalid
        · rw [hqueue, hleft, List.nil_append] at hbytes
          rw [← hbytes]
          show _ ++ (_ ++ (rest w ++ _)) = _
          rw [hrest]
          rfl
      · rw [if_neg hoffer] at hstep
        cases hstep

theorem write_inv (hW : W.Lawful content Sendable WValid rest)
    (h : p.Inv content Sendable WValid rest Accepts RValid held sent) {k : Nat}
    (hstep : p.step W R (.write k) = some q) :
    q.Inv content Sendable WValid rest Accepts RValid held sent := by
  unfold step at hstep
  cases hw : p.writer with
  | none =>
      simp only [hw] at hstep
      cases hstep
  | some w =>
      simp only [hw] at hstep
      by_cases hk : 0 < k ∧ k ≤ (W.offer w).length
      · rw [if_pos hk] at hstep
        cases hstep
        have hvalid := h.writer w hw
        obtain ⟨hvalid', hrest⟩ := hW.wrote hvalid hk.2
        have htake : (W.offer w).take k = (rest w).take k := by
          obtain ⟨tail, htail⟩ := hW.offer hvalid
          rw [← htail, List.take_append_of_le_length hk.2]
        obtain ⟨undelivered, hsent, hacc, hbytes, hprefix⟩ := h.bytes
        refine ⟨h.sendable, ?_, h.reader, undelivered, hsent, hacc, ?_, hprefix⟩
        · intro w' hw'
          cases hw'
          exact hvalid'
        · rw [hw] at hbytes
          rw [← hbytes]
          show _ ++ ((p.wire ++ (W.offer w).take k) ++ (rest (W.wrote w k) ++ _))
            = _ ++ (p.wire ++ (rest w ++ _))
          rw [hrest, htake, List.append_assoc, ← List.append_assoc ((rest w).take k),
            List.take_append_drop]
      · rw [if_neg hk] at hstep
        cases hstep

/-- What arrives belongs to the frame of the first message that has not been delivered. -/
theorem arrives (hR : R.Lawful Accepts RValid held)
    (h : p.Inv content Sendable WValid rest Accepts RValid held sent) {k : Nat}
    (hfits : R.Fits p.reader (p.wire.take k)) :
    ∃ m undelivered, sent = p.delivered ++ m :: undelivered ∧
      (∀ m' ∈ m :: undelivered, Accepts m') ∧
      held p.reader ++ (p.wire ++ (left rest p.writer ++ frames (p.queue.map content)))
        = frame m ++ frames undelivered ∧
      held p.reader ++ p.wire.take k <+: frame m := by
  obtain ⟨undelivered, hsent, hacc, hbytes, hprefix⟩ := h.bytes
  cases undelivered with
  | nil =>
      -- nothing is on its way, and the reader wants something
      exfalso
      have hheld : held p.reader = [] := List.prefix_nil.mp hprefix
      have hnil : held p.reader
          ++ (p.wire ++ (left rest p.writer ++ frames (p.queue.map content))) = [] := hbytes
      have hwire : p.wire = [] := by
        have := (List.append_eq_nil_iff.mp hnil).2
        exact (List.append_eq_nil_iff.mp this).1
      have hzero := hfits.2 (by rw [hwire]; exact List.take_nil)
      have hpos := hR.wants h.reader hheld
      omega
  | cons m undelivered =>
      have hm : Accepts m := hacc m List.mem_cons_self
      have hbytes' : held p.reader
          ++ (p.wire ++ (left rest p.writer ++ frames (p.queue.map content)))
            = frame m ++ frames undelivered := hbytes
      refine ⟨m, undelivered, hsent, hacc, hbytes', ?_⟩
      have hstays := hR.stays h.reader hm hprefix
      have hlong : held p.reader ++ p.wire.take k <+: frame m ++ frames undelivered := by
        rw [← hbytes']
        refine (List.prefix_append_right_inj _).mpr ?_
        exact (List.take_prefix k p.wire).trans (List.prefix_append _ _)
      refine List.prefix_of_prefix_length_le hlong (List.prefix_append _ _) ?_
      have := hfits.1
      rw [List.length_append]
      omega

theorem read_inv (hR : R.Lawful Accepts RValid held)
    (h : p.Inv content Sendable WValid rest Accepts RValid held sent) {k : Nat}
    (hstep : p.step W R (.read k) = some q) :
    q.Inv content Sendable WValid rest Accepts RValid held sent := by
  unfold step at hstep
  by_cases hk : k ≤ p.wire.length ∧ R.Fits p.reader (p.wire.take k)
  · simp only [if_pos hk] at hstep
    obtain ⟨m, undelivered, hsent, hacc, hbytes, hprefix⟩ := arrives hR h hk.2
    have hwire : held p.reader ++ p.wire.take k
        ++ (p.wire.drop k ++ (left rest p.writer ++ frames (p.queue.map content)))
          = frame m ++ frames undelivered := by
      rw [List.append_assoc, ← List.append_assoc (p.wire.take k), List.take_append_drop, hbytes]
    cases harrive : R.arrive p.reader (p.wire.take k) with
    | more r =>
        simp only [harrive] at hstep
        cases hstep
        obtain ⟨hvalid, hheld, -⟩ := hR.more h.reader hk.2 harrive
        refine ⟨h.sendable, h.writer, hvalid, m :: undelivered, hsent, hacc, ?_, ?_⟩
        · show held r ++ _ = _
          rw [hheld]
          exact hwire
        · show held r <+: frame m
          rw [hheld]
          exact hprefix
    | message m' r =>
        simp only [harrive] at hstep
        cases hstep
        obtain ⟨hframe, hvalid, hempty⟩ := hR.message h.reader hk.2 harrive
        have hm : Accepts m := hacc m List.mem_cons_self
        have hle : m'.length ≤ m.length := by
          have := hprefix.length_le
          rw [hframe, frame_length, frame_length] at this
          omega
        have hsame : m' = m := by
          have hshort := hR.short hm
          rw [hframe] at hprefix
          exact frame_prefix (by omega) hshort hprefix
        subst hsame
        rw [hframe] at hwire
        refine ⟨h.sendable, h.writer, hvalid, undelivered, ?_, ?_, ?_, ?_⟩
        · show sent = p.delivered ++ [m'] ++ undelivered
          rw [hsent, List.append_assoc]
          rfl
        · exact fun x hx => hacc x (List.mem_cons_of_mem m' hx)
        · show held r ++ _ = _
          rw [hempty, List.nil_append]
          exact List.append_cancel_left hwire
        · show held r <+: _
          rw [hempty]
          exact List.nil_prefix
    | reject =>
        simp only [harrive] at hstep
        cases hstep
  · simp only [if_neg hk] at hstep
    cases hstep

/-- What one step preserves. -/
theorem step_inv (hW : W.Lawful content Sendable WValid rest) (hR : R.Lawful Accepts RValid held)
    (h : p.Inv content Sendable WValid rest Accepts RValid held sent) {a : Move}
    (hstep : p.step W R a = some q) :
    q.Inv content Sendable WValid rest Accepts RValid held sent := by
  cases a with
  | next => exact next_inv hW h hstep
  | write k => exact write_inv hW h hstep
  | read k => exact read_inv hR h hstep

theorem start_inv (hR : R.Lawful Accepts RValid held) {ms : List μ}
    (hms : ∀ m ∈ ms, Sendable m ∧ Accepts (content m)) :
    (start R ms : Pipe μ ω ρ).Inv content Sendable WValid rest Accepts RValid held
      (ms.map content) := by
  refine ⟨fun m hm => (hms m hm).1, ?_, hR.start_valid, ms.map content, rfl, ?_, ?_, ?_⟩
  · intro w hw
    cases hw
  · intro x hx
    obtain ⟨m, hm, rfl⟩ := List.mem_map.mp hx
    exact (hms m hm).2
  · show held R.start ++ _ = _
    rw [hR.start_held]
    rfl
  · show held R.start <+: _
    rw [hR.start_held]
    exact List.nil_prefix

/-- The work that is left. -/
def work (content : μ → List UInt8) (rest : ω → List UInt8) (sent : List (List UInt8))
    (p : Pipe μ ω ρ) : Nat :=
  2 * ((left rest p.writer).length + (frames (p.queue.map content)).length) + p.wire.length
    + p.queue.length + (sent.length - p.delivered.length)

/-- Every step does some work. -/
theorem step_work (hW : W.Lawful content Sendable WValid rest)
    (hR : R.Lawful Accepts RValid held)
    (h : p.Inv content Sendable WValid rest Accepts RValid held sent) {a : Move}
    (hstep : p.step W R a = some q) : work content rest sent q < work content rest sent p := by
  cases a with
  | next =>
      unfold step at hstep
      cases hqueue : p.queue with
      | nil =>
          simp only [hqueue] at hstep
          cases hstep
      | cons m queue =>
          simp only [hqueue] at hstep
          by_cases hoffer : (p.writer.map W.offer).getD [] = []
          · have hm : Sendable m := h.sendable m (by rw [hqueue]; exact List.mem_cons_self)
            obtain ⟨w, hw, -, hrest⟩ := hW.start hm
            rw [if_pos hoffer, hw] at hstep
            cases hstep
            have hframes : (frames (p.queue.map content)).length
                = (frame (content m)).length + (frames (queue.map content)).length := by
              rw [hqueue]
              exact List.length_append
            have hlen : p.queue.length = queue.length + 1 := by
              rw [hqueue, List.length_cons]
            have hleft : (left rest (some w)).length = (frame (content m)).length :=
              congrArg List.length hrest
            simp only [work, hleft]
            omega
          · rw [if_neg hoffer] at hstep
            cases hstep
  | write k =>
      unfold step at hstep
      cases hw : p.writer with
      | none =>
          simp only [hw] at hstep
          cases hstep
      | some w =>
          simp only [hw] at hstep
          by_cases hk : 0 < k ∧ k ≤ (W.offer w).length
          · rw [if_pos hk] at hstep
            cases hstep
            have hvalid := h.writer w hw
            have hrest := (hW.wrote hvalid hk.2).2
            have hoffer := (hW.offer hvalid).length_le
            have hleft : left rest p.writer = rest w := by
              rw [hw]
              rfl
            have hleft' : left rest (some (W.wrote w k)) = (rest w).drop k := hrest
            simp only [work, hleft, hleft', List.length_append, List.length_take,
              List.length_drop]
            omega
          · rw [if_neg hk] at hstep
            cases hstep
  | read k =>
      have hinv := read_inv hR h hstep
      unfold step at hstep
      by_cases hk : k ≤ p.wire.length ∧ R.Fits p.reader (p.wire.take k)
      · simp only [if_pos hk] at hstep
        cases harrive : R.arrive p.reader (p.wire.take k) with
        | more r =>
            simp only [harrive] at hstep
            cases hstep
            have hne := (hR.more h.reader hk.2 harrive).2.2
            have hpos : 0 < (p.wire.take k).length := List.length_pos_iff.mpr hne
            rw [List.length_take] at hpos
            simp only [work, List.length_drop]
            omega
        | message m r =>
            simp only [harrive] at hstep
            cases hstep
            -- the message was one of those that had not been delivered
            obtain ⟨undelivered, hsent, -⟩ := hinv.bytes
            have hcount := congrArg List.length hsent
            simp only [List.length_append, List.length_singleton] at hcount
            simp only [work, List.length_drop, List.length_append, List.length_singleton]
            omega
        | reject =>
            simp only [harrive] at hstep
            cases hstep
      · simp only [if_neg hk] at hstep
        cases hstep

/-- A piece that the reader wants can be read. -/
theorem read_possible (hR : R.Lawful Accepts RValid held)
    (h : p.Inv content Sendable WValid rest Accepts RValid held sent) {k : Nat}
    (hk : k ≤ p.wire.length) (hfits : R.Fits p.reader (p.wire.take k)) :
    p.step W R (.read k) ≠ none := by
  obtain ⟨m, undelivered, -, hacc, -, hprefix⟩ := arrives hR h hfits
  have haccept := hR.accepts h.reader hfits (hacc m List.mem_cons_self) hprefix
  unfold step
  simp only [if_pos (And.intro hk hfits)]
  cases harrive : R.arrive p.reader (p.wire.take k) with
  | more r => simp
  | message m' r => simp
  | reject => exact absurd harrive haccept

/-- A pipe that is stuck has delivered everything. -/
theorem delivered_of_stuck (hW : W.Lawful content Sendable WValid rest)
    (hR : R.Lawful Accepts RValid held)
    (h : p.Inv content Sendable WValid rest Accepts RValid held sent)
    (hstuck : StateMachine.Stuck (step W R) p) : p.delivered = sent := by
  -- the writer has written everything
  have hoffer : (p.writer.map W.offer).getD [] = [] := by
    by_contra hne
    cases hw : p.writer with
    | none => exact hne (by rw [hw]; rfl)
    | some w =>
        rw [hw] at hne
        have hpos : 0 < (W.offer w).length := List.length_pos_iff.mpr hne
        have hwrite := hstuck (.write 1)
        unfold step at hwrite
        simp only [hw] at hwrite
        rw [if_pos ⟨Nat.one_pos, hpos⟩] at hwrite
        cases hwrite
  have hleft : left rest p.writer = [] := by
    cases hw : p.writer with
    | none => rfl
    | some w =>
        rw [hw] at hoffer
        by_contra hne
        exact hW.offer_ne (h.writer w hw) hne hoffer
  -- no message is waiting
  have hqueue : p.queue = [] := by
    cases hq : p.queue with
    | nil => rfl
    | cons m queue =>
        obtain ⟨w, hw, -⟩ := hW.start (h.sendable m (by rw [hq]; exact List.mem_cons_self))
        have hnext := hstuck .next
        unfold step at hnext
        simp only [hq] at hnext
        rw [if_pos hoffer, hw] at hnext
        cases hnext
  -- no frame has begun
  obtain ⟨undelivered, hsent, hacc, hbytes, hprefix⟩ := h.bytes
  cases undelivered with
  | nil => rw [hsent, List.append_nil]
  | cons m undelivered =>
      exfalso
      rw [hqueue, hleft] at hbytes
      have hlen := congrArg List.length hbytes
      have hcons : frames (m :: undelivered) = frame m ++ frames undelivered := rfl
      rw [hcons, List.nil_append, List.map_nil] at hlen
      have hnil : (frames [] : List UInt8) = [] := rfl
      rw [hnil, List.append_nil, List.length_append, List.length_append] at hlen
      have hstays := hR.stays h.reader (hacc m List.mem_cons_self) hprefix
      by_cases hzero : R.wanted p.reader = 0
      · refine read_possible hR h (Nat.zero_le _) ⟨?_, fun _ => hzero⟩ (hstuck (.read 0))
        rw [List.take_zero]
        exact Nat.zero_le _
      · have hwire : 1 ≤ p.wire.length := by omega
        have hone : (p.wire.take 1).length = 1 := by
          rw [List.length_take]
          omega
        refine read_possible hR h hwire ⟨by omega, fun hnone => ?_⟩ (hstuck (.read 1))
        rw [hnone] at hone
        cases hone

/-- **Messages over a stream.** In every run of a pipe the messages delivered are the first of the
messages sent. The run is bounded, and when it cannot go on every message has been delivered. -/
theorem run_delivers (hW : W.Lawful content Sendable WValid rest)
    (hR : R.Lawful Accepts RValid held) {ms : List μ}
    (hms : ∀ m ∈ ms, Sendable m ∧ Accepts (content m)) {as : List Move}
    (hrun : StateMachine.run (step W R) (start R ms) as = some p) :
    p.delivered <+: ms.map content ∧
      (StateMachine.Stuck (step W R) p → p.delivered = ms.map content) ∧
      as.length ≤ work content rest (ms.map content) (start R ms : Pipe μ ω ρ) := by
  have hstart : (start R ms : Pipe μ ω ρ).Inv content Sendable WValid rest Accepts RValid held
      (ms.map content) := start_inv hR hms
  have hinv := StateMachine.run_invariant (fun h hs => step_inv hW hR h hs) hstart hrun
  have hlen := StateMachine.run_length_le (fun h hs => step_inv hW hR h hs)
    (fun h hs => step_work hW hR h hs) hstart hrun
  refine ⟨?_, fun hstuck => delivered_of_stuck hW hR hinv hstuck, by omega⟩
  obtain ⟨undelivered, hsent, -⟩ := hinv.bytes
  exact ⟨undelivered, hsent.symm⟩

end

end Pipe

end Framing
