import SpeechBridge.Basic.Runs

set_option autoImplicit false

/-! # The reads and writes of a session

A session of the server reads a request, serves it, writes the response and reads the next
request. While a call is served, the ping back service writes messages to the client, from a
thread of its own. `mIoState` decides who may write: a response that finds a ping back under way is
queued, and the completion of the ping back sends it (`onReadCompleted`, `onWriteCompleted` and
`sendSessionResponse` of `src/RCF/src/RCF/RcfServer.cpp`, `sendPingBack`, `registerForPingBacks` and
`unregisterForPingBacks` of `src/RCF/src/RCF/RcfSession.cpp`).

Every critical section, and every call of the transport, is a step of a thread; the steps of the
threads interleave in any order. `onWriteCompleted` looks at the state in one critical section and
sets it in another. A response that is queued between the two stays in the queue
(`at_rest`), and `unregisterForPingBacks` does not stop a ping back that has passed its check.
-/

namespace SpeechBridge.Rcf

/-- `RcfSession::IoState`. -/
inductive IoState
  | Idle
  | Reading
  | Writing
  | WritingPingBack
  deriving DecidableEq, Repr

namespace SessionIo

/-- What becomes of a request: it is not supported and answered with an error, it is oneway, or it
is answered with a response, with ping backs or without. -/
inductive Request (μ : Type)
  | unsupported (error : μ)
  | oneway
  | twoway (pingBacks : Bool) (response : μ)
  deriving DecidableEq, Repr

/-- What is written: a ping back, or the answer to a request. -/
inductive Write (μ : Type)
  | pingBack
  | answer (m : μ)
  deriving DecidableEq, Repr

/-- The points between which a thread takes a step. -/
inductive Thread (μ : Type)
  /-- `onReadCompleted` has decoded a request. -/
  | decoded (r : Request μ)
  /-- The call is served, behind `registerForPingBacks`. -/
  | serving (pingBacks : Bool) (response : μ)
  /-- Before the critical section of `sendSessionResponse` or of an error in `onReadCompleted`. -/
  | answering (m : μ)
  /-- Before `postWrite` of an answer. -/
  | writing (m : μ)
  /-- `sendPingBack` has seen that the session is registered. -/
  | pingChecked
  /-- Before `postWrite` of a ping back. -/
  | pinging
  /-- The start of `onWriteCompleted`. -/
  | completed
  /-- `onWriteCompleted` of a ping back, between its critical sections. -/
  | pingWritten (queued : Option μ)
  /-- `onWriteCompleted` of an answer, before the critical section that starts reading. -/
  | finishing
  /-- Before `postRead`. -/
  | reading
  deriving DecidableEq, Repr

/-- The answers that a thread has in hand. -/
@[simp] def Thread.answers {μ : Type} : Thread μ → List μ
  | .decoded (.unsupported m) | .decoded (.twoway _ m) => [m]
  | .serving _ m | .answering m | .writing m => [m]
  | .pingWritten queued => queued.toList
  | _ => []

@[simp] def Write.answers {μ : Type} : Write μ → List μ
  | .pingBack => []
  | .answer m => [m]

@[simp] def Request.answers {μ : Type} : Request μ → List μ
  | .unsupported m | .twoway _ m => [m]
  | .oneway => []

/-- The ping back service runs `sendPingBack` to its end before it turns to the next session. -/
@[simp] def Thread.isPinger {μ : Type} : Thread μ → Bool
  | .pingChecked | .pinging => true
  | _ => false

end SessionIo

open SessionIo

/-- A session, the threads in it, and what has been posted to its transport. The last three fields
are for the statements: the answers to the requests that were read, what was written, and
whether an assertion has failed. -/
structure SessionIo (μ : Type) where
  ioState : IoState
  queuedSendBuffers : Option μ
  /-- `mPingBackTimerEntry` is set. -/
  registered : Bool
  threads : List (Thread μ)
  reads : Nat
  writes : List (Write μ)
  owed : List μ
  written : List (Write μ)
  violated : Bool

namespace SessionIo

/-- What happens: a thread takes a step, the read of a request or the first of the writes
completes, or the ping back service finds that a ping back is due. -/
inductive Action (μ : Type)
  | run (t : Thread μ)
  | readCompleted (r : Request μ)
  | writeCompleted
  | pingBackDue
  deriving DecidableEq, Repr

variable {μ : Type}

/-- `RCF_ASSERT`. -/
@[simp] def check (s : SessionIo μ) (b : Bool) : SessionIo μ :=
  { s with violated := s.violated || !b }

@[simp] def spawn (s : SessionIo μ) (t : Thread μ) : SessionIo μ :=
  { s with threads := t :: s.threads }

/-- `postWrite` asserts that the transport neither reads nor writes. -/
def postWrite (s : SessionIo μ) (w : Write μ) : SessionIo μ :=
  { s.check (s.reads == 0 && s.writes.isEmpty) with writes := s.writes ++ [w] }

/-- The critical section of `sendSessionResponse` and of the error branch of `onReadCompleted`. -/
def answer (s : SessionIo μ) (m : μ) : SessionIo μ :=
  if s.ioState = .Idle then ({ s with ioState := .Writing }).spawn (.writing m)
  else { s.check (s.ioState == IoState.WritingPingBack) with queuedSendBuffers := some m }

/-- A step of a thread, which has been taken out of the threads of the session. -/
def runThread (s : SessionIo μ) : Thread μ → SessionIo μ
  | .decoded (.unsupported error) => s.spawn (.answering error)
  | .decoded .oneway => s.spawn .completed
  | .decoded (.twoway pingBacks response) =>
      if pingBacks then
        ({ s.check (!s.registered) with registered := true }).spawn (.serving true response)
      else s.spawn (.serving false response)
  | .serving pingBacks response =>
      ({ s with registered := s.registered && !pingBacks }).spawn (.answering response)
  | .answering m => s.answer m
  | .writing m => s.postWrite (.answer m)
  | .pingChecked =>
      if s.ioState = .Idle then ({ s with ioState := .WritingPingBack }).spawn .pinging else s
  | .pinging => s.postWrite .pingBack
  | .completed =>
      if s.ioState = .WritingPingBack then
        ({ s with queuedSendBuffers := none }).spawn (.pingWritten s.queuedSendBuffers)
      else (s.check (s.ioState != IoState.Reading)).spawn .finishing
  | .pingWritten (some m) => ({ s with ioState := .Writing }).spawn (.writing m)
  | .pingWritten none => { s with ioState := .Idle }
  | .finishing => ({ s with ioState := .Reading }).spawn .reading
  | .reading => { s with reads := s.reads + 1 }

def step [DecidableEq μ] (s : SessionIo μ) : Action μ → Option (SessionIo μ)
  | .run t =>
      if t ∈ s.threads then some (({ s with threads := s.threads.erase t }).runThread t) else none
  | .readCompleted r =>
      if 0 < s.reads then
        some (({ s.check (s.ioState == IoState.Reading) with
          ioState := .Idle
          reads := s.reads - 1
          owed := s.owed ++ r.answers }).spawn (.decoded r))
      else none
  | .writeCompleted =>
      match s.writes with
      | [] => none
      | w :: writes =>
          some (({ s with writes := writes, written := s.written ++ [w] }).spawn .completed)
  | .pingBackDue =>
      if s.registered ∧ ∀ t ∈ s.threads, ¬ t.isPinger then some (s.spawn .pingChecked) else none

/-- An accepted connection starts with a completed write of nothing. -/
def accepted : SessionIo μ := ⟨.Idle, none, false, [.completed], 0, [], [], [], false⟩

/-! ## Who is where -/

/-- What a thread may be at. The last three are special cases of a call and of `pingWritten`. -/
inductive Point
  | call
  | writing
  | pingChecked
  | pinging
  | completed
  | pingWritten
  | finishing
  | reading
  | oneway
  | pinged
  | queued
  deriving DecidableEq, Repr

@[simp] def Thread.isAt : Thread μ → Point → Bool
  | .decoded .oneway, p => p = .call ∨ p = .oneway
  | .decoded (.unsupported _), p | .decoded (.twoway _ _), p | .answering _, p => p = .call
  | .serving pingBacks _, p => p = .call ∨ pingBacks ∧ p = .pinged
  | .writing _, p => p = .writing
  | .pingChecked, p => p = .pingChecked
  | .pinging, p => p = .pinging
  | .completed, p => p = .completed
  | .pingWritten queued, p => p = .pingWritten ∨ queued.isSome ∧ p = .queued
  | .finishing, p => p = .finishing
  | .reading, p => p = .reading

/-- The number of threads at a point. -/
def count (threads : List (Thread μ)) (p : Point) : Nat := threads.countP fun t => t.isAt p

@[simp] theorem count_cons (t : Thread μ) (threads : List (Thread μ)) (p : Point) :
    count (t :: threads) p = count threads p + (t.isAt p).toNat := by
  unfold count
  rw [List.countP_cons]
  cases t.isAt p <;> rfl

/-- A oneway call and a call with ping backs are calls, and not the same one. -/
theorem call_le (threads : List (Thread μ)) :
    count threads .oneway + count threads .pinged ≤ count threads .call := by
  induction threads with
  | nil => exact Nat.le_refl _
  | cons t threads ih =>
      have ht : (t.isAt .oneway).toNat + (t.isAt .pinged).toNat ≤ (t.isAt .call).toNat := by
        cases t with
        | decoded r => cases r <;> simp
        | serving pingBacks response => cases pingBacks <;> simp
        | _ => simp
      simp only [count_cons]
      omega

theorem queued_le (threads : List (Thread μ)) :
    count threads .queued ≤ count threads .pingWritten := by
  refine List.countP_mono_left fun t _ ht => ?_
  cases t with
  | pingWritten queued => rfl
  | decoded r => cases r <;> simp at ht
  | _ => simp at ht

/-- Every thread is at one of the points of a call, of a write or of a read. -/
theorem length_eq_count (threads : List (Thread μ)) :
    threads.length = count threads .call + count threads .writing + count threads .pingChecked
      + count threads .pinging + count threads .completed + count threads .pingWritten
      + count threads .finishing + count threads .reading := by
  induction threads with
  | nil => rfl
  | cons t threads ih =>
      rw [List.length_cons, ih]
      simp only [count_cons]
      cases t with
      | decoded r =>
          cases r <;> simp <;> omega
      | _ =>
          simp
          try omega

/-- The answers on their way. -/
def pending (s : SessionIo μ) : List μ :=
  s.writes.flatMap Write.answers ++ (s.queuedSendBuffers.toList ++ s.threads.flatMap Thread.answers)

/-- Who may be where in each state: one thing at a time is under way, and besides a ping back the
call that it belongs to. -/
def Phase (s : SessionIo μ) : Prop :=
  let n := count s.threads
  let queued := s.queuedSendBuffers.toList.length
  match s.ioState with
  | .Idle =>
      n .call + n .completed + n .finishing + queued = 1
        ∧ n .writing + n .pinging + n .pingWritten + n .reading + s.reads + s.writes.length = 0
  | .Reading =>
      n .reading + s.reads = 1
        ∧ n .call + n .completed + n .finishing + queued + n .writing + n .pinging
          + n .pingWritten + s.writes.length = 0
  | .Writing =>
      n .writing + s.writes.length + n .completed + n .finishing = 1
        ∧ n .call + queued + n .pinging + n .pingWritten + n .reading + s.reads = 0
  | .WritingPingBack =>
      n .pinging + s.writes.length + n .completed + n .pingWritten = 1
        ∧ n .call + queued + n .queued = 1
        ∧ n .writing + n .finishing + n .reading + s.reads = 0

/-- The invariant. `stale` and `oneway`: no ping back is about to start while the session is between
two calls, or serves a oneway call. -/
structure Inv (s : SessionIo μ) : Prop where
  sound : s.violated = false
  phase : s.Phase
  pinger : count s.threads .pingChecked + count s.threads .pinging ≤ 1
  registered : count s.threads .pinged = s.registered.toNat
  stale : s.ioState = .Idle → 0 < count s.threads .completed + count s.threads .finishing →
    count s.threads .pingChecked = 0
  oneway : 0 < count s.threads .oneway → s.ioState = .Idle ∧ count s.threads .pingChecked = 0
  pings : s.ioState = .WritingPingBack → s.writes.flatMap Write.answers = []
  owed : ∃ rest, s.owed = s.written.flatMap Write.answers ++ rest ∧ s.pending.Perm rest

/-- The invariant depends on how many threads are at each point, and on the answers they have in
hand. -/
theorem Inv.congr {s : SessionIo μ} (h : s.Inv) {threads : List (Thread μ)}
    (hcount : ∀ p, count threads p = count s.threads p)
    (hanswers : (threads.flatMap Thread.answers).Perm (s.threads.flatMap Thread.answers)) :
    ({ s with threads := threads } : SessionIo μ).Inv := by
  have hcount' : count s.threads = count threads := funext fun p => (hcount p).symm
  have hphase := h.phase
  obtain ⟨rest, howed, hpending⟩ := h.owed
  constructor
  · exact h.sound
  · unfold Phase at hphase ⊢
    rw [hcount'] at hphase
    exact hphase
  · rw [← hcount']
    exact h.pinger
  · rw [← hcount']
    exact h.registered
  · rw [← hcount']
    exact h.stale
  · rw [← hcount']
    exact h.oneway
  · exact h.pings
  · exact ⟨rest, howed, ((hanswers.append_left _).append_left _).trans hpending⟩

theorem Inv.perm {s : SessionIo μ} (h : s.Inv) {threads : List (Thread μ)}
    (hperm : s.threads.Perm threads) : ({ s with threads := threads } : SessionIo μ).Inv :=
  h.congr (fun _ => (hperm.countP_eq _).symm) (hperm.flatMap_right _).symm

/-! ## What is on its way -/

/-- The answers on their way are not more than the threads and the queue can hold. -/
theorem answers_length_le (threads : List (Thread μ)) :
    (threads.flatMap Thread.answers).length
      ≤ count threads .call + count threads .writing + count threads .queued := by
  induction threads with
  | nil => exact Nat.le_refl _
  | cons u threads ih =>
      rw [List.flatMap_cons, List.length_append]
      simp only [count_cons]
      have hu : u.answers.length
          ≤ (u.isAt .call).toNat + (u.isAt .writing).toNat + (u.isAt .queued).toNat := by
        cases u with
        | decoded r => cases r <;> simp
        | pingWritten queued => cases queued <;> simp
        | _ => simp
      omega

theorem writes_length_le (writes : List (Write μ)) :
    (writes.flatMap Write.answers).length ≤ writes.length := by
  induction writes with
  | nil => exact Nat.le_refl _
  | cons w writes ih =>
      rw [List.flatMap_cons, List.length_append, List.length_cons]
      cases w with
      | pingBack =>
          show 0 + _ ≤ _
          omega
      | answer m =>
          show 1 + _ ≤ _
          omega

/-- At most one answer is on its way. -/
theorem Inv.pending_length {s : SessionIo μ} (h : s.Inv) : s.pending.length ≤ 1 := by
  have hthreads := answers_length_le s.threads
  have hwrites := writes_length_le s.writes
  have hqueued := queued_le s.threads
  have hphase := h.phase
  have hpings := h.pings
  unfold Phase at hphase
  rw [pending, List.length_append, List.length_append]
  cases hio : s.ioState with
  | WritingPingBack =>
      rw [hpings hio, List.length_nil]
      simp only [hio] at hphase
      omega
  | _ =>
      simp only [hio] at hphase
      omega

/-- The session reads, and nothing else. -/
theorem Inv.reading {s : SessionIo μ} (h : s.Inv) (hreads : 0 < s.reads) : s.ioState = .Reading := by
  have hphase := h.phase
  unfold Phase at hphase
  cases hio : s.ioState with
  | Reading => rfl
  | _ =>
      simp only [hio] at hphase
      omega

/-! ## What one step preserves -/

section

variable {s t : SessionIo μ}

/-- An answer that is on its way in one state and in the next. -/
theorem Inv.owes (h : s.Inv) (howed : t.owed = s.owed) (hwritten : t.written = s.written)
    (hpending : t.pending.Perm s.pending) :
    ∃ rest, t.owed = t.written.flatMap Write.answers ++ rest ∧ t.pending.Perm rest := by
  obtain ⟨rest, hrest, hperm⟩ := h.owed
  refine ⟨rest, ?_, hpending.trans hperm⟩
  rw [howed, hwritten]
  exact hrest

/-- A thread goes on at the same points, with the same answer in hand. -/
theorem Inv.goesOn {u v : Thread μ} (h : (s.spawn u).Inv) (hat : ∀ p, v.isAt p = u.isAt p)
    (hanswers : v.answers = u.answers) : (s.spawn v).Inv := by
  refine @Inv.congr μ (s.spawn u) h (v :: s.threads) (fun p => ?_) ?_
  · show count (v :: s.threads) p = count (u :: s.threads) p
    rw [count_cons, count_cons, hat]
  · show ((v :: s.threads).flatMap Thread.answers).Perm ((u :: s.threads).flatMap Thread.answers)
    rw [List.flatMap_cons, List.flatMap_cons, hanswers]

theorem phase_idle (hio : s.ioState = .Idle) : s.Phase ↔
    count s.threads .call + count s.threads .completed + count s.threads .finishing
        + s.queuedSendBuffers.toList.length = 1 ∧
      count s.threads .writing + count s.threads .pinging + count s.threads .pingWritten
        + count s.threads .reading + s.reads + s.writes.length = 0 := by
  unfold Phase
  rw [hio]

theorem phase_reading (hio : s.ioState = .Reading) : s.Phase ↔
    count s.threads .reading + s.reads = 1 ∧
      count s.threads .call + count s.threads .completed + count s.threads .finishing
        + s.queuedSendBuffers.toList.length + count s.threads .writing + count s.threads .pinging
        + count s.threads .pingWritten + s.writes.length = 0 := by
  unfold Phase
  rw [hio]

theorem phase_writing (hio : s.ioState = .Writing) : s.Phase ↔
    count s.threads .writing + s.writes.length + count s.threads .completed
        + count s.threads .finishing = 1 ∧
      count s.threads .call + s.queuedSendBuffers.toList.length + count s.threads .pinging
        + count s.threads .pingWritten + count s.threads .reading + s.reads = 0 := by
  unfold Phase
  rw [hio]

theorem phase_pinging (hio : s.ioState = .WritingPingBack) : s.Phase ↔
    count s.threads .pinging + s.writes.length + count s.threads .completed
        + count s.threads .pingWritten = 1 ∧
      count s.threads .call + s.queuedSendBuffers.toList.length + count s.threads .queued = 1 ∧
      count s.threads .writing + count s.threads .finishing + count s.threads .reading
        + s.reads = 0 := by
  unfold Phase
  rw [hio]

/-- The states in which a thread can take its step. -/
def Thread.states : Thread μ → List IoState
  | .decoded .oneway => [.Idle]
  | .decoded _ | .serving _ _ | .answering _ => [.Idle, .WritingPingBack]
  | .writing _ => [.Writing]
  | .pingChecked => [.Idle, .Reading, .Writing, .WritingPingBack]
  | .pinging | .pingWritten _ => [.WritingPingBack]
  | .completed => [.Idle, .Writing, .WritingPingBack]
  | .finishing => [.Idle, .Writing]
  | .reading => [.Reading]

theorem Inv.states {u : Thread μ} (h : (s.spawn u).Inv) : s.ioState ∈ u.states := by
  cases hio : s.ioState with
  | Idle =>
      have hphase := (phase_idle (s := s.spawn u) hio).mp h.phase
      cases u with
      | decoded r => cases r <;> simp [Thread.states]
      | _ => simp [Thread.states, -List.length_eq_zero_iff] at hphase ⊢
  | Reading =>
      have hphase := (phase_reading (s := s.spawn u) hio).mp h.phase
      cases u with
      | decoded r => cases r <;> simp [-List.length_eq_zero_iff] at hphase
      | _ => simp [Thread.states, -List.length_eq_zero_iff] at hphase ⊢
  | Writing =>
      have hphase := (phase_writing (s := s.spawn u) hio).mp h.phase
      cases u with
      | decoded r => cases r <;> simp [-List.length_eq_zero_iff] at hphase
      | _ => simp [Thread.states, -List.length_eq_zero_iff] at hphase ⊢
  | WritingPingBack =>
      have hphase := (phase_pinging (s := s.spawn u) hio).mp h.phase
      cases u with
      | decoded r =>
          cases r with
          | oneway =>
              -- a oneway call is served only when the session is idle
              have hidle : s.ioState = .Idle := (h.oneway (by simp)).1
              rw [hio] at hidle
              cases hidle
          | _ => simp [Thread.states]
      | _ => simp [Thread.states, -List.length_eq_zero_iff] at hphase ⊢

/-- At most one call is served. -/
theorem Inv.calls (h : s.Inv) : count s.threads .call ≤ 1 := by
  have hphase := h.phase
  unfold Phase at hphase
  cases hio : s.ioState <;> simp only [hio] at hphase <;> omega

/-- What is written is a ping back, or the answer. -/
theorem Inv.writer (h : s.Inv) {w : Write μ} {writes : List (Write μ)}
    (hwrites : s.writes = w :: writes) :
    s.ioState = .Writing ∨ s.ioState = .WritingPingBack ∧ w = .pingBack := by
  have hphase := h.phase
  have hpings := h.pings
  unfold Phase at hphase
  rw [hwrites] at hpings
  simp only [hwrites, List.length_cons] at hphase
  cases hio : s.ioState with
  | Writing => exact .inl rfl
  | WritingPingBack =>
      cases w with
      | pingBack => exact .inr ⟨rfl, rfl⟩
      | answer m => cases hpings hio
  | _ =>
      simp only [hio] at hphase
      omega

/-- A call goes on with the same answer. -/
theorem decoded_inv {r : Request μ} (h : (s.spawn (.decoded r)).Inv) :
    (s.runThread (.decoded r)).Inv := by
  have hcalls := call_le s.threads
  cases r with
  | unsupported error => exact h.goesOn (fun _ => rfl) rfl
  | oneway =>
      -- nobody else is there, so `onWriteCompleted` is called as if a write had completed
      show (s.spawn .completed).Inv
      have hio : s.ioState = .Idle := List.mem_singleton.mp h.states
      have hquiet : count s.threads .pingChecked = 0 := (h.oneway (by simp)).2
      have hphase := (phase_idle (s := s.spawn _) hio).mp h.phase
      simp [-List.length_eq_zero_iff] at hphase
      have hnone : count s.threads .oneway = 0 := by omega
      exact {
        sound := h.sound
        phase := by
          refine (phase_idle (by exact hio)).mpr ?_
          simp [-List.length_eq_zero_iff]
          omega
        pinger := h.pinger
        registered := h.registered
        stale := fun _ _ => hquiet
        oneway := fun hone => absurd hone (Nat.not_lt.mpr hnone.le)
        pings := h.pings
        owed := h.owed }
  | twoway pingBacks response =>
      cases pingBacks with
      | false => exact h.goesOn (fun p => by cases p <;> rfl) rfl
      | true =>
          -- no other call is served, so the session is not registered
          show (({ s.check (!s.registered) with registered := true }).spawn
            (.serving true response)).Inv
          have hone := h.calls
          simp at hone
          have hpinged : count s.threads .pinged = s.registered.toNat := h.registered
          have hfree : s.registered = false := by
            cases hregistered : s.registered with
            | false => rfl
            | true =>
                rw [hregistered] at hpinged
                exact absurd hpinged (by rw [Bool.toNat_true]; omega)
          exact {
            sound := by simp [hfree, show s.violated = false from h.sound]
            phase := h.phase
            pinger := h.pinger
            registered := by simp [hpinged, hfree]
            stale := h.stale
            oneway := h.oneway
            pings := h.pings
            owed := h.owed }

/-- The end of a call: the ping backs are over, except one that has passed its check. -/
theorem serving_inv {pingBacks : Bool} {response : μ}
    (h : (s.spawn (.serving pingBacks response)).Inv) :
    (s.runThread (.serving pingBacks response)).Inv := by
  cases pingBacks with
  | false =>
      have heq : s.runThread (.serving false response) = s.spawn (.answering response) := by
        simp [runThread]
      rw [heq]
      exact h.goesOn (fun p => by cases p <;> rfl) rfl
  | true =>
      have hpinged : count (.serving true response :: s.threads) .pinged = s.registered.toNat :=
        h.registered
      have hone : count s.threads .pinged + 1 = s.registered.toNat := by simpa using hpinged
      have hle : s.registered.toNat ≤ 1 := Bool.toNat_le s.registered
      exact {
        sound := h.sound
        phase := h.phase
        pinger := h.pinger
        registered := by simp [runThread]; omega
        stale := h.stale
        oneway := h.oneway
        pings := h.pings
        owed := h.owed }

/-- An answer is sent, or queued behind a ping back. -/
theorem answer_inv {m : μ} (h : (s.spawn (.answering m)).Inv) : (s.answer m).Inv := by
  have hcalls := call_le s.threads
  have hio := h.states
  simp only [Thread.states, List.mem_cons, List.not_mem_nil, or_false] at hio
  rcases hio with hio | hio
  · have hphase := (phase_idle (s := s.spawn _) hio).mp h.phase
    simp [-List.length_eq_zero_iff] at hphase
    unfold answer
    rw [if_pos hio]
    exact {
      sound := h.sound
      phase := by
        refine (phase_writing rfl).mpr ?_
        simp [-List.length_eq_zero_iff]
        omega
      pinger := h.pinger
      registered := h.registered
      stale := fun hidle => by cases hidle
      oneway := fun hone => absurd hone (by simp; omega)
      pings := fun hping => by cases hping
      owed := h.owed }
  · have hphase := (phase_pinging (s := s.spawn _) hio).mp h.phase
    simp [-List.length_eq_zero_iff] at hphase
    have hnone : s.queuedSendBuffers = none :=
      Option.toList_eq_nil_iff.mp (List.length_eq_zero_iff.mp (by omega))
    unfold answer
    rw [if_neg (by rw [hio]; simp)]
    exact {
      sound := by simp [hio, show s.violated = false from h.sound]
      phase := by
        refine (phase_pinging (by exact hio)).mpr ?_
        simp [-List.length_eq_zero_iff]
        omega
      pinger := h.pinger
      registered := h.registered
      stale := h.stale
      oneway := h.oneway
      pings := h.pings
      owed := h.owes rfl rfl (by simp [pending, hnone]) }

/-- Who writes finds the transport ready. -/
theorem writing_inv {m : μ} (h : (s.spawn (.writing m)).Inv) : (s.postWrite (.answer m)).Inv := by
  have hio : s.ioState = .Writing := List.mem_singleton.mp h.states
  have hphase := (phase_writing (s := s.spawn _) hio).mp h.phase
  simp [-List.length_eq_zero_iff] at hphase
  have hwrites : s.writes = [] := List.length_eq_zero_iff.mp (by omega)
  have hreads : s.reads = 0 := by omega
  have hnone : s.queuedSendBuffers = none :=
    Option.toList_eq_nil_iff.mp (List.length_eq_zero_iff.mp (by omega))
  exact {
    sound := by simp [postWrite, hwrites, hreads, show s.violated = false from h.sound]
    phase := by
      refine (phase_writing (by exact hio)).mpr ?_
      simp [postWrite, hwrites, -List.length_eq_zero_iff]
      omega
    pinger := h.pinger
    registered := h.registered
    stale := h.stale
    oneway := h.oneway
    pings := fun hping => by
      rw [show s.ioState = _ from hping] at hio
      cases hio
    owed := h.owes rfl rfl (by simp [pending, postWrite, hwrites, hnone]) }

theorem pinging_inv (h : (s.spawn .pinging).Inv) : (s.postWrite .pingBack).Inv := by
  have hio : s.ioState = .WritingPingBack := List.mem_singleton.mp h.states
  have hphase := (phase_pinging (s := s.spawn _) hio).mp h.phase
  simp [-List.length_eq_zero_iff] at hphase
  have hwrites : s.writes = [] := List.length_eq_zero_iff.mp (by omega)
  have hreads : s.reads = 0 := by omega
  have hpinger := h.pinger
  simp at hpinger
  exact {
    sound := by simp [postWrite, hwrites, hreads, show s.violated = false from h.sound]
    phase := by
      refine (phase_pinging (by exact hio)).mpr ?_
      simp [postWrite, hwrites, -List.length_eq_zero_iff]
      omega
    pinger := by simp [postWrite]; omega
    registered := h.registered
    stale := h.stale
    oneway := h.oneway
    pings := fun _ => by simp [postWrite, hwrites]
    owed := h.owes rfl rfl (by simp [pending, postWrite, hwrites]) }

/-- A ping back starts when a call is served, or when its answer waits in the queue. -/
theorem pingChecked_inv (h : (s.spawn .pingChecked).Inv) : (s.runThread .pingChecked).Inv := by
  have hcalls := call_le s.threads
  have hqueued := queued_le s.threads
  have hpinger := h.pinger
  simp at hpinger
  by_cases hio : s.ioState = .Idle
  · have heq : s.runThread .pingChecked = ({ s with ioState := .WritingPingBack }).spawn .pinging :=
      if_pos hio
    have hphase := (phase_idle (s := s.spawn _) hio).mp h.phase
    simp [-List.length_eq_zero_iff] at hphase
    have hwrites : s.writes = [] := List.length_eq_zero_iff.mp (by omega)
    -- the session is not between two calls, and does not serve a oneway call
    have hbusy : count s.threads .completed + count s.threads .finishing = 0 := by
      by_contra hne
      exact absurd (h.stale hio (Nat.pos_of_ne_zero hne)) (by simp)
    have hnone : ¬ 0 < count s.threads .oneway := fun hone =>
      absurd (h.oneway hone).2 (by simp)
    rw [heq]
    exact {
      sound := h.sound
      phase := by
        refine (phase_pinging rfl).mpr ?_
        simp [-List.length_eq_zero_iff]
        omega
      pinger := by simp; omega
      registered := h.registered
      stale := fun hidle => by cases hidle
      oneway := fun hone => absurd hone hnone
      pings := fun _ => by simp [hwrites]
      owed := h.owed }
  · -- the ping back comes too late, or another one is under way
    have heq : s.runThread .pingChecked = s := if_neg hio
    rw [heq]
    have hnone : ¬ 0 < count s.threads .oneway := fun hone =>
      absurd (h.oneway hone).2 (by simp)
    exact {
      sound := h.sound
      phase := h.phase
      pinger := by omega
      registered := h.registered
      stale := fun hidle => absurd hidle hio
      oneway := fun hone => absurd hone hnone
      pings := h.pings
      owed := h.owed }

/-- After a ping back its completion goes on with the queue, after an answer it goes on to read. -/
theorem completed_inv (h : (s.spawn .completed).Inv) : (s.runThread .completed).Inv := by
  have hcalls := call_le s.threads
  by_cases hio : s.ioState = .WritingPingBack
  · have heq : s.runThread .completed
        = ({ s with queuedSendBuffers := none }).spawn (.pingWritten s.queuedSendBuffers) :=
      if_pos hio
    have hphase := (phase_pinging (s := s.spawn _) hio).mp h.phase
    simp [-List.length_eq_zero_iff] at hphase
    rw [heq]
    have hlength : s.queuedSendBuffers.toList.length = s.queuedSendBuffers.isSome.toNat := by
      cases s.queuedSendBuffers <;> rfl
    exact {
      sound := h.sound
      phase := by
        refine (phase_pinging (by exact hio)).mpr ?_
        simp [-List.length_eq_zero_iff]
        omega
      pinger := by simpa using h.pinger
      registered := by simpa using h.registered
      stale := fun hidle => by
        rw [show s.ioState = _ from hidle] at hio
        cases hio
      oneway := by simpa using h.oneway
      pings := h.pings
      owed := h.owes rfl rfl (by simp [pending]) }
  · have heq : s.runThread .completed = (s.check (s.ioState != .Reading)).spawn .finishing :=
      if_neg hio
    have hstates := h.states
    simp only [Thread.states, List.mem_cons, List.not_mem_nil, or_false] at hstates
    rw [heq]
    exact {
      sound := by
        rcases hstates with hidle | hwriting | hping
        · simp [hidle, show s.violated = false from h.sound]
        · simp [hwriting, show s.violated = false from h.sound]
        · exact absurd hping hio
      phase := by
        rcases hstates with hidle | hwriting | hping
        · have hphase := (phase_idle (s := s.spawn _) hidle).mp h.phase
          simp [-List.length_eq_zero_iff] at hphase
          refine (phase_idle (by exact hidle)).mpr ?_
          simp [-List.length_eq_zero_iff]
          omega
        · have hphase := (phase_writing (s := s.spawn _) hwriting).mp h.phase
          simp [-List.length_eq_zero_iff] at hphase
          refine (phase_writing (by exact hwriting)).mpr ?_
          simp [-List.length_eq_zero_iff]
          omega
        · exact absurd hping hio
      pinger := h.pinger
      registered := h.registered
      stale := fun hidle _ => h.stale hidle (by simp)
      oneway := h.oneway
      pings := h.pings
      owed := h.owed }

/-- A queued answer is sent, or the ping back is over. -/
theorem pingWritten_inv {q : Option μ} (h : (s.spawn (.pingWritten q)).Inv) :
    (s.runThread (.pingWritten q)).Inv := by
  have hcalls := call_le s.threads
  have hqueued := queued_le s.threads
  have hio : s.ioState = .WritingPingBack := List.mem_singleton.mp h.states
  have hphase := (phase_pinging (s := s.spawn _) hio).mp h.phase
  cases q with
  | some m =>
      simp [-List.length_eq_zero_iff] at hphase
      exact {
        sound := h.sound
        phase := by
          refine (phase_writing rfl).mpr ?_
          simp [runThread, -List.length_eq_zero_iff]
          omega
        pinger := h.pinger
        registered := h.registered
        stale := fun hidle => by cases hidle
        oneway := fun hone => absurd hone (by simp [runThread]; omega)
        pings := fun hping => by cases hping
        owed := h.owed }
  | none =>
      simp [-List.length_eq_zero_iff] at hphase
      exact {
        sound := h.sound
        phase := by
          refine (phase_idle rfl).mpr ?_
          simp [runThread, -List.length_eq_zero_iff]
          omega
        pinger := h.pinger
        registered := h.registered
        stale := fun _ hbetween => absurd hbetween (by simp [runThread]; omega)
        oneway := fun hone => by
          have hidle : s.ioState = .Idle := (h.oneway hone).1
          rw [hio] at hidle
          cases hidle
        pings := fun hping => by cases hping
        owed := h.owed }

/-- After an answer the session reads. -/
theorem finishing_inv (h : (s.spawn .finishing).Inv) : (s.runThread .finishing).Inv := by
  have hcalls := call_le s.threads
  have hio := h.states
  simp only [Thread.states, List.mem_cons, List.not_mem_nil, or_false] at hio
  -- nothing else is under way
  have hquiet : count s.threads .call + count s.threads .completed + count s.threads .finishing
      + s.queuedSendBuffers.toList.length + count s.threads .writing + count s.threads .pinging
      + count s.threads .pingWritten + count s.threads .reading + s.reads + s.writes.length = 0 := by
    rcases hio with hio | hio
    · have hphase := (phase_idle (s := s.spawn _) hio).mp h.phase
      simp [-List.length_eq_zero_iff] at hphase
      omega
    · have hphase := (phase_writing (s := s.spawn _) hio).mp h.phase
      simp [-List.length_eq_zero_iff] at hphase
      omega
  exact {
    sound := h.sound
    phase := by
      refine (phase_reading rfl).mpr ?_
      simp [runThread, -List.length_eq_zero_iff]
      omega
    pinger := h.pinger
    registered := h.registered
    stale := fun hidle => by cases hidle
    oneway := fun hone => absurd hone (by simp [runThread]; omega)
    pings := fun hping => by cases hping
    owed := h.owed }

theorem reading_inv (h : (s.spawn .reading).Inv) : (s.runThread .reading).Inv := by
  have hio : s.ioState = .Reading := List.mem_singleton.mp h.states
  have hphase := (phase_reading (s := s.spawn _) hio).mp h.phase
  simp [-List.length_eq_zero_iff] at hphase
  exact {
    sound := h.sound
    phase := by
      refine (phase_reading (by exact hio)).mpr ?_
      simp [runThread, -List.length_eq_zero_iff]
      omega
    pinger := h.pinger
    registered := h.registered
    stale := h.stale
    oneway := h.oneway
    pings := h.pings
    owed := h.owed }

theorem runThread_inv {t : Thread μ} (h : (s.spawn t).Inv) : (s.runThread t).Inv := by
  cases t with
  | decoded r => exact decoded_inv h
  | serving pingBacks response => exact serving_inv h
  | answering m => exact answer_inv h
  | writing m => exact writing_inv h
  | pingChecked => exact pingChecked_inv h
  | pinging => exact pinging_inv h
  | completed => exact completed_inv h
  | pingWritten queued => exact pingWritten_inv h
  | finishing => exact finishing_inv h
  | reading => exact reading_inv h

end

theorem accepted_inv : (accepted : SessionIo μ).Inv where
  sound := rfl
  phase := ⟨rfl, rfl⟩
  pinger := Nat.zero_le 1
  registered := rfl
  stale := fun _ _ => rfl
  oneway := fun h => absurd h (Nat.lt_irrefl 0)
  pings := fun _ => rfl
  owed := ⟨[], rfl, List.Perm.refl []⟩

/-- A oneway request is read only when no ping back is about to start. -/
def Calm (s : SessionIo μ) : Action μ → Prop
  | .readCompleted .oneway => count s.threads .pingChecked = 0
  | _ => True

instance (s : SessionIo μ) (a : Action μ) : Decidable (s.Calm a) := by
  unfold Calm
  split <;> infer_instance

section

variable [DecidableEq μ] {s t : SessionIo μ} {a : Action μ}

theorem run_inv (h : s.Inv) {u : Thread μ} (hstep : s.step (.run u) = some t) : t.Inv := by
  unfold step at hstep
  by_cases hu : u ∈ s.threads
  · simp only [if_pos hu] at hstep
    cases hstep
    exact runThread_inv (h.perm (List.perm_cons_erase hu))
  · simp only [if_neg hu] at hstep
    cases hstep

theorem readCompleted_inv (h : s.Inv) {r : Request μ} (hcalm : s.Calm (.readCompleted r))
    (hstep : s.step (.readCompleted r) = some t) : t.Inv := by
  unfold step at hstep
  by_cases hreads : 0 < s.reads
  · have hio := h.reading hreads
    have hcalls := call_le s.threads
    have hphase := (phase_reading hio).mp h.phase
    simp only [if_pos hreads] at hstep
    cases hstep
    have hwrites : s.writes = [] := List.length_eq_zero_iff.mp (by omega)
    have hnone : s.queuedSendBuffers = none :=
      Option.toList_eq_nil_iff.mp (List.length_eq_zero_iff.mp (by omega))
    have hanswers : (Thread.decoded r).answers = r.answers := by cases r <;> rfl
    exact {
      sound := by simp [hio, h.sound]
      phase := (phase_idle rfl).mpr (by
        cases r <;> simp [hwrites, hnone, -List.length_eq_zero_iff] <;> omega)
      pinger := by cases r <;> exact h.pinger
      registered := by cases r <;> exact h.registered
      stale := fun _ hbetween => absurd hbetween (by cases r <;> simp <;> omega)
      oneway := fun hone => by
        cases r with
        | oneway => exact ⟨rfl, hcalm⟩
        | unsupported m => exact absurd hone (by simp; omega)
        | twoway pingBacks m => exact absurd hone (by simp; omega)
      pings := fun hping => by cases hping
      owed := by
        -- the answer to the new request comes behind the others
        obtain ⟨rest, howed, hpending⟩ := h.owed
        refine ⟨rest ++ r.answers, ?_, ?_⟩
        · show s.owed ++ r.answers = _
          rw [howed, List.append_assoc]
          rfl
        · simp only [pending, hwrites, hnone] at hpending
          simp only [pending, check, spawn, hwrites, hnone, List.flatMap_cons, hanswers]
          rw [List.flatMap_nil, Option.toList_none, List.nil_append, List.nil_append] at hpending ⊢
          exact List.perm_append_comm.trans (hpending.append_right r.answers) }
  · simp only [if_neg hreads] at hstep
    cases hstep

theorem writeCompleted_inv (h : s.Inv) (hstep : s.step .writeCompleted = some t) : t.Inv := by
  have hlen := h.pending_length
  unfold step at hstep
  cases hwrites : s.writes with
  | nil =>
      rw [hwrites] at hstep
      cases hstep
  | cons w writes =>
      simp only [hwrites] at hstep
      cases hstep
      have hwriter := h.writer hwrites
      exact {
        sound := h.sound
        phase := by
          rcases hwriter with hio | ⟨hio, -⟩
          · have hphase := (phase_writing hio).mp h.phase
            rw [hwrites, List.length_cons] at hphase
            refine (phase_writing (by exact hio)).mpr ?_
            simp [-List.length_eq_zero_iff]
            omega
          · have hphase := (phase_pinging hio).mp h.phase
            rw [hwrites, List.length_cons] at hphase
            refine (phase_pinging (by exact hio)).mpr ?_
            simp [-List.length_eq_zero_iff]
            omega
        pinger := h.pinger
        registered := h.registered
        stale := fun hidle => by
          rcases hwriter with hio | ⟨hio, -⟩
          all_goals
            rw [show s.ioState = _ from hidle] at hio
            cases hio
        oneway := h.oneway
        pings := fun hping => by
          have hnone := h.pings hping
          rw [hwrites, List.flatMap_cons] at hnone
          exact (List.append_eq_nil_iff.mp hnone).2
        owed := by
          -- what was written is no longer on its way
          obtain ⟨rest, howed, hpending⟩ := h.owed
          have hone : rest.length ≤ 1 := by
            rw [← hpending.length_eq]
            exact hlen
          rw [pending, hwrites, List.flatMap_cons, List.append_assoc] at hpending
          cases w with
          | pingBack =>
              refine ⟨rest, ?_, hpending⟩
              show s.owed = (s.written ++ [Write.pingBack]).flatMap Write.answers ++ rest
              rw [List.flatMap_append]
              exact howed.trans (by simp)
          | answer m =>
              have hnil : writes.flatMap Write.answers
                  ++ (s.queuedSendBuffers.toList ++ s.threads.flatMap Thread.answers) = [] := by
                rw [← hpending.length_eq, List.length_append] at hone
                exact List.length_eq_zero_iff.mp (Nat.le_zero.mp (Nat.le_of_add_le_add_left hone))
              rw [hnil] at hpending
              have hm : rest = [m] := List.perm_singleton.mp hpending.symm
              subst hm
              refine ⟨[], ?_, ?_⟩
              · show s.owed = (s.written ++ [Write.answer m]).flatMap Write.answers ++ []
                rw [List.append_nil, List.flatMap_append]
                exact howed
              · exact List.Perm.of_eq hnil }

/-- Nobody but a call that is served has ping backs due. -/
theorem pingBackDue_inv (h : s.Inv) (hstep : s.step .pingBackDue = some t) : t.Inv := by
  unfold step at hstep
  by_cases hdue : s.registered ∧ ∀ u ∈ s.threads, ¬ u.isPinger
  · simp only [if_pos hdue] at hstep
    cases hstep
    obtain ⟨hreg, hfree⟩ := hdue
    have hcalls := call_le s.threads
    have hpinged : count s.threads .pinged = 1 := by
      rw [h.registered, hreg]
      rfl
    -- the ping back service is not busy with this session
    have hnone : count s.threads .pingChecked = 0 ∧ count s.threads .pinging = 0 := by
      unfold count
      rw [List.countP_eq_zero, List.countP_eq_zero]
      constructor
      · intro u hu hat
        have := hfree u hu
        cases u with
        | pingChecked => exact this rfl
        | decoded r => cases r <;> simp at hat
        | _ => simp at hat
      · intro u hu hat
        have := hfree u hu
        cases u with
        | pinging => exact this rfl
        | decoded r => cases r <;> simp at hat
        | _ => simp at hat
    -- the one call has ping backs, so it is not oneway
    have hone : count s.threads .call ≤ 1 := h.calls
    exact {
      sound := h.sound
      phase := h.phase
      pinger := by simp; omega
      registered := h.registered
      stale := fun hidle hbetween => by
        have hphase := (phase_idle (by exact hidle)).mp h.phase
        simp at hbetween
        omega
      oneway := fun hcall => absurd hcall (by simp; omega)
      pings := h.pings
      owed := h.owed }
  · simp only [if_neg hdue] at hstep
    cases hstep

/-- What one step preserves. -/
theorem step_inv (h : s.Inv) (hcalm : s.Calm a) (hstep : s.step a = some t) : t.Inv := by
  cases a with
  | run u => exact run_inv h hstep
  | readCompleted r => exact readCompleted_inv h hcalm hstep
  | writeCompleted => exact writeCompleted_inv h hstep
  | pingBackDue => exact pingBackDue_inv h hstep

/-- The session in which no oneway request is read while a ping back is about to start. -/
def calmStep : SessionIo μ → Action μ → Option (SessionIo μ) := StateMachine.restrict Calm step

theorem calm_inv (h : s.Inv) (hstep : s.calmStep a = some t) : t.Inv := by
  obtain ⟨hcalm, hs⟩ := StateMachine.restrict_eq_some.mp hstep
  exact step_inv h hcalm hs

/-- **One thing at a time.** However the threads interleave, as long as no oneway request is read
while a ping back is about to start: no assertion of the session or of its transport fails, the
transport is never asked to do two things at once, and the answers are written in the order of
the requests, each at most once, with at most one on its way. -/
theorem one_at_a_time {as : List (Action μ)}
    (hrun : StateMachine.run calmStep accepted as = some s) :
    s.violated = false ∧ s.reads + s.writes.length ≤ 1 ∧
      s.written.flatMap Write.answers <+: s.owed ∧
      s.owed.length ≤ (s.written.flatMap Write.answers).length + 1 := by
  have hinv := StateMachine.run_invariant (fun h hs => calm_inv h hs) accepted_inv hrun
  obtain ⟨rest, howed, hpending⟩ := hinv.owed
  have hphase := hinv.phase
  refine ⟨hinv.sound, ?_, ⟨rest, howed.symm⟩, ?_⟩
  · unfold Phase at hphase
    cases hio : s.ioState <;> simp only [hio] at hphase <;> omega
  · rw [howed, List.length_append, ← hpending.length_eq]
    have := hinv.pending_length
    omega

theorem one_at_a_time_call : ∃ s : SessionIo Nat,
    StateMachine.run calmStep accepted
      [.run .completed, .run .finishing, .run .reading, .readCompleted (.twoway true 7),
        .run (.decoded (.twoway true 7)), .pingBackDue, .run (.serving true 7),
        .run .pingChecked, .run (.answering 7), .run .pinging, .writeCompleted] = some s ∧
    s.violated = false ∧ s.reads + s.writes.length ≤ 1 ∧
      s.written.flatMap Write.answers <+: s.owed ∧
      s.owed.length ≤ (s.written.flatMap Write.answers).length + 1 := by
  obtain ⟨s, hrun⟩ : ∃ s : SessionIo Nat, StateMachine.run calmStep accepted
      [.run .completed, .run .finishing, .run .reading, .readCompleted (.twoway true 7),
        .run (.decoded (.twoway true 7)), .pingBackDue, .run (.serving true 7),
        .run .pingChecked, .run (.answering 7), .run .pinging, .writeCompleted] = some s :=
    ⟨_, rfl⟩
  exact ⟨s, hrun, one_at_a_time hrun⟩

end

/-! ## At rest -/

section

variable {s t : SessionIo μ}

/-- Nothing happens unless a request arrives or a ping back is due. -/
def AtRest (s : SessionIo μ) : Prop := s.threads = [] ∧ s.writes = []

/-- Waiting for the next request. -/
def Waiting (s : SessionIo μ) : Prop :=
  s.ioState = .Reading ∧ s.reads = 1 ∧ s.queuedSendBuffers = none ∧
    s.written.flatMap Write.answers = s.owed

/-- The last answer has been left in the queue, and the session does not read. -/
def Stranded (s : SessionIo μ) : Prop :=
  s.ioState = .Idle ∧ s.reads = 0 ∧
    ∃ m, s.queuedSendBuffers = some m ∧ s.owed = s.written.flatMap Write.answers ++ [m]

theorem Inv.at_rest (h : s.Inv) (hrest : s.AtRest) : s.Waiting ∨ s.Stranded := by
  obtain ⟨ioState, queued, registered, threads, reads, writes, owed, written, violated⟩ := s
  obtain ⟨hthreads, hwrites⟩ : threads = [] ∧ writes = [] := hrest
  subst hthreads hwrites
  obtain ⟨-, hphase, -, -, -, -, -, rest, howed, hpending⟩ := h
  have hqueue : queued.toList.Perm rest := by
    simpa [pending] using hpending
  have hnone : ∀ p, count ([] : List (Thread μ)) p = 0 := fun _ => rfl
  unfold Phase at hphase
  simp only [hnone] at hphase
  cases ioState with
  | Idle =>
      right
      cases queued with
      | none => cases hphase.1
      | some m =>
          refine ⟨rfl, by simpa using hphase.2, m, rfl, ?_⟩
          rw [← List.perm_singleton.mp hqueue.symm]
          exact howed
  | Reading =>
      left
      cases queued with
      | none =>
          refine ⟨rfl, by simpa using hphase.1, rfl, ?_⟩
          rw [List.nil_perm.mp hqueue, List.append_nil] at howed
          exact howed.symm
      | some m => cases hphase.2
  | Writing => cases hphase.1
  | WritingPingBack => cases hphase.1

/-- An answer is queued while the completion of a ping back is between its critical sections. -/
def Overlaps (s : SessionIo μ) : Action μ → Prop
  | .run (.answering _) => Thread.pingWritten none ∈ s.threads
  | _ => False

instance [DecidableEq μ] (s : SessionIo μ) (a : Action μ) : Decidable (s.Overlaps a) := by
  unfold Overlaps
  split <;> infer_instance

/-- An answer in the queue is sent by the ping back that is under way. -/
structure Watched (s : SessionIo μ) : Prop where
  idle : s.ioState = .Idle → s.queuedSendBuffers = none
  window : Thread.pingWritten none ∈ s.threads → s.queuedSendBuffers = none

theorem Watched.mono (hw : s.Watched) (hqueued : t.queuedSendBuffers = s.queuedSendBuffers)
    (hidle : t.ioState = .Idle → s.ioState = .Idle)
    (hwindow : Thread.pingWritten none ∈ t.threads → Thread.pingWritten none ∈ s.threads) :
    t.Watched where
  idle h := hqueued.trans (hw.idle (hidle h))
  window h := hqueued.trans (hw.window (hwindow h))

/-- The threads but one, and a new one that is not in the window. -/
theorem mem_spawn {u : Thread μ} {threads : List (Thread μ)} (hsub : threads ⊆ s.threads)
    (hu : u ≠ .pingWritten none) (h : Thread.pingWritten none ∈ u :: threads) :
    Thread.pingWritten none ∈ s.threads := by
  rcases List.mem_cons.mp h with h | h
  · exact absurd h.symm hu
  · exact hsub h

theorem runThread_watched {u : Thread μ} {threads : List (Thread μ)} (hw : s.Watched)
    (hu : u ∈ s.threads) (hsub : threads ⊆ s.threads) (hfree : ¬ s.Overlaps (.run u)) :
    (({ s with threads := threads } : SessionIo μ).runThread u).Watched := by
  cases u with
  | decoded r =>
      cases r with
      | unsupported error => exact hw.mono rfl id (mem_spawn hsub (by simp))
      | oneway => exact hw.mono rfl id (mem_spawn hsub (by simp))
      | twoway pingBacks response =>
          cases pingBacks with
          | false => exact hw.mono rfl id (mem_spawn hsub (by simp))
          | true => exact hw.mono rfl id (mem_spawn hsub (by simp))
  | serving pingBacks response => exact hw.mono rfl id (mem_spawn hsub (by simp))
  | answering m =>
      unfold runThread answer
      by_cases hio : s.ioState = .Idle
      · simp only [hio, if_true]
        exact hw.mono rfl (fun _ => hio) (mem_spawn hsub (by simp))
      · -- the answer is queued: nobody is in the window
        simp only [if_neg hio]
        exact ⟨fun h => absurd h hio, fun h => absurd (hsub h) hfree⟩
  | writing m => exact hw.mono rfl id (fun h => hsub h)
  | pingChecked =>
      unfold runThread
      by_cases hio : s.ioState = .Idle
      · simp only [hio, if_true]
        exact hw.mono rfl (fun _ => hio) (mem_spawn hsub (by simp))
      · simp only [if_neg hio]
        exact hw.mono rfl id (fun h => hsub h)
  | pinging => exact hw.mono rfl id (fun h => hsub h)
  | completed =>
      unfold runThread
      by_cases hio : s.ioState = .WritingPingBack
      · simp only [hio, if_true]
        exact ⟨fun _ => rfl, fun _ => rfl⟩
      · simp only [if_neg hio]
        exact hw.mono rfl id (mem_spawn hsub (by simp))
  | pingWritten queued =>
      cases queued with
      | none =>
          -- what the second critical section is about to forget is nothing
          have hnone := hw.window hu
          exact ⟨fun _ => hnone, fun _ => hnone⟩
      | some m => exact hw.mono rfl (fun h => by cases h) (mem_spawn hsub (by simp))
  | finishing => exact hw.mono rfl (fun h => by cases h) (mem_spawn hsub (by simp))
  | reading => exact hw.mono rfl id (fun h => hsub h)

theorem accepted_watched : (accepted : SessionIo μ).Watched where
  idle := fun _ => rfl
  window := fun h => absurd h (by simp [accepted])

end

section

variable [DecidableEq μ] {s t : SessionIo μ} {a : Action μ}

theorem step_watched (hinv : s.Inv) (hw : s.Watched) (hfree : ¬ s.Overlaps a)
    (hstep : s.step a = some t) : t.Watched := by
  unfold step at hstep
  cases a with
  | run u =>
      by_cases hu : u ∈ s.threads
      · simp only [if_pos hu] at hstep
        cases hstep
        exact runThread_watched hw hu (fun v hv => List.mem_of_mem_erase hv) hfree
      · simp only [if_neg hu] at hstep
        cases hstep
  | readCompleted r =>
      by_cases hreads : 0 < s.reads
      · have hphase := hinv.phase
        unfold Phase at hphase
        simp only [hinv.reading hreads] at hphase
        simp only [if_pos hreads] at hstep
        cases hstep
        have hnone : s.queuedSendBuffers = none := by
          cases hq : s.queuedSendBuffers with
          | none => rfl
          | some m =>
              rw [hq] at hphase
              simp at hphase
        exact ⟨fun _ => hnone, fun _ => hnone⟩
      · simp only [if_neg hreads] at hstep
        cases hstep
  | writeCompleted =>
      cases hwrites : s.writes with
      | nil =>
          simp only [hwrites] at hstep
          cases hstep
      | cons w writes =>
          simp only [hwrites] at hstep
          cases hstep
          exact hw.mono rfl id (mem_spawn (fun v hv => hv) (by simp))
  | pingBackDue =>
      by_cases hdue : s.registered ∧ ∀ u ∈ s.threads, ¬ u.isPinger
      · simp only [if_pos hdue] at hstep
        cases hstep
        exact hw.mono rfl id (mem_spawn (fun v hv => hv) (by simp))
      · simp only [if_neg hdue] at hstep
        cases hstep

end

/-! ## Coming to rest -/

/-- How far a thread is from its end. -/
def Thread.distance : Thread μ → Nat
  | .decoded _ => 8
  | .serving _ _ => 7
  | .answering _ | .pingChecked | .pingWritten (some _) => 6
  | .writing _ | .pinging => 5
  | .completed => 3
  | .finishing => 2
  | .pingWritten none | .reading => 1

/-- How far a session is from rest. -/
def distance (s : SessionIo μ) : Nat :=
  (s.threads.map Thread.distance).sum + 4 * s.queuedSendBuffers.toList.length + 4 * s.writes.length

theorem runThread_distance {s : SessionIo μ} {u : Thread μ} :
    (s.runThread u).distance < (s.spawn u).distance := by
  obtain ⟨ioState, queued, registered, threads, reads, writes, owed, written, violated⟩ := s
  cases u with
  | decoded r =>
      cases r with
      | twoway pingBacks response =>
          cases pingBacks <;> simp [runThread, distance, Thread.distance]
      | _ => simp [runThread, distance, Thread.distance]
  | answering m =>
      cases ioState <;> cases queued <;> simp [runThread, answer, distance, Thread.distance]
      all_goals omega
  | pingChecked => cases ioState <;> simp [runThread, distance, Thread.distance]
  | completed =>
      cases ioState <;> cases queued <;> simp [runThread, distance, Thread.distance]
      omega
  | pingWritten q => cases q <;> simp [runThread, distance, Thread.distance]
  | _ =>
      simp [runThread, postWrite, distance, Thread.distance]
      try omega

section

variable [DecidableEq μ] {s t : SessionIo μ} {a : Action μ}

/-- What happens by itself: nothing arrives, and no ping back is due. -/
def Own : Action μ → Prop
  | .run _ | .writeCompleted => True
  | .readCompleted _ | .pingBackDue => False

instance (a : Action μ) : Decidable (Own a) := by
  unfold Own
  split <;> infer_instance

def ownStep : SessionIo μ → Action μ → Option (SessionIo μ) :=
  StateMachine.restrict (fun _ a => Own a) step

theorem own_distance (hstep : s.ownStep a = some t) : t.distance < s.distance := by
  obtain ⟨hown, hs⟩ := StateMachine.restrict_eq_some.mp hstep
  unfold step at hs
  cases a with
  | run u =>
      by_cases hu : u ∈ s.threads
      · simp only [if_pos hu] at hs
        cases hs
        refine Nat.lt_of_lt_of_eq runThread_distance ?_
        have hperm := ((List.perm_cons_erase hu).map Thread.distance).sum_eq
        unfold distance
        rw [hperm]
        rfl
      · simp only [if_neg hu] at hs
        cases hs
  | writeCompleted =>
      cases hwrites : s.writes with
      | nil =>
          simp only [hwrites] at hs
          cases hs
      | cons w writes =>
          simp only [hwrites] at hs
          cases hs
          simp only [distance, spawn, hwrites, List.map_cons, List.sum_cons, Thread.distance,
            List.length_cons]
          omega
  | readCompleted r => cases hown
  | pingBackDue => cases hown

/-- A step that happens by itself is calm. -/
theorem calm_of_own (hstep : s.ownStep a = some t) : s.calmStep a = some t := by
  obtain ⟨hown, hs⟩ := StateMachine.restrict_eq_some.mp hstep
  refine StateMachine.restrict_eq_some.mpr ⟨?_, hs⟩
  cases a with
  | run u => exact trivial
  | writeCompleted => exact trivial
  | readCompleted r => cases hown
  | pingBackDue => cases hown

theorem atRest_of_stuck (h : StateMachine.Stuck ownStep s) : s.AtRest := by
  constructor
  · cases hthreads : s.threads with
    | nil => rfl
    | cons u threads =>
        have hu : u ∈ s.threads := by
          rw [hthreads]
          exact List.mem_cons_self
        have hrun : s.ownStep (.run u) = some _ :=
          StateMachine.restrict_eq_some.mpr ⟨trivial, if_pos hu⟩
        rw [h] at hrun
        cases hrun
  · cases hwrites : s.writes with
    | nil => rfl
    | cons w writes =>
        have hrun : s.ownStep .writeCompleted = some _ :=
          StateMachine.restrict_eq_some.mpr ⟨trivial, by unfold step; rw [hwrites]⟩
        rw [h] at hrun
        cases hrun

/-- **Coming to rest.** In a calm run, when no request arrives and no ping back is due any more, the
threads of the session come to an end after finitely many steps. Then the session waits for the
next request with all its answers written, or its last answer has been left in the queue and it
will never read again. -/
theorem comes_to_rest {as bs : List (Action μ)}
    (hrun : StateMachine.run calmStep accepted as = some s)
    (hown : StateMachine.run ownStep s bs = some t) :
    bs.length ≤ s.distance ∧
      (StateMachine.Stuck ownStep t → t.AtRest ∧ (t.Waiting ∨ t.Stranded)) := by
  have hinv := StateMachine.run_invariant (fun h hs => calm_inv h hs) accepted_inv hrun
  have hinv' := StateMachine.run_invariant (fun h hs => calm_inv h (calm_of_own hs)) hinv hown
  have hlen := StateMachine.run_length_le (fun h hs => calm_inv h (calm_of_own hs))
    (fun _ hs => own_distance hs) hinv hown
  refine ⟨by omega, fun hstuck => ?_⟩
  have hrest := atRest_of_stuck hstuck
  exact ⟨hrest, hinv'.at_rest hrest⟩

theorem comes_to_rest_accepted : ∃ s t : SessionIo Nat,
    StateMachine.run calmStep accepted [.run .completed] = some s ∧
      StateMachine.run ownStep s [.run .finishing, .run .reading] = some t ∧
      t.AtRest ∧ (t.Waiting ∨ t.Stranded) := by
  obtain ⟨s, t, hrun, hown, hstuck⟩ : ∃ s t : SessionIo Nat,
      StateMachine.run calmStep accepted [.run .completed] = some s ∧
      StateMachine.run ownStep s [.run .finishing, .run .reading] = some t ∧
      StateMachine.Stuck ownStep t :=
    ⟨_, _, rfl, rfl, fun a => by cases a <;> rfl⟩
  exact ⟨s, t, hrun, hown, (comes_to_rest hrun hown).2 hstuck⟩

/-- The session in which, besides, no answer is queued in the window. -/
def orderlyStep : SessionIo μ → Action μ → Option (SessionIo μ) :=
  StateMachine.restrict (fun s a => s.Calm a ∧ ¬ s.Overlaps a) step

theorem orderly_inv (h : s.Inv ∧ s.Watched) (hstep : s.orderlyStep a = some t) :
    t.Inv ∧ t.Watched := by
  obtain ⟨⟨hcalm, hfree⟩, hs⟩ := StateMachine.restrict_eq_some.mp hstep
  exact ⟨step_inv h.1 hcalm hs, step_watched h.1 h.2 hfree hs⟩

/-- **No answer is left.** In a calm run in which no answer is queued while the completion of a ping
back is between its critical sections, a session at rest waits for the next request, and every
answer has been written. -/
theorem orderly_at_rest {as : List (Action μ)}
    (hrun : StateMachine.run orderlyStep accepted as = some s) (hrest : s.AtRest) : s.Waiting := by
  have hinv := StateMachine.run_invariant (fun h hs => orderly_inv h hs)
    ⟨accepted_inv, accepted_watched⟩ hrun
  rcases hinv.1.at_rest hrest with h | ⟨hidle, -, m, hm, -⟩
  · exact h
  · rw [hinv.2.idle hidle] at hm
    cases hm

theorem orderly_at_rest_accepted : ∃ s : SessionIo Nat,
    StateMachine.run orderlyStep accepted [.run .completed, .run .finishing, .run .reading]
      = some s ∧ s.Waiting := by
  obtain ⟨s, hrun, hrest⟩ : ∃ s : SessionIo Nat, StateMachine.run orderlyStep accepted
      [.run .completed, .run .finishing, .run .reading] = some s ∧ s.AtRest :=
    ⟨_, rfl, rfl, rfl⟩
  exact ⟨s, hrun, orderly_at_rest hrun hrest⟩

/-- Only the completion of a ping back is left, and it makes the session idle: nothing is read or
written, and no ping back can become due. -/
structure Fading (s : SessionIo μ) : Prop where
  state : s.ioState ≠ .Reading
  threads : s.threads = [] ∨ s.threads = [.pingWritten none]
  writes : s.writes = []
  reads : s.reads = 0
  unregistered : s.registered = false

/-- All that can happen is that the completion comes to its end. -/
theorem step_fading (h : s.Fading) (hstep : s.step a = some t) :
    t.Fading ∧ t.threads.length < s.threads.length := by
  unfold step at hstep
  cases a with
  | run u =>
      by_cases hu : u ∈ s.threads
      · rcases h.threads with hnone | hone
        · rw [hnone] at hu
          exact absurd hu List.not_mem_nil
        · rw [hone, List.mem_singleton] at hu
          subst hu
          simp only [hone, List.mem_singleton, if_true, List.erase_cons_head] at hstep
          cases hstep
          refine ⟨⟨?_, Or.inl rfl, h.writes, h.reads, h.unregistered⟩, ?_⟩
          · intro hio
            cases hio
          · rw [hone]
            exact Nat.zero_lt_one
      · simp only [if_neg hu] at hstep
        cases hstep
  | readCompleted r =>
      simp only [h.reads, Nat.lt_irrefl, if_false] at hstep
      cases hstep
  | writeCompleted =>
      simp only [h.writes] at hstep
      cases hstep
  | pingBackDue =>
      simp only [h.unregistered, Bool.false_eq_true, false_and, if_false] at hstep
      cases hstep

/-- Nothing that happens to a fading session is the read of a request. -/
theorem Fading.calm (h : s.Fading) (hstep : s.step a = some t) : s.calmStep a = some t := by
  refine StateMachine.restrict_eq_some.mpr ⟨?_, hstep⟩
  cases a with
  | readCompleted r =>
      unfold step at hstep
      simp only [h.reads, Nat.lt_irrefl, if_false] at hstep
      cases hstep
  | run u => exact trivial
  | writeCompleted => exact trivial
  | pingBackDue => exact trivial

theorem fading_inv (h : s.Inv ∧ s.Fading) (hstep : s.step a = some t) : t.Inv ∧ t.Fading :=
  ⟨calm_inv h.1 (h.2.calm hstep), (step_fading h.2 hstep).1⟩

/-- An answer that is queued in the window, when no ping back is about to start. -/
theorem fading_of_overlap {m : μ} (h : s.Inv) (hoverlap : s.Overlaps (.run (.answering m)))
    (hping : count s.threads .pingChecked = 0) (hstep : s.step (.run (.answering m)) = some t) :
    t.Fading := by
  have hmem : Thread.pingWritten none ∈ s.threads := hoverlap
  unfold step at hstep
  by_cases hu : Thread.answering m ∈ s.threads
  · simp only [if_pos hu] at hstep
    cases hstep
    have hwindow : Thread.pingWritten none ∈ s.threads.erase (.answering m) :=
      (List.mem_erase_of_ne (by simp)).mpr hmem
    have hinv := h.perm (List.perm_cons_erase hu)
    have hquiet : count (s.threads.erase (.answering m)) .pingChecked = 0 := by
      have hperm := (List.perm_cons_erase hu).countP_eq fun v => v.isAt .pingChecked
      have hcons := count_cons (.answering m) (s.threads.erase (.answering m)) .pingChecked
      unfold count at hping hcons ⊢
      omega
    generalize s.threads.erase (.answering m) = threads at hwindow hinv hquiet
    have hone : 0 < count threads .pingWritten := List.countP_pos_iff.mpr ⟨_, hwindow, rfl⟩
    have hlen := length_eq_count threads
    have hphase := hinv.phase
    unfold Phase at hphase
    cases hio : s.ioState with
    | WritingPingBack =>
        -- the ping back and the answer are all that is under way
        simp [hio, -List.length_eq_zero_iff] at hphase
        have hsingle : threads.length = 1 := by omega
        obtain ⟨u, rfl⟩ := List.length_eq_one_iff.mp hsingle
        rw [List.mem_singleton] at hwindow
        subst hwindow
        have hfree : s.registered = false := by
          have hcount := hinv.registered
          cases hregistered : s.registered with
          | false => rfl
          | true =>
              rw [hregistered] at hcount
              cases hcount
        refine ⟨?_, ?_, ?_, ?_, ?_⟩
        · show (answer _ m).ioState ≠ .Reading
          simp [answer]
        · show (answer _ m).threads = [] ∨ (answer _ m).threads = _
          simp [answer]
        · show (answer _ m).writes = []
          simp only [answer, reduceCtorEq, if_false, check]
          exact List.length_eq_zero_iff.mp (by omega)
        · show (answer _ m).reads = 0
          simp only [answer, reduceCtorEq, if_false, check]
          omega
        · show (answer _ m).registered = false
          simp only [answer, reduceCtorEq, if_false, check]
          exact hfree
    | _ =>
        simp only [hio, count_cons] at hphase
        omega
  · simp only [if_neg hu] at hstep
    cases hstep

theorem stuck_own (h : StateMachine.Stuck step s) : StateMachine.Stuck ownStep s := by
  intro a
  cases hstep : s.ownStep a with
  | none => rfl
  | some t =>
      have hs := (StateMachine.restrict_eq_some.mp hstep).2
      rw [h a] at hs
      cases hs

/-- **A lost answer.** When, in a calm run, an answer is queued in the window and no ping back is
about to start, the answer is lost. Whatever may happen from then on, at most one step is taken,
the session never reads again, and it comes to rest with the answer in its queue. -/
theorem lost_answer {m : μ} {as bs : List (Action μ)} {u : SessionIo μ}
    (hrun : StateMachine.run calmStep accepted as = some s)
    (hoverlap : s.Overlaps (.run (.answering m))) (hping : count s.threads .pingChecked = 0)
    (hstep : s.step (.run (.answering m)) = some t)
    (hrest : StateMachine.run step t bs = some u) :
    bs.length ≤ 1 ∧ u.reads = 0 ∧ (StateMachine.Stuck step u → u.Stranded) := by
  have hinv := StateMachine.run_invariant (fun h hs => calm_inv h hs) accepted_inv hrun
  have hcalm : s.calmStep (.run (.answering m)) = some t :=
    StateMachine.restrict_eq_some.mpr ⟨trivial, hstep⟩
  have hfading := fading_of_overlap hinv hoverlap hping hstep
  have hend := StateMachine.run_invariant (fun h hs => fading_inv h hs)
    ⟨calm_inv hinv hcalm, hfading⟩ hrest
  have hlen := StateMachine.run_length_le (fun h hs => (step_fading h hs).1)
    (fun h hs => (step_fading h hs).2) hfading hrest
  have hone : t.threads.length ≤ 1 := by
    rcases hfading.threads with h | h
    · rw [h]
      exact Nat.zero_le 1
    · rw [h]
      exact Nat.le_refl 1
  refine ⟨by omega, hend.2.reads, fun hstuck => ?_⟩
  rcases hend.1.at_rest (atRest_of_stuck (stuck_own hstuck)) with hwaiting | hstranded
  · exact absurd hwaiting.1 hend.2.state
  · exact hstranded

/-- A ping back is written while the call is served. -/
theorem lost_answer_call : ∃ s t u : SessionIo Nat,
    StateMachine.run calmStep accepted
      [.run .completed, .run .finishing, .run .reading, .readCompleted (.twoway true 7),
        .run (.decoded (.twoway true 7)), .pingBackDue, .run .pingChecked, .run .pinging,
        .writeCompleted, .run .completed, .run (.serving true 7)] = some s ∧
    s.step (.run (.answering 7)) = some t ∧
    StateMachine.run step t [.run (.pingWritten none)] = some u ∧ u.Stranded := by
  obtain ⟨s, t, u, hrun, hoverlap, hping, hstep, hrest, hstuck⟩ : ∃ s t u : SessionIo Nat,
      StateMachine.run calmStep accepted
        [.run .completed, .run .finishing, .run .reading, .readCompleted (.twoway true 7),
          .run (.decoded (.twoway true 7)), .pingBackDue, .run .pingChecked, .run .pinging,
          .writeCompleted, .run .completed, .run (.serving true 7)] = some s ∧
      s.Overlaps (.run (.answering 7)) ∧ count s.threads .pingChecked = 0 ∧
      s.step (.run (.answering 7)) = some t ∧
      StateMachine.run step t [.run (.pingWritten none)] = some u ∧
      StateMachine.Stuck step u :=
    ⟨_, _, _, rfl, by decide, rfl, rfl, rfl, fun a => by cases a <;> rfl⟩
  exact ⟨s, t, u, hrun, hstep, hrest,
    (lost_answer hrun hoverlap hping hstep hrest).2.2 hstuck⟩

end

end SessionIo

end SpeechBridge.Rcf
