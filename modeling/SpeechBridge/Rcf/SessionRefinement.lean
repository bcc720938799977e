import SpeechBridge.Rcf.SessionIo
import SpeechBridge.Rcf.Versioning

set_option autoImplicit false

/-! # One request in the threads of a session

`RcfSession.serve` takes a request in one step and is told by the answer which ping backs were sent
meanwhile and whether the answer was lost. The threads of `SessionIo` decide it by how they
interleave. Between two states in which nothing goes on, both do the same: what `serve` answers
with, some run of the threads writes (`serve_threads`), and what a run writes, `serve` answers
with for some ping backs and some loss (`threads_serve`).
-/

namespace SpeechBridge.Rcf

namespace SessionIo

variable {μ : Type}

/-- Ping backs may be sent while the request is served. -/
@[simp] def Request.asks : Request μ → Bool
  | .twoway pingBacks _ => pingBacks
  | _ => false

@[simp] def Action.isRead : Action μ → Bool
  | .readCompleted _ => true
  | _ => false

/-- What a request adds to what was written. -/
def exchanged (n : Nat) (answers : List μ) : List (Write μ) :=
  List.replicate n .pingBack ++ answers.map .answer

theorem exchanged_pingBack (n : Nat) :
    exchanged n ([] : List μ) ++ [.pingBack] = exchanged (n + 1) [] := by
  unfold exchanged
  rw [List.map_nil, List.append_nil, List.append_nil, List.replicate_succ']

theorem exchanged_answer (n : Nat) (ms : List μ) (m : μ) :
    exchanged n ms ++ [.answer m] = exchanged n (ms ++ [m]) := by
  unfold exchanged
  rw [List.map_append, List.append_assoc]
  rfl

theorem exchanged_answers (n : Nat) (ms : List μ) :
    (exchanged n ms).flatMap Write.answers = ms := by
  unfold exchanged
  rw [List.flatMap_append]
  have hpings : (List.replicate n (Write.pingBack : Write μ)).flatMap Write.answers = [] := by
    rw [List.flatMap_replicate]
    simp
  rw [hpings, List.nil_append]
  induction ms with
  | nil => rfl
  | cons m ms ih =>
      rw [List.map_cons, List.flatMap_cons, ih]
      rfl

/-! ## What a run writes -/

/-- Not a point where it is decided what is written. -/
@[simp] def Thread.isQuiet : Thread μ → Bool
  | .decoded _ | .pingChecked | .pinging => false
  | _ => true

/-- The request `r` is served: `n` ping backs and the answers `ms` have been written so far. -/
structure Serves (r : Request μ) (before : List (Write μ)) (n : Nat) (ms : List μ)
    (s : SessionIo μ) : Prop where
  written : s.written = before ++ exchanged n ms
  owed : s.owed = before.flatMap Write.answers ++ r.answers
  decoded : ∀ r', .decoded r' ∈ s.threads → r' = r
  asked : 0 < n ∨ s.registered ∨ .pingChecked ∈ s.threads ∨ .pinging ∈ s.threads
    ∨ .pingBack ∈ s.writes → r.asks
  answered : ms ≠ [] → s.ioState = .Writing ∨ s.ioState = .Reading
  pings : .pingBack ∈ s.writes → s.ioState = .WritingPingBack
  pinged : s.ioState = .WritingPingBack → 0 < n ∨ .pinging ∈ s.threads ∨ .pingBack ∈ s.writes
  queued : s.ioState = .Idle → s.queuedSendBuffers.isSome → 0 < n

section

variable {s : SessionIo μ}

/-- Between the critical sections of its completion a ping back has been written. -/
theorem Inv.window {queued : Option μ} (h : (s.spawn (.pingWritten queued)).Inv) :
    s.ioState = .WritingPingBack ∧ .pinging ∉ s.threads ∧ s.writes = [] := by
  have hio : s.ioState = .WritingPingBack := List.mem_singleton.mp h.states
  have hphase := (phase_pinging (s := s.spawn _) hio).mp h.phase
  simp [-List.length_eq_zero_iff] at hphase
  have hnone : count s.threads .pinging = 0 := by omega
  refine ⟨hio, fun hmem => ?_, List.length_eq_zero_iff.mp (by omega)⟩
  have hone : 0 < count s.threads .pinging := List.countP_pos_iff.mpr ⟨_, hmem, rfl⟩
  omega

/-- A session that waits for the next request. -/
theorem Inv.waits (h : s.Inv) (hrest : s.AtRest) (hwaiting : s.Waiting) :
    s = ⟨.Reading, none, false, [], 1, [], s.written.flatMap Write.answers, s.written, false⟩ := by
  obtain ⟨ioState, queued, registered, threads, reads, writes, owed, written, violated⟩ := s
  obtain ⟨hthreads, hwrites⟩ : threads = [] ∧ writes = [] := hrest
  obtain ⟨hio, hreads, hqueued, howed⟩ : ioState = .Reading ∧ reads = 1 ∧ queued = none ∧
    written.flatMap Write.answers = owed := hwaiting
  have hsound : violated = false := h.sound
  subst hthreads hwrites hio hreads hqueued howed hsound
  have hregistered : 0 = registered.toNat := h.registered
  cases registered with
  | false => rfl
  | true => cases hregistered

end

section

variable {r : Request μ} {before : List (Write μ)} {n : Nat} {ms : List μ} {s t : SessionIo μ}

theorem Serves.perm (h : s.Serves r before n ms) {threads : List (Thread μ)}
    (hperm : s.threads.Perm threads) :
    ({ s with threads := threads } : SessionIo μ).Serves r before n ms where
  written := h.written
  owed := h.owed
  decoded r' hr := h.decoded r' (hperm.mem_iff.mpr hr)
  asked hping := h.asked (by simpa only [hperm.mem_iff] using hping)
  answered := h.answered
  pings := h.pings
  pinged hio := by simpa only [hperm.mem_iff] using h.pinged hio
  queued := h.queued

/-- As long as ping backs may follow nothing has been answered. -/
theorem Serves.unanswered (h : s.Serves r before n ms)
    (hio : s.ioState = .Idle ∨ s.ioState = .WritingPingBack) : ms = [] := by
  by_contra hms
  have hstate := h.answered hms
  rcases hio with hio | hio
  · simp [hio] at hstate
  · simp [hio] at hstate

/-- Nothing is decided. -/
theorem Serves.next (h : s.Serves r before n ms)
    (hwritten : t.written = s.written) (howed : t.owed = s.owed)
    (hthreads : ∀ v ∈ t.threads, v.isQuiet ∨ v ∈ s.threads)
    (hregistered : t.registered → r.asks ∨ s.registered)
    (hwrites : .pingBack ∈ t.writes → .pingBack ∈ s.writes)
    (hanswered : ms ≠ [] → t.ioState = .Writing ∨ t.ioState = .Reading)
    (hpings : .pingBack ∈ t.writes → t.ioState = .WritingPingBack)
    (hpinged : t.ioState = .WritingPingBack → 0 < n ∨ .pinging ∈ t.threads ∨ .pingBack ∈ t.writes)
    (hqueued : t.ioState = .Idle → t.queuedSendBuffers.isSome → 0 < n) :
    t.Serves r before n ms where
  written := hwritten.trans h.written
  owed := howed.trans h.owed
  decoded r' hr := by
    rcases hthreads _ hr with hquiet | hmem
    · cases hquiet
    · exact h.decoded r' hmem
  asked hping := by
    rcases hping with hn | hreg | hchecked | hpinging | hwrite
    · exact h.asked (.inl hn)
    · exact (hregistered hreg).elim id fun hreg => h.asked (.inr (.inl hreg))
    · rcases hthreads _ hchecked with hquiet | hmem
      · cases hquiet
      · exact h.asked (.inr (.inr (.inl hmem)))
    · rcases hthreads _ hpinging with hquiet | hmem
      · cases hquiet
      · exact h.asked (.inr (.inr (.inr (.inl hmem))))
    · exact h.asked (.inr (.inr (.inr (.inr (hwrites hwrite)))))
  answered := hanswered
  pings := hpings
  pinged := hpinged
  queued := hqueued

/-- A thread goes on as another, or ends, and the state stays as it is. -/
theorem Serves.goesOn {u : Thread μ} (h : (s.spawn u).Serves r before n ms) (hu : u ≠ .pinging)
    (hwritten : t.written = s.written) (howed : t.owed = s.owed)
    (hthreads : ∀ v ∈ t.threads, v.isQuiet ∨ v ∈ s.threads) (hsub : s.threads ⊆ t.threads)
    (hregistered : t.registered → r.asks ∨ s.registered)
    (hwrites : .pingBack ∈ t.writes ↔ .pingBack ∈ s.writes) (hio : t.ioState = s.ioState)
    (hqueue : t.queuedSendBuffers = s.queuedSendBuffers) : t.Serves r before n ms := by
  refine h.next hwritten howed (fun v hv => (hthreads v hv).imp_right (List.mem_cons_of_mem _))
    hregistered hwrites.mp ?_ ?_ ?_ ?_
  · rw [hio]
    exact h.answered
  · rw [hio]
    exact fun hmem => h.pings (hwrites.mp hmem)
  · rw [hio]
    intro hstate
    rcases h.pinged hstate with hn | hpinging | hwrite
    · exact .inl hn
    · exact .inr (.inl (hsub ((List.mem_cons.mp hpinging).resolve_left hu.symm)))
    · exact .inr (.inr (hwrites.mpr hwrite))
  · rw [hio, hqueue]
    exact h.queued

/-- A new quiet thread besides the others. -/
theorem mem_quiet {threads : List (Thread μ)} {v : Thread μ} (hv : v.isQuiet) :
    ∀ w ∈ v :: threads, w.isQuiet ∨ w ∈ threads := by
  intro w hw
  rcases List.mem_cons.mp hw with rfl | hmem
  · exact .inl hv
  · exact .inr hmem

theorem runThread_serves {u : Thread μ} (hinv : (s.spawn u).Inv)
    (h : (s.spawn u).Serves r before n ms) : (s.runThread u).Serves r before n ms := by
  cases u with
  | decoded r' =>
      have hr : r' = r := h.decoded r' List.mem_cons_self
      subst hr
      cases r' with
      | unsupported error =>
          exact h.goesOn (by simp) rfl rfl (mem_quiet rfl) (List.subset_cons_self _ _) .inr .rfl rfl
            rfl
      | oneway =>
          exact h.goesOn (by simp) rfl rfl (mem_quiet rfl) (List.subset_cons_self _ _) .inr .rfl rfl
            rfl
      | twoway pingBacks response =>
          cases pingBacks with
          | false =>
              exact h.goesOn (by simp) rfl rfl (mem_quiet rfl) (List.subset_cons_self _ _) .inr .rfl
                rfl rfl
          | true =>
              exact h.goesOn (by simp) rfl rfl (mem_quiet rfl) (List.subset_cons_self _ _)
                (fun _ => .inl rfl) .rfl rfl rfl
  | serving pingBacks response =>
      exact h.goesOn (by simp) rfl rfl (mem_quiet rfl) (List.subset_cons_self _ _)
        (fun hreg => .inr (Bool.and_elim_left hreg)) .rfl rfl rfl
  | answering m =>
      show (s.answer m).Serves r before n ms
      unfold answer
      have hio := hinv.states
      simp only [Thread.states, List.mem_cons, List.not_mem_nil, or_false] at hio
      rcases hio with hio | hio
      · rw [if_pos hio]
        have hnone : .pingBack ∉ s.writes := fun hmem => by
          have hping : s.ioState = .WritingPingBack := h.pings hmem
          rw [hio] at hping
          cases hping
        exact h.next rfl rfl (fun v hv => (mem_quiet rfl v hv).imp_right (List.mem_cons_of_mem _))
          .inr id (fun _ => .inl rfl) (fun hmem => absurd hmem hnone) (fun h => by cases h)
          (fun h => by cases h)
      · -- the answer is queued, and the session stays as it is
        rw [if_neg (by rw [hio]; simp)]
        refine h.next rfl rfl (fun v hv => .inr (List.mem_cons_of_mem _ hv)) .inr id h.answered
          h.pings ?_ ?_
        · intro hstate
          refine (h.pinged hstate).imp_right (.imp_left fun hmem => ?_)
          exact (List.mem_cons.mp hmem).resolve_left (by simp)
        · intro hidle
          rw [show s.ioState = .Idle from hidle] at hio
          cases hio
  | writing m =>
      exact h.goesOn (by simp) rfl rfl (fun _ => .inr) (List.Subset.refl _) .inr
        (by simp [runThread, postWrite]) rfl rfl
  | pingChecked =>
      have hasks : r.asks := h.asked (.inr (.inr (.inl List.mem_cons_self)))
      unfold runThread
      by_cases hio : s.ioState = .Idle
      · rw [if_pos hio]
        refine ⟨h.written, h.owed, fun r' hr => ?_, fun _ => hasks,
          fun hms => absurd (h.unanswered (.inl hio)) hms, fun _ => rfl,
          fun _ => .inr (.inl List.mem_cons_self), fun h => by cases h⟩
        exact h.decoded r' (List.mem_cons_of_mem _ ((List.mem_cons.mp hr).resolve_left (by simp)))
      · rw [if_neg hio]
        exact h.goesOn (by simp) rfl rfl (fun _ => .inr) (List.Subset.refl _) .inr .rfl rfl rfl
  | pinging =>
      have hasks : r.asks := h.asked (.inr (.inr (.inr (.inl List.mem_cons_self))))
      exact ⟨h.written, h.owed, fun r' hr => h.decoded r' (List.mem_cons_of_mem _ hr),
        fun _ => hasks, h.answered, fun _ => List.mem_singleton.mp hinv.states,
        fun _ => .inr (.inr (List.mem_append_right _ List.mem_cons_self)), h.queued⟩
  | completed =>
      unfold runThread
      by_cases hio : s.ioState = .WritingPingBack
      · rw [if_pos hio]
        refine h.next rfl rfl (fun v hv => (mem_quiet rfl v hv).imp_right (List.mem_cons_of_mem _))
          .inr id h.answered h.pings ?_ ?_
        · intro hstate
          refine (h.pinged hstate).imp_right (.imp_left fun hmem => ?_)
          exact List.mem_cons_of_mem _ ((List.mem_cons.mp hmem).resolve_left (by simp))
        · intro _ hqueued
          cases hqueued
      · rw [if_neg hio]
        exact h.goesOn (by simp) rfl rfl (mem_quiet rfl) (List.subset_cons_self _ _) .inr .rfl rfl
          rfl
  | pingWritten queued =>
      obtain ⟨hio, hpinging, hwrites⟩ := hinv.window
      have hnone : .pingBack ∉ s.writes := by
        rw [hwrites]
        exact List.not_mem_nil
      cases queued with
      | some m =>
          exact h.next rfl rfl (fun v hv => (mem_quiet rfl v hv).imp_right (List.mem_cons_of_mem _))
            .inr id (fun _ => .inl rfl) (fun hmem => absurd hmem hnone) (fun h => by cases h)
            (fun h => by cases h)
      | none =>
          -- the ping back has been written
          have hn : 0 < n := by
            rcases h.pinged hio with hn | hmem | hmem
            · exact hn
            · exact absurd ((List.mem_cons.mp hmem).resolve_left (by simp)) hpinging
            · exact absurd hmem hnone
          exact h.next rfl rfl (fun v hv => .inr (List.mem_cons_of_mem _ hv)) .inr id
            (fun hms => absurd (h.unanswered (.inr hio)) hms) (fun hmem => absurd hmem hnone)
            (fun h => by cases h) (fun _ _ => hn)
  | finishing =>
      have hnone : .pingBack ∉ s.writes := fun hmem => by
        have hstates := hinv.states
        rw [show s.ioState = .WritingPingBack from h.pings hmem] at hstates
        simp [Thread.states] at hstates
      exact h.next rfl rfl (fun v hv => (mem_quiet rfl v hv).imp_right (List.mem_cons_of_mem _))
        .inr id (fun _ => .inr rfl) (fun hmem => absurd hmem hnone) (fun h => by cases h)
        (fun h => by cases h)
  | reading =>
      exact h.goesOn (by simp) rfl rfl (fun _ => .inr) (List.Subset.refl _) .inr .rfl rfl rfl

/-- A write completes. Until the answer has been written, ping backs may be. -/
theorem writeCompleted_serves {w : Write μ} {writes : List (Write μ)} (hinv : s.Inv)
    (h : s.Serves r before n ms) (hwrites : s.writes = w :: writes) :
    ∃ n' ms', (({ s with writes := writes, written := s.written ++ [w] }).spawn .completed).Serves
      r before n' ms' := by
  have hmem : ∀ v, v ∈ writes → v ∈ s.writes := fun v hv => by
    rw [hwrites]
    exact List.mem_cons_of_mem _ hv
  have hhead : w ∈ s.writes := by
    rw [hwrites]
    exact List.mem_cons_self
  have hthread : ∀ v : Thread μ, v ≠ .completed → v ∈ Thread.completed :: s.threads →
      v ∈ s.threads := fun v hv hm => (List.mem_cons.mp hm).resolve_left hv
  have hdecoded : ∀ r', .decoded r' ∈ Thread.completed :: s.threads → r' = r :=
    fun r' hr => h.decoded r' (hthread _ (by simp) hr)
  cases w with
  | pingBack =>
      have hio := h.pings hhead
      obtain rfl := h.unanswered (.inr hio)
      have hasks : r.asks := h.asked (.inr (.inr (.inr (.inr hhead))))
      refine ⟨n + 1, [], ?_, h.owed, hdecoded, fun _ => hasks, fun h => absurd rfl h,
        fun hv => h.pings (hmem _ hv), fun _ => .inl (Nat.succ_pos n), fun _ _ => Nat.succ_pos n⟩
      show s.written ++ [.pingBack] = _
      rw [h.written, List.append_assoc, exchanged_pingBack]
  | answer m =>
      have hio : s.ioState = .Writing := (hinv.writer hwrites).resolve_right (by simp)
      have hnone : .pingBack ∉ s.writes := fun hv => by
        have hping := h.pings hv
        rw [hio] at hping
        cases hping
      refine ⟨n, ms ++ [m], ?_, h.owed, hdecoded, fun hping => h.asked ?_, fun _ => .inl hio,
        fun hv => absurd (hmem _ hv) hnone, fun hstate => ?_, fun hstate => ?_⟩
      · show s.written ++ [.answer m] = _
        rw [h.written, List.append_assoc, exchanged_answer]
      · exact hping.imp_right (.imp_right (.imp (hthread _ (by simp))
          (.imp (hthread _ (by simp)) (hmem _))))
      · rw [show s.ioState = _ from hstate] at hio
        cases hio
      · rw [show s.ioState = _ from hstate] at hio
        cases hio

end

section

variable [DecidableEq μ] {r : Request μ} {before : List (Write μ)} {s t : SessionIo μ}
  {a : Action μ}

/-- What happens when no other request arrives. -/
def servingStep : SessionIo μ → Action μ → Option (SessionIo μ) :=
  StateMachine.restrict (fun _ a => ¬ a.isRead) step

/-- What one step preserves. -/
theorem servingStep_serves (h : s.Inv ∧ ∃ n ms, s.Serves r before n ms)
    (hstep : s.servingStep a = some t) : t.Inv ∧ ∃ n ms, t.Serves r before n ms := by
  obtain ⟨hinv, n, ms, hserves⟩ := h
  obtain ⟨hread, hs⟩ := StateMachine.restrict_eq_some.mp hstep
  have hcalm : s.Calm a := by
    cases a with
    | readCompleted r' => exact absurd rfl hread
    | _ => trivial
  refine ⟨step_inv hinv hcalm hs, ?_⟩
  unfold step at hs
  cases a with
  | run u =>
      by_cases hu : u ∈ s.threads
      · simp only [if_pos hu] at hs
        cases hs
        have hperm := List.perm_cons_erase hu
        exact ⟨n, ms, runThread_serves (hinv.perm hperm) (hserves.perm hperm)⟩
      · simp only [if_neg hu] at hs
        cases hs
  | readCompleted r' => exact absurd rfl hread
  | writeCompleted =>
      cases hwrites : s.writes with
      | nil =>
          simp only [hwrites] at hs
          cases hs
      | cons w writes =>
          simp only [hwrites] at hs
          cases hs
          exact writeCompleted_serves hinv hserves hwrites
  | pingBackDue =>
      by_cases hdue : s.registered ∧ ∀ u ∈ s.threads, ¬ u.isPinger
      · simp only [if_pos hdue] at hs
        cases hs
        have hasks : r.asks := hserves.asked (.inr (.inl hdue.1))
        exact ⟨n, ms, hserves.written, hserves.owed,
          fun r' hr => hserves.decoded r' ((List.mem_cons.mp hr).resolve_left (by simp)),
          fun _ => hasks, hserves.answered, hserves.pings,
          fun hio => (hserves.pinged hio).imp_right (.imp_left (List.mem_cons_of_mem _)),
          hserves.queued⟩
      · simp only [if_neg hdue] at hs
        cases hs

/-- The session, when its first read has been posted. -/
def awaiting : SessionIo μ := ⟨.Reading, none, false, [], 1, [], [], [], false⟩

theorem awaiting_inv : (awaiting : SessionIo μ).Inv := by
  have hrun : StateMachine.run calmStep (accepted : SessionIo μ)
      [.run .completed, .run .finishing, .run .reading] = some awaiting := by
    simp [StateMachine.run, calmStep, StateMachine.restrict, Calm, step, runThread, accepted,
      awaiting]
  exact StateMachine.run_invariant (fun h hs => calm_inv h hs) accepted_inv hrun

/-- **What a run writes for a request.** A session that waits reads a request, and comes to rest
before another one arrives. It has written ping backs, if the request allows them, and behind them
the answer; or it has written ping backs and has lost the answer. -/
theorem served_at_rest {as : List (Action μ)} (hinv : s.Inv) (hrest : s.AtRest)
    (hwaiting : s.Waiting) {s' : SessionIo μ} (hread : s.step (.readCompleted r) = some s')
    (hrun : StateMachine.run servingStep s' as = some t) (hrest' : t.AtRest) :
    t.Inv ∧ ∃ n, (0 < n → r.asks) ∧
      (t.Waiting ∧ t.written = s.written ++ exchanged n r.answers ∨
        t.Stranded ∧ 0 < n ∧ t.written = s.written ++ exchanged n []) := by
  have hcalm : s.Calm (.readCompleted r) := by
    cases r with
    | oneway =>
        show count s.threads .pingChecked = 0
        rw [hrest.1]
        rfl
    | _ => trivial
  have hinv' := step_inv hinv hcalm hread
  have hserves : s'.Serves r s.written 0 [] := by
    rw [hinv.waits hrest hwaiting] at hread ⊢
    cases hread
    refine ⟨?_, rfl, fun r' hr => ?_, fun h => ?_, fun h => absurd rfl h, fun h => ?_, fun h => ?_,
      fun _ h => ?_⟩
    · exact (List.append_nil _).symm
    · simpa using hr
    · simp at h
    · cases h
    · cases h
    · cases h
  obtain ⟨htinv, n, ms, ht⟩ :=
    StateMachine.run_invariant (fun h hs => servingStep_serves h hs) ⟨hinv', 0, [], hserves⟩ hrun
  refine ⟨htinv, n, fun hn => ht.asked (.inl hn), ?_⟩
  have hanswers : t.written.flatMap Write.answers = s.written.flatMap Write.answers ++ ms := by
    rw [ht.written, List.flatMap_append, exchanged_answers]
  rcases htinv.at_rest hrest' with hw | hs
  · left
    have hms : ms = r.answers := by
      have howed := hw.2.2.2
      rw [hanswers, ht.owed] at howed
      exact List.append_cancel_left howed
    rw [← hms]
    exact ⟨hw, ht.written⟩
  · right
    have hwritten := ht.written
    obtain ⟨hio, hreads, m, hm, howed⟩ := hs
    have hn : 0 < n := ht.queued hio (by rw [hm]; rfl)
    obtain rfl := ht.unanswered (.inl hio)
    exact ⟨⟨hio, hreads, m, hm, howed⟩, hn, hwritten⟩

end

/-! ## What can be written -/

section

variable [DecidableEq μ] {s : SessionIo μ} {m : μ} {owed : List μ} {written : List (Write μ)}

/-- A call is served, and ping backs may be sent. -/
def called (m : μ) (owed : List μ) (written : List (Write μ)) : SessionIo μ :=
  ⟨.Idle, none, true, [.serving true m], 0, [], owed, written, false⟩

/-- One ping back while a call is served. -/
def pingRound : List (Action μ) :=
  [.pingBackDue, .run .pingChecked, .run .pinging, .writeCompleted, .run .completed,
    .run (.pingWritten none)]

theorem run_pingRound : StateMachine.run servingStep (called m owed written) pingRound
    = some (called m owed (written ++ [.pingBack])) := by
  simp [pingRound, called, StateMachine.run, servingStep, StateMachine.restrict, step, runThread,
    postWrite]

theorem run_pingRounds (n : Nat) :
    StateMachine.run servingStep (called m owed written) (List.replicate n pingRound).flatten
      = some (called m owed (written ++ List.replicate n .pingBack)) := by
  induction n generalizing written with
  | zero =>
      rw [List.replicate_zero, List.replicate_zero, List.append_nil]
      rfl
  | succ n ih =>
      rw [List.replicate_succ, List.flatten_cons, StateMachine.run_append run_pingRound, ih,
        List.append_assoc]
      rfl

/-- The answer to a call. -/
theorem run_answer : StateMachine.run servingStep (called m owed written)
    [.run (.serving true m), .run (.answering m), .run (.writing m), .writeCompleted,
      .run .completed, .run .finishing, .run .reading]
    = some ⟨.Reading, none, false, [], 1, [], owed, written ++ [.answer m], false⟩ := by
  simp [called, StateMachine.run, servingStep, StateMachine.restrict, step, runThread,
    postWrite, answer]

/-- A ping back, and the answer in the window of its completion. -/
theorem run_lost : StateMachine.run servingStep (called m owed written)
    [.pingBackDue, .run .pingChecked, .run .pinging, .writeCompleted, .run .completed,
      .run (.serving true m), .run (.answering m), .run (.pingWritten none)]
    = some ⟨.Idle, some m, false, [], 0, [], owed, written ++ [.pingBack], false⟩ := by
  simp [called, StateMachine.run, servingStep, StateMachine.restrict, step, runThread,
    postWrite, answer]

/-- What happens after a session that waits has read a request with ping backs. -/
theorem run_called {bs : List (Action μ)} {t : SessionIo μ} (hinv : s.Inv) (hrest : s.AtRest)
    (hwaiting : s.Waiting) (n : Nat)
    (hrun : StateMachine.run servingStep (called m (s.written.flatMap Write.answers ++ [m])
      (s.written ++ List.replicate n .pingBack)) bs = some t) :
    ∃ s' as, s.step (.readCompleted (.twoway true m)) = some s' ∧
      StateMachine.run servingStep s' as = some t := by
  refine ⟨⟨.Idle, none, false, [.decoded (.twoway true m)], 0, [],
    s.written.flatMap Write.answers ++ [m], s.written, false⟩,
    .run (.decoded (.twoway true m)) :: ((List.replicate n pingRound).flatten ++ bs), ?_, ?_⟩
  · rw [hinv.waits hrest hwaiting]
    rfl
  · have hdecoded : servingStep ⟨.Idle, none, false, [.decoded (.twoway true m)], 0, [],
        s.written.flatMap Write.answers ++ [m], s.written, false⟩ (.run (.decoded (.twoway true m)))
        = some (called m (s.written.flatMap Write.answers ++ [m]) s.written) := by
      simp [called, servingStep, StateMachine.restrict, step, runThread]
    rw [StateMachine.run, hdecoded]
    show StateMachine.run servingStep _ (_ ++ bs) = some t
    rw [StateMachine.run_append (run_pingRounds n)]
    exact hrun

/-- **What can be written.** For every number of ping backs that the request allows there is a run
that writes them and the answer. -/
theorem exists_served {r : Request μ} (hinv : s.Inv) (hrest : s.AtRest) (hwaiting : s.Waiting)
    {n : Nat} (hn : 0 < n → r.asks) :
    ∃ s' as t, s.step (.readCompleted r) = some s' ∧
      StateMachine.run servingStep s' as = some t ∧ t.AtRest ∧ t.Waiting ∧
      t.written = s.written ++ exchanged n r.answers := by
  by_cases hr : r.asks
  · cases r with
    | unsupported error => cases hr
    | oneway => cases hr
    | twoway pingBacks m =>
        have hpings : pingBacks = true := hr
        subst hpings
        obtain ⟨s', as, hread, hrun⟩ := run_called hinv hrest hwaiting n run_answer
        refine ⟨s', as, _, hread, hrun, ⟨rfl, rfl⟩, ⟨rfl, rfl, rfl, ?_⟩, ?_⟩
        · show (s.written ++ _ ++ _).flatMap Write.answers = _
          rw [List.append_assoc, List.flatMap_append]
          exact congrArg _ (exchanged_answers n [m])
        · exact List.append_assoc _ _ _
  · have hnone : n = 0 := by
      by_contra hne
      exact hr (hn (Nat.pos_of_ne_zero hne))
    subst hnone
    rw [hinv.waits hrest hwaiting]
    cases r with
    | unsupported error =>
        refine ⟨_, [.run (.decoded (.unsupported error)), .run (.answering error),
          .run (.writing error), .writeCompleted, .run .completed, .run .finishing, .run .reading],
          ⟨.Reading, none, false, [], 1, [], s.written.flatMap Write.answers ++ [error],
            s.written ++ [.answer error], false⟩, rfl, ?_, ⟨rfl, rfl⟩, ⟨rfl, rfl, rfl, ?_⟩, rfl⟩
        · simp [StateMachine.run, servingStep, StateMachine.restrict, step, runThread, postWrite,
            answer]
        · exact List.flatMap_append
    | oneway =>
        refine ⟨_, [.run (.decoded .oneway), .run .completed, .run .finishing, .run .reading],
          ⟨.Reading, none, false, [], 1, [], s.written.flatMap Write.answers ++ [],
            s.written ++ [], false⟩, rfl, ?_, ⟨rfl, rfl⟩, ⟨rfl, rfl, rfl, ?_⟩, rfl⟩
        · simp [StateMachine.run, servingStep, StateMachine.restrict, step, runThread]
        · exact List.flatMap_append
    | twoway pingBacks m =>
        have hpings : pingBacks = false := Bool.eq_false_iff.mpr hr
        subst hpings
        refine ⟨_, [.run (.decoded (.twoway false m)), .run (.serving false m), .run (.answering m),
          .run (.writing m), .writeCompleted, .run .completed, .run .finishing, .run .reading],
          ⟨.Reading, none, false, [], 1, [], s.written.flatMap Write.answers ++ [m],
            s.written ++ [.answer m], false⟩, rfl, ?_, ⟨rfl, rfl⟩, ⟨rfl, rfl, rfl, ?_⟩, rfl⟩
        · simp [StateMachine.run, servingStep, StateMachine.restrict, step, runThread, postWrite,
            answer]
        · exact List.flatMap_append

/-- For every number of ping backs but none there is a run that loses the answer behind them. -/
theorem exists_lost {r : Request μ} (hinv : s.Inv) (hrest : s.AtRest) (hwaiting : s.Waiting)
    {n : Nat} (hn : 0 < n) (hr : r.asks) :
    ∃ s' as t, s.step (.readCompleted r) = some s' ∧
      StateMachine.run servingStep s' as = some t ∧ t.AtRest ∧ t.Stranded ∧
      t.written = s.written ++ exchanged n [] := by
  cases r with
  | unsupported error => cases hr
  | oneway => cases hr
  | twoway pingBacks m =>
      have hpings : pingBacks = true := hr
      subst hpings
      obtain ⟨k, rfl⟩ := Nat.exists_eq_succ_of_ne_zero (Nat.ne_of_gt hn)
      obtain ⟨s', as, hread, hrun⟩ := run_called hinv hrest hwaiting k run_lost
      have hwritten : s.written ++ List.replicate k (Write.pingBack : Write μ) ++ [.pingBack]
          = s.written ++ exchanged (k + 1) ([] : List μ) := by
        rw [List.append_assoc, ← exchanged_pingBack]
        unfold exchanged
        rw [List.map_nil, List.append_nil]
      refine ⟨s', as, _, hread, hrun, ⟨rfl, rfl⟩, ⟨rfl, rfl, m, rfl, ?_⟩, hwritten⟩
      show _ = (s.written ++ _ ++ [Write.pingBack]).flatMap Write.answers ++ [m]
      rw [hwritten, List.flatMap_append, exchanged_answers, List.append_nil]

end

end SessionIo

/-! ## The session in one step -/

open SessionIo

/-- The request as the threads see it. A service registers for ping backs whenever the client asks for
them and the server can send them. -/
def RcfSession.threadRequest (session : RcfSession) (rcfServer : RcfServer) (service : Service)
    (history : List Invocation) (message : List UInt8) :
    Except Failure (Request (List UInt8)) := do
  let (ok, session) ← decodeRequest rcfServer session message
  if ok then
    if session.request.close then
      .error (.exception RcfError.peerDisconnect)
    else
      let answer ← asserted (service history (session.request, session.spIn.byteBuffer))
      if session.request.oneway then .ok .oneway
      else
        let (response, _) ← sendResponse session answer.exception answer.results
        .ok (.twoway (rcfServer.pingBackService && decide (0 < session.request.pingBackIntervalMs))
          (messageBytes response))
  else
    let reply ← serverError RcfError.versionMismatch (some rcfServer.rcfRuntimeVersion)
    .ok (.unsupported reply)

/-- The service, with other ping backs and another loss. -/
def Service.timed (service : Service) (pingBacks : List Int32) (lost : Bool) : Service :=
  fun history invocation => (service history invocation).map fun answer =>
    { answer with pingBacks := pingBacks, lost := lost }

/-- What the session does on the request when it is told the ping backs and whether the answer is
lost. -/
structure Served.Follows (served : Served) (r : Request (List UInt8)) (pingBacks : List Int32)
    (lost : Bool) : Prop where
  asked : pingBacks ≠ [] → r.asks
  window : lost → pingBacks ≠ []
  replies : ∃ messages, pingBackMessages pingBacks = .ok messages ∧
    served.replies = messages ++ (if lost then [] else r.answers)
  stranded : served.session.stranded = lost

theorem ok_of_bind {α β : Type} {x : Except Failure α} {f : α → Except Failure β} {b : β}
    (h : x >>= f = .ok b) : ∃ a, x = .ok a ∧ f a = .ok b := by
  cases x with
  | error e => cases h
  | ok a => exact ⟨a, rfl, h⟩

theorem decodeRequest_stranded {rcfServer : RcfServer} {session session' : RcfSession}
    {message : List UInt8} {ok : Bool}
    (h : decodeRequest rcfServer session message = .ok (ok, session')) :
    session'.stranded = session.stranded := by
  obtain ⟨⟨filtered, filters, b⟩, -, h⟩ := ok_of_bind h
  obtain ⟨⟨header, pos⟩, -, h⟩ := ok_of_bind h
  cases header with
  | none =>
      cases h
      rfl
  | some header =>
      dsimp only at h
      split at h
      · cases h
        rfl
      · obtain ⟨spIn, -, h⟩ := ok_of_bind h
        obtain ⟨spOut, -, h⟩ := ok_of_bind h
        cases h
        rfl

section

variable {rcfServer : RcfServer} {session : RcfSession} {service : Service}
  {history : List Invocation} {message : List UInt8}

/-- What `serve` does, it does on the request that the threads see. -/
theorem follows_of_serve (hawake : session.stranded = false) {served : Served}
    (h : session.serve rcfServer service history message = .ok served) :
    ∃ r pingBacks lost, session.threadRequest rcfServer service history message = .ok r ∧
      served.Follows r pingBacks lost := by
  obtain ⟨⟨ok, session'⟩, hdecode, h⟩ := ok_of_bind h
  have hstranded := (decodeRequest_stranded hdecode).trans hawake
  unfold RcfSession.threadRequest
  rw [hdecode]
  cases ok with
  | false =>
      obtain ⟨reply, hreply, h⟩ := ok_of_bind h
      cases h
      refine ⟨.unsupported reply, [], false, ?_, fun h => absurd rfl h, (fun h => by cases h),
        ⟨[], rfl, rfl⟩, hstranded⟩
      show serverError _ _ >>= _ = _
      rw [hreply]
      rfl
  | true =>
      cases hclose : session'.request.close with
      | true =>
          simp [hclose] at h
      | false =>
          simp only [if_true, hclose, Bool.false_eq_true, if_false] at h
          obtain ⟨answer, hanswer, h⟩ := ok_of_bind h
          cases honeway : session'.request.oneway with
          | true =>
              simp only [honeway, if_true] at h
              cases h
              refine ⟨.oneway, [], false, ?_, fun h => absurd rfl h, (fun h => by cases h),
                ⟨[], rfl, rfl⟩, hstranded⟩
              simp only [bind, Except.bind, if_true, hclose, hanswer, honeway]
              rfl
          | false =>
              simp only [honeway, Bool.false_eq_true, if_false] at h
              obtain ⟨pings, hpings, h⟩ := ok_of_bind h
              obtain ⟨⟨response, session''⟩, hrespond, h⟩ := ok_of_bind h
              cases h
              refine ⟨.twoway (rcfServer.pingBackService
                && decide (0 < session'.request.pingBackIntervalMs)) (messageBytes response),
                pingBacksFor rcfServer session'.request answer,
                answer.losesFor rcfServer session'.request, ?_, fun hsent => ?_,
                fun hlost hnone => ?_, ⟨pings, hpings, rfl⟩, rfl⟩
              · simp only [bind, Except.bind, if_true, hclose, hanswer, honeway, hrespond]
                rfl
              · unfold pingBacksFor at hsent
                split at hsent
                · rename_i hasks
                  simpa using hasks
                · exact absurd rfl hsent
              · unfold Answer.losesFor at hlost
                rw [hnone] at hlost
                simp at hlost

/-- What the session is told, it does. -/
theorem serve_follows (hawake : session.stranded = false) {r : Request (List UInt8)}
    (h : session.threadRequest rcfServer service history message = .ok r)
    {pingBacks : List Int32} {lost : Bool} (hasked : pingBacks ≠ [] → r.asks)
    (hlost : lost → pingBacks ≠ []) :
    ∃ served, session.serve rcfServer (service.timed pingBacks lost) history message = .ok served ∧
      served.Follows r pingBacks lost := by
  obtain ⟨⟨ok, session'⟩, hdecode, h⟩ := ok_of_bind h
  have hstranded := (decodeRequest_stranded hdecode).trans hawake
  have hquiet : r.asks = false → pingBacks = [] ∧ lost = false := by
    intro hr
    have hnone : pingBacks = [] := by
      by_contra hne
      rw [hasked hne] at hr
      cases hr
    refine ⟨hnone, ?_⟩
    cases lost with
    | false => rfl
    | true => exact absurd hnone (hlost rfl)
  cases ok with
  | false =>
      obtain ⟨reply, hreply, h⟩ := ok_of_bind h
      cases h
      obtain ⟨rfl, rfl⟩ := hquiet rfl
      exact ⟨_, Connection.serve_mismatch hdecode hreply history, hasked, hlost, ⟨[], rfl, rfl⟩,
        hstranded⟩
  | true =>
      cases hclose : session'.request.close with
      | true => simp [hclose] at h
      | false =>
          simp only [if_true, hclose, Bool.false_eq_true, if_false] at h
          obtain ⟨answer, hanswer, h⟩ := ok_of_bind h
          have htimed : service.timed pingBacks lost history
              (session'.request, session'.spIn.byteBuffer)
              = some { answer with pingBacks := pingBacks, lost := lost } := by
            unfold Service.timed
            cases hservice : service history (session'.request, session'.spIn.byteBuffer) with
            | none =>
                rw [hservice] at hanswer
                cases hanswer
            | some answer' =>
                rw [hservice] at hanswer
                cases hanswer
                rfl
          cases honeway : session'.request.oneway with
          | true =>
              simp only [honeway, if_true] at h
              cases h
              obtain ⟨rfl, rfl⟩ := hquiet rfl
              refine ⟨⟨{ session' with spOut := { answer.results.foldl SerializationProtocolOut.put
                session'.spOut with byteBuffers := [] } }, [],
                some (session'.request, session'.spIn.byteBuffer)⟩, ?_, hasked, hlost,
                ⟨[], rfl, rfl⟩, hstranded⟩
              unfold RcfSession.serve
              rw [hdecode]
              simp only [bind, Except.bind, if_true, hclose, htimed, asserted, honeway]
              rfl
          | false =>
              simp only [honeway, Bool.false_eq_true, if_false] at h
              obtain ⟨⟨response, session''⟩, hrespond, h⟩ := ok_of_bind h
              cases h
              -- what is sent is what the session was told
              have hsent : pingBacksFor rcfServer session'.request
                  { answer with pingBacks := pingBacks, lost := lost } = pingBacks := by
                unfold pingBacksFor
                split
                · rfl
                · rename_i hnever
                  refine (hquiet (Bool.eq_false_iff.mpr fun hr => hnever ?_)).1.symm
                  simpa using hr
              have hloses : Answer.losesFor { answer with pingBacks := pingBacks, lost := lost }
                  rcfServer session'.request = lost := by
                unfold Answer.losesFor
                rw [hsent]
                cases lost with
                | false => rfl
                | true => simpa using hlost rfl
              obtain ⟨pings, hpings, -⟩ := pingBackMessages_report pingBacks
              have hpings' : pingBackMessages (pingBacksFor rcfServer session'.request
                  { answer with pingBacks := pingBacks, lost := lost }) = .ok pings := by
                rw [hsent]
                exact hpings
              refine ⟨_, Connection.serve_twoway hdecode hclose honeway htimed hpings' hrespond,
                hasked, hlost, ⟨pings, hpings, ?_⟩, hloses⟩
              · show pings ++ (if Answer.losesFor _ _ _ then _ else _) = _
                rw [hloses]
                rfl

end

/-! ## The two sessions -/

/-- What is written is the bytes of a ping back, or the answer. -/
inductive Carries : Write (List UInt8) → List UInt8 → Prop
  | pingBack {interval : Int32} {message : List UInt8}
      (h : serverError RcfError.pingBack (some interval) = .ok message) : Carries .pingBack message
  | answer (m : List UInt8) : Carries (.answer m) m

theorem pingBackMessages_carry {pingBacks : List Int32} {messages : List (List UInt8)}
    (h : pingBackMessages pingBacks = .ok messages) :
    List.Forall₂ Carries (List.replicate pingBacks.length .pingBack) messages := by
  induction pingBacks generalizing messages with
  | nil =>
      cases h
      exact .nil
  | cons interval pingBacks ih =>
      obtain ⟨message, hmessage, h⟩ := ok_of_bind h
      obtain ⟨rest, hrest, h⟩ := ok_of_bind h
      cases h
      exact .cons (.pingBack hmessage) (ih hrest)

/-- The replies of the session are what its threads write. -/
theorem Served.Follows.carries {served : Served} {r : Request (List UInt8)}
    {pingBacks : List Int32} {lost : Bool} (h : served.Follows r pingBacks lost) :
    List.Forall₂ Carries (exchanged pingBacks.length (if lost then [] else r.answers))
      served.replies := by
  obtain ⟨messages, hmessages, hreplies⟩ := h.replies
  rw [hreplies]
  refine List.rel_append (pingBackMessages_carry hmessages) ?_
  generalize (if lost then [] else r.answers) = ms
  induction ms with
  | nil => exact .nil
  | cons m ms ih => exact .cons (.answer m) ih

section

variable {rcfServer : RcfServer} {session : RcfSession} {service : Service}
  {history : List Invocation} {message : List UInt8} {s : SessionIo (List UInt8)}

/-- **The threads do what the session does.** What `serve` answers to a request, with ping backs and
with the answer or without it, some run of the threads writes. -/
theorem serve_threads (hawake : session.stranded = false) (hinv : s.Inv) (hrest : s.AtRest)
    (hwaiting : s.Waiting) {served : Served}
    (h : session.serve rcfServer service history message = .ok served) :
    ∃ r s' as t writes, session.threadRequest rcfServer service history message = .ok r ∧
      s.step (.readCompleted r) = some s' ∧ StateMachine.run servingStep s' as = some t ∧
      t.AtRest ∧ t.written = s.written ++ writes ∧ List.Forall₂ Carries writes served.replies ∧
      (if served.session.stranded then t.Stranded else t.Waiting) := by
  obtain ⟨r, pingBacks, lost, hrequest, hfollows⟩ := follows_of_serve hawake h
  have hcarries := hfollows.carries
  rw [hfollows.stranded]
  cases lost with
  | false =>
      obtain ⟨s', as, t, hread, hrun, hrest', hend, hwritten⟩ := exists_served hinv hrest hwaiting
        fun hn => hfollows.asked (List.length_pos_iff.mp hn)
      exact ⟨r, s', as, t, _, hrequest, hread, hrun, hrest', hwritten, hcarries, hend⟩
  | true =>
      have hsome := hfollows.window rfl
      obtain ⟨s', as, t, hread, hrun, hrest', hend, hwritten⟩ := exists_lost hinv hrest hwaiting
        (List.length_pos_iff.mpr hsome) (hfollows.asked hsome)
      exact ⟨r, s', as, t, _, hrequest, hread, hrun, hrest', hwritten, hcarries, hend⟩

/-- A server that sends ping backs. -/
def pingedServer : RcfServer := { RcfServer.plain 5 with pingBackService := true }

/-- A service whose answer is queued in the window of a ping back. -/
def lateService : Service := fun _ _ => some ⟨[1000], true, false, []⟩

/-- A request that asks for ping backs. -/
def pingedMessage : List UInt8 :=
  headerBytes { MethodInvocationRequest.ping with fnId := 3, pingBackIntervalMs := 1000 }

/-- The answer is lost in both. -/
theorem serve_threads_late :
    ∃ served, (RcfSession.initial 5).serve pingedServer lateService [] pingedMessage = .ok served ∧
      ∃ r s' as t writes,
        (RcfSession.initial 5).threadRequest pingedServer lateService [] pingedMessage = .ok r ∧
        awaiting.step (.readCompleted r) = some s' ∧
        StateMachine.run servingStep s' as = some t ∧ t.AtRest ∧ t.written = [] ++ writes ∧
        List.Forall₂ Carries writes served.replies ∧ t.Stranded := by
  obtain ⟨served, hserve, hstranded⟩ : ∃ served, (RcfSession.initial 5).serve pingedServer
      lateService [] pingedMessage = .ok served ∧ served.session.stranded = true := ⟨_, rfl, rfl⟩
  have h := serve_threads rfl awaiting_inv ⟨rfl, rfl⟩ ⟨rfl, rfl, rfl, rfl⟩ hserve
  rw [hstranded] at h
  exact ⟨served, hserve, h⟩

/-- **The session does what the threads do.** What the threads write for a request, however they
interleave until they come to rest, `serve` answers with, for some ping backs and with the answer
or without it. -/
theorem threads_serve (hawake : session.stranded = false) (hinv : s.Inv) (hrest : s.AtRest)
    (hwaiting : s.Waiting) {r : Request (List UInt8)}
    (hrequest : session.threadRequest rcfServer service history message = .ok r)
    {s' t : SessionIo (List UInt8)} (hread : s.step (.readCompleted r) = some s')
    {as : List (Action (List UInt8))} (hrun : StateMachine.run servingStep s' as = some t)
    (hrest' : t.AtRest) :
    ∃ pingBacks lost served writes,
      session.serve rcfServer (service.timed pingBacks lost) history message = .ok served ∧
      t.Inv ∧ t.written = s.written ++ writes ∧ List.Forall₂ Carries writes served.replies ∧
      (if served.session.stranded then t.Stranded else t.Waiting) := by
  obtain ⟨htinv, n, hasks, hend⟩ := served_at_rest hinv hrest hwaiting hread hrun hrest'
  have hlength : (List.replicate n (0 : Int32)).length = n := List.length_replicate
  have hasked : List.replicate n (0 : Int32) ≠ [] → r.asks := fun hne => hasks (by
    rw [← hlength]
    exact List.length_pos_iff.mpr hne)
  rcases hend with ⟨hw, hwritten⟩ | ⟨hs, hn, hwritten⟩
  · obtain ⟨served, hserve, hfollows⟩ := serve_follows hawake hrequest hasked
      (fun h : false = true => by cases h)
    have hcarries := hfollows.carries
    rw [hlength] at hcarries
    refine ⟨_, false, served, _, hserve, htinv, hwritten, hcarries, ?_⟩
    rw [hfollows.stranded]
    exact hw
  · obtain ⟨served, hserve, hfollows⟩ := serve_follows hawake hrequest hasked
      (fun _ : true = true => List.length_pos_iff.mp (by omega))
    have hcarries := hfollows.carries
    rw [hlength] at hcarries
    refine ⟨_, true, served, _, hserve, htinv, hwritten, hcarries, ?_⟩
    rw [hfollows.stranded]
    exact hs

/-- A run in which the answer is queued before the ping back is written. -/
def queuedRun : List (Action (List UInt8)) :=
  [.run (.decoded (.twoway true [2, 0, 0])), .pingBackDue, .run (.serving true [2, 0, 0]),
    .run .pingChecked, .run (.answering [2, 0, 0]), .run .pinging, .writeCompleted,
    .run .completed, .run (.pingWritten (some [2, 0, 0])), .run (.writing [2, 0, 0]),
    .writeCompleted, .run .completed, .run .finishing, .run .reading]

theorem threads_serve_queued :
    ∃ s' t : SessionIo (List UInt8),
      awaiting.step (.readCompleted (.twoway true [2, 0, 0])) = some s' ∧
      StateMachine.run servingStep s' queuedRun = some t ∧
      ∃ pingBacks lost served writes, (RcfSession.initial 5).serve pingedServer
          (lateService.timed pingBacks lost) [] pingedMessage = .ok served ∧
        t.Inv ∧ t.written = [] ++ writes ∧ List.Forall₂ Carries writes served.replies ∧
        (if served.session.stranded then t.Stranded else t.Waiting) := by
  obtain ⟨s', t, hread, hrun, hrest⟩ : ∃ s' t : SessionIo (List UInt8),
      awaiting.step (.readCompleted (.twoway true [2, 0, 0])) = some s' ∧
      StateMachine.run servingStep s' queuedRun = some t ∧ t.AtRest :=
    ⟨_, _, rfl, rfl, rfl, rfl⟩
  have hrequest : (RcfSession.initial 5).threadRequest pingedServer lateService [] pingedMessage
      = .ok (.twoway true [2, 0, 0]) := rfl
  exact ⟨s', t, hread, hrun,
    threads_serve rfl awaiting_inv ⟨rfl, rfl⟩ ⟨rfl, rfl, rfl, rfl⟩ hrequest hread hrun hrest⟩

end

end SpeechBridge.Rcf
