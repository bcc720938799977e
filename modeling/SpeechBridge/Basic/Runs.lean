import Mathlib

set_option autoImplicit false

/-! # Runs of a state machine

A state machine is a partial step function over states and actions. A run follows a list of
actions, each of which must be possible. What every step keeps, every run keeps; a measure that
every step decreases bounds the length of a run.
-/

namespace StateMachine

variable {σ α : Type}

/-- Follow the actions. -/
def run (step : σ → α → Option σ) : σ → List α → Option σ
  | s, [] => some s
  | s, a :: as => (step s a).bind fun t => run step t as

/-- No action is possible. -/
def Stuck (step : σ → α → Option σ) (s : σ) : Prop := ∀ a, step s a = none

/-- The machine that takes only the actions it may take. -/
def restrict (may : σ → α → Prop) [∀ s a, Decidable (may s a)] (step : σ → α → Option σ) (s : σ)
    (a : α) : Option σ :=
  if may s a then step s a else none

variable {step : σ → α → Option σ} {s t u : σ} {a : α} {as : List α}

theorem restrict_eq_some {may : σ → α → Prop} [∀ s a, Decidable (may s a)] :
    restrict may step s a = some t ↔ may s a ∧ step s a = some t := by
  unfold restrict
  by_cases h : may s a
  · simp [h]
  · simp [h]

theorem run_cons_eq_some (h : run step s (a :: as) = some u) :
    ∃ t, step s a = some t ∧ run step t as = some u := by
  rw [run] at h
  exact Option.bind_eq_some_iff.mp h

theorem run_append {bs : List α} (h : run step s as = some t) :
    run step s (as ++ bs) = run step t bs := by
  induction as generalizing s with
  | nil =>
      cases h
      rfl
  | cons a as ih =>
      obtain ⟨s', hs', hrun⟩ := run_cons_eq_some h
      rw [List.cons_append, run, hs']
      exact ih hrun

/-- The invariant rule. -/
theorem run_invariant {Inv : σ → Prop}
    (hstep : ∀ {s a t}, Inv s → step s a = some t → Inv t) (hs : Inv s)
    (h : run step s as = some t) : Inv t := by
  induction as generalizing s with
  | nil =>
      cases h
      exact hs
  | cons a as ih =>
      obtain ⟨s', hs', hrun⟩ := run_cons_eq_some h
      exact ih (hstep hs hs') hrun

/-- A measure that every step decreases bounds the length of a run. -/
theorem run_length_le {Inv : σ → Prop} {μ : σ → Nat}
    (hstep : ∀ {s a t}, Inv s → step s a = some t → Inv t)
    (hμ : ∀ {s a t}, Inv s → step s a = some t → μ t < μ s) (hs : Inv s)
    (h : run step s as = some t) : as.length + μ t ≤ μ s := by
  induction as generalizing s with
  | nil =>
      cases h
      simp
  | cons a as ih =>
      obtain ⟨s', hs', hrun⟩ := run_cons_eq_some h
      have hle := ih (hstep hs hs') hrun
      have hlt := hμ hs hs'
      rw [List.length_cons]
      omega

end StateMachine
