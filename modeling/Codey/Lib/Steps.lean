import Mathlib.Data.List.Basic

/-!
# Partial step functions

A system makes a step on an event that is enabled, and none on the others. `Steps.run` executes a
list of events; `Steps.Reach` collects the states of the runs whose steps are all admitted.
-/

namespace Codey

namespace Steps

variable {σ ε : Type} {step : σ → ε → Option σ} {ok ok' : σ → ε → Prop} {s₀ s s' : σ}

/-- Execute a list of events; there is no result when one of them is not enabled. -/
def run (step : σ → ε → Option σ) : σ → List ε → Option σ
  | s, [] => some s
  | s, e :: es => (step s e).bind fun s' => run step s' es

/-- The states of the runs from `s₀` each of whose events `ok` admits in the state it is made in. -/
inductive Reach (step : σ → ε → Option σ) (ok : σ → ε → Prop) (s₀ : σ) : σ → Prop where
  | init : Reach step ok s₀ s₀
  | step {s s' : σ} {e : ε} :
      Reach step ok s₀ s → ok s e → step s e = some s' → Reach step ok s₀ s'

/-- What every admitted step keeps holds in every state reached. -/
theorem Reach.invariant {I : σ → Prop} (h : Reach step ok s₀ s) (hinit : I s₀)
    (hstep : ∀ s e s', I s → ok s e → step s e = some s' → I s') : I s := by
  induction h with
  | init => exact hinit
  | step _ hok hs ih => exact hstep _ _ _ ih hok hs

lemma Reach.mono (h : Reach step ok s₀ s) (hok : ∀ s e, ok s e → ok' s e) :
    Reach step ok' s₀ s := by
  induction h with
  | init => exact .init
  | step _ he hs ih => exact .step ih (hok _ _ he) hs

lemma Reach.trans (h : Reach step ok s₀ s) (h' : Reach step ok s s') : Reach step ok s₀ s' := by
  induction h' with
  | init => exact h
  | step _ he hs ih => exact .step ih he hs

/-- The events of a list are admitted and enabled, so its execution reaches a state. -/
lemma Reach.of_run [∀ s e, Decidable (ok s e)] {es : List ε}
    (h : run (fun s e => if ok s e then step s e else none) s₀ es = some s) :
    Reach step ok s₀ s := by
  induction es generalizing s₀ with
  | nil =>
    obtain rfl := Option.some.inj h
    exact .init
  | cons e es ih =>
    obtain ⟨s₁, hs₁, hrest⟩ := Option.bind_eq_some_iff.mp h
    have he : ok s₀ e ∧ step s₀ e = some s₁ := by simpa using hs₁
    exact (Reach.init.step he.1 he.2).trans (ih hrest)

/-- A list of events whose execution ends in a state with `P`. -/
lemma Reach.exists_of_run [∀ s e, Decidable (ok s e)] {P : σ → Prop} [DecidablePred P]
    (es : List ε)
    (h : (run (fun s e => if ok s e then step s e else none) s₀ es).any (fun s => decide (P s)) =
      true) : ∃ s, Reach step ok s₀ s ∧ P s := by
  obtain ⟨s, hs, hp⟩ := Option.any_eq_true _ _ |>.mp h
  exact ⟨s, .of_run hs, of_decide_eq_true hp⟩

end Steps

end Codey
