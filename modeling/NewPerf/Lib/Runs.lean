import Mathlib.Algebra.Group.Nat.Defs
import Mathlib.Data.List.Basic

/-!
# Runs of a step function

A system is given by a partial step function `step : σ → α → Option σ`, where
`none` means that the action is not enabled.  A `Run` records the actions taken
from a start state; `ok` is a condition that every step of it meets in the state
in which it is taken (`fun _ _ => True` for runs without restriction).

`Run.invariant` is the only induction over runs that most results need: a safety result
is an initial-state fact and a step fact fed to it.  `Run.history` is for assertions that
also mention the actions taken so far.
-/

namespace NewPerf.Lib.Runs

variable {σ α : Type}

/-- Runs from `s₀` whose steps all meet `ok`. -/
inductive Run (step : σ → α → Option σ) (ok : σ → α → Prop) (s₀ : σ) :
    List α → σ → Prop where
  | nil : Run step ok s₀ [] s₀
  | snoc {as : List α} {s s' : σ} {a : α} (hRun : Run step ok s₀ as s)
      (hOk : ok s a) (hStep : step s a = some s') : Run step ok s₀ (as ++ [a]) s'

variable {step : σ → α → Option σ} {ok ok' : σ → α → Prop} {s₀ s : σ}
  {as : List α}

/-- An assertion about a state and the actions that led to it holds after every run, if
it holds before the first action and each permitted step keeps it. -/
theorem Run.history {I : List α → σ → Prop} (hInit : I [] s₀)
    (hPreserve : ∀ as s a s', I as s → ok s a → step s a = some s' → I (as ++ [a]) s')
    (h : Run step ok s₀ as s) : I as s := by
  induction h with
  | nil => exact hInit
  | snoc _ hOk hStep ih => exact hPreserve _ _ _ _ ih hOk hStep

/-- What holds initially and is preserved by every permitted step holds in every
state a run reaches. -/
theorem Run.invariant {I : σ → Prop} (hInit : I s₀)
    (hPreserve : ∀ s a s', I s → ok s a → step s a = some s' → I s')
    (h : Run step ok s₀ as s) : I s :=
  h.history (I := fun _ => I) hInit fun _ => hPreserve

theorem Run.single {a : α} (hOk : ok s₀ a) (hStep : step s₀ a = some s) :
    Run step ok s₀ [a] s :=
  Run.nil.snoc hOk hStep

/-- Dropping a restriction keeps the run. -/
theorem Run.mono (hImp : ∀ s a, ok s a → ok' s a) (h : Run step ok s₀ as s) :
    Run step ok' s₀ as s := by
  induction h with
  | nil => exact .nil
  | snoc _ hOk hStep ih => exact .snoc ih (hImp _ _ hOk) hStep

/-- A run is a run of any step function that does the same on the steps permitted. -/
theorem Run.congr_step {step' : σ → α → Option σ}
    (hSame : ∀ s a, ok s a → step s a = step' s a) (h : Run step ok s₀ as s) :
    Run step' ok s₀ as s := by
  induction h with
  | nil => exact .nil
  | snoc _ hOk hStep ih => exact .snoc ih hOk ((hSame _ _ hOk).symm.trans hStep)

/-- Conditions that agree on every step taken where an invariant holds admit the
same runs. -/
theorem Run.iff_of_invariant {I : σ → Prop} (hInit : I s₀)
    (hPreserve : ∀ s a s', I s → ok s a → step s a = some s' → I s')
    (hIff : ∀ s a s', I s → step s a = some s' → (ok s a ↔ ok' s a)) :
    Run step ok s₀ as s ↔ Run step ok' s₀ as s := by
  constructor
  · intro h
    induction h with
    | nil => exact .nil
    | snoc hRun hOk hStep ih =>
        have hInv := hRun.invariant hInit hPreserve
        exact .snoc ih ((hIff _ _ _ hInv hStep).mp hOk) hStep
  · intro h
    induction h with
    | nil => exact .nil
    | snoc _ hOk hStep ih =>
        have hInv := ih.invariant hInit hPreserve
        exact .snoc ih ((hIff _ _ _ hInv hStep).mpr hOk) hStep

/-- Execute a list of actions, each of which has to pass the test `test`. -/
def exec (step : σ → α → Option σ) (test : σ → α → Bool) : σ → List α → Option σ
  | s, [] => some s
  | s, a :: as =>
      if test s a then (step s a).bind fun s' => exec step test s' as else none

/-- A run goes on with an execution. -/
theorem Run.append_exec {test : σ → α → Bool}
    (hTest : ∀ s a, test s a = true → ok s a) {bs : List α} {s' : σ}
    (h : Run step ok s₀ as s) (hExec : exec step test s bs = some s') :
    Run step ok s₀ (as ++ bs) s' := by
  induction bs generalizing as s with
  | nil =>
      simp only [exec, Option.some.injEq] at hExec
      rw [List.append_nil, ← hExec]
      exact h
  | cons b bs ih =>
      simp only [exec] at hExec
      split at hExec
      · rename_i hPass
        obtain ⟨t, hStep, hRest⟩ := Option.bind_eq_some_iff.mp hExec
        have hAll := ih (Run.snoc h (hTest s b hPass) hStep) hRest
        rwa [List.append_assoc] at hAll
      · cases hExec

/-- A successful execution is a run. -/
theorem Run.of_exec {test : σ → α → Bool}
    (hTest : ∀ s a, test s a = true → ok s a)
    (hExec : exec step test s₀ as = some s) : Run step ok s₀ as s := by
  simpa using Run.append_exec hTest Run.nil hExec

end NewPerf.Lib.Runs
