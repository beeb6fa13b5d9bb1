import NewPerf.Lib.Runs

/-!
# Runs of one system carried over to another

What an observer makes of a run of the first system is given by a `view`: the actions of
the second system that a step shows as.  There may be none, which is how steps that the
second system knows nothing about are dealt with.  A relation between the states of the two
systems is a simulation if every permitted step of the first, from a state that is related
to one of the second, shows as a run of the second that ends in a related state.
`Run.simulated` carries whole runs over: what is `seen` of the run is a run of the second
system.  Like `Run.invariant`, it is the only induction its clients need.
-/

namespace NewPerf.Lib.Runs

variable {σ α : Type} {step : σ → α → Option σ} {ok : σ → α → Prop}

/-- One run after another. -/
theorem Run.append {s₀ s s' : σ} {as bs : List α} (h : Run step ok s₀ as s)
    (h' : Run step ok s bs s') : Run step ok s₀ (as ++ bs) s' := by
  induction h' with
  | nil => rwa [List.append_nil]
  | snoc _ hOk hStep ih =>
      rw [← List.append_assoc]
      exact .snoc ih hOk hStep

variable {τ β : Type} {step' : τ → β → Option τ} {ok' : τ → β → Prop}

/-- What is seen of the actions `as`, taken one after the other from `s` on. -/
def seen (step : σ → α → Option σ) (view : σ → α → List β) (s : σ) : List α → List β
  | [] => []
  | a :: as =>
      match step s a with
      | none => view s a
      | some s' => view s a ++ seen step view s' as

variable {view : σ → α → List β}

/-- What is seen of a run and of what comes after it. -/
theorem Run.seen_append {s₀ s : σ} {as : List α} (h : Run step ok s₀ as s) (bs : List α) :
    seen step view s₀ (as ++ bs) = seen step view s₀ as ++ seen step view s bs := by
  induction h generalizing bs with
  | nil => rfl
  | snoc _ _ hStep ih => simp only [List.append_assoc, ih, List.singleton_append, seen, hStep,
      List.append_nil]

theorem Run.seen_snoc {s₀ s : σ} {as : List α} (h : Run step ok s₀ as s) (a : α) :
    seen step view s₀ (as ++ [a]) = seen step view s₀ as ++ view s a := by
  rw [h.seen_append]
  cases hStep : step s a <;> simp [seen, hStep]

/-- An observer who does not look at the state sees the actions one by one. -/
theorem Run.seen_eq_flatMap {s₀ s : σ} {as : List α} (f : α → List β)
    (h : Run step ok s₀ as s) : seen step (fun _ => f) s₀ as = as.flatMap f := by
  induction h with
  | nil => rfl
  | snoc hRun _ _ ih =>
      rw [hRun.seen_snoc, ih, List.flatMap_append, List.flatMap_cons, List.flatMap_nil,
        List.append_nil]

/-- What is seen of a run of the first system is a run of the second. -/
theorem Run.simulated {R : σ → τ → Prop} {s₀ s : σ} {t₀ : τ} {as : List α}
    (hInit : R s₀ t₀)
    (hAnswer : ∀ s a s' t, R s t → ok s a → step s a = some s' →
      ∃ t', Run step' ok' t (view s a) t' ∧ R s' t')
    (h : Run step ok s₀ as s) : ∃ t, Run step' ok' t₀ (seen step view s₀ as) t ∧ R s t := by
  induction h with
  | nil => exact ⟨t₀, .nil, hInit⟩
  | snoc hPrefix hOk hStep ih =>
      obtain ⟨t, hRun, hR⟩ := ih
      obtain ⟨t', hRun', hR'⟩ := hAnswer _ _ _ _ hR hOk hStep
      rw [hPrefix.seen_snoc]
      exact ⟨t', hRun.append hRun', hR'⟩

end NewPerf.Lib.Runs
