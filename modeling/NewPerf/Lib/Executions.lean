import NewPerf.Lib.Runs
import Mathlib.Data.Nat.Find

/-!
# Executions without end

`Runs` are finite and serve safety.  That something does happen in the end is a statement
about executions without end, under the assumption that a party that can act for good acts
some time (`WeaklyFair`).

`Execution.leaves` is the rule.  Let one party have a bounded amount of work, let its being
able to act not be taken away by the others, and let every other step that is taken while it
cannot act reduce a rank.  Then no execution remains inside the region in which this holds.
-/

namespace NewPerf.Lib.Runs

variable {σ α : Type}

/-- An infinite execution whose steps all meet `ok`. -/
structure Execution (step : σ → α → Option σ) (ok : σ → α → Prop) where
  state : Nat → σ
  act : Nat → α
  permitted : ∀ i, ok (state i) (act i)
  next : ∀ i, step (state i) (act i) = some (state (i + 1))

variable {step : σ → α → Option σ} {ok : σ → α → Prop}

/-- Some action of `A` can be taken. -/
def Enabled (step : σ → α → Option σ) (A : α → Prop) (s : σ) : Prop :=
  ∃ a, A a ∧ (step s a).isSome

namespace Execution

variable (e : Execution step ok)

/-- From any time on, unless it is at some time unable to act, the party acts. -/
def WeaklyFair (A : α → Prop) : Prop :=
  ∀ i, (∀ j ≥ i, Enabled step A (e.state j)) → ∃ j ≥ i, A (e.act j)

/-- What an execution has done at any time is a run. -/
theorem run (i : Nat) : ∃ as, Run step ok (e.state 0) as (e.state i) := by
  induction i with
  | zero => exact ⟨[], .nil⟩
  | succ i ih =>
      obtain ⟨as, hRun⟩ := ih
      exact ⟨as ++ [e.act i], hRun.snoc (e.permitted i) (e.next i)⟩

/-- What holds at one time and is preserved by every step holds from then on. -/
theorem always {I : σ → Prop} {i : Nat} (hNow : I (e.state i))
    (hPreserve : ∀ j ≥ i, I (e.state j) → I (e.state (j + 1))) : ∀ j ≥ i, I (e.state j) := by
  intro j hj
  induction j, hj using Nat.le_induction with
  | base => exact hNow
  | succ j hj ih => exact hPreserve j hj ih

variable {e}

/-- A number cannot go down for ever. -/
theorem not_descending (rank : σ → Nat) (i : Nat)
    (hDown : ∀ j ≥ i, rank (e.state (j + 1)) < rank (e.state j)) : False := by
  have hSum : ∀ k, rank (e.state (i + k)) + k ≤ rank (e.state i) := by
    intro k
    induction k with
    | zero => exact Nat.le_refl _
    | succ k ih =>
        have hStep := hDown (i + k) (Nat.le_add_right i k)
        rw [Nat.add_assoc] at hStep
        omega
  have := hSum (rank (e.state i) + 1)
  omega

/-- A party that uses up a bounded amount of work comes to rest. -/
theorem eventually_at_rest {A : α → Prop} (work : σ → Nat) (i : Nat)
    (hLe : ∀ j ≥ i, work (e.state (j + 1)) ≤ work (e.state j))
    (hLt : ∀ j ≥ i, A (e.act j) → work (e.state (j + 1)) < work (e.state j)) :
    ∃ k ≥ i, ∀ j ≥ k, ¬ A (e.act j) := by
  obtain ⟨w, hw⟩ : ∃ w, work (e.state i) = w := ⟨_, rfl⟩
  induction w using Nat.strong_induction_on generalizing i with
  | _ w ih =>
      by_cases hRest : ∀ j ≥ i, ¬ A (e.act j)
      · exact ⟨i, Nat.le_refl i, hRest⟩
      · simp only [not_forall, not_not] at hRest
        obtain ⟨j, hj, hA⟩ := hRest
        have hBefore : ∀ j ≥ i, work (e.state j) ≤ work (e.state i) :=
          e.always (I := fun s => work s ≤ work (e.state i)) (Nat.le_refl _)
            fun j hj h => Nat.le_trans (hLe j hj) h
        have hLess : work (e.state (j + 1)) < w :=
          hw ▸ Nat.lt_of_lt_of_le (hLt j hj hA) (hBefore j hj)
        obtain ⟨k, hk, hQuiet⟩ := ih _ hLess (j + 1) (fun l hl => hLe l (by omega))
          (fun l hl => hLt l (by omega)) rfl
        exact ⟨k, by omega, hQuiet⟩

/-- A fair execution that is inside leaves some time: the party's work runs out, after which
it cannot be able to act, and the rank goes down. -/
theorem leaves {A : α → Prop} {P : σ → Prop} (work rank : σ → Nat)
    (hFair : e.WeaklyFair A)
    (hWork : ∀ s a s', ok s a → step s a = some s' → P s → P s' →
      work s' ≤ work s ∧ (A a → work s' < work s))
    (hKeep : ∀ s a s', ok s a → step s a = some s' → P s → P s' → ¬ A a →
      Enabled step A s → Enabled step A s')
    (hRank : ∀ s a s', ok s a → step s a = some s' → P s → P s' → ¬ A a →
      ¬ Enabled step A s → ¬ Enabled step A s' → rank s' < rank s)
    {i : Nat} (hInside : P (e.state i)) :
    ∃ j ≥ i, (∀ k, i ≤ k → k ≤ j → P (e.state k)) ∧ ¬ P (e.state (j + 1)) := by
  by_contra hNever
  have hUpTo : ∀ j ≥ i, ∀ k, i ≤ k → k ≤ j → P (e.state k) := by
    intro j hj
    induction j, hj using Nat.le_induction with
    | base =>
        intro k hk hki
        rw [show k = i by omega]
        exact hInside
    | succ j hj ih =>
        intro k hk hkj
        by_cases hLast : k = j + 1
        · rw [hLast]
          by_contra hOut
          exact hNever ⟨j, hj, ih, hOut⟩
        · exact ih k hk (by omega)
  have hAll : ∀ j ≥ i, P (e.state j) := fun j hj => hUpTo j hj j hj (Nat.le_refl j)
  have hAt : ∀ j ≥ i, P (e.state j) ∧ P (e.state (j + 1)) :=
    fun j hj => ⟨hAll j hj, hAll (j + 1) (by omega)⟩
  have hWorkAt : ∀ j ≥ i, work (e.state (j + 1)) ≤ work (e.state j) ∧
      (A (e.act j) → work (e.state (j + 1)) < work (e.state j)) := fun j hj =>
    hWork _ _ _ (e.permitted j) (e.next j) (hAt j hj).1 (hAt j hj).2
  obtain ⟨k, hk, hQuiet⟩ := eventually_at_rest work i
    (fun j hj => (hWorkAt j hj).1) (fun j hj => (hWorkAt j hj).2)
  -- Once able to act, it would be so for good, and would act.
  have hUnable : ∀ j ≥ k, ¬ Enabled step A (e.state j) := by
    intro j hj hEnabled
    have hGood : ∀ l ≥ j, Enabled step A (e.state l) := by
      refine e.always hEnabled fun l hl hNow => ?_
      obtain ⟨hIn, hIn'⟩ := hAt l (by omega)
      exact hKeep _ _ _ (e.permitted l) (e.next l) hIn hIn' (hQuiet l (by omega)) hNow
    obtain ⟨l, hl, hAct⟩ := hFair j hGood
    exact hQuiet l (by omega) hAct
  refine not_descending (e := e) rank k fun j hj => ?_
  obtain ⟨hIn, hIn'⟩ := hAt j (by omega)
  exact hRank _ _ _ (e.permitted j) (e.next j) hIn hIn' (hQuiet j hj) (hUnable j hj)
    (hUnable (j + 1) (by omega))

/-! ## Another step function -/

section Agreeing

variable {step' : σ → α → Option σ} {ok' : σ → α → Prop}

/-- An execution as one of a step function that agrees on what is permitted. -/
def agreeing (e : Execution step ok) (hSame : ∀ s a, ok s a → step s a = step' s a)
    (hImp : ∀ s a, ok s a → ok' s a) : Execution step' ok' where
  state := e.state
  act := e.act
  permitted i := hImp _ _ (e.permitted i)
  next i := (hSame _ _ (e.permitted i)).symm.trans (e.next i)

/-- It is as fair to a party whose steps are the same. -/
theorem WeaklyFair.agreeing {A : α → Prop} (h : e.WeaklyFair A)
    (hSame : ∀ s a, ok s a → step s a = step' s a) (hImp : ∀ s a, ok s a → ok' s a)
    (hParty : ∀ s a, A a → step s a = step' s a) :
    (e.agreeing hSame hImp).WeaklyFair A := by
  intro i hEnabled
  refine h i fun j hj => ?_
  obtain ⟨a, ha, hSome⟩ := hEnabled j hj
  exact ⟨a, ha, by rw [hParty _ a ha]; exact hSome⟩

end Agreeing

/-! ## Putting executions together -/

/-- The execution that repeats a step that changes nothing. -/
def idle {s : σ} {a : α} (hOk : ok s a) (hStep : step s a = some s) : Execution step ok where
  state _ := s
  act _ := a
  permitted _ := hOk
  next _ := hStep

/-- One step more at the front. -/
def cons (e : Execution step ok) {s : σ} {a : α} (hOk : ok s a)
    (hStep : step s a = some (e.state 0)) : Execution step ok where
  state := fun i => match i with | 0 => s | i + 1 => e.state i
  act := fun i => match i with | 0 => a | i + 1 => e.act i
  permitted := fun i => match i with | 0 => hOk | i + 1 => e.permitted i
  next := fun i => match i with | 0 => hStep | i + 1 => e.next i

/-- Every run can go on as an execution does that starts where it ends. -/
theorem exists_after {s₀ s : σ} {as : List α} (hRun : Run step ok s₀ as s)
    (e : Execution step ok) (hStart : e.state 0 = s) :
    ∃ e' : Execution step ok, e'.state 0 = s₀ ∧
      ∀ i, e'.state (as.length + i) = e.state i ∧ e'.act (as.length + i) = e.act i := by
  induction hRun generalizing e with
  | nil => exact ⟨e, hStart, fun i => by simp⟩
  | @snoc as s s' a _ hOk hStep ih =>
      rw [← hStart] at hStep
      obtain ⟨e', hStart', hAfter⟩ := ih (e.cons hOk hStep) rfl
      refine ⟨e', hStart', fun i => ?_⟩
      have hLength : (as ++ [a]).length + i = as.length + (i + 1) := by
        rw [List.length_append, List.length_singleton]
        omega
      rw [hLength]
      exact hAfter (i + 1)

end Execution

/-! ## Bounded runs -/

/-- If a rank never goes up, and goes down at certain actions, these are no more than it
started with. -/
theorem Run.countP_add_le {s₀ s : σ} {as : List α} {I : σ → Prop} (rank : σ → Nat)
    (counts : α → Bool) (hInit : I s₀)
    (hPreserve : ∀ s a s', I s → ok s a → step s a = some s' → I s')
    (hDown : ∀ s a s', I s → ok s a → step s a = some s' →
      rank s' + (if counts a then 1 else 0) ≤ rank s)
    (h : Run step ok s₀ as s) : as.countP counts + rank s ≤ rank s₀ := by
  induction h with
  | nil => simp
  | @snoc as s s' a hRun hOk hStep ih =>
      have hLess := hDown s a s' (hRun.invariant hInit hPreserve) hOk hStep
      rw [List.countP_append, List.countP_singleton]
      omega

end NewPerf.Lib.Runs
