import Mathlib.Data.Option.Basic
import Mathlib.Algebra.Group.Nat.Defs

/-!
# Loops with a bound

`upTo body k s` makes at most `k` passes of a loop whose body may leave it or give
up.  Passes add up: a loop that has been stopped by its bound can be taken up again
where it stopped (`upTo_add`).  A loop that keeps more in its state than it leaves
behind is brought to this form by `upTo_simulates`.
-/

namespace NewPerf.Lib.Loops

variable {σ τ : Type}

/-- What a pass comes to: the loop is left, it is given up, or it goes on. -/
inductive Pass (σ : Type) where
  | stop
  | fail
  | next (s : σ)

def Pass.map (f : σ → τ) : Pass σ → Pass τ
  | .stop => .stop
  | .fail => .fail
  | .next s => .next (f s)

/-- At most `k` passes: the state they lead to and how many there were. -/
def upTo (body : σ → Pass σ) : Nat → σ → Option (σ × Nat)
  | 0, s => some (s, 0)
  | k + 1, s =>
      match body s with
      | .stop => some (s, 0)
      | .fail => none
      | .next s' => (upTo body k s').map fun r => (r.1, r.2 + 1)

variable {body : σ → Pass σ} {s s' : σ} {j k : Nat}

theorem upTo_of_stop (h : body s = .stop) : upTo body k s = some (s, 0) := by
  cases k with
  | zero => rfl
  | succ k => rw [upTo, h]

/-- `a + b` passes are `a` passes and then `b` more. -/
theorem upTo_add (body : σ → Pass σ) (a b : Nat) (s : σ) :
    upTo body (a + b) s =
      (upTo body a s).bind fun r => (upTo body b r.1).map fun q => (q.1, r.2 + q.2) := by
  induction a generalizing s with
  | zero => simp [upTo]
  | succ a ih =>
      rw [Nat.add_right_comm, upTo, upTo]
      cases hBody : body s with
      | stop => simp [upTo_of_stop hBody]
      | fail => rfl
      | next s' =>
          simp only [ih, Option.map_bind, Option.bind_map, Option.map_map, Function.comp_def]
          congr 1
          funext r
          congr 1
          funext q
          rw [Nat.add_right_comm]

theorem upTo_le (h : upTo body k s = some (s', j)) : j ≤ k := by
  induction k generalizing s s' j with
  | zero =>
      rw [upTo, Option.some.injEq, Prod.mk.injEq] at h
      omega
  | succ k ih =>
      rw [upTo] at h
      split at h
      · rw [Option.some.injEq, Prod.mk.injEq] at h
        omega
      · cases h
      · obtain ⟨⟨q, i⟩, hq, hEq⟩ := Option.map_eq_some_iff.mp h
        rw [Prod.mk.injEq] at hEq
        have hLe := ih hq
        omega

/-- No pass leaves the state as it was. -/
theorem eq_of_upTo_zero (h : upTo body k s = some (s', 0)) : s' = s := by
  cases k with
  | zero =>
      rw [upTo, Option.some.injEq, Prod.mk.injEq] at h
      exact h.1.symm
  | succ k =>
      rw [upTo] at h
      split at h
      · rw [Option.some.injEq, Prod.mk.injEq] at h
        exact h.1.symm
      · cases h
      · obtain ⟨⟨q, i⟩, -, hEq⟩ := Option.map_eq_some_iff.mp h
        rw [Prod.mk.injEq] at hEq
        omega

/-- A loop that stopped after `j` passes would have done so with the bound `j`. -/
theorem upTo_passes (h : upTo body k s = some (s', j)) : upTo body j s = some (s', j) := by
  induction k generalizing s j with
  | zero =>
      rw [upTo, Option.some.injEq, Prod.mk.injEq] at h
      obtain ⟨rfl, rfl⟩ := h
      rfl
  | succ k ih =>
      rw [upTo] at h
      split at h
      · rw [Option.some.injEq, Prod.mk.injEq] at h
        obtain ⟨rfl, rfl⟩ := h
        rfl
      · cases h
      · rename_i hBody
        obtain ⟨⟨q, i⟩, hq, hEq⟩ := Option.map_eq_some_iff.mp h
        rw [Prod.mk.injEq] at hEq
        obtain ⟨rfl, rfl⟩ := hEq
        rw [upTo, hBody]
        dsimp only
        rw [ih hq]
        rfl

/-- Both passes end the same way, in related states if they go on. -/
inductive Pass.Rel (R : σ → τ → Prop) : Pass σ → Pass τ → Prop where
  | stop : Pass.Rel R .stop .stop
  | fail : Pass.Rel R .fail .fail
  | next {s : σ} {t : τ} (h : R s t) : Pass.Rel R (.next s) (.next t)

/-- Two loops whose passes agree as long as the bound allows another one; the relation
may speak of the number of passes left. -/
theorem upTo_simulates {body' : τ → Pass τ} {R : Nat → σ → τ → Prop}
    (hBody : ∀ k s t, R (k + 1) s t → Pass.Rel (R k) (body s) (body' t)) {t : τ}
    (h : R k s t) :
    (upTo body k s = none ∧ upTo body' k t = none) ∨
      ∃ s' t' j, upTo body k s = some (s', j) ∧ upTo body' k t = some (t', j) ∧
        R (k - j) s' t' := by
  induction k generalizing s t with
  | zero => exact .inr ⟨s, t, 0, rfl, rfl, h⟩
  | succ k ih =>
      rw [upTo, upTo]
      generalize hLeft : body s = p
      generalize hRight : body' t = q
      have hRel := hBody k s t h
      rw [hLeft, hRight] at hRel
      cases hRel with
      | stop => exact .inr ⟨s, t, 0, rfl, rfl, h⟩
      | fail => exact .inl ⟨rfl, rfl⟩
      | next hNext =>
          dsimp only
          rcases ih hNext with ⟨hLeft, hRight⟩ | ⟨s', t', j, hLeft, hRight, hEnd⟩
          · rw [hLeft, hRight]
            exact .inl ⟨rfl, rfl⟩
          · rw [hLeft, hRight]
            refine .inr ⟨s', t', j + 1, rfl, rfl, ?_⟩
            rwa [Nat.add_sub_add_right]

end NewPerf.Lib.Loops
