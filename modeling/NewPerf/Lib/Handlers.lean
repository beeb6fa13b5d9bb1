import NewPerf.Lib.Programs

/-!
# Programs over programs

A program whose effects are themselves carried out by programs, one level down, is a
program of that level (`Prog.handle`).  What is known of the pieces is put together as
before: `handle` commutes with sequential composition, and an assertion that every piece
keeps is kept by the whole.

`Steps` is a prefix of an execution, and `Safe.of_steps` reads a safety property off at
its end.
-/

namespace NewPerf.Lib.Programs

variable {E E' : Type} {R : E → Type} {R' : E' → Type} {α β γ : Type}

theorem Prog.bind_assoc (p : Prog E R α) (f : α → Prog E R β) (g : β → Prog E R γ) :
    (p.bind f).bind g = p.bind fun a => (f a).bind g := by
  induction p with
  | pure a => rfl
  | op e k ih =>
      simp only [Prog.bind]
      congr 1
      funext r
      exact ih r

/-- Carry out every effect by the program `impl` gives for it. -/
def Prog.handle (impl : (e : E) → Prog E' R' (R e)) : Prog E R α → Prog E' R' α
  | .pure a => .pure a
  | .op e k => (impl e).bind fun r => (k r).handle impl

section Handle

variable {impl : (e : E) → Prog E' R' (R e)}

theorem Prog.handle_perform (e : E) : (perform e : Prog E R (R e)).handle impl = impl e := by
  have hRight : ∀ p : Prog E' R' (R e), (p.bind fun r => .pure r) = p := by
    intro p
    induction p with
    | pure a => rfl
    | op e' k ih =>
        simp only [Prog.bind]
        congr 1
        funext r
        exact ih r
  exact hRight (impl e)

theorem Prog.handle_bind (p : Prog E R α) (f : α → Prog E R β) :
    (p >>= f).handle impl = p.handle impl >>= fun a => (f a).handle impl := by
  induction p with
  | pure a => rfl
  | op e k ih =>
      have hRest : (fun r => ((k r).bind f).handle impl) =
          fun r => ((k r).handle impl).bind fun a => (f a).handle impl := funext ih
      show ((impl e).bind fun r => ((k r).bind f).handle impl) =
        ((impl e).bind fun r => (k r).handle impl).bind fun a => (f a).handle impl
      rw [hRest, Prog.bind_assoc]

variable {A B σ : Type} {M : Machine E' R' A B σ} {ok : σ → E' → Prop}
  {spec : Option E' → σ → Prop}

/-- An assertion that every effect a program may perform keeps is kept by the program. -/
theorem Safe.handle {P : σ → Prop} (bad : E → Prop) (hStable : M.Stable P)
    (hSpec : ∀ m, P m → spec none m)
    (hImpl : ∀ e m, ¬ bad e → P m → Safe M ok spec (fun _ => P) (impl e) m)
    {p : Prog E R α} {m : σ} (hAvoids : p.Avoids bad) (hP : P m) :
    Safe M ok spec (fun _ => P) (p.handle impl) m := by
  induction p generalizing m with
  | pure a => exact Safe.pure hStable hP hSpec fun _ hm => hm
  | op e k ih =>
      refine Safe.bind (hImpl e m hAvoids.1 hP) fun r m' hm' => ?_
      exact ih r (hAvoids.2 r) hm'

end Handle

/-! ## Prefixes of executions -/

variable {A B σ : Type} {M : Machine E R A B σ} {ok : σ → E → Prop}

/-- Some way into an execution of a program, `p` is what is left of it. -/
inductive Steps (M : Machine E R A B σ) (ok : σ → E → Prop) (p₀ : Prog E R α) (m₀ : σ) :
    Prog E R α → σ → Prop where
  | start : Steps M ok p₀ m₀ p₀ m₀
  | env {p : Prog E R α} {m m' : σ} {b : B} (h : Steps M ok p₀ m₀ p m)
      (hEnv : M.env m b = some m') : Steps M ok p₀ m₀ p m'
  | effect {e : E} {k : R e → Prog E R α} {m m' : σ} {a : A} {r : R e}
      (h : Steps M ok p₀ m₀ (.op e k) m) (hOk : ok m e) (hEff : M.eff m e a = some (r, m')) :
      Steps M ok p₀ m₀ (k r) m'

/-- What is left of a safe program is safe. -/
theorem Safe.steps {spec : Option E → σ → Prop} {Q : α → σ → Prop} {p₀ p : Prog E R α}
    {m₀ m : σ} (hSafe : Safe M ok spec Q p₀ m₀) (h : Steps M ok p₀ m₀ p m) :
    Safe M ok spec Q p m := by
  induction h with
  | start => exact hSafe
  | env _ hEnv ih => exact ih.reach (.single ⟨_, hEnv⟩)
  | effect _ hOk hEff ih => exact (ih _ .refl).2 _ _ _ hOk hEff

theorem Safe.of_steps {spec : Option E → σ → Prop} {Q : α → σ → Prop} {p₀ p : Prog E R α}
    {m₀ m : σ} (hSafe : Safe M ok spec Q p₀ m₀) (h : Steps M ok p₀ m₀ p m) :
    spec p.next m :=
  (hSafe.steps h).spec_next

/-- What is left of a program after the given answers, while the machine makes no move of
its own. -/
def Prog.after (M : Machine E R A B σ) :
    Prog E R α → σ → List A → Option (Prog E R α × σ)
  | p, m, [] => some (p, m)
  | .pure _, _, _ :: _ => none
  | .op e k, m, a :: rest => (M.eff m e a).bind fun rm => (k rm.1).after M rm.2 rest

theorem Steps.of_after {p₀ p p' : Prog E R α} {m₀ m m' : σ} {answers : List A}
    (h : Steps M (fun _ _ => True) p₀ m₀ p m) (hAfter : p.after M m answers = some (p', m')) :
    Steps M (fun _ _ => True) p₀ m₀ p' m' := by
  induction answers generalizing p m with
  | nil =>
      cases p with
      | pure a =>
          cases hAfter
          exact h
      | op e k =>
          cases hAfter
          exact h
  | cons a rest ih =>
      cases p with
      | pure x => cases hAfter
      | op e k =>
          obtain ⟨⟨r, m₁⟩, hEff, hRest⟩ := Option.bind_eq_some_iff.mp hAfter
          exact ih (h.effect trivial hEff) hRest

end NewPerf.Lib.Programs
