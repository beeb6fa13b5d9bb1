import NewPerf.Lib.Programs

/-!
# What a program does by itself

`Traced p t a` says that the program may perform the effects of `t`, with the results
recorded there, and return `a`; every result an effect has is possible.  `Tells` turns
this around: every execution meets an assertion about its trace and its result.  Its
rules follow the structure of programs, like those of `Safe`, with the trace in the
place of the state of a machine.  `Only` is for programs of whose trace nothing matters but
the kinds of effects in it.
-/

namespace NewPerf.Lib.Programs

variable {E : Type} {R : E → Type} {α β : Type}

/-- Effects and the results they had. -/
abbrev Trace (R : E → Type) : Type := List (Sigma R)

/-- The program may perform the effects of `t` and return `a`. -/
inductive Traced : Prog E R α → Trace R → α → Prop where
  | pure (a : α) : Traced (.pure a) [] a
  | op {e : E} {k : R e → Prog E R α} {r : R e} {t : Trace R} {a : α}
      (h : Traced (k r) t a) : Traced (.op e k) (⟨e, r⟩ :: t) a

/-- Every execution of the program meets `Q`. -/
def Prog.Tells (Q : Trace R → α → Prop) : Prog E R α → Prop
  | .pure a => Q [] a
  | .op e k => ∀ r, (k r).Tells fun t a => Q (⟨e, r⟩ :: t) a

theorem Prog.Tells.of_traced {Q : Trace R → α → Prop} {p : Prog E R α} {t : Trace R} {a : α}
    (h : p.Tells Q) (hTraced : Traced p t a) : Q t a := by
  induction hTraced generalizing Q with
  | pure a => exact h
  | op _ ih => exact ih (h _)

theorem Prog.Tells.mono {Q Q' : Trace R → α → Prop} {p : Prog E R α} (h : p.Tells Q)
    (hImp : ∀ t a, Q t a → Q' t a) : p.Tells Q' := by
  induction p generalizing Q Q' with
  | pure a => exact hImp [] a h
  | op e k ih => exact fun r => ih r (h r) fun t a => hImp _ a

theorem Prog.Tells.and {Q Q' : Trace R → α → Prop} {p : Prog E R α} (h : p.Tells Q)
    (h' : p.Tells Q') : p.Tells fun t a => Q t a ∧ Q' t a := by
  induction p generalizing Q Q' with
  | pure a => exact ⟨h, h'⟩
  | op e k ih => exact fun r => ih r (h r) (h' r)

/-- The rule for calling a program that has been dealt with on its own. -/
theorem Prog.Tells.bind {P : Trace R → α → Prop} {Q : Trace R → β → Prop} {p : Prog E R α}
    {f : α → Prog E R β} (h : p.Tells P)
    (hNext : ∀ t a, P t a → (f a).Tells fun t' b => Q (t ++ t') b) : (p >>= f).Tells Q := by
  induction p generalizing P Q with
  | pure a => exact hNext [] a h
  | op e k ih => exact fun r => ih r (h r) fun t a => hNext (⟨e, r⟩ :: t) a

/-- Whatever they return, the effects of the program are all in `good`, and its results
meet `Q`. -/
def Prog.Only (good : E → Prop) (Q : α → Prop) : Prog E R α → Prop
  | .pure a => Q a
  | .op e k => good e ∧ ∀ r, (k r).Only good Q

theorem Prog.Only.mono {good : E → Prop} {Q Q' : α → Prop} {p : Prog E R α} (h : p.Only good Q)
    (hImp : ∀ a, Q a → Q' a) : p.Only good Q' := by
  induction p with
  | pure a => exact hImp a h
  | op e k ih => exact ⟨h.1, fun r => ih r (h.2 r)⟩

theorem Prog.Only.widen {good good' : E → Prop} {Q : α → Prop} {p : Prog E R α}
    (h : p.Only good Q) (hImp : ∀ e, good e → good' e) : p.Only good' Q := by
  induction p with
  | pure a => exact h
  | op e k ih => exact ⟨hImp e h.1, fun r => ih r (h.2 r)⟩

theorem Prog.Only.bind {good : E → Prop} {Q : α → Prop} {Q' : β → Prop} {p : Prog E R α}
    {f : α → Prog E R β} (h : p.Only good Q) (hNext : ∀ a, Q a → (f a).Only good Q') :
    (p >>= f).Only good Q' := by
  induction p with
  | pure a => exact hNext a h
  | op e k ih => exact ⟨h.1, fun r => ih r (h.2 r)⟩

theorem Prog.Only.ensures {good : E → Prop} {may : (e : E) → R e → Prop} {Q : α → Prop}
    {p : Prog E R α} (h : p.Only good Q) : p.Ensures may Q := by
  induction p with
  | pure a => exact h
  | op e k ih => exact fun r _ => ih r (h.2 r)

/-- On a machine on which effects in `good` keep `P`. -/
theorem Prog.Only.safe {A B σ : Type} {M : Machine E R A B σ} {ok : σ → E → Prop}
    {spec : Option E → σ → Prop} {P : σ → Prop} {good : E → Prop} {Q : α → Prop}
    {p : Prog E R α} {m : σ} (h : p.Only good Q) (hStable : M.Stable P)
    (hDone : ∀ m, P m → spec none m) (hSpec : ∀ e m, good e → P m → spec (some e) m)
    (hEff : ∀ e m a r m', good e → P m → M.eff m e a = some (r, m') → P m') (hP : P m) :
    Safe M ok spec (fun a m => P m ∧ Q a) p m := by
  induction p generalizing m with
  | pure a => exact Safe.pure hStable hP hDone fun m' hm' => ⟨hm', h⟩
  | op e k ih =>
      exact Safe.op hStable hP (fun m' hm' => hSpec e m' h.1 hm') fun m₁ a r m₂ hm₁ _ he =>
        ih r (h.2 r) (hEff e m₁ a r m₂ h.1 hm₁ he)

theorem Prog.Only.tells {good : E → Prop} {Q : α → Prop} {p : Prog E R α} (h : p.Only good Q) :
    p.Tells fun t a => (∀ x ∈ t, good x.1) ∧ Q a := by
  induction p with
  | pure a => exact ⟨by simp, h⟩
  | op e k ih =>
      refine fun r => (ih r (h.2 r)).mono fun t a hRest => ⟨?_, hRest.2⟩
      intro x hx
      rcases List.mem_cons.mp hx with rfl | hx
      · exact h.1
      · exact hRest.1 x hx

/-- Execute a program in an environment that always gives the same answers. -/
def Prog.run (answer : (e : E) → R e) : Prog E R α → Trace R × α
  | .pure a => ([], a)
  | .op e k => (⟨e, answer e⟩ :: ((k (answer e)).run answer).1, ((k (answer e)).run answer).2)

theorem Prog.traced_run (answer : (e : E) → R e) (p : Prog E R α) :
    Traced p (p.run answer).1 (p.run answer).2 := by
  induction p with
  | pure a => exact .pure a
  | op e k ih => exact .op (ih (answer e))

end NewPerf.Lib.Programs
