import NewPerf.Lib.Runs
import Mathlib.Logic.Relation

/-!
# Programs that talk to a machine

A program is a tree of effects: it stops with a value, or it performs an effect
and goes on with the result.  The machine gives the effects their meaning and
takes steps of its own in between; the result of an effect and the step the
machine takes are chosen by the environment.

`Safe` says that a property `spec` holds at every moment of every execution of a
program, where `spec` also sees the effect to be performed next, and that the
executions that end do so in the postcondition.  The rules below follow the
structure of programs, so that a proof of `Safe` is a walk through the program
text.  `Ensures` is the part of it that does not look at the machine, and `Always` is
about what is left of the program.  `Calls` runs programs one after the other on
behalf of callers, and `Calls.Inductive.of_run` turns the safety of each of them into
an invariant of runs.
-/

namespace NewPerf.Lib.Programs

open NewPerf.Lib.Runs

/-- Programs with effects `E`, where effect `e` has a result in `R e`. -/
inductive Prog (E : Type) (R : E → Type) (α : Type) : Type where
  | pure (a : α)
  | op (e : E) (k : R e → Prog E R α)

variable {E : Type} {R : E → Type} {α β : Type}

/-- Sequential composition. -/
def Prog.bind : Prog E R α → (α → Prog E R β) → Prog E R β
  | .pure a, f => f a
  | .op e k, f => .op e fun r => (k r).bind f

instance : Monad (Prog E R) where
  pure := .pure
  bind := .bind

/-- The program that performs one effect. -/
def perform (e : E) : Prog E R (R e) := .op e .pure

/-- The effect a program performs next. -/
def Prog.next : Prog E R α → Option E
  | .pure _ => none
  | .op e _ => some e

/-- What effects do, given an answer of the environment, and what the machine
does on its own. -/
structure Machine (E : Type) (R : E → Type) (A B σ : Type) where
  eff : σ → (e : E) → A → Option (R e × σ)
  env : σ → B → Option σ

variable {A B σ : Type} {M : Machine E R A B σ}
  {ok : σ → E → Prop} {spec : Option E → σ → Prop}

/-- States the machine can reach on its own. -/
def Machine.Reach (M : Machine E R A B σ) : σ → σ → Prop :=
  Relation.ReflTransGen fun m m' => ∃ b, M.env m b = some m'

/-- An assertion the machine cannot invalidate on its own. -/
def Machine.Stable (M : Machine E R A B σ) (P : σ → Prop) : Prop :=
  ∀ m b m', P m → M.env m b = some m' → P m'

theorem Machine.Stable.of_reach {P : σ → Prop} (h : M.Stable P) {m m' : σ}
    (hP : P m) (hReach : M.Reach m m') : P m' := by
  induction hReach with
  | refl => exact hP
  | tail _ hStep ih =>
      obtain ⟨b, hEnv⟩ := hStep
      exact h _ b _ ih hEnv

/-- `spec` holds throughout every execution of the program from `m` whose effects
are all permitted by `ok`, and the result meets `Q` for as long as nothing else
is done. -/
def Safe (M : Machine E R A B σ) (ok : σ → E → Prop) (spec : Option E → σ → Prop)
    (Q : α → σ → Prop) : Prog E R α → σ → Prop
  | .pure a, m => ∀ m', M.Reach m m' → spec none m' ∧ Q a m'
  | .op e k, m => ∀ m', M.Reach m m' → spec (some e) m' ∧
      ∀ a r m'', ok m' e → M.eff m' e a = some (r, m'') → Safe M ok spec Q (k r) m''

/-! ## Rules -/

/-- Steps of the machine do not make a program unsafe. -/
theorem Safe.reach {Q : α → σ → Prop} {p : Prog E R α} {m m' : σ}
    (h : Safe M ok spec Q p m) (hReach : M.Reach m m') : Safe M ok spec Q p m' := by
  cases p with
  | pure a => exact fun m'' hm'' => h m'' (hReach.trans hm'')
  | op e k => exact fun m'' hm'' => h m'' (hReach.trans hm'')

/-- What a safe program guarantees right now. -/
theorem Safe.spec_next {Q : α → σ → Prop} {p : Prog E R α} {m : σ}
    (h : Safe M ok spec Q p m) : spec p.next m := by
  cases p with
  | pure a => exact (h m .refl).1
  | op e k => exact (h m .refl).1

theorem Safe.pure {Q : α → σ → Prop} {P : σ → Prop} {a : α} {m : σ}
    (hStable : M.Stable P) (hP : P m) (hSpec : ∀ m, P m → spec none m)
    (hQ : ∀ m, P m → Q a m) : Safe M ok spec Q (.pure a) m := by
  intro m' hReach
  have hP' := hStable.of_reach hP hReach
  exact ⟨hSpec m' hP', hQ m' hP'⟩

/-- An effect is performed in a state of which a stable assertion is known. -/
theorem Safe.op {Q : α → σ → Prop} {P : σ → Prop} {e : E}
    {k : R e → Prog E R α} {m : σ} (hStable : M.Stable P) (hP : P m)
    (hSpec : ∀ m, P m → spec (some e) m)
    (hNext : ∀ m a r m', P m → ok m e → M.eff m e a = some (r, m') →
      Safe M ok spec Q (k r) m') : Safe M ok spec Q (.op e k) m := by
  intro m' hReach
  have hP' := hStable.of_reach hP hReach
  exact ⟨hSpec m' hP', fun a r m'' hOk hEff => hNext m' a r m'' hP' hOk hEff⟩

theorem Safe.mono {Q Q' : α → σ → Prop} {p : Prog E R α} {m : σ}
    (h : Safe M ok spec Q p m) (hImp : ∀ a m, Q a m → Q' a m) :
    Safe M ok spec Q' p m := by
  induction p generalizing m with
  | pure a =>
      intro m' hReach
      exact ⟨(h m' hReach).1, hImp a m' (h m' hReach).2⟩
  | op e k ih =>
      intro m' hReach
      refine ⟨(h m' hReach).1, fun a r m'' hOk hEff => ?_⟩
      exact ih r ((h m' hReach).2 a r m'' hOk hEff)

/-- The rule for calling a program that has been dealt with on its own. -/
theorem Safe.bind {Q : α → σ → Prop} {Q' : β → σ → Prop} {p : Prog E R α}
    {f : α → Prog E R β} {m : σ} (h : Safe M ok spec Q p m)
    (hNext : ∀ a m, Q a m → Safe M ok spec Q' (f a) m) :
    Safe M ok spec Q' (p >>= f) m := by
  induction p generalizing m with
  | pure a => exact hNext a m (h m .refl).2
  | op e k ih =>
      intro m' hReach
      refine ⟨(h m' hReach).1, fun a r m'' hOk hEff => ?_⟩
      exact ih r ((h m' hReach).2 a r m'' hOk hEff)

/-! ## What is left of a program -/

/-- `I` holds of what is left of the program at every moment of every execution. -/
def Always (M : Machine E R A B σ) (ok : σ → E → Prop) (I : Prog E R α → σ → Prop) :
    Prog E R α → σ → Prop
  | .pure a, m => ∀ m', M.Reach m m' → I (.pure a) m'
  | .op e k, m => ∀ m', M.Reach m m' → I (.op e k) m' ∧
      ∀ a r m'', ok m' e → M.eff m' e a = some (r, m'') → Always M ok I (k r) m''

/-- The program performs no effect in `bad`. -/
def Prog.Avoids (bad : E → Prop) : Prog E R α → Prop
  | .pure _ => True
  | .op e k => ¬ bad e ∧ ∀ r, (k r).Avoids bad

theorem Prog.Avoids.bind {bad : E → Prop} {p : Prog E R α} {f : α → Prog E R β}
    (h : p.Avoids bad) (hNext : ∀ a, (f a).Avoids bad) : (p >>= f).Avoids bad := by
  induction p with
  | pure a => exact hNext a
  | op e k ih => exact ⟨h.1, fun r => ih r (h.2 r)⟩

section Always

variable {I : Prog E R α → σ → Prop}

theorem Always.now {p : Prog E R α} {m : σ} (h : Always M ok I p m) : I p m := by
  cases p with
  | pure a => exact h m .refl
  | op e k => exact (h m .refl).1

theorem Always.reach {p : Prog E R α} {m m' : σ} (h : Always M ok I p m)
    (hReach : M.Reach m m') : Always M ok I p m' := by
  cases p with
  | pure a => exact fun m'' hm'' => h m'' (hReach.trans hm'')
  | op e k => exact fun m'' hm'' => h m'' (hReach.trans hm'')

theorem Always.op {P : σ → Prop} {e : E} {k : R e → Prog E R α} {m : σ}
    (hStable : M.Stable P) (hP : P m) (hNow : ∀ m, P m → I (.op e k) m)
    (hNext : ∀ m a r m', P m → ok m e → M.eff m e a = some (r, m') →
      Always M ok I (k r) m') : Always M ok I (.op e k) m := by
  intro m' hReach
  have hP' := hStable.of_reach hP hReach
  exact ⟨hNow m' hP', fun a r m'' hOk hEff => hNext m' a r m'' hP' hOk hEff⟩

/-- An assertion about the effects in `bad` holds where there are none. -/
theorem Always.of_avoids (bad : E → Prop)
    (hI : ∀ p m, (∀ e, p.next = some e → ¬ bad e) → I p m)
    {p : Prog E R α} {m : σ} (h : p.Avoids bad) : Always M ok I p m := by
  induction p generalizing m with
  | pure a => exact fun m' _ => hI _ m' nofun
  | op e k ih =>
      intro m' _
      refine ⟨hI _ m' fun e' he' => ?_, fun a r m'' _ _ => ih r (h.2 r)⟩
      cases he'
      exact h.1

/-- Such an assertion need only be looked at after a call that avoids them. -/
theorem Always.bind (bad : E → Prop) {Q : β → σ → Prop} {p : Prog E R β}
    {f : β → Prog E R α} {m : σ}
    (hI : ∀ p m, (∀ e, p.next = some e → ¬ bad e) → I p m) (hAvoids : p.Avoids bad)
    (hSafe : Safe M ok spec Q p m) (hNext : ∀ a m, Q a m → Always M ok I (f a) m) :
    Always M ok I (p >>= f) m := by
  induction p generalizing m with
  | pure a => exact hNext a m (hSafe m .refl).2
  | op e k ih =>
      intro m' hReach
      refine ⟨hI _ m' fun e' he' => ?_, fun a r m'' hOk hEff => ?_⟩
      · cases he'
        exact hAvoids.1
      · exact ih r (hAvoids.2 r) ((hSafe m' hReach).2 a r m'' hOk hEff)

end Always

/-! ## Executions that end -/

/-- The program started in `m` may return `a` and leave the machine in `m'`, with effects
that are all permitted by `ok`. -/
inductive Returns (M : Machine E R A B σ) (ok : σ → E → Prop) :
    Prog E R α → σ → α → σ → Prop where
  | pure {a : α} {m m' : σ} (hReach : M.Reach m m') : Returns M ok (.pure a) m a m'
  | op {e : E} {k : R e → Prog E R α} {ans : A} {r : R e} {a : α} {m m₁ m₂ m' : σ}
      (hReach : M.Reach m m₁) (hOk : ok m₁ e) (hEff : M.eff m₁ e ans = some (r, m₂))
      (hRest : Returns M ok (k r) m₂ a m') : Returns M ok (.op e k) m a m'

/-- A safe program that returns does so in its postcondition. -/
theorem Safe.of_returns {Q : α → σ → Prop} {p : Prog E R α} {m m' : σ} {a : α}
    (h : Safe M ok spec Q p m) (hReturns : Returns M ok p m a m') : Q a m' := by
  induction hReturns with
  | pure hReach => exact (h _ hReach).2
  | op hReach hOk hEff _ ih => exact ih ((h _ hReach).2 _ _ _ hOk hEff)

/-- Execute a program while the machine makes no move of its own; each effect has to pass
the test `test`. -/
def Prog.exec (M : Machine E R A B σ) (test : σ → E → Bool) :
    Prog E R α → σ → List A → Option (α × σ)
  | .pure a, m, [] => some (a, m)
  | .pure _, _, _ :: _ => none
  | .op _ _, _, [] => none
  | .op e k, m, ans :: rest =>
      if test m e then (M.eff m e ans).bind fun rm => (k rm.1).exec M test rm.2 rest
      else none

/-- An execution is one of the ways to return. -/
theorem Returns.of_exec {test : σ → E → Bool} (hTest : ∀ m e, test m e = true → ok m e)
    {p : Prog E R α} {m m' : σ} {answers : List A} {a : α}
    (h : p.exec M test m answers = some (a, m')) : Returns M ok p m a m' := by
  induction p generalizing m answers with
  | pure x =>
      cases answers with
      | nil =>
          cases h
          exact .pure .refl
      | cons ans rest => cases h
  | op e k ih =>
      cases answers with
      | nil => cases h
      | cons ans rest =>
          simp only [Prog.exec] at h
          split at h
          · rename_i hPass
            obtain ⟨⟨r, m₁⟩, hEff, hRest⟩ := Option.bind_eq_some_iff.mp h
            exact .op .refl (hTest m e hPass) hEff (ih r hRest)
          · cases h

/-! ## What a program ensures by itself -/

/-- The results of a program meet `Q` whatever its effects return within `may`. -/
def Prog.Ensures (may : (e : E) → R e → Prop) (Q : α → Prop) : Prog E R α → Prop
  | .pure a => Q a
  | .op e k => ∀ r, may e r → (k r).Ensures may Q

variable {may : (e : E) → R e → Prop}

theorem Prog.Ensures.mono {Q Q' : α → Prop} {p : Prog E R α} (h : p.Ensures may Q)
    (hImp : ∀ a, Q a → Q' a) : p.Ensures may Q' := by
  induction p with
  | pure a => exact hImp a h
  | op e k ih => exact fun r hr => ih r (h r hr)

theorem Prog.Ensures.bind {Q : α → Prop} {Q' : β → Prop} {p : Prog E R α}
    {f : α → Prog E R β} (h : p.Ensures may Q) (hNext : ∀ a, Q a → (f a).Ensures may Q') :
    (p >>= f).Ensures may Q' := by
  induction p with
  | pure a => exact hNext a h
  | op e k ih => exact fun r hr => ih r (h r hr)

theorem Prog.Ensures.and {Q Q' : α → Prop} {p : Prog E R α} (h : p.Ensures may Q)
    (h' : p.Ensures may Q') : p.Ensures may fun a => Q a ∧ Q' a := by
  induction p with
  | pure a => exact ⟨h, h'⟩
  | op e k ih => exact fun r hr => ih r (h r hr) (h' r hr)

theorem ensures_any (p : Prog E R α) : p.Ensures may fun _ => True := by
  induction p with
  | pure a => trivial
  | op e k ih => exact fun r _ => ih r

/-- On a machine whose effects return only what they may, and keep `P`. -/
theorem Prog.Ensures.safe {P : σ → Prop} {Q : α → Prop} {p : Prog E R α} {m : σ}
    (h : p.Ensures may Q) (hStable : M.Stable P)
    (hEff : ∀ m e a r m', P m → M.eff m e a = some (r, m') → may e r ∧ P m') (hP : P m) :
    Safe M ok (fun _ _ => True) (fun a m => P m ∧ Q a) p m := by
  induction p generalizing m with
  | pure a => exact Safe.pure hStable hP (fun _ _ => trivial) fun m' hm' => ⟨hm', h⟩
  | op e k ih =>
      refine Safe.op hStable hP (fun _ _ => trivial) fun m₁ a r m₂ hm₁ _ he => ?_
      obtain ⟨hMay, hm₂⟩ := hEff m₁ e a r m₂ hm₁ he
      exact ih r (h r hMay) hm₂

/-! ## Calls -/

/-- Callers run programs one at a time: `running` is the program of the call under
way, which computes the next value of `host`. -/
structure Calls (E : Type) (R : E → Type) (η σ : Type) where
  running : Option (Prog E R η) := none
  host : η
  machine : σ

/-- One step: a call begins, the running program performs its next effect, it
returns, or the machine moves. -/
inductive Act (C A B : Type) where
  | call (c : C)
  | effect (a : A)
  | ret
  | env (b : B)
  deriving Repr

variable {C η : Type}

/-- The effect performed next. -/
def Calls.next (s : Calls E R η σ) : Option E := s.running.bind Prog.next

def Calls.step (M : Machine E R A B σ) (prog : η → C → Option (Prog E R η))
    (s : Calls E R η σ) : Act C A B → Option (Calls E R η σ)
  | .call c =>
      match s.running with
      | none => (prog s.host c).map fun p => { s with running := some p }
      | some _ => none
  | .effect a =>
      match s.running with
      | some (.op e k) =>
          (M.eff s.machine e a).map fun rm =>
            { s with running := some (k rm.1), machine := rm.2 }
      | _ => none
  | .ret =>
      match s.running with
      | some (.pure h) => some { s with running := none, host := h }
      | _ => none
  | .env b => (M.env s.machine b).map fun m => { s with machine := m }

/-- Everything a step can do. -/
inductive Calls.Moves (M : Machine E R A B σ) (prog : η → C → Option (Prog E R η)) :
    Calls E R η σ → Act C A B → Calls E R η σ → Prop where
  | call {h : η} {m : σ} {c : C} {p : Prog E R η} (hProg : prog h c = some p) :
      Moves M prog ⟨none, h, m⟩ (.call c) ⟨some p, h, m⟩
  | effect {h : η} {m m' : σ} {e : E} {k : R e → Prog E R η} {a : A} {r : R e}
      (hEff : M.eff m e a = some (r, m')) :
      Moves M prog ⟨some (.op e k), h, m⟩ (.effect a) ⟨some (k r), h, m'⟩
  | ret {h h' : η} {m : σ} : Moves M prog ⟨some (.pure h'), h, m⟩ .ret ⟨none, h', m⟩
  | env {running : Option (Prog E R η)} {h : η} {m m' : σ} {b : B}
      (hEnv : M.env m b = some m') :
      Moves M prog ⟨running, h, m⟩ (.env b) ⟨running, h, m'⟩

theorem Calls.step_cases {prog : η → C → Option (Prog E R η)} {s s' : Calls E R η σ}
    {a : Act C A B} (h : s.step M prog a = some s') : Calls.Moves M prog s a s' := by
  obtain ⟨running, host, machine⟩ := s
  cases a with
  | call c =>
      cases running with
      | some p => simp [Calls.step] at h
      | none =>
          simp only [Calls.step, Option.map_eq_some_iff] at h
          obtain ⟨p, hProg, rfl⟩ := h
          exact .call hProg
  | effect a =>
      match running with
      | none => simp [Calls.step] at h
      | some (.pure x) => simp [Calls.step] at h
      | some (.op e k) =>
          simp only [Calls.step, Option.map_eq_some_iff] at h
          obtain ⟨⟨r, m'⟩, hEff, rfl⟩ := h
          exact .effect hEff
  | ret =>
      match running with
      | none => simp [Calls.step] at h
      | some (.op e k) => simp [Calls.step] at h
      | some (.pure x) =>
          simp only [Calls.step, Option.some.injEq] at h
          subst h
          exact .ret
  | env b =>
      simp only [Calls.step, Option.map_eq_some_iff] at h
      obtain ⟨m', hEnv, rfl⟩ := h
      exact .env hEnv

/-- The effects performed in the step are permitted. -/
def Calls.stepOk (ok : σ → E → Prop) (s : Calls E R η σ) : Act C A B → Prop
  | .effect _ => ∀ e, s.next = some e → ok s.machine e
  | _ => True

/-- An invariant for idle hosts that every call is safe from and comes back to. -/
structure Calls.Inductive (M : Machine E R A B σ) (ok : σ → E → Prop)
    (spec : Option E → σ → Prop) (prog : η → C → Option (Prog E R η))
    (J : η → σ → Prop) : Prop where
  stable : ∀ h, M.Stable (J h)
  spec_none : ∀ h m, J h m → spec none m
  safe : ∀ h m c p, J h m → prog h c = some p → Safe M ok spec J p m

variable {prog : η → C → Option (Prog E R η)} {J : η → σ → Prop}

private theorem Calls.Inductive.step_preserves
    (h : Calls.Inductive M ok spec prog J) {s s' : Calls E R η σ} {a : Act C A B}
    (hInv : ∀ p, s.running = some p → Safe M ok spec J p s.machine)
    (hIdle : s.running = none → J s.host s.machine)
    (hOk : s.stepOk ok a) (hStep : s.step M prog a = some s') :
    (∀ p, s'.running = some p → Safe M ok spec J p s'.machine) ∧
      (s'.running = none → J s'.host s'.machine) := by
  cases Calls.step_cases hStep with
  | call hProg =>
      refine ⟨fun p' hp' => ?_, nofun⟩
      obtain rfl := Option.some.inj hp'
      exact h.safe _ _ _ _ (hIdle rfl) hProg
  | effect hEff =>
      refine ⟨fun p' hp' => ?_, nofun⟩
      obtain rfl := Option.some.inj hp'
      exact (hInv _ rfl _ .refl).2 _ _ _ (hOk _ rfl) hEff
  | ret => exact ⟨nofun, fun _ => (hInv _ rfl _ .refl).2⟩
  | env hEnv =>
      refine ⟨fun p hp => ?_, fun hNone => h.stable _ _ _ _ (hIdle hNone) hEnv⟩
      exact (hInv p hp).reach (.single ⟨_, hEnv⟩)

/-- The invariant holds whenever the host is idle, and `spec` holds always. -/
theorem Calls.Inductive.of_run (h : Calls.Inductive M ok spec prog J)
    {s₀ s : Calls E R η σ} {as : List (Act C A B)} (hIdle : s₀.running = none)
    (hInit : J s₀.host s₀.machine)
    (hRun : Run (Calls.step M prog) (Calls.stepOk ok) s₀ as s) :
    spec s.next s.machine ∧ (s.running = none → J s.host s.machine) := by
  have hInv : (∀ p, s.running = some p → Safe M ok spec J p s.machine) ∧
      (s.running = none → J s.host s.machine) := by
    refine hRun.invariant (I := fun s =>
      (∀ p, s.running = some p → Safe M ok spec J p s.machine) ∧
        (s.running = none → J s.host s.machine)) ?_ ?_
    · exact ⟨fun p hp => (by rw [hIdle] at hp; cases hp), fun _ => hInit⟩
    · exact fun s a s' hs hOk hStep => h.step_preserves hs.1 hs.2 hOk hStep
  refine ⟨?_, hInv.2⟩
  cases hRunning : s.running with
  | none =>
      rw [Calls.next, hRunning]
      exact h.spec_none _ _ (hInv.2 hRunning)
  | some p =>
      rw [Calls.next, hRunning]
      exact (hInv.1 p hRunning).spec_next

/-- The call that begins in the step, if one does. -/
def Act.called : Act C A B → Option C
  | .call c => some c
  | _ => none

/-- An assertion about a host and the calls that led to it, which every call ensures of what
it computes, holds whenever the host is idle; until then the running program ensures it. -/
theorem Calls.history {ok : Calls E R η σ → Act C A B → Prop} {K : List C → η → Prop}
    (hMay : ∀ m e a r m', M.eff m e a = some (r, m') → may e r)
    (hCall : ∀ cs h c p, K cs h → prog h c = some p → p.Ensures may (K (cs ++ [c])))
    {s₀ s : Calls E R η σ} {as : List (Act C A B)} (hIdle : s₀.running = none)
    (hInit : K [] s₀.host) (hRun : Run (Calls.step M prog) ok s₀ as s) :
    (s.running = none → K (as.filterMap Act.called) s.host) ∧
      ∀ p, s.running = some p → p.Ensures may (K (as.filterMap Act.called)) := by
  refine hRun.history (I := fun as s => (s.running = none → K (as.filterMap Act.called) s.host) ∧
    ∀ p, s.running = some p → p.Ensures may (K (as.filterMap Act.called))) ?_ ?_
  · exact ⟨fun _ => hInit, fun p hp => (by rw [hIdle] at hp; cases hp)⟩
  · intro as s a s' h _ hStep
    rw [List.filterMap_append]
    cases Calls.step_cases hStep with
    | call hProg =>
        refine ⟨nofun, fun p hp => ?_⟩
        obtain rfl := Option.some.inj hp
        exact hCall _ _ _ _ (h.1 rfl) hProg
    | effect hEff =>
        refine ⟨nofun, fun p hp => ?_⟩
        obtain rfl := Option.some.inj hp
        rw [show [Act.effect _].filterMap Act.called = ([] : List C) from rfl, List.append_nil]
        exact h.2 _ rfl _ (hMay _ _ _ _ _ hEff)
    | ret =>
        rw [show [Act.ret].filterMap Act.called = ([] : List C) from rfl, List.append_nil]
        exact ⟨fun _ => h.2 _ rfl, nofun⟩
    | env hEnv =>
        rw [show [Act.env _].filterMap Act.called = ([] : List C) from rfl, List.append_nil]
        exact h

/-- Where every effect has a result, a call under way can be brought to its end. -/
theorem Calls.finish {ok : Calls E R η σ → Act C A B → Prop}
    (hTotal : ∀ m e, ∃ a r m', M.eff m e a = some (r, m'))
    (hEffect : ∀ s a, ok s (.effect a)) (hRet : ∀ s, ok s .ret) {s₀ s : Calls E R η σ}
    {as : List (Act C A B)} {p : Prog E R η} (hRun : Run (Calls.step M prog) ok s₀ as s)
    (hRunning : s.running = some p) :
    ∃ as' s', Run (Calls.step M prog) ok s₀ as' s' ∧ s'.running = none := by
  induction p generalizing as s with
  | pure h =>
      refine ⟨_, { s with running := none, host := h }, hRun.snoc (hRet s) ?_, rfl⟩
      rw [Calls.step, hRunning]
  | op e k ih =>
      obtain ⟨a, r, m', hEff⟩ := hTotal s.machine e
      refine ih r (s := { s with running := some (k r), machine := m' })
        (hRun.snoc (hEffect s a) ?_) rfl
      simp only [Calls.step, hRunning, hEff, Option.map_some]

end NewPerf.Lib.Programs
