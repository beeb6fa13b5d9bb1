import NewPerf.Engine.RefCount

/-!
# When a job that was set up can start

The controller is created by `nvme_setup` but counted only from `nvme_init` on.
A job between the two holds no reference, so the controller it was set up with
goes away when the others come to an end first.  `canStart_iff` says which runs
are spared: those in which the count is never brought to zero while a job waits
for its `nvme_init`.
-/

namespace NewPerf.Engine.Jobs

open NewPerf.Lib.Runs

variable {ι : Type} [DecidableEq ι] [Fintype ι]

/-- Every job runs `nvme_setup`, then `nvme_init`, then `nvme_cleanup`. -/
def Ordered (s : State ι) : Act ι → Prop
  | .setup j _ _ => s.phase j = .fresh
  | .size _ _ => True
  | .init j _ _ => s.phase j = .ready
  | .cleanup j => s.phase j = .running ∨ s.phase j = .failed

/-- Every job that was set up and waits for its `nvme_init` would find an
initialised controller. -/
def CanStart (s : State ι) : Prop :=
  ∀ j, s.phase j = .ready → ∃ a, s.gCtrl = some a ∧ Live s.heap a

/-- The job whose callback the step belongs to. -/
def Act.job : Act ι → ι
  | .setup j _ _ => j
  | .size j _ => j
  | .init j _ _ => j
  | .cleanup j => j

/-- The step brings the count to zero: the `nvme_cleanup` of the only thread
attached, or an `nvme_init` that gets as far as `create_io_queue_pair` with no
other thread attached and fails there. -/
def EndsLast (opts : ι → JobOptions) (s : State ι) : Act ι → Prop
  | .init j alloc created =>
      (opts j).useThread = true ∧ (opts j).nrFiles ≤ 1 ∧ alloc = true ∧
        created = false ∧ s.gCtrl ≠ none ∧ s.currThreadNum = 0
  | .cleanup j => (s.ioOpsData j).isSome = true ∧ s.currThreadNum = 1
  | .setup .. | .size .. => False

/-- The count is not brought to zero while another job waits for its
`nvme_init`. -/
def KeepsWaiting (opts : ι → JobOptions) (s : State ι) (a : Act ι) : Prop :=
  EndsLast opts s a → ∀ i, i ≠ a.job → s.phase i ≠ .ready

instance (s : State ι) (a : Act ι) : Decidable (Ordered s a) :=
  match a with
  | .setup j _ _ => inferInstanceAs (Decidable (s.phase j = .fresh))
  | .size _ _ => inferInstanceAs (Decidable True)
  | .init j _ _ => inferInstanceAs (Decidable (s.phase j = .ready))
  | .cleanup j =>
      inferInstanceAs (Decidable (s.phase j = .running ∨ s.phase j = .failed))

instance (opts : ι → JobOptions) (s : State ι) (a : Act ι) :
    Decidable (EndsLast opts s a) :=
  match a with
  | .init .. => inferInstanceAs (Decidable (_ ∧ _ ∧ _ ∧ _ ∧ _ ∧ _))
  | .cleanup _ => inferInstanceAs (Decidable (_ ∧ _))
  | .setup .. | .size .. => inferInstanceAs (Decidable False)

instance (opts : ι → JobOptions) (s : State ι) (a : Act ι) :
    Decidable (KeepsWaiting opts s a) :=
  inferInstanceAs (Decidable (_ → ∀ i, i ≠ _ → _))

/-! ## One step -/

section Step

variable {opts : ι → JobOptions} {s s' : State ι} {a : Act ι}

omit [DecidableEq ι] [Fintype ι] in
private theorem phase_dropThread (s : State ι) : s.dropThread.phase = s.phase := by
  unfold State.dropThread
  dsimp only
  split
  · simp only [State.freeCtrl, State.controllerDeinit, State.modifyCtrl]
    cases s.gCtrl <;> rfl
  · rfl

omit [DecidableEq ι] [Fintype ι] in
private theorem gCtrl_dropThread (s : State ι) :
    s.dropThread.gCtrl = if s.currThreadNum = 1 then none else s.gCtrl := by
  by_cases hLast : s.currThreadNum = 1
  · rw [if_pos hLast, State.dropThread, if_pos (by dsimp only; omega)]
    rfl
  · rw [if_neg hLast, State.dropThread, if_neg (by dsimp only; omega)]

omit [DecidableEq ι] [Fintype ι] in
private theorem phase_nvmeSetup (o : JobOptions) (s : State ι) (parsed inited : Bool) :
    (nvmeSetup o s parsed inited).1.phase = s.phase := by
  unfold nvmeSetup
  split
  · rfl
  split
  · split
    · rfl
    split <;> rfl
  · rfl

omit [DecidableEq ι] [Fintype ι] in
/-- `nvme_setup` never takes a controller away, and goes on only with one. -/
private theorem gCtrl_nvmeSetup (o : JobOptions) (s : State ι) (parsed inited : Bool) :
    (∀ a, s.gCtrl = some a → (nvmeSetup o s parsed inited).1.gCtrl = some a) ∧
      ((nvmeSetup o s parsed inited).2 = true →
        (nvmeSetup o s parsed inited).1.gCtrl ≠ none) := by
  unfold nvmeSetup
  split
  · exact ⟨fun _ h => h, by simp⟩
  split
  · rename_i hNone
    refine ⟨fun a hSome => absurd (hNone.symm.trans hSome) (by simp), ?_⟩
    split
    · simp
    split
    · simp
    · simp [State.allocCtrl, State.controllerInit, State.modifyCtrl]
  · rename_i hSome
    exact ⟨fun _ h => h, fun _ => hSome⟩

omit [Fintype ι] in
private theorem phase_nvmeInit (o : JobOptions) (s : State ι) (j : ι)
    (alloc created : Bool) : (nvmeInit o s j alloc created).1.phase = s.phase := by
  unfold nvmeInit
  split
  · rfl
  split
  · rfl
  split
  · rfl
  split
  · rfl
  · dsimp only
    split
    · exact phase_dropThread _
    · rfl

omit [Fintype ι] in
/-- `nvme_init` takes the controller away exactly when it ends the last thread. -/
private theorem gCtrl_nvmeInit (opts : ι → JobOptions) (s : State ι) (j : ι)
    (alloc created : Bool) :
    (EndsLast opts s (.init j alloc created) →
        (nvmeInit (opts j) s j alloc created).1.gCtrl = none) ∧
      (¬ EndsLast opts s (.init j alloc created) →
        (nvmeInit (opts j) s j alloc created).1.gCtrl = s.gCtrl) := by
  constructor
  · rintro ⟨hThread, hFiles, hAlloc, hCreated, hCtrl, hZero⟩
    obtain ⟨ctrl, hCtrl⟩ := Option.ne_none_iff_exists'.mp hCtrl
    simp only [nvmeInit, hThread, hAlloc, hCreated, hCtrl, Bool.not_true,
      Bool.not_false, Bool.false_eq_true, if_false, if_true, Nat.not_lt.mpr hFiles,
      State.detach, gCtrl_dropThread]
    rw [if_pos (by omega)]
  · intro hNot
    unfold nvmeInit
    split
    · rfl
    split
    · rfl
    split
    · rfl
    rename_i hThread hFiles hAlloc
    split
    · rfl
    · rename_i ctrl hCtrl
      dsimp only
      split
      · rename_i hCreated
        simp only [State.detach, gCtrl_dropThread]
        rw [if_neg fun hOne => hNot ⟨by simpa using hThread, by omega,
          by simpa using hAlloc, by simpa using hCreated, by simp [hCtrl], by omega⟩]
      · rfl

omit [Fintype ι] in
private theorem phase_nvmeCleanup (s : State ι) (j : ι) :
    (nvmeCleanup s j).phase = s.phase := by
  unfold nvmeCleanup
  split
  · rfl
  · exact phase_dropThread s

omit [Fintype ι] in
/-- So does `nvme_cleanup`. -/
private theorem gCtrl_nvmeCleanup (opts : ι → JobOptions) (s : State ι) (j : ι) :
    (EndsLast opts s (.cleanup j) → (nvmeCleanup s j).gCtrl = none) ∧
      (¬ EndsLast opts s (.cleanup j) → (nvmeCleanup s j).gCtrl = s.gCtrl) := by
  constructor
  · rintro ⟨hSome, hOne⟩
    obtain ⟨d, hData⟩ := Option.isSome_iff_exists.mp hSome
    simp only [nvmeCleanup, hData, State.detach, gCtrl_dropThread]
    rw [if_pos hOne]
  · intro hNot
    unfold nvmeCleanup
    split
    · rfl
    · rename_i d hData
      simp only [State.detach, gCtrl_dropThread]
      rw [if_neg fun hOne => hNot ⟨by rw [hData]; rfl, hOne⟩]

omit [Fintype ι] in
/-- A step that ends the last thread takes the controller away. -/
private theorem gCtrl_of_endsLast (hStep : step opts s a = some s')
    (hEnds : EndsLast opts s a) : s'.gCtrl = none := by
  cases a with
  | setup j parsed inited => exact hEnds.elim
  | size j size => exact hEnds.elim
  | init j alloc created =>
      simp only [step] at hStep
      split at hStep
      · cases hStep
        exact (gCtrl_nvmeInit opts s j alloc created).1 hEnds
      · cases hStep
  | cleanup j =>
      cases hStep
      exact (gCtrl_nvmeCleanup opts s j).1 hEnds

omit [Fintype ι] in
/-- No other step does. -/
private theorem gCtrl_of_not_endsLast (hStep : step opts s a = some s')
    (hNot : ¬ EndsLast opts s a) {ctrl : Nat} (hCtrl : s.gCtrl = some ctrl) :
    s'.gCtrl = some ctrl := by
  cases a with
  | setup j parsed inited =>
      cases hStep
      exact (gCtrl_nvmeSetup (opts j) s parsed inited).1 ctrl hCtrl
  | size j size =>
      simp only [step] at hStep
      split at hStep
      · cases hStep
        exact hCtrl
      · cases hStep
        exact hCtrl
  | init j alloc created =>
      simp only [step] at hStep
      split at hStep
      · cases hStep
        exact ((gCtrl_nvmeInit opts s j alloc created).2 hNot).trans hCtrl
      · cases hStep
  | cleanup j =>
      cases hStep
      exact ((gCtrl_nvmeCleanup opts s j).2 hNot).trans hCtrl

omit [Fintype ι] in
private theorem phase_setPhase_of_ne (s : State ι) (p : Phase) {i j : ι}
    (hne : i ≠ j) : (s.setPhase j p).phase i = s.phase i :=
  Function.update_of_ne hne _ _

omit [Fintype ι] in
/-- A step moves only its own job. -/
private theorem phase_of_ne (hStep : step opts s a = some s') {i : ι}
    (hne : i ≠ a.job) : s'.phase i = s.phase i := by
  cases a with
  | setup j parsed inited =>
      simp only [step, Option.some.injEq] at hStep
      rw [← hStep, phase_setPhase_of_ne _ _ (j := j) hne, phase_nvmeSetup]
  | size j size =>
      simp only [step] at hStep
      split at hStep
      · cases hStep
        exact phase_setPhase_of_ne _ _ hne
      · cases hStep
        rfl
  | init j alloc created =>
      simp only [step] at hStep
      split at hStep
      · simp only [Option.some.injEq] at hStep
        rw [← hStep, phase_setPhase_of_ne _ _ (j := j) hne, phase_nvmeInit]
      · cases hStep
  | cleanup j =>
      simp only [step, Option.some.injEq] at hStep
      rw [← hStep, phase_setPhase_of_ne _ _ (j := j) hne, phase_nvmeCleanup]

omit [Fintype ι] in
/-- A job becomes ready only with a controller in place. -/
private theorem gCtrl_of_ready (hStep : step opts s a = some s')
    (hReady : s'.phase a.job = .ready) : s'.gCtrl ≠ none ∨ s' = s := by
  cases a with
  | setup j parsed inited =>
      simp only [step, Option.some.injEq] at hStep
      rw [← hStep] at hReady ⊢
      simp only [State.setPhase, Act.job, Function.update_self] at hReady
      split at hReady
      · cases hReady
      · rename_i hOk
        exact Or.inl ((gCtrl_nvmeSetup (opts j) s parsed inited).2 (by simpa using hOk))
  | size j size =>
      simp only [step] at hStep
      split at hStep
      · simp only [Option.some.injEq] at hStep
        rw [← hStep] at hReady ⊢
        simp only [State.setPhase, Act.job, Function.update_self] at hReady
        split at hReady
        · rename_i hSize
          refine Or.inl fun hNone => ?_
          simp only [State.setPhase] at hNone
          simp [nvmeSize, hNone] at hSize
        · cases hReady
      · cases hStep
        exact Or.inr rfl
  | init j alloc created =>
      simp only [step] at hStep
      split at hStep
      · simp only [Option.some.injEq] at hStep
        rw [← hStep] at hReady
        simp only [State.setPhase, Act.job, Function.update_self] at hReady
        split at hReady <;> cases hReady
      · cases hStep
  | cleanup j =>
      simp only [step, Option.some.injEq] at hStep
      rw [← hStep] at hReady
      simp only [State.setPhase, Act.job, Function.update_self] at hReady
      cases hReady

/-- One step: given that every waiting job can start, they still can afterwards
exactly when the step keeps the controller for them. -/
private theorem canStart_step_iff (h : CoreInv s.toCore) (hCan : CanStart s)
    (hStep : step opts s a = some s') : CanStart s' ↔ KeepsWaiting opts s a := by
  have h' := h.effect (step_effect hStep)
  constructor
  · intro hCan' hEnds i hne hReady
    obtain ⟨ctrl, hCtrl, -⟩ := hCan' i (by rw [phase_of_ne hStep hne]; exact hReady)
    rw [gCtrl_of_endsLast hStep hEnds] at hCtrl
    cases hCtrl
  · intro hKeeps i hReady
    -- It is enough to find a controller; the invariant says that it is live.
    suffices hSome : s'.gCtrl ≠ none by
      obtain ⟨ctrl, hCtrl⟩ := Option.ne_none_iff_exists'.mp hSome
      exact ⟨ctrl, hCtrl, h'.live ctrl hCtrl⟩
    by_cases hJob : i = a.job
    · subst hJob
      rcases gCtrl_of_ready hStep hReady with hSome | hSame
      · exact hSome
      · subst hSame
        obtain ⟨ctrl, hCtrl, -⟩ := hCan a.job hReady
        rw [hCtrl]
        exact Option.some_ne_none _
    · rw [phase_of_ne hStep hJob] at hReady
      obtain ⟨ctrl, hCtrl, -⟩ := hCan i hReady
      rw [gCtrl_of_not_endsLast hStep (fun hEnds => hKeeps hEnds i hJob hReady) hCtrl]
      exact Option.some_ne_none _

end Step

/-! ## Whole runs -/

/-- The runs all of whose states leave every waiting job a controller to start
with are the runs that never bring the count to zero while a job waits. -/
theorem canStart_iff {opts : ι → JobOptions} {as : List (Act ι)} {s : State ι} :
    Run (step opts)
        (fun s a => Ordered s a ∧ ∀ s', step opts s a = some s' → CanStart s')
        start as s ↔
      Run (step opts) (fun s a => Ordered s a ∧ KeepsWaiting opts s a) start as s := by
  refine Run.iff_of_invariant
    (I := fun s => CoreInv s.toCore ∧ CanStart s)
    ⟨coreInv_start, fun j hReady => by simp [start] at hReady⟩ ?_ ?_
  · rintro s a s' ⟨h, -⟩ ⟨-, hCan'⟩ hStep
    exact ⟨h.effect (step_effect hStep), hCan' s' hStep⟩
  · rintro s a s' ⟨h, hCan⟩ hStep
    constructor
    · rintro ⟨hOrd, hCan'⟩
      exact ⟨hOrd, (canStart_step_iff h hCan hStep).mp (hCan' s' hStep)⟩
    · rintro ⟨hOrd, hKeeps⟩
      exact ⟨hOrd, fun s' hStep => (canStart_step_iff h hCan hStep).mpr hKeeps⟩

/-- The first of two jobs ends before the second one starts. -/
def serial : List (Act Bool) :=
  [.setup true true true, .size true 512, .setup false true true, .size false 512,
    .init true true true, .cleanup true]

/-- The second job was set up, and its `nvme_init` finds no controller. -/
theorem canStart_serial_false :
    ∃ s, Run (step fun _ => {}) Ordered start serial s ∧
      s.phase false = .ready ∧ s.gCtrl = none ∧ ¬ CanStart s ∧
      ∀ alloc created, (nvmeInit {} s false alloc created).2 = false := by
  obtain ⟨s, hExec, hReady, hNone⟩ : ∃ s, exec (step fun _ => {})
      (fun s a => decide (Ordered s a)) start serial = some s ∧
      s.phase false = .ready ∧ s.gCtrl = none := ⟨_, rfl, rfl, rfl⟩
  refine ⟨s, Run.of_exec (fun _ _ => of_decide_eq_true) hExec, hReady, hNone,
    fun hCan => ?_, fun alloc created => ?_⟩
  · obtain ⟨ctrl, hCtrl, -⟩ := hCan false hReady
    rw [hNone] at hCtrl
    cases hCtrl
  · simp [nvmeInit, hNone]


end NewPerf.Engine.Jobs
