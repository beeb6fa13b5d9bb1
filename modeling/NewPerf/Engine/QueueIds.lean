import NewPerf.Engine.JobStart
import NewPerf.Tools.IoQueue

/-!
# Which queue id the next job gets

`nvme_init` takes its queue id from `next_io_qid`, which only ever counts up and
starts again at 1 when the last thread leaves.  An id is not given back by the
`nvme_cleanup` of its thread, nor by an `nvme_init` that fails.  `Counted` runs the
jobs together with the number of ids taken since the counter was last set to 1;
`freshQid_of_run` says that the next id is in range and unused as long as this number
is below the number of ids the controller supports, and that it is out of range from
then on until the counter wraps.
-/

namespace NewPerf.Engine.Jobs

open NewPerf.Lib.Runs
open NewPerf.Tools (nvmeIoQid NvmeData)

variable {ι : Type} [DecidableEq ι]

/-- `nvme_io_qid` of a thread whose `io_qid` is `q`. -/
def effectiveQid (q : UInt16) : UInt16 := nvmeIoQid { ioQid := q }

/-- The next `nvme_init` uses an id in `1..maxQid` that no attached thread has. -/
structure FreshQid (maxQid : Nat) (s : State ι) : Prop where
  pos : 1 ≤ (effectiveQid s.nextIoQid).toNat
  le : (effectiveQid s.nextIoQid).toNat ≤ maxQid
  unused : ∀ j d, s.ioOpsData j = some d →
    effectiveQid d.ioQid ≠ effectiveQid s.nextIoQid

/-- The step takes an id: an `nvme_init` that gets as far as `next_io_qid++`. -/
def TakesId (opts : ι → JobOptions) (s : State ι) : Act ι → Prop
  | .init j alloc _ => (opts j).useThread = true ∧ (opts j).nrFiles ≤ 1 ∧ alloc = true ∧
      s.gCtrl ≠ none
  | .setup .. | .size .. | .cleanup _ => False

instance (opts : ι → JobOptions) (s : State ι) (a : Act ι) : Decidable (TakesId opts s a) :=
  match a with
  | .init .. => inferInstanceAs (Decidable (_ ∧ _ ∧ _ ∧ _))
  | .setup .. | .size .. | .cleanup _ => inferInstanceAs (Decidable False)

/-- The jobs, and how many ids have been taken since `next_io_qid` was last 1. -/
structure Counted (ι : Type) where
  jobs : State ι
  taken : Nat := 0

def countedStep (opts : ι → JobOptions) (s : Counted ι) (a : Act ι) :
    Option (Counted ι) :=
  (step opts s.jobs a).map fun jobs =>
    { jobs
      taken := if EndsLast opts s.jobs a then 0
        else if TakesId opts s.jobs a then s.taken + 1 else s.taken }

/-! ## What a step does to the ids -/

/-- Every effect a step can have on the ids. -/
inductive IdEffect (s s' : Counted ι) : Prop where
  | keep (hData : s'.jobs.ioOpsData = s.jobs.ioOpsData)
      (hNext : s'.jobs.nextIoQid = s.jobs.nextIoQid) (hTaken : s'.taken = s.taken)
  | attach (j : ι) (d : Attachment) (hId : d.ioQid = s.jobs.nextIoQid)
      (hData : s'.jobs.ioOpsData = Function.update s.jobs.ioOpsData j (some d))
      (hNext : s'.jobs.nextIoQid = s.jobs.nextIoQid + 1) (hTaken : s'.taken = s.taken + 1)
  | wasted (hData : s'.jobs.ioOpsData = s.jobs.ioOpsData)
      (hNext : s'.jobs.nextIoQid = s.jobs.nextIoQid + 1) (hTaken : s'.taken = s.taken + 1)
  | detach (j : ι) (hData : s'.jobs.ioOpsData = Function.update s.jobs.ioOpsData j none)
      (hNext : s'.jobs.nextIoQid = s.jobs.nextIoQid) (hTaken : s'.taken = s.taken)
  | reset (hData : ∀ j, s'.jobs.ioOpsData j = none) (hNext : s'.jobs.nextIoQid = 1)
      (hTaken : s'.taken = 0)

section Step

variable {opts : ι → JobOptions} {s s' : Counted ι} {a : Act ι}

omit [DecidableEq ι] in
private theorem ids_nvmeSetup (o : JobOptions) (s : State ι) (parsed inited : Bool) :
    (nvmeSetup o s parsed inited).1.ioOpsData = s.ioOpsData ∧
      (nvmeSetup o s parsed inited).1.nextIoQid = s.nextIoQid := by
  unfold nvmeSetup
  split
  · exact ⟨rfl, rfl⟩
  split
  · split
    · exact ⟨rfl, rfl⟩
    split <;> exact ⟨rfl, rfl⟩
  · exact ⟨rfl, rfl⟩

omit [DecidableEq ι] in
private theorem ids_dropThread (s : State ι) :
    s.dropThread.ioOpsData = s.ioOpsData ∧
      s.dropThread.nextIoQid = if s.currThreadNum = 1 then 1 else s.nextIoQid := by
  by_cases hLast : s.currThreadNum = 1
  · rw [if_pos hLast, State.dropThread, if_pos (by dsimp only; omega)]
    refine ⟨?_, rfl⟩
    simp only [State.freeCtrl, State.controllerDeinit, State.modifyCtrl]
    cases s.gCtrl <;> rfl
  · rw [if_neg hLast, State.dropThread, if_neg (by dsimp only; omega)]
    exact ⟨rfl, rfl⟩

variable [Fintype ι]

private theorem idEffect_init {j : ι} {alloc created : Bool} (h : CoreInv s.jobs.toCore)
    (hFree : s.jobs.ioOpsData j = none)
    (hJobs : s'.jobs.ioOpsData =
      (nvmeInit (opts j) s.jobs j alloc created).1.ioOpsData)
    (hNext : s'.jobs.nextIoQid = (nvmeInit (opts j) s.jobs j alloc created).1.nextIoQid)
    (hTaken : s'.taken = if EndsLast opts s.jobs (.init j alloc created) then 0
      else if TakesId opts s.jobs (.init j alloc created) then s.taken + 1 else s.taken) :
    IdEffect s s' := by
  have hUndo : ∀ d, Function.update (Function.update s.jobs.ioOpsData j d) j none =
      s.jobs.ioOpsData := fun d => by
    rw [Function.update_idem, ← hFree, Function.update_eq_self]
  by_cases hTakes : TakesId opts s.jobs (.init j alloc created)
  · obtain ⟨hThread, hFiles, hAlloc, hCtrl⟩ := hTakes
    obtain ⟨ctrl, hCtrl⟩ := Option.ne_none_iff_exists'.mp hCtrl
    simp only [nvmeInit, hThread, hAlloc, hCtrl, Bool.not_true, Bool.false_eq_true, if_false,
      Nat.not_lt.mpr hFiles] at hJobs hNext
    cases created with
    | true =>
        simp only [Bool.not_true, Bool.false_eq_true, if_false] at hJobs hNext
        rw [if_neg fun hEnds => Bool.noConfusion hEnds.2.2.2.1,
          if_pos ⟨hThread, hFiles, hAlloc, by simp [hCtrl]⟩] at hTaken
        exact .attach j _ rfl hJobs hNext hTaken
    | false =>
        simp only [Bool.not_false, if_true, State.detach, ids_dropThread, hUndo]
          at hJobs hNext
        by_cases hZero : s.jobs.currThreadNum = 0
        · rw [if_pos ⟨hThread, hFiles, hAlloc, rfl, by simp [hCtrl], hZero⟩] at hTaken
          rw [if_pos (by omega)] at hNext
          refine .reset (fun i => ?_) hNext hTaken
          rw [hJobs]
          exact h.none_of_zero hZero i
        · rw [if_neg fun hEnds => hZero hEnds.2.2.2.2.2,
            if_pos ⟨hThread, hFiles, hAlloc, by simp [hCtrl]⟩] at hTaken
          rw [if_neg (by omega)] at hNext
          exact .wasted hJobs hNext hTaken
  · have hSame : (nvmeInit (opts j) s.jobs j alloc created).1 = s.jobs := by
      unfold nvmeInit
      split
      · rfl
      split
      · rfl
      split
      · rfl
      rename_i hThread hFiles hAlloc
      split
      · rfl
      · rename_i ctrl hCtrl
        exact absurd ⟨by simpa using hThread, by omega, by simpa using hAlloc,
          by simp [hCtrl]⟩ hTakes
    rw [hSame] at hJobs hNext
    rw [if_neg fun hEnds => hTakes ⟨hEnds.1, hEnds.2.1, hEnds.2.2.1, hEnds.2.2.2.2.1⟩,
      if_neg hTakes] at hTaken
    exact .keep hJobs hNext hTaken

private theorem idEffect_cleanup (opts : ι → JobOptions) {j : ι}
    (h : CoreInv s.jobs.toCore)
    (hJobs : s'.jobs.ioOpsData = (nvmeCleanup s.jobs j).ioOpsData)
    (hNext : s'.jobs.nextIoQid = (nvmeCleanup s.jobs j).nextIoQid)
    (hTaken : s'.taken = if EndsLast opts s.jobs (.cleanup j) then 0 else s.taken) :
    IdEffect s s' := by
  cases hData : s.jobs.ioOpsData j with
  | none =>
      simp only [nvmeCleanup, hData] at hJobs hNext
      rw [if_neg fun hEnds => by simp [hData, EndsLast] at hEnds] at hTaken
      exact .keep hJobs hNext hTaken
  | some d =>
      simp only [nvmeCleanup, hData, State.detach, ids_dropThread] at hJobs hNext
      by_cases hOne : s.jobs.currThreadNum = 1
      · rw [if_pos ⟨by simp [hData], hOne⟩] at hTaken
        rw [if_pos hOne] at hNext
        refine .reset (fun i => ?_) hNext hTaken
        rw [hJobs]
        exact h.none_of_one hOne hData i
      · rw [if_neg fun hEnds => hOne hEnds.2] at hTaken
        rw [if_neg hOne] at hNext
        exact .detach j hJobs hNext hTaken

theorem countedStep_effect (h : CoreInv s.jobs.toCore)
    (hStep : countedStep opts s a = some s') : IdEffect s s' := by
  obtain ⟨jobs, hJobs, rfl⟩ := Option.map_eq_some_iff.mp hStep
  cases a with
  | setup j parsed inited =>
      simp only [step, Option.some.injEq] at hJobs
      obtain ⟨hData, hNext⟩ := ids_nvmeSetup (opts j) s.jobs parsed inited
      rw [← hJobs]
      exact .keep hData hNext rfl
  | size j size =>
      simp only [step] at hJobs
      split at hJobs
      · cases hJobs
        exact .keep rfl rfl rfl
      · cases hJobs
        exact .keep rfl rfl rfl
  | init j alloc created =>
      simp only [step] at hJobs
      split at hJobs
      · rename_i hFree
        cases hJobs
        exact idEffect_init h hFree rfl rfl rfl
      · cases hJobs
  | cleanup j =>
      simp only [step, Option.some.injEq] at hJobs
      subst hJobs
      exact idEffect_cleanup opts h rfl rfl rfl

end Step

/-! ## Every run -/

/-- The counter and the ids in use follow the number of ids taken. -/
structure IdInv (s : Counted ι) : Prop where
  next : s.jobs.nextIoQid = UInt16.ofNat (s.taken + 1)
  used : ∀ j d, s.jobs.ioOpsData j = some d →
    ∃ i, 1 ≤ i ∧ i ≤ s.taken ∧ d.ioQid = UInt16.ofNat i

omit [DecidableEq ι] in
theorem IdInv.mono {s s' : Counted ι} (h : IdInv s)
    (hNext : s'.jobs.nextIoQid = UInt16.ofNat (s'.taken + 1)) (hTaken : s.taken ≤ s'.taken)
    (hData : ∀ j d, s'.jobs.ioOpsData j = some d → s.jobs.ioOpsData j = some d) :
    IdInv s' := by
  refine ⟨hNext, fun j d hj => ?_⟩
  obtain ⟨i, hPos, hLe, hId⟩ := h.used j d (hData j d hj)
  exact ⟨i, hPos, Nat.le_trans hLe hTaken, hId⟩

theorem IdInv.effect {s s' : Counted ι} (h : IdInv s) (hEff : IdEffect s s') :
    IdInv s' := by
  have hSucc : s.jobs.nextIoQid + 1 = UInt16.ofNat (s.taken + 1 + 1) := by
    rw [h.next, UInt16.ofNat_add (s.taken + 1) 1]
    rfl
  cases hEff with
  | keep hData hNext hTaken =>
      refine h.mono ?_ (Nat.le_of_eq hTaken.symm) fun j d hj => ?_
      · rw [hNext, hTaken, h.next]
      · rwa [hData] at hj
  | wasted hData hNext hTaken =>
      refine h.mono ?_ (by omega) fun j d hj => ?_
      · rw [hNext, hTaken, hSucc]
      · rwa [hData] at hj
  | detach k hData hNext hTaken =>
      refine h.mono ?_ (Nat.le_of_eq hTaken.symm) fun j d hj => ?_
      · rw [hNext, hTaken, h.next]
      · rw [hData] at hj
        by_cases hk : j = k
        · rw [hk, Function.update_self] at hj
          cases hj
        · rwa [Function.update_of_ne hk] at hj
  | reset hData hNext hTaken =>
      refine ⟨?_, fun j d hj => ?_⟩
      · rw [hNext, hTaken]
        rfl
      · rw [hData j] at hj
        cases hj
  | attach k e hId hData hNext hTaken =>
      refine ⟨by rw [hNext, hTaken, hSucc], fun j d hj => ?_⟩
      rw [hData] at hj
      by_cases hk : j = k
      · rw [hk, Function.update_self, Option.some.injEq] at hj
        refine ⟨s.taken + 1, by omega, by omega, ?_⟩
        rw [← hj, hId, h.next]
      · rw [Function.update_of_ne hk] at hj
        obtain ⟨i, hPos, hLe, hOld⟩ := h.used j d hj
        exact ⟨i, hPos, by omega, hOld⟩

/-- Below the wrap of the counter no id is remapped. -/
theorem toNat_effectiveQid {i : Nat} (hPos : 1 ≤ i) (hLt : i < 65536) :
    (effectiveQid (UInt16.ofNat i)).toNat = i := by
  have hNat : (UInt16.ofNat i).toNat = i := by
    rw [UInt16.toNat_ofNat', Nat.mod_eq_of_lt hLt]
  have hne : UInt16.ofNat i ≠ 0 := by
    intro hZero
    rw [hZero] at hNat
    exact absurd hNat (by simp; omega)
  rw [effectiveQid, nvmeIoQid]
  simp only [hne, ne_eq, not_false_eq_true, if_true]
  exact hNat

omit [DecidableEq ι] in
theorem IdInv.freshQid {s : Counted ι} {maxQid : Nat} (h : IdInv s)
    (hMax : maxQid ≤ 65535) (hTaken : s.taken < maxQid) : FreshQid maxQid s.jobs := by
  have hNext : (effectiveQid s.jobs.nextIoQid).toNat = s.taken + 1 := by
    rw [h.next, toNat_effectiveQid (by omega) (by omega)]
  refine ⟨by omega, by omega, fun j d hj hEq => ?_⟩
  obtain ⟨i, hPos, hLe, hId⟩ := h.used j d hj
  have hOld : (effectiveQid d.ioQid).toNat = i := by
    rw [hId, toNat_effectiveQid hPos (by omega)]
  rw [hEq] at hOld
  omega

variable [Fintype ι]

/-- In every run the next `nvme_init` uses an id in `1..maxQid` that no attached thread
has, as long as fewer than `maxQid` ids were taken since the counter was last 1; from
then on, and until the 16-bit counter wraps, it does not. -/
theorem freshQid_of_run {opts : ι → JobOptions} {as : List (Act ι)} {s : Counted ι}
    {maxQid : Nat} (hMax : maxQid ≤ 65535)
    (hRun : Run (countedStep opts) (fun _ _ => True) { jobs := start } as s) :
    (s.taken < maxQid → FreshQid maxQid s.jobs) ∧
      (maxQid ≤ s.taken → s.taken < 65535 → ¬ FreshQid maxQid s.jobs) := by
  have hInv : CoreInv s.jobs.toCore ∧ IdInv s := by
    refine hRun.invariant (I := fun s : Counted ι => CoreInv s.jobs.toCore ∧ IdInv s)
      ⟨coreInv_start, rfl, by simp [start]⟩ ?_
    intro s a s' h _ hStep
    obtain ⟨jobs, hJobs, rfl⟩ := Option.map_eq_some_iff.mp hStep
    exact ⟨h.1.effect (step_effect hJobs), h.2.effect (countedStep_effect h.1 hStep)⟩
  refine ⟨fun hTaken => hInv.2.freshQid hMax hTaken, fun hLe hLt hFresh => ?_⟩
  have hNext : (effectiveQid s.jobs.nextIoQid).toNat = s.taken + 1 := by
    rw [hInv.2.next, toNat_effectiveQid (by omega) (by omega)]
  have hRange := hFresh.le
  omega

/-- Two of three jobs start and one of them leaves again. -/
def churn : List (Act (Fin 3)) :=
  [.setup 0 true true, .setup 1 true true, .setup 2 true true,
    .init 0 true true, .init 1 true true, .cleanup 1]

private theorem run_churn (as : List (Act (Fin 3))) (s : Counted (Fin 3))
    (hExec : exec (countedStep fun _ => {}) (fun _ _ => true) { jobs := start } as = some s) :
    Run (countedStep fun _ => {}) (fun _ _ => True) { jobs := start } as s :=
  Run.of_exec (fun _ _ _ => trivial) hExec

/-- With three ids in the controller the third thread gets a fresh one. -/
theorem freshQid_of_run_churn :
    ∃ s, Run (countedStep fun _ => {}) (fun _ _ => True) { jobs := start } churn s ∧
      s.taken = 2 ∧ FreshQid 3 s.jobs := by
  obtain ⟨s, hExec, hTaken⟩ : ∃ s, exec (countedStep fun _ => {}) (fun _ _ => true)
      { jobs := start } churn = some s ∧ s.taken = 2 := ⟨_, rfl, rfl⟩
  exact ⟨s, run_churn churn s hExec, hTaken,
    (freshQid_of_run (by decide) (run_churn churn s hExec)).1 (by omega)⟩

/-- With two ids in the controller and one thread attached the next `nvme_init` asks for
id 3. -/
theorem freshQid_churn_false :
    ∃ s, Run (countedStep fun _ => {}) (fun _ _ => True) { jobs := start } churn s ∧
      (attached s.jobs.toCore).card = 1 ∧ (effectiveQid s.jobs.nextIoQid).toNat = 3 ∧
      ¬ FreshQid 2 s.jobs := by
  obtain ⟨s, hExec, hCard, hNext⟩ : ∃ s, exec (countedStep fun _ => {}) (fun _ _ => true)
      { jobs := start } churn = some s ∧ (attached s.jobs.toCore).card = 1 ∧
      (effectiveQid s.jobs.nextIoQid).toNat = 3 := ⟨_, rfl, rfl, rfl⟩
  refine ⟨s, run_churn churn s hExec, hCard, hNext, fun hFresh => ?_⟩
  have hRange := hFresh.le
  omega

end NewPerf.Engine.Jobs
