import NewPerf.Engine.PairCreation
import NewPerf.Engine.RefCount

/-!
# The callbacks of `QueueLifetime` are critical sections of `Jobs`

`nvme_init` and `nvme_cleanup` are modelled twice: in `NewPerf.Engine.Jobs` as critical
sections whose admin commands are an outcome, and in `NewPerf.Engine.QueueLifetime` as
programs that send these commands.  Of the programs, `Jobs` keeps the shared variables and
the part of `struct nvme_data` that is there before the queue pair (`Agrees`).  The lifetime
of a controller is thus a run of `Jobs` that begins with a successful `nvme_setup`, with the
same critical sections in the same order (`jobs_of_run`), and what holds of every run of
`Jobs` holds in it.
-/

namespace NewPerf.Engine.QueueLifetime

open NewPerf.Lib
open NewPerf.Lib.Programs
open NewPerf.Lib.Runs
open NewPerf.Tools
open NewPerf.Engine.Jobs (JobOptions Attachment queueDepth)
open NewPerf.Engine.PairCreation

variable {ι : Type}

/-- What `Jobs` keeps of the data of a thread.  The controller is the first one allocated. -/
def attachment (n : NvmeData) : Attachment :=
  { ctrl := 0
    ioQid := n.ioQid
    ioSqDepth := n.ioSqDepth
    ioCqDepth := n.ioCqDepth }

/-- The shared variables and what each thread is attached to are the same. -/
structure Agrees (h : Host ι) (t : Jobs.State ι) : Prop where
  gCtrl : t.gCtrl = h.gCtrl.map fun _ => 0
  currThreadNum : t.currThreadNum = h.currThreadNum
  nextIoQid : t.nextIoQid = h.nextIoQid
  ioOpsData : ∀ j, t.ioOpsData j = (h.ioOpsData j).map attachment

/-- A critical section that changes the shared variables. -/
inductive Section (ι : Type) where
  | init (j : ι) (alloc : Bool)
  | cleanup (j : ι)

/-- The critical section of an action, if it is one of these. -/
def hostSection : Callback ι → Option (Section ι)
  | .init j alloc => some (.init j alloc)
  | .cleanup j => some (.cleanup j)
  | .size | .alloc .. | .free _ => none

@[inherit_doc hostSection]
def jobSection : Jobs.Act ι → Option (Section ι)
  | .init j alloc _ => some (.init j alloc)
  | .cleanup j => some (.cleanup j)
  | .setup .. | .size .. => none

/-! ## The shared blocks -/

section Blocks

variable {h : Host ι} {t : Jobs.State ι} {c : ControllerData} {n : NvmeData}

theorem Agrees.dropThread (hAgrees : Agrees h t) : Agrees h.dropThread t.dropThread := by
  have hNum := hAgrees.currThreadNum
  by_cases hLast : h.currThreadNum = 1
  · have hCore := Jobs.toCore_dropThread_last (hNum.trans hLast)
    have hHost : h.dropThread = { gCtrl := none, ioOpsData := h.ioOpsData } := by
      simp [Host.dropThread, hLast]
    have hQid : t.dropThread.nextIoQid = 1 := by
      simp [Jobs.State.dropThread, hNum, hLast]
    rw [hHost]
    exact
      { gCtrl := congrArg Jobs.Core.gCtrl hCore
        currThreadNum := congrArg Jobs.Core.currThreadNum hCore
        nextIoQid := hQid
        ioOpsData := fun j =>
          (congrFun (congrArg Jobs.Core.ioOpsData hCore) j).trans (hAgrees.ioOpsData j) }
  · have hMore : h.currThreadNum - 1 ≠ 0 := by omega
    have hHost : h.dropThread = { h with currThreadNum := h.currThreadNum - 1 } := if_neg hMore
    have hJobs : t.dropThread = { t with currThreadNum := t.currThreadNum - 1 } :=
      if_neg (by rw [hNum]; exact hMore)
    rw [hHost, hJobs]
    exact { hAgrees with currThreadNum := congrArg (· - 1) hNum }

variable [DecidableEq ι]

theorem Agrees.setPhase (hAgrees : Agrees h t) (j : ι) (p : Jobs.Phase) :
    Agrees h (t.setPhase j p) :=
  { hAgrees with }

theorem Agrees.detach (hAgrees : Agrees h t) (j : ι) :
    Agrees (h.setData j none) (t.detach j) :=
  { hAgrees with
    ioOpsData := fun k => by
      simp only [Host.setData, Jobs.State.detach, Function.update_apply]
      split
      · rfl
      · exact hAgrees.ioOpsData k }

omit [DecidableEq ι] in
/-- A command has moved the admin queues of the controller. -/
theorem Agrees.withCtrl (hAgrees : Agrees h t) (hCtrl : h.gCtrl = some c)
    (c' : ControllerData) : Agrees { h with gCtrl := some c' } t :=
  { hAgrees with gCtrl := by rw [hAgrees.gCtrl, hCtrl]; rfl }

/-- A change of the data that `Jobs` does not keep. -/
theorem Agrees.setSame (hAgrees : Agrees h t) {j : ι} (hThread : h.ioOpsData j = some n)
    {n' : NvmeData} (hSame : attachment n' = attachment n) :
    Agrees (h.setData j (some n')) t :=
  { hAgrees with
    ioOpsData := fun k => by
      simp only [Host.setData, Function.update_apply]
      split
      · rename_i hk
        rw [hAgrees.ioOpsData k, hk, hThread, Option.map_some, Option.map_some, hSame]
      · exact hAgrees.ioOpsData k }

/-- `nvme_init` has taken a queue id and counted its thread. -/
theorem Agrees.attach (hAgrees : Agrees h t) (j : ι) (n : NvmeData) :
    Agrees
      ({ h with
        nextIoQid := h.nextIoQid + 1
        currThreadNum := h.currThreadNum + 1 }.setData j (some n))
      { t with
        nextIoQid := t.nextIoQid + 1
        currThreadNum := t.currThreadNum + 1
        ioOpsData := Function.update t.ioOpsData j (some (attachment n)) } :=
  { gCtrl := hAgrees.gCtrl
    currThreadNum := congrArg (· + 1) hAgrees.currThreadNum
    nextIoQid := congrArg (· + 1) hAgrees.nextIoQid
    ioOpsData := fun k => by
      simp only [Host.setData, Function.update_apply]
      split
      · rfl
      · exact hAgrees.ioOpsData k }

theorem setData_setData (h : Host ι) (j : ι) (d d' : Option NvmeData) :
    (h.setData j d).setData j d' = h.setData j d' := by
  simp only [Host.setData, Function.update_idem]

theorem dropThread_setData (h : Host ι) (j : ι) (d : Option NvmeData) :
    (h.setData j d).dropThread = h.dropThread.setData j d := by
  by_cases hLast : h.currThreadNum - 1 = 0
  · simp [Host.dropThread, Host.setData, hLast]
  · simp [Host.dropThread, Host.setData, hLast]

end Blocks

/-! ## The callbacks -/

section Callbacks

variable [DecidableEq ι] {h : Host ι} {t : Jobs.State ι}
  {c : ControllerData} {n : NvmeData} {j : ι}

/-- Nothing is asked of what the effects return. -/
abbrev AnyAnswer (e : Effect) (_ : e.Result) : Prop := True

private abbrev Leaves (Q : Host ι → Prop) (p : Admin (Host ι)) : Prop := p.Ensures AnyAnswer Q

theorem leaves_nvmeInit (opts : ι → JobOptions) (hAgrees : Agrees h t) (hCtrl : h.gCtrl = some c)
    (hFree : h.ioOpsData j = none) (alloc : Bool) :
    Leaves (fun h' => ∃ created t', Jobs.step opts t (.init j alloc created) = some t' ∧
      Agrees h' t') (nvmeInit (opts j) h c j alloc) := by
  have hJobFree : t.ioOpsData j = none := by
    rw [hAgrees.ioOpsData, hFree]
    rfl
  have hJobCtrl : t.gCtrl = some 0 := by
    rw [hAgrees.gCtrl, hCtrl]
    rfl
  have hStep : ∀ created, Jobs.step opts t (.init j alloc created) =
      some ((Jobs.nvmeInit (opts j) t j alloc created).1.setPhase j
        (if (Jobs.nvmeInit (opts j) t j alloc created).2 then .running else .failed)) :=
    fun _ => if_pos hJobFree
  -- Where it returns before it takes a queue id, neither model changes anything.
  have hNothing : (Jobs.nvmeInit (opts j) t j alloc true).1 = t →
      ∃ created t', Jobs.step opts t (.init j alloc created) = some t' ∧ Agrees h t' :=
    fun hSame => ⟨true, _, hStep true, by rw [hSame]; exact hAgrees.setPhase j _⟩
  unfold nvmeInit
  split
  · rename_i hUse
    exact hNothing (by simp only [Jobs.nvmeInit, if_pos hUse])
  rename_i hUse
  split
  · rename_i hFiles
    exact hNothing (by simp only [Jobs.nvmeInit, if_neg hUse, if_pos hFiles])
  rename_i hFiles
  split
  · rename_i hAlloc
    exact hNothing (by simp only [Jobs.nvmeInit, if_neg hUse, if_neg hFiles, if_pos hAlloc])
  rename_i hAlloc
  have hCap : (nvmeRegRead64 c.bar0Virt nvmeRegCap).Ensures AnyAnswer fun read =>
      ∀ v, read = some v → True := (ensures_any _).mono fun _ _ _ _ => trivial
  refine (builds_createIoQueuePair _ hCap).bind fun ⟨created, c', n'⟩ hBuilds => ?_
  have hAttach := (hAgrees.withCtrl hCtrl c').attach j
  rw [hJobCtrl] at hAttach
  cases created with
  | false =>
      have hUndone := (hAttach
        { ioQid := t.nextIoQid
          ioSqDepth := queueDepth (opts j).iodepth
          ioCqDepth := queueDepth (opts j).iodepth }).dropThread.detach j
      rw [dropThread_setData, setData_setData] at hUndone
      refine ⟨false, _, hStep false, Agrees.setPhase ?_ j _⟩
      simp only [Jobs.nvmeInit, if_neg hUse, if_neg hFiles, if_neg hAlloc, hJobCtrl]
      exact hUndone
  | true =>
      obtain ⟨cap, -, (hBuilt : Built _ cap _ n')⟩ := hBuilds rfl
      have hData : attachment n' =
          { ctrl := 0
            ioQid := t.nextIoQid
            ioSqDepth := queueDepth (opts j).iodepth
            ioCqDepth := queueDepth (opts j).iodepth } := by
        rw [attachment, hBuilt.sqDepth, hBuilt.cqDepth, hBuilt.ioQid, hAgrees.nextIoQid,
          depthOrMax_queueDepth]
      refine ⟨true, _, hStep true, Agrees.setPhase ?_ j _⟩
      simp only [Jobs.nvmeInit, if_neg hUse, if_neg hFiles, if_neg hAlloc, hJobCtrl]
      rw [← hData]
      exact hAttach n'

theorem leaves_nvmeCleanup (opts : ι → JobOptions) (hAgrees : Agrees h t)
    (hCtrl : h.gCtrl = some c) (hThread : h.ioOpsData j = some n) :
    Leaves (fun h' => ∃ t', Jobs.step opts t (.cleanup j) = some t' ∧ Agrees h' t')
      (nvmeCleanup h c j n) := by
  refine (ensures_any _).bind fun ⟨_, c', _⟩ _ => ?_
  have hData : t.ioOpsData j = some (attachment n) := by
    rw [hAgrees.ioOpsData, hThread]
    rfl
  refine ⟨_, rfl, ?_⟩
  rw [Jobs.nvmeCleanup, hData]
  exact ((hAgrees.withCtrl hCtrl c').dropThread.detach j).setPhase j _

omit [DecidableEq ι] in
theorem leaves_nvmeSize (hAgrees : Agrees h t) (hCtrl : h.gCtrl = some c) :
    Leaves (fun h' => Agrees h' t) (nvmeSize h c) :=
  (ensures_any _).bind fun ⟨_, c'⟩ _ => hAgrees.withCtrl hCtrl c'

theorem leaves_nvmeAlloc (hAgrees : Agrees h t) (hCtrl : h.gCtrl = some c)
    (hThread : h.ioOpsData j = some n) (totalSz : UInt64) :
    Leaves (fun h' => Agrees h' t) (nvmeAlloc h c j n totalSz) := by
  refine (ensures_any _).bind fun ⟨allocated, c', mem⟩ _ => ?_
  cases allocated with
  | false => exact hAgrees.withCtrl hCtrl c'
  | true => exact (hAgrees.withCtrl hCtrl c').setSame hThread rfl

theorem leaves_nvmeFree (hAgrees : Agrees h t) (hThread : h.ioOpsData j = some n) :
    Leaves (fun h' => Agrees h' t) (nvmeFree h j n) :=
  (ensures_any _).bind fun _ _ => hAgrees.setSame hThread rfl

end Callbacks

/-! ## Runs -/

section Runs

variable [DecidableEq ι] {opts : ι → JobOptions}

/-- The callbacks `cs` have done to the shared variables what a run of `Jobs` has done that
begins with `nvme_setup` of `j₀` and goes on with the same critical sections. -/
def Matched (opts : ι → JobOptions) (j₀ : ι) (cs : List (Callback ι)) (h : Host ι) : Prop :=
  ∃ bs t, Run (Jobs.step opts) (fun _ _ => True) Jobs.start (.setup j₀ true true :: bs) t ∧
    Agrees h t ∧ bs.filterMap jobSection = cs.filterMap hostSection

/-- A callback that `Jobs` knows nothing about. -/
theorem Matched.same {j₀ : ι} {cs : List (Callback ι)} {h : Host ι}
    {bs : List (Jobs.Act ι)} {t : Jobs.State ι}
    (hRun : Run (Jobs.step opts) (fun _ _ => True) Jobs.start (.setup j₀ true true :: bs) t)
    (hSections : bs.filterMap jobSection = cs.filterMap hostSection) {cb : Callback ι}
    (hOther : hostSection cb = none) (hAgrees : Agrees h t) :
    Matched opts j₀ (cs ++ [cb]) h := by
  refine ⟨bs, t, hRun, hAgrees, ?_⟩
  rw [List.filterMap_append, List.filterMap_cons_none hOther, List.filterMap_nil,
    List.append_nil, hSections]

/-- A critical section of both. -/
theorem Matched.snoc {j₀ : ι} {cs : List (Callback ι)} {h : Host ι}
    {bs : List (Jobs.Act ι)} {t t' : Jobs.State ι}
    (hRun : Run (Jobs.step opts) (fun _ _ => True) Jobs.start (.setup j₀ true true :: bs) t)
    (hSections : bs.filterMap jobSection = cs.filterMap hostSection) {cb : Callback ι}
    {b : Jobs.Act ι} (hBoth : jobSection b = hostSection cb)
    (hStep : Jobs.step opts t b = some t') (hAgrees : Agrees h t') :
    Matched opts j₀ (cs ++ [cb]) h := by
  refine ⟨bs ++ [b], t', hRun.snoc trivial hStep, hAgrees, ?_⟩
  rw [List.filterMap_append, List.filterMap_append, hSections]
  simp only [List.filterMap_cons, List.filterMap_nil, hBoth]

theorem Matched.callback {j₀ : ι} {cs : List (Callback ι)} {h : Host ι} {cb : Callback ι}
    {p : Admin (Host ι)} (hMatched : Matched opts j₀ cs h)
    (hProg : callback opts h cb = some p) :
    p.Ensures AnyAnswer (Matched opts j₀ (cs ++ [cb])) := by
  obtain ⟨bs, t, hRun, hAgrees, hSections⟩ := hMatched
  cases callback_cases hProg with
  | init hCtrl hFree =>
      refine (leaves_nvmeInit opts hAgrees hCtrl hFree _).mono fun h' => ?_
      rintro ⟨created, t', hStep, hAgrees'⟩
      exact .snoc hRun hSections rfl hStep hAgrees'
  | cleanup hCtrl hThread =>
      refine (leaves_nvmeCleanup opts hAgrees hCtrl hThread).mono fun h' => ?_
      rintro ⟨t', hStep, hAgrees'⟩
      exact .snoc hRun hSections rfl hStep hAgrees'
  | size hCtrl =>
      exact (leaves_nvmeSize hAgrees hCtrl).mono fun _ => .same hRun hSections rfl
  | alloc hCtrl hThread =>
      exact (leaves_nvmeAlloc hAgrees hCtrl hThread _).mono fun _ => .same hRun hSections rfl
  | free hCtrl hThread =>
      exact (leaves_nvmeFree hAgrees hThread).mono fun _ => .same hRun hSections rfl

/-- `nvme_setup` of a job with at most one file has created the controller. -/
theorem matched_start {j₀ : ι} (hFiles : (opts j₀).nrFiles ≤ 1) (c : ControllerData) :
    Matched opts j₀ [] { gCtrl := some c } := by
  have hSetup : Jobs.nvmeSetup (opts j₀) (Jobs.start : Jobs.State ι) true true =
      (Jobs.start.allocCtrl.controllerInit, true) := by
    rw [Jobs.nvmeSetup, if_neg (Nat.not_lt.mpr hFiles)]
    rfl
  have hStep : Jobs.step opts Jobs.start (.setup j₀ true true) =
      some (Jobs.start.allocCtrl.controllerInit.setPhase j₀
        (if (opts j₀).nrFiles = 0 then .ready else .sizing)) := by
    rw [Jobs.step, hSetup]
    rfl
  refine ⟨[], _, Run.single trivial hStep, ?_, rfl⟩
  exact
    { gCtrl := rfl
      currThreadNum := rfl
      nextIoQid := rfl
      ioOpsData := fun _ => rfl }

variable {ok : Calls Effect Effect.Result (Host ι) Hardware →
    Programs.Act (Callback ι) Answer DeviceAct → Prop}
  {c : ControllerData} {m : Hardware}
  {acts : List (Programs.Act (Callback ι) Answer DeviceAct)}
  {s : Calls Effect Effect.Result (Host ι) Hardware}

/-- Whatever the hardware does, the callbacks of one lifetime of the controller are a run of
`Jobs`. -/
theorem jobs_of_run {j₀ : ι} (hFiles : (opts j₀).nrFiles ≤ 1)
    (hRun : Run (Calls.step hardware (callback opts)) ok (start c m) acts s)
    (hIdle : s.running = none) :
    Matched opts j₀ (acts.filterMap Programs.Act.called) s.host := by
  have hAny : ∀ m e a r m', hardware.eff m e a = some (r, m') → AnyAnswer e r :=
    fun _ _ _ _ _ _ => trivial
  have hCalls := Calls.history hAny
    (fun _ _ _ _ hMatched hProg => Matched.callback hMatched hProg) rfl
    (matched_start hFiles c) hRun
  exact hCalls.1 hIdle

/-- Between the callbacks, the count is the number of threads that have a queue pair, and
none has one once the controller is gone. -/
theorem count_of_run [Fintype ι] {j₀ : ι} (hFiles : (opts j₀).nrFiles ≤ 1)
    (hRun : Run (Calls.step hardware (callback opts)) ok (start c m) acts s)
    (hIdle : s.running = none) :
    s.host.currThreadNum =
        (Finset.univ.filter fun j => (s.host.ioOpsData j).isSome = true).card ∧
      (s.host.gCtrl = none → ∀ j, s.host.ioOpsData j = none) := by
  obtain ⟨bs, t, hJobs, hAgrees, -⟩ := jobs_of_run hFiles hRun hIdle
  have hInv := Jobs.coreInv_of_run hJobs
  constructor
  · rw [← hAgrees.currThreadNum, hInv.count, Jobs.attached]
    simp only [hAgrees.ioOpsData, Option.isSome_map]
  · intro hGone j
    cases hThread : s.host.ioOpsData j with
    | none => rfl
    | some n =>
        have hAttached := hInv.agree j (attachment n) (by rw [hAgrees.ioOpsData, hThread]; rfl)
        rw [hAgrees.gCtrl, hGone] at hAttached
        cases hAttached

end Runs

end NewPerf.Engine.QueueLifetime
