import NewPerf.Lib.Runs
import Mathlib.Data.Fintype.Card
import Mathlib.Data.Finset.Card

/-!
# Jobs sharing one controller

All jobs of a `fio` process share `g_ctrl`, `curr_thread_num` and `next_io_qid`
under `g_mutex`.  `nvme_setup` creates the controller, `nvme_init` and
`nvme_cleanup` count their threads, and whoever brings the count back to zero
destroys the controller.  One step is one critical section with the
thread-local statements around it; `nvme_setup` has a second one for the file
size it asks for.  What happens outside the section's own logic (parsing, the
hardware, the queue pair, memory) is an outcome carried by the step.

A `struct controller_data *` is the number of its allocation, so that an address
that `calloc` hands out again is not confused with the old object.
-/

namespace NewPerf.Engine.Jobs

open NewPerf.Lib.Runs

/-- The options of a job that the callbacks read. -/
structure JobOptions where
  nrFiles : Nat := 1
  useThread : Bool := true
  iodepth : UInt32 := 1
  deriving DecidableEq, Repr

/-- What has happened to one `struct controller_data`. -/
structure CtrlObject where
  initialised : Bool := false
  deinits : Nat := 0
  frees : Nat := 0
  deriving DecidableEq, Repr

/-- The part of `struct nvme_data` set before the queue pair is created. -/
structure Attachment where
  ctrl : Nat
  ioQid : UInt16
  ioSqDepth : UInt32
  ioCqDepth : UInt32
  deriving DecidableEq, Repr

/-- How far a job has come: no callback yet, in `nvme_setup` with the file size
to be asked for, set up, initialised, cleaned up, or turned down by a callback
that returned 1. -/
inductive Phase where
  | fresh
  | sizing
  | ready
  | running
  | finished
  | failed
  deriving DecidableEq, Repr

variable {ι : Type}

/-- What decides the lifetime of the controller: the global pointer and count,
the controllers allocated so far, and each job's `td->io_ops_data`. -/
structure Core (ι : Type) where
  gCtrl : Option Nat := none
  currThreadNum : Int := 0
  heap : List CtrlObject := []
  ioOpsData : ι → Option Attachment := fun _ => none

/-- The whole state, with the next queue id and how far each job is. -/
structure State (ι : Type) extends Core ι where
  nextIoQid : UInt16 := 1
  phase : ι → Phase := fun _ => .fresh

/-! ## The shared controller -/

/-- `g_ctrl = parse_target(...)` when it succeeds. -/
def State.allocCtrl (s : State ι) : State ι :=
  { s with heap := s.heap ++ [{}], gCtrl := some s.heap.length }

/-- Change the object `g_ctrl` points to. -/
def State.modifyCtrl (s : State ι) (f : CtrlObject → CtrlObject) : State ι :=
  match s.gCtrl with
  | none => s
  | some a => { s with heap := s.heap.modify a f }

/-- `controller_init(g_ctrl)` when it succeeds. -/
def State.controllerInit (s : State ι) : State ι :=
  s.modifyCtrl fun o => { o with initialised := true }

/-- `controller_deinit(g_ctrl)` -/
def State.controllerDeinit (s : State ι) : State ι :=
  s.modifyCtrl fun o => { o with initialised := false, deinits := o.deinits + 1 }

/-- `free(g_ctrl); g_ctrl = NULL;` -/
def State.freeCtrl (s : State ι) : State ι :=
  { s.modifyCtrl (fun o => { o with frees := o.frees + 1 }) with gCtrl := none }

/-- The block that `nvme_init` and `nvme_cleanup` share: the last thread destroys
the controller. -/
def State.dropThread (s : State ι) : State ι :=
  let s := { s with currThreadNum := s.currThreadNum - 1 }
  if s.currThreadNum = 0 then
    { s.controllerDeinit.freeCtrl with nextIoQid := 1 }
  else s

/-- `td->io_ops_data = NULL;` and the thread's data is freed. -/
def State.detach [DecidableEq ι] (s : State ι) (j : ι) : State ι :=
  { s with ioOpsData := Function.update s.ioOpsData j none }

/-! ## The callbacks -/

/-- `nvme_setup` up to its loop over the files; the flag tells whether it gets
there. -/
def nvmeSetup (o : JobOptions) (s : State ι) (parsed inited : Bool) :
    State ι × Bool :=
  if o.nrFiles > 1 then (s, false)
  else if s.gCtrl = none then
    if !parsed then (s, false)
    else if !inited then (s.allocCtrl.freeCtrl, false)
    else (s.allocCtrl.controllerInit, true)
  else (s, true)

/-- `nvme_size`; the flag tells whether it returns 0. -/
def nvmeSize (s : State ι) (size : UInt64) : Bool :=
  if s.gCtrl = none then false else size ≠ 0

/-- The number of entries `nvme_init` asks for. -/
def queueDepth (iodepth : UInt32) : UInt32 := if iodepth + 1 < 2 then 2 else iodepth + 1

/-- `nvme_init`; the flag tells whether it returns 0.  `alloc` and `created` are
the outcomes of `calloc` and of `create_io_queue_pair`. -/
def nvmeInit [DecidableEq ι] (o : JobOptions) (s : State ι) (j : ι)
    (alloc created : Bool) : State ι × Bool :=
  if !o.useThread then (s, false)
  else if o.nrFiles > 1 then (s, false)
  else if !alloc then (s, false)
  else
    match s.gCtrl with
    | none => (s, false)
    | some ctrl =>
        let s := { s with
          nextIoQid := s.nextIoQid + 1
          currThreadNum := s.currThreadNum + 1
          ioOpsData := Function.update s.ioOpsData j (some
            { ctrl
              ioQid := s.nextIoQid
              ioSqDepth := queueDepth o.iodepth
              ioCqDepth := queueDepth o.iodepth }) }
        if !created then
          (s.dropThread.detach j, false)
        else (s, true)

/-- `nvme_cleanup`; what `delete_io_queue_pair` returns is not looked at. -/
def nvmeCleanup [DecidableEq ι] (s : State ι) (j : ι) : State ι :=
  match s.ioOpsData j with
  | none => s
  | some _ => s.dropThread.detach j

/-! ## The system -/

/-- A critical section of one job, with the outcomes of what it calls. -/
inductive Act (ι : Type) where
  | setup (j : ι) (parsed inited : Bool)
  | size (j : ι) (size : UInt64)
  | init (j : ι) (alloc created : Bool)
  | cleanup (j : ι)

/-- Record how far the job has come. -/
def State.setPhase [DecidableEq ι] (s : State ι) (j : ι) (p : Phase) : State ι :=
  { s with phase := Function.update s.phase j p }

variable [DecidableEq ι]

/-- One step.  `fio` initialises a thread only when it has no engine data. -/
def step (opts : ι → JobOptions) (s : State ι) : Act ι → Option (State ι)
  | .setup j parsed inited =>
      let (s', ok) := nvmeSetup (opts j) s parsed inited
      some (s'.setPhase j
        (if !ok then .failed else if (opts j).nrFiles = 0 then .ready else .sizing))
  | .size j size =>
      if s.phase j = .sizing then
        some (s.setPhase j (if nvmeSize s size then .ready else .failed))
      else some s
  | .init j alloc created =>
      if s.ioOpsData j = none then
        let (s', ok) := nvmeInit (opts j) s j alloc created
        some (s'.setPhase j (if ok then .running else .failed))
      else none
  | .cleanup j => some ((nvmeCleanup s j).setPhase j .finished)

/-- Before any callback. -/
def start : State ι := {}

/-! ## What a step can do to the controller -/

/-- An object after `controller_deinit` and `free`. -/
def CtrlObject.destroyed (o : CtrlObject) : CtrlObject :=
  { initialised := false, deinits := o.deinits + 1, frees := o.frees + 1 }

/-- Every effect a step can have on the part that decides the lifetime. -/
inductive Effect (s s' : Core ι) : Prop where
  | keep (hCore : s' = s)
  | stillborn (hNone : s.gCtrl = none)
      (hCore : s' = { s with heap := s.heap ++ [{ frees := 1 }] })
  | create (hNone : s.gCtrl = none)
      (hCore : s' = { s with
        heap := s.heap ++ [{ initialised := true }], gCtrl := some s.heap.length })
  | attach (j : ι) (d : Attachment) (hFree : s.ioOpsData j = none)
      (hCtrl : s.gCtrl = some d.ctrl)
      (hCore : s' = { s with
        currThreadNum := s.currThreadNum + 1
        ioOpsData := Function.update s.ioOpsData j (some d) })
  | abort (a : Nat) (hCtrl : s.gCtrl = some a) (hLast : s.currThreadNum = 0)
      (hCore : s' = { s with gCtrl := none, heap := s.heap.modify a .destroyed })
  | detach (j : ι) (d : Attachment) (hData : s.ioOpsData j = some d)
      (hMore : s.currThreadNum ≠ 1)
      (hCore : s' = { s with
        currThreadNum := s.currThreadNum - 1
        ioOpsData := Function.update s.ioOpsData j none })
  | last (j : ι) (d : Attachment) (hData : s.ioOpsData j = some d)
      (hLast : s.currThreadNum = 1)
      (hCore : s' =
        { gCtrl := none
          currThreadNum := 0
          heap := match s.gCtrl with
            | none => s.heap
            | some a => s.heap.modify a .destroyed
          ioOpsData := Function.update s.ioOpsData j none })

omit [DecidableEq ι] in
theorem toCore_dropThread_last {s : State ι} (h : s.currThreadNum = 1) :
    s.dropThread.toCore =
      { s.toCore with
        gCtrl := none
        currThreadNum := 0
        heap := match s.gCtrl with
          | none => s.heap
          | some a => s.heap.modify a .destroyed } := by
  cases hCtrl : s.gCtrl with
  | none =>
      simp [State.dropThread, h, State.controllerDeinit, State.freeCtrl,
        State.modifyCtrl, hCtrl]
  | some a =>
      simp [State.dropThread, h, State.controllerDeinit, State.freeCtrl,
        State.modifyCtrl, hCtrl, List.modify_modify_eq, Function.comp_def]
      rfl

omit [DecidableEq ι] in
theorem toCore_dropThread_more {s : State ι} (h : s.currThreadNum ≠ 1) :
    s.dropThread.toCore = { s.toCore with currThreadNum := s.currThreadNum - 1 } := by
  unfold State.dropThread
  rw [if_neg (by dsimp only; omega)]

private theorem toCore_detach (s : State ι) (j : ι) :
    (s.detach j).toCore =
      { s.toCore with ioOpsData := Function.update s.ioOpsData j none } := rfl

/-- The object allocated last is the one behind the others. -/
private theorem modify_length_append (l : List CtrlObject) (o : CtrlObject)
    (f : CtrlObject → CtrlObject) :
    (l ++ [o]).modify l.length f = l ++ [f o] := by
  induction l with
  | nil => rfl
  | cons x l ih =>
      rw [List.cons_append, List.length_cons, List.modify_succ_cons, ih,
        List.cons_append]

private theorem effect_setup (o : JobOptions) (s : State ι) (parsed inited : Bool) :
    Effect s.toCore (nvmeSetup o s parsed inited).1.toCore := by
  unfold nvmeSetup
  split
  · exact .keep rfl
  split
  · rename_i hNone
    split
    · exact .keep rfl
    split
    · refine .stillborn hNone ?_
      simp [State.allocCtrl, State.freeCtrl, State.modifyCtrl, hNone,
        modify_length_append]
    · refine .create hNone ?_
      simp [State.allocCtrl, State.controllerInit, State.modifyCtrl,
        modify_length_append]
  · exact .keep rfl

private theorem effect_init (o : JobOptions) (s : State ι) (j : ι)
    (alloc created : Bool) (hFree : s.ioOpsData j = none) :
    Effect s.toCore (nvmeInit o s j alloc created).1.toCore := by
  have hUndo : ∀ d, Function.update (Function.update s.ioOpsData j d) j none =
      s.ioOpsData := fun d => by
    rw [Function.update_idem, ← hFree, Function.update_eq_self]
  unfold nvmeInit
  split
  · exact .keep rfl
  split
  · exact .keep rfl
  split
  · exact .keep rfl
  split
  · exact .keep rfl
  · rename_i ctrl hCtrl
    dsimp only
    split
    · by_cases hLast : s.currThreadNum = 0
      · refine .abort ctrl hCtrl hLast ?_
        rw [toCore_detach, toCore_dropThread_last (by dsimp only; omega)]
        simp only [hCtrl, hUndo, hLast]
      · refine .keep ?_
        rw [toCore_detach, toCore_dropThread_more (by dsimp only; omega)]
        simp only [hUndo, Int.add_sub_cancel]
    · exact .attach j _ hFree hCtrl rfl

private theorem effect_cleanup (s : State ι) (j : ι) :
    Effect s.toCore (nvmeCleanup s j).toCore := by
  unfold nvmeCleanup
  split
  · exact .keep rfl
  · rename_i d hData
    by_cases hLast : s.currThreadNum = 1
    · refine .last j d hData hLast ?_
      rw [toCore_detach, toCore_dropThread_last hLast]
    · refine .detach j d hData hLast ?_
      rw [toCore_detach, toCore_dropThread_more hLast]

theorem step_effect {opts : ι → JobOptions} {s s' : State ι} {a : Act ι}
    (hStep : step opts s a = some s') : Effect s.toCore s'.toCore := by
  cases a with
  | setup j parsed inited =>
      simp only [step, Option.some.injEq] at hStep
      rw [← hStep]
      exact effect_setup _ _ _ _
  | size j size =>
      simp only [step] at hStep
      split at hStep
      · cases hStep
        exact .keep rfl
      · cases hStep
        exact .keep rfl
  | init j alloc created =>
      simp only [step] at hStep
      split at hStep
      · simp only [Option.some.injEq] at hStep
        rw [← hStep]
        exact effect_init _ _ _ _ _ ‹_›
      · cases hStep
  | cleanup j =>
      simp only [step, Option.some.injEq] at hStep
      rw [← hStep]
      exact effect_cleanup _ _

end NewPerf.Engine.Jobs
