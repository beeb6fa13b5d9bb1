import NewPerf.Engine.Queue
import NewPerf.Tools.PollCq
import NewPerf.Lib.Ring
import NewPerf.Lib.Runs

/-!
# The engine and the device as one system

One queue pair is driven by two parties.  The host calls `nvme_queue` and
`nvme_getevents`; the device fetches submission queue entries in ring order,
completes fetched commands in any order, and posts completion queue entries in
ring order.  `step` is one step of either party.  A call of `nvme_queue` is one
step, since the device sees nothing of it before the doorbell write, but
`nvme_getevents` is cut at every iteration of the loops in it and in `poll_cq`,
so that the device may act between any two completions the host reads.

The device is outside the repository.  It knows the two doorbells and keeps the
number of entries it has fetched and posted; its ring indices are those numbers
modulo the depths.  The remaining fields of `Sys` (`log`, `done`, `reaped`,
`delivered`) are the history the results speak about, and no step reads them to
decide what to do.
-/

namespace NewPerf.Engine

open NewPerf.Lib.LeMemory
open NewPerf.Lib.Ring
open NewPerf.Tools

/-- A queued request as the history records it: the `io_u`, the command id
`nvme_queue` stored it under, the value of `io_sq_tail` before the call, and the
stores into `io_prp_list_mem`. -/
structure Submitted where
  ioU : IoU
  cid : UInt16
  slot : UInt32
  prpStores : List Store

/-- A command the device has fetched and not yet completed: the number of the
submission and the command id found in its queue entry. -/
structure Flight where
  pos : Nat
  cid : UInt16
  deriving DecidableEq, Repr

/-- A posted completion: the number of the submission it completes, the number
of entries fetched when it was posted, and the queue entry written. -/
structure Done where
  pos : Nat
  head : Nat
  cqe : NvmeCqEntry
  deriving DecidableEq, Repr

/-- Arguments of `nvme_getevents` and its `completions`; `timed` tells whether
`t` is not `NULL`. -/
structure GetEvents where
  min : UInt32
  max : UInt32
  timed : Bool
  completions : Nat := 0
  deriving DecidableEq, Repr

/-- Where the host is: outside the engine, at the head of the loop of
`nvme_getevents`, in the loop of `poll_cq`, behind the call of `poll_cq`, or
gone through `exit`. -/
inductive HostPc where
  | idle
  | loop (g : GetEvents)
  | poll (g : GetEvents) (l : PollLocals)
  | check (g : GetEvents)
  | exited
  deriving DecidableEq, Repr

structure Sys where
  nvme : NvmeData
  pc : HostPc := .idle
  sq : Bytes := fun _ => 0
  prp : Bytes := fun _ => 0
  cq : Nat → NvmeCqEntry := fun _ => {}
  sqTailDb : UInt32 := 0
  cqHeadDb : UInt32 := 0
  fetched : Nat := 0
  inflight : List Flight := []
  log : List Submitted := []
  done : List Done := []
  reaped : Nat := 0
  delivered : List (Option IoU) := []

/-- One step of the host or of the device. -/
inductive Act where
  /-- `nvme_queue(td, io_u)`, with the controller data it finds. -/
  | queue (td : ThreadData) (c : ControllerData) (ioU : IoU)
  /-- A call of `nvme_getevents`. -/
  | getevents (min max : UInt32) (timed : Bool)
  /-- The next statement of the running `nvme_getevents`. -/
  | host
  /-- The elapsed time exceeds the timeout of the running `nvme_getevents`. -/
  | giveUp
  /-- The device fetches the next submission queue entry. -/
  | fetch
  /-- The device completes the `i`-th command in flight; `status` is what it
  writes above the phase bit. -/
  | post (i : Nat) (status : UInt16)

/-- `(int)x` -/
def toCInt (x : UInt32) : Int := x.toInt32.toInt

/-- `nvme_event` -/
def nvmeEvent (n : NvmeData) (event : Int) : Option IoU :=
  if event < 0 then none
  else if event ≥ n.nrEvents then none
  else n.events event.toNat

/-- `nvme_getevents` returns, and `fio` collects the events it was promised. -/
def returnEvents (s : Sys) (g : GetEvents) : Sys :=
  { s with
    pc := .idle
    delivered := s.delivered ++
      (List.range g.completions).map fun i : Nat => nvmeEvent s.nvme i }

/-- Effect of an accepted request on memory, doorbell and history.  The list memory is kept
apart from the queues here; where a list that runs out of it goes is the subject of
`NewPerf.Engine.ListMemory`. -/
def submitTo (s : Sys) (ioU : IoU) (sub : Submission) : Sys :=
  { s with
    nvme := sub.nvme
    sq := applyAll sub.sqStores s.sq
    prp := applyAll sub.prpStores s.prp
    sqTailDb := sub.doorbell
    log := s.log ++ [⟨ioU, sub.cmdId, s.nvme.ioSqTail, sub.prpStores⟩] }

/-- The next statement of `nvme_getevents` and of the `poll_cq` it calls. -/
def hostStep (s : Sys) : Option Sys :=
  match s.pc with
  | .idle => none
  | .exited => none
  | .loop g =>
      match pollBegin s.nvme (toCInt (g.max - UInt32.ofNat g.completions)) with
      | none => some { s with pc := .check g }
      | some l => some { s with pc := .poll g l }
  | .poll g l =>
      match pollIter s.nvme (s.cq l.head.toNat) l with
      | .exit => some { s with pc := .exited }
      | .next n' l' =>
          some { s with nvme := n', pc := .poll g l', reaped := s.reaped + 1 }
      | .stop =>
          let (n', doorbell) := pollEnd s.nvme l
          some { s with
            nvme := n'
            cqHeadDb := doorbell.getD s.cqHeadDb
            pc := .check { g with completions := g.completions + l.count.toNat } }
  | .check g =>
      if (g.completions : Int) ≥ toCInt g.min then some (returnEvents s g)
      else some { s with pc := .loop g }

/-- The device fetches unless its head has caught up with the tail doorbell. -/
def fetchStep (s : Sys) : Option Sys :=
  let slot := s.fetched % s.nvme.ioSqDepth.toNat
  if slot = s.sqTailDb.toNat then none
  else some { s with
    fetched := s.fetched + 1
    inflight := s.inflight ++ [⟨s.fetched, sqEntryCid s.sq slot⟩] }

/-- The entry the device writes for a command: its id, the current submission
queue head, the status and the phase of the lap. -/
def deviceCqe (s : Sys) (f : Flight) (status : UInt16) : NvmeCqEntry :=
  { sqhd := UInt16.ofNat (s.fetched % s.nvme.ioSqDepth.toNat)
    cid := f.cid
    psf := UInt16.ofNat (2 * status.toNat +
      phaseOf s.nvme.ioCqDepth.toNat s.done.length) }

/-- The device posts a completion unless the completion queue is full with
respect to the head doorbell. -/
def postStep (s : Sys) (i : Nat) (status : UInt16) : Option Sys :=
  let depth := s.nvme.ioCqDepth.toNat
  if (s.done.length + 1) % depth = s.cqHeadDb.toNat then none
  else
    match s.inflight[i]? with
    | none => none
    | some f =>
        let cqe := deviceCqe s f status
        some { s with
          inflight := s.inflight.eraseIdx i
          cq := Function.update s.cq (s.done.length % depth) cqe
          done := s.done ++ [⟨f.pos, s.fetched, cqe⟩] }

/-- One step of the system. -/
def step (fioHasMrt : Bool) (s : Sys) : Act → Option Sys
  | .queue td c ioU =>
      if s.pc = .idle then
        match nvmeQueue fioHasMrt td c s.nvme ioU with
        | .queued sub => some (submitTo s ioU sub)
        | _ => some s
      else none
  | .getevents min max timed =>
      if s.pc = .idle then
        some { s with nvme := { s.nvme with nrEvents := 0 }
                      pc := .loop { min, max, timed } }
      else none
  | .host => hostStep s
  | .giveUp =>
      match s.pc with
      | .check g =>
          if g.timed && !decide ((g.completions : Int) ≥ toCInt g.min) then
            some (returnEvents s g)
          else none
      | _ => none
  | .fetch => fetchStep s
  | .post i status => postStep s i status

/-- A queue pair as `create_io_queue_pair` leaves it, on a `struct nvme_data`
that `nvme_init` took from `calloc`. -/
structure FreshPair (n : NvmeData) : Prop where
  sqHead : n.ioSqHead = 0
  sqTail : n.ioSqTail = 0
  cqHead : n.icCqHead = 0
  cqPhase : n.ioCqPahse = 1
  cmdId : n.ioCmdId = 0
  cmdIoU : ∀ cid, n.cmdIoU cid = none
  sqDepth_pos : 0 < n.ioSqDepth.toNat
  sqDepth_le : n.ioSqDepth.toNat ≤ 65536
  cqDepth_pos : 0 < n.ioCqDepth.toNat
  cqDepth_le : n.ioCqDepth.toNat ≤ 65536

/-- The system right after `create_io_queue_pair`: the three regions have been
zeroed and nothing has been submitted. -/
def start (n : NvmeData) : Sys := { nvme := n }

theorem freshPair_smallPair : FreshPair smallPair :=
  { sqHead := rfl
    sqTail := rfl
    cqHead := rfl
    cqPhase := rfl
    cmdId := rfl
    cmdIoU := fun _ => rfl
    sqDepth_pos := by decide
    sqDepth_le := by decide
    cqDepth_pos := by decide
    cqDepth_le := by decide }

end NewPerf.Engine
