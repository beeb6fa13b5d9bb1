import NewPerf.Tools.PollCq
import NewPerf.Lib.Programs
import NewPerf.Lib.Ring

/-!
# The controller as the administrative code sees it

The functions of `tools/nvme.c` that set up a controller read and write its
registers, allocate and release DMA memory, and exchange admin commands with it
through memory.  Each of these accesses is an `Effect`; `Hardware` is the state
they act on, and `hardware` says what they do.  Between any two accesses the
controller may execute and complete commands on its own.

The controller and the kernel are outside the repository.  What is used of them:

* CAP never changes, CC reads back what was written (or all ones when the device
  has dropped off the bus), and CSTS may read as anything;
* the SQ doorbell passes on the entries between the old and the new tail, each of
  which is executed at most once, in any order, after any delay, or never;
* a Create command for an identifier that is in use is rejected, every other
  command may be accepted or rejected;
* a completion is posted after execution, with the command's id, in the next slot
  of the ring, and reports success exactly for an accepted command;
* `alloc_dma` returns memory whose addresses no live allocation has.

`armed` and `unseen` are history: the addresses in ASQ and ACQ at each write of
CC.EN = 1, until the controller is seen with CSTS.RDY = 0 after CC.EN has been
cleared (`armed`), or is seen with CSTS.RDY = 0 at all (`unseen`).
-/

namespace NewPerf.Tools

open NewPerf.Lib.Programs
open NewPerf.Lib.Ring

/-! ## Registers and opcodes -/

def nvmeRegCap : UInt32 := 0x0000
def nvmeRegCc : UInt32 := 0x0014
def nvmeRegCsts : UInt32 := 0x001c
def nvmeRegAqa : UInt32 := 0x0024
def nvmeRegAsq : UInt32 := 0x0028
def nvmeRegAcq : UInt32 := 0x0030
def nvmeDoorbellBase : UInt32 := 0x1000
def nvmeCcEn : UInt32 := 0x1
def nvmeCstsRdy : UInt32 := 0x1
def nvmeRegInvalid32 : UInt32 := 0xffffffff
def nvmeRegInvalid64 : UInt64 := 0xffffffffffffffff

def nvmeAdminDeleteIoSqOpcode : UInt8 := 0x00
def nvmeAdminCreateIoSqOpcode : UInt8 := 0x01
def nvmeAdminDeleteIoCqOpcode : UInt8 := 0x04
def nvmeAdminCreateIoCqOpcode : UInt8 := 0x05
def nvmeAdminIdentifyOpcode : UInt8 := 0x06

/-- `cap_dstrd` -/
def capDstrd (cap : UInt64) : UInt32 := ((cap >>> 32) &&& 0xf).toUInt32

/-- `admin_cq_head_doorbell` -/
def adminCqHeadDoorbell (cap : UInt64) : UInt32 :=
  nvmeDoorbellBase + ((4 : UInt32) <<< capDstrd cap)

/-- The dwords of a submission queue entry that the admin code sets; the rest of
the 64 bytes is zero. -/
structure AdminCommand where
  opcode : UInt8 := 0
  cid : UInt16 := 0
  nsid : UInt32 := 0
  prp1 : UInt64 := 0
  cdw10 : UInt32 := 0
  cdw11 : UInt32 := 0
  deriving DecidableEq, Repr, Inhabited

/-- The queue identifier a Create or Delete command is about. -/
def AdminCommand.qid (cmd : AdminCommand) : UInt16 := cmd.cdw10.toUInt16

/-- The completion queue a Create I/O Submission Queue command names. -/
def AdminCommand.cqid (cmd : AdminCommand) : UInt16 := (cmd.cdw11 >>> 16).toUInt16

/-- What a command does to the I/O queues. -/
inductive QueueOp where
  | createCq
  | createSq
  | deleteSq
  | deleteCq
  | other
  deriving DecidableEq, Repr

def AdminCommand.queueOp (cmd : AdminCommand) : QueueOp :=
  if cmd.opcode = nvmeAdminCreateIoCqOpcode then .createCq
  else if cmd.opcode = nvmeAdminCreateIoSqOpcode then .createSq
  else if cmd.opcode = nvmeAdminDeleteIoSqOpcode then .deleteSq
  else if cmd.opcode = nvmeAdminDeleteIoCqOpcode then .deleteCq
  else .other

/-! ## Effects -/

/-- The accesses of the administrative code to the world outside. -/
inductive Effect where
  /-- `controller_bar0_map`; the result is `NULL` on failure. -/
  | bar0Map (bus dev func : UInt8)
  /-- `munmap` of BAR0; the result tells whether it succeeded. -/
  | bar0Unmap (bar0 : UInt64)
  /-- `dma_open`; negative on failure. -/
  | dmaOpen (bus dev func : Int)
  /-- `close(c->dma_fd)` -/
  | dmaClose (fd : Int)
  /-- A volatile load from BAR0. -/
  | regRead (offset : UInt32)
  /-- A volatile store to BAR0. -/
  | regWrite (offset value : UInt32)
  /-- `alloc_dma` -/
  | allocDma (fd : Int) (size : UInt64)
  /-- The release and unmapping in `free_dma`. -/
  | releaseDma (mem : Mem)
  /-- `memset(dma_mem_virt(&mem), 0, dma_mem_size(&mem))` -/
  | zeroDma (mem : Mem)
  /-- The stores of one admin command into the submission queue at `virt`. -/
  | writeSqe (virt : UInt64) (slot : UInt16) (cmd : AdminCommand)
  /-- A volatile load of an entry of the completion queue at `virt`. -/
  | readCqe (virt : UInt64) (slot : UInt16)
  /-- Loads from a data buffer. -/
  | readData (mem : Mem)
  /-- `print_errno` -/
  | printErrno (message : String)
  deriving DecidableEq, Repr

/-- What an effect returns. -/
@[reducible] def Effect.Result : Effect → Type
  | .bar0Map _ _ _ => UInt64
  | .bar0Unmap _ => Bool
  | .dmaOpen _ _ _ => Int
  | .dmaClose _ => Unit
  | .regRead _ => UInt32
  | .regWrite _ _ => Unit
  | .allocDma _ _ => Mem
  | .releaseDma _ => Unit
  | .zeroDma _ => Unit
  | .writeSqe _ _ _ => Unit
  | .readCqe _ _ => NvmeCqEntry
  | .readData _ => Nat → UInt8
  | .printErrno _ => Unit

/-- What the environment has to say about an effect. -/
inductive Answer where
  | done
  | address (a : UInt64)
  | success (b : Bool)
  | descriptor (fd : Int)
  | word (v : UInt32)
  | memory (mem : Mem)
  | bytes (data : Nat → UInt8)

/-! ## State -/

/-- An allocation, numbered by its position in the list of all of them. -/
structure Region where
  mem : Mem
  freed : Bool := false
  deriving DecidableEq, Repr

/-- Where the latest allocation at a bus address is. -/
structure Mapping where
  number : Nat
  virt : UInt64
  deriving DecidableEq, Repr

inductive Progress where
  | waiting
  | executed (accepted : Bool)
  | posted (accepted : Bool)
  deriving DecidableEq, Repr

/-- A command passed on by the doorbell, and the allocation its PRP1 named. -/
structure Sent where
  cmd : AdminCommand
  region : Option Nat
  progress : Progress := .waiting
  deriving DecidableEq, Repr

structure Hardware where
  cap : UInt64
  cc : UInt32 := 0
  aqa : UInt32 := 0
  asqLow : UInt32 := 0
  asqHigh : UInt32 := 0
  acqLow : UInt32 := 0
  acqHigh : UInt32 := 0
  sqTail : Nat := 0
  cqHeadDb : UInt32 := 0
  regions : List Region := []
  mapped : UInt64 → Option Mapping := fun _ => none
  sqe : UInt64 → Nat → AdminCommand := fun _ _ => default
  cqe : UInt64 → Nat → NvmeCqEntry := fun _ _ => {}
  sent : List Sent := []
  posted : List NvmeCqEntry := []
  /-- The I/O queues that exist, with the allocation each was created on. -/
  sqs : UInt16 → Option (Option Nat) := fun _ => none
  cqs : UInt16 → Option (Option Nat) := fun _ => none
  /-- The completion queue a submission queue was attached to when it was created. -/
  attachedTo : UInt16 → UInt16 := fun _ => 0
  armed : List UInt64 := []
  unseen : List UInt64 := []

namespace Hardware

/-- A 64-bit register from its two halves. -/
def join (low high : UInt32) : UInt64 := (high.toUInt64 <<< 32) ||| low.toUInt64

def asq (m : Hardware) : UInt64 := join m.asqLow m.asqHigh
def acq (m : Hardware) : UInt64 := join m.acqLow m.acqHigh

def enabled (m : Hardware) : Bool := m.cc &&& nvmeCcEn ≠ 0

def adminSqDepth (m : Hardware) : Nat := (m.aqa &&& 0xfff).toNat + 1
def adminCqDepth (m : Hardware) : Nat := ((m.aqa >>> 16) &&& 0xfff).toNat + 1

/-- The user address at which the host sees bus address `a`. -/
def virtOf (m : Hardware) (a : UInt64) : UInt64 := ((m.mapped a).map Mapping.virt).getD 0

/-! ## Registers -/

/-- What a load may return. -/
def Readable (m : Hardware) (offset v : UInt32) : Prop :=
  if offset = nvmeRegCap then v = m.cap.toUInt32
  else if offset = nvmeRegCap + 4 then v = (m.cap >>> 32).toUInt32
  else if offset = nvmeRegCc then v = m.cc ∨ v = nvmeRegInvalid32
  else True

instance (m : Hardware) (offset v : UInt32) : Decidable (m.Readable offset v) :=
  inferInstanceAs (Decidable (if offset = nvmeRegCap then v = m.cap.toUInt32
    else if offset = nvmeRegCap + 4 then v = (m.cap >>> 32).toUInt32
    else if offset = nvmeRegCc then v = m.cc ∨ v = nvmeRegInvalid32
    else True))

/-- The controller has stopped: it has no queues and no commands. -/
def halt (m : Hardware) : Hardware :=
  { m with sent := [], posted := [], sqs := fun _ => none, cqs := fun _ => none,
           armed := [] }

/-- What a load of CSTS tells. -/
def observe (m : Hardware) (offset v : UInt32) : Hardware :=
  if offset = nvmeRegCsts ∧ v &&& nvmeCstsRdy = 0 then
    let m := { m with unseen := [] }
    if m.enabled then m else m.halt
  else m

/-- A store to CC. -/
def writeCc (m : Hardware) (v : UInt32) : Hardware :=
  if v &&& nvmeCcEn = 0 then { m with cc := v }
  else
    let m' := { m with cc := v, armed := m.armed ++ [m.asq, m.acq],
                       unseen := m.unseen ++ [m.asq, m.acq] }
    if m.enabled then m'
    else { m' with sqTail := 0, cqHeadDb := 0, sent := [], posted := [],
                   sqs := fun _ => none, cqs := fun _ => none }

/-- The entries between the old tail and the new one. -/
def newEntries (m : Hardware) (tail : Nat) : List AdminCommand :=
  (List.range ((tail + m.adminSqDepth - m.sqTail) % m.adminSqDepth)).map fun i =>
    m.sqe (m.virtOf m.asq) ((m.sqTail + i) % m.adminSqDepth)

/-- A store to the admin submission queue tail doorbell. -/
def ringAdminSq (m : Hardware) (tail : Nat) : Hardware :=
  { m with
    sqTail := tail
    sent := m.sent ++ (m.newEntries tail).map fun cmd =>
      { cmd := cmd, region := (m.mapped cmd.prp1).map Mapping.number } }

def writeReg (m : Hardware) (offset v : UInt32) : Hardware :=
  if offset = nvmeRegCc then m.writeCc v
  else if offset = nvmeRegAqa then { m with aqa := v }
  else if offset = nvmeRegAsq then { m with asqLow := v }
  else if offset = nvmeRegAsq + 4 then { m with asqHigh := v }
  else if offset = nvmeRegAcq then { m with acqLow := v }
  else if offset = nvmeRegAcq + 4 then { m with acqHigh := v }
  else if offset = nvmeDoorbellBase then m.ringAdminSq v.toNat
  else if offset = adminCqHeadDoorbell m.cap then { m with cqHeadDb := v }
  else m

/-! ## Memory -/

/-- What `alloc_dma` may return: nothing, or memory with new addresses. -/
def Allocatable (m : Hardware) (mem : Mem) : Prop :=
  mem = {} ∨ (mem.userVirtaddr ≠ 0 ∧ 0 < mem.size ∧
    ∀ r ∈ m.regions, r.freed = false →
      r.mem.userVirtaddr ≠ mem.userVirtaddr ∧ r.mem.dmaAddr ≠ mem.dmaAddr)

instance (m : Hardware) (mem : Mem) : Decidable (m.Allocatable mem) :=
  inferInstanceAs (Decidable (mem = {} ∨ (mem.userVirtaddr ≠ 0 ∧ 0 < mem.size ∧
    ∀ r ∈ m.regions, r.freed = false →
      r.mem.userVirtaddr ≠ mem.userVirtaddr ∧ r.mem.dmaAddr ≠ mem.dmaAddr)))

def alloc (m : Hardware) (mem : Mem) : Hardware :=
  if mem = {} then m
  else { m with
    regions := m.regions ++ [{ mem := mem }]
    mapped := Function.update m.mapped mem.dmaAddr
      (some ⟨m.regions.length, mem.userVirtaddr⟩) }

def release (m : Hardware) (mem : Mem) : Hardware :=
  { m with regions := m.regions.map fun r =>
      if r.mem = mem then { r with freed := true } else r }

def zero (m : Hardware) (mem : Mem) : Hardware :=
  { m with
    sqe := Function.update m.sqe mem.userVirtaddr (fun _ => default)
    cqe := Function.update m.cqe mem.userVirtaddr (fun _ => {}) }

def putSqe (m : Hardware) (virt : UInt64) (slot : Nat) (cmd : AdminCommand) :
    Hardware :=
  { m with
    sqe := Function.update m.sqe virt (Function.update (m.sqe virt) slot cmd) }

/-- The effects. -/
def effect (m : Hardware) (e : Effect) (a : Answer) : Option (e.Result × Hardware) :=
  match e with
  | .bar0Map _ _ _ => match a with
      | .address p => some (p, m)
      | _ => none
  | .bar0Unmap _ => match a with
      | .success b => some (b, m)
      | _ => none
  | .dmaOpen _ _ _ => match a with
      | .descriptor fd => some (fd, m)
      | _ => none
  | .dmaClose _ => some ((), m)
  | .regRead offset => match a with
      | .word v => if m.Readable offset v then some (v, m.observe offset v) else none
      | _ => none
  | .regWrite offset v => some ((), m.writeReg offset v)
  | .allocDma _ _ => match a with
      | .memory mem => if m.Allocatable mem then some (mem, m.alloc mem) else none
      | _ => none
  | .releaseDma mem => some ((), m.release mem)
  | .zeroDma mem => some ((), m.zero mem)
  | .writeSqe virt slot cmd => some ((), m.putSqe virt slot.toNat cmd)
  | .readCqe virt slot => some (m.cqe virt slot.toNat, m)
  | .readData _ => match a with
      | .bytes data => some (data, m)
      | _ => none
  | .printErrno _ => some ((), m)

/-! ## What the controller does on its own -/

/-- The queue sets after an accepted command. -/
def apply (m : Hardware) (s : Sent) : Hardware :=
  match s.cmd.queueOp with
  | .createCq => { m with cqs := Function.update m.cqs s.cmd.qid (some s.region) }
  | .createSq =>
      { m with
        sqs := Function.update m.sqs s.cmd.qid (some s.region)
        attachedTo := Function.update m.attachedTo s.cmd.qid s.cmd.cqid }
  | .deleteSq => { m with sqs := Function.update m.sqs s.cmd.qid none }
  | .deleteCq => { m with cqs := Function.update m.cqs s.cmd.qid none }
  | .other => m

/-- The command would create a queue under an identifier in use. -/
def inUse (m : Hardware) (cmd : AdminCommand) : Bool :=
  match cmd.queueOp with
  | .createCq => (m.cqs cmd.qid).isSome
  | .createSq => (m.sqs cmd.qid).isSome
  | _ => false

def setProgress (m : Hardware) (i : Nat) (p : Progress) : Hardware :=
  { m with sent := m.sent.modify i fun s => { s with progress := p } }

/-- Execute the `i`-th command passed on by the doorbell. -/
def execute (m : Hardware) (i : Nat) (accept : Bool) : Option Hardware :=
  match m.sent[i]? with
  | none => none
  | some s =>
      if s.progress = .waiting then
        if accept then
          if m.inUse s.cmd then none
          else some ((m.setProgress i (.executed true)).apply s)
        else some (m.setProgress i (.executed false))
      else none

/-- The entry for a command: its id, some submission queue head, the status and
the phase of the lap. -/
def adminCqe (m : Hardware) (s : Sent) (sqhd status : UInt16) : NvmeCqEntry :=
  { sqhd := sqhd
    cid := s.cmd.cid
    psf := UInt16.ofNat (2 * status.toNat + phaseOf m.adminCqDepth m.posted.length) }

/-- Post the completion of the `i`-th command unless the ring is full. -/
def post (m : Hardware) (i : Nat) (sqhd status : UInt16) : Option Hardware :=
  match m.sent[i]? with
  | none => none
  | some s =>
      match s.progress with
      | .executed accepted =>
          let cqe := m.adminCqe s sqhd status
          if (m.posted.length + 1) % m.adminCqDepth = m.cqHeadDb.toNat then none
          else if decide (cqeSct cqe.psf = 0 ∧ cqeSc cqe.psf = 0) ≠ accepted then none
          else
            let virt := m.virtOf m.acq
            some { m.setProgress i (.posted accepted) with
              cqe := Function.update m.cqe virt
                (Function.update (m.cqe virt) (m.posted.length % m.adminCqDepth) cqe)
              posted := m.posted ++ [cqe] }
      | _ => none

end Hardware

/-- A step of the controller. -/
inductive DeviceAct where
  | execute (i : Nat) (accept : Bool)
  | post (i : Nat) (sqhd status : UInt16)
  deriving Repr

def Hardware.device (m : Hardware) : DeviceAct → Option Hardware
  | .execute i accept => m.execute i accept
  | .post i sqhd status => m.post i sqhd status

/-- The platform the administrative programs run on. -/
def hardware : Machine Effect Effect.Result Answer DeviceAct Hardware where
  eff := Hardware.effect
  env := Hardware.device

/-- Programs of the administrative code. -/
abbrev Admin := Prog Effect Effect.Result

end NewPerf.Tools
