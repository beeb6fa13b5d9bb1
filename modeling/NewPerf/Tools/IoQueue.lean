import NewPerf.Tools.Admin

/-!
# `create_io_queue_pair` and `delete_io_queue_pair`

Each is a sequence of admin commands over memory allocated before (create) and
released after (delete).  Both give up as soon as one command fails, and leave
what has been done until then as it is.
-/

namespace NewPerf.Tools

open NewPerf.Lib.Programs

/-- `NVME_QUEUE_PHYS_CONTIGUOUS` -/
def nvmeQueuePhysContiguous : UInt32 := 0x1

/-- `nvme_io_qid` -/
def nvmeIoQid (n : NvmeData) : UInt16 := if n.ioQid ≠ 0 then n.ioQid else 1

/-- `io_sq_tail_doorbell` -/
def ioSqTailDoorbell (cap : UInt64) (qid : UInt16) : UInt32 :=
  nvmeDoorbellBase + 2 * qid.toUInt32 * ((4 : UInt32) <<< capDstrd cap)

/-- `io_cq_head_doorbell` -/
def ioCqHeadDoorbell (cap : UInt64) (qid : UInt16) : UInt32 :=
  nvmeDoorbellBase + (2 * qid.toUInt32 + 1) * ((4 : UInt32) <<< capDstrd cap)

/-- The sequence both functions are made of: take the next command id, submit the
command, wait for its completion. -/
def adminCommand (c : ControllerData) (opcode : UInt8) (prp1 : UInt64)
    (cdw10 cdw11 : UInt32) : Admin (Bool × ControllerData) := do
  let cmdId := c.adminCmdId
  let c := { c with adminCmdId := c.adminCmdId + 1 }
  let (submitted, c) ← submitAdminCommand c opcode 0 prp1 cdw10 cdw11 cmdId
  if !submitted then return (false, c)
  else waitAdminCompletion c cmdId nvmeAdminCmdTimeoutMs

/-! ## Creating -/

/-- The fields a successful `create_io_queue_pair` sets at its end. -/
def pairReady (n : NvmeData) (cap : UInt64) (ioSqDepth ioCqDepth : UInt32) : NvmeData :=
  { n with
    ioSqHead := 0
    ioSqTail := 0
    icCqHead := 0
    ioCqPahse := 1
    ioSqPhysAddr := n.ioSqMem.dmaAddr
    ioCqPhysAddr := n.ioCqMem.dmaAddr
    ioPrpListPhysAddr := n.ioPrpListMem.dmaAddr
    ioSqVirtAddr := n.ioSqMem.userVirtaddr
    ioCqVirtAddr := n.ioCqMem.userVirtaddr
    ioPrpListVirtAddr := n.ioPrpListMem.userVirtaddr
    ioSqDepth := ioSqDepth
    ioCqDepth := ioCqDepth
    ioSqTailDb := ioSqTailDoorbell cap (nvmeIoQid n)
    ioCqHeadDb := ioCqHeadDoorbell cap (nvmeIoQid n) }

/-- `create_io_queue_pair` from the first command on. -/
def createQueues (c : ControllerData) (n : NvmeData) (cap : UInt64)
    (ioSqDepth ioCqDepth : UInt32) : Admin (Bool × ControllerData × NvmeData) := do
  let qid := (nvmeIoQid n).toUInt32
  let (cqOk, c) ← adminCommand c nvmeAdminCreateIoCqOpcode n.ioCqMem.dmaAddr
    (qid ||| ((ioCqDepth - 1) <<< 16)) nvmeQueuePhysContiguous
  if !cqOk then return (false, c, n)
  else do
    let (sqOk, c) ← adminCommand c nvmeAdminCreateIoSqOpcode n.ioSqMem.dmaAddr
      (qid ||| ((ioSqDepth - 1) <<< 16)) ((qid <<< 16) ||| nvmeQueuePhysContiguous)
    if !sqOk then return (false, c, n)
    else return (true, c, pairReady n cap ioSqDepth ioCqDepth)

/-- `create_io_queue_pair` from the first allocation on. -/
def allocQueues (c : ControllerData) (n : NvmeData) (cap : UInt64)
    (ioSqDepth ioCqDepth : UInt32) : Admin (Bool × ControllerData × NvmeData) := do
  let (cqOk, c, cqMem) ← nvmeAllocDmaMem c (ioCqSize ioCqDepth) n.ioCqMem
  let n := { n with ioCqMem := cqMem }
  if !cqOk then return (false, c, n)
  else do
    let (sqOk, c, sqMem) ← nvmeAllocDmaMem c (ioSqSize ioSqDepth) n.ioSqMem
    let n := { n with ioSqMem := sqMem }
    if !sqOk then do
      let cqMem ← freeDma n.ioCqMem
      return (false, c, { n with ioCqMem := cqMem })
    else do
      let (prpOk, c, prpMem) ← nvmeAllocDmaMem c (ioPrpListSize ioSqDepth) n.ioPrpListMem
      let n := { n with ioPrpListMem := prpMem }
      if !prpOk then do
        let sqMem ← freeDma n.ioSqMem
        let cqMem ← freeDma n.ioCqMem
        return (false, c, { n with ioSqMem := sqMem, ioCqMem := cqMem })
      else do
        perform (Effect.zeroDma n.ioCqMem)
        perform (Effect.zeroDma n.ioSqMem)
        perform (Effect.zeroDma n.ioPrpListMem)
        createQueues c n cap ioSqDepth ioCqDepth

/-- The depth `create_io_queue_pair` uses for a requested one. -/
def depthOrMax (requested max : UInt32) : UInt32 := if requested = 0 then max else requested

/-- `create_io_queue_pair` -/
def createIoQueuePair (c : ControllerData) (n : NvmeData) :
    Admin (Bool × ControllerData × NvmeData) :=
  if c.bar0Virt = 0 then do
    printErrno "NVMe controller BAR0 is not mapped"
    return (false, c, n)
  else if c.adminSqVirtAddr = 0 then do
    printErrno "NVMe admin SQ is not initialized"
    return (false, c, n)
  else if c.adminCqVirtAddr = 0 then do
    printErrno "NVMe admin CQ is not initialized"
    return (false, c, n)
  else if !c.dmaFdOpened then do
    printErrno "NVMe DMA allocator is not initialized"
    return (false, c, n)
  else do
    let some cap ← nvmeRegRead64 c.bar0Virt nvmeRegCap | return (false, c, n)
    if readyTimeoutMs cap = 0 then do
      printErrno "NVMe CAP.TO is zero"
      return (false, c, n)
    else if depthOrMax n.ioSqDepth (capMqesEntries cap) > capMqesEntries cap then do
      printErrno "NVMe IO SQ depth exceeds CAP.MQES"
      return (false, c, n)
    else if depthOrMax n.ioCqDepth (capMqesEntries cap) > capMqesEntries cap then do
      printErrno "NVMe IO CQ depth exceeds CAP.MQES"
      return (false, c, n)
    else
      allocQueues c n cap (depthOrMax n.ioSqDepth (capMqesEntries cap))
        (depthOrMax n.ioCqDepth (capMqesEntries cap))

/-! ## Deleting -/

/-- The fields `delete_io_queue_pair` clears before it releases the memory. -/
def pairCleared (n : NvmeData) : NvmeData :=
  { n with
    ioSqHead := 0
    ioSqTail := 0
    icCqHead := 0
    ioCqPahse := 0
    ioSqPhysAddr := 0
    ioCqPhysAddr := 0
    ioPrpListPhysAddr := 0
    ioUDataPhysAddr := 0
    ioSqVirtAddr := 0
    ioCqVirtAddr := 0
    ioPrpListVirtAddr := 0
    ioUDataVirtAddr := 0 }

/-- `delete_io_queue_pair` once both queues are gone. -/
def releasePair (c : ControllerData) (n : NvmeData) :
    Admin (Bool × ControllerData × NvmeData) := do
  let n := pairCleared n
  let sqMem ← freeDma n.ioSqMem
  let cqMem ← freeDma n.ioCqMem
  let prpMem ← freeDma n.ioPrpListMem
  let dataMem ← freeDma n.ioUDataMem
  return (true, c,
    { n with
      ioSqMem := sqMem
      ioCqMem := cqMem
      ioPrpListMem := prpMem
      ioUDataMem := dataMem
      ioSqDepth := 0
      ioCqDepth := 0
      ioSqTailDb := 0
      ioCqHeadDb := 0 })

/-- A Delete command is sent only for a queue that `create_io_queue_pair` reported. -/
def deleteIfPresent (c : ControllerData) (virt : UInt64) (opcode : UInt8) (qid : UInt16) :
    Admin (Bool × ControllerData) :=
  if virt ≠ 0 then adminCommand c opcode 0 qid.toUInt32 0 else return (true, c)

/-- `delete_io_queue_pair` -/
def deleteIoQueuePair (c : ControllerData) (n : NvmeData) :
    Admin (Bool × ControllerData × NvmeData) :=
  if c.bar0Virt = 0 then do
    printErrno "NVMe controller BAR0 is not mapped"
    return (false, c, n)
  else if c.adminSqVirtAddr = 0 then do
    printErrno "NVMe admin SQ is not initialized"
    return (false, c, n)
  else if c.adminCqVirtAddr = 0 then do
    printErrno "NVMe admin CQ is not initialized"
    return (false, c, n)
  else if n.ioSqVirtAddr = 0 ∧ n.ioCqVirtAddr = 0 ∧ n.ioUDataVirtAddr = 0 ∧
      n.ioUDataPhysAddr = 0 then return (true, c, n)
  else do
    let some cap ← nvmeRegRead64 c.bar0Virt nvmeRegCap | return (false, c, n)
    if readyTimeoutMs cap = 0 then do
      printErrno "NVMe CAP.TO is zero"
      return (false, c, n)
    else do
      let (sqOk, c) ← deleteIfPresent c n.ioSqVirtAddr nvmeAdminDeleteIoSqOpcode
        (nvmeIoQid n)
      if !sqOk then return (false, c, n)
      else do
        let (cqOk, c) ← deleteIfPresent c n.ioCqVirtAddr nvmeAdminDeleteIoCqOpcode
          (nvmeIoQid n)
        if !cqOk then return (false, c, n)
        else releasePair c n

end NewPerf.Tools
