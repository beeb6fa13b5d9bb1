import NewPerf.Tools.Hardware

/-!
# The administrative functions of `tools/nvme.c`

Setting up a controller, taking it down, and asking it for the size of the
namespace, as programs over `Effect`.  A function that changes the
`struct controller_data` or `struct mem` it is given returns the new one.
Pointers to these structures are never `NULL` here, so the checks for that are
left out, as are `printf` output and `sleep_1ms` (the controller may move between
any two accesses anyway).  `errno` is represented by the text passed to
`print_errno`.
-/

namespace NewPerf.Tools

open NewPerf.Lib.Programs

def nvmeAdminQDepth : UInt16 := 32
def nvmeAdminCmdTimeoutMs : UInt32 := 60000
def nvmeIdentifyDataSize : UInt64 := 4096
def nvmeIdentifyCnsNamespace : UInt32 := 0

def printErrno (message : String) : Admin Unit := perform (Effect.printErrno message)

/-! ## Register access (`lib/ctrl_access.c`) -/

/-- `controller_reg_read32` -/
def controllerRegRead32 (bar0 : UInt64) (offset : UInt32) : Admin (Option UInt32) :=
  if bar0 = 0 ∨ offset &&& 0x3 ≠ 0 then do
    printErrno "invalid controller register read argument"
    return none
  else do
    let value ← perform (Effect.regRead offset)
    return some value

/-- `controller_reg_write32`; the result tells whether it succeeded. -/
def controllerRegWrite32 (bar0 : UInt64) (offset value : UInt32) : Admin Bool :=
  if bar0 = 0 ∨ offset &&& 0x3 ≠ 0 then do
    printErrno "invalid controller register write argument"
    return false
  else do
    perform (Effect.regWrite offset value)
    return true

/-- `controller_bar0_unmap` -/
def controllerBar0Unmap (bar0 : UInt64) : Admin Bool :=
  if bar0 = 0 then do
    printErrno "invalid BAR0 unmap argument"
    return false
  else do
    let .true ← perform (Effect.bar0Unmap bar0)
      | do
          printErrno "failed to unmap PCI BAR0 resource"
          return false
    return true

/-- `nvme_reg_read64` -/
def nvmeRegRead64 (bar0 : UInt64) (offset : UInt32) : Admin (Option UInt64) := do
  let some lo ← controllerRegRead32 bar0 offset | return none
  let some hi ← controllerRegRead32 bar0 (offset + 4) | return none
  return some (Hardware.join lo hi)

/-- `nvme_reg_write64` -/
def nvmeRegWrite64 (bar0 : UInt64) (offset : UInt32) (value : UInt64) : Admin Bool := do
  let .true ← controllerRegWrite32 bar0 offset value.toUInt32 | return false
  let .true ← controllerRegWrite32 bar0 (offset + 4) (value >>> 32).toUInt32
    | return false
  return true

/-! ## DMA memory -/

/-- `nvme_dma_open_controller` -/
def nvmeDmaOpenController (c : ControllerData) : Admin (Bool × ControllerData) :=
  if c.dmaFdOpened then return (true, c)
  else do
    let fd ← perform (Effect.dmaOpen c.bus.toNat c.dev.toNat c.func.toNat)
    if fd < 0 then do
      printErrno "failed to open NVMe DMA device"
      return (false, c)
    else return (true, { c with dmaFd := fd, dmaFdOpened := true })

/-- `nvme_alloc_dma_mem`; `mem` is what the result is stored over. -/
def nvmeAllocDmaMem (c : ControllerData) (size : UInt64) (mem : Mem) :
    Admin (Bool × ControllerData × Mem) := do
  let (opened, c) ← nvmeDmaOpenController c
  if !opened then return (false, c, mem)
  else do
    let mem ← perform (Effect.allocDma c.dmaFd size)
    if mem.userVirtaddr = 0 ∨ mem.size ≤ 0 then do
      printErrno "failed to allocate NVMe DMA memory"
      return (false, c, mem)
    else return (true, c, mem)

/-- `free_dma` -/
def freeDma (mem : Mem) : Admin Mem :=
  if mem.userVirtaddr = 0 ∨ mem.size ≤ 0 then return mem
  else do
    perform (Effect.releaseDma mem)
    return {}

/-- `nvme_close_dma` -/
def nvmeCloseDma (c : ControllerData) : Admin ControllerData :=
  if c.dmaFdOpened then do
    perform (Effect.dmaClose c.dmaFd)
    return { c with dmaFd := -1, dmaFdOpened := false }
  else return c

/-- `nvme_release_controller_dma` -/
def nvmeReleaseControllerDma (c : ControllerData) : Admin ControllerData := do
  let sqMem ← freeDma c.adminSqMem
  let cqMem ← freeDma c.adminCqMem
  nvmeCloseDma { c with adminSqMem := sqMem, adminCqMem := cqMem }

/-- `nvme_unmap_controller_bar0` -/
def nvmeUnmapControllerBar0 (c : ControllerData) : Admin ControllerData :=
  if c.bar0Virt ≠ 0 then do
    let _ ← controllerBar0Unmap c.bar0Virt
    return { c with bar0Virt := 0 }
  else return c

/-! ## Capabilities -/

/-- `ready_timeout_ms` -/
def readyTimeoutMs (cap : UInt64) : UInt32 := ((cap >>> 24) &&& 0xff).toUInt32 * 500

/-- `cap_mqes_entries` -/
def capMqesEntries (cap : UInt64) : UInt32 := (cap &&& 0xffff).toUInt32 + 1

/-- `cap_mpsmin` -/
def capMpsmin (cap : UInt64) : UInt32 := ((cap >>> 48) &&& 0xf).toUInt32

/-- `admin_sq_tail_doorbell` -/
def adminSqTailDoorbell (_cap : UInt64) : UInt32 := nvmeDoorbellBase

/-! ## `wait_ready` -/

/-- What `wait_ready` reports when it runs out of time. -/
def notReadyMessage (ready : Bool) : String :=
  if ready then "timeout waiting for NVMe ready" else "timeout waiting for NVMe not ready"

/-- What `wait_ready` reports when the device has dropped off the bus. -/
def allOnesMessage : String := "NVMe CSTS read returned all ones"

/-- The loop of `wait_ready`, with the number of iterations left. -/
def waitReadyLoop (bar0 : UInt64) (ready : Bool) : Nat → Admin Bool
  | 0 => do
      printErrno (notReadyMessage ready)
      return false
  | left + 1 => do
      let some csts ← controllerRegRead32 bar0 nvmeRegCsts | return false
      if csts = nvmeRegInvalid32 then do
        printErrno allOnesMessage
        return false
      else if csts &&& nvmeCstsRdy = (if ready then nvmeCstsRdy else 0) then return true
      else waitReadyLoop bar0 ready left

/-- `wait_ready` -/
def waitReady (bar0 : UInt64) (ready : Bool) (timeoutMs : UInt32) : Admin Bool :=
  waitReadyLoop bar0 ready timeoutMs.toNat

/-! ## `controller_init` -/

/-- The exit of `controller_init` before it has allocated memory. -/
def failUnmapped (c : ControllerData) : Admin (Bool × ControllerData) := do
  let c ← nvmeUnmapControllerBar0 c
  return (false, c)

/-- The exit of `controller_init` after that. -/
def failReleased (c : ControllerData) : Admin (Bool × ControllerData) := do
  let c ← nvmeUnmapControllerBar0 c
  let c ← nvmeReleaseControllerDma c
  return (false, c)

/-- The value `controller_init` writes to AQA. -/
def adminQueueAttributes : UInt32 := (31 : UInt32) ||| ((31 : UInt32) <<< 16)

/-- The value `controller_init` writes to CC. -/
def enableConfiguration (cap : UInt64) : UInt32 :=
  (capMpsmin cap <<< 7) ||| ((6 : UInt32) <<< 16) ||| ((4 : UInt32) <<< 20) ||| nvmeCcEn

/-- The fields a successful `controller_init` sets at its end. -/
def adminReady (c : ControllerData) (cap : UInt64) : ControllerData :=
  { c with
    adminSqTail := 0
    adminCqHead := 0
    adminCqPhase := 1
    adminSqPhysAddr := c.adminSqMem.dmaAddr
    adminCqPhysAddr := c.adminCqMem.dmaAddr
    adminSqVirtAddr := c.adminSqMem.userVirtaddr
    adminCqVirtAddr := c.adminCqMem.userVirtaddr
    adminSqDepth := nvmeAdminQDepth
    adminCqDepth := nvmeAdminQDepth
    adminSqTailDb := adminSqTailDoorbell cap
    adminCqHeadDb := adminCqHeadDoorbell cap
    lbaShift := if c.lbaShift = 0 then 9 else c.lbaShift }

/-- `controller_init` from the store to AQA on. -/
def enableController (c : ControllerData) (cap : UInt64) :
    Admin (Bool × ControllerData) := do
  let .true ← controllerRegWrite32 c.bar0Virt nvmeRegAqa adminQueueAttributes
    | failReleased c
  let .true ← nvmeRegWrite64 c.bar0Virt nvmeRegAsq c.adminSqMem.dmaAddr
    | failReleased c
  let .true ← nvmeRegWrite64 c.bar0Virt nvmeRegAcq c.adminCqMem.dmaAddr
    | failReleased c
  let .true ← controllerRegWrite32 c.bar0Virt nvmeRegCc (enableConfiguration cap)
    | failReleased c
  let .true ← waitReady c.bar0Virt true (readyTimeoutMs cap) | failReleased c
  return (true, adminReady c cap)

/-- `controller_init` from the load of CC on. -/
def restartController (c : ControllerData) (cap : UInt64) :
    Admin (Bool × ControllerData) := do
  let some cc ← controllerRegRead32 c.bar0Virt nvmeRegCc | failReleased c
  if cc = nvmeRegInvalid32 then do
    printErrno "NVMe CC read returned all ones"
    failReleased c
  else if cc &&& nvmeCcEn ≠ 0 then do
    let .true ← controllerRegWrite32 c.bar0Virt nvmeRegCc (cc &&& ~~~nvmeCcEn)
      | failReleased c
    let .true ← waitReady c.bar0Virt false (readyTimeoutMs cap) | failReleased c
    enableController c cap
  else enableController c cap

/-- `controller_init` from the first allocation on. -/
def setupController (c : ControllerData) (cap : UInt64) :
    Admin (Bool × ControllerData) := do
  let (sqOk, c, sqMem) ← nvmeAllocDmaMem c (roundUpPage (64 * 32)) c.adminSqMem
  let c := { c with adminSqMem := sqMem }
  if !sqOk then failReleased c
  else do
    let (cqOk, c, cqMem) ← nvmeAllocDmaMem c (roundUpPage (16 * 32)) c.adminCqMem
    let c := { c with adminCqMem := cqMem }
    if !cqOk then failReleased c
    else do
      perform (Effect.zeroDma c.adminSqMem)
      perform (Effect.zeroDma c.adminCqMem)
      restartController c cap

/-- `controller_init` after BAR0 has been mapped. -/
def initMapped (c : ControllerData) : Admin (Bool × ControllerData) := do
  let some cap ← nvmeRegRead64 c.bar0Virt nvmeRegCap | failUnmapped c
  if cap = 0 then do
    printErrno "NVMe CAP read returned zero"
    failUnmapped c
  else if cap = nvmeRegInvalid64 then do
    printErrno "NVMe CAP read returned all ones"
    failUnmapped c
  else if readyTimeoutMs cap = 0 then do
    printErrno "NVMe CAP.TO is zero"
    failUnmapped c
  else setupController c cap

/-- `controller_init` -/
def controllerInit (c : ControllerData) : Admin (Bool × ControllerData) :=
  if c.bar0Virt = 0 then do
    let bar0 ← perform (Effect.bar0Map c.bus.toUInt8 c.dev.toUInt8 c.func.toUInt8)
    if bar0 = 0 then return (false, c)
    else initMapped { c with bar0Virt := bar0 }
  else initMapped c

/-! ## `controller_deinit` -/

/-- The part of `controller_deinit` that stops the controller. -/
def stopController (bar0 : UInt64) : Admin Unit := do
  let some cap ← nvmeRegRead64 bar0 nvmeRegCap | return ()
  if readyTimeoutMs cap ≠ 0 then do
    let some cc ← controllerRegRead32 bar0 nvmeRegCc | return ()
    if cc &&& nvmeCcEn ≠ 0 then do
      let .true ← controllerRegWrite32 bar0 nvmeRegCc (cc &&& ~~~nvmeCcEn) | return ()
      let _ ← waitReady bar0 false (readyTimeoutMs cap)
      return ()
    else return ()
  else return ()

/-- The fields `controller_deinit` clears at its end. -/
def adminCleared (c : ControllerData) : ControllerData :=
  { c with
    adminSqTail := 0
    adminCqHead := 0
    adminCqPhase := 0
    adminSqPhysAddr := 0
    adminCqPhysAddr := 0
    adminSqVirtAddr := 0
    adminCqVirtAddr := 0
    adminSqDepth := 0
    adminCqDepth := 0
    adminSqTailDb := 0
    adminCqHeadDb := 0
    size := 0 }

/-- `controller_deinit` after BAR0 has been unmapped. -/
def releaseController (c : ControllerData) : Admin ControllerData := do
  let c ← nvmeReleaseControllerDma c
  return adminCleared c

/-- `controller_deinit` -/
def controllerDeinit (c : ControllerData) : Admin ControllerData :=
  if c.bar0Virt ≠ 0 then do
    stopController c.bar0Virt
    let .true ← controllerBar0Unmap c.bar0Virt
      | do
          printErrno "failed to unmap NVMe BAR0"
          releaseController { c with bar0Virt := 0 }
    releaseController { c with bar0Virt := 0 }
  else releaseController c

/-! ## Admin commands -/

/-- `++i; if (i == depth) i = 0;` on the 16-bit admin queue indices. -/
def adminAdvance (i depth : UInt16) : UInt16 := if i + 1 = depth then 0 else i + 1

/-- The tail of the submission queue moves on. -/
def advanceAdminSq (c : ControllerData) : ControllerData :=
  { c with adminSqTail := adminAdvance c.adminSqTail c.adminSqDepth }

/-- What `submit_identify_namespace` and `submit_admin_command` have in common: the
entry is stored, then the doorbell is rung. -/
def submitCommand (c : ControllerData) (cmd : AdminCommand) :
    Admin (Bool × ControllerData) := do
  perform (Effect.writeSqe c.adminSqVirtAddr c.adminSqTail cmd)
  let c := advanceAdminSq c
  let .true ← controllerRegWrite32 c.bar0Virt c.adminSqTailDb c.adminSqTail.toUInt32
    | return (false, c)
  return (true, c)

/-- `submit_identify_namespace` -/
def submitIdentifyNamespace (c : ControllerData) (identifyPhys : UInt64)
    (cmdId : UInt16) : Admin (Bool × ControllerData) :=
  submitCommand c
    { opcode := nvmeAdminIdentifyOpcode
      cid := cmdId
      nsid := c.nsid.toUInt32
      prp1 := identifyPhys
      cdw10 := nvmeIdentifyCnsNamespace }

/-- `submit_admin_command` -/
def submitAdminCommand (c : ControllerData) (opcode : UInt8) (nsid : UInt32)
    (prp1 : UInt64) (cdw10 cdw11 : UInt32) (cmdId : UInt16) :
    Admin (Bool × ControllerData) :=
  submitCommand c { opcode, cid := cmdId, nsid, prp1, cdw10, cdw11 }

/-- What `wait_admin_completion` reports when it runs out of time. -/
def adminTimeoutMessage : String := "timeout waiting for NVMe admin completion"

/-- The head of the completion queue moves on; the phase flips when it wraps. -/
def advanceAdminCq (c : ControllerData) : ControllerData :=
  { c with
    adminCqHead := adminAdvance c.adminCqHead c.adminCqDepth
    adminCqPhase :=
      if c.adminCqHead + 1 = c.adminCqDepth then c.adminCqPhase ^^^ 1
      else c.adminCqPhase }

/-- `wait_admin_completion` once it has found the entry of its command. -/
def takeCompletion (c : ControllerData) (cqe : NvmeCqEntry) :
    Admin (Bool × ControllerData) := do
  let c := advanceAdminCq c
  let .true ← controllerRegWrite32 c.bar0Virt c.adminCqHeadDb c.adminCqHead.toUInt32
    | return (false, c)
  if cqeSct cqe.psf ≠ 0 ∨ cqeSc cqe.psf ≠ 0 then do
    printErrno "NVMe admin command completed with error"
    return (false, c)
  else return (true, c)

/-- The loop of `wait_admin_completion`, with the number of iterations left.  The
phase, id and status of an entry are loaded one after the other, but the
controller does not touch an entry it has posted before the host takes it. -/
def waitAdminCompletionLoop (c : ControllerData) (cmdId : UInt16) :
    Nat → Admin (Bool × ControllerData)
  | 0 => do
      printErrno adminTimeoutMessage
      return (false, c)
  | left + 1 => do
      let cqe ← perform (Effect.readCqe c.adminCqVirtAddr c.adminCqHead)
      if cqe.psf &&& nvmeCqePhaseMask = c.adminCqPhase.toUInt16 then
        if cqe.cid ≠ cmdId then do
          printErrno "unexpected NVMe admin completion command id"
          return (false, c)
        else takeCompletion c cqe
      else waitAdminCompletionLoop c cmdId left

/-- `wait_admin_completion` -/
def waitAdminCompletion (c : ControllerData) (cmdId : UInt16) (timeoutMs : UInt32) :
    Admin (Bool × ControllerData) :=
  waitAdminCompletionLoop c cmdId timeoutMs.toNat

/-! ## `nvme_get_file_size` -/

/-- `load_le64` -/
def loadLe64 (p : Nat → UInt8) : UInt64 :=
  (p 0).toUInt64 ||| ((p 1).toUInt64 <<< 8) ||| ((p 2).toUInt64 <<< 16) |||
    ((p 3).toUInt64 <<< 24) ||| ((p 4).toUInt64 <<< 32) ||| ((p 5).toUInt64 <<< 40) |||
    ((p 6).toUInt64 <<< 48) ||| ((p 7).toUInt64 <<< 56)

/-- The shift in the LBA format that FLBAS selects. -/
def identifyLbaShift (data : Nat → UInt8) : UInt8 :=
  data (128 + 4 * (data 26 &&& 0x0f).toNat + 2)

/-- `nvme_get_file_size` once the Identify data has arrived. -/
def readFileSize (c : ControllerData) (identify : Mem) :
    Admin (UInt64 × ControllerData) := do
  let data ← perform (Effect.readData identify)
  if h : (identifyLbaShift data).toNat < 64 then do
    let size := loadLe64 data <<< (identifyLbaShift data).toUInt64
    let _ ← freeDma identify
    return (size, { c with lbaShift := ⟨(identifyLbaShift data).toNat, h⟩, size := size })
  else do
    printErrno "invalid NVMe namespace LBA shift"
    let _ ← freeDma identify
    return (0, c)

/-- `nvme_get_file_size` once the Identify buffer has been allocated. -/
def identifyFileSize (c : ControllerData) (identify : Mem) :
    Admin (UInt64 × ControllerData) := do
  perform (Effect.zeroDma identify)
  let cmdId := c.adminCmdId
  let c := { c with adminCmdId := c.adminCmdId + 1 }
  let (submitted, c) ← submitIdentifyNamespace c identify.dmaAddr cmdId
  if !submitted then do
    let _ ← freeDma identify
    return (0, c)
  else do
    let (completed, c) ← waitAdminCompletion c cmdId nvmeAdminCmdTimeoutMs
    if !completed then do
      let _ ← freeDma identify
      return (0, c)
    else readFileSize c identify

/-- `nvme_get_file_size` -/
def nvmeGetFileSize (c : ControllerData) : Admin (UInt64 × ControllerData) :=
  if c.bar0Virt = 0 ∨ c.adminSqVirtAddr = 0 ∨ c.adminCqVirtAddr = 0 then do
    printErrno "invalid NVMe controller data"
    return (0, c)
  else if !c.dmaFdOpened then do
    printErrno "NVMe DMA allocator is not initialized"
    return (0, c)
  else do
    let some cap ← nvmeRegRead64 c.bar0Virt nvmeRegCap | return (0, c)
    if readyTimeoutMs cap = 0 then do
      printErrno "NVMe CAP.TO is zero"
      return (0, c)
    else do
      let (allocated, c, identify) ← nvmeAllocDmaMem c nvmeIdentifyDataSize {}
      if !allocated then return (0, c)
      else identifyFileSize c identify

end NewPerf.Tools
