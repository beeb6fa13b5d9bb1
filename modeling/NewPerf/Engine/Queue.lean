import NewPerf.Tools.Submit

/-!
# Admission of an I/O: `nvme_queue`

`nvme_queue` is the only caller of the submission functions in the engine.  It
turns a request down with `FIO_Q_BUSY` when the submission ring is full or the
next command id is still in use, completes it with an error when it cannot be
expressed in logical blocks, and otherwise submits it and records it in
`cmd_io_u`.

`nvmeQueue_queued` is the inversion lemma the rest of the development uses: it
says everything that an accepted request does to the engine's state.
-/

namespace NewPerf.Engine

open NewPerf.Lib.LeMemory
open NewPerf.Tools

/-- The fields of `struct thread_data` that the I/O path reads. -/
structure ThreadData where
  origBuffer : UInt64
  numRange : UInt32 := 1

def EINVAL : Int := 22

/-- `enum fio_q_status`, with `io_u->error` for a request completed at once and
the submission for a queued one. -/
inductive QueueResult where
  | busy
  | completed (error : Int)
  | queued (s : Submission)

/-- The request went to the device. -/
def QueueResult.isQueued : QueueResult → Bool
  | .queued _ => true
  | _ => false

theorem QueueResult.isQueued_iff {r : QueueResult} :
    r.isQueued = true ↔ ∃ s, r = .queued s := by
  cases r with
  | busy => simp [isQueued]
  | completed error => simp [isQueued]
  | queued s => simp [isQueued]

/-- `next_sq_tail` -/
def nextSqTail (n : NvmeData) : UInt32 := ringAdvance n.ioSqTail n.ioSqDepth

/-- `n->cmd_io_u[cid] = io_u;` after a submission function returned `cid`. -/
def recordIoU (ioU : IoU) (s : Submission) : QueueResult :=
  .queued { s with nvme := { s.nvme with
    cmdIoU := Function.update s.nvme.cmdIoU s.cmdId (some ioU) } }

/-- Bus address of the data: `io_u_data_phys_addr` plus the distance of
`xfer_buf` from `orig_buffer`. -/
def dataPhysAddr (td : ThreadData) (n : NvmeData) (ioU : IoU) : UInt64 :=
  n.ioUDataPhysAddr + (ioU.xferBuf - td.origBuffer)

/-- `nvme_queue`.  `fioHasMrt` is the compile-time switch `FIO_HAS_MRT`. -/
def nvmeQueue (fioHasMrt : Bool) (td : ThreadData) (c : ControllerData)
    (n : NvmeData) (ioU : IoU) : QueueResult :=
  if nextSqTail n = n.ioSqHead then .busy
  else if (n.cmdIoU (n.ioCmdId + 1)).isSome then .busy
  else if (ioU.offset ||| ioU.xferBuflen) &&&
      ((1 <<< UInt64.ofNat c.lbaShift) - 1) ≠ 0 then .completed EINVAL
  else
    let offset := ioU.offset >>> UInt64.ofNat c.lbaShift
    let len := ioU.xferBuflen >>> UInt64.ofNat c.lbaShift
    match ioU.ddir with
    | .read =>
        if len = 0 then .completed EINVAL
        else recordIoU ioU (nvmeRead c n offset len (dataPhysAddr td n ioU))
    | .write =>
        if len = 0 then .completed EINVAL
        else recordIoU ioU (nvmeWrite c n offset len (dataPhysAddr td n ioU))
    | .trim =>
        if len = 0 then .completed EINVAL
        else if fioHasMrt && td.numRange != 1 then
          recordIoU ioU (nvmeMultiRangeTrim c n ioU)
        else recordIoU ioU (nvmeTrim c n offset len)
    | .other => .completed EINVAL

/-! ## What an accepted request does -/

/-- The part of a submission that does not depend on the kind of command. -/
structure Accepted (n : NvmeData) (ioU : IoU) (s : Submission) : Prop where
  notFull : nextSqTail n ≠ n.ioSqHead
  cidFree : n.cmdIoU (n.ioCmdId + 1) = none
  cmdId : s.cmdId = n.ioCmdId + 1
  doorbell : s.doorbell = nextSqTail n
  nvme : s.nvme = { n with
    ioCmdId := n.ioCmdId + 1
    ioSqTail := nextSqTail n
    cmdIoU := Function.update n.cmdIoU (n.ioCmdId + 1) (some ioU) }
  sqCleared : ⟨sqEntryOff n.ioSqTail, nvmeIoSqEntrySize, 0⟩ ∈ s.sqStores
  sqConfined : SqConfined (sqEntryOff n.ioSqTail) s.sqStores
  sqCid : ∀ m, read (applyAll s.sqStores m) (sqEntryOff n.ioSqTail + 2) 2 =
    s.cmdId.toNat

private theorem accepted_submitRw (c : ControllerData) (n : NvmeData) (ioU : IoU)
    (opcode : UInt8) (offset size dmaAddr : UInt64) {s : Submission}
    (hFull : nextSqTail n ≠ n.ioSqHead)
    (hFree : n.cmdIoU (n.ioCmdId + 1) = none)
    (hs : recordIoU ioU (submitRwCommand c n opcode offset size dmaAddr) =
      .queued s) : Accepted n ioU s := by
  cases hs
  exact
    { notFull := hFull
      cidFree := hFree
      cmdId := rfl
      doorbell := rfl
      nvme := rfl
      sqCleared := List.mem_cons_self
      sqConfined := rwSqStores_confined _ _ _ _ _ _ _ _
      sqCid := read_cid_rwSqStores _ _ _ _ _ _ _ _ }

private theorem accepted_submitDsm (c : ControllerData) (n : NvmeData) (ioU : IoU)
    (cdw10 : UInt32) (rangeStores : List Store) {s : Submission}
    (hFull : nextSqTail n ≠ n.ioSqHead)
    (hFree : n.cmdIoU (n.ioCmdId + 1) = none)
    (hs : recordIoU ioU (submitDsmCommand c n cdw10 rangeStores) = .queued s) :
    Accepted n ioU s := by
  cases hs
  exact
    { notFull := hFull
      cidFree := hFree
      cmdId := rfl
      doorbell := rfl
      nvme := rfl
      sqCleared := List.mem_cons_self
      sqConfined := dsmSqStores_confined _ _ _ _ _
      sqCid := read_cid_dsmSqStores _ _ _ _ _ }

/-- The stores an accepted request performs into `io_prp_list_mem`, by kind of
request.  The request has a non-zero length that is a multiple of the block
size. -/
inductive PrpStores (fioHasMrt : Bool) (td : ThreadData) (c : ControllerData)
    (n : NvmeData) (ioU : IoU) : List Store → Prop where
  | rw (hDir : ioU.ddir = .read ∨ ioU.ddir = .write) :
      PrpStores fioHasMrt td c n ioU
        (setupPrps n n.ioSqTail (dataPhysAddr td n ioU)
          ((ioU.xferBuflen >>> UInt64.ofNat c.lbaShift) <<<
            UInt64.ofNat c.lbaShift)).listStores
  | trim (hDir : ioU.ddir = .trim) (hOne : (fioHasMrt && td.numRange != 1) = false) :
      PrpStores fioHasMrt td c n ioU
        (dsmRangeStores (slotPageOff n.ioSqTail)
          (ioU.xferBuflen >>> UInt64.ofNat c.lbaShift).toUInt32
          (ioU.offset >>> UInt64.ofNat c.lbaShift))
  | multi (hDir : ioU.ddir = .trim) (hMany : (fioHasMrt && td.numRange != 1) = true) :
      PrpStores fioHasMrt td c n ioU
        (dsmRangeLoop c ioU (slotPageOff n.ioSqTail) 0 ioU.numberTrim.toNat)

/-- The alignment test of `nvme_queue` passed and the length is not zero. -/
structure Expressible (c : ControllerData) (ioU : IoU) : Prop where
  aligned : (ioU.offset ||| ioU.xferBuflen) &&&
    ((1 <<< UInt64.ofNat c.lbaShift) - 1) = 0
  len_ne : ioU.xferBuflen >>> UInt64.ofNat c.lbaShift ≠ 0

/-- Inversion of `nvme_queue` at `FIO_Q_QUEUED`. -/
theorem nvmeQueue_queued {fioHasMrt : Bool} {td : ThreadData} {c : ControllerData}
    {n : NvmeData} {ioU : IoU} {s : Submission}
    (h : nvmeQueue fioHasMrt td c n ioU = .queued s) :
    Accepted n ioU s ∧ Expressible c ioU ∧
      PrpStores fioHasMrt td c n ioU s.prpStores := by
  unfold nvmeQueue at h
  split at h
  · cases h
  rename_i hFull
  split at h
  · cases h
  rename_i hCid
  have hFree : n.cmdIoU (n.ioCmdId + 1) = none := by simpa using hCid
  split at h
  · cases h
  rename_i hAligned
  rw [not_not] at hAligned
  dsimp only at h
  split at h
  case h_1 hDir =>
      split at h
      · cases h
      · rename_i hLen
        refine ⟨accepted_submitRw _ _ _ _ _ _ _ hFull hFree h, ⟨hAligned, hLen⟩, ?_⟩
        cases h
        exact .rw (Or.inl hDir)
  case h_2 hDir =>
      split at h
      · cases h
      · rename_i hLen
        refine ⟨accepted_submitRw _ _ _ _ _ _ _ hFull hFree h, ⟨hAligned, hLen⟩, ?_⟩
        cases h
        exact .rw (Or.inr hDir)
  case h_3 hDir =>
      split at h
      · cases h
      · rename_i hLen
        split at h
        · rename_i hMany
          refine ⟨accepted_submitDsm _ _ _ _ _ hFull hFree h, ⟨hAligned, hLen⟩, ?_⟩
          cases h
          exact .multi hDir hMany
        · rename_i hOne
          refine ⟨accepted_submitDsm _ _ _ _ _ hFull hFree h, ⟨hAligned, hLen⟩, ?_⟩
          cases h
          exact .trim hDir (by simpa using hOne)
  case h_4 => cases h

/-- An accepted read or write, completely: the submission queue entry it writes
and the PRPs it is given. -/
theorem nvmeQueue_rw {fioHasMrt : Bool} {td : ThreadData} {c : ControllerData}
    {n : NvmeData} {ioU : IoU} {s : Submission}
    (h : nvmeQueue fioHasMrt td c n ioU = .queued s)
    (hDir : ioU.ddir = .read ∨ ioU.ddir = .write) :
    ∃ opcode,
      opcode = (if ioU.ddir = .read then nvmeIoReadOpcode else nvmeIoWriteOpcode) ∧
      s.sqStores = (submitRwCommand c n opcode
        (ioU.offset >>> UInt64.ofNat c.lbaShift)
        (ioU.xferBuflen >>> UInt64.ofNat c.lbaShift)
        (dataPhysAddr td n ioU)).sqStores := by
  refine ⟨_, rfl, ?_⟩
  rcases hDir with hDir | hDir
  all_goals
    simp only [nvmeQueue, hDir] at h
    split_ifs at h
    cases h
    rw [hDir]
    rfl

/-- `FIO_Q_BUSY` is returned for exactly two reasons. -/
theorem nvmeQueue_busy {fioHasMrt : Bool} {td : ThreadData} {c : ControllerData}
    {n : NvmeData} {ioU : IoU} (h : nvmeQueue fioHasMrt td c n ioU = .busy) :
    nextSqTail n = n.ioSqHead ∨ (n.cmdIoU (n.ioCmdId + 1)).isSome := by
  unfold nvmeQueue at h
  split at h
  · exact Or.inl ‹_›
  split at h
  · exact Or.inr ‹_›
  split at h
  · cases h
  dsimp only at h
  split at h <;> repeat' (first | (split at h) | cases h)

/-! ## Lengths in blocks and in bytes -/

private theorem toNat_shift (shift : Fin 64) :
    (UInt64.ofNat shift).toNat % 64 = shift := by
  rw [UInt64.toNat_ofNat']
  omega

/-- Shifting bytes to blocks divides. -/
theorem toNat_blocks (shift : Fin 64) (x : UInt64) :
    (x >>> UInt64.ofNat shift).toNat = x.toNat / 2 ^ shift.val := by
  rw [UInt64.toNat_shiftRight, toNat_shift, Nat.shiftRight_eq_div_pow]

/-- The block mask of `nvme_queue` as a number. -/
private theorem toNat_blockMask (shift : Fin 64) :
    ((1 <<< UInt64.ofNat shift) - 1 : UInt64).toNat = 2 ^ shift.val - 1 := by
  have hPow : 2 ^ shift.val < 2 ^ 64 := Nat.pow_lt_pow_right (by omega) shift.isLt
  have hPos : 0 < 2 ^ shift.val := Nat.two_pow_pos _
  rw [UInt64.toNat_sub, UInt64.toNat_shiftLeft, toNat_shift, UInt64.toNat_one,
    Nat.shiftLeft_eq, Nat.one_mul]
  omega

/-- The alignment test covers offset and length on their own. -/
theorem Expressible.both_mod {c : ControllerData} {ioU : IoU} (h : Expressible c ioU) :
    ioU.offset.toNat % 2 ^ c.lbaShift.val = 0 ∧
      ioU.xferBuflen.toNat % 2 ^ c.lbaShift.val = 0 := by
  have hBits := congrArg UInt64.toNat h.aligned
  rw [UInt64.toNat_and, UInt64.toNat_or, toNat_blockMask,
    Nat.and_two_pow_sub_one_eq_mod, Nat.or_mod_two_pow, UInt64.toNat_zero,
    Nat.or_eq_zero_iff] at hBits
  exact hBits

theorem Expressible.len_mod {c : ControllerData} {ioU : IoU}
    (h : Expressible c ioU) : ioU.xferBuflen.toNat % 2 ^ c.lbaShift.val = 0 :=
  h.both_mod.2

/-- Shifting an aligned length to blocks and back loses nothing. -/
theorem Expressible.transferSize {c : ControllerData} {ioU : IoU}
    (h : Expressible c ioU) :
    (ioU.xferBuflen >>> UInt64.ofNat c.lbaShift) <<< UInt64.ofNat c.lbaShift =
      ioU.xferBuflen := by
  apply UInt64.toNat_inj.mp
  rw [UInt64.toNat_shiftLeft, UInt64.toNat_shiftRight, toNat_shift,
    Nat.shiftRight_eq_div_pow, Nat.shiftLeft_eq,
    Nat.div_mul_cancel (Nat.dvd_of_mod_eq_zero h.len_mod)]
  exact Nat.mod_eq_of_lt ioU.xferBuflen.toNat_lt

theorem Expressible.len_pos {c : ControllerData} {ioU : IoU}
    (h : Expressible c ioU) : 0 < ioU.xferBuflen.toNat := by
  apply Nat.pos_of_ne_zero
  intro hZero
  apply h.len_ne
  apply UInt64.toNat_inj.mp
  rw [UInt64.toNat_shiftRight, hZero, Nat.zero_shiftRight]
  rfl

/-! ## The smallest queue pair

Concrete results below and in later modules are about this configuration. -/

/-- A queue pair of depth two as `nvme_init` builds it, with a data region of
4 MiB at bus address `0x10000`. -/
def smallPair : NvmeData :=
  { ioSqDepth := 2, ioCqDepth := 2, ioCqPahse := 1
    ioSqMem := { size := 4096 }, ioPrpListMem := { size := 8192 }
    ioUDataPhysAddr := 0x10000, ioUDataMem := { size := 0x400000 } }

def smallThread : ThreadData := { origBuffer := 0x7000 }

def smallController : ControllerData := { nsid := 1, lbaShift := 9 }

/-- A read of `len` bytes at offset 0 into `buf`. -/
def readInto (buf len : UInt64) : IoU :=
  { addr := 0x100, ddir := .read, offset := 0, xferBuflen := len, xferBuf := buf }

end NewPerf.Engine
