import NewPerf.Tools.Prps

/-!
# Building and submitting I/O commands

`submit_rw_command`, `nvme_trim` and `nvme_multi_range_trim` all do the same
four things: they fill the page of `io_prp_list_mem` that belongs to the slot
`io_sq_tail`, take the next command id, write the 64-byte submission queue
entry, and advance and publish the tail.  What they store is kept as data
(`Submission`), so that where the stores go and what the device reads can both
be stated about the same object.
-/

namespace NewPerf.Tools

open NewPerf.Lib.LeMemory

/-- The outcome of a submission function: the new `struct nvme_data`, the
command id it returns, its stores into `io_sq_mem` and into `io_prp_list_mem`
(both as offsets from the base of the region), and the value it writes to the
register `io_sq_tail_db`. -/
structure Submission where
  nvme : NvmeData
  cmdId : UInt16
  sqStores : List Store
  prpStores : List Store
  doorbell : UInt32

/-- The common end of the three submission functions: `++n->io_cmd_id`, the
tail advance and the doorbell write. -/
def finishSubmit (n : NvmeData) (sqStores prpStores : List Store) : Submission :=
  let tail := ringAdvance n.ioSqTail n.ioSqDepth
  { nvme := { n with ioCmdId := n.ioCmdId + 1, ioSqTail := tail }
    cmdId := n.ioCmdId + 1
    sqStores := sqStores
    prpStores := prpStores
    doorbell := tail }

/-- Byte offset of the submission queue entry of slot `sqSlot`. -/
def sqEntryOff (sqSlot : UInt32) : Nat := nvmeIoSqEntrySize * sqSlot.toNat

/-- The fields `submit_rw_command` writes, at the layout of
`struct nvme_command`. -/
def rwSqStores (base : Nat) (opcode : UInt8) (cmdId nsid : UInt16)
    (prp1 prp2 slba : UInt64) (length : UInt32) : List Store :=
  [ ⟨base, nvmeIoSqEntrySize, 0⟩
  , ⟨base, 1, opcode.toNat⟩
  , ⟨base + 2, 2, cmdId.toNat⟩
  , ⟨base + 4, 4, nsid.toNat⟩
  , ⟨base + 24, 8, prp1.toNat⟩
  , ⟨base + 32, 8, prp2.toNat⟩
  , ⟨base + 40, 8, slba.toNat⟩
  , ⟨base + 48, 4, length.toNat⟩ ]

/-- `submit_rw_command` -/
def submitRwCommand (c : ControllerData) (n : NvmeData) (opcode : UInt8)
    (offset size dmaAddr : UInt64) : Submission :=
  let transferSize := size <<< UInt64.ofNat c.lbaShift
  let sqSlot := n.ioSqTail
  let prps := setupPrps n sqSlot dmaAddr transferSize
  finishSubmit n
    (rwSqStores (sqEntryOff sqSlot) opcode (n.ioCmdId + 1) c.nsid prps.prp1
      prps.prp2 offset (size - 1).toUInt32)
    prps.listStores

/-- `nvme_read` -/
def nvmeRead (c : ControllerData) (n : NvmeData)
    (offset size dmaAddr : UInt64) : Submission :=
  submitRwCommand c n nvmeIoReadOpcode offset size dmaAddr

/-- `nvme_write` -/
def nvmeWrite (c : ControllerData) (n : NvmeData)
    (offset size dmaAddr : UInt64) : Submission :=
  submitRwCommand c n nvmeIoWriteOpcode offset size dmaAddr

/-! ## Dataset Management -/

/-- The three fields of one `struct nvme_dsm_range` at byte offset `range`. -/
def dsmRangeStores (range : Nat) (length : UInt32) (slba : UInt64) : List Store :=
  [ ⟨range, 4, 0⟩, ⟨range + 4, 4, length.toNat⟩, ⟨range + 8, 8, slba.toNat⟩ ]

/-- The dwords both trim functions write into the submission queue entry. -/
def dsmSqStores (base : Nat) (cmdId nsid : UInt16) (rangePhys : UInt64)
    (cdw10 : UInt32) : List Store :=
  [ ⟨base, nvmeIoSqEntrySize, 0⟩
  , ⟨base, 4,
      (nvmeIoDatasetManagementOpcode.toUInt32 ||| cmdId.toUInt32 <<< 16).toNat⟩
  , ⟨base + 4, 4, nsid.toNat⟩
  , ⟨base + 24, 4, rangePhys.toUInt32.toNat⟩
  , ⟨base + 28, 4, (rangePhys >>> 32).toUInt32.toNat⟩
  , ⟨base + 40, 4, cdw10.toNat⟩
  , ⟨base + 44, 4, nvmeDsmAttrDeallocate.toNat⟩ ]

/-- Submit a Dataset Management command whose range table, already written by
`rangeStores`, is the slot's page. -/
def submitDsmCommand (c : ControllerData) (n : NvmeData) (cdw10 : UInt32)
    (rangeStores : List Store) : Submission :=
  let sqSlot := n.ioSqTail
  let rangeOffset := sqSlot.toUInt64 <<< nvmePageShift
  let rangePhys := n.ioPrpListPhysAddr + rangeOffset
  finishSubmit n
    (dsmSqStores (sqEntryOff sqSlot) (n.ioCmdId + 1) c.nsid rangePhys cdw10)
    rangeStores

/-- Byte offset of the page of `io_prp_list_mem` that belongs to a slot. -/
def slotPageOff (sqSlot : UInt32) : Nat :=
  (sqSlot.toUInt64 <<< nvmePageShift).toNat

/-- `nvme_trim` -/
def nvmeTrim (c : ControllerData) (n : NvmeData) (offset size : UInt64) :
    Submission :=
  submitDsmCommand c n 0
    (dsmRangeStores (slotPageOff n.ioSqTail) size.toUInt32 offset)

/-- The loop of `nvme_multi_range_trim`, from descriptor `i` on. -/
def dsmRangeLoop (c : ControllerData) (ioU : IoU) (range i : Nat) :
    Nat → List Store
  | 0 => []
  | remaining + 1 =>
      let tr := ioU.trimRange i
      dsmRangeStores range (tr.len >>> UInt64.ofNat c.lbaShift).toUInt32
          (tr.start >>> UInt64.ofNat c.lbaShift) ++
        dsmRangeLoop c ioU (range + 16) (i + 1) remaining

/-- `nvme_multi_range_trim` -/
def nvmeMultiRangeTrim (c : ControllerData) (n : NvmeData) (ioU : IoU) :
    Submission :=
  let numRange := ioU.numberTrim
  submitDsmCommand c n (numRange - 1)
    (dsmRangeLoop c ioU (slotPageOff n.ioSqTail) 0 numRange.toNat)

/-! ## Where the stores go -/

/-- A submission queue entry of the slot is written only inside its 64 bytes. -/
def SqConfined (base : Nat) (ss : List Store) : Prop :=
  ∀ s ∈ ss, s.Within base (base + nvmeIoSqEntrySize)

theorem rwSqStores_confined (base : Nat) (opcode : UInt8) (cmdId nsid : UInt16)
    (prp1 prp2 slba : UInt64) (length : UInt32) :
    SqConfined base (rwSqStores base opcode cmdId nsid prp1 prp2 slba length) := by
  intro s hs
  simp only [rwSqStores, List.mem_cons, List.not_mem_nil, or_false] at hs
  rcases hs with rfl | rfl | rfl | rfl | rfl | rfl | rfl | rfl
  all_goals simp [Store.Within, nvmeIoSqEntrySize]

theorem dsmSqStores_confined (base : Nat) (cmdId nsid : UInt16)
    (rangePhys : UInt64) (cdw10 : UInt32) :
    SqConfined base (dsmSqStores base cmdId nsid rangePhys cdw10) := by
  intro s hs
  simp only [dsmSqStores, List.mem_cons, List.not_mem_nil, or_false] at hs
  rcases hs with rfl | rfl | rfl | rfl | rfl | rfl | rfl
  all_goals simp [Store.Within, nvmeIoSqEntrySize]

theorem tiles_dsmRangeStores (range : Nat) (length : UInt32) (slba : UInt64) :
    Tiles (dsmRangeStores range length slba) range 16 :=
  .cons (s := ⟨range, 4, 0⟩) (by simp)
    (.cons (s := ⟨range + 4, 4, length.toNat⟩) (by simp)
      (.cons (s := ⟨range + 8, 8, slba.toNat⟩) (by simp) .nil))

/-- The range loop fills one descriptor an iteration. -/
theorem tiles_dsmRangeLoop (c : ControllerData) (ioU : IoU) (range i remaining : Nat) :
    Tiles (dsmRangeLoop c ioU range i remaining) range (16 * remaining) := by
  induction remaining generalizing range i with
  | zero => exact .nil
  | succ remaining ih =>
      rw [show 16 * (remaining + 1) = 16 + 16 * remaining by omega]
      exact (tiles_dsmRangeStores range _ _).append (ih _ _)

theorem slotPageOff_eq (sqSlot : UInt32) :
    slotPageOff sqSlot = 4096 * sqSlot.toNat :=
  toNat_slotPage sqSlot

/-! ## What the device reads back -/

/-- Command id field of the submission queue entry of slot `slot`, as the
controller decodes it. -/
def sqEntryCid (sq : Bytes) (slot : Nat) : UInt16 :=
  UInt16.ofNat (read sq (nvmeIoSqEntrySize * slot + 2) 2)

/-- The read-write layout puts the command id in its own field. -/
theorem read_cid_rwSqStores (base : Nat) (opcode : UInt8) (cmdId nsid : UInt16)
    (prp1 prp2 slba : UInt64) (length : UInt32) (m : Bytes) :
    read (applyAll (rwSqStores base opcode cmdId nsid prp1 prp2 slba length) m)
      (base + 2) 2 = cmdId.toNat :=
  read_stored (j := 2) rfl m cmdId.toNat_lt (by simp [rwSqStores, Store.Avoids])

/-- The first dword of a Dataset Management command. -/
theorem toNat_dsmDword0 (cmdId : UInt16) :
    (nvmeIoDatasetManagementOpcode.toUInt32 ||| cmdId.toUInt32 <<< 16).toNat =
      9 + cmdId.toNat * 2 ^ 16 := by
  have hId : cmdId.toNat < 2 ^ 16 := cmdId.toNat_lt
  have hShift : (cmdId.toUInt32 <<< 16).toNat = cmdId.toNat <<< 16 := by
    rw [UInt32.toNat_shiftLeft, UInt16.toNat_toUInt32]
    have h16 : (16 : UInt32).toNat % 32 = 16 := by decide
    rw [h16, Nat.shiftLeft_eq]
    omega
  have hOpcode : nvmeIoDatasetManagementOpcode.toUInt32.toNat = 9 := by decide
  rw [UInt32.toNat_or, hShift, hOpcode, Nat.or_comm,
    ← Nat.shiftLeft_add_eq_or_of_lt (by decide : (9 : Nat) < 2 ^ 16),
    Nat.shiftLeft_eq, Nat.add_comm]

/-- The Dataset Management layout puts the command id in the high half of the
first dword. -/
theorem read_cid_dsmSqStores (base : Nat) (cmdId nsid : UInt16)
    (rangePhys : UInt64) (cdw10 : UInt32) (m : Bytes) :
    read (applyAll (dsmSqStores base cmdId nsid rangePhys cdw10) m)
      (base + 2) 2 = cmdId.toNat := by
  have hId : cmdId.toNat < 2 ^ 16 := cmdId.toNat_lt
  refine read_applyAll (j := 1) rfl m 2 rfl (by decide) ?_
    (by simp [dsmSqStores, Store.Avoids])
  rw [toNat_dsmDword0]
  omega

/-- PRP1 and PRP2 of the submission queue entry of slot `slot`, as the
controller decodes them. -/
def sqEntryPrp1 (sq : Bytes) (slot : Nat) : UInt64 :=
  UInt64.ofNat (read sq (nvmeIoSqEntrySize * slot + 24) 8)

@[inherit_doc sqEntryPrp1]
def sqEntryPrp2 (sq : Bytes) (slot : Nat) : UInt64 :=
  UInt64.ofNat (read sq (nvmeIoSqEntrySize * slot + 32) 8)

theorem read_prps_rwSqStores (base : Nat) (opcode : UInt8) (cmdId nsid : UInt16)
    (prp1 prp2 slba : UInt64) (length : UInt32) (m : Bytes) :
    let m' := applyAll (rwSqStores base opcode cmdId nsid prp1 prp2 slba length) m
    read m' (base + 24) 8 = prp1.toNat ∧ read m' (base + 32) 8 = prp2.toNat := by
  constructor
  · exact read_stored (j := 4) rfl m prp1.toNat_lt (by simp [rwSqStores, Store.Avoids])
  · exact read_stored (j := 5) rfl m prp2.toNat_lt (by simp [rwSqStores, Store.Avoids])

end NewPerf.Tools
