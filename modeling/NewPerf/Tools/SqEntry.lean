import NewPerf.Tools.Submit

/-!
# What the controller finds in a submission queue entry

The controller reads the 64 bytes of an entry by the layout of the NVM command set; for
Dataset Management it then reads range descriptors from the page that PRP1 names.
`decodeSqEntry` and `decodeDsmRange` are its view of the stores in `Submit`.
-/

namespace NewPerf.Tools

open NewPerf.Lib.LeMemory

/-- The fields of an entry.  `slba` is what commands that use it find in CDW10 and
CDW11. -/
structure SqEntry where
  opcode : Nat
  cid : Nat
  nsid : Nat
  prp1 : Nat
  slba : Nat
  cdw10 : Nat
  cdw11 : Nat
  cdw12 : Nat
  cdw13 : Nat
  cdw14 : Nat
  cdw15 : Nat
  deriving DecidableEq, Repr

/-- Decode the entry at byte offset `base` of the submission queue. -/
def decodeSqEntry (sq : Bytes) (base : Nat) : SqEntry where
  opcode := read sq base 1
  cid := read sq (base + 2) 2
  nsid := read sq (base + 4) 4
  prp1 := read sq (base + 24) 8
  slba := read sq (base + 40) 8
  cdw10 := read sq (base + 40) 4
  cdw11 := read sq (base + 44) 4
  cdw12 := read sq (base + 48) 4
  cdw13 := read sq (base + 52) 4
  cdw14 := read sq (base + 56) 4
  cdw15 := read sq (base + 60) 4

/-- What a read or write command says. -/
theorem decode_rwSqStores (base : Nat) (opcode : UInt8) (cmdId nsid : UInt16)
    (prp1 prp2 slba : UInt64) (length : UInt32) (m : Bytes) :
    decodeSqEntry (applyAll (rwSqStores base opcode cmdId nsid prp1 prp2 slba length) m) base =
      { opcode := opcode.toNat
        cid := cmdId.toNat
        nsid := nsid.toNat
        prp1 := prp1.toNat
        slba := slba.toNat
        cdw10 := slba.toNat % 2 ^ 32
        cdw11 := slba.toNat / 2 ^ 32
        cdw12 := length.toNat
        cdw13 := 0
        cdw14 := 0
        cdw15 := 0 } := by
  have hNsid : nsid.toNat < 256 ^ 4 := Nat.lt_trans nsid.toNat_lt (by decide)
  have hSlba : slba.toNat < 2 ^ 64 := slba.toNat_lt
  rw [decodeSqEntry, SqEntry.mk.injEq]
  refine ⟨?_, ?_, ?_, ?_, ?_, ?_, ?_, ?_, ?_, ?_, ?_⟩
  · exact read_stored (j := 1) rfl m opcode.toNat_lt (by simp [rwSqStores, Store.Avoids])
  · exact read_stored (j := 2) rfl m cmdId.toNat_lt (by simp [rwSqStores, Store.Avoids])
  · exact read_stored (j := 3) rfl m hNsid (by simp [rwSqStores, Store.Avoids])
  · exact read_stored (j := 4) rfl m prp1.toNat_lt (by simp [rwSqStores, Store.Avoids])
  · exact read_stored (j := 6) rfl m slba.toNat_lt (by simp [rwSqStores, Store.Avoids])
  · exact read_applyAll (j := 6) rfl m 0 rfl (by decide) (by simp)
      (by simp [rwSqStores, Store.Avoids])
  · exact read_applyAll (j := 6) rfl m 4 rfl (by decide) (Nat.mod_eq_of_lt (by omega))
      (by simp [rwSqStores, Store.Avoids])
  · exact read_stored (j := 7) rfl m length.toNat_lt (by simp [rwSqStores, Store.Avoids])
  -- The remaining dwords are left as the `memset` made them.
  · exact read_applyAll (j := 0) rfl m 52 rfl (by decide) (by simp)
      (by simp [rwSqStores, Store.Avoids])
  · exact read_applyAll (j := 0) rfl m 56 rfl (by decide) (by simp)
      (by simp [rwSqStores, Store.Avoids])
  · exact read_applyAll (j := 0) rfl m 60 rfl (by decide) (by simp)
      (by simp [rwSqStores, Store.Avoids])

/-- What a Dataset Management command says. -/
theorem decode_dsmSqStores (base : Nat) (cmdId nsid : UInt16) (rangePhys : UInt64)
    (cdw10 : UInt32) (m : Bytes) :
    decodeSqEntry (applyAll (dsmSqStores base cmdId nsid rangePhys cdw10) m) base =
      { opcode := nvmeIoDatasetManagementOpcode.toNat
        cid := cmdId.toNat
        nsid := nsid.toNat
        prp1 := rangePhys.toNat
        slba := cdw10.toNat + 2 ^ 32 * nvmeDsmAttrDeallocate.toNat
        cdw10 := cdw10.toNat
        cdw11 := nvmeDsmAttrDeallocate.toNat
        cdw12 := 0
        cdw13 := 0
        cdw14 := 0
        cdw15 := 0 } := by
  have hNsid : nsid.toNat < 256 ^ 4 := Nat.lt_trans nsid.toNat_lt (by decide)
  have hPhys : rangePhys.toNat < 2 ^ 64 := rangePhys.toNat_lt
  have hCdw10 : read (applyAll (dsmSqStores base cmdId nsid rangePhys cdw10) m)
      (base + 40) 4 = cdw10.toNat :=
    read_stored (j := 5) rfl m cdw10.toNat_lt (by simp [dsmSqStores, Store.Avoids])
  have hCdw11 : read (applyAll (dsmSqStores base cmdId nsid rangePhys cdw10) m)
      (base + 44) 4 = nvmeDsmAttrDeallocate.toNat :=
    read_stored (j := 6) rfl m (by decide) (by simp [dsmSqStores])
  have hLow : read (applyAll (dsmSqStores base cmdId nsid rangePhys cdw10) m)
      (base + 24) 4 = rangePhys.toUInt32.toNat :=
    read_stored (j := 3) rfl m (rangePhys.toUInt32.toNat_lt)
      (by simp [dsmSqStores, Store.Avoids])
  have hHigh : read (applyAll (dsmSqStores base cmdId nsid rangePhys cdw10) m)
      (base + 28) 4 = (rangePhys >>> 32).toUInt32.toNat :=
    read_stored (j := 4) rfl m ((rangePhys >>> 32).toUInt32.toNat_lt)
      (by simp [dsmSqStores, Store.Avoids])
  rw [decodeSqEntry, SqEntry.mk.injEq]
  refine ⟨?_, read_cid_dsmSqStores _ _ _ _ _ _, ?_, ?_, ?_, hCdw10, hCdw11, ?_, ?_, ?_, ?_⟩
  · have hOpcode : nvmeIoDatasetManagementOpcode.toNat = 9 := by decide
    exact read_applyAll (j := 1) rfl m 0 rfl (by decide)
      (by rw [toNat_dsmDword0, hOpcode]; omega) (by simp [dsmSqStores, Store.Avoids])
  · exact read_stored (j := 2) rfl m hNsid (by simp [dsmSqStores, Store.Avoids])
  · rw [read_add _ _ 4 4, Nat.add_assoc, hLow, hHigh, UInt64.toNat_toUInt32,
      UInt64.toNat_toUInt32, UInt64.toNat_shiftRight,
      show (32 : UInt64).toNat % 64 = 32 by decide, Nat.shiftRight_eq_div_pow]
    omega
  · rw [read_add _ _ 4 4, Nat.add_assoc, hCdw10, hCdw11]
    rfl
  · exact read_applyAll (j := 0) rfl m 48 rfl (by decide) (by simp)
      (by simp [dsmSqStores, Store.Avoids])
  · exact read_applyAll (j := 0) rfl m 52 rfl (by decide) (by simp)
      (by simp [dsmSqStores, Store.Avoids])
  · exact read_applyAll (j := 0) rfl m 56 rfl (by decide) (by simp)
      (by simp [dsmSqStores, Store.Avoids])
  · exact read_applyAll (j := 0) rfl m 60 rfl (by decide) (by simp)
      (by simp [dsmSqStores, Store.Avoids])

/-! ## Range descriptors -/

structure DsmRange where
  attributes : Nat
  length : Nat
  slba : Nat
  deriving DecidableEq, Repr

/-- Decode the `struct nvme_dsm_range` at byte offset `range`. -/
def decodeDsmRange (page : Bytes) (range : Nat) : DsmRange where
  attributes := read page range 4
  length := read page (range + 4) 4
  slba := read page (range + 8) 8

theorem decode_dsmRangeStores (range : Nat) (length : UInt32) (slba : UInt64) (m : Bytes) :
    decodeDsmRange (applyAll (dsmRangeStores range length slba) m) range =
      ⟨0, length.toNat, slba.toNat⟩ := by
  rw [decodeDsmRange, DsmRange.mk.injEq]
  refine ⟨?_, ?_, ?_⟩
  · exact read_stored (j := 0) rfl m (by decide) (by simp [dsmRangeStores, Store.Avoids])
  · exact read_stored (j := 1) rfl m length.toNat_lt (by simp [dsmRangeStores, Store.Avoids])
  · exact read_stored (j := 2) rfl m slba.toNat_lt (by simp [dsmRangeStores])

/-- Stores elsewhere do not change a descriptor. -/
theorem decodeDsmRange_of_avoids (ss : List Store) (m : Bytes) (range : Nat)
    (h : ∀ s ∈ ss, s.Avoids range (range + 16)) :
    decodeDsmRange (applyAll ss m) range = decodeDsmRange m range := by
  have hPart : ∀ k width, k + width ≤ 16 →
      read (applyAll ss m) (range + k) width = read m (range + k) width := by
    intro k width hk
    refine read_applyAll_of_avoids ss m _ _ fun s hs => ?_
    have hAvoids := h s hs
    simp only [Store.Avoids] at hAvoids ⊢
    omega
  have hFirst := hPart 0 4 (by omega)
  rw [Nat.add_zero] at hFirst
  rw [decodeDsmRange, decodeDsmRange, hFirst, hPart 4 4 (by omega), hPart 8 8 (by omega)]

/-- The loop of `nvme_multi_range_trim` writes one descriptor an iteration, and none of
them over an earlier one. -/
theorem decode_dsmRangeLoop (c : ControllerData) (ioU : IoU) (range i : Nat) {j remaining : Nat}
    (hj : j < remaining) (m : Bytes) :
    decodeDsmRange (applyAll (dsmRangeLoop c ioU range i remaining) m) (range + 16 * j) =
      ⟨0, ((ioU.trimRange (i + j)).len >>> UInt64.ofNat c.lbaShift).toUInt32.toNat,
        ((ioU.trimRange (i + j)).start >>> UInt64.ofNat c.lbaShift).toNat⟩ := by
  induction remaining generalizing range i j m with
  | zero => omega
  | succ remaining ih =>
      rw [dsmRangeLoop, applyAll_append]
      cases j with
      | zero =>
          rw [Nat.mul_zero, Nat.add_zero, decodeDsmRange_of_avoids, Nat.add_zero]
          · exact decode_dsmRangeStores _ _ _ _
          · refine ((tiles_dsmRangeLoop c ioU (range + 16) (i + 1) remaining).avoids_iff
              (by omega)).mpr ?_
            omega
      | succ j =>
          have hRest := ih (range + 16) (i + 1) (j := j) (by omega)
            (applyAll (dsmRangeStores range
              ((ioU.trimRange i).len >>> UInt64.ofNat c.lbaShift).toUInt32
              ((ioU.trimRange i).start >>> UInt64.ofNat c.lbaShift)) m)
          rw [show i + 1 + j = i + (j + 1) by omega,
            show range + 16 + 16 * j = range + 16 * (j + 1) by omega] at hRest
          exact hRest

end NewPerf.Tools
