import NewPerf.Engine.Queue
import NewPerf.Tools.SqEntry

/-!
# What a queued request tells the controller

A request is given in bytes, a command in blocks.  `nvme_queue` checks the offset and the
length of the request itself against the block size; what it does not check is whether
the length in blocks fits the field it is stored in, and whether the ranges of a
multi-range trim are aligned.  For both kinds of command the results here say exactly
which requests come out right.
-/

namespace NewPerf.Engine

open NewPerf.Lib.LeMemory
open NewPerf.Tools

/-- The request is turned down before a command is built: the ring is full, the next
command id is in use, or the request is not a whole number of blocks. -/
def TurnedDown (c : ControllerData) (n : NvmeData) (ioU : IoU) : Prop :=
  nextSqTail n = n.ioSqHead ∨ (n.cmdIoU (n.ioCmdId + 1)).isSome ∨
    (ioU.offset ||| ioU.xferBuflen) &&& ((1 <<< UInt64.ofNat c.lbaShift) - 1) ≠ 0 ∨
    ioU.xferBuflen >>> UInt64.ofNat c.lbaShift = 0

/-- The request is not queued: it is to be tried again, or it has failed. -/
def Rejected (r : QueueResult) : Prop := r = .busy ∨ ∃ e, e ≠ 0 ∧ r = .completed e

section

variable {fioHasMrt : Bool} {td : ThreadData} {c : ControllerData} {n : NvmeData} {ioU : IoU}

/-- Every outcome but queueing is a rejection. -/
theorem rejected_or_queued :
    Rejected (nvmeQueue fioHasMrt td c n ioU) ∨
      ∃ s, nvmeQueue fioHasMrt td c n ioU = .queued s := by
  unfold nvmeQueue
  split
  · exact .inl (.inl rfl)
  split
  · exact .inl (.inl rfl)
  split
  · exact .inl (.inr ⟨EINVAL, by decide, rfl⟩)
  dsimp only
  split
  · split
    · exact .inl (.inr ⟨EINVAL, by decide, rfl⟩)
    · exact .inr ⟨_, rfl⟩
  · split
    · exact .inl (.inr ⟨EINVAL, by decide, rfl⟩)
    · exact .inr ⟨_, rfl⟩
  · split
    · exact .inl (.inr ⟨EINVAL, by decide, rfl⟩)
    · split
      · exact .inr ⟨_, rfl⟩
      · exact .inr ⟨_, rfl⟩
  · exact .inl (.inr ⟨EINVAL, by decide, rfl⟩)

theorem not_rejected_queued {s : Submission} : ¬ Rejected (.queued s) := by
  rintro (h | ⟨e, -, h⟩)
  · cases h
  · cases h

/-- A request of a kind the engine knows is queued unless it is turned down. -/
theorem queued_iff (hDir : ioU.ddir ≠ .other) :
    (∃ s, nvmeQueue fioHasMrt td c n ioU = .queued s) ↔ ¬ TurnedDown c n ioU := by
  constructor
  · rintro ⟨s, hs⟩
    obtain ⟨hAccepted, hExpressible, -⟩ := nvmeQueue_queued hs
    rintro (hFull | hCid | hAligned | hLen)
    · exact hAccepted.notFull hFull
    · rw [hAccepted.cidFree] at hCid
      cases hCid
    · exact hAligned hExpressible.aligned
    · exact hExpressible.len_ne hLen
  · intro hNot
    simp only [TurnedDown, not_or, not_not] at hNot
    obtain ⟨hFull, hCid, hAligned, hLen⟩ := hNot
    unfold nvmeQueue
    rw [if_neg hFull, if_neg hCid, if_neg (not_not.mpr hAligned)]
    dsimp only
    split
    · rw [if_neg hLen]
      exact ⟨_, rfl⟩
    · rw [if_neg hLen]
      exact ⟨_, rfl⟩
    · rw [if_neg hLen]
      split
      · exact ⟨_, rfl⟩
      · exact ⟨_, rfl⟩
    · exact absurd ‹_› hDir

end

/-! ## Reads and writes -/

/-- The entry at the old tail, decoded, is the transfer `fio` asked for. -/
structure EncodesRw (c : ControllerData) (n : NvmeData) (ioU : IoU) (s : Submission)
    (e : SqEntry) : Prop where
  opcode : e.opcode = if ioU.ddir = .read then 2 else 1
  cid : e.cid = s.cmdId.toNat ∧ s.nvme.cmdIoU s.cmdId = some ioU
  nsid : e.nsid = c.nsid.toNat
  slba : e.slba * 2 ^ c.lbaShift.val = ioU.offset.toNat
  nlb : (e.cdw12 % 2 ^ 16 + 1) * 2 ^ c.lbaShift.val = ioU.xferBuflen.toNat
  flags : e.cdw12 / 2 ^ 16 = 0
  rest : e.cdw13 = 0 ∧ e.cdw14 = 0 ∧ e.cdw15 = 0

/-- The length is that of a transfer the 16-bit field NLB can hold. -/
def FitsNlb (c : ControllerData) (ioU : IoU) : Prop :=
  ∃ nlb, nlb < 2 ^ 16 ∧ (nlb + 1) * 2 ^ c.lbaShift.val = ioU.xferBuflen.toNat

/-- What a queued read or write says is what was asked for, and what cannot be said is not
queued. -/
def RwEncoded (fioHasMrt : Bool) (td : ThreadData) (c : ControllerData) (n : NvmeData)
    (ioU : IoU) : Prop :=
  (∀ s, nvmeQueue fioHasMrt td c n ioU = .queued s → ∀ sq,
    EncodesRw c n ioU s (decodeSqEntry (applyAll s.sqStores sq) (sqEntryOff n.ioSqTail))) ∧
  (¬ FitsNlb c ioU → Rejected (nvmeQueue fioHasMrt td c n ioU))

section Rw

variable {fioHasMrt : Bool} {td : ThreadData} {c : ControllerData} {n : NvmeData} {ioU : IoU}

/-- The dword NLB is in. -/
theorem toNat_cdw12 (h : Expressible c ioU) :
    (ioU.xferBuflen >>> UInt64.ofNat c.lbaShift - 1).toUInt32.toNat =
      (ioU.xferBuflen.toNat / 2 ^ c.lbaShift.val - 1) % 2 ^ 32 := by
  have hBlocks := toNat_blocks c.lbaShift ioU.xferBuflen
  have hPos : 0 < ioU.xferBuflen.toNat / 2 ^ c.lbaShift.val := by
    rw [← hBlocks]
    exact Nat.pos_of_ne_zero fun hZero => h.len_ne (UInt64.toNat_inj.mp hZero)
  have hLt : ioU.xferBuflen.toNat / 2 ^ c.lbaShift.val < 2 ^ 64 := by
    rw [← hBlocks]
    exact (ioU.xferBuflen >>> UInt64.ofNat c.lbaShift).toNat_lt
  rw [UInt64.toNat_toUInt32, UInt64.toNat_sub, hBlocks, UInt64.toNat_one]
  omega

/-- The entry of a queued read or write. -/
theorem decode_queuedRw {s : Submission} (h : nvmeQueue fioHasMrt td c n ioU = .queued s)
    (hDir : ioU.ddir = .read ∨ ioU.ddir = .write) (sq : Bytes) :
    ∃ e, decodeSqEntry (applyAll s.sqStores sq) (sqEntryOff n.ioSqTail) = e ∧
      e.opcode = (if ioU.ddir = .read then 2 else 1) ∧ e.cid = s.cmdId.toNat ∧
      e.nsid = c.nsid.toNat ∧ e.slba = ioU.offset.toNat / 2 ^ c.lbaShift.val ∧
      e.cdw12 = (ioU.xferBuflen.toNat / 2 ^ c.lbaShift.val - 1) % 2 ^ 32 ∧
      e.cdw13 = 0 ∧ e.cdw14 = 0 ∧ e.cdw15 = 0 := by
  obtain ⟨hAccepted, hExpressible, -⟩ := nvmeQueue_queued h
  obtain ⟨opcode, hOpcode, hStores⟩ := nvmeQueue_rw h hDir
  refine ⟨_, rfl, ?_⟩
  rw [hStores]
  simp only [submitRwCommand, finishSubmit, decode_rwSqStores]
  refine ⟨?_, by rw [hAccepted.cmdId], trivial, toNat_blocks _ _, toNat_cdw12 hExpressible,
    trivial, trivial, trivial⟩
  rw [hOpcode]
  split <;> rfl

theorem Accepted.recorded {s : Submission} (h : Accepted n ioU s) :
    s.nvme.cmdIoU s.cmdId = some ioU := by
  rw [h.nvme, h.cmdId]
  simp

/-- The whole blocks of an aligned request. -/
theorem Expressible.blocks_mul (h : Expressible c ioU) :
    ioU.xferBuflen.toNat / 2 ^ c.lbaShift.val * 2 ^ c.lbaShift.val = ioU.xferBuflen.toNat :=
  Nat.div_mul_cancel (Nat.dvd_of_mod_eq_zero h.len_mod)

theorem Expressible.blocks_pos (h : Expressible c ioU) :
    0 < ioU.xferBuflen.toNat / 2 ^ c.lbaShift.val := by
  rw [← toNat_blocks]
  exact Nat.pos_of_ne_zero fun hZero => h.len_ne (UInt64.toNat_inj.mp hZero)

/-- An aligned length fits NLB exactly if it has at most 65536 blocks. -/
theorem Expressible.fitsNlb_iff (h : Expressible c ioU) :
    FitsNlb c ioU ↔ ioU.xferBuflen.toNat / 2 ^ c.lbaShift.val ≤ 65536 := by
  have hMul := h.blocks_mul
  have hPos := h.blocks_pos
  constructor
  · rintro ⟨nlb, hNlb, hLen⟩
    rw [← hLen, Nat.mul_div_cancel _ (Nat.two_pow_pos _)]
    omega
  · intro hLe
    refine ⟨ioU.xferBuflen.toNat / 2 ^ c.lbaShift.val - 1, by omega, ?_⟩
    rw [Nat.sub_add_cancel hPos, hMul]

/-- Reads and writes are encoded as asked exactly when they are turned down anyway or are
no longer than 65536 blocks. -/
theorem rwEncoded_iff (hDir : ioU.ddir = .read ∨ ioU.ddir = .write) :
    RwEncoded fioHasMrt td c n ioU ↔
      TurnedDown c n ioU ∨ ioU.xferBuflen.toNat / 2 ^ c.lbaShift.val ≤ 65536 := by
  have hKnown : ioU.ddir ≠ .other := by
    rcases hDir with hDir | hDir <;> simp [hDir]
  constructor
  · rintro ⟨-, hReject⟩
    by_cases hDown : TurnedDown c n ioU
    · exact .inl hDown
    right
    obtain ⟨s, hs⟩ : ∃ s, nvmeQueue fioHasMrt td c n ioU = .queued s :=
      (queued_iff hKnown).mpr hDown
    obtain ⟨-, hExpressible, -⟩ := nvmeQueue_queued hs
    rw [← hExpressible.fitsNlb_iff]
    by_contra hLong
    have hRejected := hReject hLong
    rw [hs] at hRejected
    exact not_rejected_queued hRejected
  · intro hOk
    have hShort : ∀ s, nvmeQueue fioHasMrt td c n ioU = .queued s → Expressible c ioU ∧
        ioU.xferBuflen.toNat / 2 ^ c.lbaShift.val ≤ 65536 := by
      intro s hs
      refine ⟨(nvmeQueue_queued hs).2.1, hOk.resolve_left ?_⟩
      exact (queued_iff hKnown).mp ⟨s, hs⟩
    refine ⟨fun s hs sq => ?_, fun hLong => ?_⟩
    · obtain ⟨hExpressible, hLe⟩ := hShort s hs
      obtain ⟨e, rfl, hOpcode, hCid, hNsid, hSlba, hCdw12, hRest⟩ :=
        decode_queuedRw hs hDir sq
      have hPos := hExpressible.blocks_pos
      have hNlb : (decodeSqEntry (applyAll s.sqStores sq) (sqEntryOff n.ioSqTail)).cdw12 + 1 =
          ioU.xferBuflen.toNat / 2 ^ c.lbaShift.val := by
        rw [hCdw12]
        omega
      refine
        { opcode := hOpcode
          cid := ⟨hCid, (nvmeQueue_queued hs).1.recorded⟩
          nsid := hNsid
          slba := ?_
          nlb := ?_
          flags := by omega
          rest := hRest }
      · rw [hSlba]
        exact Nat.div_mul_cancel (Nat.dvd_of_mod_eq_zero hExpressible.both_mod.1)
      · rw [Nat.mod_eq_of_lt (by omega), hNlb, hExpressible.blocks_mul]
    · rcases rejected_or_queued with hRejected | ⟨s, hs⟩
      · exact hRejected
      · obtain ⟨hExpressible, hLe⟩ := hShort s hs
        exact absurd (hExpressible.fitsNlb_iff.mpr hLe) hLong

theorem rwEncoded_iff_oneBlock :
    RwEncoded true smallThread smallController smallPair (readInto 0x7000 512) :=
  (rwEncoded_iff (.inl rfl)).mpr (.inr (by decide))

/-- The same pair with a data region of 64 MiB. -/
def largePair : NvmeData := { smallPair with ioUDataMem := { size := 0x4000000 } }

/-- A read of 65537 blocks is queued as a read of one block with a reserved bit set. -/
theorem rwEncoded_65537_blocks_false :
    ¬ RwEncoded true smallThread smallController largePair (readInto 0x7000 (512 * 65537)) := by
  intro hEncoded
  obtain ⟨s, hs⟩ : ∃ s, nvmeQueue true smallThread smallController largePair
    (readInto 0x7000 (512 * 65537)) = .queued s := ⟨_, rfl⟩
  obtain ⟨e, rfl, -, -, -, -, hCdw12, -⟩ := decode_queuedRw hs (.inl rfl) fun _ => 0
  have hFlags := (hEncoded.1 s hs fun _ => 0).flags
  rw [hCdw12] at hFlags
  revert hFlags
  decide

end Rw

/-! ## Trims -/

/-- The ranges a trim request is about, in bytes. -/
def trimRanges (fioHasMrt : Bool) (td : ThreadData) (ioU : IoU) : List TrimRange :=
  if fioHasMrt && td.numRange != 1 then
    (List.range ioU.numberTrim.toNat).map ioU.trimRange
  else [⟨ioU.offset, ioU.xferBuflen⟩]

/-- `fio` puts between 1 and 256 ranges into a multi-range request. -/
def RangesInPage (fioHasMrt : Bool) (td : ThreadData) (ioU : IoU) : Prop :=
  (fioHasMrt && td.numRange != 1) = true →
    1 ≤ ioU.numberTrim.toNat ∧ ioU.numberTrim.toNat ≤ 256

/-- The range can be given in blocks with a 32-bit length. -/
def Describable (c : ControllerData) (r : TrimRange) : Prop :=
  r.start.toNat % 2 ^ c.lbaShift.val = 0 ∧ r.len.toNat % 2 ^ c.lbaShift.val = 0 ∧
    r.len.toNat / 2 ^ c.lbaShift.val < 2 ^ 32

instance (c : ControllerData) (r : TrimRange) : Decidable (Describable c r) :=
  inferInstanceAs (Decidable (_ ∧ _ ∧ _))

/-- The entry at the old tail and the descriptors in the page of its slot are the ranges
`fio` asked for. -/
structure EncodesTrim (c : ControllerData) (n : NvmeData) (ranges : List TrimRange)
    (e : SqEntry) (prp : Bytes) : Prop where
  opcode : e.opcode = 9
  number : e.cdw10 % 2 ^ 8 = ranges.length - 1 ∧ e.cdw10 / 2 ^ 8 = 0
  deallocate : e.cdw11 = nvmeDsmAttrDeallocate.toNat
  prp1 : e.prp1 = (n.ioPrpListPhysAddr + n.ioSqTail.toUInt64 <<< nvmePageShift).toNat
  slba : ∀ (i : Nat) (r : TrimRange), ranges[i]? = some r →
    (decodeDsmRange prp (slotPageOff n.ioSqTail + 16 * i)).slba * 2 ^ c.lbaShift.val =
      r.start.toNat
  length : ∀ (i : Nat) (r : TrimRange), ranges[i]? = some r →
    (decodeDsmRange prp (slotPageOff n.ioSqTail + 16 * i)).length * 2 ^ c.lbaShift.val =
      r.len.toNat

/-- What a queued trim says is what was asked for, and what cannot be said is not
queued. -/
def TrimEncoded (fioHasMrt : Bool) (td : ThreadData) (c : ControllerData) (n : NvmeData)
    (ioU : IoU) : Prop :=
  (∀ s, nvmeQueue fioHasMrt td c n ioU = .queued s → ∀ sq prp,
    EncodesTrim c n (trimRanges fioHasMrt td ioU)
      (decodeSqEntry (applyAll s.sqStores sq) (sqEntryOff n.ioSqTail))
      (applyAll s.prpStores prp)) ∧
  ((∃ r ∈ trimRanges fioHasMrt td ioU, ¬ Describable c r) →
    Rejected (nvmeQueue fioHasMrt td c n ioU))

section Trim

variable {fioHasMrt : Bool} {td : ThreadData} {c : ControllerData} {n : NvmeData} {ioU : IoU}

/-- The submission queue entry of a queued trim. -/
theorem nvmeQueue_trim {s : Submission} (h : nvmeQueue fioHasMrt td c n ioU = .queued s)
    (hDir : ioU.ddir = .trim) :
    s.sqStores = dsmSqStores (sqEntryOff n.ioSqTail) (n.ioCmdId + 1) c.nsid
      (n.ioPrpListPhysAddr + n.ioSqTail.toUInt64 <<< nvmePageShift)
      (if fioHasMrt && td.numRange != 1 then ioU.numberTrim - 1 else 0) := by
  simp only [nvmeQueue, hDir] at h
  split_ifs at h with hFull hCid hAligned hLen hMany
  · cases h
    rw [if_pos hMany]
    rfl
  · cases h
    rw [if_neg hMany]
    rfl

/-- NR is the number of ranges less one. -/
theorem toNat_numRange (hCount : RangesInPage fioHasMrt td ioU) :
    (if fioHasMrt && td.numRange != 1 then ioU.numberTrim - 1 else 0 : UInt32).toNat =
      (trimRanges fioHasMrt td ioU).length - 1 := by
  unfold trimRanges
  split
  · rename_i hMany
    obtain ⟨hPos, -⟩ := hCount hMany
    have hLt := ioU.numberTrim.toNat_lt
    rw [UInt32.toNat_sub, UInt32.toNat_one, List.length_map, List.length_range]
    omega
  · rfl

theorem length_trimRanges (hCount : RangesInPage fioHasMrt td ioU) :
    1 ≤ (trimRanges fioHasMrt td ioU).length ∧ (trimRanges fioHasMrt td ioU).length ≤ 256 := by
  unfold trimRanges
  split
  · rename_i hMany
    rw [List.length_map, List.length_range]
    exact hCount hMany
  · simp

/-- The descriptors of a queued trim. -/
theorem decode_queuedTrim {s : Submission} (h : nvmeQueue fioHasMrt td c n ioU = .queued s)
    (hDir : ioU.ddir = .trim) (prp : Bytes) {i : Nat} {r : TrimRange}
    (hr : (trimRanges fioHasMrt td ioU)[i]? = some r) :
    decodeDsmRange (applyAll s.prpStores prp) (slotPageOff n.ioSqTail + 16 * i) =
      ⟨0, r.len.toNat / 2 ^ c.lbaShift.val % 2 ^ 32, r.start.toNat / 2 ^ c.lbaShift.val⟩ := by
  have hStores := (nvmeQueue_queued h).2.2
  unfold trimRanges at hr
  generalize s.prpStores = ss at hStores
  cases hStores with
  | rw hRw =>
      rcases hRw with hRw | hRw
      · rw [hDir] at hRw
        cases hRw
      · rw [hDir] at hRw
        cases hRw
  | trim _ hOne =>
      rw [if_neg (by simp [hOne])] at hr
      obtain ⟨rfl, rfl⟩ : i = 0 ∧ r = ⟨ioU.offset, ioU.xferBuflen⟩ := by
        cases i with
        | zero => exact ⟨rfl, (Option.some.inj hr).symm⟩
        | succ i => simp at hr
      rw [Nat.mul_zero, Nat.add_zero, decode_dsmRangeStores, UInt64.toNat_toUInt32,
        toNat_blocks, toNat_blocks]
  | multi _ hMany =>
      rw [if_pos hMany, List.getElem?_map, Option.map_eq_some_iff] at hr
      obtain ⟨j, hj, rfl⟩ := hr
      obtain ⟨hLt, rfl⟩ : i < ioU.numberTrim.toNat ∧ i = j := by
        simpa [List.getElem?_eq_some_iff] using hj
      rw [decode_dsmRangeLoop c ioU _ 0 hLt, Nat.zero_add, UInt64.toNat_toUInt32,
        toNat_blocks, toNat_blocks]

/-- A descriptor says what was asked for exactly when it can. -/
theorem describable_iff (r : TrimRange) :
    Describable c r ↔
      r.start.toNat / 2 ^ c.lbaShift.val * 2 ^ c.lbaShift.val = r.start.toNat ∧
      r.len.toNat / 2 ^ c.lbaShift.val % 2 ^ 32 * 2 ^ c.lbaShift.val = r.len.toNat := by
  have hPow : 0 < 2 ^ c.lbaShift.val := Nat.two_pow_pos _
  constructor
  · rintro ⟨hStart, hLen, hShort⟩
    rw [Nat.mod_eq_of_lt hShort]
    exact ⟨Nat.div_mul_cancel (Nat.dvd_of_mod_eq_zero hStart),
      Nat.div_mul_cancel (Nat.dvd_of_mod_eq_zero hLen)⟩
  · rintro ⟨hStart, hLen⟩
    refine ⟨?_, ?_, ?_⟩
    · rw [← hStart]
      exact Nat.mul_mod_left _ _
    · rw [← hLen]
      exact Nat.mul_mod_left _ _
    · rw [← hLen, Nat.mul_div_cancel _ hPow]
      exact Nat.mod_lt _ (by decide)

/-- Trims are encoded as asked exactly when they are turned down anyway or each of their
ranges is aligned and shorter than 2^32 blocks. -/
theorem trimEncoded_iff (hDir : ioU.ddir = .trim) (hCount : RangesInPage fioHasMrt td ioU) :
    TrimEncoded fioHasMrt td c n ioU ↔
      TurnedDown c n ioU ∨ ∀ r ∈ trimRanges fioHasMrt td ioU, Describable c r := by
  have hKnown : ioU.ddir ≠ .other := by simp [hDir]
  constructor
  · rintro ⟨-, hReject⟩
    by_cases hDown : TurnedDown c n ioU
    · exact .inl hDown
    right
    obtain ⟨s, hs⟩ : ∃ s, nvmeQueue fioHasMrt td c n ioU = .queued s :=
      (queued_iff hKnown).mpr hDown
    intro r hr
    by_contra hNot
    have hRejected := hReject ⟨r, hr, hNot⟩
    rw [hs] at hRejected
    exact not_rejected_queued hRejected
  · intro hOk
    have hAll : ∀ s, nvmeQueue fioHasMrt td c n ioU = .queued s →
        ∀ r ∈ trimRanges fioHasMrt td ioU, Describable c r :=
      fun s hs => hOk.resolve_left ((queued_iff hKnown).mp ⟨s, hs⟩)
    refine ⟨fun s hs sq prp => ?_, ?_⟩
    · have hRange : ∀ (i : Nat) (r : TrimRange),
          (trimRanges fioHasMrt td ioU)[i]? = some r → Describable c r :=
        fun i r hr => hAll s hs r (List.mem_of_getElem? hr)
      rw [nvmeQueue_trim hs hDir, decode_dsmSqStores, toNat_numRange hCount]
      have hLength := length_trimRanges hCount
      refine
        { opcode := rfl
          number := by dsimp only; omega
          deallocate := rfl
          prp1 := rfl
          slba := fun i r hr => ?_
          length := fun i r hr => ?_ }
      · rw [decode_queuedTrim hs hDir prp hr]
        exact ((describable_iff r).mp (hRange i r hr)).1
      · rw [decode_queuedTrim hs hDir prp hr]
        exact ((describable_iff r).mp (hRange i r hr)).2
    · rintro ⟨r, hr, hNot⟩
      rcases rejected_or_queued with hRejected | ⟨s, hs⟩
      · exact hRejected
      · exact absurd (hAll s hs r hr) hNot

/-- Two ranges of a multi-range trim of 8 KiB in all, the second of which starts at
`start`. -/
def twoRanges (start : UInt64) : IoU :=
  { addr := 0x200, ddir := .trim, offset := 0, xferBuflen := 8192, xferBuf := 0x7000
    numberTrim := 2, trimRange := fun i => if i = 0 then ⟨0, 4096⟩ else ⟨start, 4096⟩ }

def multiThread : ThreadData := { origBuffer := 0x7000, numRange := 2 }

theorem trimEncoded_iff_twoRanges :
    TrimEncoded true multiThread smallController smallPair (twoRanges 8192) :=
  (trimEncoded_iff rfl (fun _ => by decide)).mpr (.inr (by decide))

/-- A range that starts 256 bytes into a block is rounded down to the block. -/
theorem trimEncoded_unaligned_false :
    ¬ TrimEncoded true multiThread smallController smallPair (twoRanges 8448) := by
  intro hEncoded
  obtain ⟨s, hs⟩ : ∃ s, nvmeQueue true multiThread smallController smallPair
    (twoRanges 8448) = .queued s := ⟨_, rfl⟩
  have hSlba := (hEncoded.1 s hs (fun _ => 0) fun _ => 0).slba 1 ⟨8448, 4096⟩ rfl
  rw [decode_queuedTrim hs rfl (fun _ => 0) (i := 1) (r := ⟨8448, 4096⟩) rfl] at hSlba
  revert hSlba
  decide

end Trim

end NewPerf.Engine
