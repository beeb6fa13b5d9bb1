import NewPerf.Lib.LeMemory

/-!
# Data model of `tools/nvme.h` and `tools/nvme.c`

The structures follow the C ones field by field, under the same words.  A
`NULL` pointer is the address `0`, and the default value of every structure is
the zeroed one that `calloc` returns.  Three choices are made here once.

* `lba_shift` is an `int` in the source, but `nvme_get_file_size` refuses a
  shift of 64 or more and `controller_init` only ever stores 9, so the field is
  a `Fin 64` and an undefined shift cannot be written down.
* The two tables of `struct nvme_data` are functions: `cmdIoU` on the 16-bit
  command ids, `events` on the index used to store into it.
* A `struct io_u *` is modelled by the record itself together with its address,
  which is how `fio` tells two requests apart.
-/

namespace NewPerf.Tools

open NewPerf.Lib.LeMemory

/-- `struct mem` of `driver/common.h`. -/
structure Mem where
  fd : Int := 0
  kernelVirtaddr : UInt64 := 0
  userVirtaddr : UInt64 := 0
  dmaAddr : UInt64 := 0
  size : Int64 := 0
  deriving DecidableEq, Repr, Inhabited

instance neZeroSixtyFour : @NeZero Nat Zero.ofOfNat0 64 := ⟨by decide⟩

/-- `struct controller_data`: one per controller. -/
structure ControllerData where
  bus : UInt16 := 0
  dev : UInt16 := 0
  func : UInt16 := 0
  nsid : UInt16 := 0
  bar0Virt : UInt64 := 0
  adminSqTail : UInt16 := 0
  adminCqHead : UInt16 := 0
  adminCqPhase : UInt8 := 0
  adminSqPhysAddr : UInt64 := 0
  adminSqVirtAddr : UInt64 := 0
  adminSqMem : Mem := {}
  adminCqPhysAddr : UInt64 := 0
  adminCqVirtAddr : UInt64 := 0
  adminCqMem : Mem := {}
  adminSqDepth : UInt16 := 0
  adminCqDepth : UInt16 := 0
  adminCmdId : UInt16 := 0
  adminSqTailDb : UInt32 := 0
  adminCqHeadDb : UInt32 := 0
  lbaShift : Fin 64 := 0
  size : UInt64 := 0
  dmaFd : Int := 0
  dmaFdOpened : Bool := false
  deriving DecidableEq, Repr

/-- Data directions; every direction the engine has no case for is `other`. -/
inductive Ddir where
  | read
  | write
  | trim
  | other
  deriving DecidableEq, Repr

/-- `struct trim_range` as `fio` lays it out in `xfer_buf`. -/
structure TrimRange where
  start : UInt64
  len : UInt64
  deriving DecidableEq, Repr

/-- The fields of `struct io_u` the engine reads.  `trimRange i` is the `i`-th
`struct trim_range` in `xfer_buf` when the request is a multi-range trim. -/
structure IoU where
  addr : UInt64
  ddir : Ddir
  offset : UInt64
  xferBuflen : UInt64
  xferBuf : UInt64
  numberTrim : UInt32 := 0
  trimRange : Nat → TrimRange := fun _ => ⟨0, 0⟩

/-- `struct nvme_cq_entry`: the fields the host reads. -/
structure NvmeCqEntry where
  sqhd : UInt16 := 0
  cid : UInt16 := 0
  psf : UInt16 := 0
  deriving DecidableEq, Repr, Inhabited

/-- `struct nvme_data`: one per fio thread.  The pointer `ctrl` is passed
alongside, and the field names keep the source's spelling. -/
structure NvmeData where
  ioSqHead : UInt32 := 0
  ioSqTail : UInt32 := 0
  icCqHead : UInt32 := 0
  ioCqPahse : UInt8 := 0
  ioSqPhysAddr : UInt64 := 0
  ioSqVirtAddr : UInt64 := 0
  ioSqMem : Mem := {}
  ioCqPhysAddr : UInt64 := 0
  ioCqVirtAddr : UInt64 := 0
  ioCqMem : Mem := {}
  ioPrpListPhysAddr : UInt64 := 0
  ioPrpListVirtAddr : UInt64 := 0
  ioPrpListMem : Mem := {}
  ioUDataPhysAddr : UInt64 := 0
  ioUDataVirtAddr : UInt64 := 0
  ioUDataMem : Mem := {}
  ioSqDepth : UInt32 := 0
  ioCqDepth : UInt32 := 0
  ioQid : UInt16 := 0
  ioCmdId : UInt16 := 0
  ioSqTailDb : UInt32 := 0
  ioCqHeadDb : UInt32 := 0
  cmdIoU : UInt16 → Option IoU := fun _ => none
  events : Nat → Option IoU := fun _ => none
  nrEvents : Nat := 0

/-! ## Constants -/

def nvmePageSize : UInt64 := 4096
def nvmePageShift : UInt64 := 12
def nvmePageMask : UInt64 := nvmePageSize - 1
def nvmePrpListEntrySize : Nat := 8
def nvmeIoSqEntrySize : Nat := 64

def nvmeIoWriteOpcode : UInt8 := 0x01
def nvmeIoReadOpcode : UInt8 := 0x02
def nvmeIoDatasetManagementOpcode : UInt8 := 0x09
def nvmeDsmAttrDeallocate : UInt32 := 0x4

def nvmeCqePhaseMask : UInt16 := 0x1
def nvmeCqeScShift : UInt16 := 1
def nvmeCqeScMask : UInt16 := 0xff
def nvmeCqeSctShift : UInt16 := 9
def nvmeCqeSctMask : UInt16 := 0x7

/-! ## Region sizes -/

/-- `round_up_page`.  The mask is computed in 32 bits before it is widened. -/
def roundUpPage (size : UInt64) : UInt64 :=
  (size + nvmePageSize - 1) &&& (~~~((4096 : UInt32) - 1)).toUInt64

/-- The sizes `create_io_queue_pair` asks for. -/
def ioSqSize (ioSqDepth : UInt32) : UInt64 := roundUpPage (64 * ioSqDepth.toUInt64)

@[inherit_doc ioSqSize]
def ioCqSize (ioCqDepth : UInt32) : UInt64 := roundUpPage (16 * ioCqDepth.toUInt64)

@[inherit_doc ioSqSize]
def ioPrpListSize (ioSqDepth : UInt32) : UInt64 := nvmePageSize * ioSqDepth.toUInt64

/-- Masking out the low `k` bits of a number of `k + m` bits rounds it down. -/
theorem and_highMask {x k m : Nat} (h : x < 2 ^ (k + m)) :
    x &&& ((2 ^ m - 1) <<< k) = x / 2 ^ k * 2 ^ k := by
  rw [show x / 2 ^ k * 2 ^ k = (x >>> k) <<< k by
    rw [Nat.shiftRight_eq_div_pow, Nat.shiftLeft_eq]]
  apply Nat.eq_of_testBit_eq
  intro i
  rw [Nat.testBit_and, Nat.testBit_shiftLeft, Nat.testBit_shiftLeft,
    Nat.testBit_shiftRight, Nat.testBit_two_pow_sub_one]
  by_cases hLow : k ≤ i
  · by_cases hHigh : i < k + m
    · have hBit : i - k < m := by omega
      simp [hLow, hBit]
    · have hZero : x.testBit i = false :=
        Nat.testBit_lt_two_pow (Nat.lt_of_lt_of_le h
          (Nat.pow_le_pow_right (by omega) (by omega)))
      simp [hLow, hZero]
  · simp [hLow]

/-- Below 4 GiB the rounding is what its name says. -/
theorem le_roundUpPage {size : UInt64} (h : size.toNat + 4095 < 2 ^ 32) :
    size.toNat ≤ (roundUpPage size).toNat := by
  have hMask : ((~~~((4096 : UInt32) - 1)).toUInt64).toNat = (2 ^ 20 - 1) <<< 12 := by
    decide
  have hSum : (size + nvmePageSize - 1).toNat = size.toNat + 4095 := by
    have hPage : nvmePageSize.toNat = 4096 := by decide
    rw [UInt64.toNat_sub, UInt64.toNat_add, hPage, UInt64.toNat_one]
    omega
  rw [roundUpPage, UInt64.toNat_and, hMask, hSum, and_highMask (by omega)]
  omega

/-! ## Shared ring advance

Submission and completion indices are advanced the same way everywhere: the
index is incremented and set to zero when it reaches the depth.
-/

/-- `++i; if (i == depth) i = 0;` on 32-bit indices. -/
def ringAdvance (i depth : UInt32) : UInt32 :=
  if i + 1 = depth then 0 else i + 1

/-- An index inside the ring advances modulo the depth. -/
theorem toNat_ringAdvance (i depth : UInt32) (h : i.toNat < depth.toNat) :
    (ringAdvance i depth).toNat = (i.toNat + 1) % depth.toNat := by
  have hDepth : depth.toNat < 2 ^ 32 := depth.toNat_lt
  have hSucc : (i + 1).toNat = i.toNat + 1 := by
    rw [UInt32.toNat_add, UInt32.toNat_one]
    omega
  unfold ringAdvance
  by_cases hWrap : i + 1 = depth
  · rw [if_pos hWrap, ← hWrap, hSucc, Nat.mod_self]
    rfl
  · have hne : i.toNat + 1 ≠ depth.toNat := by
      rw [← hSucc]
      exact fun heq => hWrap (UInt32.toNat_inj.mp heq)
    rw [if_neg hWrap, hSucc, Nat.mod_eq_of_lt (by omega)]

/-- `phase ^= 1` flips a phase tag. -/
theorem toNat_flipPhase {phase : UInt8} (h : phase.toNat < 2) :
    (phase ^^^ 1).toNat = 1 - phase.toNat := by
  rw [UInt8.toNat_xor, UInt8.toNat_one]
  have hCases : phase.toNat = 0 ∨ phase.toNat = 1 := by omega
  rcases hCases with hZero | hOne
  · rw [hZero]
    rfl
  · rw [hOne]
    rfl

end NewPerf.Tools
