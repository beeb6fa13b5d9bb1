import NewPerf.Engine.Encoding
import NewPerf.Tools.FileSize

/-!
# No command leaves the namespace

`fio` stays inside the size it was given, in bytes.  That size may be a cut-off product,
but a cut-off product is too small, not too large, and every way from bytes to blocks
rounds down or drops high bits.  So the blocks a command names, as the controller
decodes it, all exist.
-/

namespace NewPerf.Engine

open NewPerf.Lib.LeMemory
open NewPerf.Lib.Programs
open NewPerf.Tools

/-! ## The size `fio` was given -/

/-- `nvme_get_file_size` has returned `size` for the Identify data `data` and left the
structure so; since then it has been called again on the same data, with whatever result,
and queue pairs have been created and deleted. -/
inductive Sized (data : Bytes) (size : UInt64) : ControllerData → Prop where
  | first {c c' : ControllerData} {t : Trace Effect.Result} (hSize : size ≠ 0)
      (hData : ∀ d ∈ dataReadIn t, d = data)
      (hCall : Traced (nvmeGetFileSize c) t (size, c')) : Sized data size c'
  | again {c c' : ControllerData} {t : Trace Effect.Result} {size' : UInt64}
      (h : Sized data size c) (hData : ∀ d ∈ dataReadIn t, d = data)
      (hCall : Traced (nvmeGetFileSize c) t (size', c')) : Sized data size c'
  | create {c c' : ControllerData} {t : Trace Effect.Result} {n n' : NvmeData} {ok : Bool}
      (h : Sized data size c) (hCall : Traced (createIoQueuePair c n) t (ok, c', n')) :
      Sized data size c'
  | delete {c c' : ControllerData} {t : Trace Effect.Result} {n n' : NvmeData} {ok : Bool}
      (h : Sized data size c) (hCall : Traced (deleteIoQueuePair c n) t (ok, c', n')) :
      Sized data size c'

section Sized

variable {data : Bytes} {size : UInt64} {c : ControllerData}

/-- The size is the product of the data, in 64 bits, and the shift is that of the data. -/
theorem Sized.decoded (h : Sized data size c) :
    c.lbaShift.val = identifyLbads data ∧
      size.toNat = identifyNsze data * 2 ^ identifyLbads data % 2 ^ 64 := by
  induction h with
  | first hSize hData hCall =>
      rcases nvmeGetFileSize_cases hCall hData with ⟨hZero, -⟩ | ⟨hShift, hStored, hLba⟩
      · exact absurd hZero hSize
      · rw [hStored]
        exact ⟨hLba, toNat_storedSize hShift⟩
  | again _ hData hCall ih =>
      rcases nvmeGetFileSize_cases hCall hData with ⟨-, hLba⟩ | ⟨-, -, hLba⟩
      · rw [hLba]
        exact ih
      · exact ⟨hLba, ih.2⟩
  | create _ hCall ih =>
      have hSame := (Prog.Only.tells (keeps_createIoQueuePair _ _)).of_traced hCall
      rw [hSame.2.lbaShift]
      exact ih
  | delete _ hCall ih =>
      have hSame := (Prog.Only.tells (keeps_deleteIoQueuePair _ _)).of_traced hCall
      rw [hSame.2.lbaShift]
      exact ih

/-- The size is at most what the namespace holds. -/
theorem Sized.size_le (h : Sized data size c) :
    size.toNat ≤ identifyNsze data * 2 ^ c.lbaShift.val := by
  obtain ⟨hLba, hSize⟩ := h.decoded
  rw [hLba, hSize]
  exact Nat.mod_le _ _

/-- Bytes inside the size are in whole blocks inside the namespace, also when both ends are
rounded down. -/
theorem Sized.blocks_le (h : Sized data size c) {start len : Nat}
    (hEnd : start + len ≤ size.toNat) :
    start / 2 ^ c.lbaShift.val + len / 2 ^ c.lbaShift.val ≤ identifyNsze data := by
  have hPow : 0 < 2 ^ c.lbaShift.val := Nat.two_pow_pos _
  calc start / 2 ^ c.lbaShift.val + len / 2 ^ c.lbaShift.val
      ≤ (start + len) / 2 ^ c.lbaShift.val := Nat.div_add_div_le_add_div
    _ ≤ identifyNsze data * 2 ^ c.lbaShift.val / 2 ^ c.lbaShift.val :=
        Nat.div_le_div_right (Nat.le_trans hEnd h.size_le)
    _ = identifyNsze data := Nat.mul_div_cancel _ hPow

end Sized

/-! ## The blocks a command names -/

/-- Blocks from `slba` on. -/
structure LbaRange where
  slba : Nat
  blocks : Nat
  deriving DecidableEq, Repr

/-- The blocks named by the command in the entry at the old tail of `n`.  Dataset Management
has NR + 1 descriptors in the page of the slot, the other commands have NLB + 1 blocks. -/
def namedRanges (n : NvmeData) (sq prp : Bytes) : List LbaRange :=
  let e := decodeSqEntry sq (sqEntryOff n.ioSqTail)
  if e.opcode = 9 then
    (List.range (e.cdw10 % 2 ^ 8 + 1)).map fun i =>
      let r := decodeDsmRange prp (slotPageOff n.ioSqTail + 16 * i)
      ⟨r.slba, r.length⟩
  else [⟨e.slba, e.cdw12 % 2 ^ 16 + 1⟩]

/-- What `fio` guarantees of a request on a file of `size` bytes. -/
structure InsideFile (fioHasMrt : Bool) (td : ThreadData) (size : UInt64) (ioU : IoU) : Prop where
  span : ioU.offset.toNat + ioU.xferBuflen.toNat ≤ size.toNat
  ranges : ioU.ddir = .trim → ∀ r ∈ trimRanges fioHasMrt td ioU,
    r.start.toNat + r.len.toNat ≤ size.toNat
  some_range : ioU.ddir = .trim → trimRanges fioHasMrt td ioU ≠ []

section Queue

variable {fioHasMrt : Bool} {td : ThreadData} {c : ControllerData} {n : NvmeData} {ioU : IoU}
  {data : Bytes} {size : UInt64} {s : Submission}

theorem namedRanges_rw (hQueued : nvmeQueue fioHasMrt td c n ioU = .queued s)
    (hDir : ioU.ddir = .read ∨ ioU.ddir = .write) (sq prp : Bytes) :
    namedRanges n (applyAll s.sqStores sq) prp =
      [⟨ioU.offset.toNat / 2 ^ c.lbaShift.val,
        (ioU.xferBuflen.toNat / 2 ^ c.lbaShift.val - 1) % 2 ^ 32 % 2 ^ 16 + 1⟩] := by
  obtain ⟨e, hDecode, hOpcode, -, -, hSlba, hCdw12, -⟩ := decode_queuedRw hQueued hDir sq
  unfold namedRanges
  rw [hDecode]
  dsimp only
  rw [hSlba, hCdw12, hOpcode, if_neg]
  split <;> decide

/-- At most as many descriptors are named as ranges were asked for. -/
theorem named_count_le (hSome : trimRanges fioHasMrt td ioU ≠ []) :
    (if fioHasMrt && td.numRange != 1 then ioU.numberTrim - 1 else 0 : UInt32).toNat % 2 ^ 8 + 1 ≤
      (trimRanges fioHasMrt td ioU).length := by
  unfold trimRanges at hSome ⊢
  split
  · rename_i hMany
    rw [if_pos hMany] at hSome
    have hPos : 0 < ioU.numberTrim.toNat := by
      refine Nat.pos_of_ne_zero fun hZero => hSome ?_
      rw [hZero]
      rfl
    have hLt := ioU.numberTrim.toNat_lt
    rw [List.length_map, List.length_range, UInt32.toNat_sub, UInt32.toNat_one]
    omega
  · simp

theorem namedRanges_trim (hQueued : nvmeQueue fioHasMrt td c n ioU = .queued s)
    (hDir : ioU.ddir = .trim) (hSome : trimRanges fioHasMrt td ioU ≠ []) (sq prp : Bytes)
    {r : LbaRange} (hr : r ∈ namedRanges n (applyAll s.sqStores sq) (applyAll s.prpStores prp)) :
    ∃ asked ∈ trimRanges fioHasMrt td ioU,
      r = ⟨asked.start.toNat / 2 ^ c.lbaShift.val,
        asked.len.toNat / 2 ^ c.lbaShift.val % 2 ^ 32⟩ := by
  unfold namedRanges at hr
  rw [nvmeQueue_trim hQueued hDir, decode_dsmSqStores] at hr
  dsimp only at hr
  rw [if_pos (by decide)] at hr
  obtain ⟨i, hi, rfl⟩ := List.mem_map.mp hr
  have hLt : i < (trimRanges fioHasMrt td ioU).length :=
    Nat.lt_of_lt_of_le (List.mem_range.mp hi) (named_count_le hSome)
  have hAsked := List.getElem?_eq_getElem hLt
  refine ⟨_, List.mem_of_getElem? hAsked, ?_⟩
  rw [decode_queuedTrim hQueued hDir prp hAsked]

end Queue

end NewPerf.Engine
