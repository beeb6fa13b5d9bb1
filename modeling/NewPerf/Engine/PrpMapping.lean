import NewPerf.Engine.Queue

/-!
# Which memory an accepted read or write transfers

The controller finds the pages of a transfer by reading PRP1 and PRP2 from the
submission queue entry, and the list behind PRP2 from `io_prp_list_mem`.  This
file says what it finds there for every request `nvme_queue` accepts, and
compares it with the buffer `fio` asked for.

The two differ when the buffer starts on a page boundary: `nvme_page_align_up`
leaves such an address alone, so the second page pointer repeats the first
page.  `setupPrps_describes_iff` gives the exact condition.
-/

namespace NewPerf.Engine

open NewPerf.Lib.LeMemory
open NewPerf.Tools

/-! ## The pages of a buffer -/

/-- Number of 4096-byte pages that `[addr, addr + len)` touches, for a
non-empty range: from the page of the first byte to the page of the last. -/
def pagesTouched (addr len : Nat) : Nat := (addr + len - 1) / 4096 + 1 - addr / 4096

/-- The pages counted by `pagesTouched` are the pages of the range's bytes. -/
theorem exists_page_iff (addr len p : Nat) (hLen : 0 < len) :
    (∃ i, i < len ∧ (addr + i) / 4096 = p) ↔
      addr / 4096 ≤ p ∧ p < addr / 4096 + pagesTouched addr len := by
  unfold pagesTouched
  constructor
  · rintro ⟨i, hi, rfl⟩
    omega
  · rintro ⟨hlo, hhi⟩
    by_cases hFirst : p = addr / 4096
    · exact ⟨0, hLen, by omega⟩
    · exact ⟨p * 4096 - addr, by omega, by omega⟩

/-- The `k`-th page pointer that describes a buffer at `addr`. -/
def pagePointer (addr k : Nat) : Nat :=
  if k = 0 then addr else addr / 4096 * 4096 + 4096 * k

/-! ## What the controller reads -/

/-- The 64-bit word at bus address `addr` of `io_prp_list_mem`.  Bus addresses
beyond the region are not backed by the bytes the host stored there. -/
def listWord (n : NvmeData) (prp : Bytes) (addr : UInt64) : Option Nat :=
  let off := (addr - n.ioPrpListPhysAddr).toNat
  if off + 8 ≤ n.ioPrpListMem.size.toInt.toNat then some (read prp off 8) else none

/-- The page pointers of a transfer of `count` pages: PRP1, then nothing, PRP2
itself, or the consecutive entries of the list PRP2 points to. -/
def devicePointers (n : NvmeData) (prp : Bytes) (prp1 prp2 : UInt64)
    (count : Nat) : List (Option Nat) :=
  (List.range count).map fun k =>
    if k = 0 then some prp1.toNat
    else if count = 2 then some prp2.toNat
    else listWord n prp (prp2 + UInt64.ofNat (8 * (k - 1)))

/-- Bus address the controller uses for byte `i` of the transfer: it fills the
first page from PRP1's offset on and every later page from its start. -/
def deviceByteAddr (pointers : List (Option Nat)) (prp1 : UInt64) (i : Nat) :
    Option Nat :=
  let o := prp1.toNat % 4096
  let k := (o + i) / 4096
  (pointers[k]?.bind id).map fun p => if k = 0 then p + i else p + (o + i) % 4096

/-- The submission queue entry in `slot` describes the buffer of `len` bytes at
`addr`: the pointers are the expected ones, in number and in order, and so every
byte of the transfer goes where it should. -/
structure DescribesBuffer (n : NvmeData) (sq prp : Bytes) (slot addr len : Nat) :
    Prop where
  pointers : devicePointers n prp (sqEntryPrp1 sq slot) (sqEntryPrp2 sq slot)
      (pagesTouched addr len) =
    (List.range (pagesTouched addr len)).map fun k => some (pagePointer addr k)
  bytes : ∀ i, i < len →
    deviceByteAddr
      (devicePointers n prp (sqEntryPrp1 sq slot) (sqEntryPrp2 sq slot)
        (pagesTouched addr len)) (sqEntryPrp1 sq slot) i = some (addr + i)

/-- Once the pointers are right, the bytes are. -/
theorem DescribesBuffer.of_pointers {n : NvmeData} {sq prp : Bytes}
    {slot addr len : Nat} (hPrp1 : (sqEntryPrp1 sq slot).toNat = addr)
    (h : devicePointers n prp (sqEntryPrp1 sq slot) (sqEntryPrp2 sq slot)
        (pagesTouched addr len) =
      (List.range (pagesTouched addr len)).map fun k => some (pagePointer addr k)) :
    DescribesBuffer n sq prp slot addr len := by
  refine ⟨h, fun i hi => ?_⟩
  have hPage : (addr % 4096 + i) / 4096 < pagesTouched addr len := by
    unfold pagesTouched
    omega
  simp only [h, deviceByteAddr, hPrp1, List.getElem?_map,
    List.getElem?_range hPage, Option.map_some, Option.bind_some, id_eq]
  unfold pagePointer
  split
  · rfl
  · rw [Option.some.injEq]
    omega

/-! ## The exact condition -/

/-- Without wrap-around, the code's page count is the number of pages. -/
theorem prpPageCount_eq_pagesTouched (addr len : Nat) (hLen : 0 < len)
    (hMax : len < 2 ^ 63) : prpPageCount addr len = pagesTouched addr len := by
  unfold prpPageCount pagesTouched
  omega

/-- When the PRPs of a submission describe its buffer.  `pages` is the number of
pages of the buffer, and the list has room if it ends inside
`io_prp_list_mem`. -/
def PrpsExact (n : NvmeData) (addr len : Nat) : Prop :=
  (pagesTouched addr len = 1 ∨ addr % 4096 ≠ 0) ∧
    (pagesTouched addr len ≤ 2 ∨
      4096 * n.ioSqTail.toNat + 8 * (pagesTouched addr len - 1) ≤
        n.ioPrpListMem.size.toInt.toNat)

private theorem listWord_setup (n : NvmeData) (prp : Bytes) (slot : UInt32)
    (j : Nat) (hj : j < 2 ^ 60) :
    listWord n prp (n.ioPrpListPhysAddr + (slot.toUInt64 <<< nvmePageShift) +
        UInt64.ofNat j) =
      if 4096 * slot.toNat + j + 8 ≤ n.ioPrpListMem.size.toInt.toNat then
        some (read prp (4096 * slot.toNat + j) 8)
      else none := by
  have hSlot : slot.toNat < 2 ^ 32 := slot.toNat_lt
  have hCancel : n.ioPrpListPhysAddr + (slot.toUInt64 <<< nvmePageShift) +
      UInt64.ofNat j - n.ioPrpListPhysAddr =
        (slot.toUInt64 <<< nvmePageShift) + UInt64.ofNat j := by
    rw [UInt64.add_assoc, UInt64.add_comm, UInt64.add_sub_cancel]
  have hOff : ((slot.toUInt64 <<< nvmePageShift) + UInt64.ofNat j).toNat =
      4096 * slot.toNat + j := by
    rw [UInt64.toNat_add, toNat_slotPage, UInt64.toNat_ofNat']
    omega
  simp only [listWord, hCancel, hOff]

/-- The pointers `setup_prps` produces for a list, in order. -/
private theorem devicePointers_list (n : NvmeData) (prp : Bytes) (slot : UInt32)
    (addr : UInt64) (count : Nat) (hCount : 2 < count) (hMax : count < 2 ^ 52) :
    devicePointers n
        (applyAll (prpListLoop (4096 * slot.toNat) (nvmePageAlignUp addr)
          (count - 1)) prp)
        addr (n.ioPrpListPhysAddr + (slot.toUInt64 <<< nvmePageShift)) count =
      (List.range count).map fun k =>
        if k = 0 then some addr.toNat
        else if 4096 * slot.toNat + 8 * k ≤ n.ioPrpListMem.size.toInt.toNat then
          some ((alignUpNat addr.toNat + 4096 * (k - 1)) % 2 ^ 64)
        else none := by
  unfold devicePointers
  apply List.map_congr_left
  intro k hk
  rw [List.mem_range] at hk
  by_cases hZero : k = 0
  · rw [if_pos hZero, if_pos hZero]
  · rw [if_neg hZero, if_neg hZero, if_neg (by omega),
      listWord_setup n _ slot _ (by omega),
      read_prpListLoop _ _ (k - 1) _ _ (by omega), toNat_nvmePageAlignUp]
    rw [show 4096 * slot.toNat + 8 * (k - 1) + 8 = 4096 * slot.toNat + 8 * k by omega]

/-- The page boundary above an unaligned address is the next page. -/
private theorem alignUpNat_unaligned {addr : Nat} (h : addr % 4096 ≠ 0)
    (hMax : addr / 4096 * 4096 + 4096 < 2 ^ 64) :
    alignUpNat addr = addr / 4096 * 4096 + 4096 := by
  unfold alignUpNat
  omega

/-- The page boundary above an aligned address is the address itself. -/
private theorem alignUpNat_aligned {addr : Nat} (h : addr % 4096 = 0)
    (hMax : addr + 4095 < 2 ^ 64) : alignUpNat addr = addr := by
  unfold alignUpNat
  omega

/-- With two pages, PRP2 is the rounded-up address. -/
private theorem devicePointers_two_iff (n : NvmeData) (prp : Bytes) (addr : UInt64)
    (hEnd : addr.toNat / 4096 * 4096 + 4096 < 2 ^ 64) :
    devicePointers n prp addr (nvmePageAlignUp addr) 2 =
        ((List.range 2).map fun k => some (pagePointer addr.toNat k)) ↔
      addr.toNat % 4096 ≠ 0 := by
  have hExpected : ((List.range 2).map fun k => some (pagePointer addr.toNat k)) =
      [some addr.toNat, some (addr.toNat / 4096 * 4096 + 4096)] := rfl
  have hActual : devicePointers n prp addr (nvmePageAlignUp addr) 2 =
      [some addr.toNat, some (nvmePageAlignUp addr).toNat] := rfl
  rw [hExpected, hActual, toNat_nvmePageAlignUp]
  simp only [List.cons.injEq, Option.some.injEq, true_and, and_true]
  by_cases hOff : addr.toNat % 4096 = 0
  · rw [alignUpNat_aligned hOff (by omega)]
    exact iff_of_false (by omega) fun hUnaligned => hUnaligned hOff
  · rw [alignUpNat_unaligned hOff hEnd]
    exact iff_of_true rfl hOff

/-- With a list, entry `k` is the rounded-up address plus `k - 1` pages, if it is inside. -/
private theorem devicePointers_list_iff (n : NvmeData) (prp : Bytes) (slot : UInt32)
    (addr : UInt64) (count : Nat) (hCount : 2 < count) (hMax : count < 2 ^ 52)
    (hEnd : addr.toNat / 4096 * 4096 + 4096 * (count - 1) < 2 ^ 64) :
    devicePointers n
        (applyAll (prpListLoop (4096 * slot.toNat) (nvmePageAlignUp addr)
          (count - 1)) prp)
        addr (n.ioPrpListPhysAddr + (slot.toUInt64 <<< nvmePageShift)) count =
        ((List.range count).map fun k => some (pagePointer addr.toNat k)) ↔
      addr.toNat % 4096 ≠ 0 ∧
        4096 * slot.toNat + 8 * (count - 1) ≤ n.ioPrpListMem.size.toInt.toNat := by
  rw [devicePointers_list n prp slot addr count hCount hMax]
  constructor
  · intro h
    have hAt : ∀ k, k < count → _ := fun k hk => List.map_inj_left.mp h k
      (List.mem_range.mpr hk)
    have hFirst := hAt 1 (by omega)
    have hLast := hAt (count - 1) (by omega)
    rw [if_neg (by omega)] at hFirst hLast
    refine ⟨fun hOff => ?_, ?_⟩
    · split at hFirst
      · rw [alignUpNat_aligned hOff (by omega)] at hFirst
        simp only [pagePointer, Option.some.injEq] at hFirst
        rw [if_neg (by omega)] at hFirst
        omega
      · cases hFirst
    · split at hLast
      · assumption
      · cases hLast
  · rintro ⟨hOff, hRoom⟩
    apply List.map_congr_left
    intro k hk
    rw [List.mem_range] at hk
    unfold pagePointer
    by_cases hZero : k = 0
    · rw [if_pos hZero, if_pos hZero]
    · rw [if_neg hZero, if_neg hZero, if_pos (by omega),
        alignUpNat_unaligned hOff (by omega), Option.some.injEq]
      omega

/-- `PrpsExact` is necessary and sufficient for the pointers. -/
theorem setupPrps_pointers_iff (n : NvmeData) (prp : Bytes)
    (addr size : UInt64) (hLen : 0 < size.toNat) (hMax : size.toNat < 2 ^ 63)
    (hFit : addr.toNat + size.toNat < 2 ^ 64) :
    devicePointers n (applyAll (setupPrps n n.ioSqTail addr size).listStores prp)
        (setupPrps n n.ioSqTail addr size).prp1
        (setupPrps n n.ioSqTail addr size).prp2
        (pagesTouched addr.toNat size.toNat) =
      ((List.range (pagesTouched addr.toNat size.toNat)).map fun k =>
        some (pagePointer addr.toNat k)) ↔
      PrpsExact n addr.toNat size.toNat := by
  have hCount := prpPageCount_eq_pagesTouched addr.toNat size.toNat hLen hMax
  have hPos : 0 < pagesTouched addr.toNat size.toNat := by
    unfold pagesTouched
    omega
  have hEnd : addr.toNat / 4096 * 4096 +
      4096 * (pagesTouched addr.toNat size.toNat - 1) < 2 ^ 64 := by
    unfold pagesTouched
    omega
  have hBound : pagesTouched addr.toNat size.toNat < 2 ^ 52 := by
    rw [← hCount]
    exact prpPageCount_lt _ _
  rw [setupPrps_eq, hCount]
  generalize hN : pagesTouched addr.toNat size.toNat = count at *
  unfold PrpsExact
  rw [hN]
  by_cases hOne : count = 1
  · subst hOne
    simp [devicePointers, pagePointer]
  rw [if_neg hOne]
  by_cases hTwo : count = 2
  · subst hTwo
    rw [if_pos rfl, applyAll_nil, devicePointers_two_iff n prp addr hEnd]
    exact ⟨fun hOff => ⟨.inr hOff, .inl (Nat.le_refl 2)⟩, fun h => h.1.resolve_left hOne⟩
  · have hMod : (count + (2 ^ 64 - 1)) % 2 ^ 64 = count - 1 := by omega
    have hMany : 2 < count := by omega
    rw [if_neg hTwo]
    simp only [hMod]
    rw [devicePointers_list_iff n prp n.ioSqTail addr count hMany hBound hEnd]
    constructor
    · rintro ⟨hOff, hRoom⟩
      exact ⟨.inr hOff, .inr hRoom⟩
    · rintro ⟨hOff, hRoom⟩
      exact ⟨hOff.resolve_left hOne, hRoom.resolve_left (Nat.not_le.mpr hMany)⟩

/-- The PRPs an accepted read or write leaves in the submission queue entry and
in the slot's list describe the buffer exactly when `PrpsExact` holds. -/
theorem accepted_describes_iff {fioHasMrt : Bool} {td : ThreadData}
    {c : ControllerData} {n : NvmeData} {ioU : IoU} {s : Submission}
    (hQueue : nvmeQueue fioHasMrt td c n ioU = .queued s)
    (hDir : ioU.ddir = .read ∨ ioU.ddir = .write)
    (hMax : ioU.xferBuflen.toNat < 2 ^ 63)
    (hFit : (dataPhysAddr td n ioU).toNat + ioU.xferBuflen.toNat < 2 ^ 64)
    (sq prp : Bytes) :
    DescribesBuffer n (applyAll s.sqStores sq) (applyAll s.prpStores prp)
        n.ioSqTail.toNat (dataPhysAddr td n ioU).toNat ioU.xferBuflen.toNat ↔
      PrpsExact n (dataPhysAddr td n ioU).toNat ioU.xferBuflen.toNat := by
  obtain ⟨-, hExpr, hStores⟩ := nvmeQueue_queued hQueue
  obtain ⟨opcode, -, hSq⟩ := nvmeQueue_rw hQueue hDir
  have hPrpStores : s.prpStores =
      (setupPrps n n.ioSqTail (dataPhysAddr td n ioU) ioU.xferBuflen).listStores := by
    generalize s.prpStores = stores at hStores
    cases hStores with
    | rw _ => rw [hExpr.transferSize]
    | trim hTrim _ => rcases hDir with h | h <;> simp [h] at hTrim
    | multi hTrim _ => rcases hDir with h | h <;> simp [h] at hTrim
  have hRead := read_prps_rwSqStores (sqEntryOff n.ioSqTail) opcode (n.ioCmdId + 1)
    c.nsid (setupPrps n n.ioSqTail (dataPhysAddr td n ioU) ioU.xferBuflen).prp1
    (setupPrps n n.ioSqTail (dataPhysAddr td n ioU) ioU.xferBuflen).prp2
    (ioU.offset >>> UInt64.ofNat c.lbaShift)
    (ioU.xferBuflen >>> UInt64.ofNat c.lbaShift - 1).toUInt32 sq
  have hSqEq : s.sqStores = rwSqStores (sqEntryOff n.ioSqTail) opcode
      (n.ioCmdId + 1) c.nsid
      (setupPrps n n.ioSqTail (dataPhysAddr td n ioU) ioU.xferBuflen).prp1
      (setupPrps n n.ioSqTail (dataPhysAddr td n ioU) ioU.xferBuflen).prp2
      (ioU.offset >>> UInt64.ofNat c.lbaShift)
      (ioU.xferBuflen >>> UInt64.ofNat c.lbaShift - 1).toUInt32 := by
    rw [hSq, submitRwCommand, hExpr.transferSize]
    rfl
  dsimp only at hRead
  rw [← hSqEq] at hRead
  have hPrp1 : sqEntryPrp1 (applyAll s.sqStores sq) n.ioSqTail.toNat =
      (setupPrps n n.ioSqTail (dataPhysAddr td n ioU) ioU.xferBuflen).prp1 := by
    unfold sqEntryPrp1
    exact (congrArg UInt64.ofNat hRead.1).trans (UInt64.ofNat_toNat)
  have hPrp2 : sqEntryPrp2 (applyAll s.sqStores sq) n.ioSqTail.toNat =
      (setupPrps n n.ioSqTail (dataPhysAddr td n ioU) ioU.xferBuflen).prp2 := by
    unfold sqEntryPrp2
    exact (congrArg UInt64.ofNat hRead.2).trans (UInt64.ofNat_toNat)
  have hFirst : (setupPrps n n.ioSqTail (dataPhysAddr td n ioU)
      ioU.xferBuflen).prp1 = dataPhysAddr td n ioU := by
    rw [setupPrps_eq]
    split
    · rfl
    · split <;> rfl
  have hIff := setupPrps_pointers_iff n prp (dataPhysAddr td n ioU) ioU.xferBuflen
    hExpr.len_pos hMax hFit
  rw [← hPrpStores] at hIff
  constructor
  · intro h
    have hPointers := h.pointers
    rw [hPrp1, hPrp2] at hPointers
    exact hIff.mp hPointers
  · intro h
    apply DescribesBuffer.of_pointers
    · rw [hPrp1, hFirst]
    · rw [hPrp1, hPrp2]
      exact hIff.mpr h

/-- `fio`'s promise about the buffer of a request: it lies inside the region
that `nvme_alloc` set up, whose first byte is `orig_buffer`. -/
structure BufferInRegion (td : ThreadData) (n : NvmeData) (ioU : IoU) : Prop where
  base : td.origBuffer.toNat ≤ ioU.xferBuf.toNat
  bound : (ioU.xferBuf.toNat : Int) + ioU.xferBuflen.toNat ≤
    td.origBuffer.toNat + n.ioUDataMem.size.toInt

/-- The bus address of the buffer as an unbounded number. -/
def bufferAddr (td : ThreadData) (n : NvmeData) (ioU : IoU) : Nat :=
  n.ioUDataPhysAddr.toNat + (ioU.xferBuf.toNat - td.origBuffer.toNat)

theorem BufferInRegion.len_lt {td : ThreadData} {n : NvmeData} {ioU : IoU}
    (h : BufferInRegion td n ioU) : ioU.xferBuflen.toNat < 2 ^ 63 := by
  have hSize := Int64.toInt_lt n.ioUDataMem.size
  have hBase := h.base
  have hBound := h.bound
  omega

theorem BufferInRegion.toNat_dataPhysAddr {td : ThreadData} {n : NvmeData}
    {ioU : IoU} (h : BufferInRegion td n ioU)
    (hFit : bufferAddr td n ioU + ioU.xferBuflen.toNat < 2 ^ 64) :
    (dataPhysAddr td n ioU).toNat = bufferAddr td n ioU := by
  have hBase := h.base
  have hBuf : ioU.xferBuf.toNat < 2 ^ 64 := ioU.xferBuf.toNat_lt
  unfold bufferAddr at hFit ⊢
  rw [dataPhysAddr, UInt64.toNat_add, UInt64.toNat_sub]
  omega

/-- A read or write that `nvme_queue` accepts is described to the device exactly
as `fio` asked if and only if it fits in one page or does not start on a page
boundary, and its list, if it has one, ends inside `io_prp_list_mem`. -/
theorem nvmeQueue_describesBuffer_iff (fioHasMrt : Bool) (td : ThreadData)
    (c : ControllerData) (n : NvmeData) (ioU : IoU) (s : Submission) (sq prp : Bytes)
    (hQueue : nvmeQueue fioHasMrt td c n ioU = .queued s)
    (hDir : ioU.ddir = .read ∨ ioU.ddir = .write)
    (hRegion : BufferInRegion td n ioU)
    (hFit : bufferAddr td n ioU + ioU.xferBuflen.toNat < 2 ^ 64) :
    DescribesBuffer n (applyAll s.sqStores sq) (applyAll s.prpStores prp)
        n.ioSqTail.toNat (bufferAddr td n ioU) ioU.xferBuflen.toNat ↔
      (pagesTouched (bufferAddr td n ioU) ioU.xferBuflen.toNat = 1 ∨
        bufferAddr td n ioU % 4096 ≠ 0) ∧
      (pagesTouched (bufferAddr td n ioU) ioU.xferBuflen.toNat ≤ 2 ∨
        4096 * n.ioSqTail.toNat +
            8 * (pagesTouched (bufferAddr td n ioU) ioU.xferBuflen.toNat - 1) ≤
          n.ioPrpListMem.size.toInt.toNat) := by
  have hAddr := hRegion.toNat_dataPhysAddr hFit
  have hIff := accepted_describes_iff hQueue hDir hRegion.len_lt
    (by rw [hAddr]; exact hFit) sq prp
  rw [hAddr] at hIff
  exact hIff

/-! ## Two reads of 8 KiB on the smallest queue pair -/

/-- A buffer that starts 512 bytes into a page touches three pages and is
described through a list of two entries. -/
theorem nvmeQueue_describesBuffer_unaligned :
    ∃ s, nvmeQueue true smallThread smallController smallPair
        (readInto 0x7200 8192) = .queued s ∧
      DescribesBuffer smallPair (applyAll s.sqStores fun _ => 0)
        (applyAll s.prpStores fun _ => 0) 0 0x10200 8192 :=
  ⟨_, rfl, (nvmeQueue_describesBuffer_iff true smallThread smallController smallPair
    (readInto 0x7200 8192) _ (fun _ => 0) (fun _ => 0) rfl (Or.inl rfl)
    ⟨by decide, by decide⟩ (by decide)).mpr ⟨by decide, by decide⟩⟩

/-- The same read into a page-aligned buffer: two pages, but PRP2 is the first
page again. -/
theorem nvmeQueue_describesBuffer_aligned_false :
    ∃ s, nvmeQueue true smallThread smallController smallPair
        (readInto 0x7000 8192) = .queued s ∧
      BufferInRegion smallThread smallPair (readInto 0x7000 8192) ∧
      bufferAddr smallThread smallPair (readInto 0x7000 8192) + 8192 < 2 ^ 64 ∧
      ¬ DescribesBuffer smallPair (applyAll s.sqStores fun _ => 0)
        (applyAll s.prpStores fun _ => 0) 0 0x10000 8192 := by
  refine ⟨_, rfl, ⟨by decide, by decide⟩, by decide, fun h => ?_⟩
  have hExact := (@accepted_describes_iff true smallThread smallController
    smallPair (readInto 0x7000 8192) _ rfl (Or.inl rfl) (by decide) (by decide)
    (fun _ => 0) (fun _ => 0)).mp h
  exact absurd hExact.1 (by decide)

end NewPerf.Engine
