import NewPerf.Engine.PrpMapping
import NewPerf.Engine.Encoding
import NewPerf.Engine.SlotPages

/-!
# What the device does with a command

A command is carried out as a number of moves between the data region that `nvme_alloc`
set up and the namespace, one for each byte of a read or write and one for each range of
a trim.  The device works out what to move from the submission queue entry and, at the
time of the move, from the PRP list or range table the entry points to.  `fio` asked for
something else: an offset, a length and a buffer, or a table of byte ranges.
`deviceMoves_queued` says that the two are the same moves in the same order, for every
request that `nvme_queue` accepts and that can be expressed at all.
-/

namespace NewPerf.Engine

open NewPerf.Lib.LeMemory
open NewPerf.Tools

/-! ## Moves -/

/-- The bytes of `io_u_data_mem` and of the namespace. -/
structure Storage where
  data : Bytes
  media : Bytes

/-- A move, in byte offsets into the data region and the namespace.  `fill` is a store of
the host's own into the data region. -/
inductive Move where
  | toBuffer (dst src : Nat)
  | toMedia (dst src : Nat)
  | erase (start len : Nat)
  | fill (dst : Nat) (byte : UInt8)
  deriving DecidableEq, Repr

/-- The namespace a command names, its block size, and what becomes of a byte that is
deallocated. -/
structure Namespace where
  nsid : Nat
  lbaShift : Nat
  wipe : Nat → UInt8 → UInt8

def Namespace.make (ns : Namespace) : Move → Storage → Storage
  | .toBuffer dst src, st => { st with data := Function.update st.data dst (st.media src) }
  | .toMedia dst src, st => { st with media := Function.update st.media dst (st.data src) }
  | .erase start len, st =>
      { st with media := fun a =>
          if start ≤ a ∧ a < start + len then ns.wipe a (st.media a) else st.media a }
  | .fill dst byte, st => { st with data := Function.update st.data dst byte }

/-- Where the buffer of a request starts in the data region. -/
def bufferOff (td : ThreadData) (ioU : IoU) : Nat :=
  ioU.xferBuf.toNat - td.origBuffer.toNat

/-- The moves `fio` asks for with a request. -/
def requestMoves (fioHasMrt : Bool) (td : ThreadData) (ioU : IoU) : List Move :=
  match ioU.ddir with
  | .read => (List.range ioU.xferBuflen.toNat).map fun k =>
      .toBuffer (bufferOff td ioU + k) (ioU.offset.toNat + k)
  | .write => (List.range ioU.xferBuflen.toNat).map fun k =>
      .toMedia (ioU.offset.toNat + k) (bufferOff td ioU + k)
  | .trim => (trimRanges fioHasMrt td ioU).map fun r => .erase r.start.toNat r.len.toNat
  | .other => []

/-! ## The device -/

/-- What the device keeps of a submission queue entry. -/
structure DeviceCommand where
  entry : SqEntry
  prp2 : UInt64
  deriving DecidableEq, Repr

def commandAt (sq : Bytes) (slot : Nat) : DeviceCommand :=
  ⟨decodeSqEntry sq (nvmeIoSqEntrySize * slot), sqEntryPrp2 sq slot⟩

/-- The next `count` page pointers of the PRP list at `addr`.  The last entry of a page is
a page pointer only if it is the last one needed; otherwise the list goes on in the page
it points to. -/
def listPointers (n : NvmeData) (prp : Bytes) : Nat → UInt64 → List (Option Nat)
  | 0, _ => []
  | 1, addr => [listWord n prp addr]
  | count + 2, addr =>
      if addr.toNat % 4096 = 4088 then
        match listWord n prp addr with
        | some next =>
            if next % 4096 = 0 then
              listWord n prp (UInt64.ofNat next) ::
                listPointers n prp (count + 1) (UInt64.ofNat next + 8)
            else [none]
        | none => [none]
      else listWord n prp addr :: listPointers n prp (count + 1) (addr + 8)

/-- The page pointers of a transfer of `count` pages. -/
def pagePointers (n : NvmeData) (prp : Bytes) (prp1 prp2 : UInt64) (count : Nat) :
    List (Option Nat) :=
  some prp1.toNat ::
    if count = 1 then []
    else if count = 2 then [some prp2.toNat]
    else listPointers n prp (count - 1) prp2

/-- The data region answers to the bus addresses it was allocated at. -/
def dataOff (n : NvmeData) (addr : Nat) : Option Nat :=
  if n.ioUDataPhysAddr.toNat ≤ addr ∧
      (addr : Int) < n.ioUDataPhysAddr.toNat + n.ioUDataMem.size.toInt then
    some (addr - n.ioUDataPhysAddr.toNat)
  else none

/-- Number of bytes of a read or write: NLB is one less than the number of blocks. -/
def Namespace.transferLen (ns : Namespace) (cmd : DeviceCommand) : Nat :=
  (cmd.entry.cdw12 % 2 ^ 16 + 1) * 2 ^ ns.lbaShift

/-- Where byte `k` of a transfer is in the data region. -/
def Namespace.transferOff (ns : Namespace) (n : NvmeData) (prp : Bytes) (cmd : DeviceCommand)
    (k : Nat) : Option Nat :=
  let prp1 := UInt64.ofNat cmd.entry.prp1
  let pages := pagesTouched prp1.toNat (ns.transferLen cmd)
  (deviceByteAddr (pagePointers n prp prp1 cmd.prp2 pages) prp1 k).bind (dataOff n)

/-- Range descriptor `k` of a Dataset Management command. -/
def rangeAt (n : NvmeData) (prp : Bytes) (cmd : DeviceCommand) (k : Nat) : Option DsmRange :=
  let off := (UInt64.ofNat cmd.entry.prp1 - n.ioPrpListPhysAddr).toNat + 16 * k
  if off + 16 ≤ n.ioPrpListMem.size.toInt.toNat then some (decodeDsmRange prp off) else none

/-- The moves of a command; `none` where the device has nothing to go by. -/
def Namespace.deviceMoves (ns : Namespace) (n : NvmeData) (prp : Bytes) (cmd : DeviceCommand) :
    List (Option Move) :=
  let first := cmd.entry.slba * 2 ^ ns.lbaShift
  if cmd.entry.nsid ≠ ns.nsid then [none]
  else if cmd.entry.opcode = nvmeIoReadOpcode.toNat then
    (List.range (ns.transferLen cmd)).map fun k =>
      (ns.transferOff n prp cmd k).map fun off => .toBuffer off (first + k)
  else if cmd.entry.opcode = nvmeIoWriteOpcode.toNat then
    (List.range (ns.transferLen cmd)).map fun k =>
      (ns.transferOff n prp cmd k).map fun off => .toMedia (first + k) off
  else if cmd.entry.opcode = nvmeIoDatasetManagementOpcode.toNat ∧
      cmd.entry.cdw11 = nvmeDsmAttrDeallocate.toNat then
    (List.range (cmd.entry.cdw10 % 2 ^ 8 + 1)).map fun k =>
      (rangeAt n prp cmd k).map fun r =>
        .erase (r.slba * 2 ^ ns.lbaShift) (r.length * 2 ^ ns.lbaShift)
  else [none]

/-! ## Which requests can be carried out -/

/-- The controller data the engine has agree with the namespace. -/
structure Namespace.Matches (ns : Namespace) (c : ControllerData) : Prop where
  nsid : ns.nsid = c.nsid.toNat
  lbaShift : ns.lbaShift = c.lbaShift.val

/-- The request can be put into a command: the buffer of a read or write is in the data
region and is described by its PRPs, in a list of one page at most, and the length fits;
a trim has between 1 and 256 ranges of whole blocks. -/
def Expressed (fioHasMrt : Bool) (td : ThreadData) (c : ControllerData) (n : NvmeData)
    (ioU : IoU) : Prop :=
  match ioU.ddir with
  | .read | .write =>
      (BufferInRegion td n ioU ∧
        bufferAddr td n ioU + ioU.xferBuflen.toNat < 2 ^ 64) ∧
      (pagesTouched (bufferAddr td n ioU) ioU.xferBuflen.toNat = 1 ∨
        bufferAddr td n ioU % 4096 ≠ 0) ∧
      pagesTouched (bufferAddr td n ioU) ioU.xferBuflen.toNat ≤ 513 ∧
      ioU.xferBuflen.toNat / 2 ^ c.lbaShift.val ≤ 65536
  | .trim => RangesInPage fioHasMrt td ioU ∧
      ∀ r ∈ trimRanges fioHasMrt td ioU, Describable c r
  | .other => True

instance decidableBufferInRegion (td : ThreadData) (n : NvmeData) (ioU : IoU) :
    Decidable (BufferInRegion td n ioU) :=
  decidable_of_iff (td.origBuffer.toNat ≤ ioU.xferBuf.toNat ∧
      (ioU.xferBuf.toNat : Int) + ioU.xferBuflen.toNat ≤
        td.origBuffer.toNat + n.ioUDataMem.size.toInt)
    ⟨fun h => ⟨h.1, h.2⟩, fun h => ⟨h.base, h.bound⟩⟩

instance decidableExpressed (fioHasMrt : Bool) (td : ThreadData) (c : ControllerData)
    (n : NvmeData) (ioU : IoU) : Decidable (Expressed fioHasMrt td c n ioU) := by
  unfold Expressed RangesInPage
  split <;> infer_instance

/-- What `create_io_queue_pair` promises about the page lists. -/
structure ListPages (n : NvmeData) : Prop where
  regions : PairRegions n
  aligned : n.ioPrpListPhysAddr.toNat % 4096 = 0
  depth : n.ioSqDepth.toNat ≤ 65536

/-! ## Following the pointers -/

section Pointers

variable {n : NvmeData} {prp : Bytes}

/-- A list that ends inside its page is read straight through. -/
private theorem listPointers_eq (count : Nat) (addr : UInt64)
    (hPage : addr.toNat % 4096 + 8 * count ≤ 4096) :
    listPointers n prp count addr =
      (List.range count).map fun j => listWord n prp (addr + UInt64.ofNat (8 * j)) := by
  induction count generalizing addr with
  | zero => rfl
  | succ count ih =>
      have hEight : (8 : UInt64).toNat = 8 := rfl
      have hFirst : listWord n prp (addr + UInt64.ofNat (8 * 0)) = listWord n prp addr := by
        simp
      cases count with
      | zero => exact congrArg (fun w => [w]) hFirst.symm
      | succ count =>
          have hNext : (addr + 8).toNat % 4096 + 8 * (count + 1) ≤ 4096 := by
            rw [UInt64.toNat_add, hEight]
            omega
          have hShift : ∀ j, listWord n prp (addr + 8 + UInt64.ofNat (8 * j)) =
              listWord n prp (addr + UInt64.ofNat (8 * (j + 1))) := by
            intro j
            congr 1
            rw [UInt64.add_assoc]
            congr 1
            apply UInt64.toNat_inj.mp
            rw [UInt64.toNat_add, UInt64.toNat_ofNat', UInt64.toNat_ofNat', hEight]
            omega
          have hRange : List.range (count + 1 + 1) = 0 :: (List.range (count + 1)).map Nat.succ :=
            List.range_succ_eq_map
          rw [listPointers, if_neg (by omega), ih _ hNext, hRange, List.map_cons, List.map_map,
            hFirst]
          exact congrArg _ (List.map_congr_left fun j _ => hShift j)

/-- Up to 513 pages the device reads what `devicePointers` lists. -/
private theorem pagePointers_eq (n : NvmeData) (prp : Bytes) (prp1 : UInt64) {prp2 : UInt64}
    {count : Nat} (hPos : 0 < count)
    (hPage : 2 < count → prp2.toNat % 4096 + 8 * (count - 1) ≤ 4096) :
    pagePointers n prp prp1 prp2 count = devicePointers n prp prp1 prp2 count := by
  obtain ⟨rest, rfl⟩ : ∃ rest, count = rest + 1 := ⟨count - 1, by omega⟩
  unfold pagePointers devicePointers
  rw [List.range_succ_eq_map, List.map_cons, List.map_map, if_pos rfl]
  congr 1
  by_cases hOne : rest + 1 = 1
  · obtain rfl : rest = 0 := by omega
    rfl
  rw [if_neg hOne]
  by_cases hTwo : rest + 1 = 2
  · obtain rfl : rest = 1 := by omega
    rfl
  rw [if_neg hTwo, Nat.add_sub_cancel, listPointers_eq rest prp2 (hPage (by omega))]
  refine List.map_congr_left fun j _ => ?_
  rw [Function.comp_apply, if_neg (Nat.succ_ne_zero j), if_neg hTwo]
  rfl

/-- A byte of a buffer in the data region is found there. -/
private theorem dataOff_buffer {td : ThreadData} {ioU : IoU} {k : Nat}
    (hRegion : BufferInRegion td n ioU) (hk : k < ioU.xferBuflen.toNat) :
    dataOff n (bufferAddr td n ioU + k) = some (bufferOff td ioU + k) := by
  have hBase := hRegion.base
  have hBound := hRegion.bound
  unfold dataOff bufferAddr bufferOff
  rw [if_pos (by omega), Option.some.injEq]
  omega

end Pointers

/-! ## Reads and writes -/

section Queued

variable {fioHasMrt : Bool} {td : ThreadData} {c : ControllerData} {n : NvmeData} {ioU : IoU}
  {sub : Submission} {ns : Namespace}

/-- The list of an accepted request starts on a page boundary. -/
private theorem prp2_page (hList : ListPages n) (slot : UInt32) :
    (n.ioPrpListPhysAddr + (slot.toUInt64 <<< nvmePageShift)).toNat % 4096 = 0 := by
  have hAligned := hList.aligned
  rw [UInt64.toNat_add, toNat_slotPage]
  omega

/-- PRP2 of an accepted read or write is the one `setup_prps` returned. -/
private theorem sqEntryPrp2_queued (hQueue : nvmeQueue fioHasMrt td c n ioU = .queued sub)
    (hDir : ioU.ddir = .read ∨ ioU.ddir = .write) (sq : Bytes) :
    sqEntryPrp2 (applyAll sub.sqStores sq) n.ioSqTail.toNat =
      (setupPrps n n.ioSqTail (dataPhysAddr td n ioU) ioU.xferBuflen).prp2 := by
  obtain ⟨-, hExpr, -⟩ := nvmeQueue_queued hQueue
  obtain ⟨opcode, -, hStores⟩ := nvmeQueue_rw hQueue hDir
  rw [hStores, submitRwCommand, hExpr.transferSize]
  exact (congrArg UInt64.ofNat (read_prps_rwSqStores _ _ _ _ _ _ _ _ _).2).trans
    UInt64.ofNat_toNat

/-- A list has its page to itself. -/
private theorem list_in_page (hList : ListPages n)
    (hQueue : nvmeQueue fioHasMrt td c n ioU = .queued sub)
    (hDir : ioU.ddir = .read ∨ ioU.ddir = .write)
    (hRegion : BufferInRegion td n ioU)
    (hFit : bufferAddr td n ioU + ioU.xferBuflen.toNat < 2 ^ 64)
    (hPages : pagesTouched (bufferAddr td n ioU) ioU.xferBuflen.toNat ≤ 513) (sq : Bytes)
    (hMany : 2 < pagesTouched (bufferAddr td n ioU) ioU.xferBuflen.toNat) :
    (sqEntryPrp2 (applyAll sub.sqStores sq) n.ioSqTail.toNat).toNat % 4096 +
      8 * (pagesTouched (bufferAddr td n ioU) ioU.xferBuflen.toNat - 1) ≤ 4096 := by
  have hCount := prpPageCount_eq_pagesTouched (bufferAddr td n ioU) ioU.xferBuflen.toNat
    (nvmeQueue_queued hQueue).2.1.len_pos hRegion.len_lt
  rw [sqEntryPrp2_queued hQueue hDir, setupPrps_eq, hRegion.toNat_dataPhysAddr hFit, hCount,
    if_neg (by omega), if_neg (by omega)]
  dsimp only
  rw [prp2_page hList]
  omega

/-- The device finds byte `k` of an accepted transfer where `fio` has it. -/
private theorem transferOff_queued (hList : ListPages n)
    (hSlot : n.ioSqTail.toNat < n.ioSqDepth.toNat)
    (hQueue : nvmeQueue fioHasMrt td c n ioU = .queued sub)
    (hDir : ioU.ddir = .read ∨ ioU.ddir = .write)
    (hRegion : BufferInRegion td n ioU)
    (hFit : bufferAddr td n ioU + ioU.xferBuflen.toNat < 2 ^ 64)
    (hExact : pagesTouched (bufferAddr td n ioU) ioU.xferBuflen.toNat = 1 ∨
      bufferAddr td n ioU % 4096 ≠ 0)
    (hPages : pagesTouched (bufferAddr td n ioU) ioU.xferBuflen.toNat ≤ 513)
    (sq prp : Bytes)
    (hLen : ns.transferLen (commandAt (applyAll sub.sqStores sq) n.ioSqTail.toNat) =
      ioU.xferBuflen.toNat) {k : Nat} (hk : k < ioU.xferBuflen.toNat) :
    ns.transferOff n (applyAll sub.prpStores prp)
        (commandAt (applyAll sub.sqStores sq) n.ioSqTail.toNat) k =
      some (bufferOff td ioU + k) := by
  have hAddr := hRegion.toNat_dataPhysAddr hFit
  have hPos : 0 < pagesTouched (bufferAddr td n ioU) ioU.xferBuflen.toNat := by
    unfold pagesTouched
    omega
  have hRoom : 4096 * n.ioSqTail.toNat +
      8 * (pagesTouched (bufferAddr td n ioU) ioU.xferBuflen.toNat - 1) ≤
        n.ioPrpListMem.size.toInt.toNat := by
    have hPage : nvmePageSize.toNat = 4096 := by decide
    have hDepth := hList.depth
    have hSize := hList.regions.prpList
    rw [ioPrpListSize, UInt64.toNat_mul, UInt32.toNat_toUInt64, hPage] at hSize
    omega
  have hDescribes := (accepted_describes_iff hQueue hDir hRegion.len_lt
    (by rw [hAddr]; exact hFit) sq prp).mpr
  rw [hAddr] at hDescribes
  obtain ⟨hPointers, hBytes⟩ := hDescribes ⟨hExact, .inr hRoom⟩
  -- PRP1 is the first of the pointers.
  have hPrp1 : (sqEntryPrp1 (applyAll sub.sqStores sq) n.ioSqTail.toNat).toNat =
      bufferAddr td n ioU := by
    have hHead := congrArg (fun l => l[0]?) hPointers
    simpa [devicePointers, List.getElem?_range hPos, pagePointer] using hHead
  have hEq := pagePointers_eq n (applyAll sub.prpStores prp)
    (sqEntryPrp1 (applyAll sub.sqStores sq) n.ioSqTail.toNat) hPos
    (list_in_page hList hQueue hDir hRegion hFit hPages sq)
  have hByte := hBytes k hk
  rw [← hEq] at hByte
  show (deviceByteAddr (pagePointers n (applyAll sub.prpStores prp)
    (sqEntryPrp1 (applyAll sub.sqStores sq) n.ioSqTail.toNat)
    (sqEntryPrp2 (applyAll sub.sqStores sq) n.ioSqTail.toNat)
    (pagesTouched (sqEntryPrp1 (applyAll sub.sqStores sq) n.ioSqTail.toNat).toNat
      (ns.transferLen (commandAt (applyAll sub.sqStores sq) n.ioSqTail.toNat))))
    (sqEntryPrp1 (applyAll sub.sqStores sq) n.ioSqTail.toNat) k).bind (dataOff n) = _
  rw [hPrp1, hLen, hByte, Option.bind_some, dataOff_buffer hRegion hk]

private theorem deviceMoves_rw (hList : ListPages n)
    (hSlot : n.ioSqTail.toNat < n.ioSqDepth.toNat) (hNs : ns.Matches c)
    (hQueue : nvmeQueue fioHasMrt td c n ioU = .queued sub)
    (hDir : ioU.ddir = .read ∨ ioU.ddir = .write)
    (hExpressed : Expressed fioHasMrt td c n ioU) (sq prp : Bytes) :
    ns.deviceMoves n (applyAll sub.prpStores prp)
        (commandAt (applyAll sub.sqStores sq) n.ioSqTail.toNat) =
      (requestMoves fioHasMrt td ioU).map some := by
  obtain ⟨⟨hRegion, hFit⟩, hExact, hPages, hShort⟩ : (BufferInRegion td n ioU ∧
      bufferAddr td n ioU + ioU.xferBuflen.toNat < 2 ^ 64) ∧
      (pagesTouched (bufferAddr td n ioU) ioU.xferBuflen.toNat = 1 ∨
        bufferAddr td n ioU % 4096 ≠ 0) ∧
      pagesTouched (bufferAddr td n ioU) ioU.xferBuflen.toNat ≤ 513 ∧
      ioU.xferBuflen.toNat / 2 ^ c.lbaShift.val ≤ 65536 := by
    rcases hDir with hDir | hDir
    · simpa only [Expressed, hDir] using hExpressed
    · simpa only [Expressed, hDir] using hExpressed
  obtain ⟨-, hExpr, -⟩ := nvmeQueue_queued hQueue
  obtain ⟨e, he, hOpcode, -, hNsid, hSlba, hCdw12, -⟩ := decode_queuedRw hQueue hDir sq
  have hEntry : (commandAt (applyAll sub.sqStores sq) n.ioSqTail.toNat).entry = e := he
  have hFirst : e.slba * 2 ^ ns.lbaShift = ioU.offset.toNat := by
    rw [hSlba, hNs.lbaShift]
    exact Nat.div_mul_cancel (Nat.dvd_of_mod_eq_zero hExpr.both_mod.1)
  have hLen : ns.transferLen (commandAt (applyAll sub.sqStores sq) n.ioSqTail.toNat) =
      ioU.xferBuflen.toNat := by
    have hPos := hExpr.blocks_pos
    rw [Namespace.transferLen, hEntry, hCdw12, hNs.lbaShift,
      Nat.mod_eq_of_lt (b := 2 ^ 32) (by omega), Nat.mod_eq_of_lt (by omega),
      Nat.sub_add_cancel hPos, hExpr.blocks_mul]
  have hOff : ∀ k, k < ioU.xferBuflen.toNat → ns.transferOff n (applyAll sub.prpStores prp)
      (commandAt (applyAll sub.sqStores sq) n.ioSqTail.toNat) k =
        some (bufferOff td ioU + k) :=
    fun k hk => transferOff_queued hList hSlot hQueue hDir hRegion hFit hExact hPages sq prp
      hLen hk
  have hRead : nvmeIoReadOpcode.toNat = 2 := rfl
  have hWrite : nvmeIoWriteOpcode.toNat = 1 := rfl
  simp only [Namespace.deviceMoves, hEntry, hLen, hFirst, hNsid, hNs.nsid, hOpcode, hRead,
    hWrite, ne_eq, not_true, if_false]
  rcases hDir with hDir | hDir
  · simp only [hDir, if_true, requestMoves, List.map_map]
    refine List.map_congr_left fun k hk => ?_
    rw [hOff k (List.mem_range.mp hk)]
    rfl
  · simp only [hDir, requestMoves, List.map_map]
    refine List.map_congr_left fun k hk => ?_
    rw [hOff k (List.mem_range.mp hk)]
    rfl

/-! ## Trims -/

private theorem rangeAt_queued (hList : ListPages n)
    (hSlot : n.ioSqTail.toNat < n.ioSqDepth.toNat)
    (hQueue : nvmeQueue fioHasMrt td c n ioU = .queued sub) (hDir : ioU.ddir = .trim)
    (hCount : RangesInPage fioHasMrt td ioU) (sq prp : Bytes) {k : Nat} {r : TrimRange}
    (hr : (trimRanges fioHasMrt td ioU)[k]? = some r) :
    rangeAt n (applyAll sub.prpStores prp)
        (commandAt (applyAll sub.sqStores sq) n.ioSqTail.toNat) k =
      some ⟨0, r.len.toNat / 2 ^ c.lbaShift.val % 2 ^ 32,
        r.start.toNat / 2 ^ c.lbaShift.val⟩ := by
  have hk : k < (trimRanges fioHasMrt td ioU).length :=
    (List.getElem?_eq_some_iff.mp hr).1
  have hMax := (length_trimRanges hCount).2
  have hPrp1 : (commandAt (applyAll sub.sqStores sq) n.ioSqTail.toNat).entry.prp1 =
      (n.ioPrpListPhysAddr + n.ioSqTail.toUInt64 <<< nvmePageShift).toNat := by
    rw [commandAt, nvmeQueue_trim hQueue hDir]
    exact congrArg SqEntry.prp1 (decode_dsmSqStores _ _ _ _ _ _)
  have hOff : (UInt64.ofNat (n.ioPrpListPhysAddr +
      n.ioSqTail.toUInt64 <<< nvmePageShift).toNat - n.ioPrpListPhysAddr).toNat =
        slotPageOff n.ioSqTail := by
    rw [UInt64.ofNat_toNat, UInt64.add_comm, UInt64.add_sub_cancel]
    rfl
  have hRoom : slotPageOff n.ioSqTail + 16 * k + 16 ≤ n.ioPrpListMem.size.toInt.toNat := by
    have hPage : nvmePageSize.toNat = 4096 := by decide
    have hDepth := hList.depth
    have hSize := hList.regions.prpList
    rw [ioPrpListSize, UInt64.toNat_mul, UInt32.toNat_toUInt64, hPage] at hSize
    rw [slotPageOff_eq]
    omega
  simp only [rangeAt, hPrp1, hOff]
  rw [if_pos hRoom, decode_queuedTrim hQueue hDir prp hr]

private theorem deviceMoves_trim (hList : ListPages n)
    (hSlot : n.ioSqTail.toNat < n.ioSqDepth.toNat) (hNs : ns.Matches c)
    (hQueue : nvmeQueue fioHasMrt td c n ioU = .queued sub) (hDir : ioU.ddir = .trim)
    (hExpressed : Expressed fioHasMrt td c n ioU) (sq prp : Bytes) :
    ns.deviceMoves n (applyAll sub.prpStores prp)
        (commandAt (applyAll sub.sqStores sq) n.ioSqTail.toNat) =
      (requestMoves fioHasMrt td ioU).map some := by
  obtain ⟨hCount, hAll⟩ : RangesInPage fioHasMrt td ioU ∧
      ∀ r ∈ trimRanges fioHasMrt td ioU, Describable c r := by
    simpa only [Expressed, hDir] using hExpressed
  obtain ⟨hPos, hMax⟩ := length_trimRanges hCount
  have hEntry : (commandAt (applyAll sub.sqStores sq) n.ioSqTail.toNat).entry =
      decodeSqEntry (applyAll sub.sqStores sq) (sqEntryOff n.ioSqTail) := rfl
  have hDecoded := decode_dsmSqStores (sqEntryOff n.ioSqTail) (n.ioCmdId + 1) c.nsid
    (n.ioPrpListPhysAddr + n.ioSqTail.toUInt64 <<< nvmePageShift)
    (if fioHasMrt && td.numRange != 1 then ioU.numberTrim - 1 else 0) sq
  rw [← nvmeQueue_trim hQueue hDir, ← hEntry] at hDecoded
  have hNr : ((if fioHasMrt && td.numRange != 1 then ioU.numberTrim - 1 else 0 :
      UInt32).toNat) % 2 ^ 8 + 1 = (trimRanges fioHasMrt td ioU).length := by
    rw [toNat_numRange hCount]
    omega
  have hOther : nvmeIoDatasetManagementOpcode.toNat ≠ nvmeIoReadOpcode.toNat ∧
      nvmeIoDatasetManagementOpcode.toNat ≠ nvmeIoWriteOpcode.toNat := by decide
  simp only [Namespace.deviceMoves, hDecoded, hNs.nsid, ne_eq, not_true, if_false, hOther.1,
    hOther.2, and_self, if_true, hNr, requestMoves, hDir, List.map_map]
  apply List.ext_getElem?
  intro k
  rw [List.getElem?_map, List.getElem?_map]
  rcases Nat.lt_or_ge k (trimRanges fioHasMrt td ioU).length with hk | hk
  · have hr := List.getElem?_eq_getElem hk
    obtain ⟨hStart, hLen⟩ := (describable_iff _).mp (hAll _ (List.getElem_mem hk))
    rw [List.getElem?_range hk, hr, Option.map_some, Option.map_some,
      rangeAt_queued hList hSlot hQueue hDir hCount sq prp hr, Option.map_some, hNs.lbaShift]
    dsimp only
    rw [hStart, hLen]
    rfl
  · rw [List.getElem?_eq_none (by simpa using hk), List.getElem?_eq_none hk]
    rfl

/-- The device does with an accepted request what `fio` asked for. -/
theorem deviceMoves_queued (hList : ListPages n)
    (hSlot : n.ioSqTail.toNat < n.ioSqDepth.toNat) (hNs : ns.Matches c)
    (hQueue : nvmeQueue fioHasMrt td c n ioU = .queued sub)
    (hExpressed : Expressed fioHasMrt td c n ioU) (sq prp : Bytes) :
    ns.deviceMoves n (applyAll sub.prpStores prp)
        (commandAt (applyAll sub.sqStores sq) n.ioSqTail.toNat) =
      (requestMoves fioHasMrt td ioU).map some := by
  cases hDir : ioU.ddir with
  | read => exact deviceMoves_rw hList hSlot hNs hQueue (.inl hDir) hExpressed sq prp
  | write => exact deviceMoves_rw hList hSlot hNs hQueue (.inr hDir) hExpressed sq prp
  | trim => exact deviceMoves_trim hList hSlot hNs hQueue hDir hExpressed sq prp
  | other =>
      exfalso
      simp only [nvmeQueue, hDir] at hQueue
      split_ifs at hQueue

end Queued

/-! ## A namespace with blocks of one byte -/

def byteController : ControllerData := { nsid := 1, lbaShift := 0 }

/-- Deallocated blocks read as zero. -/
def byteNamespace : Namespace := ⟨1, 0, fun _ _ => 0⟩

theorem matches_byteNamespace : byteNamespace.Matches byteController := ⟨rfl, rfl⟩

theorem listPages_smallPair : ListPages smallPair :=
  ⟨⟨by decide, by decide⟩, by decide, by decide⟩

end NewPerf.Engine
