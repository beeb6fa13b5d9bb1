import NewPerf.Engine.BackPressure

/-!
# The pages of `io_prp_list_mem`

Each submission slot has one page for a PRP list or a range table.  A request
writes `listBytes` bytes from the start of its slot's page on.  Two questions
follow: whether the bytes stay inside the page, and whether the page is still in
use by the command that had the slot before.
-/

namespace NewPerf.Engine

open NewPerf.Lib.LeMemory
open NewPerf.Lib.Runs
open NewPerf.Tools

/-- Number of bytes a request puts into `io_prp_list_mem`. -/
def listBytes (fioHasMrt : Bool) (td : ThreadData) (n : NvmeData) (ioU : IoU) : Nat :=
  match ioU.ddir with
  | .read | .write =>
      prpListBytes (dataPhysAddr td n ioU).toNat ioU.xferBuflen.toNat
  | .trim => if fioHasMrt && td.numRange != 1 then 16 * ioU.numberTrim.toNat else 16
  | .other => 0

/-- An accepted request fills the first `listBytes` bytes from its slot's page
on. -/
theorem tiles_prpStores {fioHasMrt : Bool} {td : ThreadData} {c : ControllerData}
    {n : NvmeData} {ioU : IoU} {sub : Submission}
    (hQueue : nvmeQueue fioHasMrt td c n ioU = .queued sub) :
    Tiles sub.prpStores (4096 * n.ioSqTail.toNat)
      (listBytes fioHasMrt td n ioU) := by
  obtain ⟨-, hExpr, hStores⟩ := nvmeQueue_queued hQueue
  generalize hList : sub.prpStores = stores at hStores ⊢
  cases hStores with
  | rw hDir =>
      have hBytes : listBytes fioHasMrt td n ioU =
          prpListBytes (dataPhysAddr td n ioU).toNat ioU.xferBuflen.toNat := by
        rcases hDir with hDir | hDir
        · rw [listBytes, hDir]
        · rw [listBytes, hDir]
      rw [hExpr.transferSize, hBytes]
      exact tiles_setupPrps _ _ _ _
  | trim hDir hOne =>
      rw [listBytes, hDir, slotPageOff_eq]
      simp only [hOne, Bool.false_eq_true, if_false]
      exact tiles_dsmRangeStores _ _ _
  | multi hDir hMany =>
      rw [listBytes, hDir, slotPageOff_eq]
      simp only [hMany, if_true]
      exact tiles_dsmRangeLoop _ _ _ _ _

/-! ## Confinement -/

/-- The regions `create_io_queue_pair` allocated are as large as it asked. -/
structure PairRegions (n : NvmeData) : Prop where
  sq : ((ioSqSize n.ioSqDepth).toNat : Int) ≤ n.ioSqMem.size.toInt
  prpList : ((ioPrpListSize n.ioSqDepth).toNat : Int) ≤ n.ioPrpListMem.size.toInt

/-- A submission on slot `io_sq_tail` stays inside what belongs to the slot, and
that inside the regions. -/
structure SlotConfined (n : NvmeData) (sub : Submission) : Prop where
  slot : n.ioSqTail.toNat < n.ioSqDepth.toNat
  sqStores : ∀ st ∈ sub.sqStores,
    st.Within (64 * n.ioSqTail.toNat) (64 * n.ioSqTail.toNat + 64)
  prpStores : ∀ st ∈ sub.prpStores,
    st.Within (4096 * n.ioSqTail.toNat) (4096 * n.ioSqTail.toNat + 4096)
  sqInside : ((64 * n.ioSqTail.toNat + 64 : Nat) : Int) ≤ n.ioSqMem.size.toInt
  prpInside : ((4096 * n.ioSqTail.toNat + 4096 : Nat) : Int) ≤
    n.ioPrpListMem.size.toInt

/-- The regions have room for every slot. -/
private theorem PairRegions.room {n : NvmeData} (h : PairRegions n)
    (hDepth : n.ioSqDepth.toNat ≤ 65536) :
    ((64 * n.ioSqDepth.toNat : Nat) : Int) ≤ n.ioSqMem.size.toInt ∧
      ((4096 * n.ioSqDepth.toNat : Nat) : Int) ≤ n.ioPrpListMem.size.toInt := by
  have hSq := h.sq
  have hPrp := h.prpList
  have hEntries : (64 * n.ioSqDepth.toUInt64).toNat = 64 * n.ioSqDepth.toNat := by
    rw [UInt64.toNat_mul, UInt32.toNat_toUInt64]
    simp only [UInt64.toNat_ofNat]
    omega
  have hPages : (ioPrpListSize n.ioSqDepth).toNat = 4096 * n.ioSqDepth.toNat := by
    have hPage : nvmePageSize.toNat = 4096 := by decide
    rw [ioPrpListSize, UInt64.toNat_mul, UInt32.toNat_toUInt64, hPage]
    omega
  have hRound : (64 * n.ioSqDepth.toUInt64).toNat ≤ (ioSqSize n.ioSqDepth).toNat :=
    le_roundUpPage (by rw [hEntries]; omega)
  constructor
  · omega
  · omega

/-- What an accepted request writes is confined exactly when it is at most a
page. -/
private theorem confined_iff {fioHasMrt : Bool} {td : ThreadData}
    {c : ControllerData} {n : NvmeData} {ioU : IoU} {sub : Submission}
    (hRegions : PairRegions n) (hDepth : n.ioSqDepth.toNat ≤ 65536)
    (hSlot : n.ioSqTail.toNat < n.ioSqDepth.toNat)
    (hQueue : nvmeQueue fioHasMrt td c n ioU = .queued sub) :
    SlotConfined n sub ↔ listBytes fioHasMrt td n ioU ≤ 4096 := by
  have hTiles := tiles_prpStores hQueue
  have hIff := hTiles.within_iff (4096 * n.ioSqTail.toNat + 4096)
    (Nat.le_refl _)
  have hRoom := hRegions.room hDepth
  constructor
  · intro h
    have := hIff.mp h.prpStores
    omega
  · intro h
    exact
      { slot := hSlot
        sqStores := (nvmeQueue_queued hQueue).1.sqConfined
        prpStores := hIff.mpr (by omega)
        sqInside := by omega
        prpInside := by omega }

/-- In every state of every run, an accepted request stays inside the entry and
the page of its slot if and only if, when it is a read or a write, the sum that
`setup_prps` divides into pages is from one page up to 513 pages. -/
theorem slotConfined_iff {fioHasMrt : Bool} {n : NvmeData} {as : List Act} {s : Sys}
    {td : ThreadData} {c : ControllerData} {ioU : IoU} {sub : Submission}
    (hFresh : FreshPair n) (hRegions : PairRegions n)
    (hRun : Run (step fioHasMrt) (fun _ _ => True) (start n) as s)
    (hTrim : ioU.ddir = .trim → (fioHasMrt && td.numRange != 1) = true →
      1 ≤ ioU.numberTrim.toNat ∧ ioU.numberTrim.toNat ≤ 256)
    (hQueue : nvmeQueue fioHasMrt td c s.nvme ioU = .queued sub) :
    SlotConfined s.nvme sub ↔
      (ioU.ddir = .read ∨ ioU.ddir = .write →
        4096 ≤ ((dataPhysAddr td s.nvme ioU).toNat % 4096 +
          ioU.xferBuflen.toNat + 4095) % 2 ^ 64 ∧
        ((dataPhysAddr td s.nvme ioU).toNat % 4096 +
          ioU.xferBuflen.toNat + 4095) % 2 ^ 64 < 514 * 4096) := by
  obtain ⟨known, base, got, h⟩ := inv_of_run hFresh hRun
  have hSame := geometry_of_run hRun
  have hRegions : PairRegions s.nvme := by
    have hDepth : s.nvme.ioSqDepth = n.ioSqDepth := congrArg Geometry.sqDepth hSame
    have hSq : s.nvme.ioSqMem = n.ioSqMem := congrArg Geometry.sqMem hSame
    have hPrp : s.nvme.ioPrpListMem = n.ioPrpListMem :=
      congrArg Geometry.prpListMem hSame
    constructor
    · rw [hDepth, hSq]
      exact hRegions.sq
    · rw [hDepth, hPrp]
      exact hRegions.prpList
  have hSlot : s.nvme.ioSqTail.toNat < s.nvme.ioSqDepth.toNat := by
    rw [h.sq.tail]
    exact Nat.mod_lt _ h.sq.depth_pos
  rw [confined_iff hRegions h.sq.depth_le hSlot hQueue]
  have hRw := prpListBytes_le_iff (dataPhysAddr td s.nvme ioU).toNat
    ioU.xferBuflen.toNat
  unfold prpPageCount at hRw
  cases hDir : ioU.ddir with
  | read =>
      simp only [listBytes, hDir, hRw, true_or, forall_true_left]
      omega
  | write =>
      simp only [listBytes, hDir, hRw, or_true, forall_true_left]
      omega
  | trim =>
      simp only [listBytes, hDir]
      split
      · have := hTrim hDir ‹_›
        simp
        omega
      · simp
  | other => simp [listBytes, hDir]

private theorem pairRegions_smallPair : PairRegions smallPair :=
  ⟨by decide, by decide⟩

/-- A read of 513 pages fills its list page to the last byte. -/
theorem slotConfined_iff_513_pages :
    ∃ sub, nvmeQueue true smallThread smallController (start smallPair).nvme
        (readInto 0x7000 (513 * 4096)) = .queued sub ∧
      SlotConfined (start smallPair).nvme sub := by
  obtain ⟨sub, hQueue⟩ : ∃ sub, nvmeQueue true smallThread smallController
      (start smallPair).nvme (readInto 0x7000 (513 * 4096)) = .queued sub := ⟨_, rfl⟩
  exact ⟨sub, hQueue, (slotConfined_iff freshPair_smallPair pairRegions_smallPair
    .nil (fun hDir => absurd hDir (by decide)) hQueue).mpr fun _ => by decide⟩

/-- A read of 514 pages on slot 0 writes into the page of slot 1. -/
theorem slotConfined_514_pages_false :
    Run (step true) (fun _ _ => True) (start smallPair) [] (start smallPair) ∧
    ∃ sub, nvmeQueue true smallThread smallController (start smallPair).nvme
        (readInto 0x7000 (514 * 4096)) = .queued sub ∧
      ¬ SlotConfined (start smallPair).nvme sub := by
  obtain ⟨sub, hQueue⟩ : ∃ sub, nvmeQueue true smallThread smallController
      (start smallPair).nvme (readInto 0x7000 (514 * 4096)) = .queued sub := ⟨_, rfl⟩
  refine ⟨.nil, sub, hQueue, fun h => ?_⟩
  have hBytes := (confined_iff pairRegions_smallPair (by decide) (by decide)
    hQueue).mp h
  exact absurd hBytes (by decide)

end NewPerf.Engine
