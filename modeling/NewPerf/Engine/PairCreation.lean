import NewPerf.Driver.Handles
import NewPerf.Engine.BlockDevice
import NewPerf.Engine.PageReuse
import NewPerf.Engine.QueueLifetime
import NewPerf.Tools.PairBuilt

/-!
# The queue pair a job starts with

The runs of `NewPerf.Engine.System` start from a queue pair that nothing has been
submitted to (`FreshPair`), whose page lists lie in pages of the device (`ListPages`) and
whose depths are `iodepth + 1` (`InitPair`).  Here it is read off `nvme_init` that it leaves
such a pair behind, for any controller and any other jobs, provided `alloc_dma` answers as
it does while no other mapping of the process comes in between (`allocAnswer_allocDma`).
-/

namespace NewPerf.Engine.PairCreation

open NewPerf.Driver
open NewPerf.Lib.Programs
open NewPerf.Tools
open NewPerf.Engine.Jobs (JobOptions queueDepth)
open NewPerf.Engine.QueueLifetime

/-! ## What `alloc_dma` answers -/

/-- Memory that `alloc_dma` returns is as large as was asked for and lies in pages of the
device. -/
def AllocAnswer : (e : Effect) → e.Result → Prop
  | .allocDma _ size, mem => mem.userVirtaddr ≠ 0 →
      (size.toNat : Int) ≤ mem.size.toInt ∧ mem.dmaAddr.toNat % 4096 = 0
  | _, _ => True

/-- A call without others in between returns such memory, as the kernel maps whole pages. -/
theorem allocAnswer_allocDma {fd : Int} {d : Genpci} {size : UInt64}
    {outcome : Handles.AllocOutcome} (hOk : outcome.Ok d size.toNat)
    (hPage : ∀ p, outcome = .done p → p.dmaAddr.toNat % 4096 = 0) :
    AllocAnswer (.allocDma fd size) (Handles.allocDma fd d size.toNat outcome).1 := by
  intro hReal
  by_cases hLen : size.toNat = 0
  · simp only [Handles.allocDma, if_pos hLen] at hReal
    exact absurd rfl hReal
  cases outcome with
  | mmapFailed =>
      simp only [Handles.allocDma, if_neg hLen] at hReal
      exact absurd rfl hReal
  | ioctlFailed p =>
      simp only [Handles.allocDma, if_neg hLen] at hReal
      exact absurd rfl hReal
  | done p =>
      have hAlign := pageAlign_of_mod (pageAlign_mod size.toNat)
      have hRange := hOk.inRange
      simp only [Handles.allocDma, if_neg hLen, Handles.getMemfinfo_mmapDma]
      refine ⟨?_, hPage p rfl⟩
      show _ ≤ (Int64.ofNat (pageAlign (pageAlign size.toNat))).toInt
      rw [hAlign, Int64.toInt_ofNat_of_lt (by omega)]
      exact Int.ofNat_le.mpr (le_pageAlign _)

theorem size_of_provided {size : UInt64} {mem : Mem} (h : Provided AllocAnswer size mem) :
    (size.toNat : Int) ≤ mem.size.toInt ∧ mem.dmaAddr.toNat % 4096 = 0 := by
  obtain ⟨fd, hAnswer⟩ := h.answer
  exact hAnswer fun hNull => h.real (.inl hNull)

/-! ## The new pair -/

theorem capMqesEntries_bounds (cap : UInt64) :
    1 ≤ (capMqesEntries cap).toNat ∧ (capMqesEntries cap).toNat ≤ 65536 := by
  have hField : (cap &&& 0xffff).toNat < 65536 := by
    rw [UInt64.toNat_and]
    exact Nat.lt_of_le_of_lt Nat.and_le_right (by decide)
  rw [capMqesEntries, UInt32.toNat_add, UInt64.toNat_toUInt32, UInt32.toNat_one]
  omega

theorem depthOrMax_pos {requested max : UInt32} (hMax : 0 < max.toNat) :
    0 < (depthOrMax requested max).toNat := by
  unfold depthOrMax
  split
  · exact hMax
  · rename_i hRequested
    exact Nat.pos_of_ne_zero fun hZero => hRequested (UInt32.toNat_inj.mp hZero)

section

variable {cap : UInt64} {n n' : NvmeData}

theorem freshPair_of_built (h : Built AllocAnswer cap n n') (hCmdId : n.ioCmdId = 0)
    (hCmdIoU : ∀ cid, n.cmdIoU cid = none) : FreshPair n' := by
  obtain ⟨hPos, hLe⟩ := capMqesEntries_bounds cap
  have hSq := UInt32.le_iff_toNat_le.mp h.sqFits
  have hCq := UInt32.le_iff_toNat_le.mp h.cqFits
  exact
    { sqHead := by rw [h.ready]; rfl
      sqTail := by rw [h.ready]; rfl
      cqHead := by rw [h.ready]; rfl
      cqPhase := by rw [h.ready]; rfl
      cmdId := by rw [h.ready]; exact hCmdId
      cmdIoU := fun cid => by rw [h.ready]; exact hCmdIoU cid
      sqDepth_pos := by rw [h.sqDepth]; exact depthOrMax_pos hPos
      sqDepth_le := Nat.le_trans hSq hLe
      cqDepth_pos := by rw [h.cqDepth]; exact depthOrMax_pos hPos
      cqDepth_le := Nat.le_trans hCq hLe }

theorem listPages_of_built (h : Built AllocAnswer cap n n') : ListPages n' := by
  have hSq := UInt32.le_iff_toNat_le.mp h.sqFits
  have hPhys : n'.ioPrpListPhysAddr = n'.ioPrpListMem.dmaAddr := by
    rw [h.ready]
    rfl
  exact
    { regions := ⟨(size_of_provided h.sq).1, (size_of_provided h.prpList).1⟩
      aligned := by rw [hPhys]; exact (size_of_provided h.prpList).2
      depth := Nat.le_trans hSq (capMqesEntries_bounds cap).2 }

/-- The depths `nvme_init` asks for are those of the new pair. -/
theorem depthOrMax_queueDepth (iodepth max : UInt32) :
    depthOrMax (queueDepth iodepth) max = queueDepth iodepth := by
  refine if_neg fun hZero => ?_
  unfold queueDepth at hZero
  split at hZero
  · exact absurd hZero (by decide)
  · rename_i hTwo
    exact hTwo (by rw [hZero]; decide)

theorem toNat_queueDepth {iodepth : UInt32} (hPos : 1 ≤ iodepth.toNat)
    (hLt : iodepth.toNat + 1 < 2 ^ 32) : (queueDepth iodepth).toNat = iodepth.toNat + 1 := by
  have hSucc : (iodepth + 1).toNat = iodepth.toNat + 1 := by
    rw [UInt32.toNat_add, UInt32.toNat_one, Nat.mod_eq_of_lt hLt]
  have hTwo : ¬ iodepth + 1 < 2 := by
    rw [UInt32.lt_iff_toNat_lt, hSucc]
    exact Nat.not_lt.mpr (Nat.succ_le_succ hPos)
  rw [queueDepth, if_neg hTwo, hSucc]

end

/-! ## `nvme_init` -/

/-- What a job can start its requests from. -/
structure StartsWith (iodepth : UInt32) (n : NvmeData) : Prop where
  fresh : FreshPair n
  lists : ListPages n
  depths : 1 ≤ iodepth.toNat → iodepth.toNat + 1 < 2 ^ 32 → InitPair iodepth.toNat n

theorem startsWith_of_built {cap : UInt64} {iodepth : UInt32} {ioQid : UInt16}
    {n' : NvmeData}
    (h : Built AllocAnswer cap
      { ioQid, ioSqDepth := queueDepth iodepth, ioCqDepth := queueDepth iodepth } n') :
    StartsWith iodepth n' := by
  have hFresh := freshPair_of_built h rfl fun _ => rfl
  refine ⟨hFresh, listPages_of_built h, fun hPos hLt =>
    { hFresh with iodepth_pos := hPos, sqDepth := ?_, cqDepth := ?_ }⟩
  · rw [h.sqDepth, depthOrMax_queueDepth, toNat_queueDepth hPos hLt]
  · rw [h.cqDepth, depthOrMax_queueDepth, toNat_queueDepth hPos hLt]

/-- When `nvme_init` returns with data for its job, the job can start from it. -/
theorem startsWith_of_nvmeInit {ι : Type} [DecidableEq ι] (o : JobOptions) {h : Host ι}
    (c : ControllerData) {j : ι} (alloc : Bool) (hFree : h.ioOpsData j = none) :
    (nvmeInit o h c j alloc).Ensures AllocAnswer fun h' =>
      ∀ n, h'.ioOpsData j = some n → StartsWith o.iodepth n := by
  have hNothing : ∀ n, h.ioOpsData j = some n → StartsWith o.iodepth n := by
    rw [hFree]
    exact nofun
  unfold nvmeInit
  split
  · exact hNothing
  split
  · exact hNothing
  split
  · exact hNothing
  have hCap : (nvmeRegRead64 c.bar0Virt nvmeRegCap).Ensures AllocAnswer fun read =>
      ∀ v, read = some v → True := (ensures_any _).mono fun _ _ _ _ => trivial
  refine (builds_createIoQueuePair _ hCap).bind fun ⟨created, c, n'⟩ hBuilds => ?_
  cases created with
  | false =>
      intro n hData
      simp [Host.setData] at hData
  | true =>
      intro n hData
      simp only [Host.setData, Function.update_self, Option.some.injEq] at hData
      subst hData
      obtain ⟨cap, -, hBuilt⟩ := hBuilds rfl
      exact startsWith_of_built hBuilt

end NewPerf.Engine.PairCreation
