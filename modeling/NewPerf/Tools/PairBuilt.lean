import NewPerf.Tools.IoQueue

/-!
# The queue pair that `create_io_queue_pair` builds

When it returns true, `create_io_queue_pair` has taken three regions and has stored into
`struct nvme_data` what follows from them, from the depths and from CAP (`Built`), and
nothing else.  What the effects may return (`may`) is left open: callers who know more
of `alloc_dma` or of CAP than that they answer read more off the same walk.
-/

namespace NewPerf.Tools

open NewPerf.Lib.Programs

/-- `nvme_alloc_dma_mem` has taken `mem` as a region of `size` bytes. -/
structure Provided (may : (e : Effect) → e.Result → Prop) (size : UInt64) (mem : Mem) :
    Prop where
  real : ¬ (mem.userVirtaddr = 0 ∨ mem.size ≤ 0)
  answer : ∃ fd, may (.allocDma fd size) mem

/-- `n'` is the queue pair built from what was asked for in `n`. -/
structure Built (may : (e : Effect) → e.Result → Prop) (cap : UInt64) (n n' : NvmeData) :
    Prop where
  ready : n' = pairReady
    { n with
      ioCqMem := n'.ioCqMem
      ioSqMem := n'.ioSqMem
      ioPrpListMem := n'.ioPrpListMem } cap n'.ioSqDepth n'.ioCqDepth
  sqDepth : n'.ioSqDepth = depthOrMax n.ioSqDepth (capMqesEntries cap)
  cqDepth : n'.ioCqDepth = depthOrMax n.ioCqDepth (capMqesEntries cap)
  sqFits : n'.ioSqDepth ≤ capMqesEntries cap
  cqFits : n'.ioCqDepth ≤ capMqesEntries cap
  cq : Provided may (ioCqSize n'.ioCqDepth) n'.ioCqMem
  sq : Provided may (ioSqSize n'.ioSqDepth) n'.ioSqMem
  prpList : Provided may (ioPrpListSize n'.ioSqDepth) n'.ioPrpListMem

theorem Built.ioQid {may : (e : Effect) → e.Result → Prop} {cap : UInt64} {n n' : NvmeData}
    (h : Built may cap n n') : n'.ioQid = n.ioQid := by
  rw [h.ready]
  rfl

section Walk

variable {may : (e : Effect) → e.Result → Prop}

theorem ensures_nvmeAllocDmaMem (c : ControllerData) (size : UInt64) (mem : Mem) :
    (nvmeAllocDmaMem c size mem).Ensures may fun r => r.1 = true → Provided may size r.2.2 := by
  unfold nvmeAllocDmaMem
  refine (ensures_any _).bind fun ⟨opened, c⟩ _ => ?_
  cases opened with
  | false => exact nofun
  | true =>
      intro mem hAnswer
      show Prog.Ensures _ _ (if _ then _ else _)
      split
      · exact (ensures_any _).bind fun _ _ => nofun
      · rename_i hReal
        exact fun _ => ⟨hReal, c.dmaFd, hAnswer⟩

private theorem builds_createQueues (c : ControllerData) (n : NvmeData) (cap : UInt64)
    (ioSqDepth ioCqDepth : UInt32) :
    (createQueues c n cap ioSqDepth ioCqDepth).Ensures may fun r =>
      r.1 = true → r.2.2 = pairReady n cap ioSqDepth ioCqDepth := by
  unfold createQueues
  refine (ensures_any _).bind fun ⟨cqOk, c⟩ _ => ?_
  cases cqOk with
  | false => exact nofun
  | true =>
      refine (ensures_any _).bind fun ⟨sqOk, c⟩ _ => ?_
      cases sqOk with
      | false => exact nofun
      | true => exact fun _ => rfl

/-- The regions taken are of the sizes that belong to the depths. -/
private theorem builds_allocQueues (c : ControllerData) (n : NvmeData) (cap : UInt64)
    (ioSqDepth ioCqDepth : UInt32) :
    (allocQueues c n cap ioSqDepth ioCqDepth).Ensures may fun r => r.1 = true →
      ∃ cqMem sqMem prpMem, Provided may (ioCqSize ioCqDepth) cqMem ∧
        Provided may (ioSqSize ioSqDepth) sqMem ∧ Provided may (ioPrpListSize ioSqDepth) prpMem ∧
        r.2.2 = pairReady
          { n with ioCqMem := cqMem, ioSqMem := sqMem, ioPrpListMem := prpMem }
          cap ioSqDepth ioCqDepth := by
  unfold allocQueues
  refine (ensures_nvmeAllocDmaMem c _ _).bind fun ⟨cqOk, c, cqMem⟩ hCq => ?_
  cases cqOk with
  | false => exact nofun
  | true =>
      refine (ensures_nvmeAllocDmaMem c _ _).bind fun ⟨sqOk, c, sqMem⟩ hSq => ?_
      cases sqOk with
      | false => exact (ensures_any _).bind fun _ _ => nofun
      | true =>
          refine (ensures_nvmeAllocDmaMem c _ _).bind fun ⟨prpOk, c, prpMem⟩ hPrp => ?_
          cases prpOk with
          | false => exact (ensures_any _).bind fun _ _ => (ensures_any _).bind fun _ _ => nofun
          | true =>
              refine (ensures_any _).bind fun _ _ => (ensures_any _).bind fun _ _ =>
                (ensures_any _).bind fun _ _ => ?_
              exact (builds_createQueues c _ cap _ _).mono fun r hr hTrue =>
                ⟨cqMem, sqMem, prpMem, hCq rfl, hSq rfl, hPrp rfl, hr hTrue⟩

/-- Of CAP, `okCap` is known. -/
theorem builds_createIoQueuePair {okCap : UInt64 → Prop} {c : ControllerData} (n : NvmeData)
    (hCap : (nvmeRegRead64 c.bar0Virt nvmeRegCap).Ensures may fun read =>
      ∀ v, read = some v → okCap v) :
    (createIoQueuePair c n).Ensures may fun r =>
      r.1 = true → ∃ cap, okCap cap ∧ Built may cap n r.2.2 := by
  have hFail : ∀ message : String,
      (printErrno message >>= fun _ => (pure (false, c, n) :
        Admin (Bool × ControllerData × NvmeData))).Ensures may fun r =>
          r.1 = true → ∃ cap, okCap cap ∧ Built may cap n r.2.2 :=
    fun message => (ensures_any _).bind fun _ _ => nofun
  unfold createIoQueuePair
  split
  · exact hFail _
  split
  · exact hFail _
  split
  · exact hFail _
  split
  · exact hFail _
  refine hCap.bind fun read hRead => ?_
  cases read with
  | none => exact nofun
  | some cap =>
      dsimp only
      split
      · exact hFail _
      split
      · exact hFail _
      rename_i hSq
      split
      · exact hFail _
      rename_i hCq
      refine (builds_allocQueues c n cap _ _).mono fun r hr hTrue => ⟨cap, hRead cap rfl, ?_⟩
      obtain ⟨cqMem, sqMem, prpMem, hCqMem, hSqMem, hPrpMem, hReady⟩ := hr hTrue
      rw [hReady]
      exact
        { ready := rfl
          sqDepth := rfl
          cqDepth := rfl
          sqFits := UInt32.not_lt.mp hSq
          cqFits := UInt32.not_lt.mp hCq
          cq := hCqMem
          sq := hSqMem
          prpList := hPrpMem }

end Walk

end NewPerf.Tools
