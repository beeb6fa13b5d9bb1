import NewPerf.Tools.Nvme
import Mathlib.Logic.Function.Basic

/-!
# Reaping completions: `poll_cq`

The loop of `poll_cq` keeps private copies of the head, the phase tag and the
count, and writes them back when it stops.  The device may post completions
while the loop runs, so the loop body is a definition of its own (`pollIter`),
taken on the completion queue entry that is read at that moment.
-/

namespace NewPerf.Tools

/-- The local variables of the loop of `poll_cq`. -/
structure PollLocals where
  maxCount : UInt16
  count : UInt16
  head : UInt32
  phaseTag : UInt8
  deriving DecidableEq, Repr

/-- `poll_cq` up to its loop; `none` is the early return for `max <= 0`. -/
def pollBegin (n : NvmeData) (max : Int) : Option PollLocals :=
  if max ≤ 0 then none
  else some
    { maxCount := if max > 65535 then 65535 else UInt16.ofNat max.toNat
      count := 0
      head := n.icCqHead
      phaseTag := n.ioCqPahse }

/-- Outcome of one iteration: leave the loop, `exit(EXIT_FAILURE)`, or go on. -/
inductive PollIter where
  | stop
  | exit
  | next (n : NvmeData) (l : PollLocals)

/-- Status code type and status code of a completion. -/
def cqeSct (psf : UInt16) : UInt16 := (psf >>> nvmeCqeSctShift) &&& nvmeCqeSctMask

@[inherit_doc cqeSct]
def cqeSc (psf : UInt16) : UInt16 := (psf >>> nvmeCqeScShift) &&& nvmeCqeScMask

/-- One iteration of the loop of `poll_cq`, on the entry `cqe` at `head`. -/
def pollIter (n : NvmeData) (cqe : NvmeCqEntry) (l : PollLocals) : PollIter :=
  if l.count = l.maxCount then .stop
  else if (cqe.psf &&& nvmeCqePhaseMask) ≠ l.phaseTag.toUInt16 then .stop
  else if cqeSct cqe.psf ≠ 0 ∨ cqeSc cqe.psf ≠ 0 then .exit
  else
    match n.cmdIoU cqe.cid with
    | none => .exit
    | some ioU =>
        .next
          { n with
            events := Function.update n.events (n.nrEvents + l.count.toNat) (some ioU)
            cmdIoU := Function.update n.cmdIoU cqe.cid none
            ioSqHead := cqe.sqhd.toUInt32 }
          { l with
            head := ringAdvance l.head n.ioCqDepth
            count := l.count + 1
            phaseTag := if l.head + 1 = n.ioCqDepth then l.phaseTag ^^^ 1
              else l.phaseTag }

/-- `poll_cq` after its loop: the write-back, and the value written to the
register `io_cq_head_db` if there is one. -/
def pollEnd (n : NvmeData) (l : PollLocals) : NvmeData × Option UInt32 :=
  if l.count ≠ 0 then
    ({ n with
      icCqHead := l.head
      ioCqPahse := l.phaseTag
      nrEvents := n.nrEvents + l.count.toNat }, some l.head)
  else (n, none)

/-- The counter does not wrap while it is below its bound. -/
theorem PollLocals.count_succ {l : PollLocals} (hLe : l.count.toNat ≤ l.maxCount.toNat)
    (hMore : l.count ≠ l.maxCount) :
    l.count.toNat < l.maxCount.toNat ∧ (l.count + 1).toNat = l.count.toNat + 1 := by
  have hLt : l.count.toNat < l.maxCount.toNat :=
    Nat.lt_of_le_of_ne hLe fun hEq => hMore (UInt16.toNat_inj.mp hEq)
  have hMax : l.maxCount.toNat < 2 ^ 16 := l.maxCount.toNat_lt
  refine ⟨hLt, ?_⟩
  rw [UInt16.toNat_add, UInt16.toNat_one, Nat.mod_eq_of_lt (by omega)]

/-- Phase bit of a completion queue entry. -/
def cqePhase (cqe : NvmeCqEntry) : Nat := (cqe.psf &&& nvmeCqePhaseMask).toNat

/-- The phase bit of an entry whose status word was put together from a status and
a phase. -/
theorem cqePhase_of_psf {cqe : NvmeCqEntry} {status phase : Nat}
    (hPsf : cqe.psf = UInt16.ofNat (2 * status + phase)) (hPhase : phase < 2) :
    cqePhase cqe = phase := by
  have hMask : nvmeCqePhaseMask.toNat = 2 ^ 1 - 1 := by decide
  rw [cqePhase, hPsf, UInt16.toNat_and, hMask, Nat.and_two_pow_sub_one_eq_mod,
    UInt16.toNat_ofNat']
  omega

/-! ## What an iteration does -/

section

variable {n : NvmeData} {cqe : NvmeCqEntry} {l : PollLocals}

theorem pollIter_other_phase (hPhase : cqe.psf &&& nvmeCqePhaseMask ≠ l.phaseTag.toUInt16) :
    pollIter n cqe l = .stop := by
  unfold pollIter
  rw [if_pos hPhase, ite_self]

theorem pollIter_failed (hMore : l.count ≠ l.maxCount)
    (hPhase : cqe.psf &&& nvmeCqePhaseMask = l.phaseTag.toUInt16)
    (hStatus : ¬ (cqeSct cqe.psf = 0 ∧ cqeSc cqe.psf = 0)) : pollIter n cqe l = .exit := by
  unfold pollIter
  rw [if_neg hMore, if_neg (not_not.mpr hPhase), if_pos (not_and_or.mp hStatus)]

theorem pollIter_unknown (hMore : l.count ≠ l.maxCount)
    (hPhase : cqe.psf &&& nvmeCqePhaseMask = l.phaseTag.toUInt16)
    (hStatus : cqeSct cqe.psf = 0 ∧ cqeSc cqe.psf = 0) (hIoU : n.cmdIoU cqe.cid = none) :
    pollIter n cqe l = .exit := by
  unfold pollIter
  rw [if_neg hMore, if_neg (not_not.mpr hPhase),
    if_neg (not_or.mpr ⟨not_not.mpr hStatus.1, not_not.mpr hStatus.2⟩), hIoU]

theorem pollIter_taken {ioU : IoU} (hMore : l.count ≠ l.maxCount)
    (hPhase : cqe.psf &&& nvmeCqePhaseMask = l.phaseTag.toUInt16)
    (hStatus : cqeSct cqe.psf = 0 ∧ cqeSc cqe.psf = 0) (hIoU : n.cmdIoU cqe.cid = some ioU) :
    pollIter n cqe l =
      .next
        { n with
          events := Function.update n.events (n.nrEvents + l.count.toNat) (some ioU)
          cmdIoU := Function.update n.cmdIoU cqe.cid none
          ioSqHead := cqe.sqhd.toUInt32 }
        { l with
          head := ringAdvance l.head n.ioCqDepth
          count := l.count + 1
          phaseTag := if l.head + 1 = n.ioCqDepth then l.phaseTag ^^^ 1 else l.phaseTag } := by
  unfold pollIter
  rw [if_neg hMore, if_neg (not_not.mpr hPhase),
    if_neg (not_or.mpr ⟨not_not.mpr hStatus.1, not_not.mpr hStatus.2⟩), hIoU]

end

/-- What an iteration that consumes an entry has established. -/
theorem pollIter_next {n n' : NvmeData} {cqe : NvmeCqEntry} {l l' : PollLocals}
    (h : pollIter n cqe l = .next n' l') :
    l.count ≠ l.maxCount ∧ cqePhase cqe = l.phaseTag.toNat ∧
      ∃ ioU, n.cmdIoU cqe.cid = some ioU ∧
        n' = { n with
          events := Function.update n.events (n.nrEvents + l.count.toNat) (some ioU)
          cmdIoU := Function.update n.cmdIoU cqe.cid none
          ioSqHead := cqe.sqhd.toUInt32 } ∧
        l' = { l with
          head := ringAdvance l.head n.ioCqDepth
          count := l.count + 1
          phaseTag := if l.head + 1 = n.ioCqDepth then l.phaseTag ^^^ 1
            else l.phaseTag } := by
  unfold pollIter at h
  split at h
  · cases h
  rename_i hCount
  split at h
  · cases h
  rename_i hPhase
  rw [not_not] at hPhase
  split at h
  · cases h
  split at h
  · cases h
  · rename_i ioU hIoU
    cases h
    refine ⟨hCount, ?_, ioU, hIoU, rfl, rfl⟩
    rw [cqePhase, hPhase, UInt8.toNat_toUInt16]

/-- The two ways to `exit(EXIT_FAILURE)`: an entry of the expected phase that
reports an error, or one whose command id is unknown. -/
theorem pollIter_exit {n : NvmeData} {cqe : NvmeCqEntry} {l : PollLocals}
    (h : pollIter n cqe l = .exit) :
    cqePhase cqe = l.phaseTag.toNat ∧
      ((cqeSct cqe.psf ≠ 0 ∨ cqeSc cqe.psf ≠ 0) ∨ n.cmdIoU cqe.cid = none) := by
  unfold pollIter at h
  split at h
  · cases h
  split at h
  · cases h
  rename_i hPhase
  rw [not_not] at hPhase
  have hTag : cqePhase cqe = l.phaseTag.toNat := by
    rw [cqePhase, hPhase, UInt8.toNat_toUInt16]
  split at h
  · exact ⟨hTag, Or.inl ‹_›⟩
  · split at h
    · exact ⟨hTag, Or.inr ‹_›⟩
    · cases h

/-- The loop stops at its bound or at an entry of the other phase. -/
theorem pollIter_stop {n : NvmeData} {cqe : NvmeCqEntry} {l : PollLocals}
    (h : pollIter n cqe l = .stop) :
    l.count = l.maxCount ∨ cqePhase cqe ≠ l.phaseTag.toNat := by
  unfold pollIter at h
  split at h
  · exact Or.inl ‹_›
  split at h
  · rename_i hPhase
    refine Or.inr fun hTag => hPhase (UInt16.toNat_inj.mp ?_)
    rw [UInt8.toNat_toUInt16]
    exact hTag
  split at h
  · cases h
  split at h
  · cases h
  · cases h

end NewPerf.Tools
