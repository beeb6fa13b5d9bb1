import NewPerf.Engine.System
import Mathlib.Data.List.Nodup

/-!
# The invariant of the queue pair

All results about runs of the engine rest on one invariant.  It relates the
wrapped indices in `struct nvme_data` and in the doorbells to four positions
that only grow: the number of submissions, of fetches, of posted completions and
of reaped completions.  `known` is the submission head the host has learnt from
the completions it has reaped, `base` the number of completions the head
doorbell acknowledges, and `got` the number of completions already handed to
`fio`; they lag behind the first four.

The parts are separate structures, so that a step has to be examined only
against the parts it touches.
-/

namespace NewPerf.Engine

open NewPerf.Lib.LeMemory
open NewPerf.Lib.Ring
open NewPerf.Tools

/-- The command id of submission number `p`: `io_cmd_id` starts at zero and is
incremented before use. -/
def cidAt (p : Nat) : UInt16 := UInt16.ofNat (p + 1)

/-- Numbers of the submissions whose completions are the first `k` posted. -/
def takenPos (s : Sys) (k : Nat) : List Nat := (s.done.take k).map Done.pos

/-- Submission number `p` has been made and its completion not been reaped. -/
def Outstanding (s : Sys) (p : Nat) : Prop :=
  p < s.log.length ∧ p ∉ takenPos s s.reaped

/-- The submission ring: `known ≤ fetched ≤ submitted < known + depth`. -/
structure SqInv (s : Sys) (known : Nat) : Prop where
  depth_pos : 0 < s.nvme.ioSqDepth.toNat
  depth_le : s.nvme.ioSqDepth.toNat ≤ 65536
  tail : s.nvme.ioSqTail.toNat = s.log.length % s.nvme.ioSqDepth.toNat
  tailDb : s.sqTailDb = s.nvme.ioSqTail
  head : s.nvme.ioSqHead.toNat = known % s.nvme.ioSqDepth.toNat
  cmdId : s.nvme.ioCmdId = UInt16.ofNat s.log.length
  known_le : known ≤ s.fetched
  fetched_le : s.fetched ≤ s.log.length
  room : s.log.length < known + s.nvme.ioSqDepth.toNat
  entries : ∀ p e, s.log[p]? = some e →
    e.cid = cidAt p ∧ e.slot.toNat = p % s.nvme.ioSqDepth.toNat
  sqe : ∀ p, s.fetched ≤ p → p < s.log.length →
    sqEntryCid s.sq (p % s.nvme.ioSqDepth.toNat) = cidAt p

/-- The device's commands: what has been fetched is in flight or done, and
completions report ever larger submission heads. -/
structure DevInv (s : Sys) (known : Nat) : Prop where
  partition : (s.inflight.map Flight.pos ++ s.done.map Done.pos).Perm
    (List.range s.fetched)
  flightCid : ∀ f ∈ s.inflight, f.cid = cidAt f.pos
  doneCid : ∀ d ∈ s.done, d.cqe.cid = cidAt d.pos
  doneHead : ∀ d ∈ s.done, d.head ≤ s.fetched ∧
    d.cqe.sqhd.toNat = d.head % s.nvme.ioSqDepth.toNat
  headLow : ∀ i (d : Done), s.done[i]? = some d → i < d.head
  headMono : List.Pairwise (fun d e : Done => d.head ≤ e.head) s.done
  known_ge : s.reaped ≤ known
  known_le : ∀ i (d : Done), s.reaped ≤ i → s.done[i]? = some d → known ≤ d.head

/-- The completion ring. -/
structure CqInv (s : Sys) (base : Nat) : Prop where
  depth_pos : 0 < s.nvme.ioCqDepth.toNat
  depth_le : s.nvme.ioCqDepth.toNat ≤ 65536
  ring : PhaseRing s.nvme.ioCqDepth.toNat s.cq cqePhase (s.done.map Done.cqe)
  base_le : base ≤ s.reaped
  reaped_le : s.reaped ≤ s.done.length
  lap : s.done.length < base + s.nvme.ioCqDepth.toNat
  headDb : s.cqHeadDb.toNat = base % s.nvme.ioCqDepth.toNat

/-- The command id table and the events handed out.  Command ids are distinct
even among the requests `fio` has not got back yet. -/
structure TableInv (s : Sys) (got : Nat) : Prop where
  table : ∀ cid ioU, s.nvme.cmdIoU cid = some ioU ↔
    ∃ p e, Outstanding s p ∧ s.log[p]? = some e ∧ e.cid = cid ∧ e.ioU = ioU
  distinct : ∀ p q, p < s.log.length → q < s.log.length →
    p ∉ takenPos s got → q ∉ takenPos s got → cidAt p = cidAt q → p = q
  got_le : got ≤ s.reaped
  delivered : s.delivered = (s.done.take got).map fun d =>
    s.log[d.pos]?.map Submitted.ioU
  events : ∀ i d, got + i < s.reaped → s.done[got + i]? = some d →
    s.nvme.events i = s.log[d.pos]?.map Submitted.ioU

/-- The indices the host would start polling with. -/
structure PollAt (s : Sys) (r : Nat) (head : UInt32) (phase : UInt8) : Prop where
  head : head.toNat = r % s.nvme.ioCqDepth.toNat
  phase : phase.toNat = phaseOf s.nvme.ioCqDepth.toNat r

/-- What is known at each point of the host's code. -/
inductive HostInv (s : Sys) (base got : Nat) : HostPc → Prop where
  | idle (hBase : base = s.reaped) (hGot : got = s.reaped)
      (hAt : PollAt s s.reaped s.nvme.icCqHead s.nvme.ioCqPahse) :
      HostInv s base got .idle
  | loop {g : GetEvents} (hBase : base = s.reaped)
      (hGot : got + g.completions = s.reaped)
      (hEvents : s.nvme.nrEvents = g.completions)
      (hAt : PollAt s s.reaped s.nvme.icCqHead s.nvme.ioCqPahse) :
      HostInv s base got (.loop g)
  | poll {g : GetEvents} {l : PollLocals}
      (hBase : base + l.count.toNat = s.reaped)
      (hCount : l.count.toNat ≤ l.maxCount.toNat)
      (hGot : got + g.completions = base)
      (hEvents : s.nvme.nrEvents = g.completions)
      (hOld : PollAt s base s.nvme.icCqHead s.nvme.ioCqPahse)
      (hAt : PollAt s s.reaped l.head l.phaseTag) :
      HostInv s base got (.poll g l)
  | check {g : GetEvents} (hBase : base = s.reaped)
      (hGot : got + g.completions = s.reaped)
      (hEvents : s.nvme.nrEvents = g.completions)
      (hAt : PollAt s s.reaped s.nvme.icCqHead s.nvme.ioCqPahse) :
      HostInv s base got (.check g)
  | exited : HostInv s base got .exited

/-- What is known about the host depends only on its own structure and on the
number of completions reaped. -/
theorem HostInv.congr {s s' : Sys} {base got : Nat} {pc : HostPc}
    (hNvme : s'.nvme = s.nvme) (hReaped : s'.reaped = s.reaped)
    (h : HostInv s base got pc) : HostInv s' base got pc := by
  have hAll : ∀ r head phase, PollAt s r head phase → PollAt s' r head phase :=
    fun r head phase hAt => ⟨by rw [hNvme]; exact hAt.head, by rw [hNvme]; exact hAt.phase⟩
  cases h with
  | idle hBase hGot hAt =>
      rw [← hReaped] at hBase hGot hAt
      exact .idle hBase hGot (by rw [hNvme]; exact hAll _ _ _ hAt)
  | loop hBase hGot hEvents hAt =>
      rw [← hReaped] at hBase hGot hAt
      exact .loop hBase hGot (by rw [hNvme, hEvents])
        (by rw [hNvme]; exact hAll _ _ _ hAt)
  | poll hBase hCount hGot hEvents hOld hAt =>
      rw [← hReaped] at hBase hAt
      exact .poll hBase hCount hGot (by rw [hNvme, hEvents])
        (by rw [hNvme]; exact hAll _ _ _ hOld) (hAll _ _ _ hAt)
  | check hBase hGot hEvents hAt =>
      rw [← hReaped] at hBase hGot hAt
      exact .check hBase hGot (by rw [hNvme, hEvents])
        (by rw [hNvme]; exact hAll _ _ _ hAt)
  | exited => exact .exited

/-- The whole invariant. -/
structure Inv (s : Sys) (known base got : Nat) : Prop where
  sq : SqInv s known
  dev : DevInv s known
  cq : CqInv s base
  table : TableInv s got
  host : HostInv s base got s.pc

/-! ## Consequences used by several steps -/

theorem cidAt_eq_ofNat_add (p : Nat) : UInt16.ofNat p + 1 = cidAt p := by
  rw [cidAt, UInt16.ofNat_add]
  rfl

theorem DevInv.pos_lt {s : Sys} {known : Nat} (h : DevInv s known) {d : Done}
    (hd : d ∈ s.done) : d.pos < s.fetched := by
  have hMem : d.pos ∈ s.inflight.map Flight.pos ++ s.done.map Done.pos := by
    simp only [List.mem_append, List.mem_map]
    exact Or.inr ⟨d, hd, rfl⟩
  exact List.mem_range.mp (h.partition.mem_iff.mp hMem)

theorem DevInv.nodup {s : Sys} {known : Nat} (h : DevInv s known) :
    (s.inflight.map Flight.pos ++ s.done.map Done.pos).Nodup :=
  h.partition.nodup_iff.mpr List.nodup_range

theorem DevInv.done_nodup {s : Sys} {known : Nat} (h : DevInv s known) :
    (s.done.map Done.pos).Nodup :=
  h.nodup.of_append_right

/-- The next completion to be reaped belongs to an outstanding submission. -/
theorem Inv.next_outstanding {s : Sys} {known base got : Nat}
    (h : Inv s known base got) {d : Done} (hd : s.done[s.reaped]? = some d) :
    Outstanding s d.pos := by
  have hMem : d ∈ s.done := List.mem_of_getElem? hd
  refine ⟨Nat.lt_of_lt_of_le (h.dev.pos_lt hMem) h.sq.fetched_le, fun hTaken => ?_⟩
  -- The positions before index `reaped` and from it on are disjoint.
  have hSplit : (takenPos s s.reaped ++ (s.done.drop s.reaped).map Done.pos).Nodup := by
    rw [takenPos, ← List.map_append, List.take_append_drop]
    exact h.dev.done_nodup
  have hDrop : d ∈ s.done.drop s.reaped := by
    apply List.mem_of_getElem?
    rw [List.getElem?_drop, Nat.add_zero]
    exact hd
  exact List.disjoint_of_nodup_append hSplit hTaken (List.mem_map_of_mem hDrop)

end NewPerf.Engine
