import NewPerf.Engine.ExactlyOnce

/-!
# The submission ring is never overrun, and back-pressure is exact

The host knows the device's submission head only through the completions it has
reaped, so the occupancy it computes is an upper bound for what the device has
not fetched.  Here it is related to the number of outstanding commands, which is
what `fio` bounds.  Nothing is assumed about how commands complete.

An entry can be overrun in two ways: by the stores `nvme_queue` makes into the
submission queue, which is settled here (`Inv.sqStores_avoid`), and by a PRP list
that goes on behind its own region, which is the subject of `ListMemory`.
-/

namespace NewPerf.Engine

open NewPerf.Lib.LeMemory
open NewPerf.Lib.Ring
open NewPerf.Lib.Runs
open NewPerf.Tools

/-- Occupancy of the submission ring as the engine can compute it. -/
def sqOccupancy (n : NvmeData) : Nat :=
  (n.ioSqTail.toNat + n.ioSqDepth.toNat - n.ioSqHead.toNat) % n.ioSqDepth.toNat

/-- What holds about `nvme_queue` in one state. -/
structure BackPressure (fioHasMrt : Bool) (s : Sys) : Prop where
  /-- Occupancy is at most the number of outstanding commands. -/
  occupancy : sqOccupancy s.nvme ≤ (outstanding s).length
  /-- The ring looks full only with all but one slot outstanding. -/
  full : nextSqTail s.nvme = s.nvme.ioSqHead →
    s.nvme.ioSqDepth.toNat - 1 ≤ (outstanding s).length
  /-- A request turned down can wait for a completion. -/
  busy : ∀ td c ioU, nvmeQueue fioHasMrt td c s.nvme ioU = .busy →
    0 < (outstanding s).length

variable {s : Sys} {known base got : Nat}

/-- Every submission is reaped or outstanding, once. -/
theorem Inv.length_outstanding (h : Inv s known base got) :
    (outstanding s).length = s.log.length - s.reaped := by
  have hLength := h.reaped_perm_outstanding.length_eq
  have hReaped := h.cq.reaped_le
  rw [List.length_append, takenPos, List.length_map, List.length_take,
    List.length_range] at hLength
  omega

/-- The slot at the tail is not one the device has yet to fetch from. -/
theorem Inv.unfetched_slot_ne {p : Nat} (h : Inv s known base got)
    (hlo : s.fetched ≤ p) (hhi : p < s.log.length) :
    p % s.nvme.ioSqDepth.toNat ≠ s.nvme.ioSqTail.toNat := by
  have hKnown := h.sq.known_le
  have hRoom := h.sq.room
  rw [h.sq.tail]
  intro hEq
  have := (mod_eq_iff_of_lt (by omega) (by omega)).mp hEq.symm
  omega

/-- A submission leaves alone every entry that the device has been told about and has not
fetched, as far as its stores into the submission queue go. -/
theorem Inv.sqStores_avoid {fioHasMrt : Bool} {td : ThreadData} {c : ControllerData}
    {ioU : IoU} {sub : Submission} {p : Nat} {e : Submitted} (h : Inv s known base got)
    (hQueue : nvmeQueue fioHasMrt td c s.nvme ioU = .queued sub)
    (hlo : s.fetched ≤ p) (he : s.log[p]? = some e) :
    ∀ st ∈ sub.sqStores, st.Avoids (nvmeIoSqEntrySize * e.slot.toNat)
      (nvmeIoSqEntrySize * e.slot.toNat + nvmeIoSqEntrySize) := by
  intro st hst
  have hNe := h.unfetched_slot_ne hlo (List.getElem?_eq_some_iff.mp he).1
  rw [← (h.sq.entries p e he).2] at hNe
  have hWithin := (nvmeQueue_queued hQueue).1.sqConfined st hst
  unfold Store.Within sqEntryOff nvmeIoSqEntrySize at hWithin
  unfold Store.Avoids nvmeIoSqEntrySize
  omega

private theorem Inv.full_length (h : Inv s known base got)
    (hFull : nextSqTail s.nvme = s.nvme.ioSqHead) :
    s.nvme.ioSqDepth.toNat - 1 ≤ (outstanding s).length := by
  have hTailLt : s.nvme.ioSqTail.toNat < s.nvme.ioSqDepth.toNat := by
    rw [h.sq.tail]
    exact Nat.mod_lt _ h.sq.depth_pos
  have hSlots : (s.log.length + 1) % s.nvme.ioSqDepth.toNat =
      known % s.nvme.ioSqDepth.toNat := by
    rw [← h.sq.head, ← hFull, nextSqTail, toNat_ringAdvance _ _ hTailLt, h.sq.tail,
      Nat.mod_add_mod]
  have hKnown := h.sq.known_le
  have hFetched := h.sq.fetched_le
  have hRoom := h.sq.room
  have hLap := (mod_eq_iff_of_le (by omega) (by omega)).mp hSlots
  have hReaped := h.dev.known_ge
  rw [h.length_outstanding]
  omega

theorem Inv.backPressure (h : Inv s known base got)
    (hDepth : 2 ≤ s.nvme.ioSqDepth.toNat) (fioHasMrt : Bool) :
    BackPressure fioHasMrt s := by
  refine
    { occupancy := ?_
      full := h.full_length
      busy := fun td c ioU hBusy => ?_ }
  · have hKnown := h.sq.known_le
    have hFetched := h.sq.fetched_le
    have hReaped := h.dev.known_ge
    rw [sqOccupancy, h.sq.tail, h.sq.head, occupancy_eq (by omega) h.sq.room,
      h.length_outstanding]
    omega
  · rcases nvmeQueue_busy hBusy with hFull | hUsed
    · have hLength := h.full_length hFull
      omega
    · obtain ⟨io, hIo⟩ := Option.isSome_iff_exists.mp hUsed
      obtain ⟨p, e, hOut, -⟩ := (h.table.table _ _).mp hIo
      exact List.length_pos_of_mem (mem_outstanding.mpr hOut)

end NewPerf.Engine
