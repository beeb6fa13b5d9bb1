import NewPerf.Engine.ListMemory

/-!
# Reuse of a slot's page

A slot is reused as soon as the device has fetched its entry, but the page that
belongs to the slot, and the pages behind it that a longer list goes on in, are
read by the device until the command completes.  `page_reuse_iff` says which runs
keep the lists of commands in flight intact: those in which no request needs a
page that belongs to the list of a command in flight, or takes a queue entry that
such a list has run into (which takes a list that leaves its region,
`entryFree_of_inside`).

For lists of one page that is a matter of laps around the ring
(`lapFree_iff_laps`), and it cannot fail while commands complete in the order in
which they were submitted (`lapFree_of_inOrder`).
-/

namespace NewPerf.Engine

open NewPerf.Lib.LeMemory
open NewPerf.Lib.Logs
open NewPerf.Lib.Ring
open NewPerf.Lib.Runs
open NewPerf.Tools

/-- `fio` keeps at most `iodepth` requests outstanding. -/
def FioBound (iodepth : Nat) (s : Sys) : Act → Prop
  | .queue .. => (outstanding s).length + 1 ≤ iodepth
  | _ => True

instance (iodepth : Nat) (s : Sys) (a : Act) : Decidable (FioBound iodepth s a) :=
  match a with
  | .queue .. => inferInstanceAs (Decidable ((outstanding s).length + 1 ≤ iodepth))
  | .getevents .. | .host | .giveUp | .fetch | .post .. =>
      inferInstanceAs (Decidable True)

/-- A queue pair as `nvme_init` builds it for the given `iodepth`. -/
structure InitPair (iodepth : Nat) (n : NvmeData) : Prop extends FreshPair n where
  iodepth_pos : 1 ≤ iodepth
  sqDepth : n.ioSqDepth.toNat = iodepth + 1
  cqDepth : n.ioCqDepth.toNat = iodepth + 1

/-- Number of bytes the PRP list or the range table of a submission takes. -/
def tableBytes (e : Submitted) : Nat := storedBytes e.prpStores

/-- Submission number `p` has a PRP list or a range table, and its completion has
not been posted. -/
def PageInUse (s : Sys) (p : Nat) : Prop :=
  (∃ e ∈ s.log[p]?, e.prpStores ≠ []) ∧ p ∉ s.done.map Done.pos

/-- What a submission stores, counted from the start of `io_prp_list_mem`.  Its entry is
part of it where the submission queue lies behind. -/
def storesFromPrpList (n : NvmeData) (sub : Submission) : List Store :=
  sub.prpStores ++
    match behindPrpList n n.ioSqVirtAddr with
    | none => []
    | some base => sub.sqStores.map (Store.shift base)

/-- The step writes neither the page of a command in flight nor any other byte of
its list. -/
def PageSafe (fioHasMrt : Bool) (s : Sys) : Act → Prop
  | .queue td c ioU => ∀ sub, nvmeQueue fioHasMrt td c s.nvme ioU = .queued sub →
      ∀ p e, s.log[p]? = some e → PageInUse s p → ∀ st ∈ storesFromPrpList s.nvme sub,
        st.Avoids (4096 * e.slot.toNat) (4096 * e.slot.toNat + max 4096 (tableBytes e))
  | _ => True

/-- Number of pages that hold `bytes` bytes. -/
def pagesFor (bytes : Nat) : Nat := (bytes + 4095) / 4096

/-- No page that the request needs belongs to a command in flight.  The new
submission has number `log.length`, and submission number `p` has the pages from
number `p % io_sq_depth` on. -/
def LapFree (fioHasMrt : Bool) (s : Sys) : Act → Prop
  | .queue td c ioU => (nvmeQueue fioHasMrt td c s.nvme ioU).isQueued = true →
      ∀ p, p < s.log.length → PageInUse s p → ∀ e ∈ s.log[p]?,
        ∀ k, k < pagesFor (listBytes fioHasMrt td s.nvme ioU) →
          ∀ k', k' < max 1 (pagesFor (tableBytes e)) →
            s.log.length % s.nvme.ioSqDepth.toNat + k ≠ p % s.nvme.ioSqDepth.toNat + k'
  | _ => True

/-- The entry of slot `t` lies apart from the `bytes` bytes from the page of slot `q` on. -/
def EntryApart (n : NvmeData) (t q bytes : Nat) : Prop :=
  ∀ base ∈ behindPrpList n n.ioSqVirtAddr,
    base + nvmeIoSqEntrySize * (t + 1) ≤ 4096 * q ∨
      4096 * q + bytes ≤ base + nvmeIoSqEntrySize * t

/-- The entry that the request takes is not one that the list of a command in flight has
run into. -/
def EntryFree (fioHasMrt : Bool) (s : Sys) : Act → Prop
  | .queue td c ioU => (nvmeQueue fioHasMrt td c s.nvme ioU).isQueued = true →
      ∀ p, p < s.log.length → PageInUse s p → ∀ e ∈ s.log[p]?,
        EntryApart s.nvme (s.log.length % s.nvme.ioSqDepth.toNat)
          (p % s.nvme.ioSqDepth.toNat) (max 4096 (tableBytes e))
  | _ => True

instance (s : Sys) (p : Nat) : Decidable (PageInUse s p) :=
  inferInstanceAs (Decidable (_ ∧ _))

instance (fioHasMrt : Bool) (s : Sys) (a : Act) : Decidable (LapFree fioHasMrt s a) :=
  match a with
  | .queue .. => inferInstanceAs (Decidable (_ = true → ∀ p, p < _ → _ → ∀ e ∈ _,
      ∀ k, k < _ → ∀ k', k' < _ → _ ≠ _))
  | .getevents .. | .host | .giveUp | .fetch | .post .. =>
      inferInstanceAs (Decidable True)

instance (n : NvmeData) (t q bytes : Nat) : Decidable (EntryApart n t q bytes) :=
  inferInstanceAs (Decidable (∀ base ∈ behindPrpList n n.ioSqVirtAddr, _ ∨ _))

instance (fioHasMrt : Bool) (s : Sys) (a : Act) : Decidable (EntryFree fioHasMrt s a) :=
  match a with
  | .queue .. => inferInstanceAs (Decidable (_ = true → ∀ p, p < _ → _ → ∀ e ∈ _,
      EntryApart _ _ _ _))
  | .getevents .. | .host | .giveUp | .fetch | .post .. =>
      inferInstanceAs (Decidable True)

/-! ## Slots -/

/-- Submissions take the slots in turn. -/
structure SlotInv (s : Sys) : Prop where
  depth_pos : 0 < s.nvme.ioSqDepth.toNat
  tail : s.nvme.ioSqTail.toNat = s.log.length % s.nvme.ioSqDepth.toNat
  slots : ∀ (p : Nat) (e : Submitted), s.log[p]? = some e →
    e.slot.toNat = p % s.nvme.ioSqDepth.toNat

theorem Inv.slotInv {s : Sys} {known base got : Nat} (h : Inv s known base got) :
    SlotInv s :=
  ⟨h.sq.depth_pos, h.sq.tail, fun p e he => (h.sq.entries p e he).2⟩

/-- Steps that leave submissions alone. -/
private theorem SlotInv.congr {s s' : Sys} (h : SlotInv s)
    (hNvme : submitPart s'.nvme = submitPart s.nvme) (hLog : s'.log = s.log) :
    SlotInv s' := by
  have hDepth : s'.nvme.ioSqDepth = s.nvme.ioSqDepth :=
    show (submitPart s'.nvme).ioSqDepth = (submitPart s.nvme).ioSqDepth by rw [hNvme]
  have hTail : s'.nvme.ioSqTail = s.nvme.ioSqTail :=
    show (submitPart s'.nvme).ioSqTail = (submitPart s.nvme).ioSqTail by rw [hNvme]
  constructor
  · rw [hDepth]
    exact h.depth_pos
  · rw [hDepth, hTail, hLog]
    exact h.tail
  · rw [hDepth, hLog]
    exact h.slots

private theorem SlotInv.submitTo {s : Sys} {ioU : IoU} {sub : Submission} (h : SlotInv s)
    (hAcc : Accepted s.nvme ioU sub) : SlotInv (submitTo s ioU sub) := by
  have hLt : s.nvme.ioSqTail.toNat < s.nvme.ioSqDepth.toNat := by
    rw [h.tail]
    exact Nat.mod_lt _ h.depth_pos
  have hDepth : sub.nvme.ioSqDepth = s.nvme.ioSqDepth := by rw [hAcc.nvme]
  have hNext : sub.nvme.ioSqTail = nextSqTail s.nvme := by rw [hAcc.nvme]
  constructor
  · rw [Engine.submitTo, hDepth]
    exact h.depth_pos
  · rw [Engine.submitTo]
    dsimp only
    rw [hDepth, hNext, nextSqTail, toNat_ringAdvance _ _ hLt, h.tail, Nat.mod_add_mod,
      List.length_append]
    rfl
  · intro p e he
    rw [Engine.submitTo]
    dsimp only
    rw [hDepth]
    rcases getElem?_concat_cases he with hOld | ⟨rfl, rfl⟩
    · exact h.slots p e hOld
    · exact h.tail

/-- Whatever a list runs into, the slots stay what they are. -/
private theorem SlotInv.mappedStep {mapped : Nat → Bool} {fioHasMrt : Bool} {s s' : Sys}
    {a : Act} (h : SlotInv s) (hStep : mappedStep mapped fioHasMrt s a = some s') :
    SlotInv s' := by
  have hOther : (∀ td c ioU, a ≠ .queue td c ioU) → step fioHasMrt s a = some s' →
      SlotInv s' := by
    intro hNot hSame
    obtain ⟨hNvme, hLog⟩ := submitPart_step hNot hSame
    exact h.congr hNvme hLog
  cases a with
  | queue td c ioU =>
      simp only [Engine.mappedStep] at hStep
      split at hStep
      · split at hStep
        · rename_i sub hQueue
          cases hStep
          unfold submitMapped
          split
          · exact h.congr rfl rfl
          · have hSpilled : SlotInv (spillInto s sub.prpStores) := h.congr rfl rfl
            exact hSpilled.submitTo (nvmeQueue_queued hQueue).1
        · cases hStep
          exact h
      · cases hStep
  | getevents min max timed => exact hOther (by simp) hStep
  | host => exact hOther (by simp) hStep
  | giveUp => exact hOther (by simp) hStep
  | fetch => exact hOther (by simp) hStep
  | post i status => exact hOther (by simp) hStep

/-! ## Which runs keep the lists in flight -/

/-- A list of `bytes` bytes from page `t` on meets the page range of another one from
page `q` on exactly when they have a page in common. -/
private theorem meets_iff (t q bytes other : Nat) :
    (bytes = 0 ∨ 4096 * t + bytes ≤ 4096 * q ∨ 4096 * q + max 4096 other ≤ 4096 * t) ↔
      ∀ k, k < pagesFor bytes → ∀ k', k' < max 1 (pagesFor other) → t + k ≠ q + k' := by
  unfold pagesFor
  constructor
  · intro h k hk k' hk'
    omega
  · intro h
    by_contra hMeets
    rcases Nat.le_total t q with hLe | hLe
    · exact h (q - t) (by omega) 0 (by omega) (by omega)
    · exact h 0 (by omega) (t - q) (by omega) (by omega)

/-- In flight a list takes as many bytes as its request needed. -/
theorem storedBytes_of_queued {fioHasMrt : Bool} {td : ThreadData} {c : ControllerData}
    {n : NvmeData} {ioU : IoU} {sub : Submission}
    (hQueue : nvmeQueue fioHasMrt td c n ioU = .queued sub) :
    storedBytes sub.prpStores = listBytes fioHasMrt td n ioU :=
  (tiles_prpStores hQueue).storedBytes_eq

/-- The stores of two lists are apart exactly when their pages are. -/
private theorem listsApart_iff {s : Sys} (h : SlotInv s) {fioHasMrt : Bool} {td : ThreadData}
    {c : ControllerData} {ioU : IoU} {sub : Submission} {p : Nat} {e : Submitted}
    (hQueue : nvmeQueue fioHasMrt td c s.nvme ioU = .queued sub) (he : s.log[p]? = some e) :
    (∀ st ∈ sub.prpStores,
        st.Avoids (4096 * e.slot.toNat) (4096 * e.slot.toNat + max 4096 (tableBytes e))) ↔
      ∀ k, k < pagesFor (listBytes fioHasMrt td s.nvme ioU) →
        ∀ k', k' < max 1 (pagesFor (tableBytes e)) →
          s.log.length % s.nvme.ioSqDepth.toNat + k ≠ p % s.nvme.ioSqDepth.toNat + k' := by
  rw [(tiles_prpStores hQueue).avoids_iff (by omega), h.slots p e he, h.tail, ← meets_iff]

/-- A list whose pages are free is stored outside the lists of commands in flight. -/
theorem LapFree.avoids {s : Sys} (h : SlotInv s) {fioHasMrt : Bool} {td : ThreadData}
    {c : ControllerData} {ioU : IoU} {sub : Submission}
    (hFree : LapFree fioHasMrt s (.queue td c ioU))
    (hQueue : nvmeQueue fioHasMrt td c s.nvme ioU = .queued sub) {p : Nat} {e : Submitted}
    (he : s.log[p]? = some e) (hUse : PageInUse s p) :
    ∀ st ∈ sub.prpStores,
      st.Avoids (4096 * e.slot.toNat) (4096 * e.slot.toNat + max 4096 (tableBytes e)) :=
  (listsApart_iff h hQueue he).mpr (hFree (QueueResult.isQueued_iff.mpr ⟨sub, hQueue⟩) p
    (List.getElem?_eq_some_iff.mp he).1 hUse e he)

/-- An entry is cleared as a whole, and nothing around it is written. -/
private theorem entryApart_iff {n : NvmeData} {ioU : IoU} {sub : Submission}
    (hAcc : Accepted n ioU sub) (q bytes : Nat) :
    (∀ base ∈ behindPrpList n n.ioSqVirtAddr, ∀ st ∈ sub.sqStores,
        (st.shift base).Avoids (4096 * q) (4096 * q + bytes)) ↔
      EntryApart n n.ioSqTail.toNat q bytes := by
  constructor
  · intro h base hBase
    have hCleared := h base hBase _ hAcc.sqCleared
    simp only [Store.shift, Store.Avoids, sqEntryOff, nvmeIoSqEntrySize] at hCleared
    unfold nvmeIoSqEntrySize
    omega
  · intro h base hBase st hst
    have hApart := h base hBase
    have hWithin := hAcc.sqConfined st hst
    simp only [Store.Within, sqEntryOff, nvmeIoSqEntrySize] at hWithin hApart
    simp only [Store.shift, Store.Avoids]
    omega

private theorem forall_storesFromPrpList {n : NvmeData} {sub : Submission} {P : Store → Prop} :
    (∀ st ∈ storesFromPrpList n sub, P st) ↔
      (∀ st ∈ sub.prpStores, P st) ∧
        ∀ base ∈ behindPrpList n n.ioSqVirtAddr, ∀ st ∈ sub.sqStores, P (st.shift base) := by
  unfold storesFromPrpList
  rw [List.forall_mem_append]
  refine and_congr_right fun _ => ?_
  cases behindPrpList n n.ioSqVirtAddr with
  | none => simp
  | some base => simp

/-- In every state in which the slots are taken in turn, what is kept intact is told by
the numbers of the pages and of the entry. -/
theorem pageSafe_iff {s : Sys} (h : SlotInv s) (fioHasMrt : Bool) (a : Act) :
    PageSafe fioHasMrt s a ↔ LapFree fioHasMrt s a ∧ EntryFree fioHasMrt s a := by
  cases a with
  | queue td c ioU =>
      have hHit : ∀ sub, nvmeQueue fioHasMrt td c s.nvme ioU = .queued sub →
          ∀ p e, s.log[p]? = some e →
          ((∀ st ∈ storesFromPrpList s.nvme sub, st.Avoids (4096 * e.slot.toNat)
            (4096 * e.slot.toNat + max 4096 (tableBytes e))) ↔
          (∀ k, k < pagesFor (listBytes fioHasMrt td s.nvme ioU) →
            ∀ k', k' < max 1 (pagesFor (tableBytes e)) →
              s.log.length % s.nvme.ioSqDepth.toNat + k ≠
                p % s.nvme.ioSqDepth.toNat + k') ∧
          EntryApart s.nvme (s.log.length % s.nvme.ioSqDepth.toNat)
            (p % s.nvme.ioSqDepth.toNat) (max 4096 (tableBytes e))) := by
        intro sub hQueue p e he
        rw [forall_storesFromPrpList, listsApart_iff h hQueue he,
          entryApart_iff (nvmeQueue_queued hQueue).1, h.slots p e he, h.tail]
      constructor
      · intro hSafe
        refine ⟨fun hQueued p hp hUse e he => ?_, fun hQueued p hp hUse e he => ?_⟩
        · obtain ⟨sub, hQueue⟩ := QueueResult.isQueued_iff.mp hQueued
          exact ((hHit sub hQueue p e he).mp (hSafe sub hQueue p e he hUse)).1
        · obtain ⟨sub, hQueue⟩ := QueueResult.isQueued_iff.mp hQueued
          exact ((hHit sub hQueue p e he).mp (hSafe sub hQueue p e he hUse)).2
      · intro ⟨hLap, hEntry⟩ sub hQueue p e he hUse
        have hp : p < s.log.length := (List.getElem?_eq_some_iff.mp he).1
        have hQueued := QueueResult.isQueued_iff.mpr ⟨sub, hQueue⟩
        exact (hHit sub hQueue p e he).mpr
          ⟨hLap hQueued p hp hUse e he, hEntry hQueued p hp hUse e he⟩
  | getevents min max timed => exact iff_of_true trivial ⟨trivial, trivial⟩
  | host => exact iff_of_true trivial ⟨trivial, trivial⟩
  | giveUp => exact iff_of_true trivial ⟨trivial, trivial⟩
  | fetch => exact iff_of_true trivial ⟨trivial, trivial⟩
  | post i status => exact iff_of_true trivial ⟨trivial, trivial⟩

/-- Under `fio`'s bound, and wherever the regions are mapped, the runs that never
write into the list of a command in flight are the runs all of whose submissions
take their pages and their entry elsewhere. -/
theorem page_reuse_iff {mapped : Nat → Bool} {fioHasMrt : Bool} {iodepth : Nat}
    {n : NvmeData} {as : List Act} {s : Sys} (hInit : InitPair iodepth n) :
    Run (mappedStep mapped fioHasMrt)
        (fun s a => FioBound iodepth s a ∧ PageSafe fioHasMrt s a) (start n) as s ↔
      Run (mappedStep mapped fioHasMrt)
        (fun s a => FioBound iodepth s a ∧ LapFree fioHasMrt s a ∧ EntryFree fioHasMrt s a)
        (start n) as s := by
  refine Run.iff_of_invariant (I := SlotInv) (inv_start hInit.toFreshPair).slotInv ?_ ?_
  · exact fun s a s' h _ hStep => h.mappedStep hStep
  · intro s a s' h _
    rw [pageSafe_iff h]

/-- No entry is in the way of lists that end inside their region. -/
theorem entryFree_of_inside {fioHasMrt : Bool} {s : Sys} (h : SlotInv s)
    (hInside : ∀ p e, s.log[p]? = some e → PageInUse s p →
      4096 * e.slot.toNat + max 4096 (tableBytes e) ≤ prpListEnd s.nvme) (a : Act) :
    EntryFree fioHasMrt s a := by
  cases a with
  | queue td c ioU =>
      intro _ p _ hUse e he base hBase
      have hEnd := hInside p e he hUse
      have hBehind := behindPrpList_ge hBase
      rw [h.slots p e he] at hEnd
      omega
  | getevents min max timed => trivial
  | host => trivial
  | giveUp => trivial
  | fetch => trivial
  | post i status => trivial

/-! ## Lists of one page -/

/-- Nothing in flight has more than one page, and the request needs no more. -/
structure OnePageEach (fioHasMrt : Bool) (s : Sys) (td : ThreadData) (ioU : IoU) : Prop where
  new : listBytes fioHasMrt td s.nvme ioU ≤ 4096
  old : ∀ (p : Nat) (e : Submitted), s.log[p]? = some e → PageInUse s p → tableBytes e ≤ 4096

/-- With lists of one page the conflict is with the commands submitted a whole number
of laps before. -/
theorem lapFree_iff_laps {fioHasMrt : Bool} {s : Sys} {td : ThreadData}
    {c : ControllerData} {ioU : IoU} (hOne : OnePageEach fioHasMrt s td ioU) :
    LapFree fioHasMrt s (.queue td c ioU) ↔
      ((nvmeQueue fioHasMrt td c s.nvme ioU).isQueued = true →
        0 < listBytes fioHasMrt td s.nvme ioU →
          ∀ p, p < s.log.length → PageInUse s p →
            s.log.length % s.nvme.ioSqDepth.toNat ≠ p % s.nvme.ioSqDepth.toNat) := by
  have hNew := hOne.new
  constructor
  · intro h hQueued hBytes p hp hUse hLaps
    obtain ⟨e, he, -⟩ := hUse.1
    refine h hQueued p hp hUse e he 0 ?_ 0 (by omega) ?_
    · unfold pagesFor
      omega
    · rw [Nat.add_zero, Nat.add_zero]
      exact hLaps
  · intro h hQueued p hp hUse e he k hk k' hk' hEq
    have hOld := hOne.old p e he hUse
    unfold pagesFor at hk hk'
    refine h hQueued (by omega) p hp hUse ?_
    rw [show k = 0 by omega, show k' = 0 by omega, Nat.add_zero, Nat.add_zero] at hEq
    exact hEq

/-- While commands complete in the order of their submission, `fio`'s bound alone keeps
lists of one page apart: a command in flight is less than a lap behind. -/
theorem lapFree_of_inOrder {fioHasMrt : Bool} {iodepth : Nat} {s : Sys} {td : ThreadData}
    {c : ControllerData} {ioU : IoU} (hDepth : s.nvme.ioSqDepth.toNat = iodepth + 1)
    (hOrder : ∀ p q, p ≤ q → q ∈ s.done.map Done.pos → p ∈ s.done.map Done.pos)
    (hBound : FioBound iodepth s (.queue td c ioU)) (hOne : OnePageEach fioHasMrt s td ioU) :
    LapFree fioHasMrt s (.queue td c ioU) := by
  refine (lapFree_iff_laps hOne).mpr fun _ _ p hp hUse hLaps => ?_
  have hTaken : ∀ q, p ≤ q → q ∉ takenPos s s.reaped := by
    intro q hq hMem
    exact hUse.2 (hOrder p q hq (((List.take_sublist _ _).map _).subset hMem))
  -- Everything from `p` on is outstanding.
  have hAll : List.range' p (s.log.length - p) ⊆ outstanding s := by
    intro q hq
    have hBetween := List.mem_range'_1.mp hq
    exact mem_outstanding.mpr ⟨by omega, hTaken q hBetween.1⟩
  have hCount := (List.subperm_of_subset List.nodup_range' hAll).length_le
  rw [List.length_range'] at hCount
  unfold FioBound at hBound
  have hEq := (mod_eq_iff_of_lt (d := s.nvme.ioSqDepth.toNat) (by omega) (by omega)).mp hLaps
  omega

/-! ## Trims on a queue pair of depth three -/

def trimBlock : Act :=
  .queue smallThread smallController
    { addr := 0x200, ddir := .trim, offset := 0, xferBuflen := 512, xferBuf := 0x7000 }

theorem initPair_lapPair : InitPair 2 lapPair :=
  { freshPair_lapPair with
    iodepth_pos := by decide
    sqDepth := rfl
    cqDepth := rfl }

/-- Four trims completed in order. -/
def inOrderTrims : List Act :=
  [trimBlock, .fetch, .post 0 0] ++ reapOne ++ [trimBlock, .fetch, .post 0 0] ++
    reapOne ++ [trimBlock, .fetch, .post 0 0] ++ reapOne ++ [trimBlock]

theorem page_reuse_iff_inOrderTrims :
    ∃ s, exec (mappedStep (fun _ => true) true)
        (fun s a => decide (FioBound 2 s a ∧ LapFree true s a ∧ EntryFree true s a))
        (start lapPair) inOrderTrims = some s ∧ s.log.length = 4 ∧
      Run (mappedStep (fun _ => true) true)
        (fun s a => FioBound 2 s a ∧ PageSafe true s a) (start lapPair) inOrderTrims s := by
  have hEval : (exec (mappedStep (fun _ => true) true)
      (fun s a => decide (FioBound 2 s a ∧ LapFree true s a ∧ EntryFree true s a))
      (start lapPair) inOrderTrims).any (fun s => s.log.length == 4) = true := by
    decide +kernel
  obtain ⟨s, hExec, hLen⟩ := (Option.any_eq_true _ _).mp hEval
  exact ⟨s, hExec, by simpa using hLen, (page_reuse_iff initPair_lapPair).mpr
    (Run.of_exec (fun _ _ => of_decide_eq_true) hExec)⟩

/-- The first trim stays in flight while the second and the third complete. -/
def overtakenTrim : List Act :=
  [trimBlock, trimBlock, .fetch, .fetch, .post 1 0] ++ reapOne ++
    [trimBlock, .fetch, .post 1 0] ++ reapOne

/-- The fourth trim takes slot 0 and writes its page, which the first trim is
still using. -/
theorem page_reuse_overtakenTrim_false :
    ∃ s, Run (mappedStep (fun _ => true) true) (FioBound 2) (start lapPair)
        overtakenTrim s ∧
      FioBound 2 s trimBlock ∧ ¬ PageSafe true s trimBlock := by
  have hEval : (exec (mappedStep (fun _ => true) true) (fun s a => decide (FioBound 2 s a))
      (start lapPair) overtakenTrim).any (fun s => decide (FioBound 2 s trimBlock ∧
        ¬ LapFree true s trimBlock)) = true := by
    decide +kernel
  obtain ⟨s, hExec, hEnd⟩ := (Option.any_eq_true _ _).mp hEval
  obtain ⟨hBound, hConflict⟩ := of_decide_eq_true hEnd
  have hRun : Run (mappedStep (fun _ => true) true) (FioBound 2) (start lapPair)
      overtakenTrim s :=
    Run.of_exec (fun _ _ => of_decide_eq_true) hExec
  have h : SlotInv s := hRun.invariant (inv_start initPair_lapPair.toFreshPair).slotInv
    fun _ _ _ hSlots _ hStep => hSlots.mappedStep hStep
  exact ⟨s, hRun, hBound, fun hSafe =>
    hConflict ((pageSafe_iff h true trimBlock).mp hSafe).1⟩

end NewPerf.Engine
