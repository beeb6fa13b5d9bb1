import NewPerf.Engine.SlotPages

/-!
# What lies behind `io_prp_list_mem`

`step` keeps `io_prp_list_mem` apart from the two queues.  In the address space of the
program it is one mapping among others, and a list that is longer than its slot's page
goes on behind the last page, into whatever is mapped there.  As the regions are mapped
one after the other from high addresses down, that is normally the submission queue and
then the completion queue.

`mappedStep` is `step` with the regions at the addresses that `struct nvme_data` holds.
The two agree as long as every list ends inside its region (`mappedStep_eq`), and in these
runs completion is exactly once and the device is never overtaken.  A longer list breaks
both (`longRead`).
-/

namespace NewPerf.Engine

open NewPerf.Lib.LeMemory
open NewPerf.Lib.Ring
open NewPerf.Lib.Runs
open NewPerf.Tools

/-! ## Stores behind the region -/

/-- First offset from the start of `io_prp_list_mem` that is no longer part of it. -/
def prpListEnd (n : NvmeData) : Nat := n.ioPrpListMem.size.toInt.toNat

/-- Offset from the start of `io_prp_list_mem` at which the region mapped at `virt` begins,
if it lies behind it. -/
def behindPrpList (n : NvmeData) (virt : UInt64) : Option Nat :=
  if n.ioPrpListVirtAddr.toNat + prpListEnd n ≤ virt.toNat then
    some (virt.toNat - n.ioPrpListVirtAddr.toNat)
  else none

/-- The region mapped at `virt` after stores made from `io_prp_list_mem` on. -/
def spill (n : NvmeData) (virt : UInt64) (ss : List Store) (m : Bytes) : Bytes :=
  match behindPrpList n virt with
  | none => m
  | some base => seenFrom base ss m

/-- The bytes of a completion queue entry that the host reads; it reads no others. -/
def cqEntryBytes (e : NvmeCqEntry) : Bytes :=
  applyAll [⟨8, 2, e.sqhd.toNat⟩, ⟨12, 2, e.cid.toNat⟩, ⟨14, 2, e.psf.toNat⟩] fun _ => 0

/-- The completion queue as bytes. -/
def cqBytes (cq : Nat → NvmeCqEntry) : Bytes := fun a => cqEntryBytes (cq (a / 16)) (a % 16)

/-- Entry number `i` of a completion queue. -/
def cqEntryAt (m : Bytes) (i : Nat) : NvmeCqEntry :=
  { sqhd := UInt16.ofNat (read m (16 * i + 8) 2)
    cid := UInt16.ofNat (read m (16 * i + 12) 2)
    psf := UInt16.ofNat (read m (16 * i + 14) 2) }

/-- The store touches an address behind `io_prp_list_mem` at which nothing is mapped. -/
def faults (mapped : Nat → Bool) (n : NvmeData) (st : Store) : Bool :=
  (List.range st.width).any fun k =>
    decide (prpListEnd n ≤ st.off + k) && !mapped (n.ioPrpListVirtAddr.toNat + st.off + k)

/-- The two queues after stores made from `io_prp_list_mem` on. -/
def spillInto (s : Sys) (ss : List Store) : Sys :=
  { s with
    sq := spill s.nvme s.nvme.ioSqVirtAddr ss s.sq
    cq := cqEntryAt (spill s.nvme s.nvme.ioCqVirtAddr ss (cqBytes s.cq)) }

/-- Effect of an accepted request.  The list is stored before the entry, and a store that
faults ends the program. -/
def submitMapped (mapped : Nat → Bool) (s : Sys) (ioU : IoU) (sub : Submission) : Sys :=
  if sub.prpStores.any (faults mapped s.nvme) then
    let made := sub.prpStores.takeWhile fun st => !faults mapped s.nvme st
    { spillInto s made with prp := applyAll made s.prp, pc := .exited }
  else submitTo (spillInto s sub.prpStores) ioU sub

/-- One step of the system with its regions in one address space; `mapped` tells at which
addresses something is mapped.  Memory that belongs to neither queue is not followed. -/
def mappedStep (mapped : Nat → Bool) (fioHasMrt : Bool) (s : Sys) : Act → Option Sys
  | .queue td c ioU =>
      if s.pc = .idle then
        match nvmeQueue fioHasMrt td c s.nvme ioU with
        | .queued sub => some (submitMapped mapped s ioU sub)
        | _ => some s
      else none
  | a => step fioHasMrt s a

/-! ## Lists that end inside -/

/-- The list or table of a request that is accepted ends inside `io_prp_list_mem`. -/
def ListInside (fioHasMrt : Bool) (s : Sys) : Act → Prop
  | .queue td c ioU => (nvmeQueue fioHasMrt td c s.nvme ioU).isQueued = true →
      0 < listBytes fioHasMrt td s.nvme ioU →
        4096 * s.nvme.ioSqTail.toNat + listBytes fioHasMrt td s.nvme ioU ≤ prpListEnd s.nvme
  | _ => True

instance (fioHasMrt : Bool) (s : Sys) (a : Act) : Decidable (ListInside fioHasMrt s a) :=
  match a with
  | .queue .. => inferInstanceAs (Decidable (_ = true → 0 < _ → _ ≤ _))
  | .getevents .. | .host | .giveUp | .fetch | .post .. =>
      inferInstanceAs (Decidable True)

theorem behindPrpList_ge {n : NvmeData} {virt : UInt64} {base : Nat}
    (h : behindPrpList n virt = some base) : prpListEnd n ≤ base := by
  unfold behindPrpList at h
  split at h
  · cases h
    omega
  · cases h

theorem spill_of_inside {n : NvmeData} {ss : List Store} (virt : UInt64) (m : Bytes)
    (h : ∀ st ∈ ss, st.off + st.width ≤ prpListEnd n) : spill n virt ss m = m := by
  unfold spill
  split
  · rfl
  · rename_i base hBase
    exact seenFrom_of_below m fun st hst => Nat.le_trans (h st hst) (behindPrpList_ge hBase)

private theorem read_cqBytes (cq : Nat → NvmeCqEntry) (i k : Nat) (hk : k + 2 ≤ 16) :
    read (cqBytes cq) (16 * i + k) 2 = read (cqEntryBytes (cq i)) k 2 := by
  have hByte : ∀ j, j < 16 → cqBytes cq (16 * i + j) = cqEntryBytes (cq i) j := by
    intro j hj
    rw [cqBytes, Nat.mul_add_div (by omega), Nat.div_eq_of_lt hj, Nat.add_zero,
      Nat.mul_add_mod, Nat.mod_eq_of_lt hj]
  simp only [NewPerf.Lib.LeMemory.read, Nat.add_assoc, hByte k (by omega),
    hByte (k + 1) (by omega)]

/-- The bytes of an entry are decoded to the entry. -/
theorem cqEntryAt_cqBytes (cq : Nat → NvmeCqEntry) (i : Nat) :
    cqEntryAt (cqBytes cq) i = cq i := by
  have hSqhd : read (cqEntryBytes (cq i)) 8 2 = (cq i).sqhd.toNat :=
    read_stored (j := 0) rfl _ (cq i).sqhd.toNat_lt (by simp [Store.Avoids])
  have hCid : read (cqEntryBytes (cq i)) 12 2 = (cq i).cid.toNat :=
    read_stored (j := 1) rfl _ (cq i).cid.toNat_lt (by simp [Store.Avoids])
  have hPsf : read (cqEntryBytes (cq i)) 14 2 = (cq i).psf.toNat :=
    read_stored (j := 2) rfl _ (cq i).psf.toNat_lt (by simp)
  rw [cqEntryAt, read_cqBytes cq i 8 (by omega), read_cqBytes cq i 12 (by omega),
    read_cqBytes cq i 14 (by omega), hSqhd, hCid, hPsf]
  simp only [UInt16.ofNat_toNat]

theorem spillInto_of_inside {s : Sys} {ss : List Store}
    (h : ∀ st ∈ ss, st.off + st.width ≤ prpListEnd s.nvme) : spillInto s ss = s := by
  have hCq : cqEntryAt (cqBytes s.cq) = s.cq := funext (cqEntryAt_cqBytes s.cq)
  rw [spillInto, spill_of_inside _ _ h, spill_of_inside _ _ h, hCq]

theorem submitMapped_of_inside {mapped : Nat → Bool} {s : Sys} {ioU : IoU}
    {sub : Submission} (h : ∀ st ∈ sub.prpStores, st.off + st.width ≤ prpListEnd s.nvme) :
    submitMapped mapped s ioU sub = submitTo s ioU sub := by
  have hNone : ¬ sub.prpStores.any (faults mapped s.nvme) = true := by
    intro hAny
    obtain ⟨st, hst, hFault⟩ := List.any_eq_true.mp hAny
    obtain ⟨k, hk, hByte⟩ := List.any_eq_true.mp hFault
    have hLt := List.mem_range.mp hk
    have hPast := of_decide_eq_true (Bool.and_eq_true_iff.mp hByte).1
    have hEnd := h st hst
    omega
  rw [submitMapped, if_neg hNone, spillInto_of_inside h]

/-- With its list inside its region, a request has the same effect wherever the regions
are mapped. -/
theorem mappedStep_eq {fioHasMrt : Bool} {s : Sys} {a : Act} (mapped : Nat → Bool)
    (h : ListInside fioHasMrt s a) : mappedStep mapped fioHasMrt s a = step fioHasMrt s a := by
  cases a with
  | queue td c ioU =>
      cases hQueue : nvmeQueue fioHasMrt td c s.nvme ioU with
      | queued sub =>
          have hTiles := tiles_prpStores hQueue
          have hEnd := h (QueueResult.isQueued_iff.mpr ⟨sub, hQueue⟩)
          have hInside : ∀ st ∈ sub.prpStores, st.off + st.width ≤ prpListEnd s.nvme := by
            intro st hst
            have hWithin := (hTiles.within_iff (prpListEnd s.nvme)
              (Nat.zero_le _)).mpr (by omega) st hst
            exact hWithin.2
          simp only [mappedStep, step, hQueue, submitMapped_of_inside hInside]
      | busy => simp only [mappedStep, step, hQueue]
      | completed error => simp only [mappedStep, step, hQueue]
  | getevents min max timed => rfl
  | host => rfl
  | giveUp => rfl
  | fetch => rfl
  | post i status => rfl

/-- Runs in which every list ends inside its region do not depend on the addresses. -/
theorem isolated_of_run {mapped : Nat → Bool} {fioHasMrt : Bool} {ok : Sys → Act → Prop}
    {n : NvmeData} {as : List Act} {s : Sys}
    (hRun : Run (mappedStep mapped fioHasMrt)
      (fun s a => ok s a ∧ ListInside fioHasMrt s a) (start n) as s) :
    Run (step fioHasMrt) (fun s a => ok s a ∧ ListInside fioHasMrt s a) (start n) as s :=
  hRun.congr_step fun _ _ hOk => mappedStep_eq mapped hOk.2

/-! ## A queue pair of depth three -/

/-- The queue pair of a job with `iodepth=2`, mapped the way `create_io_queue_pair` has it
mapped: the three regions follow each other. -/
def lapPair : NvmeData :=
  { smallPair with
    ioSqDepth := 3, ioCqDepth := 3
    ioPrpListMem := { size := 12288 }
    ioCqMem := { size := 4096 }
    ioPrpListVirtAddr := 0x7f0000000000
    ioSqVirtAddr := 0x7f0000003000
    ioCqVirtAddr := 0x7f0000004000 }

theorem freshPair_lapPair : FreshPair lapPair :=
  { sqHead := rfl
    sqTail := rfl
    cqHead := rfl
    cqPhase := rfl
    cmdId := rfl
    cmdIoU := fun _ => rfl
    sqDepth_pos := by decide
    sqDepth_le := by decide
    cqDepth_pos := by decide
    cqDepth_le := by decide }

/-- A read of `len` bytes into the start of the buffer, asked for by the `io_u` at `addr`. -/
def readBy (addr len : UInt64) : Act :=
  .queue smallThread smallController { readInto 0x7000 len with addr }

/-- `nvme_getevents` waiting for one completion that is already there. -/
def reapOne : List Act := [.getevents 1 1 false, .host, .host, .host, .host]

/-- Two reads of which the second completes first. -/
def outOfOrderReads : List Act :=
  [readBy 0x100 512, readBy 0x200 512, .fetch, .fetch, .post 1 0, .post 0 0,
    .getevents 2 2 false, .host, .host, .host, .host, .host]

/-- A read in slot 0 comes back, and the one in slot 1 has not been fetched yet. -/
def oneUnfetched : List Act :=
  [readBy 0x100 512, .fetch, .post 0 0] ++ reapOne ++ [readBy 0x100 512]

/-- A read of 1024 pages: the last 511 of its 1023 list entries do not fit the last page. -/
def longRead : Act := readBy 0x200 (1024 * 4096)

/-! ## Completion is exactly once -/

/-- In every well-behaved run in which every list ends inside `io_prp_list_mem`, completion
is exactly once, wherever the regions are mapped. -/
theorem exactlyOnce_of_run {mapped : Nat → Bool} {fioHasMrt : Bool} {n : NvmeData}
    {as : List Act} {s : Sys} (hFresh : FreshPair n)
    (hRun : Run (mappedStep mapped fioHasMrt)
      (fun s a => WellBehaved s a ∧ ListInside fioHasMrt s a) (start n) as s) :
    ExactlyOnce s :=
  exactlyOnce_of_steps hFresh ((isolated_of_run hRun).mono fun _ _ hOk => hOk.1)

theorem exactlyOnce_of_run_outOfOrderReads :
    ∃ s, exec (mappedStep (fun _ => true) true)
        (fun s a => decide (WellBehaved s a ∧ ListInside true s a)) (start lapPair)
        outOfOrderReads = some s ∧
      s.done.map Done.pos = [1, 0] ∧ s.delivered.length = 2 ∧ ExactlyOnce s := by
  have hEval : (exec (mappedStep (fun _ => true) true)
      (fun s a => decide (WellBehaved s a ∧ ListInside true s a)) (start lapPair)
      outOfOrderReads).any (fun s => decide (s.done.map Done.pos = [1, 0] ∧
        s.delivered.length = 2)) = true := by
    decide +kernel
  obtain ⟨s, hExec, hEnd⟩ := (Option.any_eq_true _ _).mp hEval
  obtain ⟨hOrder, hTwo⟩ := of_decide_eq_true hEnd
  exact ⟨s, hExec, hOrder, hTwo, exactlyOnce_of_run freshPair_lapPair
    (Run.of_exec (fun _ _ => of_decide_eq_true) hExec)⟩

/-- The list of the third read overwrites the entry of the second, which the device then
completes under a command id nobody has given out. -/
theorem exactlyOnce_longRead_false :
    ∃ s, Run (mappedStep (fun _ => true) true) WellBehaved (start lapPair)
        (oneUnfetched ++ [longRead, .fetch, .post 0 0, .getevents 1 1 false, .host, .host]) s ∧
      s.pc = .exited ∧ ¬ ExactlyOnce s := by
  have hEval : (exec (mappedStep (fun _ => true) true) (fun s a => decide (WellBehaved s a))
      (start lapPair)
      (oneUnfetched ++ [longRead, .fetch, .post 0 0, .getevents 1 1 false, .host, .host])).any
        (fun s => decide (s.pc = .exited)) = true := by
    decide +kernel
  obtain ⟨s, hExec, hExited⟩ := (Option.any_eq_true _ _).mp hEval
  exact ⟨s, Run.of_exec (fun _ _ => of_decide_eq_true) hExec, of_decide_eq_true hExited,
    fun h => h.running (of_decide_eq_true hExited)⟩

/-! ## The device is not overtaken -/

/-- The step leaves alone every entry that the device has been told about and has not
fetched: its stores into the submission queue do, and so do those of its list that land in
there. -/
def NotOvertaken (fioHasMrt : Bool) (s : Sys) : Act → Prop
  | .queue td c ioU => ∀ sub, nvmeQueue fioHasMrt td c s.nvme ioU = .queued sub →
      ∀ p e, s.fetched ≤ p → s.log[p]? = some e →
        (∀ st ∈ sub.sqStores, st.Avoids (nvmeIoSqEntrySize * e.slot.toNat)
          (nvmeIoSqEntrySize * e.slot.toNat + nvmeIoSqEntrySize)) ∧
        ∀ base ∈ behindPrpList s.nvme s.nvme.ioSqVirtAddr, ∀ st ∈ sub.prpStores,
          st.Avoids (base + nvmeIoSqEntrySize * e.slot.toNat)
            (base + nvmeIoSqEntrySize * e.slot.toNat + nvmeIoSqEntrySize)
  | _ => True

theorem Inv.notOvertaken {s : Sys} {known base got : Nat} (h : Inv s known base got)
    {fioHasMrt : Bool} {a : Act} (hInside : ListInside fioHasMrt s a) :
    NotOvertaken fioHasMrt s a := by
  cases a with
  | queue td c ioU =>
      intro sub hQueue p e hlo he
      refine ⟨h.sqStores_avoid hQueue hlo he, fun base hBase => ?_⟩
      have hBehind := behindPrpList_ge hBase
      have hEnd := hInside (QueueResult.isQueued_iff.mpr ⟨sub, hQueue⟩)
      refine ((tiles_prpStores hQueue).avoids_iff ?_).mpr (by omega)
      unfold nvmeIoSqEntrySize
      omega
  | getevents min max timed => trivial
  | host => trivial
  | giveUp => trivial
  | fetch => trivial
  | post i status => trivial

/-- In every state of every run in which every list ends inside `io_prp_list_mem`, on a
queue pair of depth at least two, back-pressure is exact and the next such step does not
overtake the device, wherever the regions are mapped. -/
theorem backPressure_of_run {mapped : Nat → Bool} {fioHasMrt : Bool} {n : NvmeData}
    {as : List Act} {s : Sys} (hFresh : FreshPair n) (hDepth : 2 ≤ n.ioSqDepth.toNat)
    (hRun : Run (mappedStep mapped fioHasMrt) (ListInside fioHasMrt) (start n) as s) :
    BackPressure fioHasMrt s ∧
      ∀ a, ListInside fioHasMrt s a → NotOvertaken fioHasMrt s a := by
  have hMapped : Run (mappedStep mapped fioHasMrt)
      (fun s a => True ∧ ListInside fioHasMrt s a) (start n) as s :=
    hRun.mono fun _ _ hOk => ⟨trivial, hOk⟩
  have hSteps := isolated_of_run hMapped
  obtain ⟨known, base, got, h⟩ := inv_of_run hFresh hSteps
  have hSame : s.nvme.ioSqDepth = n.ioSqDepth :=
    congrArg Geometry.sqDepth (geometry_of_run hSteps)
  exact ⟨h.backPressure (by rw [hSame]; exact hDepth) fioHasMrt,
    fun a hInside => h.notOvertaken hInside⟩

/-- The second of two reads completes first and is reaped, then the first completes, and a
third read takes the slot behind them. -/
def overtakenRead : List Act :=
  [readBy 0x100 512, readBy 0x200 512, .fetch, .fetch, .post 1 0] ++ reapOne ++
    [.post 0 0, readBy 0x200 512]

theorem backPressure_of_run_overtakenRead :
    ∃ s, exec (mappedStep (fun _ => true) true) (fun s a => decide (ListInside true s a))
        (start lapPair) overtakenRead = some s ∧
      s.done.map Done.pos = [1, 0] ∧ sqOccupancy s.nvme = 1 ∧ outstanding s = [0, 2] ∧
      BackPressure true s ∧ NotOvertaken true s (readBy 0x300 512) := by
  have hEval : (exec (mappedStep (fun _ => true) true)
      (fun s a => decide (ListInside true s a)) (start lapPair) overtakenRead).any
        (fun s => decide (s.done.map Done.pos = [1, 0] ∧ sqOccupancy s.nvme = 1 ∧
          outstanding s = [0, 2] ∧ ListInside true s (readBy 0x300 512))) = true := by
    decide +kernel
  obtain ⟨s, hExec, hEnd⟩ := (Option.any_eq_true _ _).mp hEval
  obtain ⟨hOrder, hOne, hTwo, hInside⟩ := of_decide_eq_true hEnd
  obtain ⟨hExact, hNext⟩ := backPressure_of_run freshPair_lapPair (by decide)
    (Run.of_exec (fun _ _ => of_decide_eq_true) hExec)
  exact ⟨s, hExec, hOrder, hOne, hTwo, hExact, hNext _ hInside⟩

/-- The list of the long read lands on the entry of slot 1, which the device has been told
about and has not fetched. -/
theorem notOvertaken_longRead_false :
    ∃ s, Run (mappedStep (fun _ => true) true) (fun _ _ => True) (start lapPair)
        oneUnfetched s ∧
      ¬ NotOvertaken true s longRead := by
  have hEval : (exec (mappedStep (fun _ => true) true) (fun _ _ => true) (start lapPair)
      oneUnfetched).any (fun s => decide (s.fetched = 1 ∧
        s.log[1]?.map Submitted.slot = some 1 ∧ s.nvme.ioSqTail.toNat = 2 ∧
        behindPrpList s.nvme s.nvme.ioSqVirtAddr = some 12288 ∧
        (nvmeQueue true smallThread smallController s.nvme
          { readInto 0x7000 (1024 * 4096) with addr := 0x200 }).isQueued = true ∧
        listBytes true smallThread s.nvme
          { readInto 0x7000 (1024 * 4096) with addr := 0x200 } = 8184)) = true := by
    decide +kernel
  obtain ⟨s, hExec, hEnd⟩ := (Option.any_eq_true _ _).mp hEval
  obtain ⟨hFetched, hSlot, hTail, hBase, hQueued, hBytes⟩ := of_decide_eq_true hEnd
  refine ⟨s, Run.of_exec (fun _ _ _ => trivial) hExec, fun h => ?_⟩
  obtain ⟨e, he, hAt⟩ := Option.map_eq_some_iff.mp hSlot
  obtain ⟨sub, hQueue⟩ := QueueResult.isQueued_iff.mp hQueued
  have hList := (h sub hQueue 1 e (by omega) he).2 12288 hBase
  -- The list covers the bytes from 8192 to 16376, and the entry begins at 12352.
  have hTiles := (tiles_prpStores hQueue).avoids_iff
    (a := 12288 + nvmeIoSqEntrySize * e.slot.toNat)
    (b := 12288 + nvmeIoSqEntrySize * e.slot.toNat + nvmeIoSqEntrySize)
    (by unfold nvmeIoSqEntrySize; omega)
  have hClear := hTiles.mp hList
  have hOne : e.slot.toNat = 1 := by rw [hAt]; rfl
  rw [hBytes, hTail, hOne] at hClear
  unfold nvmeIoSqEntrySize at hClear
  omega

end NewPerf.Engine
