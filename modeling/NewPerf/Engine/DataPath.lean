import NewPerf.Engine.BlockDevice
import NewPerf.Engine.PageReuse

/-!
# From requests to data

`Sys` follows a command from `nvme_queue` to the event `fio` collects, but not what the
command does.  A `World` adds that: the device keeps every entry it fetches, makes the
moves of commands in flight one at a time and in any order, each time looking up in
`io_prp_list_mem` what to move, and reports a command as done once its moves are made.
The host may store into the data region at any moment.

This file defines the world and says what the device sees of a submission: which bytes
its command is decoded from, and on which stores its moves depend.
-/

namespace NewPerf.Engine

open NewPerf.Lib.LeMemory
open NewPerf.Tools

/-! ## What a step of the engine leaves behind -/

/-- The part of `struct nvme_data` that `create_io_queue_pair` and `nvme_alloc` fixed: the
fields of the I/O path are reset. -/
def fixedPart (n : NvmeData) : NvmeData :=
  { n with
    ioSqHead := 0
    ioSqTail := 0
    icCqHead := 0
    ioCqPahse := 0
    ioCmdId := 0
    cmdIoU := fun _ => none
    events := fun _ => none
    nrEvents := 0 }

/-- The step concerns the host's variables and the completion ring only. -/
structure Quiet (s s' : Sys) : Prop where
  nvme : fixedPart s'.nvme = fixedPart s.nvme
  sq : s'.sq = s.sq
  prp : s'.prp = s.prp
  fetched : s'.fetched = s.fetched
  inflight : s'.inflight = s.inflight
  log : s'.log = s.log
  done : s'.done = s.done
  delivered : s'.delivered = s.delivered

/-- The call of `nvme_getevents` that the step returns from. -/
def returning (s : Sys) : Act → Option GetEvents
  | .host =>
      match s.pc with
      | .check g => if (g.completions : Int) ≥ toCInt g.min then some g else none
      | _ => none
  | .giveUp =>
      match s.pc with
      | .check g => some g
      | _ => none
  | _ => none

/-- The step is one of the host's, and no submission. -/
def Unseen (fioHasMrt : Bool) (s : Sys) : Act → Prop
  | .queue td c ioU => (nvmeQueue fioHasMrt td c s.nvme ioU).isQueued = false
  | .fetch | .post .. => False
  | a => returning s a = none

/-- Everything a step can do to memory, device and history. -/
inductive Outcome (fioHasMrt : Bool) (s : Sys) : Act → Sys → Prop where
  | queued {td : ThreadData} {c : ControllerData} {ioU : IoU} {sub : Submission}
      (hIdle : s.pc = .idle) (hQueue : nvmeQueue fioHasMrt td c s.nvme ioU = .queued sub) :
      Outcome fioHasMrt s (.queue td c ioU) (submitTo s ioU sub)
  | returned {a : Act} {g : GetEvents} (hReturn : returning s a = some g) :
      Outcome fioHasMrt s a (returnEvents s g)
  | fetched {s' : Sys} (hStep : fetchStep s = some s') : Outcome fioHasMrt s .fetch s'
  | posted {i : Nat} {status : UInt16} {s' : Sys} (hStep : postStep s i status = some s') :
      Outcome fioHasMrt s (.post i status) s'
  | quiet {a : Act} {s' : Sys} (hUnseen : Unseen fioHasMrt s a) (hQuiet : Quiet s s') :
      Outcome fioHasMrt s a s'

theorem Quiet.refl (s : Sys) : Quiet s s := ⟨rfl, rfl, rfl, rfl, rfl, rfl, rfl, rfl⟩

private theorem outcome_host {fioHasMrt : Bool} {s s' : Sys}
    (hStep : hostStep s = some s') : Outcome fioHasMrt s .host s' := by
  unfold hostStep at hStep
  split at hStep
  case h_1 => cases hStep
  case h_2 => cases hStep
  case h_3 g hPc =>
      have hNone : Unseen fioHasMrt s .host := by simp [Unseen, returning, hPc]
      split at hStep
      · cases hStep
        exact .quiet hNone ⟨rfl, rfl, rfl, rfl, rfl, rfl, rfl, rfl⟩
      · cases hStep
        exact .quiet hNone ⟨rfl, rfl, rfl, rfl, rfl, rfl, rfl, rfl⟩
  case h_4 g l hPc =>
      have hNone : Unseen fioHasMrt s .host := by simp [Unseen, returning, hPc]
      split at hStep
      · cases hStep
        exact .quiet hNone ⟨rfl, rfl, rfl, rfl, rfl, rfl, rfl, rfl⟩
      · rename_i hIter
        cases hStep
        obtain ⟨-, -, ioU, -, hn', -⟩ := pollIter_next hIter
        exact .quiet hNone ⟨by rw [hn']; rfl, rfl, rfl, rfl, rfl, rfl, rfl, rfl⟩
      · simp only [Option.some.injEq] at hStep
        rw [← hStep]
        refine .quiet hNone ⟨?_, rfl, rfl, rfl, rfl, rfl, rfl, rfl⟩
        unfold pollEnd
        split <;> rfl
  case h_5 g hPc =>
      split at hStep
      · rename_i hEnough
        cases hStep
        exact .returned (by simp only [returning, hPc, if_pos hEnough])
      · rename_i hMore
        cases hStep
        exact .quiet (by simp only [Unseen, returning, hPc, if_neg hMore])
          ⟨rfl, rfl, rfl, rfl, rfl, rfl, rfl, rfl⟩

theorem step_outcome {fioHasMrt : Bool} {s s' : Sys} {a : Act}
    (hStep : step fioHasMrt s a = some s') : Outcome fioHasMrt s a s' := by
  cases a with
  | queue td c ioU =>
      simp only [step] at hStep
      split at hStep
      · rename_i hIdle
        cases hQueue : nvmeQueue fioHasMrt td c s.nvme ioU with
        | queued sub =>
            simp only [hQueue, Option.some.injEq] at hStep
            rw [← hStep]
            exact .queued hIdle hQueue
        | busy =>
            simp only [hQueue, Option.some.injEq] at hStep
            rw [← hStep]
            exact .quiet (by simp only [Unseen, hQueue]; rfl) (Quiet.refl s)
        | completed error =>
            simp only [hQueue, Option.some.injEq] at hStep
            rw [← hStep]
            exact .quiet (by simp only [Unseen, hQueue]; rfl) (Quiet.refl s)
      · cases hStep
  | getevents min max timed =>
      simp only [step] at hStep
      split at hStep
      · cases hStep
        exact .quiet rfl ⟨rfl, rfl, rfl, rfl, rfl, rfl, rfl, rfl⟩
      · cases hStep
  | host => exact outcome_host hStep
  | giveUp =>
      simp only [step] at hStep
      split at hStep
      · rename_i g hPc
        split at hStep
        · cases hStep
          exact .returned (by simp only [returning, hPc])
        · cases hStep
      · cases hStep
  | fetch => exact .fetched hStep
  | post i status => exact .posted hStep

/-! ## The world -/

/-- The engine and the device with the data.  `commands` holds the entries fetched, in
the order of submission, and `moved` the moves made, each with the number of its
submission. -/
structure World where
  sys : Sys
  commands : List DeviceCommand := []
  storage : Storage
  moved : List (Nat × Nat) := []

inductive World.Act where
  /-- A step of the engine, or of the device in its queues. -/
  | engine (a : Engine.Act)
  /-- The device makes move number `k` of submission number `p`. -/
  | move (p k : Nat)
  /-- The host stores a byte into the data region. -/
  | fill (dst : Nat) (byte : UInt8)

/-- A command is reported as successful only when its moves have been made. -/
def World.CarriedOut (ns : Namespace) (w : World) (i : Nat) (status : UInt16) : Prop :=
  status.toNat % 2 ^ 11 = 0 → ∀ f ∈ w.sys.inflight[i]?, ∀ cmd ∈ w.commands[f.pos]?,
    ∀ k, k < (ns.deviceMoves w.sys.nvme w.sys.prp cmd).length → (f.pos, k) ∈ w.moved

instance (ns : Namespace) (w : World) (i : Nat) (status : UInt16) :
    Decidable (w.CarriedOut ns i status) :=
  inferInstanceAs (Decidable (_ = _ → ∀ f ∈ w.sys.inflight[i]?, ∀ cmd ∈ w.commands[f.pos]?,
    ∀ k, k < (ns.deviceMoves w.sys.nvme w.sys.prp cmd).length → (f.pos, k) ∈ w.moved))

def World.step (fioHasMrt : Bool) (ns : Namespace) (w : World) :
    World.Act → Option World
  | .engine .fetch => (Engine.step fioHasMrt w.sys .fetch).map fun s =>
      { w with
        sys := s
        commands := w.commands ++
          [commandAt w.sys.sq (w.sys.fetched % w.sys.nvme.ioSqDepth.toNat)] }
  | .engine (.post i status) =>
      if w.CarriedOut ns i status then
        (Engine.step fioHasMrt w.sys (.post i status)).map fun s => { w with sys := s }
      else none
  | .engine a => (Engine.step fioHasMrt w.sys a).map fun s => { w with sys := s }
  | .move p k =>
      if p ∈ w.sys.inflight.map Flight.pos ∧ ∀ made ∈ w.moved, made ≠ (p, k) then
        match w.commands[p]?.bind fun cmd =>
            (ns.deviceMoves w.sys.nvme w.sys.prp cmd)[k]? with
        | some (some m) =>
            some { w with storage := ns.make m w.storage, moved := w.moved ++ [(p, k)] }
        | _ => none
      else none
  | .fill dst byte => some { w with storage := ns.make (.fill dst byte) w.storage }

/-- Everything a step of the world can do. -/
inductive World.Moves (fioHasMrt : Bool) (ns : Namespace) (w : World) :
    World.Act → World → Prop where
  | engine {a : Engine.Act} {s' : Sys} (hFetch : a ≠ .fetch)
      (hPost : ∀ i status, a = .post i status → w.CarriedOut ns i status)
      (hStep : Engine.step fioHasMrt w.sys a = some s') :
      Moves fioHasMrt ns w (.engine a) { w with sys := s' }
  | fetch {s' : Sys} (hStep : Engine.step fioHasMrt w.sys .fetch = some s') :
      Moves fioHasMrt ns w (.engine .fetch)
        { w with
          sys := s'
          commands := w.commands ++
            [commandAt w.sys.sq (w.sys.fetched % w.sys.nvme.ioSqDepth.toNat)] }
  | move {p k : Nat} {cmd : DeviceCommand} {m : Move}
      (hFlight : p ∈ w.sys.inflight.map Flight.pos) (hNew : (p, k) ∉ w.moved)
      (hCmd : w.commands[p]? = some cmd)
      (hMove : (ns.deviceMoves w.sys.nvme w.sys.prp cmd)[k]? = some (some m)) :
      Moves fioHasMrt ns w (.move p k)
        { w with storage := ns.make m w.storage, moved := w.moved ++ [(p, k)] }
  | fill {dst : Nat} {byte : UInt8} :
      Moves fioHasMrt ns w (.fill dst byte)
        { w with storage := ns.make (.fill dst byte) w.storage }

theorem World.step_cases {fioHasMrt : Bool} {ns : Namespace} {w w' : World} {a : World.Act}
    (h : w.step fioHasMrt ns a = some w') : World.Moves fioHasMrt ns w a w' := by
  cases a with
  | engine a =>
      cases a with
      | fetch =>
          obtain ⟨s', hStep, rfl⟩ := Option.map_eq_some_iff.mp h
          exact .fetch hStep
      | post i status =>
          simp only [World.step] at h
          split at h
          · rename_i hCarried
            obtain ⟨s', hStep, rfl⟩ := Option.map_eq_some_iff.mp h
            refine .engine (by simp) (fun i' status' hEq => ?_) hStep
            cases hEq
            exact hCarried
          · cases h
      | queue td c ioU =>
          obtain ⟨s', hStep, rfl⟩ := Option.map_eq_some_iff.mp h
          exact .engine (by simp) (by simp) hStep
      | getevents min max timed =>
          obtain ⟨s', hStep, rfl⟩ := Option.map_eq_some_iff.mp h
          exact .engine (by simp) (by simp) hStep
      | host =>
          obtain ⟨s', hStep, rfl⟩ := Option.map_eq_some_iff.mp h
          exact .engine (by simp) (by simp) hStep
      | giveUp =>
          obtain ⟨s', hStep, rfl⟩ := Option.map_eq_some_iff.mp h
          exact .engine (by simp) (by simp) hStep
  | move p k =>
      simp only [World.step] at h
      split at h
      · rename_i hMay
        split at h
        · rename_i m hMove
          cases h
          obtain ⟨cmd, hCmd, hAt⟩ := Option.bind_eq_some_iff.mp hMove
          exact .move hMay.1 (fun hMade => hMay.2 _ hMade rfl) hCmd hAt
        · cases h
      · cases h
  | fill dst byte =>
      cases h
      exact .fill

/-- The world right after `create_io_queue_pair` and `nvme_alloc`. -/
def World.start (n : NvmeData) (st : Storage) : World :=
  { sys := Engine.start n, storage := st }

/-! ## What the device sees of a submission -/

/-- The command of submission number `p`: as it was fetched, or as it stands in its slot. -/
def World.command (w : World) (p : Nat) : DeviceCommand :=
  w.commands.getD p (commandAt w.sys.sq (p % w.sys.nvme.ioSqDepth.toNat))

/-- The command asks for the moves of the request, whatever `io_prp_list_mem` holds
besides the stores made for it. -/
def Determined (fioHasMrt : Bool) (ns : Namespace) (td : ThreadData) (n : NvmeData)
    (prp : Bytes) (e : Submitted) (cmd : DeviceCommand) : Prop :=
  ∀ prp', (∀ st ∈ e.prpStores, ∀ a, st.off ≤ a → a < st.off + st.width → prp' a = prp a) →
    ns.deviceMoves n prp' cmd = (requestMoves fioHasMrt td e.ioU).map some

/-- An entry is decoded from its own bytes. -/
theorem commandAt_congr {sq sq' : Bytes} {slot : Nat}
    (h : ∀ a, nvmeIoSqEntrySize * slot ≤ a → a < nvmeIoSqEntrySize * slot + nvmeIoSqEntrySize →
      sq a = sq' a) : commandAt sq slot = commandAt sq' slot := by
  have hRead : ∀ k width, k + width ≤ nvmeIoSqEntrySize →
      NewPerf.Lib.LeMemory.read sq (nvmeIoSqEntrySize * slot + k) width =
        NewPerf.Lib.LeMemory.read sq' (nvmeIoSqEntrySize * slot + k) width := by
    intro k width hk
    exact read_congr _ _ _ _ fun a hlo hhi => h a (by omega) (by omega)
  have hSize : nvmeIoSqEntrySize = 64 := rfl
  have hZero := hRead 0 1 (by omega)
  rw [Nat.add_zero] at hZero
  simp only [commandAt, decodeSqEntry, sqEntryPrp2, hZero, hRead 2 2 (by omega),
    hRead 4 4 (by omega), hRead 24 8 (by omega), hRead 32 8 (by omega), hRead 40 8 (by omega),
    hRead 40 4 (by omega), hRead 44 4 (by omega), hRead 48 4 (by omega),
    hRead 52 4 (by omega), hRead 56 4 (by omega), hRead 60 4 (by omega)]

/-- Only the regions matter to the device. -/
theorem deviceMoves_fixedPart (ns : Namespace) (n : NvmeData) (prp : Bytes)
    (cmd : DeviceCommand) :
    ns.deviceMoves (fixedPart n) prp cmd = ns.deviceMoves n prp cmd := by
  have hWord : ∀ addr, listWord (fixedPart n) prp addr = listWord n prp addr := fun _ => rfl
  have hList : ∀ count addr, listPointers (fixedPart n) prp count addr =
      listPointers n prp count addr := by
    intro count
    induction count with
    | zero => exact fun addr => rfl
    | succ count ih =>
        intro addr
        cases count with
        | zero => rfl
        | succ count => simp only [listPointers, hWord, ih]
  have hPages : ∀ prp1 prp2 count, pagePointers (fixedPart n) prp prp1 prp2 count =
      pagePointers n prp prp1 prp2 count := by
    intro prp1 prp2 count
    simp only [pagePointers, hList]
  have hOff : ∀ k, ns.transferOff (fixedPart n) prp cmd k = ns.transferOff n prp cmd k := by
    intro k
    simp only [Namespace.transferOff, hPages]
    rfl
  simp only [Namespace.deviceMoves, hOff]
  rfl

theorem deviceMoves_congr {n n' : NvmeData} (h : fixedPart n = fixedPart n')
    (ns : Namespace) (prp : Bytes) (cmd : DeviceCommand) :
    ns.deviceMoves n prp cmd = ns.deviceMoves n' prp cmd := by
  rw [← deviceMoves_fixedPart ns n, h, deviceMoves_fixedPart]

theorem ListPages.congr {n n' : NvmeData} (h : fixedPart n' = fixedPart n)
    (hList : ListPages n) : ListPages n' := by
  have hFixed : ListPages (fixedPart n) := ⟨⟨hList.regions.sq, hList.regions.prpList⟩,
    hList.aligned, hList.depth⟩
  rw [← h] at hFixed
  exact ⟨⟨hFixed.regions.sq, hFixed.regions.prpList⟩, hFixed.aligned, hFixed.depth⟩

/-- A request that can be expressed needs no more than the page of its slot. -/
theorem listBytes_expressed {fioHasMrt : Bool} {td : ThreadData} {c : ControllerData}
    {n : NvmeData} {ioU : IoU} (hLen : 0 < ioU.xferBuflen.toNat)
    (h : Expressed fioHasMrt td c n ioU) : listBytes fioHasMrt td n ioU ≤ 4096 := by
  have hRw : BufferInRegion td n ioU →
      bufferAddr td n ioU + ioU.xferBuflen.toNat < 2 ^ 64 →
      pagesTouched (bufferAddr td n ioU) ioU.xferBuflen.toNat ≤ 513 →
      prpListBytes (dataPhysAddr td n ioU).toNat ioU.xferBuflen.toNat ≤ 4096 := by
    intro hRegion hFit hPages
    have hCount := prpPageCount_eq_pagesTouched (bufferAddr td n ioU) ioU.xferBuflen.toNat
      hLen hRegion.len_lt
    have hPos : 0 < pagesTouched (bufferAddr td n ioU) ioU.xferBuflen.toNat := by
      unfold pagesTouched
      omega
    rw [hRegion.toNat_dataPhysAddr hFit, prpListBytes_le_iff, hCount]
    exact ⟨hPos, hPages⟩
  cases hDir : ioU.ddir with
  | read =>
      simp only [Expressed, hDir] at h
      simpa only [listBytes, hDir] using hRw h.1.1 h.1.2 h.2.2.1
  | write =>
      simp only [Expressed, hDir] at h
      simpa only [listBytes, hDir] using hRw h.1.1 h.1.2 h.2.2.1
  | trim =>
      simp only [Expressed, hDir] at h
      simp only [listBytes, hDir]
      split
      · have := h.1 ‹_›
        omega
      · omega
  | other => simp [listBytes, hDir]

end NewPerf.Engine
