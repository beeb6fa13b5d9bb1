import NewPerf.Engine.DataRefinement

/-!
# A submission, store by store

In `Sys` and `World` a call of `nvme_queue` is one step.  Here it is taken apart: the host
writes the PRP list or range table, then the submission queue entry, one store at a time,
rings the doorbell, and only then records the request in `cmd_io_u`.  The device fetches,
moves data and posts completions in between.

`Behind` relates such a moment to a state of `World`.  Up to the doorbell the submission
has not happened there, and from the doorbell on it has; what the stores in between change
is out of the device's sight, because it neither reads the slot at the tail nor the page
that goes with it.
-/

namespace NewPerf.Engine

open NewPerf.Lib.LeMemory
open NewPerf.Lib.Ring
open NewPerf.Lib.Runs
open NewPerf.Tools

/-! ## The code, one store at a time -/

/-- Where the host is in `nvme_queue`: the stores still to be made, or the doorbell rung
and the table still to be written. -/
inductive QueuePc where
  | outside
  | storing (ioU : IoU) (sub : Submission) (prpLeft sqLeft : List Store)
  | recording (ioU : IoU) (sub : Submission)

structure FineWorld where
  world : World
  queuePc : QueuePc := .outside

inductive FineAct where
  /-- A step of the world that is not a call of `nvme_queue`. -/
  | world (a : World.Act)
  /-- `nvme_queue` is called, and decides what to submit. -/
  | enter (td : ThreadData) (c : ControllerData) (ioU : IoU)
  /-- The next store into `io_prp_list_mem` or the submission queue. -/
  | store
  /-- The write to the tail doorbell. -/
  | ring
  /-- `n->cmd_io_u[cid] = io_u;` -/
  | record

def World.Act.isQueue : World.Act → Bool
  | .engine (.queue ..) => true
  | _ => false

/-- Steps that the thread in `nvme_queue` does not make. -/
def World.Act.elsewhere : World.Act → Bool
  | .engine .fetch => true
  | .engine (.post ..) => true
  | .engine _ => false
  | .move .. => true
  | .fill .. => true

def QueuePc.permits : QueuePc → World.Act → Bool
  | .outside, a => !a.isQueue
  | _, a => a.elsewhere

def World.withMemory (w : World) (sq prp : Bytes) : World :=
  { w with sys := { w.sys with sq := sq, prp := prp } }

def World.withTable (w : World) (table : UInt16 → Option IoU) : World :=
  { w with sys := { w.sys with nvme := { w.sys.nvme with cmdIoU := table } } }

def FineWorld.step (fioHasMrt : Bool) (ns : Namespace) (f : FineWorld) :
    FineAct → Option FineWorld
  | .world a =>
      if f.queuePc.permits a then
        (f.world.step fioHasMrt ns a).map fun w => { f with world := w }
      else none
  | .enter td c ioU =>
      match f.queuePc with
      | .outside =>
          if f.world.sys.pc = .idle then
            match nvmeQueue fioHasMrt td c f.world.sys.nvme ioU with
            | .queued sub =>
                some { f with queuePc := .storing ioU sub sub.prpStores sub.sqStores }
            | _ => some f
          else none
      | _ => none
  | .store =>
      match f.queuePc with
      | .storing ioU sub (st :: prpLeft) sqLeft =>
          some ⟨f.world.withMemory f.world.sys.sq (st.apply f.world.sys.prp),
            .storing ioU sub prpLeft sqLeft⟩
      | .storing ioU sub [] (st :: sqLeft) =>
          some ⟨f.world.withMemory (st.apply f.world.sys.sq) f.world.sys.prp,
            .storing ioU sub [] sqLeft⟩
      | _ => none
  | .ring =>
      match f.queuePc with
      | .storing ioU sub [] [] =>
          some ⟨{ f.world with
            sys := { f.world.sys with
              nvme := { sub.nvme with cmdIoU := f.world.sys.nvme.cmdIoU }
              sqTailDb := sub.doorbell
              log := f.world.sys.log ++
                [⟨ioU, sub.cmdId, f.world.sys.nvme.ioSqTail, sub.prpStores⟩] } },
            .recording ioU sub⟩
      | _ => none
  | .record =>
      match f.queuePc with
      | .recording ioU sub =>
          some ⟨f.world.withTable
            (Function.update f.world.sys.nvme.cmdIoU sub.cmdId (some ioU)), .outside⟩
      | _ => none

/-- The steps under consideration, as for `World`. -/
def FineOrderly (fioHasMrt : Bool) (td : ThreadData) (c : ControllerData) (f : FineWorld) :
    FineAct → Prop
  | .world a => Orderly fioHasMrt td c f.world a
  | .enter td' c' ioU => Orderly fioHasMrt td c f.world (.engine (.queue td' c' ioU))
  | _ => True

/-- How a step shows as a step of the world: a call that is turned down when it is entered,
and one that submits when the doorbell is rung.  The stores do not show. -/
def FineWorld.view (fioHasMrt : Bool) (td : ThreadData) (c : ControllerData) (f : FineWorld) :
    FineAct → List World.Act
  | .world a => [a]
  | .enter td' c' ioU =>
      if (nvmeQueue fioHasMrt td' c' f.world.sys.nvme ioU).isQueued then []
      else [.engine (.queue td' c' ioU)]
  | .store => []
  | .ring =>
      match f.queuePc with
      | .storing ioU _ [] [] => [.engine (.queue td c ioU)]
      | _ => []
  | .record => []

/-! ## The state of the world behind it -/

/-- Memory part way through the stores of a submission. -/
structure PartWay (s : Sys) (sub : Submission) (prpLeft sqLeft : List Store)
    (sq prp : Bytes) : Prop where
  sqMem : ∀ st ∈ sqLeft, st ∈ sub.sqStores
  prpMem : ∀ st ∈ prpLeft, st ∈ sub.prpStores
  sqEnd : applyAll sqLeft sq = applyAll sub.sqStores s.sq
  prpEnd : applyAll prpLeft prp = applyAll sub.prpStores s.prp
  sqSame : ∀ a, (∀ st ∈ sub.sqStores, a < st.off ∨ st.off + st.width ≤ a) → sq a = s.sq a
  prpSame : ∀ a, (∀ st ∈ sub.prpStores, a < st.off ∨ st.off + st.width ≤ a) →
    prp a = s.prp a

inductive Behind (fioHasMrt : Bool) (td : ThreadData) (c : ControllerData) :
    FineWorld → World → Prop where
  | outside {w : World} : Behind fioHasMrt td c ⟨w, .outside⟩ w
  | storing {w : World} {ioU : IoU} {sub : Submission} {prpLeft sqLeft : List Store}
      {sq prp : Bytes} (hIdle : w.sys.pc = .idle)
      (hQueue : nvmeQueue fioHasMrt td c w.sys.nvme ioU = .queued sub)
      (hOk : Orderly fioHasMrt td c w (.engine (.queue td c ioU)))
      (hPart : PartWay w.sys sub prpLeft sqLeft sq prp) :
      Behind fioHasMrt td c ⟨w.withMemory sq prp, .storing ioU sub prpLeft sqLeft⟩ w
  | recording {w : World} {ioU : IoU} {sub : Submission} {table : UInt16 → Option IoU}
      (hTable : w.sys.nvme.cmdIoU = Function.update table sub.cmdId (some ioU)) :
      Behind fioHasMrt td c ⟨w.withTable table, .recording ioU sub⟩ w

/-! ## Steps of the device while the host is in `nvme_queue` -/

/-- What the device and other threads leave alone. -/
structure Elsewhere (w w' : World) : Prop where
  pc : w'.sys.pc = w.sys.pc
  nvme : w'.sys.nvme = w.sys.nvme
  sq : w'.sys.sq = w.sys.sq
  prp : w'.sys.prp = w.sys.prp
  log : w'.sys.log = w.sys.log
  done : ∀ p, p ∈ w.sys.done.map Done.pos → p ∈ w'.sys.done.map Done.pos

section Steps

variable {fioHasMrt : Bool} {ns : Namespace} {td : ThreadData} {c : ControllerData}
  {n : NvmeData} {w w' : World}

private theorem postStep_eq {s : Sys} {i : Nat} {status : UInt16} {f : Flight}
    (hFull : (s.done.length + 1) % s.nvme.ioCqDepth.toNat ≠ s.cqHeadDb.toNat)
    (hf : s.inflight[i]? = some f) :
    postStep s i status = some { s with
      inflight := s.inflight.eraseIdx i
      cq := Function.update s.cq (s.done.length % s.nvme.ioCqDepth.toNat)
        (deviceCqe s f status)
      done := s.done ++ [⟨f.pos, s.fetched, deviceCqe s f status⟩] } := by
  simp only [postStep, if_neg hFull, hf]

private theorem elsewhere_of_step {a : World.Act} (hElse : a.elsewhere = true)
    (hStep : w.step fioHasMrt ns a = some w') : Elsewhere w w' := by
  cases World.step_cases hStep with
  | @engine a s' hFetch hPost hSys =>
      cases a with
      | post i status =>
          obtain ⟨-, f, -, rfl⟩ := postStep_cases hSys
          refine ⟨rfl, rfl, rfl, rfl, rfl, fun p hp => ?_⟩
          rw [List.map_append]
          exact List.mem_append_left _ hp
      | fetch => exact absurd rfl hFetch
      | queue td c ioU => cases hElse
      | getevents min max timed => cases hElse
      | host => cases hElse
      | giveUp => cases hElse
  | fetch hSys =>
      obtain ⟨-, rfl⟩ := fetchStep_cases hSys
      exact ⟨rfl, rfl, rfl, rfl, rfl, fun p hp => hp⟩
  | move => exact ⟨rfl, rfl, rfl, rfl, rfl, fun p hp => hp⟩
  | fill => exact ⟨rfl, rfl, rfl, rfl, rfl, fun p hp => hp⟩

/-- A submission that could be made can still be made: completions only take commands
out of flight. -/
private theorem Elsewhere.orderly (h : Elsewhere w w') {ioU : IoU}
    (hOk : Orderly fioHasMrt td c w (.engine (.queue td c ioU))) :
    Orderly fioHasMrt td c w' (.engine (.queue td c ioU)) := by
  obtain ⟨hTd, hC, hFree, hExpressed⟩ := hOk
  refine ⟨hTd, hC, ?_, ?_⟩
  · intro hQueued p hp hUse
    rw [h.nvme] at hQueued ⊢
    rw [h.log] at hp ⊢
    refine hFree hQueued p hp ⟨?_, fun hDone => hUse.2 (h.done p hDone)⟩
    have hStores := hUse.1
    rw [h.log] at hStores
    exact hStores
  · rw [h.nvme]
    exact hExpressed

private theorem Elsewhere.partWay (h : Elsewhere w w') {sub : Submission}
    {prpLeft sqLeft : List Store} {sq prp : Bytes}
    (hPart : PartWay w.sys sub prpLeft sqLeft sq prp) :
    PartWay w'.sys sub prpLeft sqLeft sq prp :=
  { sqMem := hPart.sqMem
    prpMem := hPart.prpMem
    sqEnd := by rw [h.sq]; exact hPart.sqEnd
    prpEnd := by rw [h.prp]; exact hPart.prpEnd
    sqSame := by rw [h.sq]; exact hPart.sqSame
    prpSame := by rw [h.prp]; exact hPart.prpSame }

/-- The device reads the same moves from memory in which a submission is being written. -/
private theorem deviceMoves_partWay (h : DataInv fioHasMrt ns td n w) {ioU : IoU}
    {sub : Submission} {prpLeft sqLeft : List Store} {sq prp : Bytes}
    (hQueue : nvmeQueue fioHasMrt td c w.sys.nvme ioU = .queued sub)
    (hFree : LapFree fioHasMrt w.sys (.queue td c ioU))
    (hPart : PartWay w.sys sub prpLeft sqLeft sq prp) {p : Nat} {cmd : DeviceCommand}
    (hp : p ∈ w.sys.inflight.map Flight.pos) (hCmd : w.commands[p]? = some cmd) :
    ns.deviceMoves w.sys.nvme prp cmd = ns.deviceMoves w.sys.nvme w.sys.prp cmd := by
  obtain ⟨known, base, got, hInv⟩ := h.inv
  obtain ⟨e, -, he, hOpen, -⟩ := h.flight hp
  have hAgree : ∀ st ∈ e.prpStores, ∀ a, st.off ≤ a → a < st.off + st.width →
      prp a = w.sys.prp a := by
    intro st hst a hlo hhi
    have hIn := h.confined p e he st hst
    have hUse : PageInUse w.sys p :=
      ⟨⟨e, by rw [he]; rfl, List.ne_nil_of_mem hst⟩, hOpen⟩
    refine hPart.prpSame a fun st' hst' => ?_
    have hAvoids := hFree.avoids hInv.slotInv hQueue he hUse st' hst'
    unfold Store.Within at hIn
    unfold Store.Avoids at hAvoids
    omega
  have hDetermined := h.determined p e he hOpen prp hAgree
  rw [World.command, List.getD_eq_getElem?_getD, hCmd, Option.getD_some] at hDetermined
  rw [h.deviceMoves_eq he hOpen hCmd, deviceMoves_congr h.fixed, hDetermined]

/-- So is the entry it fetches next. -/
private theorem commandAt_partWay (h : DataInv fioHasMrt ns td n w) {ioU : IoU}
    {sub : Submission} {prpLeft sqLeft : List Store} {sq prp : Bytes}
    (hQueue : nvmeQueue fioHasMrt td c w.sys.nvme ioU = .queued sub)
    (hPart : PartWay w.sys sub prpLeft sqLeft sq prp)
    (hSlot : w.sys.fetched % w.sys.nvme.ioSqDepth.toNat ≠ w.sys.sqTailDb.toNat) :
    commandAt sq (w.sys.fetched % w.sys.nvme.ioSqDepth.toNat) =
      commandAt w.sys.sq (w.sys.fetched % w.sys.nvme.ioSqDepth.toNat) := by
  obtain ⟨known, base, got, hInv⟩ := h.inv
  have hNe := hInv.unfetched_slot_ne (Nat.le_refl _) (hInv.fetched_lt hSlot)
  refine commandAt_congr fun a hlo hhi => hPart.sqSame a fun st hst => ?_
  have hWithin := (nvmeQueue_queued hQueue).1.sqConfined st hst
  unfold Store.Within sqEntryOff nvmeIoSqEntrySize at hWithin
  unfold nvmeIoSqEntrySize at hlo hhi
  omega

/-- A step of the device does not notice that a submission is being written. -/
private theorem step_withMemory (h : DataInv fioHasMrt ns td n w) {ioU : IoU}
    {sub : Submission} {prpLeft sqLeft : List Store} {sq prp : Bytes}
    (hQueue : nvmeQueue fioHasMrt td c w.sys.nvme ioU = .queued sub)
    (hFree : LapFree fioHasMrt w.sys (.queue td c ioU))
    (hPart : PartWay w.sys sub prpLeft sqLeft sq prp) {a : World.Act} {v : World}
    (hElse : a.elsewhere = true)
    (hStep : (w.withMemory sq prp).step fioHasMrt ns a = some v) :
    ∃ w', w.step fioHasMrt ns a = some w' ∧ v = w'.withMemory sq prp := by
  cases World.step_cases hStep with
  | @engine a s' hFetch hPost hSys =>
      cases a with
      | post i status =>
          obtain ⟨hFull, f, hf, rfl⟩ := postStep_cases hSys
          have hCarried : w.CarriedOut ns i status := by
            intro hSuccess f' hf' cmd hCmd k hk
            have hFlight : f'.pos ∈ w.sys.inflight.map Flight.pos :=
              List.mem_map_of_mem (List.mem_of_getElem? hf')
            rw [← deviceMoves_partWay h hQueue hFree hPart hFlight hCmd] at hk
            exact hPost i status rfl hSuccess f' hf' cmd hCmd k hk
          exact ⟨_, (if_pos hCarried).trans (congrArg (Option.map fun s => { w with sys := s })
            (postStep_eq (s := w.sys) hFull hf)), rfl⟩
      | fetch => exact absurd rfl hFetch
      | queue td c ioU => cases hElse
      | getevents min max timed => cases hElse
      | host => cases hElse
      | giveUp => cases hElse
  | fetch hSys =>
      obtain ⟨hSlot, rfl⟩ := fetchStep_cases hSys
      have hSlot : w.sys.fetched % w.sys.nvme.ioSqDepth.toNat ≠ w.sys.sqTailDb.toNat := hSlot
      have hCommand := commandAt_partWay h hQueue hPart hSlot
      have hCid : sqEntryCid sq (w.sys.fetched % w.sys.nvme.ioSqDepth.toNat) =
          sqEntryCid w.sys.sq (w.sys.fetched % w.sys.nvme.ioSqDepth.toNat) :=
        congrArg (fun cmd : DeviceCommand => UInt16.ofNat cmd.entry.cid) hCommand
      refine ⟨_, Option.map_eq_some_iff.mpr ⟨_, if_neg hSlot, rfl⟩, ?_⟩
      simp only [World.withMemory, hCommand, hCid]
  | @move p k cmd m hFlight hNew hCmd hMove =>
      have hFlight : p ∈ w.sys.inflight.map Flight.pos := hFlight
      have hMoves := deviceMoves_partWay h hQueue hFree hPart hFlight hCmd
      have hMove : (ns.deviceMoves w.sys.nvme prp cmd)[k]? = some (some m) := hMove
      rw [hMoves] at hMove
      have hCmd : w.commands[p]? = some cmd := hCmd
      refine ⟨{ w with storage := ns.make m w.storage, moved := w.moved ++ [(p, k)] },
        (if_pos ⟨hFlight, fun _ hMade hEq => hNew (hEq ▸ hMade)⟩).trans ?_, rfl⟩
      rw [hCmd, Option.bind_some, hMove]
  | fill => exact ⟨_, rfl, rfl⟩

/-- Nor does it look at `cmd_io_u`. -/
private theorem step_withTable {table : UInt16 → Option IoU} {a : World.Act} {v : World}
    (hElse : a.elsewhere = true)
    (hStep : (w.withTable table).step fioHasMrt ns a = some v) :
    ∃ w', w.step fioHasMrt ns a = some w' ∧ v = w'.withTable table := by
  have hMoves : ∀ prp cmd, ns.deviceMoves (w.withTable table).sys.nvme prp cmd =
      ns.deviceMoves w.sys.nvme prp cmd := by
    have hFixed : fixedPart (w.withTable table).sys.nvme = fixedPart w.sys.nvme := rfl
    exact fun prp cmd => deviceMoves_congr hFixed ns prp cmd
  cases World.step_cases hStep with
  | @engine a s' hFetch hPost hSys =>
      cases a with
      | post i status =>
          obtain ⟨hFull, f, hf, rfl⟩ := postStep_cases hSys
          have hCarried : w.CarriedOut ns i status := by
            intro hSuccess f' hf' cmd hCmd k hk
            rw [← hMoves] at hk
            exact hPost i status rfl hSuccess f' hf' cmd hCmd k hk
          exact ⟨_, (if_pos hCarried).trans (congrArg (Option.map fun s => { w with sys := s })
            (postStep_eq (s := w.sys) hFull hf)), rfl⟩
      | fetch => exact absurd rfl hFetch
      | queue td c ioU => cases hElse
      | getevents min max timed => cases hElse
      | host => cases hElse
      | giveUp => cases hElse
  | fetch hSys =>
      obtain ⟨hSlot, rfl⟩ := fetchStep_cases hSys
      have hSlot : w.sys.fetched % w.sys.nvme.ioSqDepth.toNat ≠ w.sys.sqTailDb.toNat := hSlot
      exact ⟨_, Option.map_eq_some_iff.mpr ⟨_, if_neg hSlot, rfl⟩, rfl⟩
  | @move p k cmd m hFlight hNew hCmd hMove =>
      have hCmd : w.commands[p]? = some cmd := hCmd
      rw [hMoves] at hMove
      refine ⟨{ w with storage := ns.make m w.storage, moved := w.moved ++ [(p, k)] },
        (if_pos ⟨hFlight, fun _ hMade hEq => hNew (hEq ▸ hMade)⟩).trans ?_, rfl⟩
      have hMove : (ns.deviceMoves w.sys.nvme w.sys.prp cmd)[k]? = some (some m) := hMove
      rw [hCmd, Option.bind_some, hMove]
  | fill => exact ⟨_, rfl, rfl⟩

/-- What is asked of the device's steps does not depend on the state. -/
private theorem orderly_elsewhere {a : World.Act} {v : World} (hElse : a.elsewhere = true)
    (hOk : Orderly fioHasMrt td c v a) : Orderly fioHasMrt td c w a := by
  cases a with
  | engine a =>
      cases a with
      | fetch => exact hOk
      | post i status => exact hOk
      | queue td c ioU => cases hElse
      | getevents min max timed => cases hElse
      | host => cases hElse
      | giveUp => cases hElse
  | move p k => exact hOk
  | fill dst byte => exact hOk

/-! ## Steps of the host in `nvme_queue` -/

private theorem partWay_start (s : Sys) (sub : Submission) :
    PartWay s sub sub.prpStores sub.sqStores s.sq s.prp :=
  ⟨fun _ hst => hst, fun _ hst => hst, rfl, rfl, fun _ _ => rfl, fun _ _ => rfl⟩

private theorem PartWay.storePrp {s : Sys} {sub : Submission} {st : Store}
    {prpLeft sqLeft : List Store} {sq prp : Bytes}
    (h : PartWay s sub (st :: prpLeft) sqLeft sq prp) :
    PartWay s sub prpLeft sqLeft sq (st.apply prp) :=
  { sqMem := h.sqMem
    prpMem := fun st' hst' => h.prpMem st' (List.mem_cons_of_mem st hst')
    sqEnd := h.sqEnd
    prpEnd := h.prpEnd
    sqSame := h.sqSame
    prpSame := fun a ha => by
      rw [apply_of_outside st prp a (ha st (h.prpMem st List.mem_cons_self))]
      exact h.prpSame a ha }

private theorem PartWay.storeSq {s : Sys} {sub : Submission} {st : Store}
    {prpLeft sqLeft : List Store} {sq prp : Bytes}
    (h : PartWay s sub prpLeft (st :: sqLeft) sq prp) :
    PartWay s sub prpLeft sqLeft (st.apply sq) prp :=
  { sqMem := fun st' hst' => h.sqMem st' (List.mem_cons_of_mem st hst')
    prpMem := h.prpMem
    sqEnd := h.sqEnd
    prpEnd := h.prpEnd
    sqSame := fun a ha => by
      rw [apply_of_outside st sq a (ha st (h.sqMem st List.mem_cons_self))]
      exact h.sqSame a ha
    prpSame := h.prpSame }

/-- With all stores made, the doorbell makes the submission happen. -/
private theorem ring_eq (ns : Namespace) {ioU : IoU} {sub : Submission} {sq prp : Bytes}
    (hIdle : w.sys.pc = .idle)
    (hQueue : nvmeQueue fioHasMrt td c w.sys.nvme ioU = .queued sub)
    (hPart : PartWay w.sys sub [] [] sq prp) :
    w.step fioHasMrt ns (.engine (.queue td c ioU)) =
        some { w with sys := submitTo w.sys ioU sub } ∧
      ({ w.withMemory sq prp with
          sys := { (w.withMemory sq prp).sys with
            nvme := { sub.nvme with cmdIoU := w.sys.nvme.cmdIoU }
            sqTailDb := sub.doorbell
            log := w.sys.log ++ [⟨ioU, sub.cmdId, w.sys.nvme.ioSqTail, sub.prpStores⟩] } } :
          World) =
        ({ w with sys := submitTo w.sys ioU sub } : World).withTable w.sys.nvme.cmdIoU := by
  constructor
  · simp only [World.step, Engine.step, if_pos hIdle, hQueue, Option.map_some]
  · have hSq : sq = applyAll sub.sqStores w.sys.sq := hPart.sqEnd
    have hPrp : prp = applyAll sub.prpStores w.sys.prp := hPart.prpEnd
    rw [hSq, hPrp]
    rfl

/-! ## Every step -/

/-- A call that is turned down changes nothing. -/
private theorem step_refused (ns : Namespace) {ioU : IoU} (hIdle : w.sys.pc = .idle)
    (hRefused : (nvmeQueue fioHasMrt td c w.sys.nvme ioU).isQueued = false) :
    w.step fioHasMrt ns (.engine (.queue td c ioU)) = some w := by
  cases hQueue : nvmeQueue fioHasMrt td c w.sys.nvme ioU with
  | queued sub =>
      rw [hQueue] at hRefused
      cases hRefused
  | busy => simp only [World.step, Engine.step, if_pos hIdle, hQueue, Option.map_some]
  | completed error =>
      simp only [World.step, Engine.step, if_pos hIdle, hQueue, Option.map_some]

/-- Whatever the host does next, the world behind it takes the step that it shows as, if
any. -/
private theorem Behind.step {f f' : FineWorld} (h : Behind fioHasMrt td c f w)
    (hInv : DataInv fioHasMrt ns td n w) {a : FineAct} (hOk : FineOrderly fioHasMrt td c f a)
    (hStep : f.step fioHasMrt ns a = some f') :
    ∃ w', Run (World.step fioHasMrt ns) (Orderly fioHasMrt td c) w
        (f.view fioHasMrt td c a) w' ∧
      Behind fioHasMrt td c f' w' := by
  cases a with
  | world a =>
      simp only [FineWorld.step] at hStep
      split at hStep
      · rename_i hPermits
        obtain ⟨v, hv, rfl⟩ := Option.map_eq_some_iff.mp hStep
        cases h with
        | outside => exact ⟨v, .single hOk hv, .outside⟩
        | storing hIdle hQueue hMay hPart =>
            obtain ⟨w', hw', rfl⟩ :=
              step_withMemory hInv hQueue hMay.2.2.1 hPart hPermits hv
            have hElse := elsewhere_of_step hPermits hw'
            exact ⟨w', .single (orderly_elsewhere hPermits hOk) hw',
              .storing (hElse.pc.trans hIdle) (by rw [hElse.nvme]; exact hQueue)
                (hElse.orderly hMay) (hElse.partWay hPart)⟩
        | recording hTable =>
            obtain ⟨w', hw', rfl⟩ := step_withTable hPermits hv
            have hElse := elsewhere_of_step hPermits hw'
            exact ⟨w', .single (orderly_elsewhere hPermits hOk) hw',
              .recording (by rw [hElse.nvme]; exact hTable)⟩
      · cases hStep
  | enter td' c' ioU =>
      cases h with
      | outside =>
          simp only [FineWorld.step] at hStep
          split at hStep
          · rename_i hIdle
            split at hStep
            · rename_i sub hQueue
              cases hStep
              have hView : (nvmeQueue fioHasMrt td' c' w.sys.nvme ioU).isQueued = true :=
                QueueResult.isQueued_iff.mpr ⟨sub, hQueue⟩
              simp only [FineWorld.view, hView, if_true]
              obtain ⟨rfl, rfl, hRest⟩ := hOk
              exact ⟨w, .nil,
                .storing hIdle hQueue ⟨rfl, rfl, hRest⟩ (partWay_start w.sys sub)⟩
            · rename_i hOther
              cases hStep
              have hRefused : (nvmeQueue fioHasMrt td' c' w.sys.nvme ioU).isQueued = false := by
                rw [← Bool.not_eq_true]
                intro hQueued
                obtain ⟨sub, hQueue⟩ := QueueResult.isQueued_iff.mp hQueued
                exact hOther sub hQueue
              simp only [FineWorld.view, hRefused, Bool.false_eq_true, if_false]
              exact ⟨w, .single hOk (step_refused ns hIdle hRefused), .outside⟩
          · cases hStep
      | storing => cases hStep
      | recording => cases hStep
  | store =>
      cases h with
      | outside => cases hStep
      | @storing _ ioU sub prpLeft sqLeft sq prp hIdle hQueue hMay hPart =>
          cases prpLeft with
          | cons st prpLeft =>
              cases hStep
              exact ⟨w, .nil, .storing hIdle hQueue hMay hPart.storePrp⟩
          | nil =>
              cases sqLeft with
              | nil => cases hStep
              | cons st sqLeft =>
                  cases hStep
                  exact ⟨w, .nil, .storing hIdle hQueue hMay hPart.storeSq⟩
      | recording => cases hStep
  | ring =>
      cases h with
      | outside => cases hStep
      | @storing _ ioU sub prpLeft sqLeft sq prp hIdle hQueue hMay hPart =>
          cases prpLeft with
          | cons st prpLeft => cases hStep
          | nil =>
              cases sqLeft with
              | cons st sqLeft => cases hStep
              | nil =>
                  obtain ⟨hWorld, hEq⟩ := ring_eq ns hIdle hQueue hPart
                  have hAcc := (nvmeQueue_queued hQueue).1
                  have hf' : f' = ⟨({ w with sys := submitTo w.sys ioU sub } :
                      World).withTable w.sys.nvme.cmdIoU, .recording ioU sub⟩ := by
                    rw [← hEq]
                    exact (Option.some.inj hStep).symm
                  rw [hf']
                  refine ⟨_, .single hMay hWorld, .recording ?_⟩
                  rw [submitTo, hAcc.nvme, hAcc.cmdId]
      | recording => cases hStep
  | record =>
      cases h with
      | outside => cases hStep
      | storing => cases hStep
      | @recording _ ioU sub table hTable =>
          have hf' : f' = ⟨w, .outside⟩ := by
            rw [← Option.some.inj hStep]
            simp only [World.withTable, ← hTable]
          rw [hf']
          exact ⟨w, .nil, .outside⟩

/-- What the stores of a submission do not change. -/
private theorem Behind.same {f : FineWorld} (h : Behind fioHasMrt td c f w) :
    w.storage = f.world.storage ∧ w.sys.log = f.world.sys.log ∧
      w.sys.done = f.world.sys.done ∧ w.sys.delivered = f.world.sys.delivered ∧
      (f.queuePc = .outside → w = f.world) := by
  cases h with
  | outside => exact ⟨rfl, rfl, rfl, rfl, fun _ => rfl⟩
  | storing => exact ⟨rfl, rfl, rfl, rfl, fun hPc => by cases hPc⟩
  | recording => exact ⟨rfl, rfl, rfl, rfl, fun hPc => by cases hPc⟩

end Steps

/-! ## Whole runs -/

section Runs

variable {fioHasMrt : Bool} {ns : Namespace} {td : ThreadData} {c : ControllerData}
  {n : NvmeData} {st : Storage}

/-- Whatever the device does between two stores of a submission, it could have done with
the submission made in one step: an orderly run of the code store by store shows as a run of
`World`, with the same media, buffers, submissions, completions and events. -/
theorem storeByStore_of_run {as : List FineAct} {f : FineWorld} (hFresh : FreshPair n)
    (hList : ListPages n) (hNs : ns.Matches c)
    (hRun : Run (FineWorld.step fioHasMrt ns) (FineOrderly fioHasMrt td c)
      ⟨World.start n st, .outside⟩ as f) :
    ∃ w, Run (World.step fioHasMrt ns) (Orderly fioHasMrt td c) (World.start n st)
        (seen (FineWorld.step fioHasMrt ns) (FineWorld.view fioHasMrt td c)
          ⟨World.start n st, .outside⟩ as) w ∧
      w.storage = f.world.storage ∧ w.sys.log = f.world.sys.log ∧
      w.sys.done = f.world.sys.done ∧ w.sys.delivered = f.world.sys.delivered ∧
      (f.queuePc = .outside → w = f.world) := by
  have hSimulated : ∃ w, Run (World.step fioHasMrt ns) (Orderly fioHasMrt td c)
      (World.start n st)
      (seen (FineWorld.step fioHasMrt ns) (FineWorld.view fioHasMrt td c)
        ⟨World.start n st, .outside⟩ as) w ∧
      DataInv fioHasMrt ns td n w ∧ Behind fioHasMrt td c f w := by
    refine hRun.simulated
      (R := fun f w => DataInv fioHasMrt ns td n w ∧ Behind fioHasMrt td c f w)
      ⟨dataInv_start hFresh, .outside⟩ ?_
    rintro f a f' w ⟨hInv, hBehind⟩ hOk hStep
    obtain ⟨w', hAnswer, hBehind'⟩ := hBehind.step hInv hOk hStep
    have hInv' := hAnswer.invariant hInv fun w a w' hw hOk hStep =>
      hw.step hList hNs hOk hStep
    exact ⟨w', hAnswer, hInv', hBehind'⟩
  obtain ⟨w, hWorld, -, hBehind⟩ := hSimulated
  exact ⟨w, hWorld, hBehind.same⟩

instance decidableFineOrderly (fioHasMrt : Bool) (td : ThreadData) (c : ControllerData)
    (f : FineWorld) (a : FineAct) : Decidable (FineOrderly fioHasMrt td c f a) :=
  match a with
  | .world a => inferInstanceAs (Decidable (Orderly fioHasMrt td c f.world a))
  | .enter td' c' ioU =>
      inferInstanceAs (Decidable (Orderly fioHasMrt td c f.world (.engine (.queue td' c' ioU))))
  | .store | .ring | .record => inferInstanceAs (Decidable True)

/-- A read of two bytes that the device carries out before it is recorded; the buffer is
written by another thread meanwhile. -/
def earlyDevice : List FineAct :=
  [.enter smallThread byteController (readInto 0x7000 2)] ++
    List.replicate 5 .store ++ [.world (.fill 1 9)] ++ List.replicate 3 .store ++
    [.ring, .world (.engine .fetch), .world (.move 0 1), .world (.move 0 0),
      .world (.engine (.post 0 0)), .record, .world (.engine (.getevents 1 1 false)),
      .world (.engine .host), .world (.engine .host), .world (.engine .host),
      .world (.engine .host)]

private theorem exec_earlyDevice :
    ∃ f : FineWorld, exec (FineWorld.step true byteNamespace)
        (fun f a => decide (FineOrderly true smallThread byteController f a))
        ⟨World.start smallPair ⟨fun _ => 0, fun _ => 5⟩, .outside⟩ earlyDevice = some f ∧
      f.world.sys.delivered.length = 1 ∧ f.world.storage.data 1 = 5 := by
  have hEval : (exec (FineWorld.step true byteNamespace)
      (fun f a => decide (FineOrderly true smallThread byteController f a))
      ⟨World.start smallPair ⟨fun _ => 0, fun _ => 5⟩, .outside⟩ earlyDevice).any
        (fun f => f.world.sys.delivered.length == 1 && f.world.storage.data 1 == 5) = true := by
    decide +kernel
  obtain ⟨f, hExec, hEnd⟩ := (Option.any_eq_true _ _).mp hEval
  simp only [Bool.and_eq_true, beq_iff_eq] at hEnd
  exact ⟨f, hExec, hEnd⟩

theorem storeByStore_of_run_earlyDevice :
    ∃ f : FineWorld, (f.world.sys.delivered.length = 1 ∧ f.world.storage.data 1 = 5) ∧
      ∃ w, Run (World.step true byteNamespace) (Orderly true smallThread byteController)
          (World.start smallPair ⟨fun _ => 0, fun _ => 5⟩)
          (seen (FineWorld.step true byteNamespace)
            (FineWorld.view true smallThread byteController)
            ⟨World.start smallPair ⟨fun _ => 0, fun _ => 5⟩, .outside⟩ earlyDevice) w ∧
        w.storage = f.world.storage ∧ w.sys.log = f.world.sys.log ∧
        w.sys.done = f.world.sys.done ∧ w.sys.delivered = f.world.sys.delivered ∧
        (f.queuePc = .outside → w = f.world) := by
  obtain ⟨f, hExec, hEnd⟩ := exec_earlyDevice
  exact ⟨f, hEnd, storeByStore_of_run freshPair_smallPair listPages_smallPair
    matches_byteNamespace (Run.of_exec (fun _ _ => of_decide_eq_true) hExec)⟩

end Runs

end NewPerf.Engine
