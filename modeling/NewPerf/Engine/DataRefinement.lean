import NewPerf.Engine.DataPath
import NewPerf.Lib.Transfers

/-!
# The engine is an asynchronous machine for `fio`'s requests

A `World` is an asynchronous machine in the sense of `Lib.Transfers`, with `fio`'s requests
as the requests and the moves they ask for as the moves.  `DataInv` says why: at every
moment the command of each submission that is not done asks for the moves of its request,
because the stores made for it are still where it points to.  From this every step of the
world is the step of that machine that is seen of it, or none (`Represents.step`).
-/

namespace NewPerf.Engine

open NewPerf.Lib.LeMemory
open NewPerf.Lib.Logs
open NewPerf.Lib.Ring
open NewPerf.Lib.Runs
open NewPerf.Lib.Transfers
open NewPerf.Tools

/-- The steps under consideration: one thread with one controller submits requests that can
be expressed, never over the page of a command in flight; `nvme_getevents` is asked for at
most `INT_MAX` events, and commands succeed. -/
def Orderly (fioHasMrt : Bool) (td : ThreadData) (c : ControllerData) (w : World) :
    World.Act → Prop
  | .engine (.queue td' c' ioU) =>
      td' = td ∧ c' = c ∧ LapFree fioHasMrt w.sys (.queue td c ioU) ∧
        ((nvmeQueue fioHasMrt td c w.sys.nvme ioU).isQueued = true →
          Expressed fioHasMrt td c w.sys.nvme ioU)
  | .engine a => WellBehaved w.sys a
  | .move .. => True
  | .fill .. => True

deriving instance DecidableEq for ThreadData

instance decidableOrderly (fioHasMrt : Bool) (td : ThreadData) (c : ControllerData)
    (w : World) (a : World.Act) : Decidable (Orderly fioHasMrt td c w a) :=
  match a with
  | .engine (.queue ..) => inferInstanceAs (Decidable (_ ∧ _ ∧ _ ∧ (_ → _)))
  | .engine (.getevents min max timed) =>
      inferInstanceAs (Decidable (WellBehaved w.sys (.getevents min max timed)))
  | .engine (.post i status) =>
      inferInstanceAs (Decidable (WellBehaved w.sys (.post i status)))
  | .engine .host | .engine .giveUp | .engine .fetch | .move .. | .fill .. =>
      inferInstanceAs (Decidable True)

/-- What the device sees is what was asked for. -/
structure DataInv (fioHasMrt : Bool) (ns : Namespace) (td : ThreadData) (n : NvmeData)
    (w : World) : Prop where
  inv : ∃ known base got, Inv w.sys known base got
  fixed : fixedPart w.sys.nvme = fixedPart n
  commands : w.commands.length = w.sys.fetched
  confined : ∀ (p : Nat) (e : Submitted), w.sys.log[p]? = some e → ∀ st ∈ e.prpStores,
    st.Within (4096 * e.slot.toNat) (4096 * e.slot.toNat + 4096)
  determined : ∀ (p : Nat) (e : Submitted), w.sys.log[p]? = some e → p ∉ w.sys.done.map Done.pos →
    Determined fioHasMrt ns td n w.sys.prp e (w.command p)

/-- The asynchronous machine that the world is. -/
structure Represents (w : World) (t : Async IoU Storage) : Prop where
  data : t.data = w.storage
  log : t.log = w.sys.log.map Submitted.ioU
  moved : t.moved = w.moved
  done : t.done = w.sys.done.map Done.pos
  got : t.got = w.sys.delivered.length

/-- What `fio` and its data see of a step of the world: the requests submitted, the host's own
stores, the moves of bytes, the requests completed and the events handed out. -/
def World.view (fioHasMrt : Bool) (w : World) : World.Act → List (AsyncAct IoU Move)
  | .engine (.queue td c ioU) =>
      if (nvmeQueue fioHasMrt td c w.sys.nvme ioU).isQueued then [.submit ioU] else []
  | .engine (.post i _) => (w.sys.inflight[i]?).toList.map fun f => .complete f.pos
  | .engine a => (returning w.sys a).toList.map fun g => .deliver g.completions
  | .move p k => [.move p k]
  | .fill dst byte => [.touch (.fill dst byte)]

section Steps

variable {fioHasMrt : Bool} {ns : Namespace} {td : ThreadData} {c : ControllerData}
  {n : NvmeData} {w w' : World} {t : Async IoU Storage}

/-! ## The invariant -/

theorem dataInv_start {st : Storage} (hFresh : FreshPair n) :
    DataInv fioHasMrt ns td n (World.start n st) :=
  { inv := ⟨0, 0, 0, inv_start hFresh⟩
    fixed := rfl
    commands := rfl
    confined := by simp [World.start, start]
    determined := by simp [World.start, start] }

/-- Steps that leave the queues and the lists alone. -/
private theorem DataInv.quiet (h : DataInv fioHasMrt ns td n w) {s' : Sys}
    (hInv : ∃ known base got, Inv s' known base got)
    (hNvme : fixedPart s'.nvme = fixedPart w.sys.nvme) (hSq : s'.sq = w.sys.sq)
    (hPrp : s'.prp = w.sys.prp) (hFetched : s'.fetched = w.sys.fetched)
    (hLog : s'.log = w.sys.log)
    (hDone : ∀ p, p ∈ w.sys.done.map Done.pos → p ∈ s'.done.map Done.pos) :
    DataInv fioHasMrt ns td n { w with sys := s' } :=
  { inv := hInv
    fixed := hNvme.trans h.fixed
    commands := by rw [hFetched]; exact h.commands
    confined := by rw [hLog]; exact h.confined
    determined := by
      have hDepth : s'.nvme.ioSqDepth = w.sys.nvme.ioSqDepth :=
        show (fixedPart s'.nvme).ioSqDepth = (fixedPart w.sys.nvme).ioSqDepth by rw [hNvme]
      have hCommand : ∀ p, ({ w with sys := s' } : World).command p = w.command p := by
        intro p
        simp only [World.command, hSq, hDepth]
      intro p e he hOpen
      rw [hCommand, hPrp]
      rw [hLog] at he
      exact h.determined p e he fun hMem => hOpen (hDone p hMem) }

/-- The device takes over the entry it fetches. -/
private theorem DataInv.fetch (h : DataInv fioHasMrt ns td n w) {s' : Sys}
    (hInv : ∃ known base got, Inv s' known base got) (hStep : fetchStep w.sys = some s') :
    DataInv fioHasMrt ns td n
      { w with
        sys := s'
        commands := w.commands ++
          [commandAt w.sys.sq (w.sys.fetched % w.sys.nvme.ioSqDepth.toNat)] } := by
  unfold fetchStep at hStep
  dsimp only at hStep
  split at hStep
  · cases hStep
  cases hStep
  refine
    { inv := hInv
      fixed := h.fixed
      commands := by simp [h.commands]
      confined := h.confined
      determined := fun p e he hOpen => ?_ }
  have hCommand : (w.commands ++
      [commandAt w.sys.sq (w.sys.fetched % w.sys.nvme.ioSqDepth.toNat)]).getD p
        (commandAt w.sys.sq (p % w.sys.nvme.ioSqDepth.toNat)) = w.command p := by
    rw [World.command, List.getD_eq_getElem?_getD, List.getD_eq_getElem?_getD,
      getElem?_concat_eq, h.commands]
    split
    · rename_i hp
      rw [hp, List.getElem?_eq_none (Nat.le_of_eq h.commands)]
      rfl
    · rfl
  have hOld := h.determined p e he hOpen
  rw [← hCommand] at hOld
  exact hOld

/-- A new submission is determined by the stores made for it, and leaves those of the
commands in flight alone. -/
private theorem DataInv.submit (h : DataInv fioHasMrt ns td n w) (hList : ListPages n)
    (hNs : ns.Matches c) {ioU : IoU} {sub : Submission}
    (hInv' : ∃ known base got, Inv (submitTo w.sys ioU sub) known base got)
    (hQueue : nvmeQueue fioHasMrt td c w.sys.nvme ioU = .queued sub)
    (hFree : LapFree fioHasMrt w.sys (.queue td c ioU))
    (hExpressed : Expressed fioHasMrt td c w.sys.nvme ioU) :
    DataInv fioHasMrt ns td n { w with sys := submitTo w.sys ioU sub } := by
  obtain ⟨known, base, got, hInv⟩ := h.inv
  obtain ⟨hAcc, hExpr, -⟩ := nvmeQueue_queued hQueue
  have hTiles := tiles_prpStores hQueue
  have hBytes := listBytes_expressed hExpr.len_pos hExpressed
  have hDepth : sub.nvme.ioSqDepth = w.sys.nvme.ioSqDepth := by rw [hAcc.nvme]
  have hSlot : w.sys.nvme.ioSqTail.toNat < w.sys.nvme.ioSqDepth.toNat := by
    rw [hInv.sq.tail]
    exact Nat.mod_lt _ hInv.sq.depth_pos
  refine
    { inv := hInv'
      fixed := ?_
      commands := h.commands
      confined := fun p e he => ?_
      determined := fun p e he hOpen => ?_ }
  · exact Eq.trans (by rw [submitTo, hAcc.nvme]; rfl) h.fixed
  · rcases getElem?_concat_cases he with hOld | ⟨-, rfl⟩
    · exact h.confined p e hOld
    · exact (hTiles.within_iff _ (Nat.le_refl _)).mpr (by dsimp only; omega)
  · rcases getElem?_concat_cases he with hOld | ⟨rfl, rfl⟩
    · -- The stores of an older submission have not been touched.
      have hCommand : ({ w with sys := submitTo w.sys ioU sub } : World).command p =
          w.command p := by
        simp only [World.command, List.getD_eq_getElem?_getD, submitTo, hDepth]
        rcases Nat.lt_or_ge p w.sys.fetched with hlt | hge
        · rw [List.getElem?_eq_getElem (by rw [h.commands]; exact hlt)]
          rfl
        · rw [List.getElem?_eq_none (by rw [h.commands]; exact hge)]
          refine commandAt_congr fun a hlo hhi => ?_
          refine applyAll_of_outside sub.sqStores w.sys.sq _ _ (fun st hst => ?_) a hlo hhi
          have hWithin := hAcc.sqConfined st hst
          have hNe := hInv.unfetched_slot_ne hge (List.getElem?_eq_some_iff.mp hOld).1
          unfold Store.Within sqEntryOff nvmeIoSqEntrySize at hWithin
          unfold nvmeIoSqEntrySize
          omega
      rw [hCommand]
      intro prp' hAgree
      refine h.determined p e hOld hOpen prp' fun st hst a hlo hhi => ?_
      rw [hAgree st hst a hlo hhi]
      have hIn := h.confined p e hOld st hst
      have hUse : PageInUse w.sys p :=
        ⟨⟨e, by rw [hOld]; rfl, List.ne_nil_of_mem hst⟩, hOpen⟩
      unfold Store.Within at hIn
      have hAvoids := hFree.avoids hInv.slotInv hQueue hOld hUse
      exact applyAll_of_outside sub.prpStores w.sys.prp _ _ hAvoids a (by omega) (by omega)
    · -- The new command is read off the stores just made.
      have hCommand : ({ w with sys := submitTo w.sys ioU sub } : World).command
          w.sys.log.length =
            commandAt (applyAll sub.sqStores w.sys.sq) w.sys.nvme.ioSqTail.toNat := by
        have hFetched := hInv.sq.fetched_le
        simp only [World.command, List.getD_eq_getElem?_getD, submitTo, hDepth]
        rw [List.getElem?_eq_none (by rw [h.commands]; exact hFetched), hInv.sq.tail]
        rfl
      rw [hCommand]
      intro prp' hAgree
      have hStored : applyAll sub.prpStores prp' = prp' := applyAll_of_stored hAgree
      rw [← deviceMoves_congr h.fixed, ← hStored]
      exact deviceMoves_queued (hList.congr h.fixed) hSlot hNs hQueue hExpressed _ _

/-- Every step of an orderly run keeps the invariant. -/
theorem DataInv.step (h : DataInv fioHasMrt ns td n w) (hList : ListPages n)
    (hNs : ns.Matches c) {a : World.Act} (hOk : Orderly fioHasMrt td c w a)
    (hStep : w.step fioHasMrt ns a = some w') : DataInv fioHasMrt ns td n w' := by
  obtain ⟨known, base, got, hInv⟩ := h.inv
  cases World.step_cases hStep with
  | @engine a s' hFetch hPost hSys =>
      have hInv' := inv_step hInv hSys
      cases step_outcome hSys with
      | queued hIdle hQueue =>
          obtain ⟨rfl, rfl, hFree, hExpressed⟩ := hOk
          exact h.submit hList hNs hInv' hQueue hFree
            (hExpressed (QueueResult.isQueued_iff.mpr ⟨_, hQueue⟩))
      | returned _ =>
          exact h.quiet hInv' rfl rfl rfl rfl rfl fun p hp => hp
      | fetched => exact absurd rfl hFetch
      | posted hPosted =>
          obtain ⟨-, f, -, rfl⟩ := postStep_cases hPosted
          refine h.quiet hInv' rfl rfl rfl rfl rfl fun p hp => ?_
          rw [List.map_append]
          exact List.mem_append_left _ hp
      | quiet _ hQuiet =>
          refine h.quiet hInv' hQuiet.nvme hQuiet.sq hQuiet.prp hQuiet.fetched hQuiet.log
            fun p hp => ?_
          rw [hQuiet.done]
          exact hp
  | fetch hSys => exact h.fetch (inv_step hInv hSys) hSys
  | move hFlight hNew hCmd hMove =>
      exact
        { inv := h.inv
          fixed := h.fixed
          commands := h.commands
          confined := h.confined
          determined := h.determined }
  | fill =>
      exact
        { inv := h.inv
          fixed := h.fixed
          commands := h.commands
          confined := h.confined
          determined := h.determined }

/-! ## The machine -/

/-- What the device finds for a command in flight. -/
theorem DataInv.deviceMoves_eq (h : DataInv fioHasMrt ns td n w) {p : Nat} {e : Submitted}
    {cmd : DeviceCommand} (he : w.sys.log[p]? = some e)
    (hOpen : p ∉ w.sys.done.map Done.pos) (hCmd : w.commands[p]? = some cmd) :
    ns.deviceMoves w.sys.nvme w.sys.prp cmd = (requestMoves fioHasMrt td e.ioU).map some := by
  have hDetermined := h.determined p e he hOpen w.sys.prp fun _ _ _ _ _ => rfl
  rw [World.command, List.getD_eq_getElem?_getD, hCmd, Option.getD_some] at hDetermined
  rw [deviceMoves_congr h.fixed]
  exact hDetermined

/-- A command in flight has been submitted, fetched and not completed. -/
theorem DataInv.flight (h : DataInv fioHasMrt ns td n w) {p : Nat}
    (hp : p ∈ w.sys.inflight.map Flight.pos) :
    ∃ (e : Submitted) (cmd : DeviceCommand), w.sys.log[p]? = some e ∧
      p ∉ w.sys.done.map Done.pos ∧ w.commands[p]? = some cmd := by
  obtain ⟨known, base, got, hInv⟩ := h.inv
  have hLt : p < w.sys.fetched :=
    List.mem_range.mp (hInv.dev.partition.mem_iff.mp (List.mem_append_left _ hp))
  have hOpen : p ∉ w.sys.done.map Done.pos := fun hDone =>
    List.disjoint_of_nodup_append hInv.dev.nodup hp hDone
  have hFetched := hInv.sq.fetched_le
  exact ⟨_, _, List.getElem?_eq_getElem (Nat.lt_of_lt_of_le hLt hFetched), hOpen,
    List.getElem?_eq_getElem (by rw [h.commands]; exact hLt)⟩

private theorem Represents.move (h : Represents w t) (hInv : DataInv fioHasMrt ns td n w)
    {p k : Nat} {cmd : DeviceCommand} {m : Move}
    (hFlight : p ∈ w.sys.inflight.map Flight.pos) (hNew : (p, k) ∉ w.moved)
    (hCmd : w.commands[p]? = some cmd)
    (hMove : (ns.deviceMoves w.sys.nvme w.sys.prp cmd)[k]? = some (some m)) :
    t.step (requestMoves fioHasMrt td) ns.make (.move p k) =
      some { t with data := ns.make m t.data, moved := t.moved ++ [(p, k)] } := by
  obtain ⟨e, -, he, hOpen, -⟩ := hInv.flight hFlight
  rw [hInv.deviceMoves_eq he hOpen hCmd, List.getElem?_map] at hMove
  have hAt : moveAt (requestMoves fioHasMrt td) t.log p k = some m := by
    rw [moveAt, h.log, List.getElem?_map, he]
    simpa using hMove
  have hMay : ¬ (p ∈ t.done ∨ (p, k) ∈ t.moved) := by
    rw [h.done, h.moved, not_or]
    exact ⟨hOpen, hNew⟩
  rw [Async.step, if_neg hMay, hAt]
  rfl

private theorem Represents.complete (h : Represents w t) (hInv : DataInv fioHasMrt ns td n w)
    {i : Nat} {status : UInt16} {f : Flight} (hSuccess : status.toNat % 2 ^ 11 = 0)
    (hf : w.sys.inflight[i]? = some f) (hCarried : w.CarriedOut ns i status) :
    t.step (requestMoves fioHasMrt td) ns.make (.complete f.pos) =
      some { t with done := t.done ++ [f.pos] } := by
  obtain ⟨e, cmd, he, hOpen, hCmd⟩ :=
    hInv.flight (List.mem_map_of_mem (List.mem_of_getElem? hf))
  have hAll := hCarried hSuccess f hf cmd hCmd
  rw [hInv.deviceMoves_eq he hOpen hCmd, List.length_map] at hAll
  have hLog : t.log[f.pos]? = some e.ioU := by
    rw [h.log, List.getElem?_map, he]
    rfl
  simp only [Async.step, hLog, h.done, h.moved]
  exact if_pos ⟨hOpen, hAll⟩

theorem view_returning {a : Act} {g : GetEvents} (h : returning w.sys a = some g) :
    w.view fioHasMrt (.engine a) = [.deliver g.completions] := by
  cases a with
  | host => simp only [World.view, h, Option.toList_some, List.map_singleton]
  | giveUp => simp only [World.view, h, Option.toList_some, List.map_singleton]
  | queue td c ioU => cases h
  | getevents min max timed => cases h
  | fetch => cases h
  | post i status => cases h

theorem view_unseen {a : Act} (h : Unseen fioHasMrt w.sys a) :
    w.view fioHasMrt (.engine a) = [] := by
  cases a with
  | queue td c ioU =>
      simp only [Unseen] at h
      simp only [World.view, h, Bool.false_eq_true, if_false]
  | getevents min max timed => rfl
  | host =>
      simp only [Unseen] at h
      simp only [World.view, h, Option.toList_none, List.map_nil]
  | giveUp =>
      simp only [Unseen] at h
      simp only [World.view, h, Option.toList_none, List.map_nil]
  | fetch => exact h.elim
  | post i status => exact h.elim

/-- A step of the world is the step of the machine that is seen of it, or none. -/
theorem Represents.step (h : Represents w t) (hInv : DataInv fioHasMrt ns td n w)
    (hInv' : DataInv fioHasMrt ns td n w') {a : World.Act}
    (hOk : Orderly fioHasMrt td c w a) (hStep : w.step fioHasMrt ns a = some w') :
    (w.view fioHasMrt a = [] ∧ Represents w' t) ∨
      ∃ b t', w.view fioHasMrt a = [b] ∧
        t.step (requestMoves fioHasMrt td) ns.make b = some t' ∧ Represents w' t' := by
  cases World.step_cases hStep with
  | @engine a s' hFetch hPost hSys =>
      cases step_outcome hSys with
      | @queued td' c' ioU sub hIdle hQueue =>
          have hQueued : (nvmeQueue fioHasMrt td' c' w.sys.nvme ioU).isQueued = true :=
            QueueResult.isQueued_iff.mpr ⟨_, hQueue⟩
          refine .inr ⟨.submit ioU, _, by simp only [World.view, hQueued, if_true], rfl, ?_⟩
          exact
            { data := h.data
              log := by simp [submitTo, h.log]
              moved := h.moved
              done := h.done
              got := h.got }
      | @returned a g hReturn =>
          -- The events handed out were completed before.
          obtain ⟨known, base, got, hAfter⟩ := hInv'.inv
          have hLength := congrArg List.length hAfter.table.delivered
          simp only [returnEvents, List.length_append, List.length_map, List.length_range,
            List.length_take] at hLength
          have hRoom : t.got + g.completions ≤ t.done.length := by
            rw [h.got, h.done, List.length_map]
            omega
          refine .inr ⟨.deliver g.completions, _, view_returning hReturn, if_pos hRoom, ?_⟩
          exact
            { data := h.data
              log := h.log
              moved := h.moved
              done := h.done
              got := by simp [returnEvents, h.got] }
      | fetched => exact absurd rfl hFetch
      | @posted i status s' hPosted =>
          obtain ⟨-, f, hf, rfl⟩ := postStep_cases hPosted
          refine .inr ⟨.complete f.pos, _, ?_, h.complete hInv hOk hf (hPost i status rfl), ?_⟩
          · simp only [World.view, hf, Option.toList_some, List.map_singleton]
          exact
            { data := h.data
              log := h.log
              moved := h.moved
              done := by simp [h.done]
              got := h.got }
      | quiet hUnseen hQuiet =>
          exact .inl ⟨view_unseen hUnseen,
            { data := h.data
              log := by rw [hQuiet.log]; exact h.log
              moved := h.moved
              done := by rw [hQuiet.done]; exact h.done
              got := by rw [hQuiet.delivered]; exact h.got }⟩
  | fetch hSys =>
      obtain ⟨-, rfl⟩ := fetchStep_cases hSys
      exact .inl ⟨rfl, h.data, h.log, h.moved, h.done, h.got⟩
  | @move p k cmd m hFlight hNew hCmd hMove =>
      refine .inr ⟨.move p k, _, rfl, h.move hInv hFlight hNew hCmd hMove, ?_⟩
      exact
        { data := by rw [h.data]
          log := h.log
          moved := by rw [h.moved]
          done := h.done
          got := h.got }
  | @fill dst byte =>
      exact .inr ⟨.touch (.fill dst byte), _, rfl, rfl,
        { data := by rw [h.data]
          log := h.log
          moved := h.moved
          done := h.done
          got := h.got }⟩

end Steps

end NewPerf.Engine
