import NewPerf.Engine.HostSteps
import Mathlib.Data.List.Perm.Basic

/-!
# The device keeps the invariant, and so does every run

The two device steps, and the invariant over whole runs.
-/

namespace NewPerf.Engine

open NewPerf.Lib.Logs
open NewPerf.Lib.Ring
open NewPerf.Lib.Runs
open NewPerf.Tools

variable {s : Sys} {known base got : Nat}

/-! ## Fetching -/

/-- The device fetches only what it has been told about. -/
theorem Inv.fetched_lt (h : Inv s known base got)
    (hSlot : s.fetched % s.nvme.ioSqDepth.toNat ≠ s.sqTailDb.toNat) :
    s.fetched < s.log.length := by
  have hLe := h.sq.fetched_le
  by_contra hNot
  apply hSlot
  rw [h.sq.tailDb, h.sq.tail, show s.fetched = s.log.length by omega]

theorem fetchStep_cases {s' : Sys} (hStep : fetchStep s = some s') :
    s.fetched % s.nvme.ioSqDepth.toNat ≠ s.sqTailDb.toNat ∧
      s' = { s with
        fetched := s.fetched + 1
        inflight := s.inflight ++
          [⟨s.fetched, sqEntryCid s.sq (s.fetched % s.nvme.ioSqDepth.toNat)⟩] } := by
  unfold Engine.fetchStep at hStep
  dsimp only at hStep
  split at hStep
  · cases hStep
  · rename_i hSlot
    exact ⟨hSlot, (Option.some.inj hStep).symm⟩

theorem Inv.fetchStep (h : Inv s known base got) {s' : Sys}
    (hStep : fetchStep s = some s') : Inv s' known base got := by
  unfold Engine.fetchStep at hStep
  dsimp only at hStep
  split at hStep
  · cases hStep
  · rename_i hSlot
    cases hStep
    have hLt := h.fetched_lt hSlot
    have hSqe := h.sq.sqe s.fetched (Nat.le_refl _) hLt
    exact
      { sq :=
          { h.sq with
            known_le := Nat.le_succ_of_le h.sq.known_le
            fetched_le := hLt
            sqe := fun p hlo => h.sq.sqe p (Nat.le_of_succ_le hlo) }
        dev :=
          { h.dev with
            partition := by
              rw [List.map_append, List.range_succ, List.append_assoc]
              refine (List.Perm.append_left _ List.perm_append_comm).trans ?_
              rw [← List.append_assoc]
              exact h.dev.partition.append_right _
            flightCid := by
              intro f hf
              rcases List.mem_append.mp hf with hOld | hNew
              · exact h.dev.flightCid f hOld
              · rw [List.mem_singleton.mp hNew]
                exact hSqe
            doneHead := fun d hd =>
              ⟨Nat.le_succ_of_le (h.dev.doneHead d hd).1, (h.dev.doneHead d hd).2⟩ }
        cq := { h.cq with }
        table := { h.table with }
        host := HostInv.congr (s := s) rfl rfl h.host }

/-! ## Posting -/

/-- The phase bit of what the device writes is the phase of its lap. -/
private theorem cqePhase_deviceCqe (f : Flight) (status : UInt16) :
    cqePhase (deviceCqe s f status) =
      phaseOf s.nvme.ioCqDepth.toNat s.done.length :=
  cqePhase_of_psf rfl (phaseOf_lt_two _ _)

section Posting

variable {i : Nat} {status : UInt16} {s' : Sys}

/-- Everything a post does. -/
theorem postStep_cases (hStep : postStep s i status = some s') :
    (s.done.length + 1) % s.nvme.ioCqDepth.toNat ≠ s.cqHeadDb.toNat ∧
      ∃ f, s.inflight[i]? = some f ∧
        s' = { s with
          inflight := s.inflight.eraseIdx i
          cq := Function.update s.cq (s.done.length % s.nvme.ioCqDepth.toNat)
            (deviceCqe s f status)
          done := s.done ++ [⟨f.pos, s.fetched, deviceCqe s f status⟩] } := by
  unfold Engine.postStep at hStep
  dsimp only at hStep
  split at hStep
  · cases hStep
  rename_i hFull
  split at hStep
  · cases hStep
  rename_i f hf
  exact ⟨hFull, f, hf, (Option.some.inj hStep).symm⟩

/-- The completion ring after a post. -/
theorem CqInv.postStep (h : CqInv s base) (hStep : postStep s i status = some s') :
    CqInv s' base := by
  obtain ⟨hFull, f, hf, rfl⟩ := postStep_cases hStep
  have hBaseLe := h.base_le
  have hReaped := h.reaped_le
  have hLap := h.lap
  have hRoom : s.done.length + 1 < base + s.nvme.ioCqDepth.toNat := by
    by_contra hNot
    apply hFull
    rw [h.headDb]
    exact (mod_eq_iff_of_le (by omega) (by omega)).mpr (by omega)
  have hRing := h.ring.post h.depth_pos (e := deviceCqe s f status)
    (by rw [List.length_map]; exact cqePhase_deviceCqe f status)
  rw [List.length_map] at hRing
  exact
    { h with
      ring := by rw [List.map_append]; exact hRing
      reaped_le := by simpa using Nat.le_succ_of_le h.reaped_le
      lap := by simpa using hRoom }

/-- Appending a completion does not disturb the ones before it. -/
private theorem take_done_append {k : Nat} {d : Done} (hk : k ≤ s.done.length) :
    (s.done ++ [d]).take k = s.done.take k :=
  List.take_append_of_le_length hk

/-- The completed command leaves those in flight, and reports what has been fetched. -/
theorem DevInv.postStep (h : DevInv s known) (hSq : SqInv s known)
    (hStep : postStep s i status = some s') : DevInv s' known := by
  obtain ⟨-, f, hf, rfl⟩ := postStep_cases hStep
  have hMem : f ∈ s.inflight := List.mem_of_getElem? hf
  have hIdx : i < s.inflight.length := (List.getElem?_eq_some_iff.mp hf).1
  have hAt : s.inflight[i] = f := (List.getElem?_eq_some_iff.mp hf).2
  have hCount : s.inflight.length + s.done.length = s.fetched := by
    simpa using h.partition.length_eq
  refine
    { partition := ?_
      flightCid := fun f' hf' => h.flightCid f' (List.mem_of_mem_eraseIdx hf')
      doneCid := ?_
      doneHead := ?_
      headLow := ?_
      headMono := ?_
      known_ge := h.known_ge
      known_le := ?_ }
  · have hPerm : (f.pos :: (s.inflight.eraseIdx i).map Flight.pos).Perm
        (s.inflight.map Flight.pos) := by
      rw [← hAt, ← List.map_cons]
      exact (List.getElem_cons_eraseIdx_perm hIdx).map Flight.pos
    rw [List.map_append, ← List.append_assoc]
    refine List.perm_append_comm.trans ?_
    rw [List.map_singleton, List.singleton_append, ← List.cons_append]
    exact (hPerm.append_right _).trans h.partition
  · intro d hd
    rcases List.mem_append.mp hd with hOld | hNew
    · exact h.doneCid d hOld
    · rw [List.mem_singleton.mp hNew]
      exact h.flightCid f hMem
  · intro d hd
    rcases List.mem_append.mp hd with hOld | hNew
    · exact h.doneHead d hOld
    · rw [List.mem_singleton.mp hNew]
      refine ⟨Nat.le_refl _, ?_⟩
      have hMod := Nat.mod_lt s.fetched hSq.depth_pos
      have hDepth := hSq.depth_le
      simp only [deviceCqe, UInt16.toNat_ofNat']
      exact Nat.mod_eq_of_lt (by omega)
  · intro j d hd
    rcases getElem?_concat_cases hd with hOld | ⟨rfl, rfl⟩
    · exact h.headLow j d hOld
    · dsimp only
      omega
  · rw [List.pairwise_append]
    refine ⟨h.headMono, List.pairwise_singleton _ _, fun d hd e he => ?_⟩
    rw [List.mem_singleton.mp he]
    exact (h.doneHead d hd).1
  · intro j d hj hd
    rcases getElem?_concat_cases hd with hOld | ⟨rfl, rfl⟩
    · exact h.known_le j d hj hOld
    · exact hSq.known_le

/-- The host has not taken the new completion yet. -/
theorem TableInv.postStep (h : TableInv s got) (hReaped : s.reaped ≤ s.done.length)
    (hStep : postStep s i status = some s') : TableInv s' got := by
  obtain ⟨-, f, -, rfl⟩ := postStep_cases hStep
  have hGot := h.got_le
  have hTaken : ∀ k, k ≤ s.reaped → ∀ d : Done,
      ((s.done ++ [d]).take k).map Done.pos = takenPos s k := fun k hk d => by
    rw [take_done_append (by omega), takenPos]
  refine
    { table := ?_
      distinct := ?_
      got_le := h.got_le
      delivered := ?_
      events := ?_ }
  · intro cid io
    rw [h.table]
    simp only [Outstanding, takenPos, hTaken s.reaped (Nat.le_refl _)]
  · intro p q hp hq hpt hqt
    simp only [takenPos, hTaken got hGot] at hpt hqt
    exact h.distinct p q hp hq hpt hqt
  · dsimp only
    rw [take_done_append (by omega)]
    exact h.delivered
  · intro j d hj hd
    dsimp only at hj hd
    rw [List.getElem?_append_left (by omega)] at hd
    exact h.events j d hj hd

theorem Inv.postStep (h : Inv s known base got) (hStep : postStep s i status = some s') :
    Inv s' known base got := by
  have hCq := h.cq.postStep hStep
  have hDev := h.dev.postStep h.sq hStep
  have hTable := h.table.postStep h.cq.reaped_le hStep
  obtain ⟨-, f, -, rfl⟩ := postStep_cases hStep
  exact
    { sq := { h.sq with }
      dev := hDev
      cq := hCq
      table := hTable
      host := HostInv.congr (s := s) rfl rfl h.host }

end Posting

/-! ## What no step changes -/

/-- What `create_io_queue_pair` fixed for the lifetime of the pair. -/
structure Geometry where
  sqDepth : UInt32
  cqDepth : UInt32
  sqMem : Mem
  prpListMem : Mem
  deriving DecidableEq

def geometry (n : NvmeData) : Geometry :=
  ⟨n.ioSqDepth, n.ioCqDepth, n.ioSqMem, n.ioPrpListMem⟩

/-- The part of `struct nvme_data` that only `nvme_queue` and `create_io_queue_pair`
change: what polling writes is reset. -/
def submitPart (n : NvmeData) : NvmeData :=
  { n with
    ioSqHead := 0
    icCqHead := 0
    ioCqPahse := 0
    cmdIoU := fun _ => none
    events := fun _ => none
    nrEvents := 0 }

/-- A step of polling leaves submissions alone. -/
private theorem submitPart_hostStep {s' : Sys} (hStep : hostStep s = some s') :
    submitPart s'.nvme = submitPart s.nvme ∧ s'.log = s.log := by
  unfold Engine.hostStep at hStep
  split at hStep
  case h_1 => cases hStep
  case h_2 => cases hStep
  case h_3 =>
      split at hStep
      · cases hStep
        exact ⟨rfl, rfl⟩
      · cases hStep
        exact ⟨rfl, rfl⟩
  case h_4 g l hPc =>
      split at hStep
      · cases hStep
        exact ⟨rfl, rfl⟩
      · rename_i hIter
        cases hStep
        obtain ⟨-, -, ioU, -, hn', -⟩ := pollIter_next hIter
        rw [hn']
        exact ⟨rfl, rfl⟩
      · simp only [Option.some.injEq] at hStep
        rw [← hStep]
        refine ⟨?_, rfl⟩
        unfold pollEnd
        split <;> rfl
  case h_5 =>
      split at hStep
      · cases hStep
        exact ⟨rfl, rfl⟩
      · cases hStep
        exact ⟨rfl, rfl⟩

/-- Only `nvme_queue` submits. -/
theorem submitPart_step {fioHasMrt : Bool} {s' : Sys} {a : Act}
    (hOther : ∀ td c ioU, a ≠ .queue td c ioU) (hStep : step fioHasMrt s a = some s') :
    submitPart s'.nvme = submitPart s.nvme ∧ s'.log = s.log := by
  cases a with
  | queue td c ioU => exact absurd rfl (hOther td c ioU)
  | getevents min max timed =>
      simp only [step] at hStep
      split at hStep
      · cases hStep
        exact ⟨rfl, rfl⟩
      · cases hStep
  | host => exact submitPart_hostStep hStep
  | giveUp =>
      simp only [step] at hStep
      split at hStep
      · split at hStep
        · cases hStep
          exact ⟨rfl, rfl⟩
        · cases hStep
      · cases hStep
  | fetch =>
      obtain ⟨-, rfl⟩ := fetchStep_cases hStep
      exact ⟨rfl, rfl⟩
  | post i status =>
      obtain ⟨-, f, -, rfl⟩ := postStep_cases hStep
      exact ⟨rfl, rfl⟩

theorem geometry_step {fioHasMrt : Bool} {s' : Sys} {a : Act}
    (hStep : step fioHasMrt s a = some s') : geometry s'.nvme = geometry s.nvme := by
  have hOther : (∀ td c ioU, a ≠ .queue td c ioU) → geometry s'.nvme = geometry s.nvme := by
    intro hNot
    show geometry (submitPart s'.nvme) = geometry (submitPart s.nvme)
    rw [(submitPart_step hNot hStep).1]
  cases a with
  | queue td c ioU =>
      simp only [step] at hStep
      split at hStep
      · split at hStep
        · rename_i hQueue
          cases hStep
          simp only [submitTo, (nvmeQueue_queued hQueue).1.nvme]
          rfl
        · cases hStep
          rfl
      · cases hStep
  | getevents min max timed => exact hOther (by simp)
  | host => exact hOther (by simp)
  | giveUp => exact hOther (by simp)
  | fetch => exact hOther (by simp)
  | post i status => exact hOther (by simp)

/-- Depths and regions in every state are those of the pair at the start. -/
theorem geometry_of_run {fioHasMrt : Bool} {ok : Sys → Act → Prop} {n : NvmeData}
    {as : List Act} (hRun : Run (step fioHasMrt) ok (start n) as s) :
    geometry s.nvme = geometry n :=
  hRun.invariant (I := fun s => geometry s.nvme = geometry n) rfl
    fun _ _ _ hEq _ hStep => (geometry_step hStep).trans hEq

/-! ## Every step, every run -/

theorem inv_step {fioHasMrt : Bool} {s' : Sys} {a : Act}
    (h : Inv s known base got) (hStep : step fioHasMrt s a = some s') :
    ∃ known base got, Inv s' known base got := by
  cases a with
  | queue td c ioU =>
      simp only [step] at hStep
      split at hStep
      · rename_i hIdle
        cases hQueue : nvmeQueue fioHasMrt td c s.nvme ioU with
        | queued sub =>
            simp only [hQueue, Option.some.injEq] at hStep
            subst hStep
            exact ⟨_, _, _, h.submit hIdle (nvmeQueue_queued hQueue).1⟩
        | busy =>
            simp only [hQueue, Option.some.injEq] at hStep
            exact ⟨_, _, _, hStep ▸ h⟩
        | completed error =>
            simp only [hQueue, Option.some.injEq] at hStep
            exact ⟨_, _, _, hStep ▸ h⟩
      · cases hStep
  | getevents min max timed =>
      simp only [step] at hStep
      split at hStep
      · cases hStep
        exact ⟨_, _, _, h.getevents ‹_› min max timed⟩
      · cases hStep
  | host => exact h.hostStep hStep
  | giveUp =>
      simp only [step] at hStep
      split at hStep
      · split at hStep
        · cases hStep
          exact ⟨_, _, _, h.return ‹_›⟩
        · cases hStep
      · cases hStep
  | fetch => exact ⟨_, _, _, h.fetchStep hStep⟩
  | post i status => exact ⟨_, _, _, h.postStep hStep⟩

/-- The invariant holds in every state a run from a fresh pair reaches. -/
theorem inv_of_run {fioHasMrt : Bool} {ok : Sys → Act → Prop} {n : NvmeData}
    {as : List Act} (hFresh : FreshPair n)
    (hRun : Run (step fioHasMrt) ok (start n) as s) :
    ∃ known base got, Inv s known base got := by
  refine hRun.invariant (I := fun s => ∃ known base got, Inv s known base got)
    ⟨0, 0, 0, inv_start hFresh⟩ ?_
  rintro s a s' ⟨known, base, got, h⟩ - hStep
  exact inv_step h hStep

end NewPerf.Engine
