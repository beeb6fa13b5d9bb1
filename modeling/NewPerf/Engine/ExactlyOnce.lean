import NewPerf.Engine.DeviceSteps

/-!
# Every completion is delivered exactly once

The invariant already relates the command id table, the two rings and the events
handed out.  What remains is that a run in which the device reports success and
`fio` asks for at most `INT_MAX` events never reaches the `exit` calls of
`poll_cq`, and never returns more events than were asked for.  `CleanInv` says
so for each point of the host's code, and `ExactlyOnce` collects what holds in
every state of such a run.
-/

namespace NewPerf.Engine

open NewPerf.Lib.Ring
open NewPerf.Lib.Runs
open NewPerf.Tools

/-- What a step may be: `nvme_getevents` is called with `min <= max <= INT_MAX`
and commands complete with status code type and status code zero. -/
def WellBehaved (_ : Sys) : Act → Prop
  | .getevents min max _ => min.toNat ≤ max.toNat ∧ max.toNat < 2 ^ 31
  | .post _ status => status.toNat % 2 ^ 11 = 0
  | _ => True

instance (s : Sys) (a : Act) : Decidable (WellBehaved s a) :=
  match a with
  | .getevents min max _ =>
      inferInstanceAs (Decidable (min.toNat ≤ max.toNat ∧ max.toNat < 2 ^ 31))
  | .post _ status => inferInstanceAs (Decidable (status.toNat % 2 ^ 11 = 0))
  | .queue .. | .host | .giveUp | .fetch => inferInstanceAs (Decidable True)

/-- Submissions made and not yet reaped, in submission order. -/
def outstanding (s : Sys) : List Nat :=
  (List.range s.log.length).filter fun p => p ∉ takenPos s s.reaped

theorem mem_outstanding {s : Sys} {p : Nat} : p ∈ outstanding s ↔ Outstanding s p := by
  simp [outstanding, Outstanding]

/-- Exactly-once completion, as it can be seen in one state. -/
structure ExactlyOnce (s : Sys) : Prop where
  /-- Command ids of outstanding submissions are pairwise distinct. -/
  cidDistinct : ∀ p q e f, Outstanding s p → Outstanding s q →
    s.log[p]? = some e → s.log[q]? = some f → e.cid = f.cid → p = q
  /-- The table holds exactly the outstanding requests. -/
  table : ∀ cid ioU, s.nvme.cmdIoU cid = some ioU ↔
    ∃ p e, Outstanding s p ∧ s.log[p]? = some e ∧ e.cid = cid ∧ e.ioU = ioU
  /-- `poll_cq` has not called `exit`. -/
  running : s.pc ≠ .exited
  /-- What `poll_cq` is about to consume is the oldest completion posted and not
  yet reaped. -/
  fresh : ∀ g l n' l', s.pc = .poll g l →
    pollIter s.nvme (s.cq l.head.toNat) l = .next n' l' →
    ∃ d, s.done[s.reaped]? = some d ∧ d.cqe = s.cq l.head.toNat
  /-- When `poll_cq` stops early, nothing posted has been passed over. -/
  noneMissed : ∀ g l, s.pc = .poll g l → l.count ≠ l.maxCount →
    pollIter s.nvme (s.cq l.head.toNat) l = .stop → s.reaped = s.done.length
  /-- `nvme_getevents` is about to return no more than it was asked for. -/
  within : ∀ g, s.pc = .check g → g.completions ≤ g.max.toNat
  /-- The events delivered are the requests of the completions reaped, in
  posting order. -/
  inOrder : s.pc = .idle → s.delivered =
    (s.done.take s.reaped).map fun d => s.log[d.pos]?.map Submitted.ioU
  /-- Every request submitted has been delivered once or is outstanding. -/
  ledger : s.pc = .idle →
    (s.delivered ++ (outstanding s).map fun p => s.log[p]?.map Submitted.ioU).Perm
      (s.log.map fun e => some e.ioU)

/-! ## Counting in `nvme_getevents` -/

theorem toCInt_of_lt {x : UInt32} (h : x.toNat < 2 ^ 31) : toCInt x = x.toNat := by
  have hSigned : x.toBitVec.toInt = x.toBitVec.toNat :=
    BitVec.toInt_eq_toNat_of_lt (by rw [UInt32.toNat_toBitVec]; omega)
  exact hSigned

/-- `poll_cq` never reaps more than it was allowed to. -/
theorem pollBegin_maxCount {n : NvmeData} {max : Int} {l : PollLocals}
    (h : pollBegin n max = some l) : (l.maxCount.toNat : Int) ≤ max := by
  unfold pollBegin at h
  split at h
  · cases h
  · cases h
    dsimp only
    split
    · simp only [UInt16.toNat_ofNat]
      omega
    · rw [UInt16.toNat_ofNat']
      omega

/-- The budget `max - completions` handed to `poll_cq`. -/
private theorem toCInt_budget {max : UInt32} {completions : Nat}
    (hMax : max.toNat < 2 ^ 31) (hLe : completions ≤ max.toNat) :
    toCInt (max - UInt32.ofNat completions) = (max.toNat - completions : Nat) := by
  have hSub : (max - UInt32.ofNat completions).toNat = max.toNat - completions := by
    rw [UInt32.toNat_sub, UInt32.toNat_ofNat']
    omega
  rw [toCInt_of_lt (by omega), hSub]

/-- The count of completions stays within what was asked for. -/
def Counted : HostPc → Prop
  | .idle => True
  | .loop g => g.max.toNat < 2 ^ 31 ∧ g.completions ≤ g.max.toNat
  | .poll g l => g.max.toNat < 2 ^ 31 ∧
      g.completions + l.maxCount.toNat ≤ g.max.toNat
  | .check g => g.max.toNat < 2 ^ 31 ∧ g.completions ≤ g.max.toNat
  | .exited => False

/-- What well-behaved runs keep besides the invariant. -/
structure CleanInv (s : Sys) : Prop where
  success : ∀ d ∈ s.done, cqeSct d.cqe.psf = 0 ∧ cqeSc d.cqe.psf = 0
  counted : Counted s.pc

/-- A success status leaves both status fields of the entry zero. -/
private theorem success_deviceCqe {s : Sys} (f : Flight) {status : UInt16}
    (h : status.toNat % 2 ^ 11 = 0) :
    cqeSct (deviceCqe s f status).psf = 0 ∧ cqeSc (deviceCqe s f status).psf = 0 := by
  have hTwo := phaseOf_lt_two s.nvme.ioCqDepth.toNat s.done.length
  have hStatus : status.toNat < 2 ^ 16 := status.toNat_lt
  have hSctMask : nvmeCqeSctMask.toNat = 2 ^ 3 - 1 := by decide
  have hScMask : nvmeCqeScMask.toNat = 2 ^ 8 - 1 := by decide
  have hSctShift : nvmeCqeSctShift.toNat % 16 = 9 := by decide
  have hScShift : nvmeCqeScShift.toNat % 16 = 1 := by decide
  constructor
  · apply UInt16.toNat_inj.mp
    rw [cqeSct, UInt16.toNat_and, UInt16.toNat_shiftRight, hSctMask, hSctShift,
      Nat.and_two_pow_sub_one_eq_mod, Nat.shiftRight_eq_div_pow, deviceCqe,
      UInt16.toNat_ofNat', UInt16.toNat_zero]
    omega
  · apply UInt16.toNat_inj.mp
    rw [cqeSc, UInt16.toNat_and, UInt16.toNat_shiftRight, hScMask, hScShift,
      Nat.and_two_pow_sub_one_eq_mod, Nat.shiftRight_eq_div_pow, deviceCqe,
      UInt16.toNat_ofNat', UInt16.toNat_zero]
    omega

/-! ## One step -/

section Step

variable {s s' : Sys} {known base got : Nat}

/-- With every status a success and every completion known, `poll_cq` does not
call `exit`. -/
private theorem CleanInv.no_exit (hClean : CleanInv s) (h : Inv s known base got)
    {g : GetEvents} {l : PollLocals} (hPc : s.pc = .poll g l) :
    pollIter s.nvme (s.cq l.head.toNat) l ≠ .exit := by
  intro hExit
  have hHost := h.host
  rw [hPc] at hHost
  cases hHost with
  | poll hBase hCount hGot hEvents hOld hAt =>
  obtain ⟨hPhase, hWhy⟩ := pollIter_exit hExit
  obtain ⟨d, hd, hCqe⟩ := h.next_done hAt hPhase
  have hMem : d ∈ s.done := List.mem_of_getElem? hd
  rw [← hCqe] at hWhy
  rcases hWhy with hStatus | hUnknown
  · have hSuccess := hClean.success d hMem
    rcases hStatus with hSct | hSc
    · exact hSct hSuccess.1
    · exact hSc hSuccess.2
  · -- The submission completed is outstanding, so the table has its request.
    have hOut := h.next_outstanding hd
    obtain ⟨e, he⟩ : ∃ e, s.log[d.pos]? = some e :=
      ⟨_, List.getElem?_eq_getElem hOut.1⟩
    have hCid : e.cid = d.cqe.cid := by
      rw [(h.sq.entries _ _ he).1, h.dev.doneCid d hMem]
    have hSome := (h.table.table d.cqe.cid e.ioU).mpr
      ⟨d.pos, e, hOut, he, hCid, rfl⟩
    rw [hUnknown] at hSome
    cases hSome

private theorem CleanInv.hostStep (hClean : CleanInv s) (h : Inv s known base got)
    (hStep : hostStep s = some s') : CleanInv s' := by
  have hCounted := hClean.counted
  unfold Engine.hostStep at hStep
  split at hStep
  case h_1 => cases hStep
  case h_2 => cases hStep
  case h_3 g hPc =>
      rw [hPc] at hCounted
      obtain ⟨hMax, hLe⟩ := hCounted
      split at hStep
      · cases hStep
        exact ⟨hClean.success, hMax, hLe⟩
      · rename_i l hBegin
        cases hStep
        have hBudget := pollBegin_maxCount hBegin
        rw [toCInt_budget hMax hLe] at hBudget
        exact ⟨hClean.success, hMax, by omega⟩
  case h_4 g l hPc =>
      have hNoExit := hClean.no_exit h hPc
      have hHost := h.host
      rw [hPc] at hCounted hHost
      obtain ⟨hMax, hLe⟩ := hCounted
      split at hStep
      · exact absurd ‹_› hNoExit
      · rename_i hIter
        cases hStep
        obtain ⟨-, -, ioU, -, -, hl'⟩ := pollIter_next hIter
        rw [hl']
        exact ⟨hClean.success, hMax, hLe⟩
      · cases hStep
        cases hHost with
        | poll hBase hCount hGot hEvents hOld hAt =>
            exact ⟨hClean.success, hMax, by dsimp only; omega⟩
  case h_5 g hPc =>
      rw [hPc] at hCounted
      split at hStep
      · cases hStep
        exact ⟨hClean.success, trivial⟩
      · cases hStep
        exact ⟨hClean.success, hCounted⟩

private theorem CleanInv.postStep (hClean : CleanInv s) {i : Nat} {status : UInt16}
    (hStatus : status.toNat % 2 ^ 11 = 0) (hStep : postStep s i status = some s') :
    CleanInv s' := by
  obtain ⟨-, f, -, rfl⟩ := postStep_cases hStep
  refine ⟨fun d hd => ?_, hClean.counted⟩
  rcases List.mem_append.mp hd with hOld | hNew
  · exact hClean.success d hOld
  · rw [List.mem_singleton.mp hNew]
    exact success_deviceCqe f hStatus

private theorem cleanInv_step {fioHasMrt : Bool} {a : Act} (hClean : CleanInv s)
    (h : Inv s known base got) (hOk : WellBehaved s a)
    (hStep : step fioHasMrt s a = some s') : CleanInv s' := by
  cases a with
  | queue td c ioU =>
      simp only [step] at hStep
      split at hStep
      · split at hStep
        · cases hStep
          exact ⟨hClean.success, hClean.counted⟩
        · cases hStep
          exact hClean
      · cases hStep
  | getevents min max timed =>
      simp only [step] at hStep
      split at hStep
      · cases hStep
        exact ⟨hClean.success, hOk.2, Nat.zero_le _⟩
      · cases hStep
  | host => exact hClean.hostStep h hStep
  | giveUp =>
      simp only [step] at hStep
      split at hStep
      · split at hStep
        · cases hStep
          exact ⟨hClean.success, trivial⟩
        · cases hStep
      · cases hStep
  | fetch =>
      simp only [step, fetchStep] at hStep
      split at hStep
      · cases hStep
      · cases hStep
        exact ⟨hClean.success, hClean.counted⟩
  | post i status => exact hClean.postStep hOk hStep

end Step

/-! ## Whole runs -/

section Runs

variable {s : Sys} {known base got : Nat}

/-- Reaped and outstanding submissions together are all submissions. -/
theorem Inv.reaped_perm_outstanding (h : Inv s known base got) :
    (takenPos s s.reaped ++ outstanding s).Perm (List.range s.log.length) := by
  have hTaken : ∀ p ∈ takenPos s s.reaped, p < s.log.length := by
    intro p hp
    obtain ⟨d, hd, hPos⟩ := List.mem_map.mp hp
    rw [← hPos]
    exact Nat.lt_of_lt_of_le (h.dev.pos_lt (List.mem_of_mem_take hd)) h.sq.fetched_le
  have hNodup : (takenPos s s.reaped ++ outstanding s).Nodup := by
    refine List.Nodup.append ?_ (List.nodup_range.filter _) ?_
    · exact h.dev.done_nodup.sublist ((List.take_sublist _ _).map _)
    · intro p hp hOut
      exact (mem_outstanding.mp hOut).2 hp
  refine (List.perm_ext_iff_of_nodup hNodup List.nodup_range).mpr fun p => ?_
  rw [List.mem_append, mem_outstanding, List.mem_range, Outstanding]
  constructor
  · rintro (hp | hp)
    · exact hTaken p hp
    · exact hp.1
  · intro hp
    by_cases hMem : p ∈ takenPos s s.reaped
    · exact Or.inl hMem
    · exact Or.inr ⟨hp, hMem⟩

private theorem map_range_log (log : List Submitted) :
    ((List.range log.length).map fun p : Nat => log[p]?.map Submitted.ioU) =
      log.map fun e => some e.ioU := by
  apply List.ext_getElem?
  intro i
  rw [List.getElem?_map, List.getElem?_map]
  rcases Nat.lt_or_ge i log.length with hlt | hge
  · rw [List.getElem?_range hlt]
    simp [List.getElem?_eq_getElem hlt]
  · rw [List.getElem?_eq_none (by simpa using hge), List.getElem?_eq_none hge]
    rfl

private theorem exactlyOnce_of_inv (h : Inv s known base got) (hClean : CleanInv s) :
    ExactlyOnce s := by
  have hInOrder : s.pc = .idle → s.delivered =
      (s.done.take s.reaped).map fun d => s.log[d.pos]?.map Submitted.ioU := by
    intro hIdle
    have hHost := h.host
    rw [hIdle] at hHost
    cases hHost with
    | idle hBase hGot hAt =>
        rw [← hGot]
        exact h.table.delivered
  refine
    { cidDistinct := fun p q e f hp hq he hf hCid => ?_
      table := h.table.table
      running := fun hExited => ?_
      fresh := fun g l n' l' hPc hIter => ?_
      noneMissed := fun g l hPc hNotMax hStop => ?_
      within := fun g hPc => ?_
      inOrder := hInOrder
      ledger := fun hIdle => ?_ }
  · rw [(h.sq.entries p e he).1, (h.sq.entries q f hf).1] at hCid
    exact h.table.distinct p q hp.1 hq.1
      (fun hMem => hp.2 (takenPos_mono h.table.got_le hMem))
      (fun hMem => hq.2 (takenPos_mono h.table.got_le hMem)) hCid
  · have hCounted := hClean.counted
    rw [hExited] at hCounted
    exact hCounted
  · have hHost := h.host
    rw [hPc] at hHost
    cases hHost with
    | poll hBase hCount hGot hEvents hOld hAt =>
        exact h.next_done hAt (pollIter_next hIter).2.1
  · have hHost := h.host
    rw [hPc] at hHost
    cases hHost with
    | poll hBase hCount hGot hEvents hOld hAt =>
        rcases pollIter_stop hStop with hMax | hPhase
        · exact absurd hMax hNotMax
        · have hReaped := h.cq.reaped_le
          have hNone := mt (h.cq.phase_iff hAt).mpr hPhase
          omega
  · have hCounted := hClean.counted
    rw [hPc] at hCounted
    exact hCounted.2
  · rw [hInOrder hIdle, ← map_range_log]
    have hPerm := h.reaped_perm_outstanding.map fun p : Nat =>
      s.log[p]?.map Submitted.ioU
    rw [List.map_append, takenPos, List.map_map] at hPerm
    exact hPerm

/-- In every state of every well-behaved run on a fresh queue pair, completion is
exactly once. -/
theorem exactlyOnce_of_steps {fioHasMrt : Bool} {n : NvmeData} {as : List Act}
    (hFresh : FreshPair n)
    (hRun : Run (step fioHasMrt) WellBehaved (start n) as s) : ExactlyOnce s := by
  have hBoth : (∃ known base got, Inv s known base got) ∧ CleanInv s := by
    refine hRun.invariant
      (I := fun s => (∃ known base got, Inv s known base got) ∧ CleanInv s)
      ⟨⟨0, 0, 0, inv_start hFresh⟩, by simp [start], trivial⟩ ?_
    rintro s a s' ⟨⟨known, base, got, h⟩, hClean⟩ hOk hStep
    exact ⟨inv_step h hStep, cleanInv_step hClean h hOk hStep⟩
  obtain ⟨⟨known, base, got, h⟩, hClean⟩ := hBoth
  exact exactlyOnce_of_inv h hClean

end Runs

end NewPerf.Engine
