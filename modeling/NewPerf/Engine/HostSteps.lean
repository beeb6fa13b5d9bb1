import NewPerf.Engine.Invariant

/-!
# The host keeps the invariant

One lemma for each thing the host does: it submits a request, enters
`nvme_getevents`, consumes a completion, leaves `poll_cq`, and returns.
-/

namespace NewPerf.Engine

open NewPerf.Lib.LeMemory
open NewPerf.Lib.Logs
open NewPerf.Lib.Ring
open NewPerf.Tools

/-- A freshly created queue pair satisfies the invariant with nothing done. -/
theorem inv_start {n : NvmeData} (h : FreshPair n) : Inv (start n) 0 0 0 := by
  have hTail : n.ioSqTail.toNat = 0 := by rw [h.sqTail]; rfl
  have hHead : n.ioSqHead.toNat = 0 := by rw [h.sqHead]; rfl
  have hCq : n.icCqHead.toNat = 0 := by rw [h.cqHead]; rfl
  have hPhase : n.ioCqPahse.toNat = 1 := by rw [h.cqPhase]; rfl
  refine
    { sq :=
        { depth_pos := h.sqDepth_pos
          depth_le := h.sqDepth_le
          tail := by simp [start, hTail]
          tailDb := h.sqTail.symm
          head := by simp [start, hHead]
          cmdId := h.cmdId
          known_le := Nat.le_refl 0
          fetched_le := Nat.le_refl 0
          room := by simpa [start] using h.sqDepth_pos
          entries := by simp [start]
          sqe := by simp [start] }
      dev :=
        { partition := by simp [start]
          flightCid := by simp [start]
          doneCid := by simp [start]
          doneHead := by simp [start]
          headLow := by simp [start]
          headMono := by simp [start]
          known_ge := Nat.le_refl 0
          known_le := by simp [start] }
      cq :=
        { depth_pos := h.cqDepth_pos
          depth_le := h.cqDepth_le
          ring := PhaseRing.nil fun _ _ => by simp [start, cqePhase]
          base_le := Nat.le_refl 0
          reaped_le := Nat.le_refl 0
          lap := by simpa [start] using h.cqDepth_pos
          headDb := by simp [start] }
      table :=
        { table := by simp [start, h.cmdIoU]
          distinct := by simp [start]
          got_le := Nat.le_refl 0
          delivered := by simp [start]
          events := by simp [start] }
      host := .idle rfl rfl ⟨by simp [start, hCq], ?_⟩ }
  rw [start, hPhase, phaseOf_first h.cqDepth_pos]

/-! ## `nvme_queue` -/

/-- A slot other than the one written keeps its command id. -/
private theorem sqEntryCid_other {ss : List Store} {sq : Bytes} {slot tail : Nat}
    (hConf : SqConfined (nvmeIoSqEntrySize * tail) ss) (hne : slot ≠ tail) :
    sqEntryCid (applyAll ss sq) slot = sqEntryCid sq slot := by
  unfold sqEntryCid
  congr 1
  apply read_congr
  intro a hlo hhi
  apply applyAll_of_outside ss sq (nvmeIoSqEntrySize * slot)
    (nvmeIoSqEntrySize * slot + nvmeIoSqEntrySize)
  · intro s hs
    have hWithin := hConf s hs
    unfold Store.Within nvmeIoSqEntrySize at hWithin
    unfold nvmeIoSqEntrySize
    omega
  · omega
  · unfold nvmeIoSqEntrySize at hhi ⊢
    omega

section Submit

variable {s : Sys} {known base got : Nat} {ioU : IoU} {sub : Submission}

private theorem SqInv.submit (h : SqInv s known) (hAcc : Accepted s.nvme ioU sub) :
    SqInv (submitTo s ioU sub) known := by
  have hTailLt : s.nvme.ioSqTail.toNat < s.nvme.ioSqDepth.toNat := by
    rw [h.tail]
    exact Nat.mod_lt _ h.depth_pos
  have hNext : (nextSqTail s.nvme).toNat =
      (s.log.length + 1) % s.nvme.ioSqDepth.toNat := by
    rw [nextSqTail, toNat_ringAdvance _ _ hTailLt, h.tail, Nat.mod_add_mod]
  have hRoom : s.log.length + 1 < known + s.nvme.ioSqDepth.toNat := by
    -- A full lap would make the new tail equal to the known head.
    have hKnown := h.known_le
    have hFetched := h.fetched_le
    have hOld := h.room
    by_contra hNot
    have hFull : s.log.length + 1 = known + s.nvme.ioSqDepth.toNat := by omega
    apply hAcc.notFull
    apply UInt32.toNat_inj.mp
    rw [hNext, h.head, hFull, Nat.add_mod_right]
  have hEq := hAcc.nvme
  have hCmdId : s.nvme.ioCmdId + 1 = cidAt s.log.length := by
    rw [h.cmdId, cidAt_eq_ofNat_add]
  unfold submitTo
  refine
    { depth_pos := by rw [hEq]; exact h.depth_pos
      depth_le := by rw [hEq]; exact h.depth_le
      tail := by rw [hEq]; simpa using hNext
      tailDb := by rw [hEq]; exact hAcc.doorbell
      head := by rw [hEq]; exact h.head
      cmdId := by rw [hEq]; simpa [cidAt] using hCmdId
      known_le := h.known_le
      fetched_le := by simpa using Nat.le_succ_of_le h.fetched_le
      room := by rw [hEq]; simpa using hRoom
      entries := ?_
      sqe := ?_ }
  · intro p e hp
    rw [hEq]
    rcases getElem?_concat_cases hp with hOld | ⟨rfl, rfl⟩
    · exact h.entries p e hOld
    · exact ⟨by rw [hAcc.cmdId, hCmdId], h.tail⟩
  · intro p hlo hhi
    rw [hEq]
    have hConf : SqConfined (nvmeIoSqEntrySize *
        (s.log.length % s.nvme.ioSqDepth.toNat)) sub.sqStores := by
      rw [← h.tail]
      exact hAcc.sqConfined
    simp only [List.length_append, List.length_singleton] at hhi
    by_cases hLast : p = s.log.length
    · have hRead := hAcc.sqCid s.sq
      rw [sqEntryOff, h.tail, hAcc.cmdId, hCmdId] at hRead
      rw [sqEntryCid, hLast, hRead, UInt16.ofNat_toNat]
    · have hne : p % s.nvme.ioSqDepth.toNat ≠
          s.log.length % s.nvme.ioSqDepth.toNat := fun heq => by
        have hlo : s.fetched ≤ p := hlo
        have hKnown := h.known_le
        have hOld := h.room
        have := (mod_eq_iff_of_lt (by omega) (by omega)).mp heq.symm
        omega
      rw [sqEntryCid_other hConf hne]
      exact h.sqe p hlo (by omega)

private theorem DevInv.submit (h : DevInv s known) (hAcc : Accepted s.nvme ioU sub) :
    DevInv (submitTo s ioU sub) known := by
  have hDepth : sub.nvme.ioSqDepth = s.nvme.ioSqDepth := by rw [hAcc.nvme]
  exact
    { partition := h.partition
      flightCid := h.flightCid
      doneCid := h.doneCid
      doneHead := by
        simp only [submitTo, hDepth]
        exact h.doneHead
      headLow := h.headLow
      headMono := h.headMono
      known_ge := h.known_ge
      known_le := h.known_le }

private theorem CqInv.submit (h : CqInv s base) (hAcc : Accepted s.nvme ioU sub) :
    CqInv (submitTo s ioU sub) base := by
  have hDepth : sub.nvme.ioCqDepth = s.nvme.ioCqDepth := by rw [hAcc.nvme]
  unfold submitTo
  exact
    { depth_pos := by rw [hDepth]; exact h.depth_pos
      depth_le := by rw [hDepth]; exact h.depth_le
      ring := by rw [hDepth]; exact h.ring
      base_le := h.base_le
      reaped_le := h.reaped_le
      lap := by rw [hDepth]; exact h.lap
      headDb := by rw [hDepth]; exact h.headDb }

/-- Submissions whose completion has been posted come before the new one. -/
private theorem getElem?_log_submit (hDev : DevInv s known)
    (hLe : s.fetched ≤ s.log.length) {d : Done} (hd : d ∈ s.done) :
    (submitTo s ioU sub).log[d.pos]? = s.log[d.pos]? :=
  List.getElem?_append_left (Nat.lt_of_lt_of_le (hDev.pos_lt hd) hLe)

/-- The id of the next submission. -/
private theorem SqInv.nextCmdId (h : SqInv s known) :
    s.nvme.ioCmdId + 1 = cidAt s.log.length := by
  rw [h.cmdId, cidAt_eq_ofNat_add]

/-- No outstanding submission has the new command id, since its entry is free. -/
private theorem TableInv.cid_fresh (h : TableInv s s.reaped) (hSq : SqInv s known)
    (hAcc : Accepted s.nvme ioU sub) {p : Nat} (hOut : Outstanding s p) :
    cidAt p ≠ cidAt s.log.length := by
  intro hCid
  obtain ⟨e, he⟩ : ∃ e, s.log[p]? = some e := ⟨_, List.getElem?_eq_getElem hOut.1⟩
  have hSome := (h.table (cidAt p) e.ioU).mpr ⟨p, e, hOut, he, (hSq.entries p e he).1, rfl⟩
  rw [hCid, ← hSq.nextCmdId, hAcc.cidFree] at hSome
  cases hSome

private theorem DevInv.length_notMem_takenPos (h : DevInv s known)
    (hLe : s.fetched ≤ s.log.length) : s.log.length ∉ takenPos s s.reaped := by
  intro hMem
  obtain ⟨d, hd, hPos⟩ := List.mem_map.mp hMem
  have hLt := h.pos_lt (List.mem_of_mem_take hd)
  omega

/-- The table after the request has been entered under the new id. -/
private theorem TableInv.entered (h : TableInv s s.reaped) (hSq : SqInv s known)
    (hDev : DevInv s known) (hAcc : Accepted s.nvme ioU sub) (cid : UInt16) (io : IoU) :
    (submitTo s ioU sub).nvme.cmdIoU cid = some io ↔
      ∃ p e, Outstanding (submitTo s ioU sub) p ∧ (submitTo s ioU sub).log[p]? = some e ∧
        e.cid = cid ∧ e.ioU = io := by
  have hCmdId := hSq.nextCmdId
  have hNew := hDev.length_notMem_takenPos hSq.fetched_le
  simp only [submitTo, hAcc.nvme, hCmdId, Function.update_apply]
  by_cases hCid : cid = cidAt s.log.length
  · rw [if_pos hCid]
    constructor
    · intro hIo
      refine ⟨s.log.length, ⟨ioU, sub.cmdId, s.nvme.ioSqTail, sub.prpStores⟩,
        ⟨by simp, hNew⟩, by simp, ?_, by simpa using hIo⟩
      rw [hAcc.cmdId, hCmdId, hCid]
    · rintro ⟨p, e, ⟨hp, hTaken⟩, he, hCidE, hIo⟩
      simp only [List.length_append, List.length_singleton] at hp
      by_cases hLast : p = s.log.length
      · subst hLast
        simp only [List.getElem?_concat_length, Option.some.injEq] at he
        rw [← hIo, ← he]
      · rw [List.getElem?_append_left (by omega)] at he
        exfalso
        refine h.cid_fresh hSq hAcc (p := p) ⟨by omega, hTaken⟩ ?_
        rw [← (hSq.entries p e he).1, hCidE, hCid]
  · rw [if_neg hCid, h.table]
    constructor
    · rintro ⟨p, e, hOut, he, hRest⟩
      refine ⟨p, e, ⟨?_, hOut.2⟩, ?_, hRest⟩
      · simpa using Nat.lt_succ_of_lt hOut.1
      · rw [List.getElem?_append_left hOut.1]
        exact he
    · rintro ⟨p, e, ⟨hp, hTaken⟩, he, hCidE, hIo⟩
      simp only [List.length_append, List.length_singleton] at hp
      by_cases hLast : p = s.log.length
      · subst hLast
        simp only [List.getElem?_concat_length, Option.some.injEq] at he
        exfalso
        apply hCid
        rw [← hCidE, ← he, hAcc.cmdId, hCmdId]
      · rw [List.getElem?_append_left (by omega)] at he
        exact ⟨p, e, ⟨by omega, hTaken⟩, he, hCidE, hIo⟩

private theorem TableInv.submit (h : TableInv s s.reaped) (hSq : SqInv s known)
    (hDev : DevInv s known) (hAcc : Accepted s.nvme ioU sub) :
    TableInv (submitTo s ioU sub) s.reaped := by
  refine
    { table := h.entered hSq hDev hAcc
      distinct := fun p q hp hq hpt hqt hCid => ?_
      got_le := h.got_le
      delivered := ?_
      events := fun i d hi hd => ?_ }
  · simp only [submitTo, List.length_append, List.length_singleton] at hp hq
    by_cases hpLast : p = s.log.length
    · by_cases hqLast : q = s.log.length
      · omega
      · subst hpLast
        exact absurd hCid.symm (h.cid_fresh hSq hAcc ⟨by omega, hqt⟩)
    · by_cases hqLast : q = s.log.length
      · subst hqLast
        exact absurd hCid (h.cid_fresh hSq hAcc ⟨by omega, hpt⟩)
      · exact h.distinct p q (by omega) (by omega) hpt hqt hCid
  · refine h.delivered.trans (List.map_congr_left fun d hd => ?_)
    rw [getElem?_log_submit hDev hSq.fetched_le (List.mem_of_mem_take hd)]
  · rw [getElem?_log_submit hDev hSq.fetched_le (List.mem_of_getElem? hd)]
    have hOld := h.events i d hi hd
    simp only [submitTo, hAcc.nvme]
    exact hOld

/-- `nvme_queue` accepts a request. -/
theorem Inv.submit (h : Inv s known base got) (hIdle : s.pc = .idle)
    (hAcc : Accepted s.nvme ioU sub) :
    Inv (submitTo s ioU sub) known base got := by
  have hHost := h.host
  rw [hIdle] at hHost
  cases hHost with
  | idle hBase hGot hAt =>
      subst hGot
      refine
        { sq := h.sq.submit hAcc
          dev := h.dev.submit hAcc
          cq := h.cq.submit hAcc
          table := h.table.submit h.sq h.dev hAcc
          host := ?_ }
      simp only [submitTo, hIdle]
      refine .idle hBase rfl ⟨?_, ?_⟩
      · simp only [hAcc.nvme]
        exact hAt.head
      · simp only [hAcc.nvme]
        exact hAt.phase

end Submit

/-! ## `nvme_getevents` and `poll_cq` -/

section GetEvents

variable {s : Sys} {known base got : Nat}

/-- A step that only moves the host inside `nvme_getevents`. -/
private theorem Inv.move (h : Inv s known base got) {pc : HostPc}
    (hHost : HostInv s base got pc) : Inv { s with pc := pc } known base got :=
  { sq := { h.sq with }
    dev := { h.dev with }
    cq := { h.cq with }
    table := { h.table with }
    host := HostInv.congr (s := s) rfl rfl hHost }

/-- Entering `nvme_getevents` resets `nr_events`. -/
theorem Inv.getevents (h : Inv s known base got) (hIdle : s.pc = .idle)
    (min max : UInt32) (timed : Bool) :
    Inv { s with nvme := { s.nvme with nrEvents := 0 }
                 pc := .loop { min, max, timed } } known base got := by
  have hHost := h.host
  rw [hIdle] at hHost
  cases hHost with
  | idle hBase hGot hAt =>
      exact
        { sq := { h.sq with }
          dev := { h.dev with }
          cq := { h.cq with }
          table := { h.table with }
          host := .loop hBase hGot rfl { hAt with } }

/-- `poll_cq` starts its loop at the saved head and phase. -/
private theorem Inv.enterPoll (h : Inv s known base got) {g : GetEvents}
    {l : PollLocals} {max : Int} (hPc : s.pc = .loop g)
    (hBegin : pollBegin s.nvme max = some l) :
    Inv { s with pc := .poll g l } known base got := by
  have hHost := h.host
  rw [hPc] at hHost
  unfold pollBegin at hBegin
  split at hBegin
  · cases hBegin
  · cases hBegin
    cases hHost with
    | loop hBase hGot hEvents hAt =>
        subst hBase
        exact h.move (.poll (by simp) (by simp) hGot hEvents hAt hAt)

/-- The host reads the phase it expects exactly when the next completion has been
posted. -/
theorem CqInv.phase_iff (h : CqInv s base) {head : UInt32} {phase : UInt8}
    (hAt : PollAt s s.reaped head phase) :
    cqePhase (s.cq head.toNat) = phase.toNat ↔ s.reaped < s.done.length := by
  have hBase := h.base_le
  have hLap := h.lap
  have hReaped := h.reaped_le
  have hIff := h.ring.tag_iff (r := s.reaped) (by rw [List.length_map]; exact hReaped)
    (by rw [List.length_map]; omega)
  rw [List.length_map] at hIff
  rw [hAt.head, hAt.phase]
  exact hIff

/-- Reading an entry whose phase matches means that the next completion has been
posted and is the one read. -/
theorem Inv.next_done (h : Inv s known base got) {l : PollLocals}
    (hAt : PollAt s s.reaped l.head l.phaseTag)
    (hPhase : cqePhase (s.cq l.head.toNat) = l.phaseTag.toNat) :
    ∃ d, s.done[s.reaped]? = some d ∧ d.cqe = s.cq l.head.toNat := by
  have hLap : (s.done.map Done.cqe).length < s.reaped + s.nvme.ioCqDepth.toNat := by
    have hBase := h.cq.base_le
    have hLap := h.cq.lap
    rw [List.length_map]
    omega
  have hLt : s.reaped < (s.done.map Done.cqe).length := by
    rw [List.length_map]
    exact (h.cq.phase_iff hAt).mp hPhase
  have hSlot := h.cq.ring.slot_eq hLt hLap
  rw [List.getElem?_map, Option.map_eq_some_iff] at hSlot
  rw [hAt.head]
  exact hSlot

private theorem takenPos_succ {d : Done} (hd : s.done[s.reaped]? = some d) :
    takenPos s (s.reaped + 1) = takenPos s s.reaped ++ [d.pos] := by
  unfold takenPos
  rw [List.take_add_one, hd]
  simp

theorem takenPos_mono {k k' : Nat} (hk : k ≤ k') {p : Nat}
    (hp : p ∈ takenPos s k) : p ∈ takenPos s k' := by
  unfold takenPos at hp ⊢
  obtain ⟨d, hd, hPos⟩ := List.mem_map.mp hp
  exact List.mem_map.mpr ⟨d, List.take_subset_take_left s.done hk hd, hPos⟩

/-- The outstanding request with the id of the next completion is the one it completes. -/
private theorem Inv.eq_next (h : Inv s known base got) {d : Done} {p : Nat} {e : Submitted}
    (hd : s.done[s.reaped]? = some d) (hOut : Outstanding s p) (he : s.log[p]? = some e)
    (hCid : e.cid = d.cqe.cid) : p = d.pos := by
  have hNext := h.next_outstanding hd
  have hNotTaken : ∀ q, Outstanding s q → q ∉ takenPos s got := fun q hq hMem =>
    hq.2 (takenPos_mono h.table.got_le hMem)
  apply h.table.distinct p d.pos hOut.1 hNext.1 (hNotTaken p hOut) (hNotTaken _ hNext)
  rw [← (h.sq.entries p e he).1, hCid, h.dev.doneCid d (List.mem_of_getElem? hd)]

/-- The table entry of a completion is the request it completes. -/
private theorem Inv.ioU_eq (h : Inv s known base got) {d : Done} {ioU : IoU}
    (hd : s.done[s.reaped]? = some d) (hIo : s.nvme.cmdIoU d.cqe.cid = some ioU) :
    s.log[d.pos]?.map Submitted.ioU = some ioU := by
  obtain ⟨p, e, hOut, he, hCid, hIoE⟩ := (h.table.table _ _).mp hIo
  rw [← h.eq_next hd hOut he hCid, he, Option.map_some, hIoE]

/-- The phase tag after the head has advanced by one. -/
private theorem PollAt.advance {l : PollLocals} (hPos : 0 < s.nvme.ioCqDepth.toNat)
    (h : PollAt s s.reaped l.head l.phaseTag) :
    PollAt s (s.reaped + 1) (ringAdvance l.head s.nvme.ioCqDepth)
      (if l.head + 1 = s.nvme.ioCqDepth then l.phaseTag ^^^ 1 else l.phaseTag) := by
  have hHeadLt : l.head.toNat < s.nvme.ioCqDepth.toNat := by
    rw [h.head]
    exact Nat.mod_lt _ hPos
  have hAdvance : (ringAdvance l.head s.nvme.ioCqDepth).toNat =
      (s.reaped + 1) % s.nvme.ioCqDepth.toNat := by
    rw [toNat_ringAdvance _ _ hHeadLt, h.head, Nat.mod_add_mod]
  have hWrap : l.head + 1 = s.nvme.ioCqDepth ↔
      (s.reaped + 1) % s.nvme.ioCqDepth.toNat = 0 := by
    rw [← hAdvance, ringAdvance]
    constructor
    · intro hEq
      rw [if_pos hEq]
      rfl
    · intro hZero
      by_contra hNe
      rw [if_neg hNe, UInt32.toNat_add, UInt32.toNat_one] at hZero
      have hDepth : s.nvme.ioCqDepth.toNat < 2 ^ 32 := s.nvme.ioCqDepth.toNat_lt
      omega
  refine ⟨hAdvance, ?_⟩
  rw [phaseOf_succ]
  by_cases hEq : l.head + 1 = s.nvme.ioCqDepth
  · have hTwo := phaseOf_lt_two s.nvme.ioCqDepth.toNat s.reaped
    rw [if_pos hEq, if_pos (hWrap.mp hEq), toNat_flipPhase (by rwa [h.phase]), h.phase]
  · rw [if_neg hEq, if_neg fun hZero => hEq (hWrap.mpr hZero), h.phase]

/-- Taking the next completion clears the entry of its request, and no other outstanding
request has that id. -/
private theorem Inv.cleared (h : Inv s known base got) {d : Done}
    (hd : s.done[s.reaped]? = some d) (cid : UInt16) (ioU : IoU) :
    Function.update s.nvme.cmdIoU d.cqe.cid none cid = some ioU ↔
      ∃ p e, (p < s.log.length ∧ p ∉ takenPos s (s.reaped + 1)) ∧ s.log[p]? = some e ∧
        e.cid = cid ∧ e.ioU = ioU := by
  have hMem : d ∈ s.done := List.mem_of_getElem? hd
  have hOutIff : ∀ p, (p < s.log.length ∧ p ∉ takenPos s (s.reaped + 1)) ↔
      Outstanding s p ∧ p ≠ d.pos := by
    intro p
    rw [takenPos_succ hd, List.mem_append, List.mem_singleton, not_or, Outstanding, and_assoc]
  rw [Function.update_apply]
  by_cases hCid : cid = d.cqe.cid
  · rw [if_pos hCid]
    simp only [reduceCtorEq, false_iff]
    rintro ⟨p, e, hOut, he, hCidE, -⟩
    obtain ⟨hOut, hne⟩ := (hOutIff p).mp hOut
    exact hne (h.eq_next hd hOut he (hCidE.trans hCid))
  · rw [if_neg hCid, h.table.table]
    constructor
    · rintro ⟨p, e, hOut, he, hCidE, hIoE⟩
      refine ⟨p, e, (hOutIff p).mpr ⟨hOut, fun hEq => hCid ?_⟩, he, hCidE, hIoE⟩
      rw [← hCidE, (h.sq.entries p e he).1, hEq, h.dev.doneCid d hMem]
    · rintro ⟨p, e, hOut, hRest⟩
      exact ⟨p, e, ((hOutIff p).mp hOut).1, hRest⟩

/-- One iteration of the loop of `poll_cq` consumes the next completion. -/
private theorem Inv.consume (h : Inv s known base got) {g : GetEvents}
    {l l' : PollLocals} {n' : NvmeData} (hPc : s.pc = .poll g l)
    (hIter : pollIter s.nvme (s.cq l.head.toNat) l = .next n' l') :
    ∃ known', Inv { s with nvme := n', pc := .poll g l', reaped := s.reaped + 1 }
      known' base got := by
  have hHost := h.host
  rw [hPc] at hHost
  cases hHost with
  | poll hBase hCount hGot hEvents hOld hAt =>
  obtain ⟨hNotMax, hPhase, ioU, hIo, hn', hl'⟩ := pollIter_next hIter
  obtain ⟨d, hd, hCqe⟩ := h.next_done hAt hPhase
  rw [← hCqe] at hIo hn'
  subst hn' hl'
  have hMem : d ∈ s.done := List.mem_of_getElem? hd
  have hLen : s.reaped < s.done.length := (List.getElem?_eq_some_iff.mp hd).1
  have hHead := h.dev.doneHead d hMem
  have hKnown := h.dev.known_le s.reaped d (Nat.le_refl _) hd
  have hRoom := h.sq.room
  have hAdvance := hAt.advance h.cq.depth_pos
  obtain ⟨hBelow, hSucc⟩ := l.count_succ hCount hNotMax
  refine ⟨d.head,
    { sq :=
        { h.sq with
          head := ?_
          known_le := hHead.1
          room := by dsimp only; omega }
      dev :=
        { h.dev with
          known_ge := h.dev.headLow s.reaped d hd
          known_le := ?_ }
      cq :=
        { h.cq with
          base_le := Nat.le_succ_of_le h.cq.base_le
          reaped_le := hLen }
      table :=
        { h.table with
          table := h.cleared hd
          got_le := Nat.le_succ_of_le h.table.got_le
          events := ?_ }
      host := .poll ?_ ?_ hGot hEvents { hOld with }
        { hAdvance with } }⟩
  · simp only [UInt16.toNat_toUInt32]
    exact hHead.2
  · intro i e hi he
    have hi : s.reaped + 1 ≤ i := hi
    have hiLen : i < s.done.length := (List.getElem?_eq_some_iff.mp he).1
    have hPair := List.pairwise_iff_getElem.mp h.dev.headMono s.reaped i hLen hiLen
      (by omega)
    rwa [(List.getElem?_eq_some_iff.mp hd).2, (List.getElem?_eq_some_iff.mp he).2]
      at hPair
  · intro i e hi he
    simp only [Function.update_apply, hEvents]
    by_cases hLast : got + i = s.reaped
    · rw [if_pos (by omega), ← h.ioU_eq hd hIo]
      rw [hLast] at he
      rw [Option.some.inj (hd.symm.trans he)]
    · rw [if_neg (by omega)]
      exact h.table.events i e (by dsimp only at hi; omega) he
  · dsimp only
    omega
  · dsimp only
    omega

/-- Leaving `poll_cq` publishes the new head. -/
private theorem Inv.leavePoll (h : Inv s known base got) {g : GetEvents}
    {l : PollLocals} (hPc : s.pc = .poll g l) :
    Inv { s with
      nvme := (pollEnd s.nvme l).1
      cqHeadDb := (pollEnd s.nvme l).2.getD s.cqHeadDb
      pc := .check { g with completions := g.completions + l.count.toNat } }
      known s.reaped got := by
  have hHost := h.host
  rw [hPc] at hHost
  cases hHost with
  | poll hBase hCount hGot hEvents hOld hAt =>
  have hLap := h.cq.lap
  unfold pollEnd
  by_cases hZero : l.count = 0
  · -- Nothing was reaped: the saved head and the doorbell are already right.
    have hCountZero : l.count.toNat = 0 := by rw [hZero]; rfl
    have hSame : base = s.reaped := by omega
    subst hSame
    rw [if_neg (by simpa using hZero)]
    exact
      { sq := { h.sq with }
        dev := { h.dev with }
        cq := { h.cq with }
        table := { h.table with }
        host := .check rfl (by dsimp only; omega) (by dsimp only; omega)
          { hOld with } }
  · rw [if_pos hZero]
    exact
      { sq := { h.sq with }
        dev := { h.dev with }
        cq :=
          { h.cq with
            base_le := Nat.le_refl _
            lap := by have := h.cq.base_le; dsimp only; omega
            headDb := hAt.head }
        table := { h.table with }
        host := .check rfl (by dsimp only; omega) (by dsimp only; omega)
          { hAt with } }

/-- The events `fio` collects are the requests of the completions reaped during
this call, in posting order. -/
private theorem Inv.collect (h : Inv s known base got) {g : GetEvents}
    (hGot : got + g.completions = s.reaped)
    (hEvents : s.nvme.nrEvents = g.completions) :
    ((List.range g.completions).map fun i : Nat => nvmeEvent s.nvme i) =
      ((s.done.drop got).take g.completions).map fun d =>
        s.log[d.pos]?.map Submitted.ioU := by
  have hLe := h.cq.reaped_le
  apply List.ext_getElem?
  intro i
  rw [List.getElem?_map, List.getElem?_map]
  rcases Nat.lt_or_ge i g.completions with hlt | hge
  · have hIdx : got + i < s.done.length := by omega
    have hd : s.done[got + i]? = some s.done[got + i] := List.getElem?_eq_getElem hIdx
    rw [List.getElem?_range hlt, List.getElem?_take_of_lt hlt, List.getElem?_drop, hd]
    simp only [Option.map_some, Option.some.injEq, nvmeEvent]
    rw [if_neg (by omega), if_neg (by omega), Int.toNat_natCast]
    exact h.table.events i _ (by omega) hd
  · rw [List.getElem?_eq_none (by simpa using hge),
      List.getElem?_eq_none (by rw [List.length_take]; omega)]
    rfl

/-- `nvme_getevents` returns. -/
theorem Inv.return (h : Inv s known base got) {g : GetEvents}
    (hPc : s.pc = .check g) : Inv (returnEvents s g) known base s.reaped := by
  have hHost := h.host
  rw [hPc] at hHost
  cases hHost with
  | check hBase hGot hEvents hAt =>
  exact
    { sq := { h.sq with }
      dev := { h.dev with }
      cq := { h.cq with }
      table :=
        { h.table with
          distinct := fun p q hp hq hpt hqt => h.table.distinct p q hp hq
            (fun hMem => hpt (takenPos_mono h.table.got_le hMem))
            (fun hMem => hqt (takenPos_mono h.table.got_le hMem))
          got_le := Nat.le_refl _
          delivered := by
            simp only [returnEvents]
            rw [h.collect hGot hEvents, h.table.delivered, ← List.map_append,
              ← hGot, List.take_add]
          events := fun i d hi => absurd hi (by simp [returnEvents]) }
      host := .idle hBase rfl { hAt with } }

/-- Every statement of `nvme_getevents` and `poll_cq` keeps the invariant. -/
theorem Inv.hostStep (h : Inv s known base got) {s' : Sys}
    (hStep : hostStep s = some s') : ∃ known base got, Inv s' known base got := by
  unfold Engine.hostStep at hStep
  split at hStep
  case h_1 => cases hStep
  case h_2 => cases hStep
  case h_3 g hPc =>
      split at hStep
      · cases hStep
        have hHost := h.host
        rw [hPc] at hHost
        cases hHost with
        | loop hBase hGot hEvents hAt =>
            exact ⟨_, _, _, h.move (.check hBase hGot hEvents hAt)⟩
      · cases hStep
        exact ⟨_, _, _, h.enterPoll hPc ‹_›⟩
  case h_4 g l hPc =>
      split at hStep
      · cases hStep
        exact ⟨_, _, _, h.move .exited⟩
      · cases hStep
        obtain ⟨known', h'⟩ := h.consume hPc ‹_›
        exact ⟨_, _, _, h'⟩
      · cases hStep
        exact ⟨_, _, _, h.leavePoll hPc⟩
  case h_5 g hPc =>
      split at hStep
      · cases hStep
        exact ⟨_, _, _, h.return hPc⟩
      · cases hStep
        have hHost := h.host
        rw [hPc] at hHost
        cases hHost with
        | check hBase hGot hEvents hAt =>
            exact ⟨_, _, _, h.move (.loop hBase hGot hEvents hAt)⟩

end GetEvents

end NewPerf.Engine
