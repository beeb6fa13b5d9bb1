import NewPerf.Tools.QueueRules

/-!
# The commands of one queue pair

A call that sends a command keeps track of it: `Trackable` lists what has to be
known of a command and of what is tracked, and `safe_submitTracked` is the rule for
submitting it.  For the Create and Delete commands of a pair the tracked fact is
`Flight`, which says that the pair moves to the next stage exactly when the
controller accepts the command.  `safe_createIoQueuePair`, `safe_deleteIoQueuePair`
and `safe_nvmeGetFileSize` follow the program texts.
-/

namespace NewPerf.Tools

open NewPerf.Lib.Programs

/-! ## Submitting a command and keeping track of it -/

/-- The command disturbs neither the others nor the memory of the call. -/
structure Sendable (N : Neighbours) (own : List Mem) (m : Hardware) (cmd : AdminCommand) :
    Prop where
  backed : QueuesBacked (m.send cmd)
  orderly : Orderly (m.send cmd)
  others : N.rely (m.send cmd)
  unused : ∀ mem ∈ own, ∀ i, m.Live i mem → Unnamed m i → Unnamed (m.send cmd) i

/-- `Pre` holds until the command is submitted, and `Track` with the number of the
command from then on. -/
structure Trackable (N : Neighbours) (c : ControllerData) (own : List Mem)
    (cmd : AdminCommand) (Pre : Hardware → Prop) (Track : Nat → Hardware → Prop) :
    Prop where
  preDevice : ∀ m b m', Pre m → m.device b = some m' → Pre m'
  preCongr : ∀ m m', Pre m → SameQueues m m' →
    (∀ i mem, m.Live i mem → m'.Live i mem) → Pre m'
  sendable : ∀ m, Working N c own m → Pre m → Sendable N own m cmd
  track : ∀ m, Working N c own m → Pre m → Track m.sent.length (m.send cmd)
  trackDevice : ∀ k m b m', Orderly m → QueuesBacked m → Track k m →
    m.device b = some m' → Track k m'
  trackCongr : ∀ k m m', Track k m → SameQueues m m' →
    (∀ i mem, m.Live i mem → m'.Live i mem) → Track k m'

/-- The command id is taken before the command is submitted. -/
def takeCmdId (c : ControllerData) : ControllerData :=
  { c with adminCmdId := c.adminCmdId + 1 }

section Submitting

variable {N : Neighbours} {c : ControllerData} {own : List Mem} {m : Hardware}
  {cmd : AdminCommand} {Pre : Hardware → Prop} {Track : Nat → Hardware → Prop}

theorem Base.takeCmdId (h : Base c m) : Base (takeCmdId c) m :=
  { h with wired := { h.wired with } }

theorem Working.send (h : Working N c own m) (hSend : Sendable N own m cmd)
    (hCid : cmd.cid = c.adminCmdId) (hFew : m.sent.length + 1 < 65536) :
    Working N (advanceAdminSq (Tools.takeCmdId c)) own (m.send cmd) where
  base := h.base.takeCmdId.send (by rw [hCid]; exact h.cmdId) hSend.backed hSend.orderly
  cmdId := by
    have hLen : (m.send cmd).sent.length = m.sent.length + 1 := by simp [Hardware.send]
    have hNext : (c.adminCmdId + 1).toNat = m.sent.length + 1 := by
      rw [UInt16.toNat_add, h.cmdId, UInt16.toNat_one]
      omega
    rw [hLen, ← hNext]
    rfl
  others := hSend.others
  adminSq := h.adminSq
  adminCq := h.adminCq
  unused mem hMem := by
    obtain ⟨i, hLive, hUnnamed⟩ := h.unused mem hMem
    exact ⟨i, hLive, hSend.unused mem hMem i hLive hUnnamed⟩
  clear := h.clear
  distinct := h.distinct

/-- Everything known while command number `k` is under way. -/
structure Underway (N : Neighbours) (c : ControllerData) (own : List Mem)
    (Track : Nat → Hardware → Prop) (k : Nat) (m : Hardware) : Prop where
  working : Working N c own m
  sent : k < m.sent.length
  tracked : Track k m

/-- How waiting for a tracked command ends. -/
def CommandPost (N : Neighbours) (own : List Mem) (Track : Nat → Hardware → Prop)
    (r : Bool × ControllerData) (m : Hardware) : Prop :=
  Working N r.2 own m ∧ ∃ k, Track k m ∧
    (r.1 = true → ∃ s, m.sent[k]? = some s ∧ s.progress = .posted true)

theorem safe_waitTracked {k : Nat} {cmdId : UInt16} {timeoutMs : UInt32}
    {c₀ : ControllerData} (hN : N.Kept)
    (hTrack : Trackable N c₀ own cmd Pre Track)
    (h : Underway N c own Track k m) (hCmdId : cmdId.toNat = k)
    (hPhase : k = 0 → c.adminCqPhase = 1) :
    SafeQueues (CommandPost N own Track) (waitAdminCompletion c cmdId timeoutMs)
      m := by
  have hStable : hardware.Stable (Underway N c own Track k) := by
    intro m b m' hm hEnv
    exact
      { working := Working.stable hN m b m' hm.working hEnv
        sent := by rw [device_sent_length hEnv]; exact hm.sent
        tracked := hTrack.trackDevice k m b m' hm.working.base.orderly
          hm.working.base.backed hm.tracked hEnv }
  have hDb : ∀ m v, Underway N c own Track k m →
      Underway N c own Track k { m with cqHeadDb := v } := by
    intro m v hm
    have hSame : SameQueues m { m with cqHeadDb := v } := ⟨rfl, rfl, rfl, rfl⟩
    exact
      { working := hm.working.congr hN (hm.working.base.cqHeadDb v) hSame fun _ _ hi => hi
        sent := hm.sent
        tracked := hTrack.trackCongr k m _ hm.tracked hSame fun _ _ hi => hi }
  refine (safe_waitCommand hStable h (fun m hm => ⟨hm.working.base, hm.sent⟩) hDb hCmdId
    hPhase).mono ?_
  rintro ⟨ok, c'⟩ m' ⟨hm, hBase, hc', hOk⟩
  refine ⟨?_, k, hm.tracked, hOk⟩
  rcases hc' with hSame | hNext
  · obtain rfl : c' = c := hSame
    exact hm.working
  · obtain rfl : c' = advanceAdminCq c := hNext
    exact { hm.working with base := hBase }

/-- The rule for submitting a command under the next id. -/
theorem safe_submitTracked {α : Type} {Q : α → Hardware → Prop}
    {k : Bool × ControllerData → Admin α} (hN : N.Kept)
    (hTrack : Trackable N c own cmd Pre Track) (hCid : cmd.cid = c.adminCmdId)
    (h : Working N c own m) (hPre : Pre m)
    (hNext : ∀ m n, Underway N (advanceAdminSq (takeCmdId c)) own Track n m →
      c.adminCmdId.toNat = n → (n = 0 → c.adminCqPhase = 1) →
      SafeQueues Q (k (true, advanceAdminSq (takeCmdId c))) m) :
    SafeQueues Q (submitCommand (takeCmdId c) cmd >>= k) m := by
  refine safe_submitCommand (P := fun m => Working N c own m ∧ Pre m) ?_ ⟨h, hPre⟩
    (fun m hm => hm.1.base.takeCmdId.wired) (fun m _ hm _ => hm.1.base.backed) ?_ ?_
  · rintro m b m' ⟨hm, hp⟩ hEnv
    exact ⟨Working.stable hN m b m' hm hEnv, hTrack.preDevice m b m' hp hEnv⟩
  · rintro m ⟨hm, hp⟩
    refine ⟨hm.congr hN (hm.base.putSqe _ _ _) ⟨rfl, rfl, rfl, rfl⟩ fun _ _ hi => hi, ?_⟩
    exact hTrack.preCongr m _ hp ⟨rfl, rfl, rfl, rfl⟩ fun _ _ hi => hi
  · rintro m ⟨hm, hp⟩ hFew
    refine hNext _ m.sent.length ?_ hm.cmdId fun hZero => ?_
    · exact
        { working := hm.send (hTrack.sendable m hm hp) hCid (hFew rfl)
          sent := by simp [Hardware.send]
          tracked := hTrack.track m hm hp }
    · exact hm.base.firstPhase (List.length_eq_zero_iff.mp hZero)

/-- What the conditions on a command come down to: the memory of a Create command is
the call's own, and a command about a completion queue is about one of its own. -/
theorem Working.sendable (h : Working N c own m) (hN : N.Kept)
    (hCreates : cmd.queueOp.Creates → ∃ i mem, m.Live i mem ∧ cmd.prp1 = mem.dmaAddr ∧
      (∀ f, N.memory f → mem.dmaAddr ≠ f.dmaAddr) ∧ ∀ o ∈ own, mem.dmaAddr ≠ o.dmaAddr)
    (hLeans : cmd.queueOp.Leans → (∃ i mem, m.cqs cmd.qid = some (some i) ∧
      m.Live i mem ∧ ∀ f, N.memory f → mem.dmaAddr ≠ f.dmaAddr) ∧
      ∀ (j : Nat) (s : Sent), m.sent[j]? = some s → s.progress = .waiting →
        s.cmd.queueOp.Leans → s.cmd.qid ≠ cmd.qid)
    (hDelete : cmd.queueOp = .deleteCq → m.sqs cmd.qid = none)
    (hOwnCq : cmd.queueOp = .createSq → cmd.cqid = cmd.qid) : Sendable N own m cmd := by
  have hMaps := h.base.wired.maps
  have hRegion : ∀ {i mem}, m.Live i mem → cmd.prp1 = mem.dmaAddr →
      (m.mapped cmd.prp1).map Mapping.number = some i := by
    intro i mem hi hPrp
    rw [hPrp, hMaps.mapped i mem hi]
    rfl
  -- Two allocations with different addresses have different numbers.
  have hApart : ∀ {i mem other}, m.Live i mem → mem.dmaAddr ≠ other.dmaAddr →
      ¬ m.Live i other := by
    intro i mem other hi hne hOther
    have hEq := Option.some.inj (hi.symm.trans hOther)
    exact hne (congrArg (fun r => r.mem.dmaAddr) hEq)
  refine ⟨?_, ?_, ?_, fun mem hMem i hi hUnnamed => hUnnamed.send fun hC hEq => ?_⟩
  · refine h.base.backed.send fun hC => ?_
    obtain ⟨i, mem, hi, hPrp, _⟩ := hCreates hC
    exact ⟨i, mem, hRegion hi hPrp, hi⟩
  · refine h.base.orderly.send hOwnCq (fun hL => ?_) hDelete fun hL => (hLeans hL).2
    obtain ⟨⟨i, _, hCq, _⟩, _⟩ := hLeans hL
    rw [hCq]
    nofun
  · refine hN.send m cmd h.others (fun hC i f hEq hf => ?_) fun hL i f hEq hf => ?_
    · obtain ⟨i', mem, hi, hPrp, hClear, _⟩ := hCreates hC
      obtain rfl := Option.some.inj ((hRegion hi hPrp).symm.trans hEq)
      exact hApart hi (hClear f hf)
    · obtain ⟨⟨i', mem, hCq, hi, hClear⟩, _⟩ := hLeans hL
      obtain rfl := Option.some.inj (Option.some.inj (hCq.symm.trans hEq))
      exact hApart hi (hClear f hf)
  · obtain ⟨i', mem', hi', hPrp, _, hOwn⟩ := hCreates hC
    obtain rfl := Option.some.inj ((hRegion hi' hPrp).symm.trans hEq)
    exact hApart hi' (hOwn mem hMem) hi

end Submitting

/-! ## A pair and the command that moves it -/

/-- The controller has accepted the command. -/
def Progress.accepted : Progress → Bool
  | .waiting => false
  | .executed a => a
  | .posted a => a

/-- Command number `k` takes the pair from `stage` to `stage'`. -/
structure Flight (q : UInt16) (stage stage' : Stage) (cqMem sqMem : Mem)
    (cmd : AdminCommand) (k : Nat) (m : Hardware) (rc rs : Nat) (s : Sent) : Prop where
  cqLive : m.Live rc cqMem
  sqLive : m.Live rs sqMem
  sent : m.sent[k]? = some s
  command : s.cmd = cmd
  cq : cmd.queueOp = .createCq → s.region = some rc
  sq : cmd.queueOp = .createSq → s.region = some rs
  stands : Stands m q (if s.progress.accepted then stage' else stage) rc rs (some k)

section Flights

variable {m m' : Hardware} {b : DeviceAct} {q : UInt16} {stage stage' : Stage}
  {cqMem sqMem : Mem} {cmd : AdminCommand} {k rc rs : Nat} {s : Sent}

theorem sent_setProgress_self {p : Progress} (h : m.sent[k]? = some s) :
    (m.setProgress k p).sent[k]? = some { s with progress := p } := by
  rw [Hardware.setProgress, List.getElem?_modify_eq, h]
  rfl

theorem sent_setProgress_ne {i : Nat} {p : Progress} (h : m.sent[k]? = some s)
    (hne : i ≠ k) : (m.setProgress i p).sent[k]? = some s := by
  rw [Hardware.setProgress, List.getElem?_modify_ne _ _ hne]
  exact h

/-- A command that has not just been accepted leaves the pair where it is. -/
private theorem Flight.keep (h : Flight q stage stage' cqMem sqMem cmd k m rc rs s)
    (hStep : m.device b = some m') {s' : Sent} (hs' : m'.sent[k]? = some s')
    (hCmd : s'.cmd = s.cmd) (hRegion : s'.region = s.region)
    (hAccepted : s'.progress.accepted = s.progress.accepted) :
    Flight q stage stage' cqMem sqMem cmd k m' rc rs s' where
  cqLive := (device_live hStep).mpr h.cqLive
  sqLive := (device_live hStep).mpr h.sqLive
  sent := hs'
  command := hCmd.trans h.command
  cq hOp := hRegion.trans (h.cq hOp)
  sq hOp := hRegion.trans (h.sq hOp)
  stands := by
    rw [hAccepted]
    refine h.stands.device_other hStep fun i x hx hWaiting hState hEq => ?_
    obtain rfl := Option.some.inj hEq
    obtain rfl := Option.some.inj (hx.symm.trans h.sent)
    rw [hState, sent_apply, sent_setProgress_self hx, Option.some.injEq] at hs'
    rw [← hs', hWaiting] at hAccepted
    cases hAccepted

theorem Flight.device (h : Flight q stage stage' cqMem sqMem cmd k m rc rs s)
    (hMove : Stage.Moves cmd.queueOp stage stage') (hQid : cmd.qid = q)
    (hOrderly : Orderly m) (hBacked : QueuesBacked m) (hStep : m.device b = some m') :
    ∃ s', Flight q stage stage' cqMem sqMem cmd k m' rc rs s' := by
  obtain ⟨i, x, hx, hWaiting, rfl⟩ | ⟨i, x, hx, hWaiting, hFree, rfl⟩ |
    ⟨i, x, a, sqhd, status, hx, hExecuted, _, rfl⟩ := Hardware.device_cases hStep
  · by_cases hik : i = k
    · subst hik
      obtain rfl := Option.some.inj (hx.symm.trans h.sent)
      refine ⟨_, h.keep hStep (sent_setProgress_self hx) rfl rfl ?_⟩
      rw [hWaiting]
      rfl
    · exact ⟨s, h.keep hStep (sent_setProgress_ne h.sent hik) rfl rfl rfl⟩
  · by_cases hik : i = k
    · subst hik
      obtain rfl := Option.some.inj (hx.symm.trans h.sent)
      have hStands := h.stands
      rw [hWaiting] at hStands
      refine ⟨{ x with progress := .executed true },
        { cqLive := (device_live hStep).mpr h.cqLive
          sqLive := (device_live hStep).mpr h.sqLive
          sent := ?_
          command := h.command
          cq := h.cq
          sq := h.sq
          stands := ?_ }⟩
      · rw [sent_apply]
        exact sent_setProgress_self hx
      · have hCmd := h.command
        subst hCmd
        exact hStands.accept hOrderly hBacked.attached hStep hFree hMove hQid h.cq h.sq
    · refine ⟨s, h.keep hStep ?_ rfl rfl rfl⟩
      rw [sent_apply]
      exact sent_setProgress_ne h.sent hik
  · by_cases hik : i = k
    · subst hik
      obtain rfl := Option.some.inj (hx.symm.trans h.sent)
      refine ⟨{ x with progress := .posted a }, h.keep hStep ?_ rfl rfl ?_⟩
      · exact sent_setProgress_self hx
      · rw [hExecuted]
        rfl
    · exact ⟨s, h.keep hStep (sent_setProgress_ne h.sent hik) rfl rfl rfl⟩

end Flights

/-- The pair's memory is live, and the pair is at `stage`. -/
def Paired (q : UInt16) (stage : Stage) (cqMem sqMem : Mem) (m : Hardware) : Prop :=
  ∃ rc rs, m.Live rc cqMem ∧ m.Live rs sqMem ∧ Stands m q stage rc rs none

/-- The state of a call that owns a queue pair and, besides, the memory in `own`. -/
structure Holding (N : Neighbours) (c : ControllerData) (q : UInt16) (stage : Stage)
    (cqMem sqMem : Mem) (own : List Mem) (m : Hardware) : Prop
    extends Working N c own m where
  pair : Paired q stage cqMem sqMem m
  cqClear : ∀ f, N.memory f → cqMem.dmaAddr ≠ f.dmaAddr
  sqClear : ∀ f, N.memory f → sqMem.dmaAddr ≠ f.dmaAddr
  cqDistinct : ∀ o ∈ own, cqMem.dmaAddr ≠ o.dmaAddr
  sqDistinct : ∀ o ∈ own, sqMem.dmaAddr ≠ o.dmaAddr
  pairDistinct : sqMem.dmaAddr ≠ cqMem.dmaAddr

section Pairs

variable {N : Neighbours} {c : ControllerData} {q : UInt16} {stage stage' : Stage}
  {cqMem sqMem : Mem} {own : List Mem} {m : Hardware} {cmd : AdminCommand}

theorem Paired.stable : hardware.Stable (Paired q stage cqMem sqMem) := by
  rintro m b m' ⟨rc, rs, hc, hs, hStands⟩ hStep
  exact ⟨rc, rs, (device_live hStep).mpr hc, (device_live hStep).mpr hs,
    hStands.device hStep⟩

theorem Paired.congr {m' : Hardware} (h : Paired q stage cqMem sqMem m)
    (hSame : SameQueues m m')
    (hLive : ∀ i mem, mem = cqMem ∨ mem = sqMem → m.Live i mem → m'.Live i mem) :
    Paired q stage cqMem sqMem m' := by
  obtain ⟨rc, rs, hc, hs, hStands⟩ := h
  exact ⟨rc, rs, hLive rc cqMem (.inl rfl) hc, hLive rs sqMem (.inr rfl) hs,
    hStands.congr hSame⟩

theorem Holding.stable (hN : N.Kept) :
    hardware.Stable (Holding N c q stage cqMem sqMem own) := fun m b m' h hStep =>
  { h with
    toWorking := Working.stable hN m b m' h.toWorking hStep
    pair := Paired.stable m b m' h.pair hStep }

/-- A pair without queues is memory that nothing uses. -/
theorem holding_none_iff : Holding N c q .none cqMem sqMem own m ↔
    Working N c (sqMem :: cqMem :: own) m := by
  constructor
  · intro h
    obtain ⟨rc, rs, hc, hs, hStands⟩ := h.pair
    obtain ⟨_, hcUnnamed, hsUnnamed⟩ := stands_none_iff.mp hStands
    refine { h.toWorking with unused := ?_, clear := ?_, distinct := ?_ }
    · intro mem hMem
      rcases List.mem_cons.mp hMem with rfl | hMem
      · exact ⟨rs, hs, hsUnnamed⟩
      · rcases List.mem_cons.mp hMem with rfl | hMem
        · exact ⟨rc, hc, hcUnnamed⟩
        · exact h.unused mem hMem
    · intro mem hMem
      rcases List.mem_cons.mp hMem with rfl | hMem
      · exact h.sqClear
      · rcases List.mem_cons.mp hMem with rfl | hMem
        · exact h.cqClear
        · exact h.clear mem hMem
    · refine List.pairwise_cons.mpr ⟨fun mem hMem => ?_,
        List.pairwise_cons.mpr ⟨h.cqDistinct, h.distinct⟩⟩
      rcases List.mem_cons.mp hMem with rfl | hMem
      · exact h.pairDistinct
      · exact h.sqDistinct mem hMem
  · intro h
    have hCqMem : cqMem ∈ sqMem :: cqMem :: own := List.mem_cons_of_mem _ List.mem_cons_self
    obtain ⟨rs, hs, hsUnnamed⟩ := h.unused sqMem List.mem_cons_self
    obtain ⟨rc, hc, hcUnnamed⟩ := h.unused cqMem hCqMem
    obtain ⟨hsDistinct, hRest⟩ := List.pairwise_cons.mp h.distinct
    obtain ⟨hcDistinct, hOwn⟩ := List.pairwise_cons.mp hRest
    have hPair : sqMem.dmaAddr ≠ cqMem.dmaAddr := hsDistinct cqMem List.mem_cons_self
    have hne : rc ≠ rs := by
      rintro rfl
      have hEq := Option.some.inj (hc.symm.trans hs)
      exact hPair (congrArg (fun r => r.mem.dmaAddr) hEq).symm
    exact
      { h with
        unused := fun mem hMem =>
          h.unused mem (List.mem_cons_of_mem _ (List.mem_cons_of_mem _ hMem))
        clear := fun mem hMem =>
          h.clear mem (List.mem_cons_of_mem _ (List.mem_cons_of_mem _ hMem))
        distinct := hOwn
        pair := ⟨rc, rs, hc, hs, stands_none_iff.mpr ⟨hne, hcUnnamed, hsUnnamed⟩⟩
        cqClear := h.clear cqMem hCqMem
        sqClear := h.clear sqMem List.mem_cons_self
        cqDistinct := hcDistinct
        sqDistinct := fun o ho => hsDistinct o (List.mem_cons_of_mem _ ho)
        pairDistinct := hPair }

/-- A command for the pair of the call: its identifier, the stages, and the memory of
a Create command. -/
structure PairCommand (cmd : AdminCommand) (q : UInt16) (stage stage' : Stage)
    (cqMem sqMem : Mem) : Prop where
  move : Stage.Moves cmd.queueOp stage stage'
  qid : cmd.qid = q
  cqPrp : cmd.queueOp = .createCq → cmd.prp1 = cqMem.dmaAddr
  sqPrp : cmd.queueOp = .createSq → cmd.prp1 = sqMem.dmaAddr
  cqid : cmd.queueOp = .createSq → cmd.cqid = q

/-- Only Create CQ starts without a completion queue. -/
theorem Stage.Moves.stage_ne_none {op : QueueOp} (h : Stage.Moves op stage stage')
    (hLeans : op.Leans) : stage ≠ .none := by
  cases h with
  | createCq => exact hLeans.elim
  | createSq => nofun
  | deleteSq => nofun
  | deleteCq => nofun

theorem Holding.sendable (h : Holding N c q stage cqMem sqMem own m)
    (hN : N.Kept) (hCmd : PairCommand cmd q stage stage' cqMem sqMem) :
    Sendable N own m cmd := by
  obtain ⟨rc, rs, hc, hs, hStands⟩ := h.pair
  refine h.toWorking.sendable hN (fun hC => ?_) (fun hL => ?_) (fun hDelete => ?_) fun hOp => ?_
  · cases hOp : cmd.queueOp with
    | createCq => exact ⟨rc, cqMem, hc, hCmd.cqPrp hOp, h.cqClear, h.cqDistinct⟩
    | createSq => exact ⟨rs, sqMem, hs, hCmd.sqPrp hOp, h.sqClear, h.sqDistinct⟩
    | deleteSq => rw [hOp] at hC; exact hC.elim
    | deleteCq => rw [hOp] at hC; exact hC.elim
    | other => rw [hOp] at hC; exact hC.elim
  · have hStage := hCmd.move.stage_ne_none hL
    rw [hCmd.qid]
    refine ⟨⟨rc, cqMem, hStands.cqIs hStage, hc, h.cqClear⟩, fun j s hs hW hL' => ?_⟩
    exact hStands.idle hStage j s hs nofun hW hL'
  · have hMove := hCmd.move
    rw [hDelete] at hMove
    cases hMove
    rw [hCmd.qid]
    exact hStands.sqNot rfl
  · rw [hCmd.qid]
    exact hCmd.cqid hOp

theorem Holding.flight (h : Holding N c q stage cqMem sqMem own m)
    (hCmd : PairCommand cmd q stage stage' cqMem sqMem) :
    ∃ rc rs s, Flight q stage stage' cqMem sqMem cmd m.sent.length (m.send cmd) rc rs s := by
  obtain ⟨rc, rs, hc, hs, hStands⟩ := h.pair
  have hMaps := h.base.wired.maps
  refine ⟨rc, rs, { cmd := cmd, region := (m.mapped cmd.prp1).map Mapping.number },
    { cqLive := hc
      sqLive := hs
      sent := List.getElem?_concat_length
      command := rfl
      cq := fun hOp => ?_
      sq := fun hOp => ?_
      stands := hStands.send_own }⟩
  · rw [hCmd.cqPrp hOp, hMaps.mapped rc cqMem hc]
    rfl
  · rw [hCmd.sqPrp hOp, hMaps.mapped rs sqMem hs]
    rfl

/-- The commands of a pair can be tracked. -/
theorem Holding.trackable (h : Holding N c q stage cqMem sqMem own m)
    (hN : N.Kept) (hCmd : PairCommand cmd q stage stage' cqMem sqMem) :
    Trackable N c own cmd (Paired q stage cqMem sqMem)
      (fun k m => ∃ rc rs s, Flight q stage stage' cqMem sqMem cmd k m rc rs s) where
  preDevice := Paired.stable
  preCongr m m' hm hSame hLive := hm.congr hSame fun i mem _ => hLive i mem
  sendable m hm hp := Holding.sendable { hm, h with pair := hp } hN hCmd
  track m hm hp := Holding.flight (m := m) { hm, h with pair := hp } hCmd
  trackDevice k m b m' hOrderly hBacked hm hStep := by
    obtain ⟨rc, rs, s, hFlight⟩ := hm
    obtain ⟨s', hFlight'⟩ :=
      hFlight.device hCmd.move hCmd.qid hOrderly hBacked hStep
    exact ⟨rc, rs, s', hFlight'⟩
  trackCongr k m m' hm hSame hLive := by
    obtain ⟨rc, rs, s, hFlight⟩ := hm
    refine ⟨rc, rs, s, { hFlight with
      cqLive := hLive _ _ hFlight.cqLive
      sqLive := hLive _ _ hFlight.sqLive
      sent := ?_
      stands := hFlight.stands.congr hSame }⟩
    rw [hSame.sent]
    exact hFlight.sent

/-- One command of the pair.  When it is reported to have succeeded the pair has moved
on; when not, the command may still be executed, and the pair is left to it. -/
theorem safe_pairCommand {opcode : UInt8} {prp1 : UInt64} {cdw10 cdw11 : UInt32}
    (hN : N.Kept) (h : Holding N c q stage cqMem sqMem own m)
    (hCmd : PairCommand { opcode, cid := c.adminCmdId, prp1, cdw10, cdw11 } q stage stage'
      cqMem sqMem) :
    SafeQueues
      (fun r m' => if r.1 then Holding N r.2 q stage' cqMem sqMem own m'
        else Working N r.2 own m')
      (adminCommand c opcode prp1 cdw10 cdw11) m := by
  have hTrack := h.trackable hN hCmd
  refine safe_submitTracked hN hTrack rfl h.toWorking h.pair fun m' n hm' hId hPhase => ?_
  refine (safe_waitTracked hN hTrack hm' hId hPhase).mono ?_
  rintro ⟨ok, c'⟩ m'' ⟨hWorking, k, ⟨rc, rs, s, hFlight⟩, hOk⟩
  cases ok with
  | false => exact hWorking
  | true =>
      obtain ⟨s', hs', hPosted⟩ := hOk rfl
      obtain rfl := Option.some.inj (hs'.symm.trans hFlight.sent)
      have hStands := hFlight.stands
      rw [hPosted] at hStands
      exact
        { hWorking, h with
          pair := ⟨rc, rs, hFlight.cqLive, hFlight.sqLive,
            hStands.settle hFlight.sent ⟨true, hPosted⟩⟩ }

end Pairs

/-! ## Creating a pair -/

section Programs

variable {α : Type} {N : Neighbours} {c : ControllerData} {own : List Mem}
  {m : Hardware} {Q : α → Hardware → Prop} {a : α}

theorem safe_returnWorking (hN : N.Kept) (h : Working N c own m)
    (hQ : ∀ m, Working N c own m → Q a m) : SafeQueues Q (.pure a) m :=
  Safe.pure (Working.stable hN) h (fun _ hm => hm.base.backed) hQ

/-- An error is reported before the function returns. -/
theorem safe_reportWorking {message : String} (hN : N.Kept)
    (h : Working N c own m) (hQ : ∀ m, Working N c own m → Q a m) :
    SafeQueues Q (.op (.printErrno message) fun _ => .pure a) m :=
  safe_effect (Working.stable hN) h (fun _ hm => hm.base.backed)
    fun _ _ hm _ _ => safe_returnWorking hN hm hQ

/-- Whatever CAP reads as. -/
theorem safe_capBacked {P : Hardware → Prop} {bar0 : UInt64}
    {k : Option UInt64 → Admin α} (hStable : hardware.Stable P)
    (hBacked : ∀ m, P m → QueuesBacked m) (hBar0 : bar0 ≠ 0) (hP : P m)
    (hNext : ∀ m cap, P m → SafeQueues Q (k (some cap)) m) :
    SafeQueues Q (nvmeRegRead64 bar0 nvmeRegCap >>= k) m := by
  rw [nvmeRegRead64_cap hBar0]
  refine safe_effect hStable hP hBacked fun m lo hm _ _ => ?_
  refine safe_effect hStable hm hBacked fun m hi hm _ _ => ?_
  exact hNext m _ hm

theorem Working.perm {own' : List Mem} (h : Working N c own m)
    (hPerm : own.Perm own') : Working N c own' m :=
  { h with
    unused := fun mem hMem => h.unused mem (hPerm.mem_iff.mpr hMem)
    clear := fun mem hMem => h.clear mem (hPerm.mem_iff.mpr hMem)
    distinct := (hPerm.pairwise_iff fun hne => hne.symm).mp h.distinct }

/-- Memory of a call can be given up. -/
theorem Holding.sublist {q : UInt16} {stage : Stage} {cqMem sqMem : Mem} {own' : List Mem}
    (h : Holding N c q stage cqMem sqMem own m) (hSub : own'.Sublist own) :
    Holding N c q stage cqMem sqMem own' m :=
  { h with
    unused := fun mem hMem => h.unused mem (hSub.subset hMem)
    clear := fun mem hMem => h.clear mem (hSub.subset hMem)
    distinct := h.distinct.sublist hSub
    cqDistinct := fun o ho => h.cqDistinct o (hSub.subset ho)
    sqDistinct := fun o ho => h.sqDistinct o (hSub.subset ho) }

theorem toUInt16_queueSize (q : UInt16) (x : UInt32) :
    (q.toUInt32 ||| (x <<< 16)).toUInt16 = q := by
  apply UInt16.toNat_inj.mp
  apply Nat.eq_of_testBit_eq
  intro i
  rw [UInt32.toNat_toUInt16, Nat.testBit_mod_two_pow, UInt32.toNat_or, Nat.testBit_or,
    UInt16.toNat_toUInt32, UInt32.toNat_shiftLeft, Nat.testBit_mod_two_pow,
    Nat.testBit_shiftLeft]
  by_cases hLow : i < 16
  · have hShift : ¬ 16 ≤ i := by omega
    simp [hLow, hShift]
  · have hZero : q.toNat.testBit i = false :=
      Nat.testBit_lt_two_pow (Nat.lt_of_lt_of_le q.toNat_lt
        (Nat.pow_le_pow_right (by decide) (by omega)))
    simp [hLow, hZero]

/-- A Create SQ command names the completion queue of the same identifier. -/
theorem cqid_createSq (q : UInt16) :
    (((q.toUInt32 <<< 16) ||| nvmeQueuePhysContiguous) >>> 16).toUInt16 = q := by
  have hOne : ∀ i, Nat.testBit 1 (16 + i) = false := fun i =>
    Nat.testBit_lt_two_pow (Nat.one_lt_two_pow (by omega))
  apply UInt16.toNat_inj.mp
  apply Nat.eq_of_testBit_eq
  intro i
  rw [UInt32.toNat_toUInt16, Nat.testBit_mod_two_pow, UInt32.toNat_shiftRight,
    Nat.testBit_shiftRight, UInt32.toNat_or, Nat.testBit_or, UInt32.toNat_shiftLeft,
    Nat.testBit_mod_two_pow, Nat.testBit_shiftLeft, UInt16.toNat_toUInt32]
  by_cases hLow : i < 16
  · have hWide : 16 + i < 32 := by omega
    simp [hLow, hWide, nvmeQueuePhysContiguous, hOne]
  · have hZero : q.toNat.testBit i = false :=
      Nat.testBit_lt_two_pow (Nat.lt_of_lt_of_le q.toNat_lt
        (Nat.pow_le_pow_right (by decide) (by omega)))
    simp [hLow, hZero]

section Commands

variable {q cid : UInt16} {x cdw11 : UInt32} {cqMem sqMem : Mem}

theorem pairCommand_createCq :
    PairCommand { opcode := nvmeAdminCreateIoCqOpcode, cid, prp1 := cqMem.dmaAddr
                  cdw10 := q.toUInt32 ||| (x <<< 16), cdw11 } q .none .cq cqMem sqMem :=
  ⟨.createCq, toUInt16_queueSize q x, fun _ => rfl, nofun, nofun⟩

theorem pairCommand_createSq :
    PairCommand { opcode := nvmeAdminCreateIoSqOpcode, cid, prp1 := sqMem.dmaAddr
                  cdw10 := q.toUInt32 ||| (x <<< 16)
                  cdw11 := (q.toUInt32 <<< 16) ||| nvmeQueuePhysContiguous }
      q .cq .both cqMem sqMem :=
  ⟨.createSq, toUInt16_queueSize q x, nofun, fun _ => rfl, fun _ => cqid_createSq q⟩

theorem pairCommand_deleteSq :
    PairCommand { opcode := nvmeAdminDeleteIoSqOpcode, cid, prp1 := 0
                  cdw10 := q.toUInt32, cdw11 } q .both .cq cqMem sqMem :=
  ⟨.deleteSq, UInt16.toUInt16_toUInt32 q, nofun, nofun, nofun⟩

theorem pairCommand_deleteCq :
    PairCommand { opcode := nvmeAdminDeleteIoCqOpcode, cid, prp1 := 0
                  cdw10 := q.toUInt32, cdw11 } q .cq .none cqMem sqMem :=
  ⟨.deleteCq, UInt16.toUInt16_toUInt32 q, nofun, nofun, nofun⟩

end Commands

/-- `nvme_cleanup` will find the queues of the pair. -/
structure Reported (n : NvmeData) : Prop where
  sq : n.ioSqVirtAddr ≠ 0
  cq : n.ioCqVirtAddr ≠ 0

/-- How creating a pair for `n` ends. -/
def CreatePost (N : Neighbours) (n : NvmeData) (r : Bool × ControllerData × NvmeData)
    (m : Hardware) : Prop :=
  if r.1 then
    Holding N r.2.1 (nvmeIoQid r.2.2) .both r.2.2.ioCqMem r.2.2.ioSqMem
      [r.2.2.ioPrpListMem] m ∧ Reported r.2.2 ∧ r.2.2.ioUDataMem = n.ioUDataMem
  else Working N r.2.1 [] m

theorem safe_createQueues {n : NvmeData} {cap : UInt64} {ioSqDepth ioCqDepth : UInt32}
    (hN : N.Kept)
    (h : Working N c [n.ioSqMem, n.ioCqMem, n.ioPrpListMem] m) :
    SafeQueues (CreatePost N n) (createQueues c n cap ioSqDepth ioCqDepth) m := by
  unfold createQueues
  refine (safe_pairCommand hN (holding_none_iff.mpr h) pairCommand_createCq).bind ?_
  rintro ⟨cqOk, c₁⟩ m₁ h₁
  cases cqOk with
  | false =>
      have hWorking : Working N c₁ [n.ioPrpListMem] m₁ := h₁
      exact safe_returnWorking hN hWorking fun m hm => hm.drop
  | true =>
      have hCq : Holding N c₁ (nvmeIoQid n) .cq n.ioCqMem n.ioSqMem
        [n.ioPrpListMem] m₁ := h₁
      refine (safe_pairCommand hN hCq pairCommand_createSq).bind ?_
      rintro ⟨sqOk, c₂⟩ m₂ h₂
      cases sqOk with
      | false =>
          have hWorking : Working N c₂ [n.ioPrpListMem] m₂ := h₂
          exact safe_returnWorking hN hWorking fun m hm => hm.drop
      | true =>
          have hBoth : Holding N c₂ (nvmeIoQid n) .both n.ioCqMem n.ioSqMem
            [n.ioPrpListMem] m₂ := h₂
          have hSqReal := h.real List.mem_cons_self
          have hCqReal := h.real (List.mem_cons_of_mem _ List.mem_cons_self)
          refine Safe.pure (Holding.stable hN) hBoth (fun _ hm => hm.base.backed)
            fun m hm => ⟨hm, ⟨?_, ?_⟩, rfl⟩
          · exact fun hZero => hSqReal (.inl hZero)
          · exact fun hZero => hCqReal (.inl hZero)

theorem safe_allocQueues {n : NvmeData} {cap : UInt64} {ioSqDepth ioCqDepth : UInt32}
    (hN : N.Kept) (h : Working N c [] m) :
    SafeQueues (CreatePost N n) (allocQueues c n cap ioSqDepth ioCqDepth) m := by
  unfold allocQueues
  refine (safe_allocWorking hN h).bind ?_
  rintro ⟨cqOk, c₁, cqMem⟩ m₁ h₁
  cases cqOk with
  | false => exact safe_returnWorking hN h₁.1 fun m hm => hm
  | true =>
      have hCq : Working N c₁ [cqMem] m₁ := h₁
      refine (safe_allocWorking hN hCq).bind ?_
      rintro ⟨sqOk, c₂, sqMem⟩ m₂ h₂
      cases sqOk with
      | false =>
          refine (safe_freeWorking hN h₂.1).bind ?_
          rintro _ m₃ ⟨_, h₃⟩
          exact safe_returnWorking hN h₃ fun m hm => hm
      | true =>
          have hSq : Working N c₂ [sqMem, cqMem] m₂ := h₂
          refine (safe_allocWorking hN hSq).bind ?_
          rintro ⟨prpOk, c₃, prpMem⟩ m₃ h₃
          cases prpOk with
          | false =>
              refine (safe_freeWorking hN h₃.1).bind ?_
              rintro _ m₄ ⟨_, h₄⟩
              refine (safe_freeWorking hN h₄).bind ?_
              rintro _ m₅ ⟨_, h₅⟩
              exact safe_returnWorking hN h₅ fun m hm => hm
          | true =>
              have hPrp : Working N c₃ [prpMem, sqMem, cqMem] m₃ := h₃
              refine safe_zeroWorking hN hPrp (by simp) fun m₄ h₄ => ?_
              refine safe_zeroWorking hN h₄ (by simp) fun m₅ h₅ => ?_
              refine safe_zeroWorking hN h₅ (by simp) fun m₆ h₆ => ?_
              have hOrder : [prpMem, sqMem, cqMem].Perm [sqMem, cqMem, prpMem] :=
                @List.perm_append_comm _ [prpMem] [sqMem, cqMem]
              exact safe_createQueues hN (h₆.perm hOrder)

theorem safe_createIoQueuePair {n : NvmeData} (hN : N.Kept)
    (h : Working N c [] m) :
    SafeQueues (CreatePost N n) (createIoQueuePair c n) m := by
  unfold createIoQueuePair
  have hReport : ∀ {m : Hardware} {message : String}, Working N c [] m →
      SafeQueues (CreatePost N n)
        (.op (.printErrno message) fun _ => .pure (false, c, n)) m :=
    fun hm => safe_reportWorking hN hm fun m hm => hm
  split
  · exact hReport h
  split
  · exact hReport h
  split
  · exact hReport h
  split
  · exact hReport h
  rename_i hBar0 _ _ _
  refine safe_capBacked (Working.stable hN) (fun _ hm => hm.base.backed) hBar0 h
    fun m cap hm => ?_
  dsimp only
  split
  · exact hReport hm
  split
  · exact hReport hm
  split
  · exact hReport hm
  exact safe_allocQueues hN hm

/-! ## Deleting a pair -/

/-- The data buffer of a thread, if it has one. -/
def dataBuffer (n : NvmeData) : List Mem :=
  if n.ioUDataMem.Null then [] else [n.ioUDataMem]

theorem safe_releasePair {n : NvmeData} (hN : N.Kept)
    (h : Working N c
      (n.ioSqMem :: n.ioCqMem :: n.ioPrpListMem :: dataBuffer n) m) :
    SafeQueues (fun r m' => Working N r.2.1 [] m') (releasePair c n) m := by
  unfold releasePair
  refine (safe_freeWorking hN h).bind ?_
  rintro _ m₁ ⟨_, h₁⟩
  refine (safe_freeWorking hN h₁).bind ?_
  rintro _ m₂ ⟨_, h₂⟩
  refine (safe_freeWorking hN h₂).bind ?_
  rintro _ m₃ ⟨_, h₃⟩
  have hData : SafeQueues (fun _ m' => Working N c [] m')
      (freeDma n.ioUDataMem) m₃ := by
    unfold dataBuffer at h₃
    split at h₃
    · rename_i hNull
      rw [freeDma_null hNull]
      exact safe_returnWorking hN h₃ fun m hm => hm
    · exact (safe_freeWorking hN h₃).mono fun _ _ hm => hm.2
  exact hData.bind fun _ m₄ h₄ => safe_returnWorking hN h₄ fun m hm => hm

theorem safe_deleteIoQueuePair {n : NvmeData} (hN : N.Kept)
    (hReported : Reported n)
    (h : Holding N c (nvmeIoQid n) .both n.ioCqMem n.ioSqMem
      (n.ioPrpListMem :: dataBuffer n) m) :
    SafeQueues (fun r m' => Working N r.2.1 [] m') (deleteIoQueuePair c n) m := by
  unfold deleteIoQueuePair
  have hReport : ∀ {m : Hardware} {message : String},
      Holding N c (nvmeIoQid n) .both n.ioCqMem n.ioSqMem
        (n.ioPrpListMem :: dataBuffer n) m →
      SafeQueues (fun r m' => Working N r.2.1 [] m')
        (.op (.printErrno message) fun _ => .pure (false, c, n)) m :=
    fun hm => safe_reportWorking hN hm.toWorking fun m hm => hm.drop
  split
  · exact hReport h
  split
  · exact hReport h
  split
  · exact hReport h
  rename_i hBar0 _ _
  rw [if_neg fun hNone => hReported.sq hNone.1]
  refine safe_capBacked (Holding.stable hN) (fun _ hm => hm.base.backed) hBar0 h
    fun m cap hm => ?_
  dsimp only
  split
  · exact hReport hm
  rw [deleteIfPresent, if_pos hReported.sq]
  refine (safe_pairCommand hN hm pairCommand_deleteSq).bind ?_
  rintro ⟨sqOk, c₁⟩ m₁ h₁
  cases sqOk with
  | false => exact safe_returnWorking hN h₁ fun m hm => hm.drop
  | true =>
      have hCq : Holding N c₁ (nvmeIoQid n) .cq n.ioCqMem n.ioSqMem
        (n.ioPrpListMem :: dataBuffer n) m₁ := h₁
      dsimp only
      rw [deleteIfPresent, if_pos hReported.cq]
      refine (safe_pairCommand hN hCq pairCommand_deleteCq).bind ?_
      rintro ⟨cqOk, c₂⟩ m₂ h₂
      cases cqOk with
      | false => exact safe_returnWorking hN h₂ fun m hm => hm.drop
      | true => exact safe_releasePair hN (holding_none_iff.mp h₂)

/-! ## Asking for the size -/

theorem safe_readSize {identify : Mem} (hN : N.Kept)
    (h : Working N c [identify] m) :
    SafeQueues (fun r m' => Working N r.2 [] m') (readFileSize c identify) m := by
  unfold readFileSize
  refine safe_effect (Working.stable hN) h (fun _ hm => hm.base.backed)
    fun m₁ data h₁ _ _ => ?_
  show SafeQueues _ (if h : (identifyLbaShift data).toNat < 64 then _ else _) m₁
  split
  · refine (safe_freeWorking hN h₁).bind ?_
    rintro _ m₂ ⟨_, h₂⟩
    exact safe_returnWorking hN h₂ fun m hm =>
      { hm with base := { hm.base with wired := { hm.base.wired with } } }
  · refine safe_effect (Working.stable hN) h₁ (fun _ hm => hm.base.backed)
      fun m₂ _ h₂ _ _ => ?_
    refine (safe_freeWorking hN h₂).bind ?_
    rintro _ m₃ ⟨_, h₃⟩
    exact safe_returnWorking hN h₃ fun m hm => hm

theorem safe_identify {identify : Mem} (hN : N.Kept)
    (h : Working N c [identify] m) :
    SafeQueues (fun r m' => Working N r.2 [] m') (identifyFileSize c identify)
      m := by
  have hTrack : Trackable N c [identify]
      { opcode := nvmeAdminIdentifyOpcode, cid := c.adminCmdId, nsid := c.nsid.toUInt32
        prp1 := identify.dmaAddr, cdw10 := nvmeIdentifyCnsNamespace }
      (fun _ => True) (fun _ _ => True) :=
    { preDevice := fun _ _ _ _ _ => trivial
      preCongr := fun _ _ _ _ _ => trivial
      sendable := fun m hm _ =>
        hm.sendable hN (fun hC => hC.elim) (fun hL => hL.elim) nofun nofun
      track := fun _ _ _ => trivial
      trackDevice := fun _ _ _ _ _ _ _ _ => trivial
      trackCongr := fun _ _ _ _ _ _ => trivial }
  unfold identifyFileSize
  refine safe_zeroWorking hN h List.mem_cons_self fun m₁ h₁ => ?_
  refine safe_submitTracked hN hTrack rfl h₁ trivial fun m₂ n h₂ hId hPhase => ?_
  refine (safe_waitTracked hN hTrack h₂ hId hPhase).bind ?_
  rintro ⟨completed, c'⟩ m₃ ⟨h₃, _⟩
  cases completed with
  | false =>
      refine (safe_freeWorking hN h₃).bind ?_
      rintro _ m₄ ⟨_, h₄⟩
      exact safe_returnWorking hN h₄ fun m hm => hm
  | true => exact safe_readSize hN h₃

theorem safe_fileSize (hN : N.Kept) (h : Working N c [] m) :
    SafeQueues (fun r m' => Working N r.2 [] m') (nvmeGetFileSize c) m := by
  unfold nvmeGetFileSize
  have hReport : ∀ {m : Hardware} {message : String}, Working N c [] m →
      SafeQueues (fun (r : UInt64 × ControllerData) m' => Working N r.2 [] m')
        (.op (.printErrno message) fun _ => .pure (0, c)) m :=
    fun hm => safe_reportWorking hN hm fun m hm => hm
  split
  · exact hReport h
  split
  · exact hReport h
  rename_i hBar0 _
  have hBar0 : c.bar0Virt ≠ 0 := fun hZero => hBar0 (.inl hZero)
  refine safe_capBacked (Working.stable hN) (fun _ hm => hm.base.backed) hBar0 h
    fun m cap hm => ?_
  dsimp only
  split
  · exact hReport hm
  refine (safe_allocWorking hN hm).bind ?_
  rintro ⟨allocated, c₁, identify⟩ m₁ h₁
  cases allocated with
  | false => exact safe_returnWorking hN h₁.1 fun m hm => hm
  | true => exact safe_identify hN h₁

end Programs

end NewPerf.Tools
