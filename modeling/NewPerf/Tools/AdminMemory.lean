import NewPerf.Tools.ControllerInit

/-!
# Memory the controller can reach through the admin path

Besides the admin queues, the controller is handed a buffer with each Identify
command of `nvme_get_file_size`.  `releasedBeforeFree_of_run` shows that the controller
is done with whatever `free_dma` is about to release, in every run in which no wait
gives up while the controller is armed; a wait that gives up is followed by the same
`free_dma` calls all the same.
-/

namespace NewPerf.Tools

open NewPerf.Lib.Logs
open NewPerf.Lib.Programs
open NewPerf.Lib.Ring
open NewPerf.Lib.Runs

/-! ## `nvme_get_file_size` -/

/-- One command is under way: it is the last one the controller was told of, and
its completion is the next one the host will read. -/
structure Flying (c : ControllerData) (m : Hardware) (n : Nat) (cmd : AdminCommand) :
    Prop extends Wired c m where
  armed : m.armed = [c.adminSqMem.dmaAddr, c.adminCqMem.dmaAddr]
  unseen : m.unseen ⊆ m.armed
  tail : c.adminSqTail.toNat = (n + 1) % 32
  head : c.adminCqHead.toNat = n % 32
  phase : c.adminCqPhase.toNat = phaseOf 32 n
  ring : PhaseRing 32 (m.cqe c.adminCqVirtAddr) cqePhase m.posted
  command : ∃ old s, m.sent = old ++ [s] ∧
    (∀ x ∈ old, ∃ accepted, x.progress = .posted accepted) ∧ s.cmd = cmd ∧
    (((∀ accepted, s.progress ≠ .posted accepted) ∧ m.posted.length = n) ∨
      ((∃ accepted, s.progress = .posted accepted) ∧ m.posted.length = n + 1 ∧
        ∃ e, m.posted[n]? = some e ∧ e.cid = cmd.cid))

section Command

variable {m m' : Hardware} {c : ControllerData} {n : Nat} {cmd : AdminCommand}

/-- Among commands of which all but the last are complete, one that is not complete
is the last. -/
private theorem last_of_incomplete {old : List Sent} {s x : Sent} {i : Nat}
    (hOld : ∀ x ∈ old, ∃ accepted, x.progress = .posted accepted)
    (hx : (old ++ [s])[i]? = some x) (hProgress : ∀ accepted, x.progress ≠ .posted accepted) :
    i = old.length ∧ x = s := by
  rcases getElem?_concat_cases hx with hx | hLast
  · obtain ⟨accepted, hPosted⟩ := hOld x (List.mem_of_getElem? hx)
    exact absurd hPosted (hProgress accepted)
  · exact hLast

private theorem modify_last (old : List Sent) (s : Sent) (f : Sent → Sent) :
    (old ++ [s]).modify old.length f = old ++ [f s] := by
  induction old with
  | nil => rfl
  | cons x old ih => simp [ih]

/-- The controller executes or completes the command, and nothing else. -/
theorem Flying.device (h : Flying c m n cmd) {b : DeviceAct}
    (hStep : m.device b = some m') : Flying c m' n cmd := by
  have hWired := h.toWired.device hStep
  obtain ⟨old, s, hSent, hOld, hCmd, hState⟩ := h.command
  have hIncomplete : (∀ accepted, s.progress ≠ .posted accepted) →
      m.posted.length = n := fun hNot =>
    hState.elim (·.2) fun ⟨⟨accepted, hPosted⟩, _⟩ => absurd hPosted (hNot accepted)
  obtain ⟨i, x, hx, hWaiting, rfl⟩ | ⟨i, x, hx, hWaiting, _, rfl⟩ |
    ⟨i, x, accepted, sqhd, status, hx, hExecuted, _, rfl⟩ := Hardware.device_cases hStep
  · rw [hSent] at hx
    obtain ⟨rfl, rfl⟩ := last_of_incomplete hOld hx (by simp [hWaiting])
    have hLength := hIncomplete (by simp [hWaiting])
    refine { hWired, h with command := ⟨old, { x with progress := .executed false }, ?_,
      hOld, hCmd, .inl ⟨nofun, hLength⟩⟩ }
    rw [Hardware.setProgress, hSent]
    exact modify_last old x _
  · rw [hSent] at hx
    obtain ⟨rfl, rfl⟩ := last_of_incomplete hOld hx (by simp [hWaiting])
    have hLength := hIncomplete (by simp [hWaiting])
    rw [Hardware.apply_eq] at hWired ⊢
    refine { hWired, h with command := ⟨old, { x with progress := .executed true }, ?_,
      hOld, hCmd, .inl ⟨nofun, hLength⟩⟩ }
    show (m.setProgress old.length (.executed true)).sent = _
    rw [Hardware.setProgress, hSent]
    exact modify_last old x _
  · rw [hSent] at hx
    obtain ⟨rfl, rfl⟩ := last_of_incomplete hOld hx (by simp [hExecuted])
    have hLength := hIncomplete (by simp [hExecuted])
    have hDepth := (Hardware.adminDepths h.aqa).2
    have hPhase : cqePhase (m.adminCqe x sqhd status) = phaseOf 32 m.posted.length := by
      rw [cqePhase_of_psf rfl (phaseOf_lt_two _ _), hDepth]
    refine { hWired, h with
      ring := ?_
      command := ⟨old, { x with progress := .posted accepted }, ?_, hOld, hCmd,
        .inr ⟨⟨accepted, rfl⟩, ?_, m.adminCqe x sqhd status, ?_, ?_⟩⟩ }
    · show PhaseRing 32 (Function.update m.cqe (m.virtOf m.acq) _ c.adminCqVirtAddr)
        cqePhase _
      rw [h.virtOf_acq, Function.update_self, hDepth]
      exact h.ring.post (by decide) hPhase
    · show (m.setProgress old.length (.posted accepted)).sent = _
      rw [Hardware.setProgress, hSent]
      exact modify_last old x _
    · simp [hLength]
    · simp [← hLength]
    · rw [← hCmd]
      rfl

theorem Flying.stable : hardware.Stable (Flying c · n cmd) :=
  fun _ _ _ h hEnv => h.device hEnv

/-- An entry with the expected phase completes the command. -/
theorem Flying.completed (h : Flying c m n cmd) (hFresh : Fresh c m) :
    m.Quiet ∧ m.posted.length = n + 1 ∧
      (m.cqe c.adminCqVirtAddr c.adminCqHead.toNat).cid = cmd.cid := by
  obtain ⟨old, s, hSent, hOld, hCmd, hState⟩ := h.command
  rw [Fresh, h.head, h.phase] at hFresh
  rw [h.head]
  rcases hState with ⟨_, hLength⟩ | ⟨hPosted, hLength, e, hEntry, hCid⟩
  · have hTag := (h.ring.tag_iff (r := n) (by omega) (by omega)).mp hFresh
    omega
  · have hSlot := h.ring.slot_eq (r := n) (by omega) (by omega)
    rw [hEntry, Option.some.injEq] at hSlot
    rw [← hSlot]
    refine ⟨fun x hx => ?_, hLength, hCid⟩
    rw [hSent, List.mem_append, List.mem_singleton] at hx
    rcases hx with hx | rfl
    · exact hOld x hx
    · exact hPosted

/-- Taking the completion brings the host back in step. -/
theorem Flying.up (h : Flying c m n cmd) (hQuiet : m.Quiet)
    (hLength : m.posted.length = n + 1) : Up (advanceAdminCq c) m (n + 1) := by
  obtain ⟨hHead, hPhase⟩ := h.toWired.advanceAdminCq h.head h.phase
  exact
    { h with
      cqHead_lt := by rw [hHead]; omega
      tail := h.tail
      head := hHead
      phase := hPhase
      posted := hLength
      quiet := hQuiet }

/-- Submitting a command puts it under way. -/
theorem Up.send (h : Up c m n) (cmd : AdminCommand) :
    Flying (advanceAdminSq c) (m.send cmd) n cmd := by
  have hWired := h.toWired.send cmd
  have hTail : (advanceAdminSq c).adminSqTail.toNat = (n + 1) % 32 := by
    rw [advanceAdminSq, h.sqDepth]
    rw [toNat_adminAdvance h.sqTail_lt, h.tail, Nat.mod_add_mod]
  exact
    { hWired with
      armed := h.armed
      unseen := h.unseen
      tail := hTail
      head := h.head
      phase := h.phase
      ring := h.ring
      command := ⟨m.sent, _, rfl, h.quiet, rfl,
        .inl ⟨fun _ hPosted => (by cases hPosted), h.posted⟩⟩ }

theorem Up.stable : hardware.Stable (Up c · n) :=
  Hardware.stable_of_quiet fun _ h => h.quiet

theorem safe_waitFlying {cmdId : UInt16} {timeoutMs : UInt32} (h : Flying c m n cmd)
    (hCmdId : cmd.cid = cmdId) :
    SafeAdmin (fun r m' => Up r.2 m' (n + 1) ∧ r.2.adminSqMem = c.adminSqMem ∧
        r.2.adminCqMem = c.adminCqMem)
      (waitAdminCompletion c cmdId timeoutMs) m := by
  subst hCmdId
  unfold waitAdminCompletion
  refine safe_waitAdminCompletionLoop (P := (Flying c · n cmd))
    (T := fun _ m' => Flying c m' n cmd ∧ m'.Quiet ∧ m'.posted.length = n + 1)
    (O := fun _ => False) Flying.stable ?_ (fun _ _ _ h _ => h) h
    (fun _ m hm => hm.1.toWired) (fun _ _ _ hE => spec_other hE.release)
    (fun _ _ _ _ hE => spec_other hE.release) ?_ ?_ (fun _ => False.elim) ?_ ?_ ?_
  · exact fun _ => Hardware.stable_of_quiet fun _ hm => hm.2.1
  · intro m hm hOk
    have hArmed := hOk (by simp [giveUpMessages])
    rw [hm.armed] at hArmed
    cases hArmed
  · exact fun m hm hFresh hCid => absurd (hm.completed hFresh).2.2 hCid
  · intro m hm hFresh _
    obtain ⟨hQuiet, hLength, _⟩ := hm.completed hFresh
    exact ⟨hm, hQuiet, hLength⟩
  · rintro _ m v ⟨hm, hQuiet, hLength⟩
    exact ⟨{ hm with maps := hm.maps.congr rfl rfl }, hQuiet, hLength⟩
  · rintro _ m ⟨hm, hQuiet, hLength⟩
    exact ⟨hm.up hQuiet hLength, rfl, rfl⟩

/-- A data buffer that is none of the admin queues. -/
structure Apart (c : ControllerData) (mem : Mem) : Prop where
  real : ¬ mem.Null
  sq : mem.dmaAddr ≠ c.adminSqMem.dmaAddr
  cq : mem.dmaAddr ≠ c.adminCqMem.dmaAddr
  virt : mem.userVirtaddr ≠ c.adminCqVirtAddr

theorem Up.alloc (h : Up c m n) {new : Mem} (hNew : m.Allocatable new)
    (hReal : new ≠ {}) : Up c (m.alloc new) n ∧ Apart c new := by
  have hMaps := h.maps.alloc hNew
  obtain ⟨i, j, hne, hi, hj⟩ := h.live
  have hLive := Hardware.live_alloc_new (m := m) hReal
  constructor
  · have hLive' : ∃ i j, i ≠ j ∧ (m.alloc new).Live i c.adminSqMem ∧
        (m.alloc new).Live j c.adminCqMem := ⟨i, j, hne, hi.alloc new, hj.alloc new⟩
    unfold Hardware.alloc at hMaps hLive' ⊢
    rw [if_neg hReal] at hMaps hLive' ⊢
    exact { h with maps := hMaps, live := hLive' }
  · exact
      { real := fun hNull => hReal (hNew.null_iff.mp hNull)
        sq := hMaps.dmaAddr_ne hLive (hi.alloc new) (Nat.ne_of_gt hi.lt_length)
        cq := hMaps.dmaAddr_ne hLive (hj.alloc new) (Nat.ne_of_gt hj.lt_length)
        virt := by
          rw [h.cqVirt]
          exact hMaps.virt_ne hLive (hj.alloc new) (Nat.ne_of_gt hj.lt_length) }

theorem Up.zero (h : Up c m n) {mem : Mem} (hApart : Apart c mem) :
    Up c (m.zero mem) n := by
  refine { h with maps := h.maps.congr rfl rfl, ring := ?_ }
  show PhaseRing 32 (Function.update m.cqe mem.userVirtaddr _ c.adminCqVirtAddr) _ _
  rw [Function.update_of_ne hApart.virt.symm]
  exact h.ring

/-- The buffer is released where the controller is done with it. -/
theorem safe_freeApart {mem : Mem} (h : Up c m n) (hApart : Apart c mem) :
    SafeAdmin (fun _ m' => Up c m' n) (freeDma mem) m := by
  rw [freeDma_real hApart.real]
  have hNotArmed : mem.dmaAddr ∉ m.armed := by
    rw [h.armed]
    simp [hApart.sq, hApart.cq]
  have hReleased : Released m mem :=
    { seen := fun hMem => hNotArmed (h.unseen hMem)
      stopped := hNotArmed
      completed := fun s hs _ _ => h.quiet s hs }
  have hUp : Up c (m.release mem) n := by
    obtain ⟨i, j, hne, hi, hj⟩ := h.live
    have hSq : c.adminSqMem ≠ mem := fun hEq => hApart.sq (by rw [hEq])
    have hCq : c.adminCqMem ≠ mem := fun hEq => hApart.cq (by rw [hEq])
    exact { h with
      maps := h.maps.release mem
      live := ⟨i, j, hne, Hardware.live_release_iff.mpr ⟨hi, hSq⟩,
        Hardware.live_release_iff.mpr ⟨hj, hCq⟩⟩ }
  exact safe_quiet h.quiet hReleased fun _ _ _ =>
    safe_return_quiet hUp.quiet (spec_other nofun) hUp

/-- The controller is in use, and as many commands as there were have been taken. -/
def InUse (c : ControllerData) (m : Hardware) : Prop := ∃ n, Up c m n

theorem safe_readFileSize {identify : Mem} (h : Up c m n) (hApart : Apart c identify) :
    SafeAdmin (fun r m' => InUse r.2 m') (readFileSize c identify) m := by
  refine safe_quiet h.quiet (spec_other nofun) fun data _ _ => ?_
  show SafeAdmin _ (if _ : (identifyLbaShift data).toNat < 64 then _ else _) m
  split
  · refine (safe_freeApart h hApart).bind fun _ m' h' => ?_
    exact safe_return_quiet h'.quiet (spec_other nofun) ⟨n, { h' with }⟩
  · refine safe_quiet h.quiet (spec_other nofun) fun _ _ _ => ?_
    refine (safe_freeApart h hApart).bind fun _ m' h' => ?_
    exact safe_return_quiet h'.quiet (spec_other nofun) ⟨n, h'⟩

theorem safe_identifyFileSize {identify : Mem} (h : Up c m n) (hApart : Apart c identify) :
    SafeAdmin (fun r m' => InUse r.2 m') (identifyFileSize c identify) m := by
  refine safe_quiet h.quiet (spec_other nofun) fun _ _ _ => ?_
  have h₁ : Up { c with adminCmdId := c.adminCmdId + 1 } (m.zero identify) n :=
    { h.zero hApart with }
  refine safe_submitCommand (P := (Up { c with adminCmdId := c.adminCmdId + 1 } · n))
    Up.stable h₁ (fun m hm => hm.toWired) (fun _ _ _ hE => spec_other hE.release)
    (fun m hm => { hm with maps := hm.maps.congr rfl rfl }) fun m hm _ => ?_
  show SafeAdmin _
    (waitAdminCompletion _ c.adminCmdId nvmeAdminCmdTimeoutMs >>= _) (m.send _)
  refine Safe.bind (safe_waitFlying (hm.send _) ?_) ?_
  · rfl
  rintro ⟨completed, c'⟩ m' ⟨hUp, hSq, hCq⟩
  have hApart' : Apart c' identify :=
    { real := hApart.real
      sq := by rw [hSq]; exact hApart.sq
      cq := by rw [hCq]; exact hApart.cq
      virt := by rw [hUp.cqVirt, hCq]; exact h.cqVirt ▸ hApart.virt }
  cases completed with
  | false =>
      refine (safe_freeApart hUp hApart').bind fun _ m'' h'' => ?_
      exact safe_return_quiet h''.quiet (spec_other nofun) ⟨n + 1, h''⟩
  | true => exact safe_readFileSize hUp hApart'

theorem safe_nvmeGetFileSize (h : Up c m n) :
    SafeAdmin (fun r m' => InUse r.2 m') (nvmeGetFileSize c) m := by
  unfold nvmeGetFileSize
  split
  · exact safe_quiet h.quiet (spec_other nofun) fun _ _ _ =>
      safe_return_quiet h.quiet (spec_other nofun) ⟨n, h⟩
  · split
    · exact safe_quiet h.quiet (spec_other nofun) fun _ _ _ =>
        safe_return_quiet h.quiet (spec_other nofun) ⟨n, h⟩
    · refine safe_readCap h.bar0 h.quiet ?_
      dsimp only
      rw [if_neg h.timeout]
      refine (safe_allocQuiet h.quiet).bind ?_
      rintro ⟨allocated, c', identify⟩ m' ⟨fd, opened, rfl, hAlloc⟩
      cases allocated with
      | false =>
          obtain ⟨rfl, _⟩ : m' = m ∧ _ := hAlloc
          exact safe_return_quiet h.quiet (spec_other nofun) ⟨n, { h with }⟩
      | true =>
          obtain ⟨hNew, hReal, rfl⟩ :
            m.Allocatable identify ∧ identify ≠ {} ∧ m' = m.alloc identify := hAlloc
          obtain ⟨hUp, hApart⟩ := h.alloc hNew hReal
          exact safe_identifyFileSize { hUp with } { hApart with }

end Command

/-! ## Runs -/

inductive AdminCall where
  | controllerInit
  | nvmeGetFileSize
  | controllerDeinit
  deriving DecidableEq, Repr

/-- The calls on one `struct controller_data`.  `controller_init` is called when the
controller is not initialised, as all callers do. -/
def adminProg (c : ControllerData) : AdminCall → Option (Admin ControllerData)
  | .controllerInit =>
      if c.bar0Virt = 0 then some do
        let (_, c) ← controllerInit c
        return c
      else none
  | .nvmeGetFileSize => some do
      let (_, c) ← nvmeGetFileSize c
      return c
  | .controllerDeinit => some (controllerDeinit c)

/-- A controller as `parse_target` returns it, and hardware whose CC has any value. -/
def adminStart (bus dev func nsid : UInt16) (cap : UInt64) (cc : UInt32) :
    Calls Effect Effect.Result ControllerData Hardware :=
  { host := { bus, dev, func, nsid }, machine := { cap, cc } }

/-- Between calls the controller is either in use or not. -/
def Idle (c : ControllerData) (m : Hardware) : Prop := Down c m ∨ InUse c m

theorem inductive_idle :
    Calls.Inductive hardware Timely ReleasedBeforeFree adminProg Idle where
  stable c := Hardware.stable_of_quiet fun m h => by
    rcases h with hDown | ⟨n, hUp⟩
    · exact hDown.quiet
    · exact hUp.quiet
  spec_none c m _ := spec_other nofun
  safe c m call p h hProg := by
    cases call with
    | controllerInit =>
        simp only [adminProg, Option.ite_none_right_eq_some, Option.some.injEq] at hProg
        obtain ⟨hBar0, rfl⟩ := hProg
        rcases h with hDown | ⟨n, hUp⟩
        · refine (safe_controllerInit hDown).bind fun r m' hPost => ?_
          unfold InitPost at hPost
          split at hPost
          · exact safe_return_quiet hPost.1.quiet (spec_other nofun) (.inr ⟨0, hPost.1⟩)
          · exact safe_return_silent hPost.toSilent (.inl hPost)
        · exact absurd hBar0 hUp.bar0
    | nvmeGetFileSize =>
        simp only [adminProg, Option.some.injEq] at hProg
        subst hProg
        rcases h with hDown | ⟨n, hUp⟩
        · rw [nvmeGetFileSize, if_pos (.inl hDown.bar0)]
          exact safe_silent hDown.toSilent trivial fun _ _ h' =>
            safe_return_silent h' (.inl { hDown, h' with })
        · refine (safe_nvmeGetFileSize hUp).bind fun r m' ⟨n', hUp'⟩ => ?_
          exact safe_return_quiet hUp'.quiet (spec_other nofun) (.inr ⟨n', hUp'⟩)
    | controllerDeinit =>
        simp only [adminProg, Option.some.injEq] at hProg
        subst hProg
        rcases h with hDown | ⟨n, hUp⟩
        · exact (safe_controllerDeinit_down hDown).mono fun _ _ h' => .inl h'
        · exact (safe_controllerDeinit_up hUp).mono fun _ _ h' => .inl h'

theorem down_adminStart (bus dev func nsid : UInt16) (cap : UInt64) (cc : UInt32) :
    Down { bus, dev, func, nsid } { cap, cc } where
  maps := ⟨nofun, nofun, nofun⟩
  armed := rfl
  unseen := rfl
  sent := rfl
  bar0 := rfl
  sqMem := Mem.null_empty
  cqMem := Mem.null_empty

/-- In every run of the three functions in which no wait gives up while the
controller is armed, memory is released only when the controller is done with
it. -/
theorem releasedBeforeFree_of_run {bus dev func nsid : UInt16} {cap : UInt64}
    {cc : UInt32} {acts : List (Act AdminCall Answer DeviceAct)}
    {s : Calls Effect Effect.Result ControllerData Hardware}
    (hRun : Run (Calls.step hardware adminProg) (Calls.stepOk Timely)
      (adminStart bus dev func nsid cap cc) acts s) (mem : Mem)
    (hNext : s.next = some (.releaseDma mem)) : Released s.machine mem := by
  have hSpec := (inductive_idle.of_run rfl
    (.inl (down_adminStart bus dev func nsid cap cc)) hRun).1
  rw [hNext] at hSpec
  exact hSpec

/-- The decidable form of the condition on runs. -/
def timelyTest (s : Calls Effect Effect.Result ControllerData Hardware)
    (_ : Act AdminCall Answer DeviceAct) : Bool :=
  match s.next with
  | some (.printErrno message) =>
      decide (message ∈ giveUpMessages → s.machine.armed = [])
  | _ => true

theorem stepOk_of_timelyTest (s : Calls Effect Effect.Result ControllerData Hardware)
    (a : Act AdminCall Answer DeviceAct) (h : timelyTest s a = true) :
    s.stepOk Timely a := by
  cases a with
  | effect a =>
      intro e hNext
      rw [timelyTest, hNext] at h
      cases e with
      | printErrno message =>
          have hTest := of_decide_eq_true h
          exact hTest
      | _ => trivial
  | _ => trivial

def smallAdminSq : Mem :=
  { fd := 3, kernelVirtaddr := 0x10000, userVirtaddr := 0x20000, dmaAddr := 0x30000,
    size := 4096 }

def smallAdminCq : Mem :=
  { fd := 3, kernelVirtaddr := 0x11000, userVirtaddr := 0x21000, dmaAddr := 0x31000,
    size := 4096 }

def smallCap : UInt64 := 0x010003ff

/-- `controller_init` on a controller that is ready at the first poll. -/
def initActs : List (Act AdminCall Answer DeviceAct) :=
  [.call .controllerInit, .effect (.address 0x1000),
    .effect (.word smallCap.toUInt32), .effect (.word (smallCap >>> 32).toUInt32),
    .effect (.descriptor 3), .effect (.memory smallAdminSq), .effect (.memory smallAdminCq),
    .effect .done, .effect .done, .effect (.word 0)] ++
  List.replicate 6 (.effect .done) ++ [.effect (.word 1), .ret]

/-- `controller_deinit` up to the store that clears CC.EN. -/
def deinitActs : List (Act AdminCall Answer DeviceAct) :=
  [.call .controllerDeinit, .effect (.word smallCap.toUInt32),
    .effect (.word (smallCap >>> 32).toUInt32),
    .effect (.word (enableConfiguration smallCap)), .effect .done]

/-- The controller stops in time, and its queue memory is released afterwards. -/
theorem releasedBeforeFree_of_run_stopped :
    ∃ acts s, Run (Calls.step hardware adminProg) (Calls.stepOk Timely)
        (adminStart 5 0 0 1 smallCap 0) acts s ∧
      s.next = some (.releaseDma smallAdminSq) ∧ Released s.machine smallAdminSq := by
  have hEval : (exec (Calls.step hardware adminProg) timelyTest
      (adminStart 5 0 0 1 smallCap 0)
      (initActs ++ deinitActs ++ [.effect (.word 0), .effect (.success true)])).any
      (fun s => decide (s.next = some (.releaseDma smallAdminSq))) = true := by
    decide +kernel
  obtain ⟨s, hExec, hNext⟩ := (Option.any_eq_true _ _).mp hEval
  have hRun := Run.of_exec stepOk_of_timelyTest hExec
  have hNext := of_decide_eq_true hNext
  exact ⟨_, s, hRun, hNext, releasedBeforeFree_of_run hRun smallAdminSq hNext⟩

/-- The controller is still running after the 500 ms that CAP.TO gives it, and its
queue memory is released although CSTS.RDY has not been seen 0 since it was
enabled. -/
theorem releasedBeforeFree_lateStop_false :
    ∃ acts s, Run (Calls.step hardware adminProg) (Calls.stepOk fun _ _ => True)
        (adminStart 5 0 0 1 smallCap 0) acts s ∧
      s.next = some (.releaseDma smallAdminSq) ∧
      smallAdminSq.dmaAddr ∈ s.machine.unseen ∧ smallAdminSq.dmaAddr ∈ s.machine.armed := by
  have hEval : (exec (Calls.step hardware adminProg) (fun _ _ => true)
      (adminStart 5 0 0 1 smallCap 0)
      (initActs ++ deinitActs ++ List.replicate 500 (.effect (.word 1)) ++
        [.effect .done, .effect (.success true)])).any
      (fun s => decide (s.next = some (.releaseDma smallAdminSq) ∧
        smallAdminSq.dmaAddr ∈ s.machine.unseen ∧
        smallAdminSq.dmaAddr ∈ s.machine.armed)) = true := by
    decide +kernel
  obtain ⟨s, hExec, hState⟩ := (Option.any_eq_true _ _).mp hEval
  refine ⟨_, s, Run.of_exec (fun s a _ => ?_) hExec, of_decide_eq_true hState⟩
  cases a with
  | effect a => exact fun _ _ => trivial
  | _ => trivial

end NewPerf.Tools
