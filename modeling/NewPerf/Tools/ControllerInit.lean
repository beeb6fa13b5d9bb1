import NewPerf.Tools.AdminRules

/-!
# Starting and stopping the controller

`controller_init` hands two allocations to the controller by enabling it with ASQ
and ACQ pointing there, and `controller_deinit` takes them back before it releases
them.  `Released` says that the controller is done with an allocation, and
`ReleasedBeforeFree` that this is so whenever `free_dma` is about to release one.

`Down` and `Up` are the states of a controller that is not in use and of one that
is.  `safe_controllerInit` and `safe_controllerDeinit_up` lead from one to the other
in runs in which no wait gives up while the controller is armed (`Timely`).
-/

namespace NewPerf.Tools

open NewPerf.Lib.Programs
open NewPerf.Lib.Ring

/-- The controller is done with the memory: it has been seen with CSTS.RDY = 0
since CC.EN was last set with the memory as an admin queue, and after CC.EN was
cleared; and every Identify command that names it has been completed. -/
structure Released (m : Hardware) (mem : Mem) : Prop where
  seen : mem.dmaAddr ∉ m.unseen
  stopped : mem.dmaAddr ∉ m.armed
  completed : ∀ s ∈ m.sent, s.cmd.opcode = nvmeAdminIdentifyOpcode →
    s.cmd.prp1 = mem.dmaAddr → ∃ accepted, s.progress = .posted accepted

/-- Memory about to be released is no longer in use by the controller. -/
def ReleasedBeforeFree : Option Effect → Hardware → Prop
  | some (.releaseDma mem), m => Released m mem
  | _, _ => True

/-- What the waiting loops report when they give up. -/
def giveUpMessages : List String :=
  [notReadyMessage true, notReadyMessage false, allOnesMessage, adminTimeoutMessage]

/-- No wait gives up while the controller is armed. -/
def Timely (m : Hardware) : Effect → Prop
  | .printErrno message => message ∈ giveUpMessages → m.armed = []
  | _ => True

/-- `Safe` for this property and these runs. -/
abbrev SafeAdmin {α : Type} (Q : α → Hardware → Prop) (p : Admin α) (m : Hardware) :
    Prop :=
  Safe hardware Timely ReleasedBeforeFree Q p m

/-! ## While the controller holds nothing -/

/-- Nothing has been handed to the controller. -/
structure Silent (m : Hardware) : Prop where
  maps : m.WellMapped
  armed : m.armed = []
  unseen : m.unseen = []
  sent : m.sent = []

/-- The effects that hand nothing over. -/
def Effect.Harmless : Effect → Prop
  | .regWrite offset v =>
      offset ≠ nvmeDoorbellBase ∧ (offset = nvmeRegCc → v &&& nvmeCcEn = 0)
  | _ => True

section Silence

variable {α : Type} {m : Hardware} {c : ControllerData} {Q : α → Hardware → Prop}

theorem Silent.quiet (h : Silent m) : m.Quiet := Hardware.quiet_of_sent_nil h.sent

theorem Silent.spec (h : Silent m) (e : Option Effect) : ReleasedBeforeFree e m := by
  unfold ReleasedBeforeFree
  split
  · rename_i mem
    exact
      { seen := by simp [h.unseen]
        stopped := by simp [h.armed]
        completed := by simp [h.sent] }
  · trivial

theorem Silent.after (h : Silent m) {e : Effect} {r : e.Result} (hHarmless : e.Harmless)
    (hAllowed : m.Allowed e r) : Silent (m.after e r) := by
  have hMaps := h.maps.after hAllowed
  cases e with
  | regRead offset =>
      show Silent (m.observe offset r)
      change (m.observe offset r).WellMapped at hMaps
      unfold Hardware.observe at hMaps ⊢
      dsimp only at hMaps ⊢
      split_ifs at hMaps ⊢ with hRdy hEn
      · exact ⟨hMaps, h.armed, rfl, h.sent⟩
      · exact ⟨hMaps, rfl, rfl, rfl⟩
      · exact h
  | regWrite offset v =>
      show Silent (m.writeReg offset v)
      change (m.writeReg offset v).WellMapped at hMaps
      by_cases hCc : offset = nvmeRegCc
      · rw [Hardware.writeReg, if_pos hCc, m.writeCc_clear (hHarmless.2 hCc)] at hMaps ⊢
        exact ⟨hMaps, h.armed, h.unseen, h.sent⟩
      · obtain ⟨_, _, _, _, _, _, hEq⟩ := m.writeReg_other v hCc hHarmless.1
        rw [hEq] at hMaps ⊢
        exact ⟨hMaps, h.armed, h.unseen, h.sent⟩
  | allocDma fd size =>
      show Silent (m.alloc r)
      change (m.alloc r).WellMapped at hMaps
      unfold Hardware.alloc at hMaps ⊢
      split_ifs at hMaps ⊢
      · exact h
      · exact ⟨hMaps, h.armed, h.unseen, h.sent⟩
  | _ => exact ⟨hMaps, h.armed, h.unseen, h.sent⟩

theorem safe_silent {e : Effect} {k : e.Result → Admin α} (h : Silent m)
    (hHarmless : e.Harmless)
    (hNext : ∀ r, m.Allowed e r → Silent (m.after e r) →
      SafeAdmin Q (k r) (m.after e r)) : SafeAdmin Q (.op e k) m :=
  safe_quiet h.quiet (h.spec _) fun r _ hAllowed =>
    hNext r hAllowed (h.after hHarmless hAllowed)

theorem safe_return_silent {a : α} (h : Silent m) (hQ : Q a m) :
    SafeAdmin Q (.pure a) m :=
  safe_return_quiet h.quiet (h.spec _) hQ

theorem safe_freeDma (h : Silent m) (mem : Mem) :
    SafeAdmin (fun mem' m' => mem'.Null ∧ Silent m') (freeDma mem) m := by
  by_cases hNull : mem.Null
  · rw [freeDma_null hNull]
    exact safe_return_silent h ⟨hNull, h⟩
  · rw [freeDma_real hNull]
    exact safe_silent h trivial fun _ _ h' =>
      safe_return_silent h' ⟨Mem.null_empty, h'⟩

/-- A `struct controller_data` that is not in use, and hardware that holds nothing
of it. -/
structure Down (c : ControllerData) (m : Hardware) : Prop extends Silent m where
  bar0 : c.bar0Virt = 0
  sqMem : c.adminSqMem.Null
  cqMem : c.adminCqMem.Null

theorem safe_nvmeCloseDma (h : Down c m) :
    SafeAdmin (fun c' m' => Down c' m') (nvmeCloseDma c) m := by
  unfold nvmeCloseDma
  split
  · exact safe_silent h.toSilent trivial fun _ _ h' =>
      safe_return_silent h' { h', h with }
  · exact safe_return_silent h.toSilent h

theorem safe_nvmeReleaseControllerDma (h : Silent m) (hBar0 : c.bar0Virt = 0) :
    SafeAdmin (fun c' m' => Down c' m') (nvmeReleaseControllerDma c) m := by
  refine (safe_freeDma h c.adminSqMem).bind fun sqMem m₁ ⟨hSq, h₁⟩ => ?_
  refine (safe_freeDma h₁ c.adminCqMem).bind fun cqMem m₂ ⟨hCq, h₂⟩ => ?_
  exact safe_nvmeCloseDma { h₂ with bar0 := hBar0, sqMem := hSq, cqMem := hCq }

theorem safe_controllerBar0Unmap (h : Silent m) (bar0 : UInt64) :
    SafeAdmin (fun _ m' => Silent m') (controllerBar0Unmap bar0) m := by
  unfold controllerBar0Unmap
  split
  · exact safe_silent h trivial fun _ _ h' => safe_return_silent h' h'
  · refine safe_silent h trivial fun b _ h' => ?_
    cases b with
    | true => exact safe_return_silent h' h'
    | false => exact safe_silent h' trivial fun _ _ h'' => safe_return_silent h'' h''

theorem safe_nvmeUnmapControllerBar0 (h : Silent m) :
    SafeAdmin (fun c' m' => c' = { c with bar0Virt := 0 } ∧ Silent m')
      (nvmeUnmapControllerBar0 c) m := by
  unfold nvmeUnmapControllerBar0
  split
  · exact (safe_controllerBar0Unmap h _).bind fun _ m' h' =>
      safe_return_silent h' ⟨rfl, h'⟩
  · rename_i hZero
    refine safe_return_silent h ⟨?_, h⟩
    rw [← not_not.mp hZero]

theorem safe_failUnmapped (h : Silent m) (hSq : c.adminSqMem.Null)
    (hCq : c.adminCqMem.Null) :
    SafeAdmin (fun r m' => r.1 = false ∧ Down r.2 m') (failUnmapped c) m := by
  refine (safe_nvmeUnmapControllerBar0 h).bind ?_
  rintro c' m' ⟨rfl, h'⟩
  exact safe_return_silent h'
    ⟨rfl, { h' with bar0 := rfl, sqMem := hSq, cqMem := hCq }⟩

theorem safe_failReleased (h : Silent m) :
    SafeAdmin (fun r m' => r.1 = false ∧ Down r.2 m') (failReleased c) m := by
  refine (safe_nvmeUnmapControllerBar0 h).bind ?_
  rintro c' m' ⟨rfl, h'⟩
  refine (safe_nvmeReleaseControllerDma h' rfl).bind fun c' m' hDown => ?_
  exact safe_return_silent hDown.toSilent ⟨rfl, hDown⟩

end Silence

/-! ## While the controller is in use -/

/-- The controller uses the admin queues of `c`, and the `n` commands it has been
given have all been completed and taken. -/
structure Up (c : ControllerData) (m : Hardware) (n : Nat) : Prop extends Wired c m where
  armed : m.armed = [c.adminSqMem.dmaAddr, c.adminCqMem.dmaAddr]
  unseen : m.unseen ⊆ m.armed
  tail : c.adminSqTail.toNat = n % 32
  head : c.adminCqHead.toNat = n % 32
  phase : c.adminCqPhase.toNat = phaseOf 32 n
  posted : m.posted.length = n
  ring : PhaseRing 32 (m.cqe c.adminCqVirtAddr) cqePhase m.posted
  quiet : m.Quiet

section InUse

variable {α : Type} {m : Hardware} {c : ControllerData} {n : Nat}
  {Q : α → Hardware → Prop}

/-- Effects other than `free_dma` are not restricted. -/
theorem spec_other {e : Option Effect} (h : ∀ mem, e ≠ some (.releaseDma mem)) :
    ReleasedBeforeFree e m := by
  unfold ReleasedBeforeFree
  split
  · exact absurd rfl (h _)
  · trivial

theorem Up.armed_ne (h : Up c m n) : m.armed ≠ [] := by
  rw [h.armed]
  exact List.cons_ne_nil _ _

/-- Reading CAP gives CAP. -/
theorem safe_readCap {bar0 : UInt64} {k : Option UInt64 → Admin α} (hBar0 : bar0 ≠ 0)
    (hQuiet : m.Quiet) (hNext : SafeAdmin Q (k (some m.cap)) m) :
    SafeAdmin Q (nvmeRegRead64 bar0 nvmeRegCap >>= k) m := by
  rw [nvmeRegRead64_cap hBar0]
  refine safe_quiet hQuiet (spec_other nofun) fun lo _ hLo => ?_
  obtain rfl : lo = m.cap.toUInt32 := hLo
  refine safe_quiet hQuiet (spec_other nofun) fun hi _ hHi => ?_
  obtain rfl : hi = (m.cap >>> 32).toUInt32 := hHi
  show SafeAdmin Q (k (some (Hardware.join m.cap.toUInt32 (m.cap >>> 32).toUInt32))) m
  rw [Hardware.join_halves]
  exact hNext

/-- `wait_ready` in a run in which it does not give up: `P` is kept by every load
of CSTS that does not end the loop. -/
theorem safe_waitReady {P : Hardware → Prop} {Q : Bool → Hardware → Prop} {bar0 : UInt64}
    {ready : Bool} {timeoutMs : UInt32} (hBar0 : bar0 ≠ 0)
    (hQuiet : ∀ m, P m → m.Quiet) (hP : P m)
    (hLoop : ∀ m v, P m → v &&& nvmeCstsRdy ≠ (if ready then nvmeCstsRdy else 0) →
      P (m.observe nvmeRegCsts v))
    (hOnes : ∀ m, P m → P (m.observe nvmeRegCsts nvmeRegInvalid32))
    (hGiveUp : ∀ m, P m → m.armed = [] → Q false m)
    (hDone : ∀ m v, P m → v &&& nvmeCstsRdy = (if ready then nvmeCstsRdy else 0) →
      (m.observe nvmeRegCsts v).Quiet ∧ Q true (m.observe nvmeRegCsts v)) :
    SafeAdmin Q (waitReady bar0 ready timeoutMs) m := by
  unfold waitReady
  generalize timeoutMs.toNat = left
  induction left generalizing m with
  | zero =>
      refine safe_quiet (hQuiet m hP) (spec_other nofun) fun _ hOk _ => ?_
      refine safe_return_quiet (hQuiet m hP) (spec_other nofun) (hGiveUp m hP (hOk ?_))
      cases ready <;> simp [giveUpMessages]
  | succ left ih =>
      rw [waitReadyLoop, controllerRegRead32_eq hBar0 (by decide)]
      refine safe_quiet (hQuiet m hP) (spec_other nofun) fun v _ _ => ?_
      show SafeAdmin Q (if v = nvmeRegInvalid32 then _ else if _ then _ else _)
        (m.observe nvmeRegCsts v)
      split
      · rename_i hV
        subst hV
        have hP' := hOnes m hP
        refine safe_quiet (hQuiet _ hP') (spec_other nofun) fun _ hOk _ => ?_
        exact safe_return_quiet (hQuiet _ hP') (spec_other nofun)
          (hGiveUp _ hP' (hOk (by simp [giveUpMessages])))
      · by_cases hV : v &&& nvmeCstsRdy = (if ready then nvmeCstsRdy else 0)
        · rw [if_pos hV]
          obtain ⟨hQuiet', hQ⟩ := hDone m v hP hV
          exact safe_return_quiet hQuiet' (spec_other nofun) hQ
        · rw [if_neg hV]
          exact ih (hLoop m v hP hV)

/-! ### `controller_deinit` -/

private theorem observe_csts_set {v : UInt32} (h : v &&& nvmeCstsRdy ≠ 0) :
    m.observe nvmeRegCsts v = m := by
  rw [Hardware.observe, if_neg fun hRdy => h hRdy.2]

private theorem observe_csts_clear {v : UInt32} (h : v &&& nvmeCstsRdy = 0)
    (hDisabled : m.enabled = false) :
    m.observe nvmeRegCsts v = { m with unseen := [] }.halt := by
  rw [Hardware.observe, if_pos ⟨rfl, h⟩]
  dsimp only
  rw [if_neg]
  exact fun hEn => Bool.false_ne_true (hDisabled.symm.trans hEn)

/-- Clearing CC.EN and waiting takes the queues away from the controller. -/
private theorem safe_disable {bar0 : UInt64} {timeoutMs : UInt32} (hBar0 : bar0 ≠ 0)
    (hMaps : m.WellMapped) (hQuiet : m.Quiet) (hDisabled : m.enabled = false)
    {Q : Bool → Hardware → Prop}
    (hGiveUp : m.armed = [] → Q false m)
    (hDone : Silent { m with unseen := [] }.halt → Q true { m with unseen := [] }.halt) :
    SafeAdmin Q (waitReady bar0 false timeoutMs) m := by
  refine safe_waitReady (P := (· = m)) hBar0 ?_ rfl ?_ ?_ ?_ ?_
  · exact fun x hx => hx ▸ hQuiet
  · intro x v hx hRdy
    rw [hx]
    exact observe_csts_set hRdy
  · intro x hx
    rw [hx]
    exact observe_csts_set (by decide)
  · intro x hx hArmed
    rw [hx] at hArmed ⊢
    exact hGiveUp hArmed
  · intro x v hx hRdy
    rw [hx, observe_csts_clear hRdy hDisabled]
    have hSilent : Silent { m with unseen := [] }.halt :=
      ⟨hMaps.congr rfl rfl, rfl, rfl, rfl⟩
    exact ⟨hSilent.quiet, hDone hSilent⟩

theorem and_not_en (cc : UInt32) : (cc &&& ~~~nvmeCcEn) &&& nvmeCcEn = 0 := by
  rw [UInt32.and_assoc, show ~~~nvmeCcEn &&& nvmeCcEn = 0 by decide, UInt32.and_zero]

/-- `controller_deinit` stops a controller that is in use. -/
theorem safe_stopController (h : Up c m n) :
    SafeAdmin (fun _ m' => Silent m') (stopController c.bar0Virt) m := by
  unfold stopController
  refine safe_readCap h.bar0 h.quiet ?_
  dsimp only
  rw [if_pos h.timeout, controllerRegRead32_eq h.bar0 (by decide)]
  refine safe_quiet h.quiet (spec_other nofun) fun cc _ hCc => ?_
  have hEn : cc &&& nvmeCcEn ≠ 0 := by
    rcases (hCc : cc = m.cc ∨ cc = nvmeRegInvalid32) with rfl | rfl
    · simpa [Hardware.enabled] using h.enabled
    · decide
  show SafeAdmin _ (if cc &&& nvmeCcEn ≠ 0 then _ else _) m
  rw [if_pos hEn, controllerRegWrite32_eq h.bar0 (by decide)]
  refine safe_quiet h.quiet (spec_other nofun) fun _ _ _ => ?_
  -- The controller is now disabled, but may still be running.
  have hState : m.after (.regWrite nvmeRegCc (cc &&& ~~~nvmeCcEn)) () =
      { m with cc := cc &&& ~~~nvmeCcEn } := m.writeCc_clear (and_not_en cc)
  rw [hState]
  have hDisable : SafeAdmin (fun _ m' => Silent m')
      (waitReady c.bar0Virt false (readyTimeoutMs m.cap))
      { m with cc := cc &&& ~~~nvmeCcEn } := by
    refine safe_disable h.bar0 ?_ ?_ ?_ ?_ ?_
    · exact h.maps.congr rfl rfl
    · exact h.quiet
    · simp [Hardware.enabled, and_not_en]
    · exact fun hArmed => absurd hArmed h.armed_ne
    · exact fun hSilent => hSilent
  exact hDisable.bind fun _ m' h' => safe_return_silent h' h'

theorem safe_releaseController (h : Silent m) (hBar0 : c.bar0Virt = 0) :
    SafeAdmin (fun c' m' => Down c' m') (releaseController c) m :=
  (safe_nvmeReleaseControllerDma h hBar0).bind fun _ _ hDown =>
    safe_return_silent hDown.toSilent { hDown with }

theorem safe_controllerDeinit_up (h : Up c m n) :
    SafeAdmin (fun c' m' => Down c' m') (controllerDeinit c) m := by
  unfold controllerDeinit
  rw [if_pos h.bar0]
  refine (safe_stopController h).bind fun _ m₁ h₁ => ?_
  refine (safe_controllerBar0Unmap h₁ c.bar0Virt).bind fun unmapped m₂ h₂ => ?_
  cases unmapped with
  | true => exact safe_releaseController h₂ rfl
  | false =>
      exact safe_silent h₂ trivial fun _ _ h₃ => safe_releaseController h₃ rfl

theorem safe_controllerDeinit_down (h : Down c m) :
    SafeAdmin (fun c' m' => Down c' m') (controllerDeinit c) m := by
  unfold controllerDeinit
  rw [if_neg (not_not.mpr h.bar0)]
  exact safe_releaseController h.toSilent h.bar0

/-! ### `controller_init` -/

/-- The admin queues have been allocated and zeroed. -/
structure Prepared (c : ControllerData) (m : Hardware) : Prop extends Silent m where
  bar0 : c.bar0Virt ≠ 0
  timeout : readyTimeoutMs m.cap ≠ 0
  live : ∃ i j, i ≠ j ∧ m.Live i c.adminSqMem ∧ m.Live j c.adminCqMem
  zeroed : ∀ i, m.cqe c.adminCqMem.userVirtaddr i = {}

/-- Nothing has been asked of the controller yet. -/
structure Untouched (c : ControllerData) (m : Hardware) : Prop where
  sent : m.sent = []
  sqs : ∀ q, m.sqs q = none
  cqs : ∀ q, m.cqs q = none
  blank : ∀ i, m.cqe c.adminCqVirtAddr i = {}

/-- How `controller_init` ends; it does not touch the command id. -/
def InitPost (cmdId : UInt16) (r : Bool × ControllerData) (m : Hardware) : Prop :=
  if r.1 then Up r.2 m 0 ∧ Untouched r.2 m ∧ r.2.adminCmdId = cmdId else Down r.2 m

theorem safe_initFailed {cmdId : UInt16} (h : Silent m) :
    SafeAdmin (InitPost cmdId) (failReleased c) m := by
  refine (safe_failReleased h).mono fun r m ⟨hFalse, hDown⟩ => ?_
  rw [InitPost, hFalse]
  exact hDown

theorem Untouched.observe (h : Untouched c m) (v : UInt32) :
    Untouched c (m.observe nvmeRegCsts v) := by
  unfold Hardware.observe
  dsimp only
  split_ifs
  · exact { h with }
  · exact { h with sent := rfl, sqs := fun _ => rfl, cqs := fun _ => rfl }
  · exact h

/-- A load of CSTS does not disarm an enabled controller. -/
theorem Up.observe (h : Up c m n) (v : UInt32) : Up c (m.observe nvmeRegCsts v) n := by
  unfold Hardware.observe
  dsimp only
  split_ifs with hRdy hEn
  · exact { h with maps := h.maps.congr rfl rfl, unseen := List.nil_subset _ }
  · exact absurd h.enabled hEn
  · exact h

theorem enableConfiguration_en (cap : UInt64) :
    enableConfiguration cap &&& nvmeCcEn ≠ 0 := by
  have hEn : enableConfiguration cap &&& nvmeCcEn = nvmeCcEn := by
    apply UInt32.toNat_inj.mp
    apply Nat.eq_of_testBit_eq
    intro i
    simp only [enableConfiguration, UInt32.toNat_and, UInt32.toNat_or, Nat.testBit_and,
      Nat.testBit_or]
    cases nvmeCcEn.toNat.testBit i <;> simp
  rw [hEn]
  decide

/-- AQA, ASQ and ACQ have been written. -/
private def programmed (c : ControllerData) (m : Hardware) : Hardware :=
  { m with
    aqa := adminQueueAttributes
    asqLow := c.adminSqMem.dmaAddr.toUInt32
    asqHigh := (c.adminSqMem.dmaAddr >>> 32).toUInt32
    acqLow := c.adminCqMem.dmaAddr.toUInt32
    acqHigh := (c.adminCqMem.dmaAddr >>> 32).toUInt32 }

private theorem Prepared.untouched (h : Prepared c m) (hDisabled : m.enabled = false) :
    Untouched (adminReady c m.cap)
      ((programmed c m).writeCc (enableConfiguration m.cap)) := by
  have hDisabled' : (programmed c m).enabled = false := hDisabled
  rw [Hardware.writeCc_set (enableConfiguration_en m.cap) hDisabled']
  exact ⟨rfl, fun _ => rfl, fun _ => rfl, h.zeroed⟩

private theorem Prepared.up (h : Prepared c m) (hDisabled : m.enabled = false) :
    Up (adminReady c m.cap) ((programmed c m).writeCc (enableConfiguration m.cap)) 0 := by
  have hDisabled' : (programmed c m).enabled = false := hDisabled
  rw [Hardware.writeCc_set (enableConfiguration_en m.cap) hDisabled']
  have hSq : Hardware.join c.adminSqMem.dmaAddr.toUInt32
      (c.adminSqMem.dmaAddr >>> 32).toUInt32 = c.adminSqMem.dmaAddr :=
    Hardware.join_halves _
  have hCq : Hardware.join c.adminCqMem.dmaAddr.toUInt32
      (c.adminCqMem.dmaAddr >>> 32).toUInt32 = c.adminCqMem.dmaAddr :=
    Hardware.join_halves _
  exact
    { maps := h.maps.congr rfl rfl
      bar0 := h.bar0
      enabled := by simpa [Hardware.enabled] using enableConfiguration_en m.cap
      timeout := h.timeout
      aqa := rfl
      asq := hSq
      acq := hCq
      sqVirt := rfl
      cqVirt := rfl
      live := h.live
      sqDepth := rfl
      cqDepth := rfl
      sqDb := rfl
      cqDb := rfl
      sqTail := rfl
      sqTail_lt := by simp [adminReady]
      cqHead_lt := by simp [adminReady]
      armed := by simp [programmed, h.armed, Hardware.asq, Hardware.acq, hSq, hCq, adminReady]
      unseen := by simp [programmed, h.armed, h.unseen]
      tail := rfl
      head := rfl
      phase := rfl
      posted := rfl
      ring := PhaseRing.nil fun i _ => by
        show cqePhase (m.cqe c.adminCqMem.userVirtaddr i) = 0
        rw [h.zeroed i]
        rfl
      quiet := Hardware.quiet_of_sent_nil rfl }

theorem safe_enableController (h : Prepared c m) (hDisabled : m.enabled = false) :
    SafeAdmin (InitPost c.adminCmdId) (enableController c m.cap) m := by
  have hUp := And.intro (h.up hDisabled) (h.untouched hDisabled)
  unfold enableController
  rw [controllerRegWrite32_eq h.bar0 (by decide),
    nvmeRegWrite64_eq h.bar0 (by decide) (by decide),
    nvmeRegWrite64_eq h.bar0 (by decide) (by decide),
    controllerRegWrite32_eq h.bar0 (by decide)]
  refine safe_quiet h.quiet (spec_other nofun) fun _ _ _ => ?_
  refine safe_quiet h.quiet (spec_other nofun) fun _ _ _ => ?_
  refine safe_quiet h.quiet (spec_other nofun) fun _ _ _ => ?_
  refine safe_quiet h.quiet (spec_other nofun) fun _ _ _ => ?_
  refine safe_quiet h.quiet (spec_other nofun) fun _ _ _ => ?_
  refine safe_quiet h.quiet (spec_other nofun) fun _ _ _ => ?_
  have hWait : SafeAdmin
      (fun ready m' => ready = true ∧ Up (adminReady c m.cap) m' 0 ∧
        Untouched (adminReady c m.cap) m')
      (waitReady c.bar0Virt true (readyTimeoutMs m.cap))
      ((programmed c m).writeCc (enableConfiguration m.cap)) := by
    refine safe_waitReady
      (P := fun m' => Up (adminReady c m.cap) m' 0 ∧ Untouched (adminReady c m.cap) m')
      h.bar0 (fun m' hm' => hm'.1.quiet) hUp
      (fun m' v hm' _ => ⟨hm'.1.observe v, hm'.2.observe v⟩)
      (fun m' hm' => ⟨hm'.1.observe _, hm'.2.observe _⟩) ?_ fun m' v hm' _ => ?_
    · exact fun m' hm' hArmed => absurd hArmed hm'.1.armed_ne
    · exact ⟨(hm'.1.observe v).quiet, rfl, hm'.1.observe v, hm'.2.observe v⟩
  refine hWait.bind ?_
  rintro _ m' ⟨rfl, hUp', hUntouched⟩
  exact safe_return_quiet hUp'.quiet (spec_other nofun) ⟨hUp', hUntouched, rfl⟩

theorem safe_restartController (h : Prepared c m) :
    SafeAdmin (InitPost c.adminCmdId) (restartController c m.cap) m := by
  unfold restartController
  rw [controllerRegRead32_eq h.bar0 (by decide)]
  refine safe_quiet h.quiet (spec_other nofun) fun cc _ hCc => ?_
  have hRead : cc = m.cc ∨ cc = nvmeRegInvalid32 := hCc
  show SafeAdmin (InitPost c.adminCmdId)
    (if cc = nvmeRegInvalid32 then _ else if _ then _ else _) m
  split
  · exact safe_silent h.toSilent trivial fun _ _ h' => safe_initFailed h'
  · rename_i hOnes
    obtain rfl := hRead.resolve_right hOnes
    split
    · rw [controllerRegWrite32_eq h.bar0 (by decide)]
      refine safe_quiet h.quiet (spec_other nofun) fun _ _ _ => ?_
      have hState : m.after (.regWrite nvmeRegCc (m.cc &&& ~~~nvmeCcEn)) () =
          { m with cc := m.cc &&& ~~~nvmeCcEn } := m.writeCc_clear (and_not_en m.cc)
      have hDisabled : { m with cc := m.cc &&& ~~~nvmeCcEn }.enabled = false := by
        simp [Hardware.enabled, and_not_en]
      rw [hState]
      have hPrepared : Prepared c { m with cc := m.cc &&& ~~~nvmeCcEn } :=
        { h with maps := h.maps.congr rfl rfl }
      have hWait : SafeAdmin
          (fun ready m' => if ready then Prepared c m' ∧ m'.enabled = false ∧ m'.cap = m.cap
            else Silent m')
          (waitReady c.bar0Virt false (readyTimeoutMs m.cap))
          { m with cc := m.cc &&& ~~~nvmeCcEn } := by
        refine safe_disable h.bar0 ?_ ?_ hDisabled ?_ ?_
        · exact hPrepared.maps
        · exact hPrepared.quiet
        · exact fun _ => hPrepared.toSilent
        · exact fun hSilent =>
            ⟨{ hPrepared with toSilent := hSilent }, hDisabled, rfl⟩
      refine hWait.bind fun ready m' hm' => ?_
      cases ready with
      | false => exact safe_initFailed hm'
      | true =>
          obtain ⟨hPrepared', hDisabled', hCap⟩ := hm'
          rw [← hCap]
          exact safe_enableController hPrepared' hDisabled'
    · rename_i hEn
      refine safe_enableController h ?_
      simpa [Hardware.enabled] using hEn

/-- `nvme_alloc_dma_mem` while the controller has nothing to do. -/
theorem safe_allocQuiet {size : UInt64} {mem : Mem} (hQuiet : m.Quiet) :
    SafeAdmin
      (fun r m' => ∃ fd opened, r.2.1 = { c with dmaFd := fd, dmaFdOpened := opened } ∧
        if r.1 then m.Allocatable r.2.2 ∧ r.2.2 ≠ {} ∧ m' = m.alloc r.2.2
        else m' = m ∧ (r.2.2 = mem ∨ r.2.2 = {}))
      (nvmeAllocDmaMem c size mem) m := by
  have hAllocQuiet : ∀ new, (m.alloc new).Quiet := by
    intro new
    unfold Hardware.alloc
    split
    · exact hQuiet
    · exact hQuiet
  refine safe_nvmeAllocDmaMem (P := (· = m))
    (A := fun new m' => m' = m.alloc new ∧ m.Allocatable new ∧ new ≠ {})
    hQuiet.stable ?_ rfl (fun _ _ _ => spec_other) (fun _ _ _ _ => spec_other) ?_ ?_ ?_
  · rintro new x b m' ⟨hx, hRest⟩ hEnv
    exact ⟨(hAllocQuiet new).stable x b m' hx hEnv, hRest⟩
  · intro x new hx hNew hne
    rw [hx] at hNew ⊢
    exact ⟨rfl, hNew, hne⟩
  · exact fun fd opened mem' x hx hMem => ⟨fd, opened, rfl, hx, hMem⟩
  · exact fun fd opened new x ⟨hx, hNew, hne⟩ => ⟨fd, opened, rfl, hNew, hne, hx⟩

theorem safe_setupController (h : Silent m) (hBar0 : c.bar0Virt ≠ 0)
    (hTimeout : readyTimeoutMs m.cap ≠ 0) :
    SafeAdmin (InitPost c.adminCmdId) (setupController c m.cap) m := by
  refine (safe_allocQuiet h.quiet).bind ?_
  rintro ⟨sqOk, c₁, sqMem⟩ m₁ ⟨fd₁, opened₁, rfl, hSq⟩
  cases sqOk with
  | false =>
      obtain ⟨rfl, _⟩ : m₁ = m ∧ _ := hSq
      exact safe_initFailed h
  | true =>
      obtain ⟨hSqNew, hSqReal, rfl⟩ :
        m.Allocatable sqMem ∧ sqMem ≠ {} ∧ m₁ = m.alloc sqMem := hSq
      have h₁ : Silent (m.alloc sqMem) := h.after (e := .allocDma 0 0) trivial hSqNew
      refine (safe_allocQuiet h₁.quiet).bind ?_
      rintro ⟨cqOk, c₂, cqMem⟩ m₂ ⟨fd₂, opened₂, rfl, hCq⟩
      cases cqOk with
      | false =>
          obtain ⟨rfl, _⟩ : m₂ = m.alloc sqMem ∧ _ := hCq
          exact safe_initFailed h₁
      | true =>
          obtain ⟨hCqNew, hCqReal, rfl⟩ : (m.alloc sqMem).Allocatable cqMem ∧
            cqMem ≠ {} ∧ m₂ = (m.alloc sqMem).alloc cqMem := hCq
          have h₂ : Silent ((m.alloc sqMem).alloc cqMem) :=
            h₁.after (e := .allocDma 0 0) trivial hCqNew
          refine safe_silent h₂ trivial fun _ _ h₃ => ?_
          refine safe_silent h₃ trivial fun _ _ h₄ => ?_
          have hSqLive : (m.alloc sqMem).Live m.regions.length sqMem :=
            Hardware.live_alloc_new hSqReal
          have hCap : ((m.alloc sqMem).alloc cqMem).cap = m.cap := by
            unfold Hardware.alloc
            split_ifs <;> rfl
          have hPrepared : Prepared
              { c with dmaFd := fd₂, dmaFdOpened := opened₂, adminSqMem := sqMem,
                       adminCqMem := cqMem }
              ((((m.alloc sqMem).alloc cqMem).zero sqMem).zero cqMem) :=
            { h₄ with
              bar0 := hBar0
              timeout := by
                show readyTimeoutMs ((m.alloc sqMem).alloc cqMem).cap ≠ 0
                rwa [hCap]
              live := ⟨_, _, Nat.ne_of_lt hSqLive.lt_length, hSqLive.alloc cqMem,
                Hardware.live_alloc_new hCqReal⟩
              zeroed := by simp [Hardware.zero] }
          have hSafe := safe_restartController hPrepared
          change SafeAdmin (InitPost c.adminCmdId)
            (restartController _ ((m.alloc sqMem).alloc cqMem).cap) _ at hSafe
          rw [hCap] at hSafe
          exact hSafe

theorem safe_initMapped (h : Silent m) (hBar0 : c.bar0Virt ≠ 0)
    (hSq : c.adminSqMem.Null) (hCq : c.adminCqMem.Null) :
    SafeAdmin (InitPost c.adminCmdId) (initMapped c) m := by
  have hFail : ∀ {m : Hardware}, Silent m →
      SafeAdmin (InitPost c.adminCmdId) (failUnmapped c) m := by
    intro m h
    refine (safe_failUnmapped h hSq hCq).mono fun r m ⟨hFalse, hDown⟩ => ?_
    rw [InitPost, hFalse]
    exact hDown
  unfold initMapped
  refine safe_readCap hBar0 h.quiet ?_
  dsimp only
  split
  · exact safe_silent h trivial fun _ _ h' => hFail h'
  · split
    · exact safe_silent h trivial fun _ _ h' => hFail h'
    · split
      · exact safe_silent h trivial fun _ _ h' => hFail h'
      · rename_i hTimeout
        exact safe_setupController h hBar0 hTimeout

theorem safe_controllerInit (h : Down c m) :
    SafeAdmin (InitPost c.adminCmdId) (controllerInit c) m := by
  unfold controllerInit
  rw [if_pos h.bar0]
  refine safe_silent h.toSilent trivial fun bar0 _ h' => ?_
  show SafeAdmin (InitPost c.adminCmdId) (if bar0 = 0 then _ else _) m
  split
  · exact safe_return_silent h' h
  · rename_i hBar0
    exact safe_initMapped (c := { c with bar0Virt := bar0 }) h' hBar0 h.sqMem h.cqMem

end InUse

end NewPerf.Tools
