import NewPerf.Tools.AdminFields
import NewPerf.Tools.ControllerInit

/-!
# Starting and stopping by CC.EN and CSTS.RDY

A controller takes its admin queues from AQA, ASQ and ACQ when CC.EN is set.  It is ready
some time later, and when CC.EN is cleared it goes on for some time before it has stopped;
CSTS.RDY says which.  Its admin queue registers must not be touched before it has stopped,
and it must not be given a command before it is ready.

`Chip` is a controller of which only these registers are known.  CSTS.RDY follows CC.EN
after any time.  CC and CSTS read as all ones when the device has dropped off the bus, and
everything else that is read, and every result of a system call, is arbitrary.

`protocol_of_run` says that `controller_init`, `controller_deinit`, `nvme_get_file_size`,
`create_io_queue_pair` and `delete_io_queue_pair`, called in any order, keep to these rules
provided the controller has always stopped by the time `wait_ready` gives up waiting for
it.  Without that they do not: `controller_init` does not look at CSTS.RDY when it finds
CC.EN clear (`safe_restart_iff`).
-/

namespace NewPerf.Tools

open NewPerf.Lib.Programs
open NewPerf.Lib.Runs

/-! ## The controller -/

structure Chip where
  cc : UInt32 := 0
  rdy : Bool := false
  aqa : UInt32 := 0
  asqLow : UInt32 := 0
  asqHigh : UInt32 := 0
  acqLow : UInt32 := 0
  acqHigh : UInt32 := 0

namespace Chip

def enabled (m : Chip) : Bool := m.cc &&& nvmeCcEn ≠ 0

def asq (m : Chip) : UInt64 := Hardware.join m.asqLow m.asqHigh
def acq (m : Chip) : UInt64 := Hardware.join m.acqLow m.acqHigh

/-- What a load may return. -/
def Readable (m : Chip) (offset v : UInt32) : Prop :=
  if offset = nvmeRegCc then v = m.cc ∨ v = nvmeRegInvalid32
  else if offset = nvmeRegCsts then
    v = nvmeRegInvalid32 ∨ decide (v &&& nvmeCstsRdy ≠ 0) = m.rdy
  else True

instance decidableReadable (m : Chip) (offset v : UInt32) : Decidable (m.Readable offset v) :=
  inferInstanceAs (Decidable (if offset = nvmeRegCc then v = m.cc ∨ v = nvmeRegInvalid32
    else if offset = nvmeRegCsts then
      v = nvmeRegInvalid32 ∨ decide (v &&& nvmeCstsRdy ≠ 0) = m.rdy
    else True))

def store (m : Chip) (offset v : UInt32) : Chip :=
  if offset = nvmeRegCc then { m with cc := v }
  else if offset = nvmeRegAqa then { m with aqa := v }
  else if offset = nvmeRegAsq then { m with asqLow := v }
  else if offset = nvmeRegAsq + 4 then { m with asqHigh := v }
  else if offset = nvmeRegAcq then { m with acqLow := v }
  else if offset = nvmeRegAcq + 4 then { m with acqHigh := v }
  else m

/-- The answer of the environment has a result for every effect; the one that is asked for
is used. -/
def effect (m : Chip) (e : Effect) (answer : (e : Effect) → e.Result) :
    Option (e.Result × Chip) :=
  match e with
  | .regRead offset =>
      if m.Readable offset (answer (.regRead offset)) then
        some (answer (.regRead offset), m)
      else none
  | .regWrite offset v => some ((), m.store offset v)
  | e => some (answer e, m)

/-- CSTS.RDY catches up with CC.EN. -/
def settle (m : Chip) : Chip := { m with rdy := m.enabled }

/-! ### Where it can stand -/

/-- A controller that is disabled has stopped. -/
def Calm (m : Chip) : Prop := m.enabled = false → m.rdy = false

structure Stopped (m : Chip) : Prop where
  disabled : m.enabled = false
  notReady : m.rdy = false

structure Working (m : Chip) : Prop where
  enabled : m.enabled = true
  ready : m.rdy = true

/-- The controller has been given the queues of `c`. -/
structure Programmed (c : ControllerData) (m : Chip) : Prop where
  aqa : m.aqa = adminQueueAttributes
  asq : m.asq = c.adminSqMem.dmaAddr
  acq : m.acq = c.adminCqMem.dmaAddr

theorem Stopped.calm {m : Chip} (h : Stopped m) : Calm m := fun _ => h.notReady

end Chip

def chip : Machine Effect Effect.Result ((e : Effect) → e.Result) Unit Chip where
  eff := Chip.effect
  env := fun m _ => some m.settle

/-- An environment in which every call succeeds, every load returns `v`, and memory is
allocated at `mem`. -/
def answerWith (v : UInt32) (mem : Mem) : (e : Effect) → e.Result
  | .bar0Map _ _ _ => 0x1000
  | .bar0Unmap _ => true
  | .dmaOpen _ _ _ => 3
  | .dmaClose _ => ()
  | .regRead _ => v
  | .regWrite _ _ => ()
  | .allocDma _ _ => mem
  | .releaseDma _ => ()
  | .zeroDma _ => ()
  | .writeSqe _ _ _ => ()
  | .readCqe _ _ => {}
  | .readData _ => fun _ => 0
  | .printErrno _ => ()

/-! ## The rules -/

/-- A store that the controller allows: its queues may be changed and it may be enabled
only when it has stopped, and the doorbells are for a controller that is working. -/
structure Chip.Allows (m : Chip) (offset v : UInt32) : Prop where
  queues : offset ∈ [nvmeRegAqa, nvmeRegAsq, nvmeRegAsq + 4, nvmeRegAcq, nvmeRegAcq + 4] →
    m.Stopped
  enable : offset = nvmeRegCc → v &&& nvmeCcEn ≠ 0 →
    m.Stopped ∧ m.aqa = adminQueueAttributes
  doorbell : nvmeDoorbellBase ≤ offset → m.Working

/-- Every store is one the controller allows. -/
def Protocol : Option Effect → Chip → Prop
  | some (.regWrite offset v), m => m.Allows offset v
  | _, _ => True

/-- When `wait_ready` gives up waiting for the controller to stop, it has stopped. -/
def StopsInTime (m : Chip) : Effect → Prop
  | .printErrno message =>
      message = notReadyMessage false ∨ message = allOnesMessage → m.Calm
  | _ => True

abbrev SafeChip {α : Type} (Q : α → Chip → Prop) (p : Admin α) (m : Chip) : Prop :=
  Safe chip StopsInTime Protocol Q p m

section Rules

variable {α : Type} {m : Chip} {P : Chip → Prop} {Q : α → Chip → Prop}

theorem chip_stable (h : ∀ m, P m → P m.settle) : chip.Stable P := by
  intro m b m' hP hEnv
  obtain rfl : m.settle = m' := Option.some.inj hEnv
  exact h m hP

theorem stable_calm : chip.Stable Chip.Calm := chip_stable fun _ _ hDisabled => hDisabled

theorem stable_stopped : chip.Stable Chip.Stopped :=
  chip_stable fun _ h => ⟨h.disabled, h.disabled⟩

/-- Effects that leave the controller alone. -/
def Effect.LeavesChip : Effect → Prop
  | .regWrite _ _ => False
  | _ => True

theorem Effect.IsLoad.leavesChip {e : Effect} (h : e.IsLoad) : e.LeavesChip := by
  cases e with
  | regWrite offset v => exact h
  | _ => trivial

theorem Effect.IsAllocation.leavesChip {e : Effect} (h : e.IsAllocation) : e.LeavesChip := by
  cases e with
  | regWrite offset v => exact h
  | _ => trivial

theorem Effect.LeavesChip.protocol {e : Effect} (h : e.LeavesChip) (m : Chip) :
    Protocol (some e) m := by
  cases e with
  | regWrite offset v => exact h.elim
  | _ => trivial

theorem Effect.LeavesChip.effect_eq {e : Effect} (h : e.LeavesChip)
    {answer : (e : Effect) → e.Result} {r : e.Result} {m' : Chip}
    (hEff : m.effect e answer = some (r, m')) : m' = m := by
  cases e with
  | regWrite offset v => exact h.elim
  | regRead offset =>
      obtain ⟨-, hEff⟩ := Option.ite_none_right_eq_some.mp hEff
      cases hEff
      rfl
  | _ =>
      cases hEff
      rfl

theorem protocol_none (m : Chip) : Protocol none m := trivial

/-- A program that stores to no register keeps what is known of the controller. -/
theorem safe_leaves {Q : α → Prop} {p : Admin α} (h : p.Only Effect.LeavesChip Q)
    (hStable : chip.Stable P) (hP : P m) : SafeChip (fun a m => P m ∧ Q a) p m :=
  h.safe hStable (fun m _ => protocol_none m) (fun _ m he _ => he.protocol m)
    (fun _ _ _ _ _ he hP hEff => he.effect_eq hEff ▸ hP) hP

theorem safe_store {offset v : UInt32} {k : Unit → Admin α} (hStable : chip.Stable P)
    (hP : P m) (hAllows : ∀ m, P m → m.Allows offset v)
    (hNext : ∀ m, P m → SafeChip Q (k ()) (m.store offset v)) :
    SafeChip Q (.op (.regWrite offset v) k) m := by
  refine Safe.op hStable hP hAllows fun m a r m' hm _ hEff => ?_
  obtain ⟨-, rfl⟩ := Prod.mk.inj (Option.some.inj hEff)
  exact hNext m hm

theorem safe_load {offset : UInt32} {k : UInt32 → Admin α} (hStable : chip.Stable P)
    (hP : P m) (hNext : ∀ m v, P m → m.Readable offset v → SafeChip Q (k v) m) :
    SafeChip Q (.op (.regRead offset) k) m := by
  refine Safe.op hStable hP (fun _ _ => trivial) fun m a r m' hm _ hEff => ?_
  obtain ⟨hRead, hEff⟩ := Option.ite_none_right_eq_some.mp hEff
  obtain ⟨rfl, rfl⟩ := Prod.mk.inj (Option.some.inj hEff)
  exact hNext m _ hm hRead

/-- A message tells that the controller is calm if it says that a wait has given up. -/
theorem safe_report {message : String} {k : Unit → Admin α} (hStable : chip.Stable P)
    (hP : P m) (hNext : ∀ m, P m → StopsInTime m (.printErrno message) → SafeChip Q (k ()) m) :
    SafeChip Q (.op (.printErrno message) k) m := by
  refine Safe.op hStable hP (fun _ _ => trivial) fun m a r m' hm hOk hEff => ?_
  obtain ⟨-, rfl⟩ := Prod.mk.inj (Option.some.inj hEff)
  exact hNext m hm hOk

theorem safe_finish {a : α} (hStable : chip.Stable P) (hP : P m) (hQ : ∀ m, P m → Q a m) :
    SafeChip Q (.pure a) m :=
  Safe.pure hStable hP (fun m _ => protocol_none m) hQ

end Rules

/-! ## `wait_ready` -/

section Waiting

variable {m : Chip} {P D : Chip → Prop} {bar0 : UInt64} {ready : Bool} {timeoutMs : UInt32}

/-- What CSTS tells unless it reads as all ones. -/
private theorem rdy_of_readable {v : UInt32} (hRead : m.Readable nvmeRegCsts v)
    (hOnes : v ≠ nvmeRegInvalid32)
    (hWant : v &&& nvmeCstsRdy = (if ready then nvmeCstsRdy else 0)) : m.rdy = ready := by
  have hRdy : decide (v &&& nvmeCstsRdy ≠ 0) = m.rdy := hRead.resolve_left hOnes
  rw [← hRdy, hWant]
  cases ready <;> decide

/-- `wait_ready` returns true when it has seen what it waits for, and otherwise the
controller is calm. -/
theorem safe_waitReady_chip (hBar0 : bar0 ≠ 0) (hStable : chip.Stable P) (hP : P m)
    (hDone : chip.Stable D) (hSeen : ∀ m, P m → m.rdy = ready → D m)
    (hCalm : ∀ m, P m → ready = true → m.Calm) :
    SafeChip (fun seen m => if seen then D m else m.Calm) (waitReady bar0 ready timeoutMs) m := by
  have hGaveUp : ∀ {message : String} {m : Chip}, P m →
      (message = notReadyMessage ready ∨ message = allOnesMessage) →
      SafeChip (fun seen m => if seen then D m else m.Calm)
        (.op (.printErrno message) fun _ => .pure false) m := by
    intro message m hm hMessage
    refine safe_report hStable hm fun m hm hInTime => ?_
    have hQuiet : m.Calm := by
      cases ready with
      | true => exact hCalm m hm rfl
      | false => exact hInTime hMessage
    exact safe_finish stable_calm hQuiet fun _ h => h
  unfold waitReady
  generalize timeoutMs.toNat = left
  induction left generalizing m with
  | zero => exact hGaveUp hP (.inl rfl)
  | succ left ih =>
      rw [waitReadyLoop, controllerRegRead32_eq hBar0 (by decide)]
      refine safe_load hStable hP fun m v hm hRead => ?_
      show SafeChip _ (if v = nvmeRegInvalid32 then _ else if _ then _ else _) m
      split
      · exact hGaveUp hm (.inr rfl)
      rename_i hOnes
      by_cases hWant : v &&& nvmeCstsRdy = (if ready then nvmeCstsRdy else 0)
      · rw [if_pos hWant]
        have hD := hSeen m hm (rdy_of_readable hRead hOnes hWant)
        exact safe_finish hDone hD fun _ h => h
      · rw [if_neg hWant]
        exact ih hm

end Waiting

/-! ## Stores -/

namespace Chip

variable {m : Chip} {offset v : UInt32} {c : ControllerData}

theorem store_cc (m : Chip) (v : UInt32) : m.store nvmeRegCc v = { m with cc := v } := rfl

/-- A store that neither enables the controller nor is for its queues or doorbells. -/
private theorem allows_clear (h : v &&& nvmeCcEn = 0) : m.Allows nvmeRegCc v where
  queues hMem := absurd hMem (by decide)
  enable _ hEn := absurd h hEn
  doorbell hLe := absurd hLe (by decide)

private theorem allows_queue (h : m.Stopped) (hCc : offset ≠ nvmeRegCc)
    (hBelow : ¬ nvmeDoorbellBase ≤ offset) : m.Allows offset v where
  queues _ := h
  enable hEq := absurd hEq hCc
  doorbell hLe := absurd hLe hBelow

private theorem allows_enable (h : m.Stopped) (hAqa : m.aqa = adminQueueAttributes) :
    m.Allows nvmeRegCc v where
  queues hMem := absurd hMem (by decide)
  enable _ _ := ⟨h, hAqa⟩
  doorbell hLe := absurd hLe (by decide)

theorem allows_doorbell (h : m.Working) (hLe : nvmeDoorbellBase ≤ offset) :
    m.Allows offset v where
  queues hMem := by
    refine absurd hLe ?_
    simp only [List.mem_cons, List.not_mem_nil, or_false] at hMem
    rcases hMem with rfl | rfl | rfl | rfl | rfl <;> decide
  enable hEq := absurd hLe (by rw [hEq]; decide)
  doorbell _ := h

/-- The doorbells are behind all of these registers. -/
theorem store_doorbell (m : Chip) (v : UInt32) (hLe : nvmeDoorbellBase ≤ offset) :
    m.store offset v = m := by
  have hNe : ∀ reg : UInt32, ¬ nvmeDoorbellBase ≤ reg → offset ≠ reg := by
    rintro reg hReg rfl
    exact hReg hLe
  unfold store
  rw [if_neg (hNe _ (by decide)), if_neg (hNe _ (by decide)), if_neg (hNe _ (by decide)),
    if_neg (hNe _ (by decide)), if_neg (hNe _ (by decide)), if_neg (hNe _ (by decide))]

theorem disabled_of_clear (h : v &&& nvmeCcEn = 0) : (m.store nvmeRegCc v).enabled = false := by
  rw [store_cc]
  simp [enabled, h]

end Chip

/-! ## Programs that leave the controller alone -/

section Leaving

variable {α : Type}

theorem leaves_printErrno (message : String) :
    (printErrno message).Only Effect.LeavesChip fun _ => True := ⟨trivial, fun _ => trivial⟩

theorem leaves_regRead64 (bar0 : UInt64) (offset : UInt32) :
    (nvmeRegRead64 bar0 offset).Only Effect.LeavesChip fun _ => True :=
  (only_regRead64 bar0 offset).widen fun _ he => he.leavesChip

theorem leaves_nvmeAllocDmaMem (c : ControllerData) (size : UInt64) (mem : Mem) :
    (nvmeAllocDmaMem c size mem).Only Effect.LeavesChip fun r => SameSetup c r.2.1 :=
  (only_nvmeAllocDmaMem c size mem).widen fun _ he => he.leavesChip

theorem leaves_freeDma (mem : Mem) : (freeDma mem).Only Effect.LeavesChip fun _ => True :=
  (only_freeDma mem).widen fun _ he => he ▸ trivial

theorem leaves_nvmeCloseDma (c : ControllerData) :
    (nvmeCloseDma c).Only Effect.LeavesChip fun c' => c'.bar0Virt = c.bar0Virt := by
  unfold nvmeCloseDma
  split
  · exact ⟨trivial, fun _ => rfl⟩
  · rfl

theorem leaves_nvmeReleaseControllerDma (c : ControllerData) :
    (nvmeReleaseControllerDma c).Only Effect.LeavesChip fun c' => c'.bar0Virt = c.bar0Virt :=
  (leaves_freeDma _).bind fun sqMem _ => (leaves_freeDma _).bind fun cqMem _ =>
    leaves_nvmeCloseDma { c with adminSqMem := sqMem, adminCqMem := cqMem }

theorem leaves_controllerBar0Unmap (bar0 : UInt64) :
    (controllerBar0Unmap bar0).Only Effect.LeavesChip fun _ => True := by
  unfold controllerBar0Unmap
  split
  · exact (leaves_printErrno _).bind fun _ _ => trivial
  · refine ⟨trivial, fun unmapped => ?_⟩
    cases unmapped with
    | true => trivial
    | false => exact (leaves_printErrno _).bind fun _ _ => trivial

theorem leaves_nvmeUnmapControllerBar0 (c : ControllerData) :
    (nvmeUnmapControllerBar0 c).Only Effect.LeavesChip fun c' => c'.bar0Virt = 0 := by
  unfold nvmeUnmapControllerBar0
  split
  · exact (leaves_controllerBar0Unmap _).bind fun _ _ => rfl
  · rename_i hZero
    exact not_not.mp hZero

theorem leaves_failUnmapped (c : ControllerData) :
    (failUnmapped c).Only Effect.LeavesChip fun r => r.1 = false ∧ r.2.bar0Virt = 0 :=
  (leaves_nvmeUnmapControllerBar0 c).bind fun _ h => ⟨rfl, h⟩

theorem leaves_failReleased (c : ControllerData) :
    (failReleased c).Only Effect.LeavesChip fun r => r.1 = false ∧ r.2.bar0Virt = 0 :=
  (leaves_nvmeUnmapControllerBar0 c).bind fun c' h =>
    (leaves_nvmeReleaseControllerDma c').bind fun _ h' => ⟨rfl, h'.trans h⟩

theorem leaves_releaseController (c : ControllerData) :
    (releaseController c).Only Effect.LeavesChip fun c' => c'.bar0Virt = c.bar0Virt :=
  (leaves_nvmeReleaseControllerDma c).bind fun _ h => h

end Leaving

/-! ## `controller_init` -/

/-- The controller works on the queues of `c`, which knows its doorbells. -/
structure InOperation (c : ControllerData) (m : Chip) : Prop
    extends Chip.Programmed c m, Chip.Working m where
  bar0 : c.bar0Virt ≠ 0
  sqDb : nvmeDoorbellBase ≤ c.adminSqTailDb
  cqDb : nvmeDoorbellBase ≤ c.adminCqHeadDb

/-- Between calls a controller is calm, and what is in use is in operation. -/
structure AtRest (c : ControllerData) (m : Chip) : Prop where
  calm : m.Calm
  operation : c.bar0Virt ≠ 0 → InOperation c m

theorem stable_inOperation (c : ControllerData) : chip.Stable (InOperation c) :=
  chip_stable fun _ h => { h with ready := h.enabled }

theorem stable_atRest (c : ControllerData) : chip.Stable (AtRest c) := by
  refine chip_stable fun m h => ⟨fun hDisabled => hDisabled, fun hBar0 => ?_⟩
  have hOld := h.operation hBar0
  exact { hOld with ready := hOld.enabled }

/-- How `controller_init` ends. -/
def InitEnds (r : Bool × ControllerData) (m : Chip) : Prop :=
  AtRest r.2 m ∧ (r.1 = true ↔ r.2.bar0Virt ≠ 0)

section Init

variable {m : Chip} {c : ControllerData} {cap : UInt64}

theorem safe_fails {p : Admin (Bool × ControllerData)} (h : m.Calm)
    (hLeaves : p.Only Effect.LeavesChip fun r => r.1 = false ∧ r.2.bar0Virt = 0) :
    SafeChip InitEnds p m := by
  refine (safe_leaves hLeaves stable_calm h).mono fun r m ⟨hCalm, hFalse, hBar0⟩ => ?_
  exact ⟨⟨hCalm, fun hne => absurd hBar0 hne⟩, by simp [hFalse, hBar0]⟩

/-- CSTS.RDY stays as it is while the controller has stopped. -/
private theorem stable_of_stopped (h : m.Stopped) : chip.Stable (· = m) := by
  refine chip_stable fun m' hEq => ?_
  rw [hEq, Chip.settle, h.disabled, ← h.notReady]

private theorem safe_queueStore {α : Type} {Q : α → Chip → Prop} {offset v : UInt32}
    {k : Unit → Admin α} (h : m.Stopped) (hCc : offset ≠ nvmeRegCc)
    (hBelow : ¬ nvmeDoorbellBase ≤ offset)
    (hNext : (m.store offset v).Stopped → SafeChip Q (k ()) (m.store offset v)) :
    SafeChip Q (.op (.regWrite offset v) k) m := by
  refine safe_store (stable_of_stopped h) rfl (fun m' hEq => ?_) fun m' hEq => ?_
  · rw [hEq]
    exact Chip.allows_queue h hCc hBelow
  · rw [hEq]
    refine hNext ?_
    unfold Chip.store
    rw [if_neg hCc]
    split_ifs <;> exact ⟨h.disabled, h.notReady⟩

/-- The queues of `c` have been stored, and the controller has been enabled. -/
private def switchedOn (c : ControllerData) (cap : UInt64) (m : Chip) : Chip :=
  { m with
    cc := enableConfiguration cap
    aqa := adminQueueAttributes
    asqLow := c.adminSqMem.dmaAddr.toUInt32
    asqHigh := (c.adminSqMem.dmaAddr >>> 32).toUInt32
    acqLow := c.adminCqMem.dmaAddr.toUInt32
    acqHigh := (c.adminCqMem.dmaAddr >>> 32).toUInt32 }

private theorem switchedOn_programmed (c : ControllerData) (cap : UInt64) (m : Chip) :
    Chip.Programmed c (switchedOn c cap m) :=
  ⟨rfl, Hardware.join_halves _, Hardware.join_halves _⟩

private theorem switchedOn_enabled (c : ControllerData) (cap : UInt64) (m : Chip) :
    (switchedOn c cap m).enabled = true :=
  decide_eq_true (enableConfiguration_en cap)

theorem safe_enable (hBar0 : c.bar0Virt ≠ 0) (h : m.Stopped) :
    SafeChip InitEnds (enableController c cap) m := by
  unfold enableController
  rw [controllerRegWrite32_eq hBar0 (by decide),
    nvmeRegWrite64_eq hBar0 (by decide) (by decide),
    nvmeRegWrite64_eq hBar0 (by decide) (by decide),
    controllerRegWrite32_eq hBar0 (by decide)]
  refine safe_queueStore h (by decide) (by decide) fun h => ?_
  refine safe_queueStore h (by decide) (by decide) fun h => ?_
  refine safe_queueStore h (by decide) (by decide) fun h => ?_
  refine safe_queueStore h (by decide) (by decide) fun h => ?_
  refine safe_queueStore h (by decide) (by decide) fun h => ?_
  refine safe_store (stable_of_stopped h) rfl (fun m' hEq => ?_) fun m' hEq => ?_
  · rw [hEq]
    exact Chip.allows_enable h rfl
  · rw [hEq]
    have hWait : SafeChip
        (fun ready m => if ready then Chip.Programmed c m ∧ m.Working else m.Calm)
        (waitReady c.bar0Virt true (readyTimeoutMs cap)) (switchedOn c cap m) := by
      refine safe_waitReady_chip (P := fun m => Chip.Programmed c m ∧ m.enabled = true) hBar0
        ?_ ⟨switchedOn_programmed c cap m, switchedOn_enabled c cap m⟩ ?_ ?_ ?_
      · exact chip_stable fun m hm => ⟨{ hm.1 with }, hm.2⟩
      · exact chip_stable fun m hm => ⟨{ hm.1 with }, hm.2.enabled, hm.2.enabled⟩
      · exact fun m hm hRdy => ⟨hm.1, hm.2, hRdy⟩
      · exact fun m hm _ hOff => absurd hm.2 (by simp [hOff])
    refine hWait.bind fun ready m' hm' => ?_
    cases ready with
    | false => exact safe_fails hm' (leaves_failReleased c)
    | true =>
        have hOperation : InOperation (adminReady c cap) m' :=
          { hm'.1, hm'.2 with
            bar0 := hBar0
            sqDb := UInt32.le_refl _
            cqDb := UInt32.le_of_lt (lt_adminCqHeadDoorbell cap) }
        refine safe_finish (stable_inOperation _) hOperation fun m'' h'' => ?_
        exact ⟨⟨fun hOff => absurd h''.enabled (by simp [hOff]), fun _ => h''⟩,
          iff_of_true rfl hBar0⟩

/-- The wait for the controller to stop. -/
private theorem safe_waitStopped {bar0 : UInt64} {timeoutMs : UInt32} (hBar0 : bar0 ≠ 0)
    (hDisabled : m.enabled = false) :
    SafeChip (fun stopped m => if stopped then m.Stopped else m.Calm)
      (waitReady bar0 false timeoutMs) m := by
  refine safe_waitReady_chip (P := fun m => m.enabled = false) hBar0 ?_ hDisabled
    stable_stopped ?_ ?_
  · exact chip_stable fun m hm => hm
  · exact fun m hm hRdy => ⟨hm, hRdy⟩
  · exact fun m hm hTrue => absurd hTrue (by decide)

/-- CC.EN is cleared, whatever else CC holds. -/
private theorem safe_clear {α : Type} {Q : α → Chip → Prop} {cc : UInt32} {k : Unit → Admin α}
    (h : m.Calm)
    (hNext : ∀ m : Chip, m.enabled = false → SafeChip Q (k ()) m) :
    SafeChip Q (.op (.regWrite nvmeRegCc (cc &&& ~~~nvmeCcEn)) k) m :=
  safe_store stable_calm h (fun _ _ => Chip.allows_clear (and_not_en cc)) fun _ _ =>
    hNext _ (Chip.disabled_of_clear (and_not_en cc))

theorem safe_restart (hBar0 : c.bar0Virt ≠ 0) (h : m.Calm) :
    SafeChip InitEnds (restartController c cap) m := by
  unfold restartController
  rw [controllerRegRead32_eq hBar0 (by decide)]
  refine safe_load stable_calm h fun m cc h hRead => ?_
  show SafeChip InitEnds (if cc = nvmeRegInvalid32 then _ else if _ then _ else _) m
  split
  · exact safe_report stable_calm h fun m h _ => safe_fails h (leaves_failReleased c)
  rename_i hOnes
  obtain rfl : cc = m.cc := Or.resolve_right hRead hOnes
  split
  · rw [controllerRegWrite32_eq hBar0 (by decide)]
    refine safe_clear h fun m' hDisabled => ?_
    refine (safe_waitStopped hBar0 hDisabled).bind fun stopped m'' hm'' => ?_
    cases stopped with
    | false => exact safe_fails hm'' (leaves_failReleased c)
    | true => exact safe_enable hBar0 hm''
  · rename_i hEn
    have hDisabled : m.enabled = false := by simpa [Chip.enabled] using hEn
    exact safe_enable hBar0 ⟨hDisabled, h hDisabled⟩

/-- `controller_init` may go on from the load of CC if and only if the controller has
stopped in case it is disabled. -/
theorem safe_restart_iff (hBar0 : c.bar0Virt ≠ 0) :
    SafeChip InitEnds (restartController c cap) m ↔ m.Calm := by
  refine ⟨fun hSafe hDisabled => ?_, safe_restart hBar0⟩
  have hOff : m.cc &&& nvmeCcEn = 0 := by simpa [Chip.enabled] using hDisabled
  have hOnes : m.cc ≠ nvmeRegInvalid32 := by
    intro hEq
    rw [hEq] at hOff
    exact absurd hOff (by decide)
  unfold restartController at hSafe
  rw [controllerRegRead32_eq hBar0 (by decide)] at hSafe
  -- CC is read as it is, and the next effect is the store to AQA.
  have hStep : chip.eff m (.regRead nvmeRegCc) (answerWith m.cc {}) = some (m.cc, m) :=
    if_pos (.inl rfl)
  have hRest := (hSafe m .refl).2 _ _ _ trivial hStep
  change SafeChip InitEnds (if m.cc = nvmeRegInvalid32 then _ else if _ then _ else _) m
    at hRest
  rw [if_neg hOnes, if_neg (not_not.mpr hOff), enableController,
    controllerRegWrite32_eq hBar0 (by decide)] at hRest
  have hAllows : m.Allows nvmeRegAqa adminQueueAttributes := hRest.spec_next
  exact (hAllows.queues (by decide)).notReady

theorem safe_setup (hBar0 : c.bar0Virt ≠ 0) (h : m.Calm) :
    SafeChip InitEnds (setupController c cap) m := by
  refine (safe_leaves (leaves_nvmeAllocDmaMem c _ _) stable_calm h).bind ?_
  rintro ⟨sqOk, c₁, sqMem⟩ m₁ ⟨h₁, hSame₁⟩
  cases sqOk with
  | false => exact safe_fails h₁ (leaves_failReleased _)
  | true =>
      refine (safe_leaves (leaves_nvmeAllocDmaMem { c₁ with adminSqMem := sqMem } _ _)
        stable_calm h₁).bind ?_
      rintro ⟨cqOk, c₂, cqMem⟩ m₂ ⟨h₂, hSame₂⟩
      have hBar0₂ : c₂.bar0Virt ≠ 0 := by
        rw [hSame₂.sameWiring.bar0]
        show c₁.bar0Virt ≠ 0
        rw [hSame₁.sameWiring.bar0]
        exact hBar0
      cases cqOk with
      | false => exact safe_fails h₂ (leaves_failReleased _)
      | true =>
          have hZero : ∀ mem, (perform (Effect.zeroDma mem) : Admin _).Only Effect.LeavesChip
              fun _ => True := fun _ => ⟨trivial, fun _ => trivial⟩
          refine (safe_leaves (hZero _) stable_calm h₂).bind fun _ m₃ h₃ => ?_
          refine (safe_leaves (hZero _) stable_calm h₃.1).bind fun _ m₄ h₄ => ?_
          exact safe_restart (c := { c₂ with adminCqMem := cqMem }) hBar0₂ h₄.1

theorem safe_mapped (hBar0 : c.bar0Virt ≠ 0) (h : m.Calm) :
    SafeChip InitEnds (initMapped c) m := by
  have hFail : ∀ {message : String} {m : Chip}, m.Calm →
      SafeChip InitEnds (printErrno message >>= fun _ => failUnmapped c) m :=
    fun h => safe_report stable_calm h fun m h _ => safe_fails h (leaves_failUnmapped c)
  unfold initMapped
  refine (safe_leaves (leaves_regRead64 _ _) stable_calm h).bind fun read m ⟨h, _⟩ => ?_
  cases read with
  | none => exact safe_fails h (leaves_failUnmapped c)
  | some cap =>
      dsimp only
      split
      · exact hFail h
      split
      · exact hFail h
      split
      · exact hFail h
      · exact safe_setup hBar0 h

theorem safe_init (hBar0 : c.bar0Virt = 0) (h : m.Calm) :
    SafeChip InitEnds (controllerInit c) m := by
  have hMap : (perform (Effect.bar0Map c.bus.toUInt8 c.dev.toUInt8 c.func.toUInt8) :
      Admin _).Only Effect.LeavesChip fun _ => True := ⟨trivial, fun _ => trivial⟩
  unfold controllerInit
  rw [if_pos hBar0]
  refine (safe_leaves hMap stable_calm h).bind fun bar0 m ⟨h, _⟩ => ?_
  split
  · exact safe_fails (p := .pure (false, c)) h ⟨rfl, hBar0⟩
  · rename_i hMapped
    exact safe_mapped (c := { c with bar0Virt := bar0 }) hMapped h

/-! ## `controller_deinit` -/

theorem safe_stop {bar0 : UInt64} (hBar0 : bar0 ≠ 0) (h : m.Calm) :
    SafeChip (fun _ m => m.Calm) (stopController bar0) m := by
  have hDone : ∀ {m : Chip}, m.Calm → SafeChip (fun _ m => m.Calm) (.pure ()) m :=
    fun h => safe_finish stable_calm h fun _ h => h
  unfold stopController
  refine (safe_leaves (leaves_regRead64 _ _) stable_calm h).bind fun read m ⟨h, _⟩ => ?_
  cases read with
  | none => exact hDone h
  | some cap =>
      dsimp only
      split
      · rw [controllerRegRead32_eq hBar0 (by decide)]
        refine safe_load stable_calm h fun m cc h _ => ?_
        show SafeChip _ (if _ then _ else _) m
        split
        · rw [controllerRegWrite32_eq hBar0 (by decide)]
          refine safe_clear h fun m hDisabled => ?_
          refine (safe_waitStopped hBar0 hDisabled).bind fun stopped m hm => ?_
          cases stopped with
          | false => exact hDone hm
          | true => exact hDone hm.calm
        · exact hDone h
      · exact hDone h

theorem safe_deinit (h : m.Calm) :
    SafeChip (fun c' m => m.Calm ∧ c'.bar0Virt = 0) (controllerDeinit c) m := by
  unfold controllerDeinit
  split
  · rename_i hBar0
    refine (safe_stop hBar0 h).bind fun _ m h => ?_
    refine (safe_leaves (leaves_controllerBar0Unmap _) stable_calm h).bind
      fun unmapped m ⟨h, _⟩ => ?_
    cases unmapped with
    | true => exact safe_leaves (leaves_releaseController { c with bar0Virt := 0 }) stable_calm h
    | false =>
        refine safe_report stable_calm h fun m h _ => ?_
        exact safe_leaves (leaves_releaseController { c with bar0Virt := 0 }) stable_calm h
  · rename_i hBar0
    refine (safe_leaves (leaves_releaseController c) stable_calm h).mono ?_
    exact fun c' m hm => ⟨hm.1, hm.2.trans (not_not.mp hBar0)⟩

end Init

/-! ## Runs -/

inductive ControllerCall where
  | controllerInit
  | controllerDeinit
  | nvmeGetFileSize
  | createIoQueuePair (n : NvmeData)
  | deleteIoQueuePair (n : NvmeData)

/-- The calls on one `struct controller_data`, with any `struct nvme_data`.
`controller_init` is called when the controller is not initialised, as all callers do. -/
def controllerProg (c : ControllerData) : ControllerCall → Option (Admin ControllerData)
  | .controllerInit =>
      if c.bar0Virt = 0 then some do
        let (_, c) ← controllerInit c
        return c
      else none
  | .controllerDeinit => some (controllerDeinit c)
  | .nvmeGetFileSize => some do
      let (_, c) ← nvmeGetFileSize c
      return c
  | .createIoQueuePair n => some do
      let (_, c, _) ← createIoQueuePair c n
      return c
  | .deleteIoQueuePair n => some do
      let (_, c, _) ← deleteIoQueuePair c n
      return c

/-- A controller as `parse_target` returns it, and any chip. -/
def chipStart (bus dev func nsid : UInt16) (m : Chip) :
    Calls Effect Effect.Result ControllerData Chip :=
  { host := { bus, dev, func, nsid }, machine := m }

section Runs

variable {α : Type} {m : Chip} {c : ControllerData} {f : α → ControllerData} {p : Admin α}

/-- A controller in operation stays so while commands are sent to it. -/
private theorem safe_serves (h : InOperation c m) (hServes : Serves c f p) :
    SafeChip (fun a m => AtRest (f a) m) p m := by
  have hBehind : ∀ {m : Chip} {offset v : UInt32}, InOperation c m →
      Effect.Rings c (.regWrite offset v) → nvmeDoorbellBase ≤ offset := by
    intro m offset v hm hRings
    rcases hRings with rfl | rfl
    · exact hm.sqDb
    · exact hm.cqDb
  refine (Prog.Only.safe hServes (stable_inOperation c) (fun m _ => protocol_none m)
    (fun e m he hm => ?_) (fun e m a r m' he hm hEff => ?_) h).mono fun a m ⟨hm, hSame⟩ => ?_
  · cases e with
    | regWrite offset v => exact Chip.allows_doorbell hm.toWorking (hBehind hm he)
    | _ => trivial
  · by_cases hLeaves : e.LeavesChip
    · rw [hLeaves.effect_eq hEff]
      exact hm
    · cases e with
      | regWrite offset v =>
          obtain ⟨-, rfl⟩ := Prod.mk.inj (Option.some.inj hEff)
          rw [Chip.store_doorbell m v (hBehind hm he)]
          exact hm
      | _ => exact absurd trivial hLeaves
  · exact
      { calm := fun hOff => absurd hm.enabled (by simp [hOff])
        operation := fun _ =>
          { toWorking := hm.toWorking
            aqa := hm.aqa
            asq := hSame.sqMem ▸ hm.asq
            acq := hSame.cqMem ▸ hm.acq
            bar0 := hSame.bar0 ▸ hm.bar0
            sqDb := hSame.sqDb ▸ hm.sqDb
            cqDb := hSame.cqDb ▸ hm.cqDb } }

/-- A command is sent to a controller in operation, and otherwise refused with a message. -/
private theorem safe_command (h : AtRest c m) (hServes : Serves c f p)
    (hRefused : c.bar0Virt = 0 → p.Only Effect.LeavesChip fun a => f a = c) :
    SafeChip (fun a m => AtRest (f a) m) p m := by
  by_cases hBar0 : c.bar0Virt = 0
  · refine (safe_leaves (hRefused hBar0) (stable_atRest c) h).mono fun a m ⟨hm, hEq⟩ => ?_
    rw [hEq]
    exact hm
  · exact safe_serves (h.operation hBar0) hServes

private theorem safe_result {k : α → Admin ControllerData}
    (h : SafeChip (fun a m => AtRest (f a) m) p m) (hk : ∀ a, k a = .pure (f a)) :
    SafeChip (fun c m => AtRest c m) (p >>= k) m :=
  h.bind fun a _ hm => by
    rw [hk]
    exact safe_finish (stable_atRest _) hm fun _ h => h

theorem inductive_atRest : Calls.Inductive chip StopsInTime Protocol controllerProg AtRest where
  stable := stable_atRest
  spec_none _ m _ := protocol_none m
  safe c m call p h hProg := by
    cases call with
    | controllerInit =>
        simp only [controllerProg, Option.ite_none_right_eq_some, Option.some.injEq] at hProg
        obtain ⟨hBar0, rfl⟩ := hProg
        exact safe_result ((safe_init hBar0 h.calm).mono fun r m hr => hr.1) fun _ => rfl
    | controllerDeinit =>
        obtain rfl := Option.some.inj hProg
        refine (safe_deinit h.calm).mono fun c' m ⟨hCalm, hBar0⟩ => ?_
        exact ⟨hCalm, fun hne => absurd hBar0 hne⟩
    | nvmeGetFileSize =>
        obtain rfl := Option.some.inj hProg
        refine safe_result (safe_command h (serves_nvmeGetFileSize c) fun hBar0 => ?_) fun _ => rfl
        rw [nvmeGetFileSize, if_pos (.inl hBar0)]
        exact (leaves_printErrno _).bind fun _ _ => rfl
    | createIoQueuePair n =>
        obtain rfl := Option.some.inj hProg
        refine safe_result (safe_command h (keeps_createIoQueuePair c n).serves fun hBar0 => ?_)
          fun _ => rfl
        rw [createIoQueuePair, if_pos hBar0]
        exact (leaves_printErrno _).bind fun _ _ => rfl
    | deleteIoQueuePair n =>
        obtain rfl := Option.some.inj hProg
        refine safe_result (safe_command h (keeps_deleteIoQueuePair c n).serves fun hBar0 => ?_)
          fun _ => rfl
        rw [deleteIoQueuePair, if_pos hBar0]
        exact (leaves_printErrno _).bind fun _ _ => rfl

/-- In every run in which the controller has stopped whenever `wait_ready` gives up waiting
for that, every store to a register is one the controller allows, and between calls a
controller that is initialised is ready and works on the queues of its structure. -/
theorem protocol_of_run {bus dev func nsid : UInt16} {m₀ : Chip}
    {acts : List (Act ControllerCall ((e : Effect) → e.Result) Unit)}
    {s : Calls Effect Effect.Result ControllerData Chip} (hCalm : m₀.Calm)
    (hRun : Run (Calls.step chip controllerProg) (Calls.stepOk StopsInTime)
      (chipStart bus dev func nsid m₀) acts s) :
    (∀ offset v, s.next = some (.regWrite offset v) → s.machine.Allows offset v) ∧
      (s.running = none → s.host.bar0Virt ≠ 0 → InOperation s.host s.machine) := by
  have hStart : AtRest (chipStart bus dev func nsid m₀).host m₀ :=
    ⟨hCalm, fun hne => absurd rfl hne⟩
  obtain ⟨hSpec, hIdle⟩ := inductive_atRest.of_run rfl hStart hRun
  refine ⟨fun offset v hNext => ?_, fun hNone => (hIdle hNone).operation⟩
  rw [hNext] at hSpec
  exact hSpec

end Runs

/-- `controller_init` on a chip that gets ready in time. -/
def handshakeActs : List (Act ControllerCall ((e : Effect) → e.Result) Unit) :=
  let sq : Mem := { fd := 3, userVirtaddr := 0x20000, dmaAddr := 0x30000, size := 4096 }
  let cq : Mem := { fd := 3, userVirtaddr := 0x21000, dmaAddr := 0x31000, size := 4096 }
  [.call .controllerInit, .effect (answerWith 0 {}), .effect (answerWith 0x010003ff {}),
    .effect (answerWith 0 {}), .effect (answerWith 0 {}), .effect (answerWith 0 sq),
    .effect (answerWith 0 cq)] ++
  List.replicate 9 (.effect (answerWith 0 {})) ++
  [.env (), .effect (answerWith 1 {}), .ret]

/-- No message is printed. -/
def noMessage (s : Calls Effect Effect.Result ControllerData Chip)
    (_ : Act ControllerCall ((e : Effect) → e.Result) Unit) : Bool :=
  match s.next with
  | some (.printErrno _) => false
  | _ => true

theorem protocol_of_run_started : ∃ s, Run (Calls.step chip controllerProg)
    (Calls.stepOk StopsInTime) (chipStart 5 0 0 1 {}) handshakeActs s ∧
      InOperation s.host s.machine := by
  have hEval : (exec (Calls.step chip controllerProg) noMessage (chipStart 5 0 0 1 {})
      handshakeActs).any (fun s => s.running.isNone && decide (s.host.bar0Virt ≠ 0)) = true := by
    decide +kernel
  obtain ⟨s, hExec, hEnd⟩ := (Option.any_eq_true _ _).mp hEval
  obtain ⟨hNone, hBar0⟩ := Bool.and_eq_true_iff.mp hEnd
  have hRun : Run (Calls.step chip controllerProg) (Calls.stepOk StopsInTime)
      (chipStart 5 0 0 1 {}) handshakeActs s := by
    refine Run.of_exec (fun s a hTest => ?_) hExec
    cases a with
    | effect answer =>
        intro e hNext
        rw [noMessage, hNext] at hTest
        cases e with
        | printErrno message => cases hTest
        | _ => trivial
    | _ => trivial
  refine ⟨s, hRun, (protocol_of_run (fun _ => rfl) hRun).2 ?_ (of_decide_eq_true hBar0)⟩
  exact Option.isNone_iff_eq_none.mp hNone

end NewPerf.Tools
