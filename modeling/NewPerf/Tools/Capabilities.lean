import NewPerf.Tools.AdminFields
import NewPerf.Tools.AdminRules

/-!
# What `controller_init` derives from CAP

CAP is a constant of the controller.  What it decides, the doorbell offsets and the
value written to CC, can therefore be followed through the administrative functions
without knowing what else the hardware answers: `Prog.Ensures` for the fields of the
host's structures, `Safe` without a condition on the execution for CC.
-/

namespace NewPerf.Tools

open NewPerf.Lib.Programs

/-! ## CAP -/

/-- What an effect may return, given CAP. -/
def CapAnswer (cap : UInt64) : (e : Effect) → e.Result → Prop
  | .regRead offset, v => (offset = nvmeRegCap → v = cap.toUInt32) ∧
      (offset = nvmeRegCap + 4 → v = (cap >>> 32).toUInt32)
  | _, _ => True

namespace Hardware

variable {m m' : Hardware}

theorem writeReg_cap (m : Hardware) (offset v : UInt32) :
    (m.writeReg offset v).cap = m.cap := by
  simp only [writeReg, writeCc, ringAdminSq]
  repeat' split
  all_goals rfl

theorem observe_cap (m : Hardware) (offset v : UInt32) :
    (m.observe offset v).cap = m.cap := by
  simp only [observe, halt]
  repeat' split
  all_goals rfl

theorem alloc_cap (m : Hardware) (mem : Mem) : (m.alloc mem).cap = m.cap := by
  unfold alloc
  split <;> rfl

theorem Readable.cap {offset v : UInt32} (h : m.Readable offset v) :
    CapAnswer m.cap (.regRead offset) v := by
  constructor
  · rintro rfl
    exact h
  · rintro rfl
    exact h

theorem effect_cap {e : Effect} {a : Answer} {r : e.Result}
    (h : m.effect e a = some (r, m')) : CapAnswer m.cap e r ∧ m'.cap = m.cap := by
  obtain ⟨hAllowed, rfl⟩ := effect_cases h
  cases e with
  | regRead offset => exact ⟨Readable.cap hAllowed, m.observe_cap offset r⟩
  | regWrite offset v => exact ⟨trivial, m.writeReg_cap offset v⟩
  | allocDma fd size => exact ⟨trivial, m.alloc_cap r⟩
  | _ => exact ⟨trivial, rfl⟩

theorem device_cap {b : DeviceAct} (h : m.device b = some m') : m'.cap = m.cap := by
  obtain ⟨i, s, _, _, rfl⟩ | ⟨i, s, _, _, _, rfl⟩ | ⟨i, s, _, _, _, _, _, _, rfl⟩ :=
    device_cases h
  · rfl
  · rw [apply_eq]
    rfl
  · rfl

end Hardware

/-- A program that ensures something for one value of CAP does so on every hardware with
that CAP. -/
theorem safe_of_ensures {α : Type} {Q : α → Prop} {p : Admin α} {cap : UInt64}
    {ok : Hardware → Effect → Prop} {m : Hardware}
    (h : p.Ensures (CapAnswer cap) Q) (hCap : m.cap = cap) :
    Safe hardware ok (fun _ _ => True) (fun a (m : Hardware) => m.cap = cap ∧ Q a) p m := by
  refine h.safe (P := fun m : Hardware => m.cap = cap) ?_ ?_ hCap
  · intro m b m' hm hStep
    rw [Hardware.device_cap hStep, hm]
  · rintro m e a r m' rfl hEff
    exact Hardware.effect_cap hEff

theorem ensures_regRead64_cap {cap : UInt64} (bar0 : UInt64) :
    (nvmeRegRead64 bar0 nvmeRegCap).Ensures (CapAnswer cap) fun r => ∀ v, r = some v → v = cap := by
  by_cases hBar0 : bar0 = 0
  · rw [hBar0]
    intro _ _
    nofun
  · rw [nvmeRegRead64_cap hBar0]
    intro lo hLo hi hHi v hv
    rw [← Option.some.inj hv, hLo.1 rfl, hHi.2 rfl, Hardware.join_halves]

/-! ## `controller_init` -/

/-- The doorbells of the admin queues are where CAP says. -/
def AdminDoorbells (cap : UInt64) (c : ControllerData) : Prop :=
  c.adminSqTailDb = adminSqTailDoorbell cap ∧ c.adminCqHeadDb = adminCqHeadDoorbell cap

/-- Executions on a controller with the given CAP, of which nothing else is known. -/
private abbrev Walks {α : Type} (Q : α → Hardware → Prop) (p : Admin α) (m : Hardware) :
    Prop :=
  Safe hardware (fun _ _ => True) (fun _ _ => True) Q p m

/-- What is known when `controller_init` returns. -/
private def InitDone (cap : UInt64) (r : Bool × ControllerData) (m : Hardware) : Prop :=
  m.cap = cap ∧ (r.1 = true → AdminDoorbells cap r.2 ∧ m.cc = enableConfiguration cap)

section Init

variable {cap : UInt64} {m : Hardware}

private theorem walks_any {α : Type} (p : Admin α) (hCap : m.cap = cap) :
    Walks (fun _ m => m.cap = cap) p m :=
  (safe_of_ensures (ensures_any p) hCap).mono fun _ _ h => h.1

private theorem walks_fail {p : Admin (Bool × ControllerData)}
    (h : p.Ensures (CapAnswer cap) fun r => r.1 = false) (hCap : m.cap = cap) :
    Walks (InitDone cap) p m := by
  refine (safe_of_ensures h hCap).mono fun r m hr => ⟨hr.1, fun hTrue => ?_⟩
  rw [hr.2] at hTrue
  cases hTrue

private theorem walks_failUnmapped (c : ControllerData) (hCap : m.cap = cap) :
    Walks (InitDone cap) (failUnmapped c) m := by
  refine walks_fail ?_ hCap
  exact (ensures_any _).bind fun _ _ => rfl

private theorem walks_failReleased (c : ControllerData) (hCap : m.cap = cap) :
    Walks (InitDone cap) (failReleased c) m := by
  refine walks_fail ?_ hCap
  exact (ensures_any _).bind fun _ _ => (ensures_any _).bind fun _ _ => rfl

/-- The controller has the given CAP and the host has written `v` to CC. -/
private def Configured (cap : UInt64) (v : UInt32) (m : Hardware) : Prop :=
  m.cap = cap ∧ m.cc = v

private theorem configured_stable (cap : UInt64) (v : UInt32) :
    hardware.Stable (Configured cap v) := by
  intro m b m' hm hStep
  obtain ⟨i, s, _, _, rfl⟩ | ⟨i, s, _, _, _, rfl⟩ | ⟨i, s, _, _, _, _, _, _, rfl⟩ :=
    Hardware.device_cases hStep
  · exact hm
  · rw [Hardware.apply_eq]
    exact hm
  · exact hm

private theorem Configured.observe {v : UInt32} (h : Configured cap v m) (offset w : UInt32) :
    Configured cap v (m.observe offset w) := by
  refine ⟨(m.observe_cap offset w).trans h.1, ?_⟩
  simp only [Hardware.observe, Hardware.halt]
  repeat' split
  all_goals exact h.2

private theorem walks_waitReady {v : UInt32} (h : Configured cap v m) (bar0 : UInt64)
    (ready : Bool) (timeoutMs : UInt32) :
    Walks (fun _ => Configured cap v) (waitReady bar0 ready timeoutMs) m := by
  refine ((only_waitReady bar0 ready timeoutMs).safe (configured_stable cap v)
    (fun _ _ => trivial) (fun _ _ _ _ => trivial) ?_ h).mono fun _ _ hm => hm.1
  intro e m a r m' he hm hEff
  obtain ⟨-, rfl⟩ := Hardware.effect_cases hEff
  cases e with
  | regRead offset => exact hm.observe offset r
  | printErrno message => exact hm
  | _ => exact he.elim

private theorem configured_write (hCap : m.cap = cap) (v : UInt32) :
    Configured cap v (m.writeReg nvmeRegCc v) := by
  refine ⟨(m.writeReg_cap _ v).trans hCap, ?_⟩
  simp only [Hardware.writeReg, Hardware.writeCc, if_true]
  repeat' split
  all_goals rfl

/-- The store that enables the controller. -/
private theorem walks_enable (hCap : m.cap = cap) (bar0 : UInt64) (v : UInt32) :
    Walks (fun ok m => m.cap = cap ∧ (ok = true → Configured cap v m))
      (controllerRegWrite32 bar0 nvmeRegCc v) m := by
  by_cases hBar0 : bar0 = 0
  · refine (safe_of_ensures (Q := fun ok => ok = false) ?_ hCap).mono fun ok m h =>
      ⟨h.1, fun hTrue => nomatch h.2.symm.trans hTrue⟩
    rw [controllerRegWrite32, if_pos (.inl hBar0)]
    exact (ensures_any _).bind fun _ _ => rfl
  · rw [controllerRegWrite32_eq hBar0 (by decide)]
    have hStable : hardware.Stable fun m : Hardware => m.cap = cap := fun m b m' hm hStep =>
      (Hardware.device_cap hStep).trans hm
    refine safe_effect hStable hCap (fun _ _ => trivial) fun m _ hm _ _ => ?_
    exact Safe.pure (configured_stable cap v) (configured_write hm v) (fun _ _ => trivial)
      fun _ hm => ⟨hm.1, fun _ => hm⟩

private theorem walks_enableController (c : ControllerData) (hCap : m.cap = cap) :
    Walks (InitDone cap) (enableController c cap) m := by
  unfold enableController
  refine (walks_any _ hCap).bind fun aqaOk m hm => ?_
  cases aqaOk with
  | false => exact walks_failReleased c hm
  | true =>
      refine (walks_any _ hm).bind fun asqOk m hm => ?_
      cases asqOk with
      | false => exact walks_failReleased c hm
      | true =>
          refine (walks_any _ hm).bind fun acqOk m hm => ?_
          cases acqOk with
          | false => exact walks_failReleased c hm
          | true =>
              refine (walks_enable hm _ _).bind fun ccOk m hm => ?_
              cases ccOk with
              | false => exact walks_failReleased c hm.1
              | true =>
                  refine (walks_waitReady (hm.2 rfl) _ _ _).bind fun ready m hm => ?_
                  cases ready with
                  | false => exact walks_failReleased c hm.1
                  | true =>
                      exact Safe.pure (configured_stable cap _) hm (fun _ _ => trivial)
                        fun m hm => ⟨hm.1, fun _ => ⟨⟨rfl, rfl⟩, hm.2⟩⟩

private theorem walks_restartController (c : ControllerData) (hCap : m.cap = cap) :
    Walks (InitDone cap) (restartController c cap) m := by
  unfold restartController
  refine (walks_any _ hCap).bind fun read m hm => ?_
  cases read with
  | none => exact walks_failReleased c hm
  | some cc =>
      dsimp only
      split
      · exact (walks_any _ hm).bind fun _ m hm => walks_failReleased c hm
      split
      · refine (walks_any _ hm).bind fun ccOk m hm => ?_
        cases ccOk with
        | false => exact walks_failReleased c hm
        | true =>
            refine (walks_any _ hm).bind fun stopped m hm => ?_
            cases stopped with
            | false => exact walks_failReleased c hm
            | true => exact walks_enableController c hm
      · exact walks_enableController c hm

private theorem walks_setupController (c : ControllerData) (hCap : m.cap = cap) :
    Walks (InitDone cap) (setupController c cap) m := by
  unfold setupController
  refine (walks_any _ hCap).bind fun ⟨sqOk, c, sqMem⟩ m hm => ?_
  cases sqOk with
  | false => exact walks_failReleased _ hm
  | true =>
      refine (walks_any _ hm).bind fun ⟨cqOk, c, cqMem⟩ m hm => ?_
      cases cqOk with
      | false => exact walks_failReleased _ hm
      | true =>
          refine (walks_any _ hm).bind fun _ m hm => (walks_any _ hm).bind fun _ m hm => ?_
          exact walks_restartController _ hm

private theorem walks_initMapped (c : ControllerData) (hCap : m.cap = cap) :
    Walks (InitDone cap) (initMapped c) m := by
  unfold initMapped
  refine (safe_of_ensures (ensures_regRead64_cap c.bar0Virt) hCap).bind fun read m hm => ?_
  obtain ⟨hm, hRead⟩ := hm
  cases read with
  | none => exact walks_failUnmapped c hm
  | some v =>
      obtain rfl := hRead v rfl
      dsimp only
      split
      · exact (walks_any _ hm).bind fun _ m hm => walks_failUnmapped c hm
      split
      · exact (walks_any _ hm).bind fun _ m hm => walks_failUnmapped c hm
      split
      · exact (walks_any _ hm).bind fun _ m hm => walks_failUnmapped c hm
      · exact walks_setupController c hm

private theorem walks_controllerInit (c : ControllerData) (hCap : m.cap = cap) :
    Walks (InitDone cap) (controllerInit c) m := by
  unfold controllerInit
  split
  · refine (walks_any _ hCap).bind fun bar0 m hm => ?_
    split
    · exact walks_fail rfl hm
    · exact walks_initMapped _ hm
  · exact walks_initMapped c hCap

/-- Whatever state it starts in and whatever the hardware does: when `controller_init`
returns true, the admin doorbells and CC are what CAP says. -/
theorem configured_of_controllerInit {c c' : ControllerData} {m m' : Hardware}
    (h : Returns hardware (fun _ _ => True) (controllerInit c) m (true, c') m') :
    m'.cap = m.cap ∧ AdminDoorbells m.cap c' ∧ m'.cc = enableConfiguration m.cap := by
  have hWalks : Walks (InitDone m.cap) (controllerInit c) m := walks_controllerInit c rfl
  obtain ⟨hCap, hDone⟩ := hWalks.of_returns h
  exact ⟨hCap, hDone rfl⟩

end Init

/-- The answers `controller_init` gets from a controller that is ready at once. -/
def initAnswers (cap : UInt64) (sqMem cqMem : Mem) : List Answer :=
  [.address 0x1000, .word cap.toUInt32, .word (cap >>> 32).toUInt32, .descriptor 3,
    .memory sqMem, .memory cqMem, .done, .done, .word 0, .done, .done, .done, .done, .done,
    .done, .word 1]

end NewPerf.Tools
