import NewPerf.Engine.DeviceSteps
import Mathlib.Algebra.Ring.Nat

/-!
# The functions of `nvme.h` without the engine

The programs `tools/nvme_test.c` and `tools/test/test1.c` drive a queue pair by calling
`nvme_read`, `nvme_write`, `nvme_trim` and `poll_cq` themselves.  The device and the
memory are those of `Sys`; its fields about the engine's loop and its requests stay as
they were.  `poll_cq` is cut at every iteration of its loop, as before.

None of the submission functions touches `cmd_io_u`, which is left to the caller, and
`poll_cq` gives up on a completion it finds no request for.
-/

namespace NewPerf.Engine

open NewPerf.Lib.LeMemory
open NewPerf.Lib.Ring
open NewPerf.Lib.Runs
open NewPerf.Tools

/-- A call of a submission function. -/
inductive Command where
  | read (offset size dmaAddr : UInt64)
  | write (offset size dmaAddr : UInt64)
  | trim (offset size : UInt64)
  deriving DecidableEq, Repr

def Command.submit (c : ControllerData) (n : NvmeData) : Command → Submission
  | .read offset size dmaAddr => nvmeRead c n offset size dmaAddr
  | .write offset size dmaAddr => nvmeWrite c n offset size dmaAddr
  | .trim offset size => nvmeTrim c n offset size

/-- A queue pair and the program that drives it: the call of `poll_cq` under way, whether
it has called `exit`, the number of commands submitted, what `poll_cq` has returned, and
the indices at which it has stored into `events`. -/
structure Direct where
  sys : Sys
  polling : Option PollLocals := none
  exited : Bool := false
  issued : Nat := 0
  returned : List Nat := []
  stored : List Nat := []

inductive DirectAct where
  /-- A submission function is called. -/
  | submit (c : ControllerData) (cmd : Command)
  /-- `poll_cq` is called. -/
  | poll (max : Int)
  /-- The next iteration of its loop. -/
  | host
  | fetch
  | post (i : Nat) (status : UInt16)

/-- Effect of a submission on memory and doorbell. -/
def Direct.submitTo (s : Direct) (sub : Submission) : Direct :=
  { s with
    sys := { s.sys with
      nvme := sub.nvme
      sq := applyAll sub.sqStores s.sys.sq
      prp := applyAll sub.prpStores s.sys.prp
      sqTailDb := sub.doorbell }
    issued := s.issued + 1 }

/-- The next iteration of the loop of `poll_cq`. -/
def Direct.pollStep (s : Direct) (l : PollLocals) : Direct :=
  match pollIter s.sys.nvme (s.sys.cq l.head.toNat) l with
  | .exit => { s with polling := none, exited := true }
  | .next n' l' =>
      { s with
        sys := { s.sys with nvme := n', reaped := s.sys.reaped + 1 }
        polling := some l'
        stored := s.stored ++ [s.sys.nvme.nrEvents + l.count.toNat] }
  | .stop =>
      { s with
        sys := { s.sys with
          nvme := (pollEnd s.sys.nvme l).1
          cqHeadDb := (pollEnd s.sys.nvme l).2.getD s.sys.cqHeadDb }
        polling := none
        returned := s.returned ++ [l.count.toNat] }

def directStep (s : Direct) : DirectAct → Option Direct
  | .submit c cmd =>
      if s.exited ∨ s.polling.isSome then none
      else some (s.submitTo (cmd.submit c s.sys.nvme))
  | .poll max =>
      if s.exited ∨ s.polling.isSome then none
      else
        match pollBegin s.sys.nvme max with
        | none => some { s with returned := s.returned ++ [0] }
        | some l => some { s with polling := some l }
  | .host => s.polling.map s.pollStep
  | .fetch => (fetchStep s.sys).map fun sys => { s with sys := sys }
  | .post i status => (postStep s.sys i status).map fun sys => { s with sys := sys }

def directStart (n : NvmeData) : Direct := { sys := start n }

/-- At most `io_sq_depth - 1` commands are outstanding, and every command completes with
success. -/
def Conforming (s : Direct) : DirectAct → Prop
  | .submit _ _ => s.issued + 1 < s.sys.reaped + s.sys.nvme.ioSqDepth.toNat
  | .post _ status => status.toNat % 2 ^ 11 = 0
  | _ => True

instance (s : Direct) (a : DirectAct) : Decidable (Conforming s a) :=
  match a with
  | .submit _ _ =>
      inferInstanceAs (Decidable (s.issued + 1 < s.sys.reaped + s.sys.nvme.ioSqDepth.toNat))
  | .post _ status => inferInstanceAs (Decidable (status.toNat % 2 ^ 11 = 0))
  | .poll _ | .host | .fetch => inferInstanceAs (Decidable True)

/-- What a program may expect of `poll_cq`. -/
structure Standalone (s : Direct) : Prop where
  /-- `poll_cq` has not called `exit`. -/
  running : s.exited = false
  /-- Every completion taken from the queue is counted in one return value. -/
  counted : s.polling = none → s.returned.sum = s.sys.reaped
  /-- A call that stops early has counted every command completed. -/
  noneMissed : ∀ l, s.polling = some l → l.count ≠ l.maxCount →
    pollIter s.sys.nvme (s.sys.cq l.head.toNat) l = .stop →
    s.sys.reaped = s.sys.done.length
  /-- No store goes past the end of `events`. -/
  inBounds : ∀ i ∈ s.stored, i < 65536

/-- `poll_cq` looks at the completion queue before any command has been completed. -/
def NothingCompleted (s : Direct) : DirectAct → Prop
  | .host => s.sys.done = []
  | _ => True

/-- While that is so, nothing has happened to the completion side of the pair. -/
structure Untouched (s : Direct) : Prop where
  running : s.exited = false
  table : ∀ cid, s.sys.nvme.cmdIoU cid = none
  cq : CqInv s.sys 0
  reaped : s.sys.reaped = 0
  at_ : PollAt s.sys 0 s.sys.nvme.icCqHead s.sys.nvme.ioCqPahse
  polling : ∀ l, s.polling = some l →
    l.count = 0 ∧ l.maxCount ≠ 0 ∧ PollAt s.sys 0 l.head l.phaseTag
  returned : s.returned.sum = 0
  stored : s.stored = []

section Steps

variable {s s' : Direct} {n : NvmeData}

theorem untouched_start (hFresh : FreshPair n) : Untouched (directStart n) where
  running := rfl
  table := hFresh.cmdIoU
  cq := (inv_start hFresh).cq
  reaped := rfl
  at_ := by
    cases (inv_start hFresh).host with
    | idle _ _ hAt => exact hAt
  polling := fun l hl => by cases hl
  returned := rfl
  stored := rfl

/-- The call under way would consume something exactly when a command has been
completed. -/
theorem Untouched.phase_iff (h : Untouched s) {l : PollLocals} (hl : s.polling = some l) :
    cqePhase (s.sys.cq l.head.toNat) = l.phaseTag.toNat ↔ s.sys.done ≠ [] := by
  have hAt : PollAt s.sys s.sys.reaped l.head l.phaseTag := by
    rw [h.reaped]
    exact (h.polling l hl).2.2
  rw [h.cq.phase_iff hAt, h.reaped, List.length_pos_iff]

theorem Untouched.notMax (h : Untouched s) {l : PollLocals} (hl : s.polling = some l) :
    l.count ≠ l.maxCount := by
  obtain ⟨hCount, hMax, -⟩ := h.polling l hl
  rw [hCount]
  exact hMax.symm

/-- The first completion `poll_cq` finds makes it give up. -/
theorem Untouched.exits (h : Untouched s) {l : PollLocals} (hl : s.polling = some l)
    (hDone : s.sys.done ≠ []) :
    pollIter s.sys.nvme (s.sys.cq l.head.toNat) l = .exit := by
  have hPhase := (h.phase_iff hl).mpr hDone
  cases hIter : pollIter s.sys.nvme (s.sys.cq l.head.toNat) l with
  | exit => rfl
  | stop =>
      rcases pollIter_stop hIter with hMax | hOther
      · exact absurd hMax (h.notMax hl)
      · exact absurd hPhase hOther
  | next n' l' =>
      obtain ⟨-, -, ioU, hIoU, -, -⟩ := pollIter_next hIter
      rw [h.table] at hIoU
      cases hIoU

/-- Without one it stops. -/
theorem Untouched.stops (h : Untouched s) {l : PollLocals} (hl : s.polling = some l)
    (hDone : s.sys.done = []) :
    pollIter s.sys.nvme (s.sys.cq l.head.toNat) l = .stop := by
  have hPhase : cqePhase (s.sys.cq l.head.toNat) ≠ l.phaseTag.toNat :=
    fun hEq => (h.phase_iff hl).mp hEq hDone
  cases hIter : pollIter s.sys.nvme (s.sys.cq l.head.toNat) l with
  | stop => rfl
  | exit => exact absurd (pollIter_exit hIter).1 hPhase
  | next n' l' => exact absurd (pollIter_next hIter).2.1 hPhase

theorem Untouched.standalone (h : Untouched s) : Standalone s where
  running := h.running
  counted := fun _ => by rw [h.returned, h.reaped]
  noneMissed := by
    intro l hl _ hStop
    by_contra hMissed
    have hDone : s.sys.done ≠ [] := by
      intro hEmpty
      exact hMissed (by rw [h.reaped, hEmpty]; rfl)
    rw [h.exits hl hDone] at hStop
    cases hStop
  inBounds := by
    rw [h.stored]
    simp

/-- A submission leaves the completion side alone. -/
theorem submit_nvme (c : ControllerData) (n : NvmeData) (cmd : Command) :
    ∃ cmdId tail, (cmd.submit c n).nvme = { n with ioCmdId := cmdId, ioSqTail := tail } := by
  cases cmd with
  | read offset size dmaAddr => exact ⟨_, _, rfl⟩
  | write offset size dmaAddr => exact ⟨_, _, rfl⟩
  | trim offset size => exact ⟨_, _, rfl⟩

theorem Untouched.submit (h : Untouched s) (c : ControllerData) (cmd : Command) :
    Untouched (s.submitTo (cmd.submit c s.sys.nvme)) := by
  obtain ⟨cmdId, tail, hNvme⟩ := submit_nvme c s.sys.nvme cmd
  unfold Direct.submitTo
  rw [hNvme]
  exact
    { h with
      cq := { h.cq with }
      at_ := { h.at_ with }
      polling := fun l hl => ⟨(h.polling l hl).1, (h.polling l hl).2.1,
        { (h.polling l hl).2.2 with }⟩ }

/-- The device changes nothing the host reads but the completion queue. -/
theorem Untouched.device (h : Untouched s) {sys : Sys} (hNvme : sys.nvme = s.sys.nvme)
    (hReaped : sys.reaped = s.sys.reaped) (hCq : CqInv sys 0) :
    Untouched { s with sys := sys } := by
  have hAt : ∀ {head phase}, PollAt s.sys 0 head phase → PollAt sys 0 head phase :=
    fun hAt => ⟨by rw [hNvme]; exact hAt.head, by rw [hNvme]; exact hAt.phase⟩
  exact
    { h with
      table := fun cid => by rw [hNvme]; exact h.table cid
      cq := hCq
      reaped := hReaped.trans h.reaped
      at_ := by rw [hNvme]; exact hAt h.at_
      polling := fun l hl => ⟨(h.polling l hl).1, (h.polling l hl).2.1,
        hAt (h.polling l hl).2.2⟩ }

theorem pollBegin_locals {n : NvmeData} {max : Int} {l : PollLocals}
    (h : pollBegin n max = some l) :
    l.count = 0 ∧ l.maxCount ≠ 0 ∧ l.head = n.icCqHead ∧ l.phaseTag = n.ioCqPahse := by
  unfold pollBegin at h
  split at h
  · cases h
  · rename_i hPos
    cases h
    refine ⟨rfl, fun hZero => ?_, rfl, rfl⟩
    have hNat := congrArg UInt16.toNat hZero
    dsimp only at hNat
    split at hNat
    · cases hNat
    · rw [UInt16.toNat_ofNat', UInt16.toNat_zero] at hNat
      omega

theorem Untouched.step {a : DirectAct} (h : Untouched s) (hOk : NothingCompleted s a)
    (hStep : directStep s a = some s') : Untouched s' := by
  cases a with
  | submit c cmd =>
      simp only [directStep] at hStep
      split at hStep
      · cases hStep
      · cases hStep
        exact h.submit c cmd
  | poll max =>
      simp only [directStep] at hStep
      split at hStep
      · cases hStep
      split at hStep
      · cases hStep
        exact { h with returned := by simpa using h.returned }
      · rename_i l hBegin
        cases hStep
        obtain ⟨hCount, hMax, hHead, hPhase⟩ := pollBegin_locals hBegin
        refine { h with polling := fun l' hl' => ?_ }
        cases hl'
        refine ⟨hCount, hMax, ?_⟩
        rw [hHead, hPhase]
        exact h.at_
  | host =>
      obtain ⟨l, hl, rfl⟩ := Option.map_eq_some_iff.mp hStep
      have hEnd : pollEnd s.sys.nvme l = (s.sys.nvme, none) := by
        rw [pollEnd, if_neg (by simp [(h.polling l hl).1])]
      unfold Direct.pollStep
      rw [h.stops hl hOk]
      simp only [hEnd, Option.getD_none]
      exact
        { h with
          polling := fun l' hl' => by cases hl'
          returned := by simp [h.returned, (h.polling l hl).1] }
  | fetch =>
      obtain ⟨sys, hFetch, rfl⟩ := Option.map_eq_some_iff.mp hStep
      simp only [fetchStep] at hFetch
      split at hFetch
      · cases hFetch
      · cases hFetch
        exact h.device rfl rfl { h.cq with }
  | post i status =>
      obtain ⟨sys, hPost, rfl⟩ := Option.map_eq_some_iff.mp hStep
      have hCq := h.cq.postStep hPost
      obtain ⟨-, f, -, rfl⟩ := postStep_cases hPost
      exact h.device rfl rfl hCq

/-- A program that has called `exit` stays that way. -/
theorem exited_step {a : DirectAct} (h : s.exited = true)
    (hStep : directStep s a = some s') : s'.exited = true := by
  cases a with
  | submit c cmd => simp [directStep, h] at hStep
  | poll max => simp [directStep, h] at hStep
  | host =>
      obtain ⟨l, hl, rfl⟩ := Option.map_eq_some_iff.mp hStep
      unfold Direct.pollStep
      split <;> first | exact h | rfl
  | fetch =>
      obtain ⟨sys, _, rfl⟩ := Option.map_eq_some_iff.mp hStep
      exact h
  | post i status =>
      obtain ⟨sys, _, rfl⟩ := Option.map_eq_some_iff.mp hStep
      exact h

end Steps

/-- Runs of a program that conforms and polls only before the first completion. -/
abbrev QuietRun (n : NvmeData) : List DirectAct → Direct → Prop :=
  Run directStep (fun s a => Conforming s a ∧ NothingCompleted s a) (directStart n)

section Runs

variable {n : NvmeData} {as : List DirectAct} {s : Direct}

theorem untouched_of_run (hFresh : FreshPair n) (hRun : QuietRun n as s) : Untouched s :=
  hRun.invariant (untouched_start hFresh) fun _ _ _ h hOk hStep => h.step hOk.2 hStep

/-- A conforming run has ended in `exit`, or `poll_cq` has never met a completion. -/
theorem exited_or_quiet (hFresh : FreshPair n)
    (hRun : Run directStep Conforming (directStart n) as s) :
    s.exited = true ∨ QuietRun n as s := by
  induction hRun with
  | nil => exact .inr .nil
  | @snoc as s s' a _ hOk hStep ih =>
      rcases ih with hExited | hQuiet
      · exact .inl (exited_step hExited hStep)
      by_cases hNothing : NothingCompleted s a
      · exact .inr (hQuiet.snoc ⟨hOk, hNothing⟩ hStep)
      · left
        cases a with
        | host =>
            obtain ⟨l, hl, rfl⟩ := Option.map_eq_some_iff.mp hStep
            unfold Direct.pollStep
            rw [(untouched_of_run hFresh hQuiet).exits hl hNothing]
        | _ => exact absurd trivial hNothing

/-- In every conforming run on a fresh pair, the program gets what it may expect exactly
when `poll_cq` has never looked for a completion after a command had been completed. -/
theorem standalone_iff (hFresh : FreshPair n)
    (hRun : Run directStep Conforming (directStart n) as s) :
    Standalone s ↔
      Run directStep (fun s a => Conforming s a ∧ NothingCompleted s a) (directStart n) as s := by
  constructor
  · intro hAlone
    rcases exited_or_quiet hFresh hRun with hExited | hQuiet
    · rw [hAlone.running] at hExited
      cases hExited
    · exact hQuiet
  · exact fun hQuiet => (untouched_of_run hFresh hQuiet).standalone

/-- A read that is polled for while the device is still at it. -/
def earlyPoll : List DirectAct :=
  [.submit smallController (.read 0 1 0x10000), .poll 1, .host, .fetch]

theorem standalone_iff_earlyPoll :
    ∃ s, exec directStep (fun s a => decide (Conforming s a)) (directStart smallPair)
        earlyPoll = some s ∧ s.returned = [0] ∧ Standalone s := by
  obtain ⟨s, hExec, hReturned⟩ : ∃ s, exec directStep
      (fun s a => decide (Conforming s a)) (directStart smallPair) earlyPoll = some s ∧
      s.returned = [0] := ⟨_, rfl, rfl⟩
  have hConforming : Run directStep Conforming (directStart smallPair) earlyPoll s :=
    Run.of_exec (fun _ _ => of_decide_eq_true) hExec
  refine ⟨s, hExec, hReturned, (standalone_iff freshPair_smallPair hConforming).mpr ?_⟩
  cases hExec
  refine .snoc (.snoc (.snoc (.single ⟨?_, trivial⟩ rfl) ⟨trivial, trivial⟩ rfl)
    ⟨trivial, rfl⟩ rfl) ⟨trivial, trivial⟩ rfl
  decide

/-- The same read, polled for after the device has completed it. -/
def latePoll : List DirectAct :=
  [.submit smallController (.read 0 1 0x10000), .fetch, .post 0 0, .poll 1, .host]

theorem standalone_latePoll_false :
    ∃ s, Run directStep Conforming (directStart smallPair) latePoll s ∧ ¬ Standalone s := by
  obtain ⟨s, hExec, hExited⟩ : ∃ s, exec directStep
      (fun s a => decide (Conforming s a)) (directStart smallPair) latePoll = some s ∧
      s.exited = true := ⟨_, rfl, rfl⟩
  refine ⟨s, Run.of_exec (fun _ _ => of_decide_eq_true) hExec, fun hAlone => ?_⟩
  rw [hAlone.running] at hExited
  cases hExited

end Runs

end NewPerf.Engine
