import NewPerf.Tools.AdminRules
import NewPerf.Tools.AdminTraces

/-!
# `create_io_queue_pair` when it fails

`create_io_queue_pair` gives back what it has allocated when a later allocation fails,
but not when the controller refuses a command: the three regions stay allocated, and if
it was the second command, the completion queue stays on the device.  The caller frees
the structure that knows about them.

As in `FileSize`, every result the hardware may give is possible.  A command is the
entry written to the admin submission queue, and its answer the last completion queue
entry read before the next command; the controller has the queue of a Create command
exactly if the answer says so.
-/

namespace NewPerf.Tools

open NewPerf.Lib.Programs

/-! ## What becomes of a command -/

/-- The command has been answered with success. -/
def Granted (a : CommandRecord) : Bool := a.2.any Succeeded

/-- No wait has run out of time or met the completion of another command. -/
def AllAnswered (t : Trace Effect.Result) : Prop :=
  ∀ x ∈ t, x.1 ≠ .printErrno adminTimeoutMessage ∧ x.1 ≠ .printErrno unexpectedIdMessage

instance (t : Trace Effect.Result) : Decidable (AllAnswered t) :=
  inferInstanceAs (Decidable (∀ x ∈ t, _))

/-- The doorbells of the admin queues are where `controller_reg_write32` can write, as
`controller_init` sets them. -/
def DoorbellsAligned (c : ControllerData) : Prop :=
  c.adminSqTailDb &&& 0x3 = 0 ∧ c.adminCqHeadDb &&& 0x3 = 0

instance (c : ControllerData) : Decidable (DoorbellsAligned c) :=
  inferInstanceAs (Decidable (_ ∧ _))

theorem AllAnswered.of_append {t t' : Trace Effect.Result} (h : AllAnswered (t ++ t')) :
    AllAnswered t ∧ AllAnswered t' :=
  ⟨fun x hx => h x (List.mem_append_left _ hx), fun x hx => h x (List.mem_append_right _ hx)⟩

theorem AllAnswered.tail {x : Sigma Effect.Result} {t : Trace Effect.Result}
    (h : AllAnswered (x :: t)) : AllAnswered t :=
  fun y hy => h y (List.mem_cons_of_mem x hy)

theorem SameSetup.bar0_ne_zero {c c' : ControllerData} (h : SameSetup c c')
    (hBar0 : c.bar0Virt ≠ 0) : c'.bar0Virt ≠ 0 := by
  rw [h.sameWiring.bar0]
  exact hBar0

theorem SameSetup.adminCqHeadDb {c c' : ControllerData} (h : SameSetup c c') :
    c'.adminCqHeadDb = c.adminCqHeadDb :=
  show c'.setup.adminCqHeadDb = c.setup.adminCqHeadDb by rw [h]

theorem SameSetup.doorbellsAligned {c c' : ControllerData} (h : SameSetup c c') :
    DoorbellsAligned c' ↔ DoorbellsAligned c := by
  show c'.setup.adminSqTailDb &&& 0x3 = 0 ∧ c'.setup.adminCqHeadDb &&& 0x3 = 0 ↔ _
  rw [h]
  rfl

/-- Ringing a doorbell. -/
theorem only_doorbell {bar0 : UInt64} (hBar0 : bar0 ≠ 0) (offset value : UInt32) :
    (controllerRegWrite32 bar0 offset value).Only Effect.IsRegister
      fun rung => (rung = true ↔ offset &&& 0x3 = 0) := by
  unfold controllerRegWrite32
  split
  · rename_i hBad
    exact ⟨trivial, fun _ => iff_of_false Bool.false_ne_true (hBad.resolve_left hBar0)⟩
  · rename_i hGood
    refine ⟨trivial, fun _ => iff_of_true rfl ?_⟩
    exact Decidable.of_not_not fun hOdd => hGood (.inr hOdd)

theorem tells_submitCommand {c : ControllerData} (hBar0 : c.bar0Virt ≠ 0) (cmd : AdminCommand) :
    (submitCommand c cmd).Tells fun t r =>
      (∃ virt slot t', t = ⟨.writeSqe virt slot cmd, ()⟩ :: t' ∧ Plain t') ∧
        (r.1 = true ↔ c.adminSqTailDb &&& 0x3 = 0) ∧ SameSetup c r.2 := by
  intro _
  refine (tells_register (only_doorbell hBar0 _ _)).bind fun t rung ⟨hPlain, hRung⟩ => ?_
  cases rung with
  | false =>
      refine ⟨⟨_, _, _, rfl, ?_⟩, hRung, rfl⟩
      rw [List.append_nil]
      exact hPlain
  | true =>
      refine ⟨⟨_, _, _, rfl, ?_⟩, hRung, rfl⟩
      rw [List.append_nil]
      exact hPlain

theorem tells_takeCompletion {c : ControllerData} (hBar0 : c.bar0Virt ≠ 0) (cqe : NvmeCqEntry) :
    (takeCompletion c cqe).Tells fun t r =>
      Plain t ∧ (r.1 = true ↔ c.adminCqHeadDb &&& 0x3 = 0 ∧ Succeeded cqe = true) := by
  refine tells_register ?_
  refine (only_doorbell hBar0 _ _).bind fun written hWritten => ?_
  cases written with
  | false => exact iff_of_false Bool.false_ne_true fun h => Bool.false_ne_true (hWritten.mpr h.1)
  | true =>
      have hAligned : c.adminCqHeadDb &&& 0x3 = 0 := hWritten.mp rfl
      dsimp only
      split
      · rename_i hError
        refine ⟨trivial, fun _ => iff_of_false Bool.false_ne_true fun h => ?_⟩
        have hBoth := of_decide_eq_true h.2
        exact hError.elim (fun hSct => hSct hBoth.1) fun hSc => hSc hBoth.2
      · rename_i hError
        refine iff_of_true rfl ⟨hAligned, decide_eq_true ⟨?_, ?_⟩⟩
        · exact Decidable.of_not_not fun hSct => hError (.inl hSct)
        · exact Decidable.of_not_not fun hSc => hError (.inr hSc)

/-- A wait: `answer` is the last entry read, and decides the result if the wait is answered
at all. -/
structure Settles (c : ControllerData) (t : Trace Effect.Result)
    (answer : Option NvmeCqEntry) (ok : Bool) : Prop where
  summary : Summary t [] [] (answer, [])
  ok_iff : AllAnswered t → ∃ cqe, answer = some cqe ∧
    (ok = true ↔ c.adminCqHeadDb &&& 0x3 = 0 ∧ Succeeded cqe = true)

theorem tells_waitAdminCompletionLoop {c : ControllerData} (hBar0 : c.bar0Virt ≠ 0)
    (cmdId : UInt16) (left : Nat) :
    (waitAdminCompletionLoop c cmdId left).Tells fun t r => ∃ answer, Settles c t answer r.1 := by
  induction left with
  | zero =>
      refine fun _ => ⟨none, ⟨rfl, rfl, rfl, rfl⟩, fun hAll => ?_⟩
      exact absurd rfl (hAll _ List.mem_cons_self).1
  | succ left ih =>
      intro cqe
      show Prog.Tells _ (if _ then (if _ then _ else _) else _)
      split
      · split
        · refine fun _ => ⟨some cqe, ⟨rfl, rfl, rfl, rfl⟩, fun hAll => ?_⟩
          exact absurd rfl (hAll _ (List.mem_cons_of_mem _ List.mem_cons_self)).2
        · refine (tells_takeCompletion hBar0 cqe).mono fun t r ⟨hPlain, hOk⟩ => ?_
          exact ⟨some cqe, hPlain.readCqe _ _ cqe, fun _ => ⟨cqe, rfl, hOk⟩⟩
      · -- The entry is not there yet; what counts is read later.
        refine ih.mono fun t r ⟨answer, hSettles⟩ => ?_
        refine ⟨answer.or (some cqe), hSettles.summary.readCqe _ _ cqe, fun hAll => ?_⟩
        obtain ⟨cqe', rfl, hOk⟩ := hSettles.ok_iff hAll.tail
        exact ⟨cqe', rfl, hOk⟩

/-- Commands have been sent and, if they are all answered, the result tells whether they
have been granted. -/
structure Sends (c : ControllerData) (t : Trace Effect.Result) (commands : List CommandRecord)
    (ok : Bool) : Prop where
  summary : Summary t [] [] (none, commands)
  ok_iff : AllAnswered t → (ok = true ↔ DoorbellsAligned c ∧ ∀ a ∈ commands, Granted a = true)

theorem tells_adminCommand {c : ControllerData} (hBar0 : c.bar0Virt ≠ 0) (opcode : UInt8)
    (prp1 : UInt64) (cdw10 cdw11 : UInt32) :
    (adminCommand c opcode prp1 cdw10 cdw11).Tells fun t r =>
      (∃ a, Sends c t [a] r.1) ∧ SameSetup c r.2 := by
  unfold adminCommand submitAdminCommand
  refine (tells_submitCommand (c := { c with adminCmdId := c.adminCmdId + 1 }) hBar0 _).bind ?_
  rintro _ ⟨submitted, c'⟩ ⟨⟨virt, slot, t, rfl, hPlain⟩, hSubmitted, hSetup⟩
  have hSame : SameSetup c c' := hSetup
  cases submitted with
  | false =>
      show (∃ a, Sends c (_ :: t ++ []) [a] false) ∧ SameSetup c c'
      rw [List.append_nil]
      refine ⟨⟨_, hPlain.writeSqe virt slot _, fun _ => ?_⟩, hSame⟩
      exact iff_of_false Bool.false_ne_true fun h => Bool.false_ne_true (hSubmitted.mpr h.1.1)
  | true =>
      have hWait := (tells_waitAdminCompletionLoop (hSame.bar0_ne_zero hBar0) c.adminCmdId
        nvmeAdminCmdTimeoutMs.toNat).and (channel_waitAdminCompletion c' _ _).tells
      refine hWait.mono fun t' r hBoth => ?_
      obtain ⟨⟨answer, hSettles⟩, -, hSetup'⟩ := hBoth
      refine ⟨⟨_, (hSettles.summary.after hPlain).writeSqe virt slot _, fun hAll => ?_⟩,
        hSame.trans hSetup'⟩
      obtain ⟨cqe, rfl, hOk⟩ := hSettles.ok_iff hAll.tail.of_append.2
      have hSq : c.adminSqTailDb &&& 0x3 = 0 := hSubmitted.mp rfl
      rw [hOk, hSame.adminCqHeadDb, List.forall_mem_singleton, DoorbellsAligned]
      exact and_congr_left fun _ => (and_iff_right hSq).symm

/-! ## Creating a pair -/

theorem tells_createQueues {c : ControllerData} (hBar0 : c.bar0Virt ≠ 0) (n : NvmeData)
    (cap : UInt64) (ioSqDepth ioCqDepth : UInt32) :
    (createQueues c n cap ioSqDepth ioCqDepth).Tells fun t r => ∃ as, Sends c t as r.1 := by
  unfold createQueues
  refine (tells_adminCommand hBar0 _ _ _ _).bind fun t₁ ⟨cqOk, c'⟩ ⟨⟨a₁, hFirst⟩, hSetup⟩ => ?_
  cases cqOk with
  | false =>
      show ∃ as, Sends c (t₁ ++ []) as false
      rw [List.append_nil]
      exact ⟨_, hFirst⟩
  | true =>
      refine (tells_adminCommand (hSetup.bar0_ne_zero hBar0) _ _ _ _).bind
        fun t₂ ⟨sqOk, c''⟩ ⟨⟨a₂, hSecond⟩, _⟩ => ?_
      have hBoth : Sends c (t₁ ++ (t₂ ++ [])) ([a₁] ++ [a₂]) sqOk := by
        rw [List.append_nil]
        refine ⟨hFirst.summary.append hSecond.summary, fun hAll => ?_⟩
        obtain ⟨hAligned, hGranted⟩ := (hFirst.ok_iff hAll.of_append.1).mp rfl
        rw [hSecond.ok_iff hAll.of_append.2, hSetup.doorbellsAligned, List.forall_mem_append]
        exact and_congr_right fun _ => (and_iff_right hGranted).symm
      cases sqOk with
      | false => exact ⟨_, hBoth⟩
      | true => exact ⟨_, hBoth⟩

/-- How a call ends: it has taken back what it did, or all three regions are there and the
commands decide. -/
inductive PairOutcome (c : ControllerData) (n : NvmeData) (t : Trace Effect.Result) :
    Bool × ControllerData × NvmeData → Prop where
  | undone {as rs : List Mem} {c' : ControllerData} {n' : NvmeData}
      (hSummary : Summary t as rs (none, [])) (hFew : as.length < 3) (hBack : rs.Perm as)
      (hSame : n'.ioSqVirtAddr = n.ioSqVirtAddr ∧ n'.ioCqVirtAddr = n.ioCqVirtAddr ∧
        n'.ioPrpListVirtAddr = n.ioPrpListVirtAddr) :
      PairOutcome c n t (false, c', n')
  | asked {as : List Mem} {commands : List CommandRecord} {r : Bool × ControllerData × NvmeData}
      (hSummary : Summary t as [] (none, commands)) (hAll : as.length = 3)
      (hOk : AllAnswered t →
        (r.1 = true ↔ DoorbellsAligned c ∧ ∀ a ∈ commands, Granted a = true)) :
      PairOutcome c n t r

/-- Before anything has been allocated. -/
theorem PairOutcome.after {c : ControllerData} {n : NvmeData} {t t' : Trace Effect.Result}
    {r : Bool × ControllerData × NvmeData} (h : PairOutcome c n t' r) (hPlain : Plain t) :
    PairOutcome c n (t ++ t') r := by
  cases h with
  | undone hSummary hFew hBack hSame => exact .undone (hSummary.after hPlain) hFew hBack hSame
  | asked hSummary hAll hOk =>
      exact .asked (hSummary.after hPlain) hAll fun hAnswered => hOk hAnswered.of_append.2

/-- Three allocations and the commands. -/
theorem Sends.outcome {c c' : ControllerData} {n : NvmeData} {t t' : Trace Effect.Result}
    {as : List Mem} {commands : List CommandRecord} {r : Bool × ControllerData × NvmeData}
    (h : Sends c' t' commands r.1) (hAllocated : Summary t as [] (none, []))
    (hThree : as.length = 3) (hSetup : SameSetup c c') : PairOutcome c n (t ++ t') r := by
  have hSummary : Summary (t ++ t') (as ++ []) [] (none, commands) := hAllocated.append h.summary
  refine .asked hSummary ?_ fun hAnswered => ?_
  · rw [List.append_nil]
    exact hThree
  · rw [h.ok_iff hAnswered.of_append.2, hSetup.doorbellsAligned]

theorem tells_zeroDma (mem : Mem) : (perform (Effect.zeroDma mem)).Tells fun t _ => Plain t :=
  fun _ => ⟨rfl, rfl, rfl, rfl⟩

theorem tells_allocQueues {c : ControllerData} (hBar0 : c.bar0Virt ≠ 0) (n : NvmeData)
    (cap : UInt64) (ioSqDepth ioCqDepth : UInt32) :
    (allocQueues c n cap ioSqDepth ioCqDepth).Tells (PairOutcome c n) := by
  unfold allocQueues
  refine (tells_nvmeAllocDmaMem c _ _).bind fun t₁ ⟨cqOk, c₁, cqMem⟩ hCq => ?_
  cases cqOk with
  | false =>
      show PairOutcome c n (t₁ ++ []) _
      rw [List.append_nil]
      exact .undone hCq.summary (by simp) .rfl ⟨rfl, rfl, rfl⟩
  | true =>
      refine (tells_nvmeAllocDmaMem c₁ _ _).bind fun t₂ ⟨sqOk, c₂, sqMem⟩ hSq => ?_
      have hTwo := hCq.summary.append hSq.summary
      cases sqOk with
      | false =>
          refine (tells_freeDma (hCq.isReal rfl)).bind fun t₃ _ hFreed => ?_
          show PairOutcome c n (t₁ ++ (t₂ ++ (t₃ ++ []))) _
          rw [List.append_nil, ← List.append_assoc]
          exact .undone (hTwo.append hFreed) (by simp) .rfl ⟨rfl, rfl, rfl⟩
      | true =>
          refine (tells_nvmeAllocDmaMem c₂ _ _).bind fun t₃ ⟨prpOk, c₃, prpMem⟩ hPrp => ?_
          have hThree := hTwo.append hPrp.summary
          cases prpOk with
          | false =>
              refine (tells_freeDma (hSq.isReal rfl)).bind fun t₄ _ hFreedSq => ?_
              refine (tells_freeDma (hCq.isReal rfl)).bind fun t₅ _ hFreedCq => ?_
              show PairOutcome c n (t₁ ++ (t₂ ++ (t₃ ++ (t₄ ++ (t₅ ++ []))))) _
              rw [List.append_nil, ← List.append_assoc t₁, ← List.append_assoc (t₁ ++ t₂)]
              -- They are released in the opposite order.
              exact .undone (hThree.append (hFreedSq.append hFreedCq)) (by simp)
                (.swap _ _ []) ⟨rfl, rfl, rfl⟩
          | true =>
              refine (tells_zeroDma _).bind fun t₄ _ hZeroCq => ?_
              refine (tells_zeroDma _).bind fun t₅ _ hZeroSq => ?_
              refine (tells_zeroDma _).bind fun t₆ _ hZeroPrp => ?_
              have hSetup : SameSetup c c₃ := (hCq.setup.trans hSq.setup).trans hPrp.setup
              refine (tells_createQueues (hSetup.bar0_ne_zero hBar0) _ cap _ _).mono
                fun t r ⟨commands, hSends⟩ => ?_
              show PairOutcome c n (t₁ ++ (t₂ ++ (t₃ ++ (t₄ ++ (t₅ ++ (t₆ ++ t)))))) r
              have hZero := (hZeroCq.append hZeroSq).append hZeroPrp
              have hOutcome := hSends.outcome (n := n) (hThree.append hZero) rfl hSetup
              simpa only [List.append_assoc] using hOutcome

theorem tells_createIoQueuePair (c : ControllerData) (n : NvmeData) :
    (createIoQueuePair c n).Tells (PairOutcome c n) := by
  have hUndone : ∀ t : Trace Effect.Result, Plain t → PairOutcome c n t (false, c, n) :=
    fun t hPlain => .undone hPlain (by decide) .rfl ⟨rfl, rfl, rfl⟩
  have hFail : ∀ message : String,
      (printErrno message >>= fun _ =>
        (pure (false, c, n) : Admin (Bool × ControllerData × NvmeData))).Tells
          (PairOutcome c n) := by
    intro message
    refine (tells_register (only_load (only_report message (false, c, n)))).mono ?_
    rintro t r ⟨hPlain, rfl⟩
    exact hUndone t hPlain
  unfold createIoQueuePair
  split
  · exact hFail _
  rename_i hBar0
  split
  · exact hFail _
  split
  · exact hFail _
  split
  · exact hFail _
  refine (tells_register (only_load (only_regRead64 _ _))).bind fun t₀ cap ⟨hPlain, _⟩ => ?_
  -- Reading the capabilities changes nothing.
  have hRest : ∀ {p : Admin (Bool × ControllerData × NvmeData)}, p.Tells (PairOutcome c n) →
      p.Tells fun t r => PairOutcome c n (t₀ ++ t) r :=
    fun h => h.mono fun t r hOutcome => hOutcome.after hPlain
  cases cap with
  | none => exact hRest (hUndone [] ⟨rfl, rfl, rfl, rfl⟩)
  | some cap =>
      dsimp only
      split
      · exact hRest (hFail _)
      split
      · exact hRest (hFail _)
      split
      · exact hRest (hFail _)
      · exact hRest (tells_allocQueues hBar0 n cap _ _)

/-! ## All or nothing -/

/-- The I/O queues a controller has, by their identifiers. -/
@[ext]
structure IoQueues where
  sqs : UInt16 → Bool := fun _ => false
  cqs : UInt16 → Bool := fun _ => false

/-- What a granted command does to them. -/
def IoQueues.apply (q : IoQueues) (cmd : AdminCommand) : IoQueues :=
  match cmd.queueOp with
  | .createCq => { q with cqs := Function.update q.cqs cmd.qid true }
  | .createSq => { q with sqs := Function.update q.sqs cmd.qid true }
  | .deleteSq => { q with sqs := Function.update q.sqs cmd.qid false }
  | .deleteCq => { q with cqs := Function.update q.cqs cmd.qid false }
  | .other => q

def Hardware.ioQueues (m : Hardware) : IoQueues :=
  { sqs := fun qid => (m.sqs qid).isSome, cqs := fun qid => (m.cqs qid).isSome }

/-- The controller of `Hardware` does just that when it accepts a command. -/
theorem Hardware.ioQueues_apply (m : Hardware) (s : Sent) :
    (m.apply s).ioQueues = m.ioQueues.apply s.cmd := by
  have hUpdate : ∀ (f : UInt16 → Option (Option Nat)) (x : Option (Option Nat)),
      (fun qid => (Function.update f s.cmd.qid x qid).isSome) =
        Function.update (fun qid => (f qid).isSome) s.cmd.qid x.isSome := by
    intro f x
    exact Function.comp_update Option.isSome f s.cmd.qid x
  unfold Hardware.apply IoQueues.apply
  cases s.cmd.queueOp with
  | createCq => exact IoQueues.ext rfl (hUpdate m.cqs _)
  | createSq => exact IoQueues.ext (hUpdate m.sqs _) rfl
  | deleteSq => exact IoQueues.ext (hUpdate m.sqs _) rfl
  | deleteCq => exact IoQueues.ext rfl (hUpdate m.cqs _)
  | other => rfl

/-- The queues of a controller that had `q` before the execution. -/
def queuesAfter (t : Trace Effect.Result) (q : IoQueues) : IoQueues :=
  (commandsIn t).foldl (fun q a => if Granted a then q.apply a.1 else q) q

/-- Nothing is left of the call: the memory it allocated has been released, the controller
has the queues it had, and the structure points to no others. -/
structure TakenBack (q : IoQueues) (n : NvmeData) (t : Trace Effect.Result) (n' : NvmeData) :
    Prop where
  released : (releasedIn t).Perm (allocatedIn t)
  queues : queuesAfter t q = q
  ioSqVirtAddr : n'.ioSqVirtAddr = n.ioSqVirtAddr
  ioCqVirtAddr : n'.ioCqVirtAddr = n.ioCqVirtAddr
  ioPrpListVirtAddr : n'.ioPrpListVirtAddr = n.ioPrpListVirtAddr

/-- A call that fails leaves nothing. -/
def Atomic (q : IoQueues) (n : NvmeData) (t : Trace Effect.Result)
    (r : Bool × ControllerData × NvmeData) : Prop :=
  r.1 = false → TakenBack q n t r.2.2

/-- One of the three allocations is not reached or fails, or the controller can be asked for
the queues and grants them. -/
def NoneRefused (c : ControllerData) (t : Trace Effect.Result) : Prop :=
  (allocatedIn t).length < 3 ∨
    (DoorbellsAligned c ∧ ∀ a ∈ commandsIn t, Granted a = true)

instance (c : ControllerData) (t : Trace Effect.Result) : Decidable (NoneRefused c t) :=
  inferInstanceAs (Decidable (_ ∨ _))

/-- A controller whose admin queues have just been set up. -/
def pairController : ControllerData :=
  { bar0Virt := 0x7f00, adminSqVirtAddr := 0x1000, adminCqVirtAddr := 0x2000, adminCqPhase := 1
    adminSqDepth := 32, adminCqDepth := 32, adminSqTailDb := 0x1000, adminCqHeadDb := 0x1004
    dmaFd := 3, dmaFdOpened := true }

/-- A controller with 256 entries a queue, on a machine where at most `limit` bytes can be
allocated at once.  It answers its second command with the status `second`. -/
def pairAnswers (limit : UInt64) (second : UInt16) : (e : Effect) → e.Result
  | .bar0Map _ _ _ => 0
  | .bar0Unmap _ => true
  | .dmaOpen _ _ _ => 3
  | .dmaClose _ => ()
  | .regRead offset => if offset = nvmeRegCap then 0x140000ff else 0
  | .regWrite _ _ => ()
  | .allocDma _ size =>
      if size ≤ limit then
        { fd := 3, userVirtaddr := 0x7f0000000000 + size, dmaAddr := 0x100000000 + size
          size := size.toInt64 }
      else {}
  | .releaseDma _ => ()
  | .zeroDma _ => ()
  | .writeSqe _ _ _ => ()
  | .readCqe _ slot => if slot = 0 then { psf := 1 } else { cid := 1, psf := 1 + 2 * second }
  | .readData _ => fun _ => 0
  | .printErrno _ => ()

end NewPerf.Tools
