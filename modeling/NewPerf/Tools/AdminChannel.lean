import NewPerf.Tools.ControllerInit
import NewPerf.Tools.QueueRules

/-!
# The admin queue as a synchronous channel

Every user of the admin queue submits one command and waits for its completion before
the next one is submitted.  `Channel` records what was submitted and how each wait
ended: what it returned, and whether it took an entry off the completion queue.  A wait
that gives up leaves its command with the controller, which may still complete it.

The invariant `Track` says where the host and the controller are with the rings, until
the completion of a command whose wait has given up is posted (`Late`).
-/

namespace NewPerf.Tools

open NewPerf.Lib.Logs
open NewPerf.Lib.Programs
open NewPerf.Lib.Ring

/-! ## Requests -/

/-- A command as the functions of `tools/nvme.c` submit it. -/
inductive Request where
  | identify (identifyPhys : UInt64)
  | admin (opcode : UInt8) (nsid : UInt32) (prp1 : UInt64) (cdw10 cdw11 : UInt32)

/-- The function that submits it. -/
def Request.submit (c : ControllerData) (cmdId : UInt16) :
    Request → Admin (Bool × ControllerData)
  | .identify identifyPhys => submitIdentifyNamespace c identifyPhys cmdId
  | .admin opcode nsid prp1 cdw10 cdw11 =>
      submitAdminCommand c opcode nsid prp1 cdw10 cdw11 cmdId

/-- The entry this stores. -/
def Request.entry (c : ControllerData) (cmdId : UInt16) : Request → AdminCommand
  | .identify identifyPhys =>
      { opcode := nvmeAdminIdentifyOpcode
        cid := cmdId
        nsid := c.nsid.toUInt32
        prp1 := identifyPhys
        cdw10 := nvmeIdentifyCnsNamespace }
  | .admin opcode nsid prp1 cdw10 cdw11 => { opcode, cid := cmdId, nsid, prp1, cdw10, cdw11 }

theorem Request.submit_eq (r : Request) (c : ControllerData) (cmdId : UInt16) :
    r.submit c cmdId = submitCommand c (r.entry c cmdId) := by
  cases r <;> rfl

theorem Request.cid_entry (r : Request) (c : ControllerData) (cmdId : UInt16) :
    (r.entry c cmdId).cid = cmdId := by
  cases r <;> rfl

theorem Request.entry_next (r : Request) (c : ControllerData) (cmdId next : UInt16) :
    r.entry { c with adminCmdId := next } cmdId = r.entry c cmdId := by
  cases r <;> rfl

/-- Submit a command under the next id and wait for it. -/
def issue (c : ControllerData) (r : Request) : Admin (Bool × ControllerData) := do
  let cmdId := c.adminCmdId
  let c := { c with adminCmdId := c.adminCmdId + 1 }
  let (submitted, c) ← r.submit c cmdId
  if !submitted then return (false, c)
  else waitAdminCompletion c cmdId nvmeAdminCmdTimeoutMs

/-- This is what `create_io_queue_pair` and `delete_io_queue_pair` are made of. -/
theorem adminCommand_eq (c : ControllerData) (opcode : UInt8) (prp1 : UInt64)
    (cdw10 cdw11 : UInt32) :
    adminCommand c opcode prp1 cdw10 cdw11 = issue c (.admin opcode 0 prp1 cdw10 cdw11) := by
  unfold adminCommand issue
  rfl

/-- A command whose wait has returned. -/
structure Issued where
  cmd : AdminCommand
  /-- What the wait returned. -/
  ok : Bool
  /-- It moved the head of the completion queue. -/
  taken : Bool
  deriving DecidableEq, Repr

/-- The controller and the commands it was given. -/
structure Channel where
  ctrl : ControllerData
  issued : List Issued := []

def Channel.record (h : Channel) (r : Request) (ok : Bool) (c : ControllerData) : Channel :=
  { ctrl := c
    issued := h.issued ++
      [{ cmd := r.entry h.ctrl h.ctrl.adminCmdId
         ok := ok
         taken := c.adminCqHead ≠ h.ctrl.adminCqHead }] }

def channel (h : Channel) (r : Request) : Option (Admin Channel) :=
  some do
    let (ok, c) ← issue h.ctrl r
    return h.record r ok c

/-! ## The invariant -/

/-- Number of completions taken. -/
def takenCount (issued : List Issued) : Nat := issued.countP (·.taken)

/-- The completion of a command whose wait has given up has been posted. -/
def Late (issued : List Issued) (m : Hardware) : Prop :=
  ∃ (i : Nat) (x : Issued) (s : Sent), issued[i]? = some x ∧ x.taken = false ∧
    m.sent[i]? = some s ∧ s.Completed

/-- The `i`-th command is with the controller, not completed, or its own completion was
taken by its wait, which returned what it reports. -/
structure Settled (issued : List Issued) (m : Hardware) (i : Nat) (x : Issued) (s : Sent) :
    Prop where
  sent : m.sent[i]? = some s
  cmd : s.cmd = x.cmd
  left : x.taken = false → ¬ s.Completed
  own : x.taken = true → ∃ e, m.posted[takenCount (issued.take i)]? = some e ∧
    e.cid = x.cmd.cid ∧ x.ok = Succeeded e ∧ s.progress = .posted x.ok

/-- The command the host waits for has been completed, as the next entry of the ring. -/
def Answered (issued : List Issued) (cmd : AdminCommand) (s : Sent) (m : Hardware) : Prop :=
  ∃ e, m.posted.length = takenCount issued + 1 ∧ m.posted[takenCount issued]? = some e ∧
    e.cid = cmd.cid ∧ s.progress = .posted (Succeeded e)

/-- The host follows the controller through the completion queue; `pending` is the
command it waits for. -/
structure Following (c : ControllerData) (issued : List Issued)
    (pending : Option AdminCommand) (m : Hardware) : Prop where
  head : c.adminCqHead.toNat = takenCount issued % 32
  phase : c.adminCqPhase.toNat = phaseOf 32 (takenCount issued)
  ring : PhaseRing 32 (m.cqe c.adminCqVirtAddr) cqePhase m.posted
  settled : ∀ i x, issued[i]? = some x → ∃ s, Settled issued m i x s
  idle : pending = none → m.posted.length = takenCount issued
  waiting : ∀ cmd, pending = some cmd → ∃ s, m.sent[issued.length]? = some s ∧ s.cmd = cmd ∧
    ((¬ s.Completed ∧ m.posted.length = takenCount issued) ∨ Answered issued cmd s m)

/-- The host and the controller agree on the submission queue, and on the completion
queue until a completion comes late. -/
structure Track (c : ControllerData) (issued : List Issued) (pending : Option AdminCommand)
    (m : Hardware) : Prop extends Wired c m where
  count : m.sent.length = issued.length + pending.toList.length
  tail : c.adminSqTail.toNat = m.sent.length % 32
  state : Late issued m ∨ Following c issued pending m

/-! ## Steps of the controller -/

section Device

variable {m m' : Hardware} {b : DeviceAct} {c : ControllerData} {issued : List Issued}
  {pending : Option AdminCommand}

/-- A step of the controller posts one completion or none. -/
theorem device_posts (h : m.device b = some m') :
    (m'.posted = m.posted ∧ m'.cqe = m.cqe ∧
      ∀ (j : Nat) (s' : Sent), m'.sent[j]? = some s' →
        ∃ s, m.sent[j]? = some s ∧ s'.cmd = s.cmd ∧ (s'.Completed → s.Completed)) ∨
    ∃ i s e, m.sent[i]? = some s ∧ ¬ s.Completed ∧ e.cid = s.cmd.cid ∧
      cqePhase e = phaseOf m.adminCqDepth m.posted.length ∧
      m'.sent = (m.setProgress i (.posted (Succeeded e))).sent ∧
      m'.posted = m.posted ++ [e] ∧
      m'.cqe = Function.update m.cqe (m.virtOf m.acq)
        (Function.update (m.cqe (m.virtOf m.acq)) (m.posted.length % m.adminCqDepth) e) := by
  obtain ⟨i, s, hs, hWaiting, rfl⟩ | ⟨i, s, hs, hWaiting, _, rfl⟩ |
    ⟨i, s, a, sqhd, status, hs, hExecuted, hStatus, rfl⟩ := Hardware.device_cases h
  · refine .inl ⟨rfl, rfl, fun j s' hs' => ?_⟩
    obtain ⟨t, ht, rfl⟩ := sent_setProgress hs'
    refine ⟨t, ht, by split <;> rfl, fun hDone => ?_⟩
    split at hDone
    · obtain ⟨_, hDone⟩ := hDone
      cases hDone
    · exact hDone
  · refine .inl ⟨by rw [Hardware.apply_eq]; rfl, by rw [Hardware.apply_eq]; rfl,
      fun j s' hs' => ?_⟩
    rw [sent_apply] at hs'
    obtain ⟨t, ht, rfl⟩ := sent_setProgress hs'
    refine ⟨t, ht, by split <;> rfl, fun hDone => ?_⟩
    split at hDone
    · obtain ⟨_, hDone⟩ := hDone
      cases hDone
    · exact hDone
  · refine .inr ⟨i, s, m.adminCqe s sqhd status, hs, ?_, rfl, ?_, ?_, rfl, rfl⟩
    · rintro ⟨_, hDone⟩
      exact nomatch hExecuted.symm.trans hDone
    · exact cqePhase_of_psf rfl (phaseOf_lt_two _ _)
    · rw [Succeeded, hStatus]

theorem Late.device (h : Late issued m) (hStep : m.device b = some m') : Late issued m' := by
  obtain ⟨i, x, s, hx, hTaken, hs, hDone⟩ := h
  exact ⟨i, x, s, hx, hTaken, device_completed hStep hs hDone, hDone⟩

/-- A command stays where it is in the list, and its own completion in the log. -/
theorem Settled.device {i : Nat} {x : Issued} {s : Sent} (h : Settled issued m i x s)
    (hStep : m.device b = some m')
    (hKept : ∀ s', m'.sent[i]? = some s' → s'.cmd = s.cmd ∧ (s'.Completed → s.Completed))
    (hLog : ∃ new, m'.posted = m.posted ++ new) : ∃ s', Settled issued m' i x s' := by
  obtain ⟨new, hLog⟩ := hLog
  have hLt : i < m'.sent.length := by
    rw [device_sent_length hStep]
    exact (List.getElem?_eq_some_iff.mp h.sent).1
  have hs' : m'.sent[i]? = some m'.sent[i] := List.getElem?_eq_getElem hLt
  obtain ⟨hCmd, hBack⟩ := hKept _ hs'
  refine ⟨m'.sent[i], hs', hCmd.trans h.cmd, fun hTaken hDone => h.left hTaken (hBack hDone),
    fun hTaken => ?_⟩
  obtain ⟨e, he, hCid, hOk, hProgress⟩ := h.own hTaken
  have hSame := device_completed hStep h.sent ⟨_, hProgress⟩
  rw [hs', Option.some.injEq] at hSame
  refine ⟨e, ?_, hCid, hOk, hSame ▸ hProgress⟩
  rw [hLog, List.getElem?_append_left (List.getElem?_eq_some_iff.mp he).1]
  exact he

private theorem Following.device_none (h : Following c issued pending m)
    (hStep : m.device b = some m') (hPosted : m'.posted = m.posted) (hCqe : m'.cqe = m.cqe)
    (hBack : ∀ (j : Nat) (s' : Sent), m'.sent[j]? = some s' →
      ∃ s, m.sent[j]? = some s ∧ s'.cmd = s.cmd ∧ (s'.Completed → s.Completed)) :
    Following c issued pending m' := by
  have hKept : ∀ (j : Nat) (s s' : Sent), m.sent[j]? = some s → m'.sent[j]? = some s' →
      s'.cmd = s.cmd ∧ (s'.Completed → s.Completed) := by
    intro j s s' hs hs'
    obtain ⟨t, ht, hRest⟩ := hBack j s' hs'
    obtain rfl : t = s := Option.some.inj (ht.symm.trans hs)
    exact hRest
  refine ⟨h.head, h.phase, by rw [hCqe, hPosted]; exact h.ring, fun i x hx => ?_,
    fun hNone => by rw [hPosted]; exact h.idle hNone, fun cmd hCmd => ?_⟩
  · obtain ⟨s, hs⟩ := h.settled i x hx
    exact hs.device hStep (fun s' hs' => hKept i s s' hs.sent hs')
      ⟨[], by rw [hPosted, List.append_nil]⟩
  · obtain ⟨s, hs, hEq, hState⟩ := h.waiting cmd hCmd
    have hLt : issued.length < m'.sent.length := by
      rw [device_sent_length hStep]
      exact (List.getElem?_eq_some_iff.mp hs).1
    have hs' : m'.sent[issued.length]? = some m'.sent[issued.length] :=
      List.getElem?_eq_getElem hLt
    obtain ⟨hSame, hUndone⟩ := hKept _ s _ hs hs'
    refine ⟨_, hs', hSame.trans hEq, ?_⟩
    rcases hState with ⟨hOpen, hLength⟩ | ⟨e, hLength, he, hCid, hProgress⟩
    · exact .inl ⟨fun hDone => hOpen (hUndone hDone), by rw [hPosted]; exact hLength⟩
    · have hStay := device_completed hStep hs ⟨_, hProgress⟩
      rw [hs', Option.some.injEq] at hStay
      refine .inr ⟨e, by rw [hPosted]; exact hLength, by rw [hPosted]; exact he, hCid, ?_⟩
      rw [hStay]
      exact hProgress

private theorem Following.device_post (h : Following c issued pending m)
    (hWired : Wired c m) (hCount : m.sent.length = issued.length + pending.toList.length)
    (hStep : m.device b = some m') {i : Nat} {s : Sent} {e : NvmeCqEntry}
    (hs : m.sent[i]? = some s) (hOpen : ¬ s.Completed) (hCid : e.cid = s.cmd.cid)
    (hPhase : cqePhase e = phaseOf m.adminCqDepth m.posted.length)
    (hSent : m'.sent = (m.setProgress i (.posted (Succeeded e))).sent)
    (hPosted : m'.posted = m.posted ++ [e])
    (hCqe : m'.cqe = Function.update m.cqe (m.virtOf m.acq)
      (Function.update (m.cqe (m.virtOf m.acq)) (m.posted.length % m.adminCqDepth) e)) :
    Late issued m' ∨ Following c issued pending m' := by
  have hNow : m'.sent[i]? = some { s with progress := .posted (Succeeded e) } := by
    rw [hSent, Hardware.setProgress, List.getElem?_modify_eq, hs]
    rfl
  have hOther : ∀ j, j ≠ i → m'.sent[j]? = m.sent[j]? := fun j hne => by
    rw [hSent, Hardware.setProgress, List.getElem?_modify_ne _ _ hne.symm]
  have hLt : i < m.sent.length := (List.getElem?_eq_some_iff.mp hs).1
  rcases Nat.lt_or_ge i issued.length with hOld | hNew
  · -- Of the earlier commands only those whose wait gave up are not completed.
    obtain ⟨t, ht⟩ := h.settled i _ (List.getElem?_eq_getElem hOld)
    obtain rfl : t = s := Option.some.inj (ht.sent.symm.trans hs)
    refine .inl ⟨i, _, _, List.getElem?_eq_getElem hOld, ?_, hNow, _, rfl⟩
    cases hTaken : (issued[i]).taken with
    | false => rfl
    | true =>
        obtain ⟨_, _, _, _, hProgress⟩ := ht.own hTaken
        exact absurd ⟨_, hProgress⟩ hOpen
  · cases pending with
    | none =>
        simp only [Option.toList_none, List.length_nil] at hCount
        omega
    | some cmd =>
        simp only [Option.toList_some, List.length_singleton] at hCount
        obtain rfl : i = issued.length := by omega
        obtain ⟨t, ht, hCmd, hState⟩ := h.waiting cmd rfl
        obtain rfl : t = s := Option.some.inj (ht.symm.trans hs)
        have hLength : m.posted.length = takenCount issued := by
          rcases hState with ⟨_, hLength⟩ | ⟨_, _, _, _, hProgress⟩
          · exact hLength
          · exact absurd ⟨_, hProgress⟩ hOpen
        have hDepth := (Hardware.adminDepths hWired.aqa).2
        refine .inr ⟨h.head, h.phase, ?_, fun j x hx => ?_, fun hNone => (by cases hNone),
          fun cmd' hCmd' => ?_⟩
        · rw [hCqe, hWired.virtOf_acq, Function.update_self, hDepth, hPosted]
          rw [hDepth] at hPhase
          exact h.ring.post (by decide) hPhase
        · obtain ⟨t', ht'⟩ := h.settled j x hx
          have hj : j < issued.length := (List.getElem?_eq_some_iff.mp hx).1
          refine ht'.device hStep (fun s' hs' => ?_) ⟨[e], hPosted⟩
          rw [hOther j (by omega), ht'.sent, Option.some.injEq] at hs'
          rw [hs']
          exact ⟨rfl, id⟩
        · obtain rfl := Option.some.inj hCmd'
          refine ⟨_, hNow, hCmd, .inr ⟨e, ?_, ?_, hCid.trans (by rw [hCmd]), rfl⟩⟩
          · rw [hPosted, List.length_append, hLength, List.length_singleton]
          · rw [hPosted, ← hLength, List.getElem?_concat_length]

theorem Track.device (h : Track c issued pending m) (hStep : m.device b = some m') :
    Track c issued pending m' := by
  have hLength := device_sent_length hStep
  refine { h.toWired.device hStep with
    count := by rw [hLength]; exact h.count
    tail := by rw [hLength]; exact h.tail
    state := ?_ }
  rcases h.state with hLate | hFollow
  · exact .inl (hLate.device hStep)
  · rcases device_posts hStep with
      ⟨hPosted, hCqe, hBack⟩ | ⟨i, s, e, hs, hOpen, hCid, hPhase, hSent, hPosted, hCqe⟩
    · exact .inr (hFollow.device_none hStep hPosted hCqe hBack)
    · exact hFollow.device_post h.toWired h.count hStep hs hOpen hCid hPhase hSent hPosted
        hCqe

theorem Track.stable : hardware.Stable (Track c issued pending) :=
  fun _ _ _ h hEnv => h.device hEnv

end Device

/-! ## Submitting, taking and giving up -/

section Host

variable {m m' : Hardware} {c : ControllerData} {issued : List Issued} {cmd : AdminCommand}
  {x : Issued}

/-- Only the commands, the log and the completion queue matter. -/
theorem Track.congr {pending : Option AdminCommand} (h : Track c issued pending m)
    (hWired : Wired c m') (hSent : m'.sent = m.sent) (hPosted : m'.posted = m.posted)
    (hCqe : m'.cqe = m.cqe) : Track c issued pending m' := by
  refine { hWired with
    count := by rw [hSent]; exact h.count
    tail := by rw [hSent]; exact h.tail
    state := ?_ }
  rcases h.state with ⟨i, y, s, hy, hTaken, hs, hDone⟩ | hFollow
  · exact .inl ⟨i, y, s, hy, hTaken, by rw [hSent]; exact hs, hDone⟩
  · refine .inr ⟨hFollow.head, hFollow.phase, by rw [hCqe, hPosted]; exact hFollow.ring,
      fun i y hy => ?_, fun hNone => by rw [hPosted]; exact hFollow.idle hNone, ?_⟩
    · obtain ⟨s, hs⟩ := hFollow.settled i y hy
      exact ⟨s, { hs with
        sent := by rw [hSent]; exact hs.sent
        own := by rw [hPosted]; exact hs.own }⟩
    · unfold Answered
      rw [hSent, hPosted]
      exact hFollow.waiting

theorem takenCount_append (issued : List Issued) (x : Issued) :
    takenCount (issued ++ [x]) = takenCount issued + x.taken.toNat := by
  cases hTaken : x.taken <;> simp [takenCount, hTaken]

theorem Late.append (h : Late issued m) (x : Issued) : Late (issued ++ [x]) m := by
  obtain ⟨i, y, s, hy, hRest⟩ := h
  exact ⟨i, y, s, getElem?_concat_of_some hy x, hRest⟩

theorem Track.send (h : Track c issued none m) (cmd : AdminCommand) :
    Track (advanceAdminSq c) issued (some cmd) (m.send cmd) := by
  have hLength : (m.send cmd).sent.length = m.sent.length + 1 := by
    rw [Hardware.send, List.length_append, List.length_singleton]
  have hCount := h.count
  simp only [Option.toList_none, List.length_nil, Nat.add_zero] at hCount
  have hKept : ∀ (j : Nat) (s : Sent), m.sent[j]? = some s →
      (m.send cmd).sent[j]? = some s := fun j s hs => by
    rw [Hardware.send]
    exact getElem?_concat_of_some hs _
  refine { h.toWired.send cmd with
    count := by rw [hLength, hCount]; rfl
    tail := ?_
    state := ?_ }
  · rw [hLength, advanceAdminSq, h.sqDepth]
    rw [toNat_adminAdvance h.sqTail_lt, h.tail, Nat.mod_add_mod]
  · rcases h.state with ⟨i, y, s, hy, hTaken, hs, hDone⟩ | hFollow
    · exact .inl ⟨i, y, s, hy, hTaken, hKept i s hs, hDone⟩
    · refine .inr ⟨hFollow.head, hFollow.phase, hFollow.ring, fun i y hy => ?_,
        fun hNone => (by cases hNone), fun cmd' hCmd => ?_⟩
      · obtain ⟨s, hs⟩ := hFollow.settled i y hy
        exact ⟨s, { hs with sent := hKept i s hs.sent }⟩
      · obtain rfl := Option.some.inj hCmd
        have hNew : (m.send cmd).sent[issued.length]? = some
            { cmd := cmd, region := (m.mapped cmd.prp1).map Mapping.number } := by
          rw [Hardware.send, ← hCount, List.getElem?_concat_length]
        refine ⟨_, hNew, rfl, .inl ⟨?_, hFollow.idle rfl⟩⟩
        rintro ⟨_, hDone⟩
        cases hDone

/-- What is known of the earlier commands stays known when one is added. -/
theorem settled_append (hOld : ∀ i y, issued[i]? = some y → ∃ s, Settled issued m i y s)
    (hNew : ∃ s, Settled (issued ++ [x]) m issued.length x s) :
    ∀ i y, (issued ++ [x])[i]? = some y → ∃ s, Settled (issued ++ [x]) m i y s := by
  intro i y hy
  rcases getElem?_concat_cases hy with hy | ⟨rfl, rfl⟩
  · have hlt : i < issued.length := (List.getElem?_eq_some_iff.mp hy).1
    obtain ⟨s, hs⟩ := hOld i y hy
    refine ⟨s, { hs with own := fun hTaken => ?_ }⟩
    rw [List.take_append_of_le_length (Nat.le_of_lt hlt)]
    exact hs.own hTaken
  · exact hNew

/-- The wait returns without the completion. -/
theorem Track.abandon (h : Track c issued (some cmd) m) (ok : Bool) :
    Track c (issued ++ [⟨cmd, ok, false⟩]) none m := by
  refine { h with count := ?_, state := ?_ }
  · rw [h.count, List.length_append]
    rfl
  · rcases h.state with hLate | hFollow
    · exact .inl (hLate.append _)
    obtain ⟨s, hs, hCmd, hState⟩ := hFollow.waiting cmd rfl
    by_cases hDone : s.Completed
    · refine .inl ⟨issued.length, ⟨cmd, ok, false⟩, s, ?_, rfl, hs, hDone⟩
      exact List.getElem?_concat_length
    have hLength : m.posted.length = takenCount issued := by
      rcases hState with ⟨_, hLength⟩ | ⟨_, _, _, _, hProgress⟩
      · exact hLength
      · exact absurd ⟨_, hProgress⟩ hDone
    have hSame : takenCount (issued ++ [⟨cmd, ok, false⟩]) = takenCount issued :=
      takenCount_append issued ⟨cmd, ok, false⟩
    refine .inr ⟨by rw [hSame]; exact hFollow.head, by rw [hSame]; exact hFollow.phase,
      hFollow.ring, settled_append hFollow.settled ⟨s, hs, hCmd, fun _ => hDone, nofun⟩,
      fun _ => by rw [hSame]; exact hLength, nofun⟩

/-- An entry with the expected phase is the completion of the command waited for. -/
theorem Following.answered (h : Following c issued (some cmd) m) (hFresh : Fresh c m) :
    ∃ s, m.sent[issued.length]? = some s ∧ s.Completed ∧
      m.posted[takenCount issued]? = some (m.cqe c.adminCqVirtAddr c.adminCqHead.toNat) ∧
      (m.cqe c.adminCqVirtAddr c.adminCqHead.toNat).cid = cmd.cid := by
  obtain ⟨s, hs, hCmd, hState⟩ := h.waiting cmd rfl
  rw [Fresh, h.head, h.phase] at hFresh
  rw [h.head]
  rcases hState with ⟨_, hLength⟩ | ⟨e, hLength, he, hCid, hProgress⟩
  · have hTag := (h.ring.tag_iff (r := takenCount issued) (by omega) (by omega)).mp hFresh
    omega
  · have hSlot := h.ring.slot_eq (r := takenCount issued) (by omega) (by omega)
    rw [he, Option.some.injEq] at hSlot
    rw [← hSlot]
    exact ⟨s, hs, ⟨_, hProgress⟩, he, hCid⟩

/-- Once the command is completed its entry has the expected phase. -/
theorem Following.fresh (h : Following c issued (some cmd) m) {s : Sent}
    (hs : m.sent[issued.length]? = some s) (hDone : s.Completed) : Fresh c m := by
  obtain ⟨t, ht, _, hState⟩ := h.waiting cmd rfl
  obtain rfl : t = s := Option.some.inj (ht.symm.trans hs)
  rw [Fresh, h.head, h.phase]
  rcases hState with ⟨hOpen, _⟩ | ⟨e, hLength, _⟩
  · exact absurd hDone hOpen
  · exact (h.ring.tag_iff (r := takenCount issued) (by omega) (by omega)).mpr (by omega)

/-- The wait takes an entry; unless a completion came late it is the command's own. -/
def Taking (issued : List Issued) (e : NvmeCqEntry) (m : Hardware) : Prop :=
  Late issued m ∨ m.posted[takenCount issued]? = some e ∧
    ∃ s, m.sent[issued.length]? = some s ∧ s.Completed

theorem Track.take (h : Track c issued (some cmd) m) {e : NvmeCqEntry}
    (hTaking : Taking issued e m) :
    Track (advanceAdminCq c) (issued ++ [⟨cmd, Succeeded e, true⟩]) none m := by
  have hLt : (advanceAdminCq c).adminCqHead.toNat < 32 := by
    rw [advanceAdminCq, h.cqDepth, toNat_adminAdvance h.cqHead_lt]
    omega
  refine { h with cqHead_lt := hLt, count := ?_, state := ?_ }
  · rw [h.count, List.length_append]
    rfl
  · rcases h.state with hLate | hFollow
    · exact .inl (hLate.append _)
    rcases hTaking with hLate | ⟨he, s, hs, hDone⟩
    · exact .inl (hLate.append _)
    obtain ⟨t, ht, hCmd, hState⟩ := hFollow.waiting cmd rfl
    obtain rfl : t = s := Option.some.inj (ht.symm.trans hs)
    rcases hState with ⟨hOpen, _⟩ | ⟨e', hLength, he', hCid, hProgress⟩
    · exact absurd hDone hOpen
    obtain rfl : e = e' := Option.some.inj (he.symm.trans he')
    obtain ⟨hHead, hPhase⟩ := h.toWired.advanceAdminCq hFollow.head hFollow.phase
    have hMore : takenCount (issued ++ [⟨cmd, Succeeded e, true⟩]) = takenCount issued + 1 :=
      takenCount_append issued ⟨cmd, Succeeded e, true⟩
    refine .inr ⟨by rw [hMore]; exact hHead, by rw [hMore]; exact hPhase, hFollow.ring,
      settled_append hFollow.settled ⟨t, hs, hCmd, fun hLeft => (by cases hLeft),
        fun _ => ⟨e, ?_, hCid, rfl, hProgress⟩⟩,
      fun _ => by rw [hMore]; exact hLength, fun _ hNone => (by cases hNone)⟩
    rw [List.take_append_of_le_length (Nat.le_refl _), List.take_length]
    exact he

end Host

/-! ## The programs -/

section Walk

variable {ok : Hardware → Effect → Prop} {spec : Option Effect → Hardware → Prop}
  {m : Hardware} {c : ControllerData} {issued : List Issued} {cmd : AdminCommand}

/-- Every access but the report of an unexpected completion meets `spec`, and so does that
one after a completion has come late. -/
structure Tolerates (spec : Option Effect → Hardware → Prop) (issued : List Issued) : Prop where
  routine : ∀ e m, Routine e → spec e m
  late : ∀ m, Late issued m → spec (some (.printErrno unexpectedIdMessage)) m

/-- How a wait ends that found the head of the completion queue where `c` has it: it moves
the head, unless it gives up or a completion has come late. -/
structure Ended (ok : Hardware → Effect → Prop) (c : ControllerData) (issued : List Issued)
    (cmd : AdminCommand) (r : Bool × ControllerData) (m : Hardware) : Prop where
  track : Track r.2 (issued ++ [⟨cmd, r.1, decide (r.2.adminCqHead ≠ c.adminCqHead)⟩]) none m
  gaveUp : r.2.adminCqHead = c.adminCqHead →
    (∃ m, ok m (.printErrno adminTimeoutMessage)) ∨ Late issued m

theorem Taking.stable (issued : List Issued) (e : NvmeCqEntry) :
    hardware.Stable (Taking issued e) := by
  intro m b m' hTaking hStep
  rcases hTaking with hLate | ⟨he, s, hs, hDone⟩
  · exact .inl (hLate.device hStep)
  · refine .inr ⟨?_, s, device_completed hStep hs hDone, hDone⟩
    have hLt := (List.getElem?_eq_some_iff.mp he).1
    rcases device_posts hStep with ⟨hPosted, _⟩ | ⟨_, _, e', _, _, _, _, _, hPosted, _⟩
    · rw [hPosted]
      exact he
    · rw [hPosted, List.getElem?_append_left hLt]
      exact he

/-- Taking a completion moves the head. -/
theorem Wired.head_ne (h : Wired c m) :
    (Tools.advanceAdminCq c).adminCqHead ≠ c.adminCqHead := by
  have hLt := h.cqHead_lt
  intro hEq
  have hNat := congrArg UInt16.toNat hEq
  rw [Tools.advanceAdminCq, h.cqDepth] at hNat
  rw [toNat_adminAdvance hLt] at hNat
  omega

theorem Track.takes (h : Track c issued (some cmd) m) (hFresh : Fresh c m) :
    Taking issued (m.cqe c.adminCqVirtAddr c.adminCqHead.toNat) m := by
  rcases h.state with hLate | hFollow
  · exact .inl hLate
  · obtain ⟨s, hs, hDone, he, _⟩ := hFollow.answered hFresh
    exact .inr ⟨he, s, hs, hDone⟩

theorem Track.ended (h : Track c issued (some cmd) m) {e : NvmeCqEntry}
    (hTaking : Taking issued e m) :
    Ended ok c issued cmd (Succeeded e, advanceAdminCq c) m := by
  have hMoved := h.toWired.head_ne
  refine ⟨?_, fun hSame => absurd hSame hMoved⟩
  rw [decide_eq_true hMoved]
  exact h.take hTaking

theorem safe_waitTrack {cmdId : UInt16} {timeoutMs : UInt32} (hSpec : Tolerates spec issued)
    (h : Track c issued (some cmd) m) (hCid : cmd.cid = cmdId) :
    Safe hardware ok spec (Ended ok c issued cmd) (waitAdminCompletion c cmdId timeoutMs) m := by
  subst hCid
  have hAbandon : ∀ m, Track c issued (some cmd) m →
      Track c (issued ++ [⟨cmd, false, decide (c.adminCqHead ≠ c.adminCqHead)⟩]) none m := by
    intro m hm
    rw [decide_eq_false (not_not.mpr rfl)]
    exact hm.abandon false
  unfold waitAdminCompletion
  refine safe_waitAdminCompletionLoop (P := Track c issued (some cmd))
    (T := fun e m => Track c issued (some cmd) m ∧ Taking issued e m)
    (O := fun m => Track c issued (some cmd) m ∧ Late issued m) Track.stable ?_ ?_ h
    (fun _ _ hm => hm.1.toWired) (fun m e _ => hSpec.routine e m)
    (fun m e _ _ => hSpec.routine e m) ?_ ?_ ?_ ?_ ?_ ?_
  · exact fun e m b m' hm hStep => ⟨hm.1.device hStep, Taking.stable issued e m b m' hm.2 hStep⟩
  · exact fun m b m' hm hStep => ⟨hm.1.device hStep, hm.2.device hStep⟩
  · exact fun m hm hOk m' hm' => ⟨hAbandon m' hm', fun _ => .inl ⟨m, hOk⟩⟩
  · intro m hm hFresh hOther
    rcases hm.state with hLate | hFollow
    · exact ⟨hm, hLate⟩
    · obtain ⟨_, _, _, _, hOwn⟩ := hFollow.answered hFresh
      exact absurd hOwn hOther
  · exact fun m hm => ⟨hSpec.late m hm.2, hSpec.routine none m ⟨nofun, nofun⟩,
      hAbandon m hm.1, fun _ => .inr hm.2⟩
  · exact fun m hm hFresh _ => ⟨hm, hm.takes hFresh⟩
  · exact fun e m v hm =>
      ⟨hm.1.congr { hm.1.toWired with maps := hm.1.maps.congr rfl rfl } rfl rfl rfl, hm.2⟩
  · exact fun e m hm => hm.1.ended hm.2

/-- The invariant of a channel while no command is under way. -/
def InStep (h : Channel) (m : Hardware) : Prop := Track h.ctrl h.issued none m

theorem safe_channel {h : Channel} {r : Request} {p : Admin Channel}
    (hSpec : Tolerates spec h.issued) (hIdle : InStep h m) (hProg : channel h r = some p) :
    Safe hardware ok spec (fun h' m' => InStep h' m' ∧ ∃ x, h'.issued = h.issued ++ [x] ∧
      (x.taken = false → (∃ m, ok m (.printErrno adminTimeoutMessage)) ∨ Late h.issued m')) p
      m := by
  obtain rfl := Option.some.inj hProg
  have hNext : Track { h.ctrl with adminCmdId := h.ctrl.adminCmdId + 1 } h.issued none m :=
    { hIdle with state := hIdle.state.imp_right fun hFollow => { hFollow with } }
  refine Safe.bind (Q := Ended ok h.ctrl h.issued (r.entry h.ctrl h.ctrl.adminCmdId)) ?_ ?_
  · unfold issue
    dsimp only
    rw [Request.submit_eq]
    refine safe_submitCommand
      (P := Track { h.ctrl with adminCmdId := h.ctrl.adminCmdId + 1 } h.issued none)
      Track.stable hNext (fun _ hm => hm.toWired) (fun m e _ => hSpec.routine e m) ?_ ?_
    · exact fun m hm =>
        hm.congr { hm.toWired with maps := hm.maps.congr rfl rfl } rfl rfl rfl
    · intro m hm _
      simp only [Bool.not_true, Bool.false_eq_true, if_false]
      rw [Request.entry_next]
      exact (safe_waitTrack hSpec (hm.send (r.entry h.ctrl h.ctrl.adminCmdId))
        (r.cid_entry h.ctrl h.ctrl.adminCmdId)).mono fun _ _ hr => ⟨hr.track, hr.gaveUp⟩
  · rintro ⟨ok', c'⟩ m' hEnded
    refine Safe.pure (P := Ended ok h.ctrl h.issued (r.entry h.ctrl h.ctrl.adminCmdId)
      (ok', c')) ?_ hEnded (fun m _ => hSpec.routine none m ⟨nofun, nofun⟩) fun m hm => ?_
    · exact fun m b m' hm hStep => ⟨hm.track.device hStep,
        fun hSame => (hm.gaveUp hSame).imp_right fun hLate => hLate.device hStep⟩
    · refine ⟨hm.track, _, rfl, fun hTaken => hm.gaveUp ?_⟩
      exact not_not.mp (of_decide_eq_false hTaken)

end Walk

end NewPerf.Tools
