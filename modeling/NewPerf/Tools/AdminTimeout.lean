import NewPerf.Tools.AdminSequence

/-!
# Admin commands that run into their timeout

A wait that gives up leaves its command with the controller.  `wait_admin_completion`
does not skip entries: when the completion of such a command is posted after all, the
next wait finds an id that is not its own and returns without moving the head, and so
does every wait after it.

As long as no completion comes that late, the waits are not disturbed by the commands
that were given up: `unwedged_of_inTime`.
-/

namespace NewPerf.Tools

open NewPerf.Lib.Logs
open NewPerf.Lib.Programs
open NewPerf.Lib.Runs

/-- The host is about to look at the completion queue. -/
def Polling (e : Option Effect) : Prop := ∃ virt slot, e = some (.readCqe virt slot)

/-- The command under way has been completed, accepted or not. -/
def OwnPosted (h : Channel) (m : Hardware) (accepted : Bool) : Prop :=
  ∃ s, m.sent[h.issued.length]? = some s ∧ s.progress = .posted accepted

/-- A completion is posted only for the command under way, and while the host is going
to look at the completion queue at least once more. -/
def InTime (s : Calls Effect Effect.Result Channel Hardware) :
    Act Request Answer DeviceAct → Prop
  | .env (.post i _ _) => i = s.host.issued.length ∧ Polling s.next
  | _ => True

/-- Between commands the head of the completion queue is at the controller's tail, and
every command that is completed with success before its wait has looked for the last
time makes the wait return, and return true. -/
def Unwedged (ok : Calls Effect Effect.Result Channel Hardware →
      Act Request Answer DeviceAct → Prop)
    (s₀ : Calls Effect Effect.Result Channel Hardware) : Prop :=
  ∀ acts s, Run (Calls.step hardware channel) ok s₀ acts s →
    (s.running = none →
      s.host.ctrl.adminCqHead.toNat = s.machine.posted.length % 32) ∧
    (Polling s.next → OwnPosted s.host s.machine true →
      (∃ rest s', Run (Calls.step hardware channel) ok s rest s' ∧
        s.host.issued.length < s'.host.issued.length) ∧
      ∀ rest s', Run (Calls.step hardware channel) ok s rest s' →
        ∀ x, s'.host.issued[s.host.issued.length]? = some x → x.ok = true)

/-! ## What completes a command -/

section Completing

variable {m m' : Hardware} {j : Nat} {s : Sent}

/-- Only the controller completes commands. -/
theorem effect_completed {e : Effect} {a : Answer} {r : e.Result}
    (h : m.effect e a = some (r, m')) (hs : m'.sent[j]? = some s) (hDone : s.Completed) :
    m.sent[j]? = some s := by
  obtain ⟨-, rfl⟩ := Hardware.effect_cases h
  have hWaiting : ∀ cmds : List AdminCommand, ∀ t ∈ cmds.map fun cmd =>
      ({ cmd := cmd, region := (m.mapped cmd.prp1).map Mapping.number } : Sent),
      ¬ t.Completed := by
    intro cmds t ht hDone
    obtain ⟨cmd, -, rfl⟩ := List.mem_map.mp ht
    obtain ⟨_, hDone⟩ := hDone
    cases hDone
  cases e with
  | regRead offset =>
      simp only [Hardware.after, Hardware.observe, Hardware.halt] at hs
      split at hs
      · split at hs
        · exact hs
        · cases hs
      · exact hs
  | regWrite offset v =>
      by_cases hCc : offset = nvmeRegCc
      · rw [Hardware.after, Hardware.writeReg, if_pos hCc, Hardware.writeCc] at hs
        split at hs
        · exact hs
        · dsimp only at hs
          split at hs
          · exact hs
          · cases hs
      · by_cases hDb : offset = nvmeDoorbellBase
        · rw [hDb, Hardware.after, Hardware.writeReg_sqTail, Hardware.ringAdminSq] at hs
          rcases Nat.lt_or_ge j m.sent.length with hLt | hGe
          · rwa [List.getElem?_append_left hLt] at hs
          · rw [List.getElem?_append_right hGe] at hs
            exact absurd hDone (hWaiting _ s (List.mem_of_getElem? hs))
        · obtain ⟨_, _, _, _, _, _, hEq⟩ := Hardware.writeReg_other m v hCc hDb
          rw [Hardware.after, hEq] at hs
          exact hs
  | allocDma fd size =>
      simp only [Hardware.after, Hardware.alloc] at hs
      split at hs <;> exact hs
  | _ => exact hs

/-- A command becomes completed when its completion is posted. -/
theorem device_newly {b : DeviceAct} (h : m.device b = some m') (hs : m'.sent[j]? = some s)
    (hDone : s.Completed) : m.sent[j]? = some s ∨ ∃ sqhd status, b = .post j sqhd status := by
  cases b with
  | execute i accept =>
      have hSent : ∃ a, m'.sent = (m.setProgress i (.executed a)).sent := by
        simp only [Hardware.device, Hardware.execute] at h
        repeat' split at h
        all_goals cases h
        · exact ⟨true, sent_apply _ _⟩
        · exact ⟨false, rfl⟩
      obtain ⟨a, hSent⟩ := hSent
      rw [hSent] at hs
      obtain ⟨t, ht, rfl⟩ := sent_setProgress hs
      split at hDone
      · obtain ⟨_, hDone⟩ := hDone
        cases hDone
      · rename_i hne
        left
        rw [if_neg hne]
        exact ht
  | post i sqhd status =>
      have hSent : ∃ a, m'.sent = (m.setProgress i (.posted a)).sent := by
        simp only [Hardware.device, Hardware.post] at h
        repeat' split at h
        all_goals cases h
        exact ⟨_, rfl⟩
      obtain ⟨a, hSent⟩ := hSent
      rw [hSent] at hs
      obtain ⟨t, ht, rfl⟩ := sent_setProgress hs
      split
      · rename_i hij
        exact .inr ⟨sqhd, status, by rw [hij]⟩
      · exact .inl ht

end Completing

/-! ## Waits -/

/-- No restriction. -/
def AnyEffect (_ : Hardware) (_ : Effect) : Prop := True

def AnyMoment (_ : Option Effect) (_ : Hardware) : Prop := True

/-- The call has recorded its command. -/
def Recorded (h h' : Channel) (m : Hardware) : Prop :=
  InStep h' m ∧ ∃ x, h'.issued = h.issued ++ [x]

/-- The wait took the completion of its command, unless one came late. -/
def Took (h : Channel) (accepted : Bool) (h' : Channel) (m : Hardware) : Prop :=
  Late h.issued m ∨ ∃ x, h'.issued = h.issued ++ [x] ∧ x.taken = true ∧ x.ok = accepted

/-- A command that has been completed when the host polls will be found so. -/
def Polled (h : Channel) (p : Admin Channel) (m : Hardware) : Prop :=
  Polling p.next → ∀ accepted, OwnPosted h m accepted →
    Safe hardware AnyEffect AnyMoment (Took h accepted) p m

section Waits

variable {m : Hardware} {c : ControllerData} {h : Channel} {issued : List Issued}
  {cmd : AdminCommand} {accepted : Bool}

theorem tolerates_any (issued : List Issued) : Tolerates AnyMoment issued :=
  ⟨fun _ _ _ => trivial, fun _ _ => trivial⟩

/-- After a late completion nothing is claimed of the wait. -/
private theorem safe_waitLate (cmdId : UInt16) (left : Nat)
    (hTrack : Track c issued (some cmd) m) (hLate : Late issued m) :
    Safe hardware AnyEffect AnyMoment (fun _ m => Late issued m)
      (waitAdminCompletionLoop c cmdId left) m := by
  have hStable : hardware.Stable fun m => Track c issued (some cmd) m ∧ Late issued m :=
    fun m b m' hm hStep => ⟨hm.1.device hStep, hm.2.device hStep⟩
  refine safe_waitAdminCompletionLoop
    (P := fun m => Track c issued (some cmd) m ∧ Late issued m)
    (T := fun _ m => Track c issued (some cmd) m ∧ Late issued m)
    (O := fun m => Track c issued (some cmd) m ∧ Late issued m) hStable (fun _ => hStable)
    hStable ⟨hTrack, hLate⟩ (fun _ _ hm => hm.1.toWired) (fun _ _ _ _ => trivial)
    (fun _ _ _ _ _ => trivial) (fun _ _ _ _ hm => hm.2) (fun _ hm _ _ => hm)
    (fun _ hm => ⟨trivial, trivial, hm.2⟩) (fun _ hm _ _ => hm) ?_ fun _ _ hm => hm.2
  exact fun _ m v hm =>
    ⟨hm.1.congr { hm.1.toWired with maps := hm.1.maps.congr rfl rfl } rfl rfl rfl, hm.2⟩

/-- The next poll finds a completion that is there. -/
theorem safe_waitPosted {left : Nat} (hTrack : Track c issued (some cmd) m)
    (hOwn : ∃ s, m.sent[issued.length]? = some s ∧ s.progress = .posted accepted) :
    Safe hardware AnyEffect AnyMoment
      (fun r m => Late issued m ∨ r.1 = accepted ∧ r.2.adminCqHead ≠ c.adminCqHead)
      (waitAdminCompletionLoop c cmd.cid (left + 1)) m := by
  obtain ⟨s, hs, hProgress⟩ := hOwn
  have hDone : s.Completed := ⟨_, hProgress⟩
  have hStable : hardware.Stable fun m =>
      Track c issued (some cmd) m ∧ m.sent[issued.length]? = some s :=
    fun m b m' hm hStep => ⟨hm.1.device hStep, device_completed hStep hm.2 hDone⟩
  refine safe_effect hStable ⟨hTrack, hs⟩ (fun _ _ => trivial) fun m cqe hm _ hCqe => ?_
  obtain rfl : cqe = m.cqe c.adminCqVirtAddr c.adminCqHead.toNat := hCqe
  rcases hm.1.state with hLate | hFollow
  · have hSafe := safe_waitLate cmd.cid (left + 1) hm.1 hLate
    exact ((hSafe m .refl).2 .done _ m trivial rfl).mono fun _ _ hm => .inl hm
  · have hFresh := hFollow.fresh hm.2 hDone
    obtain ⟨-, -, -, he, hCid⟩ := hFollow.answered hFresh
    have hOk : Succeeded (m.cqe c.adminCqVirtAddr c.adminCqHead.toNat) = accepted := by
      obtain ⟨t, ht, -, ⟨hOpen, -⟩ | ⟨e, -, he', -, hPosted⟩⟩ := hFollow.waiting cmd rfl
      · obtain rfl : t = s := Option.some.inj (ht.symm.trans hm.2)
        exact absurd hDone hOpen
      · obtain rfl : t = s := Option.some.inj (ht.symm.trans hm.2)
        obtain rfl := Option.some.inj (he'.symm.trans he)
        exact Progress.posted.inj (hPosted.symm.trans hProgress)
    show Safe hardware AnyEffect AnyMoment _ (if _ then _ else _) m
    rw [if_pos (fresh_iff.mpr hFresh), if_neg (not_not.mpr hCid)]
    refine safe_takeCompletion (P := Wired c) ?_ hm.1.toWired (fun _ hm => hm)
      (fun _ _ _ _ => trivial) ?_ ?_
    · exact fun m b m' hm hStep => hm.device hStep
    · exact fun m v hm => { hm with maps := hm.maps.congr rfl rfl }
    · exact fun m' hm' => .inr ⟨hOk, hm'.head_ne⟩

/-- What `channel` does with the result of the wait. -/
def Channel.conclude (h : Channel) (r : Request) (result : Bool × ControllerData) :
    Admin Channel :=
  .pure (h.record r result.1 result.2)

/-- The controller data of a call while it waits. -/
def Channel.waiting (h : Channel) : ControllerData :=
  advanceAdminSq { h.ctrl with adminCmdId := h.ctrl.adminCmdId + 1 }

/-- Storing a command and ringing the doorbell. -/
def Channel.enter (h : Channel) (r : Request) : Admin Unit :=
  .op (.writeSqe h.ctrl.adminSqVirtAddr h.ctrl.adminSqTail
    (r.entry h.ctrl h.ctrl.adminCmdId)) fun _ =>
      .op (.regWrite nvmeDoorbellBase h.waiting.adminSqTail.toUInt32) fun _ => .pure ()

theorem enter_eq (hIdle : InStep h m) (r : Request) :
    (submitCommand { h.ctrl with adminCmdId := h.ctrl.adminCmdId + 1 }
      (r.entry h.ctrl h.ctrl.adminCmdId) >>= fun _ => .pure ()) = h.enter r :=
  submitCommand_eq (c := { h.ctrl with adminCmdId := h.ctrl.adminCmdId + 1 }) hIdle.bar0
    hIdle.sqDb

-- The wait is a variable here because it must not be unfolded.
private theorem submit_then_eq (hIdle : InStep h m) (r : Request)
    (wait : ControllerData → Admin (Bool × ControllerData)) :
    ((submitCommand { h.ctrl with adminCmdId := h.ctrl.adminCmdId + 1 }
        (r.entry h.ctrl h.ctrl.adminCmdId) >>= fun submitted =>
          if !submitted.1 then .pure (false, submitted.2) else wait submitted.2) >>=
        h.conclude r) =
      h.enter r >>= fun _ => wait h.waiting >>= h.conclude r := by
  have hBar0 : ({ h.ctrl with adminCmdId := h.ctrl.adminCmdId + 1 } :
      ControllerData).bar0Virt ≠ 0 := hIdle.bar0
  rw [submitCommand_eq hBar0 hIdle.sqDb]
  rfl

/-- A call is two stores and a wait. -/
theorem channel_eq (hIdle : InStep h m) (r : Request) :
    channel h r = some (h.enter r >>= fun _ =>
      waitAdminCompletionLoop h.waiting h.ctrl.adminCmdId nvmeAdminCmdTimeoutMs.toNat >>=
        h.conclude r) := by
  rw [← submit_then_eq hIdle r fun c =>
    waitAdminCompletionLoop c h.ctrl.adminCmdId nvmeAdminCmdTimeoutMs.toNat]
  unfold channel issue
  dsimp only
  rw [Request.submit_eq, Request.entry_next]
  rfl

theorem avoids_takeCompletion (cqe : NvmeCqEntry) :
    (takeCompletion c cqe).Avoids fun e => Polling (some e) := by
  refine Prog.Avoids.bind ?_ fun written => ?_
  · unfold controllerRegWrite32
    split <;> exact ⟨nofun, fun _ => trivial⟩
  · cases written with
    | false => trivial
    | true =>
        show Prog.Avoids _ (if _ then _ else _)
        split
        · exact ⟨nofun, fun _ => trivial⟩
        · trivial

/-- Programs that do not poll. -/
theorem polled_of_not {p : Admin Channel} (hNext : ∀ e, p.next = some e → ¬ Polling (some e)) :
    Polled h p m := by
  rintro ⟨virt, slot, hPoll⟩
  exact absurd ⟨virt, slot, rfl⟩ (hNext _ hPoll)

private theorem always_wait {r : Request} {left : Nat}
    (hTrack : Track h.waiting h.issued (some (r.entry h.ctrl h.ctrl.adminCmdId)) m) :
    Always hardware AnyEffect (Polled h)
      (waitAdminCompletionLoop h.waiting h.ctrl.adminCmdId left >>= h.conclude r) m := by
  induction left generalizing m with
  | zero =>
      refine Always.of_avoids (fun e => Polling (some e)) (fun _ _ => polled_of_not) ?_
      exact ⟨nofun, fun _ => trivial⟩
  | succ left ih =>
      refine Always.op Track.stable hTrack (fun m hm _ accepted hOwn => ?_)
        fun m a cqe m' hm _ hEff => ?_
      · refine (r.cid_entry h.ctrl h.ctrl.adminCmdId ▸ safe_waitPosted hm hOwn :
          Safe hardware AnyEffect AnyMoment _ _ m).bind fun result m' hDone => ?_
        refine Safe.pure (P := fun m => Late h.issued m ∨
          result.1 = accepted ∧ result.2.adminCqHead ≠ h.waiting.adminCqHead) ?_ hDone
          (fun _ _ => trivial) fun m hm => ?_
        · exact fun m b m' hm hStep => hm.imp_left fun hLate => hLate.device hStep
        · refine hm.imp_right fun hTaken => ?_
          have hMoved : result.2.adminCqHead ≠ h.ctrl.adminCqHead := hTaken.2
          exact ⟨⟨r.entry h.ctrl h.ctrl.adminCmdId, result.1,
            decide (result.2.adminCqHead ≠ h.ctrl.adminCqHead)⟩, rfl,
            decide_eq_true hMoved, hTaken.1⟩
      · obtain ⟨-, rfl⟩ := Hardware.effect_cases (a := a) (e := .readCqe _ _) hEff
        show Always hardware AnyEffect (Polled h)
          ((if cqe.psf &&& nvmeCqePhaseMask = h.waiting.adminCqPhase.toUInt16 then _ else _) >>=
            h.conclude r) m'
        split
        · refine Always.of_avoids (fun e => Polling (some e)) (fun _ _ => polled_of_not) ?_
          split
          · exact ⟨nofun, fun _ => trivial⟩
          · exact (avoids_takeCompletion cqe).bind fun _ => trivial
        · exact ih hm

theorem always_channel {r : Request} {p : Admin Channel} (hIdle : InStep h m)
    (hProg : channel h r = some p) : Always hardware AnyEffect (Polled h) p m := by
  rw [channel_eq hIdle] at hProg
  obtain rfl := Option.some.inj hProg
  have hNext : Track { h.ctrl with adminCmdId := h.ctrl.adminCmdId + 1 } h.issued none m :=
    { hIdle with state := hIdle.state.imp_right fun hFollow => { hFollow with } }
  have hEnter : Safe hardware AnyEffect AnyMoment
      (fun _ m => Track h.waiting h.issued (some (r.entry h.ctrl h.ctrl.adminCmdId)) m)
      (h.enter r) m := by
    rw [← enter_eq hIdle]
    refine safe_submitCommand
      (P := Track { h.ctrl with adminCmdId := h.ctrl.adminCmdId + 1 } h.issued none)
      Track.stable hNext (fun _ hm => hm.toWired) (fun _ _ _ _ => trivial) ?_ fun m hm _ => ?_
    · exact fun m hm =>
        hm.congr { hm.toWired with maps := hm.maps.congr rfl rfl } rfl rfl rfl
    · exact Safe.pure Track.stable (hm.send _) (fun _ _ => trivial) fun _ hm => hm
  exact Always.bind (fun e => Polling (some e)) (fun _ _ => polled_of_not)
    ⟨nofun, fun _ => ⟨nofun, fun _ => trivial⟩⟩ hEnter fun _ m hm => always_wait hm

end Waits

/-! ## Runs in which no completion comes late -/

/-- A call under way: how it will end. -/
structure CallUnderway (h : Channel) (p : Admin Channel) (m : Hardware) : Prop where
  safe : Safe hardware AnyEffect AnyMoment (Recorded h) p m
  polled : Always hardware AnyEffect (Polled h) p m
  took : ∀ accepted, OwnPosted h m accepted →
    Safe hardware AnyEffect AnyMoment (Took h accepted) p m

structure OnTime (s : Calls Effect Effect.Result Channel Hardware) : Prop where
  clean : ¬ Late s.host.issued s.machine
  idle : s.running = none → InStep s.host s.machine
  busy : ∀ p, s.running = some p → CallUnderway s.host p s.machine

section Steps

variable {m m' : Hardware} {h h' : Channel} {p : Admin Channel}

/-- No command is under way yet. -/
theorem CallUnderway.call {r : Request} (hIdle : InStep h m) (hProg : channel h r = some p) :
    CallUnderway h p m where
  safe := by
    refine (safe_channel (tolerates_any h.issued) hIdle hProg).mono fun h' m' hDone => ?_
    obtain ⟨hStep, x, hIssued, -⟩ := hDone
    exact ⟨hStep, x, hIssued⟩
  polled := always_channel hIdle hProg
  took := by
    intro accepted hOwn
    obtain ⟨s, hs, -⟩ := hOwn
    have hCount : m.sent.length = h.issued.length := hIdle.count
    rw [List.getElem?_eq_none (Nat.le_of_eq hCount)] at hs
    cases hs

theorem CallUnderway.effect {e : Effect} {k : e.Result → Admin Channel} {a : Answer}
    {r : e.Result} (hBusy : CallUnderway h (.op e k) m) (hEff : m.effect e a = some (r, m')) :
    CallUnderway h (k r) m' where
  safe := (hBusy.safe m .refl).2 a r m' trivial hEff
  polled := (hBusy.polled m .refl).2 a r m' trivial hEff
  took := by
    intro accepted hOwn
    obtain ⟨s, hs, hProgress⟩ := hOwn
    have hBefore := effect_completed hEff hs ⟨_, hProgress⟩
    exact (hBusy.took accepted ⟨s, hBefore, hProgress⟩ m .refl).2 a r m' trivial hEff

theorem CallUnderway.device {b : DeviceAct} (hBusy : CallUnderway h p m)
    (hStep : m.device b = some m')
    (hPoll : ∀ sqhd status, b = .post h.issued.length sqhd status → Polling p.next) :
    CallUnderway h p m' := by
  have hReach : hardware.Reach m m' := .single ⟨b, hStep⟩
  refine ⟨hBusy.safe.reach hReach, hBusy.polled.reach hReach, fun accepted hOwn => ?_⟩
  obtain ⟨s, hs, hProgress⟩ := hOwn
  rcases device_newly hStep hs ⟨_, hProgress⟩ with hBefore | ⟨sqhd, status, hPost⟩
  · exact (hBusy.took accepted ⟨s, hBefore, hProgress⟩).reach hReach
  · exact (hBusy.polled.reach hReach).now (hPoll sqhd status hPost) accepted ⟨s, hs, hProgress⟩

/-- A wait that returns has taken the completion of its command if that was posted. -/
theorem CallUnderway.clean (hBusy : CallUnderway h (.pure h') m) (hClean : ¬ Late h.issued m) :
    ¬ Late h'.issued m := by
  obtain ⟨-, x, hIssued⟩ := (hBusy.safe m .refl).2
  rintro ⟨i, y, s, hy, hTaken, hs, accepted, hProgress⟩
  rw [hIssued] at hy
  rcases getElem?_concat_cases hy with hy | ⟨rfl, rfl⟩
  · exact hClean ⟨i, y, s, hy, hTaken, hs, accepted, hProgress⟩
  · rcases (hBusy.took accepted ⟨s, hs, hProgress⟩ m .refl).2 with hLate | ⟨z, hz, hTook, -⟩
    · exact hClean hLate
    · rw [hIssued, List.append_cancel_left_eq, List.singleton_inj] at hz
      rw [hz, hTook] at hTaken
      cases hTaken

theorem OnTime.step {s s' : Calls Effect Effect.Result Channel Hardware}
    {a : Act Request Answer DeviceAct} (hTime : OnTime s) (hOk : InTime s a)
    (hStep : Calls.step hardware channel s a = some s') : OnTime s' := by
  cases Calls.step_cases hStep with
  | call hProg =>
      refine ⟨hTime.clean, nofun, fun p' hp' => ?_⟩
      obtain rfl := Option.some.inj hp'
      exact CallUnderway.call (hTime.idle rfl) hProg
  | effect hEff =>
      refine ⟨?_, nofun, fun p' hp' => ?_⟩
      · rintro ⟨i, x, s, hx, hTaken, hs, hDone⟩
        exact hTime.clean ⟨i, x, s, hx, hTaken, effect_completed hEff hs hDone, hDone⟩
      · obtain rfl := Option.some.inj hp'
        exact (hTime.busy _ rfl).effect hEff
  | ret =>
      exact ⟨(hTime.busy _ rfl).clean hTime.clean,
        fun _ => ((hTime.busy _ rfl).safe _ .refl).2.1, nofun⟩
  | @env running host machine m' b hEnv =>
      have hDevice : machine.device b = some m' := hEnv
      refine ⟨?_, fun hNone => (hTime.idle hNone).device hDevice, fun p hp => ?_⟩
      · rintro ⟨i, x, s, hx, hTaken, hs, hDone⟩
        rcases device_newly hDevice hs hDone with hBefore | ⟨sqhd, status, rfl⟩
        · exact hTime.clean ⟨i, x, s, hx, hTaken, hBefore, hDone⟩
        · have hOwn : i = host.issued.length := hOk.1
          have hLt : i < host.issued.length := (List.getElem?_eq_some_iff.mp hx).1
          omega
      · refine (hTime.busy p hp).device hDevice fun sqhd status hPost => ?_
        subst hPost
        have hPoll : Polling (running.bind Prog.next) := hOk.2
        rw [show running = some p from hp] at hPoll
        exact hPoll

end Steps

/-- The call that was under way in `h` has ended as it should, or will. -/
def Concludes (h : Channel) (s : Calls Effect Effect.Result Channel Hardware) : Prop :=
  (s.host = h ∧ ∃ p, s.running = some p ∧
    Safe hardware AnyEffect AnyMoment (Took h true) p s.machine) ∨
  ∃ x, s.host.issued[h.issued.length]? = some x ∧ x.ok = true

theorem Concludes.step {h : Channel} {s s' : Calls Effect Effect.Result Channel Hardware}
    {a : Act Request Answer DeviceAct} (hDone : Concludes h s) (hTime : OnTime s)
    (hStep : Calls.step hardware channel s a = some s') : Concludes h s' := by
  cases Calls.step_cases hStep with
  | call hProg =>
      rcases hDone with ⟨-, p', hp', -⟩ | hDone
      · cases hp'
      · exact .inr hDone
  | effect hEff =>
      rcases hDone with ⟨hHost, p, hp, hSafe⟩ | hDone
      · obtain rfl := Option.some.inj hp
        exact .inl ⟨hHost, _, rfl, (hSafe _ .refl).2 _ _ _ trivial hEff⟩
      · exact .inr hDone
  | ret =>
      right
      rcases hDone with ⟨rfl, p, hp, hSafe⟩ | ⟨x, hx, hOk⟩
      · obtain rfl := Option.some.inj hp
        rcases (hSafe _ .refl).2 with hLate | ⟨x, hIssued, -, hOk⟩
        · exact absurd hLate hTime.clean
        · refine ⟨x, ?_, hOk⟩
          rw [hIssued, List.getElem?_concat_length]
      · obtain ⟨-, y, hIssued⟩ := ((hTime.busy _ rfl).safe _ .refl).2
        refine ⟨x, ?_, hOk⟩
        rw [hIssued]
        exact getElem?_concat_of_some hx y
  | env hEnv =>
      rcases hDone with ⟨hHost, p, hp, hSafe⟩ | hDone
      · exact .inl ⟨hHost, p, hp, hSafe.reach (.single ⟨_, hEnv⟩)⟩
      · exact .inr hDone

/-- Every effect has a result. -/
theorem hardware_total (m : Hardware) (e : Effect) :
    ∃ a r m', hardware.eff m e a = some (r, m') := by
  cases e with
  | bar0Map => exact ⟨.address 0, _, m, rfl⟩
  | bar0Unmap => exact ⟨.success true, _, m, rfl⟩
  | dmaOpen => exact ⟨.descriptor 0, _, m, rfl⟩
  | regRead offset =>
      have hReadable : ∃ v, m.Readable offset v := by
        unfold Hardware.Readable
        repeat' split
        · exact ⟨_, rfl⟩
        · exact ⟨_, rfl⟩
        · exact ⟨_, .inl rfl⟩
        · exact ⟨0, trivial⟩
      obtain ⟨v, hv⟩ := hReadable
      exact ⟨.word v, v, _, if_pos hv⟩
  | allocDma fd size =>
      have hNothing : m.Allocatable {} := .inl rfl
      refine ⟨.memory {}, {}, m.alloc {}, ?_⟩
      exact if_pos (e := none) hNothing
  | readData mem => exact ⟨.bytes fun _ => 0, _, m, rfl⟩
  | _ => exact ⟨.done, _, _, rfl⟩

/-- Between commands the head has followed the controller, and a command completed in
time makes its wait return true. -/
theorem OnTime.unwedged {s₀ : Calls Effect Effect.Result Channel Hardware}
    (hInit : OnTime s₀) : Unwedged InTime s₀ := by
  intro acts s hRun
  have hTime : OnTime s := hRun.invariant hInit fun _ _ _ => OnTime.step
  refine ⟨fun hNone => ?_, fun hPoll hOwn => ?_⟩
  · rcases (hTime.idle hNone).state with hLate | hFollow
    · exact absurd hLate hTime.clean
    · rw [hFollow.head, hFollow.idle rfl]
  obtain ⟨virt, slot, hNext⟩ := hPoll
  obtain ⟨p, hp, -⟩ := Option.bind_eq_some_iff.mp hNext
  have hStart : Concludes s.host s := .inl ⟨rfl, p, hp, (hTime.busy p hp).took true hOwn⟩
  have hLater : ∀ rest s', Run (Calls.step hardware channel) InTime s rest s' →
      Concludes s.host s' := by
    intro rest s' hRest
    have hBoth : OnTime s' ∧ Concludes s.host s' :=
      hRest.invariant (I := fun s' => OnTime s' ∧ Concludes s.host s') ⟨hTime, hStart⟩
        fun _ _ _ hs hOk hStep => ⟨hs.1.step hOk hStep, hs.2.step hs.1 hStep⟩
    exact hBoth.2
  constructor
  · have hFrom : Run (Calls.step hardware channel) InTime s [] s := Run.nil
    obtain ⟨rest, s', hRest, hNone⟩ := Calls.finish hardware_total
      (fun _ _ => trivial) (fun _ => trivial) hFrom hp
    refine ⟨rest, s', hRest, ?_⟩
    rcases hLater rest s' hRest with ⟨-, p', hp', -⟩ | ⟨x, hx, -⟩
    · rw [hNone] at hp'
      cases hp'
    · exact (List.getElem?_eq_some_iff.mp hx).1
  · intro rest s' hRest x hx
    rcases hLater rest s' hRest with ⟨hHost, -⟩ | ⟨y, hy, hOk⟩
    · rw [hHost, List.getElem?_eq_none (Nat.le_refl _)] at hx
      cases hx
    · obtain rfl := Option.some.inj (hx.symm.trans hy)
      exact hOk

section GivingUp

variable {ok : Calls Effect Effect.Result Channel Hardware →
    Act Request Answer DeviceAct → Prop}
  {s₀ : Calls Effect Effect.Result Channel Hardware} {m : Hardware} {h : Channel}

/-- The steps of a call whose command is not completed. -/
def givesUp (r : Request) : List (Act Request Answer DeviceAct) :=
  [.call r, .effect .done, .effect .done] ++
    List.replicate nvmeAdminCmdTimeoutMs.toNat (.effect .done) ++ [.effect .done, .ret]

/-- What the controller has then. -/
def Channel.sent (h : Channel) (r : Request) (m : Hardware) : Hardware :=
  (m.putSqe h.ctrl.adminSqVirtAddr h.ctrl.adminSqTail.toNat
    (r.entry h.ctrl h.ctrl.adminCmdId)).send (r.entry h.ctrl h.ctrl.adminCmdId)

/-- Polling while there is nothing new. -/
private theorem run_polls {c : ControllerData} {cmdId : UInt16}
    {f : Bool × ControllerData → Admin Channel} {acts : List (Act Request Answer DeviceAct)}
    (hOk : ∀ s, ok s (.effect .done)) (hStale : ¬ Fresh c m) (left : Nat)
    (hRun : Run (Calls.step hardware channel) ok s₀ acts
      { running := some (waitAdminCompletionLoop c cmdId left >>= f), host := h, machine := m }) :
    Run (Calls.step hardware channel) ok s₀ (acts ++ List.replicate left (.effect .done))
      { running := some (waitAdminCompletionLoop c cmdId 0 >>= f), host := h, machine := m } := by
  induction left generalizing acts with
  | zero => simpa using hRun
  | succ left ih =>
      rw [List.replicate_succ, List.append_cons]
      refine ih (hRun.snoc (hOk _) ?_)
      have hEntry : (m.cqe c.adminCqVirtAddr c.adminCqHead.toNat).psf &&& nvmeCqePhaseMask ≠
          c.adminCqPhase.toUInt16 := fun hPhase => hStale (fresh_iff.mp hPhase)
      show some (Calls.mk (some ((if _ = c.adminCqPhase.toUInt16 then _ else _) >>= f)) h m) = _
      rw [if_neg hEntry]

/-- The stores of a call. -/
private theorem run_enter {r : Request} {wait : Unit → Admin Channel}
    {acts : List (Act Request Answer DeviceAct)} (hOk : ∀ s, ok s (.effect .done))
    (hIdle : InStep h m) (hRun : Run (Calls.step hardware channel) ok s₀ acts
      { running := some (h.enter r >>= wait), host := h, machine := m }) :
    Run (Calls.step hardware channel) ok s₀ (acts ++ [.effect .done] ++ [.effect .done])
      { running := some (wait ()), host := h, machine := h.sent r m } := by
  have hWired : Wired { h.ctrl with adminCmdId := h.ctrl.adminCmdId + 1 }
      (m.putSqe h.ctrl.adminSqVirtAddr h.ctrl.adminSqTail.toNat
        (r.entry h.ctrl h.ctrl.adminCmdId)) :=
    { hIdle.toWired with maps := hIdle.maps.congr rfl rfl }
  have hDoorbell := hWired.after_doorbell (r.entry h.ctrl h.ctrl.adminCmdId)
    (by simp [Hardware.putSqe])
  refine (hRun.snoc (hOk _) rfl).snoc (hOk _) ?_
  rw [Channel.sent, ← hDoorbell]
  rfl

/-- A command that has just been passed on is not completed. -/
private theorem stale_sent (hIdle : InStep h m) (hClean : ¬ Late h.issued m) (r : Request) :
    ¬ Fresh h.waiting (h.sent r m) := by
  intro hFresh
  have hBack : ∀ (j : Nat) (s : Sent), (h.sent r m).sent[j]? = some s → s.Completed →
      m.sent[j]? = some s := by
    intro j s hs hDone
    rcases Nat.lt_or_ge j m.sent.length with hLt | hGe
    · rw [Channel.sent, Hardware.send] at hs
      exact (List.getElem?_append_left hLt).symm.trans hs
    · obtain ⟨_, hDone⟩ := hDone
      rw [Channel.sent, Hardware.send] at hs
      have hNew := (List.getElem?_append_right hGe).symm.trans hs
      rw [List.mem_singleton.mp (List.mem_of_getElem? hNew)] at hDone
      cases hDone
  have hNext : Track { h.ctrl with adminCmdId := h.ctrl.adminCmdId + 1 } h.issued none m :=
    { hIdle with state := hIdle.state.imp_right fun hFollow => { hFollow with } }
  have hStored : Track { h.ctrl with adminCmdId := h.ctrl.adminCmdId + 1 } h.issued none
      (m.putSqe h.ctrl.adminSqVirtAddr h.ctrl.adminSqTail.toNat
        (r.entry h.ctrl h.ctrl.adminCmdId)) :=
    hNext.congr { hNext.toWired with maps := hNext.maps.congr rfl rfl } rfl rfl rfl
  have hTrack : Track h.waiting h.issued (some (r.entry h.ctrl h.ctrl.adminCmdId))
      (h.sent r m) := hStored.send _
  rcases hTrack.state with ⟨i, x, s, hx, hTaken, hs, hDone⟩ | hFollow
  · exact hClean ⟨i, x, s, hx, hTaken, hBack i s hs hDone, hDone⟩
  · obtain ⟨s, hs, hDone, -⟩ := hFollow.answered hFresh
    have hCount : m.sent.length = h.issued.length := hIdle.count
    have hBefore := hBack _ s hs hDone
    rw [List.getElem?_eq_none (Nat.le_of_eq hCount)] at hBefore
    cases hBefore

theorem run_givesUp (hOk : ∀ s a, (∀ b, a ≠ .env b) → ok s a) (hIdle : InStep h m)
    (hClean : ¬ Late h.issued m) (r : Request) :
    Run (Calls.step hardware channel) ok { host := h, machine := m } (givesUp r)
      { host := h.record r false h.waiting, machine := h.sent r m } := by
  have hEffect : ∀ s, ok s (.effect .done) := fun s => hOk s _ fun _ hEnv => by cases hEnv
  have hCall : Run (Calls.step hardware channel) ok { host := h, machine := m } [.call r]
      { running := some (h.enter r >>= fun _ => waitAdminCompletionLoop h.waiting
          h.ctrl.adminCmdId nvmeAdminCmdTimeoutMs.toNat >>= h.conclude r),
        host := h, machine := m } := by
    refine Run.single (hOk _ _ fun _ hEnv => (by cases hEnv)) ?_
    rw [Calls.step, channel_eq hIdle]
    rfl
  have hPolls := run_polls hEffect (stale_sent hIdle hClean r) _ (run_enter hEffect hIdle hCall)
  have hPrint : Run (Calls.step hardware channel) ok _ _
      { running := some (h.conclude r (false, h.waiting)), host := h,
        machine := h.sent r m } := hPolls.snoc (hEffect _) rfl
  have hRet := hPrint.snoc (hOk _ .ret fun _ hEnv => (by cases hEnv)) rfl
  simpa only [givesUp, List.append_assoc, List.cons_append, List.nil_append] using hRet

end GivingUp

/-- After an Identify command that ran into its timeout. -/
def afterTimeout (c : ControllerData) (m : Hardware) :
    Calls Effect Effect.Result Channel Hardware :=
  { host := Channel.record { ctrl := c } (.identify 0x40000) false
      (Channel.waiting { ctrl := c })
    machine := Channel.sent { ctrl := c } (.identify 0x40000) m }

/-- A Delete command is submitted, executed and completed. -/
def nextRequest : List (Act Request Answer DeviceAct) :=
  [.call (.admin nvmeAdminDeleteIoSqOpcode 0 0 7 0), .effect .done, .effect .done,
    .env (.execute 1 true), .env (.post 1 2 0)]

/-- The Identify command is completed after all. -/
def lateCompletion : List (Act Request Answer DeviceAct) :=
  [.env (.execute 0 true), .env (.post 0 1 0)]

def polling : Option Effect → Bool
  | some (.readCqe _ _) => true
  | _ => false

theorem polling_iff {e : Option Effect} : polling e = true ↔ Polling e := by
  constructor
  · intro h
    unfold polling at h
    split at h
    · exact ⟨_, _, rfl⟩
    · cases h
  · rintro ⟨virt, slot, rfl⟩
    rfl

/-- The state after `acts`, if the host then polls and its command is completed. -/
def answerable (acts : List (Act Request Answer DeviceAct)) (c : ControllerData)
    (m : Hardware) (test : Calls Effect Effect.Result Channel Hardware →
      Act Request Answer DeviceAct → Bool) :
    Option (Calls Effect Effect.Result Channel Hardware) :=
  (exec (Calls.step hardware channel) test (afterTimeout c m) acts).filter fun s =>
    polling s.next && decide (s.host.issued.map Issued.taken = [false]) &&
      decide ((s.machine.sent[s.host.issued.length]?.map Sent.progress) = some (.posted true))

private theorem answerable_spec {acts : List (Act Request Answer DeviceAct)}
    {c : ControllerData} {m : Hardware} {test : Calls Effect Effect.Result Channel Hardware →
      Act Request Answer DeviceAct → Bool} {s : Calls Effect Effect.Result Channel Hardware}
    (h : answerable acts c m test = some s) :
    exec (Calls.step hardware channel) test (afterTimeout c m) acts = some s ∧
      Polling s.next ∧ s.host.issued.map Issued.taken = [false] ∧
      OwnPosted s.host s.machine true := by
  obtain ⟨hExec, hAll⟩ := Option.filter_eq_some_iff.mp h
  simp only [Bool.and_eq_true, decide_eq_true_eq, Option.map_eq_some_iff] at hAll
  obtain ⟨⟨hPoll, hTaken⟩, t, ht, hProgress⟩ := hAll
  exact ⟨hExec, polling_iff.mp hPoll, hTaken, t, ht, hProgress⟩

/-- The first command after a successful `controller_init` runs into its timeout. -/
private theorem run_afterTimeout {ok : Calls Effect Effect.Result Channel Hardware →
      Act Request Answer DeviceAct → Prop} {c : ControllerData} {m : Hardware}
    (hOk : ∀ s a, (∀ b, a ≠ .env b) → ok s a) (hInit : smallInit = some ((true, c), m)) :
    Run (Calls.step hardware channel) ok { host := { ctrl := c }, machine := m }
      (givesUp (.identify 0x40000)) (afterTimeout c m) := by
  have hPost := (safe_controllerInit (down_adminStart 5 0 0 1 smallCap 0)).of_returns
    (returns_smallInit hInit)
  rw [InitPost, if_pos rfl] at hPost
  obtain ⟨hUp, hUntouched, -⟩ := hPost
  refine run_givesUp hOk (InStep.init hUp hUntouched) ?_ _
  rintro ⟨i, x, s, hx, -⟩
  cases hx

end NewPerf.Tools
