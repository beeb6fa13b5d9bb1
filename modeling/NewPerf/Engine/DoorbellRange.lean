import NewPerf.Engine.QueueLifetime
import NewPerf.Tools.Doorbells

/-!
# Doorbells and the mapping of BAR0

The doorbells are stored through a fixed mapping of 16 KiB, and nothing compares the
offsets with its size.  `doorbellsOk_iff` says for which CAP and which queue ids in use
the doorbells of a controller and of all threads attached to it are where the standard
puts them and inside the mapping, over every run that starts with a successful
`controller_init`.
-/

namespace NewPerf.Engine.QueueLifetime

open NewPerf.Lib.Programs
open NewPerf.Lib.Runs
open NewPerf.Tools
open NewPerf.Engine.Jobs (JobOptions)

variable {ι : Type}

/-- The host rings this doorbell of queue `qid`, of its completion queue if `cq`. -/
inductive Rung (c : ControllerData) (threads : ι → Option NvmeData) :
    Nat → Bool → UInt32 → Prop where
  | adminSq : Rung c threads 0 false c.adminSqTailDb
  | adminCq : Rung c threads 0 true c.adminCqHeadDb
  | ioSq {j : ι} {n : NvmeData} (hj : threads j = some n) :
      Rung c threads (nvmeIoQid n).toNat false n.ioSqTailDb
  | ioCq {j : ι} {n : NvmeData} (hj : threads j = some n) :
      Rung c threads (nvmeIoQid n).toNat true n.ioCqHeadDb

/-- What is asked of the doorbells in use. -/
structure DoorbellsOk (cap : UInt64) (c : ControllerData) (threads : ι → Option NvmeData) :
    Prop where
  aligned : ∀ qid cq off, Rung c threads qid cq off → off.toNat % 4 = 0
  inside : ∀ qid cq off, Rung c threads qid cq off →
    0x1000 ≤ off.toNat ∧ off.toNat + 4 ≤ nvmeBar0MapSize
  standard : ∀ qid cq off, Rung c threads qid cq off →
    off.toNat = doorbellOffset cap qid cq
  distinct : ∀ qid cq off qid' cq' off', Rung c threads qid cq off →
    Rung c threads qid' cq' off' → (qid, cq) ≠ (qid', cq') → off ≠ off'

/-! ## One state -/

/-- The fields hold what CAP and the queue ids say, computed in 32 bits. -/
structure HostDoorbells (cap : UInt64) (h : Host ι) : Prop where
  admin : ∀ c, h.gCtrl = some c → AdminDoorbells cap c
  io : ∀ j n, h.ioOpsData j = some n → IoDoorbells cap n

section State

variable {cap : UInt64} {c : ControllerData} {threads : ι → Option NvmeData}

theorem doorbellStride_pos (cap : UInt64) : 4 ∣ doorbellStride cap ∧ 0 < doorbellStride cap :=
  ⟨⟨_, rfl⟩, Nat.mul_pos (by decide) (Nat.pow_pos (by decide))⟩

private theorem Rung.toNat {qid : Nat} {cq : Bool} {off : UInt32}
    (hAdmin : AdminDoorbells cap c) (hIo : ∀ j n, threads j = some n → IoDoorbells cap n)
    (h : Rung c threads qid cq off) : off.toNat = doorbellOffset cap qid cq % 2 ^ 32 := by
  cases h with
  | adminSq =>
      rw [hAdmin.1]
      simp [adminSqTailDoorbell, nvmeDoorbellBase, doorbellOffset]
  | adminCq => rw [hAdmin.2, toNat_adminCqHeadDoorbell]
  | ioSq hj => rw [(hIo _ _ hj).1, toNat_ioSqTailDoorbell]
  | ioCq hj => rw [(hIo _ _ hj).2, toNat_ioCqHeadDoorbell]

private theorem Rung.offset_le {qid : Nat} (cq : Bool) (hIn : InBar0 cap qid) :
    doorbellOffset cap qid cq + 4 ≤ nvmeBar0MapSize := by
  have hLe : (2 * qid + cq.toNat) * doorbellStride cap ≤
      (2 * qid + 1) * doorbellStride cap :=
    Nat.mul_le_mul_right _ (by have := Bool.toNat_le cq; omega)
  unfold InBar0 at hIn
  unfold doorbellOffset
  omega

/-- Different doorbells have different offsets. -/
theorem doorbellOffset_inj {qid qid' : Nat} {cq cq' : Bool}
    (h : doorbellOffset cap qid cq = doorbellOffset cap qid' cq') : (qid, cq) = (qid', cq') := by
  have hIndex : 2 * qid + cq.toNat = 2 * qid' + cq'.toNat := by
    refine Nat.eq_of_mul_eq_mul_right (doorbellStride_pos cap).2 ?_
    unfold doorbellOffset at h
    omega
  cases cq <;> cases cq' <;> simp only [Bool.toNat_true, Bool.toNat_false] at hIndex <;>
    simp only [Prod.mk.injEq, reduceCtorEq, and_true, and_false] <;> omega

theorem doorbellsOk_of_fields (hAdmin : AdminDoorbells cap c)
    (hIo : ∀ j n, threads j = some n → IoDoorbells cap n) :
    DoorbellsOk cap c threads ↔
      InBar0 cap 0 ∧ ∀ j n, threads j = some n → InBar0 cap (nvmeIoQid n).toNat := by
  constructor
  · intro h
    have hIn : ∀ qid off, Rung c threads qid true off → InBar0 cap qid := by
      intro qid off hRung
      have hInside := (h.inside qid true off hRung).2
      rwa [h.standard qid true off hRung] at hInside
    exact ⟨hIn _ _ .adminCq, fun j n hj => hIn _ _ (.ioCq hj)⟩
  · rintro ⟨hZero, hThreads⟩
    have hIn : ∀ qid cq off, Rung c threads qid cq off → InBar0 cap qid := by
      intro qid cq off hRung
      cases hRung with
      | adminSq => exact hZero
      | adminCq => exact hZero
      | ioSq hj => exact hThreads _ _ hj
      | ioCq hj => exact hThreads _ _ hj
    -- Inside the mapping nothing wraps.
    have hEq : ∀ qid cq off, Rung c threads qid cq off →
        off.toNat = doorbellOffset cap qid cq := by
      intro qid cq off hRung
      have hLe : doorbellOffset cap qid cq + 4 ≤ nvmeBar0MapSize :=
        Rung.offset_le cq (hIn qid cq off hRung)
      rw [hRung.toNat hAdmin hIo, Nat.mod_eq_of_lt]
      exact Nat.lt_of_lt_of_le (show _ < nvmeBar0MapSize by omega) (by decide)
    refine ⟨fun qid cq off hRung => ?_, fun qid cq off hRung => ?_, hEq,
      fun qid cq off qid' cq' off' hRung hRung' hne hSame => ?_⟩
    · obtain ⟨k, hk⟩ := (doorbellStride_pos cap).1
      rw [hEq qid cq off hRung, doorbellOffset, hk, Nat.mul_left_comm]
      omega
    · have hLe := Rung.offset_le cq (hIn qid cq off hRung)
      rw [hEq qid cq off hRung]
      exact ⟨Nat.le_add_right _ _, hLe⟩
    · have hOffset : doorbellOffset cap qid cq = doorbellOffset cap qid' cq' := by
        rw [← hEq qid cq off hRung, ← hEq qid' cq' off' hRung', hSame]
      exact hne (doorbellOffset_inj hOffset)

end State

/-! ## The callbacks keep the fields -/

section Callbacks

variable [DecidableEq ι] {cap : UInt64} {h : Host ι} {c : ControllerData} {j : ι}
  {n : NvmeData}

omit [DecidableEq ι] in
theorem HostDoorbells.setCtrl (hHost : HostDoorbells cap h) (hc : AdminDoorbells cap c) :
    HostDoorbells cap { h with gCtrl := some c } :=
  ⟨fun _ hc' => Option.some.inj hc' ▸ hc, hHost.io⟩

theorem HostDoorbells.setData (hHost : HostDoorbells cap h)
    (hn : IoDoorbells cap n) : HostDoorbells cap (h.setData j (some n)) := by
  refine ⟨hHost.admin, fun k n' hk => ?_⟩
  rcases of_update_some hk with ⟨_, rfl⟩ | ⟨_, hk⟩
  · exact hn
  · exact hHost.io k n' hk

theorem HostDoorbells.leave (hHost : HostDoorbells cap h) :
    HostDoorbells cap (h.dropThread.setData j none) := by
  refine ⟨fun c hc => hHost.admin c (h.dropThread_gCtrl c hc), fun k n' hk => ?_⟩
  rw [Host.setData, Host.dropThread_ioOpsData] at hk
  exact hHost.io k n' (of_update_none hk).2

private theorem ensures_nvmeInit {o : JobOptions} {alloc : Bool}
    (hHost : HostDoorbells cap h) (hc : AdminDoorbells cap c) :
    (nvmeInit o h c j alloc).Ensures (CapAnswer cap) (HostDoorbells cap) := by
  unfold nvmeInit
  split
  · exact hHost
  split
  · exact hHost
  split
  · exact hHost
  refine (ensures_createIoQueuePair hc _).bind fun ⟨created, c, n⟩ hDone => ?_
  have hCounted : HostDoorbells cap
      { h with
        gCtrl := some c
        nextIoQid := h.nextIoQid + 1
        currThreadNum := h.currThreadNum + 1 } :=
    ⟨(hHost.setCtrl hDone.1).admin, hHost.io⟩
  cases created with
  | false => exact hCounted.leave
  | true => exact hCounted.setData (hDone.2 rfl)

theorem ensures_callback {opts : ι → JobOptions} {cb : Callback ι} {p : Admin (Host ι)}
    (hHost : HostDoorbells cap h) (hProg : callback opts h cb = some p) :
    p.Ensures (CapAnswer cap) (HostDoorbells cap) := by
  cases callback_cases hProg with
  | init hCtrl hFree => exact ensures_nvmeInit hHost (hHost.admin _ hCtrl)
  | @cleanup c j n hCtrl hThread =>
      refine (ensures_deleteIoQueuePair (hHost.admin c hCtrl) n).bind fun ⟨_, c, _⟩ hc => ?_
      exact (hHost.setCtrl hc).leave
  | size hCtrl =>
      exact (ensures_fileSize (hHost.admin _ hCtrl)).bind fun ⟨_, c⟩ hc => hHost.setCtrl hc
  | @alloc c j n totalSz hCtrl hThread =>
      refine (ensures_allocDma (hHost.admin c hCtrl) _ _).bind
        fun ⟨allocated, c, mem⟩ hc => ?_
      cases allocated with
      | false => exact hHost.setCtrl hc
      | true =>
          have hn : IoDoorbells cap { n with
              ioUDataPhysAddr := mem.dmaAddr
              ioUDataVirtAddr := mem.userVirtaddr
              ioUDataMem := mem } := hHost.io j n hThread
          exact (hHost.setCtrl hc).setData hn
  | @free c j n hCtrl hThread =>
      refine (ensures_any _).bind fun mem _ => ?_
      have hn : IoDoorbells cap { n with ioUDataMem := mem } := hHost.io j n hThread
      exact hHost.setData hn

theorem inductive_doorbells (opts : ι → JobOptions) (cap : UInt64) :
    Calls.Inductive hardware (fun _ _ => True) (fun _ _ => True) (callback opts)
      (fun h (m : Hardware) => m.cap = cap ∧ HostDoorbells cap h) where
  stable _ _ _ _ hIdle hStep := ⟨(Hardware.device_cap hStep).trans hIdle.1, hIdle.2⟩
  spec_none _ _ _ := trivial
  safe _ _ _ _ hIdle hProg := safe_of_ensures (ensures_callback hIdle.2 hProg) hIdle.1

end Callbacks

/-! ## Runs -/

variable [DecidableEq ι]

/-- Whatever the hardware does and whatever the callbacks were, while none is running:
the doorbells of the controller and of the threads attached to it are in order exactly
when queue 0 and every queue id in use have their doorbells inside the mapping. -/
theorem doorbellsOk_iff {opts : ι → JobOptions} {c₀ c c' : ControllerData}
    {m₀ m : Hardware} {acts : List (Act (Callback ι) Answer DeviceAct)}
    {s : Calls Effect Effect.Result (Host ι) Hardware}
    (hInit : Returns hardware (fun _ _ => True) (controllerInit c₀) m₀ (true, c) m)
    (hRun : Run (Calls.step hardware (callback opts)) (fun _ _ => True) (start c m) acts s)
    (hIdle : s.running = none) (hCtrl : s.host.gCtrl = some c') :
    DoorbellsOk m₀.cap c' s.host.ioOpsData ↔
      InBar0 m₀.cap 0 ∧
        ∀ j n, s.host.ioOpsData j = some n → InBar0 m₀.cap (nvmeIoQid n).toNat := by
  obtain ⟨hCap, hAdmin, _⟩ := configured_of_controllerInit hInit
  have hStart : HostDoorbells (ι := ι) m₀.cap { gCtrl := some c } :=
    ⟨fun _ hc' => Option.some.inj hc' ▸ hAdmin, fun _ _ hj => (nomatch hj)⟩
  have hRun' : Run (Calls.step hardware (callback opts)) (Calls.stepOk fun _ _ => True)
      (start c m) acts s :=
    hRun.mono fun s a _ => by cases a <;> first | trivial | exact fun _ _ => trivial
  have hHost := (((inductive_doorbells opts m₀.cap).of_run rfl ⟨hCap, hStart⟩ hRun').2 hIdle).2
  exact doorbellsOk_of_fields (hHost.admin c' hCtrl) hHost.io

/-- `nvme_init` of the only thread, whose two commands are accepted. -/
def onlyThread (cap : UInt64) : List (Act (Callback Unit) Answer DeviceAct) :=
  [.call (.init () true), .effect (.word cap.toUInt32),
    .effect (.word (cap >>> 32).toUInt32), .effect (.memory (smallPage 0)),
    .effect (.memory (smallPage 1)), .effect (.memory (smallPage 2)), .effect .done,
    .effect .done, .effect .done] ++
  [.effect .done, .effect .done, .env (.execute 0 true), .env (.post 0 0 0), .effect .done,
    .effect .done] ++
  [.effect .done, .effect .done, .env (.execute 1 true), .env (.post 1 0 0), .effect .done,
    .effect .done, .ret]

/-- `controller_init`, then `nvme_init` of the only thread. -/
def onlyThreadRun (cap : UInt64) : Option (Calls Effect Effect.Result (Host Unit) Hardware) :=
  ((controllerInit { bus := 5, nsid := 1 }).exec hardware (fun _ _ => true) { cap }
    (initAnswers cap smallAdminSq smallAdminCq)).bind
    fun r => if r.1.1 then
      exec (Calls.step hardware (callback fun _ => {})) (fun _ _ => true)
        (start r.1.2 r.2) (onlyThread cap)
    else none

/-- The thread of `s` is attached, under id 1 and with completion queue doorbell `db`, to a
controller initialised on `cap`. -/
def OnlyThread (cap : UInt64) (db : UInt32)
    (s : Calls Effect Effect.Result (Host Unit) Hardware) (c' : ControllerData)
    (n : NvmeData) : Prop :=
  ∃ c m, Returns hardware (fun _ _ => True) (controllerInit { bus := 5, nsid := 1 })
      { cap } (true, c) m ∧
    Run (Calls.step hardware (callback fun _ => {})) (fun _ _ => True) (start c m)
      (onlyThread cap) s ∧
    s.running = none ∧ s.host.gCtrl = some c' ∧ s.host.ioOpsData () = some n ∧
    nvmeIoQid n = 1 ∧ n.ioCqHeadDb = db

private theorem onlyThread_of_eval (cap : UInt64) (db : UInt32)
    (h : (onlyThreadRun cap).any (fun s => s.running.isNone && s.host.gCtrl.isSome &&
      (s.host.ioOpsData ()).any fun n => decide (nvmeIoQid n = 1 ∧ n.ioCqHeadDb = db)) =
        true) :
    ∃ s c' n, OnlyThread cap db s c' n := by
  obtain ⟨s, hRun, hState⟩ := (Option.any_eq_true _ _).mp h
  obtain ⟨⟨⟨done, c⟩, m⟩, hInit, hExec⟩ := Option.bind_eq_some_iff.mp hRun
  simp only [Bool.and_eq_true, Option.isNone_iff_eq_none] at hState
  obtain ⟨⟨hIdle, hSome⟩, hData⟩ := hState
  obtain ⟨c', hc'⟩ := Option.isSome_iff_exists.mp hSome
  obtain ⟨n, hn, hFields⟩ := (Option.any_eq_true _ _).mp hData
  cases done with
  | false => cases hExec
  | true =>
      rw [if_pos rfl] at hExec
      exact ⟨s, c', n, c, m, Returns.of_exec (fun _ _ _ => trivial) hInit,
        Run.of_exec (fun _ _ _ => trivial) hExec, hIdle, hc', hn, of_decide_eq_true hFields⟩

/-- With the narrowest stride the doorbells of the first thread are inside. -/
theorem doorbellsOk_iff_narrow :
    ∃ s c' n, OnlyThread smallCap 0x100c s c' n ∧
      DoorbellsOk smallCap c' s.host.ioOpsData := by
  obtain ⟨s, c', n, hOnly⟩ :=
    onlyThread_of_eval smallCap 0x100c (by decide +kernel)
  obtain ⟨c, m, hInit, hRun, hIdle, hCtrl, hData, hQid, _⟩ := id hOnly
  refine ⟨s, c', n, hOnly, (doorbellsOk_iff hInit hRun hIdle hCtrl).mpr ⟨by decide, ?_⟩⟩
  intro j n' hj
  obtain rfl := Option.some.inj (hj.symm.trans hData)
  rw [hQid]
  decide

/-- CAP of a controller with a stride of 4 KiB. -/
def wideCap : UInt64 := 0xa010003ff

/-- With a stride of 4 KiB the completion queue doorbell of the first thread is the first
word after the mapping. -/
theorem doorbellsOk_wide_false :
    ∃ s c' n, OnlyThread wideCap 0x4000 s c' n ∧
      ¬ DoorbellsOk wideCap c' s.host.ioOpsData := by
  obtain ⟨s, c', n, hOnly⟩ :=
    onlyThread_of_eval wideCap 0x4000 (by decide +kernel)
  obtain ⟨c, m, _, _, _, _, hData, _, hDb⟩ := id hOnly
  refine ⟨s, c', n, hOnly, fun hOk => ?_⟩
  have hInside := (hOk.inside _ _ _ (.ioCq hData)).2
  rw [hDb] at hInside
  exact absurd hInside (by decide)

end NewPerf.Engine.QueueLifetime
