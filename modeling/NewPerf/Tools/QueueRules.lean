import NewPerf.Tools.QueueProtocol
import NewPerf.Tools.IoQueue

/-!
# Creating and deleting a queue pair next to others

The programs of `IoQueue` run on a controller that other queue pairs use too, and
on which commands whose completion the host has stopped waiting for may still be
executed.  `Base` is what holds of the admin queues at any time; completions are
told apart by their command id, which is the number of the command as long as
fewer than 65536 have been submitted.  What the other users rely on is a parameter,
`Neighbours`; `Working` is the state of a call next to them.
-/

namespace NewPerf.Tools

open NewPerf.Lib.Programs

/-- The property holds at every point, whatever comes next. -/
def AlwaysBacked (_ : Option Effect) (m : Hardware) : Prop := QueuesBacked m

/-- Fewer than 65536 admin commands are issued. -/
def FewCommands (m : Hardware) : Effect → Prop
  | .regWrite offset _ => offset = nvmeDoorbellBase → m.sent.length + 1 < 65536
  | _ => True

/-- `Safe` for the property and the runs of this module. -/
abbrev SafeQueues {α : Type} (Q : α → Hardware → Prop) (p : Admin α) (m : Hardware) :
    Prop :=
  Safe hardware FewCommands AlwaysBacked Q p m

/-- An entry of the admin completion queue is still zero, or the controller wrote it
when it completed a command. -/
def EntryOk (m : Hardware) (e : NvmeCqEntry) : Prop :=
  e = {} ∨ ∃ (j : Nat) (s : Sent), m.sent[j]? = some s ∧
    s.progress = .posted (Succeeded e) ∧ s.cmd.cid = e.cid

structure Base (c : ControllerData) (m : Hardware) : Prop where
  wired : Wired c m
  backed : QueuesBacked m
  orderly : Orderly m
  cids : ∀ (j : Nat) (s : Sent), m.sent[j]? = some s → s.cmd.cid.toNat = j
  entries : ∀ k, EntryOk m (m.cqe c.adminCqVirtAddr k)
  firstPhase : m.sent = [] → c.adminCqPhase = 1

section Basics

variable {m m' : Hardware} {b : DeviceAct} {c : ControllerData} {cmd : AdminCommand}
  {mem : Mem} {i j : Nat} {s : Sent}

/-- A completed command stays as it is. -/
theorem device_completed (h : m.device b = some m') (hs : m.sent[j]? = some s)
    (hDone : s.Completed) : m'.sent[j]? = some s := by
  obtain ⟨i, t, p, ht, hMove, hSent, _⟩ := device_progress h
  have hne : i ≠ j := by
    rintro rfl
    obtain rfl : t = s := Option.some.inj (ht.symm.trans hs)
    obtain ⟨a, hPosted⟩ := hDone
    rcases hMove with ⟨hWaiting, _⟩ | ⟨_, hExecuted, _⟩
    · exact nomatch hWaiting.symm.trans hPosted
    · exact nomatch hExecuted.symm.trans hPosted
  rw [hSent, Hardware.setProgress, List.getElem?_modify_ne _ _ hne]
  exact hs

theorem device_sent_length (h : m.device b = some m') :
    m'.sent.length = m.sent.length := by
  obtain ⟨i, t, p, _, _, hSent, _⟩ := device_progress h
  rw [hSent, Hardware.setProgress, List.length_modify]

theorem EntryOk.device {e : NvmeCqEntry} (h : EntryOk m e) (hStep : m.device b = some m') :
    EntryOk m' e := by
  rcases h with hZero | ⟨j, s, hs, hPosted, hCid⟩
  · exact .inl hZero
  · exact .inr ⟨j, s, device_completed hStep hs ⟨_, hPosted⟩, hPosted, hCid⟩

/-- Entries change only when a completion is posted. -/
theorem Base.device_entries (h : Base c m) (hStep : m.device b = some m') (k : Nat) :
    EntryOk m' (m'.cqe c.adminCqVirtAddr k) := by
  have hOld := (h.entries k).device hStep
  obtain ⟨i, s, _, _, rfl⟩ | ⟨i, s, _, _, _, rfl⟩ |
    ⟨i, s, accepted, sqhd, status, hs, _, hStatus, rfl⟩ := Hardware.device_cases hStep
  · exact hOld
  · rw [Hardware.apply_eq] at hOld ⊢
    exact hOld
  · dsimp only at hOld ⊢
    rw [h.wired.virtOf_acq, Function.update_self]
    by_cases hSlot : k = m.posted.length % m.adminCqDepth
    · rw [hSlot, Function.update_self]
      refine .inr ⟨i, { s with progress := .posted accepted }, ?_, ?_, rfl⟩
      · show (m.setProgress i (.posted accepted)).sent[i]? = _
        rw [Hardware.setProgress, List.getElem?_modify_eq, hs]
        rfl
      · rw [← hStatus]
        rfl
    · rw [Function.update_of_ne hSlot]
      exact hOld

theorem Base.device (h : Base c m) (hStep : m.device b = some m') : Base c m' where
  wired := h.wired.device hStep
  backed := h.backed.device h.orderly hStep
  orderly := (h.orderly.device h.backed.attached hStep).1
  cids j s hs := by
    obtain ⟨s₀, hs₀, hCmd, _⟩ := device_back hStep hs
    rw [hCmd]
    exact h.cids j s₀ hs₀
  entries := h.device_entries hStep
  firstPhase hNil := by
    apply h.firstPhase
    rw [← List.length_eq_zero_iff, ← device_sent_length hStep, hNil]
    rfl

theorem EntryOk.congr {e : NvmeCqEntry} (h : EntryOk m e) (hSent : m'.sent = m.sent) :
    EntryOk m' e := by
  rw [EntryOk, hSent]
  exact h

theorem Base.alloc (h : Base c m) {new : Mem} (hNew : m.Allocatable new) :
    Base c (m.alloc new) := by
  have hWired : Wired c (m.alloc new) := by
    have hMaps := h.wired.maps.alloc hNew
    obtain ⟨i, j, hne, hi, hj⟩ := h.wired.live
    have hLive : ∃ i j, i ≠ j ∧ (m.alloc new).Live i c.adminSqMem ∧
        (m.alloc new).Live j c.adminCqMem := ⟨i, j, hne, hi.alloc new, hj.alloc new⟩
    unfold Hardware.alloc at hMaps hLive ⊢
    split_ifs at hMaps hLive ⊢
    · exact h.wired
    · exact { h.wired with maps := hMaps, live := hLive }
  have hSame := sameQueues_alloc m new
  have hCqe : (m.alloc new).cqe = m.cqe := by
    unfold Hardware.alloc
    split <;> rfl
  exact
    { wired := hWired
      backed := h.backed.alloc new
      orderly := h.orderly.congr hSame
      cids := by rw [hSame.sent]; exact h.cids
      entries := fun k => by
        rw [hCqe]
        exact (h.entries k).congr hSame.sent
      firstPhase := by rw [hSame.sent]; exact h.firstPhase }

theorem Base.release (h : Base c m) (hLive : m.Live i mem) (hUnnamed : Unnamed m i)
    (hSq : mem.dmaAddr ≠ c.adminSqMem.dmaAddr) (hCq : mem.dmaAddr ≠ c.adminCqMem.dmaAddr) :
    Base c (m.release mem) := by
  obtain ⟨a, b, hne, ha, hb⟩ := h.wired.live
  have hSq' : c.adminSqMem ≠ mem := fun hEq => hSq (by rw [hEq])
  have hCq' : c.adminCqMem ≠ mem := fun hEq => hCq (by rw [hEq])
  exact
    { wired := { h.wired with
        maps := h.wired.maps.release mem
        live := ⟨a, b, hne, Hardware.live_release_iff.mpr ⟨ha, hSq'⟩,
          Hardware.live_release_iff.mpr ⟨hb, hCq'⟩⟩ }
      backed := h.backed.release h.wired.maps hLive hUnnamed
      orderly := h.orderly.congr ⟨rfl, rfl, rfl, rfl⟩
      cids := h.cids
      entries := h.entries
      firstPhase := h.firstPhase }

theorem Base.zero (h : Base c m) (hVirt : mem.userVirtaddr ≠ c.adminCqVirtAddr) :
    Base c (m.zero mem) where
  wired := { h.wired with maps := h.wired.maps.congr rfl rfl }
  backed := h.backed.congr ⟨rfl, rfl, rfl, rfl⟩ fun _ _ hi _ => hi
  orderly := h.orderly.congr ⟨rfl, rfl, rfl, rfl⟩
  cids := h.cids
  entries k := by
    show EntryOk m (Function.update m.cqe mem.userVirtaddr _ c.adminCqVirtAddr k)
    rw [Function.update_of_ne hVirt.symm]
    exact h.entries k
  firstPhase := h.firstPhase

theorem Base.putSqe (h : Base c m) (virt : UInt64) (slot : Nat) (cmd : AdminCommand) :
    Base c (m.putSqe virt slot cmd) :=
  { h with
    wired := { h.wired with maps := h.wired.maps.congr rfl rfl }
    backed := h.backed.congr ⟨rfl, rfl, rfl, rfl⟩ fun _ _ hi _ => hi
    orderly := h.orderly.congr ⟨rfl, rfl, rfl, rfl⟩ }

theorem Base.cqHeadDb (h : Base c m) (v : UInt32) : Base c { m with cqHeadDb := v } :=
  { h with
    wired := { h.wired with maps := h.wired.maps.congr rfl rfl }
    backed := h.backed.congr ⟨rfl, rfl, rfl, rfl⟩ fun _ _ hi _ => hi
    orderly := h.orderly.congr ⟨rfl, rfl, rfl, rfl⟩ }

/-- A command is submitted under its number as id. -/
theorem Base.send (h : Base c m) (hCid : cmd.cid.toNat = m.sent.length)
    (hBacked : QueuesBacked (m.send cmd)) (hOrderly : Orderly (m.send cmd)) :
    Base (advanceAdminSq c) (m.send cmd) where
  wired := h.wired.send cmd
  backed := hBacked
  orderly := hOrderly
  cids j s hs := by
    rcases sent_send hs with hOld | ⟨rfl, rfl⟩
    · exact h.cids j s hOld
    · exact hCid
  entries k := by
    rcases h.entries k with hZero | ⟨j, s, hs, hPosted, hCid'⟩
    · exact .inl hZero
    · refine .inr ⟨j, s, ?_, hPosted, hCid'⟩
      obtain ⟨hLt, _⟩ := List.getElem?_eq_some_iff.mp hs
      exact (List.getElem?_append_left hLt).trans hs
  firstPhase hNil := by simp [Hardware.send] at hNil

/-- The head of the completion queue moves on after a command. -/
theorem Base.advance (h : Base c m) (hSent : m.sent ≠ []) : Base (advanceAdminCq c) m :=
  { h with
    wired := { h.wired with
      cqHead_lt := by
        rw [advanceAdminCq, h.wired.cqDepth, toNat_adminAdvance h.wired.cqHead_lt]
        omega }
    firstPhase := fun hNil => absurd hNil hSent }

end Basics

/-! ## Waiting for a command -/

section Waiting

variable {m : Hardware} {c : ControllerData} {cmdId : UInt16} {k : Nat}
  {Fly : Hardware → Prop}

/-- Waiting for command number `k` while `Fly` is known.  A success reported to the
host is a command the controller has accepted and completed. -/
theorem safe_waitCommand {timeoutMs : UInt32} (hStable : hardware.Stable Fly) (hFly : Fly m)
    (hBase : ∀ m, Fly m → Base c m ∧ k < m.sent.length)
    (hDb : ∀ m v, Fly m → Fly { m with cqHeadDb := v })
    (hCmdId : cmdId.toNat = k) (hPhase : k = 0 → c.adminCqPhase = 1) :
    SafeQueues
      (fun r m' => Fly m' ∧ Base r.2 m' ∧ (r.2 = c ∨ r.2 = advanceAdminCq c) ∧
        (r.1 = true → ∃ s, m'.sent[k]? = some s ∧ s.progress = .posted true))
      (waitAdminCompletion c cmdId timeoutMs) m := by
  have hFailed : ∀ m', Fly m' → Fly m' ∧ Base c m' ∧ (c = c ∨ c = advanceAdminCq c) ∧
      (false = true → ∃ s, m'.sent[k]? = some s ∧ s.progress = .posted true) :=
    fun m' hm' => ⟨hm', (hBase m' hm').1, .inl rfl, nofun⟩
  unfold waitAdminCompletion
  refine safe_waitAdminCompletionLoop (P := Fly)
    (T := fun e m' => Fly m' ∧
      ∃ s, m'.sent[k]? = some s ∧ s.progress = .posted (Succeeded e))
    hStable ?_ hStable hFly (fun e m' hm' => (hBase m' hm'.1).1.wired)
    (fun m' _ hm' _ => (hBase m' hm').1.backed)
    (fun m' _ _ hm' _ => (hBase m' hm'.1).1.backed)
    (fun _ _ _ => hFailed) (fun _ hm' _ _ => hm')
    (fun m' hm' => ⟨(hBase m' hm').1.backed, (hBase m' hm').1.backed, hFailed m' hm'⟩)
    ?_ ?_ ?_
  · rintro e m₁ b m₂ ⟨hm, s, hs, hPosted⟩ hEnv
    exact ⟨hStable m₁ b m₂ hm hEnv, s, device_completed hEnv hs ⟨_, hPosted⟩, hPosted⟩
  · -- An entry with the command's id was written for this command: ids are numbers,
    -- and a zero entry has the other phase when number 0 is awaited.
    intro m' hm' hFresh hCid
    obtain ⟨hB, _⟩ := hBase m' hm'
    refine ⟨hm', ?_⟩
    rcases hB.entries c.adminCqHead.toNat with hZero | ⟨j, s, hs, hPosted, hCid'⟩
    · rw [hZero] at hCid
      rw [Fresh, hZero] at hFresh
      have hk : k = 0 := by
        rw [← hCmdId, ← hCid]
        rfl
      rw [hPhase hk] at hFresh
      exact absurd hFresh (by decide)
    · have hj : j = k := by
        rw [← hB.cids j s hs, hCid', hCid, hCmdId]
      exact ⟨s, hj ▸ hs, hPosted⟩
  · rintro e m' v ⟨hm', s, hs, hPosted⟩
    exact ⟨hDb m' v hm', s, hs, hPosted⟩
  · rintro e m' ⟨hm', s, hs, hPosted⟩
    obtain ⟨hB, hLt⟩ := hBase m' hm'
    refine ⟨hm', hB.advance ?_, .inr rfl, fun hOk => ⟨s, hs, hOk ▸ hPosted⟩⟩
    exact List.ne_nil_of_length_pos (Nat.lt_of_le_of_lt (Nat.zero_le k) hLt)

end Waiting

/-! ## Next to others -/

/-- The other users of the controller: what they rely on, and their memory.  The
admin queues belong to all of them. -/
structure Neighbours where
  rely : Hardware → Prop
  memory : Mem → Prop
  adminSq : Mem
  adminCq : Mem

/-- What they rely on survives whatever touches neither their memory nor the queues
on it. -/
structure Neighbours.Kept (N : Neighbours) : Prop where
  adminSq : N.memory N.adminSq
  adminCq : N.memory N.adminCq
  stable : hardware.Stable N.rely
  live : ∀ m mem, N.rely m → N.memory mem → ∃ i, m.Live i mem
  congr : ∀ m m', N.rely m → SameQueues m m' →
    (∀ i mem, N.memory mem → m.Live i mem → m'.Live i mem) → N.rely m'
  send : ∀ m cmd, N.rely m →
    (cmd.queueOp.Creates → ∀ i mem, (m.mapped cmd.prp1).map Mapping.number = some i →
      N.memory mem → ¬ m.Live i mem) →
    (cmd.queueOp.Leans → ∀ i mem, m.cqs cmd.qid = some (some i) → N.memory mem →
      ¬ m.Live i mem) → N.rely (m.send cmd)

/-- The state of a call that has allocated `own` and not yet handed it over. -/
structure Working (N : Neighbours) (c : ControllerData) (own : List Mem)
    (m : Hardware) : Prop where
  base : Base c m
  cmdId : c.adminCmdId.toNat = m.sent.length
  others : N.rely m
  adminSq : c.adminSqMem = N.adminSq
  adminCq : c.adminCqMem = N.adminCq
  unused : ∀ mem ∈ own, ∃ i, m.Live i mem ∧ Unnamed m i
  clear : ∀ mem ∈ own, ∀ f, N.memory f → mem.dmaAddr ≠ f.dmaAddr
  distinct : own.Pairwise fun a b => a.dmaAddr ≠ b.dmaAddr

section Next

variable {N : Neighbours} {c : ControllerData} {own : List Mem} {m : Hardware}
  {mem : Mem}

theorem Working.stable (hN : N.Kept) :
    hardware.Stable (Working N c own) := by
  intro m b m' h hStep
  exact
    { h with
      base := h.base.device hStep
      cmdId := by rw [device_sent_length hStep]; exact h.cmdId
      others := hN.stable m b m' h.others hStep
      unused := fun mem hMem => by
        obtain ⟨i, hLive, hUnnamed⟩ := h.unused mem hMem
        exact ⟨i, (device_live hStep).mpr hLive, hUnnamed.device hStep⟩ }

/-- A change that leaves queues and allocations alone. -/
theorem Working.congr (h : Working N c own m) (hN : N.Kept)
    {m' : Hardware} (hBase : Base c m') (hSame : SameQueues m m')
    (hLive : ∀ i mem, m.Live i mem → m'.Live i mem) : Working N c own m' :=
  { h with
    base := hBase
    cmdId := by rw [hSame.sent]; exact h.cmdId
    others := hN.congr m m' h.others hSame fun i mem _ => hLive i mem
    unused := fun mem hMem => by
      obtain ⟨i, hi, hUnnamed⟩ := h.unused mem hMem
      exact ⟨i, hLive i mem hi, hUnnamed.congr hSame⟩ }

theorem Working.alloc (h : Working N c own m) (hN : N.Kept)
    {new : Mem} (hNew : m.Allocatable new) (hReal : new ≠ {}) :
    Working N c (new :: own) (m.alloc new) := by
  have hOld := h.congr hN (h.base.alloc hNew) (sameQueues_alloc m new)
    fun i mem hi => hi.alloc new
  have hFresh : ∀ i mem, m.Live i mem → new.dmaAddr ≠ mem.dmaAddr := by
    intro i mem hi
    rcases hNew with hNull | ⟨_, _, hFresh⟩
    · exact absurd hNull hReal
    · exact (hFresh _ (List.mem_of_getElem? hi) rfl).2.symm
  refine { hOld with unused := ?_, clear := ?_, distinct := ?_ }
  · intro mem hMem
    rcases List.mem_cons.mp hMem with rfl | hMem
    · exact ⟨_, Hardware.live_alloc_new hReal, h.base.backed.unnamed_new mem⟩
    · exact hOld.unused mem hMem
  · intro mem hMem f hf
    rcases List.mem_cons.mp hMem with rfl | hMem
    · obtain ⟨i, hi⟩ := hN.live m f h.others hf
      exact hFresh i f hi
    · exact h.clear mem hMem f hf
  · refine List.pairwise_cons.mpr ⟨fun mem hMem => ?_, h.distinct⟩
    obtain ⟨i, hi, _⟩ := h.unused mem hMem
    exact hFresh i mem hi

theorem Working.zero (h : Working N c own m) (hN : N.Kept)
    (hMem : mem ∈ own) : Working N c own (m.zero mem) := by
  refine h.congr hN (h.base.zero ?_) ⟨rfl, rfl, rfl, rfl⟩ fun _ _ hi => hi
  obtain ⟨i, hi, _⟩ := h.unused mem hMem
  obtain ⟨_, j, _, _, hj⟩ := h.base.wired.live
  rw [h.base.wired.cqVirt]
  refine h.base.wired.maps.virt_ne hi hj fun hij => ?_
  subst hij
  have hEq : mem = c.adminCqMem := by
    have := Option.some.inj (hi.symm.trans hj)
    exact congrArg Region.mem this
  exact h.clear mem hMem N.adminCq hN.adminCq (by rw [hEq, h.adminCq])

theorem Working.release (h : Working N c (mem :: own) m)
    (hN : N.Kept) : Working N c own (m.release mem) := by
  obtain ⟨i, hi, hUnnamed⟩ := h.unused mem List.mem_cons_self
  have hClear := h.clear mem List.mem_cons_self
  obtain ⟨hDistinct, hRest⟩ := List.pairwise_cons.mp h.distinct
  have hKeep : ∀ {j other}, mem.dmaAddr ≠ other.dmaAddr → m.Live j other →
      (m.release mem).Live j other := fun hne hj =>
    Hardware.live_release_iff.mpr ⟨hj, fun hEq => hne (by rw [hEq])⟩
  exact
    { base := h.base.release hi hUnnamed (h.adminSq ▸ hClear _ hN.adminSq)
        (h.adminCq ▸ hClear _ hN.adminCq)
      cmdId := h.cmdId
      others := hN.congr m _ h.others ⟨rfl, rfl, rfl, rfl⟩ fun j f hf hj =>
        hKeep (hClear f hf) hj
      adminSq := h.adminSq
      adminCq := h.adminCq
      unused := fun other hOther => by
        obtain ⟨j, hj, hUnnamed'⟩ := h.unused other (List.mem_cons_of_mem _ hOther)
        exact ⟨j, hKeep (hDistinct other hOther) hj, hUnnamed'.congr ⟨rfl, rfl, rfl, rfl⟩⟩
      clear := fun other hOther => h.clear other (List.mem_cons_of_mem _ hOther)
      distinct := hRest }

theorem Working.drop (h : Working N c own m) : Working N c [] m :=
  { h with unused := nofun, clear := nofun, distinct := List.Pairwise.nil }

theorem Working.real (h : Working N c own m) (hMem : mem ∈ own) : ¬ mem.Null := by
  obtain ⟨i, hi, _⟩ := h.unused mem hMem
  exact h.base.wired.maps.real i mem hi

/-! ### Allocating and releasing -/

theorem safe_allocWorking {size : UInt64} {old : Mem} (hN : N.Kept)
    (h : Working N c own m) :
    SafeQueues
      (fun r m' => if r.1 then Working N r.2.1 (r.2.2 :: own) m'
        else Working N r.2.1 own m' ∧ (r.2.2 = old ∨ r.2.2 = {}))
      (nvmeAllocDmaMem c size old) m := by
  refine safe_nvmeAllocDmaMem (P := Working N c own)
    (A := fun new => Working N c (new :: own)) (Working.stable hN)
    (fun _ => Working.stable hN) h (fun _ _ hm _ => hm.base.backed)
    (fun _ _ _ hm _ => hm.base.backed) (fun m new hm => hm.alloc hN) ?_ ?_
  · intro fd opened mem' m' hm' hMem
    exact ⟨{ hm' with base := { hm'.base with wired := { hm'.base.wired with } } }, hMem⟩
  · intro fd opened new m' hm'
    exact { hm' with base := { hm'.base with wired := { hm'.base.wired with } } }

/-- `free_dma` on memory of the call that nothing uses. -/
theorem safe_freeWorking (hN : N.Kept)
    (h : Working N c (mem :: own) m) :
    SafeQueues (fun mem' m' => mem' = {} ∧ Working N c own m') (freeDma mem) m := by
  rw [freeDma_real (h.real List.mem_cons_self)]
  refine safe_effect (Working.stable hN) h (fun m hm => hm.base.backed)
    fun m' _ hm' _ _ => ?_
  exact Safe.pure (Working.stable hN) (hm'.release hN) (fun m hm => hm.base.backed)
    fun m hm => ⟨rfl, hm⟩

theorem safe_zeroWorking {α : Type} {Q : α → Hardware → Prop} {k : Unit → Admin α}
    (hN : N.Kept) (h : Working N c own m) (hMem : mem ∈ own)
    (hNext : ∀ m, Working N c own m → SafeQueues Q (k ()) m) :
    SafeQueues Q (.op (.zeroDma mem) k) m :=
  safe_effect (Working.stable hN) h (fun _ hm => hm.base.backed)
    fun _ _ hm _ _ => hNext _ (hm.zero hN hMem)

end Next

end NewPerf.Tools
