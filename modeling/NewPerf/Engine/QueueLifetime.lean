import NewPerf.Engine.Jobs
import NewPerf.Tools.AdminMemory
import NewPerf.Tools.PairRules

/-!
# Queue pairs of many threads

The callbacks of `newperf.c` that use the admin queue, run by any number of threads
of which one at a time is inside `g_mutex`.  A run covers one lifetime of the
controller: it starts where a successful `controller_init` ends (`Initialised`),
and the callback that brings the thread count back to zero ends it, since
`controller_deinit` is what it does next.  The controller may reject any command,
and may execute a command at any time after it was submitted, also when the host
has stopped waiting for it and whoever sent it is gone.

`queuesBacked_of_run` says that `QueuesBacked` holds at every point of every such
run.  Memory of a pair whose creation or deletion did not succeed is never
released, so a thread owns exactly the pairs that were reported to it.
-/

namespace NewPerf.Engine.QueueLifetime

open NewPerf.Lib.Programs
open NewPerf.Lib.Runs
open NewPerf.Tools
open NewPerf.Engine.Jobs (JobOptions queueDepth)

variable {ι : Type}

/-! ## The callbacks -/

/-- `g_ctrl`, `curr_thread_num`, `next_io_qid`, and each thread's `td->io_ops_data`.
The controller is gone once its lifetime is over. -/
structure Host (ι : Type) where
  gCtrl : Option ControllerData
  currThreadNum : Int := 0
  nextIoQid : UInt16 := 1
  ioOpsData : ι → Option NvmeData := fun _ => none

/-- The block that `nvme_init` and `nvme_cleanup` share: the last thread destroys
the controller. -/
def Host.dropThread (h : Host ι) : Host ι :=
  let h := { h with currThreadNum := h.currThreadNum - 1 }
  if h.currThreadNum = 0 then { h with gCtrl := none, nextIoQid := 1 } else h

variable [DecidableEq ι]

/-- `td->io_ops_data = d;` -/
def Host.setData (h : Host ι) (j : ι) (d : Option NvmeData) : Host ι :=
  { h with ioOpsData := Function.update h.ioOpsData j d }

/-- `nvme_init`; `alloc` is the outcome of `calloc`. -/
def nvmeInit (o : JobOptions) (h : Host ι) (c : ControllerData) (j : ι) (alloc : Bool) :
    Admin (Host ι) :=
  if !o.useThread then return h
  else if o.nrFiles > 1 then return h
  else if !alloc then return h
  else do
    let n : NvmeData :=
      { ioQid := h.nextIoQid
        ioSqDepth := queueDepth o.iodepth
        ioCqDepth := queueDepth o.iodepth }
    let h := { h with
      nextIoQid := h.nextIoQid + 1
      currThreadNum := h.currThreadNum + 1 }
    let (created, c, n) ← createIoQueuePair c n
    let h := { h with gCtrl := some c }
    if !created then return h.dropThread.setData j none
    else return h.setData j (some n)

/-- `nvme_cleanup` of a thread with data; what `delete_io_queue_pair` returns is not
looked at. -/
def nvmeCleanup (h : Host ι) (c : ControllerData) (j : ι) (n : NvmeData) :
    Admin (Host ι) := do
  let (_, c, _) ← deleteIoQueuePair c n
  return { h with gCtrl := some c }.dropThread.setData j none

/-- `nvme_size` -/
def nvmeSize (h : Host ι) (c : ControllerData) : Admin (Host ι) := do
  let (_, c) ← nvmeGetFileSize c
  return { h with gCtrl := some c }

/-- `nvme_alloc` -/
def nvmeAlloc (h : Host ι) (c : ControllerData) (j : ι) (n : NvmeData) (totalSz : UInt64) :
    Admin (Host ι) := do
  let (allocated, c, mem) ← nvmeAllocDmaMem c totalSz {}
  let h := { h with gCtrl := some c }
  if !allocated then return h
  else return h.setData j (some
    { n with
      ioUDataPhysAddr := mem.dmaAddr
      ioUDataVirtAddr := mem.userVirtaddr
      ioUDataMem := mem })

/-- `nvme_free` -/
def nvmeFree (h : Host ι) (j : ι) (n : NvmeData) : Admin (Host ι) := do
  let mem ← freeDma n.ioUDataMem
  return h.setData j (some { n with ioUDataMem := mem })

/-- A callback of a thread. -/
inductive Callback (ι : Type) where
  | init (j : ι) (alloc : Bool)
  | cleanup (j : ι)
  | size
  | alloc (j : ι) (totalSz : UInt64)
  | free (j : ι)

/-- The callbacks while the controller lives.  `fio` initialises a thread only when
it has no engine data; the other callbacks do nothing for such a thread. -/
def callback (opts : ι → JobOptions) (h : Host ι) : Callback ι → Option (Admin (Host ι))
  | .init j alloc =>
      match h.gCtrl, h.ioOpsData j with
      | some c, none => some (nvmeInit (opts j) h c j alloc)
      | _, _ => none
  | .cleanup j =>
      match h.gCtrl, h.ioOpsData j with
      | some c, some n => some (nvmeCleanup h c j n)
      | _, _ => none
  | .size => h.gCtrl.map (nvmeSize h)
  | .alloc j totalSz =>
      match h.gCtrl, h.ioOpsData j with
      | some c, some n => some (nvmeAlloc h c j n totalSz)
      | _, _ => none
  | .free j =>
      match h.gCtrl, h.ioOpsData j with
      | some _, some n => some (nvmeFree h j n)
      | _, _ => none

/-- The programs of the callbacks. -/
inductive Called (opts : ι → JobOptions) (h : Host ι) :
    Callback ι → Admin (Host ι) → Prop where
  | init {c : ControllerData} {j : ι} {alloc : Bool} (hCtrl : h.gCtrl = some c)
      (hFree : h.ioOpsData j = none) :
      Called opts h (.init j alloc) (nvmeInit (opts j) h c j alloc)
  | cleanup {c : ControllerData} {j : ι} {n : NvmeData} (hCtrl : h.gCtrl = some c)
      (hThread : h.ioOpsData j = some n) :
      Called opts h (.cleanup j) (nvmeCleanup h c j n)
  | size {c : ControllerData} (hCtrl : h.gCtrl = some c) :
      Called opts h .size (nvmeSize h c)
  | alloc {c : ControllerData} {j : ι} {n : NvmeData} {totalSz : UInt64}
      (hCtrl : h.gCtrl = some c) (hThread : h.ioOpsData j = some n) :
      Called opts h (.alloc j totalSz) (nvmeAlloc h c j n totalSz)
  | free {c : ControllerData} {j : ι} {n : NvmeData} (hCtrl : h.gCtrl = some c)
      (hThread : h.ioOpsData j = some n) : Called opts h (.free j) (nvmeFree h j n)

theorem callback_cases {opts : ι → JobOptions} {h : Host ι} {cb : Callback ι}
    {p : Admin (Host ι)} (hProg : callback opts h cb = some p) : Called opts h cb p := by
  cases cb with
  | init j alloc =>
      simp only [callback] at hProg
      split at hProg
      · rename_i c hCtrl hFree
        obtain rfl := Option.some.inj hProg
        exact .init hCtrl hFree
      · cases hProg
  | cleanup j =>
      simp only [callback] at hProg
      split at hProg
      · rename_i c n hCtrl hThread
        obtain rfl := Option.some.inj hProg
        exact .cleanup hCtrl hThread
      · cases hProg
  | size =>
      simp only [callback, Option.map_eq_some_iff] at hProg
      obtain ⟨c, hCtrl, rfl⟩ := hProg
      exact .size hCtrl
  | alloc j totalSz =>
      simp only [callback] at hProg
      split at hProg
      · rename_i c n hCtrl hThread
        obtain rfl := Option.some.inj hProg
        exact .alloc hCtrl hThread
      · cases hProg
  | free j =>
      simp only [callback] at hProg
      split at hProg
      · rename_i c n hCtrl hThread
        obtain rfl := Option.some.inj hProg
        exact .free hCtrl hThread
      · cases hProg

/-- `controller_init` has just succeeded on a zeroed `struct controller_data`. -/
structure Initialised (c : ControllerData) (m : Hardware) : Prop where
  wired : Wired c m
  untouched : Untouched c m
  cmdId : c.adminCmdId = 0
  phase : c.adminCqPhase = 1

omit [DecidableEq ι] in
/-- What `controller_init` leaves behind when it succeeds. -/
theorem initialised_of_controllerInit {c : ControllerData} {m : Hardware} (h : Down c m)
    (hCmdId : c.adminCmdId = 0) :
    SafeAdmin (fun r m' => r.1 = true → Initialised r.2 m') (controllerInit c) m := by
  refine (safe_controllerInit h).mono fun r m' hPost hTrue => ?_
  rw [InitPost, if_pos hTrue] at hPost
  obtain ⟨hUp, hUntouched, hId⟩ := hPost
  exact ⟨hUp.toWired, hUntouched, hId.trans hCmdId, UInt8.toNat_inj.mp hUp.phase⟩

/-! ## What threads own -/

/-- The memory of a thread. -/
def footprint (n : NvmeData) : List Mem :=
  n.ioSqMem :: n.ioCqMem :: n.ioPrpListMem :: dataBuffer n

/-- What the threads rely on while none of them is in a callback: the pairs reported
to them exist, and the other memory they hold is not used for queues. -/
structure Resident (adminSq adminCq : Mem) (threads : ι → Option NvmeData)
    (m : Hardware) : Prop where
  adminSq : ∃ i, m.Live i adminSq
  adminCq : ∃ i, m.Live i adminCq
  pairs : ∀ j n, threads j = some n →
    Paired (nvmeIoQid n) .both n.ioCqMem n.ioSqMem m
  buffers : ∀ j n, threads j = some n → ∀ mem ∈ n.ioPrpListMem :: dataBuffer n,
    ∃ i, m.Live i mem ∧ Unnamed m i

/-- The threads as neighbours of a callback. -/
def neighbours (adminSq adminCq : Mem) (threads : ι → Option NvmeData) : Neighbours where
  rely := Resident adminSq adminCq threads
  memory mem := mem = adminSq ∨ mem = adminCq ∨
    ∃ j n, threads j = some n ∧ mem ∈ footprint n
  adminSq := adminSq
  adminCq := adminCq

/-- The threads' memory is apart from the admin queues and from each other's. -/
structure Separate (adminSq adminCq : Mem) (threads : ι → Option NvmeData) : Prop where
  reported : ∀ j n, threads j = some n → Reported n
  distinct : ∀ j n, threads j = some n →
    (footprint n).Pairwise fun a b => a.dmaAddr ≠ b.dmaAddr
  admin : ∀ j n, threads j = some n → ∀ mem ∈ footprint n,
    mem.dmaAddr ≠ adminSq.dmaAddr ∧ mem.dmaAddr ≠ adminCq.dmaAddr
  apart : ∀ j j' n n', threads j = some n → threads j' = some n' → j ≠ j' →
    ∀ mem ∈ footprint n, ∀ mem' ∈ footprint n', mem.dmaAddr ≠ mem'.dmaAddr

section Owning

variable {adminSq adminCq : Mem} {threads : ι → Option NvmeData} {m : Hardware}
  {c : ControllerData} {j : ι} {n : NvmeData}

omit [DecidableEq ι] in
theorem Resident.live_footprint (h : Resident adminSq adminCq threads m)
    (hj : threads j = some n) {mem : Mem} (hMem : mem ∈ footprint n) :
    ∃ i, m.Live i mem := by
  obtain ⟨rc, rs, hc, hs, _⟩ := h.pairs j n hj
  rcases List.mem_cons.mp hMem with rfl | hMem
  · exact ⟨rs, hs⟩
  · rcases List.mem_cons.mp hMem with rfl | hMem
    · exact ⟨rc, hc⟩
    · obtain ⟨i, hi, _⟩ := h.buffers j n hj mem hMem
      exact ⟨i, hi⟩

omit [DecidableEq ι] in
theorem neighbours_kept : (neighbours adminSq adminCq threads).Kept where
  adminSq := .inl rfl
  adminCq := .inr (.inl rfl)
  stable m b m' h hStep :=
    { adminSq := by
        obtain ⟨i, hi⟩ := h.adminSq
        exact ⟨i, (device_live hStep).mpr hi⟩
      adminCq := by
        obtain ⟨i, hi⟩ := h.adminCq
        exact ⟨i, (device_live hStep).mpr hi⟩
      pairs := fun j n hj => Paired.stable m b m' (h.pairs j n hj) hStep
      buffers := fun j n hj mem hMem => by
        obtain ⟨i, hi, hUnnamed⟩ := h.buffers j n hj mem hMem
        exact ⟨i, (device_live hStep).mpr hi, hUnnamed.device hStep⟩ }
  live m mem h hMem := by
    rcases hMem with rfl | rfl | ⟨j, n, hj, hMem⟩
    · exact h.adminSq
    · exact h.adminCq
    · exact h.live_footprint hj hMem
  congr m m' h hSame hLive :=
    { adminSq := by
        obtain ⟨i, hi⟩ := h.adminSq
        exact ⟨i, hLive i _ (.inl rfl) hi⟩
      adminCq := by
        obtain ⟨i, hi⟩ := h.adminCq
        exact ⟨i, hLive i _ (.inr (.inl rfl)) hi⟩
      pairs := fun j n hj => by
        refine (h.pairs j n hj).congr hSame fun i mem hMem hi => ?_
        refine hLive i mem (.inr (.inr ⟨j, n, hj, ?_⟩)) hi
        rcases hMem with rfl | rfl <;> simp [footprint]
      buffers := fun j n hj mem hMem => by
        obtain ⟨i, hi, hUnnamed⟩ := h.buffers j n hj mem hMem
        refine ⟨i, hLive i mem (.inr (.inr ⟨j, n, hj, ?_⟩)) hi, hUnnamed.congr hSame⟩
        exact List.mem_cons_of_mem _ (List.mem_cons_of_mem _ hMem) }
  send m cmd h hCreates hLeans :=
    { adminSq := h.adminSq
      adminCq := h.adminCq
      pairs := fun j n hj => by
        obtain ⟨rc, rs, hc, hs, hStands⟩ := h.pairs j n hj
        have hCq : (neighbours adminSq adminCq threads).memory n.ioCqMem :=
          .inr (.inr ⟨j, n, hj, by simp [footprint]⟩)
        have hSq : (neighbours adminSq adminCq threads).memory n.ioSqMem :=
          .inr (.inr ⟨j, n, hj, by simp [footprint]⟩)
        refine ⟨rc, rs, hc, hs, hStands.send_other (fun _ hL hQid => ?_) fun hC => ⟨?_, ?_⟩⟩
        · exact hLeans hL rc _ (hQid ▸ hStands.cqIs nofun) hCq hc
        · exact fun hEq => hCreates hC rc _ hEq hCq hc
        · exact fun hEq => hCreates hC rs _ hEq hSq hs
      buffers := fun j n hj mem hMem => by
        obtain ⟨i, hi, hUnnamed⟩ := h.buffers j n hj mem hMem
        refine ⟨i, hi, hUnnamed.send fun hC hEq => hCreates hC i mem hEq ?_ hi⟩
        exact .inr (.inr ⟨j, n, hj, List.mem_cons_of_mem _ (List.mem_cons_of_mem _ hMem)⟩) }

theorem of_update_none {k : ι} (h : Function.update threads j none k = some n) :
    k ≠ j ∧ threads k = some n := by
  by_cases hk : k = j
  · rw [hk, Function.update_self] at h
    cases h
  · rw [Function.update_of_ne hk] at h
    exact ⟨hk, h⟩

theorem of_update_some {k : ι} {n' : NvmeData}
    (h : Function.update threads j (some n) k = some n') :
    (k = j ∧ n' = n) ∨ (k ≠ j ∧ threads k = some n') := by
  by_cases hk : k = j
  · rw [hk, Function.update_self] at h
    exact .inl ⟨hk, (Option.some.inj h).symm⟩
  · rw [Function.update_of_ne hk] at h
    exact .inr ⟨hk, h⟩

theorem Separate.remove (h : Separate adminSq adminCq threads) (j : ι) :
    Separate adminSq adminCq (Function.update threads j none) where
  reported k n hk := h.reported k n (of_update_none hk).2
  distinct k n hk := h.distinct k n (of_update_none hk).2
  admin k n hk := h.admin k n (of_update_none hk).2
  apart k k' n n' hk hk' := h.apart k k' n n' (of_update_none hk).2 (of_update_none hk').2

theorem Separate.insert (h : Separate adminSq adminCq threads) (hReported : Reported n)
    (hDistinct : (footprint n).Pairwise fun a b => a.dmaAddr ≠ b.dmaAddr)
    (hClear : ∀ mem ∈ footprint n, ∀ f, (neighbours adminSq adminCq threads).memory f →
      mem.dmaAddr ≠ f.dmaAddr) :
    Separate adminSq adminCq (Function.update threads j (some n)) := by
  refine ⟨fun k n' hk => ?_, fun k n' hk => ?_, fun k n' hk => ?_,
    fun k k' n₁ n₂ hk hk' hne mem hMem mem' hMem' => ?_⟩
  · rcases of_update_some hk with ⟨_, rfl⟩ | ⟨_, hk⟩
    · exact hReported
    · exact h.reported k n' hk
  · rcases of_update_some hk with ⟨_, rfl⟩ | ⟨_, hk⟩
    · exact hDistinct
    · exact h.distinct k n' hk
  · rcases of_update_some hk with ⟨_, rfl⟩ | ⟨_, hk⟩
    · exact fun mem hMem =>
        ⟨hClear mem hMem _ (.inl rfl), hClear mem hMem _ (.inr (.inl rfl))⟩
    · exact h.admin k n' hk
  · rcases of_update_some hk with ⟨rfl, rfl⟩ | ⟨_, hOld⟩ <;>
      rcases of_update_some hk' with ⟨rfl, rfl⟩ | ⟨_, hOld'⟩
    · exact absurd rfl hne
    · exact hClear mem hMem mem' (.inr (.inr ⟨k', n₂, hOld', hMem'⟩))
    · exact (hClear mem' hMem' mem (.inr (.inr ⟨k, n₁, hOld, hMem⟩))).symm
    · exact h.apart k k' n₁ n₂ hOld hOld' hne mem hMem mem' hMem'

/-- A thread's memory is apart from everyone else's. -/
theorem Separate.clear (h : Separate adminSq adminCq threads) (hj : threads j = some n)
    {mem f : Mem} (hMem : mem ∈ footprint n)
    (hf : (neighbours adminSq adminCq (Function.update threads j none)).memory f) :
    mem.dmaAddr ≠ f.dmaAddr := by
  rcases hf with rfl | rfl | ⟨k, n', hk, hf⟩
  · exact (h.admin j n hj mem hMem).1
  · exact (h.admin j n hj mem hMem).2
  · obtain ⟨hne, hk⟩ := of_update_none hk
    exact h.apart j k n n' hj hk hne.symm mem hMem f hf

/-- A callback of thread `j` takes the thread's pair and memory over. -/
theorem Separate.take {rest : List Mem} (h : Separate adminSq adminCq threads)
    (hj : threads j = some n)
    (hWorking : Working (neighbours adminSq adminCq threads) c rest m) :
    Holding (neighbours adminSq adminCq (Function.update threads j none)) c (nvmeIoQid n)
      .both n.ioCqMem n.ioSqMem (n.ioPrpListMem :: dataBuffer n ++ rest) m := by
  have hResident : Resident adminSq adminCq threads m := hWorking.others
  have hOwn : ∀ {mem}, mem ∈ n.ioPrpListMem :: dataBuffer n → mem ∈ footprint n := fun hMem =>
    List.mem_cons_of_mem _ (List.mem_cons_of_mem _ hMem)
  have hCq : n.ioCqMem ∈ footprint n := by simp [footprint]
  have hSq : n.ioSqMem ∈ footprint n := by simp [footprint]
  obtain ⟨hSqRest, hTail⟩ := List.pairwise_cons.mp (h.distinct j n hj)
  obtain ⟨hCqRest, hBuffers⟩ := List.pairwise_cons.mp hTail
  -- What the callback has allocated so far is apart from the thread's memory.
  have hNew : ∀ mem ∈ footprint n, ∀ o ∈ rest, mem.dmaAddr ≠ o.dmaAddr := fun mem hMem o ho =>
    (hWorking.clear o ho mem (.inr (.inr ⟨j, n, hj, hMem⟩))).symm
  exact
    { hWorking with
      others :=
        { hResident with
          pairs := fun k n' hk => hResident.pairs k n' (of_update_none hk).2
          buffers := fun k n' hk => hResident.buffers k n' (of_update_none hk).2 }
      unused := fun mem hMem => by
        rcases List.mem_append.mp hMem with hMem | hMem
        · exact hResident.buffers j n hj mem hMem
        · exact hWorking.unused mem hMem
      clear := fun mem hMem f hf => by
        rcases List.mem_append.mp hMem with hMem | hMem
        · exact h.clear hj (hOwn hMem) hf
        · refine hWorking.clear mem hMem f ?_
          rcases hf with rfl | rfl | ⟨k, n', hk, hf⟩
          · exact .inl rfl
          · exact .inr (.inl rfl)
          · exact .inr (.inr ⟨k, n', (of_update_none hk).2, hf⟩)
      distinct := List.pairwise_append.mpr
        ⟨hBuffers, hWorking.distinct, fun mem hMem => hNew mem (hOwn hMem)⟩
      pair := hResident.pairs j n hj
      cqClear := fun f hf => h.clear hj hCq hf
      sqClear := fun f hf => h.clear hj hSq hf
      cqDistinct := fun o ho => by
        rcases List.mem_append.mp ho with ho | ho
        · exact hCqRest o ho
        · exact hNew _ hCq o ho
      sqDistinct := fun o ho => by
        rcases List.mem_append.mp ho with ho | ho
        · exact hSqRest o (List.mem_cons_of_mem _ ho)
        · exact hNew _ hSq o ho
      pairDistinct := hSqRest _ List.mem_cons_self }

/-- At its end it hands a pair and memory over to the thread. -/
theorem Separate.give (h : Separate adminSq adminCq threads) (j : ι) (rest : List Mem)
    (hReported : Reported n)
    (hHolding : Holding (neighbours adminSq adminCq threads) c (nvmeIoQid n) .both
      n.ioCqMem n.ioSqMem (n.ioPrpListMem :: dataBuffer n ++ rest) m) :
    Working (neighbours adminSq adminCq (Function.update threads j (some n))) c rest m ∧
      Separate adminSq adminCq (Function.update threads j (some n)) := by
  have hResident : Resident adminSq adminCq threads m := hHolding.others
  obtain ⟨hBuffers, hRest, hCross⟩ := List.pairwise_append.mp hHolding.distinct
  have hKeep : ∀ {mem}, mem ∈ n.ioPrpListMem :: dataBuffer n →
      mem ∈ n.ioPrpListMem :: dataBuffer n ++ rest := fun hMem =>
    List.mem_append.mpr (.inl hMem)
  have hNew : ∀ {mem}, mem ∈ rest → mem ∈ n.ioPrpListMem :: dataBuffer n ++ rest :=
    fun hMem => List.mem_append.mpr (.inr hMem)
  have hClear : ∀ mem ∈ footprint n, ∀ f, (neighbours adminSq adminCq threads).memory f →
      mem.dmaAddr ≠ f.dmaAddr := by
    intro mem hMem
    rcases List.mem_cons.mp hMem with rfl | hMem
    · exact hHolding.sqClear
    · rcases List.mem_cons.mp hMem with rfl | hMem
      · exact hHolding.cqClear
      · exact hHolding.clear mem (hKeep hMem)
  have hApart : ∀ mem ∈ rest, ∀ f ∈ footprint n, mem.dmaAddr ≠ f.dmaAddr := by
    intro mem hMem f hf
    rcases List.mem_cons.mp hf with rfl | hf
    · exact (hHolding.sqDistinct mem (hNew hMem)).symm
    · rcases List.mem_cons.mp hf with rfl | hf
      · exact (hHolding.cqDistinct mem (hNew hMem)).symm
      · exact (hCross f hf mem hMem).symm
  constructor
  · exact
      { hHolding.toWorking with
        others :=
          { hResident with
            pairs := fun k n' hk => by
              rcases of_update_some hk with ⟨_, rfl⟩ | ⟨_, hk⟩
              · exact hHolding.pair
              · exact hResident.pairs k n' hk
            buffers := fun k n' hk mem hMem => by
              rcases of_update_some hk with ⟨_, rfl⟩ | ⟨_, hk⟩
              · exact hHolding.unused mem (hKeep hMem)
              · exact hResident.buffers k n' hk mem hMem }
        unused := fun mem hMem => hHolding.unused mem (hNew hMem)
        clear := fun mem hMem f hf => by
          rcases hf with rfl | rfl | ⟨k, n', hk, hf⟩
          · exact hHolding.clear mem (hNew hMem) _ (.inl rfl)
          · exact hHolding.clear mem (hNew hMem) _ (.inr (.inl rfl))
          · rcases of_update_some hk with ⟨_, rfl⟩ | ⟨_, hk⟩
            · exact hApart mem hMem f hf
            · exact hHolding.clear mem (hNew hMem) f (.inr (.inr ⟨k, n', hk, hf⟩))
        distinct := hRest }
  · refine h.insert hReported (List.pairwise_cons.mpr ⟨fun mem hMem => ?_,
      List.pairwise_cons.mpr ⟨fun mem hMem => ?_, hBuffers⟩⟩) hClear
    · rcases List.mem_cons.mp hMem with rfl | hMem
      · exact hHolding.pairDistinct
      · exact hHolding.sqDistinct mem (hKeep hMem)
    · exact hHolding.cqDistinct mem (hKeep hMem)

end Owning

/-! ## The callbacks keep the invariant -/

/-- No callback is running. -/
def Idle (h : Host ι) (m : Hardware) : Prop :=
  ∃ c adminSq adminCq, (∀ c', h.gCtrl = some c' → c' = c) ∧
    Working (neighbours adminSq adminCq h.ioOpsData) c [] m ∧
    Separate adminSq adminCq h.ioOpsData

section Callbacks

variable {h : Host ι} {m : Hardware} {c : ControllerData} {adminSq adminCq : Mem} {j : ι}
  {n : NvmeData}

omit [DecidableEq ι] in
theorem Host.dropThread_gCtrl (h : Host ι) :
    ∀ c, h.dropThread.gCtrl = some c → h.gCtrl = some c := by
  intro c hc
  unfold Host.dropThread at hc
  dsimp only at hc
  split at hc
  · cases hc
  · exact hc

omit [DecidableEq ι] in
theorem Host.dropThread_ioOpsData (h : Host ι) : h.dropThread.ioOpsData = h.ioOpsData := by
  unfold Host.dropThread
  dsimp only
  split <;> rfl

/-- A thread leaves, and with it perhaps the controller. -/
theorem idle_dropThread (hCtrl : h.gCtrl = some c)
    (hWorking : Working
      (neighbours adminSq adminCq (Function.update h.ioOpsData j none)) c [] m)
    (hSeparate : Separate adminSq adminCq (Function.update h.ioOpsData j none)) :
    Idle (h.dropThread.setData j none) m := by
  refine ⟨c, adminSq, adminCq, fun c' hc' => ?_, ?_⟩
  · have hSome := h.dropThread_gCtrl c' hc'
    exact Option.some.inj (hSome.symm.trans hCtrl)
  · rw [Host.setData, Host.dropThread_ioOpsData]
    exact ⟨hWorking, hSeparate⟩

theorem safe_nvmeInit {o : JobOptions} {alloc : Bool} (hCtrl : h.gCtrl = some c)
    (hFree : h.ioOpsData j = none)
    (hWorking : Working (neighbours adminSq adminCq h.ioOpsData) c [] m)
    (hSeparate : Separate adminSq adminCq h.ioOpsData) :
    SafeQueues Idle (nvmeInit o h c j alloc) m := by
  have hSame : SafeQueues Idle (.pure h) m :=
    safe_returnWorking neighbours_kept hWorking fun m hm =>
      ⟨c, adminSq, adminCq, fun c' hc' => Option.some.inj (hc'.symm.trans hCtrl), hm,
        hSeparate⟩
  unfold nvmeInit
  split
  · exact hSame
  split
  · exact hSame
  split
  · exact hSame
  refine (safe_createIoQueuePair neighbours_kept hWorking).bind ?_
  rintro ⟨created, c', n'⟩ m' hPost
  have hNone : Function.update h.ioOpsData j none = h.ioOpsData := by
    rw [← hFree, Function.update_eq_self]
  cases created with
  | false =>
      have hWorking' : Working (neighbours adminSq adminCq h.ioOpsData) c' [] m' := hPost
      have hSeparate' := hSeparate.remove j
      rw [← hNone] at hWorking'
      exact safe_returnWorking neighbours_kept hWorking' fun m hm =>
        idle_dropThread rfl hm hSeparate'
  | true =>
      obtain ⟨hHolding, hReported, hData⟩ := hPost
      have hBuffer : dataBuffer n' = [] := by
        rw [dataBuffer, if_pos]
        rw [hData]
        exact Mem.null_empty
      refine Safe.pure (Holding.stable neighbours_kept) hHolding
        (fun _ hm => hm.base.backed) fun m hm => ?_
      have hGive := hSeparate.give j [] hReported
        (by rw [hBuffer]; exact hm)
      exact ⟨c', adminSq, adminCq, fun _ hc' => (Option.some.inj hc').symm, hGive⟩

theorem safe_nvmeCleanup (hThread : h.ioOpsData j = some n)
    (hWorking : Working (neighbours adminSq adminCq h.ioOpsData) c [] m)
    (hSeparate : Separate adminSq adminCq h.ioOpsData) :
    SafeQueues Idle (nvmeCleanup h c j n) m := by
  have hHolding := hSeparate.take hThread hWorking
  rw [List.append_nil] at hHolding
  unfold nvmeCleanup
  refine (safe_deleteIoQueuePair neighbours_kept (hSeparate.reported j n hThread)
    hHolding).bind ?_
  rintro ⟨_, c', _⟩ m' hPost
  exact safe_returnWorking neighbours_kept hPost fun m hm =>
    idle_dropThread rfl hm (hSeparate.remove j)

omit [DecidableEq ι] in
theorem safe_nvmeSize
    (hWorking : Working (neighbours adminSq adminCq h.ioOpsData) c [] m)
    (hSeparate : Separate adminSq adminCq h.ioOpsData) :
    SafeQueues Idle (nvmeSize h c) m := by
  refine (safe_fileSize neighbours_kept hWorking).bind ?_
  rintro ⟨_, c'⟩ m' hPost
  exact safe_returnWorking neighbours_kept hPost fun m hm =>
    ⟨c', adminSq, adminCq, fun _ hc' => (Option.some.inj hc').symm, hm, hSeparate⟩

theorem safe_nvmeAlloc {totalSz : UInt64} (hThread : h.ioOpsData j = some n)
    (hWorking : Working (neighbours adminSq adminCq h.ioOpsData) c [] m)
    (hSeparate : Separate adminSq adminCq h.ioOpsData) :
    SafeQueues Idle (nvmeAlloc h c j n totalSz) m := by
  unfold nvmeAlloc
  refine (safe_allocWorking neighbours_kept hWorking).bind ?_
  rintro ⟨allocated, c', mem⟩ m' hPost
  cases allocated with
  | false =>
      exact safe_returnWorking neighbours_kept hPost.1 fun m hm =>
        ⟨c', adminSq, adminCq, fun _ hc' => (Option.some.inj hc').symm, hm, hSeparate⟩
  | true =>
      have hNew : Working (neighbours adminSq adminCq h.ioOpsData) c' [mem] m' := hPost
      have hReal := hNew.real List.mem_cons_self
      refine safe_returnWorking neighbours_kept hNew fun m hm => ?_
      -- The thread's previous buffer, if it had one, is lost.
      have hTake := hSeparate.take hThread hm
      have hSub : [n.ioPrpListMem, mem].Sublist (n.ioPrpListMem :: dataBuffer n ++ [mem]) :=
        (List.sublist_append_right (dataBuffer n) [mem]).cons_cons n.ioPrpListMem
      have hGive := (hSeparate.remove j).give j []
        (n := { n with
          ioUDataPhysAddr := mem.dmaAddr
          ioUDataVirtAddr := mem.userVirtaddr
          ioUDataMem := mem })
        ⟨(hSeparate.reported j n hThread).sq, (hSeparate.reported j n hThread).cq⟩
        (by
          rw [dataBuffer, if_neg hReal]
          exact hTake.sublist hSub)
      rw [Function.update_idem] at hGive
      exact ⟨c', adminSq, adminCq, fun _ hc' => (Option.some.inj hc').symm, hGive⟩

theorem safe_nvmeFree (hCtrl : h.gCtrl = some c) (hThread : h.ioOpsData j = some n)
    (hWorking : Working (neighbours adminSq adminCq h.ioOpsData) c [] m)
    (hSeparate : Separate adminSq adminCq h.ioOpsData) :
    SafeQueues Idle (nvmeFree h j n) m := by
  have hSome : ∀ c', h.gCtrl = some c' → c' = c := fun c' hc' =>
    Option.some.inj (hc'.symm.trans hCtrl)
  unfold nvmeFree
  by_cases hNull : n.ioUDataMem.Null
  · rw [freeDma_null hNull]
    refine safe_returnWorking neighbours_kept hWorking fun m hm => ?_
    have hSet : (h.setData j (some n)).ioOpsData = h.ioOpsData := by
      rw [Host.setData, ← hThread, Function.update_eq_self]
    refine ⟨c, adminSq, adminCq, hSome, ?_⟩
    exact hSet.symm ▸ ⟨hm, hSeparate⟩
  · have hTake := hSeparate.take hThread hWorking
    rw [dataBuffer, if_neg hNull] at hTake
    have hGive := (hSeparate.remove j).give j [n.ioUDataMem]
      (n := { n with ioUDataMem := {} })
      ⟨(hSeparate.reported j n hThread).sq, (hSeparate.reported j n hThread).cq⟩
      (by
        rw [dataBuffer, if_pos Mem.null_empty]
        exact hTake)
    rw [Function.update_idem] at hGive
    refine (safe_freeWorking neighbours_kept hGive.1).bind ?_
    rintro _ m' ⟨rfl, hm'⟩
    exact safe_returnWorking neighbours_kept hm' fun m hm =>
      ⟨c, adminSq, adminCq, hSome, hm, hGive.2⟩

end Callbacks

theorem inductive_callbacks (opts : ι → JobOptions) :
    Calls.Inductive hardware FewCommands AlwaysBacked (callback opts) Idle where
  stable h m b m' := by
    rintro ⟨c, adminSq, adminCq, hCtrl, hWorking, hSeparate⟩ hStep
    exact ⟨c, adminSq, adminCq, hCtrl,
      Working.stable neighbours_kept m b m' hWorking hStep, hSeparate⟩
  spec_none h m := by
    rintro ⟨_, _, _, _, hWorking, _⟩
    exact hWorking.base.backed
  safe h m a p := by
    rintro ⟨c, adminSq, adminCq, hSome, hWorking, hSeparate⟩ hProg
    cases callback_cases hProg with
    | init hCtrl hFree =>
        obtain rfl := hSome _ hCtrl
        exact safe_nvmeInit hCtrl hFree hWorking hSeparate
    | cleanup hCtrl hThread =>
        obtain rfl := hSome _ hCtrl
        exact safe_nvmeCleanup hThread hWorking hSeparate
    | size hCtrl =>
        obtain rfl := hSome _ hCtrl
        exact safe_nvmeSize hWorking hSeparate
    | alloc hCtrl hThread =>
        obtain rfl := hSome _ hCtrl
        exact safe_nvmeAlloc hThread hWorking hSeparate
    | free hCtrl hThread =>
        obtain rfl := hSome _ hCtrl
        exact safe_nvmeFree hCtrl hThread hWorking hSeparate

/-! ## Runs -/

/-- No thread has been initialised on the controller. -/
def start (c : ControllerData) (m : Hardware) :
    Calls Effect Effect.Result (Host ι) Hardware where
  host := { gCtrl := some c }
  machine := m

omit [DecidableEq ι] in
theorem Initialised.idle {c : ControllerData} {m : Hardware} (h : Initialised c m) :
    Idle (ι := ι) { gCtrl := some c } m := by
  have hSent : ∀ (j : Nat) (s : Sent), m.sent[j]? ≠ some s := by
    intro j s
    rw [h.untouched.sent]
    nofun
  obtain ⟨i, k, _, hi, hk⟩ := h.wired.live
  refine ⟨c, c.adminSqMem, c.adminCqMem, fun _ hc' => (Option.some.inj hc').symm, ?_, ?_⟩
  · exact
      { base :=
          { wired := h.wired
            backed :=
              { attached := fun q hq => absurd (h.untouched.sqs q) hq
                sq := fun q r hq => nomatch (h.untouched.sqs q).symm.trans hq
                cq := fun q r hq => nomatch (h.untouched.cqs q).symm.trans hq
                create := fun j s hs => absurd hs (hSent j s) }
            orderly :=
              { cq := fun j s hs => absurd hs (hSent j s)
                deleteCq := fun j s hs => absurd hs (hSent j s)
                single := fun j _ s _ hs => absurd hs (hSent j s)
                ownCq := fun j s hs => absurd hs (hSent j s) }
            cids := fun j s hs => absurd hs (hSent j s)
            entries := fun k => .inl (h.untouched.blank k)
            firstPhase := fun _ => h.phase }
        cmdId := by
          rw [h.cmdId, h.untouched.sent]
          rfl
        others := ⟨⟨i, hi⟩, ⟨k, hk⟩, fun _ _ hj => (nomatch hj), fun _ _ hj => (nomatch hj)⟩
        adminSq := rfl
        adminCq := rfl
        unused := nofun
        clear := nofun
        distinct := List.Pairwise.nil }
  · exact
      { reported := fun _ _ hj => (nomatch hj)
        distinct := fun _ _ hj => (nomatch hj)
        admin := fun _ _ hj => (nomatch hj)
        apart := fun _ _ _ _ hj => (nomatch hj) }

/-- At every point of every run within one lifetime of the controller in which fewer
than 65536 admin commands are issued, each submission queue has its completion
queue, and the memory of the queues and of the unfinished Create commands has
not been released. -/
theorem queuesBacked_of_run {opts : ι → JobOptions} {c : ControllerData} {m : Hardware}
    {acts : List (Act (Callback ι) Answer DeviceAct)}
    {s : Calls Effect Effect.Result (Host ι) Hardware} (hInit : Initialised c m)
    (hRun : Run (Calls.step hardware (callback opts)) (Calls.stepOk FewCommands)
      (start c m) acts s) : QueuesBacked s.machine :=
  ((inductive_callbacks opts).of_run rfl hInit.idle hRun).1

/-- The decidable form of the condition on runs. -/
def fewCommandsTest (s : Calls Effect Effect.Result (Host ι) Hardware)
    (_ : Act (Callback ι) Answer DeviceAct) : Bool :=
  match s.next with
  | some (.regWrite offset _) =>
      decide (offset = nvmeDoorbellBase → s.machine.sent.length + 1 < 65536)
  | _ => true

omit [DecidableEq ι] in
theorem stepOk_of_fewCommandsTest (s : Calls Effect Effect.Result (Host ι) Hardware)
    (a : Act (Callback ι) Answer DeviceAct) (h : fewCommandsTest s a = true) :
    s.stepOk FewCommands a := by
  cases a with
  | effect a =>
      intro e hNext
      rw [fewCommandsTest, hNext] at h
      cases e with
      | regWrite offset v =>
          have hTest := of_decide_eq_true h
          exact hTest
      | _ => trivial
  | _ => trivial

/-- A controller right after `controller_init`. -/
def smallController : ControllerData :=
  adminReady
    { bus := 5, nsid := 1, bar0Virt := 0x1000, adminSqMem := smallAdminSq
      adminCqMem := smallAdminCq, dmaFd := 3, dmaFdOpened := true } smallCap

@[inherit_doc smallController]
def smallHardware : Hardware :=
  (({ cap := smallCap
      cc := enableConfiguration smallCap
      aqa := adminQueueAttributes
      asqLow := smallAdminSq.dmaAddr.toUInt32
      acqLow := smallAdminCq.dmaAddr.toUInt32 } : Hardware).alloc smallAdminSq).alloc
    smallAdminCq

theorem initialised_small : Initialised smallController smallHardware where
  wired :=
    { maps := by
        refine Hardware.WellMapped.alloc (Hardware.WellMapped.alloc ?_ ?_) ?_
        · exact ⟨nofun, nofun, nofun⟩
        · decide
        · decide
      bar0 := by decide
      enabled := by decide
      timeout := by decide
      aqa := rfl
      asq := by decide
      acq := by decide
      sqVirt := rfl
      cqVirt := rfl
      live := ⟨0, 1, by decide, rfl, rfl⟩
      sqDepth := rfl
      cqDepth := rfl
      sqDb := rfl
      cqDb := rfl
      sqTail := rfl
      sqTail_lt := by decide
      cqHead_lt := by decide }
  untouched := ⟨rfl, fun _ => rfl, fun _ => rfl, fun _ => rfl⟩
  cmdId := rfl
  phase := rfl

/-- Page number `k` of the memory a small run allocates. -/
def smallPage (k : UInt64) : Mem :=
  { fd := 3, kernelVirtaddr := 0x40000 + 4096 * k, userVirtaddr := 0x50000 + 4096 * k
    dmaAddr := 0x60000 + 4096 * k, size := 4096 }

/-- `nvme_init` of thread `j` up to the first command, on pages `k`, `k + 1`, `k + 2`. -/
def createActs (j : Bool) (k : UInt64) : List (Act (Callback Bool) Answer DeviceAct) :=
  [.call (.init j true), .effect (.word smallCap.toUInt32),
    .effect (.word (smallCap >>> 32).toUInt32), .effect (.memory (smallPage k)),
    .effect (.memory (smallPage (k + 1))), .effect (.memory (smallPage (k + 2))),
    .effect .done, .effect .done, .effect .done]

/-- Command number `i` is submitted, accepted, completed and taken. -/
def acceptActs (i : Nat) : List (Act (Callback Bool) Answer DeviceAct) :=
  [.effect .done, .effect .done, .env (.execute i true), .env (.post i 0 0), .effect .done,
    .effect .done]

/-- Command number `i` is submitted, rejected, completed and taken. -/
def rejectActs (i : Nat) : List (Act (Callback Bool) Answer DeviceAct) :=
  [.effect .done, .effect .done, .env (.execute i false), .env (.post i 0 1), .effect .done,
    .effect .done, .effect .done]

/-- `nvme_cleanup` of thread `j`, whose queues are deleted by commands `i` and `i + 1`. -/
def cleanupActs (j : Bool) (i : Nat) : List (Act (Callback Bool) Answer DeviceAct) :=
  [.call (.cleanup j), .effect (.word smallCap.toUInt32),
    .effect (.word (smallCap >>> 32).toUInt32)] ++ acceptActs i ++ acceptActs (i + 1) ++
    [.effect .done, .effect .done, .effect .done, .ret]

/-- One thread gets its pair; the other one does at the second attempt, when the first Create
CQ command has been rejected; then the first thread cleans up. -/
theorem queuesBacked_of_run_rejected :
    ∃ acts s, Run (Calls.step hardware (callback fun _ : Bool => {}))
        (Calls.stepOk FewCommands) (start smallController smallHardware) acts s ∧
      (s.machine.cqs 1 = none ∧ s.machine.sqs 1 = none ∧
        (s.machine.regions.map Region.freed).take 5 = [false, false, true, true, true] ∧
        s.machine.cqs 3 = some (some 8) ∧ s.machine.sqs 3 = some (some 9) ∧
        s.running.isNone = true) ∧ QueuesBacked s.machine := by
  have hEval : (exec (Calls.step hardware (callback fun _ : Bool => {})) fewCommandsTest
      (start smallController smallHardware)
      (createActs false 0 ++ acceptActs 0 ++ acceptActs 1 ++ [.ret] ++
        createActs true 3 ++ rejectActs 2 ++ [.ret] ++
        createActs true 6 ++ acceptActs 3 ++ acceptActs 4 ++ [.ret] ++
        cleanupActs false 5)).any
      (fun s => decide (s.machine.cqs 1 = none ∧ s.machine.sqs 1 = none ∧
        (s.machine.regions.map Region.freed).take 5 = [false, false, true, true, true] ∧
        s.machine.cqs 3 = some (some 8) ∧ s.machine.sqs 3 = some (some 9) ∧
        s.running.isNone = true)) = true := by
    decide +kernel
  obtain ⟨s, hExec, hState⟩ := (Option.any_eq_true _ _).mp hEval
  have hRun := Run.of_exec stepOk_of_fewCommandsTest hExec
  exact ⟨_, s, hRun, of_decide_eq_true hState, queuesBacked_of_run initialised_small hRun⟩

end NewPerf.Engine.QueueLifetime
