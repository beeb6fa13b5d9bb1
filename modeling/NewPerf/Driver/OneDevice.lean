import NewPerf.Driver.Handles
import NewPerf.Driver.Isolation

/-!
# One device that stays

`Genpci` describes a device that is alone and never removed.  It is what such a device
looks like in `Devices`: the callbacks do the same to both.  So the system calls of
`alloc_dma` and `free_dma` are runs of the driver of `Devices`, and what holds there of
every run holds of them.
-/

namespace NewPerf.Driver.Devices

open NewPerf.Lib.Runs
open NewPerf.Tools

/-- What there is to see of one device. -/
def Kernel.view (s : Kernel) (d : Nat) : Genpci :=
  { entries := s.entries.map OwnedEntry.toDmaEntry
    memlist := s.memlist d
    vmas := s.vmas }

/-! ## The callbacks -/

section Callbacks

variable {s : Kernel} {d : Nat}

theorem view_entry (s : Kernel) (d k : Nat) :
    (s.view d).entries[k]? = s.entries[k]?.map OwnedEntry.toDmaEntry := List.getElem?_map

/-- A change of an entry is seen as a change of what is seen of it. -/
theorem map_modify (change : OwnedEntry → OwnedEntry) (seen : DmaEntry → DmaEntry)
    (hSeen : ∀ e, (change e).toDmaEntry = seen e.toDmaEntry) (entries : List OwnedEntry)
    (k : Nat) :
    (entries.modify k change).map OwnedEntry.toDmaEntry =
      (entries.map OwnedEntry.toDmaEntry).modify k seen := by
  refine List.ext_getElem? fun j => ?_
  rw [List.getElem?_map, List.getElem?_modify, List.getElem?_modify, List.getElem?_map]
  cases entries[j]? with
  | none => rfl
  | some e =>
      by_cases hk : k = j
      · simp [hk, hSeen]
      · simp [hk]

theorem view_dmaVmaOpen (s : Kernel) (d k : Nat) :
    (s.dmaVmaOpen k).view d = (s.view d).dmaVmaOpen k := by
  have hEntries := map_modify (fun e => { e with vmaRefs := e.vmaRefs + 1 })
    (fun e => { e with vmaRefs := e.vmaRefs + 1 }) (fun _ => rfl) s.entries k
  simp only [Kernel.view, Kernel.dmaVmaOpen, Genpci.dmaVmaOpen, hEntries]
  rfl

/-- The entry is in the list of this device, if it is in any. -/
theorem view_dmaVmaClose {k : Nat} (hOwner : ∀ e, s.entries[k]? = some e →
      e.listed = true → e.pgenpciDev = some d) :
    (s.dmaVmaClose k).view d = (s.view d).dmaVmaClose k := by
  cases he : s.entries[k]? with
  | none => simp only [Kernel.dmaVmaClose, Genpci.dmaVmaClose, view_entry, he, Option.map_none]
  | some e =>
      have hSeen : (s.view d).entries[k]? = some e.toDmaEntry := by
        rw [view_entry, he]
        rfl
      have hEntries : (s.dmaVmaClose k).entries.map OwnedEntry.toDmaEntry =
          (s.entries.map OwnedEntry.toDmaEntry).set k e.close.toDmaEntry := by
        rw [dmaVmaClose_eq he, List.map_set]
      have hMemlist : (s.dmaVmaClose k).memlist d =
          if e.vmaRefs - 1 = 0 ∧ e.listed = true then (s.memlist d).erase k
          else s.memlist d := by
        by_cases hLast : e.vmaRefs - 1 = 0 ∧ e.listed = true
        · have hDevices : (s.dmaVmaClose k).devices = unlink s.devices e k := by
            rw [dmaVmaClose_eq he]
            exact if_pos hLast
          rw [memlist_unlink hDevices, if_pos (hOwner e he hLast.2), if_pos hLast]
        · rw [Kernel.memlist, dmaVmaClose_eq he, if_neg hLast, if_neg hLast, Kernel.memlist]
      simp only [Genpci.dmaVmaClose, hSeen]
      rw [Kernel.view, hEntries, hMemlist, dmaVmaClose_vmas, OwnedEntry.close]
      by_cases hLast : e.vmaRefs - 1 = 0
      · simp only [hLast, if_true, true_and]
        rfl
      · simp only [hLast, if_false, false_and]
        rfl

/-- `dma_vma_close` changes nothing else. -/
theorem dmaVmaClose_rest (s : Kernel) (k : Nat) :
    (s.dmaVmaClose k).devices.length = s.devices.length ∧
      (∀ d, (s.dmaVmaClose k).live d = s.live d) ∧ (s.dmaVmaClose k).files = s.files := by
  cases he : s.entries[k]? with
  | none =>
      rw [Kernel.dmaVmaClose, he]
      exact ⟨rfl, fun _ => rfl, rfl⟩
  | some e =>
      have hUnlink : (unlink s.devices e k).length = s.devices.length ∧
          ∀ d, ((unlink s.devices e k)[d]?.map GenpciDev.live).getD false = s.live d := by
        rw [unlink]
        split
        · exact ⟨rfl, fun _ => rfl⟩
        · refine ⟨List.length_modify _ _ _, fun d => ?_⟩
          rw [getElem?_modify_getD]
          exact ite_self _
      rw [dmaVmaClose_eq he]
      dsimp only
      split
      · exact ⟨hUnlink.1, hUnlink.2, rfl⟩
      · exact ⟨rfl, fun _ => rfl, rfl⟩

theorem view_mmapDma (hLive : s.live d = true) (start len : Nat) (virtAddr dmaAddr : UInt64) :
    (s.mmapDma d start len 0 (.mapped virtAddr dmaAddr)).view d =
      (s.view d).mmapDma start len 0 virtAddr dmaAddr := by
  have hMemlist : (s.mmapDma d start len 0 (.mapped virtAddr dmaAddr)).memlist d =
      s.entries.length :: s.memlist d := by
    rw [memlist_push hLive rfl, if_pos rfl]
  rw [Kernel.view, hMemlist, Genpci.mmapDma]
  simp [Kernel.view, Kernel.mmapDma, mappedBus]

theorem view_unreleased (s : Kernel) (d : Nat) : (s.view d).unreleased = s.unreleased := by
  funext k
  simp only [Genpci.unreleased, Kernel.unreleased, view_entry]
  cases s.entries[k]? <;> rfl

theorem view_named (s : Kernel) (d : Nat) (mem : Mem) : (s.view d).named mem = s.named mem := by
  funext k
  simp only [Genpci.named, Kernel.named, view_entry]
  cases s.entries[k]? <;> rfl

/-- What `IOCTL_GET_MEMFINFO` answers. -/
theorem view_getMemfinfo (s : Kernel) (d : Nat) :
    s.getMemfinfo d true = ((s.view d).getMemfinfo.map IoctlResult.mem).getD .enoent := by
  have hList : (s.view d).memlist = s.memlist d := rfl
  simp only [Kernel.getMemfinfo, Genpci.getMemfinfo, Kernel.reported, view_unreleased, hList]
  cases (s.memlist d).find? s.unreleased with
  | none => rfl
  | some k =>
      simp only [view_entry]
      cases s.entries[k]? <;> rfl

theorem view_releaseMem (s : Kernel) (d : Nat) (mem : Mem) :
    (s.genpciIoctl d (.releaseMem (some mem))).2.view d = (s.view d).releaseMem mem := by
  have hList : (s.view d).memlist = s.memlist d := rfl
  simp only [Kernel.genpciIoctl, Genpci.releaseMem, view_named, hList]
  cases (s.memlist d).find? (s.named mem) with
  | none => rfl
  | some k =>
      have hEntries := map_modify (fun e => { e with releaseRequested := true })
        (fun e => { e with releaseRequested := true }) (fun _ => rfl) s.entries k
      simp only [Kernel.view, hEntries]
      rfl

end Callbacks

/-! ## Runs -/

/-- What `alloc_dma` and `free_dma` do: no page offset, and no file that outlives its
device. -/
def Modest (s : Kernel) (a : Act) : Prop := Careful s a ∧ AtOffsetZero s a

/-- The kernel has one device, with a file open on it, and it looks like `g`. -/
structure Shows (s : Kernel) (g : Genpci) : Prop where
  reached : ∃ acts, Run step Modest {} acts s
  only : s.devices.length = 1
  live : s.live 0 = true
  file : s.privateData 0 = some 0
  view : s.view 0 = g

section Runs

variable {s : Kernel} {g : Genpci}

theorem Shows.careful (h : Shows s g) : ∃ acts, Run step Careful {} acts s := by
  obtain ⟨acts, hRun⟩ := h.reached
  exact ⟨acts, hRun.mono fun _ _ hOk => hOk.1⟩

theorem Shows.isolated (h : Shows s g) : Isolated s := by
  obtain ⟨acts, hRun⟩ := h.reached
  have hBoth : Counted s ∧ Inside s :=
    hRun.invariant (I := fun s => Counted s ∧ Inside s) ⟨counted_init, nofun⟩
      fun _ _ _ h hOk hStep => ⟨h.1.step hStep, h.2.step hOk.2 hStep⟩
  exact .of_inside hBoth.1 hBoth.2

/-- One more callback. -/
theorem Shows.step {s' : Kernel} {g' : Genpci} {a : Act} (h : Shows s g)
    (hStep : step s a = some s') (hOk : Modest s a) (hOnly : s'.devices.length = s.devices.length)
    (hLive : s'.live 0 = s.live 0) (hFiles : s'.files = s.files) (hView : s'.view 0 = g') :
    Shows s' g' := by
  obtain ⟨acts, hRun⟩ := h.reached
  refine ⟨⟨_, hRun.snoc hOk hStep⟩, hOnly.trans h.only, hLive.trans h.live, ?_, hView⟩
  rw [Kernel.privateData, hFiles]
  exact h.file

theorem Shows.careful_file (h : Shows s g) {a : Act} (hFile : ∀ f, a.accesses = some f → f = 0) :
    Careful s a := by
  intro f d hAccess hData
  rw [hFile f hAccess, h.file] at hData
  rw [← Option.some.inj hData]
  exact h.live

theorem Shows.mmapDma (h : Shows s g) (start : Nat) {len : Nat} (hPaged : Paged len)
    (virtAddr dmaAddr : UInt64) :
    ∃ s', Shows s' (g.mmapDma start len 0 virtAddr dmaAddr) := by
  have hStep : Devices.step s (.mmap 0 start len 0 (.mapped virtAddr dmaAddr)) =
      some (s.mmapDma 0 start len 0 (.mapped virtAddr dmaAddr)) := by
    rw [Devices.step, if_pos hPaged, h.file]
    rfl
  refine ⟨_, h.step hStep ⟨h.careful_file fun f hf => ?_, rfl⟩ ?_ ?_ rfl ?_⟩
  · exact (Option.some.inj hf).symm
  · exact List.length_modify _ _ _
  · rw [Kernel.live, Kernel.mmapDma, getElem?_modify_getD]
    exact ite_self _
  · rw [view_mmapDma h.live, h.view]

theorem Shows.releaseMem (h : Shows s g) (mem : Mem) : ∃ s', Shows s' (g.releaseMem mem) := by
  have hStep : Devices.step s (.ioctl 0 (.releaseMem (some mem))) =
      some (s.genpciIoctl 0 (.releaseMem (some mem))).2 := by
    rw [Devices.step, h.file]
    rfl
  have hSame : (s.genpciIoctl 0 (.releaseMem (some mem))).2.devices = s.devices ∧
      (s.genpciIoctl 0 (.releaseMem (some mem))).2.files = s.files := by
    rcases genpciIoctl_cases s 0 (.releaseMem (some mem)) with
      ⟨-, hEq⟩ | ⟨-, hEq | ⟨k, hEq⟩⟩ <;> rw [hEq] <;> exact ⟨rfl, rfl⟩
  refine ⟨_, h.step hStep ⟨h.careful_file fun f hf => ?_, trivial⟩ ?_ ?_ hSame.2 ?_⟩
  · exact (Option.some.inj hf).symm
  · rw [hSame.1]
  · rw [Kernel.live, hSame.1, Kernel.live]
  · rw [view_releaseMem, h.view]

/-- Entries that are in a list are in that of the only device. -/
theorem Shows.owner (h : Shows s g) {k : Nat} {e : OwnedEntry} (he : s.entries[k]? = some e)
    (hListed : e.listed = true) : e.pgenpciDev = some 0 := by
  obtain ⟨acts, hRun⟩ := h.careful
  have hLinked := linked_of_run hRun
  obtain ⟨d, hOwner⟩ := (hLinked.listed k).mp ((listed_eq he).trans hListed)
  have hd : d = 0 := by
    have hLive := hLinked.owner k d hOwner
    by_contra hne
    rw [Kernel.live, List.getElem?_eq_none (by have := h.only; omega)] at hLive
    cases hLive
  rw [Kernel.owner, he, hd] at hOwner
  exact (Option.ite_none_right_eq_some.mp hOwner).2

/-- `munmap` of exactly one VMA is one call of `dma_vma_close`. -/
theorem Shows.munmap (h : Shows s g) (hInv : DrvInv g) {v : Vma} (hv : v ∈ g.vmas) {n : Nat}
    (hn : pageAlign n = v.len) : ∃ s', Shows s' (g.munmap v.start n) := by
  obtain ⟨pre, post, hSplit, hEq⟩ := hInv.munmap_close hv hn
  have hVmas : s.vmas = pre ++ v :: post := by
    rw [← hSplit, ← h.view]
    rfl
  have hAt : s.vmas[pre.length]? = some v := by
    rw [hVmas, List.getElem?_append_right (Nat.le_refl _), Nat.sub_self]
    rfl
  have hErase : s.vmas.eraseIdx pre.length = pre ++ post := by
    rw [hVmas, List.eraseIdx_append_of_length_le (Nat.le_refl _), Nat.sub_self]
    rfl
  have hStep : Devices.step s (.vmaClose pre.length) =
      some ({ s with vmas := s.vmas.eraseIdx pre.length }.dmaVmaClose v.entry) := by
    rw [Devices.step, hAt]
    rfl
  rw [hErase] at hStep
  obtain ⟨hLength, hLive, hFiles⟩ := dmaVmaClose_rest { s with vmas := pre ++ post } v.entry
  refine ⟨_, h.step hStep ⟨h.careful_file fun _ hFile => (by cases hFile), trivial⟩
    hLength (hLive 0) hFiles ?_⟩
  rw [hEq, ← h.view]
  exact view_dmaVmaClose fun _ he hListed => h.owner he hListed

/-- The device has been found and a file opened. -/
theorem shows_init : ∃ s, Shows s {} := by
  have hProbe : Devices.step {} (.probe ⟨0, 1, 0⟩) =
      some { devices := [{ pdev := ⟨0, 1, 0⟩ }] } := rfl
  have hOpen : Devices.step { devices := [{ pdev := ⟨0, 1, 0⟩ }] } (.openFile 0) =
      some { devices := [{ pdev := ⟨0, 1, 0⟩, isOpen := true }], files := [some 0] } := rfl
  have hProbed : Run Devices.step Modest {} [.probe ⟨0, 1, 0⟩] _ :=
    Run.single ⟨fun _ _ hFile => (nomatch hFile), trivial⟩ hProbe
  have hOpened : Run Devices.step Modest {} ([.probe ⟨0, 1, 0⟩] ++ [.openFile 0]) _ :=
    hProbed.snoc ⟨fun _ _ hFile => (nomatch hFile), trivial⟩ hOpen
  exact ⟨_, ⟨_, hOpened⟩, rfl, rfl, rfl, rfl⟩

theorem Shows.placed (h : Shows s g) {len : Nat} (hLen : len ≠ 0) {p : Placement}
    (hOk : p.Ok g len) :
    ∃ s', Shows s' (g.mmapDma p.virt.toNat (pageAlign len) 0 p.virtAddr p.dmaAddr) := by
  have hRange := hOk.inRange
  exact h.mmapDma _ ⟨pageAlign_pos hLen, pageAlign_mod len, by omega⟩ _ _

/-- The system calls of `alloc_dma` and `free_dma` are callbacks of the driver. -/
theorem Shows.systemCall {fd : Int} {s s' : Driver.State} {a : Driver.Act} (hInv : DmaInv s)
    (h : ∃ k, Shows k s.drv) (hStep : Driver.step fd s a = some s') :
    ∃ k, Shows k s'.drv := by
  obtain ⟨k, h⟩ := h
  cases Driver.step_cases hStep with
  | mmapFailed hLen => exact ⟨k, h⟩
  | mmap hLen hOk => exact h.placed hLen hOk
  | told hi hInfo => exact ⟨k, h⟩
  | notTold hi hNot => exact ⟨k, h⟩
  | undo hi =>
      obtain ⟨v, hv, -, -, -, hStart, hLen⟩ := hInv.calls _ (List.mem_of_getElem? hi)
      rw [← hStart]
      exact h.munmap hInv.drv hv hLen.symm
  | nothingHeld hi hZero => exact ⟨k, h⟩
  | releaseMem hi hHeld => exact h.releaseMem _
  | munmap hi =>
      obtain ⟨v, hv, hEntry, e, he, hStart, -, -, -, hSize⟩ :=
        hInv.calls _ (List.mem_of_getElem? hi)
      obtain ⟨-, hLen, hMod⟩ := Matches.live hInv.drv hv hEntry he
      rw [← hStart, hSize, hLen, Int.toNat_natCast]
      exact h.munmap hInv.drv hv (pageAlign_of_mod hMod)

theorem shows_of_paired {fd : Int} {acts : List Driver.Act} {s : Driver.State}
    (hRun : Run (Driver.step fd) (Paired fd) {} acts s) : ∃ k, Shows k s.drv := by
  have hBoth : DmaInv s ∧ ∃ k, Shows k s.drv :=
    hRun.invariant (I := fun s => DmaInv s ∧ ∃ k, Shows k s.drv) ⟨dmaInv_start, shows_init⟩
      fun _ _ _ h hPaired hStep => ⟨h.1.step hPaired hStep, Shows.systemCall h.1 h.2 hStep⟩
  exact hBoth.2

/-- So are whole calls of a single thread. -/
theorem Shows.handleCall {fd : Int} {s s' : Handles.State} {a : Handles.Act}
    (hInv : Handles.HandleInv s) (h : ∃ k, Shows k s.drv)
    (hStep : Handles.step fd s a = some s') : ∃ k, Shows k s'.drv := by
  obtain ⟨k, h⟩ := h
  cases a with
  | alloc len outcome =>
      obtain ⟨hOk, hStep⟩ := Option.ite_none_right_eq_some.mp hStep
      obtain rfl := Option.some.inj hStep
      by_cases hLen : len = 0
      · have hNothing : Handles.allocDma fd s.drv len outcome = ({}, s.drv) := if_pos hLen
        rw [hNothing]
        exact ⟨k, h⟩
      cases outcome with
      | mmapFailed =>
          simp only [Handles.allocDma, if_neg hLen]
          exact ⟨k, h⟩
      | ioctlFailed p =>
          simp only [Handles.allocDma, if_neg hLen]
          obtain ⟨k', hPlaced⟩ := h.placed hLen hOk
          have hv : (⟨p.virt.toNat, pageAlign len, p.dmaAddr.toNat, s.drv.entries.length⟩ : Vma) ∈
              (s.drv.mmapDma p.virt.toNat (pageAlign len) 0 p.virtAddr p.dmaAddr).vmas :=
            List.mem_append_right _ (List.mem_singleton_self _)
          exact hPlaced.munmap (hInv.drv.mmapDma hLen hOk) hv rfl
      | done p =>
          simp only [Handles.allocDma, if_neg hLen, Handles.getMemfinfo_mmapDma]
          exact h.placed hLen hOk
  | free i released =>
      obtain ⟨x, hi, rfl⟩ := Option.map_eq_some_iff.mp hStep
      dsimp only
      by_cases hx : x.mem = {}
      · rw [hx, Handles.freeDma, if_pos (.inl rfl)]
        exact ⟨k, h⟩
      have hHeld : x ∈ s.held :=
        List.mem_filter.mpr ⟨List.mem_of_getElem? hi, decide_eq_true hx⟩
      obtain ⟨v, n, hv, hn, -, hFree⟩ := Handles.freeDma_unmaps hInv.drv (hInv.own x hHeld)
        (hInv.size_pos hHeld) (hInv.sized x hHeld).2.2 released
      have hReleased := (Handles.release_own hInv.drv (hInv.own x hHeld) released).1
      rw [hFree]
      cases released with
      | false => exact h.munmap hReleased hv hn
      | true =>
          obtain ⟨k', hAsked⟩ := h.releaseMem x.mem
          exact hAsked.munmap hReleased hv hn

theorem shows_of_handles {fd : Int} {acts : List Handles.Act} {s : Handles.State}
    (hRun : Run (Handles.step fd) (fun _ _ => True) {} acts s) : ∃ k, Shows k s.drv := by
  have hBoth : Handles.HandleInv s ∧ ∃ k, Shows k s.drv :=
    hRun.invariant (I := fun s => Handles.HandleInv s ∧ ∃ k, Shows k s.drv)
      ⟨Handles.handleInv_init, shows_init⟩
      fun _ _ _ h _ hStep => ⟨h.1.step hStep, Shows.handleCall h.1 h.2 hStep⟩
  exact hBoth.2

/-- What the user of `alloc_dma` can reach through its mappings is the memory the driver
has allocated for them. -/
theorem handles_isolated {fd : Int} {acts : List Handles.Act} {s : Handles.State}
    (hRun : Run (Handles.step fd) (fun _ _ => True) {} acts s) {v : Vma}
    (hv : v ∈ s.drv.vmas) :
    ∃ e, s.drv.entries[v.entry]? = some e ∧ e.freed = 0 ∧ e.dmaAddr.toNat ≤ v.bus ∧
      v.bus + v.len ≤ e.dmaAddr.toNat + e.size.toInt.toNat := by
  obtain ⟨k, hShows⟩ := shows_of_handles hRun
  rw [← hShows.view] at hv ⊢
  obtain ⟨e, he, hFreed, -, hWithin⟩ := hShows.isolated v hv
  exact ⟨e.toDmaEntry, by rw [view_entry, he]; rfl, hFreed, hWithin⟩

end Runs

end NewPerf.Driver.Devices
