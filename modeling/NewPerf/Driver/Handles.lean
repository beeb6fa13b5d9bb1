import NewPerf.Driver.Pairing

/-!
# The handles of a single thread

One thread calls `alloc_dma` and `free_dma`, one call after the other, and nobody else
uses the device.  Then nothing comes between the `mmap` and the query for the newest
entry, and the `struct mem` values that are not zero correspond to the entries of the
driver: `corresponds_of_run`.
-/

namespace NewPerf.Driver.Handles

open NewPerf.Lib.Runs
open NewPerf.Tools

/-- How the system calls of `alloc_dma` end. -/
inductive AllocOutcome where
  | mmapFailed
  | ioctlFailed (p : Placement)
  | done (p : Placement)
  deriving DecidableEq, Repr

/-- `alloc_dma` -/
def allocDma (fd : Int) (d : Genpci) (len : Nat) (outcome : AllocOutcome) : Mem × Genpci :=
  if len = 0 then ({}, d)
  else
    match outcome with
    | .mmapFailed => ({}, d)
    | .ioctlFailed p =>
        let d := d.mmapDma p.virt.toNat (pageAlign len) 0 p.virtAddr p.dmaAddr
        ({}, d.munmap p.virt.toNat len)
    | .done p =>
        let d := d.mmapDma p.virt.toNat (pageAlign len) 0 p.virtAddr p.dmaAddr
        match d.getMemfinfo with
        | none => ({}, d.munmap p.virt.toNat len)
        | some info => (filledMem fd p.virt info, d)

/-- `free_dma`; `released` is the outcome of `IOCTL_RELEASE_MEM`, which is not looked at. -/
def freeDma (d : Genpci) (mem : Mem) (released : Bool) : Mem × Genpci :=
  if mem.userVirtaddr = 0 ∨ mem.size ≤ 0 then (mem, d)
  else
    let d := if released then d.releaseMem mem else d
    ({}, d.munmap mem.userVirtaddr.toNat mem.size.toInt.toNat)

/-- A `struct mem` that `alloc_dma` returned, with the length it was called with and the
number of the entry its `mmap` made, which no step reads. -/
structure Handle where
  mem : Mem
  len : Nat
  entry : Nat
  deriving DecidableEq, Repr

structure State where
  drv : Genpci := {}
  handles : List Handle := []

/-- The handles that are not zero. -/
def State.held (s : State) : List Handle := s.handles.filter (·.mem ≠ {})

/-- A call. -/
inductive Act where
  | alloc (len : Nat) (outcome : AllocOutcome)
  | free (i : Nat) (released : Bool)
  deriving Repr

/-- The addresses are ones the kernel may choose. -/
def AllocOutcome.Ok (d : Genpci) (len : Nat) : AllocOutcome → Prop
  | .mmapFailed => True
  | .ioctlFailed p | .done p => p.Ok d len

instance (d : Genpci) (len : Nat) (outcome : AllocOutcome) : Decidable (outcome.Ok d len) :=
  match outcome with
  | .mmapFailed => .isTrue trivial
  | .ioctlFailed p => inferInstanceAs (Decidable (p.Ok d len))
  | .done p => inferInstanceAs (Decidable (p.Ok d len))

def step (fd : Int) (s : State) : Act → Option State
  | .alloc len outcome =>
      if outcome.Ok s.drv len then
        some
          { drv := (allocDma fd s.drv len outcome).2
            handles := s.handles ++
              [⟨(allocDma fd s.drv len outcome).1, len, s.drv.entries.length⟩] }
      else none
  | .free i released =>
      s.handles[i]?.map fun h =>
        { drv := (freeDma s.drv h.mem released).2
          handles := s.handles.set i { h with mem := (freeDma s.drv h.mem released).1 } }

/-! ## What is asked of the calls -/

/-- The entry has not been freed. -/
def Live (d : Genpci) (k : Nat) : Prop := ∃ e, d.entries[k]? = some e ∧ e.freed = 0

/-- The handles that are not zero correspond one to one to the live entries, and each
describes its own. -/
structure Corresponds (s : State) : Prop where
  injective : (s.held.map Handle.entry).Nodup
  exact : ∀ k, k ∈ s.held.map Handle.entry ↔ Live s.drv k
  described : ∀ h ∈ s.held, ∃ e, s.drv.entries[h.entry]? = some e ∧
    h.mem.dmaAddr = e.dmaAddr ∧ h.mem.kernelVirtaddr = e.virtAddr ∧
    h.mem.size.toInt = pageAlign h.len

/-- The allocation cannot succeed. -/
def AllocOutcome.fails (len : Nat) : AllocOutcome → Bool
  | .done _ => len = 0
  | _ => true

/-- What one call does: a failed `alloc_dma` returns zero and leaves no entry behind,
`free_dma` releases its own entry and clears the handle, and on a handle that is zero
it changes nothing. -/
def CallOk (fd : Int) (s : State) : Act → Prop
  | .alloc len outcome => ∀ s', step fd s (.alloc len outcome) = some s' →
      (outcome.fails len = true → (∀ k, Live s'.drv k ↔ Live s.drv k) ∧
        ∃ h, s'.handles = s.handles ++ [h] ∧ h.mem = {})
  | .free i released => ∀ s' h, step fd s (.free i released) = some s' →
      s.handles[i]? = some h →
      (h.mem = {} → s' = s) ∧
      (h.mem ≠ {} → (∀ k, Live s'.drv k ↔ Live s.drv k ∧ k ≠ h.entry) ∧
        s'.handles = s.handles.set i { h with mem := {} })

/-! ## The invariant -/

structure HandleInv (s : State) : Prop where
  drv : DrvInv s.drv
  perm : (s.held.map Handle.entry).Perm s.drv.memlist
  own : ∀ h ∈ s.held, Matches s.drv ⟨h.entry, .held h.mem⟩
  sized : ∀ h ∈ s.held, h.mem.size.toInt = pageAlign h.len ∧ h.len ≠ 0 ∧
    h.mem.userVirtaddr ≠ 0

section Driver

variable {d : Genpci}

theorem live_iff (h : DrvInv d) {k : Nat} : Live d k ↔ k ∈ d.memlist := (h.listed k).symm

theorem Matches.entry_lt {c : Call} (h : Matches d c) : c.entry < d.entries.length := by
  obtain ⟨_, _, _, e, he, _⟩ := h
  exact (List.getElem?_eq_some_iff.mp he).1

/-- The newest entry is the one reported. -/
theorem getMemfinfo_mmapDma {start len vmPgoff : Nat} {virtAddr dmaAddr : UInt64} :
    (d.mmapDma start len vmPgoff virtAddr dmaAddr).getMemfinfo = some
      { dmaAddr := dmaAddr, kernelVirtaddr := virtAddr,
        size := Int64.ofNat (pageAlign len) } := by
  have hNew : (d.mmapDma start len vmPgoff virtAddr dmaAddr).entries[d.entries.length]? =
      some { virtAddr, dmaAddr, size := Int64.ofNat (pageAlign len) } := by
    rw [Genpci.mmapDma, List.getElem?_concat_length]
  have hUnreleased : (d.mmapDma start len vmPgoff virtAddr dmaAddr).unreleased
      d.entries.length = true := by
    rw [Genpci.unreleased, hNew]
    rfl
  have hFind : (d.mmapDma start len vmPgoff virtAddr dmaAddr).memlist.find?
      (d.mmapDma start len vmPgoff virtAddr dmaAddr).unreleased = some d.entries.length :=
    List.find?_cons_of_pos hUnreleased
  rw [Genpci.getMemfinfo, hFind]
  dsimp only
  rw [hNew]
  rfl

/-- A mapping that is taken back leaves what was there. -/
theorem undo_mmapDma (h : DrvInv d) {len : Nat} (hLen : len ≠ 0) {p : Placement}
    (hOk : p.Ok d len) :
    let d' := (d.mmapDma p.virt.toNat (pageAlign len) 0 p.virtAddr p.dmaAddr).munmap
      p.virt.toNat len
    DrvInv d' ∧ d'.memlist = d.memlist ∧ ∀ c, Matches d c → Matches d' c := by
  intro d'
  have hInv := h.mmapDma hLen hOk
  have hv : (⟨p.virt.toNat, pageAlign len, p.dmaAddr.toNat, d.entries.length⟩ : Vma) ∈
      (d.mmapDma p.virt.toNat (pageAlign len) 0 p.virtAddr p.dmaAddr).vmas :=
    List.mem_append_right _ (List.mem_singleton_self _)
  refine ⟨hInv.munmap hv rfl, ?_, fun c hc => ?_⟩
  · obtain ⟨_, _, _, _, _, hEq⟩ := hInv.munmap_eq hv (n := len) rfl
    have hMemlist := congrArg Genpci.memlist hEq
    exact hMemlist.trans (List.erase_cons_head _ _)
  · exact hc.mmapDma.munmap hInv hv rfl (Nat.ne_of_lt (Matches.entry_lt hc))

/-- `IOCTL_RELEASE_MEM` in `free_dma`, whether it succeeds or not. -/
theorem release_own (h : DrvInv d) {k : Nat} {mem : Mem}
    (hOwn : Matches d ⟨k, .held mem⟩) (released : Bool) :
    let d' := if released then d.releaseMem mem else d
    DrvInv d' ∧ d'.memlist = d.memlist ∧ d'.vmas = d.vmas ∧
      ∀ c, c.entry ≠ k → Matches d c → Matches d' c := by
  cases released with
  | false => exact ⟨h, rfl, rfl, fun _ _ hc => hc⟩
  | true =>
      obtain ⟨v, hv, hEntry, e, he, -, -, hDma, hVirt, -⟩ := hOwn
      obtain ⟨hLive, -⟩ := Matches.live h hv hEntry he
      simp only [if_true]
      rw [h.releaseMem_eq he hLive hVirt hDma]
      exact ⟨h.release k, rfl, rfl, fun c hne hc => hc.release hne⟩

/-- `free_dma` of a handle that describes an entry unmaps its VMA. -/
theorem freeDma_unmaps (h : DrvInv d) {k : Nat} {mem : Mem}
    (hOwn : Matches d ⟨k, .held mem⟩) (hPos : 0 < mem.size.toInt)
    (hVirt : mem.userVirtaddr ≠ 0) (released : Bool) :
    ∃ v n, v ∈ (if released then d.releaseMem mem else d).vmas ∧ pageAlign n = v.len ∧
      v.entry = k ∧ freeDma d mem released =
        ({}, (if released then d.releaseMem mem else d).munmap v.start n) := by
  have hGuard : ¬ (mem.userVirtaddr = 0 ∨ mem.size ≤ 0) := by
    rintro (hNull | hSize)
    · exact hVirt hNull
    · rw [Int64.le_iff_toInt_le] at hSize
      have hZero : (0 : Int64).toInt = 0 := rfl
      omega
  obtain ⟨-, -, hVmas, -⟩ := release_own h hOwn released
  obtain ⟨v, hv, hEntry, e, he, hStart, -, -, -, hSize⟩ := hOwn
  obtain ⟨-, hLen, hMod⟩ := Matches.live h hv hEntry he
  refine ⟨v, mem.size.toInt.toNat, hVmas ▸ hv, ?_, hEntry, ?_⟩
  · rw [hSize, hLen, Int.toNat_natCast]
    exact pageAlign_of_mod hMod
  · rw [freeDma, if_neg hGuard, show v.start = mem.userVirtaddr.toNat from hStart]

theorem freeDma_eq (h : DrvInv d) {k : Nat} {mem : Mem}
    (hOwn : Matches d ⟨k, .held mem⟩) (hPos : 0 < mem.size.toInt)
    (hVirt : mem.userVirtaddr ≠ 0) (released : Bool) :
    (freeDma d mem released).1 = {} ∧ DrvInv (freeDma d mem released).2 ∧
      (freeDma d mem released).2.memlist = d.memlist.erase k ∧
      ∀ c, c.entry ≠ k → Matches d c → Matches (freeDma d mem released).2 c := by
  obtain ⟨hInv, hMemlist, -, hOthers⟩ := release_own h hOwn released
  obtain ⟨v, n, hv', hn, rfl, hFree⟩ := freeDma_unmaps h hOwn hPos hVirt released
  rw [hFree]
  refine ⟨rfl, hInv.munmap hv' hn, ?_, fun c hne hc => ?_⟩
  · obtain ⟨_, _, _, _, _, hEq⟩ := hInv.munmap_eq hv' hn
    have hErase := congrArg Genpci.memlist hEq
    rw [← hMemlist]
    exact hErase
  · exact (hOthers c hne hc).munmap hInv hv' hn hne

end Driver

/-! ## Calls -/

section Calls

variable {s : State} {fd : Int}

/-- A call that returns zero and leaves the driver as it was. -/
theorem HandleInv.failed (h : HandleInv s) {d : Genpci} {x : Handle} (hZero : x.mem = {})
    (hDrv : DrvInv d) (hMemlist : d.memlist = s.drv.memlist)
    (hKept : ∀ c, Matches s.drv c → Matches d c) :
    HandleInv { drv := d, handles := s.handles ++ [x] } := by
  have hHeld : ({ drv := d, handles := s.handles ++ [x] } : State).held = s.held := by
    rw [State.held, List.filter_append, State.held]
    simp [hZero]
  refine ⟨hDrv, ?_, fun y hy => ?_, fun y hy => ?_⟩
  · rw [hHeld]
    exact hMemlist ▸ h.perm
  · rw [hHeld] at hy
    exact hKept _ (h.own y hy)
  · rw [hHeld] at hy
    exact h.sized y hy

/-- The `struct mem` that describes a new entry. -/
def newMem (fd : Int) (p : Placement) (len : Nat) : Mem :=
  { fd := fd
    userVirtaddr := p.virt
    dmaAddr := p.dmaAddr
    kernelVirtaddr := p.virtAddr
    size := Int64.ofNat (pageAlign (pageAlign len)) }

/-- A call that returns the description of a new entry. -/
theorem HandleInv.done (h : HandleInv s) {len : Nat} (hLen : len ≠ 0) {p : Placement}
    (hOk : p.Ok s.drv len) :
    HandleInv
      { drv := s.drv.mmapDma p.virt.toNat (pageAlign len) 0 p.virtAddr p.dmaAddr
        handles := s.handles ++ [⟨newMem fd p len, len, s.drv.entries.length⟩] } := by
  have hVirt : p.virt ≠ 0 := by
    intro hNull
    have hPos := hOk.virt_pos
    rw [hNull] at hPos
    exact absurd hPos (by decide)
  have hNonzero : newMem fd p len ≠ {} := by
    intro hEmpty
    exact hVirt (congrArg Mem.userVirtaddr hEmpty)
  have hAlign := pageAlign_of_mod (pageAlign_mod len)
  have hRange := hOk.inRange
  have hHeld : ∀ d x, x.mem ≠ {} →
      ({ drv := d, handles := s.handles ++ [x] } : State).held = s.held ++ [x] := by
    intro d x hx
    rw [State.held, List.filter_append, State.held]
    simp [hx]
  refine ⟨h.drv.mmapDma hLen hOk, ?_, fun y hy => ?_, fun y hy => ?_⟩
  · rw [hHeld _ _ hNonzero, List.map_append]
    exact (List.perm_append_singleton _ _).trans (h.perm.cons _)
  · rw [hHeld _ _ hNonzero, List.mem_append, List.mem_singleton] at hy
    rcases hy with hOld | rfl
    · exact (h.own y hOld).mmapDma
    · exact ⟨_, List.mem_append_right _ (List.mem_singleton_self _), rfl, _,
        List.getElem?_concat_length, rfl, rfl, rfl, rfl, rfl⟩
  · rw [hHeld _ _ hNonzero, List.mem_append, List.mem_singleton] at hy
    rcases hy with hOld | rfl
    · exact h.sized y hOld
    · refine ⟨?_, hLen, hVirt⟩
      show (Int64.ofNat (pageAlign (pageAlign len))).toInt = _
      rw [hAlign, Int64.toInt_ofNat_of_lt (by omega)]

/-- What `alloc_dma` does. -/
theorem HandleInv.alloc (h : HandleInv s) (fd : Int) {len : Nat} {outcome : AllocOutcome}
    (hOk : outcome.Ok s.drv len) :
    HandleInv { drv := (allocDma fd s.drv len outcome).2
                handles := s.handles ++
                  [⟨(allocDma fd s.drv len outcome).1, len, s.drv.entries.length⟩] } ∧
      (outcome.fails len = true → (allocDma fd s.drv len outcome).1 = {} ∧
        (allocDma fd s.drv len outcome).2.memlist = s.drv.memlist) := by
  have hNothing : allocDma fd s.drv len outcome = ({}, s.drv) →
      HandleInv { drv := (allocDma fd s.drv len outcome).2
                  handles := s.handles ++
                    [⟨(allocDma fd s.drv len outcome).1, len, s.drv.entries.length⟩] } ∧
        (outcome.fails len = true → (allocDma fd s.drv len outcome).1 = {} ∧
          (allocDma fd s.drv len outcome).2.memlist = s.drv.memlist) := by
    intro hEq
    rw [hEq]
    exact ⟨h.failed rfl h.drv rfl fun _ hc => hc, fun _ => ⟨rfl, rfl⟩⟩
  by_cases hLen : len = 0
  · exact hNothing (if_pos hLen)
  cases outcome with
  | mmapFailed => exact hNothing (if_neg hLen)
  | ioctlFailed p =>
      obtain ⟨hDrv, hMemlist, hKept⟩ := undo_mmapDma h.drv hLen hOk
      simp only [allocDma, if_neg hLen]
      exact ⟨h.failed rfl hDrv hMemlist hKept, fun _ => ⟨trivial, hMemlist⟩⟩
  | done p =>
      simp only [allocDma, if_neg hLen, getMemfinfo_mmapDma]
      refine ⟨h.done hLen hOk, fun hFails => ?_⟩
      exact absurd (of_decide_eq_true hFails) hLen

/-- A handle that is not zero, and the others. -/
theorem held_set {i : Nat} {x : Handle} (hi : s.handles[i]? = some x) (hx : x.mem ≠ {})
    (d : Genpci) :
    s.held.Perm (x :: ({ drv := d, handles := s.handles.set i { x with mem := {} } } :
      State).held) := by
  obtain ⟨hLt, rfl⟩ := List.getElem?_eq_some_iff.mp hi
  have hBefore := (List.getElem_cons_eraseIdx_perm hLt).filter (fun y : Handle => y.mem ≠ {})
  have hAfter := (List.set_perm_cons_eraseIdx hLt
    { s.handles[i] with mem := {} }).filter (fun y : Handle => y.mem ≠ {})
  rw [List.filter_cons_of_pos (by simpa using hx)] at hBefore
  rw [List.filter_cons_of_neg (by simp)] at hAfter
  exact hBefore.symm.trans (hAfter.symm.cons _)

theorem HandleInv.size_pos (h : HandleInv s) {x : Handle} (hx : x ∈ s.held) :
    0 < x.mem.size.toInt := by
  obtain ⟨hSize, hLen, -⟩ := h.sized x hx
  rw [hSize]
  exact Int.natCast_pos.mpr (pageAlign_pos hLen)

/-- What `free_dma` does to a handle that is not zero. -/
theorem HandleInv.free (h : HandleInv s) {i : Nat} {x : Handle}
    (hi : s.handles[i]? = some x) (hx : x.mem ≠ {}) (released : Bool) :
    HandleInv { drv := (freeDma s.drv x.mem released).2
                handles := s.handles.set i { x with mem := {} } } ∧
      (freeDma s.drv x.mem released).1 = {} ∧
      (freeDma s.drv x.mem released).2.memlist = s.drv.memlist.erase x.entry := by
  have hHeld : x ∈ s.held :=
    List.mem_filter.mpr ⟨List.mem_of_getElem? hi, decide_eq_true hx⟩
  obtain ⟨hZero, hDrv, hMemlist, hOthers⟩ :=
    freeDma_eq h.drv (h.own x hHeld) (h.size_pos hHeld) (h.sized x hHeld).2.2 released
  have hPerm := held_set hi hx (freeDma s.drv x.mem released).2
  have hEntries := (hPerm.map Handle.entry).symm.trans h.perm
  refine ⟨⟨hDrv, ?_, fun y hy => ?_, fun y hy => ?_⟩, hZero, hMemlist⟩
  · rw [hMemlist]
    have hErase := hEntries.erase x.entry
    rw [List.map_cons, List.erase_cons_head] at hErase
    exact hErase
  · have hOld : y ∈ s.held := hPerm.mem_iff.mpr (List.mem_cons_of_mem _ hy)
    refine hOthers _ ?_ (h.own y hOld)
    intro hSame
    have hDistinct := hEntries.nodup_iff.mpr h.drv.nodup
    rw [List.map_cons, List.nodup_cons] at hDistinct
    exact hDistinct.1 (List.mem_map.mpr ⟨y, hy, hSame⟩)
  · exact h.sized y (hPerm.mem_iff.mpr (List.mem_cons_of_mem _ hy))

/-- `free_dma` does nothing to a handle that is zero. -/
theorem free_zero {i : Nat} {x : Handle} (hi : s.handles[i]? = some x) (hx : x.mem = {})
    (released : Bool) :
    { drv := (freeDma s.drv x.mem released).2
      handles := s.handles.set i { x with mem := (freeDma s.drv x.mem released).1 } } = s := by
  have hNothing : freeDma s.drv x.mem released = (x.mem, s.drv) := by
    rw [hx]
    exact if_pos (.inl rfl)
  obtain ⟨hLt, rfl⟩ := List.getElem?_eq_some_iff.mp hi
  have hSame : s.handles.set i s.handles[i] = s.handles := List.set_getElem_self hLt
  rw [hNothing]
  dsimp only
  rw [hSame]

theorem HandleInv.step {s' : State} {a : Act} (h : HandleInv s)
    (hStep : step fd s a = some s') : HandleInv s' := by
  cases a with
  | alloc len outcome =>
      obtain ⟨hOk, hStep⟩ := Option.ite_none_right_eq_some.mp hStep
      obtain rfl := Option.some.inj hStep
      exact (h.alloc _ hOk).1
  | free i released =>
      obtain ⟨x, hi, rfl⟩ := Option.map_eq_some_iff.mp hStep
      by_cases hx : x.mem = {}
      · rw [free_zero hi hx]
        exact h
      · obtain ⟨hFree, hZero, -⟩ := h.free hi hx released
        rw [hZero]
        exact hFree

theorem HandleInv.corresponds (h : HandleInv s) : Corresponds s := by
  refine ⟨h.perm.nodup_iff.mpr h.drv.nodup, fun k => ?_, fun x hx => ?_⟩
  · rw [h.perm.mem_iff, live_iff h.drv]
  · obtain ⟨v, -, -, e, he, -, -, hDma, hVirt, -⟩ := h.own x hx
    exact ⟨e, he, hDma, hVirt, (h.sized x hx).1⟩

theorem HandleInv.callOk (h : HandleInv s) (a : Act) : CallOk fd s a := by
  cases a with
  | alloc len outcome =>
      intro s' hStep hFails
      have hInv := h.step hStep
      obtain ⟨hOk, hStep⟩ := Option.ite_none_right_eq_some.mp hStep
      obtain rfl := Option.some.inj hStep
      obtain ⟨hZero, hMemlist⟩ := (h.alloc fd hOk).2 hFails
      refine ⟨fun k => ?_, _, rfl, hZero⟩
      rw [live_iff hInv.drv, live_iff h.drv, hMemlist]
  | free i released =>
      intro s' x hStep hi
      have hInv := h.step hStep
      obtain ⟨y, hi', rfl⟩ := Option.map_eq_some_iff.mp hStep
      obtain rfl := Option.some.inj (hi.symm.trans hi')
      constructor
      · intro hx
        exact free_zero hi hx released
      · intro hx
        obtain ⟨-, hZero, hMemlist⟩ := h.free hi hx released
        refine ⟨fun k => ?_, by rw [hZero]⟩
        rw [live_iff hInv.drv, live_iff h.drv, hMemlist, h.drv.nodup.mem_erase_iff]
        exact and_comm

end Calls

theorem handleInv_init : HandleInv {} :=
  ⟨dmaInv_start.drv, .nil, nofun, nofun⟩

/-- After every call of the only user of a device, the handles that are not zero
correspond one to one to the entries of the driver, and the next call does what it
should. -/
theorem corresponds_of_run {fd : Int} {acts : List Act} {s : State}
    (hRun : Run (step fd) (fun _ _ => True) {} acts s) :
    Corresponds s ∧ ∀ a, CallOk fd s a := by
  have hInv : HandleInv s := hRun.invariant handleInv_init fun _ _ _ h _ hStep => h.step hStep
  exact ⟨hInv.corresponds, hInv.callOk⟩

/-- Two allocations, one that fails in its ioctl, and the first one freed twice. -/
def allocAndFree : List Act :=
  [.alloc 5000 (.done ⟨0x10000, 0xf0000, 0x20000⟩),
    .alloc 4096 (.done ⟨0x30000, 0xf4000, 0x40000⟩),
    .alloc 100 (.ioctlFailed ⟨0x50000, 0xf8000, 0x60000⟩), .free 0 true, .free 0 true]

theorem corresponds_of_run_allocAndFree :
    ∃ s, Run (step 3) (fun _ _ => True) {} allocAndFree s ∧ Corresponds s ∧
      s.held.map Handle.entry = [1] := by
  have hEval : (exec (step 3) (fun _ _ => true) {} allocAndFree).any
      (fun s => decide (s.held.map Handle.entry = [1])) = true := by
    decide +kernel
  obtain ⟨s, hExec, hHeld⟩ := (Option.any_eq_true _ _).mp hEval
  have hRun : Run (step 3) (fun _ _ => True) {} allocAndFree s :=
    Run.of_exec (fun _ _ _ => trivial) hExec
  exact ⟨s, hRun, (corresponds_of_run hRun).1, of_decide_eq_true hHeld⟩

end NewPerf.Driver.Handles
