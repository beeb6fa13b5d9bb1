import NewPerf.Driver.Genpci
import NewPerf.Lib.Runs

/-!
# Several devices, and devices that go away

`Genpci` is one device that stays.  Here there are any number of them, bound and
unbound at any time, with files open on them and mappings in any number of
processes.  Every callback of the driver is one step.

A `struct genpci_dev` is known by its number in the order of `genpci_probe`.
`genpci_remove` frees it, but the files that are open on it stay open and keep their
`private_data`.  `stray` records that a callback has read or written a `struct
genpci_dev` after it was freed; such an access finds what was there last, which is
the best that can happen.
-/

namespace NewPerf.Driver.Devices

open NewPerf.Lib.Runs
open NewPerf.Tools

/-! ## State -/

/-- What the driver reads of a `struct pci_dev`. -/
structure PciDev where
  domain : Int32
  bus : UInt8
  devfn : UInt8
  deriving DecidableEq, Repr

/-- `struct bdf` -/
structure Bdf where
  domain : Int32
  bus : UInt8
  dev : UInt8
  func : UInt8
  deriving DecidableEq, Repr

/-- `struct genpci_dev`; `live` until it is freed. -/
structure GenpciDev where
  pdev : PciDev
  isOpen : Bool := false
  memlist : List Nat := []
  live : Bool := true
  deriving DecidableEq, Repr

/-- `struct dma_entry` with its two device pointers, and how often its memory has been
allocated and freed and its device reference taken and dropped.  `freed` counts the
calls of `kfree` on the entry. -/
structure OwnedEntry extends DmaEntry where
  pgenpciDev : Option Nat := none
  dev : Option Nat := none
  coherentAllocs : Nat := 0
  coherentFrees : Nat := 0
  deviceGets : Nat := 0
  devicePuts : Nat := 0
  deriving DecidableEq, Repr

/-- `kzalloc(sizeof(struct dma_entry))` -/
def zeroedEntry : OwnedEntry :=
  { virtAddr := 0, dmaAddr := 0, size := 0, vmaRefs := 0, listed := false }

structure Kernel where
  devices : List GenpciDev := []
  /-- `private_data` of the files, until they are closed. -/
  files : List (Option Nat) := []
  entries : List OwnedEntry := []
  vmas : List Vma := []
  stray : Bool := false

/-- The `struct genpci_dev` has not been freed. -/
def Kernel.live (s : Kernel) (d : Nat) : Bool := (s.devices[d]?.map GenpciDev.live).getD false

/-- A callback accesses the `struct genpci_dev`. -/
def Kernel.touch (s : Kernel) (d : Nat) : Kernel := { s with stray := s.stray || !s.live d }

/-! ## VMA callbacks -/

/-- `dma_vma_open` -/
def Kernel.dmaVmaOpen (s : Kernel) (k : Nat) : Kernel :=
  { s with entries := s.entries.modify k fun e => { e with vmaRefs := e.vmaRefs + 1 } }

/-- `list_del(&entry->list)` -/
def unlink (devices : List GenpciDev) (e : OwnedEntry) (k : Nat) : List GenpciDev :=
  match e.pgenpciDev with
  | none => devices
  | some d => devices.modify d fun g => { g with memlist := g.memlist.erase k }

/-- `dma_vma_close` -/
def Kernel.dmaVmaClose (s : Kernel) (k : Nat) : Kernel :=
  match s.entries[k]? with
  | none => s
  | some e =>
      let s := match e.pgenpciDev with
        | none => s
        | some d => s.touch d
      if e.vmaRefs - 1 = 0 then
        { s with
          entries := s.entries.set k
            { e with
              vmaRefs := 0
              listed := false
              coherentFrees := e.coherentFrees + 1
              devicePuts := e.devicePuts + 1
              freed := e.freed + 1 }
          devices := if e.listed then unlink s.devices e k else s.devices }
      else { s with entries := s.entries.set k { e with vmaRefs := e.vmaRefs - 1 } }

/-! ## File operations -/

/-- `genpci_open` -/
def Kernel.genpciOpen (s : Kernel) (d : Nat) : Kernel :=
  { s with
    devices := s.devices.modify d fun g => { g with isOpen := true }
    files := s.files ++ [some d] }

/-- `genpci_close` -/
def Kernel.genpciClose (s : Kernel) (f d : Nat) : Kernel :=
  { s.touch d with
    devices := s.devices.modify d fun g => { g with isOpen := false }
    files := s.files.set f none }

/-- How far `mmap_dma` gets: `kzalloc`, `dma_alloc_coherent` or the mapping itself
fails, or nothing does. -/
inductive MmapOutcome where
  | noEntry
  | noMemory
  | notMapped
  | mapped (virtAddr dmaAddr : UInt64)
  deriving DecidableEq, Repr

/-- The bus address that is mapped at the start of the VMA: `dma_mmap_coherent` maps the
allocation, `remap_pfn_range` the page frames from the given one on. -/
def mappedBus (dmaAddr vmPgoff : UInt64) : Nat :=
  if vmPgoff = 0 then dmaAddr.toNat else ((dmaAddr >>> 12) + vmPgoff).toNat * 4096

/-- `mmap_dma` -/
def Kernel.mmapDma (s : Kernel) (d start len : Nat) (vmPgoff : UInt64) :
    MmapOutcome → Kernel
  | .noEntry => s
  | .noMemory => { s.touch d with entries := s.entries ++ [{ zeroedEntry with freed := 1 }] }
  | .notMapped =>
      { s.touch d with
        entries := s.entries ++
          [{ zeroedEntry with coherentAllocs := 1, coherentFrees := 1, freed := 1 }] }
  | .mapped virtAddr dmaAddr =>
      { s.touch d with
        devices := s.devices.modify d fun g =>
          { g with memlist := s.entries.length :: g.memlist }
        entries := s.entries ++
          [{ virtAddr, dmaAddr, size := Int64.ofNat (pageAlign len), vmaRefs := 1,
             listed := true, pgenpciDev := some d, dev := some d, coherentAllocs := 1,
             deviceGets := 1 }]
        vmas := s.vmas ++
          [{ start, len, bus := mappedBus dmaAddr vmPgoff, entry := s.entries.length }] }

/-! ## ioctls -/

/-- The commands, with the outcomes of `copy_to_user` and `copy_from_user`. -/
inductive Ioctl where
  | getMemfinfo (copied : Bool)
  | getBdf (copied : Bool)
  | releaseMem (mem : Option Mem)
  | other
  deriving Repr

inductive IoctlResult where
  | mem (mem : Mem)
  | bdf (bdf : Bdf)
  | done
  | enoent
  | efault
  | enotty
  deriving Repr

/-- `memlist` of a device. -/
def Kernel.memlist (s : Kernel) (d : Nat) : List Nat :=
  (s.devices[d]?.map GenpciDev.memlist).getD []

def Kernel.unreleased (s : Kernel) (k : Nat) : Bool :=
  match s.entries[k]? with
  | none => false
  | some e => !e.releaseRequested

def Kernel.named (s : Kernel) (mem : Mem) (k : Nat) : Bool :=
  match s.entries[k]? with
  | none => false
  | some e => e.virtAddr == mem.kernelVirtaddr && e.dmaAddr == mem.dmaAddr

/-- The entry that `IOCTL_GET_MEMFINFO` finds. -/
def Kernel.reported (s : Kernel) (d : Nat) : Option Nat := (s.memlist d).find? s.unreleased

/-- What it answers. -/
def Kernel.getMemfinfo (s : Kernel) (d : Nat) (copied : Bool) : IoctlResult :=
  match s.reported d with
  | none => .enoent
  | some k =>
      match s.entries[k]? with
      | none => .enoent
      | some e =>
          if copied then
            .mem { dmaAddr := e.dmaAddr, kernelVirtaddr := e.virtAddr, size := e.size }
          else .efault

/-- `IOCTL_GET_BDF` -/
def Kernel.getBdf (s : Kernel) (d : Nat) (copied : Bool) : IoctlResult :=
  match s.devices[d]? with
  | none => .efault
  | some g =>
      if copied then
        .bdf { domain := g.pdev.domain, bus := g.pdev.bus,
               dev := (g.pdev.devfn >>> 3) &&& 0x1f, func := g.pdev.devfn &&& 0x07 }
      else .efault

/-- `genpci_ioctl` -/
def Kernel.genpciIoctl (s : Kernel) (d : Nat) : Ioctl → IoctlResult × Kernel
  | .getMemfinfo copied => (s.getMemfinfo d copied, s.touch d)
  | .getBdf copied => (s.getBdf d copied, s.touch d)
  | .releaseMem none => (.efault, s)
  | .releaseMem (some mem) =>
      match (s.memlist d).find? (s.named mem) with
      | none => (.enoent, s.touch d)
      | some k =>
          (.done, { s.touch d with
            entries := s.entries.modify k fun e => { e with releaseRequested := true } })
  | .other => (.enotty, s)

/-! ## `genpci_remove` -/

/-- What `genpci_detach_dma_entries` does to an entry. -/
def OwnedEntry.detach (e : OwnedEntry) : OwnedEntry :=
  { e with listed := false, pgenpciDev := none, releaseRequested := true }

/-- `genpci_detach_dma_entries` -/
def genpciDetachDmaEntries (entries : List OwnedEntry) (memlist : List Nat) :
    List OwnedEntry :=
  memlist.foldl (fun entries k => entries.modify k OwnedEntry.detach) entries

/-- `genpci_remove` -/
def Kernel.genpciRemove (s : Kernel) (d : Nat) : Kernel :=
  { s with
    entries := genpciDetachDmaEntries s.entries (s.memlist d)
    devices := s.devices.modify d fun g => { g with memlist := [], live := false } }

/-! ## Steps -/

/-- A callback, with what it is given. -/
inductive Act where
  | probe (pdev : PciDev)
  | openFile (d : Nat)
  | closeFile (f : Nat)
  | mmap (f start len : Nat) (vmPgoff : UInt64) (outcome : MmapOutcome)
  | ioctl (f : Nat) (cmd : Ioctl)
  /-- A VMA is copied, by `fork` to the same address or by `mremap` to another. -/
  | vmaOpen (i start : Nat)
  /-- A VMA is cut in two. -/
  | vmaSplit (i off : Nat)
  | vmaClose (i : Nat)
  | remove (d : Nat)
  deriving Repr

/-- `private_data` of an open file. -/
def Kernel.privateData (s : Kernel) (f : Nat) : Option Nat := s.files[f]?.join

/-- The range of a VMA is a number of whole pages. -/
def Paged (len : Nat) : Prop := 0 < len ∧ len % 4096 = 0 ∧ len < 2 ^ 63

instance (len : Nat) : Decidable (Paged len) :=
  inferInstanceAs (Decidable (0 < len ∧ len % 4096 = 0 ∧ len < 2 ^ 63))

def step (s : Kernel) : Act → Option Kernel
  | .probe pdev => some { s with devices := s.devices ++ [{ pdev := pdev }] }
  | .openFile d => if s.live d then some (s.genpciOpen d) else none
  | .closeFile f => (s.privateData f).map fun d => s.genpciClose f d
  | .mmap f start len vmPgoff outcome =>
      if Paged len then
        (s.privateData f).map fun d => s.mmapDma d start len vmPgoff outcome
      else none
  | .ioctl f cmd => (s.privateData f).map fun d => (s.genpciIoctl d cmd).2
  | .vmaOpen i start =>
      s.vmas[i]?.map fun v =>
        { s with vmas := s.vmas ++ [{ v with start := start }] }.dmaVmaOpen v.entry
  | .vmaSplit i off =>
      match s.vmas[i]? with
      | none => none
      | some v =>
          if Paged off ∧ off < v.len then
            some ({ s with
              vmas := s.vmas.set i { v with len := off } ++
                [{ v with start := v.start + off, len := v.len - off,
                          bus := v.bus + off }] }.dmaVmaOpen v.entry)
          else none
  | .vmaClose i =>
      s.vmas[i]?.map fun v => { s with vmas := s.vmas.eraseIdx i }.dmaVmaClose v.entry
  | .remove d => if s.live d then some (s.genpciRemove d) else none

/-! ## Accesses through files -/

/-- The command gets as far as reading the `struct genpci_dev`. -/
def Ioctl.accesses : Ioctl → Bool
  | .getMemfinfo _ | .getBdf _ | .releaseMem (some _) => true
  | .releaseMem none | .other => false

/-- The file through whose `private_data` the callback accesses a `struct genpci_dev`. -/
def Act.accesses : Act → Option Nat
  | .closeFile f => some f
  | .mmap f _ _ _ outcome => if outcome = .noEntry then none else some f
  | .ioctl f cmd => if cmd.accesses then some f else none
  | _ => none

/-- A file operation that needs the device is made only while it is there. -/
def Careful (s : Kernel) (a : Act) : Prop :=
  ∀ f d, a.accesses = some f → s.privateData f = some d → s.live d = true

theorem careful_iff {s : Kernel} {a : Act} :
    (a.accesses.bind s.privateData).all s.live = true ↔ Careful s a := by
  constructor
  · intro h f d hFile hData
    rw [hFile, Option.bind_some, hData] at h
    exact h
  · intro h
    cases hFile : a.accesses with
    | none => rfl
    | some f =>
        rw [Option.bind_some]
        cases hData : s.privateData f with
        | none => rfl
        | some d => exact h f d hFile hData

instance (s : Kernel) (a : Act) : Decidable (Careful s a) := decidable_of_iff _ careful_iff

/-! ## What a step can do -/

/-- Everything a step can do. -/
inductive Moves (s : Kernel) : Act → Kernel → Prop where
  | probe {pdev : PciDev} :
      Moves s (.probe pdev) { s with devices := s.devices ++ [{ pdev := pdev }] }
  | openFile {d : Nat} (hLive : s.live d = true) : Moves s (.openFile d) (s.genpciOpen d)
  | closeFile {f d : Nat} (hFile : s.privateData f = some d) :
      Moves s (.closeFile f) (s.genpciClose f d)
  | mmap {f d start len : Nat} {vmPgoff : UInt64} {outcome : MmapOutcome}
      (hPaged : Paged len) (hFile : s.privateData f = some d) :
      Moves s (.mmap f start len vmPgoff outcome) (s.mmapDma d start len vmPgoff outcome)
  | ioctl {f d : Nat} {cmd : Ioctl} (hFile : s.privateData f = some d) :
      Moves s (.ioctl f cmd) (s.genpciIoctl d cmd).2
  | vmaOpen {i start : Nat} {v : Vma} (hv : s.vmas[i]? = some v) :
      Moves s (.vmaOpen i start)
        ({ s with vmas := s.vmas ++ [{ v with start := start }] }.dmaVmaOpen v.entry)
  | vmaSplit {i off : Nat} {v : Vma} (hv : s.vmas[i]? = some v) (hPaged : Paged off)
      (hLt : off < v.len) :
      Moves s (.vmaSplit i off)
        ({ s with
          vmas := s.vmas.set i { v with len := off } ++
            [{ v with start := v.start + off, len := v.len - off,
                      bus := v.bus + off }] }.dmaVmaOpen v.entry)
  | vmaClose {i : Nat} {v : Vma} (hv : s.vmas[i]? = some v) :
      Moves s (.vmaClose i) ({ s with vmas := s.vmas.eraseIdx i }.dmaVmaClose v.entry)
  | remove {d : Nat} (hLive : s.live d = true) : Moves s (.remove d) (s.genpciRemove d)

theorem step_cases {s s' : Kernel} {a : Act} (h : step s a = some s') : Moves s a s' := by
  cases a with
  | probe pdev =>
      obtain rfl := Option.some.inj h
      exact .probe
  | openFile d =>
      obtain ⟨hLive, h⟩ := Option.ite_none_right_eq_some.mp h
      obtain rfl := Option.some.inj h
      exact .openFile hLive
  | closeFile f =>
      obtain ⟨d, hFile, rfl⟩ := Option.map_eq_some_iff.mp h
      exact .closeFile hFile
  | mmap f start len vmPgoff outcome =>
      obtain ⟨hPaged, h⟩ := Option.ite_none_right_eq_some.mp h
      obtain ⟨d, hFile, rfl⟩ := Option.map_eq_some_iff.mp h
      exact .mmap hPaged hFile
  | ioctl f cmd =>
      obtain ⟨d, hFile, rfl⟩ := Option.map_eq_some_iff.mp h
      exact .ioctl hFile
  | vmaOpen i start =>
      obtain ⟨v, hv, rfl⟩ := Option.map_eq_some_iff.mp h
      exact .vmaOpen hv
  | vmaSplit i off =>
      simp only [step] at h
      split at h
      · cases h
      · rename_i v hv
        obtain ⟨hCut, h⟩ := Option.ite_none_right_eq_some.mp h
        obtain rfl := Option.some.inj h
        exact .vmaSplit hv hCut.1 hCut.2
  | vmaClose i =>
      obtain ⟨v, hv, rfl⟩ := Option.map_eq_some_iff.mp h
      exact .vmaClose hv
  | remove d =>
      obtain ⟨hLive, h⟩ := Option.ite_none_right_eq_some.mp h
      obtain rfl := Option.some.inj h
      exact .remove hLive

/-- The only change an ioctl makes is a request for release. -/
theorem genpciIoctl_cases (s : Kernel) (d : Nat) (cmd : Ioctl) :
    (cmd.accesses = false ∧ (s.genpciIoctl d cmd).2 = s) ∨
    (cmd.accesses = true ∧ ((s.genpciIoctl d cmd).2 = s.touch d ∨
      ∃ k, (s.genpciIoctl d cmd).2 = { s.touch d with
        entries := s.entries.modify k fun e => { e with releaseRequested := true } })) := by
  cases cmd with
  | getMemfinfo copied => exact .inr ⟨rfl, .inl rfl⟩
  | getBdf copied => exact .inr ⟨rfl, .inl rfl⟩
  | releaseMem mem =>
      cases mem with
      | none => exact .inl ⟨rfl, rfl⟩
      | some mem =>
          refine .inr ⟨rfl, ?_⟩
          simp only [Kernel.genpciIoctl]
          split
          · exact .inl rfl
          · exact .inr ⟨_, rfl⟩
  | other => exact .inl ⟨rfl, rfl⟩

end NewPerf.Driver.Devices
