import NewPerf.Driver.Genpci
import NewPerf.Lib.Runs

/-!
# `alloc_dma` and `free_dma` on one shared descriptor

`alloc_dma` maps memory and then asks the driver what it has mapped; `free_dma`
marks the entry and unmaps it.  Each is two or three system calls, and the system
calls of different threads interleave.  The state keeps one `Call` for every
`alloc_dma` that has mapped its memory, every `struct mem` in use, and every
`free_dma` under way.  Which entry the `mmap` of a call made is recorded with it
and read by no step.
-/

namespace NewPerf.Driver

open NewPerf.Lib.Runs
open NewPerf.Tools

/-- How far an allocation has come: mapped, to be unmapped again because the
ioctl failed, in the hands of the caller, or marked by `free_dma`. -/
inductive Stage where
  | mapped (len : Nat) (virt : UInt64)
  | undo (len : Nat) (virt : UInt64)
  | held (mem : Mem)
  | releasing (mem : Mem)
  deriving DecidableEq, Repr

structure Call where
  entry : Nat
  stage : Stage
  deriving DecidableEq, Repr

structure State where
  drv : Genpci := {}
  calls : List Call := []

/-- Addresses the kernel chose for a successful `mmap`. -/
structure Placement where
  virt : UInt64
  virtAddr : UInt64
  dmaAddr : UInt64
  deriving DecidableEq, Repr

/-- One system call, with its outcome as far as the driver does not decide it. -/
inductive Act where
  /-- `mmap(NULL, len, ...)` in `alloc_dma`; `none` is `MAP_FAILED`. -/
  | mmap (len : Nat) (p : Option Placement)
  /-- `ioctl(fd, IOCTL_GET_MEMFINFO, &mem)` of the `i`-th call; `copied` is the
  outcome of `copy_to_user`. -/
  | getMemfinfo (i : Nat) (copied : Bool)
  /-- `munmap(virt, len)` of the `i`-th call after its ioctl failed. -/
  | undo (i : Nat)
  /-- `ioctl(mem->fd, IOCTL_RELEASE_MEM, mem)` in `free_dma` of the `i`-th
  `struct mem`. -/
  | releaseMem (i : Nat)
  /-- `munmap(mem->user_virtaddr, mem->size)` in that `free_dma`. -/
  | munmap (i : Nat)

/-- What the kernel promises about the addresses of a new mapping: the range is
page-aligned, not at `NULL`, and free, and no live allocation has the same
addresses. -/
structure Placement.Ok (d : Genpci) (len : Nat) (p : Placement) : Prop where
  virt_pos : 0 < p.virt.toNat
  aligned : p.virt.toNat % 4096 = 0
  inRange : p.virt.toNat + pageAlign len < 2 ^ 63
  free : ∀ v ∈ d.vmas, v.start + v.len ≤ p.virt.toNat ∨
    p.virt.toNat + pageAlign len ≤ v.start
  fresh : ∀ e ∈ d.entries, e.freed = 0 →
    ¬ (e.virtAddr = p.virtAddr ∧ e.dmaAddr = p.dmaAddr)

instance (d : Genpci) (len : Nat) (p : Placement) : Decidable (p.Ok d len) :=
  decidable_of_iff
    (0 < p.virt.toNat ∧ p.virt.toNat % 4096 = 0 ∧
      p.virt.toNat + pageAlign len < 2 ^ 63 ∧
      (∀ v ∈ d.vmas, v.start + v.len ≤ p.virt.toNat ∨
        p.virt.toNat + pageAlign len ≤ v.start) ∧
      ∀ e ∈ d.entries, e.freed = 0 →
        ¬ (e.virtAddr = p.virtAddr ∧ e.dmaAddr = p.dmaAddr))
    ⟨fun ⟨a, b, c, d, e⟩ => ⟨a, b, c, d, e⟩,
      fun h => ⟨h.virt_pos, h.aligned, h.inRange, h.free, h.fresh⟩⟩

/-- The `struct mem` that `alloc_dma` returns after a successful ioctl. -/
def filledMem (fd : Int) (virt : UInt64) (info : Mem) : Mem :=
  { info with fd := fd, userVirtaddr := virt }

/-- One system call. -/
def step (fd : Int) (s : State) : Act → Option State
  | .mmap len p =>
      -- `alloc_dma` makes no system call for a length of zero.
      if len = 0 then none
      else
        match p with
        | none => some s
        | some p =>
            if p.Ok s.drv len then
              some
                { drv := s.drv.mmapDma p.virt.toNat (pageAlign len) 0 p.virtAddr
                    p.dmaAddr
                  calls := s.calls ++ [⟨s.drv.entries.length, .mapped len p.virt⟩] }
            else none
  | .getMemfinfo i copied =>
      match s.calls[i]? with
      | some ⟨k, .mapped len virt⟩ =>
          match s.drv.getMemfinfo with
          | some info =>
              if copied then
                some { s with calls := s.calls.set i ⟨k, .held (filledMem fd virt info)⟩ }
              else some { s with calls := s.calls.set i ⟨k, .undo len virt⟩ }
          | none => some { s with calls := s.calls.set i ⟨k, .undo len virt⟩ }
      | _ => none
  | .undo i =>
      match s.calls[i]? with
      | some ⟨_, .undo len virt⟩ =>
          some { drv := s.drv.munmap virt.toNat len, calls := s.calls.eraseIdx i }
      | _ => none
  | .releaseMem i =>
      match s.calls[i]? with
      | some ⟨k, .held mem⟩ =>
          if mem.userVirtaddr = 0 ∨ mem.size ≤ 0 then some s
          else some
            { drv := s.drv.releaseMem mem
              calls := s.calls.set i ⟨k, .releasing mem⟩ }
      | _ => none
  | .munmap i =>
      match s.calls[i]? with
      | some ⟨_, .releasing mem⟩ =>
          some
            { drv := s.drv.munmap mem.userVirtaddr.toNat mem.size.toInt.toNat
              calls := s.calls.eraseIdx i }
      | _ => none

/-- Everything a system call can do. -/
inductive Moves (fd : Int) (s : State) : Act → State → Prop where
  | mmapFailed {len : Nat} (hLen : len ≠ 0) : Moves fd s (.mmap len none) s
  | mmap {len : Nat} {p : Placement} (hLen : len ≠ 0) (hOk : p.Ok s.drv len) :
      Moves fd s (.mmap len (some p))
        { drv := s.drv.mmapDma p.virt.toNat (pageAlign len) 0 p.virtAddr p.dmaAddr
          calls := s.calls ++ [⟨s.drv.entries.length, .mapped len p.virt⟩] }
  | told {i k len : Nat} {virt : UInt64} {info : Mem}
      (hi : s.calls[i]? = some ⟨k, .mapped len virt⟩) (hInfo : s.drv.getMemfinfo = some info) :
      Moves fd s (.getMemfinfo i true)
        { s with calls := s.calls.set i ⟨k, .held (filledMem fd virt info)⟩ }
  | notTold {i k len : Nat} {virt : UInt64} {copied : Bool}
      (hi : s.calls[i]? = some ⟨k, .mapped len virt⟩)
      (hNot : copied = false ∨ s.drv.getMemfinfo = none) :
      Moves fd s (.getMemfinfo i copied)
        { s with calls := s.calls.set i ⟨k, .undo len virt⟩ }
  | undo {i k len : Nat} {virt : UInt64} (hi : s.calls[i]? = some ⟨k, .undo len virt⟩) :
      Moves fd s (.undo i)
        { drv := s.drv.munmap virt.toNat len, calls := s.calls.eraseIdx i }
  | nothingHeld {i k : Nat} {mem : Mem} (hi : s.calls[i]? = some ⟨k, .held mem⟩)
      (hZero : mem.userVirtaddr = 0 ∨ mem.size ≤ 0) : Moves fd s (.releaseMem i) s
  | releaseMem {i k : Nat} {mem : Mem} (hi : s.calls[i]? = some ⟨k, .held mem⟩)
      (hHeld : ¬ (mem.userVirtaddr = 0 ∨ mem.size ≤ 0)) :
      Moves fd s (.releaseMem i)
        { drv := s.drv.releaseMem mem, calls := s.calls.set i ⟨k, .releasing mem⟩ }
  | munmap {i k : Nat} {mem : Mem} (hi : s.calls[i]? = some ⟨k, .releasing mem⟩) :
      Moves fd s (.munmap i)
        { drv := s.drv.munmap mem.userVirtaddr.toNat mem.size.toInt.toNat
          calls := s.calls.eraseIdx i }

theorem step_cases {fd : Int} {s s' : State} {a : Act} (h : step fd s a = some s') :
    Moves fd s a s' := by
  cases a with
  | mmap len p =>
      simp only [step] at h
      split at h
      · cases h
      rename_i hLen
      cases p with
      | none =>
          cases h
          exact .mmapFailed hLen
      | some p =>
          obtain ⟨hOk, h⟩ := Option.ite_none_right_eq_some.mp h
          cases h
          exact .mmap hLen hOk
  | getMemfinfo i copied =>
      simp only [step] at h
      split at h
      · rename_i k len virt hi
        split at h
        · rename_i info hInfo
          cases copied with
          | true =>
              cases h
              exact .told hi hInfo
          | false =>
              cases h
              exact .notTold hi (.inl rfl)
        · rename_i hInfo
          cases h
          exact .notTold hi (.inr hInfo)
      · cases h
  | undo i =>
      simp only [step] at h
      split at h
      · rename_i hi
        cases h
        exact .undo hi
      · cases h
  | releaseMem i =>
      simp only [step] at h
      split at h
      · rename_i hi
        split at h
        · rename_i hZero
          cases h
          exact .nothingHeld hi hZero
        · rename_i hHeld
          cases h
          exact .releaseMem hi hHeld
      · cases h
  | munmap i =>
      simp only [step] at h
      split at h
      · rename_i hi
        cases h
        exact .munmap hi
      · cases h

/-! ## What is asked of `alloc_dma` -/

/-- The `struct mem` describes the entry mapped at its user address. -/
def Describes (d : Genpci) (mem : Mem) : Prop :=
  ∃ v ∈ d.vmas, v.start = mem.userVirtaddr.toNat ∧
    ∃ e, d.entries[v.entry]? = some e ∧ mem.dmaAddr = e.dmaAddr ∧
      mem.kernelVirtaddr = e.virtAddr ∧ mem.size = e.size

/-- If the step makes `alloc_dma` return a `struct mem`, it describes the entry
mapped there. -/
def Paired (fd : Int) (s : State) : Act → Prop
  | .getMemfinfo i copied => ∀ k len virt info,
      s.calls[i]? = some ⟨k, .mapped len virt⟩ → copied = true →
      s.drv.getMemfinfo = some info → Describes s.drv (filledMem fd virt info)
  | _ => True

/-- A thread asks the driver about its mapping only while no entry made after
its own waits to be released. -/
def NoneNewer (s : State) : Act → Prop
  | .getMemfinfo i copied => ∀ k len virt,
      s.calls[i]? = some ⟨k, .mapped len virt⟩ → copied = true →
      ∀ k' ∈ s.drv.memlist, k < k' → s.drv.unreleased k' = false
  | _ => True

end NewPerf.Driver
