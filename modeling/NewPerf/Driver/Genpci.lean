import NewPerf.Tools.Nvme
import Mathlib.Data.List.Basic
import Mathlib.Logic.Function.Iterate

/-!
# The kernel driver `genpci`

One `mmap` of the character device makes one `struct dma_entry`, which lives
until the last VMA that refers to it is closed.  The entries of a device are
kept in `memlist`, the newest first, and the two ioctls walk that list.

An entry is known by its number in the order of allocation.  Addresses are what
the kernel chooses and come in as arguments.  The callbacks of `dma_vm_ops` are
called by the memory management of the kernel; `munmap` says when.
-/

namespace NewPerf.Driver

open NewPerf.Tools

/-- `PAGE_ALIGN` -/
def pageAlign (n : Nat) : Nat := (n + 4095) / 4096 * 4096

theorem pageAlign_mod (n : Nat) : pageAlign n % 4096 = 0 := Nat.mul_mod_left _ _

theorem pageAlign_pos {n : Nat} (h : n ≠ 0) : 0 < pageAlign n := by
  unfold pageAlign
  omega

theorem le_pageAlign (n : Nat) : n ≤ pageAlign n := by
  unfold pageAlign
  omega

theorem pageAlign_of_mod {n : Nat} (h : n % 4096 = 0) : pageAlign n = n := by
  unfold pageAlign
  omega

/-- `struct dma_entry`; `freed` counts how often its memory and the entry itself
have been given back. -/
structure DmaEntry where
  virtAddr : UInt64
  dmaAddr : UInt64
  size : Int64
  vmaRefs : Nat := 1
  releaseRequested : Bool := false
  listed : Bool := true
  freed : Nat := 0
  deriving DecidableEq, Repr

/-- A `struct vm_area_struct` of the driver: its range, the bus address mapped at
its start, and the entry in `vm_private_data`. -/
structure Vma where
  start : Nat
  len : Nat
  bus : Nat
  entry : Nat
  deriving DecidableEq, Repr

/-- One device: the entries ever made, `memlist`, and the VMAs that exist. -/
structure Genpci where
  entries : List DmaEntry := []
  memlist : List Nat := []
  vmas : List Vma := []

/-! ## VMA callbacks -/

/-- `dma_vma_open` -/
def Genpci.dmaVmaOpen (d : Genpci) (k : Nat) : Genpci :=
  { d with entries := d.entries.modify k fun e => { e with vmaRefs := e.vmaRefs + 1 } }

/-- `dma_vma_close` -/
def Genpci.dmaVmaClose (d : Genpci) (k : Nat) : Genpci :=
  match d.entries[k]? with
  | none => d
  | some e =>
      if e.vmaRefs - 1 = 0 then
        { d with
          entries := d.entries.set k
            { e with vmaRefs := 0, listed := false, freed := e.freed + 1 }
          memlist := if e.listed then d.memlist.erase k else d.memlist }
      else { d with entries := d.entries.set k { e with vmaRefs := e.vmaRefs - 1 } }

/-! ## `mmap` and `munmap` -/

/-- `mmap_dma` when everything it calls succeeds, for the range
`[start, start + len)`. -/
def Genpci.mmapDma (d : Genpci) (start len vmPgoff : Nat) (virtAddr dmaAddr : UInt64) :
    Genpci :=
  let size := pageAlign len
  let bus := if vmPgoff = 0 then dmaAddr.toNat
    else (dmaAddr.toNat / 4096 + vmPgoff) * 4096
  { entries := d.entries ++ [{ virtAddr, dmaAddr, size := Int64.ofNat size }]
    memlist := d.entries.length :: d.memlist
    vmas := d.vmas ++ [{ start, len, bus, entry := d.entries.length }] }

/-- The VMA has a byte in `[a, b)`. -/
def Vma.overlaps (v : Vma) (a b : Nat) : Bool := v.start < b && a < v.start + v.len

/-- What remains of a VMA when `[a, b)` is unmapped. -/
def Vma.cut (v : Vma) (a b : Nat) : List Vma :=
  (if v.start < a then [{ v with len := a - v.start }] else []) ++
    (if b < v.start + v.len then
      [{ v with start := b, len := v.start + v.len - b, bus := v.bus + (b - v.start) }]
    else [])

/-- `munmap(a, n)`: every VMA hit is replaced by what remains of it.  The kernel
opens each remaining piece and closes the VMA. -/
def Genpci.munmap (d : Genpci) (a n : Nat) : Genpci :=
  let b := a + pageAlign n
  let hit := d.vmas.filter fun v => v.overlaps a b
  let d := { d with
    vmas := d.vmas.flatMap fun v => if v.overlaps a b then v.cut a b else [v] }
  hit.foldl (fun d v =>
    (Nat.iterate (fun d => d.dmaVmaOpen v.entry) (v.cut a b).length d).dmaVmaClose
      v.entry) d

/-! ## ioctls -/

/-- The entry is still to be reported. -/
def Genpci.unreleased (d : Genpci) (k : Nat) : Bool :=
  match d.entries[k]? with
  | none => false
  | some e => !e.releaseRequested

/-- `IOCTL_GET_MEMFINFO`: the newest entry whose release has not been requested,
or `-ENOENT`. -/
def Genpci.getMemfinfo (d : Genpci) : Option Mem :=
  match d.memlist.find? d.unreleased with
  | none => none
  | some k => d.entries[k]?.map fun e =>
      { dmaAddr := e.dmaAddr, kernelVirtaddr := e.virtAddr, size := e.size }

/-- The entry is the one `mem` names. -/
def Genpci.named (d : Genpci) (mem : Mem) (k : Nat) : Bool :=
  match d.entries[k]? with
  | none => false
  | some e => e.virtAddr == mem.kernelVirtaddr && e.dmaAddr == mem.dmaAddr

/-- `IOCTL_RELEASE_MEM`: mark the first entry that `mem` names; without one the
driver answers `-ENOENT` and changes nothing. -/
def Genpci.releaseMem (d : Genpci) (mem : Mem) : Genpci :=
  match d.memlist.find? (d.named mem) with
  | none => d
  | some k =>
      { d with entries := d.entries.modify k fun e => { e with releaseRequested := true } }

end NewPerf.Driver
