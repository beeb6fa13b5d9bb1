import NewPerf.Tools.Doorbells
import NewPerf.Lib.Handlers

/-!
# Finding the device: `lib/ctrl_access.c` and `lib/driver/api/dma.c`

`Effect.bar0Map` and `Effect.dmaOpen` are functions of the repository.  Here they are
programs over system calls, and `syscalls` puts them in the place of the two effects, so
that `controller_init` becomes a program over system calls, registers and memory.

`Kernel` is the process as the operating system sees it: its open files, its open
directory streams, what its BAR0 window maps and which file each DMA allocation was made
through.  The controller underneath is `Hardware`, as before.  What is used of Linux:

* a descriptor returned by `open` was not open before, and `close` closes it even when it
  reports an error;
* the file `resource0` belongs to the function named in its path, and `IOCTL_GET_BDF` on
  a `genpci` node reports the function the node is bound to;
* any of the calls may fail, and `readdir` delivers names in any order.

Paths are lists of characters.  `errno` may hold anything whenever it is read.
-/

namespace NewPerf.Tools

open NewPerf.Lib.Programs

/-- `struct bdf` of `driver/common.h`: the name of a PCI function. -/
structure Bdf where
  domain : Int := 0
  bus : UInt8 := 0
  dev : UInt8 := 0
  func : UInt8 := 0
  deriving DecidableEq, Repr

/-! ## System calls -/

inductive Syscall where
  /-- `opendir`; the result is what `readdir` will deliver until it returns `NULL`. -/
  | opendir (path : List Char)
  | closedir
  /-- `open`; negative on failure. -/
  | openFile (path : List Char)
  /-- `ioctl(fd, IOCTL_GET_BDF, &bdf)`; nothing unless it returns 0. -/
  | getBdf (fd : Int)
  /-- `close`; the result tells whether it succeeded. -/
  | close (fd : Int)
  /-- `mmap` of a BAR; nothing on `MAP_FAILED`. -/
  | mmap (fd : Int) (size : Nat)
  /-- `munmap`; the result tells whether it succeeded. -/
  | munmap (addr : UInt64)
  | readErrno
  | writeErrno (errno : Int)
  /-- An access that is not a call of this module. -/
  | access (e : Effect)
  deriving DecidableEq, Repr

/-- What a system call returns. -/
@[reducible] def Syscall.Result : Syscall → Type
  | .opendir _ => Option (List (List Char))
  | .closedir => Unit
  | .openFile _ => Int
  | .getBdf _ => Option Bdf
  | .close _ => Bool
  | .mmap _ _ => Option UInt64
  | .munmap _ => Bool
  | .readErrno => Int
  | .writeErrno _ => Unit
  | .access e => e.Result

/-- Programs over system calls. -/
abbrev Os := Prog Syscall Syscall.Result

def access (e : Effect) : Os e.Result := perform (Syscall.access e)

def osPrintErrno (message : String) : Os Unit := access (.printErrno message)

/-! ## `dma_open` -/

def ENOENT : Int := 2
def ENAMETOOLONG : Int := 36
def pathMax : Nat := 4096

def genpciDevDir : List Char := "/dev".toList
def genpciPrefix : List Char := "genpci".toList

/-- `is_genpci_name` -/
def isGenpciName (name : List Char) : Bool := genpciPrefix.isPrefixOf name

/-- `bdf_matches` -/
def bdfMatches (bdf : Bdf) (domain bus dev func : Int) : Bool :=
  bdf.domain = domain ∧ (bdf.bus.toNat : Int) = bus ∧ (bdf.dev.toNat : Int) = dev ∧
    (bdf.func.toNat : Int) = func

/-- The path of a node. -/
def genpciPath (name : List Char) : List Char := genpciDevDir ++ ['/'] ++ name

/-- The loop of `dma_open_domain` over the names still to come. -/
def dmaScan (domain bus dev func : Int) : List (List Char) → Int → Os Int
  | [], savedErrno => do
      perform Syscall.closedir
      perform (Syscall.writeErrno savedErrno)
      return -1
  | name :: rest, savedErrno =>
      if !isGenpciName name then dmaScan domain bus dev func rest savedErrno
      else if (genpciPath name).length ≥ pathMax then
        dmaScan domain bus dev func rest ENAMETOOLONG
      else do
        let fd ← perform (Syscall.openFile (genpciPath name))
        if fd < 0 then do
          let errno ← perform Syscall.readErrno
          dmaScan domain bus dev func rest errno
        else do
          let bdf ← perform (Syscall.getBdf fd)
          if bdf.any (bdfMatches · domain bus dev func) then do
            perform Syscall.closedir
            return fd
          else do
            let errno ← perform Syscall.readErrno
            let _ ← perform (Syscall.close fd)
            dmaScan domain bus dev func rest (if errno ≠ 0 then errno else savedErrno)

/-- `dma_open_domain` -/
def dmaOpenDomain (domain bus dev func : Int) : Os Int := do
  let some names ← perform (Syscall.opendir genpciDevDir) | return -1
  dmaScan domain bus dev func names ENOENT

/-- `dma_open` -/
def dmaOpen (bus dev func : Int) : Os Int := dmaOpenDomain 0 bus dev func

/-! ## `controller_bar0_map` -/

/-- `pci_bdf_is_valid` -/
def pciBdfIsValid (dev func : UInt8) : Bool := dev < 32 ∧ func < 8

def hexDigit (k : Nat) : Char := ("0123456789abcdef".toList.getD k '0')

/-- The conversion `%02x` of a byte. -/
def hex2 (x : UInt8) : List Char := [hexDigit (x.toNat / 16), hexDigit (x.toNat % 16)]

def pciSysfsDevices : List Char := "/sys/bus/pci/devices/0000:".toList
def pciResource0 : List Char := "/resource0".toList

/-- `PCI_SYSFS_BAR0_PATH`, printed. -/
def pciSysfsBar0Path (bus dev func : UInt8) : List Char :=
  pciSysfsDevices ++ (hex2 bus ++ (':' :: (hex2 dev ++ ('.' ::
    ((Nat.repr func.toNat).toList ++ pciResource0)))))

/-- `open_pci_bar0` -/
def openPciBar0 (bus dev func : UInt8) : Os Int :=
  if !pciBdfIsValid dev func then do
    osPrintErrno "invalid PCI BDF"
    return -1
  else if (pciSysfsBar0Path bus dev func).length ≥ 128 then do
    osPrintErrno "failed to build PCI BAR0 path"
    return -1
  else do
    let fd ← perform (Syscall.openFile (pciSysfsBar0Path bus dev func))
    if fd < 0 then do
      osPrintErrno "failed to open PCI BAR0 resource"
      return fd
    else return fd

/-- `close`, with a message when it reports an error. -/
def closeBar0 (fd : Int) : Os Unit := do
  let .true ← perform (Syscall.close fd)
    | osPrintErrno "failed to close PCI BAR0 resource"
  return ()

/-- `controller_bar0_map`; `NULL` on failure. -/
def controllerBar0Map (bus dev func : UInt8) (size : Nat) : Os UInt64 :=
  if size = 0 then do
    osPrintErrno "invalid BAR0 map size"
    return 0
  else do
    let fd ← openPciBar0 bus dev func
    if fd < 0 then return 0
    else do
      let some virtAddr ← perform (Syscall.mmap fd size)
        | do
            let savedErrno ← perform Syscall.readErrno
            closeBar0 fd
            perform (Syscall.writeErrno savedErrno)
            osPrintErrno "failed to mmap PCI BAR0 resource"
            return 0
      closeBar0 fd
      return virtAddr

/-- The accesses of the administrative code, carried out. -/
def syscalls : (e : Effect) → Os e.Result
  | .bar0Map bus dev func => controllerBar0Map bus dev func nvmeBar0MapSize
  | .bar0Unmap bar0 => perform (Syscall.munmap bar0)
  | .dmaOpen bus dev func => dmaOpen bus dev func
  | .dmaClose fd => do
      let _ ← perform (Syscall.close fd)
      return ()
  | .regRead offset => access (.regRead offset)
  | .regWrite offset value => access (.regWrite offset value)
  | .allocDma fd size => access (.allocDma fd size)
  | .releaseDma mem => access (.releaseDma mem)
  | .zeroDma mem => access (.zeroDma mem)
  | .writeSqe virt slot cmd => access (.writeSqe virt slot cmd)
  | .readCqe virt slot => access (.readCqe virt slot)
  | .readData mem => access (.readData mem)
  | .printErrno message => access (.printErrno message)

/-! ## The process -/

/-- What a descriptor may stand for. -/
inductive File where
  | genpci (bdf : Bdf)
  | resource0 (bdf : Bdf)
  deriving DecidableEq, Repr

/-- The file a path leads to. -/
def Opens (path : List Char) : File → Prop
  | .genpci _ => genpciDevDir.isPrefixOf path = true
  | .resource0 bdf => bdf.domain = 0 ∧ bdf.func < 8 ∧
      path = pciSysfsBar0Path bdf.bus bdf.dev bdf.func

instance (path : List Char) (file : File) : Decidable (Opens path file) :=
  match file with
  | .genpci _ => inferInstanceAs (Decidable (genpciDevDir.isPrefixOf path = true))
  | .resource0 bdf => inferInstanceAs (Decidable (bdf.domain = 0 ∧ bdf.func < 8 ∧
      path = pciSysfsBar0Path bdf.bus bdf.dev bdf.func))

structure Kernel where
  hw : Hardware
  files : Int → Option File := fun _ => none
  dirs : Nat := 0
  /-- What the BAR0 window of the process shows. -/
  bar0 : Option File := none
  /-- The file each DMA allocation was made through, in order. -/
  origins : List (Option File) := []

/-- What the environment has to say about a system call. -/
inductive Reply where
  | fail
  | success
  | names (names : List (List Char))
  | file (fd : Int) (file : File)
  | mapped (addr : UInt64)
  | errno (errno : Int)
  | access (a : Answer)

namespace Kernel

/-- Where an allocation came from is recorded if there was one. -/
def allocatedBy (k : Kernel) : (e : Effect) → e.Result → List (Option File)
  | .allocDma fd _, mem => if mem = {} then [] else [k.files fd]
  | _, _ => []

/-- The system calls. -/
def effect (k : Kernel) (e : Syscall) (a : Reply) : Option (e.Result × Kernel) :=
  match e with
  | .opendir _ => match a with
      | .names names => some (some names, { k with dirs := k.dirs + 1 })
      | .fail => some (none, k)
      | _ => none
  | .closedir => some ((), { k with dirs := k.dirs - 1 })
  | .openFile path => match a with
      | .file fd file =>
          if 0 ≤ fd ∧ k.files fd = none ∧ Opens path file then
            some (fd, { k with files := Function.update k.files fd (some file) })
          else none
      | .fail => some (-1, k)
      | _ => none
  | .getBdf fd => match a with
      | .success => match k.files fd with
          | some (.genpci bdf) => some (some bdf, k)
          | _ => none
      | .fail => some (none, k)
      | _ => none
  | .close fd => match a with
      | .success => some (true, { k with files := Function.update k.files fd none })
      | .fail => some (false, { k with files := Function.update k.files fd none })
      | _ => none
  | .mmap fd _ => match a with
      | .mapped addr => if addr ≠ 0 then some (some addr, { k with bar0 := k.files fd }) else none
      | .fail => some (none, k)
      | _ => none
  | .munmap _ => match a with
      | .success => some (true, { k with bar0 := none })
      | .fail => some (false, k)
      | _ => none
  | .readErrno => match a with
      | .errno errno => some (errno, k)
      | _ => none
  | .writeErrno _ => some ((), k)
  | .access e => match a with
      | .access a => (k.hw.effect e a).map fun rm =>
          (rm.1, { k with hw := rm.2, origins := k.origins ++ k.allocatedBy e rm.1 })
      | _ => none

/-- The controller moves. -/
def device (k : Kernel) (b : DeviceAct) : Option Kernel :=
  (k.hw.device b).map fun hw => { k with hw := hw }

end Kernel

/-- The platform the programs over system calls run on. -/
def kernel : Machine Syscall Syscall.Result Reply DeviceAct Kernel where
  eff := Kernel.effect
  env := Kernel.device

end NewPerf.Tools
