import NewPerf.Tools.Syscalls
import NewPerf.Lib.Executions

/-!
# PCI configuration space: `lib/pci_access.c`

`pci_config_read` and `pci_config_write` move bytes between a buffer and the file `config`
of a PCI function, in as many calls of `pread` or `pwrite` as it takes.  Such a call may
move fewer bytes than it was asked for, may be interrupted by a signal any number of times,
and may fail.  Since nothing bounds the interruptions, a call is a step relation here and
not a program: the state keeps where the function is, and an action is the answer of the
operating system.

The two functions differ in the direction only.  What is used of Linux: a descriptor
returned by `open` was not open before; `close` closes the descriptor even when it reports
an error; a file opened with `O_RDONLY` cannot be written.
-/

namespace NewPerf.Tools.PciConfig

open NewPerf.Lib.Runs

def EINTR : Int := 4
def EIO : Int := 5
def EACCES : Int := 13
def EINVAL : Int := 22

/-- `PCIE_CONFIG_SPACE_SIZE` -/
def pcieConfigSpaceSize : Nat := 4096

/-- `pci_config_range_is_valid` -/
def pciConfigRangeIsValid (offset : UInt16) (sz : Nat) : Bool :=
  offset.toNat < pcieConfigSpaceSize ∧ sz ≤ pcieConfigSpaceSize - offset.toNat

/-- `PCI_SYSFS_CONFIG_PATH`, printed. -/
def pciSysfsConfigPath (bus dev func : UInt8) : List Char :=
  pciSysfsDevices ++ (hex2 bus ++ (':' :: (hex2 dev ++ ('.' ::
    ((Nat.repr func.toNat).toList ++ "/config".toList)))))

inductive Direction where
  | read
  | write
  deriving DecidableEq, Repr

/-- The arguments of a call; `bufNull` tells whether `buf` is `NULL`. -/
structure Args where
  dir : Direction
  bus : UInt8
  dev : UInt8
  func : UInt8
  offset : UInt16
  bufNull : Bool
  sz : Nat

def invalidArgument : Direction → String
  | .read => "invalid PCI config read argument"
  | .write => "invalid PCI config write argument"

def transferFailed : Direction → String
  | .read => "failed to read PCI config"
  | .write => "failed to write PCI config"

def unexpectedEof : Direction → String
  | .read => "unexpected EOF while reading PCI config"
  | .write => "unexpected EOF while writing PCI config"

inductive OpenMode where
  | rdwr
  | rdonly
  deriving DecidableEq, Repr

/-- Where the function is.  The three calls of `close` are those after a failure, after an
end of file and after the last transfer. -/
inductive Pc where
  | enter
  | openRdwr
  | openRdonly
  | loop (fd : Int) (done : Nat)
  | closeFailed (fd : Int)
  | closeEof (fd : Int)
  | closeLast (fd : Int)
  | returned (ret : Int)
  deriving DecidableEq, Repr

/-- `files` are the descriptors the process has open.  The last four fields are history:
descriptors opened and closed, the bytes moved, each with its offset in the configuration
space, and the messages printed, each with `errno`. -/
structure State where
  pc : Pc := .enter
  errno : Int := 0
  buf : Nat → UInt8
  files : List (Int × OpenMode)
  opened : List (Int × OpenMode) := []
  closed : List Int := []
  moved : List (Nat × UInt8) := []
  printed : List (String × Int) := []

inductive Act where
  /-- The next statements up to a system call. -/
  | go
  | opens (fd : Int)
  | openFails (errno : Int)
  /-- `pread` has stored these bytes. -/
  | reads (bytes : List UInt8)
  /-- `pwrite` has taken so many bytes. -/
  | writes (count : Nat)
  /-- `pread` or `pwrite` returns -1. -/
  | fails (errno : Int)
  /-- `pread` or `pwrite` returns 0. -/
  | eof
  | closes
  | closeFails (errno : Int)

/-- `print_errno(message); return -1;` -/
def State.refuse (st : State) (errno : Int) (message : String) : State :=
  { st with pc := .returned (-1), errno, printed := st.printed ++ [(message, errno)] }

def State.openFile (st : State) (fd : Int) (mode : OpenMode) : State :=
  { st with
    pc := .loop fd 0
    files := (fd, mode) :: st.files
    opened := st.opened ++ [(fd, mode)] }

def State.closeFile (st : State) (fd : Int) : State :=
  { st with files := st.files.eraseP (·.1 = fd), closed := st.closed ++ [fd] }

/-- `count` bytes of the buffer from `done` on have been moved. -/
def State.advance (a : Args) (st : State) (fd : Int) (done count : Nat) : State :=
  { st with
    pc := .loop fd (done + count)
    moved := st.moved ++
      (List.range count).map fun i => (a.offset.toNat + done + i, st.buf (done + i)) }

/-- Bytes stored into the buffer from `done` on. -/
def storeBytes (buf : Nat → UInt8) (done : Nat) (bytes : List UInt8) : Nat → UInt8 :=
  fun p => if done ≤ p then bytes.getD (p - done) (buf p) else buf p

/-- `pci_config_read` and `pci_config_write` with `open_pci_config`. -/
def step (a : Args) (st : State) : Act → Option State
  | .go =>
      match st.pc with
      | .enter =>
          if (a.bufNull ∧ 0 < a.sz) ∨ !pciConfigRangeIsValid a.offset a.sz then
            some (st.refuse EINVAL (invalidArgument a.dir))
          else if !pciBdfIsValid a.dev a.func then some (st.refuse EINVAL "invalid PCI BDF")
          else if (pciSysfsConfigPath a.bus a.dev a.func).length ≥ 128 then
            some (st.refuse ENAMETOOLONG "failed to build PCI config path")
          else some { st with pc := .openRdwr }
      | .loop fd done => if done < a.sz then none else some { st with pc := .closeLast fd }
      | _ => none
  | .opens fd =>
      if fd < 0 ∨ fd ∈ st.files.map Prod.fst then none
      else
        match st.pc with
        | .openRdwr => some (st.openFile fd .rdwr)
        | .openRdonly => some (st.openFile fd .rdonly)
        | _ => none
  | .openFails errno =>
      match st.pc with
      | .openRdwr =>
          if errno = EACCES then some { st with pc := .openRdonly, errno }
          else some (st.refuse errno "failed to open PCI config")
      | .openRdonly => some (st.refuse errno "failed to open PCI config")
      | _ => none
  | .reads bytes =>
      match st.pc with
      | .loop fd done =>
          if a.dir = .read ∧ 0 < bytes.length ∧ done + bytes.length ≤ a.sz then
            some ({ st with buf := storeBytes st.buf done bytes }.advance a fd done bytes.length)
          else none
      | _ => none
  | .writes count =>
      match st.pc with
      | .loop fd done =>
          if a.dir = .write ∧ 0 < count ∧ done + count ≤ a.sz ∧ (fd, .rdwr) ∈ st.files then
            some (st.advance a fd done count)
          else none
      | _ => none
  | .fails errno =>
      match st.pc with
      | .loop fd done =>
          if done < a.sz then
            if errno = EINTR then some { st with errno }
            else some { st with
              pc := .closeFailed fd
              errno
              printed := st.printed ++ [(transferFailed a.dir, errno)] }
          else none
      | _ => none
  | .eof =>
      match st.pc with
      | .loop fd done => if done < a.sz then some { st with pc := .closeEof fd } else none
      | _ => none
  | .closes =>
      match st.pc with
      | .closeFailed fd => some { st.closeFile fd with pc := .returned (-1) }
      | .closeEof fd => some ((st.closeFile fd).refuse EIO (unexpectedEof a.dir))
      | .closeLast fd => some { st.closeFile fd with pc := .returned 0 }
      | _ => none
  | .closeFails errno =>
      match st.pc with
      | .closeFailed fd => some { st.closeFile fd with pc := .returned (-1), errno }
      | .closeEof fd => some ((st.closeFile fd).refuse EIO (unexpectedEof a.dir))
      | .closeLast fd => some ((st.closeFile fd).refuse errno "failed to close PCI config")
      | _ => none

/-! ## What a step does -/

/-- The argument checks have been passed. -/
structure Args.Valid (a : Args) : Prop where
  range : a.offset.toNat + a.sz ≤ pcieConfigSpaceSize
  buf : 0 < a.sz → a.bufNull = false

/-- The ways in which `step` goes on, each with what it takes. -/
inductive Moves (a : Args) (st : State) : Act → State → Prop where
  | refuse {errno : Int} {message : String} (hPc : st.pc = .enter) :
      Moves a st .go (st.refuse errno message)
  | enter (hPc : st.pc = .enter) (hValid : a.Valid) :
      Moves a st .go { st with pc := .openRdwr }
  | finish {fd : Int} {done : Nat} (hPc : st.pc = .loop fd done) (hAll : a.sz ≤ done) :
      Moves a st .go { st with pc := .closeLast fd }
  | openRdwr {fd : Int} (hPc : st.pc = .openRdwr) (hNew : fd ∉ st.files.map Prod.fst) :
      Moves a st (.opens fd) (st.openFile fd .rdwr)
  | openRdonly {fd : Int} (hPc : st.pc = .openRdonly) (hNew : fd ∉ st.files.map Prod.fst) :
      Moves a st (.opens fd) (st.openFile fd .rdonly)
  | denied (hPc : st.pc = .openRdwr) :
      Moves a st (.openFails EACCES) { st with pc := .openRdonly, errno := EACCES }
  | openFails {errno : Int} (hPc : st.pc = .openRdwr ∨ st.pc = .openRdonly) :
      Moves a st (.openFails errno) (st.refuse errno "failed to open PCI config")
  | reads {fd : Int} {done : Nat} {bytes : List UInt8} (hPc : st.pc = .loop fd done)
      (hDir : a.dir = .read) (hPos : 0 < bytes.length) (hLe : done + bytes.length ≤ a.sz) :
      Moves a st (.reads bytes)
        ({ st with buf := storeBytes st.buf done bytes }.advance a fd done bytes.length)
  | writes {fd : Int} {done count : Nat} (hPc : st.pc = .loop fd done)
      (hDir : a.dir = .write) (hPos : 0 < count) (hLe : done + count ≤ a.sz)
      (hMem : (fd, .rdwr) ∈ st.files) :
      Moves a st (.writes count) (st.advance a fd done count)
  | interrupted {fd : Int} {done : Nat} (hPc : st.pc = .loop fd done) (hLt : done < a.sz) :
      Moves a st (.fails EINTR) { st with errno := EINTR }
  | fails {fd : Int} {done : Nat} {errno : Int} (hPc : st.pc = .loop fd done)
      (hLt : done < a.sz) (hOther : errno ≠ EINTR) :
      Moves a st (.fails errno) { st with
        pc := .closeFailed fd
        errno
        printed := st.printed ++ [(transferFailed a.dir, errno)] }
  | eof {fd : Int} {done : Nat} (hPc : st.pc = .loop fd done) (hLt : done < a.sz) :
      Moves a st .eof { st with pc := .closeEof fd }
  | closeFailed {act : Act} {fd errno : Int} (hPc : st.pc = .closeFailed fd)
      (hAct : act = .closes ∨ ∃ e, act = .closeFails e) :
      Moves a st act { st.closeFile fd with pc := .returned (-1), errno }
  | closeLast {fd : Int} (hPc : st.pc = .closeLast fd) :
      Moves a st .closes { st.closeFile fd with pc := .returned 0 }
  | closeRefused {act : Act} {fd errno : Int} {message : String}
      (hPc : st.pc = .closeEof fd ∨ st.pc = .closeLast fd)
      (hAct : act = .closes ∨ ∃ e, act = .closeFails e) :
      Moves a st act ((st.closeFile fd).refuse errno message)

theorem valid_of_checks {a : Args}
    (hArgs : ¬ ((a.bufNull ∧ 0 < a.sz) ∨ !pciConfigRangeIsValid a.offset a.sz)) : a.Valid := by
  rw [not_or, not_and, Bool.not_eq_true, Bool.not_eq_false'] at hArgs
  obtain ⟨hBuf, hRange⟩ := hArgs
  obtain ⟨hOffset, hSz⟩ := of_decide_eq_true hRange
  exact
    { range := by omega
      buf := fun hPos => Bool.eq_false_iff.mpr fun hNull => hBuf hNull hPos }

theorem step_cases {a : Args} {st st' : State} {act : Act}
    (hStep : step a st act = some st') : Moves a st act st' := by
  cases act with
  | go =>
      simp only [step] at hStep
      split at hStep
      · rename_i hPc
        split at hStep
        · cases hStep
          exact .refuse hPc
        rename_i hArgs
        split at hStep
        · cases hStep
          exact .refuse hPc
        split at hStep
        · cases hStep
          exact .refuse hPc
        · cases hStep
          exact .enter hPc (valid_of_checks hArgs)
      · rename_i fd done hPc
        split at hStep
        · cases hStep
        · rename_i hAll
          cases hStep
          exact .finish hPc (Nat.not_lt.mp hAll)
      · cases hStep
  | opens fd =>
      simp only [step] at hStep
      split at hStep
      · cases hStep
      rename_i hNew
      rw [not_or] at hNew
      split at hStep
      · rename_i hPc
        cases hStep
        exact .openRdwr hPc hNew.2
      · rename_i hPc
        cases hStep
        exact .openRdonly hPc hNew.2
      · cases hStep
  | openFails errno =>
      simp only [step] at hStep
      split at hStep
      · rename_i hPc
        split at hStep
        · rename_i hDenied
          cases hStep
          rw [hDenied]
          exact .denied hPc
        · cases hStep
          exact .openFails (.inl hPc)
      · rename_i hPc
        cases hStep
        exact .openFails (.inr hPc)
      · cases hStep
  | reads bytes =>
      simp only [step] at hStep
      split at hStep
      · rename_i fd done hPc
        split at hStep
        · rename_i hOk
          cases hStep
          exact .reads hPc hOk.1 hOk.2.1 hOk.2.2
        · cases hStep
      · cases hStep
  | writes count =>
      simp only [step] at hStep
      split at hStep
      · rename_i fd done hPc
        split at hStep
        · rename_i hOk
          cases hStep
          exact .writes hPc hOk.1 hOk.2.1 hOk.2.2.1 hOk.2.2.2
        · cases hStep
      · cases hStep
  | fails errno =>
      simp only [step] at hStep
      split at hStep
      · rename_i fd done hPc
        split at hStep
        · rename_i hLt
          split at hStep
          · rename_i hIntr
            cases hStep
            rw [hIntr]
            exact .interrupted hPc hLt
          · rename_i hOther
            cases hStep
            exact .fails hPc hLt hOther
        · cases hStep
      · cases hStep
  | eof =>
      simp only [step] at hStep
      split at hStep
      · rename_i fd done hPc
        split at hStep
        · rename_i hLt
          cases hStep
          exact .eof hPc hLt
        · cases hStep
      · cases hStep
  | closes =>
      simp only [step] at hStep
      split at hStep
      · rename_i fd hPc
        cases hStep
        exact .closeFailed hPc (.inl rfl)
      · rename_i fd hPc
        cases hStep
        exact .closeRefused (.inl hPc) (.inl rfl)
      · rename_i fd hPc
        cases hStep
        exact .closeLast hPc
      · cases hStep
  | closeFails errno =>
      simp only [step] at hStep
      split at hStep
      · rename_i fd hPc
        cases hStep
        exact .closeFailed hPc (.inr ⟨errno, rfl⟩)
      · rename_i fd hPc
        cases hStep
        exact .closeRefused (.inl hPc) (.inr ⟨errno, rfl⟩)
      · rename_i fd hPc
        cases hStep
        exact .closeRefused (.inr hPc) (.inr ⟨errno, rfl⟩)
      · cases hStep

/-! ## What holds at each point -/

/-- Nothing has been opened yet. -/
structure Before (files : List (Int × OpenMode)) (k : Nat) (st : State) : Prop where
  files : st.files = files
  opened : st.opened = []
  closed : st.closed = []
  printed : st.printed = []
  none : k = 0

/-- `fd` is open, with `k` bytes moved. -/
structure Holds (a : Args) (files : List (Int × OpenMode)) (k : Nat) (st : State) (fd : Int)
    (messages : Nat) : Prop where
  file : ∃ mode, st.files = (fd, mode) :: files ∧ st.opened = [(fd, mode)]
  new : fd ∉ files.map Prod.fst
  closed : st.closed = []
  printed : st.printed.length = messages
  le : k ≤ a.sz
  valid : a.Valid

/-- Everything has been closed. -/
structure After (a : Args) (files : List (Int × OpenMode)) (k : Nat) (st : State) (ret : Int) :
    Prop where
  files : st.files = files
  closed : st.closed = st.opened.map Prod.fst
  le : k ≤ a.sz
  valid : 0 < k → a.Valid
  ret : ret = 0 ∧ st.printed = [] ∧ k = a.sz ∧ a.Valid ∨ ret = -1 ∧ st.printed.length = 1

inductive At (a : Args) (files : List (Int × OpenMode)) (k : Nat) (st : State) : Pc → Prop where
  | enter (h : Before files k st) : At a files k st .enter
  | openRdwr (h : Before files k st) (hValid : a.Valid) : At a files k st .openRdwr
  | openRdonly (h : Before files k st) (hValid : a.Valid) : At a files k st .openRdonly
  | loop {fd : Int} (h : Holds a files k st fd 0) : At a files k st (.loop fd k)
  | closeFailed {fd : Int} (h : Holds a files k st fd 1) : At a files k st (.closeFailed fd)
  | closeEof {fd : Int} (h : Holds a files k st fd 0) : At a files k st (.closeEof fd)
  | closeLast {fd : Int} (h : Holds a files k st fd 0) (hAll : k = a.sz) :
      At a files k st (.closeLast fd)
  | returned {ret : Int} (h : After a files k st ret) : At a files k st (.returned ret)

/-- `k` bytes have been moved, each to or from its place. -/
structure Inv (a : Args) (buf : Nat → UInt8) (files : List (Int × OpenMode)) (st : State)
    (k : Nat) : Prop where
  here : At a files k st st.pc
  moved : st.moved = (List.range k).map fun i => (a.offset.toNat + i, st.buf i)
  rest : ∀ p, k ≤ p ∨ a.dir = .write → st.buf p = buf p
  writable : a.dir = .write → 0 < k → ∃ fd, st.opened = [(fd, .rdwr)]

section Steps

variable {a : Args} {buf : Nat → UInt8} {files : List (Int × OpenMode)} {st st' : State}
  {k : Nat} {act : Act}

theorem Before.refuse (h : Before files k st) (errno : Int) (message : String) :
    At a files k (st.refuse errno message) (.returned (-1)) := by
  refine .returned
    { files := h.files
      closed := ?_
      le := by rw [h.none]; exact Nat.zero_le _
      valid := by rw [h.none]; exact fun hPos => absurd hPos (Nat.lt_irrefl 0)
      ret := .inr ⟨rfl, ?_⟩ }
  · simp only [State.refuse, h.closed, h.opened, List.map_nil]
  · simp only [State.refuse, h.printed, List.nil_append, List.length_singleton]

theorem Before.openFile (h : Before files k st) (hValid : a.Valid) {fd : Int}
    (hNew : fd ∉ st.files.map Prod.fst) (mode : OpenMode) :
    At a files k (st.openFile fd mode) (.loop fd 0) := by
  have hNone := h.none
  subst hNone
  rw [h.files] at hNew
  exact .loop
    { file := ⟨mode, by simp only [State.openFile, h.files],
        by simp only [State.openFile, h.opened, List.nil_append]⟩
      new := hNew
      closed := h.closed
      printed := by simp only [State.openFile, h.printed, List.length_nil]
      le := Nat.zero_le _
      valid := hValid }

/-- `close` gives back the descriptor `open` returned. -/
theorem Holds.close {fd : Int} {messages : Nat} (h : Holds a files k st fd messages) :
    (st.closeFile fd).files = files ∧
      (st.closeFile fd).closed = (st.closeFile fd).opened.map Prod.fst := by
  obtain ⟨mode, hFiles, hOpened⟩ := h.file
  constructor
  · simp [State.closeFile, hFiles]
  · simp [State.closeFile, hOpened, h.closed]

/-- Steps that move nothing. -/
private theorem Inv.keep (h : Inv a buf files st k) (hBuf : st'.buf = st.buf)
    (hMoved : st'.moved = st.moved) (hOpened : 0 < k → st'.opened = st.opened)
    (hAt : At a files k st' st'.pc) : Inv a buf files st' k :=
  { here := hAt
    moved := by rw [hMoved, hBuf]; exact h.moved
    rest := by rw [hBuf]; exact h.rest
    writable := fun hWrite hPos => by rw [hOpened hPos]; exact h.writable hWrite hPos }

/-- The bytes moved are still an initial segment. -/
private theorem moved_advance (f : Nat → Nat × UInt8) (k count : Nat) :
    (List.range k).map f ++ (List.range count).map (fun i => f (k + i)) =
      (List.range (k + count)).map f := by
  rw [List.range_add, List.map_append, List.map_map]
  rfl

private theorem Inv.advance (h : Inv a buf files st k) {fd : Int} {count : Nat}
    {bytes : Nat → UInt8} (hHolds : Holds a files k st fd 0) (hLe : k + count ≤ a.sz)
    (hBefore : ∀ p < k, bytes p = st.buf p)
    (hRest : ∀ p, k + count ≤ p ∨ a.dir = .write → bytes p = st.buf p)
    (hWritable : a.dir = .write → (fd, .rdwr) ∈ st.files) :
    Inv a buf files ({ st with buf := bytes }.advance a fd k count) (k + count) := by
  obtain ⟨mode, hFiles, hOpened⟩ := hHolds.file
  refine
    { here := .loop
        { file := ⟨mode, hFiles, hOpened⟩
          new := hHolds.new
          closed := hHolds.closed
          printed := hHolds.printed
          le := hLe
          valid := hHolds.valid }
      moved := ?_
      rest := fun p hp => ?_
      writable := fun hWrite _ => ⟨fd, ?_⟩ }
  · have hOld : (List.range k).map (fun i => (a.offset.toNat + i, st.buf i)) =
        (List.range k).map (fun i => (a.offset.toNat + i, bytes i)) := by
      refine List.map_congr_left fun i hi => ?_
      rw [hBefore i (List.mem_range.mp hi)]
    simp only [State.advance]
    rw [h.moved, hOld, ← moved_advance (fun i => (a.offset.toNat + i, bytes i))]
    simp only [Nat.add_assoc]
  · simp only [State.advance]
    rw [hRest p hp]
    exact h.rest p (hp.imp_left fun hGe => Nat.le_trans (Nat.le_add_right k count) hGe)
  · -- The descriptor was not open before, so that the mode is that of the file opened.
    have hMem := hWritable hWrite
    rw [hFiles] at hMem
    rcases List.mem_cons.mp hMem with hEq | hOther
    · rw [show (fd, OpenMode.rdwr) = (fd, mode) from hEq]
      exact hOpened
    · exact absurd (List.mem_map_of_mem hOther) hHolds.new

private theorem Inv.opened (h : Inv a buf files st k) {fd : Int}
    (hBefore : Before files k st) (hValid : a.Valid) (hNew : fd ∉ st.files.map Prod.fst)
    (mode : OpenMode) : Inv a buf files (st.openFile fd mode) k := by
  have hNone := hBefore.none
  subst hNone
  exact h.keep rfl rfl (fun hPos => absurd hPos (Nat.lt_irrefl 0))
    (hBefore.openFile hValid hNew mode)

private theorem Inv.reads (h : Inv a buf files st k) {fd : Int} {bytes : List UInt8}
    (hHolds : Holds a files k st fd 0) (hDir : a.dir = .read)
    (hLe : k + bytes.length ≤ a.sz) :
    Inv a buf files
      ({ st with buf := storeBytes st.buf k bytes }.advance a fd k bytes.length)
      (k + bytes.length) := by
  refine h.advance hHolds hLe (fun p hp => ?_) (fun p hp => ?_) (fun hWrite => ?_)
  · exact if_neg (Nat.not_le.mpr hp)
  · rcases hp with hGe | hWrite
    · rw [storeBytes, if_pos (by omega), List.getD_eq_getElem?_getD,
        List.getElem?_eq_none (by omega), Option.getD_none]
    · rw [hDir] at hWrite
      cases hWrite
  · rw [hDir] at hWrite
    cases hWrite

/-- The way out after a failure, once the descriptor has been closed. -/
theorem Holds.failed {fd : Int} (h : Holds a files k st fd 1) (errno : Int) :
    At a files k { st.closeFile fd with pc := .returned (-1), errno } (.returned (-1)) :=
  .returned
    { files := h.close.1
      closed := h.close.2
      le := h.le
      valid := fun _ => h.valid
      ret := .inr ⟨rfl, h.printed⟩ }

/-- The way out after an end of file or a failing `close`. -/
theorem Holds.refused {fd : Int} (h : Holds a files k st fd 0) (errno : Int)
    (message : String) :
    At a files k ((st.closeFile fd).refuse errno message) (.returned (-1)) := by
  refine .returned
    { files := h.close.1
      closed := h.close.2
      le := h.le
      valid := fun _ => h.valid
      ret := .inr ⟨rfl, ?_⟩ }
  simp only [State.refuse, State.closeFile, List.length_append, h.printed,
    List.length_singleton]

/-- The way out after the last byte. -/
theorem Holds.succeeded {fd : Int} (h : Holds a files k st fd 0) (hAll : k = a.sz) :
    At a files k { st.closeFile fd with pc := .returned 0 } (.returned 0) :=
  .returned
    { files := h.close.1
      closed := h.close.2
      le := h.le
      valid := fun _ => h.valid
      ret := .inl ⟨rfl, List.eq_nil_of_length_eq_zero h.printed, hAll, h.valid⟩ }

/-- Where the function is decides what is open and how far it has come. -/
private theorem Inv.at_pc (h : Inv a buf files st k) {pc : Pc} (hPc : st.pc = pc) :
    At a files k st pc := hPc ▸ h.here

theorem Inv.move (h : Inv a buf files st k) (hMoves : Moves a st act st') :
    ∃ k, Inv a buf files st' k := by
  cases hMoves with
  | refuse hPc =>
      cases h.at_pc hPc with
      | enter hBefore => exact ⟨k, h.keep rfl rfl (fun _ => rfl) (hBefore.refuse _ _)⟩
  | enter hPc hValid =>
      cases h.at_pc hPc with
      | enter hBefore =>
          exact ⟨k, h.keep rfl rfl (fun _ => rfl) (.openRdwr { hBefore with } hValid)⟩
  | finish hPc hAll =>
      cases h.at_pc hPc with
      | loop hHolds =>
          exact ⟨k, h.keep rfl rfl (fun _ => rfl)
            (.closeLast { hHolds with } (Nat.le_antisymm hHolds.le hAll))⟩
  | openRdwr hPc hNew =>
      cases h.at_pc hPc with
      | openRdwr hBefore hValid => exact ⟨k, h.opened hBefore hValid hNew .rdwr⟩
  | openRdonly hPc hNew =>
      cases h.at_pc hPc with
      | openRdonly hBefore hValid => exact ⟨k, h.opened hBefore hValid hNew .rdonly⟩
  | denied hPc =>
      cases h.at_pc hPc with
      | openRdwr hBefore hValid =>
          exact ⟨k, h.keep rfl rfl (fun _ => rfl) (.openRdonly { hBefore with } hValid)⟩
  | openFails hPc =>
      have hBefore : Before files k st := by
        rcases hPc with hPc | hPc
        · cases h.at_pc hPc with
          | openRdwr hBefore hValid => exact hBefore
        · cases h.at_pc hPc with
          | openRdonly hBefore hValid => exact hBefore
      exact ⟨k, h.keep rfl rfl (fun _ => rfl) (hBefore.refuse _ _)⟩
  | reads hPc hDir hPos hLe =>
      cases h.at_pc hPc with
      | loop hHolds => exact ⟨_, h.reads hHolds hDir hLe⟩
  | writes hPc hDir hPos hLe hMem =>
      cases h.at_pc hPc with
      | loop hHolds =>
          exact ⟨_, h.advance hHolds hLe (fun _ _ => rfl) (fun _ _ => rfl) fun _ => hMem⟩
  | interrupted hPc hLt =>
      cases h.at_pc hPc with
      | loop hHolds =>
          exact ⟨k, h.keep rfl rfl (fun _ => rfl)
            (show At a files k _ st.pc from hPc ▸ .loop { hHolds with })⟩
  | fails hPc hLt hOther =>
      cases h.at_pc hPc with
      | loop hHolds =>
          have hPrinted := hHolds.printed
          refine ⟨k, h.keep rfl rfl (fun _ => rfl) (.closeFailed { hHolds with printed := ?_ })⟩
          rw [List.length_append, hPrinted, List.length_singleton]
  | eof hPc hLt =>
      cases h.at_pc hPc with
      | loop hHolds => exact ⟨k, h.keep rfl rfl (fun _ => rfl) (.closeEof { hHolds with })⟩
  | closeFailed hPc hAct =>
      cases h.at_pc hPc with
      | closeFailed hHolds => exact ⟨k, h.keep rfl rfl (fun _ => rfl) (hHolds.failed _)⟩
  | closeLast hPc =>
      cases h.at_pc hPc with
      | closeLast hHolds hAll =>
          exact ⟨k, h.keep rfl rfl (fun _ => rfl) (hHolds.succeeded hAll)⟩
  | @closeRefused _ fd _ _ hPc hAct =>
      have hHolds : Holds a files k st fd 0 := by
        rcases hPc with hPc | hPc
        · cases h.at_pc hPc with
          | closeEof hHolds => exact hHolds
        · cases h.at_pc hPc with
          | closeLast hHolds hAll => exact hHolds
      exact ⟨k, h.keep rfl rfl (fun _ => rfl) (hHolds.refused _ _)⟩

end Steps

/-! ## Whole calls -/

/-- A call is about to be made. -/
def start (buf : Nat → UInt8) (files : List (Int × OpenMode)) : State := { buf, files }

/-- What can be said at every moment of a call. -/
structure Transfers (a : Args) (buf : Nat → UInt8) (files : List (Int × OpenMode))
    (st : State) : Prop where
  /-- The bytes moved are an initial segment of the range asked for: each of them once, in
  ascending order, to or from its place in the buffer, of which nothing else changes.  A
  call that succeeds has moved them all. -/
  segment : ∃ k ≤ a.sz, st.moved = (List.range k).map (fun i => (a.offset.toNat + i, st.buf i)) ∧
    (∀ p, k ≤ p ∨ a.dir = .write → st.buf p = buf p) ∧ (st.pc = .returned 0 → k = a.sz)
  /-- Nothing outside the configuration space is touched, and only a buffer that is there. -/
  inside : st.moved ≠ [] → a.bufNull = false ∧ ∀ m ∈ st.moved, m.1 < pcieConfigSpaceSize
  /-- Only a file opened for writing is written. -/
  writable : a.dir = .write → st.moved ≠ [] → ∃ fd, st.opened = [(fd, .rdwr)]
  /-- A call that has returned has closed what it has opened and left other files alone. -/
  closed : ∀ ret, st.pc = .returned ret →
    st.closed = st.opened.map Prod.fst ∧ st.files = files
  /-- It has returned 0 and printed nothing, or -1 and printed one message. -/
  reported : ∀ ret, st.pc = .returned ret →
    ret = 0 ∧ st.printed = [] ∨ ret = -1 ∧ st.printed.length = 1

section Runs

variable {a : Args} {buf : Nat → UInt8} {files : List (Int × OpenMode)} {st : State}
  {acts : List Act}

private theorem inv_start : Inv a buf files (start buf files) 0 :=
  { here := .enter ⟨rfl, rfl, rfl, rfl, rfl⟩
    moved := rfl
    rest := fun _ _ => rfl
    writable := fun _ hPos => absurd hPos (Nat.lt_irrefl 0) }

private theorem At.bounds {k : Nat} {pc : Pc} (h : At a files k st pc) :
    k ≤ a.sz ∧ (0 < k → a.Valid) := by
  cases h with
  | enter hBefore =>
      rw [hBefore.none]
      exact ⟨Nat.zero_le _, fun hPos => absurd hPos (Nat.lt_irrefl 0)⟩
  | openRdwr hBefore hValid => exact ⟨by rw [hBefore.none]; exact Nat.zero_le _, fun _ => hValid⟩
  | openRdonly hBefore hValid =>
      exact ⟨by rw [hBefore.none]; exact Nat.zero_le _, fun _ => hValid⟩
  | loop hHolds => exact ⟨hHolds.le, fun _ => hHolds.valid⟩
  | closeFailed hHolds => exact ⟨hHolds.le, fun _ => hHolds.valid⟩
  | closeEof hHolds => exact ⟨hHolds.le, fun _ => hHolds.valid⟩
  | closeLast hHolds hAll => exact ⟨hHolds.le, fun _ => hHolds.valid⟩
  | returned hAfter => exact ⟨hAfter.le, hAfter.valid⟩

private theorem Inv.transfers {k : Nat} (h : Inv a buf files st k) :
    Transfers a buf files st := by
  obtain ⟨hLe, hValid⟩ := h.here.bounds
  have hPos : st.moved ≠ [] → 0 < k := by
    rw [h.moved]
    intro hSome
    refine Nat.pos_of_ne_zero fun hZero => hSome ?_
    rw [hZero]
    rfl
  have hReturned : ∀ ret, st.pc = .returned ret → After a files k st ret := by
    intro ret hPc
    have hAt := h.here
    rw [hPc] at hAt
    cases hAt with
    | returned hAfter => exact hAfter
  refine
    { segment := ⟨k, hLe, h.moved, h.rest, fun hPc => ?_⟩
      inside := fun hSome => ⟨?_, fun m hm => ?_⟩
      writable := fun hWrite hSome => h.writable hWrite (hPos hSome)
      closed := fun ret hPc => ⟨(hReturned ret hPc).closed, (hReturned ret hPc).files⟩
      reported := fun ret hPc => ?_ }
  · rcases (hReturned 0 hPc).ret with ⟨-, -, hAll, -⟩ | ⟨hRet, -⟩
    · exact hAll
    · cases hRet
  · exact (hValid (hPos hSome)).buf (Nat.lt_of_lt_of_le (hPos hSome) hLe)
  · have hRange := (hValid (hPos hSome)).range
    rw [h.moved] at hm
    obtain ⟨i, hi, rfl⟩ := List.mem_map.mp hm
    have := List.mem_range.mp hi
    dsimp only
    omega
  · exact (hReturned ret hPc).ret.imp (fun h => ⟨h.1, h.2.1⟩) id

/-! ## A call makes progress unless it is interrupted -/

def Act.counts : Act → Bool
  | .fails errno => errno ≠ EINTR
  | _ => true

/-- System calls and statements left. -/
def Pc.rank (sz : Nat) : Pc → Nat
  | .enter => sz + 5
  | .openRdwr => sz + 4
  | .openRdonly => sz + 3
  | .loop _ done => sz - done + 2
  | .closeFailed _ => 1
  | .closeEof _ => 1
  | .closeLast _ => 1
  | .returned _ => 0

private theorem rank_step {st' : State} {act : Act} (hStep : step a st act = some st') :
    st'.pc.rank a.sz + (if act.counts then 1 else 0) ≤ st.pc.rank a.sz := by
  have hLast : 0 + (if act.counts then 1 else 0) ≤ 1 := by
    split
    · exact Nat.le_refl 1
    · exact Nat.zero_le 1
  cases step_cases hStep with
  | refuse hPc =>
      rw [hPc]
      exact Nat.le_add_left 1 _
  | enter hPc hValid =>
      rw [hPc]
      exact Nat.le_refl _
  | finish hPc hAll =>
      rw [hPc]
      exact Nat.le_add_left 2 _
  | openRdwr hPc hNew =>
      rw [hPc]
      exact Nat.le_succ _
  | openRdonly hPc hNew =>
      rw [hPc]
      exact Nat.le_refl _
  | denied hPc =>
      rw [hPc]
      exact Nat.le_refl _
  | openFails hPc =>
      rcases hPc with hPc | hPc
      · rw [hPc]
        exact Nat.le_add_left 1 _
      · rw [hPc]
        exact Nat.le_add_left 1 _
  | reads hPc hDir hPos hLe =>
      rw [hPc]
      simp only [State.advance, Pc.rank]
      omega
  | writes hPc hDir hPos hLe hMem =>
      rw [hPc]
      simp only [State.advance, Pc.rank]
      omega
  | interrupted hPc hLt => simp [Act.counts]
  | fails hPc hLt hOther =>
      rw [hPc]
      simp only [Pc.rank]
      omega
  | eof hPc hLt =>
      rw [hPc]
      exact Nat.le_add_left 2 _
  | closeFailed hPc hAct =>
      rw [hPc]
      exact hLast
  | closeLast hPc =>
      rw [hPc]
      exact Nat.le_refl _
  | closeRefused hPc hAct =>
      rcases hPc with hPc | hPc
      · rw [hPc]
        exact hLast
      · rw [hPc]
        exact hLast

/-- However often it is interrupted and in whatever pieces the bytes are moved, every call
of `pci_config_read` and `pci_config_write` keeps to `Transfers`.  Apart from interruptions,
it makes at most one step for every byte and five more. -/
theorem transfers_of_run (hRun : Run (step a) (fun _ _ => True) (start buf files) acts st) :
    Transfers a buf files st ∧ acts.countP Act.counts ≤ a.sz + 5 := by
  obtain ⟨k, h⟩ := hRun.invariant (I := fun st => ∃ k, Inv a buf files st k) ⟨0, inv_start⟩
    fun st act st' ⟨k, h⟩ _ hStep => h.move (step_cases hStep)
  have hCount := hRun.countP_add_le (I := fun _ => True) (fun st => st.pc.rank a.sz) Act.counts
    trivial (fun _ _ _ _ _ _ => trivial) (fun _ _ _ _ _ hStep => rank_step hStep)
  have hStart : (start buf files).pc.rank a.sz = a.sz + 5 := rfl
  exact ⟨h.transfers, by omega⟩

/-- A read of four bytes at offset 0 in two pieces, with an interruption; the file may not
be written. -/
private def readId : Args := ⟨.read, 1, 2, 3, 0, false, 4⟩

private def readIdActs : List Act :=
  [.go, .openFails EACCES, .opens 3, .reads [0x86], .fails EINTR, .reads [0x80, 0x53, 0x0a],
    .go, .closes]

theorem transfers_of_run_readId :
    ∃ st, st.pc = .returned 0 ∧ st.moved.length = 4 ∧ st.opened = [(3, .rdonly)] ∧
      Transfers readId (fun _ => 0) [] st ∧ readIdActs.countP Act.counts ≤ readId.sz + 5 := by
  obtain ⟨st, hExec, hPc, hMoved, hOpened⟩ : ∃ st, exec (step readId) (fun _ _ => true)
      (start (fun _ => 0) []) readIdActs = some st ∧ st.pc = .returned 0 ∧
      st.moved.length = 4 ∧ st.opened = [(3, .rdonly)] := ⟨_, rfl, rfl, rfl, rfl⟩
  exact ⟨st, hPc, hMoved, hOpened, transfers_of_run (Run.of_exec (fun _ _ _ => trivial) hExec)⟩

end Runs

end NewPerf.Tools.PciConfig
