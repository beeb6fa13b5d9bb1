import NewPerf.Tools.Syscalls

/-!
# Only the named controller is driven

`controller_init` looks its device up twice: BAR0 by a path made of the truncated bus,
device and function numbers, DMA memory by asking every `genpci` node for its function.
A register is written only after memory has been allocated through the second look-up,
which compares untruncated numbers with bytes; so by then nothing can have been lost in
the first one.

All assertions are about `Kernel.view`, the part of the process the two look-ups change.
-/

namespace NewPerf.Tools

open NewPerf.Lib.Programs

/-- What the process has opened, mapped and allocated. -/
structure View where
  files : Int → Option File
  dirs : Nat
  bar0 : Option File
  origins : List (Option File)

def Kernel.view (k : Kernel) : View := ⟨k.files, k.dirs, k.bar0, k.origins⟩

namespace View

def openDir (v : View) : View := { v with dirs := v.dirs + 1 }
def closeDir (v : View) : View := { v with dirs := v.dirs - 1 }

def setFile (v : View) (fd : Int) (file : Option File) : View :=
  { v with files := Function.update v.files fd file }

def map (v : View) (bar0 : Option File) : View := { v with bar0 := bar0 }

def allocate (v : View) (origin : Option File) : View :=
  { v with origins := v.origins ++ [origin] }

@[simp] theorem setFile_files (v : View) (fd : Int) (file : Option File) :
    (v.setFile fd file).files fd = file := by
  simp [setFile]

/-- A descriptor that was not open is closed again. -/
theorem setFile_none {v : View} {fd : Int} (h : v.files fd = none) (file : File) :
    (v.setFile fd (some file)).setFile fd none = v := by
  have hFiles : Function.update (Function.update v.files fd (some file)) fd none = v.files := by
    rw [Function.update_idem, ← h, Function.update_eq_self]
  simp [setFile, hFiles]

end View

/-- `0000:bus:dev.func` with the numbers as they stand in the `struct controller_data`. -/
structure Named (c : ControllerData) (f : Bdf) : Prop where
  domain : f.domain = 0
  bus : f.bus.toNat = c.bus.toNat
  dev : f.dev.toNat = c.dev.toNat
  func : f.func.toNat = c.func.toNat

/-- BAR0 is that of the named function, and the memory allocated since `before` is
there and comes from its `genpci` node. -/
def DrivesNamed (c : ControllerData) (before : View) (v : View) : Prop :=
  ∃ f, Named c f ∧ v.bar0 = some (.resource0 f) ∧
    ∃ new, v.origins = before.origins ++ new ∧ new ≠ [] ∧
      ∀ origin ∈ new, origin = some (.genpci f)

/-- The call is a store to a register. -/
def Syscall.WritesReg : Syscall → Prop
  | .access (.regWrite _ _) => True
  | _ => False

/-- Registers are written only on the named controller. -/
def NamedOnly (c : ControllerData) (before : View) (e : Option Syscall) (k : Kernel) : Prop :=
  ∀ call, e = some call → call.WritesReg → DrivesNamed c before k.view

/-! ## One call -/

/-- Everything a call can do to the view. -/
def Called (v : View) : (e : Syscall) → e.Result → View → Prop
  | .opendir _, names, v' => v' = if names.isSome then v.openDir else v
  | .closedir, _, v' => v' = v.closeDir
  | .openFile path, fd, v' => (fd < 0 ∧ v' = v) ∨
      (0 ≤ fd ∧ v.files fd = none ∧ ∃ file, Opens path file ∧ v' = v.setFile fd (some file))
  | .getBdf fd, bdf, v' => v' = v ∧ ∀ f, bdf = some f → v.files fd = some (.genpci f)
  | .close fd, _, v' => v' = v.setFile fd none
  | .mmap fd _, addr, v' => (addr = none ∧ v' = v) ∨
      (∃ a, a ≠ 0 ∧ addr = some a ∧ v' = v.map (v.files fd))
  | .munmap _, done, v' => v' = if done then v.map none else v
  | .readErrno, _, v' => v' = v
  | .writeErrno _, _, v' => v' = v
  | .access (.allocDma fd _), mem, v' => v' = if mem = {} then v else v.allocate (v.files fd)
  | .access _, _, v' => v' = v

theorem effect_called {k k' : Kernel} {e : Syscall} {a : Reply} {r : e.Result}
    (h : k.effect e a = some (r, k')) : Called k.view e r k'.view := by
  cases e with
  | opendir path => cases a <;> cases h <;> rfl
  | closedir => cases h; rfl
  | openFile path =>
      cases a with
      | fail =>
          cases h
          exact .inl ⟨show (-1 : Int) < 0 by decide, rfl⟩
      | file fd file =>
          simp only [Kernel.effect] at h
          split at h
          · rename_i hOpen
            cases h
            exact .inr ⟨hOpen.1, hOpen.2.1, file, hOpen.2.2, rfl⟩
          · cases h
      | _ => cases h
  | getBdf fd =>
      cases a with
      | fail =>
          cases h
          exact ⟨rfl, fun f hf => by cases hf⟩
      | success =>
          simp only [Kernel.effect] at h
          split at h
          · rename_i bdf hFile
            cases h
            refine ⟨rfl, fun f hf => ?_⟩
            cases hf
            exact hFile
          · cases h
      | _ => cases h
  | close fd => cases a <;> cases h <;> rfl
  | mmap fd size =>
      cases a with
      | fail =>
          cases h
          exact .inl ⟨rfl, rfl⟩
      | mapped addr =>
          simp only [Kernel.effect] at h
          split at h
          · rename_i hAddr
            cases h
            exact .inr ⟨addr, hAddr, rfl, rfl⟩
          · cases h
      | _ => cases h
  | munmap addr => cases a <;> cases h <;> rfl
  | readErrno => cases a <;> cases h; rfl
  | writeErrno errno => cases h; rfl
  | access e =>
      cases a with
      | access a =>
          simp only [Kernel.effect, Option.map_eq_some_iff] at h
          obtain ⟨rm, _, hEq⟩ := h
          cases hEq
          cases e with
          | allocDma fd size =>
              simp only [Called, Kernel.allocatedBy]
              split
              · simp [Kernel.view]
              · rfl
          | _ => simp [Called, Kernel.allocatedBy, Kernel.view]
      | _ => cases h

section Calls

variable {α : Type} {ok : Kernel → Syscall → Prop} {spec : Option Syscall → Kernel → Prop}
  {Q : α → Kernel → Prop} {P : View → Prop} {k : Kernel} {v : View}

theorem view_stable (P : View → Prop) : kernel.Stable fun k => P k.view := by
  intro k b k' hP hStep
  obtain ⟨hw, _, rfl⟩ := Option.map_eq_some_iff.mp hStep
  exact hP

/-- Nothing is demanded where no register is written. -/
def Lenient (spec : Option Syscall → Kernel → Prop) : Prop :=
  ∀ e k, (∀ call, e = some call → ¬ call.WritesReg) → spec e k

/-- A call made in a known view that is not a store to a register. -/
theorem safe_call (hSpec : Lenient spec) {e : Syscall} {cont : e.Result → Os α}
    (hWrites : ¬ e.WritesReg) (hView : k.view = v)
    (hNext : ∀ k r, Called v e r k.view → Safe kernel ok spec Q (cont r) k) :
    Safe kernel ok spec Q (.op e cont) k := by
  refine Safe.op (view_stable (· = v)) hView (fun k _ => hSpec _ k ?_) ?_
  · intro call hCall
    cases hCall
    exact hWrites
  · intro k a r k' hk _ hEff
    have hCalled := effect_called hEff
    rw [hk] at hCalled
    exact hNext k' r hCalled

theorem safe_done (hSpec : Lenient spec) {a : α} (hView : k.view = v)
    (hQ : ∀ k : Kernel, k.view = v → Q a k) : Safe kernel ok spec Q (.pure a) k :=
  Safe.pure (view_stable (· = v)) hView
    (fun k _ => hSpec _ k fun call hCall => by cases hCall) hQ

end Calls

/-! ## `dma_open_domain` -/

/-- What `dma_open_domain` leaves behind: the descriptor it returns, and nothing else. -/
def DmaOpened (domain bus dev func : Int) (before : View) (fd : Int) (v : View) : Prop :=
  if fd < 0 then v = before
  else before.files fd = none ∧ ∃ f, bdfMatches f domain bus dev func = true ∧
    v = before.setFile fd (some (.genpci f))

section LookUps

variable {ok : Kernel → Syscall → Prop} {spec : Option Syscall → Kernel → Prop}
  {k : Kernel} {v : View}

/-- The loop starts each round with the directory open and nothing else. -/
theorem safe_dmaScan (hSpec : Lenient spec) (domain bus dev func : Int)
    (names : List (List Char)) (savedErrno : Int)
    (hView : k.view = v.openDir) :
    Safe kernel ok spec (fun fd k => DmaOpened domain bus dev func v fd k.view)
      (dmaScan domain bus dev func names savedErrno) k := by
  induction names generalizing k savedErrno with
  | nil =>
      refine safe_call hSpec id hView fun k _ hClosed => ?_
      refine safe_call hSpec id hClosed fun k _ hSame => ?_
      exact safe_done hSpec hSame fun k hk => hk
  | cons name rest ih =>
      unfold dmaScan
      split
      · exact ih savedErrno hView
      split
      · exact ih ENAMETOOLONG hView
      refine safe_call hSpec id hView fun k fd hOpened => ?_
      show Safe kernel ok spec _ (if fd < 0 then _ else _) k
      rcases hOpened with ⟨hNeg, hSame⟩ | ⟨hPos, hFree, file, _, hFiles⟩
      · rw [if_pos hNeg]
        exact safe_call hSpec id hSame fun k errno hSame => ih errno hSame
      · have hNotNeg : ¬ fd < (0 : Int) := Int.not_lt.mpr hPos
        rw [if_neg hNotNeg]
        refine safe_call hSpec id hFiles fun k bdf hBdf => ?_
        show Safe kernel ok spec _ (if _ then _ else _) k
        split
        · rename_i hMatches
          obtain ⟨f, hf, hMatch⟩ := (Option.any_eq_true _ _).mp hMatches
          have hFile : file = .genpci f := by
            have hAt := hBdf.2 f hf
            rw [View.setFile_files] at hAt
            exact Option.some.inj hAt
          refine safe_call hSpec id hBdf.1 fun k _ hClosed => ?_
          refine safe_done hSpec hClosed fun k hk => ?_
          rw [DmaOpened, if_neg hNotNeg]
          exact ⟨hFree, f, hMatch, by rw [hk, hFile]; rfl⟩
        · refine safe_call hSpec id hBdf.1 fun k errno hSame => ?_
          refine safe_call hSpec id hSame fun k _ hClosed => ?_
          exact ih _ (hClosed.trans (View.setFile_none hFree file))

theorem safe_dmaOpenDomain (hSpec : Lenient spec) (domain bus dev func : Int)
    (hView : k.view = v) :
    Safe kernel ok spec (fun fd k => DmaOpened domain bus dev func v fd k.view)
      (dmaOpenDomain domain bus dev func) k := by
  refine safe_call hSpec id hView fun k names hOpened => ?_
  cases names with
  | none => exact safe_done hSpec hOpened fun k hk => hk
  | some names => exact safe_dmaScan hSpec domain bus dev func names ENOENT hOpened

/-! ## `controller_bar0_map` -/

theorem hexDigit_inj {a b : Nat} (ha : a < 16) (hb : b < 16) (h : hexDigit a = hexDigit b) :
    a = b := by
  have hAll : ∀ a < 16, ∀ b < 16, hexDigit a = hexDigit b → a = b := by decide
  exact hAll a ha b hb h

theorem length_hex2 (x y : UInt8) : (hex2 x).length = (hex2 y).length := rfl

theorem hex2_inj {x y : UInt8} (h : hex2 x = hex2 y) : x = y := by
  obtain ⟨hHigh, hLow⟩ : hexDigit (x.toNat / 16) = hexDigit (y.toNat / 16) ∧
      hexDigit (x.toNat % 16) = hexDigit (y.toNat % 16) := by simpa [hex2] using h
  have hx := x.toNat_lt
  have hy := y.toNat_lt
  have hQuot := hexDigit_inj (by omega) (by omega) hHigh
  have hRem := hexDigit_inj (by omega) (by omega) hLow
  exact UInt8.toNat_inj.mp (by omega)

theorem repr_func_inj {x y : UInt8} (hx : x < 8) (hy : y < 8)
    (h : (Nat.repr x.toNat).toList = (Nat.repr y.toNat).toList) : x = y := by
  have hAll : ∀ a < 8, ∀ b < 8, (Nat.repr a).toList = (Nat.repr b).toList → a = b := by
    decide
  exact UInt8.toNat_inj.mp
    (hAll _ (UInt8.lt_iff_toNat_lt.mp hx) _ (UInt8.lt_iff_toNat_lt.mp hy) h)

theorem length_repr_func {x : UInt8} (hx : x < 8) : (Nat.repr x.toNat).toList.length = 1 := by
  have hAll : ∀ a < 8, (Nat.repr a).toList.length = 1 := by decide
  exact hAll _ (UInt8.lt_iff_toNat_lt.mp hx)

/-- The path names the function. -/
theorem pciSysfsBar0Path_inj {bus dev func bus' dev' func' : UInt8} (hFunc : func < 8)
    (hFunc' : func' < 8)
    (h : pciSysfsBar0Path bus dev func = pciSysfsBar0Path bus' dev' func') :
    bus = bus' ∧ dev = dev' ∧ func = func' := by
  have hLen := (length_repr_func hFunc).trans (length_repr_func hFunc').symm
  unfold pciSysfsBar0Path at h
  obtain ⟨hBus, hRest⟩ := List.append_inj (List.append_cancel_left h) (length_hex2 bus bus')
  obtain ⟨hDev, hRest'⟩ := List.append_inj (List.cons.inj hRest).2 (length_hex2 dev dev')
  obtain ⟨hRepr, -⟩ := List.append_inj (List.cons.inj hRest').2 hLen
  exact ⟨hex2_inj hBus, hex2_inj hDev, repr_func_inj hFunc hFunc' hRepr⟩

/-- What `controller_bar0_map` leaves behind. -/
def Bar0Mapped (bus dev func : UInt8) (before : View) (bar0 : UInt64) (v : View) : Prop :=
  if bar0 = 0 then v = before else v = before.map (some (.resource0 ⟨0, bus, dev, func⟩))

theorem safe_closeBar0 (hSpec : Lenient spec) {fd : Int} (hView : k.view = v) :
    Safe kernel ok spec (fun _ k => k.view = v.setFile fd none) (closeBar0 fd) k := by
  refine safe_call hSpec id hView fun k closed hClosed => ?_
  cases closed with
  | false => exact safe_call hSpec id hClosed fun k _ hSame => safe_done hSpec hSame fun k hk => hk
  | true => exact safe_done hSpec hClosed fun k hk => hk

/-- A descriptor of BAR0 is one of the function named. -/
theorem safe_openPciBar0 (hSpec : Lenient spec) (bus dev func : UInt8) (hView : k.view = v) :
    Safe kernel ok spec
      (fun fd k => if fd < 0 then k.view = v else v.files fd = none ∧
        k.view = v.setFile fd (some (.resource0 ⟨0, bus, dev, func⟩)))
      (openPciBar0 bus dev func) k := by
  have hFail : ∀ (message : String) {k : Kernel}, k.view = v → Safe kernel ok spec
      (fun fd k => if fd < 0 then k.view = v else v.files fd = none ∧
        k.view = v.setFile fd (some (.resource0 ⟨0, bus, dev, func⟩)))
      (.op (.access (.printErrno message)) fun _ => .pure (-1)) k := by
    intro message k hk
    exact safe_call hSpec id hk fun k _ hSame => safe_done hSpec hSame fun k hk => hk
  unfold openPciBar0
  split
  · exact hFail _ hView
  split
  · exact hFail _ hView
  rename_i hValid _
  have hFunc : func < 8 := by
    have hBoth : dev < 32 ∧ func < 8 := by simpa [pciBdfIsValid] using hValid
    exact hBoth.2
  refine safe_call hSpec id hView fun k fd hOpened => ?_
  show Safe kernel ok spec _ (if fd < 0 then _ else _) k
  rcases hOpened with ⟨hNeg, hSame⟩ | ⟨hPos, hFree, file, hOpens, hFiles⟩
  · rw [if_pos hNeg]
    refine safe_call hSpec id hSame fun k _ hSame => safe_done hSpec hSame fun k hk => ?_
    rw [if_pos hNeg]
    exact hk
  · have hNotNeg : ¬ fd < (0 : Int) := Int.not_lt.mpr hPos
    rw [if_neg hNotNeg]
    refine safe_done hSpec hFiles fun k hk => ?_
    rw [if_neg hNotNeg]
    refine ⟨hFree, hk.trans ?_⟩
    cases file with
    | genpci bdf =>
        have hNotDev : genpciDevDir.isPrefixOf (pciSysfsBar0Path bus dev func) = false := rfl
        exact absurd hOpens (by simp [Opens, hNotDev])
    | resource0 bdf =>
        obtain ⟨hDomain, hLow, hPath⟩ := hOpens
        obtain ⟨rfl, rfl, rfl⟩ := pciSysfsBar0Path_inj hFunc hLow hPath
        rw [← hDomain]

theorem safe_controllerBar0Map (hSpec : Lenient spec) (bus dev func : UInt8) (size : Nat)
    (hView : k.view = v) :
    Safe kernel ok spec (fun bar0 k => Bar0Mapped bus dev func v bar0 k.view)
      (controllerBar0Map bus dev func size) k := by
  unfold controllerBar0Map
  split
  · exact safe_call hSpec id hView fun k _ hSame => safe_done hSpec hSame fun k hk => hk
  refine (safe_openPciBar0 hSpec bus dev func hView).bind fun fd k hFd => ?_
  split
  · rename_i hNeg
    rw [if_pos hNeg] at hFd
    exact safe_done hSpec hFd fun k hk => hk
  rename_i hNotNeg
  rw [if_neg hNotNeg] at hFd
  obtain ⟨hFree, hFiles⟩ := hFd
  refine safe_call hSpec id hFiles fun k addr hMapped => ?_
  rcases hMapped with ⟨rfl, hSame⟩ | ⟨a, hne, rfl, hWindow⟩
  · refine safe_call hSpec id hSame fun k _ hSame => ?_
    refine (safe_closeBar0 hSpec hSame).bind fun _ k hClosed => ?_
    rw [View.setFile_none hFree] at hClosed
    refine safe_call hSpec id hClosed fun k _ hSame => ?_
    exact safe_call hSpec id hSame fun k _ hSame => safe_done hSpec hSame fun k hk => hk
  · refine (safe_closeBar0 hSpec hWindow).bind fun _ k hClosed => ?_
    refine safe_done hSpec hClosed fun k hk => ?_
    rw [Bar0Mapped, if_neg hne, hk, View.setFile_files]
    exact congrArg (View.map · _) (View.setFile_none hFree _)

end LookUps

/-! ## `controller_init` -/

/-- Accesses that open, map and allocate nothing. -/
def Effect.Plain : Effect → Prop
  | .bar0Map _ _ _ => False
  | .bar0Unmap _ => False
  | .dmaOpen _ _ _ => False
  | .dmaClose _ => False
  | .allocDma _ _ => False
  | _ => True

/-- A store to a register. -/
def Effect.IsRegWrite : Effect → Prop
  | .regWrite _ _ => True
  | _ => False

theorem syscalls_plain {e : Effect} (h : e.Plain) : syscalls e = access e := by
  cases e with
  | bar0Map bus dev func => exact absurd h id
  | bar0Unmap bar0 => exact absurd h id
  | dmaOpen bus dev func => exact absurd h id
  | dmaClose fd => exact absurd h id
  | allocDma fd size => exact absurd h id
  | _ => rfl

theorem called_plain {v v' : View} {e : Effect} {r : e.Result} (h : e.Plain)
    (hCalled : Called v (.access e) r v') : v' = v := by
  cases e with
  | allocDma fd size => exact absurd h id
  | _ => exact hCalled

section Programs

variable {α : Type} {ok : Kernel → Syscall → Prop} {spec : Option Syscall → Kernel → Prop}
  {k : Kernel} {v : View} {c : ControllerData}

/-- A program of plain accesses leaves the view alone. -/
theorem safe_keeps {P : View → Prop} (bad : Effect → Prop) (hPlain : ∀ e, ¬ bad e → e.Plain)
    (hSpec : ∀ e k, (∀ call, e = some call → ∃ e, ¬ bad e ∧ call = .access e) →
      P k.view → spec e k)
    {p : Admin α} (hAvoids : p.Avoids bad) (hP : P k.view) :
    Safe kernel ok spec (fun _ k => P k.view) (p.handle syscalls) k := by
  have hNone : ∀ k, P k.view → spec none k :=
    fun k hk => hSpec none k (fun call hCall => by cases hCall) hk
  refine Safe.handle bad (view_stable P) hNone (fun e k he hk => ?_) hAvoids hP
  rw [syscalls_plain (hPlain e he)]
  refine Safe.op (view_stable P) hk (fun k hk => hSpec _ k ?_ hk) fun k a r k' hk _ hEff => ?_
  · intro call hCall
    exact ⟨e, he, (Option.some.inj hCall).symm⟩
  · have hSame := called_plain (hPlain e he) (effect_called hEff)
    exact Safe.pure (view_stable P) (by rw [hSame]; exact hk) hNone fun _ hk => hk

/-- Where no register is written there is nothing to show. -/
theorem safe_noWrites (hSpec : Lenient spec) {p : Admin α}
    (hAvoids : p.Avoids Effect.IsRegWrite) :
    Safe kernel ok spec (fun _ _ => True) (p.handle syscalls) k := by
  have hCall : ∀ (e : Syscall) (k : Kernel), ¬ e.WritesReg →
      Safe kernel ok spec (fun _ _ => True) (perform e) k := by
    intro e k he
    exact safe_call hSpec he rfl fun k r _ => safe_done hSpec rfl fun _ _ => trivial
  refine Safe.handle Effect.IsRegWrite (P := fun _ => True) (fun _ _ _ _ _ => trivial)
    (fun k _ => hSpec none k fun call hc => by cases hc) (fun e k he _ => ?_) hAvoids trivial
  cases e with
  | bar0Map bus dev func =>
      exact (safe_controllerBar0Map hSpec bus dev func _ rfl).mono fun _ _ _ => trivial
  | dmaOpen bus dev func =>
      exact (safe_dmaOpenDomain hSpec 0 bus dev func rfl).mono fun _ _ _ => trivial
  | bar0Unmap bar0 => exact hCall (.munmap bar0) k id
  | dmaClose fd =>
      exact safe_call hSpec id rfl fun k r _ => safe_done hSpec rfl fun _ _ => trivial
  | regWrite offset value => exact absurd trivial he
  | regRead offset => exact hCall (.access (.regRead offset)) k id
  | allocDma fd size => exact hCall (.access (.allocDma fd size)) k id
  | releaseDma mem => exact hCall (.access (.releaseDma mem)) k id
  | zeroDma mem => exact hCall (.access (.zeroDma mem)) k id
  | writeSqe virt slot cmd => exact hCall (.access (.writeSqe virt slot cmd)) k id
  | readCqe virt slot => exact hCall (.access (.readCqe virt slot)) k id
  | readData mem => exact hCall (.access (.readData mem)) k id
  | printErrno message => exact hCall (.access (.printErrno message)) k id

/-! ### Allocating -/

/-- The first allocation opens the node of the function with the untruncated numbers. -/
theorem safe_allocOpening (hSpec : Lenient spec) (size : UInt64) (mem : Mem)
    (hClosed : c.dmaFdOpened = false) (hView : k.view = v) :
    Safe kernel ok spec
      (fun r k => r.1 = true → ∃ fd f,
        bdfMatches f 0 c.bus.toNat c.dev.toNat c.func.toNat = true ∧
        r.2.1 = { c with dmaFd := fd, dmaFdOpened := true } ∧
        k.view = (v.setFile fd (some (.genpci f))).allocate (some (.genpci f)))
      ((nvmeAllocDmaMem c size mem).handle syscalls) k := by
  unfold nvmeAllocDmaMem nvmeDmaOpenController
  rw [if_neg (by simp [hClosed]), Prog.handle_bind, Prog.handle_bind, Prog.handle_perform]
  refine Safe.bind (Safe.bind (safe_dmaOpenDomain hSpec 0 c.bus.toNat c.dev.toNat
    c.func.toNat hView) (fun fd k hFd => ?_)) (Q := fun r k => r.1 = true → ∃ fd f,
        bdfMatches f 0 c.bus.toNat c.dev.toNat c.func.toNat = true ∧
        r.2 = { c with dmaFd := fd, dmaFdOpened := true } ∧
        k.view = v.setFile fd (some (.genpci f))) ?_
  · split
    · refine safe_call hSpec id rfl fun k _ _ => safe_done hSpec rfl fun k _ hTrue => ?_
      cases hTrue
    · rename_i hNotNeg
      rw [DmaOpened, if_neg hNotNeg] at hFd
      obtain ⟨-, f, hMatch, hFiles⟩ := hFd
      exact safe_done hSpec hFiles fun k hk _ => ⟨fd, f, hMatch, rfl, hk⟩
  · rintro ⟨opened, c'⟩ k hOpened
    cases opened with
    | false => exact safe_done hSpec rfl fun k _ hTrue => by cases hTrue
    | true =>
        obtain ⟨fd, f, hMatch, rfl, hFiles⟩ := hOpened rfl
        refine safe_call hSpec id hFiles fun k mem hAlloc => ?_
        show Safe kernel ok spec _ (Prog.handle syscalls (if _ then _ else _)) k
        split
        · refine safe_call hSpec id rfl fun k _ _ => safe_done hSpec rfl fun k _ hTrue => ?_
          cases hTrue
        · rename_i hReal
          have hne : mem ≠ {} := fun hEmpty => hReal (by rw [hEmpty]; exact .inl rfl)
          refine safe_done hSpec hAlloc fun k hk _ => ⟨fd, f, hMatch, rfl, ?_⟩
          rw [hk, if_neg hne, View.setFile_files]

/-- Later ones use the same descriptor. -/
theorem safe_allocOpened (hSpec : Lenient spec) (size : UInt64) (mem : Mem)
    (hOpened : c.dmaFdOpened = true) (hView : k.view = v) :
    Safe kernel ok spec
      (fun r k => r.1 = true → r.2.1 = c ∧ k.view = v.allocate (v.files c.dmaFd))
      ((nvmeAllocDmaMem c size mem).handle syscalls) k := by
  unfold nvmeAllocDmaMem nvmeDmaOpenController
  rw [if_pos hOpened]
  refine safe_call hSpec id hView fun k mem hAlloc => ?_
  show Safe kernel ok spec _ (Prog.handle syscalls (if _ then _ else _)) k
  split
  · refine safe_call hSpec id rfl fun k _ _ => safe_done hSpec rfl fun k _ hTrue => ?_
    cases hTrue
  · rename_i hReal
    have hne : mem ≠ {} := fun hEmpty => hReal (by rw [hEmpty]; exact .inl rfl)
    refine safe_done hSpec hAlloc fun k hk _ => ⟨rfl, ?_⟩
    rw [hk, if_neg hne]

/-! ### Registers -/

/-- Anything but a register access or a message. -/
def Effect.NotRegister : Effect → Prop
  | .regRead _ => False
  | .regWrite _ _ => False
  | .printErrno _ => False
  | _ => True

theorem avoids_regRead32 (bad : Effect → Prop) (hRead : ∀ o, ¬ bad (.regRead o))
    (hPrint : ∀ m, ¬ bad (.printErrno m)) (bar0 : UInt64) (offset : UInt32) :
    (controllerRegRead32 bar0 offset).Avoids bad := by
  unfold controllerRegRead32
  split
  · exact ⟨hPrint _, fun _ => trivial⟩
  · exact ⟨hRead _, fun _ => trivial⟩

theorem avoids_regRead64 (bad : Effect → Prop) (hRead : ∀ o, ¬ bad (.regRead o))
    (hPrint : ∀ m, ¬ bad (.printErrno m)) (bar0 : UInt64) (offset : UInt32) :
    (nvmeRegRead64 bar0 offset).Avoids bad := by
  unfold nvmeRegRead64
  refine (avoids_regRead32 bad hRead hPrint bar0 offset).bind fun lo => ?_
  cases lo with
  | none => trivial
  | some lo =>
      refine (avoids_regRead32 bad hRead hPrint bar0 _).bind fun hi => ?_
      cases hi with
      | none => trivial
      | some hi => trivial

theorem avoids_regWrite32 (bar0 : UInt64) (offset value : UInt32) :
    (controllerRegWrite32 bar0 offset value).Avoids Effect.NotRegister := by
  unfold controllerRegWrite32
  split
  · exact ⟨id, fun _ => trivial⟩
  · exact ⟨id, fun _ => trivial⟩

theorem avoids_regWrite64 (bar0 : UInt64) (offset : UInt32) (value : UInt64) :
    (nvmeRegWrite64 bar0 offset value).Avoids Effect.NotRegister := by
  unfold nvmeRegWrite64
  refine (avoids_regWrite32 bar0 offset _).bind fun done => ?_
  cases done with
  | false => trivial
  | true =>
      refine (avoids_regWrite32 bar0 _ _).bind fun done => ?_
      cases done with
      | false => trivial
      | true => trivial

theorem avoids_waitReady (bar0 : UInt64) (ready : Bool) (timeoutMs : UInt32) :
    (waitReady bar0 ready timeoutMs).Avoids Effect.NotRegister := by
  unfold waitReady
  induction timeoutMs.toNat with
  | zero => exact ⟨id, fun _ => trivial⟩
  | succ left ih =>
      unfold waitReadyLoop
      refine (avoids_regRead32 _ (fun _ => id) (fun _ => id) bar0 _).bind fun csts => ?_
      cases csts with
      | none => trivial
      | some csts =>
          dsimp only
          by_cases hOnes : csts = nvmeRegInvalid32
          · rw [if_pos hOnes]
            exact ⟨id, fun _ => trivial⟩
          rw [if_neg hOnes]
          by_cases hReady : csts &&& nvmeCstsRdy = if ready then nvmeCstsRdy else 0
          · rw [if_pos hReady]
            trivial
          · rw [if_neg hReady]
            exact ih

theorem avoids_unmap (c : ControllerData) :
    (nvmeUnmapControllerBar0 c).Avoids Effect.IsRegWrite := by
  unfold nvmeUnmapControllerBar0 controllerBar0Unmap
  split
  · refine ⟨id, fun done => ?_⟩
    cases done with
    | false => exact ⟨id, fun _ => trivial⟩
    | true => trivial
  · trivial

theorem avoids_freeDma (mem : Mem) : (freeDma mem).Avoids Effect.IsRegWrite := by
  unfold freeDma
  split
  · trivial
  · exact ⟨id, fun _ => trivial⟩

theorem avoids_failUnmapped (c : ControllerData) :
    (failUnmapped c).Avoids Effect.IsRegWrite :=
  (avoids_unmap c).bind fun _ => trivial

theorem avoids_failReleased (c : ControllerData) :
    (failReleased c).Avoids Effect.IsRegWrite := by
  refine (avoids_unmap c).bind fun c => ?_
  refine Prog.Avoids.bind ?_ fun _ => trivial
  refine (avoids_freeDma _).bind fun sqMem => (avoids_freeDma _).bind fun cqMem => ?_
  unfold nvmeCloseDma
  split
  · exact ⟨id, fun _ => trivial⟩
  · trivial

end Programs

/-! ### The whole function -/

section Init

variable {α : Type} {ok : Kernel → Syscall → Prop} {k : Kernel} {v before : View}
  {c c₀ : ControllerData}

theorem namedOnly_lenient (c₀ : ControllerData) (before : View) :
    Lenient (NamedOnly c₀ before) :=
  fun _ _ h call hCall hWrites => absurd hWrites (h call hCall)

/-- Every execution of `p` from a state in which the named controller has been found. -/
theorem safe_found {p : Admin α} (hAvoids : p.Avoids Effect.NotRegister)
    (hDrives : DrivesNamed c₀ before k.view) :
    Safe kernel ok (NamedOnly c₀ before) (fun _ k => DrivesNamed c₀ before k.view)
      (p.handle syscalls) k := by
  refine safe_keeps Effect.NotRegister ?_ (fun e k _ hk call _ _ => hk) hAvoids hDrives
  intro e he
  cases e with
  | regRead offset => trivial
  | regWrite offset value => trivial
  | printErrno message => trivial
  | _ => exact absurd trivial he

theorem safe_failed {p : Admin α} (hAvoids : p.Avoids Effect.IsRegWrite) :
    Safe kernel ok (NamedOnly c₀ before) (fun _ _ => True) (p.handle syscalls) k :=
  safe_noWrites (namedOnly_lenient c₀ before) hAvoids

/-- A step of which the failure ends the call. -/
theorem safe_orFail {p : Admin Bool} {f : Bool → Admin (Bool × ControllerData)}
    (hAvoids : p.Avoids Effect.NotRegister) (hFail : f false = failReleased c)
    (hDrives : DrivesNamed c₀ before k.view)
    (hRest : ∀ k : Kernel, DrivesNamed c₀ before k.view →
      Safe kernel ok (NamedOnly c₀ before) (fun _ _ => True) ((f true).handle syscalls) k) :
    Safe kernel ok (NamedOnly c₀ before) (fun _ _ => True) ((p >>= f).handle syscalls) k := by
  rw [Prog.handle_bind]
  refine (safe_found hAvoids hDrives).bind fun done k hk => ?_
  cases done with
  | false =>
      rw [hFail]
      exact safe_failed (avoids_failReleased c)
  | true => exact hRest k hk

theorem safe_enableNamed (cap : UInt64) (hDrives : DrivesNamed c₀ before k.view) :
    Safe kernel ok (NamedOnly c₀ before) (fun _ _ => True)
      ((enableController c cap).handle syscalls) k := by
  refine safe_orFail (avoids_regWrite32 _ _ _) rfl hDrives fun k hk => ?_
  refine safe_orFail (avoids_regWrite64 _ _ _) rfl hk fun k hk => ?_
  refine safe_orFail (avoids_regWrite64 _ _ _) rfl hk fun k hk => ?_
  refine safe_orFail (avoids_regWrite32 _ _ _) rfl hk fun k hk => ?_
  refine safe_orFail (avoids_waitReady _ _ _) rfl hk fun k hk => ?_
  exact safe_done (namedOnly_lenient c₀ before) rfl fun _ _ => trivial

theorem safe_restartNamed (cap : UInt64) (hDrives : DrivesNamed c₀ before k.view) :
    Safe kernel ok (NamedOnly c₀ before) (fun _ _ => True)
      ((restartController c cap).handle syscalls) k := by
  unfold restartController
  rw [Prog.handle_bind]
  refine (safe_found (avoids_regRead32 _ (fun _ => id) (fun _ => id) _ _) hDrives).bind
    fun cc k hk => ?_
  cases cc with
  | none => exact safe_failed (avoids_failReleased c)
  | some cc =>
      dsimp only
      split
      · exact safe_failed (Prog.Avoids.bind ⟨id, fun _ => trivial⟩ fun _ =>
          avoids_failReleased c)
      split
      · refine safe_orFail (avoids_regWrite32 _ _ _) rfl hk fun k hk => ?_
        exact safe_orFail (avoids_waitReady _ _ _) rfl hk fun k hk => safe_enableNamed cap hk
      · exact safe_enableNamed cap hk

/-- Untruncated numbers that match bytes are the bytes they are truncated to. -/
theorem named_of_matches {f : Bdf}
    (h : bdfMatches f 0 c₀.bus.toNat c₀.dev.toNat c₀.func.toNat = true) :
    Named c₀ f ∧ f = ⟨0, c₀.bus.toUInt8, c₀.dev.toUInt8, c₀.func.toUInt8⟩ := by
  obtain ⟨hDomain, hBus, hDev, hFunc⟩ : f.domain = 0 ∧ (f.bus.toNat : Int) = c₀.bus.toNat ∧
      (f.dev.toNat : Int) = c₀.dev.toNat ∧ (f.func.toNat : Int) = c₀.func.toNat := by
    simpa [bdfMatches] using h
  have hByte : ∀ {x : UInt8} {y : UInt16}, (x.toNat : Int) = y.toNat → x = y.toUInt8 := by
    intro x y hxy
    apply UInt8.toNat_inj.mp
    rw [UInt16.toNat_toUInt8]
    have := x.toNat_lt
    omega
  refine ⟨⟨hDomain, by omega, by omega, by omega⟩, ?_⟩
  rw [← hByte hBus, ← hByte hDev, ← hByte hFunc, ← hDomain]

/-- Between the mapping of BAR0 and the first store to a register both allocations are
made. -/
theorem safe_setupNamed (cap : UInt64) (hClosed : c.dmaFdOpened = false)
    (hBus : c.bus = c₀.bus) (hDev : c.dev = c₀.dev) (hFunc : c.func = c₀.func)
    (hView : k.view = v)
    (hWindow : v.bar0 = some (.resource0
      ⟨0, c₀.bus.toUInt8, c₀.dev.toUInt8, c₀.func.toUInt8⟩))
    (hOrigins : v.origins = before.origins) :
    Safe kernel ok (NamedOnly c₀ before) (fun _ _ => True)
      ((setupController c cap).handle syscalls) k := by
  have hSpec := namedOnly_lenient c₀ before
  unfold setupController
  rw [Prog.handle_bind]
  refine (safe_allocOpening hSpec _ _ hClosed hView).bind ?_
  rintro ⟨sqOk, c₁, sqMem⟩ k hSq
  cases sqOk with
  | false => exact safe_failed (avoids_failReleased _)
  | true =>
      obtain ⟨fd, f, hMatch, rfl, hView₁⟩ := hSq rfl
      rw [hBus, hDev, hFunc] at hMatch
      obtain ⟨hNamed, hBytes⟩ := named_of_matches hMatch
      simp only [Bool.not_true, Bool.false_eq_true, if_false]
      rw [Prog.handle_bind]
      refine (safe_allocOpened hSpec _ _ rfl hView₁).bind ?_
      rintro ⟨cqOk, c₂, cqMem⟩ k hCq
      cases cqOk with
      | false => exact safe_failed (avoids_failReleased _)
      | true =>
          obtain ⟨rfl, hView₂⟩ := hCq rfl
          have hDrives : DrivesNamed c₀ before k.view := by
            refine ⟨f, hNamed, ?_, [some (.genpci f), some (.genpci f)], ?_, by simp, by simp⟩
            · rw [hView₂, hBytes, ← hWindow]
              rfl
            · rw [hView₂]
              simp [View.allocate, View.setFile, hOrigins]
          refine safe_call hSpec id rfl fun k' _ hZero => ?_
          refine safe_call hSpec id hZero fun k' _ hZero => ?_
          refine safe_restartNamed cap ?_
          rw [hZero]
          exact hDrives

theorem safe_initNamed (hClosed : c₀.dmaFdOpened = false) (hView : k.view = before)
    (hBar0 : c₀.bar0Virt = 0) :
    Safe kernel ok (NamedOnly c₀ before) (fun _ _ => True)
      ((controllerInit c₀).handle syscalls) k := by
  have hSpec := namedOnly_lenient c₀ before
  unfold controllerInit
  rw [if_pos hBar0, Prog.handle_bind, Prog.handle_perform]
  refine (safe_controllerBar0Map hSpec _ _ _ nvmeBar0MapSize hView).bind fun bar0 k hMapped => ?_
  split
  · exact safe_done hSpec rfl fun _ _ => trivial
  rename_i hReal
  rw [Bar0Mapped, if_neg hReal] at hMapped
  unfold initMapped
  rw [Prog.handle_bind]
  -- Up to the first allocation registers are only read.
  refine (safe_keeps (P := (· = before.map (some (.resource0
    ⟨0, c₀.bus.toUInt8, c₀.dev.toUInt8, c₀.func.toUInt8⟩))))
    (fun e => e.NotRegister ∨ e.IsRegWrite) ?_ ?_
    (avoids_regRead64 _ (fun _ => by simp [Effect.NotRegister, Effect.IsRegWrite])
      (fun _ => by simp [Effect.NotRegister, Effect.IsRegWrite]) _ _) hMapped).bind
    fun cap k hk => ?_
  · intro e he
    cases e with
    | regRead offset => trivial
    | regWrite offset value => trivial
    | printErrno message => trivial
    | _ => exact absurd (.inl trivial) he
  · intro e k hPlain _ call hCall hWrites
    obtain ⟨e', he', rfl⟩ := hPlain call hCall
    cases e' with
    | regWrite offset value => exact absurd (.inr trivial) he'
    | _ => exact absurd hWrites id
  · have hReport : ∀ (message : String) (k : Kernel), Safe kernel ok (NamedOnly c₀ before)
        (fun _ _ => True) ((do
          printErrno message
          failUnmapped { c₀ with bar0Virt := bar0 } : Admin _).handle syscalls) k :=
      fun message k => safe_failed (Prog.Avoids.bind ⟨id, fun _ => trivial⟩ fun _ =>
        avoids_failUnmapped _)
    cases cap with
    | none => exact safe_failed (avoids_failUnmapped _)
    | some cap =>
        dsimp only
        split
        · exact hReport _ k
        split
        · exact hReport _ k
        split
        · exact hReport _ k
        · exact safe_setupNamed cap hClosed rfl rfl rfl hk rfl rfl

/-- A register is written only on the controller named by the untruncated numbers, with
memory from its own node; and the search for the node leaves one descriptor open if it
succeeds and none if it does not. -/
theorem namedController_of_steps {p : Os (Bool × ControllerData)} {k₀ : Kernel}
    (hBar0 : c.bar0Virt = 0) (hClosed : c.dmaFdOpened = false)
    (hSteps : Steps kernel (fun _ _ => True) ((controllerInit c).handle syscalls) k₀ p k) :
    (∀ offset value, p.next = some (.access (.regWrite offset value)) →
      DrivesNamed c k₀.view k.view) ∧
    ∀ domain bus dev func k₁ fd k₂,
      Returns kernel (fun _ _ => True) (dmaOpenDomain domain bus dev func) k₁ fd k₂ →
        DmaOpened domain bus dev func k₁.view fd k₂.view := by
  constructor
  · intro offset value hNext
    exact (safe_initNamed hClosed rfl hBar0).of_steps hSteps _ hNext trivial
  · intro domain bus dev func k₁ fd k₂ hReturns
    have hSafe : Safe kernel (fun _ _ => True) (fun _ _ => True)
        (fun fd k => DmaOpened domain bus dev func k₁.view fd k.view)
        (dmaOpenDomain domain bus dev func) k₁ :=
      safe_dmaOpenDomain (fun _ _ _ => trivial) domain bus dev func rfl
    exact hSafe.of_returns hReturns

/-- A controller on bus 5 and one on bus 6, the node of the other found first. -/
def twoNodes : List Reply :=
  [.file 3 (.resource0 ⟨0, 5, 0, 0⟩), .mapped 0x7f00, .success,
    .access (.word 0x140000ff), .access (.word 0),
    .names ["genpci1".toList, "null".toList, "genpci0".toList],
    .file 4 (.genpci ⟨0, 6, 0, 0⟩), .success, .errno 0, .success,
    .file 4 (.genpci ⟨0, 5, 0, 0⟩), .success, .success,
    .access (.memory { userVirtaddr := 0x1000, dmaAddr := 0x10000, size := 4096 }),
    .access (.memory { userVirtaddr := 0x2000, dmaAddr := 0x20000, size := 4096 }),
    .access .done, .access .done, .access (.word 1)]

/-- Their execution comes to the store that stops the controller on bus 5. -/
theorem namedController_of_steps_twoNodes :
    ∃ p k, ((controllerInit { bus := 5, nsid := 1 }).handle syscalls).after kernel
        { hw := { cap := 0x140000ff, cc := 1 } } twoNodes = some (p, k) ∧
      p.next = some (.access (.regWrite nvmeRegCc 0)) ∧
      DrivesNamed { bus := 5, nsid := 1 } (Kernel.view { hw := { cap := 0x140000ff, cc := 1 } })
        k.view := by
  have hEval : (((controllerInit { bus := 5, nsid := 1 }).handle syscalls).after kernel
      { hw := { cap := 0x140000ff, cc := 1 } } twoNodes).any
      (fun pk => decide (pk.1.next = some (.access (.regWrite nvmeRegCc 0)))) = true := by
    decide +kernel
  obtain ⟨⟨p, k⟩, hAfter, hNext⟩ := (Option.any_eq_true _ _).mp hEval
  have hWrite := of_decide_eq_true hNext
  exact ⟨p, k, hAfter, hWrite, (namedController_of_steps rfl rfl
    (Steps.start.of_after hAfter)).1 _ _ hWrite⟩

end Init

end NewPerf.Tools
