import NewPerf.Lib.Ledger
import NewPerf.Lib.Programs
import Mathlib.Logic.Function.Basic

/-!
# Loading, binding, unbinding and unloading

`genpci_init`, `genpci_probe`, `genpci_remove` and `genpci_exit`, one kernel call at a time.
Any call that can fail may fail.  The module loader and the driver core make the calls of
the four functions one after the other, in any order they allow: functions are bound while
the module is loaded, a bound function is unbound before it is bound again, and unloading
unbinds what is bound.

`Res` are the things that must be given back, and `Res.needs` says what cannot be there
without what: a character device points into its `struct genpci_dev`, has a number of the
region reserved by `genpci_init` and works on an enabled function that is referred to, a node
belongs to the class and is named by its instance number, and so on.  `genpci_remove` breaks
this in one place: it disables the function and drops the reference before it deletes the
character device.  `Excused` is that exception and no more: it holds of a character device
whose function has no driver data, and then only of these two needs.
-/

namespace NewPerf.Driver.Module

open NewPerf.Lib.Ledger
open NewPerf.Lib.Programs
open NewPerf.Lib.Runs

/-! ## What is held -/

inductive Res where
  | ida
  /-- The numbers reserved by `alloc_chrdev_region`. -/
  | chrdev
  | klass
  | driver
  /-- The `struct genpci_dev` of a PCI function. -/
  | dev (pdev : Nat)
  | number (n : Nat)
  | enabled (pdev : Nat)
  | master (pdev : Nat)
  | regions (pdev : Nat)
  | reference (pdev : Nat)
  | drvdata (pdev : Nat)
  | cdev (pdev : Nat)
  /-- The node `/dev/genpciN`. -/
  | node (n : Nat)
  deriving DecidableEq, Repr

/-- What cannot be there without what. -/
@[simp] def Res.needs : Res → List Res
  | .driver => [.ida, .chrdev, .klass]
  | .number _ => [.ida]
  | .master pdev => [.enabled pdev]
  | .regions pdev => [.enabled pdev]
  | .drvdata pdev => [.dev pdev, .enabled pdev, .reference pdev]
  | .cdev pdev => [.chrdev, .dev pdev, .enabled pdev, .reference pdev]
  | .node n => [.klass, .number n]
  | _ => []

/-- `genpci_remove` has cleared the driver data, and the character device is still there. -/
def Excused (held : Finset Res) (r q : Res) : Prop :=
  ∃ pdev, r = .cdev pdev ∧ (q = .enabled pdev ∨ q = .reference pdev) ∧ .drvdata pdev ∉ held

/-- Everything held has what it needs, but for what is excused. -/
def Supported (held : Finset Res) : Prop :=
  ∀ r ∈ held, ∀ q ∈ r.needs, q ∈ held ∨ Excused held r q

/-! ## The kernel -/

/-- Calls into the kernel: those that may fail to provide something, those that cannot,
those that give things back, and the rest.  `struct genpci_dev` is known by its instance
number. -/
inductive Call where
  | take (r : Res)
  | set (r : Res)
  | give (rs : List Res)
  | idaSimpleGet
  | dmaSetMaskAndCoherent (pdev : Nat)
  | pciSetDrvdata (pdev : Nat) (g : Option Nat)
  | pciGetDrvdata (pdev : Nat)
  | genpciDetachDmaEntries (pdev : Nat)
  deriving DecidableEq, Repr

/-- 0 or an error; `ida_simple_get` returns the number or an error. -/
@[reducible] def Call.Result : Call → Type
  | .take _ => Int
  | .set _ => Unit
  | .give _ => Unit
  | .idaSimpleGet => Int
  | .dmaSetMaskAndCoherent _ => Int
  | .pciSetDrvdata _ _ => Unit
  | .pciGetDrvdata _ => Option Nat
  | .genpciDetachDmaEntries _ => Unit

structure Kernel where
  held : Finset Res := ∅
  drvdata : Nat → Option Nat := fun _ => none

inductive Reply where
  | ok
  | fail (ret : Int)
  | number (n : Nat)
  deriving DecidableEq, Repr

/-- The IDA hands out numbers that are not in use. -/
def Kernel.effect (k : Kernel) (e : Call) (a : Reply) : Option (e.Result × Kernel) :=
  match e with
  | .take r => match a with
      | .ok => some (0, { k with held := insert r k.held })
      | .fail ret => if ret ≠ 0 then some (ret, k) else none
      | .number _ => none
  | .set r => if a = .ok then some ((), { k with held := insert r k.held }) else none
  | .give rs => if a = .ok then some ((), { k with held := lose k.held rs }) else none
  | .idaSimpleGet => match a with
      | .number n =>
          if .number n ∉ k.held then some (n, { k with held := insert (.number n) k.held })
          else none
      | .fail ret => if ret < 0 then some (ret, k) else none
      | .ok => none
  | .dmaSetMaskAndCoherent _ => match a with
      | .ok => some (0, k)
      | .fail ret => if ret ≠ 0 then some (ret, k) else none
      | .number _ => none
  | .pciSetDrvdata pdev g =>
      if a = .ok then
        some ((),
          { held := if g.isSome then insert (.drvdata pdev) k.held
              else lose k.held [.drvdata pdev]
            drvdata := Function.update k.drvdata pdev g })
      else none
  | .pciGetDrvdata pdev => if a = .ok then some (k.drvdata pdev, k) else none
  | .genpciDetachDmaEntries _ => if a = .ok then some ((), k) else none

/-- Nothing changes but through these calls. -/
def kernel : Machine Call Call.Result Reply Empty Kernel := ⟨Kernel.effect, fun _ b => b.elim⟩

/-- Things may be given back if they are held and what stays is supported. -/
def MayGive (held : Finset Res) (lost : List Res) : Prop :=
  (∀ r ∈ lost, r ∈ held) ∧ Supported (lose held lost)

/-- A call that the kernel's rules allow. -/
def Legit (held : Finset Res) : Call → Prop
  | .take r => MayGain Res.needs held r
  | .set r => MayGain Res.needs held r
  | .give rs => MayGive held rs
  | .idaSimpleGet => .ida ∈ held
  | .dmaSetMaskAndCoherent pdev => .enabled pdev ∈ held
  | .pciSetDrvdata pdev (some _) => MayGain Res.needs held (.drvdata pdev)
  | .pciSetDrvdata pdev none => MayGive held [.drvdata pdev]
  | .pciGetDrvdata pdev => .drvdata pdev ∈ held
  | .genpciDetachDmaEntries pdev => .dev pdev ∈ held

/-! ## `driver.c` -/

abbrev Code := Prog Call Call.Result

def take (r : Res) : Code Int := perform (Call.take r)

def give (rs : List Res) : Code Unit := perform (Call.give rs)

def ENOMEM : Int := 12
def ENODEV : Int := 19

/-- `out_free_dev` -/
def outFreeDev (pdev : Nat) : Code Unit := give [.dev pdev]

/-- `out_remove_ida` -/
def outRemoveIda (pdev n : Nat) : Code Unit := do
  give [.number n]
  outFreeDev pdev

/-- `out_disable_device`; `pci_disable_device` ends bus mastering, too. -/
def outDisableDevice (pdev n : Nat) : Code Unit := do
  give [.master pdev, .enabled pdev]
  outRemoveIda pdev n

/-- `out_clear_drvdata` -/
def outClearDrvdata (pdev n : Nat) : Code Unit := do
  perform (Call.pciSetDrvdata pdev none)
  give [.regions pdev]
  give [.reference pdev]
  outDisableDevice pdev n

/-- `out_del_cdev` -/
def outDelCdev (pdev n : Nat) : Code Unit := do
  give [.cdev pdev]
  outClearDrvdata pdev n

/-- The part of `genpci_probe` that has an instance number. -/
def genpciSetUp (pdev n : Nat) : Code Int := do
  let ret ← take (.enabled pdev)
  if ret ≠ 0 then do
    outRemoveIda pdev n
    return ret
  else do
    perform (Call.set (.master pdev))
    let ret ← perform (Call.dmaSetMaskAndCoherent pdev)
    if ret ≠ 0 then do
      outDisableDevice pdev n
      return ret
    else do
      let ret ← take (.regions pdev)
      if ret ≠ 0 then do
        outDisableDevice pdev n
        return ret
      else do
        perform (Call.set (.reference pdev))
        perform (Call.pciSetDrvdata pdev (some n))
        let ret ← take (.cdev pdev)
        if ret ≠ 0 then do
          outClearDrvdata pdev n
          return ret
        else do
          let ret ← take (.node n)
          if ret ≠ 0 then do
            outDelCdev pdev n
            return -ENODEV
          else return 0

/-- `genpci_probe` -/
def genpciProbe (pdev : Nat) : Code Int := do
  let null ← take (.dev pdev)
  if null ≠ 0 then return -ENOMEM
  else do
    let ret ← perform Call.idaSimpleGet
    if ret < 0 then do
      outFreeDev pdev
      return ret
    else genpciSetUp pdev ret.toNat

/-- `genpci_remove` -/
def genpciRemove (pdev : Nat) : Code Unit := do
  let some n ← perform (Call.pciGetDrvdata pdev) | return ()
  perform (Call.genpciDetachDmaEntries pdev)
  perform (Call.pciSetDrvdata pdev none)
  give [.regions pdev]
  give [.master pdev, .enabled pdev]
  give [.reference pdev]
  give [.node n]
  give [.cdev pdev]
  give [.number n]
  give [.dev pdev]

/-- `genpci_init` -/
def genpciInit : Code Int := do
  perform (Call.set .ida)
  let ret ← take .chrdev
  if ret ≠ 0 then do
    give [.ida]
    return ret
  else do
    let ret ← take .klass
    if ret ≠ 0 then do
      give [.chrdev]
      give [.ida]
      return ret
    else do
      let ret ← take .driver
      if ret ≠ 0 then do
        give [.klass]
        give [.chrdev]
        give [.ida]
        return ret
      else return 0

/-- `pci_unregister_driver` unbinds the functions that are bound. -/
def pciUnregisterDriver : List Nat → Code Unit
  | [] => give [.driver]
  | pdev :: rest => do
      genpciRemove pdev
      pciUnregisterDriver rest

/-- `genpci_exit` -/
def genpciExit (bound : List Nat) : Code Unit := do
  pciUnregisterDriver bound
  give [.klass]
  give [.chrdev]
  give [.ida]

/-! ## The module loader and the driver core -/

structure Host where
  loaded : Bool := false
  bound : List Nat := []
  deriving DecidableEq, Repr

inductive Request where
  | load
  | probe (pdev : Nat)
  | remove (pdev : Nat)
  | unload
  deriving DecidableEq, Repr

def prog (h : Host) : Request → Option (Code Host)
  | .load =>
      if h.loaded then none
      else some do
        let ret ← genpciInit
        return { h with loaded := ret = 0 }
  | .probe pdev =>
      if h.loaded ∧ pdev ∉ h.bound then some do
        let ret ← genpciProbe pdev
        return if ret = 0 then { h with bound := pdev :: h.bound } else h
      else none
  | .remove pdev =>
      if pdev ∈ h.bound then some do
        genpciRemove pdev
        return { h with bound := h.bound.erase pdev }
      else none
  | .unload =>
      if h.loaded then some do
        genpciExit h.bound
        return {}
      else none

/-! ## What must be held -/

def moduleRes : List Res := [.driver, .klass, .chrdev, .ida]

/-- What a bound function holds. -/
def deviceRes (pdev n : Nat) : List Res :=
  [.node n, .cdev pdev, .drvdata pdev, .reference pdev, .regions pdev, .master pdev,
    .enabled pdev, .number n, .dev pdev]

/-- What is held while none of the four functions is running. -/
def Owed (h : Host) (drvdata : Nat → Option Nat) (r : Res) : Prop :=
  (h.loaded = true ∧ r ∈ moduleRes) ∨
    ∃ pdev n, pdev ∈ h.bound ∧ drvdata pdev = some n ∧ r ∈ deviceRes pdev n

structure Settled (h : Host) (k : Kernel) : Prop where
  held : ∀ r, r ∈ k.held ↔ Owed h k.drvdata r
  drvdata : ∀ pdev, (k.drvdata pdev).isSome ↔ pdev ∈ h.bound
  numbers : ∀ p q n, k.drvdata p = some n → k.drvdata q = some n → p = q
  nodup : h.bound.Nodup
  loaded : h.bound ≠ [] → h.loaded = true

/-- Throughout, everything held is supported and every call is one the kernel allows. -/
def Proper (next : Option Call) (k : Kernel) : Prop :=
  Supported k.held ∧ ∀ e, next = some e → Legit k.held e

/-- What has to stay as long as it is needed even in `genpci_remove`. -/
@[simp] def Res.kept : Res → List Res
  | .cdev pdev => [.chrdev, .dev pdev]
  | r => r.needs

theorem Res.needs_of_kept {r q : Res} (h : q ∈ r.kept) : q ∈ r.needs := by
  cases r with
  | cdev pdev =>
      simp only [Res.kept, List.mem_cons, List.not_mem_nil, or_false] at h
      rcases h with rfl | rfl <;> simp
  | _ => exact h

theorem mayGain_kept {held : Finset Res} {r : Res} (h : MayGain Res.needs held r) :
    MayGain Res.kept held r :=
  ⟨h.1, fun q hq => h.2 q (Res.needs_of_kept hq)⟩

theorem sound_kept {held : Finset Res} (h : Sound Res.needs held) : Sound Res.kept held :=
  fun r hr q hq => h r hr q (Res.needs_of_kept hq)

/-- Driver data is there only with the function enabled and referred to, so without them it
has been cleared. -/
theorem supported_of_kept {held : Finset Res} (h : Sound Res.kept held) : Supported held := by
  intro r hr q hq
  cases r with
  | cdev pdev =>
      simp only [Res.needs, List.mem_cons, List.not_mem_nil, or_false] at hq
      by_cases hData : Res.drvdata pdev ∈ held
      · have hStays := h _ hData
        rcases hq with rfl | rfl | rfl | rfl
        · exact .inl (h _ hr _ (by simp))
        · exact .inl (h _ hr _ (by simp))
        · exact .inl (hStays _ (by simp))
        · exact .inl (hStays _ (by simp))
      · rcases hq with rfl | rfl | rfl | rfl
        · exact .inl (h _ hr _ (by simp))
        · exact .inl (h _ hr _ (by simp))
        · exact .inr ⟨pdev, rfl, .inl rfl, hData⟩
        · exact .inr ⟨pdev, rfl, .inr rfl, hData⟩
  | _ => exact .inl (h _ hr q hq)

theorem mayGive_of_kept {held : Finset Res} {lost : List Res} (hSound : Sound Res.kept held)
    (h : MayLose Res.kept held lost) : MayGive held lost :=
  ⟨h.1, supported_of_kept (hSound.lose h.2)⟩

/-! ## Rules -/

/-- The code keeps to `Proper`, and leaves the kernel in `Q`. -/
abbrev Does {α : Type} (Q : α → Kernel → Prop) (p : Code α) (k : Kernel) : Prop :=
  Safe kernel (fun _ _ => True) Proper Q p k

section Rules

variable {α β : Type} {Q : α → Kernel → Prop} {base : Finset Res} {rs rs' lost : List Res}
  {r : Res} {d : Nat → Option Nat} {pdev n : Nat}

private theorem stable (P : Kernel → Prop) : kernel.Stable P := fun _ b _ => b.elim

theorem Does.pure {a : α} {k : Kernel} (hSound : Sound Res.kept k.held) (hQ : Q a k) :
    Does Q (Pure.pure a) k :=
  Safe.pure (P := (· = k)) (stable _) rfl
    (by rintro _ rfl; exact ⟨supported_of_kept hSound, fun e he => by cases he⟩)
    (by rintro _ rfl; exact hQ)

theorem Does.call {e : Call} {f : e.Result → Code α} {k : Kernel}
    (hSound : Sound Res.kept k.held) (hLegit : Legit k.held e)
    (hNext : ∀ a ret k', k.effect e a = some (ret, k') → Does Q (f ret) k') :
    Does Q (perform e >>= f) k :=
  Safe.op (P := (· = k)) (stable _) rfl
    (by rintro _ rfl; exact ⟨supported_of_kept hSound, fun e' he' => by cases he'; exact hLegit⟩)
    (by rintro _ a ret k' rfl - hEff; exact hNext a ret k' hEff)

theorem Does.take {f : Int → Code α} (hSound : Sound Res.kept (onTop base rs))
    (hMay : MayGain Res.needs (onTop base rs) r)
    (hOk : Sound Res.kept (onTop base (r :: rs)) → Does Q (f 0) ⟨onTop base (r :: rs), d⟩)
    (hFail : ∀ ret : Int, ret ≠ 0 → Does Q (f ret) ⟨onTop base rs, d⟩) :
    Does Q (Module.take r >>= f) ⟨onTop base rs, d⟩ := by
  refine Does.call (e := .take r) hSound hMay fun a ret k' hEff => ?_
  simp only [Kernel.effect] at hEff
  split at hEff
  · cases hEff
    rw [insert_onTop]
    exact hOk (by rw [← insert_onTop]; exact hSound.insert (mayGain_kept hMay))
  · obtain ⟨hRet, hEff⟩ := Option.ite_none_right_eq_some.mp hEff
    cases hEff
    exact hFail _ hRet
  · cases hEff

theorem Does.set {f : Unit → Code α} (hSound : Sound Res.kept (onTop base rs))
    (hMay : MayGain Res.needs (onTop base rs) r)
    (hNext : Sound Res.kept (onTop base (r :: rs)) → Does Q (f ()) ⟨onTop base (r :: rs), d⟩) :
    Does Q (perform (Call.set r) >>= f) ⟨onTop base rs, d⟩ := by
  refine Does.call (e := .set r) hSound hMay fun a ret k' hEff => ?_
  obtain ⟨-, hEff⟩ := Option.ite_none_right_eq_some.mp hEff
  cases hEff
  rw [insert_onTop]
  exact hNext (by rw [← insert_onTop]; exact hSound.insert (mayGain_kept hMay))

/-- What a function has taken it may give back, unless something else needs it. -/
theorem Does.give {f : Unit → Code α} (hBase : Sound Res.kept base)
    (hSound : Sound Res.kept (onTop base rs)) (hNew : ∀ r ∈ lost, r ∉ base)
    (hOwn : ∀ r ∈ lost, r ∈ rs) (hStay : ∀ r ∈ rs, r ∉ lost → ∀ q ∈ r.kept, q ∉ lost)
    (hRest : rs.filter (· ∉ lost) = rs')
    (hNext : Sound Res.kept (onTop base rs') → Does Q (f ()) ⟨onTop base rs', d⟩) :
    Does Q (Module.give lost >>= f) ⟨onTop base rs, d⟩ := by
  have hMay := mayLose_onTop hBase hNew hOwn hStay
  refine Does.call (e := .give lost) hSound (mayGive_of_kept hSound hMay) fun a ret k' hEff => ?_
  obtain ⟨-, hEff⟩ := Option.ite_none_right_eq_some.mp hEff
  cases hEff
  have hLose : lose (onTop base rs) lost = onTop base rs' := by rw [lose_onTop hNew, hRest]
  rw [hLose]
  exact hNext (by rw [← hLose]; exact hSound.lose hMay.2)

theorem Does.idaSimpleGet {f : Int → Code α} (hSound : Sound Res.kept (onTop base rs))
    (hIda : .ida ∈ onTop base rs)
    (hOk : ∀ n : Nat, .number n ∉ onTop base rs → Sound Res.kept (onTop base (.number n :: rs)) →
      Does Q (f n) ⟨onTop base (.number n :: rs), d⟩)
    (hFail : ∀ ret : Int, ret < 0 → Does Q (f ret) ⟨onTop base rs, d⟩) :
    Does Q (perform Call.idaSimpleGet >>= f) ⟨onTop base rs, d⟩ := by
  refine Does.call (e := .idaSimpleGet) hSound hIda fun a ret k' hEff => ?_
  simp only [Kernel.effect] at hEff
  split at hEff
  · rename_i n
    obtain ⟨hFree, hEff⟩ := Option.ite_none_right_eq_some.mp hEff
    cases hEff
    have hMay : MayGain Res.needs (onTop base rs) (.number n) :=
      ⟨hFree, fun q hq => by rw [List.mem_singleton.mp hq]; exact hIda⟩
    rw [insert_onTop]
    exact hOk n hFree (by rw [← insert_onTop]; exact hSound.insert (mayGain_kept hMay))
  · obtain ⟨hRet, hEff⟩ := Option.ite_none_right_eq_some.mp hEff
    cases hEff
    exact hFail _ hRet
  · cases hEff

theorem Does.dmaSetMask {f : Int → Code α} (hSound : Sound Res.kept (onTop base rs))
    (hEnabled : .enabled pdev ∈ onTop base rs)
    (hNext : ∀ ret, Does Q (f ret) ⟨onTop base rs, d⟩) :
    Does Q (perform (Call.dmaSetMaskAndCoherent pdev) >>= f) ⟨onTop base rs, d⟩ := by
  refine Does.call (e := .dmaSetMaskAndCoherent pdev) hSound hEnabled fun a ret k' hEff => ?_
  simp only [Kernel.effect] at hEff
  split at hEff
  · cases hEff
    exact hNext 0
  · obtain ⟨-, hEff⟩ := Option.ite_none_right_eq_some.mp hEff
    cases hEff
    exact hNext _
  · cases hEff

theorem Does.setDrvdata {f : Unit → Code α} (hSound : Sound Res.kept (onTop base rs))
    (hMay : MayGain Res.needs (onTop base rs) (.drvdata pdev))
    (hNext : Sound Res.kept (onTop base (.drvdata pdev :: rs)) →
      Does Q (f ()) ⟨onTop base (.drvdata pdev :: rs), Function.update d pdev (some n)⟩) :
    Does Q (perform (Call.pciSetDrvdata pdev (some n)) >>= f) ⟨onTop base rs, d⟩ := by
  refine Does.call (e := .pciSetDrvdata pdev (some n)) hSound hMay fun a ret k' hEff => ?_
  obtain ⟨-, hEff⟩ := Option.ite_none_right_eq_some.mp hEff
  cases hEff
  rw [Option.isSome_some, if_pos rfl, insert_onTop]
  exact hNext (by rw [← insert_onTop]; exact hSound.insert (mayGain_kept hMay))

theorem Does.clearDrvdata {f : Unit → Code α} (hBase : Sound Res.kept base)
    (hSound : Sound Res.kept (onTop base rs)) (hNew : .drvdata pdev ∉ base)
    (hOwn : .drvdata pdev ∈ rs) (hRest : rs.filter (· ∉ [.drvdata pdev]) = rs')
    (hNext : Sound Res.kept (onTop base rs') →
      Does Q (f ()) ⟨onTop base rs', Function.update d pdev none⟩) :
    Does Q (perform (Call.pciSetDrvdata pdev none) >>= f) ⟨onTop base rs, d⟩ := by
  have hNone : ∀ r : Res, ∀ q ∈ r.kept, q ∉ [Res.drvdata pdev] := by
    intro r q hq
    rw [List.mem_singleton]
    rintro rfl
    cases r <;> simp at hq
  have hMay : MayLose Res.kept (onTop base rs) [.drvdata pdev] :=
    mayLose_onTop hBase (by simpa using hNew) (by simpa using hOwn) fun r _ _ => hNone r
  refine Does.call (e := .pciSetDrvdata pdev none) hSound (mayGive_of_kept hSound hMay)
    fun a ret k' hEff => ?_
  obtain ⟨-, hEff⟩ := Option.ite_none_right_eq_some.mp hEff
  cases hEff
  have hLose : lose (onTop base rs) [.drvdata pdev] = onTop base rs' := by
    rw [lose_onTop (by simpa using hNew), hRest]
  simp only [Option.isSome_none, Bool.false_eq_true, if_false]
  rw [hLose]
  exact hNext (by rw [← hLose]; exact hSound.lose hMay.2)

/-- The last thing a function gives back. -/
theorem Does.give_last {Q : Unit → Kernel → Prop} (hBase : Sound Res.kept base)
    (hSound : Sound Res.kept (onTop base rs)) (hNew : ∀ r ∈ lost, r ∉ base)
    (hOwn : ∀ r ∈ lost, r ∈ rs) (hStay : ∀ r ∈ rs, r ∉ lost → ∀ q ∈ r.kept, q ∉ lost)
    (hRest : rs.filter (· ∉ lost) = rs') (hQ : Q () ⟨onTop base rs', d⟩) :
    Does Q (Module.give lost) ⟨onTop base rs, d⟩ :=
  Does.give (f := Pure.pure) hBase hSound hNew hOwn hStay hRest fun hSound' =>
    Does.pure hSound' hQ

theorem Does.bind {β : Type} {Q' : β → Kernel → Prop} {p : Code α} {f : α → Code β} {k : Kernel}
    (h : Does Q p k) (hNext : ∀ a k, Q a k → Does Q' (f a) k) : Does Q' (p >>= f) k :=
  Safe.bind h hNext

end Rules

/-! ## The four functions -/

section Functions

variable {base : Finset Res} {d : Nat → Option Nat} {pdev n : Nat}

/-- The module is loaded, and nothing of the function and the instance is there. -/
structure Clear (base : Finset Res) (pdev n : Nat) : Prop where
  sound : Sound Res.kept base
  ida : .ida ∈ base
  chrdev : .chrdev ∈ base
  klass : .klass ∈ base
  fresh : ∀ r ∈ deviceRes pdev n, r ∉ base

theorem Clear.new (h : Clear base pdev n) {lost : List Res}
    (hLost : ∀ r ∈ lost, r ∈ deviceRes pdev n) : ∀ r ∈ lost, r ∉ base :=
  fun r hr => h.fresh r (hLost r hr)

variable {Q : Unit → Kernel → Prop}

theorem outFreeDev_does (hBase : Sound Res.kept base) (hNew : Res.dev pdev ∉ base)
    (hSound : Sound Res.kept (onTop base [Res.dev pdev])) (hQ : Q () ⟨base, d⟩) :
    Does Q (outFreeDev pdev) ⟨onTop base [Res.dev pdev], d⟩ :=
  Does.give_last hBase hSound (by simpa using hNew) (by simp) (by simp) (by simp : _ = [])
    (by rw [onTop_nil]; exact hQ)

theorem outRemoveIda_does (h : Clear base pdev n)
    (hSound : Sound Res.kept (onTop base [Res.number n, Res.dev pdev])) (hQ : Q () ⟨base, d⟩) :
    Does Q (outRemoveIda pdev n) ⟨onTop base [Res.number n, Res.dev pdev], d⟩ :=
  Does.give h.sound hSound (h.new (by simp [deviceRes])) (by simp) (by simp)
    (by simp : _ = [Res.dev pdev]) fun hSound' =>
      outFreeDev_does h.sound (h.fresh _ (by simp [deviceRes])) hSound' hQ

theorem outDisableDevice_does (h : Clear base pdev n)
    (hSound : Sound Res.kept
      (onTop base [Res.master pdev, Res.enabled pdev, Res.number n, Res.dev pdev]))
    (hQ : Q () ⟨base, d⟩) :
    Does Q (outDisableDevice pdev n)
      ⟨onTop base [Res.master pdev, Res.enabled pdev, Res.number n, Res.dev pdev], d⟩ :=
  Does.give h.sound hSound (h.new (by simp [deviceRes])) (by simp) (by simp)
    (by simp : _ = [Res.number n, Res.dev pdev]) fun hSound' => outRemoveIda_does h hSound' hQ

theorem outClearDrvdata_does (h : Clear base pdev n)
    (hSound : Sound Res.kept (onTop base [Res.drvdata pdev, Res.reference pdev, Res.regions pdev,
      Res.master pdev, Res.enabled pdev, Res.number n, Res.dev pdev]))
    (hQ : Q () ⟨base, Function.update d pdev none⟩) :
    Does Q (outClearDrvdata pdev n)
      ⟨onTop base [Res.drvdata pdev, Res.reference pdev, Res.regions pdev, Res.master pdev,
        Res.enabled pdev, Res.number n, Res.dev pdev], d⟩ := by
  refine Does.clearDrvdata h.sound hSound (h.fresh _ (by simp [deviceRes])) (by simp)
    (by simp : _ = [Res.reference pdev, Res.regions pdev, Res.master pdev, Res.enabled pdev,
      Res.number n, Res.dev pdev]) fun hSound => ?_
  refine Does.give h.sound hSound (h.new (by simp [deviceRes])) (by simp) (by simp)
    (by simp : _ = [Res.reference pdev, Res.master pdev, Res.enabled pdev, Res.number n,
      Res.dev pdev])
    fun hSound => ?_
  exact Does.give h.sound hSound (h.new (by simp [deviceRes])) (by simp) (by simp)
    (by simp : _ = [Res.master pdev, Res.enabled pdev, Res.number n, Res.dev pdev])
    fun hSound => outDisableDevice_does h hSound hQ

theorem outDelCdev_does (h : Clear base pdev n)
    (hSound : Sound Res.kept (onTop base [Res.cdev pdev, Res.drvdata pdev, Res.reference pdev,
      Res.regions pdev, Res.master pdev, Res.enabled pdev, Res.number n, Res.dev pdev]))
    (hQ : Q () ⟨base, Function.update d pdev none⟩) :
    Does Q (outDelCdev pdev n)
      ⟨onTop base [Res.cdev pdev, Res.drvdata pdev, Res.reference pdev, Res.regions pdev,
        Res.master pdev, Res.enabled pdev, Res.number n, Res.dev pdev], d⟩ :=
  Does.give h.sound hSound (h.new (by simp [deviceRes])) (by simp) (by simp)
    (by simp : _ = [Res.drvdata pdev, Res.reference pdev, Res.regions pdev, Res.master pdev,
      Res.enabled pdev, Res.number n, Res.dev pdev]) fun hSound => outClearDrvdata_does h hSound hQ

/-- All or nothing. -/
def Bound (base : Finset Res) (d : Nat → Option Nat) (pdev n : Nat) (ret : Int) (k : Kernel) :
    Prop :=
  (ret ≠ 0 ∧ k = ⟨base, d⟩) ∨
    (ret = 0 ∧ k = ⟨onTop base (deviceRes pdev n), Function.update d pdev (some n)⟩)

theorem genpciSetUp_does (h : Clear base pdev n) (hNone : d pdev = none)
    (hSound : Sound Res.kept (onTop base [Res.number n, Res.dev pdev])) :
    Does (Bound base d pdev n) (genpciSetUp pdev n)
      ⟨onTop base [Res.number n, Res.dev pdev], d⟩ := by
  have hUndone : Function.update (Function.update d pdev (some n)) pdev none = d := by
    rw [Function.update_idem, ← hNone, Function.update_eq_self]
  have hBack : ∀ {p : Code Unit} {k : Kernel} {ret : Int}, ret ≠ 0 →
      Does (fun _ k' => k' = ⟨base, d⟩) p k →
      Does (Bound base d pdev n) (p >>= fun _ => Pure.pure ret) k := by
    intro p k ret hRet hp
    refine Does.bind hp ?_
    rintro _ _ rfl
    exact Does.pure h.sound (.inl ⟨hRet, rfl⟩)
  unfold genpciSetUp
  refine Does.take hSound (mayGain_onTop (h.fresh _ (by simp [deviceRes])) (by simp)
    (by simp)) (fun hSound => ?_) fun ret hRet => ?_
  case refine_2 =>
    rw [if_pos hRet]
    exact hBack hRet (outRemoveIda_does h hSound rfl)
  rw [if_neg (not_not.mpr rfl)]
  refine Does.set hSound (mayGain_onTop (h.fresh _ (by simp [deviceRes])) (by simp)
    (by simp)) fun hSound => ?_
  refine Does.dmaSetMask hSound (mem_onTop.mpr (.inr (by simp))) fun ret => ?_
  by_cases hRet : ret ≠ 0
  case pos =>
    rw [if_pos hRet]
    exact hBack hRet (outDisableDevice_does h hSound rfl)
  rw [if_neg hRet]
  refine Does.take hSound (mayGain_onTop (h.fresh _ (by simp [deviceRes])) (by simp)
    (by simp)) (fun hSound => ?_) fun ret hRet => ?_
  case refine_2 =>
    rw [if_pos hRet]
    exact hBack hRet (outDisableDevice_does h hSound rfl)
  rw [if_neg (not_not.mpr rfl)]
  refine Does.set hSound (mayGain_onTop (h.fresh _ (by simp [deviceRes])) (by simp)
    (by simp)) fun hSound => ?_
  refine Does.setDrvdata hSound (mayGain_onTop (h.fresh _ (by simp [deviceRes])) (by simp)
    (by simp)) fun hSound => ?_
  refine Does.take hSound (mayGain_onTop (h.fresh _ (by simp [deviceRes])) (by simp)
    (by simp [h.chrdev])) (fun hSound => ?_) fun ret hRet => ?_
  case refine_2 =>
    rw [if_pos hRet]
    exact hBack hRet (outClearDrvdata_does h hSound (by rw [hUndone]))
  rw [if_neg (not_not.mpr rfl)]
  refine Does.take hSound (mayGain_onTop (h.fresh _ (by simp [deviceRes])) (by simp)
    (by simp [h.klass])) (fun hSound => ?_) fun ret hRet => ?_
  case refine_2 =>
    rw [if_pos hRet]
    exact hBack (by decide) (outDelCdev_does h hSound (by rw [hUndone]))
  rw [if_neg (not_not.mpr rfl)]
  exact Does.pure hSound (.inr ⟨rfl, rfl⟩)

/-- Where `genpci_probe` starts from: the module is loaded, and the function is not
bound. -/
structure Ready (base : Finset Res) (d : Nat → Option Nat) (pdev : Nat) : Prop where
  sound : Sound Res.kept base
  ida : .ida ∈ base
  chrdev : .chrdev ∈ base
  klass : .klass ∈ base
  fresh : ∀ n, .number n ∉ base → ∀ r ∈ deviceRes pdev n, r ∉ base
  free : .dev pdev ∉ base
  none : d pdev = none

theorem genpciProbe_does (h : Ready base d pdev) :
    Does (fun ret k => (ret ≠ 0 ∧ k = ⟨base, d⟩) ∨
      ∃ n, .number n ∉ base ∧ ret = 0 ∧
        k = ⟨onTop base (deviceRes pdev n), Function.update d pdev (some n)⟩)
      (genpciProbe pdev) ⟨base, d⟩ := by
  have hStart : (⟨base, d⟩ : Kernel) = ⟨onTop base [], d⟩ := by rw [onTop_nil]
  have hSound : Sound Res.kept (onTop base []) := by
    rw [onTop_nil]
    exact h.sound
  unfold genpciProbe
  nth_rewrite 2 [hStart]
  refine Does.take hSound (mayGain_onTop h.free (by simp) (by simp))
    (fun hSound => ?_) fun null hNull => ?_
  case refine_2 =>
    rw [if_pos hNull, ← hStart]
    exact Does.pure h.sound (.inl ⟨by decide, rfl⟩)
  rw [if_neg (not_not.mpr rfl)]
  refine Does.idaSimpleGet hSound (mem_onTop.mpr (.inl h.ida)) (fun n hFree hSound => ?_)
    fun ret hRet => ?_
  case refine_2 =>
    rw [if_pos hRet]
    refine Does.bind (outFreeDev_does (Q := fun _ k => k = ⟨base, d⟩) h.sound h.free hSound rfl)
      ?_
    rintro _ _ rfl
    exact Does.pure h.sound (.inl ⟨Int.ne_of_lt hRet, rfl⟩)
  have hNew : Res.number n ∉ base := fun hMem => hFree (mem_onTop.mpr (.inl hMem))
  have hClear : Clear base pdev n :=
    ⟨h.sound, h.ida, h.chrdev, h.klass, h.fresh n hNew⟩
  rw [if_neg (Int.not_lt.mpr (Int.natCast_nonneg n)), Int.toNat_natCast]
  refine (genpciSetUp_does hClear h.none hSound).mono fun ret k hBound => ?_
  exact hBound.imp_right fun hAll => ⟨n, hNew, hAll⟩

theorem genpciRemove_does (h : Clear base pdev n) (hNumber : d pdev = some n)
    (hSound : Sound Res.kept (onTop base (deviceRes pdev n)))
    (hQ : Q () ⟨base, Function.update d pdev none⟩) :
    Does Q (genpciRemove pdev) ⟨onTop base (deviceRes pdev n), d⟩ := by
  unfold genpciRemove
  refine Does.call (e := .pciGetDrvdata pdev) hSound
    (mem_onTop.mpr (.inr (by simp [deviceRes]))) fun a ret k' hEff => ?_
  obtain ⟨-, hEff⟩ := Option.ite_none_right_eq_some.mp hEff
  cases hEff
  dsimp only
  rw [hNumber]
  refine Does.call (e := .genpciDetachDmaEntries pdev) hSound
    (mem_onTop.mpr (.inr (by simp [deviceRes]))) fun a ret k' hEff => ?_
  obtain ⟨-, hEff⟩ := Option.ite_none_right_eq_some.mp hEff
  cases hEff
  refine Does.clearDrvdata h.sound hSound (h.fresh _ (by simp [deviceRes]))
    (by simp [deviceRes]) (by simp [deviceRes] : _ = [Res.node n, Res.cdev pdev,
      Res.reference pdev, Res.regions pdev, Res.master pdev, Res.enabled pdev, Res.number n,
      Res.dev pdev]) fun hSound => ?_
  refine Does.give h.sound hSound (h.new (by simp [deviceRes])) (by simp) (by simp)
    (by simp : _ = [Res.node n, Res.cdev pdev, Res.reference pdev, Res.master pdev,
      Res.enabled pdev, Res.number n, Res.dev pdev]) fun hSound => ?_
  refine Does.give h.sound hSound (h.new (by simp [deviceRes])) (by simp) (by simp)
    (by simp : _ = [Res.node n, Res.cdev pdev, Res.reference pdev, Res.number n, Res.dev pdev])
    fun hSound => ?_
  refine Does.give h.sound hSound (h.new (by simp [deviceRes])) (by simp) (by simp)
    (by simp : _ = [Res.node n, Res.cdev pdev, Res.number n, Res.dev pdev]) fun hSound => ?_
  refine Does.give h.sound hSound (h.new (by simp [deviceRes])) (by simp) (by simp)
    (by simp : _ = [Res.cdev pdev, Res.number n, Res.dev pdev]) fun hSound => ?_
  refine Does.give h.sound hSound (h.new (by simp [deviceRes])) (by simp) (by simp)
    (by simp : _ = [Res.number n, Res.dev pdev]) fun hSound => ?_
  refine Does.give h.sound hSound (h.new (by simp [deviceRes])) (by simp) (by simp)
    (by simp : _ = [Res.dev pdev]) fun hSound => ?_
  exact outFreeDev_does h.sound (h.fresh _ (by simp [deviceRes])) hSound hQ

theorem genpciInit_does :
    Does (fun ret k => (ret ≠ 0 ∧ k = ⟨∅, d⟩) ∨ (ret = 0 ∧ k = ⟨onTop ∅ moduleRes, d⟩))
      genpciInit ⟨∅, d⟩ := by
  have hBase : Sound Res.kept ∅ := by simp [Sound]
  have hStart : (⟨∅, d⟩ : Kernel) = ⟨onTop ∅ [], d⟩ := by rw [onTop_nil]
  have hBack : ∀ {p : Code Unit} {k : Kernel} {ret : Int}, ret ≠ 0 →
      Does (fun _ k' => k' = ⟨∅, d⟩) p k →
      Does (fun ret k => (ret ≠ 0 ∧ k = ⟨∅, d⟩) ∨ (ret = 0 ∧ k = ⟨onTop ∅ moduleRes, d⟩))
        (p >>= fun _ => Pure.pure ret) k := by
    intro p k ret hRet hp
    refine Does.bind hp ?_
    rintro _ _ rfl
    exact Does.pure hBase (.inl ⟨hRet, rfl⟩)
  unfold genpciInit
  nth_rewrite 2 [hStart]
  refine Does.set (by rw [onTop_nil]; exact hBase) (mayGain_onTop (by simp) (by simp)
    (by simp)) fun hSound => ?_
  refine Does.take hSound (mayGain_onTop (by simp) (by simp) (by simp))
    (fun hSound => ?_) fun ret hRet => ?_
  case refine_2 =>
    rw [if_pos hRet]
    exact hBack hRet (Does.give_last hBase hSound (by simp) (by simp) (by simp)
      (by simp : _ = []) (by rw [onTop_nil]))
  rw [if_neg (not_not.mpr rfl)]
  refine Does.take hSound (mayGain_onTop (by simp) (by simp) (by simp))
    (fun hSound => ?_) fun ret hRet => ?_
  case refine_2 =>
    rw [if_pos hRet]
    refine Does.give hBase hSound (by simp) (by simp) (by simp)
      (by simp : _ = [Res.ida]) fun hSound => ?_
    exact hBack hRet (Does.give_last hBase hSound (by simp) (by simp) (by simp)
      (by simp : _ = []) (by rw [onTop_nil]))
  rw [if_neg (not_not.mpr rfl)]
  refine Does.take hSound (mayGain_onTop (by simp) (by simp) (by simp))
    (fun hSound => ?_) fun ret hRet => ?_
  case refine_2 =>
    rw [if_pos hRet]
    refine Does.give hBase hSound (by simp) (by simp) (by simp)
      (by simp : _ = [Res.chrdev, Res.ida]) fun hSound => ?_
    refine Does.give hBase hSound (by simp) (by simp) (by simp)
      (by simp : _ = [Res.ida]) fun hSound => ?_
    exact hBack hRet (Does.give_last hBase hSound (by simp) (by simp) (by simp)
      (by simp : _ = []) (by rw [onTop_nil]))
  rw [if_neg (not_not.mpr rfl)]
  exact Does.pure hSound (.inr ⟨rfl, rfl⟩)

/-- The last of the functions bound is gone. -/
theorem giveDriver_does (hSound : Sound Res.kept (onTop ∅ moduleRes))
    (hQ : Q () ⟨onTop ∅ [Res.klass, Res.chrdev, Res.ida], d⟩) :
    Does Q (give [.driver]) ⟨onTop ∅ moduleRes, d⟩ :=
  Does.give_last (by simp [Sound]) hSound (by simp) (by simp [moduleRes])
    (by simp [moduleRes]) (by simp [moduleRes] : _ = [Res.klass, Res.chrdev, Res.ida])
    hQ

theorem giveClass_does (hSound : Sound Res.kept (onTop ∅ [Res.klass, Res.chrdev, Res.ida]))
    (hQ : Q () ⟨∅, d⟩) :
    Does Q (do give [.klass]; give [.chrdev]; give [.ida])
      ⟨onTop ∅ [Res.klass, Res.chrdev, Res.ida], d⟩ := by
  have hBase : Sound Res.kept ∅ := by simp [Sound]
  refine Does.give hBase hSound (by simp) (by simp) (by simp)
    (by simp : _ = [Res.chrdev, Res.ida]) fun hSound => ?_
  refine Does.give hBase hSound (by simp) (by simp) (by simp)
    (by simp : _ = [Res.ida]) fun hSound => ?_
  exact Does.give_last hBase hSound (by simp) (by simp) (by simp)
    (by simp : _ = []) (by rw [onTop_nil]; exact hQ)

end Functions

/-! ## Between the calls -/

section Between

variable {h : Host} {k : Kernel} {pdev n : Nat} {r : Res}

/-- What two instances have in common shows in their functions or their numbers. -/
theorem deviceRes_apart {p q m : Nat} (hp : r ∈ deviceRes p n) (hq : r ∈ deviceRes q m) :
    p = q ∨ n = m := by
  cases r <;> simp_all [deviceRes]

theorem deviceRes_module (hr : r ∈ deviceRes pdev n) : r ∉ moduleRes := by
  cases r <;> simp_all [deviceRes, moduleRes]

theorem needs_moduleRes {q : Res} (hr : r ∈ moduleRes) (hq : q ∈ r.needs) : q ∈ moduleRes := by
  cases r <;> simp_all [moduleRes]
  tauto

theorem needs_deviceRes {q : Res} (hr : r ∈ deviceRes pdev n) (hq : q ∈ r.needs) :
    q ∈ deviceRes pdev n ∨ q ∈ moduleRes := by
  cases r <;> simp_all [deviceRes, moduleRes]
  all_goals tauto

/-- Whatever needs a part of an instance is part of it. -/
theorem deviceRes_of_needs {q : Res} (hq : q ∈ r.needs) (hPart : q ∈ deviceRes pdev n) :
    r ∈ deviceRes pdev n := by
  cases r <;> simp only [Res.needs, List.mem_cons, List.not_mem_nil, or_false] at hq
  case driver => rcases hq with rfl | rfl | rfl <;> simp [deviceRes] at hPart
  case number m =>
      subst hq
      simp [deviceRes] at hPart
  case master p =>
      subst hq
      simpa [deviceRes] using hPart
  case regions p =>
      subst hq
      simpa [deviceRes] using hPart
  case drvdata p => rcases hq with rfl | rfl | rfl <;> simpa [deviceRes] using hPart
  case cdev p =>
      rcases hq with rfl | rfl | rfl | rfl
      · simp [deviceRes] at hPart
      all_goals simpa [deviceRes] using hPart
  case node m =>
      rcases hq with rfl | rfl
      · simp [deviceRes] at hPart
      · simpa [deviceRes] using hPart

theorem Settled.module_held (hs : Settled h k) (hLoaded : h.loaded = true)
    (hr : r ∈ moduleRes) : r ∈ k.held :=
  (hs.held r).mpr (.inl ⟨hLoaded, hr⟩)

theorem Settled.device_held (hs : Settled h k) (hNumber : k.drvdata pdev = some n)
    (hr : r ∈ deviceRes pdev n) : r ∈ k.held :=
  (hs.held r).mpr (.inr ⟨pdev, n, (hs.drvdata pdev).mp (by rw [hNumber]; rfl), hNumber, hr⟩)

theorem Settled.loaded_of_bound (hs : Settled h k) (hBound : pdev ∈ h.bound) :
    h.loaded = true :=
  hs.loaded (List.ne_nil_of_mem hBound)

theorem Settled.sound (hs : Settled h k) : Sound Res.needs k.held := by
  intro r hr q hq
  rcases (hs.held r).mp hr with ⟨hLoaded, hMem⟩ | ⟨p, m, hBound, hNumber, hMem⟩
  · exact hs.module_held hLoaded (needs_moduleRes hMem hq)
  · rcases needs_deviceRes hMem hq with hOwn | hModule
    · exact hs.device_held hNumber hOwn
    · exact hs.module_held (hs.loaded_of_bound hBound) hModule

theorem Settled.ready (hs : Settled h k) (hLoaded : h.loaded = true)
    (hFree : pdev ∉ h.bound) : Ready k.held k.drvdata pdev := by
  have hNotDev : ∀ n, .number n ∉ k.held → ∀ r ∈ deviceRes pdev n, r ∉ k.held := by
    intro n hNew r hr hHeld
    rcases (hs.held r).mp hHeld with ⟨-, hMem⟩ | ⟨q, m, hBound, hNumber, hMem⟩
    · exact deviceRes_module hr hMem
    · rcases deviceRes_apart hr hMem with rfl | rfl
      · exact hFree hBound
      · exact hNew (hs.device_held hNumber (by simp [deviceRes]))
  refine
    { sound := sound_kept hs.sound
      ida := hs.module_held hLoaded (by simp [moduleRes])
      chrdev := hs.module_held hLoaded (by simp [moduleRes])
      klass := hs.module_held hLoaded (by simp [moduleRes])
      fresh := hNotDev
      free := fun hHeld => ?_
      none := ?_ }
  · rcases (hs.held _).mp hHeld with ⟨-, hMem⟩ | ⟨q, m, hBound, hNumber, hMem⟩
    · simp [moduleRes] at hMem
    · have hSame : pdev = q := by simpa [deviceRes] using hMem
      exact hFree (hSame ▸ hBound)
  · have hNot := mt (hs.drvdata pdev).mp hFree
    simpa using hNot

/-- A function has been bound. -/
theorem Settled.probed (hs : Settled h k) (hLoaded : h.loaded = true) (hFree : pdev ∉ h.bound)
    (hNew : .number n ∉ k.held) :
    Settled { h with bound := pdev :: h.bound }
      ⟨onTop k.held (deviceRes pdev n), Function.update k.drvdata pdev (some n)⟩ := by
  have hOther : ∀ q ∈ h.bound, Function.update k.drvdata pdev (some n) q = k.drvdata q := by
    intro q hq
    exact Function.update_of_ne (fun hEq => hFree (by rw [← hEq]; exact hq)) _ _
  have hFresh : ∀ q, k.drvdata q ≠ some n := fun q hq =>
    hNew (hs.device_held hq (by simp [deviceRes]))
  refine
    { held := fun r => ?_
      drvdata := fun q => ?_
      numbers := fun p q m hp hq => ?_
      nodup := List.nodup_cons.mpr ⟨hFree, hs.nodup⟩
      loaded := fun _ => hLoaded }
  · rw [mem_onTop, hs.held]
    constructor
    · rintro ((hModule | ⟨q, m, hBound, hNumber, hMem⟩) | hOwn)
      · exact .inl hModule
      · exact .inr ⟨q, m, List.mem_cons_of_mem _ hBound, (hOther q hBound).trans hNumber, hMem⟩
      · exact .inr ⟨pdev, n, List.mem_cons_self, Function.update_self .., hOwn⟩
    · rintro (hModule | ⟨q, m, hBound, hNumber, hMem⟩)
      · exact .inl (.inl hModule)
      · dsimp only at hNumber
        rcases List.mem_cons.mp hBound with rfl | hOld
        · rw [Function.update_self] at hNumber
          cases hNumber
          exact .inr hMem
        · exact .inl (.inr ⟨q, m, hOld, (hOther q hOld).symm.trans hNumber, hMem⟩)
  · dsimp only
    by_cases hq : q = pdev
    · rw [hq, Function.update_self]
      simp
    · rw [Function.update_of_ne hq, hs.drvdata, List.mem_cons]
      simp [hq]
  · dsimp only at hp hq
    by_cases hp' : p = pdev
    · by_cases hq' : q = pdev
      · rw [hp', hq']
      · rw [hp', Function.update_self] at hp
        cases hp
        rw [Function.update_of_ne hq'] at hq
        exact absurd hq (hFresh q)
    · rw [Function.update_of_ne hp'] at hp
      by_cases hq' : q = pdev
      · rw [hq', Function.update_self] at hq
        cases hq
        exact absurd hp (hFresh p)
      · rw [Function.update_of_ne hq'] at hq
        exact hs.numbers p q m hp hq

/-- The rest, seen from one bound function. -/
theorem Settled.clear (hs : Settled h k) (hNumber : k.drvdata pdev = some n) :
    Clear (lose k.held (deviceRes pdev n)) pdev n := by
  have hLoaded := hs.loaded_of_bound ((hs.drvdata pdev).mp (by rw [hNumber]; rfl))
  have hKept : ∀ r ∈ moduleRes, r ∈ lose k.held (deviceRes pdev n) := fun r hr =>
    mem_lose.mpr ⟨hs.module_held hLoaded hr, fun hDev => deviceRes_module hDev hr⟩
  exact
    { sound := (sound_kept hs.sound).lose fun r _ hOther q hq hPart =>
        hOther (deviceRes_of_needs (Res.needs_of_kept hq) hPart)
      ida := hKept _ (by simp [moduleRes])
      chrdev := hKept _ (by simp [moduleRes])
      klass := hKept _ (by simp [moduleRes])
      fresh := fun r hr hMem => (mem_lose.mp hMem).2 hr }

/-- A function has been unbound. -/
theorem Settled.removed (hs : Settled h k) (hNumber : k.drvdata pdev = some n) :
    Settled { h with bound := h.bound.erase pdev }
      ⟨lose k.held (deviceRes pdev n), Function.update k.drvdata pdev none⟩ := by
  have hMemErase : ∀ q, q ∈ h.bound.erase pdev ↔ q ≠ pdev ∧ q ∈ h.bound :=
    fun q => hs.nodup.mem_erase_iff
  refine
    { held := fun r => ?_
      drvdata := fun q => ?_
      numbers := fun p q m hp hq => ?_
      nodup := hs.nodup.erase pdev
      loaded := fun hSome => ?_ }
  · rw [mem_lose, hs.held]
    constructor
    · rintro ⟨hModule | ⟨q, m, hBound, hq, hMem⟩, hOther⟩
      · exact .inl hModule
      · have hNe : q ≠ pdev := by
          rintro rfl
          rw [hNumber] at hq
          cases hq
          exact hOther hMem
        exact .inr ⟨q, m, (hMemErase q).mpr ⟨hNe, hBound⟩,
          (Function.update_of_ne hNe _ _).trans hq, hMem⟩
    · rintro (hModule | ⟨q, m, hBound, hq, hMem⟩)
      · exact ⟨.inl hModule, fun hDev => deviceRes_module hDev hModule.2⟩
      · obtain ⟨hNe, hOld⟩ := (hMemErase q).mp hBound
        dsimp only at hq
        rw [Function.update_of_ne hNe] at hq
        refine ⟨.inr ⟨q, m, hOld, hq, hMem⟩, fun hDev => ?_⟩
        rcases deviceRes_apart hMem hDev with hSame | rfl
        · exact hNe hSame
        · exact hNe (hs.numbers q pdev m hq hNumber)
  · dsimp only
    by_cases hq : q = pdev
    · rw [hq, Function.update_self]
      simp [hMemErase]
    · rw [Function.update_of_ne hq, hs.drvdata, hMemErase]
      simp [hq]
  · dsimp only at hp hq
    have hNe : ∀ x, Function.update k.drvdata pdev none x = some m → x ≠ pdev := by
      rintro x hx rfl
      rw [Function.update_self] at hx
      cases hx
    have hp' := hNe p hp
    have hq' := hNe q hq
    rw [Function.update_of_ne hp'] at hp
    rw [Function.update_of_ne hq'] at hq
    exact hs.numbers p q m hp hq
  · obtain ⟨q, hq⟩ := List.exists_mem_of_ne_nil _ hSome
    exact hs.loaded_of_bound ((hMemErase q).mp hq).2

/-- Nothing is bound: only the module's own resources are held. -/
theorem Settled.held_module (hs : Settled h k) (hLoaded : h.loaded = true)
    (hNone : h.bound = []) : k.held = onTop ∅ moduleRes := by
  ext r
  rw [hs.held, mem_onTop]
  constructor
  · rintro (hModule | ⟨q, m, hBound, -⟩)
    · exact .inr hModule.2
    · rw [hNone] at hBound
      cases hBound
  · rintro (hNo | hModule)
    · cases hNo
    · exact .inl ⟨hLoaded, hModule⟩

theorem Settled.drvdata_none (hs : Settled h k) (hNone : h.bound = []) :
    k.drvdata = fun _ => none := by
  funext q
  have hNot : ¬ (k.drvdata q).isSome := by
    rw [hs.drvdata, hNone]
    exact List.not_mem_nil
  simpa using hNot

end Between

/-! ## Whole runs -/

section Runs

variable {h : Host} {k : Kernel} {pdev : Nat}

private theorem genpciRemove_settled {Q : Unit → Kernel → Prop} (hs : Settled h k)
    (hBound : pdev ∈ h.bound)
    (hQ : ∀ k', Settled { h with bound := h.bound.erase pdev } k' → Q () k') :
    Does Q (genpciRemove pdev) k := by
  obtain ⟨n, hNumber⟩ := Option.isSome_iff_exists.mp ((hs.drvdata pdev).mpr hBound)
  have hSplit : onTop (lose k.held (deviceRes pdev n)) (deviceRes pdev n) = k.held :=
    onTop_lose fun r hr => hs.device_held hNumber hr
  have hRemove := genpciRemove_does (Q := Q) (hs.clear hNumber) hNumber
    (by rw [hSplit]; exact sound_kept hs.sound) (hQ _ (hs.removed hNumber))
  rwa [hSplit] at hRemove

theorem settled_empty : Settled {} ⟨∅, fun _ => none⟩ :=
  { held := fun r => by simp [Owed]
    drvdata := fun p => by simp
    numbers := fun p q n hp => by cases hp
    nodup := .nil
    loaded := fun hNe => absurd rfl hNe }

theorem settled_loaded : Settled ⟨true, []⟩ ⟨onTop ∅ moduleRes, fun _ => none⟩ :=
  { held := fun r => by simp [Owed]
    drvdata := fun p => by simp
    numbers := fun p q n hp => by cases hp
    nodup := .nil
    loaded := fun _ => rfl }

/-- An unloaded module holds nothing. -/
private theorem Settled.unloaded (hs : Settled h k) (hNot : h.loaded ≠ true) :
    h = {} ∧ k = ⟨∅, fun _ => none⟩ := by
  have hNone : h.bound = [] := by
    by_contra hSome
    exact hNot (hs.loaded hSome)
  have hHeld : k.held = ∅ := by
    ext r
    rw [hs.held]
    simp [Owed, hNot, hNone]
  have hData := hs.drvdata_none hNone
  obtain ⟨loaded, bound⟩ := h
  obtain ⟨held, drvdata⟩ := k
  dsimp only at hNot hNone hHeld hData
  obtain rfl : loaded = false := Bool.eq_false_iff.mpr hNot
  subst hNone hHeld hData
  exact ⟨rfl, rfl⟩

/-- `pci_unregister_driver` unbinds one function after the other. -/
private theorem pciUnregisterDriver_settled {bound : List Nat}
    (hs : Settled ⟨true, bound⟩ k) :
    Does (fun _ k' => k' = ⟨onTop ∅ [Res.klass, Res.chrdev, Res.ida], fun _ => none⟩)
      (pciUnregisterDriver bound) k := by
  induction bound generalizing k with
  | nil =>
      have hHeld := hs.held_module rfl rfl
      have hNone := hs.drvdata_none rfl
      obtain ⟨held, drvdata⟩ := k
      dsimp only at hHeld hNone
      subst hHeld hNone
      exact giveDriver_does (sound_kept hs.sound) rfl
  | cons pdev rest ih =>
      refine Does.bind (Q := fun _ k' => Settled ⟨true, rest⟩ k') ?_ fun _ k' hs' => ih hs'
      refine genpciRemove_settled hs List.mem_cons_self fun k' hs' => ?_
      rwa [List.erase_cons_head] at hs'

private theorem genpciExit_settled (hs : Settled h k) (hLoaded : h.loaded = true) :
    Does (fun _ k' => k' = ⟨∅, fun _ => none⟩) (genpciExit h.bound) k := by
  obtain ⟨loaded, bound⟩ := h
  obtain rfl : loaded = true := hLoaded
  unfold genpciExit
  refine Does.bind (pciUnregisterDriver_settled hs) ?_
  rintro _ _ rfl
  exact giveClass_does (by simp [Sound]) rfl

/-- Each of the four functions may be called between any two others. -/
theorem inductive_settled :
    Calls.Inductive kernel (fun _ _ => True) Proper prog Settled where
  stable h := stable _
  spec_none h k hs :=
    ⟨supported_of_kept (sound_kept hs.sound), fun e he => by cases he⟩
  safe h k c p hs hProg := by
    cases c with
    | load =>
        obtain ⟨hNot, hProg⟩ := Option.ite_none_left_eq_some.mp hProg
        cases hProg
        obtain ⟨rfl, rfl⟩ := hs.unloaded hNot
        refine Does.bind genpciInit_does fun ret k' hDone => ?_
        rcases hDone with ⟨hRet, rfl⟩ | ⟨rfl, rfl⟩
        · rw [decide_eq_false hRet]
          exact Does.pure (sound_kept settled_empty.sound) settled_empty
        · exact Does.pure (sound_kept settled_loaded.sound) settled_loaded
    | probe pdev =>
        obtain ⟨⟨hLoaded, hFree⟩, hProg⟩ := Option.ite_none_right_eq_some.mp hProg
        cases hProg
        refine Does.bind (genpciProbe_does (hs.ready hLoaded hFree)) fun ret k' hBound => ?_
        rcases hBound with ⟨hRet, rfl⟩ | ⟨n, hNew, rfl, rfl⟩
        · rw [if_neg hRet]
          exact Does.pure (sound_kept hs.sound) hs
        · have hs' := hs.probed hLoaded hFree hNew
          rw [if_pos rfl]
          exact Does.pure (sound_kept hs'.sound) hs'
    | remove pdev =>
        obtain ⟨hBound, hProg⟩ := Option.ite_none_right_eq_some.mp hProg
        cases hProg
        exact Does.bind (Q := fun _ k' => Settled { h with bound := h.bound.erase pdev } k')
          (genpciRemove_settled hs hBound fun k' hs' => hs') fun _ k' hs' =>
            Does.pure (sound_kept hs'.sound) hs'
    | unload =>
        obtain ⟨hLoaded, hProg⟩ := Option.ite_none_right_eq_some.mp hProg
        cases hProg
        refine Does.bind (genpciExit_settled hs hLoaded) ?_
        rintro _ _ rfl
        exact Does.pure (sound_kept settled_empty.sound) settled_empty

/-- Nothing has been loaded. -/
def start : Calls Call Call.Result Host Kernel := { host := {}, machine := ⟨∅, fun _ => none⟩ }

private abbrev Step := Act Request Reply Empty

private def oks (n : Nat) : List Step := List.replicate n (Act.effect Reply.ok)

/-- A call is made, and its kernel calls are answered. -/
private def answered (c : Request) (replies : List Step) : List Step :=
  Act.call c :: (replies ++ [Act.ret])

/-- The module is loaded, a function is bound, and binding a second one fails at
`cdev_add`. -/
private def oneOfTwo : List Step :=
  answered (.load) (oks 4) ++
    answered (.probe 7) (Act.effect .ok :: Act.effect (.number 0) :: oks 8) ++
    answered (.probe 8) (Act.effect .ok :: Act.effect (.number 1) ::
      (oks 6 ++ Act.effect (.fail (-12)) :: oks 6))

/-- A function is bound, and `genpci_remove` has got as far as `pci_dev_put`. -/
private def halfRemoved : List Step :=
  answered (.load) (oks 4) ++
    answered (.probe 7) (Act.effect .ok :: Act.effect (.number 0) :: oks 8) ++
    Act.call (.remove 7) :: oks 6

/-- The exception cannot be dropped: there is a moment in `genpci_remove` when the character
device of a function is there that is neither enabled nor referred to. -/
theorem disabled_before_cdev_del :
    ∃ (as : List (Act Request Reply Empty)) (s : Calls Call Call.Result Host Kernel),
      Run (Calls.step kernel prog) (fun _ _ => True) start as s ∧
      .cdev 7 ∈ s.machine.held ∧ .enabled 7 ∉ s.machine.held ∧
      .reference 7 ∉ s.machine.held := by
  have hEval : (exec (Calls.step kernel prog) (fun _ _ => true) start halfRemoved).any
      (fun s => decide (Res.cdev 7 ∈ s.machine.held ∧ Res.enabled 7 ∉ s.machine.held ∧
        Res.reference 7 ∉ s.machine.held)) = true := by
    decide +kernel
  obtain ⟨s, hExec, hEnd⟩ := (Option.any_eq_true _ _).mp hEval
  exact ⟨halfRemoved, s, Run.of_exec (fun _ _ _ => trivial) hExec, of_decide_eq_true hEnd⟩

end Runs

end NewPerf.Driver.Module
