import NewPerf.Lib.Runs
import Mathlib.Data.List.Nodup
import Mathlib.Data.List.Perm.Subperm

/-!
# Instance numbers and device numbers

Every bound function gets an instance number from an IDA and registers a character
device under it.  The range given to `cdev_add` starts at the number of the instance and
has `genpci_MINORS` numbers, which is as many as `alloc_chrdev_region` has reserved
for all instances together.  So the range of any instance but the first reaches beyond
what is reserved, and the ranges of two instances overlap: `ownsNumbers_iff`.
-/

namespace NewPerf.Driver.Instances

open NewPerf.Lib.Runs

/-- `MKDEV` -/
def mkdev (major minor : Nat) : Nat := (major <<< 20) ||| minor

/-- `genpci_MINORS` -/
def genpciMinors : Nat := 1 <<< 20

/-- `ida_simple_get(&ida, 0, 0)`: the smallest number that is free. -/
def idaSimpleGet (ida : List Nat) : Nat :=
  ((List.range (ida.length + 1)).find? fun n => n ∉ ida).getD 0

/-- `struct genpci_dev` of the PCI function `pdev`. -/
structure GenpciDev where
  pdev : Nat
  number : Nat
  devt : Nat
  deriving DecidableEq, Repr

/-- A range registered by `cdev_add` for the device of a PCI function. -/
structure Cdev where
  devt : Nat
  count : Nat
  pdev : Nat
  deriving DecidableEq, Repr

/-- The node `/dev/genpciN`. -/
structure Node where
  number : Nat
  devt : Nat
  deriving DecidableEq, Repr

/-- What `genpci_probe` sets up and `genpci_remove` takes down. -/
structure Registry where
  ida : List Nat := []
  enabled : List Nat := []
  regions : List Nat := []
  drvdata : List GenpciDev := []
  cdevs : List Cdev := []
  nodes : List Node := []
  deriving DecidableEq

/-- The call that fails in `genpci_probe`. -/
inductive ProbeFailure where
  | kzalloc
  | idaSimpleGet
  | pciEnableDeviceMem
  | dmaSetMaskAndCoherent
  | pciRequestRegions
  | cdevAdd
  | deviceCreate
  deriving DecidableEq, Repr

/-! ## `genpci_probe` -/

/-- `out_remove_ida` -/
def Registry.outRemoveIda (s : Registry) (g : GenpciDev) : Registry :=
  { s with ida := s.ida.erase g.number }

/-- `out_disable_device` -/
def Registry.outDisableDevice (s : Registry) (g : GenpciDev) : Registry :=
  { s with enabled := s.enabled.erase g.pdev }.outRemoveIda g

/-- `out_clear_drvdata` -/
def Registry.outClearDrvdata (s : Registry) (g : GenpciDev) : Registry :=
  { s with
    drvdata := s.drvdata.eraseP (·.pdev = g.pdev)
    regions := s.regions.erase g.pdev }.outDisableDevice g

/-- `out_del_cdev` -/
def Registry.outDelCdev (s : Registry) (g : GenpciDev) : Registry :=
  { s with cdevs := s.cdevs.eraseP (·.pdev = g.pdev) }.outClearDrvdata g

/-- `genpci_probe`; `failure` is the call that fails, if any. -/
def Registry.genpciProbe (s : Registry) (major pdev : Nat) (failure : Option ProbeFailure) :
    Registry :=
  if failure = some .kzalloc ∨ failure = some .idaSimpleGet then s
  else
    let number := idaSimpleGet s.ida
    let g := { pdev, number, devt := mkdev major number }
    let s := { s with ida := number :: s.ida }
    if failure = some .pciEnableDeviceMem then s.outRemoveIda g
    else
      let s := { s with enabled := pdev :: s.enabled }
      if failure = some .dmaSetMaskAndCoherent ∨ failure = some .pciRequestRegions then
        s.outDisableDevice g
      else
        let s := { s with regions := pdev :: s.regions, drvdata := g :: s.drvdata }
        if failure = some .cdevAdd then s.outClearDrvdata g
        else
          let s := { s with cdevs := ⟨g.devt, genpciMinors, pdev⟩ :: s.cdevs }
          if failure = some .deviceCreate then s.outDelCdev g
          else { s with nodes := ⟨number, g.devt⟩ :: s.nodes }

/-- `genpci_remove` -/
def Registry.genpciRemove (s : Registry) (g : GenpciDev) : Registry :=
  { drvdata := s.drvdata.eraseP (·.pdev = g.pdev)
    regions := s.regions.erase g.pdev
    enabled := s.enabled.erase g.pdev
    nodes := s.nodes.eraseP (·.devt = g.devt)
    cdevs := s.cdevs.eraseP (·.pdev = g.pdev)
    ida := s.ida.erase g.number }

/-- Functions are bound and unbound. -/
inductive Act where
  | probe (pdev : Nat) (failure : Option ProbeFailure)
  | remove (pdev : Nat)
  deriving Repr

/-- The device of a bound function. -/
def Registry.bound (s : Registry) (pdev : Nat) : Option GenpciDev :=
  s.drvdata.find? (·.pdev = pdev)

def step (major : Nat) (s : Registry) : Act → Option Registry
  | .probe pdev failure =>
      if (s.bound pdev).isNone then some (s.genpciProbe major pdev failure) else none
  | .remove pdev => (s.bound pdev).map s.genpciRemove

/-! ## What is asked of the numbers -/

/-- The range contains the number. -/
def Cdev.Contains (c : Cdev) (devt : Nat) : Prop := c.devt ≤ devt ∧ devt < c.devt + c.count

/-- The ranges are disjoint and within the numbers reserved, and a node leads only to
the device of its own instance, whichever of the ranges with its number is taken. -/
structure OwnsNumbers (major : Nat) (s : Registry) : Prop where
  disjoint : s.cdevs.Pairwise fun c c' => ∀ devt, ¬ (c.Contains devt ∧ c'.Contains devt)
  reserved : ∀ c ∈ s.cdevs, mkdev major 0 ≤ c.devt ∧
    c.devt + c.count ≤ mkdev major 0 + genpciMinors
  resolves : ∀ n ∈ s.nodes, ∀ c ∈ s.cdevs, c.Contains n.devt →
    ∃ g ∈ s.drvdata, g.number = n.number ∧ g.pdev = c.pdev

/-- The step leads to a state in which every instance owns its number. -/
def StaysOwned (major : Nat) (s : Registry) (a : Act) : Prop :=
  ∀ s', step major s a = some s' → OwnsNumbers major s'

/-- A device is bound only while no other one is. -/
def Alone (s : Registry) : Act → Prop
  | .probe _ failure => failure = none → s.drvdata = []
  | .remove _ => True

/-! ## The IDA -/

private theorem exists_free (ida : List Nat) : ∃ n ∈ List.range (ida.length + 1), n ∉ ida := by
  by_contra hAll
  have hSubset : List.range (ida.length + 1) ⊆ ida := by
    intro n hn
    by_contra hFree
    exact hAll ⟨n, hn, hFree⟩
  have hLength := (List.subperm_of_subset List.nodup_range hSubset).length_le
  rw [List.length_range] at hLength
  omega

/-- The number is free and every smaller one is in use. -/
theorem idaSimpleGet_spec (ida : List Nat) :
    idaSimpleGet ida ∉ ida ∧ ∀ n < idaSimpleGet ida, n ∈ ida := by
  obtain ⟨n, hn, hFree⟩ := exists_free ida
  have hSome : ((List.range (ida.length + 1)).find? fun n => n ∉ ida).isSome :=
    List.find?_isSome.mpr ⟨n, hn, decide_eq_true hFree⟩
  obtain ⟨i, hFind⟩ := Option.isSome_iff_exists.mp hSome
  rw [idaSimpleGet, hFind, Option.getD_some]
  obtain ⟨hOwn, -, hSmaller⟩ := List.find?_range_eq_some.mp hFind
  refine ⟨of_decide_eq_true hOwn, fun m hm => ?_⟩
  have hUsed := hSmaller m hm
  simpa using hUsed

/-! ## Binding and unbinding -/

section Steps

variable {s s' : Registry} {major pdev : Nat}

/-- A failing `genpci_probe` takes back everything it has set up. -/
theorem genpciProbe_failed {failure : ProbeFailure} :
    s.genpciProbe major pdev (some failure) = s := by
  cases failure <;>
    simp [Registry.genpciProbe, Registry.outRemoveIda, Registry.outDisableDevice,
      Registry.outClearDrvdata, Registry.outDelCdev]

theorem genpciProbe_done :
    s.genpciProbe major pdev none =
      { ida := idaSimpleGet s.ida :: s.ida
        enabled := pdev :: s.enabled
        regions := pdev :: s.regions
        drvdata := ⟨pdev, idaSimpleGet s.ida, mkdev major (idaSimpleGet s.ida)⟩ :: s.drvdata
        cdevs := ⟨mkdev major (idaSimpleGet s.ida), genpciMinors, pdev⟩ :: s.cdevs
        nodes := ⟨idaSimpleGet s.ida, mkdev major (idaSimpleGet s.ida)⟩ :: s.nodes } := rfl

/-- Different devices have different instance numbers, and the IDA knows them. -/
structure Numbered (s : Registry) : Prop where
  ida : s.ida = s.drvdata.map GenpciDev.number
  numbers : (s.drvdata.map GenpciDev.number).Nodup
  pdevs : (s.drvdata.map GenpciDev.pdev).Nodup

private theorem eraseP_congr {α : Type} {p q : α → Bool} {l : List α}
    (h : ∀ x ∈ l, p x = q x) : l.eraseP p = l.eraseP q := by
  induction l with
  | nil => rfl
  | cons x l ih =>
      rw [List.eraseP_cons, List.eraseP_cons, h x List.mem_cons_self,
        ih fun y hy => h y (List.mem_cons_of_mem x hy)]

theorem Numbered.probe (h : Numbered s) (hNew : s.bound pdev = none) :
    Numbered (s.genpciProbe major pdev none) := by
  refine ⟨?_, ?_, ?_⟩
  · rw [genpciProbe_done, h.ida]
    rfl
  · rw [genpciProbe_done]
    refine List.nodup_cons.mpr ⟨?_, h.numbers⟩
    rw [← h.ida]
    exact (idaSimpleGet_spec s.ida).1
  · rw [genpciProbe_done]
    refine List.nodup_cons.mpr ⟨fun hMem => ?_, h.pdevs⟩
    obtain ⟨g, hg, hSame⟩ := List.mem_map.mp hMem
    exact absurd (decide_eq_true hSame) (List.find?_eq_none.mp hNew g hg)

theorem Numbered.remove (h : Numbered s) {g : GenpciDev} (hg : g ∈ s.drvdata) :
    Numbered (s.genpciRemove g) := by
  have hSame : s.drvdata.eraseP (fun x => x.number == g.number) =
      s.drvdata.eraseP (fun x => decide (x.pdev = g.pdev)) := by
    refine eraseP_congr fun x hx => ?_
    have hNumber := List.inj_on_of_nodup_map h.numbers hx hg
    have hPdev := List.inj_on_of_nodup_map h.pdevs hx hg
    rw [Bool.eq_iff_iff, beq_iff_eq, decide_eq_true_iff]
    exact ⟨fun hEq => by rw [hNumber hEq], fun hEq => by rw [hPdev hEq]⟩
  have hSub : (s.drvdata.eraseP fun x => decide (x.pdev = g.pdev)).Sublist s.drvdata :=
    List.eraseP_sublist
  refine ⟨?_, (hSub.map _).nodup h.numbers, (hSub.map _).nodup h.pdevs⟩
  show s.ida.erase g.number = _
  rw [h.ida, List.erase_eq_eraseP', List.eraseP_map]
  exact congrArg (List.map GenpciDev.number) hSame

theorem Numbered.step {a : Act} (h : Numbered s) (hStep : step major s a = some s') :
    Numbered s' := by
  cases a with
  | probe pdev failure =>
      obtain ⟨hNew, hStep⟩ := Option.ite_none_right_eq_some.mp hStep
      obtain rfl := Option.some.inj hStep
      cases failure with
      | some failure =>
          rw [genpciProbe_failed]
          exact h
      | none => exact h.probe (Option.isNone_iff_eq_none.mp hNew)
  | remove pdev =>
      obtain ⟨g, hBound, rfl⟩ := Option.map_eq_some_iff.mp hStep
      exact h.remove (List.mem_of_find?_eq_some hBound)

/-- At most one device is bound, as instance 0. -/
def Single (major : Nat) (s : Registry) : Prop :=
  s = {} ∨ ∃ pdev, s = ({} : Registry).genpciProbe major pdev none

/-- The first instance has the numbers that are reserved. -/
theorem Single.ownsNumbers (h : Single major s) : OwnsNumbers major s := by
  rcases h with rfl | ⟨pdev, rfl⟩
  · exact ⟨.nil, nofun, nofun⟩
  · refine ⟨List.pairwise_singleton _ _, fun c hc => ?_, fun n hn c hc _ => ?_⟩
    · rw [List.mem_singleton.mp hc]
      exact ⟨Nat.le_refl _, Nat.le_refl _⟩
    · rw [List.mem_singleton.mp hn, List.mem_singleton.mp hc]
      exact ⟨_, List.mem_singleton_self _, rfl, rfl⟩

/-- The second one reaches beyond them. -/
theorem not_ownsNumbers_two {pdev' : Nat} :
    ¬ OwnsNumbers major
      ((({} : Registry).genpciProbe major pdev none).genpciProbe major pdev' none) := by
  intro h
  have hReserved := (h.reserved _ List.mem_cons_self).2
  have hSecond : mkdev major 1 = mkdev major 0 + 1 := by
    rw [mkdev, mkdev, ← Nat.shiftLeft_add_eq_or_of_lt (by decide),
      ← Nat.shiftLeft_add_eq_or_of_lt (by decide)]
  have hStart : mkdev major 1 + genpciMinors ≤ mkdev major 0 + genpciMinors := hReserved
  omega

/-- What a step does where at most one device is bound. -/
theorem Single.step {a : Act} (h : Single major s) (hStep : step major s a = some s') :
    (Alone s a ∧ Single major s') ∨ (¬ Alone s a ∧ ¬ OwnsNumbers major s') := by
  cases a with
  | probe pdev failure =>
      obtain ⟨-, hStep⟩ := Option.ite_none_right_eq_some.mp hStep
      obtain rfl := Option.some.inj hStep
      cases failure with
      | some failure =>
          left
          rw [genpciProbe_failed]
          exact ⟨nofun, h⟩
      | none =>
          rcases h with rfl | ⟨pdev', rfl⟩
          · exact .inl ⟨fun _ => rfl, .inr ⟨pdev, rfl⟩⟩
          · exact .inr ⟨fun hAlone => (nomatch hAlone rfl), not_ownsNumbers_two⟩
  | remove pdev =>
      obtain ⟨g, hBound, rfl⟩ := Option.map_eq_some_iff.mp hStep
      left
      refine ⟨trivial, .inl ?_⟩
      rcases h with rfl | ⟨pdev', rfl⟩
      · cases hBound
      · have hOnly := List.mem_of_find?_eq_some hBound
        rw [List.mem_singleton.mp hOnly]
        simp [Registry.genpciRemove, genpciProbe_done]

end Steps

/-- In every run the bound devices have numbers of their own. -/
theorem numbered_of_run {ok : Registry → Act → Prop} {major : Nat} {acts : List Act}
    {s : Registry} (hRun : Run (step major) ok {} acts s) : Numbered s := by
  have hInit : Numbered {} := ⟨rfl, .nil, .nil⟩
  exact hRun.invariant hInit fun _ _ _ h _ hStep => h.step hStep

/-- A run passes only through states in which every instance owns its number if and only
if no device is bound while another one is. -/
theorem ownsNumbers_iff (major : Nat) (acts : List Act) (s : Registry) :
    Run (step major) (StaysOwned major) {} acts s ↔ Run (step major) Alone {} acts s := by
  refine Run.iff_of_invariant (I := Single major) (.inl rfl) ?_ ?_
  · intro s a s' h hOk hStep
    rcases h.step hStep with ⟨-, hSingle⟩ | ⟨-, hNot⟩
    · exact hSingle
    · exact absurd (hOk s' hStep) hNot
  · intro s a s' h hStep
    constructor
    · intro hOk
      rcases h.step hStep with ⟨hAlone, -⟩ | ⟨-, hNot⟩
      · exact hAlone
      · exact absurd (hOk s' hStep) hNot
    · intro hAlone s'' hStep'
      rcases h.step hStep' with ⟨-, hSingle⟩ | ⟨hNot, -⟩
      · exact hSingle.ownsNumbers
      · exact absurd hAlone hNot

/-- Two controllers are bound. -/
theorem ownsNumbers_two_false :
    ∃ s, Run (step 240) (fun _ _ => True) {} [.probe 0 none, .probe 1 none] s ∧
      ¬ OwnsNumbers 240 s := by
  have hFirst : step 240 {} (.probe 0 none) =
      some (({} : Registry).genpciProbe 240 0 none) := rfl
  have hSecond : step 240 (({} : Registry).genpciProbe 240 0 none) (.probe 1 none) =
      some ((({} : Registry).genpciProbe 240 0 none).genpciProbe 240 1 none) := rfl
  exact ⟨_, (Run.single trivial hFirst).snoc trivial hSecond, not_ownsNumbers_two⟩

end NewPerf.Driver.Instances
