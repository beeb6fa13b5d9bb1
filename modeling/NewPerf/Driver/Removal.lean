import NewPerf.Driver.EntryLifetime

/-!
# Callbacks after `genpci_remove`

A `struct genpci_dev` is reached in two ways, through the `private_data` of a file and
through the `pgenpci_dev` of an entry.  `genpci_remove` clears the second for every
entry in the list, and by `Linked` these are all entries that point to the device, so
no VMA callback finds a freed one.  The first is not cleared: `stray_iff` says that
the files are all that can go wrong, and that each use of one does.
-/

namespace NewPerf.Driver.Devices

open NewPerf.Lib.Runs
open NewPerf.Tools

section Steps

variable {s s' : Kernel} {a : Act}

theorem touch_stray {d : Nat} : (s.touch d).stray = false ↔ s.stray = false ∧ s.live d = true := by
  simp [Kernel.touch]

theorem careful_of_none (hAccess : a.accesses = none) : Careful s a := by
  intro f d hSome
  rw [hAccess] at hSome
  cases hSome

/-- The device of the file is the one that matters. -/
theorem careful_file_iff {f d : Nat} (hFile : s.privateData f = some d)
    (hAccess : a.accesses = some f) : Careful s a ↔ s.live d = true := by
  constructor
  · intro hCareful
    exact hCareful f d hAccess hFile
  · intro hLive f' d' hAccess' hFile'
    rw [hAccess, Option.some.injEq] at hAccess'
    subst hAccess'
    rw [hFile, Option.some.injEq] at hFile'
    exact hFile' ▸ hLive

/-- The entry of a VMA that is closed leads to a device that is live. -/
def OwnersLive (s : Kernel) : Act → Prop
  | .vmaClose i => ∀ v e, s.vmas[i]? = some v → s.entries[v.entry]? = some e →
      s.ownerLive e = true
  | _ => True

/-- A stray access is made through a file or through an entry, and it is never undone. -/
theorem stray_step (hCounted : Counted s) (hStep : step s a = some s') :
    s'.stray = false ↔ s.stray = false ∧ Careful s a ∧ OwnersLive s a := by
  have hNone : a.accesses = none → OwnersLive s a → s'.stray = s.stray →
      (s'.stray = false ↔ s.stray = false ∧ Careful s a ∧ OwnersLive s a) := by
    intro hAccess hOwners hSame
    rw [hSame]
    exact ⟨fun h => ⟨h, careful_of_none hAccess, hOwners⟩, fun h => h.1⟩
  have hFile : ∀ f d, a.accesses = some f → s.privateData f = some d → OwnersLive s a →
      s'.stray = (s.touch d).stray →
      (s'.stray = false ↔ s.stray = false ∧ Careful s a ∧ OwnersLive s a) := by
    intro f d hAccess hData hOwners hSame
    rw [hSame, touch_stray, careful_file_iff hData hAccess]
    exact ⟨fun h => ⟨h.1, h.2, hOwners⟩, fun h => ⟨h.1, h.2.1⟩⟩
  cases step_cases hStep with
  | probe => exact hNone rfl trivial rfl
  | openFile hLive => exact hNone rfl trivial rfl
  | closeFile hData => exact hFile _ _ rfl hData trivial rfl
  | @mmap f d start len vmPgoff outcome hPaged hData =>
      cases outcome with
      | noEntry => exact hNone rfl trivial rfl
      | _ => exact hFile f d rfl hData trivial rfl
  | @ioctl f d cmd hData =>
      rcases genpciIoctl_cases s d cmd with ⟨hAccess, hSame⟩ | ⟨hAccess, hSame⟩
      · refine hNone ?_ trivial (by rw [hSame])
        exact if_neg (Bool.eq_false_iff.mp hAccess)
      · refine hFile f d (if_pos hAccess) hData trivial ?_
        rcases hSame with hSame | ⟨k, hMarked⟩
        · rw [hSame]
        · rw [hMarked]
  | vmaOpen hv => exact hNone rfl trivial rfl
  | vmaSplit hv hPaged hCut => exact hNone rfl trivial rfl
  | @vmaClose i v hv =>
      obtain ⟨e, he⟩ := hCounted.entry v (List.mem_of_getElem? hv)
      have hOwners : OwnersLive s (.vmaClose i) ↔ s.ownerLive e = true := by
        constructor
        · intro h
          exact h v e hv he
        · intro h v' e' hv' he'
          obtain rfl := Option.some.inj (hv.symm.trans hv')
          obtain rfl := Option.some.inj (he.symm.trans he')
          exact h
      rw [dmaVmaClose_eq (s := { s with vmas := s.vmas.eraseIdx i }) he, hOwners]
      show (s.stray || !s.ownerLive e) = false ↔ _
      rw [Bool.or_eq_false_iff, Bool.not_eq_false']
      exact ⟨fun h => ⟨h.1, careful_of_none rfl, h.2⟩, fun h => ⟨h.1, h.2.2⟩⟩
  | remove hLive => exact hNone rfl trivial rfl

/-- `genpci_remove` leaves no entry behind that points to its device. -/
theorem Linked.ownersLive (h : Linked s) (hCounted : Counted s) (a : Act) :
    OwnersLive s a := by
  cases a with
  | vmaClose i =>
      intro v e hv he
      have hOwner := owner_eq he (hCounted.freed_eq (List.mem_of_getElem? hv) he)
      rw [Kernel.ownerLive]
      split
      · rfl
      · rename_i d hSome
        exact h.owner v.entry d (hOwner.trans hSome)
  | _ => trivial

end Steps

/-- No callback has used a removed device exactly when no file operation that needs the
device was made on a file whose device had been removed. -/
theorem stray_iff {acts : List Act} {s : Kernel} (hRun : Run step (fun _ _ => True) {} acts s) :
    s.stray = false ↔ Run step Careful {} acts s := by
  constructor
  · intro hStray
    induction hRun with
    | nil => exact .nil
    | snoc hRun _ hStep ih =>
        obtain ⟨hBefore, hCareful, -⟩ := (stray_step (counted_of_run hRun) hStep).mp hStray
        exact (ih hBefore).snoc hCareful hStep
  · intro hCareful
    have hAll : (Counted s ∧ Linked s) ∧ s.stray = false := by
      refine hCareful.invariant (I := fun s => (Counted s ∧ Linked s) ∧ s.stray = false)
        ⟨⟨counted_init, linked_init⟩, rfl⟩ fun s a s' h hOk hStep => ?_
      obtain ⟨⟨hCounted, hLinked⟩, hStray⟩ := h
      exact ⟨⟨hCounted.step hStep, hLinked.step hCounted hOk hStep⟩,
        (stray_step hCounted hStep).mpr ⟨hStray, hOk, hLinked.ownersLive hCounted a⟩⟩
    exact hAll.2

/-- The device is removed while a file is open and memory is mapped, and only the mapping
is used. -/
theorem stray_iff_forkAndRemove :
    ∃ s, Run step (fun _ _ => True) {} forkAndRemove s ∧ s.stray = false := by
  have hEval : (exec step (fun s a => decide (Careful s a)) {} forkAndRemove).isSome = true := by
    decide +kernel
  obtain ⟨s, hExec⟩ := Option.isSome_iff_exists.mp hEval
  have hCareful : Run step Careful {} forkAndRemove s :=
    Run.of_exec (fun _ _ hTest => of_decide_eq_true hTest) hExec
  have hRun : Run step (fun _ _ => True) {} forkAndRemove s :=
    hCareful.mono fun _ _ _ => trivial
  exact ⟨s, hRun, (stray_iff hRun).mpr hCareful⟩

/-- `genpci_close` on a file whose device has been removed. -/
theorem stray_closeFile_false :
    ∃ s, Run step (fun _ _ => True) {}
      [.probe ⟨0, 1, 0⟩, .openFile 0, .remove 0, .closeFile 0] s ∧ s.stray ≠ false := by
  have hEval : (exec step (fun _ _ => true) {}
      [.probe ⟨0, 1, 0⟩, .openFile 0, .remove 0, .closeFile 0]).any (fun s => s.stray) = true := by
    decide +kernel
  obtain ⟨s, hExec, hStray⟩ := (Option.any_eq_true _ _).mp hEval
  exact ⟨s, Run.of_exec (fun _ _ _ => trivial) hExec, by rw [hStray]; decide⟩

end NewPerf.Driver.Devices
