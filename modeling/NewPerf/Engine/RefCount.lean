import NewPerf.Engine.Jobs

/-!
# The count of threads guards the controller

`RefCounted` is what every interleaving of the callbacks keeps: the count is the
number of threads attached, attached threads and the global pointer agree on one
live controller, and a controller is torn down once, with nobody attached.
-/

namespace NewPerf.Engine.Jobs

open NewPerf.Lib.Runs

variable {ι : Type} [DecidableEq ι] [Fintype ι]

/-- The threads whose `io_ops_data` is set. -/
def attached (s : Core ι) : Finset ι :=
  Finset.univ.filter fun j => (s.ioOpsData j).isSome = true

/-- Initialised, and neither deinitialised nor freed since. -/
def Live (heap : List CtrlObject) (a : Nat) : Prop :=
  heap[a]? = some { initialised := true, deinits := 0, frees := 0 }

/-- The invariant of the shared controller. -/
structure CoreInv (s : Core ι) : Prop where
  count : s.currThreadNum = (attached s).card
  agree : ∀ j d, s.ioOpsData j = some d → s.gCtrl = some d.ctrl
  live : ∀ a, s.gCtrl = some a → Live s.heap a
  once : ∀ o ∈ s.heap, o.deinits ≤ 1 ∧ o.frees ≤ 1

omit [Fintype ι] in
theorem Live.append {heap : List CtrlObject} {a : Nat} (h : Live heap a)
    (o : CtrlObject) : Live (heap ++ [o]) a := by
  have hlt : a < heap.length := (List.getElem?_eq_some_iff.mp h).1
  rw [Live, List.getElem?_append_left hlt]
  exact h

private theorem attached_update_some {s : Core ι} {j : ι} (d : Attachment)
    {data : ι → Option Attachment} (hData : data = Function.update s.ioOpsData j (some d)) :
    (Finset.univ.filter fun i => (data i).isSome = true) = insert j (attached s) := by
  ext i
  simp only [hData, attached, Finset.mem_filter, Finset.mem_univ, true_and,
    Finset.mem_insert, Function.update_apply]
  by_cases hi : i = j
  · simp [hi]
  · simp [hi]

private theorem attached_update_none {s : Core ι} {j : ι}
    {data : ι → Option Attachment} (hData : data = Function.update s.ioOpsData j none) :
    (Finset.univ.filter fun i => (data i).isSome = true) = (attached s).erase j := by
  ext i
  simp only [hData, attached, Finset.mem_filter, Finset.mem_univ, true_and,
    Finset.mem_erase, Function.update_apply]
  by_cases hi : i = j
  · simp [hi]
  · simp [hi]

omit [DecidableEq ι] in
theorem mem_attached {s : Core ι} {j : ι} {d : Attachment}
    (h : s.ioOpsData j = some d) : j ∈ attached s := by
  simp [attached, h]

omit [DecidableEq ι] in
/-- With a count of zero nobody is attached. -/
theorem CoreInv.none_of_zero {s : Core ι} (h : CoreInv s) (hZero : s.currThreadNum = 0)
    (j : ι) : s.ioOpsData j = none := by
  cases hData : s.ioOpsData j with
  | none => rfl
  | some d =>
      have hPos : 0 < (attached s).card := Finset.card_pos.mpr ⟨j, mem_attached hData⟩
      have hCount := h.count
      omega

/-- With a count of one, nobody but the thread known to be attached is. -/
theorem CoreInv.none_of_one {s : Core ι} (h : CoreInv s) (hOne : s.currThreadNum = 1)
    {j : ι} {d : Attachment} (hData : s.ioOpsData j = some d) (i : ι) :
    Function.update s.ioOpsData j none i = none := by
  by_cases hi : i = j
  · rw [hi, Function.update_self]
  · rw [Function.update_of_ne hi]
    cases hOther : s.ioOpsData i with
    | none => rfl
    | some e =>
        have hCount := h.count
        have hTwo : ({i, j} : Finset ι).card ≤ (attached s).card := by
          apply Finset.card_le_card
          intro k hk
          rcases Finset.mem_insert.mp hk with rfl | hk
          · exact mem_attached hOther
          · rw [Finset.mem_singleton.mp hk]
            exact mem_attached hData
        rw [Finset.card_pair hi] at hTwo
        omega

/-- Destroying the controller nobody is attached to. -/
private theorem once_modify {heap : List CtrlObject} {a : Nat} (hLive : Live heap a)
    (hOnce : ∀ o ∈ heap, o.deinits ≤ 1 ∧ o.frees ≤ 1) :
    ∀ o ∈ heap.modify a .destroyed, o.deinits ≤ 1 ∧ o.frees ≤ 1 := by
  intro o ho
  obtain ⟨i, hi⟩ := List.mem_iff_getElem?.mp ho
  rw [List.getElem?_modify] at hi
  by_cases hEq : a = i
  · subst hEq
    rw [Live] at hLive
    simp only [hLive, Option.map_eq_map, Option.map_some, if_true,
      Option.some.injEq] at hi
    rw [← hi]
    exact ⟨Nat.le_refl 1, Nat.le_refl 1⟩
  · simp only [if_neg hEq, Option.map_eq_map, Option.map_id'] at hi
    exact hOnce o (List.mem_of_getElem? (by simpa using hi))

theorem CoreInv.effect {s s' : Core ι} (h : CoreInv s) (hEff : Effect s s') :
    CoreInv s' := by
  cases hEff with
  | keep hCore =>
      rw [hCore]
      exact h
  | stillborn hNone hCore =>
      subst hCore
      refine ⟨h.count, h.agree, fun a hCtrl => (h.live a hCtrl).append _, ?_⟩
      intro o ho
      rcases List.mem_append.mp ho with hOld | hNew
      · exact h.once o hOld
      · rw [List.mem_singleton.mp hNew]
        exact ⟨Nat.zero_le 1, Nat.le_refl 1⟩
  | create hNone hCore =>
      subst hCore
      refine ⟨h.count, fun j d hData => ?_, fun a hCtrl => ?_, ?_⟩
      · have hSome := h.agree j d hData
        rw [hNone] at hSome
        cases hSome
      · cases hCtrl
        rw [Live, List.getElem?_concat_length]
      · intro o ho
        rcases List.mem_append.mp ho with hOld | hNew
        · exact h.once o hOld
        · rw [List.mem_singleton.mp hNew]
          exact ⟨Nat.zero_le 1, Nat.zero_le 1⟩
  | attach j d hFree hCtrl hCore =>
      subst hCore
      have hNotMem : j ∉ attached s := by simp [attached, hFree]
      refine ⟨?_, fun i e hData => ?_, h.live, h.once⟩
      · rw [attached, attached_update_some d rfl, Finset.card_insert_of_notMem hNotMem,
          h.count]
        push_cast
        rfl
      · dsimp only at hData ⊢
        by_cases hi : i = j
        · simp only [hi, Function.update_self, Option.some.injEq] at hData
          rw [← hData]
          exact hCtrl
        · rw [Function.update_of_ne hi] at hData
          exact h.agree i e hData
  | abort a hCtrl hLast hCore =>
      subst hCore
      refine ⟨h.count, fun j d hData => ?_, fun b hNone => (nomatch hNone), ?_⟩
      · rw [h.none_of_zero hLast j] at hData
        cases hData
      · exact once_modify (h.live a hCtrl) h.once
  | detach j d hData hMore hCore =>
      subst hCore
      refine ⟨?_, fun i e hOther => ?_, h.live, h.once⟩
      · have hPos : 0 < (attached s).card := Finset.card_pos.mpr ⟨j, mem_attached hData⟩
        rw [attached, attached_update_none rfl,
          Finset.card_erase_of_mem (mem_attached hData)]
        have hCount := h.count
        dsimp only
        omega
      · dsimp only at hOther ⊢
        by_cases hi : i = j
        · rw [hi, Function.update_self] at hOther
          cases hOther
        · rw [Function.update_of_ne hi] at hOther
          exact h.agree i e hOther
  | last j d hData hLast hCore =>
      subst hCore
      have hCtrl := h.agree j d hData
      refine ⟨?_, fun i e hOther => ?_, fun b hNone => (nomatch hNone), ?_⟩
      · rw [attached, attached_update_none rfl,
          Finset.card_erase_of_mem (mem_attached hData)]
        have hCount := h.count
        dsimp only
        omega
      · dsimp only at hOther
        rw [h.none_of_one hLast hData i] at hOther
        cases hOther
      · simp only [hCtrl]
        exact once_modify (h.live _ hCtrl) h.once

/-! ## Every interleaving -/

/-- How often `controller_deinit` and `free` have been applied to a controller. -/
def teardowns (heap : List CtrlObject) (a : Nat) : Nat × Nat :=
  match heap[a]? with
  | none => (0, 0)
  | some o => (o.deinits, o.frees)

/-- What the reference count guarantees in one state and for the step taken from
it. -/
structure RefCounted (opts : ι → JobOptions) (s : State ι) : Prop where
  /-- `curr_thread_num` is the number of threads attached. -/
  count : s.currThreadNum = (attached s.toCore).card
  /-- Every thread attached points to the controller `g_ctrl` points to, and that
  is live. -/
  agree : ∀ j d, s.ioOpsData j = some d →
    s.gCtrl = some d.ctrl ∧ Live s.heap d.ctrl
  /-- No controller is torn down twice. -/
  once : ∀ a, (teardowns s.heap a).1 ≤ 1 ∧ (teardowns s.heap a).2 ≤ 1
  /-- Neither a thread nor `g_ctrl` points to a controller torn down. -/
  noDangling : ∀ a, teardowns s.heap a ≠ (0, 0) →
    s.gCtrl ≠ some a ∧ ∀ j d, s.ioOpsData j = some d → d.ctrl ≠ a
  /-- A step that tears a controller down leaves no thread attached. -/
  alone : ∀ act s' a, step opts s act = some s' →
    teardowns s'.heap a ≠ teardowns s.heap a → ∀ j, s'.ioOpsData j = none

omit [DecidableEq ι] [Fintype ι] in
private theorem teardowns_of_live {heap : List CtrlObject} {a : Nat}
    (h : Live heap a) : teardowns heap a = (0, 0) := by
  rw [Live] at h
  rw [teardowns, h]

/-- Only the end of the last thread and a failed start change what has been torn
down. -/
private theorem CoreInv.alone {s s' : Core ι} (h : CoreInv s) (hEff : Effect s s')
    {a : Nat} (hDiff : teardowns s'.heap a ≠ teardowns s.heap a) (j : ι) :
    s'.ioOpsData j = none := by
  have hNobody : s.gCtrl = none → s.ioOpsData j = none := by
    intro hNone
    cases hData : s.ioOpsData j with
    | none => rfl
    | some d =>
        have hSome := h.agree j d hData
        rw [hNone] at hSome
        cases hSome
  cases hEff with
  | keep hCore =>
      rw [hCore] at hDiff
      exact absurd rfl hDiff
  | stillborn hNone hCore =>
      rw [hCore]
      exact hNobody hNone
  | create hNone hCore =>
      rw [hCore]
      exact hNobody hNone
  | attach i d hFree hCtrl hCore =>
      rw [hCore] at hDiff
      exact absurd rfl hDiff
  | abort b hCtrl hLast hCore =>
      rw [hCore]
      exact h.none_of_zero hLast j
  | detach i d hData hMore hCore =>
      rw [hCore] at hDiff
      exact absurd rfl hDiff
  | last i d hData hLast hCore =>
      rw [hCore]
      exact h.none_of_one hLast hData j

private theorem CoreInv.refCounted {opts : ι → JobOptions} {s : State ι}
    (h : CoreInv s.toCore) : RefCounted opts s := by
  refine
    { count := h.count
      agree := fun j d hData => ⟨h.agree j d hData, h.live _ (h.agree j d hData)⟩
      once := fun a => ?_
      noDangling := fun a hTorn => ⟨fun hCtrl => ?_, fun j d hData hEq => ?_⟩
      alone := fun act s' a hStep hDiff j => h.alone (step_effect hStep) hDiff j }
  · unfold teardowns
    split
    · exact ⟨Nat.zero_le 1, Nat.zero_le 1⟩
    · rename_i o ho
      exact h.once o (List.mem_of_getElem? ho)
  · exact hTorn (teardowns_of_live (h.live a hCtrl))
  · rw [← hEq] at hTorn
    exact hTorn (teardowns_of_live (h.live _ (h.agree j d hData)))

omit [DecidableEq ι] in
theorem coreInv_start : CoreInv (start : State ι).toCore :=
  { count := by simp [start, attached]
    agree := by simp [start]
    live := by simp [start]
    once := by simp [start] }

/-- The invariant holds in every state of every run. -/
theorem coreInv_of_run {opts : ι → JobOptions} {ok : State ι → Act ι → Prop}
    {as : List (Act ι)} {s : State ι} (hRun : Run (step opts) ok start as s) :
    CoreInv s.toCore :=
  hRun.invariant (I := fun s => CoreInv s.toCore) coreInv_start
    fun _ _ _ h _ hStep => h.effect (step_effect hStep)

/-- Reference counting of the shared controller, over every interleaving of the
callbacks of any number of threads. -/
theorem refCounted_of_run {opts : ι → JobOptions} {as : List (Act ι)} {s : State ι}
    (hRun : Run (step opts) (fun _ _ => True) start as s) : RefCounted opts s :=
  (coreInv_of_run hRun).refCounted

/-- Two jobs that overlap: both set up, the first one fails to get its queue pair,
tries again, and both end. -/
def twoJobs : List (Act Bool) :=
  [.setup true true true, .size true 512, .setup false true true, .size false 512,
    .init false true true, .init true true false, .init true true true,
    .cleanup false, .cleanup true]

theorem refCounted_of_run_twoJobs :
    ∃ s, exec (step fun _ => {}) (fun _ _ => true) start twoJobs = some s ∧
      s.heap = [{ initialised := false, deinits := 1, frees := 1 }] ∧
      RefCounted (fun _ => {}) s := by
  obtain ⟨s, hExec, hHeap⟩ : ∃ s, exec (step fun _ => {}) (fun _ _ => true) start
      twoJobs = some s ∧ s.heap = [{ initialised := false, deinits := 1, frees := 1 }] :=
    ⟨_, rfl, rfl⟩
  exact ⟨s, hExec, hHeap,
    refCounted_of_run (Run.of_exec (fun _ _ _ => trivial) hExec)⟩

end NewPerf.Engine.Jobs
