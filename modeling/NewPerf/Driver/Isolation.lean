import NewPerf.Driver.EntryLifetime

/-!
# What a mapping exposes

With `vm_pgoff = 0` a VMA shows the memory that `mmap_dma` has allocated for it and
nothing else.  Any other offset moves the window, which is as long as the allocation,
off its start, so that it shows pages that belong to somebody else: `isolated_iff`.
-/

namespace NewPerf.Driver.Devices

open NewPerf.Lib.Logs
open NewPerf.Lib.Runs
open NewPerf.Tools

/-- The pages of the VMA lie inside the memory of the entry. -/
def Within (v : Vma) (e : OwnedEntry) : Prop :=
  e.dmaAddr.toNat ≤ v.bus ∧ v.bus + v.len ≤ e.dmaAddr.toNat + e.size.toInt.toNat

/-- Every VMA shows only memory of its own entry, which has not been given back. -/
def Isolated (s : Kernel) : Prop :=
  ∀ v ∈ s.vmas, ∃ e, s.entries[v.entry]? = some e ∧ e.freed = 0 ∧ e.coherentFrees = 0 ∧
    Within v e

/-- The step leads to an isolated state. -/
def StaysIsolated (s : Kernel) (a : Act) : Prop := ∀ s', step s a = some s' → Isolated s'

/-- A successful `mmap_dma` is given the page offset 0. -/
def AtOffsetZero (_ : Kernel) : Act → Prop
  | .mmap _ _ _ vmPgoff (.mapped _ _) => vmPgoff = 0
  | _ => True

/-! ## One mapping -/

theorem size_of_paged {len : Nat} (h : Paged len) :
    (Int64.ofNat (pageAlign len)).toInt.toNat = len := by
  obtain ⟨-, hMod, hLt⟩ := h
  rw [pageAlign_of_mod hMod, Int64.toInt_ofNat_of_lt hLt, Int.toNat_natCast]

/-- The window is as long as the allocation, so it must start where that starts. -/
theorem mappedBus_within_iff {dmaAddr vmPgoff : UInt64} {len : Nat} :
    (dmaAddr.toNat ≤ mappedBus dmaAddr vmPgoff ∧
      mappedBus dmaAddr vmPgoff + len ≤ dmaAddr.toNat + len) ↔ vmPgoff = 0 := by
  constructor
  · intro h
    by_contra hne
    have hStart : mappedBus dmaAddr vmPgoff = dmaAddr.toNat := by omega
    rw [mappedBus, if_neg hne] at hStart
    have hPfn : (dmaAddr >>> 12).toNat = dmaAddr.toNat / 4096 := by
      rw [UInt64.toNat_shiftRight, show (12 : UInt64).toNat % 64 = 12 from rfl,
        Nat.shiftRight_eq_div_pow]
    rw [UInt64.toNat_add, hPfn] at hStart
    have hOffset : vmPgoff.toNat = 0 := by
      have hAddr := dmaAddr.toNat_lt
      have hBound := vmPgoff.toNat_lt
      omega
    exact hne (UInt64.toNat_inj.mp hOffset)
  · intro hZero
    rw [mappedBus, if_pos hZero]
    omega

/-! ## Steps -/

/-- The entries that were there still have their memory. -/
def Kept (entries entries' : List OwnedEntry) : Prop :=
  ∀ (k : Nat) (e : OwnedEntry), entries[k]? = some e →
    ∃ e', entries'[k]? = some e' ∧ e'.dmaAddr = e.dmaAddr ∧ e'.size = e.size

section Steps

variable {s s' : Kernel} {entries : List OwnedEntry}

theorem Kept.append (entries : List OwnedEntry) (e : OwnedEntry) :
    Kept entries (entries ++ [e]) := by
  intro k e' he'
  exact ⟨e', getElem?_concat_of_some he' e, rfl, rfl⟩

theorem Kept.of_remarked {entries' : List OwnedEntry} (h : Remarked entries entries') :
    Kept entries entries' := by
  intro k e he
  obtain ⟨mark, hAt, hMark⟩ := h k
  obtain ⟨listed, released, owner, hEq⟩ := hMark e
  refine ⟨mark e, by rw [hAt, he]; rfl, ?_, ?_⟩
  · rw [hEq]
  · rw [hEq]

theorem Kept.modify {change : OwnedEntry → OwnedEntry} (j : Nat)
    (hSame : ∀ e, (change e).dmaAddr = e.dmaAddr ∧ (change e).size = e.size) :
    Kept entries (entries.modify j change) := by
  intro k e he
  refine ⟨if j = k then change e else e, ?_, ?_⟩
  · rw [List.getElem?_modify, he]
    rfl
  · split
    · exact hSame e
    · exact ⟨rfl, rfl⟩

theorem Kept.dmaVmaClose (s : Kernel) (k : Nat) : Kept s.entries (s.dmaVmaClose k).entries := by
  intro j e he
  cases hk : s.entries[k]? with
  | none => exact ⟨e, by rw [Kernel.dmaVmaClose, hk]; exact he, rfl, rfl⟩
  | some x =>
      rw [dmaVmaClose_eq hk]
      by_cases hj : k = j
      · subst hj
        obtain rfl := Option.some.inj (hk.symm.trans he)
        refine ⟨x.close, List.getElem?_set_self (List.getElem?_eq_some_iff.mp hk).1, ?_⟩
        unfold OwnedEntry.close
        split <;> exact ⟨rfl, rfl⟩
      · exact ⟨e, (List.getElem?_set_ne hj).trans he, rfl, rfl⟩

theorem dmaVmaClose_vmas (s : Kernel) (k : Nat) : (s.dmaVmaClose k).vmas = s.vmas := by
  cases hk : s.entries[k]? with
  | none => rw [Kernel.dmaVmaClose, hk]
  | some e => rw [dmaVmaClose_eq hk]

/-- The VMA shows a part of what another one showed. -/
def PartOf (v w : Vma) : Prop :=
  v.entry = w.entry ∧ w.bus ≤ v.bus ∧ v.bus + v.len ≤ w.bus + w.len

theorem PartOf.refl (v : Vma) : PartOf v v := ⟨rfl, Nat.le_refl _, Nat.le_refl _⟩

/-- The memory of the VMAs is theirs. -/
def Inside (s : Kernel) : Prop :=
  ∀ v ∈ s.vmas, ∃ e, s.entries[v.entry]? = some e ∧ Within v e

theorem Inside.keep (h : Inside s) (hEntries : Kept s.entries s'.entries)
    (hVmas : ∀ v ∈ s'.vmas, ∃ w ∈ s.vmas, PartOf v w) : Inside s' := by
  intro v hv
  obtain ⟨w, hw, hEntry, hLow, hHigh⟩ := hVmas v hv
  obtain ⟨e, he, hWithin⟩ := h w hw
  obtain ⟨e', he', hDma, hSize⟩ := hEntries w.entry e he
  refine ⟨e', by rw [hEntry]; exact he', ?_⟩
  rw [Within, hDma, hSize]
  have hLower := hWithin.1
  have hUpper := hWithin.2
  omega

/-- The entry and the VMA that a successful `mmap_dma` makes. -/
theorem Inside.mapped (h : Inside s) {e : OwnedEntry} {v : Vma}
    (hEntry : v.entry = s.entries.length) (hEntries : s'.entries = s.entries ++ [e])
    (hVmas : s'.vmas = s.vmas ++ [v]) (hWithin : Within v e) : Inside s' := by
  intro w hw
  rw [hVmas, List.mem_append, List.mem_singleton] at hw
  rcases hw with hOld | rfl
  · obtain ⟨e', he', hOther⟩ := h w hOld
    obtain ⟨e'', he'', hDma, hSize⟩ := Kept.append s.entries e w.entry e' he'
    refine ⟨e'', by rw [hEntries]; exact he'', ?_⟩
    rw [Within, hDma, hSize]
    exact hOther
  · refine ⟨e, ?_, hWithin⟩
    rw [hEntries, hEntry, List.getElem?_concat_length]

theorem Inside.step {a : Act} (h : Inside s) (hZero : AtOffsetZero s a)
    (hStep : step s a = some s') : Inside s' := by
  have hSame : ∀ v ∈ s.vmas, ∃ w ∈ s.vmas, PartOf v w := fun v hv => ⟨v, hv, PartOf.refl v⟩
  cases step_cases hStep with
  | probe => exact h
  | openFile hLive => exact h
  | closeFile hFile => exact h
  | @mmap f d start len vmPgoff outcome hPaged hFile =>
      cases outcome with
      | noEntry => exact h
      | noMemory => exact h.keep (Kept.append _ _) hSame
      | notMapped => exact h.keep (Kept.append _ _) hSame
      | mapped virtAddr dmaAddr =>
          refine h.mapped rfl rfl rfl ?_
          rw [Within, size_of_paged hPaged]
          exact mappedBus_within_iff.mpr hZero
  | @ioctl f d cmd hFile =>
      rcases genpciIoctl_cases s d cmd with ⟨-, hEq⟩ | ⟨-, hEq | ⟨k, hMarked⟩⟩
      · rw [hEq]
        exact h
      · rw [hEq]
        exact h
      · rw [hMarked]
        exact h.keep (Kept.modify k fun _ => ⟨rfl, rfl⟩) hSame
  | @vmaOpen i start v hv =>
      refine h.keep (Kept.modify _ fun _ => ⟨rfl, rfl⟩) fun w hw => ?_
      rcases List.mem_append.mp hw with hOld | hNew
      · exact hSame w hOld
      · rw [List.mem_singleton.mp hNew]
        exact ⟨v, List.mem_of_getElem? hv, rfl, Nat.le_refl _, Nat.le_refl _⟩
  | @vmaSplit i off v hv hPaged hCut =>
      have hMem := List.mem_of_getElem? hv
      refine h.keep (Kept.modify _ fun _ => ⟨rfl, rfl⟩) fun w hw => ?_
      rcases List.mem_append.mp hw with hOld | hNew
      · rcases List.mem_or_eq_of_mem_set hOld with hOld | rfl
        · exact hSame w hOld
        · refine ⟨v, hMem, rfl, Nat.le_refl _, ?_⟩
          dsimp only
          omega
      · rw [List.mem_singleton.mp hNew]
        refine ⟨v, hMem, rfl, Nat.le_add_right _ _, ?_⟩
        dsimp only
        omega
  | @vmaClose i v hv =>
      refine h.keep (Kept.dmaVmaClose { s with vmas := s.vmas.eraseIdx i } v.entry) fun w hw => ?_
      rw [dmaVmaClose_vmas] at hw
      exact hSame w (List.mem_of_mem_eraseIdx hw)
  | remove hLive => exact h.keep (Kept.of_remarked (remarked_detach _ _)) hSame

theorem Isolated.of_inside (hCounted : Counted s) (h : Inside s) : Isolated s := by
  intro v hv
  obtain ⟨e, he, hWithin⟩ := h v hv
  obtain ⟨hFreed, -, hFree, -, -⟩ :=
    (hCounted.balanced _ e he).mapped (hCounted.refs_pos hv he)
  exact ⟨e, he, hFreed, hFree, hWithin⟩

/-- With any other offset the new VMA shows memory that is not its own. -/
theorem atOffsetZero_of_isolated {a : Act} (hStep : Devices.step s a = some s')
    (h : Isolated s') : AtOffsetZero s a := by
  cases step_cases hStep with
  | @mmap f d start len vmPgoff outcome hPaged hFile =>
      cases outcome with
      | mapped virtAddr dmaAddr =>
          obtain ⟨e, he, -, -, hWithin⟩ := h _ (List.mem_append_right _ (List.mem_singleton_self _))
          have hNew := List.getElem?_concat_length.symm.trans he
          obtain rfl := Option.some.inj hNew
          rw [Within, size_of_paged hPaged] at hWithin
          exact mappedBus_within_iff.mp hWithin
      | _ => trivial
  | _ => trivial

end Steps

/-- A run passes through isolated states only if and only if every successful `mmap_dma`
in it is given the page offset 0. -/
theorem isolated_iff (acts : List Act) (s : Kernel) :
    Run step StaysIsolated {} acts s ↔ Run step AtOffsetZero {} acts s := by
  refine Run.iff_of_invariant (I := fun s => Counted s ∧ Inside s) ⟨counted_init, nofun⟩ ?_ ?_
  · intro s a s' h hOk hStep
    refine ⟨h.1.step hStep, fun v hv => ?_⟩
    obtain ⟨e, he, -, -, hWithin⟩ := hOk s' hStep v hv
    exact ⟨e, he, hWithin⟩
  · intro s a s' h hStep
    constructor
    · intro hOk
      exact atOffsetZero_of_isolated hStep (hOk s' hStep)
    · intro hZero s'' hStep'
      exact Isolated.of_inside (h.1.step hStep') (h.2.step hZero hStep')

/-- One page is mapped at page offset 1 and shows the page after the allocation. -/
theorem isolated_offset_false :
    ∃ s, Run step (fun _ _ => True) {}
      [.probe ⟨0, 1, 0⟩, .openFile 0, .mmap 0 0x7000 0x1000 1 (.mapped 0xffff8000 0x40000)] s ∧
      ¬ Isolated s := by
  have hEval : ((exec step (fun _ _ => true) {} [.probe ⟨0, 1, 0⟩, .openFile 0]).bind fun s =>
      step s (.mmap 0 0x7000 0x1000 1 (.mapped 0xffff8000 0x40000))).isSome = true := by
    decide +kernel
  obtain ⟨s', hBoth⟩ := Option.isSome_iff_exists.mp hEval
  obtain ⟨s, hExec, hStep⟩ := Option.bind_eq_some_iff.mp hBoth
  have hRun : Run step (fun _ _ => True) {} [.probe ⟨0, 1, 0⟩, .openFile 0] s :=
    Run.of_exec (fun _ _ _ => trivial) hExec
  refine ⟨s', hRun.snoc trivial hStep, fun hIsolated => ?_⟩
  have hZero : (1 : UInt64) = 0 := atOffsetZero_of_isolated hStep hIsolated
  exact absurd hZero (by decide)

end NewPerf.Driver.Devices
