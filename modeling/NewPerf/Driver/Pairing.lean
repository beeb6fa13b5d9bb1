import NewPerf.Driver.AllocDma
import NewPerf.Lib.Logs
import Mathlib.Data.List.Nodup
import Mathlib.Data.List.Pairwise
import Mathlib.Data.List.Perm.Basic

/-!
# Which mapping the driver reports

`IOCTL_GET_MEMFINFO` reports the newest entry of the whole device, so a thread
gets the addresses of its own mapping only if nobody has mapped memory in
between.  As long as that holds, allocations, entries and VMAs correspond one to
one, and `free_dma` gives back exactly what `alloc_dma` took.  `paired_iff` says
which interleavings are good.
-/

namespace NewPerf.Driver

open NewPerf.Lib.Logs
open NewPerf.Lib.Runs
open NewPerf.Tools

/-! ## The driver's own invariant -/

/-- Two VMAs have no byte and no entry in common. -/
def Vma.Apart (v w : Vma) : Prop :=
  v.entry ≠ w.entry ∧ (v.start + v.len ≤ w.start ∨ w.start + w.len ≤ v.start)

instance : Std.Symm Vma.Apart := ⟨fun _ _ h => ⟨h.1.symm, h.2.symm⟩⟩

/-- Entries, list and VMAs correspond, and live entries differ in their
addresses. -/
structure DrvInv (d : Genpci) : Prop where
  sorted : d.memlist.Pairwise (· > ·)
  listed : ∀ k, k ∈ d.memlist ↔ ∃ e, d.entries[k]? = some e ∧ e.freed = 0
  alive : ∀ (k : Nat) (e : DmaEntry), d.entries[k]? = some e → e.freed = 0 →
    e.vmaRefs = 1 ∧ e.listed = true
  distinct : ∀ (k k' : Nat) (e e' : DmaEntry), d.entries[k]? = some e → d.entries[k']? = some e' →
    e.freed = 0 → e'.freed = 0 → e.virtAddr = e'.virtAddr → e.dmaAddr = e'.dmaAddr →
    k = k'
  mapped : ∀ v ∈ d.vmas, ∃ e, d.entries[v.entry]? = some e ∧ e.freed = 0 ∧
    e.size.toInt = v.len ∧ 0 < v.len ∧ v.len % 4096 = 0
  apart : d.vmas.Pairwise Vma.Apart

/-- What a call knows about its own VMA and entry. -/
def StageOk (v : Vma) (e : DmaEntry) : Stage → Prop
  | .mapped len virt => v.start = virt.toNat ∧ v.len = pageAlign len ∧
      e.releaseRequested = false
  | .undo len virt => v.start = virt.toNat ∧ v.len = pageAlign len
  | .held mem => v.start = mem.userVirtaddr.toNat ∧ e.releaseRequested = false ∧
      mem.dmaAddr = e.dmaAddr ∧ mem.kernelVirtaddr = e.virtAddr ∧ mem.size = e.size
  | .releasing mem => v.start = mem.userVirtaddr.toNat ∧ e.releaseRequested = true ∧
      mem.dmaAddr = e.dmaAddr ∧ mem.kernelVirtaddr = e.virtAddr ∧ mem.size = e.size

/-- The call's own VMA and entry are in place. -/
def Matches (d : Genpci) (c : Call) : Prop :=
  ∃ v ∈ d.vmas, v.entry = c.entry ∧
    ∃ e, d.entries[c.entry]? = some e ∧ StageOk v e c.stage

structure DmaInv (s : State) : Prop where
  drv : DrvInv s.drv
  calls : ∀ c ∈ s.calls, Matches s.drv c
  nodup : (s.calls.map Call.entry).Nodup

section Driver

variable {d : Genpci}

theorem DrvInv.nodup (h : DrvInv d) : d.memlist.Nodup :=
  h.sorted.imp fun {a b} hab => by omega

/-- VMAs that start at the same place are the same. -/
theorem DrvInv.vma_eq (h : DrvInv d) {v w : Vma} (hv : v ∈ d.vmas) (hw : w ∈ d.vmas)
    (hStart : v.start = w.start) : v = w := by
  by_contra hne
  obtain ⟨-, -, -, -, hvPos, -⟩ := h.mapped v hv
  obtain ⟨-, -, -, -, hwPos, -⟩ := h.mapped w hw
  have hApart := (h.apart.forall hv hw hne).2
  omega

/-! ### `mmap` -/

private theorem getElem?_mmapDma {start len vmPgoff : Nat} {virtAddr dmaAddr : UInt64}
    {k : Nat} {e : DmaEntry}
    (he : (d.mmapDma start len vmPgoff virtAddr dmaAddr).entries[k]? = some e) :
    d.entries[k]? = some e ∨ (k = d.entries.length ∧
      e = { virtAddr, dmaAddr, size := Int64.ofNat (pageAlign len) }) := by
  rw [Genpci.mmapDma] at he
  exact getElem?_concat_cases he

private theorem getElem?_mmapDma_old {start len vmPgoff : Nat}
    {virtAddr dmaAddr : UInt64} {k : Nat} {e : DmaEntry} (he : d.entries[k]? = some e) :
    (d.mmapDma start len vmPgoff virtAddr dmaAddr).entries[k]? = some e := by
  rw [Genpci.mmapDma]
  exact getElem?_concat_of_some he _

private theorem toInt_ofNat_size {n : Nat} (h : n < 2 ^ 63) :
    (Int64.ofNat n).toInt = n := Int64.toInt_ofNat_of_lt h

/-- A mapping at addresses the kernel may choose. -/
theorem DrvInv.mmapDma (h : DrvInv d) {len : Nat} (hLen : len ≠ 0) {p : Placement}
    (hOk : p.Ok d len) :
    DrvInv (d.mmapDma p.virt.toNat (pageAlign len) 0 p.virtAddr p.dmaAddr) := by
  have hAlign := pageAlign_of_mod (pageAlign_mod len)
  have hInRange := hOk.inRange
  have hNew : (d.mmapDma p.virt.toNat (pageAlign len) 0 p.virtAddr
      p.dmaAddr).entries[d.entries.length]? =
      some { virtAddr := p.virtAddr, dmaAddr := p.dmaAddr,
             size := Int64.ofNat (pageAlign (pageAlign len)) } := by
    rw [Genpci.mmapDma, List.getElem?_concat_length]
  refine
    { sorted := ?_
      listed := fun k => ?_
      alive := fun k e he hLive => ?_
      distinct := fun k k' e e' he he' hLive hLive' hVirt hDma => ?_
      mapped := fun v hv => ?_
      apart := ?_ }
  · refine List.pairwise_cons.mpr ⟨fun k hk => ?_, h.sorted⟩
    obtain ⟨e, he, -⟩ := (h.listed k).mp hk
    exact (List.getElem?_eq_some_iff.mp he).1
  · rw [show (d.mmapDma p.virt.toNat (pageAlign len) 0 p.virtAddr p.dmaAddr).memlist =
      d.entries.length :: d.memlist from rfl, List.mem_cons]
    constructor
    · rintro (rfl | hk)
      · exact ⟨_, hNew, rfl⟩
      · obtain ⟨e, he, hLive⟩ := (h.listed k).mp hk
        exact ⟨e, getElem?_mmapDma_old he, hLive⟩
    · rintro ⟨e, he, hLive⟩
      rcases getElem?_mmapDma he with hOld | ⟨hk, -⟩
      · exact Or.inr ((h.listed k).mpr ⟨e, hOld, hLive⟩)
      · exact Or.inl hk
  · rcases getElem?_mmapDma he with hOld | ⟨-, rfl⟩
    · exact h.alive k e hOld hLive
    · exact ⟨rfl, rfl⟩
  · rcases getElem?_mmapDma he with hOld | ⟨hk, rfl⟩
    · rcases getElem?_mmapDma he' with hOld' | ⟨hk', rfl⟩
      · exact h.distinct k k' e e' hOld hOld' hLive hLive' hVirt hDma
      · exact absurd ⟨hVirt, hDma⟩ (hOk.fresh e (List.mem_of_getElem? hOld) hLive)
    · rcases getElem?_mmapDma he' with hOld' | ⟨hk', rfl⟩
      · exact absurd ⟨hVirt.symm, hDma.symm⟩
          (hOk.fresh e' (List.mem_of_getElem? hOld') hLive')
      · rw [hk, hk']
  · rcases List.mem_append.mp hv with hOld | hLast
    · obtain ⟨e, he, hRest⟩ := h.mapped v hOld
      exact ⟨e, getElem?_mmapDma_old he, hRest⟩
    · rw [List.mem_singleton.mp hLast]
      refine ⟨_, hNew, rfl, ?_, pageAlign_pos hLen, pageAlign_mod len⟩
      dsimp only
      rw [toInt_ofNat_size (by omega), hAlign]
  · refine List.pairwise_append.mpr ⟨h.apart, List.pairwise_singleton _ _, ?_⟩
    intro v hv w hw
    rw [List.mem_singleton.mp hw]
    obtain ⟨e, he, -⟩ := h.mapped v hv
    have hlt : v.entry < d.entries.length := (List.getElem?_eq_some_iff.mp he).1
    exact ⟨by dsimp only; omega, hOk.free v hv⟩

/-! ### The ioctls -/

/-- The first unreleased entry is `k` exactly when no newer one is unreleased. -/
theorem DrvInv.find_unreleased (h : DrvInv d) {k : Nat} (hk : k ∈ d.memlist)
    (hOwn : d.unreleased k = true) :
    d.memlist.find? d.unreleased = some k ↔
      ∀ k' ∈ d.memlist, k < k' → d.unreleased k' = false := by
  constructor
  · intro hFind k' hk' hlt
    obtain ⟨-, pre, post, hSplit, hPre⟩ := List.find?_eq_some_iff_append.mp hFind
    have hSorted := h.sorted
    rw [hSplit] at hk' hSorted
    rcases List.mem_append.mp hk' with hIn | hIn
    · simpa using hPre k' hIn
    · -- From `k` on the list only goes down.
      have hDown := (List.pairwise_append.mp hSorted).2.1
      rcases List.mem_cons.mp hIn with rfl | hIn
      · omega
      · have := (List.pairwise_cons.mp hDown).1 k' hIn
        omega
  · intro hNewer
    obtain ⟨pre, post, hSplit⟩ := List.append_of_mem hk
    refine List.find?_eq_some_iff_append.mpr ⟨hOwn, pre, post, hSplit, fun k' hk' => ?_⟩
    have hSorted := h.sorted
    rw [hSplit] at hSorted
    have hlt := (List.pairwise_append.mp hSorted).2.2 k' hk' k (by simp)
    have hMem : k' ∈ d.memlist := by
      rw [hSplit]
      exact List.mem_append_left _ hk'
    simp [hNewer k' hMem hlt]

/-- `IOCTL_RELEASE_MEM` with the addresses of a live entry marks that entry. -/
theorem DrvInv.releaseMem_eq (h : DrvInv d) {k : Nat} {e : DmaEntry} {mem : Mem}
    (he : d.entries[k]? = some e) (hLive : e.freed = 0)
    (hVirt : mem.kernelVirtaddr = e.virtAddr) (hDma : mem.dmaAddr = e.dmaAddr) :
    d.releaseMem mem =
      { d with entries := d.entries.modify k fun e =>
          { e with releaseRequested := true } } := by
  have hk : k ∈ d.memlist := (h.listed k).mpr ⟨e, he, hLive⟩
  have hNamed : d.named mem k = true := by
    simp [Genpci.named, he, hVirt, hDma]
  have hOnly : ∀ k' ∈ d.memlist, d.named mem k' = true → k' = k := by
    intro k' hk' hName
    obtain ⟨e', he', hLive'⟩ := (h.listed k').mp hk'
    simp only [Genpci.named, he', Bool.and_eq_true, beq_iff_eq] at hName
    exact h.distinct k' k e' e he' he hLive' hLive (by rw [hName.1, hVirt])
      (by rw [hName.2, hDma])
  have hFind : d.memlist.find? (d.named mem) = some k := by
    cases hResult : d.memlist.find? (d.named mem) with
    | none =>
        have := List.find?_eq_none.mp hResult k hk
        exact absurd hNamed this
    | some k' =>
        rw [hOnly k' (List.mem_of_find?_eq_some hResult)
          (List.find?_some hResult)]
  rw [Genpci.releaseMem, hFind]

/-- Setting the release flag of one entry changes nothing the invariant is
about. -/
private theorem getElem?_release {k i : Nat} {e' : DmaEntry}
    (he' : (d.entries.modify k fun e => { e with releaseRequested := true })[i]? =
      some e') :
    ∃ e, d.entries[i]? = some e ∧
      e' = if k = i then { e with releaseRequested := true } else e := by
  rw [List.getElem?_modify] at he'
  obtain ⟨e, he, hEq⟩ := Option.map_eq_some_iff.mp he'
  exact ⟨e, he, hEq.symm⟩

theorem DrvInv.release (h : DrvInv d) (k : Nat) :
    DrvInv { d with entries := d.entries.modify k fun e =>
      { e with releaseRequested := true } } := by
  have hSame : ∀ {i : Nat} {e' : DmaEntry},
      (d.entries.modify k fun e => { e with releaseRequested := true })[i]? = some e' →
      ∃ e, d.entries[i]? = some e ∧ e'.freed = e.freed ∧ e'.vmaRefs = e.vmaRefs ∧
        e'.listed = e.listed ∧ e'.virtAddr = e.virtAddr ∧ e'.dmaAddr = e.dmaAddr := by
    intro i e' he'
    obtain ⟨e, he, hEq⟩ := getElem?_release he'
    refine ⟨e, he, ?_⟩
    rw [hEq]
    split <;> exact ⟨rfl, rfl, rfl, rfl, rfl⟩
  have hForward : ∀ {i : Nat} {e : DmaEntry}, d.entries[i]? = some e →
      ∃ e', (d.entries.modify k fun e => { e with releaseRequested := true })[i]? =
        some e' ∧ e'.freed = e.freed ∧ e'.size = e.size := by
    intro i e he
    rw [List.getElem?_modify, he]
    refine ⟨_, rfl, ?_⟩
    split <;> exact ⟨rfl, rfl⟩
  refine
    { sorted := h.sorted
      listed := fun i => (h.listed i).trans ⟨?_, ?_⟩
      alive := fun i e' he' hLive => ?_
      distinct := fun i j e' f' he' hf' hLive hLive' hVirt hDma => ?_
      mapped := fun v hv => ?_
      apart := h.apart }
  · rintro ⟨e, he, hLive⟩
    obtain ⟨e', he', hFreed, -⟩ := hForward he
    exact ⟨e', he', hFreed.trans hLive⟩
  · rintro ⟨e', he', hLive⟩
    obtain ⟨e, he, hFreed, -⟩ := hSame he'
    exact ⟨e, he, hFreed ▸ hLive⟩
  · obtain ⟨e, he, hFreed, hRefs, hListed, -⟩ := hSame he'
    rw [hRefs, hListed]
    exact h.alive i e he (hFreed ▸ hLive)
  · obtain ⟨e, he, hFreed, -, -, hV, hD⟩ := hSame he'
    obtain ⟨f, hf, hFreed', -, -, hV', hD'⟩ := hSame hf'
    exact h.distinct i j e f he hf (hFreed ▸ hLive) (hFreed' ▸ hLive')
      (by rw [← hV, hVirt, hV']) (by rw [← hD, hDma, hD'])
  · obtain ⟨e, he, hLive, hSize, hRest⟩ := h.mapped v hv
    obtain ⟨e', he', hFreed, hSize'⟩ := hForward he
    exact ⟨e', he', hFreed.trans hLive, hSize' ▸ hSize, hRest⟩

/-! ### `munmap` -/

/-- Unmapping exactly one VMA closes it and nothing else. -/
theorem DrvInv.munmap_close (h : DrvInv d) {v : Vma} (hv : v ∈ d.vmas) {n : Nat}
    (hn : pageAlign n = v.len) :
    ∃ pre post, d.vmas = pre ++ v :: post ∧
      d.munmap v.start n = { d with vmas := pre ++ post }.dmaVmaClose v.entry := by
  obtain ⟨e, he, hLive, hSize, hPos, hMod⟩ := h.mapped v hv
  obtain ⟨pre, post, hSplit⟩ := List.append_of_mem hv
  refine ⟨pre, post, hSplit, ?_⟩
  have hSelf : v.overlaps v.start (v.start + v.len) = true := by
    simp only [Vma.overlaps, Bool.and_eq_true, decide_eq_true_eq]
    omega
  have hCut : v.cut v.start (v.start + v.len) = [] := by simp [Vma.cut]
  have hApart := h.apart
  rw [hSplit] at hApart
  obtain ⟨-, hRight, hCross⟩ := List.pairwise_append.mp hApart
  have hOther : ∀ w, w ∈ pre ∨ w ∈ post →
      w.overlaps v.start (v.start + v.len) = false := by
    intro w hw
    have hDisjoint : w.start + w.len ≤ v.start ∨ v.start + v.len ≤ w.start := by
      rcases hw with hw | hw
      · exact (hCross w hw v (by simp)).2
      · exact ((List.pairwise_cons.mp hRight).1 w hw).2.symm
    simp only [Vma.overlaps, Bool.and_eq_false_iff, decide_eq_false_iff_not]
    omega
  have hFilter : ∀ l : List Vma, (∀ w ∈ l, w ∈ pre ∨ w ∈ post) →
      (l.filter fun w => w.overlaps v.start (v.start + v.len)) = [] := by
    intro l hl
    refine List.filter_eq_nil_iff.mpr fun w hw => ?_
    rw [hOther w (hl w hw)]
    exact Bool.false_ne_true
  have hKeep : ∀ l : List Vma, (∀ w ∈ l, w ∈ pre ∨ w ∈ post) →
      (l.flatMap fun w => if w.overlaps v.start (v.start + v.len) = true then
        w.cut v.start (v.start + v.len) else [w]) = l := by
    intro l hl
    induction l with
    | nil => rfl
    | cons w l ih =>
        rw [List.flatMap_cons, hOther w (hl w (by simp)), if_neg Bool.false_ne_true,
          ih fun x hx => hl x (by simp [hx])]
        rfl
  have hPre : ∀ w ∈ pre, w ∈ pre ∨ w ∈ post := fun w hw => Or.inl hw
  have hPost : ∀ w ∈ post, w ∈ pre ∨ w ∈ post := fun w hw => Or.inr hw
  simp only [Genpci.munmap, hn, hSplit, List.filter_append, List.flatMap_append,
    hFilter pre hPre, hKeep pre hPre, List.filter_cons, hSelf, if_true,
    hFilter post hPost, List.flatMap_cons, hCut, hKeep post hPost, List.nil_append,
    List.foldl_cons, List.foldl_nil, List.length_nil, Function.iterate_zero, id_eq]

/-- The entry of the VMA goes with it. -/
theorem DrvInv.munmap_eq (h : DrvInv d) {v : Vma} (hv : v ∈ d.vmas) {n : Nat}
    (hn : pageAlign n = v.len) :
    ∃ pre post e, d.vmas = pre ++ v :: post ∧ d.entries[v.entry]? = some e ∧
      d.munmap v.start n =
        { entries := d.entries.set v.entry
            { e with vmaRefs := 0, listed := false, freed := 1 }
          memlist := d.memlist.erase v.entry
          vmas := pre ++ post } := by
  obtain ⟨e, he, hLive, -⟩ := h.mapped v hv
  obtain ⟨hRefs, hListed⟩ := h.alive _ e he hLive
  obtain ⟨pre, post, hSplit, hEq⟩ := h.munmap_close hv hn
  refine ⟨pre, post, e, hSplit, he, ?_⟩
  rw [hEq]
  simp only [Genpci.dmaVmaClose, he, hRefs, hListed, hLive, Nat.sub_self, if_true, Nat.zero_add]

/-- What remains after one VMA and its entry are gone. -/
theorem DrvInv.munmap (h : DrvInv d) {v : Vma} (hv : v ∈ d.vmas) {n : Nat}
    (hn : pageAlign n = v.len) : DrvInv (d.munmap v.start n) := by
  obtain ⟨pre, post, e, hSplit, he, hEq⟩ := h.munmap_eq hv hn
  have hlt : v.entry < d.entries.length := (List.getElem?_eq_some_iff.mp he).1
  have hOld : ∀ {k : Nat} {f : DmaEntry},
      (d.entries.set v.entry { e with vmaRefs := 0, listed := false, freed := 1 })[k]? =
        some f → f.freed = 0 → k ≠ v.entry ∧ d.entries[k]? = some f := by
    intro k f hf hLive
    rw [List.getElem?_set] at hf
    by_cases hk : v.entry = k
    · rw [if_pos hk, if_pos hlt, Option.some.injEq] at hf
      rw [← hf] at hLive
      cases hLive
    · rw [if_neg hk] at hf
      exact ⟨fun hEq => hk hEq.symm, hf⟩
  have hNew : ∀ {k : Nat} {f : DmaEntry}, k ≠ v.entry → d.entries[k]? = some f →
      (d.entries.set v.entry { e with vmaRefs := 0, listed := false, freed := 1 })[k]? =
        some f := by
    intro k f hk hf
    rw [List.getElem?_set_ne (Ne.symm hk)]
    exact hf
  have hApart := h.apart
  rw [hSplit] at hApart
  obtain ⟨hLeft, hRight, hCross⟩ := List.pairwise_append.mp hApart
  obtain ⟨hHead, hRest⟩ := List.pairwise_cons.mp hRight
  rw [hEq]
  refine
    { sorted := h.sorted.sublist List.erase_sublist
      listed := fun k => ?_
      alive := fun k f hf hLive => h.alive k f (hOld hf hLive).2 hLive
      distinct := fun k k' f f' hf hf' hLive hLive' =>
        h.distinct k k' f f' (hOld hf hLive).2 (hOld hf' hLive').2 hLive hLive'
      mapped := fun w hw => ?_
      apart := List.pairwise_append.mpr
        ⟨hLeft, hRest, fun w hw x hx => hCross w hw x (List.mem_cons_of_mem _ hx)⟩ }
  · dsimp only
    rw [h.nodup.mem_erase_iff, h.listed]
    constructor
    · rintro ⟨hk, f, hf, hLive⟩
      exact ⟨f, hNew hk hf, hLive⟩
    · rintro ⟨f, hf, hLive⟩
      obtain ⟨hk, hf⟩ := hOld hf hLive
      exact ⟨hk, f, hf, hLive⟩
  · have hMem : w ∈ d.vmas ∧ w.entry ≠ v.entry := by
      rw [hSplit]
      rcases List.mem_append.mp hw with hw | hw
      · exact ⟨List.mem_append_left _ hw, (hCross w hw v (by simp)).1⟩
      · exact ⟨List.mem_append_right _ (List.mem_cons_of_mem _ hw), (hHead w hw).1.symm⟩
    obtain ⟨f, hf, hFacts⟩ := h.mapped w hMem.1
    exact ⟨f, hNew hMem.2 hf, hFacts⟩

/-- A call of another entry keeps its VMA and entry through a `munmap`. -/
theorem Matches.munmap (hInv : DrvInv d) {v : Vma} (hv : v ∈ d.vmas) {n : Nat}
    (hn : pageAlign n = v.len) {c : Call} (hne : c.entry ≠ v.entry)
    (h : Matches d c) : Matches (d.munmap v.start n) c := by
  obtain ⟨pre, post, e, hSplit, he, hEq⟩ := hInv.munmap_eq hv hn
  obtain ⟨w, hw, hEntry, f, hf, hStage⟩ := h
  rw [hEq]
  refine ⟨w, ?_, hEntry, f, ?_, hStage⟩
  · rw [hSplit] at hw
    rcases List.mem_append.mp hw with hw | hw
    · exact List.mem_append_left _ hw
    · rcases List.mem_cons.mp hw with rfl | hw
      · exact absurd hEntry.symm hne
      · exact List.mem_append_right _ hw
  · rw [List.getElem?_set_ne (Ne.symm hne)]
    exact hf

theorem Matches.mmapDma {c : Call} {start len vmPgoff : Nat}
    {virtAddr dmaAddr : UInt64} (h : Matches d c) :
    Matches (d.mmapDma start len vmPgoff virtAddr dmaAddr) c := by
  obtain ⟨v, hv, hEntry, e, he, hStage⟩ := h
  exact ⟨v, List.mem_append_left _ hv, hEntry, e, getElem?_mmapDma_old he, hStage⟩

theorem Matches.release {c : Call} {k : Nat} (hne : c.entry ≠ k)
    (h : Matches d c) :
    Matches { d with entries := d.entries.modify k fun e =>
      { e with releaseRequested := true } } c := by
  obtain ⟨v, hv, hEntry, e, he, hStage⟩ := h
  refine ⟨v, hv, hEntry, e, ?_, hStage⟩
  dsimp only
  rw [List.getElem?_modify_ne _ _ (Ne.symm hne)]
  exact he

end Driver

/-! ## Steps -/

section Step

variable {s s' : State} {fd : Int}

/-- A list of calls split at one of them. -/
private theorem DmaInv.split (h : DmaInv s) {i : Nat} {c : Call}
    (hi : s.calls[i]? = some c) :
    Matches s.drv c ∧ (∀ c' ∈ s.calls.eraseIdx i, Matches s.drv c') ∧
      (c.entry :: (s.calls.eraseIdx i).map Call.entry).Nodup := by
  obtain ⟨hlt, hAt⟩ := List.getElem?_eq_some_iff.mp hi
  have hPerm := (List.getElem_cons_eraseIdx_perm hlt).map Call.entry
  rw [List.map_cons, hAt] at hPerm
  exact ⟨h.calls c (List.mem_of_getElem? hi),
    fun c' hc' => h.calls c' (List.mem_of_mem_eraseIdx hc'), hPerm.nodup_iff.mpr h.nodup⟩

/-- The calls besides one of them are about other entries. -/
private theorem entry_ne {k : Nat} {cs : List Call}
    (h : (k :: cs.map Call.entry).Nodup) {c : Call} (hc : c ∈ cs) : c.entry ≠ k :=
  fun hEq => (List.nodup_cons.mp h).1 (List.mem_map.mpr ⟨c, hc, hEq⟩)

/-- A call moves on to another stage. -/
private theorem DmaInv.set (h : DmaInv s) {i : Nat} {c : Call} {d' : Genpci}
    {stage : Stage} (hi : s.calls[i]? = some c) (hDrv : DrvInv d')
    (hOthers : ∀ c' ∈ s.calls.eraseIdx i, Matches d' c')
    (hOwn : Matches d' ⟨c.entry, stage⟩) :
    DmaInv { drv := d', calls := s.calls.set i ⟨c.entry, stage⟩ } := by
  have hlt : i < s.calls.length := (List.getElem?_eq_some_iff.mp hi).1
  have hPerm := List.set_perm_cons_eraseIdx hlt (⟨c.entry, stage⟩ : Call)
  refine ⟨hDrv, fun c' hc' => ?_, ?_⟩
  · rcases List.mem_cons.mp (hPerm.mem_iff.mp hc') with rfl | hc'
    · exact hOwn
    · exact hOthers c' hc'
  · refine (hPerm.map Call.entry).nodup_iff.mpr ?_
    rw [List.map_cons]
    exact (h.split hi).2.2

/-- A call ends with the `munmap` of its own VMA. -/
private theorem DmaInv.unmap (h : DmaInv s) {i : Nat} {c : Call}
    (hi : s.calls[i]? = some c) {v : Vma} (hv : v ∈ s.drv.vmas)
    (hEntry : v.entry = c.entry) {n : Nat} (hn : pageAlign n = v.len) :
    DmaInv { drv := s.drv.munmap v.start n, calls := s.calls.eraseIdx i } := by
  obtain ⟨-, hOthers, hNodup⟩ := h.split hi
  refine ⟨h.drv.munmap hv hn, fun c' hc' => ?_, (List.nodup_cons.mp hNodup).2⟩
  exact (hOthers c' hc').munmap h.drv hv hn (by rw [hEntry]; exact entry_ne hNodup hc')

/-- The entry of a call is live. -/
theorem Matches.live {d : Genpci} {c : Call} (hDrv : DrvInv d) {v : Vma}
    (hv : v ∈ d.vmas) (hEntry : v.entry = c.entry) {e : DmaEntry}
    (he : d.entries[c.entry]? = some e) :
    e.freed = 0 ∧ e.size.toInt = v.len ∧ v.len % 4096 = 0 := by
  obtain ⟨e', he', hLive, hSize, -, hMod⟩ := hDrv.mapped v hv
  rw [hEntry, he, Option.some.injEq] at he'
  rw [he']
  exact ⟨hLive, hSize, hMod⟩

/-- Every step that pairs correctly keeps the correspondence. -/
theorem DmaInv.step (h : DmaInv s) {a : Act} (hPaired : Paired fd s a)
    (hStep : step fd s a = some s') : DmaInv s' := by
  cases step_cases hStep with
  | mmapFailed hLen => exact h
  | mmap hLen hOk =>
      refine ⟨h.drv.mmapDma hLen hOk, fun c hc => ?_, ?_⟩
      · rcases List.mem_append.mp hc with hOld | hNew
        · exact (h.calls c hOld).mmapDma
        · rw [List.mem_singleton.mp hNew]
          refine ⟨_, List.mem_append_right _ (List.mem_singleton_self _), rfl, _,
            List.getElem?_concat_length, rfl, rfl, rfl⟩
      · rw [List.map_append, List.map_singleton]
        refine List.nodup_append.mpr ⟨h.nodup, List.nodup_singleton _, ?_⟩
        intro k hk k' hk'
        obtain ⟨c, hc, rfl⟩ := List.mem_map.mp hk
        obtain ⟨v, -, -, e, he, -⟩ := h.calls c hc
        have hlt : c.entry < s.drv.entries.length :=
          (List.getElem?_eq_some_iff.mp he).1
        rw [List.mem_singleton.mp hk']
        exact Nat.ne_of_lt hlt
  | told hi hInfo =>
      obtain ⟨hOwn, hOthers, -⟩ := h.split hi
      obtain ⟨v, hv, hEntry, e, he, hStart, -, hFlag⟩ := hOwn
      obtain ⟨w, hw, hwStart, e', he', hFacts⟩ := hPaired _ _ _ _ hi rfl hInfo
      have hSame : w = v := h.drv.vma_eq hw hv (hwStart.trans hStart.symm)
      rw [hSame, hEntry, he, Option.some.injEq] at he'
      rw [← he'] at hFacts
      exact h.set hi h.drv hOthers ⟨v, hv, hEntry, e, he, hStart, hFlag, hFacts⟩
  | notTold hi hNot =>
      obtain ⟨hOwn, hOthers, -⟩ := h.split hi
      obtain ⟨v, hv, hEntry, e, he, hStart, hLenEq, -⟩ := hOwn
      exact h.set hi h.drv hOthers ⟨v, hv, hEntry, e, he, hStart, hLenEq⟩
  | undo hi =>
      obtain ⟨v, hv, hEntry, e, he, hStart, hLenEq⟩ := (h.split hi).1
      rw [← hStart]
      exact h.unmap hi hv hEntry hLenEq.symm
  | nothingHeld hi hZero => exact h
  | @releaseMem i k mem hi hHeld =>
      obtain ⟨hOwn, hOthers, hNodup⟩ := h.split hi
      obtain ⟨v, hv, hEntry, e, he, hStart, hFlag, hDma, hVirt, hSize⟩ := hOwn
      obtain ⟨hLive, -⟩ := Matches.live h.drv hv hEntry he
      rw [h.drv.releaseMem_eq he hLive hVirt hDma]
      refine h.set hi (h.drv.release k)
        (fun c' hc' => (hOthers c' hc').release (entry_ne hNodup hc')) ?_
      refine ⟨v, hv, hEntry, { e with releaseRequested := true }, ?_, hStart, rfl,
        hDma, hVirt, hSize⟩
      dsimp only
      rw [List.getElem?_modify_eq, he]
      rfl
  | munmap hi =>
      obtain ⟨v, hv, hEntry, e, he, hStart, hFlag, hDma, hVirt, hSize⟩ := (h.split hi).1
      obtain ⟨-, hLenEq, hMod⟩ := Matches.live h.drv hv hEntry he
      rw [← hStart, hSize, hLenEq, Int.toNat_natCast]
      exact h.unmap hi hv hEntry (pageAlign_of_mod hMod)

/-- In a state with the correspondence, the driver reports the thread's own entry
exactly when none newer waits to be released. -/
theorem DmaInv.paired_iff (h : DmaInv s) (a : Act) :
    Paired fd s a ↔ NoneNewer s a := by
  cases a with
  | mmap len p => exact Iff.rfl
  | undo i => exact Iff.rfl
  | releaseMem i => exact Iff.rfl
  | munmap i => exact Iff.rfl
  | getMemfinfo i copied =>
      -- Facts about a call that has mapped its memory.
      have hFacts : ∀ k len virt, s.calls[i]? = some ⟨k, .mapped len virt⟩ →
          ∃ v ∈ s.drv.vmas, v.entry = k ∧ v.start = virt.toNat ∧
            ∃ e, s.drv.entries[k]? = some e ∧ e.freed = 0 ∧ k ∈ s.drv.memlist ∧
              s.drv.unreleased k = true := by
        intro k len virt hi
        obtain ⟨v, hv, hEntry, e, he, hStart, -, hFlag⟩ := (h.split hi).1
        obtain ⟨hLive, -⟩ := Matches.live h.drv hv hEntry he
        refine ⟨v, hv, hEntry, hStart, e, he, hLive, (h.drv.listed k).mpr ⟨e, he, hLive⟩, ?_⟩
        simp only [Genpci.unreleased, he, hFlag, Bool.not_false]
      constructor
      · intro hPaired k len virt hi hCopied
        obtain ⟨v, hv, hEntry, hStart, e, he, hLive, hk, hOwn⟩ := hFacts k len virt hi
        refine (h.drv.find_unreleased hk hOwn).mp ?_
        cases hFind : s.drv.memlist.find? s.drv.unreleased with
        | none => exact absurd hOwn (List.find?_eq_none.mp hFind k hk)
        | some k₀ =>
            obtain ⟨e₀, he₀, hLive₀⟩ :=
              (h.drv.listed k₀).mp (List.mem_of_find?_eq_some hFind)
            have hInfo : s.drv.getMemfinfo = some
                { dmaAddr := e₀.dmaAddr
                  kernelVirtaddr := e₀.virtAddr
                  size := e₀.size } := by
              rw [Genpci.getMemfinfo, hFind]
              simp only [he₀, Option.map_some]
            obtain ⟨w, hw, hwStart, e', he', hDma, hVirt, -⟩ :=
              hPaired k len virt _ hi hCopied hInfo
            have hSame : w = v := h.drv.vma_eq hw hv (hwStart.trans hStart.symm)
            rw [hSame, hEntry, he, Option.some.injEq] at he'
            rw [← he'] at hDma hVirt
            rw [h.drv.distinct k₀ k e₀ e he₀ he hLive₀ hLive hVirt hDma]
      · intro hNewer k len virt info hi hCopied hInfo
        obtain ⟨v, hv, hEntry, hStart, e, he, hLive, hk, hOwn⟩ := hFacts k len virt hi
        have hFind := (h.drv.find_unreleased hk hOwn).mpr (hNewer k len virt hi hCopied)
        rw [Genpci.getMemfinfo, hFind] at hInfo
        simp only [he, Option.map_some, Option.some.injEq] at hInfo
        rw [← hInfo]
        exact ⟨v, hv, hStart, e, by rw [hEntry]; exact he, rfl, rfl, rfl⟩

end Step

/-! ## Whole runs -/

theorem dmaInv_start : DmaInv {} :=
  { drv :=
      { sorted := List.Pairwise.nil
        listed := by simp
        alive := by simp
        distinct := by simp
        mapped := by simp
        apart := List.Pairwise.nil }
    calls := by simp
    nodup := List.nodup_nil }

/-- The interleavings in which every `struct mem` returned describes the entry
mapped at its user address are those in which a thread asks about its mapping
only while no entry made after its own waits to be released. -/
theorem paired_run_iff {fd : Int} {as : List Act} {s : State} :
    Run (step fd) (Paired fd) {} as s ↔ Run (step fd) NoneNewer {} as s :=
  Run.iff_of_invariant dmaInv_start (fun _ _ _ h hPaired hStep => h.step hPaired hStep)
    fun _ a _ h _ => h.paired_iff a

/-- Two threads map a page each before the first one asks. -/
def twoMmaps : List Act :=
  [.mmap 4096 (some ⟨0x10000, 0xf0000, 0x20000⟩),
    .mmap 4096 (some ⟨0x30000, 0xf4000, 0x40000⟩)]

def Act.isMmap : Act → Bool
  | .mmap .. => true
  | _ => false

/-- The first thread is told about the page of the second. -/
theorem paired_twoMmaps_false :
    ∃ s, Run (step 3) (fun _ _ => True) {} twoMmaps s ∧
      s.calls[0]? = some ⟨0, .mapped 4096 0x10000⟩ ∧
      (step 3 s (.getMemfinfo 0 true)).isSome = true ∧
      ¬ Paired 3 s (.getMemfinfo 0 true) := by
  have hEval : (exec (step 3) (fun _ a => a.isMmap) {} twoMmaps).any (fun s =>
      decide (s.calls[0]? = some ⟨0, .mapped 4096 0x10000⟩ ∧ 1 ∈ s.drv.memlist ∧
        s.drv.unreleased 1 = true ∧
        (step 3 s (.getMemfinfo 0 true)).isSome = true)) = true := by
    decide +kernel
  obtain ⟨s, hExec, hEnd⟩ := (Option.any_eq_true _ _).mp hEval
  obtain ⟨hCall, hMem, hOther, hSome⟩ := of_decide_eq_true hEnd
  have hRun : Run (step 3) (Paired 3) {} twoMmaps s := by
    refine Run.of_exec (fun s a hMmap => ?_) hExec
    cases a with
    | mmap len p => trivial
    | getMemfinfo i copied => cases hMmap
    | undo i => trivial
    | releaseMem i => trivial
    | munmap i => trivial
  refine ⟨s, hRun.mono fun _ _ _ => trivial, hCall, hSome, fun hPaired => ?_⟩
  have hInv : DmaInv s :=
    hRun.invariant dmaInv_start fun _ _ _ h hPaired hStep => h.step hPaired hStep
  have hNone := hInv.paired_iff _ |>.mp hPaired 0 4096 0x10000 hCall rfl 1 hMem (by omega)
  rw [hOther] at hNone
  cases hNone

end NewPerf.Driver
