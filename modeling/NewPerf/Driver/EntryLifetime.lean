import NewPerf.Driver.Devices
import NewPerf.Lib.Logs
import Mathlib.Data.List.Nodup
import Mathlib.Data.List.Perm.Basic

/-!
# The life of a `struct dma_entry`

An entry is made by `mmap_dma` and freed when the last VMA that refers to it is closed.
`Counted` is about that alone and holds in every run.  `Linked` is about the two ways
back to the device, the list and the pointer; it holds as long as no file operation
is made on a file whose device has been removed, because then `mmap_dma` links an
entry into a list that nobody will walk again.
-/

namespace NewPerf.Driver.Devices

open NewPerf.Lib.Logs
open NewPerf.Lib.Runs
open NewPerf.Tools

/-- The number of VMAs that refer to an entry. -/
def Kernel.vmaCount (s : Kernel) (k : Nat) : Nat := s.vmas.countP (·.entry = k)

/-- An entry with VMAs has been given nothing back, one without them everything, once. -/
structure Balanced (e : OwnedEntry) : Prop where
  mapped : 0 < e.vmaRefs → e.freed = 0 ∧ e.coherentAllocs = 1 ∧ e.coherentFrees = 0 ∧
    e.deviceGets = 1 ∧ e.devicePuts = 0
  unmapped : e.vmaRefs = 0 → e.freed = 1 ∧ e.coherentFrees = e.coherentAllocs ∧
    e.devicePuts = e.deviceGets

structure Counted (s : Kernel) : Prop where
  entry : ∀ v ∈ s.vmas, ∃ e, s.entries[v.entry]? = some e
  refs : ∀ (k : Nat) (e : OwnedEntry), s.entries[k]? = some e → e.vmaRefs = s.vmaCount k
  balanced : ∀ (k : Nat) (e : OwnedEntry), s.entries[k]? = some e → Balanced e

/-- The entries correspond to each other but for the marks that do not count. -/
def Remarked (entries entries' : List OwnedEntry) : Prop :=
  ∀ k : Nat, ∃ mark : OwnedEntry → OwnedEntry, entries'[k]? = entries[k]?.map mark ∧
    ∀ e, ∃ listed released owner, mark e =
      { e with listed := listed, releaseRequested := released, pgenpciDev := owner }

section Entries

variable {entries : List OwnedEntry}

theorem Remarked.refl (entries : List OwnedEntry) : Remarked entries entries :=
  fun _ => ⟨id, by simp, fun e => ⟨e.listed, e.releaseRequested, e.pgenpciDev, rfl⟩⟩

theorem Remarked.modify {mark : OwnedEntry → OwnedEntry} (j : Nat)
    (hMark : ∀ e, ∃ listed released owner, mark e =
      { e with listed := listed, releaseRequested := released, pgenpciDev := owner }) :
    Remarked entries (entries.modify j mark) := by
  intro k
  refine ⟨fun e => if j = k then mark e else e, ?_, fun e => ?_⟩
  · rw [List.getElem?_modify]
    rfl
  · split
    · exact hMark e
    · exact ⟨e.listed, e.releaseRequested, e.pgenpciDev, rfl⟩

theorem getElem?_detach (entries : List OwnedEntry) (memlist : List Nat) (k : Nat) :
    (genpciDetachDmaEntries entries memlist)[k]? =
      if k ∈ memlist then entries[k]?.map OwnedEntry.detach else entries[k]? := by
  induction memlist generalizing entries with
  | nil => rfl
  | cons j rest ih =>
      show (genpciDetachDmaEntries (entries.modify j OwnedEntry.detach) rest)[k]? = _
      rw [ih, List.getElem?_modify]
      by_cases hj : j = k
      · subst hj
        cases hEntry : entries[j]? with
        | none => simp
        | some e => simp [OwnedEntry.detach]
      · have hne : k ≠ j := fun h => hj h.symm
        simp [hj, hne]

theorem remarked_detach (entries : List OwnedEntry) (memlist : List Nat) :
    Remarked entries (genpciDetachDmaEntries entries memlist) := by
  intro k
  rw [getElem?_detach]
  split
  · exact ⟨OwnedEntry.detach, rfl, fun e => ⟨false, true, none, rfl⟩⟩
  · exact Remarked.refl entries k

end Entries

/-! ## Counting -/

section Counting

variable {s s' : Kernel}

theorem Counted.remark (h : Counted s) (hVmas : s'.vmas = s.vmas)
    (hEntries : Remarked s.entries s'.entries) : Counted s' := by
  have hBack : ∀ (k : Nat) (e' : OwnedEntry), s'.entries[k]? = some e' →
      ∃ e listed released owner, s.entries[k]? = some e ∧ e' =
        { e with listed := listed, releaseRequested := released, pgenpciDev := owner } := by
    intro k e' he'
    obtain ⟨mark, hAt, hMark⟩ := hEntries k
    rw [hAt, Option.map_eq_some_iff] at he'
    obtain ⟨e, he, rfl⟩ := he'
    obtain ⟨listed, released, owner, hEq⟩ := hMark e
    exact ⟨e, listed, released, owner, he, hEq⟩
  refine ⟨fun v hv => ?_, fun k e' he' => ?_, fun k e' he' => ?_⟩
  · rw [hVmas] at hv
    obtain ⟨e, he⟩ := h.entry v hv
    obtain ⟨mark, hAt, -⟩ := hEntries v.entry
    exact ⟨mark e, by rw [hAt, he]; rfl⟩
  · obtain ⟨e, _, _, _, he, rfl⟩ := hBack k e' he'
    have hRefs := h.refs k e he
    rw [Kernel.vmaCount, hVmas]
    exact hRefs
  · obtain ⟨e, _, _, _, he, rfl⟩ := hBack k e' he'
    have hBalanced := h.balanced k e he
    exact ⟨hBalanced.mapped, hBalanced.unmapped⟩

/-- No VMA refers to an entry that does not exist. -/
theorem Counted.vmaCount_new (h : Counted s) : s.vmaCount s.entries.length = 0 := by
  rw [Kernel.vmaCount, List.countP_eq_zero]
  intro v hv
  obtain ⟨e, he⟩ := h.entry v hv
  have hLt := (List.getElem?_eq_some_iff.mp he).1
  simp only [decide_eq_true_eq]
  omega

/-- `mmap_dma` failed and has taken everything back. -/
theorem Counted.failed (h : Counted s) {e : OwnedEntry} (hRefs : e.vmaRefs = 0)
    (hBalanced : Balanced e) (hEntries : s'.entries = s.entries ++ [e])
    (hVmas : s'.vmas = s.vmas) : Counted s' := by
  have hCount : ∀ k, s'.vmaCount k = s.vmaCount k := fun k => by
    rw [Kernel.vmaCount, hVmas, Kernel.vmaCount]
  refine ⟨fun v hv => ?_, fun k e' he' => ?_, fun k e' he' => ?_⟩
  · rw [hVmas] at hv
    obtain ⟨e, he⟩ := h.entry v hv
    exact ⟨e, hEntries ▸ getElem?_concat_of_some he _⟩
  · rw [hCount]
    rw [hEntries] at he'
    rcases getElem?_concat_cases he' with hOld | ⟨rfl, rfl⟩
    · exact h.refs k e' hOld
    · rw [hRefs, h.vmaCount_new]
  · rw [hEntries] at he'
    rcases getElem?_concat_cases he' with hOld | ⟨rfl, rfl⟩
    · exact h.balanced k e' hOld
    · exact hBalanced

/-- `mmap_dma` made an entry and its first VMA. -/
theorem Counted.mapped (h : Counted s) {e : OwnedEntry} {v : Vma} (hRefs : e.vmaRefs = 1)
    (hBalanced : Balanced e) (hEntry : v.entry = s.entries.length)
    (hEntries : s'.entries = s.entries ++ [e]) (hVmas : s'.vmas = s.vmas ++ [v]) :
    Counted s' := by
  have hCount : ∀ k, s'.vmaCount k = s.vmaCount k + if k = s.entries.length then 1 else 0 := by
    intro k
    rw [Kernel.vmaCount, hVmas, List.countP_append, List.countP_singleton, Kernel.vmaCount,
      hEntry]
    by_cases hk : k = s.entries.length
    · simp [hk]
    · simp [hk, Ne.symm hk]
  refine ⟨fun w hw => ?_, fun k e' he' => ?_, fun k e' he' => ?_⟩
  · rw [hVmas, List.mem_append, List.mem_singleton] at hw
    rcases hw with hOld | rfl
    · obtain ⟨e', he'⟩ := h.entry w hOld
      exact ⟨e', hEntries ▸ getElem?_concat_of_some he' _⟩
    · exact ⟨e, by rw [hEntries, hEntry, List.getElem?_concat_length]⟩
  · rw [hCount]
    rw [hEntries] at he'
    rcases getElem?_concat_cases he' with hOld | ⟨rfl, rfl⟩
    · have hLt := (List.getElem?_eq_some_iff.mp hOld).1
      rw [if_neg (by omega), Nat.add_zero]
      exact h.refs k e' hOld
    · rw [if_pos rfl, hRefs, h.vmaCount_new]
  · rw [hEntries] at he'
    rcases getElem?_concat_cases he' with hOld | ⟨rfl, rfl⟩
    · exact h.balanced k e' hOld
    · exact hBalanced

theorem Counted.refs_pos (h : Counted s) {v : Vma} {e : OwnedEntry} (hv : v ∈ s.vmas)
    (he : s.entries[v.entry]? = some e) : 0 < e.vmaRefs := by
  rw [h.refs _ e he]
  exact List.countP_pos_iff.mpr ⟨v, hv, by simp⟩

/-- One more VMA refers to the entry, and `dma_vma_open` has counted it. -/
theorem Counted.opened (h : Counted s) {j : Nat} {vmas : List Vma}
    (hEntry : ∀ v ∈ vmas, v.entry = j ∨ ∃ w ∈ s.vmas, v.entry = w.entry)
    (hOld : ∃ w ∈ s.vmas, w.entry = j)
    (hCount : ∀ k, vmas.countP (·.entry = k) = s.vmaCount k + if k = j then 1 else 0) :
    Counted ({ s with vmas := vmas }.dmaVmaOpen j) := by
  obtain ⟨w, hw, rfl⟩ := hOld
  have hKept : ∀ (k : Nat) (e : OwnedEntry), s.entries[k]? = some e →
      ({ s with vmas := vmas }.dmaVmaOpen w.entry).entries[k]? =
        some (if w.entry = k then { e with vmaRefs := e.vmaRefs + 1 } else e) := by
    intro k e he
    rw [Kernel.dmaVmaOpen, List.getElem?_modify, he]
    rfl
  have hBack : ∀ (k : Nat) (e' : OwnedEntry),
      ({ s with vmas := vmas }.dmaVmaOpen w.entry).entries[k]? = some e' →
        ∃ e, s.entries[k]? = some e ∧
          e' = if w.entry = k then { e with vmaRefs := e.vmaRefs + 1 } else e := by
    intro k e' he'
    cases he : s.entries[k]? with
    | none =>
        rw [Kernel.dmaVmaOpen, List.getElem?_modify, he] at he'
        cases he'
    | some e =>
        rw [hKept k e he, Option.some.injEq] at he'
        exact ⟨e, rfl, he'.symm⟩
  refine ⟨fun v hv => ?_, fun k e' he' => ?_, fun k e' he' => ?_⟩
  · rcases hEntry v hv with hSame | ⟨u, hu, hSame⟩
    · obtain ⟨e, he⟩ := h.entry w hw
      exact ⟨_, by rw [hSame]; exact hKept _ e he⟩
    · obtain ⟨e, he⟩ := h.entry u hu
      exact ⟨_, by rw [hSame]; exact hKept _ e he⟩
  · obtain ⟨e, he, rfl⟩ := hBack k e' he'
    have hRefs := h.refs k e he
    show _ = vmas.countP (·.entry = k)
    rw [hCount, ← hRefs]
    by_cases hk : w.entry = k
    · simp [hk]
    · simp [hk, Ne.symm hk]
  · obtain ⟨e, he, rfl⟩ := hBack k e' he'
    have hBalanced := h.balanced k e he
    split
    · rename_i hk
      -- The entry already has a VMA, so nothing of it has been given back.
      have hPos : 0 < e.vmaRefs := h.refs_pos hw (hk ▸ he)
      exact ⟨fun _ => hBalanced.mapped hPos, fun hZero => by simp at hZero⟩
    · exact hBalanced

/-- An entry to which a VMA refers has not been freed. -/
theorem Counted.freed_eq (h : Counted s) {v : Vma} {e : OwnedEntry} (hv : v ∈ s.vmas)
    (he : s.entries[v.entry]? = some e) : e.freed = 0 :=
  ((h.balanced _ e he).mapped (h.refs_pos hv he)).1

/-- What `dma_vma_close` does to the entry. -/
def OwnedEntry.close (e : OwnedEntry) : OwnedEntry :=
  if e.vmaRefs - 1 = 0 then
    { e with
      vmaRefs := 0
      listed := false
      coherentFrees := e.coherentFrees + 1
      devicePuts := e.devicePuts + 1
      freed := e.freed + 1 }
  else { e with vmaRefs := e.vmaRefs - 1 }

/-- The pointer to the device, if there is one, leads to a device that is live. -/
def Kernel.ownerLive (s : Kernel) (e : OwnedEntry) : Bool :=
  match e.pgenpciDev with
  | none => true
  | some d => s.live d

theorem dmaVmaClose_eq {k : Nat} {e : OwnedEntry} (he : s.entries[k]? = some e) :
    s.dmaVmaClose k =
      { s with
        entries := s.entries.set k e.close
        devices := if e.vmaRefs - 1 = 0 ∧ e.listed = true then unlink s.devices e k
          else s.devices
        stray := s.stray || !s.ownerLive e } := by
  simp only [Kernel.dmaVmaClose, he, OwnedEntry.close, Kernel.ownerLive]
  cases hOwner : e.pgenpciDev with
  | none => by_cases hLast : e.vmaRefs - 1 = 0 <;> simp [hLast]
  | some d => by_cases hLast : e.vmaRefs - 1 = 0 <;> simp [hLast, Kernel.touch]

/-- A VMA is gone, and `dma_vma_close` has counted it. -/
theorem Counted.closed (h : Counted s) {i : Nat} {v : Vma} (hv : s.vmas[i]? = some v) :
    Counted ({ s with vmas := s.vmas.eraseIdx i }.dmaVmaClose v.entry) := by
  obtain ⟨hLt, rfl⟩ := List.getElem?_eq_some_iff.mp hv
  obtain ⟨e, he⟩ := h.entry _ (List.getElem_mem hLt)
  have hCount : ∀ k, s.vmaCount k =
      (s.vmas.eraseIdx i).countP (·.entry = k) + if s.vmas[i].entry = k then 1 else 0 := by
    intro k
    rw [Kernel.vmaCount, ← (List.getElem_cons_eraseIdx_perm hLt).countP_eq, List.countP_cons]
    simp
  have hRefs := h.refs _ e he
  rw [hCount, if_pos rfl] at hRefs
  rw [dmaVmaClose_eq (s := { s with vmas := s.vmas.eraseIdx i }) he]
  have hAt : ∀ (k : Nat) (e' : OwnedEntry),
      (s.entries.set s.vmas[i].entry e.close)[k]? = some e' →
        (k = s.vmas[i].entry ∧ e' = e.close) ∨
        (s.vmas[i].entry ≠ k ∧ s.entries[k]? = some e') := by
    intro k e' he'
    by_cases hk : s.vmas[i].entry = k
    · subst hk
      rw [List.getElem?_set_self (List.getElem?_eq_some_iff.mp he).1, Option.some.injEq] at he'
      exact .inl ⟨rfl, he'.symm⟩
    · rw [List.getElem?_set_ne hk] at he'
      exact .inr ⟨hk, he'⟩
  refine ⟨fun w hw => ?_, fun k e' he' => ?_, fun k e' he' => ?_⟩
  · obtain ⟨e', he'⟩ := h.entry w (List.mem_of_mem_eraseIdx hw)
    by_cases hk : s.vmas[i].entry = w.entry
    · refine ⟨e.close, ?_⟩
      rw [← hk]
      exact List.getElem?_set_self (List.getElem?_eq_some_iff.mp he).1
    · exact ⟨e', by rw [← he']; exact List.getElem?_set_ne hk⟩
  · rcases hAt k e' he' with ⟨rfl, rfl⟩ | ⟨hk, hOld⟩
    · show e.close.vmaRefs = (s.vmas.eraseIdx i).countP (·.entry = s.vmas[i].entry)
      unfold OwnedEntry.close
      split
      · show 0 = _
        omega
      · show e.vmaRefs - 1 = _
        omega
    · have hOther := h.refs k e' hOld
      rw [hCount, if_neg hk, Nat.add_zero] at hOther
      exact hOther
  · rcases hAt k e' he' with ⟨rfl, rfl⟩ | ⟨hk, hOld⟩
    · obtain ⟨hFreed, hAlloc, hFree, hGet, hPut⟩ := (h.balanced _ e he).mapped (by omega)
      unfold OwnedEntry.close
      split
      · refine ⟨nofun, fun _ => ⟨?_, ?_, ?_⟩⟩
        · show e.freed + 1 = 1
          rw [hFreed]
        · show e.coherentFrees + 1 = e.coherentAllocs
          rw [hFree, hAlloc]
        · show e.devicePuts + 1 = e.deviceGets
          rw [hPut, hGet]
      · rename_i hMore
        exact ⟨fun _ => ⟨hFreed, hAlloc, hFree, hGet, hPut⟩, fun hZero => absurd hZero hMore⟩
    · exact h.balanced k e' hOld

/-- The counts are right in every state. -/
theorem Counted.step {a : Act} (h : Counted s) (hStep : step s a = some s') : Counted s' := by
  cases step_cases hStep with
  | probe => exact h.remark rfl (Remarked.refl _)
  | openFile hLive => exact h.remark rfl (Remarked.refl _)
  | closeFile hFile => exact h.remark rfl (Remarked.refl _)
  | @mmap f d start len vmPgoff outcome hPaged hFile =>
      cases outcome with
      | noEntry => exact h
      | noMemory =>
          refine h.failed rfl ⟨fun hPos => ?_, fun _ => ⟨rfl, rfl, rfl⟩⟩ rfl rfl
          exact absurd hPos (Nat.lt_irrefl 0)
      | notMapped =>
          refine h.failed rfl ⟨fun hPos => ?_, fun _ => ⟨rfl, rfl, rfl⟩⟩ rfl rfl
          exact absurd hPos (Nat.lt_irrefl 0)
      | mapped virtAddr dmaAddr =>
          refine h.mapped rfl ⟨fun _ => ⟨rfl, rfl, rfl, rfl, rfl⟩, fun hZero => ?_⟩ rfl rfl rfl
          exact absurd hZero Nat.one_ne_zero
  | @ioctl f d cmd hFile =>
      rcases genpciIoctl_cases s d cmd with ⟨-, hSame⟩ | ⟨-, hSame | ⟨k, hMarked⟩⟩
      · rw [hSame]
        exact h
      · rw [hSame]
        exact h.remark rfl (Remarked.refl _)
      · rw [hMarked]
        exact h.remark rfl (Remarked.modify _ fun e => ⟨e.listed, true, e.pgenpciDev, rfl⟩)
  | @vmaOpen i start v hv =>
      refine h.opened (fun w hw => ?_) ⟨v, List.mem_of_getElem? hv, rfl⟩ fun k => ?_
      · rcases List.mem_append.mp hw with hOld | hNew
        · exact .inr ⟨w, hOld, rfl⟩
        · rw [List.mem_singleton.mp hNew]
          exact .inl rfl
      · rw [List.countP_append, List.countP_singleton, Kernel.vmaCount]
        simp [eq_comm]
  | @vmaSplit i off v hv hPaged hCut =>
      have hLt := (List.getElem?_eq_some_iff.mp hv).1
      refine h.opened (fun w hw => ?_) ⟨v, List.mem_of_getElem? hv, rfl⟩ fun k => ?_
      · rcases List.mem_append.mp hw with hOld | hNew
        · rcases List.mem_or_eq_of_mem_set hOld with hOld | rfl
          · exact .inr ⟨w, hOld, rfl⟩
          · exact .inl rfl
        · rw [List.mem_singleton.mp hNew]
          exact .inl rfl
      · rw [List.countP_append, List.countP_singleton, Kernel.vmaCount,
          (List.set_perm_cons_eraseIdx hLt _).countP_eq, List.countP_cons]
        have hBefore := (List.getElem_cons_eraseIdx_perm hLt).countP_eq
          (fun w : Vma => decide (w.entry = k))
        rw [List.countP_cons, (List.getElem?_eq_some_iff.mp hv).2] at hBefore
        rw [← hBefore]
        simp [eq_comm]
  | vmaClose hv => exact h.closed hv
  | remove hLive => exact h.remark rfl (remarked_detach _ _)

end Counting

/-! ## Lists and pointers -/

/-- The device that an allocated entry points back to. -/
def Kernel.owner (s : Kernel) (k : Nat) : Option Nat :=
  s.entries[k]?.bind fun e => if e.freed = 0 then e.pgenpciDev else none

/-- The entry says that it is in a list. -/
def Kernel.listed (s : Kernel) (k : Nat) : Bool := (s.entries[k]?.map (·.listed)).getD false

structure Linked (s : Kernel) : Prop where
  owner : ∀ k d, s.owner k = some d → s.live d = true
  listed : ∀ k, s.listed k = true ↔ ∃ d, s.owner k = some d
  members : ∀ d k, s.live d = true → (k ∈ s.memlist d ↔ s.owner k = some d)
  nodup : ∀ d, s.live d = true → (s.memlist d).Nodup

section Links

variable {s s' : Kernel}

theorem Linked.congr (h : Linked s) (hOwner : ∀ k, s'.owner k = s.owner k)
    (hListed : ∀ k, s'.listed k = s.listed k) (hLive : ∀ d, s'.live d = s.live d)
    (hMemlist : ∀ d, s'.memlist d = s.memlist d) : Linked s' := by
  refine ⟨fun k d => ?_, fun k => ?_, fun d k => ?_, fun d => ?_⟩
  · rw [hOwner, hLive]
    exact h.owner k d
  · simp only [hOwner, hListed]
    exact h.listed k
  · rw [hOwner, hLive, hMemlist]
    exact h.members d k
  · rw [hLive, hMemlist]
    exact h.nodup d

/-- Entries may change in what the lists do not depend on. -/
theorem Linked.entries (h : Linked s) (hDevices : s'.devices = s.devices)
    (hEntries : ∀ k : Nat, ∃ change : OwnedEntry → OwnedEntry,
      s'.entries[k]? = s.entries[k]?.map change ∧ ∀ e, (change e).freed = e.freed ∧
        (change e).pgenpciDev = e.pgenpciDev ∧ (change e).listed = e.listed) : Linked s' := by
  refine h.congr (fun k => ?_) (fun k => ?_) (fun d => ?_) fun d => ?_
  · obtain ⟨change, hAt, hSame⟩ := hEntries k
    rw [Kernel.owner, hAt, Option.bind_map, Kernel.owner]
    congr 1
    funext e
    simp only [Function.comp_apply, (hSame e).1, (hSame e).2.1]
  · obtain ⟨change, hAt, hSame⟩ := hEntries k
    rw [Kernel.listed, hAt, Option.map_map, Kernel.listed]
    congr 2
    funext e
    exact (hSame e).2.2
  · rw [Kernel.live, hDevices, Kernel.live]
  · rw [Kernel.memlist, hDevices, Kernel.memlist]

theorem Linked.modify (h : Linked s) {j : Nat} {change : OwnedEntry → OwnedEntry}
    (hDevices : s'.devices = s.devices) (hEntries : s'.entries = s.entries.modify j change)
    (hSame : ∀ e, (change e).freed = e.freed ∧ (change e).pgenpciDev = e.pgenpciDev ∧
      (change e).listed = e.listed) : Linked s' := by
  refine h.entries hDevices fun k => ⟨fun e => if j = k then change e else e, ?_, fun e => ?_⟩
  · rw [hEntries, List.getElem?_modify]
    rfl
  · split
    · exact hSame e
    · exact ⟨rfl, rfl, rfl⟩

/-- What a change to one device does to them. -/
theorem getElem?_modify_getD {β : Type} {devices : List GenpciDev} {d d' : Nat}
    {change : GenpciDev → GenpciDev} {f : GenpciDev → β} {b : β} :
    ((devices.modify d change)[d']?.map f).getD b =
      if d = d' then (devices[d']?.map (f ∘ change)).getD b else (devices[d']?.map f).getD b := by
  rw [List.getElem?_modify]
  split
  · cases devices[d']? <;> rfl
  · cases devices[d']? <;> rfl

/-- What `list_add` does to the lists. -/
theorem memlist_push {d k : Nat} (hLive : s.live d = true)
    (hDevices : s'.devices = s.devices.modify d fun g => { g with memlist := k :: g.memlist })
    (d' : Nat) : s'.memlist d' = if d = d' then k :: s.memlist d' else s.memlist d' := by
  rw [Kernel.memlist, hDevices, getElem?_modify_getD]
  split
  · rename_i hd
    subst hd
    rw [Kernel.live] at hLive
    rw [Kernel.memlist]
    cases hAt : s.devices[d]? with
    | none =>
        rw [hAt] at hLive
        cases hLive
    | some g => rfl
  · rfl

/-- What `list_del` does to the lists. -/
theorem memlist_unlink {e : OwnedEntry} {k : Nat} (hDevices : s'.devices = unlink s.devices e k)
    (d : Nat) :
    s'.memlist d = if e.pgenpciDev = some d then (s.memlist d).erase k else s.memlist d := by
  rw [Kernel.memlist, hDevices, unlink]
  cases hOwner : e.pgenpciDev with
  | none => rfl
  | some d₀ =>
      simp only [getElem?_modify_getD, Option.some.injEq]
      split
      · rw [Kernel.memlist]
        cases s.devices[d]? <;> rfl
      · rfl

/-- Devices may change in what the lists do not depend on. -/
theorem Linked.devices (h : Linked s) (hEntries : s'.entries = s.entries)
    {d : Nat} {change : GenpciDev → GenpciDev}
    (hDevices : s'.devices = s.devices.modify d change)
    (hSame : ∀ g, (change g).live = g.live ∧ (change g).memlist = g.memlist) : Linked s' := by
  have hLive : GenpciDev.live ∘ change = GenpciDev.live := funext fun g => (hSame g).1
  have hMemlist : GenpciDev.memlist ∘ change = GenpciDev.memlist :=
    funext fun g => (hSame g).2
  refine h.congr (fun k => ?_) (fun k => ?_) (fun d' => ?_) fun d' => ?_
  · rw [Kernel.owner, hEntries, Kernel.owner]
  · rw [Kernel.listed, hEntries, Kernel.listed]
  · rw [Kernel.live, hDevices, getElem?_modify_getD, hLive, ite_self, Kernel.live]
  · rw [Kernel.memlist, hDevices, getElem?_modify_getD, hMemlist, ite_self, Kernel.memlist]

/-- There is nothing to know about an entry that does not exist. -/
theorem owner_new (s : Kernel) : s.owner s.entries.length = none := by
  rw [Kernel.owner, List.getElem?_eq_none (Nat.le_refl _)]
  rfl

theorem listed_new (s : Kernel) : s.listed s.entries.length = false := by
  rw [Kernel.listed, List.getElem?_eq_none (Nat.le_refl _)]
  rfl

/-- A new device has an empty list, and no entry points to it. -/
theorem Linked.probe (h : Linked s) (pdev : PciDev) :
    Linked { s with devices := s.devices ++ [{ pdev := pdev }] } := by
  have hLive : ∀ d, ({ s with devices := s.devices ++ [{ pdev := pdev }] } : Kernel).live d =
      if d = s.devices.length then true else s.live d := by
    intro d
    rw [Kernel.live, getElem?_concat_eq]
    split <;> rfl
  have hMemlist : ∀ d, ({ s with devices := s.devices ++ [{ pdev := pdev }] } :
      Kernel).memlist d = s.memlist d := by
    intro d
    rw [Kernel.memlist, getElem?_concat_eq]
    split
    · rename_i hd
      rw [Kernel.memlist, List.getElem?_eq_none (Nat.le_of_eq hd.symm)]
      rfl
    · rfl
  have hNew : s.live s.devices.length = false := by
    rw [Kernel.live, List.getElem?_eq_none (Nat.le_refl _)]
    rfl
  have hEmpty : s.memlist s.devices.length = [] := by
    rw [Kernel.memlist, List.getElem?_eq_none (Nat.le_refl _)]
    rfl
  refine ⟨fun k d hOwner => ?_, h.listed, fun d k => ?_, fun d => ?_⟩
  · rw [hLive]
    split
    · rfl
    · exact h.owner k d hOwner
  · rw [hLive, hMemlist]
    split
    · rename_i hd
      intro _
      subst hd
      rw [hEmpty]
      refine ⟨nofun, fun hOwner => ?_⟩
      have hFalse := h.owner k _ hOwner
      rw [hNew] at hFalse
      cases hFalse
    · exact h.members d k
  · rw [hLive, hMemlist]
    split
    · rename_i hd
      rw [hd, hEmpty]
      exact fun _ => List.nodup_nil
    · exact h.nodup d

/-- An entry that has been freed is in no list. -/
theorem Linked.failed (h : Linked s) {e : OwnedEntry} (hFreed : e.freed ≠ 0)
    (hListed : e.listed = false) (hEntries : s'.entries = s.entries ++ [e])
    (hDevices : s'.devices = s.devices) : Linked s' := by
  refine h.congr (fun k => ?_) (fun k => ?_) (fun d => ?_) fun d => ?_
  · rw [Kernel.owner, hEntries, getElem?_concat_eq]
    split
    · rename_i hk
      rw [hk, owner_new]
      exact if_neg hFreed
    · rfl
  · rw [Kernel.listed, hEntries, getElem?_concat_eq]
    split
    · rename_i hk
      rw [hk, listed_new]
      exact hListed
    · rfl
  · rw [Kernel.live, hDevices, Kernel.live]
  · rw [Kernel.memlist, hDevices, Kernel.memlist]

/-- A new entry is linked into the list of a device that is there. -/
theorem Linked.mapped (h : Linked s) {d : Nat} {e : OwnedEntry} (hLive : s.live d = true)
    (hFreed : e.freed = 0) (hOwner : e.pgenpciDev = some d) (hListed : e.listed = true)
    (hEntries : s'.entries = s.entries ++ [e])
    (hDevices : s'.devices = s.devices.modify d fun g =>
      { g with memlist := s.entries.length :: g.memlist }) : Linked s' := by
  have hOwner' : ∀ k, s'.owner k = if k = s.entries.length then some d else s.owner k := by
    intro k
    rw [Kernel.owner, hEntries, getElem?_concat_eq]
    split
    · rw [← hOwner]
      exact if_pos hFreed
    · rfl
  have hListed' : ∀ k, s'.listed k = if k = s.entries.length then true else s.listed k := by
    intro k
    rw [Kernel.listed, hEntries, getElem?_concat_eq]
    split
    · exact hListed
    · rfl
  have hLive' : ∀ d', s'.live d' = s.live d' := by
    intro d'
    rw [Kernel.live, hDevices, getElem?_modify_getD]
    exact ite_self _
  have hMemlist' := memlist_push hLive hDevices
  refine ⟨fun k d' => ?_, fun k => ?_, fun d' k => ?_, fun d' => ?_⟩
  · rw [hOwner', hLive']
    split
    · intro hSame
      rw [← Option.some.inj hSame]
      exact hLive
    · exact h.owner k d'
  · simp only [hOwner', hListed']
    split
    · exact ⟨fun _ => ⟨d, rfl⟩, fun _ => rfl⟩
    · exact h.listed k
  · rw [hOwner', hLive', hMemlist']
    intro hLiveD
    by_cases hd : d = d'
    · subst hd
      rw [if_pos rfl, List.mem_cons, h.members d k hLiveD]
      split
      · rename_i hk
        simp [hk]
      · rename_i hk
        simp [hk]
    · rw [if_neg hd, h.members d' k hLiveD]
      split
      · rename_i hk
        rw [hk, owner_new]
        simp [hd]
      · rfl
  · rw [hLive', hMemlist']
    intro hLiveD
    split
    · refine List.nodup_cons.mpr ⟨fun hMem => ?_, h.nodup d' hLiveD⟩
      rw [h.members d' _ hLiveD, owner_new] at hMem
      cases hMem
    · exact h.nodup d' hLiveD

theorem owner_eq {k : Nat} {e : OwnedEntry} (he : s.entries[k]? = some e)
    (hFreed : e.freed = 0) : s.owner k = e.pgenpciDev := by
  rw [Kernel.owner, he]
  exact if_pos hFreed

theorem listed_eq {k : Nat} {e : OwnedEntry} (he : s.entries[k]? = some e) :
    s.listed k = e.listed := by
  rw [Kernel.listed, he]
  rfl

/-- The last VMA is gone: the entry leaves the list it is in. -/
private theorem Linked.closed_last (h : Linked s) {k : Nat} {e : OwnedEntry}
    (he : s.entries[k]? = some e) (hFreed : e.freed = 0) (hLast : e.vmaRefs - 1 = 0) :
    Linked (s.dmaVmaClose k) := by
  have hLt := (List.getElem?_eq_some_iff.mp he).1
  have hOwnerK := owner_eq he hFreed
  have hListedK := h.listed k
  rw [listed_eq he, hOwnerK] at hListedK
  have hOwner' : ∀ k', (s.dmaVmaClose k).owner k' = if k = k' then none else s.owner k' := by
    intro k'
    rw [dmaVmaClose_eq he]
    by_cases hk : k = k'
    · subst hk
      rw [Kernel.owner, List.getElem?_set_self hLt, if_pos rfl, OwnedEntry.close, if_pos hLast]
      exact if_neg (t := e.pgenpciDev) (Nat.succ_ne_zero e.freed)
    · rw [Kernel.owner, List.getElem?_set_ne hk, if_neg hk, Kernel.owner]
  have hListed' : ∀ k', (s.dmaVmaClose k).listed k' =
      if k = k' then false else s.listed k' := by
    intro k'
    rw [dmaVmaClose_eq he]
    by_cases hk : k = k'
    · subst hk
      rw [Kernel.listed, List.getElem?_set_self hLt, if_pos rfl, OwnedEntry.close, if_pos hLast]
      rfl
    · rw [Kernel.listed, List.getElem?_set_ne hk, if_neg hk, Kernel.listed]
  have hDevices : (s.dmaVmaClose k).devices = unlink s.devices e k := by
    rw [dmaVmaClose_eq he]
    cases hOwner : e.pgenpciDev with
    | none =>
        rw [unlink, hOwner]
        exact ite_self _
    | some d => exact if_pos ⟨hLast, hListedK.mpr ⟨d, hOwner⟩⟩
  have hLive' : ∀ d, (s.dmaVmaClose k).live d = s.live d := by
    intro d
    rw [Kernel.live, hDevices, unlink]
    split
    · rfl
    · rw [getElem?_modify_getD]
      exact ite_self _
  have hMemlist' : ∀ d, (s.dmaVmaClose k).memlist d =
      if s.owner k = some d then (s.memlist d).erase k else s.memlist d := by
    intro d
    rw [memlist_unlink hDevices, hOwnerK]
  refine ⟨fun k' d => ?_, fun k' => ?_, fun d k' => ?_, fun d => ?_⟩
  · rw [hOwner', hLive']
    split
    · exact nofun
    · exact h.owner k' d
  · simp only [hOwner', hListed']
    split
    · simp
    · exact h.listed k'
  · rw [hOwner', hLive', hMemlist']
    intro hLive
    by_cases hd : s.owner k = some d
    · rw [if_pos hd, (h.nodup d hLive).mem_erase_iff, h.members d k' hLive]
      by_cases hk : k = k'
      · simp [hk]
      · simp [hk, Ne.symm hk]
    · rw [if_neg hd, h.members d k' hLive]
      by_cases hk : k = k'
      · subst hk
        simp [hd]
      · rw [if_neg hk]
  · rw [hLive', hMemlist']
    intro hLive
    split
    · exact (h.nodup d hLive).erase k
    · exact h.nodup d hLive

theorem Linked.closed (h : Linked s) {k : Nat} {e : OwnedEntry}
    (he : s.entries[k]? = some e) (hFreed : e.freed = 0) : Linked (s.dmaVmaClose k) := by
  by_cases hLast : e.vmaRefs - 1 = 0
  · exact h.closed_last he hFreed hLast
  rw [dmaVmaClose_eq he]
  refine h.entries (if_neg fun hBoth => hLast hBoth.1) fun k' => ?_
  by_cases hk : k = k'
  · subst hk
    refine ⟨fun e => { e with vmaRefs := e.vmaRefs - 1 }, ?_, fun _ => ⟨rfl, rfl, rfl⟩⟩
    rw [he, OwnedEntry.close, if_neg hLast]
    exact List.getElem?_set_self (List.getElem?_eq_some_iff.mp he).1
  · refine ⟨id, ?_, fun _ => ⟨rfl, rfl, rfl⟩⟩
    rw [Option.map_id]
    exact List.getElem?_set_ne hk

/-- `genpci_detach_dma_entries` reaches every entry that points to the device. -/
theorem Linked.removed (h : Linked s) {d : Nat} (hLive : s.live d = true) :
    Linked (s.genpciRemove d) := by
  have hOwner' : ∀ k, (s.genpciRemove d).owner k =
      if s.owner k = some d then none else s.owner k := by
    intro k
    rw [Kernel.owner, Kernel.genpciRemove, getElem?_detach]
    simp only [h.members d k hLive]
    split
    · cases s.entries[k]? with
      | none => rfl
      | some e => simp [OwnedEntry.detach]
    · rfl
  have hListed' : ∀ k, (s.genpciRemove d).listed k =
      if s.owner k = some d then false else s.listed k := by
    intro k
    rw [Kernel.listed, Kernel.genpciRemove, getElem?_detach]
    simp only [h.members d k hLive]
    split
    · cases s.entries[k]? with
      | none => rfl
      | some e => rfl
    · rfl
  have hLive' : ∀ d', (s.genpciRemove d).live d' = if d = d' then false else s.live d' := by
    intro d'
    rw [Kernel.live, Kernel.genpciRemove, getElem?_modify_getD]
    split
    · cases s.devices[d']? <;> rfl
    · rfl
  have hMemlist' : ∀ d', d ≠ d' → (s.genpciRemove d).memlist d' = s.memlist d' := by
    intro d' hd
    rw [Kernel.memlist, Kernel.genpciRemove, getElem?_modify_getD, if_neg hd, Kernel.memlist]
  refine ⟨fun k d' => ?_, fun k => ?_, fun d' k => ?_, fun d' => ?_⟩
  · rw [hOwner', hLive']
    split
    · exact nofun
    · rename_i hOther
      intro hOwner
      rw [if_neg]
      · exact h.owner k d' hOwner
      · rintro rfl
        exact hOther hOwner
  · simp only [hOwner', hListed']
    split
    · simp
    · exact h.listed k
  · rw [hOwner', hLive']
    by_cases hd : d = d'
    · simp [hd]
    · rw [if_neg hd, hMemlist' d' hd]
      intro hLiveD
      rw [h.members d' k hLiveD]
      split
      · rename_i hOwner
        simp [hOwner, hd]
      · rfl
  · rw [hLive']
    by_cases hd : d = d'
    · simp [hd]
    · rw [if_neg hd, hMemlist' d' hd]
      exact h.nodup d'

/-- Callbacks that find their device in place keep lists and pointers together. -/
theorem Linked.step {a : Act} (h : Linked s) (hCounted : Counted s) (hCareful : Careful s a)
    (hStep : step s a = some s') : Linked s' := by
  cases step_cases hStep with
  | probe => exact h.probe _
  | openFile hLive => exact h.devices rfl rfl fun _ => ⟨rfl, rfl⟩
  | closeFile hFile => exact h.devices rfl rfl fun _ => ⟨rfl, rfl⟩
  | @mmap f d start len vmPgoff outcome hPaged hFile =>
      cases outcome with
      | noEntry => exact h
      | noMemory => exact h.failed Nat.one_ne_zero rfl rfl rfl
      | notMapped => exact h.failed Nat.one_ne_zero rfl rfl rfl
      | mapped virtAddr dmaAddr =>
          exact h.mapped (hCareful f d rfl hFile) rfl rfl rfl rfl rfl
  | @ioctl f d cmd hFile =>
      rcases genpciIoctl_cases s d cmd with ⟨-, hSame⟩ | ⟨-, hSame | ⟨k, hMarked⟩⟩
      · rw [hSame]
        exact h
      · rw [hSame]
        exact ⟨h.owner, h.listed, h.members, h.nodup⟩
      · rw [hMarked]
        exact h.modify rfl rfl fun e => ⟨rfl, rfl, rfl⟩
  | vmaOpen hv => exact h.modify rfl rfl fun e => ⟨rfl, rfl, rfl⟩
  | vmaSplit hv hPaged hCut => exact h.modify rfl rfl fun e => ⟨rfl, rfl, rfl⟩
  | @vmaClose i v hv =>
      have hMem := List.mem_of_getElem? hv
      obtain ⟨e, he⟩ := hCounted.entry v hMem
      have hSame : Linked { s with vmas := s.vmas.eraseIdx i } :=
        ⟨h.owner, h.listed, h.members, h.nodup⟩
      exact hSame.closed he (hCounted.freed_eq hMem he)
  | remove hLive => exact h.removed hLive

end Links

/-! ## Runs -/

/-- What holds of the entries in every state. -/
structure LifeCycle (s : Kernel) : Prop where
  refs : ∀ (k : Nat) (e : OwnedEntry), s.entries[k]? = some e → e.vmaRefs = s.vmaCount k
  /-- Everything is given back once, when the last VMA is closed. -/
  balanced : ∀ (k : Nat) (e : OwnedEntry), s.entries[k]? = some e → Balanced e
  listed : ∀ (k : Nat) (e : OwnedEntry), s.entries[k]? = some e →
    (e.listed = true ↔ ∃ d, s.live d = true ∧ k ∈ s.memlist d)
  once : ∀ d k, s.live d = true → k ∈ s.memlist d → (s.memlist d).count k = 1 ∧
    ∀ d', s.live d' = true → k ∈ s.memlist d' → d' = d
  allocated : ∀ d k, s.live d = true → k ∈ s.memlist d →
    ∃ e, s.entries[k]? = some e ∧ e.freed = 0
  reported : ∀ d copied, s.live d = true → s.getMemfinfo d copied = .enoent ∨
    ∃ (k : Nat) (e : OwnedEntry), s.entries[k]? = some e ∧ e.freed = 0 ∧
      e.releaseRequested = false ∧ s.getMemfinfo d copied = if copied then
        .mem { dmaAddr := e.dmaAddr, kernelVirtaddr := e.virtAddr, size := e.size }
      else .efault

section Runs

variable {s : Kernel}

theorem Linked.allocated (h : Linked s) {d k : Nat} (hLive : s.live d = true)
    (hk : k ∈ s.memlist d) : ∃ e, s.entries[k]? = some e ∧ e.freed = 0 := by
  have hOwner := (h.members d k hLive).mp hk
  rw [Kernel.owner, Option.bind_eq_some_iff] at hOwner
  obtain ⟨e, he, hSome⟩ := hOwner
  refine ⟨e, he, ?_⟩
  by_contra hFreed
  rw [if_neg hFreed] at hSome
  cases hSome

theorem LifeCycle.of_linked (hCounted : Counted s) (hLinked : Linked s) : LifeCycle s := by
  refine ⟨hCounted.refs, hCounted.balanced, fun k e he => ?_, fun d k hLive hk => ⟨?_, ?_⟩,
    fun d k => hLinked.allocated, fun d copied hLive => ?_⟩
  · rw [← listed_eq he, hLinked.listed k]
    constructor
    · rintro ⟨d, hOwner⟩
      have hLive := hLinked.owner k d hOwner
      exact ⟨d, hLive, (hLinked.members d k hLive).mpr hOwner⟩
    · rintro ⟨d, hLive, hk⟩
      exact ⟨d, (hLinked.members d k hLive).mp hk⟩
  · exact List.count_eq_one_of_mem (hLinked.nodup d hLive) hk
  · intro d' hLive' hk'
    have hOwner := (hLinked.members d k hLive).mp hk
    rw [(hLinked.members d' k hLive').mp hk'] at hOwner
    exact Option.some.inj hOwner
  · cases hFind : s.reported d with
    | none =>
        left
        rw [Kernel.getMemfinfo, hFind]
    | some k =>
        right
        obtain ⟨e, he, hFreed⟩ := hLinked.allocated hLive (List.mem_of_find?_eq_some hFind)
        have hUnreleased := List.find?_some hFind
        rw [Kernel.unreleased, he, Bool.not_eq_true'] at hUnreleased
        refine ⟨k, e, he, hFreed, hUnreleased, ?_⟩
        simp only [Kernel.getMemfinfo, hFind, he]

theorem counted_init : Counted {} := ⟨nofun, nofun, nofun⟩

theorem linked_init : Linked {} := by
  refine ⟨nofun, fun k => ⟨nofun, ?_⟩, nofun, nofun⟩
  rintro ⟨d, hOwner⟩
  cases hOwner

theorem counted_of_run {ok : Kernel → Act → Prop} {acts : List Act}
    (hRun : Run step ok {} acts s) : Counted s :=
  hRun.invariant counted_init fun _ _ _ h _ hStep => h.step hStep

theorem linked_of_run {acts : List Act} (hRun : Run step Careful {} acts s) : Linked s := by
  have hBoth : Counted s ∧ Linked s :=
    hRun.invariant (I := fun s => Counted s ∧ Linked s) ⟨counted_init, linked_init⟩
      fun _ _ _ h hOk hStep => ⟨h.1.step hStep, h.2.step h.1 hOk hStep⟩
  exact hBoth.2

/-- As long as no file operation is made on a file whose device has been removed. -/
theorem lifeCycle_of_run {acts : List Act} (hRun : Run step Careful {} acts s) :
    LifeCycle s :=
  .of_linked (counted_of_run hRun) (linked_of_run hRun)

end Runs

/-- Map, fork, ask for the release, remove the device, and close both VMAs. -/
def forkAndRemove : List Act :=
  [.probe ⟨0, 1, 0⟩, .openFile 0, .mmap 0 0x7000 0x2000 0 (.mapped 0xffff8000 0x40000),
    .vmaOpen 0 0x7000,
    .ioctl 0 (.releaseMem (some { kernelVirtaddr := 0xffff8000, dmaAddr := 0x40000 })),
    .remove 0, .vmaClose 0, .vmaClose 0]

theorem lifeCycle_of_run_fork :
    ∃ s, Run step Careful {} forkAndRemove s ∧ s.entries.map (·.freed) = [1] ∧
      LifeCycle s := by
  have hEval : (exec step (fun s a => decide (Careful s a)) {} forkAndRemove).any
      (fun s => decide (s.entries.map (·.freed) = [1])) = true := by
    decide +kernel
  obtain ⟨s, hExec, hFreed⟩ := (Option.any_eq_true _ _).mp hEval
  have hRun : Run step Careful {} forkAndRemove s :=
    Run.of_exec (fun _ _ hTest => of_decide_eq_true hTest) hExec
  exact ⟨s, hRun, of_decide_eq_true hFreed, lifeCycle_of_run hRun⟩

/-- The device is removed while a file is open on it, and then memory is mapped. -/
def mapAfterRemove : List Act :=
  [.probe ⟨0, 1, 0⟩, .openFile 0, .remove 0,
    .mmap 0 0x7000 0x2000 0 (.mapped 0xffff8000 0x40000)]

/-- The entry says that it is in a list, but there is no device any more. -/
theorem lifeCycle_mapAfterRemove_false :
    ∃ s, Run step (fun _ _ => True) {} mapAfterRemove s ∧ ¬ LifeCycle s := by
  have hEval : (exec step (fun _ _ => true) {} mapAfterRemove).any (fun s =>
      decide (s.entries.map (·.listed) = [true]) && decide (s.devices.map (·.live) = [false])) =
        true := by
    decide +kernel
  obtain ⟨s, hExec, hState⟩ := (Option.any_eq_true _ _).mp hEval
  obtain ⟨hListed, hLive⟩ := Bool.and_eq_true_iff.mp hState
  refine ⟨s, Run.of_exec (fun _ _ _ => trivial) hExec, fun hCycle => ?_⟩
  have hEntry : (s.entries[0]?).map (·.listed) = some true := by
    rw [← List.getElem?_map, of_decide_eq_true hListed]
    rfl
  obtain ⟨e, he, hTrue⟩ := Option.map_eq_some_iff.mp hEntry
  obtain ⟨d, hAlive, -⟩ := (hCycle.listed 0 e he).mp hTrue
  rw [Kernel.live, ← List.getElem?_map, of_decide_eq_true hLive] at hAlive
  cases d with
  | zero => cases hAlive
  | succ d => cases hAlive

end NewPerf.Driver.Devices
