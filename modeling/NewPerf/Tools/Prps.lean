import NewPerf.Tools.Nvme

/-!
# PRP construction: `setup_prps`

`setup_prps` describes a data buffer to the controller.  A buffer inside one
page is described by PRP1 alone, one that touches two pages by PRP1 and PRP2,
and a longer one by PRP1 and a list of page addresses that PRP2 points to.  The
list is written into the page of `io_prp_list_mem` that belongs to the
submission slot.

The definitions keep the 64-bit arithmetic of the source.  `setupPrps_eq`
restates the result over natural numbers, in terms of the page count the code
computes (`prpPageCount`) and of the first list entry (`alignUpNat`), and every
later proof goes through that equation.
-/

namespace NewPerf.Tools

open NewPerf.Lib.LeMemory

/-- `nvme_page_offset` -/
def nvmePageOffset (addr : UInt64) : UInt64 := addr &&& nvmePageMask

/-- `nvme_page_align_up` -/
def nvmePageAlignUp (addr : UInt64) : UInt64 :=
  (addr + nvmePageMask) &&& ~~~nvmePageMask

/-- The loop of `setup_prps`: `remaining_pages` entries, eight bytes apart,
starting at byte offset `list` of `io_prp_list_mem`. -/
def prpListLoop (list : Nat) (nextPage : UInt64) : Nat → List Store
  | 0 => []
  | remainingPages + 1 =>
      ⟨list, nvmePrpListEntrySize, nextPage.toNat⟩ ::
        prpListLoop (list + nvmePrpListEntrySize) (nextPage + nvmePageSize)
          remainingPages

/-- What `setup_prps` produces: the two pointers and the stores it performs
into `io_prp_list_mem`. -/
structure Prps where
  prp1 : UInt64
  prp2 : UInt64
  listStores : List Store

/-- `setup_prps` -/
def setupPrps (n : NvmeData) (sqSlot : UInt32) (dmaAddr transferSize : UInt64) :
    Prps :=
  let offset := nvmePageOffset dmaAddr
  let totalSize := offset + transferSize
  let pageCount := (totalSize + nvmePageMask) >>> nvmePageShift
  if pageCount = 1 then ⟨dmaAddr, 0, []⟩
  else
    let nextPage := nvmePageAlignUp dmaAddr
    if pageCount = 2 then ⟨dmaAddr, nextPage, []⟩
    else
      let remainingPages := pageCount - 1
      let listOffset := sqSlot.toUInt64 <<< nvmePageShift
      ⟨dmaAddr, n.ioPrpListPhysAddr + listOffset,
        prpListLoop listOffset.toNat nextPage remainingPages.toNat⟩

/-! ## The rounding arithmetic over natural numbers -/

theorem toNat_nvmePageOffset (addr : UInt64) :
    (nvmePageOffset addr).toNat = addr.toNat % 4096 := by
  have hMask : nvmePageMask.toNat = 2 ^ 12 - 1 := by decide
  rw [nvmePageOffset, UInt64.toNat_and, hMask, Nat.and_two_pow_sub_one_eq_mod]

/-- Clearing the low twelve bits rounds down to a page boundary. -/
theorem toNat_and_not_nvmePageMask (addr : UInt64) :
    (addr &&& ~~~nvmePageMask).toNat = addr.toNat / 4096 * 4096 := by
  have hMask : (~~~nvmePageMask).toNat = (2 ^ 52 - 1) <<< 12 := by decide
  calc (addr &&& ~~~nvmePageMask).toNat
      = addr.toNat &&& (2 ^ 52 - 1) <<< 12 := by rw [UInt64.toNat_and, hMask]
    _ = addr.toNat / 2 ^ 12 * 2 ^ 12 := and_highMask addr.toNat_lt
    _ = addr.toNat / 4096 * 4096 := rfl

/-- The page boundary `nvme_page_align_up` computes, as a number: an address
that is already on a boundary is its own. -/
def alignUpNat (addr : Nat) : Nat := (addr + 4095) % 2 ^ 64 / 4096 * 4096

theorem toNat_nvmePageAlignUp (addr : UInt64) :
    (nvmePageAlignUp addr).toNat = alignUpNat addr.toNat := by
  have hMask : nvmePageMask.toNat = 4095 := by decide
  rw [nvmePageAlignUp, toNat_and_not_nvmePageMask, UInt64.toNat_add, hMask,
    alignUpNat]

/-- The page count `setup_prps` computes for `size` bytes at `addr`, with its
64-bit wrap-around. -/
def prpPageCount (addr size : Nat) : Nat :=
  (addr % 4096 + size + 4095) % 2 ^ 64 / 4096

theorem prpPageCount_lt (addr size : Nat) : prpPageCount addr size < 2 ^ 52 := by
  unfold prpPageCount
  omega

private theorem toNat_pageCount (dmaAddr transferSize : UInt64) :
    ((nvmePageOffset dmaAddr + transferSize + nvmePageMask) >>>
        nvmePageShift).toNat = prpPageCount dmaAddr.toNat transferSize.toNat := by
  have hMask : nvmePageMask.toNat = 4095 := by decide
  have hShift : nvmePageShift.toNat % 64 = 12 := by decide
  rw [UInt64.toNat_shiftRight, UInt64.toNat_add, UInt64.toNat_add, hMask, hShift,
    toNat_nvmePageOffset, Nat.shiftRight_eq_div_pow, prpPageCount, Nat.mod_add_mod]

/-- Byte offset of a slot's page inside `io_prp_list_mem`. -/
theorem toNat_slotPage (sqSlot : UInt32) :
    (sqSlot.toUInt64 <<< nvmePageShift).toNat = 4096 * sqSlot.toNat := by
  have hShift : nvmePageShift.toNat % 64 = 12 := by decide
  have hSlot : sqSlot.toNat < 2 ^ 32 := sqSlot.toNat_lt
  rw [UInt64.toNat_shiftLeft, UInt32.toNat_toUInt64, hShift, Nat.shiftLeft_eq]
  omega

/-- `setup_prps` by page count.  A count of zero, which only a wrapped sum
produces, falls into the list branch with `2 ^ 64 - 1` remaining pages. -/
theorem setupPrps_eq (n : NvmeData) (sqSlot : UInt32)
    (dmaAddr transferSize : UInt64) :
    setupPrps n sqSlot dmaAddr transferSize =
      if prpPageCount dmaAddr.toNat transferSize.toNat = 1 then ⟨dmaAddr, 0, []⟩
      else if prpPageCount dmaAddr.toNat transferSize.toNat = 2 then
        ⟨dmaAddr, nvmePageAlignUp dmaAddr, []⟩
      else
        ⟨dmaAddr, n.ioPrpListPhysAddr + (sqSlot.toUInt64 <<< nvmePageShift),
          prpListLoop (4096 * sqSlot.toNat) (nvmePageAlignUp dmaAddr)
            ((prpPageCount dmaAddr.toNat transferSize.toNat + (2 ^ 64 - 1)) %
              2 ^ 64)⟩ := by
  have hCount := toNat_pageCount dmaAddr transferSize
  have hOne : (nvmePageOffset dmaAddr + transferSize + nvmePageMask) >>>
      nvmePageShift = 1 ↔ prpPageCount dmaAddr.toNat transferSize.toNat = 1 := by
    rw [← hCount, ← UInt64.toNat_inj]
    rfl
  have hTwo : (nvmePageOffset dmaAddr + transferSize + nvmePageMask) >>>
      nvmePageShift = 2 ↔ prpPageCount dmaAddr.toNat transferSize.toNat = 2 := by
    rw [← hCount, ← UInt64.toNat_inj]
    rfl
  have hRemaining : ((nvmePageOffset dmaAddr + transferSize + nvmePageMask) >>>
      nvmePageShift - 1).toNat =
        (prpPageCount dmaAddr.toNat transferSize.toNat + (2 ^ 64 - 1)) % 2 ^ 64 := by
    rw [UInt64.toNat_sub, hCount, UInt64.toNat_one, Nat.add_comm]
  simp only [setupPrps, hOne, hTwo, hRemaining, toNat_slotPage]

/-! ## The list-writing loop -/

theorem mem_prpListLoop {s : Store} {list remaining : Nat} {nextPage : UInt64}
    (h : s ∈ prpListLoop list nextPage remaining) :
    ∃ k, k < remaining ∧ s.off = list + 8 * k ∧ s.width = 8 := by
  induction remaining generalizing list nextPage with
  | zero => simp [prpListLoop] at h
  | succ remaining ih =>
      simp only [prpListLoop, nvmePrpListEntrySize, List.mem_cons] at h
      rcases h with rfl | hTail
      · exact ⟨0, by omega, by simp, rfl⟩
      · obtain ⟨k, hk, hOff, hWidth⟩ := ih hTail
        exact ⟨k + 1, by omega, by omega, hWidth⟩

/-- The loop fills eight bytes an iteration. -/
theorem tiles_prpListLoop (list remaining : Nat) (nextPage : UInt64) :
    Tiles (prpListLoop list nextPage remaining) list (8 * remaining) := by
  induction remaining generalizing list nextPage with
  | zero => exact .nil
  | succ remaining ih =>
      rw [show 8 * (remaining + 1) = 8 + 8 * remaining by omega]
      exact .cons (s := ⟨list, 8, nextPage.toNat⟩) (by simp) (ih _ _)

/-- Number of bytes of list that `setup_prps` writes for `size` bytes at `addr`:
none for one or two pages, else eight for every page after the first. -/
def prpListBytes (addr size : Nat) : Nat :=
  if prpPageCount addr size = 1 ∨ prpPageCount addr size = 2 then 0
  else 8 * ((prpPageCount addr size + (2 ^ 64 - 1)) % 2 ^ 64)

theorem tiles_setupPrps (n : NvmeData) (sqSlot : UInt32)
    (dmaAddr transferSize : UInt64) :
    Tiles (setupPrps n sqSlot dmaAddr transferSize).listStores
      (4096 * sqSlot.toNat) (prpListBytes dmaAddr.toNat transferSize.toNat) := by
  rw [setupPrps_eq, prpListBytes]
  generalize prpPageCount dmaAddr.toNat transferSize.toNat = pages
  by_cases hOne : pages = 1
  · rw [if_pos hOne, if_pos (Or.inl hOne)]
    exact .nil
  · by_cases hTwo : pages = 2
    · rw [if_neg hOne, if_pos hTwo, if_pos (Or.inr hTwo)]
      exact .nil
    · rw [if_neg hOne, if_neg hTwo, if_neg (by omega)]
      generalize (pages + (2 ^ 64 - 1)) % 2 ^ 64 = remaining
      exact tiles_prpListLoop _ _ _

/-- The list fits one page unless the transfer has more than 513 pages (or a
length so large that the page count wraps to zero). -/
theorem prpListBytes_le_iff (addr size : Nat) :
    prpListBytes addr size ≤ 4096 ↔
      1 ≤ prpPageCount addr size ∧ prpPageCount addr size ≤ 513 := by
  have hLt := prpPageCount_lt addr size
  unfold prpListBytes
  generalize prpPageCount addr size = pages at hLt ⊢
  split <;> omega

theorem toNat_add_pages (nextPage : UInt64) (k : Nat) :
    ((nextPage + nvmePageSize).toNat + 4096 * k) % 2 ^ 64 =
      (nextPage.toNat + 4096 * (k + 1)) % 2 ^ 64 := by
  have hPage : nvmePageSize.toNat = 4096 := by decide
  rw [UInt64.toNat_add, hPage, Nat.mod_add_mod]
  congr 1
  omega

/-- The list as the controller reads it back: entry `k` is the `k`-th page
after the first one. -/
theorem read_prpListLoop (list remaining k : Nat) (nextPage : UInt64)
    (m : Bytes) (hk : k < remaining) :
    read (applyAll (prpListLoop list nextPage remaining) m) (list + 8 * k) 8 =
      (nextPage.toNat + 4096 * k) % 2 ^ 64 := by
  induction remaining generalizing list nextPage k m with
  | zero => omega
  | succ remaining ih =>
      simp only [prpListLoop, nvmePrpListEntrySize, applyAll_cons]
      cases k with
      | zero =>
          -- The later entries lie above, so the first store is what is read.
          have hOutside : ∀ s ∈ prpListLoop (list + 8)
              (nextPage + nvmePageSize) remaining,
              s.off + s.width ≤ list ∨ list + 8 ≤ s.off := by
            intro s hs
            obtain ⟨k, _, hOff, _⟩ := mem_prpListLoop hs
            omega
          have hRead := read_apply_self ⟨list, 8, nextPage.toNat⟩ m
          simp only [Nat.mul_zero, Nat.add_zero]
          rw [read_congr _ _ list 8
            (applyAll_of_outside _ _ list (list + 8) hOutside)]
          exact hRead
      | succ k =>
          have hIh := ih (list + 8) k (nextPage + nvmePageSize)
            (Store.apply ⟨list, 8, nextPage.toNat⟩ m) (by omega)
          rw [show list + 8 * (k + 1) = list + 8 + 8 * k by omega, hIh]
          exact toNat_add_pages nextPage k

end NewPerf.Tools
