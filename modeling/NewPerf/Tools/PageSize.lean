import NewPerf.Tools.Capabilities
import NewPerf.Tools.Prps

/-!
# The page size of the controller and of the host

`controller_init` tells the controller in CC.MPS which page size to use, and takes the
smallest one CAP allows.  `setup_prps` and `create_io_queue_pair` use pages of
`NVME_PAGE_SIZE` bytes.  `hostPageSize_iff` says when the two are the same.
-/

namespace NewPerf.Tools

open NewPerf.Lib.Programs
open NewPerf.Lib.LeMemory

/-- The field MPS of CC. -/
def ccMps (cc : UInt32) : UInt32 := (cc >>> 7) &&& 0xf

/-- The page size a value of CC selects. -/
def controllerPageSize (cc : UInt32) : Nat := 2 ^ (12 + (ccMps cc).toNat)

/-- The host builds PRPs for pages of `size` bytes. -/
structure HostPageSize (size : Nat) : Prop where
  /-- From one list entry of `setup_prps` to the next. -/
  step : ∀ n sqSlot dmaAddr transferSize (k : Nat) (s s' : Store),
    (setupPrps n sqSlot dmaAddr transferSize).listStores[k]? = some s →
    (setupPrps n sqSlot dmaAddr transferSize).listStores[k + 1]? = some s' →
    s'.value = (s.value + size) % 2 ^ 64
  /-- List entries are page addresses. -/
  entry : ∀ n sqSlot dmaAddr transferSize,
    ∀ s ∈ (setupPrps n sqSlot dmaAddr transferSize).listStores, s.value % size = 0
  /-- So is the second pointer to a buffer of two pages. -/
  second : ∀ n sqSlot dmaAddr transferSize,
    prpPageCount dmaAddr.toNat transferSize.toNat = 2 →
    (setupPrps n sqSlot dmaAddr transferSize).prp2.toNat % size = 0
  /-- Each submission slot has a page for its list. -/
  list : ∀ n sqSlot dmaAddr transferSize,
    3 ≤ prpPageCount dmaAddr.toNat transferSize.toNat →
    (setupPrps n sqSlot dmaAddr transferSize).prp2.toNat =
      (n.ioPrpListPhysAddr.toNat + size * sqSlot.toNat) % 2 ^ 64
  /-- `create_io_queue_pair` allocates these pages. -/
  room : ∀ ioSqDepth, (ioPrpListSize ioSqDepth).toNat = size * ioSqDepth.toNat

/-! ## The host -/

theorem getElem?_prpListLoop (list : Nat) (nextPage : UInt64) (remaining k : Nat) :
    (prpListLoop list nextPage remaining)[k]? =
      if k < remaining then
        some ⟨list + 8 * k, 8, (nextPage.toNat + 4096 * k) % 2 ^ 64⟩
      else none := by
  induction remaining generalizing list nextPage k with
  | zero => simp [prpListLoop]
  | succ remaining ih =>
      cases k with
      | zero =>
          have hLt := nextPage.toNat_lt
          simp only [prpListLoop, List.getElem?_cons_zero, nvmePrpListEntrySize,
            Nat.mul_zero, Nat.add_zero, Nat.mod_eq_of_lt hLt, Nat.zero_lt_succ, if_true]
      | succ k =>
          simp only [prpListLoop, List.getElem?_cons_succ, nvmePrpListEntrySize,
            Nat.add_lt_add_iff_right]
          rw [ih, toNat_add_pages, show list + 8 + 8 * k = list + 8 * (k + 1) by omega]

theorem alignUpNat_mod (addr : Nat) : alignUpNat addr % 4096 = 0 := Nat.mul_mod_left _ _

/-- In the list branch of `setup_prps`. -/
theorem setupPrps_list (n : NvmeData) (sqSlot : UInt32) (dmaAddr transferSize : UInt64)
    (hOne : prpPageCount dmaAddr.toNat transferSize.toNat ≠ 1)
    (hTwo : prpPageCount dmaAddr.toNat transferSize.toNat ≠ 2) :
    ∃ remaining, setupPrps n sqSlot dmaAddr transferSize =
      ⟨dmaAddr, n.ioPrpListPhysAddr + (sqSlot.toUInt64 <<< nvmePageShift),
        prpListLoop (4096 * sqSlot.toNat) (nvmePageAlignUp dmaAddr) remaining⟩ :=
  ⟨_, by rw [setupPrps_eq, if_neg hOne, if_neg hTwo]⟩

/-- The `k`-th list entry is `k` pages after the first page boundary in the buffer. -/
theorem value_listStores {n : NvmeData} {sqSlot : UInt32} {dmaAddr transferSize : UInt64}
    {k : Nat} {s : Store}
    (h : (setupPrps n sqSlot dmaAddr transferSize).listStores[k]? = some s) :
    s.value = (alignUpNat dmaAddr.toNat + 4096 * k) % 2 ^ 64 := by
  by_cases hOne : prpPageCount dmaAddr.toNat transferSize.toNat = 1
  · rw [setupPrps_eq, if_pos hOne] at h
    cases h
  by_cases hTwo : prpPageCount dmaAddr.toNat transferSize.toNat = 2
  · rw [setupPrps_eq, if_neg hOne, if_pos hTwo] at h
    cases h
  obtain ⟨remaining, hEq⟩ := setupPrps_list n sqSlot dmaAddr transferSize hOne hTwo
  rw [hEq, getElem?_prpListLoop] at h
  split at h
  · rw [← Option.some.inj h, toNat_nvmePageAlignUp]
  · cases h

/-- The page size of the host is `NVME_PAGE_SIZE`. -/
theorem hostPageSize : HostPageSize 4096 where
  step n sqSlot dmaAddr transferSize k s s' hs hs' := by
    rw [value_listStores hs, value_listStores hs', Nat.mod_add_mod, Nat.add_assoc]
    rfl
  entry n sqSlot dmaAddr transferSize s hs := by
    obtain ⟨k, hk⟩ := List.getElem?_of_mem hs
    have hAligned := alignUpNat_mod dmaAddr.toNat
    rw [value_listStores hk]
    omega
  second n sqSlot dmaAddr transferSize hTwo := by
    rw [setupPrps_eq, if_neg (by omega), if_pos hTwo, toNat_nvmePageAlignUp]
    exact alignUpNat_mod _
  list n sqSlot dmaAddr transferSize hMany := by
    obtain ⟨remaining, hEq⟩ :=
      setupPrps_list n sqSlot dmaAddr transferSize (by omega) (by omega)
    rw [hEq, UInt64.toNat_add, toNat_slotPage]
  room ioSqDepth := by
    have hLt := ioSqDepth.toNat_lt
    have hPage : nvmePageSize.toNat = 4096 := by decide
    rw [ioPrpListSize, UInt64.toNat_mul, UInt32.toNat_toUInt64, hPage, Nat.mod_eq_of_lt]
    omega

theorem HostPageSize.unique {size : Nat} (h : HostPageSize size) : size = 4096 := by
  have hOurs := hostPageSize.room 1
  have hTheirs := h.room 1
  rw [hOurs, show (1 : UInt32).toNat = 1 from rfl] at hTheirs
  omega

/-! ## The controller -/

theorem capMpsmin_lt (cap : UInt64) : (capMpsmin cap).toNat < 16 := by
  have hAnd : ((cap >>> 48) &&& 0xf).toNat < 16 := by
    rw [UInt64.toNat_and]
    exact Nat.lt_of_le_of_lt Nat.and_le_right (by decide)
  rw [capMpsmin, UInt64.toNat_toUInt32]
  exact Nat.lt_of_le_of_lt (Nat.mod_le _ _) hAnd

/-- The smallest page size CAP allows is what `controller_init` writes to CC. -/
theorem ccMps_enableConfiguration (cap : UInt64) :
    ccMps (enableConfiguration cap) = capMpsmin cap := by
  have hLt := capMpsmin_lt cap
  have hAll : ∀ j : Fin 16, ccMps ((UInt32.ofNat j <<< 7) ||| ((6 : UInt32) <<< 16) |||
      ((4 : UInt32) <<< 20) ||| nvmeCcEn) = UInt32.ofNat j := by decide
  rw [enableConfiguration, ← UInt32.ofNat_toNat (x := capMpsmin cap)]
  exact hAll ⟨_, hLt⟩

/-- On every controller that `controller_init` has enabled, the page size it was told to
use is the one the host builds PRPs for exactly when CAP.MPSMIN is 0. -/
theorem hostPageSize_iff {c c' : ControllerData} {m m' : Hardware}
    (h : Returns hardware (fun _ _ => True) (controllerInit c) m (true, c') m') :
    HostPageSize (controllerPageSize m'.cc) ↔ capMpsmin m.cap = 0 := by
  obtain ⟨-, -, hCc⟩ := configured_of_controllerInit h
  rw [hCc, controllerPageSize, ccMps_enableConfiguration]
  constructor
  · intro hHost
    have hPow : 2 ^ (12 + (capMpsmin m.cap).toNat) = 2 ^ 12 := hHost.unique
    have hExp := (Nat.pow_right_inj (by decide)).mp hPow
    exact UInt32.toNat_inj.mp (show _ = 0 by omega)
  · intro hZero
    rw [hZero]
    exact hostPageSize

/-- A page for an admin queue. -/
def queuePage (k : UInt64) : Mem :=
  { fd := 3, kernelVirtaddr := 0x10000 + 4096 * k, userVirtaddr := 0x20000 + 4096 * k
    dmaAddr := 0x30000 + 4096 * k, size := 4096 }

private theorem returns_of_eval (cap : UInt64) (size : Nat)
    (h : ((controllerInit { bus := 5, nsid := 1 }).exec hardware (fun _ _ => true) { cap }
      (initAnswers cap (queuePage 0) (queuePage 1))).any
        (fun r => r.1.1 && decide (controllerPageSize r.2.cc = size)) = true) :
    ∃ c m, Returns hardware (fun _ _ => True) (controllerInit { bus := 5, nsid := 1 })
        { cap } (true, c) m ∧
      controllerPageSize m.cc = size := by
  obtain ⟨⟨⟨done, c⟩, m⟩, hExec, hState⟩ := (Option.any_eq_true _ _).mp h
  obtain ⟨rfl, hSize⟩ := Bool.and_eq_true_iff.mp hState
  exact ⟨c, m, Returns.of_exec (fun _ _ _ => trivial) hExec, of_decide_eq_true hSize⟩

/-- With MPSMIN = 0 both sides use pages of 4 KiB. -/
theorem hostPageSize_iff_minimal :
    ∃ c m, Returns hardware (fun _ _ => True) (controllerInit { bus := 5, nsid := 1 })
        { cap := 0x010003ff } (true, c) m ∧
      controllerPageSize m.cc = 4096 ∧ HostPageSize (controllerPageSize m.cc) := by
  obtain ⟨c, m, hInit, hSize⟩ :=
    returns_of_eval 0x010003ff 4096 (by decide +kernel)
  exact ⟨c, m, hInit, hSize, (hostPageSize_iff hInit).mpr (by decide)⟩

/-- With MPSMIN = 1 the controller is told to use pages of 8 KiB. -/
theorem hostPageSize_large_false :
    ∃ c m, Returns hardware (fun _ _ => True) (controllerInit { bus := 5, nsid := 1 })
        { cap := 0x00010000010003ff } (true, c) m ∧
      controllerPageSize m.cc = 8192 ∧ ¬ HostPageSize (controllerPageSize m.cc) := by
  obtain ⟨c, m, hInit, hSize⟩ :=
    returns_of_eval 0x00010000010003ff 8192 (by decide +kernel)
  refine ⟨c, m, hInit, hSize, fun hHost => ?_⟩
  have hSame := hHost.unique
  omega

end NewPerf.Tools
