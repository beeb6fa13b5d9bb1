import NewPerf.Tools.AdminTraces

/-!
# The size of the namespace

`nvme_get_file_size` takes the number of blocks and their size from the Identify data
and stores the product, shifted into 64 bits.  It refuses a shift of 64 or more, but a
product that does not fit is cut off, and one that is cut down to zero is stored before
it is returned as a failure.  The Identify buffer is released on every path.

Whatever the hardware answers is possible here: the results are about traces of the
program (`Traced`), and the Identify data is what the trace says was read.
-/

namespace NewPerf.Tools

open NewPerf.Lib.LeMemory
open NewPerf.Lib.Programs

/-! ## Decoding -/

private theorem toNat_nextByte {p : Bytes} {x : UInt64} {k : Nat} (hx : x.toNat = read p 0 k)
    (hk : k < 8) (shift : UInt64) (hShift : shift.toNat = 8 * k) :
    (x ||| (p k).toUInt64 <<< shift).toNat = read p 0 (k + 1) := by
  have hByte := (p k).toNat_lt
  have hLow := read_lt p 0 k
  have hPow : (256 : Nat) ^ k = 2 ^ (8 * k) := by
    rw [Nat.pow_mul]
  have hTop : (p k).toNat * 2 ^ (8 * k) < 2 ^ 64 := by
    calc (p k).toNat * 2 ^ (8 * k) < 2 ^ 8 * 2 ^ (8 * k) :=
          Nat.mul_lt_mul_of_pos_right hByte (Nat.two_pow_pos _)
      _ = 2 ^ (8 + 8 * k) := (Nat.pow_add 2 8 (8 * k)).symm
      _ ≤ 2 ^ 64 := Nat.pow_le_pow_right (by decide) (by omega)
  rw [UInt64.toNat_or, UInt64.toNat_shiftLeft, UInt8.toNat_toUInt64, hShift,
    Nat.mod_eq_of_lt (show 8 * k < 64 by omega), Nat.shiftLeft_eq, Nat.mod_eq_of_lt hTop, hx,
    Nat.or_comm, ← Nat.shiftLeft_eq, ← Nat.shiftLeft_add_eq_or_of_lt (by rw [← hPow]; exact hLow),
    read_add, Nat.zero_add, Nat.shiftLeft_eq, ← hPow]
  simp only [NewPerf.Lib.LeMemory.read]
  rw [Nat.mul_zero, Nat.add_zero, Nat.mul_comm, Nat.add_comm]

/-- `load_le64` reads a little-endian number. -/
theorem toNat_loadLe64 (p : Bytes) : (loadLe64 p).toNat = read p 0 8 := by
  have h₁ : (p 0).toUInt64.toNat = read p 0 1 := by simp [NewPerf.Lib.LeMemory.read]
  have h₂ := toNat_nextByte h₁ (by decide) 8 rfl
  have h₃ := toNat_nextByte h₂ (by decide) 16 rfl
  have h₄ := toNat_nextByte h₃ (by decide) 24 rfl
  have h₅ := toNat_nextByte h₄ (by decide) 32 rfl
  have h₆ := toNat_nextByte h₅ (by decide) 40 rfl
  have h₇ := toNat_nextByte h₆ (by decide) 48 rfl
  exact toNat_nextByte h₇ (by decide) 56 rfl

/-- NSZE, the number of blocks: the first eight bytes of the Identify data. -/
def identifyNsze (data : Bytes) : Nat := read data 0 8

/-- LBADS of the format in use, the binary logarithm of the block size. -/
def identifyLbads (data : Bytes) : Nat := (identifyLbaShift data).toNat

/-- The size in bytes as it is stored, `nsze << lba_shift` in 64 bits. -/
def storedSize (data : Bytes) : UInt64 := loadLe64 data <<< (identifyLbaShift data).toUInt64

theorem toNat_storedSize {data : Bytes} (hShift : identifyLbads data < 64) :
    (storedSize data).toNat = identifyNsze data * 2 ^ identifyLbads data % 2 ^ 64 := by
  have hAmount : (identifyLbaShift data).toUInt64.toNat = identifyLbads data :=
    UInt8.toNat_toUInt64 _
  rw [storedSize, UInt64.toNat_shiftLeft, hAmount, Nat.mod_eq_of_lt hShift, Nat.shiftLeft_eq,
    toNat_loadLe64, identifyNsze]

/-- What `nvme_get_file_size` makes of the data: the value it returns and the structure it
leaves. -/
def decodeFileSize (c : ControllerData) (data : Bytes) : UInt64 × ControllerData :=
  if h : identifyLbads data < 64 then
    (storedSize data, { c with lbaShift := ⟨identifyLbads data, h⟩, size := storedSize data })
  else (0, c)

theorem decodeFileSize_of_lt {c : ControllerData} {data : Bytes}
    (h : identifyLbads data < 64) :
    decodeFileSize c data =
      (storedSize data,
        { c with lbaShift := ⟨identifyLbads data, h⟩, size := storedSize data }) :=
  dif_pos h

theorem decodeFileSize_of_ge {c : ControllerData} {data : Bytes}
    (h : 64 ≤ identifyLbads data) : decodeFileSize c data = (0, c) :=
  dif_neg (Nat.not_lt.mpr h)

/-! ## `nvme_get_file_size` -/

/-- How a call ends: without having read the data, or with what the data says. -/
inductive SizeOutcome (c : ControllerData) (t : Trace Effect.Result) :
    UInt64 × ControllerData → Prop where
  | failed {c' : ControllerData} (hData : dataReadIn t = []) (hSetup : SameSetup c c') :
      SizeOutcome c t (0, c')
  | decoded {c' : ControllerData} {data : Bytes} (hData : dataReadIn t = [data])
      (hSetup : SameSetup c c') : SizeOutcome c t (decodeFileSize c' data)

/-- Nothing of interest has happened before. -/
theorem SizeOutcome.after {c c' : ControllerData} {t t' : Trace Effect.Result}
    {r : UInt64 × ControllerData} (h : SizeOutcome c' t' r) (hData : dataReadIn t = [])
    (hSetup : SameSetup c c') : SizeOutcome c (t ++ t') r := by
  have hAll : dataReadIn (t ++ t') = dataReadIn t' := by
    rw [dataReadIn_append, hData, List.nil_append]
  cases h with
  | failed hRest hSame => exact .failed (hAll.trans hRest) (hSetup.trans hSame)
  | decoded hRest hSame => exact .decoded (hAll.trans hRest) (hSetup.trans hSame)

/-- The call has released `mem`, and allocated nothing else. -/
def Returned (mem : Mem) (t : Trace Effect.Result) : Prop :=
  allocatedIn t = [] ∧ mem ∈ releasedIn t

theorem Returned.after {mem : Mem} {t t' : Trace Effect.Result} (h : Returned mem t')
    (hAlloc : allocatedIn t = []) : Returned mem (t ++ t') := by
  constructor
  · rw [allocatedIn_append, hAlloc, h.1]
    rfl
  · rw [releasedIn_append]
    exact List.mem_append_right _ h.2

/-- The exit that releases the buffer. -/
private theorem tells_giveBack {identify : Mem} (hReal : identify.IsReal)
    (size : UInt64) (c' : ControllerData) :
    (freeDma identify >>= fun _ => (pure (size, c') : Admin (UInt64 × ControllerData))).Tells
      fun t r => Returned identify t ∧ dataReadIn t = [] ∧ r = (size, c') := by
  refine (tells_freeDma hReal).bind fun t _ hFreed => ?_
  show Returned identify (t ++ []) ∧ dataReadIn (t ++ []) = [] ∧ (size, c') = (size, c')
  rw [List.append_nil]
  refine ⟨⟨hFreed.allocated, ?_⟩, hFreed.dataRead, rfl⟩
  rw [hFreed.released]
  exact List.mem_singleton_self identify

theorem tells_readFileSize (c : ControllerData) {identify : Mem} (hReal : identify.IsReal) :
    (readFileSize c identify).Tells fun t r => Returned identify t ∧ SizeOutcome c t r := by
  intro data
  -- The trace so far, followed by one in which no more data is read.
  have hDecoded : ∀ t t' : Trace Effect.Result, dataReadIn t = [] → dataReadIn t' = [] →
      SizeOutcome c (⟨.readData identify, data⟩ :: (t ++ t')) (decodeFileSize c data) := by
    intro t t' hFirst hRest
    refine .decoded ?_ (SameSetup.refl c)
    show [data] ++ dataReadIn (t ++ t') = [data]
    rw [dataReadIn_append, hFirst, hRest]
    rfl
  show Prog.Tells _ (dite _ _ _)
  split
  · rename_i hShift
    refine (tells_giveBack hReal (storedSize data) _).mono fun t r ⟨hReturned, hData, hr⟩ => ?_
    refine ⟨hReturned.after (t := [⟨.readData identify, data⟩]) rfl, ?_⟩
    have hEq : r = decodeFileSize c data := by
      rw [hr, decodeFileSize_of_lt hShift]
      rfl
    rw [hEq]
    exact hDecoded [] t rfl hData
  · rename_i hShift
    refine (tells_channel (only_channel (only_printErrno _))).bind fun t₁ _ ⟨hQuiet, _⟩ => ?_
    refine (tells_giveBack hReal 0 c).mono fun t r ⟨hReturned, hData, hr⟩ => ?_
    refine ⟨(hReturned.after hQuiet.1).after (t := [⟨.readData identify, data⟩]) rfl, ?_⟩
    have hEq : r = decodeFileSize c data := by
      rw [hr, decodeFileSize_of_ge (Nat.not_lt.mp hShift)]
    rw [hEq]
    exact hDecoded t₁ t hQuiet.2 hData

theorem tells_identifyFileSize (c : ControllerData) {identify : Mem} (hReal : identify.IsReal) :
    (identifyFileSize c identify).Tells fun t r => Returned identify t ∧ SizeOutcome c t r := by
  intro _
  -- What is done before the data is read allocates nothing and reads nothing.
  have hAfter : ∀ {c' : ControllerData} {t t' : Trace Effect.Result} {r : UInt64 × ControllerData},
      Uneventful t → SameSetup c c' → Returned identify t' ∧ SizeOutcome c' t' r →
      Returned identify (⟨.zeroDma identify, ()⟩ :: (t ++ t')) ∧
        SizeOutcome c (⟨.zeroDma identify, ()⟩ :: (t ++ t')) r := by
    intro c' t t' r hQuiet hSetup hRest
    exact ⟨(hRest.1.after hQuiet.1).after (t := [⟨.zeroDma identify, ()⟩]) rfl,
      (hRest.2.after hQuiet.2 hSetup).after (t := [⟨.zeroDma identify, ()⟩]) rfl
        (SameSetup.refl c)⟩
  refine (tells_channel (channel_submitCommand { c with adminCmdId := c.adminCmdId + 1 } _)).bind
    fun t₁ ⟨submitted, c₁⟩ ⟨hQuiet₁, hSetup₁⟩ => ?_
  cases submitted with
  | false =>
      refine (tells_giveBack hReal 0 c₁).mono fun t r ⟨hReturned, hData, hr⟩ => ?_
      rw [hr]
      exact hAfter hQuiet₁ hSetup₁ ⟨hReturned, .failed hData (SameSetup.refl c₁)⟩
  | true =>
      refine (tells_channel (channel_waitAdminCompletion c₁ _ _)).bind
        fun t₂ ⟨completed, c₂⟩ ⟨hQuiet₂, hSetup₂⟩ => ?_
      have hRest : ∀ {t : Trace Effect.Result} {r : UInt64 × ControllerData},
          Returned identify t ∧ SizeOutcome c₂ t r →
          Returned identify (t₂ ++ t) ∧ SizeOutcome c₁ (t₂ ++ t) r :=
        fun h => ⟨h.1.after hQuiet₂.1, h.2.after hQuiet₂.2 hSetup₂⟩
      cases completed with
      | false =>
          refine (tells_giveBack hReal 0 c₂).mono fun t r ⟨hReturned, hData, hr⟩ => ?_
          rw [hr]
          exact hAfter hQuiet₁ hSetup₁
            (hRest ⟨hReturned, .failed hData (SameSetup.refl c₂)⟩)
      | true =>
          exact (tells_readFileSize c₂ hReal).mono fun t r hBoth =>
            hAfter hQuiet₁ hSetup₁ (hRest hBoth)

/-- Everything allocated has been released. -/
def AllReleased (t : Trace Effect.Result) : Prop := ∀ mem ∈ allocatedIn t, mem ∈ releasedIn t

theorem Uneventful.allReleased {t : Trace Effect.Result} (h : Uneventful t) : AllReleased t := by
  intro mem hMem
  rw [h.1] at hMem
  cases hMem

theorem tells_nvmeGetFileSize (c : ControllerData) :
    (nvmeGetFileSize c).Tells fun t r => AllReleased t ∧ SizeOutcome c t r := by
  have hRefused : ∀ message : String,
      (printErrno message >>= fun _ => (pure (0, c) : Admin (UInt64 × ControllerData))).Tells
        fun t r => Uneventful t ∧ r = (0, c) :=
    fun message => tells_channel (only_channel (only_report message (0, c)))
  have hFailed : ∀ (t : Trace Effect.Result) (r : UInt64 × ControllerData),
      Uneventful t ∧ r = (0, c) → AllReleased t ∧ SizeOutcome c t r := by
    rintro t r ⟨hQuiet, rfl⟩
    exact ⟨hQuiet.allReleased, .failed hQuiet.2 (SameSetup.refl c)⟩
  unfold nvmeGetFileSize
  split
  · exact (hRefused _).mono hFailed
  split
  · exact (hRefused _).mono hFailed
  refine (tells_channel (only_channel (only_regRead64 _ _))).bind fun t₀ cap ⟨hQuiet₀, _⟩ => ?_
  have hEarly : ∀ (t : Trace Effect.Result) (r : UInt64 × ControllerData),
      Uneventful t ∧ r = (0, c) → AllReleased (t₀ ++ t) ∧ SizeOutcome c (t₀ ++ t) r := by
    rintro t r ⟨hQuiet, rfl⟩
    have hBoth : Uneventful (t₀ ++ t) := by
      constructor
      · rw [allocatedIn_append, hQuiet₀.1, hQuiet.1]
        rfl
      · rw [dataReadIn_append, hQuiet₀.2, hQuiet.2]
        rfl
    exact ⟨hBoth.allReleased, .failed hBoth.2 (SameSetup.refl c)⟩
  cases cap with
  | none => exact hEarly [] _ ⟨⟨rfl, rfl⟩, rfl⟩
  | some cap =>
      dsimp only
      split
      · exact (hRefused _).mono hEarly
      refine (tells_nvmeAllocDmaMem c _ _).bind fun t₁ ⟨allocated, c₁, identify⟩ hAlloc => ?_
      have hData : dataReadIn (t₀ ++ t₁) = [] := by
        rw [dataReadIn_append, hQuiet₀.2, hAlloc.summary.dataRead]
        rfl
      have hMem : allocatedIn (t₀ ++ t₁) = if allocated then [identify] else [] := by
        rw [allocatedIn_append, hQuiet₀.1, List.nil_append]
        exact hAlloc.summary.allocated
      cases allocated with
      | false =>
          show AllReleased (t₀ ++ (t₁ ++ [])) ∧ SizeOutcome c (t₀ ++ (t₁ ++ [])) (0, c₁)
          rw [List.append_nil]
          exact ⟨Uneventful.allReleased ⟨hMem, hData⟩, .failed hData hAlloc.setup⟩
      | true =>
          refine (tells_identifyFileSize c₁ (hAlloc.isReal rfl)).mono
            fun t r ⟨hReturned, hOutcome⟩ => ?_
          rw [← List.append_assoc]
          refine ⟨fun mem hIn => ?_, hOutcome.after hData hAlloc.setup⟩
          rw [allocatedIn_append, hMem, hReturned.1] at hIn
          obtain rfl : mem = identify := by simpa using hIn
          rw [releasedIn_append]
          exact List.mem_append_right _ hReturned.2

/-- A call on the Identify data `data` leaves the shift as it was and returns zero, or
stores the shift and returns the size. -/
theorem nvmeGetFileSize_cases {c c' : ControllerData} {t : Trace Effect.Result} {size : UInt64}
    {data : Bytes} (h : Traced (nvmeGetFileSize c) t (size, c'))
    (hData : ∀ d ∈ dataReadIn t, d = data) :
    (size = 0 ∧ c'.lbaShift = c.lbaShift) ∨
      (identifyLbads data < 64 ∧ size = storedSize data ∧
        c'.lbaShift.val = identifyLbads data) := by
  obtain ⟨-, hOutcome⟩ := (tells_nvmeGetFileSize c).of_traced h
  generalize hr : (size, c') = r at hOutcome
  cases hOutcome with
  | failed _ hSetup =>
      rw [Prod.mk.injEq] at hr
      obtain ⟨rfl, rfl⟩ := hr
      exact .inl ⟨rfl, hSetup.lbaShift⟩
  | decoded hRead hSetup =>
      obtain rfl := hData _ (by rw [hRead]; exact List.mem_singleton_self _)
      rename_i c₁ d
      by_cases hShift : identifyLbads d < 64
      · rw [decodeFileSize_of_lt hShift, Prod.mk.injEq] at hr
        obtain ⟨rfl, rfl⟩ := hr
        exact .inr ⟨hShift, rfl, rfl⟩
      · rw [decodeFileSize_of_ge (Nat.not_lt.mp hShift), Prod.mk.injEq] at hr
        obtain ⟨rfl, rfl⟩ := hr
        exact .inl ⟨rfl, hSetup.lbaShift⟩

/-! ## Exact or refused -/

/-- A size other than zero is the exact one and has been stored; with the result zero the
structure is as it was.  In any case the Identify buffer has been released. -/
structure SizeExact (c : ControllerData) (t : Trace Effect.Result)
    (r : UInt64 × ControllerData) : Prop where
  exact : r.1 ≠ 0 → ∃ data, dataReadIn t = [data] ∧
    r.1.toNat = identifyNsze data * 2 ^ identifyLbads data ∧ r.2.size = r.1 ∧
      r.2.lbaShift.val = identifyLbads data
  refused : r.1 = 0 → r.2.lbaShift = c.lbaShift ∧ r.2.size = c.size
  released : AllReleased t

/-- Contents that are refused for their shift, that give a size of 1 to 2 ^ 64 - 1 bytes, or
that give 0 in 64 bits to a structure that says so already. -/
def Decodable (c : ControllerData) (data : Bytes) : Prop :=
  64 ≤ identifyLbads data ∨
    (0 < identifyNsze data ∧ identifyNsze data * 2 ^ identifyLbads data < 2 ^ 64) ∨
    (2 ^ 64 ∣ identifyNsze data * 2 ^ identifyLbads data ∧
      c.lbaShift.val = identifyLbads data ∧ c.size = 0)

instance (c : ControllerData) (data : Bytes) : Decidable (Decodable c data) :=
  inferInstanceAs (Decidable (_ ∨ _ ∨ _))

/-- The contents decide whether the outcome is right. -/
theorem sizeExact_decoded {c c' : ControllerData} {t : Trace Effect.Result} {data : Bytes}
    (hReleased : AllReleased t) (hData : dataReadIn t = [data]) (hSetup : SameSetup c c') :
    SizeExact c t (decodeFileSize c' data) ↔ Decodable c data := by
  by_cases hShift : identifyLbads data < 64
  · rw [decodeFileSize_of_lt hShift]
    have hStored := toNat_storedSize hShift
    constructor
    · rintro ⟨hExact, hRefused, -⟩
      right
      dsimp only at hExact hRefused
      by_cases hZero : storedSize data = 0
      · right
        obtain ⟨hLba, hSize⟩ := hRefused hZero
        rw [hZero, UInt64.toNat_zero] at hStored
        refine ⟨Nat.dvd_of_mod_eq_zero hStored.symm, ?_, ?_⟩
        · rw [← hLba]
        · rw [← hSize, hZero]
      · left
        obtain ⟨data', hData', hSize, -⟩ := hExact hZero
        rw [hData, List.singleton_inj] at hData'
        subst hData'
        have hLt : (storedSize data).toNat < 2 ^ 64 := UInt64.toNat_lt _
        have hPos : 0 < (storedSize data).toNat :=
          Nat.pos_of_ne_zero fun hEq => hZero (UInt64.toNat_inj.mp hEq)
        refine ⟨Nat.pos_of_ne_zero fun hNone => ?_, by omega⟩
        rw [hNone, Nat.zero_mul] at hSize
        omega
    · intro hDecodable
      rcases hDecodable with hLarge | ⟨hPos, hFits⟩ | ⟨hDvd, hLba, hSize⟩
      · omega
      · have hValue : (storedSize data).toNat = identifyNsze data * 2 ^ identifyLbads data := by
          rw [hStored, Nat.mod_eq_of_lt hFits]
        refine ⟨fun _ => ⟨data, hData, hValue, rfl, rfl⟩, fun hZero => ?_, hReleased⟩
        have hProduct : 0 < identifyNsze data * 2 ^ identifyLbads data :=
          Nat.mul_pos hPos (Nat.two_pow_pos _)
        rw [← hValue, show storedSize data = 0 from hZero, UInt64.toNat_zero] at hProduct
        omega
      · have hZero : storedSize data = 0 := by
          apply UInt64.toNat_inj.mp
          rw [hStored, Nat.mod_eq_zero_of_dvd hDvd, UInt64.toNat_zero]
        refine ⟨fun hNonzero => absurd hZero hNonzero, fun _ => ⟨?_, ?_⟩, hReleased⟩
        · exact Fin.ext hLba.symm
        · rw [hSize]
          exact hZero
  · rw [decodeFileSize_of_ge (Nat.not_lt.mp hShift)]
    refine ⟨fun _ => .inl (Nat.not_lt.mp hShift), fun _ => ?_⟩
    exact ⟨fun hNonzero => absurd rfl hNonzero, fun _ => ⟨hSetup.lbaShift, hSetup.size⟩,
      hReleased⟩

/-- For every execution of `nvme_get_file_size`, the size is exact or refused exactly when
the Identify data it has read, if any, allows it. -/
theorem sizeExact_iff {c : ControllerData} {t : Trace Effect.Result}
    {r : UInt64 × ControllerData} (h : Traced (nvmeGetFileSize c) t r) :
    SizeExact c t r ↔ ∀ data ∈ dataReadIn t, Decodable c data := by
  obtain ⟨hReleased, hOutcome⟩ := (tells_nvmeGetFileSize c).of_traced h
  cases hOutcome with
  | failed hData hSetup =>
      rw [hData]
      refine ⟨fun _ data hIn => absurd hIn List.not_mem_nil, fun _ => ?_⟩
      exact ⟨fun hNonzero => absurd rfl hNonzero, fun _ => ⟨hSetup.lbaShift, hSetup.size⟩,
        hReleased⟩
  | decoded hData hSetup =>
      rw [sizeExact_decoded hReleased hData hSetup, hData]
      simp

/-- A controller whose admin queues have just been set up. -/
def identifyController : ControllerData :=
  { bar0Virt := 0x7f00, adminSqVirtAddr := 0x1000, adminCqVirtAddr := 0x2000, adminCqPhase := 1
    adminSqDepth := 32, adminCqDepth := 32, adminSqTailDb := 0x1000, adminCqHeadDb := 0x1004
    lbaShift := 9, dmaFd := 3, dmaFdOpened := true }

/-- It completes its first command with success and leaves `data` in the buffer. -/
def identifyAnswers (data : Bytes) : (e : Effect) → e.Result
  | .bar0Map _ _ _ => 0
  | .bar0Unmap _ => true
  | .dmaOpen _ _ _ => 3
  | .dmaClose _ => ()
  | .regRead _ => 0x140000ff
  | .regWrite _ _ => ()
  | .allocDma _ _ => { fd := 3, userVirtaddr := 0x3000, dmaAddr := 0x30000, size := 4096 }
  | .releaseDma _ => ()
  | .zeroDma _ => ()
  | .writeSqe _ _ _ => ()
  | .readCqe _ _ => { psf := 1 }
  | .readData _ => data
  | .printErrno _ => ()

/-- Identify data for a namespace of `low + 2 ^ 56 * high` blocks of `2 ^ shift` bytes, in
the first format. -/
def identifyData (low high shift : UInt8) : Bytes := fun i =>
  if i = 0 then low else if i = 7 then high else if i = 130 then shift else 0

theorem sizeExact_iff_small :
    ∃ t r, Traced (nvmeGetFileSize identifyController) t r ∧ r.1 = 100 * 4096 ∧
      SizeExact identifyController t r := by
  have hTraced := (nvmeGetFileSize identifyController).traced_run
    (identifyAnswers (identifyData 100 0 12))
  refine ⟨_, _, hTraced, by decide +kernel, (sizeExact_iff hTraced).mpr ?_⟩
  have hData : dataReadIn ((nvmeGetFileSize identifyController).run
      (identifyAnswers (identifyData 100 0 12))).1 = [identifyData 100 0 12] := rfl
  rw [hData]
  intro data hIn
  rw [List.mem_singleton.mp hIn]
  decide

/-- With 2 ^ 56 + 1 blocks of 4096 bytes, the size is cut off to 4096. -/
theorem traced_wrapped :
    ∃ t c, Traced (nvmeGetFileSize identifyController) t (4096, c) ∧
      dataReadIn t = [identifyData 1 1 12] ∧ c.lbaShift = 12 := by
  have hTraced := (nvmeGetFileSize identifyController).traced_run
    (identifyAnswers (identifyData 1 1 12))
  have hSize : ((nvmeGetFileSize identifyController).run
      (identifyAnswers (identifyData 1 1 12))).2.1 = 4096 := by decide +kernel
  refine ⟨((nvmeGetFileSize identifyController).run (identifyAnswers (identifyData 1 1 12))).1,
    ((nvmeGetFileSize identifyController).run (identifyAnswers (identifyData 1 1 12))).2.2, ?_,
    rfl, by decide +kernel⟩
  rw [← hSize]
  exact hTraced

/-- A namespace of 2 ^ 56 + 1 blocks of 4096 bytes is reported as one of 4096 bytes. -/
theorem sizeExact_wrapped_false :
    ∃ t r, Traced (nvmeGetFileSize identifyController) t r ∧
      ¬ SizeExact identifyController t r := by
  obtain ⟨t, c, hTraced, hData, -⟩ := traced_wrapped
  refine ⟨t, (4096, c), hTraced, fun hExact => ?_⟩
  obtain ⟨data, hRead, hValue, -⟩ := hExact.exact (show (4096 : UInt64) ≠ 0 by decide)
  rw [hData, List.singleton_inj] at hRead
  rw [← hRead] at hValue
  have hProduct : identifyNsze (identifyData 1 1 12) * 2 ^ identifyLbads (identifyData 1 1 12) ≠
      (4096 : UInt64).toNat := by decide
  exact hProduct hValue.symm

end NewPerf.Tools
