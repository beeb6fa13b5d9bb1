import NewPerf.Tools.Admin

/-!
# Reasoning about the administrative programs

Rules for `Safe` at each effect of `Hardware`, what the controller can change on
its own, and `Wired`: what a `struct controller_data` and the hardware have to
agree on so that admin commands reach the controller and completions come back.
-/

namespace NewPerf.Tools

open NewPerf.Lib.Logs
open NewPerf.Lib.Programs
open NewPerf.Lib.Ring

/-! ## Steps of the controller -/

namespace Hardware

variable {m m' : Hardware}

/-- An accepted command changes the queue sets and nothing else. -/
theorem apply_eq (m : Hardware) (s : Sent) :
    m.apply s = { m with
      sqs := (m.apply s).sqs
      cqs := (m.apply s).cqs
      attachedTo := (m.apply s).attachedTo } := by
  unfold Hardware.apply
  split <;> rfl

/-- Everything a step of the controller can do. -/
theorem device_cases {b : DeviceAct} (h : m.device b = some m') :
    (∃ i s, m.sent[i]? = some s ∧ s.progress = .waiting ∧
      m' = m.setProgress i (.executed false)) ∨
    (∃ i s, m.sent[i]? = some s ∧ s.progress = .waiting ∧ m.inUse s.cmd = false ∧
      m' = (m.setProgress i (.executed true)).apply s) ∨
    (∃ i s accepted sqhd status, m.sent[i]? = some s ∧
      s.progress = .executed accepted ∧
      (decide (cqeSct (m.adminCqe s sqhd status).psf = 0 ∧
        cqeSc (m.adminCqe s sqhd status).psf = 0)) = accepted ∧
      m' = { m.setProgress i (.posted accepted) with
        cqe := Function.update m.cqe (m.virtOf m.acq)
          (Function.update (m.cqe (m.virtOf m.acq))
            (m.posted.length % m.adminCqDepth) (m.adminCqe s sqhd status))
        posted := m.posted ++ [m.adminCqe s sqhd status] }) := by
  cases b with
  | execute i accept =>
      simp only [device, execute] at h
      cases hSent : m.sent[i]? with
      | none => simp [hSent] at h
      | some s =>
          rw [hSent] at h
          dsimp only at h
          split at h
          · rename_i hWaiting
            cases accept with
            | false =>
                simp only [Bool.false_eq_true, if_false, Option.some.injEq] at h
                exact .inl ⟨i, s, hSent, hWaiting, h.symm⟩
            | true =>
                simp only [if_true] at h
                split at h
                · cases h
                · rename_i hFree
                  refine .inr (.inl ⟨i, s, hSent, hWaiting, ?_, ?_⟩)
                  · simpa using hFree
                  · exact (Option.some.inj h).symm
          · cases h
  | post i sqhd status =>
      simp only [device, post] at h
      cases hSent : m.sent[i]? with
      | none => simp [hSent] at h
      | some s =>
          rw [hSent] at h
          cases hProgress : s.progress with
          | waiting => simp [hProgress] at h
          | posted accepted => simp [hProgress] at h
          | executed accepted =>
              simp only [hProgress] at h
              split at h
              · cases h
              · split at h
                · cases h
                · rename_i hStatus
                  refine .inr (.inr ⟨i, s, accepted, sqhd, status, hSent, hProgress,
                    ?_, (Option.some.inj h).symm⟩)
                  exact not_not.mp hStatus

/-- Every command passed on has been completed. -/
def Quiet (m : Hardware) : Prop := ∀ s ∈ m.sent, ∃ accepted, s.progress = .posted accepted

/-- A quiet controller stays as it is. -/
theorem Quiet.device_none (h : m.Quiet) (b : DeviceAct) : m.device b = none := by
  cases hStep : m.device b with
  | none => rfl
  | some m' =>
      have hNever : ∀ {i : Nat} {s : Sent}, m.sent[i]? = some s →
          ∃ accepted, s.progress = .posted accepted := fun hSent =>
        h _ (List.mem_of_getElem? hSent)
      obtain ⟨i, s, hSent, hProgress, _⟩ | ⟨i, s, hSent, hProgress, _⟩ |
        ⟨i, s, _, _, _, hSent, hProgress, _⟩ := device_cases hStep <;>
      · obtain ⟨_, hPosted⟩ := hNever hSent
        rw [hPosted] at hProgress
        cases hProgress

/-- An assertion that makes the controller quiet is stable. -/
theorem stable_of_quiet {P : Hardware → Prop} (h : ∀ m, P m → m.Quiet) :
    hardware.Stable P := by
  intro x b m' hP hEnv
  have hNone : hardware.env x b = none := (h x hP).device_none b
  rw [hNone] at hEnv
  cases hEnv

theorem Quiet.stable (h : m.Quiet) : hardware.Stable (· = m) :=
  stable_of_quiet fun _ hEq => hEq ▸ h

theorem quiet_of_sent_nil (h : m.sent = []) : m.Quiet := by
  intro s hs
  rw [h] at hs
  cases hs

/-! ## Registers -/

theorem join_halves (v : UInt64) : join v.toUInt32 (v >>> 32).toUInt32 = v := by
  apply UInt64.toNat_inj.mp
  have hv := v.toNat_lt
  simp only [join, UInt64.toNat_or, UInt64.toNat_shiftLeft, UInt32.toNat_toUInt64,
    UInt64.toNat_toUInt32, UInt64.toNat_shiftRight]
  rw [show (32 : UInt64).toNat % 64 = 32 from rfl, Nat.shiftRight_eq_div_pow,
    Nat.mod_eq_of_lt (show v.toNat / 2 ^ 32 < 2 ^ 32 by omega),
    Nat.mod_eq_of_lt (show (v.toNat / 2 ^ 32) <<< 32 < 2 ^ 64 by
      rw [Nat.shiftLeft_eq]; omega),
    ← Nat.shiftLeft_add_eq_or_of_lt (Nat.mod_lt _ (by decide)), Nat.shiftLeft_eq]
  omega

end Hardware

/-! ## The rule for effects -/

/-- The results an effect may have. -/
def Hardware.Allowed (m : Hardware) : (e : Effect) → e.Result → Prop
  | .regRead offset, v => m.Readable offset v
  | .allocDma _ _, mem => m.Allocatable mem
  | .readCqe virt slot, cqe => cqe = m.cqe virt slot.toNat
  | _, _ => True

/-- The state after an effect. -/
def Hardware.after (m : Hardware) : (e : Effect) → e.Result → Hardware
  | .regRead offset, v => m.observe offset v
  | .regWrite offset v, _ => m.writeReg offset v
  | .allocDma _ _, mem => m.alloc mem
  | .releaseDma mem, _ => m.release mem
  | .zeroDma mem, _ => m.zero mem
  | .writeSqe virt slot cmd, _ => m.putSqe virt slot.toNat cmd
  | _, _ => m

theorem Hardware.effect_cases {m m' : Hardware} {e : Effect} {a : Answer}
    {r : e.Result} (h : m.effect e a = some (r, m')) :
    m.Allowed e r ∧ m' = m.after e r := by
  cases e <;> cases a <;>
    simp only [Hardware.effect, Option.ite_none_right_eq_some, Option.some.injEq,
      Prod.mk.injEq, reduceCtorEq] at h <;>
    first
    | obtain ⟨hAllowed, rfl, rfl⟩ := h
      exact ⟨hAllowed, rfl⟩
    | obtain ⟨rfl, rfl⟩ := h
      exact ⟨trivial, rfl⟩
    | obtain ⟨rfl, rfl⟩ := h
      exact ⟨rfl, rfl⟩

section Rules

variable {α : Type} {ok : Hardware → Effect → Prop}
  {spec : Option Effect → Hardware → Prop} {Q : α → Hardware → Prop}
  {P : Hardware → Prop} {m : Hardware} {e : Effect} {k : e.Result → Admin α}

/-- An effect is performed where a stable assertion is known. -/
theorem safe_effect (hStable : hardware.Stable P) (hP : P m)
    (hSpec : ∀ m, P m → spec (some e) m)
    (hNext : ∀ m r, P m → ok m e → m.Allowed e r →
      Safe hardware ok spec Q (k r) (m.after e r)) :
    Safe hardware ok spec Q (.op e k) m := by
  refine Safe.op hStable hP hSpec fun m a r m' hm hOk hEff => ?_
  obtain ⟨hAllowed, rfl⟩ := Hardware.effect_cases hEff
  exact hNext m r hm hOk hAllowed

/-- An effect is performed while the controller has nothing to do. -/
theorem safe_quiet (hQuiet : m.Quiet) (hSpec : spec (some e) m)
    (hNext : ∀ r, ok m e → m.Allowed e r →
      Safe hardware ok spec Q (k r) (m.after e r)) :
    Safe hardware ok spec Q (.op e k) m := by
  refine safe_effect hQuiet.stable rfl ?_ ?_
  · rintro _ rfl
    exact hSpec
  · rintro _ r rfl hOk hAllowed
    exact hNext r hOk hAllowed

theorem safe_return_quiet {a : α} (hQuiet : m.Quiet) (hSpec : spec none m)
    (hQ : Q a m) : Safe hardware ok spec Q (.pure a) m := by
  refine Safe.pure hQuiet.stable rfl ?_ ?_
  · rintro _ rfl
    exact hSpec
  · rintro _ rfl
    exact hQ

end Rules

/-! ## Allocations -/

/-- `free_dma` and the checks after `alloc_dma` treat the memory as absent. -/
def Mem.Null (mem : Mem) : Prop := mem.userVirtaddr = 0 ∨ mem.size ≤ 0

instance (mem : Mem) : Decidable mem.Null :=
  inferInstanceAs (Decidable (mem.userVirtaddr = 0 ∨ mem.size ≤ 0))

theorem Mem.null_empty : Mem.Null {} := .inl rfl

namespace Hardware

variable {m : Hardware} {i j : Nat} {mem other : Mem}

/-- Allocation number `i` is `mem`, and it has not been released. -/
def Live (m : Hardware) (i : Nat) (mem : Mem) : Prop :=
  m.regions[i]? = some { mem := mem, freed := false }

/-- No two live allocations share an address, and a bus address leads to the
live allocation that has it. -/
structure WellMapped (m : Hardware) : Prop where
  real : ∀ i mem, m.Live i mem → ¬ mem.Null
  mapped : ∀ i mem, m.Live i mem →
    m.mapped mem.dmaAddr = some ⟨i, mem.userVirtaddr⟩
  virt : ∀ i j mem other, m.Live i mem → m.Live j other →
    mem.userVirtaddr = other.userVirtaddr → i = j

theorem WellMapped.congr {m' : Hardware} (h : m.WellMapped)
    (hRegions : m'.regions = m.regions) (hMapped : m'.mapped = m.mapped) :
    m'.WellMapped := by
  have hLive : ∀ i mem, m'.Live i mem ↔ m.Live i mem := fun i mem => by
    rw [Live, Live, hRegions]
  refine ⟨?_, ?_, ?_⟩ <;> simp only [hLive, hMapped]
  · exact h.real
  · exact h.mapped
  · exact h.virt

theorem WellMapped.dmaAddr_ne (h : m.WellMapped) (hi : m.Live i mem)
    (hj : m.Live j other) (hne : i ≠ j) : mem.dmaAddr ≠ other.dmaAddr := by
  intro hEq
  have hMapped := h.mapped i mem hi
  rw [hEq, h.mapped j other hj] at hMapped
  simp only [Option.some.injEq, Mapping.mk.injEq] at hMapped
  exact hne hMapped.1.symm

theorem WellMapped.virt_ne (h : m.WellMapped) (hi : m.Live i mem)
    (hj : m.Live j other) (hne : i ≠ j) : mem.userVirtaddr ≠ other.userVirtaddr :=
  fun hEq => hne (h.virt i j mem other hi hj hEq)

theorem WellMapped.virtOf (h : m.WellMapped) (hi : m.Live i mem) :
    m.virtOf mem.dmaAddr = mem.userVirtaddr := by
  rw [Hardware.virtOf, h.mapped i mem hi]
  rfl

theorem Live.lt_length (h : m.Live i mem) : i < m.regions.length := by
  by_contra hge
  rw [Live, List.getElem?_eq_none (by omega)] at h
  cases h

/-- The null result of `alloc_dma` is the only one that is not an allocation. -/
theorem Allocatable.null_iff (h : m.Allocatable mem) : mem.Null ↔ mem = {} := by
  constructor
  · intro hNull
    rcases h with hEmpty | ⟨hVirt, hSize, _⟩
    · exact hEmpty
    · rcases hNull with hZero | hNeg
      · exact absurd hZero hVirt
      · exact absurd hSize (Int64.not_lt.mpr hNeg)
  · rintro rfl
    exact Mem.null_empty

theorem Live.alloc (h : m.Live i mem) (new : Mem) : (m.alloc new).Live i mem := by
  unfold Hardware.alloc
  split
  · exact h
  · rw [Live, List.getElem?_append_left h.lt_length]
    exact h

theorem live_alloc_new {new : Mem} (h : new ≠ {}) :
    (m.alloc new).Live m.regions.length new := by
  unfold Hardware.alloc
  rw [if_neg h, Live]
  exact List.getElem?_concat_length

/-- What is live after an allocation was live before or is the new one. -/
theorem live_of_alloc {new : Mem} (h : (m.alloc new).Live i mem) :
    m.Live i mem ∨ (i = m.regions.length ∧ mem = new ∧ new ≠ {}) := by
  unfold Hardware.alloc at h
  split at h
  · exact .inl h
  · rename_i hNew
    simp only [Live] at h
    rcases getElem?_concat_cases h with hOld | ⟨hLast, hEq⟩
    · exact .inl hOld
    · exact .inr ⟨hLast, congrArg Region.mem hEq, hNew⟩

theorem live_release_iff : (m.release other).Live i mem ↔ m.Live i mem ∧ mem ≠ other := by
  simp only [Live, release, List.getElem?_map, Option.map_eq_some_iff]
  constructor
  · rintro ⟨r, hr, hEq⟩
    split at hEq
    · cases hEq
    · rename_i hne
      rw [hEq] at hr hne
      exact ⟨hr, hne⟩
  · rintro ⟨hr, hne⟩
    exact ⟨_, hr, if_neg hne⟩

theorem WellMapped.release (h : m.WellMapped) (other : Mem) :
    (m.release other).WellMapped where
  real i mem hi := h.real i mem (live_release_iff.mp hi).1
  mapped i mem hi := h.mapped i mem (live_release_iff.mp hi).1
  virt i j mem mem' hi hj :=
    h.virt i j mem mem' (live_release_iff.mp hi).1 (live_release_iff.mp hj).1

theorem WellMapped.alloc (h : m.WellMapped) {new : Mem} (hNew : m.Allocatable new) :
    (m.alloc new).WellMapped := by
  by_cases hEmpty : new = {}
  · rw [Hardware.alloc, if_pos hEmpty]
    exact h
  have hFresh : ∀ {i mem}, m.Live i mem →
      mem.userVirtaddr ≠ new.userVirtaddr ∧ mem.dmaAddr ≠ new.dmaAddr := by
    intro i mem hi
    rcases hNew with hNull | ⟨_, _, hFresh⟩
    · exact absurd hNull hEmpty
    · exact hFresh _ (List.mem_of_getElem? hi) rfl
  refine ⟨fun i mem hi => ?_, fun i mem hi => ?_, fun i j mem mem' hi hj hEq => ?_⟩
  · rcases live_of_alloc hi with hOld | ⟨rfl, rfl, _⟩
    · exact h.real i mem hOld
    · exact fun hNull => hEmpty (hNew.null_iff.mp hNull)
  · rw [Hardware.alloc, if_neg hEmpty]
    rcases live_of_alloc hi with hOld | ⟨rfl, rfl, _⟩
    · exact (Function.update_of_ne (hFresh hOld).2 _ _).trans (h.mapped i mem hOld)
    · exact Function.update_self _ _ _
  · rcases live_of_alloc hi with hOld | ⟨rfl, rfl, _⟩ <;>
      rcases live_of_alloc hj with hOld' | ⟨rfl, rfl, _⟩
    · exact h.virt i j mem mem' hOld hOld' hEq
    · exact absurd hEq (hFresh hOld).1
    · exact absurd hEq.symm (hFresh hOld').1
    · rfl

/-- A store to a register other than CC and the SQ doorbell changes registers only. -/
theorem writeReg_other (m : Hardware) {offset : UInt32} (v : UInt32)
    (hCc : offset ≠ nvmeRegCc) (hDb : offset ≠ nvmeDoorbellBase) :
    ∃ aqa asqLow asqHigh acqLow acqHigh cqHeadDb, m.writeReg offset v =
      { m with aqa, asqLow, asqHigh, acqLow, acqHigh, cqHeadDb } := by
  unfold writeReg
  rw [if_neg hCc, if_neg hDb]
  split
  · exact ⟨v, _, _, _, _, _, rfl⟩
  split
  · exact ⟨_, v, _, _, _, _, rfl⟩
  split
  · exact ⟨_, _, v, _, _, _, rfl⟩
  split
  · exact ⟨_, _, _, v, _, _, rfl⟩
  split
  · exact ⟨_, _, _, _, v, _, rfl⟩
  split
  · exact ⟨_, _, _, _, _, v, rfl⟩
  · exact ⟨_, _, _, _, _, _, rfl⟩

/-- Registers are not memory. -/
theorem writeReg_memory (m : Hardware) (offset v : UInt32) :
    (m.writeReg offset v).regions = m.regions ∧ (m.writeReg offset v).mapped = m.mapped := by
  by_cases hCc : offset = nvmeRegCc
  · rw [writeReg, if_pos hCc, writeCc]
    split
    · exact ⟨rfl, rfl⟩
    · dsimp only
      split <;> exact ⟨rfl, rfl⟩
  · by_cases hDb : offset = nvmeDoorbellBase
    · rw [hDb]
      exact ⟨rfl, rfl⟩
    · obtain ⟨_, _, _, _, _, _, hEq⟩ := m.writeReg_other v hCc hDb
      rw [hEq]
      exact ⟨rfl, rfl⟩

/-- Every effect keeps the allocations in order. -/
theorem WellMapped.after (h : m.WellMapped) {e : Effect} {r : e.Result}
    (hAllowed : m.Allowed e r) : (m.after e r).WellMapped := by
  cases e with
  | regRead offset =>
      show (m.observe offset r).WellMapped
      unfold Hardware.observe
      dsimp only
      split_ifs <;> exact h.congr rfl rfl
  | regWrite offset v =>
      obtain ⟨hRegions, hMapped⟩ := m.writeReg_memory offset v
      exact h.congr hRegions hMapped
  | allocDma fd size => exact h.alloc hAllowed
  | releaseDma mem => exact h.release mem
  | zeroDma mem => exact h.congr rfl rfl
  | writeSqe virt slot cmd => exact h.congr rfl rfl
  | _ => exact h

end Hardware

/-! ## Accesses through a mapped BAR0 -/

section Mapped

variable {bar0 : UInt64} {offset v : UInt32}

theorem controllerRegRead32_eq (h : bar0 ≠ 0) (hOffset : offset &&& 0x3 = 0) :
    controllerRegRead32 bar0 offset = .op (.regRead offset) fun v => .pure (some v) := by
  rw [controllerRegRead32, if_neg (by simp [h, hOffset])]
  rfl

theorem controllerRegWrite32_eq (h : bar0 ≠ 0) (hOffset : offset &&& 0x3 = 0) :
    controllerRegWrite32 bar0 offset v = .op (.regWrite offset v) fun _ => .pure true := by
  rw [controllerRegWrite32, if_neg (by simp [h, hOffset])]
  rfl

theorem nvmeRegRead64_cap (h : bar0 ≠ 0) :
    nvmeRegRead64 bar0 nvmeRegCap =
      .op (.regRead nvmeRegCap) fun lo => .op (.regRead (nvmeRegCap + 4)) fun hi =>
        .pure (some (Hardware.join lo hi)) := by
  rw [nvmeRegRead64, controllerRegRead32_eq h (by decide),
    controllerRegRead32_eq h (by decide)]
  rfl

theorem nvmeRegWrite64_eq {value : UInt64} (h : bar0 ≠ 0) (hOffset : offset &&& 0x3 = 0)
    (hNext : (offset + 4) &&& 0x3 = 0) :
    nvmeRegWrite64 bar0 offset value =
      .op (.regWrite offset value.toUInt32) fun _ =>
        .op (.regWrite (offset + 4) (value >>> 32).toUInt32) fun _ => .pure true := by
  rw [nvmeRegWrite64, controllerRegWrite32_eq h hOffset, controllerRegWrite32_eq h hNext]
  rfl

end Mapped

theorem freeDma_null {mem : Mem} (h : mem.Null) : freeDma mem = .pure mem := if_pos h

theorem freeDma_real {mem : Mem} (h : ¬ mem.Null) :
    freeDma mem = .op (.releaseDma mem) fun _ => .pure {} := if_neg h

/-! ## Doorbells -/

private theorem shift_range (d : UInt32) (h : d.toNat < 16) :
    0x1000 < 0x1000 + ((4 : UInt32) <<< d) ∧
      (0x1000 + ((4 : UInt32) <<< d)) &&& 0x3 = 0 := by
  obtain ⟨k, rfl⟩ : ∃ k, d = UInt32.ofNat k := ⟨d.toNat, by simp⟩
  rw [UInt32.toNat_ofNat'] at h
  have hk : UInt32.ofNat k = UInt32.ofNat (k % 2 ^ 32) := by
    apply UInt32.toNat_inj.mp
    simp
  have hAll : ∀ j : Fin 16, 0x1000 < 0x1000 + ((4 : UInt32) <<< UInt32.ofNat j) ∧
      (0x1000 + ((4 : UInt32) <<< UInt32.ofNat j)) &&& 0x3 = 0 := by decide
  rw [hk]
  exact hAll ⟨k % 2 ^ 32, h⟩

theorem capDstrd_lt (cap : UInt64) : (capDstrd cap).toNat < 16 := by
  have hAnd : ((cap >>> 32) &&& 0xf).toNat < 16 := by
    rw [UInt64.toNat_and]
    exact Nat.lt_of_le_of_lt Nat.and_le_right (by decide)
  rw [capDstrd, UInt64.toNat_toUInt32]
  exact Nat.lt_of_le_of_lt (Nat.mod_le _ _) hAnd

theorem adminCqHeadDoorbell_aligned (cap : UInt64) :
    adminCqHeadDoorbell cap &&& 0x3 = 0 := (shift_range _ (capDstrd_lt cap)).2

theorem lt_adminCqHeadDoorbell (cap : UInt64) :
    nvmeDoorbellBase < adminCqHeadDoorbell cap := (shift_range _ (capDstrd_lt cap)).1

namespace Hardware

variable {m : Hardware}

/-- The completion queue doorbell is none of the other registers. -/
theorem writeReg_cqHead (m : Hardware) (v : UInt32) :
    m.writeReg (adminCqHeadDoorbell m.cap) v = { m with cqHeadDb := v } := by
  have hAbove : nvmeDoorbellBase < adminCqHeadDoorbell m.cap :=
    (shift_range _ (capDstrd_lt m.cap)).1
  have hne : ∀ off : UInt32, off ≤ nvmeDoorbellBase → adminCqHeadDoorbell m.cap ≠ off := by
    intro off hle hEq
    rw [hEq] at hAbove
    exact absurd (UInt32.lt_of_lt_of_le hAbove hle) (UInt32.lt_irrefl _)
  unfold writeReg
  rw [if_neg (hne _ (by decide)), if_neg (hne _ (by decide)), if_neg (hne _ (by decide)),
    if_neg (hne _ (by decide)), if_neg (hne _ (by decide)), if_neg (hne _ (by decide)),
    if_neg (hne _ (by decide)), if_pos rfl]

/-- Clearing CC.EN. -/
theorem writeCc_clear (m : Hardware) {v : UInt32} (h : v &&& nvmeCcEn = 0) :
    m.writeCc v = { m with cc := v } := if_pos h

/-- Setting CC.EN starts a controller that was disabled. -/
theorem writeCc_set {v : UInt32} (h : v &&& nvmeCcEn ≠ 0) (hDisabled : m.enabled = false) :
    m.writeCc v =
      { m with
        cc := v
        armed := m.armed ++ [m.asq, m.acq]
        unseen := m.unseen ++ [m.asq, m.acq]
        sqTail := 0
        cqHeadDb := 0
        sent := []
        posted := []
        sqs := fun _ => none
        cqs := fun _ => none } := by
  unfold writeCc
  rw [if_neg h]
  dsimp only
  rw [if_neg (by simp [hDisabled])]

theorem writeReg_sqTail (m : Hardware) (v : UInt32) :
    m.writeReg nvmeDoorbellBase v = m.ringAdminSq v.toNat := rfl

theorem adminDepths (h : m.aqa = adminQueueAttributes) :
    m.adminSqDepth = 32 ∧ m.adminCqDepth = 32 := by
  rw [adminSqDepth, adminCqDepth, h]
  decide

end Hardware

theorem toNat_adminAdvance {i : UInt16} (h : i.toNat < 32) :
    (adminAdvance i nvmeAdminQDepth).toNat = (i.toNat + 1) % 32 := by
  have hSucc : (i + 1).toNat = i.toNat + 1 := by
    rw [UInt16.toNat_add, UInt16.toNat_one]
    omega
  have hIff : i + 1 = nvmeAdminQDepth ↔ i.toNat + 1 = 32 := by
    rw [← UInt16.toNat_inj, hSucc]
    rfl
  unfold adminAdvance
  split
  · rename_i hWrap
    rw [hIff.mp hWrap]
    rfl
  · rename_i hWrap
    have hne : i.toNat + 1 ≠ 32 := fun h32 => hWrap (hIff.mpr h32)
    rw [hSucc, Nat.mod_eq_of_lt (by omega)]

/-! ## A controller ready for admin commands -/

/-- The `struct controller_data` describes the admin queues the controller uses. -/
structure Wired (c : ControllerData) (m : Hardware) : Prop where
  maps : m.WellMapped
  bar0 : c.bar0Virt ≠ 0
  enabled : m.enabled = true
  timeout : readyTimeoutMs m.cap ≠ 0
  aqa : m.aqa = adminQueueAttributes
  asq : m.asq = c.adminSqMem.dmaAddr
  acq : m.acq = c.adminCqMem.dmaAddr
  sqVirt : c.adminSqVirtAddr = c.adminSqMem.userVirtaddr
  cqVirt : c.adminCqVirtAddr = c.adminCqMem.userVirtaddr
  live : ∃ i j, i ≠ j ∧ m.Live i c.adminSqMem ∧ m.Live j c.adminCqMem
  sqDepth : c.adminSqDepth = nvmeAdminQDepth
  cqDepth : c.adminCqDepth = nvmeAdminQDepth
  sqDb : c.adminSqTailDb = nvmeDoorbellBase
  cqDb : c.adminCqHeadDb = adminCqHeadDoorbell m.cap
  sqTail : m.sqTail = c.adminSqTail.toNat
  sqTail_lt : c.adminSqTail.toNat < 32
  cqHead_lt : c.adminCqHead.toNat < 32

namespace Wired

variable {c : ControllerData} {m m' : Hardware}

theorem virtOf_asq (h : Wired c m) : m.virtOf m.asq = c.adminSqVirtAddr := by
  obtain ⟨i, j, _, hi, _⟩ := h.live
  rw [h.asq, h.sqVirt]
  exact h.maps.virtOf hi

theorem virtOf_acq (h : Wired c m) : m.virtOf m.acq = c.adminCqVirtAddr := by
  obtain ⟨i, j, _, _, hj⟩ := h.live
  rw [h.acq, h.cqVirt]
  exact h.maps.virtOf hj

/-- The controller does not disturb the wiring. -/
theorem device (h : Wired c m) {b : DeviceAct} (hStep : m.device b = some m') :
    Wired c m' := by
  obtain ⟨i, s, _, _, rfl⟩ | ⟨i, s, _, _, _, rfl⟩ | ⟨i, s, _, _, _, _, _, _, rfl⟩ :=
    Hardware.device_cases hStep
  · exact { h with maps := h.maps.congr rfl rfl }
  · rw [Hardware.apply_eq]
    exact { h with maps := h.maps.congr rfl rfl }
  · exact { h with maps := h.maps.congr rfl rfl }

/-- The command the next doorbell write passes on is the one stored at the tail. -/
theorem ringAdminSq_eq (h : Wired c m) :
    m.ringAdminSq ((c.adminSqTail.toNat + 1) % 32) =
      { m with
        sqTail := (c.adminSqTail.toNat + 1) % 32
        sent := m.sent ++
          [{ cmd := m.sqe c.adminSqVirtAddr c.adminSqTail.toNat
             region := (m.mapped (m.sqe c.adminSqVirtAddr c.adminSqTail.toNat).prp1).map
               Mapping.number }] } := by
  have hLt := h.sqTail_lt
  have hOne : ((c.adminSqTail.toNat + 1) % 32 + 32 - c.adminSqTail.toNat) % 32 = 1 := by
    omega
  rw [Hardware.ringAdminSq, Hardware.newEntries, (Hardware.adminDepths h.aqa).1,
    h.virtOf_asq, h.sqTail, hOne]
  simp [Nat.mod_eq_of_lt hLt]

/-- Taking the completion at position `n` of the ring. -/
theorem advanceAdminCq (h : Wired c m) {n : Nat} (hHead : c.adminCqHead.toNat = n % 32)
    (hPhase : c.adminCqPhase.toNat = phaseOf 32 n) :
    (Tools.advanceAdminCq c).adminCqHead.toNat = (n + 1) % 32 ∧
      (Tools.advanceAdminCq c).adminCqPhase.toNat = phaseOf 32 (n + 1) := by
  constructor
  · rw [Tools.advanceAdminCq, h.cqDepth]
    rw [toNat_adminAdvance h.cqHead_lt, hHead, Nat.mod_add_mod]
  · have hLt := h.cqHead_lt
    have hWrap : c.adminCqHead + 1 = c.adminCqDepth ↔ (n + 1) % 32 = 0 := by
      rw [h.cqDepth, ← UInt16.toNat_inj, UInt16.toNat_add, UInt16.toNat_one]
      show (c.adminCqHead.toNat + 1) % 2 ^ 16 = 32 ↔ _
      omega
    rw [phaseOf_succ]
    unfold Tools.advanceAdminCq
    dsimp only
    split_ifs with hEq hZero hZero
    · have hTwo := phaseOf_lt_two 32 n
      rw [toNat_flipPhase (by rwa [hPhase]), hPhase]
    · exact absurd (hWrap.mp hEq) hZero
    · exact absurd (hWrap.mpr hZero) hEq
    · exact hPhase

end Wired

/-! ## Allocating -/

section Allocating

variable {ok : Hardware → Effect → Prop} {spec : Option Effect → Hardware → Prop}
  {P : Hardware → Prop} {m : Hardware} {c : ControllerData}

/-- `nvme_alloc_dma_mem`: `P` is known before, and `A` once the allocation has been
made.  Only the descriptor in the `struct controller_data` may change. -/
theorem safe_nvmeAllocDmaMem {Q : Bool × ControllerData × Mem → Hardware → Prop}
    {A : Mem → Hardware → Prop} {size : UInt64} {mem : Mem}
    (hStable : hardware.Stable P) (hStable' : ∀ new, hardware.Stable (A new)) (hP : P m)
    (hSpec : ∀ m e, P m → (∀ mem, e ≠ some (.releaseDma mem)) → spec e m)
    (hSpec' : ∀ m e new, A new m → (∀ mem, e ≠ some (.releaseDma mem)) → spec e m)
    (hAlloc : ∀ m new, P m → m.Allocatable new → new ≠ {} → A new (m.alloc new))
    (hFail : ∀ fd opened mem' m, P m → mem' = mem ∨ mem' = {} →
      Q (false, { c with dmaFd := fd, dmaFdOpened := opened }, mem') m)
    (hDone : ∀ fd opened new m, A new m →
      Q (true, { c with dmaFd := fd, dmaFdOpened := opened }, new) m) :
    Safe hardware ok spec Q (nvmeAllocDmaMem c size mem) m := by
  have hOpen : Safe hardware ok spec
      (fun r m => P m ∧ ∃ fd opened,
        r.2 = { c with dmaFd := fd, dmaFdOpened := opened })
      (nvmeDmaOpenController c) m := by
    unfold nvmeDmaOpenController
    split
    · exact Safe.pure hStable hP (fun m hm => hSpec m _ hm nofun)
        fun m hm => ⟨hm, c.dmaFd, c.dmaFdOpened, rfl⟩
    · refine safe_effect hStable hP (fun m hm => hSpec m _ hm nofun)
        fun m fd hm _ _ => ?_
      show Safe hardware ok spec _ (if fd < 0 then _ else _) m
      split
      · refine safe_effect hStable hm (fun m hm => hSpec m _ hm nofun)
          fun m _ hm _ _ => ?_
        exact Safe.pure hStable hm (fun m hm => hSpec m _ hm nofun)
          fun m hm => ⟨hm, c.dmaFd, c.dmaFdOpened, rfl⟩
      · exact Safe.pure hStable hm (fun m hm => hSpec m _ hm nofun)
          fun m hm => ⟨hm, fd, true, rfl⟩
  refine hOpen.bind ?_
  rintro ⟨opened, _⟩ m ⟨hm, fd, flag, rfl⟩
  cases opened with
  | false =>
      exact Safe.pure hStable hm (fun m hm => hSpec m _ hm nofun)
        fun m hm => hFail fd flag mem m hm (.inl rfl)
  | true =>
      refine safe_effect hStable hm (fun m hm => hSpec m _ hm nofun)
        fun m new hm _ hAllowed => ?_
      have hAllocatable : m.Allocatable new := hAllowed
      show Safe hardware ok spec _ (if new.Null then _ else _) (m.alloc new)
      by_cases hNull : new.Null
      · have hEmpty := hAllocatable.null_iff.mp hNull
        rw [if_pos hNull, hEmpty, Hardware.alloc, if_pos rfl]
        refine safe_effect hStable hm (fun m hm => hSpec m _ hm nofun)
          fun m _ hm _ _ => ?_
        exact Safe.pure hStable hm (fun m hm => hSpec m _ hm nofun)
          fun m hm => hFail fd flag {} m hm (.inr rfl)
      · rw [if_neg hNull]
        have hNew := hAlloc m new hm hAllocatable
          fun hEmpty => hNull (hAllocatable.null_iff.mpr hEmpty)
        exact Safe.pure (hStable' new) hNew (fun m hm => hSpec' m _ new hm nofun)
          fun m hm => hDone fd flag new m hm

end Allocating

/-! ## Submitting a command and waiting for it -/

/-- The controller learns of a command. -/
def Hardware.send (m : Hardware) (cmd : AdminCommand) : Hardware :=
  { m with
    sqTail := (m.sqTail + 1) % 32
    sent := m.sent ++
      [{ cmd := cmd, region := (m.mapped cmd.prp1).map Mapping.number }] }

theorem Wired.send {c : ControllerData} {m : Hardware} (h : Wired c m)
    (cmd : AdminCommand) : Wired (advanceAdminSq c) (m.send cmd) := by
  have hTail : (advanceAdminSq c).adminSqTail.toNat = (c.adminSqTail.toNat + 1) % 32 := by
    rw [advanceAdminSq, h.sqDepth]
    exact toNat_adminAdvance h.sqTail_lt
  exact
    { h with
      maps := h.maps.congr rfl rfl
      sqTail := by rw [hTail, Hardware.send, h.sqTail]
      sqTail_lt := by rw [hTail]; omega }

/-- The controller does not write to the submission queue. -/
theorem Hardware.device_sqe {m m' : Hardware} {b : DeviceAct}
    (h : m.device b = some m') : m'.sqe = m.sqe := by
  obtain ⟨i, s, _, _, rfl⟩ | ⟨i, s, _, _, _, rfl⟩ | ⟨i, s, _, _, _, _, _, _, rfl⟩ :=
    Hardware.device_cases h
  · rfl
  · rw [Hardware.apply_eq]
    rfl
  · rfl

/-- What `wait_admin_completion` reports about an entry that is not its command's. -/
def unexpectedIdMessage : String := "unexpected NVMe admin completion command id"

/-- Accesses that need no particular care. -/
structure Routine (e : Option Effect) : Prop where
  release : ∀ mem, e ≠ some (.releaseDma mem)
  expected : e ≠ some (.printErrno unexpectedIdMessage)

section Commands

variable {α : Type} {ok : Hardware → Effect → Prop}
  {spec : Option Effect → Hardware → Prop} {P : Hardware → Prop} {m : Hardware}
  {c : ControllerData}

/-- Submitting is two stores. -/
theorem submitCommand_eq {cmd : AdminCommand} {k : Bool × ControllerData → Admin α}
    (hBar0 : c.bar0Virt ≠ 0) (hSqDb : c.adminSqTailDb = nvmeDoorbellBase) :
    (submitCommand c cmd >>= k) =
      .op (.writeSqe c.adminSqVirtAddr c.adminSqTail cmd) fun _ =>
        .op (.regWrite nvmeDoorbellBase (advanceAdminSq c).adminSqTail.toUInt32) fun _ =>
          k (true, advanceAdminSq c) := by
  have hBar0' : (advanceAdminSq c).bar0Virt ≠ 0 := hBar0
  have hDb : (advanceAdminSq c).adminSqTailDb = nvmeDoorbellBase := hSqDb
  unfold submitCommand
  dsimp only
  rw [hDb, controllerRegWrite32_eq hBar0' (by decide)]
  rfl

/-- The doorbell passes on the entry stored at the tail. -/
theorem Wired.after_doorbell (h : Wired c m) (cmd : AdminCommand)
    (hSqe : m.sqe c.adminSqVirtAddr c.adminSqTail.toNat = cmd) :
    m.after (.regWrite nvmeDoorbellBase (advanceAdminSq c).adminSqTail.toUInt32) () =
      m.send cmd := by
  have hTail : (advanceAdminSq c).adminSqTail.toUInt32.toNat =
      (c.adminSqTail.toNat + 1) % 32 := by
    rw [UInt16.toNat_toUInt32, advanceAdminSq, h.sqDepth]
    exact toNat_adminAdvance h.sqTail_lt
  rw [Hardware.after, Hardware.writeReg_sqTail, hTail, h.ringAdminSq_eq, hSqe,
    Hardware.send, h.sqTail]

theorem safe_submitCommand {Q : α → Hardware → Prop} {cmd : AdminCommand}
    {k : Bool × ControllerData → Admin α} (hStable : hardware.Stable P) (hP : P m)
    (hWired : ∀ m, P m → Wired c m)
    (hSpec : ∀ m e, P m → Routine e → spec e m)
    (hPut : ∀ m, P m → P (m.putSqe c.adminSqVirtAddr c.adminSqTail.toNat cmd))
    (hNext : ∀ m, P m →
      ok m (.regWrite nvmeDoorbellBase (advanceAdminSq c).adminSqTail.toUInt32) →
      Safe hardware ok spec Q (k (true, advanceAdminSq c)) (m.send cmd)) :
    Safe hardware ok spec Q (submitCommand c cmd >>= k) m := by
  rw [submitCommand_eq (hWired m hP).bar0 (hWired m hP).sqDb]
  refine safe_effect hStable hP (fun m hm => hSpec m _ hm ⟨nofun, nofun⟩) fun m _ hm _ _ => ?_
  -- The stored entry stays in place until the doorbell is rung.
  refine safe_effect (P := fun m => P m ∧
      m.sqe c.adminSqVirtAddr c.adminSqTail.toNat = cmd) ?_ ⟨hPut m hm, ?_⟩
    (fun m hm => hSpec m _ hm.1 ⟨nofun, nofun⟩) fun m _ hm hOk _ => ?_
  · rintro m b m' ⟨hm, hSqe⟩ hEnv
    refine ⟨hStable m b m' hm hEnv, ?_⟩
    rw [Hardware.device_sqe hEnv, hSqe]
  · simp [Hardware.after, Hardware.putSqe]
  · rw [(hWired m hm.1).after_doorbell _ hm.2]
    exact hNext m hm.1 hOk

/-- An entry of the completion queue carries the phase the host expects. -/
def Fresh (c : ControllerData) (m : Hardware) : Prop :=
  cqePhase (m.cqe c.adminCqVirtAddr c.adminCqHead.toNat) = c.adminCqPhase.toNat

/-- The completion reports success. -/
def Succeeded (cqe : NvmeCqEntry) : Bool := cqeSct cqe.psf = 0 ∧ cqeSc cqe.psf = 0

theorem fresh_iff {c : ControllerData} {m : Hardware} :
    (m.cqe c.adminCqVirtAddr c.adminCqHead.toNat).psf &&& nvmeCqePhaseMask =
      c.adminCqPhase.toUInt16 ↔ Fresh c m := by
  rw [Fresh, cqePhase, ← UInt8.toNat_toUInt16, UInt16.toNat_inj]

theorem safe_takeCompletion {Q : Bool × ControllerData → Hardware → Prop}
    {cqe : NvmeCqEntry} (hStable : hardware.Stable P) (hP : P m)
    (hWired : ∀ m, P m → Wired c m)
    (hSpec : ∀ m e, P m → Routine e → spec e m)
    (hDb : ∀ m v, P m → P { m with cqHeadDb := v })
    (hQ : ∀ m, P m → Q (Succeeded cqe, advanceAdminCq c) m) :
    Safe hardware ok spec Q (takeCompletion c cqe) m := by
  have hW := hWired m hP
  have hProg : takeCompletion c cqe =
      .op (.regWrite (adminCqHeadDoorbell m.cap) (advanceAdminCq c).adminCqHead.toUInt32)
        fun _ =>
          if cqeSct cqe.psf ≠ 0 ∨ cqeSc cqe.psf ≠ 0 then
            .op (.printErrno "NVMe admin command completed with error") fun _ =>
              .pure (false, advanceAdminCq c)
          else .pure (true, advanceAdminCq c) := by
    have hBar0 : (advanceAdminCq c).bar0Virt ≠ 0 := hW.bar0
    have hCqDb : (advanceAdminCq c).adminCqHeadDb = adminCqHeadDoorbell m.cap := hW.cqDb
    unfold takeCompletion
    dsimp only
    rw [hCqDb, controllerRegWrite32_eq hBar0 (adminCqHeadDoorbell_aligned m.cap)]
    rfl
  rw [hProg]
  -- CAP does not change, so the doorbell is still where it was computed to be.
  have hCap : hardware.Stable fun m' => P m' ∧ m'.cap = m.cap := by
    rintro m₁ b m₂ ⟨hm, hEq⟩ hEnv
    refine ⟨hStable m₁ b m₂ hm hEnv, ?_⟩
    obtain ⟨_, _, _, _, rfl⟩ | ⟨_, _, _, _, _, rfl⟩ | ⟨_, _, _, _, _, _, _, _, rfl⟩ :=
      Hardware.device_cases hEnv
    · exact hEq
    · rw [Hardware.apply_eq]
      exact hEq
    · exact hEq
  refine safe_effect hCap ⟨hP, rfl⟩ (fun m hm => hSpec m _ hm.1 ⟨nofun, nofun⟩)
    fun m' _ hm _ _ => ?_
  have hAfter : P (m'.after (.regWrite (adminCqHeadDoorbell m.cap)
      (advanceAdminCq c).adminCqHead.toUInt32) ()) := by
    rw [Hardware.after, ← hm.2, Hardware.writeReg_cqHead]
    exact hDb m' _ hm.1
  split
  · rename_i hStatus
    have hFailed : Succeeded cqe = false := by
      rw [Succeeded, decide_eq_false_iff_not]
      tauto
    rw [hFailed] at hQ
    refine safe_effect hStable hAfter (fun m hm => hSpec m _ hm ⟨nofun, by decide⟩)
      fun m'' _ hm'' _ _ => ?_
    exact Safe.pure hStable hm'' (fun m hm => hSpec m _ hm ⟨nofun, nofun⟩) hQ
  · rename_i hStatus
    have hGood : Succeeded cqe = true := by
      rw [Succeeded, decide_eq_true_iff]
      tauto
    rw [hGood] at hQ
    exact Safe.pure hStable hAfter (fun m hm => hSpec m _ hm ⟨nofun, nofun⟩) hQ

/-- Waiting for a command: `P` is known while the command may be under way, `T` once its
completion has been read, and `O` once the completion of another one has. -/
theorem safe_waitAdminCompletionLoop {Q : Bool × ControllerData → Hardware → Prop}
    {T : NvmeCqEntry → Hardware → Prop} {O : Hardware → Prop} {cmdId : UInt16}
    {left : Nat} (hStable : hardware.Stable P)
    (hStable' : ∀ e, hardware.Stable (T e)) (hStableO : hardware.Stable O) (hP : P m)
    (hWired : ∀ e m, T e m → Wired c m)
    (hSpec : ∀ m e, P m → Routine e → spec e m)
    (hSpec' : ∀ m e cqe, T cqe m → Routine e → spec e m)
    (hTimeout : ∀ m, P m → ok m (.printErrno adminTimeoutMessage) →
      ∀ m', P m' → Q (false, c) m')
    (hOther : ∀ m, P m → Fresh c m →
      (m.cqe c.adminCqVirtAddr c.adminCqHead.toNat).cid ≠ cmdId → O m)
    (hExit : ∀ m, O m → spec (some (.printErrno unexpectedIdMessage)) m ∧ spec none m ∧
      Q (false, c) m)
    (hTaken : ∀ m, P m → Fresh c m →
      (m.cqe c.adminCqVirtAddr c.adminCqHead.toNat).cid = cmdId →
      T (m.cqe c.adminCqVirtAddr c.adminCqHead.toNat) m)
    (hDb : ∀ e m v, T e m → T e { m with cqHeadDb := v })
    (hQ : ∀ e m, T e m → Q (Succeeded e, advanceAdminCq c) m) :
    Safe hardware ok spec Q (waitAdminCompletionLoop c cmdId left) m := by
  induction left generalizing m with
  | zero =>
      refine safe_effect hStable hP (fun m hm => hSpec m _ hm ⟨nofun, by decide⟩)
        fun m _ hm hOk _ => ?_
      exact Safe.pure hStable hm (fun m hm => hSpec m _ hm ⟨nofun, nofun⟩) (hTimeout m hm hOk)
  | succ left ih =>
      refine safe_effect hStable hP (fun m hm => hSpec m _ hm ⟨nofun, nofun⟩)
        fun m cqe hm _ hCqe => ?_
      obtain rfl : cqe = m.cqe c.adminCqVirtAddr c.adminCqHead.toNat := hCqe
      show Safe hardware ok spec Q (if _ then _ else _) m
      split
      · rename_i hPhase
        have hFresh := fresh_iff.mp hPhase
        split
        · rename_i hCid
          refine safe_effect hStableO (hOther m hm hFresh hCid)
            (fun m' hm' => (hExit m' hm').1) fun m' _ hm' _ _ => ?_
          exact Safe.pure hStableO hm' (fun m' hm' => (hExit m' hm').2.1)
            fun m' hm' => (hExit m' hm').2.2
        · rename_i hCid
          exact safe_takeCompletion (hStable' _) (hTaken m hm hFresh (not_not.mp hCid))
            (hWired _) (fun m e => hSpec' m e _) (hDb _) (hQ _)
      · exact ih hm

end Commands

end NewPerf.Tools
