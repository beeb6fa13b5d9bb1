import NewPerf.Tools.AdminFields
import NewPerf.Tools.Capabilities
import NewPerf.Tools.PairBuilt

/-!
# Which doorbells the host uses

`controller_init` and `create_io_queue_pair` compute the doorbell offsets from CAP and
the queue id and keep them in `struct controller_data` and `struct nvme_data`.  The
lemmas here follow the fields through the administrative functions.  They hold
whatever the hardware answers, as long as CAP reads as one fixed value, so they are
about programs alone (`Prog.Ensures`).
-/

namespace NewPerf.Tools

open NewPerf.Lib.Programs

section Walk

variable {cap : UInt64} {c : ControllerData}

/-! ## Admin commands -/

/-- The offsets of the admin doorbells belong to the wiring of the controller. -/
theorem AdminDoorbells.sameWiring {c' : ControllerData} (h : AdminDoorbells cap c)
    (hSame : SameWiring c c') : AdminDoorbells cap c' :=
  ⟨hSame.sqDb.trans h.1, hSame.cqDb.trans h.2⟩

theorem ensures_serves {α : Type} {f : α → ControllerData} {p : Admin α}
    (h : AdminDoorbells cap c) (hServes : Serves c f p) :
    p.Ensures (CapAnswer cap) fun a => AdminDoorbells cap (f a) :=
  (Prog.Only.ensures hServes).mono fun _ hSame => h.sameWiring hSame

theorem ensures_allocDma (h : AdminDoorbells cap c) (size : UInt64) (mem : Mem) :
    (nvmeAllocDmaMem c size mem).Ensures (CapAnswer cap) fun r =>
      AdminDoorbells cap r.2.1 :=
  ensures_serves h (keeps_nvmeAllocDmaMem c size mem).serves

theorem ensures_fileSize (h : AdminDoorbells cap c) :
    (nvmeGetFileSize c).Ensures (CapAnswer cap) fun r => AdminDoorbells cap r.2 :=
  ensures_serves h (serves_nvmeGetFileSize c)

/-! ## Queue pairs -/

/-- The doorbells of a queue pair are where CAP and the queue id say. -/
def IoDoorbells (cap : UInt64) (n : NvmeData) : Prop :=
  n.ioSqTailDb = ioSqTailDoorbell cap (nvmeIoQid n) ∧
    n.ioCqHeadDb = ioCqHeadDoorbell cap (nvmeIoQid n)

/-- What is known when `create_io_queue_pair` returns. -/
def PairDone (cap : UInt64) (r : Bool × ControllerData × NvmeData) : Prop :=
  AdminDoorbells cap r.2.1 ∧ (r.1 = true → IoDoorbells cap r.2.2)

theorem ioDoorbells_of_built {may : (e : Effect) → e.Result → Prop} {n n' : NvmeData}
    (h : Built may cap n n') : IoDoorbells cap n' := by
  rw [h.ready]
  exact ⟨rfl, rfl⟩

theorem ensures_createIoQueuePair (h : AdminDoorbells cap c) (n : NvmeData) :
    (createIoQueuePair c n).Ensures (CapAnswer cap) (PairDone cap) :=
  ((ensures_serves h (keeps_createIoQueuePair c n).serves).and
    (builds_createIoQueuePair n (ensures_regRead64_cap c.bar0Virt))).mono fun _ hr =>
      ⟨hr.1, fun hTrue => by
        obtain ⟨_, rfl, hBuilt⟩ := hr.2 hTrue
        exact ioDoorbells_of_built hBuilt⟩

theorem ensures_deleteIoQueuePair (h : AdminDoorbells cap c) (n : NvmeData) :
    (deleteIoQueuePair c n).Ensures (CapAnswer cap) fun r => AdminDoorbells cap r.2.1 :=
  ensures_serves h (keeps_deleteIoQueuePair c n).serves

end Walk

/-! ## Offsets -/

/-- `NVME_BAR0_MAP_SIZE` -/
def nvmeBar0MapSize : Nat := 0x4000

/-- The distance between doorbells, `4 << CAP.DSTRD`. -/
def doorbellStride (cap : UInt64) : Nat := 4 * 2 ^ (capDstrd cap).toNat

/-- Where the standard puts a doorbell of queue `qid`. -/
def doorbellOffset (cap : UInt64) (qid : Nat) (cq : Bool) : Nat :=
  0x1000 + (2 * qid + cq.toNat) * doorbellStride cap

/-- Both doorbells of a queue id are inside the mapping of BAR0. -/
def InBar0 (cap : UInt64) (qid : Nat) : Prop :=
  0x1000 + (2 * qid + 1) * doorbellStride cap + 4 ≤ nvmeBar0MapSize

instance (cap : UInt64) (qid : Nat) : Decidable (InBar0 cap qid) :=
  inferInstanceAs (Decidable (_ ≤ _))

theorem toNat_stride (cap : UInt64) :
    ((4 : UInt32) <<< capDstrd cap).toNat = doorbellStride cap := by
  have hLt := capDstrd_lt cap
  have hPow : 2 ^ (capDstrd cap).toNat ≤ 2 ^ 15 := Nat.pow_le_pow_right (by decide) (by omega)
  rw [UInt32.toNat_shiftLeft, Nat.mod_eq_of_lt (show (capDstrd cap).toNat < 32 by omega),
    Nat.shiftLeft_eq, Nat.mod_eq_of_lt]
  · rfl
  · rw [show (4 : UInt32).toNat = 4 from rfl]
    omega

theorem toNat_adminCqHeadDoorbell (cap : UInt64) :
    (adminCqHeadDoorbell cap).toNat = doorbellOffset cap 0 true % 2 ^ 32 := by
  rw [adminCqHeadDoorbell, UInt32.toNat_add, toNat_stride, doorbellOffset]
  simp [nvmeDoorbellBase]

theorem toNat_ioSqTailDoorbell (cap : UInt64) (qid : UInt16) :
    (ioSqTailDoorbell cap qid).toNat = doorbellOffset cap qid.toNat false % 2 ^ 32 := by
  have hTwo : (2 * qid.toUInt32).toNat = 2 * qid.toNat := by
    have hLt := qid.toNat_lt
    rw [UInt32.toNat_mul, UInt16.toNat_toUInt32, Nat.mod_eq_of_lt]
    · rfl
    · rw [show (2 : UInt32).toNat = 2 from rfl]
      omega
  rw [ioSqTailDoorbell, UInt32.toNat_add, UInt32.toNat_mul, toNat_stride, hTwo,
    doorbellOffset, Nat.add_mod_mod]
  rfl

theorem toNat_ioCqHeadDoorbell (cap : UInt64) (qid : UInt16) :
    (ioCqHeadDoorbell cap qid).toNat = doorbellOffset cap qid.toNat true % 2 ^ 32 := by
  have hOdd : (2 * qid.toUInt32 + 1).toNat = 2 * qid.toNat + 1 := by
    have hLt := qid.toNat_lt
    rw [UInt32.toNat_add, UInt32.toNat_mul, UInt16.toNat_toUInt32, Nat.mod_add_mod,
      Nat.mod_eq_of_lt]
    · rfl
    · rw [show (2 : UInt32).toNat = 2 from rfl, show (1 : UInt32).toNat = 1 from rfl]
      omega
  rw [ioCqHeadDoorbell, UInt32.toNat_add, UInt32.toNat_mul, toNat_stride, hOdd,
    doorbellOffset, Nat.add_mod_mod]
  rfl

end NewPerf.Tools
