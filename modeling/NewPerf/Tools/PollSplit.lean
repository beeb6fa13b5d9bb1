import NewPerf.Lib.Loops
import NewPerf.Tools.PollCq
import Mathlib.Algebra.Order.BigOperators.Group.List
import Mathlib.Algebra.Order.Ring.Int

/-!
# Polling in pieces

While the device posts nothing, a call of `poll_cq` is a loop over the completion
queue as it stands.  The loop works on private copies of the head, the phase tag and
the count, which it writes back when it stops.  Seen from the structure it leaves
behind, one pass of the loop is a call `poll_cq(n, 1)`, so a call with a larger bound is
as many of these as the bound allows, and it does not matter where a call stops.
-/

namespace NewPerf.Tools

open NewPerf.Lib.Loops

/-- What a call of `poll_cq` does: the structure it leaves, the value it writes to the
register `io_cq_head_db`, if any, and the value it returns. -/
structure PollResult where
  nvme : NvmeData
  doorbell : Option UInt32
  returned : UInt16

def PollIter.pass : PollIter → Pass (NvmeData × PollLocals)
  | .stop => .stop
  | .exit => .fail
  | .next n l => .next (n, l)

/-- The body of the loop of `poll_cq` on a completion queue that does not change.  The
entry pointer `cqe` points at the entry number `head` all along. -/
def pollPass (cq : Nat → NvmeCqEntry) (s : NvmeData × PollLocals) :
    Pass (NvmeData × PollLocals) :=
  (pollIter s.1 (cq s.2.head.toNat) s.2).pass

/-- `poll_cq` on the completion queue `cq`; `none` is `exit(EXIT_FAILURE)`.  The loop
leaves at `count == max_count`, so there are at most `max_count` passes. -/
def pollCq (cq : Nat → NvmeCqEntry) (n : NvmeData) (max : Int) : Option PollResult :=
  match pollBegin n max with
  | none => some ⟨n, none, 0⟩
  | some l =>
      (upTo (pollPass cq) l.maxCount.toNat (n, l)).map fun r =>
        let (n', doorbell) := pollEnd r.1.1 r.1.2
        ⟨n', doorbell, r.1.2.count⟩

/-! ## One pass, written back -/

/-- The structure as it would be left if the loop stopped now. -/
def writeBack (n : NvmeData) (l : PollLocals) : NvmeData :=
  { n with
    icCqHead := l.head
    ioCqPahse := l.phaseTag
    nrEvents := n.nrEvents + l.count.toNat }

/-- A pass whose results are written back at once, as by `poll_cq(n, 1)`. -/
def pollOne (cq : Nat → NvmeCqEntry) (n : NvmeData) : Pass NvmeData :=
  (pollPass cq (n, ⟨1, 0, n.icCqHead, n.ioCqPahse⟩)).map fun s => writeBack s.1 s.2

variable {cq : Nat → NvmeCqEntry} {n : NvmeData} {l : PollLocals}

/-- The loop and what it would leave behind, with `k` passes to go. -/
def WritesBack (maxCount : UInt16) (k : Nat) (s : NvmeData × PollLocals) (n : NvmeData) : Prop :=
  s.2.maxCount = maxCount ∧ s.2.count.toNat + k = maxCount.toNat ∧ n = writeBack s.1 s.2

/-- A pass of the loop is a pass on the structure it would leave behind. -/
theorem WritesBack.pass {maxCount : UInt16} {k : Nat} {s : NvmeData × PollLocals} {m : NvmeData}
    (h : WritesBack maxCount (k + 1) s m) :
    Pass.Rel (WritesBack maxCount k) (pollPass cq s) (pollOne cq m) := by
  obtain ⟨n, l⟩ := s
  obtain ⟨rfl, hLeft, rfl⟩ := h
  dsimp only at hLeft
  have hMore : l.count ≠ l.maxCount := by
    intro hEq
    rw [hEq] at hLeft
    omega
  obtain ⟨-, hCount⟩ := l.count_succ (by omega) hMore
  let l' : PollLocals := ⟨1, 0, l.head, l.phaseTag⟩
  have hOne : l'.count ≠ l'.maxCount := show (0 : UInt16) ≠ 1 by decide
  show Pass.Rel (WritesBack l.maxCount k) (pollIter n (cq l.head.toNat) l).pass
    ((pollIter (writeBack n l) (cq l.head.toNat) l').pass.map fun s => writeBack s.1 s.2)
  by_cases hPhase : (cq l.head.toNat).psf &&& nvmeCqePhaseMask = l.phaseTag.toUInt16
  · by_cases hStatus : cqeSct (cq l.head.toNat).psf = 0 ∧ cqeSc (cq l.head.toNat).psf = 0
    · cases hIoU : n.cmdIoU (cq l.head.toNat).cid with
      | none =>
          rw [pollIter_unknown hMore hPhase hStatus hIoU,
            pollIter_unknown (n := writeBack n l) hOne hPhase hStatus hIoU]
          exact .fail
      | some ioU =>
          rw [pollIter_taken hMore hPhase hStatus hIoU,
            pollIter_taken (n := writeBack n l) hOne hPhase hStatus hIoU]
          refine .next ⟨rfl, ?_, ?_⟩
          · dsimp only
            omega
          · simp only [writeBack, hCount]
            rfl
    · rw [pollIter_failed hMore hPhase hStatus, pollIter_failed hOne hPhase hStatus]
      exact .fail
  · rw [pollIter_other_phase hPhase, pollIter_other_phase (l := l') hPhase]
    exact .stop

/-- `poll_cq` with a bound it does not cut down makes up to that many single passes. -/
theorem pollCq_eq {max : Int} (hPos : 1 ≤ max) (hMax : max ≤ 65535) :
    pollCq cq n max =
      (upTo (pollOne cq) max.toNat n).map fun r =>
        ⟨r.1, if r.2 = 0 then none else some r.1.icCqHead, UInt16.ofNat r.2⟩ := by
  have hBound : (UInt16.ofNat max.toNat).toNat = max.toNat := by
    rw [UInt16.toNat_ofNat', Nat.mod_eq_of_lt (by omega)]
  have hBegin : pollBegin n max = some ⟨UInt16.ofNat max.toNat, 0, n.icCqHead, n.ioCqPahse⟩ := by
    rw [pollBegin, if_neg (by omega), if_neg (by omega)]
  have hStart : WritesBack (UInt16.ofNat max.toNat) max.toNat
      (n, ⟨UInt16.ofNat max.toNat, 0, n.icCqHead, n.ioCqPahse⟩) n :=
    ⟨rfl, by rw [hBound]; exact Nat.zero_add _, rfl⟩
  unfold pollCq
  rw [hBegin]
  dsimp only
  rw [hBound]
  have hPass : ∀ k s m, WritesBack (UInt16.ofNat max.toNat) (k + 1) s m →
      Pass.Rel (WritesBack (UInt16.ofNat max.toNat) k) (pollPass cq s) (pollOne cq m) :=
    fun k s m h => h.pass
  rcases upTo_simulates hPass hStart with
    ⟨hLoop, hOnes⟩ | ⟨⟨n', l'⟩, m, j, hLoop, hOnes, -, hLeft, rfl⟩
  · rw [hLoop, hOnes]
    rfl
  have hLe := upTo_le hLoop
  dsimp only at hLeft
  have hCount : l'.count = UInt16.ofNat j := by
    apply UInt16.toNat_inj.mp
    rw [UInt16.toNat_ofNat', Nat.mod_eq_of_lt (by omega)]
    omega
  rw [hLoop, hOnes]
  dsimp only [Option.map_some]
  rw [hCount]
  by_cases hNone : j = 0
  · subst hNone
    have hSame := eq_of_upTo_zero hLoop
    rw [Prod.mk.injEq] at hSame
    obtain ⟨rfl, rfl⟩ := hSame
    rfl
  · have hSome : l'.count ≠ 0 := by
      intro hZero
      rw [hZero] at hLeft
      rw [UInt16.toNat_zero] at hLeft
      omega
    rw [if_neg hNone, pollEnd, if_pos hSome]
    rfl

/-! ## Several calls -/

/-- Where a sequence of calls of `poll_cq` has got to: the structure, the last value written
to the register `io_cq_head_db`, and the sum of the values returned. -/
structure PollTotal where
  nvme : NvmeData
  cqHeadDb : UInt32
  completions : Nat

/-- `completions += poll_cq(n, max)` -/
def pollMore (cq : Nat → NvmeCqEntry) (max : Int) (s : PollTotal) : Option PollTotal :=
  (pollCq cq s.nvme max).map fun r =>
    ⟨r.nvme, r.doorbell.getD s.cqHeadDb, s.completions + r.returned.toNat⟩

/-- Calls of `poll_cq` with the bounds `maxs`, one after the other. -/
def pollEach (cq : Nat → NvmeCqEntry) (maxs : List Int) (s : PollTotal) : Option PollTotal :=
  maxs.foldlM (fun s max => pollMore cq max s) s

variable {s : PollTotal}

theorem pollMore_eq {max : Int} (hPos : 1 ≤ max) (hMax : max ≤ 65535) :
    pollMore cq max s =
      (upTo (pollOne cq) max.toNat s.nvme).map fun r =>
        ⟨r.1, if r.2 = 0 then s.cqHeadDb else r.1.icCqHead, s.completions + r.2⟩ := by
  rw [pollMore, pollCq_eq hPos hMax, Option.map_map]
  cases hLoop : upTo (pollOne cq) max.toNat s.nvme with
  | none => rfl
  | some r =>
      obtain ⟨n', j⟩ := r
      have hLe := upTo_le hLoop
      have hReturned : (UInt16.ofNat j).toNat = j := by
        rw [UInt16.toNat_ofNat', Nat.mod_eq_of_lt (by omega)]
      rw [Option.map_some, Option.map_some]
      dsimp only [Function.comp]
      rw [hReturned]
      by_cases hNone : j = 0
      · rw [if_pos hNone, if_pos hNone]
        rfl
      · rw [if_neg hNone, if_neg hNone]
        rfl

theorem pollMore_of_nonpos {max : Int} (hMax : max ≤ 0) : pollMore cq max s = some s := by
  unfold pollMore pollCq pollBegin
  rw [if_pos hMax]
  rfl

/-- `poll_cq(n, a)` followed by `poll_cq(n, b)` is `poll_cq(n, a + b)`: one exits when the
other does, and otherwise the structure, the doorbell and the number of completions are
the same. -/
theorem pollMore_add (a b : Int) (ha : 1 ≤ a) (hb : 1 ≤ b) (hMax : a + b ≤ 65535) :
    (pollMore cq a s).bind (pollMore cq b) = pollMore cq (a + b) s := by
  rw [pollMore_eq ha (by omega), pollMore_eq (by omega) hMax,
    show (a + b).toNat = a.toNat + b.toNat by omega, upTo_add]
  cases hFirst : upTo (pollOne cq) a.toNat s.nvme with
  | none => rfl
  | some r =>
      obtain ⟨n', j⟩ := r
      rw [Option.map_some, Option.bind_some, Option.bind_some, pollMore_eq hb (by omega)]
      dsimp only
      cases hSecond : upTo (pollOne cq) b.toNat n' with
      | none => rfl
      | some q =>
          obtain ⟨n'', i⟩ := q
          simp only [Option.map_some, Option.some.injEq, PollTotal.mk.injEq, true_and]
          refine ⟨?_, Nat.add_assoc _ _ _⟩
          by_cases hNone : i = 0
          · -- The second call finds nothing, and the head is where the first one left it.
            subst hNone
            rw [eq_of_upTo_zero hSecond, if_pos rfl, Nat.add_zero]
          · rw [if_neg hNone, if_neg (by omega)]

/-- However a bound is cut into pieces, the calls together do what one call does. -/
theorem pollEach_eq_pollMore (maxs : List Int) (hPos : ∀ m ∈ maxs, 1 ≤ m)
    (hMax : maxs.sum ≤ 65535) : pollEach cq maxs s = pollMore cq maxs.sum s := by
  induction maxs generalizing s with
  | nil => exact (pollMore_of_nonpos (Int.le_refl 0)).symm
  | cons m maxs ih =>
      have hFirst : 1 ≤ m := hPos m List.mem_cons_self
      have hRest : ∀ m ∈ maxs, 1 ≤ m := fun m hm => hPos m (List.mem_cons_of_mem _ hm)
      rw [List.sum_cons] at hMax ⊢
      have hStep : pollEach cq (m :: maxs) s =
          (pollMore cq m s).bind fun s' => pollMore cq maxs.sum s' := by
        unfold pollEach
        rw [List.foldlM_cons]
        exact congrArg _ (funext fun s' => ih (s := s') hRest (by omega))
      rw [hStep]
      cases maxs with
      | nil =>
          simp [pollMore_of_nonpos]
      | cons m' maxs =>
          have hSum : 1 ≤ (m' :: maxs).sum := by
            have hHead : 1 ≤ m' := hRest m' List.mem_cons_self
            have hTail : 0 ≤ maxs.sum := List.sum_nonneg fun m hm =>
              Int.le_of_lt (hRest m (List.mem_cons_of_mem _ hm))
            rw [List.sum_cons]
            omega
          exact pollMore_add m _ hFirst hSum hMax

/-! ## Polling while completions arrive -/

/-- The entry `poll_cq` looks at after it has taken `i` completions. -/
def headAfter (n : NvmeData) : Nat → UInt32
  | 0 => n.icCqHead
  | i + 1 => ringAdvance (headAfter n i) n.ioCqDepth

/-- A pass moves the head by one entry. -/
theorem pollOne_next {n' : NvmeData} (h : pollOne cq n = .next n') :
    n'.icCqHead = ringAdvance n.icCqHead n.ioCqDepth ∧ n'.ioCqDepth = n.ioCqDepth := by
  unfold pollOne pollPass at h
  cases hIter : pollIter n (cq n.icCqHead.toNat) ⟨1, 0, n.icCqHead, n.ioCqPahse⟩ with
  | stop =>
      rw [hIter] at h
      cases h
  | exit =>
      rw [hIter] at h
      cases h
  | next m l =>
      rw [hIter] at h
      obtain ⟨-, -, ioU, -, rfl, rfl⟩ := pollIter_next hIter
      cases h
      exact ⟨rfl, rfl⟩

/-- The passes taken depend on the entries taken only. -/
theorem upTo_pollOne_congr {cq' : Nat → NvmeCqEntry} {j : Nat} {n' : NvmeData}
    (h : upTo (pollOne cq) j n = some (n', j))
    (hSame : ∀ i < j, cq' (headAfter n i).toNat = cq (headAfter n i).toNat) :
    upTo (pollOne cq') j n = some (n', j) := by
  let R : Nat → NvmeData → NvmeData → Prop := fun k m m' =>
    m' = m ∧ k ≤ j ∧ m.icCqHead = headAfter n (j - k) ∧ m.ioCqDepth = n.ioCqDepth
  have hBody : ∀ k m m', R (k + 1) m m' → Pass.Rel (R k) (pollOne cq m) (pollOne cq' m') := by
    rintro k m m' ⟨rfl, hLe, hHead, hDepth⟩
    have hEntry : pollOne cq' m' = pollOne cq m' := by
      unfold pollOne pollPass
      dsimp only
      rw [hHead, hSame _ (by omega)]
    rw [hEntry]
    cases hPass : pollOne cq m' with
    | stop => exact .stop
    | fail => exact .fail
    | next m =>
        obtain ⟨hNext, hKept⟩ := pollOne_next hPass
        refine .next ⟨rfl, by omega, ?_, by rw [hKept, hDepth]⟩
        rw [hNext, hHead, hDepth, show j - k = j - (k + 1) + 1 by omega]
        rfl
  have hStart : R j n n := ⟨rfl, Nat.le_refl j, by rw [Nat.sub_self]; rfl, rfl⟩
  rcases upTo_simulates hBody hStart with ⟨hNone, -⟩ | ⟨m, m', i, hLeft, hRight, hEnd⟩
  · rw [h] at hNone
    cases hNone
  · rw [h, Option.some.injEq, Prod.mk.injEq] at hLeft
    obtain ⟨rfl, rfl⟩ := hLeft
    rw [hRight, hEnd.1]

/-- What `nvme_getevents` has after polling with `max - completions` does not depend on
how the completions were spread over its calls of `poll_cq`: if the entries taken by the
first call are still there, polling for the rest gives what one call with the bound `max`
gives on the later completion queue. -/
theorem pollMore_rest {cq' : Nat → NvmeCqEntry} {s₁ : PollTotal} {max : Int} (hPos : 1 ≤ max)
    (hMax : max ≤ 65535) (hNew : s.completions = 0) (h : pollMore cq max s = some s₁)
    (hSame : ∀ i < s₁.completions,
      cq' (headAfter s.nvme i).toNat = cq (headAfter s.nvme i).toNat) :
    pollMore cq' (max - s₁.completions) s₁ = pollMore cq' max s := by
  rw [pollMore_eq hPos hMax, Option.map_eq_some_iff] at h
  obtain ⟨⟨n₁, j⟩, hLoop, rfl⟩ := h
  have hLe := upTo_le hLoop
  dsimp only at hSame ⊢
  rw [hNew, Nat.zero_add] at hSame ⊢
  by_cases hNone : j = 0
  · -- The first call has changed nothing.
    subst hNone
    rw [eq_of_upTo_zero hLoop, if_pos rfl, show max - ((0 : Nat) : Int) = max by omega, ← hNew]
  have hTaken := upTo_pollOne_congr (upTo_passes hLoop) hSame
  have hFirst : pollMore cq' j s = some ⟨n₁, if j = 0 then s.cqHeadDb else n₁.icCqHead, j⟩ := by
    rw [pollMore_eq (by omega) (by omega), Int.toNat_natCast, hTaken, hNew]
    simp
  by_cases hRest : 1 ≤ max - j
  · have hSplit : (pollMore cq' j s).bind (pollMore cq' (max - j)) =
        pollMore cq' (j + (max - j)) s := pollMore_add j (max - j) (by omega) hRest (by omega)
    rw [hFirst, Option.bind_some, show (j : Int) + (max - j) = max by omega] at hSplit
    exact hSplit
  · rw [pollMore_of_nonpos (by omega), show max = j by omega, hFirst]

/-- Polling in pieces is polling at once: for two calls on one completion queue, and for
the calls of `nvme_getevents`, which asks for what is missing of `max`. -/
theorem poll_in_pieces (cq : Nat → NvmeCqEntry) (s : PollTotal) :
    (∀ a b : Int, 1 ≤ a → 1 ≤ b → a + b ≤ 65535 →
      (pollMore cq a s).bind (pollMore cq b) = pollMore cq (a + b) s) ∧
    (∀ (max : Int) (cq' : Nat → NvmeCqEntry) (s₁ : PollTotal), 1 ≤ max → max ≤ 65535 →
      s.completions = 0 → pollMore cq max s = some s₁ →
      (∀ i < s₁.completions,
        cq' (headAfter s.nvme i).toNat = cq (headAfter s.nvme i).toNat) →
      pollMore cq' (max - s₁.completions) s₁ = pollMore cq' max s) :=
  ⟨fun a b ha hb hMax => pollMore_add a b ha hb hMax,
    fun _ _ _ hPos hMax hNew hFirst hSame => pollMore_rest hPos hMax hNew hFirst hSame⟩

/-- A pair with a completion queue of two entries and commands 1, 2 and 3 outstanding,
about to read the last entry of the ring. -/
def wrappingPair : NvmeData :=
  { icCqHead := 1, ioCqPahse := 1, ioSqDepth := 4, ioCqDepth := 2
    cmdIoU := fun cid => if cid = 0 ∨ cid > 3 then none else
      some { addr := cid.toUInt64, ddir := .read, offset := 0, xferBuflen := 512, xferBuf := 0 } }

/-- Commands 2 and 1 are completed, before and after the wrap of the ring. -/
def wrappingCq : Nat → NvmeCqEntry := fun i =>
  if i = 1 then { cid := 2, sqhd := 3, psf := 1 } else { cid := 1, sqhd := 3, psf := 0 }

theorem poll_in_pieces_wrap :
    (pollMore wrappingCq 1 ⟨wrappingPair, 1, 0⟩).bind (pollMore wrappingCq 3) =
      pollMore wrappingCq 4 ⟨wrappingPair, 1, 0⟩ ∧
    (pollMore wrappingCq 4 ⟨wrappingPair, 1, 0⟩).map
      (fun s => (s.completions, s.cqHeadDb, s.nvme.ioCqPahse)) = some (2, 1, 0) :=
  ⟨(poll_in_pieces wrappingCq ⟨wrappingPair, 1, 0⟩).1 1 3 (by decide) (by decide) (by decide),
    by decide⟩

end NewPerf.Tools
