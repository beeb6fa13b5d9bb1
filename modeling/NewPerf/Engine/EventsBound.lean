import NewPerf.Engine.ExactlyOnce
import Mathlib.Data.List.Perm.Subperm

/-!
# `poll_cq` stays inside `events[]`

`poll_cq` stores at `events[n->nr_events + count]` without looking at the size of the
array.  What keeps the index small is the command id table: the requests whose
completions have been taken since `nvme_getevents` was called, and the one whose
completion is being taken, all had a place in it when the call was made, so their
command ids are distinct, and there are 65536 of these.
-/

namespace NewPerf.Engine

open NewPerf.Lib.Ring
open NewPerf.Lib.Runs
open NewPerf.Tools

/-- What holds about the loop of `poll_cq` in one state. -/
structure EventsInBounds (s : Sys) : Prop where
  /-- A store goes to one of the 65536 elements, and `++count` does not wrap. -/
  store : ∀ g l n' l', s.pc = .poll g l → pollIter s.nvme (s.cq l.head.toNat) l = .next n' l' →
    s.nvme.nrEvents + l.count.toNat < 65536 ∧ l'.count.toNat = l.count.toNat + 1
  /-- `count` is the number of completions taken by this call of `poll_cq`: with those of
  the calls before it they are all the host has reaped.  Adding it to `nr_events` gives at
  most the size of the array. -/
  returned : ∀ g l, s.pc = .poll g l →
    s.delivered.length + s.nvme.nrEvents + l.count.toNat = s.reaped ∧
      s.nvme.nrEvents + l.count.toNat ≤ 65536

variable {s : Sys} {known base got : Nat}

/-- Submissions completed by the posted completions from number `got` up to number `k`. -/
def newlyTaken (s : Sys) (got k : Nat) : List Nat :=
  ((s.done.take k).drop got).map Done.pos

theorem length_newlyTaken {k : Nat} (hk : k ≤ s.done.length) :
    (newlyTaken s got k).length = k - got := by
  rw [newlyTaken, List.length_map, List.length_drop, List.length_take, Nat.min_eq_left hk]

theorem takenPos_append_newlyTaken {k : Nat} (hk : got ≤ k) :
    takenPos s got ++ newlyTaken s got k = takenPos s k := by
  rw [takenPos, newlyTaken, takenPos, ← List.map_append]
  congr 1
  conv_rhs => rw [← List.take_append_drop got (s.done.take k), List.take_take,
    Nat.min_eq_left hk]

theorem Inv.nodup_takenPos (h : Inv s known base got) (k : Nat) : (takenPos s k).Nodup :=
  h.dev.done_nodup.sublist ((List.take_sublist k s.done).map Done.pos)

theorem Inv.nodup_newlyTaken (h : Inv s known base got) {k : Nat} (hk : got ≤ k) :
    (takenPos s got ++ newlyTaken s got k).Nodup := by
  rw [takenPos_append_newlyTaken hk]
  exact h.nodup_takenPos k

/-- The requests `fio` has not got back have distinct command ids, so at most 65536 of
them have been completed. -/
theorem Inv.completed_le (h : Inv s known base got) {k : Nat} (hGot : got ≤ k)
    (hk : k ≤ s.done.length) : k ≤ got + 65536 := by
  have hNodup := h.nodup_newlyTaken hGot
  have hLt : ∀ p ∈ newlyTaken s got k, p < s.log.length := by
    intro p hp
    obtain ⟨d, hd, rfl⟩ := List.mem_map.mp hp
    have hDone : d ∈ s.done := List.mem_of_mem_take (List.mem_of_mem_drop hd)
    exact Nat.lt_of_lt_of_le (h.dev.pos_lt hDone) h.sq.fetched_le
  have hFresh : ∀ p ∈ newlyTaken s got k, p ∉ takenPos s got := by
    intro p hp hTaken
    exact List.disjoint_of_nodup_append hNodup hTaken hp
  have hCids : ((newlyTaken s got k).map fun p => (cidAt p).toNat).Nodup := by
    refine List.Nodup.map_on (fun p hp q hq hEq => ?_) hNodup.of_append_right
    exact h.table.distinct p q (hLt p hp) (hLt q hq) (hFresh p hp) (hFresh q hq)
      (UInt16.toNat_inj.mp hEq)
  have hSubset : ((newlyTaken s got k).map fun p => (cidAt p).toNat) ⊆ List.range 65536 := by
    intro cid hCid
    obtain ⟨p, -, rfl⟩ := List.mem_map.mp hCid
    exact List.mem_range.mpr (UInt16.toNat_lt (cidAt p))
  have hLength := (List.subperm_of_subset hCids hSubset).length_le
  rw [List.length_map, length_newlyTaken hk, List.length_range] at hLength
  omega

theorem Inv.length_delivered (h : Inv s known base got) : s.delivered.length = got := by
  have hGot := h.table.got_le
  have hReaped := h.cq.reaped_le
  rw [h.table.delivered, List.length_map, List.length_take, Nat.min_eq_left (by omega)]

theorem Inv.eventsInBounds (h : Inv s known base got) : EventsInBounds s where
  store := by
    intro g l n' l' hPc hNext
    have hHost := h.host
    rw [hPc] at hHost
    obtain ⟨hMore, hPhase, ioU, -, -, rfl⟩ := pollIter_next hNext
    cases hHost with
    | poll hBase hCount hGot hEvents hOld hAt =>
        have hPosted : s.reaped < s.done.length := (h.cq.phase_iff hAt).mp hPhase
        have hLe := h.completed_le (k := s.reaped + 1) (by omega) hPosted
        obtain ⟨hBelow, hSucc⟩ := l.count_succ hCount hMore
        have hMax : l.maxCount.toNat < 65536 := UInt16.toNat_lt l.maxCount
        exact ⟨by omega, hSucc⟩
  returned := by
    intro g l hPc
    have hHost := h.host
    rw [hPc] at hHost
    cases hHost with
    | poll hBase hCount hGot hEvents hOld hAt =>
        have hLe := h.completed_le (k := s.reaped) (by omega) h.cq.reaped_le
        have hDelivered := h.length_delivered
        exact ⟨by omega, by omega⟩

/-- In every state of every run, whatever `nvme_getevents` is asked for and whatever the
device completes meanwhile, `poll_cq` stores inside `events[]` and its counter does not
wrap. -/
theorem eventsInBounds_of_run {fioHasMrt : Bool} {ok : Sys → Act → Prop} {n : NvmeData}
    {as : List Act} (hFresh : FreshPair n)
    (hRun : Run (step fioHasMrt) ok (start n) as s) : EventsInBounds s := by
  obtain ⟨known, base, got, h⟩ := inv_of_run hFresh hRun
  exact h.eventsInBounds

/-- A read that `nvme_getevents` has found completed, with room for 100000 events. -/
def oneStored : List Act :=
  [.queue smallThread smallController (readInto 0x7000 512), .fetch, .post 0 0,
    .getevents 1 100000 false, .host, .host]

theorem eventsInBounds_of_run_oneStored :
    ∃ s g l, Run (step true) (fun _ _ => True) (start smallPair) oneStored s ∧
      s.pc = .poll g l ∧ l.count = 1 ∧ EventsInBounds s := by
  obtain ⟨s, hExec, g, l, hPc, hCount⟩ : ∃ s, exec (step true) (fun _ _ => true)
      (start smallPair) oneStored = some s ∧ ∃ g l, s.pc = .poll g l ∧ l.count = 1 :=
    ⟨_, rfl, _, _, rfl, rfl⟩
  have hRun : Run (step true) (fun _ _ => True) (start smallPair) oneStored s :=
    Run.of_exec (fun _ _ _ => trivial) hExec
  exact ⟨s, g, l, hRun, hPc, hCount, eventsInBounds_of_run freshPair_smallPair hRun⟩

end NewPerf.Engine
