import NewPerf.Engine.EventsBound
import NewPerf.Engine.ListMemory
import NewPerf.Lib.Executions

/-!
# `nvme_getevents` returns

`nvme_getevents` loops until it has `min` completions, so what it does while it waits
depends on the device.  Two things can be said.  Once enough completions have been posted
it returns within a number of steps that depends on `max` only, however the device goes on
meanwhile (`getevents_bounded`).  And if it is asked for no more than is outstanding, these
completions do come (`getevents_returns`): the device is never kept from posting them by a
full completion queue that nobody empties, because every call of `poll_cq` that takes
completions rings the head doorbell.  The second takes entries that nothing else has been
written over, hence lists that end inside their region.
-/

namespace NewPerf.Engine

open NewPerf.Lib.Ring
open NewPerf.Lib.Runs
open NewPerf.Tools

/-! ## Who does what -/

def Act.isHost : Act → Bool
  | .host => true
  | _ => false

def Act.OfDevice : Act → Prop
  | .fetch => True
  | .post .. => True
  | _ => False

/-- `nvme_getevents` is called with `min <= max <= INT_MAX`; nothing is asked of the
device. -/
def AskedFor (_ : Sys) : Act → Prop
  | .getevents min max _ => min.toNat ≤ max.toNat ∧ max.toNat < 2 ^ 31
  | _ => True

instance decidableAskedFor (s : Sys) (a : Act) : Decidable (AskedFor s a) :=
  match a with
  | .getevents min max _ =>
      inferInstanceAs (Decidable (min.toNat ≤ max.toNat ∧ max.toNat < 2 ^ 31))
  | .queue .. | .host | .giveUp | .fetch | .post .. => inferInstanceAs (Decidable True)

/-- The call of `nvme_getevents` that is running. -/
def HostPc.call : HostPc → Option GetEvents
  | .idle => none
  | .loop g => some g
  | .poll g _ => some g
  | .check g => some g
  | .exited => none

/-- What the call may still take. -/
def GetEvents.room (g : GetEvents) : Nat := g.max.toNat - g.completions

structure GetEvents.Sane (g : GetEvents) : Prop where
  min_le : g.min.toNat ≤ g.max.toNat
  max_lt : g.max.toNat < 2 ^ 31
  completions_le : g.completions ≤ g.max.toNat

inductive Asked : HostPc → Prop where
  | idle : Asked .idle
  | loop {g : GetEvents} (hSane : g.Sane) : Asked (.loop g)
  | poll {g : GetEvents} {l : PollLocals} (hSane : g.Sane) (hRoom : 0 < g.room)
      (hMax : l.maxCount.toNat = min g.room 65535) : Asked (.poll g l)
  | check {g : GetEvents} (hSane : g.Sane) : Asked (.check g)
  | exited : Asked .exited

/-- Statements left in the call, if `poll_cq` does not stop short of `min`.  A call of
`poll_cq` takes at most 65535 completions. -/
def HostPc.rank : HostPc → Nat
  | .idle => 0
  | .loop g => g.room + 3 * (g.room / 65535 + 1)
  | .poll g l => g.room - l.count.toNat + 3 * (g.room / 65535) + 2
  | .check g => if g.min.toNat ≤ g.completions then 1
      else g.room + 3 * (g.room / 65535 + 1) + 1
  | .exited => 0

/-! ## The statements of the host -/

inductive HostMoves (s : Sys) : Sys → Prop where
  | enter {g : GetEvents} {l : PollLocals} (hPc : s.pc = .loop g)
      (hBegin : pollBegin s.nvme (toCInt (g.max - UInt32.ofNat g.completions)) = some l) :
      HostMoves s { s with pc := .poll g l }
  | skip {g : GetEvents} (hPc : s.pc = .loop g)
      (hBegin : pollBegin s.nvme (toCInt (g.max - UInt32.ofNat g.completions)) = none) :
      HostMoves s { s with pc := .check g }
  | exit {g : GetEvents} {l : PollLocals} (hPc : s.pc = .poll g l)
      (hIter : pollIter s.nvme (s.cq l.head.toNat) l = .exit) :
      HostMoves s { s with pc := .exited }
  | next {g : GetEvents} {l l' : PollLocals} {n' : NvmeData} (hPc : s.pc = .poll g l)
      (hIter : pollIter s.nvme (s.cq l.head.toNat) l = .next n' l') :
      HostMoves s { s with nvme := n', pc := .poll g l', reaped := s.reaped + 1 }
  | stop {g : GetEvents} {l : PollLocals} (hPc : s.pc = .poll g l)
      (hIter : pollIter s.nvme (s.cq l.head.toNat) l = .stop) :
      HostMoves s { s with
        nvme := (pollEnd s.nvme l).1
        cqHeadDb := (pollEnd s.nvme l).2.getD s.cqHeadDb
        pc := .check { g with completions := g.completions + l.count.toNat } }
  | leave {g : GetEvents} (hPc : s.pc = .check g)
      (hEnough : (g.completions : Int) ≥ toCInt g.min) : HostMoves s (returnEvents s g)
  | again {g : GetEvents} (hPc : s.pc = .check g)
      (hNot : ¬ (g.completions : Int) ≥ toCInt g.min) : HostMoves s { s with pc := .loop g }

section Steps

variable {s s' : Sys} {known base got : Nat} {fioHasMrt : Bool}

theorem hostStep_cases (hStep : hostStep s = some s') : HostMoves s s' := by
  unfold hostStep at hStep
  split at hStep
  case h_1 => cases hStep
  case h_2 => cases hStep
  case h_3 g hPc =>
      split at hStep
      · cases hStep
        exact .skip hPc ‹_›
      · cases hStep
        exact .enter hPc ‹_›
  case h_4 g l hPc =>
      split at hStep
      · cases hStep
        exact .exit hPc ‹_›
      · cases hStep
        exact .next hPc ‹_›
      · cases hStep
        exact .stop hPc ‹_›
  case h_5 g hPc =>
      split at hStep
      · cases hStep
        exact .leave hPc ‹_›
      · cases hStep
        exact .again hPc ‹_›

theorem HostMoves.inside (h : HostMoves s s') : s.pc.call.isSome := by
  cases h with
  | enter hPc => rw [hPc]; rfl
  | skip hPc => rw [hPc]; rfl
  | exit hPc => rw [hPc]; rfl
  | next hPc => rw [hPc]; rfl
  | stop hPc => rw [hPc]; rfl
  | leave hPc => rw [hPc]; rfl
  | again hPc => rw [hPc]; rfl

/-- Inside a call the host can always go on. -/
theorem hostStep_isSome (hCall : s.pc.call.isSome) : (hostStep s).isSome := by
  unfold hostStep
  cases hPc : s.pc with
  | idle => rw [hPc] at hCall; cases hCall
  | exited => rw [hPc] at hCall; cases hCall
  | loop g =>
      dsimp only
      split
      · rfl
      · rfl
  | poll g l =>
      dsimp only
      split
      · rfl
      · rfl
      · rfl
  | check g =>
      dsimp only
      split
      · rfl
      · rfl

/-- `poll_cq` is entered with as large a bound as fits its counter. -/
private theorem pollBegin_room {n : NvmeData} {g : GetEvents} (hSane : g.Sane) :
    pollBegin n (toCInt (g.max - UInt32.ofNat g.completions)) =
      if g.room = 0 then none
      else some ⟨UInt16.ofNat (min g.room 65535), 0, n.icCqHead, n.ioCqPahse⟩ := by
  obtain ⟨-, hMax, hLe⟩ := hSane
  have hSub : (g.max - UInt32.ofNat g.completions).toNat = g.room := by
    rw [UInt32.toNat_sub, UInt32.toNat_ofNat', GetEvents.room]
    omega
  have hBudget : toCInt (g.max - UInt32.ofNat g.completions) = (g.room : Int) := by
    rw [toCInt_of_lt (by rw [hSub, GetEvents.room]; omega), hSub]
  rw [hBudget, pollBegin]
  by_cases hNone : g.room = 0
  · rw [if_pos hNone, if_pos (by omega)]
  · rw [if_neg hNone, if_neg (by omega), Int.toNat_natCast]
    by_cases hBig : g.room ≤ 65535
    · rw [if_neg (by omega), Nat.min_eq_left hBig]
    · rw [if_pos (by omega), Nat.min_eq_right (by omega)]
      rfl

private theorem toNat_maxCount (room : Nat) :
    (UInt16.ofNat (min room 65535)).toNat = min room 65535 := by
  have hLe : min room 65535 ≤ 65535 := Nat.min_le_right room 65535
  rw [UInt16.toNat_ofNat', Nat.mod_eq_of_lt (by omega)]

theorem Asked.hostStep (h : Inv s known base got) (hAsked : Asked s.pc)
    (hStep : HostMoves s s') : Asked s'.pc := by
  have hHost := h.host
  cases hStep with
  | @enter g l hPc hBegin =>
      rw [hPc] at hAsked
      cases hAsked with
      | loop hSane =>
          rw [pollBegin_room hSane] at hBegin
          split at hBegin
          · cases hBegin
          · cases hBegin
            exact .poll hSane (by omega) (toNat_maxCount _)
  | skip hPc hBegin =>
      rw [hPc] at hAsked
      cases hAsked with
      | loop hSane => exact .check hSane
  | exit hPc hIter => exact .exited
  | next hPc hIter =>
      rw [hPc] at hAsked
      obtain ⟨-, -, ioU, -, -, rfl⟩ := pollIter_next hIter
      cases hAsked with
      | poll hSane hRoom hMax => exact .poll hSane hRoom hMax
  | @stop g l hPc hIter =>
      rw [hPc] at hAsked hHost
      cases hAsked with
      | poll hSane hRoom hMax =>
          cases hHost with
          | poll hBase hCount hGot hEvents hOld hAt =>
              have hRoomEq : g.room = g.max.toNat - g.completions := rfl
              have hLe := hSane.completions_le
              exact .check ⟨hSane.min_le, hSane.max_lt, by dsimp only; omega⟩
  | leave hPc hEnough => exact .idle
  | again hPc hNot =>
      rw [hPc] at hAsked
      cases hAsked with
      | check hSane => exact .loop hSane

/-- If `poll_cq` does not stop early with less than `min`, every statement reduces the
rank. -/
theorem rank_hostStep (h : Inv s known base got) (hAsked : Asked s.pc)
    (hStep : HostMoves s s')
    (hPosted : ∀ g l, s.pc = .poll g l → s.reaped = s.done.length → s'.pc.call.isSome →
      g.min.toNat ≤ g.completions + l.count.toNat) : s'.pc.rank < s.pc.rank := by
  have hHost := h.host
  cases hStep with
  | @enter g l hPc hBegin =>
      rw [hPc] at hAsked ⊢
      cases hAsked with
      | loop hSane =>
          rw [pollBegin_room hSane] at hBegin
          split at hBegin
          · cases hBegin
          · cases hBegin
            simp only [HostPc.rank, UInt16.toNat_zero]
            omega
  | @skip g hPc hBegin =>
      rw [hPc] at hAsked ⊢
      cases hAsked with
      | loop hSane =>
          rw [pollBegin_room hSane] at hBegin
          split at hBegin
          · rename_i hNone
            have hMin := hSane.min_le
            have hLe := hSane.completions_le
            unfold GetEvents.room at hNone
            simp only [HostPc.rank]
            rw [if_pos (by omega)]
            omega
          · cases hBegin
  | exit hPc hIter =>
      rw [hPc]
      exact Nat.succ_pos _
  | @next g l l' n' hPc hIter =>
      rw [hPc] at hAsked hHost ⊢
      obtain ⟨hMore, -, ioU, -, -, rfl⟩ := pollIter_next hIter
      cases hAsked with
      | poll hSane hRoom hMax =>
          cases hHost with
          | poll hBase hCount hGot hEvents hOld hAt =>
              obtain ⟨hLt, hSucc⟩ := l.count_succ hCount hMore
              simp only [HostPc.rank, hSucc]
              omega
  | @stop g l hPc hIter =>
      rw [hPc] at hAsked hHost ⊢
      cases hAsked with
      | poll hSane hRoom hMax =>
          cases hHost with
          | poll hBase hCount hGot hEvents hOld hAt =>
              simp only [HostPc.rank]
              split
              · omega
              · rename_i hLess
                -- The call stopped at its bound, which was not all the room there was.
                have hFull : l.count = l.maxCount := by
                  rcases pollIter_stop hIter with hMost | hPhase
                  · exact hMost
                  · have hReaped := h.cq.reaped_le
                    have hNone := mt (h.cq.phase_iff hAt).mpr hPhase
                    exact absurd (hPosted g l hPc (by omega) rfl) hLess
                rw [hFull, hMax] at hLess ⊢
                have hMin := hSane.min_le
                have hLe := hSane.completions_le
                simp only [GetEvents.room] at hLess hRoom ⊢
                omega
  | @leave g hPc hEnough =>
      rw [hPc]
      simp only [HostPc.rank, returnEvents]
      split
      · omega
      · omega
  | @again g hPc hNot =>
      rw [hPc] at hAsked ⊢
      cases hAsked with
      | check hSane =>
          have hMin := hSane.min_le
          have hMax := hSane.max_lt
          rw [toCInt_of_lt (by omega)] at hNot
          simp only [HostPc.rank]
          rw [if_neg (by omega)]
          omega

/-- What the host leaves alone inside a call. -/
structure HostKeeps (s s' : Sys) : Prop where
  log : s'.log = s.log
  fetched : s'.fetched = s.fetched
  inflight : s'.inflight = s.inflight
  done : s'.done = s.done
  sqTailDb : s'.sqTailDb = s.sqTailDb
  sqDepth : s'.nvme.ioSqDepth = s.nvme.ioSqDepth
  cqDepth : s'.nvme.ioCqDepth = s.nvme.ioCqDepth

private theorem pollEnd_depths (n : NvmeData) (l : PollLocals) :
    (pollEnd n l).1.ioSqDepth = n.ioSqDepth ∧ (pollEnd n l).1.ioCqDepth = n.ioCqDepth := by
  unfold pollEnd
  split
  · exact ⟨rfl, rfl⟩
  · exact ⟨rfl, rfl⟩

theorem HostMoves.keeps (h : HostMoves s s') : HostKeeps s s' := by
  cases h with
  | enter => exact ⟨rfl, rfl, rfl, rfl, rfl, rfl, rfl⟩
  | skip => exact ⟨rfl, rfl, rfl, rfl, rfl, rfl, rfl⟩
  | exit => exact ⟨rfl, rfl, rfl, rfl, rfl, rfl, rfl⟩
  | next hPc hIter =>
      obtain ⟨-, -, ioU, -, rfl, -⟩ := pollIter_next hIter
      exact ⟨rfl, rfl, rfl, rfl, rfl, rfl, rfl⟩
  | stop hPc hIter =>
      obtain ⟨hSq, hCq⟩ := pollEnd_depths s.nvme _
      exact ⟨rfl, rfl, rfl, rfl, rfl, hSq, hCq⟩
  | leave => exact ⟨rfl, rfl, rfl, rfl, rfl, rfl, rfl⟩
  | again => exact ⟨rfl, rfl, rfl, rfl, rfl, rfl, rfl⟩

/-- Inside a call, its arguments and what `fio` has got stay the same. -/
theorem HostMoves.call (h : HostMoves s s') {g g' : GetEvents} (hCall : s.pc.call = some g)
    (hCall' : s'.pc.call = some g') :
    g'.min = g.min ∧ g'.max = g.max ∧ g'.timed = g.timed ∧ s'.delivered = s.delivered := by
  cases h with
  | enter hPc hBegin =>
      rw [hPc] at hCall
      cases hCall
      cases hCall'
      exact ⟨rfl, rfl, rfl, rfl⟩
  | skip hPc hBegin =>
      rw [hPc] at hCall
      cases hCall
      cases hCall'
      exact ⟨rfl, rfl, rfl, rfl⟩
  | exit => cases hCall'
  | next hPc hIter =>
      rw [hPc] at hCall
      cases hCall
      cases hCall'
      exact ⟨rfl, rfl, rfl, rfl⟩
  | stop hPc hIter =>
      rw [hPc] at hCall
      cases hCall
      cases hCall'
      exact ⟨rfl, rfl, rfl, rfl⟩
  | leave => cases hCall'
  | again hPc hNot =>
      rw [hPc] at hCall
      cases hCall
      cases hCall'
      exact ⟨rfl, rfl, rfl, rfl⟩

/-- Steps other than the host's that can be taken inside a call. -/
inductive Meanwhile (s : Sys) : Act → Sys → Prop where
  | giveUp {g : GetEvents} (hPc : s.pc = .check g) (hTimed : g.timed = true) :
      Meanwhile s .giveUp (returnEvents s g)
  | fetch {s' : Sys} (hStep : fetchStep s = some s') : Meanwhile s .fetch s'
  | post {i : Nat} {status : UInt16} {s' : Sys} (hStep : postStep s i status = some s') :
      Meanwhile s (.post i status) s'

theorem step_inside {a : Act} (hCall : s.pc.call.isSome)
    (hStep : step fioHasMrt s a = some s') :
    (a = .host ∧ HostMoves s s') ∨ Meanwhile s a s' := by
  have hBusy : s.pc ≠ .idle := by
    intro hIdle
    rw [hIdle] at hCall
    cases hCall
  cases a with
  | queue td c ioU =>
      simp only [step, if_neg hBusy] at hStep
      cases hStep
  | getevents min max timed =>
      simp only [step, if_neg hBusy] at hStep
      cases hStep
  | host => exact .inl ⟨rfl, hostStep_cases hStep⟩
  | giveUp =>
      simp only [step] at hStep
      split at hStep
      · rename_i g hPc
        split at hStep
        · rename_i hTimed
          cases hStep
          exact .inr (.giveUp hPc (Bool.and_eq_true_iff.mp hTimed).1)
        · cases hStep
      · cases hStep
  | fetch => exact .inr (.fetch hStep)
  | post i status => exact .inr (.post hStep)

/-- The call may time out; the device does not interfere with it. -/
theorem Meanwhile.call {a : Act} (h : Meanwhile s a s') :
    (∃ g, a = .giveUp ∧ s.pc = .check g ∧ g.timed = true ∧ s'.pc = .idle) ∨
      s'.pc = s.pc ∧ s'.delivered = s.delivered ∧ s'.log = s.log ∧
        s'.nvme = s.nvme ∧ s.done.length ≤ s'.done.length := by
  cases h with
  | giveUp hPc hTimed => exact .inl ⟨_, rfl, hPc, hTimed, rfl⟩
  | fetch hStep =>
      obtain ⟨-, rfl⟩ := fetchStep_cases hStep
      exact .inr ⟨rfl, rfl, rfl, rfl, Nat.le_refl _⟩
  | post hStep =>
      obtain ⟨-, f, -, rfl⟩ := postStep_cases hStep
      refine .inr ⟨rfl, rfl, rfl, rfl, ?_⟩
      rw [List.length_append]
      exact Nat.le_add_right _ _

theorem Asked.step {a : Act} (h : Inv s known base got) (hAsked : Asked s.pc)
    (hOk : AskedFor s a) (hStep : step fioHasMrt s a = some s') : Asked s'.pc := by
  by_cases hCall : s.pc.call.isSome
  · rcases step_inside hCall hStep with ⟨-, hMoves⟩ | hOther
    · exact hAsked.hostStep h hMoves
    · rcases hOther.call with ⟨-, -, -, -, hIdle⟩ | ⟨hPc, -⟩
      · rw [hIdle]
        exact .idle
      · rw [hPc]
        exact hAsked
  · cases a with
    | queue td c ioU =>
        simp only [Engine.step] at hStep
        split at hStep
        · split at hStep
          · cases hStep
            exact hAsked
          · cases hStep
            exact hAsked
        · cases hStep
    | getevents min max timed =>
        simp only [Engine.step] at hStep
        split at hStep
        · cases hStep
          exact .loop ⟨hOk.1, hOk.2, Nat.zero_le _⟩
        · cases hStep
    | host => exact absurd (hostStep_cases hStep).inside hCall
    | giveUp =>
        simp only [Engine.step] at hStep
        split at hStep
        · rename_i g hPc
          exact absurd (by rw [hPc]; rfl) hCall
        · cases hStep
    | fetch =>
        rcases (Meanwhile.fetch hStep).call with ⟨-, -, -, -, hIdle⟩ | ⟨hPc, -⟩
        · rw [hIdle]
          exact .idle
        · rw [hPc]
          exact hAsked
    | post i status =>
        rcases (Meanwhile.post hStep).call with ⟨-, -, -, -, hIdle⟩ | ⟨hPc, -⟩
        · rw [hIdle]
          exact .idle
        · rw [hPc]
          exact hAsked

end Steps

/-! ## Once enough has been posted -/

section Bounded

variable {fioHasMrt : Bool} {n : NvmeData} {as bs : List Act} {s s' : Sys} {g : GetEvents}

/-- Where the call is, what it will still take is known. -/
private theorem rank_le {pc : HostPc} (hAsked : Asked pc) (hCall : pc.call = some g) :
    pc.rank ≤ g.max.toNat + 3 * (g.max.toNat / 65535 + 1) + 1 := by
  have hRoom : g.room ≤ g.max.toNat := Nat.sub_le _ _
  cases hAsked with
  | idle => cases hCall
  | loop hSane =>
      cases hCall
      simp only [HostPc.rank]
      omega
  | poll hSane hPos hMax =>
      cases hCall
      simp only [HostPc.rank]
      omega
  | check hSane =>
      cases hCall
      simp only [HostPc.rank]
      split
      · omega
      · omega
  | exited => cases hCall

theorem asked_of_run (hFresh : FreshPair n)
    (hRun : Run (step fioHasMrt) AskedFor (start n) as s) :
    (∃ known base got, Inv s known base got) ∧ Asked s.pc := by
  refine hRun.invariant (I := fun s => (∃ known base got, Inv s known base got) ∧ Asked s.pc)
    ⟨⟨0, 0, 0, inv_start hFresh⟩, .idle⟩ ?_
  rintro s a s' ⟨⟨known, base, got, h⟩, hAsked⟩ hOk hStep
  exact ⟨inv_step h hStep, hAsked.step h hOk hStep⟩

/-- The completions the running call waits for have been posted. -/
private structure Posted (s : Sys) : Prop where
  inv : ∃ known base got, Inv s known base got
  asked : Asked s.pc
  posted : ∀ g, s.pc.call = some g → g.min.toNat + s.delivered.length ≤ s.done.length

private theorem Posted.early (h : Posted s) {g : GetEvents} {l : PollLocals}
    (hPc : s.pc = .poll g l) (hAll : s.reaped = s.done.length) :
    g.min.toNat ≤ g.completions + l.count.toNat := by
  obtain ⟨known, base, got, hInv⟩ := h.inv
  have hPosted := h.posted g (by rw [hPc]; rfl)
  rw [hInv.length_delivered] at hPosted
  have hHost := hInv.host
  rw [hPc] at hHost
  cases hHost with
  | poll hBase hCount hGot hEvents hOld hAt => omega

private theorem Posted.step {a : Act} (h : Posted s) (hOk : AskedFor s a)
    (hCall : s.pc.call.isSome) (hStep : step fioHasMrt s a = some s') :
    Posted s' ∧ s'.pc.rank + (if a.isHost then 1 else 0) ≤ s.pc.rank := by
  obtain ⟨known, base, got, hInv⟩ := h.inv
  have hInv' := inv_step hInv hStep
  have hAsked' := h.asked.step hInv hOk hStep
  obtain ⟨g, hg⟩ := Option.isSome_iff_exists.mp hCall
  have hPosted := h.posted g hg
  rcases step_inside hCall hStep with ⟨rfl, hMoves⟩ | hOther
  · refine ⟨⟨hInv', hAsked', fun g' hg' => ?_⟩, ?_⟩
    · obtain ⟨hMin, -, -, hDelivered⟩ := hMoves.call hg hg'
      rw [hMin, hDelivered, hMoves.keeps.done]
      exact hPosted
    · exact rank_hostStep hInv h.asked hMoves fun g l hPc hAll _ => h.early hPc hAll
  · have hNotHost : a.isHost = false := by
      cases hOther with
      | giveUp => rfl
      | fetch => rfl
      | post => rfl
    rw [hNotHost, if_neg Bool.false_ne_true]
    rcases hOther.call with ⟨-, -, -, -, hIdle⟩ | ⟨hPc, hDelivered, -, -, hDone⟩
    · refine ⟨⟨hInv', hAsked', fun g' hg' => ?_⟩, ?_⟩
      · rw [hIdle] at hg'
        cases hg'
      · rw [hIdle]
        exact Nat.zero_le _
    · refine ⟨⟨hInv', hAsked', fun g' hg' => ?_⟩, by rw [hPc]; exact Nat.le_refl _⟩
      rw [hPc] at hg'
      have := h.posted g' hg'
      rw [hDelivered]
      omega

/-- One read, posted when `nvme_getevents` is called. -/
private def onePosted : List Act :=
  [.queue smallThread smallController (readInto 0x7000 512), .fetch, .post 0 0,
    .getevents 1 1 false]

private def fourHosts : List Act := List.replicate 4 .host

private theorem exec_onePosted :
    ∃ s s', exec (step true) (fun s a => decide (AskedFor s a)) (start smallPair) onePosted =
        some s ∧
      exec (step true) (fun s a => decide (AskedFor s a) && s.pc.call.isSome) s fourHosts =
        some s' ∧
      s.pc = .loop ⟨1, 1, false, 0⟩ ∧ 1 + s.delivered.length ≤ s.done.length ∧
      s'.pc = .idle ∧ s'.delivered.length = 1 := by
  have hEval : (exec (step true) (fun s a => decide (AskedFor s a)) (start smallPair)
      onePosted).any (fun s =>
        (exec (step true) (fun s a => decide (AskedFor s a) && s.pc.call.isSome) s
          fourHosts).any fun s' =>
            decide (s.pc = .loop ⟨1, 1, false, 0⟩ ∧ 1 + s.delivered.length ≤ s.done.length ∧
              s'.pc = .idle ∧ s'.delivered.length = 1)) = true := by
    decide +kernel
  obtain ⟨s, hExec, hRest⟩ := (Option.any_eq_true _ _).mp hEval
  obtain ⟨s', hExec', hEnd⟩ := (Option.any_eq_true _ _).mp hRest
  exact ⟨s, s', hExec, hExec', of_decide_eq_true hEnd⟩

end Bounded

/-! ## Whatever is asked for comes -/

/-- How the step `a` into `s'` has ended a call that was running in `s`: it returns what it
was asked for, its time is up, or the program gives up because a command has failed. -/
inductive CallEnded (g : GetEvents) (s : Sys) (a : Act) (s' : Sys) : Prop where
  | returned (hIdle : s'.pc = .idle)
      (hEnough : g.min.toNat + s.delivered.length ≤ s'.delivered.length) :
      CallEnded g s a s'
  | timedOut (hIdle : s'.pc = .idle) (hTimed : g.timed = true) (hAct : a = .giveUp) :
      CallEnded g s a s'
  | failed (hExited : s'.pc = .exited)
      (hFailed : ∃ d ∈ s'.done, cqeSct d.cqe.psf ≠ 0 ∨ cqeSc d.cqe.psf ≠ 0) :
      CallEnded g s a s'

section Fair

variable {fioHasMrt : Bool} {n : NvmeData} {s s' : Sys} {known base got : Nat}

theorem enabled_device_iff :
    Enabled (step fioHasMrt) Act.OfDevice s ↔
      s.fetched % s.nvme.ioSqDepth.toNat ≠ s.sqTailDb.toNat ∨
        ((s.done.length + 1) % s.nvme.ioCqDepth.toNat ≠ s.cqHeadDb.toNat ∧
          s.inflight ≠ []) := by
  constructor
  · rintro ⟨a, hDevice, hSome⟩
    obtain ⟨s', hStep⟩ := Option.isSome_iff_exists.mp hSome
    cases a with
    | fetch =>
        refine .inl fun hEq => ?_
        simp only [step, fetchStep, if_pos hEq] at hStep
        cases hStep
    | post i status =>
        obtain ⟨hRoom, f, hf, -⟩ := postStep_cases hStep
        refine .inr ⟨hRoom, fun hNil => ?_⟩
        rw [hNil] at hf
        cases hf
    | queue => cases hDevice
    | getevents => cases hDevice
    | host => cases hDevice
    | giveUp => cases hDevice
  · rintro (hSlot | ⟨hRoom, hSome⟩)
    · refine ⟨.fetch, trivial, ?_⟩
      simp only [step, fetchStep, if_neg hSlot, Option.isSome_some]
    · obtain ⟨f, rest, hf⟩ := List.exists_cons_of_ne_nil hSome
      refine ⟨.post 0 0, trivial, ?_⟩
      simp only [step, postStep, if_neg hRoom, hf, List.getElem?_cons_zero, Option.isSome_some]

theorem DevInv.length_inflight (h : DevInv s known) :
    s.inflight.length + s.done.length = s.fetched := by
  have hLength := h.partition.length_eq
  rwa [List.length_append, List.length_map, List.length_map, List.length_range] at hLength

/-- A device that cannot act has completed everything, or lacks room. -/
theorem Inv.unable (h : Inv s known base got)
    (hUnable : ¬ Enabled (step fioHasMrt) Act.OfDevice s) :
    s.done.length = s.log.length ∨
      s.done.length + 1 = base + s.nvme.ioCqDepth.toNat ∧ s.inflight ≠ [] := by
  rw [enabled_device_iff, not_or, not_not] at hUnable
  obtain ⟨hFetched, hNoPost⟩ := hUnable
  have hAll : s.fetched = s.log.length := by
    have hLe := h.sq.fetched_le
    have hKnown := h.sq.known_le
    have hRoom := h.sq.room
    rw [h.sq.tailDb, h.sq.tail] at hFetched
    exact ((mod_eq_iff_of_lt hLe (by omega)).mp hFetched.symm).symm
  have hSum := h.dev.length_inflight
  by_cases hNil : s.inflight = []
  · left
    rw [hNil, List.length_nil] at hSum
    omega
  · right
    refine ⟨?_, hNil⟩
    have hFull : (s.done.length + 1) % s.nvme.ioCqDepth.toNat = s.cqHeadDb.toNat := by
      by_contra hRoom
      exact hNoPost ⟨hRoom, hNil⟩
    have hBase := h.cq.base_le
    have hReaped := h.cq.reaped_le
    have hLap := h.cq.lap
    rw [h.cq.headDb] at hFull
    exact (mod_eq_iff_of_le (by omega) (by omega)).mp hFull

/-- Once the device can act, the host cannot keep it from doing so. -/
private theorem HostMoves.keeps_enabled (h : Inv s known base got) (hMoves : HostMoves s s')
    (hEnabled : Enabled (step fioHasMrt) Act.OfDevice s) :
    Enabled (step fioHasMrt) Act.OfDevice s' := by
  have hKeeps := hMoves.keeps
  rw [enabled_device_iff] at hEnabled ⊢
  rw [hKeeps.fetched, hKeeps.sqDepth, hKeeps.sqTailDb, hKeeps.done, hKeeps.cqDepth,
    hKeeps.inflight]
  refine hEnabled.imp_right fun ⟨hRoom, hSome⟩ => ⟨?_, hSome⟩
  cases hMoves with
  | enter => exact hRoom
  | skip => exact hRoom
  | exit => exact hRoom
  | next => exact hRoom
  | @stop g l hPc hIter =>
      have hHost := h.host
      rw [hPc] at hHost
      cases hHost with
      | poll hBase hCount hGot hEvents hOld hAt =>
          dsimp only
          unfold pollEnd
          split
          · have hReaped := h.cq.reaped_le
            have hLap := h.cq.lap
            simp only [Option.getD_some]
            rw [h.cq.headDb] at hRoom
            rw [hAt.head]
            intro hFull
            have hNext := (mod_eq_iff_of_le (by omega) (by omega)).mp hFull
            have hBaseEq : s.reaped = base := by omega
            rw [hBaseEq] at hFull
            exact hRoom hFull
          · exact hRoom
  | leave => exact hRoom
  | again => exact hRoom

/-- Only an entry that reports a failure makes `poll_cq` call `exit`. -/
private theorem Inv.failed_of_exit (h : Inv s known base got) {g : GetEvents} {l : PollLocals}
    (hPc : s.pc = .poll g l) (hExit : pollIter s.nvme (s.cq l.head.toNat) l = .exit) :
    ∃ d ∈ s.done, cqeSct d.cqe.psf ≠ 0 ∨ cqeSc d.cqe.psf ≠ 0 := by
  have hHost := h.host
  rw [hPc] at hHost
  cases hHost with
  | poll hBase hCount hGot hEvents hOld hAt =>
      obtain ⟨hPhase, hWhy⟩ := pollIter_exit hExit
      obtain ⟨d, hd, hCqe⟩ := h.next_done hAt hPhase
      have hMem : d ∈ s.done := List.mem_of_getElem? hd
      rw [← hCqe] at hWhy
      rcases hWhy with hStatus | hUnknown
      · exact ⟨d, hMem, hStatus⟩
      · -- The submission completed is outstanding, so the table has its request.
        have hOut := h.next_outstanding hd
        obtain ⟨e, he⟩ : ∃ e, s.log[d.pos]? = some e :=
          ⟨_, List.getElem?_eq_getElem hOut.1⟩
        have hCid : e.cid = d.cqe.cid := by
          rw [(h.sq.entries _ _ he).1, h.dev.doneCid d hMem]
        have hSome := (h.table.table d.cqe.cid e.ioU).mpr ⟨d.pos, e, hOut, he, hCid, rfl⟩
        rw [hUnknown] at hSome
        cases hSome

/-- A call with the arguments of `g` is running since `s₀`, and no more is asked for than
is outstanding. -/
private structure Waiting (g : GetEvents) (s₀ s : Sys) : Prop where
  call : ∃ g', s.pc.call = some g' ∧ g'.min = g.min ∧ g'.timed = g.timed
  inv : ∃ known base got, Inv s known base got
  asked : Asked s.pc
  depth : 2 ≤ s.nvme.ioCqDepth.toNat
  delivered : s.delivered = s₀.delivered
  enough : g.min.toNat + s.delivered.length ≤ s.log.length

private theorem Waiting.isSome {g : GetEvents} {s₀ : Sys} (h : Waiting g s₀ s) :
    s.pc.call.isSome := by
  obtain ⟨g', hg', -⟩ := h.call
  rw [hg']
  rfl

/-- A call goes on waiting or ends. -/
private theorem Waiting.step {g : GetEvents} {s₀ : Sys} {a : Act} (h : Waiting g s₀ s)
    (hOk : AskedFor s a) (hStep : step fioHasMrt s a = some s') :
    Waiting g s₀ s' ∨ CallEnded g s₀ a s' := by
  obtain ⟨known, base, got, hInv⟩ := h.inv
  have hInv' := inv_step hInv hStep
  have hAsked' := h.asked.step hInv hOk hStep
  obtain ⟨g', hg', hMin, hTimed⟩ := h.call
  rcases step_inside h.isSome hStep with ⟨-, hMoves⟩ | hOther
  · have hKeeps := hMoves.keeps
    by_cases hCall : s'.pc.call.isSome
    · left
      obtain ⟨g'', hg''⟩ := Option.isSome_iff_exists.mp hCall
      obtain ⟨hMin', -, hTimed', hDelivered⟩ := hMoves.call hg' hg''
      exact
        { call := ⟨g'', hg'', hMin'.trans hMin, hTimed'.trans hTimed⟩
          inv := hInv'
          asked := hAsked'
          depth := by rw [hKeeps.cqDepth]; exact h.depth
          delivered := hDelivered.trans h.delivered
          enough := by rw [hDelivered, hKeeps.log]; exact h.enough }
    · right
      cases hMoves with
      | enter => exact absurd rfl hCall
      | skip => exact absurd rfl hCall
      | next => exact absurd rfl hCall
      | stop => exact absurd rfl hCall
      | again => exact absurd rfl hCall
      | exit hPc hIter => exact .failed rfl (hInv.failed_of_exit hPc hIter)
      | @leave g₁ hPc hEnough =>
          refine .returned rfl ?_
          have hAsked := h.asked
          rw [hPc] at hg' hAsked
          cases hg'
          cases hAsked with
          | check hSane =>
              have hMinLe := hSane.min_le
              have hMaxLt := hSane.max_lt
              rw [toCInt_of_lt (by omega)] at hEnough
              simp only [returnEvents, List.length_append, List.length_map, List.length_range,
                h.delivered, ← hMin]
              omega
  · rcases hOther.call with ⟨g'', hAct, hPc, hSet, hIdle⟩ | ⟨hPc, hDelivered, hLog, hNvme, -⟩
    · right
      rw [hPc] at hg'
      cases hg'
      exact .timedOut hIdle (hTimed.symm.trans hSet) hAct
    · left
      exact
        { call := by rw [hPc]; exact h.call
          inv := hInv'
          asked := hAsked'
          depth := by rw [hNvme]; exact h.depth
          delivered := hDelivered.trans h.delivered
          enough := by rw [hDelivered, hLog]; exact h.enough }

/-- Commands to be fetched and commands to be completed. -/
private def deviceWork (s : Sys) : Nat :=
  s.log.length - s.fetched + (s.log.length - s.done.length)

private theorem Inv.deviceWork_le (h : Inv s known base got) {a : Act}
    (hCall : s.pc.call.isSome) (hCall' : s'.pc.call.isSome)
    (hStep : step fioHasMrt s a = some s') :
    deviceWork s' ≤ deviceWork s ∧ (a.OfDevice → deviceWork s' < deviceWork s) := by
  unfold deviceWork
  rcases step_inside hCall hStep with ⟨rfl, hMoves⟩ | hOther
  · have hKeeps := hMoves.keeps
    rw [hKeeps.log, hKeeps.fetched, hKeeps.done]
    exact ⟨Nat.le_refl _, False.elim⟩
  · cases hOther with
    | giveUp => cases hCall'
    | fetch hFetch =>
        obtain ⟨hSlot, rfl⟩ := fetchStep_cases hFetch
        have hLt := h.fetched_lt hSlot
        dsimp only
        exact ⟨by omega, fun _ => by omega⟩
    | post hPost =>
        obtain ⟨-, f, hf, rfl⟩ := postStep_cases hPost
        have hSum := h.dev.length_inflight
        have hFetched := h.sq.fetched_le
        have hSome : 0 < s.inflight.length :=
          List.length_pos_of_mem (List.mem_of_getElem? hf)
        simp only [List.length_append, List.length_singleton]
        exact ⟨by omega, fun _ => by omega⟩

/-- While the device cannot act, `poll_cq` does not stop short of `min`: all has been
posted, or the completion queue is full and the doorbell `poll_cq` rings makes room. -/
private theorem Waiting.early {g : GetEvents} {s₀ : Sys} (h : Waiting g s₀ s)
    (hMoves : HostMoves s s') (hUnable : ¬ Enabled (Engine.step fioHasMrt) Act.OfDevice s)
    (hUnable' : ¬ Enabled (Engine.step fioHasMrt) Act.OfDevice s') {g' : GetEvents}
    {l : PollLocals} (hPc : s.pc = .poll g' l) (hAll : s.reaped = s.done.length)
    (hCall' : s'.pc.call.isSome) : g'.min.toNat ≤ g'.completions + l.count.toNat := by
  obtain ⟨known, base, got, hInv⟩ := h.inv
  have hDepth := h.depth
  have hEnough := h.enough
  obtain ⟨g'', hg'', hMin, -⟩ := h.call
  rw [hPc] at hg''
  cases hg''
  rw [← hMin, hInv.length_delivered] at hEnough
  have hHost := hInv.host
  rw [hPc] at hHost
  cases hHost with
  | poll hBase hCount hGot hEvents hOld hAt =>
      rcases hInv.unable hUnable with hDone | ⟨hFull, hSome⟩
      · omega
      · exfalso
        -- Something was taken, so that the host rings the doorbell when it stops here.
        have hTaken : l.count ≠ 0 := by
          intro hZero
          rw [hZero, UInt16.toNat_zero] at hBase
          omega
        have hNone : cqePhase (s.cq l.head.toNat) ≠ l.phaseTag.toNat := by
          intro hPhase
          have := (hInv.cq.phase_iff hAt).mp hPhase
          omega
        cases hMoves with
        | stop hPc' hIter =>
            rw [hPc] at hPc'
            cases hPc'
            refine hUnable' (enabled_device_iff.mpr (.inr ⟨?_, hSome⟩))
            simp only [pollEnd, if_pos hTaken, Option.getD_some]
            rw [hAt.head]
            intro hEq
            have := (mod_eq_iff_of_le (by omega) (by omega)).mp hEq
            omega
        | exit => cases hCall'
        | next hPc' hIter =>
            rw [hPc] at hPc'
            cases hPc'
            exact hNone (pollIter_next hIter).2.1
        | enter hPc' =>
            rw [hPc] at hPc'
            cases hPc'
        | skip hPc' =>
            rw [hPc] at hPc'
            cases hPc'
        | leave hPc' =>
            rw [hPc] at hPc'
            cases hPc'
        | again hPc' =>
            rw [hPc] at hPc'
            cases hPc'

/-- With the regions apart, a call that asks for no more than is outstanding ends. -/
theorem getevents_returns_of_steps (hFresh : FreshPair n) (hDepth : 2 ≤ n.ioCqDepth.toNat)
    (e : Execution (step fioHasMrt) AskedFor) (hStart : e.state 0 = start n)
    (hFair : e.WeaklyFair Act.OfDevice) {i : Nat} {g : GetEvents}
    (hCall : (e.state i).pc.call = some g)
    (hAsk : g.min.toNat + (e.state i).delivered.length ≤ (e.state i).log.length) :
    ∃ j ≥ i, (∀ k, i ≤ k → k ≤ j → (e.state k).pc.call.isSome) ∧
      CallEnded g (e.state i) (e.act j) (e.state (j + 1)) := by
  obtain ⟨as, hRun⟩ := e.run i
  rw [hStart] at hRun
  obtain ⟨hInv, hAsked⟩ := asked_of_run hFresh hRun
  have hCqDepth : (e.state i).nvme.ioCqDepth = n.ioCqDepth :=
    congrArg Geometry.cqDepth (geometry_of_run hRun)
  have hNow : Waiting g (e.state i) (e.state i) :=
    { call := ⟨g, hCall, rfl, rfl⟩
      inv := hInv
      asked := hAsked
      depth := by rw [hCqDepth]; exact hDepth
      delivered := rfl
      enough := hAsk }
  have hLeaves : ∃ j ≥ i, (∀ k, i ≤ k → k ≤ j → Waiting g (e.state i) (e.state k)) ∧
      ¬ Waiting g (e.state i) (e.state (j + 1)) := by
    refine Execution.leaves (P := Waiting g (e.state i)) deviceWork
      (fun s => s.pc.rank) hFair ?_ ?_ ?_ hNow
    · intro s a s' hOk hStep hIn hIn'
      obtain ⟨known, base, got, h⟩ := hIn.inv
      exact h.deviceWork_le hIn.isSome hIn'.isSome hStep
    · intro s a s' hOk hStep hIn hIn' hHost hEnabled
      obtain ⟨known, base, got, h⟩ := hIn.inv
      rcases step_inside hIn.isSome hStep with ⟨-, hMoves⟩ | hOther
      · exact hMoves.keeps_enabled h hEnabled
      · cases hOther with
        | giveUp => exact nomatch hIn'.isSome
        | fetch => exact absurd trivial hHost
        | post => exact absurd trivial hHost
    · intro s a s' hOk hStep hIn hIn' hHost hUnable hUnable'
      obtain ⟨known, base, got, h⟩ := hIn.inv
      rcases step_inside hIn.isSome hStep with ⟨-, hMoves⟩ | hOther
      · exact rank_hostStep h hIn.asked hMoves fun g' l hPc hAll hCall' =>
          hIn.early hMoves hUnable hUnable' hPc hAll hCall'
      · cases hOther with
        | giveUp => exact nomatch hIn'.isSome
        | fetch => exact absurd trivial hHost
        | post => exact absurd trivial hHost
  obtain ⟨j, hj, hWaiting, hOver⟩ := hLeaves
  refine ⟨j, hj, fun k hk hkj => (hWaiting k hk hkj).isSome, ?_⟩
  rcases (hWaiting j hj (Nat.le_refl j)).step (e.permitted j) (e.next j) with hIn | hEnded
  · exact absurd hIn hOver
  · exact hEnded

/-- The device is the same wherever the regions are mapped. -/
theorem mappedStep_device (mapped : Nat → Bool) (s : Sys) {a : Act} (ha : a.OfDevice) :
    mappedStep mapped fioHasMrt s a = step fioHasMrt s a := by
  cases a with
  | fetch => rfl
  | post i status => rfl
  | _ => exact ha.elim

/-- A read, and the call of `nvme_getevents` that waits for it. -/
private def oneAwaited : List Act :=
  [.queue smallThread smallController (readInto 0x7000 512), .getevents 1 1 false]

/-- The read is completed while `nvme_getevents` polls. -/
private def lateDevice : List Act :=
  [.host, .host, .fetch, .host, .post 0 0, .host, .host, .host, .host]

private def refusedCall : Act :=
  .queue smallThread smallController { readInto 0x7000 512 with ddir := .other }

private theorem isQueued_refusedCall (s : Sys) :
    (nvmeQueue true smallThread smallController s.nvme
      { readInto 0x7000 512 with ddir := .other }).isQueued = false := by
  unfold nvmeQueue
  repeat' split
  all_goals first | rfl | contradiction

private theorem step_refusedCall {s : Sys} (hIdle : s.pc = .idle) :
    mappedStep (fun _ => true) true s refusedCall = some s := by
  have hRefused := isQueued_refusedCall s
  simp only [mappedStep, refusedCall, if_pos hIdle]
  split
  · rename_i hQueued
    rw [hQueued] at hRefused
    cases hRefused
  · rfl

private theorem exec_oneAwaited :
    ∃ s₁ s, exec (mappedStep (fun _ => true) true)
        (fun s a => decide (AskedFor s a ∧ ListInside true s a)) (start lapPair) oneAwaited =
          some s₁ ∧
      exec (mappedStep (fun _ => true) true)
        (fun s a => decide (AskedFor s a ∧ ListInside true s a)) s₁ lateDevice = some s ∧
      s₁.pc.call = some ⟨1, 1, false, 0⟩ ∧ 1 + s₁.delivered.length ≤ s₁.log.length ∧
      s.pc = .idle ∧ s.fetched % s.nvme.ioSqDepth.toNat = s.sqTailDb.toNat ∧
      s.inflight = [] := by
  have hEval : (exec (mappedStep (fun _ => true) true)
      (fun s a => decide (AskedFor s a ∧ ListInside true s a)) (start lapPair)
      oneAwaited).any (fun s₁ => (exec (mappedStep (fun _ => true) true)
        (fun s a => decide (AskedFor s a ∧ ListInside true s a)) s₁ lateDevice).any fun s =>
          decide (s₁.pc.call = some ⟨1, 1, false, 0⟩ ∧
            1 + s₁.delivered.length ≤ s₁.log.length ∧ s.pc = .idle ∧
            s.fetched % s.nvme.ioSqDepth.toNat = s.sqTailDb.toNat ∧ s.inflight = [])) = true := by
    decide +kernel
  obtain ⟨s₁, hExec, hRest⟩ := (Option.any_eq_true _ _).mp hEval
  obtain ⟨s, hExec', hEnd⟩ := (Option.any_eq_true _ _).mp hRest
  exact ⟨s₁, s, hExec, hExec', of_decide_eq_true hEnd⟩

end Fair

end NewPerf.Engine
