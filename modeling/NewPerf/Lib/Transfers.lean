import NewPerf.Lib.Simulation
import Mathlib.Data.List.Perm.Basic
import Mathlib.Data.List.Perm.Lattice

/-!
# Requests made of moves

A client hands in requests, each of which asks for a number of moves on shared data.  Two
machines serve it.  `Async` makes the moves of all requests under way one at a time, in
any order; a request is complete when all its moves have been made, and completed requests
are handed back in the order of completion.  `Atomic` performs a whole request at once.

`Async` is what a device does and `Atomic` is what a client would like to believe.  The
two agree as long as the moves of requests that are under way together commute:
`serial_of_run` turns every such run of `Async` into a run of `Atomic` that completes the
same requests in the same order.
-/

namespace NewPerf.Lib.Transfers

open NewPerf.Lib.Runs

variable {ρ μ δ : Type}

/-- Requests are numbered in the order they are handed in.  `moved` lists the moves made,
each as the number of the request and that of the move in it; the first `got` of the
completed requests have been handed back. -/
structure Async (ρ δ : Type) where
  data : δ
  log : List ρ := []
  moved : List (Nat × Nat) := []
  done : List Nat := []
  got : Nat := 0

inductive AsyncAct (ρ μ : Type) where
  /-- The client hands in a request. -/
  | submit (r : ρ)
  /-- The client makes a move of its own. -/
  | touch (m : μ)
  /-- Move number `k` of request number `p` is made. -/
  | move (p k : Nat)
  | complete (p : Nat)
  /-- The next `m` completed requests are handed back. -/
  | deliver (m : Nat)

structure Atomic (ρ δ : Type) where
  data : δ
  log : List ρ := []
  done : List Nat := []
  got : Nat := 0

inductive AtomicAct (ρ μ : Type) where
  | submit (r : ρ)
  | touch (m : μ)
  /-- Request number `p` is performed and complete. -/
  | perform (p : Nat)
  | deliver (m : Nat)

/-- How a step of `Async` shows as a step of `Atomic`: single moves do not show, and a
request is performed when it is complete. -/
def AsyncAct.atomic : AsyncAct ρ μ → List (AtomicAct ρ μ)
  | .submit r => [.submit r]
  | .touch m => [.touch m]
  | .move .. => []
  | .complete p => [.perform p]
  | .deliver m => [.deliver m]

/-- Make moves one after the other. -/
def makeAll (make : μ → δ → δ) (ms : List μ) (d : δ) : δ := ms.foldl (fun d m => make m d) d

/-- Move number `k` of request number `p`. -/
def moveAt (moves : ρ → List μ) (log : List ρ) (p k : Nat) : Option μ :=
  log[p]?.bind fun r => (moves r)[k]?

section Machines

variable (moves : ρ → List μ) (make : μ → δ → δ)

def Async.step (s : Async ρ δ) : AsyncAct ρ μ → Option (Async ρ δ)
  | .submit r => some { s with log := s.log ++ [r] }
  | .touch m => some { s with data := make m s.data }
  | .move p k =>
      if p ∈ s.done ∨ (p, k) ∈ s.moved then none
      else (moveAt moves s.log p k).map fun m =>
        { s with data := make m s.data, moved := s.moved ++ [(p, k)] }
  | .complete p =>
      match s.log[p]? with
      | none => none
      | some r =>
          if p ∉ s.done ∧ ∀ k, k < (moves r).length → (p, k) ∈ s.moved then
            some { s with done := s.done ++ [p] }
          else none
  | .deliver m =>
      if s.got + m ≤ s.done.length then some { s with got := s.got + m } else none

def Atomic.step (s : Atomic ρ δ) : AtomicAct ρ μ → Option (Atomic ρ δ)
  | .submit r => some { s with log := s.log ++ [r] }
  | .touch m => some { s with data := make m s.data }
  | .perform p =>
      match s.log[p]? with
      | none => none
      | some r =>
          if p ∉ s.done then
            some { s with data := makeAll make (moves r) s.data, done := s.done ++ [p] }
          else none
  | .deliver m =>
      if s.got + m ≤ s.done.length then some { s with got := s.got + m } else none

/-- Everything a step of `Async` can do. -/
inductive Async.Moves (s : Async ρ δ) : AsyncAct ρ μ → Async ρ δ → Prop where
  | submit {r : ρ} : Moves s (.submit r) { s with log := s.log ++ [r] }
  | touch {m : μ} : Moves s (.touch m) { s with data := make m s.data }
  | move {p k : Nat} {m : μ} (hDone : p ∉ s.done) (hNew : (p, k) ∉ s.moved)
      (hAt : moveAt moves s.log p k = some m) :
      Moves s (.move p k) { s with data := make m s.data, moved := s.moved ++ [(p, k)] }
  | complete {p : Nat} {r : ρ} (hr : s.log[p]? = some r) (hDone : p ∉ s.done)
      (hAll : ∀ k, k < (moves r).length → (p, k) ∈ s.moved) :
      Moves s (.complete p) { s with done := s.done ++ [p] }
  | deliver {m : Nat} (hLe : s.got + m ≤ s.done.length) :
      Moves s (.deliver m) { s with got := s.got + m }

theorem Async.step_cases {s s' : Async ρ δ} {a : AsyncAct ρ μ}
    (h : s.step moves make a = some s') : Async.Moves moves make s a s' := by
  cases a with
  | submit r =>
      cases h
      exact .submit
  | touch m =>
      cases h
      exact .touch
  | move p k =>
      simp only [Async.step] at h
      split at h
      · cases h
      · rename_i hNot
        rw [not_or] at hNot
        obtain ⟨m, hAt, rfl⟩ := Option.map_eq_some_iff.mp h
        exact .move hNot.1 hNot.2 hAt
  | complete p =>
      simp only [Async.step] at h
      split at h
      · cases h
      · rename_i r hr
        split at h
        · rename_i hAll
          cases h
          exact .complete hr hAll.1 hAll.2
        · cases h
  | deliver m =>
      simp only [Async.step] at h
      split at h
      · rename_i hLe
        cases h
        exact .deliver hLe
      · cases h

end Machines

/-! ## Requests that do not get in each other's way -/

/-- The order of the two moves does not matter. -/
def Commutes (make : μ → δ → δ) (m m' : μ) : Prop :=
  ∀ d, make m (make m' d) = make m' (make m d)

/-- Request number `p` is under way. -/
def Async.Pending (s : Async ρ δ) (p : Nat) (r : ρ) : Prop :=
  s.log[p]? = some r ∧ p ∉ s.done

/-- Requests are handed in only if their moves commute with each other and with those of
the requests under way; so are the client's own moves. -/
def Independent (moves : ρ → List μ) (make : μ → δ → δ) (s : Async ρ δ) :
    AsyncAct ρ μ → Prop
  | .submit r =>
      (∀ m ∈ moves r, ∀ m' ∈ moves r, Commutes make m m') ∧
        ∀ p r', s.Pending p r' → ∀ m ∈ moves r, ∀ m' ∈ moves r', Commutes make m m'
  | .touch m => ∀ p r', s.Pending p r' → ∀ m' ∈ moves r', Commutes make m m'
  | _ => True

/-- The moves made so far for requests under way, in the order they were made. -/
def Async.partly (moves : ρ → List μ) (s : Async ρ δ) : List μ :=
  (s.moved.filter fun x => x.1 ∉ s.done).filterMap fun x => moveAt moves s.log x.1 x.2

/-- Both machines have completed the same requests in the same order, and the data differ
by the moves made for requests under way. -/
structure Serial (moves : ρ → List μ) (make : μ → δ → δ) (s : Async ρ δ)
    (t : Atomic ρ δ) : Prop where
  log : t.log = s.log
  done : t.done = s.done
  got : t.got = s.got
  data : s.data = makeAll make (s.partly moves) t.data
  nodup : s.moved.Nodup
  made : ∀ x ∈ s.moved, (moveAt moves s.log x.1 x.2).isSome
  commute : ∀ p q r r', s.Pending p r → s.Pending q r' →
    ∀ m ∈ moves r, ∀ m' ∈ moves r', Commutes make m m'

variable {moves : ρ → List μ} {make : μ → δ → δ} {s : Async ρ δ} {t : Atomic ρ δ}

/-- Moves that commute with a whole list may be made before or after it. -/
private theorem makeAll_commute {m : μ} {ms : List μ} (h : ∀ m' ∈ ms, Commutes make m m')
    (d : δ) : make m (makeAll make ms d) = makeAll make ms (make m d) := by
  induction ms generalizing d with
  | nil => rfl
  | cons m' ms ih =>
      have hRest := ih (fun x hx => h x (List.mem_cons_of_mem _ hx)) (make m' d)
      have hHead := h m' List.mem_cons_self d
      rw [hHead] at hRest
      exact hRest

/-- Moves that commute with each other may be made in any order. -/
private theorem makeAll_perm {ms ms' : List μ} (hPerm : ms.Perm ms')
    (h : ∀ m ∈ ms, ∀ m' ∈ ms, Commutes make m m') (d : δ) :
    makeAll make ms d = makeAll make ms' d :=
  hPerm.foldl_eq' (fun m hm m' hm' d' => h m' hm' m hm d') d

theorem makeAll_append (ms ms' : List μ) (d : δ) :
    makeAll make (ms ++ ms') d = makeAll make ms' (makeAll make ms d) :=
  List.foldl_append

/-- The moves of a request do not depend on requests handed in after it. -/
theorem moveAt_append {log : List ρ} {p k : Nat} (r : ρ)
    (h : (moveAt moves log p k).isSome) :
    moveAt moves (log ++ [r]) p k = moveAt moves log p k := by
  have hLt : p < log.length := by
    by_contra hNot
    rw [moveAt, List.getElem?_eq_none (Nat.le_of_not_lt hNot)] at h
    cases h
  rw [moveAt, moveAt, List.getElem?_append_left hLt]

/-- What is partly made belongs to a request under way. -/
private theorem mem_partly {m : μ} (h : m ∈ s.partly moves) :
    ∃ p r, s.Pending p r ∧ m ∈ moves r := by
  obtain ⟨x, hx, hAt⟩ := List.mem_filterMap.mp h
  obtain ⟨r, hr, hk⟩ := Option.bind_eq_some_iff.mp hAt
  have hOpen : x.1 ∉ s.done := by simpa using (List.mem_filter.mp hx).2
  exact ⟨x.1, r, ⟨hr, hOpen⟩, List.mem_of_getElem? hk⟩

/-- The moves of the requests under way at the completion of one of them: first all of its
own, then those of the others. -/
private theorem partly_perm {p : Nat} {r : ρ} (hr : s.log[p]? = some r) (hOpen : p ∉ s.done)
    (hNodup : s.moved.Nodup) (hMade : ∀ x ∈ s.moved, (moveAt moves s.log x.1 x.2).isSome)
    (hAll : ∀ k, k < (moves r).length → (p, k) ∈ s.moved) :
    (s.partly moves).Perm
      (moves r ++ ({ s with done := s.done ++ [p] } : Async ρ δ).partly moves) := by
  have hOwn : (s.moved.filter fun x => x.1 = p).Perm
      ((List.range (moves r).length).map fun k => (p, k)) := by
    refine (List.perm_ext_iff_of_nodup (hNodup.filter _) ?_).mpr fun x => ?_
    · exact List.nodup_range.map fun k k' hk => (Prod.mk.inj hk).2
    · obtain ⟨q, k⟩ := x
      simp only [List.mem_filter, decide_eq_true_eq, List.mem_map, List.mem_range,
        Prod.mk.injEq]
      constructor
      · rintro ⟨hMem, rfl⟩
        have hSome := hMade _ hMem
        rw [moveAt, hr, Option.bind_some] at hSome
        exact ⟨k, by simpa using hSome, rfl, rfl⟩
      · rintro ⟨k', hk', rfl, rfl⟩
        exact ⟨hAll k' hk', rfl⟩
  have hMoves : ((List.range (moves r).length).map fun k => (p, k)).filterMap
      (fun x => moveAt moves s.log x.1 x.2) = moves r := by
    rw [List.filterMap_map]
    have hAt : ((fun x : Nat × Nat => moveAt moves s.log x.1 x.2) ∘ fun k => (p, k)) =
        fun k => (moves r)[k]? := by
      funext k
      simp only [Function.comp_apply, moveAt, hr, Option.bind_some]
    rw [hAt]
    apply List.ext_getElem?
    intro i
    induction moves r generalizing i with
    | nil => simp
    | cons m ms ih =>
        rw [List.length_cons, List.range_succ_eq_map, List.filterMap_cons,
          List.getElem?_cons_zero, List.filterMap_map]
        cases i with
        | zero => rfl
        | succ i => exact ih i
  -- The filter of the open requests splits into request `p` and the rest.
  have hSplit : (s.moved.filter fun x => x.1 ∉ s.done).Perm
      ((s.moved.filter fun x => x.1 = p) ++
        s.moved.filter fun x => x.1 ∉ s.done ++ [p]) := by
    have hPerm := (List.filter_append_perm (fun x => decide (x.1 = p))
      (s.moved.filter fun x => x.1 ∉ s.done)).symm
    rw [List.filter_filter, List.filter_filter] at hPerm
    have hFirst : s.moved.filter (fun x => decide (x.1 = p) && decide (x.1 ∉ s.done)) =
        s.moved.filter fun x => x.1 = p := by
      apply List.filter_congr
      rintro ⟨q, k⟩ -
      by_cases hq : q = p
      · subst hq
        simp [hOpen]
      · simp [hq]
    have hSecond : s.moved.filter (fun x => !decide (x.1 = p) && decide (x.1 ∉ s.done)) =
        s.moved.filter fun x => x.1 ∉ s.done ++ [p] := by
      apply List.filter_congr
      rintro ⟨q, k⟩ -
      by_cases hq : q = p
      · simp [hq]
      · simp [hq]
    rwa [hFirst, hSecond] at hPerm
  have hResult := hSplit.filterMap fun x => moveAt moves s.log x.1 x.2
  rw [List.filterMap_append] at hResult
  have hOwnMoves := hOwn.filterMap fun x => moveAt moves s.log x.1 x.2
  rw [hMoves] at hOwnMoves
  exact hResult.trans (hOwnMoves.append_right _)

/-! ## One step -/

private theorem Serial.submit (h : Serial moves make s t) {r : ρ}
    (hOwn : ∀ m ∈ moves r, ∀ m' ∈ moves r, Commutes make m m')
    (hOther : ∀ p r', s.Pending p r' → ∀ m ∈ moves r, ∀ m' ∈ moves r', Commutes make m m') :
    Serial moves make { s with log := s.log ++ [r] } { t with log := t.log ++ [r] } := by
  have hSame : ({ s with log := s.log ++ [r] } : Async ρ δ).partly moves =
      s.partly moves := by
    refine List.filterMap_congr fun x hx => ?_
    exact moveAt_append r (h.made x (List.mem_filter.mp hx).1)
  have hPending : ∀ p r', ({ s with log := s.log ++ [r] } : Async ρ δ).Pending p r' →
      s.Pending p r' ∨ r' = r := by
    rintro p r' ⟨hr', hOpen⟩
    rcases Nat.lt_or_ge p s.log.length with hLt | hGe
    · exact .inl ⟨by simpa only [List.getElem?_append_left hLt] using hr', hOpen⟩
    · right
      have hMem : r' ∈ [r] := by
        dsimp only at hr'
        rw [List.getElem?_append_right hGe] at hr'
        exact List.mem_of_getElem? hr'
      exact List.mem_singleton.mp hMem
  exact
    { log := by rw [h.log]
      done := h.done
      got := h.got
      data := by rw [hSame]; exact h.data
      nodup := h.nodup
      made := fun x hx => by
        rw [moveAt_append r (h.made x hx)]
        exact h.made x hx
      commute := fun p q r₁ r₂ hp hq m hm m' hm' => by
        rcases hPending p r₁ hp with hOld | rfl
        · rcases hPending q r₂ hq with hOld' | rfl
          · exact h.commute p q r₁ r₂ hOld hOld' m hm m' hm'
          · exact fun d => (hOther p r₁ hOld m' hm' m hm d).symm
        · rcases hPending q r₂ hq with hOld' | rfl
          · exact hOther q r₂ hOld' m hm m' hm'
          · exact hOwn m hm m' hm' }

private theorem Serial.touch (h : Serial moves make s t) {m : μ}
    (hOther : ∀ p r', s.Pending p r' → ∀ m' ∈ moves r', Commutes make m m') :
    Serial moves make { s with data := make m s.data } { t with data := make m t.data } :=
  { log := h.log
    done := h.done
    got := h.got
    data := by
      have hAll : ∀ m' ∈ s.partly moves, Commutes make m m' := by
        intro m' hm'
        obtain ⟨p, r', hPending, hMem⟩ := mem_partly hm'
        exact hOther p r' hPending m' hMem
      exact (congrArg (make m) h.data).trans (makeAll_commute hAll t.data)
    nodup := h.nodup
    made := h.made
    commute := h.commute }

private theorem Serial.move (h : Serial moves make s t) {p k : Nat} {m : μ}
    (hOpen : p ∉ s.done) (hNew : (p, k) ∉ s.moved) (hAt : moveAt moves s.log p k = some m) :
    Serial moves make { s with data := make m s.data, moved := s.moved ++ [(p, k)] } t := by
  have hPartly : ({ s with data := make m s.data, moved := s.moved ++ [(p, k)] } :
      Async ρ δ).partly moves = s.partly moves ++ [m] := by
    simp only [Async.partly, List.filter_append, List.filterMap_append]
    rw [List.filter_cons_of_pos (by simpa using hOpen), List.filter_nil,
      List.filterMap_cons_some (by simpa using hAt), List.filterMap_nil]
  exact
    { log := h.log
      done := h.done
      got := h.got
      data := by
        rw [hPartly, makeAll_append]
        exact congrArg (make m) h.data
      nodup := List.nodup_append.mpr ⟨h.nodup, List.nodup_singleton _, by
        rintro x hx y hy rfl
        rw [List.mem_singleton.mp hy] at hx
        exact hNew hx⟩
      made := fun x hx => by
        rcases List.mem_append.mp hx with hOld | hLast
        · exact h.made x hOld
        · rw [List.mem_singleton.mp hLast]
          exact Option.isSome_of_eq_some hAt
      commute := h.commute }

private theorem Serial.complete (h : Serial moves make s t) {p : Nat} {r : ρ}
    (hr : s.log[p]? = some r) (hOpen : p ∉ s.done)
    (hAll : ∀ k, k < (moves r).length → (p, k) ∈ s.moved) :
    Serial moves make { s with done := s.done ++ [p] }
      { t with data := makeAll make (moves r) t.data, done := t.done ++ [p] } :=
  { log := h.log
    done := by rw [h.done]
    got := h.got
    data := by
      have hCommute : ∀ m ∈ s.partly moves, ∀ m' ∈ s.partly moves, Commutes make m m' := by
        intro m hm m' hm'
        obtain ⟨q, r₁, hPending, hMem⟩ := mem_partly hm
        obtain ⟨q', r₂, hPending', hMem'⟩ := mem_partly hm'
        exact h.commute q q' r₁ r₂ hPending hPending' m hMem m' hMem'
      calc s.data = makeAll make (s.partly moves) t.data := h.data
        _ = makeAll make (moves r ++
              ({ s with done := s.done ++ [p] } : Async ρ δ).partly moves) t.data :=
            makeAll_perm (partly_perm hr hOpen h.nodup h.made hAll) hCommute t.data
        _ = _ := makeAll_append _ _ t.data
    nodup := h.nodup
    made := h.made
    commute := fun q q' r₁ r₂ hq hq' =>
      h.commute q q' r₁ r₂ ⟨hq.1, fun hMem => hq.2 (List.mem_append_left _ hMem)⟩
        ⟨hq'.1, fun hMem => hq'.2 (List.mem_append_left _ hMem)⟩ }

/-- A step of `Async` is the step of `Atomic` it shows as. -/
theorem Serial.step (h : Serial moves make s t) {a : AsyncAct ρ μ} {s' : Async ρ δ}
    (hOk : Independent moves make s a) (hStep : s.step moves make a = some s') :
    ∃ t', Run (Atomic.step moves make) (fun _ _ => True) t a.atomic t' ∧
      Serial moves make s' t' := by
  cases Async.step_cases moves make hStep with
  | submit => exact ⟨_, .single trivial rfl, h.submit hOk.1 hOk.2⟩
  | touch => exact ⟨_, .single trivial rfl, h.touch hOk⟩
  | move hDone hNew hAt => exact ⟨t, .nil, h.move hDone hNew hAt⟩
  | @complete p r hr hDone hAll =>
      refine ⟨_, .single trivial ?_, h.complete hr hDone hAll⟩
      simp only [Atomic.step, h.log, hr, h.done]
      exact if_pos hDone
  | deliver hLe =>
      refine ⟨_, .single trivial (if_pos (by rw [h.got, h.done]; exact hLe)), ?_⟩
      exact
        { log := h.log
          done := h.done
          got := by rw [h.got]
          data := h.data
          nodup := h.nodup
          made := h.made
          commute := h.commute }

/-! ## Whole runs -/

/-- Nothing has been handed in. -/
theorem serial_start (d : δ) :
    Serial moves make ({ data := d } : Async ρ δ) ({ data := d } : Atomic ρ δ) :=
  { log := rfl
    done := rfl
    got := rfl
    data := rfl
    nodup := List.nodup_nil
    made := by simp
    commute := fun p q r r' hp => by simp [Async.Pending] at hp }

/-- Every run with independent requests shows as a run of the atomic machine. -/
theorem serial_of_run {d : δ} {as : List (AsyncAct ρ μ)}
    (h : Run (Async.step moves make) (Independent moves make) { data := d } as s) :
    ∃ t, Run (Atomic.step moves make) (fun _ _ => True) { data := d }
      (as.flatMap AsyncAct.atomic) t ∧ Serial moves make s t := by
  rw [← h.seen_eq_flatMap]
  exact h.simulated (serial_start d) fun _ _ _ _ hSerial hOk hStep => hSerial.step hOk hStep

/-- What no request under way changes is the same on both sides. -/
theorem Serial.observe {γ : Type} (h : Serial moves make s t) (f : δ → γ)
    (hKeep : ∀ p r, s.Pending p r → ∀ m ∈ moves r, ∀ d, f (make m d) = f d) :
    f s.data = f t.data := by
  have hAll : ∀ (ms : List μ), (∀ m ∈ ms, m ∈ s.partly moves) → ∀ d,
      f (makeAll make ms d) = f d := by
    intro ms
    induction ms with
    | nil => exact fun _ d => rfl
    | cons m ms ih =>
        intro hMem d
        obtain ⟨p, r, hPending, hr⟩ := mem_partly (hMem m List.mem_cons_self)
        calc f (makeAll make (m :: ms) d) = f (make m d) :=
              ih (fun x hx => hMem x (List.mem_cons_of_mem m hx)) (make m d)
          _ = f d := hKeep p r hPending m hr d
  rw [h.data]
  exact hAll _ (fun m hm => hm) t.data

end NewPerf.Lib.Transfers
