import NewPerf.Engine.DataRefinement

/-!
# Requests look atomic

Two results about whole runs of the engine with the data.  `carriedOut_of_run` says that
the engine and the device together are the asynchronous machine of `Lib.Transfers`: the
moves made are the moves asked for, each of them once, and `fio` gets requests back after
all their moves.  `atomic_of_run` says that if no request in flight touches what another
one writes, then every request might as well have been performed in one go at the moment
the device reported it done.
-/

namespace NewPerf.Engine

open NewPerf.Lib.LeMemory
open NewPerf.Lib.Runs
open NewPerf.Lib.Transfers
open NewPerf.Tools

/-! ## What a move touches -/

def Move.WritesData : Move → Nat → Prop
  | .toBuffer dst _, a => a = dst
  | .fill dst _, a => a = dst
  | .toMedia _ _, _ => False
  | .erase _ _, _ => False

def Move.ReadsData : Move → Nat → Prop
  | .toMedia _ src, a => a = src
  | .toBuffer _ _, _ => False
  | .erase _ _, _ => False
  | .fill _ _, _ => False

def Move.WritesMedia : Move → Nat → Prop
  | .toMedia dst _, a => a = dst
  | .erase start len, a => start ≤ a ∧ a < start + len
  | .toBuffer _ _, _ => False
  | .fill _ _, _ => False

def Move.ReadsMedia : Move → Nat → Prop
  | .toBuffer _ src, a => a = src
  | .toMedia _ _, _ => False
  | .erase _ _, _ => False
  | .fill _ _, _ => False

/-- `m` writes nothing that `m'` reads or writes. -/
structure Move.Spares (m m' : Move) : Prop where
  data : ∀ a, m.WritesData a → ¬ m'.WritesData a ∧ ¬ m'.ReadsData a
  media : ∀ a, m.WritesMedia a → ¬ m'.WritesMedia a ∧ ¬ m'.ReadsMedia a

section Moves

variable {ns : Namespace} {m m' : Move} {st st' : Storage}

theorem make_data_other {a : Nat} (h : ¬ m.WritesData a) : (ns.make m st).data a = st.data a := by
  cases m with
  | toBuffer dst src => exact Function.update_of_ne h _ _
  | fill dst byte => exact Function.update_of_ne h _ _
  | toMedia dst src => rfl
  | erase start len => rfl

theorem make_media_other {a : Nat} (h : ¬ m.WritesMedia a) :
    (ns.make m st).media a = st.media a := by
  cases m with
  | toBuffer dst src => rfl
  | fill dst byte => rfl
  | toMedia dst src => exact Function.update_of_ne h _ _
  | erase start len => exact if_neg h

/-- What a move stores in the data region depends on what it reads. -/
private theorem make_data_congr {a : Nat} (h : m.WritesData a)
    (hReads : ∀ b, m.ReadsMedia b → st.media b = st'.media b) :
    (ns.make m st).data a = (ns.make m st').data a := by
  cases m with
  | toBuffer dst src =>
      obtain rfl : a = dst := h
      simp only [Namespace.make, Function.update_self]
      exact hReads src rfl
  | fill dst byte =>
      obtain rfl : a = dst := h
      simp only [Namespace.make, Function.update_self]
  | toMedia dst src => exact h.elim
  | erase start len => exact h.elim

/-- What a move stores on the media depends on what it reads, and on what it replaces. -/
private theorem make_media_congr {a : Nat} (h : m.WritesMedia a)
    (hReads : ∀ b, m.ReadsData b → st.data b = st'.data b) (hOld : st.media a = st'.media a) :
    (ns.make m st).media a = (ns.make m st').media a := by
  cases m with
  | toBuffer dst src => exact h.elim
  | fill dst byte => exact h.elim
  | toMedia dst src =>
      obtain rfl : a = dst := h
      simp only [Namespace.make, Function.update_self]
      exact hReads src rfl
  | erase start len => simp only [Namespace.make, hOld]

private theorem spares_of_data (hMedia : ∀ a, ¬ m.WritesMedia a)
    (hData : ∀ a, m.WritesData a → ¬ m'.WritesData a ∧ ¬ m'.ReadsData a) : m.Spares m' :=
  ⟨hData, fun a h => (hMedia a h).elim⟩

private theorem spares_of_media (hData : ∀ a, ¬ m.WritesData a)
    (hMedia : ∀ a, m.WritesMedia a → ¬ m'.WritesMedia a ∧ ¬ m'.ReadsMedia a) : m.Spares m' :=
  ⟨fun a h => (hData a h).elim, hMedia⟩

/-- Moves that spare each other commute. -/
theorem commutes_of_spares (h : m.Spares m') (h' : m'.Spares m) : Commutes ns.make m m' := by
  intro st
  have hData : ∀ a, (ns.make m (ns.make m' st)).data a = (ns.make m' (ns.make m st)).data a := by
    intro a
    by_cases hm : m.WritesData a
    · rw [make_data_other (h.data a hm).1]
      exact make_data_congr hm fun b hb =>
        make_media_other fun hWrite => (h'.media b hWrite).2 hb
    · rw [make_data_other hm]
      by_cases hm' : m'.WritesData a
      · exact make_data_congr hm' fun b hb =>
          (make_media_other fun hWrite => (h.media b hWrite).2 hb).symm
      · rw [make_data_other hm', make_data_other hm', make_data_other hm]
  have hMedia : ∀ a, (ns.make m (ns.make m' st)).media a =
      (ns.make m' (ns.make m st)).media a := by
    intro a
    by_cases hm : m.WritesMedia a
    · have hOther := (h.media a hm).1
      rw [make_media_other hOther]
      exact make_media_congr hm
        (fun b hb => make_data_other fun hWrite => (h'.data b hWrite).2 hb)
        (make_media_other hOther)
    · rw [make_media_other hm]
      by_cases hm' : m'.WritesMedia a
      · exact make_media_congr hm'
          (fun b hb => (make_data_other fun hWrite => (h.data b hWrite).2 hb).symm)
          (make_media_other hm).symm
      · rw [make_media_other hm', make_media_other hm', make_media_other hm]
  exact congrArg₂ Storage.mk (funext hData) (funext hMedia)

/-- Deallocating is the same in any order. -/
private theorem commutes_erase (start len start' len' : Nat) :
    Commutes ns.make (.erase start len) (.erase start' len') := by
  intro st
  simp only [Namespace.make, Storage.mk.injEq, true_and]
  funext a
  by_cases h : start ≤ a ∧ a < start + len
  · by_cases h' : start' ≤ a ∧ a < start' + len'
    · simp only [if_pos h, if_pos h']
    · simp only [if_pos h, if_neg h']
  · by_cases h' : start' ≤ a ∧ a < start' + len'
    · simp only [if_neg h, if_pos h']
    · simp only [if_neg h, if_neg h']

/-- The moves of one request may be made in any order. -/
theorem commutes_own (fioHasMrt : Bool) (td : ThreadData) (ioU : IoU)
    (hm : m ∈ requestMoves fioHasMrt td ioU) (hm' : m' ∈ requestMoves fioHasMrt td ioU) :
    Commutes ns.make m m' := by
  cases hDir : ioU.ddir with
  | read =>
      simp only [requestMoves, hDir, List.mem_map, List.mem_range] at hm hm'
      obtain ⟨k, -, rfl⟩ := hm
      obtain ⟨k', -, rfl⟩ := hm'
      by_cases hk : k = k'
      · rw [hk]
        exact fun st => rfl
      · refine commutes_of_spares (spares_of_data (fun _ => id) ?_)
          (spares_of_data (fun _ => id) ?_)
        · rintro a rfl
          exact ⟨fun hEq : _ = _ => hk (by omega), id⟩
        · rintro a rfl
          exact ⟨fun hEq : _ = _ => hk (by omega), id⟩
  | write =>
      simp only [requestMoves, hDir, List.mem_map, List.mem_range] at hm hm'
      obtain ⟨k, -, rfl⟩ := hm
      obtain ⟨k', -, rfl⟩ := hm'
      by_cases hk : k = k'
      · rw [hk]
        exact fun st => rfl
      · refine commutes_of_spares (spares_of_media (fun _ => id) ?_)
          (spares_of_media (fun _ => id) ?_)
        · rintro a rfl
          exact ⟨fun hEq : _ = _ => hk (by omega), id⟩
        · rintro a rfl
          exact ⟨fun hEq : _ = _ => hk (by omega), id⟩
  | trim =>
      simp only [requestMoves, hDir, List.mem_map] at hm hm'
      obtain ⟨r, -, rfl⟩ := hm
      obtain ⟨r', -, rfl⟩ := hm'
      exact commutes_erase _ _ _ _
  | other =>
      simp only [requestMoves, hDir, List.not_mem_nil] at hm

end Moves

/-! ## Whole runs -/

section Runs

variable {fioHasMrt : Bool} {ns : Namespace} {td : ThreadData} {c : ControllerData}
  {n : NvmeData} {st : Storage} {as : List World.Act} {w w' : World}

theorem represents_start : Represents (World.start n st) { data := st } :=
  ⟨rfl, rfl, rfl, rfl, rfl⟩

/-- What is seen of an orderly run is a run of the asynchronous machine for `fio`'s
requests, and what `fio` has got back are the requests completed, in the order of their
completion. -/
theorem carriedOut_of_run (hFresh : FreshPair n) (hList : ListPages n) (hNs : ns.Matches c)
    (hRun : Run (World.step fioHasMrt ns) (Orderly fioHasMrt td c) (World.start n st) as w) :
    ∃ t, Run (Async.step (requestMoves fioHasMrt td) ns.make) (fun _ _ => True)
        { data := st }
        (seen (World.step fioHasMrt ns) (World.view fioHasMrt) (World.start n st) as) t ∧
      Represents w t ∧
      w.sys.delivered = (t.done.take t.got).map fun p => t.log[p]? := by
  have hSimulated : ∃ t, Run (Async.step (requestMoves fioHasMrt td) ns.make)
      (fun _ _ => True) { data := st }
      (seen (World.step fioHasMrt ns) (World.view fioHasMrt) (World.start n st) as) t ∧
      DataInv fioHasMrt ns td n w ∧ Represents w t := by
    refine hRun.simulated (R := fun w t => DataInv fioHasMrt ns td n w ∧ Represents w t)
      ⟨dataInv_start hFresh, represents_start⟩ ?_
    rintro w a w' t ⟨hInv, hRep⟩ hOk hStep
    have hInv' := hInv.step hList hNs hOk hStep
    rcases hRep.step hInv hInv' hOk hStep with ⟨hView, hSame⟩ | ⟨b, t', hView, hStep', hRep'⟩
    · exact ⟨t, hView ▸ .nil, hInv', hSame⟩
    · exact ⟨t', hView ▸ .single trivial hStep', hInv', hRep'⟩
  obtain ⟨t, hMachine, hInv, hRep⟩ := hSimulated
  obtain ⟨known, base, got, hSys⟩ := hInv.inv
  have hGot : t.got = got := by
    have hReaped := hSys.cq.reaped_le
    have hLe := hSys.table.got_le
    rw [hRep.got, hSys.table.delivered, List.length_map, List.length_take]
    omega
  refine ⟨t, hMachine, hRep, ?_⟩
  rw [hSys.table.delivered, hGot, hRep.done, hRep.log, ← List.map_take, List.map_map]
  exact List.map_congr_left fun d _ => (List.getElem?_map).symm

/-- A read of two bytes, the second of which the device moves first. -/
def twoBytes : List World.Act :=
  [.engine (.queue smallThread byteController (readInto 0x7000 2)), .engine .fetch,
    .move 0 1, .move 0 0, .engine (.post 0 0), .engine (.getevents 1 1 false),
    .engine .host, .engine .host, .engine .host, .engine .host]

/-- Media on which byte `a` holds `a`. -/
def countingStorage : Storage := ⟨fun _ => 0, fun a => UInt8.ofNat a⟩

private theorem exec_twoBytes :
    ∃ w, exec (World.step true byteNamespace)
        (fun w a => decide (Orderly true smallThread byteController w a))
        (World.start smallPair countingStorage) twoBytes = some w ∧
      w.sys.delivered.length = 1 ∧ w.storage.data 1 = 1 := by
  have hEval : (exec (World.step true byteNamespace)
      (fun w a => decide (Orderly true smallThread byteController w a))
      (World.start smallPair countingStorage) twoBytes).any
        (fun w => w.sys.delivered.length == 1 && w.storage.data 1 == 1) = true := by
    decide +kernel
  obtain ⟨w, hExec, hEnd⟩ := (Option.any_eq_true _ _).mp hEval
  simp only [Bool.and_eq_true, beq_iff_eq] at hEnd
  exact ⟨w, hExec, hEnd⟩

theorem carriedOut_of_run_twoBytes :
    ∃ w, (w.sys.delivered.length = 1 ∧ w.storage.data 1 = 1) ∧
      ∃ t, Run (Async.step (requestMoves true smallThread) byteNamespace.make)
          (fun _ _ => True) { data := countingStorage }
          (seen (World.step true byteNamespace) (World.view true)
            (World.start smallPair countingStorage) twoBytes) t ∧
        Represents w t ∧
        w.sys.delivered = (t.done.take t.got).map fun p => t.log[p]? := by
  obtain ⟨w, hExec, hEnd⟩ := exec_twoBytes
  exact ⟨w, hEnd, carriedOut_of_run freshPair_smallPair listPages_smallPair
    matches_byteNamespace (Run.of_exec (fun _ _ => of_decide_eq_true) hExec)⟩

/-- Nothing that is submitted or stored gets in the way of a request in flight. -/
def Undisturbed (fioHasMrt : Bool) (td : ThreadData) (w : World) : World.Act → Prop
  | .engine (.queue _ _ ioU) => ∀ (p : Nat) (e : Submitted), w.sys.log[p]? = some e →
      p ∉ w.sys.done.map Done.pos → ∀ m ∈ requestMoves fioHasMrt td ioU,
        ∀ m' ∈ requestMoves fioHasMrt td e.ioU, m.Spares m' ∧ m'.Spares m
  | .fill dst byte => ∀ (p : Nat) (e : Submitted), w.sys.log[p]? = some e →
      p ∉ w.sys.done.map Done.pos → ∀ m' ∈ requestMoves fioHasMrt td e.ioU,
        (Move.fill dst byte).Spares m' ∧ m'.Spares (.fill dst byte)
  | _ => True

private theorem Represents.pending {t : Async IoU Storage} (h : Represents w t) {p : Nat}
    {r : IoU} (hPending : t.Pending p r) :
    ∃ e, w.sys.log[p]? = some e ∧ e.ioU = r ∧ p ∉ w.sys.done.map Done.pos := by
  obtain ⟨hr, hOpen⟩ := hPending
  rw [h.log, List.getElem?_map] at hr
  rw [h.done] at hOpen
  obtain ⟨e, he, hIoU⟩ := Option.map_eq_some_iff.mp hr
  exact ⟨e, he, hIoU, hOpen⟩

private theorem Undisturbed.independent {t : Async IoU Storage} {a : World.Act}
    {b : AsyncAct IoU Move} (h : Undisturbed fioHasMrt td w a) (hRep : Represents w t)
    (hView : w.view fioHasMrt a = [b]) :
    Independent (requestMoves fioHasMrt td) ns.make t b := by
  have hMem : b ∈ w.view fioHasMrt a := by
    rw [hView]
    exact List.mem_singleton_self b
  have hDelivers : ∀ {e : Engine.Act},
      b ∈ (returning w.sys e).toList.map (fun g => AsyncAct.deliver g.completions) →
        Independent (requestMoves fioHasMrt td) ns.make t b := by
    intro e hDeliver
    obtain ⟨g, -, rfl⟩ := List.mem_map.mp hDeliver
    trivial
  cases a with
  | engine a =>
      cases a with
      | queue td' c ioU =>
          simp only [World.view] at hMem
          split at hMem
          · rw [List.mem_singleton.mp hMem]
            refine ⟨fun m hm m' hm' => commutes_own fioHasMrt td _ hm hm', ?_⟩
            intro p r hPending m hm m' hm'
            obtain ⟨e, he, rfl, hOpen⟩ := hRep.pending hPending
            obtain ⟨hOne, hOther⟩ := h p e he hOpen m hm m' hm'
            exact commutes_of_spares hOne hOther
          · cases hMem
      | post i status =>
          obtain ⟨f, -, rfl⟩ := List.mem_map.mp hMem
          trivial
      | getevents min max timed => exact hDelivers hMem
      | host => exact hDelivers hMem
      | giveUp => exact hDelivers hMem
      | fetch => exact hDelivers hMem
  | move p k =>
      rw [List.mem_singleton.mp hMem]
      trivial
  | fill dst byte =>
      rw [List.mem_singleton.mp hMem]
      intro p r hPending m' hm'
      obtain ⟨e, he, rfl, hOpen⟩ := hRep.pending hPending
      obtain ⟨hOne, hOther⟩ := h p e he hOpen m' hm'
      exact commutes_of_spares hOne hOther

/-- What is seen of an orderly run in which requests in flight stay out of each other's way
shows as a run of the atomic machine, which performs every request in one go where the device
reports it done.  Its data are those of the world wherever no request in flight writes. -/
theorem atomic_of_run (hFresh : FreshPair n) (hList : ListPages n) (hNs : ns.Matches c)
    (hRun : Run (World.step fioHasMrt ns)
      (fun w a => Orderly fioHasMrt td c w a ∧ Undisturbed fioHasMrt td w a)
      (World.start n st) as w) :
    ∃ t, Run (Atomic.step (requestMoves fioHasMrt td) ns.make) (fun _ _ => True)
        { data := st }
        ((seen (World.step fioHasMrt ns) (World.view fioHasMrt) (World.start n st) as).flatMap
          AsyncAct.atomic) t ∧
      t.log = w.sys.log.map Submitted.ioU ∧ t.done = w.sys.done.map Done.pos ∧
      t.got = w.sys.delivered.length ∧
      (∀ a, (∀ (p : Nat) (e : Submitted), w.sys.log[p]? = some e →
          p ∉ w.sys.done.map Done.pos →
          ∀ m ∈ requestMoves fioHasMrt td e.ioU, ¬ m.WritesData a) →
        w.storage.data a = t.data.data a) ∧
      (∀ a, (∀ (p : Nat) (e : Submitted), w.sys.log[p]? = some e →
          p ∉ w.sys.done.map Done.pos →
          ∀ m ∈ requestMoves fioHasMrt td e.ioU, ¬ m.WritesMedia a) →
        w.storage.media a = t.data.media a) := by
  have hSimulated : ∃ s, Run (Async.step (requestMoves fioHasMrt td) ns.make)
      (Independent (requestMoves fioHasMrt td) ns.make) { data := st }
      (seen (World.step fioHasMrt ns) (World.view fioHasMrt) (World.start n st) as) s ∧
      DataInv fioHasMrt ns td n w ∧ Represents w s := by
    refine hRun.simulated (R := fun w s => DataInv fioHasMrt ns td n w ∧ Represents w s)
      ⟨dataInv_start hFresh, represents_start⟩ ?_
    rintro w a w' s ⟨hInv, hRep⟩ hOk hStep
    have hInv' := hInv.step hList hNs hOk.1 hStep
    rcases hRep.step hInv hInv' hOk.1 hStep with
      ⟨hView, hSame⟩ | ⟨b, s', hView, hStep', hRep'⟩
    · exact ⟨s, hView ▸ .nil, hInv', hSame⟩
    · exact ⟨s', hView ▸ .single (hOk.2.independent hRep hView) hStep', hInv', hRep'⟩
  obtain ⟨s, hAsync, -, hRep⟩ := hSimulated
  obtain ⟨t, hMachine, hSerial⟩ := serial_of_run hAsync
  refine ⟨t, hMachine, hSerial.log.trans hRep.log, hSerial.done.trans hRep.done,
    hSerial.got.trans hRep.got, fun a hNone => ?_, fun a hNone => ?_⟩
  · rw [← hRep.data]
    refine hSerial.observe (fun d => d.data a) fun p r hPending m hm d => ?_
    obtain ⟨e, he, rfl, hOpen⟩ := hRep.pending hPending
    exact make_data_other (hNone p e he hOpen m hm)
  · rw [← hRep.data]
    refine hSerial.observe (fun d => d.media a) fun p r hPending m hm d => ?_
    obtain ⟨e, he, rfl, hOpen⟩ := hRep.pending hPending
    exact make_media_other (hNone p e he hOpen m hm)

/-- With nothing in flight, nothing can be disturbed. -/
private theorem undisturbed_of_done {a : World.Act}
    (hDone : ∀ p < w.sys.log.length, p ∈ w.sys.done.map Done.pos) :
    Undisturbed fioHasMrt td w a := by
  have hNone : ∀ (p : Nat) (e : Submitted), w.sys.log[p]? = some e →
      p ∉ w.sys.done.map Done.pos → False :=
    fun p e he hOpen => hOpen (hDone p (List.getElem?_eq_some_iff.mp he).1)
  cases a with
  | engine a =>
      cases a with
      | queue td c ioU => exact fun p e he hOpen => (hNone p e he hOpen).elim
      | getevents min max timed => trivial
      | host => trivial
      | giveUp => trivial
      | fetch => trivial
      | post i status => trivial
  | move p k => trivial
  | fill dst byte => exact fun p e he hOpen => (hNone p e he hOpen).elim

/-- A check that is enough for `Undisturbed`. -/
private def calm (w : World) : World.Act → Bool
  | .engine (.queue ..) => (List.range w.sys.log.length).all (· ∈ w.sys.done.map Done.pos)
  | .fill .. => false
  | _ => true

private theorem undisturbed_of_calm {a : World.Act} (h : calm w a = true) :
    Undisturbed fioHasMrt td w a := by
  cases a with
  | engine a =>
      cases a with
      | queue td c ioU =>
          refine undisturbed_of_done fun p hp => ?_
          exact of_decide_eq_true (List.all_eq_true.mp h p (List.mem_range.mpr hp))
      | getevents min max timed => trivial
      | host => trivial
      | giveUp => trivial
      | fetch => trivial
      | post i status => trivial
  | move p k => trivial
  | fill dst byte => cases h

/-- The read of two bytes, and then a write of one of them to another place. -/
def readThenWrite : List World.Act :=
  twoBytes ++
    [.engine (.queue smallThread byteController
        { readInto 0x7001 1 with ddir := .write, offset := 9 }),
      .engine .fetch, .move 1 0, .engine (.post 0 0), .engine (.getevents 1 1 false),
      .engine .host, .engine .host, .engine .host, .engine .host]

private theorem exec_readThenWrite :
    ∃ w : World, exec (World.step true byteNamespace)
        (fun w a => decide (Orderly true smallThread byteController w a) && calm w a)
        (World.start smallPair countingStorage) readThenWrite = some w ∧
      w.sys.delivered.length = 2 ∧ w.storage.media 9 = 1 ∧
      ∀ p < w.sys.log.length, p ∈ w.sys.done.map Done.pos := by
  have hEval : (exec (World.step true byteNamespace)
      (fun w a => decide (Orderly true smallThread byteController w a) && calm w a)
      (World.start smallPair countingStorage) readThenWrite).any
        (fun w => w.sys.delivered.length == 2 && (w.storage.media 9 == 1 &&
          decide (∀ p < w.sys.log.length, p ∈ w.sys.done.map Done.pos))) = true := by
    decide +kernel
  obtain ⟨w, hExec, hEnd⟩ := (Option.any_eq_true _ _).mp hEval
  simp only [Bool.and_eq_true, beq_iff_eq, decide_eq_true_eq] at hEnd
  exact ⟨w, hExec, hEnd⟩

/-- The atomic machine, too, has the byte from place 1 at place 9 in the end. -/
theorem atomic_of_run_readThenWrite :
    ∃ w : World, w.sys.delivered.length = 2 ∧
      ∃ t, Run (Atomic.step (requestMoves true smallThread) byteNamespace.make)
          (fun _ _ => True) { data := countingStorage }
          ((seen (World.step true byteNamespace) (World.view true)
            (World.start smallPair countingStorage) readThenWrite).flatMap
              AsyncAct.atomic) t ∧
        t.log = w.sys.log.map Submitted.ioU ∧ t.done = w.sys.done.map Done.pos ∧
        t.got = w.sys.delivered.length ∧ t.data.media 9 = 1 := by
  obtain ⟨w, hExec, hTwo, hByte, hAll⟩ := exec_readThenWrite
  have hRun : Run (World.step true byteNamespace)
      (fun w a => Orderly true smallThread byteController w a ∧ Undisturbed true smallThread w a)
      (World.start smallPair countingStorage) readThenWrite w := by
    refine Run.of_exec (fun w a h => ?_) hExec
    obtain ⟨hOrderly, hCalm⟩ := Bool.and_eq_true_iff.mp h
    exact ⟨of_decide_eq_true hOrderly, undisturbed_of_calm hCalm⟩
  obtain ⟨t, hMachine, hLog, hDone, hGot, -, hMedia⟩ :=
    atomic_of_run freshPair_smallPair listPages_smallPair matches_byteNamespace hRun
  have hSame := hMedia 9 fun p e he hOpen =>
    (hOpen (hAll p (List.getElem?_eq_some_iff.mp he).1)).elim
  exact ⟨w, hTwo, t, hMachine, hLog, hDone, hGot, hSame.symm.trans hByte⟩

end Runs

end NewPerf.Engine
