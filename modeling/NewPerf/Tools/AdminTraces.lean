import NewPerf.Lib.LeMemory
import NewPerf.Tools.AdminFields

/-!
# What an execution has done

An execution of an administrative function is a trace of effects and their results.  The
functions here read off the trace what memory was allocated and released, what data was
read, and which admin commands were written and how they were answered.
-/

namespace NewPerf.Tools

open NewPerf.Lib.LeMemory
open NewPerf.Lib.Programs

/-! ## Traces -/

/-- The memory is what `free_dma` accepts. -/
def Mem.IsReal (mem : Mem) : Prop := ¬ (mem.userVirtaddr = 0 ∨ mem.size ≤ 0)

instance (mem : Mem) : Decidable mem.IsReal := inferInstanceAs (Decidable (¬ _))

private def allocatedBy : Sigma Effect.Result → List Mem
  | ⟨.allocDma _ _, mem⟩ => if mem.IsReal then [mem] else []
  | _ => []

private def releasedBy : Sigma Effect.Result → List Mem
  | ⟨.releaseDma mem, _⟩ => [mem]
  | _ => []

private def dataReadBy : Sigma Effect.Result → List Bytes
  | ⟨.readData _, data⟩ => [data]
  | _ => []

/-- The memory allocated in an execution. -/
def allocatedIn (t : Trace Effect.Result) : List Mem := t.flatMap allocatedBy

/-- The memory released in an execution. -/
def releasedIn (t : Trace Effect.Result) : List Mem := t.flatMap releasedBy

/-- The contents of the data buffers read in an execution. -/
def dataReadIn (t : Trace Effect.Result) : List Bytes := t.flatMap dataReadBy

section Traces

variable (t t' : Trace Effect.Result)

theorem allocatedIn_append : allocatedIn (t ++ t') = allocatedIn t ++ allocatedIn t' :=
  List.flatMap_append

theorem releasedIn_append : releasedIn (t ++ t') = releasedIn t ++ releasedIn t' :=
  List.flatMap_append

theorem dataReadIn_append : dataReadIn (t ++ t') = dataReadIn t ++ dataReadIn t' :=
  List.flatMap_append

end Traces

/-- Nothing is allocated and no data is read. -/
def Uneventful (t : Trace Effect.Result) : Prop := allocatedIn t = [] ∧ dataReadIn t = []

/-- The effects that neither allocate memory nor read data. -/
def Effect.IsUneventful : Effect → Prop
  | .allocDma _ _ => False
  | .readData _ => False
  | _ => True

theorem Effect.IsChannel.isUneventful {e : Effect} (h : e.IsChannel) : e.IsUneventful := by
  cases e with
  | allocDma fd size => exact h
  | readData mem => exact h
  | _ => trivial

theorem tells_uneventful {α : Type} {Q : α → Prop} {p : Admin α}
    (h : p.Only Effect.IsUneventful Q) : p.Tells fun t a => Uneventful t ∧ Q a := by
  refine h.tells.mono fun t a hBoth => ⟨⟨?_, ?_⟩, hBoth.2⟩
  · refine List.flatMap_eq_nil_iff.mpr fun x hx => ?_
    have hx := hBoth.1 x hx
    obtain ⟨e, r⟩ := x
    cases e with
    | allocDma fd size => exact hx.elim
    | _ => rfl
  · refine List.flatMap_eq_nil_iff.mpr fun x hx => ?_
    have hx := hBoth.1 x hx
    obtain ⟨e, r⟩ := x
    cases e with
    | readData mem => exact hx.elim
    | _ => rfl

theorem tells_channel {α : Type} {Q : α → Prop} {p : Admin α} (h : p.Only Effect.IsChannel Q) :
    p.Tells fun t a => Uneventful t ∧ Q a :=
  tells_uneventful (h.widen fun _ he => he.isUneventful)

/-! ## Commands -/

/-- A command and the completion queue entry last read for it. -/
abbrev CommandRecord : Type := AdminCommand × Option NvmeCqEntry

/-- The last entry read before the first command, and the commands. -/
def scanCommands : Trace Effect.Result → Option NvmeCqEntry × List CommandRecord
  | [] => (none, [])
  | ⟨.writeSqe _ _ cmd, _⟩ :: t => (none, (cmd, (scanCommands t).1) :: (scanCommands t).2)
  | ⟨.readCqe _ _, cqe⟩ :: t => ((scanCommands t).1.or (some cqe), (scanCommands t).2)
  | _ :: t => scanCommands t

/-- The commands written in an execution, with their answers. -/
def commandsIn (t : Trace Effect.Result) : List CommandRecord := (scanCommands t).2

/-- A part that has no entry read before its first command leaves the answers of the part
before it alone. -/
theorem scanCommands_append {t t' : Trace Effect.Result} (h : (scanCommands t').1 = none) :
    scanCommands (t ++ t') = ((scanCommands t).1, (scanCommands t).2 ++ (scanCommands t').2) := by
  induction t with
  | nil => exact Prod.ext h rfl
  | cons x t ih =>
      obtain ⟨e, r⟩ := x
      cases e with
      | writeSqe virt slot cmd => simp only [List.cons_append, scanCommands, ih]
      | readCqe virt slot => simp only [List.cons_append, scanCommands, ih]
      | _ => exact ih

/-- Behind a part in which nothing is sent or looked for. -/
theorem scanCommands_append_of_none {t t' : Trace Effect.Result}
    (h : scanCommands t = (none, [])) : scanCommands (t ++ t') = scanCommands t' := by
  induction t with
  | nil => rfl
  | cons x t ih =>
      obtain ⟨e, r⟩ := x
      cases e with
      | writeSqe virt slot cmd => exact absurd (congrArg Prod.snd h) (List.cons_ne_nil _ _)
      | readCqe virt slot =>
          have hLast : (scanCommands t).1.or (some r) = none := congrArg Prod.fst h
          simp at hLast
      | _ => exact ih h

/-- What a part of an execution has allocated and released, and what `scanCommands` finds in
it.  It has read no data. -/
structure Summary (t : Trace Effect.Result) (allocated released : List Mem)
    (scan : Option NvmeCqEntry × List CommandRecord) : Prop where
  dataRead : dataReadIn t = []
  allocated : allocatedIn t = allocated
  released : releasedIn t = released
  scan : scanCommands t = scan

/-- Nothing has been allocated, released, sent or read. -/
abbrev Plain (t : Trace Effect.Result) : Prop := Summary t [] [] (none, [])

section Summary

variable {t t' : Trace Effect.Result} {as as' rs rs' : List Mem} {cs cs' : List CommandRecord}
  {last : Option NvmeCqEntry} {scan : Option NvmeCqEntry × List CommandRecord}

theorem Summary.commandsIn_eq (h : Summary t as rs (last, cs)) : commandsIn t = cs := by
  rw [commandsIn, h.scan]

theorem Summary.append (h : Summary t as rs (last, cs)) (h' : Summary t' as' rs' (none, cs')) :
    Summary (t ++ t') (as ++ as') (rs ++ rs') (last, cs ++ cs') := by
  refine ⟨?_, ?_, ?_, ?_⟩
  · rw [dataReadIn_append, h.dataRead, h'.dataRead]
    rfl
  · rw [allocatedIn_append, h.allocated, h'.allocated]
  · rw [releasedIn_append, h.released, h'.released]
  · rw [scanCommands_append (by rw [h'.scan]), h.scan, h'.scan]

theorem Summary.after (h : Summary t' as rs scan) (hPlain : Plain t) :
    Summary (t ++ t') as rs scan := by
  refine ⟨?_, ?_, ?_, ?_⟩
  · rw [dataReadIn_append, hPlain.dataRead, h.dataRead]
    rfl
  · rw [allocatedIn_append, hPlain.allocated, h.allocated]
    rfl
  · rw [releasedIn_append, hPlain.released, h.released]
    rfl
  · rw [scanCommands_append_of_none hPlain.scan, h.scan]

theorem Summary.writeSqe (h : Summary t as rs (last, cs)) (virt : UInt64) (slot : UInt16)
    (cmd : AdminCommand) :
    Summary (⟨.writeSqe virt slot cmd, ()⟩ :: t) as rs (none, (cmd, last) :: cs) := by
  refine ⟨h.dataRead, h.allocated, h.released, ?_⟩
  rw [scanCommands, h.scan]

theorem Summary.readCqe (h : Summary t as rs (last, cs)) (virt : UInt64) (slot : UInt16)
    (cqe : NvmeCqEntry) :
    Summary (⟨.readCqe virt slot, cqe⟩ :: t) as rs (last.or (some cqe), cs) := by
  refine ⟨h.dataRead, h.allocated, h.released, ?_⟩
  rw [scanCommands, h.scan]

end Summary

/-- The effects that do not count for `Summary`. -/
def Effect.IsPlain : Effect → Prop
  | .allocDma _ _ => False
  | .releaseDma _ => False
  | .writeSqe _ _ _ => False
  | .readCqe _ _ => False
  | .readData _ => False
  | _ => True

theorem Effect.IsRegister.isPlain {e : Effect} (h : e.IsRegister) : e.IsPlain := by
  cases e with
  | allocDma fd size => exact h
  | releaseDma mem => exact h
  | writeSqe virt slot cmd => exact h
  | readCqe virt slot => exact h
  | readData mem => exact h
  | _ => trivial

theorem Effect.IsOpening.isPlain {e : Effect} (h : e.IsOpening) : e.IsPlain := by
  cases e with
  | dmaOpen bus dev func => trivial
  | printErrno message => trivial
  | _ => exact h.elim

theorem plain_singleton {e : Effect} (h : e.IsPlain) (r : e.Result) : Plain [⟨e, r⟩] := by
  cases e with
  | allocDma fd size => exact h.elim
  | releaseDma mem => exact h.elim
  | writeSqe virt slot cmd => exact h.elim
  | readCqe virt slot => exact h.elim
  | readData mem => exact h.elim
  | _ => exact ⟨rfl, rfl, rfl, rfl⟩

theorem tells_plain {α : Type} {Q : α → Prop} {p : Admin α} (h : p.Only Effect.IsPlain Q) :
    p.Tells fun t a => Plain t ∧ Q a := by
  induction p with
  | pure a => exact ⟨⟨rfl, rfl, rfl, rfl⟩, h⟩
  | op e k ih =>
      refine fun r => (ih r (h.2 r)).mono fun t a hRest => ⟨?_, hRest.2⟩
      exact hRest.1.after (plain_singleton h.1 r)

theorem tells_register {α : Type} {Q : α → Prop} {p : Admin α}
    (h : p.Only Effect.IsRegister Q) : p.Tells fun t a => Plain t ∧ Q a :=
  tells_plain (h.widen fun _ he => he.isPlain)

/-! ## Memory -/

theorem tells_nvmeDmaOpenController (c : ControllerData) :
    (nvmeDmaOpenController c).Tells fun t r => Plain t ∧ SameSetup c r.2 :=
  tells_plain ((only_nvmeDmaOpenController c).widen fun _ he => he.isPlain)

/-- What `nvme_alloc_dma_mem` has done when it returns. -/
structure Allocates (c : ControllerData) (t : Trace Effect.Result)
    (r : Bool × ControllerData × Mem) : Prop where
  setup : SameSetup c r.2.1
  isReal : r.1 = true → r.2.2.IsReal
  summary : Summary t (if r.1 then [r.2.2] else []) [] (none, [])

theorem tells_nvmeAllocDmaMem (c : ControllerData) (size : UInt64) (mem : Mem) :
    (nvmeAllocDmaMem c size mem).Tells (Allocates c) := by
  unfold nvmeAllocDmaMem
  refine (tells_nvmeDmaOpenController c).bind fun t ⟨opened, c'⟩ ⟨hPlain, hSetup⟩ => ?_
  cases opened with
  | false =>
      refine ⟨hSetup, nofun, ?_⟩
      rw [List.append_nil]
      exact hPlain
  | true =>
      intro mem
      show Prog.Tells _ (if _ then _ else _)
      split
      · rename_i hBad
        refine fun _ => ⟨hSetup, nofun, hPlain.append ⟨rfl, ?_, rfl, rfl⟩⟩
        show (if mem.IsReal then [mem] else []) ++ ([] ++ []) = []
        rw [if_neg (fun hReal : mem.IsReal => hReal hBad)]
        rfl
      · rename_i hGood
        have hReal : Mem.IsReal mem := hGood
        refine ⟨hSetup, fun _ => hReal, hPlain.append ⟨rfl, ?_, rfl, rfl⟩⟩
        show (if mem.IsReal then [mem] else []) ++ [] = [mem]
        rw [if_pos hReal]
        rfl

/-- `free_dma` releases real memory. -/
theorem tells_freeDma {mem : Mem} (h : mem.IsReal) :
    (freeDma mem).Tells fun t _ => Summary t [] [mem] (none, []) := by
  unfold freeDma
  rw [if_neg h]
  exact fun _ => ⟨rfl, rfl, rfl, rfl⟩

end NewPerf.Tools
