import NewPerf.Lib.Traces
import NewPerf.Tools.IoQueue

/-!
# What the administrative functions do, and what they leave alone

For each basic function it is said here once which effects it performs and what it does to
`struct controller_data`, as narrowly as the text of the function has it: a load of CAP
loads a register, a command stores its entry at the tail and rings one doorbell.  Who needs
to know less takes it from here by `Prog.Only.widen` and `Prog.Only.mono`.

Of `struct controller_data` a command changes no more than the place in the two queues and
the next command id, and an allocation no more than the file descriptor.  Everything else
in the structure is `setup`.
-/

namespace NewPerf.Tools

open NewPerf.Lib.Programs

/-! ## Kinds of effects -/

/-- Loads of registers, and messages. -/
def Effect.IsLoad : Effect → Prop
  | .regRead _ => True
  | .printErrno _ => True
  | _ => False

/-- Loads and stores of registers, and messages. -/
def Effect.IsRegister : Effect → Prop
  | .regRead _ => True
  | .regWrite _ _ => True
  | .printErrno _ => True
  | _ => False

/-- Loads and stores of registers and queue entries, and messages. -/
def Effect.IsChannel : Effect → Prop
  | .regRead _ => True
  | .regWrite _ _ => True
  | .writeSqe _ _ _ => True
  | .readCqe _ _ => True
  | .printErrno _ => True
  | _ => False

/-- Stores to one register, and messages. -/
def Effect.StoresTo (offset : UInt32) : Effect → Prop
  | .regWrite offset' _ => offset' = offset
  | .printErrno _ => True
  | _ => False

/-- What it takes to submit a command: its entry, and the doorbell. -/
def Effect.Submits (c : ControllerData) : Effect → Prop
  | .writeSqe virt slot _ => virt = c.adminSqVirtAddr ∧ slot = c.adminSqTail
  | e => e.StoresTo c.adminSqTailDb

/-- What it takes to wait for a command: the entry looked at, and the doorbell. -/
def Effect.Completes (c : ControllerData) : Effect → Prop
  | .readCqe virt slot => virt = c.adminCqVirtAddr ∧ slot = c.adminCqHead
  | e => e.StoresTo c.adminCqHeadDb

/-- Opening the DMA device, and messages. -/
def Effect.IsOpening : Effect → Prop
  | .dmaOpen _ _ _ => True
  | .printErrno _ => True
  | _ => False

/-- Opening the DMA device and allocating from it, and messages. -/
def Effect.IsAllocation : Effect → Prop
  | .dmaOpen _ _ _ => True
  | .allocDma _ _ => True
  | .printErrno _ => True
  | _ => False

/-- Everything but stores to registers other than the doorbells of `c`. -/
def Effect.Rings (c : ControllerData) : Effect → Prop
  | .regWrite offset _ => offset = c.adminSqTailDb ∨ offset = c.adminCqHeadDb
  | _ => True

namespace Effect

variable {e : Effect} {c : ControllerData} {offset : UInt32}

theorem IsLoad.isRegister (h : e.IsLoad) : e.IsRegister := by
  cases e with
  | regRead offset => trivial
  | printErrno message => trivial
  | _ => exact h.elim

theorem IsRegister.isChannel (h : e.IsRegister) : e.IsChannel := by
  cases e with
  | writeSqe virt slot cmd => exact h.elim
  | readCqe virt slot => exact h.elim
  | _ => exact h

theorem StoresTo.isRegister (h : e.StoresTo offset) : e.IsRegister := by
  cases e with
  | regWrite offset' v => trivial
  | printErrno message => trivial
  | _ => exact h.elim

theorem StoresTo.submits (h : e.StoresTo c.adminSqTailDb) : e.Submits c := by
  cases e with
  | writeSqe virt slot cmd => exact h.elim
  | _ => exact h

theorem StoresTo.completes (h : e.StoresTo c.adminCqHeadDb) : e.Completes c := by
  cases e with
  | readCqe virt slot => exact h.elim
  | _ => exact h

theorem Submits.isChannel (h : e.Submits c) : e.IsChannel := by
  cases e with
  | writeSqe virt slot cmd => trivial
  | regWrite offset v => trivial
  | printErrno message => trivial
  | _ => exact h.elim

theorem Completes.isChannel (h : e.Completes c) : e.IsChannel := by
  cases e with
  | readCqe virt slot => trivial
  | regWrite offset v => trivial
  | printErrno message => trivial
  | _ => exact h.elim

theorem IsOpening.isAllocation (h : e.IsOpening) : e.IsAllocation := by
  cases e with
  | dmaOpen bus dev func => trivial
  | printErrno message => trivial
  | _ => exact h.elim

theorem IsLoad.rings (h : e.IsLoad) : e.Rings c := by
  cases e with
  | regWrite offset v => exact h.elim
  | _ => trivial

theorem IsAllocation.rings (h : e.IsAllocation) : e.Rings c := by
  cases e with
  | regWrite offset v => exact h.elim
  | _ => trivial

theorem Submits.rings (h : e.Submits c) : e.Rings c := by
  cases e with
  | regWrite offset v => exact .inl h
  | _ => trivial

theorem Completes.rings (h : e.Completes c) : e.Rings c := by
  cases e with
  | regWrite offset v => exact .inr h
  | _ => trivial

end Effect

/-! ## What is kept of `struct controller_data` -/

/-- The structure without the fields that admin commands and allocations change. -/
def ControllerData.setup (c : ControllerData) : ControllerData :=
  { c with
    adminSqTail := 0
    adminCqHead := 0
    adminCqPhase := 0
    adminCmdId := 0
    dmaFd := 0
    dmaFdOpened := false }

/-- Commands have been sent and memory allocated, and nothing else. -/
def SameSetup (c c' : ControllerData) : Prop := c'.setup = c.setup

/-- Where a controller is mapped, its admin queues, and its doorbells. -/
structure SameWiring (c c' : ControllerData) : Prop where
  bar0 : c'.bar0Virt = c.bar0Virt
  sqMem : c'.adminSqMem = c.adminSqMem
  cqMem : c'.adminCqMem = c.adminCqMem
  sqDb : c'.adminSqTailDb = c.adminSqTailDb
  cqDb : c'.adminCqHeadDb = c.adminCqHeadDb

section

variable {c c' c'' : ControllerData}

theorem SameSetup.refl (c : ControllerData) : SameSetup c c := Eq.refl _

theorem SameSetup.trans (h : SameSetup c c') (h' : SameSetup c' c'') : SameSetup c c'' :=
  Eq.trans h' h

theorem SameSetup.lbaShift (h : SameSetup c c') : c'.lbaShift = c.lbaShift :=
  show c'.setup.lbaShift = c.setup.lbaShift by rw [h]

theorem SameSetup.size (h : SameSetup c c') : c'.size = c.size :=
  show c'.setup.size = c.setup.size by rw [h]

theorem SameWiring.refl (c : ControllerData) : SameWiring c c := ⟨rfl, rfl, rfl, rfl, rfl⟩

theorem SameWiring.trans (h : SameWiring c c') (h' : SameWiring c' c'') : SameWiring c c'' :=
  ⟨h'.bar0.trans h.bar0, h'.sqMem.trans h.sqMem, h'.cqMem.trans h.cqMem,
    h'.sqDb.trans h.sqDb, h'.cqDb.trans h.cqDb⟩

theorem SameSetup.sameWiring (h : SameSetup c c') : SameWiring c c' where
  bar0 := show c'.setup.bar0Virt = c.setup.bar0Virt by rw [h]
  sqMem := show c'.setup.adminSqMem = c.setup.adminSqMem by rw [h]
  cqMem := show c'.setup.adminCqMem = c.setup.adminCqMem by rw [h]
  sqDb := show c'.setup.adminSqTailDb = c.setup.adminSqTailDb by rw [h]
  cqDb := show c'.setup.adminCqHeadDb = c.setup.adminCqHeadDb by rw [h]

theorem SameWiring.rings (h : SameWiring c c') {e : Effect} (he : e.Rings c') : e.Rings c := by
  cases e with
  | regWrite offset v =>
      refine Or.imp ?_ ?_ he
      · exact fun hOffset => hOffset.trans h.sqDb
      · exact fun hOffset => hOffset.trans h.cqDb
  | _ => trivial

end

/-! ## Registers -/

section Basic

variable {α : Type}

theorem only_printErrno (message : String) :
    (printErrno message).Only Effect.IsLoad fun _ => True :=
  ⟨trivial, fun _ => trivial⟩

/-- The exit that reports an error. -/
theorem only_report (message : String) (a : α) :
    (printErrno message >>= fun _ => (pure a : Admin α)).Only Effect.IsLoad fun r => r = a :=
  (only_printErrno message).bind fun _ _ => rfl

theorem only_regRead32 (bar0 : UInt64) (offset : UInt32) :
    (controllerRegRead32 bar0 offset).Only Effect.IsLoad fun _ => True := by
  unfold controllerRegRead32
  split
  · exact (only_printErrno _).bind fun _ _ => trivial
  · exact ⟨trivial, fun _ => trivial⟩

theorem only_regRead64 (bar0 : UInt64) (offset : UInt32) :
    (nvmeRegRead64 bar0 offset).Only Effect.IsLoad fun _ => True := by
  unfold nvmeRegRead64
  refine (only_regRead32 bar0 offset).bind fun lo _ => ?_
  cases lo with
  | none => trivial
  | some lo =>
      refine (only_regRead32 bar0 (offset + 4)).bind fun hi _ => ?_
      cases hi with
      | none => trivial
      | some hi => trivial

theorem only_regWrite32 (bar0 : UInt64) (offset v : UInt32) :
    (controllerRegWrite32 bar0 offset v).Only (Effect.StoresTo offset) fun _ => True := by
  unfold controllerRegWrite32
  split
  · exact ⟨trivial, fun _ => trivial⟩
  · exact ⟨rfl, fun _ => trivial⟩

theorem only_load {Q : α → Prop} {p : Admin α} (h : p.Only Effect.IsLoad Q) :
    p.Only Effect.IsRegister Q :=
  h.widen fun _ he => he.isRegister

theorem only_store (bar0 : UInt64) (offset v : UInt32) :
    (controllerRegWrite32 bar0 offset v).Only Effect.IsRegister fun _ => True :=
  (only_regWrite32 bar0 offset v).widen fun _ he => he.isRegister

theorem only_regWrite64 (bar0 : UInt64) (offset : UInt32) (v : UInt64) :
    (nvmeRegWrite64 bar0 offset v).Only Effect.IsRegister fun _ => True := by
  unfold nvmeRegWrite64
  refine (only_store _ _ _).bind fun low _ => ?_
  cases low with
  | false => trivial
  | true =>
      refine (only_store _ _ _).bind fun high _ => ?_
      cases high with
      | false => trivial
      | true => trivial

theorem only_waitReady (bar0 : UInt64) (ready : Bool) (timeoutMs : UInt32) :
    (waitReady bar0 ready timeoutMs).Only Effect.IsLoad fun _ => True := by
  unfold waitReady
  generalize timeoutMs.toNat = left
  induction left with
  | zero => exact (only_printErrno _).bind fun _ _ => trivial
  | succ left ih =>
      refine (only_regRead32 _ _).bind fun read _ => ?_
      cases read with
      | none => trivial
      | some csts =>
          dsimp only
          split
          · exact (only_printErrno _).bind fun _ _ => trivial
          by_cases hWant : csts &&& nvmeCstsRdy = (if ready then nvmeCstsRdy else 0)
          · rw [if_pos hWant]
            trivial
          · rw [if_neg hWant]
            exact ih

/-- The part of `controller_deinit` that stops the controller. -/
theorem only_stopController (bar0 : UInt64) :
    (stopController bar0).Only Effect.IsRegister fun _ => True := by
  unfold stopController
  refine (only_load (only_regRead64 _ _)).bind fun read _ => ?_
  cases read with
  | none => trivial
  | some cap =>
      dsimp only
      split
      · refine (only_load (only_regRead32 _ _)).bind fun read _ => ?_
        cases read with
        | none => trivial
        | some cc =>
            dsimp only
            split
            · refine (only_store _ _ _).bind fun written _ => ?_
              cases written with
              | false => trivial
              | true => exact (only_load (only_waitReady _ _ _)).bind fun _ _ => trivial
            · trivial
      · trivial

/-! ## Memory -/

theorem only_freeDma (mem : Mem) :
    (freeDma mem).Only (· = Effect.releaseDma mem) fun _ => True := by
  unfold freeDma
  split
  · trivial
  · exact ⟨rfl, fun _ => trivial⟩

theorem only_nvmeDmaOpenController (c : ControllerData) :
    (nvmeDmaOpenController c).Only Effect.IsOpening fun r => SameSetup c r.2 := by
  unfold nvmeDmaOpenController
  split
  · exact SameSetup.refl c
  · refine ⟨trivial, fun fd => ?_⟩
    show Prog.Only _ _ (if fd < 0 then _ else _)
    split
    · exact ⟨trivial, fun _ => SameSetup.refl c⟩
    · rfl

theorem only_nvmeAllocDmaMem (c : ControllerData) (size : UInt64) (mem : Mem) :
    (nvmeAllocDmaMem c size mem).Only Effect.IsAllocation fun r => SameSetup c r.2.1 := by
  unfold nvmeAllocDmaMem
  refine ((only_nvmeDmaOpenController c).widen fun _ he => he.isAllocation).bind
    fun ⟨opened, c⟩ hc => ?_
  cases opened with
  | false => exact hc
  | true =>
      refine ⟨trivial, fun mem => ?_⟩
      show Prog.Only _ _ (if _ then _ else _)
      split
      · exact ⟨trivial, fun _ => hc⟩
      · exact hc

/-! ## Commands -/

theorem only_submitCommand (c : ControllerData) (cmd : AdminCommand) :
    (submitCommand c cmd).Only (Effect.Submits c) fun r => r.2 = advanceAdminSq c := by
  refine ⟨⟨rfl, rfl⟩, fun _ => ?_⟩
  refine ((only_regWrite32 _ _ _).widen fun _ he => he.submits).bind fun rung _ => ?_
  cases rung with
  | false => rfl
  | true => rfl

theorem only_takeCompletion (c : ControllerData) (cqe : NvmeCqEntry) :
    (takeCompletion c cqe).Only (Effect.Completes c) fun r => r.2 = advanceAdminCq c := by
  refine ((only_regWrite32 _ _ _).widen fun _ he => he.completes).bind fun written _ => ?_
  cases written with
  | false => rfl
  | true =>
      dsimp only
      split
      · exact ⟨trivial, fun _ => rfl⟩
      · rfl

/-- How a wait leaves the structure: nothing has come, or one entry has been taken. -/
def Waited (c c' : ControllerData) : Prop := c' = c ∨ c' = advanceAdminCq c

theorem Waited.sameSetup {c c' : ControllerData} (h : Waited c c') : SameSetup c c' := by
  rcases h with rfl | rfl
  · rfl
  · rfl

theorem only_waitAdminCompletion (c : ControllerData) (cmdId : UInt16) (timeoutMs : UInt32) :
    (waitAdminCompletion c cmdId timeoutMs).Only (Effect.Completes c) fun r =>
      Waited c r.2 := by
  unfold waitAdminCompletion
  generalize timeoutMs.toNat = left
  induction left with
  | zero => exact ⟨trivial, fun _ => .inl rfl⟩
  | succ left ih =>
      refine ⟨⟨rfl, rfl⟩, fun cqe => ?_⟩
      show Prog.Only _ _ (if _ then _ else _)
      split
      · split
        · exact ⟨trivial, fun _ => .inl rfl⟩
        · exact (only_takeCompletion c cqe).mono fun _ hr => .inr hr
      · exact ih

/-- The structure once a command has been submitted. -/
def commandSent (c : ControllerData) : ControllerData :=
  advanceAdminSq { c with adminCmdId := c.adminCmdId + 1 }

theorem only_adminCommand (c : ControllerData) (opcode : UInt8) (prp1 : UInt64)
    (cdw10 cdw11 : UInt32) :
    (adminCommand c opcode prp1 cdw10 cdw11).Only (fun e => e.Submits c ∨ e.Completes c)
      fun r => Waited (commandSent c) r.2 := by
  unfold adminCommand submitAdminCommand
  have hSubmit : (submitCommand { c with adminCmdId := c.adminCmdId + 1 }
      { opcode, cid := c.adminCmdId, nsid := 0, prp1, cdw10, cdw11 }).Only
        (fun e => e.Submits c ∨ e.Completes c) fun r => r.2 = commandSent c :=
    (only_submitCommand { c with adminCmdId := c.adminCmdId + 1 } _).widen fun _ he => .inl he
  refine hSubmit.bind fun ⟨submitted, c'⟩ hc' => ?_
  obtain rfl : c' = commandSent c := hc'
  cases submitted with
  | false => exact .inl rfl
  | true => exact (only_waitAdminCompletion (commandSent c) _ _).widen fun _ he => .inr he

/-! ### As far as other memory is concerned -/

theorem only_channel {Q : α → Prop} {p : Admin α} (h : p.Only Effect.IsLoad Q) :
    p.Only Effect.IsChannel Q :=
  h.widen fun _ he => he.isRegister.isChannel

theorem channel_submitCommand (c : ControllerData) (cmd : AdminCommand) :
    (submitCommand c cmd).Only Effect.IsChannel fun r => SameSetup c r.2 :=
  ((only_submitCommand c cmd).widen fun _ he => he.isChannel).mono fun _ hr => by
    rw [hr]
    rfl

theorem channel_waitAdminCompletion (c : ControllerData) (cmdId : UInt16)
    (timeoutMs : UInt32) :
    (waitAdminCompletion c cmdId timeoutMs).Only Effect.IsChannel fun r => SameSetup c r.2 :=
  ((only_waitAdminCompletion c cmdId timeoutMs).widen fun _ he => he.isChannel).mono
    fun _ hr => hr.sameSetup

end Basic

/-! ## Calls -/

/-- The program stores to no register but the doorbells of `c`, and leaves the setup of `c`
alone; `f` finds the structure in the result. -/
def Keeps {α : Type} (c : ControllerData) (f : α → ControllerData) (p : Admin α) : Prop :=
  p.Only (Effect.Rings c) fun a => SameSetup c (f a)

/-- The program serves the controller `c` and leaves its wiring alone. -/
def Serves {α : Type} (c : ControllerData) (f : α → ControllerData) (p : Admin α) : Prop :=
  p.Only (Effect.Rings c) fun a => SameWiring c (f a)

section Calls

variable {α β : Type} {c c' : ControllerData} {f : α → ControllerData} {p : Admin α}

theorem Keeps.of_same (hSame : SameSetup c c') (h : Keeps c' f p) : Keeps c f p :=
  (Prog.Only.widen h fun _ he => hSame.sameWiring.rings he).mono fun _ ha => hSame.trans ha

/-- A program that goes on with what another one has left. -/
theorem Keeps.bind {g : β → ControllerData} {k : α → Admin β} (h : Keeps c f p)
    (hNext : ∀ a, Keeps (f a) g (k a)) : Keeps c g (p >>= k) :=
  Prog.Only.bind h fun a ha => Keeps.of_same ha (hNext a)

theorem Keeps.serves (h : Keeps c f p) : Serves c f p :=
  Prog.Only.mono h fun _ ha => ha.sameWiring

theorem Serves.of_same (hSame : SameWiring c c') (h : Serves c' f p) : Serves c f p :=
  (Prog.Only.widen h fun _ he => hSame.rings he).mono fun _ ha => hSame.trans ha

@[inherit_doc Keeps.bind]
theorem Serves.bind {g : β → ControllerData} {k : α → Admin β} (h : Serves c f p)
    (hNext : ∀ a, Serves (f a) g (k a)) : Serves c g (p >>= k) :=
  Prog.Only.bind h fun a ha => Serves.of_same ha (hNext a)

theorem keeps_perform (c : ControllerData) (e : Effect) (h : e.Rings c) :
    Keeps c (fun _ => c) (perform e) :=
  ⟨h, fun _ => .refl c⟩

theorem keeps_report (message : String) {a : α} (h : SameSetup c (f a)) :
    Keeps c f (printErrno message >>= fun _ => (pure a : Admin α)) :=
  ((only_report message a).widen fun _ he => he.rings).mono fun _ hEq => hEq ▸ h

theorem keeps_readCap (c : ControllerData) :
    Keeps c (fun _ => c) (nvmeRegRead64 c.bar0Virt nvmeRegCap) :=
  ((only_regRead64 _ _).widen fun _ he => he.rings).mono fun _ _ => .refl c

theorem keeps_freeDma (c : ControllerData) (mem : Mem) : Keeps c (fun _ => c) (freeDma mem) := by
  refine ((only_freeDma mem).widen fun e he => ?_).mono fun _ _ => .refl c
  rw [he]
  trivial

theorem keeps_nvmeAllocDmaMem (c : ControllerData) (size : UInt64) (mem : Mem) :
    Keeps c (fun r => r.2.1) (nvmeAllocDmaMem c size mem) :=
  (only_nvmeAllocDmaMem c size mem).widen fun _ he => he.rings

theorem keeps_submitCommand (c : ControllerData) (cmd : AdminCommand) :
    Keeps c Prod.snd (submitCommand c cmd) :=
  ((only_submitCommand c cmd).widen fun _ he => he.rings).mono fun _ hr => by
    rw [hr]
    rfl

theorem keeps_waitAdminCompletion (c : ControllerData) (cmdId : UInt16) (timeoutMs : UInt32) :
    Keeps c Prod.snd (waitAdminCompletion c cmdId timeoutMs) :=
  ((only_waitAdminCompletion c cmdId timeoutMs).widen fun _ he => he.rings).mono
    fun _ hr => hr.sameSetup

theorem keeps_adminCommand (c : ControllerData) (opcode : UInt8) (prp1 : UInt64)
    (cdw10 cdw11 : UInt32) :
    Keeps c Prod.snd (adminCommand c opcode prp1 cdw10 cdw11) := by
  have hSent : SameSetup c (commandSent c) := rfl
  exact ((only_adminCommand c opcode prp1 cdw10 cdw11).widen fun _ he =>
    he.elim (fun h => h.rings) fun h => h.rings).mono fun _ hr => hSent.trans hr.sameSetup

/-! ### `nvme_get_file_size` -/

private theorem serves_readFileSize (c : ControllerData) (identify : Mem) :
    Serves c Prod.snd (readFileSize c identify) := by
  refine (keeps_perform c (.readData _) trivial).serves.bind fun data => ?_
  split
  · exact (keeps_freeDma c identify).serves.bind fun _ => ⟨rfl, rfl, rfl, rfl, rfl⟩
  · refine (keeps_perform c (.printErrno _) trivial).serves.bind fun _ => ?_
    exact (keeps_freeDma c identify).serves.bind fun _ => SameWiring.refl c

private theorem serves_identifyFileSize (c : ControllerData) (identify : Mem) :
    Serves c Prod.snd (identifyFileSize c identify) := by
  have hSame : SameWiring c { c with adminCmdId := c.adminCmdId + 1 } := ⟨rfl, rfl, rfl, rfl, rfl⟩
  refine (keeps_perform c (.zeroDma _) trivial).serves.bind fun _ => .of_same hSame ?_
  refine (keeps_submitCommand _ _).serves.bind fun ⟨submitted, c₁⟩ => ?_
  cases submitted with
  | false => exact (keeps_freeDma c₁ identify).serves.bind fun _ => SameWiring.refl c₁
  | true =>
      refine (keeps_waitAdminCompletion c₁ _ _).serves.bind fun ⟨completed, c₂⟩ => ?_
      cases completed with
      | false => exact (keeps_freeDma c₂ identify).serves.bind fun _ => SameWiring.refl c₂
      | true => exact serves_readFileSize c₂ identify

/-- The size of the namespace and its shift are the only other fields that change. -/
theorem serves_nvmeGetFileSize (c : ControllerData) :
    Serves c Prod.snd (nvmeGetFileSize c) := by
  unfold nvmeGetFileSize
  split
  · exact (keeps_report _ (.refl c)).serves
  split
  · exact (keeps_report _ (.refl c)).serves
  refine (keeps_readCap c).serves.bind fun read => ?_
  cases read with
  | none => exact SameWiring.refl c
  | some cap =>
      dsimp only
      split
      · exact (keeps_report _ (.refl c)).serves
      refine (keeps_nvmeAllocDmaMem c _ _).serves.bind fun ⟨allocated, c₁, identify⟩ => ?_
      cases allocated with
      | false => exact SameWiring.refl c₁
      | true => exact serves_identifyFileSize c₁ identify

/-! ### `create_io_queue_pair` and `delete_io_queue_pair` -/

private theorem keeps_createQueues (c : ControllerData) (n : NvmeData) (cap : UInt64)
    (ioSqDepth ioCqDepth : UInt32) :
    Keeps c (fun r => r.2.1) (createQueues c n cap ioSqDepth ioCqDepth) := by
  unfold createQueues
  refine (keeps_adminCommand c _ _ _ _).bind fun ⟨cqOk, c₁⟩ => ?_
  cases cqOk with
  | false => exact SameSetup.refl c₁
  | true =>
      refine (keeps_adminCommand c₁ _ _ _ _).bind fun ⟨sqOk, c₂⟩ => ?_
      cases sqOk with
      | false => exact SameSetup.refl c₂
      | true => exact SameSetup.refl c₂

private theorem keeps_allocQueues (c : ControllerData) (n : NvmeData) (cap : UInt64)
    (ioSqDepth ioCqDepth : UInt32) :
    Keeps c (fun r => r.2.1) (allocQueues c n cap ioSqDepth ioCqDepth) := by
  unfold allocQueues
  refine (keeps_nvmeAllocDmaMem c _ _).bind fun ⟨cqOk, c₁, cqMem⟩ => ?_
  cases cqOk with
  | false => exact SameSetup.refl c₁
  | true =>
      refine (keeps_nvmeAllocDmaMem c₁ _ _).bind fun ⟨sqOk, c₂, sqMem⟩ => ?_
      cases sqOk with
      | false => exact (keeps_freeDma c₂ _).bind fun _ => SameSetup.refl c₂
      | true =>
          refine (keeps_nvmeAllocDmaMem c₂ _ _).bind fun ⟨prpOk, c₃, prpMem⟩ => ?_
          cases prpOk with
          | false =>
              refine (keeps_freeDma c₃ _).bind fun _ => ?_
              exact (keeps_freeDma c₃ _).bind fun _ => SameSetup.refl c₃
          | true =>
              refine (keeps_perform c₃ (.zeroDma _) trivial).bind fun _ => ?_
              refine (keeps_perform c₃ (.zeroDma _) trivial).bind fun _ => ?_
              refine (keeps_perform c₃ (.zeroDma _) trivial).bind fun _ => ?_
              exact keeps_createQueues c₃ _ cap _ _

theorem keeps_createIoQueuePair (c : ControllerData) (n : NvmeData) :
    Keeps c (fun r => r.2.1) (createIoQueuePair c n) := by
  unfold createIoQueuePair
  split
  · exact keeps_report _ (.refl c)
  split
  · exact keeps_report _ (.refl c)
  split
  · exact keeps_report _ (.refl c)
  split
  · exact keeps_report _ (.refl c)
  refine (keeps_readCap c).bind fun read => ?_
  cases read with
  | none => exact SameSetup.refl c
  | some cap =>
      dsimp only
      split
      · exact keeps_report _ (.refl c)
      split
      · exact keeps_report _ (.refl c)
      split
      · exact keeps_report _ (.refl c)
      · exact keeps_allocQueues c n cap _ _

private theorem keeps_deleteIfPresent (c : ControllerData) (virt : UInt64) (opcode : UInt8)
    (qid : UInt16) : Keeps c Prod.snd (deleteIfPresent c virt opcode qid) := by
  unfold deleteIfPresent
  split
  · exact keeps_adminCommand c _ _ _ _
  · exact SameSetup.refl c

private theorem keeps_releasePair (c : ControllerData) (n : NvmeData) :
    Keeps c (fun r => r.2.1) (releasePair c n) := by
  refine (keeps_freeDma c _).bind fun _ => ?_
  refine (keeps_freeDma c _).bind fun _ => ?_
  refine (keeps_freeDma c _).bind fun _ => ?_
  exact (keeps_freeDma c _).bind fun _ => SameSetup.refl c

theorem keeps_deleteIoQueuePair (c : ControllerData) (n : NvmeData) :
    Keeps c (fun r => r.2.1) (deleteIoQueuePair c n) := by
  unfold deleteIoQueuePair
  split
  · exact keeps_report _ (.refl c)
  split
  · exact keeps_report _ (.refl c)
  split
  · exact keeps_report _ (.refl c)
  split
  · exact SameSetup.refl c
  refine (keeps_readCap c).bind fun read => ?_
  cases read with
  | none => exact SameSetup.refl c
  | some cap =>
      dsimp only
      split
      · exact keeps_report _ (.refl c)
      refine (keeps_deleteIfPresent c _ _ _).bind fun ⟨sqOk, c₁⟩ => ?_
      cases sqOk with
      | false => exact SameSetup.refl c₁
      | true =>
          refine (keeps_deleteIfPresent c₁ _ _ _).bind fun ⟨cqOk, c₂⟩ => ?_
          cases cqOk with
          | false => exact SameSetup.refl c₂
          | true => exact keeps_releasePair c₂ n

end Calls

end NewPerf.Tools
