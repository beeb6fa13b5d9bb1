import NewPerf.Lib.Ledger
import NewPerf.Tools.Handshake

/-!
# What the administrative code holds

BAR0 mapped into the process, the descriptor of the DMA device, and allocations made
through it: `Res` are the things that `nvme.c` has to give back, and an allocation cannot be
given back once its descriptor is closed.  The machine is the ledger of what is held.
Every result that a call or a load can have is possible, including any failure and any
answer of the controller; `mmap`, `open` and `alloc_dma` return what is not in use.

A run makes the calls of `nvme.h`, and `nvme_alloc` and `nvme_free` of `newperf.c`, in any
order on one `struct controller_data` and any number of `struct nvme_data`.
`holdings_of_run` says that nothing is ever touched that is not held, that nothing is given
back twice or too early, and that between calls exactly what the structures name is held.
Callers keep to three things (`prog`).  In particular a pair whose `create_io_queue_pair`
fails at a command still names its memory, and `controller_deinit` would close the descriptor
that this memory needs.
-/

namespace NewPerf.Tools.Resources

open NewPerf.Lib.Ledger
open NewPerf.Lib.Programs
open NewPerf.Lib.Runs

/-! ## What is held -/

inductive Res where
  /-- BAR0, mapped at an address. -/
  | bar0 (a : UInt64)
  /-- An open `genpci` node. -/
  | file (fd : Int)
  | region (mem : Mem)
  deriving DecidableEq, Repr

/-- `free_dma` needs the descriptor for its ioctl. -/
def Res.needs : Res → List Res
  | .region mem => [.file mem.fd]
  | .bar0 _ => []
  | .file _ => []

/-- What `alloc_dma` returns when it succeeds. -/
structure Allocated (held : Finset Res) (fd : Int) (size : UInt64) (mem : Mem) : Prop where
  real : ¬ mem.Null
  fd : mem.fd = fd
  size : (size.toNat : Int) ≤ mem.size.toInt
  fresh : .region mem ∉ held

instance decidableAllocated (held : Finset Res) (fd : Int) (size : UInt64) (mem : Mem) :
    Decidable (Allocated held fd size mem) :=
  decidable_of_iff (¬ mem.Null ∧ mem.fd = fd ∧ (size.toNat : Int) ≤ mem.size.toInt ∧
      .region mem ∉ held)
    ⟨fun h => ⟨h.1, h.2.1, h.2.2.1, h.2.2.2⟩, fun h => ⟨h.real, h.fd, h.size, h.fresh⟩⟩

/-- The answer of the environment has a result for every effect; the one that is asked for
is used.  Unmapping what is mapped does not fail. -/
def effect (held : Finset Res) (e : Effect) (answer : (e : Effect) → e.Result) :
    Option (e.Result × Finset Res) :=
  match e with
  | .bar0Map bus dev func =>
      let a := answer (.bar0Map bus dev func)
      if a = 0 then some (a, held)
      else if .bar0 a ∈ held then none
      else some (a, insert (.bar0 a) held)
  | .bar0Unmap a =>
      if .bar0 a ∈ held then some (true, lose held [.bar0 a])
      else some (answer (.bar0Unmap a), held)
  | .dmaOpen bus dev func =>
      let fd := answer (.dmaOpen bus dev func)
      if fd < 0 then some (fd, held)
      else if .file fd ∈ held then none
      else some (fd, insert (.file fd) held)
  | .dmaClose fd => some ((), lose held [.file fd])
  | .allocDma fd size =>
      let mem := answer (.allocDma fd size)
      if mem = {} then some (mem, held)
      else if Allocated held fd size mem then some (mem, insert (.region mem) held)
      else none
  | .releaseDma mem => some ((), lose held [.region mem])
  | e => some (answer e, held)

def ledger : Machine Effect Effect.Result ((e : Effect) → e.Result) Empty (Finset Res) where
  eff := effect
  env := fun _ b => b.elim

/-- The access is to something that is held, and what is given back is held and needed by
nothing else. -/
def Legit (held : Finset Res) : Effect → Prop
  | .bar0Map _ _ _ => True
  | .bar0Unmap a => MayLose Res.needs held [.bar0 a]
  | .dmaOpen _ _ _ => True
  | .dmaClose fd => MayLose Res.needs held [.file fd]
  | .regRead _ => ∃ a, .bar0 a ∈ held
  | .regWrite _ _ => ∃ a, .bar0 a ∈ held
  | .allocDma fd _ => .file fd ∈ held
  | .releaseDma mem => MayLose Res.needs held [.region mem]
  | .zeroDma mem => .region mem ∈ held
  | .writeSqe virt slot _ => ∃ mem, .region mem ∈ held ∧ mem.userVirtaddr = virt ∧
      64 * (slot.toNat + 1 : Int) ≤ mem.size.toInt
  | .readCqe virt slot => ∃ mem, .region mem ∈ held ∧ mem.userVirtaddr = virt ∧
      16 * (slot.toNat + 1 : Int) ≤ mem.size.toInt
  | .readData mem => .region mem ∈ held
  | .printErrno _ => True

/-- Everything held has what it needs, and every access is legitimate. -/
def Proper (next : Option Effect) (held : Finset Res) : Prop :=
  Sound Res.needs held ∧ ∀ e, next = some e → Legit held e

/-! ## Rules -/

/-- The code keeps to `Proper`, and leaves the ledger in `Q`. -/
abbrev Does {α : Type} (Q : α → Finset Res → Prop) (p : Admin α) (held : Finset Res) : Prop :=
  Safe ledger (fun _ _ => True) Proper Q p held

/-- Effects that hold on to what is held. -/
def Effect.Steady : Effect → Prop
  | .bar0Map _ _ _ => False
  | .bar0Unmap _ => False
  | .dmaOpen _ _ _ => False
  | .dmaClose _ => False
  | .allocDma _ _ => False
  | .releaseDma _ => False
  | _ => True

/-- The program only uses what is held. -/
abbrev Uses {α : Type} (held : Finset Res) (Q : α → Prop) (p : Admin α) : Prop :=
  p.Only (fun e => Effect.Steady e ∧ Legit held e) Q

abbrev Owns (base : Finset Res) (rs : List Res) : Prop := Own Res.needs base rs

section Rules

variable {α β : Type} {Q : α → Finset Res → Prop} {base held : Finset Res} {rs : List Res}

private theorem stable (P : Finset Res → Prop) : ledger.Stable P := fun _ b _ => b.elim

theorem Does.done {a : α} (hSound : Sound Res.needs held) (hQ : Q a held) :
    Does Q (.pure a) held :=
  Safe.pure (P := (· = held)) (stable _) rfl
    (by rintro _ rfl; exact ⟨hSound, fun e he => by cases he⟩) (by rintro _ rfl; exact hQ)

theorem Does.call {e : Effect} {k : e.Result → Admin α} (hSound : Sound Res.needs held)
    (hLegit : Legit held e)
    (hNext : ∀ answer r held', effect held e answer = some (r, held') → Does Q (k r) held') :
    Does Q (.op e k) held :=
  Safe.op (P := (· = held)) (stable _) rfl
    (by rintro _ rfl; exact ⟨hSound, fun e' he' => by cases he'; exact hLegit⟩)
    (by rintro _ a r held' rfl - hEff; exact hNext a r held' hEff)

theorem Does.bind {Q' : β → Finset Res → Prop} {p : Admin α} {k : α → Admin β}
    (h : Does Q p held) (hNext : ∀ a held', Q a held' → Does Q' (k a) held') :
    Does Q' (p >>= k) held :=
  Safe.bind h hNext

private theorem steady_effect {e : Effect} (h : Effect.Steady e)
    {answer : (e : Effect) → e.Result} {r : e.Result} {held' : Finset Res}
    (hEff : effect held e answer = some (r, held')) : held' = held := by
  cases e with
  | bar0Map bus dev func => exact h.elim
  | bar0Unmap a => exact h.elim
  | dmaOpen bus dev func => exact h.elim
  | dmaClose fd => exact h.elim
  | allocDma fd size => exact h.elim
  | releaseDma mem => exact h.elim
  | _ => exact (Prod.mk.inj (Option.some.inj hEff)).2.symm

/-- A program that only uses what is held. -/
theorem Does.uses {P : α → Prop} {k : α → Admin β} {p : Admin α} {Q : β → Finset Res → Prop}
    (hUses : Uses held P p) (hSound : Sound Res.needs held)
    (hNext : ∀ a, P a → Does Q (k a) held) : Does Q (p >>= k) held := by
  have hSafe : Does (fun a held' => held' = held ∧ P a) p held := by
    refine hUses.safe (P := (· = held)) (stable _) ?_ ?_ ?_ rfl
    · rintro _ rfl
      exact ⟨hSound, fun e he => by cases he⟩
    · rintro e _ he rfl
      exact ⟨hSound, fun e' he' => by cases he'; exact he.2⟩
    · rintro e _ answer r held' he rfl hEff
      exact steady_effect he.1 hEff
  refine hSafe.bind ?_
  rintro a _ ⟨rfl, ha⟩
  exact hNext a ha

theorem Does.bar0Map {bus dev func : UInt8} {k : UInt64 → Admin α} (hOwns : Owns base rs)
    (hFail : Does Q (k 0) (onTop base rs))
    (hOk : ∀ a, a ≠ 0 → Owns base (.bar0 a :: rs) → Does Q (k a) (onTop base (.bar0 a :: rs))) :
    Does Q (.op (.bar0Map bus dev func) k) (onTop base rs) := by
  refine Does.call hOwns.sound trivial fun answer a held' hEff => ?_
  simp only [effect] at hEff
  split at hEff
  · rename_i hZero
    obtain ⟨rfl, rfl⟩ := Prod.mk.inj (Option.some.inj hEff)
    rw [hZero]
    exact hFail
  split at hEff
  · cases hEff
  · rename_i hNe hFree
    obtain ⟨rfl, rfl⟩ := Prod.mk.inj (Option.some.inj hEff)
    rw [insert_onTop]
    exact hOk _ hNe (hOwns.gain ⟨hFree, by simp [Res.needs]⟩)

theorem Does.dmaOpen {bus dev func : Int} {k : Int → Admin α} (hOwns : Owns base rs)
    (hFail : ∀ fd : Int, fd < 0 → Does Q (k fd) (onTop base rs))
    (hOk : ∀ fd : Int, ¬ fd < 0 → Owns base (.file fd :: rs) →
      Does Q (k fd) (onTop base (.file fd :: rs))) :
    Does Q (.op (.dmaOpen bus dev func) k) (onTop base rs) := by
  refine Does.call hOwns.sound trivial fun answer fd held' hEff => ?_
  simp only [effect] at hEff
  split at hEff
  · rename_i hNeg
    obtain ⟨rfl, rfl⟩ := Prod.mk.inj (Option.some.inj hEff)
    exact hFail _ hNeg
  split at hEff
  · cases hEff
  · rename_i hNe hFree
    obtain ⟨rfl, rfl⟩ := Prod.mk.inj (Option.some.inj hEff)
    rw [insert_onTop]
    exact hOk _ hNe (hOwns.gain ⟨hFree, by simp [Res.needs]⟩)

theorem Does.allocDma {fd : Int} {size : UInt64} {k : Mem → Admin α} (hOwns : Owns base rs)
    (hFile : .file fd ∈ onTop base rs) (hFail : Does Q (k {}) (onTop base rs))
    (hOk : ∀ mem, Allocated (onTop base rs) fd size mem → Owns base (.region mem :: rs) →
      Does Q (k mem) (onTop base (.region mem :: rs))) :
    Does Q (.op (.allocDma fd size) k) (onTop base rs) := by
  refine Does.call hOwns.sound hFile fun answer mem held' hEff => ?_
  simp only [effect] at hEff
  split at hEff
  · rename_i hNone
    obtain ⟨rfl, rfl⟩ := Prod.mk.inj (Option.some.inj hEff)
    rw [hNone]
    exact hFail
  split at hEff
  · rename_i hAllocated
    obtain ⟨rfl, rfl⟩ := Prod.mk.inj (Option.some.inj hEff)
    rw [insert_onTop]
    refine hOk _ hAllocated (hOwns.gain ⟨hAllocated.fresh, fun q hq => ?_⟩)
    obtain rfl := List.mem_singleton.mp hq
    rw [hAllocated.fd]
    exact hFile
  · cases hEff

private theorem needs_region {mem : Mem} {q : Res} : .region mem ∉ q.needs := by
  cases q with
  | region other => simp [Res.needs]
  | _ => simp [Res.needs]

private theorem needs_bar0 {a : UInt64} {q : Res} : .bar0 a ∉ q.needs := by
  cases q with
  | region other => simp [Res.needs]
  | _ => simp [Res.needs]

theorem Does.releaseDma {top below : List Res} {mem : Mem} {k : Unit → Admin α}
    (hOwns : Owns base (top ++ .region mem :: below))
    (hNext : Owns base (top ++ below) → Does Q (k ()) (onTop base (top ++ below))) :
    Does Q (.op (.releaseDma mem) k) (onTop base (top ++ .region mem :: below)) := by
  have hFree : ∀ q ∈ top ++ below, .region mem ∉ q.needs := fun _ _ => needs_region
  refine Does.call hOwns.sound (hOwns.mayLose hFree needs_region) fun _ _ held' hEff => ?_
  obtain ⟨-, rfl⟩ := Prod.mk.inj (Option.some.inj hEff)
  rw [hOwns.lose_eq]
  exact hNext (hOwns.lose hFree needs_region)

theorem Does.bar0Unmap {top below : List Res} {a : UInt64} {k : Bool → Admin α}
    (hOwns : Owns base (top ++ .bar0 a :: below))
    (hNext : Owns base (top ++ below) → Does Q (k true) (onTop base (top ++ below))) :
    Does Q (.op (.bar0Unmap a) k) (onTop base (top ++ .bar0 a :: below)) := by
  have hFree : ∀ q ∈ top ++ below, .bar0 a ∉ q.needs := fun _ _ => needs_bar0
  have hHeld : .bar0 a ∈ onTop base (top ++ .bar0 a :: below) := by simp
  refine Does.call hOwns.sound (hOwns.mayLose hFree needs_bar0) fun _ _ held' hEff => ?_
  simp only [effect, if_pos hHeld] at hEff
  obtain ⟨rfl, rfl⟩ := Prod.mk.inj (Option.some.inj hEff)
  rw [hOwns.lose_eq]
  exact hNext (hOwns.lose hFree needs_bar0)

/-- The descriptor is closed when no allocation is left. -/
theorem Does.dmaClose {fd : Int} {k : Unit → Admin α} (hOwns : Owns base [.file fd])
    (hNext : Does Q (k ()) base) : Does Q (.op (.dmaClose fd) k) (onTop base [.file fd]) := by
  have hSelf : Res.file fd ∉ (Res.file fd).needs := by simp [Res.needs]
  have hOwns' : Owns base ([] ++ Res.file fd :: []) := hOwns
  have hMay := hOwns'.mayLose (fun q hq => absurd hq List.not_mem_nil) hSelf
  refine Does.call hOwns.sound hMay fun _ _ held' hEff => ?_
  obtain ⟨-, rfl⟩ := Prod.mk.inj (Option.some.inj hEff)
  have hLose : lose (onTop base [.file fd]) [.file fd] = base :=
    hOwns'.lose_eq.trans (by rw [List.append_nil, onTop_nil])
  rw [hLose]
  exact hNext

end Rules

/-! ## What the structures name -/

/-- The allocation a `struct mem` describes. -/
def memRes (mem : Mem) : List Res := if mem.Null then [] else [.region mem]

def fileRes (c : ControllerData) : List Res := if c.dmaFdOpened then [.file c.dmaFd] else []

def bar0Res (c : ControllerData) : List Res := if c.bar0Virt = 0 then [] else [.bar0 c.bar0Virt]

def controllerRes (c : ControllerData) : List Res :=
  memRes c.adminCqMem ++ (memRes c.adminSqMem ++ (fileRes c ++ bar0Res c))

def pairRes (n : NvmeData) : List Res :=
  memRes n.ioPrpListMem ++ (memRes n.ioSqMem ++ (memRes n.ioCqMem ++ memRes n.ioUDataMem))

@[simp] theorem memRes_empty : memRes {} = [] := if_pos Mem.null_empty

theorem memRes_null {mem : Mem} (h : mem.Null) : memRes mem = [] := if_pos h

theorem memRes_real {mem : Mem} (h : ¬ mem.Null) : memRes mem = [.region mem] := if_neg h

/-- `free_dma`; what is left of the `struct mem` names nothing. -/
theorem does_freeDma {α : Type} {Q : α → Finset Res → Prop} {base : Finset Res}
    {below : List Res} {k : Mem → Admin α} (top : List Res) (mem : Mem)
    (hOwns : Owns base (top ++ (memRes mem ++ below)))
    (hNext : ∀ mem', mem'.Null → Owns base (top ++ below) →
      Does Q (k mem') (onTop base (top ++ below))) :
    Does Q (freeDma mem >>= k) (onTop base (top ++ (memRes mem ++ below))) := by
  by_cases hNull : mem.Null
  · rw [memRes_null hNull, List.nil_append] at hOwns ⊢
    rw [freeDma_null hNull]
    exact hNext mem hNull hOwns
  · rw [memRes_real hNull, List.singleton_append] at hOwns ⊢
    rw [freeDma_real hNull]
    exact Does.releaseDma hOwns (hNext {} Mem.null_empty)

/-! ## Registers and messages -/

section Using

variable {held : Finset Res}

/-- BAR0 is mapped. -/
def Mapped (held : Finset Res) : Prop := ∃ a, Res.bar0 a ∈ held

theorem uses_printErrno (message : String) : Uses held (fun _ => True) (printErrno message) :=
  ⟨⟨trivial, trivial⟩, fun _ => trivial⟩

theorem uses_zeroDma (mem : Mem) (h : .region mem ∈ held) :
    Uses held (fun _ => True) (perform (Effect.zeroDma mem)) :=
  ⟨⟨trivial, h⟩, fun _ => trivial⟩

/-- The registers can be used while BAR0 is mapped. -/
theorem uses_register {α : Type} {Q : α → Prop} {p : Admin α} (h : Mapped held)
    (hOnly : p.Only Effect.IsRegister Q) : Uses held Q p := by
  refine hOnly.widen fun e he => ?_
  cases e with
  | regRead offset => exact ⟨trivial, h⟩
  | regWrite offset v => exact ⟨trivial, h⟩
  | printErrno message => exact ⟨trivial, trivial⟩
  | _ => exact he.elim

end Using

/-! ## Admin commands -/

/-- Everything that a controller needs is there. -/
structure Equipped (c : ControllerData) : Prop where
  bar0 : c.bar0Virt ≠ 0
  opened : c.dmaFdOpened = true
  sq : ¬ c.adminSqMem.Null
  cq : ¬ c.adminCqMem.Null
  sqSize : 64 * 32 ≤ c.adminSqMem.size.toInt
  cqSize : 16 * 32 ≤ c.adminCqMem.size.toInt

/-- The controller has been initialised, and the indices are inside the queues. -/
structure Ready (c : ControllerData) : Prop extends Equipped c where
  sqVirt : c.adminSqVirtAddr = c.adminSqMem.userVirtaddr
  cqVirt : c.adminCqVirtAddr = c.adminCqMem.userVirtaddr
  sqDepth : c.adminSqDepth = nvmeAdminQDepth
  cqDepth : c.adminCqDepth = nvmeAdminQDepth
  tail : c.adminSqTail.toNat < 32
  head : c.adminCqHead.toNat < 32

/-- The controller is initialised, and names `rs`, which is held. -/
structure Usable (held : Finset Res) (rs : List Res) (c : ControllerData) : Prop
    extends Ready c where
  named : controllerRes c = rs
  held : ∀ r ∈ rs, r ∈ held

section Commands

variable {held : Finset Res} {rs : List Res} {c : ControllerData}

theorem Equipped.controllerRes_eq (h : Equipped c) : controllerRes c =
    [.region c.adminCqMem, .region c.adminSqMem, .file c.dmaFd, .bar0 c.bar0Virt] := by
  rw [controllerRes, memRes_real h.cq, memRes_real h.sq, fileRes, if_pos h.opened, bar0Res,
    if_neg h.bar0]
  rfl

namespace Usable

theorem mem_held (h : Usable held rs c) {r : Res} (hMem : r ∈ controllerRes c) : r ∈ held :=
  h.held r (h.named ▸ hMem)

theorem sq_held (h : Usable held rs c) : .region c.adminSqMem ∈ held :=
  h.mem_held (by simp [h.controllerRes_eq])

theorem cq_held (h : Usable held rs c) : .region c.adminCqMem ∈ held :=
  h.mem_held (by simp [h.controllerRes_eq])

theorem file_held (h : Usable held rs c) : .file c.dmaFd ∈ held :=
  h.mem_held (by simp [h.controllerRes_eq])

theorem mapped (h : Usable held rs c) : Mapped held :=
  ⟨c.bar0Virt, h.mem_held (by simp [h.controllerRes_eq])⟩

theorem advanceAdminSq (h : Usable held rs c) : Usable held rs (advanceAdminSq c) :=
  { h with
    tail := by
      show (adminAdvance c.adminSqTail c.adminSqDepth).toNat < 32
      rw [h.sqDepth, toNat_adminAdvance h.tail]
      exact Nat.mod_lt _ (by decide) }

theorem advanceAdminCq (h : Usable held rs c) : Usable held rs (advanceAdminCq c) :=
  { h with
    head := by
      show (adminAdvance c.adminCqHead c.adminCqDepth).toNat < 32
      rw [h.cqDepth, toNat_adminAdvance h.head]
      exact Nat.mod_lt _ (by decide) }

theorem waited {c' : ControllerData} (h : Usable held rs c) (hWaited : Waited c c') :
    Usable held rs c' := by
  rcases hWaited with rfl | rfl
  · exact h
  · exact h.advanceAdminCq

/-- With something else held, as long as the controller's own is among it. -/
theorem within {held' : Finset Res} (h : Usable held rs c) (hOwn : ∀ r ∈ rs, r ∈ held') :
    Usable held' rs c :=
  { h with held := hOwn }

theorem above (h : Usable held rs c) (more : List Res) : Usable (onTop held more) rs c :=
  h.within fun r hr => mem_onTop.mpr (.inl (h.held r hr))

end Usable

private theorem steady_submits (h : Usable held rs c) {e : Effect} (he : e.Submits c) :
    Effect.Steady e ∧ Legit held e := by
  cases e with
  | writeSqe virt slot cmd =>
      obtain ⟨rfl, rfl⟩ := he
      refine ⟨trivial, c.adminSqMem, h.sq_held, h.sqVirt.symm, ?_⟩
      have hTail := h.tail
      have hSize := h.sqSize
      omega
  | regWrite offset v => exact ⟨trivial, h.mapped⟩
  | printErrno message => exact ⟨trivial, trivial⟩
  | _ => exact he.elim

private theorem steady_completes (h : Usable held rs c) {e : Effect} (he : e.Completes c) :
    Effect.Steady e ∧ Legit held e := by
  cases e with
  | readCqe virt slot =>
      obtain ⟨rfl, rfl⟩ := he
      refine ⟨trivial, c.adminCqMem, h.cq_held, h.cqVirt.symm, ?_⟩
      have hHead := h.head
      have hSize := h.cqSize
      omega
  | regWrite offset v => exact ⟨trivial, h.mapped⟩
  | printErrno message => exact ⟨trivial, trivial⟩
  | _ => exact he.elim

theorem uses_submitCommand (h : Usable held rs c) (cmd : AdminCommand) :
    Uses held (fun r => Usable held rs r.2) (submitCommand c cmd) := by
  refine ((only_submitCommand c cmd).widen fun _ he => steady_submits h he).mono fun r hr => ?_
  rw [hr]
  exact h.advanceAdminSq

theorem uses_waitAdminCompletion (h : Usable held rs c) (cmdId : UInt16) (timeoutMs : UInt32) :
    Uses held (fun r => Usable held rs r.2) (waitAdminCompletion c cmdId timeoutMs) :=
  ((only_waitAdminCompletion c cmdId timeoutMs).widen fun _ he => steady_completes h he).mono
    fun _ hr => h.waited hr

theorem uses_adminCommand (h : Usable held rs c) (opcode : UInt8) (prp1 : UInt64)
    (cdw10 cdw11 : UInt32) :
    Uses held (fun r => Usable held rs r.2) (adminCommand c opcode prp1 cdw10 cdw11) := by
  have hNext : Usable held rs { c with adminCmdId := c.adminCmdId + 1 } := { h with }
  have hSent : Usable held rs (commandSent c) := hNext.advanceAdminSq
  exact ((only_adminCommand c opcode prp1 cdw10 cdw11).widen fun _ he =>
    he.elim (steady_submits h) (steady_completes h)).mono fun _ hr => hSent.waited hr

end Commands

/-! ## Memory -/

/-- `c'` is `c`, whose descriptor has perhaps been opened. -/
structure Reopened (c c' : ControllerData) : Prop where
  same : c' = { c with dmaFd := c'.dmaFd, dmaFdOpened := c'.dmaFdOpened }
  kept : c.dmaFdOpened = true → c' = c

section Reopening

variable {c c' : ControllerData}

theorem Reopened.bar0 (h : Reopened c c') : c'.bar0Virt = c.bar0Virt := by rw [h.same]

theorem Reopened.cqMem (h : Reopened c c') : c'.adminCqMem = c.adminCqMem := by rw [h.same]

theorem Reopened.bar0Res (h : Reopened c c') : bar0Res c' = bar0Res c := by
  rw [Resources.bar0Res, h.bar0]
  rfl

end Reopening

section Memory

variable {α : Type} {Q : α → Finset Res → Prop} {base : Finset Res} {rs : List Res}
  {c : ControllerData} {size : UInt64}

theorem does_print {message : String} {k : Unit → Admin α} (hOwns : Owns base rs)
    (hNext : Does Q (k ()) (onTop base rs)) :
    Does Q (.op (.printErrno message) k) (onTop base rs) :=
  Does.uses (uses_printErrno message) hOwns.sound fun _ _ => hNext

/-- `nvme_alloc_dma_mem` once the descriptor is open. -/
theorem does_allocOpened {mem₀ : Mem} {k : Bool × ControllerData × Mem → Admin α}
    (hOwns : Owns base rs) (hOpened : c.dmaFdOpened = true) (hFile : .file c.dmaFd ∈ onTop base rs)
    (hFail : Does Q (k (false, c, {})) (onTop base rs))
    (hOk : ∀ mem, ¬ mem.Null → (size.toNat : Int) ≤ mem.size.toInt →
      Owns base (.region mem :: rs) → Does Q (k (true, c, mem)) (onTop base (.region mem :: rs))) :
    Does Q (nvmeAllocDmaMem c size mem₀ >>= k) (onTop base rs) := by
  unfold nvmeAllocDmaMem nvmeDmaOpenController
  rw [if_pos hOpened]
  refine Does.allocDma hOwns hFile ?_ fun mem hAllocated hOwns' => ?_
  · exact does_print hOwns hFail
  · show Does Q ((if mem.Null then _ else _) >>= k) _
    rw [if_neg hAllocated.real]
    exact hOk mem hAllocated.real hAllocated.size hOwns'

/-- `nvme_alloc_dma_mem`, which opens the descriptor if need be. -/
theorem does_nvmeAllocDmaMem {mem₀ : Mem} {k : Bool × ControllerData × Mem → Admin α}
    (hOwns : Owns base (fileRes c ++ rs)) (hNull : mem₀.Null)
    (hFail : ∀ c' mem, Reopened c c' → mem.Null → Owns base (fileRes c' ++ rs) →
      Does Q (k (false, c', mem)) (onTop base (fileRes c' ++ rs)))
    (hOk : ∀ c' mem, Reopened c c' → c'.dmaFdOpened = true → ¬ mem.Null →
      (size.toNat : Int) ≤ mem.size.toInt → Owns base (.region mem :: (fileRes c' ++ rs)) →
      Does Q (k (true, c', mem)) (onTop base (.region mem :: (fileRes c' ++ rs)))) :
    Does Q (nvmeAllocDmaMem c size mem₀ >>= k) (onTop base (fileRes c ++ rs)) := by
  have hAlloc : ∀ c', Reopened c c' → c'.dmaFdOpened = true → Owns base (fileRes c' ++ rs) →
      Does Q (nvmeAllocDmaMem c' size mem₀ >>= k) (onTop base (fileRes c' ++ rs)) := by
    intro c' hReopened hOpened hOwns'
    refine does_allocOpened hOwns' hOpened ?_ ?_ fun mem => ?_
    · exact mem_onTop.mpr (.inr (by simp [fileRes, hOpened]))
    · exact hFail c' {} hReopened Mem.null_empty hOwns'
    · exact hOk c' mem hReopened hOpened
  have hRefl : Reopened c c := ⟨rfl, fun _ => rfl⟩
  by_cases hOpened : c.dmaFdOpened = true
  · exact hAlloc c hRefl hOpened hOwns
  · have hNone : fileRes c = [] := if_neg hOpened
    rw [hNone, List.nil_append] at hOwns ⊢
    unfold nvmeAllocDmaMem nvmeDmaOpenController
    rw [if_neg hOpened]
    refine Does.dmaOpen hOwns (fun fd hNeg => ?_) fun fd hOpen hOwns' => ?_
    · show Does Q (((if fd < 0 then _ else _) >>= _) >>= k) _
      rw [if_pos hNeg]
      have hLeft := hFail c mem₀ hRefl hNull
      rw [hNone] at hLeft
      exact does_print hOwns (hLeft hOwns)
    · show Does Q (((if fd < 0 then _ else _) >>= _) >>= k) _
      rw [if_neg hOpen]
      exact hAlloc { c with dmaFd := fd, dmaFdOpened := true }
        ⟨rfl, fun h => absurd h hOpened⟩ rfl hOwns'

/-- Nothing is left of the memory of a controller. -/
structure Bare (c : ControllerData) : Prop where
  sq : c.adminSqMem.Null
  cq : c.adminCqMem.Null
  closed : c.dmaFdOpened = false

theorem Bare.controllerRes_eq (h : Bare c) : controllerRes c = bar0Res c := by
  rw [controllerRes, memRes_null h.cq, memRes_null h.sq, fileRes, h.closed]
  rfl

theorem bare_of_none (h : controllerRes c = []) : Bare c := by
  simp only [controllerRes, List.append_eq_nil_iff, memRes, fileRes, ite_eq_left_iff,
    ite_eq_right_iff, List.cons_ne_nil, imp_false, not_not] at h
  exact ⟨h.2.1, h.1, Bool.eq_false_iff.mpr h.2.2.1⟩

theorem does_nvmeCloseDma (hOwns : Owns base (fileRes c)) (hSq : c.adminSqMem.Null)
    (hCq : c.adminCqMem.Null) :
    Does (fun c' held' => (Bare c' ∧ c'.bar0Virt = c.bar0Virt) ∧ held' = base) (nvmeCloseDma c)
      (onTop base (fileRes c)) := by
  unfold nvmeCloseDma
  by_cases hOpened : c.dmaFdOpened = true
  · have hFile : fileRes c = [.file c.dmaFd] := if_pos hOpened
    rw [hFile] at hOwns ⊢
    rw [if_pos hOpened]
    exact Does.dmaClose hOwns (Does.done hOwns.ground ⟨⟨⟨hSq, hCq, rfl⟩, rfl⟩, rfl⟩)
  · have hFile : fileRes c = [] := if_neg hOpened
    rw [hFile, onTop_nil, if_neg hOpened]
    exact Does.done hOwns.ground ⟨⟨⟨hSq, hCq, Bool.eq_false_iff.mpr hOpened⟩, rfl⟩, rfl⟩

theorem does_nvmeReleaseControllerDma
    (hOwns : Owns base (memRes c.adminCqMem ++ (memRes c.adminSqMem ++ fileRes c))) :
    Does (fun c' held' => (Bare c' ∧ c'.bar0Virt = c.bar0Virt) ∧ held' = base)
      (nvmeReleaseControllerDma c)
      (onTop base (memRes c.adminCqMem ++ (memRes c.adminSqMem ++ fileRes c))) := by
  refine does_freeDma _ _ hOwns fun sqMem hSq hOwns => ?_
  refine does_freeDma [] _ hOwns fun cqMem hCq hOwns => ?_
  exact does_nvmeCloseDma (c := { c with adminSqMem := sqMem, adminCqMem := cqMem }) hOwns hSq hCq

/-- BAR0 is unmapped before the memory is released. -/
theorem does_nvmeUnmapControllerBar0 {k : ControllerData → Admin α} (top : List Res)
    (hOwns : Owns base (top ++ bar0Res c))
    (hNext : Owns base top → Does Q (k { c with bar0Virt := 0 }) (onTop base top)) :
    Does Q (nvmeUnmapControllerBar0 c >>= k) (onTop base (top ++ bar0Res c)) := by
  unfold nvmeUnmapControllerBar0
  by_cases hBar0 : c.bar0Virt = 0
  · have hNone : bar0Res c = [] := if_pos hBar0
    have hSame : { c with bar0Virt := 0 } = c := by rw [← hBar0]
    rw [hNone, List.append_nil] at hOwns ⊢
    rw [if_neg (not_not.mpr hBar0), ← hSame]
    exact hNext hOwns
  · have hOne : bar0Res c = [.bar0 c.bar0Virt] := if_neg hBar0
    rw [hOne] at hOwns ⊢
    rw [if_pos hBar0]
    unfold controllerBar0Unmap
    rw [if_neg hBar0]
    refine Does.bar0Unmap hOwns fun hOwns => ?_
    rw [List.append_nil] at hOwns ⊢
    exact hNext hOwns

end Memory

/-! ## `controller_init` and `controller_deinit` -/

/-- Beyond `base` exactly what `c` names is held, which is everything that an initialised
controller needs, or nothing. -/
structure Accounted (base : Finset Res) (c : ControllerData) (held : Finset Res) : Prop where
  owns : Owns base (controllerRes c)
  held : held = onTop base (controllerRes c)
  ready : c.bar0Virt ≠ 0 → Ready c
  down : c.bar0Virt = 0 → controllerRes c = []

section Controller

variable {base held : Finset Res} {c : ControllerData} {cap : UInt64}

private theorem mapped_onTop (base : Finset Res) (h : c.bar0Virt ≠ 0) :
    Mapped (onTop base (controllerRes c)) :=
  ⟨c.bar0Virt, mem_onTop.mpr (.inr (by simp [controllerRes, bar0Res, h]))⟩

private theorem accounted_bare (h : Sound Res.needs base) (hBare : Bare c)
    (hBar0 : c.bar0Virt = 0) : Accounted base c base := by
  have hNone : controllerRes c = [] := hBare.controllerRes_eq.trans (if_pos hBar0)
  exact
    { owns := by rw [hNone]; exact .nil h
      held := by rw [hNone, onTop_nil]
      ready := fun hne => absurd hBar0 hne
      down := fun _ => hNone }

/-! ### The exits of `controller_init` -/

theorem does_failReleased (hOwns : Owns base (controllerRes c)) :
    Does (fun r => Accounted base r.2) (failReleased c) (onTop base (controllerRes c)) := by
  have hSplit : controllerRes c =
      (memRes c.adminCqMem ++ (memRes c.adminSqMem ++ fileRes c)) ++ bar0Res c := by
    simp only [controllerRes, List.append_assoc]
  rw [hSplit] at hOwns ⊢
  refine does_nvmeUnmapControllerBar0 _ hOwns fun hOwns => ?_
  refine (does_nvmeReleaseControllerDma (c := { c with bar0Virt := 0 }) hOwns).bind ?_
  rintro c' _ ⟨⟨hBare, hBar0⟩, rfl⟩
  exact Does.done hOwns.ground (accounted_bare hOwns.ground hBare hBar0)

theorem does_failUnmapped (hBare : Bare c) (hOwns : Owns base (bar0Res c)) :
    Does (fun r => Accounted base r.2) (failUnmapped c) (onTop base (bar0Res c)) := by
  refine does_nvmeUnmapControllerBar0 [] hOwns fun hOwns => ?_
  rw [onTop_nil]
  exact Does.done hOwns.ground
    (accounted_bare hOwns.ground ⟨hBare.sq, hBare.cq, hBare.closed⟩ rfl)

/-! ### `controller_init` -/

private theorem equipped_adminReady (h : Equipped c) (cap : UInt64) : Ready (adminReady c cap) :=
  { h with
    sqVirt := rfl
    cqVirt := rfl
    sqDepth := rfl
    cqDepth := rfl
    tail := (by decide : (0 : Nat) < 32)
    head := (by decide : (0 : Nat) < 32) }

/-- A step of `controller_init` that gives everything back if it fails. -/
private theorem does_orFail {P : Bool → Prop} {p : Admin Bool}
    {k : Bool → Admin (Bool × ControllerData)} (hOwns : Owns base (controllerRes c))
    (hUses : Uses (onTop base (controllerRes c)) P p) (hFail : k false = failReleased c)
    (hNext : Does (fun r => Accounted base r.2) (k true) (onTop base (controllerRes c))) :
    Does (fun r => Accounted base r.2) (p >>= k) (onTop base (controllerRes c)) := by
  refine Does.uses hUses hOwns.sound fun succeeded _ => ?_
  cases succeeded with
  | false =>
      rw [hFail]
      exact does_failReleased hOwns
  | true => exact hNext

theorem does_enableController (h : Equipped c) (hOwns : Owns base (controllerRes c)) :
    Does (fun r => Accounted base r.2) (enableController c cap)
      (onTop base (controllerRes c)) := by
  have hMapped := mapped_onTop base h.bar0
  unfold enableController
  refine does_orFail hOwns (uses_register hMapped (only_store _ _ _)) rfl ?_
  refine does_orFail hOwns (uses_register hMapped (only_regWrite64 _ _ _)) rfl ?_
  refine does_orFail hOwns (uses_register hMapped (only_regWrite64 _ _ _)) rfl ?_
  refine does_orFail hOwns (uses_register hMapped (only_store _ _ _)) rfl ?_
  refine does_orFail hOwns (uses_register hMapped (only_load (only_waitReady _ _ _))) rfl ?_
  exact Does.done hOwns.sound
    { owns := hOwns
      held := rfl
      ready := fun _ => equipped_adminReady h cap
      down := fun hZero => absurd hZero h.bar0 }

theorem does_restartController (h : Equipped c) (hOwns : Owns base (controllerRes c)) :
    Does (fun r => Accounted base r.2) (restartController c cap)
      (onTop base (controllerRes c)) := by
  have hMapped := mapped_onTop base h.bar0
  have hFail := does_failReleased hOwns
  unfold restartController
  refine Does.uses (uses_register hMapped (only_load (only_regRead32 _ _))) hOwns.sound
    fun read _ => ?_
  cases read with
  | none => exact hFail
  | some cc =>
      dsimp only
      split
      · exact does_print hOwns hFail
      split
      · refine does_orFail hOwns (uses_register hMapped (only_store _ _ _)) rfl ?_
        refine does_orFail hOwns (uses_register hMapped (only_load (only_waitReady _ _ _))) rfl ?_
        exact does_enableController h hOwns
      · exact does_enableController h hOwns

theorem does_setupController (hBare : Bare c) (hBar0 : c.bar0Virt ≠ 0)
    (hOwns : Owns base (bar0Res c)) :
    Does (fun r => Accounted base r.2) (setupController c cap) (onTop base (bar0Res c)) := by
  have hStart : fileRes c ++ bar0Res c = bar0Res c := by
    rw [fileRes, hBare.closed]
    rfl
  unfold setupController
  rw [← hStart] at hOwns ⊢
  refine does_nvmeAllocDmaMem hOwns hBare.sq (fun c₁ sqMem hReopened hNull hOwns => ?_)
    fun c₁ sqMem hReopened hOpened hSq hSqSize hOwns => ?_
  · have hNames : controllerRes { c₁ with adminSqMem := sqMem } = fileRes c₁ ++ bar0Res c := by
      show memRes c₁.adminCqMem ++ (memRes sqMem ++ (fileRes c₁ ++ bar0Res c₁)) = _
      rw [hReopened.cqMem, memRes_null hBare.cq, memRes_null hNull, hReopened.bar0Res]
      rfl
    rw [← hNames] at hOwns ⊢
    exact does_failReleased hOwns
  have hNames : controllerRes { c₁ with adminSqMem := sqMem } =
      .region sqMem :: (fileRes c₁ ++ bar0Res c) := by
    show memRes c₁.adminCqMem ++ (memRes sqMem ++ (fileRes c₁ ++ bar0Res c₁)) = _
    rw [hReopened.cqMem, memRes_null hBare.cq, memRes_real hSq, hReopened.bar0Res]
    rfl
  have hFile : .file c₁.dmaFd ∈ onTop base (.region sqMem :: (fileRes c₁ ++ bar0Res c)) :=
    mem_onTop.mpr (.inr (by simp [fileRes, hOpened]))
  refine does_allocOpened (c := { c₁ with adminSqMem := sqMem }) hOwns hOpened hFile ?_
    fun cqMem hCq hCqSize hOwns => ?_
  · have hNone : controllerRes { c₁ with adminSqMem := sqMem, adminCqMem := {} } =
        .region sqMem :: (fileRes c₁ ++ bar0Res c) := by
      rw [← hNames]
      show memRes {} ++ _ = memRes c₁.adminCqMem ++ _
      rw [memRes_empty, hReopened.cqMem, memRes_null hBare.cq]
      rfl
    rw [← hNone] at hOwns ⊢
    exact does_failReleased hOwns
  have hAll : controllerRes { c₁ with adminSqMem := sqMem, adminCqMem := cqMem } =
      .region cqMem :: .region sqMem :: (fileRes c₁ ++ bar0Res c) := by
    show memRes cqMem ++ (memRes sqMem ++ (fileRes c₁ ++ bar0Res c₁)) = _
    rw [memRes_real hCq, memRes_real hSq, hReopened.bar0Res]
    rfl
  have hEquipped : Equipped { c₁ with adminSqMem := sqMem, adminCqMem := cqMem } :=
    { bar0 := by rw [hReopened.bar0]; exact hBar0
      opened := hOpened
      sq := hSq
      cq := hCq
      sqSize := le_trans (by decide) hSqSize
      cqSize := le_trans (by decide) hCqSize }
  rw [← hAll] at hOwns ⊢
  refine Does.uses (uses_zeroDma sqMem ?_) hOwns.sound fun _ _ => ?_
  · exact mem_onTop.mpr (.inr (by rw [hAll]; simp))
  refine Does.uses (uses_zeroDma cqMem ?_) hOwns.sound fun _ _ => ?_
  · exact mem_onTop.mpr (.inr (by rw [hAll]; simp))
  exact does_restartController hEquipped hOwns

theorem does_initMapped (hBare : Bare c) (hBar0 : c.bar0Virt ≠ 0)
    (hOwns : Owns base (bar0Res c)) :
    Does (fun r => Accounted base r.2) (initMapped c) (onTop base (bar0Res c)) := by
  have hMapped : Mapped (onTop base (bar0Res c)) :=
    ⟨c.bar0Virt, mem_onTop.mpr (.inr (by simp [bar0Res, hBar0]))⟩
  have hFail := does_failUnmapped hBare hOwns
  unfold initMapped
  refine Does.uses (uses_register hMapped (only_load (only_regRead64 _ _))) hOwns.sound
    fun read _ => ?_
  cases read with
  | none => exact hFail
  | some cap =>
      dsimp only
      split
      · exact does_print hOwns hFail
      split
      · exact does_print hOwns hFail
      split
      · exact does_print hOwns hFail
      · exact does_setupController hBare hBar0 hOwns

theorem does_controllerInit (hSound : Sound Res.needs base) (hBare : Bare c)
    (hBar0 : c.bar0Virt = 0) :
    Does (fun r => Accounted base r.2) (controllerInit c) base := by
  suffices h : Does (fun r => Accounted base r.2) (controllerInit c) (onTop base []) by
    rwa [onTop_nil] at h
  unfold controllerInit
  rw [if_pos hBar0]
  refine Does.bar0Map (.nil hSound) ?_ fun bar0 hMap hOwns => ?_
  · rw [onTop_nil]
    exact Does.done hSound (accounted_bare hSound hBare hBar0)
  · show Does _ (if bar0 = 0 then _ else _) _
    rw [if_neg hMap]
    have hOne : bar0Res { c with bar0Virt := bar0 } = [.bar0 bar0] := if_neg hMap
    rw [← hOne] at hOwns ⊢
    exact does_initMapped ⟨hBare.sq, hBare.cq, hBare.closed⟩ hMap hOwns

/-! ### `controller_deinit` -/

private theorem does_releaseController (hBar0 : c.bar0Virt = 0)
    (hOwns : Owns base (memRes c.adminCqMem ++ (memRes c.adminSqMem ++ fileRes c))) :
    Does (fun c' held' => Accounted base c' held' ∧ c'.bar0Virt = 0) (releaseController c)
      (onTop base (memRes c.adminCqMem ++ (memRes c.adminSqMem ++ fileRes c))) := by
  refine (does_nvmeReleaseControllerDma hOwns).bind ?_
  rintro c' _ ⟨⟨hBare, hSame⟩, rfl⟩
  have hZero : c'.bar0Virt = 0 := hSame.trans hBar0
  exact Does.done hOwns.ground ⟨accounted_bare (c := adminCleared c') hOwns.ground
    ⟨hBare.sq, hBare.cq, hBare.closed⟩ hZero, hZero⟩

theorem does_controllerDeinit (hOwns : Owns base (controllerRes c)) :
    Does (fun c' held' => Accounted base c' held' ∧ c'.bar0Virt = 0) (controllerDeinit c)
      (onTop base (controllerRes c)) := by
  have hSplit : controllerRes c =
      (memRes c.adminCqMem ++ (memRes c.adminSqMem ++ fileRes c)) ++ bar0Res c := by
    simp only [controllerRes, List.append_assoc]
  unfold controllerDeinit
  by_cases hBar0 : c.bar0Virt = 0
  · have hNone : bar0Res c = [] := if_pos hBar0
    rw [hSplit, hNone, List.append_nil] at hOwns ⊢
    rw [if_neg (not_not.mpr hBar0)]
    exact does_releaseController hBar0 hOwns
  · rw [if_pos hBar0]
    refine Does.uses (uses_register (mapped_onTop base hBar0) (only_stopController _)) hOwns.sound
      fun _ _ => ?_
    have hOne : bar0Res c = [.bar0 c.bar0Virt] := if_neg hBar0
    rw [hSplit, hOne] at hOwns ⊢
    unfold controllerBar0Unmap
    rw [if_neg hBar0]
    refine Does.bar0Unmap hOwns fun hOwns => ?_
    rw [List.append_nil] at hOwns ⊢
    exact does_releaseController (c := { c with bar0Virt := 0 }) rfl hOwns

end Controller

/-! ## `nvme_get_file_size` -/

section FileSize

variable {base : Finset Res} {rs : List Res} {c : ControllerData}

private theorem does_dropIdentify {identify : Mem} {r : UInt64 × ControllerData}
    (h : Usable base rs r.2) (hOwns : Owns base (memRes identify)) :
    Does (fun r held' => held' = base ∧ Usable base rs r.2)
      (freeDma identify >>= fun _ => pure r) (onTop base (memRes identify)) := by
  rw [← List.append_nil (memRes identify)] at hOwns ⊢
  refine does_freeDma [] _ hOwns fun _ _ _ => ?_
  rw [List.append_nil, onTop_nil]
  exact Does.done hOwns.ground ⟨rfl, h⟩

private theorem does_readFileSize {identify : Mem} (h : Usable base rs c) (hReal : ¬ identify.Null)
    (hOwns : Owns base (memRes identify)) :
    Does (fun r held' => held' = base ∧ Usable base rs r.2) (readFileSize c identify)
      (onTop base (memRes identify)) := by
  have hRead : Uses (onTop base (memRes identify)) (fun _ => True)
      (perform (Effect.readData identify)) :=
    ⟨⟨trivial, mem_onTop.mpr (.inr (by simp [memRes_real hReal]))⟩, fun _ => trivial⟩
  refine Does.uses hRead hOwns.sound fun data _ => ?_
  split
  · exact does_dropIdentify { h with } hOwns
  · exact does_print hOwns (does_dropIdentify h hOwns)

private theorem does_identifyFileSize {identify : Mem} (h : Usable base rs c)
    (hReal : ¬ identify.Null) (hOwns : Owns base (memRes identify)) :
    Does (fun r held' => held' = base ∧ Usable base rs r.2) (identifyFileSize c identify)
      (onTop base (memRes identify)) := by
  have hNext : Usable base rs { c with adminCmdId := c.adminCmdId + 1 } := { h with }
  refine Does.uses (uses_zeroDma identify ?_) hOwns.sound fun _ _ => ?_
  · exact mem_onTop.mpr (.inr (by simp [memRes_real hReal]))
  refine Does.uses (uses_submitCommand (hNext.above _) _) hOwns.sound
    fun ⟨submitted, c₁⟩ hSent => ?_
  have h₁ : Usable base rs c₁ := Usable.within hSent h.held
  cases submitted with
  | false => exact does_dropIdentify (r := (0, c₁)) h₁ hOwns
  | true =>
      simp only [Bool.not_true, Bool.false_eq_true, if_false]
      refine Does.uses (uses_waitAdminCompletion (h₁.above _) _ _) hOwns.sound
        fun ⟨completed, c₂⟩ hWaited => ?_
      have h₂ : Usable base rs c₂ := Usable.within hWaited h.held
      cases completed with
      | false => exact does_dropIdentify (r := (0, c₂)) h₂ hOwns
      | true => exact does_readFileSize h₂ hReal hOwns

theorem does_nvmeGetFileSize (hSound : Sound Res.needs base) (h : Usable base rs c) :
    Does (fun r held' => held' = base ∧ Usable base rs r.2) (nvmeGetFileSize c) base := by
  suffices hDoes : Does (fun r held' => held' = base ∧ Usable base rs r.2) (nvmeGetFileSize c)
      (onTop base []) by
    rwa [onTop_nil] at hDoes
  have hOwns : Owns base [] := .nil hSound
  have hDone : Does (fun r held' => held' = base ∧ Usable base rs r.2)
      (pure ((0 : UInt64), c)) (onTop base []) := by
    rw [onTop_nil]
    exact Does.done hSound ⟨rfl, h⟩
  unfold nvmeGetFileSize
  split
  · exact does_print hOwns hDone
  split
  · exact does_print hOwns hDone
  refine Does.uses (uses_register (h.above _).mapped (only_load (only_regRead64 _ _))) hOwns.sound
    fun read _ => ?_
  cases read with
  | none => exact hDone
  | some cap =>
      dsimp only
      split
      · exact does_print hOwns hDone
      refine does_allocOpened hOwns h.opened (h.above _).file_held hDone
        fun identify hReal _ hOwns => ?_
      rw [← memRes_real hReal] at hOwns ⊢
      exact does_identifyFileSize h hReal hOwns

end FileSize

/-! ## `create_io_queue_pair` and `delete_io_queue_pair` -/

/-- The pair names no queue. -/
structure QueueFree (n : NvmeData) : Prop where
  cq : n.ioCqMem.Null
  sq : n.ioSqMem.Null
  prp : n.ioPrpListMem.Null

/-- Beyond `base`, which has what the controller names, exactly what the pair names is
held. -/
structure PairAccounted (base : Finset Res) (rs : List Res)
    (r : Bool × ControllerData × NvmeData) (held : Finset Res) : Prop where
  owns : Owns base (pairRes r.2.2)
  held : held = onTop base (pairRes r.2.2)
  usable : Usable base rs r.2.1

section Pairs

variable {base : Finset Res} {rs : List Res} {c : ControllerData} {n : NvmeData} {cap : UInt64}
  {ioSqDepth ioCqDepth : UInt32}

private theorem does_return {ok : Bool} (h : Usable base rs c) (hOwns : Owns base (pairRes n)) :
    Does (PairAccounted base rs) (pure (ok, c, n)) (onTop base (pairRes n)) :=
  Does.done hOwns.sound ⟨hOwns, rfl, h⟩

private theorem does_refuse {message : String} (h : Usable base rs c)
    (hOwns : Owns base (pairRes n)) :
    Does (PairAccounted base rs) (printErrno message >>= fun _ => pure (false, c, n))
      (onTop base (pairRes n)) :=
  does_print hOwns (does_return h hOwns)

theorem does_createQueues (h : Usable base rs c) (hOwns : Owns base (pairRes n)) :
    Does (PairAccounted base rs) (createQueues c n cap ioSqDepth ioCqDepth)
      (onTop base (pairRes n)) := by
  refine Does.uses (uses_adminCommand (h.above _) _ _ _ _) hOwns.sound fun ⟨cqOk, c₁⟩ hCq => ?_
  have h₁ : Usable base rs c₁ := Usable.within hCq h.held
  cases cqOk with
  | false => exact does_return h₁ hOwns
  | true =>
      simp only [Bool.not_true, Bool.false_eq_true, if_false]
      refine Does.uses (uses_adminCommand (h₁.above _) _ _ _ _) hOwns.sound
        fun ⟨sqOk, c₂⟩ hSq => ?_
      have h₂ : Usable base rs c₂ := Usable.within hSq h.held
      cases sqOk with
      | false => exact does_return h₂ hOwns
      | true => exact does_return (n := pairReady n cap ioSqDepth ioCqDepth) h₂ hOwns

private theorem does_end {ok : Bool} {names : List Res} (h : Usable base rs c)
    (hNames : pairRes n = names) (hOwns : Owns base names) :
    Does (PairAccounted base rs) (pure (ok, c, n)) (onTop base names) := by
  rw [← hNames] at hOwns ⊢
  exact does_return h hOwns

/-- The three allocations of `create_io_queue_pair`; if one fails, those before it are
released. -/
theorem does_allocQueues (hFree : QueueFree n) (h : Usable base rs c)
    (hOwns : Owns base (pairRes n)) :
    Does (PairAccounted base rs) (allocQueues c n cap ioSqDepth ioCqDepth)
      (onTop base (pairRes n)) := by
  have hNames : ∀ n' : NvmeData, pairRes n' = memRes n'.ioPrpListMem ++
      (memRes n'.ioSqMem ++ (memRes n'.ioCqMem ++ memRes n'.ioUDataMem)) := fun _ => rfl
  have hFile : ∀ names, .file c.dmaFd ∈ onTop base names := fun _ => (h.above _).file_held
  rw [hNames, memRes_null hFree.prp, memRes_null hFree.sq, memRes_null hFree.cq] at hOwns ⊢
  simp only [List.nil_append] at hOwns ⊢
  unfold allocQueues
  refine does_allocOpened hOwns h.opened (hFile _) ?_ fun cqMem hCq _ hOwns => ?_
  · refine does_end h ?_ hOwns
    rw [hNames, memRes_null hFree.prp, memRes_null hFree.sq, memRes_empty]
    rfl
  rw [← List.singleton_append, ← memRes_real hCq] at hOwns ⊢
  refine does_allocOpened hOwns h.opened (hFile _) ?_ fun sqMem hSq _ hOwns => ?_
  · refine does_freeDma [] _ hOwns fun cqMem' hCq' hOwns => ?_
    refine does_end h ?_ hOwns
    rw [hNames, memRes_null hFree.prp, memRes_empty, memRes_null hCq']
    rfl
  rw [← List.singleton_append, ← memRes_real hSq] at hOwns ⊢
  refine does_allocOpened hOwns h.opened (hFile _) ?_ fun prpMem hPrp _ hOwns => ?_
  · refine does_freeDma [] _ hOwns fun sqMem' hSq' hOwns => ?_
    refine does_freeDma [] _ hOwns fun cqMem' hCq' hOwns => ?_
    refine does_end h ?_ hOwns
    rw [hNames, memRes_empty, memRes_null hSq', memRes_null hCq']
    rfl
  rw [← List.singleton_append, ← memRes_real hPrp] at hOwns ⊢
  refine Does.uses (uses_zeroDma cqMem ?_) hOwns.sound fun _ _ => ?_
  · exact mem_onTop.mpr (.inr (by simp [memRes_real hCq]))
  refine Does.uses (uses_zeroDma sqMem ?_) hOwns.sound fun _ _ => ?_
  · exact mem_onTop.mpr (.inr (by simp [memRes_real hSq]))
  refine Does.uses (uses_zeroDma prpMem ?_) hOwns.sound fun _ _ => ?_
  · exact mem_onTop.mpr (.inr (by simp [memRes_real hPrp]))
  exact does_createQueues h hOwns

theorem does_createIoQueuePair (hFree : QueueFree n) (h : Usable base rs c)
    (hOwns : Owns base (pairRes n)) :
    Does (PairAccounted base rs) (createIoQueuePair c n) (onTop base (pairRes n)) := by
  unfold createIoQueuePair
  split
  · exact does_refuse h hOwns
  split
  · exact does_refuse h hOwns
  split
  · exact does_refuse h hOwns
  split
  · exact does_refuse h hOwns
  refine Does.uses (uses_register (h.above _).mapped (only_load (only_regRead64 _ _))) hOwns.sound
    fun read _ => ?_
  cases read with
  | none => exact does_return h hOwns
  | some cap =>
      dsimp only
      split
      · exact does_refuse h hOwns
      split
      · exact does_refuse h hOwns
      split
      · exact does_refuse h hOwns
      · exact does_allocQueues hFree h hOwns

private theorem does_releasePair (h : Usable base rs c) (hOwns : Owns base (pairRes n)) :
    Does (PairAccounted base rs) (releasePair c n) (onTop base (pairRes n)) := by
  refine does_freeDma _ n.ioSqMem hOwns fun sqMem hSq hOwns => ?_
  refine does_freeDma _ n.ioCqMem hOwns fun cqMem hCq hOwns => ?_
  refine does_freeDma [] n.ioPrpListMem hOwns fun prpMem hPrp hOwns => ?_
  rw [List.nil_append, ← List.append_nil (memRes _)] at hOwns ⊢
  refine does_freeDma [] n.ioUDataMem hOwns fun dataMem hData hOwns => ?_
  have hNone : ∀ n' : NvmeData, n'.ioPrpListMem.Null → n'.ioSqMem.Null → n'.ioCqMem.Null →
      n'.ioUDataMem.Null → pairRes n' = [] := by
    intro n' hPrp hSq hCq hData
    rw [pairRes, memRes_null hPrp, memRes_null hSq, memRes_null hCq, memRes_null hData]
    rfl
  refine Does.done hOwns.sound ⟨?_, ?_, h⟩
  · rw [hNone _ hPrp hSq hCq hData]
    exact hOwns
  · rw [hNone _ hPrp hSq hCq hData]
    rfl

theorem does_deleteIoQueuePair (h : Usable base rs c) (hOwns : Owns base (pairRes n)) :
    Does (PairAccounted base rs) (deleteIoQueuePair c n) (onTop base (pairRes n)) := by
  have hDelete : ∀ {c : ControllerData} {virt : UInt64} {opcode : UInt8} {qid : UInt16},
      Usable base rs c → Uses (onTop base (pairRes n)) (fun r => Usable base rs r.2)
        (deleteIfPresent c virt opcode qid) := by
    intro c virt opcode qid h
    unfold deleteIfPresent
    split
    · exact (uses_adminCommand (h.above _) _ _ _ _).mono fun r hr => hr.within h.held
    · exact h
  unfold deleteIoQueuePair
  split
  · exact does_refuse h hOwns
  split
  · exact does_refuse h hOwns
  split
  · exact does_refuse h hOwns
  split
  · exact does_return h hOwns
  refine Does.uses (uses_register (h.above _).mapped (only_load (only_regRead64 _ _))) hOwns.sound
    fun read _ => ?_
  cases read with
  | none => exact does_return h hOwns
  | some cap =>
      dsimp only
      split
      · exact does_refuse h hOwns
      refine Does.uses (hDelete h) hOwns.sound fun ⟨sqOk, c₁⟩ h₁ => ?_
      cases sqOk with
      | false => exact does_return h₁ hOwns
      | true =>
          simp only [Bool.not_true, Bool.false_eq_true, if_false]
          refine Does.uses (hDelete h₁) hOwns.sound fun ⟨cqOk, c₂⟩ h₂ => ?_
          cases cqOk with
          | false => exact does_return h₂ hOwns
          | true => exact does_releasePair h₂ hOwns

end Pairs

/-! ## The data buffer -/

/-- `nvme_alloc` of `newperf.c`, on the structures. -/
def nvmeAlloc (c : ControllerData) (n : NvmeData) (totalSz : UInt64) :
    Admin (Bool × ControllerData × NvmeData) := do
  let (allocated, c, mem) ← nvmeAllocDmaMem c totalSz {}
  if !allocated then return (false, c, n)
  else return (true, c,
    { n with
      ioUDataPhysAddr := mem.dmaAddr
      ioUDataVirtAddr := mem.userVirtaddr
      ioUDataMem := mem })

/-- `nvme_free` of `newperf.c` -/
def nvmeFree (c : ControllerData) (n : NvmeData) :
    Admin (Bool × ControllerData × NvmeData) := do
  let mem ← freeDma n.ioUDataMem
  return (true, c, { n with ioUDataMem := mem })

section Data

variable {base : Finset Res} {rs : List Res} {c : ControllerData} {n : NvmeData}

theorem does_nvmeAlloc {totalSz : UInt64} (hNull : n.ioUDataMem.Null) (h : Usable base rs c)
    (hOwns : Owns base (pairRes n)) :
    Does (PairAccounted base rs) (nvmeAlloc c n totalSz) (onTop base (pairRes n)) := by
  refine does_allocOpened hOwns h.opened (h.above _).file_held (does_return h hOwns)
    fun mem hReal _ hOwns => ?_
  have hPerm : (Res.region mem :: pairRes n).Perm
      (memRes n.ioPrpListMem ++ (memRes n.ioSqMem ++ (memRes n.ioCqMem ++ memRes mem))) := by
    rw [pairRes, memRes_null hNull, memRes_real hReal, List.append_nil]
    simp only [← List.append_assoc]
    exact (List.perm_append_singleton _ _).symm
  rw [onTop_perm hPerm]
  exact does_end h rfl (hOwns.perm hPerm)

theorem does_nvmeFree (h : Usable base rs c) (hOwns : Owns base (pairRes n)) :
    Does (PairAccounted base rs) (nvmeFree c n) (onTop base (pairRes n)) := by
  have hSplit : pairRes n = (memRes n.ioPrpListMem ++ (memRes n.ioSqMem ++ memRes n.ioCqMem)) ++
      (memRes n.ioUDataMem ++ []) := by
    simp only [pairRes, List.append_assoc, List.append_nil]
  rw [hSplit] at hOwns ⊢
  refine does_freeDma _ _ hOwns fun mem hNull hOwns => ?_
  refine does_end h ?_ hOwns
  simp only [pairRes, memRes_null hNull, List.append_assoc]

end Data

/-! ## Runs -/

/-- The `struct controller_data`, and the `struct nvme_data` that work on it. -/
structure Host where
  ctrl : ControllerData
  pairs : List NvmeData := []

def Host.owned (h : Host) : List Res := h.pairs.flatMap pairRes ++ controllerRes h.ctrl

inductive Call where
  | controllerInit
  | controllerDeinit
  | nvmeGetFileSize
  | createIoQueuePair (i : Nat)
  | deleteIoQueuePair (i : Nat)
  | nvmeAlloc (i : Nat) (totalSz : UInt64)
  | nvmeFree (i : Nat)

instance decidableQueueFree (n : NvmeData) : Decidable (QueueFree n) :=
  decidable_of_iff (n.ioCqMem.Null ∧ n.ioSqMem.Null ∧ n.ioPrpListMem.Null)
    ⟨fun h => ⟨h.1, h.2.1, h.2.2⟩, fun h => ⟨h.cq, h.sq, h.prp⟩⟩

/-- A function that works on one pair. -/
def Host.onPair (h : Host) (i : Nat) (p : Admin (Bool × ControllerData × NvmeData)) :
    Admin Host := do
  let (_, c, n) ← p
  return { ctrl := c, pairs := h.pairs.set i n }

/-- The calls, with what their callers have to see to: `controller_init` is for a controller
that is not initialised, `controller_deinit` comes when the pairs have given everything
back, and nothing is allocated over what is still there. -/
def prog (h : Host) : Call → Option (Admin Host)
  | .controllerInit =>
      if h.ctrl.bar0Virt = 0 then some do
        let (_, c) ← controllerInit h.ctrl
        return { h with ctrl := c }
      else none
  | .controllerDeinit =>
      if h.pairs.flatMap pairRes = [] then some do
        let c ← controllerDeinit h.ctrl
        return { h with ctrl := c }
      else none
  | .nvmeGetFileSize => some do
      let (_, c) ← nvmeGetFileSize h.ctrl
      return { h with ctrl := c }
  | .createIoQueuePair i => do
      let n ← h.pairs[i]?
      if QueueFree n then some (h.onPair i (createIoQueuePair h.ctrl n)) else none
  | .deleteIoQueuePair i => do
      let n ← h.pairs[i]?
      some (h.onPair i (deleteIoQueuePair h.ctrl n))
  | .nvmeAlloc i totalSz => do
      let n ← h.pairs[i]?
      if h.ctrl.bar0Virt ≠ 0 ∧ n.ioUDataMem.Null then
        some (h.onPair i (nvmeAlloc h.ctrl n totalSz))
      else none
  | .nvmeFree i => do
      let n ← h.pairs[i]?
      some (h.onPair i (nvmeFree h.ctrl n))

/-- What is held is what the structures name, each of it once.  A controller that is not
initialised and its pairs name nothing. -/
structure Balanced (h : Host) (held : Finset Res) : Prop where
  owns : Owns ∅ h.owned
  held : held = onTop ∅ h.owned
  ready : h.ctrl.bar0Virt ≠ 0 → Ready h.ctrl
  down : h.ctrl.bar0Virt = 0 → h.owned = []

section Runs

variable {h : Host} {held : Finset Res} {i : Nat} {n : NvmeData}

private theorem flatMap_slot {α β : Type} {l : List α} {a : α} (hSlot : l[i]? = some a)
    (f : α → List β) : (l.flatMap f).Perm (f a ++ (l.eraseIdx i).flatMap f) := by
  obtain ⟨hLt, rfl⟩ := List.getElem?_eq_some_iff.mp hSlot
  exact ((List.getElem_cons_eraseIdx_perm hLt).flatMap_right f).symm

private theorem flatMap_set {α β : Type} {l : List α} {a : α} (hSlot : l[i]? = some a) (b : α)
    (f : α → List β) : ((l.set i b).flatMap f).Perm (f b ++ (l.eraseIdx i).flatMap f) := by
  obtain ⟨hLt, rfl⟩ := List.getElem?_eq_some_iff.mp hSlot
  exact (List.set_perm_cons_eraseIdx hLt b).flatMap_right f

private theorem region_of_memRes {mem : Mem} {r : Res} (h : r ∈ memRes mem) :
    ∃ mem, r = .region mem := by
  unfold memRes at h
  split at h
  · exact absurd h List.not_mem_nil
  · exact ⟨mem, List.mem_singleton.mp h⟩

private theorem null_of_pairRes (h : pairRes n = []) : n.ioUDataMem.Null := by
  simp only [pairRes, List.append_eq_nil_iff, memRes, ite_eq_left_iff, List.cons_ne_nil,
    imp_false, not_not] at h
  exact h.2.2.2

/-- Nothing needs what a pair names. -/
private theorem notMem_pairRes {q r : Res} (hNeeds : q ∈ r.needs) : q ∉ pairRes n := by
  intro hMem
  have hRegion : ∃ mem, q = .region mem := by
    simp only [pairRes, List.mem_append] at hMem
    rcases hMem with hMem | hMem | hMem | hMem <;> exact region_of_memRes hMem
  obtain ⟨mem, rfl⟩ := hRegion
  exact needs_region hNeeds

private theorem balanced_none (hBar0 : h.ctrl.bar0Virt = 0) (hNone : h.owned = []) :
    Balanced h ∅ where
  owns := by
    rw [hNone]
    exact .nil (by simp [Sound])
  held := by rw [hNone, onTop_nil]
  ready hne := absurd hBar0 hne
  down _ := hNone

/-- The controller is the only one that names anything. -/
private theorem balanced_alone {c : ControllerData} (hPairs : h.pairs.flatMap pairRes = [])
    (hCtrl : Accounted ∅ c held) : Balanced { h with ctrl := c } held := by
  have hOwned : Host.owned { h with ctrl := c } = controllerRes c := by
    rw [Host.owned, hPairs, List.nil_append]
  exact
    { owns := by rw [hOwned]; exact hCtrl.owns
      held := by rw [hOwned]; exact hCtrl.held
      ready := hCtrl.ready
      down := fun hZero => hOwned.trans (hCtrl.down hZero) }

theorem Balanced.sound (h : Balanced h held) : Sound Res.needs held := h.held ▸ h.owns.sound

/-- A controller that stays usable names what it has named. -/
private theorem balanced_ctrl {c : ControllerData} (hOld : Balanced h held)
    (hUsable : Usable held (controllerRes h.ctrl) c) : Balanced { h with ctrl := c } held where
  owns := by
    rw [Host.owned, hUsable.named]
    exact hOld.owns
  held := by
    rw [Host.owned, hUsable.named]
    exact hOld.held
  ready _ := hUsable.toReady
  down hZero := absurd hZero hUsable.bar0

private theorem Balanced.usable (hOld : Balanced h held) (hBar0 : h.ctrl.bar0Virt ≠ 0) :
    Usable held (controllerRes h.ctrl) h.ctrl :=
  { hOld.ready hBar0 with
    named := rfl
    held := fun r hr => by
      rw [hOld.held]
      exact mem_onTop.mpr (.inr (List.mem_append_right _ hr)) }

/-- A function that works on a pair is given what the pair names, and finds the rest. -/
private theorem does_onPair {p : Admin (Bool × ControllerData × NvmeData)}
    (hOld : Balanced h held) (hBar0 : h.ctrl.bar0Virt ≠ 0) (hSlot : h.pairs[i]? = some n)
    (hDoes : ∀ base, Usable base (controllerRes h.ctrl) h.ctrl → Owns base (pairRes n) →
      Does (PairAccounted base (controllerRes h.ctrl)) p (onTop base (pairRes n))) :
    Does (fun h' held' => Balanced h' held') (h.onPair i p) held := by
  let rest := (h.pairs.eraseIdx i).flatMap pairRes ++ controllerRes h.ctrl
  have hPerm : h.owned.Perm (pairRes n ++ rest) :=
    ((flatMap_slot hSlot pairRes).append_right _).trans (by rw [List.append_assoc])
  have hOwns : Owns ∅ (pairRes n ++ rest) := hOld.owns.perm hPerm
  have hFree : ∀ r ∈ rest, ∀ q ∈ r.needs, q ∉ pairRes n := fun _ _ _ hq => notMem_pairRes hq
  have hCtrl : ∀ r ∈ controllerRes h.ctrl, r ∈ onTop ∅ rest := fun r hr =>
    mem_onTop.mpr (.inr (List.mem_append_right _ hr))
  have hHeld : held = onTop (onTop ∅ rest) (pairRes n) := by
    rw [onTop_onTop, hOld.held, onTop_perm hPerm]
  rw [hHeld]
  refine (hDoes (onTop ∅ rest) ((hOld.usable hBar0).within hCtrl) (hOwns.split hFree)).bind ?_
  rintro ⟨ok, c, n'⟩ held' hEnd
  refine Does.done (hEnd.held ▸ hEnd.owns.sound) ?_
  have hAfter :
      (Host.owned { ctrl := c, pairs := h.pairs.set i n' }).Perm (pairRes n' ++ rest) := by
    rw [Host.owned, hEnd.usable.named]
    exact ((flatMap_set hSlot n' pairRes).append_right _).trans (by rw [List.append_assoc])
  exact
    { owns := ((hOwns.rest hFree).join hEnd.owns).perm hAfter.symm
      held := by rw [hEnd.held, onTop_onTop, onTop_perm hAfter]
      ready := fun _ => hEnd.usable.toReady
      down := fun hZero => absurd hZero hEnd.usable.bar0 }

/-- On a controller that is not initialised it has nothing to work on. -/
private theorem does_onPair_down {p : Admin (Bool × ControllerData × NvmeData)}
    (hOld : Balanced h held) (hBar0 : h.ctrl.bar0Virt = 0) (hSlot : h.pairs[i]? = some n)
    (hDoes : pairRes n = [] → Does (fun r held' => held' = held ∧ r = (r.1, h.ctrl, n)) p held) :
    Does (fun h' held' => Balanced h' held') (h.onPair i p) held := by
  obtain ⟨hPairs, hCtrl⟩ := List.append_eq_nil_iff.mp (hOld.down hBar0)
  have hNone : held = ∅ := by rw [hOld.held, hOld.down hBar0, onTop_nil]
  have hPerm := flatMap_slot hSlot pairRes
  rw [hPairs] at hPerm
  obtain ⟨hOne, hOthers⟩ := List.append_eq_nil_iff.mp hPerm.symm.eq_nil
  refine (hDoes hOne).bind ?_
  rintro ⟨ok, c, n'⟩ _ ⟨rfl, hSame⟩
  obtain ⟨-, rfl, rfl⟩ := hSame
  have hAfter : Host.owned { ctrl := h.ctrl, pairs := h.pairs.set i n } = [] := by
    have hSet := flatMap_set hSlot n pairRes
    rw [hOne, hOthers] at hSet
    rw [Host.owned, hSet.eq_nil, hCtrl]
    rfl
  refine Does.done hOld.sound ?_
  rw [hNone]
  exact balanced_none hBar0 hAfter

private theorem does_printOnly {α : Type} {message : String} {a : α}
    (hSound : Sound Res.needs held) :
    Does (fun r held' => held' = held ∧ r = a) (printErrno message >>= fun _ => pure a) held :=
  Does.uses (uses_printErrno message) hSound fun _ _ => Does.done hSound ⟨rfl, rfl⟩

private theorem does_init (hOld : Balanced h held) (hBar0 : h.ctrl.bar0Virt = 0) :
    Does (fun h' held' => Balanced h' held')
      (controllerInit h.ctrl >>= fun r => pure { h with ctrl := r.2 }) held := by
  obtain ⟨hPairs, hCtrl⟩ := List.append_eq_nil_iff.mp (hOld.down hBar0)
  have hNone : held = ∅ := by rw [hOld.held, hOld.down hBar0, onTop_nil]
  refine (does_controllerInit hOld.sound (bare_of_none hCtrl) hBar0).bind fun r held' hEnd => ?_
  rw [hNone] at hEnd
  exact Does.done (hEnd.held ▸ hEnd.owns.sound) (balanced_alone hPairs hEnd)

private theorem does_deinit (hOld : Balanced h held) (hPairs : h.pairs.flatMap pairRes = []) :
    Does (fun h' held' => Balanced h' held')
      (controllerDeinit h.ctrl >>= fun c => pure { h with ctrl := c }) held := by
  have hOwned : h.owned = controllerRes h.ctrl := by rw [Host.owned, hPairs, List.nil_append]
  have hOwns := hOld.owns
  rw [hOld.held]
  rw [hOwned] at hOwns ⊢
  refine (does_controllerDeinit hOwns).bind fun c held' ⟨hEnd, _⟩ => ?_
  exact Does.done (hEnd.held ▸ hEnd.owns.sound) (balanced_alone hPairs hEnd)

private theorem does_fileSize (hOld : Balanced h held) :
    Does (fun h' held' => Balanced h' held')
      (nvmeGetFileSize h.ctrl >>= fun r => pure { h with ctrl := r.2 }) held := by
  by_cases hBar0 : h.ctrl.bar0Virt = 0
  · rw [nvmeGetFileSize, if_pos (.inl hBar0)]
    refine (does_printOnly hOld.sound (a := (0, h.ctrl))).bind ?_
    rintro _ _ ⟨rfl, rfl⟩
    exact Does.done hOld.sound hOld
  · refine (does_nvmeGetFileSize hOld.sound (hOld.usable hBar0)).bind ?_
    rintro r _ ⟨rfl, hUsable⟩
    exact Does.done hOld.sound (balanced_ctrl hOld hUsable)

theorem inductive_balanced :
    Calls.Inductive ledger (fun _ _ => True) Proper prog Balanced where
  stable _ := stable _
  spec_none _ _ h := ⟨h.sound, fun e he => by cases he⟩
  safe h held call p hOld hProg := by
    cases call with
    | controllerInit =>
        obtain ⟨hBar0, hProg⟩ := Option.ite_none_right_eq_some.mp hProg
        obtain rfl := Option.some.inj hProg
        exact does_init hOld hBar0
    | controllerDeinit =>
        obtain ⟨hPairs, hProg⟩ := Option.ite_none_right_eq_some.mp hProg
        obtain rfl := Option.some.inj hProg
        exact does_deinit hOld hPairs
    | nvmeGetFileSize =>
        obtain rfl := Option.some.inj hProg
        exact does_fileSize hOld
    | createIoQueuePair i =>
        obtain ⟨n, hSlot, hProg⟩ := Option.bind_eq_some_iff.mp hProg
        obtain ⟨hFree, hProg⟩ := Option.ite_none_right_eq_some.mp hProg
        obtain rfl := Option.some.inj hProg
        by_cases hBar0 : h.ctrl.bar0Virt = 0
        · refine does_onPair_down hOld hBar0 hSlot fun hNone => ?_
          rw [createIoQueuePair, if_pos hBar0]
          exact does_printOnly hOld.sound
        · exact does_onPair hOld hBar0 hSlot fun base => does_createIoQueuePair hFree
    | deleteIoQueuePair i =>
        obtain ⟨n, hSlot, hProg⟩ := Option.bind_eq_some_iff.mp hProg
        obtain rfl := Option.some.inj hProg
        by_cases hBar0 : h.ctrl.bar0Virt = 0
        · refine does_onPair_down hOld hBar0 hSlot fun hNone => ?_
          rw [deleteIoQueuePair, if_pos hBar0]
          exact does_printOnly hOld.sound
        · exact does_onPair hOld hBar0 hSlot fun base => does_deleteIoQueuePair
    | nvmeAlloc i totalSz =>
        obtain ⟨n, hSlot, hProg⟩ := Option.bind_eq_some_iff.mp hProg
        obtain ⟨⟨hBar0, hNull⟩, hProg⟩ := Option.ite_none_right_eq_some.mp hProg
        obtain rfl := Option.some.inj hProg
        exact does_onPair hOld hBar0 hSlot fun base => does_nvmeAlloc hNull
    | nvmeFree i =>
        obtain ⟨n, hSlot, hProg⟩ := Option.bind_eq_some_iff.mp hProg
        obtain rfl := Option.some.inj hProg
        by_cases hBar0 : h.ctrl.bar0Virt = 0
        · refine does_onPair_down hOld hBar0 hSlot fun hNone => ?_
          rw [nvmeFree, freeDma_null (null_of_pairRes hNone)]
          exact Does.done hOld.sound ⟨rfl, rfl⟩
        · exact does_onPair hOld hBar0 hSlot fun base => does_nvmeFree

/-- A controller as `parse_target` returns it, and nothing is held. -/
def start (bus dev func nsid : UInt16) (pairs : List NvmeData) :
    Calls Effect Effect.Result Host (Finset Res) :=
  { host := { ctrl := { bus, dev, func, nsid }, pairs }, machine := ∅ }

theorem balanced_start {bus dev func nsid : UInt16} {pairs : List NvmeData}
    (hPairs : ∀ n ∈ pairs, pairRes n = []) :
    Balanced (start bus dev func nsid pairs).host ∅ := by
  have hNone : (start bus dev func nsid pairs).host.owned = [] := by
    have hAll : pairs.flatMap pairRes = [] := List.flatMap_eq_nil_iff.mpr hPairs
    rw [Host.owned, start, hAll]
    simp [controllerRes, fileRes, bar0Res]
  exact balanced_none rfl hNone

end Runs

/-- The controller is initialised, and `create_io_queue_pair` gets no memory for the PRP
lists. -/
def lastAllocationFails : List (Act Call ((e : Effect) → e.Result) Empty) :=
  let memory : UInt64 → Mem := fun virt => { fd := 3, userVirtaddr := virt, size := 4096 }
  let done := Act.effect (answerWith 0 {})
  let cap := [Act.effect (answerWith 0x010003ff {}), done]
  [.call .controllerInit, done] ++ cap ++
    [done, .effect (answerWith 0 (memory 0x20000)), .effect (answerWith 0 (memory 0x21000))] ++
    List.replicate 9 done ++ [.effect (answerWith 1 {}), .ret, .call (.createIoQueuePair 0)] ++
    cap ++
    [.effect (answerWith 0 (memory 0x22000)), .effect (answerWith 0 (memory 0x23000))] ++
    List.replicate 4 done ++ [.ret]

end NewPerf.Tools.Resources
