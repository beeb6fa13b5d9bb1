import NewPerf.Tools.AdminRules

/-!
# Create and Delete commands against a controller that takes its time

`QueuesBacked` is the property of the I/O queue protocol: a submission queue never
lacks its completion queue, and the memory of a queue, or of a Create command that
may still be executed, has not been released.

The commands for one queue identifier take a pair of allocations through three
stages: neither queue exists, the completion queue exists, both exist.  `Stands`
says where a pair is, and that nothing else under way can move it; a command sent
for the pair is exempt until it is settled.  `Orderly` is what all commands under
way have in common.  Both survive every step of the controller, and an accepted
command takes its pair to the next stage (`Stands.accept`).
-/

namespace NewPerf.Tools

open NewPerf.Lib.Logs
open NewPerf.Lib.Programs

/-- The completion has been posted. -/
def Sent.Completed (s : Sent) : Prop := ∃ accepted, s.progress = .posted accepted

/-- The command gives the controller memory for a queue. -/
def QueueOp.Creates : QueueOp → Prop
  | .createCq | .createSq => True
  | _ => False

/-- The command is about a queue pair whose completion queue exists. -/
def QueueOp.Leans : QueueOp → Prop
  | .createSq | .deleteSq | .deleteCq => True
  | _ => False

/-- Every submission queue is attached to the completion queue of its own identifier, and
that one exists. -/
def Attached (m : Hardware) : Prop :=
  ∀ q, m.sqs q ≠ none → m.attachedTo q = q ∧ m.cqs q ≠ none

structure QueuesBacked (m : Hardware) : Prop where
  attached : Attached m
  sq : ∀ q r, m.sqs q = some r → ∃ i mem, r = some i ∧ m.Live i mem
  cq : ∀ q r, m.cqs q = some r → ∃ i mem, r = some i ∧ m.Live i mem
  create : ∀ (j : Nat) (s : Sent), m.sent[j]? = some s → s.cmd.queueOp.Creates →
    ¬ s.Completed → ∃ i mem, s.region = some i ∧ m.Live i mem

/-- What holds of the commands under way, whatever pair they are about. -/
structure Orderly (m : Hardware) : Prop where
  cq : ∀ (j : Nat) (s : Sent), m.sent[j]? = some s → s.progress = .waiting →
    s.cmd.queueOp.Leans → m.cqs s.cmd.qid ≠ none
  deleteCq : ∀ (j : Nat) (s : Sent), m.sent[j]? = some s → s.progress = .waiting →
    s.cmd.queueOp = .deleteCq → m.sqs s.cmd.qid = none
  single : ∀ (i j : Nat) (s t : Sent), m.sent[i]? = some s → m.sent[j]? = some t →
    s.progress = .waiting → t.progress = .waiting → s.cmd.queueOp.Leans →
    t.cmd.queueOp.Leans → s.cmd.qid = t.cmd.qid → i = j
  ownCq : ∀ (j : Nat) (s : Sent), m.sent[j]? = some s → s.cmd.queueOp = .createSq →
    s.cmd.cqid = s.cmd.qid

/-- How much of a queue pair exists. -/
inductive Stage where
  | none
  | cq
  | both
  deriving DecidableEq, Repr

/-- Where the pair with identifier `q` on the allocations `rc` and `rs` is.  The
command number `ex` is not considered. -/
structure Stands (m : Hardware) (q : UInt16) (stage : Stage) (rc rs : Nat)
    (ex : Option Nat) : Prop where
  ne : rc ≠ rs
  cqIs : stage ≠ .none → m.cqs q = some (some rc)
  sqIs : stage = .both → m.sqs q = some (some rs)
  sqNot : stage = .cq → m.sqs q = none
  idle : stage ≠ .none → ∀ (j : Nat) (s : Sent), m.sent[j]? = some s → some j ≠ ex →
    s.progress = .waiting → s.cmd.queueOp.Leans → s.cmd.qid ≠ q
  cqOnly : ∀ q', m.cqs q' = some (some rc) → stage ≠ .none ∧ q' = q
  cqNever : ∀ q', m.cqs q' ≠ some (some rs)
  sqOnly : ∀ q', m.sqs q' = some (some rs) → stage = .both ∧ q' = q
  sqNever : ∀ q', m.sqs q' ≠ some (some rc)
  fresh : ∀ (j : Nat) (s : Sent), m.sent[j]? = some s → some j ≠ ex →
    s.cmd.queueOp.Creates → ¬ s.Completed → s.region ≠ some rc ∧ s.region ≠ some rs

/-- No queue and no unfinished Create command uses the allocation. -/
structure Unnamed (m : Hardware) (i : Nat) : Prop where
  cq : ∀ q, m.cqs q ≠ some (some i)
  sq : ∀ q, m.sqs q ≠ some (some i)
  create : ∀ (j : Nat) (s : Sent), m.sent[j]? = some s → s.cmd.queueOp.Creates →
    ¬ s.Completed → s.region ≠ some i

/-! ## What one step of the controller changes -/

section Device

variable {m m' : Hardware} {b : DeviceAct}

theorem sent_setProgress {i j : Nat} {p : Progress} {s' : Sent}
    (h : (m.setProgress i p).sent[j]? = some s') :
    ∃ s, m.sent[j]? = some s ∧ s' = if i = j then { s with progress := p } else s := by
  rw [Hardware.setProgress, List.getElem?_modify, Option.map_eq_map,
    Option.map_eq_some_iff] at h
  obtain ⟨s, hs, rfl⟩ := h
  exact ⟨s, hs, rfl⟩

theorem sent_apply (m : Hardware) (s : Sent) : (m.apply s).sent = m.sent := by
  rw [Hardware.apply_eq]

/-- One command moves on by one step; the others stay as they are. -/
theorem device_progress (h : m.device b = some m') : ∃ i s p, m.sent[i]? = some s ∧
    (s.progress = .waiting ∧ (∃ a, p = .executed a) ∨
      ∃ a, s.progress = .executed a ∧ p = .posted a) ∧
    m'.sent = (m.setProgress i p).sent ∧ m'.regions = m.regions := by
  obtain ⟨i, s, hs, hWaiting, rfl⟩ | ⟨i, s, hs, hWaiting, _, rfl⟩ |
    ⟨i, s, a, _, _, hs, hExecuted, _, rfl⟩ := Hardware.device_cases h
  · exact ⟨i, s, _, hs, .inl ⟨hWaiting, _, rfl⟩, rfl, rfl⟩
  · refine ⟨i, s, _, hs, .inl ⟨hWaiting, _, rfl⟩, sent_apply _ _, ?_⟩
    rw [Hardware.apply_eq]
    rfl
  · exact ⟨i, s, _, hs, .inr ⟨a, hExecuted, rfl⟩, rfl, rfl⟩

theorem device_live (h : m.device b = some m') {i : Nat} {mem : Mem} :
    m'.Live i mem ↔ m.Live i mem := by
  obtain ⟨_, _, _, _, _, _, hRegions⟩ := device_progress h
  rw [Hardware.Live, Hardware.Live, hRegions]

/-- A command seen after the step was there before it, and was no further. -/
theorem device_back (h : m.device b = some m') {j : Nat} {s' : Sent}
    (hs' : m'.sent[j]? = some s') :
    ∃ s, m.sent[j]? = some s ∧ s'.cmd = s.cmd ∧ s'.region = s.region ∧
      (s'.progress = .waiting → s.progress = .waiting) ∧ (s.Completed → s'.Completed) := by
  obtain ⟨i, t, p, ht, hMove, hSent, _⟩ := device_progress h
  rw [hSent] at hs'
  obtain ⟨s, hs, rfl⟩ := sent_setProgress hs'
  refine ⟨s, hs, ?_⟩
  split
  · rename_i hij
    subst hij
    obtain rfl : t = s := Option.some.inj (ht.symm.trans hs)
    refine ⟨rfl, rfl, fun hp => ?_, fun ⟨a, hDone⟩ => ?_⟩
    · rcases hMove with ⟨_, a, rfl⟩ | ⟨a, _, rfl⟩ <;> cases hp
    · rcases hMove with ⟨hWaiting, _⟩ | ⟨a', hExecuted, _⟩
      · rw [hWaiting] at hDone
        cases hDone
      · rw [hExecuted] at hDone
        cases hDone
  · exact ⟨rfl, rfl, id, id⟩

/-- The queue sets change only when a command is accepted. -/
theorem device_queues (h : m.device b = some m') :
    (m'.sqs = m.sqs ∧ m'.cqs = m.cqs ∧ m'.attachedTo = m.attachedTo) ∨
    ∃ i s, m.sent[i]? = some s ∧ s.progress = .waiting ∧ m.inUse s.cmd = false ∧
      m' = (m.setProgress i (.executed true)).apply s := by
  obtain ⟨i, s, _, _, rfl⟩ | hAccept | ⟨i, s, _, _, _, _, _, _, rfl⟩ :=
    Hardware.device_cases h
  · exact .inl ⟨rfl, rfl, rfl⟩
  · exact .inr hAccept
  · exact .inl ⟨rfl, rfl, rfl⟩

/-- What a command not yet executed becomes when it is accepted. -/
theorem sent_accepted {k j : Nat} {x s : Sent}
    (hs : ((m.setProgress k (.executed true)).apply x).sent[j]? = some s)
    (hWaiting : s.progress = .waiting) : j ≠ k ∧ m.sent[j]? = some s := by
  rw [sent_apply] at hs
  obtain ⟨s₀, hs₀, rfl⟩ := sent_setProgress hs
  split at hWaiting
  · cases hWaiting
  · rename_i hne
    rw [if_neg hne]
    exact ⟨fun hEq => hne hEq.symm, hs₀⟩

/-! ### The queue sets after an accepted command -/

variable {s : Sent} {q : UInt16} {r : Option Nat}

theorem queues_createCq (m : Hardware) (hOp : s.cmd.queueOp = .createCq) :
    (m.apply s).cqs = Function.update m.cqs s.cmd.qid (some s.region) ∧
      (m.apply s).sqs = m.sqs := by
  rw [Hardware.apply, hOp]
  exact ⟨rfl, rfl⟩

theorem queues_createSq (m : Hardware) (hOp : s.cmd.queueOp = .createSq) :
    (m.apply s).cqs = m.cqs ∧
      (m.apply s).sqs = Function.update m.sqs s.cmd.qid (some s.region) := by
  rw [Hardware.apply, hOp]
  exact ⟨rfl, rfl⟩

theorem queues_deleteSq (m : Hardware) (hOp : s.cmd.queueOp = .deleteSq) :
    (m.apply s).cqs = m.cqs ∧ (m.apply s).sqs = Function.update m.sqs s.cmd.qid none := by
  rw [Hardware.apply, hOp]
  exact ⟨rfl, rfl⟩

theorem queues_deleteCq (m : Hardware) (hOp : s.cmd.queueOp = .deleteCq) :
    (m.apply s).cqs = Function.update m.cqs s.cmd.qid none ∧ (m.apply s).sqs = m.sqs := by
  rw [Hardware.apply, hOp]
  exact ⟨rfl, rfl⟩

theorem apply_keep (m : Hardware) (h : s.cmd.queueOp = .other ∨ s.cmd.qid ≠ q) :
    (m.apply s).cqs q = m.cqs q ∧ (m.apply s).sqs q = m.sqs q := by
  unfold Hardware.apply
  split <;> rename_i hOp
  all_goals
    first
    | exact ⟨rfl, rfl⟩
    | have hne : q ≠ s.cmd.qid := fun hEq =>
        (h.resolve_left (by rw [hOp]; nofun)) hEq.symm
      simp [Function.update_of_ne hne]

theorem apply_cq (h : (m.apply s).cqs q = some r) : m.cqs q = some r ∨
    (s.cmd.queueOp = .createCq ∧ s.cmd.qid = q ∧ s.region = r) := by
  by_cases hQid : s.cmd.qid = q
  · unfold Hardware.apply at h
    split at h <;> rename_i hOp
    · rw [← hQid] at h
      simp only [Function.update_self, Option.some.injEq] at h
      exact .inr ⟨hOp, hQid, h⟩
    · exact .inl h
    · exact .inl h
    · rw [← hQid] at h
      simp at h
    · exact .inl h
  · rw [(apply_keep m (.inr hQid)).1] at h
    exact .inl h

theorem apply_sq (h : (m.apply s).sqs q = some r) : m.sqs q = some r ∨
    (s.cmd.queueOp = .createSq ∧ s.cmd.qid = q ∧ s.region = r) := by
  by_cases hQid : s.cmd.qid = q
  · unfold Hardware.apply at h
    split at h <;> rename_i hOp
    · exact .inl h
    · rw [← hQid] at h
      simp only [Function.update_self, Option.some.injEq] at h
      exact .inr ⟨hOp, hQid, h⟩
    · rw [← hQid] at h
      simp at h
    · exact .inl h
    · exact .inl h
  · rw [(apply_keep m (.inr hQid)).2] at h
    exact .inl h

/-- A submission queue that is not new stays attached where it was. -/
theorem apply_attachedTo (m : Hardware) (h : s.cmd.queueOp ≠ .createSq ∨ s.cmd.qid ≠ q) :
    (m.apply s).attachedTo q = m.attachedTo q := by
  unfold Hardware.apply
  split <;> rename_i hOp
  case h_2 =>
    have hne : q ≠ s.cmd.qid := fun hEq => (h.resolve_left fun hNot => hNot hOp) hEq.symm
    exact Function.update_of_ne hne _ _
  all_goals rfl

theorem attachedTo_createSq (m : Hardware) (hOp : s.cmd.queueOp = .createSq) :
    (m.apply s).attachedTo s.cmd.qid = s.cmd.cqid := by
  rw [Hardware.apply, hOp]
  exact Function.update_self ..

/-- Only Delete CQ takes a completion queue away. -/
theorem apply_cq_ne_none (hOp : s.cmd.queueOp ≠ .deleteCq) (h : m.cqs q ≠ none) :
    (m.apply s).cqs q ≠ none := by
  by_cases hQid : s.cmd.qid = q
  · unfold Hardware.apply
    split
    · rw [← hQid]
      simp
    · exact h
    · exact h
    · exact absurd ‹_› hOp
    · exact h
  · rwa [(apply_keep m (.inr hQid)).1]

/-! ## Commands under way stay in order -/

/-- The controller keeps the commands in order, and submission queues attached. -/
theorem Orderly.device (h : Orderly m) (hAttached : Attached m)
    (hStep : m.device b = some m') : Orderly m' ∧ Attached m' := by
  have hSingle : ∀ (i j : Nat) (s t : Sent), m'.sent[i]? = some s →
      m'.sent[j]? = some t → s.progress = .waiting → t.progress = .waiting →
      s.cmd.queueOp.Leans → t.cmd.queueOp.Leans → s.cmd.qid = t.cmd.qid → i = j := by
    intro i j s t hs ht hsW htW hsL htL hQid
    obtain ⟨s₀, hs₀, hsCmd, _, hsBack, _⟩ := device_back hStep hs
    obtain ⟨t₀, ht₀, htCmd, _, htBack, _⟩ := device_back hStep ht
    rw [hsCmd] at hsL hQid
    rw [htCmd] at htL hQid
    exact h.single i j s₀ t₀ hs₀ ht₀ (hsBack hsW) (htBack htW) hsL htL hQid
  have hOwnCq : ∀ (j : Nat) (s : Sent), m'.sent[j]? = some s → s.cmd.queueOp = .createSq →
      s.cmd.cqid = s.cmd.qid := by
    intro j s hs hOp
    obtain ⟨s₀, hs₀, hCmd, -⟩ := device_back hStep hs
    rw [hCmd] at hOp ⊢
    exact h.ownCq j s₀ hs₀ hOp
  rcases device_queues hStep with ⟨hSqs, hCqs, hTo⟩ | ⟨k, x, hx, hxWaiting, _, rfl⟩
  · refine ⟨⟨fun j s hs hW hL => ?_, fun j s hs hW hD => ?_, hSingle, hOwnCq⟩, ?_⟩
    · obtain ⟨s₀, hs₀, hCmd, _, hBack, _⟩ := device_back hStep hs
      rw [hCqs, hCmd]
      exact h.cq j s₀ hs₀ (hBack hW) (hCmd ▸ hL)
    · obtain ⟨s₀, hs₀, hCmd, _, hBack, _⟩ := device_back hStep hs
      rw [hSqs, hCmd]
      exact h.deleteCq j s₀ hs₀ (hBack hW) (hCmd ▸ hD)
    · rw [Attached, hSqs, hCqs, hTo]
      exact hAttached
  -- A waiting command about the same pair as the accepted one would be the same one.
  have hAlone : ∀ (j : Nat) (s : Sent), j ≠ k → m.sent[j]? = some s →
      s.progress = .waiting → s.cmd.queueOp.Leans → x.cmd.queueOp.Leans →
      x.cmd.qid ≠ s.cmd.qid := fun j s hne hs hW hL hxL hQid =>
    hne (h.single j k s x hs hx hW hxWaiting hL hxL hQid.symm)
  refine ⟨⟨fun j s hs hW hL => ?_, fun j s hs hW hD => ?_, hSingle, hOwnCq⟩, fun q hq => ?_⟩
  · obtain ⟨hne, hs₀⟩ := sent_accepted hs hW
    have hCq := h.cq j s hs₀ hW hL
    by_cases hOp : x.cmd.queueOp = .deleteCq
    · have hQid := hAlone j s hne hs₀ hW hL (by rw [hOp]; trivial)
      rwa [(apply_keep _ (.inr hQid)).1]
    · exact apply_cq_ne_none hOp hCq
  · obtain ⟨hne, hs₀⟩ := sent_accepted hs hW
    have hNone := h.deleteCq j s hs₀ hW hD
    have hL : s.cmd.queueOp.Leans := by rw [hD]; trivial
    by_contra hSome
    obtain ⟨r, hr⟩ := Option.ne_none_iff_exists'.mp hSome
    rcases apply_sq hr with hOld | ⟨hOp, hQid, _⟩
    · exact absurd (hNone.symm.trans hOld) nofun
    · exact hAlone j s hne hs₀ hW hL (by rw [hOp]; trivial) hQid
  · obtain ⟨r, hr⟩ := Option.ne_none_iff_exists'.mp hq
    rcases apply_sq hr with hOld | ⟨hOp, rfl, _⟩
    · have hSq : m.sqs q ≠ none := fun hNone => nomatch hNone.symm.trans hOld
      obtain ⟨hTo, hCq⟩ := hAttached q hSq
      by_cases hOp : x.cmd.queueOp = .deleteCq
      · have hQid : x.cmd.qid ≠ q := fun hEq =>
          hSq (hEq ▸ h.deleteCq k x hx hxWaiting hOp)
        rw [(apply_keep _ (.inr hQid)).1, apply_attachedTo _ (.inr hQid)]
        exact ⟨hTo, hCq⟩
      · refine ⟨?_, apply_cq_ne_none hOp hCq⟩
        by_cases hNew : x.cmd.queueOp = .createSq ∧ x.cmd.qid = q
        · obtain ⟨hCreate, rfl⟩ := hNew
          rw [attachedTo_createSq _ hCreate]
          exact h.ownCq k x hx hCreate
        · rw [apply_attachedTo _ (not_and_or.mp hNew)]
          exact hTo
    · refine ⟨?_, apply_cq_ne_none (by rw [hOp]; nofun) ?_⟩
      · rw [attachedTo_createSq _ hOp]
        exact h.ownCq k x hx hOp
      · exact h.cq k x hx hxWaiting (by rw [hOp]; trivial)

/-- The memory of queues and of unfinished Create commands stays live. -/
theorem QueuesBacked.device (h : QueuesBacked m) (hOrderly : Orderly m)
    (hStep : m.device b = some m') : QueuesBacked m' := by
  have hLive : ∀ {r : Option Nat}, (∃ i mem, r = some i ∧ m.Live i mem) →
      ∃ i mem, r = some i ∧ m'.Live i mem := by
    rintro r ⟨i, mem, hr, hi⟩
    exact ⟨i, mem, hr, (device_live hStep).mpr hi⟩
  have hCreate : ∀ (j : Nat) (s : Sent), m'.sent[j]? = some s → s.cmd.queueOp.Creates →
      ¬ s.Completed → ∃ i mem, s.region = some i ∧ m'.Live i mem := by
    intro j s hs hC hOpen
    obtain ⟨s₀, hs₀, hCmd, hRegion, _, hBack⟩ := device_back hStep hs
    rw [hRegion]
    exact hLive (h.create j s₀ hs₀ (hCmd ▸ hC) fun hDone => hOpen (hBack hDone))
  have hAttached := (hOrderly.device h.attached hStep).2
  rcases device_queues hStep with ⟨hSqs, hCqs, -⟩ | ⟨k, x, hx, hxWaiting, _, rfl⟩
  · refine ⟨hAttached, fun q r hq => ?_, fun q r hq => ?_, hCreate⟩
    · rw [hSqs] at hq
      exact hLive (h.sq q r hq)
    · rw [hCqs] at hq
      exact hLive (h.cq q r hq)
  have hOpen : ¬ x.Completed := fun ⟨a, hDone⟩ => nomatch hxWaiting.symm.trans hDone
  refine ⟨hAttached, fun q r hq => ?_, fun q r hq => ?_, hCreate⟩
  · rcases apply_sq hq with hOld | ⟨hOp, _, rfl⟩
    · exact hLive (h.sq q r hOld)
    · exact hLive (h.create k x hx (by rw [hOp]; trivial) hOpen)
  · rcases apply_cq hq with hOld | ⟨hOp, _, rfl⟩
    · exact hLive (h.cq q r hOld)
    · exact hLive (h.create k x hx (by rw [hOp]; trivial) hOpen)

end Device

/-! ## Pairs stay where they are, or move on -/

/-- The stages an accepted command takes its pair from and to. -/
inductive Stage.Moves : QueueOp → Stage → Stage → Prop
  | createCq : Moves .createCq .none .cq
  | createSq : Moves .createSq .cq .both
  | deleteSq : Moves .deleteSq .both .cq
  | deleteCq : Moves .deleteCq .cq .none

section Pairs

variable {m m' : Hardware} {b : DeviceAct} {q : UInt16} {stage stage' : Stage}
  {rc rs k : Nat} {ex : Option Nat} {s : Sent}

private theorem not_completed (h : s.progress = .waiting) : ¬ s.Completed :=
  fun ⟨_, hDone⟩ => nomatch h.symm.trans hDone

private theorem Stands.back_idle (h : Stands m q stage rc rs ex)
    (hStep : m.device b = some m') (hStage : stage ≠ .none) :
    ∀ (j : Nat) (s : Sent), m'.sent[j]? = some s → some j ≠ ex →
      s.progress = .waiting → s.cmd.queueOp.Leans → s.cmd.qid ≠ q := by
  intro j s hs hj hW hL
  obtain ⟨s₀, hs₀, hCmd, _, hBack, _⟩ := device_back hStep hs
  rw [hCmd]
  exact h.idle hStage j s₀ hs₀ hj (hBack hW) (hCmd ▸ hL)

private theorem Stands.back_fresh (h : Stands m q stage rc rs ex)
    (hStep : m.device b = some m') :
    ∀ (j : Nat) (s : Sent), m'.sent[j]? = some s → some j ≠ ex →
      s.cmd.queueOp.Creates → ¬ s.Completed →
      s.region ≠ some rc ∧ s.region ≠ some rs := by
  intro j s hs hj hC hOpen
  obtain ⟨s₀, hs₀, hCmd, hRegion, _, hBack⟩ := device_back hStep hs
  rw [hRegion]
  exact h.fresh j s₀ hs₀ hj (hCmd ▸ hC) fun hDone => hOpen (hBack hDone)

/-- Nothing but the exempt command moves the pair. -/
theorem Stands.device_other (h : Stands m q stage rc rs ex)
    (hStep : m.device b = some m')
    (hOther : ∀ k s, m.sent[k]? = some s → s.progress = .waiting →
      m' = (m.setProgress k (.executed true)).apply s → some k ≠ ex) :
    Stands m' q stage rc rs ex := by
  have hIdle := h.back_idle hStep
  have hFresh := h.back_fresh hStep
  rcases device_queues hStep with ⟨hSqs, hCqs, -⟩ | ⟨k, x, hx, hxWaiting, hFree, hState⟩
  · exact
      { ne := h.ne
        cqIs := by rw [hCqs]; exact h.cqIs
        sqIs := by rw [hSqs]; exact h.sqIs
        sqNot := by rw [hSqs]; exact h.sqNot
        idle := hIdle
        cqOnly := by rw [hCqs]; exact h.cqOnly
        cqNever := by rw [hCqs]; exact h.cqNever
        sqOnly := by rw [hSqs]; exact h.sqOnly
        sqNever := by rw [hSqs]; exact h.sqNever
        fresh := hFresh }
  have hk := hOther k x hx hxWaiting hState
  -- The accepted command is about another identifier, unless the pair has no queue.
  have hKeep : stage ≠ .none → x.cmd.queueOp = .other ∨ x.cmd.qid ≠ q := by
    intro hStage
    cases hOp : x.cmd.queueOp with
    | other => exact .inl rfl
    | createCq =>
        refine .inr fun hEq => ?_
        rw [Hardware.inUse, hOp, hEq, h.cqIs hStage] at hFree
        cases hFree
    | createSq => exact .inr (h.idle hStage k x hx hk hxWaiting (by rw [hOp]; trivial))
    | deleteSq => exact .inr (h.idle hStage k x hx hk hxWaiting (by rw [hOp]; trivial))
    | deleteCq => exact .inr (h.idle hStage k x hx hk hxWaiting (by rw [hOp]; trivial))
  have hMem := fun hC => h.fresh k x hx hk hC (not_completed hxWaiting)
  subst hState
  refine
    { ne := h.ne
      cqIs := fun hStage => ?_
      sqIs := fun hStage => ?_
      sqNot := fun hStage => ?_
      idle := hIdle
      cqOnly := fun q' hq' => ?_
      cqNever := fun q' hq' => ?_
      sqOnly := fun q' hq' => ?_
      sqNever := fun q' hq' => ?_
      fresh := hFresh }
  · rw [(apply_keep _ (hKeep hStage)).1]
    exact h.cqIs hStage
  · rw [(apply_keep _ (hKeep (by rw [hStage]; nofun))).2]
    exact h.sqIs hStage
  · rw [(apply_keep _ (hKeep (by rw [hStage]; nofun))).2]
    exact h.sqNot hStage
  · rcases apply_cq hq' with hOld | ⟨hOp, _, hRegion⟩
    · exact h.cqOnly q' hOld
    · exact absurd hRegion (hMem (by rw [hOp]; trivial)).1
  · rcases apply_cq hq' with hOld | ⟨hOp, _, hRegion⟩
    · exact h.cqNever q' hOld
    · exact absurd hRegion (hMem (by rw [hOp]; trivial)).2
  · rcases apply_sq hq' with hOld | ⟨hOp, _, hRegion⟩
    · exact h.sqOnly q' hOld
    · exact absurd hRegion (hMem (by rw [hOp]; trivial)).2
  · rcases apply_sq hq' with hOld | ⟨hOp, _, hRegion⟩
    · exact h.sqNever q' hOld
    · exact absurd hRegion (hMem (by rw [hOp]; trivial)).1

theorem Stands.device (h : Stands m q stage rc rs none) (hStep : m.device b = some m') :
    Stands m' q stage rc rs none :=
  h.device_other hStep fun _ _ _ _ _ => nofun

theorem Unnamed.device {i : Nat} (h : Unnamed m i) (hStep : m.device b = some m') :
    Unnamed m' i := by
  have hCreate : ∀ (j : Nat) (s : Sent), m'.sent[j]? = some s → s.cmd.queueOp.Creates →
      ¬ s.Completed → s.region ≠ some i := by
    intro j s hs hC hOpen
    obtain ⟨s₀, hs₀, hCmd, hRegion, _, hBack⟩ := device_back hStep hs
    rw [hRegion]
    exact h.create j s₀ hs₀ (hCmd ▸ hC) fun hDone => hOpen (hBack hDone)
  rcases device_queues hStep with ⟨hSqs, hCqs, -⟩ | ⟨k, x, hx, hxWaiting, _, rfl⟩
  · exact
      { cq := by rw [hCqs]; exact h.cq
        sq := by rw [hSqs]; exact h.sq
        create := hCreate }
  have hMem := fun hC => h.create k x hx hC (not_completed hxWaiting)
  refine ⟨fun q' hq' => ?_, fun q' hq' => ?_, hCreate⟩
  · rcases apply_cq hq' with hOld | ⟨hOp, _, hRegion⟩
    · exact h.cq q' hOld
    · exact hMem (by rw [hOp]; trivial) hRegion
  · rcases apply_sq hq' with hOld | ⟨hOp, _, hRegion⟩
    · exact h.sq q' hOld
    · exact hMem (by rw [hOp]; trivial) hRegion

private theorem update_none_eq_some {f : UInt16 → Option (Option Nat)} {a q : UInt16}
    {r : Option Nat} (h : Function.update f a none q = some r) : q ≠ a ∧ f q = some r := by
  by_cases hEq : q = a
  · rw [hEq, Function.update_self] at h
    cases h
  · rw [Function.update_of_ne hEq] at h
    exact ⟨hEq, h⟩

private theorem update_some_eq_some {f : UInt16 → Option (Option Nat)} {a q : UInt16}
    {r r' : Option Nat} (h : Function.update f a (some r') q = some r) :
    (q = a ∧ r' = r) ∨ f q = some r := by
  by_cases hEq : q = a
  · rw [hEq, Function.update_self] at h
    exact .inl ⟨hEq, Option.some.inj h⟩
  · rw [Function.update_of_ne hEq] at h
    exact .inr h

/-- An accepted command takes its pair to the next stage. -/
theorem Stands.accept (h : Stands m q stage rc rs (some k)) (hOrderly : Orderly m)
    (hAttached : Attached m)
    (hStep : m.device b = some ((m.setProgress k (.executed true)).apply s))
    (hFree : m.inUse s.cmd = false) (hMove : Stage.Moves s.cmd.queueOp stage stage')
    (hQid : s.cmd.qid = q) (hCq : s.cmd.queueOp = .createCq → s.region = some rc)
    (hSq : s.cmd.queueOp = .createSq → s.region = some rs) :
    Stands ((m.setProgress k (.executed true)).apply s) q stage' rc rs (some k) := by
  have hIdle := h.back_idle hStep
  have hFresh := h.back_fresh hStep
  generalize hOp : s.cmd.queueOp = op at hMove
  subst hQid
  cases hMove with
  | createCq =>
      have hNone : m.cqs s.cmd.qid = none := by
        simpa [Hardware.inUse, hOp] using hFree
      obtain ⟨hCqs, hSqs⟩ := queues_createCq (m.setProgress k (.executed true)) hOp
      rw [hCq hOp] at hCqs
      refine
        { ne := h.ne
          cqIs := fun _ => by rw [hCqs, Function.update_self]
          sqIs := nofun
          sqNot := fun _ => ?_
          idle := fun _ j t ht hj hW hL hQid => ?_
          cqOnly := fun q' hq' => ⟨nofun, ?_⟩
          cqNever := fun q' hq' => ?_
          sqOnly := fun q' hq' => nomatch (h.sqOnly q' (hSqs ▸ hq')).1
          sqNever := by rw [hSqs]; exact h.sqNever
          fresh := hFresh }
      · rw [hSqs]
        by_contra hSome
        exact (hAttached _ hSome).2 hNone
      · -- A command that leans on the completion queue would have found it there.
        obtain ⟨t₀, ht₀, hCmd, _, hBack, _⟩ := device_back hStep ht
        rw [hCmd] at hL hQid
        exact hOrderly.cq j t₀ ht₀ (hBack hW) hL (hQid ▸ hNone)
      · rcases update_some_eq_some (hCqs ▸ hq') with ⟨hEq, _⟩ | hOld
        · exact hEq
        · exact absurd rfl (h.cqOnly q' hOld).1
      · rcases update_some_eq_some (hCqs ▸ hq') with ⟨_, hEq⟩ | hOld
        · exact h.ne (Option.some.inj hEq)
        · exact h.cqNever q' hOld
  | createSq =>
      obtain ⟨hCqs, hSqs⟩ := queues_createSq (m.setProgress k (.executed true)) hOp
      rw [hSq hOp] at hSqs
      refine
        { ne := h.ne
          cqIs := fun _ => by rw [hCqs]; exact h.cqIs nofun
          sqIs := fun _ => by rw [hSqs, Function.update_self]
          sqNot := nofun
          idle := fun _ => hIdle nofun
          cqOnly := fun q' hq' => ⟨nofun, (h.cqOnly q' (hCqs ▸ hq')).2⟩
          cqNever := by rw [hCqs]; exact h.cqNever
          sqOnly := fun q' hq' => ⟨rfl, ?_⟩
          sqNever := fun q' hq' => ?_
          fresh := hFresh }
      · rcases update_some_eq_some (hSqs ▸ hq') with ⟨hEq, _⟩ | hOld
        · exact hEq
        · exact nomatch (h.sqOnly q' hOld).1
      · rcases update_some_eq_some (hSqs ▸ hq') with ⟨_, hEq⟩ | hOld
        · exact h.ne (Option.some.inj hEq).symm
        · exact h.sqNever q' hOld
  | deleteSq =>
      obtain ⟨hCqs, hSqs⟩ := queues_deleteSq (m.setProgress k (.executed true)) hOp
      refine
        { ne := h.ne
          cqIs := fun _ => by rw [hCqs]; exact h.cqIs nofun
          sqIs := nofun
          sqNot := fun _ => by rw [hSqs, Function.update_self]
          idle := fun _ => hIdle nofun
          cqOnly := fun q' hq' => ⟨nofun, (h.cqOnly q' (hCqs ▸ hq')).2⟩
          cqNever := by rw [hCqs]; exact h.cqNever
          sqOnly := fun q' hq' => ?_
          sqNever := fun q' hq' => ?_
          fresh := hFresh }
      · obtain ⟨hne, hOld⟩ := update_none_eq_some (hSqs ▸ hq')
        exact absurd (h.sqOnly q' hOld).2 hne
      · exact h.sqNever q' (update_none_eq_some (hSqs ▸ hq')).2
  | deleteCq =>
      obtain ⟨hCqs, hSqs⟩ := queues_deleteCq (m.setProgress k (.executed true)) hOp
      refine
        { ne := h.ne
          cqIs := nofun
          sqIs := nofun
          sqNot := nofun
          idle := nofun
          cqOnly := fun q' hq' => ?_
          cqNever := fun q' hq' => ?_
          sqOnly := fun q' hq' => nomatch (h.sqOnly q' (hSqs ▸ hq')).1
          sqNever := by rw [hSqs]; exact h.sqNever
          fresh := hFresh }
      · obtain ⟨hne, hOld⟩ := update_none_eq_some (hCqs ▸ hq')
        exact absurd (h.cqOnly q' hOld).2 hne
      · exact h.cqNever q' (update_none_eq_some (hCqs ▸ hq')).2

/-- Once the exempt command is complete, nothing is exempt. -/
theorem Stands.settle (h : Stands m q stage rc rs (some k)) (hs : m.sent[k]? = some s)
    (hDone : s.Completed) : Stands m q stage rc rs none := by
  have hExempt : ∀ {j : Nat} {t : Sent}, m.sent[j]? = some t → ¬ t.Completed →
      some j ≠ some k := by
    intro j t ht hOpen hEq
    obtain rfl := Option.some.inj hEq
    exact hOpen (Option.some.inj (hs.symm.trans ht) ▸ hDone)
  exact
    { h with
      idle := fun hStage j t ht _ hW hL =>
        h.idle hStage j t ht (hExempt ht (not_completed hW)) hW hL
      fresh := fun j t ht _ hC hOpen => h.fresh j t ht (hExempt ht hOpen) hC hOpen }

end Pairs

/-! ## What the host does -/

section Host

variable {m m' : Hardware} {cmd : AdminCommand} {q : UInt16} {stage : Stage}
  {rc rs i : Nat}

/-- A command known after a submission was known before, or is the new one. -/
theorem sent_send {j : Nat} {s : Sent} (h : (m.send cmd).sent[j]? = some s) :
    m.sent[j]? = some s ∨ (j = m.sent.length ∧
      s = { cmd := cmd, region := (m.mapped cmd.prp1).map Mapping.number }) := by
  rw [Hardware.send] at h
  exact getElem?_concat_cases h

theorem Orderly.send (h : Orderly m) (hOwnCq : cmd.queueOp = .createSq → cmd.cqid = cmd.qid)
    (hCq : cmd.queueOp.Leans → m.cqs cmd.qid ≠ none)
    (hDelete : cmd.queueOp = .deleteCq → m.sqs cmd.qid = none)
    (hIdle : cmd.queueOp.Leans → ∀ (j : Nat) (s : Sent), m.sent[j]? = some s →
      s.progress = .waiting → s.cmd.queueOp.Leans → s.cmd.qid ≠ cmd.qid) :
    Orderly (m.send cmd) := by
  refine ⟨fun j s hs hW hL => ?_, fun j s hs hW hD => ?_,
    fun j j' s t hs ht hsW htW hsL htL hQid => ?_, fun j s hs hOp => ?_⟩
  · rcases sent_send hs with hOld | ⟨_, rfl⟩
    · exact h.cq j s hOld hW hL
    · exact hCq hL
  · rcases sent_send hs with hOld | ⟨_, rfl⟩
    · exact h.deleteCq j s hOld hW hD
    · exact hDelete hD
  · rcases sent_send hs with hs | ⟨rfl, rfl⟩ <;>
      rcases sent_send ht with ht | ⟨rfl, rfl⟩
    · exact h.single j j' s t hs ht hsW htW hsL htL hQid
    · exact absurd hQid (hIdle htL j s hs hsW hsL)
    · exact absurd hQid.symm (hIdle hsL j' t ht htW htL)
    · rfl
  · rcases sent_send hs with hOld | ⟨_, rfl⟩
    · exact h.ownCq j s hOld hOp
    · exact hOwnCq hOp

theorem QueuesBacked.send (h : QueuesBacked m)
    (hLive : cmd.queueOp.Creates →
      ∃ i mem, (m.mapped cmd.prp1).map Mapping.number = some i ∧ m.Live i mem) :
    QueuesBacked (m.send cmd) := by
  refine ⟨h.attached, h.sq, h.cq, fun j s hs hC hOpen => ?_⟩
  rcases sent_send hs with hOld | ⟨_, rfl⟩
  · exact h.create j s hOld hC hOpen
  · exact hLive hC

/-- The host's own command is exempt from the moment it is submitted. -/
theorem Stands.send_own (h : Stands m q stage rc rs none) :
    Stands (m.send cmd) q stage rc rs (some m.sent.length) := by
  refine { h with idle := fun hStage j s hs hj hW hL => ?_,
                  fresh := fun j s hs hj hC hOpen => ?_ }
  · rcases sent_send hs with hOld | ⟨rfl, _⟩
    · exact h.idle hStage j s hOld nofun hW hL
    · exact absurd rfl hj
  · rcases sent_send hs with hOld | ⟨rfl, _⟩
    · exact h.fresh j s hOld nofun hC hOpen
    · exact absurd rfl hj

theorem Stands.send_other (h : Stands m q stage rc rs none)
    (hQid : stage ≠ .none → cmd.queueOp.Leans → cmd.qid ≠ q)
    (hRegion : cmd.queueOp.Creates →
      (m.mapped cmd.prp1).map Mapping.number ≠ some rc ∧
      (m.mapped cmd.prp1).map Mapping.number ≠ some rs) :
    Stands (m.send cmd) q stage rc rs none := by
  refine { h with idle := fun hStage j s hs hj hW hL => ?_,
                  fresh := fun j s hs hj hC hOpen => ?_ }
  · rcases sent_send hs with hOld | ⟨_, rfl⟩
    · exact h.idle hStage j s hOld hj hW hL
    · exact hQid hStage hL
  · rcases sent_send hs with hOld | ⟨_, rfl⟩
    · exact h.fresh j s hOld hj hC hOpen
    · exact hRegion hC

theorem Unnamed.send (h : Unnamed m i)
    (hRegion : cmd.queueOp.Creates → (m.mapped cmd.prp1).map Mapping.number ≠ some i) :
    Unnamed (m.send cmd) i := by
  refine ⟨h.cq, h.sq, fun j s hs hC hOpen => ?_⟩
  rcases sent_send hs with hOld | ⟨_, rfl⟩
  · exact h.create j s hOld hC hOpen
  · exact hRegion hC

/-- The queues and the commands are the same in both states. -/
structure SameQueues (m m' : Hardware) : Prop where
  sent : m'.sent = m.sent
  sqs : m'.sqs = m.sqs
  cqs : m'.cqs = m.cqs
  attachedTo : m'.attachedTo = m.attachedTo

theorem sameQueues_alloc (m : Hardware) (new : Mem) : SameQueues m (m.alloc new) := by
  unfold Hardware.alloc
  split <;> exact ⟨rfl, rfl, rfl, rfl⟩

theorem Stands.congr {ex : Option Nat} (h : Stands m q stage rc rs ex)
    (hSame : SameQueues m m') : Stands m' q stage rc rs ex := by
  obtain ⟨hSent, hSqs, hCqs, -⟩ := hSame
  refine ⟨h.ne, ?_, ?_, ?_, ?_, ?_, ?_, ?_, ?_, ?_⟩ <;> simp only [hSent, hSqs, hCqs]
  · exact h.cqIs
  · exact h.sqIs
  · exact h.sqNot
  · exact h.idle
  · exact h.cqOnly
  · exact h.cqNever
  · exact h.sqOnly
  · exact h.sqNever
  · exact h.fresh

theorem Unnamed.congr (h : Unnamed m i) (hSame : SameQueues m m') : Unnamed m' i := by
  obtain ⟨hSent, hSqs, hCqs, -⟩ := hSame
  constructor <;> simp only [hSent, hSqs, hCqs]
  · exact h.cq
  · exact h.sq
  · exact h.create

theorem Orderly.congr (h : Orderly m) (hSame : SameQueues m m') : Orderly m' := by
  obtain ⟨hSent, hSqs, hCqs, -⟩ := hSame
  constructor <;> simp only [hSent, hSqs, hCqs]
  · exact h.cq
  · exact h.deleteCq
  · exact h.single
  · exact h.ownCq

theorem QueuesBacked.congr (h : QueuesBacked m) (hSame : SameQueues m m')
    (hLive : ∀ i mem, m.Live i mem →
      (∃ q, m.sqs q = some (some i)) ∨ (∃ q, m.cqs q = some (some i)) ∨
        (∃ (j : Nat) (s : Sent), m.sent[j]? = some s ∧ s.cmd.queueOp.Creates ∧
          ¬ s.Completed ∧ s.region = some i) → m'.Live i mem) : QueuesBacked m' := by
  obtain ⟨hSent, hSqs, hCqs, hTo⟩ := hSame
  constructor <;> simp only [Attached, hSent, hSqs, hCqs, hTo]
  · exact h.attached
  · intro q r hq
    obtain ⟨i, mem, rfl, hi⟩ := h.sq q r hq
    exact ⟨i, mem, rfl, hLive i mem hi (.inl ⟨q, hq⟩)⟩
  · intro q r hq
    obtain ⟨i, mem, rfl, hi⟩ := h.cq q r hq
    exact ⟨i, mem, rfl, hLive i mem hi (.inr (.inl ⟨q, hq⟩))⟩
  · intro j s hs hC hOpen
    obtain ⟨i, mem, hr, hi⟩ := h.create j s hs hC hOpen
    exact ⟨i, mem, hr, hLive i mem hi (.inr (.inr ⟨j, s, hs, hC, hOpen, hr⟩))⟩

theorem QueuesBacked.alloc (h : QueuesBacked m) (new : Mem) : QueuesBacked (m.alloc new) :=
  h.congr (sameQueues_alloc m new) fun _ _ hi _ => hi.alloc new

/-- Memory that nothing uses may be released. -/
theorem QueuesBacked.release (h : QueuesBacked m) (hMaps : m.WellMapped) {mem : Mem}
    (hLive : m.Live i mem) (hUnnamed : Unnamed m i) : QueuesBacked (m.release mem) := by
  refine h.congr ⟨rfl, rfl, rfl, rfl⟩ fun j other hj hUse => ?_
  refine Hardware.live_release_iff.mpr ⟨hj, fun hEq => ?_⟩
  subst hEq
  have hij : i = j := by
    by_contra hne
    exact hMaps.dmaAddr_ne hLive hj hne rfl
  subst hij
  rcases hUse with ⟨q, hq⟩ | ⟨q, hq⟩ | ⟨j, s, hs, hC, hOpen, hr⟩
  · exact hUnnamed.sq q hq
  · exact hUnnamed.cq q hq
  · exact hUnnamed.create j s hs hC hOpen hr

/-- A new allocation is not used by anything yet. -/
theorem QueuesBacked.unnamed_new (h : QueuesBacked m) (new : Mem) :
    Unnamed (m.alloc new) m.regions.length := by
  have hOld : Unnamed m m.regions.length := by
    refine ⟨fun q hq => ?_, fun q hq => ?_, fun j s hs hC hOpen hr => ?_⟩
    · obtain ⟨i, mem, hi, hLive⟩ := h.cq q _ hq
      exact absurd (Option.some.inj hi) (Nat.ne_of_gt hLive.lt_length)
    · obtain ⟨i, mem, hi, hLive⟩ := h.sq q _ hq
      exact absurd (Option.some.inj hi) (Nat.ne_of_gt hLive.lt_length)
    · obtain ⟨i, mem, hi, hLive⟩ := h.create j s hs hC hOpen
      exact absurd (Option.some.inj (hr.symm.trans hi)) (Nat.ne_of_gt hLive.lt_length)
  exact hOld.congr (sameQueues_alloc m new)

/-- A pair without queues is two allocations that nothing uses. -/
theorem stands_none_iff : Stands m q .none rc rs none ↔
    rc ≠ rs ∧ Unnamed m rc ∧ Unnamed m rs := by
  constructor
  · intro h
    refine ⟨h.ne, ⟨fun q' hq' => (h.cqOnly q' hq').1 rfl, h.sqNever, ?_⟩,
      ⟨h.cqNever, fun q' hq' => (nomatch (h.sqOnly q' hq').1), ?_⟩⟩
    · exact fun j s hs hC hOpen => (h.fresh j s hs nofun hC hOpen).1
    · exact fun j s hs hC hOpen => (h.fresh j s hs nofun hC hOpen).2
  · rintro ⟨hne, hc, hs⟩
    exact
      { ne := hne
        cqIs := fun h => absurd rfl h
        sqIs := nofun
        sqNot := nofun
        idle := fun h => absurd rfl h
        cqOnly := fun q' hq' => absurd hq' (hc.cq q')
        cqNever := hs.cq
        sqOnly := fun q' hq' => absurd hq' (hs.sq q')
        sqNever := hc.sq
        fresh := fun j s hj _ hC hOpen =>
          ⟨hc.create j s hj hC hOpen, hs.create j s hj hC hOpen⟩ }

end Host

end NewPerf.Tools
