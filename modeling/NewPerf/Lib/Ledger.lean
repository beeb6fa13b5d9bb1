import Mathlib.Data.Finset.Basic
import Mathlib.Data.Finset.Lattice.Lemmas
import Mathlib.Data.Finset.SDiff

/-!
# Resources that need one another

Code that sets things up in an order and takes them down in another has a ledger: the set
of what is held at the moment.  Some things cannot be there without others, `needs` says
which.  A ledger is `Sound` if everything in it has what it needs; something may be gained
if it is not held yet and its needs are met (`MayGain`), and things may be lost if they are
held and nothing that stays needs them (`MayLose`).

`onTop base rs` is the ledger of a function in the middle of its work: what it found when it
was called, and what it holds beyond that.  The rules about it ask for facts about `rs`
only, which the text of the function shows.  `Own` adds that nothing is owned twice, and
lets a function hand a part of what it owns to one it calls.
-/

namespace NewPerf.Lib.Ledger

variable {ρ : Type} [DecidableEq ρ] {needs : ρ → List ρ} {held base : Finset ρ} {r : ρ}
  {rs lost : List ρ}

/-- Everything held has what it needs. -/
def Sound (needs : ρ → List ρ) (held : Finset ρ) : Prop :=
  ∀ r ∈ held, ∀ q ∈ needs r, q ∈ held

def MayGain (needs : ρ → List ρ) (held : Finset ρ) (r : ρ) : Prop :=
  r ∉ held ∧ ∀ q ∈ needs r, q ∈ held

def MayLose (needs : ρ → List ρ) (held : Finset ρ) (lost : List ρ) : Prop :=
  (∀ r ∈ lost, r ∈ held) ∧ ∀ r ∈ held, r ∉ lost → ∀ q ∈ needs r, q ∉ lost

instance decidableMayGain (needs : ρ → List ρ) (held : Finset ρ) (r : ρ) :
    Decidable (MayGain needs held r) :=
  inferInstanceAs (Decidable (_ ∧ _))

instance decidableMayLose (needs : ρ → List ρ) (held : Finset ρ) (lost : List ρ) :
    Decidable (MayLose needs held lost) :=
  inferInstanceAs (Decidable (_ ∧ _))

/-- The ledger without what is lost. -/
def lose (held : Finset ρ) (lost : List ρ) : Finset ρ := held.filter (· ∉ lost)

@[simp] theorem mem_lose : r ∈ lose held lost ↔ r ∈ held ∧ r ∉ lost :=
  Finset.mem_filter

theorem Sound.insert (h : Sound needs held) (hMay : MayGain needs held r) :
    Sound needs (insert r held) := by
  intro r' hr' q hq
  rcases Finset.mem_insert.mp hr' with rfl | hOld
  · exact Finset.mem_insert_of_mem (hMay.2 q hq)
  · exact Finset.mem_insert_of_mem (h r' hOld q hq)

theorem Sound.lose (h : Sound needs held)
    (hStay : ∀ r ∈ held, r ∉ lost → ∀ q ∈ needs r, q ∉ lost) :
    Sound needs (lose held lost) := by
  intro r hr q hq
  obtain ⟨hHeld, hKept⟩ := mem_lose.mp hr
  exact mem_lose.mpr ⟨h r hHeld q hq, hStay r hHeld hKept q hq⟩

/-! ## In the middle of a function -/

/-- What was there before, and `rs`. -/
def onTop (base : Finset ρ) (rs : List ρ) : Finset ρ := base ∪ rs.toFinset

@[simp] theorem mem_onTop : r ∈ onTop base rs ↔ r ∈ base ∨ r ∈ rs := by
  rw [onTop, Finset.mem_union, List.mem_toFinset]

@[simp] theorem onTop_nil : onTop base [] = base := by
  rw [onTop, List.toFinset_nil, Finset.union_empty]

theorem insert_onTop : insert r (onTop base rs) = onTop base (r :: rs) := by
  ext q
  simp only [Finset.mem_insert, mem_onTop, List.mem_cons]
  tauto

/-- What a function gives back of its own leaves the base alone. -/
theorem lose_onTop (hNew : ∀ r ∈ lost, r ∉ base) :
    lose (onTop base rs) lost = onTop base (rs.filter (· ∉ lost)) := by
  ext q
  simp only [mem_lose, mem_onTop, List.mem_filter, decide_eq_true_eq]
  constructor
  · rintro ⟨hBase | hOwn, hKept⟩
    · exact .inl hBase
    · exact .inr ⟨hOwn, hKept⟩
  · rintro (hBase | ⟨hOwn, hKept⟩)
    · exact ⟨.inl hBase, fun hLost => hNew q hLost hBase⟩
    · exact ⟨.inr hOwn, hKept⟩

theorem mayGain_onTop (hNew : r ∉ base) (hOwn : r ∉ rs)
    (hNeeds : ∀ q ∈ needs r, q ∈ base ∨ q ∈ rs) : MayGain needs (onTop base rs) r :=
  ⟨fun hMem => (mem_onTop.mp hMem).elim hNew hOwn, fun q hq => mem_onTop.mpr (hNeeds q hq)⟩

/-- A sound base needs nothing of what has come on top of it. -/
theorem mayLose_onTop (h : Sound needs base) (hNew : ∀ r ∈ lost, r ∉ base)
    (hOwn : ∀ r ∈ lost, r ∈ rs) (hStay : ∀ r ∈ rs, r ∉ lost → ∀ q ∈ needs r, q ∉ lost) :
    MayLose needs (onTop base rs) lost := by
  refine ⟨fun r hr => mem_onTop.mpr (.inr (hOwn r hr)), fun r hr hKept q hq hLost => ?_⟩
  rcases mem_onTop.mp hr with hBase | hTop
  · exact hNew q hLost (h r hBase q hq)
  · exact hStay r hTop hKept q hq hLost

/-- A ledger from which a part is set apart. -/
theorem onTop_lose (hPart : ∀ r ∈ rs, r ∈ held) : onTop (lose held rs) rs = held := by
  ext q
  simp only [mem_onTop, mem_lose]
  constructor
  · rintro (⟨hHeld, -⟩ | hOwn)
    · exact hHeld
    · exact hPart q hOwn
  · intro hHeld
    by_cases hOwn : q ∈ rs
    · exact .inr hOwn
    · exact .inl ⟨hHeld, hOwn⟩

/-! ## What a function owns -/

theorem onTop_perm {rs' : List ρ} (h : rs.Perm rs') : onTop base rs = onTop base rs' := by
  ext q
  rw [mem_onTop, mem_onTop, h.mem_iff]

theorem onTop_onTop (rs' : List ρ) : onTop (onTop base rs) rs' = onTop base (rs' ++ rs) := by
  ext q
  simp only [mem_onTop, List.mem_append]
  tauto

/-- A function that found `base` owns `rs`, each of them once. -/
structure Own (needs : ρ → List ρ) (base : Finset ρ) (rs : List ρ) : Prop where
  ground : Sound needs base
  sound : Sound needs (onTop base rs)
  nodup : rs.Nodup
  fresh : ∀ r ∈ rs, r ∉ base

theorem Own.nil (h : Sound needs base) : Own needs base [] where
  ground := h
  sound := by rwa [onTop_nil]
  nodup := .nil
  fresh r hr := absurd hr List.not_mem_nil

theorem Own.perm {rs' : List ρ} (h : Own needs base rs) (hPerm : rs.Perm rs') :
    Own needs base rs' where
  ground := h.ground
  sound := by rw [← onTop_perm hPerm]; exact h.sound
  nodup := hPerm.nodup_iff.mp h.nodup
  fresh r hr := h.fresh r (hPerm.mem_iff.mpr hr)

theorem Own.gain (h : Own needs base rs) (hMay : MayGain needs (onTop base rs) r) :
    Own needs base (r :: rs) where
  ground := h.ground
  sound := by rw [← insert_onTop]; exact h.sound.insert hMay
  nodup := List.nodup_cons.mpr ⟨fun hr => hMay.1 (mem_onTop.mpr (.inr hr)), h.nodup⟩
  fresh q hq := by
    rcases List.mem_cons.mp hq with rfl | hOld
    · exact fun hBase => hMay.1 (mem_onTop.mpr (.inl hBase))
    · exact h.fresh q hOld

section Giving

variable {top below : List ρ}

theorem Own.lose_eq (h : Own needs base (top ++ r :: below)) :
    Ledger.lose (onTop base (top ++ r :: below)) [r] = onTop base (top ++ below) := by
  have hNodup := List.nodup_middle.mp h.nodup
  have hOut : r ∉ top ++ below := (List.nodup_cons.mp hNodup).1
  have hBase : r ∉ base := h.fresh r (by simp)
  ext q
  simp only [mem_lose, mem_onTop, List.mem_append, List.mem_cons,
    List.not_mem_nil, or_false]
  constructor
  · rintro ⟨hOld | hLeft | rfl | hRight, hNe⟩
    · exact .inl hOld
    · exact .inr (.inl hLeft)
    · exact absurd rfl hNe
    · exact .inr (.inr hRight)
  · rintro (hOld | hLeft | hRight)
    · exact ⟨.inl hOld, fun hEq => hBase (hEq ▸ hOld)⟩
    · exact ⟨.inr (.inl hLeft), fun hEq => hOut (hEq ▸ List.mem_append_left _ hLeft)⟩
    · exact ⟨.inr (.inr (.inr hRight)), fun hEq => hOut (hEq ▸ List.mem_append_right _ hRight)⟩

/-- What a function owns it may give back once nothing else that it owns needs it. -/
theorem Own.mayLose (h : Own needs base (top ++ r :: below))
    (hFree : ∀ q ∈ top ++ below, r ∉ needs q) (hSelf : r ∉ needs r) :
    MayLose needs (onTop base (top ++ r :: below)) [r] := by
  refine mayLose_onTop h.ground (fun q hq => ?_) (fun q hq => ?_) fun q hq hKept x hx hLost => ?_
  · rw [List.mem_singleton.mp hq]
    exact h.fresh r (by simp)
  · rw [List.mem_singleton.mp hq]
    simp
  · rw [List.mem_singleton.mp hLost] at hx
    by_cases hEq : q = r
    · exact hSelf (hEq ▸ hx)
    · refine hFree q ?_ hx
      simpa [hEq] using hq

theorem Own.lose (h : Own needs base (top ++ r :: below))
    (hFree : ∀ q ∈ top ++ below, r ∉ needs q) (hSelf : r ∉ needs r) :
    Own needs base (top ++ below) where
  ground := h.ground
  sound := h.lose_eq ▸ h.sound.lose (h.mayLose hFree hSelf).2
  nodup := (List.nodup_cons.mp (List.nodup_middle.mp h.nodup)).2
  fresh q hq := h.fresh q (List.perm_middle.mem_iff.mpr (List.mem_cons_of_mem _ hq))

/-- A part that does without the rest stands on its own. -/
theorem Own.rest (h : Own needs base (top ++ below))
    (hFree : ∀ r ∈ below, ∀ q ∈ needs r, q ∉ top) : Own needs base below where
  ground := h.ground
  sound r hr q hq := by
    rcases mem_onTop.mp hr with hBase | hRight
    · exact mem_onTop.mpr (.inl (h.ground r hBase q hq))
    · have hMem := h.sound r (mem_onTop.mpr (.inr (List.mem_append_right _ hRight))) q hq
      rcases mem_onTop.mp hMem with hBase | hOwn
      · exact mem_onTop.mpr (.inl hBase)
      · exact mem_onTop.mpr
          (.inr ((List.mem_append.mp hOwn).resolve_left (hFree r hRight q hq)))
  nodup := (List.nodup_append.mp h.nodup).2.1
  fresh r hr := h.fresh r (List.mem_append_right _ hr)

/-- A function is called that is given a part. -/
theorem Own.split (h : Own needs base (top ++ below))
    (hFree : ∀ r ∈ below, ∀ q ∈ needs r, q ∉ top) : Own needs (onTop base below) top where
  ground := (h.rest hFree).sound
  sound := by rw [onTop_onTop]; exact h.sound
  nodup := (List.nodup_append.mp h.nodup).1
  fresh r hr hMem := by
    rcases mem_onTop.mp hMem with hBase | hRight
    · exact h.fresh r (List.mem_append_left _ hr) hBase
    · exact (List.nodup_append.mp h.nodup).2.2 r hr r hRight rfl

/-- And it returns with what it owns. -/
theorem Own.join (h : Own needs base below) (h' : Own needs (onTop base below) top) :
    Own needs base (top ++ below) where
  ground := h.ground
  sound := by rw [← onTop_onTop]; exact h'.sound
  nodup := List.nodup_append.mpr ⟨h'.nodup, h.nodup, fun r hr q hq hEq =>
    h'.fresh r hr (mem_onTop.mpr (.inr (hEq ▸ hq)))⟩
  fresh r hr hBase := by
    rcases List.mem_append.mp hr with hLeft | hRight
    · exact h'.fresh r hLeft (mem_onTop.mpr (.inl hBase))
    · exact h.fresh r hRight hBase

end Giving

end NewPerf.Lib.Ledger
