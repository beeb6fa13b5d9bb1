import Mathlib.Algebra.Group.Nat.Defs
import Mathlib.Data.List.Basic

/-!
# Little-endian byte memory

A memory region is a function from byte offsets to bytes.  Program stores are
kept as data (`Store`), so that one list of stores serves two purposes: it
says which bytes a piece of code touches (`Store.Within`), and it can be
replayed on the memory (`applyAll`) to see what a reader finds afterwards.

The reader is `read`, which assembles a little-endian number of any width.
The two facts every client needs are `read_apply_part` (a store is read back,
whole or in part) and `read_apply_of_disjoint` (a store elsewhere is
invisible).
-/

namespace NewPerf.Lib.LeMemory

/-- Byte contents of a region, indexed by offset from its base. -/
abbrev Bytes := Nat → UInt8

/-- A store of the low `width` bytes of `value`, least significant first, at
byte offset `off`. -/
structure Store where
  off : Nat
  width : Nat
  value : Nat
  deriving DecidableEq, Repr

/-- Every byte the store touches lies in `[lo, hi)`. -/
def Store.Within (s : Store) (lo hi : Nat) : Prop :=
  lo ≤ s.off ∧ s.off + s.width ≤ hi

instance (s : Store) (lo hi : Nat) : Decidable (s.Within lo hi) := by
  unfold Store.Within
  infer_instance

/-- No byte the store touches lies in `[lo, hi)`. -/
def Store.Avoids (s : Store) (lo hi : Nat) : Prop :=
  s.off + s.width ≤ lo ∨ hi ≤ s.off

instance (s : Store) (lo hi : Nat) : Decidable (s.Avoids lo hi) := by
  unfold Store.Avoids
  infer_instance

/-- The store counted from a point `base` bytes before the one its offset is from. -/
def Store.shift (base : Nat) (s : Store) : Store := { s with off := base + s.off }

/-- Perform one store. -/
def Store.apply (s : Store) (m : Bytes) : Bytes := fun a =>
  if s.off ≤ a ∧ a < s.off + s.width then
    UInt8.ofNat (s.value / 256 ^ (a - s.off))
  else m a

/-- Perform a list of stores in program order. -/
def applyAll (ss : List Store) (m : Bytes) : Bytes :=
  ss.foldl (fun m s => s.apply m) m

@[simp] theorem applyAll_nil (m : Bytes) : applyAll [] m = m := rfl

@[simp] theorem applyAll_cons (s : Store) (ss : List Store) (m : Bytes) :
    applyAll (s :: ss) m = applyAll ss (s.apply m) := rfl

theorem applyAll_append (ss ts : List Store) (m : Bytes) :
    applyAll (ss ++ ts) m = applyAll ts (applyAll ss m) :=
  List.foldl_append

/-- Little-endian read of `width` bytes at `off`. -/
def read (m : Bytes) (off : Nat) : Nat → Nat
  | 0 => 0
  | width + 1 => (m off).toNat + 256 * read m (off + 1) width

theorem apply_of_outside (s : Store) (m : Bytes) (a : Nat)
    (h : a < s.off ∨ s.off + s.width ≤ a) : s.apply m a = m a := by
  unfold Store.apply
  rw [if_neg (by omega)]

/-- A read depends only on the bytes it covers. -/
theorem read_congr (m m' : Bytes) (off width : Nat)
    (h : ∀ a, off ≤ a → a < off + width → m a = m' a) :
    read m off width = read m' off width := by
  induction width generalizing off with
  | zero => rfl
  | succ width ih =>
      have hHead : m off = m' off := h off (by omega) (by omega)
      have hTail : read m (off + 1) width = read m' (off + 1) width :=
        ih (off + 1) fun a hlo hhi => h a (by omega) (by omega)
      simp only [read, hHead, hTail]

/-- Stores that stay out of `[lo, hi)` leave its bytes alone. -/
theorem applyAll_of_outside (ss : List Store) (m : Bytes) (lo hi : Nat)
    (h : ∀ s ∈ ss, s.off + s.width ≤ lo ∨ hi ≤ s.off)
    (a : Nat) (hlo : lo ≤ a) (hhi : a < hi) : applyAll ss m a = m a := by
  induction ss generalizing m with
  | nil => rfl
  | cons s ss ih =>
      rw [applyAll_cons, ih _ fun s' hs' => h s' (by simp [hs'])]
      exact apply_of_outside s m a (by have := h s (by simp); omega)

/-- What is stored does not depend on what was there before. -/
theorem applyAll_touched {ss : List Store} {s : Store} {a : Nat} (hs : s ∈ ss)
    (hlo : s.off ≤ a) (hhi : a < s.off + s.width) (m m' : Bytes) :
    applyAll ss m a = applyAll ss m' a := by
  have hCongr : ∀ (ts : List Store) (m m' : Bytes), m a = m' a →
      applyAll ts m a = applyAll ts m' a := by
    intro ts
    induction ts with
    | nil => exact fun m m' h => h
    | cons t ts ih =>
        intro m m' h
        refine ih _ _ ?_
        simp only [Store.apply, h]
  induction ss generalizing m m' with
  | nil => cases hs
  | cons t ts ih =>
      rcases List.mem_cons.mp hs with rfl | hMem
      · refine hCongr ts _ _ ?_
        simp only [Store.apply, if_pos (And.intro hlo hhi)]
      · exact ih hMem _ _

/-- What the stores leave in memory whose first byte is their offset `base`. -/
def seenFrom (base : Nat) (ss : List Store) (m : Bytes) : Bytes := fun a =>
  applyAll ss (fun _ => m a) (base + a)

/-- Stores that end before `base` are not seen from there. -/
theorem seenFrom_of_below {base : Nat} {ss : List Store} (m : Bytes)
    (h : ∀ s ∈ ss, s.off + s.width ≤ base) : seenFrom base ss m = m := by
  funext a
  exact applyAll_of_outside ss _ base (base + a + 1) (fun s hs => Or.inl (h s hs)) _
    (Nat.le_add_right _ _) (Nat.lt_succ_self _)

/-- Stores that are there already change nothing. -/
theorem applyAll_of_stored {ss : List Store} {m m' : Bytes}
    (h : ∀ s ∈ ss, ∀ a, s.off ≤ a → a < s.off + s.width → m' a = applyAll ss m a) :
    applyAll ss m' = m' := by
  funext a
  by_cases hTouched : ∃ s ∈ ss, s.off ≤ a ∧ a < s.off + s.width
  · obtain ⟨s, hs, hlo, hhi⟩ := hTouched
    rw [h s hs a hlo hhi, applyAll_touched hs hlo hhi m' m]
  · refine applyAll_of_outside ss m' a (a + 1) (fun s hs => ?_) a (Nat.le_refl a)
      (Nat.lt_succ_self a)
    by_contra hNot
    exact hTouched ⟨s, hs, by omega, by omega⟩

/-- A store is invisible to a read of other bytes. -/
theorem read_apply_of_disjoint (s : Store) (m : Bytes) (off width : Nat)
    (h : s.off + s.width ≤ off ∨ off + width ≤ s.off) :
    read (s.apply m) off width = read m off width :=
  read_congr _ _ off width fun a _ _ => apply_of_outside s m a (by omega)

/-- Reading `width` bytes from the `k`-th byte of a stored number on sees that
part of its value. -/
theorem read_apply_part (s : Store) (m : Bytes) (k width : Nat)
    (h : k + width ≤ s.width) :
    read (s.apply m) (s.off + k) width = s.value / 256 ^ k % 256 ^ width := by
  induction width generalizing k with
  | zero => simp [read, Nat.mod_one]
  | succ width ih =>
      have hByte : s.apply m (s.off + k) = UInt8.ofNat (s.value / 256 ^ k) := by
        unfold Store.apply
        rw [if_pos (by omega), Nat.add_sub_cancel_left]
      have hRest := ih (k + 1) (by omega)
      rw [← Nat.add_assoc] at hRest
      rw [read, hByte, hRest, Nat.pow_succ 256 k, ← Nat.div_div_eq_div_mul,
        Nat.pow_succ 256 width, Nat.mul_comm (256 ^ width) 256, Nat.mod_mul]
      simp

/-- A store is read back, truncated to its width. -/
theorem read_apply_self (s : Store) (m : Bytes) :
    read (s.apply m) s.off s.width = s.value % 256 ^ s.width := by
  simpa using read_apply_part s m 0 s.width (by omega)

/-- Stores elsewhere are invisible to a read. -/
theorem read_applyAll_of_avoids (ss : List Store) (m : Bytes) (off width : Nat)
    (h : ∀ s ∈ ss, s.Avoids off (off + width)) :
    read (applyAll ss m) off width = read m off width :=
  read_congr _ _ off width fun a hlo hhi => applyAll_of_outside ss m off (off + width) h a hlo hhi

/-- A read sees the last store that touches it. -/
theorem read_applyAll {ss : List Store} {j off width value a w v : Nat}
    (hs : ss[j]? = some ⟨off, width, value⟩) (m : Bytes) (k : Nat) (ha : a = off + k)
    (hPart : k + w ≤ width) (hValue : value / 256 ^ k % 256 ^ w = v)
    (hLater : ∀ t ∈ ss.drop (j + 1), t.Avoids a (a + w)) : read (applyAll ss m) a w = v := by
  obtain ⟨hj, hAt⟩ := List.getElem?_eq_some_iff.mp hs
  have hSplit : ss = ss.take j ++ ⟨off, width, value⟩ :: ss.drop (j + 1) := by
    rw [← hAt, List.getElem_cons_drop, List.take_append_drop]
  rw [hSplit, applyAll_append, applyAll_cons, read_applyAll_of_avoids _ _ _ _ hLater, ha,
    ← hValue]
  exact read_apply_part ⟨off, width, value⟩ _ k w hPart

/-- A value that fits is read back if nothing is stored over it. -/
theorem read_stored {ss : List Store} {j off width value : Nat}
    (hs : ss[j]? = some ⟨off, width, value⟩) (m : Bytes) (hFits : value < 256 ^ width)
    (hLater : ∀ t ∈ ss.drop (j + 1), t.Avoids off (off + width)) :
    read (applyAll ss m) off width = value := by
  refine read_applyAll hs m 0 rfl (by omega) ?_ hLater
  rw [Nat.pow_zero, Nat.div_one, Nat.mod_eq_of_lt hFits]

/-- A wide read from two narrow ones. -/
theorem read_add (m : Bytes) (off a b : Nat) :
    read m off (a + b) = read m off a + 256 ^ a * read m (off + a) b := by
  induction a generalizing off with
  | zero => simp [read]
  | succ a ih =>
      rw [Nat.succ_add, read, ih (off + 1), read, Nat.pow_succ, Nat.mul_add,
        show off + 1 + a = off + (a + 1) by omega]
      rw [Nat.mul_comm (256 ^ a) 256, Nat.mul_assoc, Nat.add_assoc]

theorem read_lt (m : Bytes) (off width : Nat) : read m off width < 256 ^ width := by
  induction width generalizing off with
  | zero => exact Nat.one_pos
  | succ width ih =>
      have hByte := (m off).toNat_lt
      have hRest := ih (off + 1)
      rw [read, Nat.pow_succ]
      omega

/-! ## Stores laid end to end -/

/-- The stores fill `[lo, lo + len)` from left to right without a gap. -/
inductive Tiles : List Store → Nat → Nat → Prop where
  | nil {lo : Nat} : Tiles [] lo 0
  | cons {s : Store} {ss : List Store} {len : Nat} (hWidth : 0 < s.width)
      (hRest : Tiles ss (s.off + s.width) len) :
      Tiles (s :: ss) s.off (s.width + len)

theorem Tiles.append {ss ts : List Store} {lo len len' : Nat} (h : Tiles ss lo len)
    (h' : Tiles ts (lo + len) len') : Tiles (ss ++ ts) lo (len + len') := by
  induction h with
  | nil => simpa using h'
  | cons hWidth hRest ih =>
      rw [Nat.add_assoc]
      exact .cons hWidth (ih (by rwa [Nat.add_assoc]))

/-- Number of bytes the stores write if no byte is written twice. -/
def storedBytes : List Store → Nat
  | [] => 0
  | st :: ss => st.width + storedBytes ss

/-- The widths of the stores add up to what they fill. -/
theorem Tiles.storedBytes_eq {ss : List Store} {lo len : Nat} (h : Tiles ss lo len) :
    storedBytes ss = len := by
  induction h with
  | nil => rfl
  | cons hWidth hRest ih => rw [storedBytes, ih]

/-- The stores stay below `hi` exactly when the filled range ends there. -/
theorem Tiles.within_iff {ss : List Store} {lo len a : Nat} (h : Tiles ss lo len)
    (hi : Nat) (ha : a ≤ lo) :
    (∀ s ∈ ss, s.Within a hi) ↔ len = 0 ∨ lo + len ≤ hi := by
  induction h with
  | nil => simp
  | cons hWidth hRest ih =>
      rw [List.forall_mem_cons, ih (by omega), Store.Within]
      omega

/-- The stores avoid a non-empty range exactly when the filled range does. -/
theorem Tiles.avoids_iff {ss : List Store} {lo len a b : Nat} (h : Tiles ss lo len)
    (hab : a < b) :
    (∀ s ∈ ss, s.Avoids a b) ↔ len = 0 ∨ lo + len ≤ a ∨ b ≤ lo := by
  induction h with
  | nil => simp
  | cons hWidth hRest ih =>
      rw [List.forall_mem_cons, ih, Store.Avoids]
      omega

end NewPerf.Lib.LeMemory
