import Mathlib.Data.List.Basic
import NewPerf.Lib.Logs
import Mathlib.Logic.Function.Basic

/-!
# Ring indices and phase-tagged rings

A ring of depth `d` is indexed by ever-growing positions taken modulo `d`.  The
first section says when two positions share a slot.

The second section is about rings whose producer marks each entry with a phase
bit that alternates from lap to lap, so that the consumer can tell a new entry
from one left over from the previous lap without reading a producer index.
`PhaseRing` is the invariant the producer maintains; `PhaseRing.tag_iff` is what
the consumer may conclude from the tag it reads.
-/

namespace NewPerf.Lib.Ring

open NewPerf.Lib.Logs

/-! ## Positions and slots -/

/-- Positions less than a lap apart share a slot only if they are equal. -/
theorem mod_eq_iff_of_lt {d a b : Nat} (hab : a ≤ b) (hb : b < a + d) :
    b % d = a % d ↔ b = a := by
  constructor
  · intro h
    have hDvd : d ∣ b - a := Nat.dvd_of_mod_eq_zero (Nat.sub_mod_eq_zero_of_mod_eq h)
    have hZero : b - a = 0 := Nat.eq_zero_of_dvd_of_lt hDvd (by omega)
    omega
  · rintro rfl
    rfl

/-- Positions at most a lap apart, and not equal, share a slot only after a
full lap. -/
theorem mod_eq_iff_of_le {d a b : Nat} (hab : a < b) (hb : b ≤ a + d) :
    b % d = a % d ↔ b = a + d := by
  rcases Nat.lt_or_ge b (a + d) with hlt | hge
  · rw [mod_eq_iff_of_lt (Nat.le_of_lt hab) hlt]
    omega
  · have heq : b = a + d := by omega
    rw [heq, Nat.add_mod_right]
    simp

/-- The distance of two positions less than a lap apart, computed from their
slots. -/
theorem occupancy_eq {d a b : Nat} (hab : a ≤ b) (hb : b < a + d) :
    (b % d + d - a % d) % d = b - a := by
  have hd : 0 < d := by omega
  have hA := Nat.mod_lt a hd
  have hB := Nat.mod_lt b hd
  have hMod : b % d = (a % d + (b - a)) % d := by
    rw [Nat.mod_add_mod, Nat.add_sub_cancel' hab]
  rcases Nat.lt_or_ge (a % d + (b - a)) d with hlt | hge
  · rw [hMod, Nat.mod_eq_of_lt hlt,
      show a % d + (b - a) + d - a % d = b - a + d by omega, Nat.add_mod_right]
    exact Nat.mod_eq_of_lt (by omega)
  · have hWrap : b % d = a % d + (b - a) - d := by
      rw [hMod, Nat.mod_eq_sub_mod hge]
      exact Nat.mod_eq_of_lt (by omega)
    rw [hWrap, show a % d + (b - a) - d + d - a % d = b - a by omega]
    exact Nat.mod_eq_of_lt (by omega)

/-! ## Phase-tagged rings -/

/-- The phase bit of position `i` in a ring of depth `d`: one during the first
lap, alternating afterwards. -/
def phaseOf (d i : Nat) : Nat := (i / d + 1) % 2

theorem phaseOf_lt_two (d i : Nat) : phaseOf d i < 2 := Nat.mod_lt _ (by omega)

theorem phaseOf_first {d i : Nat} (h : i < d) : phaseOf d i = 1 := by
  rw [phaseOf, Nat.div_eq_of_lt h]

/-- A lap later the phase bit is the other one. -/
theorem phaseOf_add_depth {d : Nat} (i : Nat) (hd : 0 < d) :
    phaseOf d (i + d) ≠ phaseOf d i := by
  unfold phaseOf
  rw [Nat.add_div_right i hd]
  omega

/-- The phase bit flips exactly when the index returns to zero. -/
theorem phaseOf_succ (d i : Nat) :
    phaseOf d (i + 1) =
      if (i + 1) % d = 0 then 1 - phaseOf d i else phaseOf d i := by
  unfold phaseOf
  rw [Nat.succ_div]
  by_cases hDvd : d ∣ i + 1
  · rw [if_pos hDvd, if_pos (Nat.mod_eq_zero_of_dvd hDvd)]
    omega
  · rw [if_neg hDvd, if_neg fun h => hDvd (Nat.dvd_of_mod_eq_zero h), Nat.add_zero]

variable {α : Type} {d : Nat} {slots : Nat → α} {tag : α → Nat} {log : List α}

/-- The producer's invariant: `log` lists the entries posted so far, each tagged
with the phase of its position, the last lap of them is still in the slots, and
every slot to be written next carries the other phase. -/
structure PhaseRing (d : Nat) (slots : Nat → α) (tag : α → Nat) (log : List α) :
    Prop where
  tagged : ∀ i e, log[i]? = some e → tag e = phaseOf d i
  kept : ∀ i e, log[i]? = some e → log.length ≤ i + d → slots (i % d) = e
  stale : ∀ i, log.length ≤ i → i < log.length + d →
    tag (slots (i % d)) ≠ phaseOf d i

/-- A zeroed ring has posted nothing. -/
theorem PhaseRing.nil (h : ∀ i, i < d → tag (slots i) = 0) :
    PhaseRing d slots tag [] := by
  refine ⟨by simp, by simp, fun i _ hi => ?_⟩
  have hi : i < d := by simpa using hi
  rw [Nat.mod_eq_of_lt hi, phaseOf_first hi, h i hi]
  omega

/-- Posting an entry of the right phase into the next slot. -/
theorem PhaseRing.post (h : PhaseRing d slots tag log) (hd : 0 < d) {e : α}
    (he : tag e = phaseOf d log.length) :
    PhaseRing d (Function.update slots (log.length % d) e) tag (log ++ [e]) := by
  -- Within one lap of the posted position only that position has its slot.
  have hSlot : ∀ i, i < log.length → log.length < i + d →
      i % d ≠ log.length % d := fun i hlt hlap heq => by
    have := (mod_eq_iff_of_lt (Nat.le_of_lt hlt) hlap).mp heq.symm
    omega
  refine ⟨fun i x hx => ?_, fun i x hx hlap => ?_, fun i hlo hhi => ?_⟩
  · rcases getElem?_concat_cases hx with hOld | ⟨rfl, rfl⟩
    · exact h.tagged i x hOld
    · exact he
  · simp only [List.length_append, List.length_singleton] at hlap
    rcases getElem?_concat_cases hx with hOld | ⟨rfl, rfl⟩
    · have hlt : i < log.length := (List.getElem?_eq_some_iff.mp hOld).1
      rw [Function.update_of_ne (hSlot i hlt (by omega))]
      exact h.kept i x hOld (by omega)
    · rw [Function.update_self]
  · simp only [List.length_append, List.length_singleton] at hlo hhi
    by_cases hLap : i = log.length + d
    · -- The slot just written comes round again with the next phase.
      subst hLap
      rw [Nat.add_mod_right, Function.update_self, he]
      exact (phaseOf_add_depth _ hd).symm
    · have hne : i % d ≠ log.length % d := fun heq => by
        have := (mod_eq_iff_of_lt (by omega) (by omega)).mp heq
        omega
      rw [Function.update_of_ne hne]
      exact h.stale i (by omega) (by omega)

/-- What the consumer learns from a tag: the slot of position `r` carries the
phase of `r` exactly when the entry of `r` has been posted. -/
theorem PhaseRing.tag_iff (h : PhaseRing d slots tag log) {r : Nat}
    (hr : r ≤ log.length) (hLap : log.length < r + d) :
    tag (slots (r % d)) = phaseOf d r ↔ r < log.length := by
  constructor
  · intro hTag
    by_contra hNot
    exact h.stale r (by omega) (by omega) hTag
  · intro hlt
    have hx : log[r]? = some log[r] := List.getElem?_eq_getElem hlt
    rw [h.kept r _ hx (by omega)]
    exact h.tagged r _ hx

/-- A slot with the right phase holds the entry of its position. -/
theorem PhaseRing.slot_eq (h : PhaseRing d slots tag log) {r : Nat}
    (hlt : r < log.length) (hLap : log.length < r + d) :
    log[r]? = some (slots (r % d)) := by
  have hx : log[r]? = some log[r] := List.getElem?_eq_getElem hlt
  rw [hx, h.kept r _ hx (by omega)]

end NewPerf.Lib.Ring
