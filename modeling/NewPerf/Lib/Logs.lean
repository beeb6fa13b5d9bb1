import Mathlib.Algebra.Group.Nat.Defs
import Mathlib.Data.List.Basic

/-!
# Logs

A log is a list that only grows at its end, so that an element keeps its number.
-/

namespace NewPerf.Lib.Logs

variable {α : Type} {l : List α} {x y : α} {k : Nat}

theorem getElem?_concat_eq (l : List α) (x : α) (k : Nat) :
    (l ++ [x])[k]? = if k = l.length then some x else l[k]? := by
  rcases Nat.lt_trichotomy k l.length with hlt | heq | hgt
  · rw [List.getElem?_append_left hlt, if_neg (by omega)]
  · rw [heq, List.getElem?_concat_length, if_pos rfl]
  · rw [List.getElem?_eq_none (by simp; omega), if_neg (by omega),
      List.getElem?_eq_none (by omega)]

/-- What stands in a log that was extended. -/
theorem getElem?_concat_cases (h : (l ++ [x])[k]? = some y) :
    l[k]? = some y ∨ k = l.length ∧ y = x := by
  rw [getElem?_concat_eq] at h
  split at h
  · rename_i hk
    exact .inr ⟨hk, (Option.some.inj h).symm⟩
  · exact .inl h

/-- What stood there stands there still. -/
theorem getElem?_concat_of_some (h : l[k]? = some y) (x : α) : (l ++ [x])[k]? = some y := by
  rw [List.getElem?_append_left (List.getElem?_eq_some_iff.mp h).1]
  exact h

end NewPerf.Lib.Logs
