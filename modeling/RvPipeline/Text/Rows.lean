import Mathlib.Data.List.Basic
import Mathlib.Tactic.Common

/-!
# Rows of fixed width

Consecutive numbers cut into rows of at most `w`, as pairs of a first number and
a length.

Results:

* `rowsOf_isRows`: no row is empty or longer than `w`, and together they are the
  numbers in order.
-/

namespace RvPipeline.Text

/-- `rows` cut the numbers from `start` on, up to `stop`, into pieces of at most `w`. -/
structure IsRows (w start stop : ℕ) (rows : List (ℕ × ℕ)) : Prop where
  width : ∀ r ∈ rows, 0 < r.2 ∧ r.2 ≤ w
  numbers : rows.flatMap (fun r => List.range' r.1 r.2) = List.range' start (stop - start)

/-- The rows of width `w`, filled one after the other. -/
def rowsOf (w start stop : ℕ) : List (ℕ × ℕ) :=
  if 0 < w ∧ start < stop then (start, min w (stop - start)) :: rowsOf w (start + w) stop
  else []
termination_by stop - start

variable {w start stop : ℕ}

theorem rowsOf_of_lt (hw : 0 < w) (h : start < stop) :
    rowsOf w start stop = (start, min w (stop - start)) :: rowsOf w (start + w) stop := by
  rw [rowsOf, if_pos ⟨hw, h⟩]

theorem rowsOf_of_le (h : stop ≤ start) : rowsOf w start stop = [] := by
  rw [rowsOf, if_neg (by omega)]

/-- **The rows** are complete. -/
theorem rowsOf_isRows (hw : 0 < w) (start stop : ℕ) : IsRows w start stop (rowsOf w start stop) := by
  induction hn : stop - start using Nat.strongRecOn generalizing start with
  | ind n ih =>
    rcases Nat.lt_or_ge start stop with hlt | hge
    · obtain ⟨hwidth, hnumbers⟩ := ih (stop - (start + w)) (by omega) (start + w) rfl
      rw [rowsOf_of_lt hw hlt]
      refine ⟨?_, ?_⟩
      · rintro r (_ | ⟨_, hr⟩)
        · exact ⟨Nat.lt_min.mpr ⟨hw, by omega⟩, Nat.min_le_left _ _⟩
        · exact hwidth r hr
      · rw [List.flatMap_cons, hnumbers]
        rcases Nat.le_total w (stop - start) with hle | hle
        · -- a full row
          rw [Nat.min_eq_left hle, List.range'_append_1]
          congr 1
          omega
        · -- the last row
          have hdone : stop - (start + w) = 0 := by omega
          rw [Nat.min_eq_right hle, hdone, List.range'_zero, List.append_nil]
    · rw [rowsOf_of_le hge]
      have hdone : stop - start = 0 := by omega
      refine ⟨fun r hr => absurd hr List.not_mem_nil, ?_⟩
      rw [hdone, List.flatMap_nil, List.range'_zero]

end RvPipeline.Text
