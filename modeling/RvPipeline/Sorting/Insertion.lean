import Mathlib.Data.List.Basic
import Mathlib.Order.Lattice

/-!
# Inserting by shifting

An element moves into an ascending list from behind: larger elements are shifted to make
room, one after another, until its place is found.

Results:

* `Inserting.shift`: one more element is shifted.
* `Inserting.done`: the place has been found.
-/

namespace RvPipeline.Sorting

variable {α β : Type} [LinearOrder β] {key : α → β} {p s : List α} {value y : α}

/-- The keys ascend. -/
def Ascending (key : α → β) (l : List α) : Prop := l.Pairwise fun x y => key x ≤ key y

/-- On the way of `value` into an ascending list, `s` has been shifted, and `p` has not. -/
structure Inserting (key : α → β) (p : List α) (value : α) (s : List α) : Prop where
  ascending : Ascending key (p ++ s)
  larger : ∀ x ∈ s, key value < key x

theorem Inserting.start (h : Ascending key p) : Inserting key p value [] :=
  ⟨by rwa [List.append_nil], fun _ hx => absurd hx List.not_mem_nil⟩

/-- **Shift** the last element in front. -/
theorem Inserting.shift (h : Inserting key (p ++ [y]) value s) (hy : key value < key y) :
    Inserting key p value (y :: s) := by
  refine ⟨?_, fun x hx => ?_⟩
  · rw [List.append_cons]
    exact h.ascending
  · rcases List.mem_cons.mp hx with rfl | hx
    · exact hy
    · exact h.larger x hx

/-- **The place is found** behind an element that is not larger, or at the front. -/
theorem Inserting.done (h : Inserting key p value s)
    (hlast : ∀ y ∈ p.getLast?, key y ≤ key value) : Ascending key (p ++ value :: s) := by
  obtain ⟨hp, hs, hps⟩ := List.pairwise_append.mp h.ascending
  have hle : ∀ x ∈ p, key x ≤ key value := by
    intro x hx
    rcases p.eq_nil_or_concat' with rfl | ⟨q, y, rfl⟩
    · exact absurd hx List.not_mem_nil
    · have hy : key y ≤ key value := hlast y (by simp)
      rcases List.mem_append.mp hx with hx | hx
      · exact le_trans ((List.pairwise_append.mp hp).2.2 x hx y (List.mem_singleton_self y)) hy
      · rw [List.mem_singleton.mp hx]
        exact hy
  refine List.pairwise_append.mpr ⟨hp, List.pairwise_cons.mpr ⟨?_, hs⟩, ?_⟩
  · exact fun x hx => le_of_lt (h.larger x hx)
  · intro x hx y hy
    rcases List.mem_cons.mp hy with rfl | hy
    · exact hle x hx
    · exact hps x hx y hy

/-- A shift keeps all elements. -/
theorem perm_shift (p s : List α) (value y : α) :
    (p ++ value :: y :: s).Perm (p ++ [y] ++ value :: s) := by
  rw [List.append_assoc]
  exact List.Perm.append_left p (.swap y value s)

end RvPipeline.Sorting
