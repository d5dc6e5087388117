import Mathlib.Data.List.Basic
import Mathlib.Tactic.Common

/-!
# Maximal runs

The maximal runs of `true` in a sequence of Booleans that is `false` from some
point on, as pairs of a start and a length.

Results:

* `MaximalRuns.unique`: the runs are determined by the sequence.
* `MaximalRuns.mem_iff`: they cover exactly the positions that are `true`.
* `MaximalRuns.separated`: they are in order, and do not touch each other.
-/

namespace RvPipeline.Text

/-- `runs` are the maximal runs of `f` from position `a` on, in order. -/
inductive MaximalRuns (f : ℕ → Bool) : ℕ → List (ℕ × ℕ) → Prop
  | done {a : ℕ} : (∀ i, a ≤ i → f i = false) → MaximalRuns f a []
  | run {a s e : ℕ} {runs : List (ℕ × ℕ)} : a ≤ s → (∀ i, a ≤ i → i < s → f i = false) → s < e →
      (∀ i, s ≤ i → i < e → f i = true) → f e = false → MaximalRuns f e runs →
      MaximalRuns f a ((s, e - s) :: runs)

namespace MaximalRuns

variable {f : ℕ → Bool} {a : ℕ} {runs runs' : List (ℕ × ℕ)}

/-- **The runs are unique.** -/
theorem unique (h : MaximalRuns f a runs) (h' : MaximalRuns f a runs') : runs = runs' := by
  induction h generalizing runs' with
  | @done a hnone =>
    cases h' with
    | done => rfl
    | @run _ s e _ has _ hse htrue =>
      have hs := htrue s (Nat.le_refl s) hse
      rw [hnone s has] at hs
      cases hs
  | @run a s e runs has hgap hse htrue hend _ ih =>
    cases h' with
    | done hnone =>
      have hs := htrue s (Nat.le_refl s) hse
      rw [hnone s has] at hs
      cases hs
    | @run _ s' e' runs' has' hgap' hse' htrue' hend' hrest' =>
      -- the first position that is `true`
      have hss : s = s' := by
        rcases Nat.lt_trichotomy s s' with hlt | heq | hlt
        · have hs := htrue s (Nat.le_refl s) hse
          rw [hgap' s has hlt] at hs
          cases hs
        · exact heq
        · have hs := htrue' s' (Nat.le_refl s') hse'
          rw [hgap s' has' hlt] at hs
          cases hs
      subst hss
      -- the first one behind it that is not
      have hee : e = e' := by
        rcases Nat.lt_trichotomy e e' with hlt | heq | hlt
        · have he := htrue' e (by omega) hlt
          rw [hend] at he
          cases he
        · exact heq
        · have he := htrue e' (by omega) hlt
          rw [hend'] at he
          cases he
      subst hee
      rw [ih hrest']

/-- Every run lies behind the starting position. -/
theorem start_le (h : MaximalRuns f a runs) : ∀ r ∈ runs, a ≤ r.1 := by
  induction h with
  | done => simp
  | @run a s e runs has _ hse _ _ _ ih =>
    intro r hr
    rcases List.mem_cons.mp hr with rfl | hr
    · exact has
    · have hfrom := ih r hr
      omega

/-- No run is empty. -/
theorem pos (h : MaximalRuns f a runs) : ∀ r ∈ runs, 0 < r.2 := by
  induction h with
  | done => simp
  | run _ _ hse _ _ _ ih => exact List.forall_mem_cons.mpr ⟨Nat.sub_pos_of_lt hse, ih⟩

/-- A run starts where the sequence is `true`. -/
theorem start_true (h : MaximalRuns f a runs) : ∀ r ∈ runs, f r.1 = true := by
  induction h with
  | done => simp
  | run _ _ hse htrue _ _ ih =>
    exact List.forall_mem_cons.mpr ⟨htrue _ (Nat.le_refl _) hse, ih⟩

/-- **The runs are separated**: each ends before the next one starts, with a gap in
    between. -/
theorem separated (h : MaximalRuns f a runs) : runs.Pairwise fun r r' => r.1 + r.2 < r'.1 := by
  induction h with
  | done => exact List.Pairwise.nil
  | @run a s e runs _ _ hse _ hend hrest ih =>
    refine List.Pairwise.cons (fun r hr => ?_) ih
    have hfrom := hrest.start_le r hr
    have htrue := hrest.start_true r hr
    have hne : r.1 ≠ e := by
      intro he
      rw [he, hend] at htrue
      cases htrue
    change s + (e - s) < r.1
    omega

/-- **The runs cover** the positions that are `true`. -/
theorem mem_iff (h : MaximalRuns f a runs) {i : ℕ} (hi : a ≤ i) :
    f i = true ↔ ∃ r ∈ runs, r.1 ≤ i ∧ i < r.1 + r.2 := by
  induction h with
  | done hnone =>
    rw [hnone i hi]
    simp
  | @run a s e runs has hgap hse htrue hend hrest ih =>
    rw [List.exists_mem_cons_iff]
    rcases Nat.lt_or_ge i e with hlt | hge
    · have hout : ¬ ∃ r ∈ runs, r.1 ≤ i ∧ i < r.1 + r.2 := by
        rintro ⟨r, hr, hri, -⟩
        have hfrom := hrest.start_le r hr
        omega
      rw [or_iff_left hout]
      rcases Nat.lt_or_ge i s with hlt' | hge'
      · rw [hgap i hi hlt']
        refine iff_of_false (by simp) ?_
        rintro ⟨hsi, -⟩
        omega
      · rw [htrue i hge' hlt]
        refine iff_of_true rfl ⟨hge', ?_⟩
        change i < s + (e - s)
        omega
    · rw [ih hge]
      refine ⟨Or.inr, ?_⟩
      rintro (⟨-, hlt⟩ | hr)
      · change i < s + (e - s) at hlt
        omega
      · exact hr

end MaximalRuns

end RvPipeline.Text
