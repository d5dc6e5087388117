import Mathlib.Logic.Function.Iterate
import Mathlib.Order.WellFounded

/-!
# What a machine comes to

A machine goes on with `step` for ever. Some states are safe. `Reaches step safe q s`
says that, started in `s`, the machine comes to a state with `q`, and that all states
before it are safe: total correctness with a safety condition on the way.

* `Reaches.bind`, `Reaches.mono`: one part of the way after another.
* `Reaches.loop`: a loop whose invariant has an index that goes down.
* `Reaches.keep`: what every safe step keeps still holds at the end.
* `Reaches.exists_iterate`: the number of steps.
-/

namespace RvPipeline.State

variable {σ : Type}

/-- From a state, through safe states, the machine comes to a state with `q`. -/
inductive Reaches (step : σ → σ) (safe q : σ → Prop) : σ → Prop
  | done {s : σ} (h : q s) : Reaches step safe q s
  | step {s : σ} (hs : safe s) (h : Reaches step safe q (step s)) : Reaches step safe q s

section

variable {step : σ → σ} {safe q r inv : σ → Prop} {s : σ}

/-- **Sequences**: the end of one part is the start of the next. -/
theorem Reaches.bind (h : Reaches step safe q s) (hqr : ∀ s, q s → Reaches step safe r s) :
    Reaches step safe r s := by
  induction h with
  | done h => exact hqr _ h
  | step hs _ ih => exact .step hs ih

/-- A weaker end. -/
theorem Reaches.mono (h : Reaches step safe q s) (hqr : ∀ s, q s → r s) :
    Reaches step safe r s :=
  h.bind fun s hs => .done (hqr s hs)

/-- **Invariants** of safe steps hold at the end. -/
theorem Reaches.keep (h : Reaches step safe q s) (hinv : inv s)
    (hstep : ∀ s, safe s → inv s → inv (step s)) : Reaches step safe (fun s => q s ∧ inv s) s := by
  induction h with
  | done h => exact .done ⟨h, hinv⟩
  | step hs _ ih => exact .step hs (ih (hstep _ hs hinv))

/-- **Loops**: each round comes to the end, or to the start of a round with a smaller index. -/
theorem Reaches.loop {ι : Type} [Preorder ι] [WellFoundedLT ι] {round : ι → σ → Prop}
    (h : ∀ i s, round i s → Reaches step safe (fun s => q s ∨ ∃ j < i, round j s) s) (i : ι)
    (hs : round i s) : Reaches step safe q s := by
  induction i using WellFoundedLT.induction generalizing s with
  | ind i ih =>
    refine (h i s hs).bind fun s' hs' => ?_
    rcases hs' with hq | ⟨j, hj, hround⟩
    · exact .done hq
    · exact ih j hj hround

/-- **The number of steps** to the end. -/
theorem Reaches.exists_iterate (h : Reaches step safe q s) :
    ∃ n, q (step^[n] s) ∧ ∀ k < n, safe (step^[k] s) := by
  induction h with
  | done h => exact ⟨0, h, fun k hk => absurd hk (Nat.not_lt_zero k)⟩
  | @step s hs _ ih =>
    obtain ⟨n, hn, hsafe⟩ := ih
    refine ⟨n + 1, hn, fun k hk => ?_⟩
    cases k with
    | zero => exact hs
    | succ k => exact hsafe k (Nat.lt_of_succ_lt_succ hk)

end

end RvPipeline.State
