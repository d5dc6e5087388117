import Mathlib.Tactic.Common

/-!
# Two computations in lockstep

A computation with a state that may throw, and another one that does the same
from every state that is related to the first one's.

* `SameOutcome`: both return the same value or throw the same exception, and leave
  related states.
* `Lockstep`: related states lead to the same outcome. `Lockstep.bind`,
  `Lockstep.get_bind` and `Lockstep.modify` follow the text of the two computations.
-/

namespace RvPipeline.State

variable {ε σ σ' α β : Type} {R : σ → σ' → Prop}

/-- Both return the same value, or throw the same exception, in related states. -/
inductive SameOutcome (R : σ → σ' → Prop) :
    EStateM.Result ε σ α → EStateM.Result ε σ' α → Prop
  | ok (a : α) {s : σ} {s' : σ'} : R s s' → SameOutcome R (.ok a s) (.ok a s')
  | error (e : ε) {s : σ} {s' : σ'} : R s s' → SameOutcome R (.error e s) (.error e s')

/-- From related states, `x` and `y` have the same outcome. -/
def Lockstep (R : σ → σ' → Prop) (x : EStateM ε σ α) (y : EStateM ε σ' α) : Prop :=
  ∀ s s', R s s' → SameOutcome R (x s) (y s')

theorem Lockstep.pure (a : α) :
    Lockstep R (Pure.pure a : EStateM ε σ α) (Pure.pure a : EStateM ε σ' α) :=
  fun _ _ h => .ok a h

theorem Lockstep.bind {x : EStateM ε σ α} {y : EStateM ε σ' α} {f : α → EStateM ε σ β}
    {g : α → EStateM ε σ' β} (h : Lockstep R x y) (hf : ∀ a, Lockstep R (f a) (g a)) :
    Lockstep R (x >>= f) (y >>= g) := by
  intro s s' hs
  have hxy := h s s' hs
  simp only [Bind.bind, EStateM.bind]
  revert hxy
  generalize x s = r
  generalize y s' = r'
  intro hxy
  cases hxy with
  | ok a ha => exact hf a _ _ ha
  | error e he => exact .error e he

/-- What is read from the state may be different on the two sides. -/
theorem Lockstep.get_bind {f : σ → EStateM ε σ α} {g : σ' → EStateM ε σ' α}
    (h : ∀ s s', R s s' → Lockstep R (f s) (g s')) : Lockstep R (get >>= f) (get >>= g) :=
  fun s s' hs => h s s' hs s s' hs

theorem Lockstep.modify {f : σ → σ} {g : σ' → σ'} (h : ∀ s s', R s s' → R (f s) (g s')) :
    Lockstep R (modify f : EStateM ε σ PUnit) (modify g : EStateM ε σ' PUnit) :=
  fun s s' hs => .ok () (h s s' hs)

end RvPipeline.State
