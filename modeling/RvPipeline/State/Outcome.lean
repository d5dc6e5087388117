import Mathlib.Tactic.Common

/-!
# Outcomes

A computation with a state that may throw, may not end, and writes more than anybody
looks at. Which values it can return is often independent of the state it starts in.

* `Returns`, `Throws`: the outcomes, with rules for sequences.
* `Ends`: the computation ends, from every state.
* `Total`: it returns, from every state.
* `Yields p a c`: from every state, `p` returns `a` exactly if `c`. `Yields.bind`
  follows the text of the computation.
* `Diverges p c`: from every state, `p` never ends exactly if `c`.
* `Keeps part p`: whether `p` returns or throws, it leaves a part of the state alone.
-/

namespace RvPipeline.State

variable {ε σ α β : Type}

/-- A computation with a state that may throw; `none` never ends. -/
abbrev Eff (ε σ : Type) := ExceptT ε (StateT σ Option)

/-- From `s`, `p` returns `a` and leaves `s'`. -/
def Returns (p : Eff ε σ α) (s : σ) (a : α) (s' : σ) : Prop := p.run.run s = some (.ok a, s')

/-- From `s`, `p` throws `e` and leaves `s'`. -/
def Throws (p : Eff ε σ α) (s : σ) (e : ε) (s' : σ) : Prop := p.run.run s = some (.error e, s')

/-- `p` ends, whatever the state. -/
def Ends (p : Eff ε σ α) : Prop := ∀ s, ∃ r, p.run.run s = some r

/-- `p` returns, whatever the state. -/
def Total (p : Eff ε σ α) : Prop := ∀ s, ∃ a s', Returns p s a s'

/-- Whatever the state, `p` returns `a` exactly if `c`. -/
def Yields (p : Eff ε σ α) (a : α) (c : Prop) : Prop := ∀ s, (∃ s', Returns p s a s') ↔ c

section

variable {p : Eff ε σ α} {f : α → Eff ε σ β} {s s' : σ} {a : α} {b : β} {c : Prop}

theorem run_bind_returns (h : Returns p s a s') : (p >>= f).run.run s = (f a).run.run s' := by
  unfold Returns at h
  rw [ExceptT.run_bind, StateT.run_bind, h]
  rfl

theorem run_bind_throws {e : ε} (h : Throws p s e s') :
    (p >>= f).run.run s = some (.error e, s') := by
  unfold Throws at h
  rw [ExceptT.run_bind, StateT.run_bind, h]
  rfl

theorem run_bind_none (h : p.run.run s = none) : (p >>= f).run.run s = none := by
  rw [ExceptT.run_bind, StateT.run_bind, h]
  rfl

/-- What `p` can do. -/
theorem outcome_cases (p : Eff ε σ α) (s : σ) :
    p.run.run s = none ∨ (∃ e s', Throws p s e s') ∨ ∃ a s', Returns p s a s' := by
  cases h : p.run.run s with
  | none => exact .inl rfl
  | some r =>
    obtain ⟨r, s'⟩ := r
    cases r with
    | error e => exact .inr (.inl ⟨e, s', h⟩)
    | ok a => exact .inr (.inr ⟨a, s', h⟩)

theorem returns_bind_iff {s'' : σ} :
    Returns (p >>= f) s b s'' ↔ ∃ a s', Returns p s a s' ∧ Returns (f a) s' b s'' := by
  constructor
  · intro h
    rcases outcome_cases p s with hp | ⟨e, s', hp⟩ | ⟨a, s', hp⟩
    · rw [Returns, run_bind_none hp] at h
      cases h
    · rw [Returns, run_bind_throws hp] at h
      cases h
    · rw [Returns, run_bind_returns hp] at h
      exact ⟨a, s', hp, h⟩
  · rintro ⟨a, s', hp, hf⟩
    exact (run_bind_returns hp).trans hf

theorem Returns.unique {a' : α} {s'' : σ} (h : Returns p s a s') (h' : Returns p s a' s'') :
    a = a' ∧ s' = s'' := by
  rw [Returns, show p.run.run s = _ from h] at h'
  cases h'
  exact ⟨rfl, rfl⟩

theorem returns_pure (a : α) (s : σ) : Returns (pure a : Eff ε σ α) s a s := rfl

/-! ## Ends -/

theorem ends_pure (a : α) : Ends (pure a : Eff ε σ α) := fun s => ⟨_, returns_pure a s⟩

theorem ends_throw (e : ε) : Ends (throw e : Eff ε σ α) := fun s => ⟨(.error e, s), rfl⟩

theorem ends_ofExcept (x : Except ε α) : Ends (MonadExcept.ofExcept x : Eff ε σ α) := by
  cases x with
  | error e => exact ends_throw e
  | ok a => exact ends_pure a

theorem Ends.bind (hp : Ends p) (hf : ∀ a, Ends (f a)) : Ends (p >>= f) := by
  intro s
  rcases outcome_cases p s with h | ⟨e, s', h⟩ | ⟨a, s', h⟩
  · obtain ⟨r, hr⟩ := hp s
    rw [h] at hr
    cases hr
  · exact ⟨_, run_bind_throws h⟩
  · rw [run_bind_returns h]
    exact hf a s'

theorem ends_forM {l : List α} {g : α → Eff ε σ PUnit} (h : ∀ a ∈ l, Ends (g a)) :
    Ends (l.forM g) := by
  induction l with
  | nil => exact ends_pure _
  | cons a l ih =>
    exact (h a List.mem_cons_self).bind fun _ => ih fun a ha => h a (List.mem_cons_of_mem _ ha)

theorem ends_foldlM {l : List α} {g : β → α → Eff ε σ β} (h : ∀ b a, Ends (g b a)) (b : β) :
    Ends (l.foldlM g b) := by
  induction l generalizing b with
  | nil => exact ends_pure b
  | cons a l ih =>
    rw [List.foldlM_cons]
    exact (h b a).bind fun b => ih b

/-! ## Total -/

theorem total_pure (a : α) : Total (pure a : Eff ε σ α) := fun s => ⟨a, s, returns_pure a s⟩

theorem total_modify (g : σ → σ) : Total (modify g : Eff ε σ PUnit) := fun s => ⟨⟨⟩, g s, rfl⟩

theorem Total.bind (hp : Total p) (hf : ∀ a, Total (f a)) : Total (p >>= f) := by
  intro s
  obtain ⟨a, s', h⟩ := hp s
  obtain ⟨b, s'', h'⟩ := hf a s'
  exact ⟨b, s'', returns_bind_iff.mpr ⟨a, s', h, h'⟩⟩

theorem total_forM {l : List α} {g : α → Eff ε σ PUnit} (h : ∀ a ∈ l, Total (g a)) :
    Total (l.forM g) := by
  induction l with
  | nil => exact total_pure _
  | cons a l ih =>
    exact (h a List.mem_cons_self).bind fun _ => ih fun a ha => h a (List.mem_cons_of_mem _ ha)

theorem Total.ends (h : Total p) : Ends p := by
  intro s
  obtain ⟨a, s', hp⟩ := h s
  exact ⟨_, hp⟩

/-! ## Yields -/

theorem yields_pure (a a' : α) : Yields (pure a : Eff ε σ α) a' (a = a') := by
  intro s
  constructor
  · rintro ⟨s', h⟩
    exact ((returns_pure a s).unique h).1
  · rintro rfl
    exact ⟨s, returns_pure a s⟩

theorem yields_throw (e : ε) (a : α) : Yields (throw e : Eff ε σ α) a False := by
  intro s
  constructor
  · rintro ⟨s', h⟩
    cases h
  · exact False.elim

theorem yields_ofExcept (x : Except ε α) (a : α) :
    Yields (MonadExcept.ofExcept x : Eff ε σ α) a (x = .ok a) := by
  intro s
  cases x with
  | error e =>
    constructor
    · rintro ⟨s', h⟩
      cases h
    · intro h
      cases h
  | ok a' =>
    constructor
    · rintro ⟨s', h⟩
      rw [((returns_pure a' s).unique h).1]
    · intro h
      cases h
      exact ⟨s, returns_pure a s⟩

/-- **A sequence** returns `b` if its parts return some `a`, and `b` for it. -/
theorem Yields.bind {c : α → Prop} {d : α → Prop} (hp : ∀ a, Yields p a (c a))
    (hf : ∀ a, c a → Yields (f a) b (d a)) : Yields (p >>= f) b (∃ a, c a ∧ d a) := by
  intro s
  constructor
  · rintro ⟨s'', h⟩
    obtain ⟨a, s', ha, hb⟩ := returns_bind_iff.mp h
    have hc := (hp a s).mp ⟨s', ha⟩
    exact ⟨a, hc, (hf a hc s').mp ⟨s'', hb⟩⟩
  · rintro ⟨a, hc, hd⟩
    obtain ⟨s', ha⟩ := (hp a s).mpr hc
    obtain ⟨s'', hb⟩ := (hf a hc s').mpr hd
    exact ⟨s'', returns_bind_iff.mpr ⟨a, s', ha, hb⟩⟩

/-- A sequence that returns `b` only if its first part returns `a`. -/
theorem Yields.bind_of {d : Prop} (hp : Yields p a c) (hf : c → Yields (f a) b d)
    (hother : ∀ a', a' ≠ a → Yields (f a') b False) : Yields (p >>= f) b (c ∧ d) := by
  intro s
  constructor
  · rintro ⟨s'', h⟩
    obtain ⟨a', s', ha, hb⟩ := returns_bind_iff.mp h
    by_cases haa : a' = a
    · subst haa
      have hc := (hp s).mp ⟨s', ha⟩
      exact ⟨hc, (hf hc s').mp ⟨s'', hb⟩⟩
    · exact ((hother a' haa s').mp ⟨s'', hb⟩).elim
  · rintro ⟨hc, hd⟩
    obtain ⟨s', ha⟩ := (hp s).mpr hc
    obtain ⟨s'', hb⟩ := (hf hc s').mpr hd
    exact ⟨s'', returns_bind_iff.mpr ⟨a, s', ha, hb⟩⟩

/-- A sequence of which the first part returns nothing. -/
theorem Yields.seq {p : Eff ε σ PUnit} {q : Eff ε σ β} {d : Prop} (hp : Yields p ⟨⟩ c)
    (hq : c → Yields q b d) : Yields (p >>= fun _ => q) b (c ∧ d) := by
  intro s
  rw [Yields.bind (fun _ => hp) (fun _ hc => hq hc) s]
  exact ⟨fun ⟨_, h⟩ => h, fun h => ⟨⟨⟩, h⟩⟩

theorem Yields.congr {d : Prop} (h : Yields p a c) (hcd : c ↔ d) : Yields p a d :=
  fun s => (h s).trans hcd

/-- Something total in front makes no difference. -/
theorem Yields.after (hp : Total p) (hf : ∀ a, Yields (f a) b c) : Yields (p >>= f) b c := by
  intro s
  obtain ⟨a, s', h⟩ := hp s
  rw [← hf a s']
  refine exists_congr fun s'' => ?_
  unfold Returns
  rw [run_bind_returns h]

theorem Total.yields {p : Eff ε σ PUnit} (h : Total p) : Yields p ⟨⟩ True := by
  intro s
  obtain ⟨a, s', hp⟩ := h s
  exact iff_of_true ⟨s', hp⟩ trivial

theorem yields_ite {q : Eff ε σ α} {b : Prop} [Decidable b] {d : Prop} (hp : b → Yields p a c)
    (hq : ¬ b → Yields q a d) : Yields (if b then p else q) a ((b ∧ c) ∨ (¬ b ∧ d)) := by
  by_cases hb : b
  · rw [if_pos hb]
    refine (hp hb).congr ?_
    simp only [hb, true_and, not_true_eq_false, false_and, or_false]
  · rw [if_neg hb]
    refine (hq hb).congr ?_
    simp only [hb, false_and, not_false_eq_true, true_and, false_or]

/-! ## Diverges -/

/-- Whatever the state, `p` never ends exactly if `c`. -/
def Diverges (p : Eff ε σ α) (c : Prop) : Prop := ∀ s, p.run.run s = none ↔ c

theorem Ends.diverges (h : Ends p) : Diverges p False := by
  intro s
  obtain ⟨r, hr⟩ := h s
  rw [hr]
  exact iff_of_false (fun h => by cases h) id

theorem Diverges.not_returns (h : Diverges p c) (hc : c) : ¬ Returns p s a s' := by
  intro hp
  rw [Returns, (h s).mpr hc] at hp
  cases hp

theorem Diverges.congr {d : Prop} (h : Diverges p c) (hcd : c ↔ d) : Diverges p d :=
  fun s => (h s).trans hcd

/-- **A sequence** never ends if its first part never ends, or returns something for which
    the second part never ends. -/
theorem Diverges.bind {c d : α → Prop} {e : Prop} (hp : Diverges p e)
    (hret : ∀ a, Yields p a (c a)) (hf : ∀ a, c a → Diverges (f a) (d a)) :
    Diverges (p >>= f) (e ∨ ∃ a, c a ∧ d a) := by
  intro s
  rcases outcome_cases p s with h | ⟨x, s', h⟩ | ⟨a, s', h⟩
  · exact iff_of_true (run_bind_none h) (.inl ((hp s).mp h))
  · have hne : ¬ e := fun he => by
      rw [Throws, (hp s).mpr he] at h
      cases h
    have hnc : ∀ a, ¬ c a := fun a hc => by
      obtain ⟨s'', ha⟩ := (hret a s).mpr hc
      rw [Returns, show p.run.run s = _ from h] at ha
      cases ha
    rw [run_bind_throws h]
    exact iff_of_false (fun h => by cases h) fun hor => hor.elim hne fun ⟨a, hc, _⟩ => hnc a hc
  · have hne : ¬ e := fun he => by
      rw [Returns, (hp s).mpr he] at h
      cases h
    have hca := (hret a s).mp ⟨s', h⟩
    rw [run_bind_returns h, hf a hca s']
    constructor
    · exact fun hd => .inr ⟨a, hca, hd⟩
    · rintro (he | ⟨a', hc, hd⟩)
      · exact absurd he hne
      · obtain ⟨s'', ha⟩ := (hret a' s).mpr hc
        rwa [(h.unique ha).1]

/-- What comes behind ends. -/
theorem Diverges.before (hp : Diverges p c) (hf : ∀ a, Ends (f a)) : Diverges (p >>= f) c := by
  intro s
  rcases outcome_cases p s with h | ⟨x, s', h⟩ | ⟨a, s', h⟩
  · exact iff_of_true (run_bind_none h) ((hp s).mp h)
  · rw [run_bind_throws h, ← hp s, show p.run.run s = _ from h]
    exact iff_of_false (fun h => by cases h) fun h => by cases h
  · obtain ⟨r, hr⟩ := hf a s'
    rw [run_bind_returns h, hr, ← hp s, show p.run.run s = _ from h]
    exact iff_of_false (fun h => by cases h) fun h => by cases h

/-- What comes first ends. -/
theorem Ends.diverges_bind {c d : α → Prop} (hp : Ends p) (hret : ∀ a, Yields p a (c a))
    (hf : ∀ a, c a → Diverges (f a) (d a)) : Diverges (p >>= f) (∃ a, c a ∧ d a) :=
  (Diverges.bind hp.diverges hret hf).congr (iff_of_eq (false_or _))

/-- Something total in front makes no difference. -/
theorem Diverges.after (hp : Total p) (hf : ∀ a, Diverges (f a) c) : Diverges (p >>= f) c := by
  intro s
  obtain ⟨a, s', h⟩ := hp s
  rw [run_bind_returns h]
  exact hf a s'

theorem diverges_ite {q : Eff ε σ α} {b : Prop} [Decidable b] {d : Prop} (hp : b → Diverges p c)
    (hq : ¬ b → Diverges q d) : Diverges (if b then p else q) ((b ∧ c) ∨ (¬ b ∧ d)) := by
  by_cases hb : b
  · rw [if_pos hb]
    refine (hp hb).congr ?_
    simp only [hb, true_and, not_true_eq_false, false_and, or_false]
  · rw [if_neg hb]
    refine (hq hb).congr ?_
    simp only [hb, false_and, not_false_eq_true, true_and, false_or]

/-! ## Frames -/

/-- Whatever `p` returns or throws, it leaves a part of the state as it is. -/
def Keeps {γ : Type} (part : σ → γ) (p : Eff ε σ α) : Prop :=
  ∀ s r s', p.run.run s = some (r, s') → part s' = part s

section

variable {γ : Type} {part : σ → γ}

theorem keeps_pure (a : α) : Keeps part (pure a : Eff ε σ α) := by
  intro s r s' h
  cases h
  rfl

theorem keeps_throw (e : ε) : Keeps part (throw e : Eff ε σ α) := by
  intro s r s' h
  cases h
  rfl

theorem keeps_modify {g : σ → σ} (hg : ∀ s, part (g s) = part s) :
    Keeps part (modify g : Eff ε σ PUnit) := by
  intro s r s' h
  cases h
  exact hg s

theorem keeps_ofExcept (x : Except ε α) :
    Keeps part (MonadExcept.ofExcept x : Eff ε σ α) := by
  cases x with
  | error e => exact keeps_throw e
  | ok a => exact keeps_pure a

/-- **A sequence** leaves alone what both parts leave alone; the second part counts only
    for what the first part can return. -/
theorem Keeps.bind_of (hp : Keeps part p)
    (hf : ∀ a, (∃ s s', Returns p s a s') → Keeps part (f a)) : Keeps part (p >>= f) := by
  intro s r s'' h
  rcases outcome_cases p s with hnone | ⟨e, s', hthrows⟩ | ⟨a, s', hreturns⟩
  · rw [run_bind_none hnone] at h
    cases h
  · rw [run_bind_throws hthrows] at h
    cases h
    exact hp s _ _ hthrows
  · rw [run_bind_returns hreturns] at h
    exact (hf a ⟨s, s', hreturns⟩ s' r s'' h).trans (hp s _ _ hreturns)

theorem Keeps.bind (hp : Keeps part p) (hf : ∀ a, Keeps part (f a)) : Keeps part (p >>= f) :=
  hp.bind_of fun a _ => hf a

theorem keeps_forM {l : List α} {g : α → Eff ε σ PUnit} (h : ∀ a, Keeps part (g a)) :
    Keeps part (l.forM g) := by
  induction l with
  | nil => exact keeps_pure _
  | cons a l ih => exact (h a).bind fun _ => ih

theorem keeps_foldlM {l : List α} {g : β → α → Eff ε σ β} (h : ∀ b a, Keeps part (g b a)) (b : β) :
    Keeps part (l.foldlM g b) := by
  induction l generalizing b with
  | nil => exact keeps_pure b
  | cons a l ih =>
    rw [List.foldlM_cons]
    exact (h b a).bind ih

theorem Keeps.returns (hp : Keeps part p) (h : Returns p s a s') : part s' = part s := hp s _ _ h

end

end

end RvPipeline.State
