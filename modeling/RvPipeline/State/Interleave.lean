import Mathlib.Data.List.Basic
import Mathlib.Data.List.Forall2
import Mathlib.Tactic.Common

/-!
# Interleaving

A list of actions is carried out one after the other, and each may fail. Actions of
different kinds commute. Then the order matters only within each kind.

Results:

* `foldlM_ok_iff_of_filter_eq`: two lists with the same actions of every kind, in the
  same order within each kind, have the same outcomes.
* `foldlM_ok_iff_forall₂`: actions that succeed exactly if they mean something.
* `lastOf`: of the values given in a list, the last one counts.
-/

namespace RvPipeline.State

variable {α β ε κ : Type}

theorem bind_eq_ok_iff {γ : Type} {x : Except ε β} {f : β → Except ε γ} {c : γ} :
    x >>= f = .ok c ↔ ∃ b, x = .ok b ∧ f b = .ok c := by
  cases x with
  | error e =>
    constructor
    · intro h
      cases h
    · rintro ⟨b, h, -⟩
      cases h
  | ok b =>
    constructor
    · exact fun h => ⟨b, rfl, h⟩
    · rintro ⟨b', h, hf⟩
      cases h
      exact hf

/-- If `a` and then `b` succeed, so do `b` and then `a`, with the same outcome. -/
def Commute (step : β → α → Except ε β) (a b : α) : Prop :=
  ∀ s u t, step s a = .ok u → step u b = .ok t → ∃ u', step s b = .ok u' ∧ step u' a = .ok t

section

variable {step : β → α → Except ε β} {s t : β}

theorem foldlM_cons_ok_iff {a : α} {l : List α} :
    (a :: l).foldlM step s = .ok t ↔ ∃ u, step s a = .ok u ∧ l.foldlM step u = .ok t := by
  rw [List.foldlM_cons]
  exact bind_eq_ok_iff

/-- An action moves to the front over actions that commute with it. -/
theorem foldlM_move_front {a : α} {front back : List α}
    (hfront : ∀ b ∈ front, Commute step b a)
    (h : (front ++ a :: back).foldlM step s = .ok t) :
    (a :: (front ++ back)).foldlM step s = .ok t := by
  induction front generalizing s with
  | nil => exact h
  | cons b front ih =>
    obtain ⟨hb, hfront⟩ := List.forall_mem_cons.mp hfront
    obtain ⟨u, hu, h⟩ := foldlM_cons_ok_iff.mp h
    obtain ⟨v, hv, h⟩ := foldlM_cons_ok_iff.mp (ih hfront h)
    obtain ⟨u', hu', hv'⟩ := hb s u v hu hv
    exact foldlM_cons_ok_iff.mpr ⟨u', hu', foldlM_cons_ok_iff.mpr ⟨v, hv', h⟩⟩

variable [DecidableEq κ] {kind : α → κ}

/-- The first action of a kind, with actions of other kinds in front. -/
theorem exists_first {a : α} {l rest : List α}
    (h : l.filter (kind · = kind a) = a :: rest) :
    ∃ front back, l = front ++ a :: back ∧ (∀ b ∈ front, kind b ≠ kind a) := by
  induction l with
  | nil => cases h
  | cons b l ih =>
    by_cases hb : kind b = kind a
    · rw [List.filter_cons_of_pos (by simpa using hb)] at h
      obtain ⟨rfl, -⟩ := List.cons.inj h
      exact ⟨[], l, rfl, fun b hb => absurd hb List.not_mem_nil⟩
    · rw [List.filter_cons_of_neg (by simpa using hb)] at h
      obtain ⟨front, back, rfl, hfront⟩ := ih h
      exact ⟨b :: front, back, rfl, List.forall_mem_cons.mpr ⟨hb, hfront⟩⟩

/-- **Order across kinds** does not matter, in one direction. -/
theorem foldlM_ok_of_filter_eq
    (hcomm : ∀ a b, kind a ≠ kind b → Commute step a b) {l l' : List α}
    (hfilter : ∀ k, l.filter (kind · = k) = l'.filter (kind · = k))
    (h : l'.foldlM step s = .ok t) : l.foldlM step s = .ok t := by
  induction l generalizing l' s with
  | nil =>
    cases l' with
    | nil => exact h
    | cons a l' =>
      have ha := hfilter (kind a)
      rw [List.filter_cons_of_pos (by simp)] at ha
      cases ha
  | cons a l ih =>
    have ha := hfilter (kind a)
    rw [List.filter_cons_of_pos (by simp)] at ha
    obtain ⟨front, back, rfl, hfront⟩ := exists_first ha.symm
    have hmoved := foldlM_move_front (fun b hb => hcomm b a (hfront b hb)) h
    obtain ⟨u, hu, hrest⟩ := foldlM_cons_ok_iff.mp hmoved
    refine foldlM_cons_ok_iff.mpr ⟨u, hu, ih (fun k => ?_) hrest⟩
    have hk := hfilter k
    rw [List.filter_append] at hk ⊢
    by_cases hak : kind a = k
    · have hnil : front.filter (kind · = k) = [] := by
        refine List.filter_eq_nil_iff.mpr fun b hb => ?_
        have hne := hfront b hb
        rw [hak] at hne
        simpa using hne
      rw [List.filter_cons_of_pos (by simpa using hak), hnil, List.nil_append,
        List.filter_cons_of_pos (by simpa using hak)] at hk
      rw [hnil, List.nil_append]
      exact (List.cons.inj hk).2
    · rw [List.filter_cons_of_neg (by simpa using hak),
        List.filter_cons_of_neg (by simpa using hak)] at hk
      exact hk

/-- **Order across kinds** does not matter. -/
theorem foldlM_ok_iff_of_filter_eq
    (hcomm : ∀ a b, kind a ≠ kind b → Commute step a b) {l l' : List α}
    (hfilter : ∀ k, l.filter (kind · = k) = l'.filter (kind · = k)) :
    l.foldlM step s = .ok t ↔ l'.foldlM step s = .ok t := by
  constructor
  · exact foldlM_ok_of_filter_eq hcomm fun k => (hfilter k).symm
  · exact foldlM_ok_of_filter_eq hcomm hfilter

/-- Actions that succeed exactly if they mean something, all together. -/
theorem foldlM_ok_iff_forall₂ {γ : Type} {R : α → γ → Prop} {apply : β → γ → β}
    (h : ∀ s a t, step s a = .ok t ↔ ∃ c, R a c ∧ t = apply s c) {l : List α} :
    l.foldlM step s = .ok t ↔ ∃ cs, List.Forall₂ R l cs ∧ t = cs.foldl apply s := by
  induction l generalizing s with
  | nil =>
    constructor
    · intro hs
      cases hs
      exact ⟨[], .nil, rfl⟩
    · rintro ⟨cs, hcs, rfl⟩
      cases hcs
      rfl
  | cons a l ih =>
    rw [foldlM_cons_ok_iff]
    constructor
    · rintro ⟨u, hu, hrest⟩
      obtain ⟨c, hc, rfl⟩ := (h s a u).mp hu
      obtain ⟨cs, hcs, rfl⟩ := ih.mp hrest
      exact ⟨c :: cs, .cons hc hcs, rfl⟩
    · rintro ⟨cs, hcs, rfl⟩
      cases hcs with
      | @cons _ c _ cs hc hcs =>
        exact ⟨_, (h s a _).mpr ⟨c, hc, rfl⟩, ih.mpr ⟨cs, hcs, rfl⟩⟩

end

/-! ## Values given several times -/

section

variable {γ : Type}

/-- The last value that `f` finds in a list, or a default. -/
def lastOf (f : α → Option γ) (default : γ) (l : List α) : γ :=
  (l.filterMap f).getLast?.getD default

theorem lastOf_snoc (f : α → Option γ) (d : γ) (l : List α) (a : α) :
    lastOf f d (l ++ [a]) = (f a).getD (lastOf f d l) := by
  unfold lastOf
  rw [List.filterMap_append]
  cases h : f a with
  | none => rw [List.filterMap_cons_none h, List.filterMap_nil, List.append_nil]; rfl
  | some c =>
    rw [List.filterMap_cons_some h, List.filterMap_nil, List.getLast?_append]
    rfl

end

end RvPipeline.State
