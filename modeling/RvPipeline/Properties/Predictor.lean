import RvPipeline.Pipeline.Progress

/-!
# The branch predictor

What the program can and cannot see of the predictor, and what the predictor
sees of the program.

Results:

* `predictor_invisible`: two runs that differ in the predictor end in the same
  state, unless a store right in front of a conditional branch writes the word
  behind it.
* `not_predictorInvisible_shadow`: such a program, whose result the predictor
  decides.
* `predictor_training`: counters and statistics at the end are those of the
  retired branches, in order.
-/

namespace RvPipeline

open Isa

/-! ## Two runs -/

section

variable {m₀ m₀' m : Machine} {t : Trace} {g : Slots}

/-- Whenever the run from `m₀` halts, the run from `m₀'` does, with the same
    registers, memory, `pc` and instruction count. -/
def PredictorInvisible (m₀ m₀' : Machine) : Prop :=
  ∀ t m, HaltsIn m₀ t m → ∃ t' m', HaltsIn m₀' t' m' ∧ archOf m'.cpu = archOf m.cpu

/-- **The predictor is invisible** to a program in which no store right in front of
    a conditional branch (away from the next word) writes the word executed
    behind that branch. -/
theorem predictor_invisible (h₀ : Initial m₀) (h₀' : Initial m₀')
    (harch : archOf m₀.cpu = archOf m₀'.cpu) (h : HaltsIn m₀ t m)
    (hshadow : BranchShadowSpared instrOf (archOf m₀.cpu) t.issued) :
    ∃ t' m', HaltsIn m₀' t' m' ∧ archOf m'.cpu = archOf m.cpu ∧ t'.issued = t.issued := by
  have hfin := h.finished h₀
  have hpath := hfin.path
  have hhalted := hfin.halted
  have hff := hfin.faultFree
  rw [harch] at hpath hhalted hff hshadow
  obtain ⟨t', m', hm', hsame⟩ := halts_along h₀' hpath hhalted hff hshadow
  refine ⟨t', m', hm', ?_, hsame⟩
  rw [(hm'.finished h₀').state, hfin.state, hsame, harch]

end

/-- The word at address 24 is overwritten long before the branch to it. -/
def patched (type : BranchPredictorType) : Machine :=
  .ofProgram [0x00200137, 0x09310113, 0x00202C23, 0x00000013, 0x00000463, 0x00000013, 0x00100093,
    0x00000073] { branchPredictorType := type }

theorem patched_invisible : ∃ t m t' m', HaltsIn (patched .alwaysNotTaken) t m ∧
    HaltsIn (patched .alwaysTaken) t' m' ∧ archOf m'.cpu = archOf m.cpu ∧
    m.cpu.readReg 1 = 2#32 := by
  obtain ⟨t, m, hm, hx⟩ := exists_haltsIn (patched .alwaysNotTaken) 12
    (fun x => x.1.issued == [⟨0, 0x00200137⟩, ⟨4, 0x09310113⟩, ⟨8, 0x00202C23⟩, ⟨12, 0x00000013⟩,
      ⟨16, 0x00000463⟩, ⟨24, 0x00200093⟩, ⟨28, 0x00000073⟩] && x.2.cpu.readReg 1 == 2#32)
    (by decide +kernel)
  rw [Bool.and_eq_true, beq_iff_eq, beq_iff_eq] at hx
  have hspared : BranchShadowSpared instrOf (archOf (patched .alwaysNotTaken).cpu) t.issued := by
    rw [hx.1]
    exact branchShadowSpared_of_isChain (by decide +kernel)
  have harch : archOf (patched .alwaysNotTaken).cpu = archOf (patched .alwaysTaken).cpu := rfl
  obtain ⟨t', m', hm', hstate, -⟩ :=
    predictor_invisible ⟨rfl, rfl⟩ ⟨rfl, rfl⟩ harch hm hspared
  exact ⟨t, m, t', m', hm, hm', hstate, hx.2⟩

/-- `addi x1, x0, 1` at address 20 is overwritten with `addi x1, x0, 2` by the store
    right in front of the branch to it. -/
def shadow (type : BranchPredictorType) : Machine :=
  .ofProgram [0x00200137, 0x09310113, 0x00202A23, 0x00000463, 0x00000013, 0x00100093, 0x00000073]
    { branchPredictorType := type }

/-- **The predictor decides the result** of a program that stores into a branch
    shadow. -/
theorem not_predictorInvisible_shadow :
    ¬ PredictorInvisible (shadow .alwaysNotTaken) (shadow .alwaysTaken) := by
  intro hinv
  obtain ⟨t, m, hm, hx⟩ := exists_haltsIn (shadow .alwaysNotTaken) 11
    (fun x => x.2.cpu.regs 1 == 2#32) (by decide +kernel)
  obtain ⟨t', m', hm', hx'⟩ := exists_haltsIn (shadow .alwaysTaken) 10
    (fun x => x.2.cpu.regs 1 == 1#32) (by decide +kernel)
  obtain ⟨t₁, m₁, hm₁, hsame⟩ := hinv t m hm
  obtain ⟨-, rfl⟩ := hm'.unique hm₁
  have hregs := congrArg (fun s => s.regs 1) hsame
  change m'.cpu.regs 1 = m.cpu.regs 1 at hregs
  rw [beq_iff_eq] at hx hx'
  rw [hx, hx'] at hregs
  cases hregs

/-! ## Training -/

/-- A two-bit saturating counter after one more outcome. -/
def saturate (counter : ℕ) (taken : Bool) : ℕ := if taken then min (counter + 1) 3 else counter - 1

theorem saturate_le {counter : ℕ} (h : counter ≤ 3) (taken : Bool) : saturate counter taken ≤ 3 := by
  unfold saturate
  cases taken with
  | true => exact Nat.min_le_right _ _
  | false => exact (Nat.sub_le _ _).trans h

namespace BranchPredictor

/-- All counters have two bits. -/
def TwoBit (p : BranchPredictor) : Prop := ∀ i, (p.counters i).toNat ≤ 3

/-- One outcome moves the counter of its entry, and no other. -/
theorem counters_update {p : BranchPredictor} (hp : p.TwoBit) (pc : Word) (taken : Bool)
    (i : Fin 64) : ((p.update pc taken .twoBitSaturating).counters i).toNat =
      if indexFor pc = i then saturate (p.counters i).toNat taken else (p.counters i).toNat := by
  have hle := hp (indexFor pc)
  by_cases hi : indexFor pc = i
  · subst hi
    rw [if_pos rfl, update, if_neg (by simp), saturate]
    cases taken with
    | true =>
      by_cases hlt : p.counters (indexFor pc) < kStronglyTaken
      · have hlt' : (p.counters (indexFor pc)).toNat < 3 := hlt
        simp only [if_true, hlt, Function.update_self, BitVec.toNat_add]
        change ((p.counters (indexFor pc)).toNat + 1) % 256 = _
        omega
      · have hge : ¬ (p.counters (indexFor pc)).toNat < 3 := hlt
        simp only [if_true, hlt, if_false]
        omega
    | false =>
      by_cases hpos : p.counters (indexFor pc) > 0
      · have hpos' : 0 < (p.counters (indexFor pc)).toNat := hpos
        simp only [Bool.false_eq_true, if_false, hpos, if_true, Function.update_self,
          BitVec.toNat_sub]
        change (256 - 1 + (p.counters (indexFor pc)).toNat) % 256 = _
        omega
      · have hzero : ¬ 0 < (p.counters (indexFor pc)).toNat := hpos
        simp only [Bool.false_eq_true, if_false, hpos]
        omega
  · have hne : i ≠ indexFor pc := fun h => hi h.symm
    rw [if_neg hi, update, if_neg (by simp)]
    cases taken with
    | true =>
      simp only [if_true]
      split
      · exact congrArg BitVec.toNat (Function.update_of_ne hne _ _)
      · rfl
    | false =>
      simp only [Bool.false_eq_true, if_false]
      split
      · exact congrArg BitVec.toNat (Function.update_of_ne hne _ _)
      · rfl

theorem TwoBit.update {p : BranchPredictor} (hp : p.TwoBit) (pc : Word) (taken : Bool) :
    (p.update pc taken .twoBitSaturating).TwoBit := by
  intro i
  rw [counters_update hp]
  split
  · exact saturate_le (hp i) taken
  · exact hp i

theorem update_fixed {type : BranchPredictorType} {b : Bool} (h : fixedPrediction type = some b)
    (p : BranchPredictor) (pc : Word) (taken : Bool) : p.update pc taken type = p := by
  cases type with
  | twoBitSaturating => cases h
  | _ => rfl

end BranchPredictor

theorem trained_fixed {type : BranchPredictorType} {b : Bool} (h : fixedPrediction type = some b)
    (p : BranchPredictor) (l : List BranchRecord) : trained type p l = p := by
  induction l generalizing p with
  | nil => rfl
  | cons r l ih =>
    rw [trained, List.foldl_cons, p.update_fixed h]
    exact ih p

/-- **Every counter** is the fold of the outcomes of its branches. -/
theorem counters_trained {p : BranchPredictor} (hp : p.TwoBit) (l : List BranchRecord)
    (i : Fin 64) : ((trained .twoBitSaturating p l).counters i).toNat =
      ((l.filter fun b => BranchPredictor.indexFor b.pc = i).map BranchRecord.taken).foldl saturate
        (p.counters i).toNat := by
  induction l generalizing p with
  | nil => rfl
  | cons r l ih =>
    rw [trained, List.foldl_cons, ← trained, ih (hp.update r.pc r.taken),
      BranchPredictor.counters_update hp]
    by_cases hi : BranchPredictor.indexFor r.pc = i
    · rw [if_pos hi, List.filter_cons_of_pos (by simpa using hi)]
      rfl
    · rw [if_neg hi, List.filter_cons_of_neg (by simpa using hi)]

/-- The conditional branches among the retired instructions, in order. -/
def retiredBranches (m₀ : Machine) (t : Trace) : List BranchRecord :=
  observe instrOf branchesOf (archOf m₀.cpu) t.retired

/-- **The predictor is trained by the retired branches**, each once and in order. -/
theorem predictor_training {m₀ m : Machine} {t : Trace} (h₀ : Initial m₀)
    (hstats : m₀.cpu.stats = {}) (hcounters : m₀.cpu.branchPredictor.TwoBit)
    (h : HaltsIn m₀ t m) :
    m.cpu.stats.branchPredictions = (retiredBranches m₀ t).length ∧
      (m₀.cpu.config.branchPredictorType = .twoBitSaturating →
        ∀ i, (m.cpu.branchPredictor.counters i).toNat =
          (((retiredBranches m₀ t).filter fun b => BranchPredictor.indexFor b.pc = i).map
            BranchRecord.taken).foldl saturate (m₀.cpu.branchPredictor.counters i).toNat) ∧
      ∀ p, fixedPrediction m₀.cpu.config.branchPredictorType = some p →
        m.cpu.branchPredictor = m₀.cpu.branchPredictor ∧
        m.cpu.stats.branchMispredictions =
          (retiredBranches m₀ t).countP fun b => b.offset ≠ 4 ∧ b.taken ≠ p := by
  have hfin := h.finished h₀
  have hbranches : retiredBranches m₀ t = observe instrOf branchesOf (archOf m₀.cpu) t.issued :=
    hfin.observe_retired branchesOf
  rw [hbranches]
  refine ⟨?_, ?_, ?_⟩
  · rw [hfin.predictions, hstats]
    exact Nat.zero_add _
  · intro htype i
    rw [hfin.predictor, htype]
    exact counters_trained hcounters _ i
  · intro p hp
    refine ⟨?_, ?_⟩
    · rw [hfin.predictor, trained_fixed hp]
    · rw [hfin.mispredictions p hp, hstats, Nat.zero_add]
      refine List.countP_congr fun b _ => ?_
      simp [mispredicted]

/-- A loop with one branch, taken once. -/
def countdown : Machine := .ofProgram [0x00200093, 0xFFF08093, 0xFE009EE3, 0x00000073]

theorem countdown_training : ∃ t m, HaltsIn countdown t m ∧
    m.cpu.stats.branchPredictions = (retiredBranches countdown t).length ∧
    (m.cpu.branchPredictor.counters 2).toNat = [true, false].foldl saturate 1 := by
  obtain ⟨t, m, hm, hx⟩ := exists_haltsIn countdown 12 (fun x => x.1.retired ==
    [⟨0, 0x00200093⟩, ⟨4, 0xFFF08093⟩, ⟨8, 0xFE009EE3⟩, ⟨4, 0xFFF08093⟩, ⟨8, 0xFE009EE3⟩,
      ⟨12, 0x00000073⟩]) (by decide +kernel)
  have hinit : Initial countdown := ⟨rfl, rfl⟩
  have hbits : countdown.cpu.branchPredictor.TwoBit := fun _ => (by decide : (1 : ℕ) ≤ 3)
  obtain ⟨hcount, htable, -⟩ := predictor_training hinit rfl hbits hm
  refine ⟨t, m, hm, hcount, ?_⟩
  rw [htable rfl, retiredBranches, beq_iff_eq.mp hx]
  decide +kernel

end RvPipeline
